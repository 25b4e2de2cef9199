/-
  ProxySQL.Alloc.Slots

  The slots of the allocator over whole runs: a client allocates, frees what it
  holds and writes into what it holds, and the slots of every class stay divided
  between the client and the stack of free slots.

  The runs here do not enter `compact_mem`; `ProxySQL.Alloc.Compaction` is about
  that function.
-/
import ProxySQL.Alloc.Pool
import ProxySQL.Lib.Run
import Mathlib.Tactic.Ring
import Mathlib.Data.List.Perm.Basic

namespace ProxySQL

open List Function

open Lib (Chain)

/-! ## The slots of a block -/

variable {i size m x : Nat} {e : Nat → Nat} {s : Pool} {words : Words} {sfc : LSfc}
  {stk : List Nat} {qsort : List Nat → List Nat}

section Slots

variable {elemSize b c x y : Nat}

theorem mem_blockSlots :
    x ∈ blockSlots elemSize b ↔ ∃ j < lSfcMemBlockSize / elemSize, b + j * elemSize = x := by
  simp [blockSlots]

theorem length_blockSlots : (blockSlots elemSize b).length = lSfcMemBlockSize / elemSize := by
  simp [blockSlots]

theorem blockSlots_within (h : x ∈ blockSlots elemSize b) :
    b ≤ x ∧ x + elemSize ≤ b + lSfcMemBlockSize := by
  obtain ⟨j, hj, rfl⟩ := mem_blockSlots.1 h
  have hroom : (j + 1) * elemSize ≤ lSfcMemBlockSize :=
    (Nat.mul_le_mul_right elemSize hj).trans (Nat.div_mul_le_self _ _)
  rw [Nat.succ_mul] at hroom
  omega

theorem nodup_blockSlots (hpos : 0 < elemSize) : (blockSlots elemSize b).Nodup := by
  refine List.Nodup.map (fun j k hjk => ?_) nodup_range
  exact Nat.eq_of_mul_eq_mul_right hpos (Nat.add_left_cancel hjk)

theorem blockSlots_reverse (hsize : elemSize = lSfcMinElemSize * 2 ^ i) (hi : i < lSfpArrayLen) (b : Nat) :
    ∃ x rest, (blockSlots elemSize b).reverse = x :: rest := by
  refine exists_cons_of_ne_nil fun hnil => ?_
  have hlen := congrArg length hnil
  rw [length_reverse, length_blockSlots, hsize] at hlen
  clear hsize
  revert i
  decide

theorem blockSlots_apart (hx : x ∈ blockSlots elemSize b) (hy : y ∈ blockSlots elemSize b) (hne : x ≠ y) :
    x + elemSize ≤ y ∨ y + elemSize ≤ x := by
  obtain ⟨j, -, rfl⟩ := mem_blockSlots.1 hx
  obtain ⟨k, -, rfl⟩ := mem_blockSlots.1 hy
  rcases Nat.lt_trichotomy j k with hlt | rfl | hlt
  · have hle := Nat.mul_le_mul_right elemSize hlt
    rw [Nat.succ_mul] at hle
    omega
  · exact absurd rfl hne
  · have hle := Nat.mul_le_mul_right elemSize hlt
    rw [Nat.succ_mul] at hle
    omega

theorem blocks_apart (hb : b % lSfcMemBlockSize = 0) (hc : c % lSfcMemBlockSize = 0) (hne : b ≠ c) :
    b + lSfcMemBlockSize ≤ c ∨ c + lSfcMemBlockSize ≤ b := by
  simp only [lSfcMemBlockSize] at *
  omega

end Slots

/-- The slots of all blocks of a class. -/
def LSfc.slots (sfc : LSfc) : List Nat := sfc.memBlocks.flatMap (blockSlots sfc.elemSize)

/-! ## Where the blocks are -/

/-- The blocks of the classes are aligned, none is `NULL` and none is there twice. -/
structure Layout (blocks : Nat → List Nat) : Prop where
  aligned : ∀ i, ∀ b ∈ blocks i, b ≠ 0 ∧ b % lSfcMemBlockSize = 0
  nodup : ∀ i, (blocks i).Nodup
  own : ∀ i j b, b ∈ blocks i → b ∈ blocks j → i = j

namespace Layout

variable {blocks : Nat → List Nat} {i j b m x y ei ej : Nat}

theorem add (h : Layout blocks) (hm : m ≠ 0) (haligned : m % lSfcMemBlockSize = 0)
    (hnew : ∀ i, m ∉ blocks i) : Layout (update blocks i (blocks i ++ [m])) := by
  have hmem : ∀ j b, b ∈ update blocks i (blocks i ++ [m]) j → b ∈ blocks j ∨ (j = i ∧ b = m) := by
    intro j b hb
    by_cases hj : j = i
    · subst hj
      rw [update_self] at hb
      rcases mem_append.1 hb with hb | hb
      · exact .inl hb
      · exact .inr ⟨rfl, mem_singleton.1 hb⟩
    · rw [update_of_ne hj] at hb
      exact .inl hb
  refine ⟨fun j b hb => ?_, fun j => ?_, fun j k b hj hk => ?_⟩
  · rcases hmem j b hb with hb | ⟨-, rfl⟩
    · exact h.aligned j b hb
    · exact ⟨hm, haligned⟩
  · by_cases hj : j = i
    · subst hj
      rw [update_self]
      exact nodup_append.2 ⟨h.nodup j, nodup_singleton m, fun a ha b hb heq =>
        hnew j (mem_singleton.1 hb ▸ heq ▸ ha)⟩
    · rw [update_of_ne hj]
      exact h.nodup j
  · rcases hmem j b hj with hold | ⟨rfl, rfl⟩
    · rcases hmem k b hk with hold' | ⟨-, rfl⟩
      · exact h.own j k b hold hold'
      · exact absurd hold (hnew j)
    · rcases hmem k b hk with hold' | ⟨rfl, -⟩
      · exact absurd hold' (hnew k)
      · rfl

theorem apart (h : Layout blocks)
    (hx : x ∈ (blocks i).flatMap (blockSlots (e i))) (hy : y ∈ (blocks j).flatMap (blockSlots (e j)))
    (hne : x ≠ y) : x + e i ≤ y ∨ y + e j ≤ x := by
  obtain ⟨b, hb, hxb⟩ := mem_flatMap.1 hx
  obtain ⟨c, hc, hyc⟩ := mem_flatMap.1 hy
  by_cases hbc : b = c
  · subst hbc
    obtain rfl := h.own i j b hb hc
    exact blockSlots_apart hxb hyc hne
  · have hblocks := blocks_apart (h.aligned i b hb).2 (h.aligned j c hc).2 hbc
    have hxin := blockSlots_within hxb
    have hyin := blockSlots_within hyc
    omega

theorem class_eq (h : Layout blocks) (he : ∀ i, 0 < e i)
    (hi : x ∈ (blocks i).flatMap (blockSlots (e i))) (hj : x ∈ (blocks j).flatMap (blockSlots (e j))) :
    i = j := by
  obtain ⟨b, hb, hxb⟩ := mem_flatMap.1 hi
  obtain ⟨c, hc, hxc⟩ := mem_flatMap.1 hj
  have hblocks := fun hbc => blocks_apart (h.aligned i b hb).2 (h.aligned j c hc).2 hbc
  have hxb := blockSlots_within hxb
  have hxc := blockSlots_within hxc
  have hei := he i
  have hej := he j
  have hbc : b = c := by
    by_contra hne
    omega
  exact h.own i j b hb (hbc ▸ hc)

theorem ne_zero (h : Layout blocks) (hx : x ∈ (blocks i).flatMap (blockSlots (e i))) : x ≠ 0 := by
  obtain ⟨b, hb, hxb⟩ := mem_flatMap.1 hx
  have hne := (h.aligned i b hb).1
  have hle := (blockSlots_within hxb).1
  omega

theorem nodup_slots (h : Layout blocks) (he : ∀ i, 0 < e i) (i : Nat) :
    ((blocks i).flatMap (blockSlots (e i))).Nodup := by
  refine nodup_flatMap.2 ⟨fun b _ => nodup_blockSlots (he i), ?_⟩
  refine (h.nodup i).imp_of_mem fun {b c} hb hc hne => ?_
  intro x hxb hxc
  have hblocks := blocks_apart (h.aligned i b hb).2 (h.aligned i c hc).2 hne
  have hxb := blockSlots_within hxb
  have hxc := blockSlots_within hxc
  have hei := he i
  omega

end Layout

/-! ## Classes -/

/-- The class of a size, with the slot sizes of `l_mem_init`. -/
def slotClass (size : Nat) : Nat :=
  scanClasses (fun i => lSfcMinElemSize * 2 ^ i) size
    (if size ≤ lSfcMidElemSize then lSfpArrayMid - 1 else lSfpArrayLen - 1)

theorem Pool.classOf_eq (h : ∀ i, (s.sfc i).elemSize = lSfcMinElemSize * 2 ^ i) (size : Nat) :
    s.classOf size = slotClass size := by
  have hsizes : (fun i => (s.sfc i).elemSize) = fun i => lSfcMinElemSize * 2 ^ i := funext h
  rw [Pool.classOf, hsizes]
  rfl

theorem slotClass_lt (size : Nat) : slotClass size < lSfpArrayLen := by
  simp only [slotClass, lSfpArrayMid, lSfpArrayLen]
  split <;> simp only [scanClasses] <;> repeat' split
  all_goals omega

theorem le_slotSize (h : size ≤ lSfcMaxElemSize) : size ≤ lSfcMinElemSize * 2 ^ slotClass size := by
  revert size
  decide +kernel

/-! ## The client -/

/-- An allocation that has not been freed. -/
structure Live where
  size : Nat
  addr : Nat
  deriving DecidableEq

/-- The pool and what its client holds. -/
structure Heap where
  pool : Pool
  live : List Live

namespace Heap

/-- `[m, m+n)` overlaps no block and no allocation made with `malloc`. -/
def Fresh (s : Heap) (m n : Nat) : Prop :=
  m ≠ 0 ∧ (∀ i, ∀ b ∈ (s.pool.sfc i).memBlocks, m + n ≤ b ∨ b + lSfcMemBlockSize ≤ m)
    ∧ ∀ l ∈ s.live, lSfcMaxElemSize < l.size → m + n ≤ l.addr ∨ l.addr + l.size ≤ m

/-- What `malloc` and `posix_memalign` promise about `m` when `__l_alloc(size)` calls them. -/
def Provides (s : Heap) (size m : Nat) : Prop :=
  (lSfcMaxElemSize < size → s.Fresh m size)
    ∧ (size ≤ lSfcMaxElemSize → (s.pool.sfc (s.pool.classOf size)).stack = 0 →
        m % lSfcMemBlockSize = 0 ∧ s.Fresh m lSfcMemBlockSize)

/-- Only words that overlap an allocation of the client differ. -/
def WritesLive (s : Heap) (words : Words) : Prop :=
  ∀ x, (∀ l ∈ s.live, x + 8 ≤ l.addr ∨ l.addr + l.size ≤ x) → words x = s.pool.words x

end Heap

inductive AllocEvent where
  | alloc (size m : Nat)
  | free (size p : Nat) (qsort : List Nat → List Nat)
  | write (words : Words)

/-- One step of the client; what it frees it holds, with the size it asked for. -/
def AllocStep (s : Heap) : AllocEvent → Heap → Prop
  | .alloc size m, t =>
      s.Provides size m ∧
        t = { pool := (s.pool.lAlloc size m).1, live := ⟨size, (s.pool.lAlloc size m).2⟩ :: s.live }
  | .free size p qsort, t =>
      ⟨size, p⟩ ∈ s.live ∧ (∀ xs, Qsorted xs (qsort xs))
        ∧ ∃ pool, s.pool.lFree size p qsort = some pool ∧ t = { pool, live := s.live.erase ⟨size, p⟩ }
  | .write words, t => s.WritesLive words ∧ t = { s with pool := { s.pool with words } }

/-- The step does not enter `compact_mem`. -/
def NoCompaction (s : Heap) : AllocEvent → Prop
  | .free size p _ => s.pool.entersCompaction size p = false
  | _ => True

def heapInit (words : Words) : Heap := { pool := lMemInit words, live := [] }

/-! ## The invariant -/

/-- The slots of class `i` in a list of allocations. -/
def liveSlots (live : List Live) (i : Nat) : List Nat :=
  (live.filter fun l => l.size ≤ lSfcMaxElemSize ∧ slotClass l.size = i).map Live.addr

/-- Two regions do not overlap. -/
def Live.Apart (a b : Live) : Prop := a.addr + a.size ≤ b.addr ∨ b.addr + b.size ≤ a.addr

/-- Allocations made with `malloc`. -/
def largeOf (live : List Live) : List Live := live.filter fun l => lSfcMaxElemSize < l.size

structure Heap.Sound (s : Heap) : Prop where
  elemSize : ∀ i, (s.pool.sfc i).elemSize = lSfcMinElemSize * 2 ^ i
  layout : Layout fun i => (s.pool.sfc i).memBlocks
  large : ∀ l ∈ largeOf s.live, ∀ i, ∀ b ∈ (s.pool.sfc i).memBlocks,
    l.addr + l.size ≤ b ∨ b + lSfcMemBlockSize ≤ l.addr
  largeApart : (largeOf s.live).Pairwise Live.Apart
  parts : ∀ i, ∃ stk, Chain s.pool.words 0 (s.pool.sfc i).stack stk
    ∧ (s.pool.sfc i).slots.Perm (liveSlots s.live i ++ stk)

/-! ### Lists of allocations -/

section LiveLists

variable {live live' : List Live} {l : Live} {i : Nat}

theorem liveSlots_cons_self (h : l.size ≤ lSfcMaxElemSize) :
    liveSlots (l :: live) (slotClass l.size) = l.addr :: liveSlots live (slotClass l.size) := by
  simp [liveSlots, h]

theorem liveSlots_cons_of_ne (h : slotClass l.size ≠ i) : liveSlots (l :: live) i = liveSlots live i := by
  simp [liveSlots, h]

theorem liveSlots_cons_large (h : lSfcMaxElemSize < l.size) (i : Nat) :
    liveSlots (l :: live) i = liveSlots live i := by
  simp [liveSlots, Nat.not_le.2 h]

theorem largeOf_cons_small (h : l.size ≤ lSfcMaxElemSize) : largeOf (l :: live) = largeOf live := by
  simp [largeOf, Nat.not_lt.2 h]

theorem largeOf_cons_large (h : lSfcMaxElemSize < l.size) : largeOf (l :: live) = l :: largeOf live := by
  simp [largeOf, h]

theorem liveSlots_perm (h : live.Perm live') (i : Nat) : (liveSlots live i).Perm (liveSlots live' i) :=
  (h.filter _).map _

theorem largeOf_perm (h : live.Perm live') : (largeOf live).Perm (largeOf live') := h.filter _

theorem mem_largeOf : l ∈ largeOf live ↔ l ∈ live ∧ lSfcMaxElemSize < l.size := by
  simp [largeOf]

theorem addr_mem_liveSlots (h : l ∈ live) (hsmall : l.size ≤ lSfcMaxElemSize) :
    l.addr ∈ liveSlots live (slotClass l.size) :=
  mem_map.2 ⟨l, mem_filter.2 ⟨h, by simp [hsmall]⟩, rfl⟩

theorem Live.Apart.symm {a b : Live} (h : a.Apart b) : b.Apart a := Or.symm h

end LiveLists

/-! ### What one operation does to its class -/

theorem Pool.lAlloc_large (h : lSfcMaxElemSize < size) : s.lAlloc size m = (s, m) :=
  if_pos h

theorem lStackPop_zero (words : Words) : lStackPop words 0 = (words, 0, 0) := if_pos rfl

theorem lStackPop_of_ne (h : x ≠ 0) :
    lStackPop words x = (update words x 0, words x, x) := if_neg h

theorem Pool.lAlloc_pop (h : size ≤ lSfcMaxElemSize)
    (hx : (s.sfc (s.classOf size)).stack = x) (hne : x ≠ 0) :
    s.lAlloc size m =
      (s.setClass (s.classOf size) (update s.words x 0)
        { s.sfc (s.classOf size) with stack := s.words x }, x) := by
  rw [Pool.lAlloc, if_neg (Nat.not_lt.2 h)]
  simp only [hx, lStackPop_of_ne hne]
  rw [if_pos hne]

theorem Pool.lAlloc_grow {g : Words × LSfc}
    (h : size ≤ lSfcMaxElemSize) (hstack : (s.sfc (s.classOf size)).stack = 0)
    (hg : growClass s.words (s.sfc (s.classOf size)) m = g) (hx : g.2.stack = x) (hne : x ≠ 0) :
    s.lAlloc size m =
      (s.setClass (s.classOf size) (update g.1 x 0) { g.2 with stack := g.1 x }, x) := by
  have hsame : { s.sfc (s.classOf size) with stack := 0 } = s.sfc (s.classOf size) := by
    rw [← hstack]
  rw [Pool.lAlloc, if_neg (Nat.not_lt.2 h)]
  simp only [hstack, lStackPop_zero, hsame, hg, hx, lStackPop_of_ne hne]
  rw [if_neg (not_not.2 rfl)]

theorem growClass_memBlocks (words : Words) (sfc : LSfc) (m : Nat) :
    (growClass words sfc m).2.memBlocks = sfc.memBlocks ++ [m] := rfl

theorem growClass_elemSize (words : Words) (sfc : LSfc) (m : Nat) :
    (growClass words sfc m).2.elemSize = sfc.elemSize := rfl

theorem growClass_chain (h : Chain words 0 sfc.stack stk) (hpos : 0 < sfc.elemSize) (hm : m ≠ 0)
    (hnew : ∀ x ∈ blockSlots sfc.elemSize m, x ∉ stk) :
    Chain (growClass words sfc m).1 0 (growClass words sfc m).2.stack
      ((blockSlots sfc.elemSize m).reverse ++ stk) := by
  refine h.pushAll (nodup_blockSlots hpos) hnew fun x hx => ?_
  have hle := (blockSlots_within hx).1
  omega

theorem growClass_words (hx : x ∉ blockSlots sfc.elemSize m) :
    (growClass words sfc m).1 x = words x :=
  Lib.pushAll_of_notMem hx

/-- The stack of the class was empty: of the new block the last slot is returned and the others are
    on the stack. -/
theorem Pool.lAlloc_of_empty
    (helem : ∀ i, (s.sfc i).elemSize = lSfcMinElemSize * 2 ^ i) (hsize : size ≤ lSfcMaxElemSize)
    (hstack : (s.sfc (s.classOf size)).stack = 0) (hm : m ≠ 0) :
    ∃ g x rest, growClass s.words (s.sfc (s.classOf size)) m = g
      ∧ (blockSlots (s.sfc (s.classOf size)).elemSize m).reverse = x :: rest
      ∧ Chain (update g.1 x 0) 0 (g.1 x) rest
      ∧ s.lAlloc size m =
          (s.setClass (s.classOf size) (update g.1 x 0) { g.2 with stack := g.1 x }, x) := by
  have hclass := Pool.classOf_eq helem size
  obtain ⟨x, rest, hslots⟩ := blockSlots_reverse (helem (s.classOf size)) (hclass ▸ slotClass_lt size) m
  have hpos : 0 < (s.sfc (s.classOf size)).elemSize := by
    rw [helem]
    exact Nat.mul_pos (by decide) (Nat.two_pow_pos _)
  have hnodup : (x :: rest).Nodup := hslots ▸ nodup_reverse.2 (nodup_blockSlots hpos)
  have hempty : Chain s.words 0 (s.sfc (s.classOf size)).stack [] := hstack
  have hgrown := growClass_chain hempty hpos hm fun _ _ => not_mem_nil
  rw [append_nil, hslots] at hgrown
  refine ⟨_, x, rest, rfl, hslots, hgrown.pop (nodup_cons.1 hnodup).1, ?_⟩
  exact Pool.lAlloc_grow hsize hstack rfl hgrown.1 hgrown.2.1

theorem LSfc.mem_slots :
    x ∈ sfc.slots ↔ ∃ b ∈ sfc.memBlocks, x ∈ blockSlots sfc.elemSize b := mem_flatMap

theorem Pool.lFree_small {p : Nat} (h : size ≤ lSfcMaxElemSize)
    (hdue : s.entersCompaction size p = false) :
    s.lFree size p qsort =
      some (s.setClass (s.classOf size) (giveBack s.words (s.sfc (s.classOf size)) p).1
        (giveBack s.words (s.sfc (s.classOf size)) p).2) := by
  have hnot : (giveBack s.words (s.sfc (s.classOf size)) p).2.compactionDue = false := by
    simpa [Pool.entersCompaction, h] using hdue
  simp only [Pool.lFree, if_neg (Nat.not_lt.2 h), hnot, Bool.false_eq_true, if_false]

/-! ### Every step keeps the invariant -/

variable {live : List Live} {l : Live}

namespace Heap.Sound

variable {s : Heap}

theorem init (words : Words) : (heapInit words).Sound where
  elemSize _ := rfl
  layout := ⟨fun _ _ hb => absurd hb not_mem_nil, fun _ => nodup_nil,
    fun _ _ _ hb => absurd hb not_mem_nil⟩
  large _ hl := absurd hl not_mem_nil
  largeApart := List.Pairwise.nil
  parts _ := ⟨[], rfl, List.Perm.nil⟩

theorem elemSize_pos (h : s.Sound) (i : Nat) : 0 < (s.pool.sfc i).elemSize := by
  rw [h.elemSize]
  exact Nat.mul_pos (by decide) (Nat.two_pow_pos i)

theorem nodup_slots (h : s.Sound) (i : Nat) : (s.pool.sfc i).slots.Nodup :=
  h.layout.nodup_slots h.elemSize_pos i

/-- One class changes: its blocks, its stack and the links in its slots, and which of its slots the
    client holds. -/
theorem setClass (h : s.Sound) (hsize : sfc.elemSize = (s.pool.sfc i).elemSize)
    (hlayout : Layout (update (fun j => (s.pool.sfc j).memBlocks) i sfc.memBlocks))
    (hblocks : ∀ l ∈ largeOf s.live, ∀ b ∈ sfc.memBlocks,
      l.addr + l.size ≤ b ∨ b + lSfcMemBlockSize ≤ l.addr)
    (hwords : ∀ x, x ∉ sfc.slots → words x = s.pool.words x)
    (hlarge : (largeOf live).Perm (largeOf s.live))
    (hother : ∀ j, j ≠ i → (liveSlots live j).Perm (liveSlots s.live j))
    (hparts : ∃ stk, Chain words 0 sfc.stack stk ∧ sfc.slots.Perm (liveSlots live i ++ stk)) :
    Heap.Sound { pool := s.pool.setClass i words sfc, live } := by
  have hself := Pool.setClass_sfc_self s.pool i words sfc
  have hne := fun j hj => Pool.setClass_sfc_of_ne s.pool (i := i) (j := j) words sfc hj
  have hlayout' : Layout fun j => ((s.pool.setClass i words sfc).sfc j).memBlocks := by
    convert hlayout using 2 with j
    by_cases hj : j = i
    · subst hj
      rw [hself, update_self]
    · rw [hne j hj, update_of_ne hj]
  have hsizes : ∀ j, ((s.pool.setClass i words sfc).sfc j).elemSize = lSfcMinElemSize * 2 ^ j := by
    intro j
    by_cases hj : j = i
    · subst hj
      rw [hself, hsize, h.elemSize]
    · rw [hne j hj, h.elemSize]
  refine ⟨hsizes, hlayout', fun l hl j b hb => ?_, ?_, fun j => ?_⟩
  · have hold := hlarge.mem_iff.1 hl
    by_cases hj : j = i
    · subst hj
      rw [hself] at hb
      exact hblocks l hold b hb
    · rw [hne j hj] at hb
      exact h.large l hold j b hb
  · exact (hlarge.pairwise_iff fun {a b} => Live.Apart.symm).2 h.largeApart
  · by_cases hj : j = i
    · subst hj
      rw [hself]
      exact hparts
    · -- The links of another class stand in slots that are not this one's.
      obtain ⟨stk, hchain, hperm⟩ := h.parts j
      rw [hne j hj]
      refine ⟨stk, hchain.congr fun x hx => hwords x fun hxi => hj ?_, ?_⟩
      · have hxj : x ∈ (s.pool.sfc j).slots := hperm.mem_iff.2 (mem_append_right _ hx)
        refine hlayout'.class_eq (e := fun k => ((s.pool.setClass i words sfc).sfc k).elemSize)
          (fun k => ?_) (x := x) ?_ ?_
        · rw [hsizes]
          exact Nat.mul_pos (by decide) (Nat.two_pow_pos k)
        · rw [hne j hj]
          exact hxj
        · rw [hself]
          exact hxi
      · exact hperm.trans (List.Perm.append_right stk (hother j hj).symm)

theorem setClass_same (h : s.Sound)
    (hsize : sfc.elemSize = (s.pool.sfc i).elemSize) (hsame : sfc.memBlocks = (s.pool.sfc i).memBlocks)
    (hwords : ∀ x, x ∉ (s.pool.sfc i).slots → words x = s.pool.words x)
    (hlarge : (largeOf live).Perm (largeOf s.live))
    (hother : ∀ j, j ≠ i → (liveSlots live j).Perm (liveSlots s.live j))
    (hparts : ∃ stk, Chain words 0 sfc.stack stk ∧ (s.pool.sfc i).slots.Perm (liveSlots live i ++ stk)) :
    Heap.Sound { pool := s.pool.setClass i words sfc, live } := by
  have hslots : sfc.slots = (s.pool.sfc i).slots := by rw [LSfc.slots, LSfc.slots, hsize, hsame]
  refine h.setClass hsize ?_ ?_ ?_ hlarge hother ?_
  · rw [hsame, update_eq_self i fun j => (s.pool.sfc j).memBlocks]
    exact h.layout
  · rw [hsame]
    exact fun l hl b hb => h.large l hl i b hb
  · rw [hslots]
    exact hwords
  · rw [hslots]
    exact hparts

theorem alloc_large (h : s.Sound) (hsize : lSfcMaxElemSize < size) (hm : s.Fresh m size) :
    Heap.Sound { pool := s.pool, live := ⟨size, m⟩ :: s.live } := by
  obtain ⟨-, hblocks, hlive⟩ := hm
  refine ⟨h.elemSize, h.layout, ?_, ?_, fun i => ?_⟩
  · intro l hl i b hb
    rw [largeOf_cons_large hsize] at hl
    rcases mem_cons.1 hl with rfl | hl
    · exact hblocks i b hb
    · exact h.large l hl i b hb
  · rw [largeOf_cons_large hsize]
    refine pairwise_cons.2 ⟨fun l hl => ?_, h.largeApart⟩
    obtain ⟨hl, hlarge⟩ := mem_largeOf.1 hl
    exact hlive l hl hlarge
  · rw [liveSlots_cons_large hsize]
    exact h.parts i

theorem alloc_pop (h : s.Sound) (hsize : size ≤ lSfcMaxElemSize)
    (hx : (s.pool.sfc (s.pool.classOf size)).stack = x) (hne : x ≠ 0) :
    Heap.Sound { pool := (s.pool.lAlloc size m).1,
                 live := ⟨size, (s.pool.lAlloc size m).2⟩ :: s.live } := by
  rw [Pool.lAlloc_pop hsize hx hne]
  have hclass := Pool.classOf_eq h.elemSize size
  obtain ⟨stk, hchain, hperm⟩ := h.parts (s.pool.classOf size)
  rw [hx] at hchain
  obtain ⟨y, rest, rfl⟩ : ∃ y rest, stk = y :: rest :=
    exists_cons_of_ne_nil (mt hchain.eq_null_iff.2 hne)
  obtain rfl : x = y := hchain.1
  have hnodup := hperm.nodup_iff.1 (h.nodup_slots _)
  have hrest : x ∉ rest := (nodup_cons.1 (nodup_append.1 hnodup).2.1).1
  have hslot : x ∈ (s.pool.sfc (s.pool.classOf size)).slots :=
    hperm.mem_iff.2 (mem_append_right _ mem_cons_self)
  refine h.setClass_same rfl rfl (fun y hy => ?_) ?_ (fun j hj => ?_) ⟨rest, hchain.pop hrest, ?_⟩
  · exact update_of_ne (fun heq : y = x => hy (heq ▸ hslot)) ..
  · rw [largeOf_cons_small hsize]
  · rw [liveSlots_cons_of_ne (l := ⟨size, x⟩) (hclass ▸ hj.symm)]
  · rw [hclass, liveSlots_cons_self (l := ⟨size, x⟩) hsize]
    rw [hclass] at hperm
    exact hperm.trans perm_middle

theorem alloc_grow (h : s.Sound) (hsize : size ≤ lSfcMaxElemSize)
    (hstack : (s.pool.sfc (s.pool.classOf size)).stack = 0) (haligned : m % lSfcMemBlockSize = 0)
    (hm : s.Fresh m lSfcMemBlockSize) :
    Heap.Sound { pool := (s.pool.lAlloc size m).1,
                 live := ⟨size, (s.pool.lAlloc size m).2⟩ :: s.live } := by
  obtain ⟨hne, hblocks, hlive⟩ := hm
  have hclass := Pool.classOf_eq h.elemSize size
  obtain ⟨stk, hchain, hperm⟩ := h.parts (s.pool.classOf size)
  obtain rfl : stk = [] := hchain.eq_null_iff.1 hstack
  obtain ⟨g, x, rest, hg, hslots, hrest, halloc⟩ := Pool.lAlloc_of_empty h.elemSize hsize hstack hne
  have hx : x ∈ blockSlots (s.pool.sfc (s.pool.classOf size)).elemSize m :=
    mem_reverse.1 (hslots ▸ mem_cons_self ..)
  have hnew : ∀ i, m ∉ (s.pool.sfc i).memBlocks := by
    intro i hb
    have hapart := hblocks i m hb
    simp only [lSfcMemBlockSize] at hapart
    omega
  have hmemBlocks := growClass_memBlocks s.pool.words (s.pool.sfc (s.pool.classOf size)) m
  have helemSize := growClass_elemSize s.pool.words (s.pool.sfc (s.pool.classOf size)) m
  have hwords := fun y => @growClass_words m y s.pool.words (s.pool.sfc (s.pool.classOf size))
  rw [hg] at hmemBlocks helemSize hwords
  rw [halloc]
  refine h.setClass helemSize ?_ ?_ ?_ ?_ ?_ ⟨rest, hrest, ?_⟩
  · rw [hmemBlocks]
    exact h.layout.add hne haligned hnew
  · rw [hmemBlocks]
    intro l hl b hb
    rcases mem_append.1 hb with hb | hb
    · exact h.large l hl _ b hb
    · obtain rfl := mem_singleton.1 hb
      obtain ⟨hl, hlarge⟩ := mem_largeOf.1 hl
      exact (hlive l hl hlarge).symm
  · intro y hy
    have hyblock : y ∉ blockSlots (s.pool.sfc (s.pool.classOf size)).elemSize m := by
      intro hin
      refine hy (LSfc.mem_slots.2 ⟨m, ?_, ?_⟩)
      · rw [hmemBlocks]
        exact mem_append_right _ (mem_singleton_self m)
      · rw [helemSize]
        exact hin
    rw [update_of_ne fun heq : y = x => hyblock (heq ▸ hx)]
    exact hwords y hyblock
  · rw [largeOf_cons_small hsize]
  · intro j hj
    rw [liveSlots_cons_of_ne (l := ⟨size, x⟩) (hclass ▸ hj.symm)]
  · have hall : LSfc.slots { g.2 with stack := g.1 x }
        = (s.pool.sfc (s.pool.classOf size)).slots ++
        blockSlots (s.pool.sfc (s.pool.classOf size)).elemSize m := by
      simp [LSfc.slots, hmemBlocks, helemSize]
    have hblock : (blockSlots (s.pool.sfc (s.pool.classOf size)).elemSize m).Perm (x :: rest) :=
      hslots ▸ (reverse_perm _).symm
    rw [append_nil] at hperm
    rw [hall]
    refine (hperm.append hblock).trans ?_
    rw [hclass, liveSlots_cons_self (l := ⟨size, x⟩) hsize]
    exact perm_middle

theorem alloc (h : s.Sound) (hm : s.Provides size m) :
    Heap.Sound { pool := (s.pool.lAlloc size m).1,
                 live := ⟨size, (s.pool.lAlloc size m).2⟩ :: s.live } := by
  rcases Nat.lt_or_ge lSfcMaxElemSize size with hlarge | hsmall
  · rw [Pool.lAlloc_large hlarge]
    exact h.alloc_large hlarge (hm.1 hlarge)
  · by_cases hstack : (s.pool.sfc (s.pool.classOf size)).stack = 0
    · obtain ⟨haligned, hfresh⟩ := hm.2 hsmall hstack
      exact h.alloc_grow hsmall hstack haligned hfresh
    · exact h.alloc_pop hsmall rfl hstack

theorem free (h : s.Sound) {p : Nat} {pool : Pool}
    (hlive : ⟨size, p⟩ ∈ s.live) (hdue : s.pool.entersCompaction size p = false)
    (hfree : s.pool.lFree size p qsort = some pool) :
    Heap.Sound { pool, live := s.live.erase ⟨size, p⟩ } := by
  have hperm := perm_cons_erase hlive
  rcases Nat.lt_or_ge lSfcMaxElemSize size with hlarge | hsmall
  · obtain rfl : s.pool = pool := Option.some.inj ((if_pos hlarge).symm.trans hfree)
    have hrest := largeOf_perm hperm
    rw [largeOf_cons_large hlarge] at hrest
    refine ⟨h.elemSize, h.layout, fun l hl => h.large l (hrest.mem_iff.2 (mem_cons_of_mem _ hl)), ?_, ?_⟩
    · exact (pairwise_cons.1 ((hrest.pairwise_iff fun {a b} => Live.Apart.symm).1 h.largeApart)).2
    · intro i
      obtain ⟨stk, hchain, hslots⟩ := h.parts i
      have hsame := liveSlots_perm hperm i
      rw [liveSlots_cons_large hlarge] at hsame
      exact ⟨stk, hchain, hslots.trans (hsame.append_right stk)⟩
  · rw [Pool.lFree_small hsmall hdue] at hfree
    cases hfree
    have hclass := Pool.classOf_eq h.elemSize size
    obtain ⟨stk, hchain, hslots⟩ := h.parts (s.pool.classOf size)
    have hsame := liveSlots_perm hperm (s.pool.classOf size)
    rw [hclass, liveSlots_cons_self (l := ⟨size, p⟩) hsmall, ← hclass] at hsame
    have hmoved := hslots.trans (hsame.append_right stk)
    have hslot : p ∈ (s.pool.sfc (s.pool.classOf size)).slots :=
      hmoved.mem_iff.2 (mem_append_left _ mem_cons_self)
    have hnot : p ∉ stk := fun hp =>
      (nodup_cons.1 (hmoved.nodup_iff.1 (h.nodup_slots _))).1 (mem_append_right _ hp)
    have hnull : p ≠ 0 := h.layout.ne_zero (e := fun i => (s.pool.sfc i).elemSize) hslot
    refine h.setClass_same rfl rfl (fun y hy => ?_) ?_ (fun j hj => ?_)
      ⟨p :: stk, hchain.push hnot hnull, hmoved.trans perm_middle.symm⟩
    · exact update_of_ne (fun heq : y = p => hy (heq ▸ hslot)) ..
    · have hrest := largeOf_perm hperm
      rw [largeOf_cons_small hsmall] at hrest
      exact hrest.symm
    · have hrest := liveSlots_perm hperm j
      rw [liveSlots_cons_of_ne (l := ⟨size, p⟩) (hclass ▸ hj.symm)] at hrest
      exact hrest.symm

/-! ### Writing -/

theorem live_slot (h : s.Sound) (hl : l ∈ s.live) (hsmall : l.size ≤ lSfcMaxElemSize) :
    l.addr ∈ (s.pool.sfc (slotClass l.size)).slots := by
  obtain ⟨stk, -, hslots⟩ := h.parts (slotClass l.size)
  exact hslots.mem_iff.2 (mem_append_left _ (addr_mem_liveSlots hl hsmall))

theorem free_apart (h : s.Sound)
    (hslots : (s.pool.sfc i).slots.Perm (liveSlots s.live i ++ stk)) (hx : x ∈ stk)
    (hl : l ∈ s.live) : x + 8 ≤ l.addr ∨ l.addr + l.size ≤ x := by
  have hxslot : x ∈ (s.pool.sfc i).slots := hslots.mem_iff.2 (mem_append_right _ hx)
  have hroom : 8 ≤ (s.pool.sfc i).elemSize := by
    rw [h.elemSize]
    exact Nat.le_mul_of_pos_right _ (Nat.two_pow_pos i)
  rcases Nat.lt_or_ge lSfcMaxElemSize l.size with hlarge | hsmall
  · obtain ⟨b, hb, hxb⟩ := LSfc.mem_slots.1 hxslot
    have hblock := h.large l (mem_largeOf.2 ⟨hl, hlarge⟩) i b hb
    have hwithin := blockSlots_within hxb
    omega
  · have haddr := h.live_slot hl hsmall
    have hsize : l.size ≤ (s.pool.sfc (slotClass l.size)).elemSize := by
      rw [h.elemSize]
      exact le_slotSize hsmall
    have hne : x ≠ l.addr := by
      rintro rfl
      obtain rfl := h.layout.class_eq (e := fun i => (s.pool.sfc i).elemSize) h.elemSize_pos hxslot haddr
      exact (nodup_append.1 (hslots.nodup_iff.1 (h.nodup_slots _))).2.2 _
        (addr_mem_liveSlots hl hsmall) _ hx rfl
    have hapart := h.layout.apart (e := fun i => (s.pool.sfc i).elemSize) hxslot haddr hne
    omega

theorem write (h : s.Sound) (hw : s.WritesLive words) :
    Heap.Sound { s with pool := { s.pool with words } } := by
  refine ⟨h.elemSize, h.layout, h.large, h.largeApart, fun i => ?_⟩
  obtain ⟨stk, hchain, hslots⟩ := h.parts i
  exact ⟨stk, hchain.congr fun x hx => hw x fun l hl => h.free_apart hslots hx hl, hslots⟩

theorem step (h : s.Sound) {e : AllocEvent} {t : Heap} (hstep : AllocStep s e t) (hno : NoCompaction s e) :
    t.Sound := by
  cases e with
  | alloc size m =>
    obtain ⟨hm, rfl⟩ := hstep
    exact h.alloc hm
  | free size p qsort =>
    obtain ⟨hlive, -, pool, hfree, rfl⟩ := hstep
    exact h.free hlive hno hfree
  | write words =>
    obtain ⟨hw, rfl⟩ := hstep
    exact h.write hw

end Heap.Sound

/-! ## The result -/

/-- The bytes set aside for an allocation: a whole slot, or what was asked of `malloc`. -/
def Heap.extent (s : Heap) (l : Live) : Nat :=
  if l.size ≤ lSfcMaxElemSize then (s.pool.sfc (s.pool.classOf l.size)).elemSize else l.size

/-- What the client relies on. -/
structure Heap.SlotsOk (s : Heap) : Prop where
  /-- Up to 256 bytes are served by a slot, large enough, of a block of the class. -/
  slot : ∀ l ∈ s.live, l.size ≤ lSfcMaxElemSize →
    ∃ i < lSfpArrayLen, l.size ≤ (s.pool.sfc i).elemSize ∧
      ∃ b ∈ (s.pool.sfc i).memBlocks, l.addr ∈ blockSlots (s.pool.sfc i).elemSize b
        ∧ b ≤ l.addr ∧ l.addr + l.size ≤ b + lSfcMemBlockSize
  /-- Allocations share no byte. -/
  apart : s.live.Pairwise fun a b => a.addr + s.extent a ≤ b.addr ∨ b.addr + s.extent b ≤ a.addr
  /-- The slots of a class are the client's and the stack's, each of them once. -/
  partition : ∀ i < lSfpArrayLen, (s.pool.sfc i).slots.Nodup ∧
    ∃ stk, Chain s.pool.words 0 (s.pool.sfc i).stack stk
      ∧ (s.pool.sfc i).slots.Perm (liveSlots s.live i ++ stk)

namespace Heap.Sound

variable {s : Heap}

theorem extent_small (h : s.Sound) (hl : l.size ≤ lSfcMaxElemSize) :
    s.extent l = (s.pool.sfc (slotClass l.size)).elemSize := by
  rw [Heap.extent, if_pos hl, Pool.classOf_eq h.elemSize]

theorem extent_large (hl : lSfcMaxElemSize < l.size) : s.extent l = l.size :=
  if_neg (Nat.not_le.2 hl)

theorem addr_ne (h : s.Sound) {a b : Live} (hab : [a, b].Sublist s.live) (ha : a.size ≤ lSfcMaxElemSize)
    (hb : b.size ≤ lSfcMaxElemSize) : a.addr ≠ b.addr := by
  have hamem : a ∈ s.live := hab.subset mem_cons_self
  have hbmem : b ∈ s.live := hab.subset (mem_cons_of_mem _ (mem_singleton_self b))
  by_cases hclass : slotClass b.size = slotClass a.size
  · -- Within one class the two are different entries of a list without repetition.
    obtain ⟨stk, -, hslots⟩ := h.parts (slotClass a.size)
    have hnodup := (nodup_append.1 (hslots.nodup_iff.1 (h.nodup_slots _))).1
    have hsub : [a.addr, b.addr].Sublist (liveSlots s.live (slotClass a.size)) := by
      have hkept :=
        (hab.filter fun l => l.size ≤ lSfcMaxElemSize ∧ slotClass l.size = slotClass a.size).map Live.addr
      simpa [liveSlots, ha, hb, hclass] using hkept
    exact (nodup_cons.1 (hnodup.sublist hsub)).1 ∘ fun heq => heq ▸ mem_singleton_self _
  · intro heq
    have hslot := h.live_slot hbmem hb
    rw [← heq] at hslot
    exact hclass (h.layout.class_eq (e := fun i => (s.pool.sfc i).elemSize) h.elemSize_pos hslot
      (h.live_slot hamem ha))

theorem large_apart_slot (h : s.Sound) {a b : Live} (ha : a ∈ s.live) (halarge : lSfcMaxElemSize < a.size)
    (hb : b ∈ s.live) (hbsmall : b.size ≤ lSfcMaxElemSize) :
    a.addr + s.extent a ≤ b.addr ∨ b.addr + s.extent b ≤ a.addr := by
  obtain ⟨c, hc, hslot⟩ := LSfc.mem_slots.1 (h.live_slot hb hbsmall)
  have hblock := h.large a (mem_largeOf.2 ⟨ha, halarge⟩) _ c hc
  have hwithin := blockSlots_within hslot
  rw [extent_large halarge, h.extent_small hbsmall]
  omega

theorem apart (h : s.Sound) :
    s.live.Pairwise fun a b => a.addr + s.extent a ≤ b.addr ∨ b.addr + s.extent b ≤ a.addr := by
  refine pairwise_iff_forall_sublist.2 fun {a b} hab => ?_
  have ha : a ∈ s.live := hab.subset mem_cons_self
  have hb : b ∈ s.live := hab.subset (mem_cons_of_mem _ (mem_singleton_self b))
  rcases Nat.lt_or_ge lSfcMaxElemSize a.size with halarge | hasmall
  · rcases Nat.lt_or_ge lSfcMaxElemSize b.size with hblarge | hbsmall
    · have hsub : [a, b].Sublist (largeOf s.live) := by
        have hkept := hab.filter fun l => lSfcMaxElemSize < l.size
        simpa [largeOf, halarge, hblarge] using hkept
      rw [extent_large halarge, extent_large hblarge]
      exact pairwise_iff_forall_sublist.1 h.largeApart hsub
    · exact h.large_apart_slot ha halarge hb hbsmall
  · rcases Nat.lt_or_ge lSfcMaxElemSize b.size with hblarge | hbsmall
    · exact (h.large_apart_slot hb hblarge ha hasmall).symm
    · rw [h.extent_small hasmall, h.extent_small hbsmall]
      exact h.layout.apart (e := fun i => (s.pool.sfc i).elemSize) (h.live_slot ha hasmall)
        (h.live_slot hb hbsmall) (h.addr_ne hab hasmall hbsmall)

theorem slotsOk (h : s.Sound) : s.SlotsOk where
  slot l hl hsmall := by
    have hroom : l.size ≤ (s.pool.sfc (slotClass l.size)).elemSize := by
      rw [h.elemSize]
      exact le_slotSize hsmall
    obtain ⟨b, hb, hslot⟩ := LSfc.mem_slots.1 (h.live_slot hl hsmall)
    have hwithin := blockSlots_within hslot
    exact ⟨slotClass l.size, slotClass_lt l.size, hroom, b, hb, hslot, hwithin.1, by omega⟩
  apart := h.apart
  partition i _ := ⟨h.nodup_slots i, h.parts i⟩

end Heap.Sound

/-- In every state that allocations, frees and writes lead to without a compaction, the slots are
    divided between the client and the stacks, and the client's allocations share no byte. -/
theorem slots_never_overlap {words : Words} {es : List AllocEvent} {s : Heap}
    (hrun : Lib.Run (Lib.Guarded AllocStep NoCompaction) (heapInit words) es s) : s.SlotsOk := by
  have hsound := hrun.invariant (P := Heap.Sound) (fun s e t hstep h => h.step hstep.1 hstep.2)
    (Heap.Sound.init words)
  exact hsound.slotsOk

/-- An allocation made with `malloc`, two served by the slots of one block, a free of the first of
    these and a write into what is left. -/
theorem slots_never_overlap_freed :
    ∃ words qsort s, Lib.Run (Lib.Guarded AllocStep NoCompaction) (heapInit fun _ => 0)
        [.alloc 300 1000, .alloc 200 262144, .alloc 200 0, .free 200 524032 qsort, .write words] s
      ∧ words 1000 = 7 ∧ s.live = [⟨200, 523776⟩, ⟨300, 1000⟩] ∧ s.SlotsOk := by
  choose qsort hqsort using exists_qsorted
  have hlarge : (heapInit fun _ => 0).Provides 300 1000 :=
    ⟨fun _ => ⟨by decide, fun _ _ hb => absurd hb not_mem_nil, nofun⟩,
      fun hsmall => absurd hsmall (by decide)⟩
  have hblock : Heap.Provides ⟨lMemInit fun _ => 0, [⟨300, 1000⟩]⟩ 200 262144 := by
    refine ⟨fun hlarge => absurd hlarge (by decide), fun _ _ => ⟨rfl, by decide, ?_, ?_⟩⟩
    · exact fun _ _ hb => absurd hb not_mem_nil
    · intro l hl _
      obtain rfl := mem_singleton.1 hl
      exact .inr (by decide)
  have hwrite : ∀ pool l, Heap.WritesLive ⟨pool, [l, ⟨300, 1000⟩]⟩
      (update pool.words 1000 7) := by
    intro pool l x hx
    have hfirst := hx ⟨300, 1000⟩ (mem_cons_of_mem _ (mem_singleton_self _))
    exact update_of_ne (by dsimp only at hfirst; omega) ..
  obtain ⟨pool, hpool⟩ : ∃ pool, ((lMemInit fun _ => 0).lAlloc 200 262144).1 = pool := ⟨_, rfl⟩
  have haddr : ((lMemInit fun _ => 0).lAlloc 200 262144).2 = 524032 := by decide +kernel
  have hstack : (pool.sfc (pool.classOf 200)).stack ≠ 0 := by
    rw [← hpool]
    decide +kernel
  obtain ⟨pool₂, hpool₂⟩ : ∃ pool₂, (pool.lAlloc 200 0).1 = pool₂ := ⟨_, rfl⟩
  have haddr₂ : (pool.lAlloc 200 0).2 = 523776 := by
    rw [← hpool]
    decide +kernel
  have hno : pool₂.entersCompaction 200 524032 = false := by
    rw [← hpool₂, ← hpool]
    decide +kernel
  have hfirst : Lib.Guarded AllocStep NoCompaction (heapInit fun _ => 0) (.alloc 300 1000)
      ⟨lMemInit fun _ => 0, [⟨300, 1000⟩]⟩ := ⟨⟨hlarge, rfl⟩, trivial⟩
  have hsecond : Lib.Guarded AllocStep NoCompaction ⟨lMemInit fun _ => 0, [⟨300, 1000⟩]⟩
      (.alloc 200 262144) ⟨pool, [⟨200, 524032⟩, ⟨300, 1000⟩]⟩ :=
    ⟨⟨hblock, by rw [hpool, haddr]⟩, trivial⟩
  have hthird : Lib.Guarded AllocStep NoCompaction ⟨pool, [⟨200, 524032⟩, ⟨300, 1000⟩]⟩
      (.alloc 200 0) ⟨pool₂, [⟨200, 523776⟩, ⟨200, 524032⟩, ⟨300, 1000⟩]⟩ :=
    ⟨⟨⟨fun hlarge => absurd hlarge (by decide), fun _ hempty => absurd hempty hstack⟩,
      by rw [hpool₂, haddr₂]⟩, trivial⟩
  obtain ⟨pool₃, hpool₃⟩ : ∃ pool₃, pool₂.lFree 200 524032 qsort = some pool₃ :=
    ⟨_, Pool.lFree_small (by decide) hno⟩
  have hfourth : Lib.Guarded AllocStep NoCompaction
      ⟨pool₂, [⟨200, 523776⟩, ⟨200, 524032⟩, ⟨300, 1000⟩]⟩ (.free 200 524032 qsort)
      ⟨pool₃, [⟨200, 523776⟩, ⟨300, 1000⟩]⟩ :=
    ⟨⟨mem_cons_of_mem _ mem_cons_self, hqsort, pool₃, hpool₃, rfl⟩, hno⟩
  have hfifth : Lib.Guarded AllocStep NoCompaction ⟨pool₃, [⟨200, 523776⟩, ⟨300, 1000⟩]⟩
      (.write _) _ := ⟨⟨hwrite pool₃ _, rfl⟩, trivial⟩
  have hrun := Lib.Run.cons hfirst (.cons hsecond (.cons hthird (.cons hfourth (.cons hfifth (.nil _)))))
  exact ⟨_, _, _, hrun, update_self .., rfl, slots_never_overlap hrun⟩

end ProxySQL
