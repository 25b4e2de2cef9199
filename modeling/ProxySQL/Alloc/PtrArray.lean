/-
  ProxySQL.Alloc.PtrArray

  The arrays of pointers that the queues of packets, sessions and backends are made
  of (`l_utils.c`).

  An array keeps its elements in a block that is replaced by a larger one when it is
  full.  The first half is the code, with blocks of a heap in which a free has to
  name the size of the block, and with the loops as they run on 32-bit numbers.  The
  second half compares it with the operations on lists (`ArrayOp.onList`): as long as
  the list stays below 2^31 elements, no access is outside the block, every loop
  ends, and the elements of the array are those of the list (`lPtrArray_refines_list`).
-/
import ProxySQL.Lib.Block
import ProxySQL.Lib.Heap
import ProxySQL.Lib.PtrArray
import ProxySQL.Lib.While
import Mathlib.Data.Nat.Log

namespace ProxySQL

open Lib List Option

variable {α : Type}

/-! ## The code -/

/-- What the code of an array can do wrong. -/
inductive ArrayFault where
  | outOfBounds
  | nullDereference
  /-- a block is given back twice or with another size -/
  | badFree
  | endlessLoop
deriving DecidableEq

/-- The block that `pdata` points to. -/
structure PData (α : Type) where
  block : Nat
  cells : List α

/-- `LPtrArray`. -/
structure LPtrArray (α : Type) where
  pdata : Option (PData α)
  len : BitVec 32
  size : BitVec 32

/-- `sizeof(void *)`. -/
def sizeofPtr : Nat := 8

/-- `l_near_pow_2`.  After 32 rounds `i` is 0 for ever. -/
def lNearPow2 (n : BitVec 32) : Except ArrayFault (BitVec 32) :=
  match whileLoop (fun i => decide (i < n)) (fun i => some (i <<< 1)) 32 1#32 with
  | none => .error .endlessLoop
  | some i => .ok (if i ≠ 0 then i else n)

/-- `l_ptr_array_expand`; `fill` is what the cells of each fresh block hold. -/
def lPtrArrayExpand (fill : Nat → Nat → α) (h : Lib.Heap) (a : LPtrArray α) (more : BitVec 32) :
    Except ArrayFault (Lib.Heap × LPtrArray α) :=
  if a.size < a.len + more then do
    let newSize ← lNearPow2 (a.len + more)
    let (h, block) := h.alloc (newSize.toNat * sizeofPtr)
    let cells := (range newSize.toNat).map (fill block)
    match a.pdata with
    | none => .ok (h, { a with pdata := some { block, cells }, size := newSize })
    | some d =>
        if d.cells.length < a.size.toNat ∨ cells.length < a.size.toNat then .error .outOfBounds
        else
          match h.free (a.size.toNat * sizeofPtr) (some d.block) with
          | none => .error .badFree
          | some h =>
              let cells := overwrite cells 0 (d.cells.take a.size.toNat)
              .ok (h, { a with pdata := some { block, cells }, size := newSize })
  else .ok (h, a)

/-- `l_ptr_array_sized_new`. -/
def lPtrArraySizedNew (fill : Nat → Nat → α) (h : Lib.Heap) (size : BitVec 32) :
    Except ArrayFault (Lib.Heap × LPtrArray α) :=
  let a := { pdata := none, len := 0, size := 0 }
  if size ≠ 0 then lPtrArrayExpand fill h a size else .ok (h, a)

/-- The block of an array that is about to be accessed. -/
def LPtrArray.deref (a : LPtrArray α) : Except ArrayFault (PData α) :=
  match a.pdata with
  | none => .error .nullDereference
  | some d => .ok d

/-- `array->pdata[i]`. -/
def PData.read (d : PData α) (i : BitVec 32) : Except ArrayFault α :=
  match d.cells[i.toNat]? with
  | none => .error .outOfBounds
  | some p => .ok p

/-- `array->pdata[i]=p`. -/
def PData.write (d : PData α) (i : BitVec 32) (p : α) : Except ArrayFault (PData α) :=
  if i.toNat < d.cells.length then .ok { d with cells := d.cells.set i.toNat p } else .error .outOfBounds

/-- A full array is expanded. -/
def makeRoom (fill : Nat → Nat → α) (h : Lib.Heap) (a : LPtrArray α) :
    Except ArrayFault (Lib.Heap × LPtrArray α) :=
  if a.len = a.size then lPtrArrayExpand fill h a 1 else .ok (h, a)

/-- `l_ptr_array_add`. -/
def lPtrArrayAdd (fill : Nat → Nat → α) (h : Lib.Heap) (a : LPtrArray α) (p : α) :
    Except ArrayFault (Lib.Heap × LPtrArray α) := do
  let (h, a) ← makeRoom fill h a
  let d ← (← a.deref).write a.len p
  .ok (h, { a with pdata := some d, len := a.len + 1 })

/-- One round of the loop of `l_ptr_array_remove_index`; `j` is an `int`. -/
def shiftRound (s : BitVec 32 × List α) : Option (BitVec 32 × List α) :=
  if s.1.toNat + 1 < 2 ^ 31 then s.2[s.1.toNat + 1]?.map fun p => (s.1 + 1, s.2.set s.1.toNat p) else none

/-- The loop of `l_ptr_array_remove_index`. -/
def shiftLoop (len i : BitVec 32) (cells : List α) : Except ArrayFault (List α) :=
  match whileLoop (fun s => decide (s.1 < len - 1)) shiftRound len.toNat (i, cells) with
  | none => .error .outOfBounds
  | some s => .ok s.2

/-- What is behind element `i` moves down, unless there is nothing. -/
def closeGap (len i : BitVec 32) (cells : List α) : Except ArrayFault (List α) :=
  if i ≠ len - 1 then shiftLoop len i cells else .ok cells

/-- `l_ptr_array_remove_index`. -/
def lPtrArrayRemoveIndex (a : LPtrArray α) (i : BitVec 32) : Except ArrayFault (LPtrArray α × α) := do
  let d ← a.deref
  let r ← d.read i
  let cells ← closeGap a.len i d.cells
  .ok ({ a with pdata := some { d with cells }, len := a.len - 1 }, r)

/-- The last element takes the place of element `i`, unless it is the same one. -/
def moveLast (len i : BitVec 32) (d : PData α) : Except ArrayFault (PData α) :=
  if i ≠ len - 1 then do
    let p ← d.read (len - 1)
    d.write i p
  else .ok d

/-- `l_ptr_array_remove_index_fast`. -/
def lPtrArrayRemoveIndexFast (a : LPtrArray α) (i : BitVec 32) : Except ArrayFault (LPtrArray α × α) := do
  let d ← a.deref
  let r ← d.read i
  let d ← moveLast a.len i d
  .ok ({ a with pdata := some d, len := a.len - 1 }, r)

/-- The search of `l_ptr_array_remove_fast`, from `i` on with `n` elements to go. -/
def searchFrom [DecidableEq α] (a : LPtrArray α) (p : α) : Nat → BitVec 32 →
    Except ArrayFault (Option (BitVec 32))
  | 0, _ => .ok none
  | n + 1, i => do
      if (← (← a.deref).read i) = p then .ok (some i) else searchFrom a p n (i + 1)

/-- `l_ptr_array_remove_fast`. -/
def lPtrArrayRemoveFast [DecidableEq α] (a : LPtrArray α) (p : α) :
    Except ArrayFault (LPtrArray α × Bool) := do
  match ← searchFrom a p a.len.toNat 0 with
  | none => .ok (a, false)
  | some i =>
      let (a, _) ← lPtrArrayRemoveIndexFast a i
      .ok (a, true)

/-- `l_ptr_array_free1`, without the array itself. -/
def lPtrArrayFree1 (h : Lib.Heap) (a : LPtrArray α) : Except ArrayFault Lib.Heap :=
  match a.pdata with
  | none => .ok h
  | some d =>
      match h.free (sizeofPtr * a.size.toNat) (some d.block) with
      | none => .error .badFree
      | some h => .ok h

/-! ## Arrays and lists -/

/-- A call of one of the functions that work on an array. -/
inductive ArrayOp (α : Type) where
  | add (p : α)
  | removeIndex (i : BitVec 32)
  | removeIndexFast (i : BitVec 32)
  | removeFast (p : α)

/-- What a call returns. -/
inductive ArrayResult (α : Type) where
  | none
  | ptr (p : α)
  | found (b : Bool)

/-- What a call is to do to the list of the elements, if it is allowed. -/
def ArrayOp.onList [DecidableEq α] (xs : List α) : ArrayOp α → Option (List α × ArrayResult α)
  | .add p => if xs.length + 1 < 2 ^ 31 then some (xs ++ [p], .none) else none
  | .removeIndex i => xs[i.toNat]?.map fun p => (xs.eraseIdx i.toNat, .ptr p)
  | .removeIndexFast i => xs[i.toNat]?.map fun p => (Lib.removeIndexFast xs i.toNat, .ptr p)
  | .removeFast p =>
      some (if p ∈ xs then Lib.removeIndexFast xs (xs.idxOf p) else xs, .found (decide (p ∈ xs)))

def ArrayOp.onArray [DecidableEq α] (fill : Nat → Nat → α) (h : Lib.Heap) (a : LPtrArray α) :
    ArrayOp α → Except ArrayFault ((Lib.Heap × LPtrArray α) × ArrayResult α)
  | .add p => (lPtrArrayAdd fill h a p).map fun s => (s, .none)
  | .removeIndex i => (lPtrArrayRemoveIndex a i).map fun r => ((h, r.1), .ptr r.2)
  | .removeIndexFast i => (lPtrArrayRemoveIndexFast a i).map fun r => ((h, r.1), .ptr r.2)
  | .removeFast p => (lPtrArrayRemoveFast a p).map fun r => ((h, r.1), .found r.2)

/-- Calls on the list, with what they return. -/
def listRun [DecidableEq α] : List (ArrayOp α) → List α → Option (List α × List (ArrayResult α))
  | [], xs => some (xs, [])
  | op :: ops, xs => do
      let (xs, r) ← op.onList xs
      let (xs, rs) ← listRun ops xs
      some (xs, r :: rs)

/-- Calls on the array, with what they return. -/
def arrayRun [DecidableEq α] (fill : Nat → Nat → α) : List (ArrayOp α) → Lib.Heap × LPtrArray α →
    Except ArrayFault ((Lib.Heap × LPtrArray α) × List (ArrayResult α))
  | [], s => .ok (s, [])
  | op :: ops, s => do
      let (s, r) ← op.onArray fill s.1 s.2
      let (s, rs) ← arrayRun fill ops s
      .ok (s, r :: rs)

/-- The first `len` elements. -/
def LPtrArray.elements (a : LPtrArray α) : List α :=
  match a.pdata with
  | none => []
  | some d => d.cells.take a.len.toNat

/-- An array in a heap `h` that had the live blocks of `h0` before: its elements are `xs`, and the one block
    that came up is the array's. -/
structure LPtrArray.Holds (h0 h : Lib.Heap) (a : LPtrArray α) (xs : List α) : Prop where
  bound : xs.length < 2 ^ 31
  len : a.len.toNat = xs.length
  size : a.size = 0 ∨ ∃ k, a.size.toNat = 2 ^ k
  null : a.pdata = none → a.size = 0 ∧ xs = []
  block : ∀ d, a.pdata = some d → d.cells.length = a.size.toNat ∧ d.cells.take xs.length = xs
  live : ∀ n p, h.Live n p ↔ h0.Live n p ∨ ∃ d, a.pdata = some d ∧ p = some d.block ∧
    n = a.size.toNat * sizeofPtr
  apart : ∀ d, a.pdata = some d → ∀ n, ¬h0.Live n (some d.block)

variable {d : PData α} {cells ys : List α} {i : BitVec 32} {p : α}

section Code

variable (fill : Nat → Nat → α) {h0 h : Lib.Heap} {a : LPtrArray α} {xs : List α}

theorem LPtrArray.Holds.elements_eq (ha : a.Holds h0 h xs) : a.elements = xs := by
  unfold LPtrArray.elements
  cases hd : a.pdata with
  | none => exact (ha.null hd).2.symm
  | some d =>
    rw [ha.len]
    exact (ha.block d hd).2

theorem LPtrArray.Holds.le_size (ha : a.Holds h0 h xs) : xs.length ≤ a.size.toNat := by
  cases hd : a.pdata with
  | none =>
    rw [(ha.null hd).2]
    exact Nat.zero_le _
  | some d =>
    obtain ⟨hlen, htake⟩ := ha.block d hd
    rw [← hlen, ← htake, length_take]
    exact Nat.min_le_right _ _

/-! ### Growing -/

theorem lNearPow2_spec {n : BitVec 32} (hn : n.toNat ≤ 2 ^ 31) :
    ∃ r k, lNearPow2 n = .ok r ∧ r.toNat = 2 ^ k ∧ n.toNat ≤ r.toNat := by
  have hround : ∀ i : BitVec 32, (∃ k ≤ 31, i.toNat = 2 ^ k) → decide (i < n) = true →
      ∃ j, some (i <<< 1) = some j ∧ (∃ k ≤ 31, j.toNat = 2 ^ k) ∧
      31 - j.toNat.log2 < 31 - i.toNat.log2 := by
    rintro i ⟨k, hk, hi⟩ hlt
    have hlt : i.toNat < n.toNat := of_decide_eq_true hlt
    -- below 2^31 another doubling does not overflow
    have hk31 : k < 31 := by
      by_contra hge
      obtain rfl : k = 31 := by omega
      omega
    have hj : (i <<< 1).toNat = 2 ^ (k + 1) := by
      rw [BitVec.toNat_shiftLeft, hi, Nat.shiftLeft_eq, ← Nat.pow_succ, Nat.mod_eq_of_lt (by omega)]
    refine ⟨_, rfl, ⟨k + 1, hk31, hj⟩, ?_⟩
    rw [hj, hi, Nat.log2_two_pow, Nat.log2_two_pow]
    omega
  obtain ⟨r, hloop, ⟨k, -, hr⟩, hstop⟩ := whileLoop_of_invariant
    (I := fun i : BitVec 32 => ∃ k ≤ 31, i.toNat = 2 ^ k) (μ := fun i => 31 - i.toNat.log2) hround
    (n := 32) (s := 1#32) ⟨0, by decide, rfl⟩ (by decide)
  refine ⟨r, k, ?_, hr, Nat.not_lt.1 (of_decide_eq_false hstop)⟩
  have hne : r ≠ 0 := by
    rintro rfl
    exact absurd hr (Nat.two_pow_pos k).ne
  rw [lNearPow2, hloop]
  exact congrArg Except.ok (if_pos hne)

/-- There is room for `more` elements then, and the ones there are have been copied. -/
theorem lPtrArrayExpand_spec (ha : a.Holds h0 h xs) (more : BitVec 32)
    (hmore : xs.length + more.toNat ≤ 2 ^ 31) :
    ∃ h' a', lPtrArrayExpand fill h a more = .ok (h', a') ∧ a'.Holds h0 h' xs ∧
      xs.length + more.toNat ≤ a'.size.toNat := by
  have hsum : (a.len + more).toNat = xs.length + more.toNat := by
    rw [BitVec.toNat_add, ha.len, Nat.mod_eq_of_lt (by omega)]
  unfold lPtrArrayExpand
  by_cases hgrow : a.size < a.len + more
  · obtain ⟨r, k, hr, hpow, hle⟩ := lNearPow2_spec (hsum.trans_le hmore)
    have hlt : a.size.toNat < (a.len + more).toNat := hgrow
    have hcells : ((range r.toNat).map (fill h.next)).length = r.toNat := by
      rw [length_map, length_range]
    rw [if_pos hgrow, hr]
    dsimp only [bind, Except.bind]
    cases hd : a.pdata with
    | none =>
      obtain ⟨-, rfl⟩ := ha.null hd
      refine ⟨_, _, rfl, ⟨ha.bound, ha.len, .inr ⟨k, hpow⟩, nofun, ?_, ?_, ?_⟩, hsum ▸ hle⟩
      · rintro d ⟨⟩
        exact ⟨hcells, rfl⟩
      · intro n p
        rw [Lib.Heap.live_alloc_iff, ha.live]
        simp [hd]
      · rintro d ⟨⟩ n hlive
        exact ((ha.live n _).2 (.inl hlive)).ne_next rfl
    | some d =>
      obtain ⟨hlen, htake⟩ := ha.block d hd
      have hlive : h.Live (a.size.toNat * sizeofPtr) (some d.block) :=
        (ha.live _ _).2 (.inr ⟨d, hd, rfl, rfl⟩)
      obtain ⟨h', hfree⟩ := (Lib.Heap.live_alloc_iff.2 (.inl hlive) :
        (h.alloc (r.toNat * sizeofPtr)).1.Live _ (some d.block)).free
      have hroom : ¬(d.cells.length < a.size.toNat ∨
          ((range r.toNat).map (fill (h.alloc (r.toNat * sizeofPtr)).2)).length < a.size.toNat) := by
        rw [length_map, length_range]
        omega
      dsimp only
      rw [if_neg hroom, hfree]
      have hall : d.cells.take a.size.toNat = d.cells := take_of_length_le hlen.le
      refine ⟨_, _, rfl, ⟨ha.bound, ha.len, .inr ⟨k, hpow⟩, nofun, ?_, ?_, ?_⟩, hsum ▸ hle⟩
      · rintro d' ⟨⟩
        rw [hall]
        refine ⟨(length_overwrite (by rw [length_map, length_range]; omega)).trans hcells, ?_⟩
        rw [overwrite, take_zero, nil_append,
          take_append_of_le_length (by rw [hlen]; exact ha.le_size)]
        exact htake
      · -- the old block is gone, the new one is the array's
        intro n p
        rw [Lib.Heap.live_free_iff hfree, Lib.Heap.live_alloc_iff, ha.live]
        constructor
        · rintro ⟨(hold | ⟨d', hd', rfl, rfl⟩) | ⟨rfl, rfl⟩, hne⟩
          · exact .inl hold
          · obtain rfl := some.inj (hd.symm.trans hd')
            exact absurd rfl hne
          · exact .inr ⟨_, rfl, rfl, rfl⟩
        · rintro (hold | ⟨d', ⟨⟩, rfl, rfl⟩)
          · exact ⟨.inl (.inl hold), fun heq => ha.apart d hd n (heq ▸ hold)⟩
          · exact ⟨.inr ⟨rfl, rfl⟩, hlive.ne_next.symm⟩
      · rintro d' ⟨⟩ n hold
        exact ((ha.live n _).2 (.inl hold)).ne_next rfl
  · rw [if_neg hgrow]
    have hge : (a.len + more).toNat ≤ a.size.toNat := Nat.not_lt.1 hgrow
    exact ⟨h, a, rfl, ha, hsum ▸ hge⟩

/-! ### The calls -/

theorem LPtrArray.Holds.update (ha : a.Holds h0 h xs) (hd : a.pdata = some d)
    {len : BitVec 32} (hcells : cells.length = d.cells.length) (hbound : ys.length < 2 ^ 31)
    (hlen : len.toNat = ys.length) (htake : cells.take ys.length = ys) :
    ({ a with pdata := some { d with cells }, len := len } : LPtrArray α).Holds h0 h ys where
  bound := hbound
  len := hlen
  size := ha.size
  null := nofun
  block := by
    rintro d' ⟨⟩
    exact ⟨hcells.trans (ha.block d hd).1, htake⟩
  live n p := by
    rw [ha.live]
    simp [hd]
  apart := by
    rintro d' ⟨⟩
    exact ha.apart d hd

theorem lPtrArrayAdd_spec (ha : a.Holds h0 h xs) (p : α) (hlen : xs.length + 1 < 2 ^ 31) :
    ∃ h' a', lPtrArrayAdd fill h a p = .ok (h', a') ∧ a'.Holds h0 h' (xs ++ [p]) := by
  have hroom : ∃ h' a', makeRoom fill h a = .ok (h', a') ∧ a'.Holds h0 h' xs ∧
    xs.length < a'.size.toNat := by
    unfold makeRoom
    by_cases hfull : a.len = a.size
    · rw [if_pos hfull]
      exact lPtrArrayExpand_spec fill ha 1 (Nat.le_of_lt hlen)
    · rw [if_neg hfull]
      refine ⟨h, a, rfl, ha, Nat.lt_of_le_of_ne ha.le_size fun heq => hfull ?_⟩
      exact BitVec.eq_of_toNat_eq (ha.len.trans heq)
  obtain ⟨h', a', hexpand, ha', hlt⟩ := hroom
  have hd : ∃ d, a'.pdata = some d := by
    cases hd : a'.pdata with
    | none =>
      rw [(ha'.null hd).1] at hlt
      exact absurd hlt (Nat.not_lt_zero _)
    | some d => exact ⟨d, rfl⟩
  obtain ⟨d, hd⟩ := hd
  obtain ⟨hcells, htake⟩ := ha'.block d hd
  have hin : a'.len.toNat < d.cells.length := by
    rw [ha'.len, hcells]
    exact hlt
  have hwrite : d.write a'.len p = .ok { d with cells := d.cells.set xs.length p } := by
    rw [PData.write, if_pos hin, ha'.len]
  have hone : (a'.len + 1).toNat = (xs ++ [p]).length := by
    rw [BitVec.toNat_add, ha'.len, length_append, length_singleton]
    exact Nat.mod_eq_of_lt (show xs.length + 1 < 2 ^ 32 by omega)
  have hadded : (d.cells.set xs.length p).take (xs ++ [p]).length = xs ++ [p] := by
    rw [length_append, length_singleton, take_add_one,
      getElem?_set_self (by rw [← ha'.len]; exact hin), take_set_of_le (Nat.le_refl _), htake]
    rfl
  refine ⟨h', _, ?_, ha'.update hd (length_set ..) (by simpa using hlen) hone hadded⟩
  rw [lPtrArrayAdd, hexpand]
  dsimp only [bind, Except.bind]
  rw [LPtrArray.deref, hd]
  dsimp only
  rw [hwrite]

theorem LPtrArray.Holds.pdata_of_lt (ha : a.Holds h0 h xs) {i : Nat} (hi : i < xs.length) :
    ∃ d, a.pdata = some d ∧ xs.length ≤ d.cells.length ∧ d.cells.take xs.length = xs ∧
      (a.len - 1).toNat = xs.length - 1 := by
  cases hd : a.pdata with
  | none =>
    rw [(ha.null hd).2] at hi
    exact absurd hi (Nat.not_lt_zero _)
  | some d =>
    obtain ⟨hcells, htake⟩ := ha.block d hd
    refine ⟨d, rfl, hcells ▸ ha.le_size, htake, ?_⟩
    rw [BitVec.toNat_sub_of_le (show 1 ≤ a.len.toNat by rw [ha.len]; omega), ha.len]
    rfl

theorem PData.read_eq (htake : d.cells.take xs.length = xs)
    (hp : xs[i.toNat]? = some p) : d.read i = .ok p := by
  have hi : i.toNat < xs.length := (List.getElem?_eq_some_iff.1 hp).1
  rw [← htake, getElem?_take_of_lt hi] at hp
  rw [PData.read, hp]

theorem shiftLoop_spec {len : BitVec 32} (hi : i.toNat < len.toNat) (hlen : len.toNat ≤ cells.length)
    (hbound : len.toNat < 2 ^ 31) :
    ∃ cells', shiftLoop len i cells = .ok cells' ∧ cells'.length = cells.length ∧
      cells'.take (len.toNat - 1) = (cells.take len.toNat).eraseIdx i.toNat := by
  have hlast : (len - 1).toNat = len.toNat - 1 := BitVec.toNat_sub_of_le (show 1 ≤ len.toNat by omega)
  -- the places from `i` up to `j` hold the elements of the places behind them
  let I (s : BitVec 32 × List α) : Prop := i.toNat ≤ s.1.toNat ∧ s.1.toNat ≤ len.toNat - 1 ∧
    s.2.length = cells.length ∧ ∀ k, s.2[k]? = if i.toNat ≤ k ∧ k < s.1.toNat then cells[k + 1]?
    else cells[k]?
  have hround : ∀ s, I s → decide (s.1 < len - 1) = true →
      ∃ t, shiftRound s = some t ∧ I t ∧ len.toNat - 1 - t.1.toNat < len.toNat - 1 - s.1.toNat := by
    rintro ⟨j, cs⟩ ⟨hij, hj, hc, hget⟩ hlt
    dsimp only at hij hj hc hget
    have hlt : j.toNat < (len - 1).toNat := of_decide_eq_true hlt
    have hnext : j.toNat + 1 < cs.length := by omega
    have hone : (j + 1).toNat = j.toNat + 1 := by
      exact Nat.mod_eq_of_lt (show j.toNat + 1 < 2 ^ 32 by omega)
    refine ⟨(j + 1, cs.set j.toNat cs[j.toNat + 1]), ?_, ⟨?_, ?_, ?_, ?_⟩, ?_⟩
    · rw [shiftRound, if_pos (by dsimp only; omega), getElem?_eq_getElem hnext, map_some]
    · dsimp only
      omega
    · dsimp only
      omega
    · exact (length_set ..).trans hc
    · intro k
      rw [getElem?_set, hone]
      by_cases hk : j.toNat = k
      · have hfrom := hget (j.toNat + 1)
        rw [if_neg (by omega)] at hfrom
        rw [if_pos hk, if_pos (by omega), if_pos (by omega), ← getElem?_eq_getElem hnext, ← hk]
        exact hfrom
      · rw [if_neg hk, hget k]
        exact if_congr (by omega) rfl rfl
    · dsimp only
      omega
  obtain ⟨⟨j, cs⟩, hloop, ⟨hij, hj, hc, hget⟩, hstop⟩ := whileLoop_of_invariant (I := I)
    (μ := fun s => len.toNat - 1 - s.1.toNat) hround (n := len.toNat) (s := (i, cells))
    ⟨Nat.le_refl _, by dsimp only; omega, rfl, fun k => by rw [if_neg (by dsimp only; omega)]⟩
      (by dsimp only; omega)
  dsimp only at hj hc hget
  have hend : j.toNat = len.toNat - 1 := by
    have hge : ¬j.toNat < (len - 1).toNat := of_decide_eq_false hstop
    omega
  refine ⟨cs, by rw [shiftLoop, hloop], hc, ?_⟩
  apply ext_getElem?
  intro k
  rw [getElem?_eraseIdx, getElem?_take, getElem?_take, getElem?_take, hget k]
  split_ifs <;> first | rfl | omega

theorem lPtrArrayRemoveIndex_spec (ha : a.Holds h0 h xs) (hp : xs[i.toNat]? = some p) :
    ∃ a', lPtrArrayRemoveIndex a i = .ok (a', p) ∧ a'.Holds h0 h (xs.eraseIdx i.toNat) := by
  have hi : i.toNat < xs.length := (List.getElem?_eq_some_iff.1 hp).1
  obtain ⟨d, hd, hle, htake, hlast⟩ := ha.pdata_of_lt hi
  have hlength : (xs.eraseIdx i.toNat).length = xs.length - 1 := length_eraseIdx_of_lt hi
  have hgap : ∃ cells, closeGap a.len i d.cells = .ok cells ∧ cells.length = d.cells.length ∧
      cells.take (xs.length - 1) = xs.eraseIdx i.toNat := by
    unfold closeGap
    by_cases hne : i = a.len - 1
    · -- the last element needs no shift
      rw [if_neg (not_not.2 hne)]
      refine ⟨_, rfl, rfl, ?_⟩
      conv_rhs => rw [← htake]
      rw [hne, hlast, eraseIdx_eq_take_drop_succ, take_take, drop_eq_nil_of_le, append_nil,
        Nat.min_eq_left (Nat.sub_le ..)]
      rw [length_take]
      omega
    · rw [if_pos hne]
      obtain ⟨cells, hloop, hcells, hshifted⟩ :=
        shiftLoop_spec (ha.len ▸ hi) (ha.len ▸ hle) (ha.len ▸ ha.bound)
      rw [ha.len, htake] at hshifted
      exact ⟨cells, hloop, hcells, hshifted⟩
  obtain ⟨cells, hclosed, hcells, hremoved⟩ := hgap
  refine ⟨_, ?_, ha.update hd hcells (by have := ha.bound; omega) (hlast.trans hlength.symm)
    (hlength ▸ hremoved)⟩
  rw [lPtrArrayRemoveIndex, LPtrArray.deref, hd]
  dsimp only [bind, Except.bind]
  rw [PData.read_eq htake hp]
  rw [hclosed]

theorem lPtrArrayRemoveIndexFast_spec (ha : a.Holds h0 h xs) (hp : xs[i.toNat]? = some p) :
    ∃ a', lPtrArrayRemoveIndexFast a i = .ok (a', p) ∧ a'.Holds h0 h (removeIndexFast xs i.toNat) := by
  have hi : i.toNat < xs.length := (List.getElem?_eq_some_iff.1 hp).1
  obtain ⟨d, hd, hle, htake, hlast⟩ := ha.pdata_of_lt hi
  have hlength : (removeIndexFast xs i.toNat).length = xs.length - 1 := by
    rw [length_removeIndexFast hp, Nat.add_sub_cancel]
  have hmove : ∃ cells, moveLast a.len i d = .ok { d with cells } ∧ cells.length = d.cells.length ∧
      cells.take (xs.length - 1) = removeIndexFast xs i.toNat := by
    rcases eq_nil_or_concat xs with rfl | ⟨ys, x, rfl⟩
    · cases hp
    rw [concat_eq_append] at *
    have hys : (ys ++ [x]).length - 1 = ys.length := by simp
    have hfront : d.cells.take ys.length = ys := by
      have hshort := congrArg (List.take ys.length) htake
      rwa [take_take, take_left, Nat.min_eq_left (by simp)] at hshort
    rw [hys] at hlast ⊢
    rw [removeIndexFast_concat]
    unfold moveLast
    by_cases hne : i = a.len - 1
    · rw [if_neg (not_not.2 hne), hne, hlast, set_eq_of_length_le (Nat.le_refl _)]
      exact ⟨d.cells, rfl, rfl, hfront⟩
    · have hx : d.read (a.len - 1) = .ok x := PData.read_eq htake (by rw [hlast, getElem?_concat_length])
      rw [if_pos hne, hx]
      dsimp only [bind, Except.bind]
      rw [PData.write, if_pos (hi.trans_le hle)]
      refine ⟨_, rfl, length_set .., ?_⟩
      rw [take_set, hfront]
  obtain ⟨cells, hmoved, hcells, hremoved⟩ := hmove
  refine ⟨_, ?_, ha.update hd hcells (by have := ha.bound; omega) (hlast.trans hlength.symm)
    (hlength ▸ hremoved)⟩
  rw [lPtrArrayRemoveIndexFast, LPtrArray.deref, hd]
  dsimp only [bind, Except.bind]
  rw [PData.read_eq htake hp]
  rw [hmoved]

theorem searchFrom_spec [DecidableEq α] (ha : a.Holds h0 h xs) {n : Nat}
    (hn : i.toNat + n = xs.length) (hbefore : p ∉ xs.take i.toNat) :
    searchFrom a p n i = .ok (if p ∈ xs then some (BitVec.ofNat 32 (xs.idxOf p)) else none) := by
  induction n generalizing i with
  | zero =>
    rw [take_of_length_le (by omega)] at hbefore
    rw [searchFrom, if_neg hbefore]
  | succ n ih =>
    have hi : i.toNat < xs.length := by omega
    obtain ⟨d, hd, hle, htake, -⟩ := ha.pdata_of_lt hi
    have hsplit : xs = xs.take i.toNat ++ xs[i.toNat] :: xs.drop (i.toNat + 1) := by
      rw [← drop_eq_getElem_cons hi, take_append_drop]
    rw [searchFrom, LPtrArray.deref, hd]
    dsimp only [bind, Except.bind]
    rw [PData.read_eq htake (getElem?_eq_getElem hi)]
    dsimp only
    by_cases heq : xs[i.toNat] = p
    · have hidx : xs.idxOf p = i.toNat := by
        rw [hsplit, idxOf_append_of_notMem hbefore, heq, idxOf_cons_self, length_take]
        omega
      rw [if_pos heq, if_pos (heq ▸ getElem_mem hi), hidx, BitVec.ofNat_toNat, BitVec.setWidth_eq]
    · have hone : (i + 1).toNat = i.toNat + 1 := by
        have hbound := ha.bound
        exact Nat.mod_eq_of_lt (show i.toNat + 1 < 2 ^ 32 by omega)
      rw [if_neg heq]
      refine ih (by omega) ?_
      rw [hone, take_succ_eq_append_getElem hi, mem_append, mem_singleton]
      exact not_or.2 ⟨hbefore, fun h => heq h.symm⟩

theorem lPtrArrayRemoveFast_spec [DecidableEq α] (ha : a.Holds h0 h xs) (p : α) :
    ∃ a', lPtrArrayRemoveFast a p = .ok (a', decide (p ∈ xs)) ∧
      a'.Holds h0 h (if p ∈ xs then removeIndexFast xs (xs.idxOf p) else xs) := by
  have hsearch : searchFrom a p a.len.toNat 0 = _ :=
    searchFrom_spec ha (show 0 + a.len.toNat = xs.length by rw [ha.len, Nat.zero_add]) not_mem_nil
  rw [lPtrArrayRemoveFast, hsearch]
  by_cases hmem : p ∈ xs
  · have hidx : xs.idxOf p < xs.length := idxOf_lt_length_iff.2 hmem
    have hnat : (BitVec.ofNat 32 (xs.idxOf p)).toNat = xs.idxOf p := by
      have hbound := ha.bound
      rw [BitVec.toNat_ofNat, Nat.mod_eq_of_lt (by omega)]
    obtain ⟨a', hremove, ha'⟩ :=
      lPtrArrayRemoveIndexFast_spec ha (i := BitVec.ofNat 32 (xs.idxOf p)) (p := p)
      (by rw [hnat]; exact getElem?_idxOf hmem)
    rw [hnat] at ha'
    rw [if_pos hmem, if_pos hmem, decide_eq_true hmem]
    dsimp only [bind, Except.bind]
    rw [hremove]
    exact ⟨a', rfl, ha'⟩
  · rw [if_neg hmem, if_neg hmem, decide_eq_false hmem]
    exact ⟨a, rfl, ha⟩

/-! ### Whole runs -/

theorem lPtrArraySizedNew_spec (h0 : Lib.Heap) {size : BitVec 32} (hsize : size.toNat < 2 ^ 31) :
    ∃ h a, lPtrArraySizedNew fill h0 size = .ok (h, a) ∧ a.Holds h0 h [] := by
  have hnew : ({ pdata := none, len := 0, size := 0 } : LPtrArray α).Holds h0 h0 [] := by
    refine ⟨Nat.two_pow_pos 31, rfl, .inl rfl, fun _ => ⟨rfl, rfl⟩, nofun, fun n p => ?_, nofun⟩
    exact ⟨.inl, fun hor => hor.elim id fun ⟨d, hd, _⟩ => by cases hd⟩
  unfold lPtrArraySizedNew
  by_cases hzero : size = 0
  · rw [if_neg (not_not.2 hzero)]
    exact ⟨h0, _, rfl, hnew⟩
  · rw [if_pos hzero]
    obtain ⟨h, a, hexpand, ha, -⟩ := lPtrArrayExpand_spec fill hnew size
      (by rw [length_nil]; omega)
    exact ⟨h, a, hexpand, ha⟩

theorem lPtrArrayFree1_spec (ha : a.Holds h0 h xs) :
    ∃ h', lPtrArrayFree1 h a = .ok h' ∧ ∀ n p, h'.Live n p ↔ h0.Live n p := by
  unfold lPtrArrayFree1
  cases hd : a.pdata with
  | none =>
    refine ⟨h, rfl, fun n p => ?_⟩
    rw [ha.live]
    simp [hd]
  | some d =>
    have hlive : h.Live (sizeofPtr * a.size.toNat) (some d.block) :=
      (ha.live _ _).2 (.inr ⟨d, hd, rfl, Nat.mul_comm ..⟩)
    obtain ⟨h', hfree⟩ := hlive.free
    dsimp only
    rw [hfree]
    refine ⟨h', rfl, fun n p => ?_⟩
    rw [Lib.Heap.live_free_iff hfree, ha.live]
    constructor
    · rintro ⟨hold | ⟨d', hd', rfl, -⟩, hne⟩
      · exact hold
      · obtain rfl := some.inj (hd.symm.trans hd')
        exact absurd rfl hne
    · exact fun hold => ⟨.inl hold, fun heq => ha.apart d hd n (heq ▸ hold)⟩

/-- One call does to the array what it is to do to the list. -/
theorem ArrayOp.onArray_spec [DecidableEq α] (ha : a.Holds h0 h xs) {op : ArrayOp α} {r : ArrayResult α}
    (hop : op.onList xs = some (ys, r)) :
    ∃ h' a', op.onArray fill h a = .ok ((h', a'), r) ∧ a'.Holds h0 h' ys := by
  cases op with
  | add p =>
    rw [onList] at hop
    split at hop
    · next hlen =>
      cases hop
      obtain ⟨h', a', hadd, ha'⟩ := lPtrArrayAdd_spec fill ha p hlen
      exact ⟨h', a', by rw [onArray, hadd, Except.map], ha'⟩
    · cases hop
  | removeIndex i =>
    obtain ⟨p, hp, hpair⟩ := map_eq_some_iff.1 hop
    cases hpair
    obtain ⟨a', hremove, ha'⟩ := lPtrArrayRemoveIndex_spec ha hp
    exact ⟨h, a', by rw [onArray, hremove, Except.map], ha'⟩
  | removeIndexFast i =>
    obtain ⟨p, hp, hpair⟩ := map_eq_some_iff.1 hop
    cases hpair
    obtain ⟨a', hremove, ha'⟩ := lPtrArrayRemoveIndexFast_spec ha hp
    exact ⟨h, a', by rw [onArray, hremove, Except.map], ha'⟩
  | removeFast p =>
    cases hop
    obtain ⟨a', hremove, ha'⟩ := lPtrArrayRemoveFast_spec ha p
    exact ⟨h, a', by rw [onArray, hremove, Except.map], ha'⟩

theorem arrayRun_spec [DecidableEq α] (ha : a.Holds h0 h xs) {ops : List (ArrayOp α)}
    {rs : List (ArrayResult α)} (hops : listRun ops xs = some (ys, rs)) :
    ∃ h' a', arrayRun fill ops (h, a) = .ok ((h', a'), rs) ∧ a'.Holds h0 h' ys := by
  induction ops generalizing h a xs rs with
  | nil =>
    cases hops
    exact ⟨h, a, rfl, ha⟩
  | cons op ops ih =>
    obtain ⟨⟨zs, r⟩, hop, hrest⟩ := bind_eq_some_iff.1 hops
    obtain ⟨⟨ys', rs'⟩, hrun, hret⟩ := bind_eq_some_iff.1 hrest
    cases hret
    obtain ⟨h', a', hcall, ha'⟩ := ArrayOp.onArray_spec fill ha hop
    obtain ⟨h'', a'', hcalls, ha''⟩ := ih ha' hrun
    refine ⟨h'', a'', ?_, ha''⟩
    rw [arrayRun, hcall]
    dsimp only [bind, Except.bind]
    rw [hcalls]

end Code

/-- An array that is made for any number of elements and then used in any way that keeps its list below 2^31
    elements has the elements of the list, and its calls return what they do on the list.  No call accesses
    memory outside the block, gives back a block with another size, or runs into an endless loop; the size
    is 0 or a power of two and never below the length; and freeing the array leaves the live blocks that
    were there before. -/
theorem lPtrArray_refines_list [DecidableEq α] (fill : Nat → Nat → α) (h0 : Lib.Heap) {size : BitVec 32}
    (hsize : size.toNat < 2 ^ 31) {ops : List (ArrayOp α)} {xs : List α} {rs : List (ArrayResult α)}
    (hops : listRun ops [] = some (xs, rs)) :
    ∃ s h a, lPtrArraySizedNew fill h0 size = .ok s ∧ arrayRun fill ops s = .ok ((h, a), rs) ∧
      a.elements = xs ∧ a.len.toNat = xs.length ∧ a.len ≤ a.size ∧
      (a.size = 0 ∨ ∃ k, a.size.toNat = 2 ^ k) ∧
      ∃ h', lPtrArrayFree1 h a = .ok h' ∧ ∀ n p, h'.Live n p ↔ h0.Live n p := by
  obtain ⟨h1, a1, hnew, ha1⟩ := lPtrArraySizedNew_spec fill h0 hsize
  obtain ⟨h, a, hrun, ha⟩ := arrayRun_spec fill ha1 hops
  refine ⟨(h1, a1), h, a, hnew, hrun, ha.elements_eq, ha.len, ?_, ha.size, lPtrArrayFree1_spec ha⟩
  show a.len.toNat ≤ a.size.toNat
  rw [ha.len]
  exact ha.le_size

/-- Three pointers are added to an array for two, and two of them removed. -/
theorem lPtrArray_refines_list_grown :
    ∃ s h a, lPtrArraySizedNew (fun _ _ => 0) Lib.Heap.empty 2 = .ok s ∧
      arrayRun (fun _ _ => 0) [.add 7, .add 8, .add 9, .removeIndexFast 0, .removeFast 8] s
        = .ok ((h, a), [.none, .none, .none, .ptr 7, .found true]) ∧ a.elements = [9] := by
  obtain ⟨s, h, a, hnew, hrun, helements, -⟩ := lPtrArray_refines_list (fun _ _ => 0) Lib.Heap.empty
    (show (2#32).toNat < 2 ^ 31 by decide)
    (show listRun [.add 7, .add 8, .add 9, .removeIndexFast 0, .removeFast 8] ([] : List Nat)
      = some ([9], [.none, .none, .none, .ptr 7, .found true]) by rfl)
  exact ⟨s, h, a, hnew, hrun, helements⟩

end ProxySQL
