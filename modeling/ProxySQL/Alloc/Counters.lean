/-
  ProxySQL.Alloc.Counters

  The counters of a class against its blocks and its stack.

  `__l_free` counts the slot it pushes in `free_cnt`, and `__l_alloc` counts the
  slots of a block it carves up, but no allocation counts the slot it takes off
  the stack.  The counters therefore agree with the stacks only as long as no
  slot has been handed out.
-/
import ProxySQL.Alloc.Slots
import Mathlib.Data.List.Induction

namespace ProxySQL

open List

open Lib (Chain Run Guarded)

/-- `alloc_cnt` counts the slots of the blocks and `free_cnt` those on the stack. -/
def LSfc.Counted (words : Words) (sfc : LSfc) : Prop :=
  sfc.allocCnt = sfc.blocksCnt * sfc.perBlock
    ∧ ∃ stk, Chain words 0 sfc.stack stk ∧ sfc.freeCnt = stk.length

def Heap.Counted (s : Heap) : Prop := ∀ i < lSfpArrayLen, (s.pool.sfc i).Counted s.pool.words

/-- An allocation that is served by a slot. -/
def AllocEvent.takesSlot : AllocEvent → Bool
  | .alloc size _ => size ≤ lSfcMaxElemSize
  | _ => false

/-- No class has been used yet. -/
structure Heap.Untouched (s : Heap) : Prop where
  sfc : ∀ words, s.pool.sfc = (lMemInit words).sfc
  large : ∀ l ∈ s.live, lSfcMaxElemSize < l.size

namespace Heap.Untouched

variable {s t : Heap}

theorem counted (h : s.Untouched) : s.Counted := by
  intro i _
  rw [h.sfc s.pool.words]
  exact ⟨(Nat.zero_mul _).symm, [], rfl, rfl⟩

theorem step {e : AllocEvent} (h : s.Untouched) (hstep : AllocStep s e t) (he : e.takesSlot = false) :
    t.Untouched := by
  cases e with
  | alloc size m =>
    obtain ⟨-, rfl⟩ := hstep
    have hlarge : lSfcMaxElemSize < size := by simpa [AllocEvent.takesSlot] using he
    rw [Pool.lAlloc_large hlarge]
    exact ⟨h.sfc, forall_mem_cons.2 ⟨hlarge, h.large⟩⟩
  | free size p qsort =>
    obtain ⟨hlive, -, pool, hfree, rfl⟩ := hstep
    have hlarge := h.large _ hlive
    obtain rfl : s.pool = pool := Option.some.inj ((if_pos hlarge).symm.trans hfree)
    exact ⟨h.sfc, fun l hl => h.large l (mem_of_mem_erase hl)⟩
  | write words =>
    obtain ⟨-, rfl⟩ := hstep
    exact ⟨h.sfc, h.large⟩

theorem run {words : Words} {es : List AllocEvent} (hrun : Run AllocStep (heapInit words) es s)
    (hes : ∀ e ∈ es, e.takesSlot = false) : s.Untouched := by
  have hguarded := hrun.guarded_events hes
  refine hguarded.invariant (P := Heap.Untouched) (fun s e t hstep h => h.step hstep.1 hstep.2) ?_
  exact ⟨fun _ => rfl, nofun⟩

/-- The first slot handed out leaves one slot fewer on the stack than `free_cnt` says. -/
theorem first_alloc (h : s.Untouched) {size m : Nat} (hsize : size ≤ lSfcMaxElemSize) (hm : m ≠ 0) :
    ∃ rest, Chain (s.pool.lAlloc size m).1.words 0
      ((s.pool.lAlloc size m).1.sfc (slotClass size)).stack rest
      ∧ rest.length + 1 = lSfcMemBlockSize / (lSfcMinElemSize * 2 ^ slotClass size)
      ∧ ((s.pool.lAlloc size m).1.sfc (slotClass size)).freeCnt = rest.length + 1 := by
  have helem : ∀ i, (s.pool.sfc i).elemSize = lSfcMinElemSize * 2 ^ i := by
    rw [h.sfc s.pool.words]
    exact fun i => rfl
  have hclass := Pool.classOf_eq helem size
  have hstack : (s.pool.sfc (s.pool.classOf size)).stack = 0 := by
    rw [h.sfc s.pool.words]
    rfl
  have hfree : (s.pool.sfc (s.pool.classOf size)).freeCnt = 0 := by
    rw [h.sfc s.pool.words]
    rfl
  obtain ⟨g, x, rest, hg, hslots, hrest, halloc⟩ := Pool.lAlloc_of_empty helem hsize hstack hm
  have hlen := congrArg length hslots
  rw [length_reverse, length_blockSlots, length_cons] at hlen
  have hgrown : g.2.freeCnt = lSfcMemBlockSize / (s.pool.sfc (s.pool.classOf size)).elemSize := by
    rw [← hg]
    simp only [growClass, pushMemBlock, addMemBlock, LSfc.perBlock, hfree, sizeT, Nat.zero_add]
    refine Nat.mod_eq_of_lt ((Nat.div_le_self ..).trans_lt ?_)
    decide
  rw [halloc, ← hclass]
  simp only [Pool.setClass_sfc_self, Pool.setClass_words]
  rw [helem] at hlen hgrown
  exact ⟨rest, hrest, hlen.symm, hgrown.trans hlen⟩

theorem not_counted (h : s.Untouched) {size m : Nat} (hsize : size ≤ lSfcMaxElemSize) (hm : m ≠ 0) :
    ¬Heap.Counted { pool := (s.pool.lAlloc size m).1,
                    live := ⟨size, (s.pool.lAlloc size m).2⟩ :: s.live } := by
  intro hcounted
  obtain ⟨rest, hrest, -, hfree⟩ := h.first_alloc hsize hm
  obtain ⟨-, stk, hstk, hcnt⟩ := hcounted (slotClass size) (slotClass_lt size)
  obtain rfl := hrest.unique hstk
  have hoff := hfree.symm.trans hcnt
  omega

end Heap.Untouched

/-- The counters agree with the blocks and the stacks in every state a run goes through if and only
    if no allocation of the run is served by a slot. -/
theorem counters_agree_iff {words : Words} {es : List AllocEvent} {s : Heap}
    (hrun : Run AllocStep (heapInit words) es s) :
    (∀ fs t, fs <+: es → Run AllocStep (heapInit words) fs t → t.Counted)
      ↔ ∀ e ∈ es, e.takesSlot = false := by
  constructor
  · intro hcounted
    induction es using List.reverseRecOn generalizing s with
    | nil => exact nofun
    | append_singleton es e ih =>
        obtain ⟨t, hpre, hstep⟩ := hrun.exists_last
        have hes := ih hpre fun fs u hfs => hcounted fs u (hfs.trans (prefix_append es [e]))
        have hlast : e.takesSlot = false := by
          by_contra hslot
          cases e with
          | alloc size m =>
              obtain ⟨hm, rfl⟩ := hstep
              have hsize : size ≤ lSfcMaxElemSize := by simpa [AllocEvent.takesSlot] using hslot
              have huntouched := Heap.Untouched.run hpre hes
              have hstack : (t.pool.sfc (t.pool.classOf size)).stack = 0 := by
                rw [huntouched.sfc t.pool.words]
                rfl
              exact huntouched.not_counted hsize (hm.2 hsize hstack).2.1 (hcounted _ _ prefix_rfl hrun)
          | free size p qsort => exact hslot rfl
          | write words => exact hslot rfl
        intro f hf
        rcases mem_append.1 hf with hf | hf
        · exact hes f hf
        · exact mem_singleton.1 hf ▸ hlast
  · intro hes fs t hfs hpre
    exact (Heap.Untouched.run hpre fun e he => hes e (hfs.subset he)).counted

/-- An allocation that goes to `malloc`. -/
theorem counters_agree_malloc :
    ∃ s, Run AllocStep (heapInit fun _ => 0) [.alloc 300 1000] s ∧ s.live = [⟨300, 1000⟩]
      ∧ ∀ fs t, fs <+: [.alloc 300 1000] → Run AllocStep (heapInit fun _ => 0) fs t → t.Counted := by
  have hmalloc : (heapInit fun _ => 0).Provides 300 1000 :=
    ⟨fun _ => ⟨by decide, fun _ _ hb => absurd hb not_mem_nil, nofun⟩,
      fun hsmall => absurd hsmall (by decide)⟩
  have hrun : Run AllocStep (heapInit fun _ => 0) [.alloc 300 1000] _ := .cons ⟨hmalloc, rfl⟩ (.nil _)
  exact ⟨_, hrun, rfl, (counters_agree_iff hrun).2 fun e he => mem_singleton.1 he ▸ rfl⟩

/-- One `__l_alloc(8)`: `free_cnt` is 32768 and 32767 slots are on the stack. -/
theorem counters_after_first_alloc :
    ∃ s, Run AllocStep (heapInit fun _ => 0) [.alloc 8 262144] s
      ∧ (∃ stk, Chain s.pool.words 0 (s.pool.sfc 0).stack stk ∧ stk.length = 32767)
      ∧ (s.pool.sfc 0).freeCnt = 32768 ∧ ¬s.Counted := by
  have huntouched : (heapInit fun _ => 0).Untouched := ⟨fun _ => rfl, nofun⟩
  have hblock : (heapInit fun _ => 0).Provides 8 262144 :=
    ⟨fun hlarge => absurd hlarge (by decide), fun _ _ => ⟨rfl, by decide,
      fun _ _ hb => absurd hb not_mem_nil, nofun⟩⟩
  obtain ⟨rest, hrest, hlen, hfree⟩ :=
    huntouched.first_alloc (by decide : 8 ≤ lSfcMaxElemSize) (by decide : 262144 ≠ 0)
  have hslots : lSfcMemBlockSize / (lSfcMinElemSize * 2 ^ slotClass 8) = 32768 := by decide
  refine ⟨_, .cons ⟨hblock, rfl⟩ (.nil _), ⟨rest, hrest, by omega⟩, hfree.trans hlen, ?_⟩
  exact huntouched.not_counted (by decide) (by decide)

end ProxySQL
