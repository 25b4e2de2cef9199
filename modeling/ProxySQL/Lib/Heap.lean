/-
  ProxySQL.Lib.Heap

  Allocations, and the frees that match them.

  Every allocation has a number of its own, so a block that was freed is never taken
  for one that was allocated later at the same address.  A pointer is the number of
  the block it was set to, or `none` if nothing has set it.  A free names a pointer
  and a size and goes through if the block is live and has that size; several frees
  go through exactly if they name distinct blocks of their sizes (`freeAll_isSome_iff`).
-/
import Mathlib.Logic.Function.Basic
import Mathlib.Data.List.Nodup
import Mathlib.Data.List.Perm.Subperm

namespace Lib

open List Option Function

/-- The sizes of the live blocks.  Numbers from `next` on have not been given out. -/
structure Heap where
  next : Nat
  size : Nat → Option Nat
  fresh : ∀ p, next ≤ p → size p = none

namespace Heap

def empty : Heap where
  next := 0
  size _ := none
  fresh _ _ := rfl

/-- A block of `n` bytes, and its number. -/
def alloc (h : Heap) (n : Nat) : Heap × Nat :=
  ({ next := h.next + 1
     size := update h.size h.next (some n)
     fresh := by
      intro p hp
      rw [update_of_ne (by omega), h.fresh p (by omega)] },
    h.next)

/-- The block `p` is given back as one of `n` bytes; `none` if there is no such block. -/
def free (h : Heap) (n : Nat) (p : Option Nat) : Option Heap :=
  match p with
  | none => none
  | some p =>
      if h.size p = some n then
        some
          { next := h.next
            size := update h.size p none
            fresh := by
              intro q hq
              by_cases hqp : q = p
              · rw [hqp, update_self]
              · rw [update_of_ne hqp, h.fresh q hq] }
      else none

/-- The pointer leads to a live block of `n` bytes. -/
def Live (h : Heap) (n : Nat) (p : Option Nat) : Prop := ∃ b, p = some b ∧ h.size b = some n

variable {h h' : Heap} {n k : Nat} {p q : Option Nat}

theorem Live.lt_next {b : Nat} (hlive : h.Live n (some b)) : b < h.next := by
  obtain ⟨b', hb, hsize⟩ := hlive
  cases hb
  by_contra hge
  rw [h.fresh b (by omega)] at hsize
  cases hsize

theorem live_alloc_iff : (h.alloc n).1.Live k p ↔ h.Live k p ∨ p = some (h.alloc n).2 ∧ k = n := by
  constructor
  · rintro ⟨b, rfl, hsize⟩
    by_cases hb : b = h.next
    · subst hb
      have hself : (h.alloc n).1.size h.next = some n := update_self ..
      exact .inr ⟨rfl, some.inj (hsize.symm.trans hself)⟩
    · exact .inl ⟨b, rfl, (update_of_ne hb ..).symm.trans hsize⟩
  · rintro (⟨b, rfl, hsize⟩ | ⟨rfl, rfl⟩)
    · have hlt : b < h.next := Live.lt_next ⟨b, rfl, hsize⟩
      exact ⟨b, rfl, (update_of_ne (by omega) ..).trans hsize⟩
    · exact ⟨h.next, rfl, update_self ..⟩

theorem Live.ne_next (hlive : h.Live n p) : p ≠ some h.next := by
  rintro rfl
  exact absurd hlive.lt_next (Nat.lt_irrefl _)

/-- A free goes through exactly if it names a live block with its size. -/
theorem free_isSome_iff : (h.free n p).isSome ↔ h.Live n p := by
  cases p with
  | none => exact ⟨nofun, fun ⟨_, hb, _⟩ => by cases hb⟩
  | some b =>
    unfold free
    dsimp only
    split
    · next hsize => exact ⟨fun _ => ⟨b, rfl, hsize⟩, fun _ => rfl⟩
    · next hsize =>
      refine ⟨nofun, fun ⟨b', hb, hsize'⟩ => ?_⟩
      cases hb
      exact absurd hsize' hsize

theorem Live.free (hlive : h.Live n p) : ∃ h', h.free n p = some h' :=
  isSome_iff_exists.1 (free_isSome_iff.2 hlive)

theorem live_free_iff (hfree : h.free n p = some h') : h'.Live k q ↔ h.Live k q ∧ q ≠ p := by
  obtain ⟨b, rfl, hsize⟩ := free_isSome_iff.1 (isSome_of_eq_some hfree)
  unfold Heap.free at hfree
  dsimp only at hfree
  rw [if_pos hsize] at hfree
  cases hfree
  constructor
  · rintro ⟨c, rfl, hc⟩
    have hne : c ≠ b := by
      rintro rfl
      dsimp only at hc
      rw [update_self] at hc
      cases hc
    exact ⟨⟨c, rfl, (update_of_ne hne ..).symm.trans hc⟩, fun heq => hne (some.inj heq)⟩
  · rintro ⟨⟨c, rfl, hc⟩, hne⟩
    exact ⟨c, rfl, (update_of_ne (fun heq => hne (congrArg some heq)) ..).trans hc⟩

/-! ## Several blocks -/

/-- The pointers lead to distinct live blocks with these sizes. -/
def Owns (h : Heap) (l : List (Nat × Option Nat)) : Prop := (l.map Prod.snd).Nodup ∧ ∀ x ∈ l, h.Live x.1 x.2

variable {l l' : List (Nat × Option Nat)}

theorem owns_nil : h.Owns [] := ⟨nodup_nil, nofun⟩

theorem Owns.subperm (howns : h.Owns l) (hsub : l'.Subperm l) : h.Owns l' := by
  obtain ⟨hnodup, hlive⟩ := howns
  refine ⟨?_, fun x hx => hlive x (hsub.subset hx)⟩
  obtain ⟨k, hperm, hsublist⟩ := hsub
  exact (hperm.map Prod.snd).nodup_iff.1 ((hsublist.map Prod.snd).nodup hnodup)

theorem Owns.perm (howns : h.Owns l) (hperm : l.Perm l') : h.Owns l' := howns.subperm hperm.symm.subperm

theorem Owns.alloc (howns : h.Owns l) (n : Nat) : (h.alloc n).1.Owns ((n, some (h.alloc n).2) :: l) := by
  obtain ⟨hnodup, hlive⟩ := howns
  refine ⟨nodup_cons.2 ⟨fun hmem => ?_, hnodup⟩, forall_mem_cons.2 ⟨live_alloc_iff.2 (.inr ⟨rfl, rfl⟩), ?_⟩⟩
  · obtain ⟨x, hx, hxp⟩ := mem_map.1 hmem
    exact (hlive x hx).ne_next hxp
  · exact fun x hx => live_alloc_iff.2 (.inl (hlive x hx))

theorem Owns.free (howns : h.Owns ((n, p) :: l)) : ∃ h', h.free n p = some h' ∧ h'.Owns l := by
  obtain ⟨hnodup, hlive⟩ := howns
  obtain ⟨hnot, hnodup⟩ := nodup_cons.1 hnodup
  obtain ⟨hfirst, hlive⟩ := forall_mem_cons.1 hlive
  obtain ⟨h', hfree⟩ := Live.free hfirst
  refine ⟨h', hfree, hnodup, fun x hx => (live_free_iff hfree).2 ⟨hlive x hx, fun heq => hnot ?_⟩⟩
  exact mem_map.2 ⟨x, hx, heq⟩

/-- One free after the other, each with the size and the pointer it names. -/
def freeAll (h : Heap) : List (Nat × Option Nat) → Option Heap
  | [] => some h
  | (n, p) :: l => (h.free n p).bind fun h => h.freeAll l

/-- All frees go through exactly if they name distinct live blocks with their sizes. -/
theorem freeAll_isSome_iff : (h.freeAll l).isSome ↔ h.Owns l := by
  induction l generalizing h with
  | nil => exact ⟨fun _ => owns_nil, fun _ => rfl⟩
  | cons x l ih =>
    rw [freeAll]
    constructor
    · intro hsome
      obtain ⟨h'', hall⟩ := isSome_iff_exists.1 hsome
      obtain ⟨h', hfree, hrest⟩ := bind_eq_some_iff.1 hall
      obtain ⟨hnodup, hlive⟩ := ih.1 (isSome_of_eq_some hrest)
      -- what is live after the first free was live before and is another block
      refine ⟨nodup_cons.2 ⟨fun hmem => ?_, hnodup⟩, forall_mem_cons.2 ⟨?_, fun y hy => ?_⟩⟩
      · obtain ⟨y, hy, hyp⟩ := mem_map.1 hmem
        exact ((live_free_iff hfree).1 (hlive y hy)).2 hyp
      · exact free_isSome_iff.1 (isSome_of_eq_some hfree)
      · exact ((live_free_iff hfree).1 (hlive y hy)).1
    · intro howns
      obtain ⟨h', hfree, hrest⟩ := howns.free
      rw [hfree, bind_some]
      exact ih.2 hrest

end Heap

end Lib
