/-
  Lib.Sorted

  Sorted arrangements of a list under a comparison that may have ties.

  How many entries stand behind an element in a sorted arrangement is not fixed
  when others compare equal to it: it is any number from the entries above it to
  the entries not below it (`MayStand`).  For two elements, one of them strictly
  below the other, the two numbers can be chosen independently.
-/
import Mathlib.Data.List.Sort

namespace Lib

open List

universe u

variable {α : Type u} {le : α → α → Prop}

/-- The comparison is a total preorder on the elements of the list. -/
structure OrdersOn (le : α → α → Prop) (xs : List α) : Prop where
  total : ∀ x ∈ xs, ∀ y ∈ xs, le x y ∨ le y x
  trans : ∀ x ∈ xs, ∀ y ∈ xs, ∀ z ∈ xs, le x y → le y z → le x z

theorem OrdersOn.subset {xs ys : List α} (h : OrdersOn le xs) (hsub : ys ⊆ xs) : OrdersOn le ys :=
  ⟨fun x hx y hy => h.total x (hsub hx) y (hsub hy),
    fun x hx y hy z hz => h.trans x (hsub hx) y (hsub hy) z (hsub hz)⟩

theorem OrdersOn.refl {xs : List α} (h : OrdersOn le xs) {x : α} (hx : x ∈ xs) : le x x :=
  (h.total x hx x hx).elim id id

variable [DecidableRel le]

theorem OrdersOn.exists_sorted {xs : List α} (h : OrdersOn le xs) :
    ∃ ys : List α, ys.Perm xs ∧ ys.Pairwise le := by
  -- Sort the list of the elements with their membership, where the comparison is total.
  have htotal : ∀ a b : {x // x ∈ xs}, (decide (le a b) || decide (le b a)) = true := by
    intro a b
    simpa using h.total a a.2 b b.2
  have htrans : ∀ a b c : {x // x ∈ xs}, decide (le a b) = true → decide (le b c) = true →
      decide (le a c) = true := by
    intro a b c hab hbc
    simp only [decide_eq_true_eq] at hab hbc ⊢
    exact h.trans a a.2 b b.2 c c.2 hab hbc
  refine ⟨(xs.attach.mergeSort fun a b => le a b).map Subtype.val, ?_, ?_⟩
  · have hperm := (mergeSort_perm xs.attach fun a b => decide (le a b)).map Subtype.val
    rwa [attach_map_subtype_val] at hperm
  · rw [pairwise_map]
    exact (pairwise_mergeSort htrans htotal xs.attach).imp of_decide_eq_true

/-! ## One element -/

/-- Entries strictly above `a`. -/
def countAbove (le : α → α → Prop) [DecidableRel le] (xs : List α) (a : α) : Nat :=
  xs.countP fun x => ¬le x a

/-- Entries not below `a`. -/
def countFrom (le : α → α → Prop) [DecidableRel le] (xs : List α) (a : α) : Nat :=
  xs.countP fun x => le a x

/-- `k` entries may stand behind `a` in a sorted arrangement of the list. -/
def MayStand (le : α → α → Prop) [DecidableRel le] (xs : List α) (a : α) (k : Nat) : Prop :=
  countAbove le xs a ≤ k ∧ k < countFrom le xs a

/-- The entries in front of `a` are not above it, those behind it not below it. -/
structure Cut (le : α → α → Prop) (xs : List α) (a : α) (front behind : List α) : Prop where
  perm : xs.Perm (front ++ a :: behind)
  front_le : ∀ x ∈ front, le x a
  le_behind : ∀ x ∈ behind, le a x

section Cut

variable {xs : List α} {a : α} {front behind : List α}

theorem Cut.mayStand (h : Cut le xs a front behind) (hrefl : le a a) :
    MayStand le xs a behind.length := by
  have hfront : front.countP (fun x => ¬le x a) = 0 :=
    countP_eq_zero.2 fun x hx => by simpa using h.front_le x hx
  have hbehind : behind.countP (fun x => le a x) = behind.length :=
    countP_eq_length.2 fun x hx => by simpa using h.le_behind x hx
  have hle := countP_le_length (p := fun x => ¬le x a) (l := behind)
  rw [MayStand, countAbove, countFrom, h.perm.countP_eq, h.perm.countP_eq]
  simp only [countP_append, countP_cons, hrefl, hfront, hbehind, decide_true, not_true,
    decide_false, if_true]
  constructor
  · simpa using hle
  · omega

/-- A part of a given size that holds all entries with `p` and only entries with `q`. -/
theorem exists_pick {p q : α → Bool} {k : Nat} (hpq : ∀ x ∈ xs, p x = true → q x = true)
    (hmust : xs.countP p ≤ k) (hmay : k ≤ xs.countP q) :
    ∃ rest part, xs.Perm (rest ++ part) ∧ part.length = k
      ∧ (∀ x ∈ part, q x = true) ∧ ∀ x ∈ rest, p x = false := by
  induction xs generalizing k with
  | nil => exact ⟨[], [], List.Perm.refl _, (Nat.le_zero.1 hmay).symm, by simp, by simp⟩
  | cons x xs ih =>
    obtain ⟨hx, hxs⟩ := forall_mem_cons.1 hpq
    have hle : xs.countP p ≤ xs.countP q := countP_mono_left hxs
    rw [countP_cons] at hmust hmay
    by_cases htake : p x = true ∨ q x = true ∧ xs.countP q < k
    · have hq : q x = true := htake.elim hx And.left
      rw [if_pos hq] at hmay
      have hpos : xs.countP p + 1 ≤ k := by
        rcases htake with hp | ⟨-, hlt⟩
        · rwa [if_pos hp] at hmust
        · omega
      obtain ⟨rest, part, hperm, hlen, hpart, hrest⟩ := ih hxs (k := k - 1) (by omega) (by omega)
      refine ⟨rest, x :: part, (hperm.cons x).trans perm_middle.symm, ?_, ?_, hrest⟩
      · rw [length_cons]
        omega
      · exact forall_mem_cons.2 ⟨hq, hpart⟩
    · obtain ⟨hp, hq⟩ := not_or.1 htake
      rw [if_neg hp] at hmust
      have hmay : k ≤ xs.countP q := by
        by_contra hlt
        rw [if_neg fun hqx => hq ⟨hqx, by omega⟩] at hmay
        omega
      obtain ⟨rest, part, hperm, hlen, hpart, hrest⟩ := ih hxs hmust hmay
      exact ⟨x :: rest, part, hperm.cons x, hlen, hpart,
        forall_mem_cons.2 ⟨Bool.eq_false_of_not_eq_true hp, hrest⟩⟩

theorem exists_cut [DecidableEq α] {k : Nat} (ho : OrdersOn le xs) (ha : a ∈ xs)
    (hk : MayStand le xs a k) : ∃ front behind, Cut le xs a front behind ∧ behind.length = k := by
  have hperm := perm_cons_erase ha
  have hrefl := ho.refl ha
  obtain ⟨hmust, hmay⟩ := hk
  rw [countAbove, hperm.countP_eq, countP_cons_of_neg (by simpa using hrefl)] at hmust
  rw [countFrom, hperm.countP_eq, countP_cons_of_pos (by simpa using hrefl)] at hmay
  have hpq : ∀ x ∈ xs.erase a, decide (¬le x a) = true → decide (le a x) = true := by
    intro x hx hxa
    simp only [decide_eq_true_eq] at hxa ⊢
    exact (ho.total x (erase_subset hx) a ha).resolve_left hxa
  obtain ⟨front, behind, hsplit, hlen, hbehind, hfront⟩ :=
    exists_pick hpq hmust (Nat.le_of_lt_succ hmay)
  refine ⟨front, behind, ⟨?_, ?_, ?_⟩, hlen⟩
  · exact (hperm.trans (hsplit.cons a)).trans perm_middle.symm
  · exact fun x hx => by simpa using hfront x hx
  · exact fun x hx => by simpa using hbehind x hx

end Cut

/-! ## Two elements -/

section Apart

variable {xs : List α} {a z : α}

/-- Parts that lie on the right side of `a` and of `z` can be sorted. -/
theorem sorted_of_parts (ho : OrdersOn le xs) {front mid behind : List α}
    (hperm : xs.Perm (front ++ a :: (mid ++ z :: behind))) (hfront : ∀ x ∈ front, le x a)
    (hmid : ∀ x ∈ mid, le a x ∧ le x z) (haz : le a z) (hbehind : ∀ x ∈ behind, le z x) :
    ∃ front' mid' behind', (front' ++ a :: (mid' ++ z :: behind')).Perm xs
      ∧ (front' ++ a :: (mid' ++ z :: behind')).Pairwise le
      ∧ mid'.length = mid.length ∧ behind'.length = behind.length := by
  have hmem := fun x => (hperm.mem_iff (a := x)).2
  have hpart : ∀ ys : List α, (∀ x ∈ ys, x ∈ xs) → ∃ ys' : List α, ys'.Perm ys ∧ ys'.Pairwise le :=
    fun ys hsub => (ho.subset hsub).exists_sorted
  obtain ⟨front', hfrontPerm, hfrontSorted⟩ := hpart front fun x hx => hmem x (by simp [hx])
  obtain ⟨mid', hmidPerm, hmidSorted⟩ := hpart mid fun x hx => hmem x (by simp [hx])
  obtain ⟨behind', hbehindPerm, hbehindSorted⟩ := hpart behind fun x hx => hmem x (by simp [hx])
  have hall : (front' ++ a :: (mid' ++ z :: behind')).Perm xs :=
    ((hfrontPerm.append ((hmidPerm.append (hbehindPerm.cons z)).cons a))).trans hperm.symm
  have ha : a ∈ xs := hmem a (by simp)
  have hz : z ∈ xs := hmem z (by simp)
  have hfront' := fun x hx => hfront x (hfrontPerm.mem_iff.1 hx)
  have hmid' := fun x hx => hmid x (hmidPerm.mem_iff.1 hx)
  have hbehind' := fun x hx => hbehind x (hbehindPerm.mem_iff.1 hx)
  have hin := fun x => (hall.mem_iff (a := x)).1
  refine ⟨front', mid', behind', hall, ?_, hmidPerm.length_eq, hbehindPerm.length_eq⟩
  -- Across the parts the comparison goes through `a` and `z`.
  have hafter : ∀ y ∈ mid' ++ z :: behind', y ∈ xs ∧ le a y := by
    intro y hy
    refine ⟨hin y (mem_append_right _ (mem_cons_of_mem a hy)), ?_⟩
    rcases mem_append.1 hy with hy | hy
    · exact (hmid' y hy).1
    · rcases mem_cons.1 hy with rfl | hy
      · exact haz
      · exact ho.trans a ha z hz y (hin y (by simp [hy])) haz (hbehind' y hy)
  refine pairwise_append.2 ⟨hfrontSorted, pairwise_cons.2 ⟨fun y hy => (hafter y hy).2, ?_⟩, ?_⟩
  · refine pairwise_append.2 ⟨hmidSorted, pairwise_cons.2 ⟨hbehind', hbehindSorted⟩, ?_⟩
    intro x hx y hy
    rcases mem_cons.1 hy with rfl | hy
    · exact (hmid' x hx).2
    · exact ho.trans x (hin x (by simp [hx])) z hz y (hin y (by simp [hy])) (hmid' x hx).2
        (hbehind' y hy)
  · intro x hx y hy
    rcases mem_cons.1 hy with rfl | hy
    · exact hfront' x hx
    · exact ho.trans x (hin x (by simp [hx])) a ha y (hafter y hy).1 (hfront' x hx) (hafter y hy).2

/-- Which places two elements can take in a sorted arrangement. -/
theorem exists_sorted_apart_iff [DecidableEq α] (ho : OrdersOn le xs) (ha : a ∈ xs) (hz : z ∈ xs)
    (hlt : ¬le z a) (m k : Nat) :
    (∃ front mid behind, (front ++ a :: (mid ++ z :: behind)).Perm xs
        ∧ (front ++ a :: (mid ++ z :: behind)).Pairwise le ∧ mid.length = m ∧ behind.length = k)
      ↔ MayStand le xs z k ∧ MayStand le xs a (m + 1 + k) := by
  constructor
  · rintro ⟨front, mid, behind, hperm, hsorted, rfl, rfl⟩
    obtain ⟨-, hright, hacross⟩ := pairwise_append.1 hsorted
    obtain ⟨hleft, hrest⟩ := pairwise_cons.1 hright
    obtain ⟨-, hbehind, hmid⟩ := pairwise_append.1 hrest
    have hcutA : Cut le xs a front (mid ++ z :: behind) :=
      ⟨hperm.symm, fun x hx => hacross x hx a mem_cons_self, hleft⟩
    have hcutZ : Cut le xs z (front ++ a :: mid) behind := by
      refine ⟨by rw [append_assoc]; exact hperm.symm, fun x hx => ?_, (pairwise_cons.1 hbehind).1⟩
      rcases mem_append.1 hx with hx | hx
      · exact hacross x hx z (by simp)
      · rcases mem_cons.1 hx with rfl | hx
        · exact hleft z (by simp)
        · exact hmid x hx z mem_cons_self
    have hplace := hcutA.mayStand (ho.refl ha)
    rw [length_append, length_cons] at hplace
    exact ⟨hcutZ.mayStand (ho.refl hz), by rwa [Nat.add_assoc, Nat.add_comm 1]⟩
  · rintro ⟨hkz, hka⟩
    obtain ⟨front, behind, hcut, rfl⟩ := exists_cut ho hz hkz
    have hmem := fun x => (hcut.perm.mem_iff (a := x)).2
    have haz : le a z := (ho.total z hz a ha).resolve_left hlt
    -- What stands behind `z` is above `a`, so `a` and the entries around it are in front of `z`.
    have hover : ∀ x ∈ z :: behind, ¬le x a ∧ le a x := by
      intro x hx
      have hxs := hmem x (mem_append_right _ hx)
      have hzx : le z x := by
        rcases mem_cons.1 hx with rfl | hx
        · exact ho.refl hz
        · exact hcut.le_behind x hx
      exact ⟨fun hxa => hlt (ho.trans z hz x hxs a ha hzx hxa), ho.trans a ha z hz x hxs haz hzx⟩
    have hfront : a ∈ front := by
      rcases mem_append.1 (hcut.perm.mem_iff.1 ha) with h | h
      · exact h
      · exact absurd (ho.refl ha) (hover a h).1
    have hsub : front ⊆ xs := fun x hx => hmem x (mem_append_left _ hx)
    have hkf : MayStand le front a m := by
      have habove : (z :: behind).countP (fun x => ¬le x a) = (z :: behind).length :=
        countP_eq_length.2 fun x hx => by simpa using (hover x hx).1
      have hleast : (z :: behind).countP (fun x => le a x) = (z :: behind).length :=
        countP_eq_length.2 fun x hx => by simpa using (hover x hx).2
      obtain ⟨hlo, hhi⟩ := hka
      rw [countAbove, hcut.perm.countP_eq, countP_append, habove, length_cons] at hlo
      rw [countFrom, hcut.perm.countP_eq, countP_append, hleast, length_cons] at hhi
      exact ⟨by rw [countAbove]; omega, by rw [countFrom]; omega⟩
    obtain ⟨first, mid, hcutA, rfl⟩ := exists_cut (ho.subset hsub) hfront hkf
    have hmid : ∀ x ∈ mid, x ∈ front := fun x hx => hcutA.perm.mem_iff.2 (by simp [hx])
    obtain ⟨front', mid', behind', hall, hsorted, hlenMid, hlenBehind⟩ := sorted_of_parts ho
      (hcut.perm.trans ((hcutA.perm.append_right _).trans (by rw [append_assoc]; rfl)))
      hcutA.front_le (fun x hx => ⟨hcutA.le_behind x hx, hcut.front_le x (hmid x hx)⟩) haz
        hcut.le_behind
    exact ⟨front', mid', behind', hall, hsorted, hlenMid, hlenBehind⟩

end Apart

end Lib
