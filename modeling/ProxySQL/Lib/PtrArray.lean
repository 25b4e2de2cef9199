/-
  ProxySQL.Lib.PtrArray

  Arrays of pointers as lists: one element is replaced, or removed by moving the
  last one into its place.  The order of the others is of no interest to most
  users of such arrays, so the facts are stated up to permutation.
-/
import Mathlib.Data.List.Perm.Basic

namespace Lib

open List

variable {α β : Type}

/-! ## One element is replaced -/

variable {xs : List α} {i : Nat} {x : α}

theorem flatMap_perm_eraseIdx (f : α → List β) (h : xs[i]? = some x) :
    (xs.flatMap f).Perm (f x ++ (xs.eraseIdx i).flatMap f) := by
  obtain ⟨hi, rfl⟩ := List.getElem?_eq_some_iff.1 h
  have hperm := (getElem_cons_eraseIdx_perm hi).symm.flatMap_right f
  rwa [flatMap_cons] at hperm

theorem flatMap_set_perm (f : α → List β) (h : xs[i]? = some x) (y : α) :
    ((xs.set i y).flatMap f).Perm (f y ++ (xs.eraseIdx i).flatMap f) := by
  have hi : i < xs.length := (List.getElem?_eq_some_iff.1 h).1
  have hperm := flatMap_perm_eraseIdx f (getElem?_set_self hi : (xs.set i y)[i]? = some y)
  rwa [eraseIdx_set_eq] at hperm

theorem map_set_eq (f : α → β) {y : α} (h : xs[i]? = some x) (hf : f y = f x) :
    (xs.set i y).map f = xs.map f := by
  obtain ⟨hi, rfl⟩ := List.getElem?_eq_some_iff.1 h
  refine ext_getElem? fun j => ?_
  rw [map_set, hf, getElem?_set]
  split
  · next hij =>
    subst hij
    simp [hi]
  · rfl

/-! ## Removal that does not keep the order -/

/-- The last element takes the place of element `i`. -/
def removeIndexFast (xs : List α) (i : Nat) : List α :=
  match xs.getLast? with
  | none => []
  | some x => (xs.set i x).dropLast

theorem removeIndexFast_concat (xs : List α) (x : α) (i : Nat) :
    removeIndexFast (xs ++ [x]) i = xs.set i x := by
  simp only [removeIndexFast, getLast?_append, getLast?_singleton, Option.some_or]
  rcases Nat.lt_or_ge i xs.length with hi | hi
  · rw [set_append_left _ _ hi, dropLast_concat]
  · rw [set_append_right _ _ hi, set_eq_of_length_le hi]
    cases i - xs.length <;> simp

theorem removeIndexFast_perm {a : α} (h : xs[i]? = some a) : xs.Perm (a :: removeIndexFast xs i) := by
  rcases eq_nil_or_concat xs with rfl | ⟨ys, x, rfl⟩
  · cases h
  rw [concat_eq_append] at h ⊢
  rw [removeIndexFast_concat]
  rcases Nat.lt_or_ge i ys.length with hi | hi
  · rw [getElem?_append_left hi] at h
    obtain ⟨_, rfl⟩ := List.getElem?_eq_some_iff.1 h
    calc ys ++ [x]
      _ |>.Perm (x :: ys) := perm_append_singleton x ys
      _ |>.Perm (x :: ys[i] :: ys.eraseIdx i) := ((getElem_cons_eraseIdx_perm hi).symm).cons x
      _ |>.Perm (ys[i] :: x :: ys.eraseIdx i) := .swap _ _ _
      _ |>.Perm (ys[i] :: ys.set i x) := ((set_perm_cons_eraseIdx hi x).symm).cons _
  · -- the last element is removed itself
    rw [set_eq_of_length_le hi]
    have hlt : i < (ys ++ [x]).length := (List.getElem?_eq_some_iff.1 h).1
    obtain rfl : i = ys.length := by
      rw [length_append, length_singleton] at hlt
      omega
    rw [getElem?_concat_length] at h
    obtain rfl := Option.some.inj h
    exact perm_append_singleton x ys

theorem length_removeIndexFast {a : α} (h : xs[i]? = some a) :
    xs.length = (removeIndexFast xs i).length + 1 := (removeIndexFast_perm h).length_eq

/-- What stands before the removed element stays where it is. -/
theorem getElem?_removeIndexFast_of_lt {j : Nat} (hi : i < xs.length) (hj : j < i) :
    (removeIndexFast xs i)[j]? = xs[j]? := by
  rcases eq_nil_or_concat xs with rfl | ⟨ys, x, rfl⟩
  · exact absurd hi (Nat.not_lt_zero i)
  rw [concat_eq_append] at hi ⊢
  rw [length_append, length_singleton] at hi
  have hlt : j < ys.length := by omega
  rw [removeIndexFast_concat, getElem?_set_ne (Nat.ne_of_gt hj), getElem?_append_left hlt]

end Lib
