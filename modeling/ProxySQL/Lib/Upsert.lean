/-
  ProxySQL.Lib.Upsert

  Lists with at most one element per key: an element takes the place of the one
  with its key, or is added at the end.  After a list of such updates an element
  is the last update with its key, and the same updates once more change nothing.
-/
import Mathlib.Data.List.Basic

namespace Lib

open List

variable {α κ : Type} [DecidableEq κ] {key : α → κ}

/-- The element `x` takes the place of the first one with its key. -/
def upsert (key : α → κ) : List α → α → List α
  | [], x => [x]
  | y :: ys, x => if key y = key x then x :: ys else y :: upsert key ys x

/-- The element with a key. -/
def lookupKey (key : α → κ) (xs : List α) (k : κ) : Option α := xs.find? fun x => key x = k

theorem lookupKey_cons (x : α) (xs : List α) (k : κ) :
    lookupKey key (x :: xs) k = if key x = k then some x else lookupKey key xs k := by
  unfold lookupKey
  rw [find?_cons]
  split
  · next h => rw [if_pos (of_decide_eq_true h)]
  · next h => rw [if_neg (of_decide_eq_false h)]

variable {xs ys : List α} {k : κ} {x : α}

theorem lookupKey_isSome : (lookupKey key xs k).isSome ↔ k ∈ xs.map key := by
  unfold lookupKey
  rw [find?_isSome, mem_map]
  simp only [decide_eq_true_eq]

/-! ## One update -/

theorem lookupKey_upsert (xs : List α) (x : α) (k : κ) :
    lookupKey key (upsert key xs x) k = if key x = k then some x else lookupKey key xs k := by
  induction xs with
  | nil => exact lookupKey_cons x [] k
  | cons y ys ih =>
    rw [upsert]
    split
    · next hsame =>
      rw [lookupKey_cons, lookupKey_cons, hsame]
      split <;> rfl
    · next hother =>
      rw [lookupKey_cons, lookupKey_cons, ih]
      by_cases hy : key y = k
      · rw [if_pos hy, if_pos hy, if_neg fun hx => hother (hy.trans hx.symm)]
      · rw [if_neg hy, if_neg hy]

theorem map_upsert_of_mem (h : key x ∈ xs.map key) : (upsert key xs x).map key = xs.map key := by
  induction xs with
  | nil => cases h
  | cons y ys ih =>
    rw [upsert]
    split
    · next hsame => rw [map_cons, map_cons, hsame]
    · next hother =>
      rw [map_cons, mem_cons] at h
      rw [map_cons, map_cons, ih (h.resolve_left fun heq => hother heq.symm)]

theorem upsert_of_notMem (h : key x ∉ xs.map key) : upsert key xs x = xs ++ [x] := by
  induction xs with
  | nil => rfl
  | cons y ys ih =>
    rw [map_cons, mem_cons, not_or] at h
    rw [upsert, if_neg fun heq => h.1 heq.symm, ih h.2, cons_append]

theorem mem_map_upsert : k ∈ (upsert key xs x).map key ↔ k = key x ∨ k ∈ xs.map key := by
  rw [← lookupKey_isSome, lookupKey_upsert]
  by_cases hk : key x = k
  · rw [if_pos hk]
    exact iff_of_true rfl (.inl hk.symm)
  · rw [if_neg hk, lookupKey_isSome]
    exact ⟨.inr, fun h => h.resolve_left fun heq => hk heq.symm⟩

theorem getElem?_upsert {i : Nat} {y : α} (x : α) (h : xs[i]? = some y) :
    ∃ y', (upsert key xs x)[i]? = some y' ∧ key y' = key y := by
  induction xs generalizing i with
  | nil => cases h
  | cons z zs ih =>
    rw [upsert]
    split
    · next hsame =>
      cases i with
      | zero =>
        cases h
        exact ⟨x, rfl, hsame.symm⟩
      | succ i => exact ⟨y, h, rfl⟩
    · cases i with
      | zero => exact ⟨y, h, rfl⟩
      | succ i => exact ih h

theorem nodup_upsert (x : α) (h : (xs.map key).Nodup) : ((upsert key xs x).map key).Nodup := by
  by_cases hmem : key x ∈ xs.map key
  · rw [map_upsert_of_mem hmem]
    exact h
  · rw [upsert_of_notMem hmem, map_append, map_singleton]
    refine nodup_append.2 ⟨h, pairwise_singleton _ _, fun a ha b hb heq => ?_⟩
    rw [mem_singleton.1 hb] at heq
    exact hmem (heq ▸ ha)

/-! ## A list of updates -/

theorem nodup_foldl_upsert (xs : List α) (h : (ys.map key).Nodup) :
    ((xs.foldl (upsert key) ys).map key).Nodup := by
  induction xs generalizing ys with
  | nil => exact h
  | cons x xs ih => exact ih (nodup_upsert x h)

theorem mem_map_foldl_upsert : k ∈ (xs.foldl (upsert key) ys).map key ↔ k ∈ xs.map key ∨
    k ∈ ys.map key := by
  induction xs generalizing ys with
  | nil => exact ⟨.inr, fun h => h.resolve_left not_mem_nil⟩
  | cons x xs ih =>
    rw [foldl_cons, ih, mem_map_upsert, map_cons, mem_cons, or_left_comm, or_assoc]

theorem map_foldl_upsert_of_mem (h : ∀ x ∈ xs, key x ∈ ys.map key) :
    (xs.foldl (upsert key) ys).map key = ys.map key := by
  induction xs generalizing ys with
  | nil => rfl
  | cons x xs ih =>
    have hx := map_upsert_of_mem (h x mem_cons_self)
    rw [foldl_cons, ih ?_, hx]
    intro y hy
    rw [hx]
    exact h y (mem_cons_of_mem _ hy)

theorem lookupKey_foldl_upsert (xs ys : List α) (k : κ) :
    lookupKey key (xs.foldl (upsert key) ys) k
      = ((xs.filter fun x => key x = k).getLast?).or (lookupKey key ys k) := by
  induction xs generalizing ys with
  | nil => rfl
  | cons x xs ih =>
    rw [foldl_cons, ih, lookupKey_upsert, filter_cons]
    by_cases hx : key x = k
    · rw [if_pos hx, if_pos (decide_eq_true hx), getLast?_cons]
      cases (xs.filter fun x => key x = k).getLast? with
      | none => rfl
      | some z => rfl
    · rw [if_neg hx, if_neg fun h => hx (of_decide_eq_true h)]

/-- Lists with the same keys in the same places, and the same element for each key. -/
theorem eq_of_lookupKey (hkeys : xs.map key = ys.map key) (hnodup : (ys.map key).Nodup)
    (hlookup : ∀ k, lookupKey key xs k = lookupKey key ys k) : xs = ys := by
  induction xs generalizing ys with
  | nil => exact (map_eq_nil_iff.1 hkeys.symm).symm
  | cons x xs ih =>
    cases ys with
    | nil => cases hkeys
    | cons y ys =>
      obtain ⟨hkey, htail⟩ := List.cons.inj hkeys
      obtain ⟨hnotMem, hnodup'⟩ := nodup_cons.1 hnodup
      have hhead := hlookup (key y)
      rw [lookupKey_cons, lookupKey_cons, if_pos hkey, if_pos rfl] at hhead
      cases hhead
      refine congrArg (x :: ·) (ih htail hnodup' fun k => ?_)
      by_cases hk : key x = k
      · -- the key of the head is not in the tails
        have hnone : ∀ zs : List α, zs.map key = ys.map key → lookupKey key zs k = none := by
          intro zs hzs
          rw [← Option.not_isSome_iff_eq_none, lookupKey_isSome, hzs, ← hk]
          exact hnotMem
        rw [hnone xs htail, hnone ys rfl]
      · have hrest := hlookup k
        rw [lookupKey_cons, lookupKey_cons, if_neg hk, if_neg hk] at hrest
        exact hrest

theorem foldl_upsert_idem (xs : List α) (h : (ys.map key).Nodup) :
    xs.foldl (upsert key) (xs.foldl (upsert key) ys) = xs.foldl (upsert key) ys := by
  refine eq_of_lookupKey (map_foldl_upsert_of_mem fun x hx => ?_) (nodup_foldl_upsert xs h) fun k => ?_
  · exact mem_map_foldl_upsert.2 (.inl (mem_map_of_mem hx))
  · rw [lookupKey_foldl_upsert, lookupKey_foldl_upsert xs ys, ← Option.or_assoc, Option.or_self]

/-! ## Where the element is -/

theorem upsert_eq_set (xs : List α) (x : α) :
    upsert key xs x = (xs.findIdx? fun y => key y = key x).elim (xs ++ [x]) fun i => xs.set i x := by
  induction xs with
  | nil => rfl
  | cons y ys ih =>
    rw [upsert, findIdx?_cons]
    by_cases hy : key y = key x
    · rw [if_pos hy, if_pos (decide_eq_true hy)]
      rfl
    · rw [if_neg hy, if_neg fun h => hy (of_decide_eq_true h), ih]
      cases ys.findIdx? fun y => key y = key x with
      | none => rfl
      | some i => rfl

end Lib
