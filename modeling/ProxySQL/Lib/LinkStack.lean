/-
  ProxySQL.Lib.LinkStack

  Stacks whose links are stored in the elements themselves.

  `Chain next null s xs` says that the elements met from `s` on, along `next`,
  are `xs`, and that `null` follows.  Pushing and popping write one link each, so
  what they do to a chain is said by `Chain.push` and `Chain.pop`, and links
  outside a chain do not matter to it (`Chain.congr`).
-/
import Mathlib.Logic.Function.Basic
import Mathlib.Data.List.Nodup

namespace Lib

open List Function

variable {α : Type _} [DecidableEq α]

/-- Along `next` one meets, from `s` on, the elements `xs` and then `null`. -/
def Chain (next : α → α) (null : α) : α → List α → Prop
  | s, [] => s = null
  | s, x :: xs => s = x ∧ x ≠ null ∧ Chain next null (next x) xs

namespace Chain

variable {next next' : α → α} {null s p : α} {xs ys : List α}

omit [DecidableEq α] in
theorem congr (h : Chain next null s xs) (hlinks : ∀ x ∈ xs, next' x = next x) : Chain next' null s xs := by
  induction xs generalizing s with
  | nil => exact h
  | cons x xs ih =>
    obtain ⟨hs, hne, hrest⟩ := h
    refine ⟨hs, hne, ?_⟩
    rw [hlinks x mem_cons_self]
    exact ih hrest fun y hy => hlinks y (mem_cons_of_mem _ hy)

omit [DecidableEq α] in
theorem ne_null (h : Chain next null s xs) : ∀ x ∈ xs, x ≠ null := by
  induction xs generalizing s with
  | nil => exact nofun
  | cons x xs ih =>
    obtain ⟨-, hne, hrest⟩ := h
    intro y hy
    rcases mem_cons.1 hy with rfl | hy
    · exact hne
    · exact ih hrest y hy

omit [DecidableEq α] in
theorem unique (h : Chain next null s xs) (h' : Chain next null s ys) : xs = ys := by
  induction xs generalizing s ys with
  | nil =>
    cases ys with
    | nil => rfl
    | cons y ys => exact absurd (h'.1.symm.trans h) h'.2.1
  | cons x xs ih =>
    cases ys with
    | nil => exact absurd (h.1.symm.trans h') h.2.1
    | cons y ys =>
      obtain rfl : x = y := h.1.symm.trans h'.1
      rw [ih h.2.2 h'.2.2]

omit [DecidableEq α] in
theorem eq_null_iff (h : Chain next null s xs) : s = null ↔ xs = [] := by
  cases xs with
  | nil => exact iff_of_true h rfl
  | cons x xs => exact iff_of_false (h.1 ▸ h.2.1) (cons_ne_nil _ _)

theorem push (h : Chain next null s xs) (hp : p ∉ xs) (hnull : p ≠ null) :
    Chain (update next p s) null p (p :: xs) := by
  refine ⟨rfl, hnull, ?_⟩
  rw [update_self]
  exact h.congr fun x hx => update_of_ne (fun heq : x = p => hp (heq ▸ hx)) s next

theorem pop {x v : α} (h : Chain next null s (x :: xs)) (hx : x ∉ xs) :
    Chain (update next x v) null (next x) xs :=
  h.2.2.congr fun y hy => update_of_ne (fun heq : y = x => hx (heq ▸ hy)) v next

end Chain

/-! ## Many pushes -/

/-- The elements of a list are pushed one after the other. -/
def pushAll (next : α → α) (s : α) (ps : List α) : (α → α) × α :=
  ps.foldl (fun r p => (update r.1 p r.2, p)) (next, s)

theorem Chain.pushAll {next : α → α} {null s : α} {xs ps : List α} (h : Chain next null s xs)
    (hps : ps.Nodup) (hnew : ∀ p ∈ ps, p ∉ xs) (hnull : ∀ p ∈ ps, p ≠ null) :
    Chain (Lib.pushAll next s ps).1 null (Lib.pushAll next s ps).2 (ps.reverse ++ xs) := by
  induction ps generalizing next s xs with
  | nil => exact h
  | cons p ps ih =>
    obtain ⟨hp, hps⟩ := nodup_cons.1 hps
    have hpush := h.push (hnew p mem_cons_self) (hnull p mem_cons_self)
    rw [reverse_cons, append_assoc, singleton_append]
    refine ih hpush hps (fun q hq => ?_) fun q hq => hnull q (mem_cons_of_mem _ hq)
    rw [mem_cons, not_or]
    exact ⟨fun heq => hp (heq ▸ hq), hnew q (mem_cons_of_mem _ hq)⟩

/-- Every list of different elements is the chain of some links. -/
theorem exists_chain {null : α} {xs : List α} (hnodup : xs.Nodup) (hnull : ∀ x ∈ xs, x ≠ null) :
    ∃ next s, Chain next null s xs := by
  have hempty : Chain (fun _ => null) null null [] := rfl
  have hchain := hempty.pushAll (nodup_reverse.2 hnodup) (fun _ _ => not_mem_nil)
    fun p hp => hnull p (mem_reverse.1 hp)
  rw [reverse_reverse, append_nil] at hchain
  exact ⟨_, _, hchain⟩

theorem pushAll_of_notMem {next : α → α} {s x : α} {ps : List α} (hx : x ∉ ps) :
    (pushAll next s ps).1 x = next x := by
  induction ps generalizing next s with
  | nil => rfl
  | cons p ps ih =>
    obtain ⟨hne, hx⟩ := not_or.1 (mem_cons.not.1 hx)
    exact (ih hx).trans (update_of_ne hne s next)

/-! ## Reading a stack -/

/-- The first `n` elements from `s` on, with `null` in the place of missing ones. -/
def walk (next : α → α) (null : α) : Nat → α → List α
  | 0, _ => []
  | n + 1, s => s :: walk next null n (if s = null then null else next s)

@[simp] theorem length_walk (next : α → α) (null : α) (n : Nat) (s : α) :
    (walk next null n s).length = n := by
  induction n generalizing s with
  | zero => rfl
  | succ n ih => rw [walk, length_cons, ih]

theorem walk_null (next : α → α) (null : α) (n : Nat) : walk next null n null = replicate n null := by
  induction n with
  | zero => rfl
  | succ n ih => rw [walk, if_pos rfl, ih, replicate_succ]

theorem Chain.walk_eq {next : α → α} {null s : α} {xs : List α} (h : Chain next null s xs) (n : Nat) :
    walk next null n s = xs.take n ++ replicate (n - xs.length) null := by
  induction n generalizing s xs with
  | zero => simp [walk]
  | succ n ih =>
    cases xs with
    | nil =>
      obtain rfl : s = null := h
      rw [walk_null]
      simp
    | cons x xs =>
      obtain ⟨rfl, hne, hrest⟩ := h
      rw [walk, if_neg hne, ih hrest]
      simp

end Lib
