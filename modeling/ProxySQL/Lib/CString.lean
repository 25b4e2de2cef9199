/-
  ProxySQL.Lib.CString

  Comparison of C strings up to a length.

  `strncmp` and `strncasecmp` stop at the first difference, behind a terminator that
  both strings have, or after the given number of characters.  If that number is the
  length of a text, which need not be terminated, and the other string is a literal,
  no difference is found exactly if the text is a prefix of the literal, or goes on
  behind it with a terminator (`strnEq_literal_iff`).  No text starts with both of two
  lists neither of which is a prefix of the other (`Apart`).
-/
import Mathlib.Data.List.Basic

namespace Lib

open List

variable {α β : Type} [DecidableEq α] [DecidableEq β] {f : α → β} {nul : α}

/-- Whether the first `n` characters, seen through `f`, have no difference before both strings end. -/
def strnEq (f : α → β) (nul : α) : Nat → (Nat → α) → (Nat → α) → Bool
  | 0, _, _ => true
  | n + 1, s, t =>
      decide (f (s 0) = f (t 0)) && (decide (s 0 = nul) || strnEq f nul n (fun i => s (i + 1)) fun i =>
        t (i + 1))

/-- A string literal, with its terminator. -/
def literal (nul : α) (xs : List α) (i : Nat) : α := xs.getD i nul

omit [DecidableEq α] in
@[simp] theorem literal_cons_succ (x : α) (xs : List α) (i : Nat) :
    literal nul (x :: xs) (i + 1) = literal nul xs i := rfl

theorem strnEq_literal_iff {xs ts : List α} {t : Nat → α} (hxs : nul ∉ xs)
    (ht : ∀ i, ∀ c, ts[i]? = some c → t i = c) : strnEq f nul ts.length (literal nul xs) t = true ↔
      ts.map f <+: xs.map f ∨ xs.map f ++ [f nul] <+: ts.map f := by
  -- character by character, until one of the two ends
  induction ts generalizing xs t with
  | nil => simp [strnEq]
  | cons c ts ih =>
    have hc : t 0 = c := ht 0 c rfl
    cases xs with
    | nil =>
      simp only [length_cons, strnEq, literal, getD_nil, hc, decide_true, Bool.true_or, Bool.and_true,
        decide_eq_true_eq, map_cons, map_nil, prefix_nil, nil_append, reduceCtorEq, false_or,
        cons_prefix_cons, nil_prefix, and_true]
    | cons x xs =>
      have hx : ¬x = nul := fun heq => hxs (heq ▸ mem_cons_self)
      have hrest := @ih xs (fun i => t (i + 1)) (fun hmem => hxs (mem_cons_of_mem _ hmem))
        fun i d hd => ht (i + 1) d hd
      have hzero : literal nul (x :: xs) 0 = x := rfl
      simp only [length_cons, strnEq, hzero, literal_cons_succ, hc, Bool.and_eq_true, decide_eq_true_eq,
        hx, decide_false, Bool.false_or, hrest, map_cons, cons_append, cons_prefix_cons]
      constructor
      · rintro ⟨heq, hcut | hlong⟩
        · exact .inl ⟨heq.symm, hcut⟩
        · exact .inr ⟨heq, hlong⟩
      · rintro (⟨heq, hcut⟩ | ⟨heq, hlong⟩)
        · exact ⟨heq.symm, .inl hcut⟩
        · exact ⟨heq, .inr hlong⟩

theorem strnEq_length_iff {xs : List α} {t : Nat → α} (hxs : nul ∉ xs) :
    strnEq f nul xs.length (literal nul xs) t = true ↔ (range xs.length).map (fun i => f (t i)) =
    xs.map f := by
  induction xs generalizing t with
  | nil => simp [strnEq]
  | cons x xs ih =>
    have hx : ¬x = nul := fun heq => hxs (heq ▸ mem_cons_self)
    have hrest := @ih (fun i => t (i + 1)) fun hmem => hxs (mem_cons_of_mem _ hmem)
    have hzero : literal nul (x :: xs) 0 = x := rfl
    rw [length_cons, range_succ_eq_map, map_cons, map_map, map_cons, List.cons.injEq]
    simp only [strnEq, hzero, literal_cons_succ, Bool.and_eq_true, decide_eq_true_eq, hx, decide_false,
      Bool.false_or, hrest]
    exact and_congr eq_comm Iff.rfl

/-- Neither list is a prefix of the other. -/
def Apart (xs ys : List α) : Prop := ¬xs <+: ys ∧ ¬ys <+: xs

instance (xs ys : List α) : Decidable (Apart xs ys) := inferInstanceAs (Decidable (_ ∧ _))

omit [DecidableEq α] in
theorem Apart.not_prefix {xs ys zs : List α} (h : Apart xs ys) (hxs : xs <+: zs) : ¬ys <+: zs := fun hys =>
  ( prefix_or_prefix_of_prefix hxs hys).elim h.1 h.2

/-! ## Printing into a buffer -/

/-- What `snprintf` stores of a text if its limit is `n`: what there is room for, and the terminator. -/
def snprintf (nul : α) (n : Nat) (text : List α) : List α :=
  if n = 0 then [] else text.take (n - 1) ++ [nul]

omit [DecidableEq α] in
theorem length_snprintf_le (nul : α) (n : Nat) (text : List α) : (snprintf nul n text).length ≤ n := by
  unfold snprintf
  split
  · exact Nat.zero_le _
  · rw [length_append, length_take, length_singleton]
    omega

end Lib
