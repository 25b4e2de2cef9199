/-
  ProxySQL.Lib.While

  While loops whose body may fail.  `whileLoop cond body n s` runs the loop for
  at most `n` rounds; it is `none` if a round fails or the rounds run out, so
  that `some` says both that the loop ends and that nothing went wrong in it.

  The rule for it is the usual one: an invariant that every round keeps, and a
  measure that every round decreases.
-/
import Mathlib.Logic.Basic

namespace Lib

variable {σ : Type _}

/-- `while (cond) body`, for at most `n` rounds. -/
def whileLoop (cond : σ → Bool) (body : σ → Option σ) : Nat → σ → Option σ
  | 0, s => if cond s then none else some s
  | n + 1, s => if cond s then (body s).bind (whileLoop cond body n) else some s

variable {cond : σ → Bool} {body : σ → Option σ}

theorem whileLoop_of_not {n : Nat} {s : σ} (h : cond s = false) : whileLoop cond body n s = some s := by
  cases n with
  | zero => rw [whileLoop, h, if_neg Bool.false_ne_true]
  | succ n => rw [whileLoop, h, if_neg Bool.false_ne_true]

theorem whileLoop_round {n : Nat} {s t : σ} (h : cond s = true) (hbody : body s = some t) :
    whileLoop cond body (n + 1) s = whileLoop cond body n t := by
  rw [whileLoop, if_pos h, hbody, Option.bind_some]

/-- A loop whose rounds succeed, keep `I` and decrease `μ` ends, and it ends where `I` holds. -/
theorem whileLoop_of_invariant {I : σ → Prop} {μ : σ → Nat}
    (hround : ∀ s, I s → cond s = true → ∃ t, body s = some t ∧ I t ∧ μ t < μ s)
    {n : Nat} {s : σ} (hI : I s) (hn : μ s ≤ n) :
    ∃ t, whileLoop cond body n s = some t ∧ I t ∧ cond t = false := by
  induction n generalizing s with
  | zero =>
    cases hc : cond s with
    | true =>
      -- the measure of the next state would be negative
      obtain ⟨t, -, -, hlt⟩ := hround s hI hc
      omega
    | false => exact ⟨s, whileLoop_of_not hc, hI, hc⟩
  | succ n ih =>
    cases hc : cond s with
    | true =>
      obtain ⟨t, hbody, ht, hlt⟩ := hround s hI hc
      rw [whileLoop_round hc hbody]
      exact ih ht (by omega)
    | false => exact ⟨s, whileLoop_of_not hc, hI, hc⟩

end Lib
