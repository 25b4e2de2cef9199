/-
  ProxySQL.Lib.Run

  Runs of a labelled transition relation, and the induction rules the safety
  results below are proved with: a property that every step keeps holds at the
  end of every run, a run whose steps all meet a guard is a run of the guarded
  relation, and a property that a step keeps exactly if it meets a guard holds
  all along a run exactly if the run is guarded.
-/
import Mathlib.Logic.Basic

namespace Lib

open List Option

variable {σ ε : Type _}

/-- `Run R s es t`: the events `es`, one after the other, lead from `s` to `t`. -/
inductive Run (R : σ → ε → σ → Prop) : σ → List ε → σ → Prop
  | nil (s : σ) : Run R s [] s
  | cons {s t u : σ} {e : ε} {es : List ε} : R s e t → Run R t es u → Run R s (e :: es) u

/-- `R` with every step restricted to the states and events that meet `G`. -/
def Guarded (R : σ → ε → σ → Prop) (G : σ → ε → Prop) : σ → ε → σ → Prop :=
  fun s e t => R s e t ∧ G s e

variable {R : σ → ε → σ → Prop}

variable {s t : σ} {es : List ε}

theorem Run.append {u : σ} {fs : List ε} (h₁ : Run R s es t) (h₂ : Run R t fs u) :
    Run R s (es ++ fs) u := by
  induction h₁ with
  | nil => exact h₂
  | cons hstep _ ih => exact .cons hstep (ih h₂)

theorem Run.snoc {u : σ} {e : ε} (h : Run R s es t) (hstep : R t e u) : Run R s (es ++ [e]) u :=
  h.append (.cons hstep (.nil u))

theorem Run.exists_last {e : ε} (h : Run R s (es ++ [e]) t) : ∃ u, Run R s es u ∧ R u e t := by
  induction es generalizing s with
  | nil =>
    cases h with
    | cons hstep hrest =>
      cases hrest
      exact ⟨s, .nil s, hstep⟩
  | cons f es ih =>
    cases h with
    | cons hstep hrest =>
      obtain ⟨u, hrun, hlast⟩ := ih hrest
      exact ⟨u, .cons hstep hrun, hlast⟩

/-- A run all of whose events meet a condition is a run guarded by it. -/
theorem Run.guarded_events {G : ε → Prop} (h : Run R s es t) (hG : ∀ e ∈ es, G e) :
    Run (Guarded R fun _ e => G e) s es t := by
  induction h with
  | nil s => exact .nil s
  | cons hstep _ ih =>
    exact .cons ⟨hstep, hG _ mem_cons_self⟩ (ih fun e he => hG e (mem_cons_of_mem _ he))

theorem Run.mono {R' : σ → ε → σ → Prop} (hR : ∀ s e t, R s e t → R' s e t) (h : Run R s es t) :
    Run R' s es t := by
  induction h with
  | nil s => exact .nil s
  | cons hstep _ ih => exact .cons (hR _ _ _ hstep) ih

/-- The run of a transition function, as far as it goes. -/
def exec (step : σ → ε → Option σ) : σ → List ε → Option σ
  | s, [] => some s
  | s, e :: es => (step s e).bind fun t => exec step t es

variable {step : σ → ε → Option σ} {G : σ → ε → Prop} {check : σ → ε → Bool} {P : σ → Prop}

theorem Run.of_exec (h : exec step s es = some t) :
    Run (fun s e t => step s e = some t) s es t := by
  induction es generalizing s with
  | nil =>
    obtain rfl := some.inj h
    exact .nil s
  | cons e es ih =>
    obtain ⟨u, hu, hrest⟩ := bind_eq_some_iff.1 h
    exact .cons hu (ih hrest)

/-- The run of a transition function that checks its guard in every step. -/
theorem Run.of_guarded_exec
    (hstep : ∀ s e t, step s e = some t → R s e t) (hcheck : ∀ s e, check s e = true → G s e)
    (h : exec (fun s e => if check s e then step s e else none) s es = some t) :
    Run (Guarded R G) s es t := by
  refine (Run.of_exec h).mono fun s e t hst => ?_
  split at hst
  · next hc => exact ⟨hstep s e t hst, hcheck s e hc⟩
  · cases hst

section Evaluated

variable (step : σ → ε → Option σ) {P : σ → Prop} [DecidablePred P]

/-- A property that is found at the end of an execution by evaluating it. -/
theorem Run.exists_exec (s : σ) (es : List ε) (hstep : ∀ s e t, step s e = some t → R s e t)
    (h : (exec step s es).any (fun t => P t) = true) : ∃ t, Run R s es t ∧ P t := by
  obtain ⟨t, ht, hP⟩ := (Option.any_eq_true ..).1 h
  exact ⟨t, (Run.of_exec ht).mono hstep, of_decide_eq_true hP⟩

theorem Run.exists_guarded_exec (s : σ) (es : List ε)
    (hstep : ∀ s e t, step s e = some t → R s e t) (hcheck : ∀ s e, check s e = true → G s e)
    (h : (exec (fun s e => if check s e then step s e else none) s es).any (fun t => P t) = true) :
    ∃ t, Run (Guarded R G) s es t ∧ P t := by
  obtain ⟨t, ht, hP⟩ := (Option.any_eq_true ..).1 h
  exact ⟨t, Run.of_guarded_exec hstep hcheck ht, of_decide_eq_true hP⟩

end Evaluated

/-- What every step keeps, every run keeps. -/
theorem Run.invariant (hstep : ∀ s e t, R s e t → P s → P t)
    (h : Run R s es t) (hs : P s) : P t := by
  induction h with
  | nil => exact hs
  | cons hR _ ih => exact ih (hstep _ _ _ hR hs)

/-- If a step from a state with `P` leads to a state with `P` exactly if it meets `G`, then `P` is true in
    all states of a run exactly if all its steps meet `G`.  `I` is an invariant that helps. -/
theorem Run.always_iff_guarded {I : σ → Prop} (h : Run R s es t)
    (hdet : ∀ {s e t t'}, R s e t → R s e t' → t = t') (hinv : ∀ {s e t}, R s e t → I s → I t)
    (hiff : ∀ {s e t}, R s e t → I s → P s → (P t ↔ G s e)) (hI : I s) (hs : P s) :
    (∀ fs u, fs <+: es → Run R s fs u → P u) ↔ Run (Guarded R G) s es t := by
  constructor
  · intro halways
    induction h with
    | nil s => exact .nil s
    | @cons s t u e es hstep hrest ih =>
      have ht : P t := halways [e] t ⟨es, rfl⟩ (.cons hstep (.nil t))
      refine .cons ⟨hstep, (hiff hstep hI hs).1 ht⟩ (ih (hinv hstep hI) ht fun fs v hfs hv => ?_)
      exact halways (e :: fs) v (cons_prefix_cons.2 ⟨rfl, hfs⟩) (.cons hstep hv)
  · intro hguarded
    clear h
    induction hguarded with
    | nil s =>
      intro fs u hfs hrun
      obtain rfl := prefix_nil.1 hfs
      cases hrun
      exact hs
    | @cons s t u e es hstep hrest ih =>
      intro fs v hfs hrun
      cases hrun with
      | nil => exact hs
      | @cons _ t' _ f fs hstep' hrun =>
        -- the run is the same as far as it goes
        obtain ⟨rfl, hrest⟩ := cons_prefix_cons.1 hfs
        obtain rfl := hdet hstep.1 hstep'
        have ht : P t := (hiff hstep.1 hI hs).2 hstep.2
        exact ih (hinv hstep.1 hI) ht fs v hrest hrun

end Lib
