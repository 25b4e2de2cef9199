/-
  ProxySQL.Lib.Prog

  Programs that change a state and may stop with an error, in which case the
  state they had reached survives.

  `wp m Q s` says that running `m` from `s` ends in an outcome and a state that
  satisfy `Q`.  There is one equation for each way of building a program, so a
  program's `wp` is computed from those of its parts; `wp_of` and `wp_bind_of`
  use what is already known of a part instead.
-/
import Mathlib.Logic.Basic

namespace Lib

open List

variable {ε σ α β γ : Type}

variable {x : Except ε α} {s : σ} {g : γ → β} {Q : α → σ → Prop}

/-- A sequence of two computations returns where both do. -/
theorem except_bind_eq_ok {f : α → Except ε β} {b : β} :
    (x >>= f) = .ok b ↔ ∃ a, x = .ok a ∧ f a = .ok b := by
  cases x with
  | error e => simp [bind, Except.bind]
  | ok a => simp [bind, Except.bind]

variable {a : α} {Q' : Except ε α → σ → Prop} {l : List γ} {t : σ}

theorem except_toOption_eq_some : x.toOption = some a ↔ x = .ok a := by
  cases x with
  | error e => simp [Except.toOption]
  | ok b => simp [Except.toOption]

theorem except_ok_bind (a : α) (f : α → Except ε β) : (Except.ok a >>= f) = f a := rfl

/-- A loop whose every round returns and keeps `I` returns and keeps `I`. -/
theorem foldlM_of_invariant {step : σ → γ → Except ε σ} {I : σ → Prop} {V : γ → Prop}
    (hstep : ∀ s x, I s → V x → ∃ t, step s x = .ok t ∧ I t) {xs : List γ} (hs : I s)
    (hxs : ∀ x ∈ xs, V x) : ∃ t, xs.foldlM step s = .ok t ∧ I t := by
  induction xs generalizing s with
  | nil => exact ⟨s, rfl, hs⟩
  | cons x xs ih =>
    obtain ⟨s1, hround, hs1⟩ := hstep s x hs (hxs x mem_cons_self)
    obtain ⟨t, hrest, ht⟩ := ih hs1 fun y hy => hxs y (mem_cons_of_mem _ hy)
    refine ⟨t, ?_, ht⟩
    rw [foldlM_cons, hround, except_ok_bind]
    exact hrest

/-- A program with errors `ε` over the state `σ`. -/
abbrev Prog (ε σ : Type) := ExceptT ε (StateM σ)

/-- The outcome of a program, and the state it ends in. -/
def outcome (m : Prog ε σ α) (s : σ) : Except ε α × σ := m s

/-- `m`, if the condition holds. -/
def when (c : Prop) [Decidable c] (m : Prog ε σ Unit) : Prog ε σ Unit := if c then m else pure ()

/-- `m`, run from `s`, ends as `Q` demands. -/
def wp (m : Prog ε σ α) (Q : Except ε α → σ → Prop) (s : σ) : Prop :=
  Q (outcome m s).1 (outcome m s).2

/-- `m`, run from `s`, returns `a` in state `t`. -/
def Ends (m : Prog ε σ α) (s : σ) (a : α) (t : σ) : Prop := outcome m s = (.ok a, t)

/-! ## Equations -/

section Outcome

variable (s : σ)

@[simp] theorem outcome_pure (a : α) : outcome (pure a : Prog ε σ α) s = (.ok a, s) := rfl

@[simp] theorem outcome_throw (e : ε) : outcome (throw e : Prog ε σ α) s = (.error e, s) := rfl

@[simp] theorem outcome_get : outcome (get : Prog ε σ σ) s = (.ok s, s) := rfl

@[simp] theorem outcome_modify (f : σ → σ) :
    outcome (modify f : Prog ε σ PUnit) s = (.ok ⟨⟩, f s) := rfl

@[simp] theorem outcome_lift (x : Except ε α) :
    outcome (liftM x : Prog ε σ α) s = (x, s) := rfl

theorem outcome_bind (m : Prog ε σ α) (f : α → Prog ε σ β) :
    outcome (m >>= f) s =
      match outcome m s with
      | (.ok a, t) => outcome (f a) t
      | (.error e, t) => (.error e, t) := by
  unfold outcome
  simp only [bind, ExceptT.bind, ExceptT.mk, StateT.bind, ExceptT.bindCont]
  rcases h : m s with ⟨r, t⟩
  cases r <;> rfl

end Outcome

section Wp

variable (Q : Except ε α → σ → Prop) (s : σ)

@[simp] theorem wp_pure (a : α) : wp (pure a) Q s ↔ Q (.ok a) s := Iff.rfl

@[simp] theorem wp_throw (e : ε) : wp (throw e) Q s ↔ Q (.error e) s := Iff.rfl

@[simp] theorem wp_get (Q : Except ε σ → σ → Prop) : wp get Q s ↔ Q (.ok s) s := Iff.rfl

@[simp] theorem wp_modify (Q : Except ε PUnit → σ → Prop) (f : σ → σ) :
    wp (modify f) Q s ↔ Q (.ok ⟨⟩) (f s) := Iff.rfl

@[simp] theorem wp_lift (x : Except ε α) : wp (liftM x) Q s ↔ Q x s := Iff.rfl

@[simp] theorem wp_ite (c : Prop) [Decidable c] (m n : Prog ε σ α) :
    wp (if c then m else n) Q s ↔ if c then wp m Q s else wp n Q s := by
  split <;> rfl

@[simp] theorem wp_when (c : Prop) [Decidable c] (m : Prog ε σ Unit) (Q : Except ε Unit → σ → Prop) :
    wp (when c m) Q s ↔ if c then wp m Q s else Q (.ok ()) s := by
  unfold when
  split <;> rfl

@[simp] theorem wp_bind (m : Prog ε σ α) (f : α → Prog ε σ β) (Q : Except ε β → σ → Prop) :
    wp (m >>= f) Q s ↔
      wp m (fun r t => match r with
        | .ok a => wp (f a) Q t
        | .error e => Q (.error e) t) s := by
  unfold wp
  rw [outcome_bind]
  rcases outcome m s with ⟨r, t⟩
  cases r <;> rfl

theorem wp_get_bind (f : σ → Prog ε σ α) : wp (get >>= f) Q s ↔ wp (f s) Q s := by
  rw [wp_bind, wp_get]

end Wp

/-! ## Rules -/

variable {m : Prog ε σ α}

theorem wp_of {Q : Except ε α → σ → Prop} (h : wp m Q' s) (himp : ∀ r t, Q' r t → Q r t) :
    wp m Q s := himp _ _ h

theorem wp_true : wp m (fun _ _ => True) s := trivial

variable {f : α → Prog ε σ β}

/-- What is known of the first part carries over to the second. -/
theorem wp_bind_of {Q : Except ε β → σ → Prop} (h : wp m Q' s) (hok : ∀ a t, Q' (.ok a) t → wp (f a) Q t)
    (herr : ∀ e t, Q' (.error e) t → Q (.error e) t) : wp (m >>= f) Q s := by
  rw [wp_bind]
  refine wp_of h fun r t hr => ?_
  cases r with
  | ok a => exact hok a t hr
  | error e => exact herr e t hr

/-- The case of a first part that only reads. -/
theorem wp_bind_reads {Q : Except ε β → σ → Prop} (h : wp m (fun _ t => t = s) s) (hok : ∀ a, wp (f a) Q s)
    (herr : ∀ e, Q (.error e) s) : wp (m >>= f) Q s := by
  refine wp_bind_of h ?_ ?_
  · rintro a t rfl
    exact hok a
  · rintro e t rfl
    exact herr e

/-- A loop of parts that only read returns what each of them reads. -/
theorem wp_mapM_reads {f : γ → Prog ε σ β} {D : γ → Prop}
    (hf : ∀ x ∈ l, wp (f x) (fun r t => t = s ∧ ∀ b, r = .ok b → b = g x ∧ D x) s) :
    wp (l.mapM f) (fun r t => t = s ∧ ∀ bs, r = .ok bs → bs = l.map g ∧ ∀ x ∈ l, D x) s := by
  induction l with
  | nil =>
    refine ⟨rfl, fun bs hbs => ⟨(Except.ok.inj hbs).symm, nofun⟩⟩
  | cons x l ih =>
    rw [mapM_cons]
    refine wp_bind_of (hf x mem_cons_self) ?_ ?_
    · rintro b t ⟨rfl, hb⟩
      obtain ⟨rfl, hx⟩ := hb b rfl
      refine wp_bind_of (ih fun y hy => hf y (mem_cons_of_mem _ hy)) ?_ ?_
      · rintro bs t ⟨rfl, hbs⟩
        obtain ⟨rfl, hl⟩ := hbs bs rfl
        refine ⟨rfl, fun cs hcs => ⟨(Except.ok.inj hcs).symm, forall_mem_cons.2 ⟨hx, hl⟩⟩⟩
      · rintro e t ⟨rfl, -⟩
        exact ⟨rfl, nofun⟩
    · rintro e t ⟨rfl, -⟩
      exact ⟨rfl, nofun⟩

theorem Ends.of_wp {Q : Except ε α → σ → Prop} (h : Ends m s a t) (hw : wp m Q s) : Q (.ok a) t := by
  rw [wp, h] at hw
  exact hw

theorem ends_bind {u : σ} {b : β} : Ends (m >>= f) s b u ↔ ∃ a t, Ends m s a t ∧ Ends (f a) t b u := by
  unfold Ends
  rw [outcome_bind]
  rcases outcome m s with ⟨r, t⟩
  cases r with
  | ok a =>
    constructor
    · intro h
      exact ⟨a, t, rfl, h⟩
    · rintro ⟨a', t', h, h'⟩
      obtain ⟨rfl, rfl⟩ : a = a' ∧ t = t' := by simpa using h
      exact h'
  | error e => simp

@[simp] theorem ends_pure {b : α} : Ends (pure a : Prog ε σ α) s b t ↔ a = b ∧ s = t := by
  simp [Ends]

@[simp] theorem not_ends_throw {e : ε} : ¬ Ends (throw e : Prog ε σ α) s a t := by
  simp [Ends]

theorem ends_get_bind {f : σ → Prog ε σ α} : Ends (get >>= f) s a t ↔ Ends (f s) s a t := by
  unfold Ends
  rw [outcome_bind, outcome_get]

/-! ## Programs that return -/

/-- `m`, run from `s`, returns a value, and `Q` holds then. -/
def Returns (m : Prog ε σ α) (Q : α → σ → Prop) (s : σ) : Prop :=
  wp m (fun r t => ∃ a, r = .ok a ∧ Q a t) s

section Returns

variable (Q : α → σ → Prop) (s : σ)

@[simp] theorem returns_pure (a : α) : Returns (pure a : Prog ε σ α) Q s ↔ Q a s := by
  simp [Returns]

@[simp] theorem returns_throw (e : ε) : ¬ Returns (throw e : Prog ε σ α) Q s := by
  simp [Returns]

@[simp] theorem returns_get (Q : σ → σ → Prop) : Returns (get : Prog ε σ σ) Q s ↔ Q s s := by
  simp [Returns]

@[simp] theorem returns_modify (Q : PUnit → σ → Prop) (f : σ → σ) :
    Returns (modify f : Prog ε σ PUnit) Q s ↔ Q ⟨⟩ (f s) :=
  ⟨fun ⟨_, _, h⟩ => h, fun h => ⟨_, rfl, h⟩⟩

@[simp] theorem returns_lift_ok (a : α) :
    Returns (liftM (Except.ok a : Except ε α) : Prog ε σ α) Q s ↔ Q a s := by
  simp [Returns]

@[simp] theorem returns_bind (m : Prog ε σ α) (f : α → Prog ε σ β) (Q : β → σ → Prop) :
    Returns (m >>= f) Q s ↔ Returns m (fun a t => Returns (f a) Q t) s := by
  unfold Returns wp
  rw [outcome_bind]
  rcases outcome m s with ⟨r, t⟩
  cases r <;> simp

@[simp] theorem returns_ite (c : Prop) [Decidable c] (m n : Prog ε σ α) :
    Returns (if c then m else n) Q s ↔ if c then Returns m Q s else Returns n Q s := by
  split <;> rfl

@[simp] theorem returns_when (c : Prop) [Decidable c] (m : Prog ε σ Unit) (Q : Unit → σ → Prop) :
    Returns (when c m) Q s ↔ if c then Returns m Q s else Q () s := by
  unfold when
  split
  · rfl
  · exact returns_pure Q s ()

end Returns

theorem Returns.mono {Q' : α → σ → Prop} (h : Returns m Q' s) (himp : ∀ a t, Q' a t → Q a t) :
    Returns m Q s := by
  obtain ⟨a, ha, hq⟩ := h
  exact ⟨a, ha, himp a _ hq⟩

theorem Returns.bind {Q' : α → σ → Prop} {Q : β → σ → Prop} (h : Returns m Q' s)
    (hf : ∀ a t, Q' a t → Returns (f a) Q t) : Returns (m >>= f) Q s := by
  rw [returns_bind]
  exact h.mono hf

/-- What holds of all ends of a program holds of the one it returns at. -/
theorem Returns.and_wp (h : Returns m Q s) (hw : wp m Q' s) :
    Returns m (fun a t => Q a t ∧ Q' (.ok a) t) s := by
  obtain ⟨a, ha, hq⟩ := h
  refine ⟨a, ha, hq, ?_⟩
  rw [← ha]
  exact hw

theorem Returns.exists_ends (h : Returns m Q s) : ∃ a t, Ends m s a t ∧ Q a t := by
  obtain ⟨a, ha, hq⟩ := h
  exact ⟨a, (outcome m s).2, Prod.ext ha rfl, hq⟩

theorem Returns.of_ends (h : Returns m Q s) (hm : Ends m s a t) : Q a t := by
  obtain ⟨b, hb, hq⟩ := hm.of_wp h
  cases hb
  exact hq

theorem Ends.returns (hm : Ends m s a t) (h : Q a t) : Returns m Q s := by
  unfold Returns wp
  rw [hm]
  exact ⟨a, rfl, h⟩

theorem Returns.iff_of_ends (hm : Ends m s a t) :
    Returns m Q s ↔ Q a t := ⟨fun h => h.of_ends hm, hm.returns⟩

variable {n : Prog ε σ α}

theorem returns_congr (h : outcome m s = outcome n t) (Q : α → σ → Prop) :
    Returns m Q s ↔ Returns n Q t := by
  unfold Returns wp
  rw [h]

theorem Returns.forM {P : σ → Prop} {f : γ → Prog ε σ PUnit}
    (hf : ∀ x ∈ l, ∀ s, P s → Returns (f x) (fun _ t => P t) s) (h : P s) :
    Returns (l.forM f) (fun _ t => P t) s := by
  induction l generalizing s with
  | nil => exact (returns_pure _ _ _).2 h
  | cons x l ih =>
    exact (hf x mem_cons_self s h).bind fun _ t ht =>
      ih (fun y hy => hf y (mem_cons_of_mem _ hy)) ht

theorem Returns.mapM_reads {f : γ → Prog ε σ β}
    (hf : ∀ x ∈ l, Returns (f x) (fun b t => t = s ∧ b = g x) s) :
    Returns (l.mapM f) (fun bs t => t = s ∧ bs = l.map g) s := by
  induction l with
  | nil =>
    exact (returns_pure _ _ _).2 ⟨rfl, rfl⟩
  | cons x l ih =>
    rw [mapM_cons]
    refine (hf x mem_cons_self).bind fun b t hb => ?_
    obtain ⟨rfl, rfl⟩ := hb
    refine (ih fun y hy => hf y (mem_cons_of_mem _ hy)).bind fun bs u hbs => ?_
    obtain ⟨rfl, rfl⟩ := hbs
    exact (returns_pure _ _ _).2 ⟨rfl, rfl⟩

/-! ## Programs that do not return -/

/-- `m`, run from `s`, ends with an error. -/
def Stops (m : Prog ε σ α) (s : σ) : Prop := wp m (fun r _ => ∀ a, r ≠ .ok a) s

theorem Stops.not_returns (h : Stops m s) : ¬ Returns m Q s := by
  rintro ⟨a, ha, -⟩
  exact h a ha

theorem Stops.of_not_returns (h : ¬ Returns m (fun _ _ => True) s) : Stops m s :=
  fun a ha => h ⟨a, ha, trivial⟩

/-- The second of two programs stops wherever the first one returns. -/
theorem Stops.bind (h : wp m (fun r t => ∀ a, r = .ok a → Stops (f a) t) s) : Stops (m >>= f) s :=
  wp_bind_of h (fun a _ hstops => hstops a rfl) fun _ _ _ _ heq => nomatch heq

/-! ## Invariants -/

/-- A property of the state that a program keeps, however it ends. -/
def Keeps (P : σ → Prop) (m : Prog ε σ α) : Prop := ∀ s, P s → wp m (fun _ t => P t) s

section Keeps

variable {P : σ → Prop}

theorem Keeps.pure (a : α) : Keeps P (pure a : Prog ε σ α) := fun _ h => h

theorem Keeps.throw (e : ε) : Keeps P (throw e : Prog ε σ α) := fun _ h => h

theorem Keeps.lift (x : Except ε α) : Keeps P (liftM x : Prog ε σ α) := fun _ h => h

theorem Keeps.get : Keeps P (get : Prog ε σ σ) := fun _ h => h

theorem Keeps.modify {f : σ → σ} (h : ∀ s, P s → P (f s)) : Keeps P (modify f : Prog ε σ PUnit) := h

theorem Keeps.bind {m : Prog ε σ α} {f : α → Prog ε σ β} (hm : Keeps P m) (hf : ∀ a, Keeps P (f a)) :
    Keeps P (m >>= f) :=
  fun s h => wp_bind_of (hm s h) (fun a t ht => hf a t ht) (fun _ _ ht => ht)

theorem Keeps.ite {c : Prop} [Decidable c] {m : Prog ε σ α} (hm : Keeps P m) (hn : Keeps P n) :
    Keeps P (if c then m else n) := by
  split
  · exact hm
  · exact hn

theorem Keeps.when {c : Prop} [Decidable c] {m : Prog ε σ Unit} (hm : c → Keeps P m) :
    Keeps P (when c m) := by
  unfold Lib.when
  split
  case isTrue hc => exact hm hc
  case isFalse => exact Keeps.pure ()

theorem Keeps.forM {l : List γ} {f : γ → Prog ε σ PUnit} (hf : ∀ x ∈ l, Keeps P (f x)) :
    Keeps P (l.forM f) := by
  induction l with
  | nil => exact Keeps.pure _
  | cons x l ih =>
    exact (hf x mem_cons_self).bind fun _ =>
      ih fun y hy => hf y (mem_cons_of_mem _ hy)

theorem Keeps.mapM {l : List γ} {f : γ → Prog ε σ β} (hf : ∀ x ∈ l, Keeps P (f x)) :
    Keeps P (l.mapM f) := by
  induction l with
  | nil =>
    exact Keeps.pure _
  | cons x l ih =>
    rw [mapM_cons]
    refine (hf x mem_cons_self).bind fun _ => Keeps.bind ?_ fun _ => Keeps.pure _
    exact ih fun y hy => hf y (mem_cons_of_mem _ hy)

theorem Keeps.ends {m : Prog ε σ α} (h : Keeps P m) {t : σ} {a : α} (hm : Ends m s a t)
    (hs : P s) : P t := hm.of_wp (h s hs)

end Keeps

end Lib
