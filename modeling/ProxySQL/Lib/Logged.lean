/-
  ProxySQL.Lib.Logged

  Programs that note some of their calls in a log beside the state.

  A program and the one that keeps the log are the same up to the log
  (`Erases`), so what is proved of the log is about the calls of the program.
-/
import ProxySQL.Lib.Prog

namespace Lib

open List

variable {ε σ ℓ α β γ : Type}

/-- `m` as a program that leaves the log alone. -/
def logged (m : Prog ε σ α) : Prog ε (σ × List ℓ) α :=
  ExceptT.mk fun s => ((outcome m s.1).1, ((outcome m s.1).2, s.2))

/-- `a` is added to the log. -/
def note (a : ℓ) : Prog ε (σ × List ℓ) Unit := modify fun s => (s.1, s.2 ++ [a])

/-- Several calls are added to the log. -/
def notes (as : List ℓ) : Prog ε (σ × List ℓ) Unit := modify fun s => (s.1, s.2 ++ as)

/-- Without its log, `n` is `m`. -/
def Erases (n : Prog ε (σ × List ℓ) α) (m : Prog ε σ α) : Prop :=
  ∀ s, ((outcome n s).1, (outcome n s).2.1) = outcome m s.1

/-! ## Equations -/

@[simp] theorem outcome_logged (m : Prog ε σ α) (s : σ × List ℓ) :
    outcome (logged m) s = ((outcome m s.1).1, ((outcome m s.1).2, s.2)) := rfl

@[simp] theorem returns_logged (m : Prog ε σ α) (Q : α → σ × List ℓ → Prop) (s : σ) (log : List ℓ) :
    Returns (logged m) Q (s, log) ↔ Returns m (fun a t => Q a (t, log)) s := Iff.rfl

@[simp] theorem returns_note (a : ℓ) (Q : Unit → σ × List ℓ → Prop) (s : σ) (log : List ℓ) :
    Returns (note a : Prog ε (σ × List ℓ) Unit) Q (s, log) ↔ Q () (s, log ++ [a]) :=
  returns_modify (s, log) Q _

variable {m : Prog ε σ α} {s : σ} {log : List ℓ} {b : β} {u : σ × List ℓ} {n : Prog ε (σ × List ℓ) α}

theorem ends_logged {t : σ} {log' : List ℓ} {a : α} :
    Ends (logged m) (s, log) a (t, log') ↔ Ends m s a t ∧ log' = log := by
  unfold Ends
  rw [outcome_logged, Prod.ext_iff, Prod.ext_iff, Prod.ext_iff]
  constructor
  · rintro ⟨h, h', rfl⟩
    exact ⟨⟨h, h'⟩, rfl⟩
  · rintro ⟨⟨h, h'⟩, rfl⟩
    exact ⟨h, h', rfl⟩

theorem ends_logged_bind {f : α → Prog ε (σ × List ℓ) β} :
    Ends (logged m >>= f) (s, log) b u ↔ ∃ a t, Ends m s a t ∧ Ends (f a) (t, log) b u := by
  rw [ends_bind]
  constructor
  · rintro ⟨a, ⟨t, log'⟩, hlogged, hf⟩
    obtain ⟨hm, rfl⟩ := ends_logged.1 hlogged
    exact ⟨a, t, hm, hf⟩
  · rintro ⟨a, t, hm, hf⟩
    exact ⟨a, (t, log), ends_logged.2 ⟨hm, rfl⟩, hf⟩

theorem ends_logged_get_bind {f : σ → Prog ε (σ × List ℓ) β} :
    Ends (logged get >>= f) (s, log) b u ↔ Ends (f s) (s, log) b u := by
  unfold Ends
  rw [outcome_bind, outcome_logged, outcome_get]

/-! ## Erasure -/

theorem Erases.logged (m : Prog ε σ α) : Erases (logged m : Prog ε (σ × List ℓ) α) m := fun _ => rfl

theorem Erases.bind {g : α → Prog ε (σ × List ℓ) β} {f : α → Prog ε σ β} (h : Erases n m)
    (hf : ∀ a, Erases (g a) (f a)) : Erases (n >>= g) (m >>= f) := by
  intro s
  rw [outcome_bind, outcome_bind, ← h s]
  rcases outcome n s with ⟨r, t⟩
  cases r with
  | ok a => exact hf a t
  | error e => rfl

theorem Erases.note_bind (a : ℓ) (h : Erases n m) : Erases (note a >>= fun _ => n) m :=
  fun s => h (s.1, s.2 ++ [a])

theorem Erases.notes_bind (as : List ℓ) (h : Erases n m) :
    Erases (notes as >>= fun _ => n) m := fun s => h (s.1, s.2 ++ as)

theorem Erases.ite {c : Prop} [Decidable c] {n' : Prog ε (σ × List ℓ) α} {m' : Prog ε σ α} (h : Erases n m)
    (h' : Erases n' m') : Erases (if c then n else n') (if c then m else m') := by
  split
  · exact h
  · exact h'

theorem Erases.when {c : Prop} [Decidable c] {n : Prog ε (σ × List ℓ) Unit} {m : Prog ε σ Unit}
    (h : Erases n m) : Erases (when c n) (when c m) := h.ite fun _ => rfl

theorem Erases.forM {l : List γ} {g : γ → Prog ε (σ × List ℓ) PUnit} {f : γ → Prog ε σ PUnit}
    (h : ∀ x, Erases (g x) (f x)) : Erases (l.forM g) (l.forM f) := by
  induction l with
  | nil => exact fun _ => rfl
  | cons x l ih => exact (h x).bind fun _ => ih

theorem Erases.returns (h : Erases n m) {Q : α → σ → Prop} {s : σ × List ℓ} :
    Returns m Q s.1 ↔ Returns n (fun a t => Q a t.1) s := by
  unfold Returns wp
  rw [← h s]

/-! ## Invariants -/

section Keeps

variable {P : σ → Prop} {L : List ℓ → Prop}

theorem Keeps.logged {m : Prog ε σ α} (h : Keeps P m) : Keeps (fun s => P s.1 ∧ L s.2) (logged m) :=
  fun s hs => ⟨h s.1 hs.1, hs.2⟩

theorem Keeps.note {a : ℓ} (h : ∀ log, L log → L (log ++ [a])) :
    Keeps (fun s => P s.1 ∧ L s.2) (note a : Prog ε (σ × List ℓ) Unit) := fun s hs => ⟨hs.1, h s.2 hs.2⟩

end Keeps

theorem Returns.forM_log {P : σ → Prop} {l : List γ} {f : γ → Prog ε (σ × List ℓ) PUnit} {a : γ → List ℓ}
    (hf : ∀ x ∈ l, ∀ s, P s.1 → Returns (f x) (fun _ t => P t.1 ∧ t.2 = s.2 ++ a x) s) {s : σ × List ℓ}
    (h : P s.1) : Returns (l.forM f) (fun _ t => P t.1 ∧ t.2 = s.2 ++ l.flatMap a) s := by
  induction l generalizing s with
  | nil => exact (returns_pure _ _ _).2 ⟨h, (append_nil _).symm⟩
  | cons x l ih =>
    refine (hf x mem_cons_self s h).bind fun _ t ht => ?_
    refine (ih (fun y hy => hf y (mem_cons_of_mem _ hy)) ht.1).mono fun _ u hu => ⟨hu.1, ?_⟩
    rw [hu.2, ht.2, append_assoc, flatMap_cons]

end Lib
