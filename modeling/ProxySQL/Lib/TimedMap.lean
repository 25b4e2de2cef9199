/-
  ProxySQL.Lib.TimedMap

  A map whose values expire, and what it takes to implement it by something that
  may forget a value from the moment on at which it has expired.
-/
import Mathlib.Logic.Basic

namespace Lib

/-- A map from keys to values and the times at which they expire, and the current time. -/
structure TimedMap (κ ν : Type) where
  entry : κ → Option (ν × Int)
  now : Int

namespace TimedMap

variable {κ ν : Type}

def empty (now : Int) : TimedMap κ ν := { entry := fun _ => none, now := now }

/-- The value, unless it has expired. -/
def alive (now : Int) (v : ν × Int) : Option ν := if now < v.2 then some v.1 else none

def get (m : TimedMap κ ν) (k : κ) : Option ν := (m.entry k).bind (alive m.now)

def set [DecidableEq κ] (m : TimedMap κ ν) (k : κ) (v : ν) (expire : Int) : TimedMap κ ν :=
  { m with entry := fun k' => if k' = k then some (v, expire) else m.entry k' }

def clear (m : TimedMap κ ν) : TimedMap κ ν := { m with entry := fun _ => none }

def advance (m : TimedMap κ ν) (now : Int) : TimedMap κ ν := { m with now := now }

/-- `view` may have lost some of what the map has, at some time after it has expired. -/
def ImplementedBy (m : TimedMap κ ν) (view : κ → Option (ν × Int)) : Prop :=
  ∀ k, view k = m.entry k ∨ (view k = none ∧ ∃ v expire, m.entry k = some (v, expire) ∧ expire ≤ m.now)

variable {m : TimedMap κ ν} {view view' : κ → Option (ν × Int)}

theorem ImplementedBy.get_eq (h : m.ImplementedBy view) (k : κ) :
    (view k).bind (alive m.now) = m.get k := by
  rcases h k with heq | ⟨hnone, v, expire, hentry, hle⟩
  · rw [heq]
    rfl
  · rw [hnone, get, hentry, Option.bind_none, Option.bind_some, alive, if_neg (Int.not_lt.2 hle)]

theorem ImplementedBy.set [DecidableEq κ] (h : m.ImplementedBy view) {k : κ} {v : ν} {expire : Int}
    (hview : ∀ k', view' k' = if k' = k then some (v, expire) else view k') :
    (m.set k v expire).ImplementedBy view' := by
  intro k'
  rw [hview k']
  by_cases hk : k' = k
  · exact .inl (by rw [if_pos hk, TimedMap.set]; exact (if_pos hk).symm)
  · have hentry : (m.set k v expire).entry k' = m.entry k' := if_neg hk
    rw [if_neg hk, hentry]
    exact h k'

theorem ImplementedBy.clear (hview : ∀ k, view k = none) : m.clear.ImplementedBy view :=
  fun k => .inl (hview k)

theorem ImplementedBy.advance (h : m.ImplementedBy view) {now : Int} (hnow : m.now ≤ now) :
    (m.advance now).ImplementedBy view := by
  intro k
  rcases h k with heq | ⟨hnone, v, expire, hentry, hle⟩
  · exact .inl heq
  · exact .inr ⟨hnone, v, expire, hentry, Int.le_trans hle hnow⟩

/-- What has expired may be forgotten. -/
theorem ImplementedBy.forget (h : m.ImplementedBy view)
    (hview : ∀ k, view' k = view k ∨ (view' k = none ∧ ∃ v expire, view k = some (v, expire) ∧
      expire ≤ m.now)) :
    m.ImplementedBy view' := by
  intro k
  rcases hview k with heq | ⟨hnone, v, expire, hv, hle⟩
  · rw [heq]
    exact h k
  · rcases h k with heq | ⟨hnone', -⟩
    · exact .inr ⟨hnone, v, expire, heq ▸ hv, hle⟩
    · rw [hnone'] at hv
      cases hv

end TimedMap

end Lib
