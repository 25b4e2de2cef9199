/-
  ProxySQL.Lib.Access

  Computations that read memory, with the windows they read.

  `Access.value` is what a computation returns and `Access.reads` what it has
  looked at on the way, so a bound on its reads is a statement about the same
  computation as its result.  `Inside n` says that all of them lie below
  position `n`; there is one equation for each way of building an access.
-/
import ProxySQL.Lib.Block

namespace Lib

open List

variable {α β : Type}

/-- `count` positions of memory, from `off` on. -/
structure Window where
  off : Nat
  count : Nat
deriving DecidableEq

/-- The window lies below position `n`. -/
def Window.Inside (w : Window) (n : Nat) : Prop := w.count = 0 ∨ w.off + w.count ≤ n

instance (w : Window) (n : Nat) : Decidable (w.Inside n) := inferInstanceAs (Decidable (_ ∨ _))

/-- A value that was computed from memory, and the windows that were read for it. -/
structure Access (α : Type) where
  value : α
  reads : List Window

namespace Access

instance : Monad Access where
  pure a := ⟨a, []⟩
  bind c f := ⟨(f c.value).value, c.reads ++ (f c.value).reads⟩

/-- One byte. -/
def byte (m : Nat → Byte) (i : Nat) : Access Byte := ⟨m i, [⟨i, 1⟩]⟩

/-- A copy of, or a comparison with, `n` bytes. -/
def block (m : Nat → Byte) (off n : Nat) : Access (List Byte) :=
  ⟨(range n).map fun i => m (off + i), [⟨off, n⟩]⟩

/-- A string up to its NUL, which is read too; at most `n` bytes are looked at. -/
def cString (m : Nat → Byte) (off n : Nat) : Access (List Byte) :=
  let s := ((range n).map fun i => m (off + i)).takeWhile (· ≠ 0)
  ⟨s, [⟨off, s.length + 1⟩]⟩

/-- All reads lie below position `n`. -/
def Inside (c : Access α) (n : Nat) : Prop := ∀ w ∈ c.reads, w.Inside n

instance (c : Access α) (n : Nat) : Decidable (c.Inside n) :=
  inferInstanceAs (Decidable (∀ w ∈ c.reads, w.Inside n))

/-! ## Values -/

@[simp] theorem value_bind (c : Access α) (f : α → Access β) : (c >>= f).value = (f c.value).value := rfl

/-! ## Bounds -/

variable {n : Nat}

theorem inside_pure (a : α) : (pure a : Access α).Inside n := nofun

theorem inside_bind {c : Access α} {f : α → Access β} : (c >>= f).Inside n ↔ c.Inside n ∧
    (f c.value).Inside n :=
  forall_mem_append

theorem inside_byte {m : Nat → Byte} {i : Nat} : (byte m i).Inside n ↔ i < n := by
  rw [Inside, byte, forall_mem_singleton, Window.Inside]
  dsimp only
  omega

theorem inside_block {m : Nat → Byte} {off k : Nat} : (block m off k).Inside n ↔ k = 0 ∨ off + k ≤ n := by
  rw [Inside, block, forall_mem_singleton, Window.Inside]

/-- There is a NUL at one of the positions `[off, n)`. -/
def Terminated (m : Nat → Byte) (off n : Nat) : Prop := ∃ i, off ≤ i ∧ i < n ∧ m i = 0

/-- A string ends inside just if its NUL does. -/
theorem inside_cString {m : Nat → Byte} {off k : Nat} (hk : n ≤ off + k) :
    (cString m off k).Inside n ↔ Terminated m off n := by
  rw [Inside, cString, forall_mem_singleton, Window.Inside, takeWhile_eq_take_findIdx_not, length_take,
    length_map, length_range]
  dsimp only
  -- the first NUL that is found, or `k`
  generalize hxs : (range k).map (fun i => m (off + i)) = xs
  have hlen : xs.length = k := by rw [← hxs, length_map, length_range]
  have hget : ∀ i (hi : i < xs.length), xs[i] = m (off + i) := by
    intro i hi
    subst hxs
    rw [getElem_map, getElem_range]
  generalize hj : xs.findIdx (fun b => !decide (b ≠ 0)) = j
  constructor
  · intro h
    have hlt : j < xs.length := by omega
    refine ⟨off + j, by omega, by omega, ?_⟩
    rw [← hget j hlt]
    subst hj
    simpa using findIdx_getElem (w := hlt)
  · rintro ⟨i, hoff, hi, hzero⟩
    have hle : j ≤ i - off := by
      by_contra hlt
      have hbefore : i - off < xs.findIdx (fun b => !decide (b ≠ 0)) := by
        omega
      have hne := not_of_lt_findIdx hbefore
      rw [hget _ (by omega), Nat.add_sub_cancel' hoff, hzero] at hne
      exact absurd hne (by decide)
    omega

end Access

end Lib
