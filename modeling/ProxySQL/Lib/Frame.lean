/-
  ProxySQL.Lib.Frame

  Streams cut into frames by a fixed-size header that announces the length of
  the whole frame.  `Framing.split` is the reference reading of a stream: the
  complete frames at its front and the rest, which is the beginning of a frame
  that is still to come.

  An incremental reader is right when what it delivered are frames and what it
  holds back is incomplete: `split_flatten_append` says that this is then the
  reference reading of everything it was given.
-/
import Mathlib.Data.List.Basic

namespace Lib

open List

variable {α : Type _}

/-- How a stream is cut: the size of a header, and the length of the frame it
    announces, header included. -/
structure Framing (α : Type _) where
  hdr : Nat
  total : List α → Nat
  hdr_pos : 0 < hdr
  hdr_le_total : ∀ h, hdr ≤ total h

namespace Framing

variable (F : Framing α)

/-- `p` is one whole frame. -/
def IsFrame (p : List α) : Prop :=
  F.hdr ≤ p.length ∧ p.length = F.total (p.take F.hdr)

/-- `s` does not hold a whole frame yet. -/
def Incomplete (s : List α) : Prop :=
  s.length < F.hdr ∨ s.length < F.total (s.take F.hdr)

/-- Cut at most `n` frames off the front of `s`. -/
def splitFuel : Nat → List α → List (List α) × List α
  | 0, s => ([], s)
  | n + 1, s =>
      if F.hdr ≤ s.length ∧ F.total (s.take F.hdr) ≤ s.length then
        let rest := splitFuel n (s.drop (F.total (s.take F.hdr)))
        (s.take (F.total (s.take F.hdr)) :: rest.1, rest.2)
      else ([], s)

/-- The complete frames at the front of `s`, and the rest. -/
def split (s : List α) : List (List α) × List α := splitFuel F s.length s

variable {F}

theorem IsFrame.length_pos {p : List α} (h : F.IsFrame p) : 0 < p.length :=
  Nat.lt_of_lt_of_le F.hdr_pos h.1

theorem splitFuel_of_incomplete {s : List α} (h : F.Incomplete s) (n : Nat) :
    F.splitFuel n s = ([], s) := by
  cases n with
  | zero => rfl
  | succ n =>
    rw [splitFuel, if_neg]
    rintro ⟨h1, h2⟩
    rcases h with h | h <;> omega

theorem splitFuel_frame_append {p : List α} (hp : F.IsFrame p) (s : List α) (n : Nat) :
    F.splitFuel (n + 1) (p ++ s) = (p :: (F.splitFuel n s).1, (F.splitFuel n s).2) := by
  obtain ⟨hhdr, hlen⟩ := hp
  have htake : (p ++ s).take F.hdr = p.take F.hdr := take_append_of_le_length hhdr
  rw [splitFuel, htake, ← hlen, if_pos]
  · simp
  · rw [length_append]
    omega

/-- Frames followed by an incomplete rest read back as just that. -/
theorem split_flatten_append {ps : List (List α)} {rest : List α}
    (hps : ∀ p ∈ ps, F.IsFrame p) (hrest : F.Incomplete rest) :
    F.split (ps.flatten ++ rest) = (ps, rest) := by
  -- any fuel that covers the number of frames will do
  have key : ∀ (ps : List (List α)) (n : Nat), (∀ p ∈ ps, F.IsFrame p) → ps.length ≤ n →
      F.splitFuel n (ps.flatten ++ rest) = (ps, rest) := by
    intro ps
    induction ps with
    | nil =>
      intro n _ _
      simpa using splitFuel_of_incomplete hrest n
    | cons p ps ih =>
      intro n hps hn
      obtain ⟨m, rfl⟩ : ∃ m, n = m + 1 := ⟨n - 1, by simp at hn; omega⟩
      have hrec := ih m (fun q hq => hps q (mem_cons_of_mem _ hq)) (by simpa using hn)
      rw [flatten_cons, append_assoc,
        splitFuel_frame_append (hps p mem_cons_self), hrec]
  apply key ps _ hps
  have hcount : ps.length ≤ ps.flatten.length := by
    induction ps with
    | nil => simp
    | cons p ps ih =>
      have hp := (hps p mem_cons_self).length_pos
      have := ih (fun q hq => hps q (mem_cons_of_mem _ hq))
      rw [length_cons, flatten_cons, length_append]
      omega
  rw [length_append]
  omega

end Framing

end Lib
