/-
  ProxySQL.Lib.Decoder

  Decoders of byte strings.  A decoder takes a value off the front of its input
  and leaves the rest, or fails.

  `Reads d bs a` says that `d` takes just `bs` off every input that starts with
  it, and returns `a`.  There is one rule for each way of building a decoder, so
  that a message is decoded field by field, and the bytes of the message are
  those of its fields one behind the other.
-/
import ProxySQL.Lib.Block

namespace Lib

open List Option

variable {α β : Type}

/-- A decoder of values of type `α`. -/
abbrev Decoder := StateT (List Byte) Option

/-- The value at the front of the input, and what is left of it. -/
def Decoder.step (d : Decoder α) (bs : List Byte) : Option (α × List Byte) := d bs

/-- The value that the whole input stands for. -/
def Decoder.decode (d : Decoder α) (bs : List Byte) : Option α :=
  (d.step bs).bind fun r => if r.2 = [] then some r.1 else none

/-- The next `n` bytes. -/
def Decoder.bytes (n : Nat) : Decoder (List Byte) := fun bs =>
  if n ≤ bs.length then some (bs.take n, bs.drop n) else none

/-- A little-endian number of `n` bytes. -/
def Decoder.le (n : Nat) : Decoder Nat := leNat <$> bytes n

/-- The bytes `t`, and no others. -/
def Decoder.tag (t : List Byte) : Decoder Unit := fun bs =>
  if t.isPrefixOf bs then some ((), bs.drop t.length) else none

/-- A string up to its NUL. -/
def Decoder.cString : Decoder (List Byte) := fun bs =>
  if 0 ∈ bs then some (bs.takeWhile (· ≠ 0), (bs.dropWhile (· ≠ 0)).tail) else none

/-- Everything that is left. -/
def Decoder.rest : Decoder (List Byte) := fun bs => some (bs, [])

/-- `n` values one behind the other. -/
def Decoder.times (d : Decoder α) : Nat → Decoder (List α)
  | 0 => pure []
  | n + 1 => do
      let a ← d
      let as ← d.times n
      pure (a :: as)

/-- `d` takes `bs` off the front of its input, whatever follows, and returns `a`. -/
def Reads (d : Decoder α) (bs : List Byte) (a : α) : Prop :=
  ∀ rest, d.step (bs ++ rest) = some (a, rest)

/-! ## Steps -/

theorem Decoder.step_bind (d : Decoder α) (f : α → Decoder β) (bs : List Byte) :
    Decoder.step (d >>= f) bs = (d.step bs).bind fun r => (f r.1).step r.2 := rfl

theorem Decoder.step_times_succ (d : Decoder α) (n : Nat) (bs : List Byte) :
    (d.times (n + 1)).step bs
      = (d.step bs).bind fun r => ((d.times n).step r.2).bind fun q => some (r.1 :: q.1, q.2) := rfl

variable {d : Decoder α} {bs : List Byte} {a : α}

theorem Decoder.step_of_decode (h : d.decode bs = some a) : d.step bs = some (a, []) := by
  obtain ⟨⟨b, rest⟩, hstep, hb⟩ := bind_eq_some_iff.1 h
  by_cases hrest : rest = []
  · rw [if_pos hrest] at hb
    obtain rfl : b = a := some.inj hb
    rw [hstep, hrest]
  · rw [if_neg hrest] at hb
    cases hb

/-! ## Rules -/

theorem Reads.pure (a : α) : Reads (Pure.pure a) [] a := by
  intro rest
  rfl

theorem Reads.bind {f : α → Decoder β} {cs : List Byte} {b : β} (hd : Reads d bs a)
    (hf : Reads (f a) cs b) : Reads (d >>= f) (bs ++ cs) b := by
  intro rest
  rw [Decoder.step_bind, append_assoc, hd (cs ++ rest)]
  exact hf rest

/-- The last field of a message: what is made of its fields takes no more bytes. -/
theorem Reads.done {f : α → β} (hd : Reads d bs a) : Reads (d >>= fun a => Pure.pure (f a)) bs (f a) := by
  have h := Reads.bind (f := fun a => Pure.pure (f a)) hd (Reads.pure (f a))
  rwa [append_nil] at h

theorem Reads.map (f : α → β) (hd : Reads d bs a) : Reads (f <$> d) bs (f a) := by
  intro rest
  have hmap : Decoder.step (f <$> d) (bs ++ rest) = (d.step (bs ++ rest)).bind fun r => some (f r.1, r.2) :=
    rfl
  rw [hmap, hd rest, bind_some]

theorem reads_bytes {n : Nat} (h : bs.length = n) : Reads (Decoder.bytes n) bs bs := by
  intro rest
  subst h
  show (if bs.length ≤ (bs ++ rest).length then _ else none) = _
  rw [if_pos (by rw [length_append]; omega), take_left, drop_left]

theorem reads_le {n v : Nat} (h : v < 256 ^ n) : Reads (Decoder.le n) (leBytes n v) v := by
  have hread := (reads_bytes (length_leBytes n v)).map leNat
  rwa [leNat_leBytes_of_lt h] at hread

theorem reads_tag (t : List Byte) : Reads (Decoder.tag t) t () := by
  intro rest
  show (if t.isPrefixOf (t ++ rest) then _ else none) = _
  rw [if_pos ( isPrefixOf_iff_prefix.2 (prefix_append t rest)), drop_left]

theorem reads_cString {s : List Byte} (h : 0 ∉ s) : Reads Decoder.cString (s ++ [0]) s := by
  intro rest
  have hne : ∀ b ∈ s, decide (b ≠ 0) = true := by
    intro b hb
    exact decide_eq_true fun h0 => h (h0 ▸ hb)
  show (if (0 : Byte) ∈ s ++ [0] ++ rest then _ else none) = _
  rw [if_pos (by simp), append_assoc, takeWhile_append_of_pos hne,
    dropWhile_append_of_pos hne]
  simp

theorem reads_times {enc : α → List Byte} (as : List α) (h : ∀ a ∈ as, Reads d (enc a) a) :
    Reads (d.times as.length) (as.flatMap enc) as := by
  induction as with
  | nil => exact Reads.pure []
  | cons a as ih =>
    exact (h a mem_cons_self).bind (ih fun b hb => h b (mem_cons_of_mem a hb)).done

/-- The first field of a message, and what is made of the others. -/
theorem Reads.decode_bind {f : α → Decoder β} {cs : List Byte} {b : β} (hd : Reads d bs a)
    (hf : (f a).decode cs = some b) : Decoder.decode (d >>= f) (bs ++ cs) = some b := by
  rw [Decoder.decode, Decoder.step_bind, hd cs]
  exact hf

theorem Reads.decode (h : Reads d bs a) : d.decode bs = some a := by
  have hstep := h []
  rw [append_nil] at hstep
  rw [Decoder.decode, hstep]
  rfl

end Lib
