/-
  ProxySQL.Lib.Block

  Lists as memory blocks.  `slice` is the window `[a, b)` of a block,
  `overwrite` the block after a `memcpy` into it, and `moveFwd` the block
  after a byte-by-byte copy of a window towards its own front.

  The second half is the little-endian reading of bytes: `leBytes n v` are
  the `n` low bytes of `v`, and `leNat` reads them back.
-/
import Mathlib.Data.List.Basic
import Mathlib.Tactic.Ring

namespace Lib

open List

variable {α : Type _}

/-! ## Windows -/

/-- The elements of `xs` at the positions `[a, b)`. -/
def slice (xs : List α) (a b : Nat) : List α := (xs.drop a).take (b - a)

/-- `xs` with `ys` written from position `off` on. -/
def overwrite (xs : List α) (off : Nat) (ys : List α) : List α :=
  xs.take off ++ ys ++ xs.drop (off + ys.length)

@[simp] theorem slice_self (xs : List α) (a : Nat) : slice xs a a = [] := by
  simp [slice]

variable {xs ys zs : List α} {a b off i : Nat}

theorem length_slice (hb : b ≤ xs.length) : (slice xs a b).length = b - a := by
  simp only [slice, length_take, length_drop]
  omega

theorem slice_append_slice {c : Nat} (hab : a ≤ b) (hbc : b ≤ c) :
    slice xs a b ++ slice xs b c = slice xs a c := by
  have hc : c - a = (b - a) + (c - b) := by omega
  have hdrop : xs.drop b = (xs.drop a).drop (b - a) := by
    rw [drop_drop]
    congr 1
    omega
  rw [slice, slice, slice, hc, take_add, hdrop]

theorem slice_zero_length (xs : List α) : slice xs 0 xs.length = xs := by
  simp [slice]

theorem slice_append_left (hb : b ≤ xs.length) : slice (xs ++ ys) a b = slice xs a b := by
  by_cases hab : a ≤ b
  · rw [slice, drop_append_of_le_length (by omega),
      take_append_of_le_length (by rw [length_drop]; omega), slice]
  · have hz : b - a = 0 := by omega
    simp [slice, hz]

@[simp] theorem length_overwrite (h : off + ys.length ≤ xs.length) :
    (overwrite xs off ys).length = xs.length := by
  simp only [overwrite, length_append, length_take, length_drop]
  omega

theorem slice_overwrite (ha : a ≤ off) (h : off + ys.length ≤ xs.length) :
    slice (overwrite xs off ys) a (off + ys.length) = slice xs a off ++ ys := by
  have htake : (xs.take off).length = off := by
    rw [length_take]
    omega
  have hpre : slice (overwrite xs off ys) a (off + ys.length)
      = slice (xs.take off ++ ys) a (off + ys.length) := by
    apply slice_append_left
    rw [length_append, htake]
  rw [hpre, slice, drop_append_of_le_length (by omega), slice]
  have hlen : ((xs.take off).drop a ++ ys).length = off + ys.length - a := by
    rw [length_append, length_drop, htake]
    omega
  rw [← hlen, take_length, drop_take]

theorem slice_overwrite_before (hb : b ≤ off) (h : off ≤ xs.length) :
    slice (overwrite xs off ys) a b = slice xs a b := by
  rw [overwrite, append_assoc,
    slice_append_left (by rw [length_take]; omega)]
  rw [slice, slice, drop_take, take_take]
  congr 1
  omega

theorem overwrite_overwrite (h : off + ys.length + zs.length ≤ xs.length) :
    overwrite (overwrite xs off ys) (off + ys.length) zs = overwrite xs off (ys ++ zs) := by
  have htake : (xs.take off).length = off := by
    rw [length_take]
    omega
  have hpre : (xs.take off ++ ys).length = off + ys.length := by
    rw [length_append, htake]
  have hfront : (overwrite xs off ys).take (off + ys.length) = xs.take off ++ ys := by
    rw [overwrite, take_append_of_le_length (by omega), ← hpre, take_length]
  have hback : (overwrite xs off ys).drop (off + ys.length + zs.length)
      = xs.drop (off + ys.length + zs.length) := by
    rw [overwrite, drop_append, hpre, drop_eq_nil_of_le (by omega), nil_append,
      drop_drop]
    congr 1
    omega
  rw [overwrite, hfront, hback, overwrite, length_append, ← Nat.add_assoc]
  simp

/-- Filling a block from its start, piece after piece. -/
theorem overwrite_next (hi : ys.length = i) (h : i + zs.length ≤ xs.length) :
    overwrite (overwrite xs 0 ys) i zs = overwrite xs 0 (ys ++ zs) := by
  have hw := @overwrite_overwrite _ xs ys zs 0 (by omega)
  rwa [Nat.zero_add, hi] at hw

/-- Filling a block from its start, with a gap in which it keeps its contents. -/
theorem overwrite_skip {k : Nat} (hi : ys.length = i) (h : i + k + zs.length ≤ xs.length) :
    overwrite (overwrite xs 0 ys) (i + k) zs = overwrite xs 0 (ys ++ slice xs i (i + k) ++ zs) := by
  have hlen : (slice xs i (i + k)).length = k := by
    rw [length_slice (by omega)]
    omega
  -- writing the gap's own contents into it changes nothing
  have hgap : overwrite xs 0 (ys ++ slice xs i (i + k)) = overwrite xs 0 ys := by
    have hdrop : slice xs i (i + k) ++ xs.drop (i + k) = xs.drop i := by
      rw [slice, Nat.add_sub_cancel_left, ← drop_drop, take_append_drop]
    rw [overwrite, overwrite, length_append, hlen, hi]
    simp only [take_zero, nil_append, Nat.zero_add, append_assoc]
    rw [hdrop]
  rw [← hgap]
  exact overwrite_next (by rw [length_append, hlen, hi]) h

theorem overwrite_covers (h : xs.length ≤ ys.length) : overwrite xs 0 ys = ys := by
  rw [overwrite, drop_eq_nil_of_le (by omega)]
  simp

theorem overwrite_all (h : xs.length = ys.length) : overwrite xs 0 ys = ys := overwrite_covers h.le

/-- The elements `ys` are stored at `off`; `none` if they do not fit into the block. -/
def store (xs : List α) (off : Nat) (ys : List α) : Option (List α) :=
  if off + ys.length ≤ xs.length then some (overwrite xs off ys) else none

theorem store_eq (h : off + ys.length ≤ xs.length) : store xs off ys = some (overwrite xs off ys) :=
  if_pos h

theorem drop_overwrite (h : off ≤ xs.length) :
    (overwrite xs off ys).drop off = ys ++ xs.drop (off + ys.length) := by
  have htake : (xs.take off).length = off := by
    rw [length_take]
    omega
  rw [overwrite, append_assoc, drop_left' htake]

theorem overwrite_middle {as bs cs ds : List α} (hi : as.length = i) (h : ds.length = bs.length) :
    overwrite (as ++ bs ++ cs) i ds = as ++ ds ++ cs := by
  subst hi
  rw [overwrite, append_assoc as bs cs, take_left, h, ← drop_drop, drop_left, drop_left]

theorem slice_middle {as bs cs : List α} {j : Nat} (hi : as.length = i) (hj : i + bs.length = j) :
    slice (as ++ bs ++ cs) i j = bs := by
  subst hi hj
  rw [slice, append_assoc, drop_left, Nat.add_sub_cancel_left, take_left]

/-! ## The forward move -/

/-- Copy `n` elements from `src` on to `dst` on, one at a time, each read from
    the block as it stands then. -/
def moveFwd (xs : List α) (dst src : Nat) : Nat → List α
  | 0 => xs
  | n + 1 =>
      match xs[src]? with
      | some x => moveFwd (xs.set dst x) (dst + 1) (src + 1) n
      | none => xs

/-- Towards the front, the element-wise move reads only elements that were not
    written yet. -/
theorem moveFwd_eq_overwrite (xs : List α) {dst src : Nat} (hds : dst ≤ src) (n : Nat)
    (h : src + n ≤ xs.length) :
    moveFwd xs dst src n = overwrite xs dst (slice xs src (src + n)) := by
  induction n generalizing xs dst src with
  | zero => simp [moveFwd, overwrite]
  | succ n ih =>
    have hsrc : src < xs.length := by omega
    have hlen : (xs.set dst xs[src]).length = xs.length := length_set
    rw [moveFwd, getElem?_eq_getElem hsrc]
    simp only
    rw [ih (xs.set dst xs[src]) (by omega) (by omega)]
    -- the rest of the source window lies behind the element just written
    have hwin : slice (xs.set dst xs[src]) (src + 1) (src + 1 + n)
        = slice xs (src + 1) (src + (n + 1)) := by
      rw [slice, slice, drop_set_of_lt (by omega)]
      congr 1
      omega
    have hcons : slice xs src (src + (n + 1)) = xs[src] :: slice xs (src + 1) (src + (n + 1)) := by
      have hk : src + (n + 1) - src = src + (n + 1) - (src + 1) + 1 := by omega
      rw [slice, drop_eq_getElem_cons hsrc, hk, take_succ_cons, slice]
    have hwlen : (slice xs (src + 1) (src + (n + 1))).length = n := by
      rw [length_slice (by omega)]
      omega
    have htake : (xs.set dst xs[src]).take (dst + 1) = xs.take dst ++ [xs[src]] := by
      have htl : (xs.take dst).length = dst := by
        rw [length_take]
        omega
      rw [set_eq_take_append_cons_drop, if_pos (by omega), take_append, htl,
        take_of_length_le (by omega)]
      simp
    rw [hwin, hcons, overwrite, overwrite, htake, hwlen, length_cons, hwlen,
      drop_set_of_lt (by omega)]
    have hdst : dst + 1 + n = dst + (n + 1) := by omega
    rw [hdst]
    simp

/-! ## Little-endian numbers -/

abbrev Byte := BitVec 8

/-- The `n` low bytes of `v`, least significant first. -/
def leBytes : Nat → Nat → List Byte
  | 0, _ => []
  | n + 1, v => BitVec.ofNat 8 v :: leBytes n (v / 256)

/-- The number a little-endian byte list stands for. -/
def leNat : List Byte → Nat
  | [] => 0
  | b :: bs => b.toNat + 256 * leNat bs

@[simp] theorem length_leBytes (n v : Nat) : (leBytes n v).length = n := by
  induction n generalizing v with
  | zero => rfl
  | succ n ih => simp [leBytes, ih]

theorem leNat_leBytes (n v : Nat) : leNat (leBytes n v) = v % 256 ^ n := by
  induction n generalizing v with
  | zero => simp [leBytes, leNat, Nat.mod_one]
  | succ n ih =>
    simp only [leBytes, leNat, ih, BitVec.toNat_ofNat]
    have hpow : 256 ^ (n + 1) = 256 * 256 ^ n := by ring
    rw [hpow, Nat.mod_mul]

theorem leNat_leBytes_of_lt {n v : Nat} (h : v < 256 ^ n) : leNat (leBytes n v) = v := by
  rw [leNat_leBytes, Nat.mod_eq_of_lt h]

theorem leNat_lt (bs : List Byte) : leNat bs < 256 ^ bs.length := by
  induction bs with
  | nil => simp [leNat]
  | cons b bs ih =>
    rw [leNat, length_cons, Nat.pow_succ]
    omega

theorem leBytes_leNat (bs : List Byte) : leBytes bs.length (leNat bs) = bs := by
  induction bs with
  | nil => rfl
  | cons b bs ih =>
    have hdiv : (b.toNat + 256 * leNat bs) / 256 = leNat bs := by omega
    have hlow : BitVec.ofNat 8 (b.toNat + 256 * leNat bs) = b := by
      apply BitVec.eq_of_toNat_eq
      rw [BitVec.toNat_ofNat]
      omega
    rw [length_cons, leNat, leBytes, hdiv, ih, hlow]

end Lib
