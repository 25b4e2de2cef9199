/-
  ProxySQL.Protocol.StatusFlags

  What `status_flags` reads from the packets that `myproto_ok_pkt` and
  `myproto_eof` build.

  The encoder writes the affected rows and the last insert id in 1, 3, 4 or 9
  bytes.  The decoder skips each by a width derived from the signed first byte
  of an eight-byte load: 1 when that byte is below 128 and 9 otherwise
  (`lencint_lencintUnknown`).  So it finds the status word of an EOF packet
  always, and the one of an OK packet only where the two skips add up to the two
  widths, or where it lands on two other bytes that happen to be equal
  (`StatusFound`).
-/
import Mathlib.Data.List.GetD
import Mathlib.Tactic.SplitIfs
import ProxySQL.Protocol.Packet

namespace ProxySQL

open Lib List

/-! ## The built packets -/

/-- What follows the `0x00` of an OK packet. -/
def okBody (affectedRows lastInsertId : BitVec 64) (status warnings : BitVec 16) : List Byte :=
  encint affectedRows ++ encint lastInsertId ++ leBytes 2 status.toNat ++ leBytes 2 warnings.toNat

theorem length_okBody (affectedRows lastInsertId : BitVec 64) (status warnings : BitVec 16) :
    (okBody affectedRows lastInsertId status warnings).length
      = lencint affectedRows + lencint lastInsertId + 4 := by
  simp only [okBody, length_append, length_encint, length_leBytes]

/-- An OK packet is its header, `0x00` and the body, with nothing left of the
    block's old contents. -/
theorem myprotoOkPkt_eq (fill : Nat → Byte) (id : BitVec 32) (affectedRows lastInsertId : BitVec 64)
    (status warnings : BitVec 16) :
    myprotoOkPkt fill id affectedRows lastInsertId status warnings =
      { length := (okHdr id affectedRows lastInsertId).pktLength.toNat + 4,
        data := (okHdr id affectedRows lastInsertId).toBytes ++
          0x00 :: okBody affectedRows lastInsertId status warnings } := by
  have hlen := okHdr_pktLength id affectedRows lastInsertId
  simp only [myprotoOkPkt, sizeofMysqlHdr, Pkt.mk.injEq, true_and]
  generalize okHdr id affectedRows lastInsertId = myhdr at hlen ⊢
  rw [overwrite_next (by simp) (by simp; omega),
    writeencint_next (by simp) (by simp [hlen]; omega),
    writeencint_next (by simp [length_encint]; omega) (by simp [hlen]; omega),
    overwrite_next (by simp [length_encint]; omega) (by simp [hlen]; omega),
    overwrite_next (by simp [length_encint]; omega) (by simp [hlen]; omega),
    overwrite_all (by simp [hlen, length_encint]; omega)]
  simp [okBody]

theorem myprotoEof_eq (fill : Nat → Byte) (id : BitVec 32) (warningCount status : BitVec 16) :
    myprotoEof fill id warningCount status =
      { length := 9,
        data := (⟨5, id.setWidth 8⟩ : MysqlHdr).toBytes ++
          0xfe :: (leBytes 2 warningCount.toNat ++ leBytes 2 status.toNat) } := by
  have h5 : (5 : BitVec 24).toNat = 5 := rfl
  simp only [myprotoEof, sizeofMysqlHdr, h5, Pkt.mk.injEq, true_and]
  rw [overwrite_next (by simp) (by simp), overwrite_next (by simp) (by simp),
    overwrite_next (by simp) (by simp), overwrite_all (by simp)]
  simp

/-! ## The skips of the decoder -/

/-- The width the decoder takes from the first byte of an encoded integer. -/
def skipOf (b : Byte) : Nat := if b.toNat < 128 then 1 else 9

/-- A signed char is always below 251: the decoder knows the widths 1 and 9 only. -/
theorem lencint_lencintUnknown (v : BitVec 64) :
    lencint (lencintUnknown v) = skipOf (v.setWidth 8) := by
  have hlt : (v.setWidth 8).toInt < 251 := by
    have := BitVec.toInt_lt (x := v.setWidth 8)
    omega
  rw [lencintUnknown, if_pos hlt, skipOf, lencint, BitVec.toNat_ofInt,
    BitVec.toInt_eq_toNat_cond]
  by_cases h : (v.setWidth 8).toNat < 128
  · rw [if_pos h, if_pos (by omega)]
  · rw [if_neg h, if_neg (by omega), if_neg (by omega), if_neg (by omega)]

theorem load_two (m : Nat → Byte) (off : Nat) :
    load m off 2 = (m off).toNat + 256 * (m (off + 1)).toNat := by
  simp [load, leNat, range_succ]

theorem load_eight_setWidth (m : Nat → Byte) (off : Nat) :
    (BitVec.ofNat 64 (load m off 8)).setWidth 8 = m off := by
  apply BitVec.eq_of_toNat_eq
  have hcons : load m off 8 = (m off).toNat
      + 256 * leNat ((range 7).map fun k => m (off + (k + 1))) := by
    simp [load, leNat, range_succ]
  rw [hcons, BitVec.toNat_setWidth, BitVec.toNat_ofNat]
  omega

/-! ## Where the decoder lands -/

/-- Byte `i` behind the `0x00` of an OK packet with the given body. -/
def bodyAt (beyond : Nat → Byte) (body : List Byte) (i : Nat) : Byte :=
  body.getD i (beyond (i - body.length))

/-- The offset, behind the `0x00`, at which the decoder looks for the status. -/
def landing (m : Nat → Byte) : Nat := skipOf (m 0) + skipOf (m (skipOf (m 0)))

theorem okPkt_mem (fill beyond : Nat → Byte) (id : BitVec 32) (affectedRows lastInsertId : BitVec 64)
    (status warnings : BitVec 16) (i : Nat) :
    (myprotoOkPkt fill id affectedRows lastInsertId status warnings).mem beyond (5 + i)
      = bodyAt beyond (okBody affectedRows lastInsertId status warnings) i := by
  have h5 : ∀ (h : MysqlHdr) (b : List Byte), h.toBytes ++ 0x00 :: b = (h.toBytes ++ [0x00]) ++ b := by
    simp
  rw [myprotoOkPkt_eq, Pkt.mem, bodyAt, h5, getD_append_right _ _ _ _ (by simp)]
  congr 2
  · simp
  · simp
    omega

theorem okPkt_mysqlResponse (fill beyond : Nat → Byte) (id : BitVec 32)
    (affectedRows lastInsertId : BitVec 64) (status warnings : BitVec 16) :
    mysqlResponse beyond (myprotoOkPkt fill id affectedRows lastInsertId status warnings)
      = .okPacket := by
  rw [mysqlResponse, if_pos]
  rw [myprotoOkPkt_eq, Pkt.mem, sizeofMysqlHdr, getD_append_right _ _ _ _ (by simp)]
  simp

/-- The status word read from an OK packet: the two bytes at the landing offset. -/
theorem statusFlags_okPkt (fill beyond : Nat → Byte) (id : BitVec 32)
    (affectedRows lastInsertId : BitVec 64) (status warnings : BitVec 16) :
    let m := bodyAt beyond (okBody affectedRows lastInsertId status warnings)
    statusFlags beyond (myprotoOkPkt fill id affectedRows lastInsertId status warnings)
      = BitVec.ofNat 16 ((m (landing m)).toNat + 256 * (m (landing m + 1)).toNat) := by
  intro m
  have hmem : ∀ i, (myprotoOkPkt fill id affectedRows lastInsertId status warnings).mem beyond (5 + i)
      = m i := okPkt_mem fill beyond id affectedRows lastInsertId status warnings
  simp only [statusFlags, okPkt_mysqlResponse, lencint_lencintUnknown, load_eight_setWidth,
    load_two, sizeofMysqlHdr]
  have h0 := hmem 0
  have h1 := hmem (skipOf (m 0))
  have h2 := hmem (landing m)
  have h3 := hmem (landing m + 1)
  simp only [landing, Nat.add_zero, ← Nat.add_assoc] at h0 h1 h2 h3 ⊢
  rw [h0, h1, h2, h3]

/-- The two bytes at offset `j`, when both lie in the body. -/
def wordAt (body : List Byte) (j : Nat) : Option Nat :=
  if j + 1 < body.length then some ((body.getD j 0).toNat + 256 * (body.getD (j + 1) 0).toNat)
  else none

/-- The word the decoder reads, when it lies in the body. -/
def bodyWord (body : List Byte) : Option Nat := wordAt body (landing fun i => body.getD i 0)

theorem landing_congr {m m' : Nat → Byte} {n : Nat} (hm : ∀ i, i < n → m i = m' i)
    (hn : landing m < n) : landing m' = landing m := by
  have hpos : ∀ b, 0 < skipOf b := by
    intro b
    unfold skipOf
    split <;> omega
  unfold landing at hn ⊢
  rw [← hm 0 (by omega), ← hm (skipOf (m 0)) (by omega)]

theorem bodyAt_of_lt (beyond : Nat → Byte) {body : List Byte} {i : Nat} (h : i < body.length) :
    bodyAt beyond body i = body.getD i 0 := by
  rw [bodyAt, getD_eq_getElem _ _ h, getD_eq_getElem _ _ h]

/-- If the decoder lands inside the body, it reads the body's word whatever follows the packet;
    if not, some continuation makes the high byte wrong. -/
theorem bodyWord_iff (body : List Byte) (status : BitVec 16) :
    (∀ beyond : Nat → Byte, let m := bodyAt beyond body
      BitVec.ofNat 16 ((m (landing m)).toNat + 256 * (m (landing m + 1)).toNat) = status) ↔
      bodyWord body = some status.toNat := by
  constructor
  · intro h
    -- the high byte to put behind the packet
    let b : Byte := if status.toNat < 256 then 1 else 0
    have hb : b.toNat = if status.toNat < 256 then 1 else 0 := by
      simp only [b]
      split <;> rfl
    have hm := congrArg BitVec.toNat (h fun _ => b)
    rw [BitVec.toNat_ofNat, Nat.mod_eq_of_lt (by omega)] at hm
    have hin : landing (bodyAt (fun _ => b) body) + 1 < body.length := by
      by_contra hout
      have hbeyond : bodyAt (fun _ => b) body (landing (bodyAt (fun _ => b) body) + 1) = b := by
        conv_lhs => rw [bodyAt]
        exact getD_eq_default _ _ (by omega)
      rw [hbeyond, hb] at hm
      split at hm <;> omega
    have hl : landing (fun i => body.getD i 0) = landing (bodyAt (fun _ => b) body) :=
      landing_congr (fun i hi => bodyAt_of_lt _ hi) (Nat.lt_of_succ_lt hin)
    rw [bodyAt_of_lt _ hin, bodyAt_of_lt _ (Nat.lt_of_succ_lt hin)] at hm
    rw [bodyWord, wordAt, hl, if_pos hin, hm]
  · intro h beyond m
    rw [bodyWord, wordAt] at h
    split at h
    case isFalse => cases h
    case isTrue hin =>
      have hl : landing m = landing (fun i => body.getD i 0) :=
        landing_congr (fun i hi => (bodyAt_of_lt beyond hi).symm) (Nat.lt_of_succ_lt hin)
      simp only [m, hl, bodyAt_of_lt beyond hin, bodyAt_of_lt beyond (Nat.lt_of_succ_lt hin)]
      rw [Option.some.inj h, BitVec.ofNat_toNat, BitVec.setWidth_eq]

/-! ## When the status is found -/

/-- The values for which the decoder gets back the status word of an OK packet, by the widths of
    the two integers. -/
def StatusFound (affectedRows lastInsertId : BitVec 64) (status warnings : BitVec 16) : Prop :=
  let r := affectedRows.toNat
  let i := lastInsertId.toNat
  -- both skips are right
  (r < 128 ∨ 2 ^ 24 ≤ r) ∧ (i < 128 ∨ 2 ^ 24 ≤ i) ∨
  -- nine bytes instead of one, then one byte instead of nine
  128 ≤ r ∧ r < 251 ∧ 2 ^ 24 ≤ i ∧ i < 2 ^ 63 ∨
  -- the word lies in the last insert id, or is the warning count, and is equal to the status
  251 ≤ r ∧ r < 2 ^ 16 ∧ 2 ^ 24 ≤ i ∧ i / 2 ^ 40 % 2 ^ 8 < 128 ∧ i / 2 ^ 48 = status.toNat ∨
  2 ^ 16 ≤ r ∧ r < 2 ^ 24 ∧ 2 ^ 16 ≤ i ∧ i < 2 ^ 24 ∧ status.toNat < 2 ^ 15 ∧ warnings = status ∨
  2 ^ 16 ≤ r ∧ r < 2 ^ 24 ∧ 2 ^ 24 ≤ i ∧ i / 2 ^ 32 % 2 ^ 8 < 128 ∧
    i / 2 ^ 40 % 2 ^ 16 = status.toNat

instance (affectedRows lastInsertId : BitVec 64) (status warnings : BitVec 16) :
    Decidable (StatusFound affectedRows lastInsertId status warnings) := by
  unfold StatusFound
  infer_instance

theorem wordAt_append (a b : List Byte) (k : Nat) : wordAt (a ++ b) (a.length + k) = wordAt b k := by
  simp only [wordAt, length_append]
  rw [getD_append_right _ _ _ _ (by omega), getD_append_right _ _ _ _ (by omega)]
  simp only [Nat.add_sub_cancel_left, Nat.add_assoc, Nat.add_lt_add_iff_left]

theorem wordAt_cons_succ (b : Byte) (body : List Byte) (k : Nat) :
    wordAt (b :: body) (k + 1) = wordAt body k := by
  rw [wordAt, wordAt, length_cons, getD_cons_succ, getD_cons_succ]
  simp only [Nat.add_lt_add_iff_right]

theorem wordAt_pair (a b : Byte) (body : List Byte) :
    wordAt (a :: b :: body) 0 = some (a.toNat + 256 * b.toNat) := by
  rw [wordAt, if_pos (by simp), getD_cons_zero, getD_cons_succ, getD_cons_zero]

theorem wordAt_nil (k : Nat) : wordAt [] k = none := if_neg (Nat.not_lt_zero _)

theorem wordAt_single (b : Byte) (k : Nat) : wordAt [b] k = none := if_neg (by simp)

theorem toNat_lead : (252 : Byte).toNat = 252 ∧ (253 : Byte).toNat = 253 ∧ (254 : Byte).toNat = 254 :=
  ⟨rfl, rfl, rfl⟩

/-- Past the first integer `a` the decoder is `d` bytes into what follows it. -/
theorem bodyWord_append {a b : List Byte} {d : Nat} (ha : 0 < a.length)
    (hskip : skipOf (a.getD 0 0) = a.length + d) :
    bodyWord (a ++ b) = wordAt b (d + skipOf (b.getD d 0)) := by
  have h0 : (a ++ b).getD 0 0 = a.getD 0 0 := getD_append _ _ _ _ ha
  have h1 : (a ++ b).getD (a.length + d) 0 = b.getD d 0 := by
    rw [getD_append_right _ _ _ _ (by omega), Nat.add_sub_cancel_left]
  rw [bodyWord, landing, h0, hskip, h1, Nat.add_assoc, wordAt_append]

section Tail

variable (lastInsertId : BitVec 64) (status warnings : BitVec 16)

/-- What follows the affected rows. -/
def okTail : List Byte :=
  encint lastInsertId ++ leBytes 2 status.toNat ++ leBytes 2 warnings.toNat

/-- The word read by a decoder that takes byte `d` of the tail for the last insert id's first. -/
def tailWord (d : Nat) : Option Nat :=
  let tail := okTail lastInsertId status warnings
  wordAt tail (d + skipOf (tail.getD d 0))

/-- One equivalence for each distance that a nine-byte skip over 9, 1, 3 or 4 bytes leaves. -/
theorem tailWord_iff :
    (tailWord lastInsertId status warnings 0 = some status.toNat ↔
      lastInsertId.toNat < 128 ∨ 2 ^ 24 ≤ lastInsertId.toNat) ∧
    (tailWord lastInsertId status warnings 8 = some status.toNat ↔
      2 ^ 24 ≤ lastInsertId.toNat ∧ lastInsertId.toNat < 2 ^ 63) ∧
    (tailWord lastInsertId status warnings 6 = some status.toNat ↔
      2 ^ 24 ≤ lastInsertId.toNat ∧ lastInsertId.toNat / 2 ^ 40 % 2 ^ 8 < 128 ∧
        lastInsertId.toNat / 2 ^ 48 = status.toNat) ∧
    (tailWord lastInsertId status warnings 5 = some status.toNat ↔
      (2 ^ 16 ≤ lastInsertId.toNat ∧ lastInsertId.toNat < 2 ^ 24 ∧ status.toNat < 2 ^ 15 ∧
        warnings.toNat = status.toNat) ∨
      (2 ^ 24 ≤ lastInsertId.toNat ∧ lastInsertId.toNat / 2 ^ 32 % 2 ^ 8 < 128 ∧
        lastInsertId.toNat / 2 ^ 40 % 2 ^ 16 = status.toNat)) := by
  -- the bytes of the last insert id, by its width
  rcases encint_cases lastInsertId with
    ⟨_, _, he⟩ | ⟨_, _, _, he⟩ | ⟨_, _, _, he⟩ | ⟨_, _, he⟩ <;>
    refine ⟨?_, ?_, ?_, ?_⟩ <;>
    simp only [tailWord, okTail, he, leBytes, skipOf, cons_append, nil_append, getD_cons_zero,
      getD_cons_succ, getD_nil, BitVec.toNat_ofNat, toNat_lead] <;>
    split_ifs <;>
    simp only [wordAt_cons_succ, wordAt_pair, wordAt_nil, wordAt_single, BitVec.toNat_ofNat,
      Option.some.injEq, reduceCtorEq, false_iff] <;>
    omega

end Tail

theorem bodyWord_okBody (affectedRows lastInsertId : BitVec 64) (status warnings : BitVec 16) :
    bodyWord (okBody affectedRows lastInsertId status warnings) = some status.toNat ↔
      StatusFound affectedRows lastInsertId status warnings := by
  have hbody : okBody affectedRows lastInsertId status warnings
      = encint affectedRows ++ okTail lastInsertId status warnings := by
    simp [okBody, okTail]
  -- the first skip decides at which byte of the tail the second one starts
  have key : ∀ d, skipOf ((encint affectedRows).getD 0 0) = (encint affectedRows).length + d →
      0 < (encint affectedRows).length →
      bodyWord (okBody affectedRows lastInsertId status warnings)
        = tailWord lastInsertId status warnings d := by
    intro d hd hpos
    rw [hbody, bodyWord_append hpos hd, tailWord]
  obtain ⟨hzero, height, hsix, hfive⟩ := tailWord_iff lastInsertId status warnings
  simp only [StatusFound, ← BitVec.toNat_inj]
  rcases encint_cases affectedRows with
    ⟨h251, _, he⟩ | ⟨h251, h16, _, he⟩ | ⟨h16, h24, _, he⟩ | ⟨h24, _, he⟩
  · have hmod : affectedRows.toNat % 256 = affectedRows.toNat := Nat.mod_eq_of_lt (by omega)
    by_cases h128 : affectedRows.toNat < 128
    · rw [key 0 (by simp [he, leBytes, skipOf, hmod, h128]) (by simp [he]), hzero]
      simp [h128, show ¬ 128 ≤ affectedRows.toNat by omega,
        show ¬ 251 ≤ affectedRows.toNat by omega, show ¬ 65536 ≤ affectedRows.toNat by omega]
    · rw [key 8 (by simp [he, leBytes, skipOf, hmod, h128]) (by simp [he]), height]
      simp [h128, h251, show 128 ≤ affectedRows.toNat by omega,
        show ¬ 251 ≤ affectedRows.toNat by omega, show ¬ 65536 ≤ affectedRows.toNat by omega,
        show ¬ 16777216 ≤ affectedRows.toNat by omega]
  · rw [key 6 (by simp [he, skipOf]) (by simp [he]), hsix]
    simp [h251, h16, show ¬ affectedRows.toNat < 128 by omega,
      show ¬ affectedRows.toNat < 251 by omega, show ¬ 65536 ≤ affectedRows.toNat by omega,
      show ¬ 16777216 ≤ affectedRows.toNat by omega]
  · rw [key 5 (by simp [he, skipOf]) (by simp [he]), hfive]
    simp [h16, h24, show ¬ affectedRows.toNat < 128 by omega,
      show ¬ affectedRows.toNat < 251 by omega, show ¬ affectedRows.toNat < 65536 by omega,
      show ¬ 16777216 ≤ affectedRows.toNat by omega]
  · rw [key 0 (by simp [he, skipOf]) (by simp [he]), hzero]
    simp [h24, show ¬ affectedRows.toNat < 251 by omega,
      show ¬ affectedRows.toNat < 65536 by omega, show ¬ affectedRows.toNat < 16777216 by omega]

/-! ## Main results -/

theorem statusFlags_eof (fill beyond : Nat → Byte) (id : BitVec 32)
    (warningCount status : BitVec 16) :
    statusFlags beyond (myprotoEof fill id warningCount status) = status := by
  have hc : mysqlResponse beyond (myprotoEof fill id warningCount status) = .eofPacket := by
    simp [mysqlResponse, myprotoEof_eq, Pkt.mem, MysqlHdr.toBytes, leBytes, sizeofMysqlHdr]
  simp only [statusFlags, hc, sizeofMysqlHdr, load_two]
  apply BitVec.eq_of_toNat_eq
  simp [myprotoEof_eq, Pkt.mem, MysqlHdr.toBytes, leBytes]
  omega

/-- The status word survives the trip through an OK packet, for every content of the memory
    behind it, exactly for the values of `StatusFound`; through an EOF packet it always does. -/
theorem statusFlags_roundtrip_iff (fill : Nat → Byte) (id : BitVec 32)
    (affectedRows lastInsertId : BitVec 64) (status warnings : BitVec 16) :
    ((∀ beyond : Nat → Byte,
        let p := myprotoOkPkt fill id affectedRows lastInsertId status warnings
        statusFlags beyond p = status ∧
          (isTransactionActive beyond p ↔
            status &&& serverStatusInTrans = serverStatusInTrans)) ∧
      (∀ (beyond : Nat → Byte) (warningCount : BitVec 16),
        let p := myprotoEof fill id warningCount status
        statusFlags beyond p = status ∧
          (isTransactionActive beyond p ↔
            status &&& serverStatusInTrans = serverStatusInTrans))) ↔
      StatusFound affectedRows lastInsertId status warnings := by
  rw [← bodyWord_okBody, ← bodyWord_iff]
  constructor
  · intro h beyond
    exact (statusFlags_okPkt fill beyond id _ _ _ _).symm.trans (h.1 beyond).1
  · intro h
    have hok : ∀ beyond : Nat → Byte, statusFlags beyond
        (myprotoOkPkt fill id affectedRows lastInsertId status warnings) = status := by
      intro beyond
      rw [statusFlags_okPkt]
      exact h beyond
    refine ⟨fun beyond => ⟨hok beyond, ?_⟩, fun beyond warningCount => ⟨?_, ?_⟩⟩
    · simp [isTransactionActive, hok beyond]
    · exact statusFlags_eof fill beyond id warningCount status
    · simp [isTransactionActive, statusFlags_eof]

/-- 200 affected rows, last insert id 0, status `SERVER_STATUS_IN_TRANS`: the 200 is taken for the
    first of nine bytes, and the word is read behind the end of the packet. -/
theorem statusFlags_two_hundred_rows :
    statusFlags (fun _ => 0) (myprotoOkPkt (fun _ => 0) 1 200 0 serverStatusInTrans 0) = 0 ∧
      isTransactionActive (fun _ => 0)
        (myprotoOkPkt (fun _ => 0) 1 200 0 serverStatusInTrans 0) = false := by
  decide

end ProxySQL
