/-
  ProxySQL.Protocol.Packet

  Packets of the MySQL client/server protocol as `mysql_protocol.c` builds and
  reads them: the four-byte header, length-encoded integers, the OK and EOF
  packets, the classification of a server packet by its first payload byte, and
  the status word that OK and EOF packets carry.

  A `pkt` is a block of memory with the number of bytes it was allocated with.
  Some readers look past that block (`status_flags` loads eight bytes wherever a
  length-encoded integer may start), so they take the bytes that follow it in
  memory as the argument `beyond`.  Builders fill a fresh block, whose old
  contents are the argument `fill`.
-/
import ProxySQL.Lib.Block

namespace ProxySQL

open Lib

/-- `pkt`. -/
structure Pkt where
  length : Nat
  data : List Byte
deriving DecidableEq

/-- The block has the size that `length` says and room for a header. -/
def Pkt.WF (p : Pkt) : Prop := p.data.length = p.length ∧ 4 ≤ p.length

instance (p : Pkt) : Decidable p.WF := by unfold Pkt.WF; infer_instance

/-- Byte `i` counted from the start of the block, also behind its end. -/
def Pkt.mem (beyond : Nat → Byte) (p : Pkt) (i : Nat) : Byte :=
  p.data.getD i (beyond (i - p.data.length))

/-- `l_alloc`: a block of `n` bytes with whatever it held before. -/
def lAlloc (fill : Nat → Byte) (n : Nat) : List Byte := (List.range n).map fill

@[simp] theorem length_lAlloc (fill : Nat → Byte) (n : Nat) : (lAlloc fill n).length = n := by
  simp [lAlloc]

/-- A little-endian load of `n` bytes (`MEM_COPY_FWD` into a zeroed integer). -/
def load (m : Nat → Byte) (off n : Nat) : Nat := leNat ((List.range n).map fun k => m (off + k))

/-! ## The header -/

/-- `mysql_hdr`: the bit-fields `pkt_length:24, pkt_id:8`. -/
structure MysqlHdr where
  pktLength : BitVec 24
  pktId : BitVec 8
deriving DecidableEq

/-- `sizeof(mysql_hdr)`. -/
def sizeofMysqlHdr : Nat := 4

def MysqlHdr.toBytes (h : MysqlHdr) : List Byte := leBytes 3 h.pktLength.toNat ++ [h.pktId]

def MysqlHdr.ofBytes (bs : List Byte) : MysqlHdr :=
  { pktLength := BitVec.ofNat 24 (leNat (bs.take 3)), pktId := bs.getD 3 0 }

@[simp] theorem MysqlHdr.length_toBytes (h : MysqlHdr) : h.toBytes.length = 4 := by
  simp [toBytes]

/-! ## Server packets -/

/-- `enum MySQL_response_type`. -/
inductive MysqlResponseType where
  | okPacket
  | errPacket
  | eofPacket
  | unknownPacket
deriving DecidableEq

/-- `mysql_response`.  The length test is made in `size_t`, where a length below
    the header's would wrap around and not be small. -/
def mysqlResponse (beyond : Nat → Byte) (p : Pkt) : MysqlResponseType :=
  let c := p.mem beyond sizeofMysqlHdr
  if c = 0 then .okPacket
  else if c = 0xff then .errPacket
  else if c = 0xfe ∧ sizeofMysqlHdr ≤ p.length ∧ p.length - sizeofMysqlHdr < 9 then .eofPacket
  else .unknownPacket

/-! ## Length-encoded integers -/

/-- `lencint`: how many bytes the encoding of `v` takes. -/
def lencint (v : BitVec 64) : Nat :=
  if v.toNat < 251 then 1
  else if v.toNat ≥ 251 ∧ v.toNat < 65536 then 3
  else if v.toNat ≥ 65536 ∧ v.toNat < 16777216 then 4
  else 9

/-- `lencint_unknown`.  `c8` is a signed char, and returning it as a `uint64_t`
    extends its sign. -/
def lencintUnknown (v : BitVec 64) : BitVec 64 :=
  let c8 : Int := (v.setWidth 8).toInt
  if c8 < 251 then BitVec.ofInt 64 c8
  else
    let c32 : BitVec 32 := (v.setWidth 24).setWidth 32
    if c32.toNat ≥ 251 ∧ c32.toNat < 65536 then c32.setWidth 64
    else
      let c32 : BitVec 32 := v.setWidth 32
      if c32.toNat ≥ 65536 ∧ c32.toNat < 16777216 then c32.setWidth 64
      else v

/-- `writeencint` into the block `data` at `off`. -/
def writeencint (data : List Byte) (off : Nat) (v : BitVec 64) : List Byte :=
  let l := lencint v
  if l = 1 then overwrite data off (leBytes 1 v.toNat)
  else if l = 3 then overwrite (overwrite data off [0xfc]) (off + 1) (leBytes 2 v.toNat)
  else if l = 4 then overwrite (overwrite data off [0xfd]) (off + 1) (leBytes 3 v.toNat)
  else overwrite (overwrite data off [0xfe]) (off + 1) (leBytes 8 v.toNat)

/-- The bytes `writeencint` stores. -/
def encint (v : BitVec 64) : List Byte :=
  if v.toNat < 251 then leBytes 1 v.toNat
  else if v.toNat < 65536 then 0xfc :: leBytes 2 v.toNat
  else if v.toNat < 16777216 then 0xfd :: leBytes 3 v.toNat
  else 0xfe :: leBytes 8 v.toNat

theorem encint_cases (v : BitVec 64) :
    (v.toNat < 251 ∧ lencint v = 1 ∧ encint v = leBytes 1 v.toNat) ∨
    (251 ≤ v.toNat ∧ v.toNat < 65536 ∧ lencint v = 3 ∧ encint v = 0xfc :: leBytes 2 v.toNat) ∨
    (65536 ≤ v.toNat ∧ v.toNat < 16777216 ∧ lencint v = 4 ∧
      encint v = 0xfd :: leBytes 3 v.toNat) ∨
    (16777216 ≤ v.toNat ∧ lencint v = 9 ∧ encint v = 0xfe :: leBytes 8 v.toNat) := by
  unfold lencint encint
  by_cases h1 : v.toNat < 251
  · exact .inl ⟨h1, by rw [if_pos h1], by rw [if_pos h1]⟩
  · rw [if_neg h1, if_neg h1]
    by_cases h2 : v.toNat < 65536
    · exact .inr (.inl ⟨by omega, h2, by rw [if_pos (by omega)], by rw [if_pos h2]⟩)
    · rw [if_neg (by omega), if_neg h2]
      by_cases h3 : v.toNat < 16777216
      · exact .inr (.inr (.inl
          ⟨by omega, h3, by rw [if_pos (by omega)], by rw [if_pos h3]⟩))
      · exact .inr (.inr (.inr
          ⟨by omega, by rw [if_neg (by omega)], by rw [if_neg h3]⟩))

theorem length_encint (v : BitVec 64) : (encint v).length = lencint v := by
  rcases encint_cases v with ⟨_, hl, he⟩ | ⟨_, _, hl, he⟩ | ⟨_, _, hl, he⟩ | ⟨_, hl, he⟩ <;>
    simp [hl, he]

theorem lencint_le_nine (v : BitVec 64) : lencint v ≤ 9 := by
  rcases encint_cases v with ⟨_, hl, _⟩ | ⟨_, _, hl, _⟩ | ⟨_, _, hl, _⟩ | ⟨_, hl, _⟩ <;> omega

theorem writeencint_eq {data : List Byte} {off : Nat} {v : BitVec 64}
    (h : off + lencint v ≤ data.length) : writeencint data off v = overwrite data off (encint v) := by
  -- a tag byte followed by the number is one write of both
  have htag : ∀ (tag : Byte) (n : Nat), lencint v = n + 1 →
      overwrite (overwrite data off [tag]) (off + 1) (leBytes n v.toNat)
        = overwrite data off (tag :: leBytes n v.toNat) := by
    intro tag n hn
    exact @overwrite_overwrite _ data [tag] (leBytes n v.toNat) off (by simp; omega)
  unfold writeencint
  rcases encint_cases v with ⟨_, hl, he⟩ | ⟨_, _, hl, he⟩ | ⟨_, _, hl, he⟩ | ⟨_, hl, he⟩
  · simp [hl, he]
  · simpa [hl, he] using htag 0xfc 2 hl
  · simpa [hl, he] using htag 0xfd 3 hl
  · simpa [hl, he] using htag 0xfe 8 hl

theorem writeencint_next {xs ys : List Byte} {i : Nat} {v : BitVec 64} (hi : ys.length = i)
    (h : i + lencint v ≤ xs.length) :
    writeencint (overwrite xs 0 ys) i v = overwrite xs 0 (ys ++ encint v) := by
  rw [writeencint_eq (by rw [length_overwrite (by omega)]; exact h),
    overwrite_next hi (by rw [length_encint]; exact h)]

/-! ## Building OK and EOF packets -/

/-- The header of `myproto_ok_pkt`; the sums of `pkt_length` are taken in its 24 bits. -/
def okHdr (id : BitVec 32) (affectedRows lastInsertId : BitVec 64) : MysqlHdr :=
  { pktLength := 1 + BitVec.ofNat 24 (lencint affectedRows)
      + BitVec.ofNat 24 (lencint lastInsertId) + 2 + 2,
    pktId := id.setWidth 8 }

theorem okHdr_pktLength (id : BitVec 32) (affectedRows lastInsertId : BitVec 64) :
    (okHdr id affectedRows lastInsertId).pktLength.toNat
      = 1 + lencint affectedRows + lencint lastInsertId + 4 := by
  have hr := lencint_le_nine affectedRows
  have hi := lencint_le_nine lastInsertId
  have h1 : (1 : BitVec 24).toNat = 1 := rfl
  have h2 : (2 : BitVec 24).toNat = 2 := rfl
  simp only [okHdr, BitVec.toNat_add, BitVec.toNat_ofNat, h1, h2]
  omega

/-- `myproto_ok_pkt`. -/
def myprotoOkPkt (fill : Nat → Byte) (id : BitVec 32) (affectedRows lastInsertId : BitVec 64)
    (status warnings : BitVec 16) : Pkt :=
  let myhdr := okHdr id affectedRows lastInsertId
  let length := myhdr.pktLength.toNat + sizeofMysqlHdr
  let data := lAlloc fill length
  let data := overwrite data 0 myhdr.toBytes
  let i := sizeofMysqlHdr
  let data := overwrite data i [0x00]
  let i := i + 1
  let data := writeencint data i affectedRows
  let i := i + lencint affectedRows
  let data := writeencint data i lastInsertId
  let i := i + lencint lastInsertId
  let data := overwrite data i (leBytes 2 status.toNat)
  let i := i + 2
  let data := overwrite data i (leBytes 2 warnings.toNat)
  { length := length, data := data }

/-- `myproto_eof`. -/
def myprotoEof (fill : Nat → Byte) (id : BitVec 32) (warningCount status : BitVec 16) : Pkt :=
  let myhdr : MysqlHdr := { pktLength := 5, pktId := id.setWidth 8 }
  let length := myhdr.pktLength.toNat + sizeofMysqlHdr
  let data := lAlloc fill length
  let data := overwrite data 0 myhdr.toBytes
  let i := sizeofMysqlHdr
  let data := overwrite data i [0xfe]
  let i := i + 1
  let data := overwrite data i (leBytes 2 warningCount.toNat)
  let i := i + 2
  let data := overwrite data i (leBytes 2 status.toNat)
  { length := length, data := data }

/-! ## Reading the status word -/

/-- `SERVER_STATUS_IN_TRANS`. -/
def serverStatusInTrans : BitVec 16 := 1

/-- `status_flags`. -/
def statusFlags (beyond : Nat → Byte) (p : Pkt) : BitVec 16 :=
  let m := p.mem beyond
  let offset := 1 + sizeofMysqlHdr
  match mysqlResponse beyond p with
  | .okPacket =>
      -- affected rows
      let offset := offset + lencint (lencintUnknown (BitVec.ofNat 64 (load m offset 8)))
      -- last insert id
      let offset := offset + lencint (lencintUnknown (BitVec.ofNat 64 (load m offset 8)))
      BitVec.ofNat 16 (load m offset 2)
  | .eofPacket =>
      -- warning counts
      let offset := offset + 2
      BitVec.ofNat 16 (load m offset 2)
  | _ => 0

/-- `is_transaction_active`. -/
def isTransactionActive (beyond : Nat → Byte) (p : Pkt) : Bool :=
  statusFlags beyond p &&& serverStatusInTrans = serverStatusInTrans

end ProxySQL
