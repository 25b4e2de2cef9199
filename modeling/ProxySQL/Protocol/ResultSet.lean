/-
  ProxySQL.Protocol.ResultSet

  The packets of a result set that the proxy builds itself: the column count and
  the column definitions (`mysql_protocol.c`), and the id in the header of every
  packet that is built.

  `writeencstrnull` copies eight bytes of a four-byte integer where a string has
  2^24 bytes or more, and does not write the length of a string of 2^16 bytes or
  more at all; `stack` are the bytes behind that integer.
-/
import ProxySQL.Protocol.Packet

namespace ProxySQL

open Lib List

/-! ## Builders -/

/-- `writeencstrnull` into the block `data` at `off`, with the number of bytes it takes. -/
def writeencstrnull (stack : Nat → Byte) (data : List Byte) (off : Nat) : Option (List Byte) →
    List Byte × Nat
  | none => (overwrite data off [0xfb], 1)
  | some s =>
      let l := s.length
      let el := lencint (BitVec.ofNat 64 l)
      let data :=
        if el = 1 then overwrite data off (leBytes 1 l)
        else if el = 3 then overwrite (overwrite data off [0xfc]) (off + 1) (leBytes 2 l)
        else if el = 4 then overwrite data off [0xfd]
        else overwrite (overwrite data off [0xfe]) (off + 1) (leBytes 4 l ++ (range 4).map stack)
      (overwrite data (off + el) s, l + el)

/-- Several strings, one behind the other. -/
def writeencstrnulls (stack : Nat → Byte) : List (Option (List Byte)) → List Byte → Nat → List Byte × Nat
  | [], data, off => (data, off)
  | s :: rest, data, off =>
      let (data, n) := writeencstrnull stack data off s
      writeencstrnulls stack rest data (off + n)

/-- `myproto_column_count`. -/
def myprotoColumnCount (fill : Nat → Byte) (id : BitVec 32) (cnt : BitVec 64) : Pkt :=
  let myhdr : MysqlHdr := { pktLength := BitVec.ofNat 24 (lencint cnt), pktId := id.setWidth 8 }
  let length := myhdr.pktLength.toNat + sizeofMysqlHdr
  let data := lAlloc fill length
  let data := overwrite data 0 myhdr.toBytes
  let data := writeencint data sizeofMysqlHdr cnt
  { length := length, data := data }

/-- `myproto_column_def`. -/
def myprotoColumnDef (fill stack : Nat → Byte) (id : BitVec 32)
    (schema table orgTable name orgName : List Byte) (columnLength : BitVec 32) (columnType : BitVec 8)
    (flags : BitVec 16) (decimals : BitVec 8) : Pkt :=
  let strs := [schema, table, orgTable, name, orgName]
  let lengths := (strs.map fun s => lencint (BitVec.ofNat 64 s.length) + s.length).sum
  let myhdr : MysqlHdr :=
    { pktLength := BitVec.ofNat 24 (4 + lengths + (1 + 2) + 4 + 1 + 2 + 1 + 2), pktId := id.setWidth 8 }
  let length := myhdr.pktLength.toNat + sizeofMysqlHdr
  let data := lAlloc fill length
  let data := overwrite data 0 myhdr.toBytes
  let data := overwrite data sizeofMysqlHdr [0x03, 0x64, 0x65, 0x66]
  let (data, i) := writeencstrnulls stack (strs.map some) data (sizeofMysqlHdr + 4)
  let data := overwrite data i [0x0c, 0x21, 0x00]
  let i := i + 3
  let data := overwrite data i (leBytes 4 columnLength.toNat)
  let i := i + 4
  let data := overwrite data i (leBytes 1 columnType.toNat)
  let i := i + 1
  let data := overwrite data i (leBytes 2 flags.toNat)
  let i := i + 2
  let data := overwrite data i (leBytes 1 decimals.toNat)
  let i := i + 1
  let data := overwrite data i [0x00, 0x00]
  { length := length, data := data }

/-! ## The id of a packet -/

/-- The id in the header of a packet. -/
def Pkt.pktId (p : Pkt) : Byte := (MysqlHdr.ofBytes p.data).pktId

theorem Pkt.pktId_of_getElem? {p : Pkt} {id : Byte} (h : p.data[3]? = some id) : p.pktId = id := by
  rw [Pkt.pktId, MysqlHdr.ofBytes, getD_eq_getElem?_getD, h, Option.getD_some]

variable {xs : List Byte} {i off : Nat} {b : Byte}

theorem getElem?_overwrite_before {ys : List Byte} (h : xs[i]? = some b) (hi : i < off) :
    (overwrite xs off ys)[i]? = some b := by
  have hlt : i < xs.length := (List.getElem?_eq_some_iff.1 h).1
  have htake : i < (xs.take off).length := by
    rw [length_take]
    omega
  rw [overwrite, append_assoc, getElem?_append_left htake, getElem?_take, if_pos hi]
  exact h

theorem getElem?_header (data : List Byte) (hdr : MysqlHdr) :
    (overwrite data 0 hdr.toBytes)[3]? = some hdr.pktId := by
  have hlen : (leBytes 3 hdr.pktLength.toNat).length = 3 := length_leBytes 3 _
  rw [overwrite, take_zero, nil_append, MysqlHdr.toBytes, append_assoc,
    getElem?_append_right (by omega), hlen]
  rfl

theorem getElem?_writeencint_before (v : BitVec 64) (h : xs[i]? = some b) (hi : i < off) :
    (writeencint xs off v)[i]? = some b := by
  have hnext : i < off + 1 := Nat.lt_succ_of_lt hi
  unfold writeencint
  dsimp only
  split
  · exact getElem?_overwrite_before h hi
  · split
    · exact getElem?_overwrite_before (getElem?_overwrite_before h hi) hnext
    · split <;> exact getElem?_overwrite_before (getElem?_overwrite_before h hi) hnext

theorem getElem?_writeencstrnull_before {stack : Nat → Byte} (s : Option (List Byte)) (h : xs[i]? = some b)
    (hi : i < off) : (writeencstrnull stack xs off s).1[i]? = some b := by
  have hnext : i < off + 1 := Nat.lt_succ_of_lt hi
  cases s with
  | none => exact getElem?_overwrite_before h hi
  | some s =>
    refine getElem?_overwrite_before ?_ (Nat.lt_add_right _ hi)
    split
    · exact getElem?_overwrite_before h hi
    · split
      · exact getElem?_overwrite_before (getElem?_overwrite_before h hi) hnext
      · split
        · exact getElem?_overwrite_before h hi
        · exact getElem?_overwrite_before (getElem?_overwrite_before h hi) hnext

theorem getElem?_writeencstrnulls_before {stack : Nat → Byte} (ss : List (Option (List Byte)))
    (h : xs[i]? = some b) (hi : i < off) :
    (writeencstrnulls stack ss xs off).1[i]? = some b ∧ i < (writeencstrnulls stack ss xs off).2 := by
  induction ss generalizing xs off with
  | nil => exact ⟨h, hi⟩
  | cons s ss ih => exact ih (getElem?_writeencstrnull_before s h hi) (Nat.lt_add_right _ hi)

theorem pktId_myprotoEof (fill : Nat → Byte) (id : BitVec 32) (warningCount status : BitVec 16) :
    (myprotoEof fill id warningCount status).pktId = id.setWidth 8 := by
  refine Pkt.pktId_of_getElem? ?_
  have hhdr := getElem?_header (lAlloc fill 9) { pktLength := 5, pktId := id.setWidth 8 }
  exact getElem?_overwrite_before (getElem?_overwrite_before (getElem?_overwrite_before hhdr (by decide))
    (by decide)) (by decide)

theorem pktId_myprotoColumnCount (fill : Nat → Byte) (id : BitVec 32) (cnt : BitVec 64) :
    (myprotoColumnCount fill id cnt).pktId = id.setWidth 8 :=
  Pkt.pktId_of_getElem? (getElem?_writeencint_before cnt (getElem?_header _ _) (by decide))

theorem pktId_myprotoColumnDef (fill stack : Nat → Byte) (id : BitVec 32)
    (schema table orgTable name orgName : List Byte) (columnLength : BitVec 32) (columnType : BitVec 8)
    (flags : BitVec 16) (decimals : BitVec 8) :
    (myprotoColumnDef fill stack id schema table orgTable name orgName columnLength columnType flags
      decimals).pktId = id.setWidth 8 := by
  refine Pkt.pktId_of_getElem? ?_
  unfold myprotoColumnDef
  dsimp only
  generalize BitVec.ofNat 24 _ = pktLength
  have hhdr := getElem?_header (lAlloc fill (pktLength.toNat + sizeofMysqlHdr))
    { pktLength := pktLength, pktId := id.setWidth 8 }
  have hdef := @getElem?_overwrite_before _ 3 sizeofMysqlHdr _ [0x03, 0x64, 0x65, 0x66] hhdr (by decide)
  obtain ⟨hstrs, hi⟩ := @getElem?_writeencstrnulls_before _ 3 (sizeofMysqlHdr + 4) _ stack
    ([schema, table, orgTable, name, orgName].map some) hdef (by decide)
  -- six fixed fields follow the strings
  iterate 6 refine getElem?_overwrite_before ?_ (by omega)
  exact hstrs

end ProxySQL
