/-
  ProxySQL.Protocol.Decode

  The packets of the MySQL protocol as a client reads them: length-encoded
  integers and strings, the OK, EOF and ERR packets, the column count, and the
  two packets that carry a scramble.  Nothing here is taken from the code: these
  are the formats that what it builds is compared with.
-/
import ProxySQL.Lib.Decoder
import ProxySQL.Protocol.Packet

namespace ProxySQL

open Lib

/-! ## Length-encoded integers and strings -/

/-- A length-encoded integer: one byte below 251, or a tag and 2, 3 or 8 bytes. -/
def lenencInt : Decoder Nat := do
  let tag ← Decoder.le 1
  if tag < 251 then pure tag
  else if tag = 0xfc then Decoder.le 2
  else if tag = 0xfd then Decoder.le 3
  else if tag = 0xfe then Decoder.le 8
  else failure

/-- A length-encoded string. -/
def lenencStr : Decoder (List Byte) := do
  let n ← lenencInt
  Decoder.bytes n

/-- A length-encoded string, or `0xfb` for NULL. -/
def lenencStrNull : Decoder (Option (List Byte)) := fun bs =>
  if bs.head? = some 0xfb then some (none, bs.tail) else Decoder.step (some <$> lenencStr) bs

/-- The integers `encint` writes are read back, in each of the four widths. -/
theorem reads_lenencInt (v : BitVec 64) : Reads lenencInt (encint v) v.toNat := by
  -- a tag byte decides how many bytes follow
  have htag : ∀ (tag : Nat) (n : Nat), tag < 256 → v.toNat < 256 ^ n →
      (if tag < 251 then pure tag else if tag = 0xfc then Decoder.le 2 else if tag = 0xfd then Decoder.le 3
        else if tag = 0xfe then Decoder.le 8 else failure) = Decoder.le n →
      Reads lenencInt (leBytes 1 tag ++ leBytes n v.toNat) v.toNat := by
    intro tag n ht hn hnext
    refine Reads.bind (reads_le (by omega)) ?_
    rw [hnext]
    exact reads_le hn
  rcases encint_cases v with ⟨h1, _, he⟩ | ⟨_, h2, _, he⟩ | ⟨_, h3, _, he⟩ | ⟨_, _, he⟩
  · rw [he]
    have hread :=
      Reads.bind (f := fun tag => if tag < 251 then pure tag else if tag = 0xfc then Decoder.le 2
      else if tag = 0xfd then Decoder.le 3 else if tag = 0xfe then Decoder.le 8 else failure)
      (reads_le (n := 1) (v := v.toNat) (by omega)) (by rw [if_pos h1]; exact Reads.pure v.toNat)
    rwa [List.append_nil] at hread
  · rw [he]
    exact htag 0xfc 2 (by decide) (by omega) rfl
  · rw [he]
    exact htag 0xfd 3 (by decide) (by omega) rfl
  · rw [he]
    exact htag 0xfe 8 (by decide) (by omega) rfl

theorem reads_lenencStr {s : List Byte} (h : s.length < 2 ^ 64) :
    Reads lenencStr (encint (BitVec.ofNat 64 s.length) ++ s) s := by
  have hlen := reads_lenencInt (BitVec.ofNat 64 s.length)
  rw [BitVec.toNat_ofNat, Nat.mod_eq_of_lt h] at hlen
  exact hlen.bind (reads_bytes rfl)

theorem head?_encint_ne (v : BitVec 64) (bs : List Byte) : (encint v ++ bs).head? ≠ some 0xfb := by
  rcases encint_cases v with ⟨h1, _, he⟩ | ⟨_, _, _, he⟩ | ⟨_, _, _, he⟩ | ⟨_, _, he⟩
  · rw [he]
    intro h
    have hb : BitVec.ofNat 8 v.toNat = 0xfb := Option.some.inj h
    have hn := congrArg BitVec.toNat hb
    rw [BitVec.toNat_ofNat, Nat.mod_eq_of_lt (by omega)] at hn
    have h251 : (0xfb : Byte).toNat = 251 := rfl
    omega
  all_goals
    rw [he]
    intro h
    exact absurd (Option.some.inj h) (by decide)

theorem reads_lenencStrNull_none : Reads lenencStrNull [0xfb] none := by
  intro rest
  rfl

theorem reads_lenencStrNull_some {s : List Byte} (h : s.length < 2 ^ 64) :
    Reads lenencStrNull (encint (BitVec.ofNat 64 s.length) ++ s) (some s) := by
  intro rest
  have hread := ((reads_lenencStr h).map some) rest
  have hne := head?_encint_ne (BitVec.ofNat 64 s.length) (s ++ rest)
  show (if _ then _ else _) = _
  rw [if_neg (by rw [List.append_assoc]; exact hne)]
  exact hread

/-! ## Packets -/

theorem MysqlHdr.ofBytes_toBytes_append (h : MysqlHdr) (bs : List Byte) :
    MysqlHdr.ofBytes (h.toBytes ++ bs) = h := by
  have hlen : (leBytes 3 h.pktLength.toNat).length = 3 := length_leBytes 3 _
  have htake : (h.toBytes ++ bs).take 3 = leBytes 3 h.pktLength.toNat := by
    exact List.take_left' hlen
  have hid : (h.toBytes ++ bs).getD 3 0 = h.pktId := by
    rfl
  rw [MysqlHdr.ofBytes, htake, hid, leNat_leBytes_of_lt h.pktLength.isLt, BitVec.ofNat_toNat,
    BitVec.setWidth_eq]

/-- What follows the header. -/
def Pkt.payload (p : Pkt) : List Byte := p.data.drop sizeofMysqlHdr

/-- An OK packet. -/
structure OkPacket where
  affectedRows : Nat
  lastInsertId : Nat
  status : Nat
  warnings : Nat
deriving DecidableEq

def okPacket : Decoder OkPacket := do
  Decoder.tag [0x00]
  let affectedRows ← lenencInt
  let lastInsertId ← lenencInt
  let status ← Decoder.le 2
  let warnings ← Decoder.le 2
  pure { affectedRows, lastInsertId, status, warnings }

/-- An EOF packet. -/
structure EofPacket where
  warnings : Nat
  status : Nat
deriving DecidableEq

def eofPacket : Decoder EofPacket := do
  Decoder.tag [0xfe]
  let warnings ← Decoder.le 2
  let status ← Decoder.le 2
  pure { warnings, status }

/-- An ERR packet; a SQL state belongs to its text. -/
structure ErrPacket where
  code : Nat
  text : List Byte
deriving DecidableEq

def errPacket : Decoder ErrPacket := do
  Decoder.tag [0xff]
  let code ← Decoder.le 2
  let text ← Decoder.rest
  pure { code, text }

/-- The request to authenticate with another method. -/
structure AuthSwitchRequest where
  plugin : List Byte
  scramble : List Byte
deriving DecidableEq

def authSwitchRequest : Decoder AuthSwitchRequest := do
  Decoder.tag [0xfe]
  let plugin ← Decoder.cString
  let scramble ← Decoder.bytes 20
  Decoder.tag [0x00]
  pure { plugin, scramble }

/-- The initial handshake, protocol version 10. -/
structure Handshake where
  protocolVersion : Nat
  serverVersion : List Byte
  threadId : Nat
  capabilities : Nat
  language : Nat
  status : Nat
  scramble : List Byte
  plugin : List Byte
deriving DecidableEq

/-- The scramble is in two parts, the second of a length that is announced and
    with a NUL at its end. -/
def handshake : Decoder Handshake := do
  let protocolVersion ← Decoder.le 1
  let serverVersion ← Decoder.cString
  let threadId ← Decoder.le 4
  let part1 ← Decoder.bytes 8
  Decoder.tag [0x00]
  let lower ← Decoder.le 2
  let language ← Decoder.le 1
  let status ← Decoder.le 2
  let upper ← Decoder.le 2
  let length ← Decoder.le 1
  let _ ← Decoder.bytes 10
  let part2 ← Decoder.bytes (max 13 (length - 8) - 1)
  Decoder.tag [0x00]
  let plugin ← Decoder.cString
  pure
    { protocolVersion := protocolVersion, serverVersion := serverVersion, threadId := threadId,
      capabilities := lower + 65536 * upper, language := language, status := status,
      scramble := part1 ++ part2, plugin := plugin }

end ProxySQL
