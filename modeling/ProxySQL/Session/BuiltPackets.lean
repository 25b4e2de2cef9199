/-
  ProxySQL.Session.BuiltPackets

  The packets that the proxy builds itself, against the protocol.

  A builder computes the length of its packet first and then lays out the fields
  in a block of that size, with running offsets.  `Builds` says that the two
  passes agree: the header announces what the block holds, no byte of the block
  keeps its old contents, none is written behind it, and the protocol reads the
  arguments back from it.

  The packets of an authentication were given as lists of their fields in
  `Session.Auth`; here they are laid out in their blocks, as the code does.
-/
import ProxySQL.Protocol.Decode
import ProxySQL.Protocol.ResultSet
import ProxySQL.Protocol.StatusFlags
import ProxySQL.Session.Auth

namespace ProxySQL

open Lib List

/-! ## The code -/

/-- `l_alloc0`. -/
def lAlloc0 (fill : Nat → Byte) (n : Nat) : List Byte := overwrite (lAlloc fill n) 0 (replicate n 0)

/-- `create_ok_packet`, in a block with the contents `fill`. -/
def createOkPacketIn (fill : Nat → Byte) (id : BitVec 32) : Pkt :=
  let myhdr : MysqlHdr := { pktLength := 7, pktId := id.setWidth 8 }
  let length := myhdr.pktLength.toNat + sizeofMysqlHdr
  let data := lAlloc fill length
  let data := overwrite data 0 myhdr.toBytes
  let data := overwrite data sizeofMysqlHdr [0x00, 0x00, 0x00, 0x02, 0x00, 0x00, 0x00]
  { length := length, data := data }

/-- `create_err_packet`, in a block with the contents `fill`. -/
def createErrPacketIn (fill : Nat → Byte) (id : BitVec 32) (errcode : BitVec 16) (errstr : Str) : Pkt :=
  let myhdr : MysqlHdr := { pktLength := BitVec.ofNat 24 (3 + errstr.length), pktId := id.setWidth 8 }
  let length := myhdr.pktLength.toNat + sizeofMysqlHdr
  let data := lAlloc fill length
  let data := overwrite data 0 myhdr.toBytes
  let data := overwrite data sizeofMysqlHdr [0xff]
  let data := overwrite data (sizeofMysqlHdr + 1) (leBytes 2 errcode.toNat)
  let data := overwrite data (sizeofMysqlHdr + 3) errstr
  { length := length, data := data }

/-- The name of the one authentication method. -/
def mysqlNativePassword : Str := bytesOf "mysql_native_password"

/-- `create_auth_switch_request_packet`, in a block with the contents `fill`. -/
def createAuthSwitchRequestPacketIn (fill : Nat → Byte) (scrambleBuf : List Byte) : Pkt :=
  let myhdr : MysqlHdr :=
    { pktLength := BitVec.ofNat 24 (1 + (mysqlNativePassword.length + 1) + 20 + 1), pktId := 1 }
  let length := myhdr.pktLength.toNat + sizeofMysqlHdr
  let data := lAlloc0 fill length
  let data := overwrite data 0 myhdr.toBytes
  let cur := sizeofMysqlHdr
  let data := overwrite data cur [0xfe]
  let cur := cur + 1
  let data := overwrite data cur mysqlNativePassword
  let cur := cur + mysqlNativePassword.length
  let data := overwrite data cur [0x00]
  let cur := cur + 1
  let data := overwrite data cur (slice scrambleBuf 0 20)
  let cur := cur + 20
  let data := overwrite data cur [0x00]
  { length := length, data := data }

/-- `proxy_create_random_string` into `buf` at `off`. -/
def proxyCreateRandomString (buf : List Byte) (off : Nat) (random : List Byte) : List Byte :=
  overwrite (overwrite buf off random) (off + random.length) [0x00]

/-- The loop that makes every zero of `scramble_buf` at the positions `[a, b)` an `a`. -/
def replaceZeros (buf : List Byte) (a b : Nat) : List Byte := overwrite buf a (scrambleOf (slice buf a b))

/-- `create_handshake_packet`, in a block with the contents `fill`, with the scramble buffer it leaves.
    `random1` and `random2` are the characters that `proxy_create_random_string` draws. -/
def createHandshakePacketIn (fill : Nat → Byte) (g : Glovars) (threadId : BitVec 32)
    (random1 random2 scrambleBuf : List Byte) : Pkt × List Byte :=
  let version := g.mysqlServerVersion
  let myhdr : MysqlHdr :=
    { pktLength := BitVec.ofNat 24 (1 + (version.length + 1) + 4 + 8 + 1 + 2 + 1 + 2 + 3 + 10 + 12 + 1
        + (mysqlNativePassword.length + 1)),
      pktId := 0 }
  let length := myhdr.pktLength.toNat + sizeofMysqlHdr
  let data := lAlloc0 fill length
  let data := overwrite data 0 myhdr.toBytes
  let l := sizeofMysqlHdr
  let data := overwrite data l [g.protocolVersion]
  let l := l + 1
  let data := overwrite data l version
  let l := l + (version.length + 1)
  let data := overwrite data l (leBytes 4 threadId.toNat)
  let l := l + 4
  let scrambleBuf := proxyCreateRandomString scrambleBuf 0 random1
  let scrambleBuf := replaceZeros scrambleBuf 0 8
  let data := overwrite data l (slice scrambleBuf 0 8)
  let l := l + 8
  let l := l + 1
  let data := overwrite data l (leBytes 2 g.serverCapabilities)
  let l := l + 2
  let data := overwrite data l [g.serverLanguage]
  let l := l + 1
  let data := overwrite data l (leBytes 2 g.serverStatus)
  let l := l + 2
  let data := overwrite data l [0x0f, 0x80, 0x15]
  let l := l + 3
  let l := l + 10
  let scrambleBuf := proxyCreateRandomString scrambleBuf 8 random2
  let scrambleBuf := replaceZeros scrambleBuf 8 20
  let data := overwrite data l (slice scrambleBuf 8 20)
  let l := l + 12
  let l := l + 1
  let data := overwrite data l mysqlNativePassword
  ({ length := length, data := data }, scrambleBuf)

/-! ## Blocks filled with their fields -/

theorem lAlloc0_eq (fill : Nat → Byte) (n : Nat) : lAlloc0 fill n = replicate n 0 :=
  overwrite_all (by simp)

variable {n : Nat} {scrambleBuf random1 random2 : List Byte}

theorem slice_replicate {a k : Nat} (h : a + k ≤ n) :
    slice (replicate n (0 : Byte)) a (a + k) = replicate k 0 := by
  rw [slice, drop_replicate, take_replicate]
  congr 1
  omega

theorem overwrite_zeros {i : Nat} {ys zs : List Byte} (k : Nat) (hi : ys.length + k = i)
    (h : i + zs.length ≤ n) : overwrite (overwrite (replicate n 0) 0 ys) i zs
      = overwrite (replicate n 0) 0 (ys ++ replicate k 0 ++ zs) := by
  subst hi
  rw [overwrite_skip rfl (by rw [length_replicate]; exact h), slice_replicate (by omega)]

theorem overwrite_zeros_last {k : Nat} {ys : List Byte} (h : ys.length + k = n) :
    overwrite (replicate n 0) 0 ys = ys ++ replicate k 0 := by
  rw [overwrite, take_zero, nil_append, drop_replicate]
  congr 2
  omega

theorem length_mysqlNativePassword : mysqlNativePassword.length = 21 := by decide

theorem createErrPacketIn_eq (fill : Nat → Byte) (id : BitVec 32) (errcode : BitVec 16) {errstr : Str}
    (h : 3 + errstr.length < 2 ^ 24) :
    createErrPacketIn fill id errcode errstr = createErrPacket id.toNat errcode.toNat errstr := by
  have hlen : (BitVec.ofNat 24 (3 + errstr.length)).toNat = 3 + errstr.length := by
    rw [BitVec.toNat_ofNat, Nat.mod_eq_of_lt h]
  have hid : id.setWidth 8 = BitVec.ofNat 8 id.toNat := rfl
  simp only [createErrPacketIn, createErrPacket, sizeofMysqlHdr, hid, hlen, Pkt.mk.injEq, true_and]
  rw [overwrite_next (by simp) (by simp; omega), overwrite_next (by simp) (by simp),
    overwrite_next (by simp) (by simp; omega), overwrite_all (by simp; omega)]

theorem createAuthSwitchRequestPacketIn_eq (fill : Nat → Byte) (h : 20 ≤ scrambleBuf.length) :
    createAuthSwitchRequestPacketIn fill scrambleBuf = createAuthSwitchRequestPacket scrambleBuf := by
  have hpw := length_mysqlNativePassword
  have hlen : (BitVec.ofNat 24 (1 + (21 + 1) + 20 + 1)).toNat = 44 := rfl
  have hscr : (slice scrambleBuf 0 20).length = 20 := length_slice h
  have hhdr : (⟨BitVec.ofNat 24 (1 + (21 + 1) + 20 + 1), 1⟩ : MysqlHdr) = ⟨44, 1⟩ := rfl
  simp only [createAuthSwitchRequestPacketIn, createAuthSwitchRequestPacket, sizeofMysqlHdr, hpw,
    hlen, hhdr, Pkt.mk.injEq, true_and]
  rw [lAlloc0_eq, overwrite_next (by simp) (by simp), overwrite_next (by simp) (by simp [hpw]),
    overwrite_next (by simp [hpw]) (by simp), overwrite_next (by simp [hpw]) (by simp [hscr]),
    overwrite_next (by simp [hpw, hscr]) (by simp), overwrite_all (by simp [hpw, hscr])]
  simp only [slice, drop_zero, Nat.sub_zero, mysqlNativePassword]

/-- Random characters drawn into the middle of the scramble buffer, without zeros. -/
theorem drawScramble {as bs random cs : List Byte} {b : Byte} {i j : Nat} (hi : as.length = i)
    (hlen : random.length = bs.length) (hj : i + bs.length = j) :
    replaceZeros (proxyCreateRandomString (as ++ bs ++ b :: cs) i random) i j
      = as ++ scrambleOf random ++ 0 :: cs := by
  have hstr : proxyCreateRandomString (as ++ bs ++ b :: cs) i random = as ++ random ++ 0 :: cs := by
    have hend : (as ++ random).length = i + random.length := by rw [length_append, hi]
    have hnul : overwrite (as ++ random ++ [b] ++ cs) (i + random.length) [0] = as ++ random ++ [0] ++ cs :=
      overwrite_middle hend rfl
    rw [proxyCreateRandomString, overwrite_middle hi hlen]
    simpa only [append_assoc, singleton_append] using hnul
  rw [hstr, replaceZeros, slice_middle hi (by omega),
    overwrite_middle hi (by rw [scrambleOf, length_map])]

theorem length_scrambleOf (random : List Byte) : (scrambleOf random).length = random.length := length_map _

/-- The two draws of a handshake: each half is as it goes into the packet, and stays. -/
theorem drawScramble_halves (h1 : random1.length = 8) (h2 : random2.length = 12)
    (hbuf : scrambleBuf.length = 21) {half both : List Byte}
    (hhalf : half = replaceZeros (proxyCreateRandomString scrambleBuf 0 random1) 0 8)
    (hboth : both = replaceZeros (proxyCreateRandomString half 8 random2) 8 20) :
    slice half 0 8 = scrambleOf random1 ∧ slice both 8 20 = scrambleOf random2 ∧
      both = scrambleOf (random1 ++ random2) ++ [0] := by
  have hs1 := (length_scrambleOf random1).trans h1
  have hs2 := (length_scrambleOf random2).trans h2
  -- the buffer is eight bytes, one more that takes the NUL of the first draw, and twelve
  have hbuf8 : 8 < scrambleBuf.length := by omega
  have hsplit : scrambleBuf = [] ++ scrambleBuf.take 8 ++ scrambleBuf[8] :: scrambleBuf.drop 9 := by
    rw [← drop_eq_getElem_cons hbuf8, nil_append, take_append_drop]
  have htake : (scrambleBuf.take 8).length = 8 := by
    rw [length_take]
    omega
  have hfirst : half = scrambleOf random1 ++ 0 :: scrambleBuf.drop 9 := by
    have hdraw := @drawScramble [] (scrambleBuf.take 8) random1 (scrambleBuf.drop 9) scrambleBuf[8] 0 8 rfl
      (by omega) (by omega)
    rw [← hsplit] at hdraw
    exact hhalf.trans hdraw
  -- for the second draw it is the first half, twelve bytes, and the last one
  have hne : (0 : Byte) :: scrambleBuf.drop 9 ≠ [] := cons_ne_nil _ _
  have hlast : half = scrambleOf random1 ++ ((0 : Byte) :: scrambleBuf.drop 9).dropLast
      ++ [((0 : Byte) :: scrambleBuf.drop 9).getLast hne] := by
    rw [hfirst, append_assoc, dropLast_append_getLast]
  have hdrop : ((0 : Byte) :: scrambleBuf.drop 9).dropLast.length = 12 := by
    rw [length_dropLast, length_cons, length_drop]
    omega
  have hsecond : both = scrambleOf random1 ++ scrambleOf random2 ++ [0] := by
    rw [hboth, hlast]
    exact drawScramble hs1 (by omega) (by omega)
  refine ⟨?_, ?_, ?_⟩
  · rw [hfirst]
    exact @slice_middle _ 0 [] (scrambleOf random1) _ 8 rfl (by omega)
  · rw [hsecond]
    exact slice_middle hs1 (by omega)
  · rw [hsecond, scrambleOf, scrambleOf, scrambleOf, map_append]

theorem slice_scrambleOf (h1 : random1.length = 8) (h2 : random2.length = 12) :
    slice (scrambleOf (random1 ++ random2)) 0 8 = scrambleOf random1 ∧
      slice (scrambleOf (random1 ++ random2)) 8 20 = scrambleOf random2 := by
  have hboth : scrambleOf (random1 ++ random2) = scrambleOf random1 ++ scrambleOf random2 := map_append
  have hs1 := (length_scrambleOf random1).trans h1
  have hs2 := (length_scrambleOf random2).trans h2
  constructor
  · rw [hboth]
    exact @slice_middle _ 0 [] (scrambleOf random1) (scrambleOf random2) 8 rfl (by omega)
  · have h := @slice_middle _ 8 (scrambleOf random1) (scrambleOf random2) [] 20 hs1 (by omega)
    rwa [append_nil, ← hboth] at h

/-- The handshake is laid out as `createHandshakePacket` says, and the scramble buffer keeps what it
    carries. -/
theorem createHandshakePacketIn_eq (fill : Nat → Byte) (g : Glovars) (threadId : BitVec 32)
    (h1 : random1.length = 8) (h2 : random2.length = 12)
    (hbuf : scrambleBuf.length = 21) (hver : 68 + g.mysqlServerVersion.length < 2 ^ 24) :
    createHandshakePacketIn fill g threadId random1 random2 scrambleBuf
      = (createHandshakePacket g threadId.toNat (scrambleOf (random1 ++ random2)),
          scrambleOf (random1 ++ random2) ++ [0]) := by
  have hpw := length_mysqlNativePassword
  have hs1 := (length_scrambleOf random1).trans h1
  have hs2 := (length_scrambleOf random2).trans h2
  have hsum : 1 + (g.mysqlServerVersion.length + 1) + 4 + 8 + 1 + 2 + 1 + 2 + 3 + 10 + 12 + 1 + (21 + 1)
      = 68 + g.mysqlServerVersion.length := by omega
  have hlen : (BitVec.ofNat 24 (68 + g.mysqlServerVersion.length)).toNat =
    68 + g.mysqlServerVersion.length := by
    rw [BitVec.toNat_ofNat, Nat.mod_eq_of_lt hver]
  obtain ⟨hhalf, hboth, hkept⟩ := drawScramble_halves h1 h2 hbuf rfl rfl
  obtain ⟨hpart1, hpart2⟩ := slice_scrambleOf h1 h2
  simp only [createHandshakePacketIn, createHandshakePacket, sizeofMysqlHdr, hpw, hsum, hlen, hhalf,
    hboth, hpart1, hpart2, lAlloc0_eq, Prod.mk.injEq, Pkt.mk.injEq, true_and]
  refine ⟨?_, hkept⟩
  -- field by field; the NULs and the filler are zeros of the fresh block
  generalize hn : 68 + g.mysqlServerVersion.length + 4 = n
  generalize g.mysqlServerVersion = version at hn
  rw [overwrite_next (by simp) (by simp; omega), overwrite_next (by simp) (by simp; omega),
    overwrite_zeros 1 (by simp; omega) (by simp; omega), overwrite_next (by simp; omega) (by simp; omega),
    overwrite_zeros 1 (by simp; omega) (by simp; omega), overwrite_next (by simp; omega) (by simp; omega),
    overwrite_next (by simp; omega) (by simp; omega), overwrite_next (by simp; omega) (by simp; omega),
    overwrite_zeros 10 (by simp; omega) (by simp; omega),
    overwrite_zeros 1 (by simp; omega) (by simp; omega), overwrite_zeros_last (k := 1) (by simp; omega)]
  simp only [mysqlNativePassword, append_assoc, replicate_one]

theorem myprotoColumnCount_eq (fill : Nat → Byte) (id : BitVec 32) (cnt : BitVec 64) :
    myprotoColumnCount fill id cnt =
      { length := lencint cnt + 4,
        data := (⟨BitVec.ofNat 24 (lencint cnt), id.setWidth 8⟩ : MysqlHdr).toBytes ++ encint cnt } := by
  have h9 := lencint_le_nine cnt
  have hlen : (BitVec.ofNat 24 (lencint cnt)).toNat = lencint cnt := by
    rw [BitVec.toNat_ofNat, Nat.mod_eq_of_lt (by omega)]
  simp only [myprotoColumnCount, sizeofMysqlHdr, hlen, Pkt.mk.injEq, true_and]
  rw [writeencint_next (by simp) (by simp; omega), overwrite_all (by simp [length_encint]; omega)]

/-! ## What the protocol reads from the fields -/

theorem reads_okPacket (affectedRows lastInsertId : BitVec 64) (status warnings : BitVec 16) :
    Reads okPacket
      ([0x00] ++ (encint affectedRows ++
        (encint lastInsertId ++ (leBytes 2 status.toNat ++ leBytes 2 warnings.toNat))))
      ⟨affectedRows.toNat, lastInsertId.toNat, status.toNat, warnings.toNat⟩ := by
  refine (reads_tag _).bind ?_
  refine (reads_lenencInt affectedRows).bind ?_
  refine (reads_lenencInt lastInsertId).bind ?_
  refine (reads_le status.isLt).bind ?_
  exact (reads_le warnings.isLt).done

theorem reads_eofPacket (warnings status : BitVec 16) :
    Reads eofPacket ([0xfe] ++ (leBytes 2 warnings.toNat ++ leBytes 2 status.toNat))
      ⟨warnings.toNat, status.toNat⟩ := by
  refine (reads_tag _).bind ?_
  refine (reads_le warnings.isLt).bind ?_
  exact (reads_le status.isLt).done

theorem decode_errPacket (errcode : BitVec 16) (errstr : Str) :
    errPacket.decode ([0xff] ++ (leBytes 2 errcode.toNat ++ errstr)) = some ⟨errcode.toNat, errstr⟩ := by
  refine (reads_tag _).decode_bind ?_
  refine (reads_le errcode.isLt).decode_bind ?_
  rfl

theorem zero_not_mem_mysqlNativePassword : (0 : Byte) ∉ mysqlNativePassword := by decide

theorem reads_authSwitchRequest {scramble : List Byte} (h : scramble.length = 20) :
    Reads authSwitchRequest ([0xfe] ++ ((mysqlNativePassword ++ [0x00]) ++ (scramble ++ [0x00])))
      ⟨mysqlNativePassword, scramble⟩ := by
  refine (reads_tag _).bind ?_
  refine (reads_cString zero_not_mem_mysqlNativePassword).bind ?_
  refine (reads_bytes h).bind ?_
  exact (reads_tag _).done

/-- What a client learns from the handshake. -/
def handshakeOf (g : Glovars) (threadId : BitVec 32) (scramble : List Byte) : Handshake :=
  { protocolVersion := g.protocolVersion.toNat, serverVersion := g.mysqlServerVersion,
    threadId := threadId.toNat,
    capabilities := g.serverCapabilities % 65536 + 65536 * 0x800f, language := g.serverLanguage.toNat,
    status := g.serverStatus % 65536, scramble := scramble, plugin := mysqlNativePassword }

theorem leBytes_mod (n v : Nat) : leBytes n (v % 256 ^ n) = leBytes n v := by
  have h := leBytes_leNat (leBytes n v)
  rwa [length_leBytes, leNat_leBytes] at h

theorem reads_le_mod (n v : Nat) : Reads (Decoder.le n) (leBytes n v) (v % 256 ^ n) := by
  have h := reads_le (Nat.mod_lt v (Nat.pow_pos (by decide : 0 < 256)) : v % 256 ^ n < 256 ^ n)
  rwa [leBytes_mod] at h

theorem reads_byte (b : Byte) : Reads (Decoder.le 1) [b] b.toNat := by
  have h := reads_le (n := 1) b.isLt
  rwa [leBytes, leBytes, BitVec.ofNat_toNat, BitVec.setWidth_eq] at h

theorem reads_handshake {g : Glovars} (threadId : BitVec 32) {part1 part2 : List Byte}
    (h1 : part1.length = 8) (h2 : part2.length = 12) (hnul : 0 ∉ g.mysqlServerVersion) :
    Reads handshake
      ([g.protocolVersion] ++ ((g.mysqlServerVersion ++ [0x00]) ++ (leBytes 4 threadId.toNat ++ (part1 ++
        ([0x00] ++ (leBytes 2 g.serverCapabilities ++ ([g.serverLanguage] ++ (leBytes 2 g.serverStatus ++
        ([0x0f, 0x80] ++ ([0x15] ++ (replicate 10 0 ++ (part2 ++ ([0x00] ++
        (mysqlNativePassword ++ [0x00]))))))))))))))
      (handshakeOf g threadId (part1 ++ part2)) := by
  refine (reads_byte _).bind ?_
  refine (reads_cString hnul).bind ?_
  refine (reads_le threadId.isLt).bind ?_
  refine (reads_bytes h1).bind ?_
  refine (reads_tag _).bind ?_
  refine (reads_le_mod 2 g.serverCapabilities).bind ?_
  refine (reads_byte _).bind ?_
  refine (reads_le_mod 2 g.serverStatus).bind ?_
  refine (reads_le (v := 0x800f) (by decide : 0x800f < 256 ^ 2)).bind ?_
  refine (reads_byte 0x15).bind ?_
  refine (reads_bytes length_replicate).bind ?_
  refine (reads_bytes (by rw [h2]; rfl)).bind ?_
  refine (reads_tag _).bind ?_
  exact (reads_cString zero_not_mem_mysqlNativePassword).done

/-! ## The built packets -/

/-- What a builder makes of its arguments, whatever its block held before. -/
structure Builds {α : Type} (build : (Nat → Byte) → Pkt) (id : Byte) (d : Decoder α) (a : α) : Prop where
  /-- the length is what the header announces, and the header -/
  announced : ∀ fill, (build fill).length = (MysqlHdr.ofBytes (build fill).data).pktLength.toNat +
    sizeofMysqlHdr
  /-- nothing is written behind the block -/
  inside : ∀ fill, (build fill).data.length = (build fill).length
  /-- no byte of the block keeps its old contents -/
  written : ∀ fill fill', (build fill).data = (build fill').data
  numbered : ∀ fill, (build fill).pktId = id
  decoded : ∀ fill, d.decode (build fill).payload = some a

theorem Builds.of_fields {α : Type} {build : (Nat → Byte) → Pkt} {id : Byte} {d : Decoder α} {a : α}
    (payload : List Byte) (hlen : payload.length < 2 ^ 24)
    (hbuild : ∀ fill, build fill
      = { length := payload.length + 4,
          data := (⟨BitVec.ofNat 24 payload.length, id⟩ : MysqlHdr).toBytes ++ payload })
    (hdecode : d.decode payload = some a) : Builds build id d a := by
  have hnum : (BitVec.ofNat 24 payload.length).toNat = payload.length := by
    rw [BitVec.toNat_ofNat, Nat.mod_eq_of_lt hlen]
  have hhdr : MysqlHdr.ofBytes ((⟨BitVec.ofNat 24 payload.length, id⟩ : MysqlHdr).toBytes ++ payload)
      = ⟨BitVec.ofNat 24 payload.length, id⟩ := MysqlHdr.ofBytes_toBytes_append _ _
  refine ⟨?_, ?_, ?_, ?_, ?_⟩
  · intro fill
    rw [hbuild, hhdr, hnum]
    rfl
  · intro fill
    rw [hbuild]
    rw [length_append, MysqlHdr.length_toBytes, Nat.add_comm]
  · intro fill fill'
    rw [hbuild, hbuild]
  · intro fill
    rw [hbuild, Pkt.pktId, hhdr]
  · intro fill
    rw [hbuild, Pkt.payload, sizeofMysqlHdr, ← MysqlHdr.length_toBytes ⟨BitVec.ofNat 24 payload.length, id⟩,
      drop_left]
    exact hdecode

theorem builds_myprotoOkPkt (id : BitVec 32) (affectedRows lastInsertId : BitVec 64)
    (status warnings : BitVec 16) :
    Builds (fun fill => myprotoOkPkt fill id affectedRows lastInsertId status warnings)
      (id.setWidth 8) okPacket ⟨affectedRows.toNat, lastInsertId.toNat, status.toNat, warnings.toNat⟩ := by
  have hlen : (0x00 :: okBody affectedRows lastInsertId status warnings).length
      = 1 + lencint affectedRows + lencint lastInsertId + 4 := by
    rw [length_cons, length_okBody]
    omega
  -- the sums in the 24 bits of the header do not overflow
  have hnum := okHdr_pktLength id affectedRows lastInsertId
  have hhdr : okHdr id affectedRows lastInsertId
      = ⟨BitVec.ofNat 24 (0x00 :: okBody affectedRows lastInsertId status warnings).length,
        id.setWidth 8⟩ := by
    rw [hlen, ← hnum, BitVec.ofNat_toNat, BitVec.setWidth_eq]
    rfl
  refine Builds.of_fields (0x00 :: okBody affectedRows lastInsertId status warnings) (by omega) ?_ ?_
  · intro fill
    rw [myprotoOkPkt_eq, hnum, ← hlen, hhdr]
  · have hread := (reads_okPacket affectedRows lastInsertId status warnings).decode
    simpa only [okBody, append_assoc, singleton_append] using hread

theorem builds_myprotoColumnCount (id : BitVec 32) (cnt : BitVec 64) :
    Builds (fun fill => myprotoColumnCount fill id cnt) (id.setWidth 8) lenencInt cnt.toNat := by
  have h9 := lencint_le_nine cnt
  refine Builds.of_fields (encint cnt) ?_ ?_ (reads_lenencInt cnt).decode
  · rw [length_encint]
    omega
  · intro fill
    rw [myprotoColumnCount_eq, length_encint]

theorem builds_myprotoEof (id : BitVec 32) (warnings status : BitVec 16) :
    Builds (fun fill => myprotoEof fill id warnings status) (id.setWidth 8) eofPacket
      ⟨warnings.toNat, status.toNat⟩ := by
  refine Builds.of_fields _ ?_ ?_ (reads_eofPacket warnings status).decode
  · simp
  · intro fill
    rfl

theorem builds_createOkPacketIn (id : BitVec 32) :
    Builds (fun fill => createOkPacketIn fill id) (id.setWidth 8) okPacket ⟨0, 0, 2, 0⟩ := by
  refine Builds.of_fields _ (by decide) ?_ (reads_okPacket 0 0 2 0).decode
  intro fill
  rfl

theorem builds_createErrPacketIn (id : BitVec 32) (errcode : BitVec 16) {errstr : Str}
    (h : 3 + errstr.length < 2 ^ 24) :
    Builds (fun fill => createErrPacketIn fill id errcode errstr) (id.setWidth 8) errPacket
      ⟨errcode.toNat, errstr⟩ := by
  have hlen : ([0xff] ++ (leBytes 2 errcode.toNat ++ errstr)).length = 3 + errstr.length := by
    rw [length_append, length_append, length_leBytes, length_singleton]
    omega
  have hnum : (BitVec.ofNat 24 (3 + errstr.length)).toNat = 3 + errstr.length := by
    rw [BitVec.toNat_ofNat, Nat.mod_eq_of_lt h]
  refine Builds.of_fields _ (by rw [hlen]; exact h) ?_ (decode_errPacket errcode errstr)
  intro fill
  rw [createErrPacketIn_eq fill id errcode h, hlen]
  simp only [createErrPacket, hnum, sizeofMysqlHdr, append_assoc]
  rfl

theorem builds_createAuthSwitchRequestPacketIn (h : 20 ≤ scrambleBuf.length) :
    Builds (fun fill => createAuthSwitchRequestPacketIn fill scrambleBuf) 1 authSwitchRequest
      ⟨mysqlNativePassword, scrambleBuf.take 20⟩ := by
  have htake : (scrambleBuf.take 20).length = 20 := by
    rw [length_take]
    omega
  have hlen : ([0xfe] ++ ((mysqlNativePassword ++ [0x00]) ++ (scrambleBuf.take 20 ++ [0x00]))).length =
    44 := by
    simp only [length_append, length_singleton, htake, length_mysqlNativePassword]
  refine Builds.of_fields _ (by rw [hlen]; decide) ?_ (reads_authSwitchRequest htake).decode
  intro fill
  rw [createAuthSwitchRequestPacketIn_eq fill h, hlen]
  rfl

theorem builds_createHandshakePacket {g : Glovars} (threadId : BitVec 32) {scramble : List Byte}
    (hscramble : scramble.length = 20) (hver : 68 + g.mysqlServerVersion.length < 2 ^ 24)
    (hnul : 0 ∉ g.mysqlServerVersion) :
    Builds (fun _ => createHandshakePacket g threadId.toNat scramble) 0 handshake
      (handshakeOf g threadId scramble) := by
  have h1 : (slice scramble 0 8).length = 8 := length_slice (by omega)
  have h2 : (slice scramble 8 20).length = 12 := length_slice (by omega)
  have hboth : slice scramble 0 8 ++ slice scramble 8 20 = scramble := by
    rw [slice_append_slice (by decide) (by decide), ← hscramble, slice_zero_length]
  have hnum : (BitVec.ofNat 24 (68 + g.mysqlServerVersion.length)).toNat =
    68 + g.mysqlServerVersion.length := by
    rw [BitVec.toNat_ofNat, Nat.mod_eq_of_lt hver]
  have hread := reads_handshake threadId h1 h2 hnul
  rw [hboth] at hread
  have hlen : ([g.protocolVersion] ++ ((g.mysqlServerVersion ++ [0x00]) ++ (leBytes 4 threadId.toNat ++
      (slice scramble 0 8 ++ ([0x00] ++ (leBytes 2 g.serverCapabilities ++ ([g.serverLanguage] ++
      (leBytes 2 g.serverStatus ++ ([0x0f, 0x80] ++ ([0x15] ++ (replicate 10 0 ++ (slice scramble 8 20 ++
      ([0x00] ++ (mysqlNativePassword ++ [0x00])))))))))))))).length =
        68 + g.mysqlServerVersion.length := by
    simp only [length_append, length_cons, length_nil, length_replicate, length_leBytes, h1, h2,
      length_mysqlNativePassword]
    omega
  refine Builds.of_fields _ (by rw [hlen]; exact hver) ?_ hread.decode
  intro fill
  rw [hlen]
  simp only [createHandshakePacket, hnum, sizeofMysqlHdr, mysqlNativePassword, append_assoc, cons_append,
    nil_append]

/-- Every packet that the proxy builds is well formed, is written completely and not beyond its end, and
    carries its arguments. -/
theorem builtPackets_decode (id : BitVec 32) (affectedRows lastInsertId cnt : BitVec 64)
    (status warnings errcode : BitVec 16) (errstr : Str) (g : Glovars) (threadId : BitVec 32)
    (random1 random2 scrambleBuf : List Byte) (herr : 3 + errstr.length < 2 ^ 24)
    (hver : 68 + g.mysqlServerVersion.length < 2 ^ 24) (hnul : 0 ∉ g.mysqlServerVersion)
    (h1 : random1.length = 8) (h2 : random2.length = 12) (hbuf : scrambleBuf.length = 21) :
    Builds (fun fill => myprotoOkPkt fill id affectedRows lastInsertId status warnings)
        (id.setWidth 8) okPacket ⟨affectedRows.toNat, lastInsertId.toNat, status.toNat, warnings.toNat⟩ ∧
      Builds (fun fill => myprotoColumnCount fill id cnt) (id.setWidth 8) lenencInt cnt.toNat ∧
      Builds (fun fill => myprotoEof fill id warnings status) (id.setWidth 8) eofPacket
        ⟨warnings.toNat, status.toNat⟩ ∧
      Builds (fun fill => createOkPacketIn fill id) (id.setWidth 8) okPacket ⟨0, 0, 2, 0⟩ ∧
      Builds (fun fill => createErrPacketIn fill id errcode errstr) (id.setWidth 8) errPacket
        ⟨errcode.toNat, errstr⟩ ∧
      Builds (fun fill => createAuthSwitchRequestPacketIn fill scrambleBuf) 1 authSwitchRequest
        ⟨mysqlNativePassword, scrambleBuf.take 20⟩ ∧
      ∃ kept, (∀ fill, (createHandshakePacketIn fill g threadId random1 random2 scrambleBuf).2 = kept) ∧
        kept.length = 21 ∧
        Builds (fun fill => (createHandshakePacketIn fill g threadId random1 random2 scrambleBuf).1)
          0 handshake (handshakeOf g threadId (kept.take 20)) := by
  have hlen : (scrambleOf (random1 ++ random2)).length = 20 := by
    rw [length_scrambleOf, length_append, h1, h2]
  refine ⟨builds_myprotoOkPkt id affectedRows lastInsertId status warnings,
    builds_myprotoColumnCount id cnt, builds_myprotoEof id warnings status, builds_createOkPacketIn id,
    builds_createErrPacketIn id errcode herr,
    builds_createAuthSwitchRequestPacketIn (by omega), scrambleOf (random1 ++ random2) ++ [0], ?_, ?_, ?_⟩
  · intro fill
    rw [createHandshakePacketIn_eq fill g threadId h1 h2 hbuf hver]
  · rw [length_append, hlen, length_singleton]
  · rw [take_left' hlen]
    simp only [createHandshakePacketIn_eq _ g threadId h1 h2 hbuf hver]
    exact builds_createHandshakePacket threadId hlen hver hnul

/-- The OK packet of a command, the packet that refuses a login, and the handshake, with the default
    settings. -/
theorem builtPackets_decode_default :
    okPacket.decode (myprotoOkPkt (fun _ => 0xaa) 2 65536 300 2 1).payload = some ⟨65536, 300, 2, 1⟩ ∧
      errPacket.decode (createErrPacketIn (fun _ => 0xaa) 2 1045 accessDenied).payload =
      some ⟨1045, accessDenied⟩ ∧ ∃ kept : List Byte, kept.length = 21 ∧
        handshake.decode (createHandshakePacketIn (fun _ => 0xaa) glovarsDefault 1 (replicate 8 0x40)
          (replicate 12 0x41) (replicate 21 0)).1.payload
          = some (handshakeOf glovarsDefault 1 (kept.take 20)) := by
  obtain ⟨hok, _, _, _, herr, _, kept, _, hlen, hhs⟩ :=
    builtPackets_decode 2 65536 300 0 2 1 1045 accessDenied glovarsDefault 1 (replicate 8 0x40)
      (replicate 12 0x41) (replicate 21 0) (by decide) (by decide) (by decide) (by decide) (by decide)
      (by decide)
  exact ⟨hok.decoded _, herr.decoded _, kept, hlen, hhs.decoded _⟩

end ProxySQL
