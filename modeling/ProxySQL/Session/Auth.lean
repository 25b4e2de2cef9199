/-
  ProxySQL.Session.Auth

  Authentication (`mysql_protocol.c`): the check of the client's handshake
  response, the two halves of COM_CHANGE_USER, and the packets that answer them.

  The parsers read NUL-terminated strings straight from memory, so they take it
  as a function.  `slack` bounds how far behind the packet the next NUL lies.
-/
import ProxySQL.Session.Backend

namespace ProxySQL

open Lib List

/-! ## Packets built here -/

/-- The random string that `create_handshake_packet` stores in `scramble_buf`: no byte is zero. -/
def scrambleOf (random : List Byte) : List Byte := random.map fun b => if b = 0 then 0x61 else b

/-- `create_handshake_packet`, on a `scramble_buf` that is filled already. -/
def createHandshakePacket (g : Glovars) (threadId : Nat) (scrambleBuf : List Byte) : Pkt :=
  let hdr : MysqlHdr := { pktLength := BitVec.ofNat 24 (68 + g.mysqlServerVersion.length), pktId := 0 }
  { length := hdr.pktLength.toNat + sizeofMysqlHdr,
    data := hdr.toBytes ++ [g.protocolVersion] ++ g.mysqlServerVersion ++ [0x00] ++ leBytes 4 threadId
      ++ slice scrambleBuf 0 8 ++ [0x00] ++ leBytes 2 g.serverCapabilities ++ [g.serverLanguage]
      ++ leBytes 2 g.serverStatus ++ [0x0f, 0x80, 0x15] ++ replicate 10 0
      ++ slice scrambleBuf 8 20 ++ [0x00] ++ bytesOf "mysql_native_password" ++ [0x00] }

/-- `create_ok_packet`. -/
def createOkPacket (id : Nat) : Pkt :=
  { length := 11, data := (⟨7, BitVec.ofNat 8 id⟩ : MysqlHdr).toBytes ++ [0, 0, 0, 2, 0, 0, 0] }

/-- `create_err_packet`. -/
def createErrPacket (id errcode : Nat) (errstr : Str) : Pkt :=
  let hdr : MysqlHdr := { pktLength := BitVec.ofNat 24 (3 + errstr.length), pktId := BitVec.ofNat 8 id }
  { length := hdr.pktLength.toNat + sizeofMysqlHdr,
    data := hdr.toBytes ++ [0xff] ++ leBytes 2 errcode ++ errstr }

/-- The text of every refusal. -/
def accessDenied : Str := bytesOf "#28000Access denied for user"

/-- `create_auth_switch_request_packet`. -/
def createAuthSwitchRequestPacket (scrambleBuf : List Byte) : Pkt :=
  { length := 48,
    data := (⟨44, 1⟩ : MysqlHdr).toBytes ++ [0xfe] ++ bytesOf "mysql_native_password" ++ [0x00]
      ++ scrambleBuf.take 20 ++ [0x00] }

/-! ## Checking a client -/

/-- The string at `off`, of which at most `n` bytes are read. -/
def cStr (m : Nat → Byte) (off n : Nat) : Str :=
  ((range n).map fun i => m (off + i)).takeWhile (· ≠ 0)

/-- `user_password`.  An admin or monitor name is compared up to the length of the configured
    one. -/
def userPassword (g : Glovars) (username : Str) (admin : Nat) : Option Str :=
  if admin = 1 then
    if g.proxyAdminUser.isPrefixOf username then some g.proxyAdminPassword else none
  else if admin = 2 then
    if g.proxyMonitorUser.isPrefixOf username then some g.proxyMonitorPassword else none
  else g.usernames.lookup username

/-- `SHA_DIGEST_LENGTH`. -/
def shaDigestLength : Nat := 20

/-- `CLIENT_CONNECT_WITH_DB`. -/
def clientConnectWithDb : Nat := 8

/-- The `SHA_DIGEST_LENGTH` bytes at `off` are the scramble of the password. -/
def scrambleMatches (sh : Shared) (scrambleBuf : List Byte) (m : Nat → Byte) (off : Nat)
    (password : Str) : Bool :=
  (sh.scramble scrambleBuf password).take shaDigestLength
    == (range shaDigestLength).map fun i => m (off + i)

/-- `check_client_authentication_packet`. -/
def checkClientAuthenticationPacket (sh : Shared) (sess : Session) (p : Pkt) (m : Nat → Byte)
    (slack : Nat) : Session × Int :=
  let n := p.length + slack
  let capabilities := load m sizeofMysqlHdr 4
  let cur := sizeofMysqlHdr + 32
  let username := cStr m cur n
  let cur := cur + username.length + 1
  let c := m cur
  let reply := cur + 1
  let cur := reply + c.toNat
  let sess := { sess with
    mysqlUsername := some username, mysqlPassword := userPassword sh.glovars username sess.admin }
  match sess.mysqlPassword with
  | none => (sess, -1)
  | some password =>
      if (if c ≠ 0 then scrambleMatches sh sess.scrambleBuf m reply password else password == []) then
        if cur ≠ p.length ∧ capabilities &&& clientConnectWithDb = clientConnectWithDb then
          ({ sess with mysqlSchemaCur := some (cStr m cur n) }, 0)
        else (sess, 0)
      else (sess, -1)

/-- `parse_change_user_packet`, on the memory `m` of the packet. -/
def parseChangeUserPacket (sess : Session) (m : Nat → Byte) (n : Nat) : Session :=
  let cur := sizeofMysqlHdr + 1
  let username := cStr m cur n
  let cur := cur + username.length + 2 + 20
  { sess with mysqlUsername := some username, mysqlSchemaCur := some (cStr m cur n) }

/-- `check_auth_switch_response_packet`. -/
def checkAuthSwitchResponsePacket (sh : Shared) (sess : Session) (p : Pkt) (m : Nat → Byte) :
    Session × Int :=
  let sess := { sess with waitingChangeUserResponse := false }
  if p.length ≠ sizeofMysqlHdr + 20 then (sess, -1)
  else if (MysqlHdr.ofBytes ((range 4).map m)).pktLength ≠ 20 then (sess, -1)
  else
    let sess := { sess with
      mysqlPassword := sess.mysqlUsername.bind fun u => userPassword sh.glovars u sess.admin }
    match sess.mysqlPassword with
    | none => (sess, -1)
    | some password =>
        if scrambleMatches sh sess.scrambleBuf m sizeofMysqlHdr password then (sess, 0) else (sess, -1)

end ProxySQL
