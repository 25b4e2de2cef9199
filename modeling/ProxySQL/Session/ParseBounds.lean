/-
  ProxySQL.Session.ParseBounds

  What is read of a client's packet, and where.

  None of the four places that look into a packet compares a position with its
  length: the check of the handshake response and `parse_change_user_packet`
  follow strings to their NUL and skip what a length byte says, the dispatch
  reads the first payload byte of an empty payload too, and COM_INIT_DB copies
  `length - 5` bytes.  Each is given here as an access, which returns what the
  function does (the `…_value` lemmas), and the packets for which it stays
  inside are described by their fields.
-/
import Mathlib.Data.List.GetD
import ProxySQL.Lib.Access
import ProxySQL.Net.Input
import ProxySQL.Session.ClientPkts

namespace ProxySQL

open Lib List

/-! ## The code -/

/-- The client's reply is checked: a scramble of `SHA_DIGEST_LENGTH` bytes is compared, whatever length was
    announced. -/
def checkReplyAccess (sh : Shared) (sess : Session) (m : Nat → Byte) (reply : Nat) (c : Byte)
    (password : Str) : Access Bool :=
  if c ≠ 0 then do
    let scrambleReply ← Access.block m reply shaDigestLength
    pure ((sh.scramble sess.scrambleBuf password).take shaDigestLength == scrambleReply)
  else pure (password == [])

/-- The schema behind the reply, if the client sends one. -/
def takeSchemaAccess (sess : Session) (p : Pkt) (m : Nat → Byte) (n cur capabilities : Nat) :
    Access Session :=
  if cur ≠ p.length ∧ capabilities &&& clientConnectWithDb = clientConnectWithDb then do
    let schema ← Access.cString m cur n
    pure { sess with mysqlSchemaCur := some schema }
  else pure sess

/-- `check_client_authentication_packet` behind the length byte `c` of the reply. -/
def checkUserAccess (sh : Shared) (sess : Session) (p : Pkt) (m : Nat → Byte) (slack capabilities : Nat)
    (username : Str) (c : Byte) : Access (Session × Int) :=
  let reply := sizeofMysqlHdr + 32 + username.length + 1 + 1
  let cur := reply + c.toNat
  let sess := { sess with
    mysqlUsername := some username, mysqlPassword := userPassword sh.glovars username sess.admin }
  match sess.mysqlPassword with
  | none => pure (sess, -1)
  | some password => do
      let ret ← checkReplyAccess sh sess m reply c password
      if ret then do
        let sess ← takeSchemaAccess sess p m (p.length + slack) cur capabilities
        pure (sess, 0)
      else pure (sess, -1)

/-- `check_client_authentication_packet`, with what it reads of the packet. -/
def checkClientAuthenticationPacketAccess (sh : Shared) (sess : Session) (p : Pkt) (m : Nat → Byte)
    (slack : Nat) : Access (Session × Int) := do
  let capabilities ← Access.block m sizeofMysqlHdr 4
  let username ← Access.cString m (sizeofMysqlHdr + 32) (p.length + slack)
  let c ← Access.byte m (sizeofMysqlHdr + 32 + username.length + 1)
  checkUserAccess sh sess p m slack (leNat capabilities) username c

/-- `parse_change_user_packet`, with what it reads of the packet. -/
def parseChangeUserPacketAccess (sess : Session) (m : Nat → Byte) (n : Nat) : Access Session := do
  let cur := sizeofMysqlHdr + 1
  let username ← Access.cString m cur n
  let cur := cur + username.length + 2 + 20
  let schema ← Access.cString m cur n
  pure { sess with mysqlUsername := some username, mysqlSchemaCur := some schema }

/-- The command of a packet, with what `process_client_pkts` reads for it. -/
def clientCommandAccess (m : Nat → Byte) : Access Byte := Access.byte m sizeofMysqlHdr

/-- The schema that `client_COM_INIT_DB` copies, with what it reads; the count of `memcpy` is a `size_t`. -/
def clientComInitDbAccess (s : Session) (p : Pkt) (m : Nat → Byte) : Access (Option Str) :=
  if s.admin > 0 then pure none
  else do
    let bytes ← Access.block m (sizeofMysqlHdr + 1) ((p.length + 2 ^ 64 - (sizeofMysqlHdr + 1)) % 2 ^ 64)
    pure (some (bytes.takeWhile (· ≠ 0)))

/-! ## They compute what the functions do -/

theorem checkReplyAccess_value (sh : Shared) (sess : Session) (m : Nat → Byte) (reply : Nat) (c : Byte)
    (password : Str) :
    (checkReplyAccess sh sess m reply c password).value
      = if c ≠ 0 then scrambleMatches sh sess.scrambleBuf m reply password else password == [] := by
  unfold checkReplyAccess
  split <;> rfl

theorem takeSchemaAccess_value (sess : Session) (p : Pkt) (m : Nat → Byte) (n cur capabilities : Nat) :
    (takeSchemaAccess sess p m n cur capabilities).value
      = if cur ≠ p.length ∧ capabilities &&& clientConnectWithDb = clientConnectWithDb then
          { sess with mysqlSchemaCur := some (cStr m cur n) }
        else sess := by
  unfold takeSchemaAccess
  split <;> rfl

theorem checkClientAuthenticationPacketAccess_value (sh : Shared) (sess : Session) (p : Pkt)
    (m : Nat → Byte) (slack : Nat) :
    (checkClientAuthenticationPacketAccess sh sess p m slack).value
      = checkClientAuthenticationPacket sh sess p m slack := by
  show (checkUserAccess sh sess p m slack (load m sizeofMysqlHdr 4)
    (cStr m (sizeofMysqlHdr + 32) (p.length + slack))
    (m (sizeofMysqlHdr + 32 + (cStr m (sizeofMysqlHdr + 32) (p.length + slack)).length + 1))).value = _
  unfold checkUserAccess checkClientAuthenticationPacket
  dsimp only
  generalize cStr m (sizeofMysqlHdr + 32) (p.length + slack) = username
  cases userPassword sh.glovars username sess.admin with
  | none => rfl
  | some password =>
    dsimp only [Access.value_bind]
    rw [checkReplyAccess_value]
    generalize hcur : sizeofMysqlHdr + 32 + username.length + 1 + 1 + (m _).toNat = cur
    generalize hret : (@ite Bool (m (sizeofMysqlHdr + 32 + username.length + 1) ≠ 0) _ _ _) = ret
    cases ret with
    | false => rfl
    | true =>
      rw [if_pos rfl, if_pos rfl, Access.value_bind, takeSchemaAccess_value]
      split <;> rfl

theorem parseChangeUserPacketAccess_value (sess : Session) (m : Nat → Byte) (n : Nat) :
    (parseChangeUserPacketAccess sess m n).value = parseChangeUserPacket sess m n := rfl

theorem clientCommandAccess_value (m : Nat → Byte) : (clientCommandAccess m).value = m sizeofMysqlHdr := rfl

/-- A packet as `buffer2array` delivers it: one frame of the stream, in a block of its size. -/
structure Pkt.Delivered (p : Pkt) : Prop where
  frame : mysqlFraming.IsFrame p.data
  block : p.length = p.data.length

theorem Pkt.Delivered.length_ge {p : Pkt} (h : p.Delivered) : 4 ≤ p.length := h.block ▸ h.frame.1

theorem Pkt.Delivered.length_lt {p : Pkt} (h : p.Delivered) : p.length < 2 ^ 24 + 4 := by
  have hlt := leNat_lt ((p.data.take 4).take 3)
  have h3 : ((p.data.take 4).take 3).length ≤ 3 := length_take_le ..
  have hpow : 256 ^ ((p.data.take 4).take 3).length ≤ 256 ^ 3 := Nat.pow_le_pow_right (by decide) h3
  have htotal : p.data.length = leNat ((p.data.take 4).take 3) + 4 := h.frame.2
  rw [h.block]
  omega

/-- The count of `memcpy`, which wraps around for an empty payload. -/
theorem initDbCount {p : Pkt} (h : p.Delivered) :
    (p.length + 2 ^ 64 - (sizeofMysqlHdr + 1)) % 2 ^ 64 = if p.length = 4 then 2 ^ 64 - 1
    else p.length - 5 := by
  have hge := h.length_ge
  have hlt := h.length_lt
  rw [sizeofMysqlHdr]
  split <;> omega

theorem Pkt.map_mem {p : Pkt} {off k : Nat} (beyond : Nat → Byte) (h : off + k ≤ p.data.length) :
    (range k).map (fun i => p.mem beyond (off + i)) = slice p.data off (off + k) := by
  apply ext_getElem
  · rw [length_map, length_range, length_slice h, Nat.add_sub_cancel_left]
  · intro i hi _
    rw [length_map, length_range] at hi
    simp only [slice, getElem_map, getElem_range, getElem_take, getElem_drop, Pkt.mem]
    exact getD_eq_getElem _ _ (by omega)

theorem clientComInitDbAccess_value {s : Session} {p : Pkt} (beyond : Nat → Byte) (h : p.Delivered)
    (hadmin : ¬ s.admin > 0) (hlen : 5 ≤ p.length) :
    (clientComInitDbAccess s p (p.mem beyond)).value = some (initDbSchema p) := by
  have hfit : sizeofMysqlHdr + 1 + (p.length - 5) ≤ p.data.length := by
    rw [← h.block, sizeofMysqlHdr]
    omega
  have hcopy := Pkt.map_mem beyond hfit
  have hend : sizeofMysqlHdr + 1 + (p.length - 5) = p.length := by
    rw [sizeofMysqlHdr]
    omega
  rw [hend] at hcopy
  rw [clientComInitDbAccess, if_neg hadmin, initDbCount h, if_neg (by omega)]
  show some (List.takeWhile _ ((range (p.length - 5)).map fun i => p.mem beyond (sizeofMysqlHdr + 1 + i))) =
    _
  rw [hcopy, initDbSchema]

/-! ## Where they read -/

section Login

variable (sh : Shared) (sess : Session) (p : Pkt) (m : Nat → Byte) (slack : Nat)

/-- The user name in a handshake response, as it is read. -/
def loginUser : Str := cStr m (sizeofMysqlHdr + 32) (p.length + slack)

/-- Where the length byte of the reply is read. -/
def loginLength : Nat := sizeofMysqlHdr + 32 + (loginUser p m slack).length + 1

/-- The user exists, and the reply proves the password. -/
def CredentialsMatch : Prop :=
  ∃ password, userPassword sh.glovars (loginUser p m slack) sess.admin = some password ∧
    (if m (loginLength p m slack) ≠ 0 then
        scrambleMatches sh sess.scrambleBuf m (loginLength p m slack + 1) password else password == []) =
          true

/-- The user name and the schema are terminated inside the packet, and the reply is inside with the length
    of a scramble. -/
structure LoginFits : Prop where
  user : Access.Terminated m (sizeofMysqlHdr + 32) p.length
  replyLength : loginLength p m slack < p.length
  reply : m (loginLength p m slack) ≠ 0 → loginLength p m slack + 1 + shaDigestLength ≤ p.length
  schema : loginLength p m slack + 1 + (m (loginLength p m slack)).toNat ≠ p.length →
    load m sizeofMysqlHdr 4 &&& clientConnectWithDb = clientConnectWithDb →
    Access.Terminated m (loginLength p m slack + 1 + (m (loginLength p m slack)).toNat) p.length

variable {sh sess p m slack}

theorem checkClientAuthenticationPacket_accepts :
    (checkClientAuthenticationPacket sh sess p m slack).2 = 0 ↔ CredentialsMatch sh sess p m slack := by
  unfold checkClientAuthenticationPacket CredentialsMatch loginLength loginUser
  dsimp only
  have hne : (-1 : Int) ≠ 0 := by decide
  generalize cStr m (sizeofMysqlHdr + 32) (p.length + slack) = username
  cases userPassword sh.glovars username sess.admin with
  | none =>
    refine ⟨fun h => absurd h hne, ?_⟩
    rintro ⟨password, hnone, -⟩
    cases hnone
  | some password =>
    dsimp only
    generalize hret : (@ite Bool (m (sizeofMysqlHdr + 32 + username.length + 1) ≠ 0) _ _ _) = ret
    cases ret with
    | false =>
      refine ⟨fun h => absurd h hne, ?_⟩
      rintro ⟨_, ⟨⟩, hmatch⟩
      rw [hret] at hmatch
      cases hmatch
    | true =>
      refine ⟨fun _ => ⟨password, rfl, hret⟩, fun _ => ?_⟩
      rw [if_pos rfl]
      split <;> rfl

theorem inside_checkReplyAccess {reply n : Nat} {c : Byte} {password : Str} :
    (checkReplyAccess sh sess m reply c password).Inside n ↔ (c ≠ 0 → reply + shaDigestLength ≤ n) := by
  unfold checkReplyAccess
  by_cases hc : c ≠ 0
  · rw [if_pos hc, Access.inside_bind, Access.inside_block, and_iff_left (Access.inside_pure _)]
    have h20 : shaDigestLength ≠ 0 := by decide
    exact ⟨fun h _ => h.resolve_left h20, fun h => .inr (h hc)⟩
  · rw [if_neg hc]
    exact ⟨fun _ h => absurd h hc, fun _ => Access.inside_pure _⟩

theorem inside_takeSchemaAccess {k cur capabilities n : Nat} (hk : n ≤ cur + k) :
    (takeSchemaAccess sess p m k cur capabilities).Inside n ↔
      (cur ≠ p.length → capabilities &&& clientConnectWithDb = clientConnectWithDb →
        Access.Terminated m cur n) := by
  unfold takeSchemaAccess
  split
  case isTrue h =>
    rw [Access.inside_bind, Access.inside_cString hk, and_iff_left (Access.inside_pure _)]
    exact ⟨fun ht _ _ => ht, fun ht => ht h.1 h.2⟩
  case isFalse h =>
    exact ⟨fun _ h1 h2 => absurd ⟨h1, h2⟩ h, fun _ => Access.inside_pure _⟩

/-- What is read behind the length byte stays inside, where everything else fits. -/
theorem LoginFits.inside_checkUserAccess (h : LoginFits p m slack) :
    (checkUserAccess sh sess p m slack (load m sizeofMysqlHdr 4) (loginUser p m slack)
      (m (loginLength p m slack))).Inside p.length := by
  unfold checkUserAccess
  cases huser : userPassword sh.glovars (loginUser p m slack) sess.admin with
  | none =>
    exact Access.inside_pure _
  | some password =>
    rw [Access.inside_bind, inside_checkReplyAccess]
    refine ⟨h.reply, ?_⟩
    split
    · rw [Access.inside_bind, inside_takeSchemaAccess (by omega)]
      exact ⟨h.schema, Access.inside_pure _⟩
    · exact Access.inside_pure _

/-- An accepted response is read outside just if something does not fit. -/
theorem login_inside_iff :
    ((checkClientAuthenticationPacketAccess sh sess p m slack).Inside p.length ∨
        (checkClientAuthenticationPacketAccess sh sess p m slack).value.2 ≠ 0) ↔
      (CredentialsMatch sh sess p m slack → LoginFits p m slack) := by
  have haccess : (checkClientAuthenticationPacketAccess sh sess p m slack).Inside p.length ↔
      (Access.block m sizeofMysqlHdr 4).Inside p.length ∧
      (Access.cString m (sizeofMysqlHdr + 32) (p.length + slack)).Inside p.length ∧
      (Access.byte m (loginLength p m slack)).Inside p.length ∧
      (checkUserAccess sh sess p m slack (load m sizeofMysqlHdr 4) (loginUser p m slack)
        (m (loginLength p m slack))).Inside p.length := by
    unfold checkClientAuthenticationPacketAccess
    rw [Access.inside_bind, Access.inside_bind, Access.inside_bind]
    rfl
  rw [checkClientAuthenticationPacketAccess_value, ne_eq, checkClientAuthenticationPacket_accepts, haccess,
    Access.inside_block, Access.inside_cString (by omega), Access.inside_byte]
  constructor
  · rintro (⟨-, huser, hlength, hrest⟩ | hreject) hcred
    · obtain ⟨password, hpass, hreply⟩ := hcred
      unfold checkUserAccess at hrest
      rw [hpass] at hrest
      rw [Access.inside_bind, inside_checkReplyAccess, checkReplyAccess_value] at hrest
      obtain ⟨hscramble, hschema⟩ := hrest
      rw [if_pos (by exact hreply), Access.inside_bind, inside_takeSchemaAccess (by omega)] at hschema
      exact ⟨huser, hlength, hscramble, hschema.1⟩
    · exact absurd hcred hreject
  · intro h
    by_cases hcred : CredentialsMatch sh sess p m slack
    · have hfits := h hcred
      have hlt := hfits.replyLength
      refine .inl ⟨?_, hfits.user, hlt, hfits.inside_checkUserAccess⟩
      rw [loginLength, sizeofMysqlHdr] at hlt
      rw [sizeofMysqlHdr]
      omega
    · exact .inr hcred

end Login

/-- The user name in a COM_CHANGE_USER packet, as it is read. -/
def changeUserName (m : Nat → Byte) (n : Nat) : Str := cStr m (sizeofMysqlHdr + 1) n

/-- `parse_change_user_packet` stays inside just if the user name and what it takes for the schema are
    terminated there. -/
theorem changeUser_inside_iff (sess : Session) (m : Nat → Byte) {k n : Nat} (hk : n ≤ k) :
    (parseChangeUserPacketAccess sess m k).Inside n ↔
      Access.Terminated m (sizeofMysqlHdr + 1) n ∧
        Access.Terminated m (sizeofMysqlHdr + 1 + (changeUserName m k).length + 2 + 20) n := by
  have hunfold : (parseChangeUserPacketAccess sess m k).Inside n ↔
      (Access.cString m (sizeofMysqlHdr + 1) k).Inside n ∧
      (Access.cString m (sizeofMysqlHdr + 1 + (changeUserName m k).length + 2 + 20) k).Inside n := by
    unfold parseChangeUserPacketAccess
    rw [Access.inside_bind, Access.inside_bind, and_iff_left (Access.inside_pure _)]
    rfl
  rw [hunfold, Access.inside_cString (by omega), Access.inside_cString (by omega)]

theorem clientCommand_inside_iff (m : Nat → Byte) (n : Nat) : (clientCommandAccess m).Inside n ↔ 5 ≤ n :=
  Access.inside_byte

/-- COM_INIT_DB of an empty payload copies almost all of memory. -/
theorem initDb_inside_iff (s : Session) {p : Pkt} (m : Nat → Byte) (h : p.Delivered) :
    (clientComInitDbAccess s p m).Inside p.length ↔ s.admin > 0 ∨ 5 ≤ p.length := by
  have hge := h.length_ge
  unfold clientComInitDbAccess
  by_cases hadmin : s.admin > 0
  · rw [if_pos hadmin]
    exact ⟨fun _ => .inl hadmin, fun _ => Access.inside_pure _⟩
  · rw [if_neg hadmin, Access.inside_bind, Access.inside_block, and_iff_left (Access.inside_pure _),
      initDbCount h, or_iff_right hadmin, sizeofMysqlHdr]
    split <;> omega

/-- Which packets of a client are read inside their bounds, or refused: by the check of the handshake
    response, by the parser of COM_CHANGE_USER, by the dispatch and by COM_INIT_DB. -/
theorem packetReads_inside_iff (sh : Shared) (sess : Session) (p : Pkt) (beyond : Nat → Byte) (slack : Nat)
    (hp : p.Delivered) :
    (((checkClientAuthenticationPacketAccess sh sess p (p.mem beyond) slack).Inside p.length ∨
          (checkClientAuthenticationPacketAccess sh sess p (p.mem beyond) slack).value.2 ≠ 0) ↔
        (CredentialsMatch sh sess p (p.mem beyond) slack → LoginFits p (p.mem beyond) slack)) ∧
      (∀ m, (parseChangeUserPacketAccess sess m (p.length + slack)).Inside p.length ↔
        Access.Terminated m (sizeofMysqlHdr + 1) p.length ∧
          Access.Terminated m (sizeofMysqlHdr + 1 + (changeUserName m (p.length + slack)).length + 2 + 20)
            p.length) ∧
      ((clientCommandAccess (p.mem beyond)).Inside p.length ↔ 5 ≤ p.length) ∧
      ((clientComInitDbAccess sess p (p.mem beyond)).Inside p.length ↔ sess.admin > 0 ∨ 5 ≤ p.length) :=
  ⟨login_inside_iff, fun m => changeUser_inside_iff sess m (by omega), clientCommand_inside_iff _ _,
    initDb_inside_iff sess _ hp⟩

/-- A session, with one user `a` who has no password. -/
def userWithoutPassword : Shared :=
  Shared.init { glovarsDefault with usernames := [([0x61], [])] } (fun _ => []) fun _ _ => []

def newSession : Session := mysqlSessionNew (fun _ => 0) glovarsDefault 0 5

/-- A handshake response of user `a`, with an empty reply. -/
def passwordlessLogin : Pkt :=
  { length := 39, data := [0x23, 0x00, 0x00, 0x01] ++ replicate 32 0 ++ [0x61, 0x00, 0x00] }

/-- COM_CHANGE_USER to user `a` and schema `db`. -/
def changeToA : Pkt where
  length := 31
  data := [0x1b, 0x00, 0x00, 0x00, 0x11, 0x61, 0x00, 0x14] ++ replicate 20 0 ++ [0x64, 0x62, 0x00]

/-- COM_INIT_DB for the schema `db`. -/
def initDbPkt : Pkt := { length := 7, data := [0x03, 0x00, 0x00, 0x00, 0x02, 0x64, 0x62] }

theorem packetReads_inside_wellFormed :
    ((checkClientAuthenticationPacketAccess userWithoutPassword newSession passwordlessLogin
          (passwordlessLogin.mem fun _ => 1) 2).Inside 39 ∨
        (checkClientAuthenticationPacketAccess userWithoutPassword newSession passwordlessLogin
          (passwordlessLogin.mem fun _ => 1) 2).value.2 ≠ 0) ∧
      CredentialsMatch userWithoutPassword newSession passwordlessLogin
        (passwordlessLogin.mem fun _ => 1) 2 ∧
      (parseChangeUserPacketAccess newSession (changeToA.mem fun _ => 1) 33).Inside 31 ∧
      (clientCommandAccess (initDbPkt.mem fun _ => 1)).Inside 7 ∧
      (clientComInitDbAccess newSession initDbPkt (initDbPkt.mem fun _ => 1)).Inside 7 := by
  obtain ⟨hlogin, -, -, -⟩ := packetReads_inside_iff userWithoutPassword newSession passwordlessLogin
    (fun _ => 1) 2 ⟨⟨by decide, by decide⟩, by decide⟩
  obtain ⟨-, hchange, -, -⟩ := packetReads_inside_iff userWithoutPassword newSession changeToA
    (fun _ => 1) 2 ⟨⟨by decide, by decide⟩, by decide⟩
  obtain ⟨-, -, hcommand, hinit⟩ := packetReads_inside_iff userWithoutPassword newSession initDbPkt
    (fun _ => 1) 2 ⟨⟨by decide, by decide⟩, by decide⟩
  have hfits : LoginFits passwordlessLogin (passwordlessLogin.mem fun _ => 1) 2 :=
    ⟨⟨37, by decide⟩, by decide, by decide, fun hne => absurd (by decide) hne⟩
  exact ⟨hlogin.2 fun _ => hfits, ⟨[], by decide, by decide⟩,
    (hchange _).2 ⟨⟨6, by decide⟩, ⟨30, by decide⟩⟩, hcommand.2 (by decide), hinit.2 (by decide)⟩

/-- A handshake response that ends in the middle of the user name. -/
def cutLogin : Pkt := { length := 37, data := [0x21, 0x00, 0x00, 0x01] ++ replicate 32 0 ++ [0x61] }

/-- With zeros behind it in memory the response is accepted: the NUL of the name and the length of the reply
    are read behind the packet. -/
theorem cutLogin_outside :
    cutLogin.Delivered ∧
      (checkClientAuthenticationPacketAccess userWithoutPassword newSession cutLogin
        (cutLogin.mem fun _ => 0) 2).value.2 = 0 ∧
      ¬ ((checkClientAuthenticationPacketAccess userWithoutPassword newSession cutLogin
            (cutLogin.mem fun _ => 0) 2).Inside cutLogin.length ∨
          (checkClientAuthenticationPacketAccess userWithoutPassword newSession cutLogin
            (cutLogin.mem fun _ => 0) 2).value.2 ≠ 0) := by
  refine ⟨⟨⟨by decide, by decide⟩, by decide⟩, by decide, by decide⟩

end ProxySQL
