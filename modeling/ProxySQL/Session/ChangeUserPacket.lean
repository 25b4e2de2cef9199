/-
  ProxySQL.Session.ChangeUserPacket

  What COM_CHANGE_USER makes of a well-formed packet, and whom it lets in.

  `client_COM_CHANGE_USER` gives the packet's memory back before it parses it.
  A block of the pool then starts with the pointer that `l_stack_push` stores,
  whose last three bytes lie on the first three of the user name.  The parser
  takes the reply for one of twenty bytes, whatever its length byte says.

  The reply itself comes in a packet of its own, and
  `check_auth_switch_response_packet` knows no empty one.
-/
import Mathlib.Data.List.TakeWhile
import ProxySQL.Protocol.Decode
import ProxySQL.Session.ChangeUser
import ProxySQL.Session.Login
import ProxySQL.Session.RoutingEffects
import ProxySQL.Session.Steps

namespace ProxySQL

open Lib List Option

/-! ## The packet -/

/-- A COM_CHANGE_USER command. -/
structure ChangeUserRequest where
  id : Byte
  user : Str
  auth : List Byte
  schema : Str
  /-- character set, method and attributes -/
  extra : List Byte
  user_nulFree : 0 ∉ user
  auth_length : auth.length < 256
  schema_nulFree : 0 ∉ schema

namespace ChangeUserRequest

variable (c : ChangeUserRequest)

def payload : List Byte :=
  BitVec.ofNat 8 mysqlComChangeUser ::
    (c.user ++ 0 :: BitVec.ofNat 8 c.auth.length :: (c.auth ++ (c.schema ++ 0 :: c.extra)))

def hdr : MysqlHdr := { pktLength := BitVec.ofNat 24 c.payload.length, pktId := c.id }

def pkt : Pkt := { length := c.payload.length + 4, data := c.hdr.toBytes ++ c.payload }

theorem pkt_data_user :
    c.pkt.data = (c.hdr.toBytes ++ [BitVec.ofNat 8 mysqlComChangeUser]) ++
      (c.user ++ 0 :: BitVec.ofNat 8 c.auth.length :: (c.auth ++ (c.schema ++ 0 :: c.extra))) := by
  rfl

theorem pkt_data_schema :
    c.pkt.data = (c.hdr.toBytes ++ [BitVec.ofNat 8 mysqlComChangeUser] ++ c.user ++
      [0, BitVec.ofNat 8 c.auth.length] ++ c.auth) ++ (c.schema ++ 0 :: c.extra) := by
  rw [pkt_data_user]
  simp only [append_assoc, cons_append, nil_append]

theorem length_before_user :
    (c.hdr.toBytes ++ [BitVec.ofNat 8 mysqlComChangeUser]).length = sizeofMysqlHdr + 1 := by
  rfl

theorem length_before_schema :
    (c.hdr.toBytes ++ [BitVec.ofNat 8 mysqlComChangeUser] ++ c.user ++
      [0, BitVec.ofNat 8 c.auth.length] ++ c.auth).length = sizeofMysqlHdr + 1 + c.user.length + 2 +
        c.auth.length := by
  rw [length_append, length_append, length_append, length_before_user]
  rfl

theorem length_pkt :
    c.pkt.length = sizeofMysqlHdr + 1 + c.user.length + 2 + c.auth.length + c.schema.length + 1 +
    c.extra.length := by
  have hdata : c.pkt.length = c.pkt.data.length := by
    rw [pkt, length_append, MysqlHdr.length_toBytes, Nat.add_comm]
  rw [hdata, pkt_data_schema, length_append, length_before_schema, length_append, length_cons]
  omega

variable (beyond : Nat → Byte) (slack : Nat)

theorem cStr_user : cStr (c.pkt.mem beyond) (sizeofMysqlHdr + 1) (c.pkt.length + slack) = c.user := by
  refine Pkt.cStr_at c.pkt_data_user c.length_before_user c.user_nulFree ?_
  have hlen := c.length_pkt
  omega

theorem cStr_schema :
    cStr (c.pkt.mem beyond) (sizeofMysqlHdr + 1 + c.user.length + 2 + c.auth.length) (c.pkt.length + slack)
      = c.schema := by
  refine Pkt.cStr_at c.pkt_data_schema c.length_before_schema c.schema_nulFree ?_
  have hlen := c.length_pkt
  omega

end ChangeUserRequest

/-! ## The reply -/

/-- The packet that answers an auth switch request. -/
def authSwitchReply (id : Byte) (auth : List Byte) : Pkt :=
  { length := auth.length + 4, data := (⟨BitVec.ofNat 24 auth.length, id⟩ : MysqlHdr).toBytes ++ auth }

theorem parseChangeUserPacket_username (sess : Session) (m : Nat → Byte) (n : Nat) :
    (parseChangeUserPacket sess m n).mysqlUsername = some (cStr m (sizeofMysqlHdr + 1) n) := rfl

theorem checkAuthSwitchResponsePacket_nil (sh : Shared) (sess : Session) (id : Byte) (m : Nat → Byte) :
    (checkAuthSwitchResponsePacket sh sess (authSwitchReply id []) m).2 = -1 := by
  have hlen : (authSwitchReply id []).length ≠ sizeofMysqlHdr + 20 := show (4 : Nat) ≠ 24 by decide
  unfold checkAuthSwitchResponsePacket
  rw [if_pos hlen]

theorem authSwitchReply_hdr (id : Byte) {auth : List Byte} (beyond : Nat → Byte) (hlen : auth.length = 20) :
    (MysqlHdr.ofBytes ((range 4).map ((authSwitchReply id auth).mem beyond))).pktLength = 20 := by
  have hfit : 0 + 4 ≤ (authSwitchReply id auth).data.length := by
    rw [authSwitchReply, length_append, MysqlHdr.length_toBytes]
    omega
  have hcopy := Pkt.map_mem beyond hfit
  have hslice : slice (authSwitchReply id auth).data 0 (0 + 4)
      = (⟨BitVec.ofNat 24 auth.length, id⟩ : MysqlHdr).toBytes ++ [] := by
    exact take_left' (MysqlHdr.length_toBytes _)
  simp only [Nat.zero_add] at hcopy hslice
  rw [hcopy, hslice, MysqlHdr.ofBytes_toBytes_append, hlen]
  rfl

theorem map_mem_authSwitchReply (id : Byte) {auth : List Byte} (beyond : Nat → Byte)
    (hlen : auth.length = 20) :
    (range shaDigestLength).map (fun i => (authSwitchReply id auth).mem beyond (sizeofMysqlHdr + i)) =
    auth := by
  have hfit : sizeofMysqlHdr + shaDigestLength ≤ (authSwitchReply id auth).data.length := by
    rw [authSwitchReply, length_append, MysqlHdr.length_toBytes, hlen]
    decide
  have hdata : (authSwitchReply id auth).data = (⟨BitVec.ofNat 24 auth.length, id⟩ : MysqlHdr).toBytes ++
    auth ++ [] := by
    rw [authSwitchReply, append_nil]
  rw [Pkt.map_mem beyond hfit, hdata]
  exact slice_middle (i := sizeofMysqlHdr) (MysqlHdr.length_toBytes _) (by rw [hlen]; rfl)

theorem checkAuthSwitchResponsePacket_twenty (sh : Shared) {sess : Session} (id : Byte) {auth : List Byte}
    {user : Str} (beyond : Nat → Byte) (hlen : auth.length = 20) (huser : sess.mysqlUsername = some user) :
    (checkAuthSwitchResponsePacket sh sess (authSwitchReply id auth)
      ((authSwitchReply id auth).mem beyond)).2 = 0 ↔
      ∃ password, userPassword sh.glovars user sess.admin = some password ∧
        (sh.scramble sess.scrambleBuf password).take shaDigestLength = auth := by
  have hlength : (authSwitchReply id auth).length = sizeofMysqlHdr + 20 := by
    rw [authSwitchReply, hlen]
    rfl
  have hne : (-1 : Int) ≠ 0 := by decide
  unfold checkAuthSwitchResponsePacket
  rw [if_neg (not_not.2 hlength), if_neg (not_not.2 (authSwitchReply_hdr id beyond hlen)), huser, bind_some]
  cases userPassword sh.glovars user sess.admin with
  | none =>
    refine ⟨fun h => absurd h hne, ?_⟩
    rintro ⟨password, hnone, -⟩
    cases hnone
  | some password =>
    dsimp only
    rw [scrambleMatches, map_mem_authSwitchReply id beyond hlen]
    split
    case isTrue h => exact ⟨fun _ => ⟨password, rfl, beq_iff_eq.1 h⟩, fun _ => rfl⟩
    case isFalse h =>
      refine ⟨fun h0 => absurd h0 hne, ?_⟩
      rintro ⟨_, ⟨⟩, hmatch⟩
      exact absurd (beq_iff_eq.2 hmatch) h

/-! ## The two ways in -/

variable {sh : Shared} {sess : Session}

theorem login_twenty (sh : Shared) (sess : Session) (r : HandshakeResponse) (beyond : Nat → Byte)
    (slack : Nat) (hlen : r.auth.length = 20) :
    (checkClientAuthenticationPacket sh sess r.pkt (r.pkt.mem beyond) slack).2 = 0 ↔
      ∃ password, userPassword sh.glovars r.user sess.admin = some password ∧
        (sh.scramble sess.scrambleBuf password).take shaDigestLength = r.auth := by
  have hbyte : BitVec.ofNat 8 r.auth.length ≠ 0 := by
    rw [hlen]
    decide
  rw [checkClientAuthenticationPacket_accepts]
  unfold CredentialsMatch
  rw [r.loginUser_pkt, r.loginLength_pkt, r.mem_loginLength]
  simp only [if_pos hbyte, scrambleMatches, r.map_mem_reply beyond hlen, beq_iff_eq]

theorem login_nil (r : HandshakeResponse) (beyond : Nat → Byte) (slack : Nat) (hnil : r.auth = []) :
    (checkClientAuthenticationPacket sh sess r.pkt (r.pkt.mem beyond) slack).2 = 0 ↔
      userPassword sh.glovars r.user sess.admin = some [] := by
  have hbyte : ¬ BitVec.ofNat 8 r.auth.length ≠ 0 := by
    rw [hnil]
    decide
  rw [checkClientAuthenticationPacket_accepts]
  unfold CredentialsMatch
  rw [r.loginUser_pkt, r.loginLength_pkt, r.mem_loginLength]
  simp only [if_neg hbyte, beq_iff_eq]
  exact ⟨fun ⟨_, huser, hpass⟩ => hpass ▸ huser, fun h => ⟨[], h, rfl⟩⟩

/-- COM_CHANGE_USER with a reply lets in whom a login with that reply does, just if it is not the empty
    reply of a user without a password. -/
theorem changeUser_agrees_iff (sh : Shared) (sess : Session) (c : ChangeUserRequest) (r : HandshakeResponse)
    (id : Byte) (beyond beyond' beyond'' : Nat → Byte) (slack slack' : Nat) (huser : c.user = r.user) :
    ((checkAuthSwitchResponsePacket sh
          (parseChangeUserPacket sess (c.pkt.mem beyond) (c.pkt.length + slack)) (authSwitchReply id r.auth)
          ((authSwitchReply id r.auth).mem beyond')).2 = 0 ↔
        (checkClientAuthenticationPacket sh sess r.pkt (r.pkt.mem beyond'') slack').2 = 0) ↔
      ¬ (r.auth = [] ∧ userPassword sh.glovars r.user sess.admin = some []) := by
  have hname : (parseChangeUserPacket sess (c.pkt.mem beyond) (c.pkt.length + slack)).mysqlUsername =
    some r.user := by
    rw [parseChangeUserPacket_username, c.cStr_user, huser]
  rcases r.auth_length with h0 | h20
  · have hnil := length_eq_zero_iff.1 h0
    rw [login_nil r beyond'' slack' hnil, hnil, checkAuthSwitchResponsePacket_nil]
    tauto
  · have hne : r.auth ≠ [] := by
      intro h
      rw [h] at h20
      cases h20
    have hswitch := checkAuthSwitchResponsePacket_twenty sh id beyond' h20 hname
    have hlogin := login_twenty sh sess r beyond'' slack' h20
    exact ⟨fun _ h => hne h.1, fun _ => hswitch.trans hlogin.symm⟩

/-- The command for user `user` and schema `db`. -/
def changeUserTo (user auth : List Byte) (huser : 0 ∉ user) (hauth : auth.length < 256) :
    ChangeUserRequest :=
  { id := 0, user := user, auth := auth, schema := bytesOf "db", extra := [], user_nulFree := huser,
    auth_length := hauth, schema_nulFree := by decide }

/-- A reply of twenty bytes for the user `a`. -/
def loginATwenty : HandshakeResponse :=
  loginAs [0x61] (replicate 20 0) loginA.user_nulFree loginAdminx.auth_length

def changeUserA : ChangeUserRequest := changeUserTo [0x61] [] (by decide) (by decide)

theorem changeUser_agrees_twenty :
    ((checkAuthSwitchResponsePacket userWithoutPassword
          (parseChangeUserPacket newSession (changeUserA.pkt.mem fun _ => 0) (changeUserA.pkt.length + 0))
          (authSwitchReply 3 loginATwenty.auth) ((authSwitchReply 3 loginATwenty.auth).mem fun _ => 0)).2 =
            0 ↔
        (checkClientAuthenticationPacket userWithoutPassword newSession loginATwenty.pkt
          (loginATwenty.pkt.mem fun _ => 0) 0).2 = 0) :=
  (changeUser_agrees_iff userWithoutPassword newSession changeUserA loginATwenty 3 (fun _ => 0) (fun _ => 0)
    (fun _ => 0) 0 0 rfl).2 (by decide)

/-- The user `a` has no password: an empty reply is accepted in a login, and refused as the answer to an
    auth switch request. -/
theorem changeUser_empty_reply :
    (checkClientAuthenticationPacket userWithoutPassword newSession loginA.pkt (loginA.pkt.mem fun _ => 0)
      0).2 = 0 ∧ (checkAuthSwitchResponsePacket userWithoutPassword
          (parseChangeUserPacket newSession (changeUserA.pkt.mem fun _ => 0) (changeUserA.pkt.length + 0))
          (authSwitchReply 3 loginA.auth) ((authSwitchReply 3 loginA.auth).mem fun _ => 0)).2 = -1 ∧
      ¬ ((checkAuthSwitchResponsePacket userWithoutPassword
            (parseChangeUserPacket newSession (changeUserA.pkt.mem fun _ => 0) (changeUserA.pkt.length + 0))
            (authSwitchReply 3 loginA.auth) ((authSwitchReply 3 loginA.auth).mem fun _ => 0)).2 = 0 ↔
          (checkClientAuthenticationPacket userWithoutPassword newSession loginA.pkt
            (loginA.pkt.mem fun _ => 0) 0).2 = 0) := by
  refine ⟨by decide, by decide, by decide⟩

/-! ## Parsing freed memory -/

/-- `L_SFC_MAX_ELEM_SIZE`. -/
def sfcMaxElemSize : Nat := 256

/-- Byte `i` of a pointer in memory. -/
def pointerByte (top : BitVec 64) (i : Nat) : Byte := (leBytes 8 top.toNat).getD i 0

/-- The block behind `m` after `l_stack_push`: it starts with the old top of the stack. -/
def pushed (top : BitVec 64) (m : Nat → Byte) : Nat → Byte :=
  fun i => if i < 8 then pointerByte top i else m i

/-- A packet's memory after `l_free`: a block of the pool is pushed on a stack, a larger one goes to `free`,
    which leaves `heap` there. -/
def lFree (heap : Nat → Byte) (top : BitVec 64) (p : Pkt) (m : Nat → Byte) : Nat → Byte :=
  if p.length > sfcMaxElemSize then heap else pushed top m

theorem clientComChangeUser_session (p : Pkt) (env : PktEnv) {st : St} (hadmin : st.sess.admin = 0) :
    wp (clientComChangeUser p env) (fun _ t =>
      t.sess.mysqlUsername = (parseChangeUserPacket st.sess env.freed
        (p.length + env.slack)).mysqlUsername ∧
      t.sess.mysqlSchemaCur = (parseChangeUserPacket st.sess env.freed
        (p.length + env.slack)).mysqlSchemaCur) st := by
  unfold clientComChangeUser
  rw [wp_get_bind, if_neg (by omega)]
  simp only [modifySess, record, mySessAddPktOutClient, wp_bind, wp_modify]
  refine wp_of (disconnectBackends_direction env.now _ (DirectionKept.refl _)) ?_
  rintro _ t ⟨⟨hroute, -⟩, -⟩
  exact ⟨congrArg RouteData.mysqlUsername hroute, congrArg RouteData.mysqlSchemaCur hroute⟩

theorem clientComChangeUser_admin (p : Pkt) (env : PktEnv) {st : St} (hadmin : st.sess.admin > 0) :
    wp (clientComChangeUser p env) (fun _ t => t.sess.mysqlUsername = st.sess.mysqlUsername ∧
      t.sess.mysqlSchemaCur = st.sess.mysqlSchemaCur) st := by
  unfold clientComChangeUser
  rw [wp_get_bind, if_pos hadmin]
  exact ⟨rfl, rfl⟩

theorem cStr_bytes {m : Nat → Byte} {off n : Nat} {s : Str} (h : cStr m off n = s) (hn : s.length < n) :
    0 ∉ s ∧ (∀ i (hi : i < s.length), m (off + i) = s[i]) ∧ m (off + s.length) = 0 := by
  subst h
  have hne : ∀ b ∈ cStr m off n, b ≠ 0 := by
    intro b hb
    exact of_decide_eq_true (mem_takeWhile_imp (p := fun b : Byte => decide (b ≠ 0)) hb)
  have hpre : cStr m off n <+: (range n).map fun i => m (off + i) := takeWhile_prefix _
  have hbytes : ∀ i (hi : i < (cStr m off n).length), m (off + i) = (cStr m off n)[i] := by
    intro i hi
    rw [hpre.getElem hi, getElem_map, getElem_range]
  refine ⟨fun h0 => hne 0 h0 rfl, hbytes, ?_⟩
  -- a NUL has ended the string, and no byte of the string is one
  have hinside : (Access.cString m off n).Inside (off + ((cStr m off n).length + 1)) :=
    forall_mem_singleton.2 (.inr (Nat.le_refl _))
  obtain ⟨i, hoff, hi, hzero⟩ := (Access.inside_cString (by omega)).1 hinside
  obtain ⟨k, rfl⟩ : ∃ k, i = off + k := ⟨i - off, by omega⟩
  by_cases hk : k < (cStr m off n).length
  · exact absurd ((hbytes k hk).symm.trans hzero) (hne _ (getElem_mem hk))
  · obtain rfl : k = (cStr m off n).length := by omega
    exact hzero

/-- The string that one memory holds is found in another just if its bytes and its NUL are. -/
theorem cStr_same_iff {m : Nat → Byte} (m' : Nat → Byte) {off n : Nat} {s : Str} (h : cStr m off n = s)
    (hn : s.length < n) : cStr m' off n = s ↔ ∀ j, off ≤ j → j ≤ off + s.length → m' j = m j := by
  obtain ⟨hs, hbytes, hnul⟩ := cStr_bytes h hn
  constructor
  · intro h' j hoff hj
    obtain ⟨-, hbytes', hnul'⟩ := cStr_bytes h' hn
    obtain ⟨i, rfl⟩ : ∃ i, j = off + i := ⟨j - off, by omega⟩
    by_cases hi : i < s.length
    · rw [hbytes i hi, hbytes' i hi]
    · obtain rfl : i = s.length := by omega
      rw [hnul, hnul']
  · intro hsame
    refine cStr_eq hs hn (fun i hi => ?_) ?_
    · rw [hsame _ (by omega) (by omega), hbytes i hi]
    · rw [hsame _ (by omega) (by omega), hnul]

theorem cStr_pushed (top : BitVec 64) (m : Nat → Byte) {off : Nat} (n : Nat) (h : 8 ≤ off) :
    cStr (pushed top m) off n = cStr m off n := by
  unfold cStr pushed
  congr 1
  refine map_congr_left fun i _ => ?_
  rw [if_neg (by omega)]

namespace ChangeUserRequest

variable (c : ChangeUserRequest) (heap beyond : Nat → Byte) (top : BitVec 64) (slack : Nat)

/-- The user name and its NUL are left in place: by the pointer in a block of the pool, by `free` in a
    larger one. -/
def UserLeft : Prop :=
  ∀ j, sizeofMysqlHdr + 1 ≤ j → j ≤ sizeofMysqlHdr + 1 + c.user.length →
    if c.pkt.length > sfcMaxElemSize then heap j = c.pkt.mem beyond j
    else j < 8 → pointerByte top j = c.pkt.mem beyond j

/-- Twenty-two bytes behind the user name there is the schema. -/
def SchemaFound : Prop :=
  cStr (if c.pkt.length > sfcMaxElemSize then heap else c.pkt.mem beyond)
    (sizeofMysqlHdr + 1 + c.user.length + 2 + 20) (c.pkt.length + slack) = c.schema

/-- In a block of the pool it is there if the reply has twenty bytes. -/
theorem schemaFound_twenty (hlen : c.pkt.length ≤ sfcMaxElemSize) (hauth : c.auth.length = 20) :
    c.SchemaFound heap beyond slack := by
  have hschema := c.cStr_schema beyond slack
  rw [hauth] at hschema
  rw [SchemaFound, if_neg (by omega)]
  exact hschema

/-- What `parse_change_user_packet` finds after `l_free`. -/
theorem parse_freed_iff (sess : Session) :
    (parseChangeUserPacket sess (lFree heap top c.pkt (c.pkt.mem beyond))
        (c.pkt.length + slack)).mysqlUsername = some c.user ∧
      (parseChangeUserPacket sess (lFree heap top c.pkt (c.pkt.mem beyond))
        (c.pkt.length + slack)).mysqlSchemaCur = some c.schema ↔
    c.UserLeft heap beyond top ∧ c.SchemaFound heap beyond slack := by
  have hn : c.user.length < c.pkt.length + slack := by
    have hlen := c.length_pkt
    omega
  have hname := cStr_same_iff (lFree heap top c.pkt (c.pkt.mem beyond)) (c.cStr_user beyond slack) hn
  have huser : cStr (lFree heap top c.pkt (c.pkt.mem beyond)) (sizeofMysqlHdr + 1) (c.pkt.length + slack) =
      c.user ↔ c.UserLeft heap beyond top := by
    rw [hname, UserLeft]
    refine forall_congr' fun j => forall_congr' fun _ => forall_congr' fun _ => ?_
    unfold lFree pushed
    by_cases hlarge : c.pkt.length > sfcMaxElemSize
    · rw [if_pos hlarge, if_pos hlarge]
    · rw [if_neg hlarge, if_neg hlarge]
      by_cases hj : j < 8
      · simp only [hj, if_true, true_implies]
      · simp only [hj, if_false, false_implies]
  have hschema : cStr (lFree heap top c.pkt (c.pkt.mem beyond))
    (sizeofMysqlHdr + 1 + c.user.length + 2 + 20)
      (c.pkt.length + slack) = c.schema ↔ c.SchemaFound heap beyond slack := by
    unfold lFree SchemaFound
    split
    · rfl
    · rw [cStr_pushed _ _ _ (by rw [sizeofMysqlHdr]; omega)]
  show some (cStr _ _ _) = some c.user ∧ some (cStr _ _ _) = some c.schema ↔ _
  rw [some.injEq, some.injEq, ← huser, ← hschema]
  constructor
  · rintro ⟨hu, hs⟩
    rw [hu] at hs
    exact ⟨hu, hs⟩
  · rintro ⟨hu, hs⟩
    rw [hu]
    exact ⟨rfl, hs⟩

end ChangeUserRequest

/-- After COM_CHANGE_USER the session has the user and the schema of the packet, just if the freed memory
    still has the user name where it was and, twenty-two bytes behind it, the schema; or if an admin session
    has them already. -/
theorem changeUser_taken_iff (c : ChangeUserRequest) (st : St) (env : PktEnv) (heap : Nat → Byte)
    (top : BitVec 64) (hfreed : env.freed = lFree heap top c.pkt (c.pkt.mem env.beyond)) :
    ((outcome (clientComChangeUser c.pkt env) st).2.sess.mysqlUsername = some c.user ∧
        (outcome (clientComChangeUser c.pkt env) st).2.sess.mysqlSchemaCur = some c.schema) ↔
      (st.sess.admin = 0 ∧ c.UserLeft heap env.beyond top ∧ c.SchemaFound heap env.beyond env.slack) ∨
        (st.sess.admin > 0 ∧ st.sess.mysqlUsername = some c.user ∧
          st.sess.mysqlSchemaCur = some c.schema) := by
  rcases Nat.eq_zero_or_pos st.sess.admin with h0 | hpos
  · obtain ⟨hu, hs⟩ := clientComChangeUser_session c.pkt env h0
    rw [hu, hs, hfreed, c.parse_freed_iff heap env.beyond top env.slack]
    exact ⟨fun h => .inl ⟨h0, h⟩, fun h => h.elim And.right fun h => by omega⟩
  · obtain ⟨hu, hs⟩ := clientComChangeUser_admin c.pkt env hpos
    rw [hu, hs]
    exact ⟨fun h => .inr ⟨hpos, h⟩, fun h => h.elim (fun h => by omega) And.right⟩

/-- The packet's memory is pushed on an empty stack, and zeros lie behind it. -/
def freedEnv (c : ChangeUserRequest) : PktEnv :=
  { PktEnv.quiet with
    beyond := fun _ => 0, freed := lFree (fun _ => 0) 0 c.pkt (c.pkt.mem fun _ => 0), slack := 0 }

/-- The anonymous user: the NUL of its name is a byte of the pointer. -/
def changeUserAnonymous : ChangeUserRequest := changeUserTo [] (replicate 20 0) (by decide) (by decide)

theorem changeUser_taken_anonymous :
    (outcome (clientComChangeUser changeUserAnonymous.pkt (freedEnv changeUserAnonymous))
        (loginState 0 [] loginA)).2.sess.mysqlUsername = some changeUserAnonymous.user ∧
      (outcome (clientComChangeUser changeUserAnonymous.pkt (freedEnv changeUserAnonymous))
        (loginState 0 [] loginA)).2.sess.mysqlSchemaCur = some changeUserAnonymous.schema := by
  refine (changeUser_taken_iff changeUserAnonymous (loginState 0 [] loginA) (freedEnv changeUserAnonymous)
    (fun _ => 0) 0 rfl).2 (.inl ⟨rfl, ?_, changeUserAnonymous.schemaFound_twenty _ _ _ (by decide) rfl⟩)
  intro j h5 hj
  obtain rfl : j = 5 := Nat.le_antisymm hj h5
  decide

/-- The user `root`, with a reply of twenty bytes. -/
def changeUserRoot : ChangeUserRequest :=
  changeUserTo (bytesOf "root") (replicate 20 0) (by decide) (by decide)

/-- The pointer has erased the name: the session gets the anonymous user. -/
theorem changeUser_root_erased :
    (outcome (clientComChangeUser changeUserRoot.pkt (freedEnv changeUserRoot))
        (loginState 0 [] loginA)).2.sess.mysqlUsername = some [] ∧
      ¬ ((outcome (clientComChangeUser changeUserRoot.pkt (freedEnv changeUserRoot))
            (loginState 0 [] loginA)).2.sess.mysqlUsername = some changeUserRoot.user ∧
          (outcome (clientComChangeUser changeUserRoot.pkt (freedEnv changeUserRoot))
            (loginState 0 [] loginA)).2.sess.mysqlSchemaCur = some changeUserRoot.schema) := by
  have hname : (outcome (clientComChangeUser changeUserRoot.pkt (freedEnv changeUserRoot))
      (loginState 0 [] loginA)).2.sess.mysqlUsername = some [] := by
    obtain ⟨hu, -⟩ := clientComChangeUser_session changeUserRoot.pkt (freedEnv changeUserRoot)
      (show (loginState 0 [] loginA).sess.admin = 0 from rfl)
    decide
  refine ⟨hname, ?_⟩
  rintro ⟨hroot, -⟩
  exact absurd hroot (by decide)

end ProxySQL
