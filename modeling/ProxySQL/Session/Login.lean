/-
  ProxySQL.Session.Login

  Who is let in: the decision of `check_client_authentication_packet` on a
  well-formed handshake response, and the session after
  `process_authentication_pkt`.

  `user_password` looks a user up in the table by its whole name, but compares
  the name of an admin or monitor session with the configured one up to the
  length of the latter.  So a name that extends the configured one passes for it.
-/
import ProxySQL.Session.Handler
import ProxySQL.Session.ParseBounds

namespace ProxySQL

open Lib List Option

/-! ## `proxy_scramble` -/

/-- SHA1, as far as it matters: digests have `SHA_DIGEST_LENGTH` bytes. -/
abbrev Sha1 := List Byte → Fin 20 → Byte

/-- `proxy_compute_sha1_hash`. -/
def proxyComputeSha1Hash (sha1 : Sha1) (buf : List Byte) : List Byte := List.ofFn (sha1 buf)

/-- `proxy_compute_sha1_hash_multi`. -/
def proxyComputeSha1HashMulti (sha1 : Sha1) (buf1 buf2 : List Byte) : List Byte :=
  List.ofFn (sha1 (buf1 ++ buf2))

/-- `proxy_my_crypt`. -/
def proxyMyCrypt (s1 s2 : List Byte) : List Byte := List.zipWith (· ^^^ ·) s1 s2

/-- `proxy_scramble`, of the `SCRAMBLE_LENGTH` bytes of `message`. -/
def proxyScramble (sha1 : Sha1) (message : List Byte) (password : Str) : List Byte :=
  let hashStage1 := proxyComputeSha1Hash sha1 password
  let hashStage2 := proxyComputeSha1Hash sha1 hashStage1
  proxyMyCrypt (proxyComputeSha1HashMulti sha1 (message.take 20) hashStage2) hashStage1

theorem length_proxyScramble (sha1 : Sha1) (message : List Byte) (password : Str) :
    (proxyScramble sha1 message password).length = 20 := by
  simp [proxyScramble, proxyMyCrypt, proxyComputeSha1Hash, proxyComputeSha1HashMulti]

/-! ## Handshake responses -/

/-- A handshake response of protocol 4.1. -/
structure HandshakeResponse where
  id : Byte
  capabilities : BitVec 32
  /-- largest packet, character set and filler -/
  params : List Byte
  user : Str
  auth : List Byte
  schema : Option Str
  /-- what other capabilities add -/
  extra : List Byte
  params_length : params.length = 28
  user_nulFree : 0 ∉ user
  auth_length : auth.length = 0 ∨ auth.length = 20
  schema_nulFree : ∀ s ∈ schema, 0 ∉ s
  schema_announced : schema ≠ none → capabilities.toNat &&& clientConnectWithDb = clientConnectWithDb
  /-- a schema that is announced is the next field -/
  schema_sent : capabilities.toNat &&& clientConnectWithDb = clientConnectWithDb → schema = none →
    extra = []

namespace HandshakeResponse

variable (r : HandshakeResponse)

/-- The schema, with its NUL. -/
def schemaField : List Byte := (r.schema.map fun s => s ++ [0]).getD []

/-- What stands in front of the user name. -/
def front : List Byte := leBytes 4 r.capabilities.toNat ++ r.params

def payload : List Byte :=
  r.front ++ (r.user ++ 0 :: BitVec.ofNat 8 r.auth.length :: (r.auth ++ (r.schemaField ++ r.extra)))

def hdr : MysqlHdr := { pktLength := BitVec.ofNat 24 r.payload.length, pktId := r.id }

def pkt : Pkt := { length := r.payload.length + 4, data := r.hdr.toBytes ++ r.payload }

end HandshakeResponse

/-! ## Reading memory -/

theorem cStr_eq {m : Nat → Byte} {off n : Nat} {s : Str} (hs : 0 ∉ s) (hlen : s.length < n)
    (hm : ∀ i (h : i < s.length), m (off + i) = s[i]) (h0 : m (off + s.length) = 0) : cStr m off n = s := by
  obtain ⟨k, rfl⟩ : ∃ k, n = s.length + (1 + k) := ⟨n - s.length - 1, by omega⟩
  have hfront : (range s.length).map (fun i => m (off + i)) = s := by
    apply ext_getElem
    · rw [length_map, length_range]
    · intro i _ hi
      rw [getElem_map, getElem_range, hm i hi]
  have hne : ∀ b ∈ s, decide (b ≠ 0) = true := by
    intro b hb
    exact decide_eq_true fun h => hs (h ▸ hb)
  rw [cStr, range_add, map_append, hfront, takeWhile_append_of_pos hne, Nat.add_comm 1 k,
    range_succ_eq_map]
  simp [h0]

variable {p : Pkt} {beyond : Nat → Byte}

theorem Pkt.mem_at {pre post : List Byte} {b : Byte} {i : Nat} (hp : p.data = pre ++ b :: post)
    (hi : pre.length = i) : p.mem beyond i = b := by
  subst hi
  rw [Pkt.mem, hp, getD_eq_getElem?_getD, getElem?_append_right (Nat.le_refl _), Nat.sub_self]
  rfl

theorem Pkt.cStr_at {pre post : List Byte} {s : Str} {i n : Nat} (hp : p.data = pre ++ (s ++ 0 :: post))
    (hi : pre.length = i) (hs : 0 ∉ s) (hn : s.length < n) : cStr (p.mem beyond) i n = s := by
  refine cStr_eq hs hn ?_ ?_
  · intro j hj
    have hsplit : p.data = (pre ++ s.take j) ++ s[j] :: (s.drop (j + 1) ++ 0 :: post) := by
      rw [hp, append_assoc, ← cons_append, ← drop_eq_getElem_cons hj, ← append_assoc (s.take j),
        take_append_drop]
    refine Pkt.mem_at hsplit ?_
    rw [length_append, length_take, hi]
    omega
  · have hnul : p.data = (pre ++ s) ++ 0 :: post := by rw [hp, append_assoc]
    refine Pkt.mem_at hnul ?_
    rw [length_append, hi]

/-! ## What is read of a response -/

namespace HandshakeResponse

variable (r : HandshakeResponse) (beyond : Nat → Byte) (slack : Nat)

theorem length_front : r.front.length = 32 := by
  rw [front, length_append, length_leBytes, r.params_length]

theorem pkt_data_user :
    r.pkt.data = (r.hdr.toBytes ++ r.front) ++ (r.user ++ 0 :: BitVec.ofNat 8 r.auth.length ::
      (r.auth ++ (r.schemaField ++ r.extra))) := by
  rw [pkt, payload, append_assoc]

theorem pkt_data_auth :
    r.pkt.data = (r.hdr.toBytes ++ r.front ++ r.user ++ [0, BitVec.ofNat 8 r.auth.length]) ++ r.auth ++
      (r.schemaField ++ r.extra) := by
  rw [pkt_data_user]
  simp only [append_assoc, cons_append, nil_append]

theorem length_hdr_front : (r.hdr.toBytes ++ r.front).length = sizeofMysqlHdr + 32 := by
  rw [length_append, MysqlHdr.length_toBytes, length_front]
  rfl

theorem length_before_auth :
    (r.hdr.toBytes ++ r.front ++ r.user ++ [0, BitVec.ofNat 8 r.auth.length]).length
      = sizeofMysqlHdr + 32 + r.user.length + 1 + 1 := by
  rw [length_append, length_append, length_hdr_front]
  rfl

theorem length_pkt :
    r.pkt.length = sizeofMysqlHdr + 32 + r.user.length + 1 + 1 + r.auth.length +
    (r.schemaField ++ r.extra).length := by
  have hdata : r.pkt.length = r.pkt.data.length := by
    rw [pkt, length_append, MysqlHdr.length_toBytes, Nat.add_comm]
  rw [hdata, pkt_data_auth, length_append, length_append, length_before_auth]

theorem loginUser_pkt : loginUser r.pkt (r.pkt.mem beyond) slack = r.user := by
  refine Pkt.cStr_at r.pkt_data_user r.length_hdr_front r.user_nulFree ?_
  have hlen := r.length_pkt
  omega

theorem loginLength_pkt :
    loginLength r.pkt (r.pkt.mem beyond) slack = sizeofMysqlHdr + 32 + r.user.length + 1 := by
  rw [loginLength, loginUser_pkt]

theorem mem_loginLength :
    r.pkt.mem beyond (sizeofMysqlHdr + 32 + r.user.length + 1) = BitVec.ofNat 8 r.auth.length := by
  have hdata : r.pkt.data = (r.hdr.toBytes ++ r.front ++ r.user ++ [0]) ++
      BitVec.ofNat 8 r.auth.length :: (r.auth ++ (r.schemaField ++ r.extra)) := by
    rw [pkt_data_user]
    simp only [append_assoc, cons_append, nil_append]
  refine Pkt.mem_at hdata ?_
  rw [length_append, length_append, length_hdr_front]
  rfl

theorem auth_cases :
    (r.auth = [] ∧ BitVec.ofNat 8 r.auth.length = 0) ∨
      (r.auth.length = 20 ∧ BitVec.ofNat 8 r.auth.length = 20) := by
  rcases r.auth_length with h | h
  · exact .inl ⟨length_eq_zero_iff.1 h, by rw [h]; rfl⟩
  · exact .inr ⟨h, by rw [h]; rfl⟩

theorem load_capabilities : load (r.pkt.mem beyond) sizeofMysqlHdr 4 = r.capabilities.toNat := by
  have hdata : r.pkt.data = r.hdr.toBytes ++ leBytes 4 r.capabilities.toNat ++
      (r.params ++ (r.user ++ 0 :: BitVec.ofNat 8 r.auth.length ::
        (r.auth ++ (r.schemaField ++ r.extra)))) := by
    rw [pkt_data_user, front]
    simp only [append_assoc]
  have hlen : sizeofMysqlHdr + 4 ≤ r.pkt.data.length := by
    rw [hdata, length_append, length_append, MysqlHdr.length_toBytes, length_leBytes, sizeofMysqlHdr]
    omega
  rw [load, Pkt.map_mem beyond hlen, hdata,
    slice_middle (i := sizeofMysqlHdr) (j := sizeofMysqlHdr + 4) (MysqlHdr.length_toBytes _)
      (by rw [length_leBytes]), leNat_leBytes_of_lt r.capabilities.isLt]

theorem map_mem_reply (h : r.auth.length = 20) :
    (range shaDigestLength).map
      (fun i => r.pkt.mem beyond (sizeofMysqlHdr + 32 + r.user.length + 1 + 1 + i)) = r.auth := by
  have hlen : sizeofMysqlHdr + 32 + r.user.length + 1 + 1 + shaDigestLength ≤ r.pkt.data.length := by
    rw [pkt_data_auth, length_append, length_append, length_before_auth, h, shaDigestLength]
    omega
  rw [Pkt.map_mem beyond hlen, pkt_data_auth, slice_middle r.length_before_auth (by rw [h]; rfl)]

end HandshakeResponse

/-! ## The decision -/

/-- The user is configured for sessions of this kind, with this password. -/
def Configured (g : Glovars) (admin : Nat) (user password : Str) : Prop :=
  if admin = 1 then user = g.proxyAdminUser ∧ password = g.proxyAdminPassword
  else if admin = 2 then user = g.proxyMonitorUser ∧ password = g.proxyMonitorPassword
  else g.usernames.lookup user = some password

/-- The name only starts with the one that is configured for admin or monitor sessions, with this
    password. -/
def ExtendsConfigured (g : Glovars) (admin : Nat) (user password : Str) : Prop :=
  (admin = 1 ∧ g.proxyAdminUser <+: user ∧ user ≠ g.proxyAdminUser ∧ password = g.proxyAdminPassword) ∨
    (admin = 2 ∧ g.proxyMonitorUser <+: user ∧ user ≠ g.proxyMonitorUser ∧
      password = g.proxyMonitorPassword)

/-- The reply is empty as the password is, or it is the scramble of the password. -/
def Proves (sha1 : Sha1) (scrambleBuf auth : List Byte) (password : Str) : Prop :=
  (auth = [] ∧ password = []) ∨ auth = proxyScramble sha1 scrambleBuf password

theorem userPassword_iff (g : Glovars) (admin : Nat) (user password : Str) :
    userPassword g user admin = some password ↔
      Configured g admin user password ∨ ExtendsConfigured g admin user password := by
  -- a prefix is the name itself or a longer one
  have hprefix : ∀ name pass : Str,
      (if name.isPrefixOf user then some pass else none) = some password ↔
        (user = name ∧ password = pass) ∨ (name <+: user ∧ user ≠ name ∧ password = pass) := by
    intro name pass
    by_cases hp : name <+: user
    · rw [if_pos ( isPrefixOf_iff_prefix.2 hp), some.injEq, eq_comm]
      tauto
    · rw [if_neg fun h => hp ( isPrefixOf_iff_prefix.1 h)]
      constructor
      · intro h
        cases h
      · rintro (⟨rfl, -⟩ | ⟨h, -⟩)
        · exact absurd (prefix_refl _) hp
        · exact absurd h hp
  unfold userPassword Configured ExtendsConfigured
  by_cases h1 : admin = 1
  · rw [if_pos h1, if_pos h1, hprefix]
    have h2 : admin ≠ 2 := by omega
    tauto
  · by_cases h2 : admin = 2
    · rw [if_neg h1, if_pos h2, if_neg h1, if_pos h2, hprefix]
      tauto
    · rw [if_neg h1, if_neg h2, if_neg h1, if_neg h2]
      tauto

variable {sha1 : Sha1} {sh : Shared} {sess : Session}

/-- On a well-formed response the check asks for the password of the name and for its proof. -/
theorem credentialsMatch_iff (hscramble : sh.scramble = proxyScramble sha1) (r : HandshakeResponse)
    (beyond : Nat → Byte) (slack : Nat) :
    CredentialsMatch sh sess r.pkt (r.pkt.mem beyond) slack ↔
      ∃ password, userPassword sh.glovars r.user sess.admin = some password ∧
        Proves sha1 sess.scrambleBuf r.auth password := by
  have hproof : ∀ password : Str,
      (if r.pkt.mem beyond (sizeofMysqlHdr + 32 + r.user.length + 1) ≠ 0 then
          scrambleMatches sh sess.scrambleBuf (r.pkt.mem beyond)
            (sizeofMysqlHdr + 32 + r.user.length + 1 + 1) password
        else password == []) = true ↔ Proves sha1 sess.scrambleBuf r.auth password := by
    intro password
    rw [r.mem_loginLength]
    have hlen := length_proxyScramble sha1 sess.scrambleBuf password
    rcases r.auth_cases with ⟨hnil, h0⟩ | ⟨h20, h0⟩
    · rw [h0, if_neg (by decide), Proves, hnil, beq_iff_eq]
      constructor
      · exact fun h => .inl ⟨rfl, h⟩
      · rintro (⟨-, h⟩ | h)
        · exact h
        · rw [← h] at hlen
          cases hlen
    · have hne : r.auth ≠ [] := by
        rintro h
        rw [h] at h20
        cases h20
      rw [h0, if_pos (by decide), Proves, scrambleMatches, r.map_mem_reply beyond h20, beq_iff_eq,
        hscramble, take_of_length_le (by rw [hlen]; decide), eq_comm]
      tauto
  unfold CredentialsMatch
  rw [r.loginUser_pkt, r.loginLength_pkt]
  simp only [hproof]

/-! ## The session afterwards -/

theorem checkClientAuthenticationPacket_username (sh : Shared) (sess : Session) (p : Pkt) (m : Nat → Byte)
    (slack : Nat) :
    (checkClientAuthenticationPacket sh sess p m slack).1.mysqlUsername = some (loginUser p m slack) := by
  unfold checkClientAuthenticationPacket
  dsimp only
  repeat' split
  all_goals rfl

theorem checkClientAuthenticationPacket_schema {p : Pkt} {m : Nat → Byte} {slack : Nat}
    (h : CredentialsMatch sh sess p m slack) :
    (checkClientAuthenticationPacket sh sess p m slack).1.mysqlSchemaCur
      = if loginLength p m slack + 1 + (m (loginLength p m slack)).toNat ≠ p.length ∧
            load m sizeofMysqlHdr 4 &&& clientConnectWithDb = clientConnectWithDb then
          some (cStr m (loginLength p m slack + 1 + (m (loginLength p m slack)).toNat) (p.length + slack))
        else sess.mysqlSchemaCur := by
  obtain ⟨password, hpass, hreply⟩ := h
  have hpass' : userPassword sh.glovars (cStr m (sizeofMysqlHdr + 32) (p.length + slack)) sess.admin =
    some password :=
    hpass
  unfold checkClientAuthenticationPacket
  dsimp only
  rw [hpass']
  dsimp only
  rw [if_pos (by exact hreply)]
  unfold loginLength loginUser
  split <;> rfl

theorem HandshakeResponse.check_schema (r : HandshakeResponse) {beyond : Nat → Byte} {slack : Nat}
    (h : CredentialsMatch sh sess r.pkt (r.pkt.mem beyond) slack) :
    (checkClientAuthenticationPacket sh sess r.pkt (r.pkt.mem beyond) slack).1.mysqlSchemaCur
      = (r.schema <|> sess.mysqlSchemaCur) := by
  have hlen := r.length_pkt
  have hbyte : (BitVec.ofNat 8 r.auth.length).toNat = r.auth.length := by
    rcases r.auth_length with h | h <;> rw [h] <;> rfl
  rw [checkClientAuthenticationPacket_schema h, r.loginLength_pkt, r.mem_loginLength, hbyte,
    r.load_capabilities]
  cases hschema : r.schema with
  | none =>
    rw [if_neg]
    · rfl
    · rintro ⟨hcur, hflag⟩
      have hextra := r.schema_sent hflag hschema
      rw [HandshakeResponse.schemaField, hschema, hextra] at hlen
      exact hcur (by rw [hlen]; rfl)
  | some s =>
    have hflag := r.schema_announced (by rw [hschema]; exact some_ne_none s)
    have hfield : r.schemaField = s ++ [0] := by rw [HandshakeResponse.schemaField, hschema]; rfl
    rw [hfield, length_append, length_append, length_singleton] at hlen
    rw [if_pos ⟨by omega, hflag⟩]
    have hdata : r.pkt.data = (r.hdr.toBytes ++ r.front ++ r.user ++ [0, BitVec.ofNat 8 r.auth.length] ++
        r.auth) ++ (s ++ 0 :: r.extra) := by
      rw [r.pkt_data_auth, hfield]
      simp only [append_assoc, singleton_append]
    have hstr : cStr (r.pkt.mem beyond) _ (r.pkt.length + slack) = s := Pkt.cStr_at hdata
      (by rw [length_append, r.length_before_auth]) (r.schema_nulFree s hschema) (by omega)
    rw [hstr]
    rfl

theorem processAuthenticationPkt_session {st : St} {r : HandshakeResponse} {pkts : List Pkt}
    {beyond : Nat → Byte} {slack : Nat} (hpkts : st.sess.clientMyds.input.pkts = r.pkt :: pkts)
    (h : CredentialsMatch st.sh st.sess r.pkt (r.pkt.mem beyond) slack) :
    wp (processAuthenticationPkt beyond slack) (fun _ t => t.sess.mysqlUsername = some r.user ∧
      t.sess.mysqlSchemaCur
        = (r.schema <|> st.sess.mysqlSchemaCur <|> some st.sh.glovars.mysqlDefaultSchema)) st := by
  -- the session that is checked the second time has lost the packet only
  have htaken : ∀ myds, CredentialsMatch st.sh { st.sess with clientMyds := myds } r.pkt
    (r.pkt.mem beyond) slack :=
    fun _ => h
  have hret := checkClientAuthenticationPacket_accepts.2 h
  unfold processAuthenticationPkt
  rw [wp_get_bind, hpkts]
  simp only [modifySess, record, mySessAddPktOutClient, wp_bind, wp_modify, hret]
  rw [if_neg (by decide)]
  refine ⟨?_, ?_⟩
  · exact (checkClientAuthenticationPacket_username _ _ _ _ _).trans
      (congrArg some (r.loginUser_pkt beyond slack))
  · have hschema := fun myds => r.check_schema (htaken myds)
    have hassoc : ((r.schema <|> st.sess.mysqlSchemaCur) <|> some st.sh.glovars.mysqlDefaultSchema)
        = (r.schema <|> st.sess.mysqlSchemaCur <|> some st.sh.glovars.mysqlDefaultSchema) := by
      cases r.schema <;> rfl
    exact (congrArg (fun s => s <|> some st.sh.glovars.mysqlDefaultSchema) (hschema _)).trans hassoc

/-! ## Main result -/

/-- What a login should do: it is accepted just if the whole name is configured and the reply proves its
    password; then the session has the user, and the schema of the response or else the default one. -/
structure LoginDecided (sha1 : Sha1) (st : St) (r : HandshakeResponse) (beyond : Nat → Byte) (slack : Nat) :
    Prop where
  decision : (checkClientAuthenticationPacket st.sh st.sess r.pkt (r.pkt.mem beyond) slack).2 = 0 ↔
    ∃ password, Configured st.sh.glovars st.sess.admin r.user password ∧
      Proves sha1 st.sess.scrambleBuf r.auth password
  session : (checkClientAuthenticationPacket st.sh st.sess r.pkt (r.pkt.mem beyond) slack).2 = 0 →
    (outcome (processAuthenticationPkt beyond slack) st).2.sess.mysqlUsername = some r.user ∧
      (outcome (processAuthenticationPkt beyond slack) st).2.sess.mysqlSchemaCur
        = some (r.schema.getD st.sh.glovars.mysqlDefaultSchema)

/-- No schema was set before, other than the default one. -/
def SchemaUnset (g : Glovars) (sess : Session) : Prop :=
  sess.mysqlSchemaCur = none ∨ sess.mysqlSchemaCur = some g.mysqlDefaultSchema

theorem configured_not_extends {g : Glovars} {admin : Nat} {user password password' : Str}
    (h : Configured g admin user password) : ¬ ExtendsConfigured g admin user password' := by
  unfold Configured at h
  rintro (⟨rfl, -, hne, -⟩ | ⟨rfl, -, hne, -⟩)
  · exact hne h.1
  · exact hne h.1

/-- A login is decided as it should just if the name is not an extension of the configured admin or monitor
    name that proves the password of the latter, and if an accepted response that names no schema finds
    none. -/
theorem loginDecided_iff (sha1 : Sha1) (st : St) (r : HandshakeResponse) (pkts : List Pkt)
    (beyond : Nat → Byte) (slack : Nat) (hscramble : st.sh.scramble = proxyScramble sha1)
    (hpkts : st.sess.clientMyds.input.pkts = r.pkt :: pkts) :
    LoginDecided sha1 st r beyond slack ↔
      (¬ ∃ password, ExtendsConfigured st.sh.glovars st.sess.admin r.user password ∧
        Proves sha1 st.sess.scrambleBuf r.auth password) ∧
      ((∃ password, Configured st.sh.glovars st.sess.admin r.user password ∧
          Proves sha1 st.sess.scrambleBuf r.auth password) →
        r.schema ≠ none ∨ SchemaUnset st.sh.glovars st.sess) := by
  have haccepts : (checkClientAuthenticationPacket st.sh st.sess r.pkt (r.pkt.mem beyond) slack).2 = 0 ↔
      ∃ password, (Configured st.sh.glovars st.sess.admin r.user password ∨
        ExtendsConfigured st.sh.glovars st.sess.admin r.user password) ∧
        Proves sha1 st.sess.scrambleBuf r.auth password := by
    rw [checkClientAuthenticationPacket_accepts, credentialsMatch_iff hscramble]
    simp only [userPassword_iff]
  have hsession :=
    fun (h : (checkClientAuthenticationPacket st.sh st.sess r.pkt (r.pkt.mem beyond) slack).2 = 0) =>
    processAuthenticationPkt_session hpkts (checkClientAuthenticationPacket_accepts.1 h)
  constructor
  · rintro ⟨hdecision, hafter⟩
    constructor
    · rintro ⟨password, hext, hproof⟩
      obtain ⟨password', hconf, -⟩ := hdecision.1 (haccepts.2 ⟨password, .inr hext, hproof⟩)
      exact configured_not_extends hconf hext
    · rintro hauth
      have h0 := hdecision.2 hauth
      have hcur := (hsession h0).2.symm.trans (hafter h0).2
      cases hschema : r.schema with
      | some s => exact .inl (some_ne_none s)
      | none =>
          refine .inr ?_
          rw [hschema] at hcur
          unfold SchemaUnset
          cases hprev : st.sess.mysqlSchemaCur with
          | none => exact .inl rfl
          | some s =>
              rw [hprev] at hcur
              exact .inr hcur
  · rintro ⟨hext, hschema⟩
    have hdecision : (checkClientAuthenticationPacket st.sh st.sess r.pkt (r.pkt.mem beyond) slack).2 = 0 ↔
        ∃ password, Configured st.sh.glovars st.sess.admin r.user password ∧
          Proves sha1 st.sess.scrambleBuf r.auth password := by
      rw [haccepts]
      constructor
      · rintro ⟨password, hconf | hconf, hproof⟩
        · exact ⟨password, hconf, hproof⟩
        · exact absurd ⟨password, hconf, hproof⟩ hext
      · rintro ⟨password, hconf, hproof⟩
        exact ⟨password, .inl hconf, hproof⟩
    refine ⟨hdecision, fun h0 => ⟨(hsession h0).1, (hsession h0).2.trans ?_⟩⟩
    rcases hschema (hdecision.1 h0) with hsome | hnone | hdefault
    · obtain ⟨s, hs⟩ := ne_none_iff_exists'.1 hsome
      rw [hs]
      rfl
    · rw [hnone]
      cases r.schema <;> rfl
    · rw [hdefault]
      cases r.schema <;> rfl

/-- A response without a schema. -/
def loginAs (user : Str) (auth : List Byte) (huser : 0 ∉ user)
    (hauth : auth.length = 0 ∨ auth.length = 20) :
    HandshakeResponse :=
  { id := 1, capabilities := 0xa685, params := replicate 28 0, user := user, auth := auth, schema := none,
    extra := [], params_length := by decide, user_nulFree := huser, auth_length := hauth,
    schema_nulFree := (fun _ h => by cases h), schema_announced := (fun h => absurd rfl h),
    schema_sent := fun _ _ => rfl }

/-- A session of kind `admin` that has received `r`; every digest is zeros. -/
def loginState (admin : Nat) (usernames : List (Str × Str)) (r : HandshakeResponse) : St :=
  { sh := Shared.init { glovarsDefault with usernames := usernames } (fun _ => [])
      (proxyScramble fun _ _ => 0),
    sess := { newSession with
      admin := admin,
      clientMyds :=
        { newSession.clientMyds with input := { newSession.clientMyds.input with pkts := [r.pkt] } } } }

/-- The user `a` without a password. -/
def loginA : HandshakeResponse := loginAs [0x61] [] (by decide) (by decide)

theorem loginDecided_a : LoginDecided (fun _ _ => 0) (loginState 0 [([0x61], [])] loginA) loginA
    (fun _ => 0) 0 := by
  refine (loginDecided_iff (fun _ _ => 0) (loginState 0 [([0x61], [])] loginA) loginA []
    (fun _ => 0) 0 rfl rfl).2 ⟨?_, fun _ => .inr (.inl rfl)⟩
  rintro ⟨_, ⟨h, _⟩ | ⟨h, _⟩, _⟩ <;> cases h

/-- The user `adminx` with the password of `admin`. -/
def loginAdminx : HandshakeResponse := loginAs (bytesOf "adminx") (replicate 20 0) (by decide) (by decide)

/-- It is let in as an administrator. -/
theorem loginDecided_adminx :
    loginAdminx.auth = proxyScramble (fun _ _ => 0) newSession.scrambleBuf
      glovarsDefault.proxyAdminPassword ∧ loginAdminx.user ≠ glovarsDefault.proxyAdminUser ∧
      (checkClientAuthenticationPacket (loginState 1 [] loginAdminx).sh (loginState 1 [] loginAdminx).sess
        loginAdminx.pkt (loginAdminx.pkt.mem fun _ => 0) 0).2 = 0 ∧
      ¬ LoginDecided (fun _ _ => 0) (loginState 1 [] loginAdminx) loginAdminx (fun _ => 0) 0 := by
  have hret : (checkClientAuthenticationPacket (loginState 1 [] loginAdminx).sh
    (loginState 1 [] loginAdminx).sess
      loginAdminx.pkt (loginAdminx.pkt.mem fun _ => 0) 0).2 = 0 := by decide
  refine ⟨by decide, by decide, hret, ?_⟩
  rintro ⟨hdecision, -⟩
  obtain ⟨_, hconf, -⟩ := hdecision.1 hret
  exact absurd hconf.1 (by decide)

end ProxySQL
