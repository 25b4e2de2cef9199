/-
  ProxySQL.Session.ChangeUser

  The second half of COM_CHANGE_USER.

  `client_COM_CHANGE_USER` replaces the user name of the session before the
  client has proved anything, and sets `waiting_change_user_response`.  The
  proof is the next packet, a scramble of twenty bytes.  Its first byte is
  looked at as if it were a command, and only the `default:` branch of the
  switch asks whether a scramble is expected.
-/
import ProxySQL.Session.Steps

namespace ProxySQL

open Lib List Option

/-! ## What the check accepts -/

/-- The packet holds twenty bytes: the scramble of the password of the session's user. -/
structure CorrectScramble (st : St) (p : Pkt) (beyond : Nat → Byte) : Prop where
  length : p.length = sizeofMysqlHdr + 20
  hdr : (MysqlHdr.ofBytes ((range 4).map (p.mem beyond))).pktLength = 20
  scramble : ∃ u password, st.sess.mysqlUsername = some u ∧
    userPassword st.sh.glovars u st.sess.admin = some password ∧
    (range shaDigestLength).map (fun i => p.mem beyond (sizeofMysqlHdr + i))
      = (st.sh.scramble st.sess.scrambleBuf password).take shaDigestLength

theorem checkAuthSwitchResponsePacket_zero_or (sh : Shared) (s : Session) (p : Pkt) (m : Nat → Byte) :
    (checkAuthSwitchResponsePacket sh s p m).2 = 0 ∨ (checkAuthSwitchResponsePacket sh s p m).2 = -1 := by
  unfold checkAuthSwitchResponsePacket
  dsimp only
  split
  · exact .inr rfl
  · split
    · exact .inr rfl
    · split
      · exact .inr rfl
      · split
        · exact .inl rfl
        · exact .inr rfl

variable {st : St} {p : Pkt} {env : PktEnv} {pkts : List Pkt}

theorem CorrectScramble.accepted {beyond : Nat → Byte} (h : CorrectScramble st p beyond) :
    (checkAuthSwitchResponsePacket st.sh st.sess p (p.mem beyond)).2 = 0 := by
  obtain ⟨u, password, hu, hpass, hscramble⟩ := h.scramble
  have hmatch : scrambleMatches st.sh st.sess.scrambleBuf (p.mem beyond) sizeofMysqlHdr password =
    true := by
    rw [scrambleMatches, hscramble]
    exact beq_self_eq_true _
  unfold checkAuthSwitchResponsePacket
  rw [if_neg (not_not.2 h.length), if_neg (not_not.2 h.hdr)]
  simp only [hu, bind_some, hpass]
  rw [if_pos hmatch]

/-! ## The next packet -/

/-- The commands that the switch knows. -/
def KnownCommand (cmd : Nat) : Prop :=
  cmd = mysqlComQuit ∨ cmd = mysqlComInitDb ∨ cmd = mysqlComQuery ∨ cmd = mysqlComStatistics ∨
    cmd = mysqlComChangeUser

instance (cmd : Nat) : Decidable (KnownCommand cmd) := by
  unfold KnownCommand
  infer_instance

theorem wp_processClientPkt (hpkts : st.sess.clientMyds.input.pkts = p :: pkts)
    (Q : Except Fault Flow → St → Prop) : wp (processClientPkt env) Q st ↔
      if (p.mem env.beyond sizeofMysqlHdr).toNat = mysqlComQuit then
        Q (.ok .quit) (started env p pkts st)
      else wp (do let p ← dispatchCommand p env; afterDispatch p env) Q (started env p pkts st) := by
  unfold processClientPkt
  rw [wp_bind, wp_takeClientPkt hpkts]
  simp only [wp_get_bind, wp_ite]
  exact Iff.rfl

/-- The packet is handed to `check_auth_switch_response_packet` and nothing else is done with it; the
    session goes on only if that returns 0, which it does for every correct scramble. -/
def OnlyChecked (env : PktEnv) (st : St) (p : Pkt) : Prop :=
  wp (processClientPkt env) (fun r t => ∃ rc,
    t.sess.trace = st.sess.trace ++ [.dispatched (p.mem env.beyond sizeofMysqlHdr), .authSwitch rc] ∧
    (∀ flow, r = .ok flow → rc = 0 ∨ flow = .quit) ∧
    (CorrectScramble st p env.beyond → rc = 0 ∧ r = .ok .next ∧
      t.sess.clientMyds.output.pkts = st.sess.clientMyds.output.pkts ++ [createOkPacket 3])) st

theorem wp_dispatchCommand_default (h : ¬ KnownCommand st.sess.clientCommand)
    (Q : Except Fault Pkt → St → Prop) :
    wp (dispatchCommand p env) Q st ↔ wp (do clientComDefault p env; return p) Q st := by
  unfold KnownCommand at h
  simp only [not_or] at h
  obtain ⟨-, hinit, hquery, hstat, hchange⟩ := h
  unfold dispatchCommand
  rw [wp_get_bind]
  simp only [if_neg hstat, if_neg hinit, if_neg hquery, if_neg hchange]

theorem trace_stable (tr : List Action) : Stable (fun _ => False) (fun st => st.sess.trace = tr) :=
  Blind.stable (fun _ _ hst ht _ => ht.trans hst) fun _ ha => ha.elim

theorem afterDispatch_unhealthy (p : Pkt) (h : st.sess.healthy = false) :
    wp (afterDispatch p env) (fun r t =>
      t.sess.trace = st.sess.trace ∧ ∀ flow, r = .ok flow → flow = .quit) st := by
  unfold afterDispatch
  rw [wp_get_bind]
  simp only [h, if_true]
  refine wp_bind_of (writeOnePktToNet_keeps (trace_stable st.sess.trace).still _ _ st rfl) ?_ ?_
  · intro _ t ht
    refine ⟨ht, fun flow hflow => ?_⟩
    cases hflow
    rfl
  · intro e t ht
    exact ⟨ht, nofun⟩

theorem afterDispatch_answered (p : Pkt) (h : st.sess.healthy = true)
    (hhit : st.sess.mysqlQueryCacheHit = true) :
    wp (afterDispatch p env) (fun r t => r = .ok .next ∧ t.sess.mybes = st.sess.mybes ∧
      t.sess.trace = st.sess.trace ∧ t.sess.clientMyds = st.sess.clientMyds) st := by
  unfold afterDispatch
  simp [h, hhit]

theorem clientComDefault_waiting {rc : Int} (hwait : st.sess.waitingChangeUserResponse = true)
    (hadmin : st.sess.admin = 0) (hhealthy : st.sess.healthy = true)
    (hrc : (checkAuthSwitchResponsePacket st.sh st.sess p (p.mem env.beyond)).2 = rc) :
    wp (clientComDefault p env) (fun r t => r = .ok () ∧ t.sess.mybes = st.sess.mybes ∧
      t.sess.trace = st.sess.trace ++ [.authSwitch rc] ∧
      ((rc = -1 ∧ t.sess.healthy = false) ∨
        (rc = 0 ∧ t.sess.healthy = true ∧ t.sess.mysqlQueryCacheHit = true ∧
          t.sess.clientMyds.output.pkts
            = st.sess.clientMyds.output.pkts ++ [createOkPacket 3]))) st := by
  obtain ⟨password, hs⟩ := checkAuthSwitchResponsePacket_frame st.sh st.sess p (p.mem env.beyond)
  simp only [clientComDefault, authSwitchResponse, wp_bind, wp_get, wp_when, wp_modifySess, wp_record,
    hwait, hrc, hs, if_true, wp_ite]
  rcases checkAuthSwitchResponsePacket_zero_or st.sh st.sess p (p.mem env.beyond) with h0 | h1
  · obtain rfl : rc = 0 := hrc.symm.trans h0
    simp [hadmin, hhealthy, Session.addOut, MysqlDataStream.addOut]
  · obtain rfl : rc = -1 := hrc.symm.trans h1
    simp [hadmin]

/-- A packet that no case of the switch claims is checked, and nothing else happens to it. -/
theorem onlyChecked_of_unknown (hpkts : st.sess.clientMyds.input.pkts = p :: pkts)
    (hwait : st.sess.waitingChangeUserResponse = true) (hadmin : st.sess.admin = 0)
    (hhealthy : st.sess.healthy = true) (hc : ¬ KnownCommand (p.mem env.beyond sizeofMysqlHdr).toNat) :
    OnlyChecked env st p := by
  unfold OnlyChecked
  rw [wp_processClientPkt hpkts, if_neg fun hquit => hc (.inl hquit), wp_bind,
    wp_dispatchCommand_default hc, wp_bind]
  have hscramble : CorrectScramble st p env.beyond → CorrectScramble (started env p pkts st) p env.beyond :=
    fun h => ⟨h.length, h.hdr, h.scramble⟩
  refine wp_of (clientComDefault_waiting hwait hadmin hhealthy rfl) ?_
  rintro _ t ⟨rfl, -, htrace, hcase⟩
  rw [wp_pure]
  have htrace' : t.sess.trace = st.sess.trace ++ [.dispatched (p.mem env.beyond sizeofMysqlHdr),
      .authSwitch (checkAuthSwitchResponsePacket st.sh (started env p pkts st).sess p
        (p.mem env.beyond)).2] := by
    rw [htrace]
    simp [started]
  rcases hcase with ⟨hrc, hsick⟩ | ⟨hrc, hwell, hhit, hout⟩
  · -- the check has failed, and so has the session
    refine wp_of (afterDispatch_unhealthy p hsick) ?_
    rintro r u ⟨hu, hflow⟩
    refine ⟨_, hu.trans htrace', fun flow hr => .inr (hflow flow hr), fun h => ?_⟩
    have h0 := (hscramble h).accepted
    rw [hrc] at h0
    cases h0
  · refine wp_of (afterDispatch_answered p hwell hhit) ?_
    rintro _ u ⟨rfl, -, hu, hmyds⟩
    refine ⟨_, hu.trans htrace', fun flow _ => .inl hrc, fun _ => ⟨hrc, rfl, ?_⟩⟩
    rw [hmyds, hout]
    rfl

/-! ## Packets that look like a command -/

/-- Every action but the check of a scramble. -/
def NotCheck : Action → Prop
  | .authSwitch _ => False
  | _ => True

theorem dispatchCommand_known {tr : List Action} (hcmd : KnownCommand st.sess.clientCommand)
    (hquit : st.sess.clientCommand ≠ mysqlComQuit) (htr : Grown tr NotCheck st) :
    wp (dispatchCommand p env) (fun _ t => Grown tr NotCheck t) st := by
  have h := (Grown.stable tr NotCheck).steady
  have hb := (Grown.blind tr NotCheck).unwired
  unfold dispatchCommand
  rw [wp_get_bind]
  dsimp only
  split
  · exact (clientComStatistics_keeps h).bind (fun _ => .pure p) st htr
  · split
    · refine wp_bind_of (clientComInitDb_wp h trivial (fun _ i => hb.bereset i false env.now) htr) ?_ ?_
      · exact fun _ _ ht => ht
      · exact fun _ _ ht => ht
    · split
      · split
        · exact clientComQuery_keeps (Grown.stable tr NotCheck).dispatch trivial p env.fill st htr
        · exact (adminComQuery_keeps h trivial env).bind (fun _ => .pure p) st htr
      · split
        · refine wp_bind_of (clientComChangeUser_wp h trivial (fun _ i => hb.bereset i false env.now) p htr)
            ?_ ?_
          · exact fun _ _ ht => ht
          · exact fun _ _ ht => ht
        · -- the remaining case is COM_QUIT, which does not get here
          rcases hcmd with hc | hc | hc | hc | hc <;> contradiction

theorem processClientPkt_known (hpkts : st.sess.clientMyds.input.pkts = p :: pkts)
    (hc : KnownCommand (p.mem env.beyond sizeofMysqlHdr).toNat) :
    wp (processClientPkt env) (fun _ t => Grown st.sess.trace NotCheck t) st := by
  have hstart : Grown st.sess.trace NotCheck (started env p pkts st) :=
    ⟨[.dispatched (p.mem env.beyond sizeofMysqlHdr)], rfl, by simp [NotCheck]⟩
  have h := (Grown.stable st.sess.trace NotCheck).steady
  have hb := (Grown.blind st.sess.trace NotCheck).unwired
  rw [wp_processClientPkt hpkts]
  split
  case isTrue => exact hstart
  case isFalse hquit =>
    refine wp_bind_of (dispatchCommand_known hc hquit hstart) ?_ fun _ _ ht => ht
    exact fun q t ht => afterDispatch_keeps h (fun _ => trivial) (hb.keepsBackends env)
      (fun hg p => hb.mySessAddPktOutServer hg p _) q t ht

/-! ## Reachable states -/

/-- Admin sessions do not wait for an auth switch response. -/
def OnlyUsersWait (st : St) : Prop := st.sess.waitingChangeUserResponse = true → st.sess.admin = 0

theorem onlyUsersWait_stable : Stable (fun _ => True) OnlyUsersWait where
  sess := by
    intro st s' hst hlocal hwait
    rw [hlocal.admin]
    by_contra hne
    exact hne (hst (hlocal.waiting (Nat.pos_of_ne_zero hne) hwait))
  record hst _ := hst
  cache _ hst := hst

theorem onlyUsersWait_of_run {g : Glovars} {md5 : List Byte → Str} {scramble : List Byte → Str → List Byte}
    {w : World} {es : List Event} (hrun : Run WorldStep (World.init g md5 scramble) es w) :
    ∀ s ∈ w.sessions, s.waitingChangeUserResponse = true → s.admin = 0 := by
  refine sessions_invariant (fun _ _ _ _ _ _ h => nomatch h) (fun st e t hstep hst => ?_) hrun
    fun s hs => nomatch hs
  have hkeeps : Keeps OnlyUsersWait e.prog :=
    SessEvent.keeps onlyUsersWait_stable (fun _ _ _ h => h) (fun _ _ _ _ h => h) e
  exact hkeeps.ends hstep.2 hst

/-- In every reachable state in which a session waits for the answer to its auth switch request, the
    next packet is handed to the check and to nothing else exactly if its first byte is none of the
    commands the switch knows.  (`process_client_pkts` takes packets of healthy sessions only.) -/
theorem changeUser_gate_iff {g : Glovars} {md5 : List Byte → Str} {scramble : List Byte → Str → List Byte}
    {w : World} {es : List Event} (hrun : Run WorldStep (World.init g md5 scramble) es w) {i : Nat}
    {s : Session} (hs : w.sessions[i]? = some s) (hwait : s.waitingChangeUserResponse = true)
    (hhealthy : s.healthy = true) (env : PktEnv) {p : Pkt} {pkts : List Pkt}
    (hpkts : s.clientMyds.input.pkts = p :: pkts) :
    OnlyChecked env { sh := w.sh, sess := s } p ↔
      ¬ KnownCommand (p.mem env.beyond sizeofMysqlHdr).toNat := by
  constructor
  · rintro ⟨rc, htrace, -⟩ hc
    obtain ⟨acts, hgrown, hacts⟩ := @processClientPkt_known { sh := w.sh, sess := s } p env pkts hpkts hc
    rw [hgrown, append_cancel_left_eq] at htrace
    rw [htrace] at hacts
    exact hacts (.authSwitch rc) (by simp)
  · have hadmin : s.admin = 0 := onlyUsersWait_of_run hrun s (mem_of_getElem? hs) hwait
    exact onlyChecked_of_unknown hpkts hwait hadmin hhealthy

/-- User `u` logs in and asks to become user `x`; `l_free` has put a pointer over the start of the
    packet. -/
def becomeX : List Call :=
  let pkt := frame 0 ([0x11] ++ bytesOf "x" ++ [0, 20] ++ replicate 20 0 ++ bytesOf "d" ++ [0])
  let env := HandlerEnv.fromClient pkt
  login 0 ++ [.handle 0 { env with client := fun _ =>
    { PktEnv.quiet with freed := fun i => if i < 8 then 0 else pkt.getD i 0 } }]

set_option maxRecDepth 4000 in
/-- A client that answers the request with twenty bytes, the first of them 0xaa. -/
theorem changeUser_gate_scramble :
    ∃ es w s p, Run WorldStep oneServer es w ∧ w.sessions[0]? = some s ∧
      s.waitingChangeUserResponse = true ∧ OnlyChecked .quiet { sh := w.sh, sess := s } p := by
  have hexec : ((exec World.call oneServer becomeX).bind fun w => w.runSession 0 do
        readFromNet2 { NetEnv.quiet with inClient := some (frame 1 (replicate 20 0xaa)) }
        buffer2array2 fun _ => 0).map (fun w => w.sessions.map fun s =>
          (s.waitingChangeUserResponse, s.healthy, s.clientMyds.input.pkts.map Pkt.data))
      = some [(true, true, [frame 1 (replicate 20 0xaa)])] := by decide +kernel
  obtain ⟨w, hw, hsessions⟩ := map_eq_some_iff.1 hexec
  obtain ⟨w1, hw1, hread⟩ := bind_eq_some_iff.1 hw
  obtain ⟨es, hrun⟩ := World.exec_run hw1
  obtain ⟨fs, hrun'⟩ := World.runSession_run
    (reaches_handlerParts.bind (reaches_handlerParts.step (.readFromNet _) trivial fun _ =>
      trivial) fun _ =>
      reaches_handlerParts.step (.buffer2array _) trivial fun _ => trivial) hread
  obtain ⟨s, hs, hfields⟩ := map_eq_singleton_iff.1 hsessions
  obtain ⟨hwait, hhealthy, hpkts⟩ : _ ∧ _ ∧ _ := by simpa only [Prod.mk.injEq] using hfields
  obtain ⟨p, hp, hdata⟩ := map_eq_singleton_iff.1 hpkts
  have hget : w.sessions[0]? = some s := by rw [hs]; rfl
  refine ⟨es ++ fs, w, s, p, hrun.append hrun', hget, hwait, ?_⟩
  rw [changeUser_gate_iff (hrun.append hrun') hget hwait hhealthy .quiet hp, Pkt.mem, hdata]
  decide +kernel

set_option maxRecDepth 4000 in
/-- A query in the place of the answer goes to the server, on behalf of the new user. -/
theorem changeUser_then_query :
    ∃ es w s, Run WorldStep oneServer es w ∧ w.sessions[0]? = some s ∧
      s.waitingChangeUserResponse = true ∧
      s.trace = [.authenticated 0, .dispatched 0x11, .changeUser, .dispatched 0x03, .forwarded 0] := by
  exact World.exists_session_calls oneServer
    (.flushHostgroups [dbRow] :: becomeX ++ [.handle 0 (.fromClient (queryPkt "SELECT 1"))]) 0
    (by decide +kernel)

end ProxySQL
