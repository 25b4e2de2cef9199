/-
  ProxySQL.Session.LongCommands

  Commands of 2^24-1 bytes or more, which the protocol cuts into several packets.

  `process_client_pkts` knows nothing of such commands: it takes the first payload
  byte of every packet for a command, also that of a packet in the middle of one.
  Such a packet follows the first one only if its byte is no label of a switch and
  commands go to that hostgroup by default (`continuation_passedOn_iff`).
-/
import ProxySQL.Session.ChangeUser
import ProxySQL.Session.Destination
import ProxySQL.Session.Forwarding

namespace ProxySQL

open Lib List Option

/-! ## The packets of a command -/

/-- The payload of a packet that is followed by another one of the same command. -/
def maxPayload : Nat := 2 ^ 24 - 1

/-- The packet that carries `payload`. -/
def payloadPkt (id : Nat) (payload : List Byte) : Pkt :=
  { length := sizeofMysqlHdr + payload.length,
    data := (MysqlHdr.mk (BitVec.ofNat 24 payload.length) (BitVec.ofNat 8 id)).toBytes ++ payload }

/-- The packets of a command: full ones, and a last one that is shorter and may be empty. -/
inductive CommandPkts : Nat → List Byte → List Pkt → Prop where
  | last {id : Nat} {payload : List Byte} : payload.length < maxPayload →
      CommandPkts id payload [payloadPkt id payload]
  | more {id : Nat} {part rest : List Byte} {pkts : List Pkt} : part.length = maxPayload →
      CommandPkts (id + 1) rest pkts → CommandPkts id (part ++ rest) (payloadPkt id part :: pkts)

/-- The byte at cut `k` of a command, or what is in memory behind its last packet if that is
    empty. -/
def cutByte (payload : List Byte) (beyond : Nat → Byte) (k : Nat) : Byte :=
  payload.getD (k * maxPayload) (beyond 0)

theorem payloadPkt_mem (id : Nat) (payload : List Byte) (beyond : Nat → Byte) :
    (payloadPkt id payload).mem beyond sizeofMysqlHdr = payload.getD 0 (beyond 0) := by
  have hlen : (MysqlHdr.mk (BitVec.ofNat 24 payload.length) (BitVec.ofNat 8 id)).toBytes.length
      = sizeofMysqlHdr := rfl
  unfold Pkt.mem payloadPkt
  dsimp only
  rw [getD_eq_getElem?_getD, getElem?_append_right hlen.le, hlen, Nat.sub_self,
    length_append, hlen, Nat.sub_eq_zero_of_le (Nat.le_add_right _ _),
    ← getD_eq_getElem?_getD]

/-- Packet `k` starts at cut `k`. -/
theorem CommandPkts.getElem?_iff {id : Nat} {payload : List Byte} {pkts : List Pkt}
    (h : CommandPkts id payload pkts) (beyond : Nat → Byte) (k : Nat) (c : Byte) :
    (∃ q, pkts[k]? = some q ∧ q.mem beyond sizeofMysqlHdr = c) ↔
      k * maxPayload ≤ payload.length ∧ cutByte payload beyond k = c := by
  have hzero : ∀ id (part : List Byte) (pkts : List Pkt),
      (∃ q, (payloadPkt id part :: pkts)[0]? = some q ∧ q.mem beyond sizeofMysqlHdr = c) ↔
        part.getD 0 (beyond 0) = c := by
    intro id part pkts
    rw [← payloadPkt_mem id part beyond]
    simp
  induction h generalizing k with
  | @last id payload hshort =>
    cases k with
    | zero =>
      rw [hzero, cutByte, Nat.zero_mul]
      exact (and_iff_right (Nat.zero_le _)).symm
    | succ k =>
      refine iff_of_false (by simp) ?_
      rw [Nat.succ_mul]
      omega
  | @more id part rest pkts hpart _ ih =>
    cases k with
    | zero =>
      have hpos : 0 < part.length := by
        rw [hpart]
        decide
      rw [hzero, cutByte, Nat.zero_mul, getD_eq_getElem?_getD, getD_eq_getElem?_getD,
        getElem?_append_left hpos]
      exact (and_iff_right (Nat.zero_le _)).symm
    | succ k =>
      have hcut : cutByte (part ++ rest) beyond (k + 1) = cutByte rest beyond k := by
        have hle : part.length ≤ (k + 1) * maxPayload := by
          rw [hpart, Nat.succ_mul]
          exact Nat.le_add_left _ _
        rw [cutByte, getD_eq_getElem?_getD, getElem?_append_right hle, hpart, Nat.succ_mul,
          Nat.add_sub_cancel, ← getD_eq_getElem?_getD]
        rfl
      rw [hcut, getElem?_cons_succ, length_append, hpart, Nat.succ_mul]
      exact (ih k).trans (and_congr_left fun _ => by omega)

/-! ## How they are handled -/

/-- The commands that one of the two switches of the loop has a label for. -/
def Labelled (cmd : Nat) : Prop := KnownCommand cmd ∨ isPreparedStatement cmd = true

instance (cmd : Nat) : Decidable (Labelled cmd) := instDecidableOr

/-- As forwarding a packet to hostgroup `hg` leaves a session: its backend is connected to an ONLINE
    server. -/
structure Carries (st : St) (hg : Nat) : Prop where
  healthy : st.sess.healthy = true
  admin : st.sess.admin = 0
  hostgroup : hg < st.sh.glovars.mysqlHostgroups
  backend : ∃ mybe myds m ms, Serves st hg mybe m ms ∧ mybe.serverMyds = some myds ∧
    ms.status = .online
  stats : StatsUsable st

/-- Packet `q` was queued, as it is, for the server that backend `hg` had before, and that backend
    is the current one. -/
structure SentOn (st t : St) (hg : Nat) (q : Pkt) : Prop where
  current : t.sess.serverMybe = some hg
  queued : ∃ mybe myds, st.sess.mybes[hg]? = some mybe ∧ mybe.serverMyds = some myds ∧
    t.sess.mybes = st.sess.mybes.set hg { mybe with serverMyds := some (myds.addOut [q]) }

/-- The next rounds of `process_client_pkts` pass the packets on to the server of hostgroup `hg`,
    and no switch has a label for one of them. -/
def PassesOn (hg : Nat) : (Nat → PktEnv) → List Pkt → St → Prop
  | _, [], _ => True
  | env, q :: pkts, st =>
      ¬Labelled (q.mem (env 0).beyond sizeofMysqlHdr).toNat ∧
        Returns (processClientPkt (env 0)) (fun flow t => flow = .next ∧ SentOn st t hg q ∧
          PassesOn hg (fun k => env (k + 1)) pkts t) st

section Round

variable {st t : St} {hg : Nat} {env : PktEnv} {q : Pkt} {pkts : List Pkt}

/-- The state in which a packet without a label is to be forwarded. -/
def unlabelled (env : PktEnv) (q : Pkt) (pkts : List Pkt) (st : St) : St :=
  let u := started env q pkts st
  { u with sess := { u.sess with
    queryInfo := { u.sess.queryInfo with preparedStatement := false } } }

theorem returns_unlabelled (hpkts : st.sess.clientMyds.input.pkts = q :: pkts)
    (hlabel : ¬Labelled (q.mem env.beyond sizeofMysqlHdr).toNat)
    (hwait : st.sess.waitingChangeUserResponse = false) (hhealthy : st.sess.healthy = true)
    (hadmin : st.sess.admin = 0) (Q : Flow → St → Prop) :
    Returns (processClientPkt env) Q st ↔
    Returns (forwardPkt q env) Q (unlabelled env q pkts st) := by
  obtain ⟨hknown, hprepared⟩ := not_or.1 hlabel
  have hswitch : Returns (processClientPkt env) Q st ↔
      Returns (do let p ← dispatchCommand q env; afterDispatch p env) Q
        (started env q pkts st) := by
    unfold Returns
    rw [wp_processClientPkt hpkts, if_neg fun hquit => hknown (.inl hquit)]
  have hdefault : ∀ R : Pkt → St → Prop, Returns (dispatchCommand q env) R (started env q pkts st) ↔
      Returns (do clientComDefault q env; return q) R (started env q pkts st) :=
    fun R => wp_dispatchCommand_default hknown _
  have hwaiting : ¬(started env q pkts st).sess.waitingChangeUserResponse = true := by
    show ¬st.sess.waitingChangeUserResponse = true
    rw [hwait]
    exact Bool.false_ne_true
  have hclient : ¬(started env q pkts st).sess.admin > 0 := by
    show ¬st.sess.admin > 0
    omega
  rw [hswitch, returns_bind, hdefault, returns_bind, clientComDefault, returns_bind, returns_get,
    returns_bind, returns_when, if_neg hwaiting, returns_modifySess, returns_pure, if_neg hclient,
    afterDispatch, returns_bind, returns_get]
  have hwell : ¬(started env q pkts st).sess.healthy = false := by
    show ¬st.sess.healthy = false
    rw [hhealthy]
    decide
  have hflag : isPreparedStatement (started env q pkts st).sess.clientCommand = false :=
    eq_false_of_ne_true hprepared
  rw [if_neg hwell, returns_bind, returns_modifySess, hflag]
  exact Iff.rfl

theorem returns_setDefaultDestination (Q : Unit → St → Prop) :
    Returns setDefaultDestination Q st ↔ Q () (directed st) := by
  have hreturns : Returns setDefaultDestination (fun _ _ => True) st := by
    unfold setDefaultDestination
    rw [returns_bind, returns_get, returns_bind]
    split
    · exact ⟨_, rfl, ⟨_, rfl, trivial⟩⟩
    · exact ⟨_, rfl, ⟨_, rfl, trivial⟩⟩
  obtain ⟨_, t, hends, -⟩ := hreturns.exists_ends
  rw [Returns.iff_of_ends hends, setDefaultDestination_ends hends]

theorem returns_forwardPkt (hcmd : st.sess.clientCommand ≠ mysqlComQuery) (Q : Flow → St → Prop) :
    Returns (forwardPkt q env) Q st ↔ ∃ d : Nat, d < st.sh.glovars.mysqlHostgroups ∧
      st.sess.routeData.destination st.sh.gloDefHG = d ∧
      Returns (forwardTo d q env) Q (directed st) := by
  have hdest : (directed st).sess.queryInfo.destinationHostgroup
      = st.sess.routeData.destination st.sh.gloDefHG := rfl
  have hcount : (directed st).sh.glovars.mysqlHostgroups = st.sh.glovars.mysqlHostgroups := rfl
  rw [forwardPkt, returns_bind, destinationHostgroup, returns_bind, returns_get, returns_bind,
    returns_when, if_pos hcmd, returns_setDefaultDestination, checkDestination, returns_bind,
    returns_get, hdest, hcount]
  generalize st.sess.routeData.destination st.sh.gloDefHG = d
  dsimp only
  constructor
  · intro h
    split at h
    · exact absurd h (returns_throw _ _ _)
    · split at h
      · exact absurd h (returns_throw _ _ _)
      · split at h
        · exact absurd h (returns_throw _ _ _)
        · rw [returns_pure] at h
          exact ⟨d.toNat, by omega, by omega, h⟩
  · rintro ⟨d, hlt, rfl, h⟩
    rw [if_neg (by omega), if_neg (by omega), if_neg (by omega), returns_pure, Int.toNat_natCast]
    exact h

/-- A packet that no case of the switch claims, while a scramble is expected, reaches no server. -/
theorem processClientPkt_waiting (hst : Carries st hg)
    (hpkts : st.sess.clientMyds.input.pkts = q :: pkts)
    (hlabel : ¬Labelled (q.mem env.beyond sizeofMysqlHdr).toNat)
    (hwait : st.sess.waitingChangeUserResponse = true) :
    wp (processClientPkt env) (fun r t => r = .ok .next → t.sess.mybes = st.sess.mybes) st := by
  obtain ⟨hknown, -⟩ := not_or.1 hlabel
  rw [wp_processClientPkt hpkts, if_neg fun hquit => hknown (.inl hquit), wp_bind,
    wp_dispatchCommand_default hknown, wp_bind]
  refine wp_of (clientComDefault_waiting hwait hst.admin hst.healthy rfl) ?_
  rintro _ t ⟨rfl, hmybes, -, hcase⟩
  rw [wp_pure]
  rcases hcase with ⟨-, hsick⟩ | ⟨-, hwell, hhit, -⟩
  · refine wp_of (afterDispatch_unhealthy q hsick) ?_
    rintro r u ⟨-, hflow⟩ hr
    cases hflow _ hr
  · refine wp_of (afterDispatch_answered q hwell hhit) ?_
    rintro _ u ⟨rfl, hu, -⟩ -
    exact hu.trans hmybes

theorem sendToBackend_current (n : Nat) :
    wp (sendToBackend hg q n) (fun r t => r = .ok .next → t.sess.serverMybe = some hg) st := by
  have herr : ∀ (e : Fault) (t : St), (.error e : Except Fault Flow) = .ok .next →
    t.sess.serverMybe = some hg :=
    fun _ _ h => nomatch h
  have hstats : ∀ ms, Keeps (fun t => t.sess.serverMybe = some hg) (setStatsServer hg ms) := by
    intro ms
    refine Keeps.get.bind fun u => .ite ?_ (.pure _)
    split
    · exact .pure _
    · exact .throw _
    · exact .modify fun _ h => h
  have hsync : Keeps (fun t => t.sess.serverMybe = some hg) syncServerBytesAtCmd := by
    refine .modify fun u h => ?_
    dsimp only
    split
    · exact h
    · exact h
  have hadd : Keeps (fun t => t.sess.serverMybe = some hg) (mySessAddPktOutServer hg q n) := by
    refine (getMybe_keeps hg).bind fun mybe => (Keeps.lift _).bind fun myds => ?_
    refine Keeps.bind (Keeps.modify fun _ h => h) fun _ => ?_
    split
    · exact .pure _
    · exact Keeps.get.bind fun _ => .modify fun _ h => h
  refine wp_bind_of (getMybe_keeps (P := fun _ => True) hg st trivial) (fun mybe t _ => ?_)
    fun e t _ => herr e t
  refine wp_bind_of (serverOf_keeps (P := fun _ => True) mybe t trivial)
    (fun ms t _ => ?_) fun e t _ => herr e t
  split
  · rw [wp_bind, wp_modifySess]
    refine wp_bind_of (hstats ms _ rfl) (fun _ t ht => ?_) fun e t _ => herr e t
    refine wp_bind_of (hsync t ht) (fun _ t ht => ?_) fun e t _ => herr e t
    refine wp_bind_of (hadd t ht) (fun _ t ht => ?_) fun e t _ => herr e t
    exact fun _ => ht
  · exact herr _ _

/-- A packet that is forwarded leaves the backend it goes to as the current one. -/
theorem forwardTo_current :
    wp (forwardTo hg q env) (fun r t => r = .ok .next → t.sess.serverMybe = some hg) st :=
  forwardTo_stages (A := fun _ => True) (P := fun _ => True) (R := fun _ => True)
    ⟨fun _ _ => trivial, fun _ _ => trivial⟩ (fun _ _ hr _ _ h => absurd h hr)
      (fun _ _ hr _ _ h => absurd h hr)
    trivial (fun _ _ => trivial) (fun _ _ => trivial) (fun _ _ => nofun) fun _ _ =>
      sendToBackend_current _

theorem sentOn_only (hst : Carries st hg) (hpkts : st.sess.clientMyds.input.pkts = q :: pkts)
    (hlabel : ¬Labelled (q.mem env.beyond sizeofMysqlHdr).toNat)
    (hends : Ends (processClientPkt env) st .next t) (hsent : SentOn st t hg q) :
    st.sess.waitingChangeUserResponse = false ∧
      st.sess.routeData.destination st.sh.gloDefHG = hg := by
  obtain ⟨mybe, myds, hmybe, hmyds, hmybes⟩ := hsent.queued
  have hwait : st.sess.waitingChangeUserResponse = false := by
    refine eq_false_of_ne_true fun hwait => ?_
    have hsame := hends.of_wp (processClientPkt_waiting hst hpkts hlabel hwait) rfl
    have hget : st.sess.mybes[hg]? = some { mybe with serverMyds := some (myds.addOut [q]) } := by
      rw [← hsame, hmybes]
      exact getElem?_set_self (List.getElem?_eq_some_iff.1 hmybe).1
    have hmybe' := some.inj (hmybe.symm.trans hget)
    have hmyds' : some myds = some (myds.addOut [q]) :=
      hmyds.symm.trans (congrArg MysqlBackend.serverMyds hmybe')
    have hlen := congrArg (fun myds => myds.output.pkts.length) (some.inj hmyds')
    simp [MysqlDataStream.addOut] at hlen
  have hreturns : Returns (processClientPkt env) (fun flow u => flow = .next ∧ u = t) st :=
    hends.returns ⟨rfl, rfl⟩
  rw [returns_unlabelled hpkts hlabel hwait hst.healthy hst.admin,
    returns_forwardPkt ?_] at hreturns
  · obtain ⟨d, -, hdest, hreturns⟩ := hreturns
    obtain ⟨flow, u, hends', rfl, rfl⟩ := hreturns.exists_ends
    have hcurrent := hends'.of_wp forwardTo_current rfl
    obtain rfl := some.inj (hcurrent.symm.trans hsent.current)
    exact ⟨hwait, hdest⟩
  · exact fun hquery => hlabel (.inl (.inr (.inr (.inl hquery))))

/-- What the next round finds after packet `q` was passed on. -/
structure NextRound (st t : St) (pkts : List Pkt) : Prop where
  input : t.sess.clientMyds.input.pkts = pkts
  waiting : t.sess.waitingChangeUserResponse = st.sess.waitingChangeUserResponse
  gloDefHG : t.sh.gloDefHG = st.sh.gloDefHG
  routeData : t.sess.routeData = st.sess.routeData.refresh st.sh.gloDefHG

theorem sentOn_of (hst : Carries st hg) (hpkts : st.sess.clientMyds.input.pkts = q :: pkts)
    (hlabel : ¬Labelled (q.mem env.beyond sizeofMysqlHdr).toNat)
    (hwait : st.sess.waitingChangeUserResponse = false)
    (hdest : st.sess.routeData.destination st.sh.gloDefHG = hg) :
    Returns (processClientPkt env) (fun flow t => flow = .next ∧ SentOn st t hg q ∧ Carries t hg ∧
      NextRound st t pkts) st := by
  obtain ⟨mybe, myds, m, ms, hserves, hmyds, honline⟩ := hst.backend
  have hcmd : (unlabelled env q pkts st).sess.clientCommand ≠ mysqlComQuery :=
    fun hquery => hlabel (.inl (.inr (.inr (.inl hquery))))
  rw [returns_unlabelled hpkts hlabel hwait hst.healthy hst.admin, returns_forwardPkt hcmd]
  refine ⟨hg, hst.hostgroup, hdest, ?_⟩
  have hserves' : Serves (directed (unlabelled env q pkts st)) hg mybe m ms :=
    ⟨hserves.backend, hserves.entry, hserves.connected, hserves.server⟩
  have hstats : StatsUsable (directed (unlabelled env q pkts st)) := hst.stats
  refine ((hserves'.queues hmyds honline hstats q env).and_wp
    (forwardTo_route hg q env _ (.refl _))).mono ?_
  rintro flow t ⟨⟨rfl, ht⟩, hroute, htables, -⟩
  obtain ⟨info, sent, recv, hsess⟩ := ht.sess
  have hlt : hg < st.sess.mybes.length := (List.getElem?_eq_some_iff.1 hserves.backend).1
  refine ⟨rfl, ⟨?_, mybe, myds, hserves.backend, hmyds, ?_⟩, ⟨?_, ?_, ?_, ?_, ht.stats⟩,
    ⟨?_, ?_, ?_, ?_⟩⟩
  · rw [hsess]
  · rw [hsess]
    rfl
  · rw [hsess]
    exact hst.healthy
  · rw [hsess]
    exact hst.admin
  · rw [ht.kept.glovars]
    exact hst.hostgroup
  · refine ⟨{ mybe with serverMyds := some (myds.addOut [q]) }, _, m, ms,
      ⟨?_, hserves.entry, hserves.connected, ?_⟩, rfl, honline⟩
    · rw [hsess]
      exact getElem?_set_self hlt
    · exact (ht.kept.msPtr_eq m).trans hserves.server
  · rw [hsess]
    rfl
  · rw [hsess]
    rfl
  · exact gloDefHG_of_tables htables
  · exact hroute.trans (directed_routeData (unlabelled env q pkts st))

end Round

/-- The packets are passed on just if each of them has no label and the default destination of
    commands is the server of hostgroup `hg`, while no scramble is expected. -/
theorem passesOn_iff {st : St} {hg : Nat} (hst : Carries st hg) {pkts more : List Pkt}
    (hpkts : st.sess.clientMyds.input.pkts = pkts ++ more) (env : Nat → PktEnv) :
    PassesOn hg env pkts st ↔ ∀ k q, pkts[k]? = some q →
      ¬Labelled (q.mem (env k).beyond sizeofMysqlHdr).toNat ∧
      st.sess.waitingChangeUserResponse = false ∧
        (((RouteData.refresh st.sh.gloDefHG)^[k]) st.sess.routeData).destination st.sh.gloDefHG =
        hg := by
  induction pkts generalizing st env with
  | nil => exact iff_of_true trivial fun _ _ h => nomatch h
  | cons q pkts ih =>
    constructor
    · rintro ⟨hlabel, hreturns⟩
      obtain ⟨flow, t, hends, rfl, hsent, hrest⟩ := hreturns.exists_ends
      obtain ⟨hwait, hdest⟩ := sentOn_only hst hpkts hlabel hends hsent
      obtain ⟨-, -, ht, hnext⟩ := (sentOn_of hst hpkts hlabel hwait hdest).of_ends hends
      have hall := (ih ht hnext.input fun k => env (k + 1)).1 hrest
      rw [hnext.waiting, hnext.gloDefHG, hnext.routeData] at hall
      intro k r hk
      cases k with
      | zero =>
        cases hk
        exact ⟨hlabel, hwait, hdest⟩
      | succ k => exact hall k r hk
    · intro h
      obtain ⟨hlabel, hwait, hdest⟩ := h 0 q rfl
      refine ⟨hlabel, (sentOn_of hst hpkts hlabel hwait hdest).mono ?_⟩
      rintro flow t ⟨hflow, hsent, ht, hnext⟩
      refine ⟨hflow, hsent, (ih ht hnext.input fun k => env (k + 1)).2 ?_⟩
      rw [hnext.waiting, hnext.gloDefHG, hnext.routeData]
      exact fun k r hk => h (k + 1) r hk

/-- A session whose first backend is connected to an ONLINE server, with packets of its client. -/
def connectedOne (pkts : List Pkt) : St :=
  let g := { glovarsDefault with mysqlHostgroups := 2 }
  let sh := Shared.init g id fun _ password => password
  let mybe := { mysqlBackendNew with
    mshge := some 0, serverMyds := some (mysqlDataStreamNew (fun _ => 0) 1024 7),
      serverMycpe := some 0 }
  let sess := mysqlSessionNew (fun _ => 0) g 0 5
  { sh := { sh with
      servers := [{ address := bytesOf "db", port := 3306, readOnly := 0, status := .online }],
      mshges :=
        fun _ => { msPtr := some 0, connectionsCreated := 1, connectionsActive := 1,
                   freed := false },
      nextMshge := 1, hostgroupArrays := fun _ => [0], nextConn := 1 },
    sess := { sess with
      mybes := [mybe, mysqlBackendNew], mysqlUsername := some (bytesOf "u"),
        mysqlPassword := some [],
      mysqlSchemaCur := some (bytesOf "d"),
      clientMyds :=
        { sess.clientMyds with input := { sess.clientMyds.input with pkts := pkts } } } }

end ProxySQL
