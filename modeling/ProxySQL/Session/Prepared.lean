/-
  ProxySQL.Session.Prepared

  Connections that prepared statements were sent over.

  `process_client_pkts` takes the mark for reuse off the connection of the backend
  and then looks at the status of its server.  Where the server is OFFLINE_SOFT
  the backend gets another connection, with its own mark, and the packet goes over
  that one.  So the connections that prepared statements were queued for are never
  reused in the runs in which no prepared statement is forwarded while the backend
  is bound to an OFFLINE_SOFT server, or may get one.
-/
import ProxySQL.Session.Pooled
import ProxySQL.Session.Servers

namespace ProxySQL

open Lib List

/-- Connections that a prepared statement was queued for are not reusable. -/
def Marked (sh : Shared) : Prop :=
  ∀ c < sh.nextConn, (sh.conns c).prepared = true → (sh.conns c).reusable = false

theorem Marked.kept {sh sh' : Shared} (h : Marked sh) (hk : ConnsKept sh sh') : Marked sh' := by
  intro c hc hprepared
  by_cases hlt : c < sh.nextConn
  · rw [hk.reusable hlt]
    exact h c hlt (hk.prepared hlt ▸ hprepared)
  · have hfresh := (hk.fresh c (Nat.le_of_not_lt hlt) hc).2
    rw [hfresh] at hprepared
    cases hprepared

/-- A connection is changed so that it is not reusable, or has no new mark for prepared statements. -/
theorem Marked.modifyConn {sh : Shared} {c : Nat} {f : MysqlCpEntry → MysqlCpEntry} (h : Marked sh)
    (hf : (f (sh.conns c)).reusable = false ∨
      (f (sh.conns c)).prepared = (sh.conns c).prepared ∧
      (f (sh.conns c)).reusable = (sh.conns c).reusable) :
    Marked (sh.modifyConn c f) := by
  intro d hd hprepared
  by_cases hdc : d = c
  · subst hdc
    simp only [Shared.modifyConn, if_true] at hprepared ⊢
    rcases hf with hfalse | ⟨hsame, hreusable⟩
    · exact hfalse
    · rw [hreusable]
      exact h d hd (hsame ▸ hprepared)
  · simp only [Shared.modifyConn, hdc, if_false] at hprepared ⊢
    exact h d hd hprepared

/-! ## The servers a backend may get -/

/-- The entry that the backend of hostgroup `hg` is bound to, or that it may get when it connects. -/
def MysqlBackend.MayUse (sh : Shared) (hg : Nat) (mybe : MysqlBackend) (m : Nat) : Prop :=
  mybe.mshge = some m ∨ (mybe.serverMycpe = none ∧ m ∈ sh.entries hg)

/-- The servers are the same if no FLUSH HOSTGROUPS runs; the entry is one that the backend may use. -/
structure Bound (sh sh' : Shared) (hg : Nat) (mybe mybe' : MysqlBackend) : Prop where
  servers : ServersKept sh sh'
  mshge : ∀ m, mybe'.mshge = some m → mybe.MayUse sh hg m
  inTransaction : mybe'.inTransaction = mybe.inTransaction

theorem attachMyds_bound {sh sh1 sh' : Shared} {hg m : Nat} {mybe mybe1 mybe' : MysqlBackend}
    {fill : Nat → Byte} {fd : Int} (h : attachMyds sh1 mybe1 fill m fd = (sh', mybe'))
    (hservers : ServersKept sh sh1) (hm : mybe1.mshge = some m) (hmyds : mybe1.serverMyds = mybe.serverMyds)
    (huse : mybe.MayUse sh hg m) : Bound sh sh' hg mybe mybe' := by
  obtain ⟨mshges, myds, heq, hptr, htrans, -⟩ := attachMyds_eq sh1 mybe1 fill m fd
  obtain ⟨rfl, rfl⟩ := Prod.mk.inj (heq.symm.trans h)
  refine ⟨hservers.trans ⟨rfl, rfl, rfl, rfl, rfl, rfl, hptr⟩, fun m' hm' => ?_, ?_⟩
  · obtain rfl : m = m' := Option.some.inj (hm.symm.trans hm')
    exact huse
  · refine htrans.trans ?_
    rw [MysqlBackend.inTransaction, hmyds, MysqlBackend.inTransaction]

theorem Creates.bound {cred : Credentials} {env : ConnectEnv} {fill : Nat → Byte} {hg n : Nat}
    {sh sh' : Shared} {mybe mybe' : MysqlBackend} {rc : CreateResult}
    (h : Creates cred env fill hg n sh mybe sh' mybe' rc)
    (hflush : mybe.serverMycpe = none → ∀ k, env.flush k = none)
    (hwired : mybe.serverMycpe.isSome → mybe.mshge.isSome) : Bound sh sh' hg mybe mybe' := by
  have huse : ∀ {sh : Shared} {mybe : MysqlBackend} {rand m : Nat},
      chooseEntry sh mybe.mshge hg rand = .ok (some m) → mybe.serverMycpe = none → mybe.MayUse sh hg m := by
    intro sh mybe rand m hentry hnone
    rcases chooseEntry_mem hentry with hown | hmem
    · exact .inl hown
    · exact .inr ⟨hnone, hmem⟩
  induction h with
  | exhausted => exact ⟨.refl _, fun m hm => .inl hm, rfl⟩
  | noServer _ => exact ⟨.refl _, (fun m hm => nomatch hm), rfl⟩
  | kept hentry hmycpe hattach =>
    -- a backend with a connection is bound to the entry it has
    obtain ⟨m, hm⟩ := Option.isSome_iff_exists.1 (hwired (by rw [hmycpe]; rfl))
    obtain rfl := Option.some.inj (chooseEntry_own hentry m hm)
    exact attachMyds_bound hattach (.refl _) rfl rfl (.inl hm)
  | taken hentry hnone _ hget hattach =>
    refine attachMyds_bound hattach ?_ rfl rfl (huse hentry hnone)
    rw [ConnectEnv.flushed, hflush hnone]
    exact (mysqlConnpoolGetConnection_got hget).servers
  | failed hentry hnone _ hget =>
    refine ⟨?_, fun m hm => ?_, rfl⟩
    · rw [ConnectEnv.flushed, hflush hnone]
      exact (mysqlConnpoolGetConnection_got hget).servers
    · cases hm
      exact huse hentry hnone
  | @retry n m sh sh1 sh' mybe mybe' ms ref rc hentry hnone _ hget _ ih =>
    have hservers := (mysqlConnpoolGetConnection_got hget).servers
    rw [ConnectEnv.flushed, hflush hnone] at ih
    have hrest := ih (fun _ => hflush hnone) nofun
    refine ⟨hservers.trans hrest.servers, fun m' hm' => ?_, hrest.inTransaction⟩
    rcases hrest.mshge m' hm' with hown | ⟨-, hmem⟩
    · cases hown
    · exact .inr ⟨hnone, hservers.entries hg ▸ hmem⟩

/-! ## Forwarding -/

/-- The backend of hostgroup `hg` is not to be given up, and the command is a prepared statement. -/
structure Steady (hg : Nat) (st : St) : Prop where
  marked : Marked st.sh
  online : ∀ mybe m ms, st.sess.mybes[hg]? = some mybe → mybe.mshge = some m → st.sh.msPtr m = .ok ms →
    ms.status = .offlineSoft → mybe.inTransaction = true
  prepared : st.sess.queryInfo.preparedStatement = true

/-- Moreover the backend's connection is not reusable. -/
structure SteadyMarked (hg : Nat) (st : St) : Prop extends Steady hg st where
  mark : ∀ mybe c, st.sess.mybes[hg]? = some mybe → mybe.serverMycpe = some c →
    (st.sh.conns c).reusable = false

section Forward

variable {hg : Nat} {st : St} {env : PktEnv} {p : Pkt}

theorem steady_quietStable : QuietStable (fun _ => True) (Steady hg) where
  sess h hquiet := ⟨h.marked, fun mybe m ms hmybe => h.online mybe m ms (hquiet.mybes ▸ hmybe),
    hquiet.preparedStatement.trans h.prepared⟩
  record h _ := ⟨h.marked, h.online, h.prepared⟩

theorem steadyMarked_quietStable : QuietStable (fun _ => True) (SteadyMarked hg) where
  sess h hquiet := ⟨steady_quietStable.sess h.toSteady hquiet,
    fun mybe c hmybe => h.mark mybe c (hquiet.mybes ▸ hmybe)⟩
  record h ha := ⟨steady_quietStable.record h.toSteady ha, h.mark⟩

theorem ensureBackend_steady (h : Steady hg st)
    (hwired : ∀ mybe ∈ st.sess.mybes, mybe.serverMycpe.isSome → mybe.mshge.isSome)
    (hflush : ∀ mybe, st.sess.mybes[hg]? = some mybe → mybe.serverMycpe = none →
      ∀ k, env.connect1.flush k = none)
    (honline : ∀ mybe m ms, st.sess.mybes[hg]? = some mybe → mybe.MayUse st.sh hg m →
      st.sh.msPtr m = .ok ms → ms.status = .offlineSoft → mybe.inTransaction = true) :
    wp (ensureBackend hg env) (fun _ t => Steady hg t) st := by
  unfold ensureBackend
  rw [wp_bind, wp_getMybe]
  cases hmybe : st.sess.mybes[hg]? with
  | none => exact h
  | some mybe =>
    dsimp only
    rw [wp_get_bind, wp_ite]
    split
    · exact h
    · have hconnect : wp (connectBackend hg env.connect1 env.fill) (fun _ t => Steady hg t) st := by
        refine connectBackend_creates_wp (fun _ => h) fun mybe1 sh' mybe' rc hmybe1 hcreates => ?_
        have hlt : hg < st.sess.mybes.length := (List.getElem?_eq_some_iff.1 hmybe1).1
        have hbound := hcreates.bound (hflush mybe1 hmybe1) (hwired mybe1 (mem_of_getElem? hmybe1))
        refine ⟨h.marked.kept hcreates.connected.conns, fun b m ms hb hm hms hsoft => ?_, h.prepared⟩
        obtain rfl : mybe' = b := Option.some.inj ((getElem?_set_self hlt).symm.trans hb)
        rw [hbound.inTransaction]
        exact honline mybe1 m ms hmybe1 (hbound.mshge m hm)
          ((hbound.servers.msPtr_eq m).symm.trans hms) hsoft
      refine wp_bind_of hconnect (fun _ t ht => ?_) fun _ _ ht => ht
      exact Keeps.when (fun _ => writeOnePktToNet_keeps steady_quietStable.still _ _) t ht

theorem markNotReusable_steady (h : Steady hg st) :
    wp (markNotReusable hg) (fun _ t => SteadyMarked hg t) st := by
  unfold markNotReusable
  rw [wp_bind, wp_getMybe]
  cases hmybe : st.sess.mybes[hg]? with
  | none =>
    refine ⟨h, fun b c hb => ?_⟩
    rw [hmybe] at hb
    cases hb
  | some mybe =>
    dsimp only
    split
    · next hnone =>
      refine ⟨h, fun b c hb hc => ?_⟩
      obtain rfl : mybe = b := Option.some.inj (hmybe.symm.trans hb)
      rw [hnone] at hc
      cases hc
    · next c hc =>
      rw [wp_get_bind, if_pos h.prepared, wp_modifyShared]
      refine ⟨⟨h.marked.modifyConn (.inl rfl), h.online, h.prepared⟩, fun b d hb hd => ?_⟩
      obtain rfl : mybe = b := Option.some.inj (hmybe.symm.trans hb)
      obtain rfl : c = d := Option.some.inj (hc.symm.trans hd)
      simp [Shared.modifyConn]

theorem replaceOfflineSoft_steady : Keeps (SteadyMarked hg) (replaceOfflineSoft hg env) := by
  intro st h
  unfold replaceOfflineSoft
  rw [wp_bind, wp_getMybe]
  cases hmybe : st.sess.mybes[hg]? with
  | none => exact h
  | some mybe =>
    dsimp only
    rw [wp_bind, wp_serverOf]
    cases hm : mybe.mshge with
    | none => exact h
    | some m =>
      dsimp only
      cases hms : st.sh.msPtr m with
      | error e => exact h
      | ok ms =>
        dsimp only
        split
        case isFalse => exact h
        case isTrue hsoft =>
          have htrans := h.online mybe m ms hmybe hm hms hsoft
          rw [wp_bind, wp_lift]
          cases hmyds : mybe.serverMyds with
          | none => exact h
          | some myds =>
            rw [MysqlBackend.inTransaction, hmyds] at htrans
            simp only [deref, htrans]
            exact h

theorem mySessAddPktOutServer_marked {n : Nat} (h : Marked st.sh)
    (hmark : isPreparedStatement st.sess.clientCommand = true → ∀ mybe c, st.sess.mybes[hg]? = some mybe →
      mybe.serverMycpe = some c → (st.sh.conns c).reusable = false) :
    wp (mySessAddPktOutServer hg p n) (fun _ t => Marked t.sh) st := by
  unfold mySessAddPktOutServer
  rw [wp_bind, wp_getMybe]
  cases hmybe : st.sess.mybes[hg]? with
  | none => exact h
  | some mybe =>
    refine wp_bind_reads (Keeps.lift _ st rfl) (fun myds => ?_) fun _ => h
    rw [wp_bind, wp_setMybe]
    dsimp only
    split
    · exact h
    · next c hc =>
      refine h.modifyConn ?_
      cases hprepared : isPreparedStatement st.sess.clientCommand with
      | true => exact .inl (hmark hprepared mybe c hmybe hc)
      | false => exact .inr ⟨by simp, rfl⟩

/-- The command is no prepared statement. -/
structure NoStatement (st : St) : Prop where
  marked : Marked st.sh
  command : isPreparedStatement st.sess.clientCommand = false

theorem forwardTo_noStatement (h : NoStatement st) :
    wp (forwardTo hg p env) (fun _ t => Marked t.sh) st := by
  have hquiet : QuietStable (fun _ => True) NoStatement :=
    ⟨fun hst hq => ⟨hst.marked, (congrArg isPreparedStatement hq.clientCommand).trans hst.command⟩,
      fun hst _ => ⟨hst.marked, hst.command⟩⟩
  have hQ : QuietStable (fun _ => True) fun st => Marked st.sh := ⟨fun hst _ => hst, fun hst _ => hst⟩
  have hb : KeepsBackends NoStatement env hg := by
    have hconnect : ∀ cenv, Keeps NoStatement (connectBackend hg cenv env.fill) := by
      intro cenv st hst
      refine connectBackend_wp (fun _ => hst) fun _ _ _ _ _ hconn => ?_
      exact ⟨hst.marked.kept hconn.conns, hst.command⟩
    refine ⟨hconnect _, hconnect _, ?_, ?_⟩
    · refine (getMybe_keeps hg).bind fun mybe => ?_
      split
      · exact .pure _
      · refine Keeps.get.bind fun st => .ite (.modify fun t ht => ?_) (.pure _)
        exact ⟨ht.marked.modifyConn (.inl rfl), ht.command⟩
    · intro st mybe myds m ms hst _ _ _ _ _ _
      refine bereset_wp (fun _ => hst) fun _ _ _ _ hreset => ?_
      exact ⟨hst.marked.kept (backendReset_gaveBack hreset).conns, hst.command⟩
  refine forwardTo_chain hquiet.still hQ.still (fun _ ht => ht.marked) (fun _ ht => ht.marked) trivial
    (ensureBackend_keeps hquiet.still hb st h) hb.markNotReusable (replaceOfflineSoft_keeps hquiet.still hb)
    (queueBackClientPkt_keeps hquiet p) fun t ht => ?_
  refine mySessAddPktOutServer_marked ht.marked fun hprepared => ?_
  rw [ht.command] at hprepared
  cases hprepared

theorem forwardTo_statement (hensure : wp (ensureBackend hg env) (fun _ t => Steady hg t) st) :
    wp (forwardTo hg p env) (fun _ t => Marked t.sh) st := by
  have hQ : QuietStable (fun _ => True) fun st => Marked st.sh := ⟨fun hst _ => hst, fun hst _ => hst⟩
  exact forwardTo_chain steadyMarked_quietStable.still hQ.still (fun _ ht => ht.marked)
    (fun _ ht => ht.marked) trivial
    hensure (fun _ ht => markNotReusable_steady ht) replaceOfflineSoft_steady
    (queueBackClientPkt_keeps steadyMarked_quietStable p)
    fun _ ht => mySessAddPktOutServer_marked ht.marked fun _ => ht.mark

end Forward

/-! ## Runs -/

/-- A prepared statement is forwarded only where the backend is in a transaction, or neither bound to
    an OFFLINE_SOFT server nor about to get one. -/
def OnlineForPrepared (w : World) : Event → Prop
  | .session i (.forward hg _ env) => ∀ s mybe, w.sessions[i]? = some s →
      isPreparedStatement s.clientCommand = true → s.mybes[hg]? = some mybe →
      (mybe.serverMycpe = none → ∀ k, env.connect1.flush k = none) ∧
      ∀ m ms, mybe.MayUse w.sh hg m → w.sh.msPtr m = .ok ms → ms.status = .offlineSoft →
        mybe.inTransaction = true
  | _ => True

theorem marked_release : ReleaseStable (fun st => Marked st.sh) fun _ _ => True where
  give h _ hgave _ := Marked.kept h hgave.conns
  others _ _ _ hok := hok
  forget hok := hok
  cache _ hok := hok
  stable := ⟨fun hst _ => hst, fun hst _ => hst, fun _ hst => hst⟩
  net := by
    refine ⟨fun _ _ _ _ hst => hst, fun _ _ _ _ _ hst _ _ => hst, fun _ _ _ _ _ hst _ _ => ?_⟩
    exact Marked.modifyConn hst (.inr ⟨rfl, rfl⟩)
  forgetConnpool := by
    refine Keeps.get.bind fun st => ?_
    split
    · exact .pure _
    · exact (getMybe_keeps _).bind fun mybe => .modify fun t ht => ht
  clear _ hst := hst

theorem reusable_trackable : Trackable fun mc => mc.reusable = true where
  congr hlasting h := (congrArg (·.2.2.1) hlasting).trans h
  new _ h := h

theorem poolsGood_reusable (w : World) (e : Event) : PoolsGood (fun mc => mc.reusable = true) w e := by
  have hpools : ∀ {sh : Shared} {now : Nat → Nat} {fc : Bool} {mybe : MysqlBackend},
      mybe.Pools sh now fc → mybe.Has (fun mc => mc.reusable = true) sh := by
    rintro sh now fc mybe ⟨d, hd, hpoolable⟩ c hc
    obtain rfl : d = c := Option.some.inj (hd.symm.trans hc)
    exact hpoolable.reusable
  cases e with
  | session i e =>
    intro s mybe _ hrel
    cases e with
    | dispatch env => exact hpools hrel.2.2
    | forward hg p env => exact hpools hrel.2.2
    | answer p r env => exact hpools hrel.2.2.2.2
    | close now => exact hpools hrel.2
    | removeOfflineSoft now => exact hpools hrel.2.2
    | _ => exact hrel.elim
  | accept | delete | flushHostgroups | reconfigure => trivial

/-- Free connections are reusable, and connections that a prepared statement was queued for are not. -/
structure World.Statements (w : World) : Prop where
  pooled : w.Pooled fun mc => mc.reusable = true
  marked : Marked w.sh

theorem session_marked {w : World} {i : Nat} {s : Session} {e : SessEvent} (h : w.Statements)
    (hs : w.sessions[i]? = some s) (henabled : e.Enabled { sh := w.sh, sess := s })
    (hG : OnlineForPrepared w (.session i e)) : Marked (outcome e.prog { sh := w.sh, sess := s }).2.sh := by
  refine e.keeps_of_releases marked_release h.marked (fun _ _ => trivial) ?_
  rintro hg p env rfl
  cases hprepared : isPreparedStatement s.clientCommand with
  | false => exact forwardTo_noStatement ⟨h.marked, hprepared⟩
  | true =>
    refine forwardTo_statement (ensureBackend_steady ?_ (h.pooled.wired s (mem_of_getElem? hs))
      (fun mybe hmybe => (hG s mybe hs hprepared hmybe).1) fun mybe m ms hmybe => ?_)
    · refine ⟨h.marked, fun mybe m ms hmybe hm => ?_, henabled.2.trans hprepared⟩
      exact (hG s mybe hs hprepared hmybe).2 m ms (.inl hm)
    · exact (hG s mybe hs hprepared hmybe).2 m ms

theorem World.Statements.step {w w' : World} {e : Event} (h : w.Statements) (hstep : WorldStep w e w')
    (hG : OnlineForPrepared w e) : w'.Statements := by
  refine ⟨h.pooled.step reusable_trackable hstep (poolsGood_reusable w e), ?_⟩
  cases hstep with
  | accept => exact h.marked
  | session hs hst =>
    have houtcome := session_marked h hs hst.1 hG
    rw [hst.2] at houtcome
    exact houtcome
  | delete => exact h.marked
  | flushHostgroups rows =>
    have hsame := (flushServersDbToMem_onlyServers w.sh rows).toSamePools
    exact h.marked.kept (.of_eq hsame.conns hsame.nextConn)
  | reconfigure hsame => exact h.marked.kept (.of_eq hsame.conns hsame.nextConn)

/-- In every run in which prepared statements are not forwarded towards OFFLINE_SOFT servers, a
    connection that one was queued for is not reusable and in no free list. -/
theorem prepared_never_reused {g : Glovars} {md5 : List Byte → Str} {scramble : List Byte → Str → List Byte}
    {w : World} {es : List Event}
    (hrun : Run (Guarded WorldStep OnlineForPrepared) (World.init g md5 scramble) es w) :
    ∀ c < w.sh.nextConn, (w.sh.conns c).prepared = true → (w.sh.conns c).reusable = false ∧
    c ∉ w.sh.free := by
  have hinit : (World.init g md5 scramble).Statements := ⟨.init g md5 scramble, fun _ hc => nomatch hc⟩
  have hw : w.Statements :=
    hrun.invariant (P := World.Statements) (fun _ _ _ hstep hw => hw.step hstep.1 hstep.2) hinit
  intro c hc hprepared
  have hmark := hw.marked c hc hprepared
  refine ⟨hmark, fun hfree => ?_⟩
  have hreusable := hw.pooled.good c hfree
  rw [hmark] at hreusable
  cases hreusable

/-- A prepared statement goes to a backend that is connected, and no server is OFFLINE_SOFT. -/
def World.onlineForPrepared (w : World) : Event → Bool
  | .session i (.forward hg _ _) => w.sessions[i]?.all fun s =>
      !isPreparedStatement s.clientCommand || s.mybes[hg]?.all fun mybe =>
        mybe.serverMycpe.isSome && w.sh.servers.all fun ms => decide (ms.status ≠ .offlineSoft)
  | _ => true

theorem msPtr_mem {sh : Shared} {m : Nat} {ms : MysqlServer} (h : sh.msPtr m = .ok ms) :
    ms ∈ sh.servers := by
  obtain ⟨i, -, h⟩ := except_bind_eq_ok.1 h
  exact mem_of_getElem? (deref_eq_ok.1 h)

theorem onlineForPrepared_of_check (w : World) (e : Event) (h : w.onlineForPrepared e = true) :
    OnlineForPrepared w e := by
  cases e with
  | session i e =>
    cases e with
    | forward hg p env =>
      intro s mybe hs hprepared hmybe
      simp only [World.onlineForPrepared, hs, hmybe, hprepared, Option.all_some, Bool.not_true,
        Bool.false_or, Bool.and_eq_true, all_eq_true, decide_eq_true_eq] at h
      obtain ⟨hsome, honline⟩ := h
      refine ⟨fun hnone => ?_, fun m ms _ hms hsoft => absurd hsoft (honline ms (msPtr_mem hms))⟩
      rw [hnone] at hsome
      cases hsome
    | _ => trivial
  | accept | delete | flushHostgroups | reconfigure => trivial

/-- A COM_STMT_PREPARE. -/
def preparePkt (query : String) : List Byte := frame 0 (0x16 :: bytesOf query)

set_option maxRecDepth 4000 in
/-- A client sends a prepared statement over the connection it has, and disconnects. -/
theorem prepared_never_reused_closed :
    ∃ es w, Run (Guarded WorldStep OnlineForPrepared) oneServer es w ∧ w.sh.nextConn = 1 ∧
      (w.sh.conns 0).prepared = true ∧ (w.sh.conns 0).reusable = false ∧ 0 ∉ w.sh.free := by
  obtain ⟨w, hrun, hnext, hprepared⟩ := Run.exists_guarded_exec World.step oneServer
    (.flushHostgroups [dbRow] :: loginSteps 0 ++ querySteps 0 0 "SELECT 1" ++ okSteps 0 2 ++
      readSteps 0 (preparePkt "SELECT 2") ++
      [.session 0 (.dispatch .quiet), .session 0 (.forward 0 (.ofBytes (preparePkt "SELECT 2")) .quiet),
        .session 0 (.close fun _ => 0)])
    (P := fun w => w.sh.nextConn = 1 ∧ (w.sh.conns 0).prepared = true)
    World.worldStep_of_step onlineForPrepared_of_check (by decide +kernel)
  obtain ⟨hreusable, hfree⟩ := prepared_never_reused hrun 0 (by omega) hprepared
  exact ⟨_, w, hrun, hnext, hprepared, hreusable, hfree⟩

/-- The server of hostgroup 0 is taken out of service, and another one takes its place. -/
def replaceRows : List ServerRow :=
  [{ dbRow with status := .offlineSoft }, { dbRow with address := bytesOf "db2" }]

set_option maxRecDepth 4000 in
/-- A prepared statement arrives when the server has become OFFLINE_SOFT: it goes over a new
    connection, which enters a pool when the client disconnects. -/
theorem prepared_reused :
    ∃ es w, Run WorldStep oneServer es w ∧ (w.sh.conns 1).prepared = true ∧
      (w.sh.conns 1).reusable = true ∧ w.sh.free = [1] := by
  exact World.exists_calls oneServer
    (.flushHostgroups [dbRow] :: login 0 ++
      [.poll 0, .handle 0 (.fromClient (queryPkt "SELECT 1")), .poll 0, .handle 0 .quiet, .poll 0,
        .handle 0 (.fromServer (okPkt 2)), .flushHostgroups replaceRows, .poll 0,
        .handle 0 (.fromClient (preparePkt "SELECT 2")), .poll 0, .handle 0 (.fromClient []), .poll 0,
        .handle 0 .quiet]) (by decide +kernel)

end ProxySQL
