/-
  ProxySQL.Session.EndOfResponse

  What `server_COM_QUERY` does at the end of a response: backends are detached,
  the statistics of the query are stored, the byte counters are brought up to
  date and the response enters the query cache.

  A response may have several results.  Each but the last says so in its final
  status flags (`SERVER_MORE_RESULTS_EXISTS`), which the code does not look at.
-/
import ProxySQL.Lib.Logged
import ProxySQL.Protocol.StatusFlags
import ProxySQL.Session.Relay

namespace ProxySQL

open Lib List

/-! ## Responses with several results -/

/-- `SERVER_MORE_RESULTS_EXISTS` of the client library's `mysql_com.h`. -/
def serverMoreResultsExists : BitVec 16 := 8

/-- A packet that ends a result, with its status flags. -/
inductive FinalPkt : Pkt → BitVec 16 → Prop where
  | ok {p : Pkt} {status warnings : BitVec 16} {hdr : MysqlHdr} {affectedRows lastInsertId : BitVec 64}
      {info : List Byte} : p.WF →
      p.data = hdr.toBytes ++ 0x00 :: (okBody affectedRows lastInsertId status warnings ++ info) →
      FinalPkt p status
  | eof {p : Pkt} {status warnings : BitVec 16} {hdr : MysqlHdr} : p.WF →
      p.data = hdr.toBytes ++ 0xfe :: (leBytes 2 warnings.toNat ++ leBytes 2 status.toNat) →
      FinalPkt p status

/-- An OK packet or a full result set, with the status flags at its end. -/
inductive QueryResult : List Pkt → BitVec 16 → Prop where
  | ok {p : Pkt} {status : BitVec 16} : IsOk p → FinalPkt p status → QueryResult [p] status
  | resultset {count eof last : Pkt} {defs rows : List Pkt} {status : BitVec 16} : IsColumn count →
      defs ≠ [] → (∀ p ∈ defs, IsColumn p) → IsEof eof → (∀ p ∈ rows, IsRow p) → IsEof last →
      FinalPkt last status → QueryResult (count :: (defs ++ eof :: (rows ++ [last]))) status

/-- The results of a response: more are announced by every one but the last. -/
inductive QueryResults : List (List Pkt) → Prop where
  | last {r : List Pkt} {status : BitVec 16} : QueryResult r status →
      status &&& serverMoreResultsExists = 0 → QueryResults [r]
  | more {r : List Pkt} {rs : List (List Pkt)} {status : BitVec 16} : QueryResult r status →
      status &&& serverMoreResultsExists ≠ 0 → QueryResults rs → QueryResults (r :: rs)

variable {status : BitVec 16} {st t u : St} {cur : Nat} {inTrans : Bool} {env : SrvEnv}
  {g : ResultsetProgress} {p : Pkt} {pkts past : List Pkt}

variable {r : List Pkt}

theorem QueryResult.response (h : QueryResult r status) : Response r := by
  cases h with
  | ok hp _ => exact .ok hp
  | resultset hcount hne hdefs heof hrows hlast _ =>
      exact .resultset hcount hne hdefs heof hrows (.inl hlast)

/-! ## The calls at the end of a response -/

/-- A call that `server_COM_QUERY` makes at the end of a response. -/
inductive EndAction where
  /-- `bedetach` for the backend of this hostgroup -/
  | detached (hostgroup : Nat)
  /-- `query_statistics_set` -/
  | statisticsSet
  /-- `sync_server_bytes_at_cmd` -/
  | synced
  /-- `fdb_set` -/
  | cached
deriving DecidableEq

/-- The code of a session with a log of these calls. -/
abbrev LogM := Prog Fault (St × List EndAction)

def detachBackendsLogged (now : Nat → Nat) : LogM Unit := do
  let st ← logged get
  (List.range st.sh.glovars.mysqlHostgroups).forM fun i => do
    let inTrans ← logged activeTransaction
    let st ← logged get
    when (inTrans = false ∧ st.sh.glovars.mysqlShareConnections = 1) do
      note (.detached i)
      logged (bedetach i now)

def cacheResultLogged (room : Bool) (fill : Nat → Byte) : LogM Unit := do
  let st ← logged get
  when st.sess.queryToCache do
    let fed ← logged (liftM (deref st.sess.queryInfo.queryChecksum))
    when room do
      note .cached
      logged (modifyShared fun sh =>
        fdbSet sh (sh.md5 fed) (cacheValue fill st.sess.resultsetSize st.sess.resultset)
          st.sess.queryInfo.cacheTtl)

def completeResultsetLogged (env : SrvEnv) : LogM Unit := do
  let st ← logged get
  logged (modifySess fun s => { s with resultsetProgress := .waiting })
  when st.sh.glovars.mysqlQueryStatistics do
    note .statisticsSet
    logged queryStatisticsSet
  note .synced
  logged syncServerBytesAtCmd
  logged (modifySess fun s => { s with sendToSlave := false })
  cacheResultLogged env.cacheRoom env.fill
  logged (modifySess (flushResultset st.sh.glovars.mysqlMaxResultsetSize))

def serverComQueryLogged (p : Pkt) (r : MysqlResponseType) (env : SrvEnv) : LogM Unit := do
  let st ← logged get
  let progress := st.sess.resultsetProgress
  logged (modifySess fun s => { s with resultsetProgress := resultsetStep r progress })
  when (endsWithStatus r progress) (detachBackendsLogged env.now)
  logged (modifySess (collect st.sh.glovars.mysqlMaxResultsetSize p))
  when (resultsetStep r progress = .completed) (completeResultsetLogged env)

theorem detachBackendsLogged_erases (now : Nat → Nat) :
    Erases (detachBackendsLogged now) (detachBackends now) := by
  refine (Erases.logged get).bind fun st => Erases.forM fun i => ?_
  refine (Erases.logged activeTransaction).bind fun inTrans => (Erases.logged get).bind fun st => ?_
  exact Erases.when (Erases.note_bind _ (Erases.logged _))

theorem cacheResultLogged_erases (room : Bool) (fill : Nat → Byte) :
    Erases (cacheResultLogged room fill) (cacheResult room fill) := by
  refine (Erases.logged get).bind fun st => Erases.when ?_
  refine (Erases.logged _).bind fun fed => Erases.when ?_
  exact Erases.note_bind _ (Erases.logged _)

theorem completeResultsetLogged_erases (env : SrvEnv) :
    Erases (completeResultsetLogged env) (completeResultset env) := by
  refine (Erases.logged get).bind fun st => (Erases.logged _).bind fun _ => ?_
  refine (Erases.when (Erases.note_bind _ (Erases.logged _))).bind fun _ => Erases.note_bind _ ?_
  refine (Erases.logged _).bind fun _ => (Erases.logged _).bind fun _ => ?_
  exact (cacheResultLogged_erases env.cacheRoom env.fill).bind fun _ => Erases.logged _

theorem serverComQueryLogged_erases (p : Pkt) (r : MysqlResponseType) (env : SrvEnv) :
    Erases (serverComQueryLogged p r env) (serverComQuery p r env) := by
  refine (Erases.logged get).bind fun st => (Erases.logged _).bind fun _ => ?_
  refine (Erases.when (detachBackendsLogged_erases env.now)).bind fun _ =>
    (Erases.logged _).bind fun _ => ?_
  exact Erases.when (completeResultsetLogged_erases env)

def processServerPktLogged (env : SrvEnv) : LogM Unit := do
  let (p, r) ← logged (takeServerPkt env)
  let st ← logged get
  if st.sess.clientCommand = mysqlComQuit then logged (serverComQuit p r)
  else if st.sess.clientCommand = mysqlComInitDb then logged (serverComInitDb p r)
  else if st.sess.clientCommand = mysqlComStatistics then logged (serverComStatistics p)
  else if st.sess.clientCommand = mysqlComQuery then serverComQueryLogged p r env
  else logged (mySessAddPktOutClient p)

/-- The logged code is the code. -/
theorem processServerPktLogged_erases (env : SrvEnv) :
    Erases (processServerPktLogged env) (processServerPkt env) := by
  refine (Erases.logged _).bind fun pr => (Erases.logged get).bind fun st => ?_
  refine Erases.ite (Erases.logged _) (Erases.ite (Erases.logged _) (Erases.ite (Erases.logged _) ?_))
  exact Erases.ite (serverComQueryLogged_erases pr.1 pr.2 env) (Erases.logged _)

/-! ## One packet -/

/-- The calls at the end of a response, each once: backends are detached, statistics are stored, the
    counters are brought up to date, and the response is cached. -/
def endLog (hostgroups : Nat) (detach stats cache : Bool) : List EndAction :=
  (if detach then (List.range hostgroups).map .detached else []) ++ (if stats then [.statisticsSet]
    else []) ++ .synced :: (if cache then [.cached] else [])

theorem synced_mem_endLog (hostgroups : Nat) (detach stats cache : Bool) :
    .synced ∈ endLog hostgroups detach stats cache := by
  simp [endLog]

theorem endLog_eq (hostgroups : Nat) (detach stats cache : Bool) :
    endLog hostgroups detach stats cache
      = (if detach then (List.range hostgroups).map .detached else []) ++ endLog 0 false stats cache := by
  simp [endLog]

theorem detachBackendsLogged_returns (now : Nat → Nat) (log : List EndAction) (h : Releasable st cur)
    (htrans : st.inTrans cur = some inTrans) :
    Returns (detachBackendsLogged now) (fun _ t => OnlyMybes st t.1 ∧
      t.2 = log ++ if inTrans = false ∧ st.sh.glovars.mysqlShareConnections = 1
        then (List.range st.sh.glovars.mysqlHostgroups).map .detached else []) (st, log) := by
  unfold detachBackendsLogged
  rw [returns_bind, returns_logged, returns_get]
  refine (Returns.forM_log (P := fun t => Releasable t cur ∧ OnlyMybes st t)
    (a := fun i => if inTrans = false ∧ st.sh.glovars.mysqlShareConnections = 1 then [.detached i] else [])
    (fun i hi t ht => ?_) ⟨h, rfl, rfl, fun _ => rfl⟩).mono fun _ t ht => ⟨ht.1.2, ?_⟩
  · obtain ⟨t, log'⟩ := t
    obtain ⟨hrel, honly⟩ : Releasable t cur ∧ OnlyMybes st t := ht
    obtain ⟨mybe, myds, hcur, hsome⟩ := hrel.myds
    have hflag : myds.activeTransaction = inTrans := by
      have hkept := honly.myds cur
      rw [hcur, Option.bind_some, hsome] at hkept
      rw [St.inTrans, ← hkept, Option.map_some] at htrans
      exact Option.some.inj htrans
    have hlt : i < t.sh.glovars.mysqlHostgroups := by
      rw [honly.glovars]
      exact mem_range.1 hi
    simp only [activeTransaction, returns_bind, returns_logged, returns_get, hrel.current, deref,
      returns_lift_ok, returns_getMybe hcur, hsome, returns_pure, returns_when, returns_note, hflag,
      honly.glovars]
    split
    · exact (bedetach_returns now hrel hlt).mono fun _ u hu => ⟨⟨hu.1, honly.trans hu.2⟩, rfl⟩
    · exact ⟨⟨hrel, honly⟩, (append_nil _).symm⟩
  · rw [ht.2]
    split
    · rw [map_eq_flatMap]
    · simp

theorem cacheResultLogged_returns (room : Bool) (fill : Nat → Byte) (log : List EndAction)
    (h : CacheReady st) : Returns (cacheResultLogged room fill) (fun _ t => t.1.sess = st.sess ∧
      t.2 = log ++ if st.sess.queryToCache && room then [.cached] else []) (st, log) := by
  unfold cacheResultLogged
  rw [returns_bind, returns_logged, returns_get, returns_when]
  split
  case isTrue hcache =>
    obtain ⟨fed, hfed⟩ := Option.isSome_iff_exists.1 (h hcache)
    rw [hfed, returns_bind, returns_logged, deref, returns_lift_ok, returns_when, hcache, Bool.true_and]
    cases room with
    | true => exact ⟨(), rfl, rfl, rfl⟩
    | false => exact ⟨rfl, (append_nil _).symm⟩
  case isFalse hcache =>
    rw [Bool.not_eq_true] at hcache
    rw [hcache]
    exact ⟨rfl, (append_nil _).symm⟩

theorem queryStatisticsSet_live {Q : Unit → St → Prop} (h : Returns queryStatisticsSet Q st) :
    ∃ e, st.sess.queryInfo.queryStats = .live e ∧ e.username.isSome ∧ e.schemaname.isSome := by
  unfold queryStatisticsSet at h
  rw [returns_bind, returns_get] at h
  cases hstats : st.sess.queryInfo.queryStats with
  | null => simp [hstats] at h
  | dangling => simp [hstats] at h
  | live e =>
    refine ⟨e, rfl, ?_⟩
    simp only [hstats] at h
    cases hu : e.username with
    | none => exact absurd h (by simp [hu, deref, Returns])
    | some u =>
      cases hs : e.schemaname with
      | none => exact absurd h (by simp [hu, hs, deref, Returns])
      | some n => exact ⟨rfl, rfl⟩

theorem syncAndCache_returns (env : SrvEnv) (maxSize : Nat) (log : List EndAction)
    (hcache : CacheReady st) : Returns (do
      note .synced
      logged syncServerBytesAtCmd
      logged (modifySess fun s => { s with sendToSlave := false })
      cacheResultLogged env.cacheRoom env.fill
      logged (modifySess (flushResultset maxSize)))
      (fun _ t => t.1.sess.queryToCache = st.sess.queryToCache ∧
        t.2 = log ++ .synced :: if st.sess.queryToCache && env.cacheRoom then [.cached] else []) (st,
        log) := by
  rw [returns_bind, returns_note, returns_bind, returns_logged]
  refine syncServerBytesAtCmd_returns fun sent recv => ?_
  rw [returns_bind, returns_logged, returns_modifySess]
  refine (cacheResultLogged_returns env.cacheRoom env.fill _ ?_).bind fun _ t ht => ?_
  · exact hcache
  obtain ⟨hsess, hlog⟩ := ht
  rw [returns_logged, returns_modifySess, hsess, hlog]
  refine ⟨?_, ?_⟩
  · unfold flushResultset
    split <;> rfl
  · rw [append_assoc, singleton_append]

theorem completeResultsetLogged_returns (env : SrvEnv) (log : List EndAction) (hstats : StatsReady st)
    (hcache : CacheReady st) :
    Returns (completeResultsetLogged env) (fun _ t => t.1.sess.queryToCache = st.sess.queryToCache ∧
      t.2 = log ++ endLog 0 false st.sh.glovars.mysqlQueryStatistics
      (st.sess.queryToCache && env.cacheRoom)) (st, log) := by
  unfold completeResultsetLogged
  rw [returns_bind, returns_logged, returns_get, returns_bind, returns_logged, returns_modifySess,
    returns_bind, returns_when]
  split
  case isTrue hstat =>
    obtain ⟨e, hlive, hu, hs⟩ := hstats hstat
    rw [returns_bind, returns_note, returns_logged]
    refine queryStatisticsSet_returns hlive hu hs ?_
    refine (syncAndCache_returns env _ _ ?_).mono fun _ t ht => ⟨ht.1, ?_⟩
    · exact hcache
    · rw [ht.2, hstat, endLog, append_assoc]
      rfl
  case isFalse hstat =>
    rw [Bool.not_eq_true] at hstat
    refine (syncAndCache_returns env _ _ ?_).mono fun _ t ht => ⟨ht.1, ?_⟩
    · exact hcache
    · rw [ht.2, hstat, endLog]
      rfl

variable {Q : Unit → St × List EndAction → Prop} {log : List EndAction}

theorem completeResultsetLogged_statsReady
    (h : Returns (completeResultsetLogged env) Q (st, log)) : StatsReady st := by
  intro hstat
  unfold completeResultsetLogged at h
  rw [returns_bind, returns_logged, returns_get, returns_bind, returns_logged, returns_modifySess,
    returns_bind, returns_when, if_pos hstat, returns_bind, returns_note, returns_logged] at h
  have hlive := queryStatisticsSet_live h
  exact hlive

/-- What the statistics of the query depend on is the same in both. -/
structure SameQuery (st t : St) : Prop where
  info : t.sess.queryInfo = st.sess.queryInfo
  glovars : t.sh.glovars = st.sh.glovars

theorem SameQuery.trans (h : SameQuery st t) (h' : SameQuery t u) : SameQuery st u :=
  ⟨h'.info.trans h.info, h'.glovars.trans h.glovars⟩

theorem SameQuery.statsReady (h : SameQuery st t) : StatsReady t ↔ StatsReady st := by
  rw [StatsReady, StatsReady, h.info, h.glovars]

theorem Takes.sameQuery {beyond : Nat → Byte} (h : Takes st t g cur p pkts beyond) : SameQuery st t :=
  ⟨by rw [h.sess], by rw [h.sh]⟩

theorem OnlyMybes.sameQuery (h : OnlyMybes st t) : SameQuery st t := ⟨by rw [h.sess], h.glovars⟩

theorem serverComQueryLogged_open (env : SrvEnv) (log : List EndAction) (h : Answering st g cur pkts)
    (hopen : resultsetStep p.kind g ≠ .completed) :
    Returns (serverComQueryLogged p p.kind env) (fun _ t => t.2 = log ∧ SameQuery st t.1 ∧
      Answering t.1 (resultsetStep p.kind g) cur pkts) (st, log) := by
  have hends : endsWithStatus p.kind g ≠ true := fun hs => hopen (endsWithStatus_completed hs)
  obtain ⟨x, size, cached, rs, hcollect, -, hcached, -⟩ :=
    collect_spec st.sh.glovars.mysqlMaxResultsetSize p
    { st.sess with resultsetProgress := resultsetStep p.kind g }
  unfold serverComQueryLogged
  rw [returns_bind, returns_logged, returns_get, h.progress, returns_bind, returns_logged,
    returns_modifySess, returns_bind, returns_when, if_neg hends, returns_bind, returns_logged,
    returns_modifySess, hcollect, returns_when, if_neg hopen]
  refine ⟨rfl, ⟨rfl, rfl⟩, ⟨h.current, h.myds, h.hostgroups, h.named, h.pools⟩, h.command, rfl, h.input, ?_⟩
  exact fun hc => h.cache (hcached hc)

/-- The packet that ends the response makes each of the calls once. -/
theorem serverComQueryLogged_last (env : SrvEnv) (log : List EndAction) (h : Answering st g cur pkts)
    (hstats : StatsReady st) (htrans : st.inTrans cur = some inTrans)
    (hends : endsWithStatus p.kind g = true) : Returns (serverComQueryLogged p p.kind env) (fun _ t =>
      t.2 = log ++ endLog st.sh.glovars.mysqlHostgroups
        (!inTrans && st.sh.glovars.mysqlShareConnections == 1)
        st.sh.glovars.mysqlQueryStatistics (t.1.sess.queryToCache && env.cacheRoom)) (st, log) := by
  unfold serverComQueryLogged
  rw [returns_bind, returns_logged, returns_get, h.progress, returns_bind, returns_logged,
    returns_modifySess, returns_bind, returns_when, if_pos hends, endsWithStatus_completed hends]
  have hrel : Releasable { st with sess := { st.sess with resultsetProgress := .completed } } cur :=
    ⟨h.current, h.myds, h.hostgroups, h.named, h.pools⟩
  refine (detachBackendsLogged_returns env.now log hrel htrans).mono fun _ v hv => ?_
  obtain ⟨v, log'⟩ := v
  obtain ⟨honly, hlog⟩ := hv
  dsimp only at honly hlog
  obtain ⟨x, size, cached, rs, hcollect, -, hcached, -⟩ :=
    collect_spec st.sh.glovars.mysqlMaxResultsetSize p v.sess
  rw [returns_bind, returns_logged, returns_modifySess, hcollect, returns_when, if_pos rfl]
  refine (completeResultsetLogged_returns env log' ?_ ?_).mono fun _ t ht => ?_
  · exact (SameQuery.statsReady honly.sameQuery).2 hstats
  · intro hc
    rw [honly.sess] at hcached ⊢
    exact h.cache (hcached hc)
  · obtain ⟨hcache, hlog'⟩ := ht
    rw [hlog', hlog, hcache, endLog_eq st.sh.glovars.mysqlHostgroups, append_assoc]
    simp [honly.glovars]

theorem serverComQueryLogged_statsReady
    (h : Answering st g cur pkts) (htrans : st.inTrans cur = some inTrans)
    (hends : endsWithStatus p.kind g = true)
    (hret : Returns (serverComQueryLogged p p.kind env) Q (st, log)) : StatsReady st := by
  unfold serverComQueryLogged at hret
  rw [returns_bind, returns_logged, returns_get, h.progress, returns_bind, returns_logged,
    returns_modifySess, returns_bind, returns_when, if_pos hends, endsWithStatus_completed hends] at hret
  have hrel : Releasable { st with sess := { st.sess with resultsetProgress := .completed } } cur :=
    ⟨h.current, h.myds, h.hostgroups, h.named, h.pools⟩
  obtain ⟨_, ⟨v, log'⟩, hv, hrest⟩ := hret.exists_ends
  have honly : OnlyMybes _ v := ((detachBackendsLogged_returns env.now log hrel htrans).of_ends hv).1
  obtain ⟨x, size, cached, rs, hcollect, -⟩ := collect_spec st.sh.glovars.mysqlMaxResultsetSize p v.sess
  rw [returns_bind, returns_logged, returns_modifySess, hcollect, returns_when, if_pos rfl] at hrest
  have hstats := completeResultsetLogged_statsReady hrest
  exact (SameQuery.statsReady honly.sameQuery).1 hstats

/-- A round of `process_server_pkts` takes the packet and calls `server_COM_QUERY`. -/
theorem processServerPktLogged_takes (env : SrvEnv) (h : Answering st g cur (p :: pkts))
    (hp : ∃ c, p.StartsWith c) :
    ∃ t, Takes st t g cur p pkts env.beyond ∧ ∀ log Q, Returns (processServerPktLogged env) Q (st, log) ↔
      Returns (serverComQueryLogged p p.kind env) Q (t, log) := by
  obtain ⟨c, hc⟩ := hp
  obtain ⟨a, t, hends, rfl, htakes⟩ := (takeServerPkt_takes env h).exists_ends
  refine ⟨t, htakes, fun log => returns_congr ?_⟩
  have hcmd := htakes.answering.command
  rw [processServerPktLogged, outcome_bind, outcome_logged, hends]
  dsimp only
  rw [outcome_bind, outcome_logged, outcome_get]
  dsimp only
  rw [hcmd, mysqlResponse_kind hc]
  rfl

/-! ## A whole response -/

/-- A call of `server_COM_QUERY` for the packet `e.1`.  What the handler did before it is left open, as long
    as it did not touch the response or the query. -/
def EndStep (cur : Nat) (s : St × List EndAction) (e : Pkt × SrvEnv) (t : St × List EndAction) : Prop :=
  ∃ u pkts, SameQuery s.1 u ∧ Answering u s.1.sess.resultsetProgress cur (e.1 :: pkts) ∧
    Ends (processServerPktLogged e.2) (u, s.2) () t

/-- The calls at the end of the response `ps` are made after its last packet, each once, and while it
    comes the session goes on. -/
structure EndsOnce (cur : Nat) (st : St) (ps : List Pkt) : Prop where
  /-- before the last packet there is no call -/
  before : ∀ {es : List (Pkt × SrvEnv)} {rest : List Pkt} {t : St × List EndAction},
    ps = es.map Prod.fst ++ rest → rest ≠ [] → Run (EndStep cur) (st, []) es t → t.2 = []
  /-- the last packet makes each call once -/
  once : ∀ {es : List (Pkt × SrvEnv)} {p : Pkt} {env : SrvEnv} {t : St × List EndAction},
    ps = es.map Prod.fst ++ [p] → Run (EndStep cur) (st, []) (es ++ [(p, env)]) t →
    t.2 = endLog st.sh.glovars.mysqlHostgroups
      (!isTransactionActive env.beyond p && st.sh.glovars.mysqlShareConnections == 1)
      st.sh.glovars.mysqlQueryStatistics (t.1.sess.queryToCache && env.cacheRoom)
  /-- every packet is taken, so `query_statistics_set` finds what it needs -/
  returns : ∀ {es : List (Pkt × SrvEnv)} {p : Pkt} {rest pkts : List Pkt} {t : St × List EndAction}
    (env : SrvEnv)
    {u : St}, ps = es.map Prod.fst ++ p :: rest → Run (EndStep cur) (st, []) es t → SameQuery t.1 u →
    Answering u t.1.sess.resultsetProgress cur (p :: pkts) → ∃ v, EndStep cur t (p, env) v

/-- While the rest of a result is to come. -/
structure Open (cur : Nat) (st : St) (past : List Pkt) (s : St × List EndAction) : Prop where
  log : s.2 = []
  query : SameQuery st s.1
  answering : ∃ pkts, Answering s.1 (progressAfter .waiting past) cur pkts

variable {s : St × List EndAction}

theorem Open.step (h : Open cur st past s) (hq : SameQuery s.1 u)
    (hu : Answering u s.1.sess.resultsetProgress cur (p :: pkts)) (hp : ∃ c, p.StartsWith c)
    (hopen : resultsetStep p.kind (progressAfter .waiting past) ≠ .completed) :
    Returns (processServerPktLogged env) (fun _ t => Open cur st (past ++ [p]) t) (u, s.2) := by
  obtain ⟨pkts', hans⟩ := h.answering
  rw [hans.progress] at hu
  obtain ⟨t, ht, hiff⟩ := processServerPktLogged_takes env hu hp
  rw [hiff]
  refine (serverComQueryLogged_open env s.2 ht.answering hopen).mono fun _ v hv => ?_
  obtain ⟨hlog, hsame, hv⟩ := hv
  refine ⟨hlog.trans h.log, h.query.trans (hq.trans (ht.sameQuery.trans hsame)), pkts, ?_⟩
  rw [progressAfter_append]
  exact hv

theorem Open.run {rest : List Pkt} {es : List (Pkt × SrvEnv)} {t : St × List EndAction}
    (h : Open cur st past s) (hrest : Rest (progressAfter .waiting past) (es.map Prod.fst ++ rest))
    (hne : rest ≠ []) (hrun : Run (EndStep cur) s es t) : Open cur st (past ++ es.map Prod.fst) t := by
  induction hrun generalizing past with
  | nil s =>
    rw [map_nil, append_nil]
    exact h
  | @cons s v t e es hstep hrun ih =>
    obtain ⟨u, pkts, hq, hu, hends⟩ := hstep
    obtain ⟨hp, hcase⟩ := hrest.step
    rcases hcase with ⟨hnil, -⟩ | ⟨-, hopen, hrest'⟩
    · exact absurd (append_eq_nil_iff.1 hnil).2 hne
    · have hv := (h.step hq hu hp hopen).of_ends hends
      have hprogress : progressAfter .waiting (past ++ [e.1])
          = resultsetStep e.1.kind (progressAfter .waiting past) := progressAfter_append ..
      have ht := ih hv (hprogress ▸ hrest')
      rwa [append_assoc, singleton_append] at ht

theorem Open.exists_run {ps rest : List Pkt} (env : SrvEnv) (h : Open cur st past s)
    (hrest : Rest (progressAfter .waiting past) (ps ++ rest)) (hne : rest ≠ []) :
    ∃ t, Run (EndStep cur) s (ps.map fun p => (p, env)) t := by
  induction ps generalizing past s with
  | nil => exact ⟨s, .nil s⟩
  | cons p ps ih =>
    obtain ⟨pkts, hans⟩ := h.answering
    have hu := hans.receive [p]
    rw [← hans.progress] at hu
    have hq : SameQuery s.1 (s.1.receive cur [p]) := ⟨rfl, rfl⟩
    obtain ⟨hp, ⟨hnil, -⟩ | ⟨-, hopen, hrest'⟩⟩ := hrest.step
    · exact absurd (append_eq_nil_iff.1 hnil).2 hne
    · obtain ⟨_, v, hends, hv⟩ := (@Open.step _ _ _ env _ _ _ _ h hq hu hp hopen).exists_ends
      have hprogress : progressAfter .waiting (past ++ [p])
          = resultsetStep p.kind (progressAfter .waiting past) := progressAfter_append ..
      obtain ⟨t, hrun⟩ := ih hv (hprogress ▸ hrest')
      exact ⟨t, .cons ⟨_, [], hq, hu, hends⟩ hrun⟩

/-- The last packet of a result. -/
structure LastPkt (past : List Pkt) (p : Pkt) : Prop where
  starts : ∃ c, p.StartsWith c
  kind : p.kind = .okPacket ∨ p.kind = .eofPacket
  ends : endsWithStatus p.kind (progressAfter .waiting past) = true

theorem QueryResult.last (h : QueryResult r status) : ∃ past p, r = past ++ [p] ∧ LastPkt past p := by
  have hsplit : ∃ past p, r = past ++ [p] ∧ (IsOk p ∨ IsEof p) := by
    cases h with
    | @ok p _ hp _ => exact ⟨[], p, rfl, .inl hp⟩
    | @resultset count eof last defs rows _ _ _ _ _ _ hlast _ =>
      exact ⟨count :: (defs ++ eof :: rows), last, by simp, .inr hlast⟩
  obtain ⟨past, p, rfl, hp⟩ := hsplit
  have hkind : p.kind = .okPacket ∨ p.kind = .eofPacket := hp.imp IsOk.kind IsEof.kind
  have hcompleted := h.response.rest.completed_iff.2 (rfl : ([] : List Pkt) = [])
  refine ⟨past, p, rfl, ?_, hkind, ?_⟩
  · rcases hp with hp | hp
    · exact ⟨_, hp⟩
    · exact ⟨_, hp.1⟩
  · revert hcompleted
    rcases hkind with hk | hk <;> rw [hk] <;> cases progressAfter .waiting past <;> decide

/-- The last packet of a result makes the calls, if it is handled at all. -/
theorem Open.last (h : Open cur st past s) (hq : SameQuery s.1 u)
    (hu : Answering u s.1.sess.resultsetProgress cur (p :: pkts)) (hp : LastPkt past p)
    (hstats : StatsReady st) :
    Returns (processServerPktLogged env) (fun _ t => t.2 = endLog st.sh.glovars.mysqlHostgroups
      (!isTransactionActive env.beyond p && st.sh.glovars.mysqlShareConnections == 1)
      st.sh.glovars.mysqlQueryStatistics (t.1.sess.queryToCache && env.cacheRoom)) (u, s.2) := by
  obtain ⟨pkts', hans⟩ := h.answering
  rw [hans.progress] at hu
  obtain ⟨t, ht, hiff⟩ := processServerPktLogged_takes env hu hp.starts
  have hsame := h.query.trans (hq.trans ht.sameQuery)
  obtain ⟨c, hc⟩ := hp.starts
  have htrans := ht.inTrans (by rw [mysqlResponse_kind hc]; exact hp.kind)
  rw [hiff]
  refine (serverComQueryLogged_last env s.2 ht.answering (hsame.statsReady.2 hstats) htrans hp.ends).mono
    fun _ v hv => ?_
  rw [hv, h.log, hsame.glovars, nil_append]

theorem Open.statsReady {v : St × List EndAction} (h : Open cur st past s) (hp : LastPkt past p)
    (hstep : EndStep cur s (p, env) v) : StatsReady st := by
  obtain ⟨u, pkts, hq, hu, hends⟩ := hstep
  obtain ⟨pkts', hans⟩ := h.answering
  rw [hans.progress] at hu
  obtain ⟨t, ht, hiff⟩ := processServerPktLogged_takes env hu hp.starts
  have hsame := h.query.trans (hq.trans ht.sameQuery)
  obtain ⟨c, hc⟩ := hp.starts
  have htrans := ht.inTrans (by rw [mysqlResponse_kind hc]; exact hp.kind)
  have hret := (hiff s.2 fun _ _ => True).1 (hends.returns trivial)
  exact hsame.statsReady.1 (serverComQueryLogged_statsReady ht.answering htrans hp.ends hret)

theorem QueryResults.head {rs : List (List Pkt)} (h : QueryResults rs) :
    ∃ past p rs' status, rs = (past ++ [p]) :: rs' ∧ QueryResult (past ++ [p]) status ∧ LastPkt past p ∧
      (rs' ≠ [] → rs'.flatten ≠ []) := by
  cases h with
  | last hr _ =>
    obtain ⟨past, p, rfl, hp⟩ := hr.last
    exact ⟨past, p, [], _, rfl, hr, hp, fun hne => absurd rfl hne⟩
  | @more r rs' _ hr _ hrs =>
    obtain ⟨past, p, rfl, hp⟩ := hr.last
    refine ⟨past, p, rs', _, rfl, hr, hp, fun _ => ?_⟩
    cases hrs with
    | last hr _ =>
      obtain ⟨past, p, rfl, -⟩ := hr.last
      simp
    | more hr _ _ =>
      obtain ⟨past, p, rfl, -⟩ := hr.last
      simp

theorem Open.start (h : Answering st .waiting cur []) : Open cur st [] (st, []) :=
  ⟨rfl, ⟨rfl, rfl⟩, [], h⟩

/-- A response with one result, for a query whose statistics are there. -/
theorem endsOnce_of_one (h : Answering st .waiting cur []) (hr : QueryResult (past ++ [p]) status)
    (hp : LastPkt past p) (hstats : StatsReady st) : EndsOnce cur st (past ++ [p]) := by
  have hrest : Rest .waiting (past ++ [p]) := hr.response.rest
  have hopen : ∀ {es : List (Pkt × SrvEnv)} {rest : List Pkt} {t : St × List EndAction},
      past ++ [p] = es.map Prod.fst ++ rest → rest ≠ [] → Run (EndStep cur) (st, []) es t →
      Open cur st (es.map Prod.fst) t := by
    intro es rest t hsplit hne hrun
    exact (Open.start h).run (hsplit ▸ hrest) hne hrun
  constructor
  · intro es rest t hsplit hne hrun
    exact (hopen hsplit hne hrun).log
  · intro es q env t hsplit hrun
    obtain ⟨s, hinit, u, pkts, hq, hu, hends⟩ := hrun.exists_last
    obtain ⟨rfl, hlast⟩ := append_inj' hsplit rfl
    cases hlast
    exact ((hopen hsplit (by simp) hinit).last hq hu hp hstats).of_ends hends
  · intro es q rest pkts t env u hsplit hrun hq hu
    have ht := hopen hsplit (by simp) hrun
    by_cases hrest' : rest = []
    · subst hrest'
      obtain ⟨rfl, hlast⟩ := append_inj' hsplit rfl
      cases hlast
      obtain ⟨_, v, hends, -⟩ := (@Open.last _ _ _ env _ _ _ _ ht hq hu hp hstats).exists_ends
      exact ⟨v, u, pkts, hq, hu, hends⟩
    · have hafter : Rest .waiting (es.map Prod.fst ++ q :: rest) := hsplit ▸ hrest
      have hmore := mt hafter.completed_iff.1 hrest'
      obtain ⟨_, v, hends, -⟩ :=
        (@Open.step _ _ _ env _ _ _ _ ht hq hu hafter.after.step.1 hmore).exists_ends
      exact ⟨v, u, pkts, hq, hu, hends⟩

/-- The calls at the end of a response are made once and after its last packet just if it has one result
    and the statistics of the query, where they are kept, are there. -/
theorem endsOnce_iff {rs : List (List Pkt)} (hrs : QueryResults rs) {cur : Nat} {st : St}
    (h : Answering st .waiting cur []) :
    EndsOnce cur st rs.flatten ↔ rs.length = 1 ∧ StatsReady st := by
  obtain ⟨past, p, rs, status, rfl, hr, hp, hne⟩ := hrs.head
  constructor
  · intro honce
    have hrest : Rest .waiting (past ++ [p]) := hr.response.rest
    let env : SrvEnv := { beyond := fun _ => 0, now := fun _ => 0, cacheRoom := true, fill := fun _ => 0 }
    -- all packets of the first result but its last one come, and nothing is noted
    obtain ⟨t, hrun⟩ := (Open.start h).exists_run env hrest (by simp)
    have hfst : (past.map fun q => (q, env)).map Prod.fst = past := by
      rw [map_map]
      exact map_id past
    have ht : Open cur st past t := by
      have hall := (Open.start h).run (hfst ▸ hrest) (by simp) hrun
      rwa [nil_append, hfst] at hall
    -- the last one is handled, so the statistics are there, and the calls are made
    obtain ⟨pkts, hans⟩ := ht.answering
    have hu := hans.receive [p]
    rw [← hans.progress] at hu
    have hsplit : ((past ++ [p]) :: rs).flatten = (past.map fun q => (q, env)).map Prod.fst ++
      p :: rs.flatten := by
      rw [hfst]
      simp
    have hq : SameQuery t.1 (t.1.receive cur [p]) := ⟨rfl, rfl⟩
    obtain ⟨v, hv⟩ := honce.returns env hsplit hrun hq hu
    have hstats := ht.statsReady hp hv
    refine ⟨?_, hstats⟩
    by_contra hlen
    have hmore : rs.flatten ≠ [] := hne fun hnil => hlen (by rw [hnil]; rfl)
    have hnone : v.2 = [] := by
      refine honce.before ?_ hmore (hrun.append (.cons hv (.nil _)))
      rw [map_append, hfst]
      simp
    obtain ⟨u, pkts', hq', hu', hends⟩ := hv
    have hlog := (ht.last hq' hu' hp hstats).of_ends hends
    have hmem := synced_mem_endLog st.sh.glovars.mysqlHostgroups
      (!isTransactionActive env.beyond p && st.sh.glovars.mysqlShareConnections == 1)
      st.sh.glovars.mysqlQueryStatistics (v.1.sess.queryToCache && env.cacheRoom)
    rw [← hlog, hnone] at hmem
    cases hmem
  · rintro ⟨hlen, hstats⟩
    obtain rfl : rs = [] := length_eq_zero_iff.1 (Nat.succ.inj hlen)
    rw [flatten_singleton]
    exact endsOnce_of_one h hr hp hstats

theorem endsOnce_oneRow : EndsOnce 0 askedOne [oneRow].flatten := by
  have hresult : QueryResult oneRow 2 := by
    obtain ⟨hcount, hdefs, heof, hrows⟩ := oneRow_parts
    refine .resultset hcount (by decide) hdefs heof hrows ⟨by decide, by decide⟩ ?_
    exact @FinalPkt.eof _ 2 0 ⟨5, 5⟩ (by decide) rfl
  exact (endsOnce_iff (.last hresult (by decide)) relaying_askedOne.toAnswering).2
    ⟨rfl, relaying_askedOne.stats⟩

/-- As `askedOne`, with statistics. -/
def askedOneStats : St :=
  { askedOne with
    sh := { askedOne.sh with glovars := { askedOne.sh.glovars with mysqlQueryStatistics := true } },
    sess := { askedOne.sess with queryInfo := { askedOne.sess.queryInfo with
      queryStats :=
        .live { username := some (bytesOf "app"), schemaname := some (bytesOf "db"), hostgroupId := 0,
                            mysqlServerAddress := none, mysqlServerPort := 0 } } } }

/-- An OK packet with these status flags. -/
def okWith (status : BitVec 16) : Pkt := myprotoOkPkt (fun _ => 0) 1 0 0 status 0

/-- Two results: the statistics are stored after the first one, and the second one finds them gone. -/
theorem two_results_fault :
    QueryResults [[okWith 10], [okWith 2]] ∧
      (outcome (processServerPktLogged ⟨fun _ => 0, fun _ => 0, true, fun _ => 0⟩)
        (askedOneStats.receive 0 [okWith 10, okWith 2], [])).2.2 = [.statisticsSet, .synced] ∧
      (outcome (processServerPkts fun _ => ⟨fun _ => 0, fun _ => 0, true, fun _ => 0⟩)
        (askedOneStats.receive 0 [okWith 10, okWith 2])).1 = .error .nullDereference := by
  have hmore : FinalPkt (okWith 10) 10 := @FinalPkt.ok _ 10 0 (okHdr 1 0 0) 0 0 [] (by decide) (by decide)
  have hlast : FinalPkt (okWith 2) 2 := @FinalPkt.ok _ 2 0 (okHdr 1 0 0) 0 0 [] (by decide) (by decide)
  refine ⟨.more (.ok ?_ hmore) (by decide) (.last (.ok ?_ hlast) (by decide)), by decide +kernel,
    by decide +kernel⟩
  · exact (by decide : (okWith 10).StartsWith 0x00)
  · exact (by decide : (okWith 2).StartsWith 0x00)

end ProxySQL
