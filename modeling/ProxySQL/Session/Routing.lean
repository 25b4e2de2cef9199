/-
  ProxySQL.Session.Routing

  The tables that route commands, as the administrator loads them, and the
  destinations that result.

  `sqlite3_flush_default_hostgroups_db_to_mem` takes the rows of
  `default_hostgroups` as they are, while `sqlite3_flush_query_rules_db_to_mem`
  leaves out the rules whose destination is no hostgroup.  So a destination is
  out of range only if a row of `default_hostgroups` is
  (`destination_in_range`).

  A session looks its default hostgroup up at the first command after the table
  or its user changed, and sends that command to hostgroup 0
  (`default_destination_iff`).
-/
import ProxySQL.Lib.CInt
import ProxySQL.Session.Destination

namespace ProxySQL

open Lib List Option

/-! ## Loading the tables -/

/-- A row of `default_hostgroups`; the hostgroup is what `sqlite3_column_int` returns. -/
structure DefaultHostgroupRow where
  username : Option Str
  schemaname : Option Str
  hostgroupId : Int

/-- `__default_hostgroup__add_defHG`.  Both names are stored as the user name, and the name of the schema
    is what `g_slice_alloc` has left there: here NULL or a string, in `addDefHGOver` any pointer. -/
def addDefHG (garbage : Option Str) (row : DefaultHostgroupRow) : DefaultHostgroup :=
  { username := row.schemaname, schemaname := garbage, hostgroupId := row.hostgroupId }

/-- `sqlite3_flush_default_hostgroups_db_to_mem`; with each row comes the memory its entry is put into. -/
def flushDefaultHostgroupsDbToMem (d : DefHG) (rows : List (DefaultHostgroupRow × Option Str)) : DefHG :=
  { version := toInt (d.version + 1), defaultHostgroups := rows.map fun row => addDefHG row.2 row.1 }

/-- An active row of `query_rules`, with its patterns compiled and its numbers as `sqlite3_column_int`
    returns them. -/
structure QueryRuleRow extends QueryRule

/-- A value that is 0 or 1. -/
def clampFlag (n : Int) : Int := if n < 0 then 0 else if n > 1 then 1 else n

/-- A rule with the values of its row that are out of range replaced. -/
def QueryRuleRow.load (row : QueryRuleRow) : QueryRule :=
  { flagIN := if row.flagIN < 0 then 0 else row.flagIN,
    username := row.username, schemaname := row.schemaname, regexMatch := row.regexMatch,
    negateMatchPattern := clampFlag row.negateMatchPattern,
    flagOUT := if row.flagOUT < 0 then 0 else row.flagOUT,
    replace := row.replace,
    destinationHostgroup := if row.destinationHostgroup < 0 then 0 else row.destinationHostgroup,
    auditLog := clampFlag row.auditLog, performanceLog := clampFlag row.performanceLog,
    cacheTtl := if row.cacheTtl < -1 then -1 else row.cacheTtl }

/-- `sqlite3_flush_query_rules_db_to_mem`. -/
def flushQueryRulesDbToMem (g : Glovars) (rows : List QueryRuleRow) : List QueryRule :=
  (rows.map QueryRuleRow.load).filter fun qr => qr.destinationHostgroup < g.mysqlHostgroups

theorem flushQueryRulesDbToMem_range {g : Glovars} {rows : List QueryRuleRow} {qr : QueryRule}
    (h : qr ∈ flushQueryRulesDbToMem g rows) :
    0 ≤ qr.destinationHostgroup ∧ qr.destinationHostgroup < g.mysqlHostgroups := by
  obtain ⟨hmem, hlt⟩ := mem_filter.1 h
  obtain ⟨row, -, rfl⟩ := mem_map.1 hmem
  refine ⟨?_, of_decide_eq_true hlt⟩
  unfold QueryRuleRow.load
  dsimp only
  split
  · exact Int.le_refl 0
  · next hge => exact Int.not_lt.1 hge

variable {d : DefHG} {t : St}

theorem findDefHG_cases {D : Int → Prop} (hzero : D 0) (h : ∀ e ∈ d.defaultHostgroups, D e.hostgroupId)
    (username schemaname : Option Str) : D (findDefHG d username schemaname) := by
  unfold findDefHG
  dsimp only
  split
  · next e he => exact h e (mem_of_find?_eq_some he)
  · split
    · next e he => exact h e (mem_of_find?_eq_some he)
    · split
      · next e he => exact h e (mem_of_find?_eq_some he)
      · exact hzero

/-! ## Threads whose tables are loaded -/

/-- What happens in a thread, and the two FLUSH commands. -/
inductive LoadEvent where
  | thread (e : Event)
  /-- FLUSH DEFAULT HOSTGROUPS -/
  | flushDefaultHostgroups (rows : List (DefaultHostgroupRow × Option Str))
  /-- FLUSH QUERY RULES -/
  | flushQueryRules (rows : List QueryRuleRow)

def World.flushDefaultHostgroups (w : World) (rows : List (DefaultHostgroupRow × Option Str)) : World :=
  { w with sh := { w.sh with gloDefHG := flushDefaultHostgroupsDbToMem w.sh.gloDefHG rows } }

def World.flushQueryRules (w : World) (rows : List QueryRuleRow) : World :=
  { w with sh := { w.sh with queryRules := flushQueryRulesDbToMem w.sh.glovars rows } }

/-- What the destination of a packet depends on beside its session. -/
def Shared.routing (sh : Shared) : DefHG × List QueryRule × Nat :=
  (sh.gloDefHG, sh.queryRules, sh.glovars.mysqlHostgroups)

/-- Nothing but the FLUSH commands changes the tables. -/
inductive LoadStep : World → LoadEvent → World → Prop where
  | thread {w w' : World} {e : Event} : WorldStep w e w' →
      (∀ sh, e = .reconfigure sh → sh.gloDefHG = w.sh.gloDefHG ∧ sh.queryRules = w.sh.queryRules) →
      LoadStep w (.thread e) w'
  | flushDefaultHostgroups {w : World} (rows : List (DefaultHostgroupRow × Option Str)) :
      LoadStep w (.flushDefaultHostgroups rows) (w.flushDefaultHostgroups rows)
  | flushQueryRules {w : World} (rows : List QueryRuleRow) :
      LoadStep w (.flushQueryRules rows) (w.flushQueryRules rows)

theorem routing_of_tables {sh sh' : Shared} (h : sh'.tables = sh.tables) : sh'.routing = sh.routing := by
  unfold Shared.routing
  rw [gloDefHG_of_tables h, queryRules_of_tables h, glovars_of_tables h]

variable {w w' : World}

theorem worldStep_routing {e : Event} (h : WorldStep w e w')
    (hload : ∀ sh, e = .reconfigure sh → sh.gloDefHG = w.sh.gloDefHG ∧ sh.queryRules = w.sh.queryRules) :
    w'.sh.routing = w.sh.routing := by
  cases h with
  | accept | delete => rfl
  | session _ hstep => exact routing_of_tables (sessStep_routing hstep).tables
  | flushHostgroups rows => exact routing_of_tables (flushServersDbToMem_tables w.sh rows)
  | @reconfigure sh hsame =>
    obtain ⟨hdef, hrules⟩ := hload sh rfl
    unfold Shared.routing
    dsimp only
    rw [hdef, hrules, hsame.hostgroups]

/-- A step, unless the process stops in it. -/
def World.load (w : World) : LoadEvent → Option World
  | .thread e => w.step e
  | .flushDefaultHostgroups rows => some (w.flushDefaultHostgroups rows)
  | .flushQueryRules rows => some (w.flushQueryRules rows)

theorem World.loadStep_of_load (w : World) (e : LoadEvent) (w' : World) (h : w.load e = some w') :
    LoadStep w e w' := by
  cases e with
  | thread e =>
    refine .thread (World.worldStep_of_step w e w' h) ?_
    rintro sh rfl
    cases h
  | flushDefaultHostgroups rows =>
    cases h
    exact .flushDefaultHostgroups rows
  | flushQueryRules rows =>
    cases h
    exact .flushQueryRules rows

/-- Session `i` and its next packet, if that is sent on, what is sent, and the state in which its
    destination is checked. -/
def World.route (w : World) (i : Nat) (env : PktEnv) : Option (Session × Pkt × Pkt × St) :=
  match w.sessions[i]? with
  | none => none
  | some s =>
      match s.healthy, s.clientMyds.input.pkts, outcome (routePkt env) { sh := w.sh, sess := s } with
      | true, p :: _, (.ok (.send q), t) => some (s, p, q, t)
      | _, _, _ => none

theorem World.exists_route {i : Nat} {env : PktEnv} {P : Session × Pkt × Pkt × St → Prop}
    [DecidablePred P] (h : (w.route i env).any (fun r => P r) = true) :
    ∃ s p pkts q t, w.sessions[i]? = some s ∧ s.healthy = true ∧ s.clientMyds.input.pkts = p :: pkts ∧
      Ends (routePkt env) { sh := w.sh, sess := s } (.send q) t ∧ P (s, p, q, t) := by
  obtain ⟨r, hr, hP⟩ := (Option.any_eq_true ..).1 h
  unfold World.route at hr
  split at hr
  · cases hr
  · next s hs =>
    split at hr
    · next hhealthy hpkts hends =>
      cases hr
      exact ⟨s, _, _, _, _, hs, hhealthy, hpkts, hends, of_decide_eq_true hP⟩
    · cases hr

/-! ## Backends -/

/-- The session has `n` backends. -/
def HasBackends (n : Nat) (st : St) : Prop := st.sess.mybes.length = n

section HasBackends

variable {n : Nat}

theorem hasBackends_stable : Stable (fun _ => True) (HasBackends n) where
  sess hst hlocal := (congrArg length hlocal.mybes).trans hst
  record hst _ := hst
  cache _ hst := hst

theorem hasBackends_netStable : NetStable (HasBackends n) where
  client _ _ _ _ hst := hst
  server _ _ _ _ _ hst _ _ := length_set.trans hst
  ledger _ _ _ _ _ hst _ _ := hst

theorem hasBackends_rewired : RewiredBy (fun _ _ => True) (HasBackends n) where
  backend _ _ _ _ _ hst := length_set.trans hst
  shared _ _ _ hst := hst

theorem hasBackends_bereset (i : Nat) (fc : Bool) (now : Nat → Nat) :
    Keeps (HasBackends n) (bereset i fc now) :=
  hasBackends_rewired.bereset wireChanges_true i fc now

theorem sessStep_backends {st t : St} {e : SessEvent} (h : SessStep st e t) (ht : t.sess.healthy = true)
    (hst : HasBackends n st) : HasBackends n t := by
  have hwires : KeepsWires (HasBackends n) :=
    { bereset := hasBackends_bereset
      bedetach := hasBackends_rewired.bedetach wireChanges_true
      send := hasBackends_rewired.mySessAddPktOutServer wireChanges_true
      forget := hasBackends_rewired.forgetConnpool wireChanges_true }
  refine (SessEvent.wired_keeps hasBackends_stable hasBackends_netStable hwires ?_ ?_).ends h.2 hst
  · exact fun hg p env _ => forwardTo_keeps hasBackends_stable.quiet trivial
      (hasBackends_rewired.keepsBackends wireChanges_true env hg) (hwires.send hg p _)
  · rintro now rfl
    rw [(sessClose_ends h.2).2] at ht
    exact Bool.false_ne_true ht

end HasBackends

/-! ## Destinations in range -/

/-- A hostgroup, or -1. -/
def HostgroupOrNone (hostgroups : Nat) (n : Int) : Prop := -1 ≤ n ∧ n < hostgroups

instance (hostgroups : Nat) (n : Int) : Decidable (HostgroupOrNone hostgroups n) :=
  inferInstanceAs (Decidable (_ ∧ _))

/-- The rows that are loaded into the table of default hostgroups name hostgroups, or -1. -/
def RowsInRange (w : World) : LoadEvent → Prop
  | .flushDefaultHostgroups rows =>
      ∀ row ∈ rows, HostgroupOrNone w.sh.glovars.mysqlHostgroups row.1.hostgroupId
  | _ => True

/-- All hostgroups that can become destinations are in range. -/
structure World.InRange (w : World) : Prop where
  hostgroups : 0 < w.sh.glovars.mysqlHostgroups
  rules : ∀ qr ∈ w.sh.queryRules, qr.destinationHostgroup < w.sh.glovars.mysqlHostgroups
  entries : ∀ e ∈ w.sh.gloDefHG.defaultHostgroups,
    HostgroupOrNone w.sh.glovars.mysqlHostgroups e.hostgroupId
  sessions : ∀ s ∈ w.sessions, s.healthy = true →
    HostgroupOrNone w.sh.glovars.mysqlHostgroups s.defaultHostgroup ∧
      s.mybes.length = w.sh.glovars.mysqlHostgroups

variable {r : RouteData}

theorem RouteData.Settles.inRange {n : Nat} {r' : RouteData} (h : r.Settles d r') (hn : 0 < n)
    (hd : ∀ e ∈ d.defaultHostgroups, HostgroupOrNone n e.hostgroupId)
    (hr : HostgroupOrNone n r.defaultHostgroup) : HostgroupOrNone n r'.defaultHostgroup := by
  have hzero : HostgroupOrNone n 0 := ⟨by decide, by omega⟩
  cases h with
  | kept h =>
    rw [h]
    exact hr
  | refreshed h =>
    rw [h, RouteData.refresh]
    split
    · exact findDefHG_cases hzero hd _ _
    · exact hr
  | forgotten h _ =>
    rw [h]
    exact ⟨Int.le_refl _, by omega⟩

theorem World.InRange.step {e : LoadEvent} (h : Guarded LoadStep RowsInRange w e w') (hw : w.InRange) :
    w'.InRange := by
  obtain ⟨hstep, hrows⟩ := h
  cases hstep with
  | thread hthread hload =>
    have hrouting := worldStep_routing hthread hload
    simp only [Shared.routing, Prod.mk.injEq] at hrouting
    obtain ⟨hdef, hrules, hhostgroups⟩ := hrouting
    refine ⟨?_, ?_, ?_, ?_⟩
    · rw [hhostgroups]
      exact hw.hostgroups
    · rw [hrules, hhostgroups]
      exact hw.rules
    · rw [hdef, hhostgroups]
      exact hw.entries
    · rw [hhostgroups]
      refine worldStep_sessions hthread (fun _ _ _ _ _ _ => ?_) (fun i s e' t _ hs hst hold ht => ?_)
        hw.sessions
      · exact ⟨⟨Int.le_refl _, by have := hw.hostgroups; show (-1 : Int) < _; omega⟩, length_replicate⟩
      · have hroute := sessStep_routing hst
        obtain ⟨hdefault, hlength⟩ := hold (hroute.healthy ht)
        refine ⟨?_, sessStep_backends hst ht hlength⟩
        obtain hsettles | ⟨-, hkept⟩ := hroute.settles ht
        · exact hsettles.inRange hw.hostgroups hw.entries hdefault
        · rw [hkept.1]
          exact hdefault
  | flushDefaultHostgroups rows =>
    refine ⟨hw.hostgroups, hw.rules, fun e he => ?_, hw.sessions⟩
    obtain ⟨row, hrow, rfl⟩ := mem_map.1 he
    exact hrows row hrow
  | flushQueryRules rows =>
    exact ⟨hw.hostgroups, fun qr hqr => (flushQueryRulesDbToMem_range hqr).2, hw.entries, hw.sessions⟩

theorem World.InRange.init {g : Glovars} {md5 : List Byte → Str} {scramble : List Byte → Str → List Byte}
    (hg : 0 < g.mysqlHostgroups) : (World.init g md5 scramble).InRange :=
  { hostgroups := hg
    rules := nofun
    entries := nofun
    sessions := fun _ h => absurd h not_mem_nil }

theorem World.InRange.destination (hw : w.InRange) {s : Session} (hs : s ∈ w.sessions)
    (hhealthy : s.healthy = true) {env : PktEnv} {q : Pkt}
    (h : Ends (routePkt env) { sh := w.sh, sess := s } (.send q) t) :
    0 ≤ t.sess.queryInfo.destinationHostgroup ∧
      t.sess.queryInfo.destinationHostgroup < w.sh.glovars.mysqlHostgroups := by
  have hpos := hw.hostgroups
  obtain ⟨p, pkts, own, -, hown, hsent⟩ := (routePkt_ends h).2 q rfl
  obtain ⟨⟨hlo, hhi⟩, -⟩ := hw.sessions s hs hhealthy
  rw [hsent.destination]
  by_cases hnone : own = -1
  · rw [if_pos hnone, RouteData.destination]
    split
    · exact ⟨Int.le_refl 0, by omega⟩
    · next hstale =>
      have hne : s.defaultHostgroup ≠ -1 := fun heq => hstale (.inl heq)
      show 0 ≤ s.defaultHostgroup ∧ s.defaultHostgroup < w.sh.glovars.mysqlHostgroups
      omega
  · rw [if_neg hnone]
    -- the destination comes from a rule
    have hrange : own = -1 ∨ 0 ≤ own ∧ own < w.sh.glovars.mysqlHostgroups := by
      unfold ownDestination at hown
      split at hown
      · obtain ⟨r, hr, hret⟩ := except_bind_eq_ok.1 hown
        cases hret
        exact @runRules_destination s env.fill w.sh.queryRules { flagIN := 0, info := freshInfo p, p := p }
          (fun n => n = -1 ∨ 0 ≤ n ∧ n < w.sh.glovars.mysqlHostgroups)
          (fun qr hqr hge => .inr ⟨hge, hw.rules qr hqr⟩) (.inl rfl) r hr
      · exact .inl (Except.ok.inj hown).symm
    exact hrange.resolve_left hnone

theorem checkDestination_ends (hlo : 0 ≤ t.sess.queryInfo.destinationHostgroup)
    (hhi : t.sess.queryInfo.destinationHostgroup < t.sh.glovars.mysqlHostgroups) :
    Ends checkDestination t t.sess.queryInfo.destinationHostgroup.toNat t := by
  unfold checkDestination
  refine ends_get_bind.2 ?_
  dsimp only
  rw [if_neg (by omega), if_neg (by omega), if_neg (by omega)]
  exact ends_pure.2 ⟨rfl, rfl⟩

/-- If every row that is loaded into `default_hostgroups` names a hostgroup or -1, then every packet that a
    session sends on has a hostgroup as its destination, the assertions on it hold, and there is a
    backend for it. -/
theorem destination_in_range {g : Glovars} {md5 : List Byte → Str} {scramble : List Byte → Str → List Byte}
    (hg : 0 < g.mysqlHostgroups) {w : World} {es : List LoadEvent}
    (hrun : Run (Guarded LoadStep RowsInRange) (World.init g md5 scramble) es w) {s : Session}
    (hs : s ∈ w.sessions) (hhealthy : s.healthy = true) {env : PktEnv} {q : Pkt} {t : St}
    (h : Ends (routePkt env) { sh := w.sh, sess := s } (.send q) t) :
    ∃ hg : Nat, t.sess.queryInfo.destinationHostgroup = hg ∧ hg < w.sh.glovars.mysqlHostgroups ∧
      Ends checkDestination t hg t ∧ hg < t.sess.mybes.length := by
  have hw : w.InRange := hrun.invariant (fun _ _ _ hstep hw => hw.step hstep) (.init hg)
  obtain ⟨hlo, hhi⟩ := hw.destination hs hhealthy h
  have hglovars : t.sh.glovars = w.sh.glovars := glovars_of_tables (routePkt_ends h).1.tables
  have hcheck := @checkDestination_ends t hlo (by rw [hglovars]; exact hhi)
  refine ⟨t.sess.queryInfo.destinationHostgroup.toNat, (Int.toNat_of_nonneg hlo).symm, by omega, hcheck, ?_⟩
  -- the packet has been dispatched now, which leaves the number of backends alone
  have hdispatch : Ends (dispatchPkt env) { sh := w.sh, sess := s }
      (.forward t.sess.queryInfo.destinationHostgroup.toNat q) t := by
    rw [dispatchPkt_eq]
    exact ends_bind.2 ⟨_, t, h, ends_bind.2 ⟨_, t, hcheck, ends_pure.2 ⟨rfl, rfl⟩⟩⟩
  have hlength : t.sess.mybes.length = w.sh.glovars.mysqlHostgroups :=
    hdispatch.of_wp (dispatchPkt_wp hasBackends_stable.dispatch clientActions_true
      (fun _ i => hasBackends_bereset i false env.now) (hw.sessions s hs hhealthy).2)
  rw [hlength]
  omega

instance (w : World) (e : LoadEvent) : Decidable (RowsInRange w e) := by
  cases e <;> (unfold RowsInRange; infer_instance)

/-- The table with one row, which is found for user `u`: the name in its second column is stored as that of
    the user, and the memory for the schema is zero. -/
def rowForU (hostgroupId : Int) : List (DefaultHostgroupRow × Option Str) :=
  [({ username := none, schemaname := some (bytesOf "u"), hostgroupId := hostgroupId }, none)]

/-- User `u` logs in and sends two queries, the first of which was answered when the second arrives. -/
def twoQueries : List LoadEvent :=
  (loginSteps 0 ++ querySteps 0 0 "SELECT 1" ++ okSteps 0 2 ++
    readSteps 0 (queryPkt "SELECT 2")).map .thread

set_option maxRecDepth 4000 in
/-- The second query of a user whose default hostgroup is 1. -/
theorem destination_in_range_two :
    ∃ es w s q t, Run (Guarded LoadStep RowsInRange) oneServer es w ∧ w.sessions[0]? = some s ∧
      Ends (routePkt .quiet) { sh := w.sh, sess := s } (.send q) t ∧
      t.sess.queryInfo.destinationHostgroup = 1 ∧ Ends checkDestination t 1 t ∧
      1 < t.sess.mybes.length := by
  obtain ⟨w, hrun, hroute⟩ := Run.exists_guarded_exec World.load oneServer
    (.thread (.flushHostgroups [dbRow]) :: .flushDefaultHostgroups (rowForU 1) :: twoQueries)
    (P := fun w => (w.route 0 .quiet).any fun r => r.2.2.2.sess.queryInfo.destinationHostgroup = 1)
    World.loadStep_of_load (fun w e => of_decide_eq_true (p := RowsInRange w e)) (by decide +kernel)
  obtain ⟨s, p, pkts, q, t, hs, hhealthy, -, hends, hdest⟩ := World.exists_route hroute
  obtain ⟨hg, heq, -, hcheck, hlt⟩ :=
    destination_in_range (by decide) hrun (mem_of_getElem? hs) hhealthy hends
  have hdest : t.sess.queryInfo.destinationHostgroup = 1 := hdest
  obtain rfl : hg = 1 := by omega
  exact ⟨_, w, s, q, t, hrun, hs, hends, hdest, hcheck, hlt⟩

set_option maxRecDepth 4000 in
/-- With two hostgroups, a row for hostgroup 9 is loaded.  The second query of its user stops the
    process. -/
theorem destination_out_of_range :
    ∃ es w s q t, Run LoadStep oneServer es w ∧ w.sessions[0]? = some s ∧ s.healthy = true ∧
      Ends (routePkt .quiet) { sh := w.sh, sess := s } (.send q) t ∧
      t.sess.queryInfo.destinationHostgroup = 9 ∧ (outcome checkDestination t).1 = .error .assertion := by
  obtain ⟨w, hrun, hroute⟩ := Run.exists_exec World.load oneServer
    (.thread (.flushHostgroups [dbRow]) :: .flushDefaultHostgroups (rowForU 9) :: twoQueries)
    (P := fun w => (w.route 0 .quiet).any fun r => r.2.2.2.sess.queryInfo.destinationHostgroup = 9 ∧
      (outcome checkDestination r.2.2.2).1 = .error .assertion)
    World.loadStep_of_load (by decide +kernel)
  obtain ⟨s, p, pkts, q, t, hs, hhealthy, -, hends, hdest⟩ := World.exists_route hroute
  exact ⟨_, w, s, q, t, hrun, hs, hhealthy, hends, hdest⟩

/-! ## The default hostgroup -/

/-- User and schema of a session are replaced only while it has no default hostgroup; COM_CHANGE_USER and
    COM_INIT_DB of the client see to that themselves. -/
def RenamesUnresolved (w : World) : LoadEvent → Prop
  | .thread (.session i e) => ∀ s, w.sessions[i]? = some s → e.Renames s → s.defaultHostgroup = -1
  | _ => True

/-- After `k` loads: a session that has a default hostgroup found it at a load `j`, which its version tells,
    and if that was the last one it is what the session would find now. -/
def RouteData.Resolved (k : Nat) (d : DefHG) (r : RouteData) : Prop :=
  r.defaultHostgroup = -1 ∨ ∃ j ≤ k, r.defaultHostgroupVersion = toInt j ∧
    (j = k → r.defaultHostgroup = findDefHG d r.mysqlUsername r.mysqlSchemaCur)

variable {k : Nat}

theorem RouteData.Settles.resolved {r' : RouteData} (h : r.Settles d r') (hversion : d.version = toInt k)
    (hr : r.Resolved k d) : r'.Resolved k d := by
  cases h with
  | kept h =>
    rw [h]
    exact hr
  | refreshed h =>
    rw [h, RouteData.refresh]
    split
    · exact .inr ⟨k, Nat.le_refl k, hversion, fun _ => rfl⟩
    · exact hr
  | forgotten h _ => exact .inl h

/-- A new table takes the place of the one that a session has looked at. -/
theorem RouteData.Resolved.reload (hr : r.Resolved k d) (d' : DefHG) : r.Resolved (k + 1) d' := by
  refine hr.imp_right ?_
  rintro ⟨j, hj, hversion, -⟩
  exact ⟨j, Nat.le_succ_of_le hj, hversion, fun heq => absurd heq (Nat.lt_succ_of_le hj).ne⟩

/-- Versions that are equal are those of one load, as long as they do not come round. -/
theorem RouteData.Resolved.found (hr : r.Resolved k d) (hversion : d.version = toInt k) (hk : k < 2 ^ 32)
    (hfresh : ¬r.Stale d) : r.defaultHostgroup = findDefHG d r.mysqlUsername r.mysqlSchemaCur := by
  obtain ⟨hsome, hsame⟩ := not_or.1 hfresh
  obtain ⟨j, hj, hold, hfound⟩ := hr.resolve_left hsome
  refine hfound (toInt_inj_of_lt (Nat.lt_of_le_of_lt hj hk) hk ?_)
  rw [← hold, ← hversion, not_not.1 hsame]

structure World.Resolved (k : Nat) (w : World) : Prop where
  version : w.sh.gloDefHG.version = toInt k
  sessions : ∀ s ∈ w.sessions, s.healthy = true → s.routeData.Resolved k w.sh.gloDefHG

def LoadEvent.isLoad : LoadEvent → Bool
  | .flushDefaultHostgroups _ => true
  | .thread _ | .flushQueryRules _ => false

theorem World.Resolved.step {e : LoadEvent} (h : Guarded LoadStep RenamesUnresolved w e w')
    (hw : w.Resolved k) : w'.Resolved (if e.isLoad then k + 1 else k) := by
  obtain ⟨hstep, hrenames⟩ := h
  cases hstep with
  | thread hthread hload =>
    have hdef : w'.sh.gloDefHG = w.sh.gloDefHG := congrArg (fun x => x.1) (worldStep_routing hthread hload)
    refine ⟨by rw [hdef]; exact hw.version, ?_⟩
    rw [hdef]
    refine worldStep_sessions hthread (fun _ _ _ _ _ _ => .inl rfl) (fun i s e' t he hs hst hold ht => ?_)
      hw.sessions
    subst he
    have hroute := sessStep_routing hst
    obtain hsettles | ⟨hren, hdefault, -⟩ := hroute.settles ht
    · exact hsettles.resolved hw.version (hold (hroute.healthy ht))
    · exact .inl (hdefault.trans (hrenames s hs hren))
  | flushDefaultHostgroups rows =>
    refine ⟨?_, fun s hs hhealthy => (hw.sessions s hs hhealthy).reload _⟩
    show toInt (w.sh.gloDefHG.version + 1) = toInt (k + 1 : Nat)
    rw [hw.version, toInt_toInt_add]
    rfl
  | flushQueryRules rows => exact ⟨hw.version, hw.sessions⟩

theorem World.Resolved.run {es : List LoadEvent} (h : Run (Guarded LoadStep RenamesUnresolved) w es w')
    (hw : w.Resolved k) : w'.Resolved (k + es.countP LoadEvent.isLoad) := by
  induction h generalizing k with
  | nil => exact hw
  | @cons w u w' e es hstep _ ih =>
    have hrest := ih (hw.step hstep)
    rw [countP_cons]
    cases hload : e.isLoad with
    | true =>
      rw [hload, if_pos rfl] at hrest
      rw [if_pos rfl, Nat.add_comm _ 1, ← Nat.add_assoc]
      exact hrest
    | false =>
      rw [hload] at hrest
      exact hrest

theorem World.Resolved.init (g : Glovars) (md5 : List Byte → Str) (scramble : List Byte → Str → List Byte) :
    (World.init g md5 scramble).Resolved 0 :=
  ⟨rfl, fun _ h => absurd h not_mem_nil⟩

/-- In every run in which user and schema of a session are replaced only while it has no default hostgroup,
    and in which the table is loaded less often than its version takes to come round: a packet that no rule
    gives a destination goes to the hostgroup that the loaded table has for user and schema of its session
    exactly if the session has looked that hostgroup up before, or it is 0. -/
theorem default_destination_iff {g : Glovars} {md5 : List Byte → Str}
    {scramble : List Byte → Str → List Byte} {w : World} {es : List LoadEvent}
    (hrun : Run (Guarded LoadStep RenamesUnresolved) (World.init g md5 scramble) es w)
    (hloads : es.countP LoadEvent.isLoad < 2 ^ 32) {s : Session} (hs : s ∈ w.sessions)
    (hhealthy : s.healthy = true) {env : PktEnv} {p q : Pkt} {pkts : List Pkt} {t : St}
    (hpkts : s.clientMyds.input.pkts = p :: pkts)
    (hown : ownDestination w.sh s (p.mem env.beyond sizeofMysqlHdr).toNat env.fill p = .ok (-1))
    (h : Ends (routePkt env) { sh := w.sh, sess := s } (.send q) t) :
    t.sess.queryInfo.destinationHostgroup = findDefHG w.sh.gloDefHG s.mysqlUsername s.mysqlSchemaCur ↔
      ¬ s.routeData.Stale w.sh.gloDefHG ∨ findDefHG w.sh.gloDefHG s.mysqlUsername s.mysqlSchemaCur = 0 := by
  have hw : w.Resolved (0 + es.countP LoadEvent.isLoad) := (World.Resolved.init g md5 scramble).run hrun
  rw [Nat.zero_add] at hw
  have hfound := (hw.sessions s hs hhealthy).found hw.version hloads
  obtain ⟨p', pkts', own, hpkts', hown', hsent⟩ := (routePkt_ends h).2 q rfl
  obtain ⟨rfl, -⟩ := List.cons.inj (hpkts.symm.trans hpkts')
  obtain rfl := Except.ok.inj (hown'.symm.trans hown)
  rw [hsent.destination, if_pos rfl, RouteData.destination]
  split
  · next hstale =>
      constructor
      · exact fun hzero => .inr hzero.symm
      · exact fun hor => (hor.resolve_left fun hfresh => hfresh hstale).symm
  · next hfresh =>
      constructor
      · exact fun _ => .inl hfresh
      · exact fun _ => hfound hfresh

instance (w : World) (e : LoadEvent) : Decidable (RenamesUnresolved w e) := by
  unfold RenamesUnresolved
  split <;> infer_instance

set_option maxRecDepth 4000 in
/-- The second query of a user whose default hostgroup is 1. -/
theorem default_destination_second :
    ∃ es w s q t, Run (Guarded LoadStep RenamesUnresolved) oneServer es w ∧ w.sessions[0]? = some s ∧
      Ends (routePkt .quiet) { sh := w.sh, sess := s } (.send q) t ∧
      t.sess.queryInfo.destinationHostgroup = findDefHG w.sh.gloDefHG s.mysqlUsername s.mysqlSchemaCur ∧
      t.sess.queryInfo.destinationHostgroup = 1 := by
  obtain ⟨w, hrun, hroute⟩ := Run.exists_guarded_exec World.load oneServer
    (.thread (.flushHostgroups [dbRow]) :: .flushDefaultHostgroups (rowForU 1) :: twoQueries)
    (P := fun w => (w.route 0 .quiet).any fun r => r.2.2.2.sess.queryInfo.destinationHostgroup = 1 ∧
      ¬r.1.routeData.Stale w.sh.gloDefHG ∧
      ownDestination w.sh r.1 (r.2.1.mem PktEnv.quiet.beyond sizeofMysqlHdr).toNat PktEnv.quiet.fill r.2.1
        = .ok (-1))
    World.loadStep_of_load (fun w e => of_decide_eq_true (p := RenamesUnresolved w e)) (by decide +kernel)
  obtain ⟨s, p, pkts, q, t, hs, hhealthy, hpkts, hends, hdest, hstale, hown⟩ := World.exists_route hroute
  have hfound := (default_destination_iff hrun (by decide) (mem_of_getElem? hs) hhealthy hpkts hown hends).2
    (.inl hstale)
  exact ⟨_, w, s, q, t, hrun, hs, hends, hfound, hdest⟩

set_option maxRecDepth 4000 in
/-- The first query of a user whose default hostgroup is 1 goes to hostgroup 0. -/
theorem default_destination_first :
    ∃ es w s p pkts q t, Run LoadStep oneServer es w ∧ w.sessions[0]? = some s ∧ s.healthy = true ∧
      s.clientMyds.input.pkts = p :: pkts ∧
      ownDestination w.sh s (p.mem PktEnv.quiet.beyond sizeofMysqlHdr).toNat PktEnv.quiet.fill p =
      .ok (-1) ∧ Ends (routePkt .quiet) { sh := w.sh, sess := s } (.send q) t ∧
      findDefHG w.sh.gloDefHG s.mysqlUsername s.mysqlSchemaCur = 1 ∧
      t.sess.queryInfo.destinationHostgroup = 0 := by
  obtain ⟨w, hrun, hroute⟩ := Run.exists_exec World.load oneServer
    (.thread (.flushHostgroups [dbRow]) :: .flushDefaultHostgroups (rowForU 1) ::
      (loginSteps 0 ++ readSteps 0 (queryPkt "SELECT 1")).map .thread)
    (P := fun w => (w.route 0 .quiet).any fun r =>
      ownDestination w.sh r.1 (r.2.1.mem PktEnv.quiet.beyond sizeofMysqlHdr).toNat PktEnv.quiet.fill r.2.1
        = .ok (-1) ∧ findDefHG w.sh.gloDefHG r.1.mysqlUsername r.1.mysqlSchemaCur = 1 ∧
      r.2.2.2.sess.queryInfo.destinationHostgroup = 0)
    World.loadStep_of_load (by decide +kernel)
  obtain ⟨s, p, pkts, q, t, hs, hhealthy, hpkts, hends, hown, hfind, hdest⟩ := World.exists_route hroute
  exact ⟨_, w, s, p, pkts, q, t, hrun, hs, hhealthy, hpkts, hown, hends, hfind, hdest⟩

end ProxySQL
