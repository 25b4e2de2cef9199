/-
  ProxySQL.Session.Destination

  Where a client packet goes.

  `process_query_rules` gives the query of a user the destination of the last
  rule that sets one.  A packet without one gets the default hostgroup of its
  session (`setDefaultDestination`), which the session looks up by user and
  schema and keeps together with the version of the table it found it in.

  `routePkt_ends` says what destination a packet that is sent on has, and
  `sessStep_routing` what a step of a session may do to the hostgroup it keeps.
-/
import ProxySQL.Session.RoutingEffects

namespace ProxySQL

open Lib

/-! ## Where a command goes -/

namespace RouteData

variable (d : DefHG) (r : RouteData)

/-- The default hostgroup has to be looked up. -/
def Stale : Prop := r.defaultHostgroup = -1 ∨ r.defaultHostgroupVersion ≠ d.version

instance : Decidable (r.Stale d) := inferInstanceAs (Decidable (_ ∨ _))

/-- What a session has after a command without a destination of its own. -/
def refresh : RouteData :=
  if r.Stale d then
    { r with
      defaultHostgroupVersion := d.version,
      defaultHostgroup := findDefHG d r.mysqlUsername r.mysqlSchemaCur }
  else r

/-- The destination of such a command.  After a lookup it is what `mysql_session_default_hostgroup`
    returns. -/
def destination : Int := if r.Stale d then 0 else r.defaultHostgroup

/-- What a step may leave of `r`: the same, the result of a lookup, or nothing but the version. -/
inductive Settles (r' : RouteData) : Prop
  | kept : r' = r → Settles r'
  | refreshed : r' = r.refresh d → Settles r'
  | forgotten : r'.defaultHostgroup = -1 → r'.defaultHostgroupVersion = r.defaultHostgroupVersion →
      Settles r'

end RouteData

/-- What a step may do to the data that routes commands. -/
structure Resettled (st t : St) : Prop where
  tables : t.sh.tables = st.sh.tables
  healthy : t.sess.healthy = true → st.sess.healthy = true
  settles : st.sess.routeData.Settles st.sh.gloDefHG t.sess.routeData

variable {st t u : St} {sh sh' : Shared} {own : Int} {p q : Pkt} {env : PktEnv}

theorem RouteKept.resettled (h : RouteKept st t) : Resettled st t := ⟨h.2.1, h.2.2, .kept h.1⟩

/-- The state after a packet got the default destination. -/
def directed (st : St) : St :=
  let r := st.sess.routeData.refresh st.sh.gloDefHG
  { st with sess := { st.sess with
      defaultHostgroup := r.defaultHostgroup, defaultHostgroupVersion := r.defaultHostgroupVersion,
      queryInfo := { st.sess.queryInfo with
        destinationHostgroup := st.sess.routeData.destination st.sh.gloDefHG } } }

theorem directed_routeData (st : St) :
    (directed st).sess.routeData = st.sess.routeData.refresh st.sh.gloDefHG := by
  unfold directed Session.routeData RouteData.refresh
  split
  · rfl
  · rfl

theorem setDefaultDestination_ends (h : Ends setDefaultDestination st () t) : t = directed st := by
  have h := ends_get_bind.1 h
  obtain ⟨hg, u, hlookup, hset⟩ := ends_bind.1 h
  have ht : t = { u with sess := { u.sess with
      queryInfo := { u.sess.queryInfo with destinationHostgroup := hg } } } := (Prod.mk.inj hset).2.symm
  unfold directed RouteData.refresh RouteData.destination
  by_cases hstale : st.sess.routeData.Stale st.sh.gloDefHG
  · have hlook : st.sess.defaultHostgroup = -1 ∨ st.sess.defaultHostgroupVersion ≠ st.sh.gloDefHG.version :=
      hstale
    rw [if_pos hlook] at hlookup
    obtain ⟨hres, rfl⟩ := Prod.mk.inj hlookup
    cases hres
    rw [ht, if_pos hstale, if_pos hstale]
    rfl
  · have hlook : ¬ (st.sess.defaultHostgroup = -1 ∨ st.sess.defaultHostgroupVersion ≠
      st.sh.gloDefHG.version) :=
      hstale
    rw [if_neg hlook] at hlookup
    cases hlookup
    rw [ht, if_neg hstale, if_neg hstale]
    rfl

/-! ## The rules -/

/-- What `init_query_metadata` leaves for the rules. -/
def freshInfo (p : Pkt) : QueryInfo :=
  { queryChecksum := none, flagOUT := 0, rewritten := false, cacheTtl := 0, destinationHostgroup := -1,
    auditLog := 0, performanceLog := 0, query := queryOf p, preparedStatement := false,
    queryStats := .null }

/-- The destination that the rules give the query in a packet; -1 is none. -/
def rulesDestination (sh : Shared) (s : Session) (fill : Nat → Byte) (p : Pkt) : Except Fault Int := do
  let r ← runRules s fill sh.queryRules { flagIN := 0, info := freshInfo p, p := p }
  return r.info.destinationHostgroup

/-- The rules are asked about a packet. -/
def Ruled (sh : Shared) (s : Session) (cmd : Nat) (p : Pkt) : Prop :=
  cmd = mysqlComQuery ∧ s.admin = 0 ∧ ¬ p.length - sizeofMysqlHdr > sh.glovars.mysqlMaxQuerySize

instance (sh : Shared) (s : Session) (cmd : Nat) (p : Pkt) : Decidable (Ruled sh s cmd p) :=
  inferInstanceAs (Decidable (_ ∧ _ ∧ _))

/-- The destination that a packet has of its own; -1 is none. -/
def ownDestination (sh : Shared) (s : Session) (cmd : Nat) (fill : Nat → Byte) (p : Pkt) :
    Except Fault Int :=
  if Ruled sh s cmd p then rulesDestination sh s fill p else .ok (-1)

/-- Two states of the loop that lead to the same destination. -/
structure RuleState.Agree (a b : RuleState) : Prop where
  flagIN : a.flagIN = b.flagIN
  query : a.info.query = b.info.query
  cacheTtl : a.info.cacheTtl = b.info.cacheTtl
  destination : a.info.destinationHostgroup = b.info.destinationHostgroup

section Rules

variable {s s' : Session} {fill : Nat → Byte} {qr : QueryRule} {rules : List QueryRule} {a b : RuleState}

theorem runRules_session (huser : s.mysqlUsername = s'.mysqlUsername)
    (hschema : s.mysqlSchemaCur = s'.mysqlSchemaCur) :
    runRules s fill rules a = runRules s' fill rules a := by
  have happlies : ∀ (qr : QueryRule) a, qr.applies s a = qr.applies s' a := by
    intro qr a
    unfold QueryRule.applies
    rw [huser, hschema]
  induction rules generalizing a with
  | nil => rfl
  | cons qr rules ih =>
    rw [runRules, runRules, happlies]
    simp only [ih]

theorem QueryRule.applies_agree (h : a.Agree b) : qr.applies s a = qr.applies s b := by
  unfold QueryRule.applies
  rw [h.flagIN, h.query]

theorem QueryRule.set_agree (h : a.Agree b) : (qr.set a).Agree (qr.set b) where
  flagIN := congrArg (fun n => if qr.flagOUT ≠ 0 then qr.flagOUT else n) h.flagIN
  query := h.query
  cacheTtl := congrArg (fun n => if qr.cacheTtl ≠ 0 then qr.cacheTtl else n) h.cacheTtl
  destination :=
    congrArg (fun n => if qr.destinationHostgroup ≥ 0 then qr.destinationHostgroup else n) h.destination

theorem QueryRule.rewrite_agree (h : a.Agree b) :
    (qr.rewrite fill a = none ∧ qr.rewrite fill b = none) ∨
      ∃ a' b', qr.rewrite fill a = some a' ∧ qr.rewrite fill b = some b' ∧ a'.Agree b' := by
  unfold QueryRule.rewrite
  cases qr.replace with
  | none => exact .inr ⟨a, b, rfl, rfl, h⟩
  | some f =>
    dsimp only
    rw [h.query]
    cases f b.info.query with
    | none => exact .inl ⟨rfl, rfl⟩
    | some q => exact .inr ⟨_, _, rfl, rfl, h.flagIN, rfl, h.cacheTtl, h.destination⟩

theorem runRules_agree (h : a.Agree b) {r : RuleState} (hr : runRules s fill rules a = .ok r) :
    ∃ r', runRules s fill rules b = .ok r' ∧ r.Agree r' := by
  induction rules generalizing a b with
  | nil =>
    cases hr
    exact ⟨b, rfl, h⟩
  | cons qr rules ih =>
    rw [runRules, ← QueryRule.applies_agree h]
    obtain ⟨applies, happlies, hrest⟩ := except_bind_eq_ok.1 hr
    rw [happlies, except_ok_bind]
    cases applies with
    | false => exact ih h hrest
    | true =>
      rw [if_pos rfl] at hrest ⊢
      obtain ⟨ha, hb⟩ | ⟨a', b', ha, hb, hagree⟩ := @QueryRule.rewrite_agree fill qr a b h
      · rw [ha] at hrest
        rw [hb]
        exact ih h hrest
      · rw [ha] at hrest
        rw [hb]
        have hset := @QueryRule.set_agree qr a' b' hagree
        dsimp only at hrest ⊢
        rw [← hset.cacheTtl]
        split at hrest
        · next httl =>
          cases hrest
          rw [if_pos httl]
          exact ⟨_, rfl, hset⟩
        · next httl =>
          rw [if_neg httl]
          exact ih hset hrest

theorem runRules_destination {D : Int → Prop} (hrules : ∀ qr ∈ rules, 0 ≤ qr.destinationHostgroup →
    D qr.destinationHostgroup) (ha : D a.info.destinationHostgroup) {r : RuleState}
    (hr : runRules s fill rules a = .ok r) : D r.info.destinationHostgroup := by
  induction rules generalizing a with
  | nil =>
    cases hr
    exact ha
  | cons qr rules ih =>
    have hrest_rules : ∀ qr ∈ rules, 0 ≤ qr.destinationHostgroup → D qr.destinationHostgroup :=
      fun qr hqr => hrules qr (List.mem_cons_of_mem _ hqr)
    obtain ⟨applies, -, hrest⟩ := except_bind_eq_ok.1 hr
    cases applies with
    | false => exact ih hrest_rules ha hrest
    | true =>
      rw [if_pos rfl] at hrest
      split at hrest
      · exact ih hrest_rules ha hrest
      · next a' hrewrite =>
        have ha' : D a'.info.destinationHostgroup := by
          unfold QueryRule.rewrite at hrewrite
          split at hrewrite
          · cases hrewrite
            exact ha
          · split at hrewrite
            · cases hrewrite
            · cases hrewrite
              exact ha
        have hset : D (qr.set a').info.destinationHostgroup := by
          unfold QueryRule.set
          dsimp only
          split
          · next hge => exact hrules qr List.mem_cons_self hge
          · exact ha'
        dsimp only at hrest
        split at hrest
        · cases hrest
          exact hset
        · exact ih hrest_rules hset hrest

end Rules

theorem ownDestination_session {s s' : Session} (huser : s.mysqlUsername = s'.mysqlUsername)
    (hschema : s.mysqlSchemaCur = s'.mysqlSchemaCur) (hadmin : s.admin = s'.admin) (cmd : Nat)
    (fill : Nat → Byte) (p : Pkt) : ownDestination sh s cmd fill p = ownDestination sh s' cmd fill p := by
  have hrules : rulesDestination sh s fill p = rulesDestination sh s' fill p := by
    unfold rulesDestination
    rw [runRules_session huser hschema]
  have hruled : Ruled sh s cmd p ↔ Ruled sh s' cmd p := by
    unfold Ruled
    rw [hadmin]
  unfold ownDestination
  simp only [hruled, hrules]

/-! ## A client packet -/

/-- How far a client packet gets before its destination is checked. -/
inductive Route where
  /-- it was answered, or the session is to be closed -/
  | done (flow : Flow)
  | send (p : Pkt)

/-- The packet, after the default destination was looked up if it is needed. -/
def routed (p : Pkt) : SessM Route := do
  let cmd := (← get).sess.clientCommand
  when (cmd ≠ mysqlComQuery) setDefaultDestination
  return .send p

/-- A round of the loop of `process_client_pkts` up to the assertion on the destination. -/
def routePkt (env : PktEnv) : SessM Route := roundWith .done env routed

theorem dispatchPkt_eq (env : PktEnv) :
    dispatchPkt env = (do
      match ← routePkt env with
      | .done flow => return .done flow
      | .send p =>
        let hg ← checkDestination
        return .forward hg p) := by
  rw [dispatchPkt, routePkt, roundWith_bind (d := Dispatch.done)]
  · refine congrArg (roundWith Dispatch.done env) (funext fun p => ?_)
    rw [addressed, destinationHostgroup, routed]
    simp only [bind_assoc, pure_bind]
  · exact fun _ => rfl

/-- What becomes of the data that routes commands when a packet whose own destination is `own` is sent
    on. -/
structure Sent (own : Int) (st t : St) : Prop where
  tables : t.sh.tables = st.sh.tables
  healthy : t.sess.healthy = true → st.sess.healthy = true
  routeData : t.sess.routeData =
    if own = -1 then st.sess.routeData.refresh st.sh.gloDefHG else st.sess.routeData
  destination : t.sess.queryInfo.destinationHostgroup =
    if own = -1 then st.sess.routeData.destination st.sh.gloDefHG else own

theorem gloDefHG_of_tables (h : sh'.tables = sh.tables) : sh'.gloDefHG = sh.gloDefHG :=
  congrArg (fun x => x.2.1) h

theorem glovars_of_tables (h : sh'.tables = sh.tables) : sh'.glovars = sh.glovars :=
  congrArg (fun x => x.1) h

theorem queryRules_of_tables (h : sh'.tables = sh.tables) : sh'.queryRules = sh.queryRules :=
  congrArg (fun x => x.2.2) h

theorem Sent.resettled (h : Sent own st t) : Resettled st t := by
  refine ⟨h.tables, h.healthy, ?_⟩
  by_cases hown : own = -1
  · exact .refreshed (h.routeData.trans (if_pos hown))
  · exact .kept (h.routeData.trans (if_neg hown))

theorem RouteKept.sent (h : RouteKept st t) : Sent (-1) st (directed t) := by
  have hdef : t.sh.gloDefHG = st.sh.gloDefHG := gloDefHG_of_tables h.2.1
  refine ⟨h.2.1, h.2.2, ?_, ?_⟩
  · rw [directed_routeData, h.1, hdef, if_pos rfl]
  · rw [if_pos rfl, ← h.1, ← hdef]
    rfl

theorem Sent.keep (h : Sent own st t) (hkept : RouteKept t u)
    (hdest : u.sess.queryInfo.destinationHostgroup = t.sess.queryInfo.destinationHostgroup) :
    Sent own st u :=
  ⟨hkept.2.1.trans h.tables, fun hu => h.healthy (hkept.2.2 hu), hkept.1.trans h.routeData,
    hdest.trans h.destination⟩

theorem RouteKept.trans (h : RouteKept st t) (h' : RouteKept t u) : RouteKept st u :=
  ⟨h'.1.trans h.1, h'.2.1.trans h.2.1, fun hu => h.2.2 (h'.2.2 hu)⟩

theorem RouteKept.sent_own (h : RouteKept st t) (hown : own ≠ -1)
    (hdest : t.sess.queryInfo.destinationHostgroup = own) : Sent own st t :=
  ⟨h.2.1, h.2.2, h.1.trans (if_neg hown).symm, hdest.trans (if_neg hown).symm⟩

/-- An answer from the cache sets the flag for it; without one nothing changes. -/
theorem getResultFromMysqlQueryCache_ends {hit : Bool} (h : Ends getResultFromMysqlQueryCache st hit t) :
    (hit = true ∧ RouteKept st t ∧ t.sess.mysqlQueryCacheHit = true) ∨
    (hit = false ∧ DirectionKept st t) := by
  obtain ⟨fed, u, hsum, hrest⟩ := ends_bind.1 h
  have hu : DirectionKept st u := computeQueryChecksum_direction.ends hsum (.refl st)
  have hrest := ends_get_bind.1 hrest
  dsimp only at hrest
  split at hrest
  · cases hrest
    exact .inr ⟨rfl, hu⟩
  · next result _ =>
    obtain ⟨_, v, hout, hrest⟩ := ends_bind.1 hrest
    obtain ⟨_, w, hflag, hrest⟩ := ends_bind.1 hrest
    have hv : RouteKept st v := (mySessAddPktOutClient_keeps routeKept_still result).ends hout hu.1
    have hw : w = { v with sess := { v.sess with mysqlQueryCacheHit := true, queryToCache := false } } :=
      (Prod.mk.inj hflag).2.symm
    have hkept : RouteKept st w := by
      rw [hw]
      exact hv
    have hdone : Keeps (DirectionKept w) (do
        record .cacheHit
        when u.sh.glovars.mysqlQueryStatistics queryStatisticsSet
        return true : SessM Bool) := by
      refine .bind (.modify fun _ h => h) fun _ => ?_
      exact .bind (.when fun _ => queryStatisticsSet_keeps directionKept_still) fun _ => .pure _
    have ht : DirectionKept w t := hdone.ends hrest (.refl w)
    have hhit : hit = true := by
      obtain ⟨_, _, _, hrest⟩ := ends_bind.1 hrest
      obtain ⟨_, _, _, hrest⟩ := ends_bind.1 hrest
      exact (ends_pure.1 hrest).1.symm
    refine .inl ⟨hhit, hkept.trans ht.1, ?_⟩
    have hflags : t.sess.mysqlQueryCacheHit = w.sess.mysqlQueryCacheHit :=
      congrArg (fun x => x.2.2.2.2) ht.2
    rw [hflags, hw]

/-- A query is ready for the rules. -/
structure Fresh (p : Pkt) (st t : St) : Prop where
  kept : RouteKept st t
  command : t.sess.clientCommand = st.sess.clientCommand
  query : t.sess.queryInfo.query = queryOf p
  cacheTtl : t.sess.queryInfo.cacheTtl = 0
  destination : t.sess.queryInfo.destinationHostgroup = -1

theorem initQueryMetadata_ends (h : Ends (initQueryMetadata (some p)) st () t) : Fresh p st t := by
  have h := ends_get_bind.1 h
  by_cases hdangling : st.sess.queryInfo.queryStats = .dangling
  · rw [if_pos hdangling] at h
    exact absurd h not_ends_throw
  · rw [if_neg hdangling] at h
    cases h
    exact ⟨.refl st, rfl, rfl, rfl, rfl⟩

theorem Fresh.of_direction (h : Fresh p st t) (h' : DirectionKept t u) : Fresh p st u := by
  obtain ⟨hkept, hdir⟩ := h'
  simp only [Session.direction, Prod.mk.injEq] at hdir
  exact ⟨h.kept.trans hkept, hdir.1.trans h.command, hdir.2.1.trans h.query, hdir.2.2.1.trans h.cacheTtl,
    hdir.2.2.2.1.trans h.destination⟩

/-- A query leaves the rules with their destination or with the default one. -/
theorem processQueryRules_ends {fill : Nat → Byte} (hu : Fresh p st u)
    (h : Ends (processQueryRules p fill) u q t) : t.sess.clientCommand = st.sess.clientCommand ∧
      ∃ own, rulesDestination st.sh st.sess fill p = .ok own ∧ Sent own st t := by
  have h := ends_get_bind.1 h
  obtain ⟨r, v, hrules, h⟩ := ends_bind.1 h
  obtain ⟨hres, rfl⟩ := Prod.mk.inj hrules
  obtain ⟨_, w, hset, h⟩ := ends_bind.1 h
  obtain ⟨_, x, hdefault, h⟩ := ends_bind.1 h
  cases h
  have hw : w = { u with sess := { u.sess with queryInfo :=
      { r.info with cacheTtl := finalTtl u.sh.glovars r.info.cacheTtl } } } := (Prod.mk.inj hset).2.symm
  have hkept : RouteKept st w := by
    rw [hw]
    exact hu.kept
  have hcommand : w.sess.clientCommand = st.sess.clientCommand := by
    rw [hw]
    exact hu.command
  have hdest : w.sess.queryInfo.destinationHostgroup = r.info.destinationHostgroup := by rw [hw]
  -- the rules, asked at the start, would have said the same
  have hown : rulesDestination st.sh st.sess fill p = .ok r.info.destinationHostgroup := by
    have huser : u.sess.mysqlUsername = st.sess.mysqlUsername := congrArg RouteData.mysqlUsername hu.kept.1
    have hschema : u.sess.mysqlSchemaCur = st.sess.mysqlSchemaCur :=
      congrArg RouteData.mysqlSchemaCur hu.kept.1
    rw [queryRules_of_tables hu.kept.2.1, runRules_session huser hschema] at hres
    have hstart : RuleState.Agree { flagIN := 0, info := u.sess.queryInfo, p := p }
        { flagIN := 0, info := freshInfo p, p := p } := ⟨rfl, hu.query, hu.cacheTtl, hu.destination⟩
    obtain ⟨r', hr', hagree⟩ := runRules_agree hstart hres
    unfold rulesDestination
    rw [hr', hagree.destination]
    rfl
  unfold when at hdefault
  split at hdefault
  · next hnone =>
    obtain rfl := setDefaultDestination_ends hdefault
    refine ⟨hcommand, -1, ?_, hkept.sent⟩
    rw [hown, hnone]
  · next hsome =>
    cases hdefault
    exact ⟨hcommand, _, hown, hkept.sent_own hsome hdest⟩

/-- How the switch over the command leaves a packet. -/
inductive Directed (own : Except Fault Int) (st t : St) : Prop
  | answered : Resettled st t → t.sess.mysqlQueryCacheHit = true → Directed own st t
  /-- no rule was asked -/
  | plain : own = .ok (-1) → RouteKept st t → t.sess.clientCommand ≠ mysqlComQuery → Directed own st t
  | query {n : Int} : own = .ok n → Sent n st t → t.sess.clientCommand = mysqlComQuery → Directed own st t

theorem Directed.resettled {own : Except Fault Int} (h : Directed own st t) : Resettled st t := by
  cases h with
  | answered h _ => exact h
  | plain _ h _ => exact h.resettled
  | query _ h _ => exact h.resettled

theorem clientComQuery_ends {fill : Nat → Byte} (hcommand : st.sess.clientCommand = mysqlComQuery)
    (hadmin : st.sess.admin = 0) (h : Ends (clientComQuery p fill) st q t) :
    Directed (ownDestination st.sh st.sess st.sess.clientCommand fill p) st t := by
  have h := ends_get_bind.1 h
  dsimp only at h
  unfold ownDestination
  split at h
  · next hlong =>
    obtain ⟨_, u, hend, hret⟩ := ends_bind.1 h
    cases hret
    cases hend
    exact .plain (if_neg fun hruled => hruled.2.2 hlong) (.refl st)
      (by decide : mysqlComEnd ≠ mysqlComQuery)
  · next hshort =>
    rw [if_pos ⟨hcommand, hadmin, hshort⟩]
    obtain ⟨_, u, hinit, h⟩ := ends_bind.1 h
    obtain ⟨_, v, hprogress, h⟩ := ends_bind.1 h
    have hu : Fresh p st u := initQueryMetadata_ends hinit
    have hv : Fresh p st v := by
      cases hprogress
      exact hu.of_direction (.refl u)
    obtain ⟨hit, w, hcheck, h⟩ := ends_bind.1 h
    have hw : (hit = true ∧ RouteKept v w ∧ w.sess.mysqlQueryCacheHit = true) ∨
        (hit = false ∧ DirectionKept v w) := by
      split at hcheck
      · exact getResultFromMysqlQueryCache_ends hcheck
      · cases hcheck
        exact .inr ⟨rfl, .refl _⟩
    obtain ⟨rfl, hkept, hflag⟩ | ⟨rfl, hkept⟩ := hw
    · cases h
      exact .answered (hv.kept.trans hkept).resettled hflag
    · obtain ⟨q', x, hrules, h⟩ := ends_bind.1 h
      obtain ⟨hcmd, own, hown, hsent⟩ := processQueryRules_ends (hv.of_direction hkept) hrules
      have h := ends_get_bind.1 h
      obtain ⟨_, y, hcached, hret⟩ := ends_bind.1 h
      cases hret
      unfold when at hcached
      split at hcached
      · obtain ⟨_, z, hmark, hcached⟩ := ends_bind.1 hcached
        obtain ⟨hit, y', hget, hret⟩ := ends_bind.1 hcached
        cases hret
        cases hmark
        obtain ⟨-, hroute, hflag⟩ | ⟨-, hroute, hdir⟩ := getResultFromMysqlQueryCache_ends hget
        · refine .answered ?_ hflag
          obtain ⟨htables, hhealthy, hsettles⟩ := hsent.resettled
          refine ⟨hroute.2.1.trans htables, fun hy => hhealthy (hroute.2.2 hy), ?_⟩
          rw [hroute.1]
          exact hsettles
        · simp only [Session.direction, Prod.mk.injEq] at hdir
          exact .query hown (hsent.keep hroute hdir.2.2.2.1) (hdir.1.trans (hcmd.trans hcommand))
      · cases hcached
        exact .query hown hsent (hcmd.trans hcommand)

theorem clientComInitDb_ends (h : Ends (clientComInitDb p env) st () t) :
    DirectionKept st t ∨ Resettled st t ∧ t.sess.mysqlQueryCacheHit = true := by
  have h := ends_get_bind.1 h
  dsimp only at h
  split at h
  · cases h
    exact .inl ⟨⟨rfl, rfl, fun hbad => absurd hbad Bool.false_ne_true⟩, rfl⟩
  · split at h
    · exact absurd h not_ends_throw
    · refine .inr ?_
      obtain ⟨_, u, hrecord, h⟩ := ends_bind.1 h
      have hu : RouteKept st u := (record_keeps routeKept_still trivial).ends hrecord (.refl st)
      split at h
      · obtain ⟨_, v, hflag, hout⟩ := ends_bind.1 h
        cases hflag
        cases hout
        exact ⟨⟨hu.2.1, hu.2.2, .kept hu.1⟩, rfl⟩
      · obtain ⟨_, v, hforget, h⟩ := ends_bind.1 h
        obtain ⟨_, w, hreset, h⟩ := ends_bind.1 h
        obtain ⟨_, x, hflag, h⟩ := ends_bind.1 h
        obtain ⟨_, y, hout, hschema⟩ := ends_bind.1 h
        have hw : DirectionKept v w := (disconnectBackends_direction env.now).ends hreset (.refl v)
        cases hforget
        cases hflag
        cases hout
        cases hschema
        have hdefault : w.sess.defaultHostgroup = -1 := congrArg RouteData.defaultHostgroup hw.1.1
        have hversion : w.sess.defaultHostgroupVersion = st.sess.defaultHostgroupVersion :=
          (congrArg RouteData.defaultHostgroupVersion hw.1.1).trans
            (congrArg RouteData.defaultHostgroupVersion hu.1)
        exact ⟨⟨hw.1.2.1.trans hu.2.1, fun hy => hu.2.2 (hw.1.2.2 hy), .forgotten hdefault hversion⟩, rfl⟩

theorem clientComChangeUser_ends (h : Ends (clientComChangeUser p env) st () t) :
    DirectionKept st t ∨ Resettled st t ∧ t.sess.mysqlQueryCacheHit = true := by
  have h := ends_get_bind.1 h
  dsimp only at h
  split at h
  · cases h
    exact .inl ⟨⟨rfl, rfl, fun hbad => absurd hbad Bool.false_ne_true⟩, rfl⟩
  · refine .inr ?_
    obtain ⟨_, u₁, hflag, h⟩ := ends_bind.1 h
    obtain ⟨_, u₂, hparse, h⟩ := ends_bind.1 h
    obtain ⟨_, u₃, hwait, h⟩ := ends_bind.1 h
    obtain ⟨_, u₄, hout, h⟩ := ends_bind.1 h
    obtain ⟨_, u₅, hforget, h⟩ := ends_bind.1 h
    obtain ⟨_, u₆, hrecord, hreset⟩ := ends_bind.1 h
    have ht : DirectionKept u₆ t := (disconnectBackends_direction env.now).ends hreset (.refl u₆)
    cases hflag
    cases hparse
    cases hwait
    cases hout
    cases hforget
    cases hrecord
    have hdefault : t.sess.defaultHostgroup = -1 := congrArg RouteData.defaultHostgroup ht.1.1
    have hversion : t.sess.defaultHostgroupVersion = st.sess.defaultHostgroupVersion :=
      congrArg RouteData.defaultHostgroupVersion ht.1.1
    exact ⟨⟨ht.1.2.1, ht.1.2.2, .forgotten hdefault hversion⟩, congrArg (fun x => x.2.2.2.2) ht.2⟩

theorem clientComDefault_ends (h : Ends (clientComDefault p env) st () t) :
    RouteKept st t ∧ t.sess.clientCommand = st.sess.clientCommand := by
  refine Keeps.ends (P := fun t => RouteKept st t ∧ t.sess.clientCommand = st.sess.clientCommand) ?_ h
    ⟨.refl st, rfl⟩
  refine Keeps.get.bind fun u => Keeps.bind (Keeps.when fun _ => ?_) fun _ => Keeps.modify fun v hv => ?_
  · refine Keeps.get.bind fun u => .bind (.modify fun v hv => ?_) fun _ => ?_
    · obtain ⟨password, heq⟩ := checkAuthSwitchResponsePacket_frame u.sh v.sess p (p.mem env.beyond)
      dsimp only
      rw [heq]
      exact hv
    · refine .bind (.modify fun _ hv => hv) fun _ => .ite (.modify fun v hv => ?_) ?_
      · exact ⟨⟨hv.1.1, hv.1.2.1, fun hbad => absurd hbad Bool.false_ne_true⟩, hv.2⟩
      · exact .bind (.modify fun _ hv => hv) fun _ => .modify fun _ hv => hv
  · dsimp only
    split
    · exact ⟨⟨hv.1.1, hv.1.2.1, fun hbad => absurd hbad Bool.false_ne_true⟩, hv.2⟩
    · exact hv

theorem dispatchCommand_ends (h : Ends (dispatchCommand p env) st q t) :
    Directed (ownDestination st.sh st.sess st.sess.clientCommand env.fill p) st t := by
  have hplain : st.sess.clientCommand ≠ mysqlComQuery →
      ownDestination st.sh st.sess st.sess.clientCommand env.fill p = .ok (-1) :=
    fun hne => if_neg fun hruled => hne hruled.1
  have h := ends_get_bind.1 h
  dsimp only at h
  split at h
  · next hstat =>
    have hne : st.sess.clientCommand ≠ mysqlComQuery := by
      rw [hstat]
      decide
    obtain ⟨_, u, hcom, hret⟩ := ends_bind.1 h
    cases hret
    cases hcom
    dsimp only
    split
    · exact .plain (hplain hne) ⟨rfl, rfl, fun hbad => absurd hbad Bool.false_ne_true⟩ hne
    · exact .plain (hplain hne) (.refl st) hne
  · split at h
    · next hinit =>
      have hne : st.sess.clientCommand ≠ mysqlComQuery := by
        rw [hinit]
        decide
      obtain ⟨_, u, hcom, hret⟩ := ends_bind.1 h
      cases hret
      obtain ⟨hkept, hdir⟩ | ⟨hsettled, hflag⟩ := clientComInitDb_ends hcom
      · exact .plain (hplain hne) hkept fun hq => hne ((congrArg (fun x => x.1) hdir).symm.trans hq)
      · exact .answered hsettled hflag
    · split at h
      · next hquery =>
        split at h
        · next hadmin => exact clientComQuery_ends hquery hadmin h
        · obtain ⟨_, u, hcom, hret⟩ := ends_bind.1 h
          cases hret
          obtain ⟨_, v, hrecord, hadmin⟩ := ends_bind.1 hcom
          have hv : RouteKept st v := (record_keeps routeKept_still trivial).ends hrecord (.refl st)
          cases hadmin
          refine .answered ⟨hv.2.1, fun hok => hv.2.2 ?_, .kept hv.1⟩ rfl
          exact (Bool.and_eq_true_iff.1 hok).1
      · next hne =>
        split at h
        · obtain ⟨_, u, hcom, hret⟩ := ends_bind.1 h
          cases hret
          obtain ⟨hkept, hdir⟩ | ⟨hsettled, hflag⟩ := clientComChangeUser_ends hcom
          · exact .plain (hplain hne) hkept fun hq => hne ((congrArg (fun x => x.1) hdir).symm.trans hq)
          · exact .answered hsettled hflag
        · obtain ⟨_, u, hcom, hret⟩ := ends_bind.1 h
          cases hret
          obtain ⟨hkept, hcmd⟩ := clientComDefault_ends hcom
          exact .plain (hplain hne) hkept fun hq => hne (hcmd.symm.trans hq)

/-- A packet that is sent on has the destination of the rules, or the default one. -/
theorem routePkt_ends {r : Route} (h : Ends (routePkt env) st r t) :
    Resettled st t ∧ ∀ q, r = .send q → ∃ p pkts own, st.sess.clientMyds.input.pkts = p :: pkts ∧
      ownDestination st.sh st.sess (p.mem env.beyond sizeofMysqlHdr).toNat env.fill p = .ok own ∧
      Sent own st t := by
  obtain ⟨p, u, htake, h⟩ := ends_bind.1 h
  cases hpkts : st.sess.clientMyds.input.pkts with
  | nil =>
    have htake := ends_get_bind.1 htake
    rw [hpkts] at htake
    exact absurd htake not_ends_throw
  | cons p' pkts =>
    obtain ⟨hp, rfl⟩ : Except.ok p = Except.ok p' ∧ u = started env p' pkts st :=
      htake.of_wp ((wp_takeClientPkt hpkts fun r t => r = .ok p' ∧ t = started env p' pkts st).2 ⟨rfl, rfl⟩)
    cases hp
    have h := ends_get_bind.1 h
    split at h
    · cases h
      exact ⟨⟨rfl, id, .kept rfl⟩, fun _ h => by cases h⟩
    · obtain ⟨q, v, hcom, h⟩ := ends_bind.1 h
      have hown : ownDestination (started env p pkts st).sh (started env p pkts st).sess
            (started env p pkts st).sess.clientCommand env.fill p =
          ownDestination st.sh st.sess (p.mem env.beyond sizeofMysqlHdr).toNat env.fill p :=
        @ownDestination_session st.sh (started env p pkts st).sess st.sess rfl rfl rfl _ _ _
      have hv := dispatchCommand_ends hcom
      rw [hown] at hv
      have hsettled := hv.resettled
      have h := ends_get_bind.1 h
      dsimp only at h
      split at h
      · obtain ⟨_, w, herr, hret⟩ := ends_bind.1 h
        obtain ⟨rfl, rfl⟩ := ends_pure.1 hret
        have hw : RouteKept v w := (writeOnePktToNet_keeps routeKept_still _ _).ends herr (.refl v)
        refine ⟨⟨hw.2.1.trans hsettled.tables, fun hok => hsettled.healthy (hw.2.2 hok), ?_⟩,
          fun _ h => by cases h⟩
        rw [hw.1]
        exact hsettled.settles
      · obtain ⟨_, w, hprep, h⟩ := ends_bind.1 h
        cases hprep
        split at h
        · cases h
          exact ⟨⟨hsettled.tables, hsettled.healthy, hsettled.settles⟩, fun _ h => by cases h⟩
        · next hnohit =>
          have h := ends_get_bind.1 h
          obtain ⟨_, x, hdefault, hret⟩ := ends_bind.1 h
          obtain ⟨rfl, rfl⟩ := ends_pure.1 hret
          obtain ⟨own, hown, hsent⟩ : ∃ own, ownDestination st.sh st.sess
              (p.mem env.beyond sizeofMysqlHdr).toNat env.fill p = .ok own ∧ Sent own st x := by
            cases hv with
            | answered _ hflag => exact absurd hflag hnohit
            | plain hown hkept hne =>
              rw [when, if_pos hne] at hdefault
              obtain rfl := setDefaultDestination_ends hdefault
              exact ⟨-1, hown, RouteKept.sent hkept⟩
            | query hown hsent heq =>
              rw [when, if_neg fun hne => hne heq] at hdefault
              cases hdefault
              exact ⟨_, hown, hsent.tables, hsent.healthy, hsent.routeData, hsent.destination⟩
          exact ⟨hsent.resettled, fun _ _ => ⟨p, pkts, own, rfl, hown, hsent⟩⟩

/-! ## Steps -/

/-- From `st` to `t` neither the tables have changed nor the default hostgroup. -/
def DefaultKept (st t : St) : Prop :=
  t.sess.defaultHostgroup = st.sess.defaultHostgroup ∧
    t.sess.defaultHostgroupVersion = st.sess.defaultHostgroupVersion ∧ t.sh.tables = st.sh.tables ∧
    (t.sess.healthy = true → st.sess.healthy = true)

theorem defaultKept_authStable {st₀ : St} : AuthStable (DefaultKept st₀) where
  client _ _ _ h := h
  user _ _ _ _ _ h := h
  record _ _ h := h

theorem serverComInitDb_default {st₀ : St} (p : Pkt) (r : MysqlResponseType) :
    Keeps (DefaultKept st₀) (serverComInitDb p r) := by
  have hunwired : UnwiredBy (fun sh sh' => sh'.tables = sh.tables) (DefaultKept st₀) :=
    fun _ _ _ htables h => ⟨h.1, h.2.1, htables.trans h.2.2.1, h.2.2.2⟩
  refine (hunwired.forgetConnpool wireChanges_tables).bind fun _ => ?_
  refine .bind (.when fun _ => .modify fun _ h => h) fun _ => ?_
  refine .bind (.when fun _ => .modify fun _ h => h) fun _ => ?_
  refine .bind (.modify fun _ h => h) fun _ => .modify fun st h => ?_
  dsimp only
  split
  · exact h
  · exact h

/-- The steps that change the user or the schema and leave the default hostgroup as it is: the
    authentication, and the OK packet of a server after COM_INIT_DB. -/
def SessEvent.Renames (s : Session) : SessEvent → Prop
  | .authenticate _ _ => True
  | .answer _ r _ => r = .okPacket ∧ s.clientCommand = mysqlComInitDb
  | _ => False

instance (s : Session) (e : SessEvent) : Decidable (e.Renames s) := by
  induction e using SessEvent.casesOn <;> (unfold SessEvent.Renames; infer_instance)

/-- What a step may do to the data that routes commands, unless it ends the session. -/
structure StepRouting (st : St) (e : SessEvent) (t : St) : Prop where
  tables : t.sh.tables = st.sh.tables
  healthy : t.sess.healthy = true → st.sess.healthy = true
  settles : t.sess.healthy = true → st.sess.routeData.Settles st.sh.gloDefHG t.sess.routeData ∨
    e.Renames st.sess ∧ DefaultKept st t

variable {e : SessEvent}

theorem Resettled.step (h : Resettled st t) : StepRouting st e t :=
  ⟨h.tables, h.healthy, fun _ => .inl h.settles⟩

theorem DefaultKept.step (h : DefaultKept st t) (he : e.Renames st.sess) :
    StepRouting st e t := ⟨h.2.2.1, h.2.2.2, fun _ => .inr ⟨he, h⟩⟩

theorem sessClose_ends {now : Nat → Nat} (h : Ends (sessClose now) st () t) :
    t.sh.tables = st.sh.tables ∧ t.sess.healthy = false := by
  have hunwired : UnwiredBy (fun sh sh' => sh'.tables = sh.tables) fun t => t.sh.tables = st.sh.tables :=
    fun _ _ _ htables h => htables.trans h
  obtain ⟨_, u, hclear, h⟩ := ends_bind.1 h
  cases hclear
  obtain ⟨_, v, hreset, h⟩ := ends_bind.1 (ends_get_bind.1 h)
  have hv : v.sh.tables = st.sh.tables :=
    Keeps.ends (P := fun t : St => t.sh.tables = st.sh.tables)
      (forHostgroups_keeps fun i => hunwired.bereset wireChanges_tables i _ now) hreset rfl
  obtain ⟨_, w, hdrop, hinit⟩ := ends_bind.1 h
  cases hdrop
  have hinit := ends_get_bind.1 hinit
  dsimp only at hinit
  split at hinit
  · exact absurd hinit not_ends_throw
  · cases hinit
    exact ⟨hv, rfl⟩

/-- The code of a step, where all of it leaves the data that routes commands alone. -/
theorem stepRouting_of_keeps (hkeeps : Keeps (RouteKept st) e.prog) (h : Ends e.prog st () t) :
    StepRouting st e t := (hkeeps.ends h (.refl st)).resettled.step

theorem sessStep_routing (h : SessStep st e t) : StepRouting st e t := by
  obtain ⟨-, h⟩ := h
  have hnet := @routeKept_netStable st
  cases e with
  | checkFdsErrors net => exact stepRouting_of_keeps (checkFdsErrors_keeps hnet net) h
  | readFromNet net => exact stepRouting_of_keeps (readFromNet2_keeps hnet net) h
  | writeToNet client server sendClient sendServer =>
      exact stepRouting_of_keeps (writeToNet2_keeps hnet _ _ _ _) h
  | buffer2array fill => exact stepRouting_of_keeps (buffer2array2_keeps hnet fill) h
  | authenticate beyond slack =>
    have hkept : DefaultKept st t :=
      (processAuthenticationPkt_keeps defaultKept_authStable beyond slack).ends h ⟨rfl, rfl, rfl, id⟩
    exact hkept.step trivial
  | dispatch env =>
    obtain ⟨d, u, hd, hret⟩ := ends_bind.1 h
    cases hret
    rw [dispatchPkt_eq] at hd
    obtain ⟨r, v, hroute, hrest⟩ := ends_bind.1 hd
    have hv := (routePkt_ends hroute).1
    cases r with
    | done flow =>
      cases hrest
      exact hv.step
    | send q =>
      -- the checks only read
      have hcheck : Keeps (fun w => w = v) (do
          let hg ← checkDestination
          return Dispatch.forward hg q : SessM Dispatch) := by
        refine .bind (Keeps.get.bind fun w => ?_) fun _ => .pure _
        exact .ite (.throw _) (.ite (.throw _) (.ite (.throw _) (.pure _)))
      obtain rfl := hcheck.ends hrest rfl
      exact hv.step
  | forward hg p env => exact stepRouting_of_keeps ((forwardTo_route hg p env).bind fun _ => .pure _) h
  | takeServerPkt env => exact stepRouting_of_keeps ((takeServerPkt_keeps hnet env).bind fun _ => .pure _) h
  | answer p r env =>
    by_cases hrenames : r = .okPacket ∧ st.sess.clientCommand = mysqlComInitDb
    · obtain ⟨rfl, hcmd⟩ := hrenames
      have hanswer : Ends (serverComInitDb p .okPacket) st () t := by
        have h := ends_get_bind.1 h
        rw [hcmd] at h
        exact h
      have hkept : DefaultKept st t :=
        (serverComInitDb_default p .okPacket).ends hanswer ⟨rfl, rfl, rfl, id⟩
      exact hkept.step ⟨rfl, hcmd⟩
    · exact (h.of_wp (answerPkt_route fun hcmd hok => hrenames ⟨hok, hcmd⟩)).resettled.step
  | array2buffer => exact stepRouting_of_keeps (array2buffer2_keeps hnet) h
  | close now =>
    obtain ⟨htables, hsick⟩ := sessClose_ends h
    have hbad : t.sess.healthy ≠ true := by
      rw [hsick]
      exact Bool.false_ne_true
    exact ⟨htables, fun hok => absurd hok hbad, fun hok => absurd hok hbad⟩
  | preparePoll => exact stepRouting_of_keeps (preparePoll_keeps routeKept_still) h
  | removeOfflineSoft now =>
    have hremove : Keeps (RouteKept st) (removeAllBackendsOfflineSoft now) :=
      removeAllBackendsOfflineSoft_keeps fun i =>
      .of_keeps (routeKept_unwired.bereset wireChanges_tables i false now)
    exact stepRouting_of_keeps (hremove.bind fun _ => .pure _) h
  | forceClose => exact stepRouting_of_keeps (.modify fun _ hst => hst) h

end ProxySQL
