/-
  ProxySQL.Session.QueueBack

  Queries that are put back.

  If the hostgroup of a query has no server, `queue_back_client_pkt` puts the
  packet in front of the queue again, as the rules have left it.  The next call
  of `process_client_pkts` takes it like any other packet, and asks the rules
  about what they have made of it.

  The rounds of the loop are repeated here with a log of the hits of the rules
  (`dispatchPktLogged`).  `dispatchPktLogged_forward` says what a round does to a
  query, and `queuedBack_once_iff` when any number of rounds is as good as one.
-/
import ProxySQL.Lib.Logged
import ProxySQL.Session.Forwarding
import ProxySQL.Session.Rewriting

namespace ProxySQL

open Lib List Option

/-! ## One pass of the rules -/

/-- The rule whose `hits` grow. -/
def RuleAction.hitRule : RuleAction → Option Nat
  | .hit i => some i
  | .rewritten _ _ => none

/-- The packet that the rules leave, and the rules that match. -/
def rulesPass (s : Session) (fill : Nat → Byte) (i : Nat) (rules : List QueryRule) (st : RuleState) :
    Except Fault Pkt × List Nat :=
  let r := runRulesLogged s fill i rules st
  (r.1.map RuleState.p, r.2.filterMap RuleAction.hitRule)

variable {q : Pkt} {P : Pkt → Prop} {st t : St} {sh : Shared} {s : Session} {log : List Nat}

section Pass

variable {s s' : Session} {fill fill' : Nat → Byte} {rules : List QueryRule} {qr : QueryRule}
  {st a b : RuleState} {i : Nat}

theorem QueryRule.rewrites_hits : (qr.rewrites fill st).filterMap RuleAction.hitRule = [] := by
  unfold QueryRule.rewrites
  split
  · rfl
  · split
    · rfl
    · rfl

theorem rulesPass_error {e : Fault} (h : qr.applies s st = .error e) :
    rulesPass s fill i (qr :: rules) st = (.error e, []) := by
  unfold rulesPass
  rw [runRulesLogged, h]
  rfl

theorem rulesPass_skip (h : qr.applies s st = .ok false) :
    rulesPass s fill i (qr :: rules) st = rulesPass s fill (i + 1) rules st := by
  unfold rulesPass
  rw [runRulesLogged, h]

/-- What follows the hit of a rule. -/
def afterHit (s : Session) (fill : Nat → Byte) (i : Nat) (qr : QueryRule) (rules : List QueryRule)
    (st : RuleState) : Except Fault Pkt × List Nat :=
  match qr.rewrite fill st with
  | none => rulesPass s fill (i + 1) rules st
  | some st =>
      let st := qr.set st
      if st.info.cacheTtl ≠ 0 then (.ok st.p, []) else rulesPass s fill (i + 1) rules st

theorem rulesPass_hit (h : qr.applies s st = .ok true) : rulesPass s fill i (qr :: rules) st =
    ((afterHit s fill i qr rules st).1, i :: (afterHit s fill i qr rules st).2) := by
  unfold rulesPass afterHit
  rw [runRulesLogged, h]
  dsimp only
  have hhit : RuleAction.hitRule (.hit i) = some i := rfl
  rw [filterMap_cons_some hhit, filterMap_append, QueryRule.rewrites_hits, nil_append]
  cases qr.rewrite fill st with
  | none => rfl
  | some st' =>
    dsimp only
    split
    · rfl
    · rfl

theorem mysqlNewPayloadSelect_fill (fill fill' : Nat → Byte) (text : Str) :
    mysqlNewPayloadSelect fill text = mysqlNewPayloadSelect fill' text := by
  have hdata : (mysqlNewPayloadSelect fill text).data = (mysqlNewPayloadSelect fill' text).data := by
    rw [mysqlNewPayloadSelect_data fill rfl, mysqlNewPayloadSelect_data fill' rfl]
  exact congrArg (Pkt.mk (mysqlNewPayloadSelect fill text).length) hdata

theorem QueryRule.rewrite_pass (h : a.Agree b) (hp : a.p = b.p) :
    (qr.rewrite fill a = none ∧ qr.rewrite fill' b = none) ∨
      ∃ a' b', qr.rewrite fill a = some a' ∧ qr.rewrite fill' b = some b' ∧ a'.Agree b' ∧ a'.p = b'.p := by
  unfold QueryRule.rewrite
  cases qr.replace with
  | none => exact .inr ⟨a, b, rfl, rfl, h, hp⟩
  | some f =>
    dsimp only
    rw [h.query]
    cases f b.info.query with
    | none => exact .inl ⟨rfl, rfl⟩
    | some q =>
      have hbuilt := mysqlNewPayloadSelect_fill fill fill' q
      refine .inr ⟨_, _, rfl, rfl, ⟨h.flagIN, ?_, h.cacheTtl, h.destination⟩, hbuilt⟩
      exact congrArg queryOf hbuilt

theorem rulesPass_congr (huser : s.mysqlUsername = s'.mysqlUsername)
    (hschema : s.mysqlSchemaCur = s'.mysqlSchemaCur) (h : a.Agree b) (hp : a.p = b.p) :
    rulesPass s fill i rules a = rulesPass s' fill' i rules b := by
  induction rules generalizing i a b with
  | nil =>
    show (Except.ok a.p, []) = (Except.ok b.p, [])
    rw [hp]
  | cons qr rules ih =>
    have happlies : qr.applies s a = qr.applies s' b := by
      unfold QueryRule.applies
      rw [huser, hschema, h.flagIN, h.query]
    cases hb : qr.applies s' b with
    | error e => rw [rulesPass_error (happlies.trans hb), rulesPass_error hb]
    | ok applies =>
      cases applies with
      | false =>
        rw [rulesPass_skip (happlies.trans hb), rulesPass_skip hb]
        exact ih h hp
      | true =>
        rw [rulesPass_hit (happlies.trans hb), rulesPass_hit hb]
        have hrest : afterHit s fill i qr rules a = afterHit s' fill' i qr rules b := by
          unfold afterHit
          obtain ⟨ha, hb⟩ | ⟨a', b', ha, hb, hagree, hp⟩ := @QueryRule.rewrite_pass fill fill' qr a b h hp
          · rw [ha, hb]
            exact ih h hp
          · rw [ha, hb]
            have hset := @QueryRule.set_agree qr a' b' hagree
            have hp : (qr.set a').p = (qr.set b').p := hp
            dsimp only
            rw [hset.cacheTtl, hp, ih hset hp]
        rw [hrest]

/-- The state behind a rule that matches. -/
def QueryRule.Leaves (qr : QueryRule) (fill : Nat → Byte) (st st' : RuleState) : Prop :=
  qr.rewrite fill st = none ∧ st' = st ∨ ∃ built, qr.rewrite fill st = some built ∧ st' = qr.set built

/-- What holds of every end of the loop and is kept by every rule holds of a pass. -/
theorem rulesPass_induction {M : Nat → RuleState → Except Fault Pkt × List Nat → Prop}
    (hend : ∀ i (st : RuleState), M i st (.ok st.p, [])) (herror : ∀ i st e, M i st (.error e, []))
    (hskip : ∀ i st r, M (i + 1) st r → M i st r)
    (hhit : ∀ i (qr : QueryRule) st st' r, qr.Leaves fill st st' → r = (.ok st'.p, []) ∨ M (i + 1) st' r →
      M i st (r.1, i :: r.2)) : M i st (rulesPass s fill i rules st) := by
  induction rules generalizing i st with
  | nil => exact hend i st
  | cons qr rules ih =>
    cases happlies : qr.applies s st with
    | error e =>
      rw [rulesPass_error happlies]
      exact herror i st e
    | ok applies =>
      cases applies with
      | false =>
        rw [rulesPass_skip happlies]
        exact hskip i st _ ih
      | true =>
        rw [rulesPass_hit happlies]
        unfold afterHit
        cases hrewrite : qr.rewrite fill st with
        | none => exact hhit i qr st st _ (.inl ⟨hrewrite, rfl⟩) (.inr ih)
        | some built =>
          have hleaves : qr.Leaves fill st (qr.set built) := .inr ⟨built, hrewrite, rfl⟩
          dsimp only
          split
          · exact hhit i qr st _ (.ok (qr.set built).p, []) hleaves (.inl rfl)
          · exact hhit i qr st _ _ hleaves (.inr ih)

theorem rulesPass_unmatched (h : rulesPass s fill i rules st = (.ok q, [])) : q = st.p := by
  refine @rulesPass_induction s fill rules st i (fun _ st r => r = (.ok q, []) → q = st.p) ?_ ?_ ?_ ?_ h
  · exact fun _ _ h => (Except.ok.inj (Prod.mk.inj h).1).symm
  · exact fun _ _ _ h => nomatch (Prod.mk.inj h).1
  · exact fun _ _ _ ih => ih
  · exact fun _ _ _ _ _ _ _ h => nomatch (Prod.mk.inj h).2

theorem QueryRule.Leaves.pkt (hbuilt : ∀ text, P (mysqlNewPayloadSelect fill text)) {st' : RuleState}
    (h : qr.Leaves fill st st') (hst : P st.p) : P st'.p := by
  obtain ⟨-, rfl⟩ | ⟨built, hrewrite, rfl⟩ := h
  · exact hst
  · unfold QueryRule.rewrite at hrewrite
    split at hrewrite
    · exact some.inj hrewrite ▸ hst
    · split at hrewrite
      · cases hrewrite
      · cases hrewrite
        exact hbuilt _

theorem rulesPass_pkt (hbuilt : ∀ text, P (mysqlNewPayloadSelect fill text)) (hst : P st.p)
    (h : (rulesPass s fill i rules st).1 = .ok q) : P q := by
  refine @rulesPass_induction s fill rules st i (fun _ st r => P st.p → r.1 = .ok q → P q) ?_ ?_ ?_ ?_ hst h
  · exact fun _ _ hst h => Except.ok.inj h ▸ hst
  · exact fun _ _ _ _ h => nomatch h
  · exact fun _ _ _ ih => ih
  · intro i qr st st' r hleaves hr hst h
    have hst' : P st'.p := hleaves.pkt hbuilt hst
    rcases hr with rfl | ih
    · exact Except.ok.inj h ▸ hst'
    · exact ih hst' h

theorem rulesPass_nodup : (rulesPass s fill i rules st).2.Nodup := by
  -- the rules behind a rule have larger indices
  refine (@rulesPass_induction s fill rules st i (fun i _ r => (∀ j ∈ r.2, i ≤ j) ∧
    r.2.Nodup) ?_ ?_ ?_ ?_).2
  · exact fun _ _ => ⟨fun _ hj => (nomatch hj), nodup_nil⟩
  · exact fun _ _ _ => ⟨fun _ hj => (nomatch hj), nodup_nil⟩
  · exact fun _ _ _ ih => ⟨fun j hj => Nat.le_of_succ_le (ih.1 j hj), ih.2⟩
  · intro i qr st st' r _ hr
    have hlarger : ∀ j ∈ r.2, i < j := by
      rcases hr with rfl | ih
      · exact fun _ hj => nomatch hj
      · exact ih.1
    have hnodup : r.2.Nodup := by
      rcases hr with rfl | ih
      · exact nodup_nil
      · exact ih.2
    refine ⟨forall_mem_cons.2 ⟨Nat.le_refl i, fun j hj => (hlarger j hj).le⟩, nodup_cons.2 ⟨?_, hnodup⟩⟩
    exact fun hi => Nat.lt_irrefl i (hlarger i hi)

end Pass

/-! ## A packet and the rules -/

/-- What the rules make of a packet that is a query, and the rules that match. -/
def onePass (sh : Shared) (s : Session) (p : Pkt) : Except Fault Pkt × List Nat :=
  if p.length - sizeofMysqlHdr > sh.glovars.mysqlMaxQuerySize then (.ok p, [])
  else rulesPass s (fun _ => 0) 0 sh.queryRules (askingRules p)

/-- The byte of the command says COM_QUERY. -/
def Pkt.IsQuery (p : Pkt) : Prop := p.data[sizeofMysqlHdr]? = some (BitVec.ofNat 8 mysqlComQuery)

/-- Everything but the packets that decides what becomes of a query. -/
structure Alike (st t : St) : Prop where
  rules : t.sh.queryRules = st.sh.queryRules
  limit : t.sh.glovars.mysqlMaxQuerySize = st.sh.glovars.mysqlMaxQuerySize
  username : t.sess.mysqlUsername = st.sess.mysqlUsername
  schema : t.sess.mysqlSchemaCur = st.sess.mysqlSchemaCur
  admin : t.sess.admin = st.sess.admin

theorem Alike.trans {u : St} (h : Alike st t) (h' : Alike t u) : Alike st u :=
  ⟨h'.rules.trans h.rules, h'.limit.trans h.limit, h'.username.trans h.username, h'.schema.trans h.schema,
    h'.admin.trans h.admin⟩

theorem Alike.onePass (h : Alike st t) (p : Pkt) : onePass t.sh t.sess p = onePass st.sh st.sess p := by
  unfold ProxySQL.onePass
  rw [h.limit, h.rules, rulesPass_congr h.username h.schema ⟨rfl, rfl, rfl, rfl⟩ rfl]

theorem isQuery_built (fill : Nat → Byte) (text : Str) : (mysqlNewPayloadSelect fill text).IsQuery := by
  unfold Pkt.IsQuery
  rfl

theorem onePass_isQuery {p : Pkt} (hp : p.IsQuery) (h : (onePass sh s p).1 = .ok q) :
    q.IsQuery := by
  unfold onePass at h
  split at h
  · exact Except.ok.inj h ▸ hp
  · exact rulesPass_pkt (isQuery_built _) hp h

theorem onePass_unmatched {p : Pkt} (h : onePass sh s p = (.ok q, [])) : q = p := by
  unfold onePass at h
  split at h
  · exact (Except.ok.inj (Prod.mk.inj h).1).symm
  · exact rulesPass_unmatched h

theorem onePass_nodup (sh : Shared) (s : Session) (p : Pkt) : (onePass sh s p).2.Nodup := by
  unfold onePass
  split
  · exact nodup_nil
  · exact rulesPass_nodup

/-! ## The rounds of the loop, with the hits -/

/-- The code of a session with a log of the rules that are hit. -/
abbrev HitM := Prog Fault (St × List Nat)

def processQueryRulesLogged (p : Pkt) (fill : Nat → Byte) : HitM Pkt := do
  let st ← logged get
  let r := runRulesLogged st.sess fill 0 st.sh.queryRules { flagIN := 0, info := st.sess.queryInfo, p := p }
  notes (r.2.filterMap RuleAction.hitRule)
  let r ← logged (liftM r.1)
  logged (modifySess fun s => { s with queryInfo :=
    { r.info with cacheTtl := finalTtl st.sh.glovars r.info.cacheTtl } })
  logged (when (r.info.destinationHostgroup = -1) setDefaultDestination)
  return r.p

def clientComQueryLogged (p : Pkt) (fill : Nat → Byte) : HitM Pkt := do
  let g := (← logged get).sh.glovars
  if p.length - sizeofMysqlHdr > g.mysqlMaxQuerySize then
    logged (modifySess fun s => { s with clientCommand := mysqlComEnd })
    return p
  else
    logged (initQueryMetadata (some p))
    logged (modifySess fun s => { s with resultsetProgress := .waiting, resultsetSize := 0 })
    let hit ← logged (if g.mysqlQueryCacheEnabled && g.mysqlQueryCachePrecheck then
        getResultFromMysqlQueryCache else pure false)
    if hit then return p
    else
      let p ← processQueryRulesLogged p fill
      let s := (← logged get).sess
      logged (when (s.clientCommand = mysqlComQuery ∧ s.queryInfo.cacheTtl > 0) do
        modifySess fun s => { s with queryToCache := true }
        let _ ← getResultFromMysqlQueryCache)
      return p

def dispatchCommandLogged (p : Pkt) (env : PktEnv) : HitM Pkt := do
  let s := (← logged get).sess
  if s.clientCommand = mysqlComQuery ∧ s.admin = 0 then clientComQueryLogged p env.fill
  else logged (dispatchCommand p env)

def dispatchPktLogged (env : PktEnv) : HitM Dispatch := do
  let p ← logged (takeClientPkt env)
  if (← logged get).sess.clientCommand = mysqlComQuit then return .done .quit
  else
    let p ← dispatchCommandLogged p env
    logged (afterCommand .done env (addressed p))

theorem processQueryRulesLogged_erases (p : Pkt) (fill : Nat → Byte) :
    Erases (processQueryRulesLogged p fill) (processQueryRules p fill) := by
  refine (Erases.logged get).bind fun st => Erases.notes_bind _ ?_
  rw [← runRulesLogged_erases 0]
  refine (Erases.logged _).bind fun r => (Erases.logged _).bind fun _ => (Erases.logged _).bind fun _ => ?_
  exact fun _ => rfl

theorem clientComQueryLogged_erases (p : Pkt) (fill : Nat → Byte) :
    Erases (clientComQueryLogged p fill) (clientComQuery p fill) := by
  refine (Erases.logged get).bind fun st => Erases.ite ?_ ?_
  · exact (Erases.logged _).bind fun _ _ => rfl
  · refine (Erases.logged _).bind fun _ => (Erases.logged _).bind fun _ =>
      (Erases.logged _).bind fun hit => ?_
    refine Erases.ite (fun _ => rfl) ?_
    refine (processQueryRulesLogged_erases p fill).bind fun p => (Erases.logged get).bind fun st => ?_
    exact (Erases.logged _).bind fun _ _ => rfl

theorem dispatchCommandLogged_erases (p : Pkt) (env : PktEnv) :
    Erases (dispatchCommandLogged p env) (dispatchCommand p env) := by
  intro s
  unfold dispatchCommandLogged
  by_cases hquery : s.1.sess.clientCommand = mysqlComQuery ∧ s.1.sess.admin = 0
  · have hcode : outcome (dispatchCommand p env) s.1 = outcome (clientComQuery p env.fill) s.1 := by
      unfold dispatchCommand
      rw [outcome_bind, outcome_get]
      simp [hquery.1, hquery.2, mysqlComQuery, mysqlComStatistics, mysqlComInitDb]
    rw [outcome_bind, outcome_logged, outcome_get]
    dsimp only
    rw [if_pos hquery, hcode]
    exact clientComQueryLogged_erases p env.fill s
  · rw [outcome_bind, outcome_logged, outcome_get]
    dsimp only
    rw [if_neg hquery]
    rfl

/-- The logged rounds are the rounds. -/
theorem dispatchPktLogged_erases (env : PktEnv) : Erases (dispatchPktLogged env) (dispatchPkt env) := by
  refine (Erases.logged _).bind fun p => (Erases.logged get).bind fun st => Erases.ite (fun _ => rfl) ?_
  exact (dispatchCommandLogged_erases p env).bind fun p => Erases.logged _

/-! ## What a round keeps -/

/-- The packets that wait, and what decides about a query. -/
def St.plan (st : St) : List Pkt × Option Str × Option Str × Nat × Glovars × DefHG × List QueryRule :=
  (st.sess.clientMyds.input.pkts, st.sess.mysqlUsername, st.sess.mysqlSchemaCur, st.sess.admin,
    st.sh.tables)

def PlanKept (st t : St) : Prop := t.plan = st.plan

theorem PlanKept.refl (st : St) : PlanKept st st := rfl

theorem PlanKept.trans {u : St} (h : PlanKept st t) (h' : PlanKept t u) : PlanKept st u := Eq.trans h' h

theorem PlanKept.queue (h : PlanKept st t) :
    t.sess.clientMyds.input.pkts = st.sess.clientMyds.input.pkts := congrArg (fun x => x.1) h

theorem PlanKept.alike (h : PlanKept st t) : Alike st t where
  rules := congrArg (fun x => x.2.2.2.2.2.2) h
  limit := congrArg (fun x => x.2.2.2.2.1.mysqlMaxQuerySize) h
  username := congrArg (fun x => x.2.1) h
  schema := congrArg (fun x => x.2.2.1) h
  admin := congrArg (fun x => x.2.2.2.1) h

section Plan

variable {st₀ : St}

theorem planKept_unwired : UnwiredBy (fun sh sh' => sh'.tables = sh.tables) (PlanKept st₀) := by
  intro st sh mybes htables h
  refine Eq.trans ?_ h
  show (_, _, _, _, sh.tables) = _
  rw [htables]
  rfl

theorem planKept_still : StillStable (fun _ => True) (PlanKept st₀) where
  sess {st s'} h hs := by
    refine Eq.trans ?_ h
    rw [St.plan, St.plan, hs.input, hs.mysqlUsername, hs.mysqlSchemaCur, hs.admin]
  record h _ := h

theorem getResultFromMysqlQueryCache_plan : Keeps (PlanKept st₀) getResultFromMysqlQueryCache := by
  refine (computeQueryChecksum_keeps fun _ _ h => h).bind fun fed => Keeps.get.bind fun st => ?_
  dsimp only
  split
  · exact .pure _
  · refine .bind (.modify fun _ h => h) fun _ => .bind (.modify fun _ h => h) fun _ => ?_
    refine .bind (.modify fun _ h => h) fun _ => .bind (.when fun _ => ?_) fun _ => .pure _
    exact queryStatisticsSet_keeps planKept_still

theorem initQueryMetadata_plan (p : Option Pkt) : Keeps (PlanKept st₀) (initQueryMetadata p) :=
  Keeps.get.bind fun _ => .ite (.throw _) (.modify fun _ h => h)

theorem setDefaultDestination_plan : Keeps (PlanKept st₀) setDefaultDestination := by
  refine Keeps.get.bind fun st => .bind (.ite ?_ (.pure _)) fun _ => .modify fun _ h => h
  exact Keeps.get.bind fun _ => .bind (.modify fun _ h => h) fun _ => .pure _

theorem afterCommand_plan (p : Pkt) (env : PktEnv) :
    Keeps (PlanKept st₀) (afterCommand .done env (addressed p)) := by
  refine Keeps.get.bind fun st => .ite ((writeOnePktToNet_keeps planKept_still _ _).bind fun _ =>
    .pure _) ?_
  refine .bind (.modify fun _ h => h) fun _ => .ite (.pure _) ?_
  refine .bind ?_ fun _ => .pure _
  refine Keeps.get.bind fun st => .bind (.when fun _ => setDefaultDestination_plan) fun _ => ?_
  refine Keeps.get.bind fun st => .ite (.throw _) (.ite (.throw _) (.ite (.throw _) ?_))
  exact .pure _

end Plan

/-! ## What a round does to a query -/

section Round

variable {st u t : St} {p q : Pkt} {fill : Nat → Byte} {env : PktEnv} {hg : Nat}

theorem processQueryRulesLogged_ends
    (h : Ends (processQueryRulesLogged p fill) (u, []) q (t, log)) : PlanKept u t ∧
      rulesPass u.sess fill 0 u.sh.queryRules { flagIN := 0, info := u.sess.queryInfo, p := p } =
      (.ok q, log) := by
  have h := ends_logged_get_bind.1 h
  obtain ⟨r, v, hrules, h⟩ := ends_logged_bind.1 h
  obtain ⟨hr, rfl⟩ := Prod.mk.inj hrules
  obtain ⟨_, w, hset, h⟩ := ends_logged_bind.1 h
  obtain ⟨_, x, hdefault, h⟩ := ends_logged_bind.1 h
  obtain ⟨rfl, hend⟩ := ends_pure.1 h
  cases hend
  have hw : PlanKept u w := (.modify fun _ h => h : Keeps (PlanKept u) _).ends hset (.refl u)
  refine ⟨(.when fun _ => setDefaultDestination_plan : Keeps (PlanKept u) _).ends hdefault hw, ?_⟩
  exact Prod.ext (congrArg (Except.map RuleState.p) hr) rfl

/-- A query that is not answered from the cache leaves with what one pass of the rules makes of it. -/
theorem clientComQueryLogged_ends (h : Ends (clientComQueryLogged p fill) (st, []) q (t, log)) :
    PlanKept st t ∧ (t.sess.mysqlQueryCacheHit = false → onePass st.sh st.sess p = (.ok q, log)) := by
  have h := ends_logged_get_bind.1 h
  dsimp only at h
  unfold onePass
  split at h
  · next hlong =>
    obtain ⟨_, u, hset, h⟩ := ends_logged_bind.1 h
    obtain ⟨rfl, hend⟩ := ends_pure.1 h
    obtain ⟨rfl, rfl⟩ := Prod.mk.inj hend
    have hu : PlanKept st u := (.modify fun _ h => h : Keeps (PlanKept st) _).ends hset (.refl st)
    exact ⟨hu, fun _ => if_pos hlong⟩
  · next hshort =>
    obtain ⟨_, u, hinit, h⟩ := ends_logged_bind.1 h
    obtain ⟨_, v, hset, h⟩ := ends_logged_bind.1 h
    obtain ⟨hit, w, hprecheck, h⟩ := ends_logged_bind.1 h
    have hv : PlanKept st v := by
      have hu : PlanKept st u := (initQueryMetadata_plan _).ends hinit (.refl st)
      exact (.modify fun _ h => h : Keeps (PlanKept st) _).ends hset hu
    have hw : PlanKept st w :=
      (.ite getResultFromMysqlQueryCache_plan (.pure _) : Keeps (PlanKept st) _).ends hprecheck hv
    have hfresh : Fresh p st v := by
      cases hset
      have hu := initQueryMetadata_ends hinit
      exact ⟨hu.kept, hu.command, hu.query, hu.cacheTtl, hu.destination⟩
    -- without an answer from the cache, the query is still as it came
    have hmiss : (hit = true ∧ w.sess.mysqlQueryCacheHit = true) ∨ (hit = false ∧ Fresh p st w) := by
      split at hprecheck
      · obtain ⟨rfl, -, hflag⟩ | ⟨rfl, hkept⟩ := getResultFromMysqlQueryCache_ends hprecheck
        · exact .inl ⟨rfl, hflag⟩
        · exact .inr ⟨rfl, hfresh.of_direction hkept⟩
      · cases hprecheck
        exact .inr ⟨rfl, hfresh⟩
    obtain ⟨rfl, hflag⟩ | ⟨rfl, hfresh⟩ := hmiss
    · obtain ⟨rfl, hend⟩ := ends_pure.1 h
      cases hend
      refine ⟨hw, fun hno => ?_⟩
      rw [hflag] at hno
      cases hno
    · obtain ⟨q', ⟨x, hits⟩, hrules, h⟩ := ends_bind.1 h
      obtain ⟨hx, hpass⟩ := processQueryRulesLogged_ends hrules
      have h := ends_logged_get_bind.1 h
      obtain ⟨_, y, hlook, h⟩ := ends_logged_bind.1 h
      obtain ⟨rfl, hend⟩ := ends_pure.1 h
      obtain ⟨rfl, rfl⟩ := Prod.mk.inj hend
      have hy : PlanKept st y := by
        refine (.when fun _ => ?_ : Keeps (PlanKept st) _).ends hlook (hw.trans hx)
        exact .bind (.modify fun _ h => h) fun _ => getResultFromMysqlQueryCache_plan.bind fun _ => .pure _
      refine ⟨hy, fun _ => ?_⟩
      have halike := hw.alike
      rw [if_neg hshort, ← hpass, halike.rules]
      exact rulesPass_congr halike.username.symm halike.schema.symm
        ⟨rfl, hfresh.query.symm, hfresh.cacheTtl.symm, hfresh.destination.symm⟩ rfl

theorem afterCommand_forward (h : Ends (afterCommand .done env (addressed p)) st (.forward hg q) t) :
    q = p ∧ st.sess.mysqlQueryCacheHit = false := by
  have h := ends_get_bind.1 h
  dsimp only at h
  split at h
  · obtain ⟨_, u, -, h⟩ := ends_bind.1 h
    cases (ends_pure.1 h).1
  · obtain ⟨_, u, hset, h⟩ := ends_bind.1 h
    split at h
    · cases (ends_pure.1 h).1
    · next hmiss =>
      obtain ⟨_, v, -, h⟩ := ends_bind.1 h
      obtain ⟨-, rfl⟩ := Dispatch.forward.inj (ends_pure.1 h).1
      exact ⟨rfl, Bool.eq_false_iff.2 hmiss⟩

/-- A query that is sent on, or put back, is what one pass of the rules makes of it. -/
theorem dispatchPktLogged_forward {pkts : List Pkt}
    (hpkts : st.sess.clientMyds.input.pkts = p :: pkts) (hp : p.IsQuery) (hadmin : st.sess.admin = 0)
    (h : Ends (dispatchPktLogged env) (st, []) (.forward hg q) (t, log)) :
    onePass st.sh st.sess p = (.ok q, log) ∧ Alike st t ∧ t.sess.clientMyds.input.pkts = pkts := by
  obtain ⟨p', u, htake, h⟩ := ends_logged_bind.1 h
  obtain ⟨hp', rfl⟩ := htake.of_wp
    ((wp_takeClientPkt hpkts fun r u => r = .ok p ∧ u = started env p pkts st).2 ⟨rfl, rfl⟩)
  obtain rfl := Except.ok.inj hp'
  have hcommand : (started env p' pkts st).sess.clientCommand = mysqlComQuery := by
    show (p'.mem env.beyond sizeofMysqlHdr).toNat = mysqlComQuery
    rw [Pkt.mem, getD_eq_getElem?_getD, hp]
    rfl
  have h := ends_logged_get_bind.1 h
  rw [hcommand, if_neg (by decide)] at h
  obtain ⟨q', ⟨v, hits⟩, hdispatch, h⟩ := ends_bind.1 h
  have hdispatch := ends_logged_get_bind.1 hdispatch
  rw [if_pos ⟨hcommand, hadmin⟩] at hdispatch
  obtain ⟨hv, hpass⟩ := clientComQueryLogged_ends hdispatch
  obtain ⟨hafter, rfl⟩ := ends_logged.1 h
  obtain ⟨rfl, hmiss⟩ := afterCommand_forward hafter
  have ht : PlanKept (started env p' pkts st) t := (afterCommand_plan _ _).ends hafter hv
  have hstart : Alike st (started env p' pkts st) := ⟨rfl, rfl, rfl, rfl, rfl⟩
  exact ⟨(hstart.onePass p').symm.trans (hpass hmiss), hstart.trans ht.alike, ht.queue⟩

/-- The packet is the last one in the output of the backend. -/
def LastOut (t : St) (hg : Nat) (p : Pkt) : Prop :=
  ∃ mybe myds, t.sess.mybes[hg]? = some mybe ∧ mybe.serverMyds = some myds ∧
    myds.output.pkts.getLast? = some p

/-- How forwarding a packet may end. -/
structure Delivers (st : St) (hg : Nat) (p : Pkt) (r : Except Fault Flow) (t : St) : Prop where
  alike : Alike st t
  back : r = .ok .ret0 → t.sess.clientMyds.input.pkts = p :: st.sess.clientMyds.input.pkts
  sent : r = .ok .next → t.sess.clientMyds.input.pkts = st.sess.clientMyds.input.pkts ∧ LastOut t hg p

theorem PlanKept.delivers {r : Except Fault Flow} (h : PlanKept st t) (hback : r ≠ .ok .ret0)
    (hsent : r ≠ .ok .next) :
    Delivers st hg p r t := ⟨h.alike, fun hr => absurd hr hback, fun hr => absurd hr hsent⟩

theorem mySessAddPktOutServer_last (n : Nat) :
    wp (mySessAddPktOutServer hg p n) (fun r t => r = .ok () → LastOut t hg p) st := by
  unfold mySessAddPktOutServer
  rw [wp_bind, wp_getMybe]
  cases hmybe : st.sess.mybes[hg]? with
  | none => exact nofun
  | some mybe =>
    dsimp only
    cases hmyds : mybe.serverMyds with
    | none => exact nofun
    | some myds =>
      have hlt : hg < st.sess.mybes.length := (List.getElem?_eq_some_iff.1 hmybe).1
      have hset : (st.sess.mybes.set hg { mybe with serverMyds := some (myds.addOut [p]) })[hg]?
          = some { mybe with serverMyds := some (myds.addOut [p]) } := getElem?_set_self hlt
      have hlast : (myds.addOut [p]).output.pkts.getLast? = some p := getLast?_concat
      dsimp only [deref]
      split
      · exact fun _ => ⟨_, _, hset, rfl, hlast⟩
      · exact fun _ => ⟨_, _, hset, rfl, hlast⟩

theorem sendToBackend_delivers {u : St} (n : Nat) (hu : PlanKept st u) :
    wp (sendToBackend hg p n) (Delivers st hg p) u := by
  have herr : ∀ e t, PlanKept st t → Delivers st hg p (.error e) t :=
    fun e t ht => ht.delivers (nofun) nofun
  refine wp_bind_of (getMybe_keeps hg u hu) (fun mybe u hu => ?_) herr
  refine wp_bind_of (serverOf_keeps mybe u hu) (fun ms u hu => ?_) herr
  split
  · have hcurrent : Keeps (PlanKept st) (modifySess fun s => { s with serverMybe := some hg }) :=
      .modify fun _ h => h
    refine wp_bind_of (hcurrent u hu) (fun _ u hu => ?_) herr
    refine wp_bind_of (setStatsServer_keeps planKept_still hg ms u hu) (fun _ u hu => ?_) herr
    refine wp_bind_of (syncServerBytesAtCmd_keeps planKept_still u hu) (fun _ u hu => ?_) herr
    have hadd : wp (mySessAddPktOutServer hg p n) (fun r t => PlanKept st t ∧
      (r = .ok () → LastOut t hg p)) u :=
      ⟨planKept_unwired.mySessAddPktOutServer wireChanges_tables hg p n u hu, mySessAddPktOutServer_last n⟩
    refine wp_bind_of hadd (fun _ t ht => ?_) fun e t ht => herr e t ht.1
    have halike := ht.1.alike
    exact ⟨⟨halike.rules, halike.limit, halike.username, halike.schema, halike.admin⟩, fun h => (nomatch h),
      fun _ => ⟨ht.1.queue, ht.2 rfl⟩⟩
  · exact herr _ u hu

theorem forwardTo_delivers (st : St) (hg : Nat) (p : Pkt) (env : PktEnv) :
    wp (forwardTo hg p env) (Delivers st hg p) st := by
  have hb : KeepsBackends (PlanKept st) env hg := planKept_unwired.keepsBackends wireChanges_tables env hg
  refine forwardTo_stages planKept_still (fun _ _ hsent hback hu => hu.delivers hback hsent)
    (fun _ _ hsent hback hu => hu.delivers hback hsent)
      (ensureBackend_keeps planKept_still hb st (.refl st))
    hb.markNotReusable (replaceOfflineSoft_keeps planKept_still hb) (fun u hu => ?_)
    fun u hu => sendToBackend_delivers _ hu
  have hqueue : p :: u.sess.clientMyds.input.pkts = p :: st.sess.clientMyds.input.pkts :=
    congrArg (p :: ·) hu.queue
  have halike := hu.alike
  exact ⟨⟨halike.rules, halike.limit, halike.username, halike.schema, halike.admin⟩, fun _ => hqueue, nofun⟩

end Round

/-! ## Several passes -/

/-- Passes over a packet, each over what the one before it has left. -/
inductive Passes (f : Pkt → Except Fault Pkt × List Nat) : Pkt → List (Pkt × List Nat) → Pkt →
    List Nat → Prop
  | last {p q : Pkt} {hits : List Nat} : f p = (.ok q, hits) → Passes f p [] q hits
  | again {p p' q : Pkt} {hits' hits : List Nat} {rounds : List (Pkt × List Nat)} : f p = (.ok p', hits') →
      Passes f p' rounds q hits → Passes f p ((p', hits') :: rounds) q hits

section Passes

variable {f : Pkt → Except Fault Pkt × List Nat} {p q : Pkt} {hits : List Nat}
  {rounds : List (Pkt × List Nat)}

theorem Passes.first (h : Passes f p rounds q hits) : (f p).2 <+: rounds.flatMap Prod.snd ++ hits := by
  cases h with
  | last hf =>
    rw [hf]
    exact prefix_rfl
  | again hf _ =>
    rw [hf, flatMap_cons, append_assoc]
    exact prefix_append _ _

/-- If nothing matches in a pass, then it changes nothing, and so nothing matches in the next one. -/
theorem Passes.unmatched (hsame : ∀ p q, f p = (.ok q, []) → q = p) (h : Passes f p rounds q hits)
    (hnone : (f p).2 = []) : q = p ∧ rounds.flatMap Prod.snd ++ hits = [] := by
  induction h with
  | last hf =>
    rw [hf] at hnone
    obtain rfl : _ = [] := hnone
    exact ⟨hsame _ _ hf, rfl⟩
  | again hf _ ih =>
    rw [hf] at hnone
    obtain rfl : _ = [] := hnone
    obtain rfl := hsame _ _ hf
    obtain ⟨rfl, hnil⟩ := ih (by rw [hf])
    refine ⟨rfl, ?_⟩
    exact hnil

/-- Any number of passes is as good as one exactly if nothing matches in the second. -/
theorem Passes.once_iff (hsame : ∀ p q, f p = (.ok q, []) → q = p) (hnodup : ∀ p, (f p).2.Nodup)
    (h : Passes f p rounds q hits) :
    ((f p).1 = .ok q ∧ ∀ i, (rounds.flatMap Prod.snd ++ hits).count i = if i ∈ (f p).2 then 1 else 0) ↔
      rounds = [] ∨ ∀ p', (f p).1 = .ok p' → (f p').2 = [] := by
  have hcount : ∀ i, (f p).2.count i = if i ∈ (f p).2 then 1 else 0 := fun i => (hnodup p).count
  cases h with
  | last hf =>
    refine iff_of_true ⟨by rw [hf], fun i => ?_⟩ (.inl rfl)
    rw [← hcount, hf]
    rfl
  | @again p p' q hits' hits rounds hf hrest =>
    have hsecond : (∀ r, (f p).1 = .ok r → (f r).2 = []) ↔ (f p').2 = [] := by
      rw [hf]
      constructor
      · exact fun h => h p' rfl
      · exact fun h r hr => Except.ok.inj hr ▸ h
    rw [hsecond]
    rw [hf] at hcount ⊢
    rw [flatMap_cons, append_assoc]
    constructor
    · rintro ⟨-, htotal⟩
      have hnil : rounds.flatMap Prod.snd ++ hits = [] := by
        refine eq_nil_iff_forall_not_mem.2 fun i hi => ?_
        have hpos := count_pos_iff.2 hi
        have hi := htotal i
        rw [count_append, hcount i] at hi
        omega
      exact .inr (prefix_nil.1 (hnil ▸ hrest.first))
    · rintro (h | hnone)
      · cases h
      · obtain ⟨rfl, hnil⟩ := hrest.unmatched hsame hnone
        refine ⟨rfl, fun i => ?_⟩
        rw [hnil, append_nil]
        exact hcount i

end Passes

/-! ## The result -/

/-- A round of the loop for a query that leaves the rules as `q` with `hits`. -/
def Round (st : St) (q : Pkt) (hits : List Nat) (flow : Flow) (t : St) : Prop :=
  ∃ env hg u, Ends (dispatchPktLogged env) (st, []) (.forward hg q) (u, hits) ∧
    Ends (forwardTo hg q env) u flow t

/-- Between two calls the client may send more, and anything may change but what decides about the query. -/
structure Meanwhile (st t : St) : Prop where
  alike : Alike st t
  queue : st.sess.clientMyds.input.pkts <+: t.sess.clientMyds.input.pkts

/-- Calls that put back the packet in front; for each of them what the rules made of it, and their hits. -/
inductive QueuedBack : St → List (Pkt × List Nat) → St → Prop
  | none (st : St) : QueuedBack st [] st
  | again {st t u v : St} {q : Pkt} {hits : List Nat} {rounds : List (Pkt × List Nat)} :
      Round st q hits .ret0 t →
      Meanwhile t u → QueuedBack u rounds v → QueuedBack st ((q, hits) :: rounds) v

/-- The packet `p` is sent on as after one pass of the rules, those behind it keep their order, and the
    rules that match have one hit each. -/
structure Once (st : St) (p : Pkt) (pkts : List Pkt) (hits : List Nat) (q : Pkt) (t : St) : Prop where
  packet : (onePass st.sh st.sess p).1 = .ok q
  sent : ∃ hg, LastOut t hg q
  order : pkts <+: t.sess.clientMyds.input.pkts
  hits : ∀ i, hits.count i = if i ∈ (onePass st.sh st.sess p).2 then 1 else 0

section Result

variable {st t v : St} {p q : Pkt} {pkts : List Pkt} {hits : List Nat} {rounds : List (Pkt × List Nat)}
  {flow : Flow}

/-- A round is one of `process_client_pkts`. -/
theorem Round.processClientPkt (h : Round st q hits flow t) :
    ∃ env, Ends (processClientPkt env) st flow t := by
  obtain ⟨env, hg, u, hdispatch, hforward⟩ := h
  refine ⟨env, ?_⟩
  have herased : Ends (dispatchPkt env) st (.forward hg q) u := by
    have h := dispatchPktLogged_erases env (st, [])
    rw [hdispatch] at h
    exact h.symm
  rw [processClientPkt_eq]
  exact ends_bind.2 ⟨_, u, herased, hforward⟩

theorem Round.delivers (hpkts : st.sess.clientMyds.input.pkts = p :: pkts) (hp : p.IsQuery)
    (hadmin : st.sess.admin = 0) (h : Round st q hits flow t) : onePass st.sh st.sess p = (.ok q, hits) ∧
      Alike st t ∧ (flow = .ret0 → t.sess.clientMyds.input.pkts = q :: pkts) ∧
      (flow = .next → t.sess.clientMyds.input.pkts = pkts ∧ ∃ hg, LastOut t hg q) := by
  obtain ⟨env, hg, u, hdispatch, hforward⟩ := h
  obtain ⟨hpass, halike, rfl⟩ := dispatchPktLogged_forward hpkts hp hadmin hdispatch
  have hdelivers := hforward.of_wp (forwardTo_delivers u hg q env)
  refine ⟨hpass, halike.trans hdelivers.alike, fun hflow => hdelivers.back (congrArg _ hflow),
    fun hflow => ?_⟩
  obtain ⟨hqueue, hlast⟩ := hdelivers.sent (congrArg _ hflow)
  exact ⟨hqueue, hg, hlast⟩

theorem QueuedBack.passes (hback : QueuedBack st rounds v)
    (hpkts : st.sess.clientMyds.input.pkts = p :: pkts) (hp : p.IsQuery) (hadmin : st.sess.admin = 0)
    (hsent : Round v q hits .next t) :
    Passes (onePass st.sh st.sess) p rounds q hits ∧ pkts <+: t.sess.clientMyds.input.pkts ∧
    ∃ hg, LastOut t hg q := by
  induction hback generalizing p pkts with
  | none st =>
    obtain ⟨hpass, -, -, hnext⟩ := hsent.delivers hpkts hp hadmin
    obtain ⟨hqueue, hlast⟩ := hnext rfl
    exact ⟨.last hpass, hqueue ▸ prefix_rfl, hlast⟩
  | @again st t' u v q' hits' rounds hround hmeanwhile _ ih =>
    obtain ⟨hpass, halike, hqueue, -⟩ := hround.delivers hpkts hp hadmin
    obtain ⟨more, hmore⟩ := hmeanwhile.queue
    have hu : Alike st u := halike.trans hmeanwhile.alike
    have hpkts' : u.sess.clientMyds.input.pkts = q' :: (pkts ++ more) := by
      rw [← hmore, hqueue rfl]
      rfl
    have hq' : q'.IsQuery := onePass_isQuery hp (congrArg Prod.fst hpass)
    obtain ⟨hpasses, horder, hlast⟩ := ih hpkts' hq' (hu.admin.trans hadmin) hsent
    have hsame : onePass u.sh u.sess = onePass st.sh st.sess := funext hu.onePass
    exact ⟨.again hpass (hsame ▸ hpasses), (prefix_append pkts more).trans horder, hlast⟩

end Result

/-- A query that is put back any number of times is processed once exactly if it is not put back at all or
    no rule matches what the rules have made of it. -/
theorem queuedBack_once_iff (st v t : St) (p q : Pkt) (pkts : List Pkt) (hits : List Nat)
    (rounds : List (Pkt × List Nat)) (hpkts : st.sess.clientMyds.input.pkts = p :: pkts) (hp : p.IsQuery)
    (hadmin : st.sess.admin = 0) (hback : QueuedBack st rounds v) (hsent : Round v q hits .next t) :
    Once st p pkts (rounds.flatMap Prod.snd ++ hits) q t ↔
      rounds = [] ∨ ∀ p', (onePass st.sh st.sess p).1 = .ok p' → (onePass st.sh st.sess p').2 = [] := by
  obtain ⟨hpasses, horder, hlast⟩ := hback.passes hpkts hp hadmin hsent
  have honce := hpasses.once_iff (fun _ _ => onePass_unmatched) (onePass_nodup st.sh st.sess)
  rw [← honce]
  constructor
  · exact fun h => ⟨h.packet, h.hits⟩
  · exact fun ⟨hpacket, hhits⟩ => ⟨hpacket, hlast, horder, hhits⟩

/-! ### A server that appears after one try -/

/-- One round for the packet in front, without answers to wait for. -/
def St.tryRound (st : St) : Option ((Pkt × List Nat) × Flow × St) :=
  match outcome (dispatchPktLogged .quiet) (st, []) with
  | (.ok (.forward hg q), (u, hits)) =>
      match outcome (forwardTo hg q .quiet) u with
      | (.ok flow, t) => some ((q, hits), flow, t)
      | (.error _, _) => none
  | _ => none

theorem St.tryRound_round {hits : List Nat} {flow : Flow}
    (h : st.tryRound = some ((q, hits), flow, t)) : Round st q hits flow t := by
  unfold St.tryRound at h
  split at h
  · next hg q' u hits' hdispatch =>
    split at h
    · next flow' t' hforward =>
      obtain ⟨hround, hend⟩ := Prod.mk.inj (some.inj h)
      cases hround
      cases hend
      exact ⟨.quiet, hg, u, hdispatch, hforward⟩
    · cases h
  · cases h

/-- The session of user `u` sends the query `a`; the hostgroups have no servers, and there is one rule. -/
def askedAlone (qr : QueryRule) : St :=
  let s := mysqlSessionNew (fun _ => 0) oneServer.sh.glovars 0 5
  { sh := { oneServer.sh with queryRules := [qr] },
    sess := { s with
      mysqlUsername := some (bytesOf "u"), mysqlSchemaCur := some (bytesOf "d"),
      clientMyds := { s.clientMyds with input := { s.clientMyds.input with pkts := [shortQuery] } } } }

/-- A server of hostgroup 0 is loaded. -/
def St.withServer (st : St) : St := { st with sh := flushServersDbToMem st.sh [dbRow] }

theorem St.withServer_meanwhile (st : St) : Meanwhile st st.withServer := by
  have htables : (flushServersDbToMem st.sh [dbRow]).tables = st.sh.tables := flushServersDbToMem_tables _ _
  refine ⟨⟨queryRules_of_tables htables, ?_, rfl, rfl, rfl⟩, prefix_rfl⟩
  show (flushServersDbToMem st.sh [dbRow]).glovars.mysqlMaxQuerySize = _
  rw [glovars_of_tables htables]

/-- The packet is put back once, and sent on when the server is there. -/
def St.triesTwice (st : St) : Option ((Pkt × List Nat) × (Pkt × List Nat) × St × St) :=
  st.tryRound.bind fun r1 =>
    if r1.2.1 = .ret0 then
      r1.2.2.withServer.tryRound.bind fun r2 => if r2.2.1 = .next
        then some (r1.1, r2.1, r1.2.2, r2.2.2) else none
    else none

theorem St.triesTwice_rounds {u : St} {r1 r2 : Pkt × List Nat} (h : st.triesTwice = some (r1, r2, u, t)) :
    QueuedBack st [r1] u.withServer ∧ Round u.withServer r2.1 r2.2 .next t := by
  obtain ⟨⟨round1, flow1, u1⟩, hfirst, h⟩ := bind_eq_some_iff.1 h
  split at h
  · next hflow1 =>
    obtain ⟨⟨round2, flow2, t2⟩, hsecond, h⟩ := bind_eq_some_iff.1 h
    split at h
    · next hflow2 =>
      obtain ⟨rfl, rfl, rfl, rfl⟩ := h
      subst hflow1 hflow2
      exact ⟨.again (St.tryRound_round hfirst) (St.withServer_meanwhile _) (.none _),
        St.tryRound_round hsecond⟩
    · cases h
  · cases h

/-- A rule that changes the query `a` to `b`. -/
def aToB : QueryRule := { replacing [0x62] with regexMatch := fun q => q == [0x61] }

theorem queuedBack_once_replaced : ∃ v t q hits rounds, QueuedBack (askedAlone aToB) rounds v ∧
    Round v q hits .next t ∧
    rounds.length = 1 ∧ Once (askedAlone aToB) shortQuery [] (rounds.flatMap Prod.snd ++ hits) q t := by
  have hexec : (askedAlone aToB).triesTwice.isSome = true := by decide +kernel
  obtain ⟨⟨r1, r2, u, t⟩, h⟩ := isSome_iff_exists.1 hexec
  obtain ⟨hback, hsent⟩ := St.triesTwice_rounds h
  have hsecond : (onePass (askedAlone aToB).sh (askedAlone aToB).sess shortQuery).1.map
      (fun p' => (onePass (askedAlone aToB).sh (askedAlone aToB).sess p').2) = .ok [] := by decide +kernel
  refine ⟨_, t, _, _, _, hback, hsent, rfl, ?_⟩
  refine (queuedBack_once_iff _ _ t shortQuery _ [] _ _ rfl rfl rfl hback hsent).2 (.inr fun p' hp' => ?_)
  rw [hp'] at hsecond
  exact Except.ok.inj hsecond

/-- A rule that adds `a` to every query. -/
def addsA : QueryRule := { replacing [] with replace := some fun q => some (q ++ [0x61]) }

/-- The rule is applied twice. -/
theorem queuedBack_hit_twice : ∃ v t q hits rounds, QueuedBack (askedAlone addsA) rounds v ∧
    Round v q hits .next t ∧ q.data = [0x04, 0x00, 0x00, 0x00, 0x03, 0x61, 0x61, 0x61] ∧
      ¬ Once (askedAlone addsA) shortQuery [] (rounds.flatMap Prod.snd ++ hits) q t := by
  have hexec : (askedAlone addsA).triesTwice.map (fun r => (r.1.2, r.2.1.1.data, r.2.1.2)) =
      some ([0], [0x04, 0x00, 0x00, 0x00, 0x03, 0x61, 0x61, 0x61], [0]) := by decide +kernel
  obtain ⟨⟨r1, r2, u, t⟩, h, hfields⟩ := map_eq_some_iff.1 hexec
  simp only [Prod.mk.injEq] at hfields
  obtain ⟨hhits1, hdata, hhits2⟩ := hfields
  obtain ⟨hback, hsent⟩ := St.triesTwice_rounds h
  refine ⟨_, t, _, _, _, hback, hsent, hdata, fun honce => ?_⟩
  have hcount := honce.hits 0
  rw [flatMap_cons, flatMap_nil, hhits1, hhits2] at hcount
  revert hcount
  split
  · exact fun h => absurd h (by decide)
  · exact fun h => absurd h (by decide)

end ProxySQL
