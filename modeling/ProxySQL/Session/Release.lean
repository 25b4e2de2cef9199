/-
  ProxySQL.Session.Release

  Which backends of a session give their connections to a pool in a step.

  Connections enter the pools in five places: when the client selects another
  schema or user, when a packet is forwarded to a server that has become
  OFFLINE_SOFT, when the response to a query is complete and connections are
  shared, when the session is closed, and when `main.c` removes the OFFLINE_SOFT
  servers.  `Releases` says where, in terms of the state before the step; a
  property of the pools that holds of what is released is an invariant of the
  thread (`SessEvent.keeps_of_releases`).
-/
import ProxySQL.Session.Steps
import ProxySQL.Session.BackendSpec

namespace ProxySQL

open Lib List

/-! ## Backends that give their connection to a pool -/

/-- The connection of the backend enters a pool when it is given back with `fc` for
    `force_close`. -/
def MysqlBackend.Pools (sh : Shared) (now : Nat → Nat) (fc : Bool) (mybe : MysqlBackend) : Prop :=
  ∃ c, mybe.serverMycpe = some c ∧ Poolable sh c (now c) fc

/-- The backend is to be given up, for its server is OFFLINE_SOFT and it is not in a transaction. -/
def MysqlBackend.Retired (sh : Shared) (mybe : MysqlBackend) : Prop :=
  (∃ m ms, mybe.mshge = some m ∧ sh.msPtr m = .ok ms ∧ ms.status = .offlineSoft) ∧
    mybe.inTransaction = false

/-- The loops of `server_COM_QUERY` detach the backends. -/
def DetachesAll (st : St) : Prop :=
  st.sh.glovars.mysqlShareConnections = 1 ∧
    ∃ myds, st.sess.serverMyds = some myds ∧ myds.activeTransaction = false

/-- Backend `mybe` of the session gives its connection to a pool in the step. -/
def Releases (st : St) (mybe : MysqlBackend) : SessEvent → Prop
  | .dispatch env =>
      mybe ∈ st.sess.mybes ∧ Disconnects st env ∧ mybe.Pools st.sh env.now (mybe.closes false)
  | .forward hg _ env => st.sess.mybes[hg]? = some mybe ∧ mybe.Retired st.sh ∧
      mybe.Pools st.sh env.now (mybe.closes false)
  | .answer _ r env => mybe ∈ st.sess.mybes ∧ st.sess.clientCommand = mysqlComQuery ∧
      endsWithStatus r st.sess.resultsetProgress = true ∧ DetachesAll st ∧ mybe.Pools st.sh env.now false
  | .close now => mybe ∈ st.sess.mybes ∧ mybe.Pools st.sh now (mybe.closes st.sess.forceCloseBackends)
  | .removeOfflineSoft now => mybe ∈ st.sess.mybes ∧ mybe.Retired st.sh ∧
      mybe.Pools st.sh now (mybe.closes false)
  | _ => False

variable {st : St} {mybe : MysqlBackend} {sh sh' : Shared} {now : Nat → Nat} {i hg : Nat}
  {cenv : ConnectEnv} {fill : Nat → Byte}

theorem Releases.mem {e : SessEvent} (h : Releases st mybe e) : mybe ∈ st.sess.mybes := by
  cases e with
  | dispatch env => exact h.1
  | forward hg p env => exact mem_of_getElem? h.1
  | answer p r env => exact h.1
  | close now => exact h.1
  | removeOfflineSoft now => exact h.1
  | _ => exact h.elim

theorem ServersKept.msPtr_eq (h : ServersKept sh sh') (m : Nat) : sh'.msPtr m = sh.msPtr m := by
  unfold Shared.msPtr
  rw [h.msPtr m, h.servers]

theorem MysqlBackend.Pools.of_kept {fc : Bool} (h : mybe.Pools sh' now fc) (hk : PoolingKept sh sh') :
    mybe.Pools sh now fc := by
  obtain ⟨c, hc, hp⟩ := h
  exact ⟨c, hc, hp.of_kept hk⟩

theorem MysqlBackend.Retired.of_kept (h : mybe.Retired sh') (hk : ServersKept sh sh') :
    mybe.Retired sh := by
  obtain ⟨⟨m, ms, hm, hms, hsoft⟩, htrans⟩ := h
  exact ⟨⟨m, ms, hm, (hk.msPtr_eq m).symm.trans hms, hsoft⟩, htrans⟩

/-! ## Giving back one connection -/

/-- The state after backend `i` was replaced. -/
def St.store (st : St) (i : Nat) (sh : Shared) (mybe : MysqlBackend) : St :=
  { sh := sh, sess := { st.sess with mybes := st.sess.mybes.set i mybe } }

variable {Q : Except Fault Unit → St → Prop}

theorem store_wp (f : Shared → MysqlBackend → Except Fault (Shared × MysqlBackend))
    (herr : ∀ e, Q (.error e) st)
    (hok : ∀ mybe sh' mybe', st.sess.mybes[i]? = some mybe → f st.sh mybe = .ok (sh', mybe') →
      Q (.ok ()) (st.store i sh' mybe')) :
    wp (do
      let mybe ← getMybe i
      let (sh, mybe) ← f (← get).sh mybe
      modifyShared fun _ => sh
      setMybe i mybe : SessM Unit) Q st := by
  rw [wp_bind, wp_getMybe]
  cases hmybe : st.sess.mybes[i]? with
  | none => exact herr _
  | some mybe =>
    dsimp only
    rw [wp_get_bind, wp_bind, wp_lift]
    cases hf : f st.sh mybe with
    | error e => exact herr e
    | ok r => exact hok mybe r.1 r.2 hmybe hf

theorem bereset_wp {fc : Bool} (herr : ∀ e, Q (.error e) st)
    (hok : ∀ mybe sh' mybe', st.sess.mybes[i]? = some mybe →
      backendReset st.sh mybe fc now = .ok (sh', mybe') → Q (.ok ()) (st.store i sh' mybe')) :
    wp (bereset i fc now) Q st :=
  store_wp (fun sh mybe => backendReset sh mybe fc now) herr hok

theorem bedetach_wp (herr : ∀ e, Q (.error e) st)
    (hok : ∀ mybe sh' mybe', st.sess.mybes[i]? = some mybe →
      backendDetach st.sh mybe false now = .ok (sh', mybe') → Q (.ok ()) (st.store i sh' mybe')) :
    wp (bedetach i now) Q st :=
  store_wp (fun sh mybe => backendDetach sh mybe false now) herr hok

/-- What a session connects with. -/
def Session.credentials (s : Session) : Credentials :=
  { username := s.mysqlUsername, password := s.mysqlPassword, schema := s.mysqlSchemaCur }

theorem connectBackend_from_wp {Q : Except Fault CreateResult → St → Prop} (herr : ∀ e, Q (.error e) st)
    (hok : ∀ mybe sh' mybe' rc, st.sess.mybes[hg]? = some mybe →
      createBackendFrom st.sess.credentials cenv fill hg 10 st.sh mybe = .ok (sh', mybe', rc) →
      Q (.ok rc) (st.store hg sh' mybe')) :
    wp (connectBackend hg cenv fill) Q st := by
  unfold connectBackend
  rw [wp_get_bind, wp_ite]
  split
  · rw [wp_bind, wp_getMybe]
    cases hmybe : st.sess.mybes[hg]? with
    | none => exact herr _
    | some mybe =>
      dsimp only
      rw [wp_bind, wp_lift]
      split
      · next r hcreate => exact hok mybe r.1 r.2.1 r.2.2 hmybe hcreate
      · exact herr _
  · exact herr _

theorem connectBackend_creates_wp {Q : Except Fault CreateResult → St → Prop} (herr : ∀ e, Q (.error e) st)
    (hok : ∀ mybe sh' mybe' rc, st.sess.mybes[hg]? = some mybe →
      Creates st.sess.credentials cenv fill hg 10 st.sh mybe sh' mybe' rc → Q (.ok rc)
      (st.store hg sh' mybe')) :
    wp (connectBackend hg cenv fill) Q st :=
  connectBackend_from_wp herr fun mybe sh' mybe' rc hmybe hcreate =>
    hok mybe sh' mybe' rc hmybe (createBackendFrom_creates hcreate)

theorem connectBackend_wp {Q : Except Fault CreateResult → St → Prop} (herr : ∀ e, Q (.error e) st)
    (hok : ∀ mybe sh' mybe' rc, st.sess.mybes[hg]? = some mybe →
      Connected st.sh sh' mybe mybe' → Q (.ok rc) (st.store hg sh' mybe')) :
    wp (connectBackend hg cenv fill) Q st :=
  connectBackend_creates_wp herr fun mybe sh' mybe' rc hmybe hcreates =>
    hok mybe sh' mybe' rc hmybe hcreates.connected

/-- A property that giving back the connection of a backend keeps, if the connection does not enter
    a pool or the backend is `Ok`; the other backends stay `Ok`. -/
structure ReleaseRule (P : St → Prop) (Ok : Shared → MysqlBackend → Prop) : Prop where
  give : ∀ {st : St} {i : Nat} {mybe mybe' : MysqlBackend} {sh' : Shared} {now : Nat → Nat} {fc : Bool},
    P st → st.sess.mybes[i]? = some mybe → GaveBack st.sh sh' mybe mybe' now fc →
    (mybe.Pools st.sh now fc → Ok st.sh mybe) → P (st.store i sh' mybe')
  others : ∀ {st : St} {b mybe mybe' : MysqlBackend} {sh' : Shared} {now : Nat → Nat} {fc : Bool},
    P st → b ∈ st.sess.mybes → GaveBack st.sh sh' mybe mybe' now fc → Ok st.sh b → Ok sh' b
  forget : ∀ {sh : Shared} {b : MysqlBackend}, Ok sh b → Ok sh { b with lastMysqlConnpool := none }
  cache : ∀ {sh : Shared} {b : MysqlBackend} (qc : Str → Option QcEntry), Ok sh b →
    Ok { sh with qc := qc } b

section Rules

variable {P : St → Prop} {Ok : Shared → MysqlBackend → Prop}

/-- The backends in `D` whose connections enter a pool when they are reset are `Ok`. -/
def ResetsOk (Ok D : Shared → MysqlBackend → Prop) (fc : Bool) (now : Nat → Nat) (st : St) : Prop :=
  ∀ b ∈ st.sess.mybes, D st.sh b → b.Pools st.sh now (b.closes fc) → Ok st.sh b

theorem ReleaseRule.bereset (h : ReleaseRule P Ok) {D : Shared → MysqlBackend → Prop}
    (hD : ∀ {sh sh' b}, ServersKept sh sh' → D sh' b → D sh b) {i : Nat} {fc : Bool} {now : Nat → Nat}
    {st : St} (hst : P st) (hok : ResetsOk Ok D fc now st)
    (hi : ∀ mybe, st.sess.mybes[i]? = some mybe → D st.sh mybe) :
    wp (bereset i fc now) (fun _ t => P t ∧ ResetsOk Ok D fc now t) st := by
  refine bereset_wp (fun _ => ⟨hst, hok⟩) fun mybe sh' mybe' hmybe hreset => ?_
  have hgave := backendReset_gaveBack hreset
  obtain rfl := backendReset_eq hreset
  refine ⟨h.give hst hmybe hgave (hok mybe (mem_of_getElem? hmybe) (hi mybe hmybe)), ?_⟩
  intro b hb hDb hpools
  rcases mem_or_eq_of_mem_set hb with hold | rfl
  · refine h.others hst hold hgave (hok b hold (hD hgave.servers hDb) (hpools.of_kept hgave.pooling))
  · -- a backend that was reset has no connection
    obtain ⟨c, hc, -⟩ := hpools
    cases hc

/-- The backends whose connections enter a pool when they are detached are `Ok`. -/
def DetachesOk (Ok : Shared → MysqlBackend → Prop) (now : Nat → Nat) (st : St) : Prop :=
  ∀ b ∈ st.sess.mybes, b.Pools st.sh now false → Ok st.sh b

theorem ReleaseRule.bedetach (h : ReleaseRule P Ok) {i : Nat} {now : Nat → Nat} :
    Keeps (fun st => P st ∧ DetachesOk Ok now st) (bedetach i now) := by
  rintro st ⟨hst, hok⟩
  refine bedetach_wp (fun _ => ⟨hst, hok⟩) fun mybe sh' mybe' hmybe hdetach => ?_
  have hgave := backendDetach_gaveBack hdetach
  have hmem := mem_of_getElem? hmybe
  refine ⟨h.give hst hmybe hgave (hok mybe hmem), ?_⟩
  intro b hb hpools
  rcases mem_or_eq_of_mem_set hb with hold | rfl
  · exact h.others hst hold hgave (hok b hold (hpools.of_kept hgave.pooling))
  · obtain ⟨c, hc, hpoolable⟩ := hpools
    rcases hgave.cases with ⟨hsame, -⟩ | ⟨_, -, hnone, -⟩
    · -- the connection is not reusable, so the backend has kept it
      have hpools : mybe.Pools st.sh now false := ⟨c, hsame ▸ hc, hpoolable.of_kept hgave.pooling⟩
      rw [backendDetach_eq hdetach, hsame]
      exact h.forget (h.others hst hmem hgave (hok mybe hmem hpools))
    · rw [hnone] at hc
      cases hc

theorem activeTransaction_wp (st : St) :
    wp activeTransaction (fun r t => t = st ∧ ∀ b, r = .ok b →
      ∃ myds, st.sess.serverMyds = some myds ∧ myds.activeTransaction = b) st := by
  unfold activeTransaction
  rw [wp_get_bind, wp_bind, wp_lift]
  unfold Session.serverMyds
  cases st.sess.serverMybe with
  | none => exact ⟨rfl, fun _ h => by cases h⟩
  | some i =>
    simp only [deref]
    rw [wp_bind, wp_getMybe]
    cases hmybe : st.sess.mybes[i]? with
    | none => exact ⟨rfl, fun _ h => by cases h⟩
    | some mybe =>
      dsimp only
      cases hmyds : mybe.serverMyds with
      | none => exact ⟨rfl, fun _ h => by cases h⟩
      | some myds =>
        refine ⟨rfl, fun b hb => ⟨myds, ?_, Except.ok.inj hb⟩⟩
        simp [hmybe, hmyds]

/-- The loops of `server_COM_QUERY`, where the backends are `Ok` if the loops detach them. -/
theorem ReleaseRule.detachBackends (h : ReleaseRule P Ok) {now : Nat → Nat} {st : St} (hst : P st)
    (hok : DetachesAll st → DetachesOk Ok now st) : wp (detachBackends now) (fun _ t => P t) st := by
  have hloop : Keeps (fun st => P st ∧ (DetachesAll st → DetachesOk Ok now st))
    (ProxySQL.detachBackends now) := by
    refine forHostgroups_keeps fun i => ?_
    rintro st ⟨hst, hok⟩
    refine wp_bind_of (activeTransaction_wp st) ?_ ?_
    · rintro inTrans _ ⟨rfl, htrans⟩
      rw [wp_get_bind, wp_when]
      split
      · next hwhen =>
        obtain ⟨myds, hmyds, rfl⟩ := htrans inTrans rfl
        have hall := hok ⟨hwhen.2, myds, hmyds, hwhen.1⟩
        exact wp_of (h.bedetach _ ⟨hst, hall⟩) fun _ _ ht => ⟨ht.1, fun _ => ht.2⟩
      · exact ⟨hst, hok⟩
    · rintro _ _ ⟨rfl, -⟩
      exact ⟨hst, hok⟩
  exact wp_of (hloop st ⟨hst, hok⟩) fun _ _ ht => ht.1

/-! ## A step -/

/-- `ReleaseRule` with what the steps other than forwarding need. -/
structure ReleaseStable (P : St → Prop) (Ok : Shared → MysqlBackend → Prop) : Prop extends
    ReleaseRule P Ok where
  stable : Stable (fun _ => True) P
  net : NetStable P
  forgetConnpool : Keeps P forgetConnpool
  clear : ∀ t, P t → P { t with sess := { t.sess with mybes := [], healthy := false } }

/-- Together with what the backends need for a reset, a stable property is stable. -/
theorem ReleaseStable.resets (h : ReleaseStable P Ok) (fc : Bool) (now : Nat → Nat) :
    Stable (fun _ => True) fun st => P st ∧ ResetsOk Ok (fun _ _ => True) fc now st where
  sess hst hlocal := by
    refine ⟨h.stable.sess hst.1 hlocal, ?_⟩
    intro b hb
    exact hst.2 b (hlocal.mybes ▸ hb)
  record hst ha := ⟨h.stable.record hst.1 ha, hst.2⟩
  cache qc hst := by
    refine ⟨h.stable.cache qc hst.1, ?_⟩
    intro b hb hD hpools
    exact h.cache qc (hst.2 b hb hD (hpools.of_kept ⟨rfl, fun _ => rfl, fun _ => rfl⟩))

/-- A step keeps `P` if the backends whose connections it puts into a pool are `Ok` and forwarding
    keeps it. -/
theorem SessEvent.keeps_of_releases (h : ReleaseStable P Ok) (e : SessEvent) {st : St} (hst : P st)
    (hok : ∀ mybe, Releases st mybe e → Ok st.sh mybe)
    (hforward : ∀ hg p env, e = .forward hg p env → wp (forwardTo hg p env) (fun _ t => P t) st) :
    wp e.prog (fun _ t => P t) st := by
  have hreset : ∀ i fc now, Keeps (fun st => P st ∧ ResetsOk Ok (fun _ _ => True) fc now st)
    (bereset i fc now) :=
    fun i fc now t ht => h.bereset (fun _ _ => trivial) ht.1 ht.2 fun _ _ => trivial
  cases e with
  | checkFdsErrors net => exact checkFdsErrors_keeps h.net net st hst
  | readFromNet net => exact readFromNet2_keeps h.net net st hst
  | writeToNet client server sendClient sendServer => exact writeToNet2_keeps h.net _ _ _ _ st hst
  | buffer2array fill => exact buffer2array2_keeps h.net fill st hst
  | authenticate beyond slack =>
    exact processAuthenticationPkt_keeps (h.stable.auth fun _ => trivial) beyond slack st hst
  | dispatch env =>
    refine wp_bind_of (?_ : wp _ (fun _ t => P t) st) (fun _ _ ht => ht) fun _ _ ht => ht
    by_cases hd : Disconnects st env
    · have hall : ResetsOk Ok (fun _ _ => True) false env.now st :=
        fun b hb _ hpools => hok b ⟨hb, hd, hpools⟩
      exact wp_of (dispatchPkt_wp (h.resets false env.now).dispatch clientActions_true
        (fun _ i => hreset i false env.now) ⟨hst, hall⟩) fun _ _ ht => ht.1
    · exact dispatchPkt_wp h.stable.dispatch clientActions_true (fun hd' => absurd hd' hd) hst
  | forward hg p env => exact wp_bind_of (hforward hg p env rfl) (fun _ _ ht => ht) fun _ _ ht => ht
  | takeServerPkt env =>
    exact wp_bind_of (takeServerPkt_keeps h.net env st hst) (fun _ _ ht => ht) fun _ _ ht => ht
  | answer p r env =>
    refine answerPkt_wp h.stable p h.forgetConnpool (fun hquery hends => ?_) hst
    refine h.detachBackends (h.stable.sess hst (.of_eq rfl)) fun hall b hb hpools => ?_
    exact hok b ⟨hb, hquery, hends, hall, hpools⟩
  | array2buffer => exact array2buffer2_keeps h.net st hst
  | close now =>
    have hall : ResetsOk Ok (fun _ _ => True) st.sess.forceCloseBackends now st :=
      fun b hb _ hpools => hok b ⟨hb, hpools⟩
    refine wp_of (sessClose_wp (h.resets _ now) (fun i => hreset i _ now) (fun t ht => ?_) ⟨hst, hall⟩)
      fun _ _ ht => ht.1
    exact ⟨h.clear t ht.1, nofun⟩
  | preparePoll => exact preparePoll_keeps h.stable.still st hst
  | removeOfflineSoft now =>
    have hall : ResetsOk Ok (fun sh b => b.Retired sh) false now st :=
      fun b hb hretired hpools => hok b ⟨hb, hretired, hpools⟩
    have hremove : Keeps (fun t => P t ∧ ResetsOk Ok (fun sh b => b.Retired sh) false now t)
        (removeAllBackendsOfflineSoft now) := removeAllBackendsOfflineSoft_keeps fun i => ?_
    · exact wp_bind_of (hremove st ⟨hst, hall⟩) (fun _ _ ht => ht.1) fun _ _ ht => ht.1
    intro t mybe myds m ms ht hmybe hmyds htrans hm hms hsoft
    refine h.bereset (fun hk hr => hr.of_kept hk) ht.1 ht.2 fun mybe' hmybe' => ?_
    obtain rfl : mybe = mybe' := Option.some.inj (hmybe.symm.trans hmybe')
    refine ⟨⟨m, ms, hm, hms, hsoft⟩, ?_⟩
    rw [MysqlBackend.inTransaction, hmyds]
    exact htrans
  | forceClose => exact h.stable.sess hst (.of_eq rfl)

end Rules

end ProxySQL
