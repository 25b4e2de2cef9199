/-
  ProxySQL.Thread.OfflineSoft

  Giving up the backends on servers that are OFFLINE_SOFT.

  The first loop of `remove_all_backends_offline_soft` resets backends, and a
  reset clears `mshge`; the second loop counts the backends that are left, and
  follows `mshge` without a look at it.  So the function returns exactly if there
  is nothing for it to do: every backend has an entry, and those on an
  OFFLINE_SOFT server are spared (`removeAllBackendsOfflineSoft_ends_iff`).
-/
import ProxySQL.Session.Forwarding
import ProxySQL.Session.PoolIdle
import ProxySQL.Thread.Poll

namespace ProxySQL

open Lib List Option

/-! ## One backend -/

/-- The first loop leaves a backend on an OFFLINE_SOFT server alone: it has a stream, and either it
    is in a transaction, or another backend is current and has moved bytes since the last
    command. -/
def MysqlBackend.LeftAlone (mybe : MysqlBackend) (s : Session) (j : Nat) : Prop :=
  ∃ myds, mybe.serverMyds = some myds ∧ (myds.activeTransaction = true ∨
    ∃ i curBe cur, s.serverMybe = some i ∧ i ≠ j ∧ s.mybes[i]? = some curBe ∧
    curBe.serverMyds = some cur ∧
      ¬ (s.bytesSentAtCmd = cur.bytesSent ∧ s.bytesRecvAtCmd = cur.bytesRecv))

/-- The backend for hostgroup `j` has an entry, and is left alone if its server is OFFLINE_SOFT. -/
def Spared (st : St) (j : Nat) : Prop :=
  ∃ mybe, st.sess.mybes[j]? = some mybe ∧ mybe.mshge ≠ none ∧
    (st.sess.onOfflineSoft st.sh j = true → mybe.LeftAlone st.sess j)

/-- The backend for hostgroup `j` has lost its entry. -/
def ResetAt (st : St) (j : Nat) : Prop := ∃ mybe, st.sess.mybes[j]? = some mybe ∧ mybe.mshge = none

/-- The entries of the backends lead to servers. -/
def LeadToServers (st : St) : Prop := ∀ mybe ∈ st.sess.mybes, ∀ m, mybe.mshge = some m →
    ∃ ms, st.sh.msPtr m = .ok ms

section Backend

variable {st u : St} {now : Nat → Nat} {j : Nat}

theorem onOfflineSoft_eq {mybe : MysqlBackend} {m : Nat} {ms : MysqlServer}
    (hmybe : st.sess.mybes[j]? = some mybe) (hm : mybe.mshge = some m)
    (hms : st.sh.msPtr m = .ok ms) :
    st.sess.onOfflineSoft st.sh j = true ↔ ms.status = .offlineSoft := by
  unfold Session.onOfflineSoft
  rw [hmybe]
  dsimp only
  rw [hm]
  dsimp only
  rw [hms]
  exact decide_eq_true_iff

theorem removeOfflineSoft_spared (hleads : LeadToServers st) (h : Spared st j) :
    Returns (removeOfflineSoft now j) (fun _ t => t = st) st := by
  obtain ⟨mybe, hmybe, hentry, halone⟩ := h
  obtain ⟨m, hm⟩ := ne_none_iff_exists'.1 hentry
  obtain ⟨ms, hms⟩ := hleads mybe (mem_of_getElem? hmybe) m hm
  rw [onOfflineSoft_eq hmybe hm hms] at halone
  unfold removeOfflineSoft
  rw [returns_bind, returns_getMybe hmybe, hm, returns_bind, deref, returns_lift_ok, returns_bind,
    returns_get]
  split
  · exact (returns_pure _ _ _).2 rfl
  · rw [returns_bind, returns_get, returns_bind, hms, returns_lift_ok]
    split
    · next hsoft =>
      obtain ⟨myds, hmyds, hspared⟩ := halone hsoft
      rw [hmyds, returns_bind, deref, returns_lift_ok, returns_bind, returns_get]
      split
      · exact (returns_pure _ _ _).2 rfl
      · next htrans =>
        obtain ⟨i, curBe, cur, hi, hne, hcurBe, hcur, hbytes⟩ := hspared.resolve_left htrans
        have hother : st.sess.serverMybe ≠ some j := by
          rw [hi]
          exact fun h => hne (some.inj h)
        rw [if_neg hother, hi, returns_bind, deref, returns_lift_ok, returns_bind,
          returns_getMybe hcurBe, hcur, returns_bind, deref, returns_lift_ok, returns_when,
          if_neg hbytes]
    · exact (returns_pure _ _ _).2 rfl

theorem ends_getMybe {i : Nat} {mybe : MysqlBackend} (h : Ends (getMybe i) st mybe u) :
    st.sess.mybes[i]? = some mybe ∧ u = st := by
  have hread := ends_get_bind.1 h
  split at hread
  · exact absurd hread not_ends_throw
  · next hmybe =>
    cases hread
    exact ⟨hmybe, rfl⟩

theorem ends_deref {α : Type} {o : Option α} {a : α} (h : Ends (liftM (deref o) : SessM α) st a u) :
    o = some a ∧ u = st := by
  obtain ⟨ho, rfl⟩ := Prod.mk.inj h
  exact ⟨deref_eq_ok.1 ho, rfl⟩

theorem bereset_resetAt (h : Ends (bereset j false now) st () u) : ResetAt u j := by
  refine h.of_wp (bereset_wp (Q := fun r t => r = .ok () → ResetAt t j) (fun _ h => nomatch h)
    fun mybe sh' mybe' hget hreset _ => ?_) rfl
  obtain rfl := backendReset_eq hreset
  exact ⟨_, getElem?_set_self (List.getElem?_eq_some_iff.1 hget).1, rfl⟩

theorem removeOfflineSoft_ends (hleads : LeadToServers st)
    (hround : Ends (removeOfflineSoft now j) st () u) : (u = st ∧ Spared st j) ∨ ResetAt u j := by
  obtain ⟨mybe, v, hget, hdo⟩ := ends_bind.1 hround
  obtain ⟨hmybe, hv⟩ := ends_getMybe hget
  rw [hv] at hdo
  obtain ⟨m, v, hderef, hdo⟩ := ends_bind.1 hdo
  obtain ⟨hm, hv⟩ := ends_deref hderef
  rw [hv] at hdo
  obtain ⟨ms, hms⟩ := hleads mybe (mem_of_getElem? hmybe) m hm
  have hspared : (ms.status = .offlineSoft → mybe.LeftAlone st.sess j) → Spared st j := by
    intro halone
    refine ⟨mybe, hmybe, ?_, fun hsoft => halone ((onOfflineSoft_eq hmybe hm hms).1 hsoft)⟩
    rw [hm]
    exact some_ne_none m
  have hdo := ends_get_bind.1 hdo
  split at hdo
  · next hnull =>
    -- an entry that leads to a server has one
    rw [Shared.msPtr, hnull] at hms
    cases hms
  · have hdo := ends_get_bind.1 hdo
    obtain ⟨ms', v, hserver, hdo⟩ := ends_bind.1 hdo
    obtain ⟨hms', hv⟩ := Prod.mk.inj hserver
    obtain rfl := Except.ok.inj (hms.symm.trans hms')
    rw [← hv] at hdo
    split at hdo
    · next hsoft =>
      obtain ⟨myds, v, hderef, hdo⟩ := ends_bind.1 hdo
      obtain ⟨hmyds, hv⟩ := ends_deref hderef
      rw [hv] at hdo
      have hdo := ends_get_bind.1 hdo
      dsimp only at hdo
      split at hdo
      · next htrans =>
        obtain ⟨-, hu⟩ := ends_pure.1 hdo
        exact .inl ⟨hu.symm, hspared fun _ => ⟨myds, hmyds, .inl htrans⟩⟩
      · split at hdo
        · exact .inr (bereset_resetAt hdo)
        · next hother =>
          obtain ⟨i, v, hderef, hdo⟩ := ends_bind.1 hdo
          obtain ⟨hi, hv⟩ := ends_deref hderef
          rw [hv] at hdo
          obtain ⟨curBe, v, hget, hdo⟩ := ends_bind.1 hdo
          obtain ⟨hcurBe, hv⟩ := ends_getMybe hget
          rw [hv] at hdo
          obtain ⟨cur, v, hderef, hdo⟩ := ends_bind.1 hdo
          obtain ⟨hcur, hv⟩ := ends_deref hderef
          rw [hv] at hdo
          unfold when at hdo
          split at hdo
          · exact .inr (bereset_resetAt hdo)
          · next hbytes =>
            obtain ⟨-, hu⟩ := ends_pure.1 hdo
            have hne : i ≠ j := fun hij => hother (by rw [hi, hij])
            exact .inl ⟨hu.symm, hspared fun _ =>
              ⟨myds, hmyds, .inr ⟨i, curBe, cur, hi, hne, hcurBe, hcur, hbytes⟩⟩⟩
    · next hhard =>
      obtain ⟨-, hu⟩ := ends_pure.1 hdo
      exact .inl ⟨hu.symm, hspared fun hsoft => absurd hsoft hhard⟩

theorem removeOfflineSoft_resetAt (j j' : Nat) :
    Keeps (fun u => ResetAt u j) (removeOfflineSoft now j') := by
  refine removeOfflineSoft_keeps fun st _ _ _ _ hst _ _ _ _ _ _ => ?_
  refine bereset_wp (fun _ => hst) fun mybe sh' mybe' hget hreset => ?_
  obtain rfl := backendReset_eq hreset
  obtain ⟨old, hold, hnone⟩ := hst
  by_cases hj : j' = j
  · subst hj
    exact ⟨_, getElem?_set_self (List.getElem?_eq_some_iff.1 hget).1, rfl⟩
  · exact ⟨old, (getElem?_set_ne hj).trans hold, hnone⟩

end Backend

/-! ## The two loops -/

section Loops

variable {st t u : St} {now : Nat → Nat}

/-- The number of backends on OFFLINE_SOFT servers. -/
def softCount (st : St) : Nat :=
  ((range st.sh.glovars.mysqlHostgroups).map fun j => st.sess.onOfflineSoft st.sh j).count true

theorem removeLoop_ends (hleads : LeadToServers st) {js : List Nat}
    (h : Ends (js.forM (removeOfflineSoft now)) st ⟨⟩ u) : (u = st ∧ ∀ j ∈ js, Spared st j) ∨
    ∃ j ∈ js, ResetAt u j := by
  induction js with
  | nil =>
    cases h
    exact .inl ⟨rfl, fun _ hj => nomatch hj⟩
  | cons j js ih =>
    obtain ⟨⟨⟩, v, hround, hrest⟩ := ends_bind.1 h
    rcases removeOfflineSoft_ends hleads hround with ⟨rfl, hspared⟩ | hreset
    · rcases ih hrest with ⟨rfl, hall⟩ | ⟨j', hj', hreset⟩
      · exact .inl ⟨rfl, forall_mem_cons.2 ⟨hspared, hall⟩⟩
      · exact .inr ⟨j', mem_cons_of_mem _ hj', hreset⟩
    · have hkeeps : Keeps (fun u => ResetAt u j) (js.forM (removeOfflineSoft now)) :=
        Keeps.forM fun j' _ => removeOfflineSoft_resetAt j j'
      exact .inr ⟨j, mem_cons_self, hkeeps.ends hrest hreset⟩

theorem isOfflineSoft_spared (hleads : LeadToServers st) {j : Nat} (h : Spared st j) :
    Returns (isOfflineSoft j) (fun b t => t = st ∧ b = st.sess.onOfflineSoft st.sh j) st := by
  obtain ⟨mybe, hmybe, hentry, -⟩ := h
  obtain ⟨m, hm⟩ := ne_none_iff_exists'.1 hentry
  obtain ⟨ms, hms⟩ := hleads mybe (mem_of_getElem? hmybe) m hm
  have hreturns : Returns (isOfflineSoft j) (fun _ _ => True) st := by
    unfold isOfflineSoft
    rw [returns_bind, returns_getMybe hmybe, hm, returns_bind, deref, returns_lift_ok, returns_bind,
      returns_get]
    split
    · exact (returns_pure _ _ _).2 trivial
    · rw [returns_bind, returns_get, returns_bind, hms, returns_lift_ok]
      exact (returns_pure _ _ _).2 trivial
  refine (hreturns.and_wp (isOfflineSoft_wp j st)).mono fun b t h => ⟨h.2.1, (h.2.2 b rfl).1⟩

/-- The function returns exactly if it has nothing to do. -/
theorem removeAllBackendsOfflineSoft_ends_iff (hleads : LeadToServers st) {c : Nat} :
    Ends (removeAllBackendsOfflineSoft now) st c t ↔
      (∀ j < st.sh.glovars.mysqlHostgroups, Spared st j) ∧ t = st ∧ c = softCount st := by
  constructor
  · intro h
    have h := ends_get_bind.1 h
    obtain ⟨⟨⟩, u, hloop, hcounted⟩ := ends_bind.1 h
    obtain ⟨soft, v, hcount, hret⟩ := ends_bind.1 hcounted
    cases hret
    obtain ⟨rfl, hread⟩ := hcount.of_wp (wp_mapM_reads fun j _ => isOfflineSoft_wp j u)
    obtain ⟨rfl, hall⟩ := hread soft rfl
    rcases removeLoop_ends hleads hloop with ⟨rfl, hspared⟩ | ⟨j, hj, mybe, hmybe, hnone⟩
    · exact ⟨fun j hj => hspared j (mem_range.2 hj), rfl, rfl⟩
    · -- the count does not get past a backend that was reset
      obtain ⟨mybe', hmybe', hsome⟩ := hall j hj
      obtain rfl := some.inj (hmybe.symm.trans hmybe')
      exact absurd hnone hsome
  · rintro ⟨hspared, rfl, rfl⟩
    have hloop : Returns ((range t.sh.glovars.mysqlHostgroups).forM (removeOfflineSoft now))
      (fun _ u => u = t) t := by
      refine Returns.forM (fun j hj u hu => ?_) rfl
      subst hu
      exact removeOfflineSoft_spared hleads (hspared j (mem_range.1 hj))
    have hcount : Returns ((range t.sh.glovars.mysqlHostgroups).mapM isOfflineSoft)
      (fun soft u => u = t ∧
        soft = (range t.sh.glovars.mysqlHostgroups).map fun j => t.sess.onOfflineSoft t.sh j) t :=
      Returns.mapM_reads fun j hj => isOfflineSoft_spared hleads (hspared j (mem_range.1 hj))
    have hreturns : Returns (removeAllBackendsOfflineSoft now) (fun c u => u = t ∧
      c = softCount t) t := by
      unfold removeAllBackendsOfflineSoft
      rw [returns_bind, returns_get]
      refine hloop.bind fun _ u hu => ?_
      subst hu
      refine hcount.bind fun soft u hu => ?_
      obtain ⟨rfl, rfl⟩ := hu
      exact (returns_pure _ _ _).2 ⟨rfl, rfl⟩
    obtain ⟨c, u, hends, rfl, rfl⟩ := hreturns.exists_ends
    exact hends

end Loops

/-! ## Reachable sessions -/

section Reachable

variable {g : Glovars} {md5 : List Byte → Str} {scramble : List Byte → Str → List Byte} {w : World}
  {es : List Event} {i : Nat} {s : Session}

theorem leadToServers_of_run (hrun : Run WorldStep (World.init g md5 scramble) es w)
    (hs : w.sessions[i]? = some s) : LeadToServers { sh := w.sh, sess := s } := by
  have hw : w.Wired g.mysqlHostgroups :=
    hrun.invariant (P := World.Wired g.mysqlHostgroups) (fun _ _ _ hstep hw => hw.step hstep)
      (.init g md5 scramble)
  intro mybe hmybe m hm
  have hlt := (hw.backends s (mem_of_getElem? hs) mybe hmybe).entry m hm
  obtain ⟨ms, hms, -⟩ := hw.inOrder.entries.msPtr hlt
  exact ⟨ms, hms⟩

/-- In every reachable state, `remove_all_backends_offline_soft` completes exactly if every backend
    has its entry and none is to be removed.  An entry that was freed is read as if it had been
    kept. -/
theorem removal_completes_iff (hrun : Run WorldStep (World.init g md5 scramble) es w)
    (hs : w.sessions[i]? = some s) (now : Nat → Nat) :
    Returns (removeAllBackendsOfflineSoft now) (fun _ _ => True) { sh := w.sh, sess := s } ↔
      ∀ j < w.sh.glovars.mysqlHostgroups, Spared { sh := w.sh, sess := s } j := by
  have hleads := leadToServers_of_run hrun hs
  constructor
  · intro hreturns
    obtain ⟨c, t, hends, -⟩ := hreturns.exists_ends
    exact ((removeAllBackendsOfflineSoft_ends_iff hleads).1 hends).1
  · intro hspared
    have hends := (@removeAllBackendsOfflineSoft_ends_iff _ _ now hleads _).2 ⟨hspared, rfl, rfl⟩
    exact (Returns.iff_of_ends hends).2 trivial

end Reachable

/-- The rule that sends the queries ending in `2` to hostgroup 1. -/
def toSecond : QueryRule :=
  { flagIN := 0, username := none, schemaname := none,
    regexMatch := fun query => query.getLast? == some 0x32,
    negateMatchPattern := 0, flagOUT := 0, replace := none, destinationHostgroup := 1,
    auditLog := 0,
    performanceLog := 0, cacheTtl := -1 }

/-- `oneServer` with `toSecond` loaded. -/
def ruledServer : World := { oneServer with sh := { oneServer.sh with queryRules := [toSecond] } }

theorem ruledServer_step : WorldStep oneServer (.reconfigure ruledServer.sh) ruledServer :=
  .reconfigure (by constructor <;> constructor <;> rfl)

/-- The server is in both hostgroups. -/
def dbRows (status : MysqlServerStatus) : List ServerRow :=
  [{ dbRow with status := status }, { dbRow with hostgroupId := 1, status := status }]

/-- A client sends a query to each hostgroup, and each is answered with the given status flags.
    Then the server is made OFFLINE_SOFT. -/
def softened (flags : Byte) : List Event :=
  (.flushHostgroups (dbRows .online) :: loginSteps 0 : List Event) ++ querySteps 0 0 "SELECT 1" ++
    okSteps 0 flags ++
    querySteps 0 1 "SELECT 2" ++ okSteps 0 flags ++
    ([.flushHostgroups (dbRows .offlineSoft)] : List Event)

/-- The backend for hostgroup `j` has an entry, whose server is OFFLINE_SOFT. -/
def SoftAt (w : World) (s : Session) (j : Nat) : Prop :=
  (∃ mybe ∈ s.mybes[j]?, mybe.mshge ≠ none) ∧ s.onOfflineSoft w.sh j = true

instance (w : World) (s : Session) (j : Nat) : Decidable (SoftAt w s j) := instDecidableAnd

/-- The backend for hostgroup `j` is in a transaction. -/
def InTransactionAt (s : Session) (j : Nat) : Prop :=
  ∃ mybe ∈ s.mybes[j]?, ∃ myds ∈ mybe.serverMyds, myds.activeTransaction = true

instance (s : Session) (j : Nat) : Decidable (InTransactionAt s j) := by
  unfold InTransactionAt
  infer_instance

set_option maxRecDepth 4000 in
/-- A client with a transaction on each of its backends, whose server is made OFFLINE_SOFT. -/
theorem exists_softInTransaction :
    ∃ es w s, Run WorldStep oneServer es w ∧ w.sessions[0]? = some s ∧
    w.sh.glovars.mysqlHostgroups = 2 ∧
      ∀ j < w.sh.glovars.mysqlHostgroups, SoftAt w s j ∧ InTransactionAt s j := by
  obtain ⟨w, s, hrun, hs, h⟩ := World.exists_run ruledServer (softened 3) 0
    (fun w s => w.sh.glovars.mysqlHostgroups = 2 ∧ ∀ j < w.sh.glovars.mysqlHostgroups,
      SoftAt w s j ∧ InTransactionAt s j)
    (by decide +kernel)
  exact ⟨_, w, s, .cons ruledServer_step hrun, hs, h⟩

/-- Backends in a transaction are left alone. -/
theorem removal_completes_in_transaction :
    ∃ es w s, Run WorldStep oneServer es w ∧ w.sessions[0]? = some s ∧
      w.sh.glovars.mysqlHostgroups = 2 ∧ (∀ j < w.sh.glovars.mysqlHostgroups, SoftAt w s j) ∧
      Returns (removeAllBackendsOfflineSoft fun _ => 0) (fun _ _ => True)
        { sh := w.sh, sess := s } := by
  obtain ⟨es, w, s, hrun, hs, hhostgroups, hsoft⟩ := exists_softInTransaction
  refine ⟨es, w, s, hrun, hs, hhostgroups, fun j hj => (hsoft j hj).1,
    (removal_completes_iff hrun hs _).2 fun j hj => ?_⟩
  obtain ⟨⟨⟨mybe, hmybe, hentry⟩, -⟩, mybe', hmybe', myds, hmyds, htrans⟩ := hsoft j hj
  obtain rfl := some.inj (hmybe.symm.trans hmybe')
  exact ⟨mybe, hmybe, hentry, fun _ => ⟨myds, hmyds, .inl htrans⟩⟩

set_option maxRecDepth 4000 in
/-- A client that has just connected has no backend, and the first `mshge` is followed all the
    same. -/
theorem removal_faults_at_once :
    ∃ es w s, Run WorldStep oneServer es w ∧ w.sessions[0]? = some s ∧ s.healthy = true ∧
      (outcome (removeAllBackendsOfflineSoft fun _ => 0) { sh := w.sh, sess := s }).1 =
      .error .nullDereference := by
  obtain ⟨w, s, h⟩ := World.exists_run oneServer (.flushHostgroups [dbRow] :: loginSteps 0) 0
    (fun w s => s.healthy = true ∧
      (outcome (removeAllBackendsOfflineSoft fun _ => 0) { sh := w.sh, sess := s }).1 =
      .error .nullDereference)
    (by decide +kernel)
  exact ⟨_, w, s, h⟩

/-! ## What is removed -/

/-- The backend for hostgroup `j` is in no transaction, and its connection, if it has one, has no
    command outstanding. -/
def IdleAt (st : St) (j : Nat) : Prop :=
  ∃ mybe, st.sess.mybes[j]? = some mybe ∧
    (∀ myds, mybe.serverMyds = some myds → myds.activeTransaction = false) ∧
    ∀ c, mybe.serverMycpe = some c → (st.sh.conns c).Idle

/-- The backends of `st` that are idle on OFFLINE_SOFT servers, and no others, are new in `t`, the
    rest is unchanged, and `c` backends of `t` are on OFFLINE_SOFT servers. -/
structure RemovesIdle (st : St) (c : Nat) (t : St) : Prop where
  removed : ∀ j < st.sh.glovars.mysqlHostgroups, st.sess.onOfflineSoft st.sh j = true →
    (t.sess.mybes[j]? = some mysqlBackendNew ↔ IdleAt st j)
  kept : ∀ j < st.sh.glovars.mysqlHostgroups, ¬(st.sess.onOfflineSoft st.sh j = true ∧
    IdleAt st j) → t.sess.mybes[j]? = st.sess.mybes[j]?
  count : c = softCount t

theorem removesIdle_self {st : St}
    (hentries : ∀ j < st.sh.glovars.mysqlHostgroups, ∃ mybe, st.sess.mybes[j]? = some mybe ∧
      mybe.mshge ≠ none) :
    RemovesIdle st (softCount st) st ↔
      ∀ j < st.sh.glovars.mysqlHostgroups, st.sess.onOfflineSoft st.sh j = true → ¬IdleAt st j := by
  have hstays : ∀ j < st.sh.glovars.mysqlHostgroups, st.sess.mybes[j]? ≠ some mysqlBackendNew := by
    intro j hj hnew
    obtain ⟨mybe, hmybe, hentry⟩ := hentries j hj
    obtain rfl := some.inj (hmybe.symm.trans hnew)
    exact hentry rfl
  constructor
  · intro h j hj hsoft hidle
    exact hstays j hj ((h.removed j hj hsoft).2 hidle)
  · intro h
    exact ⟨fun j hj hsoft => iff_of_false (hstays j hj) (h j hj hsoft), fun _ _ _ => rfl, rfl⟩

/-- In every reachable state in which all backends have an entry, the idle backends on OFFLINE_SOFT
    servers are removed exactly if there are none and the others on such servers are left alone. -/
theorem removal_removesIdle_iff {g : Glovars} {md5 : List Byte → Str}
    {scramble : List Byte → Str → List Byte} {w : World} {es : List Event}
    (hrun : Run WorldStep (World.init g md5 scramble) es w) {i : Nat} {s : Session}
    (hs : w.sessions[i]? = some s)
    (hentries : ∀ j < w.sh.glovars.mysqlHostgroups, ∃ mybe, s.mybes[j]? = some mybe ∧
      mybe.mshge ≠ none) (now : Nat → Nat) :
    Returns (removeAllBackendsOfflineSoft now) (RemovesIdle { sh := w.sh, sess := s })
      { sh := w.sh, sess := s } ↔
      ∀ j < w.sh.glovars.mysqlHostgroups, s.onOfflineSoft w.sh j = true →
        ¬IdleAt { sh := w.sh, sess := s } j ∧ ∃ mybe, s.mybes[j]? = some mybe ∧
        mybe.LeftAlone s j := by
  have hleads := leadToServers_of_run hrun hs
  constructor
  · intro hreturns j hj hsoft
    obtain ⟨c, t, hends, hremoves⟩ := hreturns.exists_ends
    obtain ⟨hspared, rfl, rfl⟩ := (removeAllBackendsOfflineSoft_ends_iff hleads).1 hends
    obtain ⟨mybe, hmybe, -, halone⟩ := hspared j hj
    exact ⟨(removesIdle_self hentries).1 hremoves j hj hsoft, mybe, hmybe, halone hsoft⟩
  · intro h
    have hspared : ∀ j < w.sh.glovars.mysqlHostgroups, Spared { sh := w.sh, sess := s } j := by
      intro j hj
      obtain ⟨mybe, hmybe, hentry⟩ := hentries j hj
      refine ⟨mybe, hmybe, hentry, fun hsoft => ?_⟩
      obtain ⟨-, mybe', hmybe', halone⟩ := h j hj hsoft
      obtain rfl := some.inj (hmybe.symm.trans hmybe')
      exact halone
    have hends := (@removeAllBackendsOfflineSoft_ends_iff _ _ now hleads _).2 ⟨hspared, rfl, rfl⟩
    exact (Returns.iff_of_ends hends).2 ((removesIdle_self hentries).2 fun j hj hsoft =>
      (h j hj hsoft).1)

/-- The backends in a transaction are those that are still on an OFFLINE_SOFT server. -/
theorem removal_removesIdle_in_transaction :
    ∃ es w s, Run WorldStep oneServer es w ∧ w.sessions[0]? = some s ∧
      w.sh.glovars.mysqlHostgroups = 2 ∧ (∀ j < w.sh.glovars.mysqlHostgroups, SoftAt w s j) ∧
      Returns (removeAllBackendsOfflineSoft fun _ => 0) (RemovesIdle { sh := w.sh, sess := s })
        { sh := w.sh, sess := s } := by
  obtain ⟨es, w, s, hrun, hs, hhostgroups, hsoft⟩ := exists_softInTransaction
  have hentries : ∀ j < w.sh.glovars.mysqlHostgroups, ∃ mybe, s.mybes[j]? = some mybe ∧
    mybe.mshge ≠ none :=
    fun j hj => (hsoft j hj).1.1
  refine ⟨es, w, s, hrun, hs, hhostgroups, fun j hj => (hsoft j hj).1,
    (removal_removesIdle_iff hrun hs hentries _).2 fun j hj _ => ?_⟩
  obtain ⟨-, mybe, hmybe, myds, hmyds, htrans⟩ := hsoft j hj
  refine ⟨?_, mybe, hmybe, myds, hmyds, .inl htrans⟩
  rintro ⟨mybe', hmybe', hnone, -⟩
  obtain rfl := some.inj (hmybe.symm.trans hmybe')
  rw [hnone myds hmyds] at htrans
  cases htrans

instance (st : St) (j : Nat) : Decidable (IdleAt st j) := by
  unfold IdleAt
  infer_instance

set_option maxRecDepth 4000 in
/-- Both backends are idle, and their server is made OFFLINE_SOFT: one is reset, and the count
    follows the entry it had. -/
theorem removal_faults_after_reset :
    ∃ es w s, Run WorldStep oneServer es w ∧ w.sessions[0]? = some s ∧
    w.sh.glovars.mysqlHostgroups = 2 ∧
      s.serverMybe = some 1 ∧ (∀ j < w.sh.glovars.mysqlHostgroups, SoftAt w s j ∧
        IdleAt { sh := w.sh, sess := s } j) ∧
      (outcome (removeAllBackendsOfflineSoft fun _ => 0) { sh := w.sh, sess := s }).1 =
      .error .nullDereference := by
  obtain ⟨w, s, hrun, hs, h⟩ := World.exists_run ruledServer (softened 2) 0
    (fun w s => w.sh.glovars.mysqlHostgroups = 2 ∧ s.serverMybe = some 1 ∧
      (∀ j < w.sh.glovars.mysqlHostgroups, SoftAt w s j ∧ IdleAt { sh := w.sh, sess := s } j) ∧
      (outcome (removeAllBackendsOfflineSoft fun _ => 0) { sh := w.sh, sess := s }).1 =
      .error .nullDereference)
    (by decide +kernel)
  exact ⟨_, w, s, .cons ruledServer_step hrun, hs, h⟩

end ProxySQL
