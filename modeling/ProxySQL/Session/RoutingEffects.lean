/-
  ProxySQL.Session.RoutingEffects

  What the code of a session can do to the data that routes its commands: the
  loaded tables, and of the session the user, the schema and the cached default
  hostgroup.

  Nothing touches the tables.  Commands that are not routed by a rule may refresh
  the cached hostgroup; a change of user or of schema by the client drops it.
  Everything else leaves the data alone, and is shown to do so function by
  function.
-/
import ProxySQL.Session.Steps
import ProxySQL.Session.BackendSpec

namespace ProxySQL

open Lib

/-! ## The tables -/

/-- The configuration and the two tables that route commands. -/
def Shared.tables (sh : Shared) : Glovars × DefHG × List QueryRule :=
  (sh.glovars, sh.gloDefHG, sh.queryRules)

section Tables

variable {sh sh' : Shared}

theorem tables_of_unpooled (h : sh'.unpooled = sh.unpooled) : sh'.tables = sh.tables :=
  congrArg (fun x => (x.1, x.2.1, x.2.2.1)) h

theorem backendReset_tables {mybe mybe' : MysqlBackend} {fc : Bool} {now : Nat → Nat}
    (h : backendReset sh mybe fc now = .ok (sh', mybe')) : sh'.tables = sh.tables := by
  have hdrop : (dropActive sh mybe.mshge).tables = sh.tables := by
    unfold dropActive
    split
    · rfl
    · split
      · rfl
      · rfl
  exact (tables_of_unpooled (resetServerMycpe_unpooled h)).trans hdrop

theorem tables_flush : FlushRule fun sh sh' => sh'.tables = sh.tables where
  refl _ := rfl
  trans h h' := h'.trans h
  reset sh i := by
    unfold resetHostgroup
    split
    · rfl
    · rfl
  load := by
    refine loadServer_of_parts (R := fun sh sh' => sh'.tables = sh.tables) (fun h h' => h'.trans h)
      (fun _ _ => rfl) fun sh i hg => ?_
    unfold mysqlServerEntryAddHostgroup
    split
    · rfl
    · split
      · rfl
      · rfl

theorem flushServersDbToMem_tables (sh : Shared) (rows : List ServerRow) :
    (flushServersDbToMem sh rows).tables = sh.tables := tables_flush.flush sh rows

theorem Creates.tables {cred : Credentials} {env : ConnectEnv} {fill : Nat → Byte} {hg n : Nat}
    {mybe mybe' : MysqlBackend} {rc : CreateResult}
    (h : Creates cred env fill hg n sh mybe sh' mybe' rc) : sh'.tables = sh.tables := by
  have hflushed : ∀ (attempt : Nat) (sh : Shared), (env.flushed attempt sh).tables = sh.tables :=
    tables_flush.flushed env
  have hattach : ∀ {sh sh' : Shared} {mybe mybe' : MysqlBackend} {m : Nat} {fd : Int},
      attachMyds sh mybe fill m fd = (sh', mybe') → sh'.tables = sh.tables := by
    intro sh sh' mybe mybe' m fd h
    obtain ⟨mshges, myds, heq, -⟩ := attachMyds_eq sh mybe fill m fd
    obtain ⟨rfl, -⟩ := Prod.mk.inj (heq.symm.trans h)
    rfl
  induction h with
  | exhausted => rfl
  | noServer => rfl
  | kept _ _ hat => exact hattach hat
  | taken _ _ _ hget hat =>
    rw [hattach hat, hflushed]
    exact tables_of_unpooled (getConnection_unpooled hget)
  | failed _ _ _ hget =>
    rw [hflushed]
    exact tables_of_unpooled (getConnection_unpooled hget)
  | retry _ _ _ hget _ ih =>
    rw [ih, hflushed]
    exact tables_of_unpooled (getConnection_unpooled hget)

theorem wireChanges_tables : WireChanges fun sh sh' => sh'.tables = sh.tables where
  refl _ := rfl
  conn _ _ _ := rfl
  reset := backendReset_tables
  detach h := tables_of_unpooled (backendDetach_unpooled h)
  create h := (createBackendFrom_creates h).tables

end Tables

/-! ## The session's part -/

/-- From `st` to `t` nothing that routes commands has changed. -/
def RouteKept (st t : St) : Prop :=
  t.sess.routeData = st.sess.routeData ∧ t.sh.tables = st.sh.tables ∧
    (t.sess.healthy = true → st.sess.healthy = true)

theorem RouteKept.refl (st : St) : RouteKept st st := ⟨rfl, rfl, id⟩

section Kept

variable {st₀ : St}

theorem routeKept_unwired : UnwiredBy (fun sh sh' => sh'.tables = sh.tables) (RouteKept st₀) :=
  fun _ _ _ htables h => ⟨h.1, htables.trans h.2.1, h.2.2⟩

theorem routeKept_still : StillStable (fun _ => True) (RouteKept st₀) where
  sess h hs := ⟨hs.routeData.trans h.1, h.2.1, hs.healthy ▸ h.2.2⟩
  record h _ := h

theorem routeKept_netStable : NetStable (RouteKept st₀) where
  client _ _ _ _ h := h
  server _ _ _ _ _ h _ _ := h
  ledger _ _ _ _ _ h _ _ := h

/-! ### Forwarding -/

theorem forwardTo_route (hg : Nat) (p : Pkt) (env : PktEnv) :
    Keeps (RouteKept st₀) (forwardTo hg p env) :=
  fun _ => forwardTo_wp routeKept_still routeKept_still (fun _ h => h) trivial
    (routeKept_unwired.keepsBackends wireChanges_tables env hg) (.modify fun _ h => h)
    (routeKept_unwired.mySessAddPktOutServer wireChanges_tables hg p _)

/-! ### Answers of a server -/

theorem cacheResult_route (room : Bool) (fill : Nat → Byte) :
    Keeps (RouteKept st₀) (cacheResult room fill) := by
  refine Keeps.get.bind fun st => Keeps.when fun _ => (Keeps.lift _).bind fun fed =>
    Keeps.when fun _ => ?_
  exact Keeps.modify fun _ h => h

theorem completeResultset_route (env : SrvEnv) : Keeps (RouteKept st₀) (completeResultset env) := by
  refine Keeps.get.bind fun st => .bind (.modify fun _ h => h) fun _ => ?_
  refine .bind (.when fun _ => queryStatisticsSet_keeps routeKept_still) fun _ => ?_
  refine (syncServerBytesAtCmd_keeps routeKept_still).bind fun _ => ?_
  refine .bind (.modify fun _ h => h) fun _ => (cacheResult_route _ _).bind fun _ => ?_
  refine .modify fun st h => ?_
  unfold flushResultset
  split
  · exact h
  · exact h

theorem serverComQuery_route (p : Pkt) (r : MysqlResponseType) (env : SrvEnv) :
    Keeps (RouteKept st₀) (serverComQuery p r env) := by
  have hdetach : Keeps (RouteKept st₀) (detachBackends env.now) :=
    detachBackends_keeps fun i => routeKept_unwired.bedetach wireChanges_tables i env.now
  refine Keeps.get.bind fun st => .bind (.modify fun _ h => h) fun _ => ?_
  refine .bind (.when fun _ => hdetach) fun _ => .bind (.modify fun st h => ?_) fun _ => ?_
  · unfold collect
    dsimp only
    split
    · exact h
    · exact h
  · exact .when fun _ => completeResultset_route env

/-- An answer to anything but COM_INIT_DB, or one that is no OK packet. -/
theorem answerPkt_route {st : St} {p : Pkt} {r : MysqlResponseType} {env : SrvEnv}
    (hother : st.sess.clientCommand = mysqlComInitDb → r ≠ .okPacket) :
    wp (answerPkt p r env) (fun _ t => RouteKept st t) st := by
  have hout : Keeps (RouteKept st) (mySessAddPktOutClient p) :=
    mySessAddPktOutClient_keeps routeKept_still p
  unfold answerPkt
  rw [wp_get_bind]
  dsimp only
  split
  · exact Keeps.when (fun _ => hout) st (.refl st)
  · split
    · next hinit =>
      refine (?_ : Keeps (RouteKept st) (serverComInitDb p r)) st (.refl st)
      refine (routeKept_unwired.forgetConnpool wireChanges_tables).bind fun _ => ?_
      refine .bind (.when fun hok => absurd hok (hother hinit)) fun _ => ?_
      refine .bind (.when fun _ => hout) fun _ => .bind (.modify fun _ h => h) fun _ => ?_
      exact syncServerBytesAtCmd_keeps routeKept_still
    · split
      · exact hout.bind (fun _ => syncServerBytesAtCmd_keeps routeKept_still) st (.refl st)
      · split
        · exact serverComQuery_route p r env st (.refl st)
        · exact hout st (.refl st)

/-! ### Client packets -/

/-- From `st` to `t` neither what routes commands has changed nor where the packet goes. -/
def DirectionKept (st t : St) : Prop := RouteKept st t ∧ t.sess.direction = st.sess.direction

theorem DirectionKept.refl (st : St) : DirectionKept st st := ⟨.refl st, rfl⟩

theorem directionKept_still : StillStable (fun _ => True) (DirectionKept st₀) where
  sess h hs := ⟨routeKept_still.sess h.1 hs, hs.direction.trans h.2⟩
  record h _ := h

theorem directionKept_unwired :
    UnwiredBy (fun sh sh' => sh'.tables = sh.tables) (DirectionKept st₀) :=
  fun st sh mybes htables h => ⟨routeKept_unwired st sh mybes htables h.1, h.2⟩

theorem computeQueryChecksum_direction : Keeps (DirectionKept st₀) computeQueryChecksum :=
  computeQueryChecksum_keeps fun _ _ h => h

theorem disconnectBackends_direction (now : Nat → Nat) :
    Keeps (DirectionKept st₀) (disconnectBackends now) :=
  disconnectBackends_keeps directionKept_still fun i =>
    directionKept_unwired.bereset wireChanges_tables i false now

end Kept

end ProxySQL
