/-
  ProxySQL.Session.PoolIdle

  Whether connections in the pools are idle.

  No function that gives a connection back looks at what was sent over it: a
  session that is closed, selects another schema or user, or leaves an
  OFFLINE_SOFT server resets its backends while a response may be on its way.
  So free connections are idle in the runs in which a backend that gives its
  connection to a pool has nothing outstanding then, and a client that
  disconnects before it has its answer leaves the answer to the next client.
-/
import ProxySQL.Session.Pooled

namespace ProxySQL

open Lib List

/-- Every command queued for the connection was sent, and its response was received. -/
def MysqlCpEntry.Idle (mc : MysqlCpEntry) : Prop := ∀ o ∈ mc.pending, o.unsent = 0 ∧ o.unreceived = 0

instance (mc : MysqlCpEntry) : Decidable mc.Idle := by
  unfold MysqlCpEntry.Idle
  infer_instance

theorem idle_trackable : Trackable MysqlCpEntry.Idle where
  congr {mc mc'} hlasting hidle := by
    have hpending : mc'.pending = mc.pending := congrArg (·.1) hlasting
    rw [MysqlCpEntry.Idle, hpending]
    exact hidle
  new {mc} hpending _ := by
    rw [MysqlCpEntry.Idle, hpending]
    exact nofun

/-- In every run in which backends have nothing outstanding when they give their connections to a
    pool, free connections are idle; so they are after a step that the process does not survive. -/
theorem pooled_idle {g : Glovars} {md5 : List Byte → Str} {scramble : List Byte → Str → List Byte}
    {w : World} {es : List Event}
    (hrun : Run (Guarded WorldStep (PoolsGood MysqlCpEntry.Idle)) (World.init g md5 scramble) es w) :
    (∀ c ∈ w.sh.free, (w.sh.conns c).Idle) ∧
      ∀ i s e, w.sessions[i]? = some s → PoolsGood MysqlCpEntry.Idle w (.session i e) →
        ∀ c ∈ (outcome e.prog { sh := w.sh, sess := s }).2.sh.free,
          ((outcome e.prog { sh := w.sh, sess := s }).2.sh.conns c).Idle := by
  have hw := World.Pooled.run idle_trackable hrun (.init g md5 scramble)
  exact ⟨hw.good, fun i s e hs hG => (hw.outcome idle_trackable hs hG).good⟩

/-- Steps in which connections may be given back. -/
def SessEvent.mayRelease : SessEvent → Bool
  | .dispatch _ | .forward _ _ _ | .answer _ _ _ | .close _ | .removeOfflineSoft _ => true
  | _ => false

/-- No backend of any session has anything outstanding, or the step gives no connection back. -/
def World.idleBackends (w : World) : Event → Bool
  | .session _ e => !e.mayRelease || w.sessions.all fun s => s.mybes.all fun mybe =>
      mybe.held.all fun c => decide (w.sh.conns c).Idle
  | _ => true

theorem poolsGood_of_idleBackends (w : World) (e : Event) (h : w.idleBackends e = true) :
    PoolsGood MysqlCpEntry.Idle w e := by
  cases e with
  | session i e =>
    intro s mybe hs hrel c hc
    rw [World.idleBackends, Bool.or_eq_true] at h
    rcases h with hnot | hall
    · -- the other steps give nothing back
      cases e with
      | dispatch | forward | answer | close | removeOfflineSoft => cases hnot
      | _ => exact hrel.elim
    · have hs' := all_eq_true.1 hall s (mem_of_getElem? hs)
      have hheld : c ∈ mybe.held := by
        rw [MysqlBackend.held, hc]
        exact mem_singleton.2 rfl
      exact of_decide_eq_true (all_eq_true.1 (all_eq_true.1 hs' mybe hrel.mem) c hheld)
  | accept | delete | flushHostgroups | reconfigure => trivial

set_option maxRecDepth 4000 in
/-- A client whose query was answered disconnects. -/
theorem pooled_idle_query :
    ∃ es w, Run (Guarded WorldStep (PoolsGood MysqlCpEntry.Idle)) oneServer es w ∧ w.sh.free = [0] ∧
      (w.sh.conns 0).pending = [{ unsent := 0, unreceived := 0 }] ∧
      ∀ c ∈ w.sh.free, (w.sh.conns c).Idle := by
  obtain ⟨w, hrun, hfree, hpending⟩ := Run.exists_guarded_exec World.step oneServer
    (.flushHostgroups [dbRow] :: loginSteps 0 ++ querySteps 0 0 "SELECT 1" ++ okSteps 0 2 ++
      [.session 0 (.close fun _ => 0)])
    (P := fun w => w.sh.free = [0] ∧ (w.sh.conns 0).pending = [{ unsent := 0, unreceived := 0 }])
    World.worldStep_of_step poolsGood_of_idleBackends (by decide +kernel)
  exact ⟨_, w, hrun, hfree, hpending, (pooled_idle hrun).1⟩

/-- A client sends a query that the server will answer with eleven bytes. -/
def HandlerEnv.sendsQuery (query : String) : HandlerEnv :=
  { HandlerEnv.fromClient (queryPkt query) with client := fun _ => { PktEnv.quiet with response := 11 } }

set_option maxRecDepth 4000 in
/-- A client disconnects after its query was sent to the server and before the answer is there: its
    connection enters a pool, and whoever takes it reads the answer. -/
theorem pooled_with_response_outstanding :
    ∃ es w, Run WorldStep oneServer es w ∧ w.sh.free = [0] ∧
      (w.sh.conns 0).pending = [{ unsent := 0, unreceived := 11 }] := by
  exact World.exists_calls oneServer
    (.flushHostgroups [dbRow] :: login 0 ++
      [.poll 0, .handle 0 (.sendsQuery "SELECT 1"), .poll 0, .handle 0 .quiet, .poll 0,
        .handle 0 (.fromClient []), .poll 0, .handle 0 .quiet]) (by decide +kernel)

end ProxySQL
