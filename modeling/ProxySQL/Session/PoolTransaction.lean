/-
  ProxySQL.Session.PoolTransaction

  Whether connections in the pools are outside transactions.

  No function that gives a connection back looks at the transaction flag of the
  backend that had it: `backend_reset` never does, and the loops of
  `server_COM_QUERY` ask for the flag of the current backend before they detach
  all of them.  So the pools stay free of transactions in the runs in which every
  backend that gives its connection to a pool is outside a transaction then, and
  a client that disconnects in the middle of one leaves it to the next client.
-/
import ProxySQL.Session.Release

namespace ProxySQL

open Lib List

/-- No connection was added to a free list by a backend in a transaction. -/
def OutsideTransactions (sh : Shared) : Prop := ∀ r ∈ sh.released, r.activeTransaction = false

theorem OutsideTransactions.of_eq {sh sh' : Shared} (h : OutsideTransactions sh)
    (heq : sh'.released = sh.released) : OutsideTransactions sh' := by
  unfold OutsideTransactions
  rw [heq]
  exact h

theorem OutsideTransactions.gaveBack {sh sh' : Shared} {mybe mybe' : MysqlBackend} {now : Nat → Nat}
    {fc : Bool} (h : OutsideTransactions sh) (hgave : GaveBack sh sh' mybe mybe' now fc)
    (hok : mybe.Pools sh now fc → mybe.inTransaction = false) : OutsideTransactions sh' := by
  rcases hgave.cases with ⟨-, -, heq⟩ | ⟨c, hc, -, ⟨-, heq⟩ | ⟨hpool, -, heq⟩⟩
  · exact h.of_eq heq
  · exact h.of_eq heq
  · intro r hr
    rw [heq] at hr
    rcases mem_append.1 hr with hold | hnew
    · exact h r hold
    · obtain rfl := mem_singleton.1 hnew
      exact hok ⟨c, hc, hpool⟩

/-- A backend that is reset because its server is OFFLINE_SOFT is not in a transaction, so nothing has
    to be assumed of forwarding. -/
theorem forwardTo_outsideTransactions (hg : Nat) (p : Pkt) (env : PktEnv) :
    Keeps (fun st => OutsideTransactions st.sh) (forwardTo hg p env) := by
  have hquiet : QuietStable (fun _ => True) fun st => OutsideTransactions st.sh :=
    ⟨fun hst _ => hst, fun hst _ => hst⟩
  have hconnect : ∀ cenv, Keeps (fun st => OutsideTransactions st.sh)
    (connectBackend hg cenv env.fill) := by
    intro cenv st hst
    refine connectBackend_wp (fun _ => hst) fun _ _ _ _ _ hconn => ?_
    exact OutsideTransactions.of_eq hst hconn.released
  refine forwardTo_keeps hquiet trivial ⟨hconnect _, hconnect _, ?_, ?_⟩ ?_
  · refine (getMybe_keeps hg).bind fun mybe => ?_
    split
    · exact .pure _
    · exact Keeps.get.bind fun st => .ite (.modify fun t ht => ht) (.pure _)
  · intro st mybe myds m ms hst hmybe hmyds htrans _ _ _
    refine bereset_wp (fun _ => hst) fun mybe1 sh' mybe' hmybe1 hreset => ?_
    obtain rfl : mybe = mybe1 := Option.some.inj (hmybe.symm.trans hmybe1)
    refine OutsideTransactions.gaveBack hst (backendReset_gaveBack hreset) fun _ => ?_
    rw [MysqlBackend.inTransaction, hmyds]
    exact htrans
  · refine (getMybe_keeps hg).bind fun mybe => (Keeps.lift _).bind fun myds => ?_
    refine Keeps.bind (Keeps.modify fun t ht => ht) fun _ => ?_
    split
    · exact .pure _
    · exact .modify fun t ht => ht

theorem outsideTransactions_release :
    ReleaseStable (fun st => OutsideTransactions st.sh) fun _ mybe => mybe.inTransaction = false where
  give hst _ hgave hok := OutsideTransactions.gaveBack hst hgave hok
  others _ _ _ hok := hok
  forget hok := hok
  cache _ hok := hok
  stable := ⟨fun hst _ => hst, fun hst _ => hst, fun _ hst => hst⟩
  net := ⟨fun _ _ _ _ hst => hst, fun _ _ _ _ _ hst _ _ => hst, fun _ _ _ _ _ hst _ _ => hst⟩
  forgetConnpool := by
    refine Keeps.get.bind fun st => ?_
    split
    · exact .pure _
    · exact (getMybe_keeps _).bind fun mybe => .modify fun t ht => ht
  clear _ hst := hst

/-! ## Runs -/

/-- Backends that give their connections to a pool in the step are outside transactions. -/
def NoneInTransaction (w : World) : Event → Prop
  | .session i e => ∀ s mybe, w.sessions[i]? = some s → Releases { sh := w.sh, sess := s } mybe e →
      mybe.inTransaction = false
  | _ => True

theorem session_outsideTransactions {w : World} {i : Nat} {s : Session} {e : SessEvent}
    (hw : OutsideTransactions w.sh) (hs : w.sessions[i]? = some s)
    (hG : NoneInTransaction w (.session i e)) :
    OutsideTransactions (outcome e.prog { sh := w.sh, sess := s }).2.sh :=
  e.keeps_of_releases outsideTransactions_release hw (fun mybe hrel => hG s mybe hs hrel)
    fun hg p env _ => forwardTo_outsideTransactions hg p env _ hw

/-- In every run in which backends are outside transactions when they give their connections to a
    pool, no connection in a transaction enters one; nor does it in a step that the process does not
    survive. -/
theorem pooled_outside_transactions {g : Glovars} {md5 : List Byte → Str}
    {scramble : List Byte → Str → List Byte} {w : World} {es : List Event}
    (hrun : Run (Guarded WorldStep NoneInTransaction) (World.init g md5 scramble) es w) :
    OutsideTransactions w.sh ∧ ∀ i s e, w.sessions[i]? = some s → NoneInTransaction w (.session i e) →
      OutsideTransactions (outcome e.prog { sh := w.sh, sess := s }).2.sh := by
  have hw : OutsideTransactions w.sh := by
    refine hrun.invariant (P := fun w => OutsideTransactions w.sh) (fun w e w' hstep hw => ?_) ?_
    · obtain ⟨hstep, hG⟩ := hstep
      cases hstep with
      | accept => exact hw
      | session hs hst =>
          have houtcome := session_outsideTransactions hw hs hG
          rw [hst.2] at houtcome
          exact houtcome
      | delete => exact hw
      | flushHostgroups rows => exact hw.of_eq (flushServersDbToMem_onlyServers w.sh rows).released
      | reconfigure hsame => exact hw.of_eq hsame.released
    · exact fun r hr => nomatch hr
  exact ⟨hw, fun i s e hs hG => session_outsideTransactions hw hs hG⟩

/-- No backend of any session is in a transaction. -/
def World.quietBackends (w : World) : Bool := w.sessions.all fun s => s.mybes.all fun b => !b.inTransaction

theorem noneInTransaction_of_quiet (w : World) (e : Event) (h : w.quietBackends = true) :
    NoneInTransaction w e := by
  cases e with
  | session i e =>
    intro s mybe hs hrel
    have hs' := all_eq_true.1 h s (mem_of_getElem? hs)
    simpa using all_eq_true.1 hs' mybe hrel.mem
  | accept | delete | flushHostgroups | reconfigure => trivial

set_option maxRecDepth 4000 in
/-- A client whose query was answered outside a transaction disconnects. -/
theorem pooled_outside_transactions_query :
    ∃ es w, Run (Guarded WorldStep NoneInTransaction) oneServer es w ∧
      w.sh.released = [{ conn := 0, activeTransaction := false }] ∧ OutsideTransactions w.sh := by
  obtain ⟨w, hrun, hreleased⟩ := Run.exists_guarded_exec World.step oneServer
    (.flushHostgroups [dbRow] :: loginSteps 0 ++ querySteps 0 0 "SELECT 1" ++ okSteps 0 2 ++
      [.session 0 (.close fun _ => 0)])
    (P := fun w => w.sh.released = [{ conn := 0, activeTransaction := false }])
    World.worldStep_of_step noneInTransaction_of_quiet (by decide +kernel)
  exact ⟨_, w, hrun, hreleased, (pooled_outside_transactions hrun).1⟩

set_option maxRecDepth 4000 in
/-- A client begins a transaction and disconnects: its connection enters a pool as it is. -/
theorem pooled_in_transaction :
    ∃ es w, Run WorldStep oneServer es w ∧ { conn := 0, activeTransaction := true } ∈ w.sh.released ∧
      0 ∈ w.sh.free := by
  exact World.exists_calls oneServer
    (.flushHostgroups [dbRow] :: login 0 ++
      [.poll 0, .handle 0 (.fromClient (queryPkt "BEGIN")), .poll 0, .handle 0 .quiet, .poll 0,
        .handle 0 (.fromServer (okPkt 1)), .poll 0, .handle 0 (.fromClient []), .poll 0,
        .handle 0 .quiet]) (by decide +kernel)

end ProxySQL
