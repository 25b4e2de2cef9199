/-
  ProxySQL.Session.NetEffects

  What the code around the sockets can do to the state.

  `check_fds_errors`, `read_from_net_2`, `write_to_net_2`, `buffer2array_2` and
  `array2buffer_2` replace the stream of the client, the stream of the current
  backend, and the ledger of its connection, and nothing else but the flag for a
  closed peer.  A property that such changes keep is `NetStable`.
-/
import ProxySQL.Session.Effects

namespace ProxySQL

open Lib

/-- A property that new streams keep, and so do bytes sent to a server and received from it. -/
structure NetStable (P : St → Prop) : Prop where
  client : ∀ (st : St) {myds : MysqlDataStream} (failed : Bool), st.sess.clientMyds.Moves myds → P st →
    P { st with sess := { st.sess with clientMyds := myds, netFailure := failed } }
  server : ∀ (st : St) {i : Nat} {mybe : MysqlBackend} {myds : MysqlDataStream} (myds' : MysqlDataStream),
    P st → st.sess.mybes[i]? = some mybe → mybe.serverMyds = some myds →
    P { st with sess := { st.sess with
      mybes := st.sess.mybes.set i { mybe with serverMyds := some myds' } } }
  ledger : ∀ (st : St) {i c : Nat} {mybe : MysqlBackend} (f : List Outstanding → List Outstanding),
    P st → st.sess.mybes[i]? = some mybe → mybe.serverMycpe = some c →
    P { st with sh := st.sh.modifyConn c fun mc => { mc with pending := f mc.pending } }

section Rules

variable {P : St → Prop}

theorem noteFailure_keeps (h : NetStable P) (failed : Bool) : Keeps P (noteFailure failed) :=
  .modify fun st hst => h.client st (st.sess.netFailure || failed) (.refl _) hst

theorem readClient_keeps (h : NetStable P) (recv : List Byte) : Keeps P (readClient recv) := by
  intro st hst
  unfold readClient
  refine noteFailure_keeps h _ _ (h.client st st.sess.netFailure ?_ hst)
  exact (st.sess.clientMyds.readFromNet_sends _).toMoves

theorem writeClient_keeps (h : NetStable P) (sent : Int) : Keeps P (writeClient sent) := by
  intro st hst
  unfold writeClient
  refine noteFailure_keeps h _ _ (h.client st st.sess.netFailure ?_ hst)
  exact (st.sess.clientMyds.writeToNet_writes _).toMoves

/-- Code for the current backend keeps what it keeps wherever that backend has a stream. -/
theorem onServer_keeps {f : Nat → MysqlBackend → MysqlDataStream → SessM Unit}
    (hf : ∀ i mybe myds st, P st → st.sess.mybes[i]? = some mybe → mybe.serverMyds = some myds →
      wp (f i mybe myds) (fun _ t => P t) st) : Keeps P (onServer f) := by
  intro st hst
  unfold onServer
  rw [wp_get_bind]
  split
  · exact hst
  · next i _ =>
    rw [wp_bind, wp_getMybe]
    cases hmybe : st.sess.mybes[i]? with
    | none => exact hst
    | some mybe =>
      dsimp only
      split
      · exact hst
      · next myds hmyds => exact hf i mybe myds st hst hmybe hmyds

variable {st : St} {i : Nat} {mybe : MysqlBackend} {myds : MysqlDataStream}

theorem modifyLedger_wp (h : NetStable P) {mycpe : Option Nat} (f : List Outstanding → List Outstanding)
    (hst : P st) (hmybe : st.sess.mybes[i]? = some mybe) (hmycpe : mybe.serverMycpe = mycpe) :
    wp (modifyLedger mycpe f) (fun _ t => P t) st := by
  cases mycpe with
  | none => exact hst
  | some c => exact h.ledger st f hst hmybe hmycpe

theorem setStream_wp (h : NetStable P) (myds' : MysqlDataStream) (failed : Bool) (hst : P st)
    (hmybe : st.sess.mybes[i]? = some mybe) (hmyds : mybe.serverMyds = some myds) {m : SessM Unit}
    (hm : ∀ t, P t → t.sess.mybes[i]? = some { mybe with serverMyds := some myds' } →
      wp m (fun _ t => P t) t) :
    wp (do
      setMybe i { mybe with serverMyds := some myds' }
      noteFailure failed
      m) (fun _ t => P t) st := by
  have hlt : i < st.sess.mybes.length := (List.getElem?_eq_some_iff.1 hmybe).1
  refine hm _ ?_ (List.getElem?_set_self hlt)
  exact h.client _ (st.sess.netFailure || failed) (.refl _) (h.server st myds' hst hmybe hmyds)

theorem readServer_wp (h : NetStable P) (recv : List Byte) (hst : P st)
    (hmybe : st.sess.mybes[i]? = some mybe) (hmyds : mybe.serverMyds = some myds) :
    wp (readServer i recv) (fun _ t => P t) st := by
  unfold readServer
  rw [wp_bind, wp_getMybe, hmybe]
  dsimp only
  rw [hmyds, wp_bind, deref, wp_lift]
  refine setStream_wp h _ _ hst hmybe hmyds fun t ht hget => ?_
  refine wp_bind_of (modifyLedger_wp h _ ht hget rfl) (fun _ u hu => ?_) fun _ _ hu => hu
  exact Keeps.when (fun _ => (Keeps.lift _).bind fun _ => Keeps.pure _) u hu

theorem writeServer_wp (h : NetStable P) (sent : Int) (hst : P st) (hmybe : st.sess.mybes[i]? = some mybe)
    (hmyds : mybe.serverMyds = some myds) : wp (writeServer i sent) (fun _ t => P t) st := by
  unfold writeServer
  rw [wp_bind, wp_getMybe, hmybe]
  dsimp only
  rw [hmyds, wp_bind, deref, wp_lift]
  refine setStream_wp h _ _ hst hmybe hmyds fun t ht hget => ?_
  rw [wp_when]
  split
  · refine wp_bind_of (modifyLedger_wp h _ ht hget rfl) (fun _ u hu => ?_) fun _ _ hu => hu
    exact (Keeps.lift _).bind (fun _ => Keeps.pure _) u hu
  · exact ht

/-! ## The rules -/

theorem checkFdsErrors_keeps (h : NetStable P) (net : NetEnv) : Keeps P (checkFdsErrors net) := by
  refine .bind (.when fun _ => .modify fun st hst => ?_) fun _ => .when fun _ => ?_
  · exact h.client st true ⟨Nat.le_refl _, id⟩ hst
  · refine onServer_keeps fun i mybe myds st hst hmybe hmyds => ?_
    exact h.client _ true (.refl _) (h.server st myds.shutSoft hst hmybe hmyds)

theorem readFromNet2_keeps (h : NetStable P) (net : NetEnv) : Keeps P (readFromNet2 net) := by
  refine Keeps.get.bind fun _ => .bind (.when fun _ => readClient_keeps h _) fun _ => ?_
  refine .when fun _ => onServer_keeps fun i mybe myds st hst hmybe hmyds => ?_
  rw [wp_when]
  split
  · exact readServer_wp h _ hst hmybe hmyds
  · exact hst

theorem writeToNet2_keeps (h : NetStable P) (client server : Bool) (sendClient sendServer : Int) :
    Keeps P (writeToNet2 client server sendClient sendServer) := by
  refine Keeps.get.bind fun _ => .bind (.when fun _ => writeClient_keeps h _) fun _ => ?_
  refine onServer_keeps fun i mybe myds st hst hmybe hmyds => ?_
  rw [wp_when]
  split
  · exact writeServer_wp h _ hst hmybe hmyds
  · exact hst

theorem modifyServerMyds_keeps (h : NetStable P) (f : MysqlDataStream → Except Fault MysqlDataStream) :
    Keeps P (modifyServerMyds f) := by
  refine onServer_keeps fun i mybe myds st hst hmybe hmyds => ?_
  cases f myds with
  | error e => exact hst
  | ok myds' => exact h.server st myds' hst hmybe hmyds

theorem buffer2array2_keeps (h : NetStable P) (fill : Nat → Byte) : Keeps P (buffer2array2 fill) := by
  refine .bind (.modify fun st hst => ?_) fun _ => modifyServerMyds_keeps h _
  exact h.client st st.sess.netFailure (st.sess.clientMyds.buffer2arrayLoop_moves fill) hst

theorem array2buffer2_keeps (h : NetStable P) : Keeps P array2buffer2 := by
  intro st hst
  unfold array2buffer2
  rw [wp_get_bind, wp_bind, wp_lift]
  cases hbuf : st.sess.clientMyds.array2bufferLoop with
  | none => exact hst
  | some myds =>
    simp only [deref]
    refine modifyServerMyds_keeps h _ _ (h.client st st.sess.netFailure ?_ hst)
    exact (MysqlDataStream.array2bufferLoop_sends hbuf).toMoves

theorem takeServerPkt_keeps (h : NetStable P) (env : SrvEnv) : Keeps P (takeServerPkt env) := by
  intro st hst
  refine wp_bind_reads (Keeps.get st rfl) (fun t => ?_) fun _ => hst
  refine wp_bind_reads (Keeps.lift _ st rfl) (fun i => ?_) fun _ => hst
  rw [wp_bind, wp_getMybe]
  cases hmybe : st.sess.mybes[i]? with
  | none => exact hst
  | some mybe =>
    dsimp only
    rw [wp_bind, wp_lift]
    cases hmyds : mybe.serverMyds with
    | none => exact hst
    | some myds =>
      simp only [deref]
      split
      · exact hst
      · exact h.server st _ hst hmybe hmyds

end Rules

/-! ## Authentication -/

/-- The check of the client's handshake response changes the user, the password and the schema. -/
theorem checkClientAuthenticationPacket_frame (sh : Shared) (s : Session) (p : Pkt) (m : Nat → Byte)
    (slack : Nat) : ∃ user password schema, (checkClientAuthenticationPacket sh s p m slack).1 =
      { s with mysqlUsername := user, mysqlPassword := password, mysqlSchemaCur := schema } := by
  unfold checkClientAuthenticationPacket
  dsimp only
  repeat' split
  all_goals exact ⟨_, _, _, rfl⟩

/-- A property that a new user keeps, and new packets for the client. -/
structure AuthStable (P : St → Prop) : Prop where
  client : ∀ (st : St) (myds : MysqlDataStream), st.sess.clientMyds.Sends myds → P st →
    P { st with sess := { st.sess with clientMyds := myds } }
  user : ∀ (st : St) (user password schema : Option Str) (ret : Int), P st →
    P { st with sess := { st.sess with
      mysqlUsername := user, mysqlPassword := password, mysqlSchemaCur := schema, ret := ret } }
  record : ∀ (st : St) (ret : Int), P st →
    P { st with sess := { st.sess with trace := st.sess.trace ++ [.authenticated ret] } }

theorem Stable.auth {A : Action → Prop} {P : St → Prop} (h : Stable A P)
    (hA : ∀ ret, A (.authenticated ret)) : AuthStable P where
  client _ _ hsends hst := h.sess hst ⟨rfl, rfl, hsends, rfl, fun _ hw => hw⟩
  user _ _ _ _ _ hst := h.sess hst (.of_eq rfl)
  record _ ret hst := h.record hst (hA ret)

theorem processAuthenticationPkt_keeps {P : St → Prop} (h : AuthStable P) (beyond : Nat → Byte)
    (slack : Nat) : Keeps P (processAuthenticationPkt beyond slack) := by
  have hout : ∀ p, Keeps P (mySessAddPktOutClient p) :=
    fun p => .modify fun st hst => h.client st _ ⟨⟨Nat.le_refl _, id⟩, rfl⟩ hst
  refine Keeps.get.bind fun st => ?_
  split
  · exact .throw _
  · next hs _ _ =>
    refine .bind (.modify fun t ht => h.client t _ ⟨⟨Nat.le_refl _, id⟩, rfl⟩ ht) fun _ => ?_
    refine .bind (.modify fun t ht => ?_) fun _ => ?_
    · obtain ⟨user, password, schema, heq⟩ :=
        checkClientAuthenticationPacket_frame st.sh t.sess hs (hs.mem beyond) slack
      dsimp only
      rw [heq]
      exact h.user t user password schema _ ht
    · refine .bind (.modify fun t ht => h.record t _ ht) fun _ => .ite (hout _) ?_
      refine .bind (.modify fun t ht => ?_) fun _ => hout _
      exact h.user t t.sess.mysqlUsername t.sess.mysqlPassword _ t.sess.ret ht

end ProxySQL
