/-
  ProxySQL.Session.Effects

  What the code of a session can do to the state, said once.

  Most of it changes data of the session alone, queues packets for the client,
  or notes an action in the trace.  A property that such changes keep is
  `Stable`, and the rules below give, function by function, that a stable
  property is kept.  Where a function also touches connections, the rule asks
  what those primitives (`bereset`, `bedetach`, `connectBackend`, ...) do to the
  property.
-/
import ProxySQL.Session.Handler

namespace ProxySQL

open Lib

/-! ## Equations of the primitives -/

section Wp

variable (Q : Except Fault Unit → St → Prop) (st : St)

@[simp] theorem wp_modifySess (f : Session → Session) :
    wp (modifySess f) Q st ↔ Q (.ok ()) { st with sess := f st.sess } := Iff.rfl

@[simp] theorem wp_modifyShared (f : Shared → Shared) :
    wp (modifyShared f) Q st ↔ Q (.ok ()) { st with sh := f st.sh } := Iff.rfl

@[simp] theorem wp_record (a : Action) :
    wp (record a) Q st ↔ Q (.ok ())
      { st with sess := { st.sess with trace := st.sess.trace ++ [a] } } :=
  Iff.rfl

@[simp] theorem wp_mySessAddPktOutClient (p : Pkt) :
    wp (mySessAddPktOutClient p) Q st ↔ Q (.ok ()) { st with sess := st.sess.addOut [p] } := Iff.rfl

@[simp] theorem wp_setMybe (i : Nat) (mybe : MysqlBackend) :
    wp (setMybe i mybe) Q st ↔
      Q (.ok ()) { st with sess := { st.sess with mybes := st.sess.mybes.set i mybe } } := Iff.rfl

end Wp

section Returns

variable (Q : Unit → St → Prop) (st : St)

@[simp] theorem returns_modifySess (f : Session → Session) :
    Returns (modifySess f) Q st ↔ Q () { st with sess := f st.sess } := returns_modify st Q _

@[simp] theorem returns_modifyShared (f : Shared → Shared) :
    Returns (modifyShared f) Q st ↔ Q () { st with sh := f st.sh } := returns_modify st Q _

@[simp] theorem returns_setMybe (i : Nat) (mybe : MysqlBackend) :
    Returns (setMybe i mybe) Q st ↔
      Q () { st with sess := { st.sess with mybes := st.sess.mybes.set i mybe } } :=
  returns_modify st Q _

theorem returns_getMybe {st : St} {i : Nat} {mybe : MysqlBackend}
    (h : st.sess.mybes[i]? = some mybe) (Q : MysqlBackend → St → Prop) : Returns (getMybe i) Q st ↔
    Q mybe st := by
  unfold getMybe
  rw [returns_bind, returns_get, h]
  exact returns_pure Q st mybe

end Returns

/-! ## Streams -/

variable {myds'' : MysqlDataStream} {s s' : Session} {A : Action → Prop} {P Q R : St → Prop}
  {st : St}

namespace MysqlDataStream

/-- A packet that has been moved to the buffer in part is still there. -/
def OutReady (myds : MysqlDataStream) : Prop := myds.output.partialLen ≠ 0 →
    myds.output.mypkt.isSome

/-- A stream whose packets, perhaps, have moved on. -/
structure Moves (myds myds' : MysqlDataStream) : Prop where
  pktsSent : myds.pktsSent ≤ myds'.pktsSent
  ready : myds.OutReady → myds'.OutReady

/-- A stream that has moved packets out, perhaps, but read none. -/
structure Sends (myds myds' : MysqlDataStream) : Prop extends myds.Moves myds' where
  pktsRecv : myds'.pktsRecv = myds.pktsRecv

/-- A stream that has moved packets out, perhaps, with its input untouched. -/
structure Writes (myds myds' : MysqlDataStream) : Prop extends myds.Sends myds' where
  input : myds'.input = myds.input

variable {myds myds' : MysqlDataStream}

theorem Moves.refl (myds : MysqlDataStream) : myds.Moves myds := ⟨Nat.le_refl _, id⟩

theorem Moves.trans (h : myds.Moves myds') (h' : myds'.Moves myds'') : myds.Moves myds'' :=
  ⟨Nat.le_trans h.pktsSent h'.pktsSent, fun hr => h'.ready (h.ready hr)⟩

theorem Sends.refl (myds : MysqlDataStream) : myds.Sends myds := ⟨.refl _, rfl⟩

theorem Sends.trans (h : myds.Sends myds') (h' : myds'.Sends myds'') : myds.Sends myds'' :=
  ⟨h.toMoves.trans h'.toMoves, h'.pktsRecv.trans h.pktsRecv⟩

theorem Writes.refl (myds : MysqlDataStream) : myds.Writes myds := ⟨.refl _, rfl⟩

theorem Writes.trans (h : myds.Writes myds') (h' : myds'.Writes myds'') : myds.Writes myds'' :=
  ⟨h.toSends.trans h'.toSends, h'.input.trans h.input⟩

theorem copyOut_writes (myds : MysqlDataStream) (p : Pkt) : myds.Writes (myds.copyOut p).1 := by
  unfold copyOut
  dsimp only
  split <;> split
  · exact ⟨⟨⟨Nat.le_succ _, fun _ h => absurd rfl h⟩, rfl⟩, rfl⟩
  · exact ⟨⟨⟨Nat.le_refl _, fun _ _ => rfl⟩, rfl⟩, rfl⟩
  · exact ⟨⟨⟨Nat.le_succ _, fun _ h => absurd rfl h⟩, rfl⟩, rfl⟩
  · exact ⟨⟨⟨Nat.le_refl _, fun _ _ => rfl⟩, rfl⟩, rfl⟩

theorem array2buffer_writes {n : Nat} (h : myds.array2buffer = some (myds', n)) :
    myds.Writes myds' := by
  unfold array2buffer at h
  split at h
  · cases h
    exact .refl _
  · split at h
    · split at h
      · cases h
        exact .refl _
      · next p pkts _ =>
        obtain rfl := congrArg Prod.fst (Option.some.inj h)
        have hcopy := copyOut_writes { myds with output := { myds.output with pkts := pkts } } p
        exact ⟨⟨⟨hcopy.pktsSent, hcopy.ready⟩, hcopy.pktsRecv⟩, hcopy.input⟩
    · split at h
      · cases h
      · next p _ =>
        obtain rfl := congrArg Prod.fst (Option.some.inj h)
        exact copyOut_writes myds p

theorem writeToNet_writes (myds : MysqlDataStream) (r : Int) :
    myds.Writes (myds.writeToNet r).1 := by
  unfold writeToNet
  split
  · exact .refl _
  · split
    · exact ⟨⟨⟨Nat.le_refl _, id⟩, rfl⟩, rfl⟩
    · exact ⟨⟨⟨Nat.le_refl _, id⟩, rfl⟩, rfl⟩

theorem readFromNet_sends (myds : MysqlDataStream) (recv : List Byte) :
    myds.Sends (myds.readFromNet recv).1 := by
  unfold readFromNet
  split
  · exact ⟨⟨Nat.le_refl _, id⟩, rfl⟩
  · exact ⟨⟨Nat.le_refl _, id⟩, rfl⟩

theorem buffer2arrayLoop_moves (myds : MysqlDataStream) (fill : Nat → Byte) :
    myds.Moves (myds.buffer2arrayLoop fill) := by
  have hbuf : ∀ myds : MysqlDataStream, myds.Moves (myds.buffer2array fill).1 := by
    intro myds
    unfold buffer2array
    split
    · exact .refl _
    · dsimp only [storeReading]
      split
      · exact ⟨Nat.le_refl _, id⟩
      · exact ⟨Nat.le_refl _, id⟩
  have hdrain : ∀ (n : Nat) (myds : MysqlDataStream), myds.Moves (myds.drain fill n) := by
    intro n
    induction n with
    | zero => exact fun myds => .refl _
    | succ n ih =>
      intro myds
      rw [drain]
      split
      · exact (hbuf myds).trans (ih _)
      · exact hbuf myds
  exact hdrain _ myds

theorem array2bufferLoop_sends (h : myds.array2bufferLoop = some myds') : myds.Sends myds' := by
  have hfill : ∀ (n : Nat) (myds : MysqlDataStream), myds.fillUp n = some myds' →
    myds.Sends myds' := by
    intro n
    induction n with
    | zero =>
      intro myds h
      cases h
      exact .refl _
    | succ n ih =>
      intro myds h
      rw [fillUp] at h
      split at h
      · cases h
      · next myds1 ret hbuf =>
        split at h
        · exact (array2buffer_writes hbuf).toSends.trans (ih _ h)
        · cases h
          exact (array2buffer_writes hbuf).toSends
  exact hfill _ myds h

end MysqlDataStream

theorem writeAll_writes {send : List Int} {myds myds' : MysqlDataStream} {failed : Bool}
    (h : writeAll send myds = .ok (myds', failed)) : myds.Writes myds' := by
  induction send generalizing myds failed with
  | nil =>
    unfold writeAll at h
    split at h
    · cases h
      exact .refl _
    · cases h
  | cons r send ih =>
    unfold writeAll at h
    split at h
    · cases h
      exact .refl _
    · obtain ⟨w, hw, h⟩ := except_bind_eq_ok.1 h
      cases h
      exact (myds.writeToNet_writes _).trans (ih hw)

/-! ## Stable properties -/

/-- Changes that leave the trace and the backends of a session alone and read nothing from its
    client.  No admin session starts to wait for an auth switch response. -/
structure Session.Local (s s' : Session) : Prop where
  trace : s'.trace = s.trace
  mybes : s'.mybes = s.mybes
  client : s.clientMyds.Sends s'.clientMyds
  admin : s'.admin = s.admin
  waiting : 0 < s.admin → s'.waitingChangeUserResponse = true → s.waitingChangeUserResponse = true

/-- Local changes that leave the command alone, and the packets that were collected for a
    response. -/
structure Session.Steady (s s' : Session) : Prop extends s.Local s' where
  clientCommand : s'.clientCommand = s.clientCommand
  resultset : s'.resultset = s.resultset

/-- How far the response to the current query has come: the progress, the packets collected and
    their size, and, for the query cache, whether and under which checksum they are to be stored. -/
def Session.response (s : Session) :
    ResultsetProgress × List Pkt × Nat × Bool × Option (List Byte) :=
  (s.resultsetProgress, s.resultset, s.resultsetSize, s.queryToCache, s.queryInfo.queryChecksum)

/-- Local changes that touch neither the user of the session nor its health and leave the command
    and the response to it as they are. -/
structure Session.Quiet (s s' : Session) : Prop extends s.Local s' where
  healthy : s'.healthy = s.healthy
  mysqlUsername : s'.mysqlUsername = s.mysqlUsername
  mysqlPassword : s'.mysqlPassword = s.mysqlPassword
  mysqlSchemaCur : s'.mysqlSchemaCur = s.mysqlSchemaCur
  clientCommand : s'.clientCommand = s.clientCommand
  preparedStatement : s'.queryInfo.preparedStatement = s.queryInfo.preparedStatement
  response : s'.response = s.response

/-- What of a session routes its commands. -/
structure RouteData where
  defaultHostgroup : Int
  defaultHostgroupVersion : Int
  mysqlUsername : Option Str
  mysqlSchemaCur : Option Str

def Session.routeData (s : Session) : RouteData where
  defaultHostgroup := s.defaultHostgroup
  defaultHostgroupVersion := s.defaultHostgroupVersion
  mysqlUsername := s.mysqlUsername
  mysqlSchemaCur := s.mysqlSchemaCur

/-- Where a packet goes, and what the rules read of its query. -/
def Session.direction (s : Session) : Nat × List Byte × Int × Int × Bool :=
  (s.clientCommand, s.queryInfo.query, s.queryInfo.cacheTtl, s.queryInfo.destinationHostgroup,
    s.mysqlQueryCacheHit)

/-- Quiet changes that touch neither what routes the commands nor where the packet at hand goes, and
    leave the packets that wait. -/
structure Session.Still (s s' : Session) : Prop extends s.Quiet s' where
  routeData : s'.routeData = s.routeData
  direction : s'.direction = s.direction
  input : s'.clientMyds.input.pkts = s.clientMyds.input.pkts

/-- What a local change that does not send keeps as it is. -/
def Session.localPart (s : Session) :
    List Action × List MysqlBackend × MysqlDataStream × Nat × Bool :=
  (s.trace, s.mybes, s.clientMyds, s.admin, s.waitingChangeUserResponse)

/-- What a steady change that does not send keeps as it is. -/
def Session.steadyPart (s : Session) :
    (List Action × List MysqlBackend × MysqlDataStream × Nat × Bool) × Nat × List Pkt :=
  (s.localPart, s.clientCommand, s.resultset)

/-- What a quiet change keeps beside the local part. -/
def Session.quietPart (s : Session) : Bool × Option Str × Option Str × Option Str × Nat × Bool ×
    ResultsetProgress × List Pkt × Nat × Bool × Option (List Byte) :=
  (s.healthy, s.mysqlUsername, s.mysqlPassword, s.mysqlSchemaCur, s.clientCommand,
    s.queryInfo.preparedStatement, s.response)

theorem Session.Local.of_eq (h : s'.localPart = s.localPart) : s.Local s' := by
  obtain ⟨htrace, hmybes, hclient, hadmin, hwaiting⟩ : s'.trace = s.trace ∧ s'.mybes = s.mybes ∧
      s'.clientMyds = s.clientMyds ∧ s'.admin = s.admin ∧
      s'.waitingChangeUserResponse = s.waitingChangeUserResponse := by
    simpa only [Session.localPart, Prod.mk.injEq] using h
  refine ⟨htrace, hmybes, ?_, hadmin, ?_⟩
  · rw [hclient]
    exact MysqlDataStream.Sends.refl _
  · rw [hwaiting]
    exact fun _ hw => hw

theorem Session.Steady.of_eq (h : s'.steadyPart = s.steadyPart) : s.Steady s' :=
  ⟨.of_eq (congrArg Prod.fst h), congrArg (·.2.1) h, congrArg (·.2.2) h⟩

theorem Session.Quiet.steady (h : s.Quiet s') : s.Steady s' :=
  ⟨h.toLocal, h.clientCommand, congrArg (·.2.1) h.response⟩

theorem Session.Quiet.of_eq (h : s'.localPart = s.localPart)
    (hq : s'.quietPart = s.quietPart) : s.Quiet s' := by
  obtain ⟨hhealthy, huser, hpassword, hschema, hcommand, hprepared, hresponse⟩ :
    s'.healthy = s.healthy ∧
      s'.mysqlUsername = s.mysqlUsername ∧ s'.mysqlPassword = s.mysqlPassword ∧
      s'.mysqlSchemaCur = s.mysqlSchemaCur ∧ s'.clientCommand = s.clientCommand ∧
      s'.queryInfo.preparedStatement = s.queryInfo.preparedStatement ∧
      s'.response = s.response := by
    rw [Session.quietPart, Session.quietPart] at hq
    simpa only [Prod.mk.injEq] using hq
  exact ⟨.of_eq h, hhealthy, huser, hpassword, hschema, hcommand, hprepared, hresponse⟩

/-- A property that still changes keep, and so do actions in `A`. -/
structure StillStable (A : Action → Prop) (P : St → Prop) : Prop where
  sess : ∀ {st : St} {s' : Session}, P st → st.sess.Still s' → P { st with sess := s' }
  record : ∀ {st : St} {a : Action}, P st → A a →
    P { st with sess := { st.sess with trace := st.sess.trace ++ [a] } }

/-- A property that quiet changes keep, and so do actions in `A`. -/
structure QuietStable (A : Action → Prop) (P : St → Prop) : Prop where
  sess : ∀ {st : St} {s' : Session}, P st → st.sess.Quiet s' → P { st with sess := s' }
  record : ∀ {st : St} {a : Action}, P st → A a →
    P { st with sess := { st.sess with trace := st.sess.trace ++ [a] } }

/-- A property that steady changes keep, and so do actions in `A`. -/
structure SteadyStable (A : Action → Prop) (P : St → Prop) : Prop where
  sess : ∀ {st : St} {s' : Session}, P st → st.sess.Steady s' → P { st with sess := s' }
  record : ∀ {st : St} {a : Action}, P st → A a →
    P { st with sess := { st.sess with trace := st.sess.trace ++ [a] } }

/-- A property that a new command keeps as well. -/
structure DispatchStable (A : Action → Prop) (P : St → Prop) : Prop extends SteadyStable A P where
  command : ∀ {st : St} (c : Nat), P st → P { st with sess := { st.sess with clientCommand := c } }

/-- A property that local changes keep, and so do actions in `A` and entries of the query cache. -/
structure Stable (A : Action → Prop) (P : St → Prop) : Prop where
  sess : ∀ {st : St} {s' : Session}, P st → st.sess.Local s' → P { st with sess := s' }
  record : ∀ {st : St} {a : Action}, P st → A a →
    P { st with sess := { st.sess with trace := st.sess.trace ++ [a] } }
  cache : ∀ {st : St} (qc : Str → Option QcEntry), P st →
    P { st with sh := { st.sh with qc := qc } }

theorem QuietStable.still (h : QuietStable A P) : StillStable A P where
  sess hst hs := h.sess hst hs.toQuiet
  record := h.record

theorem SteadyStable.quiet (h : SteadyStable A P) : QuietStable A P where
  sess hst hq := h.sess hst hq.steady
  record := h.record

theorem Stable.dispatch (h : Stable A P) : DispatchStable A P where
  sess hst hs := h.sess hst hs.toLocal
  record := h.record
  command _ hst := h.sess hst (.of_eq rfl)

theorem Stable.steady (h : Stable A P) : SteadyStable A P :=
  h.dispatch.toSteadyStable

theorem Stable.quiet (h : Stable A P) : QuietStable A P := h.steady.quiet

theorem SteadyStable.still (h : SteadyStable A P) : StillStable A P := h.quiet.still

theorem Stable.still (h : Stable A P) : StillStable A P := h.quiet.still

section Rules

variable {A : Action → Prop} {P : St → Prop}

variable {f : Session → Session} {now : Nat → Nat} {env : PktEnv} {p : Pkt} {hg : Nat}

theorem Stable.local_keeps (h : Stable A P) (hf : ∀ s : Session, s.Local (f s)) :
    Keeps P (modifySess f) :=
  .modify fun st hst => h.sess hst (hf st.sess)

theorem Stable.edit_keeps (h : Stable A P) (hf : ∀ s, (f s).localPart = s.localPart) :
    Keeps P (modifySess f) :=
  h.local_keeps fun s => .of_eq (hf s)

theorem SteadyStable.steady_keeps (h : SteadyStable A P) (hf : ∀ s : Session, s.Steady (f s)) :
    Keeps P (modifySess f) :=
  .modify fun st hst => h.sess hst (hf st.sess)

theorem SteadyStable.edit_keeps (h : SteadyStable A P) (hf : ∀ s, (f s).steadyPart = s.steadyPart) :
    Keeps P (modifySess f) :=
  h.steady_keeps fun s => .of_eq (hf s)

theorem QuietStable.quiet_keeps (h : QuietStable A P) (hf : ∀ s : Session, s.Quiet (f s)) :
    Keeps P (modifySess f) :=
  .modify fun st hst => h.sess hst (hf st.sess)

theorem QuietStable.edit_keeps (h : QuietStable A P)
    (hf : ∀ s, (f s).localPart = s.localPart ∧ (f s).quietPart = s.quietPart) :
    Keeps P (modifySess f) :=
  h.quiet_keeps fun s => .of_eq (hf s).1 (hf s).2

theorem StillStable.still_keeps (h : StillStable A P) (hf : ∀ s : Session, s.Still (f s)) :
    Keeps P (modifySess f) :=
  .modify fun st hst => h.sess hst (hf st.sess)

theorem record_keeps (h : StillStable A P) {a : Action} (ha : A a) : Keeps P (record a) :=
  .modify fun _ hst => h.record hst ha

theorem Session.addOut_still (s : Session) (ps : List Pkt) : s.Still (s.addOut ps) :=
  ⟨⟨⟨rfl, rfl, ⟨⟨Nat.le_refl _, id⟩, rfl⟩, rfl, fun _ h => h⟩, rfl, rfl, rfl, rfl, rfl, rfl, rfl⟩,
    rfl, rfl, rfl⟩

theorem mySessAddPktOutClient_keeps (h : StillStable A P) (p : Pkt) :
    Keeps P (mySessAddPktOutClient p) :=
  h.still_keeps fun s => s.addOut_still [p]

theorem getMybe_keeps (i : Nat) : Keeps P (getMybe i) := by
  refine Keeps.get.bind fun st => ?_
  split
  · exact .throw _
  · exact .pure _

theorem forHostgroups_keeps {f : Nat → SessM Unit} (hf : ∀ i, Keeps P (f i)) :
    Keeps P (forHostgroups f) :=
  Keeps.get.bind fun _ => .forM fun i _ => hf i

theorem syncServerBytesAtCmd_keeps (h : StillStable A P) : Keeps P syncServerBytesAtCmd := by
  refine h.still_keeps fun s => ?_
  cases s.serverMyds with
  | none => exact ⟨.of_eq rfl rfl, rfl, rfl, rfl⟩
  | some myds => exact ⟨.of_eq rfl rfl, rfl, rfl, rfl⟩

/-! ### Answers to the client -/

theorem writeOnePktToNet_keeps (h : StillStable A P) (p : Pkt) (send : List Int) :
    Keeps P (writeOnePktToNet p send) := by
  refine (mySessAddPktOutClient_keeps h p).bind fun _ => ?_
  -- the stream that is stored at the end was read at the start, so the state is followed here
  intro st hst
  simp only [wp_bind, wp_get, wp_lift]
  cases hbuf : st.sess.clientMyds.array2buffer with
  | none => exact hst
  | some r =>
    cases hall : writeAll send r.1 with
    | error e => simpa [deref, hall] using hst
    | ok w =>
      have hwrites := (MysqlDataStream.array2buffer_writes hbuf).trans (writeAll_writes hall)
      simp only [deref, hall]
      exact h.sess hst ⟨⟨⟨rfl, rfl, hwrites.toSends, rfl, fun _ hw => hw⟩, rfl, rfl, rfl, rfl, rfl,
        rfl, rfl⟩, rfl, rfl, congrArg (·.pkts) hwrites.input⟩

theorem initQueryMetadata_keeps (h : SteadyStable A P) (p : Option Pkt) :
    Keeps P (initQueryMetadata p) := by
  refine Keeps.get.bind fun st => ?_
  refine .ite (.throw _) ?_
  exact h.edit_keeps fun _ => rfl

theorem queryStatisticsSet_keeps (h : StillStable A P) : Keeps P queryStatisticsSet := by
  refine Keeps.get.bind fun st => ?_
  split
  · exact .throw _
  · exact .throw _
  · refine (Keeps.lift _).bind fun _ => (Keeps.lift _).bind fun _ => ?_
    exact h.still_keeps fun _ => ⟨.of_eq rfl rfl, rfl, rfl, rfl⟩

theorem computeQueryChecksum_keeps (hsum : ∀ (st : St) (fed : Option (List Byte)), P st →
      P { st with sess := { st.sess with
        queryInfo := { st.sess.queryInfo with queryChecksum := fed } } }) :
    Keeps P computeQueryChecksum := by
  refine Keeps.get.bind fun st => ?_
  dsimp only
  split
  · exact .pure _
  · refine (Keeps.lift _).bind fun _ => (Keeps.lift _).bind fun _ => ?_
    exact Keeps.bind (Keeps.modify fun st hst => hsum st _ hst) fun _ => Keeps.pure _

theorem getResultFromMysqlQueryCache_keeps (h : SteadyStable A P) (hhit : A .cacheHit) :
    Keeps P getResultFromMysqlQueryCache := by
  refine (computeQueryChecksum_keeps fun _ _ hst => h.sess hst (.of_eq rfl)).bind fun fed =>
    Keeps.get.bind fun st => ?_
  dsimp only
  split
  · exact .pure _
  · refine (mySessAddPktOutClient_keeps h.still _).bind fun _ => .bind ?_ fun _ => ?_
    · exact h.edit_keeps fun _ => rfl
    · refine (record_keeps h.still hhit).bind fun _ => .bind ?_ fun _ => .pure _
      exact .when fun _ => queryStatisticsSet_keeps h.still

theorem setDefaultDestination_keeps (h : QuietStable A P) : Keeps P setDefaultDestination := by
  refine Keeps.get.bind fun st => .bind (.ite ?_ (.pure _)) fun hg => ?_
  · refine Keeps.get.bind fun _ => .bind ?_ fun _ => .pure _
    exact h.edit_keeps fun _ => ⟨rfl, rfl⟩
  · exact h.edit_keeps fun _ => ⟨rfl, rfl⟩

theorem processQueryRules_keeps (h : SteadyStable A P) (p : Pkt) (fill : Nat → Byte) :
    Keeps P (processQueryRules p fill) := by
  refine Keeps.get.bind fun st => (Keeps.lift _).bind fun r => Keeps.bind ?_ fun _ => ?_
  · exact h.edit_keeps fun _ => rfl
  · refine .bind ?_ fun _ => .pure _
    exact .when fun _ => setDefaultDestination_keeps h.quiet

theorem clientComQuery_keeps (h : DispatchStable A P) (hhit : A .cacheHit) (p : Pkt)
    (fill : Nat → Byte) : Keeps P (clientComQuery p fill) := by
  have hs := h.toSteadyStable
  have hcache := getResultFromMysqlQueryCache_keeps hs hhit
  refine Keeps.get.bind fun st => .ite ?_ ?_
  · exact .bind (.modify fun _ ht => h.command _ ht) fun _ => .pure _
  · refine (initQueryMetadata_keeps hs _).bind fun _ => .bind ?_ fun _ => ?_
    · exact h.edit_keeps fun _ => rfl
    · refine .bind (.ite hcache (.pure _)) fun hit => .ite (.pure _) ?_
      refine (processQueryRules_keeps hs _ _).bind fun _ => Keeps.get.bind fun _ => ?_
      refine .bind (.when fun _ => .bind ?_ fun _ => ?_) fun _ => .pure _
      · exact h.edit_keeps fun _ => rfl
      · exact hcache.bind fun _ => .pure _

theorem clientComStatistics_keeps (h : SteadyStable A P) : Keeps P clientComStatistics := by
  refine h.steady_keeps fun s => ?_
  split
  · exact .of_eq rfl
  · exact .of_eq rfl

theorem adminComQuery_keeps (h : SteadyStable A P) (hadmin : A .adminQuery) (env : PktEnv) :
    Keeps P (adminComQuery env) :=
  (record_keeps h.still hadmin).bind fun _ =>
    h.steady_keeps fun _ => ⟨⟨rfl, rfl, ⟨⟨Nat.le_refl _, id⟩, rfl⟩, rfl, fun _ hw => hw⟩, rfl, rfl⟩

theorem checkAuthSwitchResponsePacket_frame (sh : Shared) (s : Session) (p : Pkt) (m : Nat → Byte) :
    ∃ password, (checkAuthSwitchResponsePacket sh s p m).1 =
      { s with waitingChangeUserResponse := false, mysqlPassword := password } := by
  unfold checkAuthSwitchResponsePacket
  dsimp only
  split
  · exact ⟨_, rfl⟩
  · split
    · exact ⟨_, rfl⟩
    · split
      · exact ⟨_, rfl⟩
      · split <;> exact ⟨_, rfl⟩

theorem checkAuthSwitchResponsePacket_steady (sh : Shared) (s : Session) (p : Pkt)
    (m : Nat → Byte) : s.Steady (checkAuthSwitchResponsePacket sh s p m).1 := by
  obtain ⟨password, h⟩ := checkAuthSwitchResponsePacket_frame sh s p m
  rw [h]
  exact ⟨⟨rfl, rfl, .refl _, rfl, fun _ hw => (Bool.false_ne_true hw).elim⟩, rfl, rfl⟩

theorem authSwitchResponse_keeps (h : SteadyStable A P) (hauth : ∀ rc, A (.authSwitch rc)) (p : Pkt)
    (env : PktEnv) : Keeps P (authSwitchResponse p env) := by
  refine Keeps.get.bind fun st => .bind ?_ fun _ => (record_keeps h.still (hauth _)).bind fun _ =>
    ?_
  · exact h.steady_keeps fun s => checkAuthSwitchResponsePacket_steady st.sh s p _
  · refine .ite (h.edit_keeps fun _ => rfl) ?_
    exact (mySessAddPktOutClient_keeps h.still _).bind fun _ => h.edit_keeps fun _ => rfl

theorem clientComDefault_keeps (h : SteadyStable A P) (hauth : ∀ rc, A (.authSwitch rc)) (p : Pkt)
    (env : PktEnv) : Keeps P (clientComDefault p env) := by
  refine Keeps.get.bind fun st => .bind ?_ fun _ => h.steady_keeps fun s => ?_
  · exact .when fun _ => authSwitchResponse_keeps h hauth p env
  · split
    · exact .of_eq rfl
    · exact .of_eq rfl

/-! ### Connections -/

/-- Resetting backend `i` keeps `P` where the server of the backend is OFFLINE_SOFT and the backend
    is not in a transaction. -/
def KeepsReplace (P : St → Prop) (now : Nat → Nat) (i : Nat) : Prop :=
  ∀ (st : St) {mybe : MysqlBackend} {myds : MysqlDataStream} {m : Nat} {ms : MysqlServer}, P st →
    st.sess.mybes[i]? = some mybe → mybe.serverMyds = some myds → myds.activeTransaction = false →
    mybe.mshge = some m → st.sh.msPtr m = .ok ms → ms.status = .offlineSoft →
    wp (bereset i false now) (fun _ t => P t) st

theorem KeepsReplace.of_keeps {i : Nat} (h : Keeps P (bereset i false now)) :
    KeepsReplace P now i :=
  fun st _ _ _ _ hst _ _ _ _ _ _ => h st hst

/-- The steps in which a backend for hostgroup `hg` is found keep `P`. -/
structure KeepsBackends (P : St → Prop) (env : PktEnv) (hg : Nat) : Prop where
  connect1 : Keeps P (connectBackend hg env.connect1 env.fill)
  connect2 : Keeps P (connectBackend hg env.connect2 env.fill)
  markNotReusable : Keeps P (markNotReusable hg)
  replace : KeepsReplace P env.now hg

theorem disconnectBackends_keeps (h : StillStable A P)
    (hreset : ∀ i, Keeps P (bereset i false now)) : Keeps P (disconnectBackends now) := by
  refine .bind ?_ fun _ => (forHostgroups_keeps hreset).bind fun _ => ?_
  · refine Keeps.get.bind fun st => ?_
    split
    · exact .pure _
    · exact (getMybe_keeps _).bind fun _ => .when fun _ => hreset _
  · exact h.still_keeps fun _ => ⟨.of_eq rfl rfl, rfl, rfl, rfl⟩

theorem clientComChangeUser_wp (h : SteadyStable A P) (huser : A .changeUser)
    (hreset : st.sess.admin = 0 → ∀ i, Keeps P (bereset i false env.now)) (p : Pkt) (hst : P st) :
    wp (clientComChangeUser p env) (fun _ t => P t) st := by
  unfold clientComChangeUser
  rw [wp_get_bind]
  dsimp only
  split
  case isTrue => exact h.sess hst (.of_eq rfl)
  case isFalse hadmin =>
    -- the flag is set here, and this is no admin session
    have hrest := (mySessAddPktOutClient_keeps h.still
      (createAuthSwitchRequestPacket st.sess.scrambleBuf)).bind fun _ =>
        .bind (h.edit_keeps fun s => (rfl : { s with defaultHostgroup := -1 }.steadyPart =
          s.steadyPart)) fun _ => (record_keeps h.still huser).bind fun _ =>
            disconnectBackends_keeps h.still (hreset (Nat.eq_zero_of_not_pos hadmin))
    exact hrest _ (@SteadyStable.sess A P h st _ hst
      ⟨⟨rfl, rfl, .refl _, rfl, fun hpos => absurd hpos hadmin⟩, rfl, rfl⟩)

theorem clientComInitDb_wp (h : SteadyStable A P) (hdb : A .initDb)
    (hreset : st.sess.admin = 0 ∧ sizeofMysqlHdr + 1 ≤ p.length ∧
      st.sess.mysqlSchemaCur ≠ some (initDbSchema p) → ∀ i, Keeps P (bereset i false env.now))
    (hst : P st) : wp (clientComInitDb p env) (fun _ t => P t) st := by
  unfold clientComInitDb
  rw [wp_get_bind]
  dsimp only
  split
  case isTrue => exact h.sess hst (.of_eq rfl)
  case isFalse hadmin =>
    split
    case isTrue => exact hst
    case isFalse hlen =>
      refine wp_bind_of (record_keeps h.still hdb st hst) (fun _ t ht => ?_) fun _ _ ht => ht
      split
      case isTrue =>
        refine (?_ : Keeps P _) t ht
        exact .bind (h.edit_keeps fun _ => rfl) fun _ => mySessAddPktOutClient_keeps h.still _
      case isFalse hschema =>
        have hreset := hreset ⟨Nat.eq_zero_of_not_pos hadmin, Nat.le_of_not_lt hlen, hschema⟩
        refine (?_ : Keeps P _) t ht
        refine .bind (h.edit_keeps fun _ => rfl) fun _ => ?_
        refine (disconnectBackends_keeps h.still hreset).bind fun _ => ?_
        refine .bind (h.edit_keeps fun _ => rfl) fun _ => ?_
        exact (mySessAddPktOutClient_keeps h.still _).bind fun _ => h.edit_keeps fun _ => rfl

theorem createBackend_keeps (h : StillStable A P) {cenv : ConnectEnv} {fill : Nat → Byte}
    (hconnect : Keeps P (connectBackend hg cenv fill)) (send : List Int) :
    Keeps P (mysqlSessionCreateBackendForHostgroup hg cenv fill send) :=
  hconnect.bind fun _ => .when fun _ => writeOnePktToNet_keeps h _ _

theorem serverOf_keeps (mybe : MysqlBackend) : Keeps P (serverOf mybe) :=
  (Keeps.lift _).bind fun _ => Keeps.get.bind fun _ => Keeps.lift _

theorem wp_getMybe (i : Nat) (Q : Except Fault MysqlBackend → St → Prop) (st : St) :
    wp (getMybe i) Q st ↔
      match st.sess.mybes[i]? with
      | none => Q (.error .outOfBounds) st
      | some mybe => Q (.ok mybe) st := by
  unfold getMybe
  rw [wp_get_bind]
  cases st.sess.mybes[i]? <;> rfl

theorem wp_serverOf (mybe : MysqlBackend) (Q : Except Fault MysqlServer → St → Prop) (st : St) :
    wp (serverOf mybe) Q st ↔
      match mybe.mshge with
      | none => Q (.error .nullDereference) st
      | some m => Q (st.sh.msPtr m) st := by
  unfold serverOf
  cases mybe.mshge with
  | none => rfl
  | some m => exact wp_get_bind _ _ _

theorem replaceOfflineSoft_keeps (h : StillStable A P) (hb : KeepsBackends P env hg) :
    Keeps P (replaceOfflineSoft hg env) := by
  intro st hst
  unfold replaceOfflineSoft
  rw [wp_bind, wp_getMybe]
  cases hmybe : st.sess.mybes[hg]? with
  | none => exact hst
  | some mybe =>
    dsimp only
    rw [wp_bind, wp_serverOf]
    cases hm : mybe.mshge with
    | none => exact hst
    | some m =>
      dsimp only
      cases hms : st.sh.msPtr m with
      | error e => exact hst
      | ok ms =>
        dsimp only
        split
        case isFalse => exact hst
        case isTrue hsoft =>
          rw [wp_bind, wp_lift]
          cases hmyds : mybe.serverMyds with
          | none => exact hst
          | some myds =>
            simp only [deref]
            split
            case isFalse => exact hst
            case isTrue htrans =>
              refine wp_bind_of (hb.replace st hst hmybe hmyds htrans hm hms hsoft)
                (fun _ t ht => ?_) fun _ _ ht => ht
              refine (createBackend_keeps h hb.connect2 _).bind (fun _ => ?_) t ht
              refine (getMybe_keeps hg).bind fun mybe => (Keeps.lift _).bind fun m => ?_
              exact Keeps.get.bind fun st => Keeps.ite (Keeps.throw _) (Keeps.pure _)

theorem setStatsServer_keeps (h : StillStable A P) (hg : Nat) (ms : MysqlServer) :
    Keeps P (setStatsServer hg ms) := by
  refine Keeps.get.bind fun st => .ite ?_ (.pure _)
  split
  · exact .pure _
  · exact .throw _
  · exact h.still_keeps fun _ => ⟨.of_eq rfl rfl, rfl, rfl, rfl⟩

theorem sendToBackend_wp (h : StillStable A P) (hQ : StillStable A Q)
    (himp : ∀ st, P st → Q st) {n : Nat} (hforward : A (.forwarded hg))
    (hadd : ∀ t, P t → wp (mySessAddPktOutServer hg p n) (fun _ t => Q t) t) (hst : P st) :
    wp (sendToBackend hg p n) (fun _ t => Q t) st := by
  refine wp_bind_of (getMybe_keeps hg st hst) (fun mybe t ht => ?_) fun _ t ht => himp t ht
  refine wp_bind_of (serverOf_keeps mybe t ht) (fun ms t ht => ?_) fun _ t ht => himp t ht
  split
  · have hedit : Keeps P (modifySess fun s => { s with serverMybe := some hg }) :=
      h.still_keeps fun _ => ⟨.of_eq rfl rfl, rfl, rfl, rfl⟩
    refine wp_bind_of (hedit t ht) (fun _ t ht => ?_) fun _ t ht => himp t ht
    refine wp_bind_of (setStatsServer_keeps h hg ms t ht) (fun _ t ht => ?_) fun _ t ht => himp t ht
    refine wp_bind_of (syncServerBytesAtCmd_keeps h t ht) (fun _ t ht => ?_) fun _ t ht => himp t ht
    refine wp_bind_of (hadd t ht) (fun _ t ht => ?_) fun _ _ ht => ht
    exact (record_keeps hQ hforward).bind (fun _ => .pure _) t ht
  · exact himp t ht

theorem queueBackClientPkt_keeps (h : QuietStable A P) (p : Pkt) : Keeps P (queueBackClientPkt p) :=
  h.quiet_keeps fun _ =>
    ⟨⟨rfl, rfl, ⟨⟨Nat.le_refl _, id⟩, rfl⟩, rfl, fun _ hw => hw⟩, rfl, rfl, rfl, rfl, rfl, rfl, rfl⟩

/-- The stages of forwarding: `P` after the search for a backend, `R` after the mark, and `Q` in the
    end.  Only the last step ends with `next`, and only putting the packet back with `ret0`. -/
theorem forwardTo_stages {Q : Except Fault Flow → St → Prop} (h : StillStable A R)
    (himp : ∀ r st, r ≠ .ok .next → r ≠ .ok .ret0 → P st → Q r st)
    (himpR : ∀ r st, r ≠ .ok .next → r ≠ .ok .ret0 → R st → Q r st)
    (hensure : wp (ensureBackend hg env) (fun _ t => P t) st)
    (hmark : ∀ t, P t → wp (markNotReusable hg) (fun _ t => R t) t)
    (hreplace : Keeps R (replaceOfflineSoft hg env))
    (hback : ∀ t, R t → wp (do queueBackClientPkt p; return Flow.ret0 : SessM Flow) Q t)
    (hsend : ∀ t, R t → wp (sendToBackend hg p env.response) Q t) :
    wp (forwardTo hg p env) Q st := by
  have herr : ∀ e t, R t → Q (.error e) t := fun e t ht => himpR _ t (nofun) (nofun) ht
  refine wp_bind_of hensure (fun _ u hu => ?_) fun e t ht => himp _ t (nofun) (nofun) ht
  refine wp_bind_of (hmark u hu) (fun _ u hu => ?_) herr
  refine wp_bind_of (getMybe_keeps hg u hu) (fun mybe u hu => ?_) herr
  rw [wp_get_bind]
  split
  · exact hback u hu
  · rw [wp_ite, wp_ite]
    split
    · exact hback u hu
    · split
      · exact wp_bind_of (writeOnePktToNet_keeps h _ _ u hu)
          (fun _ t ht => himpR _ t (nofun) (nofun) ht) herr
      · refine wp_bind_of (Keeps.lift _ u hu) (fun ms u hu => ?_) herr
        split
        · exact himpR _ u (nofun) (nofun) hu
        · exact wp_bind_of (hreplace u hu) (fun _ u hu => hsend u hu) herr

/-- The chain of forwarding, if what holds in the end is stable as well. -/
theorem forwardTo_chain (h : StillStable A R) (hQ : StillStable A Q)
    (himp : ∀ st, P st → Q st) (himpR : ∀ st, R st → Q st)
    (hforward : A (.forwarded hg)) (hensure : wp (ensureBackend hg env) (fun _ t => P t) st)
    (hmark : ∀ t, P t → wp (markNotReusable hg) (fun _ t => R t) t)
    (hreplace : Keeps R (replaceOfflineSoft hg env)) (hback : Keeps R (queueBackClientPkt p))
    (hadd : ∀ t, R t → wp (mySessAddPktOutServer hg p env.response) (fun _ t => Q t) t) :
    wp (forwardTo hg p env) (fun _ t => Q t) st :=
  forwardTo_stages h (fun _ t _ _ ht => himp t ht) (fun _ t _ _ ht => himpR t ht) hensure
    hmark hreplace
    (fun t ht => wp_bind_of (hback t ht) (fun _ t ht => himpR t ht) fun _ t ht => himpR t ht)
    fun _ hu => sendToBackend_wp h hQ himpR hforward hadd hu

theorem ensureBackend_keeps (h : StillStable A P) (hb : KeepsBackends P env hg) :
    Keeps P (ensureBackend hg env) :=
  (getMybe_keeps hg).bind fun _ => Keeps.get.bind fun _ =>
    .ite (.pure _) (createBackend_keeps h hb.connect1 _)

/-- Up to the last step forwarding keeps `P`, and the last step keeps what follows from `P`. -/
theorem forwardTo_wp (h : StillStable A P) (hQ : StillStable A Q)
    (himp : ∀ st, P st → Q st) (hforward : A (.forwarded hg))
    (hb : KeepsBackends P env hg) (hback : Keeps P (queueBackClientPkt p))
    (hadd : Keeps Q (mySessAddPktOutServer hg p env.response)) (hst : P st) :
    wp (forwardTo hg p env) (fun _ t => Q t) st :=
  forwardTo_chain h hQ himp himp hforward (ensureBackend_keeps h hb st hst) hb.markNotReusable
    (replaceOfflineSoft_keeps h hb) hback fun t ht => hadd t (himp t ht)

theorem forwardTo_keeps (h : QuietStable A P) (hforward : A (.forwarded hg))
    (hb : KeepsBackends P env hg) (hadd : Keeps P (mySessAddPktOutServer hg p env.response)) :
    Keeps P (forwardTo hg p env) :=
  fun _ hst => forwardTo_wp h.still h.still (fun _ ht => ht) hforward hb
    (queueBackClientPkt_keeps h p) hadd hst

theorem destinationHostgroup_keeps (h : QuietStable A P) : Keeps P destinationHostgroup := by
  refine Keeps.get.bind fun st => .bind (.when fun _ => setDefaultDestination_keeps h) fun _ => ?_
  refine Keeps.get.bind fun st => .ite (.throw _) (.ite (.throw _) ?_)
  exact .ite (.throw _) (.pure _)

theorem afterDispatch_keeps (h : SteadyStable A P) (hforward : ∀ hg, A (.forwarded hg))
    (hb : ∀ hg, KeepsBackends P env hg)
    (hadd : ∀ hg p, Keeps P (mySessAddPktOutServer hg p env.response)) (p : Pkt) :
    Keeps P (afterDispatch p env) := by
  refine Keeps.get.bind fun st => .ite ?_ ?_
  · exact (writeOnePktToNet_keeps h.still _ _).bind fun _ => .pure _
  · refine .bind (h.edit_keeps fun _ => rfl) fun _ => .ite (.pure _) ?_
    exact (destinationHostgroup_keeps h.quiet).bind fun hg =>
      forwardTo_keeps h.quiet (hforward hg) (hb hg) (hadd hg p)

/-! ### Packets of the client -/

/-- The actions of the switch over the command are in `A`, those of `client_COM_QUERY` apart. -/
structure CommandActions (A : Action → Prop) : Prop where
  adminQuery : A .adminQuery
  initDb : A .initDb
  changeUser : A .changeUser
  authSwitch : ∀ rc, A (.authSwitch rc)

/-- All actions of `process_client_pkts` are in `A`. -/
structure ClientActions (A : Action → Prop) : Prop extends CommandActions A where
  dispatched : ∀ c, A (.dispatched c)
  cacheHit : A .cacheHit
  forwarded : ∀ hg, A (.forwarded hg)

theorem takeClientPkt_keeps (h : DispatchStable A P) (htake : ∀ c, A (.dispatched c))
    (env : PktEnv) : Keeps P (takeClientPkt env) := by
  refine Keeps.get.bind fun st => ?_
  split
  · exact .throw _
  · next p pkts _ =>
    refine .bind (.modify fun t ht => ?_) fun _ => ?_
    · have hcommand := h.command (p.mem env.beyond sizeofMysqlHdr).toNat ht
      exact @SteadyStable.sess A P h.toSteadyStable
        { t with sess := { t.sess with clientCommand := (p.mem env.beyond sizeofMysqlHdr).toNat } }
        _ hcommand ⟨⟨rfl, rfl, ⟨⟨Nat.le_refl _, id⟩, rfl⟩, rfl, fun _ hw => hw⟩, rfl, rfl⟩
    · exact (record_keeps h.still (htake _)).bind fun _ => .pure _

/-- The state in which a packet `p` is dispatched, the ones behind it being `pkts`. -/
def started (env : PktEnv) (p : Pkt) (pkts : List Pkt) (st : St) : St :=
  { st with sess := { startPkt st.sh.glovars (p.mem env.beyond sizeofMysqlHdr) p pkts st.sess with
      trace := st.sess.trace ++ [.dispatched (p.mem env.beyond sizeofMysqlHdr)] } }

theorem wp_takeClientPkt {pkts : List Pkt} (hpkts : st.sess.clientMyds.input.pkts = p :: pkts)
    (Q : Except Fault Pkt → St → Prop) : wp (takeClientPkt env) Q st ↔
    Q (.ok p) (started env p pkts st) := by
  unfold takeClientPkt
  simp only [wp_bind, wp_get, hpkts]
  exact Iff.rfl

/-- The command resets all backends of the session. -/
def DisconnectsOn (s : Session) (p : Pkt) : Prop :=
  s.admin = 0 ∧ (s.clientCommand = mysqlComChangeUser ∨
    s.clientCommand = mysqlComInitDb ∧ sizeofMysqlHdr + 1 ≤ p.length ∧
    s.mysqlSchemaCur ≠ some (initDbSchema p))

theorem dispatchCommand_other (h : SteadyStable A P) (hA : CommandActions A)
    (hother : ¬ (st.sess.clientCommand = mysqlComQuery ∧ st.sess.admin = 0))
    (hreset : DisconnectsOn st.sess p → ∀ i, Keeps P (bereset i false env.now)) (hst : P st) :
    wp (dispatchCommand p env) (fun _ t => P t) st := by
  unfold dispatchCommand
  rw [wp_get_bind]
  dsimp only
  split
  case isTrue => exact (clientComStatistics_keeps h).bind (fun _ => .pure p) st hst
  case isFalse =>
    split
    case isTrue hinit =>
      refine wp_bind_of (clientComInitDb_wp h hA.initDb
        (fun hd => hreset ⟨hd.1, .inr ⟨hinit, hd.2⟩⟩) hst) (fun _ _ ht => ht) fun _ _ ht => ht
    case isFalse =>
      split
      case isTrue hquery =>
        rw [if_neg fun hadmin => hother ⟨hquery, hadmin⟩]
        exact (adminComQuery_keeps h hA.adminQuery env).bind (fun _ => .pure p) st hst
      case isFalse =>
        split
        case isTrue hchange =>
          refine wp_bind_of (clientComChangeUser_wp h hA.changeUser
            (fun hadmin => hreset ⟨hadmin, .inl hchange⟩) p hst) (fun _ _ ht => ht) fun _ _ ht => ht
        case isFalse =>
          exact (clientComDefault_keeps h hA.authSwitch p env).bind (fun _ => .pure p) st hst

theorem wp_dispatchCommand_query
    (hquery : st.sess.clientCommand = mysqlComQuery ∧ st.sess.admin = 0)
    (Q : Except Fault Pkt → St → Prop) : wp (dispatchCommand p env) Q st ↔
    wp (clientComQuery p env.fill) Q st := by
  unfold dispatchCommand
  rw [wp_get_bind]
  dsimp only
  rw [hquery.1, hquery.2]
  exact Iff.rfl

theorem dispatchCommand_wp (h : DispatchStable A P) (hA : ClientActions A)
    (hreset : DisconnectsOn st.sess p → ∀ i, Keeps P (bereset i false env.now)) (hst : P st) :
    wp (dispatchCommand p env) (fun _ t => P t) st := by
  by_cases hquery : st.sess.clientCommand = mysqlComQuery ∧ st.sess.admin = 0
  · rw [wp_dispatchCommand_query hquery]
    exact clientComQuery_keeps h hA.cacheHit p env.fill st hst
  · exact dispatchCommand_other h.toSteadyStable hA.toCommandActions hquery hreset hst

/-! ### Packets of the server -/

theorem detachBackends_keeps (hdetach : ∀ i, Keeps P (bedetach i now)) :
    Keeps P (detachBackends now) := by
  refine forHostgroups_keeps fun i => .bind ?_ fun inTrans => Keeps.get.bind fun st => ?_
  · refine Keeps.get.bind fun st => (Keeps.lift _).bind fun _ => (getMybe_keeps _).bind fun _ => ?_
    exact (Keeps.lift _).bind fun _ => Keeps.pure _
  · exact .when fun _ => hdetach i

theorem collect_local (maxSize : Nat) (p : Pkt) (s : Session) : s.Local (collect maxSize p s) := by
  unfold collect
  dsimp only
  split
  · exact .of_eq rfl
  · exact ⟨rfl, rfl, ⟨⟨Nat.le_refl _, id⟩, rfl⟩, rfl, fun _ hw => hw⟩

theorem flushResultset_local (maxSize : Nat) (s : Session) :
    s.Local (flushResultset maxSize s) := by
  unfold flushResultset
  split
  · exact ⟨rfl, rfl, ⟨⟨Nat.le_refl _, id⟩, rfl⟩, rfl, fun _ hw => hw⟩
  · exact .of_eq rfl

theorem cacheResult_keeps (h : Stable A P) (room : Bool) (fill : Nat → Byte) :
    Keeps P (cacheResult room fill) := by
  refine Keeps.get.bind fun st => Keeps.when fun _ => (Keeps.lift _).bind fun fed => ?_
  exact Keeps.when fun _ => Keeps.modify fun _ hst => h.cache _ hst

theorem completeResultset_keeps (h : Stable A P) (env : SrvEnv) :
    Keeps P (completeResultset env) := by
  refine Keeps.get.bind fun st => .bind (h.edit_keeps fun _ => rfl) fun _ => ?_
  refine .bind (.when fun _ => queryStatisticsSet_keeps h.still) fun _ => ?_
  refine (syncServerBytesAtCmd_keeps h.still).bind fun _ => ?_
  refine .bind (h.edit_keeps fun _ => rfl) fun _ => ?_
  exact (cacheResult_keeps h _ _).bind fun _ => h.local_keeps fun s => flushResultset_local _ s

/-- The state after `resultset_progress` has followed a packet. -/
def progressed (r : MysqlResponseType) (st : St) : St :=
  { st with sess := { st.sess with
    resultsetProgress := resultsetStep r st.sess.resultsetProgress } }

theorem serverComQuery_wp (h : Stable A P) {env : SrvEnv} {r : MysqlResponseType} (p : Pkt)
    (hdetach : endsWithStatus r st.sess.resultsetProgress = true →
      wp (detachBackends env.now) (fun _ t => P t) (progressed r st))
    (hst : P st) : wp (serverComQuery p r env) (fun _ t => P t) st := by
  have hprogress : P (progressed r st) := h.sess hst (.of_eq rfl)
  have hwhen : wp (when (endsWithStatus r st.sess.resultsetProgress) (detachBackends env.now))
      (fun _ t => P t) (progressed r st) := by
    unfold when
    split
    · next hends => exact hdetach hends
    · exact hprogress
  unfold serverComQuery
  rw [wp_get_bind, wp_bind, wp_modifySess]
  refine wp_bind_of hwhen (fun _ t ht => ?_) fun _ _ ht => ht
  refine (?_ : Keeps P _) t ht
  refine .bind (h.local_keeps fun s => collect_local _ p s) fun _ => ?_
  exact .when fun _ => completeResultset_keeps h env

theorem serverComInitDb_keeps (h : Stable A P) (hforget : Keeps P forgetConnpool) (p : Pkt)
    (r : MysqlResponseType) : Keeps P (serverComInitDb p r) := by
  refine hforget.bind fun _ => ?_
  refine .bind (.when fun _ => h.edit_keeps fun _ => rfl) fun _ => ?_
  refine .bind (.when fun _ => mySessAddPktOutClient_keeps h.still p) fun _ => ?_
  refine .bind (h.edit_keeps fun _ => rfl) fun _ => ?_
  exact syncServerBytesAtCmd_keeps h.still

end Rules

/-! ## Properties that connections do not matter to -/

/-- The changes that code for connections makes to the shared data are all in `K`. -/
structure WireChanges (K : Shared → Shared → Prop) : Prop where
  refl : ∀ sh, K sh sh
  conn : ∀ sh c f, K sh (sh.modifyConn c f)
  reset : ∀ {sh mybe fc now sh' mybe'}, backendReset sh mybe fc now = .ok (sh', mybe') → K sh sh'
  detach : ∀ {sh mybe fc now sh' mybe'}, backendDetach sh mybe fc now = .ok (sh', mybe') → K sh sh'
  create : ∀ {cred env fill hg n sh mybe sh' mybe' rc},
    createBackendFrom cred env fill hg n sh mybe = .ok (sh', mybe', rc) → K sh sh'

theorem wireChanges_true : WireChanges fun _ _ => True :=
  ⟨fun _ => trivial, fun _ _ _ => trivial, fun _ => trivial, fun _ => trivial, fun _ => trivial⟩

/-- A property that replacing a backend keeps, and that changes of the shared data in `K` keep. -/
structure RewiredBy (K : Shared → Shared → Prop) (P : St → Prop) : Prop where
  backend : ∀ (st : St) (sh : Shared) (i : Nat) (mybe : MysqlBackend), K st.sh sh → P st →
    P { sh := sh, sess := { st.sess with mybes := st.sess.mybes.set i mybe } }
  shared : ∀ (st : St) (sh : Shared), K st.sh sh → P st → P { st with sh := sh }

namespace RewiredBy

variable {K : Shared → Shared → Prop} {P : St → Prop} (h : RewiredBy K P) (hK : WireChanges K)

include h hK

theorem setMybe (i : Nat) (mybe : MysqlBackend) : Keeps P (setMybe i mybe) :=
  .modify fun st hst => h.backend st st.sh i mybe (hK.refl st.sh) hst

theorem modifyConn (c : Nat) (f : MysqlCpEntry → MysqlCpEntry) :
    Keeps P (modifyShared fun sh => sh.modifyConn c f) :=
  .modify fun st hst => h.shared st _ (hK.conn st.sh c f) hst

theorem bereset (i : Nat) (fc : Bool) (now : Nat → Nat) : Keeps P (bereset i fc now) := by
  intro st hst
  unfold ProxySQL.bereset
  refine wp_bind_reads (getMybe_keeps i st rfl) (fun mybe => ?_) fun _ => hst
  rw [wp_get_bind, wp_bind, wp_lift]
  cases hreset : backendReset st.sh mybe fc now with
  | error e => exact hst
  | ok r => exact h.backend st r.1 i r.2 (hK.reset hreset) hst

theorem bedetach (i : Nat) (now : Nat → Nat) : Keeps P (bedetach i now) := by
  intro st hst
  unfold ProxySQL.bedetach
  refine wp_bind_reads (getMybe_keeps i st rfl) (fun mybe => ?_) fun _ => hst
  rw [wp_get_bind, wp_bind, wp_lift]
  cases hdetach : backendDetach st.sh mybe false now with
  | error e => exact hst
  | ok r => exact h.backend st r.1 i r.2 (hK.detach hdetach) hst

theorem connectBackend (hg : Nat) (env : ConnectEnv) (fill : Nat → Byte) :
    Keeps P (connectBackend hg env fill) := by
  intro st hst
  unfold ProxySQL.connectBackend
  rw [wp_get_bind, wp_ite]
  split
  · refine wp_bind_reads (getMybe_keeps hg st rfl) (fun mybe => ?_) fun _ => hst
    rw [wp_bind, wp_lift]
    generalize hcreate : createBackendFrom _ env fill hg 10 st.sh mybe = r
    cases r with
    | error e => exact hst
    | ok r => exact h.backend st r.1 hg r.2.1 (hK.create hcreate) hst
  · exact hst

theorem keepsBackends (env : PktEnv) (hg : Nat) : KeepsBackends P env hg where
  connect1 := h.connectBackend hK hg _ _
  connect2 := h.connectBackend hK hg _ _
  markNotReusable := by
    refine (getMybe_keeps hg).bind fun mybe => ?_
    split
    · exact .pure _
    · exact Keeps.get.bind fun st => .ite (h.modifyConn hK _ _) (.pure _)
  replace := .of_keeps (h.bereset hK hg false env.now)

theorem mySessAddPktOutServer (hg : Nat) (p : Pkt) (n : Nat) :
    Keeps P (mySessAddPktOutServer hg p n) := by
  refine (getMybe_keeps hg).bind fun mybe => (Keeps.lift _).bind fun myds => ?_
  refine (h.setMybe hK hg _).bind fun _ => ?_
  split
  · exact .pure _
  · exact Keeps.get.bind fun _ => h.modifyConn hK _ _

theorem forgetConnpool : Keeps P forgetConnpool := by
  refine Keeps.get.bind fun st => ?_
  split
  · exact .pure _
  · exact (getMybe_keeps _).bind fun mybe => h.setMybe hK _ _

end RewiredBy

/-- A property that does not look at the backends, and that changes of the shared data in `K`
    keep. -/
def UnwiredBy (K : Shared → Shared → Prop) (P : St → Prop) : Prop :=
  ∀ (st : St) (sh : Shared) (mybes : List MysqlBackend), K st.sh sh → P st →
    P { sh := sh, sess := { st.sess with mybes := mybes } }

namespace UnwiredBy

variable {K : Shared → Shared → Prop} {P : St → Prop} (h : UnwiredBy K P)

include h

theorem rewired : RewiredBy K P where
  backend st sh i mybe hsh hst := h st sh (st.sess.mybes.set i mybe) hsh hst
  shared st sh hsh hst := h st sh st.sess.mybes hsh hst

variable (hK : WireChanges K)

include hK

theorem bereset (i : Nat) (fc : Bool) (now : Nat → Nat) : Keeps P (bereset i fc now) :=
  h.rewired.bereset hK i fc now

theorem bedetach (i : Nat) (now : Nat → Nat) : Keeps P (bedetach i now) :=
  h.rewired.bedetach hK i now

theorem keepsBackends (env : PktEnv) (hg : Nat) : KeepsBackends P env hg :=
  h.rewired.keepsBackends hK env hg

theorem mySessAddPktOutServer (hg : Nat) (p : Pkt) (n : Nat) :
    Keeps P (mySessAddPktOutServer hg p n) :=
  h.rewired.mySessAddPktOutServer hK hg p n

theorem forgetConnpool : Keeps P forgetConnpool := h.rewired.forgetConnpool hK

end UnwiredBy

/-- A property that looks neither at the shared data nor at the backends. -/
def Unwired (P : St → Prop) : Prop :=
  ∀ (st : St) (sh : Shared) (mybes : List MysqlBackend), P st →
    P { sh := sh, sess := { st.sess with mybes := mybes } }

section Unwired

variable {P : St → Prop}

theorem Unwired.by (h : Unwired P) : UnwiredBy (fun _ _ => True) P :=
  fun st sh mybes _ hst => h st sh mybes hst

theorem Unwired.bereset (h : Unwired P) (i : Nat) (fc : Bool) (now : Nat → Nat) :
    Keeps P (bereset i fc now) :=
  h.by.bereset wireChanges_true i fc now

theorem Unwired.keepsBackends (h : Unwired P) (env : PktEnv) (hg : Nat) : KeepsBackends P env hg :=
  h.by.keepsBackends wireChanges_true env hg

theorem Unwired.mySessAddPktOutServer (h : Unwired P) (hg : Nat) (p : Pkt) (n : Nat) :
    Keeps P (mySessAddPktOutServer hg p n) :=
  h.by.mySessAddPktOutServer wireChanges_true hg p n

theorem Unwired.bedetach (h : Unwired P) (i : Nat) (now : Nat → Nat) : Keeps P (bedetach i now) :=
  h.by.bedetach wireChanges_true i now

theorem Unwired.forgetConnpool (h : Unwired P) : Keeps P forgetConnpool :=
  h.by.forgetConnpool wireChanges_true

end Unwired

/-! ## Properties of the trace -/

/-- A property that looks at the trace and the counters of the client's stream only. -/
def Blind (P : St → Prop) : Prop :=
  ∀ st st' : St, P st → st'.sess.trace = st.sess.trace →
    st.sess.clientMyds.Sends st'.sess.clientMyds → P st'

section Blind

variable {A : Action → Prop} {P : St → Prop}

theorem Blind.stable (h : Blind P) (hrecord : ∀ {st : St} {a : Action}, P st → A a →
    P { st with sess := { st.sess with trace := st.sess.trace ++ [a] } }) : Stable A P where
  sess hst hlocal := h _ _ hst hlocal.trace hlocal.client
  record := hrecord
  cache _ hst := h _ _ hst rfl (.refl _)

theorem Blind.unwired (h : Blind P) : Unwired P := fun st _ _ hst => h st _ hst rfl (.refl _)

/-- The trace is `tr` and actions in `A` after it. -/
def Grown (tr : List Action) (A : Action → Prop) (st : St) : Prop :=
  ∃ acts, st.sess.trace = tr ++ acts ∧ ∀ a ∈ acts, A a

theorem Grown.blind (tr : List Action) (A : Action → Prop) : Blind (Grown tr A) := by
  rintro st st' ⟨acts, htr, hacts⟩ htrace -
  exact ⟨acts, htrace.trans htr, hacts⟩

theorem Grown.stable (tr : List Action) (A : Action → Prop) : Stable A (Grown tr A) := by
  refine (Grown.blind tr A).stable fun {st a} hst ha => ?_
  obtain ⟨acts, htr, hacts⟩ := hst
  refine ⟨acts ++ [a], by simp [htr], fun b hb => ?_⟩
  rcases List.mem_append.1 hb with hb | hb
  · exact hacts b hb
  · obtain rfl := List.mem_singleton.1 hb
    exact ha

end Blind

end ProxySQL
