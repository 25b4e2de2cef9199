/-
  ProxySQL.Session.Steps

  A thread and its sessions as a transition system.

  A step of a session is a part of `session_handler`: a round over the sockets,
  the framing of what was read, the authentication, a client packet up to the
  point where it is forwarded, the forwarding, a server packet, and so on.
  Between two steps of a session the others take theirs, and the administrator
  changes the configuration.  A call of `session_handler` is a run of such steps
  (`sessionHandler_run`), so what holds in every run of steps holds between the
  packets of every call.
-/
import ProxySQL.Session.NetEffects
import ProxySQL.Lib.Run

namespace ProxySQL

open Lib List

/-! ## The two halves of a packet -/

/-- How far a client packet gets before it is forwarded. -/
inductive Dispatch where
  /-- it was answered, or the session is to be closed -/
  | done (flow : Flow)
  | forward (hg : Nat) (p : Pkt)

/-- A round behind the switch over the command, with `send` where the packet is to be sent on. -/
def afterCommand {α : Type} (done : Flow → α) (env : PktEnv) (send : SessM α) : SessM α := do
  let s := (← get).sess
  if s.healthy = false then
    authenticateMysqlClientSendERR env.send1
    return done .quit
  else
    modifySess fun s => { s with queryInfo :=
      { s.queryInfo with preparedStatement := isPreparedStatement s.clientCommand } }
    if s.mysqlQueryCacheHit then return done .next else send

/-- A round of the loop of `process_client_pkts`, with `send` where the packet is to be sent on. -/
def roundWith {α : Type} (done : Flow → α) (env : PktEnv) (send : Pkt → SessM α) : SessM α := do
  let p ← takeClientPkt env
  if (← get).sess.clientCommand = mysqlComQuit then return done .quit
  else
    let p ← dispatchCommand p env
    afterCommand done env (send p)

theorem roundWith_bind {α β : Type} {done : Flow → α} {d : Flow → β} {f : α → SessM β}
    (hdone : ∀ flow, f (done flow) = pure (d flow)) (env : PktEnv) (send : Pkt → SessM α) :
    roundWith done env send >>= f = roundWith d env fun p => send p >>= f := by
  unfold roundWith afterCommand
  simp only [bind_assoc]
  refine bind_congr fun p => bind_congr fun st => ?_
  split
  · rw [pure_bind, hdone]
  · simp only [bind_assoc]
    refine bind_congr fun q => bind_congr fun st => ?_
    split
    · simp only [bind_assoc, pure_bind, hdone]
    · simp only [bind_assoc]
      refine bind_congr fun _ => ?_
      split
      · rw [pure_bind, hdone]
      · rfl

/-- The destination of the packet, and the packet. -/
def addressed (p : Pkt) : SessM Dispatch := do
  let hg ← destinationHostgroup
  return .forward hg p

/-- A round of the loop of `process_client_pkts` up to the check of the backend. -/
def dispatchPkt (env : PktEnv) : SessM Dispatch := roundWith .done env addressed

theorem processClientPkt_eq (env : PktEnv) :
    processClientPkt env = (do
      match ← dispatchPkt env with
      | .done flow => return flow
      | .forward hg p => forwardTo hg p env) := by
  rw [dispatchPkt, roundWith_bind (d := id)]
  · refine congrArg (roundWith id env) (funext fun p => ?_)
    rw [addressed, bind_assoc]
    rfl
  · exact fun _ => rfl

variable {st : St} {now : Nat → Nat} {α : Type} {Reach : St → St → Prop} {env : HandlerEnv}
  {P : St → Prop}

section Rules

variable {A : Action → Prop} {P : St → Prop}

/-- The packet in front resets all backends of the session. -/
def Disconnects (st : St) (env : PktEnv) : Prop :=
  ∃ p pkts, st.sess.clientMyds.input.pkts = p :: pkts ∧ DisconnectsOn (started env p pkts st).sess p

theorem dispatchPkt_wp (h : DispatchStable A P) (hA : ClientActions A) {env : PktEnv}
    (hreset : Disconnects st env → ∀ i, Keeps P (bereset i false env.now)) (hst : P st) :
    wp (dispatchPkt env) (fun _ t => P t) st := by
  have htake := takeClientPkt_keeps h hA.dispatched env st hst
  unfold dispatchPkt roundWith
  cases hpkts : st.sess.clientMyds.input.pkts with
  | nil =>
    rw [wp_bind, takeClientPkt, wp_get_bind, hpkts]
    exact hst
  | cons p pkts =>
    rw [wp_takeClientPkt hpkts] at htake
    rw [wp_bind, wp_takeClientPkt hpkts]
    dsimp only
    rw [wp_get_bind]
    split
    · exact htake
    · refine wp_bind_of (dispatchCommand_wp h hA (fun hd => hreset ⟨p, pkts, hpkts, hd⟩) htake)
        (fun q t ht => ?_) fun _ _ ht => ht
      refine (?_ : Keeps P _) t ht
      refine Keeps.get.bind fun st => .ite ?_ ?_
      · exact (writeOnePktToNet_keeps h.still _ _).bind fun _ => .pure _
      · refine .bind (h.edit_keeps fun _ => rfl) fun _ => .ite (.pure _) ?_
        exact (destinationHostgroup_keeps h.quiet).bind fun _ => .pure _

theorem answerPkt_wp (h : Stable A P) {env : SrvEnv} {r : MysqlResponseType} (p : Pkt)
    (hforget : Keeps P forgetConnpool)
    (hdetach : st.sess.clientCommand = mysqlComQuery →
      endsWithStatus r st.sess.resultsetProgress = true →
      wp (detachBackends env.now) (fun _ t => P t) (progressed r st))
    (hst : P st) : wp (answerPkt p r env) (fun _ t => P t) st := by
  have hout := mySessAddPktOutClient_keeps h.still p
  unfold answerPkt
  rw [wp_get_bind]
  dsimp only
  split
  · exact Keeps.when (fun _ => hout) st hst
  · split
    · exact serverComInitDb_keeps h hforget p r st hst
    · split
      · exact hout.bind (fun _ => syncServerBytesAtCmd_keeps h.still) st hst
      · split
        · next hquery => exact serverComQuery_wp h p (hdetach hquery) hst
        · exact hout st hst

theorem preparePoll_keeps (h : StillStable A P) : Keeps P preparePoll := by
  have hrefl : ∀ s : Session, s.Still s := fun _ => ⟨.of_eq rfl rfl, rfl, rfl, rfl⟩
  refine h.still_keeps fun s => ?_
  split
  · exact hrefl s
  · split
    · split
      · exact ⟨.of_eq rfl rfl, rfl, rfl, rfl⟩
      · exact hrefl s
    · exact hrefl s

theorem removeOfflineSoft_keeps {j : Nat} (hreset : KeepsReplace P now j) :
    Keeps P (removeOfflineSoft now j) := by
  intro st hst
  unfold removeOfflineSoft
  rw [wp_bind, wp_getMybe]
  cases hmybe : st.sess.mybes[j]? with
  | none => exact hst
  | some mybe =>
    dsimp only
    rw [wp_bind, wp_lift]
    cases hm : mybe.mshge with
    | none => exact hst
    | some m =>
      simp only [deref]
      rw [wp_get_bind]
      split
      · exact hst
      · rw [wp_get_bind, wp_bind, wp_lift]
        cases hms : st.sh.msPtr m with
        | error e => exact hst
        | ok ms =>
          dsimp only
          split
          case isFalse => exact hst
          case isTrue hsoft =>
            rw [wp_bind, wp_lift]
            cases hmyds : mybe.serverMyds with
            | none => exact hst
            | some myds =>
              dsimp only
              rw [wp_get_bind]
              split
              · exact hst
              · next htrans =>
                have hbereset := hreset st hst hmybe hmyds (eq_false_of_ne_true htrans) hm hms hsoft
                split
                · exact hbereset
                · refine wp_bind_reads (Keeps.lift _ st rfl) (fun i => ?_) fun _ => hst
                  refine wp_bind_reads (getMybe_keeps i st rfl) (fun cur => ?_) fun _ => hst
                  refine wp_bind_reads (Keeps.lift _ st rfl) (fun cur => ?_) fun _ => hst
                  rw [wp_when]
                  split
                  · exact hbereset
                  · exact hst

theorem isOfflineSoft_keeps (j : Nat) : Keeps P (isOfflineSoft j) := by
  refine (getMybe_keeps j).bind fun mybe => (Keeps.lift _).bind fun m => Keeps.get.bind fun st => ?_
  split
  · exact .pure _
  · exact Keeps.get.bind fun st => (Keeps.lift _).bind fun _ => Keeps.pure _

theorem removeAllBackendsOfflineSoft_keeps (hreset : ∀ i, KeepsReplace P now i) :
    Keeps P (removeAllBackendsOfflineSoft now) := by
  refine Keeps.get.bind fun st => .bind (.forM fun j _ => removeOfflineSoft_keeps (hreset j))
    fun _ => ?_
  exact .bind (.mapM fun j _ => isOfflineSoft_keeps j) fun _ => .pure _

theorem sessClose_wp (h : Stable A P)
    (hreset : ∀ i, Keeps P (bereset i st.sess.forceCloseBackends now))
    (hclear : ∀ t, P t → P { t with sess := { t.sess with mybes := [], healthy := false } })
    (hst : P st) : wp (sessClose now) (fun _ t => P t) st := by
  have hshut : st.sess.clientMyds.Sends
      (if st.sess.clientMyds.fd ≠ 0 then st.sess.clientMyds.shutHard else st.sess.clientMyds) := by
    split
    · unfold MysqlDataStream.shutHard
      split
      · exact ⟨⟨Nat.le_refl _, id⟩, rfl⟩
      · exact .refl _
    · exact .refl _
  unfold sessClose
  rw [wp_bind, wp_modifySess, wp_get_bind]
  refine (?_ : Keeps P _) _ (@Stable.sess A P h st _ hst ⟨rfl, rfl, hshut, rfl, fun _ hw => hw⟩)
  refine .bind (forHostgroups_keeps hreset) fun _ => ?_
  exact .bind (.modify hclear) fun _ => initQueryMetadata_keeps h.steady none

end Rules

/-! ## Steps of a session -/

inductive SessEvent where
  | checkFdsErrors (net : NetEnv)
  | readFromNet (net : NetEnv)
  | writeToNet (client server : Bool) (sendClient sendServer : Int)
  | buffer2array (fill : Nat → Byte)
  | authenticate (beyond : Nat → Byte) (slack : Nat)
  | dispatch (env : PktEnv)
  | forward (hg : Nat) (p : Pkt) (env : PktEnv)
  | takeServerPkt (env : SrvEnv)
  | answer (p : Pkt) (r : MysqlResponseType) (env : SrvEnv)
  | array2buffer
  | close (now : Nat → Nat)
  | preparePoll
  | removeOfflineSoft (now : Nat → Nat)
  | forceClose

/-- The code of a step. -/
def SessEvent.prog : SessEvent → SessM Unit
  | .checkFdsErrors net => ProxySQL.checkFdsErrors net
  | .readFromNet net => readFromNet2 net
  | .writeToNet client server sendClient sendServer =>
      writeToNet2 client server sendClient sendServer
  | .buffer2array fill => buffer2array2 fill
  | .authenticate beyond slack => processAuthenticationPkt beyond slack
  | .dispatch env => do let _ ← dispatchPkt env
  | .forward hg p env => do let _ ← forwardTo hg p env
  | .takeServerPkt env => do let _ ← ProxySQL.takeServerPkt env
  | .answer p r env => answerPkt p r env
  | .array2buffer => array2buffer2
  | .close now => sessClose now
  | .preparePoll => ProxySQL.preparePoll
  | .removeOfflineSoft now => do let _ ← removeAllBackendsOfflineSoft now
  | .forceClose => modifySess fun s => { s with forceCloseBackends := true }

/-- Where the handler takes a step. -/
def SessEvent.Enabled (st : St) : SessEvent → Prop
  | .authenticate _ _ => st.sess.clientMyds.pktsSent = 1 ∧ st.sess.clientMyds.pktsRecv = 1
  | .dispatch _ => st.sess.healthy = true
  | .forward hg _ _ => hg < st.sh.glovars.mysqlHostgroups ∧
      st.sess.queryInfo.preparedStatement = isPreparedStatement st.sess.clientCommand
  | _ => True

def SessStep (st : St) (e : SessEvent) (t : St) : Prop := e.Enabled st ∧ Ends e.prog st () t

/-! ## A call of the handler is a run of steps -/

def Reaches (st t : St) : Prop := ∃ es, Run SessStep st es t

theorem Reaches.refl (st : St) : Reaches st st := ⟨[], .nil st⟩

variable {st t : St}

theorem Reaches.trans {u : St} (h : Reaches st t) (h' : Reaches t u) : Reaches st u := by
  obtain ⟨es, hrun⟩ := h
  obtain ⟨fs, hrun'⟩ := h'
  exact ⟨es ++ fs, hrun.append hrun'⟩

theorem SessEvent.reaches (e : SessEvent) (he : e.Enabled st) (h : Ends e.prog st () t) :
    Reaches st t := ⟨[e], .cons ⟨he, h⟩ (.nil t)⟩

/-- Code all of whose ends `Reach` leads to. -/
def Leads {α : Type} (Reach : St → St → Prop) (m : SessM α) : Prop := ∀ st a t, Ends m st a t →
    Reach st t

theorem Leads.get_bind {f : St → SessM α} (hf : ∀ st, Leads Reach (f st)) :
    Leads Reach (get >>= f) := by
  intro st a t h
  exact hf st st a t (ends_get_bind.1 h)

theorem Leads.ite {c : Prop} [Decidable c] {m n : SessM α}
    (hm : Leads Reach m) (hn : Leads Reach n) : Leads Reach (if c then m else n) := by
  split
  · exact hm
  · exact hn

/-- The session of a state is healthy. -/
def IsHealthy (st : St) : Prop := st.sess.healthy = true

theorem isHealthy_quietStable : QuietStable (fun _ => True) IsHealthy where
  sess hst hq := hq.healthy.trans hst
  record hst _ := hst

theorem isHealthy_unwired : Unwired IsHealthy := fun _ _ _ hst => hst

theorem isHealthy_netStable : NetStable IsHealthy where
  client _ _ _ _ hst := hst
  server _ _ _ _ _ hst _ _ := hst
  ledger _ _ _ _ _ hst _ _ := hst

theorem isHealthy_authStable : AuthStable IsHealthy where
  client _ _ _ hst := hst
  user _ _ _ _ _ hst := hst
  record _ _ hst := hst

/-- The session of a state is healthy, and the flag for prepared statements is that of the
    command. -/
structure IsReady (st : St) : Prop where
  healthy : IsHealthy st
  prepared : st.sess.queryInfo.preparedStatement = isPreparedStatement st.sess.clientCommand

theorem isReady_quietStable : QuietStable (fun _ => True) IsReady where
  sess hst hq := ⟨hq.healthy.trans hst.healthy,
    (hq.preparedStatement.trans hst.prepared).trans
      (congrArg isPreparedStatement hq.clientCommand.symm)⟩
  record hst _ := ⟨hst.healthy, hst.prepared⟩

theorem destinationHostgroup_lt (st : St) (hst : IsReady st) :
    wp destinationHostgroup (fun r t => ∀ hg, r = .ok hg →
      IsReady t ∧ hg < t.sh.glovars.mysqlHostgroups) st := by
  unfold destinationHostgroup checkDestination
  rw [wp_get_bind]
  have hwhen : Keeps IsReady (when (st.sess.clientCommand ≠ mysqlComQuery) setDefaultDestination) :=
    .when fun _ => setDefaultDestination_keeps isReady_quietStable
  refine wp_bind_of (hwhen st hst) (fun _ t ht => ?_) fun _ _ _ _ h => nomatch h
  rw [wp_get_bind]
  dsimp only
  split
  · exact fun _ h => nomatch h
  · split
    · exact fun _ h => nomatch h
    · next hlt =>
      split
      · exact fun _ h => nomatch h
      · next hneg =>
        rintro hg h
        cases h
        refine ⟨ht, ?_⟩
        show _ < t.sh.glovars.mysqlHostgroups
        omega

/-- Unless the session is to be closed, it is healthy after a packet was dispatched. -/
theorem dispatchPkt_healthy (env : PktEnv) (st : St) :
    wp (dispatchPkt env) (fun r t => ∀ d, r = .ok d → d ≠ .done .quit →
      IsHealthy t ∧ ∀ hg p, d = .forward hg p → (SessEvent.forward hg p env).Enabled t) st := by
  refine wp_bind_of wp_true (fun p t _ => ?_) fun _ _ _ _ h => nomatch h
  rw [wp_get_bind]
  split
  · exact fun d h hne => absurd (Except.ok.inj h).symm hne
  · refine wp_bind_of wp_true (fun q u _ => ?_) fun _ _ _ _ h => nomatch h
    rw [afterCommand, wp_get_bind]
    dsimp only
    split
    · refine wp_bind_of wp_true (fun _ v _ => ?_) fun _ _ _ _ h => nomatch h
      exact fun d h hne => absurd (Except.ok.inj h).symm hne
    · next hhealthy =>
      have hu : IsHealthy u := eq_true_of_ne_false hhealthy
      rw [wp_bind, wp_modifySess]
      dsimp only
      split
      · rintro d h -
        cases h
        exact ⟨hu, fun _ _ hf => nomatch hf⟩
      · refine wp_bind_of (destinationHostgroup_lt _ ⟨hu, rfl⟩) (fun hg v hv => ?_) fun _ _ _ _ h =>
          nomatch h
        rintro d h -
        cases h
        obtain ⟨hready, hlt⟩ := hv hg rfl
        refine ⟨hready.healthy, ?_⟩
        rintro _ _ ⟨⟩
        exact ⟨hlt, hready.prepared⟩

theorem forwardTo_healthy (hg : Nat) (p : Pkt) (env : PktEnv) :
    Keeps IsHealthy (forwardTo hg p env) :=
  forwardTo_keeps isHealthy_quietStable trivial (isHealthy_unwired.keepsBackends env hg)
    (isHealthy_unwired.mySessAddPktOutServer hg p _)

/-- A round of the loop of `process_client_pkts` is one step or two. -/
theorem processClientPkt_reaches {env : PktEnv} {flow : Flow} (hst : IsHealthy st)
    (h : Ends (processClientPkt env) st flow t) : Reaches st t ∧ (flow = .quit ∨ IsHealthy t) := by
  rw [processClientPkt_eq] at h
  obtain ⟨d, u, hd, hrest⟩ := ends_bind.1 h
  have hspec := hd.of_wp (dispatchPkt_healthy env st) d rfl
  have hdispatch : Reaches st u :=
    SessEvent.reaches (.dispatch env) hst (ends_bind.2 ⟨d, u, hd, ends_pure.2 ⟨rfl, rfl⟩⟩)
  cases d with
  | done f =>
    obtain ⟨rfl, rfl⟩ := ends_pure.1 hrest
    refine ⟨hdispatch, ?_⟩
    by_cases hquit : f = .quit
    · exact .inl hquit
    · exact .inr (hspec fun h => hquit (by cases h; rfl)).1
  | forward hg p =>
    obtain ⟨hu, henabled⟩ := hspec nofun
    refine ⟨hdispatch.trans ?_, .inr ((forwardTo_healthy hg p env).ends hrest hu)⟩
    exact SessEvent.reaches (.forward hg p env) (henabled hg p rfl)
      (ends_bind.2 ⟨flow, t, hrest, ends_pure.2 ⟨rfl, rfl⟩⟩)

theorem processServerPkt_reaches {env : SrvEnv} {u : St} (h : Ends (processServerPkt env) st () u) :
    Reaches st u := by
  obtain ⟨pr, t, htake, hanswer⟩ := ends_bind.1 h
  have h1 : Ends (SessEvent.takeServerPkt env).prog st () t :=
    ends_bind.2 ⟨pr, t, htake, ends_pure.2 ⟨rfl, rfl⟩⟩
  have h2 : Ends (SessEvent.answer pr.1 pr.2 env).prog t () u := hanswer
  exact (SessEvent.reaches (.takeServerPkt env) trivial h1).trans
    (SessEvent.reaches (.answer pr.1 pr.2 env) trivial h2)

/-- The part of the handler whose steps are not rounds of its two loops over packets. -/
def SessEvent.BetweenPkts : SessEvent → Prop
  | .dispatch _ | .forward _ _ _ | .takeServerPkt _ | .answer _ _ _ => False
  | _ => True

/-- A relation along which the parts of `session_handler` lead. -/
structure HandlerParts (Reach : St → St → Prop) : Prop where
  refl : ∀ st, Reach st st
  trans : ∀ {st t u}, Reach st t → Reach t u → Reach st u
  client : ∀ {env st flow t}, IsHealthy st → Ends (processClientPkt env) st flow t → Reach st t
  server : ∀ {env st t}, Ends (processServerPkt env) st () t → Reach st t
  between : ∀ {e st t}, e.BetweenPkts → SessStep st e t → Reach st t

theorem reaches_handlerParts : HandlerParts Reaches where
  refl := Reaches.refl
  trans := Reaches.trans
  client hst h := (processClientPkt_reaches hst h).1
  server := processServerPkt_reaches
  between {e _ _} _ h := e.reaches h.1 h.2

namespace HandlerParts

variable {Reach : St → St → Prop} (parts : HandlerParts Reach) {α β : Type}

include parts

theorem pure (a : α) : Leads Reach (pure a : SessM α) := by
  intro st b t h
  obtain ⟨-, rfl⟩ := ends_pure.1 h
  exact parts.refl st

theorem bind {m : SessM α} {f : α → SessM β} (hm : Leads Reach m) (hf : ∀ a, Leads Reach (f a)) :
    Leads Reach (m >>= f) := by
  intro st b u h
  obtain ⟨a, t, hma, hfb⟩ := ends_bind.1 h
  exact parts.trans (hm st a t hma) (hf a t b u hfb)

theorem step (e : SessEvent) (hb : e.BetweenPkts) (he : ∀ st, e.Enabled st) : Leads Reach e.prog :=
  fun st _ _ h => parts.between hb ⟨he st, h⟩

theorem syncOutcome : Leads Reach syncOutcome := Leads.get_bind fun _ => parts.pure _

theorem writeToNet2 (client server : Bool) (sendClient sendServer : Int) :
    Leads Reach (writeToNet2 client server sendClient sendServer) :=
  parts.step (.writeToNet client server sendClient sendServer) trivial fun _ => trivial

theorem syncNet (net : NetEnv) : Leads Reach (syncNet net) := by
  have hread : Leads Reach (readFromNet2 net) :=
    parts.step (.readFromNet net) trivial fun _ => trivial
  refine parts.bind hread fun _ => parts.bind parts.syncOutcome fun ok =>
    Leads.ite ?_ (parts.pure _)
  exact parts.bind (parts.writeToNet2 _ _ _ _) fun _ => parts.syncOutcome

theorem finalSync (net : NetEnv) : Leads Reach (finalSync net) := by
  have hwrite : Leads Reach (syncNetWriteOnly net) :=
    parts.bind (parts.writeToNet2 _ _ _ _) fun _ => parts.syncOutcome
  refine Leads.get_bind fun st => ?_
  dsimp only
  split
  · exact hwrite
  · exact Leads.ite hwrite (parts.pure _)

theorem processServerPkts (env : Nat → SrvEnv) : Leads Reach (processServerPkts env) := by
  have hfrom : ∀ (n : Nat) (env : Nat → SrvEnv), Leads Reach (processServerPktsFrom n env) := by
    intro n
    induction n with
    | zero => exact fun _ => parts.pure _
    | succ n ih =>
      intro env
      refine Leads.get_bind fun st => ?_
      split
      · exact parts.pure _
      · split
        · exact parts.pure _
        · exact parts.bind (fun _ _ _ h => parts.server h) fun _ => ih _
  refine Leads.get_bind fun st => ?_
  split
  · exact parts.pure _
  · exact hfrom _ _

theorem processClientPktsFrom {n : Nat} {env : Nat → PktEnv} {st t : St} {quit : Bool}
    (hst : IsHealthy st) (h : Ends (processClientPktsFrom n env) st quit t) : Reach st t := by
  induction n generalizing st env with
  | zero =>
    obtain ⟨-, rfl⟩ := ends_pure.1 h
    exact parts.refl st
  | succ n ih =>
    have h := ends_get_bind.1 h
    split at h
    · obtain ⟨-, rfl⟩ := ends_pure.1 h
      exact parts.refl st
    · obtain ⟨flow, u, hround, hrest⟩ := ends_bind.1 h
      have hreach := parts.client hst hround
      cases flow with
      | quit =>
        obtain ⟨-, rfl⟩ := ends_pure.1 hrest
        exact hreach
      | ret0 =>
        obtain ⟨-, rfl⟩ := ends_pure.1 hrest
        exact hreach
      | next =>
        have hu : IsHealthy u :=
          (processClientPkt_reaches hst hround).2.resolve_left fun h => nomatch h
        exact parts.trans hreach (ih hu hrest)

theorem handlePkts {st t : St} {close : Bool} (hst : IsHealthy st)
    (h : Ends (handlePkts env) st close t) : Reach st t := by
  obtain ⟨_, u, hbuf, h⟩ := ends_bind.1 h
  have hu : IsHealthy u := (buffer2array2_keeps isHealthy_netStable env.fill).ends hbuf hst
  obtain ⟨_, v, hauth, h⟩ := ends_bind.1 (ends_get_bind.1 h)
  have hauth : Reach u v ∧ IsHealthy v := by
    unfold when at hauth
    split at hauth
    · next hcount =>
      refine ⟨@HandlerParts.between _ parts (.authenticate env.beyond env.slack) u v trivial
        ⟨hcount, hauth⟩, ?_⟩
      exact (processAuthenticationPkt_keeps isHealthy_authStable _ _).ends hauth hu
    · obtain ⟨-, rfl⟩ := ends_pure.1 hauth
      exact ⟨parts.refl _, hu⟩
  obtain ⟨quit, w, hclient, h⟩ := ends_bind.1 h
  have hclient : Reach v w := parts.processClientPktsFrom hauth.2 (ends_get_bind.1 hclient)
  have hrest : Leads Reach (if quit = true then Pure.pure true else do
      ProxySQL.processServerPkts env.server
      array2buffer2
      if ← ProxySQL.finalSync env.net then
        let s := (← get).sess
        return s.clientMyds.pktsSent = 2 ∧ s.clientMyds.pktsRecv = 1 ∧ s.mysqlSchemaCur = none
      else return true : SessM Bool) := by
    refine Leads.ite (parts.pure _) (parts.bind (parts.processServerPkts _) fun _ => ?_)
    refine parts.bind (parts.step .array2buffer trivial fun _ => trivial) fun _ => ?_
    refine parts.bind (parts.finalSync _) fun ok =>
      Leads.ite (Leads.get_bind fun _ => parts.pure _) ?_
    exact parts.pure _
  refine parts.trans (@HandlerParts.between _ parts (.buffer2array env.fill) st u trivial
    ⟨trivial, hbuf⟩) ?_
  exact parts.trans hauth.1 (parts.trans hclient (hrest w close t h))

theorem sessionHandler {st t : St} (h : Ends (sessionHandler env) st () t) : Reach st t := by
  obtain ⟨close, u, hbody, hclose⟩ := ends_bind.1 h
  have hbody : Reach st u := by
    have h := ends_get_bind.1 hbody
    dsimp only at h
    split at h
    · obtain ⟨-, rfl⟩ := ends_pure.1 h
      exact parts.refl st
    · next hok =>
      obtain ⟨ok, v, hsync, h⟩ := ends_bind.1 h
      have hst : IsHealthy st := eq_true_of_ne_false fun hh => hok (.inl hh)
      have hv : IsHealthy v := by
        refine Keeps.ends ?_ hsync hst
        have hnet := isHealthy_netStable
        refine (readFromNet2_keeps hnet _).bind fun _ => .bind (Keeps.get.bind fun _ => .pure _)
          fun ok => .ite ((writeToNet2_keeps hnet _ _ _ _).bind fun _ => ?_) (.pure _)
        exact Keeps.get.bind fun _ => .pure _
      refine parts.trans (parts.syncNet env.net st ok v hsync) ?_
      split at h
      · exact parts.handlePkts hv h
      · obtain ⟨-, rfl⟩ := ends_pure.1 h
        exact parts.refl v
  refine parts.trans hbody ?_
  unfold when at hclose
  split at hclose
  · exact parts.step (.close env.now) trivial (fun _ => trivial) u () t hclose
  · obtain ⟨-, rfl⟩ := ends_pure.1 hclose
    exact parts.refl u

end HandlerParts

/-- A call of `session_handler` is a run of steps. -/
theorem sessionHandler_run (h : Ends (sessionHandler env) st () t) :
    Reaches st t := reaches_handlerParts.sessionHandler h

/-! ## A thread -/

/-- The sessions of a thread, and what they share. -/
structure World where
  sh : Shared
  sessions : List Session

/-- What happens in a thread and around it. -/
inductive Event where
  | accept (fill : Nat → Byte) (admin : Nat) (clientFd : Int) (threadId : Nat) (random : List Byte)
  /-- session `i` takes a step -/
  | session (i : Nat) (e : SessEvent)
  /-- session `i`, which is not healthy, is deleted -/
  | delete (i : Nat)
  /-- FLUSH HOSTGROUPS, with the rows of the configuration -/
  | flushHostgroups (rows : List ServerRow)
  /-- the administrator, other threads and time change the rest of the shared data -/
  | reconfigure (sh : Shared)

/-- `sh'` has the servers, connections and pools of `sh`, and as many hostgroups. -/
structure SameWiring (sh sh' : Shared) : Prop extends SamePools sh sh', SameEntries sh sh'

inductive WorldStep : World → Event → World → Prop where
  | accept {w : World} (fill : Nat → Byte) (admin : Nat) (clientFd : Int) (threadId : Nat)
      (random : List Byte) :
      WorldStep w (.accept fill admin clientFd threadId random) { w with
        sessions := w.sessions ++ [acceptSession fill w.sh.glovars admin clientFd threadId random] }
  | session {w : World} {i : Nat} {s : Session} {e : SessEvent} {t : St} :
      w.sessions[i]? = some s → SessStep { sh := w.sh, sess := s } e t →
      WorldStep w (.session i e) { sh := t.sh, sessions := w.sessions.set i t.sess }
  | delete {w : World} {i : Nat} {s : Session} : w.sessions[i]? = some s → s.healthy = false →
      WorldStep w (.delete i) { w with sessions := w.sessions.eraseIdx i }
  | flushHostgroups {w : World} (rows : List ServerRow) :
      WorldStep w (.flushHostgroups rows) { w with sh := flushServersDbToMem w.sh rows }
  | reconfigure {w : World} {sh : Shared} : SameWiring w.sh sh →
      WorldStep w (.reconfigure sh) { w with sh := sh }

/-- A thread before its first connection. -/
def World.init (g : Glovars) (md5 : List Byte → Str)
    (scramble : List Byte → Str → List Byte) : World :=
  { sh := Shared.init g md5 scramble, sessions := [] }

variable {w w' : World}

/-- The steps of one session are steps of the thread. -/
theorem Reaches.world {i : Nat} {s : Session} (hs : w.sessions[i]? = some s)
    (h : Reaches { sh := w.sh, sess := s } t) :
    ∃ es, Run WorldStep w es { sh := t.sh, sessions := w.sessions.set i t.sess } := by
  obtain ⟨es, hrun⟩ := h
  have hlt : i < w.sessions.length := (List.getElem?_eq_some_iff.1 hs).1
  generalize hst : ({ sh := w.sh, sess := s } : St) = st at hrun
  induction hrun generalizing w s with
  | nil st =>
    subst hst
    refine ⟨[], ?_⟩
    have hset : w.sessions.set i s = w.sessions := by
      obtain ⟨_, rfl⟩ := List.getElem?_eq_some_iff.1 hs
      exact set_getElem_self hlt
    rw [hset]
    exact .nil w
  | @cons st u t e es hstep hrun ih =>
    subst hst
    have hget : (w.sessions.set i u.sess)[i]? = some u.sess := getElem?_set_self hlt
    obtain ⟨fs, hfs⟩ := @ih { sh := u.sh, sessions := w.sessions.set i u.sess } u.sess hget
      (by rwa [length_set]) rfl
    rw [set_set] at hfs
    exact ⟨.session i e :: fs, .cons (.session hs hstep) hfs⟩

/-! ## Steps can be taken -/

instance (e : SessEvent) (st : St) : Decidable (e.Enabled st) := by
  cases e <;> (unfold SessEvent.Enabled; infer_instance)

/-- A step of session `i`, unless the process stops in it. -/
def World.stepSession (w : World) (i : Nat) (e : SessEvent) : Option World :=
  match w.sessions[i]? with
  | none => none
  | some s =>
      if e.Enabled { sh := w.sh, sess := s } then
        match outcome e.prog { sh := w.sh, sess := s } with
        | (.ok (), t) => some { sh := t.sh, sessions := w.sessions.set i t.sess }
        | (.error _, _) => none
      else none

/-- A step of the thread, other than changes that come from outside. -/
def World.step (w : World) : Event → Option World
  | .accept fill admin clientFd threadId random => some { w with
      sessions := w.sessions ++ [acceptSession fill w.sh.glovars admin clientFd threadId random] }
  | .session i e => w.stepSession i e
  | .delete i =>
      match w.sessions[i]? with
      | none => none
      | some s => if s.healthy then none else some { w with sessions := w.sessions.eraseIdx i }
  | .flushHostgroups rows => some { w with sh := flushServersDbToMem w.sh rows }
  | .reconfigure _ => none

theorem World.worldStep_of_step (w : World) (e : Event) (w' : World) (h : w.step e = some w') :
    WorldStep w e w' := by
  cases e with
  | accept fill admin clientFd threadId random =>
    cases h
    exact .accept fill admin clientFd threadId random
  | session i e =>
    rw [World.step, World.stepSession] at h
    split at h
    · cases h
    · next s hs =>
      split at h
      · next henabled =>
        split at h
        · next t hends =>
          cases h
          exact .session hs ⟨henabled, hends⟩
        · cases h
      · cases h
  | delete i =>
    rw [World.step] at h
    split at h
    · cases h
    · next s hs =>
      split at h
      · cases h
      · next hhealthy =>
        cases h
        exact .delete hs (eq_false_of_ne_true hhealthy)
  | flushHostgroups rows =>
    cases h
    exact .flushHostgroups rows
  | reconfigure sh => cases h

/-- A property of a session that the execution of a run finds at its end. -/
theorem World.exists_run (w₀ : World) (es : List Event) (i : Nat) (P : World → Session → Prop)
    [∀ w s, Decidable (P w s)]
    (h : (exec World.step w₀ es).any (fun w => w.sessions[i]?.any fun s => P w s) = true) :
    ∃ w s, Run WorldStep w₀ es w ∧ w.sessions[i]? = some s ∧ P w s := by
  obtain ⟨w, hw, h⟩ := (Option.any_eq_true ..).1 h
  obtain ⟨s, hs, h⟩ := (Option.any_eq_true ..).1 h
  exact ⟨w, s, (Run.of_exec hw).mono World.worldStep_of_step, hs, of_decide_eq_true h⟩

/-! ## Invariants of single sessions -/

theorem clientActions_true : ClientActions fun _ => True :=
  ⟨⟨trivial, trivial, trivial, fun _ => trivial⟩, fun _ => trivial, trivial, fun _ => trivial⟩

variable {e : SessEvent}

/-- The steps between packets, except for the end of the session, keep a property that new streams,
    a new user and resetting a backend keep. -/
theorem SessEvent.between_keeps {A : Action → Prop} (h : QuietStable A P) (hn : NetStable P)
    (hauth : AuthStable P) (hreset : ∀ i now, Keeps P (bereset i false now))
    (hb : e.BetweenPkts) (hclose : ∀ now, e ≠ .close now) : Keeps P e.prog := by
  cases e with
  | checkFdsErrors net => exact checkFdsErrors_keeps hn net
  | readFromNet net => exact readFromNet2_keeps hn net
  | writeToNet client server sendClient sendServer => exact writeToNet2_keeps hn _ _ _ _
  | buffer2array fill => exact buffer2array2_keeps hn fill
  | authenticate beyond slack => exact processAuthenticationPkt_keeps hauth beyond slack
  | array2buffer => exact array2buffer2_keeps hn
  | preparePoll => exact preparePoll_keeps h.still
  | removeOfflineSoft now =>
    exact (removeAllBackendsOfflineSoft_keeps fun i => .of_keeps (hreset i now)).bind fun _ =>
      .pure _
  | forceClose => exact h.edit_keeps fun _ => ⟨rfl, rfl⟩
  | close now => exact absurd rfl (hclose now)
  | dispatch | forward | takeServerPkt | answer => exact hb.elim

/-- The code for the connections of a session, apart from that which looks for a server, keeps
    `P`. -/
structure KeepsWires (P : St → Prop) : Prop where
  bereset : ∀ i fc now, Keeps P (bereset i fc now)
  bedetach : ∀ i now, Keeps P (bedetach i now)
  send : ∀ hg p n, Keeps P (mySessAddPktOutServer hg p n)
  forget : Keeps P forgetConnpool

/-- Steps that do not end the session keep a property that actions do not matter to and that the
    code for connections keeps. -/
theorem SessEvent.wired_keeps (h : Stable (fun _ => True) P) (hn : NetStable P) (hw : KeepsWires P)
    (hforward : ∀ hg p env, e = .forward hg p env → Keeps P (forwardTo hg p env))
    (hclose : ∀ now, e ≠ .close now) : Keeps P e.prog := by
  have hbetween : ∀ e : SessEvent, e.BetweenPkts → (∀ now, e ≠ .close now) →
    Keeps P e.prog := fun e =>
    SessEvent.between_keeps h.quiet hn (h.auth fun _ => trivial) fun i now => hw.bereset i false now
  cases e with
  | dispatch env =>
    refine .bind (fun st hst => ?_) fun _ => .pure _
    exact dispatchPkt_wp h.dispatch clientActions_true (fun _ i => hw.bereset i false env.now) hst
  | forward hg p env => exact (hforward hg p env rfl).bind fun _ => .pure _
  | takeServerPkt env => exact (takeServerPkt_keeps hn env).bind fun _ => .pure _
  | answer p r env =>
    exact fun st hst => answerPkt_wp h p hw.forget
      (fun _ _ => detachBackends_keeps (fun i => hw.bedetach i env.now) _ (h.sess hst (.of_eq rfl)))
        hst
  | close now => exact absurd rfl (hclose now)
  | _ => exact hbetween _ trivial fun _ heq => nomatch heq

/-- Steps keep a property that connections and actions do not matter to. -/
theorem SessEvent.keeps (h : Stable (fun _ => True) P) (hw : Unwired P)
    (hclient : ∀ (st : St) {myds : MysqlDataStream} (failed : Bool), st.sess.clientMyds.Moves myds →
      P st → P { st with sess := { st.sess with clientMyds := myds, netFailure := failed } })
    (e : SessEvent) : Keeps P e.prog := by
  have hn : NetStable P :=
    ⟨hclient, fun st _ _ _ _ hst _ _ => hw st st.sh _ hst,
      fun st _ _ _ _ hst _ _ => hw st _ st.sess.mybes hst⟩
  have hwires : KeepsWires P :=
    ⟨hw.bereset, hw.bedetach, hw.mySessAddPktOutServer, hw.forgetConnpool⟩
  cases e with
  | close now =>
    refine fun st hst => sessClose_wp h (fun i => hw.bereset i _ now) (fun t ht => ?_) hst
    have hsick : P { t with sess := { t.sess with healthy := false } } := h.sess ht (.of_eq rfl)
    exact hw _ t.sh [] hsick
  | _ =>
    refine SessEvent.wired_keeps h hn hwires (fun hg p env _ => ?_) fun _ heq => nomatch heq
    exact forwardTo_keeps h.quiet trivial (hw.keepsBackends env hg) (hwires.send hg p _)

/-- What new sessions have and the steps of a session keep, a step of the thread keeps for all
    sessions. -/
theorem worldStep_sessions {P : Session → Prop} {e : Event} (h : WorldStep w e w')
    (haccept : ∀ fill admin clientFd threadId random,
      P (acceptSession fill w.sh.glovars admin clientFd threadId random))
    (hstep : ∀ i s e' t, e = .session i e' → w.sessions[i]? = some s →
      SessStep { sh := w.sh, sess := s } e' t → P s → P t.sess)
    (hw : ∀ s ∈ w.sessions, P s) : ∀ s ∈ w'.sessions, P s := by
  cases h with
  | accept fill admin clientFd threadId random =>
    intro s hs
    rcases mem_append.1 hs with hold | hnew
    · exact hw s hold
    · obtain rfl := mem_singleton.1 hnew
      exact haccept ..
  | session hs hst =>
    intro s' hs'
    rcases mem_or_eq_of_mem_set hs' with hold | rfl
    · exact hw s' hold
    · exact hstep _ _ _ _ rfl hs hst (hw _ (mem_of_getElem? hs))
  | delete _ _ => exact fun s hs => hw s (mem_of_mem_eraseIdx hs)
  | flushHostgroups rows => exact hw
  | reconfigure _ => exact hw

/-- What every step of a session keeps, whatever the others do, holds of all sessions. -/
theorem sessions_invariant {P : Session → Prop}
    (haccept : ∀ fill g admin clientFd threadId random,
      P (acceptSession fill g admin clientFd threadId random))
    (hstep : ∀ st e t, SessStep st e t → P st.sess → P t.sess) {es : List Event}
    (hrun : Run WorldStep w es w') (h : ∀ s ∈ w.sessions, P s) : ∀ s ∈ w'.sessions, P s := by
  refine hrun.invariant (P := fun w => ∀ s ∈ w.sessions, P s) (fun w e w' hstep' hw => ?_) h
  exact worldStep_sessions hstep' (fun _ _ _ _ _ => haccept ..)
    (fun _ _ _ _ _ _ hst => hstep _ _ _ hst) hw

/-! ## Rounds of the thread's loop -/

/-- What the loop of a thread does with its sessions. -/
inductive Call where
  | accept (fill : Nat → Byte) (admin : Nat) (clientFd : Int) (threadId : Nat) (random : List Byte)
  /-- the descriptors of session `i` are prepared for `poll` -/
  | poll (i : Nat)
  /-- `check_fds_errors` and `session_handler` -/
  | handle (i : Nat) (env : HandlerEnv)
  | delete (i : Nat)
  | flushHostgroups (rows : List ServerRow)

/-- Session `i`, if it is there and healthy, runs `m`. -/
def World.runSession (w : World) (i : Nat) (m : SessM Unit) : Option World :=
  match w.sessions[i]? with
  | none => none
  | some s =>
      if s.healthy then
        match outcome m { sh := w.sh, sess := s } with
        | (.ok (), t) => some { sh := t.sh, sessions := w.sessions.set i t.sess }
        | (.error _, _) => none
      else none

/-- A call, unless the process stops. -/
def World.call (w : World) : Call → Option World
  | .accept fill admin clientFd threadId random =>
      w.step (.accept fill admin clientFd threadId random)
  | .poll i => w.runSession i preparePoll
  | .handle i env => w.runSession i do
      checkFdsErrors env.net
      sessionHandler env
  | .delete i => w.step (.delete i)
  | .flushHostgroups rows => w.step (.flushHostgroups rows)

theorem World.runSession_run {i : Nat} {m : SessM Unit} (hm : Leads Reaches m)
    (h : w.runSession i m = some w') : ∃ es, Run WorldStep w es w' := by
  unfold World.runSession at h
  split at h
  · cases h
  · next s hs =>
    split at h
    · split at h
      · next t hends =>
        cases h
        exact (hm _ () t hends).world hs
      · cases h
    · cases h

theorem World.call_run {c : Call} (h : w.call c = some w') : ∃ es, Run WorldStep w es w' := by
  have hstep : ∀ e, w.step e = some w' → ∃ es, Run WorldStep w es w' := fun e h =>
    ⟨[e], .cons (w.worldStep_of_step e w' h) (.nil _)⟩
  cases c with
  | accept fill admin clientFd threadId random =>
      exact hstep (.accept fill admin clientFd threadId random) h
  | poll i =>
      exact runSession_run (reaches_handlerParts.step .preparePoll trivial fun _ => trivial) h
  | handle i env =>
    refine runSession_run (reaches_handlerParts.bind ?_ fun _ => ?_) h
    · exact reaches_handlerParts.step (.checkFdsErrors env.net) trivial fun _ => trivial
    · exact fun _ _ _ hends => sessionHandler_run hends
  | delete i => exact hstep (.delete i) h
  | flushHostgroups rows => exact hstep (.flushHostgroups rows) h

/-- What a thread does in its loop, it does in steps. -/
theorem World.exec_run {cs : List Call} (h : exec World.call w cs = some w') :
    ∃ es, Run WorldStep w es w' := by
  induction cs generalizing w with
  | nil =>
    obtain rfl := Option.some.inj h
    exact ⟨[], .nil w⟩
  | cons c cs ih =>
    obtain ⟨u, hu, hrest⟩ := Option.bind_eq_some_iff.1 h
    obtain ⟨es, hrun⟩ := World.call_run hu
    obtain ⟨fs, hrun'⟩ := ih hrest
    exact ⟨es ++ fs, hrun.append hrun'⟩

/-- A property that the calls of a thread lead to. -/
theorem World.exists_calls (w₀ : World) (cs : List Call) {P : World → Prop} [DecidablePred P]
    (h : (exec World.call w₀ cs).any (fun w => P w) = true) :
    ∃ es w, Run WorldStep w₀ es w ∧ P w := by
  obtain ⟨w, hw, h⟩ := (Option.any_eq_true ..).1 h
  obtain ⟨es, hrun⟩ := World.exec_run hw
  exact ⟨es, w, hrun, of_decide_eq_true h⟩

/-- A property of a session that the calls of a thread lead to. -/
theorem World.exists_session_calls (w₀ : World) (cs : List Call) (i : Nat)
    {P : World → Session → Prop} [∀ w s, Decidable (P w s)]
    (h : (exec World.call w₀ cs).any (fun w => w.sessions[i]?.any fun s => P w s) = true) :
    ∃ es w s, Run WorldStep w₀ es w ∧ w.sessions[i]? = some s ∧ P w s := by
  obtain ⟨w, hw, h⟩ := (Option.any_eq_true ..).1 h
  obtain ⟨es, hrun⟩ := World.exec_run hw
  obtain ⟨s, hs, h⟩ := (Option.any_eq_true ..).1 h
  exact ⟨es, w, s, hrun, hs, of_decide_eq_true h⟩

/-! ## A quiet environment -/

/-- No socket is ready for reading, and what is written is sent. -/
def NetEnv.quiet : NetEnv :=
  { errClient := false, errServer := false, inClient := none, inServer := none, outClient := false,
    outServer := false, sendClient := 0, sendServer := 0, sendClient2 := 1024, sendServer2 := 1024 }

/-- Connections are opened on descriptor 7, and memory is zero. -/
def PktEnv.quiet : PktEnv :=
  let connect : ConnectEnv :=
    { rand := fun _ => 0, connect := fun _ => some 7, flush := fun _ => none }
  { beyond := fun _ => 0, slack := 0, freed := fun _ => 0, fill := fun _ => 0, now := fun _ => 0,
    connect1 := connect, connect2 := connect, send1 := [], send2 := [],
    admin := fun ps => (ps, true),
    response := 0 }

def SrvEnv.quiet : SrvEnv :=
  { beyond := fun _ => 0, now := fun _ => 0, cacheRoom := true, fill := fun _ => 0 }

def HandlerEnv.quiet : HandlerEnv :=
  { net := .quiet, fill := fun _ => 0, beyond := fun _ => 0, slack := 0, client := fun _ => .quiet,
    server := fun _ => .quiet, now := fun _ => 0 }

/-- The client has sent these bytes. -/
def HandlerEnv.fromClient (recv : List Byte) : HandlerEnv :=
  { HandlerEnv.quiet with net := { NetEnv.quiet with inClient := some recv } }

/-- The server has sent these bytes. -/
def HandlerEnv.fromServer (recv : List Byte) : HandlerEnv :=
  { HandlerEnv.quiet with net := { NetEnv.quiet with inServer := some recv } }

/-- A packet with the given payload. -/
def frame (id : Byte) (payload : List Byte) : List Byte :=
  (MysqlHdr.mk (BitVec.ofNat 24 payload.length) id).toBytes ++ payload

def Pkt.ofBytes (bs : List Byte) : Pkt := { length := bs.length, data := bs }

/-- A COM_QUERY. -/
def queryPkt (query : String) : List Byte := frame 0 (0x03 :: bytesOf query)

/-- An OK packet with the given status flags. -/
def okPkt (status : Byte) : List Byte := frame 1 [0, 0, 0, status, 0, 0, 0]

/-- The handshake response of user `u`, who has no password. -/
def loginPkt : List Byte := frame 1 (List.replicate 32 0 ++ bytesOf "u" ++ [0, 0])

/-- Two hostgroups, and the user `u`. -/
def oneServer : World :=
  let g :=
    { glovarsDefault with netBufferSize := 1024, mysqlHostgroups := 2,
                          usernames := [(bytesOf "u", [])] }
  World.init g id fun _ password => password

/-- The server, as a row of hostgroup 0. -/
def dbRow : ServerRow :=
  { hostgroupId := 0, address := bytesOf "db", port := 3306, readOnly := 0, status := .online }

/-- A client connects and logs in. -/
def login (i : Nat) : List Call :=
  [.accept (fun _ => 0) 0 5 1 (List.replicate 20 1), .handle i .quiet,
    .handle i (.fromClient loginPkt)]

/-- The steps in which session `i` reads bytes of its client. -/
def readSteps (i : Nat) (recv : List Byte) : List Event :=
  [.session i (.readFromNet { NetEnv.quiet with inClient := some recv }),
    .session i (.buffer2array fun _ => 0)]

/-- The steps in which a client connects and logs in. -/
def loginSteps (i : Nat) : List Event :=
  [.accept (fun _ => 0) 0 5 1 (List.replicate 20 1), .session i .array2buffer] ++
    readSteps i loginPkt ++ [.session i (.authenticate (fun _ => 0) 0)]

/-- The steps in which a query of session `i` goes to the server of hostgroup `hg`, which will
    answer it with eleven bytes. -/
def querySteps (i hg : Nat) (query : String) : List Event :=
  readSteps i (queryPkt query) ++
    [.session i (.dispatch .quiet),
      .session i (.forward hg (.ofBytes (queryPkt query)) { PktEnv.quiet with response := 11 }),
      .session i .array2buffer, .session i (.writeToNet false true 0 1024)]

/-- The steps in which the answer, an OK packet, arrives and is passed on. -/
def okSteps (i : Nat) (status : Byte) : List Event :=
  [.session i (.readFromNet { NetEnv.quiet with inServer := some (okPkt status) }),
    .session i (.buffer2array fun _ => 0), .session i (.takeServerPkt .quiet),
    .session i (.answer (.ofBytes (okPkt status)) .okPacket .quiet)]

end ProxySQL
