/-
  ProxySQL.Session.ActiveConnections

  The counts of active connections in all runs.

  The steps of the sessions of a thread are runs of calls for their backends
  (`World.tracked`), each of which a ledger follows.  The counts are the numbers of
  streams all along a run exactly if every reset takes back what was counted for
  the stream of its backend (`activeConnections_balanced_iff`).  A backend that
  found no server that answers refers to the last one it tried and has no stream:
  when its session ends, a count goes down that never went up.
-/
import ProxySQL.Session.Ledger
import ProxySQL.Session.RoutingEffects
import ProxySQL.Session.Wiring

namespace ProxySQL

open Lib List Option

/-! ## The ledger follows a session -/

/-- The ledger has the backends of the sessions, in order. -/
structure Ledger.Tracks (l : Ledger) (sh : Shared) (mybes : List MysqlBackend) : Prop where
  shared : l.sh = sh
  backends : l.mybes.map TrackedBackend.mybe = mybes

/-- From `l₀`, calls lead to a ledger that tracks a session and the backends before and after its own. -/
structure Follows (l₀ : Ledger) (front back : List MysqlBackend) (n : Nat) (st : St) : Prop where
  run : ∃ es l, Run LedgerStep l₀ es l ∧ l.Tracks st.sh (front ++ (st.sess.mybes ++ back))
  hostgroups : st.sh.glovars.mysqlHostgroups = n
  length : st.sess.mybes.length ≤ n

namespace Ledger

theorem call_create (l : Ledger) (i : Nat) (cred : Credentials) (env : ConnectEnv) (fill : Nat → Byte)
    (hg : Nat) : l.call (.create i cred env fill hg) = l.update i fun sh mybe => do
      let (sh, mybe, _) ← createBackendFrom cred env fill hg 10 sh mybe
      return (sh, mybe) := rfl

theorem call_stream (l : Ledger) (i : Nat) (myds : MysqlDataStream) :
    l.call (.stream i myds) = l.update i fun sh mybe => do
      let _ ← deref mybe.serverMyds
      return (sh, { mybe with serverMyds := some myds }) := rfl

theorem call_forget (l : Ledger) (i : Nat) :
    l.call (.forget i) = l.update i fun sh mybe => return (sh, { mybe with lastMysqlConnpool := none }) :=
  rfl

end Ledger

variable {i : Nat} {sh' : Shared} {fc : Bool} {now : Nat → Nat} {t : St}

section Follows

variable {l₀ : Ledger} {front back : List MysqlBackend} {n : Nat} {st : St}

theorem Follows.call (h : Follows l₀ front back n st) {mybe mybe' : MysqlBackend}
    (f : Shared → MysqlBackend → Except Fault (Shared × MysqlBackend)) (e : Nat → BackendEvent)
    (he : ∀ l j, Ledger.call l (e j) = l.update j f) (hmybe : st.sess.mybes[i]? = some mybe)
    (hf : f st.sh mybe = .ok (sh', mybe')) (hglovars : sh'.glovars = st.sh.glovars) :
    Follows l₀ front back n (st.store i sh' mybe') := by
  obtain ⟨es, l, hrun, htracks⟩ := h.run
  have hlt : i < st.sess.mybes.length := (List.getElem?_eq_some_iff.1 hmybe).1
  -- the backend in the ledger
  have hget : (l.mybes.map TrackedBackend.mybe)[front.length + i]? = some mybe := by
    rw [htracks.backends, getElem?_append_right (Nat.le_add_right _ _), Nat.add_sub_cancel_left,
      getElem?_append_left hlt]
    exact hmybe
  rw [getElem?_map] at hget
  obtain ⟨x, hx, hxmybe⟩ := map_eq_some_iff.1 hget
  have hupdate : l.call (e (front.length + i)) =
      some { sh := sh', mybes := l.mybes.set (front.length + i) (x.next mybe') } := by
    rw [he, Ledger.update, hx]
    dsimp only
    rw [hxmybe, htracks.shared, hf]
  refine ⟨⟨_, _, hrun.snoc (.call hupdate), rfl, ?_⟩, hglovars ▸ h.hostgroups, ?_⟩
  · show (l.mybes.set (front.length + i) (x.next mybe')).map TrackedBackend.mybe =
      front ++ (st.sess.mybes.set i mybe' ++ back)
    rw [map_set, htracks.backends, set_append_right _ _ (Nat.le_add_right _ _), Nat.add_sub_cancel_left,
      set_append_left _ _ hlt]
    rfl
  · show (st.sess.mybes.set i mybe').length ≤ n
    rw [length_set]
    exact h.length

theorem Follows.other (h : Follows l₀ front back n st) (hsame : Undisturbed st.sh sh') :
    Follows l₀ front back n { st with sh := sh' } := by
  obtain ⟨es, l, hrun, hshared, hbackends⟩ := h.run
  rw [← hshared] at hsame
  refine ⟨⟨_, _, hrun.snoc (.other hsame), rfl, hbackends⟩, ?_, h.length⟩
  rw [hsame.hostgroups, hshared]
  exact h.hostgroups

theorem follows_rules : BackendRules (fun _ => True) (Follows l₀ front back n) where
  sess h hmybes := ⟨hmybes ▸ h.run, h.hostgroups, hmybes ▸ h.length⟩
  cache qc h := h.other ⟨⟨rfl, rfl, rfl, rfl, rfl, rfl⟩, rfl, rfl, rfl, fun _ => rfl, fun _ => rfl⟩
  conn {st c f} hcloses htarget h := by
    refine h.other ⟨⟨rfl, rfl, rfl, rfl, rfl, rfl⟩, rfl, rfl, rfl, fun d => ?_, fun d => ?_⟩
    · by_cases hd : d = c <;> simp [Shared.modifyConn, hd, hcloses]
    · by_cases hd : d = c <;> simp [Shared.modifyConn, hd, htarget]
  stream myds' h hmybe hmyds := by
    refine h.call _ (fun j => .stream j myds') (fun _ j => Ledger.call_stream _ j myds') hmybe ?_ rfl
    rw [hmyds]
    rfl
  forget h hmybe := h.call _ .forget (fun _ j => Ledger.call_forget _ j) hmybe rfl rfl
  reset {_ _ _ _ _ fc now} h hmybe hreset :=
    h.call (fun sh mybe => backendReset sh mybe fc now) (fun j => .reset j fc now)
      (fun _ _ => rfl) hmybe hreset (backendReset_gaveBack hreset).servers.glovars
  detach {_ _ _ _ _ fc now} h hmybe hdetach :=
    h.call (fun sh mybe => backendDetach sh mybe fc now) (fun j => .detach j fc now)
      (fun _ _ => rfl) hmybe hdetach (backendDetach_gaveBack hdetach).servers.glovars
  create {st hg _ _ _ env fill _} _ h hmybe hcreate := by
    refine h.call _ (fun j => .create j st.sess.credentials env fill hg)
      (fun _ j => Ledger.call_create _ j _ env fill hg) hmybe ?_ ?_
    · exact except_bind_eq_ok.2 ⟨_, hcreate, rfl⟩
    · exact congrArg Prod.fst (createBackendFrom_creates hcreate).tables

/-- The backend refers to no entry and has no stream. -/
def MysqlBackend.Idle (mybe : MysqlBackend) : Prop := mybe.mshge = none ∧ mybe.serverMyds = none

theorem bereset_ends (h : Ends (bereset i fc now) st () t) :
    t.sess.mybes = st.sess.mybes.set i mysqlBackendNew := by
  refine h.of_wp (Q := fun r t => r = .ok () → t.sess.mybes = st.sess.mybes.set i mysqlBackendNew)
    (bereset_wp (fun _ hr => ?_) fun mybe sh' mybe' _ hreset _ => ?_) rfl
  · cases hr
  · rw [backendReset_eq hreset]
    rfl

theorem resets_idle {is : List Nat} (h : Ends (is.forM fun i => bereset i fc now) st ⟨⟩ t) :
    t.sess.mybes.length = st.sess.mybes.length ∧
      ∀ (i : Nat) (mybe : MysqlBackend), t.sess.mybes[i]? = some mybe →
        (i ∈ is ∨ ∀ mybe', st.sess.mybes[i]? = some mybe' → mybe'.Idle) → mybe.Idle := by
  induction is generalizing st with
  | nil =>
    cases h
    refine ⟨rfl, fun i mybe hmybe hi => ?_⟩
    rcases hi with hmem | hidle
    · exact absurd hmem not_mem_nil
    · exact hidle mybe hmybe
  | cons j is ih =>
    obtain ⟨⟨⟩, u, hreset, hrest⟩ := ends_bind.1 h
    have hu := bereset_ends hreset
    obtain ⟨hlength, hidle⟩ := ih hrest
    rw [hu, length_set] at hlength
    refine ⟨hlength, fun i mybe hmybe hi => hidle i mybe hmybe ?_⟩
    by_cases hij : j = i
    · -- the backend that was just reset
      right
      intro mybe' hmybe'
      rw [hu, hij, getElem?_set_self' ] at hmybe'
      obtain ⟨_, -, rfl⟩ := map_eq_some_iff.1 hmybe'
      exact ⟨rfl, rfl⟩
    · rw [hu, getElem?_set_ne hij]
      rcases hi with hmem | hbefore
      · exact .inl ((mem_cons.1 hmem).resolve_left (Ne.symm hij))
      · exact .inr hbefore

theorem Follows.drop (h : Follows l₀ front back n st) (hidle : ∀ mybe ∈ st.sess.mybes, mybe.Idle)
    (healthy : Bool) :
    Follows l₀ front back n { st with sess := { st.sess with mybes := [], healthy := healthy } } := by
  obtain ⟨es, l, hrun, htracks⟩ := h.run
  refine ⟨?_, h.hostgroups, Nat.zero_le n⟩
  generalize st.sess.mybes = mybes at htracks hidle
  induction mybes generalizing es l with
  | nil => exact ⟨es, l, hrun, htracks⟩
  | cons mybe mybes ih =>
    have hget : (l.mybes.map TrackedBackend.mybe)[front.length]? = some mybe := by
      rw [htracks.backends, getElem?_append_right (Nat.le_refl _), Nat.sub_self]
      rfl
    rw [getElem?_map] at hget
    obtain ⟨x, hx, hxmybe⟩ := map_eq_some_iff.1 hget
    obtain ⟨hmshge, hmyds⟩ := hidle mybe mem_cons_self
    have hfree : l.call (.free front.length) = some { l with mybes := l.mybes.eraseIdx front.length } := by
      rw [Ledger.call, hx]
      dsimp only
      rw [hxmybe, hmshge, hmyds]
      rfl
    refine ih _ { l with mybes := l.mybes.eraseIdx front.length } (hrun.snoc (.call hfree))
      ⟨htracks.shared, ?_⟩ fun mybe hmem => hidle mybe (mem_cons_of_mem _ hmem)
    rw [← eraseIdx_map, htracks.backends, eraseIdx_append_of_length_le (Nat.le_refl _), Nat.sub_self]
    rfl

theorem Follows.close (h : Follows l₀ front back n st) (hends : Ends (sessClose now) st () t) :
    Follows l₀ front back n t := by
  have R := @follows_rules l₀ front back n
  obtain ⟨_, u, hclear, hends⟩ := ends_bind.1 hends
  cases hclear
  obtain ⟨⟨⟩, v, hreset, hends⟩ := ends_bind.1 (ends_get_bind.1 hends)
  obtain ⟨_, w, hdrop, hinit⟩ := ends_bind.1 hends
  cases hdrop
  have hu := R.sess h (s := { st.sess with
    clientMyds := if st.sess.clientMyds.fd ≠ 0 then st.sess.clientMyds.shutHard else st.sess.clientMyds,
    resultset := [], mysqlUsername := none, mysqlPassword := none, mysqlSchemaCur := none,
      mysqlSchemaNew := none }) rfl
  have hv : Follows l₀ front back n v := (forHostgroups_keeps fun i => R.bereset i _ now).ends hreset hu
  obtain ⟨hlength, hidle⟩ := resets_idle (ends_get_bind.1 hreset)
  refine (initQueryMetadata_keeps R.stable.steady none).ends hinit (hv.drop (fun mybe hmem => ?_) false)
  obtain ⟨i, hi⟩ := mem_iff_getElem?.1 hmem
  refine hidle i mybe hi (.inl (mem_range.2 ?_))
  have hlt := (List.getElem?_eq_some_iff.1 hi).1
  have hle := hv.length
  rw [h.hostgroups]
  omega

theorem Follows.step {e : SessEvent} (h : Follows l₀ front back n st) (hstep : SessStep st e t) :
    Follows l₀ front back n t := by
  refine follows_rules.sessStep hstep ?_ (fun now he => ?_) h
  · cases e with
    | forward => exact ⟨trivial, trivial⟩
    | _ => trivial
  · subst he
    exact h.close hstep.2

end Follows

/-! ## The ledger follows a thread -/

/-- The backends of all sessions, in order. -/
def World.backends (w : World) : List MysqlBackend := w.sessions.flatMap Session.mybes

/-- A session that is deleted was closed. -/
def DeletesClosed (w : World) : Event → Prop
  | .delete i => ∀ s, w.sessions[i]? = some s → s.mybes = []
  | _ => True

/-- A ledger can be led to the backends of the thread, and no session has more than there are hostgroups. -/
structure World.Tracked (l₀ : Ledger) (w : World) : Prop where
  run : ∃ es l, Run LedgerStep l₀ es l ∧ l.Tracks w.sh w.backends
  length : ∀ s ∈ w.sessions, s.mybes.length ≤ w.sh.glovars.mysqlHostgroups

section Tracked

variable {l₀ : Ledger} {w w' : World}

theorem World.backends_split {s : Session} (hs : w.sessions[i]? = some s) :
    w.backends = (w.sessions.take i).flatMap Session.mybes ++
      (s.mybes ++ (w.sessions.drop (i + 1)).flatMap Session.mybes) := by
  obtain ⟨hlt, rfl⟩ := List.getElem?_eq_some_iff.1 hs
  conv_lhs => rw [World.backends, ← take_append_drop i w.sessions, drop_eq_getElem_cons hlt]
  rw [flatMap_append, flatMap_cons]

theorem backendNew_run (l : Ledger) (n : Nat) :
    Run LedgerStep l (replicate n .backendNew)
      { l with mybes := l.mybes ++ replicate n { mybe := mysqlBackendNew, origin := none } } := by
  induction n generalizing l with
  | zero =>
    rw [replicate_zero, replicate_zero, append_nil]
    exact .nil l
  | succ n ih =>
    have hrest := ih { l with mybes := l.mybes ++ [{ mybe := mysqlBackendNew, origin := none }] }
    rw [append_assoc, singleton_append, ← replicate_succ] at hrest
    exact .cons (.call rfl) hrest

theorem World.Tracked.step {e : Event} (hw : w.Tracked l₀) (h : Guarded WorldStep DeletesClosed w e w') :
    w'.Tracked l₀ := by
  obtain ⟨es, l, hrun, hshared, hbackends⟩ := hw.run
  obtain ⟨hstep, hdelete⟩ := h
  cases hstep with
  | accept fill admin clientFd threadId random =>
    refine ⟨⟨_, _, hrun.append (backendNew_run l w.sh.glovars.mysqlHostgroups), hshared, ?_⟩,
      fun s hs => ?_⟩
    · rw [map_append, hbackends, map_replicate, World.backends, World.backends, flatMap_append,
        flatMap_singleton]
      rfl
    · rcases mem_append.1 hs with hold | hnew
      · exact hw.length s hold
      · obtain rfl := mem_singleton.1 hnew
        exact length_replicate.le
  | @session i s e' t hs hst =>
    have hmem := mem_of_getElem? hs
    have hfollows : Follows l₀ ((w.sessions.take i).flatMap Session.mybes)
        ((w.sessions.drop (i + 1)).flatMap Session.mybes) w.sh.glovars.mysqlHostgroups
          { sh := w.sh, sess := s } := by
      refine ⟨⟨es, l, hrun, hshared, ?_⟩, rfl, hw.length s hmem⟩
      rw [hbackends, World.backends_split hs]
    obtain ⟨⟨fs, l', hrun', htracks'⟩, hhostgroups, hlength⟩ := hfollows.step hst
    have hlt : i < w.sessions.length := (List.getElem?_eq_some_iff.1 hs).1
    refine ⟨⟨fs, l', hrun', htracks'.shared, ?_⟩, fun s' hs' => ?_⟩
    · have hset : (w.sessions.set i t.sess)[i]? = some t.sess := getElem?_set_self hlt
      rw [htracks'.backends, @World.backends_split i { sh := t.sh, sessions := w.sessions.set i t.sess }
        t.sess hset, take_set_of_le (Nat.le_refl i), drop_set_of_lt (Nat.lt_succ_self i)]
    · rw [hhostgroups]
      rcases mem_or_eq_of_mem_set hs' with hold | rfl
      · exact hw.length s' hold
      · exact hlength
  | @delete i s hs _ =>
    refine ⟨⟨es, l, hrun, hshared, ?_⟩, fun s' hs' => hw.length s' (mem_of_mem_eraseIdx hs')⟩
    rw [hbackends, World.backends_split hs, hdelete s hs, World.backends, eraseIdx_eq_take_drop_succ,
      flatMap_append]
    rfl
  | flushHostgroups rows =>
    have hglovars := (flushServersDbToMem_loads w.sh rows).glovars
    refine ⟨⟨_, _, hrun.snoc (.call (e := .flushHostgroups rows) rfl), ?_, hbackends⟩, fun s hs => ?_⟩
    · rw [hshared]
    · rw [hglovars]
      exact hw.length s hs
  | @reconfigure sh hsame =>
    have hother : Undisturbed l.sh sh := by
      rw [hshared]
      exact ⟨hsame.toSameEntries, hsame.nextConn, hsame.thrMyconnpool, hsame.gloconnpool,
        fun c => by rw [hsame.conns], fun c => by rw [hsame.conns]⟩
    refine ⟨⟨_, _, hrun.snoc (.other hother), rfl, hbackends⟩, fun s hs => ?_⟩
    rw [hsame.hostgroups]
    exact hw.length s hs

/-- What the sessions of a thread do are calls for their backends. -/
theorem World.tracked {g : Glovars} {md5 : List Byte → Str} {scramble : List Byte → Str → List Byte}
    {es : List Event} (h : Run (Guarded WorldStep DeletesClosed) (World.init g md5 scramble) es w) :
    ∃ fs l, Run LedgerStep (Ledger.init g md5 scramble) fs l ∧ l.Tracks w.sh w.backends := by
  refine (h.invariant (P := World.Tracked (Ledger.init g md5 scramble))
    (fun _ _ _ hstep hw => hw.step hstep) ?_).run
  exact ⟨⟨[], _, .nil _, rfl, rfl⟩, fun _ hs => absurd hs not_mem_nil⟩

end Tracked

/-! ## Balance -/

theorem Ledger.init_balanced (g : Glovars) (md5 : List Byte → Str)
    (scramble : List Byte → Str → List Byte) : (Ledger.init g md5 scramble).Balanced :=
  fun m hm _ => absurd hm (Nat.not_lt_zero m)

/-- In all states of a run each entry counts the backends whose stream was created while they referred to
    it, exactly if every reset of the run is of a backend whose entry is the one that counts its stream:
    a backend without a stream refers to none. -/
theorem activeConnections_balanced_iff {g : Glovars} {md5 : List Byte → Str}
    {scramble : List Byte → Str → List Byte} {es : List BackendEvent} {l : Ledger}
    (hrun : Run LedgerStep (Ledger.init g md5 scramble) es l) :
    (∀ fs l₁, fs <+: es → Run LedgerStep (Ledger.init g md5 scramble) fs l₁ → l₁.Balanced) ↔
      Run (Guarded LedgerStep Ledger.ResetsMatch) (Ledger.init g md5 scramble) es l :=
  hrun.always_iff_guarded (I := Ledger.Ok) (P := Ledger.Balanced) (G := Ledger.ResetsMatch)
    LedgerStep.deterministic
    (fun hstep hok => (hok.step hstep).ok) (fun hstep hok hl => hok.step_balanced_iff hstep hl)
    (.init g md5 scramble) (Ledger.init_balanced g md5 scramble)

/-- Backend `i` of user `u` connects to hostgroup 0, if the server answers. -/
def connectEvent (i : Nat) (answer : Option Int) : BackendEvent :=
  .create i { username := some (bytesOf "u"), password := some [], schema := some (bytesOf "test") }
    { PktEnv.quiet.connect1 with connect := fun _ => answer } (fun _ => 0) 0

/-- Two backends connect, one of them gives its connection back, the other one goes with its session. -/
theorem activeConnections_balanced_reset :
    ∃ es l, Run LedgerStep { sh := oneServer.sh, mybes := [] } es l ∧ l.sh.nextMshge = 1 ∧
      (l.sh.mshges 0).connectionsActive = 1 ∧
      ∀ fs l₁, fs <+: es → Run LedgerStep { sh := oneServer.sh, mybes := [] } fs l₁ → l₁.Balanced := by
  obtain ⟨l, hguarded, hnext, hactive⟩ := Run.exists_guarded_exec Ledger.call
    { sh := oneServer.sh, mybes := [] }
    [.flushHostgroups [dbRow], .backendNew, .backendNew, connectEvent 0 (some 7), connectEvent 1 (some 8),
      .detach 0 false fun _ => 0, .reset 1 true fun _ => 0, .free 1]
    (P := fun l => l.sh.nextMshge = 1 ∧ (l.sh.mshges 0).connectionsActive = 1)
    (fun _ _ _ => LedgerStep.call) (fun l e => of_decide_eq_true (p := l.ResetsMatch e)) (by decide +kernel)
  have hrun := hguarded.mono fun _ _ _ h => h.1
  exact ⟨_, l, hrun, hnext, hactive, (activeConnections_balanced_iff hrun).2 hguarded⟩

instance (w : World) (e : Event) : Decidable (DeletesClosed w e) := by
  induction e using Event.casesOn <;> (unfold DeletesClosed; infer_instance)

set_option maxRecDepth 4000 in
/-- The server does not answer the only client, which leaves: no session is left, and the server has minus
    one connection. -/
theorem activeConnections_negative :
    ∃ es w, Run (Guarded WorldStep DeletesClosed) oneServer es w ∧ w.sessions = [] ∧
      (w.sh.mshges 0).connectionsActive = -1 ∧
      ∃ fs l, Run LedgerStep { sh := oneServer.sh, mybes := [] } fs l ∧ l.Tracks w.sh w.backends ∧
      ¬l.Balanced := by
  obtain ⟨w, hrun, hsessions, hnext, hfreed, hactive⟩ := Run.exists_guarded_exec World.step oneServer
    (.flushHostgroups [dbRow] :: loginSteps 0 ++ readSteps 0 (queryPkt "SELECT 1") ++
      [.session 0 (.dispatch .quiet),
        .session 0 (.forward 0 (.ofBytes (queryPkt "SELECT 1"))
          { PktEnv.quiet with
            connect1 := { PktEnv.quiet.connect1 with connect := fun _ => none }, send1 := [1024],
              send2 := [1024] }),
        .session 0 (.close fun _ => 0), .delete 0])
    (P := fun w => w.sessions.isEmpty ∧ w.sh.nextMshge = 1 ∧ (w.sh.mshges 0).freed = false ∧
      (w.sh.mshges 0).connectionsActive = -1)
    World.worldStep_of_step (fun w e => of_decide_eq_true (p := DeletesClosed w e)) (by decide +kernel)
  rw [List.isEmpty_iff] at hsessions
  obtain ⟨fs, l, hledger, htracks⟩ := World.tracked hrun
  refine ⟨_, w, hrun, hsessions, hactive, fs, l, hledger, htracks, fun hbalanced => ?_⟩
  -- a ledger without backends has no streams
  have hmybes : l.mybes = [] := by
    rw [← map_eq_nil_iff, htracks.backends, World.backends, hsessions]
    rfl
  have hcount := hbalanced 0 (by rw [htracks.shared]; omega) (by rw [htracks.shared]; exact hfreed)
  rw [htracks.shared, hactive, Ledger.streams, hmybes] at hcount
  exact absurd hcount (by decide)

end ProxySQL
