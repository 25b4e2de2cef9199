/-
  ProxySQL.Thread.Poll

  One pass of the loop of `mysql_thread` (`main.c`), from the descriptors it
  polls to the sessions that get the results.

  The descriptors of all healthy sessions are copied into one array, `poll` fills
  in what it found, maintenance for removed servers may close sessions, and then
  the array is copied back.  Both copies go through the sessions in order and
  only count: nothing in the array says whose an entry is.  `SessFd.slot` records
  where an entry went; no modelled function reads it.

  `check_fds_errors` and the handler, which follow the copy to each session, see
  that session and the shared data alone, and write no `fds`.
-/
import ProxySQL.Session.Release

namespace ProxySQL

open Lib List

/-! ## Descriptors -/

def pollIn : Nat := 0x001
def pollOut : Nat := 0x004

/-- `struct pollfd`. -/
structure PollFd where
  fd : Int
  events : Nat
  revents : Nat
  deriving DecidableEq

/-- An entry of `sess->fds`, and the place in the thread's array that it was last copied to. -/
structure SessFd extends PollFd where
  slot : Nat
  deriving DecidableEq

/-- A session with its `fds[MAX_FDS_PER_SESSION]` and `nfds`. -/
structure PollSession where
  sess : Session
  fds0 : SessFd
  fds1 : SessFd
  nfds : Nat

/-- The thread's array, of which `nfds` entries are in use. -/
structure FdArray where
  fds : Nat → PollFd
  nfds : Nat

/-- `poll` returns, having filled in `revents`. -/
def FdArray.poll (arr : FdArray) (revents : Nat → Nat) : FdArray :=
  { arr with fds := fun i => if i < arr.nfds then { arr.fds i with revents := revents i } else arr.fds i }

/-- The events that `conn_poll` asks for on a stream. -/
def MysqlDataStream.pollEvents (myds : MysqlDataStream) : Nat :=
  (if 0 < myds.fd ∧ queueAvailable myds.input.queue ≠ 0 then pollIn else 0) |||
    (if 0 < myds.fd ∧ (queueData myds.output.queue ≠ 0 ∨ myds.output.partialLen ≠ 0 ∨
        myds.output.pkts ≠ []) then
      pollOut else 0)

/-- The stream of the active backend, if it is to be polled. -/
def Session.polledServer (s : Session) : Option MysqlDataStream :=
  if s.admin = 0 then do
    let i ← s.serverMybe
    let mybe ← s.mybes[i]?
    let myds ← mybe.serverMyds
    let _ ← mybe.serverMycpe
    some myds
  else none

namespace PollSession

/-- The thread decides how many descriptors the session has. -/
def prepare (p : PollSession) : PollSession :=
  match p.sess.polledServer with
  | some myds =>
      { p with
        sess := { p.sess with lastServerPollFd := myds.fd }
        fds1 := { p.fds1 with fd := myds.fd }
        nfds := 2 }
  | none => { p with nfds := 1 }

/-- `conn_poll`, with all four bits of `sess->status` set. -/
def connPoll (p : PollSession) : PollSession :=
  let p := { p with fds0 := { p.fds0 with events := p.sess.clientMyds.pollEvents } }
  if 1 < p.nfds then
    match p.sess.polledServer with
    | some myds => { p with fds1 := { p.fds1 with events := myds.pollEvents } }
    | none => p
  else p

end PollSession

/-! ## Copying -/

/-- One entry on its way out. -/
def SessFd.copyOut (own : SessFd) (arr : FdArray) : SessFd × FdArray :=
  if own.events ≠ 0 then
    let own := { own with revents := 0, slot := arr.nfds }
    (own, { fds := Function.update arr.fds arr.nfds own.toPollFd, nfds := arr.nfds + 1 })
  else (own, arr)

/-- One entry on its way back, from place `nfds`. -/
def SessFd.copyBack (own : SessFd) (fds : Nat → PollFd) (nfds : Nat) : SessFd × Nat :=
  if own.events ≠ 0 then ({ own with toPollFd := fds nfds }, nfds + 1) else (own, nfds)

namespace PollSession

/-- The loop over `j` in the copy out. -/
def copyFdsOut (p : PollSession) (arr : FdArray) : PollSession × FdArray :=
  let (fds0, arr) := p.fds0.copyOut arr
  if 1 < p.nfds then
    let (fds1, arr) := p.fds1.copyOut arr
    ({ p with fds0, fds1 }, arr)
  else ({ p with fds0 }, arr)

/-- The loop over `j` in the copy back. -/
def copyFdsBack (p : PollSession) (fds : Nat → PollFd) (nfds : Nat) : PollSession × Nat :=
  let (fds0, nfds) := p.fds0.copyBack fds nfds
  if 1 < p.nfds then
    let (fds1, nfds) := p.fds1.copyBack fds nfds
    ({ p with fds0, fds1 }, nfds)
  else ({ p with fds0 }, nfds)

/-- The copy out, for one session. -/
def copyOut (p : PollSession) (arr : FdArray) : PollSession × FdArray :=
  if p.sess.healthy then p.prepare.connPoll.copyFdsOut arr else (p, arr)

/-- The copy back, for one session. -/
def copyBack (p : PollSession) (fds : Nat → PollFd) (nfds : Nat) : PollSession × Nat :=
  if p.sess.healthy then p.copyFdsBack fds nfds else (p, nfds)

end PollSession

/-- The loop over the sessions that copies out. -/
def copyOutAll : List PollSession → FdArray → List PollSession × FdArray
  | [], arr => ([], arr)
  | p :: l, arr =>
      let (p, arr) := p.copyOut arr
      let (l, arr) := copyOutAll l arr
      (p :: l, arr)

/-- The loop over the sessions that copies back. -/
def copyBackAll (fds : Nat → PollFd) : List PollSession → Nat → List PollSession
  | [], _ => []
  | p :: l, nfds =>
      let (p, nfds) := p.copyBack fds nfds
      p :: copyBackAll fds l nfds

/-! ## The pass -/

/-- The thread, as far as a pass is concerned. -/
structure PollThread where
  admin : Nat
  sh : Shared
  removingHosts : Bool
  maintenanceEnds : Int
  sessions : List PollSession
  arr : FdArray

/-- What the thread meets during a pass. -/
structure PassEnv where
  /-- what `poll` reports for each place of the array -/
  revents : Nat → Nat
  /-- the command that the queue holds when the pipe is readable -/
  admincmd : String
  mysqlMaintenanceTimeout : Int
  /-- `monotonic_time` when the command is taken, and at the check for the end of maintenance -/
  commandTime : Int
  ct : Int
  /-- `gettimeofday` when a backend is reset -/
  now : Nat → Nat

/-- Code of one session, run on the thread's shared data. -/
def PollSession.run (m : SessM Nat) (sh : Shared) (p : PollSession) :
    Except Fault (Nat × Shared × PollSession) :=
  match outcome m { sh := sh, sess := p.sess } with
  | (.ok c, st) => .ok (c, st.sh, { p with sess := st.sess })
  | (.error e, _) => .error e

/-- A loop over the sessions that adds up what each returns. -/
def forSessions (m : SessM Nat) : Shared → List PollSession → Except Fault (Nat × Shared × List PollSession)
  | sh, [] => .ok (0, sh, [])
  | sh, p :: l => do
      let (c, sh, p) ← p.run m sh
      let (cnt, sh, l) ← forSessions m sh l
      .ok (c + cnt, sh, p :: l)

/-- The body of the loop that drops what is not switched yet. -/
def dropNotSwitched (now : Nat → Nat) : SessM Nat := do
  let c ← removeAllBackendsOfflineSoft now
  when (c ≠ 0) do
    modifySess fun s => { s with forceCloseBackends := true }
    sessClose now
  return c

namespace PollThread

/-- The first place for descriptors of sessions. -/
def start (thr : PollThread) : Nat := if thr.admin = 0 then 3 else 1

/-- The listening descriptors and the pipe are armed, and the sessions' descriptors copied out. -/
def copyOut (thr : PollThread) : PollThread :=
  let fds i := if i < thr.start then { thr.arr.fds i with events := pollIn, revents := 0 }
    else thr.arr.fds i
  let (sessions, arr) := copyOutAll thr.sessions { fds, nfds := thr.start }
  { thr with sessions, arr }

def poll (thr : PollThread) (revents : Nat → Nat) : PollThread := { thr with arr := thr.arr.poll revents }

/-- The admin thread is calling. -/
def takeCommand (thr : PollThread) (env : PassEnv) : PollThread :=
  if thr.admin = 0 ∧ (thr.arr.fds 2).revents = pollIn ∧ env.admincmd = "REMOVE SERVER" then
    { thr with removingHosts := true,
               maintenanceEnds := env.commandTime + env.mysqlMaintenanceTimeout * 1000 }
  else thr

/-- What follows when the admin thread is making this one remove a server. -/
def removeHosts (thr : PollThread) (env : PassEnv) : Except Fault PollThread :=
  if thr.admin = 0 ∧ thr.removingHosts then do
    let (cnt, sh, sessions) ← forSessions (removeAllBackendsOfflineSoft env.now) thr.sh thr.sessions
    if cnt = 0 then .ok { thr with sh, sessions, removingHosts := false }
    else if thr.maintenanceEnds < env.ct then do
      let (_, sh, sessions) ← forSessions (dropNotSwitched env.now) sh sessions
      .ok { thr with sh, sessions, removingHosts := false }
    else .ok { thr with sh, sessions }
  else .ok thr

/-- The pass up to its copy-back loop. -/
def upToCopyBack (thr : PollThread) (env : PassEnv) : Except Fault PollThread :=
  ((thr.copyOut.poll env.revents).takeCommand env).removeHosts env

/-- The copy-back loop. -/
def copyBack (thr : PollThread) : PollThread :=
  { thr with sessions := copyBackAll thr.arr.fds thr.sessions thr.start }

end PollThread

/-! ## What maintenance does to the sessions -/

/-- The server of the session's backend for hostgroup `j` is `OFFLINE_SOFT`. -/
def Session.onOfflineSoft (s : Session) (sh : Shared) (j : Nat) : Bool :=
  match s.mybes[j]? with
  | none => false
  | some mybe =>
      match mybe.mshge with
      | none => false
      | some m =>
          match sh.msPtr m with
          | .error _ => false
          | .ok ms => ms.status = .offlineSoft

/-- The session has a backend on a server that is `OFFLINE_SOFT`. -/
def Session.OnOfflineSoft (s : Session) (sh : Shared) : Prop :=
  ∃ j < sh.glovars.mysqlHostgroups, s.onOfflineSoft sh j = true

variable {sh' : Shared} {st : St} {c cnt off' : Nat} {l : List PollSession}
  {closes : Session → Prop} {arr' : FdArray} {revents : Nat → Nat}

section Maintenance

variable {now : Nat → Nat} {sh : Shared}

theorem Session.OnOfflineSoft.congr (h : ServersKept sh sh') (s : Session) :
    s.OnOfflineSoft sh' ↔ s.OnOfflineSoft sh := by
  have hptr : ∀ m, sh'.msPtr m = sh.msPtr m := by
    intro m
    rw [Shared.msPtr, Shared.msPtr, h.msPtr m, h.servers]
  have hj : ∀ j, s.onOfflineSoft sh' j = s.onOfflineSoft sh j := by
    intro j
    simp only [Session.onOfflineSoft, hptr]
  simp only [Session.OnOfflineSoft, hj, h.glovars]

/-- Looking at a backend that has no entry stops the process. -/
theorem isOfflineSoft_wp (j : Nat) (st : St) :
    wp (isOfflineSoft j) (fun r t => t = st ∧ ∀ b, r = .ok b →
      b = st.sess.onOfflineSoft st.sh j ∧ ∃ mybe, st.sess.mybes[j]? = some mybe ∧
      mybe.mshge ≠ none) st := by
  unfold isOfflineSoft Session.onOfflineSoft
  rw [wp_bind, wp_getMybe]
  cases hmybe : st.sess.mybes[j]? with
  | none => exact ⟨rfl, fun _ h => by cases h⟩
  | some mybe =>
    dsimp only
    rw [wp_bind, wp_lift]
    cases hm : mybe.mshge with
    | none => exact ⟨rfl, fun _ h => by cases h⟩
    | some m =>
      have hsome : ∃ x, some mybe = some x ∧ x.mshge ≠ none :=
        ⟨mybe, rfl, by rw [hm]; exact Option.some_ne_none m⟩
      simp only [deref]
      rw [wp_get_bind]
      split
      · next hnull =>
        refine ⟨rfl, fun b hb => ⟨?_, hsome⟩⟩
        cases hb
        simp [Shared.msPtr, hnull, deref, bind, Except.bind]
      · rw [wp_get_bind, wp_bind, wp_lift]
        cases hms : st.sh.msPtr m with
        | error e => exact ⟨rfl, fun _ h => by cases h⟩
        | ok ms =>
          refine ⟨rfl, fun b hb => ⟨?_, hsome⟩⟩
          exact (Except.ok.inj hb).symm

/-- The count after the cleanup stops the process at a backend that the cleanup has reset, so where it is
    reached, nothing was cleaned up. -/
theorem removeAllBackendsOfflineSoft_ends {t : St}
    (h : Ends (removeAllBackendsOfflineSoft now) st c t) :
    t = st ∧ (c ≠ 0 ↔ st.sess.OnOfflineSoft st.sh) := by
  unfold removeAllBackendsOfflineSoft at h
  rw [ends_get_bind] at h
  obtain ⟨⟨⟩, u, hloop, hcounted⟩ := ends_bind.1 h
  obtain ⟨soft, v, hcount, hret⟩ := ends_bind.1 hcounted
  cases hret
  let Reset (u : St) : Prop :=
    ∃ j < st.sh.glovars.mysqlHostgroups, ∃ mybe, u.sess.mybes[j]? = some mybe ∧ mybe.mshge = none
  have hkeeps : Keeps (fun u => u = st ∨ Reset u)
      ((range st.sh.glovars.mysqlHostgroups).forM (removeOfflineSoft now)) := by
    refine .forM fun j hj => removeOfflineSoft_keeps ?_
    intro u mybe myds m ms hu hmybe _ _ _ _ _
    refine bereset_wp (fun _ => hu) fun mybe sh' mybe' hget hreset => .inr ⟨j, mem_range.1 hj, ?_⟩
    obtain rfl := backendReset_eq hreset
    obtain ⟨hlt, -⟩ := List.getElem?_eq_some_iff.1 hget
    exact ⟨_, getElem?_set_self hlt, rfl⟩
  obtain ⟨rfl, hread⟩ := hcount.of_wp (wp_mapM_reads fun j _ => isOfflineSoft_wp j u)
  obtain ⟨rfl, hall⟩ := hread soft rfl
  rcases hkeeps.ends hloop (.inl rfl) with rfl | ⟨j, hj, mybe, hmybe, hnone⟩
  · refine ⟨rfl, ?_⟩
    rw [← Nat.pos_iff_ne_zero, count_pos_iff, mem_map]
    constructor
    · rintro ⟨j, hj, hsoft⟩
      exact ⟨j, mem_range.1 hj, hsoft⟩
    · rintro ⟨j, hj, hsoft⟩
      exact ⟨j, mem_range.2 hj, hsoft⟩
  · obtain ⟨mybe', hmybe', hsome⟩ := hall j (mem_range.2 hj)
    obtain rfl := Option.some.inj (hmybe.symm.trans hmybe')
    exact absurd hnone hsome

theorem sessClose_closes (h : ServersKept sh st.sh) :
    wp (sessClose now) (fun r t => ∀ u, r = .ok u → ServersKept sh t.sh ∧ t.sess.healthy = false) st := by
  have hreset : ∀ i fc, Keeps (fun t : St => ServersKept sh t.sh) (bereset i fc now) := fun i fc t ht =>
    bereset_wp (fun _ => ht) fun _ _ _ _ hreset => ht.trans (backendReset_gaveBack hreset).servers
  unfold sessClose
  rw [wp_bind, wp_modifySess, wp_get_bind]
  refine wp_bind_of (forHostgroups_keeps (fun i => hreset i _) _ h) (fun _ t ht => ?_) (fun _ _ _ => nofun)
  rw [wp_bind, wp_modifySess]
  have hinit : Keeps (fun t : St => ServersKept sh t.sh ∧ t.sess.healthy = false)
    (initQueryMetadata none) :=
    Keeps.get.bind fun _ => .ite (.throw _) (.modify fun _ hs => hs)
  exact wp_of (hinit _ ⟨ht, rfl⟩) fun _ _ hq _ _ => hq

theorem dropNotSwitched_ends {t : St} (h : Ends (dropNotSwitched now) st c t) :
    ServersKept st.sh t.sh ∧ (t.sess.healthy = true ↔ st.sess.healthy = true ∧
      ¬st.sess.OnOfflineSoft st.sh) := by
  obtain ⟨c', u, hremove, hrest⟩ := ends_bind.1 h
  obtain ⟨rfl, hc⟩ := removeAllBackendsOfflineSoft_ends hremove
  obtain ⟨⟨⟩, v, hdrop, hret⟩ := ends_bind.1 hrest
  cases hret
  rw [← hc]
  unfold when at hdrop
  split at hdrop
  · next hne =>
    obtain ⟨⟨⟩, w, hmod, hclose⟩ := ends_bind.1 hdrop
    obtain rfl : { u with sess := { u.sess with forceCloseBackends := true } } = w := (Prod.mk.inj hmod).2
    obtain ⟨hkept, hclosed⟩ := hclose.of_wp (sessClose_closes (ServersKept.refl u.sh)) () rfl
    refine ⟨hkept, ?_⟩
    rw [hclosed]
    exact ⟨nofun, fun hand => absurd hne hand.2⟩
  · next heq =>
    cases hdrop
    exact ⟨.refl _, fun hh => ⟨hh, heq⟩, fun hand => hand.1⟩

theorem PollSession.run_ok {m : SessM Nat} {p p' : PollSession}
    (h : p.run m sh = .ok (c, sh', p')) :
    Ends m { sh := sh, sess := p.sess } c { sh := sh', sess := p'.sess } ∧
    p' = { p with sess := p'.sess } := by
  unfold PollSession.run at h
  split at h
  · next c' st hst =>
    cases h
    exact ⟨hst, rfl⟩
  · cases h

theorem forSessions_remove {l' : List PollSession}
    (h : forSessions (removeAllBackendsOfflineSoft now) sh l = .ok (cnt, sh', l')) :
    sh' = sh ∧ l' = l ∧ (cnt = 0 → ∀ p ∈ l, ¬p.sess.OnOfflineSoft sh) := by
  induction l generalizing cnt sh' l' with
  | nil =>
    cases h
    exact ⟨rfl, rfl, fun _ p hp => absurd hp not_mem_nil⟩
  | cons p l ih =>
    obtain ⟨⟨c, sh1, p1⟩, hrun, hcont⟩ := except_bind_eq_ok.1 h
    obtain ⟨⟨cnt2, sh2, l2⟩, hrest, hret⟩ := except_bind_eq_ok.1 hcont
    cases hret
    obtain ⟨hends, hp1⟩ := PollSession.run_ok hrun
    obtain ⟨heq, hc⟩ := removeAllBackendsOfflineSoft_ends hends
    obtain ⟨rfl, hsess⟩ := St.mk.inj heq
    rw [hsess] at hp1
    obtain rfl : p1 = p := hp1
    obtain ⟨rfl, rfl, hnone⟩ := ih hrest
    refine ⟨rfl, rfl, fun hzero => forall_mem_cons.2 ⟨?_, hnone (by omega)⟩⟩
    exact fun hsoft => hc.2 hsoft (by omega)

/-- What is left of a session after maintenance that closes the sessions in `closes`. -/
structure PollSession.Kept (closes : Session → Prop) (p q : PollSession) : Prop where
  fds0 : q.fds0 = p.fds0
  fds1 : q.fds1 = p.fds1
  nfds : q.nfds = p.nfds
  healthy : q.sess.healthy = true ↔ p.sess.healthy = true ∧ ¬closes p.sess

theorem PollSession.Kept.refl {p : PollSession} (h : ¬closes p.sess) : p.Kept closes p :=
  ⟨rfl, rfl, rfl, fun hh => ⟨hh, h⟩, fun hand => hand.1⟩

theorem forSessions_drop {sh0 : Shared} {l' : List PollSession} (hkept : ServersKept sh0 sh)
    (h : forSessions (dropNotSwitched now) sh l = .ok (cnt, sh', l')) :
    List.Forall₂ (PollSession.Kept fun s => s.OnOfflineSoft sh0) l l' := by
  induction l generalizing cnt sh sh' l' with
  | nil =>
    cases h
    exact .nil
  | cons p l ih =>
    obtain ⟨⟨c, sh1, p1⟩, hrun, hcont⟩ := except_bind_eq_ok.1 h
    obtain ⟨⟨cnt2, sh2, l2⟩, hrest, hret⟩ := except_bind_eq_ok.1 hcont
    cases hret
    obtain ⟨hends, hp1⟩ := PollSession.run_ok hrun
    obtain ⟨hservers, hhealthy⟩ := dropNotSwitched_ends hends
    refine .cons ⟨?_, ?_, ?_, ?_⟩ (ih (hkept.trans hservers) hrest)
    · rw [hp1]
    · rw [hp1]
    · rw [hp1]
    · rw [← Session.OnOfflineSoft.congr hkept]
      exact hhealthy

end Maintenance

namespace PollThread

variable {thr t : PollThread} {env : PassEnv}

/-- The pass drops the sessions that are not switched yet: it takes the admin thread's command with no time
    left, or it has taken it before and the time is over. -/
def Forces (thr : PollThread) (env : PassEnv) : Prop :=
  thr.admin = 0 ∧
    if env.revents 2 = pollIn ∧ env.admincmd = "REMOVE SERVER" then
      env.commandTime + env.mysqlMaintenanceTimeout * 1000 < env.ct
    else thr.removingHosts = true ∧ thr.maintenanceEnds < env.ct

/-- The pass closes a session. -/
def Closes (thr : PollThread) (env : PassEnv) (s : Session) : Prop :=
  thr.Forces env ∧ s.OnOfflineSoft thr.sh

theorem removeHosts_ok (h : thr.removeHosts env = .ok t) :
    t.admin = thr.admin ∧ t.arr = thr.arr ∧
      List.Forall₂ (PollSession.Kept fun s => (thr.admin = 0 ∧ thr.removingHosts = true ∧
        thr.maintenanceEnds < env.ct) ∧ s.OnOfflineSoft thr.sh) thr.sessions t.sessions := by
  unfold removeHosts at h
  split at h
  · next hremoving =>
    obtain ⟨⟨cnt, sh1, l1⟩, hremove, hcont⟩ := except_bind_eq_ok.1 h
    obtain ⟨rfl, rfl, hnone⟩ := forSessions_remove hremove
    dsimp only at hcont
    split at hcont
    · next hzero =>
      cases hcont
      refine ⟨rfl, rfl, List.forall₂_same.2 fun p hp => .refl fun hcloses => ?_⟩
      exact hnone hzero p hp hcloses.2
    · split at hcont
      · next hlate =>
        obtain ⟨⟨cnt2, sh2, l2⟩, hdrop, hret⟩ := except_bind_eq_ok.1 hcont
        cases hret
        refine ⟨rfl, rfl, (forSessions_drop (.refl _) hdrop).imp fun p q hk => ?_⟩
        refine ⟨hk.fds0, hk.fds1, hk.nfds, hk.healthy.trans (and_congr_right' (not_congr ?_))⟩
        exact ⟨fun hsoft => ⟨⟨hremoving.1, hremoving.2, hlate⟩, hsoft⟩, fun hcloses => hcloses.2⟩
      · next hearly =>
        cases hcont
        exact ⟨rfl, rfl, List.forall₂_same.2 fun p hp => .refl fun hcloses => hearly hcloses.1.2.2⟩
  · next hidle =>
    cases h
    refine ⟨rfl, rfl, List.forall₂_same.2 fun p hp => .refl fun hcloses => ?_⟩
    exact hidle ⟨hcloses.1.1, hcloses.1.2.1⟩

/-- Maintenance does not look at the array once the command is taken. -/
theorem removeHosts_arr (arr : FdArray) (h : thr.removeHosts env = .ok t) :
    ({ thr with arr } : PollThread).removeHosts env = .ok { t with arr } := by
  unfold removeHosts at h ⊢
  split at h
  · next hremoving =>
    rw [if_pos hremoving]
    obtain ⟨⟨cnt, sh1, l1⟩, hremove, hcont⟩ := except_bind_eq_ok.1 h
    rw [hremove, except_ok_bind]
    dsimp only at hcont ⊢
    split at hcont
    · next hzero =>
      cases hcont
      rw [if_pos hzero]
    · next hzero =>
      rw [if_neg hzero]
      split at hcont
      · next hlate =>
        obtain ⟨⟨cnt2, sh2, l2⟩, hdrop, hret⟩ := except_bind_eq_ok.1 hcont
        cases hret
        rw [if_pos hlate, hdrop]
        rfl
      · next hearly =>
        cases hcont
        rw [if_neg hearly]
  · next hidle =>
    cases h
    rw [if_neg hidle]

end PollThread

/-! ## Places -/

/-- The array has more entries in use than before. -/
structure FdArray.Extends (arr arr' : FdArray) : Prop where
  le : arr.nfds ≤ arr'.nfds
  fds : ∀ i < arr.nfds, arr'.fds i = arr.fds i

theorem FdArray.Extends.refl (arr : FdArray) : arr.Extends arr := ⟨Nat.le_refl _, fun _ _ => rfl⟩

theorem FdArray.Extends.trans {a b c : FdArray} (h : a.Extends b) (h' : b.Extends c) : a.Extends c :=
  ⟨Nat.le_trans h.le h'.le, fun i hi => (h'.fds i (Nat.lt_of_lt_of_le hi h.le)).trans (h.fds i hi)⟩

namespace SessFd

variable {own : SessFd} {arr : FdArray} {off : Nat}

/-- How many places the entry takes. -/
def places (own : SessFd) : Nat := if own.events ≠ 0 then 1 else 0

/-- The entry, if it was copied, went to place `off`. -/
def At (own : SessFd) (off : Nat) : Prop := own.events ≠ 0 → own.slot = off

/-- The entry, if it was copied, is where it went. -/
def Stored (own : SessFd) (arr : FdArray) : Prop :=
  own.events ≠ 0 → own.slot < arr.nfds ∧ arr.fds own.slot = own.toPollFd

/-- The entry, if it was polled, gets its own result. -/
def Received (revents : Nat → Nat) (own own' : SessFd) : Prop :=
  own.events ≠ 0 → own'.fd = own.fd ∧ own'.revents = revents own.slot

instance (revents : Nat → Nat) (own own' : SessFd) : Decidable (Received revents own own') := by
  unfold Received
  infer_instance

theorem Stored.mono (h : own.Stored arr) (harr : arr.Extends arr') : own.Stored arr' := by
  intro hev
  obtain ⟨hlt, heq⟩ := h hev
  exact ⟨Nat.lt_of_lt_of_le hlt harr.le, (harr.fds _ hlt).trans heq⟩

structure CopiedOut (own : SessFd) (arr : FdArray) (r : SessFd × FdArray) : Prop where
  events : r.1.events = own.events
  at_nfds : r.1.At arr.nfds
  stored : r.1.Stored r.2
  extends_arr : arr.Extends r.2
  nfds : r.2.nfds = arr.nfds + r.1.places

theorem copyOut_spec (own : SessFd) (arr : FdArray) : own.CopiedOut arr (own.copyOut arr) := by
  unfold copyOut
  split
  · next hev =>
    refine ⟨rfl, fun _ => rfl, fun _ => ⟨Nat.lt_succ_self _, Function.update_self ..⟩,
      ⟨Nat.le_succ _, ?_⟩, ?_⟩
    · intro i hi
      exact Function.update_of_ne (Nat.ne_of_lt hi) ..
    · exact congrArg (arr.nfds + ·) (if_pos hev).symm
  · next hev =>
    refine ⟨rfl, fun h => absurd h hev, fun h => absurd h hev, .refl _, ?_⟩
    rw [places, if_neg hev, Nat.add_zero]

theorem copyBack_snd (own : SessFd) (fds : Nat → PollFd) (off : Nat) :
    (own.copyBack fds off).2 = off + own.places := by
  unfold copyBack places
  split
  · rfl
  · rfl

/-- Counting from the entry's own place, it gets its own result. -/
theorem copyBack_received (hat : own.At off) (hstored : own.Stored arr) (revents : Nat → Nat) :
    Received revents own (own.copyBack (arr.poll revents).fds off).1 := by
  intro hev
  obtain ⟨hlt, heq⟩ := hstored hev
  rw [copyBack, if_pos hev, ← hat hev]
  dsimp only [FdArray.poll]
  rw [if_pos hlt, heq]
  exact ⟨rfl, rfl⟩

/-- Counting from an earlier place, it gets the result of what is there. -/
theorem copyBack_not_received (hev : own.events ≠ 0) (hat : own.At off') (hstored : own.Stored arr)
    (hlt : off < off') (hne : revents off ≠ revents off') :
    ¬Received revents own (own.copyBack (arr.poll revents).fds off).1 := by
  intro hreceived
  have hplace : off < arr.nfds := Nat.lt_trans hlt (hat hev ▸ (hstored hev).1)
  obtain ⟨-, hrev⟩ := hreceived hev
  rw [hat hev, copyBack, if_pos hev] at hrev
  dsimp only [FdArray.poll] at hrev
  rw [if_pos hplace] at hrev
  exact hne hrev

end SessFd

namespace PollSession

variable {p : PollSession} {arr : FdArray} {off : Nat}

/-- How many places the session takes. -/
def places (p : PollSession) : Nat := p.fds0.places + if 1 < p.nfds then p.fds1.places else 0

/-- The session's descriptors went to the places from `off` on. -/
structure At (p : PollSession) (off : Nat) : Prop where
  fds0 : p.fds0.At off
  fds1 : 1 < p.nfds → p.fds1.At (off + p.fds0.places)

/-- The session's descriptors are where they went. -/
structure Stored (p : PollSession) (arr : FdArray) : Prop where
  fds0 : p.fds0.Stored arr
  fds1 : 1 < p.nfds → p.fds1.Stored arr

/-- The session gets the results of its own descriptors. -/
structure Received (revents : Nat → Nat) (p q : PollSession) : Prop where
  fds0 : SessFd.Received revents p.fds0 q.fds0
  fds1 : 1 < p.nfds → SessFd.Received revents p.fds1 q.fds1

instance (revents : Nat → Nat) (p q : PollSession) : Decidable (Received revents p q) :=
  decidable_of_iff (SessFd.Received revents p.fds0 q.fds0 ∧
    (1 < p.nfds → SessFd.Received revents p.fds1 q.fds1)) ⟨fun h => ⟨h.1, h.2⟩, fun h => ⟨h.fds0, h.fds1⟩⟩

theorem Stored.mono (h : p.Stored arr) (harr : arr.Extends arr') : p.Stored arr' :=
  ⟨h.fds0.mono harr, fun hn => (h.fds1 hn).mono harr⟩

structure CopiedOut (p : PollSession) (arr : FdArray) (r : PollSession × FdArray) : Prop where
  sess : r.1.sess = p.sess
  places : r.1.places = p.places
  at_nfds : r.1.At arr.nfds
  stored : r.1.Stored r.2
  extends_arr : arr.Extends r.2
  nfds : r.2.nfds = arr.nfds + r.1.places

theorem copyFdsOut_spec (p : PollSession) (arr : FdArray) : p.CopiedOut arr (p.copyFdsOut arr) := by
  have h0 := p.fds0.copyOut_spec arr
  unfold copyFdsOut
  dsimp only
  generalize p.fds0.copyOut arr = r0 at h0
  have hplaces0 : r0.1.places = p.fds0.places := by rw [SessFd.places, SessFd.places, h0.events]
  split
  · next hn =>
    have h1 := p.fds1.copyOut_spec r0.2
    generalize p.fds1.copyOut r0.2 = r1 at h1
    have hplaces1 : r1.1.places = p.fds1.places := by rw [SessFd.places, SessFd.places, h1.events]
    refine ⟨rfl, ?_, ⟨h0.at_nfds, fun _ => ?_⟩, ⟨h0.stored.mono h1.extends_arr, fun _ => h1.stored⟩,
      h0.extends_arr.trans h1.extends_arr, ?_⟩
    · rw [places, places, if_pos hn, if_pos hn, hplaces0, hplaces1]
    · rw [← h0.nfds]
      exact h1.at_nfds
    · rw [places, if_pos hn, h1.nfds, h0.nfds, Nat.add_assoc]
  · next hn =>
    refine ⟨rfl, ?_, ⟨h0.at_nfds, fun h => absurd h hn⟩, ⟨h0.stored, fun h => absurd h hn⟩,
      h0.extends_arr, ?_⟩
    · rw [places, places, if_neg hn, hplaces0]
    · rw [places, if_neg hn]
      exact h0.nfds

theorem copyFdsBack_snd (p : PollSession) (fds : Nat → PollFd) (off : Nat) :
    (p.copyFdsBack fds off).2 = off + p.places := by
  unfold copyFdsBack places
  dsimp only
  split
  · rw [SessFd.copyBack_snd, SessFd.copyBack_snd, Nat.add_assoc]
  · exact SessFd.copyBack_snd ..

theorem copyFdsBack_received (hat : p.At off) (hstored : p.Stored arr) (revents : Nat → Nat) :
    Received revents p (p.copyFdsBack (arr.poll revents).fds off).1 := by
  have h0 := SessFd.copyBack_received hat.fds0 hstored.fds0 revents
  unfold copyFdsBack
  dsimp only
  split
  · next hn =>
    refine ⟨h0, fun _ => ?_⟩
    rw [SessFd.copyBack_snd]
    exact SessFd.copyBack_received (hat.fds1 hn) (hstored.fds1 hn) revents
  · next hn => exact ⟨h0, fun h => absurd h hn⟩

/-- The first polled entry of the session gets the result of place `off`. -/
theorem copyFdsBack_not_received (hplaces : p.places ≠ 0) (hat : p.At off') (hstored : p.Stored arr)
    (hlt : off < off') (hne : revents off ≠ revents off') :
    ¬Received revents p (p.copyFdsBack (arr.poll revents).fds off).1 := by
  by_cases h0 : p.fds0.events ≠ 0
  · refine fun hreceived => SessFd.copyBack_not_received h0 hat.fds0 hstored.fds0 hlt hne ?_
    have hfds0 : (p.copyFdsBack (arr.poll revents).fds off).1.fds0
        = (p.fds0.copyBack (arr.poll revents).fds off).1 := by
      unfold copyFdsBack
      dsimp only
      split
      · rfl
      · rfl
    exact hfds0 ▸ hreceived.fds0
  · have hzero : p.fds0.places = 0 := if_neg h0
    have hn : 1 < p.nfds := by
      by_contra hn
      rw [places, hzero, if_neg hn] at hplaces
      exact hplaces rfl
    have h1 : p.fds1.events ≠ 0 := by
      intro hev
      rw [places, hzero, if_pos hn, SessFd.places, if_neg (not_not.2 hev)] at hplaces
      exact hplaces rfl
    have hat1 := hat.fds1 hn
    rw [hzero] at hat1
    refine fun hreceived => SessFd.copyBack_not_received h1 hat1 (hstored.fds1 hn) hlt hne ?_
    have hfds1 : (p.copyFdsBack (arr.poll revents).fds off).1.fds1
        = (p.fds1.copyBack (arr.poll revents).fds off).1 := by
      unfold copyFdsBack
      dsimp only
      rw [if_pos hn, SessFd.copyBack_snd, hzero]
      rfl
    exact hfds1 ▸ hreceived.fds1 hn

theorem not_all_received {start : Nat} (base : Nat → Nat) (hplaces : p.places ≠ 0) (hat : p.At off')
    (hstored : p.Stored arr) (hstart : start ≤ off) (hlt : off < off') :
    ¬∀ revents, (∀ i < start, revents i = base i) →
      Received revents p (p.copyFdsBack (arr.poll revents).fds off).1 := by
  intro hall
  let revents i := if i < start then base i else if i = off then 1 else 0
  have hagree : ∀ i < start, revents i = base i := fun i hi => if_pos hi
  have hoff : revents off = 1 := (if_neg (by omega)).trans (if_pos rfl)
  have hoff' : revents off' = 0 := (if_neg (by omega)).trans (if_neg (by omega))
  refine copyFdsBack_not_received hplaces hat hstored hlt ?_ (hall revents hagree)
  rw [hoff, hoff']
  exact Nat.one_ne_zero

theorem received_of_places {q : PollSession} (h : p.places = 0) (revents : Nat → Nat) :
    Received revents p q := by
  unfold places SessFd.places at h
  refine ⟨fun hev => ?_, fun hn hev => ?_⟩
  · rw [if_pos hev] at h
    omega
  · rw [if_pos hn, if_pos hev] at h
    omega

end PollSession

/-! ## All sessions -/

/-- The sessions' descriptors went, one session after the other, to the places from `off` on. -/
def LaidOut : Nat → List PollSession → Prop
  | _, [] => True
  | off, p :: l =>
      if p.sess.healthy then p.At off ∧ LaidOut (off + p.places) l else LaidOut off l

/-- The session has a descriptor to poll. -/
def Session.Polls (s : Session) : Prop :=
  s.clientMyds.pollEvents ≠ 0 ∨ ∃ myds, s.polledServer = some myds ∧ myds.pollEvents ≠ 0

theorem PollSession.places_connPoll (p : PollSession) : p.prepare.connPoll.places ≠ 0 ↔ p.sess.Polls := by
  have hne : ∀ own : SessFd, own.places ≠ 0 ↔ own.events ≠ 0 := by
    intro own
    rw [SessFd.places]
    split
    · next hev => exact ⟨fun _ => hev, fun _ => Nat.one_ne_zero⟩
    · next hev => exact ⟨fun h => absurd rfl h, fun h => absurd h hev⟩
  have hsum : ∀ q : PollSession, q.places ≠ 0 ↔ q.fds0.events ≠ 0 ∨ (1 < q.nfds ∧ q.fds1.events ≠ 0) := by
    intro q
    rw [places, ← hne, ← hne]
    split
    · next hn => omega
    · next hn => omega
  rw [hsum, Session.Polls]
  cases hserver : p.sess.polledServer with
  | none =>
    have hprep : p.prepare = { p with nfds := 1 } := by
      rw [prepare, hserver]
    rw [hprep]
    simp [connPoll]
  | some myds =>
    have hprep : p.prepare = { p with
        sess := { p.sess with lastServerPollFd := myds.fd }
        fds1 := { p.fds1 with fd := myds.fd }
        nfds := 2 } := by
      rw [prepare, hserver]
    have hserver' : Session.polledServer { p.sess with lastServerPollFd := myds.fd } = some myds := hserver
    rw [hprep]
    simp [connPoll, hserver']

/-- The session as the copy out leaves it. -/
def PollSession.noted (p : PollSession) : Session := if p.sess.healthy then p.prepare.sess else p.sess

structure CopiedOutAll (l : List PollSession) (arr : FdArray) (r : List PollSession × FdArray) : Prop where
  sess : r.1.map PollSession.sess = l.map PollSession.noted
  polls : ∀ p ∈ r.1, p.sess.healthy = true → (p.places ≠ 0 ↔ p.sess.Polls)
  laidOut : LaidOut arr.nfds r.1
  stored : ∀ p ∈ r.1, p.sess.healthy = true → p.Stored r.2
  extends_arr : arr.Extends r.2

theorem PollSession.connPoll_sess (p : PollSession) : p.connPoll.sess = p.sess := by
  unfold connPoll
  dsimp only
  split
  · split
    · rfl
    · rfl
  · rfl

theorem PollSession.noted_eq (p : PollSession) :
    ∃ fd, p.noted = { p.sess with lastServerPollFd := fd } := by
  unfold noted
  split
  · unfold prepare
    split
    · next myds _ => exact ⟨myds.fd, rfl⟩
    · exact ⟨p.sess.lastServerPollFd, rfl⟩
  · exact ⟨p.sess.lastServerPollFd, rfl⟩

theorem PollSession.noted_polls (p : PollSession) : p.noted.Polls ↔ p.sess.Polls := by
  obtain ⟨fd, hfd⟩ := p.noted_eq
  rw [hfd]
  exact Iff.rfl

theorem copyOutAll_spec (l : List PollSession) (arr : FdArray) : CopiedOutAll l arr (copyOutAll l arr) := by
  induction l generalizing arr with
  | nil =>
    exact ⟨rfl, fun p hp => absurd hp not_mem_nil, trivial, fun p hp => absurd hp not_mem_nil, .refl arr⟩
  | cons p l ih =>
    unfold copyOutAll PollSession.copyOut
    dsimp only
    split
    · next hhealthy =>
      have hout := p.prepare.connPoll.copyFdsOut_spec arr
      generalize p.prepare.connPoll.copyFdsOut arr = r at hout
      obtain ⟨hsess, hpolls, hlaid, hstored, hext⟩ := ih r.2
      generalize copyOutAll l r.2 = r' at hsess hpolls hlaid hstored hext
      have hnoted : r.1.sess = p.noted := by
        rw [hout.sess, PollSession.connPoll_sess, PollSession.noted, if_pos hhealthy]
      have hrhealthy : r.1.sess.healthy = true := by
        obtain ⟨fd, hfd⟩ := p.noted_eq
        rw [hnoted, hfd]
        exact hhealthy
      refine ⟨?_, forall_mem_cons.2 ⟨fun _ => ?_, hpolls⟩, ?_,
        forall_mem_cons.2 ⟨fun _ => hout.stored.mono hext, hstored⟩, hout.extends_arr.trans hext⟩
      · rw [map_cons, map_cons, hnoted, hsess]
      · rw [hout.places, PollSession.places_connPoll, hnoted, PollSession.noted_polls]
      · rw [LaidOut, if_pos hrhealthy, ← hout.nfds]
        exact ⟨hout.at_nfds, hlaid⟩
    · next hhealthy =>
      obtain ⟨hsess, hpolls, hlaid, hstored, hext⟩ := ih arr
      generalize copyOutAll l arr = r' at hsess hpolls hlaid hstored hext
      refine ⟨?_, forall_mem_cons.2 ⟨fun h => absurd h hhealthy, hpolls⟩, ?_,
        forall_mem_cons.2 ⟨fun h => absurd h hhealthy, hstored⟩, hext⟩
      · rw [map_cons, map_cons, hsess, PollSession.noted, if_neg hhealthy]
      · rw [LaidOut, if_neg hhealthy]
        exact hlaid

/-- The session has a place in the array and is closed before the copy back. -/
def Session.Lost (closes : Session → Prop) (s : Session) : Prop := s.healthy = true ∧ closes s ∧ s.Polls

/-- The session has a place in the array and is still there for the copy back. -/
def Session.Stays (closes : Session → Prop) (s : Session) : Prop := s.healthy = true ∧ ¬closes s ∧ s.Polls

/-- Every session still there gets the results of its own descriptors. -/
def Delivered (revents : Nat → Nat) (m m' : List PollSession) : Prop :=
  List.Forall₂ (fun p q => p.sess.healthy = true → PollSession.Received revents p q) m m'

instance (revents : Nat → Nat) (m m' : List PollSession) : Decidable (Delivered revents m m') :=
  inferInstanceAs (Decidable (List.Forall₂ _ m m'))

section Delivery

variable {revents : Nat → Nat} {fds : Nat → PollFd} {q : PollSession} {m : List PollSession} {off : Nat}

theorem delivered_skip (h : ¬q.sess.healthy = true) :
    Delivered revents (q :: m) (copyBackAll fds (q :: m) off) ↔
    Delivered revents m (copyBackAll fds m off) := by
  rw [copyBackAll, PollSession.copyBack, if_neg h]
  exact List.forall₂_cons.trans ⟨And.right, fun hm => ⟨fun hh => absurd hh h, hm⟩⟩

theorem delivered_cons (h : q.sess.healthy = true) :
    Delivered revents (q :: m) (copyBackAll fds (q :: m) off) ↔
      PollSession.Received revents q (q.copyFdsBack fds off).1 ∧
        Delivered revents m (copyBackAll fds m (off + q.places)) := by
  rw [copyBackAll, PollSession.copyBack, if_pos h, ← PollSession.copyFdsBack_snd q fds off]
  exact List.forall₂_cons.trans (and_congr_left' ⟨fun hq => hq h, fun hq _ => hq⟩)

end Delivery

/-- The copy back counts from `off` where the copy out counted from `off'`: results are delivered, whatever
    they are, if the two agree or nobody is left to deliver to, and no session is lost before one that
    stays. -/
theorem delivered_iff {arr : FdArray} {start : Nat} (base : Nat → Nat)
    {m : List PollSession} {off : Nat} (hlaid : LaidOut off' l)
    (hkept : List.Forall₂ (PollSession.Kept closes) l m)
    (hpolls : ∀ p ∈ l, p.sess.healthy = true → (p.places ≠ 0 ↔ p.sess.Polls))
    (hstored : ∀ p ∈ l, p.sess.healthy = true → p.Stored arr) (hstart : start ≤ off) (hle : off ≤ off') :
    (∀ revents, (∀ i < start, revents i = base i) →
        Delivered revents m (copyBackAll (arr.poll revents).fds m off)) ↔
      (off = off' ∨ ∀ p ∈ l, ¬p.sess.Stays closes) ∧
        l.Pairwise fun p q => ¬(p.sess.Lost closes ∧ q.sess.Stays closes) := by
  induction hkept generalizing off off' with
  | nil => exact ⟨fun _ => ⟨.inr fun p hp => absurd hp not_mem_nil, .nil⟩, fun _ _ _ => .nil⟩
  | @cons p q l m hpq hkept ih =>
    obtain ⟨hppolls, hpolls⟩ := forall_mem_cons.1 hpolls
    obtain ⟨hpstored, hstored⟩ := forall_mem_cons.1 hstored
    rw [pairwise_cons, forall_mem_cons]
    rw [LaidOut] at hlaid
    split at hlaid
    · next hhealthy =>
      obtain ⟨hat, hlaid⟩ := hlaid
      have hplaces := hppolls hhealthy
      have hpstored := hpstored hhealthy
      by_cases hcloses : closes p.sess
      · -- The session is closed: the copy back does not count its places.
        have hq : ¬q.sess.healthy = true := fun h => (hpq.healthy.1 h).2 hcloses
        have hstays : ¬p.sess.Stays closes := fun h => h.2.1 hcloses
        simp only [delivered_skip hq]
        rw [ih hlaid hpolls hstored hstart (by omega)]
        by_cases hp : p.places = 0
        · have hlost : ¬p.sess.Lost closes := fun h => hplaces.2 h.2.2 hp
          rw [hp, Nat.add_zero]
          simp [hstays, hlost]
        · have hlost : p.sess.Lost closes := ⟨hhealthy, hcloses, hplaces.1 hp⟩
          have hne : off ≠ off' + p.places := by omega
          simp only [hne, hstays, hlost, false_or, true_and, not_false_eq_true]
          constructor
          · rintro ⟨hnone, hpair⟩
            exact ⟨.inr hnone, hnone, hpair⟩
          · rintro ⟨-, hnone, hpair⟩
            exact ⟨hnone, hpair⟩
      · -- The session stays: it gets the results from `off` on.
        have hq : q.sess.healthy = true := hpq.healthy.2 ⟨hhealthy, hcloses⟩
        have hlost : ¬p.sess.Lost closes := fun h => hcloses h.2.1
        have hqplaces : q.places = p.places := by
          rw [PollSession.places, PollSession.places, hpq.fds0, hpq.fds1, hpq.nfds]
        have hqat : q.At off' := by
          refine ⟨?_, ?_⟩
          · rw [hpq.fds0]
            exact hat.fds0
          · rw [hpq.fds0, hpq.fds1, hpq.nfds]
            exact hat.fds1
        have hqstored : q.Stored arr := by
          refine ⟨?_, ?_⟩
          · rw [hpq.fds0]
            exact hpstored.fds0
          · rw [hpq.fds1, hpq.nfds]
            exact hpstored.fds1
        simp only [delivered_cons hq, hqplaces, forall_and]
        rw [ih hlaid hpolls hstored (by omega) (by omega)]
        simp only [hlost, false_and, not_false_eq_true, implies_true, true_and, Nat.add_right_cancel_iff]
        by_cases heq : off = off'
        · subst heq
          simp only [true_or, true_and, and_iff_right_iff_imp]
          exact fun _ revents _ => PollSession.copyFdsBack_received hqat hqstored revents
        · by_cases hp : p.places = 0
          · have hstays : ¬p.sess.Stays closes := fun h => hplaces.2 h.2.2 hp
            simp only [heq, hstays, false_or, true_and, not_false_eq_true, and_iff_right_iff_imp]
            exact fun _ revents _ => PollSession.received_of_places (hqplaces.trans hp) revents
          · have hstays : p.sess.Stays closes := ⟨hhealthy, hcloses, hplaces.1 hp⟩
            have hastray := PollSession.not_all_received base (hqplaces ▸ hp) hqat hqstored hstart
              (Nat.lt_of_le_of_ne hle heq)
            simp only [heq, hstays, hastray, false_or, false_and, not_true_eq_false]
    · next hhealthy =>
      have hq : ¬q.sess.healthy = true := fun h => hhealthy (hpq.healthy.1 h).1
      have hstays : ¬p.sess.Stays closes := fun h => hhealthy h.1
      have hlost : ¬p.sess.Lost closes := fun h => hhealthy h.1
      simp only [delivered_skip hq]
      rw [ih hlaid hpolls hstored hstart hle]
      simp [hstays, hlost]

/-! ## The pass as a whole -/

namespace PollThread

variable {thr t : PollThread} {env : PassEnv}

theorem copyOut_copied (thr : PollThread) : ∃ arr, arr.nfds = thr.start ∧
    CopiedOutAll thr.sessions arr (thr.copyOut.sessions, thr.copyOut.arr) :=
  ⟨_, rfl, copyOutAll_spec thr.sessions _⟩

theorem start_le_nfds (thr : PollThread) : thr.start ≤ thr.copyOut.arr.nfds := by
  obtain ⟨arr, hstart, hcopied⟩ := thr.copyOut_copied
  exact hstart ▸ hcopied.extends_arr.le

theorem poll_pipe (hadmin : thr.admin = 0) (revents : Nat → Nat) :
    ((thr.copyOut.poll revents).arr.fds 2).revents = revents 2 := by
  have hstart : thr.start = 3 := if_pos hadmin
  have hlt : 2 < thr.copyOut.arr.nfds := by
    have := thr.start_le_nfds
    omega
  dsimp only [poll, FdArray.poll]
  rw [if_pos hlt]

theorem takeCommand_removes (thr : PollThread) (env : PassEnv) :
    (((thr.copyOut.poll env.revents).takeCommand env).admin = 0 ∧
      ((thr.copyOut.poll env.revents).takeCommand env).removingHosts = true ∧
      ((thr.copyOut.poll env.revents).takeCommand env).maintenanceEnds < env.ct) ↔ thr.Forces env := by
  unfold takeCommand Forces
  by_cases hadmin : thr.admin = 0
  · rw [poll_pipe hadmin]
    by_cases hcmd : env.revents 2 = pollIn ∧ env.admincmd = "REMOVE SERVER"
    · rw [if_pos ⟨hadmin, hcmd⟩, if_pos hcmd]
      exact and_congr_right' ⟨And.right, fun h => ⟨rfl, h⟩⟩
    · rw [if_neg fun h => hcmd h.2, if_neg hcmd]
      exact Iff.rfl
  · rw [if_neg fun h => hadmin h.1]
    exact ⟨fun h => absurd h.1 hadmin, fun h => absurd h.1 hadmin⟩

theorem takeCommand_eq (thr : PollThread) (env : PassEnv) : ∃ removingHosts maintenanceEnds,
    thr.takeCommand env = { thr with removingHosts, maintenanceEnds } := by
  unfold takeCommand
  split
  · exact ⟨_, _, rfl⟩
  · exact ⟨_, _, rfl⟩

theorem upToCopyBack_ok (h : thr.upToCopyBack env = .ok t) :
    t.start = thr.start ∧ t.arr = thr.copyOut.arr.poll env.revents ∧
      List.Forall₂ (PollSession.Kept (thr.Closes env)) thr.copyOut.sessions t.sessions := by
  obtain ⟨hadmin, harr, hkept⟩ := removeHosts_ok h
  simp only [takeCommand_removes] at hkept
  obtain ⟨removingHosts, maintenanceEnds, heq⟩ := (thr.copyOut.poll env.revents).takeCommand_eq env
  rw [heq] at hadmin harr hkept
  refine ⟨?_, harr, hkept⟩
  rw [start, start, hadmin]
  rfl

/-- What maintenance does depends on what `poll` reports for the pipe alone. -/
theorem upToCopyBack_congr (h : thr.upToCopyBack env = .ok t)
    (hagree : ∀ i < thr.start, revents i = env.revents i) :
    thr.upToCopyBack { env with revents } = .ok { t with arr := thr.copyOut.arr.poll revents } := by
  have htake : (thr.copyOut.poll revents).takeCommand { env with revents }
      = { (thr.copyOut.poll env.revents).takeCommand env with arr := thr.copyOut.arr.poll revents } := by
    unfold takeCommand
    by_cases hadmin : thr.admin = 0
    · have hpipe : revents 2 = env.revents 2 := hagree 2 (by rw [start, if_pos hadmin]; decide)
      rw [poll_pipe hadmin, poll_pipe hadmin, hpipe]
      by_cases hcmd : env.revents 2 = pollIn ∧ env.admincmd = "REMOVE SERVER"
      · rw [if_pos ⟨hadmin, hcmd⟩, if_pos ⟨hadmin, hcmd⟩]
        rfl
      · rw [if_neg fun hh => hcmd hh.2, if_neg fun hh => hcmd hh.2]
        rfl
    · rw [if_neg fun hh => hadmin hh.1, if_neg fun hh => hadmin hh.1]
      rfl
  rw [upToCopyBack, htake]
  exact removeHosts_arr _ h

/-- In a pass that gets to its copy-back loop, whatever `poll` reports for the sessions' descriptors reaches
    its own session exactly if no session that has something to poll and is closed by the pass stands before
    one that has something to poll and is not closed.  An entry that was freed is read as if it had been
    kept. -/
theorem poll_results_delivered_iff (hreach : thr.upToCopyBack env = .ok t) :
    (∀ revents, (∀ i < thr.start, revents i = env.revents i) →
      ∀ u, thr.upToCopyBack { env with revents } = .ok u →
        Delivered revents u.sessions u.copyBack.sessions) ↔
      thr.sessions.Pairwise fun p q =>
        ¬((p.sess.healthy = true ∧ thr.Closes env p.sess ∧ p.sess.Polls) ∧
          (q.sess.healthy = true ∧ ¬thr.Closes env q.sess ∧ q.sess.Polls)) := by
  obtain ⟨hstart, harr, hkept⟩ := upToCopyBack_ok hreach
  obtain ⟨arr, hnfds, hsess, hpolls, hlaid, hstored, hext⟩ := thr.copyOut_copied
  rw [hnfds] at hlaid
  refine Iff.trans ?_ ((delivered_iff env.revents hlaid hkept hpolls hstored (Nat.le_refl thr.start)
    (Nat.le_refl _)).trans ?_)
  · refine forall_congr' fun revents => forall_congr' fun hagree => ?_
    have hu := upToCopyBack_congr hreach hagree
    have hback : ({ t with arr := thr.copyOut.arr.poll revents } : PollThread).copyBack.sessions
        = copyBackAll (thr.copyOut.arr.poll revents).fds t.sessions thr.start := by
      rw [← hstart]
      rfl
    constructor
    · intro hall
      exact hback ▸ hall _ hu
    · intro hdelivered u hu'
      obtain rfl := Except.ok.inj (hu.symm.trans hu')
      exact hback ▸ hdelivered
  · -- The copy out notes the polled descriptor in the session, which nothing here looks at.
    have hover : ∀ p : PollSession, (p.noted.Lost (thr.Closes env) ↔ p.sess.Lost (thr.Closes env)) ∧
        (p.noted.Stays (thr.Closes env) ↔ p.sess.Stays (thr.Closes env)) := by
      intro p
      obtain ⟨fd, hfd⟩ := p.noted_eq
      rw [hfd]
      exact ⟨Iff.rfl, Iff.rfl⟩
    rw [and_iff_right (.inl rfl), ← pairwise_map (f := PollSession.sess)
      (R := fun s s' => ¬(s.Lost (thr.Closes env) ∧ s'.Stays (thr.Closes env))), hsess, pairwise_map]
    simp only [hover]
    exact Iff.rfl

/-! Two clients of one thread, whose transactions are on different servers; the first server is
`OFFLINE_SOFT`. -/

/-- Two servers in two hostgroups; entry `2 * j + m` is that of server `m` in hostgroup `j`. -/
def twoServers : Shared :=
  { Shared.init { glovarsDefault with netBufferSize := 1024, mysqlHostgroups := 2 } id
      fun _ password => password with
    servers :=
      [{ address := bytesOf "db1", port := 3306, readOnly := 0, status := .offlineSoft },
        { address := bytesOf "db2", port := 3306, readOnly := 0, status := .online }]
    mshges :=
      fun m => { msPtr := some (m % 2), connectionsCreated := 1, connectionsActive := 1, freed := false }
    nextMshge := 4 }

/-- A client whose transactions are on server `m`. -/
def clientOn (m : Nat) (clientFd serverFd : Int) : PollSession where
  sess :=
    let s := mysqlSessionNew (fun _ => 0) twoServers.glovars 0 clientFd
    let mybe := fun (j : Nat) (fd : Int) =>
      let myds := mysqlDataStreamNew (fun _ => 0) twoServers.glovars.netBufferSize fd
      { fd, mshge := some (2 * j + m), lastMysqlConnpool := none,
        serverMyds := some { myds with activeTransaction := true }, serverMycpe := some (2 * j + m) }
    { s with serverMybe := some 0, mybes := [mybe 0 serverFd, mybe 1 (serverFd + 10)] }
  fds0 := { fd := clientFd, events := 0, revents := 0, slot := 0 }
  fds1 := { fd := 0, events := 0, revents := 0, slot := 0 }
  nfds := 1

/-- A thread that is removing servers, with nothing in its array yet. -/
def removing (sessions : List PollSession) : PollThread :=
  { admin := 0, sh := twoServers, removingHosts := true, maintenanceEnds := 100, sessions,
    arr := { fds := fun i => { fd := i, events := 0, revents := 0 }, nfds := 3 } }

/-- The time is over, and `poll` reports something at place 3 only. -/
def timeOver : PassEnv :=
  { revents := fun i => if i = 3 then pollIn else 0, admincmd := "", mysqlMaintenanceTimeout := 10000,
    commandTime := 0,
    ct := 101, now := fun _ => 0 }

/-- The first session is closed, and the second gets the results of the first one's descriptors. -/
theorem poll_results_astray :
    ∃ t, (removing [clientOn 0 5 15, clientOn 1 6 16]).upToCopyBack timeOver = .ok t ∧
    ¬Delivered timeOver.revents t.sessions t.copyBack.sessions := by
  have hrun : ((removing [clientOn 0 5 15, clientOn 1 6 16]).upToCopyBack timeOver).toOption.any
      (fun t => !decide (Delivered timeOver.revents t.sessions t.copyBack.sessions)) = true := by
        decide +kernel
  cases hpass : (removing [clientOn 0 5 15, clientOn 1 6 16]).upToCopyBack timeOver with
  | error e =>
      rw [hpass] at hrun
      cases hrun
  | ok t =>
      rw [hpass] at hrun
      exact ⟨t, rfl, by simpa [Except.toOption] using hrun⟩

/-- In the other order nobody gets the wrong results. -/
theorem poll_results_delivered_last :
    ∃ t, (removing [clientOn 1 6 16, clientOn 0 5 15]).upToCopyBack timeOver = .ok t ∧
    Delivered timeOver.revents t.sessions t.copyBack.sessions := by
  have hrun : ((removing [clientOn 1 6 16, clientOn 0 5 15]).upToCopyBack timeOver).toOption.isSome =
    true := by
    decide +kernel
  have honline : ¬(clientOn 1 6 16).sess.OnOfflineSoft twoServers := by
    unfold Session.OnOfflineSoft
    decide +kernel
  cases hpass : (removing [clientOn 1 6 16, clientOn 0 5 15]).upToCopyBack timeOver with
  | error e =>
      rw [hpass] at hrun
      cases hrun
  | ok t =>
      refine ⟨t, rfl, (poll_results_delivered_iff hpass).2 ?_ timeOver.revents (fun _ _ => rfl) t hpass⟩
      exact pairwise_pair.2 fun hlost => honline hlost.1.2.1.2

end PollThread

end ProxySQL

