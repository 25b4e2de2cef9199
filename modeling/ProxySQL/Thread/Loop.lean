/-
  ProxySQL.Thread.Loop

  The loop of `mysql_thread` (`main.c`) over all its rounds.  After the pass of
  `Thread.Poll` up to its copy back, each session gets its descriptors back and is
  handled, sessions that have ended are deleted, connections are accepted, and the
  array of descriptors may grow.
-/
import Mathlib.Algebra.Order.BigOperators.Group.List
import ProxySQL.Lib.PtrArray
import ProxySQL.Thread.Poll

namespace ProxySQL

open Lib List Option

def maxFdsPerSession : Nat := 2
def minFdsPerThread : Nat := 1024

/-! ## The loops that follow the pass -/

/-- `check_fds_errors` and the handler, for a healthy session. -/
def PollSession.handle (p : PollSession) (env : Shared × HandlerEnv) : Except Fault PollSession :=
  let handler : SessM Nat := do
    checkFdsErrors env.2.net
    sessionHandler env.2
    return 0
  if p.sess.healthy then (p.run handler env.1).map (·.2.2) else .ok p

/-- The loop that copies back and handles: the sessions, `nfds`, and why the process stops, if it does.  For
    each session in turn `env` has the shared data, as the other threads have left it, and what the handler
    meets. -/
def handleAll (fds : Nat → PollFd) :
    List PollSession → Nat → (Nat → Shared × HandlerEnv) → List PollSession × Nat × Option Fault
  | [], nfds, _ => ([], nfds, none)
  | p :: l, nfds, env =>
      let back := p.copyBack fds nfds
      match back.1.handle (env 0) with
      | .error e => (back.1 :: l, back.2, some e)
      | .ok p =>
          let rest := handleAll fds l back.2 fun k => env (k + 1)
          (p :: rest.1, rest.2)

/-- The loop that deletes, from place `i` on.  The last session takes the place of a deleted one. -/
def deleteUnhealthy (i : Nat) (l : List PollSession) : List PollSession :=
  match h : l[i]? with
  | none => l
  | some p => if p.sess.healthy then deleteUnhealthy (i + 1) l else deleteUnhealthy i (removeIndexFast l i)
termination_by l.length - i
decreasing_by
  all_goals have hlt := (List.getElem?_eq_some_iff.1 h).1
  · omega
  · have := length_removeIndexFast h
    omega

/-- `accept`, which returns `c`, and what `mysql_session_new` and `send_auth_pkt` meet. -/
structure AcceptEnv where
  c : Int
  fill : Nat → Byte
  threadId : Nat
  random : List Byte

structure RoundEnv where
  /-- the shared data when the round begins -/
  sh : Shared
  pass : PassEnv
  /-- `poll` is interrupted -/
  eintr : Bool
  sessions : Nat → Shared × HandlerEnv
  tcp : AcceptEnv
  unix : AcceptEnv

/-- The thread, with the allocated size of its array. -/
structure MysqlThread extends PollThread where
  maxFds : Nat

namespace MysqlThread

/-- The thread enters its loop; `listen` are its listening descriptors and its pipe. -/
def init (admin : Nat) (listen : Nat → Int) (sh : Shared) : MysqlThread :=
  let start := if admin = 0 then 3 else 1
  { admin, sh, removingHosts := false, maintenanceEnds := 0, sessions := [], maxFds := minFdsPerThread
    arr :=
      { fds := fun i => { fd := if i < start then listen i else 0, events := 0, revents := 0 },
        nfds := 0 } }

/-- The session of a connection on the descriptor at place `i`, if there is one. -/
def accepted (thr : MysqlThread) (i : Nat) (env : AcceptEnv) : List PollSession :=
  if (thr.arr.fds i).revents = pollIn ∧ 0 < env.c then
    [{ sess := acceptSession env.fill thr.sh.glovars thr.admin env.c env.threadId env.random
       fds0 := { fd := env.c, events := pollIn ||| pollOut, revents := 0, slot := 0 }
       fds1 := { fd := 0, events := 0, revents := 0, slot := 0 }
       nfds := 1 }]
  else []

/-- The array is allocated anew if the next round might need more. -/
def grow (thr : MysqlThread) : MysqlThread :=
  if (thr.sessions.length + 10) * maxFdsPerSession > thr.maxFds then
    let fds i := if i < thr.arr.nfds then thr.arr.fds i else { fd := 0, events := 0, revents := 0 }
    { thr with maxFds := thr.maxFds + minFdsPerThread, arr := { thr.arr with fds } }
  else thr

/-- The sessions of the connections that are accepted in a round. -/
def connected (thr : MysqlThread) (env : RoundEnv) : List PollSession :=
  thr.accepted 0 env.tcp ++ if thr.admin = 0 then thr.accepted 1 env.unix else []

/-- What follows the handlers in a round. -/
def finish (thr : MysqlThread) (env : RoundEnv) : MysqlThread :=
  grow { thr with sessions := deleteUnhealthy 0 thr.sessions ++ thr.connected env }

/-- The thread after the loop that handles. -/
def handled (thr : MysqlThread) (t : PollThread) (env : RoundEnv) : MysqlThread :=
  let r := handleAll t.arr.fds t.sessions t.start env.sessions
  { thr with toPollThread := { t with sessions := r.1, arr := { t.arr with nfds := r.2.1 } } }

/-- One round of the loop. -/
def round (thr : MysqlThread) (env : RoundEnv) : Except Fault MysqlThread :=
  let thr := { thr with sh := env.sh }
  if env.eintr then .ok { thr with toPollThread := thr.copyOut }
  else do
    let t ← thr.upToCopyBack env.pass
    match (handleAll t.arr.fds t.sessions t.start env.sessions).2.2 with
    | some e => .error e
    | none => .ok ((thr.handled t env).finish env)

def Round (thr : MysqlThread) (env : RoundEnv) (thr' : MysqlThread) : Prop := thr.round env = .ok thr'

end MysqlThread

/-! ## Places of the array -/

/-- How many places of the array a session takes. -/
def PollSession.weight (p : PollSession) : Nat := if p.sess.healthy then p.places else 0

section Places

variable {l m : List PollSession} {n : Nat}

theorem PollSession.weight_le (p : PollSession) : p.weight ≤ maxFdsPerSession := by
  have hone : ∀ own : SessFd, own.places ≤ 1 := by
    intro own
    unfold SessFd.places
    split <;> omega
  have h0 := hone p.fds0
  have h1 := hone p.fds1
  unfold weight places maxFdsPerSession
  split
  · split <;> omega
  · omega

theorem PollSession.copyOut_nfds (p : PollSession) (arr : FdArray) :
    (p.copyOut arr).2.nfds = arr.nfds + (p.copyOut arr).1.weight := by
  unfold copyOut weight
  split
  · next hhealthy =>
    have hout := p.prepare.connPoll.copyFdsOut_spec arr
    have hsess : (p.prepare.connPoll.copyFdsOut arr).1.sess.healthy = true := by
      rw [hout.sess, connPoll_sess, prepare]
      split <;> exact hhealthy
    rw [if_pos hsess, hout.nfds]
  · rfl

theorem PollSession.copyBack_nfds (p : PollSession) (fds : Nat → PollFd) (n : Nat) :
    (p.copyBack fds n).2 = n + p.weight := by
  unfold copyBack weight
  split
  · exact p.copyFdsBack_snd fds n
  · rfl

theorem copyOutAll_nfds (l : List PollSession) (arr : FdArray) :
    (copyOutAll l arr).1.length = l.length ∧
      (copyOutAll l arr).2.nfds = arr.nfds + ((copyOutAll l arr).1.map PollSession.weight).sum := by
  induction l generalizing arr with
  | nil => exact ⟨rfl, rfl⟩
  | cons p l ih =>
    obtain ⟨hlen, hnfds⟩ := ih (p.copyOut arr).2
    unfold copyOutAll
    dsimp only
    rw [map_cons, sum_cons, hnfds, p.copyOut_nfds, length_cons, hlen, Nat.add_assoc]
    exact ⟨rfl, rfl⟩

/-- Maintenance takes no places. -/
theorem weights_kept {closes : Session → Prop} (h : List.Forall₂ (PollSession.Kept closes) l m) :
    (m.map PollSession.weight).sum ≤ (l.map PollSession.weight).sum := by
  refine List.Forall₂.sum_le_sum
    (List.forall₂_map_left_iff.2 (List.forall₂_map_right_iff.2 (h.flip.imp ?_)))
  intro q p hpq
  have hplaces : q.places = p.places := by
    rw [PollSession.places, PollSession.places, hpq.fds0, hpq.fds1, hpq.nfds]
  unfold PollSession.weight
  split
  · next hq => rw [if_pos (hpq.healthy.1 hq).1, hplaces]
  · exact Nat.zero_le _

/-- The loop reads as many places as the healthy sessions take, or stops before. -/
theorem handleAll_places (fds : Nat → PollFd) (l : List PollSession) (n : Nat)
    (env : Nat → Shared × HandlerEnv) :
    n ≤ (handleAll fds l n env).2.1 ∧ (handleAll fds l n env).2.1 ≤ n + (l.map PollSession.weight).sum ∧
      (handleAll fds l n env).1.length = l.length := by
  induction l generalizing n env with
  | nil => exact ⟨Nat.le_refl n, Nat.le_refl n, rfl⟩
  | cons p l ih =>
    have hback := p.copyBack_nfds fds n
    obtain ⟨hlow, hhigh, hlen⟩ := ih (p.copyBack fds n).2 fun k => env (k + 1)
    unfold handleAll
    rw [map_cons, sum_cons]
    dsimp only
    split
    · dsimp only
      exact ⟨by omega, by omega, rfl⟩
    · dsimp only
      exact ⟨by omega, by omega, congrArg (· + 1) hlen⟩

theorem deleteUnhealthy_perm (i : Nat) (l : List PollSession)
    (h : ∀ k < i, ∀ p, l[k]? = some p → p.sess.healthy = true) :
    (deleteUnhealthy i l).Perm (l.filter (·.sess.healthy)) := by
  -- the places before `i` are healthy, and a removal leaves them alone
  fun_induction deleteUnhealthy i l with
  | case1 i l hnone =>
    refine .of_eq (filter_eq_self.2 fun p hp => ?_).symm
    obtain ⟨k, hk, rfl⟩ := getElem_of_mem hp
    exact h k (Nat.lt_of_lt_of_le hk (List.getElem?_eq_none_iff.1 hnone)) _ (getElem?_eq_getElem hk)
  | case2 i l p hp hhealthy ih =>
    refine ih fun k hk q hq => ?_
    rcases Nat.lt_succ_iff_lt_or_eq.1 hk with hk | rfl
    · exact h k hk q hq
    · exact some.inj (hp.symm.trans hq) ▸ hhealthy
  | case3 i l p hp hhealthy ih =>
    have hlt := (List.getElem?_eq_some_iff.1 hp).1
    have hperm := (removeIndexFast_perm hp).filter (·.sess.healthy)
    rw [filter_cons, if_neg hhealthy] at hperm
    exact (ih fun k hk q hq => h k hk q ((getElem?_removeIndexFast_of_lt hlt hk).symm.trans hq)).trans
      hperm.symm

end Places

/-! ## What every round keeps -/

namespace MysqlThread

variable {thr thr' : MysqlThread} {listen : Nat → Int} {env : RoundEnv}

/-- The array is large enough for the next round, the listening descriptors are in their places, and no
    session in the list has ended. -/
structure Fits (listen : Nat → Int) (thr : MysqlThread) : Prop where
  size : (thr.sessions.length + 10) * maxFdsPerSession ≤ thr.maxFds
  listening : ∀ i < thr.start, (thr.arr.fds i).fd = listen i
  healthy : ∀ p ∈ thr.sessions, p.sess.healthy = true

theorem copyOut_fits (h : Fits listen thr) (sh : Shared) :
    Fits listen { thr with toPollThread := ({ thr.toPollThread with sh } : PollThread).copyOut } := by
  have hout := copyOutAll_spec thr.sessions { fds := fun i => if i < thr.start then
    { thr.arr.fds i with events := pollIn, revents := 0 } else thr.arr.fds i, nfds := thr.start }
  refine ⟨?_, fun i hi => (congrArg PollFd.fd (hout.extends_arr.fds i hi)).trans ?_, fun p hp => ?_⟩
  · show ((copyOutAll thr.sessions _).1.length + 10) * _ ≤ _
    rw [(copyOutAll_nfds thr.sessions _).1]
    exact h.size
  · have hi : i < thr.start := hi
    dsimp only
    rw [if_pos hi]
    exact h.listening i hi
  · obtain ⟨q, hq, hnoted⟩ := mem_map.1 (hout.sess ▸ mem_map_of_mem hp)
    obtain ⟨fd, hfd⟩ := q.noted_eq
    rw [← hnoted, hfd]
    exact h.healthy q hq

theorem connected_cases (thr : MysqlThread) (env : RoundEnv) :
    (thr.connected env).length ≤ 2 ∧ ∀ p ∈ thr.connected env, p.sess.healthy = true := by
  have haccepted : ∀ i env, (thr.accepted i env).length ≤ 1 ∧ ∀ p ∈ thr.accepted i env, p.sess.healthy =
    true := by
    intro i env
    unfold accepted
    split
    · exact ⟨Nat.le_refl 1, forall_mem_singleton.2 rfl⟩
    · exact ⟨Nat.zero_le 1, fun p hp => absurd hp not_mem_nil⟩
  obtain ⟨htcp, htcp'⟩ := haccepted 0 env.tcp
  obtain ⟨hunix, hunix'⟩ := haccepted 1 env.unix
  unfold connected
  rw [length_append]
  split
  · exact ⟨Nat.add_le_add htcp hunix, forall_mem_append.2 ⟨htcp', hunix'⟩⟩
  · exact ⟨Nat.le_succ_of_le htcp, forall_mem_append.2 ⟨htcp', fun p hp => absurd hp not_mem_nil⟩⟩

theorem left_perm (thr : MysqlThread) (env : RoundEnv) :
    (deleteUnhealthy 0 thr.sessions ++ thr.connected env).Perm
    (thr.sessions.filter (·.sess.healthy) ++ thr.connected env) :=
  (deleteUnhealthy_perm 0 thr.sessions fun k hk => absurd hk (Nat.not_lt_zero k)).append_right _

/-- At most two connections are accepted, and the slack of ten sessions is restored. -/
theorem finish_fits (hsize : (thr.sessions.length + 10) * maxFdsPerSession ≤ thr.maxFds)
    (hlisten : ∀ i < thr.start, (thr.arr.fds i).fd = listen i) (hnfds : thr.start ≤ thr.arr.nfds) :
    Fits listen (thr.finish env) := by
  obtain ⟨hconnected, hhealthy⟩ := thr.connected_cases env
  have hperm := thr.left_perm env
  have hlen := hperm.length_eq
  have hleft := length_filter_le (·.sess.healthy) thr.sessions
  have hhealthy : ∀ p ∈ deleteUnhealthy 0 thr.sessions ++ thr.connected env, p.sess.healthy = true :=
    fun p hp => (mem_append.1 (hperm.subset hp)).elim (fun hp => (mem_filter.1 hp).2) (hhealthy p)
  rw [length_append, length_append] at hlen
  unfold maxFdsPerSession at hsize
  unfold finish grow
  split
  · refine ⟨?_, fun i hi => ?_, hhealthy⟩
    · show (length (_ ++ _) + 10) * 2 ≤ thr.maxFds + 1024
      rw [length_append]
      omega
    · have hi : i < thr.start := hi
      dsimp only
      rw [if_pos (Nat.lt_of_lt_of_le hi hnfds)]
      exact hlisten i hi
  · next hfits => exact ⟨Nat.le_of_not_lt hfits, hlisten, hhealthy⟩

theorem Round.cases (h : thr.Round env thr') :
    (env.eintr = true ∧
      thr' = { thr with toPollThread := ({ thr.toPollThread with sh := env.sh } : PollThread).copyOut }) ∨
      ∃ t, ({ thr.toPollThread with sh := env.sh } : PollThread).upToCopyBack env.pass = .ok t ∧
        thr' = (thr.handled t env).finish env := by
  unfold Round round at h
  dsimp only at h
  split at h
  · next heintr =>
    cases h
    exact .inl ⟨heintr, rfl⟩
  · obtain ⟨t, hpass, h⟩ := except_bind_eq_ok.1 h
    split at h
    · cases h
    · cases h
      exact .inr ⟨t, hpass, rfl⟩

theorem round_fits (hround : thr.Round env thr') (h : Fits listen thr) : Fits listen thr' := by
  have hout := copyOut_fits h env.sh
  rcases hround.cases with ⟨-, rfl⟩ | ⟨t, hpass, rfl⟩
  · exact hout
  · obtain ⟨hstart, harr, hkept⟩ := PollThread.upToCopyBack_ok hpass
    obtain ⟨hlow, -, hlen⟩ := handleAll_places t.arr.fds t.sessions t.start env.sessions
    refine finish_fits ?_ (fun i hi => ?_) hlow
    · show ((handleAll _ _ _ _).1.length + 10) * _ ≤ _
      rw [hlen, ← hkept.length_eq]
      exact hout.size
    · show (t.arr.fds i).fd = listen i
      have hi := hout.listening i (hstart ▸ hi)
      rw [harr]
      dsimp only [FdArray.poll]
      split <;> exact hi

theorem run_fits {admin : Nat} {sh : Shared} {es : List RoundEnv}
    (hrun : Run Round (init admin listen sh) es thr) : Fits listen thr :=
  Run.invariant (P := Fits listen) (fun _ _ _ hround h => round_fits hround h) hrun
    ⟨(by decide : (0 + 10) * 2 ≤ 1024), fun _ hi => if_pos hi, fun _ hp => absurd hp not_mem_nil⟩

/-- In every round, no more places are written than are allocated, no more are read back than were given to
    `poll`, and the listening descriptors stay in theirs. -/
theorem pollArray_fits {admin : Nat} {sh : Shared} {es : List RoundEnv}
    (hrun : Run Round (init admin listen sh) es thr) (env : RoundEnv) : thr.copyOut.arr.nfds ≤ thr.maxFds ∧
      (∀ t, ({ thr.toPollThread with sh := env.sh } : PollThread).upToCopyBack env.pass = .ok t →
        (handleAll t.arr.fds t.sessions t.start env.sessions).2.1 ≤ thr.copyOut.arr.nfds) ∧
      ∀ i < thr.start, (thr.arr.fds i).fd = listen i := by
  have hfits := run_fits hrun
  have hnfds : thr.copyOut.arr.nfds = thr.start + (thr.copyOut.sessions.map PollSession.weight).sum :=
    (copyOutAll_nfds thr.sessions _).2
  have hlen : thr.copyOut.sessions.length = thr.sessions.length := (copyOutAll_nfds thr.sessions _).1
  refine ⟨?_, fun t hpass => ?_, hfits.listening⟩
  · have hweights : _ ≤ (_ : Nat) * 2 := sum_le_card_nsmul (thr.copyOut.sessions.map PollSession.weight) 2
      (forall_mem_map.2 fun p _ => p.weight_le)
    have hsize : (thr.sessions.length + 10) * 2 ≤ thr.maxFds := hfits.size
    have hstart : thr.start ≤ 3 := by
      unfold PollThread.start
      split <;> decide
    rw [length_map, hlen] at hweights
    omega
  · obtain ⟨hstart, -, hkept⟩ := PollThread.upToCopyBack_ok hpass
    obtain ⟨-, hhigh, -⟩ := handleAll_places t.arr.fds t.sessions t.start env.sessions
    have hweights : _ ≤ (thr.copyOut.sessions.map PollSession.weight).sum := weights_kept hkept
    rw [hnfds]
    exact Nat.le_trans hhigh (Nat.add_le_add (Nat.le_of_eq hstart) hweights)

/-- Between rounds no session of the list has ended.  An interrupted round keeps the sessions; another one
    keeps just those that its handlers leave healthy, and adds those of its connections. -/
theorem sessions_of_round {admin : Nat} {sh : Shared} {es : List RoundEnv}
    (hrun : Run Round (init admin listen sh) es thr) (hround : thr.Round env thr') :
    (∀ p ∈ thr.sessions, p.sess.healthy = true) ∧
      ((env.eintr = true ∧ thr'.sessions.map (·.sess) = thr.sessions.map (·.noted)) ∨
      ∃ t, ({ thr.toPollThread with sh := env.sh } : PollThread).upToCopyBack env.pass = .ok t ∧
        thr'.sessions.Perm ((thr.handled t env).sessions.filter (·.sess.healthy) ++
          (thr.handled t env).connected env)) := by
  refine ⟨(run_fits hrun).healthy, ?_⟩
  rcases hround.cases with ⟨heintr, rfl⟩ | ⟨t, hpass, rfl⟩
  · exact .inl ⟨heintr, (copyOutAll_spec thr.sessions _).sess⟩
  · refine .inr ⟨t, hpass, ?_⟩
    have hperm := (thr.handled t env).left_perm env
    unfold finish grow
    split <;> exact hperm

/-! Two clients connect, and then the first hangs up. -/

open PollThread (twoServers timeOver)

/-- A client connects on descriptor `c`. -/
def connects (c : Int) : RoundEnv where
  sh := twoServers
  pass := { timeOver with revents := fun i => if i = 0 then pollIn else 0 }
  eintr := false
  sessions := fun _ => (twoServers, .quiet)
  tcp := { c, fill := fun _ => 0, threadId := 1, random := replicate 20 97 }
  unix := { c := -1, fill := fun _ => 0, threadId := 1, random := [] }

/-- The first client hangs up. -/
def hangsUp : RoundEnv :=
  let gone := { HandlerEnv.quiet with net := { NetEnv.quiet with errClient := true } }
  { connects (-1) with
    pass := timeOver
    sessions := fun k => (twoServers, if k = 0 then gone else .quiet) }

theorem exists_hangsUp :
    ∃ thr thr', Run Round (init 0 (fun i => i + 3) twoServers) [connects 7, connects 8] thr ∧
      thr.Round hangsUp thr' ∧ thr.sessions.map (·.fds0.fd) = [7, 8] ∧
      thr'.sessions.map (·.fds0.fd) = [8] := by
  have hexec : ((exec (fun thr env => (thr.round env).toOption) (init 0 (fun i => i + 3) twoServers)
      [connects 7, connects 8]).bind fun thr => (thr.round hangsUp).toOption.map fun thr' =>
        (thr.sessions.map (·.fds0.fd), thr'.sessions.map (·.fds0.fd))) = some ([7, 8], [8]) := by
    decide +kernel
  have hround : ∀ thr env thr', (round thr env).toOption = some thr' → Round thr env thr' := by
    intro thr env thr' h
    unfold Round
    cases hr : thr.round env with
    | error e => simp [hr, Except.toOption] at h
    | ok t => simpa [hr, Except.toOption] using h
  obtain ⟨thr, hthr, hmap⟩ := bind_eq_some_iff.1 hexec
  obtain ⟨thr', hthr', hfds⟩ := map_eq_some_iff.1 hmap
  obtain ⟨hbefore, hafter⟩ := Prod.mk.inj hfds
  exact ⟨thr, thr', (Run.of_exec hthr).mono hround, hround _ _ _ hthr', hbefore, hafter⟩

theorem pollArray_fits_hangsUp :
    ∃ thr, Run Round (init 0 (fun i => i + 3) twoServers) [connects 7, connects 8] thr ∧
      thr.sessions.length = 2 ∧ thr.copyOut.arr.nfds ≤ thr.maxFds ∧
      (∀ t, ({ thr.toPollThread with sh := twoServers } : PollThread).upToCopyBack timeOver = .ok t →
        (handleAll t.arr.fds t.sessions t.start hangsUp.sessions).2.1 ≤ thr.copyOut.arr.nfds) ∧
      ∀ i < thr.start, (thr.arr.fds i).fd = i + 3 := by
  obtain ⟨thr, -, hrun, -, hfds, -⟩ := exists_hangsUp
  have hlen := congrArg length hfds
  rw [length_map] at hlen
  exact ⟨thr, hrun, hlen, pollArray_fits hrun hangsUp⟩

/-- Of the two sessions the one that has ended is deleted. -/
theorem sessions_of_round_hangsUp :
    ∃ thr thr' t, Run Round (init 0 (fun i => i + 3) twoServers) [connects 7, connects 8] thr ∧
      thr.Round hangsUp thr' ∧ thr.sessions.map (·.fds0.fd) = [7, 8] ∧
      thr'.sessions.map (·.fds0.fd) = [8] ∧ (∀ p ∈ thr.sessions, p.sess.healthy = true) ∧
      thr'.sessions.Perm ((thr.handled t hangsUp).sessions.filter (·.sess.healthy)
        ++ (thr.handled t hangsUp).connected hangsUp) := by
  obtain ⟨thr, thr', hrun, hround, hbefore, hafter⟩ := exists_hangsUp
  obtain ⟨hhealthy, ⟨heintr, -⟩ | ⟨t, -, hperm⟩⟩ := sessions_of_round hrun hround
  · cases heintr
  · exact ⟨thr, thr', t, hrun, hround, hbefore, hafter, hhealthy, hperm⟩

end MysqlThread

end ProxySQL
