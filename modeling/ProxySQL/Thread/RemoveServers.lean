/-
  ProxySQL.Thread.RemoveServers

  The rounds in which the admin thread makes the mysql threads give up removed
  servers: `force_remove_servers` (`admin.c`) and the part of the loop of
  `mysql_thread` (`main.c`) that answers it.

  The admin thread pushes one command on every thread's queue, writes one byte
  to every thread's pipe, and pops as many acknowledgements as there are threads
  from the one shared queue.  A thread that finds its pipe readable reads the
  byte, pops the command and sets `removing_hosts`; in every later pass it looks
  for backends still to be given up, and acknowledges when there are none or
  when the maintenance time is over.

  Every access to a queue or a pipe is a step of its own.  Rounds, and what each
  thread took and sent in them, are recorded beside the program's state.
-/
import ProxySQL.Lib.Run
import Mathlib.Data.List.Basic
import Mathlib.Data.Fintype.Card
import Mathlib.Algebra.BigOperators.Group.List.Basic
import Mathlib.Tactic.Ring

namespace ProxySQL

open List Option Function

/-! ## The mysql thread -/

/-- A command on a thread's queue; `round` records which call of `force_remove_servers` sent it. -/
structure AdminCmd where
  text : String
  round : Nat
  deriving DecidableEq

/-- Where a mysql thread stands in its loop. -/
inductive WorkerPc where
  | polling
  | reading
  | popping
  | checking
  | acking (cnt : Int)
  deriving DecidableEq

/-- A mysql thread with its queue and its pipe; `taken` and `serving` record the rounds of the
    commands it popped and of the last of them. -/
structure Worker where
  pc : WorkerPc
  removingHosts : Bool
  queue : List AdminCmd
  pipe : Nat
  taken : List Nat
  serving : Nat

inductive WorkerEvent where
  | interrupted
  | polled (ready : Bool)
  | read
  | pop
  | check (cnt t : Nat) (timeout : Bool)
  | ack

/-- One step of a mysql thread, with the number it acknowledges, if any.
    In `check`, `cnt` and `t` are what the two passes over the sessions count. -/
def workerStep (w : Worker) : WorkerEvent → Option (Worker × Option Int)
  | .interrupted =>
      -- `poll` was interrupted: the loop starts over.
      if w.pc = .polling then some (w, none) else none
  | .polled ready =>
      if w.pc = .polling ∧ (ready → 0 < w.pipe) then
        some ({ w with pc := if ready then .reading else .checking }, none)
      else none
  | .read =>
      if w.pc = .reading ∧ 0 < w.pipe then some ({ w with pc := .popping, pipe := w.pipe - 1 }, none)
        else none
  | .pop =>
      match w.pc, w.queue with
      | .popping, cmd :: queue =>
          some ({ w with
            pc := .checking
            queue
            removingHosts := w.removingHosts || cmd.text == "REMOVE SERVER"
            taken := cmd.round :: w.taken
            serving := cmd.round }, none)
      | _, _ => none
  | .check cnt t timeout =>
      if w.pc = .checking then
        if w.removingHosts then
          if cnt = 0 then some ({ w with pc := .acking 0, removingHosts := false }, none)
          else if timeout then some ({ w with pc := .acking t, removingHosts := false }, none)
          else some ({ w with pc := .polling }, none)
        else some ({ w with pc := .polling }, none)
      else none
  | .ack =>
      match w.pc with
      | .acking cnt => some ({ w with pc := .polling }, some cnt)
      | _ => none

/-! ## The admin thread and the whole -/

/-- Where `force_remove_servers` stands: in which of its three loops, and at which `i`. -/
inductive AdminPc where
  | idle
  | pushing (i : Nat)
  | writing (i : Nat)
  | waiting (i : Nat) (warnings : Int)
  deriving DecidableEq

/-- An acknowledgement; `worker` and `round` record who sent it in which round. -/
structure Ack (n : Nat) where
  number : Int
  worker : Fin n
  round : Nat

/-- The state of `n` mysql threads and the admin thread; `sent` records all acknowledgements. -/
structure Ipc (n : Nat) where
  admin : AdminPc
  workers : Fin n → Worker
  acks : List (Ack n)
  round : Nat
  sent : List (Ack n)
  returned : Option Int

inductive IpcEvent (n : Nat) where
  | call
  | admin
  | worker (i : Fin n) (e : WorkerEvent)

namespace Ipc

variable {n : Nat}

def setWorker (s : Ipc n) (i : Fin n) (w : Worker) : Ipc n :=
  { s with workers := update s.workers i w }

/-- The next step of `force_remove_servers`. -/
def adminStep (s : Ipc n) : Option (Ipc n) :=
  match s.admin with
  | .idle => none
  | .pushing i =>
      if h : i < n then
        let w := s.workers ⟨i, h⟩
        some { s.setWorker ⟨i, h⟩ { w with queue := w.queue ++ [⟨"REMOVE SERVER", s.round⟩] } with
          admin := .pushing (i + 1) }
      else some { s with admin := .writing 0 }
  | .writing i =>
      if h : i < n then
        let w := s.workers ⟨i, h⟩
        some { s.setWorker ⟨i, h⟩ { w with pipe := w.pipe + 1 } with admin := .writing (i + 1) }
      else some { s with admin := .waiting 0 0 }
  | .waiting i warnings =>
      if i < n then
        match s.acks with
        | [] => none
        | ack :: acks => some { s with acks, admin := .waiting (i + 1) (warnings + ack.number) }
      else some { s with admin := .idle, returned := some warnings }

/-- A thread's step, with its acknowledgement pushed on the shared queue. -/
def workerAt (s : Ipc n) (i : Fin n) (e : WorkerEvent) : Option (Ipc n) :=
  (workerStep (s.workers i) e).map fun r =>
    match r.2 with
    | none => s.setWorker i r.1
    | some number =>
        let ack : Ack n := ⟨number, i, r.1.serving⟩
        { s.setWorker i r.1 with acks := s.acks ++ [ack], sent := s.sent ++ [ack] }

def step (s : Ipc n) : IpcEvent n → Option (Ipc n)
  | .call =>
      if s.admin = .idle then some { s with admin := .pushing 0, round := s.round + 1, returned := none }
      else none
  | .admin => s.adminStep
  | .worker i e => s.workerAt i e

/-- After `init_proxyipc`. -/
def init (n : Nat) : Ipc n where
  admin := .idle
  workers _ := { pc := .polling, removingHosts := false, queue := [], pipe := 0, taken := [], serving := 0 }
  acks := []
  round := 0
  sent := []
  returned := none

/-- The acknowledgements of the current round. -/
def now (s : Ipc n) : List (Ack n) := s.sent.filter (·.round = s.round)

end Ipc

/-! ## How far a thread is in a round -/

/-- A thread is not concerned, has a command, has its byte too, serves the command, or is done. -/
inductive Stage where
  | quiet
  | queued
  | signalled
  | serving
  | done
  deriving DecidableEq

/-- The thread is at the top of its loop or behind the reading of commands. -/
def WorkerPc.Loops (pc : WorkerPc) : Prop := pc = .polling ∨ pc = .checking

def Worker.At (w : Worker) (round : Nat) : Stage → Prop
  | .quiet => w.queue = [] ∧ w.pipe = 0 ∧ w.removingHosts = false ∧ w.pc.Loops ∧ ∀ r ∈ w.taken, r < round
  | .queued =>
      w.queue = [⟨"REMOVE SERVER", round⟩] ∧ w.pipe = 0 ∧ w.removingHosts = false ∧ w.pc.Loops
        ∧ ∀ r ∈ w.taken, r < round
  | .signalled =>
      w.queue = [⟨"REMOVE SERVER", round⟩] ∧ w.removingHosts = false
        ∧ (w.pipe = 1 ∧ (w.pc.Loops ∨ w.pc = .reading) ∨ w.pipe = 0 ∧ w.pc = .popping)
        ∧ ∀ r ∈ w.taken, r < round
  | .serving =>
      w.queue = [] ∧ w.pipe = 0 ∧ w.serving = round
        ∧ (w.removingHosts = true ∧ w.pc.Loops ∨ w.removingHosts = false ∧ ∃ cnt, w.pc = .acking cnt)
        ∧ w.taken.count round = 1 ∧ ∀ r ∈ w.taken, r ≤ round
  | .done =>
      w.queue = [] ∧ w.pipe = 0 ∧ w.removingHosts = false ∧ w.pc.Loops
        ∧ w.taken.count round = 1 ∧ ∀ r ∈ w.taken, r ≤ round

section WorkerSteps

variable {w w' : Worker} {round : Nat} {st : Stage} {out : Option Int}

theorem polled_stage {ready : Bool} (h : w.At round st)
    (hstep : workerStep w (.polled ready) = some (w', out)) : out = none ∧ w'.At round st := by
  obtain ⟨⟨hpc, hready⟩, heq⟩ := ite_none_right_eq_some.1 hstep
  cases heq
  refine ⟨rfl, ?_⟩
  -- A thread finds its pipe readable only between the byte and the popping of the command.
  cases st <;> cases ready <;> simp_all [Worker.At, WorkerPc.Loops]

theorem read_stage (h : w.At round st) (hstep : workerStep w .read = some (w', out)) :
    out = none ∧ w'.At round st := by
  obtain ⟨⟨hpc, hpipe⟩, heq⟩ := ite_none_right_eq_some.1 hstep
  cases heq
  refine ⟨rfl, ?_⟩
  cases st <;> simp_all [Worker.At, WorkerPc.Loops]

theorem pop_stage (h : w.At round st) (hstep : workerStep w .pop = some (w', out)) :
    out = none ∧ st = .signalled ∧ w'.At round .serving := by
  rw [workerStep] at hstep
  split at hstep
  · next cmd queue hpc hqueue =>
    cases hstep
    refine ⟨rfl, ?_⟩
    cases st with
    | signalled =>
      obtain ⟨hcmd, -, hpipe, hold⟩ := h
      obtain ⟨rfl, rfl⟩ := List.cons.inj (hqueue.symm.trans hcmd)
      have hpipe : w.pipe = 0 := by simpa [hpc, WorkerPc.Loops] using hpipe
      have hnew : w.taken.count round = 0 := count_eq_zero.2 fun hin => (hold round hin).false
      refine ⟨rfl, rfl, hpipe, rfl, .inl ⟨by simp, .inr rfl⟩, by simp [hnew], ?_⟩
      exact forall_mem_cons.2 ⟨le_rfl, fun r hr => (hold r hr).le⟩
    | quiet => simp_all [Worker.At]
    | queued => simp_all [Worker.At, WorkerPc.Loops]
    | serving => simp_all [Worker.At]
    | done => simp_all [Worker.At]
  · cases hstep

theorem check_stage {cnt t : Nat} {timeout : Bool} (h : w.At round st)
    (hstep : workerStep w (.check cnt t timeout) = some (w', out)) : out = none ∧ w'.At round st := by
  obtain ⟨hpc, hstep⟩ := ite_none_right_eq_some.1 hstep
  split at hstep
  · next hremoving =>
    split at hstep
    · cases hstep
      cases st <;> simp_all [Worker.At, WorkerPc.Loops]
    · split at hstep
      · cases hstep
        cases st <;> simp_all [Worker.At, WorkerPc.Loops]
      · cases hstep
        cases st <;> simp_all [Worker.At, WorkerPc.Loops]
  · cases hstep
    cases st <;> simp_all [Worker.At, WorkerPc.Loops]

theorem ack_stage (h : w.At round st) (hstep : workerStep w .ack = some (w', out)) :
    ∃ cnt, out = some cnt ∧ st = .serving ∧ w'.At round .done ∧ w'.serving = round := by
  rw [workerStep] at hstep
  split at hstep
  · next cnt hpc =>
    cases hstep
    refine ⟨cnt, rfl, ?_⟩
    cases st <;> simp_all [Worker.At, WorkerPc.Loops]
  · cases hstep

/-- What a thread's own step does to its stage: popping the command begins the service, and the
    acknowledgement ends it. -/
theorem workerStep_stage {e : WorkerEvent} (h : w.At round st) (hstep : workerStep w e = some (w', out)) :
    (out = none ∧ ∃ st', w'.At round st' ∧ (st' = st ∨ st = .signalled ∧ st' = .serving))
      ∨ (∃ cnt, out = some cnt ∧ st = .serving ∧ w'.At round .done ∧ w'.serving = round) := by
  cases e with
  | interrupted =>
    obtain ⟨-, heq⟩ := ite_none_right_eq_some.1 hstep
    cases heq
    exact .inl ⟨rfl, st, h, .inl rfl⟩
  | polled ready =>
    obtain ⟨hout, h'⟩ := polled_stage h hstep
    exact .inl ⟨hout, st, h', .inl rfl⟩
  | read =>
    obtain ⟨hout, h'⟩ := read_stage h hstep
    exact .inl ⟨hout, st, h', .inl rfl⟩
  | pop =>
    obtain ⟨hout, hst, h'⟩ := pop_stage h hstep
    exact .inl ⟨hout, .serving, h', .inr ⟨hst, rfl⟩⟩
  | check cnt t timeout =>
    obtain ⟨hout, h'⟩ := check_stage h hstep
    exact .inl ⟨hout, st, h', .inl rfl⟩
  | ack => exact .inr (ack_stage h hstep)

end WorkerSteps

/-! ## The invariant of a round -/

/-- A thread that has been signalled in this round. -/
def Stage.Active (st : Stage) : Prop := st = .signalled ∨ st = .serving ∨ st = .done

/-- The stages and the acknowledgements already popped, by where the admin thread stands. -/
def AdminPc.Allows {n : Nat} (stage : Fin n → Stage) (popped : List (Ack n)) : AdminPc → Prop
  | .idle => False
  | .pushing k => popped = [] ∧ ∀ i, stage i = if i.val < k then .queued else .quiet
  | .writing k => popped = [] ∧ ∀ i, if i.val < k then (stage i).Active else stage i = .queued
  | .waiting k warnings =>
      popped.length = k ∧ (popped.map Ack.number).sum = warnings ∧ ∀ i, (stage i).Active

namespace Ipc

variable {n : Nat} {s t : Ipc n} {stage : Fin n → Stage} {popped : List (Ack n)}

/-- A round under way: the threads that are done are those whose acknowledgement was sent. -/
structure Under (s : Ipc n) (stage : Fin n → Stage) (popped : List (Ack n)) : Prop where
  stages : ∀ i, (s.workers i).At s.round (stage i)
  now_eq : s.now = popped ++ s.acks
  nodup : (s.now.map Ack.worker).Nodup
  done_iff : ∀ i, i ∈ s.now.map Ack.worker ↔ stage i = .done

/-- Between two rounds, or in one. -/
def Phase (s : Ipc n) : Prop :=
  (s.admin = .idle ∧ s.acks = [] ∧ ∀ i, (s.workers i).At (s.round + 1) .quiet)
    ∨ ∃ stage popped, s.Under stage popped ∧ s.admin.Allows stage popped

structure Sound (s : Ipc n) : Prop where
  sent_le : ∀ a ∈ s.sent, a.round ≤ s.round
  phase : s.Phase

theorem sound_init (n : Nat) : (init n).Sound where
  sent_le _ ha := absurd ha not_mem_nil
  phase := .inl ⟨rfl, rfl, fun _ => ⟨rfl, rfl, rfl, .inl rfl, nofun⟩⟩

/-! ### Steps of a thread -/

theorem Allows.worker {pc : AdminPc} (h : pc.Allows stage popped) {i : Fin n} {st : Stage}
    (hst : st = stage i ∨ stage i = .signalled ∧ st = .serving ∨ stage i = .serving ∧ st = .done) :
    pc.Allows (update stage i st) popped := by
  have hactive : (stage i).Active → st.Active := by
    rintro hact
    rcases hst with rfl | ⟨-, rfl⟩ | ⟨-, rfl⟩
    · exact hact
    · exact .inr (.inl rfl)
    · exact .inr (.inr rfl)
  have hkeep : stage i = .queued ∨ stage i = .quiet → st = stage i := by
    rintro hq
    rcases hst with h' | ⟨h', -⟩ | ⟨h', -⟩
    · exact h'
    · rcases hq with hq | hq <;> exact absurd (hq.symm.trans h') (by decide)
    · rcases hq with hq | hq <;> exact absurd (hq.symm.trans h') (by decide)
  cases pc with
  | idle => exact h
  | pushing k =>
    refine ⟨h.1, fun j => ?_⟩
    have hj := h.2 j
    by_cases hji : j = i
    · subst hji
      rw [update_self, hkeep ?_, hj]
      split at hj
      · exact .inl hj
      · exact .inr hj
    · rw [update_of_ne hji, hj]
  | writing k =>
    refine ⟨h.1, fun j => ?_⟩
    have hj := h.2 j
    by_cases hji : j = i
    · subst hji
      rw [update_self]
      split at hj
      · next hlt =>
        rw [if_pos hlt]
        exact hactive hj
      · next hlt =>
        rw [if_neg hlt, hkeep (.inl hj), hj]
    · rw [update_of_ne hji]
      exact hj
  | waiting k warnings =>
    refine ⟨h.1, h.2.1, fun j => ?_⟩
    by_cases hji : j = i
    · subst hji
      rw [update_self]
      exact hactive (h.2.2 j)
    · rw [update_of_ne hji]
      exact h.2.2 j

theorem stages_update {round : Nat} {workers : Fin n → Worker} {i : Fin n} {w : Worker} {st : Stage}
    (h : ∀ j, (workers j).At round (stage j)) (hw : w.At round st) (j : Fin n) :
    (update workers i w j).At round (update stage i st j) := by
  by_cases hji : j = i
  · subst hji
    rw [update_self, update_self]
    exact hw
  · rw [update_of_ne hji, update_of_ne hji]
    exact h j

theorem Under.setWorker (h : s.Under stage popped) {i : Fin n} {w : Worker} {st : Stage}
    (hw : w.At s.round st) (hdone : st = .done ↔ stage i = .done) :
    (s.setWorker i w).Under (update stage i st) popped := by
  refine ⟨stages_update h.stages hw, h.now_eq, h.nodup, fun j => ?_⟩
  · by_cases hji : j = i
    · subst hji
      rw [update_self, hdone]
      exact h.done_iff j
    · rw [update_of_ne hji]
      exact h.done_iff j

theorem Under.admin (h : s.Under stage popped) (pc : AdminPc) : Under { s with admin := pc } stage popped :=
  ⟨h.stages, h.now_eq, h.nodup, h.done_iff⟩

theorem Under.ack (h : s.Under stage popped) {i : Fin n} {w : Worker} {cnt : Int}
    (hw : w.At s.round .done) (hserving : w.serving = s.round) (hst : stage i = .serving) :
    Under { s.setWorker i w with
        acks := s.acks ++ [⟨cnt, i, w.serving⟩], sent := s.sent ++ [⟨cnt, i, w.serving⟩] }
      (update stage i .done) popped := by
  have hnow : Ipc.now { s.setWorker i w with
      acks := s.acks ++ [⟨cnt, i, w.serving⟩], sent := s.sent ++ [⟨cnt, i, w.serving⟩] }
      = s.now ++ [⟨cnt, i, w.serving⟩] := by
    change (s.sent ++ [(⟨cnt, i, w.serving⟩ : Ack n)]).filter (fun a => decide (a.round = s.round)) = _
    rw [filter_append, filter_singleton, hserving]
    simp [Ipc.now]
  have hnew : i ∉ s.now.map Ack.worker := by
    rw [h.done_iff, hst]
    decide
  refine ⟨stages_update h.stages hw, ?_, ?_, fun j => ?_⟩
  · rw [hnow, h.now_eq, append_assoc]
  · rw [hnow, map_append]
    refine nodup_append.2 ⟨h.nodup, nodup_singleton _, fun x hx y hy heq => ?_⟩
    have hy : y = i := mem_singleton.1 hy
    exact hnew (hy ▸ heq ▸ hx)
  · rw [hnow, map_append, mem_append, h.done_iff]
    by_cases hji : j = i
    · subst hji
      simp
    · simp [hji]

theorem Sound.workerAt (h : s.Sound) {i : Fin n} {e : WorkerEvent} (hstep : s.workerAt i e = some t) :
    t.Sound := by
  obtain ⟨⟨w, out⟩, hw, heq⟩ := map_eq_some_iff.1 hstep
  rcases h.phase with ⟨hidle, hacks, hquiet⟩ | ⟨stage, popped, hunder, hallows⟩
  · rcases workerStep_stage (hquiet i) hw with ⟨rfl, st, hst, hor⟩ | ⟨cnt, -, hserving, -⟩
    · obtain rfl : st = .quiet := by
        rcases hor with hor | ⟨hor, -⟩
        · exact hor
        · cases hor
      obtain rfl : s.setWorker i w = t := heq
      refine ⟨h.sent_le, .inl ⟨hidle, hacks, ?_⟩⟩
      exact (forall_update_iff s.workers fun _ w => w.At (s.round + 1) .quiet).2
        ⟨hst, fun j _ => hquiet j⟩
    · cases hserving
  · rcases workerStep_stage (hunder.stages i) hw with ⟨rfl, st, hst, hor⟩ | ⟨cnt, rfl, hserving,
      hdone, hround⟩
    · obtain rfl : s.setWorker i w = t := heq
      refine ⟨h.sent_le, .inr ⟨_, popped, hunder.setWorker hst ?_, Allows.worker hallows ?_⟩⟩
      · rcases hor with rfl | ⟨hsig, rfl⟩
        · rfl
        · rw [hsig]
          decide
      · rcases hor with hor | hor
        · exact .inl hor
        · exact .inr (.inl hor)
    · obtain rfl : _ = t := heq
      refine ⟨fun a ha => ?_, .inr ⟨_, popped, hunder.ack hdone hround hserving,
        Allows.worker hallows (.inr (.inr ⟨hserving, rfl⟩))⟩⟩
      rcases mem_append.1 ha with ha | ha
      · exact h.sent_le a ha
      · obtain rfl := mem_singleton.1 ha
        exact hround.le

/-! ### Steps of the admin thread -/

theorem Sound.call (h : s.Sound) (hidle : s.admin = .idle) :
    Sound { s with admin := .pushing 0, round := s.round + 1, returned := none } := by
  rcases h.phase with ⟨-, hacks, hquiet⟩ | ⟨stage, popped, -, hallows⟩
  · have hnow : Ipc.now { s with admin := .pushing 0, round := s.round + 1, returned := none } = [] := by
      refine filter_eq_nil_iff.2 fun a ha => ?_
      have hle := h.sent_le a ha
      simp only [decide_eq_true_eq]
      omega
    refine ⟨fun a ha => (h.sent_le a ha).trans (Nat.le_succ _),
      .inr ⟨fun _ => .quiet, [], ?_, rfl, fun i => ?_⟩⟩
    · refine ⟨hquiet, ?_, ?_, fun i => ?_⟩
      · rw [hnow]
        exact hacks.symm
      · rw [hnow]
        exact nodup_nil
      · rw [hnow]
        simp
    · simp
  · rw [hidle] at hallows
    exact hallows.elim

theorem Under.push (h : s.Under stage popped) {k : Nat} (hk : k < n)
    (hallows : (AdminPc.pushing k).Allows stage popped) :
    Under { s.setWorker ⟨k, hk⟩ { s.workers ⟨k, hk⟩ with
        queue := (s.workers ⟨k, hk⟩).queue ++ [⟨"REMOVE SERVER", s.round⟩] } with
        admin := .pushing (k + 1) } (update stage ⟨k, hk⟩ .queued) popped
    ∧ (AdminPc.pushing (k + 1)).Allows (update stage ⟨k, hk⟩ .queued) popped := by
  have hquiet : stage ⟨k, hk⟩ = .quiet := by rw [hallows.2, if_neg (Nat.lt_irrefl k)]
  obtain ⟨hqueue, hpipe, hremoving, hloops, htaken⟩ := hquiet ▸ h.stages ⟨k, hk⟩
  have hw : Worker.At { s.workers ⟨k, hk⟩ with
      queue := (s.workers ⟨k, hk⟩).queue ++ [⟨"REMOVE SERVER", s.round⟩] } s.round .queued :=
    ⟨by rw [hqueue]; rfl, hpipe, hremoving, hloops, htaken⟩
  refine ⟨(h.setWorker hw ?_).admin _, hallows.1, fun j => ?_⟩
  · rw [hquiet]
    decide
  · by_cases hjk : j = ⟨k, hk⟩
    · subst hjk
      rw [update_self, if_pos (Nat.lt_succ_self k)]
    · rw [update_of_ne hjk, hallows.2]
      have hne : j.val ≠ k := fun heq => hjk (Fin.ext heq)
      congr 1
      simp only [eq_iff_iff]
      omega

theorem Under.write (h : s.Under stage popped) {k : Nat} (hk : k < n)
    (hallows : (AdminPc.writing k).Allows stage popped) :
    Under { s.setWorker ⟨k, hk⟩ { s.workers ⟨k, hk⟩ with pipe := (s.workers ⟨k, hk⟩).pipe + 1 } with
        admin := .writing (k + 1) } (update stage ⟨k, hk⟩ .signalled) popped
    ∧ (AdminPc.writing (k + 1)).Allows (update stage ⟨k, hk⟩ .signalled) popped := by
  have hqueued : stage ⟨k, hk⟩ = .queued := by
    have hat := hallows.2 ⟨k, hk⟩
    rwa [if_neg (Nat.lt_irrefl k)] at hat
  obtain ⟨hqueue, hpipe, hremoving, hloops, htaken⟩ := hqueued ▸ h.stages ⟨k, hk⟩
  have hw : Worker.At { s.workers ⟨k, hk⟩ with pipe := (s.workers ⟨k, hk⟩).pipe + 1 } s.round .signalled :=
    ⟨hqueue, hremoving, .inl ⟨by rw [hpipe], .inl hloops⟩, htaken⟩
  refine ⟨(h.setWorker hw ?_).admin _, hallows.1, fun j => ?_⟩
  · rw [hqueued]
    decide
  · by_cases hjk : j = ⟨k, hk⟩
    · subst hjk
      rw [update_self, if_pos (Nat.lt_succ_self k)]
      exact .inl rfl
    · rw [update_of_ne hjk]
      have hne : j.val ≠ k := fun heq => hjk (Fin.ext heq)
      have hj := hallows.2 j
      by_cases hlt : j.val < k
      · rw [if_pos hlt] at hj
        rwa [if_pos (by omega)]
      · rw [if_neg hlt] at hj
        rwa [if_neg (by omega)]

/-- As many acknowledgements have been popped as there are threads: every thread is done, and the
    shared queue is empty. -/
theorem Under.complete (h : s.Under stage popped) {k : Nat} {warnings : Int} (hk : n ≤ k)
    (hallows : (AdminPc.waiting k warnings).Allows stage popped) :
    s.acks = [] ∧ ∀ i, stage i = .done := by
  have hlen : (s.now.map Ack.worker).length = k + s.acks.length := by
    rw [length_map, h.now_eq, length_append, hallows.1]
  have hle := List.Nodup.length_le_card h.nodup
  rw [Fintype.card_fin] at hle
  have hcard : (s.now.map Ack.worker).toFinset = Finset.univ := by
    refine Finset.eq_univ_of_card _ ?_
    rw [toFinset_card_of_nodup h.nodup, Fintype.card_fin]
    omega
  refine ⟨length_eq_zero_iff.1 (by omega), fun i => (h.done_iff i).1 ?_⟩
  exact mem_toFinset.1 (hcard ▸ Finset.mem_univ i)

theorem Sound.adminStep (h : s.Sound) (hstep : s.adminStep = some t) : t.Sound := by
  rcases h.phase with ⟨hidle, -⟩ | ⟨stage, popped, hunder, hallows⟩
  · rw [Ipc.adminStep, hidle] at hstep
    cases hstep
  · rw [Ipc.adminStep] at hstep
    cases hadmin : s.admin with
    | idle =>
      rw [hadmin] at hallows
      exact hallows.elim
    | pushing k =>
      rw [hadmin] at hstep hallows
      dsimp only at hstep
      split at hstep
      · next hk =>
        cases hstep
        obtain ⟨hunder', hallows'⟩ := hunder.push hk hallows
        exact ⟨h.sent_le, .inr ⟨_, popped, hunder', hallows'⟩⟩
      · next hk =>
        cases hstep
        refine ⟨h.sent_le, .inr ⟨stage, popped, hunder.admin _, hallows.1, fun i => ?_⟩⟩
        rw [if_neg (Nat.not_lt_zero _), hallows.2, if_pos (by omega)]
    | writing k =>
      rw [hadmin] at hstep hallows
      dsimp only at hstep
      split at hstep
      · next hk =>
        cases hstep
        obtain ⟨hunder', hallows'⟩ := hunder.write hk hallows
        exact ⟨h.sent_le, .inr ⟨_, popped, hunder', hallows'⟩⟩
      · next hk =>
        cases hstep
        obtain ⟨rfl, hstages⟩ := hallows
        refine ⟨h.sent_le, .inr ⟨stage, [], hunder.admin _, rfl, rfl, fun i => ?_⟩⟩
        have hi := hstages i
        rwa [if_pos (by omega)] at hi
    | waiting k warnings =>
      rw [hadmin] at hstep hallows
      dsimp only at hstep
      split at hstep
      · split at hstep
        · cases hstep
        · next ack acks hacks =>
          cases hstep
          refine ⟨h.sent_le, .inr ⟨stage, popped ++ [ack],
            ⟨hunder.stages, ?_, hunder.nodup, hunder.done_iff⟩, ?_, ?_, hallows.2.2⟩⟩
          · have hnow := hunder.now_eq
            rw [hacks] at hnow
            rw [append_assoc]
            exact hnow
          · rw [length_append, hallows.1]
            rfl
          · rw [map_append, sum_append, hallows.2.1]
            simp
      · next hk =>
        cases hstep
        obtain ⟨hacks, hdone⟩ := hunder.complete (Nat.not_lt.1 hk) hallows
        refine ⟨h.sent_le, .inl ⟨rfl, hacks, fun i => ?_⟩⟩
        obtain ⟨hqueue, hpipe, hremoving, hloops, -, htaken⟩ := hdone i ▸ hunder.stages i
        exact ⟨hqueue, hpipe, hremoving, hloops, fun r hr => Nat.lt_succ_of_le (htaken r hr)⟩

theorem Sound.step (h : s.Sound) {e : IpcEvent n} (hstep : s.step e = some t) : t.Sound := by
  cases e with
  | call =>
    obtain ⟨hidle, heq⟩ := ite_none_right_eq_some.1 hstep
    cases heq
    exact h.call hidle
  | admin => exact h.adminStep hstep
  | worker i e => exact h.workerAt hstep

theorem adminStep_return (hstep : s.adminStep = some t) (hreturn : t.admin = .idle) :
    ∃ k warnings, s.admin = .waiting k warnings ∧ n ≤ k
      ∧ t = { s with admin := .idle, returned := some warnings } := by
  rw [Ipc.adminStep] at hstep
  cases hadmin : s.admin with
  | idle =>
    rw [hadmin] at hstep
    cases hstep
  | pushing k =>
    rw [hadmin] at hstep
    dsimp only at hstep
    split at hstep <;> obtain rfl := some.inj hstep <;> cases hreturn
  | writing k =>
    rw [hadmin] at hstep
    dsimp only at hstep
    split at hstep <;> obtain rfl := some.inj hstep <;> cases hreturn
  | waiting k warnings =>
    rw [hadmin] at hstep
    dsimp only at hstep
    split at hstep
    · split at hstep
      · cases hstep
      · cases hstep
        cases hreturn
    · next hk => exact ⟨k, warnings, rfl, Nat.not_lt.1 hk, (some.inj hstep).symm⟩

/-! ## The result -/

/-- What a returning call of `force_remove_servers` finds: every thread took one command of the
    round and acknowledged it once, nothing is left over, and the warnings are what was
    acknowledged. -/
structure Agrees (s : Ipc n) (warnings : Int) : Prop where
  taken : ∀ i, (s.workers i).taken.count s.round = 1
  acked : ∀ i, (s.now.map Ack.worker).count i = 1
  removingHosts : ∀ i, (s.workers i).removingHosts = false
  queues : ∀ i, (s.workers i).queue = []
  pipes : ∀ i, (s.workers i).pipe = 0
  acks : s.acks = []
  warnings : warnings = (s.now.map Ack.number).sum

theorem Sound.agrees (h : s.Sound) {k : Nat} {warnings : Int} (hadmin : s.admin = .waiting k warnings)
    (hk : n ≤ k) : s.Agrees warnings := by
  rcases h.phase with ⟨hidle, -⟩ | ⟨stage, popped, hunder, hallows⟩
  · rw [hadmin] at hidle
    cases hidle
  · rw [hadmin] at hallows
    obtain ⟨hacks, hdone⟩ := hunder.complete hk hallows
    have hat := fun i => hdone i ▸ hunder.stages i
    refine ⟨fun i => (hat i).2.2.2.2.1, fun i => ?_, fun i => (hat i).2.2.1, fun i => (hat i).1,
      fun i => (hat i).2.1, hacks, ?_⟩
    · exact count_eq_one_of_mem hunder.nodup ((hunder.done_iff i).2 (hdone i))
    · rw [hunder.now_eq, hacks, append_nil, hallows.2.1]

end Ipc

/-- In every run of any number of rounds, a call of `force_remove_servers` that returns has been
    answered by every thread exactly once, and returns the sum of the answers. -/
theorem removal_rounds_agree {n : Nat} {es : List (IpcEvent n)} {s t : Ipc n}
    (hrun : Lib.Run (fun s e t => Ipc.step s e = some t) (Ipc.init n) es s)
    (hstep : s.step .admin = some t) (hreturn : t.admin = .idle) :
    ∃ warnings, t.returned = some warnings ∧ t.round = s.round ∧ t.Agrees warnings := by
  have hsound : s.Sound :=
    hrun.invariant (P := Ipc.Sound) (fun s e t hstep h => h.step hstep) (Ipc.sound_init n)
  obtain ⟨k, warnings, hadmin, hk, rfl⟩ := Ipc.adminStep_return hstep hreturn
  have hagrees := hsound.agrees hadmin hk
  exact ⟨warnings, rfl, rfl, hagrees.taken, hagrees.acked, hagrees.removingHosts, hagrees.queues,
    hagrees.pipes, hagrees.acks, hagrees.warnings⟩

/-- One thread, which finds backends to give up in two passes and runs out of time in the second. -/
theorem removal_rounds_agree_timeout :
    ∃ s t : Ipc 1, Lib.Run (fun s e t => Ipc.step s e = some t) (Ipc.init 1)
        [.call, .admin, .admin, .admin, .admin, .worker 0 (.polled true), .worker 0 .read, .worker 0 .pop,
          .worker 0 (.check 3 0 false), .worker 0 (.polled false), .worker 0 (.check 3 2 true),
          .worker 0 .ack, .admin] s
      ∧ s.step .admin = some t ∧ t.admin = .idle ∧ ∃ warnings, t.returned = some warnings ∧
      t.round = s.round ∧ t.Agrees warnings := by
  have hexec : (Lib.exec Ipc.step (Ipc.init 1)
      (([.call, .admin, .admin, .admin, .admin, .worker 0 (.polled true), .worker 0 .read, .worker 0 .pop,
        .worker 0 (.check 3 0 false), .worker 0 (.polled false), .worker 0 (.check 3 2 true),
        .worker 0 .ack, .admin] : List (IpcEvent 1)) ++ ([.admin] : List (IpcEvent 1)))).map Ipc.admin =
          some .idle := by
    decide
  obtain ⟨t, ht, hidle⟩ := map_eq_some_iff.1 hexec
  obtain ⟨s, hrun, hstep⟩ := (Lib.Run.of_exec ht).exists_last
  exact ⟨s, t, hrun, hstep, hidle, removal_rounds_agree hrun hstep hidle⟩

end ProxySQL
