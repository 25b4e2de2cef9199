/-
  ProxySQL.Thread.Reading

  Reading never stalls.

  The receive buffer is linear: its room comes back only when it runs empty, or
  when `buffer2array` moves half a header to its front.  `Net.Input` shows what one
  call does to a stream between two calls.  Here the calls come in any order, one
  `buffer2array` at a time, and the session does with `input.pkts` what it likes;
  nothing of the receiving side depends on that array (`bare`).  Whatever state that
  leads to, the loop of `buffer2array_2` ends, and leaves less than a header at the
  front of the buffer, so that `conn_poll` asks for more (`reading_never_stalls`).
-/
import ProxySQL.Net.Input
import ProxySQL.Thread.Poll

namespace ProxySQL

open Lib

theorem PollSession.connPoll_fds0 (p : PollSession) :
    p.prepare.connPoll.fds0.events = p.sess.clientMyds.pollEvents := by
  have hconn : ∀ q : PollSession, q.connPoll.fds0.events = q.sess.clientMyds.pollEvents := by
    intro q
    unfold connPoll
    dsimp only
    split
    · split <;> rfl
    · rfl
  rw [hconn]
  unfold prepare
  split <;> rfl

theorem PollSession.connPoll_fds1 (p : PollSession) {myds : MysqlDataStream}
    (h : p.sess.polledServer = some myds) : p.prepare.connPoll.fds1.events = myds.pollEvents := by
  have hserver : p.prepare.sess.polledServer = some myds := by
    rw [prepare, h]
    exact h
  have hnfds : p.prepare.nfds = 2 := by rw [prepare, h]
  unfold connPoll
  rw [if_pos (by rw [hnfds]; decide), hserver]

namespace MysqlDataStream

/-! ## Calls in any order -/

/-- What happens to the receiving side of a stream. -/
inductive InputCall where
  /-- `read_from_net` with the bytes that `recv` stored -/
  | readFromNet (recv : List Byte)
  | buffer2array (fill : Nat → Byte)
  /-- the session removes packets from `input.pkts` or puts some back -/
  | replacePkts (pkts : List Pkt)

def inputCall (myds : MysqlDataStream) : InputCall → Option MysqlDataStream
  | .readFromNet recv =>
      if recv.length ≤ queueAvailable myds.input.queue then some (myds.readFromNet recv).1 else none
  | .buffer2array fill => some (myds.buffer2array fill).1
  | .replacePkts pkts => some { myds with input := { myds.input with pkts } }

def InputCallStep (s : MysqlDataStream) (e : InputCall) (t : MysqlDataStream) : Prop :=
  s.inputCall e = some t

/-- `while (buffer2array(myds) && myds->fd > 0)` leads from a stream to another one. -/
inductive Buffer2arrayLoop (fill : Nat → Byte) : MysqlDataStream → MysqlDataStream → Prop
  | last {myds : MysqlDataStream} (hret : (myds.buffer2array fill).2 = 0) :
      Buffer2arrayLoop fill myds (myds.buffer2array fill).1
  | closed {myds : MysqlDataStream} (hfd : ¬0 < (myds.buffer2array fill).1.fd) :
      Buffer2arrayLoop fill myds (myds.buffer2array fill).1
  | round {myds t : MysqlDataStream} (hret : (myds.buffer2array fill).2 ≠ 0)
      (hfd : 0 < (myds.buffer2array fill).1.fd)
      (hrest : Buffer2arrayLoop fill (myds.buffer2array fill).1 t) : Buffer2arrayLoop fill myds t

/-! ## The array of packets does not matter -/

/-- The stream without the packets that were received. -/
def bare (myds : MysqlDataStream) : MysqlDataStream := { myds with input := { myds.input with pkts := [] } }

theorem bare_buffer2array (fill : Nat → Byte) (myds : MysqlDataStream) :
    (myds.bare.buffer2array fill).1.bare = (myds.buffer2array fill).1.bare ∧
      (myds.bare.buffer2array fill).2 = (myds.buffer2array fill).2 := by
  have hreading : myds.bare.reading = myds.reading := rfl
  have hqueue : myds.bare.input.queue = myds.input.queue := rfl
  have hstore : ∀ r, (myds.bare.storeReading r).bare = (myds.storeReading r).bare := by
    intro r
    unfold storeReading
    split <;> rfl
  unfold buffer2array
  rw [hreading, hqueue]
  split
  · exact ⟨rfl, rfl⟩
  · exact ⟨hstore _, rfl⟩

theorem InputWF.bare {myds : MysqlDataStream} (h : myds.InputWF) : myds.bare.InputWF :=
  ⟨h.reading, h.unfinished, nofun⟩

/-- The receiving side between two calls, whatever is in the array of packets. -/
structure Receives (netBufferSize : Nat) (myds : MysqlDataStream) : Prop where
  wf : myds.bare.InputWF
  fd_pos : 0 < myds.fd
  size : myds.input.queue.size = netBufferSize

section Calls

variable {n : Nat} {myds : MysqlDataStream}

theorem Receives.readFromNet (h : Receives n myds) {recv : List Byte}
    (hroom : recv.length ≤ queueAvailable myds.input.queue) : Receives n (myds.readFromNet recv).1 := by
  refine ⟨?_, by rw [readFromNet_fd]; exact h.fd_pos, by rw [readFromNet_size]; exact h.size⟩
  by_cases hpos : recv.length < 1
  · rw [MysqlDataStream.readFromNet, if_pos hpos]
    exact ⟨h.wf.reading, h.wf.unfinished, h.wf.frames⟩
  · have hbare : (myds.readFromNet recv).1.bare = (myds.bare.readFromNet recv).1 := by
      rw [MysqlDataStream.readFromNet, MysqlDataStream.readFromNet, if_neg hpos, if_neg hpos]
      rfl
    rw [hbare]
    exact (h.wf.readFromNet (Nat.not_lt.1 hpos) hroom).1

theorem Receives.buffer2array (h : Receives n myds) (fill : Nat → Byte) :
    Receives n (myds.buffer2array fill).1 := by
  refine ⟨?_, by rw [buffer2array_frame]; exact h.fd_pos, by rw [buffer2array_size]; exact h.size⟩
  rw [← (bare_buffer2array fill myds).1]
  exact (buffer2array_spec fill h.wf).1.bare

theorem Receives.step {t : MysqlDataStream} {e : InputCall} (hstep : InputCallStep myds e t)
    (h : Receives n myds) : Receives n t := by
  cases e with
  | readFromNet recv =>
    simp only [InputCallStep, inputCall] at hstep
    split at hstep
    case isTrue hroom =>
      cases hstep
      exact h.readFromNet hroom
    case isFalse => cases hstep
  | buffer2array fill =>
    cases hstep
    exact h.buffer2array fill
  | replacePkts pkts =>
    cases hstep
    exact ⟨h.wf, h.fd_pos, h.size⟩

theorem receives_new (fill : Nat → Byte) (n : Nat) {fd : Int} (hfd : 0 < fd) :
    Receives n (mysqlDataStreamNew fill n fd) where
  wf := ⟨⟨queueInit_wf fill n, absurd rfl, absurd rfl, absurd rfl, absurd rfl⟩, nofun, nofun⟩
  fd_pos := hfd
  size := rfl

/-- A call that takes nothing although there are bytes has a packet at work, of which it knows no length
    yet. -/
theorem InputWF.buffer2array_short (h : myds.InputWF) (fill : Nat → Byte)
    (hret : (myds.buffer2array fill).2 = 0) (hdata : queueData (myds.buffer2array fill).1.input.queue ≠ 0) :
    ∃ p, (myds.buffer2array fill).1.input.mypkt = some p ∧ p.length = 0 := by
  unfold MysqlDataStream.buffer2array at hret hdata ⊢
  by_cases h0 : queueData myds.input.queue = 0
  · rw [if_pos h0] at hdata
    exact absurd h0 hdata
  · rw [if_neg h0] at hret ⊢
    obtain ⟨hz, hlt⟩ := buffer2array_idle h h0 hret
    dsimp only
    rw [Reading.of_short fill hz hlt, storeReading, if_neg (fun hand => absurd hz hand.1.ne')]
    exact ⟨_, rfl, hz⟩

/-- A call takes its bytes off the queue.  One that takes none leaves less than a header, at the front. -/
theorem Receives.buffer2array_data (h : Receives n myds) (fill : Nat → Byte) :
    queueData (myds.buffer2array fill).1.input.queue + (myds.buffer2array fill).2 =
      queueData myds.input.queue ∧ ((myds.buffer2array fill).2 = 0 → (myds.buffer2array fill).1.Drained ∧
        (queueData (myds.buffer2array fill).1.input.queue ≠ 0 →
          ∃ p, (myds.buffer2array fill).1.input.mypkt = some p ∧ p.length = 0)) := by
  obtain ⟨hbare, hret⟩ := bare_buffer2array fill myds
  obtain ⟨-, -, hdata, -, hidle⟩ := buffer2array_spec fill h.wf
  have hshort := h.wf.buffer2array_short fill
  have hqueue : (myds.bare.buffer2array fill).1.input.queue = (myds.buffer2array fill).1.input.queue :=
    congrArg (fun s => s.input.queue) hbare
  have hmypkt : (myds.bare.buffer2array fill).1.input.mypkt = (myds.buffer2array fill).1.input.mypkt :=
    congrArg (fun s => s.input.mypkt) hbare
  have hheld : (myds.bare.buffer2array fill).1.held = (myds.buffer2array fill).1.held := by
    have heq := congrArg held hbare
    exact heq
  rw [hqueue, hret] at hdata
  rw [hret, hqueue, hmypkt] at hshort
  rw [hret] at hidle
  refine ⟨hdata, fun h0 => ⟨?_, hshort h0⟩⟩
  have hdrained := hidle h0
  rwa [Drained, hqueue, hheld] at hdrained

/-! ## The loop ends -/

theorem Receives.drain (h : Receives n myds) (fill : Nat → Byte) {k : Nat}
    (hk : queueData myds.input.queue < k) :
    Buffer2arrayLoop fill myds (myds.drain fill k) ∧ Receives n (myds.drain fill k) ∧
      (myds.drain fill k).Drained ∧ (queueData (myds.drain fill k).input.queue ≠ 0 →
        ∃ p, (myds.drain fill k).input.mypkt = some p ∧ p.length = 0) := by
  induction k generalizing myds with
  | zero => omega
  | succ k ih =>
    obtain ⟨hdata, hidle⟩ := h.buffer2array_data fill
    have hnext := h.buffer2array fill
    rw [MysqlDataStream.drain]
    by_cases hret : (myds.buffer2array fill).2 = 0
    · rw [if_neg (fun hand => hand.1 hret)]
      exact ⟨.last hret, hnext, hidle hret⟩
    · -- every round but the last takes at least one byte off the queue
      rw [if_pos ⟨hret, hnext.fd_pos⟩]
      obtain ⟨hloop, hrest⟩ := ih hnext (by omega)
      exact ⟨.round hret hnext.fd_pos hloop, hrest⟩

theorem Receives.queue_of_drained (h : Receives n myds) (hd : myds.Drained) :
    queueData myds.input.queue < sizeofMysqlHdr ∧ myds.input.queue.tail = 0 ∧
      n - (sizeofMysqlHdr - 1) ≤ queueAvailable myds.input.queue := by
  have hq : myds.input.queue.WF := h.wf.reading.queue
  have hle := hq.tail_le_head
  have hrewound := hq.rewound
  have hsize := h.size
  simp only [Drained, queueData, queueAvailable, sizeofMysqlHdr] at hd ⊢
  omega

theorem pollEvents_in (hfd : 0 < myds.fd) (hroom : queueAvailable myds.input.queue ≠ 0) :
    myds.pollEvents &&& pollIn = pollIn := by
  unfold pollEvents
  rw [if_pos ⟨hfd, hroom⟩]
  split <;> rfl

end Calls

/-! ## Main result -/

/-- In every state that calls of `read_from_net` and `buffer2array` lead to, whatever the session does with
    the packets: the loop of `buffer2array_2` ends; then the buffer holds less than a header, at its front,
    there is room for all but three bytes, and `conn_poll` asks for input on the stream, be it the client's
    or the server's; and if bytes are left, the packet at work has length 0. -/
theorem reading_never_stalls (fill : Nat → Byte) {netBufferSize : Nat} {fd : Int}
    (hsize : 4 ≤ netBufferSize) (hfd : 0 < fd) {es : List InputCall} {s : MysqlDataStream}
    (hrun : Run InputCallStep (mysqlDataStreamNew fill netBufferSize fd) es s) (fill' : Nat → Byte) :
    Buffer2arrayLoop fill' s (s.buffer2arrayLoop fill') ∧ ∀ t, t = s.buffer2arrayLoop fill' →
      queueData t.input.queue < 4 ∧ t.input.queue.tail = 0 ∧
      netBufferSize - 3 ≤ queueAvailable t.input.queue ∧
      (∀ p : PollSession, p.sess.clientMyds = t → p.prepare.connPoll.fds0.events &&& pollIn = pollIn) ∧
      (∀ p : PollSession, p.sess.polledServer = some t →
        p.prepare.connPoll.fds1.events &&& pollIn = pollIn) ∧
      (queueData t.input.queue ≠ 0 → ∃ p, t.input.mypkt = some p ∧ p.length = 0) := by
  have h : Receives netBufferSize s :=
    hrun.invariant (P := Receives netBufferSize) (fun _ _ _ => Receives.step)
    (receives_new fill netBufferSize hfd)
  obtain ⟨hloop, hreceives, hdrained, hmypkt⟩ := h.drain fill' (Nat.lt_succ_self (queueData s.input.queue))
  refine ⟨hloop, fun t ht => ?_⟩
  rw [← show t = s.drain fill' _ from ht] at hreceives hdrained hmypkt
  obtain ⟨hdata, htail, hroom⟩ := hreceives.queue_of_drained hdrained
  have hin : t.pollEvents &&& pollIn = pollIn := by
    refine pollEvents_in hreceives.fd_pos ?_
    simp only [sizeofMysqlHdr] at hroom
    omega
  refine ⟨hdata, htail, hroom, fun p hp => ?_, fun p hp => ?_, hmypkt⟩
  · rw [p.connPoll_fds0, hp]
    exact hin
  · rw [p.connPoll_fds1 hp]
    exact hin

/-- One packet and half a header arrive in a buffer of seven bytes, and the next read finds room. -/
theorem reading_never_stalls_cut_header :
    ∃ s, Run InputCallStep (mysqlDataStreamNew (fun _ => 0) 7 5)
      [.readFromNet [0x01, 0x00, 0x00, 0x00, 0x03, 0x02, 0x00]] s ∧
      Buffer2arrayLoop (fun _ => 0) s (s.buffer2arrayLoop fun _ => 0) ∧
      (s.buffer2arrayLoop fun _ => 0).input.queue.tail = 0 ∧
      4 ≤ queueAvailable (s.buffer2arrayLoop fun _ => 0).input.queue := by
  have hexec : (exec inputCall (mysqlDataStreamNew (fun _ => 0) 7 5)
      [.readFromNet [0x01, 0x00, 0x00, 0x00, 0x03, 0x02, 0x00]]).isSome = true := by decide +kernel
  obtain ⟨s, hs⟩ := Option.isSome_iff_exists.1 hexec
  have hrun : Run InputCallStep _ _ s := Run.of_exec hs
  obtain ⟨hloop, hleft⟩ :=
    reading_never_stalls (fun _ => 0) (show 4 ≤ 7 by decide) (show (0 : Int) < 5 by decide) hrun fun _ => 0
  obtain ⟨-, htail, hroom, -⟩ := hleft _ rfl
  exact ⟨s, hrun, hloop, htail, hroom⟩

end MysqlDataStream

end ProxySQL
