/-
  ProxySQL.Net.Output

  Sending: packets wait in `output.pkts`, `array2buffer` copies them piece by
  piece into the send buffer, and `write_to_net` passes the buffer to `send`.
  Whatever the order of these three, no byte is lost, repeated or moved.

  The packets appended so far are at every moment three groups: those that are
  completely in the buffer or sent, which `pkts_sent` counts, the one at work,
  and those still in the array (`OutputRun.Inv`).  A call of `array2buffer`
  moves the borders between the groups and nothing else.
-/
import ProxySQL.Lib.Run
import ProxySQL.Net.Input

namespace ProxySQL

open Lib List

variable {myds : MysqlDataStream}

namespace MysqlDataStream

/-- The part of `output.mypkt` that is not in the buffer yet. -/
def unsent (myds : MysqlDataStream) : List Byte :=
  match myds.output.mypkt with
  | none => []
  | some p => p.data.drop myds.output.partialLen

/-- The part of `output.mypkt` that is in the buffer, or was. -/
def movedPart (myds : MysqlDataStream) : List Byte :=
  match myds.output.mypkt with
  | none => []
  | some p => p.data.take myds.output.partialLen

/-- The packets on the sending side that are not completely in the buffer. -/
def pending (myds : MysqlDataStream) : List Pkt := myds.output.mypkt.toList ++ myds.output.pkts

/-- The sending side between two calls: a packet at work has at least one byte in the buffer and
    at least one byte to go. -/
structure OutputWF (myds : MysqlDataStream) : Prop where
  queue : myds.output.queue.WF
  pkts : ∀ p ∈ myds.output.pkts, p.WF
  idle : myds.output.partialLen = 0 → myds.output.mypkt = none
  atWork : myds.output.partialLen ≠ 0 →
    ∃ p, myds.output.mypkt = some p ∧ p.WF ∧ myds.output.partialLen < p.length

/-! ## One call of `array2buffer` -/

/-- Copying from the packet `p`, of which `partialLen` bytes are already in the buffer: either the
    rest of `p` fits, or as much as there is room for. -/
theorem copyOut_cases {p : Pkt} (hq : myds.output.queue.WF)
    (hroom : queueAvailable myds.output.queue ≠ 0) (hp : p.WF)
    (hlt : myds.output.partialLen < p.length) :
    ∃ bs queue, queue.WF ∧ queue.contents = myds.output.queue.contents ++ bs ∧ bs ≠ [] ∧
      queue.size = myds.output.queue.size ∧
      p.data.drop myds.output.partialLen = bs ++ p.data.drop (myds.output.partialLen + bs.length) ∧
      ((myds.output.partialLen + bs.length = p.length ∧ myds.copyOut p =
          ({ myds with
              output := { myds.output with queue := queue, mypkt := none, partialLen := 0 },
              pktsSent := myds.pktsSent + 1 }, bs.length)) ∨
        (myds.output.partialLen + bs.length < p.length ∧ myds.copyOut p =
          ({ myds with
              output := { myds.output with
                queue :=
                  queue, mypkt := some p, partialLen := myds.output.partialLen + bs.length } },
            bs.length))) := by
  obtain ⟨hlen, _⟩ := hp
  generalize hk : myds.output.partialLen = k at hlt
  -- `b` is the smaller of the room and of what is left of the packet
  generalize hb : (if queueAvailable myds.output.queue > p.length - k then p.length - k
    else queueAvailable myds.output.queue) = b
  have hle : b ≤ queueAvailable myds.output.queue ∧ b ≤ p.length - k ∧ 0 < b := by
    split at hb <;> omega
  have hbs : (slice p.data k (k + b)).length = b := by
    rw [length_slice (by omega)]
    omega
  obtain ⟨hwf, hcontents⟩ := @Queue.WF.queueW _ (slice p.data k (k + b)) hq (by omega)
  refine ⟨slice p.data k (k + b), _, hwf, hcontents, ?_, rfl, ?_, ?_⟩
  · intro h0
    rw [h0] at hbs
    simp at hbs
    omega
  · rw [hbs, slice, Nat.add_sub_cancel_left, ← drop_drop, take_append_drop]
  · rw [hbs]
    by_cases hdone : k + b = p.length
    · exact .inl ⟨hdone, by simp only [copyOut, hk, hb, if_pos hdone]⟩
    · exact .inr ⟨by omega, by simp only [copyOut, hk, hb, if_neg hdone]⟩

/-- One call moves some bytes `bs` to the buffer and the packets they complete, `moved`, out of the
    pending ones. -/
structure Emits (myds myds' : MysqlDataStream) (bs : List Byte) (moved : List Pkt) : Prop where
  contents : myds'.output.queue.contents = myds.output.queue.contents ++ bs
  pending : myds.pending = moved ++ myds'.pending
  pktsSent : myds'.pktsSent = myds.pktsSent + moved.length
  part : myds.movedPart ++ bs = (moved.map Pkt.data).flatten ++ myds'.movedPart

/-- The copy from a packet `p` that is in front of the pending ones, `k` bytes of which have been
    copied before. -/
theorem copyOut_spec {p : Pkt} (hq : myds.output.queue.WF)
    (hroom : queueAvailable myds.output.queue ≠ 0) (hp : p.WF)
    (hpkts : ∀ p ∈ myds.output.pkts, p.WF) (hlt : myds.output.partialLen < p.length) :
    ∃ bs moved, (myds.copyOut p).1.OutputWF ∧
      (myds.copyOut p).1.output.queue.contents = myds.output.queue.contents ++ bs ∧
      p :: myds.output.pkts = moved ++ (myds.copyOut p).1.pending ∧
      (myds.copyOut p).1.pktsSent = myds.pktsSent + moved.length ∧
      p.data.take myds.output.partialLen ++ bs
        = (moved.map Pkt.data).flatten ++ (myds.copyOut p).1.movedPart := by
  obtain ⟨bs, queue, hwf, hcontents, hne, hsize, hdrop, hcase⟩ := copyOut_cases hq hroom hp hlt
  have htake : p.data.take myds.output.partialLen ++ bs
      = p.data.take (myds.output.partialLen + bs.length) := by
    have hbs : bs = (p.data.drop myds.output.partialLen).take bs.length := by
      rw [hdrop, take_left]
    conv_lhs => rw [hbs]
    rw [← take_add]
  have hpos : 0 < bs.length := length_pos_iff.2 hne
  rcases hcase with ⟨hdone, heq⟩ | ⟨hmore, heq⟩
  · -- the packet is complete
    refine ⟨bs, [p], ?_, ?_, ?_, ?_, ?_⟩
    · rw [heq]
      exact ⟨hwf, hpkts, fun _ => rfl, fun h => absurd rfl h⟩
    · rw [heq]
      exact hcontents
    · simp [heq, MysqlDataStream.pending]
    · simp [heq]
    · rw [htake, hdone, ← hp.1, take_length]
      simp [heq, movedPart]
  · refine ⟨bs, [], ?_, ?_, ?_, ?_, ?_⟩
    · rw [heq]
      refine ⟨hwf, hpkts, fun h => ?_, fun _ => ⟨p, rfl, hp, hmore⟩⟩
      simp only at h
      omega
    · rw [heq]
      exact hcontents
    · simp [heq, MysqlDataStream.pending]
    · simp [heq]
    · rw [htake]
      simp [heq, movedPart]

/-- `array2buffer` finds a packet wherever it dereferences one, and moves. -/
theorem array2buffer_spec (h : myds.OutputWF) :
    ∃ r bs moved, myds.array2buffer = some r ∧ r.1.OutputWF ∧ myds.Emits r.1 bs moved := by
  have hstay : myds.Emits myds [] [] := ⟨by simp, by simp, by simp, by simp⟩
  by_cases hroom : queueAvailable myds.output.queue = 0
  · exact ⟨(myds, 0), [], [], by rw [array2buffer, if_pos hroom], h, hstay⟩
  · by_cases hk : myds.output.partialLen = 0
    · cases hp : myds.output.pkts with
      | nil => exact ⟨(myds, 0), [], [], by simp [array2buffer, hroom, hk, hp], h, hstay⟩
      | cons p pkts =>
        -- a new packet is taken off the array
        have hpw := h.pkts
        rw [hp] at hpw
        have hpwf : p.WF := hpw p mem_cons_self
        have hlt : myds.output.partialLen < p.length := by
          rw [hk]
          exact Nat.lt_of_lt_of_le (by decide) hpwf.2
        obtain ⟨bs, moved, hwf, hcontents, hpend, hsent, hpart⟩ :=
          @copyOut_spec { myds with output := { myds.output with pkts := pkts } } p
            h.queue hroom hpwf (fun q hq => hpw q (mem_cons_of_mem _ hq)) hlt
        refine ⟨_, bs, moved, ?_, hwf, ⟨hcontents, ?_, hsent, ?_⟩⟩
        · simp [array2buffer, hroom, hk, hp]
        · simpa [pending, h.idle hk, hp] using hpend
        · simpa [movedPart, h.idle hk, hk] using hpart
    · obtain ⟨p, hp, hpwf, hlt⟩ := h.atWork hk
      obtain ⟨bs, moved, hwf, hcontents, hpend, hsent, hpart⟩ :=
        copyOut_spec h.queue hroom hpwf h.pkts hlt
      refine ⟨myds.copyOut p, bs, moved, ?_, hwf, ⟨hcontents, ?_, hsent, ?_⟩⟩
      · simp [array2buffer, hroom, hk, hp]
      · simpa [pending, hp] using hpend
      · simpa [movedPart, hp] using hpart

theorem OutputWF.writeToNet {r : Nat} (h : myds.OutputWF) (hr : r ≤ queueData myds.output.queue) :
    (myds.writeToNet r).1.OutputWF ∧
      myds.output.queue.contents
        = queueRPtr myds.output.queue r ++ (myds.writeToNet r).1.output.queue.contents ∧
      (myds.writeToNet r).1.pending = myds.pending ∧
      (myds.writeToNet r).1.movedPart = myds.movedPart ∧
      (myds.writeToNet r).1.pktsSent = myds.pktsSent := by
  unfold MysqlDataStream.writeToNet
  by_cases h0 : queueData myds.output.queue = 0
  · rw [if_pos h0]
    obtain rfl : r = 0 := by omega
    exact ⟨h, by simp [queueRPtr], rfl, rfl, rfl⟩
  · rw [if_neg h0, if_neg (by omega)]
    obtain ⟨hwf, hcontents⟩ := h.queue.queueR hr
    exact ⟨⟨hwf, h.pkts, h.idle, h.atWork⟩, hcontents, rfl, rfl, rfl⟩

end MysqlDataStream

/-! ## Runs -/

/-- A stream with everything that was appended to its array and passed to `send`. -/
structure OutputRun where
  myds : MysqlDataStream
  appended : List Pkt
  sent : List Byte

inductive OutputEvent where
  | append (p : { p : Pkt // p.WF })
  | array2buffer
  /-- `write_to_net` with a `send` that accepts `r` bytes. -/
  | writeToNet (r : Nat)

def OutputRun.step (s : OutputRun) : OutputEvent → Option OutputRun
  | .append p =>
      some { s with
        myds := s.myds.addOut [p.val],
        appended := s.appended ++ [p.val] }
  | .array2buffer => s.myds.array2buffer.map fun r => { s with myds := r.1 }
  | .writeToNet r =>
      if r ≤ queueData s.myds.output.queue then
        some { s with
          myds := (s.myds.writeToNet r).1,
          sent := s.sent ++ queueRPtr s.myds.output.queue r }
      else none

def OutputStep (s : OutputRun) (e : OutputEvent) (t : OutputRun) : Prop := s.step e = some t

def OutputRun.init (fill : Nat → Byte) (netBufferSize : Nat) (fd : Int) : OutputRun :=
  { myds := mysqlDataStreamNew fill netBufferSize fd, appended := [], sent := [] }

/-- The appended packets are those moved, the one at work and those waiting. -/
structure OutputRun.Inv (s : OutputRun) : Prop where
  wf : s.myds.OutputWF
  groups : ∃ moved, s.appended = moved ++ s.myds.pending ∧ s.myds.pktsSent = moved.length ∧
    s.sent ++ s.myds.output.queue.contents = (moved.map Pkt.data).flatten ++ s.myds.movedPart

theorem OutputRun.init_inv (fill : Nat → Byte) (netBufferSize : Nat) (fd : Int) :
    (OutputRun.init fill netBufferSize fd).Inv where
  wf := ⟨queueInit_wf fill netBufferSize, by simp [init, mysqlDataStreamNew, MysqlUniDs.new],
    fun _ => rfl, fun h => absurd rfl h⟩
  groups := ⟨[], by simp [init, mysqlDataStreamNew, MysqlUniDs.new, MysqlDataStream.pending], rfl,
    by simp [init, mysqlDataStreamNew, MysqlUniDs.new, MysqlDataStream.movedPart]⟩

theorem OutputRun.step_inv {s t : OutputRun} {e : OutputEvent} (hstep : OutputStep s e t)
    (h : s.Inv) : t.Inv := by
  obtain ⟨moved, happ, hsent, hbytes⟩ := h.groups
  cases e with
  | append p =>
    cases hstep
    refine ⟨⟨h.wf.queue, ?_, h.wf.idle, h.wf.atWork⟩, moved, ?_, hsent, hbytes⟩
    · intro q hq
      rcases mem_append.1 hq with hq | hq
      · exact h.wf.pkts q hq
      · obtain rfl : q = p.val := by simpa using hq
        exact p.property
    · simp [happ, MysqlDataStream.pending, MysqlDataStream.addOut]
  | array2buffer =>
    obtain ⟨r, bs, more, heq, hwf, hmoves⟩ := MysqlDataStream.array2buffer_spec h.wf
    simp only [OutputStep, step, heq, Option.map_some] at hstep
    cases hstep
    refine ⟨hwf, moved ++ more, ?_, ?_, ?_⟩
    · rw [happ, hmoves.pending, append_assoc]
    · rw [hmoves.pktsSent, hsent, length_append]
    · rw [hmoves.contents, ← append_assoc, hbytes, append_assoc, hmoves.part]
      simp
  | writeToNet r =>
    simp only [OutputStep, step] at hstep
    split at hstep
    case isFalse => cases hstep
    case isTrue hr =>
      cases hstep
      obtain ⟨hwf, hcontents, hpend, hpart, hcount⟩ := h.wf.writeToNet hr
      refine ⟨hwf, moved, ?_, ?_, ?_⟩
      · rw [hpend]
        exact happ
      · rw [hcount]
        exact hsent
      · rw [hpart, ← hbytes, hcontents]
        simp

theorem OutputRun.Inv.bytes {s : OutputRun} (h : s.Inv) :
    s.sent ++ s.myds.output.queue.contents ++ s.myds.unsent ++
      (s.myds.output.pkts.map Pkt.data).flatten = (s.appended.map Pkt.data).flatten := by
  obtain ⟨moved, happ, -, hbytes⟩ := h.groups
  rw [hbytes, happ]
  cases hp : s.myds.output.mypkt with
  | none => simp [MysqlDataStream.movedPart, MysqlDataStream.unsent, MysqlDataStream.pending, hp]
  | some p => simp [MysqlDataStream.movedPart, MysqlDataStream.unsent, MysqlDataStream.pending, hp]

/-! ## Main result -/

/-- In every run, the bytes sent, the queue, the unsent part of the packet at work and the waiting
    packets are the appended packets in order; the buffer is never overrun; `pkts_sent` counts the
    packets that have left for the queue completely; and `array2buffer` can always be called. -/
theorem output_in_order (fill : Nat → Byte) (netBufferSize : Nat) (fd : Int)
    {es : List OutputEvent} {s : OutputRun}
    (hrun : Run OutputStep (OutputRun.init fill netBufferSize fd) es s) :
    s.sent ++ s.myds.output.queue.contents ++ s.myds.unsent ++
        (s.myds.output.pkts.map Pkt.data).flatten = (s.appended.map Pkt.data).flatten ∧
      s.myds.output.queue.head ≤ s.myds.output.queue.size ∧
      (∃ moved, s.appended = moved ++ s.myds.pending ∧ s.myds.pktsSent = moved.length ∧
        s.sent ++ s.myds.output.queue.contents
          = (moved.map Pkt.data).flatten ++ s.myds.movedPart) ∧
      s.myds.array2buffer.isSome := by
  have h : s.Inv := hrun.invariant (P := OutputRun.Inv) (fun _ _ _ => OutputRun.step_inv)
    (OutputRun.init_inv fill netBufferSize fd)
  refine ⟨h.bytes, h.wf.queue.head_le_size, h.groups, ?_⟩
  obtain ⟨r, _, _, heq, _⟩ := MysqlDataStream.array2buffer_spec h.wf
  simp [heq]

/-- A packet of five bytes through a buffer of three: two are sent, one is in the queue, two are
    still in the packet. -/
theorem output_in_order_small_buffer :
    ∃ s, Run OutputStep (OutputRun.init (fun _ => 0) 3 5)
        [.append ⟨⟨5, [1, 0, 0, 0, 3]⟩, by decide⟩, .array2buffer, .writeToNet 2] s ∧
      s.sent = [1, 0] ∧ s.myds.output.queue.head ≤ s.myds.output.queue.size ∧
      s.sent ++ s.myds.output.queue.contents ++ s.myds.unsent
        ++ (s.myds.output.pkts.map Pkt.data).flatten = [1, 0, 0, 0, 3] := by
  obtain ⟨s, hrun, hsent, happ⟩ := Run.exists_exec OutputRun.step (OutputRun.init (fun _ => 0) 3 5)
    [.append ⟨⟨5, [1, 0, 0, 0, 3]⟩, by decide⟩, .array2buffer, .writeToNet 2] (R := OutputStep)
    (P := fun s => s.sent = [1, 0] ∧ s.appended = [⟨5, [1, 0, 0, 0, 3]⟩]) (fun _ _ _ => id)
      (by decide +kernel)
  obtain ⟨hbytes, hhead, _⟩ := output_in_order (fun _ => 0) 3 5 hrun
  exact ⟨s, hrun, hsent, hhead, by rw [hbytes, happ]; rfl⟩

/-! ## From one stream to another -/

/-- One stream receives packets and another one gets them to send, in the same order: however `recv`
    and `send` cut them, what has left and what is still inside is what was received. -/
theorem passed_in_order (fill toFill : Nat → Byte) {bufferSize toBufferSize : Nat} {fd toFd : Int}
    (hsize : 1024 ≤ bufferSize) (hfd : 0 < fd) {es : List InputEvent} {s : InputRun}
    {fs : List OutputEvent} {t : OutputRun}
    (hreceived : Run InputStep (InputRun.init fill bufferSize fd) es s)
    (hsent : Run OutputStep (OutputRun.init toFill toBufferSize toFd) fs t)
    (hpassed : t.appended = s.removed) :
    t.sent ++ t.myds.output.queue.contents ++ t.myds.unsent ++
      (t.myds.output.pkts.map Pkt.data).flatten ++ s.myds.inBytes = s.received := by
  have hin : s.Inv := hreceived.invariant (P := InputRun.Inv) (fun _ _ _ => InputRun.step_inv)
    (InputRun.init_inv fill hsize hfd)
  have hout : t.Inv :=
    hsent.invariant (P := OutputRun.Inv) (fun _ _ _ => OutputRun.step_inv) (OutputRun.init_inv ..)
  rw [← hin.bytes, ← hpassed, hout.bytes]

/-- A packet that comes in two parts, of which two bytes have left. -/
theorem passed_in_order_parts : ∃ (s : InputRun) (t : OutputRun), s.received = [1, 0, 0, 0, 3] ∧
    t.sent = [1, 0] ∧
    t.sent ++ t.myds.output.queue.contents ++ t.myds.unsent ++
      (t.myds.output.pkts.map Pkt.data).flatten ++ s.myds.inBytes = s.received := by
  have hreceived : Run InputStep (InputRun.init (fun _ => 0) 1024 5)
      [.round (fun _ => 0) [1], .round (fun _ => 0) [0, 0, 0, 3], .remove] _ := Run.of_exec rfl
  have hsent : Run OutputStep (OutputRun.init (fun _ => 0) 3 6)
      [.append ⟨⟨5, [1, 0, 0, 0, 3]⟩, by decide⟩, .array2buffer, .writeToNet 2] _ := Run.of_exec rfl
  exact ⟨_, _, rfl, rfl, passed_in_order _ _ (by decide) (by decide) hreceived hsent rfl⟩

end ProxySQL
