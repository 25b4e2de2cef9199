/-
  ProxySQL.Net.Input

  Receiving: `read_from_net` followed by the loop over `buffer2array` cuts the
  stream of received bytes into packets, however the stream was split over the
  calls of `recv`.

  The three copies of `buffer2array` each keep `Reading.bytes`, the bytes of the
  packet at work followed by the queue; one call keeps `inBytes`, and a call
  that takes nothing leaves less than one packet behind (`buffer2array_spec`).
  The loop therefore ends in a state whose packets are the frames of everything
  received, by the library's `split_flatten_append`.
-/
import ProxySQL.Lib.Frame
import ProxySQL.Lib.Run
import ProxySQL.Net.DataStream

namespace ProxySQL

open Lib List Option

/-! ## Frames of the protocol -/

/-- A packet is a four-byte header, whose first three bytes are the length of the payload, and
    the payload. -/
def mysqlFraming : Framing Byte where
  hdr := sizeofMysqlHdr
  total h := leNat (h.take 3) + sizeofMysqlHdr
  hdr_pos := by decide
  hdr_le_total _ := Nat.le_add_left ..

theorem MysqlHdr.ofBytes_pktLength (bs : List Byte) :
    (MysqlHdr.ofBytes bs).pktLength.toNat = leNat (bs.take 3) := by
  have hlt := leNat_lt (bs.take 3)
  have hlen : (bs.take 3).length ≤ 3 := length_take_le ..
  have hpow : 256 ^ (bs.take 3).length ≤ 256 ^ 3 := Nat.pow_le_pow_right (by decide) hlen
  rw [MysqlHdr.ofBytes, BitVec.toNat_ofNat, Nat.mod_eq_of_lt (by omega)]

/-- Copying a header out of the queue and into the packet copies its four bytes. -/
theorem MysqlHdr.toBytes_ofBytes {bs : List Byte} (h : bs.length = 4) :
    (MysqlHdr.ofBytes bs).toBytes = bs := by
  have h3 : (bs.take 3).length = 3 := by
    rw [length_take]
    omega
  have hle := leBytes_leNat (bs.take 3)
  rw [h3] at hle
  have hlast : bs = bs.take 3 ++ [bs.getD 3 0] := by
    match bs, h with
    | [_, _, _, _], _ => rfl
  rw [MysqlHdr.toBytes, MysqlHdr.ofBytes_pktLength, hle, MysqlHdr.ofBytes]
  exact hlast.symm

/-! ## One packet at work -/

/-- The part of the packet that has arrived, followed by the queue. -/
def Reading.bytes (r : Reading) : List Byte :=
  (if r.mypkt.length = 0 then [] else r.mypkt.data.take r.partialLen) ++ r.queue.contents

/-- A packet at work has its header, and is not filled beyond its announced size. -/
structure Reading.WF (r : Reading) : Prop where
  queue : r.queue.WF
  hdr_le : r.mypkt.length ≠ 0 → sizeofMysqlHdr ≤ r.partialLen
  le_length : r.mypkt.length ≠ 0 → r.partialLen ≤ r.mypkt.length
  length_data : r.mypkt.length ≠ 0 → r.mypkt.data.length = r.mypkt.length
  total : r.mypkt.length ≠ 0 →
    r.mypkt.length = mysqlFraming.total (r.mypkt.data.take sizeofMysqlHdr)

theorem Reading.WF.zeroShortHdr {r : Reading} (h : r.WF) :
    r.zeroShortHdr.WF ∧ r.zeroShortHdr.bytes = r.bytes := by
  unfold Reading.zeroShortHdr
  split
  · have hz := h.queue.queueZero
    exact ⟨⟨hz.1, h.hdr_le, h.le_length, h.length_data, h.total⟩, by simp [Reading.bytes, hz.2]⟩
  · exact ⟨h, rfl⟩

theorem Reading.WF.readHdr {r : Reading} (fill : Nat → Byte) (h : r.WF) :
    (r.readHdr fill).1.WF ∧ (r.readHdr fill).1.bytes = r.bytes ∧
      queueData (r.readHdr fill).1.queue + (r.readHdr fill).2 = queueData r.queue := by
  unfold Reading.readHdr
  split
  case isFalse => exact ⟨h, rfl, rfl⟩
  case isTrue hc =>
    obtain ⟨h0, hdata⟩ := hc
    have hq := h.queue.queueR hdata
    have hlen := length_queueRPtr h.queue hdata
    generalize queueRPtr r.queue sizeofMysqlHdr = hb at hq hlen ⊢
    have hbytes : (MysqlHdr.ofBytes hb).toBytes = hb := MysqlHdr.toBytes_ofBytes hlen
    have h4 : hb.length = 4 := hlen
    -- the fresh packet starts with the header's bytes
    have htake : (overwrite (lAlloc fill ((MysqlHdr.ofBytes hb).pktLength.toNat + sizeofMysqlHdr)) 0
        hb).take sizeofMysqlHdr = hb := by
      simp [overwrite, ← hlen]
    refine ⟨⟨hq.1, fun _ => Nat.le_refl _, ?_, ?_, ?_⟩, ?_, ?_⟩
    · intro _
      simp [sizeofMysqlHdr]
    · intro _
      rw [length_overwrite (by simp [sizeofMysqlHdr])]
      simp
    · intro _
      simp only [hbytes, htake]
      simp [mysqlFraming, MysqlHdr.ofBytes_pktLength]
    · simp only [Reading.bytes, hbytes, htake, h0, hq.2]
      simp [sizeofMysqlHdr]
    · simp only [queueData_queueR h.queue hdata]
      omega

theorem Reading.WF.readBody {r : Reading} (h : r.WF) :
    r.readBody.1.WF ∧ r.readBody.1.bytes = r.bytes ∧
      queueData r.readBody.1.queue + r.readBody.2 = queueData r.queue := by
  unfold Reading.readBody
  split
  case isFalse => exact ⟨h, rfl, rfl⟩
  case isTrue hc =>
    have hpos : r.mypkt.length ≠ 0 := by omega
    have h1 := h.hdr_le hpos
    have h2 := h.le_length hpos
    have h3 := h.length_data hpos
    have h4 := h.total hpos
    -- `b` is the smaller of what the queue has and what the packet lacks
    generalize hb : (if queueData r.queue > r.mypkt.length - r.partialLen then
      r.mypkt.length - r.partialLen else queueData r.queue) = b
    have hle : b ≤ queueData r.queue ∧ b ≤ r.mypkt.length - r.partialLen := by
      split at hb <;> omega
    have hq := h.queue.queueR hle.1
    have hlen := length_queueRPtr h.queue hle.1
    have hroom : r.partialLen + (queueRPtr r.queue b).length ≤ r.mypkt.data.length := by omega
    have hslice := slice_overwrite (Nat.zero_le r.partialLen) hroom
    have hfront := @slice_overwrite_before _ r.mypkt.data (queueRPtr r.queue b) 0 _ _ h1 (by omega)
    simp only [slice, drop_zero, Nat.sub_zero] at hslice hfront
    refine ⟨⟨hq.1, fun _ => ?_, fun _ => ?_, fun _ => ?_, fun _ => ?_⟩, ?_, ?_⟩
    · exact Nat.le_add_right_of_le h1
    · simp only
      omega
    · simpa [length_overwrite hroom] using h3
    · simpa [hfront] using h4
    · rw [hlen] at hslice
      simp [Reading.bytes, hpos, hslice, hq.2]
    · simp only [queueData_queueR h.queue hle.1]
      omega

theorem Reading.of_short {r : Reading} (fill : Nat → Byte) (hz : r.mypkt.length = 0)
    (hlt : queueData r.queue < sizeofMysqlHdr) :
    (r.zeroShortHdr.readHdr fill).1.readBody.1 = { r with queue := queueZero r.queue } := by
  have hzero : r.zeroShortHdr = { r with queue := queueZero r.queue } := if_pos ⟨hz, hlt⟩
  have hhdr : ({ r with queue := queueZero r.queue } : Reading).readHdr fill
      = ({ r with queue := queueZero r.queue }, 0) := by
    refine if_neg ?_
    rw [queueData_queueZero]
    omega
  rw [hzero, hhdr, Reading.readBody, if_neg (by simp [hz])]

theorem Reading.zeroShortHdr_queueData (r : Reading) :
    queueData r.zeroShortHdr.queue = queueData r.queue := by
  unfold Reading.zeroShortHdr
  split <;> simp

/-! ## One call of `buffer2array` -/

namespace MysqlDataStream

/-- The part of the packet being received that is already in `input.mypkt`. -/
def held (myds : MysqlDataStream) : List Byte :=
  match myds.input.mypkt with
  | none => []
  | some p => if p.length = 0 then [] else p.data.take myds.input.partialLen

/-- All bytes on the receiving side, in the order they arrived. -/
def inBytes (myds : MysqlDataStream) : List Byte :=
  (myds.input.pkts.map Pkt.data).flatten ++ (myds.held ++ myds.input.queue.contents)

/-- The receiving side between two calls. -/
structure InputWF (myds : MysqlDataStream) : Prop where
  reading : myds.reading.WF
  unfinished : ∀ p, myds.input.mypkt = some p → p.length ≠ 0 → myds.input.partialLen < p.length
  frames : ∀ p ∈ myds.input.pkts, mysqlFraming.IsFrame p.data ∧ p.length = p.data.length

/-- Nothing is left to do: the queue is empty, or it starts with half a header. -/
def Drained (myds : MysqlDataStream) : Prop :=
  queueData myds.input.queue = 0 ∨
    queueData myds.input.queue < sizeofMysqlHdr ∧ myds.held = [] ∧ myds.input.queue.tail = 0

theorem reading_bytes (myds : MysqlDataStream) :
    myds.reading.bytes = myds.held ++ myds.input.queue.contents := by
  cases hp : myds.input.mypkt with
  | none => simp [reading, Reading.bytes, held, hp]
  | some p => simp [reading, Reading.bytes, held, hp]

variable {myds : MysqlDataStream}

theorem InputWF.incomplete (h : myds.InputWF) (hd : myds.Drained) :
    mysqlFraming.Incomplete (myds.held ++ myds.input.queue.contents) := by
  have hq : myds.input.queue.WF := h.reading.queue
  rcases hd with h0 | ⟨hlt, hheld, _⟩
  · rw [hq.contents_eq_nil h0, append_nil]
    cases hp : myds.input.mypkt with
    | none => exact .inl (by simp [held, hp, mysqlFraming, sizeofMysqlHdr])
    | some p =>
      by_cases hz : p.length = 0
      · exact .inl (by simp [held, hp, hz, mysqlFraming, sizeofMysqlHdr])
      · -- a packet at work lacks at least one byte of its announced length
        have hne : myds.reading.mypkt.length ≠ 0 := by simpa [MysqlDataStream.reading, hp] using hz
        have hlt := h.unfinished p hp hz
        have hhdr := h.reading.hdr_le hne
        have hdata := h.reading.length_data hne
        have htotal := h.reading.total hne
        simp only [MysqlDataStream.reading, hp, getD_some] at hhdr hdata htotal
        refine .inr ?_
        simp only [held, hp, if_neg hz, mysqlFraming, take_take, Nat.min_eq_left hhdr] at htotal ⊢
        rw [← htotal, length_take]
        omega
  · rw [hheld, nil_append]
    exact .inl (by rw [hq.length_contents]; exact hlt)

/-- Storing the packet at work, complete or not, moves no byte. -/
theorem storeReading_spec {r : Reading} (h : myds.InputWF) (hr : r.WF) : (myds.storeReading r).InputWF ∧
      (myds.storeReading r).inBytes = (myds.input.pkts.map Pkt.data).flatten ++ r.bytes ∧
      (myds.storeReading r).pktsRecv + myds.input.pkts.length
        = myds.pktsRecv + (myds.storeReading r).input.pkts.length := by
  unfold storeReading
  split
  case isTrue hc =>
    have hne : r.mypkt.length ≠ 0 := by omega
    have hdata := hr.length_data hne
    have hhdr := hr.hdr_le hne
    have hfull : r.mypkt.data.take r.partialLen = r.mypkt.data :=
      take_of_length_le (by omega)
    refine ⟨⟨⟨hr.queue, ?_, ?_, ?_, ?_⟩, ?_, ?_⟩, ?_, ?_⟩
    · simp [reading]
    · simp [reading]
    · simp [reading]
    · simp [reading]
    · simp
    · intro p hp
      rcases mem_append.1 hp with hp | hp
      · exact h.frames p hp
      · obtain rfl : p = r.mypkt := by simpa using hp
        exact ⟨⟨by simp only [mysqlFraming]; omega, hdata.trans (hr.total hne)⟩, hdata.symm⟩
    · simp [inBytes, held, Reading.bytes, hne, hfull]
    · simp
      omega
  case isFalse hc =>
    refine ⟨⟨⟨hr.queue, hr.hdr_le, hr.le_length, hr.length_data, hr.total⟩, ?_, h.frames⟩,
      ?_, rfl⟩
    · intro p hp hz
      obtain rfl : r.mypkt = p := by simpa using hp
      have := hr.le_length hz
      simp only
      omega
    · simp [inBytes, held, Reading.bytes]

/-- A call that takes no byte finds less than a header, and moves it to the front. -/
theorem buffer2array_idle {fill : Nat → Byte} (h : myds.InputWF) (h0 : queueData myds.input.queue ≠ 0)
    (hret : (myds.reading.zeroShortHdr.readHdr fill).2
      + (myds.reading.zeroShortHdr.readHdr fill).1.readBody.2 = 0) :
    myds.reading.mypkt.length = 0 ∧ queueData myds.input.queue < sizeofMysqlHdr := by
  have hdata : queueData myds.reading.zeroShortHdr.queue = queueData myds.input.queue :=
    myds.reading.zeroShortHdr_queueData
  have hpkt : myds.reading.zeroShortHdr.mypkt = myds.reading.mypkt ∧
      myds.reading.zeroShortHdr.partialLen = myds.input.partialLen := by
    unfold Reading.zeroShortHdr
    split <;> exact ⟨rfl, rfl⟩
  have hhdr : ¬ (myds.reading.mypkt.length = 0 ∧ sizeofMysqlHdr ≤ queueData myds.input.queue) := by
    intro hc
    rw [Reading.readHdr, hpkt.1, hdata, if_pos hc] at hret
    simp [sizeofMysqlHdr] at hret
  rw [Reading.readHdr, hpkt.1, hdata, if_neg hhdr] at hret
  by_cases hz : myds.reading.mypkt.length = 0
  · exact ⟨hz, by omega⟩
  · -- a packet at work takes at least one byte
    exfalso
    rw [Reading.readBody, hpkt.1, hpkt.2, hdata, if_pos ⟨Nat.pos_of_ne_zero hz, h0⟩] at hret
    have hlt : myds.input.partialLen < myds.reading.mypkt.length := by
      cases hp : myds.input.mypkt with
      | none => simp [reading, hp] at hz
      | some p =>
        simp only [reading, hp, getD_some] at hz ⊢
        exact h.unfinished p hp hz
    simp only at hret
    split at hret <;> omega

theorem buffer2array_spec (fill : Nat → Byte) (h : myds.InputWF) : (myds.buffer2array fill).1.InputWF ∧
      (myds.buffer2array fill).1.inBytes = myds.inBytes ∧
      queueData (myds.buffer2array fill).1.input.queue + (myds.buffer2array fill).2
        = queueData myds.input.queue ∧
      (myds.buffer2array fill).1.pktsRecv + myds.input.pkts.length
        = myds.pktsRecv + (myds.buffer2array fill).1.input.pkts.length ∧
      ((myds.buffer2array fill).2 = 0 → (myds.buffer2array fill).1.Drained) := by
  unfold buffer2array
  by_cases h0 : queueData myds.input.queue = 0
  · rw [if_pos h0]
    exact ⟨h, rfl, rfl, rfl, fun _ => .inl h0⟩
  · rw [if_neg h0]
    obtain ⟨hz, hzb⟩ := h.reading.zeroShortHdr
    obtain ⟨hh, hhb, hhn⟩ := hz.readHdr fill
    obtain ⟨hb, hbb, hbn⟩ := hh.readBody
    obtain ⟨hs, hsb, hsn⟩ := storeReading_spec h hb
    have hsq : ∀ r, (myds.storeReading r).input.queue = r.queue := by
      intro r
      unfold storeReading
      split <;> rfl
    have hzd : queueData myds.reading.zeroShortHdr.queue = queueData myds.input.queue :=
      myds.reading.zeroShortHdr_queueData
    refine ⟨hs, ?_, ?_, hsn, ?_⟩
    · simp only
      rw [hsb, hbb, hhb, hzb, reading_bytes, inBytes]
    · simp only [hsq]
      omega
    · intro hret
      obtain ⟨hz0, hlt⟩ := buffer2array_idle h h0 hret
      simp only [Reading.of_short fill hz0 hlt]
      rw [storeReading, if_neg (by simp [hz0])]
      refine .inr ⟨?_, ?_, rfl⟩
      · exact hlt
      · simp [held, hz0]

theorem buffer2array_frame (fill : Nat → Byte) (myds : MysqlDataStream) :
    (myds.buffer2array fill).1 =
      { myds with
        input := (myds.buffer2array fill).1.input, pktsRecv := (myds.buffer2array fill).1.pktsRecv } := by
  unfold buffer2array
  split
  · rfl
  · simp only [storeReading]
    split <;> rfl

theorem buffer2array_size (fill : Nat → Byte) (myds : MysqlDataStream) :
    (myds.buffer2array fill).1.input.queue.size = myds.input.queue.size := by
  have hz : ∀ r : Reading, r.zeroShortHdr.queue.size = r.queue.size := by
    intro r
    unfold Reading.zeroShortHdr
    split <;> simp
  have hh : ∀ r : Reading, (r.readHdr fill).1.queue.size = r.queue.size := by
    intro r
    unfold Reading.readHdr
    split <;> simp
  have hb : ∀ r : Reading, r.readBody.1.queue.size = r.queue.size := by
    intro r
    unfold Reading.readBody
    split <;> simp
  unfold buffer2array
  split
  · rfl
  · simp only [storeReading]
    split <;> simp [hz, hh, hb, reading]

/-! ## The loop -/

theorem drain_spec {n : Nat} (fill : Nat → Byte) (h : myds.InputWF) (hfd : 0 < myds.fd)
    (hn : queueData myds.input.queue < n) :
    (myds.drain fill n).InputWF ∧ (myds.drain fill n).Drained ∧
      (myds.drain fill n).inBytes = myds.inBytes ∧
      (myds.drain fill n).pktsRecv + myds.input.pkts.length
        = myds.pktsRecv + (myds.drain fill n).input.pkts.length ∧
      (myds.drain fill n).input.queue.size = myds.input.queue.size := by
  induction n generalizing myds with
  | zero => omega
  | succ n ih =>
    obtain ⟨hwf, hbytes, hdata, hcount, hidle⟩ := buffer2array_spec fill h
    have hsize := buffer2array_size fill myds
    have hfd' : 0 < (myds.buffer2array fill).1.fd := by
      rw [buffer2array_frame]
      exact hfd
    rw [drain]
    by_cases hret : (myds.buffer2array fill).2 = 0
    · simp only [hret, ne_eq, not_true, false_and, if_false]
      exact ⟨hwf, hidle hret, hbytes, hcount, hsize⟩
    · simp only [ne_eq, hret, not_false_iff, hfd', and_self, if_true]
      -- at least one byte left the queue
      obtain ⟨hw, hd, hb, hc, hs⟩ := ih hwf hfd' (by omega)
      exact ⟨hw, hd, hb.trans hbytes, by omega, hs.trans hsize⟩

theorem drain_frame (fill : Nat → Byte) (n : Nat) (myds : MysqlDataStream) :
    myds.drain fill n =
      { myds with
        input := (myds.drain fill n).input, pktsRecv := (myds.drain fill n).pktsRecv } := by
  induction n generalizing myds with
  | zero => rfl
  | succ n ih =>
    have hstep := buffer2array_frame fill myds
    rw [drain]
    split
    · rw [ih, hstep]
    · exact hstep

theorem InputWF.buffer2arrayLoop (fill : Nat → Byte) (h : myds.InputWF) (hfd : 0 < myds.fd) :
    (myds.buffer2arrayLoop fill).InputWF ∧ (myds.buffer2arrayLoop fill).Drained ∧
      (myds.buffer2arrayLoop fill).inBytes = myds.inBytes ∧
      (myds.buffer2arrayLoop fill).pktsRecv + myds.input.pkts.length
        = myds.pktsRecv + (myds.buffer2arrayLoop fill).input.pkts.length ∧
      (myds.buffer2arrayLoop fill).input.queue.size = myds.input.queue.size :=
  drain_spec fill h hfd (Nat.lt_succ_self _)

theorem buffer2arrayLoop_frame (fill : Nat → Byte) (myds : MysqlDataStream) :
    myds.buffer2arrayLoop fill =
      { myds with
        input := (myds.buffer2arrayLoop fill).input,
        pktsRecv := (myds.buffer2arrayLoop fill).pktsRecv } :=
  drain_frame fill _ myds

end MysqlDataStream

/-! ## Runs -/

/-- A stream with what has passed through its receiving side. -/
structure InputRun where
  myds : MysqlDataStream
  received : List Byte
  removed : List Pkt

inductive InputEvent where
  /-- `read_from_net` with the bytes of one `recv`, then the loop over `buffer2array`. -/
  | round (fill : Nat → Byte) (recv : List Byte)
  /-- The session removes the packet at the front of `input.pkts`. -/
  | remove

def InputRun.step (s : InputRun) : InputEvent → Option InputRun
  | .round fill recv =>
      if 1 ≤ recv.length ∧ recv.length ≤ queueAvailable s.myds.input.queue then
        some { s with
          myds := (s.myds.readFromNet recv).1.buffer2arrayLoop fill,
          received := s.received ++ recv }
      else none
  | .remove =>
      match s.myds.input.pkts with
      | [] => none
      | p :: pkts =>
          some { s with
            myds := { s.myds with input := { s.myds.input with pkts := pkts } },
            removed := s.removed ++ [p] }

def InputStep (s : InputRun) (e : InputEvent) (t : InputRun) : Prop := s.step e = some t

/-- A fresh stream on an open socket. -/
def InputRun.init (fill : Nat → Byte) (netBufferSize : Nat) (fd : Int) : InputRun :=
  { myds := mysqlDataStreamNew fill netBufferSize fd, received := [], removed := [] }

/-- The invariant of the receiving side between two rounds. -/
structure InputRun.Inv (s : InputRun) : Prop where
  wf : s.myds.InputWF
  drained : s.myds.Drained
  fd_pos : 0 < s.myds.fd
  size : 1024 ≤ s.myds.input.queue.size
  removed : ∀ p ∈ s.removed, mysqlFraming.IsFrame p.data ∧ p.length = p.data.length
  bytes : (s.removed.map Pkt.data).flatten ++ s.myds.inBytes = s.received
  count : s.myds.pktsRecv = s.removed.length + s.myds.input.pkts.length

theorem InputRun.init_inv (fill : Nat → Byte) {netBufferSize : Nat} {fd : Int}
    (hsize : 1024 ≤ netBufferSize) (hfd : 0 < fd) : (InputRun.init fill netBufferSize fd).Inv where
  wf := ⟨⟨queueInit_wf fill netBufferSize, absurd rfl, absurd rfl, absurd rfl, absurd rfl⟩,
    by simp [init, mysqlDataStreamNew, MysqlUniDs.new],
    by simp [init, mysqlDataStreamNew, MysqlUniDs.new]⟩
  drained := Or.inl rfl
  fd_pos := hfd
  size := hsize
  removed := by simp [init]
  bytes := by
    simp [init, mysqlDataStreamNew, MysqlUniDs.new, MysqlDataStream.inBytes, MysqlDataStream.held]
  count := rfl

theorem MysqlDataStream.InputWF.readFromNet {myds : MysqlDataStream} {recv : List Byte}
    (h : myds.InputWF) (hpos : 1 ≤ recv.length)
    (hroom : recv.length ≤ queueAvailable myds.input.queue) :
    (myds.readFromNet recv).1.InputWF ∧
      (myds.readFromNet recv).1.inBytes = myds.inBytes ++ recv := by
  have hq : myds.input.queue.WF := h.reading.queue
  obtain ⟨hwf, hcontents⟩ := hq.queueW hroom
  rw [MysqlDataStream.readFromNet, if_neg (by omega)]
  refine ⟨⟨⟨hwf, h.reading.hdr_le, h.reading.le_length, h.reading.length_data, h.reading.total⟩,
    h.unfinished, h.frames⟩, ?_⟩
  simp [inBytes, held, hcontents]

theorem InputRun.step_inv {s t : InputRun} {e : InputEvent} (hstep : InputStep s e t) (h : s.Inv) :
    t.Inv := by
  cases e with
  | round fill recv =>
    simp only [InputStep, step] at hstep
    split at hstep
    case isFalse => cases hstep
    case isTrue hc =>
      cases hstep
      obtain ⟨hwf, hbytes⟩ := h.wf.readFromNet hc.1 hc.2
      obtain ⟨hw, hd, hb, hc, hs⟩ := hwf.buffer2arrayLoop fill (by simpa using h.fd_pos)
      refine ⟨hw, hd, ?_, ?_, h.removed, ?_, ?_⟩
      · rw [MysqlDataStream.buffer2arrayLoop_frame]
        simpa using h.fd_pos
      · simpa [hs] using h.size
      · rw [hb, hbytes, ← append_assoc, h.bytes]
      · have := h.count
        simp only [readFromNet_pktsRecv, readFromNet_pkts] at hc
        simp only
        omega
  | remove =>
    simp only [InputStep, step] at hstep
    split at hstep
    case h_1 => cases hstep
    case h_2 p pkts hp =>
      cases hstep
      have hframes := h.wf.frames
      rw [hp] at hframes
      refine ⟨⟨h.wf.reading, h.wf.unfinished, ?_⟩, h.drained, h.fd_pos, h.size, ?_, ?_, ?_⟩
      · exact fun q hq => hframes q (mem_cons_of_mem _ hq)
      · intro q hq
        rcases mem_append.1 hq with hq | hq
        · exact h.removed q hq
        · obtain rfl : q = p := by simpa using hq
          exact hframes q mem_cons_self
      · rw [← h.bytes]
        simp [MysqlDataStream.inBytes, MysqlDataStream.held, hp]
      · have := h.count
        simp only [hp, length_cons] at this
        simp only [length_append, length_singleton]
        omega

/-! ## Main result -/

/-- However the stream is split over the calls of `recv`, and whenever packets are removed: the
    packets handed on and the packets in `input.pkts` are the complete packets of what was received,
    the partial packet and the queue hold the rest, and there is room to go on reading. -/
theorem input_framing (fill : Nat → Byte) {netBufferSize : Nat} {fd : Int}
    (hsize : 1024 ≤ netBufferSize) (hfd : 0 < fd) {es : List InputEvent} {s : InputRun}
    (hrun : Run InputStep (InputRun.init fill netBufferSize fd) es s) :
    (s.removed ++ s.myds.input.pkts).map Pkt.data = (mysqlFraming.split s.received).1 ∧
      (∀ p ∈ s.removed ++ s.myds.input.pkts, p.length = p.data.length) ∧
      s.myds.held ++ s.myds.input.queue.contents = (mysqlFraming.split s.received).2 ∧
      s.myds.pktsRecv = (mysqlFraming.split s.received).1.length ∧
      1 ≤ queueAvailable s.myds.input.queue := by
  have h : s.Inv := hrun.invariant (P := InputRun.Inv) (fun _ _ _ => InputRun.step_inv)
    (InputRun.init_inv fill hsize hfd)
  have hall : ∀ p ∈ s.removed ++ s.myds.input.pkts,
      mysqlFraming.IsFrame p.data ∧ p.length = p.data.length := by
    intro p hp
    rcases mem_append.1 hp with hp | hp
    · exact h.removed p hp
    · exact h.wf.frames p hp
  have hreceived : s.received = ((s.removed ++ s.myds.input.pkts).map Pkt.data).flatten
      ++ (s.myds.held ++ s.myds.input.queue.contents) := by
    rw [← h.bytes]
    simp [MysqlDataStream.inBytes]
  have hframes : ∀ b ∈ (s.removed ++ s.myds.input.pkts).map Pkt.data, mysqlFraming.IsFrame b := by
    intro b hb
    obtain ⟨p, hp, rfl⟩ := mem_map.1 hb
    exact (hall p hp).1
  rw [hreceived, Framing.split_flatten_append hframes (h.wf.incomplete h.drained)]
  refine ⟨rfl, fun p hp => (hall p hp).2, rfl, ?_, ?_⟩
  · simpa using h.count
  · -- a drained queue is empty and rewound, or starts at the front with half a header
    have hq : s.myds.input.queue.WF := h.wf.reading.queue
    have h1 := hq.tail_le_head
    have h2 := hq.rewound
    have h3 := h.size
    have h4 := h.drained
    simp only [MysqlDataStream.Drained, queueData, sizeofMysqlHdr, queueAvailable] at h4 ⊢
    omega

/-- Two packets, the second cut inside its header: one is in the array, two bytes are held back. -/
theorem input_framing_cut_header :
    ∃ s, Run InputStep (InputRun.init (fun _ => 0) 1024 5)
        [.round (fun _ => 0) [0x01], .round (fun _ => 0) [0x00, 0x00, 0x00, 0x03, 0x00, 0x00]] s ∧
      (s.removed ++ s.myds.input.pkts).map Pkt.data = [[0x01, 0x00, 0x00, 0x00, 0x03]] ∧
      s.myds.held ++ s.myds.input.queue.contents = [0x00, 0x00] ∧ s.myds.pktsRecv = 1 := by
  obtain ⟨s, hrun, hrec⟩ := Run.exists_exec InputRun.step (InputRun.init (fun _ => 0) 1024 5)
    [.round (fun _ => 0) [0x01], .round (fun _ => 0) [0x00, 0x00, 0x00, 0x03, 0x00, 0x00]] (R := InputStep)
    (P := fun s => s.received = [0x01, 0x00, 0x00, 0x00, 0x03, 0x00, 0x00]) (fun _ _ _ => id)
    (by decide +kernel)
  obtain ⟨hpkts, _, hrest, hcount, _⟩ :=
    input_framing (fun _ => 0) (Nat.le_refl 1024) (by decide : (0 : Int) < 5) hrun
  rw [hrec] at hpkts hrest hcount
  exact ⟨s, hrun, hpkts.trans (by decide), hrest.trans (by decide), hcount.trans (by decide)⟩

end ProxySQL
