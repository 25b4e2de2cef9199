/-
  ProxySQL.Net.DataStream

  The data stream of one socket (`mysql_data_stream.c`): a receive buffer that
  is cut into packets, and an array of packets that is copied into a send
  buffer.  Both buffers are the linear queue of `proxysql_macros.h`: bytes are
  written at `head`, read at `tail`, and the two indexes go back to the front
  when the queue is empty or when `queue_zero` moves its contents there.

  The first half is the queue and its abstract content, `Queue.contents`; the
  second half is the stream itself.  What `recv` and `send` return is an
  argument.
-/
import ProxySQL.Protocol.Packet

namespace ProxySQL

open Lib

/-! ## The queue -/

/-- `queue_t`. -/
structure Queue where
  buffer : List Byte
  size : Nat
  head : Nat
  tail : Nat

/-- `queue_init`. -/
def queueInit (fill : Nat → Byte) (s : Nat) : Queue :=
  { buffer := lAlloc fill s, size := s, head := 0, tail := 0 }

/-- `queue_zero`; the `memcpy` to the front as a byte-wise forward move. -/
def queueZero (q : Queue) : Queue :=
  { q with buffer := moveFwd q.buffer 0 q.tail (q.head - q.tail), head := q.head - q.tail, tail := 0 }

/-- `queue_available`. -/
def queueAvailable (q : Queue) : Nat := q.size - q.head

/-- `queue_data`. -/
def queueData (q : Queue) : Nat := q.head - q.tail

/-- `queue_r`. -/
def queueR (q : Queue) (s : Nat) : Queue :=
  if q.tail + s = q.head then { q with head := 0, tail := 0 } else { q with tail := q.tail + s }

/-- `queue_w`. -/
def queueW (q : Queue) (s : Nat) : Queue := { q with head := q.head + s }

/-- The `n` bytes at `queue_r_ptr`. -/
def queueRPtr (q : Queue) (n : Nat) : List Byte := slice q.buffer q.tail (q.tail + n)

/-- A copy of `bs` to `queue_w_ptr`. -/
def queueWPtr (q : Queue) (bs : List Byte) : Queue := { q with buffer := overwrite q.buffer q.head bs }

/-- The indexes are in order and inside the buffer, and an empty queue is rewound. -/
structure Queue.WF (q : Queue) : Prop where
  length_buffer : q.buffer.length = q.size
  tail_le_head : q.tail ≤ q.head
  head_le_size : q.head ≤ q.size
  rewound : q.tail = q.head → q.head = 0

/-- The bytes in the queue, in the order they are read. -/
def Queue.contents (q : Queue) : List Byte := slice q.buffer q.tail q.head

variable {q : Queue} {n : Nat}

theorem Queue.WF.length_contents (h : q.WF) : q.contents.length = queueData q := by
  rw [Queue.contents, length_slice (by rw [h.length_buffer]; exact h.head_le_size), queueData]

theorem queueInit_wf (fill : Nat → Byte) (s : Nat) : (queueInit fill s).WF :=
  ⟨by simp [queueInit], Nat.le_refl 0, Nat.zero_le s, fun _ => rfl⟩

@[simp] theorem queueInit_contents (fill : Nat → Byte) (s : Nat) :
    (queueInit fill s).contents = [] := by
  simp [queueInit, Queue.contents]

theorem Queue.WF.contents_eq_nil (h : q.WF) (h0 : queueData q = 0) : q.contents = [] := by
  rw [← List.length_eq_zero_iff, h.length_contents, h0]

theorem Queue.WF.queueR (h : q.WF) (hn : n ≤ queueData q) :
    (queueR q n).WF ∧ q.contents = queueRPtr q n ++ (queueR q n).contents := by
  obtain ⟨hb, ht, hh, hr⟩ := h
  unfold queueData at hn
  have hjoin : q.contents = queueRPtr q n ++ slice q.buffer (q.tail + n) q.head :=
    (slice_append_slice (by omega) (by omega)).symm
  unfold ProxySQL.queueR
  split
  case isTrue heq =>
    exact ⟨⟨hb, Nat.le_refl _, Nat.zero_le _, fun _ => rfl⟩,
      by simpa [heq, Queue.contents] using hjoin⟩
  case isFalse hne => exact ⟨⟨hb, by simp only; omega, hh, fun heq => absurd heq hne⟩, hjoin⟩

theorem Queue.WF.queueW {bs : List Byte} (h : q.WF) (hbs : bs.length ≤ queueAvailable q) :
    (queueW (queueWPtr q bs) bs.length).WF ∧
      (queueW (queueWPtr q bs) bs.length).contents = q.contents ++ bs := by
  obtain ⟨hb, ht, hh, hr⟩ := h
  unfold queueAvailable at hbs
  have hroom : q.head + bs.length ≤ q.buffer.length := by omega
  refine ⟨⟨?_, ?_, ?_, ?_⟩, ?_⟩
  · simpa [ProxySQL.queueW, queueWPtr, length_overwrite hroom] using hb
  · simp only [ProxySQL.queueW, queueWPtr]
    omega
  · simp only [ProxySQL.queueW, queueWPtr]
    omega
  · simp only [ProxySQL.queueW, queueWPtr]
    omega
  · exact slice_overwrite ht hroom

theorem Queue.WF.queueZero (h : q.WF) : (queueZero q).WF ∧ (queueZero q).contents = q.contents := by
  obtain ⟨hb, ht, hh, hr⟩ := h
  have hfwd := moveFwd_eq_overwrite q.buffer (Nat.zero_le q.tail) (q.head - q.tail) (by omega)
  have hwin : q.tail + (q.head - q.tail) = q.head := by omega
  have hlen : (slice q.buffer q.tail q.head).length = q.head - q.tail := length_slice (by omega)
  rw [hwin] at hfwd
  refine ⟨⟨?_, Nat.zero_le _, ?_, Eq.symm⟩, ?_⟩
  · simp only [ProxySQL.queueZero, hfwd]
    rw [length_overwrite (by omega)]
    exact hb
  · simp only [ProxySQL.queueZero]
    omega
  · simp only [ProxySQL.queueZero, Queue.contents, hfwd]
    have := slice_overwrite (Nat.le_refl 0) (by omega :
      0 + (slice q.buffer q.tail q.head).length ≤ q.buffer.length)
    rw [Nat.zero_add, hlen] at this
    simpa using this

@[simp] theorem queueR_size (q : Queue) (n : Nat) : (queueR q n).size = q.size := by
  unfold queueR
  split <;> rfl

@[simp] theorem queueZero_size (q : Queue) : (queueZero q).size = q.size := rfl

@[simp] theorem queueW_queueWPtr_size (q : Queue) (n : Nat) (bs : List Byte) :
    (queueW (queueWPtr q bs) n).size = q.size := rfl

theorem length_queueRPtr (h : q.WF) (hn : n ≤ queueData q) : (queueRPtr q n).length = n := by
  unfold queueData at hn
  have := h.tail_le_head
  have := h.head_le_size
  rw [queueRPtr, length_slice (by rw [h.length_buffer]; omega)]
  omega

theorem queueData_queueR (h : q.WF) (hn : n ≤ queueData q) :
    queueData (queueR q n) = queueData q - n := by
  have hwf := h.queueR hn
  have hlen := congrArg List.length hwf.2
  rw [List.length_append, h.length_contents, hwf.1.length_contents, length_queueRPtr h hn] at hlen
  omega

@[simp] theorem queueData_queueZero (q : Queue) : queueData (queueZero q) = queueData q := by
  simp [queueData, queueZero]

/-! ## The stream -/

/-- `mysql_uni_ds_t`: one direction of a stream. -/
structure MysqlUniDs where
  queue : Queue
  pkts : List Pkt
  partialLen : Nat
  mypkt : Option Pkt
  hdr : MysqlHdr

/-- `mysql_data_stream_t`, without its pointers to the session and the backend. -/
structure MysqlDataStream where
  pktsRecv : Nat
  pktsSent : Nat
  bytesRecv : Nat
  bytesSent : Nat
  input : MysqlUniDs
  output : MysqlUniDs
  fd : Int
  activeTransaction : Bool
  active : Bool

def MysqlUniDs.new (fill : Nat → Byte) (netBufferSize : Nat) : MysqlUniDs :=
  { queue := queueInit fill netBufferSize, pkts := [], partialLen := 0, mypkt := none,
    hdr := { pktLength := 0, pktId := 0 } }

/-- `mysql_data_stream_new`, followed by `setfd`. -/
def mysqlDataStreamNew (fill : Nat → Byte) (netBufferSize : Nat) (fd : Int) : MysqlDataStream :=
  { pktsRecv := 0, pktsSent := 0, bytesRecv := 0, bytesSent := 0,
    input := .new fill netBufferSize, output := .new fill netBufferSize,
    fd := fd, activeTransaction := false, active := true }

/-- `l_ptr_array_add` to `output.pkts`, once for each packet. -/
def MysqlDataStream.addOut (myds : MysqlDataStream) (ps : List Pkt) : MysqlDataStream :=
  { myds with output := { myds.output with pkts := myds.output.pkts ++ ps } }

/-- `shut_soft`, apart from the `net_failure` it stores in the session. -/
def MysqlDataStream.shutSoft (myds : MysqlDataStream) : MysqlDataStream := { myds with active := false }

/-- `shut_hard`. -/
def MysqlDataStream.shutHard (myds : MysqlDataStream) : MysqlDataStream :=
  if 0 ≤ myds.fd then { myds with fd := -1 } else myds

/-- `read_from_net` with the bytes that `recv` stored; none of them stands for a result below 1.
    The flag says whether `shut_soft` was called. -/
def MysqlDataStream.readFromNet (myds : MysqlDataStream) (recv : List Byte) : MysqlDataStream × Bool :=
  if recv.length < 1 then (myds.shutSoft, true)
  else
    ({ myds with
        input := { myds.input with queue := queueW (queueWPtr myds.input.queue recv) recv.length },
        bytesRecv := myds.bytesRecv + recv.length }, false)

/-- `write_to_net` with the result `r` of `send`. -/
def MysqlDataStream.writeToNet (myds : MysqlDataStream) (r : Int) : MysqlDataStream × Bool :=
  if queueData myds.output.queue = 0 then (myds, false)
  else if r < 0 then (myds.shutSoft, true)
  else
    ({ myds with
        output := { myds.output with queue := queueR myds.output.queue r.toNat },
        bytesSent := myds.bytesSent + r.toNat }, false)

section Frame

variable (myds : MysqlDataStream) (recv : List Byte)

@[simp] theorem readFromNet_fd : (myds.readFromNet recv).1.fd = myds.fd := by
  unfold MysqlDataStream.readFromNet
  split <;> rfl

@[simp] theorem readFromNet_pktsRecv : (myds.readFromNet recv).1.pktsRecv = myds.pktsRecv := by
  unfold MysqlDataStream.readFromNet
  split <;> rfl

@[simp] theorem readFromNet_pkts : (myds.readFromNet recv).1.input.pkts = myds.input.pkts := by
  unfold MysqlDataStream.readFromNet
  split <;> rfl

@[simp] theorem readFromNet_size :
    (myds.readFromNet recv).1.input.queue.size = myds.input.queue.size := by
  unfold MysqlDataStream.readFromNet
  split <;> rfl

end Frame

/-! ### From the buffer to the packet array -/

/-- The packet `buffer2array` is at work on. -/
structure Reading where
  queue : Queue
  mypkt : Pkt
  partialLen : Nat
  hdr : MysqlHdr

/-- A header that has not arrived completely is moved to the front. -/
def Reading.zeroShortHdr (r : Reading) : Reading :=
  if r.mypkt.length = 0 ∧ queueData r.queue < sizeofMysqlHdr then
    { r with queue := queueZero r.queue }
  else r

/-- A complete header is read and copied into a packet of the announced size. -/
def Reading.readHdr (fill : Nat → Byte) (r : Reading) : Reading × Nat :=
  if r.mypkt.length = 0 ∧ sizeofMysqlHdr ≤ queueData r.queue then
    let hdr := MysqlHdr.ofBytes (queueRPtr r.queue sizeofMysqlHdr)
    let length := hdr.pktLength.toNat + sizeofMysqlHdr
    ({ queue := queueR r.queue sizeofMysqlHdr,
       mypkt := { length := length, data := overwrite (lAlloc fill length) 0 hdr.toBytes },
       partialLen := sizeofMysqlHdr,
       hdr := hdr }, sizeofMysqlHdr)
  else (r, 0)

/-- The queue's bytes are copied behind what the packet already holds. -/
def Reading.readBody (r : Reading) : Reading × Nat :=
  if 0 < r.mypkt.length ∧ queueData r.queue ≠ 0 then
    let b := if queueData r.queue > r.mypkt.length - r.partialLen then
        r.mypkt.length - r.partialLen else queueData r.queue
    ({ r with
        queue := queueR r.queue b,
        mypkt := { r.mypkt with
          data := overwrite r.mypkt.data r.partialLen (queueRPtr r.queue b) },
        partialLen := r.partialLen + b }, b)
  else (r, 0)

/-- A complete packet moves into the array. -/
def MysqlDataStream.storeReading (myds : MysqlDataStream) (r : Reading) : MysqlDataStream :=
  if 0 < r.mypkt.length ∧ r.mypkt.length = r.partialLen then
    { myds with
      input := { queue := r.queue, pkts := myds.input.pkts ++ [r.mypkt], partialLen := r.partialLen,
                 mypkt := none, hdr := r.hdr },
      pktsRecv := myds.pktsRecv + 1 }
  else
    { myds with
      input := { myds.input with
        queue := r.queue, partialLen := r.partialLen, mypkt := some r.mypkt, hdr := r.hdr } }

/-- The packet being read, a new one where there is none. -/
def MysqlDataStream.reading (myds : MysqlDataStream) : Reading :=
  { queue := myds.input.queue, mypkt := myds.input.mypkt.getD { length := 0, data := [] },
    partialLen := myds.input.partialLen, hdr := myds.input.hdr }

/-- `buffer2array`. -/
def MysqlDataStream.buffer2array (fill : Nat → Byte) (myds : MysqlDataStream) :
    MysqlDataStream × Nat :=
  if queueData myds.input.queue = 0 then (myds, 0)
  else
    let h := myds.reading.zeroShortHdr.readHdr fill
    let b := h.1.readBody
    (myds.storeReading b.1, h.2 + b.2)

/-- The loop of `buffer2array_2` over one stream, cut off after `n` rounds. -/
def MysqlDataStream.drain (fill : Nat → Byte) : Nat → MysqlDataStream → MysqlDataStream
  | 0, myds => myds
  | n + 1, myds =>
      let r := myds.buffer2array fill
      if r.2 ≠ 0 ∧ 0 < r.1.fd then drain fill n r.1 else r.1

/-- The loop of `buffer2array_2` over one stream.  Every round but the last takes a byte off the
    queue. -/
def MysqlDataStream.buffer2arrayLoop (fill : Nat → Byte) (myds : MysqlDataStream) :
    MysqlDataStream :=
  myds.drain fill (queueData myds.input.queue + 1)

/-! ### From the packet array to the buffer -/

/-- The copy of `array2buffer` from the packet `p`. -/
def MysqlDataStream.copyOut (myds : MysqlDataStream) (p : Pkt) : MysqlDataStream × Nat :=
  let out := myds.output
  let b := if queueAvailable out.queue > p.length - out.partialLen then p.length - out.partialLen
    else queueAvailable out.queue
  let queue := queueW (queueWPtr out.queue (slice p.data out.partialLen (out.partialLen + b))) b
  if out.partialLen + b = p.length then
    ({ myds with
        output := { out with queue := queue, mypkt := none, partialLen := 0 },
        pktsSent := myds.pktsSent + 1 }, b)
  else
    ({ myds with
        output := { out with queue := queue, mypkt := some p, partialLen := out.partialLen + b } }, b)

/-- `array2buffer`; `none` is the dereference of a NULL `mypkt`. -/
def MysqlDataStream.array2buffer (myds : MysqlDataStream) : Option (MysqlDataStream × Nat) :=
  if queueAvailable myds.output.queue = 0 then some (myds, 0)
  else if myds.output.partialLen = 0 then
    -- read a new packet
    match myds.output.pkts with
    | [] => some (myds, 0)
    | p :: pkts => some ({ myds with output := { myds.output with pkts := pkts } }.copyOut p)
  else
    match myds.output.mypkt with
    | none => none
    | some p => some (myds.copyOut p)

/-- The loop of `array2buffer_2` over one stream, cut off after `n` rounds. -/
def MysqlDataStream.fillUp : Nat → MysqlDataStream → Option MysqlDataStream
  | 0, myds => some myds
  | n + 1, myds =>
      match myds.array2buffer with
      | none => none
      | some (myds', ret) => if ret ≠ 0 then fillUp n myds' else some myds'

/-- The loop of `array2buffer_2` over one stream.  Every round but the last takes a byte of room. -/
def MysqlDataStream.array2bufferLoop (myds : MysqlDataStream) : Option MysqlDataStream :=
  myds.fillUp (queueAvailable myds.output.queue + 1)

end ProxySQL
