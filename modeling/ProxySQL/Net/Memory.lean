/-
  ProxySQL.Net.Memory

  The memory of the packets of a data stream.

  A packet is a struct with a length and a pointer to its data.  `Net.DataStream`
  keeps the bytes in the packet; here the stream is followed together with the heap
  and with the pointers, so that every `l_free(length, data)` can be compared with
  the `l_alloc` the data came from.  A packet that `buffer2array` takes from
  `mypkt_alloc` has a data pointer that nothing has set; the pointer comes with the
  header.  Packets leave the two arrays and enter them through the session, which
  also makes and frees packets.

  What the stream and the session own between two calls is the list `owned`; every
  call keeps it a list of distinct blocks with the lengths of their packets
  (`TrackedStream.Sound`).  The frees of `mysql_data_stream_delete` are part of that
  list, except for a packet whose header has not arrived (`streamDelete_frees_iff`).
-/
import ProxySQL.Lib.Heap
import ProxySQL.Lib.Run
import ProxySQL.Net.DataStream

namespace ProxySQL

open Lib List Option

/-! ## The stream and its pointers -/

/-- A stream, the heap, and the `data` pointers of its packets in the order of the packets. -/
structure TrackedStream where
  myds : MysqlDataStream
  heap : Lib.Heap
  /-- `input.mypkt->data`, if there is such a packet -/
  inData : Option Nat
  inPtrs : List (Option Nat)
  /-- `output.mypkt->data`, if there is such a packet -/
  outData : Option Nat
  outPtrs : List (Option Nat)
  /-- packets with the session -/
  held : List (Pkt × Option Nat)

/-- A stream from `mysql_data_stream_new`. -/
def TrackedStream.new (fill : Nat → Byte) (netBufferSize : Nat) (fd : Int) (heap : Lib.Heap) :
    TrackedStream :=
  { myds := mysqlDataStreamNew fill netBufferSize fd, heap, inData := none, inPtrs := [], outData := none,
    outPtrs := [],
    held := [] }

/-- The length and the data pointer of a packet that may not be there. -/
def mypktBlock (mypkt : Option Pkt) (data : Option Nat) : List (Nat × Option Nat) :=
  mypkt.toList.map fun p => (p.length, data)

/-- The lengths and the data pointers of an array of packets. -/
def pktsBlocks (pkts : List Pkt) (ptrs : List (Option Nat)) : List (Nat × Option Nat) :=
  List.zipWith (fun p d => (p.length, d)) pkts ptrs

namespace TrackedStream

/-- The `l_free(length, data)` of `mysql_data_stream_delete`, in its order. -/
def deleteFrees (s : TrackedStream) : List (Nat × Option Nat) :=
  mypktBlock s.myds.input.mypkt s.inData ++ mypktBlock s.myds.output.mypkt s.outData ++
    pktsBlocks s.myds.input.pkts s.inPtrs ++ pktsBlocks s.myds.output.pkts s.outPtrs

/-- `mysql_data_stream_delete`; `none` is a free of something else than a live block of that length. -/
def mysqlDataStreamDelete (s : TrackedStream) : Option Lib.Heap := s.heap.freeAll s.deleteFrees

/-- The block of the packet being read: `mypkt_alloc` does not set `data`, the header brings a block of the
    announced length. -/
def dataOfReading (fill : Nat → Byte) (s : TrackedStream) : Lib.Heap × Option Nat :=
  let r := s.myds.reading.zeroShortHdr
  if r.mypkt.length = 0 ∧ sizeofMysqlHdr ≤ queueData r.queue then
    ((s.heap.alloc (r.readHdr fill).1.mypkt.length).1,
      some (s.heap.alloc (r.readHdr fill).1.mypkt.length).2)
  else (s.heap, s.myds.input.mypkt.bind fun _ => s.inData)

/-- `buffer2array`. -/
def buffer2array (fill : Nat → Byte) (s : TrackedStream) : TrackedStream :=
  if queueData s.myds.input.queue = 0 then s
  else
    let t := (s.myds.buffer2array fill).1
    let m := s.dataOfReading fill
    match t.input.mypkt with
    -- the packet was complete and is in the array
    | none => { s with myds := t, heap := m.1, inData := none, inPtrs := s.inPtrs ++ [m.2] }
    | some _ => { s with myds := t, heap := m.1, inData := m.2 }

/-- What `array2buffer` does to the packet `p` with the data `d` after its copy. -/
def afterCopy (s : TrackedStream) (t : MysqlDataStream) (p : Pkt) (d : Option Nat) : Option TrackedStream :=
  match t.output.mypkt with
  -- `mypkt_free1`
  | none => (s.heap.free p.length d).map fun heap => { s with myds := t, heap, outData := none }
  | some _ => some { s with myds := t, outData := d }

/-- `array2buffer`; `none` is the dereference of a NULL `mypkt` or a free of something else than a live
    block of that length. -/
def array2buffer (s : TrackedStream) : Option TrackedStream :=
  if queueAvailable s.myds.output.queue = 0 then some s
  else if s.myds.output.partialLen = 0 then
    match s.myds.output.pkts, s.outPtrs with
    | p :: pkts, d :: ptrs =>
        -- a packet that is still there is freed
        (s.heap.freeAll (mypktBlock s.myds.output.mypkt s.outData)).bind fun heap =>
          { s with heap, outPtrs := ptrs }.afterCopy
            ({ s.myds with output := { s.myds.output with pkts := pkts } }.copyOut p).1 p d
    | _, _ => some s
  else
    match s.myds.output.mypkt with
    | none => none
    | some p => s.afterCopy (s.myds.copyOut p).1 p s.outData

/-! ## Calls in any order -/

end TrackedStream

/-- What happens to a stream. -/
inductive StreamCall where
  /-- `read_from_net` with the bytes that `recv` stored -/
  | readFromNet (recv : List Byte)
  | buffer2array (fill : Nat → Byte)
  | array2buffer
  /-- `write_to_net` with the result of `send` -/
  | writeToNet (r : Int)
  /-- the session makes a packet -/
  | makePkt (p : Pkt)
  /-- the session removes the packet with this index from `input.pkts` -/
  | removeIn (i : Nat)
  | removeOut (i : Nat)
  /-- the session adds one of its packets to `input.pkts` -/
  | addIn (i : Nat)
  | addOut (i : Nat)
  /-- `mypkt_free1` on one of the session's packets -/
  | freePkt (i : Nat)

namespace TrackedStream

def call (s : TrackedStream) : StreamCall → Option TrackedStream
  | .readFromNet recv =>
      if recv.length ≤ queueAvailable s.myds.input.queue then
        some { s with myds := (s.myds.readFromNet recv).1 }
      else none
  | .buffer2array fill => some (s.buffer2array fill)
  | .array2buffer => s.array2buffer
  | .writeToNet r =>
      if r ≤ queueData s.myds.output.queue then some { s with myds := (s.myds.writeToNet r).1 } else none
  | .makePkt p =>
      some { s with heap := (s.heap.alloc p.length).1,
                    held := (p, some (s.heap.alloc p.length).2) :: s.held }
  | .removeIn i =>
      match s.myds.input.pkts[i]?, s.inPtrs[i]? with
      | some p, some d =>
          some { s with
            myds := { s.myds with input := { s.myds.input with pkts := s.myds.input.pkts.eraseIdx i } },
            inPtrs := s.inPtrs.eraseIdx i, held := (p, d) :: s.held }
      | _, _ => none
  | .removeOut i =>
      match s.myds.output.pkts[i]?, s.outPtrs[i]? with
      | some p, some d =>
          some { s with
            myds := { s.myds with output := { s.myds.output with pkts := s.myds.output.pkts.eraseIdx i } },
            outPtrs := s.outPtrs.eraseIdx i, held := (p, d) :: s.held }
      | _, _ => none
  | .addIn i =>
      s.held[i]?.map fun (p, d) =>
        { s with
          myds := { s.myds with input := { s.myds.input with pkts := s.myds.input.pkts ++ [p] } },
          inPtrs := s.inPtrs ++ [d], held := s.held.eraseIdx i }
  | .addOut i =>
      s.held[i]?.map fun (p, d) =>
        { s with myds := s.myds.addOut [p], outPtrs := s.outPtrs ++ [d], held := s.held.eraseIdx i }
  | .freePkt i =>
      s.held[i]?.bind fun (p, d) =>
        (s.heap.free p.length d).map fun heap => { s with heap, held := s.held.eraseIdx i }

def Step (s : TrackedStream) (e : StreamCall) (t : TrackedStream) : Prop := s.call e = some t

/-! ## What is owned -/

/-- The blocks of the stream and of the session.  A packet whose header has not arrived has none. -/
def owned (s : TrackedStream) : List (Nat × Option Nat) :=
  mypktBlock (s.myds.input.mypkt.filter fun p => p.length != 0) s.inData ++
    mypktBlock s.myds.output.mypkt s.outData ++
    pktsBlocks s.myds.input.pkts s.inPtrs ++ pktsBlocks s.myds.output.pkts s.outPtrs ++
    s.held.map fun x => (x.1.length, x.2)

/-- Between two calls every packet has its own live block, and a packet without a header has none. -/
structure Sound (s : TrackedStream) : Prop where
  owns : s.heap.Owns s.owned
  length_in : s.inPtrs.length = s.myds.input.pkts.length
  length_out : s.outPtrs.length = s.myds.output.pkts.length
  unset : ∀ p, s.myds.input.mypkt = some p → p.length = 0 → s.inData = none
  atWork : s.myds.output.partialLen ≠ 0 → s.myds.output.mypkt ≠ none

end TrackedStream

/-! ### Lists of blocks -/

variable {p : Pkt} {d : Option Nat} {myds : MysqlDataStream}

section Blocks

variable {pkts : List Pkt} {ptrs : List (Option Nat)}

@[simp] theorem mypktBlock_none (d : Option Nat) : mypktBlock none d = [] := rfl

@[simp] theorem mypktBlock_some (p : Pkt) (d : Option Nat) : mypktBlock (some p) d = [(p.length, d)] := rfl

@[simp] theorem pktsBlocks_cons (p : Pkt) (d : Option Nat) :
    pktsBlocks (p :: pkts) (d :: ptrs) = (p.length, d) :: pktsBlocks pkts ptrs := rfl

theorem pktsBlocks_append (h : ptrs.length = pkts.length) (p : Pkt) (d : Option Nat) :
    pktsBlocks (pkts ++ [p]) (ptrs ++ [d]) = pktsBlocks pkts ptrs ++ [(p.length, d)] :=
  zipWith_append h.symm

theorem pktsBlocks_eraseIdx {i : Nat} (hp : pkts[i]? = some p) (hd : ptrs[i]? = some d) :
    (pktsBlocks pkts ptrs).Perm ((p.length, d) :: pktsBlocks (pkts.eraseIdx i) (ptrs.eraseIdx i)) := by
  induction pkts generalizing ptrs i with
  | nil => cases hp
  | cons q pkts ih =>
    cases ptrs with
    | nil => cases hd
    | cons e ptrs =>
      cases i with
      | zero =>
        cases hp
        cases hd
        exact List.Perm.refl _
      | succ i =>
        exact ((ih hp hd).cons _).trans (List.Perm.swap ..)

end Blocks

namespace TrackedStream

variable {s t : TrackedStream}

theorem perm_held {i : Nat} (h : s.held[i]? = some (p, d)) :
    (s.held.map fun x => (x.1.length, x.2)).Perm
      ((p.length, d) :: (s.held.eraseIdx i).map fun x => (x.1.length, x.2)) := by
  obtain ⟨hi, hget⟩ := List.getElem?_eq_some_iff.1 h
  have hperm := (getElem_cons_eraseIdx_perm hi).symm.map fun x : Pkt × Option Nat => (x.1.length, x.2)
  rw [map_cons, hget] at hperm
  exact hperm

/-! ## The calls -/

theorem sound_new (fill : Nat → Byte) (netBufferSize : Nat) (fd : Int) (heap : Lib.Heap) :
    (new fill netBufferSize fd heap).Sound where
  owns := Lib.Heap.owns_nil
  length_in := rfl
  length_out := rfl
  unset := nofun
  atWork h := absurd rfl h

/-- A call that leaves the packets where they are and keeps their pointers. -/
theorem Sound.frame (h : s.Sound) (hmypkt : myds.input.mypkt = s.myds.input.mypkt)
    (hpkts : myds.input.pkts = s.myds.input.pkts) (houtmypkt : myds.output.mypkt = s.myds.output.mypkt)
    (houtpkts : myds.output.pkts = s.myds.output.pkts)
    (hlen : myds.output.partialLen = s.myds.output.partialLen) : { s with myds }.Sound where
  owns := by
    have howned : { s with myds }.owned = s.owned := by
      simp only [owned]
      rw [hmypkt, hpkts, houtmypkt, houtpkts]
    rw [howned]
    exact h.owns
  length_in := by
    rw [hpkts]
    exact h.length_in
  length_out := by
    rw [houtpkts]
    exact h.length_out
  unset := by
    rw [hmypkt]
    exact h.unset
  atWork := by
    rw [hlen, houtmypkt]
    exact h.atWork

/-! ### `buffer2array` -/

end TrackedStream

section Reading

@[simp] theorem Reading.zeroShortHdr_mypkt (r : Reading) : r.zeroShortHdr.mypkt = r.mypkt := by
  unfold zeroShortHdr
  split <;> rfl

theorem Reading.readBody_length (r : Reading) : r.readBody.1.mypkt.length = r.mypkt.length := by
  unfold readBody
  split <;> rfl

/-- A call ends with a packet of the length that is known by then, in the array or still at work. -/
theorem MysqlDataStream.buffer2array_cases (fill : Nat → Byte)
    (hdata : queueData myds.input.queue ≠ 0) :
    ∃ p : Pkt, p.length = (myds.reading.zeroShortHdr.readHdr fill).1.mypkt.length ∧
      (myds.buffer2array fill).1.output = myds.output ∧
      ((myds.buffer2array fill).1.input.mypkt = none ∧ p.length ≠ 0 ∧
          (myds.buffer2array fill).1.input.pkts = myds.input.pkts ++ [p] ∨
        (myds.buffer2array fill).1.input.mypkt = some p ∧
          (myds.buffer2array fill).1.input.pkts = myds.input.pkts) := by
  refine ⟨(myds.reading.zeroShortHdr.readHdr fill).1.readBody.1.mypkt, Reading.readBody_length _, ?_⟩
  rw [buffer2array, if_neg hdata]
  dsimp only
  unfold storeReading
  split
  case isTrue hcomplete => exact ⟨rfl, .inl ⟨rfl, Nat.ne_of_gt hcomplete.1, rfl⟩⟩
  case isFalse => exact ⟨rfl, .inr ⟨rfl, rfl⟩⟩

end Reading

namespace TrackedStream

variable {s t : TrackedStream}

/-- What is owned apart from the packet being read. -/
def others (s : TrackedStream) : List (Nat × Option Nat) :=
  mypktBlock s.myds.output.mypkt s.outData ++ pktsBlocks s.myds.input.pkts s.inPtrs ++
    pktsBlocks s.myds.output.pkts s.outPtrs ++ s.held.map fun x => (x.1.length, x.2)

theorem owned_eq (s : TrackedStream) :
    s.owned = mypktBlock (s.myds.input.mypkt.filter fun p => p.length != 0) s.inData ++ s.others := by
  simp only [owned, others, append_assoc]

theorem owned_of_none (h : s.myds.input.mypkt = none) : s.owned = s.others := by
  rw [owned_eq, h]
  rfl

theorem owned_of_zero (h : s.myds.input.mypkt = some p) (hp : p.length = 0) : s.owned = s.others := by
  rw [owned_eq, h, filter_some_neg (by simp [hp])]
  rfl

theorem owned_of_some (h : s.myds.input.mypkt = some p) (hp : p.length ≠ 0) :
    s.owned = (p.length, s.inData) :: s.others := by
  rw [owned_eq, h, filter_some_pos (by simp [hp])]
  rfl

/-- The packet being read has a block of its own as soon as its length is known. -/
theorem Sound.dataOfReading (h : s.Sound) (fill : Nat → Byte) {n : Nat}
    (hn : n = (s.myds.reading.zeroShortHdr.readHdr fill).1.mypkt.length) :
    (n = 0 → (s.dataOfReading fill).2 = none ∧ (s.dataOfReading fill).1.Owns s.others) ∧
      (n ≠ 0 → (s.dataOfReading fill).1.Owns ((n, (s.dataOfReading fill).2) :: s.others)) := by
  subst hn
  by_cases hread : s.myds.reading.zeroShortHdr.mypkt.length = 0 ∧
      sizeofMysqlHdr ≤ queueData s.myds.reading.zeroShortHdr.queue
  · -- the header has arrived
    have hothers : s.owned = s.others := by
      have hzero := hread.1
      rw [Reading.zeroShortHdr_mypkt] at hzero
      cases hp : s.myds.input.mypkt with
      | none => exact owned_of_none hp
      | some p =>
        refine owned_of_zero hp ?_
        rw [MysqlDataStream.reading, hp] at hzero
        exact hzero
    have hpos : (s.myds.reading.zeroShortHdr.readHdr fill).1.mypkt.length ≠ 0 := by
      rw [Reading.readHdr, if_pos hread]
      dsimp only [sizeofMysqlHdr]
      omega
    refine ⟨fun hzero => absurd hzero hpos, fun _ => ?_⟩
    unfold TrackedStream.dataOfReading
    rw [if_pos hread, ← hothers]
    exact h.owns.alloc _
  · have hlength : (s.myds.reading.zeroShortHdr.readHdr fill).1.mypkt.length =
      s.myds.reading.mypkt.length := by
      rw [Reading.readHdr, if_neg hread, Reading.zeroShortHdr_mypkt]
    have hdata : s.dataOfReading fill = (s.heap, s.myds.input.mypkt.bind fun _ => s.inData) := if_neg hread
    rw [hlength, hdata, MysqlDataStream.reading]
    cases hp : s.myds.input.mypkt with
    | none => exact ⟨fun _ => ⟨rfl, owned_of_none hp ▸ h.owns⟩, fun hne => absurd rfl hne⟩
    | some p =>
      refine ⟨fun hzero => ⟨h.unset p hp hzero, owned_of_zero hp hzero ▸ h.owns⟩, fun hne => ?_⟩
      exact owned_of_some hp hne ▸ h.owns

theorem others_addIn {x : Nat × Option Nat} (l1 l2 l3 l4 : List (Nat × Option Nat)) :
    (x :: (l1 ++ l2 ++ l3 ++ l4)).Perm (l1 ++ (l2 ++ [x]) ++ l3 ++ l4) := by
  rw [perm_iff_count]
  intro y
  simp only [count_append, count_cons, count_nil]
  omega

theorem Sound.buffer2array (h : s.Sound) (fill : Nat → Byte) : (s.buffer2array fill).Sound := by
  by_cases hdata : queueData s.myds.input.queue = 0
  · rw [TrackedStream.buffer2array, if_pos hdata]
    exact h
  · obtain ⟨p, hp, hout, hcases⟩ := MysqlDataStream.buffer2array_cases fill hdata
    obtain ⟨hunset, hset⟩ := h.dataOfReading fill hp
    rw [TrackedStream.buffer2array, if_neg hdata]
    dsimp only
    rcases hcases with ⟨hmypkt, hpos, hpkts⟩ | ⟨hmypkt, hpkts⟩
    · rw [hmypkt]
      refine ⟨?_, ?_, ?_, ?_, ?_⟩
      · rw [owned_of_none hmypkt]
        refine (hset hpos).perm ?_
        simp only [others]
        rw [hout, hpkts, pktsBlocks_append h.length_in]
        exact others_addIn ..
      · rw [hpkts, length_append, length_append, h.length_in]
        rfl
      · rw [hout]
        exact h.length_out
      · intro q hq
        rw [hmypkt] at hq
        cases hq
      · rw [hout]
        exact h.atWork
    · rw [hmypkt]
      have hothers : { s with
          myds := (s.myds.buffer2array fill).1, heap := (s.dataOfReading fill).1,
          inData := (s.dataOfReading fill).2 }.others = s.others := by
        simp only [others]
        rw [hout, hpkts]
      refine ⟨?_, ?_, ?_, ?_, ?_⟩
      · by_cases hzero : p.length = 0
        · rw [owned_of_zero hmypkt hzero, hothers]
          exact (hunset hzero).2
        · rw [owned_of_some hmypkt hzero, hothers]
          exact hset hzero
      · rw [hpkts]
        exact h.length_in
      · rw [hout]
        exact h.length_out
      · intro q hq hzero
        obtain rfl := some.inj (hmypkt.symm.trans hq)
        exact (hunset hzero).1
      · rw [hout]
        exact h.atWork

/-! ### `array2buffer` -/

end TrackedStream

theorem MysqlDataStream.copyOut_mypkt (myds : MysqlDataStream) (p : Pkt) :
    (myds.copyOut p).1.input = myds.input ∧ (myds.copyOut p).1.output.pkts = myds.output.pkts ∧
      ((myds.copyOut p).1.output.mypkt = none ∧ (myds.copyOut p).1.output.partialLen = 0 ∨
        (myds.copyOut p).1.output.mypkt = some p) := by
  unfold copyOut
  dsimp only
  split_ifs
  · exact ⟨rfl, rfl, .inl ⟨rfl, rfl⟩⟩
  · exact ⟨rfl, rfl, .inr rfl⟩
  · exact ⟨rfl, rfl, .inl ⟨rfl, rfl⟩⟩
  · exact ⟨rfl, rfl, .inr rfl⟩

namespace TrackedStream

variable {s t : TrackedStream}

/-- What is owned apart from the packet being sent. -/
def othersOut (s : TrackedStream) (pkts : List Pkt) (ptrs : List (Option Nat)) : List (Nat × Option Nat) :=
  mypktBlock (s.myds.input.mypkt.filter fun p => p.length != 0) s.inData ++
    pktsBlocks s.myds.input.pkts s.inPtrs ++ pktsBlocks pkts ptrs ++ s.held.map fun x => (x.1.length, x.2)

theorem owned_perm_out (s : TrackedStream) :
    s.owned.Perm (mypktBlock s.myds.output.mypkt s.outData ++
      s.othersOut s.myds.output.pkts s.outPtrs) := by
  rw [perm_iff_count]
  intro y
  simp only [owned, othersOut, count_append]
  omega

theorem afterCopy_spec
    (howns : s.heap.Owns ((p.length, d) :: s.othersOut myds.output.pkts s.outPtrs))
    (hin : myds.input = s.myds.input) (hlengthIn : s.inPtrs.length = s.myds.input.pkts.length)
    (hlengthOut : s.outPtrs.length = myds.output.pkts.length)
    (hunset : ∀ p, s.myds.input.mypkt = some p → p.length = 0 → s.inData = none)
    (hcases : myds.output.mypkt = none ∧ myds.output.partialLen = 0 ∨ myds.output.mypkt = some p) :
    ∃ t, s.afterCopy myds p d = some t ∧ t.myds = myds ∧ t.Sound := by
  have hothers : ∀ heap outData, { s with myds, heap, outData }.othersOut myds.output.pkts s.outPtrs
      = s.othersOut myds.output.pkts s.outPtrs := by
    intro heap outData
    simp only [othersOut]
    rw [hin]
  unfold afterCopy
  rcases hcases with ⟨hmypkt, hpartial⟩ | hmypkt
  · obtain ⟨heap, hfree, howns⟩ := howns.free
    rw [hmypkt]
    rw [hfree]
    refine ⟨_, rfl, rfl, ?_, ?_, hlengthOut, ?_, fun hne => absurd hpartial hne⟩
    · refine Lib.Heap.Owns.perm ?_ (owned_perm_out _).symm
      rw [hmypkt, hothers]
      exact howns
    · rw [hin]
      exact hlengthIn
    · rw [hin]
      exact hunset
  · rw [hmypkt]
    refine ⟨_, rfl, rfl, ?_, ?_, hlengthOut, ?_, fun _ hnone => ?_⟩
    · refine Lib.Heap.Owns.perm ?_ (owned_perm_out _).symm
      rw [hmypkt, hothers]
      exact howns
    · rw [hin]
      exact hlengthIn
    · rw [hin]
      exact hunset
    · exact some_ne_none p (hmypkt.symm.trans hnone)

/-- The call goes through: what it frees is its own. -/
theorem Sound.array2buffer (h : s.Sound) :
    ∃ t, s.array2buffer = some t ∧ s.myds.array2buffer.map Prod.fst = some t.myds ∧ t.Sound := by
  have hperm := h.owns.perm (owned_perm_out s)
  unfold TrackedStream.array2buffer MysqlDataStream.array2buffer
  by_cases hroom : queueAvailable s.myds.output.queue = 0
  · rw [if_pos hroom, if_pos hroom]
    exact ⟨s, rfl, rfl, h⟩
  · rw [if_neg hroom, if_neg hroom]
    by_cases hpartial : s.myds.output.partialLen = 0
    · rw [if_pos hpartial, if_pos hpartial]
      have hlength := h.length_out
      cases hpkts : s.myds.output.pkts with
      | nil => exact ⟨s, rfl, rfl, h⟩
      | cons p pkts =>
        rw [hpkts] at hlength hperm
        cases hptrs : s.outPtrs with
        | nil =>
          rw [hptrs] at hlength
          cases hlength
        | cons d ptrs =>
          rw [hptrs] at hlength hperm
          -- the packet that is still there, then the new one
          have hfree : ∃ heap, s.heap.freeAll (mypktBlock s.myds.output.mypkt s.outData) = some heap ∧
              heap.Owns (s.othersOut (p :: pkts) (d :: ptrs)) := by
            cases hmypkt : s.myds.output.mypkt with
            | none =>
              rw [hmypkt] at hperm
              exact ⟨s.heap, rfl, hperm⟩
            | some q =>
              rw [hmypkt] at hperm
              obtain ⟨heap, hfree, howns⟩ := Lib.Heap.Owns.free hperm
              refine ⟨heap, ?_, howns⟩
              rw [mypktBlock_some, Lib.Heap.freeAll, hfree]
              rfl
          obtain ⟨heap, hfree, howns⟩ := hfree
          obtain ⟨hin, hout, hcases⟩ :=
            MysqlDataStream.copyOut_mypkt { s.myds with output := { s.myds.output with pkts := pkts } } p
          dsimp only
          rw [hfree, bind_some]
          have hnew : (s.othersOut (p :: pkts) (d :: ptrs)).Perm
            ((p.length, d) :: s.othersOut pkts ptrs) := by
            rw [perm_iff_count]
            intro y
            simp only [othersOut, pktsBlocks_cons, count_append, count_cons]
            omega
          obtain ⟨t, hcopy, hmyds, ht⟩ := afterCopy_spec (s := { s with heap, outPtrs := ptrs })
            (by rw [hout]; exact howns.perm hnew) hin h.length_in
            (by rw [hout]; exact Nat.succ.inj hlength) h.unset hcases
          exact ⟨t, hcopy, congrArg some hmyds.symm, ht⟩
    · rw [if_neg hpartial, if_neg hpartial]
      cases hmypkt : s.myds.output.mypkt with
      | none => exact absurd hmypkt (h.atWork hpartial)
      | some p =>
        obtain ⟨hin, hout, hcases⟩ := s.myds.copyOut_mypkt p
        rw [hmypkt] at hperm
        obtain ⟨t, hcopy, hmyds, ht⟩ := afterCopy_spec (s := s) (by rw [hout]; exact hperm) hin h.length_in
          (by rw [hout]; exact h.length_out) h.unset hcases
        exact ⟨t, hcopy, congrArg some hmyds.symm, ht⟩

/-! ### Every call -/

theorem readFromNet_packets (myds : MysqlDataStream) (recv : List Byte) :
    (myds.readFromNet recv).1.input.mypkt = myds.input.mypkt ∧ (myds.readFromNet recv).1.output =
    myds.output := by
  unfold MysqlDataStream.readFromNet
  split <;> exact ⟨rfl, rfl⟩

theorem writeToNet_packets (myds : MysqlDataStream) (r : Int) :
    (myds.writeToNet r).1.input = myds.input ∧ (myds.writeToNet r).1.output.mypkt = myds.output.mypkt ∧
      (myds.writeToNet r).1.output.pkts = myds.output.pkts ∧
      (myds.writeToNet r).1.output.partialLen = myds.output.partialLen := by
  unfold MysqlDataStream.writeToNet
  split
  · exact ⟨rfl, rfl, rfl, rfl⟩
  · split <;> exact ⟨rfl, rfl, rfl, rfl⟩

theorem Sound.step {e : StreamCall} (hstep : Step s e t) (h : s.Sound) : t.Sound := by
  cases e with
  | readFromNet recv =>
    simp only [Step, call] at hstep
    split at hstep
    case isTrue =>
      cases hstep
      obtain ⟨hmypkt, hout⟩ := readFromNet_packets s.myds recv
      exact h.frame hmypkt (readFromNet_pkts ..) (by rw [hout]) (by rw [hout]) (by rw [hout])
    case isFalse => cases hstep
  | buffer2array fill =>
    cases hstep
    exact h.buffer2array fill
  | array2buffer =>
    obtain ⟨t', hcall, -, ht'⟩ := h.array2buffer
    obtain rfl := some.inj (hcall.symm.trans hstep)
    exact ht'
  | writeToNet r =>
    simp only [Step, call] at hstep
    split at hstep
    case isTrue =>
      cases hstep
      obtain ⟨hin, hmypkt, hpkts, hpartial⟩ := writeToNet_packets s.myds r
      exact h.frame (by rw [hin]) (by rw [hin]) hmypkt hpkts hpartial
    case isFalse => cases hstep
  | makePkt p =>
    cases hstep
    refine ⟨(h.owns.alloc p.length).perm ?_, h.length_in, h.length_out, h.unset, h.atWork⟩
    rw [perm_iff_count]
    intro y
    simp only [owned, map_cons, count_append, count_cons]
    omega
  | removeIn i =>
    simp only [Step, call] at hstep
    split at hstep
    case h_1 p d hp hd =>
      cases hstep
      have hperm := pktsBlocks_eraseIdx hp hd
      refine ⟨h.owns.perm ?_, ?_, h.length_out, h.unset, h.atWork⟩
      · rw [perm_iff_count] at hperm ⊢
        intro y
        have hy := hperm y
        simp only [owned, map_cons, count_append, count_cons] at hy ⊢
        omega
      · simp only [length_eraseIdx, h.length_in]
    case h_2 => cases hstep
  | removeOut i =>
    simp only [Step, call] at hstep
    split at hstep
    case h_1 p d hp hd =>
      cases hstep
      have hperm := pktsBlocks_eraseIdx hp hd
      refine ⟨h.owns.perm ?_, h.length_in, ?_, h.unset, h.atWork⟩
      · rw [perm_iff_count] at hperm ⊢
        intro y
        have hy := hperm y
        simp only [owned, map_cons, count_append, count_cons] at hy ⊢
        omega
      · simp only [length_eraseIdx, h.length_out]
    case h_2 => cases hstep
  | addIn i =>
    obtain ⟨⟨p, d⟩, hget, rfl⟩ := map_eq_some_iff.1 hstep
    have hperm := perm_held hget
    refine ⟨h.owns.perm ?_, ?_, h.length_out, h.unset, h.atWork⟩
    · rw [perm_iff_count] at hperm ⊢
      intro y
      have hy := hperm y
      simp only [owned, pktsBlocks_append h.length_in, count_append, count_cons, count_nil] at hy ⊢
      omega
    · simp only [length_append, h.length_in, length_singleton]
  | addOut i =>
    obtain ⟨⟨p, d⟩, hget, rfl⟩ := map_eq_some_iff.1 hstep
    have hperm := perm_held hget
    refine ⟨h.owns.perm ?_, h.length_in, ?_, h.unset, h.atWork⟩
    · rw [perm_iff_count] at hperm ⊢
      intro y
      have hy := hperm y
      simp only [owned, MysqlDataStream.addOut, pktsBlocks_append h.length_out, count_append, count_cons,
        count_nil] at hy ⊢
      omega
    · simp only [MysqlDataStream.addOut, length_append, h.length_out, length_singleton]
  | freePkt i =>
    obtain ⟨⟨p, d⟩, hget, hstep⟩ := bind_eq_some_iff.1 hstep
    obtain ⟨heap, hfree, rfl⟩ := map_eq_some_iff.1 hstep
    have hperm := perm_held hget
    have howns : s.heap.Owns ((p.length, d) :: { s with heap, held := s.held.eraseIdx i }.owned) := by
      refine h.owns.perm ?_
      rw [perm_iff_count] at hperm ⊢
      intro y
      have hy := hperm y
      simp only [owned, count_append, count_cons] at hy ⊢
      omega
    obtain ⟨heap', hfree', howns⟩ := howns.free
    obtain rfl := some.inj (hfree'.symm.trans hfree)
    exact ⟨howns, h.length_in, h.length_out, h.unset, h.atWork⟩

/-! ## Deleting the stream -/

theorem deleteFrees_held (s : TrackedStream) (h : ∀ p, s.myds.input.mypkt = some p → p.length ≠ 0) :
    s.owned = s.deleteFrees ++ s.held.map fun x => (x.1.length, x.2) := by
  have hmypkt : s.myds.input.mypkt.filter (fun p => p.length != 0) = s.myds.input.mypkt := by
    cases hp : s.myds.input.mypkt with
    | none => rfl
    | some p => exact filter_some_pos (by simp [h p hp])
  rw [owned, deleteFrees, hmypkt]

/-- The frees of `mysql_data_stream_delete` all name a live block of the length it was allocated with, each
    another one, exactly if the stream is not at work on a packet whose header has not arrived. -/
theorem Sound.delete_iff (h : s.Sound) :
    s.mysqlDataStreamDelete.isSome ↔ ∀ p, s.myds.input.mypkt = some p → p.length ≠ 0 := by
  rw [mysqlDataStreamDelete, Lib.Heap.freeAll_isSome_iff]
  constructor
  · intro howns p hp hzero
    have hmem : (p.length, s.inData) ∈ s.deleteFrees := by
      simp [deleteFrees, hp]
    obtain ⟨b, hb, -⟩ := howns.2 _ hmem
    rw [h.unset p hp hzero] at hb
    cases hb
  · intro hlength
    refine h.owns.subperm ?_
    rw [deleteFrees_held s hlength]
    exact (sublist_append_left ..).subperm

end TrackedStream

/-- After any calls on a stream, `mysql_data_stream_delete` frees only what was allocated, with the length
    it was allocated with and once, exactly if the stream is not at work on a packet whose header has not
    arrived. -/
theorem streamDelete_frees_iff {fill : Nat → Byte} {netBufferSize : Nat} {fd : Int} {heap : Lib.Heap}
    {calls : List StreamCall} {s : TrackedStream}
    (hrun : Run TrackedStream.Step (TrackedStream.new fill netBufferSize fd heap) calls s) :
    s.mysqlDataStreamDelete.isSome ↔ ∀ p, s.myds.input.mypkt = some p → p.length ≠ 0 := by
  have hsound : s.Sound := hrun.invariant (P := TrackedStream.Sound) (fun _ _ _ => TrackedStream.Sound.step)
    (TrackedStream.sound_new ..)
  exact hsound.delete_iff

/-- The first bytes of a packet have arrived, with its header, when the stream is deleted. -/
theorem streamDelete_frees_iff_cut_body :
    ∃ s, Run TrackedStream.Step (.new (fun _ => 0) 16 5 Lib.Heap.empty)
        [.readFromNet [0x03, 0x00, 0x00, 0x00, 0x0e], .buffer2array fun _ => 0] s ∧
      s.deleteFrees = [(7, some 0)] ∧ s.mysqlDataStreamDelete.isSome := by
  obtain ⟨s, hrun, hfrees, hlength⟩ :=
    Run.exists_exec TrackedStream.call (.new (fun _ => 0) 16 5 Lib.Heap.empty)
    [.readFromNet [0x03, 0x00, 0x00, 0x00, 0x0e], .buffer2array fun _ => 0] (R := TrackedStream.Step)
    (P := fun s => s.deleteFrees = [(7, some 0)] ∧ s.myds.input.mypkt.map Pkt.length = some 7)
    (fun _ _ _ => id) (by decide +kernel)
  refine ⟨s, hrun, hfrees, (streamDelete_frees_iff hrun).2 fun p hp => ?_⟩
  rw [hp] at hlength
  rw [some.inj hlength]
  decide

/-- One byte of a header has arrived when the stream is deleted: the free is of a pointer that was never
    set. -/
theorem streamDelete_frees_unset :
    ∃ s, Run TrackedStream.Step (.new (fun _ => 0) 16 5 Lib.Heap.empty)
        [.readFromNet [0x01], .buffer2array fun _ => 0] s ∧
      s.deleteFrees = [(0, none)] ∧ s.mysqlDataStreamDelete.isNone := by
  exact Run.exists_exec TrackedStream.call _ _ (fun _ _ _ => id) (by decide +kernel)

end ProxySQL
