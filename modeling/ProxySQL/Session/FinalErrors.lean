/-
  ProxySQL.Session.FinalErrors

  The error packet before a session ends.

  `authenticate_mysql_client_send_ERR` writes with `write_one_pkt_to_net`, which adds
  the packet to the array, calls `array2buffer` once and then passes the buffer to
  `send` until it is empty.  One call of `array2buffer` moves one packet at most, and
  only as much of it as there is room for; the session is closed right afterwards.
  What is queued on the stream is delivered with the error exactly if there is
  nothing in the array or at work and the error fits into the buffer
  (`finalError_delivered_iff`).

  The bytes that the calls of `send` accept are the list `sent`.
-/
import ProxySQL.Net.Output
import ProxySQL.Session.ChangeUser

namespace ProxySQL

open Lib List Option

/-! ## What goes to `send` -/

/-- The bytes that `send` accepts in the loop of `write_one_pkt_to_net`. -/
def sent : List Int → MysqlDataStream → List Byte
  | rs, myds =>
      if queueData myds.output.queue = 0 ∨ myds.active = false then []
      else
        match rs with
        | [] => []
        | r :: rs =>
            let r := min r (queueData myds.output.queue)
            queueRPtr myds.output.queue r.toNat ++ sent rs (myds.writeToNet r).1

/-- The bytes that `write_one_pkt_to_net` passes to `send`. -/
def sentByWriteOnePkt (myds : MysqlDataStream) (p : Pkt) (send : List Int) : List Byte :=
  match (myds.addOut [p]).array2buffer with
  | none => []
  | some r => sent send r.1

/-- Everything that is on the sending side, in order. -/
def MysqlDataStream.queued (myds : MysqlDataStream) : List Byte :=
  myds.output.queue.contents ++ myds.unsent ++ (myds.output.pkts.map Pkt.data).flatten

/-- The packet with the final error. -/
def errPkt : Pkt := createErrPacket 2 1045 accessDenied

theorem errPkt_wf : errPkt.WF := by decide

/-! ## The loop -/

section Loop

variable {myds t : MysqlDataStream} {send : List Int} {r : Int}

/-- The loop is left. -/
abbrev Stopped (myds : MysqlDataStream) : Prop := queueData myds.output.queue = 0 ∨ myds.active = false

theorem writeAll_of_stopped (h : Stopped myds) (send : List Int) :
    writeAll send myds = .ok (myds, false) ∧ sent send myds = [] := by
  unfold writeAll sent
  exact ⟨if_pos h, if_pos h⟩

theorem sent_cons (h : ¬Stopped myds) :
    sent (r :: send) myds = queueRPtr myds.output.queue (min r (queueData myds.output.queue)).toNat ++
      sent send (myds.writeToNet (min r (queueData myds.output.queue))).1 := by
  conv_lhs => unfold sent
  exact if_neg h

theorem writeAll_cons (h : ¬Stopped myds) {failed : Bool}
    (hall : writeAll (r :: send) myds = .ok (t, failed)) :
    ∃ failed', writeAll send (myds.writeToNet (min r (queueData myds.output.queue))).1 =
    .ok (t, failed') := by
  unfold writeAll at hall
  rw [if_neg h] at hall
  obtain ⟨w, hw, hret⟩ := except_bind_eq_ok.1 hall
  cases hret
  exact ⟨w.2, hw⟩

/-- One `send` takes its bytes off the front of the buffer, or shuts the stream. -/
theorem writeToNet_sent (hwf : myds.OutputWF) (hr : r ≤ queueData myds.output.queue) :
    (myds.writeToNet r).1.OutputWF ∧
      myds.output.queue.contents
        = queueRPtr myds.output.queue r.toNat ++ (myds.writeToNet r).1.output.queue.contents ∧
      (myds.writeToNet r).1.output.pkts = myds.output.pkts ∧
      ((myds.writeToNet r).1.active = true → myds.active = true) := by
  rcases Int.lt_or_le r 0 with hneg | hpos
  · have hshut : (myds.writeToNet r).1 = myds ∨ (myds.writeToNet r).1 = myds.shutSoft := by
      unfold MysqlDataStream.writeToNet
      by_cases hzero : queueData myds.output.queue = 0
      · exact .inl (by rw [if_pos hzero])
      · exact .inr (by rw [if_neg hzero, if_pos hneg])
    have hnone : queueRPtr myds.output.queue r.toNat = [] := by
      rw [Int.toNat_of_nonpos (by omega)]
      simp [queueRPtr]
    rw [hnone]
    rcases hshut with heq | heq
    · rw [heq]
      exact ⟨hwf, rfl, rfl, id⟩
    · rw [heq]
      exact ⟨⟨hwf.queue, hwf.pkts, hwf.idle, hwf.atWork⟩, rfl, rfl,
        fun h => absurd h (by simp [MysqlDataStream.shutSoft])⟩
  · obtain ⟨n, rfl⟩ := Int.eq_ofNat_of_zero_le hpos
    obtain ⟨hwf', hcontents, -⟩ := hwf.writeToNet (r := n) (by omega)
    refine ⟨hwf', hcontents, ?_⟩
    unfold MysqlDataStream.writeToNet
    split
    · exact ⟨rfl, id⟩
    · exact ⟨rfl, id⟩

/-- A loop that ends passes the front of the buffer to `send`, and all of it if the stream stays active. -/
theorem writeAll_sent {failed : Bool} (hwf : myds.OutputWF) (h : writeAll send myds = .ok (t, failed)) :
    t.OutputWF ∧ myds.output.queue.contents = sent send myds ++ t.output.queue.contents ∧
      t.output.pkts = myds.output.pkts ∧
      (t.active = true → myds.active = true ∧ queueData t.output.queue = 0) := by
  induction send generalizing myds failed with
  | nil =>
    by_cases hstop : Stopped myds
    · obtain ⟨hall, hsent⟩ := writeAll_of_stopped hstop []
      obtain ⟨rfl, -⟩ := Prod.mk.inj (Except.ok.inj (hall.symm.trans h))
      rw [hsent]
      exact ⟨hwf, rfl, rfl, fun hactive => ⟨hactive, hstop.resolve_right (by simp [hactive])⟩⟩
    · unfold writeAll at h
      rw [if_neg hstop] at h
      cases h
  | cons r send ih =>
    by_cases hstop : Stopped myds
    · obtain ⟨hall, hsent⟩ := writeAll_of_stopped hstop (r :: send)
      obtain ⟨rfl, -⟩ := Prod.mk.inj (Except.ok.inj (hall.symm.trans h))
      rw [hsent]
      exact ⟨hwf, rfl, rfl, fun hactive => ⟨hactive, hstop.resolve_right (by simp [hactive])⟩⟩
    · obtain ⟨failed', hrest⟩ := writeAll_cons hstop h
      obtain ⟨hwf', hcontents, hpkts, hactive⟩ :=
        writeToNet_sent hwf (Int.min_le_right r (queueData myds.output.queue))
      obtain ⟨hwft, hcontents', hpkts', hactive'⟩ := ih hwf' hrest
      refine ⟨hwft, ?_, hpkts'.trans hpkts, fun ht => ⟨hactive (hactive' ht).1, (hactive' ht).2⟩⟩
      rw [sent_cons hstop, hcontents, hcontents', append_assoc]

theorem exists_writeAll (hwf : myds.OutputWF) (hactive : myds.active = true) :
    ∃ send t failed, writeAll send myds = .ok (t, failed) ∧ t.active = true := by
  by_cases hzero : queueData myds.output.queue = 0
  · exact ⟨[], myds, false, (writeAll_of_stopped (.inl hzero) []).1, hactive⟩
  · have hstop : ¬(queueData myds.output.queue = 0 ∨ myds.active = false) := by simp [hzero, hactive]
    refine ⟨[queueData myds.output.queue], (myds.writeToNet (queueData myds.output.queue)).1,
      (myds.writeToNet (queueData myds.output.queue)).2 || false, ?_, ?_⟩
    · unfold writeAll
      rw [if_neg hstop]
      dsimp only
      have hempty : Stopped (myds.writeToNet (queueData myds.output.queue)).1 := by
        refine .inl ?_
        rw [MysqlDataStream.writeToNet, if_neg hzero, if_neg (by omega)]
        rw [Int.toNat_natCast, queueData_queueR hwf.queue (Nat.le_refl _), Nat.sub_self]
      rw [Int.min_self, (writeAll_of_stopped hempty []).1]
      rfl
    · rw [MysqlDataStream.writeToNet, if_neg hzero, if_neg (by omega)]
      exact hactive

end Loop

/-! ## One packet at most -/

namespace MysqlDataStream

variable {myds : MysqlDataStream} {p : Pkt} {r : MysqlDataStream × Nat}

theorem copyOut_once (myds : MysqlDataStream) (p : Pkt) :
    (myds.copyOut p).1.pktsSent ≤ myds.pktsSent + 1 ∧ (myds.copyOut p).1.active = myds.active := by
  unfold copyOut
  dsimp only
  split_ifs
  · exact ⟨Nat.le_refl _, rfl⟩
  · exact ⟨Nat.le_succ _, rfl⟩
  · exact ⟨Nat.le_refl _, rfl⟩
  · exact ⟨Nat.le_succ _, rfl⟩

theorem array2buffer_once (h : myds.array2buffer = some r) :
    r.1.pktsSent ≤ myds.pktsSent + 1 ∧ r.1.active = myds.active := by
  unfold array2buffer at h
  split at h
  · cases h
    exact ⟨Nat.le_succ _, rfl⟩
  · split at h
    · split at h
      · cases h
        exact ⟨Nat.le_succ _, rfl⟩
      · cases h
        exact copyOut_once _ _
    · split at h
      · cases h
      · cases h
        exact copyOut_once _ _

theorem OutputWF.addOut (hwf : myds.OutputWF) (hp : p.WF) : (myds.addOut [p]).OutputWF := by
  refine ⟨hwf.queue, fun q hq => ?_, hwf.idle, hwf.atWork⟩
  rcases mem_append.1 hq with hq | hq
  · exact hwf.pkts q hq
  · rw [mem_singleton.1 hq]
    exact hp

theorem array2buffer_alone (hwf : myds.OutputWF) (hp : p.WF) (hmypkt : myds.output.mypkt = none)
    (hpkts : myds.output.pkts = []) (h : (myds.addOut [p]).array2buffer = some r) :
    r.1.pending = [] ↔ p.length ≤ queueAvailable myds.output.queue := by
  have hpartial : myds.output.partialLen = 0 := by
    by_contra hne
    obtain ⟨q, hq, -⟩ := hwf.atWork hne
    rw [hmypkt] at hq
    cases hq
  have hpos : 0 < p.length := Nat.lt_of_lt_of_le (by decide) hp.2
  have hout : (myds.addOut [p]).output.pkts = [p] := by rw [MysqlDataStream.addOut, hpkts, nil_append]
  by_cases hroom : queueAvailable myds.output.queue = 0
  · have hr : (myds.addOut [p]).array2buffer = some (myds.addOut [p], 0) := if_pos hroom
    obtain rfl := some.inj (hr.symm.trans h)
    rw [pending, hout, hroom]
    exact ⟨fun hnil => absurd hnil (by simp), fun hle => absurd hle (by omega)⟩
  · have hr : (myds.addOut [p]).array2buffer =
      some ({ myds with output := { myds.output with pkts := [] } }.copyOut p) := by
      unfold array2buffer
      rw [if_neg (show ¬queueAvailable (myds.addOut [p]).output.queue = 0 from hroom),
        if_pos (show (myds.addOut [p]).output.partialLen = 0 from hpartial), hout]
      rfl
    obtain rfl := some.inj (hr.symm.trans h)
    have hlength : myds.output.partialLen +
      (if queueAvailable myds.output.queue > p.length - myds.output.partialLen then
        p.length - myds.output.partialLen else queueAvailable myds.output.queue) = p.length ↔
          p.length ≤ queueAvailable myds.output.queue := by
      split <;> omega
    rw [← hlength, pending, copyOut]
    by_cases hfits : myds.output.partialLen +
      (if queueAvailable myds.output.queue > p.length - myds.output.partialLen then
        p.length - myds.output.partialLen else queueAvailable myds.output.queue) = p.length
    · rw [if_pos hfits]
      exact ⟨fun _ => hfits, fun _ => rfl⟩
    · rw [if_neg hfits]
      exact ⟨fun hnil => absurd hnil (by simp), fun h => absurd h hfits⟩

/-- With a packet added, one call leaves nothing pending exactly if the packet was alone and fits. -/
theorem array2buffer_drained_iff (hwf : myds.OutputWF) (hp : p.WF)
    (h : (myds.addOut [p]).array2buffer = some r) : r.1.pending = [] ↔
      myds.output.mypkt = none ∧ myds.output.pkts = [] ∧ p.length ≤ queueAvailable myds.output.queue := by
  constructor
  · intro hnil
    obtain ⟨r', bs, moved, hr', -, hemits⟩ := array2buffer_spec (hwf.addOut hp)
    obtain rfl := some.inj (hr'.symm.trans h)
    -- the packets that were pending have all been moved, and one call moves one at most
    have hmoved : moved.length ≤ 1 := by
      have hle := (array2buffer_once h).1
      rw [hemits.pktsSent] at hle
      omega
    have hpending := hemits.pending
    rw [hnil, append_nil] at hpending
    rw [← hpending] at hmoved
    simp only [pending, MysqlDataStream.addOut, length_append, length_singleton, length_toList] at hmoved
    have hmypkt : myds.output.mypkt = none := by
      cases hm : myds.output.mypkt with
      | none => rfl
      | some q => simp [hm] at hmoved
    have hpkts : myds.output.pkts = [] := length_eq_zero_iff.1 (by omega)
    exact ⟨hmypkt, hpkts, (array2buffer_alone hwf hp hmypkt hpkts h).1 hnil⟩
  · rintro ⟨hmypkt, hpkts, hfits⟩
    exact (array2buffer_alone hwf hp hmypkt hpkts h).2 hfits

theorem pending_bytes (myds : MysqlDataStream) :
    (myds.pending.map Pkt.data).flatten = myds.movedPart ++
    (myds.unsent ++ (myds.output.pkts.map Pkt.data).flatten) := by
  rw [pending, movedPart, unsent]
  cases myds.output.mypkt with
  | none => rfl
  | some q =>
    rw [← append_assoc, take_append_drop]
    rfl

theorem unsent_eq_nil_iff (hwf : myds.OutputWF) : myds.unsent = [] ↔ myds.output.mypkt = none := by
  rw [unsent]
  cases hmypkt : myds.output.mypkt with
  | none => exact ⟨fun _ => rfl, fun _ => rfl⟩
  | some q =>
    refine ⟨fun hnil => ?_, fun h => absurd h (some_ne_none q)⟩
    by_cases hpartial : myds.output.partialLen = 0
    · rw [hwf.idle hpartial] at hmypkt
      cases hmypkt
    · obtain ⟨q', hq', hq, hlt⟩ := hwf.atWork hpartial
      obtain rfl := some.inj (hmypkt.symm.trans hq')
      have hle := drop_eq_nil_iff.1 hnil
      rw [hq.1] at hle
      omega

/-- Nothing is pending exactly if everything that was queued, and the new packet, is in the buffer. -/
theorem array2buffer_contents_iff (hwf : myds.OutputWF) (hp : p.WF)
    (h : (myds.addOut [p]).array2buffer = some r) :
    r.1.pending = [] ↔ r.1.output.queue.contents = myds.queued ++ p.data ∧ r.1.output.pkts = [] := by
  obtain ⟨r', bs, moved, hr', hwf', hemits⟩ := array2buffer_spec (hwf.addOut hp)
  obtain rfl := some.inj (hr'.symm.trans h)
  -- what is in the buffer and what is pending is all there was
  have hall : r'.1.output.queue.contents ++ (r'.1.unsent ++ (r'.1.output.pkts.map Pkt.data).flatten)
      = myds.queued ++ p.data := by
    have hbytes := congrArg (fun l => (l.map Pkt.data).flatten) hemits.pending
    rw [map_append, flatten_append, pending_bytes, pending_bytes,
      ← append_assoc (moved.map Pkt.data).flatten, ← hemits.part, append_assoc (myds.addOut [p]).movedPart,
      append_cancel_left_eq] at hbytes
    rw [hemits.contents, append_assoc, ← hbytes, queued]
    simp only [MysqlDataStream.addOut, unsent, map_append, flatten_append, map_singleton,
      flatten_singleton, append_assoc]
  constructor
  · intro hnil
    obtain ⟨hmypkt, hpkts⟩ := append_eq_nil_iff.1 hnil
    rw [hpkts, (unsent_eq_nil_iff hwf').2 (toList_eq_nil_iff.1 hmypkt)] at hall
    exact ⟨by simpa using hall, hpkts⟩
  · rintro ⟨hcontents, hpkts⟩
    rw [hcontents, hpkts] at hall
    have hunsent : r'.1.unsent = [] := by simpa using hall
    rw [pending, hpkts, (unsent_eq_nil_iff hwf').1 hunsent]
    rfl

end MysqlDataStream

/-! ## Delivery -/

theorem writeOnePktToNet_ends {p : Pkt} {send : List Int} {st t : St} :
    Ends (writeOnePktToNet p send) st () t ↔
      ∃ r myds failed, (st.sess.clientMyds.addOut [p]).array2buffer = some r ∧
      writeAll send r.1 = .ok (myds, failed) ∧
        t = { st with sess := { st.sess with
          clientMyds := myds, netFailure := st.sess.netFailure || failed } } := by
  have hstart : Ends (writeOnePktToNet p send) st () t ↔
      Ends (do
        let r ← deref (st.sess.clientMyds.addOut [p]).array2buffer
        let w ← writeAll send r.1
        modifySess fun s => { s with clientMyds := w.1, netFailure := s.netFailure || w.2 } : SessM Unit)
          { st with sess := st.sess.addOut [p] } () t := Iff.rfl
  rw [hstart]
  cases hbuf : (st.sess.clientMyds.addOut [p]).array2buffer with
  | none =>
    refine ⟨fun h => ?_, ?_⟩
    · simp [Ends, deref, outcome_bind] at h
    · rintro ⟨r, -, -, hr, -⟩
      cases hr
  | some r =>
    cases hall : writeAll send r.1 with
    | error e =>
      refine ⟨fun h => ?_, ?_⟩
      · simp [Ends, deref, outcome_bind, hall] at h
      · rintro ⟨r', _, _, hr', hall', -⟩
        cases hr'
        rw [hall] at hall'
        cases hall'
    | ok w =>
      refine ⟨fun h => ⟨r, w.1, w.2, rfl, hall, ?_⟩, ?_⟩
      · simp only [Ends, deref, outcome_bind, hall, outcome_lift, modifySess, outcome_modify, Prod.mk.injEq,
          true_and] at h
        exact h.symm
      · rintro ⟨r', myds, failed, hr', hall', rfl⟩
        cases hr'
        obtain rfl := Except.ok.inj (hall.symm.trans hall')
        simp only [Ends, deref, outcome_bind, hall, outcome_lift, modifySess, outcome_modify]
        rfl

/-- What is queued for the client and then the final error is delivered: whatever `send` returns, if
    `write_one_pkt_to_net` ends with the stream active, all of it has been passed to `send` in order, and
    nothing is left in the array or in the buffer. -/
def FinalErrorDelivered (st : St) : Prop :=
  ∀ send t, Ends (authenticateMysqlClientSendERR send) st () t → t.sess.clientMyds.active = true →
    sentByWriteOnePkt st.sess.clientMyds errPkt send = st.sess.clientMyds.queued ++ errPkt.data ∧
      t.sess.clientMyds.output.pkts = [] ∧ queueData t.sess.clientMyds.output.queue = 0

/-- The final error is delivered exactly if the stream is shut already, so that `write_one_pkt_to_net` says
    so, or if no packet is queued or at work and the error fits into what is free of the buffer. -/
theorem finalError_delivered_iff {st : St} (hwf : st.sess.clientMyds.OutputWF) :
    FinalErrorDelivered st ↔
      st.sess.clientMyds.active = false ∨
        st.sess.clientMyds.output.mypkt = none ∧ st.sess.clientMyds.output.pkts = [] ∧
          errPkt.length ≤ queueAvailable st.sess.clientMyds.output.queue := by
  obtain ⟨r, bs, moved, hbuf, hwfr, -⟩ := MysqlDataStream.array2buffer_spec (hwf.addOut errPkt_wf)
  have hactive : r.1.active = st.sess.clientMyds.active := (MysqlDataStream.array2buffer_once hbuf).2
  have hsent : ∀ send, sentByWriteOnePkt st.sess.clientMyds errPkt send = sent send r.1 := by
    intro send
    rw [sentByWriteOnePkt, hbuf]
  rw [← MysqlDataStream.array2buffer_drained_iff hwf errPkt_wf hbuf,
    MysqlDataStream.array2buffer_contents_iff hwf errPkt_wf hbuf]
  constructor
  · intro h
    cases hact : st.sess.clientMyds.active with
    | false => exact .inl rfl
    | true =>
        refine .inr ?_
        obtain ⟨send, myds, failed, hall, hmyds⟩ := exists_writeAll hwfr (hactive.trans hact)
        obtain ⟨hwft, hcontents, hpkts, -⟩ := writeAll_sent hwfr hall
        obtain ⟨hbytes, hnil, hempty⟩ :=
          h send _ (writeOnePktToNet_ends.2 ⟨r, myds, failed, hbuf, hall, rfl⟩) hmyds
        rw [hcontents, ← hsent, hbytes, hwft.queue.contents_eq_nil hempty, append_nil]
        exact ⟨rfl, hpkts.symm.trans hnil⟩
  · intro h send t hends ht
    obtain ⟨r', myds, failed, hbuf', hall, rfl⟩ := writeOnePktToNet_ends.1 hends
    obtain rfl := some.inj (hbuf.symm.trans hbuf')
    obtain ⟨hwft, hcontents, hpkts, hend⟩ := writeAll_sent hwfr hall
    obtain ⟨hact, hempty⟩ := hend ht
    rcases h with hshut | ⟨hall', hnil⟩
    · rw [← hactive, hact] at hshut
      cases hshut
    · refine ⟨?_, hpkts.trans hnil, hempty⟩
      rw [hwft.queue.contents_eq_nil hempty, append_nil, ← hsent] at hcontents
      rw [← hcontents, hall']

/-- A request to become user `x` and twenty bytes of scramble arrive together; `send` accepts what it
    gets. -/
def changeAndScramble : HandlerEnv :=
  let pkt := frame 0 ([0x11] ++ bytesOf "x" ++ [0, 20] ++ replicate 20 0 ++ bytesOf "d" ++ [0])
  { HandlerEnv.fromClient (pkt ++ frame 1 (replicate 20 0xaa)) with
    client := fun _ =>
      { PktEnv.quiet with freed := fun i => if i < 8 then 0 else pkt.getD i 0, send1 := [1024] } }

/-- A packet of five bytes has been moved into the buffer and two of them are sent; the error fits
    behind the other three. -/
theorem finalError_delivered_queued :
    ∃ myds : MysqlDataStream, myds.output.queue.contents = [0, 0, 3] ∧ FinalErrorDelivered
      { sh := oneServer.sh
        sess := { mysqlSessionNew (fun _ => 0) oneServer.sh.glovars 0 5 with clientMyds := myds } } := by
  obtain ⟨s, hrun, hqueue, hroom⟩ := Run.exists_exec OutputRun.step (OutputRun.init (fun _ => 0) 1024 5)
    [.append ⟨⟨5, [1, 0, 0, 0, 3]⟩, by decide⟩, .array2buffer, .writeToNet 2] (R := OutputStep)
    (P := fun s => s.myds.output.queue.contents = [0, 0, 3] ∧ s.myds.output.mypkt = none ∧
      s.myds.output.pkts = [] ∧ errPkt.length ≤ queueAvailable s.myds.output.queue)
    (fun _ _ _ => id) (by decide +kernel)
  have hinv : s.Inv := hrun.invariant (P := OutputRun.Inv) (fun _ _ _ => OutputRun.step_inv)
    (OutputRun.init_inv ..)
  exact ⟨s.myds, hqueue, (finalError_delivered_iff hinv.wf).2 (.inr hroom)⟩

set_option maxRecDepth 4000 in
/-- A client asks to become user `x` and sends a scramble along: the request for an auth switch is sent, and
    the session is closed with the error packet still in its array. -/
theorem finalError_left_behind :
    ∃ es w s, Run WorldStep oneServer es w ∧ w.sessions[0]? = some s ∧
      s.trace = [.authenticated 0, .dispatched 0x11, .changeUser, .dispatched 0xaa, .authSwitch (-1)] ∧
      s.healthy = false ∧ s.clientMyds.active = true ∧ s.clientMyds.output.pkts = [errPkt] := by
  exact World.exists_session_calls oneServer (login 0 ++ [.handle 0 changeAndScramble]) 0
    (by decide +kernel)

end ProxySQL
