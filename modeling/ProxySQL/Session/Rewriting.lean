/-
  ProxySQL.Session.Rewriting

  The rules that rewrite a query.

  `process_query_rules` counts a hit for every rule that matches and rebuilds the
  packet for every rule that replaces the text, one after the other.  The length
  of the rebuilt packet is read back from the 24 bits of its header, while the text
  is copied as a whole.  So a packet has room for its text exactly if the text and
  the command byte can be counted in 24 bits (`rewrites_roomFor_iff`).

  The loop is repeated here with a log of its hits and rewrites
  (`runRulesLogged`); without the log it is the loop (`runRulesLogged_erases`).
-/
import ProxySQL.Net.Input
import ProxySQL.Session.Destination
import ProxySQL.Session.ParseBounds

namespace ProxySQL

open Lib List

/-! ## The loop with a log -/

/-- What the loop of `process_query_rules` does beside its bookkeeping. -/
inductive RuleAction where
  /-- `hits` of the rule with this index grows -/
  | hit (rule : Nat)
  /-- `mysql_new_payload_select` was called with this C string and led to this state -/
  | rewritten (text : Str) (st : RuleState)

/-- The text that a rule replaces the query by, with the state that this leads to. -/
def QueryRule.rewrites (qr : QueryRule) (fill : Nat → Byte) (st : RuleState) : List RuleAction :=
  match qr.replace with
  | none => []
  | some f =>
      match f st.info.query, qr.rewrite fill st with
      | some newQuery, some st => [.rewritten (upToNul newQuery) st]
      | _, _ => []

/-- The loop from the rule with index `i` on, and what it does up to its end or its fault. -/
def runRulesLogged (s : Session) (fill : Nat → Byte) :
    Nat → List QueryRule → RuleState → Except Fault RuleState × List RuleAction
  | _, [], st => (.ok st, [])
  | i, qr :: rules, st =>
      match qr.applies s st with
      | .error e => (.error e, [])
      | .ok false => runRulesLogged s fill (i + 1) rules st
      | .ok true =>
          let rest :=
            match qr.rewrite fill st with
            | none => runRulesLogged s fill (i + 1) rules st
            | some st =>
                let st := qr.set st
                if st.info.cacheTtl ≠ 0 then (.ok st, []) else runRulesLogged s fill (i + 1) rules st
          (rest.1, .hit i :: (qr.rewrites fill st ++ rest.2))

section Log

variable {s : Session} {fill : Nat → Byte} {rules : List QueryRule} {st : RuleState}

/-- Without its log, the loop is that of `process_query_rules`. -/
theorem runRulesLogged_erases (i : Nat) :
    (runRulesLogged s fill i rules st).1 = runRules s fill rules st := by
  induction rules generalizing i st with
  | nil => rfl
  | cons qr rules ih =>
    rw [runRulesLogged, runRules]
    cases qr.applies s st with
    | error e => rfl
    | ok applies =>
      rw [except_ok_bind]
      cases applies with
      | false => exact ih (i + 1)
      | true =>
        cases qr.rewrite fill st with
        | none => exact ih (i + 1)
        | some st' =>
          dsimp only
          split
          · rfl
          · exact ih (i + 1)

theorem runRulesLogged_log {P : RuleAction → Prop} (hhit : ∀ i, P (.hit i))
    (hrewrites : ∀ (qr : QueryRule) st, ∀ a ∈ qr.rewrites fill st, P a) (i : Nat) :
    ∀ a ∈ (runRulesLogged s fill i rules st).2, P a := by
  induction rules generalizing i st with
  | nil => exact fun a ha => nomatch ha
  | cons qr rules ih =>
    rw [runRulesLogged]
    cases qr.applies s st with
    | error e => exact fun a ha => nomatch ha
    | ok applies =>
      cases applies with
      | false => exact ih (i + 1)
      | true =>
        intro a ha
        rcases mem_cons.1 ha with rfl | ha
        · exact hhit i
        rcases mem_append.1 ha with ha | ha
        · exact hrewrites qr st a ha
        -- the rest of the loop, if it is not left for a rule that sets `cache_ttl`
        cases hrewrite : qr.rewrite fill st with
        | none =>
          rw [hrewrite] at ha
          exact ih (i + 1) a ha
        | some st' =>
          rw [hrewrite] at ha
          dsimp only at ha
          split at ha
          · cases ha
          · exact ih (i + 1) a ha

end Log

/-! ## Rebuilt packets -/

/-- The packet has room for the text, its header says so, and the query is the text. -/
structure RoomFor (text : Str) (st : RuleState) : Prop where
  length : st.p.length = text.length + 5
  header : (MysqlHdr.ofBytes st.p.data).pktLength.toNat = st.p.length - 4
  inside : sizeofMysqlHdr + 1 + text.length ≤ st.p.length
  query : st.info.query = text

/-- The text with its command byte can be counted in 24 bits. -/
def Countable (text : Str) : Prop := text.length + 1 < 2 ^ 24

section Built

variable (fill : Nat → Byte) {payload text : Str}

theorem mysqlNewPayloadSelect_length (htext : upToNul payload = text) (h : Countable text) :
    (mysqlNewPayloadSelect fill payload).length = text.length + 5 := by
  unfold mysqlNewPayloadSelect
  dsimp only
  rw [htext, BitVec.toNat_ofNat, Nat.mod_eq_of_lt h, sizeofMysqlHdr]

/-- The copy is not cut where the block ends. -/
theorem mysqlNewPayloadSelect_data (htext : upToNul payload = text) :
    (mysqlNewPayloadSelect fill payload).data
      = (MysqlHdr.mk (BitVec.ofNat 24 (text.length + 1)) 0).toBytes ++ 3 :: text := by
  have hlength : (BitVec.ofNat 24 (text.length + 1)).toNat ≤ text.length + 1 := by
    exact Nat.mod_le _ _
  unfold mysqlNewPayloadSelect
  dsimp only
  rw [htext, overwrite_covers, append_assoc]
  · rfl
  · simp [sizeofMysqlHdr]
    omega

end Built

theorem roomFor_rewritten {text : Str} {st st' : RuleState} {qr : QueryRule} {fill : Nat → Byte}
    (h : .rewritten text st' ∈ qr.rewrites fill st) : RoomFor text st' ↔ Countable text := by
  have hst' : ∃ q, upToNul q = text ∧ st'.p = mysqlNewPayloadSelect fill q
      ∧ st'.info.query = queryOf st'.p := by
    unfold QueryRule.rewrites QueryRule.rewrite at h
    cases hreplace : qr.replace with
    | none =>
      rw [hreplace] at h
      cases h
    | some f =>
      rw [hreplace] at h
      dsimp only at h
      cases hf : f st.info.query with
      | none =>
        rw [hf] at h
        cases h
      | some q =>
        rw [hf] at h
        obtain ⟨rfl, rfl⟩ := RuleAction.rewritten.inj (mem_singleton.1 h)
        exact ⟨q, rfl, rfl, rfl⟩
  obtain ⟨q, htext, hp, hquery⟩ := hst'
  constructor
  · intro hroom
    have hlength := hroom.length
    rw [hp, mysqlNewPayloadSelect] at hlength
    dsimp only at hlength
    rw [htext, sizeofMysqlHdr] at hlength
    unfold Countable
    omega
  · intro hcount
    have hlength := mysqlNewPayloadSelect_length fill htext hcount
    have hdata := mysqlNewPayloadSelect_data fill htext
    rw [← hp] at hlength hdata
    have hquery' : queryOf st'.p = text := by
      rw [queryOf, hlength, hdata, sizeofMysqlHdr, append_cons]
      have hfront : ((MysqlHdr.mk (BitVec.ofNat 24 (text.length + 1)) 0).toBytes ++ [3]).length =
        4 + 1 := by simp
      rw [slice, ← hfront, drop_left, take_of_length_le]
      omega
    refine ⟨hlength, ?_, ?_, hquery.trans hquery'⟩
    · rw [hdata, hlength, MysqlHdr.ofBytes_pktLength, MysqlHdr.toBytes]
      rw [append_assoc, take_left' (length_leBytes 3 _),
        leNat_leBytes_of_lt (BitVec.ofNat 24 _).isLt, BitVec.toNat_ofNat, Nat.mod_eq_of_lt hcount]
      omega
    · rw [hlength, sizeofMysqlHdr]
      omega

/-- The packet that a rewrite builds has room for the text exactly if the text and its command byte can be
    counted in 24 bits. -/
theorem rewrites_roomFor_iff (s : Session) (fill : Nat → Byte) (rules : List QueryRule) (st st' : RuleState)
    (text : Str) (h : .rewritten text st' ∈ (runRulesLogged s fill 0 rules st).2) : RoomFor text st' ↔
    Countable text :=
  runRulesLogged_log (P := fun a => ∀ text st', a = .rewritten text st' →
    (RoomFor text st' ↔ Countable text))
    (fun _ _ _ heq => nomatch heq) (fun _ _ _ ha _ _ heq => roomFor_rewritten (heq ▸ ha)) 0 _ h text st' rfl

/-- A rule that replaces every query by a text. -/
def replacing (text : Str) : QueryRule where
  flagIN := 0
  username := none
  schemaname := none
  regexMatch _ := true
  negateMatchPattern := 0
  flagOUT := 0
  replace := some fun _ => some text
  destinationHostgroup := 0
  auditLog := 0
  performanceLog := 0
  cacheTtl := 0

/-- The state of the loop when it starts on a packet. -/
def askingRules (p : Pkt) : RuleState := { flagIN := 0, info := freshInfo p, p := p }

/-- COM_QUERY with the text `a`. -/
def shortQuery : Pkt := { length := 6, data := [0x02, 0x00, 0x00, 0x00, 0x03, 0x61] }

theorem replacing_rewrites (text : Str) (h : upToNul text = text) : ∃ st' : RuleState,
    .rewritten text st' ∈ (replacing text).rewrites (fun _ => 0) (askingRules shortQuery) ∧
      .rewritten text st' ∈
        (runRulesLogged newSession (fun _ => 0) 0 [replacing text] (askingRules shortQuery)).2 := by
  have hmem : ∃ st', .rewritten text st' ∈ (replacing text).rewrites (fun _ => 0)
    (askingRules shortQuery) :=
    ⟨_, mem_singleton.2 (congrArg (RuleAction.rewritten · _) h.symm)⟩
  obtain ⟨st', hst'⟩ := hmem
  exact ⟨st', hst', mem_cons_of_mem _ (mem_append_left _ hst')⟩

theorem rewrites_roomFor_short : ∃ st' : RuleState,
    .rewritten [0x62] st' ∈ (runRulesLogged newSession (fun _ => 0) 0 [replacing [0x62]]
      (askingRules shortQuery)).2 ∧ RoomFor [0x62] st' := by
  obtain ⟨st', -, h⟩ := replacing_rewrites [0x62] (by decide)
  have hcount : Countable [0x62] := by
    show 1 + 1 < 2 ^ 24
    omega
  exact ⟨st', h, (rewrites_roomFor_iff _ _ _ _ _ _ h).2 hcount⟩

/-- A rule replaces a query of one byte by 2²⁴ − 1 bytes; the packet has room for its header only. -/
theorem rewrites_without_room : ∃ st' : RuleState,
    .rewritten (replicate (2 ^ 24 - 1) 0x61) st' ∈
        (runRulesLogged newSession (fun _ => 0) 0 [replacing (replicate (2 ^ 24 - 1) 0x61)]
          (askingRules shortQuery)).2 ∧
      ¬ RoomFor (replicate (2 ^ 24 - 1) 0x61) st' := by
  obtain ⟨st', hrewrites, h⟩ := replacing_rewrites (replicate (2 ^ 24 - 1) 0x61)
    (by rw [upToNul, takeWhile_replicate, if_pos (by decide)])
  refine ⟨st', h, fun hroom => ?_⟩
  have hcount := (roomFor_rewritten hrewrites).1 hroom
  unfold Countable at hcount
  rw [length_replicate] at hcount
  omega

end ProxySQL
