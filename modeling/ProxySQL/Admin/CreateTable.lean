/-
  ProxySQL.Admin.CreateTable

  SHOW CREATE TABLE becomes a query of the catalogue.

  The name of the table is not terminated in the packet.  `snprintf` prints it, with
  whatever follows it in memory up to a terminator, into a buffer that is one byte
  too short for the closing quote; what does not fit is cut off, and the last byte of
  the buffer, where the terminator is, becomes the quote.  `Admin.Commands` has the
  text that results; here every write is checked against the size of its buffer, and
  the text is what it should be for every name and every memory behind the packet
  (`showCreateTable_rewritten`).
-/
import ProxySQL.Admin.Commands

namespace ProxySQL

open Lib List

/-- The replacement of SHOW CREATE TABLE; `none` is a write outside of a buffer. -/
def replaceCreateTable (fill beyond : Nat → Byte) (p : Pkt) : Option Pkt := do
  let l := selectCreateTable.length + 3 + p.length - sizeofMysqlHdr - 1 - showCreateTable.length - 2
  let name := (List.range l).map fun i => p.mem beyond (sizeofMysqlHdr + 1 + showCreateTable.length + i)
  let buff ← store (List.replicate l 0) 0
    (snprintf 0 l (selectCreateTable ++ name.takeWhile (· ≠ 0) ++ bytesOf "'"))
  let buff ← store buff (l - 1) (bytesOf "'")
  let data ← store (lAlloc fill (l + sizeofMysqlHdr + 1)) sizeofMysqlHdr [BitVec.ofNat 8 mysqlComQuery]
  let data ← store data (sizeofMysqlHdr + 1) buff
  return { length := l + sizeofMysqlHdr + 1, data := data }

theorem overwrite_snprintf {n : Nat} (hn : n ≠ 0) (text : Str) :
    overwrite (List.replicate n 0) 0 (snprintf 0 n text) = overwrite (List.replicate n 0) 0
      (text.take (n - 1)) := by
  have hlt : (text.take (n - 1)).length < n := by
    rw [length_take]
    omega
  rw [snprintf, if_neg hn]
  simp only [overwrite, take_zero, nil_append, Nat.zero_add, length_append, length_singleton,
    drop_replicate, append_assoc, append_cancel_left_eq]
  rw [show n - (text.take (n - 1)).length = n - ((text.take (n - 1)).length + 1) + 1 by omega,
    replicate_succ]
  rfl

/-- No write is outside of its buffer, and the packet is the one of `admin_COM_QUERY`. -/
theorem replaceCreateTable_eq (fill beyond : Nat → Byte) {p : Pkt}
    (hp : sizeofMysqlHdr + 1 + showCreateTable.length ≤ p.length) :
    replaceCreateTable fill beyond p = some (adminQueryPkt fill (createTableQuery beyond p)) := by
  unfold replaceCreateTable createTableQuery
  have hl : selectCreateTable.length + 3 + p.length - sizeofMysqlHdr - 1 - showCreateTable.length - 2 ≠
    0 := by omega
  generalize selectCreateTable.length + 3 + p.length - sizeofMysqlHdr - 1 - showCreateTable.length -
    2 = l at hl
  dsimp only
  generalize selectCreateTable ++ _ ++ bytesOf "'" = text
  have hquote : (bytesOf "'").length = 1 := by decide
  have hbuff : (overwrite (List.replicate l 0) 0 (text.take (l - 1))).length = l := by
    rw [length_overwrite, length_replicate]
    rw [length_take, length_replicate]
    omega
  have hprinted : store (List.replicate l 0) 0 (snprintf 0 l text)
      = some (overwrite (List.replicate l 0) 0 (text.take (l - 1))) := by
    rw [← overwrite_snprintf hl]
    refine store_eq ?_
    rw [Nat.zero_add, length_replicate]
    exact length_snprintf_le 0 l text
  have hroom : l - 1 + (bytesOf "'").length ≤
    (overwrite (List.replicate l 0) 0 (text.take (l - 1))).length := by
    rw [hquote, hbuff]
    omega
  have hblock : (lAlloc fill (l + sizeofMysqlHdr + 1)).length = l + sizeofMysqlHdr + 1 := length_lAlloc ..
  have hcommand : sizeofMysqlHdr + [BitVec.ofNat 8 mysqlComQuery].length ≤
    (lAlloc fill (l + sizeofMysqlHdr + 1)).length := by
    rw [hblock, length_singleton]
    omega
  have hlength : (overwrite (overwrite (List.replicate l 0) 0 (text.take (l - 1))) (l - 1)
    (bytesOf "'")).length = l := by
    rw [length_overwrite hroom, hbuff]
  rw [hprinted, Option.bind_eq_bind, Option.bind_some, store_eq hroom, Option.bind_some, store_eq hcommand,
    Option.bind_some, store_eq, Option.bind_some, adminQueryPkt, hlength]
  · rfl
  · rw [hlength, length_overwrite hcommand, hblock]
    omega

/-- The name in front of what else is in memory is what `snprintf` has room for. -/
theorem createTableQuery_eq (beyond : Nat → Byte) {p : Pkt} {text name : Str} (hwf : p.WF)
    (hquery : p.query = text ++ name) (htext : text.length = showCreateTable.length) (hname : 0 ∉ name) :
    createTableQuery beyond p = selectCreateTable ++ name ++ bytesOf "'" := by
  have hlength := Pkt.length_query hwf
  rw [hquery, length_append, htext] at hlength
  have hpos : 0 < showCreateTable.length := by decide +kernel
  have hl : selectCreateTable.length + 3 + p.length - sizeofMysqlHdr - 1 - showCreateTable.length - 2
      = selectCreateTable.length + name.length + 1 := by omega
  -- what `snprintf` finds behind the text
  have hmem : ∃ rest, (List.range (selectCreateTable.length + name.length + 1)).map (fun i =>
      p.mem beyond (sizeofMysqlHdr + 1 + showCreateTable.length + i)) = name ++ rest := by
    refine ⟨(List.range (selectCreateTable.length + 1)).map fun i =>
      p.mem beyond (sizeofMysqlHdr + 1 + showCreateTable.length + (name.length + i)), ?_⟩
    rw [show selectCreateTable.length + name.length + 1 =
      name.length + (selectCreateTable.length + 1) by omega, range_add, map_append, map_map]
    refine congrArg₂ (· ++ ·) ?_ rfl
    refine ext_getElem (by rw [length_map, length_range]) fun i hi hi' => ?_
    rw [getElem_map, getElem_range, Nat.add_assoc]
    refine Pkt.mem_of_query ?_
    rw [hquery, getElem?_append_right (by omega), htext, Nat.add_sub_cancel_left, getElem?_eq_getElem hi']
  obtain ⟨rest, hrest⟩ := hmem
  have hprinted : (selectCreateTable ++ (name ++ rest).takeWhile (· ≠ 0) ++ bytesOf "'").take
      (selectCreateTable.length + name.length) = selectCreateTable ++ name := by
    have hall : ∀ b ∈ name, decide (b ≠ 0) = true :=
      fun b hb => decide_eq_true (ne_of_mem_of_not_mem hb hname)
    rw [takeWhile_append_of_pos hall, append_assoc, append_assoc, ← append_assoc,
      take_left' (by rw [length_append])]
  unfold createTableQuery
  rw [hl]
  dsimp only
  rw [hrest, Nat.add_sub_cancel, hprinted]
  -- the last byte is the only one that is not printed
  have hbuff : overwrite (List.replicate (selectCreateTable.length + name.length + 1) 0) 0
      (selectCreateTable ++ name) = selectCreateTable ++ name ++ [0] := by
    simp only [overwrite, take_zero, nil_append, Nat.zero_add, length_append, drop_replicate]
    rw [Nat.add_sub_cancel_left]
    rfl
  rw [hbuff, ← append_nil (selectCreateTable ++ name ++ [0]),
    overwrite_middle (by rw [length_append]) (by decide), append_nil]

theorem adminQueryPkt_command (fill beyond : Nat → Byte) (q : Str) :
    (adminQueryPkt fill q).mem beyond sizeofMysqlHdr = BitVec.ofNat 8 mysqlComQuery := by
  have hblock : (lAlloc fill (q.length + sizeofMysqlHdr + 1)).length = q.length + sizeofMysqlHdr + 1 :=
    length_lAlloc ..
  have hcommand : (overwrite (lAlloc fill (q.length + sizeofMysqlHdr + 1)) sizeofMysqlHdr
      [BitVec.ofNat 8 mysqlComQuery]).length = q.length + sizeofMysqlHdr + 1 := by
    rw [length_overwrite (by rw [hblock, length_singleton]; omega), hblock]
  have hget : (adminQueryPkt fill q).data[sizeofMysqlHdr]? = some (BitVec.ofNat 8 mysqlComQuery) := by
    unfold adminQueryPkt
    dsimp only
    generalize lAlloc fill (q.length + sizeofMysqlHdr + 1) = block at hblock hcommand
    rw [overwrite, append_assoc, getElem?_append_left (by rw [length_take, hcommand]; omega),
      getElem?_take_of_lt (Nat.lt_succ_self _), overwrite, append_assoc,
      getElem?_append_right (by rw [length_take]; omega), length_take, hblock,
      Nat.min_eq_left (by omega), Nat.sub_self]
    rfl
  rw [Pkt.mem, getD_eq_getElem?_getD, hget, Option.getD_some]

/-- A SELECT in capitals is not taken for the query for the version. -/
theorem not_versionComment_of_select {p : Pkt} {beyond : Nat → Byte} (hwf : p.WF)
    (h : bytesOf "SE" <+: p.query) : p.queryIs id beyond selectVersionComment = false := by
  have hapart : Apart (bytesOf "SE") selectVersionComment := by decide +kernel
  rw [← Bool.not_eq_true, Pkt.isVersionComment_iff hwf]
  rintro (heq | hmistaken)
  · exact hapart.1 (heq ▸ h)
  · rw [Mistaken, map_id, map_id] at hmistaken
    rcases hmistaken with ⟨hcut, -⟩ | hlong
    · exact hapart.1 (h.trans hcut)
    · exact hapart.not_prefix h ((prefix_append _ _).trans hlong)

/-- SHOW CREATE TABLE in any case and any name without a terminator, whatever is behind the packet: no write
    is outside of its buffer, the new packet has the query of the catalogue for exactly that name and is as
    long as the query and five bytes, and this is what SQLite gets. -/
theorem showCreateTable_rewritten (env : AdminEnv) (admin : Nat) {p : Pkt} {text name : Str} (hwf : p.WF)
    (hquery : p.query = text ++ name) (htext : SameText text showCreateTable) (hname : 0 ∉ name) :
    ∃ p', replaceCreateTable env.fillCreate env.beyond p = some p' ∧
      p'.query = selectCreateTable ++ name ++ bytesOf "'" ∧
      p'.length = (selectCreateTable ++ name ++ bytesOf "'").length + 5 ∧ p'.data.length = p'.length ∧
      p'.mem env.beyond sizeofMysqlHdr = BitVec.ofNat 8 mysqlComQuery ∧
      adminComQueryOutcome env admin p =
        { showTables := false, showCreateTable := true,
          action := .sqlite (selectCreateTable ++ name ++ bytesOf "'") } := by
  have hlength : text.length = showCreateTable.length := by simpa using congrArg List.length htext
  have hpre : showCreateTable.map toLower <+: p.query.map toLower := by
    rw [hquery, map_append, ← htext]
    exact prefix_append _ _
  have hp : sizeofMysqlHdr + 1 + showCreateTable.length ≤ p.length := by
    have hq := Pkt.length_query hwf
    have hpos : 0 < showCreateTable.length := by decide +kernel
    rw [hquery, length_append, hlength] at hq
    omega
  have htables : p.queryIs toLower env.beyond AdminCommand.showTables.text = false := by
    rw [← Bool.not_eq_true, Pkt.isCommand_iff hwf]
    rintro (hsame | hmistaken)
    · exact AdminCommand.showTables.apart_showCreateTable.2 (hsame ▸ hpre)
    · exact hmistaken.other.showCreate hpre
  have hcreate : p.isShowCreateTable env.beyond = true := Pkt.isShowCreateTable_iff.2 (.inl hpre)
  have hquery' := createTableQuery_eq env.beyond hwf hquery hlength hname
  have hwf' := adminQueryPkt_wf env.fillCreate (selectCreateTable ++ name ++ bytesOf "'")
  have hselect : bytesOf "SE" <+: createTableQuery env.beyond p :=
    createTableQuery_select (Nat.le_trans (Nat.le_add_right _ _) hp)
  rw [hquery'] at hselect
  -- the new query is a SELECT, which none of the later comparisons finds
  have hversion : (adminQueryPkt env.fillCreate (selectCreateTable ++ name ++ bytesOf "'")).queryIs id
      env.beyond selectVersionComment = false :=
    not_versionComment_of_select hwf' (by rw [adminQueryPkt_query]; exact hselect)
  have hcommand : AdminCommand.inOrder.find? (fun c =>
      (adminQueryPkt env.fillCreate (selectCreateTable ++ name ++ bytesOf "'")).queryIs toLower env.beyond
        c.text) = none := by
    refine find?_eq_none.2 fun c _ => ?_
    rw [Pkt.isCommand_iff hwf', adminQueryPkt_query]
    exact not_command_of_select hselect c
  refine ⟨_, (replaceCreateTable_eq env.fillCreate env.beyond hp).trans (by rw [hquery']),
    adminQueryPkt_query _ _, rfl, hwf'.1, ?_, ?_⟩
  · exact adminQueryPkt_command ..
  · generalize selectCreateTable ++ name ++ bytesOf "'" = q at hquery' hversion hcommand
    simp [adminComQueryOutcome, htables, hcreate, hquery', hversion, hcommand]

/-- A name of one letter, in a packet with letters behind it. -/
theorem showCreateTable_rewritten_lower :
    ∃ p', replaceCreateTable (fun _ => 0) (fun _ => 0x78)
        { length := 24, data := [20, 0, 0, 0, 3] ++ bytesOf "show create table t" } = some p' ∧
      p'.query = bytesOf
        "SELECT name AS 'table' , sql AS 'Create Table' FROM sqlite_master WHERE type='table' AND name='t'" := by
  have hquery : ({ length := 24, data := [20, 0, 0, 0, 3] ++ bytesOf "show create table t" } : Pkt).query
      = bytesOf "show create table " ++ bytesOf "t" := by decide +kernel
  have htext : SameText (bytesOf "show create table ") showCreateTable := by
    rw [SameText]
    decide +kernel
  obtain ⟨p', hreplace, hquery', -⟩ := showCreateTable_rewritten
    { beyond := fun _ => 0x78, fillTables := fun _ => 0, beyondTables := fun _ => 0,
      fillCreate := fun _ => 0 } 1
    (by decide +kernel) hquery htext (by decide)
  exact ⟨p', hreplace, hquery'.trans (by decide +kernel)⟩

end ProxySQL
