/-
  ProxySQL.Admin.Commands

  How the admin module recognises its commands (`admin_COM_QUERY`).

  A query is compared with the text of each command in turn, as far as the query
  goes.  A query that is a proper prefix of a command is therefore taken for it, the
  empty query for all of them, and so is a query in which a terminator follows the
  text of the command.  Two kinds of queries are replaced first, and the later
  comparisons see the replacement.
-/
import ProxySQL.Lib.CString
import ProxySQL.Session.State

namespace ProxySQL

open Lib List

/-! ## The code -/

/-- `tolower` in the C locale. -/
def toLower (b : Byte) : Byte := if 0x41 ≤ b ∧ b ≤ 0x5a then b + 0x20 else b

/-- The commands of the admin module. -/
inductive AdminCommand where
  | showTables
  | flushQueryCache
  | flushDebug
  | flushUsers
  | flushQueryRules
  | flushDefaultHostgroups
  | flushHostgroups
  | shutdown
  | dumpRuntimeQueryRules
  | dumpRuntimeQueryCache
  | dumpRuntimeDefaultHostgroups
  | configSyncMemToDisk
deriving DecidableEq

namespace AdminCommand

def text : AdminCommand → Str
  | showTables => bytesOf "SHOW TABLES"
  | flushQueryCache => bytesOf "FLUSH QUERY CACHE"
  | flushDebug => bytesOf "FLUSH DEBUG"
  | flushUsers => bytesOf "FLUSH USERS"
  | flushQueryRules => bytesOf "FLUSH QUERY RULES"
  | flushDefaultHostgroups => bytesOf "FLUSH DEFAULT HOSTGROUPS"
  | flushHostgroups => bytesOf "FLUSH HOSTGROUPS"
  | shutdown => bytesOf "SHUTDOWN"
  | dumpRuntimeQueryRules => bytesOf "DUMP RUNTIME QUERY RULES"
  | dumpRuntimeQueryCache => bytesOf "DUMP RUNTIME QUERY CACHE"
  | dumpRuntimeDefaultHostgroups => bytesOf "DUMP RUNTIME DEFAULT HOSTGROUPS"
  | configSyncMemToDisk => bytesOf "CONFIG SYNC TO DISK"

/-- The commands that are compared last, in their order. -/
def inOrder : List AdminCommand :=
  [flushQueryCache, flushDebug, flushUsers, flushQueryRules, flushDefaultHostgroups,
    flushHostgroups, shutdown, dumpRuntimeQueryRules, dumpRuntimeQueryCache, dumpRuntimeDefaultHostgroups,
    configSyncMemToDisk]

end AdminCommand

/-- The query that stands for SHOW TABLES. -/
def selectTables : Str := bytesOf "SELECT name AS tables FROM sqlite_master WHERE type='table'"

def showCreateTable : Str := bytesOf "SHOW CREATE TABLE "

/-- The query that stands for SHOW CREATE TABLE, up to its `%s`. -/
def selectCreateTable : Str :=
  bytesOf "SELECT name AS 'table' , sql AS 'Create Table' FROM sqlite_master WHERE type='table' AND name='"

def selectVersionComment : Str := bytesOf "select @@version_comment limit 1"

/-- Memory around the packet: what is behind the one of the client and behind the one that replaces
    SHOW TABLES, and the contents of the fresh blocks. -/
structure AdminEnv where
  beyond : Nat → Byte
  fillTables : Nat → Byte
  beyondTables : Nat → Byte
  fillCreate : Nat → Byte

/-- The bytes behind the command byte. -/
def Pkt.query (p : Pkt) : List Byte := p.data.drop (sizeofMysqlHdr + 1)

/-- `strncasecmp(text, p->data+sizeof(mysql_hdr)+1, p->length-sizeof(mysql_hdr)-1)==0`, or `strncmp` if
    `fold` does nothing. -/
def Pkt.queryIs (fold : Byte → Byte) (beyond : Nat → Byte) (text : Str) (p : Pkt) : Bool :=
  strnEq fold 0 (p.length - sizeofMysqlHdr - 1) (literal 0 text) fun i =>
    p.mem beyond (sizeofMysqlHdr + 1 + i)

/-- `strncasecmp("SHOW CREATE TABLE ", p->data+sizeof(mysql_hdr)+1, strAl)==0`: as many bytes as the text
    has are compared, whatever the packet has. -/
def Pkt.isShowCreateTable (beyond : Nat → Byte) (p : Pkt) : Bool :=
  strnEq toLower 0 showCreateTable.length (literal 0 showCreateTable) fun i =>
    p.mem beyond (sizeofMysqlHdr + 1 + i)

/-- A new packet for a query.  Nothing is written to its header. -/
def adminQueryPkt (fill : Nat → Byte) (query : Str) : Pkt :=
  let length := query.length + sizeofMysqlHdr + 1
  let data := lAlloc fill length
  let data := overwrite data sizeofMysqlHdr [BitVec.ofNat 8 mysqlComQuery]
  let data := overwrite data (sizeofMysqlHdr + 1) query
  { length := length, data := data }

/-- The text that replaces SHOW CREATE TABLE: `snprintf` into `l` zeroed bytes, of which the last one is
    then set to a quote. -/
def createTableQuery (beyond : Nat → Byte) (p : Pkt) : Str :=
  let l := selectCreateTable.length + 3 + p.length - sizeofMysqlHdr - 1 - showCreateTable.length - 2
  let name := (range l).map fun i => p.mem beyond (sizeofMysqlHdr + 1 + showCreateTable.length + i)
  let printed := selectCreateTable ++ name.takeWhile (· ≠ 0) ++ bytesOf "'"
  overwrite (overwrite (replicate l 0) 0 (printed.take (l - 1))) (l - 1) (bytesOf "'")

/-- What becomes of a query. -/
inductive AdminAction where
  /-- the admin module does something itself -/
  | run (c : AdminCommand)
  | versionComment
  /-- `mysql_pkt_to_sqlite_exec` -/
  | sqlite (query : Str)
deriving DecidableEq

/-- Which of the replacements were made, and what becomes of the query. -/
structure AdminOutcome where
  showTables : Bool
  showCreateTable : Bool
  action : AdminAction
deriving DecidableEq

/-- `admin_COM_QUERY`, up to the handlers. -/
def adminComQueryOutcome (env : AdminEnv) (admin : Nat) (p : Pkt) : AdminOutcome :=
  let tables := p.queryIs toLower env.beyond AdminCommand.showTables.text
  let p := if tables then adminQueryPkt env.fillTables selectTables else p
  let beyond := if tables then env.beyondTables else env.beyond
  let create := p.isShowCreateTable beyond
  let p := if create then adminQueryPkt env.fillCreate (createTableQuery beyond p) else p
  let action :=
    if p.queryIs id beyond selectVersionComment then .versionComment
    else if admin = 1 then
      match AdminCommand.inOrder.find? fun c => p.queryIs toLower beyond c.text with
      | some c => .run c
      | none => .sqlite p.query
    else .sqlite p.query
  { showTables := tables, showCreateTable := create, action := action }

/-! ## The texts -/

/-- The same text up to the case of ASCII letters. -/
def SameText (q text : Str) : Prop := q.map toLower = text.map toLower

/-- The query is not the text but taken for it: it ends too early, or a terminator follows the text. -/
def Mistaken (fold : Byte → Byte) (text q : Str) : Prop :=
  (q.map fold <+: text.map fold ∧ q.length < text.length) ∨ text.map fold ++ [0] <+: q.map fold

instance (fold : Byte → Byte) (text q : Str) : Decidable (Mistaken fold text q) :=
  inferInstanceAs (Decidable (_ ∨ _))

variable {c : AdminCommand} {beyond : Nat → Byte} {o : AdminOutcome}

namespace AdminCommand

theorem mem_all (c : AdminCommand) : c ∈ showTables :: inOrder := by
  cases c <;> decide

/-- The texts have no terminator, none is a prefix of another one, and none goes with the texts that the
    other comparisons look for or with those of the replacements. -/
theorem text_apart : ∀ c ∈ showTables :: inOrder, 0 ∉ c.text.map toLower ∧
    (∀ c' ∈ showTables :: inOrder, c.text.map toLower <+: c'.text.map toLower → c = c') ∧
    Apart (c.text.map toLower) (showCreateTable.map toLower) ∧
    Apart (c.text.map toLower) (selectVersionComment.map toLower) ∧
    Apart (c.text.map toLower) ((bytesOf "SE").map toLower) := by decide +kernel

theorem nul_not_mem_lower (c : AdminCommand) : 0 ∉ c.text.map toLower := (text_apart c c.mem_all).1

theorem nul_not_mem_text (c : AdminCommand) : 0 ∉ c.text := fun hmem =>
  c.nul_not_mem_lower (mem_map.2 ⟨0, hmem, rfl⟩)

theorem eq_of_text_prefix {c' : AdminCommand} (h : c.text.map toLower <+: c'.text.map toLower) : c = c' :=
  (text_apart c c.mem_all).2.1 c' c'.mem_all h

theorem apart_showCreateTable (c : AdminCommand) :
    Apart (c.text.map toLower) (showCreateTable.map toLower) :=
  (text_apart c c.mem_all).2.2.1

theorem apart_selectVersionComment (c : AdminCommand) :
    Apart (c.text.map toLower) (selectVersionComment.map toLower) := (text_apart c c.mem_all).2.2.2.1

theorem apart_select (c : AdminCommand) : Apart (c.text.map toLower) ((bytesOf "SE").map toLower) :=
  (text_apart c c.mem_all).2.2.2.2

end AdminCommand

theorem not_command_of_select {q : Str} (h : bytesOf "SE" <+: q) (c : AdminCommand) :
    ¬(SameText q c.text ∨ Mistaken toLower c.text q) := by
  have hapart := c.apart_select
  have hselect : (bytesOf "SE").map toLower <+: q.map toLower := h.map toLower
  rintro (hsame | ⟨hcut, -⟩ | hlong)
  · exact hapart.2 (hsame ▸ hselect)
  · exact hapart.2 (hselect.trans hcut)
  · exact hapart.not_prefix ((prefix_append _ _).trans hlong) hselect

theorem apart_showCreateTable_selectVersionComment :
    Apart (showCreateTable.map toLower) (selectVersionComment.map toLower) := by decide +kernel

/-! ## The comparisons -/

section Comparisons

variable {p : Pkt} {fold : Byte → Byte} {text : Str} {beyond : Nat → Byte}

theorem Pkt.length_query (hwf : p.WF) : p.query.length = p.length - sizeofMysqlHdr - 1 := by
  rw [Pkt.query, length_drop, hwf.1, Nat.sub_sub]

theorem Pkt.mem_of_query {i : Nat} {b : Byte} (h : p.query[i]? = some b) :
    p.mem beyond (sizeofMysqlHdr + 1 + i) = b := by
  rw [Pkt.query, getElem?_drop] at h
  rw [Pkt.mem, getD_eq_getElem?_getD, h, Option.getD_some]

/-- No difference is found if the query is the text, or is mistaken for it. -/
theorem Pkt.queryIs_iff (hwf : p.WF) (htext : 0 ∉ text) (hfold : fold 0 = 0) :
    p.queryIs fold beyond text = true ↔ p.query.map fold = text.map fold ∨ Mistaken fold text p.query := by
  rw [Pkt.queryIs, ← Pkt.length_query hwf, strnEq_literal_iff htext fun i c hc => Pkt.mem_of_query hc,
    hfold]
  constructor
  · rintro (hcut | hlong)
    · rcases Nat.lt_or_ge p.query.length text.length with hlt | hge
      · exact .inr (.inl ⟨hcut, hlt⟩)
      · exact .inl (hcut.eq_of_length_le (by rwa [length_map, length_map]))
    · exact .inr (.inr hlong)
  · rintro (heq | ⟨hcut, -⟩ | hlong)
    · exact .inl (heq ▸ prefix_rfl)
    · exact .inl hcut
    · exact .inr hlong

theorem Pkt.isCommand_iff (hwf : p.WF) (c : AdminCommand) :
    p.queryIs toLower beyond c.text = true ↔ SameText p.query c.text ∨ Mistaken toLower c.text p.query :=
  Pkt.queryIs_iff hwf c.nul_not_mem_text rfl

theorem Pkt.isVersionComment_iff (hwf : p.WF) :
    p.queryIs id beyond selectVersionComment = true ↔
      p.query = selectVersionComment ∨ Mistaken id selectVersionComment p.query := by
  rw [Pkt.queryIs_iff hwf (by decide +kernel) rfl, map_id, map_id]

/-- The packet is too short for SHOW CREATE TABLE, but what is behind it in memory makes up for it. -/
def Pkt.ShowCreateInMemory (beyond : Nat → Byte) (p : Pkt) : Prop :=
  p.query.length < showCreateTable.length ∧
    (range showCreateTable.length).map (fun i => toLower (p.mem beyond (sizeofMysqlHdr + 1 + i))) =
      showCreateTable.map toLower

theorem Pkt.map_mem_eq (n : Nat) :
    ((range n).map fun i => toLower (p.mem beyond (sizeofMysqlHdr + 1 + i))).take p.query.length =
      (p.query.map toLower).take n := by
  apply ext_getElem?
  intro i
  by_cases hq : i < p.query.length
  · have hb := getElem?_eq_getElem hq
    by_cases hn : i < n
    · simp [hq, hn, Pkt.mem_of_query hb]
    · simp [hn]
  · simp [hq]

theorem Pkt.isShowCreateTable_iff :
    p.isShowCreateTable beyond = true ↔
      showCreateTable.map toLower <+: p.query.map toLower ∨ p.ShowCreateInMemory beyond := by
  rw [Pkt.isShowCreateTable, strnEq_length_iff (by decide +kernel)]
  have htake := @Pkt.map_mem_eq p beyond showCreateTable.length
  rcases Nat.lt_or_ge p.query.length showCreateTable.length with hlt | hge
  · refine ⟨fun h => .inr ⟨hlt, h⟩, fun h => h.elim (fun hpre => ?_) fun h => h.2⟩
    have hle := hpre.length_le
    rw [length_map, length_map] at hle
    omega
  · rw [take_of_length_le (by simpa using hge)] at htake
    rw [htake]
    constructor
    · intro h
      exact .inl (h ▸ take_prefix _ _)
    · rintro (hpre | ⟨hlt, -⟩)
      · have heq := prefix_iff_eq_take.1 hpre
        rw [length_map] at heq
        exact heq.symm
      · omega

/-- A query that is too short is a prefix of SHOW CREATE TABLE then. -/
theorem Pkt.ShowCreateInMemory.prefix_text (h : p.ShowCreateInMemory beyond) :
    p.query.map toLower <+: showCreateTable.map toLower := by
  obtain ⟨hlt, heq⟩ := h
  have htake := @Pkt.map_mem_eq p beyond showCreateTable.length
  have hwhole : (p.query.map toLower).take showCreateTable.length = p.query.map toLower :=
    take_of_length_le (by simpa using hlt.le)
  rw [heq, hwhole] at htake
  rw [← htake]
  exact take_prefix _ _

end Comparisons

/-! ## Packets that replace the query -/

section Replacements

variable (fill : Nat → Byte) (q : Str)

theorem length_adminQueryPkt : (adminQueryPkt fill q).data.length = q.length + sizeofMysqlHdr + 1 := by
  unfold adminQueryPkt
  rw [length_overwrite, length_overwrite, length_lAlloc]
  · simp
  · rw [length_overwrite, length_lAlloc]
    · omega
    · simp

theorem adminQueryPkt_wf : (adminQueryPkt fill q).WF := by
  refine ⟨length_adminQueryPkt fill q, ?_⟩
  show 4 ≤ q.length + 4 + 1
  omega

@[simp] theorem adminQueryPkt_query : (adminQueryPkt fill q).query = q := by
  have hlength : (overwrite (lAlloc fill (q.length + sizeofMysqlHdr + 1)) sizeofMysqlHdr
      [BitVec.ofNat 8 mysqlComQuery]).length = q.length + sizeofMysqlHdr + 1 := by
    rw [length_overwrite (by simp), length_lAlloc]
  unfold adminQueryPkt Pkt.query
  dsimp only
  rw [drop_overwrite (by omega), drop_eq_nil_of_le (by omega), append_nil]

end Replacements

theorem createTableQuery_select {p : Pkt} (hlen : sizeofMysqlHdr + 1 ≤ p.length) :
    bytesOf "SE" <+: createTableQuery beyond p := by
  unfold createTableQuery
  have htext : bytesOf "SE" <+: selectCreateTable ∧
    showCreateTable.length + 2 ≤ selectCreateTable.length := by
    decide +kernel
  obtain ⟨hselect, hlength⟩ := htext
  have hl : 3 ≤ selectCreateTable.length + 3 + p.length - sizeofMysqlHdr - 1 -
    showCreateTable.length - 2 := by
    omega
  generalize selectCreateTable.length + 3 + p.length - sizeofMysqlHdr - 1 - showCreateTable.length -
    2 = l at hl
  dsimp only
  generalize (range l).map (fun i => p.mem beyond (sizeofMysqlHdr + 1 + showCreateTable.length + i)) = name
  have hprinted : bytesOf "SE" <+: (selectCreateTable ++ name.takeWhile (· ≠ 0) ++ bytesOf "'").take
    (l - 1) := by
    rw [prefix_take_iff]
    refine ⟨?_, show 2 ≤ l - 1 by omega⟩
    rw [append_assoc]
    exact hselect.trans (prefix_append _ _)
  -- neither the zeros nor the quote are in front of it
  have hbuff : bytesOf "SE" <+: overwrite (replicate l (0 : Byte)) 0
      ((selectCreateTable ++ name.takeWhile (· ≠ 0) ++ bytesOf "'").take (l - 1)) :=
    hprinted.trans (by rw [overwrite, take_zero, nil_append]; exact prefix_append _ _)
  generalize overwrite (replicate l (0 : Byte)) 0 _ = buff at hbuff
  rw [overwrite, append_assoc]
  exact (prefix_take_iff.2 ⟨hbuff, show 2 ≤ l - 1 by omega⟩).trans (prefix_append _ _)

/-! ## What becomes of a query -/

section Outcome

variable {env : AdminEnv} {p : Pkt}

/-- The query is passed on as it is. -/
def AdminOutcome.unchanged (q : Str) : AdminOutcome :=
  { showTables := false, showCreateTable := false, action := .sqlite q }

theorem outcome_showTables (h : p.queryIs toLower env.beyond AdminCommand.showTables.text = true) :
    adminComQueryOutcome env 1 p =
      { showTables := true, showCreateTable := false, action := .sqlite selectTables } := by
  have hwf := adminQueryPkt_wf env.fillTables selectTables
  -- the replacement is a SELECT, which none of the later comparisons finds
  have htext : bytesOf "SE" <+: selectTables ∧ ¬showCreateTable.map toLower <+: selectTables.map toLower ∧
      ¬selectTables.length < showCreateTable.length ∧ selectTables ≠ selectVersionComment ∧
      ¬Mistaken id selectVersionComment selectTables := by decide +kernel
  obtain ⟨hselect, hnocreate, hlong, hnoversion, hnomistake⟩ := htext
  have hcreate : (adminQueryPkt env.fillTables selectTables).isShowCreateTable env.beyondTables =
    false := by
    rw [← Bool.not_eq_true, Pkt.isShowCreateTable_iff, Pkt.ShowCreateInMemory, adminQueryPkt_query]
    exact not_or.2 ⟨hnocreate, fun hshort => hlong hshort.1⟩
  have hversion : (adminQueryPkt env.fillTables selectTables).queryIs id env.beyondTables
    selectVersionComment = false := by
    rw [← Bool.not_eq_true, Pkt.isVersionComment_iff hwf, adminQueryPkt_query]
    exact not_or.2 ⟨hnoversion, hnomistake⟩
  have hcommand : AdminCommand.inOrder.find? (fun c =>
      (adminQueryPkt env.fillTables selectTables).queryIs toLower env.beyondTables c.text) = none := by
    refine find?_eq_none.2 fun c _ => ?_
    rw [Pkt.isCommand_iff hwf, adminQueryPkt_query]
    exact not_command_of_select hselect c
  simp [adminComQueryOutcome, h, hcreate, hversion, hcommand]

theorem outcome_of_not_showTables (h : p.queryIs toLower env.beyond AdminCommand.showTables.text = false) :
    (adminComQueryOutcome env 1 p).showTables = false ∧
      (adminComQueryOutcome env 1 p).showCreateTable = p.isShowCreateTable env.beyond := by
  simp [adminComQueryOutcome, h]

theorem outcome_showCreateTable (hlen : sizeofMysqlHdr + 1 ≤ p.length)
    (h : p.queryIs toLower env.beyond AdminCommand.showTables.text = false)
    (hcreate : p.isShowCreateTable env.beyond = true) (c : AdminCommand) :
    (adminComQueryOutcome env 1 p).action ≠ .run c := by
  have hwf := adminQueryPkt_wf env.fillCreate (createTableQuery env.beyond p)
  have hcommand : AdminCommand.inOrder.find? (fun c =>
      (adminQueryPkt env.fillCreate (createTableQuery env.beyond p)).queryIs toLower env.beyond c.text) =
        none := by
    refine find?_eq_none.2 fun c _ => ?_
    rw [Pkt.isCommand_iff hwf, adminQueryPkt_query]
    exact not_command_of_select (createTableQuery_select hlen) c
  simp only [adminComQueryOutcome, h, hcreate, hcommand, if_true, Bool.false_eq_true, if_false]
  split
  · exact fun heq => by cases heq
  · exact fun heq => by cases heq

theorem outcome_of_not_replaced (h : p.queryIs toLower env.beyond AdminCommand.showTables.text = false)
    (hcreate : p.isShowCreateTable env.beyond = false) :
    (adminComQueryOutcome env 1 p).action =
      if p.queryIs id env.beyond selectVersionComment then .versionComment
      else
        match AdminCommand.inOrder.find? fun c => p.queryIs toLower env.beyond c.text with
        | some c => .run c
        | none => .sqlite p.query := by
  simp [adminComQueryOutcome, h, hcreate]

theorem outcome_unchanged_iff :
    adminComQueryOutcome env 1 p = .unchanged p.query ↔
      (∀ c : AdminCommand, p.queryIs toLower env.beyond c.text = false) ∧
        p.isShowCreateTable env.beyond = false ∧ p.queryIs id env.beyond selectVersionComment = false := by
  constructor
  · intro h
    have htables : p.queryIs toLower env.beyond AdminCommand.showTables.text = false :=
      congrArg AdminOutcome.showTables h
    have hcreate : p.isShowCreateTable env.beyond = false :=
      (outcome_of_not_showTables htables).2.symm.trans (congrArg AdminOutcome.showCreateTable h)
    have haction := (outcome_of_not_replaced htables hcreate).symm.trans (congrArg AdminOutcome.action h)
    by_cases hversion : p.queryIs id env.beyond selectVersionComment = true
    · rw [if_pos hversion] at haction
      cases haction
    · rw [if_neg hversion] at haction
      cases hfind : AdminCommand.inOrder.find? fun c => p.queryIs toLower env.beyond c.text with
      | some c =>
        rw [hfind] at haction
        cases haction
      | none =>
        refine ⟨fun c => ?_, hcreate, Bool.not_eq_true _ ▸ hversion⟩
        rcases mem_cons.1 c.mem_all with rfl | hmem
        · exact htables
        · exact Bool.not_eq_true _ ▸ find?_eq_none.1 hfind c hmem
  · rintro ⟨hcommands, hcreate, hversion⟩
    have htables := hcommands .showTables
    have hfind : AdminCommand.inOrder.find? (fun c => p.queryIs toLower env.beyond c.text) = none :=
      find?_eq_none.2 fun c _ => by rw [hcommands c]; exact Bool.false_ne_true
    have haction := @outcome_of_not_replaced env p htables hcreate
    rw [if_neg (by rw [hversion]; exact Bool.false_ne_true), hfind] at haction
    obtain ⟨hshow, hshowCreate⟩ := @outcome_of_not_showTables env p htables
    rw [hcreate] at hshowCreate
    generalize adminComQueryOutcome env 1 p = o at haction hshow hshowCreate
    obtain ⟨_, _, _⟩ := o
    subst haction hshow hshowCreate
    rfl

end Outcome

/-! ## Exact recognition -/

/-- The handler of the command ran. -/
def AdminOutcome.Runs (o : AdminOutcome) : AdminCommand → Prop
  | .showTables => o.showTables = true ∧ o.action = .sqlite selectTables
  | c => o.action = .run c

/-- The handler of a command runs for the text of the command in any case and for no other query, and all
    other queries are passed on as they are, apart from SHOW CREATE TABLE and the one for the version. -/
structure RecognisedExactly (o : AdminOutcome) (q : Str) : Prop where
  commands : ∀ c, o.Runs c ↔ SameText q c.text
  others : (∀ c : AdminCommand, ¬SameText q c.text) → ¬showCreateTable.map toLower <+: q.map toLower →
    q ≠ selectVersionComment → o = .unchanged q

/-- The query is neither a command nor one of the special cases. -/
structure Other (q : Str) : Prop where
  command : ∀ c : AdminCommand, ¬SameText q c.text
  showCreate : ¬showCreateTable.map toLower <+: q.map toLower
  version : q ≠ selectVersionComment

section Mistakes

variable {q : Str}

theorem Mistaken.other (h : Mistaken toLower c.text q) : Other q := by
  refine ⟨fun c' hsame => ?_, fun hpre => ?_, fun heq => ?_⟩
  · rw [SameText] at hsame
    rcases h with ⟨hcut, hlt⟩ | hlong
    · obtain rfl := AdminCommand.eq_of_text_prefix (hsame ▸ hcut)
      have hlength := congrArg length hsame
      rw [length_map, length_map] at hlength
      omega
    · refine c'.nul_not_mem_lower (hsame ▸ hlong.subset ?_)
      exact mem_append_right _ mem_cons_self
  · rcases h with ⟨hcut, -⟩ | hlong
    · exact c.apart_showCreateTable.2 (hpre.trans hcut)
    · exact c.apart_showCreateTable.not_prefix ((prefix_append _ _).trans hlong) hpre
  · subst heq
    rcases h with ⟨hcut, -⟩ | hlong
    · exact c.apart_selectVersionComment.2 hcut
    · exact c.apart_selectVersionComment.1 ((prefix_append _ _).trans hlong)

theorem Mistaken.other_of_version (h : Mistaken id selectVersionComment q) : Other q := by
  have hcases : (q.map toLower <+: selectVersionComment.map toLower ∨
      selectVersionComment.map toLower <+: q.map toLower) ∧ q.length ≠ selectVersionComment.length := by
    rw [Mistaken, map_id, map_id] at h
    rcases h with ⟨hcut, hlt⟩ | hlong
    · exact ⟨.inl (hcut.map toLower), Nat.ne_of_lt hlt⟩
    · refine ⟨.inr (((prefix_append _ _).trans hlong).map toLower), fun heq => ?_⟩
      have hle := hlong.length_le
      rw [length_append, heq] at hle
      exact absurd hle (Nat.not_succ_le_self _)
  obtain ⟨hcases, hlength⟩ := hcases
  refine ⟨fun c hsame => ?_, fun hpre => ?_, fun heq => hlength (congrArg length heq)⟩
  · rw [SameText] at hsame
    rw [hsame] at hcases
    exact hcases.elim c.apart_selectVersionComment.1 c.apart_selectVersionComment.2
  · rcases hcases with hcut | hlong
    · exact apart_showCreateTable_selectVersionComment.1 (hpre.trans hcut)
    · exact apart_showCreateTable_selectVersionComment.not_prefix hpre hlong

theorem Pkt.ShowCreateInMemory.other {p : Pkt} (h : p.ShowCreateInMemory beyond) :
    Other p.query := by
  have hpre := h.prefix_text
  refine ⟨fun c hsame => ?_, fun hcreate => ?_, fun heq => ?_⟩
  · rw [SameText] at hsame
    exact c.apart_showCreateTable.1 (hsame ▸ hpre)
  · have hle := hcreate.length_le
    rw [length_map, length_map] at hle
    exact absurd h.1 (Nat.not_lt.2 hle)
  · exact apart_showCreateTable_selectVersionComment.2 (heq ▸ hpre)

end Mistakes

section Exact

variable {env : AdminEnv} {p : Pkt}

theorem SameText.unique {q : Str} {c' : AdminCommand} (h : SameText q c.text)
    (h' : SameText q c'.text) : c = c' :=
  AdminCommand.eq_of_text_prefix (h.symm.trans h' ▸ prefix_rfl)

theorem not_runs (hshow : o.showTables = false) (haction : ∀ c, o.action ≠ .run c)
    (c : AdminCommand) : ¬o.Runs c := by
  cases c with
  | showTables => exact fun h => Bool.false_ne_true (hshow.symm.trans h.1)
  | flushQueryCache | flushDebug | flushUsers | flushQueryRules | flushDefaultHostgroups | flushHostgroups
  | shutdown
  | dumpRuntimeQueryRules | dumpRuntimeQueryCache | dumpRuntimeDefaultHostgroups | configSyncMemToDisk =>
    exact haction _

theorem runs_of_action (hc : c ≠ .showTables) : o.Runs c ↔ o.action = .run c := by
  cases c with
  | showTables => exact absurd rfl hc
  | flushQueryCache | flushDebug | flushUsers | flushQueryRules | flushDefaultHostgroups | flushHostgroups
  | shutdown
  | dumpRuntimeQueryRules | dumpRuntimeQueryCache | dumpRuntimeDefaultHostgroups | configSyncMemToDisk =>
    exact Iff.rfl

/-- A command is the first one that a comparison finds, if no comparison finds another one. -/
theorem find_command {test : AdminCommand → Bool} (hc : c ≠ .showTables) (htest : test c = true)
    (honly : ∀ c', test c' = true → c' = c) : AdminCommand.inOrder.find? test = some c := by
  have hmem : c ∈ AdminCommand.inOrder := (mem_cons.1 c.mem_all).resolve_left hc
  cases hfind : AdminCommand.inOrder.find? test with
  | none => exact absurd htest (find?_eq_none.1 hfind c hmem)
  | some c' => rw [honly c' (find?_some hfind)]

/-- A query that is mistaken for nothing runs the command it is. -/
theorem runs_iff_sameText (hlen : sizeofMysqlHdr + 1 ≤ p.length)
    (hcommand : ∀ c : AdminCommand, p.queryIs toLower env.beyond c.text = true ↔ SameText p.query c.text)
    (hversion : p.queryIs id env.beyond selectVersionComment = true ↔ p.query = selectVersionComment)
    (hcreate : p.isShowCreateTable env.beyond = true ↔ showCreateTable.map toLower <+: p.query.map toLower)
    (c : AdminCommand) : (adminComQueryOutcome env 1 p).Runs c ↔ SameText p.query c.text := by
  by_cases htables : p.queryIs toLower env.beyond AdminCommand.showTables.text = true
  · have hsame := (hcommand .showTables).1 htables
    rw [outcome_showTables htables]
    by_cases hc : c = .showTables
    · subst hc
      exact ⟨fun _ => hsame, fun _ => ⟨rfl, rfl⟩⟩
    · rw [runs_of_action hc]
      refine ⟨fun h => ?_, fun h => absurd (h.unique hsame) hc⟩
      cases h
  rw [Bool.not_eq_true] at htables
  obtain ⟨hshow, -⟩ := @outcome_of_not_showTables env p htables
  by_cases hreplaced : p.isShowCreateTable env.beyond = true
  · have hnot := not_runs hshow (outcome_showCreateTable hlen htables hreplaced) c
    refine ⟨fun h => absurd h hnot, fun hsame => ?_⟩
    rw [SameText] at hsame
    exact absurd (hsame ▸ hcreate.1 hreplaced) c.apart_showCreateTable.2
  rw [Bool.not_eq_true] at hreplaced
  have haction := @outcome_of_not_replaced env p htables hreplaced
  by_cases hquery : p.queryIs id env.beyond selectVersionComment = true
  · rw [if_pos hquery] at haction
    have hnot := not_runs hshow (fun c heq => by cases haction.symm.trans heq) c
    refine ⟨fun h => absurd h hnot, fun hsame => ?_⟩
    rw [SameText, hversion.1 hquery] at hsame
    exact absurd (hsame ▸ prefix_rfl) c.apart_selectVersionComment.1
  rw [if_neg hquery] at haction
  by_cases hc : c = .showTables
  · subst hc
    rw [← hcommand, htables]
    exact ⟨fun h => absurd (hshow.symm.trans h.1) Bool.false_ne_true, fun h => absurd h Bool.false_ne_true⟩
  rw [runs_of_action hc, haction]
  constructor
  · intro h
    cases hfind : AdminCommand.inOrder.find? fun c => p.queryIs toLower env.beyond c.text with
    | none =>
      rw [hfind] at h
      cases h
    | some c' =>
      rw [hfind] at h
      cases h
      have hfound := find?_some hfind
      exact (hcommand c).1 hfound
  · intro hsame
    rw [find_command hc ((hcommand c).2 hsame) fun c' hc' => ((hcommand c').1 hc').unique hsame]

/-- The commands are recognised exactly, if and only if the query is not mistaken for a command or for the
    one for the version, and memory does not complete it to SHOW CREATE TABLE. -/
theorem adminComQuery_recognisedExactly_iff (env : AdminEnv) {p : Pkt} (hwf : p.WF)
    (hlen : sizeofMysqlHdr + 1 ≤ p.length) :
    RecognisedExactly (adminComQueryOutcome env 1 p) p.query ↔
      (∀ c : AdminCommand, ¬Mistaken toLower c.text p.query) ∧ ¬Mistaken id selectVersionComment p.query ∧
        ¬p.ShowCreateInMemory env.beyond := by
  constructor
  · intro h
    -- none of the comparisons may find a query that is neither a command nor a special case
    have htests : Other p.query → (∀ c : AdminCommand, p.queryIs toLower env.beyond c.text = false) ∧
        p.isShowCreateTable env.beyond = false ∧ p.queryIs id env.beyond selectVersionComment = false :=
      fun hother => outcome_unchanged_iff.1 (h.others hother.command hother.showCreate hother.version)
    refine ⟨fun c hmistaken => ?_, fun hmistaken => ?_, fun hmemory => ?_⟩
    · have hfound := (@Pkt.isCommand_iff p env.beyond hwf c).2 (.inr hmistaken)
      exact Bool.false_ne_true (((htests hmistaken.other).1 c).symm.trans hfound)
    · have hfound := (@Pkt.isVersionComment_iff p env.beyond hwf).2 (.inr hmistaken)
      exact Bool.false_ne_true ((htests hmistaken.other_of_version).2.2.symm.trans hfound)
    · have hfound := (@Pkt.isShowCreateTable_iff p env.beyond).2 (.inr hmemory)
      exact Bool.false_ne_true ((htests hmemory.other).2.1.symm.trans hfound)
  · rintro ⟨hcommands, hversion, hmemory⟩
    have hcommand : ∀ c : AdminCommand, p.queryIs toLower env.beyond c.text = true ↔
      SameText p.query c.text :=
      fun c => (Pkt.isCommand_iff hwf c).trans (or_iff_left (hcommands c))
    have hquery : p.queryIs id env.beyond selectVersionComment = true ↔ p.query = selectVersionComment :=
      (Pkt.isVersionComment_iff hwf).trans (or_iff_left hversion)
    have hcreate : p.isShowCreateTable env.beyond = true ↔
      showCreateTable.map toLower <+: p.query.map toLower :=
      Pkt.isShowCreateTable_iff.trans (or_iff_left hmemory)
    refine ⟨runs_iff_sameText hlen hcommand hquery hcreate, fun hother hshow hne => ?_⟩
    refine outcome_unchanged_iff.2 ⟨fun c => ?_, ?_, ?_⟩
    · rw [← Bool.not_eq_true, hcommand c]
      exact hother c
    · rw [← Bool.not_eq_true, hcreate]
      exact hshow
    · rw [← Bool.not_eq_true, hquery]
      exact hne

end Exact

/-- Memory that holds zeros. -/
def AdminEnv.zero : AdminEnv :=
  { beyond := fun _ => 0, fillTables := fun _ => 0, beyondTables := fun _ => 0, fillCreate := fun _ => 0 }

/-- A query in small letters that is a command. -/
theorem adminComQuery_recognisedExactly_flush :
    RecognisedExactly (adminComQueryOutcome .zero 1
      (adminQueryPkt (fun _ => 0) (bytesOf "flush hostgroups"))) (bytesOf "flush hostgroups") := by
  have hall : ∀ c ∈ AdminCommand.showTables :: AdminCommand.inOrder,
      ¬Mistaken toLower c.text (bytesOf "flush hostgroups") := by decide +kernel
  have hiff :=
    adminComQuery_recognisedExactly_iff .zero (adminQueryPkt_wf (fun _ => 0) (bytesOf "flush hostgroups"))
    (by decide)
  rw [adminQueryPkt_query] at hiff
  refine hiff.2 ⟨fun c => hall c c.mem_all, by decide, fun hmemory => ?_⟩
  exact absurd hmemory.prefix_text (by rw [adminQueryPkt_query]; decide)

/-- The empty query is taken for SHOW TABLES, and `sh` and a `u` for SHUTDOWN. -/
theorem adminComQuery_shuts_down :
    ¬RecognisedExactly (adminComQueryOutcome .zero 1 (adminQueryPkt (fun _ => 0) [])) [] ∧
      (adminComQueryOutcome .zero 1 (adminQueryPkt (fun _ => 0) [])).Runs .showTables ∧
      ¬RecognisedExactly (adminComQueryOutcome .zero 1 (adminQueryPkt (fun _ => 0) (bytesOf "shu")))
        (bytesOf "shu") ∧
      (adminComQueryOutcome .zero 1 (adminQueryPkt (fun _ => 0) (bytesOf "shu"))).Runs .shutdown := by
  have htables : adminComQueryOutcome .zero 1 (adminQueryPkt (fun _ => 0) []) =
      { showTables := true, showCreateTable := false, action := .sqlite selectTables } := by decide +kernel
  have hshutdown : adminComQueryOutcome .zero 1 (adminQueryPkt (fun _ => 0) (bytesOf "shu")) =
      { showTables := false, showCreateTable := false, action := .run .shutdown } := by decide +kernel
  rw [htables, hshutdown]
  refine ⟨fun h => ?_, ⟨rfl, rfl⟩, fun h => ?_, rfl⟩
  · exact absurd ((h.commands .showTables).1 ⟨rfl, rfl⟩) (by unfold SameText; decide)
  · exact absurd ((h.commands .shutdown).1 rfl) (by unfold SameText; decide)

end ProxySQL
