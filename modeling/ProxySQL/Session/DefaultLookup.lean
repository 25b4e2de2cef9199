/-
  ProxySQL.Session.DefaultLookup

  The lookup of a default hostgroup.

  A row of `default_hostgroups` names a user, a schema, both or neither, and the
  lookup is meant to prefer a row for both, then one for the schema, then one for
  the user (`defaultOf`).  The loader stores the schema of a row as its user, and
  what is followed as its schema is whatever the memory of the entry held.  So the
  lookup is right, whatever that is, exactly if hostgroup 0 is the right answer and
  no row can be mistaken for one that fits (`defaultLookup_iff`).
-/
import ProxySQL.Session.Routing

namespace ProxySQL

open Lib

/-- The hostgroup of a user in a schema, by the precedence of the rows. -/
def defaultOf (rows : List DefaultHostgroupRow) (u s : Str) : Int :=
  match rows.find? fun row => row.username == some u && row.schemaname == some s with
  | some row => row.hostgroupId
  | none =>
      match rows.find? fun row => row.username == none && row.schemaname == some s with
      | some row => row.hostgroupId
      | none =>
          match rows.find? fun row => row.username == some u && row.schemaname == none with
          | some row => row.hostgroupId
          | none => 0

/-! ## Entries over any memory -/

/-- A `char *` that was never set: NULL, a string, or an address that cannot be read. -/
inductive CharPtr
  | null
  | str (s : Str)
  | wild
  deriving DecidableEq

def CharPtr.ofText : Option Str → CharPtr
  | none => .null
  | some s => .str s

/-- Whether `g_strcmp0` returns 0; it follows the second pointer only if the first is not NULL. -/
def gStrcmp0 : Option Str → CharPtr → Except Fault Bool
  | none, p => .ok (p = .null)
  | some _, .null => .ok false
  | some s, .str t => .ok (s = t)
  | some _, .wild => .error .outOfBounds

/-- `default_hostgroup_t`. -/
structure DefHGEntry where
  username : Option Str
  schemaname : CharPtr
  hostgroupId : Int

/-- `__default_hostgroup__add_defHG`, over what the slice held as its `schemaname`. -/
def addDefHGOver (row : DefaultHostgroupRow) (memory : CharPtr) : DefHGEntry :=
  { username := row.schemaname, schemaname := memory, hostgroupId := row.hostgroupId }

namespace DefHGEntry

def perfect (username schemaname : Option Str) (e : DefHGEntry) : Except Fault Bool :=
  if e.username = username then gStrcmp0 schemaname e.schemaname else .ok false

def schemaOnly (schemaname : Option Str) (e : DefHGEntry) : Except Fault Bool :=
  if e.username = none ∧ e.schemaname ≠ .null then gStrcmp0 schemaname e.schemaname else .ok false

def userOnly (username : Option Str) (e : DefHGEntry) : Except Fault Bool :=
  .ok (e.schemaname = .null ∧ e.username ≠ none ∧ e.username = username)

end DefHGEntry

/-- `__default_hostgroup__find_defHG`. -/
def lookupDefHG (entries : List DefHGEntry) (username schemaname : Option Str) :
    Except Fault Int := do
  match ← entries.findM? (DefHGEntry.perfect username schemaname) with
  | some e => return e.hostgroupId
  | none =>
      match ← entries.findM? (DefHGEntry.schemaOnly schemaname) with
      | some e => return e.hostgroupId
      | none =>
          match ← entries.findM? (DefHGEntry.userOnly username) with
          | some e => return e.hostgroupId
          | none => return 0

section Find

variable {test : DefHGEntry → Except Fault Bool} {entries : List DefHGEntry}

theorem findM?_none (h : ∀ e ∈ entries, test e = .ok false) : entries.findM? test = .ok none := by
  induction entries with
  | nil => rfl
  | cons e entries ih =>
    rw [List.findM?, h e List.mem_cons_self]
    exact ih fun e' he' => h e' (List.mem_cons_of_mem e he')

theorem findM?_error {c : DefHGEntry → Prop} [DecidablePred c]
    (h : ∀ e ∈ entries, test e = if c e then .error .outOfBounds else .ok false)
    (hsome : ∃ e ∈ entries, c e) : entries.findM? test = .error .outOfBounds := by
  induction entries with
  | nil =>
    obtain ⟨e, he, -⟩ := hsome
    cases he
  | cons e entries ih =>
    rw [List.findM?, h e List.mem_cons_self]
    split
    · rfl
    · next hno =>
      refine ih (fun e' he' => h e' (List.mem_cons_of_mem e he')) ?_
      obtain ⟨e', he', hc⟩ := hsome
      rcases List.mem_cons.1 he' with rfl | hmem
      · exact absurd hc hno
      · exact ⟨e', hmem, hc⟩

end Find

/-- An entry of the tables of `DefHG`, whose schema is NULL or a string. -/
def DefaultHostgroup.toEntry (e : DefaultHostgroup) : DefHGEntry :=
  { username := e.username, schemaname := .ofText e.schemaname, hostgroupId := e.hostgroupId }

theorem gStrcmp0_ofText (s t : Option Str) : gStrcmp0 s (.ofText t) = .ok (t == s) := by
  cases s with
  | none => cases t <;> rfl
  | some s =>
    cases t with
    | none => rfl
    | some t =>
      show Except.ok (decide (s = t)) = .ok (some t == some s)
      rw [Option.some_beq_some, beq_eq_decide]
      exact congrArg Except.ok (decide_eq_decide.2 eq_comm)

/-- Where no pointer is wild, the lookup is that of the sessions. -/
theorem lookupDefHG_toEntry (d : DefHG) (username schemaname : Option Str) :
    lookupDefHG (d.defaultHostgroups.map DefaultHostgroup.toEntry) username schemaname
      = .ok (findDefHG d username schemaname) := by
  have hfind : ∀ {test : DefHGEntry → Except Fault Bool} {p : DefaultHostgroup → Bool},
      (∀ e : DefaultHostgroup, test e.toEntry = .ok (p e)) →
      (d.defaultHostgroups.map DefaultHostgroup.toEntry).findM? test
        = .ok ((d.defaultHostgroups.find? p).map DefaultHostgroup.toEntry) := by
    intro test p h
    induction d.defaultHostgroups with
    | nil => rfl
    | cons e es ih =>
      rw [List.map_cons, List.findM?, h e, List.find?_cons]
      cases p e with
      | true => rfl
      | false => exact ih
  have hperfect : ∀ e : DefaultHostgroup, e.toEntry.perfect username schemaname
      = .ok (e.username == username && e.schemaname == schemaname) := by
    intro e
    unfold DefHGEntry.perfect DefaultHostgroup.toEntry
    dsimp only
    rw [gStrcmp0_ofText]
    by_cases hname : e.username = username
    · simp [hname]
    · simp [hname]
  have hschema : ∀ e : DefaultHostgroup, e.toEntry.schemaOnly schemaname
      = .ok (e.username == none && e.schemaname != none && e.schemaname == schemaname) := by
    intro e
    unfold DefHGEntry.schemaOnly DefaultHostgroup.toEntry
    dsimp only
    rw [gStrcmp0_ofText]
    cases e.username <;> cases e.schemaname <;> simp [CharPtr.ofText]
  have huser : ∀ e : DefaultHostgroup, e.toEntry.userOnly username
      = .ok (e.schemaname == none && e.username != none && e.username == username) := by
    intro e
    unfold DefHGEntry.userOnly DefaultHostgroup.toEntry
    cases e.schemaname <;> cases e.username <;> simp [CharPtr.ofText, beq_eq_decide]
  unfold lookupDefHG findDefHG
  rw [hfind hperfect, hfind hschema, hfind huser]
  dsimp only
  cases d.defaultHostgroups.find? fun e => e.username == username && e.schemaname == schemaname with
  | some e => rfl
  | none =>
    cases d.defaultHostgroups.find? fun e =>
        e.username == none && e.schemaname != none && e.schemaname == schemaname with
    | some e => rfl
    | none =>
      cases d.defaultHostgroups.find? fun e =>
          e.schemaname == none && e.username != none && e.username == username with
      | some e => rfl
      | none => rfl

/-- The entries of rows, each over its memory. -/
def entriesOver (loaded : List (DefaultHostgroupRow × CharPtr)) : List DefHGEntry :=
  loaded.map fun row => addDefHGOver row.1 row.2

theorem lookupDefHG_flush (d : DefHG) (loaded : List (DefaultHostgroupRow × Option Str))
    (username schemaname : Option Str) :
    lookupDefHG (entriesOver (loaded.map fun row => (row.1, .ofText row.2))) username schemaname
      = .ok (findDefHG (flushDefaultHostgroupsDbToMem d loaded) username schemaname) := by
  rw [← lookupDefHG_toEntry, entriesOver, flushDefaultHostgroupsDbToMem, List.map_map, List.map_map]
  rfl

/-! ## Rows that can be mistaken -/

/-- The row is stored as if it were for user `u`, or for no user. -/
def DefaultHostgroupRow.Mistakable (row : DefaultHostgroupRow) (u : Str) : Prop :=
  row.schemaname = none ∨ row.schemaname = some u

section Lookup

variable {loaded : List (DefaultHostgroupRow × CharPtr)} {u s : Str}

theorem lookupDefHG_unmistakable (h : ∀ row ∈ loaded, ¬row.1.Mistakable u) :
    lookupDefHG (entriesOver loaded) (some u) (some s) = .ok 0 := by
  have hentries : ∀ e ∈ entriesOver loaded, e.username ≠ none ∧ e.username ≠ some u := by
    intro e he
    obtain ⟨row, hrow, rfl⟩ := List.mem_map.1 he
    exact not_or.1 (h row hrow)
  -- the tests of these entries end before they come to their memory
  have hperfect : ∀ e ∈ entriesOver loaded, e.perfect (some u) (some s) = .ok false :=
    fun e he => if_neg (hentries e he).2
  have hschema : ∀ e ∈ entriesOver loaded, e.schemaOnly (some s) = .ok false :=
    fun e he => if_neg fun hboth => (hentries e he).1 hboth.1
  have huser : ∀ e ∈ entriesOver loaded, e.userOnly (some u) = .ok false := by
    intro e he
    rw [DefHGEntry.userOnly, decide_eq_false fun hall => (hentries e he).2 hall.2.2]
  rw [lookupDefHG, findM?_none hperfect, findM?_none hschema, findM?_none huser]
  rfl

/-- If memory holds no pointer that can be followed, an entry that can be mistaken ends the
    process. -/
theorem lookupDefHG_wild (hwild : ∀ row ∈ loaded, row.2 = .wild)
    (h : ∃ row ∈ loaded, row.1.Mistakable u) :
    lookupDefHG (entriesOver loaded) (some u) (some s) = .error .outOfBounds := by
  have hwild : ∀ e ∈ entriesOver loaded, e.schemaname = .wild := by
    intro e he
    obtain ⟨row, hrow, rfl⟩ := List.mem_map.1 he
    exact hwild row hrow
  have hperfect : ∀ e ∈ entriesOver loaded,
      e.perfect (some u) (some s) = if e.username = some u then .error .outOfBounds
      else .ok false := by
    intro e he
    rw [DefHGEntry.perfect, hwild e he]
    rfl
  have hschema : ∀ e ∈ entriesOver loaded,
      e.schemaOnly (some s) = if e.username = none then .error .outOfBounds else .ok false := by
    intro e he
    rw [DefHGEntry.schemaOnly, hwild e he]
    exact if_congr (and_iff_left nofun) rfl rfl
  by_cases huser : ∃ e ∈ entriesOver loaded, e.username = some u
  · rw [lookupDefHG, findM?_error hperfect huser]
    rfl
  · obtain ⟨row, hrow, hnone | hname⟩ := h
    · have hmissed : ∀ e ∈ entriesOver loaded, e.perfect (some u) (some s) = .ok false := by
        intro e he
        rw [hperfect e he, if_neg fun hname => huser ⟨e, he, hname⟩]
      rw [lookupDefHG, findM?_none hmissed,
        findM?_error hschema ⟨_, List.mem_map_of_mem hrow, hnone⟩]
      rfl
    · exact absurd ⟨_, List.mem_map_of_mem hrow, hname⟩ huser

end Lookup

/-- The lookup for a user and a schema follows the precedence of the rows, whatever memory held,
    exactly if the precedence leads to hostgroup 0 and no row can be mistaken for one of the
    user. -/
theorem defaultLookup_iff (rows : List DefaultHostgroupRow) (u s : Str) :
    (∀ loaded : List (DefaultHostgroupRow × CharPtr), loaded.map Prod.fst = rows →
      lookupDefHG (entriesOver loaded) (some u) (some s) = .ok (defaultOf rows u s)) ↔
    defaultOf rows u s = 0 ∧ ∀ row ∈ rows, ¬row.Mistakable u := by
  constructor
  · intro h
    have hlookup := h (rows.map (·, .wild)) (by rw [List.map_map]; exact List.map_id rows)
    have hnone : ∀ row ∈ rows, ¬row.Mistakable u := by
      intro row hrow hmistakable
      rw [lookupDefHG_wild ?_ ⟨_, List.mem_map.2 ⟨row, hrow, rfl⟩, hmistakable⟩] at hlookup
      · cases hlookup
      · intro r hr
        obtain ⟨row, -, rfl⟩ := List.mem_map.1 hr
        rfl
    rw [lookupDefHG_unmistakable ?_] at hlookup
    · exact ⟨(Except.ok.inj hlookup).symm, hnone⟩
    · intro r hr
      obtain ⟨row, hrow, rfl⟩ := List.mem_map.1 hr
      exact hnone row hrow
  · rintro ⟨hzero, hrows⟩ loaded rfl
    rw [hzero]
    exact lookupDefHG_unmistakable fun row hrow => hrows row.1 (List.mem_map_of_mem hrow)

/-- The row of user `app` in schema `shop`, with hostgroup 1. -/
def shopRow : DefaultHostgroupRow :=
  { username := some (bytesOf "app"), schemaname := some (bytesOf "shop"), hostgroupId := 1 }

/-- The one row of the table is for the user and the schema, but hostgroup 0 is found. -/
theorem defaultLookup_missed :
    defaultOf [shopRow] (bytesOf "app") (bytesOf "shop") = 1 ∧
      lookupDefHG (entriesOver [(shopRow, .null)]) (some (bytesOf "app")) (some (bytesOf "shop")) =
      .ok 0 := by
  decide

end ProxySQL
