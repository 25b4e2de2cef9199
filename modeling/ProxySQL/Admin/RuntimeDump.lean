/-
  ProxySQL.Admin.RuntimeDump

  The configuration in memory, dumped into the tables `runtime_default_hostgroups`
  and `runtime_query_rules` (`admin_sqlite.c`).

  A row is selected, loaded, bound to the parameters of an INSERT and inserted by
  position, each time in an order of its own.  Rules come back as they were loaded,
  with their numbers narrowed to `int`, while a default hostgroup comes back without
  its schema, and with whatever memory held as its user (`runtimeDump_iff`).
-/
import Mathlib.Data.Fintype.EquivFin
import ProxySQL.Session.DefaultLookup

namespace ProxySQL

open Lib List

/-! ## Values and parameters -/

inductive SqlValue
  | null
  | int (n : Int)
  | text (s : Str)
  deriving DecidableEq

/-- A column that may be NULL, or a `char *` that is bound. -/
def SqlValue.ofText : Option Str → SqlValue
  | none => .null
  | some s => .text s

def sqlite3ColumnInt (vals : List SqlValue) (k : Nat) : Int :=
  match vals[k]? with
  | some (.int n) => toInt n
  | _ => 0

/-- The text of a column, as the C string that `g_strdup` copies. -/
def sqlite3ColumnText (vals : List SqlValue) (k : Nat) : Option Str :=
  match vals[k]? with
  | some (.text s) => some (s.takeWhile (· ≠ 0))
  | _ => none

/-- Parameter `k` after calls of `sqlite3_bind_int` and `sqlite3_bind_text`. -/
def bound (binds : List (Nat × SqlValue)) (k : Nat) : SqlValue :=
  binds.foldl (fun v b => if b.1 = k then b.2 else v) .null

/-! ## Default hostgroups -/

/-- FLUSH DEFAULT HOSTGROUPS with these rows has put the entries `loaded` into memory. -/
def Loaded (rows : List DefaultHostgroupRow) (loaded : List (DefaultHostgroupRow × Option Str)) :
    Prop :=
  loaded.map Prod.fst = rows

def DefaultHostgroupRow.values (row : DefaultHostgroupRow) : List SqlValue :=
  [.ofText row.username, .ofText row.schemaname, .int row.hostgroupId]

/-- A round of `sqlite3_dump_runtime_default_hostgroups`. -/
def dumpDefHG (dhg : DefaultHostgroup) : List SqlValue :=
  -- parameter 1 is bound twice, parameter 2 never
  let binds := [(1, .ofText dhg.username), (1, .ofText dhg.schemaname), (3, .int dhg.hostgroupId)]
  [bound binds 1, bound binds 2, bound binds 3]

def dumpRuntimeDefaultHostgroups (d : DefHG) : List (List SqlValue) :=
  d.defaultHostgroups.map dumpDefHG

/-! ## Query rules -/

/-- The columns that `query_rules` and `query_rule_t` share. -/
structure RuleColumns where
  ruleId : Int
  username : Option Str
  schemaname : Option Str
  flagIN : Int
  matchPattern : Option Str
  negateMatchPattern : Int
  flagOUT : Int
  replacePattern : Option Str
  destinationHostgroup : Int
  auditLog : Int
  performanceLog : Int
  cacheTag : Int
  invalidateCacheTag : Int
  invalidateCachePattern : Option Str
  cacheTtl : Int

structure RulesRow extends RuleColumns where
  active : Int
  matchPattern_notNull : matchPattern.isSome

/-- The table `query_rules`, with its primary key. -/
structure RulesTable where
  rows : List RulesRow
  key : (rows.map (·.ruleId)).Nodup

/-- `query_rule_t`. -/
structure LoadedRule extends RuleColumns where
  hits : Nat

/-- The SELECT of `sqlite3_flush_query_rules_db_to_mem`. -/
def RulesRow.selected (r : RulesRow) : List SqlValue :=
  [.int r.ruleId, .int r.flagIN, .ofText r.username, .ofText r.schemaname, .ofText r.matchPattern,
    .int r.negateMatchPattern, .int r.flagOUT, .ofText r.replacePattern,
    .int r.destinationHostgroup, .int r.auditLog,
    .int r.performanceLog, .int r.cacheTag, .int r.invalidateCacheTag,
    .ofText r.invalidateCachePattern, .int r.cacheTtl]

/-- A value that is not below `least`. -/
def atLeast (least n : Int) : Int := if n < least then least else n

/-- A round of `sqlite3_flush_query_rules_db_to_mem`. -/
def loadRule (vals : List SqlValue) : LoadedRule where
  ruleId := sqlite3ColumnInt vals 0
  flagIN := atLeast 0 (sqlite3ColumnInt vals 1)
  username := sqlite3ColumnText vals 2
  schemaname := sqlite3ColumnText vals 3
  matchPattern := sqlite3ColumnText vals 4
  negateMatchPattern := clampFlag (sqlite3ColumnInt vals 5)
  flagOUT := atLeast 0 (sqlite3ColumnInt vals 6)
  replacePattern := sqlite3ColumnText vals 7
  destinationHostgroup := atLeast 0 (sqlite3ColumnInt vals 8)
  auditLog := clampFlag (sqlite3ColumnInt vals 9)
  performanceLog := clampFlag (sqlite3ColumnInt vals 10)
  cacheTag := atLeast 0 (sqlite3ColumnInt vals 11)
  invalidateCacheTag := atLeast 0 (sqlite3ColumnInt vals 12)
  invalidateCachePattern := sqlite3ColumnText vals 13
  cacheTtl := atLeast (-1) (sqlite3ColumnInt vals 14)
  hits := 0

/-- The rules that an empty table is filled with. -/
def defaultRules (defaultTimeout : Int) : RulesTable :=
  let row ruleId pattern negate dest ttl : RulesRow :=
    { ruleId, active := 1, username := none, schemaname := none, flagIN := 0,
      matchPattern := some (bytesOf pattern),
      negateMatchPattern := negate, flagOUT := 0, replacePattern := none,
      destinationHostgroup := dest, auditLog := 0,
      performanceLog := 0, cacheTag := 0, invalidateCacheTag := 0, invalidateCachePattern := none,
      cacheTtl := ttl,
      matchPattern_notNull := rfl }
  { rows := [row 10 "^SELECT" 1 0 (-1), row 20 "\\s+FOR\\s+UPDATE\\s*$" 0 0 (-1),
      row 10000 ".*" 0 1 defaultTimeout],
    key := (by decide : ([10, 20, 10000] : List Int).Nodup) }

/-- The table, once `sqlite3_flush_query_rules_db_to_mem` has looked at it. -/
def filledRules (defaultTimeout : Int) (table : RulesTable) : RulesTable :=
  if table.rows.length = 0 then defaultRules defaultTimeout else table

/-- WHERE active=1 ORDER BY rule_id. -/
def RulesTable.activeRules (table : RulesTable) : List RulesRow :=
  (table.rows.filter fun r => r.active = 1).mergeSort fun r r' => r.ruleId ≤ r'.ruleId

/-- `sqlite3_flush_query_rules_db_to_mem`, for a table that is not empty. -/
def loadRules (mysqlHostgroups : Nat) (table : RulesTable) : List LoadedRule :=
  (table.activeRules.map fun r => loadRule r.selected).filter fun qr => qr.destinationHostgroup <
    mysqlHostgroups

/-- A round of `sqlite3_dump_runtime_query_rules`; the row has the columns in the order of its
    table. -/
def dumpRule (qr : LoadedRule) : List SqlValue :=
  let binds :=
    [(1, .int qr.ruleId), (2, .int qr.hits), (3, .int qr.flagIN), (4, .ofText qr.username),
    (5, .ofText qr.schemaname), (6, .ofText qr.matchPattern), (7, .int qr.negateMatchPattern),
      (8, .int qr.flagOUT),
    (9, .ofText qr.replacePattern), (10, .int qr.destinationHostgroup), (11, .int qr.auditLog),
    (12, .int qr.performanceLog), (13, .int qr.cacheTag), (14, .int qr.invalidateCacheTag),
    (15, .ofText qr.invalidateCachePattern), (16, .int qr.cacheTtl)]
  -- flagIN is the third column of the INSERT and the fifth of the table
  [1, 2, 4, 5, 3, 6, 7, 8, 9, 10, 11, 12, 13, 14, 15, 16].map (bound binds)

/-- `sqlite3_dump_runtime_query_rules`; a second row with the same `rule_id` is refused, and an
    assertion fails. -/
def dumpRuntimeQueryRules (rules : List LoadedRule) : Option (List (List SqlValue)) :=
  if (rules.map (·.ruleId)).Nodup then some (rules.map dumpRule) else none

/-! ## Round trips -/

/-- A text up to its terminator. -/
def cText (s : Option Str) : Option Str := s.map fun s => s.takeWhile (· ≠ 0)

/-- The columns with texts that end at their terminators, and the nearest numbers in range. -/
def RuleColumns.sanitised (r : RuleColumns) : RuleColumns where
  ruleId := r.ruleId
  username := cText r.username
  schemaname := cText r.schemaname
  flagIN := max 0 r.flagIN
  matchPattern := cText r.matchPattern
  negateMatchPattern := max 0 (min 1 r.negateMatchPattern)
  flagOUT := max 0 r.flagOUT
  replacePattern := cText r.replacePattern
  destinationHostgroup := max 0 r.destinationHostgroup
  auditLog := max 0 (min 1 r.auditLog)
  performanceLog := max 0 (min 1 r.performanceLog)
  cacheTag := max 0 r.cacheTag
  invalidateCacheTag := max 0 r.invalidateCacheTag
  invalidateCachePattern := cText r.invalidateCachePattern
  cacheTtl := max (-1) r.cacheTtl

/-- The row of `runtime_query_rules` for a rule that was never hit. -/
def RuleColumns.runtime (r : RuleColumns) : List SqlValue :=
  [.int r.ruleId, .int 0, .ofText r.username, .ofText r.schemaname, .int r.flagIN,
    .ofText r.matchPattern, .int r.negateMatchPattern, .int r.flagOUT, .ofText r.replacePattern,
    .int r.destinationHostgroup,
    .int r.auditLog, .int r.performanceLog, .int r.cacheTag, .int r.invalidateCacheTag,
    .ofText r.invalidateCachePattern, .int r.cacheTtl]

/-- The sanitised destination is a hostgroup. -/
def RuleColumns.Routable (n : Nat) (r : RuleColumns) : Prop := r.sanitised.destinationHostgroup < n

instance (n : Nat) (r : RuleColumns) : Decidable (r.Routable n) :=
  inferInstanceAs (Decidable (_ < _))

/-- One row for each active rule with a hostgroup in range, by `rule_id`. -/
def RulesDumped (n : Nat) (rules : List RulesRow) (dumped : Option (List (List SqlValue))) : Prop :=
  ∃ ordered : List RulesRow, ordered.Perm (rules.filter fun r => r.active = 1 ∧ r.Routable n) ∧
    ordered.Pairwise (fun r r' => r.ruleId ≤ r'.ruleId) ∧
    dumped = some (ordered.map fun r => r.sanitised.runtime)

/-- The columns with their numbers narrowed to `int`. -/
def RuleColumns.narrowed (r : RuleColumns) : RuleColumns :=
  { r with
    ruleId := toInt r.ruleId, flagIN := toInt r.flagIN,
      negateMatchPattern := toInt r.negateMatchPattern,
    flagOUT := toInt r.flagOUT, destinationHostgroup := toInt r.destinationHostgroup,
      auditLog := toInt r.auditLog,
    performanceLog := toInt r.performanceLog, cacheTag := toInt r.cacheTag,
    invalidateCacheTag := toInt r.invalidateCacheTag, cacheTtl := toInt r.cacheTtl }

/-- The sanitised columns of the rules with a hostgroup in range. -/
def sanitisedRules (n : Nat) (rules : List RuleColumns) : List RuleColumns :=
  (rules.filter fun r => r.Routable n).map RuleColumns.sanitised

/-- Narrowing makes no difference to the rules of a table. -/
def RulesTable.Narrow (n : Nat) (table : RulesTable) : Prop :=
  sanitisedRules n (table.activeRules.map fun r => r.narrowed) =
    sanitisedRules n (table.activeRules.map (·.toRuleColumns))

theorem atLeast_eq (least n : Int) : atLeast least n = max least n := by
  unfold atLeast
  omega

theorem clampFlag_eq (n : Int) : clampFlag n = max 0 (min 1 n) := by
  unfold clampFlag
  omega

theorem loadRule_selected (r : RulesRow) :
    loadRule r.selected = { toRuleColumns := r.narrowed.sanitised, hits := 0 } := by
  have htext : ∀ {vals : List SqlValue} {k : Nat} (s : Option Str), vals[k]? = some (.ofText s) →
      sqlite3ColumnText vals k = cText s := by
    intro vals k s h
    unfold sqlite3ColumnText
    rw [h]
    cases s with
    | none => rfl
    | some s => rfl
  unfold loadRule RuleColumns.sanitised
  rw [htext r.username rfl, htext r.schemaname rfl, htext r.matchPattern rfl,
    htext r.replacePattern rfl, htext r.invalidateCachePattern rfl]
  simp only [atLeast_eq, clampFlag_eq]
  rfl

theorem loadRules_eq (n : Nat) (table : RulesTable) :
    loadRules n table = (sanitisedRules n (table.activeRules.map fun r => r.narrowed)).map
      fun r => { toRuleColumns := r, hits := 0 } := by
  unfold loadRules sanitisedRules
  simp only [loadRule_selected]
  rw [map_map, filter_map, filter_map, map_map]
  exact congrArg _ (filter_congr fun _ _ => rfl)

theorem activeRules_sorted (table : RulesTable) :
    table.activeRules.Pairwise fun r r' => r.ruleId ≤ r'.ruleId := by
  have hsorted : table.activeRules.Pairwise fun r r' => decide (r.ruleId ≤ r'.ruleId) :=
    pairwise_mergeSort (fun a b c hab hbc => by simp only [decide_eq_true_eq] at *; omega)
      (fun a b => by simp only [Bool.or_eq_true, decide_eq_true_eq]; omega) _
  exact hsorted.imp of_decide_eq_true

theorem RulesTable.activeRules_perm (table : RulesTable) (n : Nat) :
    (table.activeRules.filter fun r => r.Routable n).Perm
      (table.rows.filter fun r => r.active = 1 ∧ r.Routable n) := by
  refine ((mergeSort_perm _ _).filter _).trans (.of_eq ?_)
  rw [filter_filter]
  refine filter_congr fun r _ => ?_
  rw [Bool.and_comm, Bool.decide_and]

/-- The rules of a table in one order only, as no two have the same key. -/
theorem RulesTable.ordered_eq (table : RulesTable) {n : Nat} {ordered : List RulesRow}
    (hperm : ordered.Perm (table.rows.filter fun r => r.active = 1 ∧ r.Routable n))
    (hsorted : ordered.Pairwise fun r r' => r.ruleId ≤ r'.ruleId) :
    ordered = table.activeRules.filter fun r => r.Routable n := by
  refine List.Perm.eq_of_pairwise (fun r r' hr hr' hle hge => ?_) hsorted
    ((activeRules_sorted table).filter _) (hperm.trans (table.activeRules_perm n).symm)
  have hmem := (mem_filter.1 (hperm.mem_iff.1 hr)).1
  have hmem' := (mem_filter.1 ((table.activeRules_perm n).mem_iff.1 hr')).1
  exact inj_on_of_nodup_map table.key hmem hmem' (Int.le_antisymm hle hge)

theorem SqlValue.ofText_inj {s s' : Option Str} : SqlValue.ofText s = .ofText s' ↔ s = s' := by
  cases s <;> cases s' <;> simp [SqlValue.ofText]

theorem RuleColumns.runtime_injective : Function.Injective RuleColumns.runtime := by
  intro r r' h
  cases r
  cases r'
  simp only [RuleColumns.runtime, List.cons.injEq, SqlValue.int.injEq, SqlValue.ofText_inj] at h
  simp only [RuleColumns.mk.injEq]
  tauto

theorem dumpRuntimeQueryRules_eq (n : Nat) (table : RulesTable) :
    dumpRuntimeQueryRules (loadRules n table) =
      let rules := sanitisedRules n (table.activeRules.map fun r => r.narrowed)
      if (rules.map (·.ruleId)).Nodup then some (rules.map RuleColumns.runtime) else none := by
  unfold dumpRuntimeQueryRules
  rw [loadRules_eq, map_map, map_map]
  rfl

theorem sanitisedRules_source (n : Nat) (table : RulesTable) :
    sanitisedRules n (table.activeRules.map (·.toRuleColumns))
      = (table.activeRules.filter fun r => r.Routable n).map fun r => r.sanitised := by
  unfold sanitisedRules
  rw [filter_map, map_map]
  rfl

/-- The dump is as it should be just if narrowing makes no difference. -/
theorem queryRules_dumped_iff (n : Nat) (table : RulesTable) :
    RulesDumped n table.rows (dumpRuntimeQueryRules (loadRules n table)) ↔ table.Narrow n := by
  rw [dumpRuntimeQueryRules_eq]
  unfold RulesTable.Narrow
  dsimp only
  rw [sanitisedRules_source]
  constructor
  · rintro ⟨ordered, hperm, hsorted, hdump⟩
    rw [table.ordered_eq hperm hsorted] at hdump
    split at hdump
    · refine map_injective_iff.2 RuleColumns.runtime_injective ((Option.some.inj hdump).trans ?_)
      rw [map_map]
      rfl
    · cases hdump
  · intro h
    refine ⟨_, table.activeRules_perm n, (activeRules_sorted table).filter _, ?_⟩
    have hkey : ((table.rows.filter fun r => r.active = 1 ∧ r.Routable n).map (·.ruleId)).Nodup :=
      table.key.sublist (filter_sublist.map _)
    rw [h, map_map, map_map]
    exact if_pos (((table.activeRules_perm n).map _).nodup_iff.2 hkey)

/-- Numbers that fit in an `int` are kept. -/
theorem RulesTable.narrow_of_fits (n : Nat) {table : RulesTable}
    (h : ∀ r ∈ table.rows, r.active = 1 → r.narrowed = r.toRuleColumns) : table.Narrow n := by
  unfold RulesTable.Narrow
  congr 1
  refine map_congr_left fun r hr => ?_
  obtain ⟨hmem, hactive⟩ := mem_filter.1 ((mergeSort_perm _ _).mem_iff.1 hr)
  exact h r hmem (of_decide_eq_true hactive)

/-- Both tables come back, whatever memory held, exactly if there are no default hostgroups and
    narrowing makes no difference to the rules. -/
theorem runtimeDump_iff (d : DefHG) (n : Nat) (timeout : Int) (rows : List DefaultHostgroupRow)
    (rules : RulesTable) : (∀ loaded, Loaded rows loaded →
      (dumpRuntimeDefaultHostgroups (flushDefaultHostgroupsDbToMem d loaded)).Perm
          (rows.map DefaultHostgroupRow.values)) ∧
      RulesDumped n (filledRules timeout rules).rows
        (dumpRuntimeQueryRules (loadRules n (filledRules timeout rules))) ↔
    rows = [] ∧ (filledRules timeout rules).Narrow n := by
  rw [queryRules_dumped_iff]
  refine and_congr_left fun _ => ?_
  constructor
  · intro hall
    cases rows with
    | nil => rfl
    | cons row rows =>
      -- memory may hold a name that no row has as its user
      obtain ⟨name, hname⟩ :=
        Infinite.exists_notMem_finset ((row :: rows).map fun r => r.username.getD []).toFinset
      rw [mem_toFinset, mem_map] at hname
      have hperm :=
        hall ((row :: rows).map (·, some name)) (by rw [Loaded, map_map]; exact map_id _)
      have hmem : [.text name, .null, .int row.hostgroupId] ∈
        (row :: rows).map DefaultHostgroupRow.values :=
        hperm.mem_iff.1 (mem_cons.2 (.inl rfl))
      obtain ⟨r, hr, heq⟩ := mem_map.1 hmem
      have huser : SqlValue.ofText r.username = .text name := (List.cons.inj heq).1
      refine absurd ⟨r, hr, ?_⟩ hname
      cases hu : r.username with
      | none =>
        rw [hu] at huser
        cases huser
      | some u =>
        rw [hu] at huser
        cases huser
        rfl
  · rintro rfl loaded hloaded
    obtain rfl := map_eq_nil_iff.1 hloaded
    exact .nil

/-- The row of user `app` in schema `shop` comes back without both. -/
theorem runtimeDump_shopRow :
    dumpRuntimeDefaultHostgroups
      (flushDefaultHostgroupsDbToMem { version := 0, defaultHostgroups := [] }
        [(shopRow, none)]) = [[.null, .null, .int 1]] ∧
      shopRow.values = [.text (bytesOf "app"), .text (bytesOf "shop"), .int 1] := by decide

end ProxySQL
