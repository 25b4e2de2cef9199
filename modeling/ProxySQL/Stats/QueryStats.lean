/-
  ProxySQL.Stats.QueryStats

  The statistics of executed queries: `query_statistics_set` (`tokenizer.c`),
  called by any number of sessions, and the cycles of `qr_report_thread`
  (`fundadb_hash.c`), which swaps the two tables under the lock and then drains
  the one that sessions no longer write to without it.

  Records live in a heap of which freed records are no part; reading a freed
  record and freeing it again are faults of their own.  Waiting for the lock,
  the lookup and the update of a call are separate steps, and so are the parts
  of a reporting cycle; a table is a list of keys with the records they lead to.
-/
import ProxySQL.Lib.Run
import Mathlib.Logic.Function.Basic
import Mathlib.Algebra.BigOperators.Group.List.Basic
import Mathlib.Data.List.Nodup
import Mathlib.Tactic.Ring

namespace ProxySQL.Stats

open List Function Option

/-! ## Records, tables and rows -/

/-- `qr_hash_entry`; `value` points to the record itself and is left out. -/
structure QrHashEntry where
  key : String
  execCnt : Int
  queryTime : Int
  queryDigestMd5 : String
  queryDigestText : String
  username : String
  schemaname : String
  hostgroupId : Int
  mysqlServerAddress : Option String
  mysqlServerPort : Int

/-- `__generate_qr_hash_entry__key`. -/
def QrHashEntry.generateKey (e : QrHashEntry) : String :=
  e.queryDigestMd5 ++ "__" ++ e.username ++ "__" ++ e.schemaname ++ "__" ++ toString e.hostgroupId ++ "__"
    ++ e.mysqlServerAddress.getD "" ++ "__" ++ toString e.mysqlServerPort

/-- A row of `query_stats`. -/
structure QueryStatsRow where
  timestamp : Int
  queryDigestMd5 : String
  queryDigestText : String
  username : String
  schemaname : String
  hostgroupId : Int
  serverAddress : Option String
  serverPort : Int
  queryTime : Int
  execCnt : Int

/-- The row `__sqlite3_statsdb__flush_query_stats` inserts for a record. -/
def QrHashEntry.row (e : QrHashEntry) (curtime : Int) : QueryStatsRow where
  timestamp := curtime
  queryDigestMd5 := e.queryDigestMd5
  queryDigestText := e.queryDigestText
  username := e.username
  schemaname := e.schemaname
  hostgroupId := e.hostgroupId
  serverAddress := e.mysqlServerAddress
  serverPort := e.mysqlServerPort
  queryTime := e.queryTime
  execCnt := e.execCnt

/-- The statistics key a row belongs to. -/
def QueryStatsRow.key (r : QueryStatsRow) : String :=
  r.queryDigestMd5 ++ "__" ++ r.username ++ "__" ++ r.schemaname ++ "__" ++ toString r.hostgroupId ++ "__"
    ++ r.serverAddress.getD "" ++ "__" ++ toString r.serverPort

theorem QrHashEntry.row_key (e : QrHashEntry) (curtime : Int) : (e.row curtime).key = e.generateKey := rfl

/-- Where a session stands in `query_statistics_set`: `own` is its record, `totalTime` the local
    variable, `entry` what the lookup returned. -/
inductive SetPc where
  | idle
  | ready (own : Nat) (totalTime : Int)
  | locked (own : Nat) (totalTime : Int)
  | found (own : Nat) (totalTime : Int) (entry : Option Nat)
  | updated

/-- Where `qr_report_thread` stands in its cycle; `keys` is what is left of `keysList`, whose entries
    point into the records. -/
inductive ReportPc where
  | sleeping
  | locked (curtime : Int)
  | swapped (curtime : Int)
  | unlocked (curtime : Int)
  | writing (curtime : Int) (keys : List Nat)
  | removing

inductive LockOwner where
  | session (i : Nat)
  | reporter
  deriving DecidableEq

/-- A completed update of `query_statistics_set`. -/
structure SetCall where
  key : String
  elapsed : Int

/-- `QR_HASH_T` with the sessions, the report thread and the rows written; `calls` records the
    updates made. -/
structure QrStats where
  heap : Nat → Option QrHashEntry
  next : Nat
  cHash : List (String × Nat)
  pHash : List (String × Nat)
  lock : Option LockOwner
  sess : Nat → SetPc
  report : ReportPc
  rows : List QueryStatsRow
  calls : List SetCall

inductive StatFault where
  | blocked
  | usedAfterFree
  | freedTwice
  | nullEntry
  deriving DecidableEq

namespace QrStats

/-! ## Steps -/

def readEntry (s : QrStats) (id : Nat) : Except StatFault QrHashEntry :=
  match s.heap id with
  | some e => .ok e
  | none => .error .usedAfterFree

/-- `cleanup_query_stats`. -/
def cleanupQueryStats (s : QrStats) (id : Nat) : Except StatFault QrStats :=
  match s.heap id with
  | some _ => .ok { s with heap := update s.heap id none }
  | none => .error .freedTwice

def setSess (s : QrStats) (i : Nat) (pc : SetPc) : QrStats := { s with sess := update s.sess i pc }

end QrStats

inductive StatEvent where
  | prepare (i : Nat) (queryStats : QrHashEntry) (monotonicTime : Int)
  | lock (i : Nat)
  | lookup (i : Nat)
  | update (i : Nat)
  | unlock (i : Nat)
  | reportLock (curtime : Int)
  | swap
  | reportUnlock
  | getKeys (keys : List Nat)
  | writeRow
  | freeKeys
  | remove (id : Nat)
  | removed

namespace QrStats

/-- The session's record gets its key, a count of 1 and the time the query took. -/
def prepare (s : QrStats) (i : Nat) (queryStats : QrHashEntry) (monotonicTime : Int) :
    Except StatFault QrStats :=
  match s.sess i with
  | .idle =>
      let totalTime := monotonicTime - queryStats.queryTime
      let e := { queryStats with key := queryStats.generateKey, execCnt := 1, queryTime := totalTime }
      .ok { s.setSess i (.ready s.next totalTime) with
        heap := update s.heap s.next (some e)
        next := s.next + 1 }
  | _ => .error .blocked

def lockFor (s : QrStats) (i : Nat) : Except StatFault QrStats :=
  match s.sess i, s.lock with
  | .ready own totalTime, none => .ok { s.setSess i (.locked own totalTime) with lock := some (.session i) }
  | _, _ => .error .blocked

def lookup (s : QrStats) (i : Nat) : Except StatFault QrStats :=
  match s.sess i with
  | .locked own totalTime => do
      let e ← s.readEntry own
      .ok (s.setSess i (.found own totalTime (s.cHash.lookup e.key)))
  | _ => .error .blocked

/-- The record is inserted, or freed and added to the one found. -/
def update (s : QrStats) (i : Nat) : Except StatFault QrStats :=
  match s.sess i with
  | .found own totalTime none => do
      let e ← s.readEntry own
      .ok { s.setSess i .updated with
        cHash := (e.key, own) :: s.cHash
        calls := s.calls ++ [⟨e.key, totalTime⟩] }
  | .found own totalTime (some entry) => do
      let e ← s.readEntry own
      let s ← s.cleanupQueryStats own
      let x ← s.readEntry entry
      let x' := { x with execCnt := x.execCnt + 1, queryTime := x.queryTime + totalTime }
      .ok { s.setSess i .updated with
        heap := Function.update s.heap entry (some x')
        calls := s.calls ++ [⟨e.key, totalTime⟩] }
  | _ => .error .blocked

def unlock (s : QrStats) (i : Nat) : Except StatFault QrStats :=
  match s.sess i with
  | .updated => .ok { s.setSess i .idle with lock := none }
  | _ => .error .blocked

/-- One row: the key is looked up in `p_hash` and the record found there is written. -/
def writeRow (s : QrStats) : Except StatFault QrStats :=
  match s.report with
  | .writing curtime (id :: keys) => do
      let k ← s.readEntry id
      match s.pHash.lookup k.key with
      | none => .error .nullEntry
      | some entry =>
          let e ← s.readEntry entry
          .ok { s with rows := s.rows ++ [e.row curtime], report := .writing curtime keys }
  | _ => .error .blocked

/-- `g_hash_table_remove_all` destroys one record after the other. -/
def remove (s : QrStats) (id : Nat) : Except StatFault QrStats :=
  match s.report with
  | .removing =>
      if id ∈ s.pHash.map Prod.snd then do
        let s ← s.cleanupQueryStats id
        .ok { s with pHash := s.pHash.filter (·.2 ≠ id) }
      else .error .blocked
  | _ => .error .blocked

def step (s : QrStats) : StatEvent → Except StatFault QrStats
  | .prepare i queryStats monotonicTime => s.prepare i queryStats monotonicTime
  | .lock i => s.lockFor i
  | .lookup i => s.lookup i
  | .update i => s.update i
  | .unlock i => s.unlock i
  | .reportLock curtime =>
      match s.report, s.lock with
      | .sleeping, none => .ok { s with report := .locked curtime, lock := some .reporter }
      | _, _ => .error .blocked
  | .swap =>
      match s.report with
      | .locked curtime => .ok { s with report := .swapped curtime, cHash := s.pHash, pHash := s.cHash }
      | _ => .error .blocked
  | .reportUnlock =>
      match s.report with
      | .swapped curtime => .ok { s with report := .unlocked curtime, lock := none }
      | _ => .error .blocked
  | .getKeys keys =>
      match s.report with
      | .unlocked curtime =>
          -- The order is the hash table's.
          if keys.Perm (s.pHash.map Prod.snd) then .ok { s with report := .writing curtime keys }
          else .error .blocked
      | _ => .error .blocked
  | .writeRow => s.writeRow
  | .freeKeys =>
      match s.report with
      | .writing _ [] => .ok { s with report := .removing }
      | _ => .error .blocked
  | .remove id => s.remove id
  | .removed =>
      match s.report with
      | .removing => if s.pHash = [] then .ok { s with report := .sleeping } else .error .blocked
      | _ => .error .blocked

/-- After `qr_hashes_new`. -/
def init : QrStats where
  heap _ := none
  next := 0
  cHash := []
  pHash := []
  lock := none
  sess _ := .idle
  report := .sleeping
  rows := []
  calls := []

end QrStats

/-! ## Counting -/

/-- The two counters of a record. -/
inductive StatCounter where
  | execCnt
  | queryTime

namespace StatCounter

def ofEntry : StatCounter → QrHashEntry → Int
  | .execCnt, e => e.execCnt
  | .queryTime, e => e.queryTime

def ofRow : StatCounter → QueryStatsRow → Int
  | .execCnt, r => r.execCnt
  | .queryTime, r => r.queryTime

/-- What one call adds: itself, and the time its query took. -/
def ofCall : StatCounter → SetCall → Int
  | .execCnt, _ => 1
  | .queryTime, c => c.elapsed

end StatCounter

namespace QrStats

/-- The rows written for a key. -/
def written (s : QrStats) (m : StatCounter) (key : String) : Int :=
  ((s.rows.filter (·.key = key)).map m.ofRow).sum

/-- The calls made with a key. -/
def called (s : QrStats) (m : StatCounter) (key : String) : Int :=
  ((s.calls.filter (·.key = key)).map m.ofCall).sum

/-- What a record counts for a key. -/
def weight (heap : Nat → Option QrHashEntry) (m : StatCounter) (key : String) (id : Nat) : Int :=
  match heap id with
  | some e => if e.key = key then m.ofEntry e else 0
  | none => 0

/-- What the records of a list count for a key. -/
def held (s : QrStats) (m : StatCounter) (key : String) (ids : List Nat) : Int :=
  (ids.map (weight s.heap m key)).sum

/-- The records of `p_hash` that no row has been written for. -/
def unwritten (s : QrStats) : List Nat :=
  match s.report with
  | .writing _ keys => keys
  | .removing => []
  | _ => s.pHash.map Prod.snd

end QrStats

/-! ## The invariant -/

/-- The record a session has not given away yet, and the time it counts. -/
def SetPc.own : SetPc → Option (Nat × Int)
  | .ready own totalTime | .locked own totalTime | .found own totalTime _ => some (own, totalTime)
  | _ => none

/-- The session is between `wrlock` and `unlock`. -/
def SetPc.Holds : SetPc → Prop
  | .locked _ _ | .found _ _ _ | .updated => True
  | _ => False

variable {t : QrStats} {ids : List Nat} {id i own : Nat} {e : QrHashEntry} {pc : SetPc}
  {c : SetCall} {heap : Nat → Option QrHashEntry} {totalTime : Int} {es : List StatEvent}

namespace QrStats

/-- All records in the tables. -/
def tabled (s : QrStats) : List Nat := (s.cHash ++ s.pHash).map Prod.snd

/-- What holds by where the report thread stands. -/
def ReportOk (s : QrStats) : Prop :=
  match s.report with
  | .sleeping => s.pHash = []
  | .locked _ => s.pHash = [] ∧ s.lock = some .reporter
  | .swapped _ => s.lock = some .reporter
  | .unlocked _ => True
  | .writing _ keys => ∀ id ∈ keys, id ∈ s.pHash.map Prod.snd
  | .removing => True

structure Sound (s : QrStats) : Prop where
  fresh : ∀ id, s.next ≤ id → s.heap id = none
  tables : ∀ p ∈ s.cHash ++ s.pHash, ∃ e, s.heap p.2 = some e ∧ e.key = p.1 ∧ e.generateKey = e.key
  cKeys : (s.cHash.map Prod.fst).Nodup
  pKeys : (s.pHash.map Prod.fst).Nodup
  ids : s.tabled.Nodup
  own : ∀ i id totalTime, (s.sess i).own = some (id, totalTime) →
    (∃ e, s.heap id = some e ∧ e.generateKey = e.key ∧ e.execCnt = 1 ∧ e.queryTime = totalTime) ∧
    id ∉ s.tabled
  ownInj : ∀ i j id u v, (s.sess i).own = some (id, u) → (s.sess j).own = some (id, v) → i = j
  found : ∀ i id totalTime entry e, s.sess i = .found id totalTime entry → s.heap id = some e →
    s.cHash.lookup e.key = entry
  holds : ∀ i, (s.sess i).Holds → s.lock = some (.session i)
  report : s.ReportOk
  conserved : ∀ m key, s.written m key + s.held m key (s.cHash.map Prod.snd) + s.held m key s.unwritten
    = s.called m key

theorem sound_init : init.Sound where
  fresh _ _ := rfl
  tables _ hp := absurd hp not_mem_nil
  cKeys := nodup_nil
  pKeys := nodup_nil
  ids := nodup_nil
  own _ _ _ h := by cases h
  ownInj _ _ _ _ _ h := by cases h
  found _ _ _ _ _ h := by cases h
  holds _ h := h.elim
  report := rfl
  conserved _ _ := rfl

/-- The outcome of a step: it may have to wait, and otherwise goes well. -/
def Safe (r : Except StatFault QrStats) : Prop := r = .error .blocked ∨ ∃ t, r = .ok t ∧ t.Sound

section Steps

variable {s : QrStats}

theorem held_congr (h : ∀ id ∈ ids, t.heap id = s.heap id) (m : StatCounter)
    (key : String) : t.held m key ids = s.held m key ids := by
  refine congrArg List.sum (map_congr_left fun id hid => ?_)
  rw [weight, weight, h id hid]

theorem Sound.tabled_some (h : s.Sound) (hid : id ∈ s.tabled) : ∃ e, s.heap id = some e := by
  obtain ⟨p, hp, rfl⟩ := mem_map.1 hid
  obtain ⟨e, he, -⟩ := h.tables p hp
  exact ⟨e, he⟩

theorem readEntry_of (h : s.heap id = some e) : s.readEntry id = .ok e := by
  rw [readEntry, h]

theorem cleanup_of (h : s.heap id = some e) :
    s.cleanupQueryStats id = .ok { s with heap := Function.update s.heap id none } := by
  rw [cleanupQueryStats, h]

theorem Sound.next_notMem (h : s.Sound) : s.next ∉ s.tabled := by
  intro hid
  obtain ⟨e, he⟩ := h.tabled_some hid
  rw [h.fresh s.next (Nat.le_refl _)] at he
  cases he

theorem mem_tabled_of_cHash (h : id ∈ s.cHash.map Prod.snd) : id ∈ s.tabled := by
  rw [tabled, map_append]
  exact mem_append_left _ h

theorem mem_tabled_of_pHash (h : id ∈ s.pHash.map Prod.snd) : id ∈ s.tabled := by
  rw [tabled, map_append]
  exact mem_append_right _ h

theorem Sound.unwritten_pHash (h : s.Sound) (hid : id ∈ s.unwritten) : id ∈ s.pHash.map Prod.snd := by
  have hreport := h.report
  rw [ReportOk] at hreport
  rw [unwritten] at hid
  cases hr : s.report with
  | writing curtime keys =>
    rw [hr] at hid hreport
    exact hreport id hid
  | removing =>
    rw [hr] at hid
    exact absurd hid not_mem_nil
  | sleeping =>
    rw [hr] at hid
    exact hid
  | locked curtime =>
    rw [hr] at hid
    exact hid
  | swapped curtime =>
    rw [hr] at hid
    exact hid
  | unlocked curtime =>
    rw [hr] at hid
    exact hid

theorem Sound.cHash_ne_pHash (h : s.Sound) {a b : Nat} (ha : a ∈ s.cHash.map Prod.snd)
    (hb : b ∈ s.pHash.map Prod.snd) : a ≠ b := by
  have hids := h.ids
  rw [tabled, map_append] at hids
  exact (nodup_append.1 hids).2.2 a ha b hb

theorem Sound.cIds_nodup (h : s.Sound) : (s.cHash.map Prod.snd).Nodup := by
  have hids := h.ids
  rw [tabled, map_append] at hids
  exact (nodup_append.1 hids).1

theorem Sound.unwritten_subset (h : s.Sound) (hid : id ∈ s.unwritten) : id ∈ s.tabled :=
  mem_tabled_of_pHash (h.unwritten_pHash hid)

/-- Nothing is counted or given away, and the records in the tables are as they were. -/
theorem Sound.conserved_of (h : s.Sound) (hrows : t.rows = s.rows) (hcalls : t.calls = s.calls)
    (hcHash : t.cHash = s.cHash) (hunwritten : t.unwritten = s.unwritten)
    (hheap : ∀ id ∈ s.tabled, t.heap id = s.heap id) (m : StatCounter) (key : String) :
    t.written m key + t.held m key (t.cHash.map Prod.snd) + t.held m key t.unwritten = t.called m key := by
  have hc : t.held m key (s.cHash.map Prod.snd) = s.held m key (s.cHash.map Prod.snd) :=
    held_congr (fun id hid => hheap id (mem_tabled_of_cHash hid)) m key
  have hu : t.held m key s.unwritten = s.held m key s.unwritten :=
    held_congr (fun id hid => hheap id (h.unwritten_subset hid)) m key
  rw [hcHash, hunwritten, hc, hu, written, called, hrows, hcalls]
  exact h.conserved m key

theorem Sound.own_ne_next (h : s.Sound) {u : Int} (hown : (s.sess i).own = some (id, u)) :
    id ≠ s.next := by
  obtain ⟨⟨e, he, -⟩, -⟩ := h.own i id u hown
  rintro rfl
  rw [h.fresh s.next (Nat.le_refl _)] at he
  cases he

/-- The report thread does not mind who holds the lock while it does not hold it itself. -/
theorem Sound.reportOk_lock (h : s.Sound) (hlock : s.lock ≠ some .reporter) {lock : Option LockOwner} :
    ReportOk { s with lock } := by
  have hreport := h.report
  rw [ReportOk] at hreport ⊢
  cases hr : s.report with
  | locked curtime =>
    rw [hr] at hreport
    exact absurd hreport.2 hlock
  | swapped curtime =>
    rw [hr] at hreport
    exact absurd hreport hlock
  | sleeping =>
    rw [hr] at hreport
    exact hreport
  | unlocked curtime => trivial
  | writing curtime keys =>
    rw [hr] at hreport
    exact hreport
  | removing => trivial

/-! ### Sessions -/

theorem sess_cases (sess : Nat → SetPc) (i : Nat) (pc : SetPc) (j : Nat) :
    (j = i ∧ Function.update sess i pc j = pc) ∨ (j ≠ i ∧ Function.update sess i pc j = sess j) := by
  by_cases hj : j = i
  · exact .inl ⟨hj, hj ▸ update_self ..⟩
  · exact .inr ⟨hj, update_of_ne hj ..⟩

theorem holds_of_update {j : Nat} (hpc : ¬pc.Holds) (hj : (Function.update s.sess i pc j).Holds) :
    j ≠ i ∧ (s.sess j).Holds := by
  rcases sess_cases s.sess i pc j with ⟨-, heq⟩ | ⟨hne, heq⟩
  · rw [heq] at hj
    exact absurd hj hpc
  · rw [heq] at hj
    exact ⟨hne, hj⟩

theorem Sound.setSess (h : s.Sound) (lock : Option LockOwner)
    (hown : pc.own = none ∨ pc.own = (s.sess i).own)
    (hfound : ∀ id u entry e, pc = .found id u entry → s.heap id = some e → s.cHash.lookup e.key = entry)
    (hholds : ∀ j, (Function.update s.sess i pc j).Holds → lock = some (.session j))
    (hreport : ReportOk { s with lock }) : Sound { s.setSess i pc with lock } := by
  have hback : ∀ j x, (Function.update s.sess i pc j).own = some x → (s.sess j).own = some x := by
    intro j x hj
    rcases sess_cases s.sess i pc j with ⟨rfl, heq⟩ | ⟨-, heq⟩
    · rw [heq] at hj
      rcases hown with hnone | hsame
      · rw [hnone] at hj
        cases hj
      · rw [← hsame, hj]
    · rwa [heq] at hj
  refine ⟨h.fresh, h.tables, h.cKeys, h.pKeys, h.ids, fun j id u hj => h.own j id u (hback j _ hj),
    fun j k id u v hj hk => h.ownInj j k id u v (hback j _ hj) (hback k _ hk),
    fun j id u entry e hj he => ?_, hholds, hreport, h.conserved⟩
  rcases sess_cases s.sess i pc j with ⟨-, heq⟩ | ⟨-, heq⟩
  · exact hfound id u entry e (heq.symm.trans hj) he
  · exact h.found j id u entry e (heq.symm.trans hj) he

theorem Sound.prepare (h : s.Sound) (i : Nat) (queryStats : QrHashEntry) (monotonicTime : Int) :
    Safe (s.prepare i queryStats monotonicTime) := by
  rw [QrStats.prepare]
  split
  · next hidle =>
    have hkept : ∀ id e v, s.heap id = some e → Function.update s.heap s.next v id = some e := by
      intro id e v he
      refine (update_of_ne ?_ ..).trans he
      rintro rfl
      rw [h.fresh s.next (Nat.le_refl _)] at he
      cases he
    refine .inr ⟨_, rfl, ?_⟩
    refine ⟨fun id hid => ?_, fun p hp => ?_, h.cKeys, h.pKeys, h.ids, fun j id u hj => ?_,
      fun j k id u v hj hk => ?_, fun j id u entry e hj he => ?_, fun j hj => ?_, h.report, fun m key => ?_⟩
    · have hid : s.next + 1 ≤ id := hid
      exact (update_of_ne (by omega) ..).trans (h.fresh id (by omega))
    · obtain ⟨e, he, hkey⟩ := h.tables p hp
      exact ⟨e, hkept p.2 e _ he, hkey⟩
    · rcases sess_cases s.sess i _ j with ⟨-, heq⟩ | ⟨-, heq⟩
      · obtain ⟨rfl, rfl⟩ := Prod.mk.inj (some.inj ((congrArg SetPc.own heq).symm.trans hj))
        exact ⟨⟨_, update_self .., rfl, rfl, rfl⟩, h.next_notMem⟩
      · obtain ⟨⟨e, he, hrest⟩, hnot⟩ := h.own j id u ((congrArg SetPc.own heq).symm.trans hj)
        exact ⟨⟨e, hkept id e _ he, hrest⟩, hnot⟩
    · rcases sess_cases s.sess i _ j with ⟨rfl, hjeq⟩ | ⟨-, hjeq⟩
      · obtain ⟨rfl, rfl⟩ := Prod.mk.inj (some.inj ((congrArg SetPc.own hjeq).symm.trans hj))
        rcases sess_cases s.sess j _ k with ⟨rfl, -⟩ | ⟨-, hkeq⟩
        · rfl
        · exact absurd rfl (h.own_ne_next ((congrArg SetPc.own hkeq).symm.trans hk))
      · have hj := (congrArg SetPc.own hjeq).symm.trans hj
        rcases sess_cases s.sess i _ k with ⟨-, hkeq⟩ | ⟨-, hkeq⟩
        · obtain ⟨rfl, rfl⟩ := Prod.mk.inj (some.inj ((congrArg SetPc.own hkeq).symm.trans hk))
          exact absurd rfl (h.own_ne_next hj)
        · exact h.ownInj j k id u v hj ((congrArg SetPc.own hkeq).symm.trans hk)
    · rcases sess_cases s.sess i _ j with ⟨-, heq⟩ | ⟨-, heq⟩
      · cases heq.symm.trans hj
      · have hj := heq.symm.trans hj
        have hne : id ≠ s.next := h.own_ne_next (congrArg SetPc.own hj)
        exact h.found j id u entry e hj ((update_of_ne hne ..).symm.trans he)
    · exact h.holds j (holds_of_update id hj).2
    · refine h.conserved_of ?_ ?_ ?_ ?_ (fun id hid => ?_) m key
      · rfl
      · rfl
      · rfl
      · rfl
      · exact update_of_ne (fun heq : id = s.next => h.next_notMem (heq ▸ hid)) ..
  · exact .inl rfl

theorem Sound.lockFor (h : s.Sound) (i : Nat) : Safe (s.lockFor i) := by
  rw [QrStats.lockFor]
  split
  · next own totalTime hready hlock =>
    refine .inr ⟨_, rfl, h.setSess _ (.inr ?_) (fun id u entry e hpc => ?_) (fun j hj => ?_) ?_⟩
    · rw [hready]
      rfl
    · cases hpc
    · rcases sess_cases s.sess i (.locked own totalTime) j with ⟨rfl, -⟩ | ⟨-, heq⟩
      · rfl
      · have hheld := h.holds j (heq ▸ hj)
        rw [hlock] at hheld
        cases hheld
    · exact h.reportOk_lock (by rw [hlock]; nofun)
  · exact .inl rfl

theorem Sound.lookup (h : s.Sound) (i : Nat) : Safe (s.lookup i) := by
  rw [QrStats.lookup]
  split
  · next own totalTime hlocked =>
    obtain ⟨⟨e, he, -⟩, -⟩ := h.own i own totalTime (by rw [hlocked]; rfl)
    rw [readEntry, he]
    refine .inr ⟨_, rfl, h.setSess s.lock (.inr ?_) (fun id u entry e' hpc he' => ?_)
      (fun j hj => ?_) h.report⟩
    · rw [hlocked]
      rfl
    · obtain ⟨rfl, -, rfl⟩ := SetPc.found.inj hpc
      obtain rfl := some.inj (he.symm.trans he')
      rfl
    · rcases sess_cases s.sess i (.found own totalTime (s.cHash.lookup e.key)) j with ⟨rfl, -⟩ | ⟨-, heq⟩
      · exact h.holds j (by rw [hlocked]; trivial)
      · exact h.holds j (heq ▸ hj)
  · exact .inl rfl

theorem Sound.unlock (h : s.Sound) (i : Nat) : Safe (s.unlock i) := by
  rw [QrStats.unlock]
  split
  · next hupdated =>
    have hlock := h.holds i (by rw [hupdated]; trivial)
    refine .inr ⟨_, rfl, h.setSess _ (.inl rfl) (fun id u entry e hpc => ?_) (fun j hj => ?_) ?_⟩
    · cases hpc
    · obtain ⟨hne, hj⟩ := holds_of_update id hj
      have hheld := h.holds j hj
      rw [hlock] at hheld
      cases hheld
      exact absurd rfl hne
    · exact h.reportOk_lock (by rw [hlock]; nofun)
  · exact .inl rfl

/-! ### The update -/

section Tables

variable {l : List (String × Nat)} {key : String} {id : Nat}

theorem mem_of_lookup (h : l.lookup key = some id) : (key, id) ∈ l := by
  induction l with
  | nil => cases h
  | cons p l ih =>
    rw [lookup_cons] at h
    split at h
    · next heq =>
      obtain rfl := eq_of_beq heq
      cases h
      exact mem_cons_self ..
    · exact mem_cons_of_mem _ (ih h)

theorem notMem_of_lookup (h : l.lookup key = none) : key ∉ l.map Prod.fst := by
  intro hin
  obtain ⟨p, hp, rfl⟩ := mem_map.1 hin
  have hfound := lookup_eq_none_iff.1 h p hp
  simp at hfound

theorem lookup_of_mem (hkeys : (l.map Prod.fst).Nodup) (h : (key, id) ∈ l) : l.lookup key = some id := by
  cases hl : l.lookup key with
  | none => exact absurd (mem_map.2 ⟨_, h, rfl⟩) (notMem_of_lookup hl)
  | some id' =>
    have hp := mem_of_lookup hl
    exact congrArg some (congrArg Prod.snd (inj_on_of_nodup_map hkeys hp h rfl))

end Tables

theorem sum_weight_update (heap : Nat → Option QrHashEntry) (v : Option QrHashEntry)
    (hnodup : ids.Nodup) (hid : id ∈ ids) (m : StatCounter) (key : String) :
    (ids.map (weight (Function.update heap id v) m key)).sum
      = (ids.map (weight heap m key)).sum - weight heap m key id
        + weight (Function.update heap id v) m key id := by
  induction ids with
  | nil => cases hid
  | cons x ids ih =>
    obtain ⟨hx, hnodup⟩ := nodup_cons.1 hnodup
    have hother : ∀ y, y ≠ id → weight (Function.update heap id v) m key y = weight heap m key y := by
      intro y hy
      rw [weight, weight, update_of_ne hy]
    rw [map_cons, map_cons, sum_cons, sum_cons]
    by_cases hxid : x = id
    · subst hxid
      have hrest : ids.map (weight (Function.update heap x v) m key) = ids.map (weight heap m key) :=
        map_congr_left fun y hy => hother y fun heq => hx (heq ▸ hy)
      rw [hrest]
      ring
    · have hin : id ∈ ids := (mem_cons.1 hid).resolve_left fun heq => hxid heq.symm
      rw [ih hnodup hin, hother x hxid]
      ring

theorem called_append (h : t.calls = s.calls ++ [c]) (m : StatCounter) (key : String) :
    t.called m key = s.called m key + if c.key = key then m.ofCall c else 0 := by
  rw [called, called, h, filter_append, map_append, sum_append]
  by_cases hkey : c.key = key
  · simp [hkey]
  · simp [hkey]

theorem weight_of_some (h : heap id = some e)
    (m : StatCounter) (key : String) : weight heap m key id = if e.key = key then m.ofEntry e else 0 := by
  rw [weight, h]

/-- A session that has looked its record up is done with it: what it does to the tables leaves the
    records of the others alone, and only the session that holds the lock is past its lookup. -/
theorem Sound.updated (h : s.Sound) {entry : Option Nat}
    (hfound : s.sess i = .found own totalTime entry)
    {cHash : List (String × Nat)} {calls : List SetCall} (hfresh : ∀ id, s.next ≤ id → heap id = none)
    (htables : ∀ p ∈ cHash ++ s.pHash, ∃ e, heap p.2 = some e ∧ e.key = p.1 ∧ e.generateKey = e.key)
    (hkeys : (cHash.map Prod.fst).Nodup) (hids : ((cHash ++ s.pHash).map Prod.snd).Nodup)
    (hothers : ∀ id, id ≠ own → id ∉ s.tabled →
      heap id = s.heap id ∧ id ∉ (cHash ++ s.pHash).map Prod.snd)
    (hconserved : ∀ m key, s.written m key + ((cHash.map Prod.snd).map (weight heap m key)).sum
      + (s.unwritten.map (weight heap m key)).sum = QrStats.called { s with calls } m key) :
    Sound { s.setSess i .updated with heap, cHash, calls } := by
  have hback : ∀ j x, (Function.update s.sess i .updated j).own = some x →
      j ≠ i ∧ (s.sess j).own = some x := by
    intro j x hj
    rcases sess_cases s.sess i .updated j with ⟨-, heq⟩ | ⟨hne, heq⟩
    · rw [heq] at hj
      cases hj
    · exact ⟨hne, heq ▸ hj⟩
  have hlock := h.holds i (by rw [hfound]; trivial)
  refine ⟨hfresh, htables, hkeys, h.pKeys, hids, fun j id u hj => ?_, fun j k id u v hj hk => ?_,
    fun j id u found y hj hy => ?_, fun j hj => ?_, h.report, hconserved⟩
  · obtain ⟨hne, hj⟩ := hback j _ hj
    obtain ⟨⟨e, he, hrest⟩, hnot⟩ := h.own j id u hj
    have hid : id ≠ own := by
      rintro rfl
      exact hne (h.ownInj j i _ u totalTime hj (by rw [hfound]; rfl))
    obtain ⟨hsame, hnot⟩ := hothers id hid hnot
    exact ⟨⟨e, hsame.trans he, hrest⟩, hnot⟩
  · exact h.ownInj j k id u v (hback j _ hj).2 (hback k _ hk).2
  · rcases sess_cases s.sess i .updated j with ⟨-, heq⟩ | ⟨hne, heq⟩
    · cases heq.symm.trans hj
    · have hheld := h.holds j (by rw [heq.symm.trans hj]; trivial)
      rw [hlock] at hheld
      cases hheld
      exact absurd rfl hne
  · rcases sess_cases s.sess i .updated j with ⟨rfl, -⟩ | ⟨-, heq⟩
    · exact hlock
    · exact h.holds j (heq ▸ hj)

theorem Sound.update_insert (h : s.Sound)
    (hfound : s.sess i = .found own totalTime none) : Safe (s.update i) := by
  obtain ⟨⟨e, he, hkey, hcnt, htime⟩, hnot⟩ := h.own i own totalTime (by rw [hfound]; rfl)
  have hlookup := h.found i own totalTime none e hfound he
  rw [QrStats.update, hfound]
  dsimp only
  rw [readEntry, he]
  refine .inr ⟨_, rfl, h.updated hfound h.fresh ?_ ?_ ?_ (fun id hid hout => ⟨rfl, ?_⟩) fun m key => ?_⟩
  · exact forall_mem_cons.2 ⟨⟨e, he, rfl, hkey⟩, h.tables⟩
  · exact nodup_cons.2 ⟨notMem_of_lookup hlookup, h.cKeys⟩
  · exact nodup_cons.2 ⟨hnot, h.ids⟩
  · exact mem_cons.not.2 (not_or.2 ⟨hid, hout⟩)
  · have hcall : m.ofEntry e = m.ofCall ⟨e.key, totalTime⟩ := by
      cases m with
      | execCnt => exact hcnt
      | queryTime => exact htime
    have hnew := weight_of_some he m key
    rw [hcall] at hnew
    rw [called_append rfl, ← h.conserved m key]
    change s.written m key + (weight s.heap m key own + s.held m key (s.cHash.map Prod.snd))
      + s.held m key s.unwritten = _
    rw [hnew]
    ring

/-- A record of the current table counts one call more, and one outside the tables is freed. -/
theorem Sound.held_merge (h : s.Sound) {entry : Nat} {x x' : QrHashEntry}
    (hx : s.heap entry = some x) (hentry : entry ∈ s.cHash.map Prod.snd) (hown : own ∉ s.tabled)
    (hkey : x'.key = x.key) (hc : c.key = x.key)
    (hcount : ∀ m : StatCounter, m.ofEntry x' = m.ofEntry x + m.ofCall c)
    (hheap : heap = Function.update (Function.update s.heap own none) entry (some x'))
    (m : StatCounter) (key : String) :
    ((s.cHash.map Prod.snd).map (weight heap m key)).sum + (s.unwritten.map (weight heap m key)).sum
      = s.held m key (s.cHash.map Prod.snd) + s.held m key s.unwritten
        + if c.key = key then m.ofCall c else 0 := by
  have hne : entry ≠ own := fun heq => hown (heq ▸ mem_tabled_of_cHash hentry)
  have hxleft : Function.update s.heap own none entry = some x := (update_of_ne hne ..).trans hx
  have hleft : ((s.cHash.map Prod.snd).map (weight (Function.update s.heap own none) m key)).sum
      = s.held m key (s.cHash.map Prod.snd) :=
    held_congr (s := s) (t := { s with heap := Function.update s.heap own none }) (fun id hid =>
      update_of_ne (fun heq : id = own => hown (heq ▸ mem_tabled_of_cHash hid)) ..) m key
  have hu : (s.unwritten.map (weight heap m key)).sum = s.held m key s.unwritten := by
    refine held_congr (s := s) (t := { s with heap }) (fun id hid => ?_) m key
    have hentry' := (h.cHash_ne_pHash hentry (h.unwritten_pHash hid)).symm
    have hown' : id ≠ own := fun heq => hown (heq ▸ h.unwritten_subset hid)
    rw [hheap]
    exact (update_of_ne hentry' ..).trans (update_of_ne hown' ..)
  rw [hu, hheap, sum_weight_update _ _ h.cIds_nodup hentry, hleft, weight_of_some hxleft,
    weight_of_some (update_self ..), hkey, hc, hcount]
  split <;> ring

/-- The record found counts the call, and the session's own record is freed. -/
theorem Sound.update_merge (h : s.Sound) {entry : Nat}
    (hfound : s.sess i = .found own totalTime (some entry)) : Safe (s.update i) := by
  obtain ⟨⟨e, he, -⟩, hnot⟩ := h.own i own totalTime (by rw [hfound]; rfl)
  have hmem := mem_of_lookup (h.found i own totalTime (some entry) e hfound he)
  obtain ⟨x, hx, hxkey, -⟩ := h.tables _ (mem_append_left _ hmem)
  have hentryC : entry ∈ s.cHash.map Prod.snd := mem_map.2 ⟨_, hmem, rfl⟩
  have hentry : entry ∈ s.tabled := mem_tabled_of_cHash hentryC
  have hne : entry ≠ own := fun heq => hnot (heq ▸ hentry)
  rw [QrStats.update, hfound]
  dsimp only
  rw [readEntry_of he]
  dsimp only [bind, Except.bind]
  rw [cleanup_of he]
  dsimp only
  have hxleft : QrStats.heap { s with heap := Function.update s.heap own none } entry = some x :=
    (update_of_ne hne ..).trans hx
  rw [readEntry_of hxleft]
  obtain ⟨x', hx'⟩ : ∃ x', x' = { x with execCnt := x.execCnt + 1, queryTime := x.queryTime + totalTime } :=
    ⟨_, rfl⟩
  obtain ⟨heap, hheap⟩ : ∃ heap, heap = Function.update (Function.update s.heap own none) entry (some x') :=
    ⟨_, rfl⟩
  have hkept : ∀ id, id ≠ entry → id ≠ own → heap id = s.heap id := by
    intro id h1 h2
    rw [hheap, update_of_ne h1, update_of_ne h2]
  have hsound : Sound { s.setSess i .updated with heap, calls := s.calls ++ [⟨e.key, totalTime⟩] } := by
    refine h.updated hfound (fun id hid => ?_) (fun p hp => ?_) h.cKeys h.ids
      (fun id hid hout => ⟨hkept id (fun heq => hout (heq ▸ hentry)) hid, hout⟩) fun m key => ?_
    · have hnone := h.fresh id hid
      have hid' : id ≠ entry := by
        rintro rfl
        rw [hx] at hnone
        cases hnone
      rw [hheap, update_of_ne hid', update_apply, hnone, ite_self]
    · obtain ⟨y, hy, hykey, hygen⟩ := h.tables p hp
      by_cases hp2 : p.2 = entry
      · rw [hp2, hx] at hy
        cases hy
        refine ⟨x', by rw [hheap, hp2, update_self], ?_⟩
        rw [hx']
        exact ⟨hykey, hygen⟩
      · have hp3 : p.2 ≠ own := fun heq => hnot (heq ▸ mem_map.2 ⟨p, hp, rfl⟩)
        exact ⟨y, (hkept p.2 hp2 hp3).trans hy, hykey, hygen⟩
    · have hcount : ∀ m : StatCounter, m.ofEntry x' = m.ofEntry x + m.ofCall ⟨e.key, totalTime⟩ := by
        intro m
        rw [hx']
        cases m with
        | execCnt => rfl
        | queryTime => rfl
      have hheld := h.held_merge hx hentryC hnot (by rw [hx']) hxkey.symm hcount hheap m key
      rw [called_append rfl, ← h.conserved m key, Int.add_assoc]
      refine (congrArg (s.written m key + ·) hheld).trans ?_
      ring
  exact .inr ⟨_, by rw [hheap, hx']; rfl, hsound⟩

theorem Sound.update (h : s.Sound) (i : Nat) : Safe (s.update i) := by
  cases hpc : s.sess i with
  | found own totalTime entry =>
    cases entry with
    | none => exact h.update_insert hpc
    | some entry => exact h.update_merge hpc
  | idle =>
    rw [QrStats.update, hpc]
    exact .inl rfl
  | ready own totalTime =>
    rw [QrStats.update, hpc]
    exact .inl rfl
  | locked own totalTime =>
    rw [QrStats.update, hpc]
    exact .inl rfl
  | updated =>
    rw [QrStats.update, hpc]
    exact .inl rfl

/-! ### The report thread -/

theorem Sound.setReport (h : s.Sound) (report : ReportPc) (lock : Option LockOwner)
    (hholds : ∀ j, (s.sess j).Holds → lock = some (.session j)) (hreport : ReportOk { s with report, lock })
    (hperm : (unwritten { s with report, lock }).Perm s.unwritten) : Sound { s with report, lock } := by
  refine ⟨h.fresh, h.tables, h.cKeys, h.pKeys, h.ids, h.own, h.ownInj, h.found, hholds, hreport,
    fun m key => ?_⟩
  have hsum : held { s with report, lock } m key (unwritten { s with report, lock }) =
    s.held m key s.unwritten :=
    (hperm.map _).sum_eq
  rw [hsum]
  exact h.conserved m key

theorem Sound.reportLock (h : s.Sound) (curtime : Int) : Safe (s.step (.reportLock curtime)) := by
  rw [step]
  split
  · next hr hlock =>
    have hreport := h.report
    rw [ReportOk, hr] at hreport
    refine .inr ⟨_, rfl, h.setReport _ _ (fun j hj => ?_) ⟨hreport, rfl⟩ ?_⟩
    · have hheld := h.holds j hj
      rw [hlock] at hheld
      cases hheld
    · rw [unwritten, unwritten, hr]
  · exact .inl rfl

/-- No session is between lookup and update while the tables change places, and `p_hash` is empty. -/
theorem Sound.swap (h : s.Sound) : Safe (s.step .swap) := by
  rw [step]
  split
  · next curtime hr =>
    have hreport := h.report
    rw [ReportOk, hr] at hreport
    obtain ⟨hempty, hlock⟩ := hreport
    have hfree : ∀ j, ¬(s.sess j).Holds := by
      intro j hj
      have hheld := h.holds j hj
      rw [hlock] at hheld
      cases hheld
    have hperm : ((s.pHash ++ s.cHash).map Prod.snd).Perm s.tabled := perm_append_comm.map _
    refine .inr ⟨_, rfl, h.fresh, fun p hp => h.tables p (perm_append_comm.mem_iff.1 hp), h.pKeys, h.cKeys,
      hperm.nodup_iff.2 h.ids, fun j id u hj => ?_, h.ownInj, fun j id u entry e hj => ?_, h.holds, hlock,
      fun m key => ?_⟩
    · obtain ⟨hrec, hnot⟩ := h.own j id u hj
      exact ⟨hrec, fun hin => hnot (hperm.mem_iff.1 hin)⟩
    · refine absurd ?_ (hfree j)
      rw [hj]
      trivial
    · have hsum := h.conserved m key
      rw [unwritten, hr] at hsum
      refine Eq.trans ?_ hsum
      change s.written m key + s.held m key (s.pHash.map Prod.snd) + s.held m key (s.cHash.map Prod.snd)
        = s.written m key + s.held m key (s.cHash.map Prod.snd) + s.held m key (s.pHash.map Prod.snd)
      ring
  · exact .inl rfl

theorem Sound.reportUnlock (h : s.Sound) : Safe (s.step .reportUnlock) := by
  rw [step]
  split
  · next curtime hr =>
    have hreport := h.report
    rw [ReportOk, hr] at hreport
    refine .inr ⟨_, rfl, h.setReport _ _ (fun j hj => ?_) trivial ?_⟩
    · have hheld := h.holds j hj
      rw [show s.lock = some .reporter from hreport] at hheld
      cases hheld
    · rw [unwritten, unwritten, hr]
  · exact .inl rfl

theorem Sound.getKeys (h : s.Sound) (keys : List Nat) : Safe (s.step (.getKeys keys)) := by
  rw [step]
  split
  · next curtime hr =>
    split
    · next hperm =>
      refine .inr ⟨_, rfl, h.setReport _ s.lock h.holds (fun id hid => hperm.mem_iff.1 hid) ?_⟩
      rw [unwritten, unwritten, hr]
      exact hperm
    · exact .inl rfl
  · exact .inl rfl

theorem Sound.freeKeys (h : s.Sound) : Safe (s.step .freeKeys) := by
  rw [step]
  split
  · next curtime hr =>
    refine .inr ⟨_, rfl, h.setReport _ s.lock h.holds trivial ?_⟩
    rw [unwritten, unwritten, hr]
  · exact .inl rfl

theorem Sound.removed (h : s.Sound) : Safe (s.step .removed) := by
  rw [step]
  split
  · next hr =>
    split
    · next hempty =>
      refine .inr ⟨_, rfl, h.setReport _ s.lock h.holds hempty ?_⟩
      rw [unwritten, unwritten, hr, hempty]
      rfl
    · exact .inl rfl
  · exact .inl rfl

theorem written_append {r : QueryStatsRow} (h : t.rows = s.rows ++ [r]) (m : StatCounter)
    (key : String) : t.written m key = s.written m key + if r.key = key then m.ofRow r else 0 := by
  rw [written, written, h, filter_append, map_append, sum_append]
  by_cases hkey : r.key = key
  · simp [hkey]
  · simp [hkey]

/-- The key leads back to the record it is read from, and what that one counts goes into the row. -/
theorem Sound.writeRow (h : s.Sound) : Safe s.writeRow := by
  rw [QrStats.writeRow]
  split
  · next curtime id keys hr =>
    have hreport := h.report
    rw [ReportOk, hr] at hreport
    obtain ⟨p, hp, rfl⟩ := mem_map.1 (hreport _ mem_cons_self)
    obtain ⟨e, he, hkey, hgen⟩ := h.tables p (mem_append_right _ hp)
    have hlookup : s.pHash.lookup e.key = some p.2 := hkey ▸ lookup_of_mem h.pKeys hp
    rw [readEntry_of he]
    dsimp only [bind, Except.bind]
    rw [hlookup]
    dsimp only
    rw [readEntry_of he]
    refine .inr ⟨_, rfl, h.fresh, h.tables, h.cKeys, h.pKeys, h.ids, h.own, h.ownInj, h.found, h.holds,
      fun x hx => hreport x (mem_cons_of_mem _ hx), fun m key => ?_⟩
    have hrow : m.ofRow (e.row curtime) = m.ofEntry e := by
      cases m with
      | execCnt => rfl
      | queryTime => rfl
    have hsum := h.conserved m key
    rw [unwritten, hr] at hsum
    have hsplit : s.held m key (p.2 :: keys) = (if e.key = key then m.ofEntry e else 0) +
      s.held m key keys := by
      rw [held, map_cons, sum_cons, weight_of_some he]
      rfl
    rw [written_append rfl, QrHashEntry.row_key, hgen, hrow]
    rw [show s.held m key _ = _ from hsplit] at hsum
    change _ + s.held m key (s.cHash.map Prod.snd) + s.held m key keys = s.called m key
    rw [← hsum]
    ring
  · exact .inl rfl

/-- A record of `p_hash` is destroyed: no session refers to it, and it has been written. -/
theorem Sound.remove (h : s.Sound) (id : Nat) : Safe (s.remove id) := by
  rw [QrStats.remove]
  split
  · next hr =>
    split
    · next hid =>
      obtain ⟨e, he⟩ := h.tabled_some (mem_tabled_of_pHash hid)
      rw [cleanup_of he]
      have hkept : ∀ x, x ≠ id → Function.update s.heap id none x = s.heap x :=
        fun x hx => update_of_ne hx ..
      have hsub : (s.cHash ++ s.pHash.filter (·.2 ≠ id)).Sublist (s.cHash ++ s.pHash) :=
        filter_sublist.append_left _
      refine .inr ⟨_, rfl, fun x hx => ?_, fun p hp => ?_, h.cKeys, (filter_sublist.map _).nodup h.pKeys,
        (hsub.map _).nodup h.ids, fun j x u hj => ?_, h.ownInj, fun j x u entry y hj hy => ?_, h.holds, ?_,
        fun m key => ?_⟩
      · by_cases hxid : x = id
        · exact hxid ▸ update_self ..
        · exact (hkept x hxid).trans (h.fresh x hx)
      · obtain ⟨y, hy, hrest⟩ := h.tables p (hsub.mem hp)
        refine ⟨y, (hkept p.2 ?_).trans hy, hrest⟩
        rcases mem_append.1 hp with hc | hf
        · exact h.cHash_ne_pHash (mem_map.2 ⟨p, hc, rfl⟩) hid
        · exact of_decide_eq_true (mem_filter.1 hf).2
      · obtain ⟨⟨y, hy, hrest⟩, hnot⟩ := h.own j x u hj
        have hxid : x ≠ id := fun heq => hnot (heq ▸ mem_tabled_of_pHash hid)
        exact ⟨⟨y, (hkept x hxid).trans hy, hrest⟩, fun hin => hnot ((hsub.map _).mem hin)⟩
      · refine h.found j x u entry y hj ((hkept x ?_).symm.trans hy)
        obtain ⟨-, hnot⟩ := h.own j x u (by rw [hj]; rfl)
        exact fun heq => hnot (heq ▸ mem_tabled_of_pHash hid)
      · rw [hr]
        trivial
      · have hsum := h.conserved m key
        rw [unwritten, hr] at hsum
        rw [hr]
        rw [held_congr (s := s) fun x hx => hkept x (h.cHash_ne_pHash hx hid)]
        exact hsum
    · exact .inl rfl
  · exact .inl rfl

/-! ## Every interleaving -/

theorem Sound.step (h : s.Sound) (e : StatEvent) : Safe (s.step e) := by
  cases e with
  | prepare i queryStats monotonicTime => exact h.prepare i queryStats monotonicTime
  | lock i => exact h.lockFor i
  | lookup i => exact h.lookup i
  | update i => exact h.update i
  | unlock i => exact h.unlock i
  | reportLock curtime => exact h.reportLock curtime
  | swap => exact h.swap
  | reportUnlock => exact h.reportUnlock
  | getKeys keys => exact h.getKeys keys
  | writeRow => exact h.writeRow
  | freeKeys => exact h.freeKeys
  | remove id => exact h.remove id
  | removed => exact h.removed

end Steps

theorem sound_of_run {s : QrStats}
    (hrun : Lib.Run (fun s e t => QrStats.step s e = .ok t) init es s) : s.Sound := by
  refine hrun.invariant (fun u e t hstep hu => ?_) sound_init
  rcases hu.step e with hblocked | ⟨t', ht', hsound⟩
  · rw [hblocked] at hstep
    cases hstep
  · rw [ht'] at hstep
    cases hstep
    exact hsound

theorem run_of_exec {s : QrStats}
    (h : Lib.exec (fun s e => (QrStats.step s e).toOption) s es = some t) :
    Lib.Run (fun s e t => QrStats.step s e = .ok t) s es t := by
  refine (Lib.Run.of_exec h).mono fun u e t hstep => ?_
  cases hu : QrStats.step u e with
  | error fault =>
    rw [hu] at hstep
    cases hstep
  | ok t' =>
    rw [hu] at hstep
    cases hstep
    rfl

/-- In every state that calls and reporting cycles lead to, what the rows, `c_hash` and the unwritten part
    of `p_hash` count for a key is what the calls with that key add up to; and a step that cannot be taken
    there is one that has to wait, never one that reads or frees a freed record. -/
theorem query_stats_conserved {s : QrStats} {es : List StatEvent}
    (hrun : Lib.Run (fun s e t => QrStats.step s e = .ok t) init es s) :
    (∀ m key, s.written m key + s.held m key (s.cHash.map Prod.snd) + s.held m key s.unwritten =
      s.called m key) ∧ ∀ e fault, s.step e = .error fault → fault = .blocked := by
  have hsound := sound_of_run hrun
  refine ⟨hsound.conserved, fun e fault hfault => ?_⟩
  rcases hsound.step e with hblocked | ⟨t, ht, -⟩
  · rw [hblocked] at hfault
    cases hfault
    rfl
  · rw [ht] at hfault
    cases hfault

/-! Three sessions with one key: the first call is reported, the other two meet in the new `c_hash`. -/

def oneQuery : QrHashEntry where
  key := ""
  execCnt := 0
  queryTime := 10
  queryDigestMd5 := "d"
  queryDigestText := "SELECT ?"
  username := "u"
  schemaname := "s"
  hostgroupId := 0
  mysqlServerAddress := some "h"
  mysqlServerPort := 3306

def oneCycle : List StatEvent :=
  [.prepare 0 oneQuery 15, .prepare 1 oneQuery 17, .lock 0, .lookup 0, .update 0, .unlock 0,
    .reportLock 100, .swap, .prepare 2 oneQuery 11, .reportUnlock, .lock 1, .getKeys [0], .lookup 1,
    .writeRow, .update 1, .unlock 1, .lock 2, .freeKeys, .lookup 2, .remove 0, .update 2, .removed]

theorem query_stats_conserved_oneCycle :
    ∃ s, Lib.Run (fun s e t => QrStats.step s e = .ok t) init oneCycle s
      ∧ s.called .queryTime oneQuery.generateKey = 13
      ∧ s.written .queryTime oneQuery.generateKey + s.held .queryTime oneQuery.generateKey
        (s.cHash.map Prod.snd) + s.held .queryTime oneQuery.generateKey s.unwritten = 13 := by
  have hend : (Lib.exec (fun s e => (QrStats.step s e).toOption) init oneCycle).map
      (·.called .queryTime oneQuery.generateKey) = some 13 := by decide +kernel
  obtain ⟨s, hs, hcalled⟩ := map_eq_some_iff.1 hend
  have hrun := run_of_exec hs
  exact ⟨s, hrun, hcalled, ((query_stats_conserved hrun).1 .queryTime oneQuery.generateKey).trans hcalled⟩

end QrStats

end ProxySQL.Stats
