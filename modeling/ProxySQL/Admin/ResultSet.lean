/-
  ProxySQL.Admin.ResultSet

  How the admin module answers a query (`mysql_pkt_to_sqlite_exec`).

  The rows are added to the output array before the column definitions, for which
  empty slots were left.  A definition is then moved into its slot by adding it at
  the end and removing the slot "fast", at an index that counts from the start of
  the array: the result set is intact only if nothing was in the array before.
-/
import ProxySQL.Lib.PtrArray
import ProxySQL.Protocol.ResultSet
import ProxySQL.Session.Auth

namespace ProxySQL

open Lib List

/-! ## The code -/

/-- What SQLite has to say about a statement: the names of its columns, its rows (a value is its text or
    NULL), and, for a statement without columns, the number of changed rows or an error message. -/
structure SqliteStmt where
  names : List Str
  rows : List (List (Option (List Byte)))
  width : ∀ row ∈ rows, row.length = names.length
  changes : Except Str (BitVec 64)

/-- The contents of fresh blocks, and what is behind an integer on the stack, for each packet. -/
structure BlockEnv where
  fill : Nat → Nat → Byte
  stack : Nat → Nat → Byte

/-- `mysql_pkt_err_from_sqlite`. -/
def mysqlPktErrFromSqlite (s : Str) : Pkt := createErrPacket 1 1047 (bytesOf "#08S01" ++ s)

/-- The size of a value in a row, from `sqlite3_column_bytes`. -/
def columnSize (v : Option (List Byte)) : Nat :=
  let l := (v.map length).getD 0
  if l = 0 then 1 else l + lencint (BitVec.ofNat 64 l)

/-- `sqlite3_column_text` as a C string. -/
def columnText (v : Option (List Byte)) : Option Str := v.map fun bs => bs.takeWhile (· ≠ 0)

/-- The packet of row `rownum`. -/
def rowPkt (env : BlockEnv) (cols rownum : Nat) (row : List (Option (List Byte))) : Pkt :=
  let rowlen := (row.map columnSize).sum
  let length := sizeofMysqlHdr + rowlen
  let hdr : MysqlHdr := { pktLength := BitVec.ofNat 24 rowlen, pktId := BitVec.ofNat 8 (cols + 3 + rownum) }
  let data := lAlloc (env.fill (cols + 3 + rownum)) length
  let data := overwrite data 0 hdr.toBytes
  let (data, _) := writeencstrnulls (env.stack (cols + 3 + rownum)) (row.map columnText) data sizeofMysqlHdr
  { length := length, data := data }

/-- `MYSQL_TYPE_VARCHAR`. -/
def mysqlTypeVarchar : BitVec 8 := 15

/-- The definition of column `col`. -/
def columnDefPkt (env : BlockEnv) (col : Nat) (s : Str) : Pkt :=
  myprotoColumnDef (env.fill (col + 2)) (env.stack (col + 2)) (BitVec.ofNat 32 (col + 2)) [] [] [] s [] 100
    mysqlTypeVarchar 0 0

def columnCountPkt (env : BlockEnv) (cols : Nat) : Pkt :=
  myprotoColumnCount (env.fill 1) 1 (BitVec.ofNat 64 cols)

def eofPkt (env : BlockEnv) (id : Nat) : Pkt := myprotoEof (env.fill id) (BitVec.ofNat 32 id) 0 34

/-- The loop over the rows. -/
def addRows (env : BlockEnv) (cols : Nat) : List (List (Option (List Byte))) → Nat → List (Option Pkt) →
    List (Option Pkt)
  | [], _, pkts => pkts
  | row :: rows, rownum, pkts =>
      addRows env cols rows (rownum + 1) (pkts ++ [some (rowPkt env cols rownum row)])

/-- The loop over the columns: a definition is added, and takes the place of entry `col + 1`. -/
def addColumnDefs (env : BlockEnv) : List Str → Nat → List (Option Pkt) → List (Option Pkt)
  | [], _, pkts => pkts
  | s :: names, col, pkts =>
      addColumnDefs env names (col + 1) (removeIndexFast (pkts ++ [some (columnDefPkt env col s)])
        (col + 1))

/-- `mysql_pkt_to_sqlite_exec`: what becomes of `output.pkts`, in which NULL is `none`. -/
def mysqlPktToSqliteExec (env : BlockEnv) (prepared : Except Str SqliteStmt) (pkts : List (Option Pkt)) :
    List (Option Pkt) :=
  match prepared with
  | .error errmsg => pkts ++ [some (mysqlPktErrFromSqlite errmsg)]
  | .ok statement =>
      let cols := statement.names.length
      if cols = 0 then
        -- not a SELECT
        match statement.changes with
        | .ok affectedRows => pkts ++ [some (myprotoOkPkt (env.fill 1) 1 affectedRows 0 2 0)]
        | .error errmsg => pkts ++ [some (mysqlPktErrFromSqlite errmsg)]
      else
        let pkts := pkts ++ [some (columnCountPkt env cols)]
        -- add empty spaces
        let pkts := pkts ++ replicate cols none
        let pkts := pkts ++ [some (eofPkt env (2 + cols))]
        let pkts := addRows env cols statement.rows 0 pkts
        let pkts := addColumnDefs env statement.names 0 pkts
        pkts ++ [some (eofPkt env (3 + cols + statement.rows.length))]

/-! ## The result set -/

/-- The result set that a client expects. -/
def resultset (env : BlockEnv) (statement : SqliteStmt) : List Pkt :=
  let cols := statement.names.length
  columnCountPkt env cols :: statement.names.mapIdx (columnDefPkt env) ++
    eofPkt env (2 + cols) :: statement.rows.mapIdx (rowPkt env cols) ++
    [eofPkt env (3 + cols + statement.rows.length)]

theorem addRows_eq (env : BlockEnv) (cols : Nat) (rows : List (List (Option (List Byte)))) (rownum : Nat)
    (pkts : List (Option Pkt)) :
    addRows env cols rows rownum pkts
      = pkts ++ (rows.mapIdx fun i row => rowPkt env cols (rownum + i) row).map some := by
  induction rows generalizing rownum pkts with
  | nil => simp [addRows]
  | cons row rows ih =>
    rw [addRows, ih, mapIdx_cons, map_cons, append_assoc, singleton_append]
    simp only [Nat.add_zero, Nat.add_assoc, Nat.add_comm 1]

theorem addColumnDefs_slots (env : BlockEnv) (names : List Str) (col : Nat)
    (before after : List (Option Pkt)) (hbefore : before.length = col + 1) :
    addColumnDefs env names col (before ++ replicate names.length none ++ after)
      = before ++ (names.mapIdx fun i s => columnDefPkt env (col + i) s).map some ++ after := by
  induction names generalizing col before with
  | nil => simp [addColumnDefs]
  | cons s names ih =>
    have hset : (before ++ replicate (s :: names).length none ++ after).set (col + 1)
      (some (columnDefPkt env col s))
        = (before ++ [some (columnDefPkt env col s)]) ++ replicate names.length none ++ after := by
      rw [length_cons, replicate_succ, ← hbefore, append_assoc,
        set_append_right _ _ le_rfl, Nat.sub_self, cons_append, set_cons_zero]
      simp
    rw [addColumnDefs, removeIndexFast_concat, hset, ih (col + 1) _ (by simp [hbefore]), mapIdx_cons,
      map_cons]
    simp only [append_assoc, cons_append, nil_append, Nat.add_zero, Nat.add_assoc, Nat.add_comm 1]

theorem addColumnDefs_behind (env : BlockEnv) (names : List Str) (col : Nat)
    (pkts : List (Option Pkt)) {i : Nat} (hi : col + names.length < i) :
    (addColumnDefs env names col pkts)[i]? = pkts[i]? := by
  induction names generalizing col pkts with
  | nil => rfl
  | cons s names ih =>
    rw [length_cons] at hi
    rw [addColumnDefs, removeIndexFast_concat, ih (col + 1) _ (by omega), getElem?_set_ne (by omega)]

/-! ## The ids -/

theorem setWidth_ofNat (n : Nat) : (BitVec.ofNat 32 n).setWidth 8 = BitVec.ofNat 8 n :=
  BitVec.setWidth_ofNat_of_le (by decide) n

theorem pktId_columnDefPkt (env : BlockEnv) (col : Nat) (s : Str) :
    (columnDefPkt env col s).pktId = BitVec.ofNat 8 (2 + col) := by
  rw [columnDefPkt, pktId_myprotoColumnDef, setWidth_ofNat, Nat.add_comm]

theorem pktId_eofPkt (env : BlockEnv) (id : Nat) : (eofPkt env id).pktId = BitVec.ofNat 8 id := by
  rw [eofPkt, pktId_myprotoEof, setWidth_ofNat]

theorem pktId_rowPkt (env : BlockEnv) (cols rownum : Nat) (row : List (Option (List Byte))) :
    (rowPkt env cols rownum row).pktId = BitVec.ofNat 8 (cols + 3 + rownum) :=
  Pkt.pktId_of_getElem? (getElem?_writeencstrnulls_before _ (getElem?_header _ _) (by decide)).1

theorem map_pktId_mapIdx {α : Type} (f : Nat → α → Pkt) (xs : List α) (k : Nat)
    (hf : ∀ i x, (f i x).pktId = BitVec.ofNat 8 (k + i)) :
    (xs.mapIdx f).map Pkt.pktId = (List.range' k xs.length).map (BitVec.ofNat 8) := by
  induction xs generalizing f k with
  | nil => rfl
  | cons x xs ih =>
    rw [mapIdx_cons, length_cons, range'_succ, map_cons, map_cons, hf 0 x, Nat.add_zero]
    refine congrArg _ (ih (fun i => f (i + 1)) (k + 1) fun i x => ?_)
    rw [hf (i + 1) x, Nat.add_assoc, Nat.add_comm 1]

theorem resultset_ids (env : BlockEnv) (statement : SqliteStmt) :
    (resultset env statement).map Pkt.pktId
      = (List.range' 1 (resultset env statement).length).map (BitVec.ofNat 8) := by
  have hdefs := map_pktId_mapIdx (columnDefPkt env) statement.names 2 (pktId_columnDefPkt env)
  have hrows :=
    map_pktId_mapIdx (rowPkt env statement.names.length) statement.rows (statement.names.length + 3)
    (pktId_rowPkt env statement.names.length)
  have hcount : (columnCountPkt env statement.names.length).pktId = BitVec.ofNat 8 1 :=
    pktId_myprotoColumnCount _ _ _
  have hlength : (resultset env statement).length
      = 1 + (statement.names.length + (1 + (statement.rows.length + 1))) := by
    simp only [resultset, length_append, length_cons, length_mapIdx, length_nil]
    omega
  rw [hlength, ← range'_append_1, ← range'_append_1, ← range'_append_1, ← range'_append_1,
    map_append, map_append, map_append, map_append]
  simp only [resultset, map_append, map_cons, map_nil, hdefs, hrows, hcount, pktId_eofPkt,
    range'_one, cons_append, nil_append, append_assoc]
  rw [show 1 + 1 + statement.names.length + 1 = statement.names.length + 3 by omega,
    Nat.add_comm 3 statement.names.length]

/-! ## What is added to the output array -/

/-- A statement with columns, without its last step: the slots are filled after the rows are there. -/
theorem mysqlPktToSqliteExec_columns (env : BlockEnv) {statement : SqliteStmt}
    (hcols : statement.names ≠ []) (pkts : List (Option Pkt)) :
    mysqlPktToSqliteExec env (.ok statement) pkts
      = addColumnDefs env statement.names 0
          (pkts ++ [some (columnCountPkt env statement.names.length)] ++
            replicate statement.names.length none ++ (eofPkt env (2 + statement.names.length) ::
              statement.rows.mapIdx (rowPkt env statement.names.length)).map some)
        ++ [some (eofPkt env (3 + statement.names.length + statement.rows.length))] := by
  have hne : ¬ statement.names.length = 0 := fun h => hcols (length_eq_zero_iff.1 h)
  rw [mysqlPktToSqliteExec, if_neg hne]
  dsimp only
  rw [addRows_eq]
  simp only [Nat.zero_add, map_cons, append_assoc, cons_append, nil_append]

theorem mysqlPktToSqliteExec_nil (env : BlockEnv) {statement : SqliteStmt} (hcols : statement.names ≠ []) :
    mysqlPktToSqliteExec env (.ok statement) [] = (resultset env statement).map some := by
  rw [mysqlPktToSqliteExec_columns env hcols, nil_append, addColumnDefs_slots env _ 0 _ _ rfl]
  simp [resultset]

theorem getElem?_append_of_some {α : Type} {xs : List α} {i : Nat} {x : α} (ys : List α)
    (h : xs[i]? = some x) : (xs ++ ys)[i]? = some x := by
  rw [getElem?_append_left (List.getElem?_eq_some_iff.1 h).1, h]

theorem mysqlPktToSqliteExec_slot (env : BlockEnv) {statement : SqliteStmt} (hcols : statement.names ≠ [])
    {pkts : List (Option Pkt)} (hpkts : pkts ≠ []) :
    (mysqlPktToSqliteExec env (.ok statement) pkts)[pkts.length + statement.names.length]? = some none := by
  have hlen := length_pos_iff.2 hpkts
  have hnames := length_pos_iff.2 hcols
  have hslot : (pkts ++ [some (columnCountPkt env statement.names.length)]
      ++ replicate statement.names.length none)[pkts.length + statement.names.length]? = some none := by
    rw [append_assoc, getElem?_append_right (by omega), Nat.add_sub_cancel_left, singleton_append,
      getElem?_cons, if_neg (by omega), getElem?_replicate, if_pos (by omega)]
  rw [mysqlPktToSqliteExec_columns env hcols]
  refine getElem?_append_of_some _ ?_
  rw [addColumnDefs_behind env _ 0 _ (by omega)]
  exact getElem?_append_of_some _ hslot

/-- A result set is added intact behind whatever was in the array, with ids that count from 1, just if the
    array was empty. -/
theorem resultset_intact_iff (env : BlockEnv) (statement : SqliteStmt) (hcols : statement.names ≠ [])
    (pkts : List Pkt) :
    (mysqlPktToSqliteExec env (.ok statement) (pkts.map some) = (pkts ++ resultset env statement).map some ∧
        (resultset env statement).map Pkt.pktId
          = (List.range' 1 (resultset env statement).length).map (BitVec.ofNat 8)) ↔
      pkts = [] := by
  constructor
  · rintro ⟨h, -⟩
    by_contra hpkts
    have hne : pkts.map some ≠ [] := fun h => hpkts (map_eq_nil_iff.1 h)
    have hslot := mysqlPktToSqliteExec_slot env hcols hne
    rw [h, getElem?_map] at hslot
    obtain ⟨p, -, hp⟩ := Option.map_eq_some_iff.1 hslot
    cases hp
  · rintro rfl
    exact ⟨mysqlPktToSqliteExec_nil env hcols, resultset_ids env statement⟩

/-- `SELECT 1`. -/
def selectOne : SqliteStmt where
  names := [bytesOf "1"]
  rows := [[some (bytesOf "1")]]
  width := by decide
  changes := .ok 0

def BlockEnv.zero : BlockEnv where
  fill _ _ := 0
  stack _ _ := 0

theorem resultset_intact_one :
    (mysqlPktToSqliteExec .zero (.ok selectOne) (([] : List Pkt).map some)
        = ([] ++ resultset .zero selectOne).map some ∧
        (resultset .zero selectOne).map Pkt.pktId
          = (List.range' 1 (resultset .zero selectOne).length).map (BitVec.ofNat 8)) :=
  (resultset_intact_iff .zero selectOne (by decide) []).2 rfl

/-- Behind the OK packet of an earlier command the definition takes the place of the column count, and the
    slot stays NULL. -/
theorem resultset_behind_ok :
    mysqlPktToSqliteExec .zero (.ok selectOne) [some (myprotoOkPkt (fun _ => 0) 1 0 0 2 0)]
      = [some (myprotoOkPkt (fun _ => 0) 1 0 0 2 0), some (columnDefPkt .zero 0 (bytesOf "1")), none,
          some (eofPkt .zero 3), some (rowPkt .zero 1 0 [some (bytesOf "1")]), some (eofPkt .zero 5)] ∧
    mysqlPktToSqliteExec .zero (.ok selectOne) [some (myprotoOkPkt (fun _ => 0) 1 0 0 2 0)]
      ≠ (myprotoOkPkt (fun _ => 0) 1 0 0 2 0 :: resultset .zero selectOne).map some := by
  refine ⟨rfl, ?_⟩
  decide

end ProxySQL
