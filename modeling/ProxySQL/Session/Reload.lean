/-
  ProxySQL.Session.Reload

  What FLUSH HOSTGROUPS installs.

  The first loop of `sqlite3_flush_servers_db_to_mem` empties the array of every
  hostgroup and adds it to the list of arrays, which has it already: the list grows
  by the number of hostgroups with every flush.  A hostgroup id is narrowed to `int`
  and tested against an upper bound only, so an ONLINE row may be looked up before
  the list or enter a hostgroup that is not its own.  Apart from that the rows are
  installed as they should be: the hostgroups have the ONLINE rows in their order, a
  server is as its last row says, and the same rows once more change nothing
  (`flush_installs_iff`).
-/
import ProxySQL.Lib.CInt
import ProxySQL.Lib.Upsert
import ProxySQL.Session.EntryUse
import ProxySQL.Session.Forwarding

namespace ProxySQL

open Lib List

/-! ## Rows with any hostgroup id -/

/-- A row of the join of `hostgroups` and `servers`: the hostgroup id as it is in the table, the
    other columns as they are read. -/
structure JoinedRow where
  hostgroupId : Int
  address : Str
  port : Nat
  readOnly : Int
  status : MysqlServerStatus
deriving DecidableEq

/-- `int hostgroup_id=sqlite3_column_int(statement,0)`. -/
def JoinedRow.hostgroup (row : JoinedRow) : Int := toInt row.hostgroupId

/-- The server that the row describes. -/
def JoinedRow.server (row : JoinedRow) : MysqlServer :=
  { address := row.address, port := row.port, readOnly := row.readOnly, status := row.status }

def JoinedRow.toServerRow (row : JoinedRow) : ServerRow :=
  { hostgroupId := row.hostgroup.toNat, address := row.address, port := row.port,
    readOnly := row.readOnly, status := row.status }

/-- `g_ptr_array_index`, which does not look at the length. -/
def gPtrArrayIndex {α : Type} (xs : List α) (i : Int) : Except Fault α :=
  if i < 0 then .error .outOfBounds
  else
    match xs[i.toNat]? with
    | none => .error .outOfBounds
    | some x => .ok x

/-- `mysql_server_entry_add_hostgroup`. -/
def addHostgroup (sh : Shared) (i : Nat) (hostgroupId : Int) : Except Fault Shared := do
  if hostgroupId ≥ sh.glovars.mysqlHostgroups then return sh
  else
    let _ ← gPtrArrayIndex sh.mysqlHostgroups hostgroupId
    return mysqlServerEntryAddHostgroup sh i hostgroupId.toNat

/-- The second loop of `sqlite3_flush_servers_db_to_mem`, for one row. -/
def loadJoinedRow (sh : Shared) (row : JoinedRow) : Except Fault Shared :=
  let i := (findServerPtr sh.servers row.address row.port).getD sh.servers.length
  let sh :=
    if i < sh.servers.length then { sh with servers := sh.servers.set i row.server }
    else { sh with servers := sh.servers ++ [row.server] }
  if row.status = .online then addHostgroup sh i row.hostgroup else .ok sh

/-- The first loop, for one hostgroup. -/
def resetHostgroupAt (sh : Shared) (i : Nat) : Except Fault Shared := do
  let _ ← gPtrArrayIndex sh.mysqlHostgroups i
  return resetHostgroup sh i

/-- `sqlite3_flush_servers_db_to_mem`, where the rows may have any hostgroup ids. -/
def flushJoinedRows (sh : Shared) (rows : List JoinedRow) : Except Fault Shared := do
  let sh ← (range sh.glovars.mysqlHostgroups).foldlM resetHostgroupAt sh
  rows.foldlM loadJoinedRow sh

/-- No ONLINE row has a hostgroup id that is read as a negative one. -/
def InRange (rows : List JoinedRow) : Prop := ∀ row ∈ rows, row.status = .online → 0 ≤ row.hostgroup

/-- No ONLINE row has a hostgroup id that is read as another one below `n`. -/
def IdsKept (n : Nat) (rows : List JoinedRow) : Prop :=
  ∀ row ∈ rows, row.status = .online → row.hostgroup < n → row.hostgroup = row.hostgroupId

instance (rows : List JoinedRow) : Decidable (InRange rows) := by
  unfold InRange
  infer_instance

instance (n : Nat) (rows : List JoinedRow) : Decidable (IdsKept n rows) := by
  unfold IdsKept
  infer_instance

/-! ## The list of arrays -/

/-- The list of arrays begins with the arrays of the hostgroups. -/
structure Shared.FirstArrays (sh : Shared) : Prop where
  array : ∀ i < sh.glovars.mysqlHostgroups, sh.mysqlHostgroups[i]? = some i

variable {sh sh' : Shared} {i : Nat} {fill : Nat → Byte} {rows : List JoinedRow}

theorem Shared.FirstArrays.take (h : sh.FirstArrays) :
    sh.mysqlHostgroups.take sh.glovars.mysqlHostgroups = range sh.glovars.mysqlHostgroups := by
  refine ext_getElem? fun i => ?_
  by_cases hi : i < sh.glovars.mysqlHostgroups
  · rw [getElem?_take_of_lt hi, h.array i hi, getElem?_range hi]
  · rw [getElem?_eq_none (by rw [length_take]; omega),
      getElem?_eq_none (by rw [length_range]; omega)]

theorem gPtrArrayIndex_of_getElem? {α : Type} {xs : List α} {x : α} (h : xs[i]? = some x) :
    gPtrArrayIndex xs i = .ok x := by
  unfold gPtrArrayIndex
  rw [if_neg (by omega), Int.toNat_natCast, h]

/-- The first `k` arrays have been emptied and added once more. -/
structure Readded (k : Nat) (sh sh' : Shared) : Prop where
  glovars : sh'.glovars = sh.glovars
  servers : sh'.servers = sh.servers
  next : sh'.nextMshge = sh.nextMshge
  arrays : sh'.mysqlHostgroups = sh.mysqlHostgroups ++ range k
  emptied : ∀ a < k, sh'.hostgroupArrays a = []

theorem resetHostgroups_readded (hfirst : sh.FirstArrays) {k : Nat}
    (hk : k ≤ sh.glovars.mysqlHostgroups) :
    (range k).foldlM resetHostgroupAt sh = .ok ((range k).foldl resetHostgroup sh) ∧
      Readded k sh ((range k).foldl resetHostgroup sh) := by
  induction k with
  | zero =>
      exact ⟨rfl, rfl, rfl, rfl, (append_nil _).symm, fun a ha => absurd ha (Nat.not_lt_zero a)⟩
  | succ k ih =>
    obtain ⟨hchecked, h⟩ := ih (Nat.le_of_succ_le hk)
    rw [range_succ, foldl_append, foldlM_append, hchecked, except_ok_bind]
    generalize (range k).foldl resetHostgroup sh = sh1 at h
    have hget : sh1.mysqlHostgroups[k]? = some k := by
      have hold := hfirst.array k hk
      rw [h.arrays, getElem?_append_left (List.getElem?_eq_some_iff.1 hold).1]
      exact hold
    have hround : resetHostgroupAt sh1 k = .ok (resetHostgroup sh1 k) := by
      rw [resetHostgroupAt, gPtrArrayIndex_of_getElem? hget]
      rfl
    refine ⟨?_, ?_⟩
    · rw [foldlM_cons, hround, except_ok_bind]
      rfl
    · simp only [foldl_cons, foldl_nil, resetHostgroup, hget]
      refine ⟨h.glovars, h.servers, h.next, ?_, fun a ha => ?_⟩
      · rw [h.arrays, append_assoc, range_succ]
      · dsimp only
        split
        · rfl
        · next hne => exact h.emptied a (by omega)

/-! ## One row -/

theorem addHostgroup_eq (i : Nat) (hostgroupId : Int)
    (hle : sh.glovars.mysqlHostgroups ≤ sh.mysqlHostgroups.length) :
    addHostgroup sh i hostgroupId = if hostgroupId < 0 then .error .outOfBounds
      else .ok (mysqlServerEntryAddHostgroup sh i hostgroupId.toNat) := by
  unfold addHostgroup
  by_cases hneg : hostgroupId < 0
  · rw [if_neg (by omega), if_pos hneg, gPtrArrayIndex, if_pos hneg]
    rfl
  · split
    · next hge =>
      unfold mysqlServerEntryAddHostgroup
      rw [if_pos (by omega)]
      rfl
    · next hlt =>
      have hget := getElem?_eq_getElem (by omega : hostgroupId.toNat < sh.mysqlHostgroups.length)
      have hindex := gPtrArrayIndex_of_getElem? hget
      rw [Int.toNat_of_nonneg (by omega)] at hindex
      rw [hindex]
      rfl

theorem loadJoinedRow_eq (row : JoinedRow)
    (hle : sh.glovars.mysqlHostgroups ≤ sh.mysqlHostgroups.length) :
    loadJoinedRow sh row = if row.status = .online ∧ row.hostgroup < 0 then .error .outOfBounds
      else .ok (loadServer sh row.toServerRow) := by
  have hset := (setServer_upsert sh row.server rfl).1
  generalize hi : (findServerPtr sh.servers row.server.address row.server.port).getD
    sh.servers.length = i at hset
  have hjoined : loadJoinedRow sh row = if row.status = .online
      then addHostgroup (sh.withServer row.server) i row.hostgroup
      else .ok (sh.withServer row.server) := by
    subst hi
    exact congrArg (fun sh1 : Shared => if row.status = .online
      then addHostgroup sh1 _ row.hostgroup else .ok sh1) hset
  have hplain : loadServer sh row.toServerRow = if row.status = .online
      then mysqlServerEntryAddHostgroup (sh.withServer row.server) i row.hostgroup.toNat
      else sh.withServer row.server := by
    subst hi
    exact congrArg (fun sh1 : Shared => if row.status = .online
      then mysqlServerEntryAddHostgroup sh1 _ row.hostgroup.toNat else sh1) hset
  rw [hjoined, hplain]
  by_cases honline : row.status = .online
  · rw [if_pos honline, @addHostgroup_eq (sh.withServer row.server) _ _ hle]
    by_cases hneg : row.hostgroup < 0
    · rw [if_pos hneg, if_pos ⟨honline, hneg⟩]
    · rw [if_neg hneg, if_neg fun hand => hneg hand.2, if_pos honline]
  · rw [if_neg honline, if_neg fun hand => honline hand.1, if_neg honline]

theorem mysqlServerEntryAddHostgroup_arrays (sh : Shared) (i hg : Nat) :
    (mysqlServerEntryAddHostgroup sh i hg).mysqlHostgroups = sh.mysqlHostgroups := by
  unfold mysqlServerEntryAddHostgroup
  split
  · rfl
  · split <;> rfl

theorem loadServer_arrays (sh : Shared) (row : ServerRow) :
    (loadServer sh row).mysqlHostgroups = sh.mysqlHostgroups ∧
    (loadServer sh row).glovars = sh.glovars := by
  refine ⟨?_, (loadServer_loads sh row).glovars⟩
  obtain ⟨i, -, heq⟩ := loadServer_eq sh row
  rw [heq]
  split
  · exact mysqlServerEntryAddHostgroup_arrays _ _ _
  · rfl

theorem loadJoinedRows_eq_ok (rows : List JoinedRow)
    (hle : sh.glovars.mysqlHostgroups ≤ sh.mysqlHostgroups.length) :
    rows.foldlM loadJoinedRow sh = .ok sh' ↔
      InRange rows ∧ (rows.map JoinedRow.toServerRow).foldl loadServer sh = sh' := by
  induction rows generalizing sh with
  | nil => exact ⟨fun h => ⟨nofun, Except.ok.inj h⟩, fun h => congrArg Except.ok h.2⟩
  | cons row rows ih =>
    rw [foldlM_cons, loadJoinedRow_eq row hle, map_cons, foldl_cons, InRange, forall_mem_cons]
    by_cases hbad : row.status = .online ∧ row.hostgroup < 0
    · rw [if_pos hbad]
      refine ⟨fun h => (by cases h), fun h => ?_⟩
      have hnonneg := h.1.1 hbad.1
      omega
    · obtain ⟨harrays, hglovars⟩ := loadServer_arrays sh row.toServerRow
      have hrow : row.status = .online → 0 ≤ row.hostgroup := by
        intro honline
        by_contra hneg
        exact hbad ⟨honline, Int.not_le.1 hneg⟩
      rw [if_neg hbad, except_ok_bind, ih (by rw [harrays, hglovars]; exact hle)]
      exact ⟨fun h => ⟨⟨hrow, h.1⟩, h.2⟩, fun h => ⟨h.1.2, h.2⟩⟩

theorem Shared.FirstArrays.length (h : sh.FirstArrays) :
    sh.glovars.mysqlHostgroups ≤ sh.mysqlHostgroups.length := by
  by_contra hlt
  have hget := h.array sh.mysqlHostgroups.length (Nat.lt_of_not_le hlt)
  exact absurd (List.getElem?_eq_some_iff.1 hget).1 (Nat.lt_irrefl _)

theorem flushJoinedRows_eq_ok (hfirst : sh.FirstArrays) (rows : List JoinedRow) :
    flushJoinedRows sh rows = .ok sh' ↔
      InRange rows ∧ flushServersDbToMem sh (rows.map JoinedRow.toServerRow) = sh' := by
  obtain ⟨hreset, hreadded⟩ := resetHostgroups_readded hfirst (Nat.le_refl _)
  rw [flushJoinedRows, hreset, except_ok_bind, loadJoinedRows_eq_ok rows]
  · rfl
  · rw [hreadded.glovars, hreadded.arrays, length_append]
    exact Nat.le_trans hfirst.length (Nat.le_add_right _ _)

/-! ## The tables after the rows -/

/-- The address and port that an entry leads to. -/
def Shared.keyOf (sh : Shared) (m : Nat) : Option (Str × Nat) :=
  (sh.msPtr m).toOption.map MysqlServer.key

theorem Loads.keyOf (h : Loads sh sh') (hok : sh.EntriesOk) {m : Nat} (hm : m < sh.nextMshge) :
    sh'.keyOf m = sh.keyOf m := by
  obtain ⟨ms, hms, -⟩ := hok.msPtr hm
  obtain ⟨ms', hms', haddress, hport⟩ := h.targets.msPtr_ok hm hms
  rw [Shared.keyOf, Shared.keyOf, hms, hms']
  exact congrArg some (Prod.ext haddress hport)

theorem mysqlServerEntryAddHostgroup_of_lt {hg : Nat} (hlt : hg < sh.glovars.mysqlHostgroups)
    (hget : sh.mysqlHostgroups[hg]? = some hg) :
    mysqlServerEntryAddHostgroup sh i hg = { sh with
      mshges := fun n => if n = sh.nextMshge
        then { msPtr := some i, connectionsCreated := 0, connectionsActive := 0, freed := false }
        else sh.mshges n,
      nextMshge := sh.nextMshge + 1,
      hostgroupArrays := fun a => if a = hg then sh.hostgroupArrays hg ++ [sh.nextMshge]
        else sh.hostgroupArrays a } := by
  rw [mysqlServerEntryAddHostgroup, if_neg (Nat.not_le.2 hlt), hget]

theorem mysqlServerEntryAddHostgroup_of_not_lt {hg : Nat} (hge : ¬hg < sh.glovars.mysqlHostgroups) :
    mysqlServerEntryAddHostgroup sh i hg = sh := by
  rw [mysqlServerEntryAddHostgroup, if_pos (Nat.le_of_not_lt hge)]

/-- What a row changes. -/
structure RowAdds (sh : Shared) (row : ServerRow) (sh' : Shared) : Prop where
  loads : Loads sh sh'
  servers : sh'.servers = upsert MysqlServer.key sh.servers row.server
  arrays : sh'.mysqlHostgroups = sh.mysqlHostgroups
  array : ∀ a < sh.glovars.mysqlHostgroups, sh'.hostgroupArrays a
    = sh.hostgroupArrays a ++ if row.status = .online ∧ row.hostgroupId = a
    then [sh.nextMshge] else []
  entry : row.status = .online → row.hostgroupId < sh.glovars.mysqlHostgroups →
    sh'.keyOf sh.nextMshge = some row.server.key ∧ (sh'.mshges sh.nextMshge).freed = false ∧
      sh.nextMshge < sh'.nextMshge

theorem loadServer_rowAdds
    (harray : ∀ i < sh.glovars.mysqlHostgroups, sh.mysqlHostgroups[i]? = some i) (row : ServerRow) :
    RowAdds sh row (loadServer sh row) := by
  have hloads := loadServer_loads sh row
  have harrays := (loadServer_arrays sh row).1
  obtain ⟨i, hget, heq⟩ := loadServer_eq sh row
  rw [heq] at hloads harrays ⊢
  by_cases honline : row.status = .online
  · rw [if_pos honline] at hloads harrays ⊢
    by_cases hlt : row.hostgroupId < sh.glovars.mysqlHostgroups
    · have hnew :=
        @mysqlServerEntryAddHostgroup_of_lt (sh.withServer row.server) i row.hostgroupId hlt
        (harray row.hostgroupId hlt)
      rw [hnew] at hloads harrays ⊢
      refine ⟨hloads, rfl, harrays, fun a _ => ?_, fun _ _ => ⟨?_, ?_, Nat.lt_succ_self _⟩⟩
      · show (if a = row.hostgroupId then sh.hostgroupArrays row.hostgroupId ++ [sh.nextMshge]
          else sh.hostgroupArrays a) = _
        by_cases ha : a = row.hostgroupId
        · rw [if_pos ha, if_pos ⟨honline, ha.symm⟩, ha]
        · rw [if_neg ha, if_neg fun hand => ha hand.2.symm, append_nil]
      · have hptr : ∀ (sh1 : Shared), (sh1.mshges sh.nextMshge).msPtr = some i →
            sh1.servers[i]? = some row.server → sh1.keyOf sh.nextMshge = some row.server.key := by
          intro sh1 hptr hserver
          rw [Shared.keyOf, Shared.msPtr, hptr, deref, except_ok_bind, hserver]
          rfl
        refine hptr _ ?_ hget
        show (if sh.nextMshge = sh.nextMshge then _ else sh.mshges sh.nextMshge).msPtr = some i
        rw [if_pos rfl]
      · show (if sh.nextMshge = sh.nextMshge then _ else sh.mshges sh.nextMshge).freed = false
        rw [if_pos rfl]
    · have hsame :=
        @mysqlServerEntryAddHostgroup_of_not_lt (sh.withServer row.server) i row.hostgroupId hlt
      rw [hsame] at hloads harrays ⊢
      refine ⟨hloads, rfl, harrays, fun a ha => ?_, fun _ hin => absurd hin hlt⟩
      have hother : ¬(row.status = .online ∧ row.hostgroupId = a) := by
        rintro ⟨-, rfl⟩
        exact hlt ha
      rw [if_neg hother, append_nil]
      rfl
  · rw [if_neg honline] at hloads harrays ⊢
    refine ⟨hloads, rfl, harrays, fun a _ => ?_, fun h => absurd h honline⟩
    rw [if_neg fun hand => honline hand.1, append_nil]
    rfl

/-- What the ONLINE rows of hostgroup `a` lead to. -/
def onlineKeys (rows : List ServerRow) (a : Nat) : List (Option (Str × Nat)) :=
  (rows.filter fun row => row.status = .online ∧ row.hostgroupId = a).map fun row =>
    some row.server.key

/-- The rows have been loaded, from `sh` on, where the arrays were empty. -/
structure RowsLoaded (sh : Shared) (rows : List ServerRow) (sh' : Shared) : Prop where
  loads : Loads sh sh'
  servers : sh'.servers = (rows.map ServerRow.server).foldl (upsert MysqlServer.key) sh.servers
  arrays : sh'.mysqlHostgroups = sh.mysqlHostgroups
  keys : ∀ a < sh.glovars.mysqlHostgroups, (sh'.hostgroupArrays a).map sh'.keyOf = onlineKeys rows a
  new : ∀ a < sh.glovars.mysqlHostgroups, (sh'.hostgroupArrays a).Nodup ∧
    ∀ m ∈ sh'.hostgroupArrays a, sh.nextMshge ≤ m ∧ (sh'.mshges m).freed = false

theorem RowsLoaded.step {rows : List ServerRow} (h : RowsLoaded sh rows sh') (hok : sh.EntriesOk)
    (harray : ∀ i < sh.glovars.mysqlHostgroups, sh.mysqlHostgroups[i]? = some i) (row : ServerRow) :
    RowsLoaded sh (rows ++ [row]) (loadServer sh' row) := by
  have hok' := h.loads.entries hok
  have harray' : ∀ i < sh'.glovars.mysqlHostgroups, sh'.mysqlHostgroups[i]? = some i := by
    rw [h.loads.glovars, h.arrays]
    exact harray
  have hadds := loadServer_rowAdds harray' row
  have hfreed := (loadServer_entries sh' row).freed
  have hcount : ∀ a < sh.glovars.mysqlHostgroups, a < sh'.glovars.mysqlHostgroups := by
    rw [h.loads.glovars]
    exact fun _ ha => ha
  refine ⟨h.loads.trans hadds.loads, ?_, hadds.arrays.trans h.arrays, fun a ha => ?_,
    fun a ha => ?_⟩
  · rw [hadds.servers, h.servers, map_append, foldl_append]
    rfl
  · have hold : (sh'.hostgroupArrays a).map (loadServer sh' row).keyOf = onlineKeys rows a := by
      rw [← h.keys a ha]
      exact map_congr_left fun m hm => hadds.loads.keyOf hok' (hok'.allocated a m hm)
    rw [hadds.array a (hcount a ha), map_append, hold, onlineKeys, onlineKeys, filter_append,
      map_append]
    congr 1
    by_cases hrow : row.status = .online ∧ row.hostgroupId = a
    · rw [if_pos hrow, filter_cons, if_pos (decide_eq_true hrow)]
      have hkey := (hadds.entry hrow.1 (hrow.2 ▸ hcount a ha)).1
      rw [map_singleton, hkey]
      rfl
    · rw [if_neg hrow, filter_cons, if_neg fun h => hrow (of_decide_eq_true h)]
      rfl
  · obtain ⟨hnodup, hnew⟩ := h.new a ha
    rw [hadds.array a (hcount a ha)]
    by_cases hrow : row.status = .online ∧ row.hostgroupId = a
    · rw [if_pos hrow]
      refine ⟨nodup_append.2 ⟨hnodup, pairwise_singleton _ _, fun m hm m' hm' heq => ?_⟩,
        fun m hm => ?_⟩
      · rw [mem_singleton.1 hm'] at heq
        exact absurd (hok'.allocated a m hm) (heq ▸ Nat.lt_irrefl _)
      · rcases mem_append.1 hm with hold | hadded
        · rw [hfreed m (hok'.allocated a m hold)]
          exact hnew m hold
        · obtain rfl := mem_singleton.1 hadded
          exact ⟨h.loads.targets.next, (hadds.entry hrow.1 (hrow.2 ▸ hcount a ha)).2.1⟩
    · rw [if_neg hrow, append_nil]
      refine ⟨hnodup, fun m hm => ?_⟩
      rw [hfreed m (hok'.allocated a m hm)]
      exact hnew m hm

theorem RowsLoaded.run {done : List ServerRow} (h : RowsLoaded sh done sh') (hok : sh.EntriesOk)
    (harray : ∀ i < sh.glovars.mysqlHostgroups, sh.mysqlHostgroups[i]? = some i)
    (rows : List ServerRow) : RowsLoaded sh (done ++ rows) (rows.foldl loadServer sh') := by
  induction rows generalizing done sh' with
  | nil =>
    rw [append_nil]
    exact h
  | cons row rows ih =>
    rw [append_cons]
    exact ih (h.step hok harray row)

theorem RowsLoaded.nil (hempty : ∀ a < sh.glovars.mysqlHostgroups, sh.hostgroupArrays a = []) :
    RowsLoaded sh [] sh := by
  refine ⟨.refl sh, rfl, rfl, fun a ha => ?_, fun a ha => ?_⟩
  · rw [hempty a ha]
    rfl
  · rw [hempty a ha]
    exact ⟨nodup_nil, nofun⟩

/-! ## The whole flush -/

/-- What a flush with the rows leaves. -/
structure Flushed (sh : Shared) (rows : List ServerRow) (sh' : Shared) : Prop where
  glovars : sh'.glovars = sh.glovars
  arrays : sh'.mysqlHostgroups = sh.mysqlHostgroups ++ range sh.glovars.mysqlHostgroups
  servers : sh'.servers = (rows.map ServerRow.server).foldl (upsert MysqlServer.key) sh.servers
  keys : ∀ a < sh.glovars.mysqlHostgroups, (sh'.hostgroupArrays a).map sh'.keyOf = onlineKeys rows a
  new : ∀ a < sh.glovars.mysqlHostgroups, (sh'.hostgroupArrays a).Nodup ∧
    ∀ m ∈ sh'.hostgroupArrays a, sh.nextMshge ≤ m ∧ (sh'.mshges m).freed = false

theorem flushServersDbToMem_flushed (hfirst : sh.FirstArrays) (hok : sh.EntriesOk)
    (rows : List ServerRow) : Flushed sh rows (flushServersDbToMem sh rows) := by
  have hreadded := (resetHostgroups_readded hfirst (Nat.le_refl _)).2
  -- with no rows, a flush is its first loop
  have hok1 := (flushServersDbToMem_loads sh []).entries hok
  unfold flushServersDbToMem at hok1 ⊢
  generalize (range sh.glovars.mysqlHostgroups).foldl resetHostgroup sh = sh1 at hreadded hok1
  have harray : ∀ i < sh1.glovars.mysqlHostgroups, sh1.mysqlHostgroups[i]? = some i := by
    intro i hi
    rw [hreadded.glovars] at hi
    have hold := hfirst.array i hi
    rw [hreadded.arrays, getElem?_append_left (List.getElem?_eq_some_iff.1 hold).1]
    exact hold
  have hempty : ∀ a < sh1.glovars.mysqlHostgroups, sh1.hostgroupArrays a = [] := by
    rw [hreadded.glovars]
    exact hreadded.emptied
  have hloaded : RowsLoaded sh1 rows (rows.foldl loadServer sh1) :=
    (RowsLoaded.nil hempty).run hok1 harray rows
  refine ⟨hloaded.loads.glovars.trans hreadded.glovars, hloaded.arrays.trans hreadded.arrays,
    ?_, ?_, ?_⟩
  · rw [hloaded.servers, hreadded.servers]
  · rw [← hreadded.glovars]
    exact hloaded.keys
  · rw [← hreadded.glovars, ← hreadded.next]
    exact hloaded.new

theorem Shared.FirstArrays.flush (h : sh.FirstArrays) (rows : List ServerRow) :
    (flushServersDbToMem sh rows).FirstArrays := by
  have hreadded := (resetHostgroups_readded h (Nat.le_refl _)).2
  have hload : ∀ (rows : List ServerRow) (sh1 : Shared),
    (rows.foldl loadServer sh1).mysqlHostgroups = sh1.mysqlHostgroups ∧
      (rows.foldl loadServer sh1).glovars = sh1.glovars := by
    intro rows
    induction rows with
    | nil => exact fun _ => ⟨rfl, rfl⟩
    | cons row rows ih =>
      intro sh1
      obtain ⟨harrays, hglovars⟩ := loadServer_arrays sh1 row
      exact ⟨(ih _).1.trans harrays, (ih _).2.trans hglovars⟩
  obtain ⟨harrays, hglovars⟩ :=
    hload rows ((range sh.glovars.mysqlHostgroups).foldl resetHostgroup sh)
  have harrays := harrays.trans hreadded.arrays
  have hglovars := hglovars.trans hreadded.glovars
  refine ⟨fun i hi => ?_⟩
  rw [flushServersDbToMem, hglovars] at hi
  have hold := h.array i hi
  rw [flushServersDbToMem, harrays, getElem?_append_left (List.getElem?_eq_some_iff.1 hold).1]
  exact hold

/-! ## Runs -/

theorem Shared.FirstArrays.congr (h : sh.FirstArrays)
    (hcount : sh'.glovars.mysqlHostgroups = sh.glovars.mysqlHostgroups)
    (harrays : sh'.mysqlHostgroups = sh.mysqlHostgroups) : sh'.FirstArrays := by
  refine ⟨?_⟩
  rw [hcount, harrays]
  exact h.array

theorem Shared.FirstArrays.of_kept (h : sh.FirstArrays) (hkept : ServersKept sh sh') :
    sh'.FirstArrays :=
  h.congr (congrArg Glovars.mysqlHostgroups hkept.glovars) hkept.mysqlHostgroups

theorem ConnectEnv.flushed_firstArrays (env : ConnectEnv) (attempt : Nat) (h : sh.FirstArrays) :
    (env.flushed attempt sh).FirstArrays := by
  unfold ConnectEnv.flushed
  split
  · exact h
  · exact h.flush _

theorem attachMyds_firstArrays {mybe mybe' : MysqlBackend} {m : Nat} {fd : Int}
    (hattach : attachMyds sh mybe fill m fd = (sh', mybe')) (h : sh.FirstArrays) :
    sh'.FirstArrays := by
  obtain ⟨mshges, myds, heq, -⟩ := attachMyds_eq sh mybe fill m fd
  obtain ⟨rfl, -⟩ := Prod.mk.inj (heq.symm.trans hattach)
  exact h.congr rfl rfl

theorem Creates.firstArrays {cred : Credentials} {env : ConnectEnv} {hg n : Nat}
    {mybe mybe' : MysqlBackend} {rc : CreateResult}
    (hcreates : Creates cred env fill hg n sh mybe sh' mybe' rc) (h : sh.FirstArrays) :
    sh'.FirstArrays := by
  induction hcreates with
  | exhausted => exact h
  | noServer _ => exact h
  | kept _ _ hattach => exact attachMyds_firstArrays hattach h
  | taken _ _ _ hget hattach =>
    exact attachMyds_firstArrays hattach
      (env.flushed_firstArrays _ (h.of_kept (mysqlConnpoolGetConnection_got hget).servers))
  | failed _ _ _ hget =>
      exact env.flushed_firstArrays _ (h.of_kept (mysqlConnpoolGetConnection_got hget).servers)
  | retry _ _ _ hget _ ih =>
    exact ih (env.flushed_firstArrays _ (h.of_kept (mysqlConnpoolGetConnection_got hget).servers))

theorem firstArrays_wiring :
    Wiring (fun sh sh' => sh.FirstArrays → sh'.FirstArrays) (fun _ _ => True) fun _ => True where
  refl _ h := h
  trans h h' hfirst := h' (h hfirst)
  conn _ _ _ h := h.congr rfl rfl
  cache _ _ h := h.congr rfl rfl
  other _ _ := trivial
  stream _ _ := trivial
  forget _ := trivial
  reset _ hreset := ⟨fun h => h.of_kept (backendReset_gaveBack hreset).servers, trivial⟩
  detach _ hdetach := ⟨fun h => h.of_kept (backendDetach_gaveBack hdetach).servers, trivial⟩
  create _ _ hcreates := ⟨hcreates.firstArrays, trivial⟩

theorem World.firstArrays_step {w w' : World} {e : Event} (hstep : WorldStep w e w')
    (h : w.sh.FirstArrays) : w'.sh.FirstArrays := by
  have hconnects : ∀ i e', e = .session i e' → e'.Connects fun _ => True := by
    intro i e' _
    cases e' <;> trivial
  refine (firstArrays_wiring.worldStep hstep hconnects trivial (fun rows he => ?_)
    (fun hsame hfirst => ?_) fun _ _ _ _ => trivial).1 h
  · subst he
    cases hstep
    exact fun hfirst => hfirst.flush rows
  · exact hfirst.congr hsame.hostgroups hsame.mysqlHostgroups

theorem Shared.FirstArrays.init (g : Glovars) (md5 : List Byte → Str)
    (scramble : List Byte → Str → List Byte) : (Shared.init g md5 scramble).FirstArrays :=
  ⟨fun _ hi => getElem?_range hi⟩

/-! ## The table -/

/-- For each array of the list, what its entries lead to. -/
def Shared.hostgroupTable (sh : Shared) : List (List (Option (Str × Nat))) :=
  sh.mysqlHostgroups.map fun a => (sh.hostgroupArrays a).map sh.keyOf

/-- The same without what follows the arrays of the hostgroups. -/
def Shared.firstTables (sh : Shared) : List (List (Option (Str × Nat))) :=
  sh.hostgroupTable.take sh.glovars.mysqlHostgroups

/-- What the ONLINE rows of hostgroup `a` lead to, in their order. -/
def tableRows (rows : List JoinedRow) (a : Nat) : List (Option (Str × Nat)) :=
  (rows.filter fun row => row.status = .online ∧ row.hostgroupId = (a : Int)).map fun row =>
    some row.server.key

/-- The same for the rows that are read as rows of hostgroup `a`. -/
def loadedRows (rows : List JoinedRow) (a : Nat) : List (Option (Str × Nat)) :=
  (rows.filter fun row => row.status = .online ∧ row.hostgroup = (a : Int)).map fun row =>
    some row.server.key

/-- The rows are installed: the hostgroups, in the view `table`, have one new entry for each of
    their ONLINE rows, a server is as its last row says, and the same rows once more change
    nothing. -/
structure Installs (table : Shared → List (List (Option (Str × Nat)))) (sh : Shared)
    (rows : List JoinedRow) (sh' : Shared) : Prop where
  hostgroups : table sh' = (range sh.glovars.mysqlHostgroups).map (tableRows rows)
  entries : ∀ a < sh.glovars.mysqlHostgroups, (sh'.hostgroupArrays a).Nodup ∧
    ∀ m ∈ sh'.hostgroupArrays a, sh.nextMshge ≤ m ∧ (sh'.mshges m).freed = false
  distinct : sh'.Distinct
  servers : ∀ k, lookupKey MysqlServer.key sh'.servers k
    = (((rows.map JoinedRow.server).filter fun ms => ms.key = k).getLast?).or
      (lookupKey MysqlServer.key sh.servers k)
  again : ∃ sh'', flushJoinedRows sh' rows = .ok sh'' ∧ table sh'' = table sh' ∧
    sh''.servers = sh'.servers

theorem onlineKeys_toServerRow (hrange : InRange rows) (a : Nat) :
    onlineKeys (rows.map JoinedRow.toServerRow) a = loadedRows rows a := by
  rw [onlineKeys, loadedRows, filter_map, map_map]
  have hfilter : rows.filter
    ((fun row : ServerRow => decide (row.status = .online ∧ row.hostgroupId = a)) ∘
      JoinedRow.toServerRow) = rows.filter fun row => row.status = .online ∧
        row.hostgroup = (a : Int) := by
    refine filter_congr fun row hrow => ?_
    refine decide_eq_decide.2 (and_congr_right fun honline => ?_)
    have hnonneg := hrange row hrow honline
    show row.hostgroup.toNat = a ↔ row.hostgroup = a
    omega
  rw [hfilter]
  rfl

/-- The hostgroups get the rows that are theirs exactly if no row is read as one of another. -/
theorem loadedRows_eq_iff {n : Nat} (hn : n ≤ 2 ^ 31) (hrange : InRange rows) :
    (∀ a < n, loadedRows rows a = tableRows rows a) ↔ IdsKept n rows := by
  have hown : ∀ {row : JoinedRow} {a : Nat}, a < n → row.hostgroupId = a → row.hostgroup = a := by
    intro row a ha hid
    rw [JoinedRow.hostgroup, hid]
    exact toInt_of_lt (by omega)
  constructor
  · intro h row hrow honline hlt
    have hnonneg := hrange row hrow honline
    have ha : row.hostgroup.toNat < n := by omega
    have hsub : (rows.filter fun r => r.status = .online ∧
      r.hostgroupId = (row.hostgroup.toNat : Int)).Sublist
        (rows.filter fun r => r.status = .online ∧ r.hostgroup = (row.hostgroup.toNat : Int)) := by
      refine monotone_filter_right rows fun r hr => ?_
      rw [decide_eq_true_iff] at hr ⊢
      exact ⟨hr.1, hown ha hr.2⟩
    -- The rows that belong there are some of those that get there, and as many.
    have hlen := congrArg length (h _ ha)
    rw [loadedRows, tableRows, length_map, length_map] at hlen
    have hmem : row ∈ rows.filter fun r => r.status = .online ∧
      r.hostgroupId = (row.hostgroup.toNat : Int) := by
      rw [hsub.eq_of_length hlen.symm, mem_filter, decide_eq_true_iff]
      exact ⟨hrow, honline, by omega⟩
    rw [mem_filter, decide_eq_true_iff] at hmem
    omega
  · intro hkept a ha
    rw [loadedRows, tableRows]
    refine congrArg _ (filter_congr fun row hrow => decide_eq_decide.2 ?_)
    refine and_congr_right fun honline => ⟨fun h => ?_, hown ha⟩
    rw [← hkept row hrow honline (by omega)]
    exact h

section Flush

variable {sh sh' : Shared} {rows : List JoinedRow}

theorem Flushed.firstTables (h : Flushed sh (rows.map JoinedRow.toServerRow) sh')
    (hfirst' : sh'.FirstArrays) (hrange : InRange rows) :
    sh'.firstTables = (range sh.glovars.mysqlHostgroups).map (loadedRows rows) := by
  rw [Shared.firstTables, Shared.hostgroupTable, ← map_take, hfirst'.take, h.glovars]
  refine map_congr_left fun a ha => ?_
  rw [h.keys a (mem_range.1 ha), onlineKeys_toServerRow hrange]

theorem Flushed.installs (h : Flushed sh (rows.map JoinedRow.toServerRow) sh')
    (hfirst' : sh'.FirstArrays) (hok' : sh'.EntriesOk) (hdistinct : sh.Distinct)
    (hdistinct' : sh'.Distinct) (hrange : InRange rows)
    (htables : ∀ a < sh.glovars.mysqlHostgroups, loadedRows rows a = tableRows rows a) :
    Installs Shared.firstTables sh rows sh' := by
  have hservers : (rows.map JoinedRow.toServerRow).map ServerRow.server =
    rows.map JoinedRow.server := by
    rw [map_map]
    rfl
  have hagain := flushServersDbToMem_flushed hfirst' hok' (rows.map JoinedRow.toServerRow)
  refine ⟨?_, h.new, hdistinct', fun k => ?_, ?_⟩
  · rw [h.firstTables hfirst' hrange]
    exact map_congr_left fun a ha => htables a (mem_range.1 ha)
  · rw [h.servers, hservers, lookupKey_foldl_upsert]
  · refine ⟨_, (flushJoinedRows_eq_ok hfirst' rows).2 ⟨hrange, rfl⟩, ?_, ?_⟩
    · rw [hagain.firstTables (hfirst'.flush _) hrange, h.firstTables hfirst' hrange, h.glovars]
    · rw [hagain.servers, h.servers, foldl_upsert_idem _ hdistinct]

end Flush

/-- With 2 to 64 hostgroups, as a configuration has them, and after any run, in particular after any
    number of flushes: a flush never installs its rows.  Apart from the arrays that it adds to the
    list once more it does so exactly if every ONLINE row has a hostgroup id that is read as no
    negative one and as no other hostgroup. -/
theorem flush_installs_iff {g : Glovars} {md5 : List Byte → Str}
    {scramble : List Byte → Str → List Byte} {w : World} {es : List Event}
    (hrun : Run WorldStep (World.init g md5 scramble) es w)
    (hconfig : 2 ≤ g.mysqlHostgroups ∧ g.mysqlHostgroups ≤ 64) (rows : List JoinedRow) :
    ¬(∃ sh', flushJoinedRows w.sh rows = .ok sh' ∧ Installs Shared.hostgroupTable w.sh rows sh') ∧
    ((∃ sh', flushJoinedRows w.sh rows = .ok sh' ∧ Installs Shared.firstTables w.sh rows sh') ↔
      InRange rows ∧ IdsKept g.mysqlHostgroups rows) := by
  have hw : w.Wired g.mysqlHostgroups :=
    hrun.invariant (P := World.Wired g.mysqlHostgroups) (fun _ _ _ hstep hw => hw.step hstep)
      (.init g md5 scramble)
  have hfirst : w.sh.FirstArrays :=
    hrun.invariant (P := fun w : World => w.sh.FirstArrays)
      (fun _ _ _ hstep h => World.firstArrays_step hstep h) (.init g md5 scramble)
  have hflushed :=
    flushServersDbToMem_flushed hfirst hw.inOrder.entries (rows.map JoinedRow.toServerRow)
  have hfirst' := hfirst.flush (rows.map JoinedRow.toServerRow)
  have hinOrder :=
    (flushServersDbToMem_grows w.sh (rows.map JoinedRow.toServerRow)).inOrder hw.inOrder
  have hids :=
    fun hrange : InRange rows => loadedRows_eq_iff (n := g.mysqlHostgroups) (by omega) hrange
  refine ⟨?_, ?_, ?_⟩
  · rintro ⟨sh', hok, h⟩
    obtain ⟨-, rfl⟩ := (flushJoinedRows_eq_ok hfirst rows).1 hok
    -- the list of arrays has grown
    have hlength := congrArg length h.hostgroups
    rw [Shared.hostgroupTable, length_map, length_map, length_range, hflushed.arrays,
      length_append, length_range] at hlength
    have hle := hfirst.length
    rw [hw.hostgroups] at hlength hle
    omega
  · rintro ⟨sh', hok, h⟩
    obtain ⟨hrange, rfl⟩ := (flushJoinedRows_eq_ok hfirst rows).1 hok
    refine ⟨hrange, (hids hrange).1 fun a ha => ?_⟩
    have htables := (hflushed.firstTables hfirst' hrange).symm.trans h.hostgroups
    rw [hw.hostgroups] at htables
    exact map_inj_left.1 htables a (mem_range.2 ha)
  · rintro ⟨hrange, hkept⟩
    refine ⟨_, (flushJoinedRows_eq_ok hfirst rows).2 ⟨hrange, rfl⟩, ?_⟩
    refine hflushed.installs hfirst' hinOrder.entries hw.inOrder.distinct
      hinOrder.distinct hrange ?_
    rw [hw.hostgroups]
    exact (hids hrange).2 hkept

/-- The row of the server of hostgroup 0. -/
def onlineRow : JoinedRow :=
  { hostgroupId := 0, address := bytesOf "db", port := 3306, readOnly := 0, status := .online }

/-- A second flush, with rows for both hostgroups, for none and for a SHUNNED server. -/
def laterRows : List JoinedRow :=
  [onlineRow, { onlineRow with hostgroupId := 1 }, { onlineRow with hostgroupId := 9 },
    { onlineRow with hostgroupId := -1, port := 3307, status := .shunned }]

theorem flush_installs_twice :
    ∃ es w, Run WorldStep oneServer es w ∧
      w.sh = flushServersDbToMem oneServer.sh [onlineRow.toServerRow] ∧
      ¬(∃ sh', flushJoinedRows w.sh laterRows = .ok sh' ∧
        Installs Shared.hostgroupTable w.sh laterRows sh') ∧
      ∃ sh', flushJoinedRows w.sh laterRows = .ok sh' ∧
        Installs Shared.firstTables w.sh laterRows sh' := by
  have hflush : Run WorldStep oneServer [.flushHostgroups [onlineRow.toServerRow]]
      { oneServer with sh := flushServersDbToMem oneServer.sh [onlineRow.toServerRow] } :=
    .cons (.flushHostgroups _) (.nil _)
  obtain ⟨hnever, hiff⟩ := flush_installs_iff hflush (by decide) laterRows
  exact ⟨_, _, hflush, rfl, hnever, hiff.2 (by decide)⟩

/-- The first flush with two hostgroups leaves a list of four arrays.  An ONLINE row with hostgroup
    id -1 is looked up before the list, and one with id 4294967296 enters hostgroup 0. -/
theorem flush_readds_arrays :
    (∃ sh', flushJoinedRows oneServer.sh [onlineRow] = .ok sh' ∧ sh'.glovars.mysqlHostgroups = 2 ∧
      sh'.mysqlHostgroups.length = 4) ∧
    flushJoinedRows oneServer.sh [{ onlineRow with hostgroupId := -1 }] = .error .outOfBounds ∧
    ∃ sh', flushJoinedRows oneServer.sh [{ onlineRow with hostgroupId := 4294967296 }] = .ok sh' ∧
      (sh'.hostgroupArrays 0).length = 1 := by
  have heval : (flushJoinedRows oneServer.sh [onlineRow]).toOption.map
      (fun sh' => (sh'.glovars.mysqlHostgroups, sh'.mysqlHostgroups.length)) = some (2, 4) := by
    decide +kernel
  obtain ⟨sh', hflush, hfields⟩ := Option.map_eq_some_iff.1 heval
  obtain ⟨hcount, hlength⟩ := Prod.mk.inj hfields
  have hwide : (flushJoinedRows oneServer.sh
    [{ onlineRow with hostgroupId := 4294967296 }]).toOption.map
      (fun sh' => (sh'.hostgroupArrays 0).length) = some 1 := by decide +kernel
  obtain ⟨sh'', hflush', hentries⟩ := Option.map_eq_some_iff.1 hwide
  exact ⟨⟨sh', except_toOption_eq_some.1 hflush, hcount, hlength⟩, rfl,
    sh'', except_toOption_eq_some.1 hflush', hentries⟩

end ProxySQL
