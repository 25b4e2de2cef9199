/-
  ProxySQL.Session.Servers

  The servers and hostgroups that FLUSH HOSTGROUPS loads.

  Servers are never removed and never change their address, so that an entry of a
  hostgroup leads to the same address and port for ever, also after it was taken
  out of its hostgroup (`SameTargets`).  Every entry leads to a server
  (`Shared.EntriesOk`).
-/
import ProxySQL.Lib.Upsert
import ProxySQL.Session.BackendSpec

namespace ProxySQL

open Lib List

/-- The entries of the hostgroups exist, every entry leads to a server, and there are as many hostgroups
    as configured. -/
structure Shared.EntriesOk (sh : Shared) : Prop where
  allocated : ∀ a, ∀ m ∈ sh.hostgroupArrays a, m < sh.nextMshge
  server : ∀ m < sh.nextMshge, ∃ i, (sh.mshges m).msPtr = some i ∧ i < sh.servers.length
  hostgroups : sh.glovars.mysqlHostgroups ≤ sh.mysqlHostgroups.length

/-- Entries lead to the addresses they led to. -/
structure SameTargets (sh sh' : Shared) : Prop where
  next : sh.nextMshge ≤ sh'.nextMshge
  msPtr : ∀ m < sh.nextMshge, (sh'.mshges m).msPtr = (sh.mshges m).msPtr
  server : ∀ (i : Nat) (ms : MysqlServer), sh.servers[i]? = some ms →
    ∃ ms' : MysqlServer, sh'.servers[i]? = some ms' ∧ ms'.address = ms.address ∧ ms'.port = ms.port

variable {m hg : Nat} {sh : Shared} {mshge : Option Nat}

namespace SameTargets

variable {sh sh' sh'' : Shared}

theorem refl (sh : Shared) : SameTargets sh sh :=
  ⟨Nat.le_refl _, fun _ _ => rfl, fun _ ms h => ⟨ms, h, rfl, rfl⟩⟩

theorem trans (h : SameTargets sh sh') (h' : SameTargets sh' sh'') : SameTargets sh sh'' := by
  refine ⟨Nat.le_trans h.next h'.next, fun m hm => ?_, fun i ms hms => ?_⟩
  · exact (h'.msPtr m (Nat.lt_of_lt_of_le hm h.next)).trans (h.msPtr m hm)
  · obtain ⟨ms', hms', haddress', hport'⟩ := h.server i ms hms
    obtain ⟨ms'', hms'', haddress'', hport''⟩ := h'.server i ms' hms'
    exact ⟨ms'', hms'', haddress''.trans haddress', hport''.trans hport'⟩

theorem of_kept (h : ServersKept sh sh') : SameTargets sh sh' :=
  ⟨h.nextMshge.ge, fun m _ => h.msPtr m, fun _ ms hms => ⟨ms, h.servers ▸ hms, rfl, rfl⟩⟩

theorem msPtr_ok (h : SameTargets sh sh') {ms : MysqlServer} (hm : m < sh.nextMshge)
    (hms : sh.msPtr m = .ok ms) :
    ∃ ms', sh'.msPtr m = .ok ms' ∧ ms'.address = ms.address ∧ ms'.port = ms.port := by
  obtain ⟨i, hi, hget⟩ := except_bind_eq_ok.1 hms
  obtain ⟨ms', hms', hsame⟩ := h.server i ms (deref_eq_ok.1 hget)
  refine ⟨ms', except_bind_eq_ok.2 ⟨i, ?_, deref_eq_ok.2 hms'⟩, hsame⟩
  rw [h.msPtr m hm]
  exact hi

end SameTargets

theorem Shared.EntriesOk.of_kept {sh' : Shared} (h : sh.EntriesOk) (hk : ServersKept sh sh') :
    sh'.EntriesOk := by
  refine ⟨?_, ?_, ?_⟩
  · rw [hk.hostgroupArrays, hk.nextMshge]
    exact h.allocated
  · intro m hm
    rw [hk.msPtr m, hk.servers]
    exact h.server m (hk.nextMshge ▸ hm)
  · rw [hk.glovars, hk.mysqlHostgroups]
    exact h.hostgroups

theorem Shared.EntriesOk.msPtr (h : sh.EntriesOk) (hm : m < sh.nextMshge) :
    ∃ ms, sh.msPtr m = .ok ms ∧ ms ∈ sh.servers := by
  obtain ⟨i, hi, hlt⟩ := h.server m hm
  refine ⟨sh.servers[i], except_bind_eq_ok.2 ⟨i, ?_, ?_⟩, getElem_mem hlt⟩
  · rw [hi]
    rfl
  · rw [getElem?_eq_getElem hlt]
    rfl

/-! ## The entries of a hostgroup -/

/-- The entries of a hostgroup. -/
def Shared.entries (sh : Shared) (hg : Nat) : List Nat :=
  match sh.mysqlHostgroups[hg]? with
  | none => []
  | some a => sh.hostgroupArrays a

theorem Shared.entries_eq {a : Nat} (h : sh.mysqlHostgroups[hg]? = some a) :
    sh.entries hg = sh.hostgroupArrays a := by
  unfold Shared.entries
  rw [h]

theorem chooseEntry_mem {rand : Nat}
    (h : chooseEntry sh mshge hg rand = .ok (some m)) : mshge = some m ∨ m ∈ sh.entries hg := by
  cases mshge with
  | some m' => exact .inl (Except.ok.inj h)
  | none =>
    right
    rw [chooseEntry, mysqlServerRandomEntryFromHostgroup] at h
    split at h
    · split at h
      · cases h
      · next a ha =>
        rw [Shared.entries_eq ha]
        dsimp only at h
        split at h
        · cases h
        · exact mem_of_getElem? (Except.ok.inj h)
    · cases h

theorem ServersKept.entries {sh' : Shared} (h : ServersKept sh sh') (hg : Nat) :
    sh'.entries hg = sh.entries hg := by
  unfold Shared.entries
  rw [h.mysqlHostgroups, h.hostgroupArrays]

theorem Shared.EntriesOk.entries (h : sh.EntriesOk) (hm : m ∈ sh.entries hg) :
    m < sh.nextMshge := by
  unfold Shared.entries at hm
  split at hm
  · cases hm
  · next a _ => exact h.allocated a m hm

theorem chooseEntry_lt {rand : Nat} (hok : sh.EntriesOk)
    (hmshge : ∀ m, mshge = some m → m < sh.nextMshge) (h : chooseEntry sh mshge hg rand = .ok (some m)) :
    m < sh.nextMshge := by
  rcases chooseEntry_mem h with hown | hmem
  · exact hmshge m hown
  · exact hok.entries hmem

/-! ## The list of servers -/

/-- What a server is found by. -/
def MysqlServer.key (ms : MysqlServer) : Str × Nat := (ms.address, ms.port)

theorem findServerPtr_eq (servers : List MysqlServer) (ms : MysqlServer) :
    findServerPtr servers ms.address ms.port = servers.findIdx? fun ms' => ms'.key = ms.key := by
  unfold findServerPtr
  congr 1
  funext ms'
  rw [Bool.eq_iff_iff, Bool.and_eq_true, beq_iff_eq, beq_iff_eq, decide_eq_true_iff]
  exact ⟨fun h => Prod.ext h.2 h.1, fun h => ⟨(Prod.mk.inj h).2, (Prod.mk.inj h).1⟩⟩

theorem setServer_upsert (sh : Shared) (ms : MysqlServer) {i : Nat}
    (hi : (findServerPtr sh.servers ms.address ms.port).getD sh.servers.length = i) :
    (if i < sh.servers.length then { sh with servers := sh.servers.set i ms }
        else { sh with servers := sh.servers ++ [ms] })
      = { sh with servers := upsert MysqlServer.key sh.servers ms } ∧
    (upsert MysqlServer.key sh.servers ms)[i]? = some ms := by
  rw [upsert_eq_set, ← findServerPtr_eq]
  cases hfind : findServerPtr sh.servers ms.address ms.port with
  | none =>
    rw [hfind, Option.getD_none] at hi
    subst hi
    rw [if_neg (Nat.lt_irrefl _), Option.elim_none]
    exact ⟨rfl, getElem?_concat_length⟩
  | some j =>
    rw [hfind, Option.getD_some] at hi
    subst hi
    have hlt := (findIdx?_eq_some_iff_getElem.1 hfind).1
    rw [if_pos hlt, Option.elim_some]
    exact ⟨rfl, getElem?_set_self hlt⟩

/-- The server that the row describes. -/
def ServerRow.server (row : ServerRow) : MysqlServer :=
  { address := row.address, port := row.port, readOnly := row.readOnly, status := row.status }

/-- The shared data with the server of a row. -/
def Shared.withServer (sh : Shared) (ms : MysqlServer) : Shared :=
  { sh with servers := upsert MysqlServer.key sh.servers ms }

/-- What a row does: its server is updated or added, and if it is ONLINE there is an entry for it. -/
theorem loadServer_eq (sh : Shared) (row : ServerRow) :
    ∃ i, (sh.withServer row.server).servers[i]? = some row.server ∧
      loadServer sh row = if row.status = .online
        then mysqlServerEntryAddHostgroup (sh.withServer row.server) i row.hostgroupId
        else sh.withServer row.server := by
  obtain ⟨hset, hget⟩ := setServer_upsert sh row.server rfl
  exact ⟨_, hget, congrArg (fun sh1 : Shared => if row.status = .online
    then mysqlServerEntryAddHostgroup sh1
      ((findServerPtr sh.servers row.address row.port).getD sh.servers.length)
      row.hostgroupId else sh1) hset⟩

/-! ## FLUSH HOSTGROUPS -/

/-- What both parts of FLUSH HOSTGROUPS keep. -/
structure Loads (sh sh' : Shared) : Prop where
  glovars : sh'.glovars = sh.glovars
  gloconnpoolTv : sh'.gloconnpoolTv = sh.gloconnpoolTv
  targets : SameTargets sh sh'
  entries : sh.EntriesOk → sh'.EntriesOk

theorem Loads.refl (sh : Shared) : Loads sh sh := ⟨rfl, rfl, .refl _, id⟩

theorem Loads.trans {sh' sh'' : Shared} (h : Loads sh sh') (h' : Loads sh' sh'') : Loads sh sh'' :=
  ⟨h'.glovars.trans h.glovars, h'.gloconnpoolTv.trans h.gloconnpoolTv, h.targets.trans h'.targets,
    fun hok => h'.entries (h.entries hok)⟩

theorem resetHostgroup_loads (sh : Shared) (i : Nat) : Loads sh (resetHostgroup sh i) := by
  unfold resetHostgroup
  split
  · exact .refl _
  · next a _ =>
    have hptr : ∀ m, (if m ∈ sh.hostgroupArrays a then { sh.mshges m with freed := true }
        else sh.mshges m).msPtr = (sh.mshges m).msPtr := by
      intro m
      split
      · rfl
      · rfl
    refine ⟨rfl, rfl, ⟨Nat.le_refl _, fun m _ => hptr m, fun _ ms h => ⟨ms, h, rfl, rfl⟩⟩, fun hok => ?_⟩
    refine ⟨fun b m hm => ?_, fun m hm => ?_, ?_⟩
    · dsimp only at hm
      split at hm
      · cases hm
      · exact hok.allocated b m hm
    · rw [hptr m]
      exact hok.server m hm
    · simp only [length_append]
      exact Nat.le_trans hok.hostgroups (Nat.le_add_right _ _)

theorem mysqlServerEntryAddHostgroup_loads {i : Nat} (hi : i < sh.servers.length) (hg : Nat) :
    Loads sh (mysqlServerEntryAddHostgroup sh i hg) := by
  unfold mysqlServerEntryAddHostgroup
  split
  · exact .refl _
  · split
    · exact .refl _
    · next a _ =>
      refine ⟨rfl, rfl, ⟨Nat.le_succ _, fun m hm => ?_, fun _ ms h => ⟨ms, h, rfl, rfl⟩⟩, fun hok => ?_⟩
      · dsimp only
        rw [if_neg (Nat.ne_of_lt hm)]
      · refine ⟨fun b m hm => ?_, fun m hm => ?_, hok.hostgroups⟩
        · dsimp only at hm
          split at hm
          · rcases mem_append.1 hm with hold | hnew
            · exact Nat.lt_succ_of_lt (hok.allocated a m hold)
            · obtain rfl := mem_singleton.1 hnew
              exact Nat.lt_succ_self _
          · exact Nat.lt_succ_of_lt (hok.allocated b m hm)
        · dsimp only
          split
          · exact ⟨i, rfl, hi⟩
          · next hne =>
            have hlt : m < sh.nextMshge := Nat.lt_of_le_of_ne (Nat.le_of_lt_succ hm) hne
            exact hok.server m hlt

theorem withServer_loads (sh : Shared) (ms : MysqlServer) : Loads sh (sh.withServer ms) := by
  have hserver : ∀ (i : Nat) (old : MysqlServer), sh.servers[i]? = some old →
      ∃ ms' : MysqlServer, (sh.withServer ms).servers[i]? = some ms' ∧ ms'.address = old.address ∧
        ms'.port = old.port := by
    intro i old hold
    obtain ⟨ms', hms', hkey⟩ := @getElem?_upsert _ _ _ MysqlServer.key _ i old ms hold
    exact ⟨ms', hms', (Prod.mk.inj hkey).1, (Prod.mk.inj hkey).2⟩
  refine ⟨rfl, rfl, ⟨Nat.le_refl _, fun _ _ => rfl, hserver⟩,
    fun hok => ⟨hok.allocated, fun m hm => ?_, hok.hostgroups⟩⟩
  obtain ⟨i, hi, hlt⟩ := hok.server m hm
  obtain ⟨ms', hms', -⟩ := hserver i _ (getElem?_eq_getElem hlt)
  exact ⟨i, hi, (List.getElem?_eq_some_iff.1 hms').1⟩

theorem loadServer_loads (sh : Shared) (row : ServerRow) : Loads sh (loadServer sh row) := by
  obtain ⟨i, hget, heq⟩ := loadServer_eq sh row
  have hserver := withServer_loads sh row.server
  rw [heq]
  split
  · exact hserver.trans (mysqlServerEntryAddHostgroup_loads (List.getElem?_eq_some_iff.1 hget).1 _)
  · exact hserver

theorem loads_flush : FlushRule Loads := ⟨.refl, .trans, resetHostgroup_loads, loadServer_loads⟩

theorem flushServersDbToMem_loads (sh : Shared) (rows : List ServerRow) :
    Loads sh (flushServersDbToMem sh rows) := loads_flush.flush sh rows

theorem ConnectEnv.flushed_loads (env : ConnectEnv) (attempt : Nat) (sh : Shared) :
    Loads sh (env.flushed attempt sh) := loads_flush.flushed env attempt sh

theorem Shared.EntriesOk.init (g : Glovars) (md5 : List Byte → Str)
    (scramble : List Byte → Str → List Byte) : (Shared.init g md5 scramble).EntriesOk := by
  refine ⟨(fun _ _ hm => nomatch hm), (fun _ hm => nomatch hm), ?_⟩
  exact (length_range).ge

end ProxySQL
