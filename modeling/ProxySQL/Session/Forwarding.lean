/-
  ProxySQL.Session.Forwarding

  Whether forwarding a packet ends.

  The forwarding part of `process_client_pkts` asserts that the server is ONLINE
  after it has dealt with a server that is OFFLINE_HARD and replaced one that is
  OFFLINE_SOFT.  It stops the process for a server that is SHUNNED, for one that is
  OFFLINE_SOFT while the backend is in a transaction, and where no backend was found
  that could replace an old one.  While a connection is sought the administrator may
  load any status.  So forwarding is sure to end exactly if nothing has to be sought
  and the server is ONLINE or OFFLINE_HARD, or if there is no server to be found
  (`forwarding_ends_iff`).
-/
import ProxySQL.Session.Wiring
import ProxySQL.Session.Servers
import ProxySQL.Session.Routing

namespace ProxySQL

open Lib List Option

/-! ## Servers with different addresses -/

/-- No two servers have the same address and port. -/
def Shared.Distinct (sh : Shared) : Prop := (sh.servers.map MysqlServer.key).Nodup

variable {sh sh' : Shared} {ms : MysqlServer}
  {mybe mybe' : MysqlBackend} {m hg n : Nat} {fill : Nat → Byte} {t : Target} {cred : Credentials}
  {env cenv : ConnectEnv} {rc : CreateResult} {myds : MysqlDataStream} {send : List Int}

theorem Shared.Distinct.findServerPtr (h : sh.Distinct) {i : Nat} (hms : sh.servers[i]? = some ms) :
    findServerPtr sh.servers ms.address ms.port = some i := by
  obtain ⟨hi, rfl⟩ := List.getElem?_eq_some_iff.1 hms
  rw [findServerPtr_eq]
  refine findIdx?_eq_some_iff_getElem.2 ⟨hi, decide_eq_true rfl, fun j hj => ?_⟩
  have hne := pairwise_iff_getElem.1 (pairwise_map.1 h) j i (Nat.lt_trans hj hi) hi hj
  simpa using hne

theorem mysqlServerEntryAddHostgroup_servers (sh : Shared) (i hg : Nat) :
    (mysqlServerEntryAddHostgroup sh i hg).servers = sh.servers := by
  unfold mysqlServerEntryAddHostgroup
  split
  · rfl
  · split <;> rfl

theorem loadServer_distinct (row : ServerRow) (h : sh.Distinct) : (loadServer sh row).Distinct := by
  obtain ⟨i, -, heq⟩ := loadServer_eq sh row
  have hserver : (sh.withServer row.server).Distinct := nodup_upsert row.server h
  rw [heq]
  split
  · rw [Shared.Distinct, mysqlServerEntryAddHostgroup_servers]
    exact hserver
  · exact hserver

theorem resetHostgroup_kept (sh : Shared) (i : Nat) : (resetHostgroup sh i).servers = sh.servers ∧
    ∀ m, ((resetHostgroup sh i).mshges m).msPtr = (sh.mshges m).msPtr := by
  unfold resetHostgroup
  split
  · exact ⟨rfl, fun _ => rfl⟩
  · refine ⟨rfl, fun m => ?_⟩
    dsimp only
    split <;> rfl

theorem resetHostgroups_kept (sh : Shared) (is : List Nat) :
    (is.foldl resetHostgroup sh).servers = sh.servers ∧
    ∀ m, ((is.foldl resetHostgroup sh).mshges m).msPtr = (sh.mshges m).msPtr := by
  induction is generalizing sh with
  | nil => exact ⟨rfl, fun _ => rfl⟩
  | cons i is ih =>
    obtain ⟨hservers, hptr⟩ := ih (resetHostgroup sh i)
    obtain ⟨hround, hptr'⟩ := resetHostgroup_kept sh i
    exact ⟨hservers.trans hround, fun m => (hptr m).trans (hptr' m)⟩

theorem distinct_flush : FlushRule fun sh sh' => sh.Distinct → sh'.Distinct where
  refl _ := id
  trans h h' hdistinct := h' (h hdistinct)
  reset sh i hdistinct := by
    rw [Shared.Distinct, (resetHostgroup_kept sh i).1]
    exact hdistinct
  load _ row := loadServer_distinct row

/-! ## The wiring -/

/-- Every entry leads to a server, and no two servers have the same address. -/
structure Shared.InOrder (sh : Shared) : Prop where
  entries : sh.EntriesOk
  distinct : sh.Distinct

/-- The entry of a backend exists, and a backend with a connection has an entry and a stream. -/
structure MysqlBackend.Wired (sh : Shared) (mybe : MysqlBackend) : Prop where
  entry : ∀ m, mybe.mshge = some m → m < sh.nextMshge
  connected : mybe.serverMycpe.isSome → mybe.mshge.isSome ∧ mybe.serverMyds.isSome

/-- There are as many hostgroups, no entry is lost, and everything stays in order. -/
structure Grows (sh sh' : Shared) : Prop where
  hostgroups : sh'.glovars.mysqlHostgroups = sh.glovars.mysqlHostgroups
  next : sh.nextMshge ≤ sh'.nextMshge
  inOrder : sh.InOrder → sh'.InOrder

theorem Grows.trans {sh'' : Shared} (h : Grows sh sh') (h' : Grows sh' sh'') : Grows sh sh'' :=
  ⟨h'.hostgroups.trans h.hostgroups, Nat.le_trans h.next h'.next, fun hok => h'.inOrder (h.inOrder hok)⟩

theorem Grows.of_kept (h : ServersKept sh sh') : Grows sh sh' where
  hostgroups := congrArg Glovars.mysqlHostgroups h.glovars
  next := h.nextMshge.ge
  inOrder hok := ⟨hok.entries.of_kept h, by rw [Shared.Distinct, h.servers]; exact hok.distinct⟩

theorem flushServersDbToMem_grows (sh : Shared) (rows : List ServerRow) :
    Grows sh (flushServersDbToMem sh rows) := by
  have hloads := flushServersDbToMem_loads sh rows
  exact ⟨congrArg Glovars.mysqlHostgroups hloads.glovars, hloads.targets.next,
    fun hok => ⟨hloads.entries hok.entries, distinct_flush.flush sh rows hok.distinct⟩⟩

theorem ConnectEnv.flushed_grows (env : ConnectEnv) (attempt : Nat) (sh : Shared) :
    Grows sh (env.flushed attempt sh) := by
  have hloads := env.flushed_loads attempt sh
  exact ⟨congrArg Glovars.mysqlHostgroups hloads.glovars, hloads.targets.next,
    fun hok => ⟨hloads.entries hok.entries, distinct_flush.flushed env attempt sh hok.distinct⟩⟩

theorem SameWiring.grows (h : SameWiring sh sh') : Grows sh sh' := by
  refine ⟨h.hostgroups, h.nextMshge.ge, fun hok => ⟨⟨?_, ?_, ?_⟩, ?_⟩⟩
  · rw [h.hostgroupArrays, h.nextMshge]
    exact hok.entries.allocated
  · rw [h.nextMshge, h.mshges, h.servers]
    exact hok.entries.server
  · rw [h.hostgroups, h.mysqlHostgroups]
    exact hok.entries.hostgroups
  · rw [Shared.Distinct, h.servers]
    exact hok.distinct

theorem MysqlBackend.Wired.of_grows (h : mybe.Wired sh) (hg : Grows sh sh') : mybe.Wired sh' :=
  ⟨fun m hm => Nat.lt_of_lt_of_le (h.entry m hm) hg.next, h.connected⟩

theorem mysqlBackendNew_wired (sh : Shared) : mysqlBackendNew.Wired sh :=
  ⟨fun _ hm => (nomatch hm), fun hsome => (nomatch hsome)⟩

theorem attachMyds_wired {fd : Int}
    (hm : mybe.mshge = some m) (hlt : m < sh.nextMshge) (h : attachMyds sh mybe fill m fd = (sh', mybe')) :
    ServersKept sh sh' ∧ mybe'.Wired sh' ∧ mybe'.mshge = some m ∧ mybe'.serverMycpe = mybe.serverMycpe := by
  obtain ⟨mshges, myds, heq, hptr, -⟩ := attachMyds_eq sh mybe fill m fd
  obtain ⟨rfl, rfl⟩ := Prod.mk.inj (heq.symm.trans h)
  refine ⟨⟨rfl, rfl, rfl, rfl, rfl, rfl, hptr⟩, ⟨fun m' hm' => ?_, fun _ => ⟨?_, rfl⟩⟩, hm, rfl⟩
  · obtain rfl : m = m' := some.inj (hm.symm.trans hm')
    exact hlt
  · rw [hm]
    rfl

theorem getConnection_grows {sh1 : Shared} {ref ref' mycpe : Option Nat} {connect : Option Int}
    (env : ConnectEnv) (attempt : Nat)
    (h : mysqlConnpoolGetConnection sh ref t connect = .ok (sh1, ref', mycpe)) :
    Grows sh (env.flushed attempt sh1) :=
  (Grows.of_kept (mysqlConnpoolGetConnection_got h).servers).trans (env.flushed_grows attempt sh1)

theorem Creates.wired (h : Creates cred env fill hg n sh mybe sh' mybe' rc)
    (hok : sh.InOrder) (hmybe : mybe.Wired sh) : Grows sh sh' ∧ mybe'.Wired sh' := by
  induction h with
  | exhausted => exact ⟨.of_kept (.refl _), hmybe⟩
  | @noServer n sh mybe hentry =>
    refine ⟨.of_kept (.refl _), fun _ hm => (nomatch hm), fun hsome => ?_⟩
    obtain ⟨m, hm⟩ := isSome_iff_exists.1 (hmybe.connected hsome).1
    exact nomatch chooseEntry_own hentry m hm
  | kept hentry _ hattach =>
    have hlt := chooseEntry_lt hok.entries hmybe.entry hentry
    obtain ⟨hkept, hwired, -⟩ := attachMyds_wired rfl hlt hattach
    exact ⟨.of_kept hkept, hwired⟩
  | @taken n m c sh sh1 sh' mybe mybe' ms ref hentry _ _ hget hattach =>
    have hgrows := getConnection_grows env (10 - (n + 1)) hget
    have hlt := Nat.lt_of_lt_of_le (chooseEntry_lt hok.entries hmybe.entry hentry) hgrows.next
    obtain ⟨hkept, hwired, -⟩ := attachMyds_wired rfl hlt hattach
    exact ⟨hgrows.trans (.of_kept hkept), hwired⟩
  | failed hentry _ _ hget =>
    have hgrows := getConnection_grows env 9 hget
    refine ⟨hgrows, fun m hm => ?_, fun hsome => (nomatch hsome)⟩
    cases hm
    exact Nat.lt_of_lt_of_le (chooseEntry_lt hok.entries hmybe.entry hentry) hgrows.next
  | @retry n m sh sh1 sh' mybe mybe' ms ref rc hentry _ _ hget _ ih =>
    have hgrows := getConnection_grows env (10 - (n + 1)) hget
    obtain ⟨hgrows', hwired⟩ :=
      ih (hgrows.inOrder hok) ⟨fun _ hm => (nomatch hm), fun hsome => (nomatch hsome)⟩
    exact ⟨hgrows.trans hgrows', hwired⟩

theorem wired_wiring : Wiring Grows (fun sh mybe => sh.InOrder ∧ mybe.Wired sh) fun _ => True where
  refl sh := .of_kept (.refl sh)
  trans := Grows.trans
  conn _ _ _ := .of_kept ⟨rfl, rfl, rfl, rfl, rfl, rfl, fun _ => rfl⟩
  cache _ _ := ⟨rfl, Nat.le_refl _,
    fun hok => ⟨⟨hok.entries.allocated, hok.entries.server, hok.entries.hostgroups⟩, hok.distinct⟩⟩
  other hgrows h := ⟨hgrows.inOrder h.1, h.2.of_grows hgrows⟩
  stream _ h := ⟨h.1, h.2.entry, fun hsome => ⟨(h.2.connected hsome).1, rfl⟩⟩
  forget h := ⟨h.1, h.2.entry, h.2.connected⟩
  reset h hreset := by
    have hgrows := Grows.of_kept (backendReset_gaveBack hreset).servers
    refine ⟨hgrows, hgrows.inOrder h.1, ?_⟩
    rw [backendReset_eq hreset]
    exact mysqlBackendNew_wired _
  detach {sh sh' mybe mybe' fc now} h hdetach := by
    have hgave := backendDetach_gaveBack hdetach
    have hgrows := Grows.of_kept hgave.servers
    have hsome : mybe'.serverMycpe.isSome → mybe.serverMycpe.isSome := by
      rcases hgave.cases with ⟨hsame, -⟩ | ⟨_, -, hnone, -⟩
      · rw [hsame]
        exact id
      · rw [hnone]
        exact nofun
    refine ⟨hgrows, hgrows.inOrder h.1, ?_⟩
    have heq := backendDetach_eq hdetach
    refine ⟨fun m hm => ?_, fun hconn => ?_⟩
    · rw [heq] at hm
      exact (h.2.of_grows hgrows).entry m hm
    · rw [heq]
      exact h.2.connected (hsome hconn)
  create _ h hcreates := by
    obtain ⟨hgrows, hwired⟩ := hcreates.wired h.1 h.2
    exact ⟨hgrows, hgrows.inOrder h.1, hwired⟩

/-- The backends of all sessions are wired, and a healthy session has one for each of `n` hostgroups. -/
structure World.Wired (n : Nat) (w : World) : Prop where
  hostgroups : w.sh.glovars.mysqlHostgroups = n
  inOrder : w.sh.InOrder
  backends : ∀ s ∈ w.sessions, ∀ mybe ∈ s.mybes, mybe.Wired w.sh
  length : ∀ s ∈ w.sessions, s.healthy = true → s.mybes.length = n

theorem World.Wired.step {w w' : World} {e : Event} (h : WorldStep w e w') (hw : w.Wired n) :
    w'.Wired n := by
  have hconnects : ∀ i e', e = .session i e' → e'.Connects fun _ => True := by
    intro i e' _
    cases e' <;> trivial
  have hflush : ∀ rows, e = .flushHostgroups rows → Grows w.sh w'.sh := by
    rintro rows rfl
    cases h
    exact flushServersDbToMem_grows _ rows
  obtain ⟨hgrows, hbackends⟩ :=
    wired_wiring.worldStep h hconnects ⟨hw.inOrder, mysqlBackendNew_wired _⟩ hflush
    SameWiring.grows fun s hs mybe hmybe => ⟨hw.inOrder, hw.backends s hs mybe hmybe⟩
  refine ⟨hgrows.hostgroups.trans hw.hostgroups, hgrows.inOrder hw.inOrder,
    fun s hs mybe hmybe => (hbackends s hs mybe hmybe).2, ?_⟩
  refine worldStep_sessions h (fun _ _ _ _ _ _ => ?_) (fun i s e' t _ hs hst hold ht => ?_) hw.length
  · exact length_replicate.trans hw.hostgroups
  · exact sessStep_backends hst ht (hold ((sessStep_routing hst).healthy ht))

theorem World.Wired.init (g : Glovars) (md5 : List Byte → Str) (scramble : List Byte → Str → List Byte) :
    (World.init g md5 scramble).Wired g.mysqlHostgroups where
  hostgroups := rfl
  inOrder := ⟨.init g md5 scramble, List.Pairwise.nil⟩
  backends _ h := nomatch h
  length _ h := nomatch h

/-! ## A search that is disturbed -/

/-- The administrator takes a server out of use. -/
def shunRow (ms : MysqlServer) : ServerRow :=
  { hostgroupId := 0, address := ms.address, port := ms.port, readOnly := ms.readOnly, status := .shunned }

theorem flush_shunRow (hok : sh.InOrder) (hms : sh.msPtr m = .ok ms) :
    (flushServersDbToMem sh [shunRow ms]).msPtr m = .ok { ms with status := .shunned } := by
  obtain ⟨i, hi, hget⟩ := except_bind_eq_ok.1 hms
  have hget := deref_eq_ok.1 hget
  obtain ⟨hservers, hptr⟩ := resetHostgroups_kept sh (range sh.glovars.mysqlHostgroups)
  have hlt : i < sh.servers.length := (List.getElem?_eq_some_iff.1 hget).1
  unfold flushServersDbToMem
  generalize (range sh.glovars.mysqlHostgroups).foldl resetHostgroup sh = sh1 at hservers hptr
  have hload : loadServer sh1 (shunRow ms) =
    { sh1 with servers := sh1.servers.set i { ms with status := .shunned } } := by
    unfold loadServer
    dsimp only [shunRow]
    rw [hservers, hok.distinct.findServerPtr hget, getD_some, if_pos hlt]
    exact if_neg nofun
  rw [foldl_cons, foldl_nil, hload]
  refine except_bind_eq_ok.2 ⟨i, ?_, deref_eq_ok.2 ?_⟩
  · rw [hptr m]
    exact hi
  · rw [hservers]
    exact getElem?_set_self hlt

/-- While connections are sought, which can all be opened, the server is taken out of use. -/
def ConnectEnv.disturbed (ms : MysqlServer) : ConnectEnv :=
  { rand := fun _ => 0, connect := fun _ => some 7, flush := fun _ => some [shunRow ms] }

theorem getConnection_isSome {ref ref' mycpe : Option Nat} {fd : Int}
    (h : mysqlConnpoolGetConnection sh ref t (some fd) = .ok (sh', ref', mycpe)) : mycpe.isSome := by
  obtain ⟨⟨sh1, ref1, mycpe1⟩, -, h⟩ := except_bind_eq_ok.1 h
  cases mycpe1 with
  | some c =>
    obtain rfl : some c = mycpe := congrArg (·.2.2) (Except.ok.inj h)
    rfl
  | none =>
    obtain ⟨⟨sh2, ref2, mycpe2⟩, -, h⟩ := except_bind_eq_ok.1 h
    cases mycpe2 with
    | some c =>
      obtain rfl : some c = mycpe := congrArg (·.2.2) (Except.ok.inj h)
      rfl
    | none =>
      obtain rfl : some sh2.nextConn = mycpe := congrArg (·.2.2) (Except.ok.inj h)
      rfl

/-- A backend without a connection gets one to a server that has been taken out of use meanwhile. -/
theorem Creates.disturbed
    (h : Creates cred (.disturbed ms) fill hg (n + 1) sh mybe sh' mybe' rc) (hok : sh.InOrder)
    (hentry : chooseEntry sh mybe.mshge hg 0 = .ok (some m)) (hlt : m < sh.nextMshge)
    (hnone : mybe.serverMycpe = none) (hms : sh.msPtr m = .ok ms) :
    rc = .created ∧ mybe'.mshge = some m ∧ mybe'.serverMycpe.isSome ∧
      sh'.msPtr m = .ok { ms with status := .shunned } := by
  cases h with
  | noServer hother => exact nomatch Except.ok.inj (hentry.symm.trans hother)
  | kept _ hsome => exact nomatch hnone.symm.trans hsome
  | @taken _ m' c _ sh1 _ _ _ ms' ref hentry' _ _ hget hattach =>
    obtain rfl : m = m' := some.inj (Except.ok.inj (hentry.symm.trans hentry'))
    have hkept := (mysqlConnpoolGetConnection_got hget).servers
    have hgrows := getConnection_grows (.disturbed ms) (10 - (n + 1)) hget
    obtain ⟨hkept', -, hm, hmycpe⟩ := attachMyds_wired rfl (Nat.lt_of_lt_of_le hlt hgrows.next) hattach
    have hshunned := flush_shunRow ((Grows.of_kept hkept).inOrder hok) ((hkept.msPtr_eq m).trans hms)
    refine ⟨rfl, hm, ?_, (hkept'.msPtr_eq m).trans hshunned⟩
    rw [hmycpe]
    rfl
  | failed _ _ _ hget => exact nomatch getConnection_isSome hget
  | retry _ _ _ hget => exact nomatch getConnection_isSome hget

section Entries

variable {sh : Shared} {hg : Nat}

theorem chooseEntry_empty (hok : sh.EntriesOk) (hhg : hg < sh.glovars.mysqlHostgroups)
    (hempty : sh.entries hg = []) (rand : Nat) : chooseEntry sh none hg rand = .ok none := by
  have hlt : hg < sh.mysqlHostgroups.length := Nat.lt_of_lt_of_le hhg hok.hostgroups
  have hget := getElem?_eq_getElem hlt
  rw [Shared.entries_eq hget] at hempty
  rw [chooseEntry, mysqlServerRandomEntryFromHostgroup, if_pos hhg, hget]
  dsimp only
  rw [if_pos (by rw [hempty]; rfl)]
  rfl

theorem chooseEntry_first {rest : List Nat} (hhg : hg < sh.glovars.mysqlHostgroups)
    (hentries : sh.entries hg = m :: rest) : chooseEntry sh none hg 0 = .ok (some m) := by
  cases ha : sh.mysqlHostgroups[hg]? with
  | none =>
    rw [Shared.entries, ha] at hentries
    cases hentries
  | some a =>
    rw [Shared.entries, ha] at hentries
    dsimp only at hentries
    rw [chooseEntry, mysqlServerRandomEntryFromHostgroup, if_pos hhg, ha]
    dsimp only
    have hpos : ¬ (m :: rest).length = 0 := Nat.succ_ne_zero _
    rw [hentries, if_neg hpos, Nat.zero_mod]
    rfl

theorem Creates.empty (h : Creates cred env fill hg (n + 1) sh mybe sh' mybe' rc)
    (hok : sh.EntriesOk) (hhg : hg < sh.glovars.mysqlHostgroups) (hempty : sh.entries hg = [])
    (hmshge : mybe.mshge = none) : rc = .noServer ∧ mybe'.mshge = none := by
  have hnone : ∀ rand, chooseEntry sh mybe.mshge hg rand = .ok none := fun rand => by
    rw [hmshge]
    exact chooseEntry_empty hok hhg hempty rand
  cases h with
  | noServer => exact ⟨rfl, rfl⟩
  | kept hentry => exact nomatch Except.ok.inj ((hnone _).symm.trans hentry)
  | taken hentry => exact nomatch Except.ok.inj ((hnone _).symm.trans hentry)
  | failed hentry => exact nomatch Except.ok.inj ((hnone _).symm.trans hentry)
  | retry hentry => exact nomatch Except.ok.inj ((hnone _).symm.trans hentry)

end Entries

/-! ## Forwarding -/

/-- Backend `hg` has its connection, on server `ms`. -/
structure Serves (st : St) (hg : Nat) (mybe : MysqlBackend) (m : Nat) (ms : MysqlServer) : Prop where
  backend : st.sess.mybes[hg]? = some mybe
  entry : mybe.mshge = some m
  connected : mybe.serverMycpe.isSome
  server : st.sh.msPtr m = .ok ms

theorem markNotReusable_returns {st : St} (h : st.sess.mybes[hg]? = some mybe) :
    Returns (markNotReusable hg) (fun _ t => t.sess = st.sess ∧ ServersKept st.sh t.sh) st := by
  unfold markNotReusable
  rw [returns_bind, returns_getMybe h]
  split
  · exact (returns_pure _ _ _).2 ⟨rfl, .refl _⟩
  · rw [returns_bind, returns_get]
    split
    · rw [returns_modifyShared]
      exact ⟨rfl, rfl, rfl, rfl, rfl, rfl, rfl, fun _ => rfl⟩
    · exact (returns_pure _ _ _).2 ⟨rfl, .refl _⟩

section Serves

variable {st : St} {hg m : Nat} {mybe : MysqlBackend} {ms : MysqlServer}

theorem Serves.of_kept {t : St} (h : Serves st hg mybe m ms) (hsess : t.sess = st.sess)
    (hkept : ServersKept st.sh t.sh) : Serves t hg mybe m ms :=
  ⟨by rw [hsess]; exact h.backend, h.entry, h.connected, (hkept.msPtr_eq m).trans h.server⟩

theorem returns_serverOf (h : Serves st hg mybe m ms) (Q : MysqlServer → St → Prop) :
    Returns (serverOf mybe) Q st ↔ Q ms st := by
  unfold serverOf
  rw [h.entry, returns_bind, deref, returns_lift_ok, returns_bind, returns_get, h.server, returns_lift_ok]

theorem forwardOn_serves (h : Serves st hg mybe m ms) (p : Pkt) (env : PktEnv) :
    ∃ t, t.sess = st.sess ∧ ServersKept st.sh t.sh ∧ ∀ Q : Flow → St → Prop,
      Returns (forwardOn hg p env) Q st ↔
        if ms.status = .offlineHard then Q .quit t
        else Returns (do replaceOfflineSoft hg env; sendToBackend hg p env.response) Q t := by
  obtain ⟨_, t, hmark, hsess, hkept⟩ := (markNotReusable_returns h.backend).exists_ends
  refine ⟨t, hsess, hkept, fun Q => ?_⟩
  have ht := h.of_kept hsess hkept
  have hptr : (t.sh.mshges m).msPtr ≠ none := by
    obtain ⟨i, hi, -⟩ := except_bind_eq_ok.1 ht.server
    rw [deref_eq_ok.1 hi]
    exact nofun
  unfold forwardOn
  rw [returns_bind, Returns.iff_of_ends hmark, returns_bind, returns_getMybe ht.backend, returns_bind,
    returns_get]
  rw [h.entry]
  dsimp only
  rw [if_neg hptr, if_neg (ne_none_iff_isSome.2 h.connected), returns_bind, ht.server, returns_lift_ok,
    returns_ite, returns_pure]

theorem returns_replaceOfflineSoft (h : Serves st hg mybe m ms)
    (hstatus : ms.status = .offlineSoft → ∃ myds, mybe.serverMyds = some myds ∧
      myds.activeTransaction = true)
    (env : PktEnv) (Q : Unit → St → Prop) : Returns (replaceOfflineSoft hg env) Q st ↔ Q () st := by
  unfold replaceOfflineSoft
  rw [returns_bind, returns_getMybe h.backend, returns_bind, returns_serverOf h]
  by_cases hsoft : ms.status = .offlineSoft
  · obtain ⟨myds, hmyds, htrans⟩ := hstatus hsoft
    rw [if_pos hsoft, hmyds, deref, returns_bind, returns_lift_ok, htrans,
      if_neg (Bool.noConfusion : ¬ true = false), returns_pure]
  · rw [if_neg hsoft, returns_pure]

theorem sendToBackend_stops (h : Serves st hg mybe m ms) (hstatus : ms.status ≠ .online) (p : Pkt)
    (n : Nat) : Stops (sendToBackend hg p n) st := by
  refine Stops.of_not_returns ?_
  unfold sendToBackend
  rw [returns_bind, returns_getMybe h.backend, returns_bind, returns_serverOf h, if_neg hstatus]
  exact returns_throw _ _ _

/-- If statistics are kept, those of the session's query are not those of a query that is over. -/
def StatsUsable (st : St) : Prop :=
  st.sh.glovars.mysqlQueryStatistics = true → st.sess.queryInfo.queryStats ≠ .dangling

/-- Packet `p` was queued for the server of hostgroup `hg`. -/
structure Forwarded (st t : St) (hg : Nat) (p : Pkt) : Prop where
  trace : t.sess.trace = st.sess.trace ++ [.forwarded hg]
  queued : ∃ mybe myds, t.sess.mybes[hg]? = some mybe ∧ mybe.serverMyds = some myds ∧ p ∈ myds.output.pkts

/-- Only the data about the query and the counters of bytes may have changed. -/
structure SameBackends (st t : St) : Prop where
  sh : t.sh = st.sh
  sess : ∃ info sent recv, t.sess =
    { st.sess with queryInfo := info, bytesSentAtCmd := sent, bytesRecvAtCmd := recv }
  stats : StatsUsable t

theorem setStatsServer_sameBackends {st : St} (h : StatsUsable st) (hg : Nat) (ms : MysqlServer) :
    Returns (setStatsServer hg ms) (fun _ t => SameBackends st t) st := by
  unfold setStatsServer
  rw [returns_bind, returns_get]
  split
  · next hon =>
    split
    · exact (returns_pure _ _ _).2 ⟨rfl, ⟨_, _, _, rfl⟩, h⟩
    · next hdangling => exact absurd hdangling (h hon)
    · exact (returns_modifySess _ _ _).2 ⟨rfl, ⟨_, _, _, rfl⟩, fun _ => nofun⟩
  · exact (returns_pure _ _ _).2 ⟨rfl, ⟨_, _, _, rfl⟩, h⟩

theorem syncServerBytesAtCmd_sameBackends {st : St} (h : StatsUsable st) :
    Returns syncServerBytesAtCmd (fun _ t => SameBackends st t) st := by
  unfold syncServerBytesAtCmd
  rw [returns_modifySess]
  split
  · exact ⟨rfl, ⟨_, _, _, rfl⟩, h⟩
  · exact ⟨rfl, ⟨_, _, _, rfl⟩, h⟩

theorem mySessAddPktOutServer_returns {st : St} {hg : Nat} {mybe : MysqlBackend}
    (hmybe : st.sess.mybes[hg]? = some mybe) (hmyds : mybe.serverMyds = some myds) (p : Pkt) (n : Nat) :
    Returns (mySessAddPktOutServer hg p n) (fun _ t => ServersKept st.sh t.sh ∧ t.sess =
      { st.sess with mybes := st.sess.mybes.set hg { mybe with serverMyds := some (myds.addOut [p]) } })
        st := by
  unfold mySessAddPktOutServer
  rw [returns_bind, returns_getMybe hmybe, hmyds, deref, returns_bind, returns_lift_ok, returns_bind,
    returns_setMybe]
  split
  · exact (returns_pure _ _ _).2 ⟨.refl _, rfl⟩
  · rw [returns_bind, returns_get, returns_modifyShared]
    exact ⟨⟨rfl, rfl, rfl, rfl, rfl, rfl, fun _ => rfl⟩, rfl⟩

/-- `t` is `st` after packet `p` was queued behind the others on the stream of backend `hg`, which is as it
    was. -/
structure Queued (st t : St) (hg : Nat) (p : Pkt) (mybe : MysqlBackend) (myds : MysqlDataStream) :
    Prop where
  kept : ServersKept st.sh t.sh
  sess : ∃ info sent recv, t.sess = { st.sess with
    serverMybe := some hg, queryInfo := info, bytesSentAtCmd := sent, bytesRecvAtCmd := recv,
    mybes := st.sess.mybes.set hg { mybe with serverMyds := some (myds.addOut [p]) },
    trace := st.sess.trace ++ [.forwarded hg] }
  stats : StatsUsable t

theorem Queued.forwarded {t : St} {p : Pkt} (h : Queued st t hg p mybe myds)
    (hlt : hg < st.sess.mybes.length) : Forwarded st t hg p := by
  obtain ⟨info, sent, recv, hsess⟩ := h.sess
  refine ⟨by rw [hsess], { mybe with serverMyds := some (myds.addOut [p]) }, _, ?_, rfl,
    mem_append_right _ (mem_singleton.2 rfl)⟩
  rw [hsess]
  exact getElem?_set_self hlt

theorem sendToBackend_online (h : Serves st hg mybe m ms) (hstatus : ms.status = .online)
    (hmyds : mybe.serverMyds = some myds) (hstats : StatsUsable st) (p : Pkt) (n : Nat) :
    Returns (sendToBackend hg p n) (fun flow t => flow = .next ∧ Queued st t hg p mybe myds) st := by
  unfold sendToBackend
  rw [returns_bind, returns_getMybe h.backend, returns_bind, returns_serverOf h, if_pos hstatus,
    returns_bind, returns_modifySess]
  have hstats : StatsUsable { st with sess := { st.sess with serverMybe := some hg } } := hstats
  refine (setStatsServer_sameBackends hstats hg ms).bind fun _ t ht => ?_
  refine (syncServerBytesAtCmd_sameBackends ht.stats).bind fun _ u hu => ?_
  obtain ⟨_, _, _, htsess⟩ := ht.sess
  obtain ⟨info, sent, recv, husess⟩ := hu.sess
  rw [htsess] at husess
  have hsh : u.sh = st.sh := hu.sh.trans ht.sh
  have hmybe : u.sess.mybes[hg]? = some mybe := by
    rw [husess]
    exact h.backend
  refine (mySessAddPktOutServer_returns hmybe hmyds p n).bind fun _ v hv => ?_
  obtain ⟨hkept, hvsess⟩ := hv
  rw [returns_bind, record, returns_modifySess, returns_pure]
  refine ⟨rfl, hsh ▸ hkept, ⟨info, sent, recv, ?_⟩, ?_⟩
  · show ({ v.sess with trace := _ } : Session) = _
    rw [hvsess, husess]
  · show StatsUsable { v with sess := { v.sess with trace := _ } }
    unfold StatsUsable
    dsimp only
    rw [hkept.glovars, hvsess]
    exact hu.stats

theorem sendToBackend_dangling (h : Serves st hg mybe m ms) (hstats : ¬ StatsUsable st) (p : Pkt)
    (n : Nat) : Stops (sendToBackend hg p n) st := by
  obtain ⟨hon, hdangling⟩ := Classical.not_imp.1 hstats
  rw [not_not] at hdangling
  refine Stops.of_not_returns ?_
  unfold sendToBackend
  rw [returns_bind, returns_getMybe h.backend, returns_bind, returns_serverOf h, returns_ite, returns_bind,
    returns_modifySess, returns_bind, setStatsServer, returns_bind, returns_get]
  rw [if_pos hon, hdangling]
  split
  · exact returns_throw _ _ _
  · exact returns_throw _ _ _

/-- A server that is SHUNNED, one that is OFFLINE_SOFT while the backend is in a transaction, and statistics
    that were freed. -/
theorem forwardOn_stops (h : Serves st hg mybe m ms) (hhard : ms.status ≠ .offlineHard)
    (hsoft : ms.status = .offlineSoft → ∃ myds, mybe.serverMyds = some myds ∧ myds.activeTransaction = true)
    (hbad : ms.status ≠ .online ∨ ¬ StatsUsable st) (p : Pkt) (env : PktEnv) :
    Stops (forwardOn hg p env) st := by
  refine Stops.of_not_returns ?_
  obtain ⟨t, hsess, hkept, hforward⟩ := forwardOn_serves h p env
  have ht := h.of_kept hsess hkept
  rw [hforward, if_neg hhard, returns_bind, returns_replaceOfflineSoft ht hsoft]
  refine Stops.not_returns ?_
  rcases hbad with hoffline | hstats
  · exact sendToBackend_stops ht hoffline p _
  · refine sendToBackend_dangling ht ?_ p _
    unfold StatsUsable at hstats ⊢
    rw [hsess, hkept.glovars]
    exact hstats

end Serves

/-! ## Looking for a server -/

section Seeking

variable {st : St} {hg : Nat} {mybe : MysqlBackend}

theorem bereset_returned {fc : Bool} {now : Nat → Nat} (hlt : hg < st.sess.mybes.length) :
    wp (bereset hg fc now) (fun r t => r = .ok () → t.sess.mybes[hg]? = some mysqlBackendNew ∧
      ServersKept st.sh t.sh) st := by
  refine bereset_wp (fun _ h => nomatch h) fun mybe sh' mybe' _ hreset _ => ⟨?_, ?_⟩
  · rw [← backendReset_eq hreset]
    exact getElem?_set_self hlt
  · exact (backendReset_gaveBack hreset).servers

theorem createBackend_returned {Q : MysqlBackend → Shared → Prop}
    (hmybe : st.sess.mybes[hg]? = some mybe)
    (hcreates : ∀ sh' mybe' rc, Creates st.sess.credentials cenv fill hg 10 st.sh mybe sh' mybe' rc →
      rc ≠ .failed ∧ Q mybe' sh') :
    wp (mysqlSessionCreateBackendForHostgroup hg cenv fill send)
      (fun r t => r = .ok () → ∃ mybe', t.sess.mybes[hg]? = some mybe' ∧ Q mybe' t.sh) st := by
  have hlt : hg < st.sess.mybes.length := (List.getElem?_eq_some_iff.1 hmybe).1
  unfold mysqlSessionCreateBackendForHostgroup
  rw [wp_bind]
  refine connectBackend_creates_wp (fun _ h => nomatch h) fun mybe₁ sh' mybe' rc hmybe₁ h => ?_
  obtain rfl : mybe = mybe₁ := some.inj (hmybe.symm.trans hmybe₁)
  obtain ⟨hrc, hQ⟩ := hcreates sh' mybe' rc h
  dsimp only
  rw [wp_when, if_neg hrc]
  exact fun _ => ⟨mybe', getElem?_set_self hlt, hQ⟩

/-- A backend without a connection gets one to a server that is SHUNNED by then. -/
theorem createBackend_disturbed (hmybe : st.sess.mybes[hg]? = some mybe) (hok : st.sh.InOrder)
    (hentry : chooseEntry st.sh mybe.mshge hg 0 = .ok (some m)) (hlt : m < st.sh.nextMshge)
    (hnone : mybe.serverMycpe = none) (hms : st.sh.msPtr m = .ok ms) :
    wp (mysqlSessionCreateBackendForHostgroup hg (.disturbed ms) fill send)
      (fun r t => r = .ok () → ∃ mybe', Serves t hg mybe' m { ms with status := .shunned }) st := by
  have hserves : ∀ sh' mybe' rc, Creates st.sess.credentials (.disturbed ms) fill hg 10 st.sh mybe sh'
      mybe' rc → rc ≠ .failed ∧ mybe'.mshge = some m ∧ mybe'.serverMycpe.isSome ∧
        sh'.msPtr m = .ok { ms with status := .shunned } := by
    intro sh' mybe' rc h
    obtain ⟨rfl, hm, hsome, hshunned⟩ := h.disturbed hok hentry hlt hnone hms
    exact ⟨fun h => (nomatch h), hm, hsome, hshunned⟩
  refine wp_of (createBackend_returned (Q := fun mybe' sh' => mybe'.mshge = some m ∧
    mybe'.serverMycpe.isSome ∧ sh'.msPtr m = .ok { ms with status := .shunned }) hmybe hserves) ?_
  intro r t ht hr
  obtain ⟨mybe', hmybe', hm, hsome, hserver⟩ := ht hr
  exact ⟨mybe', hmybe', hm, hsome, hserver⟩

theorem createBackend_empty
    (hmybe : st.sess.mybes[hg]? = some mybe) (hok : st.sh.EntriesOk)
    (hhg : hg < st.sh.glovars.mysqlHostgroups) (hempty : st.sh.entries hg = [])
    (hmshge : mybe.mshge = none) : wp (mysqlSessionCreateBackendForHostgroup hg cenv fill send)
      (fun r t => r = .ok () → ∃ mybe', t.sess.mybes[hg]? = some mybe' ∧ mybe'.mshge = none) st := by
  refine createBackend_returned (Q := fun mybe' _ => mybe'.mshge = none) hmybe fun sh' mybe' rc h => ?_
  obtain ⟨rfl, hnone⟩ := h.empty hok hhg hempty hmshge
  exact ⟨fun h => (nomatch h), hnone⟩

/-- What follows the search for a backend that replaces an old one. -/
def checkReplaced (hg : Nat) : SessM Unit := do
  let mybe ← getMybe hg
  let m ← deref mybe.mshge
  if ((← get).sh.mshges m).msPtr = none then throw .assertion else pure ()

/-- Without a transaction, a backend on an OFFLINE_SOFT server is reset before a new one is sought. -/
theorem forwardOn_soft_replaces (h : Serves st hg mybe m ms)
    (hstatus : ms.status = .offlineSoft) (hmyds : mybe.serverMyds = some myds)
    (htrans : myds.activeTransaction = false) {p : Pkt} {env : PktEnv}
    (hreturns : Returns (forwardOn hg p env) (fun _ _ => True) st) :
    ∃ t, t.sess.mybes[hg]? = some mysqlBackendNew ∧ ServersKept st.sh t.sh ∧
      Returns (mysqlSessionCreateBackendForHostgroup hg env.connect2 env.fill env.send2)
        (fun _ u => Returns (checkReplaced hg) (fun _ v => Returns (sendToBackend hg p env.response)
          (fun _ _ => True) v) u) t := by
  obtain ⟨t, hsess, hkept, hforward⟩ := forwardOn_serves h p env
  have ht := h.of_kept hsess hkept
  have hhard : ms.status ≠ .offlineHard := by
    rw [hstatus]
    exact nofun
  rw [hforward, if_neg hhard, replaceOfflineSoft, returns_bind, returns_bind, returns_getMybe ht.backend,
    returns_bind, returns_serverOf ht, if_pos hstatus, hmyds, deref, returns_bind, returns_lift_ok,
    if_pos htrans, returns_bind] at hreturns
  have hlt : hg < t.sess.mybes.length := (List.getElem?_eq_some_iff.1 ht.backend).1
  obtain ⟨_, u, -, hrun, hu⟩ := (hreturns.and_wp (bereset_returned hlt)).exists_ends
  obtain ⟨hnew, hkept'⟩ := hu rfl
  rw [returns_bind] at hrun
  exact ⟨u, hnew, hkept.trans hkept', hrun⟩

/-- A server that is OFFLINE_SOFT is not replaced for certain: the hostgroup may be empty, and the
    replacement may be taken out of use as well. -/
theorem forwardOn_soft_stops (h : Serves st hg mybe m ms)
    (hstatus : ms.status = .offlineSoft) (hmyds : mybe.serverMyds = some myds)
    (htrans : myds.activeTransaction = false) (hok : st.sh.InOrder)
    (hhg : hg < st.sh.glovars.mysqlHostgroups) :
    ∃ cenv, ∀ p env, env.connect2 = cenv → Stops (forwardOn hg p env) st := by
  cases hentries : st.sh.entries hg with
  | nil =>
    refine ⟨{ rand := fun _ => 0, connect := fun _ => none, flush := fun _ => none }, fun p env _ => ?_⟩
    refine Stops.of_not_returns fun hreturns => ?_
    obtain ⟨t, hnew, hkept, hrun⟩ := forwardOn_soft_replaces h hstatus hmyds htrans hreturns
    have hempty : t.sh.entries hg = [] := (hkept.entries hg).trans hentries
    have hhg' : hg < t.sh.glovars.mysqlHostgroups := by
      rw [hkept.glovars]
      exact hhg
    obtain ⟨_, u, -, hcheck, hu⟩ := (hrun.and_wp
      (createBackend_empty hnew (hok.entries.of_kept hkept) hhg' hempty rfl)).exists_ends
    obtain ⟨mybe', hmybe', hnone⟩ := hu rfl
    rw [checkReplaced, returns_bind, returns_getMybe hmybe', hnone, returns_bind] at hcheck
    exact returns_throw _ _ _ hcheck
  | cons m' rest =>
    have hmem : m' ∈ st.sh.entries hg := by
      rw [hentries]
      exact mem_cons_self
    have hlt := hok.entries.entries hmem
    obtain ⟨ms', hms', -⟩ := hok.entries.msPtr hlt
    refine ⟨.disturbed ms', fun p env henv => Stops.of_not_returns fun hreturns => ?_⟩
    obtain ⟨t, hnew, hkept, hrun⟩ := forwardOn_soft_replaces h hstatus hmyds htrans hreturns
    have hgrows := Grows.of_kept hkept
    have hentry : chooseEntry t.sh mysqlBackendNew.mshge hg 0 = .ok (some m') :=
      chooseEntry_first (by rw [hkept.glovars]; exact hhg) ((hkept.entries hg).trans hentries)
    rw [henv] at hrun
    obtain ⟨_, u, -, hcheck, hu⟩ := (hrun.and_wp (createBackend_disturbed hnew (hgrows.inOrder hok) hentry
      (Nat.lt_of_lt_of_le hlt hgrows.next) rfl ((hkept.msPtr_eq m').trans hms'))).exists_ends
    obtain ⟨mybe', hserves⟩ := hu rfl
    have hptr : (u.sh.mshges m').msPtr ≠ none := by
      obtain ⟨i, hi, -⟩ := except_bind_eq_ok.1 hserves.server
      rw [deref_eq_ok.1 hi]
      exact some_ne_none i
    rw [checkReplaced, returns_bind, returns_getMybe hserves.backend, hserves.entry, returns_bind, deref,
      returns_lift_ok, returns_bind, returns_get, if_neg hptr, returns_pure] at hcheck
    have hnot : MysqlServerStatus.shunned ≠ .online := by decide
    exact (sendToBackend_stops hserves hnot p _).not_returns hcheck

/-- A backend without a connection does not find an ONLINE server for certain. -/
theorem forwardTo_seeking_stops (hmybe : st.sess.mybes[hg]? = some mybe) (hok : st.sh.InOrder)
    (hnone : mybe.serverMycpe = none) (hentry : chooseEntry st.sh mybe.mshge hg 0 = .ok (some m))
    (hlt : m < st.sh.nextMshge) : ∃ cenv, ∀ p env, env.connect1 = cenv → Stops (forwardTo hg p env) st := by
  obtain ⟨ms, hms, -⟩ := hok.entries.msPtr hlt
  have hinactive : activeBackend st.sh mybe = false := by
    unfold activeBackend
    split
    · rfl
    · rw [hnone]
      exact Bool.and_false _
  refine ⟨.disturbed ms, fun p env henv => ?_⟩
  refine Stops.bind ?_
  unfold ensureBackend
  rw [wp_bind, wp_getMybe, hmybe]
  dsimp only
  rw [wp_get_bind, hinactive, henv]
  refine wp_of (createBackend_disturbed hmybe hok hentry hlt hnone hms) fun r t ht _ hr => ?_
  obtain ⟨mybe', hserves⟩ := ht hr
  exact forwardOn_stops hserves (nofun) (nofun) (.inl nofun) p env

end Seeking

/-! ## The result -/

/-- The packet was forwarded, or it is the next one again, or the session is to be closed. -/
def Disposed (st : St) (hg : Nat) (p : Pkt) (flow : Flow) (t : St) : Prop :=
  match flow with
  | .next => Forwarded st t hg p
  | .ret0 => t.sess.clientMyds.input.pkts = p :: st.sess.clientMyds.input.pkts
  | .quit => True

/-- The backend of the hostgroup has its connection, on a server that is OFFLINE_HARD or, with statistics
    that can be written, ONLINE; or it has no entry, and the hostgroup is empty. -/
def Settled (st : St) (hg : Nat) : Prop :=
  ∃ mybe, st.sess.mybes[hg]? = some mybe ∧
    ((mybe.mshge = none ∧ st.sh.entries hg = []) ∨
      ∃ m ms, Serves st hg mybe m ms ∧ (ms.status = .offlineHard ∨ ms.status = .online ∧ StatsUsable st))

section Settled

variable {st : St} {hg : Nat} {mybe : MysqlBackend}

theorem Serves.active (h : Serves st hg mybe m ms) : activeBackend st.sh mybe = true := by
  obtain ⟨i, hi, -⟩ := except_bind_eq_ok.1 h.server
  unfold activeBackend
  rw [h.entry]
  dsimp only
  rw [deref_eq_ok.1 hi, h.connected]
  rfl

theorem Serves.returns_forwardTo (h : Serves st hg mybe m ms) (p : Pkt) (env : PktEnv)
    (Q : Flow → St → Prop) : Returns (forwardTo hg p env) Q st ↔ Returns (forwardOn hg p env) Q st := by
  rw [forwardTo, returns_bind, ensureBackend, returns_bind, returns_getMybe h.backend, returns_bind,
    returns_get, h.active, if_pos rfl, returns_pure]

theorem Serves.queues (h : Serves st hg mybe m ms)
    (hmyds : mybe.serverMyds = some myds) (hstatus : ms.status = .online)
    (hstats : StatsUsable st) (p : Pkt) (env : PktEnv) :
    Returns (forwardTo hg p env) (fun flow t => flow = .next ∧ Queued st t hg p mybe myds) st := by
  obtain ⟨t, hsess, hkept, hforward⟩ := forwardOn_serves h p env
  have ht := h.of_kept hsess hkept
  have hstats' : StatsUsable t := by
    unfold StatsUsable
    rw [hsess, hkept.glovars]
    exact hstats
  have hhard : ¬ ms.status = .offlineHard := by
    rw [hstatus]
    exact nofun
  have hsoft : ms.status = .offlineSoft →
      ∃ myds, mybe.serverMyds = some myds ∧ myds.activeTransaction = true := by
    rw [hstatus]
    exact nofun
  rw [h.returns_forwardTo, hforward, if_neg hhard, returns_bind, returns_replaceOfflineSoft ht hsoft]
  refine (sendToBackend_online ht hstatus hmyds hstats' p _).mono ?_
  rintro flow u ⟨hflow, hu⟩
  refine ⟨hflow, hkept.trans hu.kept, ?_, hu.stats⟩
  rw [← hsess]
  exact hu.sess

theorem Serves.disposes (h : Serves st hg mybe m ms) (hmyds : mybe.serverMyds.isSome)
    (hstatus : ms.status = .offlineHard ∨ ms.status = .online ∧ StatsUsable st) (p : Pkt) (env : PktEnv) :
    Returns (forwardTo hg p env) (Disposed st hg p) st := by
  rcases hstatus with hhard | ⟨honline, hstats⟩
  · obtain ⟨t, -, -, hforward⟩ := forwardOn_serves h p env
    rw [h.returns_forwardTo, hforward, if_pos hhard]
    trivial
  · obtain ⟨myds, hmyds⟩ := isSome_iff_exists.1 hmyds
    refine (h.queues hmyds honline hstats p env).mono ?_
    rintro flow u ⟨rfl, hu⟩
    exact hu.forwarded (List.getElem?_eq_some_iff.1 h.backend).1

theorem disposes_empty (hmybe : st.sess.mybes[hg]? = some mybe) (hok : st.sh.EntriesOk)
    (hhg : hg < st.sh.glovars.mysqlHostgroups) (hnone : mybe.mshge = none) (hempty : st.sh.entries hg = [])
    (p : Pkt) (env : PktEnv) : Returns (forwardTo hg p env) (Disposed st hg p) st := by
  have hlt : hg < st.sess.mybes.length := (List.getElem?_eq_some_iff.1 hmybe).1
  have hinactive : activeBackend st.sh mybe = false := by
    unfold activeBackend
    rw [hnone]
  have hcreate : ∀ cred, createBackendFrom cred env.connect1 env.fill hg 10 st.sh mybe
      = .ok (st.sh, { mybe with mshge := none }, .noServer) := by
    intro cred
    rw [createBackendFrom, hnone, chooseEntry_empty hok hhg hempty]
    rfl
  rw [forwardTo, returns_bind, ensureBackend, returns_bind, returns_getMybe hmybe, returns_bind,
    returns_get, hinactive, if_neg Bool.false_ne_true, mysqlSessionCreateBackendForHostgroup, returns_bind,
    connectBackend,
    returns_bind, returns_get, if_pos hhg, returns_bind, returns_getMybe hmybe, hcreate, returns_bind,
    returns_lift_ok]
  have hrc : ¬ CreateResult.noServer = .failed := by decide
  rw [returns_bind, returns_modifyShared, returns_bind, returns_setMybe, returns_pure, returns_when,
    if_neg hrc]
  have hmybe' : (st.sess.mybes.set hg { mybe with mshge := none })[hg]? =
    some { mybe with mshge := none } :=
    getElem?_set_self hlt
  obtain ⟨_, u, hmark, hsess, -⟩ := (@markNotReusable_returns _ hg { st with sess := { st.sess with
    mybes := st.sess.mybes.set hg { mybe with mshge := none } } } hmybe').exists_ends
  have hmybe'' : u.sess.mybes[hg]? = some { mybe with mshge := none } := by
    rw [hsess]
    exact hmybe'
  unfold forwardOn
  rw [returns_bind, Returns.iff_of_ends hmark, returns_bind, returns_getMybe hmybe'', returns_bind,
    returns_get]
  rw [returns_bind, queueBackClientPkt, returns_modifySess, returns_pure]
  show p :: u.sess.clientMyds.input.pkts = _
  rw [hsess]

theorem settled_of_disposes (hmybe : st.sess.mybes[hg]? = some mybe) (hok : st.sh.InOrder)
    (hwired : mybe.Wired st.sh) (hhg : hg < st.sh.glovars.mysqlHostgroups)
    (hreturns : ∀ p env, Returns (forwardTo hg p env) (Disposed st hg p) st) : Settled st hg := by
  have hnot : ∀ p env, ¬ Stops (forwardTo hg p env) st :=
    fun p env hstops => hstops.not_returns (hreturns p env)
  have hseek : ∀ m, mybe.serverMycpe = none → chooseEntry st.sh mybe.mshge hg 0 = .ok (some m) →
      m < st.sh.nextMshge → False := by
    intro m hnone hentry hlt
    obtain ⟨cenv, hstops⟩ := forwardTo_seeking_stops hmybe hok hnone hentry hlt
    exact hnot (.ofBytes []) { PktEnv.quiet with connect1 := cenv } (hstops _ _ rfl)
  cases hmycpe : mybe.serverMycpe with
  | none =>
    cases hmshge : mybe.mshge with
    | none =>
      cases hentries : st.sh.entries hg with
      | nil => exact ⟨mybe, hmybe, .inl ⟨hmshge, hentries⟩⟩
      | cons m rest =>
        have hmem : m ∈ st.sh.entries hg := by
          rw [hentries]
          exact mem_cons_self
        refine (hseek m hmycpe ?_ (hok.entries.entries hmem)).elim
        rw [hmshge]
        exact chooseEntry_first hhg hentries
    | some m =>
      refine (hseek m hmycpe ?_ (hwired.entry m hmshge)).elim
      rw [hmshge]
      rfl
  | some c =>
    have hconnected : mybe.serverMycpe.isSome := by
      rw [hmycpe]
      rfl
    obtain ⟨hentry, hmyds⟩ := hwired.connected hconnected
    obtain ⟨m, hm⟩ := isSome_iff_exists.1 hentry
    obtain ⟨myds, hmyds⟩ := isSome_iff_exists.1 hmyds
    obtain ⟨ms, hms, -⟩ := hok.entries.msPtr (hwired.entry m hm)
    have hserves : Serves st hg mybe m ms := ⟨hmybe, hm, hconnected, hms⟩
    -- the statuses for which the forwarding part goes on
    have hon : ∀ env, ¬ Stops (forwardOn hg (.ofBytes []) env) st := by
      intro env hstops
      have hdisposed := hreturns (.ofBytes []) env
      rw [hserves.returns_forwardTo] at hdisposed
      exact hstops.not_returns hdisposed
    refine ⟨mybe, hmybe, .inr ⟨m, ms, hserves, ?_⟩⟩
    cases hstatus : ms.status with
    | offlineHard => exact .inl rfl
    | online =>
      refine .inr ⟨rfl, Classical.byContradiction fun hstats => hon PktEnv.quiet ?_⟩
      refine forwardOn_stops hserves ?_ ?_ (.inr hstats) _ _
      · rw [hstatus]
        exact nofun
      · rw [hstatus]
        exact nofun
    | shunned =>
      refine (hon PktEnv.quiet (forwardOn_stops hserves ?_ ?_ (.inl ?_) _ _)).elim
      · rw [hstatus]
        exact nofun
      · rw [hstatus]
        exact nofun
      · rw [hstatus]
        exact nofun
    | offlineSoft =>
      cases htrans : myds.activeTransaction with
      | true =>
        refine (hon PktEnv.quiet (forwardOn_stops hserves ?_ (fun _ => ⟨myds, hmyds, htrans⟩)
          (.inl ?_) _ _)).elim
        · rw [hstatus]
          exact nofun
        · rw [hstatus]
          exact nofun
      | false =>
        obtain ⟨cenv, hstops⟩ := forwardOn_soft_stops hserves hstatus hmyds htrans hok hhg
        exact (hon { PktEnv.quiet with connect2 := cenv } (hstops _ _ rfl)).elim

end Settled

/-- In every reachable state, forwarding a packet to a hostgroup ends, whatever connections can be opened
    and whatever the administrator does meanwhile, exactly if the hostgroup is settled: the packet is
    forwarded, queued back, or the session is closed.  An entry that was freed is read as if it had been
    kept. -/
theorem forwarding_ends_iff {g : Glovars} {md5 : List Byte → Str} {scramble : List Byte → Str → List Byte}
    {w : World} {es : List Event} (hrun : Run WorldStep (World.init g md5 scramble) es w) {i : Nat}
    {s : Session} (hs : w.sessions[i]? = some s) (hhealthy : s.healthy = true) {hg : Nat}
    (hhg : hg < w.sh.glovars.mysqlHostgroups) :
    (∀ p env, Returns (forwardTo hg p env) (Disposed { sh := w.sh, sess := s } hg p)
      { sh := w.sh, sess := s }) ↔ Settled { sh := w.sh, sess := s } hg := by
  have hw : w.Wired g.mysqlHostgroups :=
    hrun.invariant (P := World.Wired g.mysqlHostgroups) (fun _ _ _ hstep hw => hw.step hstep)
      (.init g md5 scramble)
  have hmem := mem_of_getElem? hs
  have hlt : hg < s.mybes.length := by
    rw [hw.length s hmem hhealthy, ← hw.hostgroups]
    exact hhg
  have hmybe : s.mybes[hg]? = some s.mybes[hg] := getElem?_eq_getElem hlt
  have hwired := hw.backends s hmem _ (getElem_mem hlt)
  constructor
  · exact @settled_of_disposes { sh := w.sh, sess := s } hg _ hmybe hw.inOrder hwired hhg
  · rintro ⟨mybe, hget, hsettled⟩ p env
    obtain rfl : s.mybes[hg] = mybe := some.inj (hmybe.symm.trans hget)
    rcases hsettled with ⟨hnone, hempty⟩ | ⟨m, ms, hserves, hstatus⟩
    · exact disposes_empty hget hw.inOrder.entries hhg hnone hempty p env
    · exact hserves.disposes (hwired.connected hserves.connected).2 hstatus p env

/-- The server of hostgroup 0 after an answered query. -/
def answeredOnce : List Event :=
  (.flushHostgroups [dbRow] :: loginSteps 0 : List Event) ++ querySteps 0 0 "SELECT 1" ++ okSteps 0 2

/-- Whether the backend of hostgroup 0 of the first session has its connection, and the status of its
    server. -/
def World.firstServer (w : World) : Option (Bool × MysqlServerStatus) := do
  let s ← w.sessions[0]?
  let mybe ← s.mybes[0]?
  let m ← mybe.mshge
  let ms ← (w.sh.msPtr m).toOption
  return (s.healthy && mybe.serverMycpe.isSome && !w.sh.glovars.mysqlQueryStatistics, ms.status)

theorem World.firstServer_online {w : World} (h : w.firstServer = some (true, .online)) :
    ∃ s, w.sessions[0]? = some s ∧ s.healthy = true ∧ Settled { sh := w.sh, sess := s } 0 := by
  obtain ⟨s, hs, h⟩ := bind_eq_some_iff.1 h
  obtain ⟨mybe, hmybe, h⟩ := bind_eq_some_iff.1 h
  obtain ⟨m, hm, h⟩ := bind_eq_some_iff.1 h
  obtain ⟨ms, hms, h⟩ := bind_eq_some_iff.1 h
  obtain ⟨hflags, hstatus⟩ := Prod.mk.inj (some.inj h)
  rw [Bool.and_eq_true, Bool.and_eq_true] at hflags
  obtain ⟨⟨hhealthy, hconnected⟩, hstats⟩ := hflags
  have hserver : w.sh.msPtr m = .ok ms := except_toOption_eq_some.1 hms
  refine ⟨s, hs, hhealthy, mybe, hmybe,
    .inr ⟨m, ms, ⟨hmybe, hm, hconnected, hserver⟩, .inr ⟨hstatus, fun hon => ?_⟩⟩⟩
  rw [show w.sh.glovars.mysqlQueryStatistics = true from hon] at hstats
  cases hstats

set_option maxRecDepth 4000 in
/-- A session whose last query was answered by an ONLINE server can send the next one. -/
theorem forwarding_ends_after_answer :
    ∃ es w s, Run WorldStep oneServer es w ∧ w.sessions[0]? = some s ∧ s.healthy = true ∧
      Settled { sh := w.sh, sess := s } 0 ∧
      ∀ p env, Returns (forwardTo 0 p env) (Disposed { sh := w.sh, sess := s } 0 p)
        { sh := w.sh, sess := s } := by
  obtain ⟨w, hrun, hfirst, hhg⟩ := Run.exists_exec World.step oneServer answeredOnce
    (P := fun w => w.firstServer = some (true, .online) ∧ 0 < w.sh.glovars.mysqlHostgroups)
    World.worldStep_of_step (by decide +kernel)
  obtain ⟨s, hs, hhealthy, hsettled⟩ := World.firstServer_online hfirst
  exact ⟨_, w, s, hrun, hs, hhealthy, hsettled, (forwarding_ends_iff hrun hs hhealthy hhg).2 hsettled⟩

set_option maxRecDepth 4000 in
/-- The server is SHUNNED between two queries, and the last assertion fails. -/
theorem forwarding_stops_shunned :
    ∃ es w s, Run WorldStep oneServer es w ∧ w.sessions[0]? = some s ∧ s.healthy = true ∧
      (outcome (forwardTo 0 (.ofBytes (queryPkt "SELECT 2")) .quiet) { sh := w.sh, sess := s }).1 =
      .error .assertion := by
  obtain ⟨w, s, h⟩ := World.exists_run oneServer
    (answeredOnce ++ [.flushHostgroups [{ dbRow with status := .shunned }]] ++
      readSteps 0 (queryPkt "SELECT 2") ++ [.session 0 (.dispatch .quiet)]) 0
    (fun w s => s.healthy = true ∧ (outcome (forwardTo 0 (.ofBytes (queryPkt "SELECT 2")) .quiet)
      { sh := w.sh, sess := s }).1 = .error .assertion) (by decide +kernel)
  exact ⟨_, w, s, h⟩

end ProxySQL
