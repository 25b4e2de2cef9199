/-
  ProxySQL.Session.BackendSpec

  What resetting and detaching a backend do: to the backend, to the pools, and to
  the connection it had.
-/
import ProxySQL.Session.PoolSpec

namespace ProxySQL

open Lib

/-- The connection of a backend, if it has one. -/
def MysqlBackend.held (mybe : MysqlBackend) : List Nat := mybe.serverMycpe.toList

/-! ## What happens to the connection -/

/-- The connection of `mybe` is with `mybe'` now, or it was given back (with `fc` for
    `force_close`). -/
structure GaveBack (sh sh' : Shared) (mybe mybe' : MysqlBackend) (now : Nat → Nat) (fc : Bool) :
    Prop where
  servers : ServersKept sh sh'
  conns : ConnsKept sh sh'
  pooling : PoolingKept sh sh'
  nextConn : sh'.nextConn = sh.nextConn
  mshge : mybe'.serverMycpe.isSome → mybe'.mshge = mybe.mshge
  cases : (mybe'.serverMycpe = mybe.serverMycpe ∧ sh'.free = sh.free ∧ sh'.released = sh.released) ∨
    ∃ c, mybe.serverMycpe = some c ∧ mybe'.serverMycpe = none ∧
      ((sh'.free = sh.free ∧ sh'.released = sh.released) ∨
        (Poolable sh c (now c) fc ∧ sh'.free.Perm (c :: sh.free) ∧
          sh'.released = sh.released ++ [{ conn := c, activeTransaction := mybe.inTransaction }]))
  conserves : Conserves sh sh' mybe.held mybe'.held

variable {mybe mybe' : MysqlBackend} {c hg n : Nat} {now : Nat → Nat} {fc : Bool}
  {R : Shared → Shared → Prop} {env : ConnectEnv} {fill : Nat → Byte} {rc : CreateResult}

variable {sh sh' : Shared} {mybe1 : MysqlBackend}

theorem GaveBack.refl (now : Nat → Nat) (fc : Bool) (h : mybe'.serverMycpe = mybe.serverMycpe)
    (hm : mybe'.mshge = mybe.mshge) :
    GaveBack sh sh mybe mybe' now fc :=
  ⟨.refl _, .refl _, ⟨rfl, fun _ => rfl, fun _ => rfl⟩, rfl, fun _ => hm, .inl ⟨h, rfl, rfl⟩, by
    rw [MysqlBackend.held, MysqlBackend.held, h]
    exact .refl _ _⟩

theorem Detached.gaveBack (h : Detached sh sh' c (now c) fc mybe.inTransaction)
    (hc : mybe.serverMycpe = some c) (hnone : mybe'.serverMycpe = none) :
    GaveBack sh sh' mybe mybe' now fc :=
  ⟨h.servers, h.conns, h.pooling, h.nextConn, fun hsome => by simp [hnone] at hsome,
    Or.inr ⟨c, hc, hnone, h.cases⟩, by
    rw [MysqlBackend.held, MysqlBackend.held, hc, hnone]
    exact h.conserves⟩

theorem backendDetach_gaveBack (h : backendDetach sh mybe fc now = .ok (sh', mybe')) :
    GaveBack sh sh' mybe mybe' now fc := by
  unfold backendDetach at h
  dsimp only at h
  split at h
  · next hnone =>
    cases h
    exact GaveBack.refl now fc rfl rfl
  · next c hc =>
    split at h
    · simp only [hc] at h
      obtain ⟨sh1, hd, h⟩ := except_bind_eq_ok.1 h
      obtain ⟨rfl, rfl⟩ := Prod.mk.inj (Except.ok.inj h)
      have hdet : Detached sh sh1 c (now c) fc mybe.inTransaction :=
        mysqlConnpoolDetachConnection_detached hd
      exact hdet.gaveBack hc rfl
    · cases h
      exact GaveBack.refl now fc rfl rfl

theorem dropActive_servers (sh : Shared) (mshge : Option Nat) :
    ServersKept sh (dropActive sh mshge) := by
  unfold dropActive
  split
  · exact .refl _
  · split
    · exact .refl _
    · next m _ =>
      refine ⟨rfl, rfl, rfl, rfl, rfl, rfl, fun n => ?_⟩
      by_cases hn : n = m <;> simp [Shared.modifyMshge, hn]

theorem dropActive_eq (sh : Shared) (mshge : Option Nat) :
    dropActive sh mshge = { sh with mshges := (dropActive sh mshge).mshges } := by
  unfold dropActive
  split
  · rfl
  · split <;> rfl

/-- The flag that decides whether a reset closes the connection. -/
def MysqlBackend.closes (mybe : MysqlBackend) (forceClose : Bool) : Bool :=
  forceClose || mybe.mydsInactive

theorem backendReset_gaveBack (h : backendReset sh mybe fc now = .ok (sh', mybe')) :
    GaveBack sh sh' mybe mybe' now (mybe.closes fc) := by
  have hservers := dropActive_servers sh mybe.mshge
  have heq := dropActive_eq sh mybe.mshge
  unfold backendReset backendResetServerMycpe at h
  generalize dropActive sh mybe.mshge = sh1 at h hservers heq
  have hconns : ConnsKept sh sh1 := .of_eq (by rw [heq]) (by rw [heq])
  have hpooling : PoolingKept sh sh1 := by
    rw [heq]
    exact ⟨rfl, fun _ => rfl, fun _ => rfl⟩
  cases hc : mybe.serverMycpe with
  | none =>
    simp only [hc] at h
    cases h
    refine ⟨hservers, hconns, hpooling, by rw [heq], fun hsome => ?_,
      Or.inl ⟨hc.symm, by rw [heq]; rfl, by rw [heq]⟩, ?_⟩
    · cases hsome
    · rw [MysqlBackend.held, hc, heq]
      exact .of_eq _ rfl rfl rfl
  | some c =>
    simp only [hc] at h
    obtain ⟨sh2, hd, h⟩ := except_bind_eq_ok.1 h
    cases h
    have hdet := mysqlConnpoolDetachConnection_detached hd
    have hfree : sh1.free = sh.free := by rw [heq]; rfl
    have hreleased : sh1.released = sh.released := by rw [heq]
    refine ⟨hservers.trans hdet.servers, hconns.trans hdet.conns, hpooling.trans hdet.pooling, ?_,
      (nofun), .inr ⟨c, hc, rfl, ?_⟩, ?_⟩
    · rw [hdet.nextConn, heq]
    · have hcases := hdet.cases
      rw [hfree, hreleased] at hcases
      rcases hcases with hclosed | ⟨hpoolable, hpooled⟩
      · exact .inl hclosed
      · exact .inr ⟨hpoolable.of_kept hpooling, hpooled⟩
    · rw [MysqlBackend.held, hc]
      have hdrop : Conserves sh sh1 [c] [c] := .of_eq _ (by rw [heq]) (by rw [heq]) hfree
      exact hdrop.trans hdet.conserves

theorem backendReset_eq (h : backendReset sh mybe fc now = .ok (sh', mybe')) :
    mybe' = mysqlBackendNew := by
  unfold backendReset backendResetServerMycpe at h
  cases hc : mybe.serverMycpe with
  | none =>
    simp only [hc] at h
    cases h
    rfl
  | some c =>
    simp only [hc] at h
    obtain ⟨sh2, hd, h⟩ := except_bind_eq_ok.1 h
    cases h
    rfl

theorem backendDetach_eq (h : backendDetach sh mybe fc now = .ok (sh', mybe')) :
    mybe' = { mybe with lastMysqlConnpool := none, serverMycpe := mybe'.serverMycpe } := by
  unfold backendDetach at h
  dsimp only at h
  split at h
  · next hnone =>
    cases h
    rfl
  · next c hc =>
    split at h
    · simp only [hc] at h
      obtain ⟨sh1, hd, h⟩ := except_bind_eq_ok.1 h
      cases h
      rfl
    · cases h
      rfl

section Unpooled

variable {sh sh' : Shared}

theorem resetServerMycpe_unpooled {mybe mybe' : MysqlBackend} {fc inTrans : Bool} {now : Nat → Nat}
    (h : backendResetServerMycpe sh mybe fc now inTrans = .ok (sh', mybe')) :
    sh'.unpooled = sh.unpooled := by
  unfold backendResetServerMycpe at h
  split at h
  · obtain rfl := congrArg Prod.fst (Except.ok.inj h)
    rfl
  · obtain ⟨sh1, h1, h⟩ := except_bind_eq_ok.1 h
    obtain rfl := congrArg Prod.fst (Except.ok.inj h)
    exact detachConnection_unpooled h1

theorem backendDetach_unpooled {mybe mybe' : MysqlBackend} {fc : Bool} {now : Nat → Nat}
    (h : backendDetach sh mybe fc now = .ok (sh', mybe')) : sh'.unpooled = sh.unpooled := by
  unfold backendDetach at h
  dsimp only at h
  split at h
  · obtain rfl := congrArg Prod.fst (Except.ok.inj h)
    rfl
  · split at h
    · exact resetServerMycpe_unpooled h
    · obtain rfl := congrArg Prod.fst (Except.ok.inj h)
      rfl

end Unpooled

/-! ## FLUSH HOSTGROUPS -/

theorem SamePools.free (h : SamePools sh sh') : sh'.free = sh.free := by
  rw [Shared.free, Shared.free, h.thrMyconnpool, h.gloconnpool]

/-- A relation that the two parts of FLUSH HOSTGROUPS keep. -/
structure FlushRule (R : Shared → Shared → Prop) : Prop where
  refl : ∀ sh, R sh sh
  trans : ∀ {sh sh' sh''}, R sh sh' → R sh' sh'' → R sh sh''
  reset : ∀ sh i, R sh (resetHostgroup sh i)
  load : ∀ sh row, R sh (loadServer sh row)

theorem FlushRule.flush (h : FlushRule R) (sh : Shared) (rows : List ServerRow) :
    R sh (flushServersDbToMem sh rows) := by
  have hreset : R sh ((List.range sh.glovars.mysqlHostgroups).foldl resetHostgroup sh) :=
    List.foldlRecOn _ resetHostgroup (h.refl sh) fun sh1 hsh1 i _ => h.trans hsh1 (h.reset sh1 i)
  exact List.foldlRecOn rows loadServer hreset fun sh1 hsh1 row _ => h.trans hsh1 (h.load sh1 row)

theorem FlushRule.flushed (h : FlushRule R) (env : ConnectEnv) (attempt : Nat) (sh : Shared) :
    R sh (env.flushed attempt sh) := by
  unfold ConnectEnv.flushed
  split
  · exact h.refl sh
  · exact h.flush sh _

theorem loadServer_of_parts (htrans : ∀ {sh sh' sh''}, R sh sh' → R sh' sh'' → R sh sh'')
    (hservers : ∀ (sh : Shared) (servers : List MysqlServer), R sh { sh with servers := servers })
    (hadd : ∀ (sh : Shared) (i hg : Nat), R sh (mysqlServerEntryAddHostgroup sh i hg)) (sh : Shared)
    (row : ServerRow) : R sh (loadServer sh row) := by
  have hset : ∀ (c : Prop) [Decidable c] (xs ys : List MysqlServer),
      R sh (if c then { sh with servers := xs } else { sh with servers := ys }) := by
    intro c _ xs ys
    split
    · exact hservers sh xs
    · exact hservers sh ys
  unfold loadServer
  split
  · exact htrans (hset _ _ _) (hadd _ _ _)
  · exact hset _ _ _

/-- Nothing but the servers and their entries differs. -/
structure OnlyServers (sh sh' : Shared) : Prop extends SamePools sh sh' where
  outside : sh'.outside = sh.outside

theorem OnlyServers.refl (sh : Shared) : OnlyServers sh sh := ⟨⟨rfl, rfl, rfl, rfl, rfl⟩, rfl⟩

theorem OnlyServers.trans {sh'' : Shared} (h : OnlyServers sh sh') (h' : OnlyServers sh' sh'') :
    OnlyServers sh sh'' :=
  ⟨⟨h'.conns.trans h.conns, h'.nextConn.trans h.nextConn, h'.thrMyconnpool.trans h.thrMyconnpool,
    h'.gloconnpool.trans h.gloconnpool, h'.released.trans h.released⟩, h'.outside.trans h.outside⟩

theorem resetHostgroup_onlyServers (sh : Shared) (i : Nat) :
    OnlyServers sh (resetHostgroup sh i) := by
  unfold resetHostgroup
  split
  · exact .refl _
  · exact ⟨⟨rfl, rfl, rfl, rfl, rfl⟩, rfl⟩

theorem onlyServers_flush : FlushRule OnlyServers where
  refl := .refl
  trans := .trans
  reset := resetHostgroup_onlyServers
  load := by
    refine loadServer_of_parts .trans (fun _ _ => ⟨⟨rfl, rfl, rfl, rfl, rfl⟩, rfl⟩) fun sh i hg =>
      ?_
    unfold mysqlServerEntryAddHostgroup
    split
    · exact .refl _
    · split
      · exact .refl _
      · exact ⟨⟨rfl, rfl, rfl, rfl, rfl⟩, rfl⟩

theorem flushServersDbToMem_onlyServers (sh : Shared) (rows : List ServerRow) :
    OnlyServers sh (flushServersDbToMem sh rows) := onlyServers_flush.flush sh rows

theorem ConnectEnv.flushed_onlyServers (env : ConnectEnv) (attempt : Nat) (sh : Shared) :
    OnlyServers sh (env.flushed attempt sh) := onlyServers_flush.flushed env attempt sh

/-! ## Finding a connection -/

/-- What a session with these credentials connects to. -/
def Credentials.target (cred : Credentials) (ms : MysqlServer) : Target :=
  { hostname := some ms.address, username := cred.username, password := cred.password,
    db := cred.schema,
    port := ms.port }

/-- The ways in which the search for a backend ends, with `n` attempts left. -/
inductive Creates (cred : Credentials) (env : ConnectEnv) (fill : Nat → Byte) (hg : Nat) :
    Nat → Shared → MysqlBackend → Shared → MysqlBackend → CreateResult → Prop where
  | exhausted {sh : Shared} {mybe : MysqlBackend} :
      Creates cred env fill hg 0 sh mybe sh mybe .failed
  | noServer {n : Nat} {sh : Shared} {mybe : MysqlBackend} :
      chooseEntry sh mybe.mshge hg (env.rand (10 - (n + 1))) = .ok none →
      Creates cred env fill hg (n + 1) sh mybe sh { mybe with mshge := none } .noServer
  | kept {n m c : Nat} {sh sh' : Shared} {mybe mybe' : MysqlBackend} :
      chooseEntry sh mybe.mshge hg (env.rand (10 - (n + 1))) = .ok (some m) →
      mybe.serverMycpe = some c →
      attachMyds sh { mybe with mshge := some m } fill m (sh.conns c).fd = (sh', mybe') →
      Creates cred env fill hg (n + 1) sh mybe sh' mybe' .created
  | taken {n m c : Nat} {sh sh1 sh' : Shared} {mybe mybe' : MysqlBackend} {ms : MysqlServer}
      {ref : Option Nat} :
      chooseEntry sh mybe.mshge hg (env.rand (10 - (n + 1))) = .ok (some m) →
      mybe.serverMycpe = none → sh.msPtr m = .ok ms →
      mysqlConnpoolGetConnection sh mybe.lastMysqlConnpool (cred.target ms)
        (env.connect (10 - (n + 1))) = .ok (sh1, ref, some c) →
      attachMyds (env.flushed (10 - (n + 1)) sh1)
        { mybe with mshge := some m, lastMysqlConnpool := ref, serverMycpe := some c } fill m
        ((env.flushed (10 - (n + 1)) sh1).conns c).fd = (sh', mybe') →
      Creates cred env fill hg (n + 1) sh mybe sh' mybe' .created
  | failed {m : Nat} {sh sh1 : Shared} {mybe : MysqlBackend} {ms : MysqlServer} {ref : Option Nat} :
      chooseEntry sh mybe.mshge hg (env.rand 9) = .ok (some m) → mybe.serverMycpe = none →
      sh.msPtr m = .ok ms →
      mysqlConnpoolGetConnection sh mybe.lastMysqlConnpool (cred.target ms) (env.connect 9) =
        .ok (sh1, ref, none) →
      Creates cred env fill hg 1 sh mybe (env.flushed 9 sh1)
        { mybe with mshge := some m, lastMysqlConnpool := ref, serverMycpe := none } .failed
  | retry {n m : Nat} {sh sh1 sh' : Shared} {mybe mybe' : MysqlBackend} {ms : MysqlServer}
      {ref : Option Nat} {rc : CreateResult} :
      chooseEntry sh mybe.mshge hg (env.rand (10 - (n + 1))) = .ok (some m) →
      mybe.serverMycpe = none → sh.msPtr m = .ok ms →
      mysqlConnpoolGetConnection sh mybe.lastMysqlConnpool (cred.target ms)
        (env.connect (10 - (n + 1))) = .ok (sh1, ref, none) →
      Creates cred env fill hg n (env.flushed (10 - (n + 1)) sh1)
        { mybe with mshge := none, lastMysqlConnpool := ref, serverMycpe := none } sh' mybe' rc →
      Creates cred env fill hg (n + 1) sh mybe sh' mybe' rc

variable {cred : Credentials}

theorem createBackendFrom_creates
    (h : createBackendFrom cred env fill hg n sh mybe = .ok (sh', mybe', rc)) :
    Creates cred env fill hg n sh mybe sh' mybe' rc := by
  have htriple : ∀ {a a' : Shared} {b b' : MysqlBackend} {r r' : CreateResult},
      (Except.ok (a, b, r) : Except Fault _) = .ok (a', b', r') → (a, b) = (a', b') ∧ r = r' := by
    intro a a' b b' r r' heq
    cases heq
    exact ⟨rfl, rfl⟩
  induction n generalizing sh mybe with
  | zero =>
    obtain ⟨hpair, rfl⟩ := htriple h
    cases hpair
    exact .exhausted
  | succ n ih =>
    obtain ⟨entry, hentry, h⟩ := except_bind_eq_ok.1 h
    cases entry with
    | none =>
      obtain ⟨hpair, rfl⟩ := htriple h
      cases hpair
      exact .noServer hentry
    | some m =>
      cases hmycpe : mybe.serverMycpe with
      | some c =>
        simp only [hmycpe] at h
        obtain ⟨hattach, rfl⟩ := htriple h
        rw [← hmycpe] at hattach
        exact .kept hentry hmycpe hattach
      | none =>
        simp only [hmycpe] at h
        obtain ⟨ms, hms, h⟩ := except_bind_eq_ok.1 h
        obtain ⟨⟨sh1, ref, mycpe⟩, hget, h⟩ := except_bind_eq_ok.1 h
        cases mycpe with
        | some c =>
          obtain ⟨hattach, rfl⟩ := htriple h
          exact .taken hentry hmycpe hms hget hattach
        | none =>
          by_cases hlast : n = 0
          · subst hlast
            obtain ⟨hpair, rfl⟩ := htriple h
            cases hpair
            exact .failed hentry hmycpe hms hget
          · rw [if_neg hlast] at h
            exact .retry hentry hmycpe hms hget (ih h)

/-- What the search for a backend does: a connection that is there stays, and one that is found was
    free or is new. -/
structure Connected (sh sh' : Shared) (mybe mybe' : MysqlBackend) : Prop where
  outside : sh'.outside = sh.outside
  conns : ConnsKept sh sh'
  released : sh'.released = sh.released
  free : sh'.free.Subperm sh.free
  wired : (mybe.serverMycpe.isSome → mybe.mshge.isSome) → mybe'.serverMycpe.isSome →
    mybe'.mshge.isSome
  kept : ∀ c, mybe.serverMycpe = some c → mybe'.serverMycpe = some c ∧ ServersKept sh sh' ∧
    PoolingKept sh sh' ∧ (∀ m, mybe.mshge = some m → mybe'.mshge = some m) ∧
    mybe'.inTransaction = mybe.inTransaction ∧ mybe'.mydsInactive = mybe.mydsInactive
  taken : mybe.serverMycpe = none → ∀ c, mybe'.serverMycpe = some c →
    (c :: sh'.free).Subperm sh.free ∨ (sh.nextConn ≤ c ∧ c < sh'.nextConn)
  conserves : Conserves sh sh' mybe.held mybe'.held

/-- The stream of a backend is attached: the counters of the server's entry may change. -/
theorem attachMyds_eq (sh : Shared) (mybe : MysqlBackend) (fill : Nat → Byte) (m : Nat) (fd : Int) :
    ∃ mshges myds, attachMyds sh mybe fill m fd =
        ({ sh with mshges := mshges }, { mybe with fd := fd, serverMyds := some myds }) ∧
      (∀ n, (mshges n).msPtr = (sh.mshges n).msPtr) ∧ myds.activeTransaction = mybe.inTransaction ∧
      (!myds.active) = mybe.mydsInactive := by
  unfold attachMyds MysqlBackend.inTransaction MysqlBackend.mydsInactive
  cases mybe.serverMyds with
  | none =>
    refine ⟨_, _, rfl, fun n => ?_, rfl, rfl⟩
    by_cases hn : n = m <;> simp [hn]
  | some myds => exact ⟨sh.mshges, _, rfl, fun _ => rfl, rfl, rfl⟩

theorem attachMyds_kept {m : Nat} {fd : Int} (hmycpe : mybe.serverMycpe = some c)
    (hm : ∀ m', mybe.mshge = some m' → some m = some m')
    (h : attachMyds sh { mybe with mshge := some m } fill m fd = (sh', mybe')) :
    Connected sh sh' mybe mybe' := by
  obtain ⟨mshges, myds, heq, hptr, htrans, hactive⟩ :=
    attachMyds_eq sh { mybe with mshge := some m } fill m fd
  obtain ⟨rfl, rfl⟩ := Prod.mk.inj (heq.symm.trans h)
  refine ⟨rfl, .of_eq rfl rfl, rfl, List.Subperm.refl _, fun _ _ => rfl, fun d hd => ?_,
    fun hnone => ?_, .of_eq _ rfl rfl rfl⟩
  · exact ⟨hd, ⟨rfl, rfl, rfl, rfl, rfl, rfl, hptr⟩, ⟨rfl, fun _ => rfl, fun _ => rfl⟩, hm,
      htrans, hactive⟩
  · rw [hmycpe] at hnone
    cases hnone

theorem attachMyds_taken {sh1 sh2 : Shared} {m : Nat} {fd : Int}
    (hgot : Got sh sh1 (some c)) (hsame : OnlyServers sh1 sh2) (hnone : mybe.serverMycpe = none)
    (hm : mybe1.mshge = some m) (hmycpe : mybe1.serverMycpe = some c)
    (h : attachMyds sh2 mybe1 fill m fd = (sh', mybe')) : Connected sh sh' mybe mybe' := by
  obtain ⟨mshges, myds, heq, -⟩ := attachMyds_eq sh2 mybe1 fill m fd
  obtain ⟨rfl, rfl⟩ := Prod.mk.inj (heq.symm.trans h)
  have hfree : ({ sh2 with mshges := mshges } : Shared).free = sh1.free := hsame.free
  refine ⟨Eq.trans hsame.outside hgot.servers.outside,
    hgot.conns.trans (.of_eq hsame.conns hsame.nextConn), hsame.released.trans hgot.released,
    hfree ▸ hgot.free, fun _ _ => ?_, fun d hd => ?_, fun _ d hd => ?_, ?_⟩
  · rw [hm]
    rfl
  · rw [hnone] at hd
    cases hd
  · obtain rfl : c = d := Option.some.inj (hmycpe.symm.trans hd)
    rcases hgot.origin c rfl with hold | ⟨hnew, hlt⟩
    · exact .inl (hfree ▸ hold)
    · exact .inr ⟨hnew.ge, hsame.nextConn ▸ hlt⟩
  · have hheld : Conserves sh1 { sh2 with mshges := mshges } [c] [c] :=
      .of_eq _ hsame.conns hsame.nextConn hfree
    rw [MysqlBackend.held, MysqlBackend.held, hnone]
    rw [hmycpe]
    exact hgot.conserves.trans hheld

theorem chooseEntry_own {mshge entry : Option Nat} {rand : Nat}
    (h : chooseEntry sh mshge hg rand = .ok entry) (m : Nat) (hm : mshge = some m) :
    entry = some m := by
  subst hm
  exact (Except.ok.inj h).symm

/-- The search has changed no more than the backend's server and pool. -/
theorem Connected.of_eq (hmycpe : mybe'.serverMycpe = mybe.serverMycpe)
    (hmyds : mybe'.serverMyds = mybe.serverMyds)
    (hmshge : ∀ m, mybe.mshge = some m → mybe'.mshge = some m) : Connected sh sh mybe mybe' := by
  refine ⟨rfl, .refl _, rfl, List.Subperm.refl _, fun hw hsome => ?_, fun c hc => ?_,
    fun hnone c hc => ?_, ?_⟩
  · rw [hmycpe] at hsome
    obtain ⟨m, hm⟩ := Option.isSome_iff_exists.1 (hw hsome)
    rw [hmshge m hm]
    rfl
  · refine ⟨hmycpe.trans hc, .refl _, ⟨rfl, fun _ => rfl, fun _ => rfl⟩, hmshge, ?_, ?_⟩
    · rw [MysqlBackend.inTransaction, hmyds, MysqlBackend.inTransaction]
    · rw [MysqlBackend.mydsInactive, hmyds, MysqlBackend.mydsInactive]
  · rw [hmycpe, hnone] at hc
    cases hc
  · rw [MysqlBackend.held, MysqlBackend.held, hmycpe]
    exact .refl _ _

/-- Nothing was found, neither in the first attempt nor in those that follow, if any. -/
theorem Got.connected {sh1 sh2 : Shared} (h : Got sh sh1 none)
    (hsame : OnlyServers sh1 sh2) (hnone : mybe.serverMycpe = none)
    (hnone1 : mybe1.serverMycpe = none) (h' : Connected sh2 sh' mybe1 mybe') :
    Connected sh sh' mybe mybe' := by
  have hfree : sh2.free.Subperm sh.free := hsame.free ▸ h.free
  have hconns : ConnsKept sh sh2 := h.conns.trans (.of_eq hsame.conns hsame.nextConn)
  refine ⟨(h'.outside.trans hsame.outside).trans h.servers.outside, hconns.trans h'.conns,
    (h'.released.trans hsame.released).trans h.released, h'.free.trans hfree,
    fun _ => h'.wired (fun hsome => ?_), fun c hc => ?_, fun _ c hc => ?_, ?_⟩
  · rw [hnone1] at hsome
    cases hsome
  · rw [hnone] at hc
    cases hc
  · rcases h'.taken hnone1 c hc with hold | ⟨hnew, hlt⟩
    · exact .inl (hold.trans hfree)
    · exact .inr ⟨Nat.le_trans hconns.next hnew, hlt⟩
  · have hheld := h'.conserves
    rw [MysqlBackend.held, hnone1] at hheld
    rw [MysqlBackend.held, hnone]
    exact (h.conserves.trans (.of_eq _ hsame.conns hsame.nextConn hsame.free)).trans hheld

theorem Creates.connected (h : Creates cred env fill hg n sh mybe sh' mybe' rc) :
    Connected sh sh' mybe mybe' := by
  induction h with
  | exhausted => exact .of_eq rfl rfl fun _ hm => hm
  | noServer hentry => exact .of_eq rfl rfl (chooseEntry_own hentry)
  | kept hentry hmycpe hattach => exact attachMyds_kept hmycpe (chooseEntry_own hentry) hattach
  | taken hentry hnone _ hget hattach =>
    exact attachMyds_taken (mysqlConnpoolGetConnection_got hget) (env.flushed_onlyServers _ _) hnone
      rfl rfl hattach
  | failed hentry hnone _ hget =>
    exact (mysqlConnpoolGetConnection_got hget).connected (env.flushed_onlyServers _ _) hnone rfl
      (.of_eq rfl rfl fun _ hm => hm)
  | retry hentry hnone _ hget _ ih =>
    exact (mysqlConnpoolGetConnection_got hget).connected (env.flushed_onlyServers _ _) hnone rfl ih

theorem createBackendFrom_connected
    (h : createBackendFrom cred env fill hg n sh mybe = .ok (sh', mybe', rc)) :
    Connected sh sh' mybe mybe' := (createBackendFrom_creates h).connected

/-! ## Giving back returns -/

/-- The connection of the backend, if it has one, was opened for a target with names. -/
def MysqlBackend.Named (sh : Shared) (mybe : MysqlBackend) : Prop :=
  ∀ c, mybe.serverMycpe = some c → c < sh.nextConn ∧ (sh.conns c).target.Named

theorem backendResetServerMycpe_ok (fc : Bool) (now : Nat → Nat) (inTrans : Bool)
    (hn : mybe.Named sh) (hp : PoolsOk sh mybe.lastMysqlConnpool) :
    ∃ sh' mybe', backendResetServerMycpe sh mybe fc now inTrans = .ok (sh', mybe') ∧
    sh'.PoolsNamed := by
  unfold backendResetServerMycpe
  cases hc : mybe.serverMycpe with
  | none => exact ⟨sh, mybe, rfl, hp.named⟩
  | some c =>
    obtain ⟨sh', h, hnamed⟩ := mysqlConnpoolDetachConnection_ok fc (now c) inTrans (hn c hc).2 hp
    exact ⟨sh', { mybe with serverMycpe := none },
      by simp [h, bind, Except.bind, pure, Except.pure], hnamed⟩

theorem backendDetach_ok (fc : Bool) (now : Nat → Nat) (hn : mybe.Named sh) (hp : sh.PoolsNamed) :
    ∃ sh' mybe', backendDetach sh mybe fc now = .ok (sh', mybe') ∧ sh'.PoolsNamed := by
  unfold backendDetach
  dsimp only
  split
  · exact ⟨_, _, rfl, hp⟩
  · split
    · exact backendResetServerMycpe_ok fc now _ hn ⟨hp, nofun⟩
    · exact ⟨_, _, rfl, hp⟩

end ProxySQL
