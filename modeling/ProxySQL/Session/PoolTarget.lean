/-
  ProxySQL.Session.PoolTarget

  Whether a backend gets a connection to the server it has chosen.

  Connections are filed under the target they were opened for, and a pool is found
  by the target that is wanted (`Shared.PoolsTrue`).  But a backend remembers the
  pool it looked into last, and looks there first.  Within one search that pool is
  empty when another server is tried.  It is forgotten when the backend is reset
  or detached, and not when a search gives up because the hostgroup has become
  empty meanwhile: the next search may then find connections of the old server in
  it, which other sessions have given back.
-/
import ProxySQL.Session.Servers
import ProxySQL.Session.Ownership

namespace ProxySQL

open Lib List Option

/-- What a pool is for. -/
def MysqlConnpool.target (mcp : MysqlConnpool) : Target :=
  { hostname := mcp.hostname, username := mcp.username, password := mcp.password, db := mcp.db,
    port := mcp.port }

/-! ## Finding a pool -/

theorem strEq_true {a b : Option Str} (h : strEq a b = .ok true) : a = b := by
  obtain ⟨x, hx, h⟩ := except_bind_eq_ok.1 h
  obtain ⟨y, hy, h⟩ := except_bind_eq_ok.1 h
  rw [deref_eq_ok.1 hx, deref_eq_ok.1 hy, eq_of_beq (Except.ok.inj h)]

theorem andThen_true {x y : Except Fault Bool} (h : andThen x y = .ok true) : x = .ok true ∧
    y = .ok true := by
  obtain ⟨b, hb, h⟩ := except_bind_eq_ok.1 h
  cases b with
  | true => exact ⟨hb, h⟩
  | false => cases h

variable {t : Target} {l : Nat} {fc : Bool}

variable {mcp : MysqlConnpool} {pools : List MysqlConnpool} {ref mycpe : Option Nat}
  {sh sh' : Shared} {connect : Option Int} {now : Nat → Nat} {e : PoolCall}

theorem MysqlConnpool.isFor_true (h : mcp.isFor t = .ok true) : mcp.target = t := by
  obtain ⟨hhostname, h⟩ := andThen_true h
  obtain ⟨husername, h⟩ := andThen_true h
  obtain ⟨hpassword, h⟩ := andThen_true h
  obtain ⟨hdb, hport⟩ := andThen_true h
  rw [MysqlConnpool.target, ← strEq_true hhostname, ← strEq_true husername, ← strEq_true hpassword,
    ← strEq_true hdb, ← eq_of_beq (Except.ok.inj hport)]

theorem mysqlConnpoolFind_target {k : Nat} (h : mysqlConnpoolFind t pools l = .ok (some k)) :
    ∃ i mcp, k = l + i ∧ pools[i]? = some mcp ∧ mcp.target = t := by
  induction pools generalizing l with
  | nil => cases h
  | cons mcp pools ih =>
    rw [mysqlConnpoolFind] at h
    split at h
    · cases h
    · obtain ⟨found, hfor, h⟩ := except_bind_eq_ok.1 h
      cases found with
      | true =>
        obtain rfl := some.inj (Except.ok.inj h)
        exact ⟨0, mcp, rfl, rfl, mcp.isFor_true hfor⟩
      | false =>
        obtain ⟨i, mcp', rfl, hget, htarget⟩ := ih h
        exact ⟨i + 1, mcp', by omega, hget, htarget⟩

theorem choosePool_cases {cp cp' : MyConnPools} (h : choosePool cp ref t = .ok (cp', l)) :
    (ref = some l ∧ cp' = cp) ∨
    (ref = none ∧ ∃ mcp, cp'.connpools[l]? = some mcp ∧ mcp.target = t ∧
      (cp' = cp ∨ mcp.freeConns = [] ∧ cp'.connpools = cp.connpools ++ [mcp])) := by
  cases ref with
  | some l' =>
    cases h
    exact .inl ⟨rfl, rfl⟩
  | none =>
    refine .inr ⟨rfl, ?_⟩
    obtain ⟨found, hfind, h⟩ := except_bind_eq_ok.1 h
    cases found with
    | some k =>
      cases h
      obtain ⟨i, mcp, hk, hget, htarget⟩ := mysqlConnpoolFind_target hfind
      rw [Nat.zero_add] at hk
      exact ⟨mcp, hk ▸ hget, htarget, .inl rfl⟩
    | none =>
      cases h
      exact ⟨_, getElem?_concat_length, rfl, .inr ⟨rfl, rfl⟩⟩

/-! ## Pools hold what they are for -/

/-- Free connections were opened for the target of their pool. -/
def Shared.PoolsTrue (sh : Shared) : Prop :=
  ∀ scope, ∀ mcp ∈ (sh.pools scope).connpools, ∀ c ∈ mcp.freeConns, (sh.conns c).target = mcp.target

theorem Shared.PoolsTrue.of_target (h : sh.PoolsTrue)
    (ht : ∀ c, (sh'.conns c).target = (sh.conns c).target)
    (hp : ∀ scope, sh'.pools scope = sh.pools scope) : sh'.PoolsTrue := by
  intro scope mcp hmcp c hc
  rw [ht c]
  exact h scope mcp (hp scope ▸ hmcp) c hc

theorem Shared.PoolsTrue.of_eq (h : sh.PoolsTrue) (hc : sh'.conns = sh.conns)
    (hp : ∀ scope, sh'.pools scope = sh.pools scope) : sh'.PoolsTrue :=
  h.of_target (fun c => by rw [hc]) hp

theorem choosePool_true {cp cp' : MyConnPools} (h : choosePool cp ref t = .ok (cp', l))
    (htrue : ∀ mcp ∈ cp.connpools, ∀ c ∈ mcp.freeConns, (sh.conns c).target = mcp.target) :
    ∀ mcp ∈ cp'.connpools, ∀ c ∈ mcp.freeConns, (sh.conns c).target = mcp.target := by
  rcases choosePool_cases h with ⟨-, rfl⟩ | ⟨-, mcp, -, -, rfl | ⟨hempty, hcp⟩⟩
  · exact htrue
  · exact htrue
  · intro mcp' hmcp'
    rw [hcp] at hmcp'
    rcases mem_append.1 hmcp' with hold | hnew
    · exact htrue mcp' hold
    · obtain rfl := mem_singleton.1 hnew
      rw [hempty]
      exact nofun

theorem modify_true {free : List Nat}
    (hget : pools[l]? = some mcp)
    (htrue : ∀ mcp ∈ pools, ∀ c ∈ mcp.freeConns, (sh.conns c).target = mcp.target)
    (hfree : ∀ c ∈ free, (sh.conns c).target = mcp.target) :
    ∀ mcp' ∈ pools.modify l (fun mcp => { mcp with freeConns := free }), ∀ c ∈ mcp'.freeConns,
      (sh.conns c).target = mcp'.target := by
  intro mcp' hmem
  obtain ⟨i, hi⟩ := mem_iff_getElem?.1 hmem
  rw [getElem?_modify] at hi
  split at hi
  · next heq =>
    subst heq
    rw [hget] at hi
    cases hi
    exact hfree
  · have hi : pools[i]? = some mcp' := by simpa using hi
    exact htrue mcp' (mem_of_getElem? hi)

/-! ## Taking a connection -/

/-- The connection has not expired. -/
def Shared.Live (sh : Shared) (c : Nat) : Prop := sh.gloconnpoolTv < (sh.conns c).expire

/-- What a round over the free connections finds: a live one if there is one, and else it leaves
    none. -/
structure Found (sh sh' : Shared) (free free' : List Nat) (mycpe : Option Nat) : Prop where
  rest : ∀ c ∈ free', c ∈ free
  target : ∀ c, (sh'.conns c).target = (sh.conns c).target
  taken : ∀ c, mycpe = some c → c ∈ free ∧ sh.Live c
  missing : mycpe = none → free' = [] ∧ (∀ c ∈ free, ¬ sh.Live c) ∧
    ∀ c, (sh'.conns c).expire = (sh.conns c).expire

theorem closeExpired_conn (sh : Shared) (c d : Nat) :
    ((sh.closeExpiredMysqlConnection c).conns d).target = (sh.conns d).target ∧
      ((sh.closeExpiredMysqlConnection c).conns d).expire = (sh.conns d).expire := by
  by_cases hd : d = c <;> simp [Shared.closeExpiredMysqlConnection, Shared.modifyConn, hd,
    MysqlCpEntry.target]

theorem takeFree_found (sh : Shared) (free : List Nat) {n : Nat} (hn : n = free.length) :
    Found sh (takeFree n sh free).1 free (takeFree n sh free).2.1 (takeFree n sh free).2.2 := by
  induction n generalizing sh free with
  | zero =>
    obtain rfl : free = [] := length_eq_zero_iff.1 hn.symm
    exact ⟨fun _ hc => hc, fun _ => rfl, (nofun),
      fun _ => ⟨rfl, (nofun), fun _ => rfl⟩⟩
  | succ n ih =>
    cases free with
    | nil => cases hn
    | cons c rest =>
      have hperm := removeFirstFast_perm c rest
      have hmem : ∀ d, d ∈ removeFirstFast (c :: rest) → d ∈ c :: rest :=
        fun d hd => mem_cons_of_mem c (hperm.subset hd)
      rw [takeFree]
      split
      case isTrue hexpired =>
        have hlen : n = (removeFirstFast (c :: rest)).length := by
          rw [hperm.length_eq]
          exact Nat.succ.inj hn
        have hih := ih (sh.closeExpiredMysqlConnection c) (removeFirstFast (c :: rest)) hlen
        have hlive : ∀ d, (sh.closeExpiredMysqlConnection c).Live d ↔ sh.Live d := fun d => by
          rw [Shared.Live, (closeExpired_conn sh c d).2]
          rfl
        refine ⟨fun d hd => hmem d (hih.rest d hd),
          fun d => (hih.target d).trans (closeExpired_conn sh c d).1, fun d hd => ?_, fun hnone => ?_⟩
        · obtain ⟨hd, hl⟩ := hih.taken d hd
          exact ⟨hmem d hd, (hlive d).1 hl⟩
        · obtain ⟨hempty, hall, hexpire⟩ := hih.missing hnone
          refine ⟨hempty, fun d hd => ?_, fun d => (hexpire d).trans (closeExpired_conn sh c d).2⟩
          rcases mem_cons.1 hd with rfl | hrest
          · exact Nat.not_lt.2 hexpired
          · exact fun hl => hall d (hperm.symm.subset hrest) ((hlive d).2 hl)
      case isFalse hlive =>
        refine ⟨hmem, fun d => ?_, fun d hd => ?_, fun hnone => by cases hnone⟩
        · by_cases hd : d = c <;> simp [Shared.modifyConn, hd, MysqlCpEntry.target]
        · cases hd
          exact ⟨mem_cons_self, Nat.lt_of_not_le hlive⟩

/-- The pool that `ref` points to has no live connections, or they are for `t`. -/
def Fits (sh : Shared) (scope : CpScope) (ref : Option Nat) (t : Target) : Prop :=
  (sh.pools scope).enabled = true → ∀ l mcp, ref = some l → (sh.pools scope).connpools[l]? = some mcp →
    (∃ c ∈ mcp.freeConns, sh.Live c) → mcp.target = t

/-- The pool that `ref` points to is empty. -/
def Drained (sh : Shared) (ref : Option Nat) : Prop :=
  sh.thrMyconnpool.enabled = true → ∀ l mcp, ref = some l → sh.thrMyconnpool.connpools[l]? = some mcp →
    mcp.freeConns = []

theorem Drained.fits (h : Drained sh ref) (t : Target) : Fits sh .ofThread ref t := by
  intro henabled l mcp hl hmcp hlive
  obtain ⟨c, hc, -⟩ := hlive
  rw [h henabled l mcp hl hmcp] at hc
  cases hc

/-- What looking into the pools of one scope gives. -/
structure Searched (sh sh' : Shared) (scope : CpScope) (ref ref' : Option Nat) (t : Target)
    (mycpe : Option Nat) : Prop where
  truth : sh.PoolsTrue → sh'.PoolsTrue
  target : ∀ c, (sh'.conns c).target = (sh.conns c).target
  other : ∀ other, other ≠ scope → sh'.pools other = sh.pools other
  taken : sh.PoolsTrue → ∀ c, mycpe = some c → sh.Live c ∧ ((sh.conns c).target = t ↔ Fits sh scope ref t)
  missing : mycpe = none → Fits sh scope ref t ∧ (∀ c, (sh'.conns c).expire = (sh.conns c).expire) ∧
    ((sh'.pools scope).enabled = true → ∀ l mcp, ref' = some l → (sh'.pools scope).connpools[l]? =
      some mcp → mcp.freeConns = [])

theorem getFromPools_searched {scope : CpScope} {ref' : Option Nat}
    (h : getFromPools sh scope ref t = .ok (sh', ref', mycpe)) :
    Searched sh sh' scope ref ref' t mycpe := by
  unfold getFromPools at h
  split at h
  case isFalse hdisabled =>
    cases h
    exact ⟨id, fun _ => rfl, fun _ _ => rfl, (fun _ _ hc => nomatch hc),
      fun _ => ⟨fun hen => absurd hen hdisabled, fun _ => rfl, fun hen => absurd hen hdisabled⟩⟩
  case isTrue henabled =>
    obtain ⟨⟨cp, l⟩, hcp, h⟩ := except_bind_eq_ok.1 h
    obtain ⟨mcp, hmcp, h⟩ := except_bind_eq_ok.1 h
    have hget := deref_eq_ok.1 hmcp
    have hfound := takeFree_found (sh.setPools scope cp) mcp.freeConns rfl
    have htook := takeFree_took mcp.freeConns.length (sh.setPools scope cp) mcp.freeConns
    generalize takeFree mcp.freeConns.length (sh.setPools scope cp) mcp.freeConns = r at h hfound htook
    cases h
    have hpool : r.1.pools scope = cp := (htook.pools scope).trans (setPools_pools sh scope cp)
    rw [setFreeConns_eq l r.2.1 hpool]
    have hconns := (setPools_conns sh scope cp).1
    have htv := (setPools_servers sh scope cp).gloconnpoolTv
    have hlive : ∀ c, (sh.setPools scope cp).Live c ↔ sh.Live c := fun c => by
      rw [Shared.Live, Shared.Live, hconns, htv]
    have hconns' : ∀ cp', (r.1.setPools scope cp').conns = r.1.conns :=
      fun cp' => (setPools_conns r.1 scope cp').1
    have htarget : ∀ c, (r.1.conns c).target = (sh.conns c).target := fun c => by
      rw [hfound.target c, hconns]
    -- the pool that is used is the one pointed to, or for the target
    have hused : (ref = none → mcp.target = t) ∧
        ∀ l', ref = some l' → (sh.pools scope).connpools[l']? = some mcp := by
      rcases choosePool_cases hcp with ⟨rfl, rfl⟩ | ⟨rfl, mcp', hget', htarget', -⟩
      · exact ⟨(nofun), fun l' hl' => some.inj hl' ▸ hget⟩
      · obtain rfl : mcp = mcp' := some.inj (hget.symm.trans hget')
        exact ⟨fun _ => htarget', fun l' hl' => nomatch hl'⟩
    refine ⟨fun htrue other mcp' hmcp' c hc => ?_, fun c => ?_, fun other hne => ?_, fun htrue c hc => ?_,
      fun hnone => ?_⟩
    · rw [hconns', htarget c]
      by_cases hscope : other = scope
      · subst hscope
        rw [setPools_pools] at hmcp'
        refine @modify_true _ _ _ sh _ hget (choosePool_true hcp (htrue other)) (fun d hd => ?_) mcp'
          hmcp' c hc
        exact choosePool_true hcp (htrue other) mcp (mem_of_getElem? hget) d (hfound.rest d hd)
      · rw [setPools_other _ _ hscope, htook.pools other, setPools_other _ _ hscope] at hmcp'
        exact htrue other mcp' hmcp' c hc
    · rw [hconns', htarget c]
    · rw [setPools_other _ _ hne, htook.pools other, setPools_other _ _ hne]
    · obtain ⟨hmem, hl⟩ := hfound.taken c hc
      refine ⟨(hlive c).1 hl, ?_⟩
      rw [choosePool_true hcp (htrue scope) mcp (mem_of_getElem? hget) c hmem]
      refine ⟨fun heq _ l' mcp' hl' hmcp' _ => ?_, fun hfits => ?_⟩
      · obtain rfl : mcp = mcp' := some.inj ((hused.2 l' hl').symm.trans hmcp')
        exact heq
      · cases href : ref with
        | none => exact hused.1 href
        | some l' => exact hfits henabled l' mcp href (hused.2 l' href) ⟨c, hmem, (hlive c).1 hl⟩
    · obtain ⟨hempty, hall, hexpire⟩ := hfound.missing hnone
      refine ⟨fun _ l' mcp' hl' hmcp' hex => ?_, fun c => ?_, fun _ l' mcp' hl' hmcp' => ?_⟩
      · obtain rfl : mcp = mcp' := some.inj ((hused.2 l' hl').symm.trans hmcp')
        obtain ⟨c, hc, hl⟩ := hex
        exact absurd ((hlive c).2 hl) (hall c hc)
      · rw [hconns', hexpire c, hconns]
      · cases hl'
        rw [setPools_pools] at hmcp'
        rw [getElem?_modify_eq, hget] at hmcp'
        cases hmcp'
        exact hempty

/-- What `mysql_connpool_get_connection` finds: a connection for the target, unless the pool pointed to
    has live ones for another. -/
structure GotFor (sh sh' : Shared) (ref ref' : Option Nat) (t : Target) (mycpe : Option Nat) : Prop where
  truth : sh'.PoolsTrue
  taken : ∀ c, mycpe = some c →
    (c < sh.nextConn → sh.Live c) ∧ ((sh'.conns c).target = t ↔ Fits sh .ofThread ref t)
  missing : mycpe = none → Fits sh .ofThread ref t ∧ Drained sh' ref' ∧
    ∀ c, (sh'.conns c).expire = (sh.conns c).expire

theorem createNewMysqlConnection_true (connect : Option Int) (htrue : sh.PoolsTrue)
    (hlt : ∀ c ∈ sh.free, c < sh.nextConn) : (createNewMysqlConnection sh t connect).1.PoolsTrue := by
  have hconns := (createNewMysqlConnection_got sh t connect).conns
  have hpools : ∀ scope, (createNewMysqlConnection sh t connect).1.pools scope = sh.pools scope := by
    intro scope
    cases connect <;> cases scope <;> rfl
  intro scope mcp hmcp c hc
  rw [hpools scope] at hmcp
  have hfree : c ∈ sh.free := by
    rw [Shared.free, mem_append]
    cases scope with
    | ofThread => exact .inl (mem_flatMap.2 ⟨mcp, hmcp, hc⟩)
    | ofProcess => exact .inr (mem_flatMap.2 ⟨mcp, hmcp, hc⟩)
  rw [hconns.target (hlt c hfree)]
  exact htrue scope mcp hmcp c hc

theorem mysqlConnpoolGetConnection_for {ref' : Option Nat}
    (htrue : sh.PoolsTrue) (hlt : ∀ c ∈ sh.free, c < sh.nextConn)
    (h : mysqlConnpoolGetConnection sh ref t connect = .ok (sh', ref', mycpe)) :
    GotFor sh sh' ref ref' t mycpe := by
  obtain ⟨⟨sh1, ref1, mycpe1⟩, hthread, h⟩ := except_bind_eq_ok.1 h
  have hs1 := getFromPools_searched hthread
  have ht1 := getFromPools_took hthread
  cases mycpe1 with
  | some c =>
    cases h
    refine ⟨hs1.truth htrue, fun d hd => ?_, fun hnone => by cases hnone⟩
    rw [hs1.target d]
    exact ⟨fun _ => (hs1.taken htrue d hd).1, (hs1.taken htrue d hd).2⟩
  | none =>
    obtain ⟨hfits, hexpire1, hempty⟩ := hs1.missing rfl
    obtain ⟨⟨sh2, ref2, mycpe2⟩, hprocess, h⟩ := except_bind_eq_ok.1 h
    have hs2 := getFromPools_searched hprocess
    have ht2 := getFromPools_took hprocess
    have htrue2 := hs2.truth (hs1.truth htrue)
    cases mycpe2 with
    | some c =>
      cases h
      refine ⟨htrue2, fun d hd => ?_, fun hnone => by cases hnone⟩
      obtain ⟨hlive, htarget⟩ := hs2.taken (hs1.truth htrue) d hd
      refine ⟨fun _ => ?_, fun _ => hfits, fun _ => ?_⟩
      · rw [Shared.Live, ← hexpire1 d, ← ht1.servers.gloconnpoolTv]
        exact hlive
      · rw [hs2.target d]
        exact htarget.2 fun _ l mcp hl => nomatch hl
    | none =>
      obtain ⟨-, hexpire2, -⟩ := hs2.missing rfl
      cases h
      have hnext : sh2.nextConn = sh.nextConn := ht2.nextConn.trans ht1.nextConn
      have hlt2 : ∀ c ∈ sh2.free, c < sh2.nextConn := fun c hc =>
        hnext ▸ hlt c (ht1.free.subset (ht2.free.subset hc))
      refine ⟨createNewMysqlConnection_true connect htrue2 hlt2, fun c hc => ?_, fun hnone => ?_⟩
      · cases connect with
        | none => cases hc
        | some fd =>
          cases hc
          refine ⟨fun hold => absurd hold (by omega), fun _ => hfits, fun _ => ?_⟩
          simp [Shared.modifyConn, MysqlCpEntry.target]
      · cases connect with
        | some fd => cases hnone
        | none =>
          refine ⟨hfits, fun henabled l mcp hl hmcp => ?_, fun c => (hexpire2 c).trans (hexpire1 c)⟩
          have hsame := hs2.other .ofThread (by decide)
          exact hempty (hsame ▸ henabled) l mcp hl (hsame ▸ hmcp)

/-! ## Finding a connection for a backend -/

/-- The pools hold what they are for, and the entries of the hostgroups are sound. -/
structure Shared.Truthful (sh : Shared) : Prop where
  pools : sh.PoolsTrue
  opened : ∀ c ∈ sh.free, c < sh.nextConn
  entries : sh.EntriesOk

/-- The connection was opened for the address of the backend's server, with these credentials. -/
def Opened (cred : Credentials) (sh : Shared) (mybe : MysqlBackend) (c : Nat) : Prop :=
  ∃ m ms, mybe.mshge = some m ∧ sh.msPtr m = .ok ms ∧ (sh.conns c).target = cred.target ms

/-- The pool that the backend looked into last has no live connections, or they are for the server
    that is tried first. -/
def FitsFirst (cred : Credentials) (env : ConnectEnv) (hg n : Nat) (sh : Shared)
    (mybe : MysqlBackend) : Prop :=
  ∀ m ms, chooseEntry sh mybe.mshge hg (env.rand (10 - n)) = .ok (some m) → sh.msPtr m = .ok ms →
    Fits sh .ofThread mybe.lastMysqlConnpool (cred.target ms)

/-- What the search for a backend gives, with `n` attempts left. -/
structure Searches (cred : Credentials) (env : ConnectEnv) (hg n : Nat) (sh : Shared) (mybe : MysqlBackend)
    (sh' : Shared) (mybe' : MysqlBackend) : Prop where
  pools : sh'.PoolsTrue
  entries : sh'.EntriesOk
  targets : SameTargets sh sh'
  mshge : ∀ m, mybe'.mshge = some m → m < sh'.nextMshge
  opened : mybe.serverMycpe = none → ∀ c, mybe'.serverMycpe = some c →
    (c < sh.nextConn → sh.Live c) ∧ (Opened cred sh' mybe' c ↔ FitsFirst cred env hg n sh mybe)

theorem SamePools.poolsTrue (h : SamePools sh sh') (htrue : sh.PoolsTrue) : sh'.PoolsTrue := by
  refine htrue.of_eq h.conns fun scope => ?_
  cases scope with
  | ofThread => exact h.thrMyconnpool
  | ofProcess => exact h.gloconnpool

theorem Drained.of_samePools (h : Drained sh ref) (hsame : SamePools sh sh') : Drained sh' ref := by
  unfold Drained
  rw [hsame.thrMyconnpool]
  exact h

theorem Credentials.target_eq (cred : Credentials) {ms ms' : MysqlServer}
    (haddress : ms'.address = ms.address) (hport : ms'.port = ms.port) :
    cred.target ms' = cred.target ms := by
  rw [Credentials.target, Credentials.target, haddress, hport]

section Searches

variable {cred : Credentials} {env : ConnectEnv} {fill : Nat → Byte} {hg n : Nat} {sh sh1 sh2 sh' : Shared}
  {mybe mybe1 mybe' : MysqlBackend} {c m : Nat} {ms : MysqlServer} {ref : Option Nat}

theorem flushed_truthful (env : ConnectEnv) (k : Nat) (h : sh.Truthful)
    (hget : mysqlConnpoolGetConnection sh mybe.lastMysqlConnpool (cred.target ms) connect =
      .ok (sh1, ref, mycpe)) :
    (env.flushed k sh1).Truthful ∧ SameTargets sh (env.flushed k sh1) ∧
      (env.flushed k sh1).gloconnpoolTv = sh.gloconnpoolTv := by
  have hfor := mysqlConnpoolGetConnection_for h.pools h.opened hget
  have hgot := mysqlConnpoolGetConnection_got hget
  have hsame := (env.flushed_onlyServers k sh1).toSamePools
  have hloads := env.flushed_loads k sh1
  refine ⟨⟨hsame.poolsTrue hfor.truth, fun c hc => ?_, hloads.entries (h.entries.of_kept hgot.servers)⟩, ?_,
    ?_⟩
  · rw [hsame.free] at hc
    rw [hsame.nextConn]
    exact Nat.lt_of_lt_of_le (h.opened c (hgot.free.subset hc)) hgot.conns.next
  · exact (SameTargets.of_kept hgot.servers).trans hloads.targets
  · exact hloads.gloconnpoolTv.trans hgot.servers.gloconnpoolTv

/-- What a stream for the connection changes. -/
structure Attached (sh sh' : Shared) (mybe mybe' : MysqlBackend) : Prop where
  servers : ServersKept sh sh'
  conns : sh'.conns = sh.conns
  pools : ∀ scope, sh'.pools scope = sh.pools scope
  mshge : mybe'.mshge = mybe.mshge
  serverMycpe : mybe'.serverMycpe = mybe.serverMycpe

theorem attachMyds_attached {fd : Int} (h : attachMyds sh mybe fill m fd = (sh', mybe')) :
    Attached sh sh' mybe mybe' := by
  obtain ⟨mshges, myds, heq, hptr, -⟩ := attachMyds_eq sh mybe fill m fd
  obtain ⟨rfl, rfl⟩ := Prod.mk.inj (heq.symm.trans h)
  exact ⟨⟨rfl, rfl, rfl, rfl, rfl, rfl, hptr⟩, rfl, fun scope => by cases scope <;> rfl, rfl, rfl⟩

theorem opened_iff (hm : mybe.mshge = some m) (hms : sh.msPtr m = .ok ms) :
    Opened cred sh mybe c ↔ (sh.conns c).target = cred.target ms := by
  refine ⟨?_, fun htarget => ⟨m, ms, hm, hms, htarget⟩⟩
  rintro ⟨m1, ms1, hm1, hms1, htarget⟩
  obtain rfl : m = m1 := some.inj (hm.symm.trans hm1)
  obtain rfl : ms = ms1 := Except.ok.inj (hms.symm.trans hms1)
  exact htarget

theorem fitsFirst_iff (hentry : chooseEntry sh mybe.mshge hg (env.rand (10 - n)) = .ok (some m))
    (hms : sh.msPtr m = .ok ms) :
    FitsFirst cred env hg n sh mybe ↔ Fits sh .ofThread mybe.lastMysqlConnpool (cred.target ms) := by
  refine ⟨fun h => h m ms hentry hms, fun h m1 ms1 hentry1 hms1 => ?_⟩
  obtain rfl : m = m1 := some.inj (Except.ok.inj (hentry.symm.trans hentry1))
  obtain rfl : ms = ms1 := Except.ok.inj (hms.symm.trans hms1)
  exact h

theorem Creates.searches {rc : CreateResult} (h : Creates cred env fill hg n sh mybe sh' mybe' rc)
    (htrue : sh.Truthful) (hmshge : ∀ m, mybe.mshge = some m → m < sh.nextMshge) :
    Searches cred env hg n sh mybe sh' mybe' := by
  have hnot : ∀ {mycpe : Option Nat}, mycpe = none → ∀ c, mycpe ≠ some c := by
    rintro _ rfl c hc
    cases hc
  induction h with
  | exhausted =>
      exact ⟨htrue.pools, htrue.entries, .refl _, hmshge, fun hnone c hc => absurd hc (hnot hnone c)⟩
  | noServer hentry =>
    exact ⟨htrue.pools, htrue.entries, .refl _, (fun m hm => nomatch hm),
      fun hnone c hc => absurd hc (hnot hnone c)⟩
  | kept hentry hmycpe hattach =>
    have hatt := attachMyds_attached hattach
    refine ⟨htrue.pools.of_eq hatt.conns hatt.pools, htrue.entries.of_kept hatt.servers,
      .of_kept hatt.servers, fun m hm => ?_, fun hnone => absurd hmycpe (hnot hnone _)⟩
    obtain rfl := some.inj (hatt.mshge.symm.trans hm)
    rw [hatt.servers.nextMshge]
    exact chooseEntry_lt htrue.entries hmshge hentry
  | @taken n m c sh sh1 sh' mybe mybe' ms ref hentry hnone hms hget hattach =>
    have hatt := attachMyds_attached hattach
    obtain ⟨htrue2, htargets, htv⟩ := flushed_truthful env (10 - (n + 1)) htrue hget
    have hlt := chooseEntry_lt htrue.entries hmshge hentry
    have htargets' := htargets.trans (.of_kept hatt.servers)
    refine ⟨htrue2.pools.of_eq hatt.conns hatt.pools, htrue2.entries.of_kept hatt.servers, htargets',
      fun m' hm' => ?_, fun _ d hd => ?_⟩
    · obtain rfl := some.inj (hatt.mshge.symm.trans hm')
      exact Nat.lt_of_lt_of_le hlt htargets'.next
    · obtain rfl : c = d := some.inj (hatt.serverMycpe.symm.trans hd)
      obtain ⟨hlive, htarget⟩ := (mysqlConnpoolGetConnection_for htrue.pools htrue.opened hget).taken c rfl
      refine ⟨hlive, ?_⟩
      obtain ⟨ms', hms', haddress, hport⟩ := htargets'.msPtr_ok hlt hms
      rw [opened_iff hatt.mshge hms', fitsFirst_iff hentry hms, cred.target_eq haddress hport, hatt.conns,
        (env.flushed_onlyServers _ sh1).conns]
      exact htarget
  | @failed m sh sh1 mybe ms ref hentry hnone hms hget =>
    obtain ⟨htrue2, htargets, htv⟩ := flushed_truthful env 9 htrue hget
    refine ⟨htrue2.pools, htrue2.entries, htargets, fun m' hm' => ?_, fun _ c hc => nomatch hc⟩
    cases hm'
    exact Nat.lt_of_lt_of_le (chooseEntry_lt htrue.entries hmshge hentry) htargets.next
  | @retry n m sh sh1 sh' mybe mybe' ms ref rc hentry hnone hms hget hrest ih =>
    obtain ⟨htrue2, htargets, htv⟩ := flushed_truthful env (10 - (n + 1)) htrue hget
    have hfor := mysqlConnpoolGetConnection_for htrue.pools htrue.opened hget
    have hsame := (env.flushed_onlyServers (10 - (n + 1)) sh1).toSamePools
    obtain ⟨hfits, hdrained, hexpire⟩ := hfor.missing rfl
    have hih := ih htrue2 fun m hm => nomatch hm
    refine ⟨hih.pools, hih.entries, htargets.trans hih.targets, hih.mshge, fun _ c hc => ?_⟩
    obtain ⟨hlive, hopened⟩ := hih.opened rfl c hc
    refine ⟨fun hold => ?_, fun _ => (fitsFirst_iff hentry hms).2 hfits, fun _ => hopened.2 ?_⟩
    · have hnext : sh.nextConn ≤ (env.flushed (10 - (n + 1)) sh1).nextConn := by
        rw [hsame.nextConn]
        exact (mysqlConnpoolGetConnection_got hget).conns.next
      have hl := hlive (Nat.lt_of_lt_of_le hold hnext)
      rwa [Shared.Live, htv, hsame.conns, hexpire c] at hl
    · -- the pool that was looked into is empty now
      intro m' ms' _ _
      exact (hdrained.of_samePools hsame).fits _

end Searches

/-! ## Giving a connection back -/

/-- A connection is filed under its own target, if the backend has forgotten its pool. -/
theorem mysqlConnpoolDetachConnection_true {c now : Nat} {inTrans : Bool} (htrue : sh.PoolsTrue)
    (h : mysqlConnpoolDetachConnection sh none c fc now inTrans = .ok sh') : sh'.PoolsTrue := by
  have hclose : ∀ {sh : Shared}, sh.PoolsTrue → (sh.closeExpiredMysqlConnection c).PoolsTrue :=
    fun htrue => htrue.of_target (fun d => (closeExpired_conn _ c d).1) fun scope => by cases scope <;> rfl
  unfold mysqlConnpoolDetachConnection at h
  split at h
  · cases h
    exact hclose htrue
  · split at h
    · cases h
      exact hclose htrue
    · split at h
      · cases h
        exact hclose htrue
      · obtain ⟨⟨cp, l⟩, hcp, h⟩ := except_bind_eq_ok.1 h
        have hcptrue := choosePool_true hcp (htrue .ofThread)
        have hset : (sh.setPools .ofThread cp).PoolsTrue := by
          intro scope
          cases scope with
          | ofThread => exact hcptrue
          | ofProcess => exact htrue .ofProcess
        dsimp only at h
        split at h
        · cases h
          exact hclose hset
        · obtain ⟨mcp, hmcp, h⟩ := except_bind_eq_ok.1 h
          have hget := deref_eq_ok.1 hmcp
          cases h
          -- the pool was found by the target of the connection
          have htarget : mcp.target = (sh.conns c).target := by
            rcases choosePool_cases hcp with ⟨href, -⟩ | ⟨-, mcp', hget', htarget', -⟩
            · cases href
            · obtain rfl : mcp = mcp' := some.inj (hget.symm.trans hget')
              exact htarget'
          intro scope
          cases scope with
          | ofProcess => exact htrue .ofProcess
          | ofThread =>
            refine @modify_true _ _ _ sh _ hget hcptrue fun d hd => ?_
            rcases mem_append.1 hd with hold | hnew
            · exact hcptrue mcp (mem_of_getElem? hget) d hold
            · obtain rfl := mem_singleton.1 hnew
              exact htarget.symm

theorem backendDetach_true {mybe mybe' : MysqlBackend} (htrue : sh.PoolsTrue)
    (h : backendDetach sh mybe fc now = .ok (sh', mybe')) : sh'.PoolsTrue := by
  unfold backendDetach at h
  dsimp only at h
  split at h
  · cases h
    exact htrue
  · next c hc =>
    split at h
    · simp only [hc] at h
      obtain ⟨sh1, hd, h⟩ := except_bind_eq_ok.1 h
      cases h
      exact mysqlConnpoolDetachConnection_true htrue hd
    · cases h
      exact htrue

theorem backendReset_true {mybe mybe' : MysqlBackend} (htrue : sh.PoolsTrue)
    (h : backendReset sh mybe fc now = .ok (sh', mybe')) : sh'.PoolsTrue := by
  have hdrop : (dropActive sh mybe.mshge).PoolsTrue := by
    have heq := dropActive_eq sh mybe.mshge
    refine htrue.of_eq (by rw [heq]) fun scope => ?_
    rw [heq]
    cases scope <;> rfl
  unfold backendReset backendResetServerMycpe at h
  dsimp only at h
  split at h
  · cases h
    exact hdrop
  · obtain ⟨sh1, hd, h⟩ := except_bind_eq_ok.1 h
    cases h
    exact mysqlConnpoolDetachConnection_true hdrop hd

/-! ## Runs -/

structure Backends.Truthful (b : Backends) : Prop where
  accounted : b.Accounted
  pools : b.sh.PoolsTrue
  entries : b.sh.EntriesOk
  mshge : ∀ mybe ∈ b.mybes, ∀ m, mybe.mshge = some m → m < b.sh.nextMshge

variable {b b' : Backends}

theorem Backends.Truthful.shared (h : b.Truthful) : b.sh.Truthful :=
  ⟨h.pools, fun _ hc => h.accounted.lt_of_free hc, h.entries⟩

theorem Backends.Truthful.update {i : Nat}
    {f : Shared → MysqlBackend → Except Fault (Shared × MysqlBackend)} (h : b.Truthful)
    (hcall : b.update i f = some b') (haccounted : b'.Accounted)
    (hf : ∀ mybe sh' mybe', mybe ∈ b.mybes → f b.sh mybe = .ok (sh', mybe') →
      sh'.PoolsTrue ∧ sh'.EntriesOk ∧ b.sh.nextMshge ≤ sh'.nextMshge ∧
        ∀ m, mybe'.mshge = some m → m < sh'.nextMshge) : b'.Truthful := by
  unfold Backends.update at hcall
  split at hcall
  · cases hcall
  · next mybe hmybe =>
    split at hcall
    · cases hcall
    · next sh' mybe' hok =>
      cases hcall
      obtain ⟨hpools, hentries, hnext, hmshge⟩ := hf mybe sh' mybe' (mem_of_getElem? hmybe) hok
      refine ⟨haccounted, hpools, hentries, fun b1 hb1 m hm => ?_⟩
      rcases mem_or_eq_of_mem_set hb1 with hold | rfl
      · exact Nat.lt_of_lt_of_le (h.mshge b1 hold m hm) hnext
      · exact hmshge m hm

theorem Backends.Truthful.call (h : b.Truthful) (hcall : b.call e = some b') : b'.Truthful := by
  have haccounted := h.accounted.call hcall
  cases e with
  | backendNew =>
    cases hcall
    refine ⟨haccounted, h.pools, h.entries, fun mybe hmybe m hm => ?_⟩
    rcases mem_append.1 hmybe with hold | hnew
    · exact h.mshge mybe hold m hm
    · obtain rfl := mem_singleton.1 hnew
      cases hm
  | create i cred env fill hg =>
    rw [Backends.call] at hcall
    refine h.update hcall haccounted fun mybe sh' mybe' hmybe hok => ?_
    obtain ⟨⟨sh1, mybe1, rc⟩, hcreate, hok⟩ := except_bind_eq_ok.1 hok
    cases hok
    have hs := (createBackendFrom_creates hcreate).searches h.shared (h.mshge mybe hmybe)
    exact ⟨hs.pools, hs.entries, hs.targets.next, hs.mshge⟩
  | detach i fc now =>
    rw [Backends.call] at hcall
    refine h.update hcall haccounted fun mybe sh' mybe' hmybe hok => ?_
    have hservers := (backendDetach_gaveBack hok).servers
    refine ⟨backendDetach_true h.pools hok, h.entries.of_kept hservers, hservers.nextMshge.ge,
      fun m hm => ?_⟩
    rw [backendDetach_eq hok] at hm
    rw [hservers.nextMshge]
    exact h.mshge mybe hmybe m hm
  | reset i fc now =>
    rw [Backends.call] at hcall
    refine h.update hcall haccounted fun mybe sh' mybe' hmybe hok => ?_
    have hservers := (backendReset_gaveBack hok).servers
    refine ⟨backendReset_true h.pools hok, h.entries.of_kept hservers, hservers.nextMshge.ge,
      fun m hm => ?_⟩
    rw [backendReset_eq hok] at hm
    cases hm
  | free i =>
    rw [Backends.call] at hcall
    split at hcall
    · cases hcall
    · split at hcall
      · cases hcall
        exact ⟨haccounted, h.pools, h.entries, fun mybe hmybe => h.mshge mybe (mem_of_mem_eraseIdx hmybe)⟩
      · cases hcall
  | flushHostgroups rows =>
    cases hcall
    have hloads := flushServersDbToMem_loads b.sh rows
    refine ⟨haccounted, (flushServersDbToMem_onlyServers b.sh rows).poolsTrue h.pools,
      hloads.entries h.entries, ?_⟩
    exact fun mybe hmybe m hm => Nat.lt_of_lt_of_le (h.mshge mybe hmybe m hm) hloads.targets.next
  | other sh => cases hcall

theorem Backends.Truthful.step (h : b.Truthful) (hstep : PoolStep b e b') : b'.Truthful := by
  have haccounted := h.accounted.step hstep
  cases hstep with
  | call hcall => exact h.call hcall
  | other hsame =>
    refine ⟨haccounted, h.pools.of_target hsame.target fun scope => ?_, ⟨?_, ?_, ?_⟩, ?_⟩
    · cases scope with
      | ofThread => exact hsame.thrMyconnpool
      | ofProcess => exact hsame.gloconnpool
    · rw [hsame.hostgroupArrays, hsame.nextMshge]
      exact h.entries.allocated
    · rw [hsame.nextMshge, hsame.mshges, hsame.servers]
      exact h.entries.server
    · rw [hsame.hostgroups, hsame.mysqlHostgroups]
      exact h.entries.hostgroups
    · rw [hsame.nextMshge]
      exact h.mshge

theorem Backends.Truthful.init (g : Glovars) (md5 : List Byte → Str)
    (scramble : List Byte → Str → List Byte) :
    Backends.Truthful { sh := Shared.init g md5 scramble, mybes := [] } := by
  refine ⟨accounted_init g md5 scramble, fun scope mcp hmcp => ?_, .init g md5 scramble,
    fun _ hb => nomatch hb⟩
  cases scope <;> cases hmcp

/-- In every state of every run: the connection that a search for a backend stores was opened for the
    address of the backend's server with the credentials of the session, exactly if the pool that the
    backend looked into last has no live connections or they are for the server that is tried first.
    A connection that is not new has not expired. -/
theorem created_opened_iff {g : Glovars} {md5 : List Byte → Str} {scramble : List Byte → Str → List Byte}
    {b : Backends} {es : List PoolCall}
    (hrun : Run PoolStep { sh := Shared.init g md5 scramble, mybes := [] } es b)
    {i : Nat} {mybe : MysqlBackend} (hmybe : b.mybes[i]? = some mybe) (hnone : mybe.serverMycpe = none)
    {cred : Credentials} {env : ConnectEnv} {fill : Nat → Byte} {hg c : Nat} {sh' : Shared}
    {mybe' : MysqlBackend} {rc : CreateResult}
    (hcreate : createBackendFrom cred env fill hg 10 b.sh mybe = .ok (sh', mybe', rc))
    (hc : mybe'.serverMycpe = some c) :
    (Opened cred sh' mybe' c ↔ FitsFirst cred env hg 10 b.sh mybe) ∧ (c < b.sh.nextConn → b.sh.Live c) := by
  have hb : b.Truthful :=
    hrun.invariant (P := Backends.Truthful) (fun _ _ _ hstep h => h.step hstep) (.init g md5 scramble)
  have hs := (createBackendFrom_creates hcreate).searches hb.shared (hb.mshge mybe (mem_of_getElem? hmybe))
  obtain ⟨hlive, hopened⟩ := hs.opened hnone c hc
  exact ⟨hopened, hlive⟩

/-- A new backend connects to the server of its hostgroup. -/
theorem created_opened_new :
    ∃ es b sh' mybe' rc, Run PoolStep { sh := oneServer.sh, mybes := [] } es b ∧
      b.mybes[0]? = some mysqlBackendNew ∧
      createBackendFrom { username := some (bytesOf "u"), password := some [],
                          schema := some (bytesOf "test") }
        PktEnv.quiet.connect1 (fun _ => 0) 0 10 b.sh mysqlBackendNew = .ok (sh', mybe', rc) ∧
      mybe'.serverMycpe = some 0 ∧
      Opened { username := some (bytesOf "u"), password := some [], schema := some (bytesOf "test") } sh'
        mybe' 0 := by
  have hflush : PoolStep { sh := oneServer.sh, mybes := [] } (.flushHostgroups [dbRow]) _ := .call rfl
  have hrun := Run.cons hflush (.cons (.call rfl : PoolStep _ .backendNew _) (.nil _))
  obtain ⟨⟨sh', mybe', rc⟩, hcreate, hc⟩ : ∃ r,
      createBackendFrom { username := some (bytesOf "u"), password := some [],
                          schema := some (bytesOf "test") }
        PktEnv.quiet.connect1 (fun _ => 0) 0 10 (flushServersDbToMem oneServer.sh [dbRow]) mysqlBackendNew =
        .ok r ∧
      r.2.1.serverMycpe = some 0 := ⟨_, rfl, rfl⟩
  refine ⟨_, _, sh', mybe', rc, hrun, rfl, hcreate, hc, ?_⟩
  refine (created_opened_iff hrun (i := 0) rfl rfl hcreate hc).1.2 ?_
  -- a new backend has not looked into any pool
  intro m ms _ _ _ l mcp hl
  cases hl

/-- A query for which no connection can be opened, and before the next attempt the hostgroups are empty. -/
def HandlerEnv.failsToConnect (query : String) : HandlerEnv :=
  let connect : ConnectEnv :=
    { PktEnv.quiet.connect1 with connect := fun _ => none, flush := fun _ => some [] }
  { HandlerEnv.fromClient (queryPkt query) with
    client := fun _ => { PktEnv.quiet with connect1 := connect } }

/-- The connection of the backend of session `i`, its host, and the address of the backend's server. -/
def World.addresses (w : World) (i : Nat) : Option (Nat × Option Str × Str) := do
  let s ← w.sessions[i]?
  let mybe ← s.mybes[0]?
  let c ← mybe.serverMycpe
  let m ← mybe.mshge
  let ms ← (w.sh.msPtr m).toOption
  some (c, (w.sh.conns c).host, ms.address)

set_option maxRecDepth 4000 in
/-- A session that could not connect to `db` keeps the pool of `db`. By the time it tries again, another
    session has left a connection there and the server of the hostgroup is `db2`. -/
theorem connected_to_another_server :
    ∃ es w, Run WorldStep oneServer es w ∧
      w.addresses 1 = some (0, some (bytesOf "db"), bytesOf "db2") := by
  exact World.exists_calls oneServer
    (.flushHostgroups [dbRow] :: login 0 ++
      [.poll 0, .handle 0 (.fromClient (queryPkt "SELECT 1")), .poll 0, .handle 0 .quiet, .poll 0,
        .handle 0 (.fromServer (okPkt 2))] ++ login 1 ++
      [.poll 1, .handle 1 (.failsToConnect "SELECT 2"), .poll 0, .handle 0 (.fromClient []), .poll 0,
        .handle 0 .quiet, .flushHostgroups [{ dbRow with address := bytesOf "db2" }], .poll 1,
        .handle 1 .quiet]) (by decide +kernel)

end ProxySQL
