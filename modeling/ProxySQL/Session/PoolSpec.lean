/-
  ProxySQL.Session.PoolSpec

  What taking a connection from the pools and giving one back do.

  The functions compare names with `strcmp`, so they return only if the names of
  the pools and of the target are there (`Named`).  Which connections are free is
  read off the pools as one list, `MyConnPools.free`.
-/
import ProxySQL.Session.Backend
import Mathlib.Data.List.Perm.Basic

namespace ProxySQL

open Lib List Option

/-! ## Names -/

/-- Host, user and password are given. -/
def Target.Named (t : Target) : Prop :=
  t.hostname.isSome ∧ t.username.isSome ∧ t.password.isSome

def MysqlConnpool.Named (mcp : MysqlConnpool) : Prop :=
  mcp.hostname.isSome ∧ mcp.username.isSome ∧ mcp.password.isSome

def MyConnPools.Named (cp : MyConnPools) : Prop := ∀ mcp ∈ cp.connpools, mcp.Named

theorem strEq_ok {a b : Option Str} (ha : a.isSome) (hb : b.isSome) : ∃ r, strEq a b = .ok r := by
  obtain ⟨x, rfl⟩ := isSome_iff_exists.1 ha
  obtain ⟨y, rfl⟩ := isSome_iff_exists.1 hb
  exact ⟨x == y, rfl⟩

theorem andThen_ok {x y : Except Fault Bool} (hx : ∃ r, x = .ok r) (hy : ∃ r, y = .ok r) :
    ∃ r, andThen x y = .ok r := by
  obtain ⟨rx, rfl⟩ := hx
  obtain ⟨ry, rfl⟩ := hy
  cases rx
  · exact ⟨false, rfl⟩
  · exact ⟨ry, rfl⟩

variable {t : Target} {l c now : Nat} {mcpRef mycpe : Option Nat} {scope : CpScope} {fc : Bool}

variable {mcp : MysqlConnpool} {α : Type} {sh sh' sh'' : Shared} {d : Nat} {mcpRef' : Option Nat}
  {connect : Option Int} {inTrans : Bool}

theorem MysqlConnpool.Named.isFor (hm : mcp.Named) (ht : t.Named) (hdb : t.db.isSome)
    (hdb' : mcp.db.isSome) : ∃ r, mcp.isFor t = .ok r := by
  refine andThen_ok (strEq_ok ht.1 hm.1) (andThen_ok (strEq_ok ht.2.1 hm.2.1) ?_)
  exact andThen_ok (strEq_ok ht.2.2 hm.2.2) (andThen_ok (strEq_ok hdb hdb') ⟨_, rfl⟩)

theorem mysqlConnpoolFind_ok {pools : List MysqlConnpool} (l : Nat) (ht : t.Named)
    (hp : ∀ mcp ∈ pools, mcp.Named) :
    ∃ r, mysqlConnpoolFind t pools l = .ok r ∧ ∀ i, r = some i → i < l + pools.length := by
  induction pools generalizing l with
  | nil => exact ⟨none, rfl, nofun⟩
  | cons mcp pools ih =>
    rw [mysqlConnpoolFind]
    split
    · exact ⟨none, rfl, nofun⟩
    · next hdb =>
      rw [not_or, ← ne_eq, ← ne_eq, ne_none_iff_isSome, ne_none_iff_isSome] at hdb
      obtain ⟨found, hfound⟩ := (hp mcp mem_cons_self).isFor ht hdb.1 hdb.2
      obtain ⟨r, hr, hlt⟩ := ih (l + 1) fun q hq => hp q (mem_cons_of_mem _ hq)
      cases found
      · refine ⟨r, by simp [hfound, hr, bind, Except.bind], fun i hi => ?_⟩
        have := hlt i hi
        simp only [length_cons]
        omega
      · refine ⟨some l, by simp [hfound, bind, Except.bind, pure, Except.pure], fun i hi => ?_⟩
        obtain rfl : l = i := by simpa using hi
        simp

/-! ## The free connections -/

/-- All connections that are free in some pool. -/
def MyConnPools.free (cp : MyConnPools) : List Nat := cp.connpools.flatMap MysqlConnpool.freeConns

variable {cp cp' : MyConnPools}

theorem mysqlConnpoolFindOrCreate_ok (ht : t.Named) (hp : cp.Named) :
    ∃ cp' l, mysqlConnpoolFindOrCreate cp t = .ok (cp', l) ∧ cp'.Named ∧ l < cp'.connpools.length := by
  obtain ⟨r, hr, hlt⟩ := mysqlConnpoolFind_ok 0 ht hp
  unfold mysqlConnpoolFindOrCreate
  rw [hr]
  cases r with
  | none =>
    refine ⟨_, _, rfl, fun mcp hmcp => ?_, by simp⟩
    rcases mem_append.1 hmcp with h | h
    · exact hp mcp h
    · obtain rfl := mem_singleton.1 h
      exact ht
  | some l => exact ⟨cp, l, rfl, hp, by simpa using hlt l rfl⟩

theorem mysqlConnpoolFindOrCreate_free (h : mysqlConnpoolFindOrCreate cp t = .ok (cp', l)) :
    cp'.free = cp.free := by
  obtain ⟨r, -, hr⟩ := except_bind_eq_ok.1 h
  cases r with
  | none =>
    cases hr
    simp [MyConnPools.free]
  | some i =>
    cases hr
    rfl

theorem choosePool_ok (ht : t.Named) (hp : cp.Named) (hl : ∀ l, mcpRef = some l → l < cp.connpools.length) :
    ∃ cp' l, choosePool cp mcpRef t = .ok (cp', l) ∧ cp'.Named ∧ l < cp'.connpools.length := by
  cases mcpRef with
  | none => exact mysqlConnpoolFindOrCreate_ok ht hp
  | some l => exact ⟨cp, l, rfl, hp, hl l rfl⟩

theorem choosePool_free (h : choosePool cp mcpRef t = .ok (cp', l)) : cp'.free = cp.free := by
  cases mcpRef with
  | none => exact mysqlConnpoolFindOrCreate_free h
  | some i =>
    cases h
    rfl

theorem deref_eq_ok {o : Option α} {a : α} : deref o = .ok a ↔ o = some a := by
  cases o <;> simp [deref]

theorem free_modify (h : cp.connpools[l]? = some mcp) :
    ∃ before after, cp.free = before ++ mcp.freeConns ++ after ∧ ∀ free,
      MyConnPools.free { cp with
        connpools := cp.connpools.modify l fun mcp => { mcp with freeConns := free } }
        = before ++ free ++ after := by
  obtain ⟨hlt, rfl⟩ := List.getElem?_eq_some_iff.1 h
  have hsplit : cp.connpools
      = cp.connpools.take l ++ cp.connpools[l] :: cp.connpools.drop (l + 1) := by
    rw [← drop_eq_getElem_cons hlt, take_append_drop]
  refine ⟨(cp.connpools.take l).flatMap MysqlConnpool.freeConns,
    (cp.connpools.drop (l + 1)).flatMap MysqlConnpool.freeConns, ?_, fun free => ?_⟩
  · unfold MyConnPools.free
    conv_lhs => rw [hsplit]
    rw [flatMap_append, flatMap_cons, append_assoc]
  · unfold MyConnPools.free
    rw [modify_eq_take_cons_drop hlt]
    simp

theorem removeFirstFast_perm (x : α) (xs : List α) : (removeFirstFast (x :: xs)).Perm xs := by
  unfold removeFirstFast
  cases h : xs.getLast? with
  | none =>
    obtain rfl := getLast?_eq_none_iff.1 h
    exact List.Perm.refl _
  | some y =>
    obtain ⟨ys, rfl⟩ := getLast?_eq_some_iff.1 h
    simpa using (perm_append_singleton y ys).symm

/-! ## What is left alone -/

/-- What concerns neither servers nor connections: the configuration, the digest and the query cache. -/
def Shared.outside (sh : Shared) : Glovars × (List Byte → Str) × (Str → Option QcEntry) :=
  (sh.glovars, sh.md5, sh.qc)

/-- The configuration, the query cache, the servers and the time are the same. -/
structure ServersKept (sh sh' : Shared) : Prop where
  outside : sh'.outside = sh.outside
  servers : sh'.servers = sh.servers
  mysqlHostgroups : sh'.mysqlHostgroups = sh.mysqlHostgroups
  hostgroupArrays : sh'.hostgroupArrays = sh.hostgroupArrays
  nextMshge : sh'.nextMshge = sh.nextMshge
  gloconnpoolTv : sh'.gloconnpoolTv = sh.gloconnpoolTv
  msPtr : ∀ m, (sh'.mshges m).msPtr = (sh.mshges m).msPtr

theorem ServersKept.glovars (h : ServersKept sh sh') : sh'.glovars = sh.glovars :=
  congrArg Prod.fst h.outside

theorem ServersKept.refl (sh : Shared) : ServersKept sh sh := ⟨rfl, rfl, rfl, rfl, rfl, rfl, fun _ => rfl⟩

theorem ServersKept.trans (h : ServersKept sh sh') (h' : ServersKept sh' sh'') :
    ServersKept sh sh'' :=
  ⟨h'.outside.trans h.outside, h'.servers.trans h.servers,
    h'.mysqlHostgroups.trans h.mysqlHostgroups, h'.hostgroupArrays.trans h.hostgroupArrays,
    h'.nextMshge.trans h.nextMshge, h'.gloconnpoolTv.trans h.gloconnpoolTv,
    fun m => (h'.msPtr m).trans (h.msPtr m)⟩

/-- The part of a connection that taking it and giving it back leave alone. -/
def MysqlCpEntry.lasting (mc : MysqlCpEntry) : List Outstanding × Target × Bool × Bool :=
  (mc.pending, mc.target, mc.reusable, mc.prepared)

/-- No connection has another ledger, target or mark than before, and new ones have an empty
    ledger. -/
structure ConnsKept (sh sh' : Shared) : Prop where
  next : sh.nextConn ≤ sh'.nextConn
  lasting : ∀ d, d < sh.nextConn → (sh'.conns d).lasting = (sh.conns d).lasting
  fresh : ∀ d, sh.nextConn ≤ d → d < sh'.nextConn →
    (sh'.conns d).pending = [] ∧ (sh'.conns d).prepared = false

namespace ConnsKept

variable {sh sh' sh'' : Shared}

theorem pending (h : ConnsKept sh sh') (hd : d < sh.nextConn) :
    (sh'.conns d).pending = (sh.conns d).pending := congrArg (·.1) (h.lasting d hd)

theorem target (h : ConnsKept sh sh') (hd : d < sh.nextConn) :
    (sh'.conns d).target = (sh.conns d).target := congrArg (·.2.1) (h.lasting d hd)

theorem reusable (h : ConnsKept sh sh') (hd : d < sh.nextConn) :
    (sh'.conns d).reusable = (sh.conns d).reusable := congrArg (·.2.2.1) (h.lasting d hd)

theorem prepared (h : ConnsKept sh sh') (hd : d < sh.nextConn) :
    (sh'.conns d).prepared = (sh.conns d).prepared := congrArg (·.2.2.2) (h.lasting d hd)

theorem of_eq (hc : sh'.conns = sh.conns) (hn : sh'.nextConn = sh.nextConn) : ConnsKept sh sh' :=
  ⟨hn.ge, fun d _ => by rw [hc], fun d h h' => by omega⟩

theorem refl (sh : Shared) : ConnsKept sh sh := .of_eq rfl rfl

theorem trans (h : ConnsKept sh sh') (h' : ConnsKept sh' sh'') : ConnsKept sh sh'' := by
  have hnext := h.next
  refine ⟨Nat.le_trans h.next h'.next, fun d hd => ?_, fun d hd hd' => ?_⟩
  · exact (h'.lasting d (by omega)).trans (h.lasting d hd)
  · by_cases hlt : d < sh'.nextConn
    · obtain ⟨hpending, hprepared⟩ := h.fresh d hd hlt
      exact ⟨(h'.pending hlt).trans hpending, (h'.prepared hlt).trans hprepared⟩
    · exact h'.fresh d (by omega) hd'

end ConnsKept

theorem modifyConn_kept (sh : Shared) (c : Nat) {f : MysqlCpEntry → MysqlCpEntry}
    (hf : ∀ mc, (f mc).lasting = mc.lasting) : ConnsKept sh (sh.modifyConn c f) := by
  refine ⟨Nat.le_refl _, fun d _ => ?_, fun d h h' => ?_⟩
  · by_cases hd : d = c <;> simp [Shared.modifyConn, hd, hf]
  · exact absurd h' (by simp [Shared.modifyConn]; omega)

theorem closeExpired_kept (sh : Shared) (c : Nat) :
    ConnsKept sh (sh.closeExpiredMysqlConnection c) :=
  modifyConn_kept sh c fun _ => rfl

/-! ## Where connections are -/

/-- The connections that are free in a pool of the thread or of the process. -/
def Shared.free (sh : Shared) : List Nat := sh.thrMyconnpool.free ++ sh.gloconnpool.free

/-- How often a connection is in a free list, and how often it was closed. -/
def Shared.places (sh : Shared) (c : Nat) : Nat := sh.free.count c + (sh.conns c).closes

/-- Every connection that was opened is in one place: in use, where `held` are the ones in use, in a
    free list, or closed. -/
def Accounted (sh : Shared) (held : List Nat) : Prop :=
  ∀ c, held.count c + sh.places c = if c < sh.nextConn then 1 else 0

/-- No connection is lost or duplicated where `held` are in use before and `held'` after. -/
def Conserves (sh sh' : Shared) (held held' : List Nat) : Prop :=
  ∀ rest, Accounted sh (held ++ rest) → Accounted sh' (held' ++ rest)

theorem Conserves.refl (sh : Shared) (held : List Nat) : Conserves sh sh held held := fun _ h => h

theorem Conserves.trans {held held' held'' : List Nat}
    (h : Conserves sh sh' held held') (h' : Conserves sh' sh'' held' held'') :
    Conserves sh sh'' held held'' :=
  fun rest hacc => h' rest (h rest hacc)

theorem Conserves.of_places {held held' : List Nat} (hn : sh'.nextConn = sh.nextConn)
    (h : ∀ c, held'.count c + sh'.places c = held.count c + sh.places c) : Conserves sh sh' held held' := by
  intro rest hacc c
  have hc := hacc c
  have hplaces := h c
  rw [count_append] at hc ⊢
  rw [hn]
  omega

theorem Conserves.of_eq (held : List Nat) (hc : sh'.conns = sh.conns)
    (hn : sh'.nextConn = sh.nextConn) (hf : sh'.free = sh.free) : Conserves sh sh' held held := by
  refine .of_places hn fun c => ?_
  rw [Shared.places, Shared.places, hc, hf]

theorem Conserves.of_freed (hc : sh'.conns = sh.conns) (hn : sh'.nextConn = sh.nextConn)
    (hf : sh'.free.Perm (c :: sh.free)) : Conserves sh sh' [c] [] := by
  refine .of_places hn fun d => ?_
  have hcount : sh'.free.count d = [c].count d + sh.free.count d :=
    (hf.count_eq d).trans (@List.count_append _ _ d [c] sh.free)
  rw [Shared.places, Shared.places, hc, hcount, count_nil]
  omega

/-! ## Taking a connection -/

/-- What a round over the free connections of a pool leaves: other pools, the releases so far and
    the counters are the same, and what it takes or leaves was free before. -/
structure Took (sh sh' : Shared) (free free' : List Nat) (mycpe : Option Nat) : Prop where
  servers : ServersKept sh sh'
  conns : ConnsKept sh sh'
  pools : ∀ scope, sh'.pools scope = sh.pools scope
  released : sh'.released = sh.released
  nextConn : sh'.nextConn = sh.nextConn
  subperm : (mycpe.toList ++ free').Subperm free
  closes : ∀ c, (mycpe.toList ++ free').count c + (sh'.conns c).closes = free.count c + (sh.conns c).closes

theorem closeExpired_closes (sh : Shared) (c d : Nat) :
    ((sh.closeExpiredMysqlConnection c).conns d).closes = (sh.conns d).closes + [c].count d := by
  by_cases hd : d = c
  · simp [Shared.closeExpiredMysqlConnection, Shared.modifyConn, hd]
  · have hne : c ≠ d := fun h => hd h.symm
    simp [Shared.closeExpiredMysqlConnection, Shared.modifyConn, hd, hne]

theorem takeFree_took (n : Nat) (sh : Shared) (free : List Nat) :
    Took sh (takeFree n sh free).1 free (takeFree n sh free).2.1 (takeFree n sh free).2.2 := by
  have hstay : ∀ (sh : Shared) (free : List Nat), Took sh sh free free none := fun sh free =>
    ⟨.refl _, .refl _, fun _ => rfl, rfl, rfl, List.Subperm.refl _, fun _ => rfl⟩
  induction n generalizing sh free with
  | zero => exact hstay sh free
  | succ n ih =>
    cases free with
    | nil => exact hstay sh []
    | cons c rest =>
      rw [takeFree]
      have hperm := removeFirstFast_perm c rest
      split
      · -- the first connection has expired
        have hih := ih (sh.closeExpiredMysqlConnection c) (removeFirstFast (c :: rest))
        refine ⟨?_, (closeExpired_kept sh c).trans hih.conns, hih.pools, hih.released,
          hih.nextConn, ?_, fun d => ?_⟩
        · exact ⟨hih.servers.outside, hih.servers.servers, hih.servers.mysqlHostgroups,
            hih.servers.hostgroupArrays, hih.servers.nextMshge, hih.servers.gloconnpoolTv,
            hih.servers.msPtr⟩
        · exact (hih.subperm.trans hperm.subperm).trans (sublist_cons_self c rest).subperm
        · rw [hih.closes d, closeExpired_closes, hperm.count_eq]
          show _ = ([c] ++ rest).count d + _
          rw [count_append]
          omega
      · have hkept : ConnsKept sh (sh.modifyConn c fun mc =>
            { mc with expire := sh.gloconnpoolTv + sh.glovars.mysqlWaitTimeout }) :=
          modifyConn_kept sh c fun _ => rfl
        refine ⟨⟨rfl, rfl, rfl, rfl, rfl, rfl, fun _ => rfl⟩, hkept,
          fun scope => by cases scope <;> rfl, rfl, rfl, (hperm.cons c).subperm, fun d => ?_⟩
        have hcloses : ((sh.modifyConn c fun mc =>
            { mc with expire := sh.gloconnpoolTv + sh.glovars.mysqlWaitTimeout }).conns d).closes
            = (sh.conns d).closes := by
          by_cases hd : d = c <;> simp [Shared.modifyConn, hd]
        rw [hcloses]
        exact congrArg (· + (sh.conns d).closes) ((hperm.cons c).count_eq d)

/-- All pools have names. -/
def Shared.PoolsNamed (sh : Shared) : Prop := ∀ scope, (sh.pools scope).Named

/-- What taking a connection from the pools of one scope does. -/
structure TookFrom (sh sh' : Shared) (mycpe : Option Nat) : Prop where
  servers : ServersKept sh sh'
  conns : ConnsKept sh sh'
  released : sh'.released = sh.released
  nextConn : sh'.nextConn = sh.nextConn
  subperm : (mycpe.toList ++ sh'.free).Subperm sh.free
  places : ∀ c, mycpe.toList.count c + sh'.places c = sh.places c

theorem setPools_pools (sh : Shared) (scope : CpScope) (cp : MyConnPools) :
    (sh.setPools scope cp).pools scope = cp := by
  cases scope <;> rfl

theorem setPools_other (sh : Shared) {other : CpScope} (cp : MyConnPools) (h : other ≠ scope) :
    (sh.setPools scope cp).pools other = sh.pools other := by
  cases scope <;> cases other <;> first | rfl | exact absurd rfl h

theorem setFreeConns_eq (l : Nat) (free : List Nat) (h : sh.pools scope = cp) :
    sh.setFreeConns scope l free = sh.setPools scope { cp with
      connpools := cp.connpools.modify l fun mcp => { mcp with freeConns := free } } := by
  rw [Shared.setFreeConns, h]

theorem setPools_servers (sh : Shared) (scope : CpScope) (cp : MyConnPools) :
    ServersKept sh (sh.setPools scope cp) := by
  cases scope <;> exact ⟨rfl, rfl, rfl, rfl, rfl, rfl, fun _ => rfl⟩

theorem setPools_conns (sh : Shared) (scope : CpScope) (cp : MyConnPools) :
    (sh.setPools scope cp).conns = sh.conns ∧ (sh.setPools scope cp).nextConn = sh.nextConn ∧
      (sh.setPools scope cp).released = sh.released := by
  cases scope <;> exact ⟨rfl, rfl, rfl⟩

theorem setPools_free_subperm {xs : List Nat}
    (hother : ∀ other, other ≠ scope → sh'.pools other = sh.pools other)
    (h : (xs ++ cp.free).Subperm (sh.pools scope).free) :
    (xs ++ (sh'.setPools scope cp).free).Subperm sh.free := by
  cases scope with
  | ofThread =>
    have hglo : sh'.gloconnpool = sh.gloconnpool := hother .ofProcess (by decide)
    show (xs ++ (cp.free ++ sh'.gloconnpool.free)).Subperm (sh.thrMyconnpool.free ++ _)
    rw [hglo, ← append_assoc]
    exact (subperm_append_right _).2 h
  | ofProcess =>
    have hthr : sh'.thrMyconnpool = sh.thrMyconnpool := hother .ofThread (by decide)
    show (xs ++ (sh'.thrMyconnpool.free ++ cp.free)).Subperm (_ ++ sh.gloconnpool.free)
    rw [hthr]
    have hcomm : (xs ++ (sh.thrMyconnpool.free ++ cp.free)).Perm
        (sh.thrMyconnpool.free ++ (xs ++ cp.free)) := by
      rw [← append_assoc, ← append_assoc]
      exact perm_append_comm.append_right _
    exact hcomm.subperm.trans ((subperm_append_left _).2 h)

theorem setPools_free_count (c : Nat)
    (hother : ∀ other, other ≠ scope → sh'.pools other = sh.pools other) :
    (sh'.setPools scope cp).free.count c + (sh.pools scope).free.count c
      = sh.free.count c + cp.free.count c := by
  cases scope with
  | ofThread =>
    have hglo : sh'.gloconnpool = sh.gloconnpool := hother .ofProcess (by decide)
    show (cp.free ++ sh'.gloconnpool.free).count c + sh.thrMyconnpool.free.count c
      = (sh.thrMyconnpool.free ++ sh.gloconnpool.free).count c + cp.free.count c
    rw [hglo, count_append, count_append]
    omega
  | ofProcess =>
    have hthr : sh'.thrMyconnpool = sh.thrMyconnpool := hother .ofThread (by decide)
    show (sh'.thrMyconnpool.free ++ cp.free).count c + sh.gloconnpool.free.count c
      = (sh.thrMyconnpool.free ++ sh.gloconnpool.free).count c + cp.free.count c
    rw [hthr, count_append, count_append]
    omega

theorem getFromPools_took
    (h : getFromPools sh scope mcpRef t = .ok (sh', mcpRef', mycpe)) : TookFrom sh sh' mycpe := by
  unfold getFromPools at h
  split at h
  · obtain ⟨⟨cp, l⟩, hcp, h⟩ := except_bind_eq_ok.1 h
    obtain ⟨mcp, hmcp, h⟩ := except_bind_eq_ok.1 h
    obtain ⟨before, after, hbefore, hmodify⟩ := free_modify (deref_eq_ok.1 hmcp)
    have htook := takeFree_took mcp.freeConns.length (sh.setPools scope cp) mcp.freeConns
    generalize takeFree mcp.freeConns.length (sh.setPools scope cp) mcp.freeConns = r at h htook
    obtain ⟨rfl, rfl, rfl⟩ : r.1.setFreeConns scope l r.2.1 = sh' ∧ some l = mcpRef' ∧ r.2.2 = mycpe := by
      simpa [pure, Except.pure] using h
    have hpool : r.1.pools scope = cp := (htook.pools scope).trans (setPools_pools sh scope cp)
    rw [setFreeConns_eq l r.2.1 hpool]
    have hconns := setPools_conns sh scope cp
    have hconns' := setPools_conns r.1 scope { cp with
      connpools := cp.connpools.modify l fun mcp => { mcp with freeConns := r.2.1 } }
    have hother : ∀ other, other ≠ scope → r.1.pools other = sh.pools other := fun other hne => by
      rw [htook.pools other, setPools_other sh cp hne]
    refine ⟨?_, ?_, ?_, ?_, setPools_free_subperm hother ?_, fun c => ?_⟩
    · exact ((setPools_servers sh scope cp).trans htook.servers).trans (setPools_servers r.1 scope _)
    · exact ((ConnsKept.of_eq hconns.1 hconns.2.1).trans htook.conns).trans
        (.of_eq hconns'.1 hconns'.2.1)
    · rw [hconns'.2.2, htook.released, hconns.2.2]
    · rw [hconns'.2.1, htook.nextConn, hconns.2.1]
    · -- the pools of this scope: the taken connection and the rest were free in the pool used
      rw [hmodify, ← choosePool_free hcp, hbefore]
      have hcomm : (r.2.2.toList ++ (before ++ r.2.1 ++ after)).Perm
          (before ++ (r.2.2.toList ++ r.2.1) ++ after) := by
        rw [← append_assoc, ← append_assoc, ← append_assoc]
        exact (perm_append_comm.append_right _).append_right _
      refine hcomm.subperm.trans ((subperm_append_right _).2 ?_)
      exact (subperm_append_left _).2 htook.subperm
    · have hcount := @setPools_free_count scope sh r.1 { cp with
        connpools := cp.connpools.modify l fun mcp => { mcp with freeConns := r.2.1 } } c hother
      have hcloses := htook.closes c
      rw [hmodify, ← choosePool_free hcp, hbefore] at hcount
      simp only [count_append] at hcount hcloses
      rw [hconns.1] at hcloses
      rw [Shared.places, Shared.places, hconns'.1]
      omega
  · cases h
    exact ⟨.refl _, .refl _, rfl, rfl, List.Subperm.refl _, fun _ => by simp⟩

/-- What `mysql_connpool_get_connection` does: the connection, if any, was free or is new. -/
structure Got (sh sh' : Shared) (mycpe : Option Nat) : Prop where
  servers : ServersKept sh sh'
  conns : ConnsKept sh sh'
  released : sh'.released = sh.released
  free : sh'.free.Subperm sh.free
  origin : ∀ c, mycpe = some c → (c :: sh'.free).Subperm sh.free ∨
    (c = sh.nextConn ∧ c < sh'.nextConn)
  conserves : Conserves sh sh' [] mycpe.toList

theorem TookFrom.free (h : TookFrom sh sh' mycpe) : sh'.free.Subperm sh.free :=
  (sublist_append_right _ _).subperm.trans h.subperm

theorem TookFrom.conserves (h : TookFrom sh sh' mycpe) : Conserves sh sh' [] mycpe.toList := by
  refine .of_places h.nextConn fun c => ?_
  rw [h.places c]
  simp

theorem TookFrom.got (h : TookFrom sh sh' mycpe) : Got sh sh' mycpe := by
  refine ⟨h.servers, h.conns, h.released, h.free, fun c hc => .inl ?_, h.conserves⟩
  have hsub := h.subperm
  rw [hc] at hsub
  exact hsub

theorem TookFrom.trans_got (h : TookFrom sh sh' none) (h' : Got sh' sh'' mycpe) :
    Got sh sh'' mycpe := by
  refine ⟨h.servers.trans h'.servers, h.conns.trans h'.conns, h'.released.trans h.released,
    h'.free.trans h.free, fun c hc => ?_, h.conserves.trans h'.conserves⟩
  rcases h'.origin c hc with hfree | hnew
  · exact .inl (hfree.trans h.free)
  · rw [h.nextConn] at hnew
    exact .inr hnew

theorem createNewMysqlConnection_got (sh : Shared) (t : Target) (connect : Option Int) :
    Got sh (createNewMysqlConnection sh t connect).1 (createNewMysqlConnection sh t connect).2 := by
  cases connect with
  | none => exact ⟨.refl _, .refl _, rfl, List.Subperm.refl _, (fun c hc => nomatch hc), .refl _ _⟩
  | some fd =>
    have hne : ∀ d, d < sh.nextConn → d ≠ sh.nextConn := fun d hd => by omega
    refine ⟨⟨rfl, rfl, rfl, rfl, rfl, rfl, fun _ => rfl⟩, ?_, rfl, List.Subperm.refl _,
      fun c hc => .inr ?_, ?_⟩
    · refine ⟨Nat.le_succ _, fun d hd => ?_, fun d hd hd' => ?_⟩
      · simp [createNewMysqlConnection, Shared.modifyConn, hne d hd]
      · obtain rfl : d = sh.nextConn := by
          simp only [createNewMysqlConnection] at hd'
          omega
        simp [createNewMysqlConnection, Shared.modifyConn]
    · cases hc
      exact ⟨rfl, Nat.lt_succ_self _⟩
    · -- the new connection was nowhere before
      intro rest hacc d
      have hd := hacc d
      show ([sh.nextConn] ++ rest).count d + (sh.free.count d + _) = if d < sh.nextConn + 1 then 1 else 0
      rw [nil_append, Shared.places] at hd
      by_cases hnew : d = sh.nextConn
      · subst hnew
        simp only [Nat.lt_irrefl, if_false] at hd
        simp [createNewMysqlConnection, Shared.modifyConn]
        omega
      · have hlt : d < sh.nextConn + 1 ↔ d < sh.nextConn := by omega
        have hne' : sh.nextConn ≠ d := fun h => hnew h.symm
        simp [createNewMysqlConnection, Shared.modifyConn, hnew, hlt, hne', hd]

theorem mysqlConnpoolGetConnection_got
    (h : mysqlConnpoolGetConnection sh mcpRef t connect = .ok (sh', mcpRef', mycpe)) :
    Got sh sh' mycpe := by
  obtain ⟨⟨sh1, ref1, mycpe1⟩, h1, h⟩ := except_bind_eq_ok.1 h
  have hthread := getFromPools_took h1
  cases mycpe1 with
  | some c =>
    cases h
    exact hthread.got
  | none =>
    obtain ⟨⟨sh2, ref2, mycpe2⟩, h2, h⟩ := except_bind_eq_ok.1 h
    have hprocess := getFromPools_took h2
    cases mycpe2 with
    | some c =>
      cases h
      exact hthread.trans_got hprocess.got
    | none =>
      cases h
      exact hthread.trans_got (hprocess.trans_got (createNewMysqlConnection_got sh2 t connect))

/-! ## Giving a connection back -/

/-- A connection that is given back at the time `now` enters a pool. -/
structure Poolable (sh : Shared) (c now : Nat) (forceClose : Bool) : Prop where
  enabled : sh.thrMyconnpool.enabled = true
  reusable : (sh.conns c).reusable = true
  notForced : forceClose = false
  notExpired : now < (sh.conns c).expire

/-- Nothing that `Poolable` looks at has changed. -/
structure PoolingKept (sh sh' : Shared) : Prop where
  enabled : sh'.thrMyconnpool.enabled = sh.thrMyconnpool.enabled
  reusable : ∀ d, (sh'.conns d).reusable = (sh.conns d).reusable
  expire : ∀ d, (sh'.conns d).expire = (sh.conns d).expire

theorem PoolingKept.trans (h : PoolingKept sh sh') (h' : PoolingKept sh' sh'') :
    PoolingKept sh sh'' :=
  ⟨h'.enabled.trans h.enabled, fun d => (h'.reusable d).trans (h.reusable d),
    fun d => (h'.expire d).trans (h.expire d)⟩

theorem Poolable.of_kept (h : Poolable sh' c now fc) (hk : PoolingKept sh sh') :
    Poolable sh c now fc :=
  ⟨hk.enabled ▸ h.enabled, hk.reusable c ▸ h.reusable, h.notForced, hk.expire c ▸ h.notExpired⟩

theorem closeExpired_pooling (sh : Shared) (c : Nat) :
    PoolingKept sh (sh.closeExpiredMysqlConnection c) := by
  refine ⟨rfl, fun d => ?_, fun d => ?_⟩
  · by_cases hd : d = c <;> simp [Shared.closeExpiredMysqlConnection, Shared.modifyConn, hd]
  · by_cases hd : d = c <;> simp [Shared.closeExpiredMysqlConnection, Shared.modifyConn, hd]

/-- What `mysql_connpool_detach_connection` does: the connection is closed, or it enters a free
    list. -/
structure Detached (sh sh' : Shared) (c now : Nat) (forceClose inTrans : Bool) : Prop where
  servers : ServersKept sh sh'
  conns : ConnsKept sh sh'
  pooling : PoolingKept sh sh'
  nextConn : sh'.nextConn = sh.nextConn
  cases : (sh'.free = sh.free ∧ sh'.released = sh.released) ∨
    (Poolable sh c now forceClose ∧ sh'.free.Perm (c :: sh.free) ∧
      sh'.released = sh.released ++ [{ conn := c, activeTransaction := inTrans }])
  conserves : Conserves sh sh' [c] []

theorem closeExpired_conserves (sh : Shared) (c : Nat) :
    Conserves sh (sh.closeExpiredMysqlConnection c) [c] [] := by
  refine .of_places rfl fun d => ?_
  show 0 + (sh.free.count d + _) = _ + (sh.free.count d + _)
  rw [closeExpired_closes]
  omega

theorem closeExpired_detached (hs : ServersKept sh sh')
    (hc : sh'.conns = sh.conns) (hp : PoolingKept sh sh') (hn : sh'.nextConn = sh.nextConn)
    (hf : sh'.free = sh.free) (hr : sh'.released = sh.released) :
    Detached sh (sh'.closeExpiredMysqlConnection c) c now fc inTrans :=
  ⟨hs.trans ⟨rfl, rfl, rfl, rfl, rfl, rfl, fun _ => rfl⟩,
    (ConnsKept.of_eq hc hn).trans (closeExpired_kept sh' c), hp.trans (closeExpired_pooling sh' c), hn,
    .inl ⟨hf, hr⟩, (Conserves.of_eq [c] hc hn hf).trans (closeExpired_conserves sh' c)⟩

theorem choosePool_enabled (h : choosePool cp mcpRef t = .ok (cp', l)) : cp'.enabled = cp.enabled := by
  unfold choosePool at h
  split at h
  · cases h
    rfl
  · obtain ⟨found, -, h⟩ := except_bind_eq_ok.1 h
    cases found with
    | some k =>
      cases h
      rfl
    | none =>
      cases h
      rfl

theorem mysqlConnpoolDetachConnection_detached
    (h : mysqlConnpoolDetachConnection sh mcpRef c fc now inTrans = .ok sh') :
    Detached sh sh' c now fc inTrans := by
  have hclose := @closeExpired_detached c now fc sh sh inTrans (.refl _) rfl
    ⟨rfl, fun _ => rfl, fun _ => rfl⟩ rfl rfl rfl
  unfold mysqlConnpoolDetachConnection at h
  split at h
  · cases h
    exact hclose
  · next henabled =>
    split at h
    · cases h
      exact hclose
    · split at h
      · cases h
        exact hclose
      · next hreusable hfc =>
        obtain ⟨⟨cp, l⟩, hcp, h⟩ := except_bind_eq_ok.1 h
        have hfree : cp.free = sh.thrMyconnpool.free := choosePool_free hcp
        have hen : cp.enabled = sh.thrMyconnpool.enabled := choosePool_enabled hcp
        dsimp only at h
        split at h
        · cases h
          refine closeExpired_detached ⟨rfl, rfl, rfl, rfl, rfl, rfl, fun _ => rfl⟩ rfl
            ⟨hen, fun _ => rfl, fun _ => rfl⟩ rfl ?_ rfl
          show cp.free ++ sh.gloconnpool.free = sh.thrMyconnpool.free ++ sh.gloconnpool.free
          rw [hfree]
        · -- the connection is added at the end of the free list of its pool
          next hexpire =>
          obtain ⟨mcp, hmcp, h⟩ := except_bind_eq_ok.1 h
          cases h
          obtain ⟨before, after, hbefore, hmodify⟩ := free_modify (deref_eq_ok.1 hmcp)
          have hperm : (MyConnPools.free { cp with connpools := cp.connpools.modify l fun m =>
              { m with freeConns := mcp.freeConns ++ [c] } } ++ sh.gloconnpool.free).Perm
              (c :: (sh.thrMyconnpool.free ++ sh.gloconnpool.free)) := by
            rw [hmodify, ← hfree, hbefore, ← cons_append]
            refine List.Perm.append_right _ ?_
            rw [← append_assoc, append_assoc _ [c], singleton_append]
            exact perm_middle
          refine ⟨⟨rfl, rfl, rfl, rfl, rfl, rfl, fun _ => rfl⟩, .of_eq rfl rfl,
            ⟨hen, fun _ => rfl, fun _ => rfl⟩, rfl, Or.inr ⟨⟨?_, ?_, ?_, ?_⟩, hperm, rfl⟩,
            .of_freed rfl rfl hperm⟩
          · simpa using henabled
          · simpa using hreusable
          · simpa using hfc
          · exact Nat.lt_of_not_le hexpire

/-! ## Searches return -/

/-- The pools have names, and `mcp_ref` points to one of the thread's, if it points anywhere. -/
structure PoolsOk (sh : Shared) (mcpRef : Option Nat) : Prop where
  named : sh.PoolsNamed
  ref : ∀ l, mcpRef = some l → l < sh.thrMyconnpool.connpools.length

theorem PoolsNamed.setPools (h : sh.PoolsNamed) (hcp : cp.Named) :
    (sh.setPools scope cp).PoolsNamed := by
  intro other
  cases scope <;> cases other
  · exact hcp
  · exact h .ofThread
  · exact h .ofProcess
  · exact hcp

theorem PoolsNamed.of_eq (h : sh.PoolsNamed)
    (hthr : sh'.thrMyconnpool = sh.thrMyconnpool) (hglo : sh'.gloconnpool = sh.gloconnpool) :
    sh'.PoolsNamed := by
  intro scope
  cases scope with
  | ofProcess =>
    rw [Shared.pools, hglo]
    exact h .ofProcess
  | ofThread =>
    rw [Shared.pools, hthr]
    exact h .ofThread

theorem named_modify (l : Nat) (free : List Nat) (h : cp.Named) :
    MyConnPools.Named { cp with
      connpools := cp.connpools.modify l fun mcp => { mcp with freeConns := free } } := by
  intro mcp hmcp
  obtain ⟨i, hi⟩ := mem_iff_getElem?.1 hmcp
  rw [getElem?_modify] at hi
  obtain ⟨old, hold, rfl⟩ := map_eq_some_iff.1 hi
  have hnamed := h old (mem_of_getElem? hold)
  split
  · exact hnamed
  · exact hnamed

theorem mysqlConnpoolDetachConnection_ok (fc : Bool) (now : Nat) (inTrans : Bool)
    (ht : (sh.conns c).target.Named) (hp : PoolsOk sh mcpRef) :
    ∃ sh', mysqlConnpoolDetachConnection sh mcpRef c fc now inTrans = .ok sh' ∧ sh'.PoolsNamed := by
  have hclose : ∀ sh : Shared, sh.PoolsNamed → (sh.closeExpiredMysqlConnection c).PoolsNamed :=
    fun sh h => PoolsNamed.of_eq h rfl rfl
  unfold mysqlConnpoolDetachConnection
  split
  · exact ⟨_, rfl, hclose sh hp.named⟩
  · split
    · exact ⟨_, rfl, hclose sh hp.named⟩
    · split
      · exact ⟨_, rfl, hclose sh hp.named⟩
      · obtain ⟨cp, l, hcp, hnamed, hlt⟩ := choosePool_ok ht (hp.named .ofThread) hp.ref
        have hmcp : deref cp.connpools[l]? = .ok cp.connpools[l] := by
          rw [getElem?_eq_getElem hlt]
          rfl
        have hset : (sh.setPools .ofThread cp).PoolsNamed := PoolsNamed.setPools hp.named hnamed
        simp only [show choosePool sh.thrMyconnpool mcpRef (sh.conns c).target = .ok (cp, l) from hcp, hmcp,
          bind, Except.bind, pure, Except.pure]
        split
        · exact ⟨_, rfl, hclose _ hset⟩
        · refine ⟨_, rfl, fun scope => ?_⟩
          have hfree := @PoolsNamed.setPools .ofThread _ _ hset
            (named_modify l (cp.connpools[l].freeConns ++ [c]) hnamed)
          cases scope
          · exact hfree .ofProcess
          · exact hfree .ofThread

/-! ## What the pools have no part in -/

/-- The configuration, the tables that route commands, and the hostgroups with their entries. -/
def Shared.unpooled (sh : Shared) :
    Glovars × DefHG × List QueryRule × (Nat → Mshge) × (Nat → List Nat) × List Nat × Nat :=
  (sh.glovars, sh.gloDefHG, sh.queryRules, sh.mshges, sh.hostgroupArrays, sh.mysqlHostgroups, sh.nextMshge)

section Unpooled

variable {sh sh' : Shared}

@[simp] theorem setPools_unpooled (sh : Shared) (scope : CpScope) (cp : MyConnPools) :
    (sh.setPools scope cp).unpooled = sh.unpooled := by
  cases scope with
  | ofProcess => rfl
  | ofThread => rfl

@[simp] theorem setFreeConns_unpooled (sh : Shared) (scope : CpScope) (l : Nat) (free : List Nat) :
    (sh.setFreeConns scope l free).unpooled = sh.unpooled := setPools_unpooled ..

theorem takeFree_unpooled (n : Nat) (sh : Shared) (free : List Nat) :
    (takeFree n sh free).1.unpooled = sh.unpooled := by
  induction n generalizing sh free with
  | zero => rfl
  | succ n ih =>
    cases free with
    | nil => rfl
    | cons c rest =>
      rw [takeFree]
      split
      · exact ih ..
      · rfl

theorem getFromPools_unpooled {scope : CpScope} {mcpRef mycpe : Option Nat} {t : Target}
    (h : getFromPools sh scope mcpRef t = .ok (sh', mcpRef', mycpe)) : sh'.unpooled = sh.unpooled := by
  unfold getFromPools at h
  split at h
  · obtain ⟨⟨cp, l⟩, -, h⟩ := except_bind_eq_ok.1 h
    obtain ⟨mcp, -, h⟩ := except_bind_eq_ok.1 h
    obtain rfl := congrArg Prod.fst (Except.ok.inj h)
    rw [setFreeConns_unpooled, takeFree_unpooled, setPools_unpooled]
  · obtain rfl := congrArg Prod.fst (Except.ok.inj h)
    rfl

theorem createNewMysqlConnection_unpooled (sh : Shared) (t : Target) (connect : Option Int) :
    (createNewMysqlConnection sh t connect).1.unpooled = sh.unpooled := by
  cases connect with
  | none => rfl
  | some fd => rfl

theorem getConnection_unpooled {mcpRef mycpe : Option Nat} {t : Target}
    (h : mysqlConnpoolGetConnection sh mcpRef t connect = .ok (sh', mcpRef', mycpe)) :
    sh'.unpooled = sh.unpooled := by
  obtain ⟨⟨sh1, ref1, mycpe1⟩, h1, h⟩ := except_bind_eq_ok.1 h
  have hsame1 := getFromPools_unpooled h1
  cases mycpe1 with
  | some c =>
    obtain rfl := congrArg Prod.fst (Except.ok.inj h)
    exact hsame1
  | none =>
    obtain ⟨⟨sh2, ref2, mycpe2⟩, h2, h⟩ := except_bind_eq_ok.1 h
    have hsame2 := (getFromPools_unpooled h2).trans hsame1
    cases mycpe2 with
    | some c =>
      obtain rfl := congrArg Prod.fst (Except.ok.inj h)
      exact hsame2
    | none =>
      obtain rfl := congrArg Prod.fst (Except.ok.inj h)
      exact (createNewMysqlConnection_unpooled sh2 t connect).trans hsame2

theorem detachConnection_unpooled {mcpRef : Option Nat} {c now : Nat} {fc : Bool}
    (h : mysqlConnpoolDetachConnection sh mcpRef c fc now inTrans = .ok sh') :
    sh'.unpooled = sh.unpooled := by
  unfold mysqlConnpoolDetachConnection at h
  split at h
  · cases h
    rfl
  · split at h
    · cases h
      rfl
    · split at h
      · cases h
        rfl
      · obtain ⟨⟨cp, l⟩, -, h⟩ := except_bind_eq_ok.1 h
        dsimp only at h
        split at h
        · cases h
          rfl
        · obtain ⟨mcp, -, h⟩ := except_bind_eq_ok.1 h
          cases h
          rfl

end Unpooled

end ProxySQL
