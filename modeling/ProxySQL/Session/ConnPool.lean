/-
  ProxySQL.Session.ConnPool

  The connection pools (`mysql_connpool.c`): a pool per target in the thread's
  own list and in the global list, each with the connections that are free.

  A connection is taken with `mysqlConnpoolGetConnection`, which opens a new one
  when no pool has a free one, and given back with
  `mysqlConnpoolDetachConnection`, which closes it or adds it to the pool of its
  target.
-/
import ProxySQL.Session.State

namespace ProxySQL

open Lib

/-- The five arguments that name the target of a connection. -/
structure Target where
  hostname : Option Str
  username : Option Str
  password : Option Str
  db : Option Str
  port : Nat

/-- `MYSQL_CONNPOOL_GLOBAL` and `MYSQL_CONNPOOL_LOCAL`. -/
inductive CpScope where
  | ofProcess
  | ofThread
deriving DecidableEq

namespace Shared

def pools (sh : Shared) : CpScope → MyConnPools
  | .ofProcess => sh.gloconnpool
  | .ofThread => sh.thrMyconnpool

def setPools (sh : Shared) : CpScope → MyConnPools → Shared
  | .ofProcess, cp => { sh with gloconnpool := cp }
  | .ofThread, cp => { sh with thrMyconnpool := cp }

def modifyConn (sh : Shared) (c : Nat) (f : MysqlCpEntry → MysqlCpEntry) : Shared :=
  { sh with conns := fun d => if d = c then f (sh.conns c) else sh.conns d }

def modifyMshge (sh : Shared) (m : Nat) (f : Mshge → Mshge) : Shared :=
  { sh with mshges := fun n => if n = m then f (sh.mshges m) else sh.mshges n }

/-- `close_expired_mysql_connection`. -/
def closeExpiredMysqlConnection (sh : Shared) (c : Nat) : Shared :=
  sh.modifyConn c fun mc => { mc with closes := mc.closes + 1 }

/-- Where the free connections of pool `l` are replaced. -/
def setFreeConns (sh : Shared) (scope : CpScope) (l : Nat) (free : List Nat) : Shared :=
  let cp := sh.pools scope
  sh.setPools scope
    { cp with connpools := cp.connpools.modify l fun mcp => { mcp with freeConns := free } }

end Shared

/-- `g_ptr_array_remove_index_fast(a, 0)`: the last element takes the place of the first. -/
def removeFirstFast {α : Type} : List α → List α
  | [] => []
  | _ :: rest =>
      match rest.getLast? with
      | none => []
      | some x => x :: rest.dropLast

/-- `x && y`, where `y` is evaluated only if `x` holds. -/
def andThen (x y : Except Fault Bool) : Except Fault Bool := do
  if ← x then y else return false

/-- The comparison of `mysql_connpool_find`. -/
def MysqlConnpool.isFor (mcp : MysqlConnpool) (t : Target) : Except Fault Bool :=
  andThen (strEq t.hostname mcp.hostname) <|
  andThen (strEq t.username mcp.username) <|
  andThen (strEq t.password mcp.password) <|
  andThen (strEq t.db mcp.db) <|
  .ok (t.port == mcp.port)

/-- `mysql_connpool_find`, from index `l` on. -/
def mysqlConnpoolFind (t : Target) : List MysqlConnpool → Nat → Except Fault (Option Nat)
  | [], _ => .ok none
  | mcp :: rest, l =>
      if t.db = none ∨ mcp.db = none then .ok none
      else do
        if ← mcp.isFor t then return some l
        else mysqlConnpoolFind t rest (l + 1)

/-- `mysql_connpool_create`. -/
def mysqlConnpoolCreate (cp : MyConnPools) (t : Target) : MyConnPools × Nat :=
  ({ cp with
      connpools := cp.connpools ++
        [{ hostname := t.hostname, username := t.username, password := t.password, db := t.db,
           port := t.port, freeConns := [] }] },
    cp.connpools.length)

/-- `mysql_connpool_find_or_create`. -/
def mysqlConnpoolFindOrCreate (cp : MyConnPools) (t : Target) : Except Fault (MyConnPools × Nat) := do
  match ← mysqlConnpoolFind t cp.connpools 0 with
  | some l => return (cp, l)
  | none => return mysqlConnpoolCreate cp t

/-- The pool that `mcp_ref` points to, or else the one for the target. -/
def choosePool (cp : MyConnPools) (mcpRef : Option Nat) (t : Target) :
    Except Fault (MyConnPools × Nat) :=
  match mcpRef with
  | some l => .ok (cp, l)
  | none => mysqlConnpoolFindOrCreate cp t

/-- The loop over `free_conns`: expired connections are closed, the first other one is taken.
    Every round shortens the array. -/
def takeFree : Nat → Shared → List Nat → Shared × List Nat × Option Nat
  | n + 1, sh, c :: rest =>
      let free := removeFirstFast (c :: rest)
      if (sh.conns c).expire ≤ sh.gloconnpoolTv then
        takeFree n (sh.closeExpiredMysqlConnection c) free
      else
        (sh.modifyConn c fun mc => { mc with expire := sh.gloconnpoolTv + sh.glovars.mysqlWaitTimeout },
          free, some c)
  | _, sh, free => (sh, free, none)

/-- The part of `mysql_connpool_get_connection` that looks into the pools of one scope.  The pool
    used is returned. -/
def getFromPools (sh : Shared) (scope : CpScope) (mcpRef : Option Nat) (t : Target) :
    Except Fault (Shared × Option Nat × Option Nat) := do
  if (sh.pools scope).enabled then
    let (cp, l) ← choosePool (sh.pools scope) mcpRef t
    let mcp ← deref cp.connpools[l]?
    let (sh, free, mycpe) := takeFree mcp.freeConns.length (sh.setPools scope cp) mcp.freeConns
    return (sh.setFreeConns scope l free, some l, mycpe)
  else return (sh, mcpRef, none)

/-- `create_new_mysql_connection`, with the descriptor that `mysql_real_connect` opened. -/
def createNewMysqlConnection (sh : Shared) (t : Target) : Option Int → Shared × Option Nat
  | none => (sh, none)
  | some fd =>
      let c := sh.nextConn
      ({ sh.modifyConn c fun _ =>
          { host := t.hostname, user := t.username, passwd := t.password, db := t.db, port := t.port,
            fd := fd, expire := sh.gloconnpoolTv + sh.glovars.mysqlWaitTimeout, reusable := true,
            closes := 0, prepared := false, pending := [] } with nextConn := c + 1 }, some c)

/-- `mysql_connpool_get_connection(MYSQL_CONNPOOL_LOCAL, mcp_ref, …)`: the thread's pools, then the
    global ones, then a new connection. -/
def mysqlConnpoolGetConnection (sh : Shared) (mcpRef : Option Nat) (t : Target)
    (connect : Option Int) : Except Fault (Shared × Option Nat × Option Nat) := do
  let (sh, mcpRef, mycpe) ← getFromPools sh .ofThread mcpRef t
  match mycpe with
  | some c => return (sh, mcpRef, some c)
  | none =>
      let (sh, _, mycpe) ← getFromPools sh .ofProcess none t
      match mycpe with
      | some c => return (sh, mcpRef, some c)
      | none =>
          let (sh, mycpe) := createNewMysqlConnection sh t connect
          return (sh, mcpRef, mycpe)

/-- The target a connection was opened for. -/
def MysqlCpEntry.target (mc : MysqlCpEntry) : Target :=
  { hostname := mc.host, username := mc.user, password := mc.passwd, db := mc.db, port := mc.port }

/-- `mysql_connpool_detach_connection(MYSQL_CONNPOOL_LOCAL, mcp_ref, mc, force_close)`; `now` is the
    time of `gettimeofday`, `inTrans` the transaction flag of the backend that gives `c` back. -/
def mysqlConnpoolDetachConnection (sh : Shared) (mcpRef : Option Nat) (c : Nat) (forceClose : Bool)
    (now : Nat) (inTrans : Bool) : Except Fault Shared := do
  if sh.thrMyconnpool.enabled = false then return sh.closeExpiredMysqlConnection c
  else if (sh.conns c).reusable = false then return sh.closeExpiredMysqlConnection c
  else if forceClose then return sh.closeExpiredMysqlConnection c
  else
    let (cp, l) ← choosePool sh.thrMyconnpool mcpRef (sh.conns c).target
    let sh := sh.setPools .ofThread cp
    if (sh.conns c).expire ≤ now then return sh.closeExpiredMysqlConnection c
    else
      let mcp ← deref cp.connpools[l]?
      let sh := sh.setFreeConns .ofThread l (mcp.freeConns ++ [c])
      return { sh with released := sh.released ++ [{ conn := c, activeTransaction := inTrans }] }

end ProxySQL
