/-
  ProxySQL.Session.Backend

  The backends of a session (`mysql_backend.c`) and how they get a server and a
  connection (`mysql_handler.c`).

  A backend gives its connection back in two ways: `backendDetach` keeps the
  server and the data stream, `backendReset` drops both first.
-/
import ProxySQL.Session.ConnPool

namespace ProxySQL

open Lib

/-! ## Giving back -/

/-- `server_myds->active_transaction`. -/
def MysqlBackend.inTransaction (mybe : MysqlBackend) : Bool :=
  match mybe.serverMyds with
  | none => false
  | some myds => myds.activeTransaction

/-- `backend_reset_server_mycpe`; `mcp` is the backend's own `last_mysql_connpool`. -/
def backendResetServerMycpe (sh : Shared) (mybe : MysqlBackend) (fc : Bool) (now : Nat → Nat)
    (inTrans : Bool) : Except Fault (Shared × MysqlBackend) := do
  match mybe.serverMycpe with
  | none => return (sh, mybe)
  | some c =>
      let sh ← mysqlConnpoolDetachConnection sh mybe.lastMysqlConnpool c fc (now c) inTrans
      return (sh, { mybe with serverMycpe := none })

/-- `backend_detach`. -/
def backendDetach (sh : Shared) (mybe : MysqlBackend) (fc : Bool) (now : Nat → Nat) :
    Except Fault (Shared × MysqlBackend) :=
  let mybe := { mybe with lastMysqlConnpool := none }
  match mybe.serverMycpe with
  | none => .ok (sh, mybe)
  | some c =>
      if (sh.conns c).reusable then backendResetServerMycpe sh mybe fc now mybe.inTransaction
      else .ok (sh, mybe)

/-- `backend_reset_server_myds`: whether the stream was inactive. -/
def MysqlBackend.mydsInactive (mybe : MysqlBackend) : Bool :=
  match mybe.serverMyds with
  | none => false
  | some myds => !myds.active

/-- The count of active connections that `backend_reset` takes back. -/
def dropActive (sh : Shared) (mshge : Option Nat) : Shared :=
  match mshge with
  | none => sh
  | some m =>
      if (sh.mshges m).msPtr = none then sh
      else sh.modifyMshge m fun e => { e with connectionsActive := e.connectionsActive - 1 }

/-- `backend_reset`. -/
def backendReset (sh : Shared) (mybe : MysqlBackend) (forceClose : Bool) (now : Nat → Nat) :
    Except Fault (Shared × MysqlBackend) :=
  let sh := dropActive sh mybe.mshge
  let fc := forceClose || mybe.mydsInactive
  let inTrans := mybe.inTransaction
  let mybe := { mybe with fd := 0, lastMysqlConnpool := none, mshge := none, serverMyds := none }
  backendResetServerMycpe sh mybe fc now inTrans

/-! ## Loading servers -/

/-- A row of the join of `hostgroups` and `servers`. -/
structure ServerRow where
  hostgroupId : Nat
  address : Str
  port : Nat
  readOnly : Int
  status : MysqlServerStatus

/-- `find_server_ptr`. -/
def findServerPtr (servers : List MysqlServer) (address : Str) (port : Nat) : Option Nat :=
  servers.findIdx? fun ms => ms.port == port && ms.address == address

/-- `mysql_server_entry_add_hostgroup`. -/
def mysqlServerEntryAddHostgroup (sh : Shared) (i hostgroupId : Nat) : Shared :=
  if hostgroupId ≥ sh.glovars.mysqlHostgroups then sh
  else
    match sh.mysqlHostgroups[hostgroupId]? with
    | none => sh
    | some hg =>
        let m := sh.nextMshge
        let entry := { msPtr := some i, connectionsCreated := 0, connectionsActive := 0, freed := false }
        { sh with
          mshges := fun n => if n = m then entry else sh.mshges n,
          nextMshge := m + 1,
          hostgroupArrays := fun a =>
            if a = hg then sh.hostgroupArrays hg ++ [m] else sh.hostgroupArrays a }

/-- The array of hostgroup `i` is emptied, and added to the list of arrays once more. -/
def resetHostgroup (sh : Shared) (i : Nat) : Shared :=
  match sh.mysqlHostgroups[i]? with
  | none => sh
  | some hg =>
      { sh with
        mshges := fun m =>
          if m ∈ sh.hostgroupArrays hg then { sh.mshges m with freed := true } else sh.mshges m,
        hostgroupArrays := fun a => if a = hg then [] else sh.hostgroupArrays a,
        mysqlHostgroups := sh.mysqlHostgroups ++ [hg] }

/-- A row is added to the servers, or updates one; online servers enter their hostgroup. -/
def loadServer (sh : Shared) (row : ServerRow) : Shared :=
  let ms : MysqlServer :=
    { address := row.address, port := row.port, readOnly := row.readOnly, status := row.status }
  let i := (findServerPtr sh.servers row.address row.port).getD sh.servers.length
  let sh :=
    if i < sh.servers.length then { sh with servers := sh.servers.set i ms }
    else { sh with servers := sh.servers ++ [ms] }
  if row.status = .online then mysqlServerEntryAddHostgroup sh i row.hostgroupId else sh

/-- `sqlite3_flush_servers_db_to_mem`, with the rows of its query. -/
def flushServersDbToMem (sh : Shared) (rows : List ServerRow) : Shared :=
  rows.foldl loadServer ((List.range sh.glovars.mysqlHostgroups).foldl resetHostgroup sh)

/-! ## Finding a server -/

/-- `mysql_server_random_entry_from_hostgroup__nolock`, with the result of `rand()`. -/
def mysqlServerRandomEntryFromHostgroup (sh : Shared) (hostgroupId : Nat) (rand : Nat) :
    Except Fault (Option Nat) := do
  if hostgroupId < sh.glovars.mysqlHostgroups then
    match sh.mysqlHostgroups[hostgroupId]? with
    | none => .error .outOfBounds
    | some hg =>
        let entries := sh.hostgroupArrays hg
        if entries.length = 0 then return none
        else return entries[rand % entries.length]?
  else .error .assertion

/-- The backend's own entry, or else a random one of the hostgroup. -/
def chooseEntry (sh : Shared) (mshge : Option Nat) (hostgroupId : Nat) (rand : Nat) :
    Except Fault (Option Nat) :=
  match mshge with
  | some m => .ok (some m)
  | none => mysqlServerRandomEntryFromHostgroup sh hostgroupId rand

/-- The server a hostgroup entry points to. -/
def Shared.msPtr (sh : Shared) (m : Nat) : Except Fault MysqlServer := do
  let i ← deref (sh.mshges m).msPtr
  deref sh.servers[i]?

/-- The user, password and schema a session connects with. -/
structure Credentials where
  username : Option Str
  password : Option Str
  schema : Option Str

/-- The return values 0, -1 and 1 of `mysql_session_create_backend_for_hostgroup`. -/
inductive CreateResult where
  | noServer
  | failed
  | created
deriving DecidableEq

/-- What happens while a connection is sought, for each attempt: `rand()`, the descriptor that
    `mysql_real_connect` opens, if it does, and the rows that FLUSH HOSTGROUPS loads meanwhile, if the
    administrator runs it. -/
structure ConnectEnv where
  rand : Nat → Nat
  connect : Nat → Option Int
  flush : Nat → Option (List ServerRow)

/-- The shared data when an attempt ends. -/
def ConnectEnv.flushed (env : ConnectEnv) (attempt : Nat) (sh : Shared) : Shared :=
  match env.flush attempt with
  | none => sh
  | some rows => flushServersDbToMem sh rows

/-- `mysql_data_stream_new(sess, mybe)`, or the stream that is there already, on a descriptor. -/
def attachMyds (sh : Shared) (mybe : MysqlBackend) (fill : Nat → Byte) (m : Nat) (fd : Int) :
    Shared × MysqlBackend :=
  match mybe.serverMyds with
  | none =>
      (sh.modifyMshge m fun e =>
          { e with
            connectionsCreated := e.connectionsCreated + 1,
            connectionsActive := e.connectionsActive + 1 },
        { mybe with fd := fd, serverMyds := some (mysqlDataStreamNew fill sh.glovars.netBufferSize fd) })
  | some myds => (sh, { mybe with fd := fd, serverMyds := some { myds with fd := fd } })

/-- From the label of `mysql_session_create_backend_for_hostgroup` on, with `retries` left.  Attempt
    `10 - retries` of the environment is the next one. -/
def createBackendFrom (cred : Credentials) (env : ConnectEnv) (fill : Nat → Byte) (hostgroupId : Nat) :
    Nat → Shared → MysqlBackend → Except Fault (Shared × MysqlBackend × CreateResult)
  | 0, sh, mybe => .ok (sh, mybe, .failed)
  | retries + 1, sh, mybe => do
      let attempt := 10 - (retries + 1)
      let mshge ← chooseEntry sh mybe.mshge hostgroupId (env.rand attempt)
      let mybe := { mybe with mshge := mshge }
      match mshge with
      | none => return (sh, mybe, .noServer)
      | some m =>
          match mybe.serverMycpe with
          | some c =>
              let (sh, mybe) := attachMyds sh mybe fill m (sh.conns c).fd
              return (sh, mybe, .created)
          | none =>
              let ms ← sh.msPtr m
              let (sh, mcpRef, mycpe) ← mysqlConnpoolGetConnection sh mybe.lastMysqlConnpool
                { hostname := some ms.address, username := cred.username, password := cred.password,
                  db := cred.schema, port := ms.port } (env.connect attempt)
              let sh := env.flushed attempt sh
              let mybe := { mybe with lastMysqlConnpool := mcpRef }
              match mycpe with
              | some c =>
                  let (sh, mybe) := attachMyds sh { mybe with serverMycpe := some c } fill m (sh.conns c).fd
                  return (sh, mybe, .created)
              | none =>
                  if retries = 0 then return (sh, mybe, .failed)
                  else
                    createBackendFrom cred env fill hostgroupId retries sh { mybe with mshge := none }

/-! ## Changes elsewhere -/

/-- The connections and the pools are the same. -/
structure SamePools (sh sh' : Shared) : Prop where
  conns : sh'.conns = sh.conns
  nextConn : sh'.nextConn = sh.nextConn
  thrMyconnpool : sh'.thrMyconnpool = sh.thrMyconnpool
  gloconnpool : sh'.gloconnpool = sh.gloconnpool
  released : sh'.released = sh.released

/-- The servers and their entries are the same, and there are as many hostgroups. -/
structure SameEntries (sh sh' : Shared) : Prop where
  servers : sh'.servers = sh.servers
  mshges : sh'.mshges = sh.mshges
  nextMshge : sh'.nextMshge = sh.nextMshge
  hostgroupArrays : sh'.hostgroupArrays = sh.hostgroupArrays
  mysqlHostgroups : sh'.mysqlHostgroups = sh.mysqlHostgroups
  hostgroups : sh'.glovars.mysqlHostgroups = sh.glovars.mysqlHostgroups

end ProxySQL
