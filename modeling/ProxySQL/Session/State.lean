/-
  ProxySQL.Session.State

  The data of a worker thread: the global configuration and server lists, the
  connection pools, and the session with its backends (`structs.h`).

  Pointers are numbers into heaps: connections (`mysql_cp_entry_t`) and
  hostgroup entries (`MSHGE`) live in `Shared.conns` and `Shared.mshges`, the
  backends of a session in `Session.mybes`.  NULL is `none`.  A C string is the
  list of its bytes without the final NUL.

  Four fields are not in the source and record what happened: the ledger
  `pending` of a connection (commands queued for it, with the bytes still to be
  sent and still to be received), the mark `prepared` of a connection that a
  prepared statement was queued for, the list `released` of connections that were
  put into a pool, and the `trace` of a session.  No modelled function reads
  them.
-/
import ProxySQL.Lib.Prog
import ProxySQL.Net.DataStream

namespace ProxySQL

open Lib List

abbrev Str := List Byte

/-- The bytes of a string literal. -/
def bytesOf (s : String) : List Byte := s.toList.map fun c => BitVec.ofNat 8 c.toNat

/-- What stops the process. -/
inductive Fault where
  /-- an `assert` fails -/
  | assertion
  | nullDereference
  | useAfterFree
  /-- an array is indexed outside its bounds -/
  | outOfBounds
  /-- a loop is still waiting for the peer -/
  | blocked
deriving DecidableEq

/-- The target of a pointer. -/
def deref {α : Type} : Option α → Except Fault α
  | none => .error .nullDereference
  | some a => .ok a

/-- `strcmp(a, b) == 0`. -/
def strEq (a b : Option Str) : Except Fault Bool := do
  let a ← deref a
  let b ← deref b
  pure (a == b)

/-! ## Servers and hostgroups -/

/-- `enum mysql_server_status`. -/
inductive MysqlServerStatus where
  | offlineHard
  | offlineSoft
  | shunned
  | online
deriving DecidableEq

/-- `mysql_server`. -/
structure MysqlServer where
  address : Str
  port : Nat
  readOnly : Int
  status : MysqlServerStatus
deriving DecidableEq

/-- `MSHGE`; `msPtr` is an index into `Shared.servers`.  A freed entry keeps its contents. -/
structure Mshge where
  msPtr : Option Nat
  connectionsCreated : Int
  connectionsActive : Int
  freed : Bool

/-! ## Connections and pools -/

/-- A command queued for a connection. -/
structure Outstanding where
  unsent : Nat
  unreceived : Nat
deriving DecidableEq

/-- `mysql_cp_entry_t`, with the target that its `MYSQL` was opened for and how often it was closed. -/
structure MysqlCpEntry where
  host : Option Str
  user : Option Str
  passwd : Option Str
  db : Option Str
  port : Nat
  fd : Int
  expire : Nat
  reusable : Bool
  closes : Nat
  prepared : Bool
  pending : List Outstanding

/-- `mysql_connpool`. -/
structure MysqlConnpool where
  hostname : Option Str
  username : Option Str
  password : Option Str
  db : Option Str
  port : Nat
  freeConns : List Nat

/-- `myConnPools`. -/
structure MyConnPools where
  enabled : Bool
  connpools : List MysqlConnpool

/-- A connection that was added to a pool, and whether its backend was in a transaction then. -/
structure Release where
  conn : Nat
  activeTransaction : Bool
deriving DecidableEq

/-! ## Configuration -/

/-- The fields of `glovars` that the modelled functions read. -/
structure Glovars where
  netBufferSize : Nat
  mysqlHostgroups : Nat
  mysqlShareConnections : Nat
  mysqlMaxResultsetSize : Nat
  mysqlMaxQuerySize : Nat
  mysqlQueryStatistics : Bool
  mysqlQueryCacheEnabled : Bool
  mysqlQueryCachePrecheck : Bool
  mysqlQueryCacheDefaultTimeout : Int
  mysqlWaitTimeout : Nat
  mysqlDefaultSchema : Str
  protocolVersion : Byte
  mysqlServerVersion : Str
  serverCapabilities : Nat
  serverLanguage : Byte
  serverStatus : Nat
  proxyAdminUser : Str
  proxyAdminPassword : Str
  proxyMonitorUser : Str
  proxyMonitorPassword : Str
  usernames : List (Str × Str)

/-- The defaults of `glo_entries`; there are no users. -/
def glovarsDefault : Glovars :=
  { netBufferSize := 8 * 1024, mysqlHostgroups := 8, mysqlShareConnections := 0,
    mysqlMaxResultsetSize := 1024 * 1024, mysqlMaxQuerySize := 1024 * 1024,
    mysqlQueryStatistics := false, mysqlQueryCacheEnabled := true, mysqlQueryCachePrecheck := true,
    mysqlQueryCacheDefaultTimeout := 1, mysqlWaitTimeout := 3600 * 8 * 1000000,
    mysqlDefaultSchema := bytesOf "information_schema", protocolVersion := 10,
    mysqlServerVersion := bytesOf "5.1.30", serverCapabilities := 0xb20a, serverLanguage := 33,
    serverStatus := 2, proxyAdminUser := bytesOf "admin", proxyAdminPassword := bytesOf "admin",
    proxyMonitorUser := bytesOf "monitor", proxyMonitorPassword := bytesOf "monitor", usernames := [] }

/-- `query_rule_t`.  The compiled expression is what it matches and, where there is a
    `replace_pattern`, what it replaces a query by (`none` is an error of `g_regex_replace`). -/
structure QueryRule where
  flagIN : Int
  username : Option Str
  schemaname : Option Str
  regexMatch : List Byte → Bool
  negateMatchPattern : Int
  flagOUT : Int
  replace : Option (List Byte → Option Str)
  destinationHostgroup : Int
  auditLog : Int
  performanceLog : Int
  cacheTtl : Int

/-- `default_hostgroup_t`. -/
structure DefaultHostgroup where
  username : Option Str
  schemaname : Option Str
  hostgroupId : Int

/-- `global_default_hostgroups_t`. -/
structure DefHG where
  version : Int
  defaultHostgroups : List DefaultHostgroup

/-- What the query cache holds under a key. -/
structure QcEntry where
  value : List Byte
  expire : Int

/-- What the sessions of a thread share.  The two functions are the digests that the source takes
    from its libraries. -/
structure Shared where
  glovars : Glovars
  md5 : List Byte → Str
  scramble : List Byte → Str → List Byte
  servers : List MysqlServer
  mshges : Nat → Mshge
  nextMshge : Nat
  hostgroupArrays : Nat → List Nat
  mysqlHostgroups : List Nat
  conns : Nat → MysqlCpEntry
  nextConn : Nat
  thrMyconnpool : MyConnPools
  gloconnpool : MyConnPools
  gloconnpoolTv : Nat
  queryRules : List QueryRule
  gloDefHG : DefHG
  qc : Str → Option QcEntry
  qcNow : Int
  hashExpireMax : Int
  hashExpireDefault : Int
  released : List Release

/-- What there is before the first connection: `init_glomysrvs` has made an empty array for every
    hostgroup, and the pools are enabled and empty. -/
def Shared.init (g : Glovars) (md5 : List Byte → Str) (scramble : List Byte → Str → List Byte) :
    Shared :=
  { glovars := g, md5 := md5, scramble := scramble, servers := [],
    mshges := fun _ => { msPtr := none, connectionsCreated := 0, connectionsActive := 0, freed := false },
    nextMshge := 0, hostgroupArrays := fun _ => [], mysqlHostgroups := range g.mysqlHostgroups,
    conns := fun _ =>
      { host := none, user := none, passwd := none, db := none, port := 0, fd := 0, expire := 0,
        reusable := false, closes := 0, prepared := false, pending := [] },
    nextConn := 0, thrMyconnpool := { enabled := true, connpools := [] },
    gloconnpool := { enabled := true, connpools := [] }, gloconnpoolTv := 0, queryRules := [],
    gloDefHG := { version := 0, defaultHostgroups := [] }, qc := fun _ => none, qcNow := 0,
    hashExpireMax := 3600 * 24 * 365 * 10, hashExpireDefault := 10, released := [] }

/-! ## The session -/

/-- `mysql_backend_t`. -/
structure MysqlBackend where
  fd : Int
  mshge : Option Nat
  lastMysqlConnpool : Option Nat
  serverMyds : Option MysqlDataStream
  serverMycpe : Option Nat

/-- `mysql_backend_new`. -/
def mysqlBackendNew : MysqlBackend :=
  { fd := 0, mshge := none, lastMysqlConnpool := none, serverMyds := none, serverMycpe := none }

/-- `enum enum_resultset_progress`. -/
inductive ResultsetProgress where
  | waiting
  | columnCount
  | columnDefinitions
  | eof1
  | rows
  | completed
deriving DecidableEq

/-- The part of `qr_hash_entry` that a session fills in. -/
structure QrHashEntry where
  username : Option Str
  schemaname : Option Str
  hostgroupId : Int
  mysqlServerAddress : Option Str
  mysqlServerPort : Nat
deriving DecidableEq

/-- The pointer `query_stats`. -/
inductive QueryStats where
  | null
  | live (entry : QrHashEntry)
  | dangling
deriving DecidableEq

/-- `mysql_query_metadata_t`; the checksum is the bytes fed to it. -/
structure QueryInfo where
  queryChecksum : Option (List Byte)
  flagOUT : Int
  rewritten : Bool
  cacheTtl : Int
  destinationHostgroup : Int
  auditLog : Int
  performanceLog : Int
  query : List Byte
  preparedStatement : Bool
  queryStats : QueryStats

/-- What a session does with a packet of its client. -/
inductive Action where
  /-- `process_authentication_pkt` has run and left this in `sess->ret`. -/
  | authenticated (ret : Int)
  /-- `process_client_pkts` has taken a packet with this first payload byte. -/
  | dispatched (c : Byte)
  /-- `admin_COM_QUERY` has run. -/
  | adminQuery
  /-- The query cache has answered. -/
  | cacheHit
  /-- `client_COM_INIT_DB` has answered. -/
  | initDb
  /-- `client_COM_CHANGE_USER` has replaced the user name and answered. -/
  | changeUser
  /-- `check_auth_switch_response_packet` has returned this. -/
  | authSwitch (rc : Int)
  /-- A packet was queued for the server of this hostgroup. -/
  | forwarded (hostgroup : Nat)
deriving DecidableEq

/-- `mysql_session_t`. -/
structure Session where
  healthy : Bool
  admin : Nat
  forceCloseBackends : Bool
  ret : Int
  lastServerPollFd : Int
  bytesSentAtCmd : Nat
  bytesRecvAtCmd : Nat
  clientCommand : Nat
  resultsetProgress : ResultsetProgress
  resultsetSize : Nat
  queryInfo : QueryInfo
  queryToCache : Bool
  resultset : List Pkt
  clientMyds : MysqlDataStream
  serverMybe : Option Nat
  mybes : List MysqlBackend
  mysqlUsername : Option Str
  mysqlPassword : Option Str
  mysqlSchemaCur : Option Str
  mysqlSchemaNew : Option Str
  defaultHostgroup : Int
  defaultHostgroupVersion : Int
  scrambleBuf : List Byte
  waitingChangeUserResponse : Bool
  mysqlQueryCacheHit : Bool
  mysqlServerReconnect : Bool
  netFailure : Bool
  sendToSlave : Bool
  trace : List Action

/-- `COM_*` of the client library's `mysql_com.h`. -/
def mysqlComQuit : Nat := 0x01
def mysqlComInitDb : Nat := 0x02
def mysqlComQuery : Nat := 0x03
def mysqlComStatistics : Nat := 0x09
def mysqlComChangeUser : Nat := 0x11
def mysqlComStmtPrepare : Nat := 0x16
def mysqlComStmtExecute : Nat := 0x17
def mysqlComStmtSendLongData : Nat := 0x18
def mysqlComStmtClose : Nat := 0x19
def mysqlComStmtReset : Nat := 0x1a

/-- `COM_END`, the number after the last command. -/
def mysqlComEnd : Nat := 0x1f

/-- `mysql_session_new` for an accepted descriptor, with the session kind the thread gives it. -/
def mysqlSessionNew (fill : Nat → Byte) (g : Glovars) (admin : Nat) (clientFd : Int) : Session :=
  { healthy := true, admin := admin, forceCloseBackends := false, ret := 0, lastServerPollFd := 0,
    bytesSentAtCmd := 0, bytesRecvAtCmd := 0, clientCommand := mysqlComEnd,
    resultsetProgress := .waiting, resultsetSize := 0,
    queryInfo :=
      { queryChecksum := none, flagOUT := 0, rewritten := false, cacheTtl := 0,
        destinationHostgroup := 0, auditLog := 0, performanceLog := 0, query := [],
        preparedStatement := false, queryStats := .null },
    queryToCache := false, resultset := [],
    clientMyds := mysqlDataStreamNew fill g.netBufferSize clientFd,
    serverMybe := none, mybes := replicate g.mysqlHostgroups mysqlBackendNew,
    mysqlUsername := none, mysqlPassword := none, mysqlSchemaCur := none, mysqlSchemaNew := none,
    defaultHostgroup := -1, defaultHostgroupVersion := -1, scrambleBuf := replicate 21 0,
    waitingChangeUserResponse := false, mysqlQueryCacheHit := false, mysqlServerReconnect := true,
    netFailure := false, sendToSlave := false, trace := [] }

/-- One session and what it shares with the others. -/
structure St where
  sh : Shared
  sess : Session

/-- Code of a session.  The state it has reached survives a fault. -/
abbrev SessM := Prog Fault St

end ProxySQL
