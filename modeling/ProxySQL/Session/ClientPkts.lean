/-
  ProxySQL.Session.ClientPkts

  What a session does with the packets of its client: `process_client_pkts` and
  the functions it calls.

  One round of its loop is `processClientPkt`: it takes a packet, dispatches on
  the first payload byte, and, unless the packet was answered on the spot,
  forwards it to the backend of its hostgroup (`forwardPkt`).
-/
import ProxySQL.Session.Auth

namespace ProxySQL

open Lib

/-- What the process meets while it handles one client packet. -/
structure PktEnv where
  /-- memory behind the packet, and how far the next NUL is at most -/
  beyond : Nat → Byte
  slack : Nat
  /-- memory of the packet after `l_free` -/
  freed : Nat → Byte
  /-- contents of fresh blocks -/
  fill : Nat → Byte
  /-- `gettimeofday` when a connection is detached -/
  now : Nat → Nat
  /-- the two searches for a backend that one packet may cause -/
  connect1 : ConnectEnv
  connect2 : ConnectEnv
  /-- the results of `send` while an ERR packet is written by `write_one_pkt_to_net` -/
  send1 : List Int
  send2 : List Int
  /-- `admin_COM_QUERY`: the packets to send afterwards, and `healthy` -/
  admin : List Pkt → List Pkt × Bool
  /-- how many bytes the server will answer, if the packet is forwarded -/
  response : Nat

/-! ## Primitives -/

def modifySess (f : Session → Session) : SessM Unit := modify fun st => { st with sess := f st.sess }

def modifyShared (f : Shared → Shared) : SessM Unit := modify fun st => { st with sh := f st.sh }

def record (a : Action) : SessM Unit := modifySess fun s => { s with trace := s.trace ++ [a] }

def Session.addOut (s : Session) (ps : List Pkt) : Session :=
  { s with clientMyds := s.clientMyds.addOut ps }

/-- `MY_SESS_ADD_PKT_OUT_CLIENT`. -/
def mySessAddPktOutClient (p : Pkt) : SessM Unit := modifySess fun s => s.addOut [p]

/-- `l_ptr_array_index(sess->mybes, i)`. -/
def getMybe (i : Nat) : SessM MysqlBackend := do
  let st ← get
  match st.sess.mybes[i]? with
  | none => throw .outOfBounds
  | some mybe => return mybe

def setMybe (i : Nat) (mybe : MysqlBackend) : SessM Unit :=
  modifySess fun s => { s with mybes := s.mybes.set i mybe }

/-- `mybe->bereset(mybe, &mybe->last_mysql_connpool, fc)`. -/
def bereset (i : Nat) (fc : Bool) (now : Nat → Nat) : SessM Unit := do
  let mybe ← getMybe i
  let (sh, mybe) ← backendReset (← get).sh mybe fc now
  modifyShared fun _ => sh
  setMybe i mybe

/-- `mybe->bedetach(mybe, &mybe->last_mysql_connpool, 0)`. -/
def bedetach (i : Nat) (now : Nat → Nat) : SessM Unit := do
  let mybe ← getMybe i
  let (sh, mybe) ← backendDetach (← get).sh mybe false now
  modifyShared fun _ => sh
  setMybe i mybe

/-- A loop over the backends of all hostgroups. -/
def forHostgroups (f : Nat → SessM Unit) : SessM Unit := do
  (List.range (← get).sh.glovars.mysqlHostgroups).forM f

/-- The data stream of the current backend, if it has one. -/
def Session.serverMyds (s : Session) : Option MysqlDataStream := do
  let i ← s.serverMybe
  let mybe ← s.mybes[i]?
  mybe.serverMyds

/-- `sync_server_bytes_at_cmd`. -/
def syncServerBytesAtCmd : SessM Unit := modifySess fun s =>
  match s.serverMyds with
  | some myds => { s with bytesSentAtCmd := myds.bytesSent, bytesRecvAtCmd := myds.bytesRecv }
  | none => { s with bytesSentAtCmd := 0, bytesRecvAtCmd := 0 }

/-- The loop of `write_one_pkt_to_net`, with the results of `send`. -/
def writeAll : List Int → MysqlDataStream → Except Fault (MysqlDataStream × Bool)
  | rs, myds =>
      if queueData myds.output.queue = 0 ∨ myds.active = false then .ok (myds, false)
      else
        match rs with
        | [] => .error .blocked
        | r :: rs =>
            let w := myds.writeToNet (min r (queueData myds.output.queue))
            do
              let (myds, failed) ← writeAll rs w.1
              return (myds, w.2 || failed)

/-- `write_one_pkt_to_net` on the client's stream. -/
def writeOnePktToNet (p : Pkt) (send : List Int) : SessM Unit := do
  mySessAddPktOutClient p
  let (myds, _) ← deref (← get).sess.clientMyds.array2buffer
  let (myds, failed) ← writeAll send myds
  modifySess fun s => { s with clientMyds := myds, netFailure := s.netFailure || failed }

/-- `authenticate_mysql_client_send_ERR` with the text of every refusal. -/
def authenticateMysqlClientSendERR (send : List Int) : SessM Unit :=
  writeOnePktToNet (createErrPacket 2 1045 accessDenied) send

/-- `mysql_session_create_backend_for_hostgroup`, up to its answer to the client. -/
def connectBackend (hostgroupId : Nat) (env : ConnectEnv) (fill : Nat → Byte) :
    SessM CreateResult := do
  let st ← get
  if hostgroupId < st.sh.glovars.mysqlHostgroups then
    let mybe ← getMybe hostgroupId
    let (sh, mybe, rc) ← createBackendFrom
      { username := st.sess.mysqlUsername, password := st.sess.mysqlPassword,
        schema := st.sess.mysqlSchemaCur } env fill hostgroupId 10 st.sh mybe
    modifyShared fun _ => sh
    setMybe hostgroupId mybe
    return rc
  else throw .assertion

/-- `mysql_session_create_backend_for_hostgroup`. -/
def mysqlSessionCreateBackendForHostgroup (hostgroupId : Nat) (env : ConnectEnv) (fill : Nat → Byte)
    (send : List Int) : SessM Unit := do
  let rc ← connectBackend hostgroupId env fill
  when (rc = .failed) (authenticateMysqlClientSendERR send)

/-! ## Default hostgroups -/

/-- `__default_hostgroup__find_defHG`. -/
def findDefHG (d : DefHG) (username schemaname : Option Str) : Int :=
  let perfect := fun e : DefaultHostgroup => e.username == username && e.schemaname == schemaname
  let schemaOnly := fun e : DefaultHostgroup =>
    e.username == none && e.schemaname != none && e.schemaname == schemaname
  let userOnly := fun e : DefaultHostgroup =>
    e.schemaname == none && e.username != none && e.username == username
  match d.defaultHostgroups.find? perfect with
  | some e => e.hostgroupId
  | none =>
      match d.defaultHostgroups.find? schemaOnly with
      | some e => e.hostgroupId
      | none =>
          match d.defaultHostgroups.find? userOnly with
          | some e => e.hostgroupId
          | none => 0

/-- `mysql_session_default_hostgroup`: the hostgroup is stored, and 0 is returned. -/
def mysqlSessionDefaultHostgroup : SessM Int := do
  let d := (← get).sh.gloDefHG
  modifySess fun s => { s with
    defaultHostgroupVersion := d.version,
    defaultHostgroup := findDefHG d s.mysqlUsername s.mysqlSchemaCur }
  return 0

/-- A packet that no rule routes gets its destination. -/
def setDefaultDestination : SessM Unit := do
  let st ← get
  let hg ← (if st.sess.defaultHostgroup = -1 ∨
        st.sess.defaultHostgroupVersion ≠ st.sh.gloDefHG.version then
      mysqlSessionDefaultHostgroup
    else pure st.sess.defaultHostgroup)
  modifySess fun s => { s with queryInfo := { s.queryInfo with destinationHostgroup := hg } }

/-! ## Queries -/

/-- The query text of a COM_QUERY packet. -/
def queryOf (p : Pkt) : List Byte := slice p.data (sizeofMysqlHdr + 1) p.length

/-- `init_query_metadata` for a packet.  Old statistics are freed but the pointer is kept. -/
def initQueryMetadata (p : Option Pkt) : SessM Unit := do
  let st ← get
  let stale : QueryStats := match st.sess.queryInfo.queryStats with
    | .null => .null
    | _ => .dangling
  -- the statistics of the last query may be freed already
  if st.sess.queryInfo.queryStats = .dangling then throw .useAfterFree
  else
    let stats : QueryStats :=
      if p.isSome && st.sh.glovars.mysqlQueryStatistics then
        .live { username := st.sess.mysqlUsername, schemaname := st.sess.mysqlSchemaCur,
                hostgroupId := 0, mysqlServerAddress := none, mysqlServerPort := 0 }
      else stale
    modifySess fun s => { s with queryInfo :=
      { s.queryInfo with
        queryChecksum := none, flagOUT := 0, rewritten := false, cacheTtl := 0,
        destinationHostgroup := -1, auditLog := 0, performanceLog := 0,
        query := (p.map queryOf).getD [], queryStats := stats } }

/-- `query_statistics_set`, as far as the session is concerned. -/
def queryStatisticsSet : SessM Unit := do
  match (← get).sess.queryInfo.queryStats with
  | .null => throw .nullDereference
  | .dangling => throw .useAfterFree
  | .live e =>
      let _ ← deref e.username
      let _ ← deref e.schemaname
      modifySess fun s => { s with queryInfo := { s.queryInfo with queryStats := .null } }

/-- The bytes `compute_query_checksum` feeds to the checksum. -/
def checksumInput (query : List Byte) (username schema : Str) : List Byte := query ++ username ++ schema

/-- `compute_query_checksum`. -/
def computeQueryChecksum : SessM (List Byte) := do
  let s := (← get).sess
  match s.queryInfo.queryChecksum with
  | some fed => return fed
  | none =>
      let username ← deref s.mysqlUsername
      let schema ← deref s.mysqlSchemaCur
      let fed := checksumInput s.queryInfo.query username schema
      modifySess fun s => { s with queryInfo := { s.queryInfo with queryChecksum := some fed } }
      return fed

/-- `fdb_get`. -/
def fdbGet (sh : Shared) (key : Str) : Option Pkt :=
  match sh.qc key with
  | none => none
  | some e => if sh.qcNow < e.expire then some { length := e.value.length, data := e.value } else none

/-- `fdb_set`.  A large `expire` is a time, a small one is counted from now. -/
def fdbSet (sh : Shared) (key : Str) (value : List Byte) (expire : Int) : Shared :=
  let expire :=
    if 0 < expire then if sh.hashExpireMax < expire then expire else sh.qcNow + expire
    else sh.qcNow + sh.hashExpireDefault
  { sh with qc := fun k => if k = key then some { value := value, expire := expire } else sh.qc k }

/-- `get_result_from_mysql_query_cache`: whether the cache had an answer. -/
def getResultFromMysqlQueryCache : SessM Bool := do
  let fed ← computeQueryChecksum
  let sh := (← get).sh
  match fdbGet sh (sh.md5 fed) with
  | none => return false
  | some result =>
      mySessAddPktOutClient result
      modifySess fun s => { s with mysqlQueryCacheHit := true, queryToCache := false }
      record .cacheHit
      when sh.glovars.mysqlQueryStatistics queryStatisticsSet
      return true

/-- The text of a C string. -/
def upToNul (bs : List Byte) : Str := bs.takeWhile (· ≠ 0)

/-- `mysql_new_payload_select(p, payload, -1)`. -/
def mysqlNewPayloadSelect (fill : Nat → Byte) (payload : Str) : Pkt :=
  let payload := upToNul payload
  let hdr : MysqlHdr := { pktLength := BitVec.ofNat 24 (payload.length + 1), pktId := 0 }
  let length := hdr.pktLength.toNat + sizeofMysqlHdr
  { length := length,
    data := overwrite (lAlloc fill length) 0 (hdr.toBytes ++ [BitVec.ofNat 8 mysqlComQuery] ++ payload) }

/-- The state of the loop of `process_query_rules`. -/
structure RuleState where
  flagIN : Int
  info : QueryInfo
  p : Pkt

/-- A rule applies: its `flagIN`, user, schema and pattern all match. -/
def QueryRule.applies (qr : QueryRule) (s : Session) (st : RuleState) : Except Fault Bool := do
  if qr.flagIN ≠ st.flagIN then return false
  else
    let user ← match qr.username with
      | none => pure true
      | some u => strEq (some u) s.mysqlUsername
    if user = false then return false
    else
      let schema ← match qr.schemaname with
        | none => pure true
        | some n => strEq (some n) s.mysqlSchemaCur
      if schema = false then return false
      else
        let rc := qr.regexMatch st.info.query
        return !((rc && qr.negateMatchPattern == 1) || (!rc && qr.negateMatchPattern == 0))

/-- The rewriting of a query by a matching rule; `none` is an error of `g_regex_replace`. -/
def QueryRule.rewrite (qr : QueryRule) (fill : Nat → Byte) (st : RuleState) : Option RuleState :=
  match qr.replace with
  | none => some st
  | some f =>
      match f st.info.query with
      | none => none
      | some newQuery =>
          let p := mysqlNewPayloadSelect fill newQuery
          some { st with
            info := { st.info with rewritten := true, queryChecksum := none, query := queryOf p },
            p := p }

/-- What a matching rule sets. -/
def QueryRule.set (qr : QueryRule) (st : RuleState) : RuleState :=
  { st with
    flagIN := if qr.flagOUT ≠ 0 then qr.flagOUT else st.flagIN,
    info := { st.info with
      flagOUT := if qr.flagOUT ≠ 0 then qr.flagOUT else st.info.flagOUT,
      cacheTtl := if qr.cacheTtl ≠ 0 then qr.cacheTtl else st.info.cacheTtl,
      destinationHostgroup :=
        if qr.destinationHostgroup ≥ 0 then qr.destinationHostgroup else st.info.destinationHostgroup,
      auditLog := if qr.auditLog = 1 then qr.auditLog else st.info.auditLog,
      performanceLog := if qr.performanceLog = 1 then qr.performanceLog else st.info.performanceLog } }

/-- The loop of `process_query_rules`.  It is left at the first rule that sets `cache_ttl`. -/
def runRules (s : Session) (fill : Nat → Byte) : List QueryRule → RuleState → Except Fault RuleState
  | [], st => .ok st
  | qr :: rules, st => do
      if ← qr.applies s st then
        match qr.rewrite fill st with
        | none => runRules s fill rules st
        | some st =>
            let st := qr.set st
            if st.info.cacheTtl ≠ 0 then return st else runRules s fill rules st
      else runRules s fill rules st

/-- The `cache_ttl` a query is left with. -/
def finalTtl (g : Glovars) (ttl : Int) : Int :=
  let ttl := if ttl = 0 then g.mysqlQueryCacheDefaultTimeout else ttl
  let ttl := if ttl = -1 then 0 else ttl
  if g.mysqlQueryCacheEnabled then ttl else 0

/-- `process_query_rules`; the packet is the rewritten one. -/
def processQueryRules (p : Pkt) (fill : Nat → Byte) : SessM Pkt := do
  let st ← get
  let r ← runRules st.sess fill st.sh.queryRules { flagIN := 0, info := st.sess.queryInfo, p := p }
  modifySess fun s => { s with queryInfo :=
    { r.info with cacheTtl := finalTtl st.sh.glovars r.info.cacheTtl } }
  when (r.info.destinationHostgroup = -1) setDefaultDestination
  return r.p

/-- `client_COM_QUERY`; the packet is the rewritten one. -/
def clientComQuery (p : Pkt) (fill : Nat → Byte) : SessM Pkt := do
  let g := (← get).sh.glovars
  if p.length - sizeofMysqlHdr > g.mysqlMaxQuerySize then
    -- the packet is too big. Ignore any processing
    modifySess fun s => { s with clientCommand := mysqlComEnd }
    return p
  else
    initQueryMetadata (some p)
    modifySess fun s => { s with resultsetProgress := .waiting, resultsetSize := 0 }
    let hit ← (if g.mysqlQueryCacheEnabled && g.mysqlQueryCachePrecheck then
        getResultFromMysqlQueryCache else pure false)
    if hit then return p
    else
      let p ← processQueryRules p fill
      let s := (← get).sess
      when (s.clientCommand = mysqlComQuery ∧ s.queryInfo.cacheTtl > 0) do
        modifySess fun s => { s with queryToCache := true }
        let _ ← getResultFromMysqlQueryCache
      return p

/-! ## The other commands -/

/-- `client_COM_STATISTICS`. -/
def clientComStatistics : SessM Unit := modifySess fun s =>
  if s.admin > 0 then { s with healthy := false } else s

/-- `mybe->server_mycpe && mybe->mshge && mybe->mshge->MSptr && mybe->server_myds->fd`. -/
def connected (sh : Shared) (mybe : MysqlBackend) : Bool :=
  match mybe.serverMycpe, mybe.mshge, mybe.serverMyds with
  | some _, some m, some myds => decide ((sh.mshges m).msPtr ≠ none ∧ myds.fd ≠ 0)
  | _, _, _ => false

/-- The current backend is reset if it is connected. -/
def resetCurrent (now : Nat → Nat) : SessM Unit := do
  let st ← get
  match st.sess.serverMybe with
  | none => pure ()
  | some i =>
      let mybe ← getMybe i
      when (connected st.sh mybe) (bereset i false now)

/-- The current backend is reset, then the backends of all hostgroups. -/
def disconnectBackends (now : Nat → Nat) : SessM Unit := do
  resetCurrent now
  forHostgroups fun j => bereset j false now
  modifySess fun s => { s with serverMybe := none }

/-- `client_COM_CHANGE_USER`.  The packet is parsed after its memory was given back. -/
def clientComChangeUser (p : Pkt) (env : PktEnv) : SessM Unit := do
  let s := (← get).sess
  if s.admin > 0 then modifySess fun s => { s with healthy := false }
  else
    modifySess fun s => { s with mysqlQueryCacheHit := true }
    modifySess fun s => parseChangeUserPacket s env.freed (p.length + env.slack)
    modifySess fun s => { s with waitingChangeUserResponse := true }
    mySessAddPktOutClient (createAuthSwitchRequestPacket s.scrambleBuf)
    modifySess fun s => { s with defaultHostgroup := -1 }
    record .changeUser
    disconnectBackends env.now

/-- The schema name in a COM_INIT_DB packet, up to its first NUL. -/
def initDbSchema (p : Pkt) : Str := (slice p.data (sizeofMysqlHdr + 1) p.length).takeWhile (· ≠ 0)

/-- `client_COM_INIT_DB` when the schema is another one. -/
def switchSchema (schemaNew : Str) (env : PktEnv) : SessM Unit := do
  modifySess fun s => { s with defaultHostgroup := -1 }
  disconnectBackends env.now
  modifySess fun s => { s with mysqlQueryCacheHit := true }
  mySessAddPktOutClient (createOkPacket 1)
  modifySess fun s => { s with mysqlSchemaCur := some schemaNew, mysqlSchemaNew := none }

/-- `client_COM_INIT_DB`. -/
def clientComInitDb (p : Pkt) (env : PktEnv) : SessM Unit := do
  let s := (← get).sess
  if s.admin > 0 then modifySess fun s => { s with healthy := false }
  else if p.length < sizeofMysqlHdr + 1 then throw .outOfBounds
  else
    record .initDb
    if s.mysqlSchemaCur = some (initDbSchema p) then
      -- already on target schema, don't forward
      modifySess fun s => { s with mysqlQueryCacheHit := true, mysqlSchemaNew := none }
      mySessAddPktOutClient (createOkPacket 1)
    else switchSchema (initDbSchema p) env

/-- `admin_COM_QUERY`, as far as the session is concerned. -/
def adminComQuery (env : PktEnv) : SessM Unit := do
  record .adminQuery
  modifySess fun s =>
    let r := env.admin s.clientMyds.output.pkts
    { s with
      mysqlQueryCacheHit := true, queryToCache := false, healthy := s.healthy && r.2,
      clientMyds := { s.clientMyds with output := { s.clientMyds.output with pkts := r.1 } } }

/-- The answer to an auth switch request is checked, as the `default:` branch does. -/
def authSwitchResponse (p : Pkt) (env : PktEnv) : SessM Unit := do
  let st ← get
  let rc := (checkAuthSwitchResponsePacket st.sh st.sess p (p.mem env.beyond)).2
  modifySess fun s => (checkAuthSwitchResponsePacket st.sh s p (p.mem env.beyond)).1
  record (.authSwitch rc)
  if rc = -1 then modifySess fun s => { s with healthy := false }
  else
    mySessAddPktOutClient (createOkPacket 3)
    modifySess fun s => { s with mysqlQueryCacheHit := true }

/-- The `default:` branch: the answer to an auth switch request, or a packet that goes on to the
    server. -/
def clientComDefault (p : Pkt) (env : PktEnv) : SessM Unit := do
  let st ← get
  when st.sess.waitingChangeUserResponse (authSwitchResponse p env)
  -- we received an unknown packet; we shouldn't forward this if we are in admin mode
  modifySess fun s => if s.admin > 0 then { s with healthy := false } else s

/-- The switch over the command; COM_QUIT has left the loop before. -/
def dispatchCommand (p : Pkt) (env : PktEnv) : SessM Pkt := do
  let s := (← get).sess
  if s.clientCommand = mysqlComStatistics then
    clientComStatistics
    return p
  else if s.clientCommand = mysqlComInitDb then
    clientComInitDb p env
    return p
  else if s.clientCommand = mysqlComQuery then
    if s.admin = 0 then clientComQuery p env.fill
    else
      adminComQuery env
      return p
  else if s.clientCommand = mysqlComChangeUser then
    clientComChangeUser p env
    return p
  else
    clientComDefault p env
    return p

/-! ## Forwarding -/

/-- How a round of the loop ends: with the next one, with `return 0`, or with `return -1`. -/
inductive Flow where
  | next
  | ret0
  | quit
deriving DecidableEq

/-- `queue_back_client_pkt`. -/
def queueBackClientPkt (p : Pkt) : SessM Unit := modifySess fun s =>
  { s with clientMyds :=
    { s.clientMyds with input := { s.clientMyds.input with pkts := p :: s.clientMyds.input.pkts } } }

/-- `active_backend_for_hostgroup`. -/
def activeBackend (sh : Shared) (mybe : MysqlBackend) : Bool :=
  match mybe.mshge with
  | none => false
  | some m => (sh.mshges m).msPtr.isSome && mybe.serverMycpe.isSome

/-- The assertions on the destination, and the index of the backend. -/
def checkDestination : SessM Nat := do
  let st ← get
  let hg := st.sess.queryInfo.destinationHostgroup
  if hg = -1 then throw .assertion
  else if hg ≥ st.sh.glovars.mysqlHostgroups then throw .assertion
  else if hg < 0 then throw .outOfBounds
  else return hg.toNat

/-- The destination of the packet, in range. -/
def destinationHostgroup : SessM Nat := do
  let cmd := (← get).sess.clientCommand
  when (cmd ≠ mysqlComQuery) setDefaultDestination
  checkDestination

/-- `mybe->mshge->MSptr->status`. -/
def serverOf (mybe : MysqlBackend) : SessM MysqlServer := do
  let m ← deref mybe.mshge
  (← get).sh.msPtr m

/-- The statistics of the query get the server it goes to. -/
def setStatsServer (hg : Nat) (ms : MysqlServer) : SessM Unit := do
  let st ← get
  if st.sh.glovars.mysqlQueryStatistics then
    match st.sess.queryInfo.queryStats with
    | .null => pure ()
    | .dangling => throw .useAfterFree
    | .live e =>
        modifySess fun s => { s with queryInfo := { s.queryInfo with
          queryStats := .live { e with
            hostgroupId := hg, mysqlServerAddress := some ms.address, mysqlServerPort := ms.port } } }
  else pure ()

def isPreparedStatement (cmd : Nat) : Bool :=
  cmd == mysqlComStmtPrepare || cmd == mysqlComStmtExecute || cmd == mysqlComStmtClose ||
    cmd == mysqlComStmtReset || cmd == mysqlComStmtSendLongData

/-- `MY_SESS_ADD_PKT_OUT_SERVER`; the connection's ledger gets the command. -/
def mySessAddPktOutServer (hg : Nat) (p : Pkt) (response : Nat) : SessM Unit := do
  let mybe ← getMybe hg
  let myds ← deref mybe.serverMyds
  setMybe hg { mybe with serverMyds := some (myds.addOut [p]) }
  match mybe.serverMycpe with
  | none => pure ()
  | some c =>
      let cmd := (← get).sess.clientCommand
      modifyShared fun sh => sh.modifyConn c fun mc =>
        { mc with
          prepared := mc.prepared || isPreparedStatement cmd,
          pending := mc.pending ++ [{ unsent := p.length, unreceived := response }] }

/-- The last step of forwarding, once the backend stands. -/
def sendToBackend (hg : Nat) (p : Pkt) (response : Nat) : SessM Flow := do
  let ms ← serverOf (← getMybe hg)
  if ms.status = .online then
    modifySess fun s => { s with serverMybe := some hg }
    setStatsServer hg ms
    syncServerBytesAtCmd
    mySessAddPktOutServer hg p response
    record (.forwarded hg)
    return .next
  else throw .assertion

/-- A backend on an OFFLINE_SOFT server is replaced unless it is in a transaction. -/
def replaceOfflineSoft (hg : Nat) (env : PktEnv) : SessM Unit := do
  let mybe ← getMybe hg
  let ms ← serverOf mybe
  if ms.status = .offlineSoft then
    let myds ← deref mybe.serverMyds
    if myds.activeTransaction = false then
      bereset hg false env.now
      mysqlSessionCreateBackendForHostgroup hg env.connect2 env.fill env.send2
      let mybe ← getMybe hg
      let m ← deref mybe.mshge
      if ((← get).sh.mshges m).msPtr = none then throw .assertion else pure ()
    else pure ()
  else pure ()

/-- Prepared statements make the connection of the backend not reusable. -/
def markNotReusable (hg : Nat) : SessM Unit := do
  let mybe ← getMybe hg
  match mybe.serverMycpe with
  | none => pure ()
  | some c =>
      if (← get).sess.queryInfo.preparedStatement then
        modifyShared fun sh => sh.modifyConn c fun mc => { mc with reusable := false }
      else pure ()

/-- A backend for the hostgroup is sought unless there is one. -/
def ensureBackend (hg : Nat) (env : PktEnv) : SessM Unit := do
  let mybe ← getMybe hg
  if activeBackend (← get).sh mybe then pure ()
  else mysqlSessionCreateBackendForHostgroup hg env.connect1 env.fill env.send1

/-- What follows the search for a backend. -/
def forwardOn (hg : Nat) (p : Pkt) (env : PktEnv) : SessM Flow := do
  markNotReusable hg
  let mybe ← getMybe hg
  let sh := (← get).sh
  match mybe.mshge with
  | none =>
      queueBackClientPkt p
      return .ret0
  | some m =>
      if (sh.mshges m).msPtr = none then
        queueBackClientPkt p
        return .ret0
      else if mybe.serverMycpe = none then
        authenticateMysqlClientSendERR env.send2
        return .quit
      else
        let ms ← sh.msPtr m
        if ms.status = .offlineHard then return .quit
        else
          replaceOfflineSoft hg env
          sendToBackend hg p env.response

/-- From the check of the backend on, for a destination in range. -/
def forwardTo (hg : Nat) (p : Pkt) (env : PktEnv) : SessM Flow := do
  ensureBackend hg env
  forwardOn hg p env

/-- The forwarding part of `process_client_pkts`. -/
def forwardPkt (p : Pkt) (env : PktEnv) : SessM Flow := do
  let hg ← destinationHostgroup
  forwardTo hg p env

/-! ## The loop -/

/-- The packet in front of `pkts` is taken, and the flags of the last one are cleared. -/
def startPkt (g : Glovars) (c : Byte) (p : Pkt) (pkts : List Pkt) (s : Session) : Session :=
  let reconnect := c.toNat = mysqlComInitDb ∨ c.toNat = mysqlComQuery ∨ c.toNat = mysqlComStatistics
  { s with
    clientMyds := { s.clientMyds with input := { s.clientMyds.input with pkts := pkts } },
    clientCommand := c.toNat, mysqlQueryCacheHit := false, queryToCache := false, sendToSlave := false,
    mysqlServerReconnect := decide (s.admin = 0 ∧ p.length < g.mysqlMaxQuerySize ∧ reconnect) }

/-- The start of a round of the loop. -/
def takeClientPkt (env : PktEnv) : SessM Pkt := do
  let st ← get
  match st.sess.clientMyds.input.pkts with
  | [] => throw .outOfBounds
  | p :: pkts =>
      modifySess (startPkt st.sh.glovars (p.mem env.beyond sizeofMysqlHdr) p pkts)
      record (.dispatched (p.mem env.beyond sizeofMysqlHdr))
      return p

/-- What follows the switch over the command. -/
def afterDispatch (p : Pkt) (env : PktEnv) : SessM Flow := do
  let s := (← get).sess
  if s.healthy = false then
    authenticateMysqlClientSendERR env.send1
    return .quit
  else
    modifySess fun s => { s with queryInfo :=
      { s.queryInfo with preparedStatement := isPreparedStatement s.clientCommand } }
    if s.mysqlQueryCacheHit then return .next else forwardPkt p env

/-- One round of the loop of `process_client_pkts`. -/
def processClientPkt (env : PktEnv) : SessM Flow := do
  let p ← takeClientPkt env
  if (← get).sess.clientCommand = mysqlComQuit then return .quit
  else
    let p ← dispatchCommand p env
    afterDispatch p env

/-- `process_client_pkts`: whether it returns -1.  Every round takes a packet off the array, and
    the one that puts a packet back is the last. -/
def processClientPktsFrom : Nat → (Nat → PktEnv) → SessM Bool
  | 0, _ => return false
  | n + 1, env => do
      match (← get).sess.clientMyds.input.pkts with
      | [] => return false
      | _ :: _ =>
          match ← processClientPkt (env 0) with
          | .quit => return true
          | .ret0 => return false
          | .next => processClientPktsFrom n fun k => env (k + 1)

def processClientPkts (env : Nat → PktEnv) : SessM Bool := do
  processClientPktsFrom (← get).sess.clientMyds.input.pkts.length env

end ProxySQL
