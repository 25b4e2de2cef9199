/-
  ProxySQL.Session.ServerPkts

  What a session does with the packets of the current backend's server:
  `process_server_pkts` and the functions it calls.

  The response to a query is followed by `resultset_progress`.  Its packets are
  collected in `sess->resultset` until the response is complete, or, once it has
  grown to `mysql_max_resultset_size`, passed on as they come.
-/
import ProxySQL.Session.ClientPkts

namespace ProxySQL

open Lib

/-- What the process meets while it handles one server packet. -/
structure SrvEnv where
  /-- memory behind the packet -/
  beyond : Nat → Byte
  /-- `gettimeofday` when a connection is detached -/
  now : Nat → Nat
  /-- whether the query cache has room for the response -/
  cacheRoom : Bool
  /-- contents of the block for the query cache -/
  fill : Nat → Byte

/-- `server_COM_QUIT`. -/
def serverComQuit (p : Pkt) (r : MysqlResponseType) : SessM Unit :=
  when (r = .okPacket) (mySessAddPktOutClient p)

/-- `server_COM_STATISTICS`. -/
def serverComStatistics (p : Pkt) : SessM Unit := do
  mySessAddPktOutClient p
  syncServerBytesAtCmd

/-- The current backend forgets the pool of its connection. -/
def forgetConnpool : SessM Unit := do
  match (← get).sess.serverMybe with
  | none => pure ()
  | some i =>
      let mybe ← getMybe i
      setMybe i { mybe with lastMysqlConnpool := none }

/-- `server_COM_INIT_DB`. -/
def serverComInitDb (p : Pkt) (r : MysqlResponseType) : SessM Unit := do
  forgetConnpool
  when (r = .okPacket) (modifySess fun s => { s with mysqlSchemaCur := s.mysqlSchemaNew })
  when (r = .okPacket ∨ r = .errPacket) (mySessAddPktOutClient p)
  modifySess fun s => { s with mysqlSchemaNew := none }
  syncServerBytesAtCmd

/-! ## Responses to queries -/

/-- How a packet of a response changes `resultset_progress`. -/
def resultsetStep : MysqlResponseType → ResultsetProgress → ResultsetProgress
  | .okPacket, .waiting => .completed
  -- a ROW packet that looks like an OK packet
  | .okPacket, _ => .rows
  | .errPacket, _ => .completed
  | .eofPacket, .columnDefinitions => .eof1
  | .eofPacket, _ => .completed
  | .unknownPacket, .waiting => .columnCount
  | .unknownPacket, .columnCount => .columnDefinitions
  | .unknownPacket, .columnDefinitions => .columnDefinitions
  | .unknownPacket, .eof1 => .rows
  | .unknownPacket, .rows => .rows
  | .unknownPacket, .completed => .completed

/-- The packet ends a response whose status flags are known, so backends may be released. -/
def endsWithStatus (r : MysqlResponseType) (progress : ResultsetProgress) : Bool :=
  (r = .okPacket ∧ progress = .waiting) ∨ (r = .eofPacket ∧ progress ≠ .columnDefinitions)

/-- `ACTIVE_TRANSACTION`. -/
def activeTransaction : SessM Bool := do
  let s := (← get).sess
  let i ← deref s.serverMybe
  let mybe ← getMybe i
  let myds ← deref mybe.serverMyds
  return myds.activeTransaction

/-- The loops of `server_COM_QUERY` that call `bedetach` on every backend. -/
def detachBackends (now : Nat → Nat) : SessM Unit :=
  forHostgroups fun i => do
    let inTrans ← activeTransaction
    let share := (← get).sh.glovars.mysqlShareConnections
    when (inTrans = false ∧ share = 1) (bedetach i now)

/-- The packet is collected, or the response has become too large and is passed on. -/
def collect (maxSize : Nat) (p : Pkt) (s : Session) : Session :=
  let size := (s.resultsetSize + p.length) % 2 ^ 64
  if size < maxSize then { s with resultsetSize := size, resultset := s.resultset ++ [p] }
  else
    { s with resultsetSize := size, queryToCache := false, resultset := [] }.addOut (s.resultset ++ [p])

/-- What enters the query cache: the packets are copied into a block of `resultset_size` bytes, whose
    length `fdb_set` takes as an `unsigned int`. -/
def cacheValue (fill : Nat → Byte) (size : Nat) (pkts : List Pkt) : List Byte :=
  (overwrite (lAlloc fill size) 0 (pkts.map Pkt.data).flatten).take (size % 2 ^ 32)

/-- The collected response enters the query cache. -/
def cacheResult (room : Bool) (fill : Nat → Byte) : SessM Unit := do
  let st ← get
  when st.sess.queryToCache do
    let fed ← deref st.sess.queryInfo.queryChecksum
    when room (modifyShared fun sh =>
      fdbSet sh (sh.md5 fed) (cacheValue fill st.sess.resultsetSize st.sess.resultset)
        st.sess.queryInfo.cacheTtl)

/-- A response that was not passed on before is passed on as a whole. -/
def flushResultset (maxSize : Nat) (s : Session) : Session :=
  if s.resultsetSize < maxSize then { s with resultset := [] }.addOut s.resultset else s

/-- The end of a response. -/
def completeResultset (env : SrvEnv) : SessM Unit := do
  let g := (← get).sh.glovars
  modifySess fun s => { s with resultsetProgress := .waiting }
  when g.mysqlQueryStatistics queryStatisticsSet
  syncServerBytesAtCmd
  modifySess fun s => { s with sendToSlave := false }
  cacheResult env.cacheRoom env.fill
  modifySess (flushResultset g.mysqlMaxResultsetSize)

/-- `server_COM_QUERY`. -/
def serverComQuery (p : Pkt) (r : MysqlResponseType) (env : SrvEnv) : SessM Unit := do
  let st ← get
  let progress := st.sess.resultsetProgress
  modifySess fun s => { s with resultsetProgress := resultsetStep r progress }
  when (endsWithStatus r progress) (detachBackends env.now)
  modifySess (collect st.sh.glovars.mysqlMaxResultsetSize p)
  when (resultsetStep r progress = .completed) (completeResultset env)

/-! ## The loop -/

/-- A packet is taken from the current backend, and its status flags are noted. -/
def takeServerPkt (env : SrvEnv) : SessM (Pkt × MysqlResponseType) := do
  let i ← deref (← get).sess.serverMybe
  let mybe ← getMybe i
  let myds ← deref mybe.serverMyds
  match myds.input.pkts with
  | [] => throw .outOfBounds
  | p :: pkts =>
      let r := mysqlResponse env.beyond p
      let inTrans := if r = .okPacket ∨ r = .eofPacket then isTransactionActive env.beyond p
        else myds.activeTransaction
      let myds := { myds with input := { myds.input with pkts := pkts }, activeTransaction := inTrans }
      setMybe i { mybe with serverMyds := some myds }
      return (p, r)

/-- A round of the loop of `process_server_pkts` after the packet was taken. -/
def answerPkt (p : Pkt) (r : MysqlResponseType) (env : SrvEnv) : SessM Unit := do
  let cmd := (← get).sess.clientCommand
  if cmd = mysqlComQuit then serverComQuit p r
  else if cmd = mysqlComInitDb then serverComInitDb p r
  else if cmd = mysqlComStatistics then serverComStatistics p
  else if cmd = mysqlComQuery then serverComQuery p r env
  else mySessAddPktOutClient p

/-- One round of the loop of `process_server_pkts`. -/
def processServerPkt (env : SrvEnv) : SessM Unit := do
  let (p, r) ← takeServerPkt env
  answerPkt p r env

/-- `process_server_pkts`.  Every round takes a packet off the array of the current backend. -/
def processServerPktsFrom : Nat → (Nat → SrvEnv) → SessM Unit
  | 0, _ => pure ()
  | n + 1, env => do
      match (← get).sess.serverMyds with
      | none => pure ()
      | some myds =>
          match myds.input.pkts with
          | [] => pure ()
          | _ :: _ => do
              processServerPkt (env 0)
              processServerPktsFrom n fun k => env (k + 1)

def processServerPkts (env : Nat → SrvEnv) : SessM Unit := do
  match (← get).sess.serverMyds with
  | none => pure ()
  | some myds => processServerPktsFrom myds.input.pkts.length env

end ProxySQL
