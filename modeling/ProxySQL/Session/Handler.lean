/-
  ProxySQL.Session.Handler

  `session_handler` and what surrounds it: the sockets of a session, the end of
  a session, and the thread's loop over its sessions.
-/
import ProxySQL.Session.ServerPkts

namespace ProxySQL

open Lib

/-! ## Sockets -/

/-- `n` bytes leave the entries of a ledger, the oldest first. -/
def sendBytes : List Outstanding → Nat → List Outstanding
  | [], _ => []
  | o :: os, n => { o with unsent := o.unsent - n } :: sendBytes os (n - o.unsent)

/-- `n` bytes of the responses to the entries of a ledger arrive. -/
def recvBytes : List Outstanding → Nat → List Outstanding
  | [], _ => []
  | o :: os, n => { o with unreceived := o.unreceived - n } :: recvBytes os (n - o.unreceived)

/-- The ledger of a backend's connection, if it has one. -/
def modifyLedger (mycpe : Option Nat) (f : List Outstanding → List Outstanding) : SessM Unit :=
  match mycpe with
  | none => pure ()
  | some c => modifyShared fun sh => sh.modifyConn c fun mc => { mc with pending := f mc.pending }

/-- A stream was closed by its peer. -/
def noteFailure (failed : Bool) : SessM Unit :=
  modifySess fun s => { s with netFailure := s.netFailure || failed }

/-- `read_from_net` on the client's stream; `recv` stores at most what there is room for. -/
def readClient (recv : List Byte) : SessM Unit := do
  let myds := (← get).sess.clientMyds
  let r := myds.readFromNet (recv.take (queueAvailable myds.input.queue))
  modifySess fun s => { s with clientMyds := r.1 }
  noteFailure r.2

/-- `write_to_net` on the client's stream. -/
def writeClient (sent : Int) : SessM Unit := do
  let myds := (← get).sess.clientMyds
  let r := myds.writeToNet (min sent (queueData myds.output.queue))
  modifySess fun s => { s with clientMyds := r.1 }
  noteFailure r.2

/-- `read_from_net` on the stream of backend `i`.  Received bytes are counted in its `mshge`. -/
def readServer (i : Nat) (recv : List Byte) : SessM Unit := do
  let mybe ← getMybe i
  let myds ← deref mybe.serverMyds
  let recv := recv.take (queueAvailable myds.input.queue)
  let r := myds.readFromNet recv
  setMybe i { mybe with serverMyds := some r.1 }
  noteFailure r.2
  modifyLedger mybe.serverMycpe fun os => recvBytes os recv.length
  when (r.2 = false) do
    let _ ← deref mybe.mshge

/-- `write_to_net` on the stream of backend `i`.  Sent bytes are counted in its `mshge`. -/
def writeServer (i : Nat) (sent : Int) : SessM Unit := do
  let mybe ← getMybe i
  let myds ← deref mybe.serverMyds
  let n := queueData myds.output.queue
  let sent := min sent n
  let r := myds.writeToNet sent
  setMybe i { mybe with serverMyds := some r.1 }
  noteFailure r.2
  when (n ≠ 0 ∧ r.2 = false) do
    modifyLedger mybe.serverMycpe fun os => sendBytes os sent.toNat
    let _ ← deref mybe.mshge

/-- `reconnect_server_on_shut_fd`: a backend whose stream is not active ends the session. -/
def reconnectServerOnShutFd (s : Session) : Bool :=
  match s.serverMyds with
  | none => true
  | some myds => myds.active

/-- What happens on the sockets during one call of `session_handler`. -/
structure NetEnv where
  /-- POLLERR, POLLHUP or POLLNVAL -/
  errClient : Bool
  errServer : Bool
  /-- POLLIN, with what `recv` stores -/
  inClient : Option (List Byte)
  inServer : Option (List Byte)
  /-- POLLOUT, and what `send` returns -/
  outClient : Bool
  outServer : Bool
  sendClient : Int
  sendServer : Int
  /-- what `send` returns at the end of the call -/
  sendClient2 : Int
  sendServer2 : Int

/-- Code for the current backend, where the session has one with a data stream. -/
def onServer (f : Nat → MysqlBackend → MysqlDataStream → SessM Unit) : SessM Unit := do
  match (← get).sess.serverMybe with
  | none => pure ()
  | some i =>
      let mybe ← getMybe i
      match mybe.serverMyds with
      | none => pure ()
      | some myds => f i mybe myds

/-- `check_fds_errors`. -/
def checkFdsErrors (net : NetEnv) : SessM Unit := do
  when net.errClient
    (modifySess fun s => { s with clientMyds := s.clientMyds.shutSoft, netFailure := true })
  when net.errServer <| onServer fun i mybe myds => do
    setMybe i { mybe with serverMyds := some myds.shutSoft }
    modifySess fun s => { s with netFailure := true }

/-- `read_from_net_2`. -/
def readFromNet2 (net : NetEnv) : SessM Unit := do
  let fd := (← get).sess.clientMyds.fd
  when (fd > 0 ∧ net.inClient.isSome) (readClient (net.inClient.getD []))
  when net.inServer.isSome <| onServer fun i mybe myds =>
    when (mybe.serverMycpe.isSome ∧ myds.fd > 0) (readServer i (net.inServer.getD []))

/-- `write_to_net_2`, given which sockets are ready and what `send` returns. -/
def writeToNet2 (client server : Bool) (sendClient sendServer : Int) : SessM Unit := do
  let fd := (← get).sess.clientMyds.fd
  when (fd > 0 ∧ client) (writeClient sendClient)
  onServer fun i _ myds => when (myds.fd > 0 ∧ server) (writeServer i sendServer)

/-- The end of both halves of `sync_net`. -/
def syncOutcome : SessM Bool := do
  let s := (← get).sess
  return !s.netFailure || reconnectServerOnShutFd s

/-- `sync_net(sess, 0)`. -/
def syncNet (net : NetEnv) : SessM Bool := do
  readFromNet2 net
  if ← syncOutcome then
    writeToNet2 net.outClient net.outServer net.sendClient net.sendServer
    syncOutcome
  else return false

/-- `sync_net(sess, 1)`. -/
def syncNetWriteOnly (net : NetEnv) : SessM Bool := do
  writeToNet2 true true net.sendClient2 net.sendServer2
  syncOutcome

/-! ## Packets and buffers -/

/-- The stream of the current backend is replaced. -/
def modifyServerMyds (f : MysqlDataStream → Except Fault MysqlDataStream) : SessM Unit :=
  onServer fun i mybe myds => do
    let myds ← f myds
    setMybe i { mybe with serverMyds := some myds }

/-- `buffer2array_2`. -/
def buffer2array2 (fill : Nat → Byte) : SessM Unit := do
  modifySess fun s => { s with clientMyds := s.clientMyds.buffer2arrayLoop fill }
  modifyServerMyds fun myds => .ok (myds.buffer2arrayLoop fill)

/-- `array2buffer_2`. -/
def array2buffer2 : SessM Unit := do
  let myds ← deref (← get).sess.clientMyds.array2bufferLoop
  modifySess fun s => { s with clientMyds := myds }
  modifyServerMyds fun myds => deref myds.array2bufferLoop

/-- `process_authentication_pkt`. -/
def processAuthenticationPkt (beyond : Nat → Byte) (slack : Nat) : SessM Unit := do
  let st ← get
  match st.sess.clientMyds.input.pkts with
  | [] => throw .outOfBounds
  | hs :: pkts =>
      modifySess fun s => { s with clientMyds :=
        { s.clientMyds with input := { s.clientMyds.input with pkts := pkts } } }
      let ret := (checkClientAuthenticationPacket st.sh st.sess hs (hs.mem beyond) slack).2
      modifySess fun s =>
        { (checkClientAuthenticationPacket st.sh s hs (hs.mem beyond) slack).1 with ret := ret }
      record (.authenticated ret)
      if ret ≠ 0 then mySessAddPktOutClient (createErrPacket 2 1045 accessDenied)
      else
        modifySess fun s => { s with
          mysqlSchemaCur := s.mysqlSchemaCur <|> some st.sh.glovars.mysqlDefaultSchema }
        mySessAddPktOutClient (createOkPacket 2)

/-- `mysql_session_new` and `send_auth_pkt` for an accepted connection. -/
def acceptSession (fill : Nat → Byte) (g : Glovars) (admin : Nat) (clientFd : Int) (threadId : Nat)
    (random : List Byte) : Session :=
  let s := mysqlSessionNew fill g admin clientFd
  { s with scrambleBuf := scrambleOf random ++ [0] }.addOut
    [createHandshakePacket g threadId (scrambleOf random)]

/-! ## The end of a session -/

/-- `sess_close`. -/
def sessClose (now : Nat → Nat) : SessM Unit := do
  modifySess fun s => { s with
    clientMyds := if s.clientMyds.fd ≠ 0 then s.clientMyds.shutHard else s.clientMyds,
    resultset := [], mysqlUsername := none, mysqlPassword := none, mysqlSchemaCur := none,
    mysqlSchemaNew := none }
  let fc := (← get).sess.forceCloseBackends
  forHostgroups fun i => bereset i fc now
  modifySess fun s => { s with mybes := [], healthy := false }
  initQueryMetadata none

/-- The first loop of `remove_all_backends_offline_soft`, for one hostgroup. -/
def removeOfflineSoft (now : Nat → Nat) (j : Nat) : SessM Unit := do
  let mybe ← getMybe j
  let m ← deref mybe.mshge
  match ((← get).sh.mshges m).msPtr with
  | none => pure ()
  | some _ =>
      let ms ← (← get).sh.msPtr m
      if ms.status = .offlineSoft then
        let myds ← deref mybe.serverMyds
        let s := (← get).sess
        if myds.activeTransaction then pure ()
        else if s.serverMybe = some j then bereset j false now
        else
          let i ← deref s.serverMybe
          let cur ← getMybe i
          let cur ← deref cur.serverMyds
          when (s.bytesSentAtCmd = cur.bytesSent ∧ s.bytesRecvAtCmd = cur.bytesRecv)
            (bereset j false now)
      else pure ()

/-- The second loop of `remove_all_backends_offline_soft`, for one hostgroup. -/
def isOfflineSoft (j : Nat) : SessM Bool := do
  let mybe ← getMybe j
  let m ← deref mybe.mshge
  match ((← get).sh.mshges m).msPtr with
  | none => return false
  | some _ => return (← (← get).sh.msPtr m).status = .offlineSoft

/-- `remove_all_backends_offline_soft`. -/
def removeAllBackendsOfflineSoft (now : Nat → Nat) : SessM Nat := do
  let n := (← get).sh.glovars.mysqlHostgroups
  (List.range n).forM (removeOfflineSoft now)
  let soft ← (List.range n).mapM isOfflineSoft
  return soft.count true

/-! ## The handler -/

/-- What the process meets during one call of `session_handler`. -/
structure HandlerEnv where
  net : NetEnv
  fill : Nat → Byte
  /-- memory behind the authentication packet -/
  beyond : Nat → Byte
  slack : Nat
  client : Nat → PktEnv
  server : Nat → SrvEnv
  /-- `gettimeofday` when the session is closed -/
  now : Nat → Nat

/-- The last write of a call, unless another server than the polled one is current now. -/
def finalSync (net : NetEnv) : SessM Bool := do
  let s := (← get).sess
  match s.serverMyds with
  | none => syncNetWriteOnly net
  | some myds => if s.lastServerPollFd = myds.fd then syncNetWriteOnly net else return true

/-- `session_handler` after its first round over the sockets: whether the session is to be
    closed. -/
def handlePkts (env : HandlerEnv) : SessM Bool := do
  buffer2array2 env.fill
  let myds := (← get).sess.clientMyds
  when (myds.pktsSent = 1 ∧ myds.pktsRecv = 1) (processAuthenticationPkt env.beyond env.slack)
  if ← processClientPkts env.client then return true
  else
    processServerPkts env.server
    array2buffer2
    if ← finalSync env.net then
      let s := (← get).sess
      return s.clientMyds.pktsSent = 2 ∧ s.clientMyds.pktsRecv = 1 ∧ s.mysqlSchemaCur = none
    else return true

/-- `session_handler` up to the point where it has a verdict: whether the session is to be
    closed. -/
def handlerBody (env : HandlerEnv) : SessM Bool := do
  let s := (← get).sess
  if s.healthy = false ∨ s.clientMyds.active = false then return true
  else if ← syncNet env.net then handlePkts env
  else return true

/-- `session_handler`. -/
def sessionHandler (env : HandlerEnv) : SessM Unit := do
  let close ← handlerBody env
  when close (sessClose env.now)

/-- The thread notes the descriptor it polls for the session's current backend. -/
def preparePoll : SessM Unit := modifySess fun s =>
  match s.serverMybe.bind fun i => s.mybes[i]? with
  | none => s
  | some mybe =>
      match mybe.serverMyds, mybe.serverMycpe with
      | some myds, some _ => if s.admin = 0 then { s with lastServerPollFd := myds.fd } else s
      | _, _ => s

end ProxySQL
