import ActivemqCpp.Base.Machine
import ActivemqCpp.Threads.CompositeTaskRunner
import ActivemqCpp.Transport.Failover.URIPool

/-!
# The reconnect task of the failover transport

`FailoverTransport::iterate` runs in the thread of the task runner and looks for a broker
when the connection is lost, when a rebalance was asked for, or when a priority backup has
come up. Meanwhile other threads ask for reconnects, report failures and change the broker
lists.

The model is one state with the steps of all threads:

* what a thread does under the reconnect mutex is one step, and waits while `iterate` holds
  the mutex (`locked`);
* `iterate` itself is cut at every access to what the mutex does not protect: the URI pools
  and the backups. `Phase` is its program counter, with its local variables;
* a call like `addURI` or `updateURIs` is several steps: the changes of the pool, one by
  one, and the `reconnect` at its end.

Which URI is drawn and whether a transport can be created, started and restored comes with
the step (`Work`). `Left` records how the last call of `iterate` ended.
-/

namespace ActivemqCpp.Transport.Failover

open Base
open Decaf
open Threads

/-- The options of the URI. -/
structure Config (U : Type) where
  initialReconnectDelay : Int
  maxReconnectDelay : Int
  backOffMultiplier : Int
  useExponentialBackOff : Bool
  maxReconnectAttempts : Int
  startupMaxReconnectAttempts : Int
  randomize : Bool
  backup : Bool
  backupPoolSize : Int
  updateURIsSupported : Bool
  priorityBackup : Bool
  priorityURIs : List U

/-- The defaults of `FailoverTransportFactory`. -/
def Config.default {U : Type} : Config U :=
  ⟨10, 30000, 2, true, -1, -1, true, false, 1, true, false, []⟩

/-- The list that `getConnectList` has chosen. -/
inductive ConnectList
  | uris
  | updated
deriving DecidableEq

/-- The local variables of the loop of `iterate`. -/
structure Connecting (U : Type) where
  list : ConnectList
  backup : Option (Nat × U)
  failures : List U
  failure : Option Exn
deriving DecidableEq

/-- The URI and the exception of a failed attempt. -/
def Connecting.fail {U : Type} (l : Connecting U) (uri : U) (e : Exn) : Connecting U :=
  { l with backup := none, failures := l.failures ++ [uri], failure := some e }

/-- Where `iterate` is; it has the mutex from `choose` to `attempt`. -/
inductive Phase (U : Type)
  | enter
  | choose
  | check (list : ConnectList)
  | rebalance (list : ConnectList)
  | backup (list : ConnectList)
  | prefer (list : ConnectList) (backup : BackupTransport U)
  | head (l : Connecting U)
  | take (l : Connecting U)
  | attempt (l : Connecting U) (transport : Nat) (uri : U)
  | delay
deriving DecidableEq

inductive Task
  | backups
  | failover
  | close
deriving DecidableEq

/-- What the thread of the runner is doing inside a task. -/
inductive Frame (U : Type)
  | backups
  | building (list : ConnectList) (failures : List U)
  | failover (phase : Phase U)
  | close
deriving DecidableEq

def Frame.task {U : Type} : Frame U → Task
  | .backups | .building _ _ => .backups
  | .failover _ => .failover
  | .close => .close

/-- The call of `iterate` of a task. -/
def Task.call {U : Type} : Task → Frame U
  | .backups => .backups
  | .failover => .failover .enter
  | .close => .close

theorem Task.task_call {U : Type} (task : Task) : (task.call : Frame U).task = task := by
  cases task <;> rfl

/-- What the listener of the transport is told. -/
inductive Notice
  | interrupted
  | resumed
  | exception (e : Exn)
deriving DecidableEq

/-- How an attempt to connect ends: `throws` in creating, starting or restoring the
transport, `resumeThrows` in the listener, when the connection is already made. -/
inductive Outcome
  | done
  | throws (e : Exn)
  | resumeThrows (e : Exn)
deriving DecidableEq

/-- What the surroundings put into a step of the runner's thread. -/
structure Work where
  pick : Nat
  outcome : Outcome

/-- How a call of `iterate` ended: what it threw, the rebalance flag it left, and if it gave
up, the failure it recorded and what it told the listener, if there is one. -/
structure Left where
  thrown : Option Exn
  doRebalance : Bool
  gaveUp : Bool
  connectionFailure : Option Exn
  listening : Bool
  reported : Option Exn
deriving DecidableEq

structure FailoverTransport (U : Type) where
  config : Config U
  closed : Bool
  connected : Bool
  started : Bool
  initialized : Bool
  firstConnection : Bool
  shutdown : Bool
  doRebalance : Bool
  connectedToPriority : Bool
  connectFailures : Int
  reconnectDelay : Int
  uris : URIPool U
  priorityUris : URIPool U
  updated : URIPool U
  connectedTransportURI : Option U
  connectedTransport : Option Nat
  connectionFailure : Option Exn
  backups : BackupTransportPool U
  closeTask : List Nat
  taskRunner : CompositeTaskRunner Task (Frame U)
  transportListener : Bool
  notices : List Notice
  nextTransport : Nat
  last : Option Left

/-- `dynamicCast<IOException>`. -/
def isIOException : Exn → Bool
  | .io | .eof | .utfDataFormat => true
  | _ => false

/-- What `onException` is given for a failure. -/
def asIOException (e : Exn) : Exn := if isIOException e then e else .io

namespace FailoverTransport

variable {U : Type}

/-! ## Under the mutex -/

section Queries

variable (s : FailoverTransport U)

def getConnectList : ConnectList :=
  if s.config.updateURIsSupported && !s.updated.isEmpty then .updated else .uris

def pool : ConnectList → URIPool U
  | .uris => s.uris
  | .updated => s.updated

def setPool (list : ConnectList) (pool : URIPool U) : FailoverTransport U :=
  match list with
  | .uris => { s with uris := pool }
  | .updated => { s with updated := pool }

def calculateReconnectAttemptLimit : Int :=
  if s.firstConnection && s.config.startupMaxReconnectAttempts ≠ -1 then
    s.config.startupMaxReconnectAttempts
  else s.config.maxReconnectAttempts

def canReconnect : Bool := s.started && s.calculateReconnectAttemptLimit ≠ 0

def isClosedOrFailed : Bool := s.closed || s.connectionFailure.isSome

def isConnectionStateValid : Bool :=
  s.connectedTransport.isSome && !s.doRebalance && !s.backups.isPriorityBackupAvailable

def isPending : Bool :=
  !s.isConnectionStateValid && s.started && !s.isClosedOrFailed &&
    ((s.firstConnection && s.connectFailures = 0) ||
      !(s.calculateReconnectAttemptLimit ≠ -1 &&
        s.calculateReconnectAttemptLimit < s.connectFailures))

/-- One more failed attempt reaches the limit. -/
def atLimit : Bool :=
  0 ≤ s.calculateReconnectAttemptLimit &&
    s.calculateReconnectAttemptLimit ≤ s.connectFailures + 1

/-- The condition of the loop. -/
def canConnect (l : Connecting U) : Bool :=
  (l.backup.isSome || !(s.pool l.list).isEmpty) && s.connectedTransport.isNone && !s.closed

def wakeup : FailoverTransport U := { s with taskRunner := s.taskRunner.wakeup }

def notify (notice : Notice) : FailoverTransport U :=
  if s.transportListener then { s with notices := notice :: s.notices } else s

def resetReconnectDelay : FailoverTransport U :=
  if !s.config.useExponentialBackOff || s.reconnectDelay = 10 then
    { s with reconnectDelay := s.config.initialReconnectDelay }
  else s

/-- `doDelay`, but for the sleep. -/
def doDelay : FailoverTransport U :=
  if s.config.useExponentialBackOff then
    { s with
      reconnectDelay :=
        min (s.reconnectDelay * s.config.backOffMultiplier) s.config.maxReconnectDelay }
  else s

/-- Tells the listener of the failure, and returns what it was told. -/
def propagateFailureToExceptionListener : FailoverTransport U × Except Exn (Option Exn) :=
  if s.transportListener then
    match s.connectionFailure with
    | none => (s, .error .nullPointer)
    | some e => (s.notify (.exception (asIOException e)), .ok (some (asIOException e)))
  else (s, .ok none)

end Queries

variable [DecidableEq U]

def disconnect (s : FailoverTransport U) : FailoverTransport U :=
  match s.connectedTransport with
  | none => s
  | some transport =>
    { s with
      connectedTransport := none
      closeTask := s.closeTask ++ [transport]
      uris := s.connectedTransportURI.elim s.uris s.uris.addURI
      connectedTransportURI := none }.notify .interrupted

/-- `reconnect(rebalance)`. -/
def reconnect (s : FailoverTransport U) (rebalance : Bool) : FailoverTransport U :=
  if s.started then { s with doRebalance := s.doRebalance || rebalance }.wakeup else s

def handleTransportFailure (s : FailoverTransport U) (error : Exn) : FailoverTransport U :=
  if s.shutdown then s
  else
    match s.connectedTransport with
    | none => s
    | some transport =>
      match s.connectedTransportURI with
      | none =>
        { s with connectedTransport := none, closeTask := s.closeTask ++ [transport] }
      | some failedUri =>
        let t : FailoverTransport U :=
          { s with
            connectedTransport := none
            closeTask := s.closeTask ++ [transport]
            initialized := false
            uris := s.uris.addURI failedUri
            connectedTransportURI := none
            connected := false
            connectedToPriority := false }
        if s.canReconnect then
          { t.notify .interrupted with updated := s.updated.removeURI failedUri }.wakeup
        else if s.closed then t
        else { t with connectionFailure := some error }.propagateFailureToExceptionListener.1

/-- `start` lets the pool of backups work, if it is wanted. -/
def enableBackups (s : FailoverTransport U) : FailoverTransport U :=
  if s.config.backup || s.config.priorityBackup then
    { s with backups := s.backups.setEnabled true }.wakeup
  else s

def startRunner (s : FailoverTransport U) : FailoverTransport U :=
  { s with taskRunner := s.taskRunner.start }

def start (s : FailoverTransport U) : FailoverTransport U :=
  if s.started then s
  else
    let t := { s with started := true }.enableBackups.startRunner
    if t.connectedTransport.isSome then t else t.reconnect false

/-! ## The runner's thread -/

section Runner

omit [DecidableEq U]

/-- `iterate` goes on to another phase. -/
def goto (s : FailoverTransport U) (phase : Phase U) : FailoverTransport U :=
  { s with taskRunner := s.taskRunner.goto (.failover phase) }

/-- The record of a call that releases the mutex. -/
def leaving (s : FailoverTransport U) (gaveUp : Bool) (reported : Option Exn) : Left :=
  ⟨none, s.doRebalance, gaveUp, s.connectionFailure, s.transportListener, reported⟩

/-- `iterate` returns out of its block. -/
def leave (s : FailoverTransport U) (gaveUp : Bool) (reported : Option Exn) : FailoverTransport U :=
  { s with
    last := some (s.leaving gaveUp reported)
    taskRunner := s.taskRunner.finish .failover }

/-- `iterate` throws. -/
def escape (s : FailoverTransport U) (e : Exn) : FailoverTransport U :=
  { s with
    last := some { s.leaving false none with thrown := some e }
    taskRunner := s.taskRunner.escape }

/-- The end of the block: the attempt limit. -/
def conclude (s : FailoverTransport U) (failure : Option Exn) : FailoverTransport U :=
  let failures :=
    if 0 ≤ s.calculateReconnectAttemptLimit then s.connectFailures + 1 else s.connectFailures
  if s.atLimit then
    match { s with connectFailures := failures
                   connectionFailure := failure }.propagateFailureToExceptionListener with
    | (t, .error e) => t.escape e
    | (t, .ok reported) => t.leave true reported
  else
    { s with connectFailures := failures, last := some (s.leaving false none) }.goto .delay

/-- The transport of a failed attempt is handed to the close task. -/
def discard (s : FailoverTransport U) (transport : Nat) : FailoverTransport U :=
  { s with connected := false, closeTask := s.closeTask ++ [transport] }.wakeup

end Runner

/-- The loop has ended: the URIs that failed go back to the list. -/
def endLoop (s : FailoverTransport U) (l : Connecting U) : FailoverTransport U :=
  (s.setPool l.list ((s.pool l.list).addURIs l.failures)).conclude l.failure

/-- The connection is made, up to the call of the listener. -/
def connect (s : FailoverTransport U) (list : ConnectList) (transport : Nat) (uri : U) :
    FailoverTransport U :=
  { s with
    reconnectDelay := s.config.initialReconnectDelay
    connectedTransportURI := some uri
    connectedTransport := some transport
    connectFailures := 0
    connected := true
    connectedToPriority :=
      s.config.priorityBackup && ((s.pool list).isPriority uri || s.priorityUris.contains uri) }

/-- The connection is made, and the URIs that failed before go back to the list. -/
def resume (s : FailoverTransport U) (l : Connecting U) (transport : Nat) (uri : U) :
    FailoverTransport U :=
  let t := { (s.connect l.list transport uri).notify .resumed with firstConnection := false }
  t.setPool l.list ((t.pool l.list).addURIs l.failures)

/-- One step of `iterate`. -/
def iterate (s : FailoverTransport U) (phase : Phase U) (w : Work) : FailoverTransport U :=
  match phase with
  | .enter =>
    if s.isConnectionStateValid || s.isClosedOrFailed then s.leave false none
    else s.goto .choose
  | .choose => s.goto (.check s.getConnectList)
  | .check list =>
    if (s.pool list).isEmpty && !s.backups.enabled then s.conclude (some .io)
    else s.goto (.rebalance list)
  | .rebalance list =>
    if s.doRebalance then
      if s.connectedToPriority then { s with doRebalance := false }.leave false none
      else
        match s.connectedTransportURI with
        | none => s.escape .nullPointer
        | some uri =>
          if (s.pool list).isPriority uri then { s with doRebalance := false }.leave false none
          else
            { s.disconnect with doRebalance := false }.resetReconnectDelay.goto (.backup list)
    else s.resetReconnectDelay.goto (.backup list)
  | .backup list =>
    if s.backups.enabled then
      match s.backups.getBackup with
      | .error e => s.escape e
      | .ok (none, backups) =>
        { s with backups }.wakeup.goto (.head ⟨list, none, [], none⟩)
      | .ok (some backup, backups) => { s with backups }.wakeup.goto (.prefer list backup)
    else s.goto (.head ⟨list, none, [], none⟩)
  | .prefer list backup =>
    (if s.config.priorityBackup && s.backups.isPriorityBackupAvailable then s.disconnect
      else s).goto (.head ⟨list, some (backup.transport, backup.uri), [], none⟩)
  | .head l =>
    if s.canConnect l then
      match l.backup with
      | some (transport, uri) => s.goto (.attempt l transport uri)
      | none => s.goto (.take l)
    else s.endLoop l
  | .take l =>
    match (s.pool l.list).getURI w.pick with
    | .error _ => s.endLoop l
    | .ok (uri, pool) =>
      match w.outcome with
      | .throws e => (s.setPool l.list pool).goto (.head (l.fail uri e))
      | _ =>
        { s.setPool l.list pool with nextTransport := s.nextTransport + 1 }.goto
          (.attempt l s.nextTransport uri)
  | .attempt l transport uri =>
    match w.outcome with
    | .throws e => (s.discard transport).goto (.head (l.fail uri e))
    | .resumeThrows e =>
      (((s.connect l.list transport uri).notify .resumed).discard transport).goto
        (.head (l.fail uri e))
    | .done => (s.resume l transport uri).leave false none
  | .delay =>
    { (if s.closed then s else s.doDelay) with
      taskRunner := s.taskRunner.finish .failover }

/-- The end of `BackupTransportPool::iterate`. -/
def endBuild (s : FailoverTransport U) (list : ConnectList) (failures : List U) :
    FailoverTransport U :=
  let t := s.setPool list ((s.pool list).addURIs failures)
  { t with
    backups := { t.backups with pending := false }
    taskRunner := t.taskRunner.finish .backups }

/-- One round of the loop of `BackupTransportPool::iterate`. -/
def build (s : FailoverTransport U) (list : ConnectList) (failures : List U) (w : Work) :
    FailoverTransport U :=
  if s.backups.shouldBuildBackup s.config.priorityBackup s.connectedToPriority then
    match (s.pool list).getURI w.pick with
    | .error _ => s.endBuild list failures
    | .ok (connectTo, pool) =>
      let t := { s.setPool list pool with nextTransport := s.nextTransport + 1 }
      match w.outcome with
      | .done =>
        let priority := s.priorityUris.contains connectTo ||
          (s.priorityUris.isEmpty && pool.isPriority connectTo)
        let t := { t with backups := t.backups.add ⟨s.nextTransport, connectTo, priority⟩ }
        if priority && !s.connectedToPriority then (t.reconnect false).endBuild list failures
        else { t with taskRunner := t.taskRunner.goto (.building list failures) }
      | _ => { t with taskRunner := t.taskRunner.goto (.building list (failures ++ [connectTo])) }
  else s.endBuild list failures

def isPendingTask (s : FailoverTransport U) : Task → Bool
  | .backups => s.backups.isPending
  | .failover => s.isPending
  | .close => !s.closeTask.isEmpty

/-- One step of the runner's thread. -/
def work (s : FailoverTransport U) (w : Work) : FailoverTransport U :=
  match s.taskRunner.control with
  | .performing .backups =>
    { s with
      taskRunner := s.taskRunner.goto
        (.building (if s.updated.isEmpty then .uris else .updated) []) }
  | .performing (.building list failures) => s.build list failures w
  | .performing (.failover phase) => s.iterate phase w
  | .performing .close => { s with closeTask := [], taskRunner := s.taskRunner.finish .close }
  | _ => { s with taskRunner := s.taskRunner.advance s.isPendingTask Task.call }

/-! ## All threads -/

end FailoverTransport

inductive Event (U : Type)
  | start
  | setTransportListener (present : Bool)
  /-- `reconnect(rebalance)`, alone or at the end of a change of the lists. -/
  | reconnect (rebalance : Bool)
  /-- One URI of `addURI`, `add` or `reconnect(uri)`. -/
  | addURI (uri : U)
  /-- One URI of `removeURI`. -/
  | removeURI (uri : U)
  /-- The steps of `updateURIs`. -/
  | clearUpdated
  | addUpdated (uri : U)
  /-- `handleTransportFailure`. -/
  | failure (error : Exn)
  /-- A `ShutdownInfo` was sent. -/
  | shutdownInfo
  /-- `onBackupTransportFailure`, of a backup that is in the pool or was taken from it. -/
  | backupFailure (failed : BackupTransport U)
  /-- The thread of the runner: `iterate`, the backups, the close task. -/
  | work (w : Work)

namespace FailoverTransport

variable {U : Type}

/-- `iterate` has the reconnect mutex. -/
def locked (s : FailoverTransport U) : Bool :=
  match s.taskRunner.control with
  | .performing (.failover .enter) | .performing (.failover .delay) => false
  | .performing (.failover _) => true
  | _ => false

/-- `BackupTransportPool::iterate` has the lock of the backups. -/
def building (s : FailoverTransport U) : Bool :=
  match s.taskRunner.control with
  | .performing (.building _ _) => true
  | _ => false

variable [DecidableEq U]

/-- `FailoverTransport()`, with its options set. -/
def new (config : Config U) : FailoverTransport U where
  config
  closed := false
  connected := false
  started := false
  initialized := false
  firstConnection := true
  shutdown := false
  doRebalance := false
  connectedToPriority := false
  connectFailures := 0
  reconnectDelay := 10
  uris := { URIPool.new with randomize := config.randomize }
  priorityUris := URIPool.new.addURIs config.priorityURIs
  updated := .new
  connectedTransportURI := none
  connectedTransport := none
  connectionFailure := none
  backups := .new config.backupPoolSize
  closeTask := []
  taskRunner := ((CompositeTaskRunner.new.addTask .backups).addTask .failover).addTask .close
  transportListener := false
  notices := []
  nextTransport := 0
  last := none

/-- A backup fails; its URI and transport are handed on in every round over the list, the URI
being added only once. -/
def backupFailure (s : FailoverTransport U) (failed : BackupTransport U) : FailoverTransport U :=
  if s.backups.backups.isEmpty then s
  else
    { s with
      backups := s.backups.onBackupTransportFailure failed
      uris := s.uris.addURI failed.uri
      closeTask :=
        s.closeTask ++ List.replicate s.backups.backups.length failed.transport }.wakeup

/-- One step of one thread; a step that waits for a lock changes nothing. -/
def step (s : FailoverTransport U) : Event U → FailoverTransport U
  | .start => if s.locked then s else s.start
  | .setTransportListener present => { s with transportListener := present }
  | .reconnect rebalance => if s.locked then s else s.reconnect rebalance
  | .addURI uri => { s with uris := s.uris.addURI uri }
  | .removeURI uri => if s.locked then s else { s with uris := s.uris.removeURI uri }
  | .clearUpdated =>
    if s.config.updateURIsSupported then { s with updated := s.updated.clear } else s
  | .addUpdated uri =>
    if s.config.updateURIsSupported then { s with updated := s.updated.addURI uri } else s
  | .failure error => if s.locked then s else s.handleTransportFailure error
  | .shutdownInfo => if s.locked then s else { s with shutdown := true }
  | .backupFailure failed => if s.building then s else s.backupFailure failed
  | .work w => s.work w

def machine : Machine (FailoverTransport U) (Event U) Unit where
  step s event := (s.step event, ())

end FailoverTransport

end ActivemqCpp.Transport.Failover
