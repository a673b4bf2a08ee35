import ActivemqCpp.Decaf.Lang

/-!
# The pools of the failover transport

`URIPool` is the free list of broker URIs: who connects to one takes it out, and puts it
back when the connection is gone. `BackupTransportPool` holds transports that are already
connected.

A transport is known by its number, a URI by its equality; the empty URI that a pool
starts with as its priority is `none`.
-/

namespace ActivemqCpp.Transport.Failover

open Decaf

/-! ## `URIPool` -/

structure URIPool (U : Type) where
  uriPool : List U
  priorityURI : Option U
  randomize : Bool
deriving DecidableEq

namespace URIPool

variable {U : Type}

/-- `URIPool()`. -/
def new : URIPool U := ⟨[], none, false⟩

def isEmpty (pool : URIPool U) : Bool := pool.uriPool.isEmpty

/-- `getURI`; `pick` is what the generator of a random pool yields. -/
def getURI (pool : URIPool U) (pick : Nat) : Except Exn (U × URIPool U) :=
  let index := if pool.randomize then pick % pool.uriPool.length else 0
  match pool.uriPool[index]? with
  | some uri => .ok (uri, { pool with uriPool := pool.uriPool.eraseIdx index })
  | none => .error .noSuchElement

def clear (pool : URIPool U) : URIPool U := { pool with uriPool := [] }

variable [DecidableEq U]

def contains (pool : URIPool U) (uri : U) : Bool := uri ∈ pool.uriPool

def isPriority (pool : URIPool U) (uri : U) : Bool := pool.priorityURI = some uri

def addURI (pool : URIPool U) (uri : U) : URIPool U :=
  { pool with
    priorityURI := pool.priorityURI.or (some uri)
    uriPool := if uri ∈ pool.uriPool then pool.uriPool else pool.uriPool ++ [uri] }

def addURIs (pool : URIPool U) (uris : List U) : URIPool U := uris.foldl addURI pool

def removeURI (pool : URIPool U) (uri : U) : URIPool U :=
  { pool with uriPool := pool.uriPool.erase uri }

omit [DecidableEq U] in
/-- A URI is taken exactly when there is one. -/
theorem getURI_cases (pool : URIPool U) (pick : Nat) :
    (pool.isEmpty = true ∧ pool.getURI pick = .error .noSuchElement) ∨
    (pool.isEmpty = false ∧ ∃ uri rest, pool.getURI pick = .ok (uri, rest) ∧
      rest.uriPool.length + 1 = pool.uriPool.length) := by
  obtain ⟨uris, priority, randomize⟩ := pool
  cases uris with
  | nil => exact .inl ⟨rfl, by simp [getURI]⟩
  | cons first others =>
    refine .inr ⟨rfl, ?_⟩
    have hindex : (if randomize then pick % (first :: others).length else 0) <
        (first :: others).length := by
      split
      · exact Nat.mod_lt _ (by simp)
      · simp
    simp only [getURI]
    rw [List.getElem?_eq_getElem hindex]
    refine ⟨_, _, rfl, ?_⟩
    rw [List.length_eraseIdx_of_lt hindex]
    omega

theorem length_addURI_le (pool : URIPool U) (uri : U) :
    (pool.addURI uri).uriPool.length ≤ pool.uriPool.length + 1 := by
  unfold addURI
  dsimp only
  split
  · omega
  · simp

end URIPool

/-! ## `BackupTransportPool` -/

structure BackupTransport (U : Type) where
  transport : Nat
  uri : U
  priority : Bool
deriving DecidableEq

/-- `priorityBackups` counts the priority backups that were made, less those that failed. -/
structure BackupTransportPool (U : Type) where
  backups : List (BackupTransport U)
  pending : Bool
  closed : Bool
  priorityBackups : Nat
  backupPoolSize : Int
  enabled : Bool
deriving DecidableEq

namespace BackupTransportPool

variable {U : Type}

/-- `BackupTransportPool(…)`. -/
def new (backupPoolSize : Int) : BackupTransportPool U := ⟨[], false, false, 0, backupPoolSize, false⟩

/-- `setEnabled`, but for the wakeup. -/
def setEnabled (p : BackupTransportPool U) (value : Bool) : BackupTransportPool U :=
  if p.closed then p
  else { p with enabled := value, backups := if value then p.backups else [] }

/-- `getBackup`, but for the wakeup. -/
def getBackup (p : BackupTransportPool U) :
    Except Exn (Option (BackupTransport U) × BackupTransportPool U) :=
  if p.enabled then
    .ok (p.backups.head?, { p with backups := p.backups.tail, pending := true })
  else .error .illegalState

def isPending (p : BackupTransportPool U) : Bool := p.enabled && p.pending

def isPriorityBackupAvailable (p : BackupTransportPool U) : Bool := 0 < p.priorityBackups

/-- `shouldBuildBackup`, with what it asks of its parent. -/
def shouldBuildBackup (p : BackupTransportPool U) (isPriorityBackup isConnectedToPriority : Bool) :
    Bool :=
  p.enabled &&
    ((isPriorityBackup && !isConnectedToPriority && p.priorityBackups == 0) ||
      p.backups.length < p.backupPoolSize)

/-- A new backup joins the list, a priority one in front. -/
def add (p : BackupTransportPool U) (backup : BackupTransport U) : BackupTransportPool U :=
  if backup.priority then
    { p with priorityBackups := p.priorityBackups + 1, backups := backup :: p.backups }
  else { p with backups := p.backups ++ [backup] }

/-- The loop of `onBackupTransportFailure` over the list: only the failed backup is taken
out, but the counter goes down in every round. -/
def onBackupTransportFailure (p : BackupTransportPool U) (failed : BackupTransport U) :
    BackupTransportPool U :=
  { p with
    backups := p.backups.filter fun backup => backup.transport ≠ failed.transport
    priorityBackups :=
      if failed.priority then p.priorityBackups - p.backups.length else p.priorityBackups }

end BackupTransportPool

end ActivemqCpp.Transport.Failover
