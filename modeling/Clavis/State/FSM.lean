import Clavis.RaftLog
import Clavis.Lib.RangeDelete

/-!
# Clavis — the replicated state machine

`internal/state/fsm.go`. `FSM.apply` dispatches a command to its handler and returns the new state
with the reply, or `none` when the handler would dereference a nil pointer: the maps hold pointers,
and a restored snapshot may put a nil one into the lock map. The calls of the lock-freed hook are
part of the result (`Applied.freed`); they form a multiset because a lease expiry makes them in the
order in which Go's `range` happens to visit the lock map.
-/

namespace Clavis

open Lib

/-- `FSM`, less its mutex and its hook. -/
structure FSM where
  locks : Finmap (fun _ : String => Ptr Lock)
  leases : Finmap (fun _ : UInt64 => Ptr Lease)
  endpoints : Finmap (fun _ : String => String)
  fencingCounter : UInt64
  nextLeaseID : UInt64

/-- `NewFSM`. -/
def newFSM : FSM := ⟨∅, ∅, ∅, 0, 1⟩

structure CreateLeaseResponse where
  leaseID : UInt64
  expiresAt : Int
  ttl : Duration
deriving DecidableEq

structure AcquireLockResponse where
  fencingToken : UInt64
  leaseTTL : Duration
deriving DecidableEq

structure ExpireLeaseResponse where
  locksReleased : Nat
deriving DecidableEq

/-- The `any` a successful `Apply` returns; `none` is Go's `nil`. -/
inductive Reply where
  | none
  | createLease (resp : CreateLeaseResponse)
  | acquireLock (resp : AcquireLockResponse)
  | expireLease (resp : ExpireLeaseResponse)
deriving DecidableEq

abbrev Result := Except DomainError Reply

/-- The fencing token of a successful acquire. -/
def Result.token : Result → Option UInt64
  | .ok (.acquireLock resp) => some resp.fencingToken
  | _ => none

/-- The lease ID of a successful `CreateLease`. -/
def Result.newLease : Result → Option UInt64
  | .ok (.createLease resp) => some resp.leaseID
  | _ => none

/-- What one `Apply` does: the state it leaves, what it returns and the names it passes to the
lock-freed hook. -/
structure Applied where
  fsm : FSM
  result : Result
  freed : Multiset String

namespace FSM

/-- Return an error; every handler does so before its first write. -/
def fail (f : FSM) (e : DomainError) : Applied := ⟨f, .error e, 0⟩

/-- Return a reply without calling the hook. -/
def reply (f : FSM) (r : Reply) : Applied := ⟨f, .ok r, 0⟩

/-! ## Times carried by commands -/

def commandTime (unixNano : Int64) : Except DomainError Int :=
  if unixNano ≤ 0 then .error .invalidTimestamp else .ok unixNano.toInt

def leaseExpiryAt (start : Int) (ttl : Duration) : Except DomainError Int :=
  let maxExpiryNanos : Int64 := Int64.maxValue - Time.unixNano start
  if ttl ≤ 0 ∨ maxExpiryNanos ≤ 0 ∨ ttl > maxExpiryNanos then .error .invalidLeaseTTL
  else .ok (Time.add start ttl)

/-! ## The handlers -/

def applyCreateLease (f : FSM) (cmd : CreateLeaseCommand) : Applied :=
  let ttl : Duration := cmd.ttlNanos
  if ttl ≤ 0 then f.fail .invalidLeaseTTL
  else match commandTime cmd.createAtUnixNano with
    | .error e => f.fail e
    | .ok createdAt =>
      match leaseExpiryAt createdAt ttl with
      | .error e => f.fail e
      | .ok expiresAt =>
        let leaseID := f.nextLeaseID
        let lease : Lease := ⟨leaseID, cmd.ownerId, Time.unixNano expiresAt, ttl⟩
        { f with
          nextLeaseID := f.nextLeaseID + 1
          leases := f.leases.insert leaseID (some lease) }.reply
            (.createLease ⟨leaseID, expiresAt, ttl⟩)

def applyAcquireLock (f : FSM) (cmd : AcquireLockCommand) : Option Applied :=
  match f.leases.lookup cmd.leaseId with
  | none => some (f.fail .leaseNotFound)
  | some leasePtr => do
    let lease ← leasePtr
    if lease.ownerID ≠ cmd.ownerId then some (f.fail .notLockOwner)
    else match f.locks.lookup cmd.lockName with
      | some lockPtr => do
        let existingLock ← lockPtr
        -- re-acquisition by the same lease is idempotent
        if existingLock.leaseID = cmd.leaseId then
          some (f.reply (.acquireLock ⟨existingLock.fencingToken, lease.ttl⟩))
        else some (f.fail .lockAlreadyHeld)
      | none =>
        let fencingToken := f.fencingCounter + 1
        let lock : Lock := ⟨cmd.lockName, cmd.ownerId, fencingToken, cmd.leaseId⟩
        some ({ f with
          fencingCounter := fencingToken
          locks := f.locks.insert cmd.lockName (some lock) }.reply
            (.acquireLock ⟨fencingToken, lease.ttl⟩))

def applyReleaseLock (f : FSM) (cmd : ReleaseLockCommand) : Option Applied :=
  match f.locks.lookup cmd.lockName with
  | none => some (f.fail .lockNotFound)
  | some lockPtr => do
    let lock ← lockPtr
    if lock.leaseID ≠ cmd.leaseId then some (f.fail .notLockOwner)
    else some ⟨{ f with locks := f.locks.erase cmd.lockName }, .ok .none, {cmd.lockName}⟩

/-- The test of the cascade's loop body, `lock.LeaseID == lease.LeaseID`. -/
def boundTo (leaseID : UInt64) (_lockName : String) (lockPtr : Ptr Lock) : Option Bool :=
  lockPtr.map fun lock => decide (lock.leaseID = leaseID)

def applyExpireLease (f : FSM) (cmd : ExpireLeaseCommand) : Option Applied :=
  match f.leases.lookup cmd.leaseId with
  | none => some (f.reply (.expireLease ⟨0⟩))
  | some leasePtr => do
    let lease ← leasePtr
    -- the record's own ID, not the key it was found under, drives the cascade
    let loop ← rangeDelete (boundTo lease.leaseID) f.locks
    some ⟨{ f with locks := loop.map, leases := f.leases.erase lease.leaseID },
      .ok (.expireLease ⟨loop.count⟩), loop.removed⟩

def applyUpsertEndpoint (f : FSM) (cmd : UpsertEndpointCommand) : Applied :=
  if cmd.nodeId = "" ∨ cmd.grpcAddress = "" then f.fail .invalidClusterNode
  else { f with endpoints := f.endpoints.insert cmd.nodeId cmd.grpcAddress }.reply .none

def applyRemoveEndpoint (f : FSM) (cmd : RemoveEndpointCommand) : Applied :=
  if cmd.nodeId = "" then f.fail .invalidClusterNode
  else { f with endpoints := f.endpoints.erase cmd.nodeId }.reply .none

/-- `FSM.Apply`. -/
def apply (f : FSM) (cmd : CommandWrapper) : Option Applied :=
  match cmd.type with
  | .createLease => some (f.applyCreateLease cmd.getCreateLease)
  -- renewals used to be replicated; entries of older versions are ignored
  | .renewLease => some (f.reply .none)
  | .acquireLock => f.applyAcquireLock cmd.getAcquireLock
  | .releaseLock => f.applyReleaseLock cmd.getReleaseLock
  | .expireLease => f.applyExpireLease cmd.getExpireLease
  | .upsertEndpoint => some (f.applyUpsertEndpoint cmd.getUpsertEndpoint)
  | .removeEndpoint => some (f.applyRemoveEndpoint cmd.getRemoveEndpoint)
  | t => some (f.fail (.unknownCommand t.string))

/-- The state `Apply` leaves. -/
def next (f : FSM) (cmd : CommandWrapper) : Option FSM := (f.apply cmd).map Applied.fsm

/-! ## Read-only queries -/

/-- `GetLock`: a copy of the lock, if the name is held. -/
def getLock (f : FSM) (lockName : String) : Option (Option Lock) :=
  match f.locks.lookup lockName with
  | none => some none
  | some lockPtr => lockPtr.map some

/-- `GetLease`: a copy of the lease, if it exists. -/
def getLease (f : FSM) (leaseID : UInt64) : Option (Option Lease) :=
  match f.leases.lookup leaseID with
  | none => some none
  | some leasePtr => leasePtr.map some

/-- `Leases` may return `out`: a copy of every lease, in the order of one iteration of the map. -/
def ReturnsLeases (f : FSM) (out : List Lease) : Prop :=
  ((out.map some : List (Ptr Lease)) : Multiset (Ptr Lease)) = f.leases.entries.map (·.2)

instance (f : FSM) (out : List Lease) : Decidable (f.ReturnsLeases out) :=
  inferInstanceAs (Decidable (_ = _))

end FSM

end Clavis
