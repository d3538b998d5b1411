import Clavis.Domain

/-!
# Clavis — the commands of the Raft log

`internal/raftlog`: the protobuf messages serialised into log entries and their constructors.
A `CommandWrapper` carries its type twice, as an explicit enum and as the case of a `oneof`, and a
decoded entry may hold a pair that disagrees. The generated getters are nil-safe: asking for a
payload of another case yields a message of zero fields, which is what `getCreateLease` and its
siblings return.
-/

namespace Clavis

/-- `CommandType`, an open proto3 enum: numbers outside the table are kept. -/
inductive CommandType where
  | unspecified
  | createLease
  | renewLease
  | acquireLock
  | releaseLock
  | expireLease
  | upsertEndpoint
  | removeEndpoint
  | unrecognized (number : Int32) (outside : number < 0 ∨ 7 < number)
deriving DecidableEq

/-- `CommandType.String`: the declared name, or the number when there is none. -/
def CommandType.string : CommandType → String
  | unspecified => "COMMAND_TYPE_UNSPECIFIED"
  | createLease => "COMMAND_TYPE_CREATE_LEASE"
  | renewLease => "COMMAND_TYPE_RENEW_LEASE"
  | acquireLock => "COMMAND_TYPE_ACQUIRE_LOCK"
  | releaseLock => "COMMAND_TYPE_RELEASE_LOCK"
  | expireLease => "COMMAND_TYPE_EXPIRE_LEASE"
  | upsertEndpoint => "COMMAND_TYPE_UPSERT_ENDPOINT"
  | removeEndpoint => "COMMAND_TYPE_REMOVE_ENDPOINT"
  | unrecognized number _ => toString number.toInt

structure CreateLeaseCommand where
  ownerId : String
  ttlNanos : Int64
  createAtUnixNano : Int64
deriving DecidableEq

/-- No longer written; ignored on replay. -/
structure RenewLeaseCommand where
  leaseId : UInt64
  renewedAtUnixNano : Int64
deriving DecidableEq

/-- The timestamp is no longer set or read. -/
structure AcquireLockCommand where
  lockName : String
  ownerId : String
  leaseId : UInt64
  acquiredAtUnixNano : Int64
deriving DecidableEq

structure ReleaseLockCommand where
  lockName : String
  leaseId : UInt64
deriving DecidableEq

/-- The timestamp is no longer set or read. -/
structure ExpireLeaseCommand where
  leaseId : UInt64
  expiredAtUnixNano : Int64
deriving DecidableEq

structure UpsertEndpointCommand where
  nodeId : String
  grpcAddress : String
deriving DecidableEq

structure RemoveEndpointCommand where
  nodeId : String
deriving DecidableEq

/-- The `oneof payload` of `CommandWrapper`. -/
inductive Payload where
  | createLease (cmd : CreateLeaseCommand)
  | renewLease (cmd : RenewLeaseCommand)
  | acquireLock (cmd : AcquireLockCommand)
  | releaseLock (cmd : ReleaseLockCommand)
  | expireLease (cmd : ExpireLeaseCommand)
  | upsertEndpoint (cmd : UpsertEndpointCommand)
  | removeEndpoint (cmd : RemoveEndpointCommand)
deriving DecidableEq

/-- `CommandWrapper`, one log entry. -/
structure CommandWrapper where
  type : CommandType
  payload : Option Payload
deriving DecidableEq

namespace CommandWrapper

/-! ## The generated getters -/

def getCreateLease (c : CommandWrapper) : CreateLeaseCommand :=
  match c.payload with
  | some (.createLease cmd) => cmd
  | _ => ⟨"", 0, 0⟩

def getAcquireLock (c : CommandWrapper) : AcquireLockCommand :=
  match c.payload with
  | some (.acquireLock cmd) => cmd
  | _ => ⟨"", "", 0, 0⟩

def getReleaseLock (c : CommandWrapper) : ReleaseLockCommand :=
  match c.payload with
  | some (.releaseLock cmd) => cmd
  | _ => ⟨"", 0⟩

def getExpireLease (c : CommandWrapper) : ExpireLeaseCommand :=
  match c.payload with
  | some (.expireLease cmd) => cmd
  | _ => ⟨0, 0⟩

def getUpsertEndpoint (c : CommandWrapper) : UpsertEndpointCommand :=
  match c.payload with
  | some (.upsertEndpoint cmd) => cmd
  | _ => ⟨"", ""⟩

def getRemoveEndpoint (c : CommandWrapper) : RemoveEndpointCommand :=
  match c.payload with
  | some (.removeEndpoint cmd) => cmd
  | _ => ⟨""⟩

/-- The lease a command expires. -/
def expires (c : CommandWrapper) : Option UInt64 :=
  if c.type = .expireLease then some c.getExpireLease.leaseId else none

theorem expires_eq_some {c : CommandWrapper} {id : UInt64} :
    c.expires = some id ↔ c.type = .expireLease ∧ c.getExpireLease.leaseId = id := by
  simp [expires]

end CommandWrapper

/-! ## The constructors of `command.go` -/

def newCreateLeaseCmd (ownerID : String) (ttl : Duration) (now : Int) : CommandWrapper :=
  ⟨.createLease, some (.createLease ⟨ownerID, ttl, Time.unixNano now⟩)⟩

def newAcquireLockCmd (lockName ownerID : String) (leaseID : UInt64) : CommandWrapper :=
  ⟨.acquireLock, some (.acquireLock ⟨lockName, ownerID, leaseID, 0⟩)⟩

def newReleaseLockCmd (lockName : String) (leaseID : UInt64) : CommandWrapper :=
  ⟨.releaseLock, some (.releaseLock ⟨lockName, leaseID⟩)⟩

def newExpireLeaseCmd (leaseID : UInt64) : CommandWrapper :=
  ⟨.expireLease, some (.expireLease ⟨leaseID, 0⟩)⟩

def newUpsertEndpointCmd (nodeID grpcAddress : String) : CommandWrapper :=
  ⟨.upsertEndpoint, some (.upsertEndpoint ⟨nodeID, grpcAddress⟩)⟩

def newRemoveEndpointCmd (nodeID : String) : CommandWrapper :=
  ⟨.removeEndpoint, some (.removeEndpoint ⟨nodeID⟩)⟩

end Clavis
