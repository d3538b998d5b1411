import Clavis.State.Invariants
import Clavis.Lib.Json

/-!
# Clavis — snapshots

`internal/state/raft_fsm.go`: taking a snapshot, persisting it as JSON, and restoring one into a
node, which replaces everything the node had once `validateSnapshot` accepts the decoded value.
The decoded maps may be nil and may hold nil pointers, so `FsmSnapshot` has both. Documents that
`Persist` did not write are decoded more leniently by `encoding/json` than by the codec here; what
`Restore` does with them is `FSM.restoreDecoded`, for any decoded value.

The two loops of `validateSnapshot` stop at the first offending entry of a map, and which one that
is depends on the order in which `range` visits the map; `Visits` is one such order for each map.
-/

namespace Clavis

open Lib

/-- `fsmSnapshot`; `none` is a nil map. -/
structure FsmSnapshot where
  locks : Option (Finmap (fun _ : String => Ptr Lock))
  leases : Option (Finmap (fun _ : UInt64 => Ptr Lease))
  endpoints : Option (Finmap (fun _ : String => String))
  fencingCounter : UInt64
  nextLeaseID : UInt64

/-! ## Taking a snapshot -/

/-- Copy a map of pointers by copying what each points to: the copy is the same map, and a nil
pointer panics. -/
def deepCopy {κ α : Type} (m : Finmap (fun _ : κ => Ptr α)) :
    Option (Finmap (fun _ : κ => Ptr α)) :=
  if ∀ e ∈ m.entries, e.2.isSome then some m else none

/-- `RaftFSM.Snapshot`. -/
def FSM.snapshot (f : FSM) : Option FsmSnapshot := do
  let locks ← deepCopy f.locks
  let leases ← deepCopy f.leases
  some ⟨some locks, some leases, some f.endpoints, f.fencingCounter, f.nextLeaseID⟩

/-! ## The JSON form

Field names are the struct tags of `fsmSnapshot` and, where there are none, the Go field names. -/

def lockCodec : Codec Lock where
  zero := ⟨"", "", 0, 0⟩
  encode := fun l => .obj [("Name", Codec.string.encode l.name),
    ("OwnerID", Codec.string.encode l.ownerID),
    ("FencingToken", Codec.uint64.encode l.fencingToken),
    ("LeaseID", Codec.uint64.encode l.leaseID)]
  decode
    | .obj fields => do
      some ⟨← Codec.string.ofField fields "Name", ← Codec.string.ofField fields "OwnerID",
        ← Codec.uint64.ofField fields "FencingToken", ← Codec.uint64.ofField fields "LeaseID"⟩
    | .null => some ⟨"", "", 0, 0⟩
    | _ => none
  decode_encode := by
    intro l
    simp only
    rw [Codec.string.ofField_of_field (a := l.name) rfl,
      Codec.string.ofField_of_field (a := l.ownerID) rfl,
      Codec.uint64.ofField_of_field (a := l.fencingToken) rfl,
      Codec.uint64.ofField_of_field (a := l.leaseID) rfl]
    rfl

def leaseCodec : Codec Lease where
  zero := ⟨0, "", 0, 0⟩
  encode := fun l => .obj [("LeaseID", Codec.uint64.encode l.leaseID),
    ("OwnerID", Codec.string.encode l.ownerID),
    ("ExpiresAtUnixNano", Codec.int64.encode l.expiresAtUnixNano),
    ("TTL", Codec.int64.encode l.ttl)]
  decode
    | .obj fields => do
      some ⟨← Codec.uint64.ofField fields "LeaseID", ← Codec.string.ofField fields "OwnerID",
        ← Codec.int64.ofField fields "ExpiresAtUnixNano", ← Codec.int64.ofField fields "TTL"⟩
    | .null => some ⟨0, "", 0, 0⟩
    | _ => none
  decode_encode := by
    intro l
    simp only
    rw [Codec.uint64.ofField_of_field (a := l.leaseID) rfl,
      Codec.string.ofField_of_field (a := l.ownerID) rfl,
      Codec.int64.ofField_of_field (a := l.expiresAtUnixNano) rfl,
      Codec.int64.ofField_of_field (a := l.ttl) rfl]
    rfl

def locksCodec : Codec (Option (Finmap (fun _ : String => Ptr Lock))) :=
  Codec.map .string (lockCodec.ptr (by intro l h; cases h))

def leasesCodec : Codec (Option (Finmap (fun _ : UInt64 => Ptr Lease))) :=
  Codec.map .uint64 (leaseCodec.ptr (by intro l h; cases h))

def endpointsCodec : Codec (Option (Finmap (fun _ : String => String))) :=
  Codec.map .string .string

/-- The JSON form of a snapshot, as `Persist` writes it and `Restore` reads it back. -/
def snapshotCodec : Codec FsmSnapshot where
  zero := ⟨none, none, none, 0, 0⟩
  encode := fun s => .obj [("locks", locksCodec.encode s.locks),
    ("leases", leasesCodec.encode s.leases),
    ("endpoints", endpointsCodec.encode s.endpoints),
    ("fencing_counter", Codec.uint64.encode s.fencingCounter),
    ("next_lease_id", Codec.uint64.encode s.nextLeaseID)]
  decode
    | .obj fields => do
      some ⟨← locksCodec.ofField fields "locks", ← leasesCodec.ofField fields "leases",
        ← endpointsCodec.ofField fields "endpoints",
        ← Codec.uint64.ofField fields "fencing_counter",
        ← Codec.uint64.ofField fields "next_lease_id"⟩
    | .null => some ⟨none, none, none, 0, 0⟩
    | _ => none
  decode_encode := by
    intro s
    simp only
    rw [locksCodec.ofField_of_field (a := s.locks) rfl,
      leasesCodec.ofField_of_field (a := s.leases) rfl,
      endpointsCodec.ofField_of_field (a := s.endpoints) rfl,
      Codec.uint64.ofField_of_field (a := s.fencingCounter) rfl,
      Codec.uint64.ofField_of_field (a := s.nextLeaseID) rfl]
    rfl

/-- `fsmSnapshot.Persist`, into a sink that takes what is written. -/
def FsmSnapshot.persist (s : FsmSnapshot) : Json := snapshotCodec.encode s

/-! ## Restoring -/

/-- The errors of `validateSnapshot`. -/
inductive SnapshotError where
  | locksMissing
  | leasesMissing
  | leaseNil (leaseID : UInt64)
  | leaseInvalidExpiry (leaseID : UInt64)
  | leaseInvalidTTL (leaseID : UInt64)
  | endpointEmptyNodeID
  | endpointEmptyAddress (nodeID : String)
deriving DecidableEq

def SnapshotError.error : SnapshotError → String
  | locksMissing => "snapshot locks missing"
  | leasesMissing => "snapshot leases missing"
  | leaseNil id => "snapshot lease " ++ id.toNat.repr ++ " is nil"
  | leaseInvalidExpiry id => "snapshot lease " ++ id.toNat.repr ++ " has invalid expiry"
  | leaseInvalidTTL id => "snapshot lease " ++ id.toNat.repr ++ " has invalid ttl"
  | endpointEmptyNodeID => "snapshot endpoint has empty node id"
  | endpointEmptyAddress nodeID => "snapshot endpoint " ++ nodeID ++ " has empty grpc address"

/-- What `Restore` fails with: a decoding error or a validation error. -/
inductive RestoreError where
  | decode
  | invalid (e : SnapshotError)
deriving DecidableEq

/-- The body of the lease loop. -/
def checkLease (leaseID : UInt64) (leasePtr : Ptr Lease) : Except SnapshotError Unit :=
  match leasePtr with
  | none => .error (.leaseNil leaseID)
  | some lease =>
    if lease.expiresAtUnixNano ≤ 0 then .error (.leaseInvalidExpiry leaseID)
    else if lease.ttl ≤ 0 then .error (.leaseInvalidTTL leaseID)
    else .ok ()

/-- The body of the endpoint loop. -/
def checkEndpoint (nodeID grpcAddr : String) : Except SnapshotError Unit :=
  if nodeID = "" then .error .endpointEmptyNodeID
  else if grpcAddr = "" then .error (.endpointEmptyAddress nodeID)
  else .ok ()

/-- An order in which `range` visits each map of a snapshot; ranging over a nil map visits
nothing. -/
structure Visits (snap : FsmSnapshot) where
  leases : List (Sigma fun _ : UInt64 => Ptr Lease)
  endpoints : List (Sigma fun _ : String => String)
  leases_eq : (leases : Multiset _) = (snap.leases.getD ∅).entries
  endpoints_eq : (endpoints : Multiset _) = (snap.endpoints.getD ∅).entries

/-- There is always some order. -/
noncomputable def someVisits (snap : FsmSnapshot) : Visits snap where
  leases := (snap.leases.getD ∅).entries.toList
  endpoints := (snap.endpoints.getD ∅).entries.toList
  leases_eq := Multiset.coe_toList _
  endpoints_eq := Multiset.coe_toList _

/-- Run a check on every visited entry, up to the first error. -/
def checkAll {ε : Type} (check : ε → Except SnapshotError Unit) : List ε → Except SnapshotError Unit
  | [] => .ok ()
  | e :: es => match check e with
    | .error err => .error err
    | .ok () => checkAll check es

/-- `validateSnapshot`. -/
def validateSnapshot (snap : FsmSnapshot) (visits : Visits snap) : Except SnapshotError Unit :=
  if snap.locks.isNone then .error .locksMissing
  else if snap.leases.isNone then .error .leasesMissing
  else match checkAll (fun e => checkLease e.1 e.2) visits.leases with
    | .error err => .error err
    | .ok () => checkAll (fun e => checkEndpoint e.1 e.2) visits.endpoints

/-- Older snapshots omit the endpoint map; `Restore` gives them an empty one. -/
def FsmSnapshot.withEndpoints (snap : FsmSnapshot) : FsmSnapshot :=
  { snap with endpoints := some (snap.endpoints.getD ∅) }

/-- `RaftFSM.Restore` from the decoded value on: the state afterwards and the error returned, if
any. -/
def FSM.restoreDecoded (visits : ∀ snap, Visits snap) (f : FSM) (decoded : FsmSnapshot) :
    FSM × Except RestoreError Unit :=
  let snap := decoded.withEndpoints
  match validateSnapshot snap (visits snap) with
  | .error err => (f, .error (.invalid err))
  | .ok () =>
    ({ locks := snap.locks.getD ∅
       leases := snap.leases.getD ∅
       endpoints := snap.endpoints.getD ∅
       fencingCounter := snap.fencingCounter
       nextLeaseID := snap.nextLeaseID }, .ok ())

/-- `RaftFSM.Restore`. -/
def FSM.restore (visits : ∀ snap, Visits snap) (f : FSM) (persisted : Json) :
    FSM × Except RestoreError Unit :=
  match snapshotCodec.decode persisted with
  | none => (f, .error .decode)
  | some decoded => f.restoreDecoded visits decoded

/-! ## Snapshots of machines

A machine has no nil pointer, so taking its snapshot succeeds; its leases and endpoints pass every
check, so restoring it succeeds and yields the machine's state, whatever the node had before. -/

theorem checkAll_eq_ok {ε : Type} {check : ε → Except SnapshotError Unit} {es : List ε}
    (h : ∀ e ∈ es, check e = .ok ()) : checkAll check es = .ok () := by
  induction es with
  | nil => rfl
  | cons e es ih =>
    rw [checkAll, h e (by simp)]
    exact ih fun e' he' => h e' (by simp [he'])

/-- The snapshot of a state without nil pointers. -/
def FSM.toSnapshot (f : FSM) : FsmSnapshot :=
  ⟨some f.locks, some f.leases, some f.endpoints, f.fencingCounter, f.nextLeaseID⟩

theorem deepCopy_eq_some {κ α : Type} [DecidableEq κ] {m : Finmap (fun _ : κ => Ptr α)}
    (h : ∀ k, m.lookup k ≠ some none) : deepCopy m = some m := by
  rw [deepCopy, if_pos]
  rintro ⟨k, p⟩ he
  have hlook : m.lookup k = some p := Finmap.mem_lookup_iff.mpr he
  cases p with
  | none => exact absurd hlook (h k)
  | some a => rfl

theorem Machine.snapshot_eq (m : Machine) : m.fsm.snapshot = some m.fsm.toSnapshot := by
  unfold FSM.snapshot
  rw [deepCopy_eq_some m.locks_ne_nil, deepCopy_eq_some m.leases_ne_nil]
  rfl

theorem validateSnapshot_toSnapshot {m : Machine} (h : m.Storable)
    (visits : Visits m.fsm.toSnapshot) :
    validateSnapshot m.fsm.toSnapshot visits = .ok () := by
  have hleases : checkAll (fun e => checkLease e.1 e.2) visits.leases = .ok () := by
    apply checkAll_eq_ok
    rintro ⟨id, leasePtr⟩ he
    have hlook : m.fsm.leases.lookup id = some leasePtr := by
      rw [← Multiset.mem_coe, visits.leases_eq] at he
      exact Finmap.mem_lookup_iff.mpr he
    cases leasePtr with
    | none => exact absurd hlook (m.leases_ne_nil id)
    | some lease =>
      obtain ⟨httl, hexp⟩ := h.lease_times id lease (Machine.getLease_eq_some.mpr hlook)
      simp only [checkLease]
      rw [if_neg (Int64.not_le.mpr hexp), if_neg (Int64.not_le.mpr httl)]
  have hendpoints : checkAll (fun e => checkEndpoint e.1 e.2) visits.endpoints = .ok () := by
    apply checkAll_eq_ok
    rintro ⟨nodeID, addr⟩ he
    have hlook : m.fsm.endpoints.lookup nodeID = some addr := by
      rw [← Multiset.mem_coe, visits.endpoints_eq] at he
      exact Finmap.mem_lookup_iff.mpr he
    obtain ⟨hid, haddr⟩ := h.endpoint_nonempty nodeID addr hlook
    simp only [checkEndpoint]
    rw [if_neg hid, if_neg haddr]
  have hsome : m.fsm.toSnapshot.locks.isNone = false ∧ m.fsm.toSnapshot.leases.isNone = false :=
    ⟨rfl, rfl⟩
  simp only [validateSnapshot, hsome.1, hsome.2, Bool.false_eq_true, if_false, hleases, hendpoints]

/-- **A persisted snapshot restores the state it was taken of**, over any earlier state. -/
theorem restore_persist {m : Machine} (h : m.Storable) (visits : ∀ snap, Visits snap) (old : FSM) :
    old.restore visits m.fsm.toSnapshot.persist = (m.fsm, .ok ()) := by
  have hdec : snapshotCodec.decode m.fsm.toSnapshot.persist = some m.fsm.toSnapshot :=
    snapshotCodec.decode_encode _
  have hval : validateSnapshot m.fsm.toSnapshot.withEndpoints
      (visits m.fsm.toSnapshot.withEndpoints) = .ok () :=
    validateSnapshot_toSnapshot h (visits m.fsm.toSnapshot)
  simp only [FSM.restore, FSM.restoreDecoded, hdec, hval]
  rfl

/-! ## Log compaction -/

theorem Machine.results_append (m : Machine) (log log' : List CommandWrapper) :
    m.results (log ++ log') = m.results log ++ (m.replay log).results log' := by
  induction log generalizing m with
  | nil => rfl
  | cons c log ih => rw [List.cons_append, results, ih]; rfl

theorem Machine.length_results (m : Machine) (log : List CommandWrapper) :
    (m.results log).length = log.length := by
  induction log generalizing m with
  | nil => rfl
  | cons c log ih => rw [results, List.length_cons, ih, List.length_cons]

/-- **Snapshots are transparent.** Replay a prefix from a fresh state, take a snapshot, persist it
and restore it into a node with any state `old`: nothing fails, and replaying the suffix there gives
the replies and the state of replaying the whole log. -/
theorem snapshot_transparent (visits : ∀ snap, Visits snap) (old : FSM)
    (logPrefix logSuffix : List CommandWrapper) :
    ∃ (snap : FsmSnapshot) (restored : Machine),
      (Machine.new.replay logPrefix).fsm.snapshot = some snap ∧
      old.restore visits snap.persist = (restored.fsm, .ok ()) ∧
      restored.results logSuffix
        = (Machine.new.results (logPrefix ++ logSuffix)).drop logPrefix.length ∧
      restored.replay logSuffix = Machine.new.replay (logPrefix ++ logSuffix) := by
  have hstorable := Machine.storable_new.replay logPrefix
  refine ⟨_, Machine.new.replay logPrefix, Machine.snapshot_eq _,
    restore_persist hstorable visits old, ?_, ?_⟩
  · rw [Machine.results_append, ← Machine.length_results Machine.new logPrefix, List.drop_left]
  · rw [Machine.replay_append]

end Clavis
