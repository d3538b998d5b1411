import Clavis.State.FSM

/-!
# Clavis — the state machine without nil pointers

A `Machine` is an `FSM` whose maps hold no nil pointer. `newFSM` is one, and on a `Machine` no
command panics and the result is a `Machine` again (`Machine.apply_cases`), so every log can be
replayed and the states and replies along it are total functions of the log.

`Machine.Outcome` says once what a command can do, one constructor per branch of the handlers that
writes, re-acquires or ignores, with the guards that lead there. Every later fact about logs is a
case analysis on it; no later proof unfolds a handler.
-/

namespace Clavis

open Lib

/-- A state machine none of whose entries is a nil pointer. -/
structure Machine where
  fsm : FSM
  locks_ne_nil : ∀ name, fsm.locks.lookup name ≠ some none
  leases_ne_nil : ∀ id, fsm.leases.lookup id ≠ some none

namespace Machine

theorem ext {m m' : Machine} (h : m.fsm = m'.fsm) : m = m' := by
  cases m
  cases m'
  cases h
  rfl

/-- `NewFSM` has no entries at all. -/
def new : Machine where
  fsm := newFSM
  locks_ne_nil := by
    intro name h
    have hempty : newFSM.locks.lookup name = none := Finmap.lookup_empty name
    rw [hempty] at h
    cases h
  leases_ne_nil := by
    intro id h
    have hempty : newFSM.leases.lookup id = none := Finmap.lookup_empty id
    rw [hempty] at h
    cases h

/-! ## Queries -/

/-- `GetLock`, which cannot panic here. -/
def getLock (m : Machine) (lockName : String) : Option Lock := (m.fsm.locks.lookup lockName).join

/-- `GetLease`, which cannot panic here. -/
def getLease (m : Machine) (leaseID : UInt64) : Option Lease :=
  (m.fsm.leases.lookup leaseID).join

/-- The lease that holds a lock. -/
def holder (m : Machine) (lockName : String) : Option UInt64 :=
  (m.getLock lockName).map Lock.leaseID

theorem getLock_eq_some {m : Machine} {lockName : String} {lock : Lock} :
    m.getLock lockName = some lock ↔ m.fsm.locks.lookup lockName = some (some lock) := by
  rw [getLock, Option.join_eq_some_iff]

theorem getLease_eq_some {m : Machine} {leaseID : UInt64} {lease : Lease} :
    m.getLease leaseID = some lease ↔ m.fsm.leases.lookup leaseID = some (some lease) := by
  rw [getLease, Option.join_eq_some_iff]

theorem getLock_eq_none {m : Machine} {lockName : String} :
    m.getLock lockName = none ↔ m.fsm.locks.lookup lockName = none := by
  cases h : m.fsm.locks.lookup lockName with
  | none => simp [getLock, h]
  | some lockPtr =>
    cases lockPtr with
    | none => exact absurd h (m.locks_ne_nil lockName)
    | some lock => simp [getLock, h]

theorem getLease_eq_none {m : Machine} {leaseID : UInt64} :
    m.getLease leaseID = none ↔ m.fsm.leases.lookup leaseID = none := by
  cases h : m.fsm.leases.lookup leaseID with
  | none => simp [getLease, h]
  | some leasePtr =>
    cases leasePtr with
    | none => exact absurd h (m.leases_ne_nil leaseID)
    | some lease => simp [getLease, h]

/-- The source's `GetLock` answers what `getLock` says. -/
theorem fsm_getLock (m : Machine) (lockName : String) :
    m.fsm.getLock lockName = some (m.getLock lockName) := by
  unfold FSM.getLock
  cases h : m.getLock lockName with
  | none => rw [getLock_eq_none.mp h]
  | some lock => rw [getLock_eq_some.mp h]; rfl

/-- The source's `GetLease` answers what `getLease` says. -/
theorem fsm_getLease (m : Machine) (leaseID : UInt64) :
    m.fsm.getLease leaseID = some (m.getLease leaseID) := by
  unfold FSM.getLease
  cases h : m.getLease leaseID with
  | none => rw [getLease_eq_none.mp h]
  | some lease => rw [getLease_eq_some.mp h]; rfl

theorem holder_eq_some {m : Machine} {lockName : String} {l : UInt64} :
    m.holder lockName = some l ↔ ∃ lock, m.getLock lockName = some lock ∧ lock.leaseID = l := by
  rw [holder, Option.map_eq_some_iff]

@[simp] theorem new_getLock (lockName : String) : new.getLock lockName = none :=
  getLock_eq_none.mpr (Finmap.lookup_empty lockName)

@[simp] theorem new_getLease (leaseID : UInt64) : new.getLease leaseID = none :=
  getLease_eq_none.mpr (Finmap.lookup_empty leaseID)

/-! ## What a command can do -/

/-- The lease record a `CreateLease` stores. -/
def createdLease (m : Machine) (cmd : CreateLeaseCommand) : Lease :=
  ⟨m.fsm.nextLeaseID, cmd.ownerId,
    Int64.ofInt (cmd.createAtUnixNano.toInt + cmd.ttlNanos.toInt), cmd.ttlNanos⟩

/-- The state a `CreateLease` leaves. -/
def withLease (m : Machine) (cmd : CreateLeaseCommand) : FSM :=
  { m.fsm with
    nextLeaseID := m.fsm.nextLeaseID + 1
    leases := m.fsm.leases.insert m.fsm.nextLeaseID (some (m.createdLease cmd)) }

/-- The lock record a fresh grant stores. -/
def grantedLock (m : Machine) (cmd : AcquireLockCommand) : Lock :=
  ⟨cmd.lockName, cmd.ownerId, m.fsm.fencingCounter + 1, cmd.leaseId⟩

/-- The state a fresh grant leaves. -/
def withLock (m : Machine) (cmd : AcquireLockCommand) : FSM :=
  { m.fsm with
    fencingCounter := m.fsm.fencingCounter + 1
    locks := m.fsm.locks.insert cmd.lockName (some (m.grantedLock cmd)) }

/-- The state an `UpsertEndpoint` leaves. -/
def withEndpoint (m : Machine) (cmd : UpsertEndpointCommand) : FSM :=
  { m.fsm with endpoints := m.fsm.endpoints.insert cmd.nodeId cmd.grpcAddress }

/-- Whether an entry of the lock map is bound to a lease. -/
def isBoundTo (leaseID : UInt64) (_lockName : String) (lockPtr : Ptr Lock) : Bool :=
  lockPtr.any fun lock => decide (lock.leaseID = leaseID)

/-- The locks bound to a lease. -/
def locksOf (m : Machine) (leaseID : UInt64) : Multiset String :=
  selected (isBoundTo leaseID) m.fsm.locks.entries

/-- **What a command can do**, with the guards of the branch that does it. -/
inductive Outcome (m : Machine) (c : CommandWrapper) : Applied → Prop where
  | rejected (e : DomainError) : Outcome m c (m.fsm.fail e)
  | ignored (r : Reply)
      (hcmd : (c.type = .renewLease ∧ r = .none) ∨
        (c.type = .expireLease ∧ m.getLease c.getExpireLease.leaseId = none ∧
          r = .expireLease ⟨0⟩)) :
      Outcome m c (m.fsm.reply r)
  | created (htype : c.type = .createLease)
      (httl : 0 < c.getCreateLease.ttlNanos.toInt)
      (hat : 0 < c.getCreateLease.createAtUnixNano.toInt)
      (hfits : c.getCreateLease.createAtUnixNano.toInt + c.getCreateLease.ttlNanos.toInt < 2 ^ 63) :
      Outcome m c ((m.withLease c.getCreateLease).reply (.createLease ⟨m.fsm.nextLeaseID,
        c.getCreateLease.createAtUnixNano.toInt + c.getCreateLease.ttlNanos.toInt,
        c.getCreateLease.ttlNanos⟩))
  | reacquired (htype : c.type = .acquireLock) (lease : Lease) (lock : Lock)
      (hlease : m.getLease c.getAcquireLock.leaseId = some lease)
      (howner : lease.ownerID = c.getAcquireLock.ownerId)
      (hlock : m.getLock c.getAcquireLock.lockName = some lock)
      (hheld : lock.leaseID = c.getAcquireLock.leaseId) :
      Outcome m c (m.fsm.reply (.acquireLock ⟨lock.fencingToken, lease.ttl⟩))
  | granted (htype : c.type = .acquireLock) (lease : Lease)
      (hlease : m.getLease c.getAcquireLock.leaseId = some lease)
      (howner : lease.ownerID = c.getAcquireLock.ownerId)
      (hfree : m.getLock c.getAcquireLock.lockName = none) :
      Outcome m c ((m.withLock c.getAcquireLock).reply
        (.acquireLock ⟨m.fsm.fencingCounter + 1, lease.ttl⟩))
  | released (htype : c.type = .releaseLock) (lock : Lock)
      (hlock : m.getLock c.getReleaseLock.lockName = some lock)
      (hheld : lock.leaseID = c.getReleaseLock.leaseId) :
      Outcome m c ⟨{ m.fsm with locks := m.fsm.locks.erase c.getReleaseLock.lockName },
        .ok .none, {c.getReleaseLock.lockName}⟩
  | expired (htype : c.type = .expireLease) (lease : Lease)
      (hlease : m.getLease c.getExpireLease.leaseId = some lease)
      (locks : Finmap (fun _ : String => Ptr Lock))
      (hlocks : ∀ name, locks.lookup name
        = (m.fsm.locks.lookup name).filter fun p => !isBoundTo lease.leaseID name p) :
      Outcome m c ⟨{ m.fsm with locks := locks, leases := m.fsm.leases.erase lease.leaseID },
        .ok (.expireLease ⟨Multiset.card (m.locksOf lease.leaseID)⟩), m.locksOf lease.leaseID⟩
  | upserted (htype : c.type = .upsertEndpoint) (hid : c.getUpsertEndpoint.nodeId ≠ "")
      (haddr : c.getUpsertEndpoint.grpcAddress ≠ "") :
      Outcome m c ((m.withEndpoint c.getUpsertEndpoint).reply .none)
  | removed (htype : c.type = .removeEndpoint) :
      Outcome m c
        ({ m.fsm with endpoints := m.fsm.endpoints.erase c.getRemoveEndpoint.nodeId }.reply .none)

/-! ### One lemma per handler -/

theorem commandTime_eq_ok {unixNano : Int64} {t : Int}
    (h : FSM.commandTime unixNano = .ok t) : 0 < unixNano.toInt ∧ t = unixNano.toInt := by
  unfold FSM.commandTime at h
  split at h
  · cases h
  · rename_i hpos
    cases h
    rw [Int64.le_iff_toInt_le] at hpos
    exact ⟨by simpa using hpos, rfl⟩

/-- The limit check of `leaseExpiryAt` is exact: a positive TTL is accepted from a positive start
only when the sum stays below 2^63. -/
theorem leaseExpiryAt_eq_ok {start : Int64} {ttl : Duration} {t : Int}
    (hstart : 0 < start.toInt) (h : FSM.leaseExpiryAt start.toInt ttl = .ok t) :
    start.toInt + ttl.toInt < 2 ^ 63 ∧ t = start.toInt + ttl.toInt := by
  unfold FSM.leaseExpiryAt at h
  simp only [Time.unixNano, Int64.ofInt_toInt] at h
  split at h
  · cases h
  · rename_i hguard
    cases h
    have hle : ttl ≤ Int64.maxValue - start := by
      by_contra hgt
      exact hguard (Or.inr (Or.inr (Int64.not_le.mp hgt)))
    have hlt := start.toInt_lt
    have hsub : (Int64.maxValue - start).toInt = 2 ^ 63 - 1 - start.toInt := by
      rw [Int64.toInt_sub, Int64.toInt_maxValue]
      exact Int.bmod_eq_of_le (by omega) (by omega)
    rw [Int64.le_iff_toInt_le, hsub] at hle
    exact ⟨by omega, rfl⟩

theorem applyCreateLease_outcome (m : Machine) (c : CommandWrapper)
    (htype : c.type = .createLease) :
    Outcome m c (m.fsm.applyCreateLease c.getCreateLease) := by
  unfold FSM.applyCreateLease
  dsimp only
  split
  · exact .rejected _
  · rename_i httl
    rw [Int64.le_iff_toInt_le] at httl
    split
    · exact .rejected _
    · rename_i createdAt hat
      obtain ⟨hpos, rfl⟩ := commandTime_eq_ok hat
      split
      · exact .rejected _
      · rename_i expiresAt hexp
        obtain ⟨hfits, rfl⟩ := leaseExpiryAt_eq_ok hpos hexp
        exact .created htype (by simpa using httl) hpos hfits

theorem applyAcquireLock_outcome (m : Machine) (c : CommandWrapper)
    (htype : c.type = .acquireLock) :
    ∃ a, m.fsm.applyAcquireLock c.getAcquireLock = some a ∧ Outcome m c a := by
  unfold FSM.applyAcquireLock
  cases hlease : m.getLease c.getAcquireLock.leaseId with
  | none =>
    rw [getLease_eq_none.mp hlease]
    exact ⟨_, rfl, .rejected _⟩
  | some lease =>
    rw [getLease_eq_some.mp hlease]
    simp only [Option.bind_eq_bind, Option.bind_some]
    split
    · exact ⟨_, rfl, .rejected _⟩
    · rename_i howner
      have howner' : lease.ownerID = c.getAcquireLock.ownerId := by simpa using howner
      cases hlock : m.getLock c.getAcquireLock.lockName with
      | none =>
        rw [getLock_eq_none.mp hlock]
        exact ⟨_, rfl, .granted htype lease hlease howner' hlock⟩
      | some lock =>
        rw [getLock_eq_some.mp hlock]
        simp only [Option.bind_some]
        split
        · rename_i hheld
          exact ⟨_, rfl, .reacquired htype lease lock hlease howner' hlock hheld⟩
        · exact ⟨_, rfl, .rejected _⟩

theorem applyReleaseLock_outcome (m : Machine) (c : CommandWrapper)
    (htype : c.type = .releaseLock) :
    ∃ a, m.fsm.applyReleaseLock c.getReleaseLock = some a ∧ Outcome m c a := by
  unfold FSM.applyReleaseLock
  cases hlock : m.getLock c.getReleaseLock.lockName with
  | none =>
    rw [getLock_eq_none.mp hlock]
    exact ⟨_, rfl, .rejected _⟩
  | some lock =>
    rw [getLock_eq_some.mp hlock]
    simp only [Option.bind_eq_bind, Option.bind_some]
    split
    · exact ⟨_, rfl, .rejected _⟩
    · rename_i hheld
      exact ⟨_, rfl, .released htype lock hlock (by simpa using hheld)⟩

/-- The cascade's test is decided on every entry, because no entry is nil. -/
theorem boundTo_eq_some (m : Machine) (leaseID : UInt64) (name : String) (p : Ptr Lock)
    (hp : m.fsm.locks.lookup name = some p) :
    FSM.boundTo leaseID name p = some (isBoundTo leaseID name p) := by
  cases p with
  | none => exact absurd hp (m.locks_ne_nil name)
  | some lock => rfl

theorem applyExpireLease_outcome (m : Machine) (c : CommandWrapper)
    (htype : c.type = .expireLease) :
    ∃ a, m.fsm.applyExpireLease c.getExpireLease = some a ∧ Outcome m c a := by
  unfold FSM.applyExpireLease
  cases hlease : m.getLease c.getExpireLease.leaseId with
  | none =>
    rw [getLease_eq_none.mp hlease]
    exact ⟨_, rfl, .ignored _ (Or.inr ⟨htype, hlease, rfl⟩)⟩
  | some lease =>
    rw [getLease_eq_some.mp hlease]
    obtain ⟨loop, hloop, hmap, hremoved, hcount⟩ :=
      rangeDelete_spec (m.boundTo_eq_some lease.leaseID)
    simp only [Option.bind_eq_bind, Option.bind_some, hloop, hremoved, hcount]
    exact ⟨_, rfl, .expired htype lease hlease loop.map hmap⟩

theorem applyUpsertEndpoint_outcome (m : Machine) (c : CommandWrapper)
    (htype : c.type = .upsertEndpoint) :
    Outcome m c (m.fsm.applyUpsertEndpoint c.getUpsertEndpoint) := by
  unfold FSM.applyUpsertEndpoint
  split
  · exact .rejected _
  · rename_i hne
    exact .upserted htype (fun h => hne (Or.inl h)) (fun h => hne (Or.inr h))

theorem applyRemoveEndpoint_outcome (m : Machine) (c : CommandWrapper)
    (htype : c.type = .removeEndpoint) :
    Outcome m c (m.fsm.applyRemoveEndpoint c.getRemoveEndpoint) := by
  unfold FSM.applyRemoveEndpoint
  split
  · exact .rejected _
  · exact .removed htype

/-- **No command panics**, and what it does is one of the outcomes. -/
theorem apply_cases (m : Machine) (c : CommandWrapper) :
    ∃ a, m.fsm.apply c = some a ∧ Outcome m c a := by
  unfold FSM.apply
  cases htype : c.type with
  | createLease => exact ⟨_, rfl, m.applyCreateLease_outcome c htype⟩
  | renewLease => exact ⟨_, rfl, .ignored _ (Or.inl ⟨htype, rfl⟩)⟩
  | acquireLock => exact m.applyAcquireLock_outcome c htype
  | releaseLock => exact m.applyReleaseLock_outcome c htype
  | expireLease => exact m.applyExpireLease_outcome c htype
  | upsertEndpoint => exact ⟨_, rfl, m.applyUpsertEndpoint_outcome c htype⟩
  | removeEndpoint => exact ⟨_, rfl, m.applyRemoveEndpoint_outcome c htype⟩
  | unspecified => exact ⟨_, rfl, .rejected _⟩
  | unrecognized number outside => exact ⟨_, rfl, .rejected _⟩

/-! ## Machines are closed under commands -/

theorem Outcome.locks_ne_nil {m : Machine} {c : CommandWrapper} {a : Applied}
    (h : Outcome m c a) : ∀ name, a.fsm.locks.lookup name ≠ some none := by
  intro name
  have hold := m.locks_ne_nil name
  cases h with
  | rejected | ignored | created | reacquired | upserted | removed => exact hold
  | granted =>
    simp only [FSM.reply, withLock, lookup_insert_eq_ite]
    split
    · simp
    · exact hold
  | released =>
    simp only [lookup_erase_eq_ite]
    split
    · simp
    · exact hold
  | expired _ lease _ locks hlocks =>
    intro hnil
    simp only [hlocks, Option.filter_eq_some_iff] at hnil
    exact hold hnil.1

theorem Outcome.leases_ne_nil {m : Machine} {c : CommandWrapper} {a : Applied}
    (h : Outcome m c a) : ∀ id, a.fsm.leases.lookup id ≠ some none := by
  intro id
  have hold := m.leases_ne_nil id
  cases h with
  | rejected | ignored | reacquired | granted | released | upserted | removed => exact hold
  | created =>
    simp only [FSM.reply, withLease, lookup_insert_eq_ite]
    split
    · simp
    · exact hold
  | expired =>
    simp only [lookup_erase_eq_ite]
    split
    · simp
    · exact hold

theorem apply_isSome (m : Machine) (c : CommandWrapper) : (m.fsm.apply c).isSome := by
  obtain ⟨a, ha, -⟩ := m.apply_cases c
  rw [ha]
  rfl

/-- `FSM.Apply` on a machine. -/
def apply (m : Machine) (c : CommandWrapper) : Applied := (m.fsm.apply c).get (m.apply_isSome c)

theorem fsm_apply (m : Machine) (c : CommandWrapper) : m.fsm.apply c = some (m.apply c) := by
  rw [apply, Option.some_get]

theorem outcome (m : Machine) (c : CommandWrapper) : Outcome m c (m.apply c) := by
  obtain ⟨a, ha, hout⟩ := m.apply_cases c
  rw [m.fsm_apply c] at ha
  cases ha
  exact hout

/-- The machine a command leaves. -/
def next (m : Machine) (c : CommandWrapper) : Machine where
  fsm := (m.apply c).fsm
  locks_ne_nil := (m.outcome c).locks_ne_nil
  leases_ne_nil := (m.outcome c).leases_ne_nil

theorem fsm_next (m : Machine) (c : CommandWrapper) : m.fsm.next c = some (m.next c).fsm := by
  rw [FSM.next, m.fsm_apply c]
  rfl

/-- The reply to a command. -/
def result (m : Machine) (c : CommandWrapper) : Result := (m.apply c).result

/-- The names a command passes to the lock-freed hook. -/
def freed (m : Machine) (c : CommandWrapper) : Multiset String := (m.apply c).freed

/-- Replay a log. -/
def replay (m : Machine) (log : List CommandWrapper) : Machine := log.foldl next m

@[simp] theorem replay_nil (m : Machine) : m.replay [] = m := rfl

@[simp] theorem replay_cons (m : Machine) (c : CommandWrapper) (log : List CommandWrapper) :
    m.replay (c :: log) = (m.next c).replay log := rfl

theorem replay_append (m : Machine) (log log' : List CommandWrapper) :
    m.replay (log ++ log') = (m.replay log).replay log' := by
  rw [replay, List.foldl_append]
  rfl

/-- The replies along a log. -/
def results (m : Machine) : List CommandWrapper → List Result
  | [] => []
  | c :: log => m.result c :: (m.next c).results log

end Machine

end Clavis
