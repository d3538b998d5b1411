import Clavis.State.Invariants

/-!
# Clavis — the life of a lease along a log

The allocator hands out every ID once, as long as it does not wrap. So an ID that has been
allocated names one record: from its creation on the record is the same in every state, until an
`ExpireLease` of that ID removes it for good. The trackers and the expiry loop, which work with
copies of lease records taken at different moments, rest on this.
-/

namespace Clavis.Machine

open Lib

section Step

variable {m : Machine} {c : CommandWrapper} {id : UInt64}

/-- Only a `CreateLease` creates leases. -/
theorem type_of_creates (h : m.Creates c) : c.type = .createLease := by
  unfold Creates result at h
  have hout := m.outcome c
  generalize m.apply c = a at hout h
  cases hout with
  | created htype => exact htype
  | ignored r hcmd => rcases hcmd with ⟨-, rfl⟩ | ⟨-, -, rfl⟩ <;> cases h
  | _ => cases h

/-- A command never writes a record under an allocated ID. -/
theorem getLease_next_of_allocated (hid : id < m.fsm.nextLeaseID) :
    (m.next c).getLease id = m.getLease id ∨ (m.next c).getLease id = none := by
  rcases m.getLease_next_cases c id with hsame | ⟨-, heq, -⟩ | ⟨_, -, -, -, hnone⟩
  · exact Or.inl hsame
  · exact absurd heq (UInt64.ne_of_lt hid)
  · exact Or.inr hnone

/-- Only the `ExpireLease` of a lease removes it. -/
theorem getLease_next_eq_some (h : m.Numbered) {lease : Lease} (hlease : m.getLease id = some lease)
    (hkeep : c.expires ≠ some id) : (m.next c).getLease id = some lease := by
  rcases m.getLease_next_cases c id with hsame | ⟨-, heq, -⟩ | ⟨lease', htype, hlease', hid, -⟩
  · rw [hsame, hlease]
  · exact absurd heq (UInt64.ne_of_lt (h.lease_range id lease hlease).2)
  · -- the record found under the command's ID carries that ID
    have hown := h.lease_id _ _ hlease'
    exact absurd (CommandWrapper.expires_eq_some.mpr ⟨htype, hown.symm.trans hid.symm⟩) hkeep

/-- An `ExpireLease` leaves no lease under its ID. -/
theorem getLease_next_of_expires (h : m.Keyed) (hexp : c.expires = some id) :
    (m.next c).getLease id = none := by
  obtain ⟨htype, rfl⟩ := CommandWrapper.expires_eq_some.mp hexp
  have happ : m.fsm.apply c = m.fsm.applyExpireLease c.getExpireLease := by rw [FSM.apply, htype]
  rw [m.fsm_apply c, FSM.applyExpireLease] at happ
  rw [next_getLease]
  cases hlease : m.getLease c.getExpireLease.leaseId with
  | none =>
    rw [getLease_eq_none.mp hlease] at happ
    rw [Option.some.inj happ]
    exact hlease
  | some lease =>
    obtain ⟨loop, hloop, -⟩ := rangeDelete_spec (m.boundTo_eq_some lease.leaseID)
    rw [getLease_eq_some.mp hlease] at happ
    simp only [Option.bind_eq_bind, Option.bind_some, hloop] at happ
    rw [Option.some.inj happ, join_lookup_erase, if_pos (h _ _ hlease).symm]

/-- A lease that is there stays there, whatever happens to the allocator, unless it is expired. -/
theorem isSome_getLease_next (h : m.Keyed) (hsome : (m.getLease id).isSome)
    (hkeep : c.expires ≠ some id) : ((m.next c).getLease id).isSome := by
  rcases m.getLease_next_cases c id with
    hsame | ⟨-, -, -, -, -, hnew⟩ | ⟨lease, htype, hlease, hid, -⟩
  · rw [hsame]
    exact hsome
  · rw [hnew]
    rfl
  · have hown := h _ _ hlease
    exact absurd (CommandWrapper.expires_eq_some.mpr ⟨htype, hown.symm.trans hid.symm⟩) hkeep

/-- A lease is there after a command only if it was before, or the command created it. -/
theorem isSome_or_newLease (h : ((m.next c).getLease id).isSome) :
    (m.getLease id).isSome ∨ (m.result c).newLease = some id := by
  rcases m.getLease_next_cases c id with hsame | ⟨hnew, hid, -⟩ | ⟨_, -, -, -, hnone⟩
  · exact Or.inl (hsame ▸ h)
  · exact Or.inr (hid ▸ hnew)
  · rw [hnone] at h
    cases h

/-- What is reported as created is there. -/
theorem isSome_getLease_of_newLease (h : (m.result c).newLease = some id) :
    ((m.next c).getLease id).isSome := by
  rw [result] at h
  rw [next_getLease]
  have hout := m.outcome c
  generalize m.apply c = a at hout h
  cases hout with
  | created =>
    cases h
    simp only [FSM.reply, withLease, join_lookup_insert, if_pos]
    rfl
  | ignored r hcmd => rcases hcmd with ⟨-, rfl⟩ | ⟨-, -, rfl⟩ <;> cases h
  | _ => cases h

/-- The ID of a new lease is the allocator's. -/
theorem newLease_eq (h : (m.result c).newLease = some id) : id = m.fsm.nextLeaseID := by
  rw [result] at h
  have hout := m.outcome c
  generalize m.apply c = a at hout h
  cases hout with
  | created =>
    cases h
    rfl
  | ignored r hcmd => rcases hcmd with ⟨-, rfl⟩ | ⟨-, -, rfl⟩ <;> cases h
  | _ => cases h

/-- A lock that is there after a command was there before, or its lease was. -/
theorem getLock_or_isSome_getLease {L : String} {lock : Lock}
    (h : (m.next c).getLock L = some lock) :
    m.getLock L = some lock ∨ (m.getLease lock.leaseID).isSome := by
  rw [next_getLock] at h
  have hout := m.outcome c
  generalize m.apply c = a at hout h
  cases hout with
  | rejected | ignored | created | reacquired | upserted | removed => exact Or.inl h
  | granted htype lease hlease =>
    simp only [FSM.reply, withLock, join_lookup_insert] at h
    split at h
    · cases h
      right
      rw [grantedLock, hlease]
      rfl
    · exact Or.inl h
  | released =>
    simp only [join_lookup_erase] at h
    split at h
    · cases h
    · exact Or.inl h
  | expired htype lease hlease locks hlocks =>
    simp only [hlocks, join_filter_isBoundTo, Option.filter_eq_some_iff] at h
    exact Or.inl h.1

/-- The `ExpireLease` of an existing lease frees every lock bound to it. -/
theorem leaseID_ne_of_expired {lease : Lease} (htype : c.type = .expireLease)
    (hlease : m.getLease c.getExpireLease.leaseId = some lease) {L : String} {lock : Lock}
    (hlock : (m.next c).getLock L = some lock) : lock.leaseID ≠ lease.leaseID := by
  have happ : m.fsm.apply c = m.fsm.applyExpireLease c.getExpireLease := by rw [FSM.apply, htype]
  obtain ⟨loop, hloop, hmap, -⟩ := rangeDelete_spec (m.boundTo_eq_some lease.leaseID)
  rw [m.fsm_apply c, FSM.applyExpireLease, getLease_eq_some.mp hlease] at happ
  simp only [Option.bind_eq_bind, Option.bind_some, hloop] at happ
  rw [next_getLock, Option.some.inj happ] at hlock
  simp only [hmap, join_filter_isBoundTo, Option.filter_eq_some_iff, decide_eq_true_eq] at hlock
  exact hlock.2

/-- An allocated ID stays allocated. -/
theorem allocated_next (hid : id < m.fsm.nextLeaseID)
    (hleases : m.Creates c → m.fsm.nextLeaseID.toNat + 1 < 2 ^ 64) :
    id < (m.next c).fsm.nextLeaseID := by
  rcases m.nextLeaseID_next_cases c with ⟨hcr, hnext⟩ | ⟨-, hnext⟩
  · rw [UInt64.lt_iff_toNat_lt] at hid ⊢
    rw [hnext, toNat_add_one (hleases hcr)]
    omega
  · rw [hnext]
    exact hid

end Step

/-- **A record does not change**: along a log that does not wrap the allocator, what is stored
under an allocated ID stays the same or is gone. -/
theorem getLease_replay_of_allocated {m : Machine} {id : UInt64} (hid : id < m.fsm.nextLeaseID)
    (log : List CommandWrapper) (hleases : m.fsm.nextLeaseID.toNat + m.leaseCount log < 2 ^ 64) :
    (m.replay log).getLease id = m.getLease id ∨ (m.replay log).getLease id = none := by
  induction log generalizing m with
  | nil => exact Or.inl rfl
  | cons c log ih =>
    rw [leaseCount] at hleases
    rw [replay_cons]
    have hcreates : m.Creates c → m.fsm.nextLeaseID.toNat + 1 < 2 ^ 64 := by
      intro hcr
      rw [if_pos hcr] at hleases
      omega
    have hrest : (m.next c).fsm.nextLeaseID.toNat + (m.next c).leaseCount log < 2 ^ 64 := by
      rcases m.nextLeaseID_next_cases c with ⟨hcr, hnext⟩ | ⟨hncr, hnext⟩
      · rw [if_pos hcr] at hleases
        rw [hnext, toNat_add_one (hcreates hcr)]
        omega
      · rw [if_neg hncr] at hleases
        rw [hnext]
        omega
    rcases ih (allocated_next hid hcreates) hrest with hsame | hnone
    · rw [hsame]
      exact getLease_next_of_allocated hid
    · exact Or.inr hnone

/-- **What an acquire answers**, by what it finds. -/
theorem acquireLock_cases (m : Machine) (L ownerID : String) (id : UInt64) :
    (m.getLease id = none ∧
      m.result (newAcquireLockCmd L ownerID id) = .error .leaseNotFound) ∨
    (∃ lease, m.getLease id = some lease ∧ lease.ownerID ≠ ownerID ∧
      m.result (newAcquireLockCmd L ownerID id) = .error .notLockOwner) ∨
    (∃ lease lock, m.getLease id = some lease ∧ m.getLock L = some lock ∧ lock.leaseID = id ∧
      m.result (newAcquireLockCmd L ownerID id)
        = .ok (.acquireLock ⟨lock.fencingToken, lease.ttl⟩)) ∨
    (∃ lock, m.getLock L = some lock ∧ lock.leaseID ≠ id ∧
      (m.next (newAcquireLockCmd L ownerID id)).getLock L = some lock ∧
      m.result (newAcquireLockCmd L ownerID id) = .error .lockAlreadyHeld) ∨
    (∃ lease, m.getLease id = some lease ∧ m.getLock L = none ∧
      m.result (newAcquireLockCmd L ownerID id)
        = .ok (.acquireLock ⟨m.fsm.fencingCounter + 1, lease.ttl⟩)) := by
  have happ : m.fsm.apply (newAcquireLockCmd L ownerID id)
      = m.fsm.applyAcquireLock ⟨L, ownerID, id, 0⟩ := rfl
  rw [m.fsm_apply, FSM.applyAcquireLock] at happ
  rw [result, next_getLock]
  generalize m.apply (newAcquireLockCmd L ownerID id) = applied at happ ⊢
  cases hlease : m.getLease id with
  | none =>
    rw [getLease_eq_none.mp hlease] at happ
    cases happ
    exact Or.inl ⟨rfl, rfl⟩
  | some lease =>
    rw [getLease_eq_some.mp hlease] at happ
    simp only [Option.bind_eq_bind, Option.bind_some] at happ
    split at happ
    · cases happ
      exact Or.inr (Or.inl ⟨lease, rfl, ‹_›, rfl⟩)
    · cases hlock : m.getLock L with
      | none =>
        rw [getLock_eq_none.mp hlock] at happ
        cases happ
        exact Or.inr (Or.inr (Or.inr (Or.inr ⟨lease, rfl, rfl, rfl⟩)))
      | some lock =>
        rw [getLock_eq_some.mp hlock] at happ
        simp only [Option.bind_some] at happ
        split at happ
        · cases happ
          exact Or.inr (Or.inr (Or.inl ⟨lease, lock, rfl, rfl, ‹_›, rfl⟩))
        · cases happ
          exact Or.inr (Or.inr (Or.inr (Or.inl ⟨lock, rfl, ‹_›, hlock, rfl⟩)))

section LockCommands

variable {m : Machine} {L ownerID : String} {id : UInt64} {lease : Lease} {lock : Lock}

theorem apply_acquire_free (hlease : m.getLease id = some lease) (howner : lease.ownerID = ownerID)
    (hfree : m.getLock L = none) :
    m.apply (newAcquireLockCmd L ownerID id)
      = (m.withLock ⟨L, ownerID, id, 0⟩).reply
          (.acquireLock ⟨m.fsm.fencingCounter + 1, lease.ttl⟩) := by
  have happ : m.fsm.apply (newAcquireLockCmd L ownerID id)
      = m.fsm.applyAcquireLock ⟨L, ownerID, id, 0⟩ := rfl
  rw [m.fsm_apply, FSM.applyAcquireLock, getLease_eq_some.mp hlease, getLock_eq_none.mp hfree]
    at happ
  simp only [Option.bind_eq_bind, Option.bind_some, howner, ne_eq, not_true_eq_false, if_false]
    at happ
  exact Option.some.inj happ

theorem apply_acquire_held (hlease : m.getLease id = some lease) (howner : lease.ownerID = ownerID)
    (hlock : m.getLock L = some lock) :
    m.apply (newAcquireLockCmd L ownerID id)
      = if lock.leaseID = id then m.fsm.reply (.acquireLock ⟨lock.fencingToken, lease.ttl⟩)
        else m.fsm.fail .lockAlreadyHeld := by
  have happ : m.fsm.apply (newAcquireLockCmd L ownerID id)
      = m.fsm.applyAcquireLock ⟨L, ownerID, id, 0⟩ := rfl
  rw [m.fsm_apply, FSM.applyAcquireLock, getLease_eq_some.mp hlease, getLock_eq_some.mp hlock]
    at happ
  simp only [Option.bind_eq_bind, Option.bind_some, howner, ne_eq, not_true_eq_false, if_false]
    at happ
  split at happ <;> rename_i hid <;> simp only [hid, if_true, if_false] <;>
    exact Option.some.inj happ

theorem apply_release_held (hlock : m.getLock L = some lock) (hid : lock.leaseID = id) :
    m.apply (newReleaseLockCmd L id)
      = ⟨{ m.fsm with locks := m.fsm.locks.erase L }, .ok .none, {L}⟩ := by
  have happ : m.fsm.apply (newReleaseLockCmd L id) = m.fsm.applyReleaseLock ⟨L, id⟩ := rfl
  rw [m.fsm_apply, FSM.applyReleaseLock, getLock_eq_some.mp hlock] at happ
  simp only [Option.bind_eq_bind, Option.bind_some, hid, ne_eq, not_true_eq_false, if_false]
    at happ
  exact Option.some.inj happ

/-- A release by another lease, or of a free lock, fails. -/
theorem apply_release_other (h : m.holder L ≠ some id) :
    ∃ e, m.apply (newReleaseLockCmd L id) = m.fsm.fail e := by
  have happ : m.fsm.apply (newReleaseLockCmd L id) = m.fsm.applyReleaseLock ⟨L, id⟩ := rfl
  rw [m.fsm_apply, FSM.applyReleaseLock] at happ
  cases hlock : m.getLock L with
  | none =>
    rw [getLock_eq_none.mp hlock] at happ
    exact ⟨_, Option.some.inj happ⟩
  | some lock =>
    have hne : lock.leaseID ≠ id := fun heq => h (holder_eq_some.mpr ⟨lock, hlock, heq⟩)
    rw [getLock_eq_some.mp hlock] at happ
    simp only [Option.bind_eq_bind, Option.bind_some, ne_eq, hne, not_false_eq_true, if_true]
      at happ
    exact ⟨_, Option.some.inj happ⟩

/-- A command whose state is the old one leaves the machine as it was. -/
theorem next_eq_self {c : CommandWrapper} (h : (m.apply c).fsm = m.fsm) : m.next c = m :=
  Machine.ext h

end LockCommands

/-- What `Leases` returns is what `GetLease` finds. -/
theorem mem_of_returnsLeases {m : Machine} {out : List Lease} (h : m.fsm.ReturnsLeases out)
    (lease : Lease) : lease ∈ out ↔ ∃ id, m.getLease id = some lease := by
  have hmem : lease ∈ out ↔ some lease ∈ m.fsm.leases.entries.map (·.2) := by
    rw [← h]
    simp
  rw [hmem, Multiset.mem_map]
  constructor
  · rintro ⟨⟨id, p⟩, hentry, hp⟩
    exact ⟨id, getLease_eq_some.mpr (hp ▸ Finmap.mem_lookup_iff.mpr hentry)⟩
  · rintro ⟨id, hlease⟩
    exact ⟨⟨id, some lease⟩, Finmap.mem_lookup_iff.mp (getLease_eq_some.mp hlease), rfl⟩

end Clavis.Machine
