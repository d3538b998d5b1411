import Clavis.State.Machine

/-!
# Clavis — well-formed states

What the handlers of the state machine rely on implicitly about its five components, and that
every log keeps it. Two counters of 64 bits bound how long this can last: the fencing counter must
not wrap, and neither may the lease-ID allocator, which already stands one above the number of
leases created. `WellFormed` is preserved by each command that does not wrap a counter
(`WellFormed.next`) and so by each log with few enough leases and grants (`WellFormed.replay`).
-/

namespace Clavis.Machine

open Lib

/-! ## The components after a command -/

theorem next_getLock (m : Machine) (c : CommandWrapper) (L : String) :
    (m.next c).getLock L = ((m.apply c).fsm.locks.lookup L).join := rfl

theorem next_getLease (m : Machine) (c : CommandWrapper) (id : UInt64) :
    (m.next c).getLease id = ((m.apply c).fsm.leases.lookup id).join := rfl

theorem join_lookup_insert {α β : Type} [DecidableEq α] (s : Finmap (fun _ : α => Ptr β)) (k k' : α)
    (v : β) :
    ((s.insert k (some v)).lookup k').join = if k' = k then some v else (s.lookup k').join := by
  rw [lookup_insert_eq_ite]
  split <;> rfl

theorem join_lookup_erase {α β : Type} [DecidableEq α] (s : Finmap (fun _ : α => Ptr β))
    (k k' : α) :
    ((s.erase k).lookup k').join = if k' = k then none else (s.lookup k').join := by
  rw [lookup_erase_eq_ite]
  split <;> rfl

/-- What the cascade leaves of the lock map. -/
theorem join_filter_isBoundTo (p : Option (Ptr Lock)) (leaseID : UInt64) (L : String) :
    (p.filter fun q => !isBoundTo leaseID L q).join
      = p.join.filter fun lock => decide (lock.leaseID ≠ leaseID) := by
  rcases p with _ | _ | lock
  · rfl
  · rfl
  · by_cases h : lock.leaseID = leaseID <;> simp [Option.filter, isBoundTo, h]

/-- **What a command does to one lock**: nothing, or a fresh grant of a free name, or it frees a
held one and reports that. -/
theorem getLock_next_cases (m : Machine) (c : CommandWrapper) (L : String) :
    (m.next c).getLock L = m.getLock L ∨
    (c.type = .acquireLock ∧ c.getAcquireLock.lockName = L ∧ m.getLock L = none ∧
      (m.result c).token = some (m.fsm.fencingCounter + 1) ∧
      (m.next c).getLock L = some (m.grantedLock c.getAcquireLock)) ∨
    (∃ lock, m.getLock L = some lock ∧ (m.next c).getLock L = none ∧ L ∈ m.freed c) := by
  rw [next_getLock, result, freed]
  have h := m.outcome c
  generalize m.apply c = a at h
  cases h with
  | rejected | ignored | created | reacquired | upserted | removed => exact Or.inl rfl
  | granted htype lease hlease howner hfree =>
    simp only [FSM.reply, withLock, join_lookup_insert]
    by_cases hL : L = c.getAcquireLock.lockName
    · subst hL
      exact Or.inr (Or.inl ⟨htype, rfl, hfree, rfl, if_pos rfl⟩)
    · rw [if_neg hL]
      exact Or.inl rfl
  | released htype lock hlock hheld =>
    simp only [join_lookup_erase]
    by_cases hL : L = c.getReleaseLock.lockName
    · subst hL
      exact Or.inr (Or.inr ⟨lock, hlock, if_pos rfl, by simp⟩)
    · rw [if_neg hL]
      exact Or.inl rfl
  | expired htype lease hlease locks hlocks =>
    simp only [hlocks, join_filter_isBoundTo]
    cases hlock : m.getLock L with
    | none =>
      rw [getLock] at hlock
      rw [hlock]
      exact Or.inl rfl
    | some lock =>
      have hjoin : (m.fsm.locks.lookup L).join = some lock := hlock
      rw [hjoin]
      -- the cascade frees the locks of the lease and leaves the others
      by_cases hbound : lock.leaseID = lease.leaseID
      · refine Or.inr (Or.inr ⟨lock, rfl, by simp [Option.filter, hbound], ?_⟩)
        rw [locksOf, mem_selected_entries]
        exact ⟨some lock, getLock_eq_some.mp hlock, by simp [isBoundTo, hbound]⟩
      · exact Or.inl (by simp [Option.filter, hbound])

/-- **What a command does to one lease**: nothing, or it creates it under the next ID, or it
expires it. -/
theorem getLease_next_cases (m : Machine) (c : CommandWrapper) (id : UInt64) :
    (m.next c).getLease id = m.getLease id ∨
    ((m.result c).newLease = some m.fsm.nextLeaseID ∧ id = m.fsm.nextLeaseID ∧
      0 < c.getCreateLease.ttlNanos.toInt ∧ 0 < c.getCreateLease.createAtUnixNano.toInt ∧
      c.getCreateLease.createAtUnixNano.toInt + c.getCreateLease.ttlNanos.toInt < 2 ^ 63 ∧
      (m.next c).getLease id = some (m.createdLease c.getCreateLease)) ∨
    (∃ lease, c.type = .expireLease ∧ m.getLease c.getExpireLease.leaseId = some lease ∧
      id = lease.leaseID ∧ (m.next c).getLease id = none) := by
  rw [next_getLease, result]
  have h := m.outcome c
  generalize m.apply c = a at h
  cases h with
  | rejected | ignored | reacquired | granted | released | upserted | removed => exact Or.inl rfl
  | created htype httl hat hfits =>
    simp only [FSM.reply, withLease, join_lookup_insert]
    by_cases hid : id = m.fsm.nextLeaseID
    · exact Or.inr (Or.inl ⟨rfl, hid, httl, hat, hfits, if_pos hid⟩)
    · rw [if_neg hid]
      exact Or.inl rfl
  | expired htype lease hlease =>
    simp only [join_lookup_erase]
    by_cases hid : id = lease.leaseID
    · exact Or.inr (Or.inr ⟨lease, htype, hlease, hid, if_pos hid⟩)
    · rw [if_neg hid]
      exact Or.inl rfl

/-! ## Counting leases and grants along a log -/

/-- The command newly grants a lock. -/
def Grants (m : Machine) (c : CommandWrapper) : Prop :=
  c.type = .acquireLock ∧ m.getLock c.getAcquireLock.lockName = none ∧ (m.result c).token.isSome

/-- The command creates a lease. -/
def Creates (m : Machine) (c : CommandWrapper) : Prop := (m.result c).newLease.isSome

instance (m : Machine) (c : CommandWrapper) : Decidable (m.Grants c) :=
  inferInstanceAs (Decidable (_ ∧ _ ∧ _))

instance (m : Machine) (c : CommandWrapper) : Decidable (m.Creates c) :=
  inferInstanceAs (Decidable (_ = true))

/-- How many commands of a log create a lease. -/
def leaseCount (m : Machine) : List CommandWrapper → Nat
  | [] => 0
  | c :: log => (if m.Creates c then 1 else 0) + (m.next c).leaseCount log

/-- How many commands of a log newly grant a lock. -/
def grantCount (m : Machine) : List CommandWrapper → Nat
  | [] => 0
  | c :: log => (if m.Grants c then 1 else 0) + (m.next c).grantCount log

/-- The fencing counter moves exactly on fresh grants. -/
theorem fencingCounter_next_cases (m : Machine) (c : CommandWrapper) :
    (m.Grants c ∧ (m.next c).fsm.fencingCounter = m.fsm.fencingCounter + 1) ∨
    (¬ m.Grants c ∧ (m.next c).fsm.fencingCounter = m.fsm.fencingCounter) := by
  show (_ ∧ (m.apply c).fsm.fencingCounter = _) ∨ (_ ∧ (m.apply c).fsm.fencingCounter = _)
  unfold Grants result
  have h := m.outcome c
  generalize m.apply c = a at h
  cases h with
  | rejected | created | released | expired | upserted | removed =>
    exact Or.inr ⟨fun h => Bool.false_ne_true h.2.2, rfl⟩
  | ignored r hcmd =>
    refine Or.inr ⟨?_, rfl⟩
    rintro ⟨htype, -, -⟩
    rcases hcmd with ⟨h, -⟩ | ⟨h, -⟩ <;> rw [h] at htype <;> cases htype
  | reacquired htype lease lock hlease howner hlock hheld =>
    refine Or.inr ⟨?_, rfl⟩
    rintro ⟨-, hnone, -⟩
    rw [hlock] at hnone
    cases hnone
  | granted htype lease hlease howner hfree =>
    exact Or.inl ⟨⟨htype, hfree, rfl⟩, rfl⟩

/-- The allocator moves exactly on lease creations. -/
theorem nextLeaseID_next_cases (m : Machine) (c : CommandWrapper) :
    (m.Creates c ∧ (m.next c).fsm.nextLeaseID = m.fsm.nextLeaseID + 1) ∨
    (¬ m.Creates c ∧ (m.next c).fsm.nextLeaseID = m.fsm.nextLeaseID) := by
  show (_ ∧ (m.apply c).fsm.nextLeaseID = _) ∨ (_ ∧ (m.apply c).fsm.nextLeaseID = _)
  unfold Creates result
  have h := m.outcome c
  generalize m.apply c = a at h
  cases h with
  | created => exact Or.inl ⟨rfl, rfl⟩
  | ignored r hcmd =>
    rcases hcmd with ⟨-, rfl⟩ | ⟨-, -, rfl⟩ <;> exact Or.inr ⟨Bool.false_ne_true, rfl⟩
  | _ => exact Or.inr ⟨Bool.false_ne_true, rfl⟩

/-- A creation is only accepted with a positive TTL from a positive timestamp, and only when the
expiry stays below 2^63. -/
theorem fits_of_creates (m : Machine) {c : CommandWrapper} (hcreates : m.Creates c) :
    0 < c.getCreateLease.createAtUnixNano.toInt ∧ 0 < c.getCreateLease.ttlNanos.toInt ∧
      c.getCreateLease.createAtUnixNano.toInt + c.getCreateLease.ttlNanos.toInt < 2 ^ 63 := by
  unfold Creates result at hcreates
  have h := m.outcome c
  generalize m.apply c = a at h hcreates
  cases h with
  | created htype httl hat hfits => exact ⟨hat, httl, hfits⟩
  | ignored r hcmd => rcases hcmd with ⟨-, rfl⟩ | ⟨-, -, rfl⟩ <;> cases hcreates
  | _ => cases hcreates

/-! ## Well-formedness -/

/-- The tokens in use lie in `1..fencingCounter` and no two locks share one. -/
structure Fenced (m : Machine) : Prop where
  token_range : ∀ L lock, m.getLock L = some lock →
    1 ≤ lock.fencingToken ∧ lock.fencingToken ≤ m.fsm.fencingCounter
  token_inj : ∀ L L' lock lock', m.getLock L = some lock → m.getLock L' = some lock' →
    lock.fencingToken = lock'.fencingToken → L = L'

/-- Every stored lease has a positive TTL and expiry, every endpoint a key and a value. -/
structure Storable (m : Machine) : Prop where
  lease_times : ∀ id lease, m.getLease id = some lease →
    0 < lease.ttl ∧ 0 < lease.expiresAtUnixNano
  endpoint_nonempty : ∀ nodeID addr, m.fsm.endpoints.lookup nodeID = some addr →
    nodeID ≠ "" ∧ addr ≠ ""

/-- Every lease is stored under its own ID. -/
def Keyed (m : Machine) : Prop := ∀ id lease, m.getLease id = some lease → lease.leaseID = id

/-- Every lease is stored under its own ID, and the IDs in use lie below the allocator. -/
structure Numbered (m : Machine) : Prop where
  lease_id : ∀ id lease, m.getLease id = some lease → lease.leaseID = id
  lease_range : ∀ id lease, m.getLease id = some lease → 1 ≤ id ∧ id < m.fsm.nextLeaseID

/-- A well-formed state: the maps are keyed by what they hold, every lock is bound to a live lease
of its owner, and IDs and tokens stay below their counters. -/
structure WellFormed (m : Machine) : Prop extends Fenced m, Storable m, Numbered m where
  lock_name : ∀ L lock, m.getLock L = some lock → lock.name = L
  lock_lease : ∀ L lock, m.getLock L = some lock →
    ∃ lease, m.getLease lock.leaseID = some lease ∧ lock.ownerID = lease.ownerID

theorem fenced_new : new.Fenced where
  token_range := by intro L lock h; simp at h
  token_inj := by intro L L' lock lock' h; simp at h

theorem storable_new : new.Storable where
  lease_times := by intro id lease h; simp at h
  endpoint_nonempty := by
    intro nodeID addr h
    have hempty : new.fsm.endpoints.lookup nodeID = none := Finmap.lookup_empty nodeID
    rw [hempty] at h
    cases h

theorem numbered_new : new.Numbered where
  lease_id := by intro id lease h; simp at h
  lease_range := by intro id lease h; simp at h

theorem wellFormed_new : new.WellFormed where
  toFenced := fenced_new
  toStorable := storable_new
  toNumbered := numbered_new
  lock_name := by intro L lock h; simp at h
  lock_lease := by intro L lock h; simp at h

/-! ### One field at a time

Each lemma takes the facts of the state before the command that its field rests on. -/

theorem toNat_add_one {x : UInt64} (h : x.toNat + 1 < 2 ^ 64) : (x + 1).toNat = x.toNat + 1 := by
  rw [UInt64.toNat_add]
  exact Nat.mod_eq_of_lt h

theorem toNat_add_ofNat {x : UInt64} {n : Nat} (h : x.toNat + n < 2 ^ 64) :
    (x + UInt64.ofNat n).toNat = x.toNat + n := by
  have hn : n % 2 ^ 64 = n := Nat.mod_eq_of_lt (by omega)
  rw [UInt64.toNat_add, UInt64.toNat_ofNat', hn, Nat.mod_eq_of_lt h]

section Step

variable {m : Machine} {c : CommandWrapper}

theorem WellFormed.next_lock_name (h : m.WellFormed) {L : String} {lock : Lock}
    (hlock : (m.next c).getLock L = some lock) : lock.name = L := by
  rcases m.getLock_next_cases c L with hsame | ⟨-, hL, -, -, hnew⟩ | ⟨_, -, hnone, -⟩
  · exact h.lock_name L lock (hsame ▸ hlock)
  · rw [hnew] at hlock
    cases hlock
    exact hL
  · rw [hnone] at hlock
    cases hlock

theorem Keyed.next (h : m.Keyed) : (m.next c).Keyed := by
  intro id lease hlease
  rcases m.getLease_next_cases c id with hsame | ⟨-, hid, -, -, -, hnew⟩ | ⟨_, -, -, -, hnone⟩
  · exact h id lease (hsame ▸ hlease)
  · rw [hnew] at hlease
    cases hlease
    exact hid.symm
  · rw [hnone] at hlease
    cases hlease

/-- The expiry of the new lease is a positive 64-bit time: the limit check of the handler
guarantees that the sum was not truncated. -/
theorem createdLease_times {cmd : CreateLeaseCommand} (httl : 0 < cmd.ttlNanos.toInt)
    (hat : 0 < cmd.createAtUnixNano.toInt)
    (hfits : cmd.createAtUnixNano.toInt + cmd.ttlNanos.toInt < 2 ^ 63) :
    0 < (m.createdLease cmd).ttl ∧ 0 < (m.createdLease cmd).expiresAtUnixNano := by
  have hexp : (m.createdLease cmd).expiresAtUnixNano.toInt
      = cmd.createAtUnixNano.toInt + cmd.ttlNanos.toInt := by
    refine Int64.toInt_ofInt_of_le ?_ ?_
    · omega
    · omega
  rw [Int64.lt_iff_toInt_lt, Int64.lt_iff_toInt_lt, hexp]
  exact ⟨httl, by simp only [Int64.toInt_zero]; omega⟩

theorem Storable.next_lease_times (h : m.Storable) {id : UInt64} {lease : Lease}
    (hlease : (m.next c).getLease id = some lease) :
    0 < lease.ttl ∧ 0 < lease.expiresAtUnixNano := by
  rcases m.getLease_next_cases c id with
    hsame | ⟨-, -, httl, hat, hfits, hnew⟩ | ⟨_, -, -, -, hnone⟩
  · exact h.lease_times id lease (hsame ▸ hlease)
  · rw [hnew] at hlease
    cases hlease
    exact createdLease_times httl hat hfits
  · rw [hnone] at hlease
    cases hlease

theorem Storable.next_endpoint_nonempty (h : m.Storable) {nodeID addr : String}
    (haddr : (m.next c).fsm.endpoints.lookup nodeID = some addr) :
    nodeID ≠ "" ∧ addr ≠ "" := by
  change (m.apply c).fsm.endpoints.lookup nodeID = some addr at haddr
  have hout := m.outcome c
  generalize m.apply c = a at hout haddr
  cases hout with
  | rejected | ignored | created | reacquired | granted | released | expired =>
    exact h.endpoint_nonempty nodeID addr haddr
  | upserted htype hid hne =>
    simp only [FSM.reply, withEndpoint, lookup_insert_eq_ite] at haddr
    split at haddr
    · rename_i heq
      cases haddr
      exact ⟨heq ▸ hid, hne⟩
    · exact h.endpoint_nonempty nodeID addr haddr
  | removed =>
    simp only [FSM.reply, lookup_erase_eq_ite] at haddr
    split at haddr
    · cases haddr
    · exact h.endpoint_nonempty nodeID addr haddr

/-- Existing IDs stay below the allocator, which only moves up. -/
theorem Numbered.next_lease_range (h : m.Numbered) (hpos : 1 ≤ m.fsm.nextLeaseID)
    (hwrap : m.Creates c → m.fsm.nextLeaseID.toNat + 1 < 2 ^ 64) {id : UInt64} {lease : Lease}
    (hlease : (m.next c).getLease id = some lease) :
    1 ≤ id ∧ id < (m.next c).fsm.nextLeaseID := by
  rcases m.nextLeaseID_next_cases c with ⟨hcr, hnext⟩ | ⟨hncr, hnext⟩
  · have hsucc := toNat_add_one (hwrap hcr)
    rw [hnext, UInt64.lt_iff_toNat_lt, hsucc]
    rcases m.getLease_next_cases c id with hsame | ⟨-, rfl, -⟩ | ⟨_, -, -, -, hnone⟩
    · obtain ⟨hge, hlt⟩ := h.lease_range id lease (hsame ▸ hlease)
      rw [UInt64.lt_iff_toNat_lt] at hlt
      exact ⟨hge, by omega⟩
    · exact ⟨hpos, by omega⟩
    · rw [hnone] at hlease
      cases hlease
  · rw [hnext]
    rcases m.getLease_next_cases c id with hsame | ⟨hnew, -⟩ | ⟨_, -, -, -, hnone⟩
    · exact h.lease_range id lease (hsame ▸ hlease)
    · exact absurd (by rw [Creates, hnew]; rfl) hncr
    · rw [hnone] at hlease
      cases hlease

/-- No lock outlives its lease: the cascade drops both together, and a new lease never takes the
ID of one a lock is bound to. -/
theorem WellFormed.next_lock_lease (h : m.WellFormed) {L : String} {lock : Lock}
    (hlock : (m.next c).getLock L = some lock) :
    ∃ lease, (m.next c).getLease lock.leaseID = some lease ∧ lock.ownerID = lease.ownerID := by
  rw [next_getLock] at hlock
  rw [next_getLease]
  have hout := m.outcome c
  generalize m.apply c = a at hout hlock
  cases hout with
  | rejected | ignored | reacquired | upserted | removed => exact h.lock_lease L lock hlock
  | created htype httl hat hfits =>
    -- the new record goes under an ID above every one in use
    obtain ⟨lease, hlease, howner⟩ := h.lock_lease L lock hlock
    have hlt := (h.lease_range _ _ hlease).2
    refine ⟨lease, ?_, howner⟩
    simp only [FSM.reply, withLease, join_lookup_insert]
    rw [if_neg (UInt64.ne_of_lt hlt)]
    exact hlease
  | granted htype lease hlease howner hfree =>
    simp only [FSM.reply, withLock, join_lookup_insert] at hlock
    split at hlock
    · cases hlock
      exact ⟨lease, hlease, howner.symm⟩
    · exact h.lock_lease L lock hlock
  | released htype lock' hlock' hheld =>
    simp only [join_lookup_erase] at hlock
    split at hlock
    · cases hlock
    · exact h.lock_lease L lock hlock
  | expired htype lease hlease locks hlocks =>
    simp only [hlocks, join_filter_isBoundTo, Option.filter_eq_some_iff, decide_eq_true_eq] at hlock
    -- a lock that survives the cascade is bound to another lease
    obtain ⟨hold, hne⟩ := hlock
    obtain ⟨lease', hlease', howner'⟩ := h.lock_lease L lock hold
    refine ⟨lease', ?_, howner'⟩
    simp only [join_lookup_erase]
    rw [if_neg hne]
    exact hlease'

theorem Fenced.next_token_range (h : m.Fenced)
    (hwrap : m.Grants c → m.fsm.fencingCounter.toNat + 1 < 2 ^ 64) {L : String} {lock : Lock}
    (hlock : (m.next c).getLock L = some lock) :
    1 ≤ lock.fencingToken ∧ lock.fencingToken ≤ (m.next c).fsm.fencingCounter := by
  rcases m.fencingCounter_next_cases c with ⟨hgr, hnext⟩ | ⟨hngr, hnext⟩
  · have hsucc := toNat_add_one (hwrap hgr)
    rw [hnext]
    simp only [UInt64.le_iff_toNat_le, hsucc, UInt64.toNat_one]
    rcases m.getLock_next_cases c L with hsame | ⟨-, -, -, -, hnew⟩ | ⟨_, -, hnone, -⟩
    · have hold := h.token_range L lock (hsame ▸ hlock)
      simp only [UInt64.le_iff_toNat_le, UInt64.toNat_one] at hold
      omega
    · rw [hnew] at hlock
      cases hlock
      simp only [grantedLock, hsucc]
      omega
    · rw [hnone] at hlock
      cases hlock
  · rw [hnext]
    rcases m.getLock_next_cases c L with hsame | ⟨htype, rfl, hfree, htok, -⟩ | ⟨_, -, hnone, -⟩
    · exact h.token_range L lock (hsame ▸ hlock)
    · exact absurd ⟨htype, hfree, by rw [htok]; rfl⟩ hngr
    · rw [hnone] at hlock
      cases hlock

/-- A lock present after a command was there before, or is the one just granted, whose token is
larger than every token in use. -/
theorem Fenced.next_lock_cases (h : m.Fenced)
    (hwrap : m.Grants c → m.fsm.fencingCounter.toNat + 1 < 2 ^ 64) {L : String} {lock : Lock}
    (hlock : (m.next c).getLock L = some lock) :
    m.getLock L = some lock ∨
    (m.Grants c ∧ c.getAcquireLock.lockName = L ∧ lock = m.grantedLock c.getAcquireLock ∧
      ∀ L' lock', m.getLock L' = some lock' → lock'.fencingToken < lock.fencingToken) := by
  rcases m.getLock_next_cases c L with hsame | ⟨htype, hL, hfree, htok, hnew⟩ | ⟨_, -, hnone, -⟩
  · exact Or.inl (hsame ▸ hlock)
  · have hgr : m.Grants c := ⟨htype, hL ▸ hfree, by rw [htok]; rfl⟩
    rw [hnew] at hlock
    cases hlock
    refine Or.inr ⟨hgr, hL, rfl, ?_⟩
    intro L' lock' hlock'
    have hle := (h.token_range L' lock' hlock').2
    rw [UInt64.le_iff_toNat_le] at hle
    rw [UInt64.lt_iff_toNat_lt]
    simp only [grantedLock, toNat_add_one (hwrap hgr)]
    omega
  · rw [hnone] at hlock
    cases hlock

theorem Fenced.next_token_inj (h : m.Fenced)
    (hwrap : m.Grants c → m.fsm.fencingCounter.toNat + 1 < 2 ^ 64) {L L' : String}
    {lock lock' : Lock} (hlock : (m.next c).getLock L = some lock)
    (hlock' : (m.next c).getLock L' = some lock') (heq : lock.fencingToken = lock'.fencingToken) :
    L = L' := by
  rcases h.next_lock_cases hwrap hlock with hold | ⟨-, hL, -, hmax⟩
  · rcases h.next_lock_cases hwrap hlock' with hold' | ⟨-, -, -, hmax'⟩
    · exact h.token_inj L L' lock lock' hold hold' heq
    · exact absurd heq (UInt64.ne_of_lt (hmax' L lock hold))
  · rcases h.next_lock_cases hwrap hlock' with hold' | ⟨-, hL', -⟩
    · exact absurd heq.symm (UInt64.ne_of_lt (hmax L' lock' hold'))
    · exact hL.symm.trans hL'

/-- Every command that does not wrap the fencing counter keeps the tokens distinct and in range. -/
theorem Fenced.next (h : m.Fenced)
    (hgrants : m.Grants c → m.fsm.fencingCounter.toNat + 1 < 2 ^ 64) : (m.next c).Fenced where
  token_range := fun _ _ hlock => h.next_token_range hgrants hlock
  token_inj := fun _ _ _ _ hlock hlock' heq => h.next_token_inj hgrants hlock hlock' heq

theorem Storable.next (h : m.Storable) : (m.next c).Storable where
  lease_times := fun _ _ hlease => h.next_lease_times hlease
  endpoint_nonempty := fun _ _ haddr => h.next_endpoint_nonempty haddr

/-- Every command that does not wrap the allocator keeps the IDs below it. -/
theorem Numbered.next (h : m.Numbered) (hpos : 1 ≤ m.fsm.nextLeaseID)
    (hleases : m.Creates c → m.fsm.nextLeaseID.toNat + 1 < 2 ^ 64) : (m.next c).Numbered where
  lease_id := Keyed.next h.lease_id
  lease_range := fun _ _ hlease => h.next_lease_range hpos hleases hlease

/-- **Every command that wraps neither counter preserves well-formedness.** -/
theorem WellFormed.next (h : m.WellFormed) (hpos : 1 ≤ m.fsm.nextLeaseID)
    (hleases : m.Creates c → m.fsm.nextLeaseID.toNat + 1 < 2 ^ 64)
    (hgrants : m.Grants c → m.fsm.fencingCounter.toNat + 1 < 2 ^ 64) : (m.next c).WellFormed where
  toFenced := h.toFenced.next hgrants
  toStorable := h.toStorable.next
  toNumbered := h.toNumbered.next hpos hleases
  lock_name := fun _ _ hlock => h.next_lock_name hlock
  lock_lease := fun _ _ hlock => h.next_lock_lease hlock

end Step

/-! ## Well-formedness along a log -/

/-- How far a log takes the allocator, as long as it does not wrap. -/
theorem nextLeaseID_replay (m : Machine) (log : List CommandWrapper)
    (h : m.fsm.nextLeaseID.toNat + m.leaseCount log < 2 ^ 64) :
    (m.replay log).fsm.nextLeaseID.toNat = m.fsm.nextLeaseID.toNat + m.leaseCount log := by
  induction log generalizing m with
  | nil => rfl
  | cons c log ih =>
    simp only [leaseCount] at h ⊢
    rw [replay_cons]
    rcases m.nextLeaseID_next_cases c with ⟨hcr, hnext⟩ | ⟨hncr, hnext⟩
    · rw [if_pos hcr] at h ⊢
      have hsucc := toNat_add_one (x := m.fsm.nextLeaseID) (by omega)
      rw [ih (m.next c) (by rw [hnext, hsucc]; omega), hnext, hsucc]
      omega
    · rw [if_neg hncr] at h ⊢
      rw [ih (m.next c) (by rw [hnext]; omega), hnext]
      omega

/-- How far a log takes the fencing counter, as long as it does not wrap. -/
theorem fencingCounter_replay (m : Machine) (log : List CommandWrapper)
    (h : m.fsm.fencingCounter.toNat + m.grantCount log < 2 ^ 64) :
    (m.replay log).fsm.fencingCounter.toNat = m.fsm.fencingCounter.toNat + m.grantCount log := by
  induction log generalizing m with
  | nil => rfl
  | cons c log ih =>
    simp only [grantCount] at h ⊢
    rw [replay_cons]
    rcases m.fencingCounter_next_cases c with ⟨hgr, hnext⟩ | ⟨hngr, hnext⟩
    · rw [if_pos hgr] at h ⊢
      have hsucc := toNat_add_one (x := m.fsm.fencingCounter) (by omega)
      rw [ih (m.next c) (by rw [hnext, hsucc]; omega), hnext, hsucc]
      omega
    · rw [if_neg hngr] at h ⊢
      rw [ih (m.next c) (by rw [hnext]; omega), hnext]
      omega

theorem leaseCount_append (m : Machine) (log log' : List CommandWrapper) :
    m.leaseCount (log ++ log') = m.leaseCount log + (m.replay log).leaseCount log' := by
  induction log generalizing m with
  | nil => simp [leaseCount]
  | cons c log ih => rw [List.cons_append, leaseCount, leaseCount, ih, replay_cons]; omega

theorem grantCount_append (m : Machine) (log log' : List CommandWrapper) :
    m.grantCount (log ++ log') = m.grantCount log + (m.replay log).grantCount log' := by
  induction log generalizing m with
  | nil => simp [grantCount]
  | cons c log ih => rw [List.cons_append, grantCount, grantCount, ih, replay_cons]; omega

theorem Storable.replay {m : Machine} (h : m.Storable) (log : List CommandWrapper) :
    (m.replay log).Storable := by
  induction log generalizing m with
  | nil => exact h
  | cons c log ih => exact ih h.next

/-- Every log that does not wrap the fencing counter keeps the tokens distinct and in range.
Induction on the log, from its end: the counter before the last command is what the commands
before it granted. -/
theorem Fenced.replay {m : Machine} (h : m.Fenced) (log : List CommandWrapper)
    (hgrants : m.fsm.fencingCounter.toNat + m.grantCount log < 2 ^ 64) :
    (m.replay log).Fenced := by
  induction log using List.reverseRecOn with
  | nil => exact h
  | append_singleton log c ih =>
    rw [grantCount_append] at hgrants
    simp only [grantCount] at hgrants
    rw [replay_append]
    refine (ih (by omega)).next ?_
    intro hgr
    rw [if_pos hgr] at hgrants
    rw [fencingCounter_replay m log (by omega)]
    omega

/-- The allocator stays positive along a log that does not wrap it. -/
theorem one_le_nextLeaseID_replay {m : Machine} (hpos : 1 ≤ m.fsm.nextLeaseID)
    (log : List CommandWrapper)
    (hleases : m.fsm.nextLeaseID.toNat + m.leaseCount log < 2 ^ 64) :
    1 ≤ (m.replay log).fsm.nextLeaseID := by
  have halloc := nextLeaseID_replay m log hleases
  rw [UInt64.le_iff_toNat_le] at hpos ⊢
  omega

/-- Every log that does not wrap the allocator keeps the IDs below it. -/
theorem Numbered.replay {m : Machine} (h : m.Numbered) (hpos : 1 ≤ m.fsm.nextLeaseID)
    (log : List CommandWrapper)
    (hleases : m.fsm.nextLeaseID.toNat + m.leaseCount log < 2 ^ 64) :
    (m.replay log).Numbered := by
  induction log using List.reverseRecOn with
  | nil => exact h
  | append_singleton log c ih =>
    rw [leaseCount_append] at hleases
    simp only [leaseCount] at hleases
    rw [replay_append]
    have halloc := nextLeaseID_replay m log (by omega)
    refine (ih (by omega)).next (one_le_nextLeaseID_replay hpos log (by omega)) ?_
    intro hcr
    rw [if_pos hcr] at hleases
    omega

/-- **Every log that wraps neither counter preserves well-formedness.** -/
theorem WellFormed.replay {m : Machine} (h : m.WellFormed) (hpos : 1 ≤ m.fsm.nextLeaseID)
    (log : List CommandWrapper)
    (hleases : m.fsm.nextLeaseID.toNat + m.leaseCount log < 2 ^ 64)
    (hgrants : m.fsm.fencingCounter.toNat + m.grantCount log < 2 ^ 64) :
    (m.replay log).WellFormed := by
  induction log using List.reverseRecOn with
  | nil => exact h
  | append_singleton log c ih =>
    rw [leaseCount_append] at hleases
    rw [grantCount_append] at hgrants
    simp only [leaseCount] at hleases
    simp only [grantCount] at hgrants
    rw [replay_append]
    have halloc := nextLeaseID_replay m log (by omega)
    refine (ih (by omega) (by omega)).next
      (one_le_nextLeaseID_replay hpos log (by omega)) ?_ ?_
    · intro hcr
      rw [if_pos hcr] at hleases
      omega
    · intro hgr
      rw [if_pos hgr] at hgrants
      rw [fencingCounter_replay m log (by omega)]
      omega

/-- **Every reachable state is well formed**, for logs with fewer than `2^64 - 1` leases and fewer
than `2^64` grants. The allocator starts at 1, so it is the lease bound that is one short of the
word size. -/
theorem wellFormed_of_log (log : List CommandWrapper) (hleases : new.leaseCount log < 2 ^ 64 - 1)
    (hgrants : new.grantCount log < 2 ^ 64) : (new.replay log).WellFormed := by
  refine wellFormed_new.replay (by decide) log ?_ ?_
  · have hstart : new.fsm.nextLeaseID.toNat = 1 := rfl
    omega
  · have hstart : new.fsm.fencingCounter.toNat = 0 := rfl
    omega

/-- A log that creates two leases, grants two locks, expires one lease and registers a node. -/
def sampleLog : List CommandWrapper :=
  [newCreateLeaseCmd "client-1" 10 5, newCreateLeaseCmd "client-2" 10 6,
    newAcquireLockCmd "alpha" "client-1" 1, newAcquireLockCmd "beta" "client-2" 2,
    newExpireLeaseCmd 1, newUpsertEndpointCmd "node-1" "10.0.0.1:8000"]

theorem wellFormed_sampleLog :
    new.leaseCount sampleLog < 2 ^ 64 - 1 ∧ new.grantCount sampleLog < 2 ^ 64 ∧
      (new.replay sampleLog).WellFormed :=
  ⟨by decide, by decide, wellFormed_of_log sampleLog (by decide) (by decide)⟩

/-! ### The allocator wraps one lease earlier than the counter of leases

After `2^64 - 1` creations the allocator is 0 while every one of these leases is live. -/

/-- A creation that every state accepts. -/
def createOne : CommandWrapper := newCreateLeaseCmd "client-1" 1 1

theorem creates_createOne (m : Machine) : m.Creates createOne := by
  have happ : m.fsm.apply createOne = some (m.fsm.applyCreateLease ⟨"client-1", 1, 1⟩) := rfl
  have hres : (m.fsm.applyCreateLease ⟨"client-1", 1, 1⟩).result.newLease
      = some m.fsm.nextLeaseID := rfl
  rw [m.fsm_apply createOne] at happ
  rw [Creates, result, Option.some.inj happ, hres]
  rfl

theorem not_grants_createOne (m : Machine) : ¬ m.Grants createOne := by
  rintro ⟨htype, -⟩
  cases htype

theorem leaseCount_replicate (m : Machine) (n : Nat) :
    m.leaseCount (List.replicate n createOne) = n := by
  induction n generalizing m with
  | zero => rfl
  | succ n ih =>
    rw [List.replicate_succ, leaseCount, if_pos (creates_createOne m), ih]
    omega

theorem grantCount_replicate (m : Machine) (n : Nat) :
    m.grantCount (List.replicate n createOne) = 0 := by
  induction n generalizing m with
  | zero => rfl
  | succ n ih => rw [List.replicate_succ, grantCount, if_neg (not_grants_createOne m), ih]

/-- The lease just created is there, one below the allocator. -/
theorem next_createOne (m : Machine) :
    (∃ lease, (m.next createOne).getLease m.fsm.nextLeaseID = some lease) ∧
      (m.next createOne).fsm.nextLeaseID = m.fsm.nextLeaseID + 1 := by
  have happ : m.apply createOne = m.fsm.applyCreateLease ⟨"client-1", 1, 1⟩ := by
    apply Option.some.inj
    rw [← m.fsm_apply createOne]
    rfl
  constructor
  · refine ⟨m.createdLease ⟨"client-1", 1, 1⟩, ?_⟩
    rw [next_getLease, happ]
    have hleases : (m.fsm.applyCreateLease ⟨"client-1", 1, 1⟩).fsm.leases
        = m.fsm.leases.insert m.fsm.nextLeaseID (some (m.createdLease ⟨"client-1", 1, 1⟩)) := rfl
    rw [hleases, join_lookup_insert, if_pos rfl]
  · rcases m.nextLeaseID_next_cases createOne with ⟨-, hnext⟩ | ⟨hncr, -⟩
    · exact hnext
    · exact absurd (creates_createOne m) hncr

/-- With as many as `2^64 - 1` leases the allocator has wrapped, so a live lease is not below it:
the bound of `wellFormed_of_log` cannot be relaxed to `2^64` leases. -/
theorem not_wellFormed_of_all_leases :
    ¬ ∀ log : List CommandWrapper, new.leaseCount log < 2 ^ 64 → new.grantCount log < 2 ^ 64 →
      (new.replay log).WellFormed := by
  intro hall
  have hwf := hall (List.replicate (2 ^ 64 - 1) createOne)
    (by rw [leaseCount_replicate]; omega) (by rw [grantCount_replicate]; omega)
  -- all creations but the last leave the allocator at the largest ID
  have hlast : List.replicate (2 ^ 64 - 1) createOne
      = List.replicate (2 ^ 64 - 2) createOne ++ [createOne] := by
    rw [← List.replicate_succ', show 2 ^ 64 - 2 + 1 = 2 ^ 64 - 1 from by omega]
  rw [hlast, replay_append] at hwf
  generalize hm : new.replay (List.replicate (2 ^ 64 - 2) createOne) = m at hwf
  have hnext : m.fsm.nextLeaseID.toNat = 2 ^ 64 - 1 := by
    have hstart : new.fsm.nextLeaseID.toNat = 1 := rfl
    rw [← hm, nextLeaseID_replay, leaseCount_replicate, hstart]
    · omega
    · rw [leaseCount_replicate, hstart]
      omega
  obtain ⟨⟨lease, hlease⟩, halloc⟩ := next_createOne m
  have hlt := (hwf.lease_range _ lease hlease).2
  have hwrap : (m.next createOne).fsm.nextLeaseID.toNat = 0 := by
    rw [halloc, UInt64.toNat_add, hnext]
    rfl
  rw [UInt64.lt_iff_toNat_lt] at hlt
  change _ < (m.next createOne).fsm.nextLeaseID.toNat at hlt
  omega

end Clavis.Machine
