import Clavis.State.Fencing
import Clavis.State.LeaseLife

/-!
# Clavis — what a command leaves alone

Two frame results about `FSM.Apply`.

* **The cascade is exact** (`cascade_exact`). `applyExpireLease` deletes from the lock map while it
  ranges over it, in an order that Go does not specify and that differs between replicas.
  `applyExpireLeaseVisiting` is the handler with the order written out; every order gives one and
  the same state, reply and hook calls, and what these are is `Cascades`. Along a log the hook is
  called once for every lock that goes from held to free, and not otherwise (`count_freed`).
* **Failed and malformed commands are inert** (`apply_inert`). Every handler makes its checks before
  its first write, so an error leaves everything as it was. The type tag of a command and its
  payload may disagree, and the handler then runs on zero fields; that this is harmless rests on
  there being no lease 0, so it ends when the allocator wraps (`not_apply_inert_wrapped`).
-/

namespace Clavis

open Lib Machine

/-! ## Locks are bound to leases

Unlike `WellFormed`, these hold along every log, also when a counter wraps. -/

/-- Every lock is bound to a lease that is there. -/
def Machine.Anchored (m : Machine) : Prop :=
  ∀ L lock, m.getLock L = some lock → (m.getLease lock.leaseID).isSome

theorem Machine.Anchored.next {m : Machine} {c : CommandWrapper} (h : m.Anchored)
    (hkeyed : m.Keyed) : (m.next c).Anchored := by
  intro L lock hlock
  have hsome : (m.getLease lock.leaseID).isSome := by
    rcases getLock_or_isSome_getLease hlock with hold | hsome
    · exact h L lock hold
    · exact hsome
  refine isSome_getLease_next hkeyed hsome ?_
  intro hexp
  -- the cascade has dropped the locks of the lease it expires
  obtain ⟨lease, hlease⟩ := Option.isSome_iff_exists.mp hsome
  obtain ⟨htype, hid⟩ := CommandWrapper.expires_eq_some.mp hexp
  rw [← hid] at hlease
  refine leaseID_ne_of_expired htype hlease hlock ?_
  rw [hkeyed _ lease hlease, hid]

theorem keyed_replay (log : List CommandWrapper) : (new.replay log).Keyed := by
  induction log using List.reverseRecOn with
  | nil => exact numbered_new.lease_id
  | append_singleton log c ih =>
    rw [replay_append]
    exact ih.next

theorem anchored_replay (log : List CommandWrapper) : (new.replay log).Anchored := by
  induction log using List.reverseRecOn with
  | nil =>
    intro L lock hlock
    rw [replay_nil, new_getLock] at hlock
    cases hlock
  | append_singleton log c ih =>
    rw [replay_append]
    exact ih.next (keyed_replay log)

/-! ## The cascade in any order -/

/-- `applyExpireLease` with the order in which `range` visits the lock map. -/
def FSM.applyExpireLeaseVisiting (f : FSM) (visited : List (Sigma fun _ : String => Ptr Lock))
    (cmd : ExpireLeaseCommand) : Option Applied :=
  match f.leases.lookup cmd.leaseId with
  | none => some (f.reply (.expireLease ⟨0⟩))
  | some leasePtr => do
    let lease ← leasePtr
    let loop ← visited.foldl (RangeDelete.step (boundTo lease.leaseID))
      (some (RangeDelete.start f.locks))
    some ⟨{ f with locks := loop.map, leases := f.leases.erase lease.leaseID },
      .ok (.expireLease ⟨loop.count⟩), loop.removed⟩

/-- The order does not show. -/
theorem FSM.applyExpireLeaseVisiting_eq (f : FSM) (cmd : ExpireLeaseCommand)
    {visited : List (Sigma fun _ : String => Ptr Lock)}
    (hv : (visited : Multiset _) = f.locks.entries) :
    f.applyExpireLeaseVisiting visited cmd = f.applyExpireLease cmd := by
  unfold applyExpireLeaseVisiting applyExpireLease
  cases f.leases.lookup cmd.leaseId with
  | none => rfl
  | some leasePtr => simp only [rangeDelete_eq_of_visited _ _ _ hv]

/-- What the expiry of lease `l` does: exactly the lease and the locks bound to it go, the hook is
called for those locks, and the reply counts them. -/
structure Cascades (f : FSM) (l : UInt64) (a : Applied) : Prop where
  locks : ∀ L, a.fsm.locks.lookup L = (f.locks.lookup L).filter fun p => !isBoundTo l L p
  leases : a.fsm.leases = f.leases.erase l
  endpoints : a.fsm.endpoints = f.endpoints
  fencingCounter : a.fsm.fencingCounter = f.fencingCounter
  nextLeaseID : a.fsm.nextLeaseID = f.nextLeaseID
  result : a.result = .ok (.expireLease ⟨(f.locks.keys \ a.fsm.locks.keys).card⟩)
  freed : a.freed = (f.locks.keys \ a.fsm.locks.keys).val

/-- Names of locks do not repeat. -/
theorem nodup_locksOf (m : Machine) (l : UInt64) : (m.locksOf l).Nodup := by
  have hkeys : (m.fsm.locks.entries.map Sigma.fst).Nodup := m.fsm.locks.keys.nodup
  exact Multiset.nodup_of_le (Multiset.map_le_map (Multiset.filter_le _ _)) hkeys

theorem mem_locksOf {m : Machine} {l : UInt64} {L : String} :
    L ∈ m.locksOf l ↔ ∃ lock, m.getLock L = some lock ∧ lock.leaseID = l := by
  rw [locksOf, mem_selected_entries]
  constructor
  · rintro ⟨p, hp, hbound⟩
    cases p with
    | none => exact absurd hp (m.locks_ne_nil L)
    | some lock => exact ⟨lock, getLock_eq_some.mpr hp, by simpa [isBoundTo] using hbound⟩
  · rintro ⟨lock, hlock, rfl⟩
    exact ⟨some lock, getLock_eq_some.mp hlock, by simp [isBoundTo]⟩

theorem mem_keys_iff {m : Machine} {L : String} :
    L ∈ m.fsm.locks.keys ↔ (m.getLock L).isSome := by
  rw [Finmap.mem_keys, ← Finmap.lookup_isSome]
  cases hlock : m.getLock L with
  | none => simp [getLock_eq_none.mp hlock]
  | some lock => simp [getLock_eq_some.mp hlock]

/-- The locks that the expiry of a lease removes are those bound to it. -/
theorem keys_sdiff_eq {m : Machine} {l : UInt64} {locks : Finmap (fun _ : String => Ptr Lock)}
    (hlocks : ∀ L, locks.lookup L = (m.fsm.locks.lookup L).filter fun p => !isBoundTo l L p) :
    (m.fsm.locks.keys \ locks.keys).val = m.locksOf l := by
  refine (Multiset.Nodup.ext (Finset.nodup _) (nodup_locksOf m l)).mpr fun L => ?_
  rw [Finset.mem_val, Finset.mem_sdiff, mem_keys_iff, mem_locksOf, Finmap.mem_keys,
    ← Finmap.lookup_isSome, hlocks L]
  cases hlock : m.getLock L with
  | none => simp
  | some lock =>
    rw [getLock_eq_some.mp hlock]
    by_cases hl : lock.leaseID = l <;> simp [isBoundTo, Option.filter, hl]

/-- **The cascade of one machine**, whose leases are stored under their IDs and whose locks have
their leases. -/
theorem cascades_apply {m : Machine} (hkeyed : m.Keyed) (hanchored : m.Anchored)
    (cmd : ExpireLeaseCommand) :
    ∃ a, m.fsm.applyExpireLease cmd = some a ∧ Cascades m.fsm cmd.leaseId a := by
  unfold FSM.applyExpireLease
  cases hlease : m.getLease cmd.leaseId with
  | none =>
    -- nothing is bound to a lease that is not there
    have hlocks : ∀ L, m.fsm.locks.lookup L
        = (m.fsm.locks.lookup L).filter fun p => !isBoundTo cmd.leaseId L p := by
      intro L
      cases hlock : m.getLock L with
      | none => rw [getLock_eq_none.mp hlock]; rfl
      | some lock =>
        have hne : lock.leaseID ≠ cmd.leaseId := by
          intro heq
          have hsome := hanchored L lock hlock
          rw [heq, hlease] at hsome
          cases hsome
        rw [getLock_eq_some.mp hlock]
        simp [isBoundTo, Option.filter, hne]
    rw [getLease_eq_none.mp hlease]
    refine ⟨_, rfl, hlocks, ?_, rfl, rfl, rfl, ?_, ?_⟩
    · apply Finmap.ext_lookup
      intro id
      rw [lookup_erase_eq_ite]
      split
      · rename_i hid
        rw [hid]
        exact getLease_eq_none.mp hlease
      · rfl
    · simp [FSM.reply]
    · simp [FSM.reply]
  | some lease =>
    obtain ⟨loop, hloop, hmap, hremoved, hcount⟩ :=
      rangeDelete_spec (m.boundTo_eq_some lease.leaseID)
    have hid : lease.leaseID = cmd.leaseId := hkeyed _ lease hlease
    rw [getLease_eq_some.mp hlease]
    simp only [Option.bind_eq_bind, Option.bind_some, hloop]
    rw [hid] at hmap hremoved hcount ⊢
    have hkeys := keys_sdiff_eq hmap
    refine ⟨_, rfl, hmap, rfl, rfl, rfl, rfl, ?_, ?_⟩
    · show Except.ok (Reply.expireLease ⟨loop.count⟩) = _
      rw [hcount, Finset.card_def, hkeys]
      rfl
    · show loop.removed = _
      rw [hremoved, hkeys]
      rfl

/-! ## The hook along a log -/

/-- **The hook is called exactly once for every lock a command frees**, and for no other. -/
theorem count_freed (m : Machine) (c : CommandWrapper) (L : String) :
    (m.freed c).count L
      = if (m.getLock L).isSome ∧ (m.next c).getLock L = none then 1 else 0 := by
  rw [freed, next_getLock]
  have hout := m.outcome c
  generalize m.apply c = a at hout
  cases hout with
  | rejected | ignored | created | reacquired | upserted | removed =>
    rw [if_neg]
    · rfl
    · rintro ⟨hsome, hnone⟩
      have hfree : m.getLock L = none := hnone
      rw [hfree] at hsome
      cases hsome
  | granted htype lease hlease howner hfree =>
    rw [if_neg]
    · rfl
    · rintro ⟨hsome, hnone⟩
      simp only [FSM.reply, withLock, join_lookup_insert] at hnone
      split at hnone
      · cases hnone
      · have hfree' : m.getLock L = none := hnone
        rw [hfree'] at hsome
        cases hsome
  | released htype lock hlock hheld =>
    simp only [join_lookup_erase, Multiset.count_singleton]
    by_cases hL : L = c.getReleaseLock.lockName
    · subst hL
      simp [hlock]
    · simp only [hL, if_false]
      rw [if_neg]
      rintro ⟨hsome, hnone⟩
      have hfree : m.getLock L = none := hnone
      rw [hfree] at hsome
      cases hsome
  | expired htype lease hlease locks hlocks =>
    simp only [hlocks, join_filter_isBoundTo]
    by_cases hmem : L ∈ m.locksOf lease.leaseID
    · obtain ⟨lock, hlock, hbound⟩ := mem_locksOf.mp hmem
      have hjoin : (m.fsm.locks.lookup L).join = some lock := hlock
      rw [Multiset.count_eq_one_of_mem (nodup_locksOf m lease.leaseID) hmem, hjoin, hlock, if_pos]
      exact ⟨rfl, by simp [Option.filter, hbound]⟩
    · rw [Multiset.count_eq_zero_of_notMem hmem, if_neg]
      rintro ⟨hsome, hnone⟩
      obtain ⟨lock, hlock⟩ := Option.isSome_iff_exists.mp hsome
      have hjoin : (m.fsm.locks.lookup L).join = some lock := hlock
      have hne : lock.leaseID ≠ lease.leaseID := fun heq =>
        hmem (mem_locksOf.mpr ⟨lock, hlock, heq⟩)
      rw [hjoin] at hnone
      simp [Option.filter, hne] at hnone

/-- **Cascade expiry is exact and independent of the map order.** In every reachable state the
expiry of a lease has one outcome, that of `Apply`, whatever the order in which the lock map is
visited, and it is the cascade; and along the log the lock-freed hook is called exactly once for
each lock that goes from held to free, and at no other time. -/
theorem cascade_exact (log : List CommandWrapper) :
    (∀ cmd : ExpireLeaseCommand, ∃ a, Cascades (new.replay log).fsm cmd.leaseId a ∧
      (∀ c : CommandWrapper, c.type = .expireLease → c.getExpireLease = cmd →
        (new.replay log).fsm.apply c = some a) ∧
      ∀ visited : List (Sigma fun _ : String => Ptr Lock),
        (visited : Multiset _) = (new.replay log).fsm.locks.entries →
          (new.replay log).fsm.applyExpireLeaseVisiting visited cmd = some a) ∧
    ∀ i c, log[i]? = some c → ∀ L, ((stateAt log i).freed c).count L
      = if ((stateAt log i).getLock L).isSome ∧ (stateAt log (i + 1)).getLock L = none then 1
        else 0 := by
  constructor
  · intro cmd
    obtain ⟨a, happ, hcascades⟩ := cascades_apply (keyed_replay log) (anchored_replay log) cmd
    refine ⟨a, hcascades, ?_, fun visited hv => ?_⟩
    · rintro c htype rfl
      rw [FSM.apply, htype]
      exact happ
    · rw [FSM.applyExpireLeaseVisiting_eq _ cmd hv]
      exact happ
  · intro i c hc L
    rw [stateAt_succ hc]
    exact count_freed (stateAt log i) c L

/-- A lease with two locks next to a lease with one. -/
def threeLocks : List CommandWrapper :=
  [newCreateLeaseCmd "client-1" 10 5, newCreateLeaseCmd "client-2" 10 6,
    newAcquireLockCmd "alpha" "client-1" 1, newAcquireLockCmd "beta" "client-2" 2,
    newAcquireLockCmd "gamma" "client-1" 1, newExpireLeaseCmd 1]

/-- The expiry of the first lease removes it and its two locks, and says so. -/
theorem cascade_exact_threeLocks :
    (∃ a, (stateAt threeLocks 5).fsm.apply (newExpireLeaseCmd 1) = some a ∧
      a.fsm.leases.lookup 1 = none ∧ a.result = .ok (.expireLease ⟨2⟩)) ∧
    ((stateAt threeLocks 5).freed (newExpireLeaseCmd 1)).count "alpha" = 1 ∧
      ((stateAt threeLocks 5).freed (newExpireLeaseCmd 1)).count "beta" = 0 ∧
      ((stateAt threeLocks 5).freed (newExpireLeaseCmd 1)).count "gamma" = 1 := by
  obtain ⟨a, hcascades, happly, -⟩ := (cascade_exact (threeLocks.take 5)).1
    (newExpireLeaseCmd 1).getExpireLease
  have hexpired := happly (newExpireLeaseCmd 1) rfl rfl
  have hresult : ((new.replay (threeLocks.take 5)).fsm.apply (newExpireLeaseCmd 1)).map
      Applied.result = some (.ok (.expireLease ⟨2⟩)) := by decide
  rw [hexpired] at hresult
  have hhook := (cascade_exact threeLocks).2 5 (newExpireLeaseCmd 1) rfl
  refine ⟨⟨a, hexpired, ?_, Option.some.inj hresult⟩, (hhook "alpha").trans (by decide),
    (hhook "beta").trans (by decide), (hhook "gamma").trans (by decide)⟩
  rw [hcascades.leases]
  exact Finmap.lookup_erase 1 _

/-! ## Commands that do nothing -/

/-- The payload is of the case that the type announces. -/
def CommandWrapper.Matches (c : CommandWrapper) : Prop :=
  match c.type, c.payload with
  | .createLease, some (.createLease _) => True
  | .renewLease, some (.renewLease _) => True
  | .acquireLock, some (.acquireLock _) => True
  | .releaseLock, some (.releaseLock _) => True
  | .expireLease, some (.expireLease _) => True
  | .upsertEndpoint, some (.upsertEndpoint _) => True
  | .removeEndpoint, some (.removeEndpoint _) => True
  | _, _ => False

/-- `Apply` has changed nothing and called no hook. -/
structure Inert (f : FSM) (a : Applied) : Prop where
  fsm : a.fsm = f
  freed : a.freed = 0

/-- **Every check comes before the first write.** -/
theorem Machine.Outcome.inert_of_error {m : Machine} {c : CommandWrapper} {a : Applied}
    (hout : Outcome m c a) {e : DomainError} (herr : a.result = .error e) : Inert m.fsm a := by
  cases hout with
  | rejected => exact ⟨rfl, rfl⟩
  | ignored | created | reacquired | granted | released | expired | upserted | removed => cases herr

/-- No lease and no lock has the ID that a missing payload names. -/
structure Machine.ZeroFree (m : Machine) : Prop where
  lease : m.getLease 0 = none
  lock : ∀ L lock, m.getLock L = some lock → lock.leaseID ≠ 0

/-- A payload of another case yields zero fields. -/
theorem CommandWrapper.get_of_mismatch {c : CommandWrapper} (hmis : ¬ c.Matches) :
    (c.type = .createLease → c.getCreateLease = ⟨"", 0, 0⟩) ∧
    (c.type = .acquireLock → c.getAcquireLock = ⟨"", "", 0, 0⟩) ∧
    (c.type = .releaseLock → c.getReleaseLock = ⟨"", 0⟩) ∧
    (c.type = .expireLease → c.getExpireLease = ⟨0, 0⟩) ∧
    (c.type = .upsertEndpoint → c.getUpsertEndpoint = ⟨"", ""⟩) ∧
    (c.type = .removeEndpoint → c.getRemoveEndpoint = ⟨""⟩) := by
  obtain ⟨type, payload⟩ := c
  refine ⟨?_, ?_, ?_, ?_, ?_, ?_⟩
  all_goals
    intro htype
    cases htype
    cases payload with
    | none => rfl
    | some p => cases p <;> first | rfl | exact absurd trivial hmis

/-- A handler that runs on zero fields does nothing. -/
theorem Machine.inert_of_mismatch {m : Machine} {c : CommandWrapper} (hzero : m.ZeroFree)
    (hmis : ¬ c.Matches) : Inert m.fsm (m.apply c) := by
  obtain ⟨hcreate, hacquire, hrelease, hexpire, hupsert, hremove⟩ :=
    CommandWrapper.get_of_mismatch hmis
  by_cases hremoved : c.type = .removeEndpoint
  · -- this handler refuses the empty node ID
    have happ : m.fsm.apply c = some (m.fsm.fail .invalidClusterNode) := by
      rw [FSM.apply, hremoved]
      dsimp only
      rw [hremove hremoved]
      rfl
    rw [m.fsm_apply c] at happ
    rw [Option.some.inj happ]
    exact ⟨rfl, rfl⟩
  have hout := m.outcome c
  generalize m.apply c = a at hout
  cases hout with
  | rejected | ignored | reacquired => exact ⟨rfl, rfl⟩
  | created htype httl =>
    rw [hcreate htype] at httl
    cases httl
  | granted htype lease hlease =>
    rw [hacquire htype, hzero.lease] at hlease
    cases hlease
  | released htype lock hlock hheld =>
    rw [hrelease htype] at hlock hheld
    exact absurd hheld (hzero.lock _ lock hlock)
  | expired htype lease hlease =>
    rw [hexpire htype, hzero.lease] at hlease
    cases hlease
  | upserted htype hid =>
    rw [hupsert htype] at hid
    exact absurd rfl hid
  | removed htype => exact absurd htype hremoved

/-! ### There is no lease 0 until the allocator wraps -/

theorem Machine.zeroFree_new : new.ZeroFree where
  lease := new_getLease 0
  lock := by
    intro L lock hlock
    rw [new_getLock] at hlock
    cases hlock

theorem Machine.ZeroFree.next {m : Machine} {c : CommandWrapper} (h : m.ZeroFree)
    (halloc : m.Creates c → m.fsm.nextLeaseID ≠ 0) : (m.next c).ZeroFree where
  lease := by
    by_contra hsome
    rcases isSome_or_newLease (Option.isSome_iff_ne_none.mpr hsome) with hold | hnew
    · rw [h.lease] at hold
      cases hold
    · exact halloc (by rw [Creates, hnew]; rfl) (newLease_eq hnew).symm
  lock := by
    intro L lock hlock
    rcases getLock_or_isSome_getLease hlock with hold | hsome
    · exact h.lock L lock hold
    · intro hid
      rw [hid, h.lease] at hsome
      cases hsome

theorem Machine.zeroFree_replay (log : List CommandWrapper)
    (hleases : new.leaseCount log < 2 ^ 64) : (new.replay log).ZeroFree := by
  induction log using List.reverseRecOn with
  | nil => exact zeroFree_new
  | append_singleton log c ih =>
    rw [leaseCount_append] at hleases
    simp only [leaseCount] at hleases
    rw [replay_append]
    refine (ih (by omega)).next ?_
    intro hcr hzero
    -- the allocator has counted the leases of the log, and one more fits
    rw [if_pos hcr] at hleases
    have hstart : new.fsm.nextLeaseID.toNat = 1 := rfl
    have halloc := nextLeaseID_replay new log (by omega)
    rw [hzero, hstart] at halloc
    have : (0 : UInt64).toNat = 0 := rfl
    omega

/-- **Failed and malformed commands change nothing.** A command that `Apply` answers with an error
leaves the whole state as it was and calls no hook; so does one whose payload is missing or of
another case than its type says, as long as fewer than `2^64` leases have been created. -/
theorem apply_inert (log : List CommandWrapper) (c : CommandWrapper) :
    ∃ a, (new.replay log).fsm.apply c = some a ∧
      ((∃ e, a.result = .error e) → Inert (new.replay log).fsm a) ∧
      (new.leaseCount log < 2 ^ 64 → ¬ c.Matches → Inert (new.replay log).fsm a) := by
  refine ⟨(new.replay log).apply c, fsm_apply _ c, ?_, ?_⟩
  · rintro ⟨e, herr⟩
    exact ((new.replay log).outcome c).inert_of_error herr
  · intro hleases hmis
    exact inert_of_mismatch (zeroFree_replay log hleases) hmis

/-- An acquire without a payload, and a release of a lock that is not held, on a log with one lock
held. -/
theorem apply_inert_threeLocks :
    (∃ a, (new.replay threeLocks).fsm.apply ⟨.acquireLock, none⟩ = some a ∧
      Inert (new.replay threeLocks).fsm a) ∧
    ∃ a, (new.replay threeLocks).fsm.apply (newReleaseLockCmd "alpha" 1) = some a ∧
      Inert (new.replay threeLocks).fsm a := by
  obtain ⟨a, happ, -, hmis⟩ := apply_inert threeLocks ⟨.acquireLock, none⟩
  obtain ⟨b, happ', herr, -⟩ := apply_inert threeLocks (newReleaseLockCmd "alpha" 1)
  have hresult : ((new.replay threeLocks).fsm.apply (newReleaseLockCmd "alpha" 1)).map
      Applied.result = some (.error .lockNotFound) := by decide
  rw [happ'] at hresult
  exact ⟨⟨a, happ, hmis (by decide) id⟩, b, happ', herr ⟨_, Option.some.inj hresult⟩⟩

/-- The allocator after `n` creations, modulo the word size. -/
theorem nextLeaseID_replicate (n : Nat) :
    (new.replay (List.replicate n createOne)).fsm.nextLeaseID = 1 + UInt64.ofNat n := by
  induction n with
  | zero => rfl
  | succ n ih =>
    rw [List.replicate_succ', replay_append]
    show ((new.replay (List.replicate n createOne)).next createOne).fsm.nextLeaseID = _
    rw [(next_createOne _).2, ih, UInt64.ofNat_add, UInt64.add_assoc]
    rfl

/-- When the allocator has come round to 0, the next creation makes a lease 0, and an `ExpireLease`
without a payload expires it. -/
theorem not_inert_replicate {n : Nat} (hn : 1 + UInt64.ofNat n = 0) :
    ¬ Inert (new.replay (List.replicate (n + 1) createOne)).fsm
      ((new.replay (List.replicate (n + 1) createOne)).apply ⟨.expireLease, none⟩) := by
  intro hinert
  have hkeyed := keyed_replay (List.replicate (n + 1) createOne)
  have hsame : (new.replay (List.replicate (n + 1) createOne)).next ⟨.expireLease, none⟩
      = new.replay (List.replicate (n + 1) createOne) := Machine.ext hinert.fsm
  have hgone : ((new.replay (List.replicate (n + 1) createOne)).next
      ⟨.expireLease, none⟩).getLease 0 = none := getLease_next_of_expires hkeyed rfl
  rw [hsame, List.replicate_succ', replay_append] at hgone
  change ((new.replay (List.replicate n createOne)).next createOne).getLease 0 = none at hgone
  obtain ⟨⟨lease, hlease⟩, -⟩ := next_createOne (new.replay (List.replicate n createOne))
  rw [nextLeaseID_replicate, hn, hgone] at hlease
  cases hlease

/-- After `2^64` creations a command without a payload is not inert. -/
theorem not_apply_inert_wrapped :
    ¬ ∀ (log : List CommandWrapper) (c : CommandWrapper) (a : Applied),
      (new.replay log).fsm.apply c = some a → ¬ c.Matches → Inert (new.replay log).fsm a := by
  intro hall
  have hmis : ¬ CommandWrapper.Matches ⟨.expireLease, none⟩ := id
  exact not_inert_replicate (n := 2 ^ 64 - 1) (by decide) (hall _ _ _ (fsm_apply _ _) hmis)

end Clavis
