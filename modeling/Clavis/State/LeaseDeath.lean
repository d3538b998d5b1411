import Clavis.Lib.Trace
import Clavis.State.LeaseLife
import Clavis.State.Snapshot

/-!
# Clavis — lease death is permanent

A replica's state does not only move by commands: at any point it may be written to a snapshot and
go on in another node, or in the same one after a restart. An `Event` is either, and `history` is
the run of `FSM.event` over a list of events from a fresh state machine. It never panics, and its
states are those of the commands alone (`state_history`).

On such histories lease IDs are unique, and what an `ExpireLease` has removed stays removed:

* **`exists_createdAtEvent`**: a lease that is there and was not there earlier was created in
  between;
* **`createdAtEvent_inj`**: one ID is created at one position only;
* so an expired ID, which was created before its expiry, is not created again.
-/

namespace Clavis

open Lib Machine

/-- A command is applied, or the state is taken over by a node with state `old` through a persisted
snapshot. -/
inductive Event where
  | command (c : CommandWrapper)
  | transfer (old : FSM) (visits : ∀ snap, Visits snap)

/-- The command of an event. -/
def Event.cmd : Event → Option CommandWrapper
  | command c => some c
  | transfer _ _ => none

/-- The log a list of events applies. -/
def appliedLog (events : List Event) : List CommandWrapper := events.filterMap Event.cmd

/-- The state after an event. A restore that fails leaves the receiving node's own state. -/
def FSM.event (f : FSM) : Event → Option FSM
  | .command c => f.next c
  | .transfer old visits => f.snapshot.map fun snap => (old.restore visits snap.persist).1

/-! ## Histories are the histories of their logs -/

theorem Machine.fsm_event {m : Machine} (h : m.Storable) (e : Event) :
    m.fsm.event e = some (m.replay e.cmd.toList).fsm := by
  cases e with
  | command c =>
    exact m.fsm_next c
  | transfer old visits =>
    rw [FSM.event, m.snapshot_eq, Option.map_some, restore_persist h visits old]
    rfl

theorem Machine.run_event {m : Machine} (h : m.Storable) (events : List Event) :
    run FSM.event m.fsm events = some (m.replay (appliedLog events)).fsm := by
  induction events generalizing m with
  | nil => rfl
  | cons e events ih =>
    have hlog : appliedLog (e :: events) = e.cmd.toList ++ appliedLog events := by
      cases e <;> rfl
    rw [run, Machine.fsm_event h e, Option.bind_some, ih (h.replay _), hlog, replay_append]

/-- The run over a list of events, from a fresh state machine. -/
def history (events : List Event) : Trace FSM.event where
  start := newFSM
  acts := events
  enabled := by
    have hrun := Machine.run_event storable_new events
    rw [show newFSM = new.fsm from rfl, hrun]
    rfl

/-- The machine after the first `k` events. -/
def machineAt (events : List Event) (k : Nat) : Machine :=
  new.replay (appliedLog (events.take k))

theorem state_history (events : List Event) (k : Nat) :
    (history events).state k = (machineAt events k).fsm :=
  (history events).state_eq (Machine.run_event storable_new (events.take k))

section Positions

variable {events : List Event} {k : Nat}

theorem machineAt_succ {c : CommandWrapper} (hc : events[k]? = some (.command c)) :
    machineAt events (k + 1) = (machineAt events k).next c := by
  rw [machineAt, List.take_add_one, hc, appliedLog, List.filterMap_append, replay_append]
  rfl

/-- What is not a command leaves the machine as it is. -/
theorem machineAt_succ_of_transfer (hc : ∀ c, events[k]? ≠ some (.command c)) :
    machineAt events (k + 1) = machineAt events k := by
  rw [machineAt, List.take_add_one]
  cases he : events[k]? with
  | none => rw [Option.toList_none, List.append_nil]; rfl
  | some e =>
    cases e with
    | command c => exact absurd he (hc c)
    | transfer old visits =>
      rw [appliedLog, List.filterMap_append, replay_append]
      rfl

theorem keyed_machineAt (events : List Event) (k : Nat) : (machineAt events k).Keyed := by
  rw [machineAt]
  induction appliedLog (events.take k) using List.reverseRecOn with
  | nil => exact numbered_new.lease_id
  | append_singleton log c ih =>
    rw [replay_append]
    exact ih.next

end Positions

/-! ## Creation and expiry at a position -/

/-- The `i`-th event is a `CreateLease` answered with the ID `l`. -/
def CreatedAtEvent (events : List Event) (i : Nat) (l : UInt64) : Prop :=
  ∃ c a, events[i]? = some (.command c) ∧ ((history events).state i).apply c = some a ∧
    a.result.newLease = some l

/-- The `i`-th event is an `ExpireLease` of the existing lease `l`. -/
def ExpiredAtEvent (events : List Event) (i : Nat) (l : UInt64) : Prop :=
  ∃ c lease, events[i]? = some (.command c) ∧ c.expires = some l ∧
    ((history events).state i).getLease l = some (some lease)

/-- Lease `l` is gone from a state: it is not in the lease map, no lock is bound to it, an acquire
with it finds no lease and a release with it fails. -/
structure FSM.Dead (f : FSM) (l : UInt64) : Prop where
  absent : f.getLease l = some none
  unbound : ∀ L, ∃ lock?, f.getLock L = some lock? ∧ ∀ lock ∈ lock?, lock.leaseID ≠ l
  acquire : ∀ c, c.type = .acquireLock → c.getAcquireLock.leaseId = l →
    ∃ a, f.apply c = some a ∧ a.result = .error .leaseNotFound
  release : ∀ c, c.type = .releaseLock → c.getReleaseLock.leaseId = l →
    ∃ a e, f.apply c = some a ∧ a.result = .error e

section Events

variable {events : List Event} {i j : Nat} {l : UInt64}

theorem createdAtEvent_iff :
    CreatedAtEvent events i l ↔
      ∃ c, events[i]? = some (.command c) ∧ ((machineAt events i).result c).newLease = some l := by
  constructor
  · rintro ⟨c, a, hc, happ, hnew⟩
    rw [state_history, fsm_apply] at happ
    cases happ
    exact ⟨c, hc, hnew⟩
  · rintro ⟨c, hc, hnew⟩
    exact ⟨c, _, hc, by rw [state_history, fsm_apply], hnew⟩

theorem ExpiredAtEvent.isSome (h : ExpiredAtEvent events i l) :
    ∃ c, events[i]? = some (.command c) ∧ c.expires = some l ∧
      ((machineAt events i).getLease l).isSome := by
  obtain ⟨c, lease, hc, hexp, hlease⟩ := h
  rw [state_history, fsm_getLease] at hlease
  refine ⟨c, hc, hexp, ?_⟩
  rw [Option.some.inj hlease]
  rfl

/-- The lease IDs handed out count the creations so far, as long as there are fewer than `2^64` of
them: the allocator may end up at 0, but no ID it has handed out has wrapped. -/
theorem CreatedAtEvent.toNat_eq (hleases : new.leaseCount (appliedLog events) < 2 ^ 64)
    (h : CreatedAtEvent events i l) :
    l.toNat = 1 + new.leaseCount (appliedLog (events.take i)) ∧
      new.leaseCount (appliedLog (events.take (i + 1)))
        = new.leaseCount (appliedLog (events.take i)) + 1 := by
  obtain ⟨c, hc, hnew⟩ := createdAtEvent_iff.mp h
  have hcreates : (machineAt events i).Creates c := by rw [Creates, hnew]; rfl
  have hsucc : new.leaseCount (appliedLog (events.take (i + 1)))
      = new.leaseCount (appliedLog (events.take i)) + 1 := by
    rw [List.take_add_one, hc, appliedLog, List.filterMap_append, leaseCount_append]
    show _ + (machineAt events i).leaseCount [c] = _
    rw [leaseCount, if_pos hcreates]
    rfl
  refine ⟨?_, hsucc⟩
  have hle : new.leaseCount (appliedLog (events.take (i + 1)))
      ≤ new.leaseCount (appliedLog events) := by
    conv_rhs => rw [← List.take_append_drop (i + 1) events]
    rw [appliedLog, appliedLog, List.filterMap_append, leaseCount_append]
    omega
  have hstart : new.fsm.nextLeaseID.toNat = 1 := rfl
  have halloc := nextLeaseID_replay new (appliedLog (events.take i)) (by omega)
  rw [newLease_eq hnew, machineAt, halloc, hstart]

/-- **Lease IDs are unique**: one ID is handed out at one position only. -/
theorem createdAtEvent_inj (hleases : new.leaseCount (appliedLog events) < 2 ^ 64) (hij : i < j)
    (hi : CreatedAtEvent events i l) : ¬ CreatedAtEvent events j l := by
  intro hj
  obtain ⟨hid, hsucc⟩ := hi.toNat_eq hleases
  obtain ⟨hid', -⟩ := hj.toNat_eq hleases
  have hsplit : events.take j = events.take (i + 1) ++ (events.take j).drop (i + 1) := by
    conv_lhs => rw [← List.take_append_drop (i + 1) (events.take j), List.take_take,
      Nat.min_eq_left (by omega : i + 1 ≤ j)]
  rw [hsplit, appliedLog, List.filterMap_append, leaseCount_append] at hid'
  change l.toNat = 1 + (new.leaseCount (appliedLog (events.take (i + 1))) + _) at hid'
  omega

/-- A lease that is there, and was not at an earlier position, was created in between. -/
theorem exists_createdAtEvent (hij : i ≤ j) (habsent : (machineAt events i).getLease l = none)
    (hpresent : ((machineAt events j).getLease l).isSome) :
    ∃ p, i ≤ p ∧ p < j ∧ CreatedAtEvent events p l := by
  induction j, hij using Nat.le_induction with
  | base =>
    rw [habsent] at hpresent
    cases hpresent
  | succ j hij ih =>
    by_cases hc : ∃ c, events[j]? = some (.command c)
    · obtain ⟨c, hc⟩ := hc
      rw [machineAt_succ hc] at hpresent
      rcases isSome_or_newLease hpresent with hbefore | hnew
      · obtain ⟨p, hip, hpj, hcreated⟩ := ih hbefore
        exact ⟨p, hip, by omega, hcreated⟩
      · exact ⟨j, hij, by omega, createdAtEvent_iff.mpr ⟨c, hc, hnew⟩⟩
    · rw [machineAt_succ_of_transfer (not_exists.mp hc)] at hpresent
      obtain ⟨p, hip, hpj, hcreated⟩ := ih hpresent
      exact ⟨p, hip, by omega, hcreated⟩

/-- **A dead lease is not created again**: it was created before its expiry, and IDs are unique. -/
theorem ExpiredAtEvent.getLease_eq_none (hleases : new.leaseCount (appliedLog events) < 2 ^ 64)
    (h : ExpiredAtEvent events i l) (hij : i < j) : (machineAt events j).getLease l = none := by
  obtain ⟨c, hc, hexp, hsome⟩ := h.isSome
  have hgone : (machineAt events (i + 1)).getLease l = none := by
    rw [machineAt_succ hc]
    exact getLease_next_of_expires (keyed_machineAt events i) hexp
  obtain ⟨p, -, hpi, hborn⟩ := exists_createdAtEvent (Nat.zero_le i) (new_getLease l) hsome
  by_contra hback
  obtain ⟨q, hiq, -, hreborn⟩ :=
    exists_createdAtEvent hij hgone (Option.isSome_iff_ne_none.mpr hback)
  exact createdAtEvent_inj hleases (by omega) hborn hreborn

/-- No lock is bound to a dead lease: the cascade has freed those that were, and a grant needs the
lease. -/
theorem ExpiredAtEvent.leaseID_ne (hleases : new.leaseCount (appliedLog events) < 2 ^ 64)
    (h : ExpiredAtEvent events i l) (hij : i < j) {L : String} {lock : Lock}
    (hlock : (machineAt events j).getLock L = some lock) : lock.leaseID ≠ l := by
  induction j, hij using Nat.le_induction with
  | base =>
    obtain ⟨c, hc, hexp, hsome⟩ := h.isSome
    obtain ⟨lease, hlease⟩ := Option.isSome_iff_exists.mp hsome
    obtain ⟨htype, rfl⟩ := CommandWrapper.expires_eq_some.mp hexp
    rw [machineAt_succ hc] at hlock
    rw [← keyed_machineAt events i _ lease hlease]
    exact leaseID_ne_of_expired htype hlease hlock
  | succ j hij ih =>
    by_cases hc : ∃ c, events[j]? = some (.command c)
    · obtain ⟨c, hc⟩ := hc
      rw [machineAt_succ hc] at hlock
      rcases getLock_or_isSome_getLease hlock with hbefore | hsome
      · exact ih hbefore
      · rintro rfl
        rw [h.getLease_eq_none hleases hij] at hsome
        cases hsome
    · rw [machineAt_succ_of_transfer (not_exists.mp hc)] at hlock
      exact ih hlock

end Events

/-- Without the lease and without a lock bound to it, the handlers refuse it. -/
theorem Machine.dead_fsm {m : Machine} {l : UInt64} (habsent : m.getLease l = none)
    (hunbound : ∀ L lock, m.getLock L = some lock → lock.leaseID ≠ l) : m.fsm.Dead l where
  absent := by rw [fsm_getLease, habsent]
  unbound := by
    intro L
    exact ⟨_, m.fsm_getLock L, fun lock hlock => hunbound L lock hlock⟩
  acquire := by
    intro c htype hid
    refine ⟨m.fsm.fail .leaseNotFound, ?_, rfl⟩
    simp only [FSM.apply, htype, FSM.applyAcquireLock]
    rw [hid, getLease_eq_none.mp habsent]
  release := by
    intro c htype hid
    simp only [FSM.apply, htype, FSM.applyReleaseLock]
    cases hlock : m.getLock c.getReleaseLock.lockName with
    | none =>
      rw [getLock_eq_none.mp hlock]
      exact ⟨_, .lockNotFound, rfl, rfl⟩
    | some lock =>
      have hne : lock.leaseID ≠ c.getReleaseLock.leaseId := hid ▸ hunbound _ lock hlock
      rw [getLock_eq_some.mp hlock]
      simp only [Option.bind_eq_bind, Option.bind_some, if_pos hne]
      exact ⟨_, .notLockOwner, rfl, rfl⟩

/-- **Lease death is permanent and lease IDs are unique.** In every history with fewer than `2^64`
leases, whatever snapshots are restored between the commands: no two successful `CreateLease` carry
one ID, and once an existing lease has been expired it is dead in every later state. -/
theorem lease_death_permanent (events : List Event)
    (hleases : new.leaseCount (appliedLog events) < 2 ^ 64) :
    (∀ i j l, i ≠ j → CreatedAtEvent events i l → ¬ CreatedAtEvent events j l) ∧
    (∀ i j l, i < j → ExpiredAtEvent events i l → ((history events).state j).Dead l) := by
  constructor
  · intro i j l hij hi hj
    rcases Nat.lt_or_gt_of_ne hij with hlt | hgt
    · exact createdAtEvent_inj hleases hlt hi hj
    · exact createdAtEvent_inj hleases hgt hj hi
  · intro i j l hij hexpired
    rw [state_history]
    exact dead_fsm (hexpired.getLease_eq_none hleases hij)
      fun L lock hlock => hexpired.leaseID_ne hleases hij hlock

/-- A lease takes a lock and is expired; the state moves to a fresh node before and after that, and
another lease is created. -/
noncomputable def movedHistory : List Event :=
  [.command (newCreateLeaseCmd "client-1" 10 5), .command (newAcquireLockCmd "alpha" "client-1" 1),
    .transfer newFSM someVisits, .command (newExpireLeaseCmd 1), .transfer newFSM someVisits,
    .command (newCreateLeaseCmd "client-2" 10 9)]

theorem lease_death_permanent_movedHistory :
    new.leaseCount (appliedLog movedHistory) < 2 ^ 64 ∧ CreatedAtEvent movedHistory 0 1 ∧
      ¬ CreatedAtEvent movedHistory 5 1 ∧ ExpiredAtEvent movedHistory 3 1 ∧
      ((history movedHistory).state 6).Dead 1 := by
  have hcount : new.leaseCount (appliedLog movedHistory) < 2 ^ 64 := by decide
  have hcreated : CreatedAtEvent movedHistory 0 1 :=
    createdAtEvent_iff.mpr ⟨newCreateLeaseCmd "client-1" 10 5, rfl, by decide⟩
  have hexpired : ExpiredAtEvent movedHistory 3 1 := by
    refine ⟨newExpireLeaseCmd 1, ⟨1, "client-1", 15, 10⟩, rfl, by decide, ?_⟩
    rw [state_history]
    decide
  obtain ⟨hunique, hdead⟩ := lease_death_permanent movedHistory hcount
  exact ⟨hcount, hcreated, hunique 0 5 1 (by omega) hcreated, hexpired,
    hdead 3 6 1 (by omega) hexpired⟩

end Clavis
