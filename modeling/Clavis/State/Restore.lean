import Clavis.Lib.Trace
import Clavis.State.Fencing
import Clavis.State.LeaseLife
import Clavis.State.Snapshot
import Mathlib.Data.Fintype.EquivFin

/-!
# Clavis — what a restored snapshot is good for

`Restore` takes any decoded value that passes `validateSnapshot`. What the handlers need of the
state they start from is more than the validator checks: it looks at the leases and the endpoints,
but neither at the locks nor at the counters. `FSM.Usable` is what a restored state should be good
for, whatever commands follow; `FSM.Covered` is what makes it so. The two are equivalent, and a
rejected snapshot changes nothing (`restoresUsable_iff`).

Tokens and lease IDs are 64-bit numbers and repeat once their counters wrap, from whatever state
one starts; `FSM.Fits` leaves these logs out.
-/

namespace Clavis

open Lib

namespace FSM

/-! ## Logs that wrap no counter -/

/-- How many commands of a log advance the fencing counter, up to the first panic. -/
def grantCount : FSM → List CommandWrapper → Nat
  | _, [] => 0
  | f, c :: log =>
    match f.next c with
    | none => 0
    | some g => (if g.fencingCounter = f.fencingCounter then 0 else 1) + g.grantCount log

/-- How many commands of a log advance the allocator, up to the first panic. -/
def leaseCount : FSM → List CommandWrapper → Nat
  | _, [] => 0
  | f, c :: log =>
    match f.next c with
    | none => 0
    | some g => (if g.nextLeaseID = f.nextLeaseID then 0 else 1) + g.leaseCount log

/-- Neither a token nor a lease ID that the log hands out has wrapped. -/
def Fits (f : FSM) (log : List CommandWrapper) : Prop :=
  f.fencingCounter.toNat + f.grantCount log < 2 ^ 64 ∧
    f.nextLeaseID.toNat + f.leaseCount log ≤ 2 ^ 64

/-! ## What a restored state is for -/

/-- An ID that the lease map mentions, as a key or in a record. -/
def HasLeaseID (f : FSM) (id : UInt64) : Prop :=
  ∃ key lease, f.leases.lookup key = some (some lease) ∧ (id = key ∨ id = lease.leaseID)

/-- What one expects of a restored state, whatever is applied to it: no command dereferences a nil
pointer, no new grant repeats the token of a restored lock, no new lease takes a restored ID, and
every restored lock that is still held can be freed by expiring its lease. -/
structure Usable (f : FSM) : Prop where
  no_panic : ∀ log, f.Fits log → (run FSM.next f log).isSome
  fresh_tokens : ∀ log c g a t, f.Fits (log ++ [c]) → run FSM.next f log = some g →
    g.apply c = some a → c.type = .acquireLock → g.locks.lookup c.getAcquireLock.lockName = none →
    a.result.token = some t → ∀ L lock, f.locks.lookup L = some (some lock) → t ≠ lock.fencingToken
  fresh_leases : ∀ log c g a l, f.Fits (log ++ [c]) → run FSM.next f log = some g →
    g.apply c = some a → a.result.newLease = some l → ¬ f.HasLeaseID l
  freeable : ∀ log g, f.Fits log → run FSM.next f log = some g →
    ∀ L lock, f.locks.lookup L = some (some lock) → g.locks.lookup L = some (some lock) →
      ∃ g', g.next (newExpireLeaseCmd lock.leaseID) = some g' ∧ g'.locks.lookup L = none

/-- What the counters and the lease map have to cover: no lock is nil, no token is above the
fencing counter, every lease ID is below the allocator, and every lock is bound to a lease that is
there under its own ID. -/
structure Covered (f : FSM) : Prop where
  locks_ne_nil : ∀ L, f.locks.lookup L ≠ some none
  token_le : ∀ L lock, f.locks.lookup L = some (some lock) → lock.fencingToken ≤ f.fencingCounter
  lease_lt : ∀ id, f.HasLeaseID id → id < f.nextLeaseID
  lock_lease : ∀ L lock, f.locks.lookup L = some (some lock) →
    ∃ lease, f.leases.lookup lock.leaseID = some (some lease) ∧ lease.leaseID = lock.leaseID

end FSM

/-- The state a snapshot describes. -/
def FsmSnapshot.toFSM (snap : FsmSnapshot) : FSM :=
  ⟨snap.locks.getD ∅, snap.leases.getD ∅, snap.endpoints.getD ∅, snap.fencingCounter,
    snap.nextLeaseID⟩

/-- Restoring a decoded snapshot into any node leaves a usable state, or the node as it was. -/
def RestoresUsable (visits : ∀ snap, Visits snap) (decoded : FsmSnapshot) : Prop :=
  ∀ old : FSM, match old.restoreDecoded visits decoded with
    | (f, .ok ()) => f.Usable
    | (f, .error _) => f = old

/-! ## Covered states are usable

A covered state without nil leases is a machine, so everything known about machines applies to the
logs that follow. -/

namespace Machine

theorem run_next (m : Machine) (log : List CommandWrapper) :
    run FSM.next m.fsm log = some (m.replay log).fsm := by
  induction log generalizing m with
  | nil => rfl
  | cons c log ih => rw [run, m.fsm_next c, Option.bind_some, ih, replay_cons]

theorem fsm_grantCount (m : Machine) (log : List CommandWrapper) :
    m.fsm.grantCount log = m.grantCount log := by
  induction log generalizing m with
  | nil => rfl
  | cons c log ih =>
    rw [FSM.grantCount, m.fsm_next c, grantCount]
    dsimp only
    rw [ih]
    rcases m.fencingCounter_next_cases c with ⟨hgr, hnext⟩ | ⟨hngr, hnext⟩
    · rw [if_pos hgr, hnext, if_neg (by simp)]
    · rw [if_neg hngr, hnext, if_pos rfl]

theorem fsm_leaseCount (m : Machine) (log : List CommandWrapper) :
    m.fsm.leaseCount log = m.leaseCount log := by
  induction log generalizing m with
  | nil => rfl
  | cons c log ih =>
    rw [FSM.leaseCount, m.fsm_next c, leaseCount]
    dsimp only
    rw [ih]
    rcases m.nextLeaseID_next_cases c with ⟨hcr, hnext⟩ | ⟨hncr, hnext⟩
    · rw [if_pos hcr, hnext, if_neg (by simp)]
    · rw [if_neg hncr, hnext, if_pos rfl]

theorem fits_iff {m : Machine} {log : List CommandWrapper} :
    m.fsm.Fits log ↔ m.fsm.fencingCounter.toNat + m.grantCount log < 2 ^ 64 ∧
      m.fsm.nextLeaseID.toNat + m.leaseCount log ≤ 2 ^ 64 := by
  rw [FSM.Fits, fsm_grantCount, fsm_leaseCount]

/-- The token of a grant at the end of a log that fits is above the counter at its start. -/
theorem lt_token_of_fits {m : Machine} {log : List CommandWrapper} {c : CommandWrapper}
    {t : UInt64} (hfits : m.fsm.Fits (log ++ [c])) (hgr : (m.replay log).Grants c)
    (ht : ((m.replay log).result c).token = some t) : m.fsm.fencingCounter < t := by
  have hroom := (fits_iff.mp hfits).1
  have hcount : m.grantCount (log ++ [c]) = m.grantCount log + 1 := by
    rw [grantCount_append, grantCount, if_pos hgr]
    rfl
  have htoken : t = (m.replay (log ++ [c])).fsm.fencingCounter := by
    rw [replay_append]
    exact token_of_grants hgr ht
  rw [UInt64.lt_iff_toNat_lt, htoken, fencingCounter_replay m _ hroom, hcount]
  omega

/-- An ID handed out at the end of a log that fits is not below the allocator at its start. -/
theorem le_newLease_of_fits {m : Machine} {log : List CommandWrapper} {c : CommandWrapper}
    {l : UInt64} (hfits : m.fsm.Fits (log ++ [c]))
    (hnew : ((m.replay log).result c).newLease = some l) : m.fsm.nextLeaseID ≤ l := by
  have hroom := (fits_iff.mp hfits).2
  have hcreates : (m.replay log).Creates c := by
    rw [Creates, hnew]
    rfl
  have hcount : m.leaseCount (log ++ [c]) = m.leaseCount log + 1 := by
    rw [leaseCount_append, leaseCount, if_pos hcreates]
    rfl
  rw [newLease_eq hnew, UInt64.le_iff_toNat_le, nextLeaseID_replay m log (by omega)]
  omega

theorem Fits.of_append {m : Machine} {log : List CommandWrapper} {c : CommandWrapper}
    (hfits : m.fsm.Fits (log ++ [c])) : m.fsm.Fits log := by
  rw [fits_iff, grantCount_append, leaseCount_append] at hfits
  rw [fits_iff]
  omega

/-- **A lock keeps its lease.** Along a log that fits, a lock that is still held under the record it
started with still has its lease. Induction from the end of the log: the lease is not overwritten,
because new IDs are not below the allocator it started below, and if it is expired the lock goes
with it. -/
theorem getLease_of_getLock_replay {m : Machine} {L : String} {lock : Lock} {lease : Lease}
    (htoken : lock.fencingToken ≤ m.fsm.fencingCounter) (hid : lock.leaseID < m.fsm.nextLeaseID)
    (hlease : m.getLease lock.leaseID = some lease) (log : List CommandWrapper)
    (hfits : m.fsm.Fits log)
    (hheld : (m.replay log).getLock L = some lock) :
    (m.replay log).getLease lock.leaseID = some lease := by
  induction log using List.reverseRecOn with
  | nil => exact hlease
  | append_singleton log c ih =>
    have hbefore : (m.replay log).getLock L = some lock := by
      rw [replay_append] at hheld
      rcases (m.replay log).getLock_next_cases c L with
        hsame | ⟨htype, hL, hfree, htok, hnew⟩ | ⟨_, -, hnone, -⟩
      · exact hsame ▸ hheld
      · -- a fresh grant of `L` has a token above the one of `lock`
        have hgr : (m.replay log).Grants c := ⟨htype, hL ▸ hfree, by rw [htok]; rfl⟩
        have hlt := lt_token_of_fits hfits hgr htok
        have heq : some ((m.replay log).grantedLock c.getAcquireLock) = some lock :=
          hnew.symm.trans hheld
        rw [← Option.some.inj heq] at htoken
        exact absurd htoken (UInt64.not_le.mpr hlt)
      · exact absurd (hnone.symm.trans hheld) (by simp)
    have hprev := ih (Fits.of_append hfits) hbefore
    rw [replay_append]
    rcases (m.replay log).getLease_next_cases c lock.leaseID with
      hsame | ⟨hnew, heq, -⟩ | ⟨lease', htype, hlease', heq, -⟩
    · exact hsame.trans hprev
    · rw [← heq] at hnew
      exact absurd hid (UInt64.not_lt.mpr (le_newLease_of_fits hfits hnew))
    · -- whichever key it was found under, expiring the record takes the lock along
      rw [replay_append] at hheld
      exact absurd heq (leaseID_ne_of_expired htype hlease' hheld)

/-- A lock whose lease is there under its own ID is freed by expiring that lease. -/
theorem getLock_next_expire {m : Machine} {L : String} {lock : Lock} {lease : Lease}
    (hlock : m.getLock L = some lock) (hlease : m.getLease lock.leaseID = some lease)
    (hown : lease.leaseID = lock.leaseID) :
    (m.next (newExpireLeaseCmd lock.leaseID)).getLock L = none := by
  cases hnext : (m.next (newExpireLeaseCmd lock.leaseID)).getLock L with
  | none => rfl
  | some lock' =>
    have hsame := getLock_next_of_held hlock hnext
    have hne := leaseID_ne_of_expired (c := newExpireLeaseCmd lock.leaseID) rfl hlease hnext
    rw [hsame, hown] at hne
    exact absurd rfl hne

/-- **Covered states are usable.** -/
theorem usable_of_covered {m : Machine} (h : m.fsm.Covered) : m.fsm.Usable where
  no_panic := by
    intro log _
    rw [m.run_next log]
    rfl
  fresh_tokens := by
    intro log c g a t hfits hrun happ htype hfree ht L lock hlock heq
    rw [m.run_next log] at hrun
    cases hrun
    rw [fsm_apply] at happ
    cases happ
    have hgr : (m.replay log).Grants c :=
      ⟨htype, getLock_eq_none.mpr hfree, by rw [result, ht]; rfl⟩
    have hlt := lt_token_of_fits hfits hgr ht
    rw [heq] at hlt
    exact UInt64.not_le.mpr hlt (h.token_le L lock hlock)
  fresh_leases := by
    intro log c g a l hfits hrun happ hnew hmentioned
    rw [m.run_next log] at hrun
    cases hrun
    rw [fsm_apply] at happ
    cases happ
    exact UInt64.not_le.mpr (h.lease_lt l hmentioned) (le_newLease_of_fits hfits hnew)
  freeable := by
    intro log g hfits hrun L lock hlock hheld
    rw [m.run_next log] at hrun
    cases hrun
    obtain ⟨lease, hlease, hown⟩ := h.lock_lease L lock hlock
    have hid : lock.leaseID < m.fsm.nextLeaseID := h.lease_lt _ ⟨_, lease, hlease, Or.inl rfl⟩
    have hkept := getLease_of_getLock_replay (h.token_le L lock hlock) hid
      (getLease_eq_some.mpr hlease) log hfits (getLock_eq_some.mpr hheld)
    refine ⟨_, fsm_next _ _, getLock_eq_none.mp ?_⟩
    exact getLock_next_expire (getLock_eq_some.mpr hheld) hkept hown

end Machine

/-! ## Usable states are covered

Each condition is necessary: where it fails, a short log shows it. The logs run on a state that may
hold nil locks, so what they do is computed from the handlers. -/

namespace FSM

section Counting

variable {f g : FSM} {log : List CommandWrapper}

theorem grantCount_append (hrun : run FSM.next f log = some g) (log' : List CommandWrapper) :
    f.grantCount (log ++ log') = f.grantCount log + g.grantCount log' := by
  induction log generalizing f with
  | nil =>
    cases hrun
    rw [List.nil_append, grantCount, Nat.zero_add]
  | cons c log ih =>
    obtain ⟨f', hnext, hrest⟩ := Option.bind_eq_some_iff.mp hrun
    rw [List.cons_append, grantCount, grantCount, hnext]
    dsimp only
    rw [ih hrest, Nat.add_assoc]

theorem leaseCount_append (hrun : run FSM.next f log = some g) (log' : List CommandWrapper) :
    f.leaseCount (log ++ log') = f.leaseCount log + g.leaseCount log' := by
  induction log generalizing f with
  | nil =>
    cases hrun
    rw [List.nil_append, leaseCount, Nat.zero_add]
  | cons c log ih =>
    obtain ⟨f', hnext, hrest⟩ := Option.bind_eq_some_iff.mp hrun
    rw [List.cons_append, leaseCount, leaseCount, hnext]
    dsimp only
    rw [ih hrest, Nat.add_assoc]

end Counting

/-! ### Creating leases -/

/-- The state after `Machine.createOne`. -/
def withOne (f : FSM) : FSM :=
  { f with
    nextLeaseID := f.nextLeaseID + 1
    leases := f.leases.insert f.nextLeaseID (some ⟨f.nextLeaseID, "client-1", 2, 1⟩) }

theorem apply_createOne (f : FSM) :
    ∃ a, f.apply Machine.createOne = some a ∧ a.fsm = f.withOne ∧
      a.result.newLease = some f.nextLeaseID :=
  ⟨_, rfl, rfl, rfl⟩

theorem next_createOne (f : FSM) : f.next Machine.createOne = some f.withOne := rfl

theorem count_createOne (f : FSM) (log : List CommandWrapper) :
    f.grantCount (Machine.createOne :: log) = f.withOne.grantCount log ∧
      f.leaseCount (Machine.createOne :: log) = f.withOne.leaseCount log + 1 := by
  rw [grantCount, leaseCount, next_createOne]
  dsimp only
  constructor
  · rw [if_pos (show f.withOne.fencingCounter = f.fencingCounter from rfl), Nat.zero_add]
  · rw [if_neg (show f.withOne.nextLeaseID ≠ f.nextLeaseID by simp [withOne]), Nat.add_comm]

theorem run_createOne (f : FSM) (n : Nat) :
    ∃ g, run FSM.next f (List.replicate n Machine.createOne) = some g ∧
      g.nextLeaseID = f.nextLeaseID + UInt64.ofNat n ∧
      f.leaseCount (List.replicate n Machine.createOne) = n ∧
      f.grantCount (List.replicate n Machine.createOne) = 0 := by
  induction n generalizing f with
  | zero => exact ⟨f, rfl, by simp, rfl, rfl⟩
  | succ n ih =>
    obtain ⟨g, hrun, hid, hleases, hgrants⟩ := ih f.withOne
    refine ⟨g, ?_, ?_, ?_, ?_⟩
    · rw [List.replicate_succ, run, next_createOne, Option.bind_some, hrun]
    · rw [hid]
      show f.nextLeaseID + 1 + UInt64.ofNat n = _
      rw [UInt64.ofNat_add, UInt64.add_assoc, UInt64.add_comm 1]
      rfl
    · rw [List.replicate_succ, (f.count_createOne _).2, hleases]
    · rw [List.replicate_succ, (f.count_createOne _).1, hgrants]

/-! ### Taking and releasing a free lock over and over -/

/-- The state after a fresh grant. -/
def granting (f : FSM) (L ownerID : String) (l : UInt64) : FSM :=
  { f with
    fencingCounter := f.fencingCounter + 1
    locks := f.locks.insert L (some ⟨L, ownerID, f.fencingCounter + 1, l⟩) }

/-- The state with a fencing counter further on. -/
def advanced (f : FSM) (n : UInt64) : FSM := { f with fencingCounter := f.fencingCounter + n }

/-- Acquire and release one lock `n` times. -/
def toggles (L ownerID : String) (l : UInt64) : Nat → List CommandWrapper
  | 0 => []
  | n + 1 => newAcquireLockCmd L ownerID l :: newReleaseLockCmd L l :: toggles L ownerID l n

section Toggles

variable {f : FSM} {L : String} {l : UInt64} {lease : Lease}

theorem apply_acquire_of_free (hlease : f.leases.lookup l = some (some lease))
    (hfree : f.locks.lookup L = none) :
    ∃ a, f.apply (newAcquireLockCmd L lease.ownerID l) = some a ∧
      a.fsm = f.granting L lease.ownerID l ∧ a.result.token = some (f.fencingCounter + 1) := by
  have happ : f.apply (newAcquireLockCmd L lease.ownerID l)
      = f.applyAcquireLock ⟨L, lease.ownerID, l, 0⟩ := rfl
  rw [happ, applyAcquireLock]
  simp only [hlease, hfree, Option.bind_eq_bind, Option.bind_some, ne_eq, not_true_eq_false,
    if_false]
  exact ⟨_, rfl, rfl, rfl⟩

theorem next_acquire_of_free (hlease : f.leases.lookup l = some (some lease))
    (hfree : f.locks.lookup L = none) :
    f.next (newAcquireLockCmd L lease.ownerID l) = some (f.granting L lease.ownerID l) := by
  obtain ⟨a, happ, hfsm, -⟩ := apply_acquire_of_free hlease hfree
  rw [FSM.next, happ, Option.map_some, hfsm]

theorem next_release_of_held {lock : Lock} (hlock : f.locks.lookup L = some (some lock)) :
    f.next (newReleaseLockCmd L lock.leaseID) = some { f with locks := f.locks.erase L } := by
  have happ : f.apply (newReleaseLockCmd L lock.leaseID)
      = f.applyReleaseLock ⟨L, lock.leaseID⟩ := rfl
  rw [FSM.next, happ, applyReleaseLock]
  simp only [hlock, Option.bind_eq_bind, Option.bind_some, ne_eq, not_true_eq_false, if_false,
    Option.map_some]

/-- Releasing what was granted, at whatever counter, leaves the lock map as it was. -/
theorem next_release_granting (hfree : f.locks.lookup L = none) (ownerID : String) (n : UInt64) :
    ((f.granting L ownerID l).advanced n).next (newReleaseLockCmd L l)
      = some ((f.advanced 1).advanced n) := by
  have hback : (f.locks.insert L (some ⟨L, ownerID, f.fencingCounter + 1, l⟩)).erase L
      = f.locks := by
    apply Finmap.ext_lookup
    intro x
    rw [lookup_erase_eq_ite, lookup_insert_eq_ite]
    split
    · rename_i hx
      rw [hx, hfree]
    · rfl
  have hheld : ((f.granting L ownerID l).advanced n).locks.lookup L
      = some (some ⟨L, ownerID, f.fencingCounter + 1, l⟩) := Finmap.lookup_insert _
  rw [next_release_of_held hheld]
  simp only [granting, advanced, hback]

theorem advanced_advanced (f : FSM) (n : Nat) :
    (f.advanced 1).advanced (UInt64.ofNat n) = f.advanced (UInt64.ofNat (n + 1)) := by
  have hsum : f.fencingCounter + 1 + UInt64.ofNat n
      = f.fencingCounter + UInt64.ofNat (n + 1) := by
    rw [UInt64.ofNat_add, UInt64.add_comm (UInt64.ofNat n), UInt64.add_assoc]
    rfl
  simp only [advanced, hsum]

theorem advanced_zero (f : FSM) : f.advanced 0 = f := by
  rw [advanced, UInt64.add_zero]

/-- **Rounds of taking and releasing a free lock** move the counter, one grant each, and leave the
rest as it was. -/
theorem run_toggles (hlease : f.leases.lookup l = some (some lease))
    (hfree : f.locks.lookup L = none) (n : Nat) :
    run FSM.next f (toggles L lease.ownerID l n) = some (f.advanced (UInt64.ofNat n)) ∧
      f.grantCount (toggles L lease.ownerID l n) = n ∧
      f.leaseCount (toggles L lease.ownerID l n) = 0 := by
  induction n generalizing f with
  | zero =>
    have hstill : f.advanced (UInt64.ofNat 0) = f := advanced_zero f
    exact ⟨by rw [toggles, run, hstill], rfl, rfl⟩
  | succ n ih =>
    obtain ⟨hrun, hgrants, hleases⟩ := ih (f := f.advanced 1) hlease hfree
    have hacquire := next_acquire_of_free hlease hfree
    have hrelease := next_release_granting (l := l) hfree lease.ownerID 0
    rw [advanced_zero, advanced_zero] at hrelease
    refine ⟨?_, ?_, ?_⟩
    · rw [toggles, run, hacquire, Option.bind_some, run, hrelease, Option.bind_some, hrun,
        advanced_advanced]
    · simp only [toggles, grantCount, hacquire, hrelease, hgrants]
      simp [granting, advanced]
      omega
    · simp only [toggles, leaseCount, hacquire, hrelease, hleases]
      simp [granting, advanced]

end Toggles

/-! ### The four conditions -/

section Necessary

variable {f : FSM}

/-- Releasing a nil lock panics. -/
theorem Usable.locks_ne_nil (h : f.Usable) (L : String) : f.locks.lookup L ≠ some none := by
  intro hnil
  have hpanic : f.next (newReleaseLockCmd L 0) = none := by
    have happ : f.apply (newReleaseLockCmd L 0) = f.applyReleaseLock ⟨L, 0⟩ := rfl
    rw [FSM.next, happ, applyReleaseLock, hnil]
    rfl
  have hfits : f.Fits [newReleaseLockCmd L 0] := by
    rw [Fits, grantCount, leaseCount, hpanic]
    exact ⟨f.fencingCounter.toNat_lt, f.nextLeaseID.toNat_lt.le⟩
  have hsome := h.no_panic _ hfits
  rw [run, hpanic] at hsome
  cases hsome

/-- Enough creations reach every ID that is not below the allocator. -/
theorem Usable.lease_lt (h : f.Usable) (id : UInt64) (hid : f.HasLeaseID id) :
    id < f.nextLeaseID := by
  by_contra hge
  rw [UInt64.not_lt, UInt64.le_iff_toNat_le] at hge
  obtain ⟨g, hrun, hnext, -⟩ := f.run_createOne (id.toNat - f.nextLeaseID.toNat)
  obtain ⟨-, -, -, hleases, hgrants⟩ := f.run_createOne (id.toNat - f.nextLeaseID.toNat + 1)
  obtain ⟨a, happ, -, hnew⟩ := g.apply_createOne
  have hreached : g.nextLeaseID = id := by
    rw [hnext]
    apply UInt64.toNat_inj.mp
    have hlt := id.toNat_lt
    rw [Machine.toNat_add_ofNat (by omega)]
    omega
  refine h.fresh_leases _ Machine.createOne g a id ?_ hrun happ (hreached ▸ hnew) hid
  rw [← List.replicate_succ', Fits, hleases, hgrants]
  have hlt := id.toNat_lt
  exact ⟨f.fencingCounter.toNat_lt, by omega⟩

/-- Every token above the counter can be granted: a new lease takes and releases a name that is not
in the map until the counter gets there. -/
theorem exists_grant_of_lt {t : UInt64} (hlt : f.fencingCounter < t) :
    ∃ log c g a, f.Fits (log ++ [c]) ∧ run FSM.next f log = some g ∧ g.apply c = some a ∧
      c.type = .acquireLock ∧ g.locks.lookup c.getAcquireLock.lockName = none ∧
      a.result.token = some t := by
  rw [UInt64.lt_iff_toNat_lt] at hlt
  obtain ⟨L, hL⟩ := Infinite.exists_notMem_finset f.locks.keys
  have hfree : f.withOne.locks.lookup L = none :=
    Finmap.lookup_eq_none.mpr (Finmap.mem_keys.not.mp hL)
  have hlease : f.withOne.leases.lookup f.nextLeaseID
      = some (some ⟨f.nextLeaseID, "client-1", 2, 1⟩) := Finmap.lookup_insert _
  obtain ⟨n, hn⟩ : ∃ n, t.toNat = f.fencingCounter.toNat + n + 1 :=
    ⟨t.toNat - f.fencingCounter.toNat - 1, by omega⟩
  have hroom : f.fencingCounter.toNat + n + 1 < 2 ^ 64 := hn ▸ t.toNat_lt
  have hcounter : (f.withOne.advanced (UInt64.ofNat n)).fencingCounter.toNat
      = f.fencingCounter.toNat + n := Machine.toNat_add_ofNat (Nat.lt_of_succ_lt hroom)
  have hreached : (f.withOne.advanced (UInt64.ofNat n)).fencingCounter + 1 = t := by
    apply UInt64.toNat_inj.mp
    rw [Machine.toNat_add_one (hcounter ▸ hroom), hcounter, hn]
  obtain ⟨hrounds, hgrants, hleases⟩ := run_toggles hlease hfree n
  have hrun : run FSM.next f (Machine.createOne :: toggles L "client-1" f.nextLeaseID n)
      = some (f.withOne.advanced (UInt64.ofNat n)) := by
    rw [run, next_createOne, Option.bind_some]
    exact hrounds
  obtain ⟨a, happ, -, htok⟩ := apply_acquire_of_free
    (f := f.withOne.advanced (UInt64.ofNat n)) hlease hfree
  refine ⟨_, _, _, a, ?_, hrun, happ, rfl, hfree, hreached ▸ htok⟩
  -- one creation, and as many grants as the token is above the counter
  have hacquire := next_acquire_of_free (f := f.withOne.advanced (UInt64.ofNat n)) hlease hfree
  have hone : (f.withOne.advanced (UInt64.ofNat n)).grantCount
      [newAcquireLockCmd L "client-1" f.nextLeaseID] = 1 := by
    simp only [grantCount, hacquire]
    simp [granting]
  have hnone : (f.withOne.advanced (UInt64.ofNat n)).leaseCount
      [newAcquireLockCmd L "client-1" f.nextLeaseID] = 0 := by
    simp only [leaseCount, hacquire]
    simp [granting]
  have hcount := f.count_createOne (toggles L "client-1" f.nextLeaseID n)
  have hid := f.nextLeaseID.toNat_lt
  rw [Fits, grantCount_append hrun, leaseCount_append hrun, hone, hnone, hcount.1, hcount.2,
    hgrants, hleases]
  omega

/-- Enough grants reach every token above the counter. -/
theorem Usable.token_le (h : f.Usable) (L : String) (lock : Lock)
    (hlock : f.locks.lookup L = some (some lock)) : lock.fencingToken ≤ f.fencingCounter := by
  by_contra hgt
  obtain ⟨log, c, g, a, hfits, hrun, happ, htype, hfree, htok⟩ :=
    exists_grant_of_lt (UInt64.not_le.mp hgt)
  exact h.fresh_tokens log c g a _ hfits hrun happ htype hfree htok L lock hlock rfl

/-- Expiring a lease frees a lock only if the lease is there under the lock's ID. -/
theorem Usable.lock_lease (h : f.Usable) (hleases : ∀ id, f.leases.lookup id ≠ some none)
    (L : String) (lock : Lock) (hlock : f.locks.lookup L = some (some lock)) :
    ∃ lease, f.leases.lookup lock.leaseID = some (some lease) ∧ lease.leaseID = lock.leaseID := by
  have hfits : f.Fits [] := ⟨f.fencingCounter.toNat_lt, f.nextLeaseID.toNat_lt.le⟩
  obtain ⟨g, hnext, hgone⟩ := h.freeable [] f hfits rfl L lock hlock hlock
  have happ : f.apply (newExpireLeaseCmd lock.leaseID)
      = f.applyExpireLease ⟨lock.leaseID, 0⟩ := rfl
  rw [FSM.next, happ, applyExpireLease] at hnext
  cases hlease : f.leases.lookup lock.leaseID with
  | none =>
    -- without the lease nothing happens
    rw [hlease] at hnext
    cases hnext
    exact absurd (hgone.symm.trans hlock) (by simp)
  | some leasePtr =>
    cases leasePtr with
    | none => exact absurd hlease (hleases _)
    | some lease =>
      refine ⟨lease, rfl, ?_⟩
      let m : Machine := ⟨f, h.locks_ne_nil, hleases⟩
      obtain ⟨loop, hloop, hmap, -⟩ := rangeDelete_spec (m.boundTo_eq_some lease.leaseID)
      rw [hlease] at hnext
      change rangeDelete (boundTo lease.leaseID) f.locks = some loop at hloop
      simp only [Option.bind_eq_bind, Option.bind_some, hloop, Option.map_some,
        Option.some.injEq] at hnext
      rw [← hnext, hmap L] at hgone
      change (f.locks.lookup L).filter _ = none at hgone
      rw [hlock] at hgone
      by_contra hne
      have hkept : Machine.isBoundTo lease.leaseID L (some lock) = false := by
        simp [Machine.isBoundTo, Ne.symm hne]
      simp [Option.filter, hkept] at hgone

theorem usable_iff_covered (hleases : ∀ id, f.leases.lookup id ≠ some none) :
    f.Usable ↔ f.Covered := by
  constructor
  · intro h
    exact ⟨h.locks_ne_nil, h.token_le, h.lease_lt, h.lock_lease hleases⟩
  · intro h
    exact Machine.usable_of_covered (m := ⟨f, h.locks_ne_nil, hleases⟩) h

end Necessary

end FSM

/-! ## Restoring a snapshot -/

theorem ok_of_checkAll {ε : Type} {check : ε → Except SnapshotError Unit} {es : List ε}
    (h : checkAll check es = .ok ()) : ∀ e ∈ es, check e = .ok () := by
  induction es with
  | nil => simp
  | cons e es ih =>
    rw [checkAll] at h
    cases he : check e with
    | error err =>
      rw [he] at h
      cases h
    | ok =>
      rw [he] at h
      exact List.forall_mem_cons.mpr ⟨he, ih h⟩

/-- What an accepted snapshot has been checked for that matters here: it has no nil lease. -/
theorem leases_ne_nil_of_valid {snap : FsmSnapshot} {visits : Visits snap}
    (h : validateSnapshot snap visits = .ok ()) (id : UInt64) :
    (snap.leases.getD ∅).lookup id ≠ some none := by
  intro hnil
  have hmem : (⟨id, none⟩ : Sigma fun _ : UInt64 => Ptr Lease) ∈ visits.leases := by
    rw [← Multiset.mem_coe, visits.leases_eq]
    exact Finmap.mem_lookup_iff.mp hnil
  unfold validateSnapshot at h
  split at h
  · cases h
  · split at h
    · cases h
    · split at h
      · cases h
      · rename_i hchecked
        have hnil' := ok_of_checkAll hchecked _ hmem
        cases hnil'

/-- Only the state that an accepted snapshot describes matters, whatever the node had before. -/
theorem restoresUsable_iff_usable {visits : ∀ snap, Visits snap} {decoded : FsmSnapshot} :
    RestoresUsable visits decoded ↔
      (validateSnapshot decoded.withEndpoints (visits decoded.withEndpoints) = .ok () →
        decoded.toFSM.Usable) := by
  unfold RestoresUsable FSM.restoreDecoded
  dsimp only
  cases hval : validateSnapshot decoded.withEndpoints (visits decoded.withEndpoints) with
  | error err => simp
  | ok => exact ⟨fun h _ => h newFSM, fun h _ => h rfl⟩

/-- **A snapshot is restored to a usable state exactly when it covers itself.** For every decoded
value: restoring it into any node leaves a usable state, or the node as it was, if and only if it is
rejected or describes a covered state. -/
theorem restoresUsable_iff (visits : ∀ snap, Visits snap) (decoded : FsmSnapshot) :
    RestoresUsable visits decoded ↔
      (validateSnapshot decoded.withEndpoints (visits decoded.withEndpoints) = .ok () →
        decoded.toFSM.Covered) := by
  rw [restoresUsable_iff_usable]
  constructor
  · intro h hval
    exact (FSM.usable_iff_covered (leases_ne_nil_of_valid hval)).mp (h hval)
  · intro h hval
    exact (FSM.usable_iff_covered (leases_ne_nil_of_valid hval)).mpr (h hval)

/-- What `{"locks": {"alpha": null}, "leases": {}, "next_lease_id": 1}` decodes to. -/
def nilLock : FsmSnapshot :=
  ⟨some ((∅ : Finmap fun _ : String => Ptr Lock).insert "alpha" none), some ∅, none, 0, 1⟩

/-- A null lock passes validation, and releasing it panics. -/
theorem not_restoresUsable_nilLock : ¬ RestoresUsable someVisits nilLock := by
  rw [restoresUsable_iff_usable]
  intro h
  refine (h ?_).locks_ne_nil "alpha" rfl
  -- there are no leases and no endpoints to check
  have hleases : (∅ : Finmap fun _ : UInt64 => Ptr Lease).entries.toList = [] :=
    Multiset.toList_zero
  have hendpoints : (∅ : Finmap fun _ : String => String).entries.toList = [] :=
    Multiset.toList_zero
  simp [validateSnapshot, nilLock, FsmSnapshot.withEndpoints, someVisits, checkAll, hleases,
    hendpoints]

end Clavis
