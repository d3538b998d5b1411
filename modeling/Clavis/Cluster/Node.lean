import Clavis.Cluster.LeaseTracker
import Clavis.Cluster.Raft
import Clavis.Lib.Trace

/-!
# Clavis — a node: lease renewal and the expiry loop

`internal/cluster/lease.go` as a system of atomic steps. Any number of `RenewLease` calls run next
to one `leaseExpiryLoop`, to `CheckLeaseAlive` calls, to other commands being proposed and to
whatever Raft does (`Raft.step`). Each call and the loop is a program counter with the local
variables that are live there, so that a value read in one step may be stale in the next:

* `RenewLease` reads the term, awaits the term's barrier under `barrierMu`, looks the lease up,
  reads the clock, records the renewal in the tracker, verifies leadership and returns;
* `leaseExpiryLoop` tests `IsLeader`, reads the term, claims a batch, and then for each element
  proposes `ExpireLease`, waits for the outcome and calls `finishExpiry`.
-/

namespace Clavis

open Lib

/-- How `RenewLease` fails. -/
inductive RenewError where
  | applyEarlierEntries
  | domain (e : DomainError)
  | verifyLeadership
deriving DecidableEq

/-- Where a `RenewLease` call stands. -/
inductive RenewPc where
  /-- about to call `awaitTermApplied` -/
  | termRead
  /-- holds `barrierMu` and waits for the barrier entry it proposed -/
  | barrier (index : Nat) (entryTerm : UInt64)
  /-- about to look the lease up -/
  | termApplied
  /-- about to read the clock -/
  | found (lease : Lease)
  /-- about to call `renew` -/
  | clockRead (lease : Lease) (now : Int)
  /-- about to verify leadership -/
  | recorded (lease : Lease)
  | returned (result : Except RenewError Duration)

/-- A `RenewLease` call: its argument, the term it has read and where it stands. -/
structure RenewCall where
  leaseID : UInt64
  term : UInt64
  pc : RenewPc

/-- Where the expiry loop stands. The batch is what is left to propose. -/
inductive LoopPc where
  | idle
  /-- `IsLeader` was true; about to read the term -/
  | isLeader
  /-- about to claim -/
  | termRead (term : UInt64)
  /-- about to propose the head of the batch -/
  | proposing (term : UInt64) (batch : List UInt64)
  /-- waits for the entry it proposed -/
  | waiting (term leaseID : UInt64) (index : Nat) (entryTerm : UInt64) (batch : List UInt64)
  /-- about to call `finishExpiry` -/
  | finishing (term leaseID : UInt64) (committed : Bool) (batch : List UInt64)

/-- A node. `lastReading` is not part of the code: it is the latest clock reading the tracker has
been given, and serves to say that calls reach the tracker in the order of their readings. -/
structure Node where
  now : Int
  raft : Raft
  leases : LeaseTracker
  lastReading : Int
  barrierMu : Option Nat
  barrierTerm : UInt64
  renewals : Nat → Option RenewCall
  loop : LoopPc

/-- The steps. `Nat` numbers the `RenewLease` calls; a `Bool` says whether what is waited for
succeeded. -/
inductive Node.Act where
  | tick (d : Nat)
  | raft (a : Raft.Act)
  | propose (cmd : CommandWrapper)
  | checkLeaseAlive (term : UInt64) (now : Int) (lease : Lease)
  | renewLease (c : Nat) (leaseID : UInt64)
  | awaitTermApplied (c : Nat)
  | barrier (c : Nat) (ok : Bool)
  | getLease (c : Nat)
  | readClock (c : Nat)
  | renew (c : Nat)
  | verifyLeader (c : Nat) (ok : Bool)
  | loopTick
  | loopTerm
  | loopClaim (leases : List Lease)
  | loopPropose (ok : Bool)
  | loopWait (ok : Bool)
  | loopFinish
  | loopEnd

namespace Node

/-- A node that has just started. -/
def new (now : Int) : Node := ⟨now, .new, .zero, now, none, 0, fun _ => none, .idle⟩

/-- Move a `RenewLease` call on. -/
def setCall (s : Node) (c : Nat) (call : RenewCall) : Node :=
  { s with renewals := Function.update s.renewals c (some call) }

/-- After a call has moved on, it is as set and the others are as they were. -/
theorem setCall_eq_some {s : Node} {c k : Nat} {call call' : RenewCall}
    (h : (s.setCall k call').renewals c = some call) :
    (c = k ∧ call = call') ∨ s.renewals c = some call :=
  (update_some_eq_some h).imp_right And.right

/-- Call the tracker. -/
def track (s : Node) (term : UInt64) (now : Int) (c : TrackerCall) : Node :=
  { s with leases := c.run s.leases term now, lastReading := max s.lastReading now }

/-- The steps of a `RenewLease` call. -/
def stepCall (s : Node) (c : Nat) (call : RenewCall) : Act → Option Node
  | .awaitTermApplied _ =>
    match call.pc with
    | .termRead =>
      if s.barrierMu = none then
        if s.barrierTerm = call.term then some (s.setCall c { call with pc := .termApplied })
        else if s.raft.leader then
          let pc := .barrier s.raft.log.length s.raft.currentTerm
          some ({ s with raft := s.raft.append none, barrierMu := some c }.setCall c
            { call with pc := pc })
        else some (s.setCall c { call with pc := .returned (.error .applyEarlierEntries) })
      else none
    | _ => none
  | .barrier _ ok =>
    match call.pc with
    | .barrier index entryTerm =>
      if ok then
        if index < s.raft.applied ∧ s.raft.log[index]? = some ⟨entryTerm, none⟩ then
          -- the term read at the start of the call, which need not be the barrier's
          some ({ s with barrierMu := none, barrierTerm := call.term }.setCall c
            { call with pc := .termApplied })
        else none
      else
        some ({ s with barrierMu := none }.setCall c
          { call with pc := .returned (.error .applyEarlierEntries) })
    | _ => none
  | .getLease _ =>
    match call.pc with
    | .termApplied =>
      match s.raft.fsm.getLease call.leaseID with
      | none => some (s.setCall c { call with pc := .returned (.error (.domain .leaseNotFound)) })
      | some lease => some (s.setCall c { call with pc := .found lease })
    | _ => none
  | .readClock _ =>
    match call.pc with
    | .found lease => some (s.setCall c { call with pc := .clockRead lease s.now })
    | _ => none
  | .renew _ =>
    match call.pc with
    | .clockRead lease now =>
      match (s.leases.renew call.term now lease).2 with
      | .error e =>
        some ((s.track call.term now (.renew lease)).setCall c
          { call with pc := .returned (.error (.domain e)) })
      | .ok () =>
        some ((s.track call.term now (.renew lease)).setCall c { call with pc := .recorded lease })
    | _ => none
  | .verifyLeader _ ok =>
    match call.pc with
    | .recorded lease =>
      if ok then
        if s.raft.leader then some (s.setCall c { call with pc := .returned (.ok lease.ttl) })
        else none
      else some (s.setCall c { call with pc := .returned (.error .verifyLeadership) })
    | _ => none
  | _ => none

/-- The steps of the expiry loop. -/
def stepLoop (s : Node) : Act → Option Node
  | .loopTick =>
    match s.loop with
    | .idle => if s.raft.leader then some { s with loop := .isLeader } else none
    | _ => none
  | .loopTerm =>
    match s.loop with
    | .isLeader => some { s with loop := .termRead s.raft.currentTerm }
    | _ => none
  | .loopClaim leases =>
    match s.loop with
    | .termRead term =>
      if s.raft.fsm.fsm.ReturnsLeases leases then
        let claimed := (s.leases.claimExpired term s.now leases).2
        some { s.track term s.now (.claimExpired leases) with loop := .proposing term claimed }
      else none
    | _ => none
  | .loopPropose ok =>
    match s.loop with
    | .proposing term (leaseID :: batch) =>
      if ok then
        if s.raft.leader then
          some { s with
            raft := s.raft.append (some (newExpireLeaseCmd leaseID))
            loop := .waiting term leaseID s.raft.log.length s.raft.currentTerm batch }
        else none
      -- not the leader any more, or the proposal could not be enqueued in time
      else some { s with loop := .finishing term leaseID false batch }
    | _ => none
  | .loopWait ok =>
    match s.loop with
    | .waiting term leaseID index entryTerm batch =>
      if ok then
        if index < s.raft.applied ∧
            s.raft.log[index]? = some ⟨entryTerm, some (newExpireLeaseCmd leaseID)⟩ then
          some { s with loop := .finishing term leaseID true batch }
        else none
      -- once the entry is in the log, the wait only fails by losing the leadership
      else if s.raft.leader = false ∨ s.raft.currentTerm ≠ entryTerm then
        some { s with loop := .finishing term leaseID false batch }
      else none
    | _ => none
  | .loopFinish =>
    match s.loop with
    | .finishing term leaseID committed batch =>
      some { s with
        leases := s.leases.finishExpiry leaseID committed
        loop := .proposing term batch }
    | _ => none
  | .loopEnd =>
    match s.loop with
    | .proposing _ [] => some { s with loop := .idle }
    | _ => none
  | _ => none

/-- One step. The arguments of `CheckLeaseAlive` may have been read at any earlier moment; every
command but `ExpireLease` may be proposed by the service, as long as lease IDs last. -/
def step (s : Node) (a : Act) : Option Node :=
  match a with
  | .tick d => some { s with now := s.now + d }
  | .raft a => (s.raft.step a).map fun r => { s with raft := r }
  | .propose cmd =>
    if s.raft.leader ∧ cmd.type ≠ .expireLease ∧
        Machine.new.leaseCount (commands (s.raft.append (some cmd)).log) < 2 ^ 64 - 1 then
      some { s with raft := s.raft.append (some cmd) }
    else none
  | .checkLeaseAlive term now lease =>
    if term ≤ s.raft.currentTerm ∧ now ≤ s.now then some (s.track term now (.alive lease))
    else none
  | .renewLease c leaseID =>
    if (s.renewals c).isNone then some (s.setCall c ⟨leaseID, s.raft.currentTerm, .termRead⟩)
    else none
  | .awaitTermApplied c | .barrier c _ | .getLease c | .readClock c | .renew c
  | .verifyLeader c _ => (s.renewals c).bind fun call => s.stepCall c call a
  | .loopTick | .loopTerm | .loopClaim _ | .loopPropose _ | .loopWait _ | .loopFinish
  | .loopEnd => s.stepLoop a

/-! ## What one step does

`Moved` lists the steps with their guards and the node each one leaves; every fact about a step is
a case analysis on it. -/

inductive Moved (s : Node) : Act → Node → Prop where
  | tick (d : Nat) : Moved s (.tick d) { s with now := s.now + d }
  | raft (a : Raft.Act) (r : Raft) (hstep : s.raft.step a = some r) :
      Moved s (.raft a) { s with raft := r }
  | propose (cmd : CommandWrapper) (hleader : s.raft.leader = true)
      (htype : cmd.type ≠ .expireLease)
      (hroom : Machine.new.leaseCount (commands (s.raft.append (some cmd)).log) < 2 ^ 64 - 1) :
      Moved s (.propose cmd) { s with raft := s.raft.append (some cmd) }
  | checkLeaseAlive (term : UInt64) (now : Int) (lease : Lease)
      (hterm : term ≤ s.raft.currentTerm) (hnow : now ≤ s.now) :
      Moved s (.checkLeaseAlive term now lease) (s.track term now (.alive lease))
  | renewLease (c : Nat) (leaseID : UInt64) (hfresh : s.renewals c = none) :
      Moved s (.renewLease c leaseID) (s.setCall c ⟨leaseID, s.raft.currentTerm, .termRead⟩)
  | termKnown (c : Nat) (call : RenewCall) (hcall : s.renewals c = some call)
      (hpc : call.pc = .termRead) (hterm : s.barrierTerm = call.term) :
      Moved s (.awaitTermApplied c) (s.setCall c { call with pc := .termApplied })
  | barrierProposed (c : Nat) (call : RenewCall) (hcall : s.renewals c = some call)
      (hpc : call.pc = .termRead) (hleader : s.raft.leader = true) :
      Moved s (.awaitTermApplied c)
        ({ s with raft := s.raft.append none, barrierMu := some c }.setCall c
          { call with pc := .barrier s.raft.log.length s.raft.currentTerm })
  | barrierApplied (c : Nat) (call : RenewCall) (index : Nat) (entryTerm : UInt64)
      (hcall : s.renewals c = some call) (hpc : call.pc = .barrier index entryTerm)
      (hindex : index < s.raft.applied) (hentry : s.raft.log[index]? = some ⟨entryTerm, none⟩) :
      Moved s (.barrier c true)
        ({ s with barrierMu := none, barrierTerm := call.term }.setCall c
          { call with pc := .termApplied })
  | barrierFailed (c : Nat) (call : RenewCall) (hcall : s.renewals c = some call) :
      Moved s (.barrier c false)
        ({ s with barrierMu := none }.setCall c
          { call with pc := .returned (.error .applyEarlierEntries) })
  | found (c : Nat) (call : RenewCall) (lease : Lease) (hcall : s.renewals c = some call)
      (hpc : call.pc = .termApplied) (hlease : s.raft.fsm.getLease call.leaseID = some lease) :
      Moved s (.getLease c) (s.setCall c { call with pc := .found lease })
  | clockRead (c : Nat) (call : RenewCall) (lease : Lease) (hcall : s.renewals c = some call)
      (hpc : call.pc = .found lease) :
      Moved s (.readClock c) (s.setCall c { call with pc := .clockRead lease s.now })
  | rejected (c : Nat) (call : RenewCall) (lease : Lease) (now : Int) (e : DomainError)
      (hcall : s.renewals c = some call) (hpc : call.pc = .clockRead lease now)
      (hrenew : (s.leases.renew call.term now lease).2 = .error e) :
      Moved s (.renew c) ((s.track call.term now (.renew lease)).setCall c
        { call with pc := .returned (.error (.domain e)) })
  | recorded (c : Nat) (call : RenewCall) (lease : Lease) (now : Int)
      (hcall : s.renewals c = some call) (hpc : call.pc = .clockRead lease now)
      (hrenew : (s.leases.renew call.term now lease).2 = .ok ()) :
      Moved s (.renew c)
        ((s.track call.term now (.renew lease)).setCall c { call with pc := .recorded lease })
  -- every other way a call returns: refused before its barrier, lease not found, verified or not
  | returned (a : Act) (c : Nat) (call : RenewCall) (result : Except RenewError Duration)
      (hcall : s.renewals c = some call)
      (hact : a = .awaitTermApplied c ∨ a = .getLease c ∨ ∃ ok, a = .verifyLeader c ok) :
      Moved s a (s.setCall c { call with pc := .returned result })
  | loopTick (hloop : s.loop = .idle) (hleader : s.raft.leader = true) :
      Moved s .loopTick { s with loop := .isLeader }
  | loopTerm (hloop : s.loop = .isLeader) :
      Moved s .loopTerm { s with loop := .termRead s.raft.currentTerm }
  | loopClaim (leases : List Lease) (term : UInt64) (hloop : s.loop = .termRead term)
      (hleases : s.raft.fsm.fsm.ReturnsLeases leases) :
      Moved s (.loopClaim leases) { s.track term s.now (.claimExpired leases) with
        loop := .proposing term (s.leases.claimExpired term s.now leases).2 }
  | loopPropose (term leaseID : UInt64) (batch : List UInt64)
      (hloop : s.loop = .proposing term (leaseID :: batch)) (hleader : s.raft.leader = true) :
      Moved s (.loopPropose true) { s with
        raft := s.raft.append (some (newExpireLeaseCmd leaseID))
        loop := .waiting term leaseID s.raft.log.length s.raft.currentTerm batch }
  | loopUnproposed (term leaseID : UInt64) (batch : List UInt64)
      (hloop : s.loop = .proposing term (leaseID :: batch)) :
      Moved s (.loopPropose false) { s with loop := .finishing term leaseID false batch }
  | loopWait (term leaseID : UInt64) (index : Nat) (entryTerm : UInt64) (batch : List UInt64)
      (committed : Bool) (hloop : s.loop = .waiting term leaseID index entryTerm batch) :
      Moved s (.loopWait committed) { s with loop := .finishing term leaseID committed batch }
  | loopFinish (term leaseID : UInt64) (committed : Bool) (batch : List UInt64)
      (hloop : s.loop = .finishing term leaseID committed batch) :
      Moved s .loopFinish { s with
        leases := s.leases.finishExpiry leaseID committed
        loop := .proposing term batch }
  | loopEnd (term : UInt64) (hloop : s.loop = .proposing term []) :
      Moved s .loopEnd { s with loop := .idle }

theorem moved_of_stepCall {s s' : Node} {c : Nat} {call : RenewCall} {a : Act}
    (hcall : s.renewals c = some call)
    (hact : a = .awaitTermApplied c ∨ (∃ ok, a = .barrier c ok) ∨ a = .getLease c ∨
      a = .readClock c ∨ a = .renew c ∨ ∃ ok, a = .verifyLeader c ok)
    (h : s.stepCall c call a = some s') : Moved s a s' := by
  rcases hact with rfl | ⟨ok, rfl⟩ | rfl | rfl | rfl | ⟨ok, rfl⟩ <;> simp only [stepCall] at h <;>
    split at h <;> try cases h
  · rename_i hpc
    split at h <;> try cases h
    split at h
    · cases h
      exact .termKnown c call hcall hpc ‹_›
    · split at h <;> cases h
      · exact .barrierProposed c call hcall hpc ‹_›
      · exact .returned _ c call _ hcall (Or.inl rfl)
  · rename_i index entryTerm hpc
    split at h
    · rename_i hok
      split at h <;> cases h
      rename_i hguard
      subst hok
      exact .barrierApplied c call index entryTerm hcall hpc hguard.1 hguard.2
    · cases h
      obtain rfl : ok = false := by simpa using ‹¬ ok = true›
      exact .barrierFailed c call hcall
  · rename_i hpc
    split at h <;> cases h
    · exact .returned _ c call _ hcall (Or.inr (Or.inl rfl))
    · exact .found c call _ hcall hpc ‹_›
  · exact .clockRead c call _ hcall ‹_›
  · rename_i lease now hpc
    split at h <;> cases h
    · exact .rejected c call lease now _ hcall hpc ‹_›
    · exact .recorded c call lease now hcall hpc ‹_›
  · split at h
    · split at h <;> cases h
      exact .returned _ c call _ hcall (Or.inr (Or.inr ⟨_, rfl⟩))
    · cases h
      exact .returned _ c call _ hcall (Or.inr (Or.inr ⟨_, rfl⟩))

theorem moved_of_stepLoop {s s' : Node} {a : Act} (h : s.stepLoop a = some s') : Moved s a s' := by
  cases a with
  | loopTick =>
    simp only [stepLoop] at h
    split at h <;> try cases h
    split at h <;> cases h
    exact .loopTick ‹_› ‹_›
  | loopTerm =>
    simp only [stepLoop] at h
    split at h <;> cases h
    exact .loopTerm ‹_›
  | loopClaim leases =>
    simp only [stepLoop] at h
    split at h <;> try cases h
    split at h <;> cases h
    exact .loopClaim leases _ ‹_› ‹_›
  | loopPropose ok =>
    simp only [stepLoop] at h
    split at h <;> try cases h
    cases ok with
    | false =>
      cases h
      exact .loopUnproposed _ _ _ ‹_›
    | true =>
      simp only [if_true] at h
      split at h <;> cases h
      exact .loopPropose _ _ _ ‹_› ‹_›
  | loopWait ok =>
    simp only [stepLoop] at h
    split at h <;> try cases h
    split at h <;> split at h <;> cases h
    · rename_i hok _
      subst hok
      exact .loopWait _ _ _ _ _ true ‹_›
    · obtain rfl : ok = false := by simpa using ‹¬ ok = true›
      exact .loopWait _ _ _ _ _ false ‹_›
  | loopFinish =>
    simp only [stepLoop] at h
    split at h <;> cases h
    exact .loopFinish _ _ _ _ ‹_›
  | loopEnd =>
    simp only [stepLoop] at h
    split at h <;> cases h
    exact .loopEnd _ ‹_›
  | _ => cases h

theorem moved_of_step {s s' : Node} {a : Act} (h : s.step a = some s') : Moved s a s' := by
  cases a with
  | tick d =>
    cases h
    exact .tick d
  | raft a =>
    obtain ⟨r, hr, rfl⟩ := Option.map_eq_some_iff.mp h
    exact .raft a r hr
  | propose cmd =>
    simp only [step] at h
    split at h <;> cases h
    rename_i hguard
    exact .propose cmd hguard.1 hguard.2.1 hguard.2.2
  | checkLeaseAlive term now lease =>
    simp only [step] at h
    split at h <;> cases h
    rename_i hguard
    exact .checkLeaseAlive term now lease hguard.1 hguard.2
  | renewLease c leaseID =>
    simp only [step] at h
    split at h <;> cases h
    exact .renewLease c leaseID (Option.isNone_iff_eq_none.mp ‹_›)
  | awaitTermApplied c =>
    obtain ⟨call, hcall, hstep⟩ := Option.bind_eq_some_iff.mp h
    exact moved_of_stepCall hcall (by simp) hstep
  | barrier c ok =>
    obtain ⟨call, hcall, hstep⟩ := Option.bind_eq_some_iff.mp h
    exact moved_of_stepCall hcall (by simp) hstep
  | getLease c =>
    obtain ⟨call, hcall, hstep⟩ := Option.bind_eq_some_iff.mp h
    exact moved_of_stepCall hcall (by simp) hstep
  | readClock c =>
    obtain ⟨call, hcall, hstep⟩ := Option.bind_eq_some_iff.mp h
    exact moved_of_stepCall hcall (by simp) hstep
  | renew c =>
    obtain ⟨call, hcall, hstep⟩ := Option.bind_eq_some_iff.mp h
    exact moved_of_stepCall hcall (by simp) hstep
  | verifyLeader c ok =>
    obtain ⟨call, hcall, hstep⟩ := Option.bind_eq_some_iff.mp h
    exact moved_of_stepCall hcall (by simp) hstep
  | loopTick => exact moved_of_stepLoop h
  | loopTerm => exact moved_of_stepLoop h
  | loopClaim leases => exact moved_of_stepLoop h
  | loopPropose ok => exact moved_of_stepLoop h
  | loopWait ok => exact moved_of_stepLoop h
  | loopFinish => exact moved_of_stepLoop h
  | loopEnd => exact moved_of_stepLoop h

end Node

end Clavis
