import Clavis.Cluster.LeaseTracker
import Clavis.Cluster.LockQueue
import Clavis.Lib.Trace
import Clavis.State.LeaseLife

/-!
# Clavis — acquiring a lock

`Service.AcquireLock` of `internal/service/service.go` as a system of atomic steps: any number of
calls, waiting or not, next to the state machine, the lock queues, the lease tracker and the log.
Each call is a program counter; the queue tests, the holder test, the lease checks and the proposal
are separate steps, because the code takes them under different locks.

* `pending` are the entries of the node's log that its state machine has not applied, each with the
  call that waits for it, if any. They may come from this node, from other callers or from earlier
  leaders.
* `Sys.apply` applies the next entry, calls the lock-freed hook and answers the call.
-/

namespace Clavis

open Lib

/-- How `AcquireLock` fails. -/
inductive ServiceError where
  | notLeader
  | invalidArgument (message : String)
  | domain (e : DomainError)
  | applyFailed
  | unexpectedResponse
deriving DecidableEq

abbrev AcquireResult := Except ServiceError AcquireLockResponse

/-- `domain.ErrLockAlreadyHeld` as the result of a call. -/
def alreadyHeld : AcquireResult := .error (.domain .lockAlreadyHeld)

/-- `as[state.AcquireLockResponse]` of an applied command. -/
def asAcquireLockResponse : Result → AcquireResult
  | .error e => .error (.domain e)
  | .ok (.acquireLock resp) => .ok resp
  | .ok _ => .error .unexpectedResponse

/-- Where an `AcquireLock` call stands. -/
inductive AcquirePc where
  /-- about to call `ensureLeader` and check the arguments -/
  | start
  /-- about to call `JoinLockQueue`, or `LockHasWaiters` if it does not wait -/
  | enter
  /-- not waiting, the lock is contended: about to call `heldBy` -/
  | heldBy
  /-- the top of the wait loop -/
  | isHead
  /-- at the head: about to call `heldByOther` -/
  | heldByOther
  /-- in `acquire`: about to look the lease up -/
  | getLease
  /-- about to ask the tracker -/
  | alive (lease : Lease)
  /-- about to propose -/
  | propose
  /-- waits for its entry to be applied -/
  | inFlight
  | select
  /-- about to run the deferred `Leave` -/
  | leaving (result : AcquireResult)
  | returned (result : AcquireResult)
deriving DecidableEq

/-- An `AcquireLock` call. -/
structure AcquireCall where
  lockName : String
  ownerID : String
  leaseID : UInt64
  wait : Bool
  pc : AcquirePc
deriving DecidableEq

/-- What the call does with the answer of `acquire`: a waiting call goes to its select if the lock
turned out to be held, and leaves otherwise. -/
def AcquireCall.afterAcquire (call : AcquireCall) (result : AcquireResult) : AcquirePc :=
  if call.wait then if result = alreadyHeld then .select else .leaving result
  else .returned result

/-- The command of a call. -/
def AcquireCall.cmd (call : AcquireCall) : CommandWrapper :=
  newAcquireLockCmd call.lockName call.ownerID call.leaseID

/-- A node serving `AcquireLock` calls. -/
structure Sys where
  now : Int
  leader : Bool
  term : UInt64
  fsm : Machine
  pending : List (CommandWrapper × Option Nat)
  leases : LeaseTracker
  queues : LockQueues Nat
  calls : Nat → Option AcquireCall

/-- The steps; `Nat` numbers the calls. -/
inductive Sys.Act where
  | tick (d : Nat)
  | lead (leader : Bool) (term : UInt64)
  | enqueue (cmd : CommandWrapper)
  | drop (n : Nat)
  | apply
  | track (term : UInt64) (now : Int) (c : TrackerCall)
  | finishExpiry (leaseID : UInt64) (committed : Bool)
  | acquireLock (c : Nat) (lockName ownerID : String) (leaseID : UInt64) (wait : Bool)
  | ensureLeader (c : Nat)
  | enter (c : Nat)
  | heldBy (c : Nat)
  | isHead (c : Nat)
  | heldByOther (c : Nat)
  | getLease (c : Nat)
  | alive (c : Nat)
  | propose (c : Nat) (ok : Bool)
  | applyFailed (c : Nat)
  | ready (c : Nat)
  | recheck (c : Nat)
  | timeout (c : Nat)
  | ctxDone (c : Nat)
  | leave (c : Nat)

namespace Sys

/-- A node that has just become leader: its state machine is behind by the entries `pending`, and
nobody is queued. -/
def takeover (now : Int) (term : UInt64) (fsm : Machine) (pending : List CommandWrapper) : Sys :=
  ⟨now, true, term, fsm, pending.map fun cmd => (cmd, none), .zero, .new, fun _ => none⟩

/-- Move a call on. -/
def setPc (s : Sys) (c : Nat) (call : AcquireCall) (pc : AcquirePc) : Sys :=
  { s with calls := Function.update s.calls c (some { call with pc := pc }) }

/-- `heldBy`. -/
def heldBy (s : Sys) (lockName : String) (leaseID : UInt64) : Bool :=
  match s.fsm.getLock lockName with
  | some lock => lock.leaseID = leaseID
  | none => false

/-- `heldByOther`. -/
def heldByOther (s : Sys) (lockName : String) (leaseID : UInt64) : Bool :=
  match s.fsm.getLock lockName with
  | some lock => lock.leaseID ≠ leaseID
  | none => false

/-- Answer the call that waits for an entry, if it still does. -/
def deliver (s : Sys) (owner : Option Nat) (result : Result) : Sys :=
  match owner with
  | none => s
  | some c =>
    match s.calls c with
    | some call =>
      if call.pc = .inFlight then s.setPc c call (call.afterAcquire (asAcquireLockResponse result))
      else s
    | none => s

/-- Apply the next entry: `RaftFSM.Apply` with the lock-freed hook. The hook runs under the state
machine's mutex, so nobody sees a lock freed whose head is not signalled yet. -/
def apply (s : Sys) : Option Sys :=
  match s.pending with
  | [] => none
  | (cmd, owner) :: rest =>
    some ({ s with
      fsm := s.fsm.next cmd
      pending := rest
      queues := s.queues.lockFreed (s.fsm.freed cmd) }.deliver owner (s.fsm.result cmd))

/-- The steps of an `AcquireLock` call. -/
def stepCall (s : Sys) (c : Nat) (call : AcquireCall) : Act → Option Sys
  | .ensureLeader _ =>
    if call.pc = .start then
      if s.leader = false then some (s.setPc c call (.returned (.error .notLeader)))
      else if call.ownerID = "" ∨ call.lockName = "" then
        some (s.setPc c call (.returned (.error
          (.invalidArgument "owner_id, lock_name and lease_id are required"))))
      else some (s.setPc c call .enter)
    else none
  | .enter _ =>
    if call.pc = .enter then
      if call.wait then
        -- `JoinLockQueue`; a new waiter has a new channel
        some ({ s with queues := s.queues.join call.lockName c }.setPc c call .isHead)
      -- `heldBy` is only evaluated if somebody waits
      else if s.queues.hasWaiters call.lockName then some (s.setPc c call .heldBy)
      else some (s.setPc c call .getLease)
    else none
  | .heldBy _ =>
    if call.pc = .heldBy then
      if s.heldBy call.lockName call.leaseID then some (s.setPc c call .getLease)
      else some (s.setPc c call (.returned alreadyHeld))
    else none
  | .isHead _ =>
    if call.pc = .isHead then
      if s.queues.isHead call.lockName c then some (s.setPc c call .heldByOther)
      else some (s.setPc c call .select)
    else none
  | .heldByOther _ =>
    if call.pc = .heldByOther then
      if s.heldByOther call.lockName call.leaseID then some (s.setPc c call .select)
      else some (s.setPc c call .getLease)
    else none
  | .getLease _ =>
    if call.pc = .getLease then
      match s.fsm.getLease call.leaseID with
      | none => some (s.setPc c call (call.afterAcquire (.error (.domain .leaseNotFound))))
      | some lease => some (s.setPc c call (.alive lease))
    else none
  | .alive _ =>
    match call.pc with
    | .alive lease =>
      let asked := { s with leases := (s.leases.alive s.term s.now lease).1 }
      if (s.leases.alive s.term s.now lease).2 then some (asked.setPc c call .propose)
      else some (asked.setPc c call (call.afterAcquire (.error (.domain .leaseExpired))))
    | _ => none
  -- `raft.Apply` may fail before the entry is in the log
  | .propose _ ok =>
    if call.pc = .propose then
      if ok then
        if s.leader then
          some ({ s with pending := s.pending ++ [(call.cmd, some c)] }.setPc c call .inFlight)
        else none
      else some (s.setPc c call (call.afterAcquire (.error .applyFailed)))
    else none
  -- the leadership was lost, at some time, while the entry was in flight
  | .applyFailed _ =>
    if call.pc = .inFlight then
      some (s.setPc c call (call.afterAcquire (.error .applyFailed)))
    else none
  | .ready _ =>
    if call.pc = .select ∧ c ∈ s.queues.ready then
      some ({ s with queues := s.queues.receive c }.setPc c call .isHead)
    else none
  | .recheck _ =>
    if call.pc = .select then
      if s.leader then some (s.setPc c call .isHead)
      else some (s.setPc c call (.leaving (.error .notLeader)))
    else none
  | .timeout _ => if call.pc = .select then some (s.setPc c call (.leaving alreadyHeld)) else none
  | .ctxDone _ => if call.pc = .select then some (s.setPc c call (.leaving alreadyHeld)) else none
  | .leave _ =>
    match call.pc with
    | .leaving result =>
      some ({ s with queues := s.queues.leave call.lockName c }.setPc c call (.returned result))
    | _ => none
  | _ => none

/-- One step. The first seven are the rest of the node: entries arrive from elsewhere, and what is
not applied may be replaced while the node does not lead. -/
def step (s : Sys) (a : Act) : Option Sys :=
  match a with
  | .tick d => some { s with now := s.now + d }
  | .lead leader term => some { s with leader := leader, term := term }
  | .enqueue cmd => some { s with pending := s.pending ++ [(cmd, none)] }
  | .drop n => if s.leader then none else some { s with pending := s.pending.take n }
  | .apply => s.apply
  | .track term now c => some { s with leases := c.run s.leases term now }
  | .finishExpiry leaseID committed =>
    some { s with leases := s.leases.finishExpiry leaseID committed }
  | .acquireLock c lockName ownerID leaseID wait =>
    if (s.calls c).isNone then
      some { s with
        calls := Function.update s.calls c (some ⟨lockName, ownerID, leaseID, wait, .start⟩) }
    else none
  | .ensureLeader c | .enter c | .heldBy c | .isHead c | .heldByOther c | .getLease c | .alive c
  | .propose c _ | .applyFailed c | .ready c | .recheck c | .timeout c | .ctxDone c
  | .leave c => (s.calls c).bind fun call => s.stepCall c call a

/-! ## What one step does

`PcStep` lists the steps of a call that move nothing but its program counter, `Moved` all steps,
with their guards and the system each one leaves. -/

inductive PcStep (s : Sys) (c : Nat) (call : AcquireCall) : Act → AcquirePc → Prop where
  | refused (e : ServiceError) (hpc : call.pc = .start) (he : e ≠ .domain .lockAlreadyHeld)
      (he' : e ≠ .domain .leaseNotFound) :
      PcStep s c call (.ensureLeader c) (.returned (.error e))
  | admitted (hpc : call.pc = .start) : PcStep s c call (.ensureLeader c) .enter
  | contended (hpc : call.pc = .enter) (hwait : call.wait = false)
      (hwaiters : s.queues.hasWaiters call.lockName = true) :
      PcStep s c call (.enter c) .heldBy
  | uncontended (hpc : call.pc = .enter) (hwait : call.wait = false)
      (hempty : s.queues.hasWaiters call.lockName = false) : PcStep s c call (.enter c) .getLease
  | holder (hpc : call.pc = .heldBy) (hheld : s.heldBy call.lockName call.leaseID = true) :
      PcStep s c call (.heldBy c) .getLease
  | notHolder (hpc : call.pc = .heldBy) (hheld : s.heldBy call.lockName call.leaseID = false) :
      PcStep s c call (.heldBy c) (.returned alreadyHeld)
  | head (hpc : call.pc = .isHead) (hhead : s.queues.isHead call.lockName c = true) :
      PcStep s c call (.isHead c) .heldByOther
  | notHead (hpc : call.pc = .isHead) (hhead : s.queues.isHead call.lockName c = false) :
      PcStep s c call (.isHead c) .select
  | heldByOther (hpc : call.pc = .heldByOther)
      (hheld : s.heldByOther call.lockName call.leaseID = true) :
      PcStep s c call (.heldByOther c) .select
  | notHeldByOther (hpc : call.pc = .heldByOther)
      (hheld : s.heldByOther call.lockName call.leaseID = false) :
      PcStep s c call (.heldByOther c) .getLease
  | leaseMissing (hpc : call.pc = .getLease) (hlease : s.fsm.getLease call.leaseID = none) :
      PcStep s c call (.getLease c) (call.afterAcquire (.error (.domain .leaseNotFound)))
  | leaseFound (lease : Lease) (hpc : call.pc = .getLease)
      (hlease : s.fsm.getLease call.leaseID = some lease) :
      PcStep s c call (.getLease c) (.alive lease)
  | notProposed (hpc : call.pc = .propose) :
      PcStep s c call (.propose c false) (call.afterAcquire (.error .applyFailed))
  | applyFailed (hpc : call.pc = .inFlight) :
      PcStep s c call (.applyFailed c) (call.afterAcquire (.error .applyFailed))
  | rechecked (hpc : call.pc = .select) (hleader : s.leader = true) :
      PcStep s c call (.recheck c) .isHead
  | redirected (hpc : call.pc = .select) (hleader : s.leader = false) :
      PcStep s c call (.recheck c) (.leaving (.error .notLeader))
  | timeout (hpc : call.pc = .select) : PcStep s c call (.timeout c) (.leaving alreadyHeld)
  | ctxDone (hpc : call.pc = .select) : PcStep s c call (.ctxDone c) (.leaving alreadyHeld)

inductive Moved (s : Sys) : Act → Sys → Prop where
  | tick (d : Nat) : Moved s (.tick d) { s with now := s.now + d }
  | lead (leader : Bool) (term : UInt64) :
      Moved s (.lead leader term) { s with leader := leader, term := term }
  | enqueue (cmd : CommandWrapper) :
      Moved s (.enqueue cmd) { s with pending := s.pending ++ [(cmd, none)] }
  | drop (n : Nat) (hleader : s.leader = false) :
      Moved s (.drop n) { s with pending := s.pending.take n }
  | apply (cmd : CommandWrapper) (owner : Option Nat) (rest : List (CommandWrapper × Option Nat))
      (hpending : s.pending = (cmd, owner) :: rest) :
      Moved s .apply ({ s with
        fsm := s.fsm.next cmd
        pending := rest
        queues := s.queues.lockFreed (s.fsm.freed cmd) }.deliver owner (s.fsm.result cmd))
  | track (term : UInt64) (now : Int) (c : TrackerCall) :
      Moved s (.track term now c) { s with leases := c.run s.leases term now }
  | finishExpiry (leaseID : UInt64) (committed : Bool) :
      Moved s (.finishExpiry leaseID committed)
        { s with leases := s.leases.finishExpiry leaseID committed }
  | acquireLock (c : Nat) (lockName ownerID : String) (leaseID : UInt64) (wait : Bool)
      (hfresh : s.calls c = none) :
      Moved s (.acquireLock c lockName ownerID leaseID wait) { s with
        calls := Function.update s.calls c (some ⟨lockName, ownerID, leaseID, wait, .start⟩) }
  | pc (a : Act) (c : Nat) (call : AcquireCall) (pc : AcquirePc) (hcall : s.calls c = some call)
      (hstep : PcStep s c call a pc) : Moved s a (s.setPc c call pc)
  | joined (c : Nat) (call : AcquireCall) (hcall : s.calls c = some call)
      (hpc : call.pc = .enter) (hwait : call.wait = true) :
      Moved s (.enter c) ({ s with queues := s.queues.join call.lockName c }.setPc c call .isHead)
  | alive (c : Nat) (call : AcquireCall) (lease : Lease) (pc : AcquirePc)
      (hcall : s.calls c = some call) (hpc : call.pc = .alive lease)
      (hpc' : ((s.leases.alive s.term s.now lease).2 = true ∧ pc = .propose) ∨
        ((s.leases.alive s.term s.now lease).2 = false ∧
          pc = call.afterAcquire (.error (.domain .leaseExpired)))) :
      Moved s (.alive c)
        ({ s with leases := (s.leases.alive s.term s.now lease).1 }.setPc c call pc)
  | proposed (c : Nat) (call : AcquireCall) (hcall : s.calls c = some call)
      (hpc : call.pc = .propose) (hleader : s.leader = true) :
      Moved s (.propose c true)
        ({ s with pending := s.pending ++ [(call.cmd, some c)] }.setPc c call .inFlight)
  | woken (c : Nat) (call : AcquireCall) (hcall : s.calls c = some call)
      (hpc : call.pc = .select) (hready : c ∈ s.queues.ready) :
      Moved s (.ready c) ({ s with queues := s.queues.receive c }.setPc c call .isHead)
  | left (c : Nat) (call : AcquireCall) (result : AcquireResult) (hcall : s.calls c = some call)
      (hpc : call.pc = .leaving result) :
      Moved s (.leave c)
        ({ s with queues := s.queues.leave call.lockName c }.setPc c call (.returned result))

section Inversion

variable {s s' : Sys} {a : Act}

/-- A step with a guard that then goes one of two ways. -/
theorem guarded_branch {p : Prop} [Decidable p] {b : Bool} {s₁ s₂ : Sys}
    (h : (if p then if b then some s₁ else some s₂ else none) = some s') :
    p ∧ ((b = true ∧ s₁ = s') ∨ (b = false ∧ s₂ = s')) := by
  obtain ⟨hp, hbranch⟩ := Option.ite_none_right_eq_some.mp h
  cases b with
  | true => exact ⟨hp, .inl ⟨rfl, Option.some.inj hbranch⟩⟩
  | false => exact ⟨hp, .inr ⟨rfl, Option.some.inj hbranch⟩⟩

theorem moved_of_step (h : s.step a = some s') : Moved s a s' := by
  cases a with
  | tick d =>
    cases h
    exact .tick d
  | lead leader term =>
    cases h
    exact .lead leader term
  | enqueue cmd =>
    cases h
    exact .enqueue cmd
  | drop n =>
    simp only [step] at h
    split at h <;> cases h
    exact .drop n (Bool.eq_false_of_not_eq_true ‹_›)
  | apply =>
    simp only [step, apply] at h
    split at h <;> cases h
    exact .apply _ _ _ ‹_›
  | track term now c =>
    cases h
    exact .track term now c
  | finishExpiry leaseID committed =>
    cases h
    exact .finishExpiry leaseID committed
  | acquireLock c lockName ownerID leaseID wait =>
    simp only [step] at h
    split at h <;> cases h
    exact .acquireLock c lockName ownerID leaseID wait (Option.isNone_iff_eq_none.mp ‹_›)
  | ensureLeader c =>
    obtain ⟨call, hcall, h⟩ := Option.bind_eq_some_iff.mp h
    simp only [stepCall] at h
    split at h <;> try cases h
    rename_i hpc
    split at h
    · cases h
      exact .pc _ c call _ hcall (.refused _ hpc (by decide) (by decide))
    · split at h <;> cases h
      · exact .pc _ c call _ hcall (.refused _ hpc (by decide) (by decide))
      · exact .pc _ c call _ hcall (.admitted hpc)
  | enter c =>
    obtain ⟨call, hcall, h⟩ := Option.bind_eq_some_iff.mp h
    simp only [stepCall] at h
    split at h <;> try cases h
    rename_i hpc
    split at h
    · cases h
      exact .joined c call hcall hpc ‹_›
    · have hwait : call.wait = false := Bool.eq_false_of_not_eq_true ‹_›
      split at h <;> cases h
      · exact .pc _ c call _ hcall (.contended hpc hwait ‹_›)
      · exact .pc _ c call _ hcall (.uncontended hpc hwait (Bool.eq_false_of_not_eq_true ‹_›))
  | heldBy c =>
    obtain ⟨call, hcall, h⟩ := Option.bind_eq_some_iff.mp h
    obtain ⟨hpc, ⟨hheld, rfl⟩ | ⟨hheld, rfl⟩⟩ := guarded_branch h
    · exact .pc _ c call _ hcall (.holder hpc hheld)
    · exact .pc _ c call _ hcall (.notHolder hpc hheld)
  | isHead c =>
    obtain ⟨call, hcall, h⟩ := Option.bind_eq_some_iff.mp h
    obtain ⟨hpc, ⟨hhead, rfl⟩ | ⟨hhead, rfl⟩⟩ := guarded_branch h
    · exact .pc _ c call _ hcall (.head hpc hhead)
    · exact .pc _ c call _ hcall (.notHead hpc hhead)
  | heldByOther c =>
    obtain ⟨call, hcall, h⟩ := Option.bind_eq_some_iff.mp h
    obtain ⟨hpc, ⟨hheld, rfl⟩ | ⟨hheld, rfl⟩⟩ := guarded_branch h
    · exact .pc _ c call _ hcall (.heldByOther hpc hheld)
    · exact .pc _ c call _ hcall (.notHeldByOther hpc hheld)
  | getLease c =>
    obtain ⟨call, hcall, h⟩ := Option.bind_eq_some_iff.mp h
    simp only [stepCall] at h
    split at h <;> try cases h
    split at h <;> cases h
    · exact .pc _ c call _ hcall (.leaseMissing ‹_› ‹_›)
    · exact .pc _ c call _ hcall (.leaseFound _ ‹_› ‹_›)
  | alive c =>
    obtain ⟨call, hcall, h⟩ := Option.bind_eq_some_iff.mp h
    simp only [stepCall] at h
    split at h <;> try cases h
    split at h <;> cases h
    · exact .alive c call _ _ hcall ‹_› (Or.inl ⟨‹_›, rfl⟩)
    · exact .alive c call _ _ hcall ‹_› (Or.inr ⟨Bool.eq_false_of_not_eq_true ‹_›, rfl⟩)
  | propose c ok =>
    obtain ⟨call, hcall, h⟩ := Option.bind_eq_some_iff.mp h
    simp only [stepCall] at h
    split at h <;> try cases h
    cases ok with
    | false =>
      cases h
      exact .pc _ c call _ hcall (.notProposed ‹_›)
    | true =>
      simp only [if_true] at h
      split at h <;> cases h
      exact .proposed c call hcall ‹_› ‹_›
  | applyFailed c =>
    obtain ⟨call, hcall, h⟩ := Option.bind_eq_some_iff.mp h
    obtain ⟨hpc, heq⟩ := Option.ite_none_right_eq_some.mp h
    cases heq
    exact .pc _ c call _ hcall (.applyFailed hpc)
  | ready c =>
    obtain ⟨call, hcall, h⟩ := Option.bind_eq_some_iff.mp h
    simp only [stepCall] at h
    split at h <;> cases h
    rename_i hguard
    exact .woken c call hcall hguard.1 hguard.2
  | recheck c =>
    obtain ⟨call, hcall, h⟩ := Option.bind_eq_some_iff.mp h
    obtain ⟨hpc, ⟨hleader, rfl⟩ | ⟨hleader, rfl⟩⟩ := guarded_branch h
    · exact .pc _ c call _ hcall (.rechecked hpc hleader)
    · exact .pc _ c call _ hcall (.redirected hpc hleader)
  | timeout c =>
    obtain ⟨call, hcall, h⟩ := Option.bind_eq_some_iff.mp h
    obtain ⟨hpc, heq⟩ := Option.ite_none_right_eq_some.mp h
    cases heq
    exact .pc _ c call _ hcall (.timeout hpc)
  | ctxDone c =>
    obtain ⟨call, hcall, h⟩ := Option.bind_eq_some_iff.mp h
    obtain ⟨hpc, heq⟩ := Option.ite_none_right_eq_some.mp h
    cases heq
    exact .pc _ c call _ hcall (.ctxDone hpc)
  | leave c =>
    obtain ⟨call, hcall, h⟩ := Option.bind_eq_some_iff.mp h
    simp only [stepCall] at h
    split at h <;> cases h
    exact .left c call _ hcall ‹_›

end Inversion

end Sys

end Clavis
