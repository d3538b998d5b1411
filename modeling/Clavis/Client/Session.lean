import Clavis.Domain
import Clavis.Lib.Trace

/-!
# Clavis — the client's lease session

`leaseSession` of `pkg/client/session.go`. Its comment says that a session moves from no lease to an
active lease to invalidated, and that the last state is fail-closed. That a session has ended is
recorded in two places, `leaseErr` and the cancelled session context which `Done` reports, and the
methods write them separately: `invalidate` sets the error under the mutex and cancels the context
afterwards, `stop` cancels the context first and never sets an error, and `startLease` clears the
error again.

* `Session` — the fields, and each method; the two methods that work in two steps are split there.
* `SessionCalls` — a session with any number of calls of these two methods between their steps.
* `Forward` — the session only moves forward. `not_forward` shows three short runs in which it does
  not; `forward` shows that it does in every run that starts a lease once, on a session that has not
  ended, and never stops a session with a live lease.
-/

namespace Clavis

open Lib

/-- The errors of a session. -/
inductive SessionError where
  /-- No lease has been created yet. -/
  | noActiveLease
  /-- `ErrLeaseUnavailable`, wrapping the cause. -/
  | leaseUnavailable (cause : String)
deriving DecidableEq

/-- The text of an error. -/
def SessionError.error : SessionError → String
  | noActiveLease => "client has no active lease; call Start first"
  | leaseUnavailable cause => "lease health is unknown. reconnect required: " ++ cause

/-- `leaseSession`, less its mutex. Heartbeat streams are numbered, and a cancel function is named
by the stream it cancels; `done` says that `runCtx` is cancelled, which `stopOnce` makes sure to ask
for only once. -/
structure Session where
  leaseID : UInt64
  leaseTTL : Duration
  leaseErr : Option SessionError
  heartbeat : Option Nat
  heartbeatCancel : Option Nat
  done : Bool
deriving DecidableEq

namespace Session

/-- `newLeaseSession`. -/
def new : Session := ⟨0, 0, none, none, none, false⟩

def startLease (s : Session) (leaseID : UInt64) (ttl : Duration) : Session :=
  { s with leaseID := leaseID, leaseTTL := ttl, leaseErr := none }

def ttl (s : Session) : Duration := s.leaseTTL

def activeLeaseID (s : Session) : Except SessionError UInt64 :=
  match s.leaseErr with
  | some err => .error err
  | none => if s.leaseID = 0 then .error .noActiveLease else .ok s.leaseID

/-- `Acquire` and `Release`: ask for the active lease, and make the call with it. -/
def lockCall {α : Type} (s : Session) (call : UInt64 → Except SessionError α) :
    Except SessionError α :=
  match s.activeLeaseID with
  | .error err => .error err
  | .ok leaseID => call leaseID

/-- The lease ID and the current stream. -/
def heartbeatState (s : Session) : UInt64 × Option Nat := (s.leaseID, s.heartbeat)

/-- `swapHeartbeat`, with the old cancel function. -/
def swapHeartbeat (s : Session) (stream cancel : Option Nat) : Session × Option Nat :=
  ({ s with heartbeat := stream, heartbeatCancel := cancel }, s.heartbeatCancel)

/-- Drop the stream, with the cancel function to call. -/
def dropHeartbeat (s : Session) : Session × Option Nat :=
  ({ s with heartbeat := none, heartbeatCancel := none }, s.heartbeatCancel)

def closeHeartbeat (s : Session) (stream : Option Nat) : Session × Option Nat :=
  if s.heartbeat ≠ stream then (s, none) else s.dropHeartbeat

/-- `runCancel`, which closes `Done`. -/
def runCancel (s : Session) : Session := { s with done := true }

/-- The critical section of `invalidate`: the first cause is kept. -/
def recordErr (s : Session) (err : SessionError) : Session × Option Nat :=
  { s with leaseErr := s.leaseErr.or (some err) }.dropHeartbeat

/-- `invalidate`, without interruption. -/
def invalidate (s : Session) (err : SessionError) : Session := (s.recordErr err).1.runCancel

/-- `stop`, without interruption. -/
def stop (s : Session) : Session := s.runCancel.dropHeartbeat.1

/-! ## Small lemmas -/

theorem activeLeaseID_eq_ok {s : Session} {l : UInt64} :
    s.activeLeaseID = .ok l ↔ s.leaseErr = none ∧ s.leaseID = l ∧ l ≠ 0 := by
  unfold activeLeaseID
  cases s.leaseErr with
  | some err => simp
  | none =>
    by_cases hid : s.leaseID = 0
    · simp only [hid, if_true, reduceCtorEq, true_and, false_iff]
      rintro ⟨rfl, hne⟩
      exact hne rfl
    · simp only [hid, if_false, Except.ok.injEq, true_and]
      constructor
      · rintro rfl
        exact ⟨rfl, hid⟩
      · exact fun h => h.1

/-- The session refuses lock operations. -/
def Refuses (s : Session) : Prop := s.leaseErr.isSome ∨ s.leaseID = 0

theorem Refuses.activeLeaseID {s : Session} (h : s.Refuses) :
    ∃ err, s.activeLeaseID = .error err := by
  cases hact : s.activeLeaseID with
  | error err => exact ⟨err, rfl⟩
  | ok l =>
    obtain ⟨herr, rfl, hne⟩ := activeLeaseID_eq_ok.mp hact
    rcases h with h | h
    · rw [herr] at h
      cases h
    · exact absurd h hne

theorem lockCall_of_error {s : Session} {err : SessionError} (h : s.activeLeaseID = .error err)
    {α : Type} (call : UInt64 → Except SessionError α) : s.lockCall call = .error err := by
  rw [lockCall, h]

theorem isSome_recordErr (s : Session) (err : SessionError) :
    (s.recordErr err).1.leaseErr.isSome = true := by
  show (s.leaseErr.or (some err)).isSome = true
  rw [Option.isSome_or, Option.isSome_some, Bool.or_true]

/-- An invalidated session refuses, and `Done` is closed. -/
theorem invalidate_refuses (s : Session) (err : SessionError) :
    (s.invalidate err).Refuses ∧ (s.invalidate err).done = true :=
  ⟨Or.inl (s.isSome_recordErr err), rfl⟩

end Session

/-! ## Calls from several goroutines -/

/-- A session, with the number of calls of `invalidate` that have left their critical section and
have not cancelled the context yet, and of calls of `stop` that have cancelled it and not entered
theirs. -/
structure SessionCalls where
  session : Session
  invalidating : Nat
  stopping : Nat
deriving DecidableEq

inductive SessionCalls.Act where
  | startLease (leaseID : UInt64) (ttl : Duration)
  | swapHeartbeat (stream cancel : Option Nat)
  | closeHeartbeat (stream : Option Nat)
  | invalidate (err : SessionError)
  | invalidateDone
  | stop
  | stopDone
deriving DecidableEq

namespace SessionCalls

def new : SessionCalls := ⟨.new, 0, 0⟩

/-- One critical section, or one cancellation. -/
def step (s : SessionCalls) : Act → Option SessionCalls
  | .startLease leaseID ttl => some { s with session := s.session.startLease leaseID ttl }
  | .swapHeartbeat stream cancel =>
    some { s with session := (s.session.swapHeartbeat stream cancel).1 }
  | .closeHeartbeat stream => some { s with session := (s.session.closeHeartbeat stream).1 }
  | .invalidate err =>
    some { s with session := (s.session.recordErr err).1, invalidating := s.invalidating + 1 }
  | .invalidateDone =>
    if 0 < s.invalidating then
      some { s with session := s.session.runCancel, invalidating := s.invalidating - 1 }
    else none
  | .stop => some { s with session := s.session.runCancel, stopping := s.stopping + 1 }
  | .stopDone =>
    if 0 < s.stopping then
      some { s with session := s.session.dropHeartbeat.1, stopping := s.stopping - 1 }
    else none

/-- **What a step can do to the fields that say whether the session is alive**, with its guard. -/
inductive Moved (s : SessionCalls) : Act → SessionCalls → Prop where
  | startLease (leaseID : UInt64) (ttl : Duration) :
      Moved s (.startLease leaseID ttl) { s with session := s.session.startLease leaseID ttl }
  | heartbeat (a : Act) (s' : SessionCalls) (hid : s'.session.leaseID = s.session.leaseID)
      (herr : s'.session.leaseErr = s.session.leaseErr) (hdone : s'.session.done = s.session.done)
      (hinv : s'.invalidating = s.invalidating) : Moved s a s'
  | invalidate (err : SessionError) :
      Moved s (.invalidate err)
        { s with session := (s.session.recordErr err).1, invalidating := s.invalidating + 1 }
  | invalidateDone (hinv : 0 < s.invalidating) :
      Moved s .invalidateDone
        { s with session := s.session.runCancel, invalidating := s.invalidating - 1 }
  | stop :
      Moved s .stop { s with session := s.session.runCancel, stopping := s.stopping + 1 }

theorem moved_of_step {s s' : SessionCalls} {a : Act} (h : step s a = some s') : Moved s a s' := by
  cases a with
  | startLease leaseID ttl =>
    cases h
    exact .startLease leaseID ttl
  | swapHeartbeat stream cancel =>
    cases h
    exact .heartbeat _ _ rfl rfl rfl rfl
  | closeHeartbeat stream =>
    cases h
    unfold Session.closeHeartbeat
    by_cases hother : s.session.heartbeat ≠ stream
    · rw [if_pos hother]
      exact .heartbeat _ _ rfl rfl rfl rfl
    · rw [if_neg hother]
      exact .heartbeat _ _ rfl rfl rfl rfl
  | invalidate err =>
    cases h
    exact .invalidate err
  | invalidateDone =>
    obtain ⟨hinv, heq⟩ := Option.ite_none_right_eq_some.mp h
    cases heq
    exact .invalidateDone hinv
  | stop =>
    cases h
    exact .stop
  | stopDone =>
    obtain ⟨-, heq⟩ := Option.ite_none_right_eq_some.mp h
    cases heq
    exact .heartbeat _ _ rfl rfl rfl rfl

/-! ## Moving forward -/

/-- The session only moves forward: once `Done` is closed every lock operation is refused, and while
it is open the active lease does not change. -/
def Forward (t : Trace step) : Prop :=
  (∀ i j, i ≤ j → (t.state i).session.done = true →
    ∃ err, (t.state j).session.activeLeaseID = .error err ∧
      ∀ (α : Type) (call : UInt64 → Except SessionError α),
        (t.state j).session.lockCall call = .error err) ∧
  ∀ i j l l', i ≤ j → (t.state j).session.done = false →
    (t.state i).session.activeLeaseID = .ok l → (t.state j).session.activeLeaseID = .ok l' → l = l'

/-- A lease is started on a session that has none and has not ended, and a session is stopped when
it has no live lease. -/
def Suits (s : SessionCalls) : Act → Prop
  | .startLease _ _ => s.session.leaseID = 0 ∧ s.session.leaseErr = none ∧ s.session.done = false
  | .stop => s.session.leaseErr.isSome ∨ s.session.leaseID = 0
  | _ => True

instance (s : SessionCalls) : (a : Act) → Decidable (Suits s a)
  | .startLease _ _ => inferInstanceAs (Decidable (_ ∧ _ ∧ _))
  | .stop => inferInstanceAs (Decidable (_ ∨ _))
  | .swapHeartbeat _ _ => isTrue trivial
  | .closeHeartbeat _ => isTrue trivial
  | .invalidate _ => isTrue trivial
  | .invalidateDone => isTrue trivial
  | .stopDone => isTrue trivial

/-- The two records of the end agree: a session whose `Done` is closed, or is about to be, refuses
lock operations. -/
structure Agrees (s : SessionCalls) : Prop where
  done : s.session.done = true → s.session.Refuses
  invalidating : 0 < s.invalidating → s.session.leaseErr.isSome = true

section Steps

variable {s s' : SessionCalls} {a : Act}

theorem Agrees.step (h : Agrees s) (hsuits : Suits s a) (hstep : step s a = some s') :
    Agrees s' := by
  cases moved_of_step hstep with
  | startLease leaseID ttl =>
    obtain ⟨-, herr, hdone⟩ := hsuits
    refine ⟨?_, ?_⟩
    · intro hclosed
      have hclosed' : s.session.done = true := hclosed
      rw [hdone] at hclosed'
      cases hclosed'
    · intro hinv
      have hsome := h.invalidating hinv
      rw [herr] at hsome
      cases hsome
  | heartbeat _ _ hid herr hdone hinv =>
    refine ⟨?_, ?_⟩
    · rw [hdone, Session.Refuses, hid, herr]
      exact h.done
    · rw [hinv, herr]
      exact h.invalidating
  | invalidate err =>
    have hsome := s.session.isSome_recordErr err
    exact ⟨fun _ => Or.inl hsome, fun _ => hsome⟩
  | invalidateDone hinv =>
    have hsome := h.invalidating hinv
    exact ⟨fun _ => Or.inl hsome, fun _ => hsome⟩
  | stop => exact ⟨fun _ => hsuits, h.invalidating⟩

/-- `Done` stays closed. -/
theorem done_step (hstep : step s a = some s') (hdone : s.session.done = true) :
    s'.session.done = true := by
  cases moved_of_step hstep with
  | startLease | invalidate => exact hdone
  | heartbeat _ _ _ _ heq _ => rw [heq, hdone]
  | invalidateDone | stop => rfl

/-- A lease that was started once stays the session's lease. -/
theorem leaseID_step (hsuits : Suits s a) (hstep : step s a = some s')
    (hid : s.session.leaseID ≠ 0) : s'.session.leaseID = s.session.leaseID := by
  cases moved_of_step hstep with
  | startLease => exact absurd hsuits.1 hid
  | heartbeat _ _ heq _ _ _ => exact heq
  | invalidate | invalidateDone | stop => rfl

end Steps

/-- **The session only moves forward** if leases are started once, before the session ends, and no
session with a live lease is stopped. -/
theorem forward (t : Trace step) (hstart : t.start = new) (hsuits : t.Steps Suits) :
    Forward t := by
  have hagrees : ∀ j, Agrees (t.state j) := by
    intro j
    refine t.invariant_from (Nat.zero_le j) ?_ fun k a s' _ _ ha hstep hI =>
      hI.step (hsuits.at ha) hstep
    rw [t.state_zero, hstart]
    exact ⟨fun h => absurd h (by decide), fun h => absurd h (by decide)⟩
  constructor
  · intro i j hij hdone
    have hdone' : (t.state j).session.done = true :=
      t.invariant_from hij hdone fun _ _ _ _ _ _ hstep hI => done_step hstep hI
    obtain ⟨err, herr⟩ := ((hagrees j).done hdone').activeLeaseID
    exact ⟨err, herr, fun _ call => Session.lockCall_of_error herr call⟩
  · intro i j l l' hij _ hl hl'
    obtain ⟨-, hid, hne⟩ := Session.activeLeaseID_eq_ok.mp hl
    obtain ⟨-, hid', -⟩ := Session.activeLeaseID_eq_ok.mp hl'
    have hsame : (t.state j).session.leaseID = l := by
      refine t.invariant_from (I := fun s => s.session.leaseID = l) hij hid
        fun k a s' _ _ ha hstep hI => ?_
      rw [leaseID_step (hsuits.at ha) hstep (hI ▸ hne), hI]
    rw [← hid', hsame]

/-- A lease is started, its heartbeat fails, and the application stops the client afterwards. -/
def failedSession : Trace step where
  start := new
  acts := [.startLease 1 1000000000, .swapHeartbeat (some 0) (some 0),
    .invalidate (.leaseUnavailable "timeout"), .stop, .invalidateDone, .stopDone]
  enabled := rfl

theorem forward_failedSession :
    failedSession.Steps Suits ∧ (failedSession.state 1).session.activeLeaseID = .ok 1 ∧
      (failedSession.state 4).session.done = true ∧
      ∃ err, (failedSession.state 6).session.activeLeaseID = .error err := by
  have hsuits : failedSession.Steps Suits := by decide
  obtain ⟨err, herr, -⟩ := (forward failedSession rfl hsuits).1 4 6 (by omega) rfl
  exact ⟨hsuits, rfl, rfl, err, herr⟩

/-! ## Runs that do not -/

/-- `Start`, then `Stop`. -/
def stopped : Trace step where
  start := new
  acts := [.startLease 1 1000000000, .stop, .stopDone]
  enabled := rfl

/-- `Start` on a session that was invalidated. -/
def restarted : Trace step where
  start := new
  acts := [.startLease 1 1000000000, .invalidate (.leaseUnavailable "timeout"), .invalidateDone,
    .startLease 2 1000000000]
  enabled := rfl

/-- `Start` twice. -/
def startedTwice : Trace step where
  start := new
  acts := [.startLease 1 1000000000, .startLease 2 1000000000]
  enabled := rfl

/-- After `stop`, and after a new `startLease`, lock operations are admitted although `Done` is
closed; and a second `startLease` changes the lease under its users. -/
theorem not_forward : ¬ Forward stopped ∧ ¬ Forward restarted ∧ ¬ Forward startedTwice := by
  refine ⟨?_, ?_, ?_⟩
  · rintro ⟨hrefuses, -⟩
    obtain ⟨err, herr, -⟩ := hrefuses 3 3 (by omega) rfl
    cases herr
  · rintro ⟨hrefuses, -⟩
    obtain ⟨err, herr, -⟩ := hrefuses 3 4 (by omega) rfl
    cases herr
  · rintro ⟨-, hsame⟩
    exact absurd (hsame 1 2 1 2 (by omega) rfl rfl rfl) (by decide)

end SessionCalls

end Clavis
