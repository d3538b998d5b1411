import Clavis.Lib.Trace
import Clavis.State.LeaseLife
import Clavis.Client.Resolver

/-!
# Clavis — a release and its retries

`Client.Release` through all layers: the passes of `callWithFailover` (`Pass.iterate`), the copies
of the request that they send, the state machine that applies them, and the status codes into which
`toGRPCError` turns its errors.

An attempt may end without an answer although its copy was applied or still will be, and then the
call is made again. A second copy finds the lock free, or held by somebody else who has taken it in
the meantime, and its answer is an error that ends the call (`not_reportsSuccess_lostReply`). The
call reports its own success as long as its copies are not applied behind its back: none after one
of them has freed the lock, and none frees the lock after its attempt has ended (`reportsSuccess`).
-/

namespace Clavis

open Lib Machine

/-! ## Errors of the server -/

/-- The errors that the handlers of the server return. -/
inductive HandlerError where
  | invalidArgument (message : String)
  | notLeader (leaderGRPCAddress : String)
  /-- an error of `raft.Apply`; `lost` for the four that come with a change of leadership -/
  | raft (lost : Bool) (text : String)
  | domain (e : DomainError)
deriving DecidableEq

def toGRPCError : HandlerError → CallError
  | .invalidArgument message => ⟨.invalidArgument, "", message⟩
  | .notLeader leaderGRPCAddress => ⟨.unavailable, leaderGRPCAddress, "not leader"⟩
  | .raft true text => ⟨.unavailable, "", text⟩
  | .raft false text => ⟨.internal, "", text⟩
  | .domain .lockAlreadyHeld => ⟨.alreadyExists, "", DomainError.lockAlreadyHeld.error⟩
  | .domain .leaseNotFound => ⟨.notFound, "", DomainError.leaseNotFound.error⟩
  | .domain .lockNotFound => ⟨.notFound, "", DomainError.lockNotFound.error⟩
  | .domain .nodeNotFound => ⟨.notFound, "", DomainError.nodeNotFound.error⟩
  | .domain .leaseExpired => ⟨.failedPrecondition, "", DomainError.leaseExpired.error⟩
  | .domain .invalidLeaseTTL => ⟨.invalidArgument, "", DomainError.invalidLeaseTTL.error⟩
  | .domain .invalidTimestamp => ⟨.invalidArgument, "", DomainError.invalidTimestamp.error⟩
  | .domain .invalidClusterNode => ⟨.invalidArgument, "", DomainError.invalidClusterNode.error⟩
  | .domain .notLockOwner => ⟨.permissionDenied, "", DomainError.notLockOwner.error⟩
  | .domain (.unknownCommand commandType) =>
    ⟨.internal, "", (DomainError.unknownCommand commandType).error⟩

/-- The error does not say that the lock is gone or somebody else's. -/
def CallError.Harmless (err : CallError) : Prop :=
  err.code ≠ .notFound ∧ err.code ≠ .permissionDenied

instance (err : CallError) : Decidable err.Harmless := inferInstanceAs (Decidable (_ ∧ _))

/-- Only the state machine says that. -/
theorem harmless_toGRPCError {e : HandlerError} (h : ∀ d, e ≠ .domain d) :
    (toGRPCError e).Harmless := by
  cases e with
  | invalidArgument message => exact ⟨nofun, nofun⟩
  | notLeader leaderGRPCAddress => exact ⟨nofun, nofun⟩
  | raft lost text => cases lost <;> exact ⟨nofun, nofun⟩
  | domain d => exact absurd rfl (h d)

/-- The end of an attempt whose command was applied with this result. -/
def replyTo (r : Result) (unresponsive : Bool) : Attempt Unit :=
  match r with
  | .ok _ => .answered ()
  | .error e => .failed (toGRPCError (.domain e)) unresponsive

/-! ## The call -/

/-- The next iteration attempts the head of the queue. -/
def Pass.Attempts (p : Pass) : Prop :=
  ∃ addr ∈ p.queue.head?, ¬ (addr = "" ∨ 2 ≤ p.addressAttempts addr)

instance (p : Pass) : Decidable p.Attempts :=
  inferInstanceAs (Decidable (∃ addr ∈ p.queue.head?, _))

/-- Where the call is. -/
inductive ReleasePc where
  /-- at the top of the loop of `tryCandidates` -/
  | looping (p : Pass)
  /-- in the attempt with this number, on the head of the queue -/
  | waiting (p : Pass) (n : Nat)
  /-- between two passes -/
  | backoff (p : Pass) (result : Except CallError Unit)
  | returned (result : Except CallError Unit)

def ReleasePc.isReturned : ReleasePc → Bool
  | returned _ => true
  | _ => false

/-- The call waits for the answer to this attempt. -/
def ReleasePc.waitsFor (n : Nat) : ReleasePc → Bool
  | waiting _ n' => n' == n
  | _ => false

/-- Where an iteration leads. -/
def ReleasePc.after : Pass ⊕ PassResult Unit → ReleasePc
  | .inl p => looping p
  | .inr out => if out.retry then backoff out.pass out.result else returned out.result

/-- The state machine, the call, the copies of its request that may still be applied, by the numbers
of their attempts, the results of those that were, and which of them have freed the lock. -/
structure ReleaseRun where
  machine : Machine
  pc : ReleasePc
  nextAttempt : Nat
  copies : List Nat
  results : Nat → Option Result
  freedBy : List Nat

namespace ReleaseRun

inductive Act where
  /-- an iteration that attempts nothing -/
  | pass
  /-- the caller's context is done -/
  | ctxDone (err : CallError)
  | noConn (err : CallError)
  | send
  /-- the answer arrives; `unresponsive` if the attempt's time has just run out -/
  | deliver (unresponsive : Bool)
  /-- the attempt ends without an answer -/
  | fail (err : CallError) (unresponsive : Bool)
  | nextPass
  | giveUp
  /-- a copy is applied -/
  | apply (n : Nat)
  /-- a copy is lost for good -/
  | lose (n : Nat)
  /-- another command is applied -/
  | other (cmd : CommandWrapper)

variable (L : String) (l : UInt64)

/-- The call begins. -/
def init (m : Machine) (r : Resolver) : ReleaseRun :=
  ⟨m, .looping (.start r), 0, [], fun _ => none, []⟩

/-- A copy of the request is applied. -/
def applyCopy (s : ReleaseRun) (n : Nat) : ReleaseRun :=
  { s with
    machine := s.machine.next (newReleaseLockCmd L l)
    copies := s.copies.erase n
    results := Function.update s.results n (some (s.machine.result (newReleaseLockCmd L l)))
    freedBy := if L ∈ s.machine.freed (newReleaseLockCmd L l) then n :: s.freedBy else s.freedBy }

/-- One move. An error that does not come from the state machine has another code than the two in
question (`harmless_toGRPCError`). -/
def step (s : ReleaseRun) (a : Act) : Option ReleaseRun :=
  match a, s.pc with
  | .pass, .looping p =>
    if ¬ p.Attempts then some { s with pc := .after (p.iterate ⟨none, .answered ()⟩) } else none
  | .ctxDone err, .looping p =>
    if err.Harmless then some { s with pc := .after (p.iterate ⟨some err, .answered ()⟩) }
    else none
  | .noConn err, .looping p =>
    if p.Attempts ∧ err.Harmless then
      some { s with pc := .after (p.iterate ⟨none, .noConn err⟩) }
    else none
  | .send, .looping p =>
    if p.Attempts then
      some { s with
        pc := .waiting p s.nextAttempt
        nextAttempt := s.nextAttempt + 1
        copies := s.nextAttempt :: s.copies }
    else none
  | .deliver unresponsive, .waiting p n =>
    (s.results n).map fun r =>
      { s with pc := .after (p.iterate ⟨none, replyTo r unresponsive⟩) }
  | .fail err unresponsive, .waiting p _ =>
    if err.Harmless then
      some { s with pc := .after (p.iterate ⟨none, .failed err unresponsive⟩) }
    else none
  | .nextPass, .backoff p _ => some { s with pc := .looping (.start p.resolver) }
  | .giveUp, .backoff _ result => some { s with pc := .returned result }
  | .apply n, _ => if n ∈ s.copies then some (s.applyCopy L l n) else none
  | .lose n, _ => if n ∈ s.copies then some { s with copies := s.copies.erase n } else none
  | .other cmd, _ => some { s with machine := s.machine.next cmd }
  | _, _ => none

/-- **If a copy of the call has freed the lock, the call does not return that the lock is gone or
somebody else's.** -/
def ReportsSuccess (t : Trace (step L l)) : Prop :=
  ∀ k err, (t.state k).freedBy ≠ [] → (t.state k).pc = .returned (.error err) → err.Harmless

/-- Copies are not applied behind the call's back: none while the call goes on after one has freed
the lock, and none frees the lock unless its attempt waits for it. -/
def Suits (s : ReleaseRun) : Act → Prop
  | .apply n =>
    (s.freedBy ≠ [] → s.pc.isReturned) ∧
      (L ∈ s.machine.freed (newReleaseLockCmd L l) → s.pc.waitsFor n)
  | _ => True

instance (s : ReleaseRun) : (a : Act) → Decidable (s.Suits L l a)
  | .apply _ => inferInstanceAs (Decidable (_ ∧ _))
  | .pass | .ctxDone _ | .noConn _ | .send | .deliver _ | .fail _ _ | .nextPass | .giveUp
  | .lose _ | .other _ => inferInstanceAs (Decidable True)

end ReleaseRun

theorem ReleasePc.eq_waiting {pc : ReleasePc} {n : Nat} (h : pc.waitsFor n = true) :
    ∃ p, pc = .waiting p n := by
  cases pc with
  | waiting p n' => exact ⟨p, by rw [beq_iff_eq.mp h]⟩
  | looping p | backoff p result | returned result => cases h

theorem ReleasePc.eq_returned {pc : ReleasePc} (h : pc.isReturned = true) :
    ∃ result, pc = .returned result := by
  cases pc with
  | returned result => exact ⟨result, rfl⟩
  | looping p | backoff p result | waiting p n => cases h

/-! ## Which error an iteration ends with -/

def Attempt.err {T : Type} : Attempt T → Option CallError
  | noConn err => some err
  | answered _ => none
  | failed err _ => some err

/-- All errors that a call in this place has are in `P`. -/
def ReleasePc.Errs (P : CallError → Prop) : ReleasePc → Prop
  | looping p | waiting p _ => ∀ e ∈ p.lastErr, P e
  | backoff _ result | returned result => ∀ e, result = .error e → P e

/-- The error an iteration leaves is that of its attempt, and the last one otherwise. -/
theorem Pass.Iterated.errs {P : CallError → Prop} {p : Pass} {turn : Turn Unit}
    {out : Pass ⊕ PassResult Unit} (hit : Iterated p turn out)
    (hlast : p.Attempts ∧ turn.ctxErr = none ∨ ∀ e ∈ p.lastErr, P e)
    (hctx : ∀ e ∈ turn.ctxErr, P e) (hattempt : ∀ e ∈ turn.attempt.err, P e)
    (hall : P allFailed) : (ReleasePc.after out).Errs P := by
  have hgetD : ∀ err, P err → (∀ e ∈ p.lastErr, P e) → P (p.lastErr.getD err) := by
    intro err herr hold
    cases hlasterr : p.lastErr with
    | none => exact herr
    | some e => exact hold e hlasterr
  have hsome : ∀ {err : CallError}, turn.attempt.err = some err → ∀ e ∈ some err, P e := by
    intro err herr e he
    exact hattempt e (herr ▸ he)
  cases hit with
  | exhausted hqueue =>
    rcases hlast with ⟨⟨addr, haddr, -⟩, -⟩ | hold
    · rw [hqueue] at haddr
      cases haddr
    · intro e he
      cases he
      exact hgetD _ hall hold
  | ctxDone addr queue err hqueue hctxerr =>
    rcases hlast with ⟨-, hnone⟩ | hold
    · rw [hctxerr] at hnone
      cases hnone
    · intro e he
      cases he
      exact hgetD _ (hctx err hctxerr) hold
  | skipped addr queue hqueue hskip =>
    rcases hlast with ⟨⟨addr', haddr', hno⟩, -⟩ | hold
    · rw [hqueue] at haddr'
      cases haddr'
      exact absurd hskip hno
    · exact hold
  | noConn addr queue err _ _ hturn => exact hsome (by rw [hturn]; rfl)
  | answered => exact nofun
  | redirected addr queue err unresponsive _ _ hturn => exact hsome (by rw [hturn]; rfl)
  | refused addr queue err unresponsive _ _ hturn =>
    intro e he
    cases he
    exact hsome (by rw [hturn]; rfl) err rfl
  | failed addr queue err unresponsive _ _ hturn => exact hsome (by rw [hturn]; rfl)

/-- A release that frees the lock succeeds. -/
theorem Machine.result_of_freed {m : Machine} {L : String} {l : UInt64}
    (h : L ∈ m.freed (newReleaseLockCmd L l)) : m.result (newReleaseLockCmd L l) = .ok .none := by
  by_cases hholder : m.holder L = some l
  · obtain ⟨lock, hlock, hid⟩ := holder_eq_some.mp hholder
    rw [result, apply_release_held hlock hid]
  · obtain ⟨e, happ⟩ := apply_release_other hholder
    rw [freed, happ] at h
    cases Multiset.notMem_zero L h

namespace ReleaseRun

variable {L : String} {l : UInt64}

/-! ## The invariant -/

/-- What holds once a copy has freed the lock: the attempt in progress has the good answer or none,
and there is no other trace of an answer. -/
def Settled (s : ReleaseRun) : Prop :=
  match s.pc with
  | .waiting p n => s.results n = some (.ok .none) ∨
      s.results n = none ∧ ∀ e ∈ p.lastErr, CallError.Harmless e
  | pc => pc.Errs CallError.Harmless

structure Inv (s : ReleaseRun) : Prop where
  copies_lt : ∀ n ∈ s.copies, n < s.nextAttempt
  results_lt : ∀ n, s.nextAttempt ≤ n → s.results n = none
  attempts : ∀ p n, s.pc = .waiting p n → p.Attempts
  settled : s.freedBy ≠ [] → s.Settled

theorem inv_init (m : Machine) (r : Resolver) : (init m r).Inv where
  copies_lt := nofun
  results_lt := fun _ _ => rfl
  attempts := nofun
  settled := fun h => absurd rfl h

theorem harmless_allFailed : allFailed.Harmless := ⟨nofun, nofun⟩

/-- The call moves on and does not wait for an attempt; nothing else changes. -/
theorem Inv.setPc {s : ReleaseRun} (h : s.Inv) {pc : ReleasePc} (hpc : ∀ p n, pc ≠ .waiting p n)
    (herrs : s.freedBy ≠ [] → pc.Errs CallError.Harmless) : Inv { s with pc := pc } := by
  refine ⟨h.copies_lt, h.results_lt, fun p n hwait => absurd hwait (hpc p n), fun hfreed => ?_⟩
  cases pc with
  | waiting p n => exact absurd rfl (hpc p n)
  | looping | backoff | returned => exact herrs hfreed

/-- An iteration has ended. -/
theorem Inv.iterated {s : ReleaseRun} (h : s.Inv) {p : Pass} {turn : Turn Unit}
    (herrs : s.freedBy ≠ [] → (ReleasePc.after (p.iterate turn)).Errs CallError.Harmless) :
    Inv { s with pc := .after (p.iterate turn) } := by
  refine h.setPc ?_ herrs
  intro p' n hwait
  unfold ReleasePc.after at hwait
  split at hwait
  · cases hwait
  · split at hwait <;> cases hwait

theorem Inv.applyCopy {s : ReleaseRun} (h : s.Inv) {n : Nat} (hn : n ∈ s.copies)
    (hsuits : s.Suits L l (.apply n)) : (s.applyCopy L l n).Inv where
  copies_lt := fun n' hn' => h.copies_lt n' (List.mem_of_mem_erase hn')
  results_lt := by
    intro n' hle
    have hne : n' ≠ n := by
      have := h.copies_lt n hn
      rintro rfl
      exact absurd hle (Nat.not_le.mpr this)
    show Function.update s.results n _ n' = none
    rw [Function.update_of_ne hne]
    exact h.results_lt n' hle
  attempts := h.attempts
  settled := by
    intro hfreed
    obtain ⟨hone, hwaits⟩ := hsuits
    by_cases hfrees : L ∈ s.machine.freed (newReleaseLockCmd L l)
    · -- the copy frees the lock for the attempt that waits for it
      obtain ⟨p, hpc⟩ := ReleasePc.eq_waiting (hwaits hfrees)
      unfold Settled
      show match s.pc with | .waiting p n => _ | pc => _
      rw [hpc]
      refine Or.inl ?_
      show Function.update s.results n _ n = _
      rw [Function.update_self, result_of_freed hfrees]
    · have hold : s.freedBy ≠ [] := by
        intro hnil
        refine hfreed ?_
        show (if L ∈ s.machine.freed (newReleaseLockCmd L l) then n :: s.freedBy
          else s.freedBy) = []
        rw [if_neg hfrees, hnil]
      obtain ⟨result, hpc⟩ := ReleasePc.eq_returned (hone hold)
      have hset := h.settled hold
      unfold Settled at hset ⊢
      show match s.pc with | .waiting p n => _ | pc => _
      rw [hpc] at hset ⊢
      exact hset

/-- A call whose attempt ends is settled by the answer, if a copy has freed the lock. -/
theorem Inv.replied {s : ReleaseRun} (h : s.Inv) {p : Pass} {n : Nat}
    (hpc : s.pc = .waiting p n) (hfreed : s.freedBy ≠ []) :
    s.results n = some (.ok .none) ∨
      s.results n = none ∧ ∀ e ∈ p.lastErr, CallError.Harmless e := by
  have hset := h.settled hfreed
  unfold Settled at hset
  rw [hpc] at hset
  exact hset

theorem Inv.errs {s : ReleaseRun} (h : s.Inv) (hfreed : s.freedBy ≠ [])
    (hpc : ∀ p n, s.pc ≠ .waiting p n) : s.pc.Errs CallError.Harmless := by
  have hset := h.settled hfreed
  unfold Settled at hset
  split at hset
  · rename_i p n hwait
    exact absurd hwait (hpc p n)
  · exact hset

theorem Inv.lastErr {s : ReleaseRun} (h : s.Inv) {p : Pass} (hpc : s.pc = .looping p)
    (hfreed : s.freedBy ≠ []) : ∀ e ∈ p.lastErr, CallError.Harmless e := by
  have herrs := h.errs hfreed (by rw [hpc]; nofun)
  rw [hpc] at herrs
  exact herrs

theorem harmless_none : ∀ e ∈ (none : Option CallError), CallError.Harmless e := by
  intro e he
  cases he

theorem harmless_some {err : CallError} (herr : err.Harmless) :
    ∀ e ∈ some err, CallError.Harmless e := by
  intro e he
  cases he
  exact herr

/-- **One move keeps the invariant.** -/
theorem Inv.step {s s' : ReleaseRun} {a : Act} (h : s.Inv) (hstep : step L l s a = some s')
    (hsuits : s.Suits L l a) : s'.Inv := by
  unfold ReleaseRun.step at hstep
  split at hstep
  · -- nothing is attempted: the last error stays
    rename_i p hpc
    obtain ⟨-, heq⟩ := Option.ite_none_right_eq_some.mp hstep
    cases heq
    exact h.iterated fun hfreed => (p.iterated _).errs (Or.inr (h.lastErr hpc hfreed))
      harmless_none harmless_none harmless_allFailed
  · rename_i err p hpc
    obtain ⟨herr, heq⟩ := Option.ite_none_right_eq_some.mp hstep
    cases heq
    exact h.iterated fun hfreed => (p.iterated _).errs (Or.inr (h.lastErr hpc hfreed))
      (harmless_some herr) harmless_none harmless_allFailed
  · rename_i err p hpc
    obtain ⟨⟨hattempts, herr⟩, heq⟩ := Option.ite_none_right_eq_some.mp hstep
    cases heq
    exact h.iterated fun _ => (p.iterated _).errs (Or.inl ⟨hattempts, rfl⟩) harmless_none
      (harmless_some herr) harmless_allFailed
  · -- a new attempt has no answer yet
    rename_i p hpc
    obtain ⟨hattempts, heq⟩ := Option.ite_none_right_eq_some.mp hstep
    cases heq
    refine ⟨?_, ?_, ?_, ?_⟩
    · intro n hn
      rcases List.mem_cons.mp hn with rfl | hold
      · exact Nat.lt_succ_self _
      · exact Nat.lt_succ_of_lt (h.copies_lt n hold)
    · intro n hle
      exact h.results_lt n (Nat.le_of_succ_le hle)
    · intro p' n hwait
      cases hwait
      exact hattempts
    · intro hfreed
      exact Or.inr ⟨h.results_lt _ (Nat.le_refl _), h.lastErr hpc hfreed⟩
  · rename_i unresponsive p n hpc
    obtain ⟨r, hr, heq⟩ := Option.map_eq_some_iff.mp hstep
    cases heq
    refine h.iterated fun hfreed =>
      (p.iterated _).errs (Or.inl ⟨h.attempts p n hpc, rfl⟩) harmless_none ?_ harmless_allFailed
    rcases h.replied hpc hfreed with hok | ⟨hnone, -⟩
    · rw [hr] at hok
      cases hok
      exact harmless_none
    · rw [hr] at hnone
      cases hnone
  · rename_i err unresponsive p n hpc
    obtain ⟨herr, heq⟩ := Option.ite_none_right_eq_some.mp hstep
    cases heq
    exact h.iterated fun _ => (p.iterated _).errs (Or.inl ⟨h.attempts p n hpc, rfl⟩)
      harmless_none (harmless_some herr) harmless_allFailed
  · cases hstep
    refine h.setPc ?_ fun _ => harmless_none
    intro p n hwait
    cases hwait
  · rename_i p result hpc
    cases hstep
    refine h.setPc ?_ fun hfreed => ?_
    · intro p n hwait
      cases hwait
    · have herrs := h.errs hfreed (by rw [hpc]; nofun)
      rw [hpc] at herrs
      exact herrs
  · rename_i n
    obtain ⟨hn, heq⟩ := Option.ite_none_right_eq_some.mp hstep
    cases heq
    exact h.applyCopy hn hsuits
  · obtain ⟨-, heq⟩ := Option.ite_none_right_eq_some.mp hstep
    cases heq
    exact ⟨fun n hn => h.copies_lt n (List.mem_of_mem_erase hn), h.results_lt, h.attempts,
      h.settled⟩
  · cases hstep
    exact ⟨h.copies_lt, h.results_lt, h.attempts, h.settled⟩
  · cases hstep

/-- **A release reports its own success** as long as its copies are not applied behind its back. -/
theorem reportsSuccess {m : Machine} {r : Resolver} (t : Trace (ReleaseRun.step L l))
    (hstart : t.start = init m r) (hsuits : t.Steps (Suits L l)) : ReportsSuccess L l t := by
  intro k err hfreed hpc
  have hinv : (t.state k).Inv := by
    refine t.invariant_from (I := Inv) (Nat.zero_le k) ?_ ?_
    · rw [t.state_zero, hstart]
      exact inv_init m r
    · intro i a s' _ _ ha hstep hI
      exact hI.step hstep (hsuits.at ha)
  have herrs := hinv.errs hfreed (by rw [hpc]; nofun)
  rw [hpc] at herrs
  exact herrs err rfl

/-! ## Runs -/

/-- Lease 1 holds `alpha`. -/
def alphaHeld : Machine :=
  new.replay [newCreateLeaseCmd "client-1" 1 1, newAcquireLockCmd "alpha" "client-1" 1]

def unavailable : CallError := ⟨.unavailable, "", "connection refused"⟩

/-- The answer is lost, and the call gives up before another copy is applied. -/
def gaveUp : Trace (ReleaseRun.step "alpha" 1) where
  start := init alphaHeld (newResolver ["n1:9000"])
  acts := [.send, .apply 0, .fail unavailable false, .pass, .giveUp]
  enabled := by decide

theorem reportsSuccess_gaveUp :
    (gaveUp.state 5).freedBy = [0] ∧ (gaveUp.state 5).pc = .returned (.error unavailable) ∧
      unavailable.Harmless := by
  have hfreed : (gaveUp.state 5).freedBy = [0] := by decide
  have hpc : (gaveUp.state 5).pc = .returned (.error unavailable) := rfl
  refine ⟨hfreed, hpc, ?_⟩
  exact reportsSuccess gaveUp rfl (by decide) 5 unavailable (by rw [hfreed]; nofun) hpc

/-- The first attempt's copy is applied and its answer is lost. -/
def lostReply : Trace (ReleaseRun.step "alpha" 1) where
  start := init alphaHeld (newResolver ["n1:9000"])
  acts := [.send, .apply 0, .fail unavailable false, .pass, .nextPass, .send, .apply 1,
    .deliver false]
  enabled := by decide

/-- The release has freed the lock, and the call returns `NotFound`. -/
theorem not_reportsSuccess_lostReply : ¬ ReportsSuccess "alpha" 1 lostReply := by
  intro h
  refine (h 8 ⟨.notFound, "", "lock not found"⟩ (by decide) ?_).1 rfl
  rfl

end ReleaseRun

end Clavis
