import Clavis.Lib.Queue
import Clavis.Service.Calls

/-!
# Clavis — no lost wake-up

A waiting call parks in a select and is woken through its one-slot channel. Signals come from two
places: the lock-freed hook signals the head of the freed lock's queue, and a head that leaves
signals the next one. The waiter in turn tests its headship and the holder in two separate steps
before it parks.

`Sys.Parked` is the invariant that makes this work: a head that is parked although its lock is free,
or held by its own lease, has a signal pending. Where else a head can be is read off its program
counter (`AcquirePc.attentive_of_queued`).
-/

namespace Clavis

open Lib

namespace AcquirePc

/-- Before a completed pair of head and holder tests. -/
def testing : AcquirePc → Bool
  | isHead | heldByOther => true
  | _ => false

/-- In `acquire`. -/
def acquiring : AcquirePc → Bool
  | getLease | alive _ | propose | inFlight => true
  | _ => false

/-- On its way out, through the deferred `Leave`. -/
def departing : AcquirePc → Bool
  | leaving _ => true
  | _ => false

/-- A queued call that is not parked is in one of the three places. -/
theorem attentive_of_queued {pc : AcquirePc} (hqueued : pc.queued = true) (hpc : pc ≠ .select) :
    pc.testing = true ∨ pc.acquiring = true ∨ pc.departing = true := by
  cases pc with
  | select => exact absurd rfl hpc
  | start | enter | heldBy | returned => cases hqueued
  | isHead | heldByOther => exact Or.inl rfl
  | getLease | alive | propose | inFlight => exact Or.inr (Or.inl rfl)
  | leaving => exact Or.inr (Or.inr rfl)

end AcquirePc

namespace Sys

/-- A head that is parked while nobody else holds its lock has a signal pending. -/
def Parked (s : Sys) : Prop :=
  ∀ L w call, (s.queues.queue L).head? = some w → s.calls w = some call → call.pc = .select →
    s.heldByOther L call.leaseID = false → w ∈ s.queues.ready

section Step

variable {s s' : Sys} {a : Act}

/-- A signal stays until its waiter takes it, or gets a new channel. -/
theorem Moved.ready_mono (hm : Moved s a s') {w : Nat} {call : AcquireCall}
    (hcall : s.calls w = some call) (hpc : call.pc = .select)
    (hcall' : s'.calls w = some call) (hw : w ∈ s.queues.ready) : w ∈ s'.queues.ready := by
  cases hm with
  | apply cmd owner rest hpending =>
    rw [deliver_queues]
    exact (LockQueues.mem_ready_lockFreed ..).mpr (Or.inl hw)
  | joined c call' hcall₀ hpc₀ hwait =>
    refine Finset.mem_erase_of_ne_of_mem ?_ hw
    rintro rfl
    rw [Option.some.inj (hcall₀.symm.trans hcall), hpc] at hpc₀
    cases hpc₀
  | woken c call' hcall₀ hpc₀ hready =>
    refine Finset.mem_erase_of_ne_of_mem ?_ hw
    rintro rfl
    rw [setPc_calls_self] at hcall'
    rw [← Option.some.inj hcall'] at hpc
    cases hpc
  | left c call' result hcall₀ hpc₀ => exact (LockQueues.mem_ready_leave ..).mpr (Or.inl hw)
  | _ => exact hw

/-- When a lock stops being held by others, its head is signalled. -/
theorem Moved.signalled_of_freed (hm : Moved s a s') {L : String} {w : Nat} {id : UInt64}
    (hhead : (s.queues.queue L).head? = some w) (hheld : s.heldByOther L id = true)
    (hfree : s'.heldByOther L id = false) : w ∈ s'.queues.ready := by
  cases hm with
  | apply cmd owner rest hpending =>
    rw [deliver_queues]
    refine (LockQueues.mem_ready_lockFreed ..).mpr (Or.inr ⟨L, ?_, hhead⟩)
    unfold heldByOther at hheld hfree
    rw [deliver_fsm] at hfree
    rcases s.fsm.getLock_next_cases cmd L with hsame | ⟨-, -, hnone, -⟩ | ⟨_, -, -, hfreed⟩
    · rw [hsame] at hfree
      rw [hfree] at hheld
      cases hheld
    · rw [hnone] at hheld
      cases hheld
    · exact hfreed
  | _ => rw [show s.heldByOther L id = false from hfree] at hheld; cases hheld

theorem asAcquireLockResponse_eq_alreadyHeld {result : Result}
    (h : asAcquireLockResponse result = alreadyHeld) : result = .error .lockAlreadyHeld := by
  rcases result with e | r
  · cases h
    rfl
  · cases r <;> cases h

/-- A waiting call parks only after `acquire` has found its lock held. -/
theorem afterAcquire_eq_select {call : AcquireCall} {result : AcquireResult}
    (h : call.afterAcquire result = .select) : result = alreadyHeld := by
  unfold AcquireCall.afterAcquire at h
  split at h
  · split at h
    · assumption
    · cases h
  · cases h

/-- **A head does not park before a free lock**: the test that sends it to its select has just seen
another head or another holder. -/
theorem Advance.held_of_select (hinv : Inv s) (hm : Moved s a s') {c : Nat} {call : AcquireCall}
    (hcall : s.calls c = some call) (h : Advance s c call a .select) :
    s'.queues.isHead call.lockName c = false ∨
      s'.heldByOther call.lockName call.leaseID = true := by
  have hpc : ∀ {pc : AcquirePc}, Advance s c call a pc → pc = .select →
      s'.queues.isHead call.lockName c = false ∨
        s'.heldByOther call.lockName call.leaseID = true := by
    intro pc h heq
    cases h with
    | pc _ _ hstep =>
      cases hstep with
      | notHead hpc hhead =>
        cases hm with
        | pc _ _ _ _ _ _ => exact Or.inl hhead
      | heldByOther hpc hheld =>
        cases hm with
        | pc _ _ _ _ _ _ => exact Or.inr hheld
      | leaseMissing => cases afterAcquire_eq_select heq
      | notProposed => cases afterAcquire_eq_select heq
      | applyFailed => cases afterAcquire_eq_select heq
      | _ => cases heq
    | dead => cases afterAcquire_eq_select heq
    | answered cmd rest hpc hpending =>
      -- the state machine has just answered that another lease holds the lock
      have hresult := asAcquireLockResponse_eq_alreadyHeld (afterAcquire_eq_select heq)
      have hfsm := hm.fsm_of_apply hpending
      obtain rfl := hinv.cmd_eq hcall hpending
      refine Or.inr ?_
      rcases s.fsm.acquireLock_cases call.lockName call.ownerID call.leaseID with
        ⟨-, hres⟩ | ⟨_, -, -, hres⟩ | ⟨_, _, -, -, -, hres⟩ | ⟨lock, -, hne, hlock, -⟩ |
        ⟨_, -, -, hres⟩
      · cases hres.symm.trans hresult
      · cases hres.symm.trans hresult
      · cases hres.symm.trans hresult
      · unfold Sys.heldByOther
        rw [hfsm, show (s.fsm.next call.cmd).getLock call.lockName = some lock from hlock]
        simpa using hne
      · cases hres.symm.trans hresult
    | _ => cases heq
  exact hpc h rfl

/-- The head of a queue after a step was the head before, or has just got a signal, or has just
joined. -/
theorem Moved.head_cases (hm : Moved s a s') {L : String} {w : Nat}
    (hhead : (s'.queues.queue L).head? = some w) :
    (s.queues.queue L).head? = some w ∨ w ∈ s'.queues.ready ∨
      ∃ call, s'.calls w = some call ∧ call.pc = .isHead := by
  cases hm with
  | apply cmd owner rest hpending =>
    rw [deliver_queues, LockQueues.queue_lockFreed] at hhead
    exact Or.inl hhead
  | joined c call hcall hpc hwait =>
    change ((s.queues.join call.lockName c).queue L).head? = some w at hhead
    rw [LockQueues.queue_join] at hhead
    split at hhead
    · rename_i hL
      rw [hL]
      rcases head?_concat_eq_some hhead with hold | ⟨-, rfl⟩
      · exact Or.inl hold
      · exact Or.inr (Or.inr ⟨_, setPc_calls_self .., rfl⟩)
    · exact Or.inl hhead
  | left c call result hcall hpc =>
    change ((s.queues.leave call.lockName c).queue L).head? = some w at hhead
    rw [LockQueues.queue_leave] at hhead
    split at hhead
    · rename_i hL
      by_cases hfirst : (s.queues.queue call.lockName).head? = some c
      · exact Or.inr (Or.inl ((LockQueues.mem_ready_leave ..).mpr (Or.inr ⟨hfirst, hhead⟩)))
      · rw [head?_erase_of_head?_ne hfirst] at hhead
        exact Or.inl (hL ▸ hhead)
    · exact Or.inl hhead
  | _ => exact Or.inl hhead

/-- **Every step keeps the invariant.** -/
theorem Parked.step (h : Parked s) (hinv : Inv s) (hm : Moved s a s') : Parked s' := by
  intro L w call' hhead hcall' hpc hfree
  obtain ⟨call₀, hcall₀, hL, -, -⟩ := (hinv.step hm).queued L w (List.mem_of_head? hhead)
  obtain rfl : call₀ = call' := Option.some.inj (hcall₀.symm.trans hcall')
  rcases hm.call_cases hcall' with ⟨-, hstart, -⟩ | ⟨call, hcall, rfl | ⟨pc, hadv, rfl⟩⟩
  · rw [hstart] at hpc
    cases hpc
  · -- the head was parked before the step
    rcases hm.head_cases hhead with hold | hready | ⟨call, hjoined, hpc'⟩
    · cases hheld : s.heldByOther L call₀.leaseID with
      | false => exact hm.ready_mono hcall hpc hcall' (h L w call₀ hold hcall hpc hheld)
      | true => exact hm.signalled_of_freed hold hheld hfree
    · exact hready
    · rw [Option.some.inj (hjoined.symm.trans hcall'), hpc] at hpc'
      cases hpc'
  · -- it parks in this step, and then has seen its lock held
    obtain rfl : pc = .select := hpc
    rcases hadv.held_of_select hinv hm hcall with hnot | hheld
    · rw [show call.lockName = L from hL] at hnot
      simp [LockQueues.isHead, hhead] at hnot
    · rw [show call.lockName = L from hL] at hheld
      exact absurd (hheld.symm.trans hfree) (by decide)

end Step

/-! ## The head of a queue is attended to -/

/-- The literal expectation: a head whose lock nobody else holds has a signal pending, is before a
completed pair of tests, or is acquiring. -/
def HeadAttended (s : Sys) : Prop :=
  ∀ L w call, (s.queues.queue L).head? = some w → s.calls w = some call →
    s.heldByOther L call.leaseID = false →
      w ∈ s.queues.ready ∨ call.pc.testing = true ∨ call.pc.acquiring = true

/-- **No lost wake-up.** In every run from a new leader's state, a head whose lock is free or held
by its own lease has a signal pending, is before a completed pair of head and holder tests, is
acquiring, or is on its way out through the deferred `Leave`. In particular it is never parked
without a signal. -/
theorem no_lost_wakeup {t : Trace step} {now : Int} {term : UInt64} {fsm : Machine}
    {pending : List CommandWrapper} (h0 : t.start = takeover now term fsm pending) (k : Nat)
    {L : String} {w : Nat} (hhead : ((t.state k).queues.queue L).head? = some w) :
    ∃ call, (t.state k).calls w = some call ∧ call.lockName = L ∧ call.wait = true ∧
      ((t.state k).heldByOther L call.leaseID = false →
        (w ∈ (t.state k).queues.ready ∨ call.pc.testing = true ∨ call.pc.acquiring = true ∨
          call.pc.departing = true) ∧
        (call.pc = .select → w ∈ (t.state k).queues.ready)) := by
  have hstart : Inv t.start := h0 ▸ inv_takeover now term fsm pending
  have hparked : Parked (t.state k) := by
    have hfirst : Parked (t.state 0) := by
      rw [t.state_zero, h0]
      intro L w call hhead
      cases hhead
    refine t.invariant_from (Nat.zero_le k) hfirst ?_
    intro i a s' _ _ _ hstep hp
    exact hp.step (inv_state hstart i) (moved_of_step hstep)
  obtain ⟨call, hcall, hL, hwait, hqueued⟩ :=
    (inv_state hstart k).queued L w (List.mem_of_head? hhead)
  have hsignal : (t.state k).heldByOther L call.leaseID = false → call.pc = .select →
      w ∈ (t.state k).queues.ready :=
    fun hfree hpc => hparked L w call hhead hcall hpc hfree
  refine ⟨call, hcall, hL, hwait, fun hfree => ⟨?_, hsignal hfree⟩⟩
  by_cases hpc : call.pc = .select
  · exact Or.inl (hsignal hfree hpc)
  · exact Or.inr (AcquirePc.attentive_of_queued hqueued hpc)

/-- Two clients have a lease each, and the first holds `alpha`. -/
def alphaHeld : Machine :=
  Machine.new.replay [newCreateLeaseCmd "client-1" 10 5, newCreateLeaseCmd "client-2" 10 5,
    newAcquireLockCmd "alpha" "client-1" 1]

/-- The second client waits for `alpha` and parks, the first releases it, and the waiter is woken
and granted the lock. -/
def handOver : Trace step :=
  ⟨takeover 100 1 alphaHeld [],
    [.acquireLock 0 "alpha" "client-2" 2 true, .ensureLeader 0, .enter 0, .isHead 0,
      .heldByOther 0, .enqueue (newReleaseLockCmd "alpha" 1), .apply, .ready 0, .isHead 0,
      .heldByOther 0, .getLease 0, .alive 0, .propose 0 true, .apply], by decide⟩

theorem no_lost_wakeup_handOver :
    ((handOver.state 7).queues.queue "alpha").head? = some 0 ∧
      (handOver.state 7).heldByOther "alpha" 2 = false ∧ 0 ∈ (handOver.state 7).queues.ready := by
  have hhead : ((handOver.state 7).queues.queue "alpha").head? = some 0 := by decide
  have hfree : (handOver.state 7).heldByOther "alpha" 2 = false := by decide
  have hparked : (handOver.state 7).calls 0 = some ⟨"alpha", "client-2", 2, true, .select⟩ := rfl
  obtain ⟨call, hcall, -, -, hattended⟩ := no_lost_wakeup rfl 7 hhead
  rw [hparked] at hcall
  cases hcall
  exact ⟨hhead, hfree, (hattended hfree).2 rfl⟩

/-- **The one gap in the literal expectation**: once the waiter's acquire has returned, and until
its deferred `Leave` has run, it is still the head of the queue of a lock its own lease holds. -/
theorem not_headAttended_handOver :
    handOver.start = takeover 100 1 alphaHeld [] ∧
      (handOver.state 14).calls 0 = some ⟨"alpha", "client-2", 2, true, .leaving (.ok ⟨2, 10⟩)⟩ ∧
      ¬ HeadAttended (handOver.state 14) := by
  refine ⟨rfl, rfl, ?_⟩
  intro hall
  have hattended := hall "alpha" 0 ⟨"alpha", "client-2", 2, true, .leaving (.ok ⟨2, 10⟩)⟩
    (by decide) rfl (by decide)
  revert hattended
  decide

end Sys

end Clavis
