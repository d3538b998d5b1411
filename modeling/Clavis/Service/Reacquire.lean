import Clavis.Service.WakeUp
import Clavis.State.Fencing

/-!
# Clavis — the holder acquires again

The state machine lets the lease that holds a lock acquire it again and answers with the token it
has. The service puts a queue in front of that. Its path without waiting exempts the holder from
the queue; its path with waiting does not, so that a holder may find itself behind other waiters,
none of whom can get anywhere while it holds the lock.

`holder_served` says when that matters: a call of the holder that waits ends with
`ErrLockAlreadyHeld` in some run exactly if the queue is not empty when it joins. With an empty
queue the call is the head until it leaves (`Reacquiring`), and never parks.
-/

namespace Clavis

open Lib

namespace Sys

/-- The lease of the call holds the lock it asks for, belongs to the caller and is alive. -/
def Holds (s : Sys) (call : AcquireCall) : Prop :=
  s.heldBy call.lockName call.leaseID = true ∧
    ∃ lease ∈ s.fsm.getLease call.leaseID,
      lease.ownerID = call.ownerID ∧ (s.leases.alive s.term s.now lease).2 = true

instance (s : Sys) (call : AcquireCall) : Decidable (s.Holds call) :=
  inferInstanceAs (Decidable (_ ∧ _))

/-- An answer that suits the holder: not that the lock is held, and no token but its own. -/
def Faithful (s : Sys) (lockName : String) (result : AcquireResult) : Prop :=
  result ≠ alreadyHeld ∧
    ∀ resp, result = .ok resp →
      ∃ lock, s.fsm.getLock lockName = some lock ∧ lock.fencingToken = resp.fencingToken

/-- Every call of the run whose lease holds the lock from its start to its end ends with an answer
that suits the holder. -/
def HolderServed (t : Trace step) : Prop :=
  ∀ j k c call result,
    t.acts[j]? = some (.acquireLock c call.lockName call.ownerID call.leaseID call.wait) →
    j < k → (∀ n, j < n → n ≤ k → (t.state n).Holds call) →
    (t.state k).calls c = some { call with pc := .returned result } →
      (t.state k).Faithful call.lockName result

/-- The call that enters in a step. -/
def Act.entering : Act → Option Nat
  | .enter c => some c
  | _ => none

/-- The step does not put a waiting call of the holder behind somebody else. -/
def Unobstructed (s : Sys) (a : Act) : Prop :=
  ∀ c ∈ a.entering, ∀ call ∈ s.calls c, s.Holds call → call.wait = true →
    s.queues.queue call.lockName = []

instance (s : Sys) (a : Act) : Decidable (s.Unobstructed a) :=
  inferInstanceAs (Decidable (∀ c ∈ a.entering, _))

/-- Whatever happens after the call has entered in state `s`: if its lease holds the lock until the
call returns, it returns an answer that suits the holder. -/
def EndsWell (s : Sys) (c : Nat) (call : AcquireCall) : Prop :=
  ∀ t : Trace step, t.start = s → t.acts[0]? = some (.enter c) →
    ∀ k, (∀ n ≤ k, (t.state n).Holds call) →
      ∀ result, (t.state k).calls c = some { call with pc := .returned result } →
        (t.state k).Faithful call.lockName result

theorem heldBy_eq_true {s : Sys} {L : String} {id : UInt64} :
    s.heldBy L id = true ↔ ∃ lock, s.fsm.getLock L = some lock ∧ lock.leaseID = id := by
  unfold heldBy
  cases s.fsm.getLock L with
  | none => simp
  | some lock => simp

/-- What is held by a lease is not held by another one. -/
theorem heldByOther_of_heldBy {s : Sys} {L : String} {id : UInt64} (h : s.heldBy L id = true) :
    s.heldByOther L id = false := by
  obtain ⟨lock, hlock, hid⟩ := heldBy_eq_true.mp h
  simp [heldByOther, hlock, hid]

/-! ## A call on course

What holds of a call of the holder at each point after it has entered, as long as it is not stuck
behind somebody: it is not parked, and if it has an answer, that answer suits the holder. -/

structure OnCourse (s : Sys) (call : AcquireCall) : Prop where
  loop : call.pc.testing = true → call.wait = true
  entered : call.pc.early = false
  awake : call.pc ≠ .select
  faithful : ∀ result, call.pc.answer = some result → s.Faithful call.lockName result

section OnCourse

variable {s s' : Sys} {a : Act} {c : Nat} {call : AcquireCall}

theorem faithful_error {L : String} {e : ServiceError} (he : e ≠ .domain .lockAlreadyHeld) :
    s.Faithful L (.error e) := by
  refine ⟨?_, ?_⟩
  · intro heq
    cases heq
    exact he rfl
  · intro resp heq
    cases heq

theorem onCourse_of_acquiring {pc : AcquirePc} (h : pc.acquiring = true) :
    s.OnCourse { call with pc := pc } := by
  cases pc with
  | getLease | alive | propose | inFlight =>
    exact ⟨nofun, rfl, nofun, nofun⟩
  | _ => cases h

theorem onCourse_of_testing {pc : AcquirePc} (h : pc.testing = true) (hwait : call.wait = true) :
    s.OnCourse { call with pc := pc } := by
  cases pc with
  | isHead | heldByOther =>
    exact ⟨fun _ => hwait, rfl, nofun, nofun⟩
  | _ => cases h

theorem onCourse_afterAcquire {result : AcquireResult} (h : s.Faithful call.lockName result) :
    s.OnCourse { call with pc := call.afterAcquire result } := by
  have hanswer : ∀ r, (call.afterAcquire result).answer = some r → s.Faithful call.lockName r := by
    intro r hr
    rw [AcquireCall.answer_afterAcquire hr]
    exact h
  revert hanswer
  unfold AcquireCall.afterAcquire
  rw [if_neg h.1]
  split
  · exact fun hanswer => ⟨nofun, rfl, nofun, hanswer⟩
  · exact fun hanswer => ⟨nofun, rfl, nofun, hanswer⟩

theorem onCourse_returned {result : AcquireResult} (h : s.Faithful call.lockName result) :
    s.OnCourse { call with pc := .returned result } := by
  refine ⟨nofun, rfl, nofun, ?_⟩
  intro r hr
  cases hr
  exact h

/-- **What the state machine answers the holder**: its own token. -/
theorem faithful_of_holds (h : s.Holds call) :
    s.Faithful call.lockName (asAcquireLockResponse (s.fsm.result call.cmd)) := by
  obtain ⟨hheld, lease, hlease, howner, -⟩ := h
  obtain ⟨lock, hlock, hid⟩ := heldBy_eq_true.mp hheld
  rcases s.fsm.acquireLock_cases call.lockName call.ownerID call.leaseID with
    ⟨hnone, -⟩ | ⟨lease', hlease', hne, -⟩ | ⟨_, lock', -, hlock', -, hresult⟩ |
    ⟨lock', hlock', hne, -, -⟩ | ⟨_, -, hnone, -⟩
  · rw [hnone] at hlease
    cases hlease
  · rw [hlease'] at hlease
    cases hlease
    exact absurd howner hne
  · rw [show s.fsm.result call.cmd = _ from hresult]
    refine ⟨nofun, ?_⟩
    intro resp heq
    cases heq
    exact ⟨lock', hlock', rfl⟩
  · rw [hlock'] at hlock
    cases hlock
    exact absurd hid hne
  · rw [hnone] at hlock
    cases hlock

/-- One step of the call. The tests cannot send it to its select: it is the head, and nobody else
holds the lock. -/
theorem OnCourse.advance {pc : AcquirePc} (h : s.OnCourse call) (hinv : Inv s)
    (hcall : s.calls c = some call) (hholds : s.Holds call)
    (hhead : call.wait = true →
      (s.queues.queue call.lockName).head? = some c ∨ ∃ result, call.pc = .returned result)
    (hadv : Advance s c call a pc) : s.OnCourse { call with pc := pc } := by
  have hnotEarly : ∀ {pc' : AcquirePc}, call.pc = pc' → pc'.early = true → False := by
    intro pc' hpc hearly
    rw [← hpc, h.entered] at hearly
    cases hearly
  cases hadv with
  | pc _ _ hstep =>
    cases hstep with
    | refused _ hpc => exact (hnotEarly hpc rfl).elim
    | admitted hpc => exact (hnotEarly hpc rfl).elim
    | contended hpc => exact (hnotEarly hpc rfl).elim
    | uncontended hpc => exact (hnotEarly hpc rfl).elim
    | holder | notHeldByOther | leaseFound => exact onCourse_of_acquiring rfl
    | notHolder hpc hnot =>
      -- the exemption of the path without waiting
      rw [hholds.1] at hnot
      cases hnot
    | head hpc _ => exact onCourse_of_testing rfl (h.loop (by rw [hpc]; rfl))
    | notHead hpc hnot =>
      -- a call in the loop is the head
      rcases hhead (h.loop (by rw [hpc]; rfl)) with hfirst | ⟨result, hreturned⟩
      · simp [LockQueues.isHead, hfirst] at hnot
      · cases hpc.symm.trans hreturned
    | heldByOther hpc hother =>
      rw [heldByOther_of_heldBy hholds.1] at hother
      cases hother
    | leaseMissing => exact onCourse_afterAcquire (faithful_error (by decide))
    | notProposed => exact onCourse_afterAcquire (faithful_error (by decide))
    | applyFailed => exact onCourse_afterAcquire (faithful_error (by decide))
    | rechecked hpc => exact absurd hpc h.awake
    | redirected hpc => exact absurd hpc h.awake
    | timeout hpc => exact absurd hpc h.awake
    | ctxDone hpc => exact absurd hpc h.awake
  | joined hpc => exact (hnotEarly hpc rfl).elim
  | alive | proposed => exact onCourse_of_acquiring rfl
  | dead => exact onCourse_afterAcquire (faithful_error (by decide))
  | answered cmd rest hpc hpending =>
    obtain rfl := hinv.cmd_eq hcall hpending
    exact onCourse_afterAcquire (faithful_of_holds hholds)
  | woken hpc => exact absurd hpc h.awake
  | left result hpc =>
    exact onCourse_returned (h.faithful result (by rw [hpc]; rfl))

/-- A lock that stays held keeps its token. -/
theorem Faithful.frame {L : String} {id : UInt64} {result : AcquireResult}
    (h : s.Faithful L result) (hm : Moved s a s') (hheld' : s'.heldBy L id = true) :
    s'.Faithful L result := by
  refine ⟨h.1, ?_⟩
  intro resp hresp
  obtain ⟨lock, hlock, htoken⟩ := h.2 resp hresp
  obtain ⟨lock', hlock', -⟩ := heldBy_eq_true.mp hheld'
  rcases hm.fsm_cases with heq | ⟨cmd, owner, rest, -, -, heq⟩
  · exact ⟨lock, heq ▸ hlock, htoken⟩
  · refine ⟨lock', hlock', ?_⟩
    rw [heq] at hlock'
    rw [Machine.getLock_next_of_held hlock hlock', htoken]

theorem OnCourse.frame (h : s.OnCourse call) (hm : Moved s a s')
    (hheld' : s'.heldBy call.lockName call.leaseID = true) : s'.OnCourse call :=
  ⟨h.loop, h.entered, h.awake, fun result hpc => (h.faithful result hpc).frame hm hheld'⟩

end OnCourse

/-! ## From an empty queue -/

/-- The call is on course, and at the head of its queue until it returns if it waits. -/
structure Reacquiring (s : Sys) (c : Nat) (call : AcquireCall) : Prop where
  call_eq : s.calls c = some call
  head : call.wait = true →
    (s.queues.queue call.lockName).head? = some c ∨ ∃ result, call.pc = .returned result
  onCourse : s.OnCourse call

section Step

variable {s s' : Sys} {a : Act} {c : Nat} {call : AcquireCall}

theorem Moved.returned_of_leave (hm : Moved s (.leave c) s') :
    ∃ call result, s'.calls c = some call ∧ call.pc = .returned result := by
  cases hm with
  | pc _ _ _ _ _ hstep => cases hstep
  | left _ call result => exact ⟨_, result, setPc_calls_self .., rfl⟩

/-- A call that has returned takes no more steps. -/
theorem Advance.ne_returned {pc : AcquirePc} (h : Advance s c call a pc) (result : AcquireResult) :
    call.pc ≠ .returned result := by
  intro hreturned
  cases h with
  | pc _ _ hstep => cases hstep <;> cases hreturned.symm.trans ‹call.pc = _›
  | _ => cases hreturned.symm.trans ‹call.pc = _›

/-- A head stays the head until it has left. -/
theorem Moved.head?_next (hm : Moved s a s') {L : String}
    (hhead : (s.queues.queue L).head? = some c) :
    (s'.queues.queue L).head? = some c ∨
      ∃ call result, s'.calls c = some call ∧ call.pc = .returned result := by
  rcases hm.queue_cases L with heq | ⟨x, _, -, -, -, -, -, heq, -⟩ | ⟨x, _, _, ha, -, -, -, heq⟩
  · exact Or.inl (heq ▸ hhead)
  · rw [heq]
    exact Or.inl (head?_concat_of_head? hhead)
  · rw [heq]
    by_cases hx : x = c
    · subst hx
      rw [ha] at hm
      exact Or.inr hm.returned_of_leave
    · have hne : (s.queues.queue L).head? ≠ some x := by
        rw [hhead]
        exact fun h => hx (Option.some.inj h).symm
      rw [head?_erase_of_head?_ne hne]
      exact Or.inl hhead

/-- **A step keeps the call of the holder on course**, and at the head if it waits. -/
theorem Reacquiring.step (h : s.Reacquiring c call) (hinv : Inv s) (hholds : s.Holds call)
    (hm : Moved s a s') (hheld' : s'.heldBy call.lockName call.leaseID = true) :
    ∃ pc, s'.Reacquiring c { call with pc := pc } := by
  obtain ⟨pc, hcall', hmove⟩ := hm.call_next h.call_eq
  refine ⟨pc, hcall', ?_, ?_⟩
  · intro hwait
    rcases h.head hwait with hhead | ⟨result, hreturned⟩
    · rcases hm.head?_next hhead with hhead' | ⟨call', result, hcall'', hpc⟩
      · exact Or.inl hhead'
      · cases hcall'.symm.trans hcall''
        exact Or.inr ⟨result, hpc⟩
    · rcases hmove with rfl | hadv
      · exact Or.inr ⟨result, hreturned⟩
      · exact absurd hreturned (hadv.ne_returned result)
  · have hon : s.OnCourse { call with pc := pc } := by
      rcases hmove with rfl | hadv
      · exact h.onCourse
      · exact h.onCourse.advance hinv h.call_eq hholds h.head hadv
    exact hon.frame hm hheld'

/-- A call that enters without anybody ahead of it is on course. -/
theorem reacquiring_of_enter (hm : Moved s (.enter c) s') (hcall : s.calls c = some call)
    (hqueue : call.wait = false ∨ s.queues.queue call.lockName = []) :
    ∃ pc, s'.Reacquiring c { call with pc := pc } := by
  cases hm with
  | pc _ _ call' pc hcall' hstep =>
    cases hstep with
    | contended hpc hwait =>
      cases hcall'.symm.trans hcall
      refine ⟨.heldBy, setPc_calls_self .., ?_, nofun, rfl, nofun, nofun⟩
      exact fun hwait' => absurd (hwait.symm.trans hwait') (by decide)
    | uncontended hpc hwait =>
      cases hcall'.symm.trans hcall
      refine ⟨.getLease, setPc_calls_self .., ?_, onCourse_of_acquiring rfl⟩
      exact fun hwait' => absurd (hwait.symm.trans hwait') (by decide)
  | joined _ call' hcall' hpc hwait =>
    cases hcall'.symm.trans hcall
    have hempty : s.queues.queue call.lockName = [] := by
      rcases hqueue with hnowait | hempty
      · rw [hwait] at hnowait
        cases hnowait
      · exact hempty
    refine ⟨.isHead, setPc_calls_self .., fun _ => Or.inl ?_,
      onCourse_of_testing rfl hwait⟩
    show ((s.queues.join call.lockName c).queue call.lockName).head? = some c
    rw [LockQueues.queue_join, if_pos rfl, hempty]
    rfl

/-- The call has not reached its queue yet, or is on course. -/
def Served (s : Sys) (c : Nat) (call : AcquireCall) : Prop :=
  (∃ pc, s.calls c = some { call with pc := pc } ∧ pc.early = true) ∨
    ∃ pc, s.Reacquiring c { call with pc := pc }

/-- A call gets past its start by entering, or is refused for another reason than the lock. -/
theorem Advance.enters {pc : AcquirePc} (h : Advance s c call a pc)
    (hearly : call.pc.early = true) (hlate : pc.early = false) :
    a = .enter c ∨ ∃ e, pc = .returned (.error e) ∧ e ≠ .domain .lockAlreadyHeld := by
  have hnot : ∀ {pc' : AcquirePc}, call.pc = pc' → pc'.early = false →
      a = .enter c ∨ ∃ e, pc = .returned (.error e) ∧ e ≠ .domain .lockAlreadyHeld := by
    intro pc' hpc hpc'
    rw [← hpc, hearly] at hpc'
    cases hpc'
  cases h with
  | pc _ _ hstep =>
    cases hstep with
    | refused e _ he => exact Or.inr ⟨e, rfl, he⟩
    | admitted => cases hlate
    | contended => exact Or.inl rfl
    | uncontended => exact Or.inl rfl
    | _ => exact hnot ‹call.pc = _› rfl
  | joined => exact Or.inl rfl
  | _ => exact hnot ‹call.pc = _› rfl

/-- **A step keeps a call of the holder served**, unless it enters behind somebody. -/
theorem Served.step (h : s.Served c call) (hinv : Inv s) (hholds : s.Holds call)
    (hm : Moved s a s') (hheld' : s'.heldBy call.lockName call.leaseID = true)
    (hqueue : a = .enter c → call.wait = false ∨ s.queues.queue call.lockName = []) :
    s'.Served c call := by
  rcases h with ⟨pc₀, hcall, hearly⟩ | ⟨pc₀, h⟩
  · obtain ⟨pc, hcall', hmove⟩ := hm.call_next hcall
    cases hlate : pc.early with
    | true => exact Or.inl ⟨pc, hcall', hlate⟩
    | false =>
      refine Or.inr ?_
      rcases hmove with rfl | hadv
      · cases hearly.symm.trans hlate
      · rcases hadv.enters hearly hlate with rfl | ⟨e, rfl, he⟩
        · have hon := reacquiring_of_enter hm hcall (hqueue rfl)
          exact hon
        · exact ⟨_, hcall', fun _ => Or.inr ⟨_, rfl⟩, onCourse_returned (faithful_error he)⟩
  · exact Or.inr (h.step hinv hholds hm hheld')

theorem Served.faithful {result : AcquireResult} (h : s.Served c call)
    (hcall : s.calls c = some { call with pc := .returned result }) :
    s.Faithful call.lockName result := by
  rcases h with ⟨pc, hcall', hearly⟩ | ⟨pc, h⟩
  · cases hcall'.symm.trans hcall
    cases hearly
  · cases h.call_eq.symm.trans hcall
    exact h.onCourse.faithful result rfl

end Step

section Run

variable {t : Trace step} {c : Nat} {call : AcquireCall}

/-- A call of the holder that is served at one position is served later on. -/
theorem served_of_le (hinv : Inv t.start) {j k : Nat} (hjk : j ≤ k)
    (hserved : (t.state j).Served c call) (hholds : ∀ n, j ≤ n → n ≤ k → (t.state n).Holds call)
    (hqueue : ∀ n, j ≤ n → n < k → t.acts[n]? = some (.enter c) →
      call.wait = false ∨ (t.state n).queues.queue call.lockName = []) :
    (t.state k).Served c call := by
  refine t.invariant_from (I := fun s => s.Served c call) hjk hserved ?_
  intro n a s' hjn hnk hact hstep hI
  have hs' : s' = t.state (n + 1) := (t.state_succ hact hstep).symm
  refine hI.step (inv_state hinv n) (hholds n hjn (by omega)) (moved_of_step hstep)
    (hs' ▸ (hholds (n + 1) (by omega) (by omega)).1) ?_
  rintro rfl
  exact hqueue n hjn hnk hact

/-- In a run without obstructed holders every holder is served. -/
theorem holderServed_of_unobstructed (hinv : Inv t.start) (hsteps : t.Steps Unobstructed) :
    HolderServed t := by
  intro j k c call result hact hjk hholds hresult
  have hstart : (t.state (j + 1)).calls c = some { call with pc := .start } :=
    (moved_of_step (t.step_state hact)).calls_of_acquireLock
  refine Served.faithful (served_of_le hinv hjk (Or.inl ⟨.start, hstart, rfl⟩)
    (fun n hjn hnk => hholds n hjn hnk) ?_) hresult
  intro n hjn hnk henter
  obtain ⟨pc, hcall⟩ := calls_of_le hjn hstart
  cases hwait : call.wait with
  | false => exact Or.inl rfl
  | true =>
    have hempty := hsteps.at henter c rfl _ hcall (hholds n hjn (by omega)) hwait
    exact Or.inr hempty

/-- Without waiting, or with an empty queue, the call ends well. -/
theorem endsWell_of_unobstructed {s : Sys} (hinv : Inv s) (hcall : s.calls c = some call)
    (hpc : call.pc = .enter)
    (hqueue : call.wait = false ∨ s.queues.queue call.lockName = []) : s.EndsWell c call := by
  intro t hstart hact k hholds result hresult
  subst hstart
  cases k with
  | zero =>
    -- the call is still at its `enter`
    rw [Option.some.inj (hcall.symm.trans hresult)] at hpc
    cases hpc
  | succ k =>
    have hfirst : (t.state 1).Served c call :=
      Or.inr (reacquiring_of_enter (moved_of_step (t.step_state hact)) hcall hqueue)
    refine Served.faithful (served_of_le hinv (Nat.succ_le_succ (Nat.zero_le k)) hfirst
      (fun n _ hnk => hholds n hnk) ?_) hresult
    -- a call enters once
    intro n hn _ henter
    obtain ⟨call₁, hcall₁, hpc₁⟩ := (moved_of_step (t.step_state henter)).of_enter.1
    obtain ⟨call₂, hcall₂, hearly⟩ := entered_of_enter hact hn
    rw [Option.some.inj (hcall₂.symm.trans hcall₁), hpc₁] at hearly
    cases hearly

end Run

section Step

variable {s s' : Sys} {a : Act} {c : Nat} {call : AcquireCall}

/-! ## Behind somebody else

A holder that joins behind another waiter finds that it is not the head and parks; if its context is
then done it returns `ErrLockAlreadyHeld`. -/

theorem not_endsWell_of_obstructed (hinv : Inv s) (hcall : s.calls c = some call)
    (hpc : call.pc = .enter) (hwait : call.wait = true)
    (hqueue : s.queues.queue call.lockName ≠ []) (hholds : s.Holds call) :
    ¬ s.EndsWell c call := by
  -- the states after `enter`, `isHead`, `ctxDone` and `leave`
  let s₁ := { s with queues := s.queues.join call.lockName c }.setPc c call .isHead
  let s₂ := s₁.setPc c call .select
  let s₃ := s₂.setPc c call (.leaving alreadyHeld)
  let s₄ := { s₃ with queues := s₃.queues.leave call.lockName c }.setPc c call
    (.returned alreadyHeld)
  have hnotHead : s₁.queues.isHead call.lockName c = false := by
    have hjoin : s₁.queues.queue call.lockName = s.queues.queue call.lockName ++ [c] := by
      show (s.queues.join call.lockName c).queue call.lockName = _
      rw [LockQueues.queue_join, if_pos rfl]
    rw [LockQueues.isHead, hjoin, decide_eq_false_iff_not]
    intro hhead
    rcases head?_concat_eq_some hhead with hold | ⟨hempty, -⟩
    · obtain ⟨call', hcall', -, -, hqueued⟩ := hinv.queued _ c (List.mem_of_head? hold)
      cases hcall'.symm.trans hcall
      rw [hpc] at hqueued
      cases hqueued
    · exact hqueue hempty
  have h₁ : s.step (.enter c) = some s₁ := by
    simp [step, stepCall, hcall, hpc, hwait, s₁]
  have h₂ : s₁.step (.isHead c) = some s₂ := by
    have hcall₁ : s₁.calls c = some { call with pc := .isHead } := setPc_calls_self ..
    simp only [step, hcall₁, Option.bind_some, stepCall, hnotHead]
    rfl
  have h₃ : s₂.step (.ctxDone c) = some s₃ := by
    have hcall₂ : s₂.calls c = some { call with pc := .select } := setPc_calls_self ..
    simp only [step, hcall₂, Option.bind_some, stepCall]
    rfl
  have h₄ : s₃.step (.leave c) = some s₄ := by
    have hcall₃ : s₃.calls c = some { call with pc := .leaving alreadyHeld } :=
      setPc_calls_self ..
    simp only [step, hcall₃, Option.bind_some, stepCall]
    rfl
  let t : Trace step := ⟨s, [.enter c, .isHead c, .ctxDone c, .leave c],
    by simp [run, h₁, h₂, h₃, h₄]⟩
  have ht₁ : t.state 1 = s₁ := t.state_eq (by simp [t, run, h₁])
  have ht₂ : t.state 2 = s₂ := t.state_eq (by simp [t, run, h₁, h₂])
  have ht₃ : t.state 3 = s₃ := t.state_eq (by simp [t, run, h₁, h₂, h₃])
  have ht₄ : t.state 4 = s₄ := t.state_eq (by simp [t, run, h₁, h₂, h₃, h₄])
  -- none of the four steps touches the state machine, the tracker or the clock
  have hthroughout : ∀ n ≤ 4, (t.state n).Holds call := by
    intro n hn
    rcases (by omega : n = 0 ∨ n = 1 ∨ n = 2 ∨ n = 3 ∨ n = 4) with rfl | rfl | rfl | rfl | rfl
    · exact hholds
    · exact ht₁ ▸ hholds
    · exact ht₂ ▸ hholds
    · exact ht₃ ▸ hholds
    · exact ht₄ ▸ hholds
  intro hends
  have hfaithful := hends t rfl rfl 4 hthroughout alreadyHeld (ht₄ ▸ setPc_calls_self ..)
  exact hfaithful.1 rfl

end Step

/-- **When the holder acquires again in peace.** In every run in which no waiting call of a lease
that holds the lock enters behind somebody else, every call whose lease holds the lock from its
start to its end ends with the token of that lock, or with an error other than
`ErrLockAlreadyHeld`. And the condition is exact: from any state reached in which a call of the
holder is about to enter, all continuations end well for it only if it does not wait or nobody is
queued. -/
theorem holder_served {t : Trace step} {now : Int} {term : UInt64} {fsm : Machine}
    {pending : List CommandWrapper} (h0 : t.start = takeover now term fsm pending) :
    (t.Steps Unobstructed → HolderServed t) ∧
    ∀ k c call, (t.state k).calls c = some call → call.pc = .enter → (t.state k).Holds call →
      ((t.state k).EndsWell c call ↔
        call.wait = false ∨ (t.state k).queues.queue call.lockName = []) := by
  have hstart : Inv t.start := h0 ▸ inv_takeover now term fsm pending
  refine ⟨holderServed_of_unobstructed hstart, ?_⟩
  intro k c call hcall hpc hholds
  have hinv : Inv (t.state k) := inv_state hstart k
  refine ⟨?_, endsWell_of_unobstructed hinv hcall hpc⟩
  intro hends
  cases hwait : call.wait with
  | false => exact Or.inl rfl
  | true =>
    refine Or.inr ?_
    by_contra hqueue
    exact not_endsWell_of_obstructed hinv hcall hpc hwait hqueue hholds hends

/-- The call of the holder of `alpha`. -/
def holderCall : AcquireCall := ⟨"alpha", "client-1", 1, true, .start⟩

/-- The holder asks for its lock again, with nobody waiting. -/
def holderAlone : Trace step :=
  ⟨takeover 100 1 alphaHeld [],
    [.acquireLock 1 "alpha" "client-1" 1 true, .ensureLeader 1, .enter 1, .isHead 1,
      .heldByOther 1, .getLease 1, .alive 1, .propose 1 true, .apply, .leave 1], by decide⟩

theorem holder_served_holderAlone :
    holderAlone.Steps Unobstructed ∧
      (∀ n, 0 < n → n ≤ 10 → (holderAlone.state n).Holds holderCall) ∧
      (holderAlone.state 10).calls 1 = some { holderCall with pc := .returned (.ok ⟨1, 10⟩) } ∧
      (holderAlone.state 10).Faithful "alpha" (.ok ⟨1, 10⟩) := by
  have hsteps : holderAlone.Steps Unobstructed := by decide
  have hholds : ∀ n, 0 < n → n ≤ 10 → (holderAlone.state n).Holds holderCall := by
    have hall : ∀ n < 11, (holderAlone.state n).Holds holderCall := by decide
    exact fun n _ hn => hall n (by omega)
  have hreturned : (holderAlone.state 10).calls 1
      = some { holderCall with pc := .returned (.ok ⟨1, 10⟩) } := rfl
  exact ⟨hsteps, hholds, hreturned,
    (holder_served rfl).1 hsteps 0 10 1 holderCall _ rfl (by decide) hholds hreturned⟩

/-- Another client already waits for `alpha` when the holder asks for it again, and the holder's
context is done while it stands behind that client. -/
def holderSecond : Trace step :=
  ⟨takeover 100 1 alphaHeld [],
    [.acquireLock 0 "alpha" "client-2" 2 true, .ensureLeader 0, .enter 0, .isHead 0,
      .heldByOther 0, .acquireLock 1 "alpha" "client-1" 1 true, .ensureLeader 1, .enter 1,
      .isHead 1, .ctxDone 1, .leave 1], by decide⟩

/-- **The holder is told that the lock is held**: its lease holds `alpha` all along, is alive and
belongs to the caller, and the call ends with `ErrLockAlreadyHeld`. -/
theorem not_holderServed_holderSecond :
    holderSecond.start = takeover 100 1 alphaHeld [] ∧
      (∀ n ≤ 11, (holderSecond.state n).Holds holderCall) ∧
      (holderSecond.state 11).calls 1 = some { holderCall with pc := .returned alreadyHeld } ∧
      ¬ HolderServed holderSecond := by
  have hholds : ∀ n ≤ 11, (holderSecond.state n).Holds holderCall := by decide
  have hreturned : (holderSecond.state 11).calls 1
      = some { holderCall with pc := .returned alreadyHeld } := rfl
  refine ⟨rfl, hholds, hreturned, ?_⟩
  intro hserved
  have hfaithful := hserved 5 11 1 holderCall alreadyHeld rfl (by decide)
    (fun n _ hn => hholds n hn) hreturned
  exact hfaithful.1 rfl

end Sys

end Clavis
