import Clavis.Service.WakeUp
import Clavis.State.Fencing

/-!
# Clavis — handed over as soon as it is freed

"If wait is true, the caller joins the lock's queue and is handed the lock, in arrival order, as
soon as it is freed." Arrival order is `Fifo`, and that no signal is lost is `WakeUp`; here is the
rest of the sentence. It is about time, so the system of calls gets a clock for one of them, the
waiting call `w`: its own steps are immediate, it takes a signal as soon as there is one, and the
entry it has proposed is applied within `commitTime`. All other calls, entries and expiries go on as
they like.

* `Waited` — the system as seen by `w`; `Waited.step` lets time pass only as far as `w` allows.
* `OnTheWay` — the invariant of a head whose lock nobody else holds: up to its proposal no time
  passes at all.
* `Head.proceeds`, `Head.rank_step` — the call does not hang: where time cannot pass there is
  something to do, and the call has few steps to make.
* `handed_over` — the headline: within one `commitTime` the head has the lock, or another lease has
  taken it, by an entry that was under way before.
-/

namespace Clavis

open Lib

/-- About to take a step of its own. -/
def AcquirePc.immediate : AcquirePc → Bool
  | isHead | heldByOther | getLease | alive _ | propose => true
  | _ => false

/-- How many steps the head of a queue has to make up to its proposal. -/
def AcquirePc.rank : AcquirePc → Nat
  | select => 6
  | isHead => 5
  | heldByOther => 4
  | getLease => 3
  | alive _ => 2
  | propose => 1
  | _ => 0

theorem AcquirePc.rank_le (pc : AcquirePc) : pc.rank ≤ 6 := by
  cases pc <;> simp [rank]

namespace Sys

/-- The call whose step it is. -/
def Act.caller : Act → Option Nat
  | .ensureLeader c | .enter c | .heldBy c | .isHead c | .heldByOther c | .getLease c | .alive c
  | .propose c _ | .applyFailed c | .ready c | .recheck c | .timeout c | .ctxDone c
  | .leave c => some c
  | _ => none

/-- The entry that a call waits for is on its way. -/
def Filed (s : Sys) (w : Nat) : Prop :=
  ∀ call, s.calls w = some call → call.pc = .inFlight → ∃ cmd, (cmd, some w) ∈ s.pending

section Step

variable {s s' : Sys} {a : Act}

/-- A step of a call advances it. -/
theorem Moved.of_caller {w : Nat} (h : Moved s a s') (hcaller : a.caller = some w) :
    ∃ call pc, s.calls w = some call ∧ s'.calls w = some { call with pc := pc } ∧
      Advance s w call a pc := by
  cases h with
  | pc _ c call pc hcall hstep =>
    obtain rfl : c = w := by
      cases hstep <;> exact Option.some.inj hcaller
    exact ⟨call, pc, hcall, setPc_calls_self .., .pc _ _ hstep⟩
  | joined c call hcall hpc hwait =>
    cases hcaller
    exact ⟨call, _, hcall, setPc_calls_self .., .joined hpc hwait⟩
  | alive c call lease pc hcall hpc hnext =>
    cases hcaller
    refine ⟨call, pc, hcall, setPc_calls_self .., ?_⟩
    rcases hnext with ⟨-, rfl⟩ | ⟨-, rfl⟩
    · exact .alive lease hpc
    · exact .dead lease hpc
  | proposed c call hcall hpc hleader =>
    cases hcaller
    exact ⟨call, _, hcall, setPc_calls_self .., .proposed hpc⟩
  | woken c call hcall hpc hready =>
    cases hcaller
    exact ⟨call, _, hcall, setPc_calls_self .., .woken hpc⟩
  | left c call result hcall hpc =>
    cases hcaller
    exact ⟨call, _, hcall, setPc_calls_self .., .left result hpc⟩
  | _ => cases hcaller

theorem afterAcquire_ne_inFlight (call : AcquireCall) (result : AcquireResult) :
    call.afterAcquire result ≠ .inFlight := by
  unfold AcquireCall.afterAcquire
  split
  · split <;> nofun
  · nofun

/-- A call comes to wait for an entry by proposing it. -/
theorem Advance.eq_propose {w : Nat} {call : AcquireCall} {pc : AcquirePc}
    (h : Advance s w call a pc) (hpc : pc = .inFlight) : a = .propose w true := by
  cases h with
  | proposed => rfl
  | dead | answered => exact absurd hpc (afterAcquire_ne_inFlight _ _)
  | pc _ _ hstep =>
    cases hstep with
    | leaseMissing | notProposed | applyFailed => exact absurd hpc (afterAcquire_ne_inFlight _ _)
    | _ => cases hpc
  | joined | alive | woken | left => cases hpc

/-- Only time moves the clock. -/
theorem Moved.now_eq (h : Moved s a s') (hnot : ∀ d, a ≠ .tick d) : s'.now = s.now := by
  cases h with
  | tick d => exact absurd rfl (hnot d)
  | apply cmd owner rest hpending =>
    rcases deliver_cases { s with
        fsm := s.fsm.next cmd
        pending := rest
        queues := s.queues.lockFreed (s.fsm.freed cmd) } owner (s.fsm.result cmd) with
      heq | ⟨c, call, -, -, -, heq⟩
    · rw [heq]
    · rw [heq]
      rfl
  | _ => rfl

/-- A head stays the head until it leaves. -/
theorem Moved.head_next (h : Moved s a s') {L : String} {w : Nat}
    (hhead : (s.queues.queue L).head? = some w) (hstays : a ≠ .leave w) :
    (s'.queues.queue L).head? = some w := by
  rcases h.queue_cases L with heq | ⟨c, _, -, -, -, -, -, heq, -⟩ | ⟨c, _, _, rfl, -, -, -, heq⟩
  · rw [heq]
    exact hhead
  · rw [heq, List.head?_append, hhead]
    rfl
  · have hne : (s.queues.queue L).head? ≠ some c := by
      intro hc
      rw [hhead] at hc
      cases hc
      exact hstays rfl
    rw [heq, head?_erase_of_head?_ne hne]
    exact hhead

/-- The tracker is asked about the lease the call has found. -/
theorem Moved.of_alive {w : Nat} {call : AcquireCall} {lease : Lease} (h : Moved s (.alive w) s')
    (hcall : s.calls w = some call) (hpc : call.pc = .alive lease)
    (hlives : (s.leases.alive s.term s.now lease).2 = true) :
    s'.calls w = some { call with pc := .propose } := by
  cases h with
  | pc _ _ _ _ _ hstep => cases hstep
  | alive _ call' lease' pc hcall' hpc' hnext =>
    obtain rfl : call' = call := Option.some.inj (hcall'.symm.trans hcall)
    rw [hpc] at hpc'
    cases hpc'
    rcases hnext with ⟨-, rfl⟩ | ⟨hdead, -⟩
    · exact setPc_calls_self ..
    · rw [hlives] at hdead
      cases hdead

/-- The call that waits for the entry applied gets its answer. -/
theorem Moved.calls_of_answered {w : Nat} {call : AcquireCall} (h : Moved s .apply s')
    (hcall : s.calls w = some call) (hpc : call.pc = .inFlight) {cmd : CommandWrapper}
    {rest : List (CommandWrapper × Option Nat)} (hpending : s.pending = (cmd, some w) :: rest) :
    s'.calls w = some { call with
      pc := call.afterAcquire (asAcquireLockResponse (s.fsm.result cmd)) } := by
  cases h with
  | pc _ _ _ _ _ hstep => cases hstep
  | apply cmd' owner rest' hpending' =>
    rw [hpending] at hpending'
    cases hpending'
    unfold deliver
    simp only [hcall, hpc, if_true]
    exact setPc_calls_self ..

/-- A leader drops no entries. -/
theorem Filed.step {w : Nat} (h : s.Filed w) (hm : Moved s a s') (hleader : s.leader = true) :
    s'.Filed w := by
  intro call' hcall' hpc'
  rcases hm.call_cases hcall' with ⟨-, hstart, -⟩ | ⟨call, hcall, rfl | ⟨pc, hadv, rfl⟩⟩
  · rw [hstart] at hpc'
    cases hpc'
  · obtain ⟨cmd, hmem⟩ := h call' hcall hpc'
    cases hm with
    | drop n hfollower =>
      rw [hleader] at hfollower
      cases hfollower
    | apply cmd' owner rest hpending =>
      have happly : Moved s .apply _ := .apply cmd' owner rest hpending
      rw [hpending] at hmem
      rcases List.mem_cons.mp hmem with heq | hrest
      · -- its own entry would have answered it
        cases heq
        rw [happly.calls_of_answered hcall hpc' hpending] at hcall'
        have hpc := congrArg AcquireCall.pc (Option.some.inj hcall')
        exact absurd (hpc.trans hpc') (afterAcquire_ne_inFlight _ _)
      · exact ⟨cmd, by rw [deliver_pending]; exact hrest⟩
    | enqueue | proposed => exact ⟨cmd, List.mem_append_left _ hmem⟩
    | _ => exact ⟨cmd, hmem⟩
  · obtain rfl := hadv.eq_propose hpc'
    cases hm with
    | pc _ c call₁ _ _ hstep => cases hstep
    | proposed c call₁ =>
      exact ⟨call₁.cmd, List.mem_append_right _ (List.mem_singleton.mpr rfl)⟩

end Step

/-- The lease of a call is there, belongs to the caller, and passes for alive when the call asks. -/
def Lives (s : Sys) (call : AcquireCall) : Prop :=
  (∃ lease ∈ s.fsm.getLease call.leaseID, lease.ownerID = call.ownerID) ∧
    match call.pc with
    | .alive lease => (s.leases.alive s.term s.now lease).2 = true
    | _ => True

instance (s : Sys) (call : AcquireCall) : Decidable (s.Lives call) :=
  have : Decidable (∃ lease ∈ s.fsm.getLease call.leaseID, lease.ownerID = call.ownerID) :=
    Option.decidableExistsMem _
  have : (pc : AcquirePc) → Decidable (match pc with
      | .alive lease => (s.leases.alive s.term s.now lease).2 = true
      | _ => True)
    | .alive _ => inferInstanceAs (Decidable (_ = true))
    | .start | .enter | .heldBy | .isHead | .heldByOther | .getLease | .propose | .inFlight
    | .select | .leaving _ | .returned _ => isTrue trivial
  inferInstanceAs (Decidable (_ ∧ _))

/-- The call has the lock, and knows its token. -/
def Granted (s : Sys) (w : Nat) (call : AcquireCall) : Prop :=
  ∃ resp lock, s.calls w = some { call with pc := .leaving (.ok resp) } ∧
    s.fsm.getLock call.lockName = some lock ∧ lock.leaseID = call.leaseID ∧
    lock.fencingToken = resp.fencingToken

/-- **The entry of a live lease takes a lock that nobody else holds.** -/
theorem granted_of_answered {s s' : Sys} {w : Nat} {call : AcquireCall} (hm : Moved s .apply s')
    (hinv : Inv s) (hcall : s.calls w = some call) (hwait : call.wait = true)
    (hpc : call.pc = .inFlight) {cmd : CommandWrapper} {rest : List (CommandWrapper × Option Nat)}
    (hpending : s.pending = (cmd, some w) :: rest) (hlives : s.Lives call)
    (hfree : s.heldByOther call.lockName call.leaseID = false) : s'.Granted w call := by
  obtain rfl := hinv.cmd_eq hcall hpending
  obtain ⟨⟨lease, hlease, howner⟩, -⟩ := hlives
  have hanswer := hm.calls_of_answered hcall hpc hpending
  suffices hok : ∃ resp, s.fsm.result call.cmd = .ok (.acquireLock resp) by
    obtain ⟨resp, hresp⟩ := hok
    have htoken : (s.fsm.result call.cmd).token = some resp.fencingToken := by
      rw [hresp]
      rfl
    obtain ⟨lock, hlock, htoken, hid⟩ := Machine.getLock_next_of_token htoken
    rw [hresp] at hanswer
    refine ⟨resp, lock, ?_, ?_, hid, htoken⟩
    · rw [hanswer]
      simp [AcquireCall.afterAcquire, hwait, asAcquireLockResponse, alreadyHeld]
    · rw [hm.fsm_of_apply hpending]
      exact hlock
  rcases s.fsm.acquireLock_cases call.lockName call.ownerID call.leaseID with
    ⟨hnone, -⟩ | ⟨lease', hlease', hother, -⟩ | ⟨_, _, -, -, -, hres⟩ | ⟨lock, hlock, hne, -, -⟩ |
    ⟨_, -, -, hres⟩
  · rw [hnone] at hlease
    cases hlease
  · rw [hlease'] at hlease
    cases hlease
    exact absurd howner hother
  · exact ⟨_, hres⟩
  · unfold heldByOther at hfree
    rw [hlock] at hfree
    simp [hne] at hfree
  · exact ⟨_, hres⟩

end Sys

/-- A node serving `AcquireLock` calls, with the time at which one of them moved last. -/
structure Waited where
  sys : Sys
  since : Int

namespace Waited

/-- A node that has just become leader. -/
def takeover (now : Int) (term : UInt64) (fsm : Machine) (pending : List CommandWrapper) : Waited :=
  ⟨.takeover now term fsm pending, now⟩

variable (commitTime w : Nat)

/-- How long the call may stay where it is. -/
def Stays (s : Waited) (time : Int) : AcquirePc → Prop
  | .select => w ∉ s.sys.queues.ready
  | .inFlight => time ≤ s.since + commitTime
  | .returned _ => True
  | _ => False

instance (s : Waited) (time : Int) : (pc : AcquirePc) → Decidable (s.Stays commitTime w time pc)
  | .select => inferInstanceAs (Decidable (w ∉ s.sys.queues.ready))
  | .inFlight => inferInstanceAs (Decidable (time ≤ s.since + commitTime))
  | .returned _ => isTrue trivial
  | .start => isFalse id
  | .enter => isFalse id
  | .heldBy => isFalse id
  | .isHead => isFalse id
  | .heldByOther => isFalse id
  | .getLease => isFalse id
  | .alive _ => isFalse id
  | .propose => isFalse id
  | .leaving _ => isFalse id

/-- Time may pass up to `time`. -/
def MayWait (s : Waited) (time : Int) : Prop :=
  ∀ call ∈ s.sys.calls w, s.Stays commitTime w time call.pc

instance (s : Waited) (time : Int) : Decidable (s.MayWait commitTime w time) :=
  Option.decidableForallMem _

def step (s : Waited) : Sys.Act → Option Waited
  | .tick d =>
    if s.MayWait commitTime w (s.sys.now + d) then
      some { s with sys := { s.sys with now := s.sys.now + d } }
    else none
  | a =>
    (s.sys.step a).map fun sys =>
      ⟨sys, if sys.calls w = s.sys.calls w then s.since else s.sys.now⟩

inductive Moved (s : Waited) : Sys.Act → Waited → Prop where
  | wait (d : Nat) (hwait : s.MayWait commitTime w (s.sys.now + d)) :
      Moved s (.tick d) { s with sys := { s.sys with now := s.sys.now + d } }
  | moved (a : Sys.Act) (sys : Sys) (hnot : ∀ d, a ≠ .tick d) (hstep : s.sys.step a = some sys) :
      Moved s a ⟨sys, if sys.calls w = s.sys.calls w then s.since else s.sys.now⟩

section Step

variable {commitTime w : Nat} {s s' : Waited} {a : Sys.Act}

theorem moved_of_step (h : s.step commitTime w a = some s') : Moved commitTime w s a s' := by
  by_cases htick : ∃ d, a = .tick d
  · obtain ⟨d, rfl⟩ := htick
    obtain ⟨hwait, heq⟩ := Option.ite_none_right_eq_some.mp h
    cases heq
    exact .wait d hwait
  · have hnot : ∀ d, a ≠ .tick d := fun d heq => htick ⟨d, heq⟩
    unfold step at h
    split at h
    · exact absurd rfl (hnot _)
    · obtain ⟨sys, hstep, rfl⟩ := Option.map_eq_some_iff.mp h
      exact .moved a sys hnot hstep

theorem Moved.sys (h : Moved commitTime w s a s') : Sys.Moved s.sys a s'.sys := by
  cases h with
  | wait d hwait => exact .tick d
  | moved a sys hnot hstep => exact Sys.moved_of_step hstep

end Step

/-! ## What holds in every run -/

/-- The call's entry is applied in time. -/
structure Timed (s : Waited) : Prop where
  since_le : s.since ≤ s.sys.now
  inFlight : ∀ call, s.sys.calls w = some call → call.pc = .inFlight →
    s.sys.now ≤ s.since + commitTime

structure Ok (s : Waited) : Prop where
  inv : s.sys.Inv
  parked : s.sys.Parked
  timed : s.Timed commitTime w

section Ok

variable {commitTime w : Nat} {s s' : Waited} {a : Sys.Act}

theorem ok_takeover (now : Int) (term : UInt64) (fsm : Machine) (pending : List CommandWrapper) :
    Ok commitTime w (takeover now term fsm pending) where
  inv := Sys.inv_takeover now term fsm pending
  parked := by
    intro L w call hhead
    cases hhead
  timed := by
    refine ⟨le_refl _, ?_⟩
    intro call hcall
    cases hcall

theorem Timed.step (h : s.Timed commitTime w) (hm : Moved commitTime w s a s') :
    s'.Timed commitTime w := by
  have hsince := h.since_le
  cases hm with
  | wait d hwait =>
    refine ⟨?_, ?_⟩
    · show s.since ≤ s.sys.now + d
      omega
    · intro call hcall hpc
      have hstays := hwait call hcall
      rw [hpc] at hstays
      exact hstays
  | moved a sys hnot hstep =>
    have hnow := (Sys.moved_of_step hstep).now_eq hnot
    refine ⟨?_, ?_⟩
    · show (if sys.calls w = s.sys.calls w then s.since else s.sys.now) ≤ sys.now
      split <;> omega
    · intro call hcall hpc
      show sys.now ≤ (if sys.calls w = s.sys.calls w then s.since else s.sys.now) + commitTime
      split
      · rename_i hsame
        have hle := h.inFlight call (hsame ▸ hcall) hpc
        omega
      · omega

theorem Ok.step (h : Ok commitTime w s) (hm : Moved commitTime w s a s') : Ok commitTime w s' :=
  ⟨h.inv.step hm.sys, h.parked.step h.inv hm.sys, h.timed.step hm⟩

end Ok

/-! ## On the way to the lock -/

/-- A step after which the call would end without the lock. -/
def ends (w : Nat) : Sys.Act → Bool
  | .propose c ok => c = w && !ok
  | .applyFailed c | .timeout c | .ctxDone c => c = w
  | _ => false

/-- The node leads and accepts what the call proposes, the call has time and its lease lives. -/
def Served (s : Waited) (a : Sys.Act) : Prop :=
  s.sys.leader = true ∧ ends w a = false ∧ ∀ call ∈ s.sys.calls w, s.sys.Lives call

instance (s : Waited) (a : Sys.Act) : Decidable (s.Served w a) :=
  have : Decidable (∀ call ∈ s.sys.calls w, s.sys.Lives call) := Option.decidableForallMem _
  inferInstanceAs (Decidable (_ ∧ _ ∧ _))

/-- There is something to do: time may pass, or the call has a step to make, or Raft has entries to
apply, that of the call among them. -/
def Proceeds (s : Waited) : Prop :=
  (∃ d : Nat, 0 < d ∧ s.MayWait commitTime w (s.sys.now + d)) ∨
  (∃ a : Sys.Act, a.caller = some w ∧ ends w a = false ∧ (s.step commitTime w a).isSome) ∨
  ((∃ cmd, (cmd, some w) ∈ s.sys.pending) ∧ (s.step commitTime w .apply).isSome)

/-- How many steps the call has to make. -/
def stepsLeft (s : Waited) : Nat :=
  match s.sys.calls w with
  | some call => call.pc.rank
  | none => 0

/-- Where the head of a queue is when nobody else holds its lock, with all it does before its
proposal done at `start`. -/
def OnTheWay (start : Int) (s : Waited) : AcquirePc → Prop
  | .select => w ∈ s.sys.queues.ready ∧ s.sys.now ≤ start
  | .isHead | .heldByOther | .getLease | .alive _ | .propose => s.sys.now ≤ start
  | .inFlight => s.since ≤ start
  | _ => False

/-- The call is the head of its queue and on its way. -/
structure Head (start : Int) (call : AcquireCall) (s : Waited) : Prop where
  head : (s.sys.queues.queue call.lockName).head? = some w
  wait : call.wait = true
  way : ∃ pc, s.sys.calls w = some { call with pc := pc } ∧ OnTheWay w start s pc

section Head

variable {commitTime w : Nat} {start : Int} {call : AcquireCall} {s s' : Waited} {a : Sys.Act}

/-- A head that has no answer is on its way. -/
theorem Ok.head (h : Ok commitTime w s)
    (hhead : (s.sys.queues.queue call.lockName).head? = some w)
    (hcall : s.sys.calls w = some call) (hanswer : call.pc.answer = none)
    (hfree : s.sys.heldByOther call.lockName call.leaseID = false) :
    s.Head w s.sys.now call := by
  obtain ⟨call', hcall', -, hwait, hqueued⟩ := h.inv.queued _ w (List.mem_of_head? hhead)
  obtain rfl : call' = call := Option.some.inj (hcall'.symm.trans hcall)
  refine ⟨hhead, hwait, call'.pc, hcall, ?_⟩
  have hready := h.parked _ w call' hhead hcall
  cases hpc : call'.pc with
  | select => exact ⟨hready hpc hfree, le_refl _⟩
  | isHead | heldByOther | getLease | alive | propose => exact le_refl s.sys.now
  | inFlight => exact h.timed.since_le
  | start | enter | heldBy | returned =>
    rw [hpc] at hqueued
    cases hqueued
  | leaving =>
    rw [hpc] at hanswer
    cases hanswer

theorem Head.now_le (h : s.Head w start call) (htimed : s.Timed commitTime w) :
    s.sys.now ≤ start + commitTime := by
  obtain ⟨pc, hcall, hway⟩ := h.way
  have hflight := htimed.inFlight _ hcall
  cases pc with
  | select =>
    have hnow := hway.2
    omega
  | isHead | heldByOther | getLease | alive | propose =>
    have hnow : s.sys.now ≤ start := hway
    omega
  | inFlight =>
    have hsince : s.since ≤ start := hway
    have hnow := hflight rfl
    omega
  | start | enter | heldBy | returned | leaving => exact hway.elim

theorem Head.ne_leave (h : s.Head w start call) {sys : Sys} (hm : Sys.Moved s.sys a sys) :
    a ≠ .leave w := by
  rintro rfl
  obtain ⟨pc, hcall, hway⟩ := h.way
  cases hm with
  | pc _ _ _ _ _ hstep => cases hstep
  | left _ call' result hcall' hpc =>
    rw [hcall] at hcall'
    cases hcall'
    cases hpc
    exact hway.elim

/-- What others do, and the passing of time, leave the call on its way. -/
theorem OnTheWay.stay {pc : AcquirePc} (hway : OnTheWay w start s pc)
    (hcall : s.sys.calls w = some { call with pc := pc })
    (hcall' : s'.sys.calls w = some { call with pc := pc }) (hm : Moved commitTime w s a s') :
    OnTheWay w start s' pc := by
  cases hm with
  | wait d hwait =>
    have hstays := hwait _ hcall
    cases pc with
    | select => exact absurd hway.1 hstays
    | inFlight => exact hway
    | isHead | heldByOther | getLease | alive | propose => exact hstays.elim
    | start | enter | heldBy | returned | leaving => exact hway.elim
  | moved a sys hnot hstep =>
    have hmoved := Sys.moved_of_step hstep
    have hnow := hmoved.now_eq hnot
    cases pc with
    | select =>
      refine ⟨hmoved.ready_mono hcall rfl hcall' hway.1, ?_⟩
      show sys.now ≤ start
      rw [hnow]
      exact hway.2
    | isHead | heldByOther | getLease | alive | propose =>
      show sys.now ≤ start
      rw [hnow]
      exact hway
    | inFlight =>
      show (if sys.calls w = s.sys.calls w then s.since else s.sys.now) ≤ start
      rw [if_pos (hcall'.trans hcall.symm)]
      exact hway
    | start | enter | heldBy | returned | leaving => exact hway.elim

/-- **One step of the call itself**: each test comes out in its favour, and its entry takes the
lock. -/
theorem Head.advance (h : s.Head w start call) (hinv : s.sys.Inv) (hserved : s.Served w a)
    (hfree : s.sys.heldByOther call.lockName call.leaseID = false) {sys : Sys}
    (hm : Sys.Moved s.sys a sys) {pc pc' : AcquirePc}
    (hcall : s.sys.calls w = some { call with pc := pc }) (hway : OnTheWay w start s pc)
    (hcall' : sys.calls w = some { call with pc := pc' })
    (hadv : Sys.Advance s.sys w { call with pc := pc } a pc') :
    (s.sys.now ≤ start ∧ pc'.rank < pc.rank ∧
        (pc'.immediate = true ∨ pc' = .inFlight ∧ pc = .propose)) ∨
      sys.Granted w call := by
  obtain ⟨hleader, hends, hlives⟩ := hserved
  have hlives := hlives _ hcall
  cases hadv with
  | pc _ _ hstep =>
    cases hstep with
    | refused _ hpc | admitted hpc | contended hpc | uncontended hpc | holder hpc
    | notHolder hpc =>
      cases hpc
      exact hway.elim
    | head hpc hhead =>
      cases hpc
      exact Or.inl ⟨hway, by decide, Or.inl rfl⟩
    | notHead hpc hhead =>
      -- it is the head
      simp [LockQueues.isHead, h.head] at hhead
    | heldByOther hpc hheld =>
      rw [hfree] at hheld
      cases hheld
    | notHeldByOther hpc hheld =>
      cases hpc
      exact Or.inl ⟨hway, by decide, Or.inl rfl⟩
    | leaseMissing hpc hlease =>
      obtain ⟨⟨lease, hsome, -⟩, -⟩ := hlives
      rw [hlease] at hsome
      cases hsome
    | leaseFound lease hpc hlease =>
      cases hpc
      exact Or.inl ⟨hway, by simp [AcquirePc.rank], Or.inl rfl⟩
    | notProposed | applyFailed | timeout | ctxDone => simp [ends] at hends
    | rechecked hpc hleads =>
      cases hpc
      exact Or.inl ⟨hway.2, by decide, Or.inl rfl⟩
    | redirected hpc hlost =>
      rw [hleader] at hlost
      cases hlost
  | joined hpc =>
    cases hpc
    exact hway.elim
  | alive lease hpc =>
    cases hpc
    exact Or.inl ⟨hway, by simp [AcquirePc.rank], Or.inl rfl⟩
  | dead lease hpc =>
    -- the tracker has said that the lease lives
    cases hpc
    rw [hm.of_alive hcall rfl hlives.2] at hcall'
    simp [AcquireCall.afterAcquire, h.wait, alreadyHeld] at hcall'
  | proposed hpc =>
    cases hpc
    exact Or.inl ⟨hway, by decide, Or.inr ⟨rfl, rfl⟩⟩
  | answered cmd rest hpc hpending =>
    cases hpc
    have hgranted := Sys.granted_of_answered hm hinv hcall h.wait rfl hpending hlives hfree
    exact Or.inr hgranted
  | woken hpc =>
    cases hpc
    exact Or.inl ⟨hway.2, by decide, Or.inl rfl⟩
  | left result hpc =>
    cases hpc
    exact hway.elim

theorem onTheWay_of_immediate {pc : AcquirePc} (hpc : pc.immediate = true)
    (hnow : s.sys.now ≤ start) : OnTheWay w start s pc := by
  cases pc with
  | isHead | heldByOther | getLease | alive | propose => exact hnow
  | _ => cases hpc

/-- **Every step keeps the head on its way, or gives it the lock.** -/
theorem Head.step (h : s.Head w start call) (hinv : s.sys.Inv) (hserved : s.Served w a)
    (hfree : s.sys.heldByOther call.lockName call.leaseID = false)
    (hm : Moved commitTime w s a s') : s'.Head w start call ∨ s'.sys.Granted w call := by
  obtain ⟨pc, hcall, hway⟩ := h.way
  have hhead := hm.sys.head_next h.head (h.ne_leave hm.sys)
  obtain ⟨pc', hcall', heq | hadv⟩ := hm.sys.call_next hcall
  · subst heq
    exact Or.inl ⟨hhead, h.wait, _, hcall', hway.stay hcall hcall' hm⟩
  · refine (h.advance hinv hserved hfree hm.sys hcall hway hcall' hadv).imp_left ?_
    rintro ⟨hnow, -, hpc'⟩
    refine ⟨hhead, h.wait, pc', hcall', ?_⟩
    cases hm with
    | wait d hwait =>
      cases hadv with
      | pc _ _ hstep => cases hstep
    | moved a sys hnot hstep =>
      have hsame := (Sys.moved_of_step hstep).now_eq hnot
      rcases hpc' with himm | ⟨rfl, rfl⟩
      · exact onTheWay_of_immediate himm (hsame.trans_le hnow)
      · show (if sys.calls w = s.sys.calls w then s.since else s.sys.now) ≤ start
        rw [if_neg (by rw [hcall', hcall]; simp)]
        exact hnow

/-- **A step of the call is one of those it has to make**, as long as it stays on its way. -/
theorem Head.rank_step (h : s.Head w start call) (hinv : s.sys.Inv) (hserved : s.Served w a)
    (hfree : s.sys.heldByOther call.lockName call.leaseID = false)
    (hm : Moved commitTime w s a s') (hnext : s'.Head w start call) :
    s'.stepsLeft w + (if a.caller = some w then 1 else 0) ≤ s.stepsLeft w := by
  obtain ⟨pc, hcall, hway⟩ := h.way
  obtain ⟨pc', hcall', hway'⟩ := hnext.way
  have hadvanced : Sys.Advance s.sys w { call with pc := pc } a pc' → pc'.rank < pc.rank := by
    intro hadv
    rcases h.advance hinv hserved hfree hm.sys hcall hway hcall' hadv with
      ⟨-, hlt, -⟩ | ⟨resp, lock, hgranted, -⟩
    · exact hlt
    · -- a call that has its answer is on its way no more
      rw [hcall'] at hgranted
      cases hgranted
      exact hway'.elim
  have hleft : s.stepsLeft w = pc.rank := by
    rw [stepsLeft, hcall]
  have hleft' : s'.stepsLeft w = pc'.rank := by
    rw [stepsLeft, hcall']
  rw [hleft, hleft']
  split
  · rename_i hcaller
    obtain ⟨call₁, pc₁, hcall₁, hcall₁', hadv⟩ := hm.sys.of_caller hcaller
    rw [hcall] at hcall₁
    cases hcall₁
    rw [hcall'] at hcall₁'
    cases hcall₁'
    exact hadvanced hadv
  · obtain ⟨pc₁, hcall₁, heq | hadv⟩ := hm.sys.call_next hcall
    · rw [hcall', heq] at hcall₁
      cases hcall₁
      exact le_refl _
    · rw [hcall'] at hcall₁
      cases hcall₁
      exact (hadvanced hadv).le

/-- A step of the call that is open is something to do. -/
theorem proceeds_of_call (hcall : s.sys.calls w = some call) (hcaller : a.caller = some w)
    (hends : ends w a = false) (hopen : (s.sys.stepCall w call a).isSome) :
    s.Proceeds commitTime w := by
  refine Or.inr (Or.inl ⟨a, hcaller, hends, ?_⟩)
  cases a with
  | ensureLeader | enter | heldBy | isHead | heldByOther | getLease | alive | propose
  | applyFailed | ready | recheck | timeout | ctxDone | leave =>
    cases hcaller
    simpa [Waited.step, Sys.step, hcall] using hopen
  | _ => cases hcaller

/-- **A head on its way does not hang.** -/
theorem Head.proceeds (h : s.Head w start call) (hfiled : s.sys.Filed w)
    (hleader : s.sys.leader = true) : s.Proceeds commitTime w := by
  obtain ⟨pc, hcall, hway⟩ := h.way
  cases pc with
  | select =>
    refine proceeds_of_call (a := .ready w) hcall rfl rfl ?_
    simp [Sys.stepCall, hway.1]
  -- the tests may come out either way
  | isHead =>
    refine proceeds_of_call (a := .isHead w) hcall rfl rfl ?_
    rw [Sys.stepCall, if_pos rfl]
    split <;> rfl
  | heldByOther =>
    refine proceeds_of_call (a := .heldByOther w) hcall rfl rfl ?_
    rw [Sys.stepCall, if_pos rfl]
    split <;> rfl
  | getLease =>
    refine proceeds_of_call (a := .getLease w) hcall rfl rfl ?_
    rw [Sys.stepCall, if_pos rfl]
    split <;> rfl
  | alive lease =>
    refine proceeds_of_call (a := .alive w) hcall rfl rfl ?_
    rw [Sys.stepCall]
    dsimp only
    split <;> rfl
  | propose =>
    refine proceeds_of_call (a := .propose w true) hcall rfl (by simp [ends]) ?_
    simp [Sys.stepCall, hleader]
  | inFlight =>
    by_cases htime : s.sys.now < s.since + commitTime
    · refine Or.inl ⟨(s.since + commitTime - s.sys.now).toNat, by omega, ?_⟩
      intro call' hcall'
      rw [hcall] at hcall'
      cases hcall'
      show s.sys.now + ((s.since + commitTime - s.sys.now).toNat : Int) ≤ s.since + commitTime
      omega
    · have hpending := hfiled _ hcall rfl
      refine Or.inr (Or.inr ⟨hpending, ?_⟩)
      obtain ⟨cmd, hmem⟩ := hpending
      obtain ⟨e, rest, heq⟩ := List.exists_cons_of_ne_nil (List.ne_nil_of_mem hmem)
      simp [Waited.step, Sys.step, Sys.apply, heq]
  | start | enter | heldBy | returned | leaving => exact hway.elim

end Head

/-! ## The lock is handed over -/

section Run

variable {commitTime w : Nat} {t : Trace (step commitTime w)} {now₀ : Int} {term : UInt64}
  {fsm : Machine} {pending : List CommandWrapper}

theorem ok_state (h0 : t.start = takeover now₀ term fsm pending) (k : Nat) :
    Ok commitTime w (t.state k) :=
  t.invariant (h0 ▸ ok_takeover now₀ term fsm pending)
    (fun _ _ _ hs hok => hok.step (moved_of_step hs)) k

theorem filed_state {i k : Nat} (hik : i ≤ k) (hfiled : (t.state i).sys.Filed w)
    (hserved : t.During (Served w) i k) : (t.state k).sys.Filed w := by
  refine t.invariant_from (I := fun s => s.sys.Filed w) hik hfiled ?_
  intro j a s' hij hjk ha hstep hfiled
  exact hfiled.step (moved_of_step hstep).sys (hserved j hjk hij a ha).1

/-- **A freed lock is handed over.** Once nobody else holds the lock of the head of a queue, and
while the node serves that call, the call gets the lock before more than `commitTime` has passed, or
another lease takes it: until then there is always something to do, and the call makes no more than
six steps. -/
theorem handed_over (h0 : t.start = takeover now₀ term fsm pending) {i k : Nat} (hik : i ≤ k)
    {call : AcquireCall} (hhead : ((t.state i).sys.queues.queue call.lockName).head? = some w)
    (hcall : (t.state i).sys.calls w = some call) (hwaits : call.pc.answer = none)
    (hfiled : (t.state i).sys.Filed w) (hserved : t.During (Served w) i k) :
    (∃ j, i ≤ j ∧ j ≤ k ∧ ((t.state j).sys.Granted w call ∨
      (t.state j).sys.heldByOther call.lockName call.leaseID = true)) ∨
    ((t.state k).sys.now ≤ (t.state i).sys.now + commitTime ∧
      ((t.state k).sys.leader = true → (t.state k).Proceeds commitTime w) ∧
      (t.between i k).countP (fun a => a.caller = some w) ≤ 6) := by
  rw [or_iff_not_imp_left]
  intro hnone
  have hfree : ∀ j, i ≤ j → j ≤ k →
      (t.state j).sys.heldByOther call.lockName call.leaseID = false := by
    intro j hij hjk
    refine Bool.eq_false_of_not_eq_true fun hheld => ?_
    exact hnone ⟨j, hij, hjk, Or.inr hheld⟩
  have hway : ∀ j, i ≤ j → j ≤ k → (t.state j).Head w (t.state i).sys.now call := by
    intro j hij hjk
    refine t.invariant_from hij
      ((ok_state h0 i).head hhead hcall hwaits (hfree i (le_refl i) hik)) ?_
    intro l a s' hil hlj ha hstep hway
    rcases hway.step (ok_state h0 l).inv (hserved l (by omega) hil a ha)
      (hfree l hil (by omega)) (moved_of_step hstep) with hway' | hgranted
    · exact hway'
    · rw [← t.state_succ ha hstep] at hgranted
      exact absurd ⟨l + 1, by omega, by omega, Or.inl hgranted⟩ hnone
  refine ⟨(hway k hik (le_refl k)).now_le (ok_state h0 k).timed, ?_, ?_⟩
  · exact (hway k hik (le_refl k)).proceeds (filed_state hik hfiled hserved)
  · have hcount := t.countP_le_measure (μ := stepsLeft w)
      (p := fun a => decide (a.caller = some w)) hik fun j a hij hjk ha => by
        have hstep := (hway j hij hjk.le).rank_step (ok_state h0 j).inv (hserved j hjk hij a ha)
          (hfree j hij hjk.le) (moved_of_step (t.step_state ha)) (hway (j + 1) (by omega) hjk)
        simpa using hstep
    refine hcount.trans ?_
    unfold stepsLeft
    split
    · exact AcquirePc.rank_le _
    · exact Nat.zero_le 6

end Run

/-- A client waits for `alpha`, which its holder releases at 102; the client is woken at once, and
its entry takes the 3 ns it may take. -/
def released : Trace (step 3 0) where
  start := takeover 100 1 Sys.alphaHeld []
  acts := [.acquireLock 0 "alpha" "client-2" 2 true, .ensureLeader 0, .enter 0, .isHead 0,
    .heldByOther 0, .tick 2, .enqueue (newReleaseLockCmd "alpha" 1), .apply, .ready 0, .isHead 0,
    .heldByOther 0, .getLease 0, .alive 0, .propose 0 true, .tick 3, .apply, .leave 0, .tick 1]
  enabled := by decide

theorem handed_over_released :
    (released.state 5).sys.heldByOther "alpha" 2 = true ∧ released.During (Served 0) 8 18 ∧
      (∃ j, 8 ≤ j ∧ j ≤ 18 ∧
        ((released.state j).sys.Granted 0 ⟨"alpha", "client-2", 2, true, .select⟩ ∨
          (released.state j).sys.heldByOther "alpha" 2 = true)) := by
  have hserved : released.During (Served 0) 8 18 := by decide
  have hfiled : (released.state 8).sys.Filed 0 := by
    intro call hcall hpc
    cases hcall
    cases hpc
  have hcall : (released.state 8).sys.calls 0
      = some ⟨"alpha", "client-2", 2, true, .select⟩ := rfl
  refine ⟨by decide, hserved, ?_⟩
  rcases handed_over rfl (by decide) (by decide) hcall rfl hfiled hserved with hover | ⟨hlate, -⟩
  · exact hover
  · exact absurd hlate (by decide)

end Waited

end Clavis
