import Clavis.Service.Acquire

/-!
# Clavis — calls, queues and pending entries

How the parts of the system move, one lemma per part: a call (`Moved.call_cases`), a queue
(`Moved.queue_cases`), the state machine, the pending entries and the signals. From them follows
`Sys.Inv`, what ties the parts together in every run: whoever is queued is a waiting call on its way
through the wait loop, and an entry in flight carries the command of the call it belongs to.
-/

namespace Clavis

open Lib

namespace AcquirePc

/-- The call has not touched its queue yet. -/
def early : AcquirePc → Bool
  | start | enter => true
  | _ => false

/-- Where a waiting call can be while it is queued. -/
def queued : AcquirePc → Bool
  | start | enter | heldBy | returned _ => false
  | _ => true

/-- The answer the call has, once it has one. -/
def answer : AcquirePc → Option AcquireResult
  | leaving result | returned result => some result
  | _ => none

end AcquirePc

theorem AcquireCall.answer_afterAcquire {call : AcquireCall} {result result' : AcquireResult}
    (h : (call.afterAcquire result).answer = some result') : result' = result := by
  unfold afterAcquire at h
  split at h
  · split at h <;> cases h
    rfl
  · cases h
    rfl

namespace Sys

/-- How one call moves. -/
inductive Advance (s : Sys) (c : Nat) (call : AcquireCall) : Act → AcquirePc → Prop where
  | pc (a : Act) (pc : AcquirePc) (hstep : PcStep s c call a pc) : Advance s c call a pc
  | joined (hpc : call.pc = .enter) (hwait : call.wait = true) :
      Advance s c call (.enter c) .isHead
  | alive (lease : Lease) (hpc : call.pc = .alive lease) : Advance s c call (.alive c) .propose
  | dead (lease : Lease) (hpc : call.pc = .alive lease) :
      Advance s c call (.alive c) (call.afterAcquire (.error (.domain .leaseExpired)))
  | proposed (hpc : call.pc = .propose) : Advance s c call (.propose c true) .inFlight
  | answered (cmd : CommandWrapper) (rest : List (CommandWrapper × Option Nat))
      (hpc : call.pc = .inFlight) (hpending : s.pending = (cmd, some c) :: rest) :
      Advance s c call .apply (call.afterAcquire (asAcquireLockResponse (s.fsm.result cmd)))
  | woken (hpc : call.pc = .select) : Advance s c call (.ready c) .isHead
  | left (result : AcquireResult) (hpc : call.pc = .leaving result) :
      Advance s c call (.leave c) (.returned result)

section Step

variable {s s' : Sys} {a : Act}

theorem setPc_calls (c : Nat) (call : AcquireCall) (pc : AcquirePc) (x : Nat) :
    (s.setPc c call pc).calls x = if x = c then some { call with pc := pc } else s.calls x := by
  show Function.update s.calls c _ x = _
  split
  · rename_i hx
    rw [hx, Function.update_self]
  · rename_i hx
    rw [Function.update_of_ne hx]

@[simp] theorem setPc_calls_self (s : Sys) (c : Nat) (call : AcquireCall) (pc : AcquirePc) :
    (s.setPc c call pc).calls c = some { call with pc := pc } :=
  Function.update_self ..

/-- `deliver` moves at most the call that waits for the entry. -/
theorem deliver_cases (s : Sys) (owner : Option Nat) (result : Result) :
    s.deliver owner result = s ∨
      ∃ c call, owner = some c ∧ s.calls c = some call ∧ call.pc = .inFlight ∧
        s.deliver owner result
          = s.setPc c call (call.afterAcquire (asAcquireLockResponse result)) := by
  unfold deliver
  split
  · exact Or.inl rfl
  · rename_i c
    split
    · rename_i call hcall
      split
      · exact Or.inr ⟨c, call, rfl, hcall, ‹_›, rfl⟩
      · exact Or.inl rfl
    · exact Or.inl rfl

@[simp] theorem deliver_fsm (s : Sys) (owner : Option Nat) (result : Result) :
    (s.deliver owner result).fsm = s.fsm := by
  rcases s.deliver_cases owner result with heq | ⟨c, call, -, -, -, heq⟩
  · rw [heq]
  · rw [heq]
    rfl

@[simp] theorem deliver_pending (s : Sys) (owner : Option Nat) (result : Result) :
    (s.deliver owner result).pending = s.pending := by
  rcases s.deliver_cases owner result with heq | ⟨c, call, -, -, -, heq⟩
  · rw [heq]
  · rw [heq]
    rfl

@[simp] theorem deliver_queues (s : Sys) (owner : Option Nat) (result : Result) :
    (s.deliver owner result).queues = s.queues := by
  rcases s.deliver_cases owner result with heq | ⟨c, call, -, -, -, heq⟩
  · rw [heq]
  · rw [heq]
    rfl

/-- **How a call moves**: it appears, stays or advances, and its arguments never change. -/
theorem Moved.call_cases (hm : Moved s a s') {x : Nat} {call' : AcquireCall}
    (hcall' : s'.calls x = some call') :
    (s.calls x = none ∧ call'.pc = .start ∧
      a = .acquireLock x call'.lockName call'.ownerID call'.leaseID call'.wait) ∨
    ∃ call, s.calls x = some call ∧
      (call' = call ∨ ∃ pc, Advance s x call a pc ∧ call' = { call with pc := pc }) := by
  -- a step of call `c` as seen by call `x`
  have hset : ∀ {r : Sys} {c : Nat} {call : AcquireCall} {pc : AcquirePc}, r.calls = s.calls →
      s.calls c = some call → (r.setPc c call pc).calls x = some call' →
      Advance s c call a pc → ∃ call, s.calls x = some call ∧
        (call' = call ∨ ∃ pc, Advance s x call a pc ∧ call' = { call with pc := pc }) := by
    intro r c call pc hr hcall hx hadv
    rw [setPc_calls] at hx
    split at hx
    · rename_i hxc
      subst hxc
      exact ⟨call, hcall, Or.inr ⟨pc, hadv, (Option.some.inj hx).symm⟩⟩
    · rw [hr] at hx
      exact ⟨call', hx, Or.inl rfl⟩
  cases hm with
  | acquireLock c lockName ownerID leaseID wait hfresh =>
    rcases update_some_eq_some hcall' with ⟨rfl, rfl⟩ | ⟨-, hold⟩
    · exact Or.inl ⟨hfresh, rfl, rfl⟩
    · exact Or.inr ⟨call', hold, Or.inl rfl⟩
  | apply cmd owner rest hpending =>
    rcases deliver_cases { s with
        fsm := s.fsm.next cmd
        pending := rest
        queues := s.queues.lockFreed (s.fsm.freed cmd) } owner (s.fsm.result cmd) with
      heq | ⟨c, call, hc, hcall, hpc, heq⟩
    · rw [heq] at hcall'
      exact Or.inr ⟨call', hcall', Or.inl rfl⟩
    · rw [heq] at hcall'
      rw [hc] at hpending
      exact Or.inr (hset rfl hcall hcall' (.answered cmd rest hpc hpending))
  | pc _ c call pc hcall hstep => exact Or.inr (hset rfl hcall hcall' (.pc _ _ hstep))
  | joined c call hcall hpc hwait => exact Or.inr (hset rfl hcall hcall' (.joined hpc hwait))
  | alive c call lease pc hcall hpc hpc' =>
    refine Or.inr (hset rfl hcall hcall' ?_)
    rcases hpc' with ⟨-, rfl⟩ | ⟨-, rfl⟩
    · exact .alive lease hpc
    · exact .dead lease hpc
  | proposed c call hcall hpc hleader => exact Or.inr (hset rfl hcall hcall' (.proposed hpc))
  | woken c call hcall hpc hready => exact Or.inr (hset rfl hcall hcall' (.woken hpc))
  | left c call result hcall hpc => exact Or.inr (hset rfl hcall hcall' (.left result hpc))
  | _ => exact Or.inr ⟨call', hcall', Or.inl rfl⟩

/-- A call never disappears and keeps its arguments. -/
theorem Moved.call_next (hm : Moved s a s') {x : Nat} {call : AcquireCall}
    (hcall : s.calls x = some call) :
    ∃ pc, s'.calls x = some { call with pc := pc } ∧ (pc = call.pc ∨ Advance s x call a pc) := by
  have hset : ∀ {r : Sys} {c : Nat} {call' : AcquireCall} {pc : AcquirePc}, r.calls = s.calls →
      ∃ call'', (r.setPc c call' pc).calls x = some call'' := by
    intro r c call' pc hr
    rw [setPc_calls, hr]
    split
    · exact ⟨_, rfl⟩
    · exact ⟨call, hcall⟩
  have hsome : ∃ call', s'.calls x = some call' := by
    cases hm with
    | acquireLock c lockName ownerID leaseID wait hfresh =>
      -- a call number is used once
      have hx : x ≠ c := by
        rintro rfl
        rw [hfresh] at hcall
        cases hcall
      exact ⟨call, (Function.update_of_ne hx ..).trans hcall⟩
    | apply cmd owner rest hpending =>
      rcases deliver_cases { s with
          fsm := s.fsm.next cmd
          pending := rest
          queues := s.queues.lockFreed (s.fsm.freed cmd) } owner (s.fsm.result cmd) with
        heq | ⟨c, call', -, -, -, heq⟩
      · rw [heq]
        exact ⟨call, hcall⟩
      · rw [heq]
        exact hset rfl
    | pc | joined | alive | proposed | woken | left => exact hset rfl
    | _ => exact ⟨call, hcall⟩
  obtain ⟨call', hcall'⟩ := hsome
  rcases hm.call_cases hcall' with ⟨hnone, -⟩ | ⟨call₀, hcall₀, hmove⟩
  · rw [hnone] at hcall
    cases hcall
  · obtain rfl : call₀ = call := Option.some.inj (hcall₀.symm.trans hcall)
    rcases hmove with rfl | ⟨pc, hadv, rfl⟩
    · exact ⟨call'.pc, hcall', Or.inl rfl⟩
    · exact ⟨pc, hcall', Or.inr hadv⟩

/-- `enter` is the step from the start of a call to its loop. -/
theorem Moved.of_enter {c : Nat} (hm : Moved s (.enter c) s') :
    (∃ call, s.calls c = some call ∧ call.pc = .enter) ∧
      ∃ call, s'.calls c = some call ∧ call.pc.early = false := by
  cases hm with
  | pc _ _ call pc hcall hstep =>
    cases hstep with
    | contended hpc => exact ⟨⟨call, hcall, hpc⟩, _, setPc_calls_self .., rfl⟩
    | uncontended hpc => exact ⟨⟨call, hcall, hpc⟩, _, setPc_calls_self .., rfl⟩
  | joined _ call hcall hpc => exact ⟨⟨call, hcall, hpc⟩, _, setPc_calls_self .., rfl⟩

theorem Moved.calls_of_acquireLock {c : Nat} {lockName ownerID : String} {leaseID : UInt64}
    {wait : Bool} (hm : Moved s (.acquireLock c lockName ownerID leaseID wait) s') :
    s'.calls c = some ⟨lockName, ownerID, leaseID, wait, .start⟩ := by
  cases hm with
  | acquireLock => exact Function.update_self ..
  | pc _ _ _ _ _ hstep => cases hstep

/-- The state machine moves by applying the next entry. -/
theorem Moved.fsm_cases (hm : Moved s a s') :
    s'.fsm = s.fsm ∨ ∃ cmd owner rest, a = .apply ∧ s.pending = (cmd, owner) :: rest ∧
      s'.fsm = s.fsm.next cmd := by
  cases hm with
  | apply cmd owner rest hpending =>
    exact Or.inr ⟨cmd, owner, rest, rfl, hpending, by rw [deliver_fsm]⟩
  | _ => exact Or.inl rfl

theorem Moved.fsm_of_apply (hm : Moved s .apply s') {cmd : CommandWrapper} {owner : Option Nat}
    {rest : List (CommandWrapper × Option Nat)} (hpending : s.pending = (cmd, owner) :: rest) :
    s'.fsm = s.fsm.next cmd := by
  cases hm with
  | apply cmd' owner' rest' hpending' =>
    rw [hpending] at hpending'
    cases hpending'
    rw [deliver_fsm]
  | pc _ c call pc hcall hstep => cases hstep

/-- A queue moves by a call that joins or leaves it. -/
theorem Moved.queue_cases (hm : Moved s a s') (L : String) :
    s'.queues.queue L = s.queues.queue L ∨
    (∃ c call, a = .enter c ∧ s.calls c = some call ∧ call.pc = .enter ∧ call.wait = true ∧
      call.lockName = L ∧ s'.queues.queue L = s.queues.queue L ++ [c] ∧
      s'.calls c = some { call with pc := .isHead }) ∨
    (∃ c call result, a = .leave c ∧ s.calls c = some call ∧ call.pc = .leaving result ∧
      call.lockName = L ∧ s'.queues.queue L = (s.queues.queue L).erase c) := by
  cases hm with
  | apply cmd owner rest hpending =>
    -- the hook signals, it moves nobody
    rw [deliver_queues]
    exact Or.inl (LockQueues.queue_lockFreed ..)
  | joined c call hcall hpc hwait =>
    have hqueue := s.queues.queue_join call.lockName L c
    by_cases hL : L = call.lockName
    · rw [if_pos hL, ← hL] at hqueue
      refine Or.inr (Or.inl ⟨c, call, rfl, hcall, hpc, hwait, hL.symm, hL ▸ hqueue, ?_⟩)
      exact setPc_calls_self ..
    · rw [if_neg hL] at hqueue
      exact Or.inl hqueue
  | left c call result hcall hpc =>
    have hqueue := s.queues.queue_leave call.lockName L c
    by_cases hL : L = call.lockName
    · rw [if_pos hL, ← hL] at hqueue
      exact Or.inr (Or.inr ⟨c, call, result, rfl, hcall, hpc, hL.symm, hL ▸ hqueue⟩)
    · rw [if_neg hL] at hqueue
      exact Or.inl hqueue
  | _ => exact Or.inl rfl

/-- An entry is old, has come from elsewhere, or has just been proposed by a call. -/
theorem Moved.pending_cases (hm : Moved s a s') {e : CommandWrapper × Option Nat}
    (hmem : e ∈ s'.pending) :
    e ∈ s.pending ∨ (∃ cmd, a = .enqueue cmd ∧ e = (cmd, none)) ∨
      ∃ c call, e = (call.cmd, some c) ∧ s.calls c = some call ∧ call.pc = .propose ∧
        s'.calls c = some { call with pc := .inFlight } := by
  cases hm with
  | enqueue cmd =>
    rcases List.mem_append.mp hmem with hold | hnew
    · exact Or.inl hold
    · exact Or.inr (Or.inl ⟨cmd, rfl, List.mem_singleton.mp hnew⟩)
  | drop n hleader => exact Or.inl (List.mem_of_mem_take hmem)
  | apply cmd owner rest hpending =>
    -- an answered call does not touch the entries
    rw [deliver_pending] at hmem
    exact Or.inl (by rw [hpending]; exact List.mem_cons_of_mem _ hmem)
  | proposed c call hcall hpc hleader =>
    rcases List.mem_append.mp hmem with hold | hnew
    · exact Or.inl hold
    · exact Or.inr (Or.inr ⟨c, call, List.mem_singleton.mp hnew, hcall, hpc,
        setPc_calls_self ..⟩)
  | _ => exact Or.inl hmem

/-! ## The invariant -/

/-- The call is of this kind: it waits for this lock and is on its way through the wait loop. -/
def Queued (s : Sys) (L : String) (w : Nat) : Prop :=
  ∃ call, s.calls w = some call ∧ call.lockName = L ∧ call.wait = true ∧ call.pc.queued = true

/-- What ties calls, queues and entries together in every run. -/
structure Inv (s : Sys) : Prop where
  nodup : ∀ L, (s.queues.queue L).Nodup
  queued : ∀ L, ∀ w ∈ s.queues.queue L, s.Queued L w
  pending : ∀ cmd c, (cmd, some c) ∈ s.pending →
    ∃ call, s.calls c = some call ∧ call.cmd = cmd ∧ call.pc.early = false

/-- A call past its queue access stays past it. -/
theorem Advance.early_eq_false {c : Nat} {call : AcquireCall} {pc : AcquirePc}
    (h : Advance s c call a pc) (hpc : call.pc.early = false) : pc.early = false := by
  have hafter : ∀ result, (call.afterAcquire result).early = false := by
    intro result
    unfold AcquireCall.afterAcquire
    split
    · split <;> rfl
    · rfl
  cases h with
  | pc _ _ hstep =>
    cases hstep with
    | refused _ hpc' => rfl
    | admitted hpc' =>
      rw [hpc'] at hpc
      cases hpc
    | leaseMissing | notProposed | applyFailed => exact hafter _
    | _ => rfl
  | dead | answered => exact hafter _
  | _ => rfl

theorem Moved.entered_next (hm : Moved s a s') {w : Nat}
    (h : ∃ call, s.calls w = some call ∧ call.pc.early = false) :
    ∃ call, s'.calls w = some call ∧ call.pc.early = false := by
  obtain ⟨call, hcall, hearly⟩ := h
  obtain ⟨pc, hcall', hpc | hadv⟩ := hm.call_next hcall
  · exact ⟨_, hcall', by rw [hpc]; exact hearly⟩
  · exact ⟨_, hcall', hadv.early_eq_false hearly⟩

/-- A queued call stays in the wait loop until it leaves. -/
theorem Advance.queued_eq_true {c : Nat} {call : AcquireCall} {pc : AcquirePc}
    (h : Advance s c call a pc) (hwait : call.wait = true) (hpc : call.pc.queued = true)
    (hleave : a ≠ .leave c) : pc.queued = true := by
  have hafter : ∀ result, (call.afterAcquire result).queued = true := by
    intro result
    unfold AcquireCall.afterAcquire
    rw [if_pos hwait]
    split <;> rfl
  cases h with
  | pc _ _ hstep =>
    cases hstep with
    | refused _ hpc' => rw [hpc'] at hpc; cases hpc
    | admitted hpc' => rw [hpc'] at hpc; cases hpc
    | contended hpc' => rw [hpc'] at hpc; cases hpc
    | notHolder hpc' => rw [hpc'] at hpc; cases hpc
    | leaseMissing | notProposed | applyFailed => exact hafter _
    | _ => rfl
  | dead | answered => exact hafter _
  | left => exact absurd rfl hleave
  | _ => rfl

theorem Moved.queue_of_leave {c : Nat} {call : AcquireCall} (hm : Moved s (.leave c) s')
    (hcall : s.calls c = some call) :
    s'.queues.queue call.lockName = (s.queues.queue call.lockName).erase c := by
  cases hm with
  | left _ call' result hcall' hpc =>
    obtain rfl : call' = call := Option.some.inj (hcall'.symm.trans hcall)
    have hqueue := s.queues.queue_leave call'.lockName call'.lockName c
    rw [if_pos rfl] at hqueue
    exact hqueue
  | pc _ c' call' pc hcall' hstep => cases hstep

/-- A member of a queue after a step was one before, or has just joined. -/
theorem Moved.mem_queue_cases (hm : Moved s a s') {L : String} {w : Nat}
    (hw : w ∈ s'.queues.queue L) :
    w ∈ s.queues.queue L ∨ ∃ call, s.calls w = some call ∧ call.pc = .enter ∧ call.wait = true ∧
      call.lockName = L ∧ s'.calls w = some { call with pc := .isHead } := by
  rcases hm.queue_cases L with heq | ⟨c, call, -, hcall, hpc, hwait, hL, heq, hcall'⟩ |
    ⟨c, call, result, -, -, -, -, heq⟩
  · exact Or.inl (heq ▸ hw)
  · rw [heq] at hw
    rcases List.mem_append.mp hw with hold | hnew
    · exact Or.inl hold
    · cases List.mem_singleton.mp hnew
      exact Or.inr ⟨call, hcall, hpc, hwait, hL, hcall'⟩
  · rw [heq] at hw
    exact Or.inl (List.mem_of_mem_erase hw)

/-- The entry a call waits for carries the call's command. -/
theorem Inv.cmd_eq (h : Inv s) {c : Nat} {call : AcquireCall} (hcall : s.calls c = some call)
    {cmd : CommandWrapper} {rest : List (CommandWrapper × Option Nat)}
    (hpending : s.pending = (cmd, some c) :: rest) : cmd = call.cmd := by
  obtain ⟨call', hcall', hcmd, -⟩ := h.pending cmd c (by rw [hpending]; exact List.mem_cons_self)
  rw [← hcmd, Option.some.inj (hcall'.symm.trans hcall)]

/-- **Every step keeps the invariant.** -/
theorem Inv.step (h : Inv s) (hm : Moved s a s') : Inv s' where
  nodup := by
    intro L
    rcases hm.queue_cases L with
      heq | ⟨c, call, -, hcall, hpc, -, -, heq, -⟩ | ⟨c, _, _, -, -, -, -, heq⟩
    · rw [heq]
      exact h.nodup L
    · -- a call that joins is not queued yet
      rw [heq, List.nodup_append]
      refine ⟨h.nodup L, List.nodup_singleton _, ?_⟩
      rintro w hw _ hc rfl
      cases List.mem_singleton.mp hc
      obtain ⟨call', hcall', -, -, hqueued⟩ := h.queued L c hw
      rw [Option.some.inj (hcall'.symm.trans hcall), hpc] at hqueued
      cases hqueued
    · rw [heq]
      exact (h.nodup L).erase c
  queued := by
    intro L w hw
    rcases hm.mem_queue_cases hw with hold | ⟨call, -, -, hwait, hL, hcall'⟩
    · obtain ⟨call, hcall, hL, hwait, hqueued⟩ := h.queued L w hold
      obtain ⟨pc, hcall', hmove⟩ := hm.call_next hcall
      refine ⟨_, hcall', hL, hwait, ?_⟩
      rcases hmove with rfl | hadv
      · exact hqueued
      · refine hadv.queued_eq_true hwait hqueued ?_
        -- whoever leaves is gone from its queue
        rintro rfl
        rw [← hL, hm.queue_of_leave hcall] at hw
        exact (List.Nodup.not_mem_erase (h.nodup _)) hw
    · exact ⟨_, hcall', hL, hwait, rfl⟩
  pending := by
    intro cmd c hmem
    rcases hm.pending_cases hmem with hold | ⟨_, -, heq⟩ | ⟨_, call, heq, -, -, hcall'⟩
    · obtain ⟨call, hcall, hcmd, hearly⟩ := h.pending cmd c hold
      obtain ⟨pc, hcall', hmove⟩ := hm.call_next hcall
      refine ⟨_, hcall', hcmd, ?_⟩
      rcases hmove with rfl | hadv
      · exact hearly
      · exact hadv.early_eq_false hearly
    · cases heq
    · cases heq
      exact ⟨_, hcall', rfl, rfl⟩

end Step

/-- A new leader's system is in order. -/
theorem inv_takeover (now : Int) (term : UInt64) (fsm : Machine) (pending : List CommandWrapper) :
    Inv (takeover now term fsm pending) where
  nodup := fun _ => List.nodup_nil
  queued := by
    intro L w hw
    cases hw
  pending := by
    intro cmd c hmem
    simp [takeover] at hmem

/-- A call keeps its arguments through a run. -/
theorem calls_of_le {t : Trace step} {c j k : Nat} (hjk : j ≤ k) {call : AcquireCall}
    (hcall : (t.state j).calls c = some call) :
    ∃ pc, (t.state k).calls c = some { call with pc := pc } := by
  refine t.invariant_from (I := fun s => ∃ pc, s.calls c = some { call with pc := pc }) hjk
    ⟨call.pc, hcall⟩ ?_
  intro n a s' _ _ _ hstep hI
  obtain ⟨pc, hI⟩ := hI
  obtain ⟨pc', hcall', -⟩ := (moved_of_step hstep).call_next hI
  exact ⟨pc', hcall'⟩

/-- A call is past its `enter` after that step. -/
theorem entered_of_enter {t : Trace step} {c i j : Nat} (hact : t.acts[i]? = some (.enter c))
    (hij : i < j) : ∃ call, (t.state j).calls c = some call ∧ call.pc.early = false :=
  t.invariant_from (I := fun s => ∃ call, s.calls c = some call ∧ call.pc.early = false)
    (Nat.succ_le_of_lt hij) (moved_of_step (t.step_state hact)).of_enter.2
    fun _ _ _ _ _ _ hstep hI => (moved_of_step hstep).entered_next hI

theorem inv_state {t : Trace step} (h0 : Inv t.start) (k : Nat) : Inv (t.state k) :=
  t.invariant h0 (fun _ _ _ hs hI => hI.step (moved_of_step hs)) k

end Sys

end Clavis
