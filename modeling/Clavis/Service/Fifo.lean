import Clavis.Lib.Queue
import Clavis.Service.Calls

/-!
# Clavis — first come, first served

A call that waits in a lock's queue is not overtaken by a call that comes after it, whether that one
waits or not. The queue only decides who may try; so the statement is about the moment a later
call's entry is applied with success, and the argument is that such an entry does not exist while
the earlier call is queued.

`Sys.Behind s L w c` is the invariant: while `w` is queued, `c` is not between its tests and the end
of `acquire`, has no entry on its way, and stands behind `w` if it is queued itself. What makes it
inductive is that each of the three ways into `acquire` is closed: the head test by the order of the
queue, the check for waiters by `w` itself, and the holder's exemption by the assumption that the
lease of `c` does not hold the lock.
-/

namespace Clavis

open Lib

/-- Between the tests and the end of `acquire`: what the call does next may reach the log. -/
def AcquirePc.competing : AcquirePc → Bool
  | heldByOther | getLease | alive _ | propose | inFlight => true
  | _ => false

theorem AcquirePc.competing_of_early {pc : AcquirePc} (h : pc.early = true) :
    pc.competing = false := by
  cases pc with
  | start | enter => rfl
  | _ => cases h

theorem AcquireCall.competing_afterAcquire (call : AcquireCall) (result : AcquireResult) :
    (call.afterAcquire result).competing = false := by
  unfold afterAcquire
  split
  · split <;> rfl
  · rfl

namespace Sys

/-- While `w` is in the queue of `L`, nothing of `c` can be granted. -/
structure Held (s : Sys) (L : String) (w c : Nat) (call : AcquireCall) : Prop where
  pc : call.pc.competing = false
  pending : ∀ cmd, (cmd, some c) ∉ s.pending
  order : c ∈ s.queues.queue L → Before (s.queues.queue L) w c

/-- `c` calls for `L` and has come after `w`. -/
structure Behind (s : Sys) (L : String) (w c : Nat) (call : AcquireCall) : Prop where
  entered : ∃ call, s.calls w = some call ∧ call.pc.early = false
  call_eq : s.calls c = some call
  lockName_eq : call.lockName = L
  heldBy : call.wait = true → call.pc ≠ .heldBy
  held : w ∈ s.queues.queue L → s.Held L w c call

section Step

variable {s s' : Sys} {a : Act}

/-- Whoever has entered and is queued was queued before: nobody joins twice. -/
theorem Moved.mem_queue_of_entered (hm : Moved s a s') {L : String} {w : Nat}
    (h : ∃ call, s.calls w = some call ∧ call.pc.early = false) (hw : w ∈ s'.queues.queue L) :
    w ∈ s.queues.queue L := by
  rcases hm.mem_queue_cases hw with hold | ⟨call', hcall', hpc, -⟩
  · exact hold
  · obtain ⟨call, hcall, hearly⟩ := h
    rw [Option.some.inj (hcall.symm.trans hcall'), hpc] at hearly
    cases hearly

/-- A waiting call does not take the path of the others. -/
theorem Advance.ne_heldBy {c : Nat} {call : AcquireCall} {pc : AcquirePc}
    (h : Advance s c call a pc) (hwait : call.wait = true) : pc ≠ .heldBy := by
  have hafter : ∀ result, call.afterAcquire result ≠ .heldBy := by
    intro result
    unfold AcquireCall.afterAcquire
    rw [if_pos hwait]
    split <;> nofun
  cases h with
  | pc _ _ hstep =>
    cases hstep with
    | contended _ hwait' =>
      rw [hwait] at hwait'
      cases hwait'
    | leaseMissing | notProposed | applyFailed => exact hafter _
    | _ => nofun
  | dead | answered => exact hafter _
  | _ => nofun

/-- **The ways into `acquire` are closed** to a call behind `w`. -/
theorem Held.competing_next {L : String} {w c : Nat} {call : AcquireCall} {pc : AcquirePc}
    (h : s.Held L w c call) (hinv : Inv s) (hw : w ∈ s.queues.queue L) (hL : call.lockName = L)
    (hheld : call.pc = .heldBy → s.heldBy L call.leaseID = false)
    (hadv : Advance s c call a pc) : pc.competing = false := by
  have hnot : ∀ {pc' : AcquirePc}, call.pc = pc' → pc'.competing = true → pc.competing = false := by
    intro pc' hpc hcompeting
    rw [← hpc, h.pc] at hcompeting
    cases hcompeting
  cases hadv with
  | pc _ _ hstep =>
    cases hstep with
    | head hpc hhead =>
      -- the head test fails: `w` stands ahead
      rw [hL] at hhead
      have hhead : (s.queues.queue L).head? = some c := by simpa [LockQueues.isHead] using hhead
      exact absurd hhead ((h.order (List.mem_of_head? hhead)).head?_ne (hinv.nodup L))
    | uncontended hpc hwait hempty =>
      -- the check for waiters finds `w`
      rw [hL] at hempty
      have hlength := List.length_pos_of_mem hw
      simp only [LockQueues.hasWaiters, decide_eq_false_iff_not] at hempty
      exact absurd hlength hempty
    | holder hpc hholds =>
      rw [hL, hheld hpc] at hholds
      cases hholds
    | notHeldByOther hpc => exact hnot hpc rfl
    | leaseFound _ hpc => exact hnot hpc rfl
    | leaseMissing | notProposed | applyFailed => exact call.competing_afterAcquire _
    | _ => rfl
  | alive lease hpc => exact hnot hpc rfl
  | proposed hpc => exact hnot hpc rfl
  | dead | answered => exact call.competing_afterAcquire _
  | _ => rfl

/-- Joining and leaving keep the order of the queue. -/
theorem Moved.before_next (hm : Moved s a s') (hinv : Inv s) {L : String} {w c : Nat}
    (h : c ∈ s.queues.queue L → Before (s.queues.queue L) w c) (hw : w ∈ s.queues.queue L)
    (hw' : w ∈ s'.queues.queue L) (hc' : c ∈ s'.queues.queue L) :
    Before (s'.queues.queue L) w c := by
  rcases hm.queue_cases L with heq | ⟨x, _, -, -, -, -, -, heq, -⟩ | ⟨x, _, _, -, -, -, -, heq⟩
  · rw [heq] at hc' ⊢
    exact h hc'
  · rw [heq] at hc' ⊢
    rcases List.mem_append.mp hc' with hold | hnew
    · exact (h hold).concat x
    · cases List.mem_singleton.mp hnew
      exact before_concat hw
  · rw [heq] at hw' hc' ⊢
    have hne : ∀ y ∈ (s.queues.queue L).erase x, y ≠ x := by
      rintro y hy rfl
      exact (hinv.nodup L).not_mem_erase hy
    exact (h (List.mem_of_mem_erase hc')).erase (hne w hw') (hne c hc')

/-- **Every step keeps a later call behind**, as long as a non-waiting one does not find its own
lease holding the lock. -/
theorem Behind.step {L : String} {w c : Nat} {call : AcquireCall} (h : s.Behind L w c call)
    (hinv : Inv s) (hheld : call.wait = false → s.heldBy L call.leaseID = false)
    (hm : Moved s a s') : ∃ pc, s'.Behind L w c { call with pc := pc } := by
  obtain ⟨pc, hcall', hmove⟩ := hm.call_next h.call_eq
  have hexempt : call.pc = .heldBy → s.heldBy L call.leaseID = false := by
    intro hpc
    cases hwait : call.wait with
    | false => exact hheld hwait
    | true => exact absurd hpc (h.heldBy hwait)
  refine ⟨pc, hm.entered_next h.entered, hcall', h.lockName_eq, ?_, ?_⟩
  · intro hwait hpc
    rcases hmove with rfl | hadv
    · exact h.heldBy hwait hpc
    · exact hadv.ne_heldBy hwait hpc
  · -- `w` is queued after the step, so it was before, and `c` was held back then
    intro hw'
    have hw := hm.mem_queue_of_entered h.entered hw'
    have hold := h.held hw
    refine ⟨?_, ?_, hm.before_next hinv hold.order hw hw'⟩
    · rcases hmove with rfl | hadv
      · exact hold.pc
      · exact hold.competing_next hinv hw h.lockName_eq hexempt hadv
    · intro cmd hmem
      rcases hm.pending_cases hmem with hpending | ⟨_, -, heq⟩ | ⟨_, call', heq, hcall, hpc, -⟩
      · exact hold.pending cmd hpending
      · cases heq
      · -- only a competing call proposes
        cases heq
        have hcompeting := hold.pc
        rw [Option.some.inj (h.call_eq.symm.trans hcall), hpc] at hcompeting
        cases hcompeting

/-- A call that has not reached the queue is behind everybody who has. -/
theorem behind_of_early (hinv : Inv s) {L : String} {w c : Nat} {call : AcquireCall}
    (hw : ∃ call, s.calls w = some call ∧ call.pc.early = false) (hcall : s.calls c = some call)
    (hL : call.lockName = L) (hearly : call.pc.early = true) : s.Behind L w c call where
  entered := hw
  call_eq := hcall
  lockName_eq := hL
  heldBy := by
    intro _ hpc
    rw [hpc] at hearly
    cases hearly
  held := by
    intro _
    refine ⟨AcquirePc.competing_of_early hearly, ?_, ?_⟩
    · intro cmd hmem
      obtain ⟨call', hcall', -, hlate⟩ := hinv.pending cmd c hmem
      rw [Option.some.inj (hcall'.symm.trans hcall), hearly] at hlate
      cases hlate
    · intro hqueue
      obtain ⟨call', hcall', -, -, hqueued⟩ := hinv.queued L c hqueue
      rw [Option.some.inj (hcall'.symm.trans hcall)] at hqueued
      generalize call.pc = pc at hearly hqueued
      cases pc with
      | start | enter => cases hqueued
      | _ => cases hearly

end Step

/-! ## Whole runs -/

/-- At position `i` the waiting call `w` joins the queue of `L`. -/
def JoinedAt (t : Trace step) (i w : Nat) (L : String) : Prop :=
  t.acts[i]? = some (.enter w) ∧
    ∃ call, (t.state i).calls w = some call ∧ call.lockName = L ∧ call.wait = true

/-- At position `k` the entry of call `c` is applied and acquires `L`. -/
def GrantedAt (t : Trace step) (k c : Nat) (L : String) : Prop :=
  t.acts[k]? = some .apply ∧ ∃ call rest resp, (t.state k).calls c = some call ∧
    call.lockName = L ∧ (t.state k).pending = (call.cmd, some c) :: rest ∧
    (t.state k).fsm.result call.cmd = .ok (.acquireLock resp)

section Run

variable {t : Trace step} {L : String} {w c : Nat}

/-- Whoever has joined is past its `enter` from then on. -/
theorem JoinedAt.entered {i : Nat} (h : JoinedAt t i w L) {j : Nat} (hij : i < j) :
    ∃ call, (t.state j).calls w = some call ∧ call.pc.early = false := by
  exact entered_of_enter h.1 hij

/-- A call that is behind `w` at one position is behind it later on. -/
theorem behind_of_le (hstart : Inv t.start) {j k : Nat} (hjk : j ≤ k) {call : AcquireCall}
    (hbehind : (t.state j).Behind L w c call)
    (hheld : call.wait = false →
      ∀ n, j ≤ n → n ≤ k → (t.state n).heldBy L call.leaseID = false) :
    ∃ pc, (t.state k).Behind L w c { call with pc := pc } := by
  refine t.invariant_from (I := fun s => ∃ pc, s.Behind L w c { call with pc := pc }) hjk
    ⟨call.pc, hbehind⟩ ?_
  intro n a s' hjn hnk _ hstep hI
  obtain ⟨pc, hI⟩ := hI
  exact hI.step (inv_state hstart n) (fun hwait => hheld hwait n hjn (by omega))
    (moved_of_step hstep)

/-- Nothing of a call behind `w` is granted while `w` is queued. -/
theorem not_mem_of_behind {k : Nat} {call : AcquireCall}
    (h : (t.state k).Behind L w c call) (hgranted : GrantedAt t k c L) :
    w ∉ (t.state k).queues.queue L := by
  intro hw
  obtain ⟨-, call', rest, resp, -, -, hpending, -⟩ := hgranted
  refine (h.held hw).pending call'.cmd ?_
  rw [hpending]
  exact List.mem_cons_self

end Run

/-- **First come, first served.** Let `w` have joined the queue of `L` before the grant of `L` to
call `c`. If `c` was started after that, and its lease did not hold `L` at any moment from its start
to its grant, then `w` has left the queue. If `c` is a waiting call that joined after `w`, then `w`
has left the queue in any case. -/
theorem first_come_first_served {t : Trace step} {now : Int} {term : UInt64} {fsm : Machine}
    {pending : List CommandWrapper} (h0 : t.start = takeover now term fsm pending) {L : String}
    {w c i j k : Nat} (hjoined : JoinedAt t i w L) (hij : i < j) (hjk : j < k)
    (hgranted : GrantedAt t k c L) :
    (∀ ownerID leaseID wait, t.acts[j]? = some (.acquireLock c L ownerID leaseID wait) →
      (∀ n, j ≤ n → n ≤ k → (t.state n).heldBy L leaseID = false) →
      w ∉ (t.state k).queues.queue L) ∧
    (JoinedAt t j c L → w ∉ (t.state k).queues.queue L) := by
  have hstart : Inv t.start := h0 ▸ inv_takeover now term fsm pending
  refine ⟨?_, ?_⟩
  · -- `c` is behind `w` from its start on
    intro ownerID leaseID wait hact hheld
    have hcall : (t.state (j + 1)).calls c = some ⟨L, ownerID, leaseID, wait, .start⟩ :=
      (moved_of_step (t.step_state hact)).calls_of_acquireLock
    have hbehind := behind_of_early (inv_state hstart (j + 1))
      (hjoined.entered (Nat.lt_succ_of_lt hij)) hcall rfl rfl
    obtain ⟨pc, hbehind⟩ := behind_of_le hstart (Nat.succ_le_of_lt hjk) hbehind
      fun _ n hjn hnk => hheld n (by omega) hnk
    exact not_mem_of_behind hbehind hgranted
  · -- `c` is behind `w` just before it joins, and a waiting call needs no exemption
    intro hc
    obtain ⟨call, hcall, hpc⟩ := (moved_of_step (t.step_state hc.1)).of_enter.1
    obtain ⟨call', hcall', hL, hwait⟩ := hc.2
    obtain rfl : call' = call := Option.some.inj (hcall'.symm.trans hcall)
    have hbehind := behind_of_early (inv_state hstart j) (hjoined.entered hij) hcall hL
      (by rw [hpc]; rfl)
    obtain ⟨pc, hbehind⟩ := behind_of_le hstart (Nat.le_of_lt hjk) hbehind
      fun hnowait => absurd (hwait.symm.trans hnowait) (by decide)
    exact not_mem_of_behind hbehind hgranted

/-- Two clients wait for `alpha`, one behind the other; the first is granted the lock, leaves and
releases it, and then the second is granted it. -/
def inTurn : Trace step :=
  ⟨takeover 100 1 (Machine.new.replay [newCreateLeaseCmd "client-1" 10 5,
      newCreateLeaseCmd "client-2" 10 5]) [],
    [.acquireLock 0 "alpha" "client-1" 1 true, .ensureLeader 0, .enter 0,
      .acquireLock 1 "alpha" "client-2" 2 true, .ensureLeader 1, .enter 1,
      .isHead 0, .heldByOther 0, .getLease 0, .alive 0, .propose 0 true, .apply, .leave 0,
      .isHead 1, .heldByOther 1, .enqueue (newReleaseLockCmd "alpha" 1), .apply,
      .ready 1, .isHead 1, .heldByOther 1, .getLease 1, .alive 1, .propose 1 true, .apply],
    by decide⟩

theorem first_come_first_served_inTurn :
    JoinedAt inTurn 2 0 "alpha" ∧ JoinedAt inTurn 5 1 "alpha" ∧ GrantedAt inTurn 23 1 "alpha" ∧
      (∀ n, 3 ≤ n → n ≤ 23 → (inTurn.state n).heldBy "alpha" 2 = false) ∧
      0 ∉ (inTurn.state 23).queues.queue "alpha" := by
  have hw : JoinedAt inTurn 2 0 "alpha" := ⟨rfl, _, rfl, rfl, rfl⟩
  have hc : JoinedAt inTurn 5 1 "alpha" := ⟨rfl, _, rfl, rfl, rfl⟩
  have hgranted : GrantedAt inTurn 23 1 "alpha" := ⟨rfl, _, [], ⟨2, 10⟩, rfl, rfl, rfl, by decide⟩
  have hheld : ∀ n, 3 ≤ n → n ≤ 23 → (inTurn.state n).heldBy "alpha" 2 = false := by
    have hall : ∀ n < 24, 3 ≤ n → (inTurn.state n).heldBy "alpha" 2 = false := by decide
    exact fun n hle hlt => hall n (by omega) hle
  have hleft := (first_come_first_served rfl hw (by decide : 2 < 3) (by decide) hgranted).1
    "client-2" 2 true rfl hheld
  exact ⟨hw, hc, hgranted, hheld, hleft⟩

end Sys

end Clavis
