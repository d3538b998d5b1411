import Clavis.Lib.Trace
import Clavis.State.Fencing
import Mathlib.Data.Fintype.Basic

/-!
# Clavis — calls that are sent more than once

`callWithFailover` sends a call again when an attempt ends without an answer. The attempt that ended
is not withdrawn: its copy of the call may still be on its way, or in the hands of a server that
does not stop working when its caller gives up, and it may be applied at any later time or never.

`tryCandidates` justifies this with the remark that every call is safe to repeat. For a release that
is so only as long as its lease does not take the lock again: the command names the lock and the
lease, not the tenure. `Retries` is the state machine with any number of clients that issue their
calls one at a time and have any number of copies in flight. `not_keepsLaterTenures_delayedRelease`
is a run in which a late copy of a release frees a later tenure; `keepsLaterTenures` shows that none
does as long as a lock is newly granted to a lease only when no release of that lock by that lease
is outstanding.

A waiting acquire may submit its command several times, but all its submissions before the last are
answered with `ErrLockAlreadyHeld` and change nothing, so a copy is applied once here.
-/

namespace Clavis

open Lib Machine

/-- The calls of the SDK that act on locks. -/
inductive ClientCall where
  | acquire (lockName ownerID : String) (leaseID : UInt64)
  | release (lockName : String) (leaseID : UInt64)
deriving DecidableEq

/-- The command a server makes of a call. -/
def ClientCall.cmd : ClientCall → CommandWrapper
  | acquire lockName ownerID leaseID => newAcquireLockCmd lockName ownerID leaseID
  | release lockName leaseID => newReleaseLockCmd lockName leaseID

/-- A call, or a copy of it, by the number it was issued under. -/
structure Copy where
  id : Nat
  call : ClientCall
deriving DecidableEq

/-- The replicated state, each client's call in progress, and the copies that may still arrive. -/
structure Retries (C : Type) where
  machine : Machine
  nextCall : Nat
  pending : C → Option Copy
  inFlight : List Copy

inductive Retries.Act (C : Type) where
  /-- A client that is not in a call makes one. -/
  | issue (c : C) (call : ClientCall)
  /-- It sends its call, for the first time or again. -/
  | send (c : C)
  /-- A copy is applied. -/
  | apply (n : Nat)
  /-- A copy is lost for good. -/
  | lose (n : Nat)
  /-- The call returns: with an answer, or because the client gives up. -/
  | finish (c : C)
  /-- Any other command is applied: leases are created and expire, endpoints change. -/
  | other (cmd : CommandWrapper)

namespace Retries

variable {C : Type} [DecidableEq C]

/-- No call has been made yet. -/
def init (m : Machine) : Retries C := ⟨m, 0, fun _ => none, []⟩

def step (s : Retries C) : Act C → Option (Retries C)
  | .issue c call =>
    if s.pending c = none then
      some { s with
        nextCall := s.nextCall + 1
        pending := Function.update s.pending c (some ⟨s.nextCall, call⟩) }
    else none
  | .send c => (s.pending c).map fun copy => { s with inFlight := s.inFlight ++ [copy] }
  | .apply n => s.inFlight[n]?.map fun copy =>
      { s with
        machine := s.machine.next copy.call.cmd
        inFlight := s.inFlight.eraseIdx n }
  | .lose n => s.inFlight[n]?.map fun _ => { s with inFlight := s.inFlight.eraseIdx n }
  | .finish c =>
    if (s.pending c).isSome then some { s with pending := Function.update s.pending c none }
    else none
  | .other cmd =>
    if cmd.type ≠ .acquireLock ∧ cmd.type ≠ .releaseLock then
      some { s with machine := s.machine.next cmd }
    else none

/-! ## The property -/

section Property

variable (t : Trace (step (C := C)))

/-- The `i`-th move issues the call under a number. -/
def IssuedAt (i id : Nat) (call : ClientCall) : Prop :=
  (∃ c, t.acts[i]? = some (.issue c call)) ∧ (t.state i).nextCall = id

/-- The `j`-th move applies a copy. -/
def AppliedAt (j : Nat) (copy : Copy) : Prop :=
  ∃ n, t.acts[j]? = some (.apply n) ∧ (t.state j).inFlight[n]? = some copy

/-- The `g`-th move newly grants a lock, with a token. -/
def GrantedAt (g : Nat) (L : String) (token : UInt64) : Prop :=
  ∃ copy, AppliedAt t g copy ∧ (t.state g).machine.Grants copy.call.cmd ∧
    copy.call.cmd.getAcquireLock.lockName = L ∧
    ((t.state g).machine.result copy.call.cmd).token = some token

/-- A copy of a release does not free a tenure that was granted after the release was issued. -/
def KeepsLaterTenures : Prop :=
  ∀ i g j L l copy lock, i < g → g < j → IssuedAt t i copy.id (.release L l) →
    GrantedAt t g L lock.fencingToken → AppliedAt t j copy →
    (t.state j).machine.getLock L = some lock → L ∉ (t.state j).machine.freed copy.call.cmd

end Property

/-- A call is outstanding while its client is in it or a copy of it may still arrive. -/
def Outstanding (s : Retries C) (copy : Copy) : Prop :=
  (∃ c, s.pending c = some copy) ∨ copy ∈ s.inFlight

/-- A release of the lock by the lease is outstanding. -/
def Releasing (s : Retries C) (L : String) (l : UInt64) : Prop :=
  (∃ c, (s.pending c).map Copy.call = some (.release L l)) ∨
    .release L l ∈ s.inFlight.map Copy.call

instance [Fintype C] (s : Retries C) (L : String) (l : UInt64) : Decidable (s.Releasing L l) :=
  inferInstanceAs (Decidable (_ ∨ _))

/-- A lock is newly granted to a lease only while no release of the lock by the lease is
outstanding. -/
def Suits (s : Retries C) : Act C → Prop
  | .apply n => ∀ copy ∈ s.inFlight[n]?, s.machine.Grants copy.call.cmd →
      ¬ s.Releasing copy.call.cmd.getAcquireLock.lockName copy.call.cmd.getAcquireLock.leaseId
  | .issue _ _ | .send _ | .lose _ | .finish _ | .other _ => True

instance [Fintype C] (s : Retries C) : (a : Act C) → Decidable (s.Suits a)
  | .apply _ => Option.decidableForallMem _
  | .issue _ _ | .send _ | .lose _ | .finish _ | .other _ => inferInstanceAs (Decidable True)

omit [DecidableEq C] in
theorem Outstanding.releasing {s : Retries C} {copy : Copy} {L : String} {l : UInt64}
    (hout : s.Outstanding copy) (hcall : copy.call = .release L l) : s.Releasing L l := by
  rcases hout with ⟨c, hc⟩ | hmem
  · exact Or.inl ⟨c, by rw [hc, Option.map_some, hcall]⟩
  · exact Or.inr (List.mem_map.mpr ⟨copy, hmem, hcall⟩)

/-! ## What one move does -/

section Moves

variable {s s' : Retries C} {a : Act C}

/-- **What a move does to the machine**: nothing, or it applies one command, which is a client's if
it is on a lock. -/
theorem machine_step (hstep : step s a = some s') :
    s'.machine = s.machine ∨
    (∃ n copy, a = .apply n ∧ s.inFlight[n]? = some copy ∧
      s'.machine = s.machine.next copy.call.cmd) ∨
    ∃ cmd, cmd.type ≠ .acquireLock ∧ s'.machine = s.machine.next cmd := by
  cases a with
  | issue c call =>
    obtain ⟨-, heq⟩ := Option.ite_none_right_eq_some.mp hstep
    cases heq
    exact Or.inl rfl
  | send c =>
    obtain ⟨copy, -, rfl⟩ := Option.map_eq_some_iff.mp hstep
    exact Or.inl rfl
  | apply n =>
    obtain ⟨copy, hcopy, rfl⟩ := Option.map_eq_some_iff.mp hstep
    exact Or.inr (Or.inl ⟨n, copy, rfl, hcopy, rfl⟩)
  | lose n =>
    obtain ⟨copy, -, rfl⟩ := Option.map_eq_some_iff.mp hstep
    exact Or.inl rfl
  | finish c =>
    obtain ⟨-, heq⟩ := Option.ite_none_right_eq_some.mp hstep
    cases heq
    exact Or.inl rfl
  | other cmd =>
    obtain ⟨⟨hacq, -⟩, heq⟩ := Option.ite_none_right_eq_some.mp hstep
    cases heq
    exact Or.inr (Or.inr ⟨cmd, hacq, rfl⟩)

/-- **Where outstanding calls come from**: a call is outstanding after a move if it was before, or
if it was just issued, under the next number. -/
theorem outstanding_step (hstep : step s a = some s') {copy : Copy} (hout : s'.Outstanding copy) :
    s.Outstanding copy ∨ (copy.id = s.nextCall ∧ s'.nextCall = s.nextCall + 1 ∧
      ∃ c, a = .issue c copy.call) := by
  cases a with
  | issue c call =>
    obtain ⟨-, heq⟩ := Option.ite_none_right_eq_some.mp hstep
    cases heq
    rcases hout with ⟨c', hc'⟩ | hmem
    · rcases update_eq_some hc' with ⟨-, hnew⟩ | ⟨-, hold⟩
      · cases hnew
        exact Or.inr ⟨rfl, rfl, c, rfl⟩
      · exact Or.inl (Or.inl ⟨c', hold⟩)
    · exact Or.inl (Or.inr hmem)
  | send c =>
    obtain ⟨sent, hsent, rfl⟩ := Option.map_eq_some_iff.mp hstep
    rcases hout with hpend | hmem
    · exact Or.inl (Or.inl hpend)
    · rcases List.mem_append.mp hmem with hold | hnew
      · exact Or.inl (Or.inr hold)
      · rw [List.mem_singleton.mp hnew]
        exact Or.inl (Or.inl ⟨c, hsent⟩)
  | apply n | lose n =>
    obtain ⟨gone, -, rfl⟩ := Option.map_eq_some_iff.mp hstep
    exact Or.inl (hout.imp_right List.mem_of_mem_eraseIdx)
  | finish c =>
    obtain ⟨-, heq⟩ := Option.ite_none_right_eq_some.mp hstep
    cases heq
    rcases hout with ⟨c', hc'⟩ | hmem
    · rcases update_eq_some hc' with ⟨-, hnew⟩ | ⟨-, hold⟩
      · cases hnew
      · exact Or.inl (Or.inl ⟨c', hold⟩)
    · exact Or.inl (Or.inr hmem)
  | other cmd =>
    obtain ⟨-, heq⟩ := Option.ite_none_right_eq_some.mp hstep
    cases heq
    exact Or.inl hout

theorem nextCall_step (hstep : step s a = some s') : s.nextCall ≤ s'.nextCall := by
  cases a with
  | issue | finish | other =>
    obtain ⟨-, heq⟩ := Option.ite_none_right_eq_some.mp hstep
    cases heq
    simp
  | send | apply | lose =>
    obtain ⟨copy, -, rfl⟩ := Option.map_eq_some_iff.mp hstep
    exact le_rfl

/-- **What a move does to one lock that is held after it**: it was held before by the same record,
or the move applied a copy that newly granted it. -/
theorem getLock_step (hstep : step s a = some s') {L : String} {lock : Lock}
    (hlock : s'.machine.getLock L = some lock) :
    s.machine.getLock L = some lock ∨
    ∃ n copy, a = .apply n ∧ s.inFlight[n]? = some copy ∧ s.machine.Grants copy.call.cmd ∧
      copy.call.cmd.getAcquireLock.lockName = L ∧
      copy.call.cmd.getAcquireLock.leaseId = lock.leaseID := by
  rcases machine_step hstep with hsame | ⟨n, copy, ha, hcopy, hnext⟩ | ⟨cmd, htype, hnext⟩
  · rw [hsame] at hlock
    exact Or.inl hlock
  · rw [hnext] at hlock
    rcases s.machine.getLock_next_cases copy.call.cmd L with
      hkept | ⟨hacq, rfl, hfree, htok, hgranted⟩ | ⟨-, -, hgone, -⟩
    · rw [hkept] at hlock
      exact Or.inl hlock
    · rw [hgranted] at hlock
      cases hlock
      refine Or.inr ⟨n, copy, ha, hcopy, ⟨hacq, hfree, ?_⟩, rfl, rfl⟩
      rw [htok]
      rfl
    · rw [hgone] at hlock
      cases hlock
  · rw [hnext] at hlock
    rcases s.machine.getLock_next_cases cmd L with hkept | ⟨hacq, -⟩ | ⟨-, -, hgone, -⟩
    · rw [hkept] at hlock
      exact Or.inl hlock
    · exact absurd hacq htype
    · rw [hgone] at hlock
      cases hlock

/-- A release frees a lock only from the lease it names. -/
theorem leaseID_of_freed {m : Machine} {L : String} {l : UInt64} {lock : Lock}
    (hfreed : L ∈ m.freed (ClientCall.release L l).cmd) (hlock : m.getLock L = some lock) :
    lock.leaseID = l := by
  rw [freed] at hfreed
  have hout := m.outcome (ClientCall.release L l).cmd
  generalize m.apply (ClientCall.release L l).cmd = a at hout hfreed
  cases hout with
  | rejected | ignored | created | reacquired | granted | upserted | removed =>
    exact absurd hfreed (Multiset.notMem_zero L)
  | released htype lock' hlock' hheld =>
    have hsame : m.getLock L = some lock' := hlock'
    rw [hlock] at hsame
    cases hsame
    exact hheld
  | expired htype => cases htype

end Moves

/-! ## Along a run -/

section Runs

variable {t : Trace (step (C := C))}

/-- Numbers are given out once. -/
theorem id_lt_nextCall {m : Machine} (hstart : t.start = init m) (k : Nat) :
    ∀ copy, (t.state k).Outstanding copy → copy.id < (t.state k).nextCall := by
  refine t.invariant (I := fun s => ∀ copy, s.Outstanding copy → copy.id < s.nextCall) ?_ ?_ k
  · rw [hstart]
    rintro copy (⟨c, hc⟩ | hmem)
    · cases hc
    · cases hmem
  · intro s a s' hstep hI copy hout
    rcases outstanding_step hstep hout with hold | ⟨hid, hnext, -⟩
    · exact (hI copy hold).trans_le (nextCall_step hstep)
    · omega

/-- What is outstanding under the number of an issued call is that call. -/
theorem call_of_issued {m : Machine} (hstart : t.start = init m) {i id : Nat} {call : ClientCall}
    (hissued : IssuedAt t i id call) {k : Nat} (hik : i < k) :
    id < (t.state k).nextCall ∧
      ∀ copy, (t.state k).Outstanding copy → copy.id = id → copy.call = call := by
  obtain ⟨⟨c, ha⟩, rfl⟩ := hissued
  refine t.invariant_from (I := fun s => (t.state i).nextCall < s.nextCall ∧
    ∀ copy, s.Outstanding copy → copy.id = (t.state i).nextCall → copy.call = call)
    (show i + 1 ≤ k from hik) ?_ ?_
  · have hstep := t.step_state ha
    have hnext : (t.state (i + 1)).nextCall = (t.state i).nextCall + 1 := by
      obtain ⟨-, heq⟩ := Option.ite_none_right_eq_some.mp hstep
      rw [← Option.some.inj heq]
    refine ⟨by omega, ?_⟩
    intro copy hout hid
    rcases outstanding_step hstep hout with hold | ⟨-, -, c', hc'⟩
    · have hlt := id_lt_nextCall hstart i copy hold
      omega
    · cases hc'
      rfl
  · intro j a s' hij _ _ hstep hI
    refine ⟨hI.1.trans_le (nextCall_step hstep), ?_⟩
    intro copy hout hid
    rcases outstanding_step hstep hout with hold | ⟨hid', -⟩
    · exact hI.2 copy hold hid
    · omega

theorem AppliedAt.outstanding {j : Nat} {copy : Copy} (h : AppliedAt t j copy) :
    (t.state j).Outstanding copy := by
  obtain ⟨n, -, hcopy⟩ := h
  exact Or.inr (List.mem_of_getElem? hcopy)

/-- A call that is outstanding late was outstanding ever since it was issued. -/
theorem outstanding_of_later {k j : Nat} (hkj : k ≤ j) {copy : Copy}
    (hid : copy.id < (t.state k).nextCall) (hout : (t.state j).Outstanding copy) :
    (t.state k).Outstanding copy := by
  by_contra hnone
  have hlater := t.invariant_from
    (I := fun s => copy.id < s.nextCall ∧ ¬ s.Outstanding copy) hkj ⟨hid, hnone⟩
    fun i a s' _ _ _ hstep hI => by
      refine ⟨hI.1.trans_le (nextCall_step hstep), fun hout' => ?_⟩
      rcases outstanding_step hstep hout' with hold | ⟨hid', -⟩
      · exact hI.2 hold
      · omega
  exact hlater.2 hout

/-- A lock that was free and is held later was granted in between, to the lease that holds it. -/
theorem exists_grant {g j : Nat} (hgj : g ≤ j) {L : String}
    (hfree : (t.state g).machine.getLock L = none) {lock : Lock}
    (hlock : (t.state j).machine.getLock L = some lock) :
    ∃ k copy, g ≤ k ∧ k < j ∧ AppliedAt t k copy ∧ (t.state k).machine.Grants copy.call.cmd ∧
      copy.call.cmd.getAcquireLock.lockName = L ∧
      copy.call.cmd.getAcquireLock.leaseId = lock.leaseID := by
  obtain ⟨k, a, hgk, hkj, ha, hbefore, hafter⟩ :=
    t.exists_change (P := fun s => s.machine.getLock L = some lock) hgj (by simp [hfree]) hlock
  rcases getLock_step (t.step_state ha) hafter with hold | ⟨n, copy, rfl, hcopy, h⟩
  · exact absurd hold hbefore
  · exact ⟨k, copy, hgk, hkj, ⟨n, ha, hcopy⟩, h⟩

/-- **A release ends no later tenure** as long as no lock is newly granted to a lease that has a
release of it outstanding. -/
theorem keepsLaterTenures {m : Machine} (t : Trace (step (C := C))) (hstart : t.start = init m)
    (hsuits : t.Steps Suits) : KeepsLaterTenures t := by
  intro i g j L l copy lock hig hgj hissued hgrant happlied hlock hfreed
  have hout : (t.state j).Outstanding copy := happlied.outstanding
  have hcall : copy.call = .release L l :=
    (call_of_issued hstart hissued (hig.trans hgj)).2 copy hout rfl
  rw [hcall] at hfreed
  have hlease : lock.leaseID = l := leaseID_of_freed hfreed hlock
  -- the tenure, or a later one of the same lease, was granted while the release was outstanding
  obtain ⟨granted, -, hgr, rfl, -⟩ := hgrant
  obtain ⟨k, acquire, hgk, hkj, ⟨n, ha, hacquire⟩, hgr', hL, hl⟩ :=
    exists_grant hgj.le hgr.2.1 hlock
  have hk : (t.state k).Outstanding copy :=
    outstanding_of_later hkj.le (call_of_issued hstart hissued (hig.trans_le hgk)).1 hout
  refine hsuits.at ha acquire hacquire hgr' ?_
  rw [hL, hl, hlease]
  exact hk.releasing hcall

end Runs

/-! ## A run that does and a run that does not -/

/-- One client takes a lock and releases it, another takes it, and then a second copy of the release
arrives. -/
def handedOver : Trace (step (C := Bool)) where
  start := init new
  acts := [.other createOne, .other (newCreateLeaseCmd "client-2" 1 1),
    .issue false (.acquire "alpha" "client-1" 1), .send false, .apply 0, .finish false,
    .issue false (.release "alpha" 1), .send false, .send false, .apply 1, .finish false,
    .issue true (.acquire "alpha" "client-2" 2), .send true, .apply 1, .finish true,
    .apply 0]
  enabled := by decide

theorem keepsLaterTenures_handedOver :
    handedOver.start = init new ∧ handedOver.Steps Suits ∧
      GrantedAt handedOver 13 "alpha" 2 ∧ AppliedAt handedOver 15 ⟨1, .release "alpha" 1⟩ ∧
      "alpha" ∉ (handedOver.state 15).machine.freed (newReleaseLockCmd "alpha" 1) := by
  have hsuits : handedOver.Steps Suits := by decide
  have hissued : IssuedAt handedOver 6 1 (.release "alpha" 1) := ⟨⟨false, rfl⟩, by decide⟩
  have hgrant : GrantedAt handedOver 13 "alpha" 2 :=
    ⟨⟨2, .acquire "alpha" "client-2" 2⟩, ⟨1, rfl, by decide⟩, by decide, rfl, by decide⟩
  have happlied : AppliedAt handedOver 15 ⟨1, .release "alpha" 1⟩ := ⟨0, rfl, by decide⟩
  have hlock : (handedOver.state 15).machine.getLock "alpha"
      = some ⟨"alpha", "client-2", 2, 2⟩ := by decide
  exact ⟨rfl, hsuits, hgrant, happlied, keepsLaterTenures handedOver rfl hsuits 6 13 15 "alpha" 1
    ⟨1, .release "alpha" 1⟩ _ (by omega) (by omega) hissued hgrant happlied hlock⟩

/-- A client takes a lock, releases it and takes it again. The first copy of the release is
overtaken by the second, whose answer lets the client go on. -/
def delayedRelease : Trace (step (C := Unit)) where
  start := init new
  acts := [.other createOne,
    .issue () (.acquire "alpha" "client-1" 1), .send (), .apply 0, .finish (),
    .issue () (.release "alpha" 1), .send (), .send (), .apply 1, .finish (),
    .issue () (.acquire "alpha" "client-1" 1), .send (), .apply 1, .finish (),
    .apply 0]
  enabled := by decide

/-- The late copy frees the tenure with token 2, which was granted after the release was issued. -/
theorem not_keepsLaterTenures_delayedRelease : ¬ KeepsLaterTenures delayedRelease := by
  intro hkeeps
  have hissued : IssuedAt delayedRelease 5 1 (.release "alpha" 1) := ⟨⟨(), rfl⟩, by decide⟩
  have hgrant : GrantedAt delayedRelease 12 "alpha" 2 :=
    ⟨⟨2, .acquire "alpha" "client-1" 1⟩, ⟨1, rfl, by decide⟩, by decide, rfl, by decide⟩
  have happlied : AppliedAt delayedRelease 14 ⟨1, .release "alpha" 1⟩ := ⟨0, rfl, by decide⟩
  have hlock : (delayedRelease.state 14).machine.getLock "alpha"
      = some ⟨"alpha", "client-1", 2, 1⟩ := by decide
  exact hkeeps 5 12 14 "alpha" 1 ⟨1, .release "alpha" 1⟩ _ (by omega) (by omega) hissued hgrant
    happlied hlock (by decide)

end Retries

end Clavis
