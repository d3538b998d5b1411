import Clavis.Service.Calls
import Clavis.State.Fencing

/-!
# Clavis — acquiring on a leader that lags

A node leads from the moment it wins its election, and its state machine may then still have
committed entries of earlier leaders to apply. `RenewLease` waits for them with a barrier before it
looks a lease up. `CheckLeaseAlive`, on the way of every acquire, does not.

So whether a live lease is found depends on how far the new leader has got, and on nothing else:
`finds_lease_iff` says that no acquire is told `ErrLeaseNotFound` for a lease that nobody expires
exactly if the entry that created the lease is among those already applied.
-/

namespace Clavis

open Lib

/-! ## What a prefix of the log knows -/

/-- The `i`-th command of the log creates the lease. -/
def CreatedAt (log : List CommandWrapper) (i : Nat) (l : UInt64) : Prop :=
  ∃ c, log[i]? = some c ∧ ((stateAt log i).result c).newLease = some l

section Prefix

variable {log : List CommandWrapper} {l : UInt64}

theorem keyed_stateAt (k : Nat) : (stateAt log k).Keyed := by
  induction k with
  | zero =>
    intro id lease hlease
    cases (Machine.new_getLease id).symm.trans hlease
  | succ k ih =>
    cases hc : log[k]? with
    | none =>
      rw [stateAt_succ_of_none hc]
      exact ih
    | some c =>
      rw [stateAt_succ hc]
      exact ih.next

/-- A lease that nobody expires is there exactly after its creation. -/
theorem isSome_getLease_stateAt (hkept : ∀ cmd ∈ log, cmd.expires ≠ some l) (k : Nat) :
    ((stateAt log k).getLease l).isSome ↔ ∃ i < k, CreatedAt log i l := by
  induction k with
  | zero =>
    have hnone : (stateAt log 0).getLease l = none := Machine.new_getLease l
    rw [hnone]
    exact ⟨nofun, fun ⟨i, hi, _⟩ => absurd hi (Nat.not_lt_zero i)⟩
  | succ k ih =>
    cases hc : log[k]? with
    | none =>
      -- past the end of the log nothing happens
      rw [stateAt_succ_of_none hc, ih]
      refine ⟨fun ⟨i, hi, hcreated⟩ => ⟨i, by omega, hcreated⟩, ?_⟩
      rintro ⟨i, hi, c, hci, hnew⟩
      have hne : i ≠ k := by
        rintro rfl
        cases hc.symm.trans hci
      exact ⟨i, by omega, c, hci, hnew⟩
    | some c =>
      rw [stateAt_succ hc]
      refine ⟨?_, ?_⟩
      · intro hsome
        rcases Machine.isSome_or_newLease hsome with hold | hnew
        · obtain ⟨i, hi, hcreated⟩ := ih.mp hold
          exact ⟨i, by omega, hcreated⟩
        · exact ⟨k, by omega, c, hc, hnew⟩
      · rintro ⟨i, hi, hcreated⟩
        rcases Nat.lt_succ_iff_lt_or_eq.mp hi with hlt | rfl
        · exact Machine.isSome_getLease_next (keyed_stateAt k) (ih.mpr ⟨i, hlt, hcreated⟩)
            (hkept c (List.mem_of_getElem? hc))
        · obtain ⟨c', hc', hnew⟩ := hcreated
          cases hc.symm.trans hc'
          exact Machine.isSome_getLease_of_newLease hnew

end Prefix

namespace Sys

/-- The command a step brings into the log from elsewhere. -/
def Act.enqueued : Act → Option CommandWrapper
  | .enqueue cmd => some cmd
  | _ => none

/-- The step adds no expiry of the lease to the log. -/
def Act.Keeps (l : UInt64) (a : Act) : Prop := ∀ cmd ∈ a.enqueued, cmd.expires ≠ some l

instance (l : UInt64) (a : Act) : Decidable (a.Keeps l) :=
  inferInstanceAs (Decidable (∀ cmd ∈ a.enqueued, _))

/-- `domain.ErrLeaseNotFound` as the result of a call. -/
def leaseNotFound : AcquireResult := .error (.domain .leaseNotFound)

/-- On a new leader that has applied the first `k` entries of the log, no acquire with the lease
ends with `ErrLeaseNotFound`, as long as no expiry of the lease is added to the log. -/
def FindsLease (now : Int) (term : UInt64) (log : List CommandWrapper) (k : Nat) (l : UInt64) :
    Prop :=
  ∀ t : Trace step, t.start = takeover now term (stateAt log k) (log.drop k) →
    t.Steps (fun _ a => a.Keeps l) →
      ∀ n c call, (t.state n).calls c = some call → call.leaseID = l →
        call.pc ≠ .returned leaseNotFound

/-- The lease is there to stay, and no call has been told otherwise. -/
structure Present (s : Sys) (l : UInt64) : Prop where
  keyed : s.fsm.Keyed
  lease : (s.fsm.getLease l).isSome
  pending : ∀ e ∈ s.pending, e.1.expires ≠ some l
  answer : ∀ c call, s.calls c = some call → call.leaseID = l →
    call.pc.answer ≠ some leaseNotFound

section Step

variable {s s' : Sys} {a : Act} {l : UInt64}

theorem asAcquireLockResponse_eq_leaseNotFound {result : Result}
    (h : asAcquireLockResponse result = leaseNotFound) : result = .error .leaseNotFound := by
  rcases result with e | r
  · cases h
    rfl
  · cases r <;> cases h

/-- While the lease is there, nobody is told that it is not. -/
theorem Advance.answer_ne {c : Nat} {call : AcquireCall} {pc : AcquirePc}
    (h : Advance s c call a pc) (hinv : Inv s) (hcall : s.calls c = some call)
    (hlease : (s.fsm.getLease call.leaseID).isSome) (hold : call.pc.answer ≠ some leaseNotFound) :
    pc.answer ≠ some leaseNotFound := by
  have hafter : ∀ result, result ≠ leaseNotFound →
      (call.afterAcquire result).answer ≠ some leaseNotFound :=
    fun result hne hanswer => hne (AcquireCall.answer_afterAcquire hanswer).symm
  cases h with
  | pc _ _ hstep =>
    cases hstep with
    | refused e _ _ he' =>
      intro hanswer
      cases hanswer
      exact he' rfl
    | leaseMissing _ hnone =>
      rw [hnone] at hlease
      cases hlease
    | notProposed => exact hafter _ (by decide)
    | applyFailed => exact hafter _ (by decide)
    | _ => nofun
  | dead => exact hafter _ (by decide)
  | answered cmd rest hpc hpending =>
    obtain rfl := hinv.cmd_eq hcall hpending
    refine hafter _ fun hresult => ?_
    have hresult := asAcquireLockResponse_eq_leaseNotFound hresult
    rcases s.fsm.acquireLock_cases call.lockName call.ownerID call.leaseID with
      ⟨hnone, -⟩ | ⟨_, -, -, hres⟩ | ⟨_, _, -, -, -, hres⟩ | ⟨_, -, -, -, hres⟩ | ⟨_, -, -, hres⟩
    · rw [hnone] at hlease
      cases hlease
    · cases hres.symm.trans hresult
    · cases hres.symm.trans hresult
    · cases hres.symm.trans hresult
    · cases hres.symm.trans hresult
  | left result hpc =>
    rw [hpc] at hold
    exact hold
  | _ => nofun

/-- **Every step that adds no expiry keeps the lease present.** -/
theorem Present.step (h : s.Present l) (hinv : Inv s) (hkeeps : a.Keeps l) (hm : Moved s a s') :
    s'.Present l := by
  have hfsm : s'.fsm.Keyed ∧ (s'.fsm.getLease l).isSome := by
    rcases hm.fsm_cases with heq | ⟨cmd, owner, rest, -, hpending, heq⟩
    · rw [heq]
      exact ⟨h.keyed, h.lease⟩
    · rw [heq]
      have hcmd : cmd.expires ≠ some l :=
        h.pending (cmd, owner) (by rw [hpending]; exact List.mem_cons_self)
      exact ⟨h.keyed.next, Machine.isSome_getLease_next h.keyed h.lease hcmd⟩
  refine ⟨hfsm.1, hfsm.2, ?_, ?_⟩
  · intro e he
    rcases hm.pending_cases he with hold | ⟨cmd, rfl, rfl⟩ | ⟨c, call, rfl, -⟩
    · exact h.pending e hold
    · exact hkeeps cmd rfl
    · -- a call proposes acquires only
      intro hexp
      cases (CommandWrapper.expires_eq_some.mp hexp).1
  · intro c call' hcall' hl
    rcases hm.call_cases hcall' with ⟨-, hstart, -⟩ | ⟨call, hcall, rfl | ⟨pc, hadv, rfl⟩⟩
    · rw [hstart]
      nofun
    · exact h.answer c call' hcall hl
    · exact hadv.answer_ne hinv hcall (by rw [show call.leaseID = l from hl]; exact h.lease)
        (h.answer c call hcall hl)

end Step

section Run

variable {now : Int} {term : UInt64} {log : List CommandWrapper} {k : Nat} {l : UInt64}

theorem present_takeover (hkept : ∀ cmd ∈ log, cmd.expires ≠ some l)
    (hcreated : ∃ i < k, CreatedAt log i l) :
    (takeover now term (stateAt log k) (log.drop k)).Present l where
  keyed := keyed_stateAt k
  lease := (isSome_getLease_stateAt hkept k).mpr hcreated
  pending := by
    intro e he
    obtain ⟨cmd, hcmd, rfl⟩ := List.mem_map.mp he
    exact hkept cmd (List.mem_of_mem_drop hcmd)
  answer := nofun

theorem findsLease_of_present
    (hpresent : (takeover now term (stateAt log k) (log.drop k)).Present l) :
    FindsLease now term log k l := by
  intro t hstart hkeeps n c call hcall hl hpc
  have hinv : Inv t.start := hstart ▸ inv_takeover ..
  have hfirst : (t.state 0).Present l := by
    rw [t.state_zero, hstart]
    exact hpresent
  have hn : (t.state n).Present l := by
    refine t.invariant_from (I := fun s => s.Present l) (Nat.zero_le n) hfirst ?_
    intro i a s' _ _ hact hstep hI
    exact hI.step (inv_state hinv i) (hkeeps.at hact) (moved_of_step hstep)
  exact hn.answer c call hcall hl (by rw [hpc]; rfl)

/-- A call without waiting goes straight to the lookup, and the lookup fails. -/
theorem not_findsLease_of_absent (habsent : (stateAt log k).getLease l = none) :
    ¬ FindsLease now term log k l := by
  -- the states after the start, `ensureLeader`, `enter` and `getLease` of one call
  let call : AcquireCall := ⟨"alpha", "client-1", l, false, .start⟩
  let s₀ := takeover now term (stateAt log k) (log.drop k)
  let s₁ : Sys := { s₀ with calls := Function.update s₀.calls 0 (some call) }
  let s₂ := s₁.setPc 0 call .enter
  let s₃ := s₂.setPc 0 call .getLease
  let s₄ := s₃.setPc 0 call (.returned leaseNotFound)
  have h₁ : s₀.step (.acquireLock 0 "alpha" "client-1" l false) = some s₁ := rfl
  have h₂ : s₁.step (.ensureLeader 0) = some s₂ := rfl
  have h₃ : s₂.step (.enter 0) = some s₃ := rfl
  have h₄ : s₃.step (.getLease 0) = some s₄ := by
    have hcall : s₃.calls 0 = some { call with pc := .getLease } := setPc_calls_self ..
    have hlookup : s₃.fsm.getLease l = none := habsent
    simp only [step, hcall, Option.bind_some, stepCall, show call.leaseID = l from rfl, hlookup]
    rfl
  let t : Trace step := ⟨s₀, [.acquireLock 0 "alpha" "client-1" l false, .ensureLeader 0, .enter 0,
    .getLease 0], by simp [run, h₁, h₂, h₃, h₄]⟩
  have ht₄ : t.state 4 = s₄ := t.state_eq (by simp [t, run, h₁, h₂, h₃, h₄])
  have hkeeps : t.Steps fun _ a => a.Keeps l := by
    refine Trace.steps_of_forall ?_
    simp [t, Act.Keeps, Act.enqueued]
  intro hfinds
  have hreturned : (t.state 4).calls 0 = some { call with pc := .returned leaseNotFound } :=
    ht₄ ▸ setPc_calls_self ..
  exact hfinds t rfl hkeeps 4 0 _ hreturned rfl rfl

/-- **When a live lease is found on a new leader**: exactly if the entry that created it is among
those the leader has applied. -/
theorem finds_lease_iff (hkept : ∀ cmd ∈ log, cmd.expires ≠ some l) :
    FindsLease now term log k l ↔ ∃ i < k, CreatedAt log i l := by
  refine ⟨?_, fun hcreated => findsLease_of_present (present_takeover hkept hcreated)⟩
  intro hfinds
  rw [← isSome_getLease_stateAt hkept k]
  by_contra habsent
  exact not_findsLease_of_absent (Option.not_isSome_iff_eq_none.mp habsent) hfinds

end Run

/-- One committed lease. -/
def oneLease : List CommandWrapper := [newCreateLeaseCmd "client-1" 10 5]

theorem finds_lease_iff_oneLease : FindsLease 100 2 oneLease 1 1 :=
  (finds_lease_iff (by decide)).mpr ⟨0, by decide, newCreateLeaseCmd "client-1" 10 5, by decide⟩

/-- A leader of the second term that has not applied the creation yet is asked for a lock. -/
def earlyAcquire : Trace step :=
  ⟨takeover 100 2 (stateAt oneLease 0) (oneLease.drop 0),
    [.acquireLock 0 "alpha" "client-1" 1 false, .ensureLeader 0, .enter 0, .getLease 0], by decide⟩

/-- **A live lease is reported missing**: the committed log creates the lease and nothing expires
it, and an acquire that comes before the leader has applied that entry ends with
`ErrLeaseNotFound`. -/
theorem not_findsLease_oneLease :
    CreatedAt oneLease 0 1 ∧ (∀ cmd ∈ oneLease, cmd.expires ≠ some 1) ∧
      (earlyAcquire.state 4).calls 0
        = some ⟨"alpha", "client-1", 1, false, .returned leaseNotFound⟩ ∧
      ¬ FindsLease 100 2 oneLease 0 1 := by
  have hreturned : (earlyAcquire.state 4).calls 0
      = some ⟨"alpha", "client-1", 1, false, .returned leaseNotFound⟩ := rfl
  refine ⟨⟨newCreateLeaseCmd "client-1" 10 5, by decide⟩, by decide, hreturned, ?_⟩
  intro hfinds
  exact hfinds earlyAcquire rfl (by decide) 4 0 _ hreturned rfl rfl

end Sys

end Clavis
