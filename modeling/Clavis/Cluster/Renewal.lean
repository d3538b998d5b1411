import Clavis.Cluster.Expiry

/-!
# Clavis — acknowledged renewals

`RenewLease` reads the term, waits for the term's barrier, looks the lease up, reads the clock and
only then asks the tracker. Its comments promise that the renewal it acknowledges is not of a lease
that is about to be deleted: the barrier covers expiries of earlier terms, and "once a lease is
claimed for expiry, it cannot be renewed".

The second half rests on the tracker being asked in time. `Node.InOrder` is the discipline under
which it holds: calls reach the tracker with the current term and in the order of their clock
readings, a renewal is recorded by the node as leader, and the loop proposes what it has claimed in
the current term. Then no `ExpireLease` of the lease is anywhere in the log when the renewal is
recorded (`not_expires_of_recorded`), and an acknowledged lease is alive (`acknowledged_alive`).
The code does not keep the discipline, and without it a lease that is already deleted can be
acknowledged (`lateRenewal`).
-/

namespace Clavis

open Lib

namespace Node

/-- The step records a renewal, or finds it rejected. -/
def Act.isRenew : Act → Bool
  | .renew _ => true
  | _ => false

/-- A step that brings nothing stale and reaches the tracker in the order of the clock readings; a
renewal is recorded only by a leader. -/
def InOrder (s : Node) (a : Act) : Prop :=
  s.InTerm a ∧ (∀ call ∈ s.trackerCall a, s.lastReading ≤ call.2.1) ∧
    (a.isRenew = true → s.raft.leader = true)

instance (s : Node) (a : Act) : Decidable (s.InOrder a) :=
  inferInstanceAs (Decidable (_ ∧ _ ∧ _))

/-- What a leader has proposed for expiry in its term is overdue. -/
def ProposedOverdue (s : Node) : Prop :=
  s.raft.leader = true → ∀ (k : Nat) (e : Entry) (id : UInt64), s.raft.log[k]? = some e →
    e.expires = some id → e.term = s.raft.currentTerm →
    s.leases.term = s.raft.currentTerm ∧ s.Overdue id

section Step

variable {s s' : Node} {a : Act}

/-- The record a call hands to the tracker is one that the state machine has held. -/
theorem seen_of_trackerCall (hinv : Inv s) {term : UInt64} {now : Int} {lease : Lease}
    (h : s.trackerCall a = some (term, now, .renew lease)) : s.raft.Seen lease := by
  cases a with
  | renew c =>
    obtain ⟨call, hcall, hpc⟩ := Option.bind_eq_some_iff.mp h
    split at hpc
    · rename_i lease' now' heq
      cases hpc
      have hok := (hinv.calls c call hcall).2
      rw [heq] at hok
      obtain ⟨⟨hid, k, hk, hlease, -⟩, -⟩ := hok
      exact ⟨k, hk, hid ▸ hlease⟩
    · cases hpc
  | checkLeaseAlive term now lease => cases h
  | loopClaim leases =>
    obtain ⟨term', -, heq⟩ := Option.map_eq_some_iff.mp h
    cases heq
  | _ => cases h

/-- In order, an overdue lease cannot be renewed, so it stays overdue. -/
theorem Overdue.step_inOrder {id : UInt64} (h : s.Overdue id) (hinv : Inv s) (hm : Moved s a s')
    (hterm : s.leases.term = s.raft.currentTerm) (hin : s.InOrder a) :
    s'.leases.term = s.leases.term ∧ s'.Overdue id := by
  refine h.step hinv hm hterm hin.1 ?_
  intro now lease hcall hid _
  obtain ⟨lease₀, hseen₀, hid₀, hdl⟩ := h
  obtain rfl : lease₀ = lease :=
    hseen₀.unique hinv.raft (seen_of_trackerCall hinv hcall) (hid₀.trans hid.symm)
  exact hdl.trans (hin.2.1 _ (by rw [hcall]; rfl))

/-- Where an expiry of the current term in a leader's log comes from: it was there before, or the
loop has just proposed it. -/
theorem Moved.expiry_cases (hm : Moved s a s') (hinv : Inv s) (hin : s.InOrder a)
    (hleader : s'.raft.leader = true) {k : Nat} {e : Entry} {id : UInt64}
    (he : s'.raft.log[k]? = some e) (hexp : e.expires = some id)
    (hterm : e.term = s'.raft.currentTerm) :
    s'.raft.currentTerm = s.raft.currentTerm ∧ ((s.raft.leader = true ∧ s.raft.log[k]? = some e) ∨
      (s.loop.term = some s.raft.currentTerm ∧ id ∈ s.loop.claimed)) := by
  rcases hm.raft_cases with heq | ⟨ra, hstep⟩ | ⟨hled, cmd, heq, hcmd⟩
  · rw [heq] at he hleader ⊢
    exact ⟨rfl, Or.inl ⟨hleader, he⟩⟩
  · rcases Raft.leader_cases hstep hleader with ⟨hled, hlog, hcur⟩ | ⟨hlt, hlog⟩
    · rw [hlog] at he
      exact ⟨hcur, Or.inl ⟨hled, he⟩⟩
    · -- a new leader's term has no entry yet but the no-op of the election
      exfalso
      rw [hlog] at he
      rcases getElem?_concat_cases he with hold | rfl
      · have hle := hinv.raft.log.bounded e (List.mem_of_getElem? hold)
        rw [hterm] at hle
        exact UInt64.not_le.mpr hlt hle
      · cases hexp
  · rw [heq] at he ⊢
    refine ⟨rfl, ?_⟩
    rcases getElem?_concat_cases he with hold | rfl
    · exact Or.inl ⟨hled, hold⟩
    · -- of the entries a leader adds, only the loop's expire a lease
      rcases hcmd with rfl | ⟨c, rfl, htype, -⟩ | ⟨term, x, batch, rfl, hloop, rfl⟩
      · cases hexp
      · simp [Entry.expires, CommandWrapper.expires, htype] at hexp
      · rw [expires_newExpireLeaseCmd] at hexp
        cases hexp
        have hcur := hin.1.2 term (by rw [proposalTerm, hloop]; rfl)
        rw [hloop]
        exact Or.inr ⟨by rw [← hcur]; rfl, List.mem_cons_self⟩

theorem ProposedOverdue.step (h : ProposedOverdue s) (hbatch : BatchClaimed s) (hinv : Inv s)
    (hm : Moved s a s') (hin : s.InOrder a) : ProposedOverdue s' := by
  intro hleader k e id he hexp hterm
  obtain ⟨hcur, horigin⟩ := hm.expiry_cases hinv hin hleader he hexp hterm
  have hbefore : s.leases.term = s.raft.currentTerm ∧ s.Overdue id := by
    rcases horigin with ⟨hled, hold⟩ | ⟨hloop, hid⟩
    · exact h hled k e id hold hexp (hterm.trans hcur)
    · obtain ⟨htr, -, hover⟩ := hbatch hloop id hid
      exact ⟨htr, hover⟩
  obtain ⟨htr, hover⟩ := hbefore.2.step_inOrder hinv hm hbefore.1 hin
  exact ⟨by rw [htr, hbefore.1, hcur], hover⟩

end Step

/-! ## No expiry is in the log when a renewal is recorded -/

section Run

variable {t : Trace step} {now₀ : Int}

theorem proposedOverdue_state (h0 : t.start = new now₀) (hin : t.Steps InOrder) (k : Nat) :
    ProposedOverdue (t.state k) := by
  have hfirst : ProposedOverdue (t.state 0) := by
    rw [t.state_zero, h0]
    intro hleader
    cases hleader
  have hterms : t.Steps InTerm := fun i hi a ha => (hin i hi a ha).1
  refine t.invariant_from (Nat.zero_le k) hfirst ?_
  intro i a s' _ _ ha hstep hprop
  exact hprop.step (batchClaimed_state h0 hterms i) (inv_state h0 i) (moved_of_step hstep)
    (hin.at ha)

/-- **A recorded renewal is of a lease that nobody is expiring**: no entry of the log expires it,
applied or not. -/
theorem not_expires_of_recorded {s : Node} (hinv : Inv s) (hprop : ProposedOverdue s) {c : Nat}
    {call : RenewCall} {lease : Lease} {now : Int} (hcall : s.renewals c = some call)
    (hpc : call.pc = .clockRead lease now)
    (hok : (s.leases.renew call.term now lease).2 = .ok ()) (hin : s.InOrder (.renew c)) {k : Nat}
    {e : Entry} (he : s.raft.log[k]? = some e) : e.expires ≠ some call.leaseID := by
  intro hexp
  have htracker : s.trackerCall (.renew c) = some (call.term, now, .renew lease) := by
    simp [trackerCall, hcall, hpc]
  have hterm : call.term = s.raft.currentTerm := hin.1.1 _ (by rw [htracker]; rfl)
  have hreading : s.lastReading ≤ now := hin.2.1 _ (by rw [htracker]; rfl)
  have hlooked := (hinv.calls c call hcall).2
  rw [hpc] at hlooked
  obtain ⟨⟨hid, n, hn, hlease, hcaught⟩, -⟩ := hlooked
  -- the entry is not among those the lookup had seen applied ...
  have hnk : n ≤ k := by
    by_contra hlt
    exact not_expires_of_getLease hinv.raft.log hlease (by omega) he hexp
  -- ... so it is of the current term, and the tracker has seen the lease overdue
  have hcur : e.term = s.raft.currentTerm := by
    refine UInt64.le_antisymm (hinv.raft.log.bounded e (List.mem_of_getElem? he)) ?_
    rw [← hterm]
    exact (hcaught hterm).le_term hinv.raft he hnk
  obtain ⟨htr, lease₀, hseen₀, hid₀, hdl⟩ := hprop (hin.2.2 rfl) k e _ he hexp hcur
  obtain rfl : lease₀ = lease :=
    hseen₀.unique hinv.raft ⟨n, hn, hid ▸ hlease⟩ (hid₀.trans hid.symm)
  rcases s.leases.renew_cases call.term now lease₀ with
    ⟨heq, -⟩ | ⟨-, -, hlt⟩
  · rw [heq] at hok
    cases hok
  · rw [LeaseTracker.syncTerm_of_eq _ (hterm.trans htr.symm)] at hlt
    omega

/-- The lease is still in the state machine when the renewal is recorded. -/
theorem getLease_of_recorded {s : Node} (hinv : Inv s) {c : Nat} {call : RenewCall} {lease : Lease}
    {now : Int} (hcall : s.renewals c = some call) (hpc : call.pc = .clockRead lease now)
    (hfree : ∀ (k : Nat) (e : Entry), s.raft.log[k]? = some e → e.expires ≠ some call.leaseID) :
    s.raft.fsm.getLease call.leaseID = some lease := by
  have hlooked := (hinv.calls c call hcall).2
  rw [hpc] at hlooked
  obtain ⟨⟨-, n, hn, hlease, -⟩, -⟩ := hlooked
  exact getLease_take_of_not_expires hinv.raft.log hn hlease fun i e _ _ he => hfree i e he

/-- What asking the tracker does to a call. -/
theorem Moved.of_renew {s s' : Node} {c : Nat} (h : Moved s (.renew c) s') :
    ∃ call lease now, s.renewals c = some call ∧ call.pc = .clockRead lease now ∧
      (((s.leases.renew call.term now lease).2 = .ok () ∧
          s'.renewals c = some { call with pc := .recorded lease }) ∨
        ∃ e, s'.renewals c = some { call with pc := .returned (.error (.domain e)) }) := by
  cases h with
  | rejected _ call lease now e hcall hpc hrenew =>
    exact ⟨call, lease, now, hcall, hpc, Or.inr ⟨e, Function.update_self ..⟩⟩
  | recorded _ call lease now hcall hpc hrenew =>
    exact ⟨call, lease, now, hcall, hpc, Or.inl ⟨hrenew, Function.update_self ..⟩⟩
  | returned _ c' call result hcall hact =>
    rcases hact with hact | hact | ⟨ok, hact⟩ <;> cases hact

variable (t) in
/-- The `RenewLease` call `c` for lease `l` records its renewal at position `i` of the run and
returns success later. -/
def AcknowledgedAt (c i : Nat) (l : UInt64) : Prop :=
  t.acts[i]? = some (.renew c) ∧
    (∃ call lease, (t.state (i + 1)).renewals c = some call ∧ call.leaseID = l ∧
      call.pc = .recorded lease) ∧
    ∃ j call ttl, i < j ∧ (t.state j).renewals c = some call ∧ call.pc = .returned (.ok ttl)

variable (t) in
/-- Whenever `RenewLease` returns success, its lease was in the state machine when it recorded the
renewal, and no `ExpireLease` of it that the node ever applies was in the log. -/
def AcknowledgedAlive : Prop :=
  ∀ c i l, AcknowledgedAt t c i l →
    ((t.state i).raft.fsm.getLease l).isSome ∧
      ∀ k e, (t.state i).raft.log[k]? = some e → e.expires = some l →
        ∀ j, (t.state j).raft.log[k]? = some e → (t.state j).raft.applied ≤ k

/-- **A doomed lease is never acknowledged**, in every run whose steps reach the tracker and the
log in order. -/
theorem acknowledged_alive (h0 : t.start = new now₀) (hin : t.Steps InOrder) :
    AcknowledgedAlive t := by
  rintro c i l ⟨hact, ⟨call', lease', hcall', rfl, hpc'⟩, -⟩
  have hinv := inv_state h0 i
  obtain ⟨call, lease, now, hcall, hpc, hafter⟩ := (moved_of_step (t.step_state hact)).of_renew
  rcases hafter with ⟨hok, hafter⟩ | ⟨e, hafter⟩
  · obtain rfl := Option.some.inj (hcall'.symm.trans hafter)
    have hfree : ∀ (k : Nat) (e : Entry), (t.state i).raft.log[k]? = some e →
        e.expires ≠ some call.leaseID := fun k e he =>
      not_expires_of_recorded hinv (proposedOverdue_state h0 hin i) hcall hpc hok (hin.at hact) he
    refine ⟨?_, fun k e he hexp => absurd hexp (hfree k e he)⟩
    rw [show (t.state i).raft.fsm.getLease call.leaseID = some lease from
      getLease_of_recorded hinv hcall hpc hfree]
    rfl
  · -- a rejected renewal is not a recorded one
    rw [Option.some.inj (hcall'.symm.trans hafter)] at hpc'
    cases hpc'

end Run

/-! ### Runs of one renewal next to the loop -/

/-- A leader of term 1 creates a lease at 100, its tracker counts from 100, and a `RenewLease` call
has passed its barrier and found the lease. -/
def renewalStarted : List Act :=
  [.raft (.elect 1), .propose (newCreateLeaseCmd "client-1" 10 100), .raft .apply, .raft .apply,
    .checkLeaseAlive 1 100 firstLease, .renewLease 0 1, .awaitTermApplied 0, .raft .apply,
    .barrier 0 true, .getLease 0, .tick 5, .readClock 0]

/-- The renewal is recorded at once. -/
def promptRenewal : Trace step :=
  ⟨new 100, renewalStarted ++ [.renew 0, .verifyLeader 0 true], by decide⟩

theorem acknowledgedAt_promptRenewal : AcknowledgedAt promptRenewal 0 12 1 :=
  ⟨rfl, ⟨_, firstLease, rfl, rfl, rfl⟩, 14, _, 10, by decide, rfl, rfl⟩

theorem acknowledged_alive_promptRenewal :
    promptRenewal.Steps InOrder ∧ ((promptRenewal.state 12).raft.fsm.getLease 1).isSome := by
  have hin : promptRenewal.Steps InOrder := by decide
  exact ⟨hin, (acknowledged_alive rfl hin 0 12 1 acknowledgedAt_promptRenewal).1⟩

/-- The renewal reads the clock at 105 and is then held up. At 110 the loop claims the lease,
expires it and clears its mark, and only then does the renewal reach the tracker. -/
def lateRenewal : Trace step :=
  ⟨new 100, renewalStarted ++ [.tick 5, .loopTick, .loopTerm, .loopClaim [firstLease],
    .loopPropose true, .raft .apply, .loopWait true, .loopFinish, .renew 0,
    .verifyLeader 0 true], by decide⟩

theorem acknowledgedAt_lateRenewal : AcknowledgedAt lateRenewal 0 20 1 :=
  ⟨rfl, ⟨_, firstLease, rfl, rfl, rfl⟩, 22, _, 10, by decide, rfl, rfl⟩

/-- **A deleted lease is acknowledged**: in one term and with no failure, `RenewLease` returns
success for a lease whose expiry has been applied. -/
theorem not_acknowledgedAlive_lateRenewal :
    lateRenewal.start = new 100 ∧ AcknowledgedAt lateRenewal 0 20 1 ∧
      (lateRenewal.state 20).raft.fsm.getLease 1 = none ∧ ¬ AcknowledgedAlive lateRenewal := by
  have hgone : (lateRenewal.state 20).raft.fsm.getLease 1 = none := by decide
  refine ⟨rfl, acknowledgedAt_lateRenewal, hgone, ?_⟩
  intro hall
  have hsome := (hall 0 20 1 acknowledgedAt_lateRenewal).1
  rw [hgone] at hsome
  cases hsome

end Node

end Clavis
