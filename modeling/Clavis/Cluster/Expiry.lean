import Clavis.Cluster.Node

/-!
# Clavis — expiries and the terms that justify them

Invariants of a node's runs. `Node.Inv` holds in every run. It ties the local variables of the
`RenewLease` calls and of the expiry loop to the log: a record they hold was in the state machine,
and what a call has awaited is applied.

What the tracker says about a claimed lease is only kept by runs in which nothing stale reaches it:
a call of the tracker made with an old term resets it, and an element of an old batch is proposed
without the tracker of the new term having claimed it. `Node.InTerm` excludes exactly these steps,
and `expiries_justified` shows that then every `ExpireLease` is proposed under the term that
claimed the lease. Without it the statement fails (`staleBatch`).
-/

namespace Clavis

open Lib

namespace LoopPc

/-- The term the loop has read. -/
def term : LoopPc → Option UInt64
  | idle | isLeader => none
  | termRead term | proposing term _ | waiting term .. | finishing term .. => some term

/-- What is left to propose. -/
def batch : LoopPc → List UInt64
  | idle | isLeader | termRead _ => []
  | proposing _ batch | waiting _ _ _ _ batch | finishing _ _ _ batch => batch

/-- What the loop has claimed and not finished. -/
def claimed : LoopPc → List UInt64
  | idle | isLeader | termRead _ => []
  | proposing _ batch => batch
  | waiting _ leaseID _ _ batch | finishing _ leaseID _ batch => leaseID :: batch

end LoopPc

namespace Node

/-- A call found this record when everything from before its term was applied. -/
def LookedUp (s : Node) (call : RenewCall) (lease : Lease) : Prop :=
  lease.leaseID = call.leaseID ∧ ∃ k ≤ s.raft.applied,
    (s.raft.fsmAt k).getLease call.leaseID = some lease ∧
    (call.term = s.raft.currentTerm → s.raft.CaughtUp k call.term)

/-- What a `RenewLease` call can rely on where it stands. -/
def CallOk (s : Node) (call : RenewCall) : Prop :=
  call.term ≤ s.raft.currentTerm ∧
    match call.pc with
    | .barrier _ entryTerm => call.term ≤ entryTerm
    | .termApplied =>
      call.term = s.raft.currentTerm → s.raft.CaughtUp s.raft.applied call.term
    | .found lease => s.LookedUp call lease
    | .clockRead lease now => s.LookedUp call lease ∧ now ≤ s.now
    | _ => True

/-- What holds in every run. -/
structure Inv (s : Node) : Prop where
  raft : s.raft.Ok
  reading : s.lastReading ≤ s.now
  barrier_le : s.barrierTerm ≤ s.raft.currentTerm
  barrier : s.barrierTerm = s.raft.currentTerm → s.raft.CaughtUp s.raft.applied s.barrierTerm
  calls : ∀ c call, s.renewals c = some call → s.CallOk call
  loop_term : ∀ term ∈ s.loop.term, term ≤ s.raft.currentTerm
  loop_nodup : s.loop.claimed.Nodup
  loop_seen : ∀ id ∈ s.loop.claimed, ∃ lease, s.raft.Seen lease ∧ lease.leaseID = id

section Step

variable {s s' : Node} {a : Act}

/-- A node's Raft instance moves by itself or by an entry the node adds as leader. -/
theorem Moved.raft_cases (h : Moved s a s') :
    s'.raft = s.raft ∨ (∃ ra, s.raft.step ra = some s'.raft) ∨
    (s.raft.leader = true ∧ ∃ cmd, s'.raft = s.raft.append cmd ∧
      (cmd = none ∨
        (∃ c, cmd = some c ∧ c.type ≠ .expireLease ∧
          Machine.new.leaseCount (commands (s.raft.append cmd).log) < 2 ^ 64 - 1) ∨
        ∃ term id batch, a = .loopPropose true ∧ s.loop = .proposing term (id :: batch) ∧
          cmd = some (newExpireLeaseCmd id))) := by
  cases h with
  | raft ra r hstep => exact Or.inr (Or.inl ⟨ra, hstep⟩)
  | propose cmd hleader htype hroom =>
    exact Or.inr (Or.inr ⟨hleader, _, rfl, Or.inr (Or.inl ⟨cmd, rfl, htype, hroom⟩)⟩)
  | barrierProposed c call hcall hpc hleader =>
    exact Or.inr (Or.inr ⟨hleader, none, rfl, Or.inl rfl⟩)
  | loopPropose term id batch hloop hleader =>
    exact Or.inr (Or.inr ⟨hleader, _, rfl, Or.inr (Or.inr ⟨term, id, batch, rfl, hloop, rfl⟩)⟩)
  | _ => exact Or.inl rfl

theorem Moved.now_le (h : Moved s a s') : s.now ≤ s'.now := by
  cases h with
  | tick d =>
    show s.now ≤ s.now + d
    omega
  | _ => exact le_refl s.now

theorem expires_newExpireLeaseCmd (term id : UInt64) :
    (Entry.mk term (some (newExpireLeaseCmd id))).expires = some id := rfl

/-- The log stays in order, and what is applied stays applied. -/
theorem Inv.raft_step (h : Inv s) (hm : Moved s a s') :
    s'.raft.Ok ∧ Raft.Extends s.raft s'.raft := by
  rcases hm.raft_cases with heq | ⟨ra, hstep⟩ | ⟨-, cmd, heq, hcmd⟩
  · rw [heq]
    exact ⟨h.raft, .refl _⟩
  · exact h.raft.step hstep
  · rw [heq]
    refine ⟨?_, h.raft.extends_append cmd⟩
    rcases hcmd with rfl | ⟨c, rfl, htype, hroom⟩ | ⟨term, id, batch, -, hloop, rfl⟩
    · exact h.raft.append_none
    · refine h.raft.append ?_ hroom
      intro id hid
      simp [Entry.expires, CommandWrapper.expires, htype] at hid
    · -- the loop proposes a lease it has seen, whose ID is therefore allocated
      obtain ⟨lease, hseen, rfl⟩ := h.loop_seen id (by rw [hloop]; exact List.mem_cons_self)
      refine h.raft.append ?_ (room_concat h.raft.log.room ?_)
      · intro id' hid'
        rw [expires_newExpireLeaseCmd] at hid'
        cases hid'
        exact hseen.allocated h.raft
      · intro c hc
        cases hc
        show CommandType.expireLease ≠ .createLease
        decide

/-- A term a call or the loop has read is current afterwards only if it was before. -/
theorem eq_of_read {term cur cur' : UInt64} (hle : term ≤ cur) (hcur : cur ≤ cur')
    (heq : term = cur') : term = cur := by
  subst heq
  exact UInt64.le_antisymm hle hcur

theorem LookedUp.mono {call : RenewCall} {lease : Lease} (h : s.LookedUp call lease)
    (hle : call.term ≤ s.raft.currentTerm) (hext : Raft.Extends s.raft s'.raft) :
    s'.LookedUp call lease := by
  obtain ⟨hid, k, hk, hlease, hcaught⟩ := h
  have happlied := hext.applied_le
  refine ⟨hid, k, by omega, ?_, ?_⟩
  · rw [Raft.fsmAt, hext.take hk]
    exact hlease
  · intro hterm
    exact (hcaught (eq_of_read hle hext.term_le hterm)).extends hext hk

theorem CaughtUp_applied_mono {term : UInt64} (hle : term ≤ s.raft.currentTerm)
    (hcaught : term = s.raft.currentTerm → s.raft.CaughtUp s.raft.applied term)
    (hext : Raft.Extends s.raft s'.raft) (hterm : term = s'.raft.currentTerm) :
    s'.raft.CaughtUp s'.raft.applied term := by
  have hold := (hcaught (eq_of_read hle hext.term_le hterm)).extends hext (Nat.le_refl _)
  rcases hold with h0 | ⟨k, e, hk, he⟩
  · exact Or.inl h0
  · have happlied := hext.applied_le
    exact Or.inr ⟨k, e, by omega, he⟩

/-- A call that does not move keeps what it relies on. -/
theorem CallOk.mono {call : RenewCall} (h : s.CallOk call) (hext : Raft.Extends s.raft s'.raft)
    (hnow : s.now ≤ s'.now) : s'.CallOk call := by
  obtain ⟨leaseID, term, pc⟩ := call
  obtain ⟨hle, hpc⟩ := h
  refine ⟨UInt64.le_trans hle hext.term_le, ?_⟩
  cases pc with
  | barrier index entryTerm => exact hpc
  | termApplied => exact CaughtUp_applied_mono hle hpc hext
  | found lease => exact hpc.mono hle hext
  | clockRead lease now => exact ⟨hpc.1.mono hle hext, le_trans hpc.2 hnow⟩
  | _ => trivial

/-- A call is as before a step, or it is the one that moved and may rely on where it stands
now. -/
theorem Moved.call_cases (h : Moved s a s') (hinv : Inv s) {c : Nat} {call : RenewCall}
    (hcall : s'.renewals c = some call) : s.renewals c = some call ∨ s'.CallOk call := by
  -- every step that moves a call writes one record; only that record has something to show
  have hset : ∀ {r : Node} {k : Nat} {moved : RenewCall}, r.renewals = s.renewals →
      (r.setCall k moved).renewals c = some call → s'.CallOk moved →
      s.renewals c = some call ∨ s'.CallOk call := by
    intro r k moved hr hmoved hok
    rcases setCall_eq_some hmoved with ⟨-, rfl⟩ | hold
    · exact Or.inr hok
    · exact Or.inl (hr ▸ hold)
  cases h with
  | renewLease k leaseID hfresh => exact hset rfl hcall ⟨UInt64.le_refl _, trivial⟩
  | termKnown k call' hcall' hpc hterm =>
    exact hset rfl hcall ⟨(hinv.calls k call' hcall').1,
      fun heq => hterm ▸ hinv.barrier (hterm.trans heq)⟩
  | barrierProposed k call' hcall' hpc hleader =>
    have hle := (hinv.calls k call' hcall').1
    exact hset rfl hcall ⟨hle, hle⟩
  | barrierApplied k call' index entryTerm hcall' hpc hindex hentry =>
    obtain ⟨hle, hbarrier⟩ := hinv.calls k call' hcall'
    rw [hpc] at hbarrier
    refine hset rfl hcall ⟨hle, ?_⟩
    intro heq
    -- the barrier is of the call's term: not older, and not newer than the current one
    have hbound := hinv.raft.log.bounded _ (List.mem_of_getElem? hentry)
    have hsame : entryTerm = call'.term :=
      UInt64.le_antisymm (UInt64.le_trans hbound (heq ▸ UInt64.le_refl _)) hbarrier
    exact Or.inr ⟨index, _, hindex, hentry, hsame⟩
  | barrierFailed k call' hcall' => exact hset rfl hcall ⟨(hinv.calls k call' hcall').1, trivial⟩
  | found k call' lease hcall' hpc hlease =>
    obtain ⟨hle, hcaught⟩ := hinv.calls k call' hcall'
    rw [hpc] at hcaught
    exact hset rfl hcall ⟨hle, (Raft.seen_of_getLease hinv.raft hlease).2, s.raft.applied,
      Nat.le_refl _, hlease, hcaught⟩
  | clockRead k call' lease hcall' hpc =>
    obtain ⟨hle, hlooked⟩ := hinv.calls k call' hcall'
    rw [hpc] at hlooked
    exact hset rfl hcall ⟨hle, hlooked, le_refl _⟩
  | rejected k call' lease now e hcall' hpc hrenew =>
    exact hset rfl hcall ⟨(hinv.calls k call' hcall').1, trivial⟩
  | recorded k call' lease now hcall' hpc hrenew =>
    exact hset rfl hcall ⟨(hinv.calls k call' hcall').1, trivial⟩
  | returned _ k call' result hcall' hact =>
    exact hset rfl hcall ⟨(hinv.calls k call' hcall').1, trivial⟩
  | _ => exact Or.inl hcall

/-- How the loop moves: it starts with a fresh term, claims what it has seen, or goes on with the
batch it has. -/
theorem Moved.loop_cases (h : Moved s a s') :
    s'.loop.claimed = [] ∧ (s'.loop.term = none ∨ s'.loop.term = some s.raft.currentTerm) ∨
    (∃ term leases, s.loop.term = some term ∧ s.raft.fsm.fsm.ReturnsLeases leases ∧
      s'.loop = .proposing term (s.leases.claimExpired term s.now leases).2 ∧
      s'.leases = (s.leases.claimExpired term s.now leases).1 ∧
      s'.lastReading = max s.lastReading s.now) ∨
    (s'.loop.term = s.loop.term ∧ s'.loop.claimed.Sublist s.loop.claimed) := by
  cases h with
  | loopTick => exact Or.inl ⟨rfl, Or.inl rfl⟩
  | loopTerm => exact Or.inl ⟨rfl, Or.inr rfl⟩
  | loopEnd => exact Or.inl ⟨rfl, Or.inl rfl⟩
  | loopClaim leases term hloop hleases =>
    exact Or.inr (Or.inl ⟨term, leases, by rw [hloop]; rfl, hleases, rfl, rfl, rfl⟩)
  | loopPropose term leaseID batch hloop hleader =>
    rw [hloop]
    exact Or.inr (Or.inr ⟨rfl, List.Sublist.refl _⟩)
  | loopUnproposed term leaseID batch hloop =>
    rw [hloop]
    exact Or.inr (Or.inr ⟨rfl, List.Sublist.refl _⟩)
  | loopWait term leaseID index entryTerm batch committed hloop =>
    rw [hloop]
    exact Or.inr (Or.inr ⟨rfl, List.Sublist.refl _⟩)
  | loopFinish term leaseID committed batch hloop =>
    rw [hloop]
    exact Or.inr (Or.inr ⟨rfl, List.sublist_cons_self _ _⟩)
  | _ => exact Or.inr (Or.inr ⟨rfl, List.Sublist.refl _⟩)

/-- The barrier's term is as before, or that of a call that has just awaited it. -/
theorem Moved.barrierTerm_cases (h : Moved s a s') (hinv : Inv s) :
    s'.barrierTerm = s.barrierTerm ∨ (s'.barrierTerm ≤ s'.raft.currentTerm ∧
      (s'.barrierTerm = s'.raft.currentTerm →
        s'.raft.CaughtUp s'.raft.applied s'.barrierTerm)) := by
  cases h with
  | barrierApplied c call index entryTerm hcall hpc hindex hentry =>
    have hmoved := Moved.barrierApplied c call index entryTerm hcall hpc hindex hentry
    rcases hmoved.call_cases hinv (Function.update_self ..) with hold | hok
    · rw [hcall] at hold
      rw [Option.some.inj hold] at hpc
      cases hpc
    · exact Or.inr hok
  | _ => exact Or.inl rfl

theorem Moved.lastReading_le (h : Moved s a s') (hinv : Inv s) : s'.lastReading ≤ s'.now := by
  have hnow := h.now_le
  have hold := hinv.reading
  cases h with
  | checkLeaseAlive term now lease hterm hle => exact max_le hold hle
  | rejected c call lease now e hcall hpc hrenew =>
    have hok := (hinv.calls c call hcall).2
    rw [hpc] at hok
    exact max_le hold hok.2
  | recorded c call lease now hcall hpc hrenew =>
    have hok := (hinv.calls c call hcall).2
    rw [hpc] at hok
    exact max_le hold hok.2
  | loopClaim leases term hloop hleases => exact max_le hold (le_refl _)
  | _ => exact le_trans hold hnow

/-- **Every step keeps the invariant.** -/
theorem Inv.step (h : Inv s) (hm : Moved s a s') : Inv s' := by
  obtain ⟨hraft, hext⟩ := h.raft_step hm
  have hbarrier : s'.barrierTerm ≤ s'.raft.currentTerm ∧ (s'.barrierTerm = s'.raft.currentTerm →
      s'.raft.CaughtUp s'.raft.applied s'.barrierTerm) := by
    rcases hm.barrierTerm_cases h with heq | hnew
    · rw [heq]
      exact ⟨UInt64.le_trans h.barrier_le hext.term_le,
        CaughtUp_applied_mono h.barrier_le h.barrier hext⟩
    · exact hnew
  have hcalls : ∀ c call, s'.renewals c = some call → s'.CallOk call := by
    intro c call hcall
    rcases hm.call_cases h hcall with hold | hok
    · exact (h.calls c call hold).mono hext hm.now_le
    · exact hok
  have hloop : (∀ term ∈ s'.loop.term, term ≤ s'.raft.currentTerm) ∧ s'.loop.claimed.Nodup ∧
      ∀ id ∈ s'.loop.claimed, ∃ lease, s'.raft.Seen lease ∧ lease.leaseID = id := by
    rcases hm.loop_cases with ⟨hnil, hterm⟩ | ⟨term, leases, hterm, hleases, heq, -⟩ | ⟨hterm, hsub⟩
    · -- a pass begins or ends: nothing is claimed
      rw [hnil]
      refine ⟨?_, List.nodup_nil, fun id hid => by cases hid⟩
      intro term hmem
      rcases hterm with hnone | hcur
      · rw [hnone] at hmem
        cases hmem
      · rw [hcur] at hmem
        cases hmem
        exact hext.term_le
    · -- the loop claims what it has just read from the state machine
      rw [heq]
      refine ⟨?_, LeaseTracker.nodup_claimLoop .., ?_⟩
      · intro term' hmem
        cases hmem
        exact UInt64.le_trans (h.loop_term term hterm) hext.term_le
      · intro id hid
        obtain ⟨-, lease, hlease, rfl, -⟩ := (LeaseTracker.mem_claimLoop ..).mp hid
        obtain ⟨id', hid'⟩ := (Machine.mem_of_returnsLeases hleases lease).mp hlease
        exact ⟨lease, (Raft.seen_of_getLease h.raft hid').1.extends hext, rfl⟩
    · -- the rest of the batch was there before
      rw [hterm]
      refine ⟨fun term hmem => UInt64.le_trans (h.loop_term term hmem) hext.term_le,
        h.loop_nodup.sublist hsub, ?_⟩
      intro id hid
      obtain ⟨lease, hseen, hlease⟩ := h.loop_seen id (hsub.subset hid)
      exact ⟨lease, hseen.extends hext, hlease⟩
  exact ⟨hraft, hm.lastReading_le h, hbarrier.1, hbarrier.2, hcalls, hloop.1, hloop.2.1, hloop.2.2⟩

end Step

theorem inv_new (now : Int) : Inv (new now) where
  raft := Raft.ok_new
  reading := le_refl _
  barrier_le := UInt64.le_refl _
  barrier := fun _ => Or.inl rfl
  calls := by
    intro c call h
    cases h
  loop_term := by
    intro term h
    cases h
  loop_nodup := List.nodup_nil
  loop_seen := by
    intro id h
    cases h

theorem inv_state {t : Trace step} {now : Int} (h0 : t.start = new now) (k : Nat) :
    Inv (t.state k) :=
  t.invariant (h0 ▸ inv_new now) (fun _ _ _ hs hI => hI.step (moved_of_step hs)) k

/-! ## Steps that bring nothing stale -/

/-- The call of the tracker a step makes, with the term and the clock reading it is given. -/
def trackerCall (s : Node) : Act → Option (UInt64 × Int × TrackerCall)
  | .checkLeaseAlive term now lease => some (term, now, .alive lease)
  | .renew c => (s.renewals c).bind fun call =>
    match call.pc with
    | .clockRead lease now => some (call.term, now, .renew lease)
    | _ => none
  | .loopClaim leases => s.loop.term.map fun term => (term, s.now, .claimExpired leases)
  | _ => none

/-- The term in which the expiry that a step proposes was claimed. -/
def proposalTerm (s : Node) : Act → Option UInt64
  | .loopPropose true => s.loop.term
  | _ => none

/-- A step in which the tracker is called with the current term only, and what is proposed was
claimed in the current term. -/
def InTerm (s : Node) (a : Act) : Prop :=
  (∀ call ∈ s.trackerCall a, call.1 = s.raft.currentTerm) ∧
    ∀ term ∈ s.proposalTerm a, term = s.raft.currentTerm

instance (s : Node) (a : Act) : Decidable (s.InTerm a) :=
  have : Decidable (∀ term ∈ s.proposalTerm a, term = s.raft.currentTerm) :=
    Option.decidableForallMem _
  inferInstanceAs (Decidable (_ ∧ _))

/-- The deadline of a lease, as the tracker has it, lies before the latest reading it was given. -/
def Overdue (s : Node) (id : UInt64) : Prop :=
  ∃ lease, s.raft.Seen lease ∧ lease.leaseID = id ∧ s.leases.deadline lease ≤ s.lastReading

/-- A lease claimed by the tracker of the current term. -/
def Claimed (s : Node) (id : UInt64) : Prop :=
  s.leases.term = s.raft.currentTerm ∧ id ∈ s.leases.expiring ∧ s.Overdue id

section Claimed

variable {s s' : Node} {a : Act} {id : UInt64}

/-- The tracker moves by a call or by `finishExpiry`. -/
theorem Moved.tracker_cases (h : Moved s a s') :
    (s'.leases = s.leases ∧ s'.lastReading = s.lastReading) ∨
    (∃ term now c, s.trackerCall a = some (term, now, c) ∧ s'.leases = c.run s.leases term now ∧
      s'.lastReading = max s.lastReading now) ∨
    (∃ term x committed batch, s.loop = .finishing term x committed batch ∧
      s'.loop = .proposing term batch ∧ s'.leases = s.leases.finishExpiry x committed ∧
      s'.lastReading = s.lastReading) := by
  cases h with
  | checkLeaseAlive term now lease => exact Or.inr (Or.inl ⟨_, _, _, rfl, rfl, rfl⟩)
  | rejected c call lease now e hcall hpc hrenew =>
    refine Or.inr (Or.inl ⟨call.term, now, .renew lease, ?_, rfl, rfl⟩)
    simp [trackerCall, hcall, hpc]
  | recorded c call lease now hcall hpc hrenew =>
    refine Or.inr (Or.inl ⟨call.term, now, .renew lease, ?_, rfl, rfl⟩)
    simp [trackerCall, hcall, hpc]
  | loopClaim leases term hloop hleases =>
    refine Or.inr (Or.inl ⟨term, s.now, .claimExpired leases, ?_, rfl, rfl⟩)
    simp [trackerCall, hloop, LoopPc.term]
  | loopFinish term x committed batch hloop =>
    exact Or.inr (Or.inr ⟨term, x, committed, batch, hloop, rfl, rfl, rfl⟩)
  | _ => exact Or.inl ⟨rfl, rfl⟩

/-- A passed deadline stays passed, unless the lease itself is renewed. -/
theorem Overdue.step (h : s.Overdue id) (hinv : Inv s) (hm : Moved s a s')
    (hterm : s.leases.term = s.raft.currentTerm) (hin : s.InTerm a)
    (hrenew : ∀ now lease, s.trackerCall a = some (s.raft.currentTerm, now, .renew lease) →
      lease.leaseID = id → id ∉ s.leases.expiring → s.leases.deadline lease ≤ now) :
    s'.leases.term = s.leases.term ∧ s'.Overdue id := by
  obtain ⟨lease, hseen, hid, hdl⟩ := h
  have hseen' := hseen.extends (hinv.raft_step hm).2
  rcases hm.tracker_cases with
    ⟨htr, hlast⟩ | ⟨term, now, c, hcall, htr, hlast⟩ | ⟨term, x, committed, batch, -, -, htr, hlast⟩
  · rw [htr]
    exact ⟨rfl, lease, hseen', hid, by rw [htr, hlast]; exact hdl⟩
  · obtain rfl : term = s.raft.currentTerm := hin.1 _ (by rw [hcall]; rfl)
    rw [Overdue, htr, hlast]
    refine ⟨by rw [(c.run_term ..).1, hterm], lease, hseen', hid, ?_⟩
    have hsame : (c.run s.leases s.raft.currentTerm now).deadline lease
        = s.leases.deadline lease := by
      rw [← hterm]
      refine c.deadline_run s.leases now ?_
      -- a renewal of the lease itself would have come in time, and its deadline has passed
      intro renewed hc hfree hlt heqid
      have hpast := hrenew now renewed (hc ▸ hcall) (heqid.symm.trans hid)
        (by rw [← hid, heqid]; exact hfree)
      omega
    rw [hsame]
    exact le_trans hdl (le_max_left _ _)
  · rw [Overdue, htr, hlast]
    exact ⟨rfl, lease, hseen', hid, (LeaseTracker.deadline_finishExpiry_le x committed).trans hdl⟩

/-- A claimed lease stays claimed in its term until the loop has finished with it: the mark keeps
renewals out. -/
theorem Claimed.step (h : s.Claimed id) (hinv : Inv s) (hm : Moved s a s') (hin : s.InTerm a)
    (hcur : s'.raft.currentTerm = s.raft.currentTerm)
    (hfinish : ∀ term x committed batch, s.loop = .finishing term x committed batch →
      s'.loop = .proposing term batch → id ≠ x) : s'.Claimed id := by
  obtain ⟨hterm, hmark, hover⟩ := h
  obtain ⟨hterm', hover'⟩ := hover.step hinv hm hterm hin
    fun _ _ _ _ hfree => absurd hmark hfree
  refine ⟨by rw [hterm', hterm, hcur], ?_, hover'⟩
  rcases hm.tracker_cases with
    ⟨htr, -⟩ | ⟨term, now, c, hcall, htr, -⟩ | ⟨term, x, committed, batch, hloop, hloop', htr, -⟩
  · rw [htr]
    exact hmark
  · obtain rfl : term = s.raft.currentTerm := hin.1 _ (by rw [hcall]; rfl)
    have hsync := LeaseTracker.syncTerm_of_eq now hterm.symm
    rcases c.run_cases s.leases s.raft.currentTerm now with
      ⟨renewed, -, -, -, heq⟩ | ⟨expiring, hsub, heq⟩
    · rw [htr, heq, hsync]
      exact hmark
    · rw [htr, heq]
      exact hsub (hsync.symm ▸ hmark)
  · rw [htr]
    exact Finset.mem_erase_of_ne_of_mem (hfinish term x committed batch hloop hloop') hmark

/-- The batch of the loop is claimed, if it is of the current term. -/
def BatchClaimed (s : Node) : Prop :=
  s.loop.term = some s.raft.currentTerm → ∀ id ∈ s.loop.claimed, s.Claimed id

/-- What `claimExpired` returns is claimed in the term it was called with. -/
theorem claimed_of_loopClaim {term : UInt64} {leases : List Lease} (hinv : Inv s)
    (hleases : s.raft.fsm.fsm.ReturnsLeases leases) (hcur : term = s'.raft.currentTerm)
    (hext : Raft.Extends s.raft s'.raft)
    (htr : s'.leases = (s.leases.claimExpired term s.now leases).1)
    (hlast : s'.lastReading = max s.lastReading s.now)
    (hid : id ∈ (s.leases.claimExpired term s.now leases).2) : s'.Claimed id := by
  rw [LeaseTracker.claimExpired] at htr hid
  rw [LeaseTracker.claimLoop_expiring] at htr
  obtain ⟨-, lease, hlease, rfl, hdl⟩ := (LeaseTracker.mem_claimLoop ..).mp hid
  obtain ⟨id', hid'⟩ := (Machine.mem_of_returnsLeases hleases lease).mp hlease
  have hseen := (Raft.seen_of_getLease hinv.raft hid').1.extends hext
  rw [Claimed, Overdue, htr, hlast]
  refine ⟨by rw [← hcur]; exact LeaseTracker.syncTerm_term, ?_, lease, hseen, rfl, ?_⟩
  · exact Finset.mem_union_right _ (List.mem_toFinset.mpr hid)
  · exact le_trans hdl (le_max_right _ _)

theorem BatchClaimed.step (h : BatchClaimed s) (hinv : Inv s) (hm : Moved s a s')
    (hin : s.InTerm a) : BatchClaimed s' := by
  intro hterm id hid
  have hext := (hinv.raft_step hm).2
  -- a batch whose term is current now was of the current term before
  have hcur : ∀ term, s.loop.term = some term → term = s'.raft.currentTerm →
      term = s.raft.currentTerm := fun term hloop heq =>
    eq_of_read (hinv.loop_term term hloop) hext.term_le heq
  rcases hm.loop_cases with
    ⟨hnil, -⟩ | ⟨term, leases, hloop, hleases, hloop', htr, hlast⟩ | ⟨hsame, hsub⟩
  · rw [hnil] at hid
    cases hid
  · rw [hloop'] at hterm hid
    exact claimed_of_loopClaim hinv hleases (Option.some.inj hterm) hext htr hlast hid
  · have hold : s'.raft.currentTerm = s.raft.currentTerm :=
      hcur _ (hsame ▸ hterm) rfl
    refine (h (by rw [← hsame, hterm, hold]) id (hsub.subset hid)).step hinv hm hin hold ?_
    -- the batch has no duplicates, so finishing one lease leaves the rest marked
    rintro term x committed batch hloop hloop' rfl
    have hnodup := hinv.loop_nodup
    rw [hloop] at hnodup
    rw [hloop'] at hid
    exact (List.nodup_cons.mp hnodup).1 hid

end Claimed

/-! ## Every expiry is proposed under the term that claimed it -/

/-- The tracker stands behind an expiry proposed now: it is the one of the current term, it has
marked the lease, and the lease's deadline with this term's takeover and renewals has passed. -/
def Justified (s : Node) (id : UInt64) : Prop :=
  s.leases.term = s.raft.currentTerm ∧ id ∈ s.leases.expiring ∧
    ∃ lease, s.raft.Seen lease ∧ lease.leaseID = id ∧ s.leases.deadline lease ≤ s.now

/-- Whenever the loop adds an `ExpireLease` to the log, the tracker stands behind it. -/
def ExpiriesJustified (t : Trace step) : Prop :=
  ∀ i term id batch, t.acts[i]? = some (.loopPropose true) →
    (t.state i).loop = .proposing term (id :: batch) → (t.state i).Justified id

theorem batchClaimed_state {t : Trace step} {now₀ : Int} (h0 : t.start = new now₀)
    (hin : t.Steps InTerm) (k : Nat) : BatchClaimed (t.state k) := by
  have hfirst : BatchClaimed (t.state 0) := by
    rw [t.state_zero, h0]
    intro hterm
    cases hterm
  refine t.invariant_from (Nat.zero_le k) hfirst ?_
  intro i a s' _ _ ha hstep hbatch
  exact hbatch.step (inv_state h0 i) (moved_of_step hstep) (hin.at ha)

/-- **Expiries are proposed under the term that claimed them**, in every run whose steps bring
nothing stale to the tracker or to the log. -/
theorem expiries_justified {t : Trace step} {now₀ : Int} (h0 : t.start = new now₀)
    (hin : t.Steps InTerm) : ExpiriesJustified t := by
  intro i term id batch hact hloop
  have hterm : term = (t.state i).raft.currentTerm := by
    refine (hin.at hact).2 term ?_
    rw [proposalTerm, hloop]
    rfl
  have hbatch := batchClaimed_state h0 hin i
  rw [BatchClaimed, hloop] at hbatch
  obtain ⟨htr, hmark, lease, hseen, hid, hdl⟩ :=
    hbatch (by rw [← hterm]; rfl) id List.mem_cons_self
  exact ⟨htr, hmark, lease, hseen, hid, hdl.trans (inv_state h0 i).reading⟩

/-! ### Runs of the loop -/

/-- The two leases of the runs below. -/
def firstLease : Lease := ⟨1, "client-1", 110, 10⟩

def secondLease : Lease := ⟨2, "client-2", 110, 10⟩

/-- A leader of term 1 creates two leases at 100, its tracker counts from 100, and at 110 the loop
has claimed both and is about to propose the first expiry. -/
def claimTwo : List Act :=
  [.raft (.elect 1), .propose (newCreateLeaseCmd "client-1" 10 100),
    .propose (newCreateLeaseCmd "client-2" 10 100), .raft .apply, .raft .apply, .raft .apply,
    .checkLeaseAlive 1 100 firstLease, .tick 10, .loopTick, .loopTerm,
    .loopClaim [firstLease, secondLease]]

/-- The leader stays leader. -/
def promptBatch : Trace step := ⟨new 100, claimTwo ++ [.loopPropose true], by decide⟩

theorem expiries_justified_promptBatch :
    promptBatch.Steps InTerm ∧ (promptBatch.state 11).Justified 1 := by
  have hin : promptBatch.Steps InTerm := by decide
  exact ⟨hin, expiries_justified rfl hin 11 1 1 [2] rfl rfl⟩

/-- The leader loses its leadership while it waits for the first expiry and regains it in term 3,
where the tracker is reset and gives every lease until 120. The loop goes on with its old batch. -/
def staleBatch : Trace step :=
  ⟨new 100, claimTwo ++ [.loopPropose true, .raft (.stepDown 2), .loopWait false, .loopFinish,
    .raft (.elect 3), .checkLeaseAlive 3 110 secondLease, .loopPropose true], by decide⟩

/-- **A stale batch is proposed without a claim**: lease 2 is expired at 110 by the leader of term
3, whose tracker has not marked it and would keep it until 120. -/
theorem not_expiriesJustified_staleBatch :
    staleBatch.start = new 100 ∧ (staleBatch.state 17).raft.currentTerm = 3 ∧
      (staleBatch.state 17).leases.deadline secondLease = 120 ∧
      (staleBatch.state 17).now = 110 ∧ ¬ ExpiriesJustified staleBatch := by
  refine ⟨rfl, rfl, by decide, by decide, ?_⟩
  intro hall
  obtain ⟨-, hmark, -⟩ := hall 17 1 2 [] rfl rfl
  exact absurd hmark (by decide)

end Node

end Clavis
