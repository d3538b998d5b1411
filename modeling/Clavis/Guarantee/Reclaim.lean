import Clavis.Guarantee.Sweeper
import Clavis.State.Frame

/-!
# Clavis — the locks of a dead client come free

The other half of the promise: a lease that nobody renews goes away, and its locks with it. This is
a statement about time, so it is one about runs of `Sweeper`.

* `exists_claim` — within one period, and the time the batch at hand takes, the loop claims again.
* `drained` — what is claimed is gone when the batch is through.
* `reclaimed` — the headline. Both are used twice: the first claim of a term makes the tracker start
  the grace period of that term, and a claim after it takes the lease. That the time of the bound
  comes at all is `Ok.proceeds` and `countP_isOwn_le`.

The assumptions on the leader are `Serves`: it keeps its term, its proposals are accepted, and its
tracker is called with its own term only. A call with an older term, and the next one with the own
term, would start the grace period again.
-/

namespace Clavis

open Lib

namespace Sweeper

/-! ## A leader that serves -/

/-- The node leads the term, nothing stale reaches its tracker, and what its loop proposes is
accepted. -/
def Serves (term : UInt64) (s : Sweeper) (a : Act) : Prop :=
  s.node.raft.leader = true ∧ s.node.raft.currentTerm = term ∧
    match a with
    | .node a => a.isRefused = false ∧ ∀ call ∈ s.node.trackerCall a, call.1 = term
    | _ => True

instance (term : UInt64) (s : Sweeper) : (a : Act) → Decidable (s.Serves term a)
  | .fire => inferInstanceAs (Decidable (_ ∧ _ ∧ True))
  | .skip => inferInstanceAs (Decidable (_ ∧ _ ∧ True))
  | .node a =>
    have : Decidable (∀ call ∈ s.node.trackerCall a, call.1 = term) := Option.decidableForallMem _
    inferInstanceAs (Decidable (_ ∧ _ ∧ a.isRefused = false ∧ _))

/-- No renewal of the lease is recorded. -/
def Unrenewed (id : UInt64) (s : Sweeper) : Act → Prop
  | .node a => ∀ call ∈ s.node.trackerCall a,
    match call.2.2 with
    | .renew lease => lease.leaseID = id →
      (s.node.leases.renew call.1 call.2.1 lease).2 ≠ .ok ()
    | _ => True
  | _ => True

instance (id : UInt64) (s : Sweeper) : (a : Act) → Decidable (s.Unrenewed id a)
  | .fire | .skip => isTrue trivial
  | .node _ =>
    have : ∀ call : UInt64 × Int × TrackerCall, Decidable (match call.2.2 with
        | .renew lease => lease.leaseID = id →
          (s.node.leases.renew call.1 call.2.1 lease).2 ≠ .ok ()
        | _ => True)
      | (_, _, .renew _) => inferInstanceAs (Decidable (_ → _ ≠ _))
      | (_, _, .claimExpired _) => isTrue trivial
      | (_, _, .alive _) => isTrue trivial
    Option.decidableForallMem _

/-- What a leader that serves has after a claim. -/
theorem of_loopClaim {commitTime : Nat} {term : UInt64} {leases : List Lease} {s s' : Sweeper}
    (hserves : s.Serves term (.node (.loopClaim leases)))
    (hs : s.step commitTime (.node (.loopClaim leases)) = some s') :
    s.node.loop = .termRead term ∧ s.node.raft.fsm.fsm.ReturnsLeases leases ∧
      s' = { s with
        node := { s.node.track term s.node.now (.claimExpired leases) with
          loop := .proposing term (s.node.leases.claimExpired term s.node.now leases).2 }
        since := s.node.now } := by
  obtain ⟨n, hstep, rfl⟩ := Option.map_eq_some_iff.mp hs
  simp only [Node.step, Node.stepLoop] at hstep
  split at hstep
  · rename_i term' hpc
    obtain ⟨hleases, heq⟩ := Option.ite_none_right_eq_some.mp hstep
    have hcall : s.node.trackerCall (.loopClaim leases)
        = some (term', s.node.now, .claimExpired leases) := by
      simp [Node.trackerCall, hpc, LoopPc.term]
    obtain rfl : term' = term := hserves.2.2.2 _ hcall
    cases heq
    exact ⟨hpc, hleases, rfl⟩
  · cases hstep

/-! ## The loop claims again -/

/-- What the loop is going to do next will be done in time: it claims by `last`, and before that it
is through with its batch by `free`. -/
def Pending (commitTime : Nat) (free last : Int) (s : Sweeper) : Prop :=
  match s.node.loop with
  | .idle => if s.tick then s.node.now ≤ last else s.nextTick ≤ last
  | .isLeader | .termRead _ => s.node.now ≤ last
  | pc => s.since + pc.work commitTime ≤ free

section Pending

variable {commitTime : Nat} {free last : Int} {s s' : Sweeper} {a : Act}

theorem Pending.now_le (h : s.Pending commitTime free last) (htimed : s.Timed commitTime)
    (hlast : free ≤ last) : s.node.now ≤ last := by
  have hnow := htimed.now_le
  have hloop := htimed.loop
  unfold Pending at h
  cases hpc : s.node.loop with
  | idle =>
    rw [hpc] at h
    simp only at h
    split at h
    · exact h
    · omega
  | isLeader | termRead =>
    rw [hpc] at h
    exact h
  | proposing | finishing =>
    simp only [hpc] at h hloop
    omega
  | waiting term leaseID index entryTerm batch =>
    have hwork := LoopPc.work_of_due commitTime (congrArg LoopPc.due hpc)
    simp only [hpc] at h hloop hwork
    omega

/-- A batch is through in time, and the tick after it comes in time. -/
theorem Timed.pending (h : s.Timed commitTime) {start : Int} {bound : Nat}
    (hnow : s.node.now ≤ start) (hdue : s.node.loop.due.length ≤ bound) :
    s.Pending commitTime (start + (bound * commitTime : Nat))
      (start + (bound * commitTime : Nat) + period) := by
  have hsince := h.since_le
  have hnext := h.next_le
  have hwork : s.node.loop.work commitTime ≤ bound * commitTime :=
    Nat.mul_le_mul_right commitTime hdue
  unfold Pending
  unfold period at hnext ⊢
  cases hpc : s.node.loop with
  | idle =>
    simp only
    split <;> omega
  | isLeader | termRead =>
    simp only
    omega
  | proposing | finishing | waiting =>
    rw [hpc] at hwork
    simp only
    omega

/-- How the loop itself moves on: it claims what there is time for, or goes on with what it has. -/
theorem Pending.loop (h : s.Pending commitTime free last) (htimed : s.Timed commitTime)
    (hlast : free + period ≤ last) {b : Node.Act} {n : Node}
    (hclaim : ∀ leases, b = .loopClaim leases →
      s.node.now + (leases.length * commitTime : Nat) ≤ free)
    (hloop : b.isLoop = true) (hnot : b ≠ .loopTick) (hm : Node.Moved s.node b n) :
    Pending commitTime free last { s with node := n, since := n.now } := by
  have htimedLoop := htimed.loop
  have hnext := htimed.next_le
  have hsince := htimed.since_le
  unfold Pending at h
  cases hm with
  | loopTick => exact absurd rfl hnot
  | loopTerm hpc =>
    rw [hpc] at h
    exact h
  | loopClaim leases term hpc hleases =>
    have hfew := hclaim leases rfl
    have hlen := Node.length_claimLoop s.node.now (s.node.leases.syncTerm term s.node.now) leases
    have hle := Nat.mul_le_mul_right commitTime hlen
    show s.node.now + (((s.node.leases.syncTerm term s.node.now).claimLoop s.node.now
      leases).2.length * commitTime : Nat) ≤ free
    omega
  | loopPropose term leaseID batch hpc hleader =>
    simp only [hpc] at h htimedLoop
    show s.node.now + (LoopPc.proposing term (leaseID :: batch)).work commitTime ≤ free
    omega
  | loopUnproposed term leaseID batch hpc =>
    have hwork := LoopPc.work_of_due commitTime (congrArg LoopPc.due hpc)
    simp only [hpc] at h htimedLoop hwork
    show s.node.now + (batch.length * commitTime : Nat) ≤ free
    omega
  | loopWait term leaseID index entryTerm batch ok hpc =>
    -- the wait has taken no longer than the one lease was given
    have hwork := LoopPc.work_of_due commitTime (congrArg LoopPc.due hpc)
    simp only [hpc] at h htimedLoop hwork
    show s.node.now + (batch.length * commitTime : Nat) ≤ free
    omega
  | loopFinish term leaseID ok batch hpc =>
    simp only [hpc] at h htimedLoop
    show s.node.now + (LoopPc.finishing term leaseID ok batch).work commitTime ≤ free
    omega
  | loopEnd term hpc =>
    simp only [hpc] at h htimedLoop
    show if s.tick then s.node.now ≤ last else s.nextTick ≤ last
    unfold period at hlast hnext
    split
    · omega
    · omega
  | returned a c call result hcall hact =>
    rcases hact with rfl | rfl | ⟨ok, rfl⟩ <;> cases hloop
  | _ => cases hloop

theorem Pending.step (h : s.Pending commitTime free last) (htimed : s.Timed commitTime)
    (hlast : free + period ≤ last) (hleader : s.node.raft.leader = true)
    (hclaim : ∀ leases, a = .node (.loopClaim leases) →
      s.node.now + (leases.length * commitTime : Nat) ≤ free)
    (hm : Moved commitTime s a s') : s'.Pending commitTime free last := by
  cases hm with
  | fire hnow =>
    unfold Pending at h ⊢
    show match s.node.loop with
      | .idle => s.node.now ≤ last
      | .isLeader | .termRead _ => s.node.now ≤ last
      | pc => s.since + pc.work commitTime ≤ free
    cases hpc : s.node.loop with
    | idle =>
      rw [hpc] at h
      simp only at h ⊢
      split at h
      · exact h
      · omega
    | _ =>
      rw [hpc] at h
      exact h
  | skip htick hfollower =>
    rw [hleader] at hfollower
    cases hfollower
  | wait d hwait =>
    obtain ⟨-, hstays⟩ := hwait
    unfold Pending at h ⊢
    show match s.node.loop with
      | .idle => if s.tick then s.node.now + d ≤ last else s.nextTick ≤ last
      | .isLeader | .termRead _ => s.node.now + d ≤ last
      | pc => s.since + pc.work commitTime ≤ free
    cases hpc : s.node.loop with
    | idle =>
      rw [hpc] at h hstays
      have htick : s.tick = false := hstays
      simp only [htick] at h ⊢
      exact h
    | waiting =>
      rw [hpc] at h
      exact h
    | isLeader | termRead | proposing | finishing =>
      rw [hpc] at hstays
      exact hstays.elim
  | received n htick hstep =>
    obtain ⟨hpc, rfl⟩ := Node.of_loopTick hstep
    unfold Pending at h
    rw [hpc, htick] at h
    exact h
  | loop b n hloop hnot hstep =>
    exact h.loop htimed hlast (fun leases heq => hclaim leases (congrArg Act.node heq)) hloop hnot
      (Node.moved_of_step hstep)
  | other b n hloop hnot hstep =>
    obtain ⟨hpc, hclock⟩ := (Node.moved_of_step hstep).frame hloop hnot
    unfold Pending at h ⊢
    rw [hpc, hclock]
    exact h

end Pending

/-! ## What is claimed is expired -/

/-- The lease is gone, or its turn comes in time. -/
def Doomed (commitTime : Nat) (term id : UInt64) (last : Int) (s : Sweeper) : Prop :=
  s.node.Gone id ∨
    ∃ pre post, s.node.loop.due = pre ++ id :: post ∧
      s.since + (pre.length * commitTime + commitTime : Nat) ≤ last ∧
      ∀ term' leaseID index entryTerm batch,
        s.node.loop = .waiting term' leaseID index entryTerm batch → entryTerm = term

section Doomed

variable {commitTime : Nat} {term id : UInt64} {last : Int} {s s' : Sweeper} {a : Act}

theorem Doomed.gone (h : s.Doomed commitTime term id last) (htimed : s.Timed commitTime)
    (hlate : last < s.node.now) : s.node.Gone id := by
  rcases h with hgone | ⟨pre, post, hdue, hlast, -⟩
  · exact hgone
  · have hnow := htimed.now_le_of_due (by rw [hdue]; simp)
    omega

/-- Steps that leave the loop as it is. -/
theorem Doomed.frame (h : s.Doomed commitTime term id last) (hpc : s'.node.loop = s.node.loop)
    (hsince : s'.since = s.since) (hgone : s.node.Gone id → s'.node.Gone id) :
    s'.Doomed commitTime term id last := by
  unfold Doomed
  rw [hpc, hsince]
  exact h.imp_left hgone

theorem Doomed.loop (h : s.Doomed commitTime term id last) (hok : Ok commitTime s) {b : Node.Act}
    {n : Node} (hserves : s.Serves term (.node b)) (hloop : b.isLoop = true)
    (hstep : s.node.step b = some n) :
    Doomed commitTime term id last { s with node := n, since := n.now } := by
  have hm := Node.moved_of_step hstep
  have htimed := hok.timed.loop
  obtain ⟨hleader, hterm, hserves⟩ := hserves
  rcases h with hgone | ⟨pre, post, hdue, hlast, hentry⟩
  · exact Or.inl (hgone.step hok.inv hm)
  cases hm with
  | loopTick hpc | loopTerm hpc | loopClaim _ _ hpc | loopEnd _ hpc =>
    rw [hpc] at hdue
    simp [LoopPc.due] at hdue
  | loopPropose term' leaseID batch hpc _ =>
    simp only [hpc] at hdue htimed
    refine Or.inr ⟨pre, post, hdue, ?_, ?_⟩
    · show s.node.now + (pre.length * commitTime + commitTime : Nat) ≤ last
      omega
    · intro _ _ _ _ _ heq
      cases heq
      exact hterm
  | loopUnproposed => cases hserves.1
  | loopWait term' leaseID index entryTerm batch ok hpc =>
    simp only [hpc] at hdue htimed
    obtain ⟨_, _, _, _, _, heq, -, hcases⟩ := Node.of_loopWait hstep
    rw [hpc] at heq
    cases heq
    rcases hcases with ⟨-, hindex, hentry'⟩ | ⟨-, hlost⟩
    · cases pre with
      | nil =>
        -- its turn: the entry that removes it is applied
        obtain rfl : leaseID = id := (List.cons.inj hdue).1
        exact Or.inl (hok.inv.gone_of_applied hindex hentry')
      | cons x pre =>
        refine Or.inr ⟨pre, post, (List.cons.inj hdue).2, ?_, nofun⟩
        have hlength : (x :: pre).length * commitTime = pre.length * commitTime + commitTime :=
          Nat.succ_mul ..
        show s.node.now + (pre.length * commitTime + commitTime : Nat) ≤ last
        omega
    · rw [hleader, hterm, hentry _ _ _ _ _ hpc] at hlost
      simp at hlost
  | loopFinish term' leaseID ok batch hpc =>
    simp only [hpc] at hdue htimed
    refine Or.inr ⟨pre, post, hdue, ?_, nofun⟩
    show s.node.now + (pre.length * commitTime + commitTime : Nat) ≤ last
    omega
  | returned a c call result hcall hact =>
    rcases hact with rfl | rfl | ⟨ok, rfl⟩ <;> cases hloop
  | _ => cases hloop

theorem Doomed.step (h : s.Doomed commitTime term id last) (hok : Ok commitTime s)
    (hserves : s.Serves term a) (hm : Moved commitTime s a s') :
    s'.Doomed commitTime term id last := by
  cases hm with
  | fire | skip => exact h.frame rfl rfl fun hgone => hgone
  | wait d hwait => exact h.frame rfl rfl fun hgone => hgone.step hok.inv (.tick d)
  | received n htick hstep => exact h.loop hok hserves rfl hstep
  | loop b n hloop hnot hstep => exact h.loop hok hserves hloop hstep
  | other b n hloop hnot hstep =>
    have hmoved := Node.moved_of_step hstep
    exact h.frame (hmoved.frame hloop hnot).1 rfl fun hgone => hgone.step hok.inv hmoved

end Doomed

section Run

variable {commitTime bound : Nat} {term : UInt64} {t : Trace (step commitTime)} {now₀ : Int}
  {i k : Nat}

/-- **The loop claims again**, within a period and the time of a batch. -/
theorem exists_claim (h0 : t.start = init now₀) (hfew : t.Steps (Few bound)) (hik : i ≤ k)
    (hserves : t.During (Serves term) i k) {start : Int} (hi : (t.state i).node.now ≤ start)
    (hk : start + (bound * commitTime : Nat) + period < (t.state k).node.now) :
    ∃ j leases, i ≤ j ∧ j < k ∧ t.acts[j]? = some (.node (.loopClaim leases)) ∧
      start ≤ (t.state j).node.now ∧
      (t.state j).node.now ≤ start + (bound * commitTime : Nat) + period := by
  by_contra hnone
  have hpending : (t.state k).Pending commitTime (start + (bound * commitTime : Nat))
      (start + (bound * commitTime : Nat) + period) := by
    refine t.invariant_from hik ((ok_state h0 i).timed.pending hi (due_le h0 hfew i)) ?_
    intro j a s' hij hjk ha hs hpending
    have htimed := (ok_state h0 j).timed
    refine hpending.step htimed (le_refl _) (hserves j hjk hij a ha).1 ?_ (moved_of_step hs)
    intro leases heq
    subst heq
    -- a claim this late would be the one that is looked for
    have hlate : (t.state j).node.now < start := by
      by_contra hge
      refine hnone ⟨j, leases, hij, hjk, ha, by omega, hpending.now_le htimed ?_⟩
      unfold period
      omega
    have hlen : leases.length ≤ bound := hfew.at ha
    have hle := Nat.mul_le_mul_right commitTime hlen
    omega
  have hle := hpending.now_le (ok_state h0 k).timed (by unfold period; omega)
  omega

/-- **What is claimed is gone** when the batch is through. -/
theorem drained (h0 : t.start = init now₀) (hfew : t.Steps (Few bound)) {j : Nat} (hjk : j < k)
    (hserves : t.During (Serves term) j k) {leases : List Lease}
    (ha : t.acts[j]? = some (.node (.loopClaim leases))) {id : UInt64}
    (hid : id ∈ ((t.state j).node.leases.claimExpired term (t.state j).node.now leases).2)
    (hk : (t.state j).node.now + (bound * commitTime : Nat) < (t.state k).node.now) :
    (t.state k).node.Gone id := by
  have hdoomed : (t.state (j + 1)).Doomed commitTime term id
      ((t.state j).node.now + (bound * commitTime : Nat)) := by
    have hlen : leases.length ≤ bound := hfew.at ha
    have hbatch := Node.length_claimLoop (t.state j).node.now
      ((t.state j).node.leases.syncTerm term (t.state j).node.now) leases
    obtain ⟨-, -, heq⟩ := of_loopClaim (hserves j hjk (le_refl j) _ ha) (t.step_state ha)
    obtain ⟨pre, post, hsplit⟩ := List.append_of_mem hid
    rw [heq]
    refine Or.inr ⟨pre, post, hsplit, ?_, nofun⟩
    have hpre : pre.length + 1 ≤ bound := by
      rw [← LeaseTracker.claimExpired, hsplit, List.length_append, List.length_cons] at hbatch
      omega
    have hle := Nat.mul_le_mul_right commitTime hpre
    rw [Nat.succ_mul] at hle
    show (t.state j).node.now + (pre.length * commitTime + commitTime : Nat)
      ≤ (t.state j).node.now + (bound * commitTime : Nat)
    omega
  have hafter := hserves.mono (Nat.le_succ j) (le_refl k)
  have hlast := t.invariant_from hjk hdoomed fun l a s' hjl hlk ha hs hdoomed =>
    hdoomed.step (ok_state h0 l) (hafter l hlk hjl a ha) (moved_of_step hs)
  exact hlast.gone (ok_state h0 k).timed hk

/-! ## The lease is reclaimed -/

/-- The tracker of the term has nothing that keeps the lease after `last`. -/
def Waning (term : UInt64) (lease : Lease) (last : Int) (s : Sweeper) : Prop :=
  s.node.leases.term = term ∧ s.node.leases.deadline lease ≤ last

theorem Waning.step {lease : Lease} {last : Int} {s s' : Sweeper} {a : Act}
    (h : s.Waning term lease last) (hserves : s.Serves term a)
    (hunrenewed : s.Unrenewed lease.leaseID a) (hm : Moved commitTime s a s') :
    s'.Waning term lease last := by
  unfold Waning
  rcases hm.node_cases with heq | ⟨b, rfl, hmoved⟩
  · rw [heq]
    exact h
  rcases hmoved.tracker_cases with ⟨htr, -⟩ | ⟨term', now, c, hcall, htr, -⟩ |
    ⟨_, x, committed, batch, -, -, htr, -⟩
  · rw [htr]
    exact h
  · obtain rfl : term' = term := hserves.2.2.2 _ hcall
    obtain ⟨hterm, hdl⟩ := h
    rw [htr]
    refine ⟨(c.run_term ..).1, ?_⟩
    have hsame : (c.run s.node.leases s.node.leases.term now).deadline lease
        = s.node.leases.deadline lease := by
      refine c.deadline_run s.node.leases now ?_
      intro renewed hc hfree hlt hid
      -- such a renewal would be recorded
      have hrejected := hunrenewed _ hcall
      rw [hc] at hrejected
      refine hrejected hid.symm ?_
      have hsync := LeaseTracker.syncTerm_of_eq now hterm.symm
      rcases s.node.leases.renew_cases term' now renewed with ⟨-, hexpired⟩ | ⟨heq, -⟩
      · rw [hsync] at hexpired
        rcases hexpired with hmark | hpast
        · exact absurd hmark hfree
        · omega
      · rw [heq]
    rw [← hterm, hsame]
    exact hdl
  · rw [htr]
    exact ⟨h.1, (LeaseTracker.deadline_finishExpiry_le x committed).trans h.2⟩

/-- With a claim the tracker is that of the term, and it has heard of nothing later. -/
theorem waning_of_claim (h0 : t.start = init now₀) {j : Nat} {leases : List Lease}
    (ha : t.acts[j]? = some (.node (.loopClaim leases)))
    (hserves : (t.state j).Serves term (.node (.loopClaim leases))) {lease : Lease} {last : Int}
    (hexpires : lease.expiresAt ≤ last)
    (hgrace : (t.state j).node.now + lease.ttl.toInt ≤ last) :
    (t.state (j + 1)).Waning term lease last := by
  have htold := (ok_state h0 (j + 1)).told
  obtain ⟨-, -, heq⟩ := of_loopClaim hserves (t.step_state ha)
  rw [heq] at htold ⊢
  exact ⟨((TrackerCall.claimExpired leases).run_term ..).1, htold.deadline_le lease hexpires hgrace⟩

/-- A claim after that takes the lease. -/
theorem mem_claim_of_waning (h0 : t.start = init now₀) {j : Nat} {leases : List Lease}
    (ha : t.acts[j]? = some (.node (.loopClaim leases)))
    (hserves : (t.state j).Serves term (.node (.loopClaim leases))) {lease : Lease} {last : Int}
    (hwaning : (t.state j).Waning term lease last) (hlast : last ≤ (t.state j).node.now)
    (hlease : (t.state j).node.raft.fsm.getLease lease.leaseID = some lease) :
    lease.leaseID ∈ ((t.state j).node.leases.claimExpired term (t.state j).node.now leases).2 := by
  obtain ⟨hpc, hleases, -⟩ := of_loopClaim hserves (t.step_state ha)
  rw [LeaseTracker.claimExpired, LeaseTracker.syncTerm_of_eq _ hwaning.1.symm,
    LeaseTracker.mem_claimLoop]
  refine ⟨?_, lease, ?_, rfl, hwaning.2.trans hlast⟩
  · -- the loop has no batch at hand
    intro hmark
    have hclaimed := (ok_state h0 j).marked lease.leaseID hmark
    rw [hpc] at hclaimed
    cases hclaimed
  · exact (Machine.mem_of_returnsLeases hleases lease).mpr ⟨_, hlease⟩

theorem gone_state (h0 : t.start = init now₀) (hik : i ≤ k) {id : UInt64}
    (hgone : (t.state i).node.Gone id) : (t.state k).node.Gone id := by
  refine t.invariant_from (I := fun s => s.node.Gone id) hik hgone ?_
  intro j a s' _ _ _ hs hgone
  rcases (moved_of_step hs).node_cases with heq | ⟨b, -, hmoved⟩
  · rw [heq]
    exact hgone
  · exact hgone.step (ok_state h0 j).inv hmoved

/-- The lease is there as it was, or gone. -/
theorem getLease_or_gone (h0 : t.start = init now₀) (hik : i ≤ k) {id : UInt64} {lease : Lease}
    (hlease : (t.state i).node.raft.fsm.getLease id = some lease) :
    (t.state k).node.raft.fsm.getLease id = some lease ∨ (t.state k).node.Gone id := by
  refine t.invariant_from
    (I := fun s => s.node.raft.fsm.getLease id = some lease ∨ s.node.Gone id) hik (Or.inl hlease) ?_
  intro j a s' hij _ ha hs hcases
  have hinv := (ok_state h0 j).inv
  rcases hcases with hsome | hgone
  · rcases (moved_of_step hs).node_cases with heq | ⟨b, -, hmoved⟩
    · rw [heq]
      exact Or.inl hsome
    · have hroom := room_take hinv.raft.log.room (t.state j).node.raft.applied
      have halloc := ((numbered_stateAfter hroom).lease_range id lease hsome).2
      obtain ⟨halloc', hsame | hnone⟩ := hinv.getLease_cases hmoved halloc
      · exact Or.inl (hsame.trans hsome)
      · exact Or.inr ⟨halloc', hnone⟩
  · rw [← t.state_succ ha hs]
    exact Or.inr (gone_state h0 (Nat.le_succ j) hgone)

/-- By when a lease is gone that nobody renews after `now`: one TTL after the loop's first claim,
or when it expires, and then another claim and its batch. -/
def reclaimedBy (commitTime bound : Nat) (lease : Lease) (now : Int) : Int :=
  max lease.expiresAt (now + (bound * commitTime : Nat) + period + lease.ttl.toInt)
    + 2 * (bound * commitTime : Nat) + period

/-- While a leader serves, a lease that is not renewed is gone in time, and no lock is held under
it. -/
theorem gone_of_late (h0 : t.start = init now₀) (hfew : t.Steps (Few bound)) (hik : i ≤ k)
    (hserves : t.During (Serves term) i k) {id : UInt64}
    (hunrenewed : t.During (Unrenewed id) i k) {lease : Lease}
    (hlease : (t.state i).node.raft.fsm.getLease id = some lease)
    (hk : reclaimedBy commitTime bound lease (t.state i).node.now < (t.state k).node.now) :
    (t.state k).node.raft.fsm.getLease id = none ∧
      ∀ L, (t.state k).node.raft.fsm.holder L ≠ some id := by
  have hid : lease.leaseID = id := (Raft.seen_of_getLease (ok_state h0 i).inv.raft hlease).2
  subst hid
  have httl : 0 < lease.ttl.toInt :=
    Int64.lt_iff_toInt_lt.mp ((Machine.storable_new.replay _).lease_times _ lease hlease).1
  suffices hgone : (t.state k).node.Gone lease.leaseID by
    refine ⟨hgone.2, ?_⟩
    intro L hholder
    obtain ⟨lock, hlock, heq⟩ := Option.map_eq_some_iff.mp hholder
    have hanchored : ((t.state k).node.raft.fsm.getLease lock.leaseID).isSome :=
      anchored_replay _ L lock hlock
    rw [heq, hgone.2] at hanchored
    cases hanchored
  unfold reclaimedBy at hk
  generalize hX : max lease.expiresAt ((t.state i).node.now + (bound * commitTime : Nat) + period
    + lease.ttl.toInt) = last at hk
  have hexpires : lease.expiresAt ≤ last := hX ▸ le_max_left _ _
  have hgrace : (t.state i).node.now + (bound * commitTime : Nat) + period + lease.ttl.toInt
      ≤ last := hX ▸ le_max_right _ _
  have hperiod : 0 ≤ period := by decide
  -- the first claim of the term, from which on the tracker counts
  obtain ⟨c, found, hic, hck, hc, -, hcle⟩ :=
    exists_claim h0 hfew hik hserves (le_refl _) (by omega)
  have hwaning := waning_of_claim h0 hc (hserves c hck hic _ hc) hexpires (by omega)
  -- and one after the deadline, unless the lease is gone by then
  have hnow : (t.state (c + 1)).node.now = (t.state c).node.now := by
    rw [(of_loopClaim (hserves c hck hic _ hc) (t.step_state hc)).2.2]
    rfl
  obtain ⟨j, leases, hcj, hjk, hj, hjge, hjle⟩ :=
    exists_claim h0 hfew hck (hserves.mono (by omega) (le_refl k))
      (show (t.state (c + 1)).node.now ≤ last by omega) (by omega)
  have hserves' := hserves.mono (show i ≤ j by omega) (le_refl k)
  rcases getLease_or_gone h0 (show i ≤ j by omega) hlease with hthere | hgone
  · have hwaning' := t.invariant_from hcj hwaning fun l a s' hcl hlj ha hs hwaning =>
      hwaning.step (hserves l (by omega) (by omega) a ha) (hunrenewed l (by omega) (by omega) a ha)
        (moved_of_step hs)
    have hmem := mem_claim_of_waning h0 hj (hserves' j hjk (le_refl j) _ hj) hwaning' hjge hthere
    exact drained h0 hfew hjk hserves' hj hmem (by omega)
  · exact gone_state h0 hjk.le hgone

/-- **Nobody keeps the locks of a dead client.** While a leader serves, a lease that is not renewed
is gone in time, and no lock is held under it. That time does come: as long as the node leads there
is something to do, and the loop and its ticker do only so much of it in a time. -/
theorem reclaimed (h0 : t.start = init now₀) (hfew : t.Steps (Few bound)) (hik : i ≤ k)
    (hserves : t.During (Serves term) i k) {id : UInt64}
    (hunrenewed : t.During (Unrenewed id) i k) {lease : Lease}
    (hlease : (t.state i).node.raft.fsm.getLease id = some lease) :
    (reclaimedBy commitTime bound lease (t.state i).node.now < (t.state k).node.now →
      (t.state k).node.raft.fsm.getLease id = none ∧
        ∀ L, (t.state k).node.raft.fsm.holder L ≠ some id) ∧
    ((t.state k).node.raft.leader = true → (t.state k).Proceeds commitTime) ∧
    ((t.between i k).countP Act.isOwn : Int)
      ≤ (3 * bound + 5) * (((t.state k).node.now - (t.state i).node.now) / period + 3) :=
  ⟨gone_of_late h0 hfew hik hserves hunrenewed hlease, (ok_state h0 k).proceeds,
    countP_isOwn_le h0 hfew hik⟩

end Run

/-- A lease of 200 ms, taken out at 100 ms. -/
def shortLease : Lease := ⟨1, "client-1", 300000000, 200000000⟩

/-- One pass of the loop that finds nothing to expire. -/
def pass (leases : List Lease) : List Act :=
  [.fire, .node .loopTick, .node .loopTerm, .node (.loopClaim leases), .node .loopEnd]

/-- A client takes `alpha` and is never heard of again. Its tracker counts from the first pass, at
200 ms; the pass at 400 ms takes the lease, and the entry needs 5 ms to be applied. -/
def abandoned : Trace (step 5000000) where
  start := init 100000000
  acts :=
    [.node (.raft (.elect 1)), .node (.propose (newCreateLeaseCmd "client-1" 200000000 100000000)),
      .node (.propose (newAcquireLockCmd "alpha" "client-1" 1)), .node (.raft .apply),
      .node (.raft .apply), .node (.raft .apply), .node (.tick 100000000)] ++
    pass [shortLease] ++ [.node (.tick 100000000)] ++ pass [shortLease] ++
    [.node (.tick 100000000), .fire, .node .loopTick, .node .loopTerm,
      .node (.loopClaim [shortLease]), .node (.loopPropose true), .node (.tick 5000000),
      .node (.raft .apply), .node (.loopWait true), .node .loopFinish, .node .loopEnd,
      .node (.tick 95000000)] ++
    pass [] ++ [.node (.tick 100000000)]
  enabled := by decide

theorem reclaimed_abandoned :
    (abandoned.state 6).node.raft.fsm.holder "alpha" = some 1 ∧
      abandoned.During (Serves 1) 6 36 ∧ abandoned.During (Unrenewed 1) 6 36 ∧
      (abandoned.state 36).node.raft.fsm.getLease 1 = none ∧
      (∀ L, (abandoned.state 36).node.raft.fsm.holder L ≠ some 1) ∧
      (abandoned.state 36).Proceeds 5000000 := by
  have hserves : abandoned.During (Serves 1) 6 36 := by decide
  have hunrenewed : abandoned.During (Unrenewed 1) 6 36 := by decide
  have hlease : (abandoned.state 6).node.raft.fsm.getLease 1 = some shortLease := by decide
  obtain ⟨hgone, hproceeds, -⟩ := reclaimed rfl (by decide : abandoned.Steps (Few 1)) (by decide)
    hserves hunrenewed hlease
  obtain ⟨hlost, hfree⟩ := hgone (by decide)
  exact ⟨by decide, hserves, hunrenewed, hlost, hfree, hproceeds (by decide)⟩

end Sweeper

end Clavis
