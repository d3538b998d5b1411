import Clavis.Cluster.Expiry

/-!
# Clavis — a pass of the expiry loop

`leaseExpiryLoop` takes a batch from `claimExpired`, and proposes one `ExpireLease` after the other,
waiting for each. This module follows a batch through the loop, in every run of a node and without
any time yet.

* `LoopPc.due`, `LoopPc.rank` — what the loop is still going to expire, and how many moves it has
  left in its pass; `Moved.due_cases` and `Moved.rank_lt` say that each move brings it further.
* `Gone` — a lease that was there and is not any more; `Inv.gone_of_applied` makes it so.
* `Marked` — the tracker marks as expiring only what the loop has claimed.
* `Told` — no reading in the tracker lies in the future.
* `Filed` — the entry that the loop waits for is in the log of a leader.
-/

namespace Clavis

open Lib

/-- What the loop is still going to expire. -/
def LoopPc.due : LoopPc → List UInt64
  | idle | isLeader | termRead _ => []
  | proposing _ batch | finishing _ _ _ batch => batch
  | waiting _ leaseID _ _ batch => leaseID :: batch

/-- How long that may take. -/
def LoopPc.work (commitTime : Nat) (pc : LoopPc) : Nat := pc.due.length * commitTime

/-- Each lease is one `commitTime` of the work. -/
theorem LoopPc.work_of_due {pc : LoopPc} {id : UInt64} {batch : List UInt64} (commitTime : Nat)
    (h : pc.due = id :: batch) : pc.work commitTime = batch.length * commitTime + commitTime := by
  rw [work, h]
  exact Nat.succ_mul ..

/-- How many moves the loop has left in a pass that finds no more than `bound` leases. -/
def LoopPc.rank (bound : Nat) : LoopPc → Nat
  | idle => 0
  | isLeader => 3 * bound + 3
  | termRead _ => 3 * bound + 2
  | proposing _ batch => 3 * batch.length + 1
  | finishing _ _ _ batch => 3 * batch.length + 2
  | waiting _ _ _ _ batch => 3 * batch.length + 3

theorem LoopPc.rank_le {pc : LoopPc} {bound : Nat} (h : pc.due.length ≤ bound) :
    pc.rank bound ≤ 3 * bound + 3 := by
  cases pc with
  | idle | isLeader | termRead => simp [rank]
  | proposing term batch | finishing term leaseID committed batch =>
    have hlength : batch.length ≤ bound := h
    simp only [rank]
    omega
  | waiting term leaseID index entryTerm batch =>
    have hlength : batch.length + 1 ≤ bound := h
    simp only [rank]
    omega

/-! ## Leases that are gone -/

namespace Node

/-- The lease has been there and is not any more. -/
def Gone (s : Node) (id : UInt64) : Prop :=
  id < s.raft.fsm.fsm.nextLeaseID ∧ s.raft.fsm.getLease id = none

section Gone

variable {s s' : Node} {a : Act} {id : UInt64}

/-- From one state to the next, the record of an allocated ID stays or is gone. -/
theorem Inv.getLease_cases (h : Inv s) (hm : Moved s a s')
    (hid : id < s.raft.fsm.fsm.nextLeaseID) :
    id < s'.raft.fsm.fsm.nextLeaseID ∧
      (s'.raft.fsm.getLease id = s.raft.fsm.getLease id ∨ s'.raft.fsm.getLease id = none) := by
  obtain ⟨hok, hext⟩ := h.raft_step hm
  have hsame : s.raft.fsm = stateAfter (s'.raft.log.take s.raft.applied) := by
    rw [Raft.fsm, Raft.fsmAt, hext.take_eq]
  rw [hsame] at hid ⊢
  exact ⟨allocated_take hok.log.room hext.applied_le hid,
    getLease_take_of_le hok.log.room hext.applied_le hid⟩

theorem Gone.step (h : s.Gone id) (hinv : Inv s) (hm : Moved s a s') : s'.Gone id := by
  obtain ⟨hid, hcases⟩ := hinv.getLease_cases hm h.1
  rw [h.2, or_self] at hcases
  exact ⟨hid, hcases⟩

/-- An applied `ExpireLease` has removed its lease. -/
theorem Inv.gone_of_applied (h : Inv s) {index : Nat} {term : UInt64}
    (hindex : index < s.raft.applied)
    (hentry : s.raft.log[index]? = some ⟨term, some (newExpireLeaseCmd id)⟩) : s.Gone id := by
  have hexp := expires_newExpireLeaseCmd term id
  constructor
  · have halloc := h.raft.log.allocated index (List.getElem?_eq_some_iff.mp hentry).1 id
      (by rw [hentry]; exact hexp)
    exact allocated_take h.raft.log.room hindex.le halloc
  · rw [Option.eq_none_iff_forall_ne_some]
    intro lease hlease
    exact not_expires_of_getLease h.raft.log hlease hindex hentry hexp

end Gone

/-! ## The loop -/

/-- The steps of the loop. -/
def Act.isLoop : Act → Bool
  | .loopTick | .loopTerm | .loopClaim _ | .loopPropose _ | .loopWait _ | .loopFinish | .loopEnd =>
    true
  | _ => false

/-- A proposal of the loop that is not accepted. -/
def Act.isRefused : Act → Bool
  | .loopPropose ok => !ok
  | _ => false

section Loop

variable {s s' : Node} {a : Act}

/-- Only the loop moves the loop, and only time the clock. -/
theorem Moved.frame (h : Moved s a s') (hloop : a.isLoop = false) (hnot : ∀ d, a ≠ .tick d) :
    s'.loop = s.loop ∧ s'.now = s.now := by
  cases h with
  | tick d => exact absurd rfl (hnot d)
  | loopTick | loopTerm | loopClaim | loopPropose | loopUnproposed | loopWait | loopFinish
  | loopEnd => cases hloop
  | returned a c call result hcall hact => exact ⟨rfl, rfl⟩
  | _ => exact ⟨rfl, rfl⟩

theorem Moved.now_of_isLoop (h : Moved s a s') (hloop : a.isLoop = true) : s'.now = s.now := by
  cases h with
  | tick => cases hloop
  | _ => rfl

theorem of_loopTick (h : s.step .loopTick = some s') :
    s.loop = .idle ∧ s' = { s with loop := .isLeader } := by
  simp only [step, stepLoop] at h
  split at h
  · rename_i hloop
    obtain ⟨-, heq⟩ := Option.ite_none_right_eq_some.mp h
    cases heq
    exact ⟨hloop, rfl⟩
  · cases h

/-- The wait for a proposal ends when it is applied, or when the leadership is lost. -/
theorem of_loopWait {ok : Bool} (h : s.step (.loopWait ok) = some s') :
    ∃ term leaseID index entryTerm batch,
      s.loop = .waiting term leaseID index entryTerm batch ∧
      s' = { s with loop := .finishing term leaseID ok batch } ∧
      (ok = true ∧ index < s.raft.applied ∧
          s.raft.log[index]? = some ⟨entryTerm, some (newExpireLeaseCmd leaseID)⟩ ∨
        ok = false ∧ (s.raft.leader = false ∨ s.raft.currentTerm ≠ entryTerm)) := by
  simp only [step, stepLoop] at h
  split at h
  · rename_i term leaseID index entryTerm batch hloop
    refine ⟨term, leaseID, index, entryTerm, batch, hloop, ?_⟩
    cases ok with
    | true =>
      obtain ⟨hguard, heq⟩ := Option.ite_none_right_eq_some.mp h
      cases heq
      exact ⟨rfl, Or.inl ⟨rfl, hguard⟩⟩
    | false =>
      obtain ⟨hguard, heq⟩ := Option.ite_none_right_eq_some.mp h
      cases heq
      exact ⟨rfl, Or.inr ⟨rfl, hguard⟩⟩
  · cases h

theorem length_claimLoop (now : Int) (t : LeaseTracker) (leases : List Lease) :
    (t.claimLoop now leases).2.length ≤ leases.length := by
  induction leases generalizing t with
  | nil => exact le_refl _
  | cons lease leases ih =>
    simp only [LeaseTracker.claimLoop]
    split
    · exact Nat.succ_le_succ (ih _)
    · exact (ih t).trans (Nat.le_succ _)

/-- Only a claim gives the loop more to do. -/
theorem Moved.due_cases (h : Moved s a s') :
    s'.loop.due.length ≤ s.loop.due.length ∨
      ∃ leases, a = .loopClaim leases ∧ s'.loop.due.length ≤ leases.length := by
  cases h with
  | loopClaim leases term hloop hleases => exact Or.inr ⟨leases, rfl, length_claimLoop ..⟩
  | loopTick hloop | loopTerm hloop | loopPropose _ _ _ hloop | loopFinish _ _ _ _ hloop
  | loopEnd _ hloop =>
    rw [hloop]
    exact Or.inl (le_refl _)
  | loopUnproposed _ _ _ hloop | loopWait _ _ _ _ _ _ hloop =>
    rw [hloop]
    exact Or.inl (Nat.le_succ _)
  | _ => exact Or.inl (le_refl _)

/-- A move of the loop is one of those it has left. -/
theorem Moved.rank_lt (h : Moved s a s') (hloop : a.isLoop = true) (hnot : a ≠ .loopTick)
    {bound : Nat} (hfew : ∀ leases, a = .loopClaim leases → leases.length ≤ bound) :
    s'.loop.rank bound < s.loop.rank bound := by
  cases h with
  | loopTick => exact absurd rfl hnot
  | loopClaim leases term hpc hleases =>
    have hlength := length_claimLoop s.now (s.leases.syncTerm term s.now) leases
    have hbound := hfew leases rfl
    rw [hpc]
    show 3 * ((s.leases.syncTerm term s.now).claimLoop s.now leases).2.length + 1 < _
    simp only [LoopPc.rank]
    omega
  | loopTerm hpc | loopWait _ _ _ _ _ _ hpc | loopFinish _ _ _ _ hpc | loopEnd _ hpc =>
    rw [hpc]
    simp [LoopPc.rank]
  | loopPropose _ _ _ hpc | loopUnproposed _ _ _ hpc =>
    rw [hpc]
    simp only [LoopPc.rank, List.length_cons]
    omega
  | returned a c call result hcall hact =>
    rcases hact with rfl | rfl | ⟨ok, rfl⟩ <;> cases hloop
  | _ => cases hloop

/-- Leases are marked as expiring for the batch at hand only. -/
def Marked (s : Node) : Prop := ∀ id ∈ s.leases.expiring, id ∈ s.loop.claimed

theorem syncTerm_expiring {t : LeaseTracker} {term : UInt64} {now : Int} {id : UInt64}
    (h : id ∈ (t.syncTerm term now).expiring) : id ∈ t.expiring := by
  unfold LeaseTracker.syncTerm at h
  split at h
  · exact h
  · cases h

theorem renew_expiring (t : LeaseTracker) (term : UInt64) (now : Int) (lease : Lease) :
    (t.renew term now lease).1.expiring = (t.syncTerm term now).expiring := by
  rcases t.renew_cases term now lease with ⟨heq, -⟩ | ⟨heq, -⟩ <;> rw [heq]

theorem Marked.step (h : s.Marked) (hm : Moved s a s') : s'.Marked := by
  intro id hid
  cases hm with
  | checkLeaseAlive term now lease => exact h id (syncTerm_expiring hid)
  | rejected c call lease now e hcall hpc hrenew | recorded c call lease now hcall hpc hrenew =>
    exact h id (syncTerm_expiring (renew_expiring .. ▸ hid))
  | loopClaim leases term hloop hleases =>
    -- nothing was marked before
    have hmarked : id ∈ (s.leases.claimExpired term s.now leases).1.expiring := hid
    rw [LeaseTracker.claimExpired, LeaseTracker.claimLoop_expiring, Finset.mem_union,
      List.mem_toFinset] at hmarked
    rcases hmarked with hold | hnew
    · have hclaimed := h id (syncTerm_expiring hold)
      rw [hloop] at hclaimed
      cases hclaimed
    · exact hnew
  | loopFinish term leaseID committed batch hloop =>
    obtain ⟨hne, hold⟩ := Finset.mem_erase.mp hid
    have hclaimed := h id hold
    rw [hloop] at hclaimed
    exact (List.mem_cons.mp hclaimed).resolve_left hne
  | loopTick hloop | loopTerm hloop | loopPropose _ _ _ hloop | loopUnproposed _ _ _ hloop
  | loopWait _ _ _ _ _ _ hloop | loopEnd _ hloop =>
    have hclaimed := h id hid
    rw [hloop] at hclaimed
    exact hclaimed
  | _ => exact h id hid

/-! ## What the tracker remembers -/

/-- The tracker has been told of no time after now. -/
structure Told (s : Node) : Prop where
  leaderSince : ∀ x, s.leases.leaderSince = some x → x ≤ s.now
  renewedAt : ∀ id x, s.leases.renewedAt.lookup id = some x → x ≤ s.now

theorem Told.deadline_le (h : s.Told) (lease : Lease) {x : Int} (hinitial : lease.expiresAt ≤ x)
    (hx : s.now + lease.ttl.toInt ≤ x) : s.leases.deadline lease ≤ x := by
  rw [LeaseTracker.deadline_le_iff]
  refine ⟨hinitial, ?_, ?_⟩
  · intro since hsince
    have hle := h.leaderSince since hsince
    show since + lease.ttl.toInt ≤ x
    omega
  · intro r hr
    have hle := h.renewedAt lease.leaseID r hr
    show r + lease.ttl.toInt ≤ x
    omega

theorem Told.step (h : s.Told) (hinv : Inv s) (hm : Moved s a s') : s'.Told := by
  have hnow := hm.now_le
  have hsync : ∀ term now, now ≤ s'.now →
      (∀ x, (s.leases.syncTerm term now).leaderSince = some x → x ≤ s'.now) ∧
      (∀ id x, (s.leases.syncTerm term now).renewedAt.lookup id = some x → x ≤ s'.now) := by
    intro term now hle
    unfold LeaseTracker.syncTerm
    split
    · exact ⟨fun x hx => (h.leaderSince x hx).trans hnow,
        fun id x hx => (h.renewedAt id x hx).trans hnow⟩
    · refine ⟨?_, ?_⟩
      · intro x hx
        cases hx
        exact hle
      · intro id x hx
        cases hx
  rcases hm.tracker_cases with ⟨htr, -⟩ | ⟨term, now, c, hcall, htr, hlast⟩ |
    ⟨term, x, committed, batch, -, -, htr, -⟩
  · refine ⟨?_, ?_⟩
    · rw [htr]
      exact fun x hx => (h.leaderSince x hx).trans hnow
    · rw [htr]
      exact fun id x hx => (h.renewedAt id x hx).trans hnow
  · have hreading : now ≤ s'.now := by
      have hle := hm.lastReading_le hinv
      omega
    obtain ⟨hsince, hrenewed⟩ := hsync term now hreading
    rcases c.run_cases s.leases term now with ⟨lease, -, -, -, heq⟩ | ⟨expiring, -, heq⟩
    · rw [heq] at htr
      refine ⟨by rw [htr]; exact hsince, ?_⟩
      rw [htr]
      intro id x hx
      by_cases hid : id = lease.leaseID
      · rw [hid] at hx
        simp only [Finmap.lookup_insert, Option.some.injEq] at hx
        omega
      · exact hrenewed id x (by rw [← hx]; exact (Finmap.lookup_insert_of_ne _ hid).symm)
    · rw [heq] at htr
      exact ⟨by rw [htr]; exact hsince, by rw [htr]; exact hrenewed⟩
  · refine ⟨?_, ?_⟩
    · rw [htr]
      exact fun x hx => (h.leaderSince x hx).trans hnow
    · rw [htr]
      intro id y hy
      refine (h.renewedAt id y ?_).trans hnow
      cases committed with
      | false => exact hy
      | true =>
        by_cases hid : id = x
        · subst hid
          simp [LeaseTracker.finishExpiry] at hy
        · simpa [LeaseTracker.finishExpiry, Finmap.lookup_erase_ne hid] using hy

/-! ## What the loop waits for -/

/-- The entry that the loop waits for is in the log, as long as the node leads the term of the
entry. -/
def Filed (s : Node) : Prop :=
  ∀ term leaseID index entryTerm batch, s.loop = .waiting term leaseID index entryTerm batch →
    entryTerm ≤ s.raft.currentTerm ∧ (s.raft.leader = true → s.raft.currentTerm = entryTerm →
      s.raft.log[index]? = some ⟨entryTerm, some (newExpireLeaseCmd leaseID)⟩)

/-- A node that leads a term since before a move of Raft has kept its log. -/
theorem log_of_leads {r r' : Raft} {ra : Raft.Act} (hstep : r.step ra = some r')
    (hleader : r'.leader = true) {term : UInt64} (hterm : r'.currentTerm = term)
    (hle : term ≤ r.currentTerm) :
    r.leader = true ∧ r.currentTerm = term ∧ r'.log = r.log := by
  cases ra with
  | elect new =>
    obtain ⟨⟨-, hlt⟩, heq⟩ := Option.ite_none_right_eq_some.mp hstep
    cases heq
    have hnew : new = term := hterm
    rw [hnew] at hlt
    exact absurd hlt (UInt64.not_lt.mpr hle)
  | stepDown new =>
    obtain ⟨-, heq⟩ := Option.ite_none_right_eq_some.mp hstep
    cases heq
    cases hleader
  | follow new log =>
    obtain ⟨⟨hfollower, -⟩, heq⟩ := Option.ite_none_right_eq_some.mp hstep
    cases heq
    have hlead : r.leader = true := hleader
    rw [hfollower] at hlead
    cases hlead
  | apply =>
    obtain ⟨-, heq⟩ := Option.ite_none_right_eq_some.mp hstep
    cases heq
    exact ⟨hleader, hterm, rfl⟩

theorem Filed.step (h : s.Filed) (hinv : Inv s) (hm : Moved s a s') : s'.Filed := by
  intro term leaseID index entryTerm batch hloop
  -- a loop that was already waiting
  have hkept : s.loop = .waiting term leaseID index entryTerm batch →
      entryTerm ≤ s'.raft.currentTerm ∧ (s'.raft.leader = true →
        s'.raft.currentTerm = entryTerm →
        s'.raft.log[index]? = some ⟨entryTerm, some (newExpireLeaseCmd leaseID)⟩) := by
    intro hold
    obtain ⟨hle, hentry⟩ := h term leaseID index entryTerm batch hold
    refine ⟨UInt64.le_trans hle (hinv.raft_step hm).2.term_le, ?_⟩
    intro hleader hterm
    rcases hm.raft_cases with heq | ⟨ra, hstep⟩ | ⟨-, cmd, heq, -⟩
    · rw [heq] at hleader hterm ⊢
      exact hentry hleader hterm
    · obtain ⟨hleader', hterm', hlog⟩ := log_of_leads hstep hleader hterm hle
      rw [hlog]
      exact hentry hleader' hterm'
    · rw [heq] at hleader hterm ⊢
      have hfound := hentry hleader hterm
      show (s.raft.log ++ [_])[index]? = _
      rw [List.getElem?_append_left (List.getElem?_eq_some_iff.mp hfound).1]
      exact hfound
  cases hm with
  | loopPropose =>
    cases hloop
    refine ⟨UInt64.le_refl _, fun _ _ => ?_⟩
    show (s.raft.log ++ [_])[s.raft.log.length]? = _
    rw [List.getElem?_concat_length]
  | loopTick | loopTerm | loopClaim | loopUnproposed | loopWait | loopFinish | loopEnd =>
    cases hloop
  | _ => exact hkept hloop

end Loop

end Node

/-- `Leases` returns the leases in some order. -/
theorem Machine.exists_returnsLeases (m : Machine) : ∃ out, m.fsm.ReturnsLeases out := by
  have hall : ∀ p ∈ (m.fsm.leases.entries.map (·.2)).toList, p ∈ Set.range some := by
    intro p hp
    obtain ⟨⟨id, q⟩, hentry, rfl⟩ := Multiset.mem_map.mp (Multiset.mem_toList.mp hp)
    cases q with
    | none => exact absurd (Finmap.mem_lookup_iff.mpr hentry) (m.leases_ne_nil id)
    | some lease => exact ⟨lease, rfl⟩
  obtain ⟨out, hout⟩ := (Set.range_list_map (some : Lease → Ptr Lease)).ge hall
  refine ⟨out, ?_⟩
  show ((out.map some : List (Ptr Lease)) : Multiset (Ptr Lease)) = _
  rw [hout, Multiset.coe_toList]

end Clavis
