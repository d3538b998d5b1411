import Clavis.Domain
import Clavis.Lib.RangeDelete

/-!
# Clavis — the lease tracker

`leaseTracker` of `internal/cluster/lease.go`, the leader's in-memory view of lease liveness. Each
method is one critical section, so a method is one function from a tracker to a tracker and the
method's result.

The zero tracker has nil maps and the zero time for `leaderSince`. A call with a new term makes
both maps before anything is written to them, and a node that leads has a positive term, so the
model starts from empty maps; `expiring` is the set of keys mapped to `true`.
-/

namespace Clavis

open Lib

/-- `leaseTracker`, less its mutex; `none` is the zero time. -/
structure LeaseTracker where
  term : UInt64
  leaderSince : Option Int
  renewedAt : Finmap (fun _ : UInt64 => Int)
  expiring : Finset UInt64

namespace LeaseTracker

/-- The zero value a node starts with. -/
def zero : LeaseTracker := ⟨0, none, ∅, ∅⟩

/-- `syncTerm`: reset the tracker when the term is another one. -/
def syncTerm (t : LeaseTracker) (term : UInt64) (now : Int) : LeaseTracker :=
  if term = t.term then t else ⟨term, some now, ∅, ∅⟩

/-- The body of `deadline`'s loop: push the deadline out to one TTL after `start`, unless `start`
is the zero time. -/
def extend (ttl : Duration) (deadline : Int) (start : Option Int) : Int :=
  match start with
  | none => deadline
  | some start => if deadline < Time.add start ttl then Time.add start ttl else deadline

/-- `deadline`: when the lease expires unless renewed again. -/
def deadline (t : LeaseTracker) (lease : Lease) : Int :=
  [t.leaderSince, t.renewedAt.lookup lease.leaseID].foldl (extend lease.ttl) lease.expiresAt

/-- `renew`. -/
def renew (t : LeaseTracker) (term : UInt64) (now : Int) (lease : Lease) :
    LeaseTracker × Except DomainError Unit :=
  let t := t.syncTerm term now
  if lease.leaseID ∈ t.expiring ∨ ¬ now < t.deadline lease then (t, .error .leaseExpired)
  else ({ t with renewedAt := t.renewedAt.insert lease.leaseID now }, .ok ())

/-- The loop of `claimExpired`. -/
def claimLoop (now : Int) : LeaseTracker → List Lease → LeaseTracker × List UInt64
  | t, [] => (t, [])
  | t, lease :: leases =>
    if lease.leaseID ∉ t.expiring ∧ ¬ now < t.deadline lease then
      let (t', expired) := claimLoop now
        { t with expiring := insert lease.leaseID t.expiring } leases
      (t', lease.leaseID :: expired)
    else claimLoop now t leases

/-- `claimExpired`. -/
def claimExpired (t : LeaseTracker) (term : UInt64) (now : Int) (leases : List Lease) :
    LeaseTracker × List UInt64 :=
  claimLoop now (t.syncTerm term now) leases

/-- `alive`. -/
def alive (t : LeaseTracker) (term : UInt64) (now : Int) (lease : Lease) :
    LeaseTracker × Bool :=
  let t := t.syncTerm term now
  (t, lease.leaseID ∉ t.expiring ∧ now < t.deadline lease)

/-- `finishExpiry`. -/
def finishExpiry (t : LeaseTracker) (leaseID : UInt64) (committed : Bool) : LeaseTracker :=
  { t with
    expiring := t.expiring.erase leaseID
    renewedAt := if committed then t.renewedAt.erase leaseID else t.renewedAt }

/-! ## The deadline

`deadline` is the latest of the initial expiry and one TTL after each non-zero start, which is best
said by what it means for an instant to lie at or after it. -/

theorem extend_le_iff {ttl : Duration} {d x : Int} {start : Option Int} :
    extend ttl d start ≤ x ↔ d ≤ x ∧ ∀ s, start = some s → Time.add s ttl ≤ x := by
  cases start with
  | none => simp [extend]
  | some s =>
    simp only [extend, Option.some.injEq, forall_eq']
    split
    · constructor
      · intro h
        exact ⟨by omega, h⟩
      · exact fun h => h.2
    · constructor
      · intro h
        exact ⟨h, by omega⟩
      · exact fun h => h.1

/-- **The documented deadline**: an instant is past it when it is past the initial expiry, one TTL
after the takeover and one TTL after the last renewal. -/
theorem deadline_le_iff {t : LeaseTracker} {lease : Lease} {x : Int} :
    t.deadline lease ≤ x ↔ lease.expiresAt ≤ x ∧
      (∀ s, t.leaderSince = some s → Time.add s lease.ttl ≤ x) ∧
      (∀ r, t.renewedAt.lookup lease.leaseID = some r → Time.add r lease.ttl ≤ x) := by
  simp only [deadline, List.foldl_cons, List.foldl_nil, extend_le_iff, and_assoc]

/-- The deadline depends on the takeover and on this lease's renewal only. -/
theorem deadline_congr {t t' : LeaseTracker} {lease : Lease} (hs : t'.leaderSince = t.leaderSince)
    (hr : t'.renewedAt.lookup lease.leaseID = t.renewedAt.lookup lease.leaseID) :
    t'.deadline lease = t.deadline lease := by
  rw [deadline, deadline, hs, hr]

/-! ## One lemma per method -/

section Methods

variable {t : LeaseTracker} {term : UInt64} {now : Int} {lease : Lease}

@[simp] theorem syncTerm_term : (t.syncTerm term now).term = term := by
  unfold syncTerm
  split
  · rename_i h
    exact h.symm
  · rfl

theorem syncTerm_of_eq (now : Int) (h : term = t.term) : t.syncTerm term now = t := if_pos h

theorem syncTerm_of_ne (h : term ≠ t.term) : t.syncTerm term now = ⟨term, some now, ∅, ∅⟩ :=
  if_neg h

/-- What `renew` does: it only ever adds the renewal it accepts to the synchronised tracker. -/
theorem renew_cases (t : LeaseTracker) (term : UInt64) (now : Int) (lease : Lease) :
    (t.renew term now lease = (t.syncTerm term now, .error .leaseExpired) ∧
      (lease.leaseID ∈ (t.syncTerm term now).expiring ∨
        (t.syncTerm term now).deadline lease ≤ now)) ∨
    (t.renew term now lease
      = ({ t.syncTerm term now with
            renewedAt := (t.syncTerm term now).renewedAt.insert lease.leaseID now }, .ok ()) ∧
      lease.leaseID ∉ (t.syncTerm term now).expiring ∧
      now < (t.syncTerm term now).deadline lease) := by
  unfold renew
  dsimp only
  split
  · rename_i h
    exact Or.inl ⟨rfl, h.imp_right fun h => by omega⟩
  · rename_i h
    rw [not_or, not_not] at h
    exact Or.inr ⟨rfl, h⟩

theorem claimLoop_expiring (now : Int) (t : LeaseTracker) (leases : List Lease) :
    (claimLoop now t leases).1
      = { t with expiring := t.expiring ∪ (claimLoop now t leases).2.toFinset } := by
  induction leases generalizing t with
  | nil => simp [claimLoop]
  | cons lease leases ih =>
    simp only [claimLoop]
    split
    · rw [ih]
      simp only [List.toFinset_cons, Finset.union_insert, Finset.insert_union]
    · exact ih t

/-- Which leases the loop claims: those not claimed yet whose deadline has passed. -/
theorem mem_claimLoop (now : Int) (t : LeaseTracker) (leases : List Lease) (id : UInt64) :
    id ∈ (claimLoop now t leases).2 ↔
      id ∉ t.expiring ∧ ∃ lease ∈ leases, lease.leaseID = id ∧ t.deadline lease ≤ now := by
  induction leases generalizing t with
  | nil => simp [claimLoop]
  | cons lease leases ih =>
    simp only [claimLoop, List.exists_mem_cons_iff]
    split
    · rename_i h
      have hdl : t.deadline lease ≤ now := by omega
      simp only [List.mem_cons, ih, Finset.mem_insert]
      -- marking a lease leaves every deadline as it was
      have hsame : ∀ l : Lease,
          ({ t with expiring := insert lease.leaseID t.expiring } : LeaseTracker).deadline l
            = t.deadline l := fun l => deadline_congr rfl rfl
      simp only [hsame]
      constructor
      · rintro (rfl | ⟨hne, hex⟩)
        · exact ⟨h.1, Or.inl ⟨rfl, hdl⟩⟩
        · exact ⟨fun hmem => hne (Or.inr hmem), Or.inr hex⟩
      · rintro ⟨hmem, hhead | hex⟩
        · exact Or.inl hhead.1.symm
        · by_cases hid : id = lease.leaseID
          · exact Or.inl hid
          · exact Or.inr ⟨fun h' => h'.elim hid hmem, hex⟩
    · rename_i h
      rw [ih]
      constructor
      · rintro ⟨hmem, hex⟩
        exact ⟨hmem, Or.inr hex⟩
      · rintro ⟨hmem, ⟨rfl, hdl⟩ | hex⟩
        · exact absurd ⟨hmem, by omega⟩ h
        · exact ⟨hmem, hex⟩

/-- No lease is claimed twice in one call. -/
theorem nodup_claimLoop (now : Int) (t : LeaseTracker) (leases : List Lease) :
    (claimLoop now t leases).2.Nodup := by
  induction leases generalizing t with
  | nil => simp [claimLoop]
  | cons lease leases ih =>
    simp only [claimLoop]
    split
    · refine List.nodup_cons.mpr ⟨?_, ih _⟩
      rw [mem_claimLoop]
      rintro ⟨hne, -⟩
      exact hne (Finset.mem_insert_self _ _)
    · exact ih t

/-- Forgetting a renewal can only bring a deadline forward. -/
theorem deadline_finishExpiry_le (id : UInt64) (committed : Bool) :
    (t.finishExpiry id committed).deadline lease ≤ t.deadline lease := by
  have hself := deadline_le_iff.mp (le_refl (t.deadline lease))
  rw [deadline_le_iff]
  refine ⟨hself.1, hself.2.1, ?_⟩
  intro r hr
  refine hself.2.2 r ?_
  cases committed with
  | false => exact hr
  | true =>
    have hne : lease.leaseID ≠ id := by
      rintro rfl
      simp [finishExpiry] at hr
    simpa [finishExpiry, Finmap.lookup_erase_ne hne] using hr

end Methods

end LeaseTracker

/-! ## Calls of the tracker -/

/-- A call that names a term and a clock reading. The lease records are copies out of the state
machine. -/
inductive TrackerCall where
  | renew (lease : Lease)
  | claimExpired (leases : List Lease)
  | alive (lease : Lease)

namespace TrackerCall

/-- The lease records a call is given. -/
def leases : TrackerCall → List Lease
  | renew lease => [lease]
  | claimExpired leases => leases
  | alive lease => [lease]

/-- The tracker after a call. -/
def run (t : LeaseTracker) (term : UInt64) (now : Int) : TrackerCall → LeaseTracker
  | renew lease => (t.renew term now lease).1
  | claimExpired leases => (t.claimExpired term now leases).1
  | alive lease => (t.alive term now lease).1

/-- **What a call can do to a tracker**: synchronise its term, and then either record one renewal
that was still in time or mark leases as expiring. -/
theorem run_cases (c : TrackerCall) (t : LeaseTracker) (term : UInt64) (now : Int) :
    (∃ lease, c = renew lease ∧ lease.leaseID ∉ (t.syncTerm term now).expiring ∧
      now < (t.syncTerm term now).deadline lease ∧
      c.run t term now = { t.syncTerm term now with
        renewedAt := (t.syncTerm term now).renewedAt.insert lease.leaseID now }) ∨
    ∃ expiring, (t.syncTerm term now).expiring ⊆ expiring ∧
      c.run t term now = { t.syncTerm term now with expiring := expiring } := by
  cases c with
  | renew lease =>
    rcases t.renew_cases term now lease with ⟨heq, -⟩ | ⟨heq, hfree, hlt⟩
    · exact Or.inr ⟨_, Finset.Subset.refl _, by rw [run, heq]⟩
    · exact Or.inl ⟨lease, rfl, hfree, hlt, by rw [run, heq]⟩
  | claimExpired leases =>
    exact Or.inr ⟨_, Finset.subset_union_left,
      LeaseTracker.claimLoop_expiring now (t.syncTerm term now) leases⟩
  | alive lease => exact Or.inr ⟨_, Finset.Subset.refl _, rfl⟩

/-- A call in the tracker's own term leaves a deadline as it is, unless it renews that very lease
in time. -/
theorem deadline_run (c : TrackerCall) (t : LeaseTracker) (now : Int) {lease : Lease}
    (hother : ∀ renewed, c = renew renewed → renewed.leaseID ∉ t.expiring →
      now < t.deadline renewed → lease.leaseID ≠ renewed.leaseID) :
    (c.run t t.term now).deadline lease = t.deadline lease := by
  have hsync : t.syncTerm t.term now = t := LeaseTracker.syncTerm_of_eq now rfl
  rcases c.run_cases t t.term now with ⟨renewed, hc, hfree, hlt, heq⟩ | ⟨expiring, -, heq⟩
  · rw [hsync] at hfree hlt heq
    rw [heq]
    exact LeaseTracker.deadline_congr rfl
      (Finmap.lookup_insert_of_ne _ (hother renewed hc hfree hlt))
  · rw [heq, hsync]
    rfl

/-- A call leaves the tracker at the term it was made with, and does not move the takeover. -/
theorem run_term (c : TrackerCall) (t : LeaseTracker) (term : UInt64) (now : Int) :
    (c.run t term now).term = term ∧
      (c.run t term now).leaderSince = (t.syncTerm term now).leaderSince := by
  rcases c.run_cases t term now with ⟨lease, -, -, -, heq⟩ | ⟨expiring, -, heq⟩
  · rw [heq]
    exact ⟨LeaseTracker.syncTerm_term, rfl⟩
  · rw [heq]
    exact ⟨LeaseTracker.syncTerm_term, rfl⟩

end TrackerCall

end Clavis
