import Clavis.Cluster.LeaseTracker
import Clavis.Lib.Trace

/-!
# Clavis — the documented deadline

The comment on `leaseTracker` says when a lease dies: one TTL after the latest of its creation, its
last renewal on this leader and the moment this node became leader. The tracker itself remembers
much less than that sentence needs: one renewal per lease, a set of claims that a failed expiry
clears again, and a takeover time that it learns from the first call of the term.

* `TrackerEvent` — a call with its answer. `firstCall`, `lastRenewal`, `Claimed` and `Committed`
  read the terms of the documented rule off a history of events, and `Documented` is the rule.
* `Watch` — a tracker with the history of its calls in one term, from before the first of them.
* `Reflects` — what the tracker's fields have to do with the history; kept by every call.

The rule itself holds whatever the clock readings are. That a claim is final needs them not to
decrease, because a failed expiry takes the claim back and only the passed deadline is left. And a
renewal that reaches the tracker after one with a later reading overwrites it, so a deadline can
move back (`not_renewalsKept_overtaken`); it cannot if renewals of a lease arrive in the order of
their readings (`renewalsKept`).
-/

namespace Clavis

open Lib

/-- The creation time: the record stores it plus the TTL. -/
def Lease.createdAt (l : Lease) : Int := l.expiresAt - l.ttl.toInt

/-! ## Calls with their answers -/

/-- A call of the tracker in the watched term, or the end of an expiry. -/
inductive TrackerOp where
  | call (now : Int) (c : TrackerCall)
  | finishExpiry (leaseID : UInt64) (committed : Bool)

/-- A call with its answer. -/
inductive TrackerEvent where
  | renewed (now : Int) (lease : Lease) (err : Except DomainError Unit)
  | claimed (now : Int) (leases : List Lease) (expired : List UInt64)
  | asked (now : Int) (lease : Lease) (alive : Bool)
  | finished (leaseID : UInt64) (committed : Bool)

namespace TrackerOp

/-- The clock reading of a call. -/
def time : TrackerOp → Option Int
  | call now _ => some now
  | finishExpiry _ _ => none

/-- The lease records a call is given. -/
def leases : TrackerOp → List Lease
  | call _ c => c.leases
  | finishExpiry _ _ => []

/-- The tracker after a call. -/
def run (term : UInt64) (t : LeaseTracker) : TrackerOp → LeaseTracker
  | call now c => c.run t term now
  | finishExpiry leaseID committed => t.finishExpiry leaseID committed

/-- What is written down about a call. -/
def event (term : UInt64) (t : LeaseTracker) : TrackerOp → TrackerEvent
  | call now (.renew lease) => .renewed now lease (t.renew term now lease).2
  | call now (.claimExpired leases) => .claimed now leases (t.claimExpired term now leases).2
  | call now (.alive lease) => .asked now lease (t.alive term now lease).2
  | finishExpiry leaseID committed => .finished leaseID committed

end TrackerOp

/-! ## The documented rule

Histories are kept with the latest event first. -/

namespace TrackerEvent

def time : TrackerEvent → Option Int
  | renewed now _ _ => some now
  | claimed now _ _ => some now
  | asked now _ _ => some now
  | finished _ _ => none

/-- The reading of a successful renewal of a lease. -/
def renewalOf (id : UInt64) : TrackerEvent → Option Int
  | renewed now lease (.ok ()) => if lease.leaseID = id then some now else none
  | _ => none

/-- The event hands a lease to the expiry loop. -/
def Claims (id : UInt64) : TrackerEvent → Prop
  | claimed _ _ expired => id ∈ expired
  | _ => False

/-- The event tells a caller that a lease lives. -/
def Confirms (id : UInt64) : TrackerEvent → Prop
  | renewed _ lease err => lease.leaseID = id ∧ err = .ok ()
  | asked _ lease alive => lease.leaseID = id ∧ alive = true
  | _ => False

end TrackerEvent

/-- The reading of the first call of the term. -/
def firstCall : List TrackerEvent → Option Int
  | [] => none
  | e :: h => (firstCall h).or e.time

/-- The reading of the last successful renewal of a lease. -/
def lastRenewal (id : UInt64) : List TrackerEvent → Option Int
  | [] => none
  | e :: h => (e.renewalOf id).or (lastRenewal id h)

/-- The lease was claimed for expiry, and the expiry has not come to an end. -/
def Claimed (id : UInt64) : List TrackerEvent → Prop
  | [] => False
  | .claimed _ _ expired :: h => id ∈ expired ∨ Claimed id h
  | .finished id' _ :: h => id ≠ id' ∧ Claimed id h
  | _ :: h => Claimed id h

/-- The expiry of the lease has committed. -/
def Committed (id : UInt64) (h : List TrackerEvent) : Prop := .finished id true ∈ h

/-- The latest of the creation, the first call of the term and the last renewal, for a call at
`now`, which may itself be the first. -/
def latest (h : List TrackerEvent) (now : Int) (lease : Lease) : Int :=
  let started := max lease.createdAt ((firstCall h).getD now)
  match lastRenewal lease.leaseID h with
  | none => started
  | some renewedAt => max started renewedAt

/-- Unclaimed and less than one TTL after the latest of the three. -/
def Lives (h : List TrackerEvent) (now : Int) (lease : Lease) : Prop :=
  ¬ Claimed lease.leaseID h ∧ now < latest h now lease + lease.ttl.toInt

/-- **The documented rule** for an event after a history: renewals succeed and leases are reported
alive exactly when they live, and exactly the unclaimed leases that are past their deadline are
claimed, each once. It says nothing about leases whose expiry has committed. -/
def Documented (h : List TrackerEvent) : TrackerEvent → Prop
  | .renewed now lease err =>
    ¬ Committed lease.leaseID h → (err = .ok () ↔ Lives h now lease)
  | .asked now lease alive =>
    ¬ Committed lease.leaseID h → (alive = true ↔ Lives h now lease)
  | .claimed now leases expired =>
    expired.Nodup ∧ ∀ id, ¬ Committed id h →
      (id ∈ expired ↔ ¬ Claimed id h ∧ ∃ lease ∈ leases, lease.leaseID = id ∧
        latest h now lease + lease.ttl.toInt ≤ now)
  | .finished _ _ => True

/-! ## What the tracker knows of the history -/

/-- The tracker's fields, seen by a call at `now`, against the history. -/
structure Reflects (t : LeaseTracker) (h : List TrackerEvent) (now : Int) : Prop where
  leaderSince : t.leaderSince = some ((firstCall h).getD now)
  expiring : ∀ id, id ∈ t.expiring ↔ Claimed id h
  renewedAt : ∀ id, ¬ Committed id h → t.renewedAt.lookup id = lastRenewal id h

section Rule

variable {t : LeaseTracker} {h : List TrackerEvent} {now : Int}

/-- The tracker's deadline is the documented one. -/
theorem Reflects.deadline_le_iff (hr : Reflects t h now) {lease : Lease}
    (hlive : ¬ Committed lease.leaseID h) {x : Int} :
    t.deadline lease ≤ x ↔ latest h now lease + lease.ttl.toInt ≤ x := by
  have hcreated : lease.createdAt + lease.ttl.toInt = lease.expiresAt := by
    rw [Lease.createdAt]
    omega
  rw [LeaseTracker.deadline_le_iff, hr.leaderSince, hr.renewedAt lease.leaseID hlive, latest]
  simp only [Option.some.injEq, forall_eq', Time.add]
  cases hlast : lastRenewal lease.leaseID h with
  | none =>
    simp only [reduceCtorEq, false_implies, implies_true, and_true]
    omega
  | some r =>
    simp only [Option.some.injEq, forall_eq']
    omega

theorem Reflects.lives_iff (hr : Reflects t h now) {lease : Lease}
    (hlive : ¬ Committed lease.leaseID h) :
    Lives h now lease ↔ lease.leaseID ∉ t.expiring ∧ now < t.deadline lease := by
  rw [Lives, hr.expiring, ← not_le, ← not_le, hr.deadline_le_iff hlive]

end Rule

section Calls

variable {t : LeaseTracker} {h : List TrackerEvent} {term : UInt64} {now : Int}

/-- A tracker that reflects the history answers by the rule. -/
theorem Reflects.documented (hr : ∀ now, Reflects (t.syncTerm term now) h now) (op : TrackerOp) :
    Documented h (op.event term t) := by
  cases op with
  | finishExpiry => trivial
  | call now c =>
    cases c with
    | renew lease =>
      intro hlive
      rw [(hr now).lives_iff hlive]
      rcases t.renew_cases term now lease with ⟨heq, hdead⟩ | ⟨heq, hlives⟩
      · rw [heq]
        constructor
        · intro herr
          cases herr
        · rintro ⟨hfree, hlt⟩
          rcases hdead with hclaimed | hle
          · exact absurd hclaimed hfree
          · exact absurd hlt (not_lt.mpr hle)
      · rw [heq]
        exact ⟨fun _ => hlives, fun _ => rfl⟩
    | alive lease =>
      intro hlive
      rw [(hr now).lives_iff hlive]
      exact decide_eq_true_iff
    | claimExpired leases =>
      refine ⟨LeaseTracker.nodup_claimLoop now _ leases, ?_⟩
      intro id hlive
      show id ∈ (LeaseTracker.claimLoop now (t.syncTerm term now) leases).2 ↔ _
      rw [LeaseTracker.mem_claimLoop, (hr now).expiring]
      constructor
      · rintro ⟨hfree, lease, hmem, rfl, hle⟩
        exact ⟨hfree, lease, hmem, rfl, ((hr now).deadline_le_iff hlive).mp hle⟩
      · rintro ⟨hfree, lease, hmem, rfl, hle⟩
        exact ⟨hfree, lease, hmem, rfl, ((hr now).deadline_le_iff hlive).mpr hle⟩

/-! ### Every call keeps the connection -/

/-- A lease is uncommitted before an event if it is after it. -/
theorem not_committed_of_cons {e : TrackerEvent} {id : UInt64} (hlive : ¬ Committed id (e :: h)) :
    ¬ Committed id h :=
  fun hmem => hlive (List.mem_cons_of_mem e hmem)

theorem syncTerm_finishExpiry (t : LeaseTracker) (term : UInt64) (now : Int) (id : UInt64)
    (committed : Bool) :
    (t.finishExpiry id committed).syncTerm term now
      = (t.syncTerm term now).finishExpiry id committed := by
  by_cases hterm : term = t.term
  · rw [LeaseTracker.syncTerm_of_eq now hterm]
    exact LeaseTracker.syncTerm_of_eq now hterm
  · rw [LeaseTracker.syncTerm_of_ne hterm]
    -- there is nothing to forget in a tracker that was just reset
    cases committed <;> exact LeaseTracker.syncTerm_of_ne hterm

theorem Reflects.finishExpiry (hr : Reflects t h now) (id : UInt64) (committed : Bool) :
    Reflects (t.finishExpiry id committed) (.finished id committed :: h) now where
  leaderSince := by
    rw [firstCall, TrackerEvent.time, Option.or_none]
    exact hr.leaderSince
  expiring id' := by
    rw [Claimed, ← hr.expiring]
    exact Finset.mem_erase
  renewedAt id' hlive := by
    show _ = lastRenewal id' h
    rw [← hr.renewedAt id' (not_committed_of_cons hlive)]
    cases committed with
    | false => rfl
    | true =>
      have hne : id' ≠ id := by
        rintro rfl
        exact hlive List.mem_cons_self
      exact Finmap.lookup_erase_ne hne

/-- The first call of a term is the first one for good. -/
theorem firstCall_cons_getD {e : TrackerEvent} (htime : e.time = some now) (now' : Int) :
    (firstCall (e :: h)).getD now' = (firstCall h).getD now := by
  rw [firstCall, htime]
  cases firstCall h <;> rfl

theorem Reflects.call (hr : ∀ now, Reflects (t.syncTerm term now) h now) (now : Int)
    (c : TrackerCall) (now' : Int) :
    Reflects (c.run t term now) ((TrackerOp.call now c).event term t :: h) now' := by
  have hnow := hr now
  have htime : ((TrackerOp.call now c).event term t).time = some now := by cases c <;> rfl
  have hsince : (c.run t term now).leaderSince
      = some ((firstCall ((TrackerOp.call now c).event term t :: h)).getD now') := by
    rw [firstCall_cons_getD htime, (c.run_term t term now).2, hnow.leaderSince]
  refine ⟨hsince, ?_, ?_⟩
  · intro id
    cases c with
    | renew lease =>
      rw [TrackerCall.run]
      rcases t.renew_cases term now lease with ⟨heq, -⟩ | ⟨heq, -⟩ <;> rw [heq]
      · exact hnow.expiring id
      · exact hnow.expiring id
    | alive lease => exact hnow.expiring id
    | claimExpired leases =>
      rw [TrackerCall.run, LeaseTracker.claimExpired, LeaseTracker.claimLoop_expiring,
        TrackerOp.event, Claimed, ← hnow.expiring]
      show id ∈ _ ∪ _ ↔ id ∈ (LeaseTracker.claimLoop now (t.syncTerm term now) leases).2 ∨ _
      rw [Finset.mem_union, List.mem_toFinset, or_comm]
  · intro id hlive
    have hold := hnow.renewedAt id (not_committed_of_cons hlive)
    cases c with
    | renew lease =>
      rw [TrackerCall.run, TrackerOp.event, lastRenewal]
      rcases t.renew_cases term now lease with ⟨heq, -⟩ | ⟨heq, -⟩
      · rw [heq]
        exact hold
      · rw [heq]
        simp only [TrackerEvent.renewalOf, lookup_insert_eq_ite]
        by_cases hid : lease.leaseID = id
        · rw [if_pos hid, if_pos hid.symm, Option.some_or]
        · rw [if_neg hid, if_neg (Ne.symm hid), Option.none_or]
          exact hold
    | alive lease => exact hold
    | claimExpired leases =>
      rw [TrackerCall.run, LeaseTracker.claimExpired, LeaseTracker.claimLoop_expiring]
      exact hold

end Calls

/-! ## Runs -/

/-- A tracker and the calls made of it in the watched term, the latest first. -/
structure Watch where
  tracker : LeaseTracker
  history : List TrackerEvent

namespace Watch

/-- Make a call and write it down. -/
def step (term : UInt64) (w : Watch) (op : TrackerOp) : Option Watch :=
  some ⟨op.run term w.tracker, op.event term w.tracker :: w.history⟩

/-- The tracker of every position reflects the calls so far. -/
theorem reflects {term : UInt64} (t : Trace (step term)) (hterm : t.start.tracker.term ≠ term)
    (hnew : t.start.history = []) (k : Nat) (now : Int) :
    Reflects ((t.state k).tracker.syncTerm term now) (t.state k).history now := by
  refine t.invariant
    (I := fun w => ∀ now, Reflects (w.tracker.syncTerm term now) w.history now) ?_ ?_ k now
  · intro now
    rw [LeaseTracker.syncTerm_of_ne hterm.symm, hnew]
    exact ⟨rfl, fun id => by simp [Claimed], fun id _ => by simp [lastRenewal]⟩
  · intro w op w' hstep hI now
    cases hstep
    cases op with
    | finishExpiry id committed =>
      show Reflects ((w.tracker.finishExpiry id committed).syncTerm term now) _ now
      rw [syncTerm_finishExpiry]
      exact (hI now).finishExpiry id committed
    | call now' c =>
      show Reflects ((c.run w.tracker term now').syncTerm term now) _ now
      rw [LeaseTracker.syncTerm_of_eq now (c.run_term w.tracker term now').1.symm]
      exact Reflects.call hI now' c now

end Watch

/-- The readings of the calls do not decrease. -/
def NonDecreasing (ops : List TrackerOp) : Prop := (ops.filterMap TrackerOp.time).Pairwise (· ≤ ·)

instance (ops : List TrackerOp) : Decidable (NonDecreasing ops) :=
  inferInstanceAs (Decidable (List.Pairwise _ _))

/-- A lease ID stands for one record throughout: the records are copies out of the state machine. -/
def OneRecord (ops : List TrackerOp) : Prop :=
  ∀ a ∈ ops, ∀ b ∈ ops, ∀ l ∈ a.leases, ∀ l' ∈ b.leases, l.leaseID = l'.leaseID → l = l'

instance (ops : List TrackerOp) : Decidable (OneRecord ops) :=
  inferInstanceAs (Decidable (∀ a ∈ ops, ∀ b ∈ ops, ∀ l ∈ a.leases, ∀ l' ∈ b.leases, _ → _))

section Final

variable {term : UInt64} {t : Trace (Watch.step term)}

theorem NonDecreasing.le (h : NonDecreasing t.acts) {i j : Nat} (hij : i < j) {x y : Int}
    {c c' : TrackerCall} (hi : t.acts[i]? = some (.call x c))
    (hj : t.acts[j]? = some (.call y c')) : x ≤ y := by
  rw [NonDecreasing, List.pairwise_filterMap, List.pairwise_iff_getElem] at h
  obtain ⟨hi', hx⟩ := List.getElem?_eq_some_iff.mp hi
  obtain ⟨hj', hy⟩ := List.getElem?_eq_some_iff.mp hj
  exact h i j hi' hj' hij x (by rw [hx]; rfl) y (by rw [hy]; rfl)

/-- A claim is made past the deadline of some record of the lease. -/
theorem deadline_of_claims {w w' : Watch} {op : TrackerOp} {id : UInt64}
    (hstep : Watch.step term w op = some w') (hclaim : (op.event term w.tracker).Claims id) :
    ∃ now leases lease, op = .call now (.claimExpired leases) ∧ lease ∈ leases ∧
      lease.leaseID = id ∧ w'.tracker.term = term ∧ w'.tracker.deadline lease ≤ now := by
  cases hstep
  cases op with
  | finishExpiry => exact hclaim.elim
  | call now c =>
    cases c with
    | renew | alive => exact hclaim.elim
    | claimExpired leases =>
      have hmem : id ∈ (LeaseTracker.claimLoop now (w.tracker.syncTerm term now) leases).2 := hclaim
      obtain ⟨-, lease, hlease, hid, hle⟩ := (LeaseTracker.mem_claimLoop now _ leases id).mp hmem
      refine ⟨now, leases, lease, rfl, hlease, hid, (TrackerCall.run_term _ _ _ _).1, ?_⟩
      rw [TrackerOp.run, TrackerCall.run, LeaseTracker.claimExpired,
        LeaseTracker.claimLoop_expiring]
      exact hle

/-- A deadline that has passed stays where it is, or moves further back. -/
theorem passed_step {w w' : Watch} {op : TrackerOp} {lease : Lease} {now : Int}
    (hstep : Watch.step term w op = some w') (hterm : w.tracker.term = term)
    (hpassed : w.tracker.deadline lease ≤ now)
    (hlater : ∀ x c, op = .call x c → now ≤ x)
    (hone : ∀ l ∈ op.leases, l.leaseID = lease.leaseID → l = lease) :
    w'.tracker.term = term ∧ w'.tracker.deadline lease ≤ now := by
  cases hstep
  cases op with
  | finishExpiry id committed =>
    exact ⟨hterm, (LeaseTracker.deadline_finishExpiry_le id committed).trans hpassed⟩
  | call x c =>
    have hle := hlater x c rfl
    subst hterm
    refine ⟨(c.run_term w.tracker _ x).1, ?_⟩
    refine (c.deadline_run w.tracker x ?_).le.trans hpassed
    -- a renewal of this very lease would have to be in time
    rintro renewed rfl - hlt hid
    have hsame := hone renewed List.mem_cons_self hid.symm
    rw [hsame] at hlt
    omega

/-- Nobody is told that a lease lives past its deadline. -/
theorem not_confirms_of_passed {w : Watch} {op : TrackerOp} {lease : Lease} {now : Int}
    (hterm : w.tracker.term = term) (hpassed : w.tracker.deadline lease ≤ now)
    (hlater : ∀ x c, op = .call x c → now ≤ x)
    (hone : ∀ l ∈ op.leases, l.leaseID = lease.leaseID → l = lease) :
    ¬ (op.event term w.tracker).Confirms lease.leaseID := by
  cases op with
  | finishExpiry => exact id
  | call x c =>
    have hle := hlater x c rfl
    have hsync := LeaseTracker.syncTerm_of_eq x hterm.symm
    cases c with
    | claimExpired => exact id
    | renew l =>
      rintro ⟨hid, hok⟩
      have hsame := hone l List.mem_cons_self hid
      subst hsame
      rcases w.tracker.renew_cases term x l with ⟨heq, -⟩ | ⟨-, -, hlt⟩
      · rw [heq] at hok
        cases hok
      · rw [hsync] at hlt
        omega
    | alive l =>
      rintro ⟨hid, halive⟩
      have hsame := hone l List.mem_cons_self hid
      subst hsame
      have hlt := (of_decide_eq_true halive).2
      rw [hsync] at hlt
      omega

/-- **A claim is final**, whatever becomes of the expiry. -/
theorem claim_final (hmono : NonDecreasing t.acts) (hone : OneRecord t.acts) {i j : Nat}
    (hij : i < j) {a b : TrackerOp} {id : UInt64} (ha : t.acts[i]? = some a)
    (hb : t.acts[j]? = some b) (hclaim : (a.event term (t.state i).tracker).Claims id) :
    ¬ (b.event term (t.state j).tracker).Confirms id := by
  obtain ⟨now, leases, lease, rfl, hlease, rfl, hterm, hpassed⟩ :=
    deadline_of_claims (t.step_state ha) hclaim
  have hrec : ∀ {k : Nat} {op : TrackerOp}, t.acts[k]? = some op →
      ∀ l ∈ op.leases, l.leaseID = lease.leaseID → l = lease := fun hop l hl hid =>
    hone _ (List.mem_of_getElem? hop) _ (List.mem_of_getElem? ha) l hl lease hlease hid
  have hlater : ∀ {k : Nat} {op : TrackerOp}, i < k → t.acts[k]? = some op →
      ∀ x c, op = .call x c → now ≤ x := by
    intro k op hik hop x c hx
    subst hx
    exact hmono.le hik ha hop
  obtain ⟨hterm', hpassed'⟩ := t.invariant_from
    (I := fun w => w.tracker.term = term ∧ w.tracker.deadline lease ≤ now)
    (show i + 1 ≤ j from hij) ⟨hterm, hpassed⟩ fun k op w' hik _ hop hstep hI =>
      passed_step hstep hI.1 hI.2 (hlater (by omega) hop) (hrec hop)
  exact not_confirms_of_passed hterm' hpassed' (hlater hij hb) (hrec hb)

end Final

/-- **The tracker implements its documented deadline.** In every run of calls in one term, from a
tracker that has not seen the term, every answer follows the rule; and if the readings do not
decrease, then once a lease has been claimed nobody is told any more that it lives. -/
theorem tracker_documented {term : UInt64} (t : Trace (Watch.step term))
    (hterm : t.start.tracker.term ≠ term) (hnew : t.start.history = []) :
    (∀ k op, t.acts[k]? = some op →
      Documented (t.state k).history (op.event term (t.state k).tracker)) ∧
    (NonDecreasing t.acts → OneRecord t.acts → ∀ i j (a b : TrackerOp) id, i < j →
      t.acts[i]? = some a → t.acts[j]? = some b →
      (a.event term (t.state i).tracker).Claims id →
        ¬ (b.event term (t.state j).tracker).Confirms id) := by
  constructor
  · intro k op _
    exact Reflects.documented (Watch.reflects t hterm hnew k) op
  · intro hmono hone i j a b id hij ha hb hclaim
    exact claim_final hmono hone hij ha hb hclaim

/-- A lease created at time 0 with a TTL of 5. -/
def fiveLease : Lease := ⟨1, "client-1", 5, 5⟩

/-- The lease is renewed at 4, claimed at 9, and the expiry fails. -/
def failedExpiry : Trace (Watch.step 1) where
  start := ⟨.zero, []⟩
  acts := [.call 4 (.renew fiveLease), .call 8 (.claimExpired [fiveLease]),
    .call 9 (.claimExpired [fiveLease]), .finishExpiry 1 false, .call 9 (.renew fiveLease),
    .call 9 (.alive fiveLease)]
  enabled := rfl

theorem tracker_documented_failedExpiry :
    failedExpiry.start.tracker.term ≠ 1 ∧ NonDecreasing failedExpiry.acts ∧
      OneRecord failedExpiry.acts ∧
      Documented (failedExpiry.state 2).history (.claimed 9 [fiveLease] [1]) ∧
      ∀ op, failedExpiry.acts[4]? = some op →
        ¬ (op.event 1 (failedExpiry.state 4).tracker).Confirms 1 := by
  have hmono : NonDecreasing failedExpiry.acts := by decide
  have hone : OneRecord failedExpiry.acts := by decide
  have h := tracker_documented failedExpiry (by decide) rfl
  refine ⟨by decide, hmono, hone, h.1 2 _ rfl, ?_⟩
  intro op hop
  exact h.2 hmono hone 2 4 _ op 1 (by omega) rfl hop List.mem_cons_self

/-! ## Renewals that overtake each other

`RenewLease` reads the clock before it takes the tracker's mutex, so the calls may arrive in another
order than their readings. -/

/-- After a successful renewal at `now` the deadline stays at least one TTL after it, until the
expiry of the lease commits. -/
def RenewalsKept (term : UInt64) (t : Trace (Watch.step term)) : Prop :=
  ∀ i j now lease, i < j → t.acts[i]? = some (.call now (.renew lease)) →
    ((t.state i).tracker.renew term now lease).2 = .ok () →
    (∀ k, i < k → k < j → t.acts[k]? ≠ some (.finishExpiry lease.leaseID true)) →
      Time.add now lease.ttl ≤ (t.state j).tracker.deadline lease

/-- A renewal does not come with an older reading than the one recorded for its lease. -/
def InOrder (term : UInt64) (w : Watch) : TrackerOp → Prop
  | .call now (.renew lease) =>
    ∀ r ∈ (w.tracker.syncTerm term now).renewedAt.lookup lease.leaseID, r ≤ now
  | _ => True

instance (term : UInt64) (w : Watch) : (op : TrackerOp) → Decidable (InOrder term w op)
  | .call now (.renew lease) => Option.decidableForallMem
      ((w.tracker.syncTerm term now).renewedAt.lookup lease.leaseID)
  | .call _ (.claimExpired _) => isTrue trivial
  | .call _ (.alive _) => isTrue trivial
  | .finishExpiry _ _ => isTrue trivial

/-- The recorded reading of a lease is at least `now`. -/
def RecordedSince (t : LeaseTracker) (id : UInt64) (now : Int) : Prop :=
  ∃ r, t.renewedAt.lookup id = some r ∧ now ≤ r

theorem RecordedSince.le_deadline {t : LeaseTracker} {lease : Lease} {now : Int}
    (h : RecordedSince t lease.leaseID now) : Time.add now lease.ttl ≤ t.deadline lease := by
  obtain ⟨r, hr, hle⟩ := h
  have hdl := (LeaseTracker.deadline_le_iff.mp (le_refl (t.deadline lease))).2.2 r hr
  unfold Time.add at hdl ⊢
  omega

/-- A successful renewal is recorded. -/
theorem recordedSince_of_renew {t : LeaseTracker} {term : UInt64} {now : Int} {lease : Lease}
    (hok : (t.renew term now lease).2 = .ok ()) :
    (t.renew term now lease).1.term = term ∧
      RecordedSince (t.renew term now lease).1 lease.leaseID now := by
  rcases t.renew_cases term now lease with ⟨heq, -⟩ | ⟨heq, -⟩
  · rw [heq] at hok
    cases hok
  · rw [heq]
    exact ⟨LeaseTracker.syncTerm_term, now, Finmap.lookup_insert _, le_rfl⟩

/-- A call that comes in order keeps what is recorded. -/
theorem RecordedSince.step {term : UInt64} {w w' : Watch} {op : TrackerOp} {id : UInt64} {now : Int}
    (hstep : Watch.step term w op = some w') (horder : InOrder term w op)
    (hlive : op ≠ .finishExpiry id true)
    (h : w.tracker.term = term ∧ RecordedSince w.tracker id now) :
    w'.tracker.term = term ∧ RecordedSince w'.tracker id now := by
  obtain ⟨hterm, r, hr, hle⟩ := h
  cases hstep
  cases op with
  | finishExpiry id' committed =>
    refine ⟨hterm, r, ?_, hle⟩
    cases committed with
    | false => exact hr
    | true =>
      have hne : id ≠ id' := by
        rintro rfl
        exact hlive rfl
      exact (Finmap.lookup_erase_ne hne).trans hr
  | call x c =>
    refine ⟨(c.run_term w.tracker term x).1, ?_⟩
    have hsync := LeaseTracker.syncTerm_of_eq x hterm.symm
    show RecordedSince (c.run w.tracker term x) id now
    rcases c.run_cases w.tracker term x with ⟨lease, rfl, -, -, heq⟩ | ⟨expiring, -, heq⟩
    · rw [heq, hsync]
      by_cases hid : id = lease.leaseID
      · -- the record is overwritten, but not with an older reading
        subst hid
        have hrx : r ≤ x := horder r (by rw [hsync]; exact hr)
        exact ⟨x, Finmap.lookup_insert _, by omega⟩
      · exact ⟨r, (Finmap.lookup_insert_of_ne _ hid).trans hr, hle⟩
    · rw [heq, hsync]
      exact ⟨r, hr, hle⟩

/-- **A renewal never shortens a lease**, if no renewal reaches the tracker with an older reading
than the one recorded for its lease. -/
theorem renewalsKept {term : UInt64} (t : Trace (Watch.step term))
    (horder : t.Steps (InOrder term)) : RenewalsKept term t := by
  intro i j now lease hij hact hok hlive
  have hstep := t.step_state hact
  have hstart : (t.state (i + 1)).tracker = ((t.state i).tracker.renew term now lease).1 :=
    congrArg Watch.tracker (Option.some.inj hstep).symm
  have hrec := recordedSince_of_renew hok
  rw [← hstart] at hrec
  have hlater := t.invariant_from
    (I := fun w => w.tracker.term = term ∧ RecordedSince w.tracker lease.leaseID now)
    (show i + 1 ≤ j from hij) hrec fun k op w' hik hkj hop hnext hI =>
      RecordedSince.step hnext (horder.at hop)
        (fun heq => hlive k (by omega) hkj (heq ▸ hop)) hI
  exact hlater.2.le_deadline

theorem renewalsKept_failedExpiry :
    failedExpiry.Steps (InOrder 1) ∧
      Time.add 4 fiveLease.ttl ≤ (failedExpiry.state 2).tracker.deadline fiveLease := by
  have horder : failedExpiry.Steps (InOrder 1) := by decide
  refine ⟨horder, renewalsKept failedExpiry horder 0 2 4 fiveLease (by omega) rfl rfl ?_⟩
  intro k hik hkj heq
  obtain rfl : k = 1 := by omega
  cases heq

/-- A renewal with reading 3 arrives after one with reading 4. -/
def overtaken : Trace (Watch.step 1) where
  start := ⟨.zero, []⟩
  acts := [.call 1 (.alive fiveLease), .call 4 (.renew fiveLease), .call 3 (.renew fiveLease)]
  enabled := rfl

/-- The second renewal moves the deadline from 9 to 8. -/
theorem not_renewalsKept_overtaken : ¬ RenewalsKept 1 overtaken := by
  intro h
  have hlive : ∀ k, 1 < k → k < 3 →
      overtaken.acts[k]? ≠ some (.finishExpiry fiveLease.leaseID true) := by
    intro k hik hkj heq
    obtain rfl : k = 2 := by omega
    cases heq
  exact absurd (h 1 3 4 fiveLease (by omega) rfl rfl hlive) (by decide)

end Clavis
