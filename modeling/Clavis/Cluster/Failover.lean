import Clavis.Cluster.LeaseTracker
import Clavis.Lib.Trace
import Clavis.State.Invariants

/-!
# Clavis — the failover rule

Renewal times are kept in the leader's memory only and die with it. The comment on `leaseTracker`
argues that this is safe: a new leader gives every lease a full TTL from the moment it took over,
and every renewal an old leader acknowledged happened before that, because the old leader verified
its leadership with a quorum before it acknowledged.

This module makes the argument over whole runs of a cluster: any number of nodes, each with its own
tracker and with a clock at a constant offset from real time, and any number of leadership terms.

* `World` — real time, who won which term and when, who believes to lead which term (an old leader
  may not have noticed a newer one), the trackers, and the lease records in the replicated log.
* `World.step` — the moves. What the code takes from Raft stands in their guards: a term is won at
  most once; a leader calls its tracker while it leads and with its own term; and of the leases of
  other terms a leader knows those that were in its log when it won (`Inherited`).
* `Sound` — what holds of the trackers and the records in every world, from the elections on;
  `RenewalKept` and `ClaimKept` — what a renewal and a claim leave behind.
* `failover_rule` — the headline.
-/

namespace Clavis

open Lib

/-! ## The cluster -/

/-- The creation of a lease: the leader whose clock was read, its term, the real time of the
reading and the record the log entry makes. -/
structure Birth (N : Type) where
  creator : N
  term : UInt64
  born : Int
  lease : Lease

/-- A cluster of nodes `N`. -/
structure World (N : Type) where
  /-- Real time. -/
  now : Int
  /-- The winner of a term, with the real time of the election. -/
  leaderOf : UInt64 → Option (N × Int)
  /-- The term a node believes to lead. -/
  leads : N → Option UInt64
  trackers : N → LeaseTracker
  /-- The leases created so far, by ID. -/
  book : UInt64 → Option (Birth N)
  /-- The leases whose expiry a node's expiry loop has seen committed. They are gone from that
  node's state machine, so the loop never hands them to `claimExpired` again. -/
  expired : N → Finset UInt64

/-- The moves of a cluster. -/
inductive World.Act (N : Type) where
  | tick (d : Nat)
  | elect (n : N) (term : UInt64)
  | stepDown (n : N)
  | create (n : N) (term : UInt64) (m : Machine) (ownerID : String) (ttl : Duration)
  | call (n : N) (term : UInt64) (c : TrackerCall)
  | finishExpiry (n : N) (leaseID : UInt64) (committed : Bool)

namespace World

variable {N : Type}

/-- A cluster before its first election. -/
def init (now : Int) : World N :=
  ⟨now, fun _ => none, fun _ => none, fun _ => .zero, fun _ => none, fun _ => ∅⟩

/-- The log holds this very record. -/
def Knows (w : World N) (lease : Lease) : Prop :=
  (w.book lease.leaseID).map Birth.lease = some lease

instance (w : World N) (lease : Lease) : Decidable (w.Knows lease) :=
  inferInstanceAs (Decidable (_ = _))

/-- What the leader of a term can know of a creation while it leads. An entry it has applied is one
of its own term, or was in its log when it won; a former leader that goes on reading its clock adds
nothing to the log of the new one. -/
def Inherited (w : World N) (term id : UInt64) : Prop :=
  ∀ b ∈ w.book id, ∀ x ∈ w.leaderOf term, b.term = term ∨ b.born ≤ x.2

instance (w : World N) (term id : UInt64) : Decidable (w.Inherited term id) :=
  have (b : Birth N) : Decidable (∀ x ∈ w.leaderOf term, b.term = term ∨ b.born ≤ x.2) :=
    Option.decidableForallMem _
  Option.decidableForallMem _

variable [DecidableEq N] (offset : N → Int)

/-- `Node.Now` of node `n`: real time at the node's offset. -/
def clock (w : World N) (n : N) : Int := w.now + offset n

/-- The records a node may hand to a call in a term that it leads: it knows them from the log, and
`claimExpired` is not given a lease that the node's own loop has finished expiring. -/
def Offers (w : World N) (n : N) (term : UInt64) (c : TrackerCall) : Prop :=
  (∀ lease ∈ c.leases, w.Knows lease ∧ w.Inherited term lease.leaseID) ∧
    match c with
    | .claimExpired leases => ∀ lease ∈ leases, lease.leaseID ∉ w.expired n
    | _ => True

instance (w : World N) (n : N) (term : UInt64) : (c : TrackerCall) → Decidable (w.Offers n term c)
  | .renew lease => inferInstanceAs (Decidable
      ((∀ l ∈ [lease], w.Knows l ∧ w.Inherited term l.leaseID) ∧ True))
  | .claimExpired leases => inferInstanceAs (Decidable
      ((∀ l ∈ leases, w.Knows l ∧ w.Inherited term l.leaseID) ∧
        ∀ l ∈ leases, l.leaseID ∉ w.expired n))
  | .alive lease => inferInstanceAs (Decidable
      ((∀ l ∈ [lease], w.Knows l ∧ w.Inherited term l.leaseID) ∧ True))

/-- A call reaches the tracker of a node, with a term and a reading of the node's clock. -/
def record (w : World N) (n : N) (term : UInt64) (c : TrackerCall) (reading : Int) : World N :=
  { w with trackers := Function.update w.trackers n (c.run (w.trackers n) term reading) }

@[simp] theorem record_trackers_self (w : World N) (n : N) (term : UInt64) (c : TrackerCall)
    (reading : Int) : (w.record n term c reading).trackers n = c.run (w.trackers n) term reading :=
  Function.update_self ..

theorem record_trackers_of_ne {w : World N} {n k : N} {term : UInt64} {c : TrackerCall}
    {reading : Int} (hk : k ≠ n) : (w.record n term c reading).trackers k = w.trackers k :=
  Function.update_of_ne hk ..

/-- The command `Service.CreateLease` builds on node `n`. -/
def createCmd (w : World N) (n : N) (ownerID : String) (ttl : Duration) : CommandWrapper :=
  newCreateLeaseCmd ownerID ttl (w.clock offset n)

/-- One move. Terms start at 1, a term has at most one winner, and a node calls its tracker only
while it leads and with the term it leads. `create` reads the clock of a node that has won the term,
and may have lost it since, and adds the record that the state machine makes of the command; the
reading is one that `UnixNano` can represent. -/
def step (w : World N) : Act N → Option (World N)
  | .tick d => some { w with now := w.now + d }
  | .elect n term =>
    if term ≠ 0 ∧ w.leaderOf term = none then
      some { w with
        leaderOf := Function.update w.leaderOf term (some (n, w.now))
        leads := Function.update w.leads n (some term) }
    else none
  | .stepDown n => some { w with leads := Function.update w.leads n none }
  | .create n term m ownerID ttl =>
    if (w.leaderOf term).map Prod.fst = some n ∧ w.book m.fsm.nextLeaseID = none ∧
        m.Creates (w.createCmd offset n ownerID ttl) ∧
        (Time.unixNano (w.clock offset n)).toInt = w.clock offset n then
      let lease := m.createdLease (w.createCmd offset n ownerID ttl).getCreateLease
      some { w with
        book := Function.update w.book m.fsm.nextLeaseID (some ⟨n, term, w.now, lease⟩) }
    else none
  | .call n term c =>
    if w.leads n = some term ∧ w.Offers n term c then
      some (w.record n term c (w.clock offset n))
    else none
  | .finishExpiry n leaseID committed =>
    some { w with
      trackers := Function.update w.trackers n ((w.trackers n).finishExpiry leaseID committed)
      expired := if committed then
          Function.update w.expired n (insert leaseID (w.expired n))
        else w.expired }

/-! ## What one move does

`Moved` lists the moves with their guards and the world each one leaves; every fact about a step
below is a case analysis on it. -/

inductive Moved (w : World N) : Act N → World N → Prop where
  | tick (d : Nat) : Moved w (.tick d) { w with now := w.now + d }
  | elect (n : N) (term : UInt64) (hterm : term ≠ 0) (hfree : w.leaderOf term = none) :
      Moved w (.elect n term) { w with
        leaderOf := Function.update w.leaderOf term (some (n, w.now))
        leads := Function.update w.leads n (some term) }
  | stepDown (n : N) : Moved w (.stepDown n) { w with leads := Function.update w.leads n none }
  | create (n : N) (term : UInt64) (m : Machine) (ownerID : String) (ttl : Duration)
      (hwinner : (w.leaderOf term).map Prod.fst = some n) (hnew : w.book m.fsm.nextLeaseID = none)
      (hcreates : m.Creates (w.createCmd offset n ownerID ttl))
      (hfits : (Time.unixNano (w.clock offset n)).toInt = w.clock offset n) :
      Moved w (.create n term m ownerID ttl) { w with
        book := Function.update w.book m.fsm.nextLeaseID (some ⟨n, term, w.now,
          m.createdLease (w.createCmd offset n ownerID ttl).getCreateLease⟩) }
  | call (n : N) (term : UInt64) (c : TrackerCall) (hleads : w.leads n = some term)
      (hoffers : w.Offers n term c) :
      Moved w (.call n term c) (w.record n term c (w.clock offset n))
  | finishExpiry (n : N) (leaseID : UInt64) (committed : Bool) :
      Moved w (.finishExpiry n leaseID committed) { w with
        trackers := Function.update w.trackers n ((w.trackers n).finishExpiry leaseID committed)
        expired := if committed then
            Function.update w.expired n (insert leaseID (w.expired n))
          else w.expired }

section Step

variable {offset : N → Int} {w w' : World N} {a : Act N}

theorem moved_of_step (h : w.step offset a = some w') : Moved offset w a w' := by
  cases a with
  | tick d =>
    cases h
    exact .tick d
  | elect n term =>
    simp only [step] at h
    split at h <;> cases h
    rename_i hguard
    exact .elect n term hguard.1 hguard.2
  | stepDown n =>
    cases h
    exact .stepDown n
  | create n term m ownerID ttl =>
    simp only [step] at h
    split at h <;> cases h
    rename_i hguard
    exact .create n term m ownerID ttl hguard.1 hguard.2.1 hguard.2.2.1 hguard.2.2.2
  | call n term c =>
    simp only [step] at h
    split at h <;> cases h
    rename_i hguard
    exact .call n term c hguard.1 hguard.2
  | finishExpiry n leaseID committed =>
    cases h
    exact .finishExpiry n leaseID committed

/-- Real time does not run backwards. -/
theorem Moved.now_le (h : Moved offset w a w') : w.now ≤ w'.now := by
  cases h with
  | tick d =>
    show w.now ≤ w.now + d
    omega
  | _ => exact le_refl w.now

/-- A term's winner stays its winner; a new one is recorded at the time of the election. -/
theorem Moved.leaderOf_cases (h : Moved offset w a w') (term : UInt64) :
    w'.leaderOf term = w.leaderOf term ∨
      ∃ n, a = .elect n term ∧ w.leaderOf term = none ∧ w'.leaderOf term = some (n, w.now) := by
  cases h with
  | elect n T hterm hfree =>
    by_cases hT : term = T
    · subst hT
      exact Or.inr ⟨n, rfl, hfree, Function.update_self ..⟩
    · exact Or.inl (Function.update_of_ne hT ..)
  | _ => exact Or.inl rfl

theorem Moved.leaderOf_mono (h : Moved offset w a w') {term : UInt64} {x : N × Int}
    (hx : w.leaderOf term = some x) : w'.leaderOf term = some x := by
  rcases h.leaderOf_cases term with heq | ⟨n, -, hnone, -⟩
  · rw [heq, hx]
  · rw [hnone] at hx
    cases hx

/-- A node comes to lead a term only by winning it. -/
theorem Moved.leads_cases (h : Moved offset w a w') {n : N} {term : UInt64}
    (hleads : w'.leads n = some term) :
    w.leads n = some term ∨
      (term ≠ 0 ∧ w.leaderOf term = none ∧ w'.leaderOf term = some (n, w.now)) := by
  cases h with
  | elect k T hterm hfree =>
    by_cases hn : n = k
    · subst hn
      have hT : T = term := by simpa [Function.update_self] using hleads
      subst hT
      exact Or.inr ⟨hterm, hfree, Function.update_self ..⟩
    · exact Or.inl (by simpa [Function.update_of_ne hn] using hleads)
  | stepDown k =>
    by_cases hn : n = k
    · subst hn
      simp [Function.update_self] at hleads
    · exact Or.inl (by simpa [Function.update_of_ne hn] using hleads)
  | _ => exact Or.inl hleads

/-- A lease record, once made, stays as it is. -/
theorem Moved.book_cases (h : Moved offset w a w') {id : UInt64} {b : Birth N}
    (hb : w'.book id = some b) :
    w.book id = some b ∨
      ∃ n term, ∃ m : Machine, ∃ ownerID ttl, (w.leaderOf term).map Prod.fst = some n ∧
        m.fsm.nextLeaseID = id ∧ m.Creates (w.createCmd offset n ownerID ttl) ∧
        (Time.unixNano (w.clock offset n)).toInt = w.clock offset n ∧
        b = ⟨n, term, w.now, m.createdLease (w.createCmd offset n ownerID ttl).getCreateLease⟩ := by
  cases h with
  | create n term m ownerID ttl hwinner hnew hcreates hfits =>
    rcases update_some_eq_some hb with ⟨hid, heq⟩ | ⟨-, hold⟩
    · exact Or.inr ⟨n, term, m, ownerID, ttl, hwinner, hid.symm, hcreates, hfits, heq⟩
    · exact Or.inl hold
  | _ => exact Or.inl hb

theorem Moved.book_mono (h : Moved offset w a w') {id : UInt64} {b : Birth N}
    (hb : w.book id = some b) : w'.book id = some b := by
  cases h with
  | create n term m ownerID ttl hwinner hnew hcreates hfits =>
    have hid : id ≠ m.fsm.nextLeaseID := by
      intro hid
      rw [hid, hnew] at hb
      cases hb
    show Function.update w.book m.fsm.nextLeaseID _ id = some b
    rw [Function.update_of_ne hid, hb]
  | _ => exact hb

theorem Moved.of_call {n : N} {term : UInt64} {c : TrackerCall}
    (h : Moved offset w (.call n term c) w') :
    w.leads n = some term ∧ w.Offers n term c ∧
      w'.trackers n = c.run (w.trackers n) term (w.clock offset n) := by
  cases h with
  | call _ _ _ hleads hoffers => exact ⟨hleads, hoffers, Function.update_self ..⟩

/-- A move is a call of a leader, or moves the tracker of a node at most by `finishExpiry`. -/
theorem Moved.tracker_cases (h : Moved offset w a w') (n : N) :
    (∃ k term c, w.leads k = some term ∧ w.Offers k term c ∧
      w' = w.record k term c (w.clock offset k)) ∨
    (w'.trackers n = w.trackers n ∧ w'.expired n = w.expired n) ∨
    (∃ leaseID committed, w'.trackers n = (w.trackers n).finishExpiry leaseID committed ∧
      w'.expired n = if committed then insert leaseID (w.expired n) else w.expired n) := by
  cases h with
  | call k term c hleads hoffers => exact Or.inl ⟨k, term, c, hleads, hoffers, rfl⟩
  | finishExpiry k leaseID committed =>
    by_cases hn : n = k
    · subst hn
      refine Or.inr (Or.inr ⟨leaseID, committed, Function.update_self .., ?_⟩)
      cases committed with
      | false => rfl
      | true => exact Function.update_self ..
    · refine Or.inr (Or.inl ⟨Function.update_of_ne hn .., ?_⟩)
      cases committed with
      | false => rfl
      | true => exact Function.update_of_ne hn ..
  | _ => exact Or.inr (Or.inl ⟨rfl, rfl⟩)

end Step

/-! ## What every reachable world satisfies -/

/-- The bookkeeping of terms, trackers and lease records. `since` is the takeover rule: a tracker
that has been used counts its term from a reading taken after the election. -/
structure Sound (w : World N) : Prop where
  leads : ∀ n term, w.leads n = some term → term ≠ 0 ∧ ∃ won, w.leaderOf term = some (n, won)
  won_le : ∀ term n won, w.leaderOf term = some (n, won) → won ≤ w.now
  since : ∀ n, (w.trackers n).term ≠ 0 → ∃ s won, (w.trackers n).leaderSince = some s ∧
    w.leaderOf (w.trackers n).term = some (n, won) ∧ won + offset n ≤ s
  book : ∀ id b, w.book id = some b → b.lease.leaseID = id ∧
    b.lease.expiresAt = b.born + offset b.creator + b.lease.ttl.toInt ∧
    ∃ won, w.leaderOf b.term = some (b.creator, won)

section Sound

variable {offset : N → Int} {w w' : World N} {a : Act N}

omit [DecidableEq N] in
theorem sound_init (now : Int) : Sound offset (init now : World N) where
  leads := by
    intro n term h
    cases h
  won_le := by
    intro term n won h
    cases h
  since := by
    intro n h
    exact absurd rfl h
  book := by
    intro id b h
    cases h

/-- The reading was taken after node `n` won the term. -/
def ReadSince (offset : N → Int) (w : World N) (n : N) (term : UInt64) (reading : Int) : Prop :=
  ∀ won, w.leaderOf term = some (n, won) → won + offset n ≤ reading

omit [DecidableEq N] in
theorem Sound.readSince_clock (h : Sound offset w) (n : N) (term : UInt64) :
    ReadSince offset w n term (w.clock offset n) := by
  intro won hwon
  have hle := h.won_le term n won hwon
  unfold clock
  omega

omit [DecidableEq N] in
/-- The tracker a leader works with once its term is synchronised was taken over after the
election. -/
theorem Sound.since_syncTerm (h : Sound offset w) {n : N} {term : UInt64} {reading : Int}
    (hleads : w.leads n = some term) (hread : ReadSince offset w n term reading) :
    ∃ s won, ((w.trackers n).syncTerm term reading).leaderSince = some s ∧
      w.leaderOf term = some (n, won) ∧ won + offset n ≤ s := by
  obtain ⟨hterm, won, hwon⟩ := h.leads n term hleads
  by_cases heq : term = (w.trackers n).term
  · rw [LeaseTracker.syncTerm_of_eq _ heq]
    rw [heq] at hterm ⊢
    exact h.since n hterm
  · rw [LeaseTracker.syncTerm_of_ne heq]
    exact ⟨reading, won, rfl, hwon, hread won hwon⟩

/-- A call of the leader keeps the bookkeeping, if its reading is one of the term. -/
theorem Sound.record (h : Sound offset w) {n : N} {term : UInt64} {c : TrackerCall} {reading : Int}
    (hleads : w.leads n = some term) (hread : ReadSince offset w n term reading) :
    Sound offset (w.record n term c reading) where
  leads := h.leads
  won_le := h.won_le
  since := by
    intro k hne
    by_cases hk : k = n
    · subst hk
      obtain ⟨hterm, hsince⟩ := c.run_term (w.trackers k) term reading
      rw [record_trackers_self, hterm, hsince]
      exact h.since_syncTerm hleads hread
    · rw [record_trackers_of_ne hk] at hne ⊢
      exact h.since k hne
  book := h.book

omit [DecidableEq N] in
/-- The expiry of an accepted lease is the creating leader's reading plus the TTL, with no
overflow: the state machine has refused everything else. -/
theorem expiresAt_createdLease {m : Machine} {n : N} {ownerID : String} {ttl : Duration}
    (hcreates : m.Creates (w.createCmd offset n ownerID ttl))
    (hfits : (Time.unixNano (w.clock offset n)).toInt = w.clock offset n) :
    (m.createdLease (w.createCmd offset n ownerID ttl).getCreateLease).expiresAt
      = w.clock offset n + ttl.toInt := by
  have hcmd : (w.createCmd offset n ownerID ttl).getCreateLease
      = ⟨ownerID, ttl, Time.unixNano (w.clock offset n)⟩ := rfl
  obtain ⟨hat, httl, hsum⟩ := m.fits_of_creates hcreates
  rw [hcmd] at hat httl hsum ⊢
  simp only [hfits] at hat httl hsum
  show (Int64.ofInt ((Time.unixNano (w.clock offset n)).toInt + ttl.toInt)).toInt = _
  rw [hfits]
  exact Int64.toInt_ofInt_of_le (by omega) (by omega)

theorem Sound.step (h : Sound offset w) (hmoved : Moved offset w a w') : Sound offset w' where
  leads := by
    intro n term hleads
    rcases hmoved.leads_cases hleads with hold | ⟨hterm, -, hwon⟩
    · obtain ⟨hterm, won, hwon⟩ := h.leads n term hold
      exact ⟨hterm, won, hmoved.leaderOf_mono hwon⟩
    · exact ⟨hterm, w.now, hwon⟩
  won_le := by
    intro term n won hwon
    have hnow := hmoved.now_le
    rcases hmoved.leaderOf_cases term with heq | ⟨k, -, -, hk⟩
    · rw [heq] at hwon
      have hle := h.won_le term n won hwon
      omega
    · rw [hk] at hwon
      cases hwon
      exact hnow
  since := by
    intro n hne
    rcases hmoved.tracker_cases n with
      ⟨k, term, c, hleads, -, rfl⟩ | ⟨htr, -⟩ | ⟨id, ok, htr, -⟩
    · exact (h.record hleads (h.readSince_clock k term)).since n hne
    · rw [htr] at hne ⊢
      obtain ⟨s, won, hs, hwon, hle⟩ := h.since n hne
      exact ⟨s, won, hs, hmoved.leaderOf_mono hwon, hle⟩
    · -- `finishExpiry` touches neither the term nor the takeover
      rw [htr] at hne ⊢
      obtain ⟨s, won, hs, hwon, hle⟩ := h.since n hne
      exact ⟨s, won, hs, hmoved.leaderOf_mono hwon, hle⟩
  book := by
    intro id b hb
    rcases hmoved.book_cases hb with
      hold | ⟨n, term, m, ownerID, ttl, hwinner, hid, hcr, hfits, rfl⟩
    · obtain ⟨hid, hexp, won, hwon⟩ := h.book id b hold
      exact ⟨hid, hexp, won, hmoved.leaderOf_mono hwon⟩
    · obtain ⟨⟨_, won⟩, hwon, rfl⟩ := Option.map_eq_some_iff.mp hwinner
      exact ⟨hid, expiresAt_createdLease hcr hfits, won, hmoved.leaderOf_mono hwon⟩

end Sound

/-! ## What a renewal and a claim leave behind

Both facts are about a node for as long as it still leads the term in question. They speak through
`leads`, because a term once lost is never led again. -/

/-- A renewal of lease `l` at reading `r` in the term stays in the tracker, possibly replaced by a
later one, until the expiry of the lease has committed. -/
def RenewalKept (n : N) (term l : UInt64) (r : Int) (w : World N) : Prop :=
  w.leads n = some term → (w.trackers n).term = term ∧
    (l ∈ w.expired n ∨ ∃ r', (w.trackers n).renewedAt.lookup l = some r' ∧ r ≤ r')

/-- A lease claimed at reading `x` in the term keeps a deadline that has passed. -/
def ClaimKept (n : N) (term : UInt64) (lease : Lease) (x : Int) (w : World N) : Prop :=
  w.leads n = some term → (w.trackers n).term = term ∧ (w.trackers n).deadline lease ≤ x

section Tracker

variable {t : LeaseTracker} {term : UInt64} {reading : Int} (c : TrackerCall)

/-- A call with the tracker's own term does not take a renewal back, if its reading is not older. -/
theorem exists_renewedAt_run {l : UInt64} {r : Int} (hterm : t.term = term) (hr : r ≤ reading)
    (h : ∃ r', t.renewedAt.lookup l = some r' ∧ r ≤ r') :
    ∃ r', (c.run t term reading).renewedAt.lookup l = some r' ∧ r ≤ r' := by
  obtain ⟨r', hlookup, hle⟩ := h
  have hsync := LeaseTracker.syncTerm_of_eq reading hterm.symm
  rcases c.run_cases t term reading with ⟨lease, -, -, -, heq⟩ | ⟨expiring, -, heq⟩
  · rw [heq, hsync]
    by_cases hid : l = lease.leaseID
    · exact ⟨reading, by rw [hid, Finmap.lookup_insert], hr⟩
    · exact ⟨r', by rw [Finmap.lookup_insert_of_ne _ hid, hlookup], hle⟩
  · rw [heq, hsync]
    exact ⟨r', hlookup, hle⟩

/-- Nor does it move a deadline that has passed at the reading: a renewal that is in time is one of
another lease. -/
theorem deadline_run_le {lease : Lease} {x : Int} (hterm : t.term = term) (hx : x ≤ reading)
    (hsame : ∀ l ∈ c.leases, l.leaseID = lease.leaseID → l = lease) (h : t.deadline lease ≤ x) :
    (c.run t term reading).deadline lease ≤ x := by
  rw [← hterm, c.deadline_run]
  · exact h
  · intro renewed hc _ hlt hid
    obtain rfl := hsame renewed (by simp [hc, TrackerCall.leases]) hid.symm
    omega

end Tracker

section Kept

variable {offset : N → Int} {w w' : World N} {a : Act N} {n : N} {term : UInt64}

omit [DecidableEq N] in
/-- There is one record for each ID. -/
theorem knows_unique {x y : Lease} (hx : w.Knows x) (hy : w.Knows y)
    (hid : x.leaseID = y.leaseID) : x = y := by
  unfold Knows at hx hy
  rw [hid, hy] at hx
  exact (Option.some.inj hx).symm

omit [DecidableEq N] in
/-- One term, one leader. -/
theorem winner_unique {x y : N × Int} (hx : w.leaderOf term = some x)
    (hy : w.leaderOf term = some y) : x.1 = y.1 :=
  congrArg Prod.fst (Option.some.inj (hx.symm.trans hy))

/-- A node that leads a term after a move led it before, if the term was won before. -/
theorem Moved.leads_of_won (hmoved : Moved offset w a w') {x : N × Int}
    (hwon : w.leaderOf term = some x) (hleads : w'.leads n = some term) :
    w.leads n = some term := by
  rcases hmoved.leads_cases hleads with hold | ⟨-, hnone, -⟩
  · exact hold
  · rw [hnone] at hwon
    cases hwon

/-- Calls of leaders keep a renewal, if this tracker is given no reading older than it. -/
theorem RenewalKept.record {l : UInt64} {r reading : Int} {k : N} {term' : UInt64} {c : TrackerCall}
    (h : RenewalKept n term l r w) (hleads : w.leads k = some term') (hr : k = n → r ≤ reading) :
    RenewalKept n term l r (w.record k term' c reading) := by
  intro (hleadsN : w.leads n = some term)
  obtain ⟨hterm, hkept⟩ := h hleadsN
  by_cases hk : k = n
  · subst hk
    -- a call of the leader is made with the tracker's own term, so nothing is reset
    obtain rfl : term' = term := Option.some.inj (hleads.symm.trans hleadsN)
    rw [record_trackers_self]
    exact ⟨(c.run_term _ _ _).1, hkept.imp_right (exists_renewedAt_run c hterm (hr rfl))⟩
  · rw [record_trackers_of_ne (Ne.symm hk)]
    exact ⟨hterm, hkept⟩

/-- And they keep a deadline that has passed, if this tracker is given no reading older than the
claim's and no other record of the lease. -/
theorem ClaimKept.record {lease : Lease} {x reading : Int} {k : N} {term' : UInt64}
    {c : TrackerCall} (h : ClaimKept n term lease x w) (hleads : w.leads k = some term')
    (hx : k = n → x ≤ reading) (hsame : ∀ l ∈ c.leases, l.leaseID = lease.leaseID → l = lease) :
    ClaimKept n term lease x (w.record k term' c reading) := by
  intro (hleadsN : w.leads n = some term)
  obtain ⟨hterm, hpassed⟩ := h hleadsN
  by_cases hk : k = n
  · subst hk
    obtain rfl : term' = term := Option.some.inj (hleads.symm.trans hleadsN)
    rw [record_trackers_self]
    exact ⟨(c.run_term _ _ _).1, deadline_run_le c hterm (hx rfl) hsame hpassed⟩
  · rw [record_trackers_of_ne (Ne.symm hk)]
    exact ⟨hterm, hpassed⟩

theorem RenewalKept.step {l : UInt64} {r : Int} {x : N × Int} (h : RenewalKept n term l r w)
    (hr : r ≤ w.clock offset n) (hwon : w.leaderOf term = some x)
    (hmoved : Moved offset w a w') : RenewalKept n term l r w' := by
  intro hleads'
  rcases hmoved.tracker_cases n with
    ⟨k, term', c, hleads₂, -, rfl⟩ | ⟨htr, hex⟩ | ⟨id, committed, htr, hex⟩
  · refine h.record hleads₂ ?_ hleads'
    rintro rfl
    exact hr
  · rw [htr, hex]
    exact h (hmoved.leads_of_won hwon hleads')
  · -- `finishExpiry` forgets the renewal only once the expiry has committed
    obtain ⟨hterm, hkept⟩ := h (hmoved.leads_of_won hwon hleads')
    rw [htr, hex]
    refine ⟨hterm, ?_⟩
    cases committed with
    | false => exact hkept
    | true =>
      by_cases hid : l = id
      · exact Or.inl (hid ▸ Finset.mem_insert_self ..)
      · refine hkept.imp (Finset.mem_insert_of_mem ·) ?_
        rintro ⟨r', hlookup, hle⟩
        exact ⟨r', (Finmap.lookup_erase_ne hid).trans hlookup, hle⟩

theorem ClaimKept.step {lease : Lease} {x : Int} {y : N × Int} (h : ClaimKept n term lease x w)
    (hx : x ≤ w.clock offset n) (hwon : w.leaderOf term = some y) (hknown : w.Knows lease)
    (hmoved : Moved offset w a w') : ClaimKept n term lease x w' := by
  intro hleads'
  rcases hmoved.tracker_cases n with
    ⟨k, term', c, hleads₂, hoffers, rfl⟩ | ⟨htr, -⟩ | ⟨id, committed, htr, -⟩
  · refine h.record hleads₂ ?_ ?_ hleads'
    · rintro rfl
      exact hx
    · intro l hl hid
      exact knows_unique (hoffers.1 l hl).1 hknown hid
  · rw [htr]
    exact h (hmoved.leads_of_won hwon hleads')
  · obtain ⟨hterm, hpassed⟩ := h (hmoved.leads_of_won hwon hleads')
    rw [htr]
    exact ⟨hterm, (LeaseTracker.deadline_finishExpiry_le id committed).trans hpassed⟩

end Kept

/-! ## Runs -/

section Run

variable {offset : N → Int} (t : Trace (step offset))

/-- At position `i` of a run, node `n` records a renewal of lease `l` in a term: `renew` returns
nil. -/
def RenewedAt (i : Nat) (n : N) (term l : UInt64) : Prop :=
  ∃ lease : Lease, lease.leaseID = l ∧ t.acts[i]? = some (.call n term (.renew lease)) ∧
    (((t.state i).trackers n).renew term ((t.state i).clock offset n) lease).2 = .ok ()

/-- The renewal is acknowledged: `VerifyLeader` succeeded afterwards, which it does only if no
higher term had a leader when the verification began. -/
def AcknowledgedAt (i : Nat) (n : N) (term l : UInt64) : Prop :=
  RenewedAt t i n term l ∧ ∃ v, i < v ∧ ∀ term', term < term' → (t.state v).leaderOf term' = none

/-- At position `j` of a run, `claimExpired` of node `n` returns lease `l`. -/
def ClaimedAt (j : Nat) (n : N) (term l : UInt64) : Prop :=
  ∃ leases, t.acts[j]? = some (.call n term (.claimExpired leases)) ∧
    l ∈ (((t.state j).trackers n).claimExpired term ((t.state j).clock offset n) leases).2

variable {t}

theorem moved_state {k : Nat} {a : Act N} (h : t.acts[k]? = some a) :
    Moved offset (t.state k) a (t.state (k + 1)) := moved_of_step (t.step_state h)

theorem now_le_state {j k : Nat} (hjk : j ≤ k) : (t.state j).now ≤ (t.state k).now :=
  t.invariant_from (I := fun w => (t.state j).now ≤ w.now) hjk (le_refl _)
    fun _ _ _ _ _ _ hs hle => hle.trans (moved_of_step hs).now_le

theorem leaderOf_state {j k : Nat} (hjk : j ≤ k) {term : UInt64} {x : N × Int}
    (h : (t.state j).leaderOf term = some x) : (t.state k).leaderOf term = some x :=
  t.invariant_from (I := fun w => w.leaderOf term = some x) hjk h
    fun _ _ _ _ _ _ hs hw => (moved_of_step hs).leaderOf_mono hw

theorem book_state {j k : Nat} (hjk : j ≤ k) {id : UInt64} {b : Birth N}
    (h : (t.state j).book id = some b) : (t.state k).book id = some b :=
  t.invariant_from (I := fun w => w.book id = some b) hjk h
    fun _ _ _ _ _ _ hs hw => (moved_of_step hs).book_mono hw

theorem sound_state {now₀ : Int} (h0 : t.start = init now₀) (k : Nat) : Sound offset (t.state k) :=
  t.invariant (h0 ▸ sound_init now₀) (fun _ _ _ hs hI => hI.step (moved_of_step hs)) k

/-- What a claim shows at its own position: the leader knows the claimed lease from its log, and its
deadline with this leader's takeover and renewals has passed. -/
theorem ClaimedAt.spec {j : Nat} {n : N} {term l : UInt64} (h : ClaimedAt t j n term l) :
    (t.state j).leads n = some term ∧ l ∉ (t.state j).expired n ∧ (t.state j).Inherited term l ∧
    ∃ b, (t.state j).book l = some b ∧ (((t.state j).trackers n).syncTerm term
      ((t.state j).clock offset n)).deadline b.lease ≤ (t.state j).clock offset n := by
  obtain ⟨leases, hact, hmem⟩ := h
  obtain ⟨-, lease, hlease, rfl, hdl⟩ := (LeaseTracker.mem_claimLoop ..).mp hmem
  obtain ⟨hleads, hoffers, -⟩ := (moved_state hact).of_call
  obtain ⟨hknown, hinherited⟩ := hoffers.1 lease hlease
  obtain ⟨b, hb, rfl⟩ := Option.map_eq_some_iff.mp hknown
  exact ⟨hleads, hoffers.2 _ hlease, hinherited, b, hb, hdl⟩

/-- What a renewal shows at its own position, and the tracker it leaves. -/
theorem RenewedAt.spec {i : Nat} {n : N} {term l : UInt64} (h : RenewedAt t i n term l) :
    (t.state i).leads n = some term ∧
    (∃ b, (t.state i).book l = some b ∧ (t.state i).clock offset n <
      (((t.state i).trackers n).syncTerm term ((t.state i).clock offset n)).deadline b.lease) ∧
    ((t.state (i + 1)).trackers n).term = term ∧
    ((t.state (i + 1)).trackers n).renewedAt.lookup l = some ((t.state i).clock offset n) := by
  obtain ⟨lease, rfl, hact, hok⟩ := h
  obtain ⟨hleads, hoffers, htr⟩ := (moved_state hact).of_call
  have hknown : (t.state i).Knows lease := (hoffers.1 lease (List.mem_singleton_self _)).1
  obtain ⟨b, hb, rfl⟩ := Option.map_eq_some_iff.mp hknown
  rw [TrackerCall.run] at htr
  rcases ((t.state i).trackers n).renew_cases term ((t.state i).clock offset n) b.lease with
    ⟨heq, -⟩ | ⟨heq, -, hlt⟩
  · rw [heq] at hok
    cases hok
  · rw [heq] at htr
    refine ⟨hleads, ⟨b, hb, hlt⟩, ?_, ?_⟩
    · rw [htr]
      exact LeaseTracker.syncTerm_term
    · rw [htr]
      exact Finmap.lookup_insert _

/-- A recorded renewal is kept for as long as the node leads the term. -/
theorem RenewedAt.kept {now₀ : Int} (h0 : t.start = init now₀) {i j : Nat} {n : N} {term l : UInt64}
    (h : RenewedAt t i n term l) (hij : i < j) :
    RenewalKept n term l ((t.state i).clock offset n) (t.state j) := by
  obtain ⟨hleads, -, hterm, hlookup⟩ := h.spec
  obtain ⟨-, won, hwon⟩ := (sound_state h0 i).leads n term hleads
  refine t.invariant_from hij (fun _ => ⟨hterm, Or.inr ⟨_, hlookup, le_refl _⟩⟩) ?_
  intro k a w' hik _ _ hstep hkept
  have hnow : (t.state i).now ≤ (t.state k).now := now_le_state (by omega)
  exact hkept.step (by unfold clock; omega) (leaderOf_state (by omega) hwon) (moved_of_step hstep)

/-- A claimed lease keeps a passed deadline for as long as the node leads the term. -/
theorem ClaimedAt.kept {now₀ : Int} (h0 : t.start = init now₀) {i j : Nat} {n : N} {term l : UInt64}
    {b : Birth N} (h : ClaimedAt t j n term l) (hb : (t.state j).book l = some b) (hji : j < i) :
    ClaimKept n term b.lease ((t.state j).clock offset n) (t.state i) := by
  obtain ⟨hleads, -, -, b', hb', hdl⟩ := h.spec
  obtain rfl : b' = b := Option.some.inj (hb'.symm.trans hb)
  obtain ⟨-, won, hwon⟩ := (sound_state h0 j).leads n term hleads
  have hid := ((sound_state h0 j).book l b' hb).1
  obtain ⟨leases, hact, -⟩ := h
  obtain ⟨-, -, htr⟩ := (moved_state hact).of_call
  have hfirst : ClaimKept n term b'.lease ((t.state j).clock offset n) (t.state (j + 1)) := by
    intro _
    rw [htr]
    refine ⟨(TrackerCall.run_term ..).1, ?_⟩
    -- marking leases as expiring leaves every deadline as it was
    have hmark := LeaseTracker.claimLoop_expiring ((t.state j).clock offset n)
      (((t.state j).trackers n).syncTerm term ((t.state j).clock offset n)) leases
    rw [TrackerCall.run, LeaseTracker.claimExpired, hmark]
    exact hdl
  refine t.invariant_from hji hfirst ?_
  intro k a w' hjk _ _ hstep hkept
  have hnow : (t.state j).now ≤ (t.state k).now := now_le_state (by omega)
  have hknown : (t.state k).Knows b'.lease := by
    rw [Knows, hid, book_state (by omega) hb]
    rfl
  exact hkept.step (by unfold clock; omega) (leaderOf_state (by omega) hwon) hknown
    (moved_of_step hstep)

/-- A claim comes at least one TTL after its leader won the term. -/
theorem ClaimedAt.after_election {now₀ : Int} (h0 : t.start = init now₀) {j : Nat} {n : N}
    {term l : UInt64} {b : Birth N} (h : ClaimedAt t j n term l)
    (hb : (t.state j).book l = some b) :
    ∃ won, (t.state j).leaderOf term = some (n, won) ∧
      won + b.lease.ttl.toInt ≤ (t.state j).now := by
  obtain ⟨hleads, -, -, b', hb', hdl⟩ := h.spec
  obtain rfl : b' = b := Option.some.inj (hb'.symm.trans hb)
  have hsound := sound_state h0 j
  obtain ⟨s, won, hs, hwon, hle⟩ := hsound.since_syncTerm hleads (hsound.readSince_clock n term)
  have hpast := (LeaseTracker.deadline_le_iff.mp hdl).2.1 s hs
  unfold Time.add clock at hpast
  exact ⟨won, hwon, by omega⟩

/-- A claim in the term of an earlier or later renewal comes one TTL after it. -/
theorem ClaimedAt.after_renewal {now₀ : Int} (h0 : t.start = init now₀) {i j : Nat} {n : N}
    {term l : UInt64} {b : Birth N} (h : ClaimedAt t j n term l)
    (hb : (t.state j).book l = some b) (hren : RenewedAt t i n term l) :
    (t.state i).now + b.lease.ttl.toInt ≤ (t.state j).now := by
  obtain ⟨hleads, hfresh, -, b', hb', hdl⟩ := h.spec
  obtain rfl : b' = b := Option.some.inj (hb'.symm.trans hb)
  have hid := ((sound_state h0 j).book l b' hb).1
  rcases Nat.lt_trichotomy i j with hij | rfl | hji
  · -- the renewal is still in the tracker, since its expiry has not committed
    obtain ⟨hterm, hgone | ⟨r, hr, hle⟩⟩ := hren.kept h0 hij hleads
    · exact absurd hgone hfresh
    · rw [LeaseTracker.syncTerm_of_eq _ hterm.symm] at hdl
      have hpast := (LeaseTracker.deadline_le_iff.mp hdl).2.2 r (hid ▸ hr)
      unfold Time.add at hpast
      unfold clock at hpast hle
      omega
  · -- one position holds one call
    obtain ⟨leases, hact, -⟩ := h
    obtain ⟨lease, -, hact', -⟩ := hren
    rw [hact] at hact'
    cases hact'
  · -- a lease claimed before cannot be renewed in the same term any more
    obtain ⟨hleads', ⟨b'', hb'', hlt⟩, -⟩ := hren.spec
    obtain rfl : b'' = b' := Option.some.inj (hb''.symm.trans (book_state (by omega) hb))
    obtain ⟨hterm, hpassed⟩ := h.kept h0 hb hji hleads'
    rw [LeaseTracker.syncTerm_of_eq _ hterm.symm] at hlt
    have hnow : (t.state j).now ≤ (t.state i).now := now_le_state (by omega)
    unfold clock at hlt hpassed
    omega

/-- A term that had no leader at position `v` is won later. -/
theorem won_after {v j : Nat} {n : N} {term : UInt64} {won : Int}
    (hnone : (t.state v).leaderOf term = none) (hwon : (t.state j).leaderOf term = some (n, won)) :
    (t.state v).now ≤ won := by
  have hvj : v ≤ j := by
    by_contra hlt
    rw [leaderOf_state (by omega) hwon] at hnone
    cases hnone
  have hinv : ∀ x, (t.state j).leaderOf term = some x → (t.state v).now ≤ x.2 := by
    refine t.invariant_from (I := fun w => ∀ x, w.leaderOf term = some x → (t.state v).now ≤ x.2)
      hvj (fun x hx => by rw [hnone] at hx; cases hx) ?_
    intro k a w' hvk _ _ hstep hw x hx
    rcases (moved_of_step hstep).leaderOf_cases term with heq | ⟨m, -, -, hm⟩
    · exact hw x (heq ▸ hx)
    · rw [hm] at hx
      cases hx
      exact now_le_state hvk
  exact hinv (n, won) hwon

end Run

/-- **The failover rule.** Whenever `claimExpired` returns a lease in some term, real time is at
least one TTL past every acknowledged renewal of the lease in that term or an earlier one, and at
least one TTL past the creating leader's clock reading; so is the claiming leader's own clock. -/
theorem failover_rule {offset : N → Int} {t : Trace (step offset)} {now₀ : Int}
    (h0 : t.start = init now₀) {j : Nat} {n : N} {term l : UInt64}
    (hclaim : ClaimedAt t j n term l) :
    ∃ b, (t.state j).book l = some b ∧
      (∀ i m term₀, term₀ ≤ term → AcknowledgedAt t i m term₀ l →
        (t.state i).now + b.lease.ttl.toInt ≤ (t.state j).now) ∧
      b.born + b.lease.ttl.toInt ≤ (t.state j).now ∧
      b.born + offset b.creator + b.lease.ttl.toInt ≤ (t.state j).clock offset n := by
  obtain ⟨hleads, -, hinherited, b, hb, hdl⟩ := hclaim.spec
  obtain ⟨-, hexp, wonB, hwonB⟩ := (sound_state h0 j).book l b hb
  obtain ⟨won, hwon, helected⟩ := hclaim.after_election h0 hb
  have hinitial := (LeaseTracker.deadline_le_iff.mp hdl).1
  rw [hexp] at hinitial
  refine ⟨b, hb, ?_, ?_, hinitial⟩
  · intro i m term₀ hle hack
    obtain ⟨hren, v, hiv, hnone⟩ := hack
    by_cases hterm : term₀ = term
    · -- one term, one leader: the renewal and the claim met the same tracker
      subst hterm
      obtain ⟨hleadsM, -⟩ := hren.spec
      obtain ⟨-, wonM, hwonM⟩ := (sound_state h0 i).leads m term₀ hleadsM
      have hsame : m = n := by
        rcases Nat.le_total i j with hij | hji
        · exact winner_unique (leaderOf_state hij hwonM) hwon
        · exact (winner_unique (leaderOf_state hji hwon) hwonM).symm
      subst hsame
      exact hclaim.after_renewal h0 hb hren
    · -- a later term is won after the verification began, hence after the renewal
      have hlt : term₀ < term := UInt64.lt_of_le_of_ne hle hterm
      have hwon_v := won_after (hnone term hlt) hwon
      have hnow : (t.state i).now ≤ (t.state v).now := now_le_state (by omega)
      omega
  · rcases hinherited b hb (n, won) hwon with rfl | hborn
    · -- the creating leader claims: its own clock has passed the expiry it stamped
      have hsame : b.creator = n := winner_unique hwonB hwon
      rw [hsame] at hinitial
      unfold clock at hinitial
      omega
    · -- another leader won its term after the reading, and has waited a full TTL since
      have hborn' : b.born ≤ won := hborn
      omega

/-- Two nodes whose clocks are 1000 apart. -/
def skewed : Bool → Int
  | false => 0
  | true => 1000

/-- The record of the lease in `takeover`. -/
def takeoverLease : Lease := ⟨1, "client-1", 110, 10⟩

/-- The first node creates a lease of TTL 10 and renews it; the second one, on whose clock the lease
has long passed its initial expiry, takes over and has to wait a full TTL. -/
def takeover : Trace (step skewed) where
  start := init 100
  acts := [.elect false 1, .create false 1 Machine.new "client-1" 10, .tick 5,
    .call false 1 (.renew takeoverLease), .elect true 2, .call true 2 (.alive takeoverLease),
    .tick 10, .call true 2 (.claimExpired [takeoverLease])]
  enabled := by decide

theorem acknowledgedAt_takeover : AcknowledgedAt takeover 3 false 1 1 := by
  refine ⟨⟨takeoverLease, rfl, rfl, by decide⟩, 4, by decide, ?_⟩
  intro term' hlt
  have hne : term' ≠ 1 := by
    rintro rfl
    exact absurd hlt (by decide)
  exact Function.update_of_ne hne ..

theorem claimedAt_takeover : ClaimedAt takeover 7 true 2 1 :=
  ⟨[takeoverLease], rfl, by decide⟩

/-- The claim of `takeover` comes exactly one TTL after the acknowledged renewal at 105, and so more
than one TTL after the creation at 100, although on the claimer's clock both are long past. -/
theorem failover_rule_takeover :
    ∃ b, (takeover.state 7).book 1 = some b ∧ b.born = 100 ∧ b.lease.ttl.toInt = 10 ∧
      105 + b.lease.ttl.toInt ≤ (takeover.state 7).now ∧
      b.born + b.lease.ttl.toInt ≤ (takeover.state 7).now ∧
      100 + b.lease.ttl.toInt ≤ (takeover.state 7).clock skewed true := by
  obtain ⟨b, hb, hrenewal, hcreation, hclock⟩ := failover_rule rfl claimedAt_takeover
  have hborn : b.born = 100 ∧ b.lease.ttl.toInt = 10 ∧ b.born + skewed b.creator = 100 := by
    cases hb
    exact ⟨rfl, rfl, rfl⟩
  refine ⟨b, hb, hborn.1, hborn.2.1, hrenewal 3 false 1 (by decide) acknowledgedAt_takeover,
    hcreation, ?_⟩
  rw [hborn.2.2] at hclock
  exact hclock

end World

end Clavis
