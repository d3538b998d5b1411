import Clavis.Cluster.Failover
import Clavis.Cluster.Raft

/-!
# Clavis — how long a lease lasts

`World` knows the trackers of all nodes, `Raft` one node's log. This module puts them over one
committed log, to say what the cluster as a whole promises about a lease: once a `CreateLease` has
been committed or a renewal acknowledged, the lease is in the replicated state for a full TTL,
through any number of elections and whatever the nodes' clocks say.

* `Deployment` — the cluster, the log entries committed so far, the clock readings the nodes have
  taken, and what the trackers have answered: the recorded renewals, the acknowledged ones among
  them, and the claims of the expiry loops.
* `Deployment.step` — the moves. A call reads the clock in one move and reaches the tracker in
  another, at any time after it, with any term and with records looked up in any part of the log.
  What the code takes from Raft stands in the guards. An entry of a term is proposed by the winner
  of the term, and terms do not decrease along the log. What a leader has applied from earlier terms
  was in its log when it won. `VerifyLeader` succeeds if the node leads and no higher term has been
  won. `renew` runs after `awaitTermApplied`, so an entry of the term has been applied.
* `Suits` — the preconditions. The code does not ensure them, as `Cluster.Node`, `Cluster.Renewal`,
  `Cluster.Deadline` and `Cluster.Takeover` show for single nodes: a tracker is called with the term
  that its node leads, with a reading taken since the election and not older than one it was given
  before; a renewal is verified in the term in which it was recorded; and an expiry is committed in
  the term in which the lease was claimed.
* `Claimed`, `Renewed` — what is known of a claim and of a recorded renewal in every later state,
  and `Ok`, the invariant of a run.
* `lease_lasts` — the headline.
-/

namespace Clavis

open Lib

/-- A lease that a leader's tracker has renewed, or has returned from `claimExpired`: by whom, in
which term, the record, and the real time at which the clock was read for it. -/
structure Mark (N : Type) where
  node : N
  term : UInt64
  lease : Lease
  time : Int
deriving DecidableEq

/-- A cluster with its committed log. -/
structure Deployment (N : Type) where
  world : World N
  /-- The highest term that has been won. -/
  top : UInt64
  log : List Entry
  /-- Who has read its clock, and when. -/
  readings : List (N × Int)
  /-- The reading that a node's tracker was given last, by its real time. -/
  heard : N → Int
  /-- The renewals the trackers have accepted. -/
  renewals : List (Mark N)
  /-- Those after which `VerifyLeader` has succeeded. -/
  verified : List (Mark N)
  /-- The leases `claimExpired` has returned. -/
  claims : List (Mark N)

inductive Deployment.Act (N : Type) where
  | world (a : World.Act N)
  /-- `Node.Now`, for a call of the tracker. -/
  | readClock (n : N)
  /-- The tracker is called, with the reading that was taken at `time` and with records from the
  first `k` entries. -/
  | track (n : N) (term : UInt64) (c : TrackerCall) (k : Nat) (time : Int)
  | verifyLeader (r : Mark N)
  /-- An entry that node `n` proposed is committed. -/
  | commit (n : N) (e : Entry)

namespace Deployment

variable {N : Type}

def init (now : Int) : Deployment N := ⟨.init now, 0, [], [], fun _ => now, [], [], []⟩

/-- The state machine after the first `k` entries. -/
def fsmAt (s : Deployment N) (k : Nat) : Machine := stateAfter (s.log.take k)

/-- The replicated state. -/
def fsm (s : Deployment N) : Machine := stateAfter s.log

/-- The leader of the term finds this record when it has applied the first `k` entries. -/
def Finds (s : Deployment N) (term : UInt64) (k : Nat) (lease : Lease) : Prop :=
  (s.fsmAt k).getLease lease.leaseID = some lease ∧ s.world.Inherited term lease.leaseID

instance (s : Deployment N) (term : UInt64) (k : Nat) (lease : Lease) :
    Decidable (s.Finds term k lease) := inferInstanceAs (Decidable (_ ∧ _))

/-- The moves of the cluster that the log has no part in; `finishExpiry` is told of a commit only
when there was one. -/
def Plain (s : Deployment N) : World.Act N → Prop
  | .call _ _ _ => False
  | .finishExpiry _ id committed => committed = true → ∃ e ∈ s.log, e.expires = some id
  | _ => True

instance (s : Deployment N) : (a : World.Act N) → Decidable (s.Plain a)
  | .call _ _ _ => isFalse id
  | .finishExpiry _ _ _ => inferInstanceAs (Decidable (_ → _))
  | .tick _ => isTrue trivial
  | .elect _ _ => isTrue trivial
  | .stepDown _ => isTrue trivial
  | .create _ _ _ _ _ => isTrue trivial

/-- The highest term won after a move. -/
def topAfter (s : Deployment N) : World.Act N → UInt64
  | .elect _ term => if s.top < term then term else s.top
  | _ => s.top

variable [DecidableEq N]

/-- What a call of the tracker has looked up. `renew` has waited for an entry of the term, and the
expiry loop does not find a lease again whose expiry it has seen committed. -/
def Sees (s : Deployment N) (n : N) (term : UInt64) (k : Nat) (c : TrackerCall) : Prop :=
  (∀ lease ∈ c.leases, s.Finds term k lease) ∧
    match c with
    | .renew _ => ∃ e ∈ s.log.take k, e.term = term
    | .claimExpired leases => ∀ lease ∈ leases, lease.leaseID ∉ s.world.expired n
    | .alive _ => True

instance (s : Deployment N) (n : N) (term : UInt64) (k : Nat) :
    (c : TrackerCall) → Decidable (s.Sees n term k c)
  | .renew lease => inferInstanceAs (Decidable ((∀ l ∈ [lease], s.Finds term k l) ∧ _))
  | .claimExpired leases => inferInstanceAs (Decidable ((∀ l ∈ leases, s.Finds term k l) ∧ _))
  | .alive lease => inferInstanceAs (Decidable ((∀ l ∈ [lease], s.Finds term k l) ∧ True))

/-- The entry may be committed next. An `ExpireLease` comes from a batch that the proposer's loop
has claimed, and a command that creates a lease from a `CreateLease` that has read the proposer's
clock. -/
def Commits (s : Deployment N) (n : N) (e : Entry) : Prop :=
  (s.world.leaderOf e.term).map Prod.fst = some n ∧ (∀ e' ∈ s.log, e'.term ≤ e.term) ∧
  (∀ id ∈ e.expires, ∃ c ∈ s.claims, c.node = n ∧ c.lease.leaseID = id) ∧
  (∀ cmd ∈ e.cmd, s.fsm.Creates cmd →
    (s.world.book s.fsm.fsm.nextLeaseID).map (fun b => (b.creator, b.lease))
      = some (n, s.fsm.createdLease cmd.getCreateLease)) ∧
  Machine.new.leaseCount (commands (s.log ++ [e])) < 2 ^ 64 - 1

instance (s : Deployment N) (n : N) (e : Entry) : Decidable (s.Commits n e) :=
  have : Decidable (∀ id ∈ e.expires, ∃ c ∈ s.claims, c.node = n ∧ c.lease.leaseID = id) :=
    Option.decidableForallMem _
  have : Decidable (∀ cmd ∈ e.cmd, s.fsm.Creates cmd →
      (s.world.book s.fsm.fsm.nextLeaseID).map (fun b => (b.creator, b.lease))
        = some (n, s.fsm.createdLease cmd.getCreateLease)) :=
    Option.decidableForallMem _
  inferInstanceAs (Decidable (_ ∧ _ ∧ _ ∧ _ ∧ _))

variable (offset : N → Int)

/-- The renewal that a call records, as a mark. -/
def renewed (w : World N) (n : N) (term : UInt64) (c : TrackerCall) (time : Int) : List (Mark N) :=
  match c with
  | .renew lease =>
    match ((w.trackers n).renew term (time + offset n) lease).2 with
    | .ok _ => [⟨n, term, lease, time⟩]
    | .error _ => []
  | _ => []

/-- What `claimExpired` returns, as marks. -/
def claimed (w : World N) (n : N) (term : UInt64) (c : TrackerCall) (time : Int) : List (Mark N) :=
  match c with
  | .claimExpired leases =>
    let ids := ((w.trackers n).claimExpired term (time + offset n) leases).2
    (leases.filter fun lease => lease.leaseID ∈ ids).map fun lease => ⟨n, term, lease, time⟩
  | _ => []

/-- A call reaches the tracker of node `n` with the reading taken at `time`. -/
def track (s : Deployment N) (n : N) (term : UInt64) (c : TrackerCall) (time : Int) :
    Deployment N :=
  { s with
    world := s.world.record n term c (time + offset n)
    heard := Function.update s.heard n time
    renewals := renewed offset s.world n term c time ++ s.renewals
    claims := claimed offset s.world n term c time ++ s.claims }

def step (s : Deployment N) : Act N → Option (Deployment N)
  | .world a =>
    if s.Plain a then
      (s.world.step offset a).map fun w => { s with world := w, top := s.topAfter a }
    else none
  | .readClock n => some { s with readings := (n, s.world.now) :: s.readings }
  | .track n term c k time =>
    if (n, time) ∈ s.readings ∧ s.Sees n term k c then some (s.track offset n term c time) else none
  | .verifyLeader r =>
    if r ∈ s.renewals ∧ s.world.leads r.node = some s.top then
      some { s with verified := r :: s.verified }
    else none
  | .commit n e => if s.Commits n e then some { s with log := s.log ++ [e] } else none

/-- The preconditions. -/
def Suits (s : Deployment N) : Act N → Prop
  | .track n term _ _ time =>
    s.world.leads n = some term ∧ (∀ x ∈ s.world.leaderOf term, x.2 ≤ time) ∧ s.heard n ≤ time
  | .verifyLeader r => r.term = s.top
  | .commit _ e => ∀ id ∈ e.expires, ∃ c ∈ s.claims, c.term = e.term ∧ c.lease.leaseID = id
  | _ => True

instance (s : Deployment N) : (a : Act N) → Decidable (s.Suits a)
  | .track _ term _ _ time =>
    have : Decidable (∀ x ∈ s.world.leaderOf term, x.2 ≤ time) := Option.decidableForallMem _
    inferInstanceAs (Decidable (_ ∧ _ ∧ _))
  | .verifyLeader _ => inferInstanceAs (Decidable (_ = _))
  | .commit _ _ => Option.decidableForallMem _
  | .world _ => isTrue trivial
  | .readClock _ => isTrue trivial

/-! ## What one move does -/

inductive Moved (s : Deployment N) : Act N → Deployment N → Prop where
  | world (a : World.Act N) (w : World N) (hplain : s.Plain a)
      (hmoved : World.Moved offset s.world a w) :
      Moved s (.world a) { s with world := w, top := s.topAfter a }
  | readClock (n : N) :
      Moved s (.readClock n) { s with readings := (n, s.world.now) :: s.readings }
  | tracked (n : N) (term : UInt64) (c : TrackerCall) (k : Nat) (time : Int)
      (hread : (n, time) ∈ s.readings) (hsees : s.Sees n term k c) :
      Moved s (.track n term c k time) (s.track offset n term c time)
  | verified (r : Mark N) (hmem : r ∈ s.renewals) :
      Moved s (.verifyLeader r) { s with verified := r :: s.verified }
  | committed (n : N) (e : Entry) (hcommits : s.Commits n e) :
      Moved s (.commit n e) { s with log := s.log ++ [e] }

section Step

variable {offset : N → Int} {s s' : Deployment N} {a : Act N}

theorem moved_of_step (h : s.step offset a = some s') : Moved offset s a s' := by
  cases a with
  | world a =>
    obtain ⟨hplain, heq⟩ := Option.ite_none_right_eq_some.mp h
    obtain ⟨w, hw, rfl⟩ := Option.map_eq_some_iff.mp heq
    exact .world a w hplain (World.moved_of_step hw)
  | readClock n =>
    cases h
    exact .readClock n
  | track n term c k time =>
    obtain ⟨⟨hread, hsees⟩, heq⟩ := Option.ite_none_right_eq_some.mp h
    cases heq
    exact .tracked n term c k time hread hsees
  | verifyLeader r =>
    obtain ⟨⟨hmem, -⟩, heq⟩ := Option.ite_none_right_eq_some.mp h
    cases heq
    exact .verified r hmem
  | commit n e =>
    obtain ⟨hcommits, heq⟩ := Option.ite_none_right_eq_some.mp h
    cases heq
    exact .committed n e hcommits

/-- Neither time nor the records of the cluster go back. -/
theorem Moved.now_le (h : Moved offset s a s') : s.world.now ≤ s'.world.now := by
  cases h with
  | world b w hplain hmoved => exact hmoved.now_le
  | readClock | tracked | verified | committed => exact le_refl s.world.now

theorem Moved.book_mono (h : Moved offset s a s') {id : UInt64} {b : Birth N}
    (hb : s.world.book id = some b) : s'.world.book id = some b := by
  cases h with
  | world b w hplain hmoved => exact hmoved.book_mono hb
  | readClock | tracked | verified | committed => exact hb

omit [DecidableEq N] in
/-- What a renewal's mark says. -/
theorem mem_renewed {w : World N} {n : N} {term : UInt64} {c : TrackerCall} {time : Int}
    {r : Mark N} (hr : r ∈ renewed offset w n term c time) :
    c = .renew r.lease ∧ r.node = n ∧ r.term = term ∧ r.time = time ∧
      ((w.trackers n).renew term (time + offset n) r.lease).2 = .ok () := by
  cases c with
  | renew lease =>
    simp only [renewed] at hr
    split at hr
    · rename_i hok
      obtain rfl := List.mem_singleton.mp hr
      exact ⟨rfl, rfl, rfl, rfl, hok⟩
    · cases hr
  | claimExpired | alive => cases hr

omit [DecidableEq N] in
/-- A mark of `claimExpired`: its lease was offered, and with this leader's takeover and renewals
its deadline has passed. -/
theorem mem_claimed {w : World N} {n : N} {term : UInt64} {c : TrackerCall} {time : Int}
    {m : Mark N} (hknown : ∀ lease ∈ c.leases, w.Knows lease)
    (hm : m ∈ claimed offset w n term c time) :
    ∃ leases, c = .claimExpired leases ∧ m.node = n ∧ m.term = term ∧ m.time = time ∧
      m.lease ∈ leases ∧
      ((w.trackers n).syncTerm term (time + offset n)).deadline m.lease ≤ time + offset n := by
  cases c with
  | claimExpired leases =>
    obtain ⟨lease, hmem, rfl⟩ := List.mem_map.mp hm
    obtain ⟨hlease, hid⟩ := List.mem_filter.mp hmem
    obtain ⟨-, lease', hlease', heq, hdl⟩ :=
      (LeaseTracker.mem_claimLoop ..).mp (of_decide_eq_true hid)
    obtain rfl := World.knows_unique (hknown _ hlease') (hknown _ hlease) heq
    exact ⟨leases, rfl, rfl, rfl, rfl, hlease, hdl⟩
  | renew | alive => cases hm

end Step

/-! ## What is known of claims and renewals -/

/-- The lease is in the log: some part of it creates the record. -/
def Held (log : List Entry) (lease : Lease) : Prop :=
  ∃ k ≤ log.length, (stateAfter (log.take k)).getLease lease.leaseID = some lease

instance (log : List Entry) (lease : Lease) : Decidable (Held log lease) :=
  decidable_of_iff (∃ k < log.length + 1,
    (stateAfter (log.take k)).getLease lease.leaseID = some lease)
    (by simp only [Held, Nat.lt_succ_iff])

/-- A claim, seen from a later state: it came one TTL after the claimer won its term, and after the
initial expiry on the claimer's clock; the claimer's tracker has not forgotten that the deadline
passed. -/
structure Claimed (w : World N) (log : List Entry) (c : Mark N) : Prop where
  time_le : c.time ≤ w.now
  known : w.Knows c.lease
  allocated : c.lease.leaseID < (stateAfter log).fsm.nextLeaseID
  won : ∃ won, w.leaderOf c.term = some (c.node, won) ∧ won + c.lease.ttl.toInt ≤ c.time
  inherited : w.Inherited c.term c.lease.leaseID
  initial : c.lease.expiresAt ≤ c.time + offset c.node
  kept : World.ClaimKept c.node c.term c.lease (c.time + offset c.node) w

/-- A recorded renewal, seen from a later state: the lease was in the log, an entry of the term has
been committed, and no entry of an earlier term expires the lease. -/
structure Renewed (w : World N) (log : List Entry) (r : Mark N) : Prop where
  time_le : r.time ≤ w.now
  known : w.Knows r.lease
  held : Held log r.lease
  won : ∃ won, w.leaderOf r.term = some (r.node, won)
  reached : ∃ e ∈ log, e.term = r.term
  expiries : ∀ e ∈ log, e.expires = some r.lease.leaseID → r.term ≤ e.term
  kept : World.RenewalKept r.node r.term r.lease.leaseID (r.time + offset r.node) w

section Marks

variable {offset : N → Int} {w w' : World N} {a : World.Act N} {log : List Entry} {c r : Mark N}

theorem knows_moved (hmoved : World.Moved offset w a w') {lease : Lease} (h : w.Knows lease) :
    w'.Knows lease := by
  obtain ⟨b, hb, hlease⟩ := Option.map_eq_some_iff.mp h
  exact Option.map_eq_some_iff.mpr ⟨b, hmoved.book_mono hb, hlease⟩

theorem Claimed.moved (h : Claimed offset w log c) (hmoved : World.Moved offset w a w') :
    Claimed offset w' log c where
  time_le := h.time_le.trans hmoved.now_le
  known := knows_moved hmoved h.known
  allocated := h.allocated
  won := by
    obtain ⟨won, hwon, hle⟩ := h.won
    exact ⟨won, hmoved.leaderOf_mono hwon, hle⟩
  inherited := by
    -- neither the creation nor the election is rewritten
    intro b hb x hx
    obtain ⟨b', hb', -⟩ := Option.map_eq_some_iff.mp h.known
    obtain ⟨won, hwon, -⟩ := h.won
    obtain rfl := Option.some.inj ((hmoved.book_mono hb').symm.trans hb)
    obtain rfl := Option.some.inj ((hmoved.leaderOf_mono hwon).symm.trans hx)
    exact h.inherited b' hb' _ hwon
  initial := h.initial
  kept := by
    obtain ⟨won, hwon, -⟩ := h.won
    have hle := h.time_le
    exact h.kept.step (by unfold World.clock; omega) hwon h.known hmoved

theorem Renewed.moved (h : Renewed offset w log r) (hmoved : World.Moved offset w a w') :
    Renewed offset w' log r where
  time_le := h.time_le.trans hmoved.now_le
  known := knows_moved hmoved h.known
  held := h.held
  won := by
    obtain ⟨won, hwon⟩ := h.won
    exact ⟨won, hmoved.leaderOf_mono hwon⟩
  reached := h.reached
  expiries := h.expiries
  kept := by
    obtain ⟨won, hwon⟩ := h.won
    have hle := h.time_le
    exact h.kept.step (by unfold World.clock; omega) hwon hmoved

/-- A call of a tracker, whose readings follow the claim's. -/
theorem Claimed.record (h : Claimed offset w log c) {n : N} {term : UInt64} {call : TrackerCall}
    {time : Int} (hleads : w.leads n = some term) (htime : n = c.node → c.time ≤ time)
    (hknown : ∀ lease ∈ call.leases, w.Knows lease) :
    Claimed offset (w.record n term call (time + offset n)) log c :=
  { h with
    kept := h.kept.record hleads (fun hn => by have := htime hn; rw [hn]; omega)
      fun l hl hid => World.knows_unique (hknown l hl) h.known hid }

theorem Renewed.record (h : Renewed offset w log r) {n : N} {term : UInt64} {call : TrackerCall}
    {time : Int} (hleads : w.leads n = some term) (htime : n = r.node → r.time ≤ time) :
    Renewed offset (w.record n term call (time + offset n)) log r :=
  { h with kept := h.kept.record hleads fun hn => by have := htime hn; rw [hn]; omega }

theorem Held.concat {lease : Lease} (h : Held log lease) (e : Entry) : Held (log ++ [e]) lease := by
  obtain ⟨k, hk, hlease⟩ := h
  refine ⟨k, by rw [List.length_append]; omega, ?_⟩
  rw [List.take_append_of_le_length hk]
  exact hlease

omit [DecidableEq N] in
theorem Claimed.concat {e : Entry} (h : Claimed offset w log c)
    (hroom : Machine.new.leaseCount (commands (log ++ [e])) < 2 ^ 64 - 1) :
    Claimed offset w (log ++ [e]) c :=
  { h with allocated := allocated_append hroom h.allocated }

omit [DecidableEq N] in
/-- Terms do not decrease, so what is committed after an entry of the renewal's term cannot expire
the lease in an earlier one. -/
theorem Renewed.concat {e : Entry} (h : Renewed offset w log r)
    (hsorted : ∀ e' ∈ log, e'.term ≤ e.term) : Renewed offset w (log ++ [e]) r :=
  { h with
    held := h.held.concat e
    reached := by
      obtain ⟨e₀, he₀, hterm⟩ := h.reached
      exact ⟨e₀, List.mem_append_left _ he₀, hterm⟩
    expiries := by
      intro e' he' hexp
      rcases List.mem_append.mp he' with hold | hnew
      · exact h.expiries e' hold hexp
      · obtain ⟨e₀, he₀, hterm⟩ := h.reached
        rw [List.mem_singleton.mp hnew, ← hterm]
        exact hsorted e₀ he₀ }

end Marks

/-! ## The invariant -/

structure Ok (s : Deployment N) : Prop where
  sound : World.Sound offset s.world
  top : ∀ term x, s.world.leaderOf term = some x → term ≤ s.top
  log : LogOk s.log s.top
  records : ∀ lease, Held s.log lease → s.world.Knows lease
  claims : ∀ c ∈ s.claims, Claimed offset s.world s.log c
  renewals : ∀ r ∈ s.renewals, Renewed offset s.world s.log r
  /-- A lease is claimed in the term of a renewal only one TTL after it. -/
  apart : ∀ c ∈ s.claims, ∀ r ∈ s.renewals, c.term = r.term →
    c.lease.leaseID = r.lease.leaseID → r.time + r.lease.ttl.toInt ≤ c.time
  /-- Later terms are won after an acknowledged renewal. -/
  verified : ∀ r ∈ s.verified, r ∈ s.renewals ∧
    ∀ term n won, r.term < term → s.world.leaderOf term = some (n, won) → r.time ≤ won
  expired : ∀ e ∈ s.log, ∀ id, e.expires = some id →
    ∃ c ∈ s.claims, c.term = e.term ∧ c.lease.leaseID = id
  readings : ∀ x ∈ s.readings, x.2 ≤ s.world.now
  /-- A tracker has been given no older reading since. -/
  heard : ∀ m, m ∈ s.claims ∨ m ∈ s.renewals → m.time ≤ s.heard m.node

section Ok

variable {offset : N → Int} {s s' : Deployment N} {a : Act N}

omit [DecidableEq N] in
theorem ok_init (now : Int) : Ok offset (init now : Deployment N) where
  sound := World.sound_init now
  top := by
    intro term x hx
    cases hx
  log := by
    show LogOk [] 0
    decide
  records := by
    rintro lease ⟨k, -, hlease⟩
    have hempty : (init now : Deployment N).log.take k = [] := List.take_nil
    rw [hempty] at hlease
    cases hlease
  claims := by
    intro c hc
    cases hc
  renewals := by
    intro r hr
    cases hr
  apart := by
    intro c hc
    cases hc
  verified := by
    intro r hr
    cases hr
  expired := by
    intro e he
    cases he
  readings := by
    intro x hx
    cases hx
  heard := by
    rintro m (hm | hm) <;> cases hm

/-- A move of the cluster alone. -/
theorem Ok.world (h : Ok offset s) {a : World.Act N} {w : World N} {top : UInt64}
    (hmoved : World.Moved offset s.world a w) (hle : s.top ≤ top)
    (htop : ∀ n term, a = .elect n term → term ≤ top) :
    Ok offset { s with world := w, top := top } where
  sound := h.sound.step hmoved
  top := by
    intro term x hx
    rcases hmoved.leaderOf_cases term with heq | ⟨n, ha, -⟩
    · exact UInt64.le_trans (h.top term x (heq ▸ hx)) hle
    · exact htop n term ha
  log := { h.log with bounded := fun e he => UInt64.le_trans (h.log.bounded e he) hle }
  records := fun lease hheld => knows_moved hmoved (h.records lease hheld)
  claims := fun c hc => (h.claims c hc).moved hmoved
  renewals := fun r hr => (h.renewals r hr).moved hmoved
  apart := h.apart
  verified := by
    intro r hr
    obtain ⟨hmem, hlater⟩ := h.verified r hr
    refine ⟨hmem, ?_⟩
    intro term n won hlt hwon
    rcases hmoved.leaderOf_cases term with heq | ⟨k, -, -, hk⟩
    · exact hlater term n won hlt (heq ▸ hwon)
    · -- a term won now is won after every renewal so far
      have hnow : w.leaderOf term = some (n, won) := hwon
      rw [hk] at hnow
      cases hnow
      exact (h.renewals r hmem).time_le
  expired := h.expired
  readings := fun x hx => (h.readings x hx).trans hmoved.now_le
  heard := h.heard

section Track

variable {n : N} {term : UInt64} {c : TrackerCall} {k : Nat} {time : Int}

omit [DecidableEq N] in
/-- What is found in the log is known to the cluster. -/
theorem Ok.knows_of_finds (h : Ok offset s) {lease : Lease} (hfinds : s.Finds term k lease) :
    s.world.Knows lease := by
  refine h.records lease ⟨min k s.log.length, Nat.min_le_right .., ?_⟩
  rw [← List.take_eq_take_min]
  exact hfinds.1

omit [DecidableEq N] in
/-- A reading since the election, on the clock of the node. -/
theorem readSince_of_suits (hsince : ∀ x ∈ s.world.leaderOf term, x.2 ≤ time) :
    World.ReadSince offset s.world n term (time + offset n) := by
  intro won hwon
  have hle : won ≤ time := hsince _ hwon
  omega

/-- What a call leaves of the invariant before its marks are added. -/
theorem Ok.record (h : Ok offset s) (hsees : s.Sees n term k c)
    (hsuits : s.Suits (.track n term c k time)) :
    Ok offset { s with
      world := s.world.record n term c (time + offset n)
      heard := Function.update s.heard n time } := by
  obtain ⟨hleads, hsince, hheard⟩ := hsuits
  have hmark : ∀ m, m ∈ s.claims ∨ m ∈ s.renewals → n = m.node → m.time ≤ time := by
    intro m hm hn
    have hle := h.heard m hm
    rw [← hn] at hle
    omega
  exact
    { h with
      sound := h.sound.record hleads (readSince_of_suits hsince)
      claims := fun x hx => (h.claims x hx).record hleads (hmark x (Or.inl hx))
        fun lease hl => h.knows_of_finds (hsees.1 lease hl)
      renewals := fun r hr => (h.renewals r hr).record hleads (hmark r (Or.inr hr))
      heard := by
        intro m hm
        show m.time ≤ Function.update s.heard n time m.node
        by_cases hn : m.node = n
        · rw [hn, Function.update_self]
          exact hmark m hm hn.symm
        · rw [Function.update_of_ne hn]
          exact h.heard m hm }

omit [DecidableEq N] in
/-- A lease claimed in a term cannot be renewed in it any more. -/
theorem Ok.not_claimed (h : Ok offset s) (hsees : s.Sees n term k c)
    (hsuits : s.Suits (.track n term c k time)) {r x : Mark N}
    (hr : r ∈ renewed offset s.world n term c time) (hx : x ∈ s.claims) (hterm : x.term = term) :
    x.lease.leaseID ≠ r.lease.leaseID := by
  intro hid
  obtain ⟨hleads, -, hheard⟩ := hsuits
  obtain ⟨rfl, -, -, -, hok⟩ := mem_renewed hr
  have hcl := h.claims x hx
  have hknown := h.knows_of_finds (hsees.1 r.lease (List.mem_singleton_self _))
  have hlease := World.knows_unique hcl.known hknown hid
  -- one term, one leader: the renewal meets the tracker that made the claim
  obtain ⟨won, hwon, -⟩ := hcl.won
  obtain ⟨-, won', hwon'⟩ := h.sound.leads n term hleads
  rw [hterm] at hwon
  obtain rfl : x.node = n := World.winner_unique hwon hwon'
  subst hterm
  obtain ⟨htracker, hpassed⟩ := hcl.kept hleads
  rcases (s.world.trackers x.node).renew_cases x.term (time + offset x.node) r.lease with
    ⟨heq, -⟩ | ⟨-, -, hlt⟩
  · rw [heq] at hok
    cases hok
  · rw [LeaseTracker.syncTerm_of_eq _ htracker.symm, ← hlease] at hlt
    have hle := h.heard x (Or.inl hx)
    omega

omit [DecidableEq N] in
/-- A lease renewed in a term is claimed in it only one TTL later. -/
theorem Ok.claimed_after (h : Ok offset s) (hsees : s.Sees n term k c)
    (hsuits : s.Suits (.track n term c k time)) {x r : Mark N}
    (hx : x ∈ claimed offset s.world n term c time) (hr : r ∈ s.renewals)
    (hterm : x.term = r.term) (hid : x.lease.leaseID = r.lease.leaseID) :
    r.time + r.lease.ttl.toInt ≤ x.time := by
  obtain ⟨hleads, -⟩ := hsuits
  have hknown := fun lease hl => h.knows_of_finds (hsees.1 lease hl)
  obtain ⟨leases, rfl, rfl, rfl, rfl, hmem, hdl⟩ := mem_claimed hknown hx
  have hren := h.renewals r hr
  have hlease := World.knows_unique (hknown _ hmem) hren.known hid
  obtain ⟨won, hwon⟩ := hren.won
  obtain ⟨-, won', hwon'⟩ := h.sound.leads x.node x.term hleads
  rw [← hterm] at hwon
  have heq : r.node = x.node := World.winner_unique hwon hwon'
  have hkept := hren.kept
  rw [heq, ← hterm, ← hid] at hkept
  -- the renewal is still in the tracker, since the expiry has not committed
  obtain ⟨htracker, hgone | ⟨r', hlookup, hle⟩⟩ := hkept hleads
  · exact absurd hgone (hsees.2 _ hmem)
  · rw [LeaseTracker.syncTerm_of_eq _ htracker.symm] at hdl
    have hpast := (LeaseTracker.deadline_le_iff.mp hdl).2.2 r' hlookup
    unfold Time.add at hpast
    rw [← hlease]
    omega

/-- What the tracker returns from `claimExpired` is a claim. -/
theorem Ok.claimed_of_mem (h : Ok offset s) (hread : (n, time) ∈ s.readings)
    (hsees : s.Sees n term k c) (hsuits : s.Suits (.track n term c k time)) {x : Mark N}
    (hx : x ∈ claimed offset s.world n term c time) :
    Claimed offset (s.world.record n term c (time + offset n)) s.log x := by
  obtain ⟨hleads, hsince, -⟩ := hsuits
  have hknown := fun lease hl => h.knows_of_finds (hsees.1 lease hl)
  obtain ⟨leases, rfl, rfl, rfl, rfl, hmem, hdl⟩ := mem_claimed hknown hx
  obtain ⟨hinitial, hpassed, -⟩ := LeaseTracker.deadline_le_iff.mp hdl
  obtain ⟨since, won, hs, hwon, hle⟩ := h.sound.since_syncTerm hleads (readSince_of_suits hsince)
  obtain ⟨hlease, hinherited⟩ := hsees.1 _ hmem
  refine ⟨h.readings _ hread, hknown _ hmem, ?_, ?_, hinherited, hinitial, ?_⟩
  · exact allocated_of_getLease h.log.room hlease
  · have hpast := hpassed since hs
    unfold Time.add at hpast
    exact ⟨won, hwon, by omega⟩
  · intro _
    rw [World.record_trackers_self]
    refine ⟨(TrackerCall.run_term ..).1, ?_⟩
    -- marking leases as expiring leaves every deadline as it was
    have hmark := LeaseTracker.claimLoop_expiring (x.time + offset x.node)
      ((s.world.trackers x.node).syncTerm x.term (x.time + offset x.node)) leases
    rw [TrackerCall.run, LeaseTracker.claimExpired, hmark]
    exact hdl

/-- What `renew` accepts is a renewal. -/
theorem Ok.renewed_of_mem (h : Ok offset s) (hread : (n, time) ∈ s.readings)
    (hsees : s.Sees n term k c) (hsuits : s.Suits (.track n term c k time)) {r : Mark N}
    (hr : r ∈ renewed offset s.world n term c time) :
    Renewed offset (s.world.record n term c (time + offset n)) s.log r := by
  obtain ⟨hleads, -⟩ := hsuits
  obtain ⟨rfl, rfl, rfl, rfl, hok⟩ := mem_renewed hr
  obtain ⟨-, won, hwon⟩ := h.sound.leads r.node r.term hleads
  obtain ⟨hfinds, e₀, he₀, hterm₀⟩ := hsees
  have hfind := hfinds r.lease (List.mem_singleton_self _)
  refine ⟨h.readings _ hread, h.knows_of_finds hfind,
    ⟨min k s.log.length, Nat.min_le_right .., ?_⟩, ⟨won, hwon⟩,
    ⟨e₀, List.mem_of_mem_take he₀, hterm₀⟩, ?_, ?_⟩
  · rw [← List.take_eq_take_min]
    exact hfind.1
  · -- what is applied does not expire the lease, and the rest follows an entry of the term
    intro e he hexp
    rw [← List.take_append_drop k s.log] at he
    rcases List.mem_append.mp he with htaken | hdropped
    · obtain ⟨j, hj, he'⟩ := List.mem_take_iff_getElem.mp htaken
      have hget : s.log[j]? = some e := by rw [← he', List.getElem?_eq_getElem]
      exact absurd hexp (not_expires_of_getLease h.log hfind.1 (by omega) hget)
    · have hsorted := h.log.sorted
      rw [← List.take_append_drop k s.log, List.pairwise_append] at hsorted
      rw [← hterm₀]
      exact hsorted.2.2 e₀ he₀ e hdropped
  · intro _
    rw [World.record_trackers_self, TrackerCall.run]
    rcases (s.world.trackers r.node).renew_cases r.term (r.time + offset r.node) r.lease with
      ⟨heq, -⟩ | ⟨heq, -, -⟩
    · rw [heq] at hok
      cases hok
    · rw [heq]
      exact ⟨LeaseTracker.syncTerm_term, Or.inr ⟨_, Finmap.lookup_insert _, le_refl _⟩⟩

/-- **A call of a tracker keeps the invariant.** -/
theorem Ok.track (h : Ok offset s) (hread : (n, time) ∈ s.readings) (hsees : s.Sees n term k c)
    (hsuits : s.Suits (.track n term c k time)) : Ok offset (s.track offset n term c time) := by
  have hknown := fun lease hl => h.knows_of_finds (hsees.1 lease hl)
  have hw := h.record hsees hsuits
  refine { hw with claims := ?_, renewals := ?_, apart := ?_, verified := ?_, expired := ?_,
                   heard := ?_ }
  · intro x hx
    rcases List.mem_append.mp hx with hnew | hold
    · exact h.claimed_of_mem hread hsees hsuits hnew
    · exact hw.claims x hold
  · intro r hr
    rcases List.mem_append.mp hr with hnew | hold
    · exact h.renewed_of_mem hread hsees hsuits hnew
    · exact hw.renewals r hold
  · intro x hx r hr hsame hid
    rcases List.mem_append.mp hr with hnewR | holdR
    · rcases List.mem_append.mp hx with hnewX | holdX
      · -- one call is not both
        obtain ⟨rfl, -⟩ := mem_renewed hnewR
        cases hnewX
      · obtain ⟨-, -, hterm, -⟩ := mem_renewed hnewR
        exact absurd hid (h.not_claimed hsees hsuits hnewR holdX (hsame.trans hterm))
    · rcases List.mem_append.mp hx with hnewX | holdX
      · exact h.claimed_after hsees hsuits hnewX holdR hsame hid
      · exact h.apart x holdX r holdR hsame hid
  · intro r hr
    obtain ⟨hmem, hlater⟩ := hw.verified r hr
    exact ⟨List.mem_append_right _ hmem, hlater⟩
  · intro e he id hexp
    obtain ⟨x, hx, hclaim⟩ := h.expired e he id hexp
    exact ⟨x, List.mem_append_right _ hx, hclaim⟩
  · intro m hm
    have hnew : ∀ {node : N} {t : Int}, node = n → t = time →
        t ≤ Function.update s.heard n time node := by
      rintro node t rfl rfl
      rw [Function.update_self]
    rcases hm with hm | hm
    · rcases List.mem_append.mp hm with hm | hold
      · obtain ⟨_, -, hnode, -, htime, -⟩ := mem_claimed hknown hm
        exact hnew hnode htime
      · exact hw.heard m (Or.inl hold)
    · rcases List.mem_append.mp hm with hm | hold
      · obtain ⟨-, hnode, -, htime, -⟩ := mem_renewed hm
        exact hnew hnode htime
      · exact hw.heard m (Or.inr hold)

end Track

omit [DecidableEq N] in
/-- One more entry: the records it makes are those of the cluster. -/
theorem Ok.records_concat (h : Ok offset s) {n : N} {e : Entry} (hcommits : s.Commits n e)
    {lease : Lease} (hheld : Held (s.log ++ [e]) lease) : s.world.Knows lease := by
  obtain ⟨-, -, -, hcreates, hroom⟩ := hcommits
  obtain ⟨k, hk, hlease⟩ := hheld
  rw [List.length_append, List.length_singleton] at hk
  by_cases hold : k ≤ s.log.length
  · rw [List.take_append_of_le_length hold] at hlease
    exact h.records lease ⟨k, hold, hlease⟩
  · have hall : k = (s.log ++ [e]).length := by
      rw [List.length_append, List.length_singleton]
      omega
    have hbefore : (stateAfter s.log).getLease lease.leaseID = some lease →
        s.world.Knows lease := by
      intro hlease'
      exact h.records lease ⟨s.log.length, le_refl _, by rw [List.take_length]; exact hlease'⟩
    rw [hall, List.take_length, stateAfter_concat] at hlease
    cases hc : e.cmd with
    | none =>
      rw [hc] at hlease
      exact hbefore hlease
    | some c =>
      rw [hc] at hlease
      rcases (stateAfter s.log).getLease_next_cases c lease.leaseID with
        hsame | ⟨hnew, hid, -, -, -, hrecord⟩ | ⟨_, -, -, -, hnone⟩
      · exact hbefore (hsame ▸ hlease)
      · have hcr : (stateAfter s.log).Creates c := by
          rw [Machine.Creates, hnew]
          rfl
        obtain ⟨b, hb, heq⟩ := Option.map_eq_some_iff.mp (hcreates c hc hcr)
        obtain rfl := Option.some.inj (hlease.symm.trans hrecord)
        exact Option.map_eq_some_iff.mpr ⟨b, hb, congrArg Prod.snd heq⟩
      · have hnone' := hlease.symm.trans hnone
        cases hnone'

theorem Ok.step (h : Ok offset s) (hsuits : s.Suits a) (hmoved : Moved offset s a s') :
    Ok offset s' := by
  cases hmoved with
  | world a w hplain hmoved =>
    cases a with
    | elect n term =>
      refine h.world hmoved ?_ ?_
      · show s.top ≤ if s.top < term then term else s.top
        split
        · rename_i hlt
          exact UInt64.le_of_lt hlt
        · exact UInt64.le_refl _
      · rintro n' term' heq
        cases heq
        show term ≤ if s.top < term then term else s.top
        split
        · exact UInt64.le_refl _
        · rename_i hlt
          exact UInt64.not_lt.mp hlt
    | _ => exact h.world hmoved (UInt64.le_refl _) fun n term heq => by cases heq
  | readClock n =>
    refine { h with readings := ?_ }
    intro x hx
    rcases List.mem_cons.mp hx with rfl | hold
    · exact le_refl s.world.now
    · exact h.readings x hold
  | tracked n term c k time hread hsees => exact h.track hread hsees hsuits
  | verified r hmem =>
    refine { h with verified := ?_ }
    intro r' hr'
    rcases List.mem_cons.mp hr' with rfl | hr'
    · -- no higher term has been won yet
      refine ⟨hmem, ?_⟩
      intro term n won hlt hwon
      have hle := h.top term _ hwon
      have htop : r'.term = s.top := hsuits
      rw [htop] at hlt
      exact absurd hlt (UInt64.not_lt.mpr hle)
    · exact h.verified r' hr'
  | committed n e hcommits =>
    obtain ⟨hleader, hsorted, hexpires, -, hroom⟩ := id hcommits
    obtain ⟨x, hx, -⟩ := Option.map_eq_some_iff.mp hleader
    refine { h with log := ?_, records := ?_, claims := ?_, renewals := ?_, expired := ?_ }
    · have hlog : LogOk s.log e.term := { h.log with bounded := hsorted }
      have hnew : LogOk (s.log ++ [e]) e.term := by
        refine hlog.concat (UInt64.le_refl _) ?_ hroom
        intro id hid
        obtain ⟨c, hc, -, rfl⟩ := hexpires id hid
        exact (h.claims c hc).allocated
      exact { hnew with
        bounded := fun e' he' => UInt64.le_trans (hnew.bounded e' he') (h.top e.term x hx) }
    · exact fun lease hheld => h.records_concat hcommits hheld
    · exact fun c hc => (h.claims c hc).concat hroom
    · exact fun r hr => (h.renewals r hr).concat hsorted
    · intro e' he' id hexp
      rcases List.mem_append.mp he' with hold | hnew
      · exact h.expired e' hold id hexp
      · obtain rfl := List.mem_singleton.mp hnew
        exact hsuits id hexp

end Ok

/-! ## The promise -/

/-- The lease is promised from the moment `since`, at which the clock was read for it: by a
`CreateLease` that has been committed, or by a renewal that has been acknowledged. -/
def Secured (s : Deployment N) (lease : Lease) (since : Int) : Prop :=
  (Held s.log lease ∧ ∃ b ∈ s.world.book lease.leaseID, b.born = since) ∨
    ∃ r ∈ s.verified, r.lease = lease ∧ r.time = since

instance (s : Deployment N) (lease : Lease) (since : Int) : Decidable (s.Secured lease since) :=
  have : Decidable (∃ b ∈ s.world.book lease.leaseID, b.born = since) :=
    Option.decidableExistsMem _
  inferInstanceAs (Decidable ((_ ∧ _) ∨ _))

section Promise

variable {offset : N → Int} {s : Deployment N}

omit [DecidableEq N] in
theorem Ok.held_of_secured (h : Ok offset s) {lease : Lease} {since : Int}
    (hsec : s.Secured lease since) : Held s.log lease := by
  rcases hsec with ⟨hheld, -⟩ | ⟨r, hr, rfl, -⟩
  · exact hheld
  · exact (h.renewals r (h.verified r hr).1).held

omit [DecidableEq N] in
/-- **An expiry comes one TTL after everything that was promised before it.** -/
theorem Ok.le_of_expires (h : Ok offset s) {lease : Lease} {since : Int}
    (hsec : s.Secured lease since) {e : Entry} (he : e ∈ s.log)
    (hexp : e.expires = some lease.leaseID) : since + lease.ttl.toInt ≤ s.world.now := by
  obtain ⟨c, hc, hterm, hid⟩ := h.expired e he _ hexp
  have hcl := h.claims c hc
  obtain ⟨won, hwon, hafter⟩ := hcl.won
  have hnow := hcl.time_le
  obtain rfl := World.knows_unique hcl.known (h.records lease (h.held_of_secured hsec)) hid
  rcases hsec with ⟨-, b, hb, rfl⟩ | ⟨r, hr, hlease, rfl⟩
  · -- a creation of the claim's own term was stamped by the claimer's clock
    rcases hcl.inherited b hb _ hwon with hsame | hborn
    · obtain ⟨-, hexpiry, wonB, hwonB⟩ := h.sound.book _ b hb
      obtain ⟨b', hb', hlease'⟩ := Option.map_eq_some_iff.mp hcl.known
      obtain rfl := Option.some.inj (hb'.symm.trans hb)
      rw [hsame] at hwonB
      have hnode : b'.creator = c.node := World.winner_unique hwonB hwon
      rw [hnode, hlease'] at hexpiry
      have hinitial := hcl.initial
      omega
    · have : b.born ≤ won := hborn
      omega
  · obtain ⟨hmem, hlater⟩ := h.verified r hr
    have hle : r.term ≤ c.term := by
      rw [hterm]
      exact (h.renewals r hmem).expiries e he (hlease ▸ hexp)
    by_cases hsame : c.term = r.term
    · have hapart := h.apart c hc r hmem hsame (by rw [hlease])
      rw [hlease] at hapart
      omega
    · have hlt : r.term < c.term := UInt64.lt_of_le_of_ne hle (Ne.symm hsame)
      have hbefore := hlater c.term c.node won hlt hwon
      omega

omit [DecidableEq N] in
theorem Ok.getLease_of_secured (h : Ok offset s) {lease : Lease} {since : Int}
    (hsec : s.Secured lease since) (hnow : s.world.now < since + lease.ttl.toInt) :
    s.fsm.getLease lease.leaseID = some lease := by
  obtain ⟨k, hk, hlease⟩ := h.held_of_secured hsec
  have hkeep := getLease_take_of_not_expires h.log hk hlease ?_
  · rw [List.take_length] at hkeep
    exact hkeep
  · intro i e _ _ he hexp
    have hpast := h.le_of_expires hsec (List.mem_of_getElem? he) hexp
    omega

end Promise

section Run

variable {offset : N → Int} {t : Trace (step offset)} {now₀ : Int}

theorem ok_state (h0 : t.start = init now₀) (hsuits : t.Steps Suits) (k : Nat) :
    Ok offset (t.state k) := by
  refine t.invariant_from (Nat.zero_le k) ?_ ?_
  · rw [t.state_zero, h0]
    exact ok_init now₀
  · intro i a s' _ _ ha hstep hok
    exact hok.step (hsuits.at ha) (moved_of_step hstep)

/-- A promise is not taken back. -/
theorem Secured.step {s s' : Deployment N} {a : Act N} {lease : Lease} {since : Int}
    (h : s.Secured lease since) (hmoved : Moved offset s a s') : s'.Secured lease since := by
  cases hmoved with
  | world a w hplain hmoved =>
    refine h.imp_left ?_
    rintro ⟨hheld, b, hb, hborn⟩
    exact ⟨hheld, b, hmoved.book_mono hb, hborn⟩
  | readClock | tracked => exact h
  | verified r hmem =>
    refine h.imp_right ?_
    rintro ⟨r', hr', heq⟩
    exact ⟨r', List.mem_cons_of_mem _ hr', heq⟩
  | committed n e hcommits => exact h.imp_left fun ⟨hheld, hb⟩ => ⟨hheld.concat e, hb⟩

theorem secured_state {j k : Nat} (hjk : j ≤ k) {lease : Lease} {since : Int}
    (h : (t.state j).Secured lease since) : (t.state k).Secured lease since :=
  t.invariant_from (I := fun s => s.Secured lease since) hjk h
    fun _ _ _ _ _ _ hstep hs => hs.step (moved_of_step hstep)

/-- **A lease lasts.** Along every run of the cluster that meets the preconditions, and whatever the
elections and the clock offsets: once its creation is committed or its renewal acknowledged, a lease
is in the replicated state until a full TTL of real time has passed since the clock was read for the
creation or for the renewal. -/
theorem lease_lasts (h0 : t.start = init now₀) (hsuits : t.Steps Suits) {j k : Nat} (hjk : j ≤ k)
    {lease : Lease} {since : Int} (hsec : (t.state j).Secured lease since)
    (hnow : (t.state k).world.now < since + lease.ttl.toInt) :
    (t.state k).fsm.getLease lease.leaseID = some lease :=
  (ok_state h0 hsuits k).getLease_of_secured (secured_state hjk hsec) hnow

end Run

/-- Two nodes whose clocks are 1000 apart, as in `World.takeover`, with the log: the first one reads
its clock for a renewal at 105 and calls the tracker at 107; the second node takes over right after
the renewal is acknowledged, claims the lease one TTL later and commits its expiry. -/
def handedOver : Trace (step World.skewed) where
  start := init 100
  acts := [.world (.elect false 1), .world (.create false 1 Machine.new "client-1" 10),
    .commit false ⟨1, some (newCreateLeaseCmd "client-1" 10 100)⟩, .world (.tick 5),
    .readClock false, .world (.tick 2),
    .track false 1 (.renew World.takeoverLease) 1 105,
    .verifyLeader ⟨false, 1, World.takeoverLease, 105⟩, .world (.elect true 2), .readClock true,
    .track true 2 (.alive World.takeoverLease) 1 107, .world (.tick 7), .world (.tick 3),
    .readClock true, .track true 2 (.claimExpired [World.takeoverLease]) 1 117,
    .commit true ⟨2, some (newExpireLeaseCmd 1)⟩]
  enabled := by decide

/-- On the second node's clock the lease is long past its initial expiry, and it is there. -/
theorem lease_lasts_handedOver :
    (handedOver.state 8).Secured World.takeoverLease 105 ∧
      (handedOver.state 12).world.clock World.skewed true = 1114 ∧
      (handedOver.state 12).fsm.getLease 1 = some World.takeoverLease ∧
      (handedOver.state 16).fsm.getLease 1 = none :=
  have hsec : (handedOver.state 8).Secured World.takeoverLease 105 := by decide
  ⟨hsec, by decide, lease_lasts rfl (by decide) (by decide) hsec (by decide), by decide⟩

end Deployment

end Clavis
