import Clavis.Cluster.LeaseTracker
import Clavis.Lib.Trace

/-!
# Clavis — when the tracker learns of a term

A new leader treats every lease as renewed at the moment it took over. The tracker is not told of
that moment: it takes the clock reading of whichever call is the first to come with the new term.
`leaderSince` is then late, which is safe, as long as no call comes with a term before the node has
won it. But a candidate's current term is already the one that it may win.

* `Leadership` — follower, candidate and leader states as Raft goes through them, the current term,
  and when the node last became leader.
* `Takeover` — the node with its tracker and any number of calls, step by step: `AcquireLock`, which
  tests leadership before its attempts and on its ticker only, `RenewLease`, and `leaseExpiryLoop`.
  The state machine may hold any leases at any time.
* `Seen` — a term that is not one the node stands for. `Dated` — a clock reading that came with such
  a term is not from before the takeover. Raft's moves keep both.
* `leaderSince_of_suits` — `leaderSince` is not earlier than the takeover as long as no
  `CheckLeaseAlive` and no pass of the expiry loop reads the term of a candidacy. A `RenewLease`
  may: it does not get past the barrier before the node leads. `not_leaderSince` shows a waiter and
  a pass of the loop that do.
-/

namespace Clavis

open Lib

/-! ## Follower, candidate, leader -/

/-- The state of a node in Raft. A candidate stands for its current term from the moment it has
raised it and voted for itself. -/
inductive RaftRole where
  | follower
  | candidate (stands : Bool)
  | leader
deriving DecidableEq

structure Leadership where
  role : RaftRole
  currentTerm : UInt64
  now : Int
  /-- When the node last became leader. -/
  wonAt : Int

namespace Leadership

inductive Act where
  | tick (d : Nat)
  /-- no leader has been heard of for a while -/
  | timeout
  /-- `electSelf`, also when an election has brought no decision -/
  | electSelf
  | win
  | stepDown
  /-- a higher term is heard of -/
  | observe (term : UInt64)

def step (l : Leadership) : Act → Option Leadership
  | .tick d => some { l with now := l.now + d }
  | .timeout => if l.role = .follower then some { l with role := .candidate false } else none
  | .electSelf =>
    match l.role with
    | .candidate _ =>
      if l.currentTerm < l.currentTerm + 1 then
        some { l with role := .candidate true, currentTerm := l.currentTerm + 1 }
      else none
    | _ => none
  | .win =>
    if l.role = .candidate true then some { l with role := .leader, wonAt := l.now } else none
  | .stepDown => some { l with role := .follower }
  | .observe term =>
    if l.role = .follower ∧ l.currentTerm < term then some { l with currentTerm := term } else none

/-- **What a move of Raft can do.** -/
inductive Moved (l : Leadership) : Leadership → Prop where
  | ticked (d : Nat) : Moved l { l with now := l.now + d }
  | rested (role : RaftRole) (hrole : role = .follower ∨ role = .candidate false) :
      Moved l { l with role := role }
  | raised (role : RaftRole) (term : UInt64) (hrole : role ≠ .leader) (hlt : l.currentTerm < term) :
      Moved l { l with role := role, currentTerm := term }
  | won (hrole : l.role = .candidate true) : Moved l { l with role := .leader, wonAt := l.now }

theorem moved_of_step {l l' : Leadership} {a : Act} (hstep : step l a = some l') : Moved l l' := by
  cases a with
  | tick d =>
    cases hstep
    exact .ticked d
  | timeout =>
    obtain ⟨-, heq⟩ := Option.ite_none_right_eq_some.mp hstep
    cases heq
    exact .rested _ (Or.inr rfl)
  | electSelf =>
    dsimp only [step] at hstep
    split at hstep
    · obtain ⟨hlt, heq⟩ := Option.ite_none_right_eq_some.mp hstep
      cases heq
      exact .raised _ _ nofun hlt
    · cases hstep
  | win =>
    obtain ⟨hrole, heq⟩ := Option.ite_none_right_eq_some.mp hstep
    cases heq
    exact .won hrole
  | stepDown =>
    cases hstep
    exact .rested _ (Or.inl rfl)
  | observe term =>
    obtain ⟨⟨hrole, hlt⟩, heq⟩ := Option.ite_none_right_eq_some.mp hstep
    cases heq
    refine .raised l.role term ?_ hlt
    rw [hrole]
    nofun

/-- The clock is past the takeover. -/
def Led (l : Leadership) : Prop := l.role = .leader → l.wonAt ≤ l.now

/-- A term that the node has reached, and does not stand for. -/
def Seen (l : Leadership) (term : UInt64) : Prop :=
  term ≤ l.currentTerm ∧ (term = l.currentTerm → l.role ≠ .candidate true)

/-- A time that is not earlier than the takeover, if the node leads the term. -/
def Dated (l : Leadership) (term : UInt64) (time : Int) : Prop :=
  term = l.currentTerm → l.role = .leader → l.wonAt ≤ time

section Moved

variable {l l' : Leadership} {term : UInt64} {time : Int}

theorem Led.step (h : l.Led) (hm : Moved l l') : l'.Led := by
  cases hm with
  | ticked d =>
    intro hrole
    have hwon := h hrole
    show l.wonAt ≤ l.now + d
    omega
  | rested role hrole =>
    rintro rfl
    rcases hrole with hrole | hrole <;> cases hrole
  | raised role term hrole hlt => exact fun hleader => absurd hleader hrole
  | won hrole => exact fun _ => le_rfl

theorem currentTerm_le (hm : Moved l l') : l.currentTerm ≤ l'.currentTerm := by
  cases hm with
  | raised role term hrole hlt => exact UInt64.le_of_lt hlt
  | ticked | rested | won => exact UInt64.le_refl _

/-- Raft's moves do not make a term one that the node stands for: a node stands for new terms
only. -/
theorem Seen.step (h : l.Seen term) (hm : Moved l l') : l'.Seen term := by
  refine ⟨UInt64.le_trans h.1 (currentTerm_le hm), ?_⟩
  cases hm with
  | ticked d => exact h.2
  | rested role hrole =>
    rintro - rfl
    rcases hrole with hrole | hrole <;> cases hrole
  | raised role term' hrole hlt =>
    rintro rfl
    exact absurd h.1 (UInt64.not_le.mpr hlt)
  | won hrole => nofun

/-- A term that the node wins is one that it stood for. So if it leads a term that it did not stand
for, it led that term before, since the same moment. -/
theorem Seen.led_before (h : l.Seen term) (hm : Moved l l') (hterm : term = l'.currentTerm)
    (hleader : l'.role = .leader) :
    term = l.currentTerm ∧ l.role = .leader ∧ l'.wonAt = l.wonAt := by
  cases hm with
  | ticked d => exact ⟨hterm, hleader, rfl⟩
  | rested role hrole =>
    cases hleader
    rcases hrole with hrole | hrole <;> cases hrole
  | raised role term' hrole hlt => exact absurd hleader hrole
  | won hrole => exact absurd hrole (h.2 hterm)

theorem Dated.step (h : l.Dated term time) (hseen : l.Seen term) (hm : Moved l l') :
    l'.Dated term time := by
  intro hterm hleader
  obtain ⟨hterm', hleader', hwon⟩ := hseen.led_before hm hterm hleader
  rw [hwon]
  exact h hterm' hleader'

end Moved

end Leadership

/-! ## The calls -/

/-- Where a call of the node is, with the values it has read. -/
inductive TakeoverPc where
  /-- in `AcquireLock`, before its first test of leadership -/
  | acquire
  /-- in `AcquireLock`, before an attempt -/
  | waiting
  /-- in `CheckLeaseAlive`, about to read the term -/
  | checking (lease : Lease)
  /-- in `AcquireLock`, the command is being applied -/
  | applying
  /-- in `RenewLease`, before the service's test of leadership -/
  | renew
  /-- in `RenewLease`, about to read the term -/
  | renewing
  /-- about to call `awaitTermApplied` -/
  | awaiting (term : UInt64)
  /-- about to look the lease up -/
  | termApplied (term : UInt64)
  /-- in `leaseExpiryLoop`, before its test of leadership -/
  | loop
  /-- in `leaseExpiryLoop`, about to read the term -/
  | isLeader
  /-- about to read the clock, and then the leases -/
  | claiming (term : UInt64)
  /-- about to read the leases -/
  | listing (term : UInt64) (now : Int)
  /-- about to read the clock for a call of the tracker -/
  | termRead (call : TrackerCall) (term : UInt64)
  /-- about to call the tracker -/
  | clockRead (call : TrackerCall) (term : UInt64) (now : Int)
  /-- in `leaseExpiryLoop`, with the leases whose expiry is under way -/
  | expiring (batch : List UInt64)
  | returned

/-- The call reads the term with the barrier still before it. -/
def TakeoverPc.hasBarrier : TakeoverPc → Bool
  | renewing => true
  | _ => false

/-- A node; calls are numbered. -/
structure Takeover where
  raft : Leadership
  leases : LeaseTracker
  barrierTerm : UInt64
  calls : Nat → Option TakeoverPc

namespace Takeover

inductive CallAct where
  | isLeader
  /-- `GetLease`, with what the state machine holds -/
  | getLease (found : Option Lease)
  | currentTerm
  | awaitTermApplied (ok : Bool)
  | readClock
  | readLeases (leases : List Lease)
  | track
  /-- `Apply` returns; a waiter whose lock is held tries again -/
  | applied (again : Bool)
  | finishExpiry (committed : Bool)
  /-- the wait ends, or the loop waits for its next tick -/
  | leave

inductive Act where
  | raft (a : Leadership.Act)
  | acquireLock (c : Nat)
  | renewLease (c : Nat)
  | leaseExpiryLoop (c : Nat)
  | call (c : Nat) (a : CallAct)

/-- A node that has just started, as a follower in the term it finds stored. -/
def new (term : UInt64) (now : Int) : Takeover :=
  ⟨⟨.follower, term, now, now⟩, .zero, 0, fun _ => none⟩

def setPc (s : Takeover) (c : Nat) (pc : TakeoverPc) : Takeover :=
  { s with calls := Function.update s.calls c (some pc) }

/-- Where a call is after the tracker's answer. `RenewLease` still verifies its leadership, which
leaves the tracker alone. -/
def afterTrack (t : LeaseTracker) (term : UInt64) (now : Int) : TrackerCall → TakeoverPc
  | .alive lease => if (t.alive term now lease).2 then .applying else .returned
  | .renew _ => .returned
  | .claimExpired leases => .expiring (t.claimExpired term now leases).2

/-- A move of the call `c`. -/
def stepCall (s : Takeover) (c : Nat) (pc : TakeoverPc) (a : CallAct) : Option Takeover :=
  match pc, a with
  | .acquire, .isLeader =>
    some (s.setPc c (if s.raft.role = .leader then .waiting else .returned))
  -- the ticker of the wait loop
  | .waiting, .isLeader =>
    some (s.setPc c (if s.raft.role = .leader then .waiting else .returned))
  | .waiting, .leave => some (s.setPc c .returned)
  | .waiting, .getLease found => some (s.setPc c (found.elim .returned .checking))
  -- `CheckLeaseAlive` does not test leadership
  | .checking lease, .currentTerm => some (s.setPc c (.termRead (.alive lease) s.raft.currentTerm))
  | .applying, .applied again => some (s.setPc c (if again then .waiting else .returned))
  | .renew, .isLeader =>
    some (s.setPc c (if s.raft.role = .leader then .renewing else .returned))
  | .renewing, .currentTerm => some (s.setPc c (.awaiting s.raft.currentTerm))
  | .awaiting term, .awaitTermApplied ok =>
    if s.barrierTerm = term then some (s.setPc c (.termApplied term))
    else if ok then
      -- only a leader's barrier succeeds
      if s.raft.role = .leader then
        some ({ s with barrierTerm := term }.setPc c (.termApplied term))
      else none
    else some (s.setPc c .returned)
  | .termApplied term, .getLease found =>
    some (s.setPc c (found.elim .returned fun lease => .termRead (.renew lease) term))
  -- leadership may be lost between this test and the reading of the term
  | .loop, .isLeader => some (s.setPc c (if s.raft.role = .leader then .isLeader else .loop))
  | .isLeader, .currentTerm => some (s.setPc c (.claiming s.raft.currentTerm))
  | .claiming term, .readClock => some (s.setPc c (.listing term s.raft.now))
  | .listing term now, .readLeases leases =>
    some (s.setPc c (.clockRead (.claimExpired leases) term now))
  | .termRead call term, .readClock => some (s.setPc c (.clockRead call term s.raft.now))
  | .clockRead call term now, .track =>
    some ({ s with leases := call.run s.leases term now }.setPc c
      (afterTrack s.leases term now call))
  | .expiring (leaseID :: batch), .finishExpiry committed =>
    some ({ s with leases := s.leases.finishExpiry leaseID committed }.setPc c (.expiring batch))
  | .expiring [], .leave => some (s.setPc c .loop)
  | _, _ => none

/-- A call begins. -/
def begin (s : Takeover) (c : Nat) (pc : TakeoverPc) : Option Takeover :=
  if (s.calls c).isNone then some (s.setPc c pc) else none

def step (s : Takeover) : Act → Option Takeover
  | .raft a => (s.raft.step a).map fun raft => { s with raft := raft }
  | .acquireLock c => s.begin c .acquire
  | .renewLease c => s.begin c .renew
  | .leaseExpiryLoop c => s.begin c .loop
  | .call c a => (s.calls c).bind fun pc => s.stepCall c pc a

/-! ## The invariant -/

/-- The values a call has read are in order, by where it is. -/
def CallOk (l : Leadership) : TakeoverPc → Prop
  | .awaiting term => term ≤ l.currentTerm
  | .termApplied term | .claiming term | .termRead _ term => l.Seen term
  | .listing term now | .clockRead _ term now => l.Seen term ∧ l.Dated term now
  | _ => True

/-- The tracker's term and takeover are in order. -/
def TrackerOk (l : Leadership) (t : LeaseTracker) : Prop :=
  l.Seen t.term ∧ (t.term = l.currentTerm → l.role = .leader →
    ∃ since, t.leaderSince = some since ∧ l.wonAt ≤ since)

structure Inv (s : Takeover) : Prop where
  led : s.raft.Led
  tracker : TrackerOk s.raft s.leases
  barrier : s.raft.Seen s.barrierTerm
  calls : ∀ c pc, s.calls c = some pc → CallOk s.raft pc

theorem inv_new (term : UInt64) (now : Int) : (new term now).Inv where
  led := nofun
  tracker := ⟨⟨UInt64.zero_le, nofun⟩, nofun⟩
  barrier := ⟨UInt64.zero_le, nofun⟩
  calls := nofun

section Step

variable {s s' : Takeover} {l l' : Leadership} {t : LeaseTracker}

/-- Raft's moves keep what a call has read in order. -/
theorem CallOk.step {pc : TakeoverPc} (h : CallOk l pc) (hm : Leadership.Moved l l') :
    CallOk l' pc := by
  cases pc with
  | awaiting term => exact UInt64.le_trans h (Leadership.currentTerm_le hm)
  | termApplied term | claiming term | termRead call term => exact Leadership.Seen.step h hm
  | listing term now | clockRead call term now => exact ⟨h.1.step hm, h.2.step h.1 hm⟩
  | _ => trivial

theorem TrackerOk.step (h : TrackerOk l t) (hm : Leadership.Moved l l') : TrackerOk l' t := by
  refine ⟨h.1.step hm, fun hterm hleader => ?_⟩
  obtain ⟨hterm', hleader', hwon⟩ := h.1.led_before hm hterm hleader
  rw [hwon]
  exact h.2 hterm' hleader'

/-- A call that comes with a term and a reading that are in order. -/
theorem TrackerOk.run (h : TrackerOk l t) {term : UInt64} {now : Int} (hseen : l.Seen term)
    (hdated : l.Dated term now) (call : TrackerCall) : TrackerOk l (call.run t term now) := by
  obtain ⟨hterm, hsince⟩ := call.run_term t term now
  rw [TrackerOk, hterm, hsince]
  refine ⟨hseen, fun hcurrent hleader => ?_⟩
  by_cases hsame : term = t.term
  · rw [LeaseTracker.syncTerm_of_eq now hsame]
    exact h.2 (hsame ▸ hcurrent) hleader
  · rw [LeaseTracker.syncTerm_of_ne hsame]
    exact ⟨now, rfl, hdated hcurrent hleader⟩

theorem Inv.setPc (h : s.Inv) (c : Nat) {pc : TakeoverPc} (hpc : CallOk s.raft pc) :
    (s.setPc c pc).Inv where
  led := h.led
  tracker := h.tracker
  barrier := h.barrier
  calls c' pc' hc' := by
    rcases update_some_eq_some hc' with ⟨-, rfl⟩ | ⟨-, hold⟩
    · exact hpc
    · exact h.calls c' pc' hold

theorem Inv.begin (h : s.Inv) {c : Nat} {pc : TakeoverPc} (hstep : s.begin c pc = some s')
    (hpc : CallOk s.raft pc) : s'.Inv := by
  obtain ⟨-, heq⟩ := Option.ite_none_right_eq_some.mp hstep
  cases heq
  exact h.setPc c hpc

theorem Inv.raft (h : s.Inv) (hm : Leadership.Moved s.raft l') : Inv { s with raft := l' } where
  led := h.led.step hm
  tracker := h.tracker.step hm
  barrier := h.barrier.step hm
  calls c pc hc := (h.calls c pc hc).step hm

theorem callOk_afterTrack (l : Leadership) (t : LeaseTracker) (term : UInt64) (now : Int)
    (call : TrackerCall) : CallOk l (afterTrack t term now call) := by
  cases call with
  | alive lease =>
    dsimp only [afterTrack]
    split <;> trivial
  | renew | claimExpired => trivial

/-- **One move of a call keeps the invariant**, if it does not read the term of a candidacy with no
barrier before it. -/
theorem Inv.stepCall (h : s.Inv) {c : Nat} {pc : TakeoverPc} {a : CallAct}
    (hc : s.calls c = some pc)
    (hsuits : a = .currentTerm → s.raft.role = .candidate true → pc.hasBarrier = true)
    (hstep : s.stepCall c pc a = some s') : s'.Inv := by
  have hok := h.calls c pc hc
  have hcurrent : a = .currentTerm → pc.hasBarrier = false → s.raft.Seen s.raft.currentTerm := by
    intro ha hpc
    refine ⟨UInt64.le_refl _, fun _ hrole => ?_⟩
    rw [hsuits ha hrole] at hpc
    cases hpc
  unfold Takeover.stepCall at hstep
  split at hstep
  · -- `AcquireLock`
    cases hstep
    exact h.setPc c (by split <;> trivial)
  · cases hstep
    exact h.setPc c (by split <;> trivial)
  · cases hstep
    exact h.setPc c trivial
  · rename_i found
    cases hstep
    cases found with
    | none => exact h.setPc c trivial
    | some lease => exact h.setPc c trivial
  · cases hstep
    exact h.setPc c (hcurrent rfl rfl)
  · cases hstep
    exact h.setPc c (by split <;> trivial)
  · -- `RenewLease`
    cases hstep
    exact h.setPc c (by split <;> trivial)
  · cases hstep
    exact h.setPc c (UInt64.le_refl _)
  · rename_i term ok
    split at hstep
    · rename_i hterm
      cases hstep
      exact h.setPc c (hterm ▸ h.barrier)
    · split at hstep
      · obtain ⟨hleader, heq⟩ := Option.ite_none_right_eq_some.mp hstep
        cases heq
        -- the term may have been read as a candidate, but now the node leads
        have hseen : s.raft.Seen term := ⟨hok, fun _ hrole => by rw [hleader] at hrole; cases hrole⟩
        have hbarrier : Inv { s with barrierTerm := term } := ⟨h.led, h.tracker, hseen, h.calls⟩
        exact hbarrier.setPc c hseen
      · cases hstep
        exact h.setPc c trivial
  · rename_i term found
    cases hstep
    cases found with
    | none => exact h.setPc c trivial
    | some lease => exact h.setPc c hok
  · -- `leaseExpiryLoop`
    cases hstep
    exact h.setPc c (by split <;> trivial)
  · cases hstep
    exact h.setPc c (hcurrent rfl rfl)
  · cases hstep
    exact h.setPc c ⟨hok, fun _ hleader => h.led hleader⟩
  · cases hstep
    exact h.setPc c hok
  · cases hstep
    exact h.setPc c ⟨hok, fun _ hleader => h.led hleader⟩
  · rename_i call term now
    cases hstep
    have htracked : Inv { s with leases := call.run s.leases term now } :=
      ⟨h.led, h.tracker.run hok.1 hok.2 call, h.barrier, h.calls⟩
    exact htracked.setPc c (callOk_afterTrack s.raft s.leases term now call)
  · rename_i leaseID batch committed
    cases hstep
    have hfinished : Inv { s with leases := s.leases.finishExpiry leaseID committed } :=
      ⟨h.led, h.tracker, h.barrier, h.calls⟩
    exact hfinished.setPc c trivial
  · cases hstep
    exact h.setPc c trivial
  · cases hstep

end Step

/-- No `CheckLeaseAlive` and no pass of the expiry loop reads the term of a candidacy. -/
def Suits (s : Takeover) : Act → Prop
  | .call c .currentTerm =>
    s.raft.role = .candidate true → (s.calls c).all TakeoverPc.hasBarrier = true
  | _ => True

instance (s : Takeover) : (a : Act) → Decidable (s.Suits a)
  | .call _ .currentTerm => inferInstanceAs (Decidable (_ → _))
  | .call _ .isLeader | .call _ (.getLease _) | .call _ (.awaitTermApplied _)
  | .call _ .readClock | .call _ (.readLeases _) | .call _ .track | .call _ (.applied _)
  | .call _ (.finishExpiry _) | .call _ .leave | .raft _ | .acquireLock _ | .renewLease _
  | .leaseExpiryLoop _ => isTrue trivial

theorem Inv.step {s s' : Takeover} {a : Act} (h : s.Inv) (hsuits : s.Suits a)
    (hstep : step s a = some s') : s'.Inv := by
  cases a with
  | raft a =>
    obtain ⟨l', hl', rfl⟩ := Option.map_eq_some_iff.mp hstep
    exact h.raft (Leadership.moved_of_step hl')
  | acquireLock c => exact h.begin hstep trivial
  | renewLease c => exact h.begin hstep trivial
  | leaseExpiryLoop c => exact h.begin hstep trivial
  | call c a =>
    obtain ⟨pc, hc, hmove⟩ := Option.bind_eq_some_iff.mp hstep
    refine h.stepCall hc ?_ hmove
    rintro rfl hrole
    have hall := hsuits hrole
    rw [hc] at hall
    exact hall

/-! ## Runs -/

/-- `leaderSince` is not earlier than the moment the node became leader, whenever it leads the
tracker's term. -/
def SinceTakeover (t : Trace step) : Prop :=
  ∀ k, (t.state k).raft.role = .leader → (t.state k).leases.term = (t.state k).raft.currentTerm →
    ∃ since, (t.state k).leases.leaderSince = some since ∧ (t.state k).raft.wonAt ≤ since

/-- **`leaderSince` is not earlier than the takeover** in a run in which no `CheckLeaseAlive` and no
pass of the expiry loop reads the term of a candidacy. -/
theorem leaderSince_of_suits (t : Trace step) {term : UInt64} {now : Int}
    (hstart : t.start = new term now) (hsuits : t.Steps Suits) : SinceTakeover t := by
  intro k hleader hterm
  have hinv : (t.state k).Inv := by
    refine t.invariant_from (I := Inv) (Nat.zero_le k) ?_ ?_
    · rw [t.state_zero, hstart]
      exact inv_new term now
    · intro i a s' _ _ ha hstep hI
      exact hI.step (hsuits.at ha) hstep
  exact hinv.tracker.2 hterm hleader

/-- A lease in the state machine. -/
def leaseOne : Lease := ⟨1, "worker", 1000, 1000⟩

/-- A `RenewLease` that has read the term of a candidacy waits for the barrier. -/
def renewedLate : Trace step where
  start := new 4 0
  acts := [.raft .timeout, .raft .electSelf, .raft .win, .renewLease 0, .call 0 .isLeader,
    .raft .stepDown, .raft .timeout, .raft .electSelf, .call 0 .currentTerm, .raft (.tick 10),
    .raft .win, .call 0 (.awaitTermApplied true), .call 0 (.getLease (some leaseOne)),
    .call 0 .readClock, .call 0 .track]
  enabled := by decide

theorem leaderSince_of_suits_renewedLate :
    ∃ since, (renewedLate.state 15).leases.leaderSince = some since ∧ 10 ≤ since :=
  leaderSince_of_suits renewedLate rfl (by decide) 15 rfl rfl

/-- A waiter that found the node leading an earlier term asks whether its lease is alive during the
next candidacy, which is then won. -/
def earlyWaiter : Trace step where
  start := new 4 0
  acts := [.raft .timeout, .raft .electSelf, .raft .win, .acquireLock 0, .call 0 .isLeader,
    .raft .stepDown, .raft .timeout, .raft .electSelf, .call 0 (.getLease (some leaseOne)),
    .call 0 .currentTerm, .call 0 .readClock, .call 0 .track, .raft (.tick 10), .raft .win]
  enabled := by decide

/-- The expiry loop does the same between its test of leadership and its reading of the term. -/
def earlyPass : Trace step where
  start := new 4 0
  acts := [.raft .timeout, .raft .electSelf, .raft .win, .leaseExpiryLoop 0, .call 0 .isLeader,
    .raft .stepDown, .raft .timeout, .raft .electSelf, .call 0 .currentTerm, .call 0 .readClock,
    .call 0 (.readLeases []), .call 0 .track, .raft (.tick 10), .raft .win]
  enabled := by decide

theorem not_leaderSince : ¬ SinceTakeover earlyWaiter ∧ ¬ SinceTakeover earlyPass := by
  constructor
  · intro h
    obtain ⟨since, hsince, hle⟩ := h 14 rfl rfl
    cases hsince
    exact absurd hle (by decide)
  · intro h
    obtain ⟨since, hsince, hle⟩ := h 14 rfl rfl
    cases hsince
    exact absurd hle (by decide)

end Takeover

end Clavis
