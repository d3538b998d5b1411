import Clavis.Client.Heartbeat

/-!
# Clavis — the start of a session

`Client.Start` in logical time. `Start` notes the time, creates the lease, opens the first heartbeat
stream and only then starts the heartbeat loop, whose ticker starts with it. The session is active
from the reply to `CreateLease` on, and the only proof of liveness it has before the first
acknowledged renewal is that the lease lives for one TTL from `createSentAt`.

The loop looks at the clock only after an attempt has failed: after the time `Start` took, a whole
tick and possibly a whole attempt. So the session is closed in time exactly when `Start` was quick
(`failsClosed_iff`); after a slow start it admits lock operations when the lease may already have
expired.

Of `CreateLease` and of opening the stream the model keeps the latency and the outcome; a reply with
an invalid TTL is a failure. The resolver's current address is a seed from the beginning and is
never cleared, so the branch of `Start` that discovers a leader first is not taken.
-/

namespace Clavis

open Lib Heartbeat

/-- The lease's TTL, when `Start` sent `CreateLease`, how long the call took and how long it took to
open the heartbeat stream. -/
structure StartTimes where
  ttl : Duration
  createSentAt : Int
  createLatency : Nat
  openLatency : Nat

namespace StartTimes

/-- When `CreateLease` returns. -/
def createdAt (p : StartTimes) : Int := p.createSentAt + p.createLatency

/-- When the stream is open and the loop starts. -/
def openedAt (p : StartTimes) : Int := p.createdAt + p.openLatency

end StartTimes

/-- Where `Start` is. -/
inductive Startup where
  | creating (session : Session) (now : Int)
  | opening (session : Session) (now : Int)
  /-- `Start` has returned, and the heartbeat loop was started. -/
  | running (h : Heartbeat)
  /-- `Start` has returned an error. -/
  | failed (session : Session) (now : Int)

namespace Startup

def session : Startup → Session
  | creating session _ => session
  | opening session _ => session
  | running h => h.session
  | failed session _ => session

def now : Startup → Int
  | creating _ now => now
  | opening _ now => now
  | running h => h.now
  | failed _ now => now

inductive Act where
  | delay (d : Nat)
  | created (leaseID : UInt64)
  | createFailed
  | opened
  | openFailed (err : String)
  | loop (a : Heartbeat.Act)
  | stop

def step (p : StartTimes) : Startup → Act → Option Startup
  | creating session now, .delay d =>
    if 0 < d ∧ now + d ≤ p.createdAt then some (creating session (now + d)) else none
  | creating session now, .created leaseID =>
    if now = p.createdAt then some (opening (session.startLease leaseID p.ttl) now) else none
  | creating session now, .createFailed =>
    if now = p.createdAt then some (failed session now) else none
  | creating session now, .stop => some (creating session.stop now)
  | opening session now, .delay d =>
    if 0 < d ∧ now + d ≤ p.openedAt then some (opening session (now + d)) else none
  | opening session now, .opened =>
    if now = p.openedAt then
      some (running (Heartbeat.start p.ttl (session.swapHeartbeat (some 0) (some 0)).1 now
        p.createSentAt))
    else none
  | opening session now, .openFailed err =>
    if now = p.openedAt then some (failed (session.invalidate (.leaseUnavailable err)) now)
    else none
  | opening session now, .stop => some (opening session.stop now)
  | running h, .loop a => (Heartbeat.step p.ttl h a).map running
  | failed session now, .delay d => some (failed session (now + d))
  | failed session now, .stop => some (failed session.stop now)
  | _, _ => none

end Startup

/-- The session admits lock operations. -/
def Session.Active (s : Session) : Prop := (∃ l, s.activeLeaseID = .ok l) ∧ s.done = false

namespace Startup

/-- The `i`-th move is the acknowledgement of a renewal. -/
def AckedAt {p : StartTimes} (t : Trace (step p)) (i : Nat) : Prop :=
  ∃ a h, t.acts[i]? = some (.loop a) ∧ t.state (i + 1) = running h ∧ Acks a h

/-- With these times the session never admits lock operations past the first proof of liveness,
whatever the outcomes are. -/
def FailsClosed (p : StartTimes) : Prop :=
  ∀ t : Trace (step p), t.start = creating .new p.createSentAt →
    ∀ k, (∀ i < k, ¬ AckedAt t i) → (t.state k).session.Active →
      (t.state k).now < p.createSentAt + p.ttl.toInt

/-! ## The TTL

`heartbeatLoop` reads the TTL from the session when it starts; in the model it is a parameter of the
run. -/

/-- The session has the TTL of the run once it has a lease. -/
def HasTTL (p : StartTimes) : Startup → Prop
  | creating _ _ | failed _ _ => True
  | opening session _ => session.ttl = p.ttl
  | running h => h.session.ttl = p.ttl

theorem ttl_moved {ttl : Duration} {h h' : Heartbeat} {a : Heartbeat.Act}
    (hmoved : Moved ttl h a h') : h'.session.ttl = h.session.ttl := by
  cases hmoved <;> rfl

theorem HasTTL.step {p : StartTimes} {s s' : Startup} {a : Act} (hs : HasTTL p s)
    (hstep : step p s a = some s') : HasTTL p s' := by
  cases s with
  | creating session now =>
    cases a with
    | delay | created | createFailed =>
      obtain ⟨-, heq⟩ := Option.ite_none_right_eq_some.mp hstep
      cases heq
      trivial
    | stop =>
      cases hstep
      trivial
    | opened | openFailed | loop => cases hstep
  | opening session now =>
    cases a with
    | delay | opened =>
      obtain ⟨-, heq⟩ := Option.ite_none_right_eq_some.mp hstep
      cases heq
      exact hs
    | openFailed =>
      obtain ⟨-, heq⟩ := Option.ite_none_right_eq_some.mp hstep
      cases heq
      trivial
    | stop =>
      cases hstep
      exact hs
    | created | createFailed | loop => cases hstep
  | running h =>
    cases a with
    | loop b =>
      obtain ⟨h', hnext, rfl⟩ := Option.map_eq_some_iff.mp hstep
      exact (ttl_moved (moved_of_step hnext)).trans hs
    | delay | created | createFailed | opened | openFailed | stop => cases hstep
  | failed session now =>
    cases a with
    | delay | stop =>
      cases hstep
      trivial
    | created | createFailed | opened | openFailed | loop => cases hstep

/-- **The parameter is what the loop reads.** -/
theorem hasTTL_state {p : StartTimes} (t : Trace (step p))
    (hstart : t.start = creating .new p.createSentAt) (k : Nat) : HasTTL p (t.state k) := by
  refine t.invariant ?_ (fun _ _ _ hstep hs => hs.step hstep) k
  rw [hstart]
  trivial

/-! ## A quick start -/

section Sessions

variable {s : Session}

theorem not_active_of_refuses (h : s.Refuses) : ¬ s.Active := by
  rintro ⟨⟨l, hl⟩, -⟩
  obtain ⟨err, herr⟩ := h.activeLeaseID
  rw [hl] at herr
  cases herr

theorem not_active_of_done (h : s.done = true) : ¬ s.Active := by
  rintro ⟨-, hopen⟩
  rw [h] at hopen
  cases hopen

end Sessions

/-- Where `Start` can be before the first acknowledgement. -/
def Begun (p : StartTimes) : Startup → Prop
  | creating session _ => session.leaseID = 0
  | opening _ now => now ≤ p.openedAt
  | running h =>
    Timed p.ttl h ∧ Fresh p.ttl p.openedAt h h.pc ∧ h.confirmedAt = p.createSentAt ∧
      (h.pc = .returned → ¬ h.session.Active)
  | failed session _ => ¬ session.Active

section Begun

variable {p : StartTimes} {s s' : Startup} {a : Act}

/-- The loop returns with a session that admits nothing. -/
theorem not_active_of_returned {ttl : Duration} {h h' : Heartbeat} {a : Heartbeat.Act}
    (hmoved : Moved ttl h a h') (hold : h.pc = .returned → ¬ h.session.Active)
    (hpc : h'.pc = .returned) : ¬ h'.session.Active := by
  cases hmoved with
  | delay | fire => exact hold hpc
  | receive | acked | backedOff | wake => cases hpc
  | gaveUp err =>
    exact not_active_of_refuses (h.session.invalidate_refuses (.leaseUnavailable err)).1
  | left _ _ hdone => exact not_active_of_done hdone
  | stop => exact not_active_of_done rfl

theorem Begun.step (hpos : 0 < interval p.ttl) (hb : Begun p s) (hstep : step p s a = some s')
    (hack : ∀ b h, a = .loop b → s' = running h → ¬ Acks b h) : Begun p s' := by
  cases s with
  | creating session now =>
    cases a with
    | delay d =>
      obtain ⟨-, heq⟩ := Option.ite_none_right_eq_some.mp hstep
      cases heq
      exact hb
    | created leaseID =>
      obtain ⟨hnow, heq⟩ := Option.ite_none_right_eq_some.mp hstep
      cases heq
      show now ≤ p.openedAt
      rw [hnow, StartTimes.openedAt]
      omega
    | createFailed =>
      obtain ⟨-, heq⟩ := Option.ite_none_right_eq_some.mp hstep
      cases heq
      exact not_active_of_refuses (Or.inr hb)
    | stop =>
      cases hstep
      exact hb
    | opened | openFailed | loop => cases hstep
  | opening session now =>
    cases a with
    | delay d =>
      obtain ⟨⟨-, hle⟩, heq⟩ := Option.ite_none_right_eq_some.mp hstep
      cases heq
      exact hle
    | opened =>
      obtain ⟨hnow, heq⟩ := Option.ite_none_right_eq_some.mp hstep
      cases heq
      refine ⟨timed_start hpos _ now p.createSentAt, ⟨fun _ => ?_, fun htick => by cases htick⟩,
        rfl, fun hpc => by cases hpc⟩
      show now + interval p.ttl ≤ p.openedAt + interval p.ttl
      omega
    | openFailed err =>
      obtain ⟨-, heq⟩ := Option.ite_none_right_eq_some.mp hstep
      cases heq
      exact not_active_of_refuses (session.invalidate_refuses (.leaseUnavailable err)).1
    | stop =>
      cases hstep
      exact hb
    | created | createFailed | loop => cases hstep
  | running h =>
    cases a with
    | loop b =>
      obtain ⟨h', hnext, heq⟩ := Option.map_eq_some_iff.mp hstep
      subst heq
      obtain ⟨htimed, hfresh, hconf, hret⟩ := hb
      have hmoved := moved_of_step hnext
      have hnack := hack b h' rfl rfl
      exact ⟨htimed.step hpos hmoved, fresh_step hmoved hfresh hnack,
        (confirmedAt_step hmoved hnack).trans hconf, not_active_of_returned hmoved hret⟩
    | delay | created | createFailed | opened | openFailed | stop => cases hstep
  | failed session now =>
    cases a with
    | delay =>
      cases hstep
      exact hb
    | stop =>
      cases hstep
      exact not_active_of_done rfl
    | created | createFailed | opened | openFailed | loop => cases hstep

end Begun

/-- After a quick start the first attempt has failed, or the retry loop has given up, in time. -/
theorem failsClosed_of_quick {p : StartTimes} (httl : second ≤ p.ttl.toInt)
    (hquick : p.createLatency + p.openLatency + 2 * interval p.ttl < p.ttl.toInt) :
    FailsClosed p := by
  have hpos := interval_pos httl
  intro t hstart k hnack hactive
  have hbegun : Begun p (t.state k) := by
    refine t.invariant_from (Nat.zero_le k) ?_ ?_
    · rw [t.state_zero, hstart]
      exact rfl
    · intro i a s' _ hik ha hstep hI
      refine hI.step hpos hstep ?_
      rintro b h rfl rfl hacks
      exact hnack i hik ⟨b, h, ha, t.state_succ ha hstep, hacks⟩
  have hopened : p.openedAt = p.createSentAt + p.createLatency + p.openLatency := rfl
  cases hs : t.state k with
  | creating session now =>
    rw [hs] at hbegun hactive
    exact absurd hactive (not_active_of_refuses (Or.inr hbegun))
  | failed session now =>
    rw [hs] at hbegun hactive
    exact absurd hactive hbegun
  | opening session now =>
    rw [hs] at hbegun
    have hle : now ≤ p.openedAt := hbegun
    show now < _
    omega
  | running h =>
    rw [hs] at hbegun hactive
    obtain ⟨htimed, hfresh, hconf, hret⟩ := hbegun
    have hbound := Heartbeat.now_le htimed hfresh hpos fun hpc => hret hpc hactive
    rw [hconf] at hbound
    show h.now < _
    unfold patience millisecond at hbound
    unfold second at httl
    omega

/-! ## A slow start -/

/-- Let time pass, if any has to. -/
def waitFor (d : Nat) : List Act := if d = 0 then [] else [.delay d]

theorem run_waitFor {p : StartTimes} {s s' : Startup} {d : Nat} (hzero : d = 0 → s = s')
    (hstep : 0 < d → step p s (.delay d) = some s') :
    run (step p) s (waitFor d) = some s' := by
  unfold waitFor
  split
  · rename_i hd
    rw [run, hzero hd]
  · rw [run, hstep (by omega)]
    rfl

/-- A tick passes, and then the whole timeout of the first attempt. -/
def firstAttempt (n : Nat) : List Act :=
  [.loop (.delay n), .loop .fire, .loop .receive, .loop (.delay n)]

theorem run_firstAttempt {p : StartTimes} {n : Nat} (hn : interval p.ttl = n) (hpos : 0 < n)
    {session : Session} (hopen : session.done = false) (now : Int) :
    run (step p) (running (Heartbeat.start p.ttl session now p.createSentAt)) (firstAttempt n)
      = some (running ⟨session, now + n + n, now + n + n, false, p.createSentAt,
          .attempting (now + n)⟩) := by
  simp [firstAttempt, run, step, Heartbeat.step, Heartbeat.start, MayWait, hn, hpos, hopen]

/-- The moves of a start whose first renewal gets no answer. -/
def slowStart (p : StartTimes) (n : Nat) : List Act :=
  waitFor p.createLatency ++ .created 1 :: (waitFor p.openLatency ++ .opened :: firstAttempt n)

theorem run_slowStart {p : StartTimes} {n : Nat} (hn : interval p.ttl = n) (hpos : 0 < n) :
    run (step p) (creating .new p.createSentAt) (slowStart p n)
      = some (running ⟨((Session.new.startLease 1 p.ttl).swapHeartbeat (some 0) (some 0)).1,
          p.openedAt + n + n, p.openedAt + n + n, false, p.createSentAt,
          .attempting (p.openedAt + n)⟩) := by
  have hcreated : step p (creating .new p.createdAt) (.created 1)
      = some (opening (Session.new.startLease 1 p.ttl) p.createdAt) := if_pos rfl
  have hopened : step p (opening (Session.new.startLease 1 p.ttl) p.openedAt) .opened
      = some (running (Heartbeat.start p.ttl
          ((Session.new.startLease 1 p.ttl).swapHeartbeat (some 0) (some 0)).1 p.openedAt
          p.createSentAt)) := if_pos rfl
  have hcreate : run (step p) (creating .new p.createSentAt) (waitFor p.createLatency)
      = some (creating .new p.createdAt) :=
    run_waitFor (fun hd => by simp [StartTimes.createdAt, hd])
      fun hd => if_pos ⟨hd, le_refl p.createdAt⟩
  have hopen : run (step p) (opening (Session.new.startLease 1 p.ttl) p.createdAt)
      (waitFor p.openLatency) = some (opening (Session.new.startLease 1 p.ttl) p.openedAt) :=
    run_waitFor (fun hd => by simp [StartTimes.openedAt, hd])
      fun hd => if_pos ⟨hd, le_refl p.openedAt⟩
  rw [slowStart, run_append, hcreate, Option.bind_some, run, hcreated, Option.bind_some,
    run_append, hopen, Option.bind_some, run, hopened, Option.bind_some]
  exact run_firstAttempt hn hpos rfl p.openedAt

theorem not_acks_slowStart {p : StartTimes} {n : Nat} {a : Heartbeat.Act} {h : Heartbeat}
    (ha : .loop a ∈ slowStart p n) : ¬ Acks a h := by
  rintro ⟨rfl, -⟩
  simp [slowStart, waitFor, firstAttempt] at ha

/-- After a slow start the first attempt is still under way when the lease may have expired. -/
theorem not_failsClosed_of_slow {p : StartTimes} (httl : second ≤ p.ttl.toInt)
    (hslow : p.ttl.toInt ≤ p.createLatency + p.openLatency + 2 * interval p.ttl) :
    ¬ FailsClosed p := by
  have hinterval := interval_pos httl
  obtain ⟨n, hn⟩ : ∃ n : Nat, interval p.ttl = n := ⟨(interval p.ttl).toNat, by omega⟩
  have hpos : 0 < n := by omega
  have hrun := run_slowStart hn hpos
  intro hclosed
  let t : Trace (step p) := ⟨creating .new p.createSentAt, slowStart p n, by rw [hrun]; rfl⟩
  have hend := t.state_eq (k := (slowStart p n).length)
    ((congrArg _ (List.take_length (l := slowStart p n))).trans hrun)
  have hlt := hclosed t rfl (slowStart p n).length ?_ ?_
  · rw [hend] at hlt
    have hopened : p.openedAt = p.createSentAt + p.createLatency + p.openLatency := rfl
    have hnow : p.openedAt + n + n < p.createSentAt + p.ttl.toInt := hlt
    omega
  · rintro i - ⟨a, h, ha, -, hacks⟩
    exact not_acks_slowStart (List.mem_of_getElem? ha) hacks
  · rw [hend]
    exact ⟨⟨1, rfl⟩, rfl⟩

/-- **A session is closed in time exactly after a quick start**: one whose two latencies, a full
tick and a full attempt together take less than one TTL. -/
theorem failsClosed_iff (p : StartTimes) (httl : second ≤ p.ttl.toInt) :
    FailsClosed p ↔
      p.createLatency + p.openLatency + 2 * interval p.ttl < p.ttl.toInt := by
  constructor
  · intro hclosed
    by_contra hslow
    exact not_failsClosed_of_slow httl (not_lt.mp hslow) hclosed
  · exact failsClosed_of_quick httl

/-- A start within 200 ms, with a TTL of three seconds. -/
theorem failsClosed_iff_quick :
    second ≤ threeSeconds.toInt ∧ FailsClosed ⟨threeSeconds, 0, 100000000, 100000000⟩ :=
  ⟨by decide, (failsClosed_iff ⟨threeSeconds, 0, 100000000, 100000000⟩ (by decide)).mpr (by decide)⟩

/-- A start that takes one and a half seconds is too slow for a TTL of three. -/
theorem not_failsClosed_slow : ¬ FailsClosed ⟨threeSeconds, 0, 1000000000, 500000000⟩ :=
  not_failsClosed_of_slow (by decide) (by decide)

end Startup

end Clavis
