import Clavis.Client.Session

/-!
# Clavis — the heartbeat loop

`Client.heartbeatLoop` in logical time. The loop renews the lease on every tick of a ticker of
period TTL/3; when a renewal fails it retries with backoff and, a quarter TTL before the last proof
of liveness runs out, invalidates the session.

* `Heartbeat` — the clock, the ticker with its channel of one slot, the loop's variables and where
  it is. Durations and times are nanoseconds; `ttl / 3` is Go's integer division, and the TTL is
  positive.
* `Heartbeat.step` — one move. Time passes only up to the next instant at which something has to
  happen: the ticker fires on time, timers fire on time, an attempt returns by its timeout (with any
  outcome, and at any time before), and a channel that is ready is received from at once. The loop's
  own computations take no time. The application may stop the session at any moment.
* `Clocked` — what holds of the loop's times in every state. `Fresh base` — the next attempt starts
  within one interval of `base`; an acknowledged renewal establishes it for its own send time.
* `heartbeat_fails_closed` — after an acknowledged renewal sent at `S` the session is invalidated no
  earlier than `S + (ttl - ttl/4)` and no later than a millisecond after that, unless another
  renewal is acknowledged; this takes a bounded number of moves, one of which is always possible.
-/

namespace Clavis

open Lib

def millisecond : Int := 1000000

def second : Int := 1000000000

/-- Where the loop is. -/
inductive HeartbeatPc where
  /-- In the `select` at the top. -/
  | waiting
  /-- In the attempt of a tick. -/
  | attempting (sentAt : Int)
  /-- In the `select` of the retry loop, until `wakeAt`. -/
  | sleeping (wakeAt giveUpAt backoff : Int)
  /-- In the attempt of the retry loop, which returns by `deadline`. -/
  | retrying (sentAt deadline giveUpAt backoff : Int)
  | returned
deriving DecidableEq

/-- The send time of the renewal under way. -/
def HeartbeatPc.sentAt : HeartbeatPc → Option Int
  | attempting sentAt => some sentAt
  | retrying sentAt _ _ _ => some sentAt
  | _ => none

/-- A client whose heartbeat loop has been started. -/
structure Heartbeat where
  session : Session
  now : Int
  /-- When the ticker fires next. -/
  nextTick : Int
  /-- A tick waits in the ticker's channel. -/
  tick : Bool
  confirmedAt : Int
  pc : HeartbeatPc
deriving DecidableEq

namespace Heartbeat

/-- `ttl / 3`. -/
def interval (ttl : Duration) : Int := ttl.toInt / 3

/-- `ttl - ttl/4`. -/
def patience (ttl : Duration) : Int := ttl.toInt - ttl.toInt / 4

/-- `go c.heartbeatLoop(ctx, confirmedAt)`. -/
def start (ttl : Duration) (session : Session) (now confirmedAt : Int) : Heartbeat :=
  ⟨session, now, now + interval ttl, false, confirmedAt, .waiting⟩

/-- The top of the retry loop's body, after an attempt that failed. -/
def retryLoop (h : Heartbeat) (err : String) (giveUpAt backoff : Int) : Heartbeat :=
  let remaining := giveUpAt - h.now
  if remaining ≤ 0 then
    { h with session := h.session.invalidate (.leaseUnavailable err), pc := .returned }
  else { h with pc := .sleeping (h.now + min backoff remaining) giveUpAt backoff }

inductive Act where
  | delay (d : Nat)
  | fire
  | receive
  /-- The attempt under way returns. -/
  | result (err : Option String)
  | wake
  | ctxDone
  | stop
deriving DecidableEq

/-- Nothing has to happen before `time` in a loop that is there. -/
def MayWait (ttl : Duration) (h : Heartbeat) (time : Int) : HeartbeatPc → Prop
  | .waiting => time ≤ h.nextTick ∧ h.tick = false ∧ h.session.done = false
  | .attempting sentAt => time ≤ h.nextTick ∧ time ≤ sentAt + interval ttl
  | .sleeping wakeAt _ _ => time ≤ h.nextTick ∧ time ≤ wakeAt ∧ h.session.done = false
  | .retrying _ deadline _ _ => time ≤ h.nextTick ∧ time ≤ deadline
  | .returned => True

instance (ttl : Duration) (h : Heartbeat) (time : Int) :
    (pc : HeartbeatPc) → Decidable (h.MayWait ttl time pc)
  | .waiting => inferInstanceAs (Decidable (_ ∧ _ ∧ _))
  | .attempting _ => inferInstanceAs (Decidable (_ ∧ _))
  | .sleeping _ _ _ => inferInstanceAs (Decidable (_ ∧ _ ∧ _))
  | .retrying _ _ _ _ => inferInstanceAs (Decidable (_ ∧ _))
  | .returned => isTrue trivial

def step (ttl : Duration) (h : Heartbeat) : Act → Option Heartbeat
  | .delay d =>
    if 0 < d ∧ h.MayWait ttl (h.now + d) h.pc then some { h with now := h.now + d } else none
  | .fire =>
    if h.pc ≠ .returned ∧ h.now = h.nextTick then
      some { h with tick := true, nextTick := h.nextTick + interval ttl }
    else none
  | .receive =>
    if h.pc = .waiting ∧ h.tick = true then
      some { h with tick := false, pc := .attempting h.now }
    else none
  | .result err =>
    match h.pc with
    | .attempting sentAt =>
      match err with
      | none => some { h with confirmedAt := sentAt, pc := .waiting }
      | some e =>
        if h.session.done then some { h with pc := .returned }
        else some (h.retryLoop e (h.confirmedAt + patience ttl) (50 * millisecond))
    | .retrying sentAt _ giveUpAt backoff =>
      if h.session.done then some { h with pc := .returned }
      else match err with
        | none => some { h with confirmedAt := sentAt, pc := .waiting }
        | some e => some (h.retryLoop e giveUpAt backoff)
    | _ => none
  | .wake =>
    match h.pc with
    | .sleeping wakeAt giveUpAt backoff =>
      if h.now = wakeAt then
        some { h with
          pc := .retrying h.now
            (h.now + min (interval ttl) (max (giveUpAt - h.now) millisecond)) giveUpAt
            (min (2 * backoff) (500 * millisecond)) }
      else none
    | _ => none
  | .ctxDone =>
    match h.pc with
    | .waiting | .sleeping _ _ _ =>
      if h.session.done then some { h with pc := .returned } else none
    | _ => none
  | .stop => some { h with session := h.session.stop }

/-! ## What one move does -/

/-- An attempt that fails now leads to the retry loop with these variables. -/
def Failing (ttl : Duration) (h : Heartbeat) (giveUpAt backoff : Int) : Prop :=
  match h.pc with
  | .attempting _ => giveUpAt = h.confirmedAt + patience ttl ∧ backoff = 50 * millisecond
  | .retrying _ _ giveUpAt' backoff' => giveUpAt = giveUpAt' ∧ backoff = backoff'
  | _ => False

inductive Moved (ttl : Duration) (h : Heartbeat) : Act → Heartbeat → Prop where
  | delay (d : Nat) (hd : 0 < d) (hwait : h.MayWait ttl (h.now + d) h.pc) :
      Moved ttl h (.delay d) { h with now := h.now + d }
  | fire (hlive : h.pc ≠ .returned) (hnow : h.now = h.nextTick) :
      Moved ttl h .fire { h with tick := true, nextTick := h.nextTick + interval ttl }
  | receive (hpc : h.pc = .waiting) (htick : h.tick = true) :
      Moved ttl h .receive { h with tick := false, pc := .attempting h.now }
  | acked (sentAt : Int) (hsent : h.pc.sentAt = some sentAt) :
      Moved ttl h (.result none) { h with confirmedAt := sentAt, pc := .waiting }
  | gaveUp (err : String) (giveUpAt backoff : Int) (hfail : h.Failing ttl giveUpAt backoff)
      (hdone : h.session.done = false) (hlate : giveUpAt ≤ h.now) :
      Moved ttl h (.result (some err))
        { h with session := h.session.invalidate (.leaseUnavailable err), pc := .returned }
  | backedOff (err : String) (giveUpAt backoff : Int) (hfail : h.Failing ttl giveUpAt backoff)
      (hdone : h.session.done = false) (hearly : h.now < giveUpAt) :
      Moved ttl h (.result (some err))
        { h with pc := .sleeping (h.now + min backoff (giveUpAt - h.now)) giveUpAt backoff }
  | wake (giveUpAt backoff : Int) (hpc : h.pc = .sleeping h.now giveUpAt backoff) :
      Moved ttl h .wake { h with
        pc := .retrying h.now
          (h.now + min (interval ttl) (max (giveUpAt - h.now) millisecond)) giveUpAt
          (min (2 * backoff) (500 * millisecond)) }
  | left (a : Act) (hlive : h.pc ≠ .returned) (hdone : h.session.done = true) :
      Moved ttl h a { h with pc := .returned }
  | stop : Moved ttl h .stop { h with session := h.session.stop }

section Inversion

variable {ttl : Duration} {h h' : Heartbeat} {a : Act}

theorem moved_retryLoop {err : String} {giveUpAt backoff : Int}
    (hfail : h.Failing ttl giveUpAt backoff) (hdone : h.session.done = false) :
    Moved ttl h (.result (some err)) (h.retryLoop err giveUpAt backoff) := by
  unfold retryLoop
  dsimp only
  split
  · exact .gaveUp err giveUpAt backoff hfail hdone (by omega)
  · exact .backedOff err giveUpAt backoff hfail hdone (by omega)

theorem moved_of_step (hstep : step ttl h a = some h') : Moved ttl h a h' := by
  cases a with
  | delay d =>
    obtain ⟨⟨hd, hwait⟩, heq⟩ := Option.ite_none_right_eq_some.mp hstep
    cases heq
    exact .delay d hd hwait
  | fire =>
    obtain ⟨⟨hlive, hnow⟩, heq⟩ := Option.ite_none_right_eq_some.mp hstep
    cases heq
    exact .fire hlive hnow
  | receive =>
    obtain ⟨⟨hpc, htick⟩, heq⟩ := Option.ite_none_right_eq_some.mp hstep
    cases heq
    exact .receive hpc htick
  | result err =>
    cases hpc : h.pc with
    | waiting | sleeping | returned => simp [step, hpc] at hstep
    | attempting sentAt =>
      cases err with
      | none =>
        simp only [step, hpc, Option.some.injEq] at hstep
        subst hstep
        exact .acked sentAt (by rw [hpc]; rfl)
      | some e =>
        simp only [step, hpc] at hstep
        cases hdone : h.session.done with
        | true =>
          simp only [hdone, if_true, Option.some.injEq] at hstep
          subst hstep
          exact .left _ (by simp [hpc]) hdone
        | false =>
          simp only [hdone, Bool.false_eq_true, if_false, Option.some.injEq] at hstep
          subst hstep
          exact moved_retryLoop (by simp [Failing, hpc]) hdone
    | retrying sentAt deadline giveUpAt backoff =>
      simp only [step, hpc] at hstep
      cases hdone : h.session.done with
      | true =>
        simp only [hdone, if_true, Option.some.injEq] at hstep
        subst hstep
        exact .left _ (by simp [hpc]) hdone
      | false =>
        simp only [hdone, Bool.false_eq_true, if_false] at hstep
        cases err with
        | none =>
          simp only [Option.some.injEq] at hstep
          subst hstep
          exact .acked sentAt (by rw [hpc]; rfl)
        | some e =>
          simp only [Option.some.injEq] at hstep
          subst hstep
          exact moved_retryLoop (by simp [Failing, hpc]) hdone
  | wake =>
    cases hpc : h.pc with
    | waiting | attempting | retrying | returned => simp [step, hpc] at hstep
    | sleeping wakeAt giveUpAt backoff =>
      simp only [step, hpc] at hstep
      obtain ⟨hnow, heq⟩ := Option.ite_none_right_eq_some.mp hstep
      cases heq
      exact .wake giveUpAt backoff (by rw [hpc, hnow])
  | ctxDone =>
    cases hpc : h.pc with
    | attempting | retrying | returned => simp [step, hpc] at hstep
    | waiting | sleeping =>
      simp only [step, hpc] at hstep
      obtain ⟨hdone, heq⟩ := Option.ite_none_right_eq_some.mp hstep
      cases heq
      exact .left _ (by simp [hpc]) hdone
  | stop =>
    cases hstep
    exact .stop

end Inversion

/-! ## The loop's times -/

/-- What holds of the loop's variables where it is. -/
def Clocked (ttl : Duration) (h : Heartbeat) : HeartbeatPc → Prop
  | .waiting => True
  | .attempting sentAt =>
    sentAt ≤ h.now ∧ h.now ≤ sentAt + interval ttl ∧
      (h.tick = false → h.nextTick ≤ sentAt + interval ttl)
  | .sleeping wakeAt giveUpAt backoff =>
    giveUpAt = h.confirmedAt + patience ttl ∧ 0 < backoff ∧ h.now ≤ wakeAt ∧ wakeAt ≤ giveUpAt
  | .retrying sentAt deadline giveUpAt backoff =>
    giveUpAt = h.confirmedAt + patience ttl ∧ 0 < backoff ∧ sentAt ≤ h.now ∧ h.now ≤ deadline ∧
      deadline ≤ sentAt + interval ttl ∧ deadline ≤ giveUpAt + millisecond ∧
      (h.tick = false → h.nextTick ≤ sentAt + interval ttl)
  | .returned => True

/-- The times of a loop that started on time and is never late. -/
structure Timed (ttl : Duration) (h : Heartbeat) : Prop where
  tick : h.pc ≠ .returned → h.now ≤ h.nextTick ∧ h.nextTick ≤ h.now + interval ttl
  clocked : h.Clocked ttl h.pc

/-- The next attempt starts within one interval of `base`, if the loop is not in an attempt. -/
def Fresh (ttl : Duration) (base : Int) (h : Heartbeat) : HeartbeatPc → Prop
  | .waiting =>
    (h.tick = false → h.nextTick ≤ base + interval ttl) ∧
      (h.tick = true → h.now ≤ base + interval ttl)
  | .attempting sentAt => sentAt ≤ base + interval ttl
  | _ => True

/-- The move is the acknowledgement of a renewal. -/
def Acks (a : Act) (h' : Heartbeat) : Prop := a = .result none ∧ h'.pc = .waiting

section Times

variable {ttl : Duration} {h h' : Heartbeat} {a : Act} {base : Int}

theorem interval_pos (httl : second ≤ ttl.toInt) : 0 < interval ttl := by
  unfold interval
  unfold second at httl
  omega

theorem timed_start (hpos : 0 < interval ttl) (session : Session) (now confirmedAt : Int) :
    Timed ttl (start ttl session now confirmedAt) := by
  refine ⟨fun _ => ?_, trivial⟩
  show now ≤ now + interval ttl ∧ now + interval ttl ≤ now + interval ttl
  omega

theorem MayWait.le_nextTick {time : Int} {pc : HeartbeatPc} (hwait : h.MayWait ttl time pc)
    (hlive : pc ≠ .returned) : time ≤ h.nextTick := by
  cases pc with
  | waiting | attempting | sleeping | retrying => exact hwait.1
  | returned => exact absurd rfl hlive

/-- The loop is in an attempt when a renewal is under way. -/
theorem ne_returned_of_sentAt {pc : HeartbeatPc} {sentAt : Int} (hsent : pc.sentAt = some sentAt) :
    pc ≠ .returned := by
  rintro rfl
  cases hsent

theorem Failing.exists_sentAt {giveUpAt backoff : Int} (hfail : h.Failing ttl giveUpAt backoff) :
    ∃ sentAt, h.pc.sentAt = some sentAt := by
  unfold Failing at hfail
  generalize h.pc = pc at hfail
  cases pc with
  | waiting | sleeping | returned => exact hfail.elim
  | attempting sentAt | retrying sentAt => exact ⟨sentAt, rfl⟩

/-- The retry loop gives up one patience after the last confirmation. -/
theorem Failing.giveUpAt_eq {giveUpAt backoff : Int} (hfail : h.Failing ttl giveUpAt backoff)
    (hclocked : h.Clocked ttl h.pc) : giveUpAt = h.confirmedAt + patience ttl ∧ 0 < backoff := by
  unfold Failing at hfail
  generalize h.pc = pc at hclocked hfail
  cases pc with
  | waiting | sleeping | returned => exact hfail.elim
  | attempting =>
    obtain ⟨hgive, rfl⟩ := hfail
    exact ⟨hgive, by decide⟩
  | retrying =>
    obtain ⟨rfl, rfl⟩ := hfail
    exact ⟨hclocked.1, hclocked.2.1⟩

theorem Clocked.sentAt_le {pc : HeartbeatPc} {sentAt : Int} (hclocked : h.Clocked ttl pc)
    (hsent : pc.sentAt = some sentAt) : sentAt ≤ h.now := by
  cases pc with
  | waiting | sleeping | returned => cases hsent
  | attempting =>
    cases hsent
    exact hclocked.1
  | retrying =>
    cases hsent
    exact hclocked.2.2.1

theorem Clocked.delay {pc : HeartbeatPc} {d : Nat} (hclocked : h.Clocked ttl pc)
    (hwait : h.MayWait ttl (h.now + d) pc) : Clocked ttl { h with now := h.now + d } pc := by
  cases pc with
  | waiting | returned => trivial
  | attempting sentAt =>
    simp only [Clocked, MayWait] at hclocked hwait ⊢
    exact ⟨by omega, hwait.2, hclocked.2.2⟩
  | sleeping wakeAt giveUpAt backoff =>
    simp only [Clocked, MayWait] at hclocked hwait ⊢
    exact ⟨hclocked.1, hclocked.2.1, hwait.2.1, hclocked.2.2.2⟩
  | retrying sentAt deadline giveUpAt backoff =>
    simp only [Clocked, MayWait] at hclocked hwait ⊢
    obtain ⟨hgive, hback, hsent, -, hrest⟩ := hclocked
    exact ⟨hgive, hback, by omega, hwait.2, hrest⟩

/-- A tick in the channel is all that an attempt has to know of the ticker. -/
theorem Clocked.fire {pc : HeartbeatPc} (hclocked : h.Clocked ttl pc) :
    Clocked ttl { h with tick := true, nextTick := h.nextTick + interval ttl } pc := by
  cases pc with
  | waiting | returned => trivial
  | sleeping => exact hclocked
  | attempting sentAt => exact ⟨hclocked.1, hclocked.2.1, fun hf => by cases hf⟩
  | retrying sentAt deadline giveUpAt backoff =>
    obtain ⟨hgive, hback, hsent, hdl, hle, hle', -⟩ := hclocked
    exact ⟨hgive, hback, hsent, hdl, hle, hle', fun hf => by cases hf⟩

theorem Timed.step (hpos : 0 < interval ttl) (ht : Timed ttl h) (hmoved : Moved ttl h a h') :
    Timed ttl h' := by
  obtain ⟨htick, hclocked⟩ := ht
  cases hmoved with
  | delay d hd hwait =>
    refine ⟨fun hlive => ?_, hclocked.delay hwait⟩
    have hle := hwait.le_nextTick hlive
    have hold := htick hlive
    show h.now + d ≤ h.nextTick ∧ h.nextTick ≤ h.now + d + interval ttl
    omega
  | fire hlive hnow =>
    refine ⟨fun _ => ?_, hclocked.fire⟩
    show h.now ≤ h.nextTick + interval ttl ∧ h.nextTick + interval ttl ≤ h.now + interval ttl
    omega
  | receive hpc _ =>
    have hold := htick (by simp [hpc])
    refine ⟨fun _ => hold, le_refl h.now, ?_, fun _ => hold.2⟩
    show h.now ≤ h.now + interval ttl
    omega
  | acked sentAt hsent => exact ⟨fun _ => htick (ne_returned_of_sentAt hsent), trivial⟩
  | gaveUp | left => exact ⟨fun hlive => absurd rfl hlive, trivial⟩
  | backedOff err giveUpAt backoff hfail hdone hearly =>
    obtain ⟨sentAt, hsent⟩ := hfail.exists_sentAt
    obtain ⟨hgive, hback⟩ := hfail.giveUpAt_eq hclocked
    refine ⟨fun _ => htick (ne_returned_of_sentAt hsent), hgive, hback, ?_, ?_⟩
    · show h.now ≤ h.now + min backoff (giveUpAt - h.now)
      omega
    · omega
  | wake giveUpAt backoff hpc =>
    rw [hpc] at hclocked
    obtain ⟨hgive, hback, -, hle⟩ := hclocked
    have hold := htick (by simp [hpc])
    have hms : 0 < millisecond := by decide
    refine ⟨fun _ => hold, hgive, by omega, le_refl h.now, ?_, by omega, by omega, fun _ => hold.2⟩
    show h.now ≤ h.now + min (interval ttl) (max (giveUpAt - h.now) millisecond)
    omega
  | stop => exact ⟨htick, hclocked⟩

/-- An acknowledged renewal makes the loop fresh for its own send time: a tick that came since is in
the channel, and otherwise the next one comes in time. -/
theorem fresh_acked (ht : Timed ttl h) {sentAt : Int} (hsent : h.pc.sentAt = some sentAt) :
    Fresh ttl sentAt { h with confirmedAt := sentAt, pc := .waiting } .waiting := by
  obtain ⟨-, hclocked⟩ := ht
  generalize h.pc = pc at hclocked hsent
  cases pc with
  | waiting | sleeping | returned => cases hsent
  | attempting sent =>
    cases hsent
    exact ⟨hclocked.2.2, fun _ => hclocked.2.1⟩
  | retrying sent deadline giveUpAt backoff =>
    cases hsent
    obtain ⟨-, -, -, hnow, hdl, -, htick⟩ := hclocked
    refine ⟨htick, fun _ => ?_⟩
    show h.now ≤ sentAt + interval ttl
    omega

/-- Other moves keep it. -/
theorem fresh_step (hmoved : Moved ttl h a h') (hf : Fresh ttl base h h.pc)
    (hack : ¬ Acks a h') : Fresh ttl base h' h'.pc := by
  cases hmoved with
  | delay d hd hwait =>
    show Fresh ttl base { h with now := h.now + d } h.pc
    generalize h.pc = pc at hwait hf
    cases pc with
    | waiting =>
      refine ⟨hf.1, fun htick => ?_⟩
      rw [hwait.2.1] at htick
      cases htick
    | attempting | sleeping | retrying | returned => exact hf
  | fire hlive hnow =>
    show Fresh ttl base { h with tick := true, nextTick := h.nextTick + interval ttl } h.pc
    generalize h.pc = pc at hf
    cases pc with
    | waiting =>
      refine ⟨fun htick => (by cases htick), fun _ => ?_⟩
      -- the tick comes when the wait for it ends
      show h.now ≤ base + interval ttl
      cases htick : h.tick with
      | false => exact hnow ▸ hf.1 htick
      | true => exact hf.2 htick
    | attempting | sleeping | retrying | returned => exact hf
  | receive hpc htick =>
    rw [hpc] at hf
    exact hf.2 htick
  | acked => exact absurd ⟨rfl, rfl⟩ hack
  | gaveUp | backedOff | wake | left => trivial
  | stop => exact hf

/-- **The bound**: a loop that is fresh for `base` returns before two intervals have passed, or gets
into its retry loop, which ends a millisecond after its deadline at the latest. -/
theorem now_le (ht : Timed ttl h) (hf : Fresh ttl base h h.pc) (hpos : 0 < interval ttl)
    (hlive : h.pc ≠ .returned) :
    h.now ≤ base + 2 * interval ttl ∨ h.now ≤ h.confirmedAt + patience ttl + millisecond := by
  obtain ⟨htick, hclocked⟩ := ht
  have hnext := (htick hlive).1
  generalize h.pc = pc at hclocked hf hlive
  cases pc with
  | waiting =>
    left
    cases hpend : h.tick with
    | false =>
      have hle := hf.1 hpend
      omega
    | true =>
      have hle := hf.2 hpend
      omega
  | attempting sentAt =>
    left
    have hsent : sentAt ≤ base + interval ttl := hf
    have hnow := hclocked.2.1
    omega
  | sleeping wakeAt giveUpAt backoff =>
    right
    obtain ⟨hgive, -, hnow, hle⟩ := hclocked
    unfold millisecond
    omega
  | retrying sentAt deadline giveUpAt backoff =>
    right
    obtain ⟨hgive, -, -, hnow, -, hle, -⟩ := hclocked
    omega
  | returned => exact absurd rfl hlive

/-! ## The session -/

/-- Unless the application stops it, the session is open while the loop runs and invalidated when
it has returned. -/
structure Unstopped (h : Heartbeat) : Prop where
  live : h.pc ≠ .returned → h.session.done = false
  returned : h.pc = .returned → h.session.Refuses ∧ h.session.done = true

theorem Unstopped.step (hu : Unstopped h) (hmoved : Moved ttl h a h') (hstop : a ≠ .stop) :
    Unstopped h' := by
  cases hmoved with
  | delay | fire => exact ⟨hu.live, hu.returned⟩
  | receive hpc _ =>
    exact ⟨fun _ => hu.live (by simp [hpc]), fun hpc' => by cases hpc'⟩
  | acked sentAt hsent =>
    exact ⟨fun _ => hu.live (ne_returned_of_sentAt hsent), fun hpc' => by cases hpc'⟩
  | gaveUp err =>
    exact ⟨fun hlive => absurd rfl hlive,
      fun _ => h.session.invalidate_refuses (.leaseUnavailable err)⟩
  | backedOff _ _ _ _ hdone => exact ⟨fun _ => hdone, fun hpc' => by cases hpc'⟩
  | wake giveUpAt backoff hpc =>
    exact ⟨fun _ => hu.live (by simp [hpc]), fun hpc' => by cases hpc'⟩
  | left _ hlive hdone =>
    rw [hu.live hlive] at hdone
    cases hdone
  | stop => exact absurd rfl hstop

/-! ## Progress -/

/-- How many moves are left at one instant. -/
def rank (h : Heartbeat) : HeartbeatPc → Nat
  | .waiting => 4
  | .attempting _ => 3
  | .sleeping wakeAt _ _ => if wakeAt ≤ h.now then 2 else 0
  | .retrying _ _ _ _ => 1
  | .returned => 0

/-- Ten moves for every nanosecond up to `limit`, and those of this instant. -/
def measure (limit : Int) (h : Heartbeat) : Nat :=
  10 * (limit - h.now).toNat + h.rank h.pc + if h.nextTick ≤ h.now then 5 else 0

theorem rank_le (h : Heartbeat) (pc : HeartbeatPc) : h.rank pc ≤ 4 := by
  cases pc with
  | waiting | attempting | retrying | returned => simp [rank]
  | sleeping wakeAt =>
    simp only [rank]
    split <;> omega

theorem one_le_rank (h : Heartbeat) {pc : HeartbeatPc} {sentAt : Int}
    (hsent : pc.sentAt = some sentAt) : 1 ≤ h.rank pc := by
  cases pc with
  | waiting | sleeping | returned => cases hsent
  | attempting | retrying => simp [rank]

/-- Every move of the loop that ends neither the loop nor the wait for an acknowledgement uses up
some of the measure. -/
theorem measure_lt (hpos : 0 < interval ttl) (ht : Timed ttl h) (hmoved : Moved ttl h a h')
    (hstop : a ≠ .stop) (hlive : h'.pc ≠ .returned) {limit : Int} (hlimit : h'.now ≤ limit)
    (hack : ¬ Acks a h') :
    measure limit h' < measure limit h := by
  unfold measure
  cases hmoved with
  | delay d hd hwait =>
    have hle := rank_le { h with now := h.now + d } h.pc
    dsimp only at hlimit ⊢
    split <;> omega
  | fire hlive hnow =>
    have hrank : rank { h with tick := true, nextTick := h.nextTick + interval ttl } h.pc
        = h.rank h.pc := by cases h.pc <;> rfl
    dsimp only
    rw [hrank, if_neg (by omega), if_pos (by omega)]
    omega
  | receive hpc htick =>
    rw [hpc]
    simp only [rank]
    omega
  | acked => exact absurd ⟨rfl, rfl⟩ hack
  | gaveUp | left => exact absurd rfl hlive
  | backedOff err giveUpAt backoff hfail hdone hearly =>
    obtain ⟨sentAt, hsent⟩ := hfail.exists_sentAt
    have hback := (hfail.giveUpAt_eq ht.clocked).2
    have hrank := h.one_le_rank hsent
    have hasleep : rank { h with
        pc := .sleeping (h.now + min backoff (giveUpAt - h.now)) giveUpAt backoff }
        (.sleeping (h.now + min backoff (giveUpAt - h.now)) giveUpAt backoff) = 0 :=
      if_neg (show ¬ h.now + min backoff (giveUpAt - h.now) ≤ h.now by omega)
    dsimp only
    rw [hasleep]
    omega
  | wake giveUpAt backoff hpc =>
    rw [hpc]
    simp only [rank, le_refl, if_true]
    omega
  | stop => exact absurd rfl hstop

/-- The loop never gets stuck before it returns. -/
theorem exists_move (ht : Timed ttl h) (hlive : h.pc ≠ .returned) :
    ∃ a, a ≠ .stop ∧ (step ttl h a).isSome := by
  have hnext := ht.tick hlive
  have hclocked := ht.clocked
  by_cases hfire : h.now = h.nextTick
  · exact ⟨.fire, by decide, by rw [step, if_pos ⟨hlive, hfire⟩]; rfl⟩
  cases hpc : h.pc with
  | returned => exact absurd hpc hlive
  | attempting sentAt => exact ⟨.result none, by decide, by simp [step, hpc]⟩
  | retrying sentAt =>
    refine ⟨.result none, by decide, ?_⟩
    cases hdone : h.session.done <;> simp [step, hpc, hdone]
  | waiting =>
    cases hdone : h.session.done with
    | true => exact ⟨.ctxDone, by decide, by simp [step, hpc, hdone]⟩
    | false =>
      cases htick : h.tick with
      | true => exact ⟨.receive, by decide, by simp [step, hpc, htick]⟩
      | false =>
        have hwait : h.MayWait ttl (h.now + (h.nextTick - h.now).toNat) h.pc := by
          rw [hpc]
          exact ⟨by omega, htick, hdone⟩
        exact ⟨.delay (h.nextTick - h.now).toNat, Act.noConfusion,
          by rw [step, if_pos ⟨by omega, hwait⟩]; rfl⟩
  | sleeping wakeAt giveUpAt backoff =>
    cases hdone : h.session.done with
    | true => exact ⟨.ctxDone, by decide, by simp [step, hpc, hdone]⟩
    | false =>
      rw [hpc] at hclocked
      obtain ⟨-, -, hle, -⟩ := hclocked
      by_cases hwake : h.now = wakeAt
      · exact ⟨.wake, by decide, by simp [step, hpc, hwake]⟩
      · have hwait : h.MayWait ttl (h.now + (min wakeAt h.nextTick - h.now).toNat) h.pc := by
          rw [hpc]
          exact ⟨by omega, by omega, hdone⟩
        exact ⟨.delay (min wakeAt h.nextTick - h.now).toNat, Act.noConfusion,
          by rw [step, if_pos ⟨by omega, hwait⟩]; rfl⟩

end Times

/-! ### Two more facts about a move -/

section Moves

variable {ttl : Duration} {h h' : Heartbeat} {a : Act}

theorem confirmedAt_step (hmoved : Moved ttl h a h') (hack : ¬ Acks a h') :
    h'.confirmedAt = h.confirmedAt := by
  cases hmoved with
  | acked => exact absurd ⟨rfl, rfl⟩ hack
  | delay | fire | receive | gaveUp | backedOff | wake | left | stop => rfl

theorem returned_step (hmoved : Moved ttl h a h') (hpc : h.pc = .returned) :
    h'.pc = .returned := by
  cases hmoved with
  | delay | stop => exact hpc
  | gaveUp | left => rfl
  | fire hlive => exact absurd hpc hlive
  | receive hpc' | wake _ _ hpc' =>
    rw [hpc] at hpc'
    cases hpc'
  | acked _ hsent => exact absurd hpc (ne_returned_of_sentAt hsent)
  | backedOff _ _ _ hfail =>
    obtain ⟨sentAt, hsent⟩ := hfail.exists_sentAt
    exact absurd hpc (ne_returned_of_sentAt hsent)

/-- Only the give-up check records an error, and not before its time. -/
theorem giveUp_of_leaseErr (ht : Timed ttl h) (hmoved : Moved ttl h a h')
    (hbefore : h.session.leaseErr = none) (hafter : h'.session.leaseErr ≠ none) :
    h.confirmedAt + patience ttl ≤ h'.now := by
  cases hmoved with
  | gaveUp err giveUpAt backoff hfail hdone hlate =>
    obtain ⟨rfl, -⟩ := hfail.giveUpAt_eq ht.clocked
    exact hlate
  | delay | fire | receive | acked | backedOff | wake | left | stop =>
    exact absurd hbefore hafter

end Moves

/-! ## Runs -/

section Runs

variable {ttl : Duration} (t : Trace (step ttl))

/-- The renewal sent at `S` is acknowledged by the `i`-th move. -/
def AckedAt (i : Nat) (S : Int) : Prop :=
  t.acts[i]? = some (.result none) ∧ (t.state i).pc.sentAt = some S ∧
    (t.state (i + 1)).pc = .waiting

/-- At position `j` the last acknowledged renewal is the one of the `i`-th move, sent at `S`. -/
structure LastAcked (i j : Nat) (S : Int) : Prop where
  lt : i < j
  acked : AckedAt t i S
  last : ∀ k, i < k → k < j → ∀ S', ¬ AckedAt t k S'

/-- Nobody stops the session before position `j`. -/
def NotStopped (j : Nat) : Prop := ∀ k < j, t.acts[k]? ≠ some .stop

instance (j : Nat) : Decidable (NotStopped t j) := inferInstanceAs (Decidable (∀ k < j, _ ≠ _))

/-- The loop fails closed in time. -/
structure FailsClosed : Prop where
  /-- The session is invalidated no later than a millisecond after the loop's deadline. -/
  in_time : ∀ i j S, LastAcked t i j S → NotStopped t j →
    ((t.state j).session.Refuses ∧ (t.state j).session.done = true) ∨
      (t.state j).now ≤ S + patience ttl + millisecond
  /-- It is not invalidated earlier than that deadline. -/
  not_early : ∀ i j S, LastAcked t i j S → (t.state j).session.leaseErr = none →
    (t.state (j + 1)).session.leaseErr ≠ none → S + patience ttl ≤ (t.state (j + 1)).now
  /-- Until then the loop always has a move. -/
  moves : ∀ j, (t.state j).pc ≠ .returned → ∃ a, a ≠ .stop ∧ (step ttl (t.state j) a).isSome
  /-- And it makes a bounded number of them. -/
  ends : ∀ i j S, LastAcked t i j S → NotStopped t j → j ≤ t.acts.length →
    (t.state j).pc ≠ .returned → j - i ≤ 10 * (patience ttl + millisecond).toNat + 10

variable {t}

theorem moved_state {k : Nat} {a : Act} (ha : t.acts[k]? = some a) :
    Moved ttl (t.state k) a (t.state (k + 1)) :=
  moved_of_step (t.step_state ha)

theorem timed_state (hpos : 0 < interval ttl) (hstart : Timed ttl t.start) (k : Nat) :
    Timed ttl (t.state k) :=
  t.invariant hstart (fun _ _ _ hstep ht => ht.step hpos (moved_of_step hstep)) k

/-- A move that is no acknowledgement in the run is none by itself. -/
theorem not_acks {k : Nat} {a : Act} (ha : t.acts[k]? = some a) (hnone : ∀ S, ¬ AckedAt t k S) :
    ¬ Acks a (t.state (k + 1)) := by
  rintro ⟨rfl, hpc⟩
  cases hsent : (t.state k).pc.sentAt with
  | some S => exact hnone S ⟨ha, hsent, hpc⟩
  | none =>
    have hmoved := moved_state ha
    generalize t.state (k + 1) = h' at hmoved hpc
    cases hmoved with
    | acked S hsent' =>
      rw [hsent] at hsent'
      cases hsent'
    | left => cases hpc

theorem AckedAt.state_succ {i : Nat} {S : Int} (hack : AckedAt t i S) :
    t.state (i + 1) = { t.state i with confirmedAt := S, pc := .waiting } := by
  obtain ⟨ha, hsent, hpc⟩ := hack
  have hmoved := moved_state ha
  generalize t.state (i + 1) = h' at hmoved hpc
  cases hmoved with
  | acked S' hsent' =>
    rw [hsent] at hsent'
    cases hsent'
    rfl
  | left => cases hpc

theorem LastAcked.mono {i j k : Nat} {S : Int} (h : LastAcked t i j S) (hik : i < k)
    (hkj : k ≤ j) : LastAcked t i k S :=
  ⟨hik, h.acked, fun l hil hlk => h.last l hil (by omega)⟩

/-- Since the last acknowledgement the loop has been fresh for its send time. -/
theorem LastAcked.fresh {i j : Nat} {S : Int} (htimed : ∀ k, Timed ttl (t.state k))
    (h : LastAcked t i j S) :
    (t.state j).confirmedAt = S ∧ Fresh ttl S (t.state j) (t.state j).pc := by
  refine t.invariant_from (I := fun h => h.confirmedAt = S ∧ Fresh ttl S h h.pc)
    (show i + 1 ≤ j from h.lt) ?_ ?_
  · rw [h.acked.state_succ]
    exact ⟨rfl, fresh_acked (htimed i) h.acked.2.1⟩
  · intro k a h' hik hkj ha hstep hI
    have hack := not_acks ha (h.last k (by omega) hkj)
    rw [t.state_succ ha hstep] at hack
    have hmoved := moved_of_step hstep
    exact ⟨(confirmedAt_step hmoved hack).trans hI.1, fresh_step hmoved hI.2 hack⟩

/-- **In time**: as long as the loop runs, the clock has not passed its deadline by more than a
millisecond. -/
theorem LastAcked.now_le {i j : Nat} {S : Int} (hpos : 0 < interval ttl)
    (htimed : ∀ k, Timed ttl (t.state k)) (h : LastAcked t i j S)
    (hlive : (t.state j).pc ≠ .returned) : (t.state j).now ≤ S + patience ttl + millisecond := by
  obtain ⟨hconf, hfresh⟩ := h.fresh htimed
  have hbound := Heartbeat.now_le (htimed j) hfresh hpos hlive
  rw [hconf] at hbound
  -- two intervals are less than the loop's patience
  unfold interval patience millisecond at *
  omega

theorem live_of_le {k j : Nat} (hkj : k ≤ j) (hlive : (t.state j).pc ≠ .returned) :
    (t.state k).pc ≠ .returned := fun hpc =>
  hlive (t.invariant_from (I := fun h => h.pc = .returned) hkj hpc
    fun _ _ _ _ _ _ hstep hI => returned_step (moved_of_step hstep) hI)

/-- **Bounded**: the measure runs out. -/
theorem LastAcked.length_le {i j : Nat} {S : Int} (hpos : 0 < interval ttl)
    (htimed : ∀ k, Timed ttl (t.state k)) (h : LastAcked t i j S) (hstop : NotStopped t j)
    (hj : j ≤ t.acts.length) (hlive : (t.state j).pc ≠ .returned) :
    j - i ≤ 10 * (patience ttl + millisecond).toNat + 10 := by
  have hlt := h.lt
  have hsteps := t.le_measure (μ := measure (S + patience ttl + millisecond))
    (show i + 1 ≤ j from hlt) fun k hik hkj => by
      obtain ⟨a, ha⟩ : ∃ a, t.acts[k]? = some a :=
        ⟨_, List.getElem?_eq_getElem (Nat.lt_of_lt_of_le hkj hj)⟩
      refine measure_lt hpos (htimed k) (moved_state ha) (fun heq => hstop k hkj (heq ▸ ha))
        (live_of_le hkj hlive) ?_ (not_acks ha (h.last k hik hkj))
      exact (h.mono (by omega) hkj).now_le hpos htimed (live_of_le hkj hlive)
  have hsent : S ≤ (t.state (i + 1)).now := by
    rw [h.acked.state_succ]
    exact (htimed i).clocked.sentAt_le h.acked.2.1
  have hrank := rank_le (t.state (i + 1)) (t.state (i + 1)).pc
  unfold measure at hsteps
  split at hsteps <;> omega

end Runs

/-- **The client fails closed in time after a confirmed renewal.** After an acknowledged renewal
sent at `S` the session is invalidated by `S + (ttl - ttl/4)` plus a millisecond, which is before
`S + ttl`, unless another renewal is acknowledged or the application stops the session; and the loop
does not invalidate it before `S + (ttl - ttl/4)`. -/
theorem heartbeat_fails_closed (ttl : Duration) (httl : second ≤ ttl.toInt)
    (session : Session) (now confirmedAt : Int) (t : Trace (step ttl))
    (hstart : t.start = start ttl session now confirmedAt) (hopen : session.done = false) :
    FailsClosed t ∧ patience ttl + millisecond < ttl.toInt := by
  have hpos := interval_pos httl
  have htimed : ∀ k, Timed ttl (t.state k) := by
    refine timed_state hpos ?_
    rw [hstart]
    exact timed_start hpos session now confirmedAt
  have hunstopped : ∀ j, NotStopped t j → Unstopped (t.state j) := by
    intro j hstop
    refine t.invariant_from (Nat.zero_le j) ?_ fun k a h' _ hkj ha hstep hI =>
      hI.step (moved_of_step hstep) fun heq => hstop k hkj (heq ▸ ha)
    rw [t.state_zero, hstart]
    exact ⟨fun _ => hopen, fun hpc => by cases hpc⟩
  refine ⟨⟨?_, ?_, ?_, ?_⟩, ?_⟩
  · intro i j S hlast hstop
    by_cases hpc : (t.state j).pc = .returned
    · exact Or.inl ((hunstopped j hstop).returned hpc)
    · exact Or.inr (hlast.now_le hpos htimed hpc)
  · intro i j S hlast hbefore hafter
    cases ha : t.acts[j]? with
    | none =>
      rw [t.state_of_none ha] at hafter
      exact absurd hbefore hafter
    | some a =>
      have hearly := giveUp_of_leaseErr (htimed j) (moved_state ha) hbefore hafter
      rw [(hlast.fresh htimed).1] at hearly
      exact hearly
  · intro j hlive
    exact exists_move (htimed j) hlive
  · intro i j S hlast hstop hj hlive
    exact hlast.length_le hpos htimed hstop hj hlive
  · unfold patience millisecond
    unfold second at httl
    omega

/-- A TTL of three seconds. -/
def threeSeconds : Duration := 3000000000

/-- The first renewal is acknowledged, the second one and its retry time out. -/
def lostLeader : Trace (step threeSeconds) where
  start := start threeSeconds (Session.new.startLease 1 threeSeconds) 0 0
  acts := [.delay 1000000000, .fire, .receive, .delay 200000000, .result none,
    .delay 800000000, .fire, .receive, .delay 1000000000, .result (some "timeout"),
    .fire, .delay 50000000, .wake, .delay 200000000, .result (some "timeout")]
  enabled := rfl

theorem heartbeat_fails_closed_lostLeader :
    LastAcked lostLeader 4 14 second ∧ NotStopped lostLeader 14 ∧
      (lostLeader.state 14).now ≤ second + patience threeSeconds + millisecond ∧
      (lostLeader.state 15).session.done = true ∧
      second + patience threeSeconds ≤ (lostLeader.state 15).now := by
  have hnone : ∀ k < 14, 4 < k → lostLeader.acts[k]? ≠ some (.result none) := by decide
  have hlast : LastAcked lostLeader 4 14 second :=
    ⟨by omega, ⟨rfl, rfl, rfl⟩, fun k hik hkj S hack => hnone k hkj hik hack.1⟩
  have hstop : NotStopped lostLeader 14 := by decide
  have hclosed := (heartbeat_fails_closed threeSeconds (by decide)
    (Session.new.startLease 1 threeSeconds) 0 0 lostLeader rfl rfl).1
  refine ⟨hlast, hstop, ?_, rfl, hclosed.not_early 4 14 second hlast rfl (by decide)⟩
  rcases hclosed.in_time 4 14 second hlast hstop with ⟨-, hdone⟩ | hle
  · cases hdone
  · exact hle

end Heartbeat

end Clavis
