import Clavis.Client.Heartbeat

/-!
# Clavis — a session survives an election

How long may the service be away before a client loses its lease for good? `heartbeatLoop` keeps
retrying while renewals fail, "typically a Raft leader election", and gives up a quarter TTL before
the last proof runs out. What decides is when the next attempt is sent: the attempt that fails may
take its time to do so, the pause after it grows up to half a second, and an attempt that is sent
late in the lease gets a shorter timeout.

* `Availability` — when renewals may fail, how long such a period lasts, and how fast an attempt
  fails or is answered. Between two periods there is time for an attempt.
* `Answered` — the assumption on a run: attempts are answered as the `Availability` says.
* `Endures` — the invariant. While the loop retries, all its attempts since the last confirmation
  were sent in one and the same period (`Struck.next`), so that the period's length bounds them.
* `survives_outages` — the headline: if the TTL leaves room for one such period, the loop never
  gives up, however many of them there are.
-/

namespace Clavis

open Lib Heartbeat

theorem Heartbeat.Fresh.mono {ttl : Duration} {base : Int} {h : Heartbeat} {pc : HeartbeatPc}
    (hf : h.Fresh ttl base pc) (lag : Nat) : h.Fresh ttl (base + lag) pc := by
  cases pc with
  | waiting =>
    obtain ⟨hidle, hpending⟩ := hf
    refine ⟨fun htick => ?_, fun htick => ?_⟩
    · have hle := hidle htick
      omega
    · have hle := hpending htick
      omega
  | attempting sentAt =>
    have hle : sentAt ≤ base + interval ttl := hf
    show sentAt ≤ base + lag + interval ttl
    omega
  | sleeping | retrying | returned => trivial

/-- The longest pause of the retry loop. -/
def maxBackoff : Int := 500 * millisecond

/-- How the service answers renewals. -/
structure Availability where
  /-- A renewal sent at this time may fail. -/
  dark : Int → Bool
  /-- How long an outage lasts. -/
  longest : Nat
  /-- How long an attempt takes that fails in an outage, -/
  fails : Nat
  /-- and one that is answered. -/
  answers : Nat
  onset : ∀ x, dark x = true → ∃ o, o ≤ x ∧ x < o + longest ∧
    ∀ y, o - (fails + maxBackoff) ≤ y → y < o → dark y = false

namespace Availability

variable (v : Availability)

/-- The outage at `x` began at `o`; there was time for an attempt before it. -/
def Onset (o x : Int) : Prop :=
  o ≤ x ∧ x < o + v.longest ∧ ∀ y, o - (v.fails + maxBackoff) ≤ y → y < o → v.dark y = false

/-- How long an attempt sent at this time takes. -/
def within (sentAt : Int) : Nat := if v.dark sentAt then v.fails else v.answers

/-- The attempt under way may fail: it was sent in an outage, or has less time than an answer
takes. -/
def MayFail (ttl : Duration) : HeartbeatPc → Prop
  | .attempting sentAt => v.dark sentAt = true ∨ interval ttl < v.answers
  | .retrying sentAt deadline _ _ => v.dark sentAt = true ∨ deadline < sentAt + v.answers
  | _ => False

instance (ttl : Duration) : (pc : HeartbeatPc) → Decidable (v.MayFail ttl pc)
  | .attempting _ => inferInstanceAs (Decidable (_ ∨ _))
  | .retrying _ _ _ _ => inferInstanceAs (Decidable (_ ∨ _))
  | .waiting => isFalse id
  | .sleeping _ _ _ => isFalse id
  | .returned => isFalse id

/-- Attempts take no longer than they may, and fail only if they may. The application does not stop
the session. -/
def Answered (ttl : Duration) (h : Heartbeat) : Heartbeat.Act → Prop
  | .delay d => ∀ sentAt ∈ h.pc.sentAt, h.now + d ≤ sentAt + v.within sentAt
  | .result (some _) => v.MayFail ttl h.pc
  | .stop => False
  | _ => True

instance (ttl : Duration) (h : Heartbeat) : (a : Heartbeat.Act) → Decidable (v.Answered ttl h a)
  | .delay _ => Option.decidableForallMem _
  | .result (some _) => inferInstanceAs (Decidable (v.MayFail ttl h.pc))
  | .stop => isFalse id
  | .fire => isTrue trivial
  | .receive => isTrue trivial
  | .result none => isTrue trivial
  | .wake => isTrue trivial
  | .ctxDone => isTrue trivial

/-- The TTL leaves room for an outage: the loop starts `lag` after the lease was created, the outage
begins just before a tick, and after its end comes one more attempt. -/
structure Leaves (ttl : Duration) (lag : Nat) : Prop where
  answers_le : v.answers ≤ interval ttl
  room : lag + interval ttl + v.longest + v.fails + maxBackoff + v.answers ≤ patience ttl

/-! ## One outage at a time -/

/-- The renewal sent at `f` was in an outage, and outages there had not begun when the loop was due
to renew. -/
def Struck (ttl : Duration) (lag : Nat) (h : Heartbeat) (f : Int) : Prop :=
  v.dark f = true ∧ ∀ o, v.Onset o f → o ≤ h.confirmedAt + lag + interval ttl

section Struck

variable {v} {ttl : Duration} {lag : Nat} {h : Heartbeat} {f sentAt : Int}

/-- The first renewal that fails was due. -/
theorem struck_of_le (hdark : v.dark sentAt = true)
    (hle : sentAt ≤ h.confirmedAt + lag + interval ttl) : v.Struck ttl lag h sentAt := by
  refine ⟨hdark, ?_⟩
  intro o ho
  exact ho.1.trans hle

/-- **The next one fails in the same outage**: it is sent too soon for another. -/
theorem Struck.next (hf : v.Struck ttl lag h f) (hdark : v.dark sentAt = true) (hle : f ≤ sentAt)
    (hsoon : sentAt ≤ f + v.fails + maxBackoff) : v.Struck ttl lag h sentAt := by
  refine ⟨hdark, ?_⟩
  intro o ho
  obtain ⟨hos, hlt, hbright⟩ := ho
  by_cases hof : o ≤ f
  · exact hf.2 o ⟨hof, by omega, hbright⟩
  · -- an outage that began since would have left time for an attempt that succeeds
    by_cases hgap : o - (v.fails + maxBackoff) ≤ f
    · have hlit := hbright f hgap (by omega)
      rw [hf.1] at hlit
      cases hlit
    · omega

theorem Struck.lt (hf : v.Struck ttl lag h f) :
    f < h.confirmedAt + lag + interval ttl + v.longest := by
  obtain ⟨o, ho⟩ := v.onset f hf.1
  have hle := hf.2 o ho
  have hlt := ho.2.1
  omega

end Struck

/-! ## The loop endures -/

/-- Where the loop is, it is in time. -/
def Endures (ttl : Duration) (lag : Nat) (h : Heartbeat) : HeartbeatPc → Prop
  | .waiting => True
  | .attempting sentAt => h.now ≤ sentAt + v.within sentAt
  | .sleeping wakeAt _ backoff =>
    backoff ≤ maxBackoff ∧
      ∃ f, v.Struck ttl lag h f ∧ f ≤ wakeAt ∧ wakeAt ≤ f + v.fails + maxBackoff
  | .retrying sentAt deadline _ backoff =>
    backoff ≤ maxBackoff ∧ h.now ≤ sentAt + v.within sentAt ∧ sentAt + v.answers ≤ deadline ∧
      ∃ f, v.Struck ttl lag h f ∧ f ≤ sentAt ∧ sentAt ≤ f + v.fails + maxBackoff
  | .returned => False

structure Ok (ttl : Duration) (lag : Nat) (session : Session) (h : Heartbeat) : Prop where
  session_eq : h.session = session
  timed : h.Timed ttl
  fresh : h.Fresh ttl (h.confirmedAt + lag) h.pc
  endures : v.Endures ttl lag h h.pc

section Ok

variable {v} {ttl : Duration} {lag : Nat} {session : Session} {h h' : Heartbeat}
  {a : Heartbeat.Act}

theorem ok_start (hpos : 0 < interval ttl) {now confirmedAt : Int}
    (hlag : now ≤ confirmedAt + lag) :
    v.Ok ttl lag session (start ttl session now confirmedAt) where
  session_eq := rfl
  timed := timed_start hpos session now confirmedAt
  fresh := by
    refine ⟨fun _ => ?_, nofun⟩
    show now + interval ttl ≤ confirmedAt + lag + interval ttl
    omega
  endures := trivial

/-- A renewal that fails was struck, and has failed promptly. -/
theorem Ok.struck (hok : v.Ok ttl lag session h) (hleaves : v.Leaves ttl lag)
    (hfail : v.MayFail ttl h.pc) {sentAt : Int} (hsent : h.pc.sentAt = some sentAt) :
    v.Struck ttl lag h sentAt ∧ h.now ≤ sentAt + v.fails := by
  have hfresh := hok.fresh
  have hendures := hok.endures
  have hanswers := hleaves.answers_le
  generalize h.pc = pc at hfail hsent hfresh hendures
  cases pc with
  | waiting | sleeping | returned => cases hsent
  | attempting s =>
    cases hsent
    have hdark : v.dark sentAt = true := hfail.resolve_right (by omega)
    refine ⟨struck_of_le hdark hfresh, ?_⟩
    simpa [Endures, within, hdark] using hendures
  | retrying s deadline giveUpAt backoff =>
    cases hsent
    obtain ⟨-, hnow, hdeadline, f, hf, hle, hsoon⟩ := hendures
    have hdark : v.dark sentAt = true := hfail.resolve_right (by omega)
    refine ⟨hf.next hdark hle hsoon, ?_⟩
    simpa [within, hdark] using hnow

/-- **A renewal that fails does so before the loop gives up.** -/
theorem Ok.lt_giveUpAt (hok : v.Ok ttl lag session h) (hleaves : v.Leaves ttl lag)
    (hfail : v.MayFail ttl h.pc) {sentAt : Int} (hsent : h.pc.sentAt = some sentAt) :
    h.now < h.confirmedAt + patience ttl := by
  obtain ⟨hstruck, hnow⟩ := hok.struck hleaves hfail hsent
  have hlt := hstruck.lt
  have hroom := hleaves.room
  have hback : 0 < maxBackoff := by decide
  omega

/-- Time passes. -/
theorem Endures.delay {pc : HeartbeatPc} {d : Nat} (hend : v.Endures ttl lag h pc)
    (hin : ∀ sentAt ∈ pc.sentAt, h.now + d ≤ sentAt + v.within sentAt) :
    v.Endures ttl lag { h with now := h.now + d } pc := by
  cases pc with
  | waiting | sleeping | returned => exact hend
  | attempting sentAt => exact hin sentAt rfl
  | retrying sentAt deadline giveUpAt backoff =>
    obtain ⟨hback, -, hrest⟩ := hend
    exact ⟨hback, hin sentAt rfl, hrest⟩

/-- The pauses of the retry loop do not outgrow the longest. -/
theorem Endures.backoff_le (hend : v.Endures ttl lag h h.pc) {giveUpAt backoff : Int}
    (hfail : h.Failing ttl giveUpAt backoff) : backoff ≤ maxBackoff := by
  unfold Failing at hfail
  generalize h.pc = pc at hfail hend
  cases pc with
  | waiting | sleeping | returned => exact hfail.elim
  | attempting =>
    rw [hfail.2]
    decide
  | retrying =>
    rw [hfail.2]
    exact hend.1

/-- Every move keeps the loop in time. -/
theorem Ok.endures_step (hok : v.Ok ttl lag session h) (hleaves : v.Leaves ttl lag)
    (hactive : session.done = false) (hin : v.Answered ttl h a) (hmoved : Moved ttl h a h') :
    v.Endures ttl lag h' h'.pc := by
  have hend := hok.endures
  have hdone : h.session.done = false := hok.session_eq ▸ hactive
  cases hmoved with
  | delay d hd hwait => exact hend.delay hin
  | fire => exact hend
  | receive =>
    show h.now ≤ h.now + v.within h.now
    omega
  | acked => trivial
  | gaveUp err giveUpAt backoff hfail _ hlate =>
    -- the loop would have to give up before the outage can have lasted so long
    obtain ⟨sentAt, hsent⟩ := hfail.exists_sentAt
    have hlt := hok.lt_giveUpAt hleaves hin hsent
    rw [(hfail.giveUpAt_eq hok.timed.clocked).1] at hlate
    omega
  | backedOff err giveUpAt backoff hfail _ hearly =>
    obtain ⟨sentAt, hsent⟩ := hfail.exists_sentAt
    obtain ⟨hstruck, hnow⟩ := hok.struck hleaves hin hsent
    have hback := hend.backoff_le hfail
    have hpos := (hfail.giveUpAt_eq hok.timed.clocked).2
    have hle := hok.timed.clocked.sentAt_le hsent
    refine ⟨hback, sentAt, hstruck, ?_, ?_⟩
    · show sentAt ≤ h.now + min backoff (giveUpAt - h.now)
      omega
    · show h.now + min backoff (giveUpAt - h.now) ≤ sentAt + v.fails + maxBackoff
      omega
  | wake giveUpAt backoff hpc =>
    have hclocked := hok.timed.clocked
    rw [hpc] at hend hclocked
    obtain ⟨hback, f, hstruck, hle, hsoon⟩ := hend
    have hgive := hclocked.1
    have hlt := hstruck.lt
    have hroom := hleaves.room
    have hanswers := hleaves.answers_le
    refine ⟨?_, ?_, ?_, f, hstruck, hle, hsoon⟩
    · exact min_le_right _ _
    · show h.now ≤ h.now + v.within h.now
      omega
    · show h.now + v.answers ≤ h.now + min (interval ttl) (max (giveUpAt - h.now) millisecond)
      omega
  | left _ _ hclosed =>
    rw [hdone] at hclosed
    cases hclosed
  | stop => exact hin.elim

theorem Ok.step (hok : v.Ok ttl lag session h) (hpos : 0 < interval ttl)
    (hleaves : v.Leaves ttl lag) (hactive : session.done = false) (hin : v.Answered ttl h a)
    (hmoved : Moved ttl h a h') : v.Ok ttl lag session h' := by
  have hendures := hok.endures_step hleaves hactive hin hmoved
  refine ⟨?_, hok.timed.step hpos hmoved, ?_, hendures⟩
  · cases hmoved with
    | gaveUp => exact hendures.elim
    | stop => exact hin.elim
    | _ => exact hok.session_eq
  · by_cases hack : Acks a h'
    · obtain ⟨rfl, hpc⟩ := hack
      cases hmoved with
      | acked sentAt hsent => exact (fresh_acked hok.timed hsent).mono lag
      | left => cases hpc
    · rw [confirmedAt_step hmoved hack]
      exact fresh_step hmoved hok.fresh hack

/-- The loop has not given up, and is not late for it. -/
theorem Ok.now_le (hok : v.Ok ttl lag session h) (hleaves : v.Leaves ttl lag) :
    h.now ≤ h.confirmedAt + patience ttl := by
  have htick := hok.timed.tick
  have hclocked := hok.timed.clocked
  have hfresh := hok.fresh
  have hend := hok.endures
  have hroom := hleaves.room
  have hback : 0 < maxBackoff := by decide
  generalize h.pc = pc at htick hclocked hfresh hend
  cases pc with
  | waiting =>
    have hnext := (htick nofun).1
    cases hpending : h.tick with
    | false =>
      have hle := hfresh.1 hpending
      omega
    | true =>
      have hle := hfresh.2 hpending
      omega
  | attempting sentAt =>
    have hdue : sentAt ≤ h.confirmedAt + lag + interval ttl := hfresh
    have hnow : h.now ≤ sentAt + v.within sentAt := hend
    unfold within at hnow
    split at hnow <;> omega
  | sleeping wakeAt giveUpAt backoff =>
    obtain ⟨-, -, hnow, -⟩ := hclocked
    obtain ⟨-, f, hstruck, -, hsoon⟩ := hend
    have hlt := hstruck.lt
    omega
  | retrying sentAt deadline giveUpAt backoff =>
    obtain ⟨-, hnow, -, f, hstruck, hle, hsoon⟩ := hend
    have hlt := hstruck.lt
    unfold within at hnow
    split at hnow
    · -- the attempt was struck as well
      rename_i hdark
      have hlt' := (hstruck.next hdark hle hsoon).lt
      omega
    · omega
  | returned => exact hend.elim

end Ok

/-- **The session survives.** If the TTL leaves room for an outage, the loop never gives up: it goes
on, the session stays as it was when the loop was started, and the last proof of liveness is never
older than the loop's patience. -/
theorem survives_outages {ttl : Duration} (hpos : 0 < interval ttl) {lag : Nat}
    (hleaves : v.Leaves ttl lag) {session : Session} (hactive : session.done = false)
    {t : Trace (Heartbeat.step ttl)} {now confirmedAt : Int}
    (h0 : t.start = start ttl session now confirmedAt) (hlag : now ≤ confirmedAt + lag)
    (hin : t.Steps (v.Answered ttl)) (k : Nat) :
    (t.state k).session = session ∧ (t.state k).pc ≠ .returned ∧
      (t.state k).now ≤ (t.state k).confirmedAt + patience ttl := by
  have hok : v.Ok ttl lag session (t.state k) := by
    refine t.invariant_from (Nat.zero_le k) ?_ ?_
    · rw [t.state_zero, h0]
      exact ok_start hpos hlag
    · intro j a h' _ _ ha hstep hok
      exact hok.step hpos hleaves hactive (hin.at ha) (moved_of_step hstep)
  refine ⟨hok.session_eq, ?_, hok.now_le hleaves⟩
  intro hpc
  have hendures := hok.endures
  rw [hpc] at hendures
  exact hendures.elim

/-- An election that takes from 6 s to 8 s; meanwhile attempts may hang for a second. -/
def election : Availability where
  dark x := decide (6 * second ≤ x ∧ x < 8 * second)
  longest := 2000000000
  fails := 1000000000
  answers := 100000000
  onset := by
    intro x hx
    obtain ⟨hfrom, hto⟩ := of_decide_eq_true hx
    refine ⟨6 * second, hfrom, ?_, ?_⟩
    · unfold second at hto ⊢
      omega
    · intro y _ hy
      exact decide_eq_false (by omega)

def tenSeconds : Duration := 10000000000

/-- The lease was created at 0 and the loop started at 100 ms. The second renewal hangs for a second
in the election, two retries are refused, and the third one is sent after it. -/
def electionInBetween : Trace (Heartbeat.step tenSeconds) where
  start := start tenSeconds (Session.new.startLease 1 tenSeconds) 100000000 0
  acts := [.delay 3333333333, .fire, .receive, .delay 50000000, .result none,
    .delay 3283333333, .fire, .receive, .delay 1000000000, .result (some "deadline exceeded"),
    .delay 50000000, .wake, .delay 10000000, .result (some "not leader"),
    .delay 100000000, .wake, .delay 10000000, .result (some "not leader"),
    .delay 200000000, .wake, .delay 50000000, .result none,
    .delay 1913333333, .fire, .receive, .delay 50000000, .result none]
  enabled := by decide

theorem survives_outages_election :
    electionInBetween.Steps (election.Answered tenSeconds) ∧
      (electionInBetween.state 18).pc ≠ .waiting ∧
      (electionInBetween.state 27).session = Session.new.startLease 1 tenSeconds ∧
      (electionInBetween.state 27).pc ≠ .returned ∧
      (electionInBetween.state 27).now
        ≤ (electionInBetween.state 27).confirmedAt + patience tenSeconds := by
  have hin : electionInBetween.Steps (election.Answered tenSeconds) := by decide
  have hleaves : election.Leaves tenSeconds 100000000 := ⟨by decide, by decide⟩
  exact ⟨hin, by decide,
    election.survives_outages (by decide) hleaves rfl rfl (by decide) hin 27⟩

end Availability

end Clavis
