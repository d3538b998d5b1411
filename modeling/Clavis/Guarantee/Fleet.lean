import Clavis.Client.Start
import Clavis.Guarantee.Lifetime

/-!
# Clavis — the cluster and its clients

A program knows of its lease only what the SDK tells it, which is whether the session is still
active, and the session learns of the expiry of its lease by its own clock. So what the cluster
promises about a lease has to be followed into the clients' loops.

* `ActiveUntil u` — a session that gets no further acknowledgement is closed before `u`; for every
  stage of `Start` and every place of the heartbeat loop.
* `Fleet` — a cluster and any number of clients. Time passes for all of them at once, also for one
  whose attempt has not returned by its timeout. A reply to `CreateLease` needs a lease in the log
  that the leader stamped after the call was sent; an acknowledged renewal needs one that
  `VerifyLeader` has confirmed and for which the clock was read after the heartbeat was sent.
* `Fleet.Ok` — every client's session is closed before the promise it relies on runs out.

The preconditions are those of `Deployment`; `Start` is quick enough for its own loop, which
`Client.Start` shows to be needed; and a heartbeat attempt returns by its timeout, which
`Client.Attempt` shows not to be ensured. A client's own computations take no time.
-/

namespace Clavis

open Lib

/-! ## Until when a session is active -/

/-- The latencies leave time for a tick and a whole attempt. -/
def StartTimes.Quick (p : StartTimes) : Prop :=
  p.createLatency + p.openLatency + 2 * Heartbeat.interval p.ttl < p.ttl.toInt

instance (p : StartTimes) : Decidable p.Quick := inferInstanceAs (Decidable (_ < _))

namespace Heartbeat

/-- `MayWait` without a limit to attempts: nothing has to happen in the loop before `time`. -/
def MayIdle (h : Heartbeat) (time : Int) : HeartbeatPc → Prop
  | .waiting => time ≤ h.nextTick ∧ h.tick = false ∧ h.session.done = false
  | .attempting _ => time ≤ h.nextTick
  | .sleeping wakeAt _ _ => time ≤ h.nextTick ∧ time ≤ wakeAt ∧ h.session.done = false
  | .retrying _ _ _ _ => time ≤ h.nextTick
  | .returned => True

instance (h : Heartbeat) (time : Int) : (pc : HeartbeatPc) → Decidable (h.MayIdle time pc)
  | .waiting => inferInstanceAs (Decidable (_ ∧ _ ∧ _))
  | .attempting _ => inferInstanceAs (Decidable (_ ≤ _))
  | .sleeping _ _ _ => inferInstanceAs (Decidable (_ ∧ _ ∧ _))
  | .retrying _ _ _ _ => inferInstanceAs (Decidable (_ ≤ _))
  | .returned => isTrue trivial

/-- The timeout of an attempt under way has not passed at `time`. -/
def OnTime (ttl : Duration) (time : Int) : HeartbeatPc → Prop
  | .attempting sentAt => time ≤ sentAt + interval ttl
  | .retrying _ deadline _ _ => time ≤ deadline
  | _ => True

instance (ttl : Duration) (time : Int) : (pc : HeartbeatPc) → Decidable (OnTime ttl time pc)
  | .attempting _ => inferInstanceAs (Decidable (_ ≤ _))
  | .retrying _ _ _ _ => inferInstanceAs (Decidable (_ ≤ _))
  | .waiting => isTrue trivial
  | .sleeping _ _ _ => isTrue trivial
  | .returned => isTrue trivial

/-- With the limit it is what the loop of `Client.Heartbeat` does. -/
theorem MayIdle.mayWait {ttl : Duration} {h : Heartbeat} {time : Int} {pc : HeartbeatPc}
    (hidle : h.MayIdle time pc) (hontime : OnTime ttl time pc) : h.MayWait ttl time pc := by
  cases pc with
  | waiting | sleeping | returned => exact hidle
  | attempting | retrying => exact ⟨hidle, hontime⟩

end Heartbeat

namespace Startup

open Heartbeat

/-- What a move of `Start` and of the loop it starts can be. -/
inductive Moved (p : StartTimes) : Startup → Act → Startup → Prop where
  | creating (session : Session) (now : Int) (d : Nat) :
      Moved p (creating session now) (.delay d) (creating session (now + d))
  | created (session : Session) (leaseID : UInt64) :
      Moved p (creating session p.createdAt) (.created leaseID)
        (opening (session.startLease leaseID p.ttl) p.createdAt)
  | createFailed (session : Session) (now : Int) :
      Moved p (creating session now) .createFailed (failed session now)
  | stopCreating (session : Session) (now : Int) :
      Moved p (creating session now) .stop (creating session.stop now)
  | opening (session : Session) (now : Int) (d : Nat) (hle : now + d ≤ p.openedAt) :
      Moved p (opening session now) (.delay d) (opening session (now + d))
  | opened (session : Session) :
      Moved p (opening session p.openedAt) .opened (running (Heartbeat.start p.ttl
        (session.swapHeartbeat (some 0) (some 0)).1 p.openedAt p.createSentAt))
  | openFailed (session : Session) (now : Int) (err : String) :
      Moved p (opening session now) (.openFailed err)
        (failed (session.invalidate (.leaseUnavailable err)) now)
  | stopOpening (session : Session) (now : Int) :
      Moved p (opening session now) .stop (opening session.stop now)
  | loop (h h' : Heartbeat) (a : Heartbeat.Act) (hmoved : Heartbeat.Moved p.ttl h a h') :
      Moved p (running h) (.loop a) (running h')
  | failed (session : Session) (now : Int) (d : Nat) :
      Moved p (failed session now) (.delay d) (failed session (now + d))
  | stopFailed (session : Session) (now : Int) :
      Moved p (failed session now) .stop (failed session.stop now)

theorem moved_of_step {p : StartTimes} {s s' : Startup} {a : Act} (hstep : step p s a = some s') :
    Moved p s a s' := by
  cases s with
  | creating session now =>
    cases a with
    | delay d =>
      obtain ⟨-, heq⟩ := Option.ite_none_right_eq_some.mp hstep
      cases heq
      exact .creating session now d
    | created leaseID =>
      obtain ⟨rfl, heq⟩ := Option.ite_none_right_eq_some.mp hstep
      cases heq
      exact .created session leaseID
    | createFailed =>
      obtain ⟨-, heq⟩ := Option.ite_none_right_eq_some.mp hstep
      cases heq
      exact .createFailed session now
    | stop =>
      cases hstep
      exact .stopCreating session now
    | opened | openFailed | loop => cases hstep
  | opening session now =>
    cases a with
    | delay d =>
      obtain ⟨⟨-, hle⟩, heq⟩ := Option.ite_none_right_eq_some.mp hstep
      cases heq
      exact .opening session now d hle
    | opened =>
      obtain ⟨rfl, heq⟩ := Option.ite_none_right_eq_some.mp hstep
      cases heq
      exact .opened session
    | openFailed err =>
      obtain ⟨-, heq⟩ := Option.ite_none_right_eq_some.mp hstep
      cases heq
      exact .openFailed session now err
    | stop =>
      cases hstep
      exact .stopOpening session now
    | created | createFailed | loop => cases hstep
  | running h =>
    cases a with
    | loop b =>
      obtain ⟨h', hnext, heq⟩ := Option.map_eq_some_iff.mp hstep
      cases heq
      exact .loop h h' b (Heartbeat.moved_of_step hnext)
    | delay | created | createFailed | opened | openFailed | stop => cases hstep
  | failed session now =>
    cases a with
    | delay d =>
      cases hstep
      exact .failed session now d
    | stop =>
      cases hstep
      exact .stopFailed session now
    | created | createFailed | opened | openFailed | loop => cases hstep

/-- Without another acknowledgement the session is closed before `u`. -/
def ActiveUntil (p : StartTimes) (u : Int) : Startup → Prop
  | creating session _ => session.leaseID = 0 ∧ p.openedAt + 2 * interval p.ttl < u ∧
      u = p.createSentAt + p.ttl.toInt
  | opening _ now => now ≤ p.openedAt ∧ p.openedAt + 2 * interval p.ttl < u ∧
      p.createSentAt + p.ttl.toInt ≤ u
  | running h =>
    Timed p.ttl h ∧ (∃ base, Fresh p.ttl base h h.pc ∧ base + 2 * interval p.ttl < u) ∧
      h.confirmedAt + p.ttl.toInt ≤ u ∧ (h.pc = .returned → ¬ h.session.Active)
  | failed session _ => ¬ session.Active

/-- The renewal under way. -/
def sentAt : Startup → Option Int
  | running h => h.pc.sentAt
  | _ => none

/-- Letting time pass, wherever the client is. -/
def delayAct (d : Nat) : Startup → Act
  | running _ => .loop (.delay d)
  | _ => .delay d

/-- The client `d` later. -/
def advance (d : Nat) : Startup → Startup
  | creating session now => creating session (now + d)
  | opening session now => opening session (now + d)
  | running h => running { h with now := h.now + d }
  | failed session now => failed session (now + d)

/-- Nothing has to happen in the next `d`, as far as the client is concerned: an attempt under way
may take any time. -/
def MayIdle (p : StartTimes) (d : Nat) : Startup → Prop
  | creating _ now => now + d ≤ p.createdAt
  | opening _ now => now + d ≤ p.openedAt
  | running h => Heartbeat.MayIdle h (h.now + d) h.pc
  | failed _ _ => True

instance (p : StartTimes) (d : Nat) : (s : Startup) → Decidable (s.MayIdle p d)
  | creating _ _ => inferInstanceAs (Decidable (_ ≤ _))
  | opening _ _ => inferInstanceAs (Decidable (_ ≤ _))
  | running h => inferInstanceAs (Decidable (Heartbeat.MayIdle h _ _))
  | failed _ _ => isTrue trivial

/-- An attempt under way is not past its timeout `d` later. -/
def OnTime (p : StartTimes) (d : Nat) : Startup → Prop
  | running h => Heartbeat.OnTime p.ttl (h.now + d) h.pc
  | _ => True

instance (p : StartTimes) (d : Nat) : (s : Startup) → Decidable (s.OnTime p d)
  | running _ => inferInstanceAs (Decidable (Heartbeat.OnTime p.ttl _ _))
  | creating _ _ => isTrue trivial
  | opening _ _ => isTrue trivial
  | failed _ _ => isTrue trivial

section Until

variable {p : StartTimes} {s s' : Startup} {a : Act} {u : Int}

theorem activeUntil_creating (hquick : p.Quick) :
    ActiveUntil p (p.createSentAt + p.ttl.toInt) (creating .new p.createSentAt) := by
  have hopened : p.openedAt = p.createSentAt + p.createLatency + p.openLatency := rfl
  unfold StartTimes.Quick at hquick
  exact ⟨rfl, by omega, rfl⟩

/-- **An active session is still inside its bound.** -/
theorem ActiveUntil.now_lt (h : ActiveUntil p u s) (httl : second ≤ p.ttl.toInt)
    (hactive : s.session.Active) : s.now < u := by
  have hpos := interval_pos httl
  cases s with
  | creating => exact absurd hactive (not_active_of_refuses (Or.inr h.1))
  | failed => exact absurd hactive h
  | opening session now =>
    obtain ⟨hle, hlt, -⟩ := h
    show now < u
    omega
  | running hb =>
    obtain ⟨htimed, ⟨base, hfresh, hlt⟩, hconf, hret⟩ := h
    have hbound := Heartbeat.now_le htimed hfresh hpos fun hpc => hret hpc hactive
    show hb.now < u
    unfold patience millisecond at hbound
    unfold second at httl
    omega

/-- A move that is no acknowledgement keeps the bound. -/
theorem ActiveUntil.step (h : ActiveUntil p u s) (httl : second ≤ p.ttl.toInt)
    (hmoved : Moved p s a s') (hack : a ≠ .loop (.result none)) : ActiveUntil p u s' := by
  have hpos := interval_pos httl
  cases hmoved with
  | creating | stopCreating | stopOpening | failed => exact h
  | created session leaseID =>
    refine ⟨?_, h.2.1, h.2.2.ge⟩
    unfold StartTimes.openedAt
    omega
  | createFailed => exact not_active_of_refuses (Or.inr h.1)
  | opening session now d hle => exact ⟨hle, h.2⟩
  | opened session =>
    exact ⟨timed_start hpos _ p.openedAt p.createSentAt,
      ⟨p.openedAt, ⟨fun _ => le_refl _, fun htick => by cases htick⟩, h.2.1⟩, h.2.2,
      fun hpc => by cases hpc⟩
  | openFailed session now err =>
    exact not_active_of_refuses (session.invalidate_refuses (.leaseUnavailable err)).1
  | loop hb hb' b hmoved =>
    obtain ⟨htimed, ⟨base, hfresh, hlt⟩, hconf, hret⟩ := h
    have hnack : ¬ Acks b hb' := fun hacks => hack (by rw [hacks.1])
    refine ⟨htimed.step hpos hmoved, ⟨base, fresh_step hmoved hfresh hnack, hlt⟩, ?_,
      not_active_of_returned hmoved hret⟩
    rw [confirmedAt_step hmoved hnack]
    exact hconf
  | stopFailed => exact not_active_of_done rfl

/-- An acknowledgement moves the bound to one TTL after the heartbeat was sent, unless the session
has been stopped meanwhile. -/
theorem ActiveUntil.acked (h : ActiveUntil p u s) (httl : second ≤ p.ttl.toInt)
    (hmoved : Moved p s (.loop (.result none)) s') :
    ActiveUntil p u s' ∨ ∃ sent, s.sentAt = some sent ∧ ActiveUntil p (sent + p.ttl.toInt) s' := by
  have hpos := interval_pos httl
  cases hmoved with
  | loop hb hb' b hmoved =>
    obtain ⟨htimed, ⟨base, -, hlt⟩, hconf, hret⟩ := h
    have htimed' := htimed.step hpos hmoved
    have hret' := not_active_of_returned hmoved hret
    cases hmoved with
    | acked sentAt hsent =>
      refine Or.inr ⟨sentAt, hsent, htimed', ⟨sentAt, fresh_acked htimed hsent, ?_⟩, le_refl _,
        hret'⟩
      unfold interval
      unfold second at httl
      omega
    | left _ hlive hdone => exact Or.inl ⟨htimed', ⟨base, trivial, hlt⟩, hconf, hret'⟩

/-- The session's lease is set once, by the reply to `CreateLease`. -/
theorem Moved.leaseID_cases (hmoved : Moved p s a s') :
    s'.session.leaseID = s.session.leaseID ∨ a = .created s'.session.leaseID := by
  cases hmoved with
  | created => exact Or.inr rfl
  | loop hb hb' b hmoved => cases hmoved <;> exact Or.inl rfl
  | _ => exact Or.inl rfl

/-- A client that gets the reply to `CreateLease` has waited for it. -/
theorem Moved.of_created {leaseID : UInt64} (hmoved : Moved p s (.created leaseID) s') :
    ∃ session now, s = .creating session now := by
  cases hmoved with
  | created session => exact ⟨session, _, rfl⟩

/-- Only delays move a client's clock. -/
theorem Moved.now_cases (hmoved : Moved p s a s') :
    s'.now = s.now ∨ ∃ d, a = .delay d ∨ a = .loop (.delay d) := by
  cases hmoved with
  | creating _ _ d | opening _ _ d | failed _ _ d => exact Or.inr ⟨d, Or.inl rfl⟩
  | loop hb hb' b hmoved =>
    cases hmoved with
    | delay d => exact Or.inr ⟨d, Or.inr rfl⟩
    | _ => exact Or.inl rfl
  | _ => exact Or.inl rfl

/-- A client whose attempts are on time waits as its own model says. -/
theorem moved_advance {d : Nat} (hd : 0 < d) (hidle : s.MayIdle p d) (hontime : s.OnTime p d) :
    Moved p s (delayAct d s) (s.advance d) := by
  cases s with
  | creating session now => exact .creating session now d
  | opening session now => exact .opening session now d hidle
  | running h => exact .loop h _ _ (.delay d hd (Heartbeat.MayIdle.mayWait hidle hontime))
  | failed session now => exact .failed session now d

theorem now_advance (d : Nat) (s : Startup) : (s.advance d).now = s.now + d := by
  cases s <;> rfl

theorem session_advance (d : Nat) (s : Startup) : (s.advance d).session = s.session := by
  cases s <;> rfl

theorem delayAct_ne_acked (d : Nat) (s : Startup) : delayAct d s ≠ .loop (.result none) := by
  cases s <;> nofun

end Until

end Startup

/-! ## Clients and cluster -/

/-- A client of the SDK: the times of its `Start` and where it is. -/
structure Participant where
  times : StartTimes
  stage : Startup

namespace Participant

/-- The lease of the client's session; 0 before there is one. -/
def leaseID (c : Participant) : UInt64 := c.stage.session.leaseID

/-- The client after `d` nanoseconds. -/
def wait (d : Nat) (c : Participant) : Participant := { c with stage := c.stage.advance d }

theorem leaseID_wait (d : Nat) (c : Participant) : (c.wait d).leaseID = c.leaseID :=
  congrArg Session.leaseID (Startup.session_advance d c.stage)

/-- An active session has a lease. -/
theorem leaseID_ne_zero (c : Participant) (hactive : c.stage.session.Active) : c.leaseID ≠ 0 :=
  fun hid => Startup.not_active_of_refuses (Or.inr hid) hactive

end Participant

/-- A cluster and its clients. -/
structure Fleet (N : Type) where
  cluster : Deployment N
  clients : List Participant

inductive Fleet.Act (N : Type) where
  /-- Time passes for everyone. -/
  | tick (d : Nat)
  | cluster (a : Deployment.Act N)
  /-- `Client.Start` is called. -/
  | start (p : StartTimes)
  | client (i : Nat) (a : Startup.Act)

namespace Fleet

variable {N : Type}

def init (now : Int) : Fleet N := ⟨.init now, []⟩

def now (s : Fleet N) : Int := s.cluster.world.now

/-- The commands of the log. -/
def commandLog (s : Fleet N) : List CommandWrapper := commands s.cluster.log

/-- What a move adds to them. -/
def Act.committed : Act N → List CommandWrapper
  | .cluster (.commit _ e) => e.cmd.toList
  | _ => []

/-- What the cluster has to have done for a client to make this move. A lease ID goes to one client
only, that of the call that created the lease. -/
def Answers (s : Fleet N) (c : Participant) : Startup.Act → Prop
  | .delay _ | .loop (.delay _) => False
  | .created id => (∀ c' ∈ s.clients, c'.leaseID ≠ id) ∧
      ∃ b ∈ s.cluster.world.book id, c.times.createSentAt ≤ b.born ∧
        c.times.ttl.toInt ≤ b.lease.ttl.toInt ∧ Deployment.Held s.cluster.log b.lease
  | .loop (.result none) => ∀ sent ∈ c.stage.sentAt,
      ∃ r ∈ s.cluster.verified, r.lease.leaseID = c.leaseID ∧ sent ≤ r.time
  | _ => True

instance (s : Fleet N) (c : Participant) : (a : Startup.Act) → Decidable (s.Answers c a)
  | .delay _ => isFalse id
  | .loop (.delay _) => isFalse id
  | .created id =>
    have : Decidable (∃ b ∈ s.cluster.world.book id, c.times.createSentAt ≤ b.born ∧
        c.times.ttl.toInt ≤ b.lease.ttl.toInt ∧ Deployment.Held s.cluster.log b.lease) :=
      Option.decidableExistsMem _
    inferInstanceAs (Decidable (_ ∧ _))
  | .loop (.result none) => Option.decidableForallMem _
  | .loop (.result (some _)) => isTrue trivial
  | .loop .fire => isTrue trivial
  | .loop .receive => isTrue trivial
  | .loop .wake => isTrue trivial
  | .loop .ctxDone => isTrue trivial
  | .loop .stop => isTrue trivial
  | .createFailed => isTrue trivial
  | .opened => isTrue trivial
  | .openFailed _ => isTrue trivial
  | .stop => isTrue trivial

variable [DecidableEq N] (offset : N → Int)

/-- One move. `Start` refuses a TTL below one second. -/
def step (s : Fleet N) : Act N → Option (Fleet N)
  | .tick d =>
    if 0 < d ∧ ∀ c ∈ s.clients, c.stage.MayIdle c.times d then
      (s.cluster.step offset (.world (.tick d))).map fun cluster =>
        ⟨cluster, s.clients.map (Participant.wait d)⟩
    else none
  | .cluster (.world (.tick _)) => none
  | .cluster a => (s.cluster.step offset a).map fun cluster => { s with cluster := cluster }
  | .start p =>
    if p.createSentAt = s.cluster.world.now ∧ second ≤ p.ttl.toInt then
      some { s with clients := s.clients ++ [⟨p, .creating .new p.createSentAt⟩] }
    else none
  | .client i a =>
    match s.clients[i]? with
    | none => none
    | some c =>
      if s.Answers c a then
        (Startup.step c.times c.stage a).map fun stage =>
          { s with clients := s.clients.set i { c with stage := stage } }
      else none

inductive Moved (s : Fleet N) : Act N → Fleet N → Prop where
  | tick (d : Nat) (cluster : Deployment N) (hd : 0 < d)
      (hclients : ∀ c ∈ s.clients, c.stage.MayIdle c.times d)
      (hmoved : Deployment.Moved offset s.cluster (.world (.tick d)) cluster) :
      Moved s (.tick d) ⟨cluster, s.clients.map (Participant.wait d)⟩
  | cluster (a : Deployment.Act N) (cluster : Deployment N) (hnot : ∀ d, a ≠ .world (.tick d))
      (hmoved : Deployment.Moved offset s.cluster a cluster) :
      Moved s (.cluster a) { s with cluster := cluster }
  | start (p : StartTimes) (hnow : p.createSentAt = s.cluster.world.now)
      (httl : second ≤ p.ttl.toInt) :
      Moved s (.start p) { s with clients := s.clients ++ [⟨p, .creating .new p.createSentAt⟩] }
  | client (i : Nat) (a : Startup.Act) (c : Participant) (stage : Startup)
      (hi : s.clients[i]? = some c) (hans : s.Answers c a)
      (hmoved : Startup.Moved c.times c.stage a stage) :
      Moved s (.client i a) { s with clients := s.clients.set i { c with stage := stage } }

section Step

variable {offset : N → Int} {s s' : Fleet N} {a : Act N}

theorem moved_of_step (h : s.step offset a = some s') : Moved offset s a s' := by
  cases a with
  | tick d =>
    obtain ⟨⟨hd, hclients⟩, heq⟩ := Option.ite_none_right_eq_some.mp h
    obtain ⟨cluster, hcluster, rfl⟩ := Option.map_eq_some_iff.mp heq
    exact .tick d cluster hd hclients (Deployment.moved_of_step hcluster)
  | cluster a =>
    have hnot : ∀ d, a ≠ .world (.tick d) := by
      rintro d rfl
      cases h
    have heq : (s.cluster.step offset a).map (fun cluster => { s with cluster := cluster })
        = some s' := by
      rw [← h, step]
      exact hnot
    obtain ⟨cluster, hcluster, rfl⟩ := Option.map_eq_some_iff.mp heq
    exact .cluster a cluster hnot (Deployment.moved_of_step hcluster)
  | start p =>
    obtain ⟨⟨hnow, httl⟩, heq⟩ := Option.ite_none_right_eq_some.mp h
    cases heq
    exact .start p hnow httl
  | client i a =>
    simp only [step] at h
    cases hi : s.clients[i]? with
    | none =>
      rw [hi] at h
      cases h
    | some c =>
      rw [hi] at h
      obtain ⟨hans, heq⟩ := Option.ite_none_right_eq_some.mp h
      obtain ⟨stage, hstage, rfl⟩ := Option.map_eq_some_iff.mp heq
      exact .client i a c stage hi hans (Startup.moved_of_step hstage)

end Step

/-! ## The invariant -/

/-- The client's session is closed before the promise it relies on runs out. -/
structure Covered (d : Deployment N) (c : Participant) : Prop where
  now : c.stage.now = d.world.now
  ttl : second ≤ c.times.ttl.toInt
  bound : ∃ u, c.stage.ActiveUntil c.times u ∧ (c.leaseID ≠ 0 →
    ∃ lease since, lease.leaseID = c.leaseID ∧ d.Secured lease since ∧
      c.times.ttl.toInt ≤ lease.ttl.toInt ∧ u ≤ since + lease.ttl.toInt)

/-- Clients have different leases. -/
def Distinct (clients : List Participant) : Prop :=
  ∀ (i j : Nat) (ci cj : Participant), clients[i]? = some ci → clients[j]? = some cj → i ≠ j →
    ci.leaseID ≠ 0 → ci.leaseID ≠ cj.leaseID

structure Ok (s : Fleet N) : Prop where
  cluster : Deployment.Ok offset s.cluster
  clients : ∀ c ∈ s.clients, Covered s.cluster c
  distinct : Distinct s.clients

/-- The preconditions: those of the cluster, `Start` is quick enough for its own heartbeat loop, and
attempts return by their timeouts. -/
def Suits (s : Fleet N) : Act N → Prop
  | .cluster a => s.cluster.Suits a
  | .start p => p.Quick
  | .tick d => ∀ c ∈ s.clients, c.stage.OnTime c.times d
  | .client _ _ => True

instance (s : Fleet N) : (a : Act N) → Decidable (s.Suits a)
  | .cluster a => inferInstanceAs (Decidable (s.cluster.Suits a))
  | .start p => inferInstanceAs (Decidable p.Quick)
  | .tick _ => inferInstanceAs (Decidable (∀ c ∈ s.clients, _))
  | .client _ _ => isTrue trivial

section Covered

variable {offset : N → Int} {d d' : Deployment N} {c : Participant} {a : Deployment.Act N}

/-- A move of the cluster, for a client whose own stage has not moved. -/
theorem Covered.cluster (h : Covered d c) (hmoved : Deployment.Moved offset d a d')
    (hnow : d'.world.now = d.world.now) : Covered d' c where
  now := h.now.trans hnow.symm
  ttl := h.ttl
  bound := by
    obtain ⟨u, huntil, hpromise⟩ := h.bound
    refine ⟨u, huntil, fun hid => ?_⟩
    obtain ⟨lease, since, hlease, hsec, hrest⟩ := hpromise hid
    exact ⟨lease, since, hlease, hsec.step hmoved, hrest⟩

theorem Covered.tick (h : Covered d c) {n : Nat}
    (hmoved : Deployment.Moved offset d (.world (.tick n)) d')
    (hnow : d'.world.now = d.world.now + n) (hn : 0 < n) (hidle : c.stage.MayIdle c.times n)
    (hontime : c.stage.OnTime c.times n) : Covered d' (c.wait n) := by
  obtain ⟨u, huntil, hpromise⟩ := h.bound
  refine ⟨?_, h.ttl, u, huntil.step h.ttl (Startup.moved_advance hn hidle hontime)
    (Startup.delayAct_ne_acked n c.stage), ?_⟩
  · show (c.stage.advance n).now = d'.world.now
    rw [hnow, ← h.now, Startup.now_advance]
  · intro hid
    rw [Participant.leaseID_wait] at hid ⊢
    obtain ⟨lease, since, hlease, hsec, hrest⟩ := hpromise hid
    exact ⟨lease, since, hlease, hsec.step hmoved, hrest⟩

end Covered

section Ok

variable {offset : N → Int} {s s' : Fleet N} {a : Act N}

theorem now_eq_of_moved {d d' : Deployment N} {a : Deployment.Act N}
    (hmoved : Deployment.Moved offset d a d') (hnot : ∀ n, a ≠ .world (.tick n)) :
    d'.world.now = d.world.now := by
  have hworld : ∀ {w w' : World N} {b : World.Act N}, World.Moved offset w b w' →
      (∀ n, b ≠ .tick n) → w'.now = w.now := by
    intro w w' b hb hne
    cases hb with
    | tick n => exact absurd rfl (hne n)
    | _ => rfl
  cases hmoved with
  | world b w hplain hb => exact hworld hb fun n hn => hnot n (by rw [hn])
  | readClock | tracked | verified | committed => rfl

omit [DecidableEq N] in
/-- A client's own move. -/
theorem Ok.covered_client (h : Ok offset s) {c : Participant} {a : Startup.Act} {stage : Startup}
    (hc : c ∈ s.clients) (hans : s.Answers c a)
    (hmoved : Startup.Moved c.times c.stage a stage) :
    Covered s.cluster { c with stage := stage } := by
  have hcov := h.clients c hc
  obtain ⟨u, huntil, hpromise⟩ := hcov.bound
  have hnow : stage.now = s.cluster.world.now := by
    rcases hmoved.now_cases with heq | ⟨d, rfl | rfl⟩
    · rw [heq, hcov.now]
    · exact hans.elim
    · exact hans.elim
  by_cases hack : a = .loop (.result none)
  · subst hack
    have hid : stage.session.leaseID = c.leaseID := by
      rcases hmoved.leaseID_cases with heq | hcreated
      · exact heq
      · cases hcreated
    rcases huntil.acked hcov.ttl hmoved with hsame | ⟨sent, hsent, hnew⟩
    · refine ⟨hnow, hcov.ttl, u, hsame, fun hne => ?_⟩
      obtain ⟨lease, since, hlease, hrest⟩ := hpromise (hid ▸ hne)
      exact ⟨lease, since, hlease.trans hid.symm, hrest⟩
    · -- the acknowledged renewal is of the client's lease and is the new promise
      refine ⟨hnow, hcov.ttl, _, hnew, fun hne => ?_⟩
      obtain ⟨r, hr, hrid, hle⟩ := hans sent hsent
      obtain ⟨lease, since, hlease, hsec, httl, -⟩ := hpromise (hid ▸ hne)
      have hknown := h.cluster.records lease (h.cluster.held_of_secured hsec)
      have hren := h.cluster.renewals r (h.cluster.verified r hr).1
      obtain rfl := World.knows_unique hren.known hknown (hrid.trans hlease.symm)
      exact ⟨r.lease, r.time, hrid.trans hid.symm, Or.inr ⟨r, hr, rfl, rfl⟩, httl,
        show sent + c.times.ttl.toInt ≤ r.time + r.lease.ttl.toInt by omega⟩
  · refine ⟨hnow, hcov.ttl, u, huntil.step hcov.ttl hmoved hack, fun hne => ?_⟩
    rcases hmoved.leaseID_cases with hid | hcreated
    · obtain ⟨lease, since, hlease, hrest⟩ := hpromise fun h0 => hne (hid.trans h0)
      exact ⟨lease, since, hlease.trans hid.symm, hrest⟩
    · -- the reply to `CreateLease`: the lease was stamped after the call was sent
      subst hcreated
      obtain ⟨-, b, hb, hsent, httl, hheld⟩ := hans
      obtain ⟨session, now, hstage⟩ := hmoved.of_created
      rw [hstage] at huntil
      have hb' : s.cluster.world.book b.lease.leaseID = some b := by
        rw [(h.cluster.sound.book _ b hb).1]
        exact hb
      refine ⟨b.lease, b.born, (h.cluster.sound.book _ b hb).1, Or.inl ⟨hheld, b, hb', rfl⟩, httl,
        ?_⟩
      have hu : u = c.times.createSentAt + c.times.ttl.toInt := huntil.2.2
      omega

/-- A list of clients in which one has moved and has kept its lease or got a new one. -/
theorem Distinct.set {clients : List Participant} (h : Distinct clients) {i : Nat}
    {c c' : Participant} (hi : clients[i]? = some c)
    (hid : c'.leaseID = c.leaseID ∨ ∀ c₀ ∈ clients, c₀.leaseID ≠ c'.leaseID) :
    Distinct (clients.set i c') := by
  refine Apart.set (R := fun a b : Participant => a.leaseID ≠ 0 → a.leaseID ≠ b.leaseID) h hi ?_
  intro j c₀ hji hj
  rcases hid with heq | hnew
  · rw [heq]
    exact ⟨h j i c₀ c hj hi hji, h i j c c₀ hi hj (Ne.symm hji)⟩
  · have hne := hnew c₀ (List.mem_of_getElem? hj)
    exact ⟨fun _ => hne, fun _ => Ne.symm hne⟩

theorem Distinct.concat {clients : List Participant} (h : Distinct clients) {c : Participant}
    (hc : c.leaseID = 0) : Distinct (clients ++ [c]) := by
  refine Apart.concat (R := fun a b : Participant => a.leaseID ≠ 0 → a.leaseID ≠ b.leaseID) h ?_
  intro c₀ _
  rw [hc]
  exact ⟨id, fun hne => absurd rfl hne⟩

theorem Distinct.wait {clients : List Participant} (h : Distinct clients) (d : Nat) :
    Distinct (clients.map (Participant.wait d)) := by
  intro j k cj ck hj hk hjk hne
  rw [List.getElem?_map] at hj hk
  obtain ⟨c, hc, rfl⟩ := Option.map_eq_some_iff.mp hj
  obtain ⟨c', hc', rfl⟩ := Option.map_eq_some_iff.mp hk
  rw [Participant.leaseID_wait] at hne ⊢
  rw [Participant.leaseID_wait]
  exact h j k c c' hc hc' hjk hne

theorem Ok.step (h : Ok offset s) (hsuits : s.Suits a) (hmoved : Moved offset s a s') :
    Ok offset s' := by
  cases hmoved with
  | tick d cluster hd hclients hmoved =>
    have hplain : s.cluster.Suits (.world (.tick d)) := trivial
    refine ⟨h.cluster.step hplain hmoved, ?_, h.distinct.wait d⟩
    intro c hc
    obtain ⟨c₀, hc₀, rfl⟩ := List.mem_map.mp hc
    have hnow : cluster.world.now = s.cluster.world.now + d := by
      cases hmoved with
      | world _ w _ hw =>
        cases hw
        rfl
    exact (h.clients c₀ hc₀).tick hmoved hnow hd (hclients c₀ hc₀) (hsuits c₀ hc₀)
  | cluster a cluster hnot hmoved =>
    exact ⟨h.cluster.step hsuits hmoved, fun c hc =>
      (h.clients c hc).cluster hmoved (now_eq_of_moved hmoved hnot), h.distinct⟩
  | start p hnow httl =>
    refine ⟨h.cluster, ?_, h.distinct.concat rfl⟩
    intro c hc
    rcases List.mem_append.mp hc with hold | hnew
    · exact h.clients c hold
    · rw [List.mem_singleton.mp hnew]
      exact ⟨hnow, httl, _, Startup.activeUntil_creating hsuits, fun hne => absurd rfl hne⟩
  | client i a c stage hi hans hmoved =>
    have hc : c ∈ s.clients := List.mem_of_getElem? hi
    refine ⟨h.cluster, ?_, ?_⟩
    · intro c' hc'
      rcases List.mem_or_eq_of_mem_set hc' with hold | rfl
      · exact h.clients c' hold
      · exact h.covered_client hc hans hmoved
    · refine h.distinct.set hi ?_
      rcases hmoved.leaseID_cases with heq | hcreated
      · exact Or.inl heq
      · subst hcreated
        exact Or.inr hans.1

omit [DecidableEq N] in
/-- The lease of an active session is in the replicated state. -/
theorem Ok.getLease_of_active (h : Ok offset s) {c : Participant} (hc : c ∈ s.clients)
    (hactive : c.stage.session.Active) :
    ∃ lease, s.cluster.fsm.getLease c.leaseID = some lease := by
  have hcov := h.clients c hc
  obtain ⟨u, huntil, hpromise⟩ := hcov.bound
  obtain ⟨lease, since, hid, hsec, -, hle⟩ := hpromise (c.leaseID_ne_zero hactive)
  have hnow := huntil.now_lt hcov.ttl hactive
  rw [hcov.now] at hnow
  refine ⟨lease, ?_⟩
  rw [← hid]
  exact h.cluster.getLease_of_secured hsec (by omega)

omit [DecidableEq N] in
/-- Nothing in the log expires the lease of an active session. -/
theorem Ok.not_expires_of_active (h : Ok offset s) {c : Participant} (hc : c ∈ s.clients)
    (hactive : c.stage.session.Active) :
    ∀ cmd ∈ commands s.cluster.log, cmd.expires ≠ some c.leaseID := by
  intro cmd hcmd hexp
  obtain ⟨lease, hlease⟩ := h.getLease_of_active hc hactive
  -- an expiry anywhere in the log would have removed the lease for good
  obtain ⟨e, he, hecmd⟩ := List.mem_filterMap.mp hcmd
  obtain ⟨j, hj⟩ := List.mem_iff_getElem?.mp he
  have hlt := (List.getElem?_eq_some_iff.mp hj).1
  rw [Deployment.fsm, ← List.take_length (l := s.cluster.log)] at hlease
  refine not_expires_of_getLease h.cluster.log hlease hlt hj ?_
  rw [Entry.expires, hecmd]
  exact hexp

/-- What a move of the cluster adds to the commands. -/
theorem commandLog_of_moved {d' : Deployment N} {b : Deployment.Act N}
    (h : Deployment.Moved offset s.cluster b d') :
    commands d'.log = s.commandLog ++ (Act.cluster b).committed := by
  cases h with
  | committed n e hcommits =>
    obtain ⟨term, cmd⟩ := e
    show commands (s.cluster.log ++ [_]) = _
    rw [commands_append]
    cases cmd <;> rfl
  | world | readClock | tracked | verified => exact (List.append_nil _).symm

theorem Moved.commandLog (h : Moved offset s a s') :
    s'.commandLog = s.commandLog ++ a.committed := by
  cases h with
  | tick d cluster hd hclients hmoved => exact commandLog_of_moved hmoved
  | cluster b cluster hnot hmoved => exact commandLog_of_moved hmoved
  | start | client => exact (List.append_nil _).symm

end Ok

omit [DecidableEq N] in
theorem ok_init {offset : N → Int} (now : Int) : Ok offset (init now : Fleet N) where
  cluster := Deployment.ok_init now
  clients := by
    intro c hc
    cases hc
  distinct := by
    intro i j ci cj hi
    cases hi

end Fleet

end Clavis
