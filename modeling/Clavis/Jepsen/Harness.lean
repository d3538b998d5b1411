import Clavis.Guarantee.Downstream
import Clavis.Guarantee.Exclusion
import Clavis.Jepsen.Verdict

/-!
# The Jepsen test as a run of the system

The test (`jepsen/src/clavis/jepsen.clj`) drives the cluster through its own clients: `invoke!`
starts a holder process (`jepsen/holder/main.go`), which opens a session with the SDK, asks for the
lock of a resource and waits for commands. This module puts the test on top of `Fleet`, so that a
history is what some run of cluster, clients and test processes writes down.

* `Job` — one call of `invoke!`, with the stages it goes through up to its completion. The client of
  its holder is a client of the fleet; the token it gets is that of an acquire in the log.
* `Harness.step` — a move of the fleet, of a job, or of the nemesis. Jobs move in any order and at
  any time; `wait-ms` and `hold-ms` only say when.
* `Fleet.Grows`, `Fleet.Dated` — what a move of the fleet leaves to the jobs: positions of the log
  keep their meaning, clients keep their leases, and a lease is younger than the call that asked
  for it.

All times of the test, `relative-time-nanos` and the times of the history, are readings of one
clock. A holder that is stopped with a signal or killed is, for everybody else, a client whose
heartbeats are no longer answered.
-/

namespace Clavis

open Lib

/-! ## What a move of the fleet leaves as it is -/

namespace Fleet

variable {N : Type}

/-- What later states have of earlier ones, when the commands `suf` have been added. -/
structure Grows (s s' : Fleet N) (suf : List CommandWrapper) : Prop where
  now_le : s.now ≤ s'.now
  book : ∀ id b, s.cluster.world.book id = some b → s'.cluster.world.book id = some b
  log : s'.commandLog = s.commandLog ++ suf
  clients : ∀ (i : Nat) (c : Participant), s.clients[i]? = some c →
    ∃ c' : Participant, s'.clients[i]? = some c' ∧ c'.times = c.times ∧
      (c.leaseID ≠ 0 → c'.leaseID = c.leaseID)

section Grows

variable [DecidableEq N] {offset : N → Int} {s s' : Fleet N} {a : Act N}

omit [DecidableEq N] in
/-- A session gets its lease once. -/
theorem Ok.leaseID_of_moved (h : Ok offset s) {c : Participant} (hc : c ∈ s.clients)
    {b : Startup.Act} {stage : Startup} (hmoved : Startup.Moved c.times c.stage b stage)
    (hne : c.leaseID ≠ 0) : stage.session.leaseID = c.leaseID := by
  rcases hmoved.leaseID_cases with heq | hcreated
  · exact heq
  · subst hcreated
    obtain ⟨session, now, hstage⟩ := hmoved.of_created
    obtain ⟨u, huntil, -⟩ := (h.clients c hc).bound
    rw [hstage] at huntil
    -- a client that waits for the reply to `CreateLease` has none
    refine absurd ?_ hne
    rw [Participant.leaseID, hstage]
    exact huntil.1

theorem Ok.grows (h : Ok offset s) (hmoved : Moved offset s a s') : Grows s s' a.committed := by
  cases hmoved with
  | tick d cluster hd hclients hmoved =>
    refine ⟨hmoved.now_le, fun id b => hmoved.book_mono, commandLog_of_moved hmoved, ?_⟩
    intro i c hi
    exact ⟨c.wait d, by rw [List.getElem?_map, hi]; rfl, rfl, fun _ => c.leaseID_wait d⟩
  | cluster b cluster hnot hmoved =>
    exact ⟨hmoved.now_le, fun id b => hmoved.book_mono, commandLog_of_moved hmoved,
      fun i c hi => ⟨c, hi, rfl, fun _ => rfl⟩⟩
  | start p hnow httl =>
    refine ⟨le_refl _, fun _ _ hb => hb, (List.append_nil _).symm, ?_⟩
    intro i c hi
    refine ⟨c, ?_, rfl, fun _ => rfl⟩
    rw [List.getElem?_append_left (List.getElem?_eq_some_iff.mp hi).1, hi]
  | client i b c stage hi hans hmoved =>
    refine ⟨le_refl _, fun _ _ hb => hb, (List.append_nil _).symm, ?_⟩
    intro j c' hj
    by_cases hij : i = j
    · subst hij
      obtain rfl := Option.some.inj (hi.symm.trans hj)
      refine ⟨{ c with stage := stage }, ?_, rfl, ?_⟩
      · rw [List.getElem?_set_self (List.getElem?_eq_some_iff.mp hi).1]
      · exact h.leaseID_of_moved (List.mem_of_getElem? hi) hmoved
    · exact ⟨c', by rw [List.getElem?_set_ne hij, hj], rfl, fun _ => rfl⟩

end Grows

/-! ## The age of leases -/

/-- Leases have been made by now, and each client's after its `CreateLease` was sent. -/
structure Dated (s : Fleet N) : Prop where
  born_le : ∀ id b, s.cluster.world.book id = some b → b.born ≤ s.now
  sent_le : ∀ c ∈ s.clients, c.leaseID ≠ 0 →
    ∃ b, s.cluster.world.book c.leaseID = some b ∧ c.times.createSentAt ≤ b.born

section Dated

variable [DecidableEq N] {offset : N → Int} {s s' : Fleet N} {a : Act N}

omit [DecidableEq N] in
theorem dated_init (now : Int) : (init now : Fleet N).Dated where
  born_le := by
    intro id b hb
    cases hb
  sent_le := by
    intro c hc
    cases hc

theorem Dated.born_le_moved (h : s.Dated) {d' : Deployment N} {b : Deployment.Act N}
    (hmoved : Deployment.Moved offset s.cluster b d') (id : UInt64) (x : Birth N)
    (hx : d'.world.book id = some x) : x.born ≤ d'.world.now := by
  have hnow := hmoved.now_le
  have hold : s.cluster.world.book id = some x → x.born ≤ d'.world.now := fun hx =>
    (h.born_le id x hx).trans hnow
  cases hmoved with
  | world b' w hplain hworld =>
    rcases hworld.book_cases hx with hbook | ⟨n, term, m, ownerID, ttl, -, -, -, -, rfl⟩
    · exact hold hbook
    · exact hnow
  | readClock | tracked | verified | committed => exact hold hx

theorem Dated.step (h : s.Dated) (hmoved : Moved offset s a s') : s'.Dated := by
  cases hmoved with
  | tick d cluster hd hclients hmoved =>
    refine ⟨h.born_le_moved hmoved, ?_⟩
    intro c hc hne
    obtain ⟨c₀, hc₀, rfl⟩ := List.mem_map.mp hc
    rw [Participant.leaseID_wait] at hne ⊢
    obtain ⟨b, hb, hle⟩ := h.sent_le c₀ hc₀ hne
    exact ⟨b, hmoved.book_mono hb, hle⟩
  | cluster a cluster hnot hmoved =>
    refine ⟨h.born_le_moved hmoved, ?_⟩
    intro c hc hne
    obtain ⟨b, hb, hle⟩ := h.sent_le c hc hne
    exact ⟨b, hmoved.book_mono hb, hle⟩
  | start p hnow httl =>
    refine ⟨h.born_le, ?_⟩
    intro c hc hne
    rcases List.mem_append.mp hc with hold | hnew
    · exact h.sent_le c hold hne
    · rw [List.mem_singleton.mp hnew] at hne
      exact absurd rfl hne
  | client i b c stage hi hans hmoved =>
    refine ⟨h.born_le, ?_⟩
    intro c' hc' hne
    rcases List.mem_or_eq_of_mem_set hc' with hold | rfl
    · exact h.sent_le c' hold hne
    · rcases hmoved.leaseID_cases with heq | hcreated
      · have hsame : ({ c with stage := stage } : Participant).leaseID = c.leaseID := heq
        rw [hsame] at hne ⊢
        exact h.sent_le c (List.mem_of_getElem? hi) hne
      · subst hcreated
        obtain ⟨-, b, hb, hsent, -⟩ := hans
        exact ⟨b, hb, hsent⟩

end Dated

/-- A position among the commands of a log is one of the log. -/
theorem exists_commands_take (log : List Entry) (k : Nat) :
    ∃ j ≤ log.length, commands (log.take j) = (commands log).take k := by
  induction log generalizing k with
  | nil => exact ⟨0, le_refl _, List.take_nil.symm⟩
  | cons e log ih =>
    obtain ⟨term, cmd⟩ := e
    cases cmd with
    | none =>
      obtain ⟨j, hj, heq⟩ := ih k
      exact ⟨j + 1, Nat.succ_le_succ hj, heq⟩
    | some c =>
      cases k with
      | zero => exact ⟨0, Nat.zero_le _, rfl⟩
      | succ k =>
        obtain ⟨j, hj, heq⟩ := ih k
        exact ⟨j + 1, Nat.succ_le_succ hj, congrArg (c :: ·) heq⟩

/-- The records of the log are the cluster's. -/
theorem Ok.exists_birth {offset : N → Int} {s : Fleet N} (h : Ok offset s) {k : Nat} {id : UInt64}
    {lease : Lease} (hlease : (stateAt s.commandLog k).getLease id = some lease) :
    ∃ b, s.cluster.world.book id = some b := by
  obtain ⟨j, hj, heq⟩ := exists_commands_take s.cluster.log k
  have hid : lease.leaseID = id := keyed_replay _ id lease hlease
  have hheld : Deployment.Held s.cluster.log lease := by
    refine ⟨j, hj, ?_⟩
    rw [stateAfter, heq, hid]
    exact hlease
  obtain ⟨b, hb, -⟩ := Option.map_eq_some_iff.mp (h.cluster.records lease hheld)
  exact ⟨b, hid ▸ hb⟩

end Fleet

theorem Session.active_iff {s : Session} :
    s.Active ↔ s.activeLeaseID.isOk = true ∧ s.done = false := by
  refine and_congr_left' ?_
  cases s.activeLeaseID with
  | ok l => exact iff_of_true ⟨l, rfl⟩ rfl
  | error e => exact iff_of_false (by simp) (by simp [Except.isOk, Except.toBool])

instance (s : Session) : Decidable s.Active := decidable_of_iff' _ Session.active_iff

namespace Jepsen

/-! ## Jobs -/

/-- What `invoke!` reads of the value of an invocation, less the two durations. -/
structure Request where
  resource : String
  value : String
  pause : Bool

/-- The holder has called `Acquire` or `WaitAcquire`. -/
structure Asked where
  /-- The place of the holder's client in the fleet. -/
  client : Nat
  lease : UInt64
  /-- The length of the log at the time. -/
  since : Nat

/-- The holder has reported the token of the acquire at `position`. -/
structure Grant extends Asked where
  position : Nat
  token : UInt64
  acquiredAt : Int

/-- How far a call of `invoke!` has come. -/
inductive JobStage where
  | invoked
  | starting (client : Nat)
  | asking (asked : Asked)
  | busy (client : Nat)
  | acquired (g : Grant)
  /-- The reply to `check` was not `valid`, -/
  | lost (g : Grant)
  /-- or it was. -/
  | valid (g : Grant)
  | confirmed (g : Grant) (validAt : Int)
  | written (g : Grant) (validAt : Int) (accepted : Bool)

namespace JobStage

def client : JobStage → Option Nat
  | invoked => none
  | starting i | busy i => some i
  | asking a => some a.client
  | acquired g | lost g | valid g | confirmed g _ | written g _ _ => some g.client

def asked : JobStage → Option Asked
  | invoked | starting _ | busy _ => none
  | asking a => some a
  | acquired g | lost g | valid g | confirmed g _ | written g _ _ => some g.toAsked

def grant : JobStage → Option Grant
  | invoked | starting _ | busy _ | asking _ => none
  | acquired g | lost g | valid g | confirmed g _ | written g _ _ => some g

def validAt : JobStage → Option Int
  | confirmed _ v | written _ v _ => some v
  | _ => none

end JobStage

/-- Where and when an operation was completed. -/
structure Ending where
  index : Nat
  time : Int

/-- A call of `invoke!`. -/
structure Job where
  process : Nat
  request : Request
  invokedAt : Int
  stage : JobStage
  ended : Option Ending

namespace Job

def lockName (job : Job) : String := "resource:" ++ job.request.resource

/-- The job at another stage. -/
def withStage (job : Job) (stage : JobStage) : Job := { job with stage := stage }

/-- The holder has been told to release its lock. It is not when the client stalls before it
writes. -/
def releasing (job : Job) : Bool :=
  match job.stage with
  | .written _ _ _ => !job.request.pause
  | _ => false

/-- `:held`, which a client that stalls does not claim. -/
def held (job : Job) (g : Grant) (validAt : Int) : Option (Int × Int) :=
  if job.request.pause then none else some (g.acquiredAt, validAt)

/-- The completion that `invoke!` returns, as soon as it has one. -/
def outcome (job : Job) : Option (OpType × OpValue String) :=
  match job.stage with
  | .busy _ => some (.fail, ⟨job.request.resource, none, none, some .busy⟩)
  | .lost g => some (.fail, ⟨job.request.resource, some g.token.toNat, none, some .lost⟩)
  | .written g validAt true =>
    some (.ok, ⟨job.request.resource, some g.token.toNat, job.held g validAt, none⟩)
  | .written g validAt false =>
    some (.fail, ⟨job.request.resource, some g.token.toNat, job.held g validAt, some .staleToken⟩)
  | _ => none

/-- What the checker is to find of a completed job. -/
def report (job : Job) : Option (Completed String) :=
  job.ended.bind fun e => job.outcome.map fun out =>
    { resource := out.2.resource
      held := out.2.held
      data :=
        { resultType := out.1
          token := out.2.token
          error := out.2.error
          invokeTime := some job.invokedAt
          completeTime := e.time
          completeIndex := e.index } }

end Job

/-- The completions there are. -/
inductive Job.Completes (job : Job) : OpType → OpValue String → Prop where
  | busy (i : Nat) (hstage : job.stage = .busy i) :
      Completes job .fail ⟨job.request.resource, none, none, some .busy⟩
  | lost (g : Grant) (hstage : job.stage = .lost g) :
      Completes job .fail ⟨job.request.resource, some g.token.toNat, none, some .lost⟩
  | accepted (g : Grant) (validAt : Int) (hstage : job.stage = .written g validAt true) :
      Completes job .ok ⟨job.request.resource, some g.token.toNat, job.held g validAt, none⟩
  | refused (g : Grant) (validAt : Int) (hstage : job.stage = .written g validAt false) :
      Completes job .fail
        ⟨job.request.resource, some g.token.toNat, job.held g validAt, some .staleToken⟩

theorem Job.completes_of_outcome {job : Job} {type : OpType} {value : OpValue String}
    (h : job.outcome = some (type, value)) : job.Completes type value := by
  unfold Job.outcome at h
  split at h <;> cases h
  · exact .busy _ ‹_›
  · exact .lost _ ‹_›
  · exact .accepted _ _ ‹_›
  · exact .refused _ _ ‹_›

/-! ## The test -/

/-- The fleet, the downstream registers, the calls of `invoke!` and the history. -/
structure Harness (N : Type) where
  fleet : Fleet N
  registers : String → Option Register
  jobs : List Job
  history : List (HistoryOp (Option Nat) String)

/-- What a holder and `invoke!` do without touching anything else. -/
inductive Turn where
  /-- `Start` has returned, and the holder asks for its lock. -/
  | ask
  | busy
  | acquired (position : Nat) (token : UInt64)
  /-- The holder looks at `Done`. -/
  | check
  /-- There is no reply to `check`, because the holder has exited. -/
  | exited
  /-- `invoke!` has its reply and reads the clock. -/
  | confirm

inductive Harness.Act (N : Type) where
  | fleet (a : Fleet.Act N)
  | invoke (process : Nat) (request : Request)
  /-- The holder of job `j` calls `Start`. -/
  | start (j : Nat) (p : StartTimes)
  | turn (j : Nat) (a : Turn)
  /-- `accept-write!` -/
  | write (j : Nat)
  | complete (j : Nat)
  /-- The outcome of job `j` stays unknown. -/
  | crash (j : Nat)
  | nemesis (name : String)

namespace Harness

variable {N : Type}

def init (now : Int) : Harness N := ⟨.init now, fun _ => none, [], []⟩

/-- Job `j`, if it is not completed. -/
def running (s : Harness N) (j : Nat) : Option Job := s.jobs[j]?.filter (·.ended.isNone)

/-- A release that is committed is one a holder was told to make. -/
def Permits (s : Harness N) (a : Fleet.Act N) : Prop :=
  ∀ cmd ∈ a.committed, ∀ job ∈ s.jobs, job.releasing = false → ∀ asked ∈ job.stage.asked,
    ¬ cmd.Releases job.lockName asked.lease

instance (s : Harness N) (a : Fleet.Act N) : Decidable (s.Permits a) :=
  have (cmd : CommandWrapper) (job : Job) :
      Decidable (∀ asked ∈ job.stage.asked, ¬ cmd.Releases job.lockName asked.lease) :=
    Option.decidableForallMem _
  inferInstanceAs (Decidable (∀ cmd ∈ a.committed, _))

/-- The stage after a turn. The token has to fit `long`. -/
def turn (s : Harness N) (job : Job) : Turn → Option JobStage
  | .ask =>
    match job.stage with
    | .starting i =>
      match s.fleet.clients[i]? with
      | some ⟨_, .running h⟩ =>
        match h.session.activeLeaseID with
        | .ok l => some (.asking ⟨i, l, s.fleet.commandLog.length⟩)
        | .error _ => none
      | _ => none
    | _ => none
  | .busy =>
    match job.stage with
    | .asking a => some (.busy a.client)
    | _ => none
  | .acquired q t =>
    match job.stage with
    | .asking a =>
      if a.since ≤ q ∧ t.toNat < 2 ^ 63 ∧
          AcquiredAt s.fleet.commandLog q job.lockName a.lease t then
        some (.acquired ⟨a, q, t, s.fleet.now⟩)
      else none
    | _ => none
  | .check =>
    match job.stage with
    | .acquired g =>
      s.fleet.clients[g.client]?.map fun c => if c.stage.session.done then .lost g else .valid g
    | _ => none
  | .exited =>
    match job.stage with
    | .acquired g => some (.lost g)
    | _ => none
  | .confirm =>
    match job.stage with
    | .valid g => some (.confirmed g s.fleet.now)
    | _ => none

/-- A completion is appended to the history. -/
def finish (s : Harness N) (j : Nat) (job : Job) (type : OpType) (value : OpValue String) :
    Harness N :=
  { s with
    jobs := s.jobs.set j { job with ended := some ⟨s.history.length, s.fleet.now⟩ }
    history := s.history ++
      [⟨some job.process, .fencedWrite, type, value, s.fleet.now, s.history.length⟩] }

variable [DecidableEq N] (offset : N → Int)

/-- One move. A process invokes its next operation when the last one is completed. -/
def step (s : Harness N) : Act N → Option (Harness N)
  | .fleet a =>
    if s.Permits a then (s.fleet.step offset a).map fun fleet => { s with fleet := fleet } else none
  | .invoke process request =>
    if ∀ job ∈ s.jobs, job.ended.isNone → job.process ≠ process then
      some { s with
        jobs := s.jobs ++ [⟨process, request, s.fleet.now, .invoked, none⟩]
        history := s.history ++ [⟨some process, .fencedWrite, .invoke,
          ⟨request.resource, none, none, none⟩, s.fleet.now, s.history.length⟩] }
    else none
  | .start j p =>
    (s.running j).bind fun job =>
      match job.stage with
      | .invoked => (s.fleet.step offset (.start p)).map fun fleet =>
        { s with
          fleet := fleet
          jobs := s.jobs.set j (job.withStage (.starting s.fleet.clients.length)) }
      | _ => none
  | .turn j a =>
    (s.running j).bind fun job => (s.turn job a).map fun stage =>
      { s with jobs := s.jobs.set j (job.withStage stage) }
  | .write j =>
    (s.running j).bind fun job =>
      match job.stage with
      | .confirmed g validAt =>
        let r := acceptWrite (s.registers job.request.resource) g.token job.request.value
        some { s with
          registers := Function.update s.registers job.request.resource r.1
          jobs := s.jobs.set j (job.withStage (.written g validAt r.2)) }
      | _ => none
  | .complete j =>
    (s.running j).bind fun job => job.outcome.map fun out => s.finish j job out.1 out.2
  | .crash j =>
    (s.running j).map fun job => s.finish j job .info ⟨job.request.resource, none, none, none⟩
  | .nemesis name =>
    some { s with history := s.history ++
      [⟨none, .other name, .info, ⟨"", none, none, none⟩, s.fleet.now, s.history.length⟩] }

/-! ## What one move does -/

inductive Turned (s : Harness N) (job : Job) : Turn → JobStage → Prop where
  | ask (i : Nat) (c : Participant) (l : UInt64) (hstage : job.stage = .starting i)
      (hi : s.fleet.clients[i]? = some c) (hl : c.stage.session.activeLeaseID = .ok l) :
      Turned s job .ask (.asking ⟨i, l, s.fleet.commandLog.length⟩)
  | busy (a : Asked) (hstage : job.stage = .asking a) : Turned s job .busy (.busy a.client)
  | acquired (a : Asked) (q : Nat) (t : UInt64) (hstage : job.stage = .asking a)
      (hsince : a.since ≤ q) (hacq : AcquiredAt s.fleet.commandLog q job.lockName a.lease t) :
      Turned s job (.acquired q t) (.acquired ⟨a, q, t, s.fleet.now⟩)
  | lost (g : Grant) (a : Turn) (hstage : job.stage = .acquired g) : Turned s job a (.lost g)
  | valid (g : Grant) (hstage : job.stage = .acquired g) : Turned s job .check (.valid g)
  | confirmed (g : Grant) (hstage : job.stage = .valid g) :
      Turned s job .confirm (.confirmed g s.fleet.now)

inductive Moved (s : Harness N) : Act N → Harness N → Prop where
  | fleet (a : Fleet.Act N) (fleet : Fleet N) (hpermits : s.Permits a)
      (hmoved : Fleet.Moved offset s.fleet a fleet) : Moved s (.fleet a) { s with fleet := fleet }
  | invoked (process : Nat) (request : Request)
      (hidle : ∀ job ∈ s.jobs, job.ended = none → job.process ≠ process) :
      Moved s (.invoke process request) { s with
        jobs := s.jobs ++ [⟨process, request, s.fleet.now, .invoked, none⟩]
        history := s.history ++ [⟨some process, .fencedWrite, .invoke,
          ⟨request.resource, none, none, none⟩, s.fleet.now, s.history.length⟩] }
  | started (j : Nat) (job : Job) (p : StartTimes) (fleet : Fleet N)
      (hjob : s.jobs[j]? = some job) (hrunning : job.ended = none) (hstage : job.stage = .invoked)
      (hmoved : Fleet.Moved offset s.fleet (.start p) fleet) :
      Moved s (.start j p) { s with
        fleet := fleet
        jobs := s.jobs.set j (job.withStage (.starting s.fleet.clients.length)) }
  | turned (j : Nat) (job : Job) (a : Turn) (stage : JobStage) (hjob : s.jobs[j]? = some job)
      (hrunning : job.ended = none) (hturned : s.Turned job a stage) :
      Moved s (.turn j a) { s with jobs := s.jobs.set j (job.withStage stage) }
  | written (j : Nat) (job : Job) (g : Grant) (validAt : Int) (hjob : s.jobs[j]? = some job)
      (hrunning : job.ended = none) (hstage : job.stage = .confirmed g validAt) :
      Moved s (.write j) { s with
        registers := Function.update s.registers job.request.resource
          (acceptWrite (s.registers job.request.resource) g.token job.request.value).1
        jobs := s.jobs.set j (job.withStage (.written g validAt
          (acceptWrite (s.registers job.request.resource) g.token job.request.value).2)) }
  | finished (j : Nat) (job : Job) (a : Act N) (type : OpType) (value : OpValue String)
      (hjob : s.jobs[j]? = some job) (hrunning : job.ended = none)
      (hout : job.outcome = some (type, value) ∨ type = .info) :
      Moved s a (s.finish j job type value)
  | nemesis (name : String) :
      Moved s (.nemesis name) { s with history := s.history ++
        [⟨none, .other name, .info, ⟨"", none, none, none⟩, s.fleet.now, s.history.length⟩] }

section Step

variable {offset : N → Int} {s s' : Harness N} {a : Act N}

omit [DecidableEq N] in
theorem running_eq_some {j : Nat} {job : Job} :
    s.running j = some job ↔ s.jobs[j]? = some job ∧ job.ended = none := by
  simp [running, Option.filter_eq_some_iff]

omit [DecidableEq N] in
theorem turned_of_turn {job : Job} {b : Turn} {stage : JobStage} (h : s.turn job b = some stage) :
    s.Turned job b stage := by
  cases b with
  | ask =>
    simp only [turn] at h
    split at h
    · rename_i i hstage
      split at h
      · rename_i times hb hi
        split at h
        · rename_i l hl
          cases h
          exact .ask i _ l hstage hi hl
        · cases h
      · cases h
    · cases h
  | busy =>
    simp only [turn] at h
    split at h
    · rename_i asked hstage
      cases h
      exact .busy asked hstage
    · cases h
  | acquired q t =>
    simp only [turn] at h
    split at h
    · rename_i asked hstage
      obtain ⟨⟨hsince, -, hacq⟩, heq⟩ := Option.ite_none_right_eq_some.mp h
      cases heq
      exact .acquired asked q t hstage hsince hacq
    · cases h
  | check =>
    simp only [turn] at h
    split at h
    · rename_i g hstage
      obtain ⟨c, -, heq⟩ := Option.map_eq_some_iff.mp h
      split at heq <;> cases heq
      · exact .lost g .check hstage
      · exact .valid g hstage
    · cases h
  | exited =>
    simp only [turn] at h
    split at h
    · rename_i g hstage
      cases h
      exact .lost g .exited hstage
    · cases h
  | confirm =>
    simp only [turn] at h
    split at h
    · rename_i g hstage
      cases h
      exact .confirmed g hstage
    · cases h

theorem moved_of_step (h : s.step offset a = some s') : Moved offset s a s' := by
  cases a with
  | fleet a =>
    obtain ⟨hpermits, heq⟩ := Option.ite_none_right_eq_some.mp h
    obtain ⟨fleet, hfleet, rfl⟩ := Option.map_eq_some_iff.mp heq
    exact .fleet a fleet hpermits (Fleet.moved_of_step hfleet)
  | invoke process request =>
    obtain ⟨hidle, heq⟩ := Option.ite_none_right_eq_some.mp h
    cases heq
    exact .invoked process request fun job hjob hnone =>
      hidle job hjob (Option.isNone_iff_eq_none.mpr hnone)
  | start j p =>
    obtain ⟨job, hrunning, heq⟩ := Option.bind_eq_some_iff.mp h
    obtain ⟨hjob, hnone⟩ := running_eq_some.mp hrunning
    split at heq
    · rename_i hstage
      obtain ⟨fleet, hfleet, rfl⟩ := Option.map_eq_some_iff.mp heq
      exact .started j job p fleet hjob hnone hstage (Fleet.moved_of_step hfleet)
    · cases heq
  | turn j a =>
    obtain ⟨job, hrunning, heq⟩ := Option.bind_eq_some_iff.mp h
    obtain ⟨hjob, hnone⟩ := running_eq_some.mp hrunning
    obtain ⟨stage, hstage, rfl⟩ := Option.map_eq_some_iff.mp heq
    exact .turned j job a stage hjob hnone (turned_of_turn hstage)
  | write j =>
    obtain ⟨job, hrunning, heq⟩ := Option.bind_eq_some_iff.mp h
    obtain ⟨hjob, hnone⟩ := running_eq_some.mp hrunning
    split at heq
    · rename_i g validAt hstage
      cases heq
      exact .written j job g validAt hjob hnone hstage
    · cases heq
  | complete j =>
    obtain ⟨job, hrunning, heq⟩ := Option.bind_eq_some_iff.mp h
    obtain ⟨hjob, hnone⟩ := running_eq_some.mp hrunning
    obtain ⟨⟨type, value⟩, hout, rfl⟩ := Option.map_eq_some_iff.mp heq
    exact .finished j job _ type value hjob hnone (Or.inl hout)
  | crash j =>
    obtain ⟨job, hrunning, rfl⟩ := Option.map_eq_some_iff.mp h
    obtain ⟨hjob, hnone⟩ := running_eq_some.mp hrunning
    exact .finished j job _ .info _ hjob hnone (Or.inr rfl)
  | nemesis name =>
    cases h
    exact .nemesis name

end Step

end Harness

end Jepsen

end Clavis
