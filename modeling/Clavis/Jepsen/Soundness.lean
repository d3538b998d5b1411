import Clavis.Jepsen.Harness

/-!
# The checker raises no false alarm

A checker for a distributed system can be wrong in two ways. `Checker` and `Verdict` say what
violations mean. This module says that the system has none: whatever a run of cluster, clients, test
processes and nemesis writes into the history, the checker has nothing to object to, except that too
few operations have succeeded.

* `token_lt_of_unborn`, `tokens_ne` — the fencing law, for two holders with different leases.
* `Job.Ok` — what the fleet says about one job; `Related` — what holds between two jobs. The latter
  has the substance: clients differ, tokens follow real time, and the time at which one holder has
  confirmed its lock comes before the time at which a later holder has got it.
* `Recorded` — every completed operation that the checker's pairing finds is the report of one job.
* `no_false_alarm` — the headline.

The preconditions (`Harness.Suits`) are those of `Fleet`, among them that heartbeat attempts return
by their timeouts; that fewer than `2^64` locks are granted; and one about the test itself.
`invoke!` reads the clock, and writes, a moment after the holder has said that its session is alive;
if the session ends in that moment, the checker may see an overlap that was none. So the session is
required to be still active then, and the clock to have moved since the lock was got, unless the
client is to stall anyway.
-/

namespace Clavis

open Lib

/-! ## Two holders with different leases -/

section Tokens

variable {log : List CommandWrapper} {i j : Nat} {L L' : String} {l l' t t' : UInt64}

theorem lease_of_same_position (h : AcquiredAt log i L l t) (h' : AcquiredAt log i L' l' t') :
    l = l' := by
  obtain ⟨c, hc, -, -, rfl, -⟩ := h
  obtain ⟨c', hc', -, -, rfl, -⟩ := h'
  rw [hc] at hc'
  cases hc'
  rfl

theorem token_lt_of_later (hgrants : Machine.new.grantCount log < 2 ^ 64) (hij : i < j)
    (hl : l ≠ l') (h : AcquiredAt log i L l t) (h' : AcquiredAt log j L l' t') : t < t' := by
  obtain ⟨hle, heq⟩ := same_lock_tokens hgrants hij h h'
  exact UInt64.lt_of_le_of_ne hle fun ht => hl (heq.mp ht).1

theorem tokens_ne (hgrants : Machine.new.grantCount log < 2 ^ 64) (hl : l ≠ l')
    (h : AcquiredAt log i L l t) (h' : AcquiredAt log j L' l' t') : t ≠ t' := by
  by_cases hL : L = L'
  · subst hL
    rcases Nat.lt_trichotomy i j with hij | rfl | hji
    · exact UInt64.ne_of_lt (token_lt_of_later hgrants hij hl h h')
    · exact absurd (lease_of_same_position h h') hl
    · exact (UInt64.ne_of_lt (token_lt_of_later hgrants hji hl.symm h' h)).symm
  · rcases Nat.le_total i j with hij | hji
    · exact distinct_locks_tokens hgrants hij hL h h'
    · exact (distinct_locks_tokens hgrants hji (Ne.symm hL) h' h).symm

/-- **Tokens follow the age of leases.** A lease that is not yet there when another one gets a lock
gets higher tokens, on whatever lock. -/
theorem token_lt_of_unborn (hgrants : Machine.new.grantCount log < 2 ^ 64)
    (h : AcquiredAt log i L l t) (h' : AcquiredAt log j L' l' t')
    (hunborn : ∀ k ≤ i + 1, (stateAt log k).getLease l' = none) : t < t' := by
  -- a lock of the lease at such a position would be one of a lease that is not there
  have hnone : ∀ k ≤ i + 1, ∀ lock, (stateAt log k).getLock L' = some lock →
      lock.leaseID ≠ l' := by
    intro k hk lock hlock hid
    have hsome : ((stateAt log k).getLease lock.leaseID).isSome := anchored_replay _ L' lock hlock
    rw [hid, hunborn k hk] at hsome
    cases hsome
  rcases later_token_cases hgrants h h' with hlt | ⟨lock, -, hid, hall⟩
  · exact hlt
  · by_cases hij : i < j
    · exact absurd hid (hnone (i + 1) (le_refl _) lock (hall (i + 1) (by omega) (by omega)))
    · obtain ⟨lock', hlock', -, hid'⟩ := h'.getLock
      exact absurd hid' (hnone (j + 1) (by omega) lock' hlock')

end Tokens

namespace Fleet

variable {N : Type} {offset : N → Int} {s : Fleet N}

/-- While the session that has got a lock is active, nobody else has got it later. -/
theorem Ok.acquired_before (h : Ok offset s) {c : Participant} (hc : c ∈ s.clients)
    (hactive : c.stage.session.Active) {L : String} {l' t t' : UInt64} {i j : Nat}
    (hacq : AcquiredAt s.commandLog i L c.leaseID t)
    (hrel : ∀ k cmd, i < k → s.commandLog[k]? = some cmd → ¬ cmd.Releases L c.leaseID)
    (hacq' : AcquiredAt s.commandLog j L l' t') (hne : c.leaseID ≠ l') : j < i := by
  by_contra hle
  rcases Nat.lt_or_eq_of_le (Nat.le_of_not_lt hle) with hij | rfl
  · have hholder := hacq.holder hrel (h.not_expires_of_active hc hactive)
      (show i + 1 ≤ j + 1 by omega)
    obtain ⟨lock, hlock, -, rfl⟩ := hacq'.getLock
    have hholder' := Machine.holder_eq_some.mpr ⟨lock, hlock, rfl⟩
    exact hne (Option.some.inj (hholder.symm.trans hholder'))
  · exact hne (lease_of_same_position hacq hacq')

end Fleet

namespace Jepsen

/-! ## One job -/

theorem JobStage.asked_of_grant {stage : JobStage} {g : Grant} (h : stage.grant = some g) :
    stage.asked = some g.toAsked := by
  cases stage <;> cases h <;> rfl

theorem JobStage.client_of_asked {stage : JobStage} {a : Asked} (h : stage.asked = some a) :
    stage.client = some a.client := by
  cases stage <;> cases h <;> rfl

/-- What the fleet says about a job. -/
structure Job.Ok {N : Type} (f : Fleet N) (job : Job) : Prop where
  invoked_le : job.invokedAt ≤ f.now
  /-- The holder started after the invocation, -/
  client : ∀ i, job.stage.client = some i →
    ∃ c : Participant, f.clients[i]? = some c ∧ job.invokedAt ≤ c.times.createSentAt
  /-- has asked with the lease of its session, -/
  asked : ∀ a, job.stage.asked = some a →
    ∃ c : Participant, f.clients[a.client]? = some c ∧ c.leaseID = a.lease ∧ a.lease ≠ 0
  /-- has not released the lock before it was told to, -/
  kept : job.releasing = false → ∀ a, job.stage.asked = some a → ∀ k cmd, a.since ≤ k →
    f.commandLog[k]? = some cmd → ¬ cmd.Releases job.lockName a.lease
  /-- and has got its token from the log. -/
  grant : ∀ g, job.stage.grant = some g → g.since ≤ g.position ∧
    AcquiredAt f.commandLog g.position job.lockName g.lease g.token ∧ g.acquiredAt ≤ f.now
  interval : job.request.pause = false → ∀ g v, job.stage.grant = some g →
    job.stage.validAt = some v → g.acquiredAt < v ∧ v ≤ f.now
  /-- Only a client that has stalled is fenced off. -/
  prompt : ∀ g v, job.stage = .written g v false → job.request.pause = true
  /-- The leases there were when the job got its lock are older than its completion. -/
  settled : ∀ e g, job.ended = some e → job.stage.grant = some g → ∀ k ≤ g.position + 1,
    ∀ id lease, (stateAt f.commandLog k).getLease id = some lease →
      ∃ b, f.cluster.world.book id = some b ∧ b.born ≤ e.time

section Job

variable {N : Type} {f f' : Fleet N} {job : Job} {suf : List CommandWrapper}

theorem Job.Ok.grows (h : job.Ok f) (hgrows : f.Grows f' suf)
    (hquiet : ∀ cmd ∈ suf, job.releasing = false → ∀ a ∈ job.stage.asked,
      ¬ cmd.Releases job.lockName a.lease) : job.Ok f' where
  invoked_le := h.invoked_le.trans hgrows.now_le
  client := by
    intro i hi
    obtain ⟨c, hc, hle⟩ := h.client i hi
    obtain ⟨c', hc', htimes, -⟩ := hgrows.clients i c hc
    exact ⟨c', hc', htimes ▸ hle⟩
  asked := by
    intro a ha
    obtain ⟨c, hc, hid, hne⟩ := h.asked a ha
    obtain ⟨c', hc', -, hlease⟩ := hgrows.clients a.client c hc
    exact ⟨c', hc', (hlease (hid ▸ hne)).trans hid, hne⟩
  kept := by
    intro hrel a ha k cmd hk hcmd
    rw [hgrows.log, List.getElem?_append] at hcmd
    split at hcmd
    · exact h.kept hrel a ha k cmd hk hcmd
    · exact hquiet cmd (List.mem_of_getElem? hcmd) hrel a ha
  grant := by
    intro g hg
    obtain ⟨hsince, hacq, hle⟩ := h.grant g hg
    rw [hgrows.log]
    exact ⟨hsince, hacq.append suf, hle.trans hgrows.now_le⟩
  interval := by
    intro hpause g v hg hv
    obtain ⟨hlt, hle⟩ := h.interval hpause g v hg hv
    exact ⟨hlt, hle.trans hgrows.now_le⟩
  prompt := h.prompt
  settled := by
    intro e g he hg k hk id lease hlease
    obtain ⟨-, ⟨c, hc, -⟩, -⟩ := h.grant g hg
    have hlt := (List.getElem?_eq_some_iff.mp hc).1
    rw [hgrows.log, stateAt_append (by omega)] at hlease
    obtain ⟨b, hb, hle⟩ := h.settled e g he hg k hk id lease hlease
    exact ⟨b, hgrows.book id b hb, hle⟩

end Job

/-! ## Two jobs -/

/-- What holds between two jobs. -/
structure Related (a b : Job) : Prop where
  clients : ∀ i, a.stage.client = some i → b.stage.client ≠ some i
  processes : a.ended = none → b.ended = none → a.process ≠ b.process
  /-- Tokens follow real time. -/
  order : ∀ e ga gb, a.ended = some e → a.stage.grant = some ga → b.stage.grant = some gb →
    e.time < b.invokedAt → ga.token < gb.token
  /-- A later holder got the lock after an earlier one had confirmed that it held it. -/
  apart : a.request.pause = false → a.request.resource = b.request.resource →
    ∀ ga gb v, a.stage.grant = some ga → b.stage.grant = some gb → ga.position < gb.position →
      a.stage.validAt = some v → v ≤ gb.acquiredAt

section Related

variable {a b : Job} {stage : JobStage}

theorem Related.left (h : Related a b) (hclient : stage.client = a.stage.client)
    (hgrant : stage.grant = a.stage.grant) (hvalid : stage.validAt = a.stage.validAt) :
    Related (a.withStage stage) b where
  clients i hi := h.clients i (hclient ▸ hi)
  processes := h.processes
  order e ga gb he hga := h.order e ga gb he (hgrant ▸ hga)
  apart hpause hres ga gb v hga hgb hlt hv :=
    h.apart hpause hres ga gb v (hgrant ▸ hga) hgb hlt (hvalid ▸ hv)

theorem Related.right (h : Related a b) (hclient : stage.client = b.stage.client)
    (hgrant : stage.grant = b.stage.grant) : Related a (b.withStage stage) where
  clients i hi := by
    show stage.client ≠ some i
    rw [hclient]
    exact h.clients i hi
  processes := h.processes
  order e ga gb he hga hgb := h.order e ga gb he hga (hgrant ▸ hgb)
  apart hpause hres ga gb v hga hgb := h.apart hpause hres ga gb v hga (hgrant ▸ hgb)

end Related

section Pair

variable {N : Type} {offset : N → Int} {f : Fleet N} {a b : Job}

/-- Different jobs have different leases. -/
theorem lease_ne (hf : Fleet.Ok offset f) (ha : a.Ok f) (hb : b.Ok f)
    (hclients : ∀ i, a.stage.client = some i → b.stage.client ≠ some i) {x y : Asked}
    (hx : a.stage.asked = some x) (hy : b.stage.asked = some y) : x.lease ≠ y.lease := by
  obtain ⟨c, hc, hid, hne⟩ := ha.asked x hx
  obtain ⟨c', hc', hid', -⟩ := hb.asked y hy
  rw [← hid] at hne ⊢
  rw [← hid']
  refine hf.distinct x.client y.client c c' hc hc' ?_ hne
  intro heq
  exact hclients x.client (JobStage.client_of_asked hx)
    (heq ▸ JobStage.client_of_asked hy)

/-- A job that was completed before another one was invoked has the lower token. -/
theorem token_lt_of_completed (hdated : f.Dated)
    (hgrants : Machine.new.grantCount f.commandLog < 2 ^ 64) (ha : a.Ok f) (hb : b.Ok f)
    {e : Ending} {ga gb : Grant} (he : a.ended = some e) (hga : a.stage.grant = some ga)
    (hgb : b.stage.grant = some gb) (hlt : e.time < b.invokedAt) : ga.token < gb.token := by
  obtain ⟨-, hacq, -⟩ := ha.grant ga hga
  obtain ⟨-, hacq', -⟩ := hb.grant gb hgb
  refine token_lt_of_unborn hgrants hacq hacq' ?_
  intro k hk
  rw [Option.eq_none_iff_forall_ne_some]
  intro lease hlease
  -- the lease was there at the time of `a`, but its client asked for it later
  obtain ⟨x, hx, hborn⟩ := ha.settled e ga he hga k hk _ lease hlease
  have hasked := JobStage.asked_of_grant hgb
  obtain ⟨c, hc, hsent⟩ := hb.client gb.client (JobStage.client_of_asked hasked)
  obtain ⟨c', hc', hid, hne⟩ := hb.asked gb.toAsked hasked
  obtain rfl := Option.some.inj (hc.symm.trans hc')
  obtain ⟨x', hx', hle⟩ := hdated.sent_le c (List.mem_of_getElem? hc) (hid ▸ hne)
  rw [hid, hx] at hx'
  cases hx'
  omega

/-- A job whose session is active is the last one to have got its lock. -/
theorem position_lt_of_active (hf : Fleet.Ok offset f) (ha : a.Ok f) (hb : b.Ok f)
    (hclients : ∀ i, a.stage.client = some i → b.stage.client ≠ some i)
    (hrel : a.releasing = false) (hres : a.request.resource = b.request.resource) {ga gb : Grant}
    (hga : a.stage.grant = some ga) (hgb : b.stage.grant = some gb)
    (hactive : ∀ c ∈ f.clients[ga.client]?, c.stage.session.Active) :
    gb.position < ga.position := by
  have hasked := JobStage.asked_of_grant hga
  have hne := lease_ne hf ha hb hclients hasked (JobStage.asked_of_grant hgb)
  obtain ⟨c, hc, hid, -⟩ := ha.asked ga.toAsked hasked
  obtain ⟨hsince, hacq, -⟩ := ha.grant ga hga
  obtain ⟨-, hacq', -⟩ := hb.grant gb hgb
  have hname : b.lockName = a.lockName := by rw [Job.lockName, Job.lockName, hres]
  rw [hname] at hacq'
  rw [← hid] at hne hacq
  refine hf.acquired_before (List.mem_of_getElem? hc) (hactive c hc) hacq ?_ hacq' hne
  intro k cmd hk hcmd
  rw [hid]
  exact ha.kept hrel ga.toAsked hasked k cmd (by omega) hcmd

end Pair

/-! ## The history -/

/-- The history tells of the jobs. -/
structure Recorded (jobs : List Job) (history : List (HistoryOp (Option Nat) String)) : Prop where
  pending : ∀ job ∈ jobs, job.ended = none →
    ((paired history).pending (some job.process, .fencedWrite)).map HistoryOp.time
      = some job.invokedAt
  completed : ∀ c ∈ completedOps history,
    ∃ (i : Nat) (job : Job), jobs[i]? = some job ∧ job.report = some c
  indices : (completedOps history).Pairwise fun a b => a.data.completeIndex ≠ b.data.completeIndex
  index_lt : ∀ c ∈ completedOps history, c.data.completeIndex < history.length

section Recorded

variable {jobs : List Job} {history : List (HistoryOp (Option Nat) String)} {j : Nat} {job : Job}

theorem recorded_nil : Recorded [] [] where
  pending := by
    intro job hjob
    cases hjob
  completed := by
    intro c hc
    cases hc
  indices := List.Pairwise.nil
  index_lt := by
    intro c hc
    cases hc

theorem Job.report_of_running (h : job.ended = none) : job.report = none := by
  rw [Job.report, h, Option.bind_none]

/-- A job that is not completed moves on. -/
theorem Recorded.withStage (h : Recorded jobs history) (hj : jobs[j]? = some job)
    (hrunning : job.ended = none) (stage : JobStage) :
    Recorded (jobs.set j (job.withStage stage)) history where
  pending := by
    intro job' hjob' hnone
    rcases List.mem_or_eq_of_mem_set hjob' with hold | rfl
    · exact h.pending job' hold hnone
    · exact h.pending job (List.mem_of_getElem? hj) hrunning
  completed := by
    intro c hc
    obtain ⟨i, job', hi, hreport⟩ := h.completed c hc
    refine ⟨i, job', ?_, hreport⟩
    rw [List.getElem?_set_ne, hi]
    rintro rfl
    obtain rfl := Option.some.inj (hj.symm.trans hi)
    rw [Job.report_of_running hrunning] at hreport
    cases hreport
  indices := h.indices
  index_lt := h.index_lt

/-- An operation that completes nothing. -/
theorem Recorded.concat (h : Recorded jobs history) {op : HistoryOp (Option Nat) String}
    (hop : op.type = .invoke ∨ op.type = .info) {jobs' : List Job}
    (hpending : ∀ job ∈ jobs', job.ended = none →
      ((paired (history ++ [op])).pending (some job.process, .fencedWrite)).map HistoryOp.time
        = some job.invokedAt)
    (hcompleted : ∀ (i : Nat) (job : Job) c, jobs[i]? = some job → job.report = some c →
      ∃ job', jobs'[i]? = some job' ∧ job'.report = some c) :
    Recorded jobs' (history ++ [op]) := by
  have hsame : completedOps (history ++ [op]) = completedOps history := by
    rw [completedOps_concat, if_neg, List.append_nil]
    rintro ⟨hok | hfail, -⟩ <;> rcases hop with hop | hop <;> simp_all
  refine ⟨hpending, ?_, hsame ▸ h.indices, ?_⟩
  · intro c hc
    obtain ⟨i, job, hi, hreport⟩ := h.completed c (hsame ▸ hc)
    obtain ⟨job', hi', hreport'⟩ := hcompleted i job c hi hreport
    exact ⟨i, job', hi', hreport'⟩
  · intro c hc
    have hlt := h.index_lt c (hsame ▸ hc)
    rw [List.length_append]
    omega

theorem Recorded.nemesis (h : Recorded jobs history) {op : HistoryOp (Option Nat) String}
    (htype : op.type = .info) (hprocess : op.process = none) :
    Recorded jobs (history ++ [op]) := by
  refine h.concat (Or.inr htype) ?_ fun i job c hi hreport => ⟨job, hi, hreport⟩
  intro job hjob hnone
  rw [pending_concat_of_ne]
  · exact h.pending job hjob hnone
  · rw [hprocess]
    exact fun heq => nomatch congrArg Prod.fst heq

theorem Recorded.invoked (h : Recorded jobs history) {op : HistoryOp (Option Nat) String}
    (htype : op.type = .invoke) (hf : op.f = .fencedWrite)
    (hprocess : op.process = some job.process) (htime : op.time = job.invokedAt)
    (hidle : ∀ job' ∈ jobs, job'.ended = none → job'.process ≠ job.process) :
    Recorded (jobs ++ [job]) (history ++ [op]) := by
  refine h.concat (Or.inl htype) ?_ ?_
  · intro job' hjob' hnone
    rcases List.mem_append.mp hjob' with hold | hnew
    · rw [pending_concat_of_ne]
      · exact h.pending job' hold hnone
      · rw [hprocess]
        exact fun heq => hidle job' hold hnone (Option.some.inj (congrArg Prod.fst heq))
    · rw [List.mem_singleton.mp hnew, ← hprocess, ← hf, pending_concat_invoke htype, ← htime]
      rfl
  · intro i job' c hi hreport
    exact ⟨job', by rw [List.getElem?_append_left (List.getElem?_eq_some_iff.mp hi).1, hi], hreport⟩

theorem Job.Completes.resource_eq {type : OpType} {value : OpValue String}
    (h : job.Completes type value) : value.resource = job.request.resource := by
  cases h <;> rfl

theorem Job.Completes.type_cases {type : OpType} {value : OpValue String}
    (h : job.Completes type value) : type = .ok ∨ type = .fail := by
  cases h with
  | accepted => exact Or.inl rfl
  | busy | lost | refused => exact Or.inr rfl

/-- A job is completed, with its outcome or without one. -/
theorem Recorded.finished (h : Recorded jobs history) (hj : jobs[j]? = some job)
    (hrunning : job.ended = none) {type : OpType} {value : OpValue String} {now : Int}
    (hout : job.outcome = some (type, value) ∨ type = .info)
    (hothers : ∀ i job', i ≠ j → jobs[i]? = some job' → job'.ended = none →
      job'.process ≠ job.process) :
    Recorded (jobs.set j { job with ended := some ⟨history.length, now⟩ })
      (history ++ [⟨some job.process, .fencedWrite, type, value, now, history.length⟩]) := by
  have hlt : j < jobs.length := (List.getElem?_eq_some_iff.mp hj).1
  have hkept : ∀ (i : Nat) (job' : Job) c, jobs[i]? = some job' → job'.report = some c →
      ∃ job'', (jobs.set j { job with ended := some ⟨history.length, now⟩ })[i]? = some job'' ∧
        job''.report = some c := by
    intro i job' c hi hreport
    refine ⟨job', ?_, hreport⟩
    rw [List.getElem?_set_ne, hi]
    rintro rfl
    obtain rfl := Option.some.inj (hj.symm.trans hi)
    rw [Job.report_of_running hrunning] at hreport
    cases hreport
  have hpending : ∀ job' ∈ jobs.set j { job with ended := some ⟨history.length, now⟩ },
      job'.ended = none → ((paired (history ++
        [⟨some job.process, .fencedWrite, type, value, now, history.length⟩])).pending
          (some job'.process, .fencedWrite)).map HistoryOp.time = some job'.invokedAt := by
    intro job' hjob' hnone
    obtain ⟨i, hi⟩ := List.mem_iff_getElem?.mp hjob'
    by_cases hij : j = i
    · subst hij
      rw [List.getElem?_set_self hlt] at hi
      cases hi
      cases hnone
    · rw [List.getElem?_set_ne hij] at hi
      rw [pending_concat_of_ne]
      · exact h.pending job' (List.mem_of_getElem? hi) hnone
      · exact fun heq => hothers i job' (Ne.symm hij) hi hnone
          (Option.some.inj (congrArg Prod.fst heq))
  rcases hout with hout | hinfo
  · have hlast : completedOps (history ++
        [⟨some job.process, .fencedWrite, type, value, now, history.length⟩])
          = completedOps history ++ [HistoryOp.completed
            ⟨some job.process, .fencedWrite, type, value, now, history.length⟩
            ((paired history).pending (some job.process, .fencedWrite))] := by
      rw [completedOps_concat, if_pos ⟨(Job.completes_of_outcome hout).type_cases, rfl⟩]
    refine ⟨hpending, ?_, ?_, ?_⟩
    · intro c hc
      rw [hlast, List.mem_append, List.mem_singleton] at hc
      rcases hc with hold | rfl
      · obtain ⟨i, job', hi, hreport⟩ := h.completed c hold
        exact ⟨i, hkept i job' c hi hreport⟩
      · refine ⟨j, _, List.getElem?_set_self hlt, ?_⟩
        have htime := h.pending job (List.mem_of_getElem? hj) hrunning
        have hout' : Job.outcome { job with ended := some ⟨history.length, now⟩ }
            = some (type, value) := hout
        simp only [Job.report, Option.bind_some, hout', Option.map_some, HistoryOp.completed, htime]
    · rw [hlast, List.pairwise_append]
      refine ⟨h.indices, List.pairwise_singleton .., ?_⟩
      intro c hc c' hc'
      rw [List.mem_singleton.mp hc']
      exact Nat.ne_of_lt (h.index_lt c hc)
    · intro c hc
      rw [hlast, List.mem_append, List.mem_singleton] at hc
      rw [List.length_append, List.length_singleton]
      rcases hc with hold | rfl
      · exact Nat.lt_succ_of_lt (h.index_lt c hold)
      · exact Nat.lt_succ_self _
  · exact h.concat (Or.inr hinfo) hpending hkept

end Recorded

/-- A token that a register has stored is that of a job. -/
def WrittenBy (jobs : List Job) (r : String) (t : UInt64) : Prop :=
  ∃ (i : Nat) (job : Job) (g : Grant) (v : Int), jobs[i]? = some job ∧ job.request.resource = r ∧
    job.stage = .written g v true ∧ g.token = t

section WrittenBy

variable {jobs : List Job} {r : String} {t : UInt64}

theorem WrittenBy.set (h : WrittenBy jobs r t) {j : Nat} {job job' : Job} (hj : jobs[j]? = some job)
    (hkeep : ∀ g v, job.stage = .written g v true →
      job'.request = job.request ∧ job'.stage = job.stage) : WrittenBy (jobs.set j job') r t := by
  obtain ⟨i, x, g, v, hi, hres, hstage, htoken⟩ := h
  by_cases hij : j = i
  · subst hij
    obtain rfl := Option.some.inj (hj.symm.trans hi)
    obtain ⟨hreq, hstage'⟩ := hkeep g v hstage
    refine ⟨j, job', g, v, List.getElem?_set_self (List.getElem?_eq_some_iff.mp hj).1, ?_, ?_,
      htoken⟩
    · rw [hreq, hres]
    · rw [hstage', hstage]
  · exact ⟨i, x, g, v, by rw [List.getElem?_set_ne hij, hi], hres, hstage, htoken⟩

theorem WrittenBy.concat (h : WrittenBy jobs r t) (job : Job) : WrittenBy (jobs ++ [job]) r t := by
  obtain ⟨i, x, g, v, hi, hrest⟩ := h
  exact ⟨i, x, g, v,
    by rw [List.getElem?_append_left (List.getElem?_eq_some_iff.mp hi).1, hi], hrest⟩

end WrittenBy

namespace Harness

/-! ## The invariant -/

variable {N : Type}

structure Ok (offset : N → Int) (s : Harness N) : Prop where
  fleet : Fleet.Ok offset s.fleet
  dated : s.fleet.Dated
  grants : Machine.new.grantCount s.fleet.commandLog < 2 ^ 64
  jobs : ∀ job ∈ s.jobs, job.Ok s.fleet
  related : Apart Related s.jobs
  registers : ∀ r reg, s.registers r = some reg → WrittenBy s.jobs r reg.token
  recorded : Recorded s.jobs s.history

/-- The holder of job `j`, which is not to stall, has an active session, and some time has passed
since it got its lock. -/
def Prompt (s : Harness N) (j : Nat) : Prop :=
  ∀ job ∈ s.jobs[j]?, job.request.pause = false → ∀ g ∈ job.stage.grant,
    g.acquiredAt < s.fleet.now ∧ ∀ c ∈ s.fleet.clients[g.client]?, c.stage.session.Active

instance (s : Harness N) (j : Nat) : Decidable (s.Prompt j) :=
  have (g : Grant) : Decidable (∀ c ∈ s.fleet.clients[g.client]?, c.stage.session.Active) :=
    Option.decidableForallMem _
  have (job : Job) : Decidable (∀ g ∈ job.stage.grant, g.acquiredAt < s.fleet.now ∧
      ∀ c ∈ s.fleet.clients[g.client]?, c.stage.session.Active) := Option.decidableForallMem _
  Option.decidableForallMem _

/-- The preconditions: those of the fleet, fewer than `2^64` grants, and holders whose sessions
last from `check` to the write. -/
def Suits (s : Harness N) : Act N → Prop
  | .fleet a => s.fleet.Suits a ∧
      Machine.new.grantCount (s.fleet.commandLog ++ a.committed) < 2 ^ 64
  | .start _ p => p.Quick
  | .turn j .confirm => s.Prompt j
  | .write j => s.Prompt j
  | _ => True

instance (s : Harness N) : (a : Act N) → Decidable (s.Suits a)
  | .fleet _ => inferInstanceAs (Decidable (_ ∧ _))
  | .start _ p => inferInstanceAs (Decidable p.Quick)
  | .turn j .confirm => inferInstanceAs (Decidable (s.Prompt j))
  | .write j => inferInstanceAs (Decidable (s.Prompt j))
  | .turn _ .ask => isTrue trivial
  | .turn _ .busy => isTrue trivial
  | .turn _ (.acquired _ _) => isTrue trivial
  | .turn _ .check => isTrue trivial
  | .turn _ .exited => isTrue trivial
  | .invoke _ _ => isTrue trivial
  | .complete _ => isTrue trivial
  | .crash _ => isTrue trivial
  | .nemesis _ => isTrue trivial

section Ok

variable {offset : N → Int} {s s' : Harness N} {j : Nat} {job : Job}

/-- One job is replaced; what is to be shown concerns that job only. -/
theorem Ok.set_job (h : Ok offset s) (hj : s.jobs[j]? = some job) {job' : Job}
    (hok : job'.Ok s.fleet)
    (hrelated : ∀ i x, i ≠ j → s.jobs[i]? = some x → Related x job' ∧ Related job' x) :
    (∀ x ∈ s.jobs.set j job', x.Ok s.fleet) ∧ Apart Related (s.jobs.set j job') := by
  refine ⟨?_, h.related.set hj hrelated⟩
  intro x hx
  rcases List.mem_or_eq_of_mem_set hx with hold | rfl
  · exact h.jobs x hold
  · exact hok

theorem Ok.invoked (h : Ok offset s) {process : Nat} (request : Request)
    (hidle : ∀ job ∈ s.jobs, job.ended = none → job.process ≠ process) :
    Ok offset { s with
      jobs := s.jobs ++ [⟨process, request, s.fleet.now, .invoked, none⟩]
      history := s.history ++ [⟨some process, .fencedWrite, .invoke,
        ⟨request.resource, none, none, none⟩, s.fleet.now, s.history.length⟩] } where
  fleet := h.fleet
  dated := h.dated
  grants := h.grants
  jobs := by
    intro x hx
    rcases List.mem_append.mp hx with hold | hnew
    · exact h.jobs x hold
    · rw [List.mem_singleton.mp hnew]
      exact ⟨le_refl _, nofun, nofun, nofun, nofun, nofun, nofun, nofun⟩
  related := by
    refine h.related.concat ?_
    intro x hx
    exact ⟨⟨nofun, fun hnone _ => hidle x hx hnone, nofun, nofun⟩,
      ⟨nofun, fun _ hnone => (hidle x hx hnone).symm, nofun, nofun⟩⟩
  registers r reg hreg := (h.registers r reg hreg).concat _
  recorded := h.recorded.invoked rfl rfl rfl rfl hidle

theorem Turned.client_eq {a : Turn} {stage : JobStage} (h : s.Turned job a stage) :
    stage.client = job.stage.client := by
  cases h with
  | ask i c l hstage | busy a hstage | acquired a q t hstage | lost g _ hstage | valid g hstage
  | confirmed g hstage =>
    rw [hstage]
    rfl

theorem Ok.job_turned (h : Ok offset s) (hj : s.jobs[j]? = some job) (hrunning : job.ended = none)
    {a : Turn} {stage : JobStage} (hturned : s.Turned job a stage)
    (hsuits : s.Suits (.turn j a)) : (job.withStage stage).Ok s.fleet := by
  have hjob := h.jobs job (List.mem_of_getElem? hj)
  have hended : ∀ e, (job.withStage stage).ended ≠ some e := fun e he => by
    rw [Job.withStage, hrunning] at he
    cases he
  refine ⟨hjob.invoked_le, ?_, ?_, ?_, ?_, ?_, ?_, fun e g he => absurd he (hended e)⟩
  · intro i hi
    exact hjob.client i (hturned.client_eq ▸ hi)
  · cases hturned with
    | ask i c l hstage hi hl =>
      intro x hx
      cases hx
      obtain ⟨-, hid, hne⟩ := Session.activeLeaseID_eq_ok.mp hl
      exact ⟨c, hi, hid, hne⟩
    | busy => nofun
    | acquired a q t hstage =>
      intro x hx
      cases hx
      exact hjob.asked a (by rw [hstage]; rfl)
    | lost g _ hstage | valid g hstage | confirmed g hstage =>
      exact fun x hx => hjob.asked x (by rw [hstage]; exact hx)
  · intro _
    cases hturned with
    | ask i c l hstage hi hl =>
      -- nothing has been committed since
      intro x hx k cmd hk hcmd
      cases hx
      have hlt := (List.getElem?_eq_some_iff.mp hcmd).1
      exact absurd hk (Nat.not_le_of_lt hlt)
    | busy => nofun
    | acquired a q t hstage =>
      intro x hx
      cases hx
      exact hjob.kept (by rw [Job.releasing, hstage]) a (by rw [hstage]; rfl)
    | lost g _ hstage | valid g hstage | confirmed g hstage =>
      exact fun x hx => hjob.kept (by rw [Job.releasing, hstage]) x (by rw [hstage]; exact hx)
  · cases hturned with
    | ask => nofun
    | busy => nofun
    | acquired a q t hstage hsince hacq =>
      intro g hg
      cases hg
      exact ⟨hsince, hacq, le_refl _⟩
    | lost g _ hstage | valid g hstage | confirmed g hstage =>
      exact fun x hx => hjob.grant x (by rw [hstage]; exact hx)
  · cases hturned with
    | ask | busy | acquired | lost | valid => nofun
    | confirmed g hstage =>
      intro hpause x v hx hv
      cases hx
      cases hv
      have hprompt := hsuits job hj hpause g (by rw [hstage]; rfl)
      exact ⟨hprompt.1, le_refl _⟩
  · cases hturned <;> nofun

theorem Ok.related_turned (h : Ok offset s) (hj : s.jobs[j]? = some job)
    (hrunning : job.ended = none) {a : Turn} {stage : JobStage} (hturned : s.Turned job a stage)
    (hsuits : s.Suits (.turn j a)) {i : Nat} {x : Job} (hij : i ≠ j) (hi : s.jobs[i]? = some x) :
    Related x (job.withStage stage) ∧ Related (job.withStage stage) x := by
  have hleft := h.related j i job x hj hi (Ne.symm hij)
  have hright := h.related i j x job hi hj hij
  have hx := h.jobs x (List.mem_of_getElem? hi)
  have hjob := h.jobs job (List.mem_of_getElem? hj)
  have hjob' := h.job_turned hj hrunning hturned hsuits
  have hclient := hturned.client_eq
  have hended : ∀ e, (job.withStage stage).ended ≠ some e := fun e he => by
    rw [Job.withStage, hrunning] at he
    cases he
  have hclients : ∀ i, stage.client = some i → x.stage.client ≠ some i := fun i hi =>
    hleft.clients i (hclient ▸ hi)
  have hclients' : ∀ i, x.stage.client = some i → stage.client ≠ some i := fun i hi =>
    hclient ▸ hright.clients i hi
  cases hturned with
  | ask i c l hstage | busy a hstage | lost g _ hstage | valid g hstage =>
    exact ⟨hright.right hclient (by rw [hstage]; rfl),
      hleft.left hclient (by rw [hstage]; rfl) (by rw [hstage]; rfl)⟩
  | acquired a q t hstage hsince hacq =>
    refine ⟨⟨hclients', hright.processes, ?_, ?_⟩,
      ⟨hclients, hleft.processes, fun e _ _ he => absurd he (hended e), nofun⟩⟩
    · intro e ga gb he hga hgb hlt
      exact token_lt_of_completed h.dated h.grants hx hjob' he hga hgb hlt
    · -- what has been confirmed so far has been confirmed by now
      intro hpause _ ga gb v hga hgb _ hv
      cases hgb
      exact (hx.interval hpause ga v hga hv).2
  | confirmed g hstage =>
    refine ⟨hright.right hclient (by rw [hstage]; rfl),
      ⟨hclients, hleft.processes, fun e _ _ he => absurd he (hended e), ?_⟩⟩
    -- the session is active, so there is no later holder
    intro hpause hres ga gb v hga hgb hlt _
    have hga' : job.stage.grant = some ga := by rw [hstage]; exact hga
    have hbefore := position_lt_of_active h.fleet hjob hx hleft.clients
      (by rw [Job.releasing, hstage]) hres hga' hgb (hsuits job hj hpause ga hga').2
    omega

theorem Ok.turned (h : Ok offset s) (hj : s.jobs[j]? = some job) (hrunning : job.ended = none)
    {a : Turn} {stage : JobStage} (hturned : s.Turned job a stage) (hsuits : s.Suits (.turn j a)) :
    Ok offset { s with jobs := s.jobs.set j (job.withStage stage) } := by
  obtain ⟨hjobs, hrelated⟩ := h.set_job hj (h.job_turned hj hrunning hturned hsuits)
    fun i x hij hi => h.related_turned hj hrunning hturned hsuits hij hi
  refine ⟨h.fleet, h.dated, h.grants, hjobs, hrelated, ?_, h.recorded.withStage hj hrunning stage⟩
  intro r reg hreg
  refine (h.registers r reg hreg).set hj ?_
  -- a job that has written takes no turn
  intro g v hwritten
  cases hturned with
  | ask i c l hstage | busy a hstage | acquired a q t hstage | lost g' _ hstage | valid g' hstage
  | confirmed g' hstage =>
    rw [hstage] at hwritten
    cases hwritten

/-- **A holder with an active session is not fenced off.** Every token that its register has seen
is that of an earlier tenure. -/
theorem Ok.accepted (h : Ok offset s) (hj : s.jobs[j]? = some job) {g : Grant} {validAt : Int}
    (hstage : job.stage = .confirmed g validAt) (hpause : job.request.pause = false)
    (hprompt : s.Prompt j) :
    (acceptWrite (s.registers job.request.resource) g.token job.request.value).2 = true := by
  have hjob := h.jobs job (List.mem_of_getElem? hj)
  have hg : job.stage.grant = some g := by rw [hstage]; rfl
  obtain ⟨-, hacq, -⟩ := hjob.grant g hg
  suffices hlt : ((s.registers job.request.resource).map Register.token).getD 0 < g.token by
    rw [acceptWrite, if_pos hlt]
  cases hreg : s.registers job.request.resource with
  | none =>
    obtain ⟨lock, hlock, htoken, -⟩ := hacq.getLock
    have hpos := ((fenced_stateAt h.grants (g.position + 1)).token_range _ lock hlock).1
    rw [htoken, UInt64.le_iff_toNat_le] at hpos
    rw [Option.map_none, Option.getD_none, UInt64.lt_iff_toNat_lt]
    exact hpos
  | some reg =>
    obtain ⟨i, x, gx, v, hi, hres, hwritten, htoken⟩ := h.registers _ reg hreg
    have hij : j ≠ i := by
      rintro rfl
      obtain rfl := Option.some.inj (hj.symm.trans hi)
      rw [hstage] at hwritten
      cases hwritten
    have hx := h.jobs x (List.mem_of_getElem? hi)
    have hgx : x.stage.grant = some gx := by rw [hwritten]; rfl
    have hclients := (h.related j i job x hj hi hij).clients
    have hbefore := position_lt_of_active h.fleet hjob hx hclients
      (by rw [Job.releasing, hstage]) hres.symm hg hgx (hprompt job hj hpause g hg).2
    have hne := lease_ne h.fleet hjob hx hclients (JobStage.asked_of_grant hg)
      (JobStage.asked_of_grant hgx)
    obtain ⟨-, hacqx, -⟩ := hx.grant gx hgx
    have hname : x.lockName = job.lockName := by rw [Job.lockName, Job.lockName, hres]
    rw [hname] at hacqx
    show reg.token < g.token
    rw [← htoken]
    exact token_lt_of_later h.grants hbefore (Ne.symm hne) hacqx hacq

theorem Ok.written (h : Ok offset s) (hj : s.jobs[j]? = some job) (hrunning : job.ended = none)
    {g : Grant} {validAt : Int} (hstage : job.stage = .confirmed g validAt)
    (hprompt : s.Prompt j) :
    Ok offset { s with
      registers := Function.update s.registers job.request.resource
        (acceptWrite (s.registers job.request.resource) g.token job.request.value).1
      jobs := s.jobs.set j (job.withStage (.written g validAt
        (acceptWrite (s.registers job.request.resource) g.token job.request.value).2)) } := by
  have hjob := h.jobs job (List.mem_of_getElem? hj)
  have haccepted := h.accepted hj hstage
  generalize hw : acceptWrite (s.registers job.request.resource) g.token job.request.value = w
    at haccepted ⊢
  have hok : (job.withStage (.written g validAt w.2)).Ok s.fleet := by
    have hrel : job.releasing = false := by rw [Job.releasing, hstage]
    refine ⟨hjob.invoked_le, ?_, ?_, fun _ => ?_, ?_, ?_, ?_, ?_⟩
    · exact fun i hi => hjob.client i (by rw [hstage]; exact hi)
    · exact fun x hx => hjob.asked x (by rw [hstage]; exact hx)
    · exact fun x hx => hjob.kept hrel x (by rw [hstage]; exact hx)
    · exact fun x hx => hjob.grant x (by rw [hstage]; exact hx)
    · exact fun hpause x v hx hv => hjob.interval hpause x v (by rw [hstage]; exact hx)
        (by rw [hstage]; exact hv)
    · intro g' v hwritten
      have hrefused : w.2 = false := (JobStage.written.inj hwritten).2.2
      by_contra hpause
      have htaken := haccepted (Bool.eq_false_iff.mpr hpause) hprompt
      rw [hrefused] at htaken
      cases htaken
    · intro e x he
      rw [Job.withStage, hrunning] at he
      cases he
  obtain ⟨hjobs, hrelated⟩ := h.set_job hj hok fun i x hij hi =>
    ⟨(h.related i j x job hi hj hij).right (by rw [hstage]; rfl) (by rw [hstage]; rfl),
      (h.related j i job x hj hi (Ne.symm hij)).left (by rw [hstage]; rfl) (by rw [hstage]; rfl)
        (by rw [hstage]; rfl)⟩
  refine ⟨h.fleet, h.dated, h.grants, hjobs, hrelated, ?_, h.recorded.withStage hj hrunning _⟩
  have hkept : ∀ r reg, s.registers r = some reg →
      WrittenBy (s.jobs.set j (job.withStage (.written g validAt w.2))) r reg.token := by
    intro r reg hreg
    refine (h.registers r reg hreg).set hj ?_
    intro g' v hwritten
    rw [hstage] at hwritten
    cases hwritten
  intro r reg hreg
  rcases update_eq_some hreg with ⟨rfl, hnew⟩ | ⟨-, hold⟩
  · -- the register holds the token of this job, or what it held before
    rw [← hw, acceptWrite] at hnew
    split at hnew
    · rename_i hlt
      cases hnew
      refine ⟨j, _, g, validAt, List.getElem?_set_self (List.getElem?_eq_some_iff.mp hj).1, rfl, ?_,
        rfl⟩
      rw [← hw, acceptWrite, if_pos hlt]
      rfl
    · exact hkept _ reg hnew
  · exact hkept r reg hold

theorem Ok.finished (h : Ok offset s) (hj : s.jobs[j]? = some job) (hrunning : job.ended = none)
    {type : OpType} {value : OpValue String}
    (hout : job.outcome = some (type, value) ∨ type = .info) :
    Ok offset (s.finish j job type value) := by
  have hjob := h.jobs job (List.mem_of_getElem? hj)
  have hok : Job.Ok s.fleet { job with ended := some ⟨s.history.length, s.fleet.now⟩ } :=
    { hjob with
      settled := by
        intro e g he hg k hk id lease hlease
        cases he
        obtain ⟨b, hb⟩ := h.fleet.exists_birth hlease
        exact ⟨b, hb, h.dated.born_le id b hb⟩ }
  have hrelated : ∀ i x, i ≠ j → s.jobs[i]? = some x →
      Related x { job with ended := some ⟨s.history.length, s.fleet.now⟩ } ∧
        Related { job with ended := some ⟨s.history.length, s.fleet.now⟩ } x := by
    intro i x hij hi
    have hleft := h.related j i job x hj hi (Ne.symm hij)
    have hright := h.related i j x job hi hj hij
    refine ⟨⟨hright.clients, nofun, hright.order, hright.apart⟩,
      ⟨hleft.clients, nofun, ?_, hleft.apart⟩⟩
    -- nothing has been invoked after now
    intro e ga gb he hga hgb hlt
    cases he
    have hle := (h.jobs x (List.mem_of_getElem? hi)).invoked_le
    exact absurd (lt_of_lt_of_le hlt hle) (lt_irrefl s.fleet.now)
  obtain ⟨hjobs, hapart⟩ := h.set_job hj hok hrelated
  refine ⟨h.fleet, h.dated, h.grants, hjobs, hapart, ?_, ?_⟩
  · intro r reg hreg
    exact (h.registers r reg hreg).set hj fun _ _ _ => ⟨rfl, rfl⟩
  · refine h.recorded.finished hj hrunning hout ?_
    intro i x hij hi hnone
    exact (h.related i j x job hi hj hij).processes hnone hrunning

variable [DecidableEq N]

/-- A move of the fleet alone. -/
theorem Ok.fleet_moved (h : Ok offset s) {a : Fleet.Act N} {fleet : Fleet N}
    (hpermits : s.Permits a) (hmoved : Fleet.Moved offset s.fleet a fleet)
    (hsuits : s.fleet.Suits a)
    (hgrants : Machine.new.grantCount (s.fleet.commandLog ++ a.committed) < 2 ^ 64) :
    Ok offset { s with fleet := fleet } := by
  have hgrows := h.fleet.grows hmoved
  refine ⟨h.fleet.step hsuits hmoved, h.dated.step hmoved, hgrows.log ▸ hgrants, ?_, h.related,
    h.registers, h.recorded⟩
  intro job hjob
  exact (h.jobs job hjob).grows hgrows fun cmd hcmd => hpermits cmd hcmd job hjob

theorem Ok.started (h : Ok offset s) (hj : s.jobs[j]? = some job) (hrunning : job.ended = none)
    {p : StartTimes} {fleet : Fleet N} (hstage : job.stage = .invoked)
    (hmoved : Fleet.Moved offset s.fleet (.start p) fleet) (hquick : p.Quick) :
    Ok offset { s with
      fleet := fleet
      jobs := s.jobs.set j (job.withStage (.starting s.fleet.clients.length)) } := by
  have hpermits : s.Permits (.start p) := by
    intro cmd hcmd
    cases hcmd
  have h' : Ok offset { s with fleet := fleet } := by
    refine h.fleet_moved hpermits hmoved hquick ?_
    show Machine.new.grantCount (s.fleet.commandLog ++ []) < 2 ^ 64
    rw [List.append_nil]
    exact h.grants
  have hjob := h'.jobs job (List.mem_of_getElem? hj)
  have hok : (job.withStage (.starting s.fleet.clients.length)).Ok fleet := by
    refine ⟨hjob.invoked_le, ?_, nofun, nofun, nofun, nofun, nofun, nofun⟩
    intro i hi
    cases hi
    cases hmoved with
    | start _ hnow httl =>
      refine ⟨⟨p, .creating .new p.createSentAt⟩, List.getElem?_concat_length, ?_⟩
      show job.invokedAt ≤ p.createSentAt
      rw [hnow]
      exact hjob.invoked_le
  -- the clients of the other jobs have been there before
  have hfresh : ∀ (i : Nat) (x : Job), s.jobs[i]? = some x →
      x.stage.client ≠ some s.fleet.clients.length := by
    intro i x hi hclient
    obtain ⟨c, hc, -⟩ := (h.jobs x (List.mem_of_getElem? hi)).client _ hclient
    exact absurd (List.getElem?_eq_some_iff.mp hc).1 (Nat.lt_irrefl _)
  have hrelated : ∀ i x, i ≠ j → s.jobs[i]? = some x →
      Related x (job.withStage (.starting s.fleet.clients.length)) ∧
        Related (job.withStage (.starting s.fleet.clients.length)) x := by
    intro i x hij hi
    have hleft := h.related j i job x hj hi (Ne.symm hij)
    have hright := h.related i j x job hi hj hij
    refine ⟨⟨?_, hright.processes, nofun, nofun⟩, ⟨?_, hleft.processes, nofun, nofun⟩⟩
    · intro k hk hk'
      cases hk'
      exact hfresh i x hi hk
    · intro k hk
      cases hk
      exact hfresh i x hi
  obtain ⟨hjobs, hapart⟩ := h'.set_job hj hok hrelated
  refine ⟨h'.fleet, h'.dated, h'.grants, hjobs, hapart, ?_, h.recorded.withStage hj hrunning _⟩
  intro r reg hreg
  refine (h.registers r reg hreg).set hj ?_
  intro g v hwritten
  rw [hstage] at hwritten
  cases hwritten

theorem Ok.step (h : Ok offset s) {a : Act N} (hsuits : s.Suits a) (hmoved : Moved offset s a s') :
    Ok offset s' := by
  cases hmoved with
  | fleet a fleet hpermits hmoved => exact h.fleet_moved hpermits hmoved hsuits.1 hsuits.2
  | invoked process request hidle => exact h.invoked request hidle
  | started j job p fleet hjob hrunning hstage hmoved =>
    exact h.started hjob hrunning hstage hmoved hsuits
  | turned j job a stage hjob hrunning hturned => exact h.turned hjob hrunning hturned hsuits
  | written j job g validAt hjob hrunning hstage => exact h.written hjob hrunning hstage hsuits
  | finished j job a type value hjob hrunning hout => exact h.finished hjob hrunning hout
  | nemesis name => exact { h with recorded := h.recorded.nemesis rfl rfl }

end Ok

/-! ## What the checker finds -/

section Verdict

variable {offset : N → Int} {s : Harness N}

/-- The report of a job, taken apart. -/
theorem exists_of_report {job : Job} {c : Completed String} (h : job.report = some c) :
    ∃ e type value, job.ended = some e ∧ job.Completes type value ∧
      c = ⟨value.resource, value.held,
        ⟨type, value.token, value.error, some job.invokedAt, e.time, e.index⟩⟩ := by
  obtain ⟨e, he, hmap⟩ := Option.bind_eq_some_iff.mp h
  obtain ⟨⟨type, value⟩, hout, rfl⟩ := Option.map_eq_some_iff.mp hmap
  exact ⟨e, type, value, he, Job.completes_of_outcome hout, rfl⟩

/-- A completed operation that has a token has the one its job was granted. -/
theorem exists_grant {job : Job} {type : OpType} {value : OpValue String}
    (h : job.Completes type value) (htoken : type = .ok ∨ value.token.isSome) :
    ∃ g, job.stage.grant = some g ∧ value.token = some (g.token.toNat : Int) := by
  cases h with
  | busy => rcases htoken with htoken | htoken <;> cases htoken
  | lost g hstage => exact ⟨g, by rw [hstage]; rfl, rfl⟩
  | accepted g v hstage => exact ⟨g, by rw [hstage]; rfl, rfl⟩
  | refused g v hstage => exact ⟨g, by rw [hstage]; rfl, rfl⟩

/-- An interval that an operation claims is that of its job, which has not stalled. -/
theorem exists_interval {job : Job} {type : OpType} {value : OpValue String}
    (h : job.Completes type value) {interval : Int × Int} (hheld : value.held = some interval) :
    job.request.pause = false ∧ ∃ g, job.stage.grant = some g ∧ interval.1 = g.acquiredAt ∧
      job.stage.validAt = some interval.2 := by
  have hwritten : ∀ g v, job.held g v = some interval →
      job.request.pause = false ∧ interval = (g.acquiredAt, v) := by
    intro g v hsome
    rw [Job.held] at hsome
    split at hsome
    · cases hsome
    · rename_i hpause
      cases hsome
      exact ⟨Bool.eq_false_iff.mpr hpause, rfl⟩
  cases h with
  | busy | lost => cases hheld
  | accepted g v hstage | refused g v hstage =>
    obtain ⟨hpause, rfl⟩ := hwritten g v hheld
    exact ⟨hpause, g, by rw [hstage]; rfl, rfl, by rw [hstage]; rfl⟩

/-- Two completed operations are those of different jobs. -/
theorem Ok.exists_jobs (h : Ok offset s) {a b : Completed String}
    (ha : a ∈ completedOps s.history) (hb : b ∈ completedOps s.history)
    (hne : a.data.completeIndex ≠ b.data.completeIndex) :
    ∃ x y : Job, x.report = some a ∧ y.report = some b ∧ x.Ok s.fleet ∧ y.Ok s.fleet ∧
      Related x y ∧ Related y x := by
  obtain ⟨i, x, hi, hx⟩ := h.recorded.completed a ha
  obtain ⟨j, y, hj, hy⟩ := h.recorded.completed b hb
  have hij : i ≠ j := by
    rintro rfl
    obtain rfl := Option.some.inj (hi.symm.trans hj)
    rw [hx] at hy
    cases hy
    exact hne rfl
  exact ⟨x, y, hx, hy, h.jobs x (List.mem_of_getElem? hi), h.jobs y (List.mem_of_getElem? hj),
    h.related i j x y hi hj hij, h.related j i y x hj hi (Ne.symm hij)⟩

theorem Ok.properIntervals (h : Ok offset s) : ProperIntervals (completedOps s.history) := by
  intro c hc interval hheld
  obtain ⟨i, job, hi, hreport⟩ := h.recorded.completed c hc
  obtain ⟨e, type, value, -, hcompletes, rfl⟩ := exists_of_report hreport
  obtain ⟨hpause, g, hg, hfirst, hsecond⟩ := exists_interval hcompletes hheld
  rw [hfirst]
  exact ((h.jobs job (List.mem_of_getElem? hi)).interval hpause g _ hg hsecond).1

/-- Of two holders of one resource, the one that got it later did so after the other had confirmed
that it held it. -/
theorem Ok.not_overlap (h : Ok offset s) {x y : Job} (hx : x.Ok s.fleet) (hy : y.Ok s.fleet)
    (hxy : Related x y) (hyx : Related y x) (hres : x.request.resource = y.request.resource)
    (hpx : x.request.pause = false) (hpy : y.request.pause = false) {gx gy : Grant} {vx vy : Int}
    (hgx : x.stage.grant = some gx) (hgy : y.stage.grant = some gy)
    (hvx : x.stage.validAt = some vx) (hvy : y.stage.validAt = some vy) :
    vx ≤ gy.acquiredAt ∨ vy ≤ gx.acquiredAt := by
  rcases Nat.lt_trichotomy gx.position gy.position with hlt | heq | hgt
  · exact Or.inl (hxy.apart hpx hres gx gy vx hgx hgy hlt hvx)
  · -- one acquire has one lease
    obtain ⟨-, hacq, -⟩ := hx.grant gx hgx
    obtain ⟨-, hacq', -⟩ := hy.grant gy hgy
    rw [heq] at hacq
    exact absurd (lease_of_same_position hacq hacq') (lease_ne h.fleet hx hy hxy.clients
      (JobStage.asked_of_grant hgx) (JobStage.asked_of_grant hgy))
  · exact Or.inr (hyx.apart hpy hres.symm gy gx vy hgy hgx hgt hvy)

/-- **The history is that of a lock service with fencing tokens.** -/
theorem Ok.consistent (h : Ok offset s) : Consistent (completedOps s.history) where
  invoked := by
    intro c hc
    obtain ⟨i, job, -, hreport⟩ := h.recorded.completed c (List.mem_of_mem_filter hc)
    obtain ⟨e, type, value, -, -, rfl⟩ := exists_of_report hreport
    exact nofun
  fenced := by
    intro c hc
    obtain ⟨hmem, htoken⟩ := List.mem_filter.mp hc
    obtain ⟨i, job, -, hreport⟩ := h.recorded.completed c hmem
    obtain ⟨e, type, value, -, hcompletes, rfl⟩ := exists_of_report hreport
    obtain ⟨g, -, htok⟩ := exists_grant hcompletes (of_decide_eq_true htoken)
    show value.token ≠ none
    rw [htok]
    exact nofun
  distinct := by
    refine (h.recorded.indices.filter _).imp_of_mem ?_
    intro a b ha hb hne
    obtain ⟨hmema, htoka⟩ := List.mem_filter.mp ha
    obtain ⟨hmemb, htokb⟩ := List.mem_filter.mp hb
    obtain ⟨x, y, hrepx, hrepy, hx, hy, hxy, -⟩ := h.exists_jobs hmema hmemb hne
    obtain ⟨e, type, value, -, hcompletes, rfl⟩ := exists_of_report hrepx
    obtain ⟨e', type', value', -, hcompletes', rfl⟩ := exists_of_report hrepy
    obtain ⟨g, hg, htok⟩ := exists_grant hcompletes (of_decide_eq_true htoka)
    obtain ⟨g', hg', htok'⟩ := exists_grant hcompletes' (of_decide_eq_true htokb)
    have hlease := lease_ne h.fleet hx hy hxy.clients (JobStage.asked_of_grant hg)
      (JobStage.asked_of_grant hg')
    have htokens := tokens_ne h.grants hlease (hx.grant g hg).2.1 (hy.grant g' hg').2.1
    show value.token ≠ value'.token
    rw [htok, htok']
    intro heq
    exact htokens (UInt64.toNat_inj.mp (Int.ofNat.inj (Option.some.inj heq)))
  monotonic := by
    rintro a ha b hb ⟨ta, hta, tb, htb, invokeTime, hinvoke, hne, hlt, hnot⟩
    obtain ⟨hmema, htoka⟩ := List.mem_filter.mp ha
    obtain ⟨hmemb, htokb⟩ := List.mem_filter.mp hb
    obtain ⟨x, y, hrepx, hrepy, -, -, hxy, -⟩ := h.exists_jobs hmema hmemb hne
    obtain ⟨e, type, value, he, hcompletes, rfl⟩ := exists_of_report hrepx
    obtain ⟨e', type', value', -, hcompletes', rfl⟩ := exists_of_report hrepy
    obtain ⟨g, hg, htok⟩ := exists_grant hcompletes (of_decide_eq_true htoka)
    obtain ⟨g', hg', htok'⟩ := exists_grant hcompletes' (of_decide_eq_true htokb)
    cases hinvoke
    obtain rfl := Option.some.inj (htok.symm.trans hta)
    obtain rfl := Option.some.inj (htok'.symm.trans htb)
    have horder := UInt64.lt_iff_toNat_lt.mp (hxy.order e g g' he hg hg' hlt)
    exact hnot (Int.ofNat_lt.mpr horder)
  exclusive := by
    rw [holders, List.pairwise_filterMap]
    refine h.recorded.indices.imp_of_mem ?_
    intro a b ha hb hne p hp q hq hres hoverlap
    obtain ⟨hheld, heq⟩ := Option.dite_none_right_eq_some.mp hp
    obtain ⟨hheld', heq'⟩ := Option.dite_none_right_eq_some.mp hq
    cases heq
    cases heq'
    obtain ⟨x, y, hrepx, hrepy, hx, hy, hxy, hyx⟩ := h.exists_jobs ha hb hne
    obtain ⟨e, type, value, -, hcompletes, rfl⟩ := exists_of_report hrepx
    obtain ⟨e', type', value', -, hcompletes', rfl⟩ := exists_of_report hrepy
    obtain ⟨hpx, g, hg, hstart, hstop⟩ := exists_interval hcompletes (Option.some_get hheld).symm
    obtain ⟨hpy, g', hg', hstart', hstop'⟩ :=
      exists_interval hcompletes' (Option.some_get hheld').symm
    have hname : x.request.resource = y.request.resource := by
      rw [← hcompletes.resource_eq, ← hcompletes'.resource_eq]
      exact hres
    rcases h.not_overlap hx hy hxy hyx hname hpx hpy hg hg' hstop hstop' with hle | hle
    · exact absurd hoverlap.2 (Int.not_lt.mpr (hle.trans hstart'.ge))
    · exact absurd hoverlap.1 (Int.not_lt.mpr (hle.trans hstart.ge))
  prompt := by
    intro c hc herror
    obtain ⟨i, job, hi, hreport⟩ := h.recorded.completed c hc
    obtain ⟨e, type, value, -, hcompletes, rfl⟩ := exists_of_report hreport
    cases hcompletes with
    | busy | lost | accepted => cases herror
    | refused g v hstage =>
      have hpause := (h.jobs job (List.mem_of_getElem? hi)).prompt g v hstage
      show job.held g v = none
      rw [Job.held, if_pos hpause]

end Verdict

/-! ## The headline -/

section Run

variable [DecidableEq N] {offset : N → Int} {t : Trace (step offset)} {now₀ : Int}

omit [DecidableEq N] in
theorem ok_init (now : Int) : Ok offset (init now : Harness N) where
  fleet := Fleet.ok_init now
  dated := Fleet.dated_init now
  grants := by
    show Machine.new.grantCount [] < 2 ^ 64
    decide
  jobs := by
    intro job hjob
    cases hjob
  related := apart_nil
  registers := by
    intro r reg hreg
    cases hreg
  recorded := recorded_nil

theorem ok_state (h0 : t.start = init now₀) (hsuits : t.Steps Suits) (k : Nat) :
    Ok offset (t.state k) := by
  refine t.invariant_from (Nat.zero_le k) ?_ ?_
  · rw [t.state_zero, h0]
    exact ok_init now₀
  · intro i a s' _ _ ha hstep hok
    exact hok.step (hsuits.at ha) (moved_of_step hstep)

end Run

/-- The lease of the client that stalls in `stalled`. -/
def stalledLease : Lease := ⟨1, "jepsen-0", 3000000100, Heartbeat.threeSeconds⟩

/-- The log of `stalled` when the lease of that client has expired. -/
def stalledLog : List Entry :=
  [⟨1, some (newCreateLeaseCmd "jepsen-0" Heartbeat.threeSeconds 100)⟩,
    ⟨1, some (newAcquireLockCmd "resource:r" "jepsen-0" 1)⟩, ⟨1, some (newExpireLeaseCmd 1)⟩]

/-- A client gets the lock and stalls. Its heartbeats are not answered, its session ends, and so
does its lease. A second client gets the lock, writes and releases it; then the first one wakes up
and writes. -/
def stalled : Trace (step World.skewed) where
  start := init 100
  acts := [.fleet (.cluster (.world (.elect false 1))), .invoke 0 ⟨"r", "a", true⟩,
    .start 0 ⟨Heartbeat.threeSeconds, 100, 0, 0⟩,
    .fleet (.cluster (.world (.create false 1 Machine.new "jepsen-0" Heartbeat.threeSeconds))),
    .fleet (.cluster (.commit false
      ⟨1, some (newCreateLeaseCmd "jepsen-0" Heartbeat.threeSeconds 100)⟩)),
    .fleet (.client 0 (.created 1)), .fleet (.client 0 .opened), .turn 0 .ask,
    .fleet (.cluster (.readClock false)),
    .fleet (.cluster (.track false 1 (.alive stalledLease) 1 100)),
    .fleet (.cluster (.commit false ⟨1, some (newAcquireLockCmd "resource:r" "jepsen-0" 1)⟩)),
    .turn 0 (.acquired 1 1), .turn 0 .check, .turn 0 .confirm, .invoke 2 ⟨"q", "c", false⟩,
    .nemesis "kill", .crash 1, .fleet (.tick 1000000000), .fleet (.client 0 (.loop .fire)),
    .fleet (.client 0 (.loop .receive)), .fleet (.tick 1000000000),
    .fleet (.client 0 (.loop (.result (some "timeout")))), .fleet (.client 0 (.loop .fire)),
    .fleet (.tick 50000000), .fleet (.client 0 (.loop .wake)), .fleet (.tick 200000000),
    .fleet (.client 0 (.loop (.result (some "timeout")))), .fleet (.tick 750000000),
    .fleet (.cluster (.readClock false)),
    .fleet (.cluster (.track false 1 (.claimExpired [stalledLease]) 2 3000000100)),
    .fleet (.cluster (.commit false ⟨1, some (newExpireLeaseCmd 1)⟩)), .invoke 1 ⟨"r", "b", false⟩,
    .start 2 ⟨Heartbeat.threeSeconds, 3000000100, 0, 0⟩,
    .fleet (.cluster (.world
      (.create false 1 (stateAfter stalledLog) "jepsen-1" Heartbeat.threeSeconds))),
    .fleet (.cluster (.commit false
      ⟨1, some (newCreateLeaseCmd "jepsen-1" Heartbeat.threeSeconds 3000000100)⟩)),
    .fleet (.client 1 (.created 2)), .fleet (.client 1 .opened), .turn 2 .ask,
    .fleet (.cluster (.commit false ⟨1, some (newAcquireLockCmd "resource:r" "jepsen-1" 2)⟩)),
    .turn 2 (.acquired 4 2), .fleet (.tick 10), .turn 2 .check, .turn 2 .confirm, .write 2,
    .fleet (.cluster (.commit false ⟨1, some (newReleaseLockCmd "resource:r" 2)⟩)), .complete 2,
    .write 0, .complete 0]
  enabled := by decide

/-- What the checker sees of it. -/
def stalledOps : List (Completed String) :=
  [⟨"r", some (3000000100, 3000000110), ⟨.ok, some 2, none, some 3000000100, 3000000110, 5⟩⟩,
    ⟨"r", none, ⟨.fail, some 1, some .staleToken, some 100, 3000000110, 6⟩⟩]

def stalledOrders : GroupOrders stalledOps where
  tokens :=
    { entries := [⟨some 1, stalledOps.drop 1⟩, ⟨some 2, stalledOps.take 1⟩]
      entries_eq := by decide }
  resources :=
    { entries := [⟨"r", heldOn stalledOps "r"⟩]
      entries_eq := by decide }

end Harness

end Jepsen

end Clavis
