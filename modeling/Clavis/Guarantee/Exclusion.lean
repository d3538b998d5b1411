import Clavis.Guarantee.Fleet
import Clavis.State.Fencing
import Clavis.State.Frame

/-!
# Clavis — mutual exclusion, as the clients see it

What a lock service is for: two programs that hold one lock never run their critical sections at the
same time. A program takes a lock for its own from the moment at which `Acquire` has returned until
it calls `Release`, as long as its session is active.

* `AcquiredAt.holder` — an acquired lock stays with its lease until the lease releases it or
  expires.
* `Tenancy` — what the programs of a fleet do with their locks: their calls of `Acquire` and
  `Release`, which lock each has been told it has, and the copies of releases that may still be
  applied.
* `exclusive` — the headline: a client with an active session still holds, in the replicated state,
  every lock it has acquired and not released, and no other client with an active session has one of
  them.

The preconditions are those of `Fleet`, and a client asks for a lock again only when no copy of an
earlier release of its own may still be applied, which `Client.Retry` shows not to be ensured.
-/

namespace Clavis

open Lib

/-! ## Keeping a lock -/

/-- The command releases the lock for the lease. -/
def CommandWrapper.Releases (c : CommandWrapper) (L : String) (l : UInt64) : Prop :=
  c.type = .releaseLock ∧ c.getReleaseLock.lockName = L ∧ c.getReleaseLock.leaseId = l

instance (c : CommandWrapper) (L : String) (l : UInt64) : Decidable (c.Releases L l) :=
  inferInstanceAs (Decidable (_ ∧ _ ∧ _))

instance (log : List CommandWrapper) (i : Nat) (L : String) (l t : UInt64) :
    Decidable (AcquiredAt log i L l t) := Option.decidableExistsMem _

/-- A held lock stays with its lease until the lease releases it or expires. -/
theorem Machine.getLock_next_of_kept {m : Machine} (hkeyed : m.Keyed) {c : CommandWrapper}
    {L : String} {lock : Lock} (h : m.getLock L = some lock)
    (hrel : ¬ c.Releases L lock.leaseID) (hexp : c.expires ≠ some lock.leaseID) :
    (m.next c).getLock L = some lock := by
  have hjoin : (m.fsm.locks.lookup L).join = some lock := h
  rw [next_getLock]
  have hout := m.outcome c
  generalize m.apply c = a at hout
  cases hout with
  | rejected | ignored | created | reacquired | upserted | removed => exact h
  | granted htype lease hlease howner hfree =>
    simp only [FSM.reply, withLock, join_lookup_insert]
    rw [if_neg]
    · exact h
    · rintro rfl
      rw [h] at hfree
      cases hfree
  | released htype lock' hlock hheld =>
    simp only [join_lookup_erase]
    rw [if_neg]
    · exact h
    · rintro rfl
      obtain rfl := Option.some.inj (hlock.symm.trans h)
      exact hrel ⟨htype, rfl, hheld.symm⟩
  | expired htype lease hlease locks hlocks =>
    simp only [hlocks, join_filter_isBoundTo, hjoin, Option.filter_eq_some_iff, decide_eq_true_eq,
      true_and]
    intro hid
    exact hexp (CommandWrapper.expires_eq_some.mpr ⟨htype, by rw [hid, hkeyed _ _ hlease]⟩)

/-- **What is acquired is held** from then on, as long as the lease does not release it and never
expires. -/
theorem AcquiredAt.holder {log : List CommandWrapper} {L : String} {l t : UInt64} {i k : Nat}
    (hacq : AcquiredAt log i L l t) (hrel : ∀ j c, i < j → log[j]? = some c → ¬ c.Releases L l)
    (hexp : ∀ c ∈ log, c.expires ≠ some l) (hk : i + 1 ≤ k) :
    (stateAt log k).holder L = some l := by
  rw [Machine.holder_eq_some]
  induction k, hk using Nat.le_induction with
  | base =>
    obtain ⟨lock, hlock, -, hid⟩ := hacq.getLock
    exact ⟨lock, hlock, hid⟩
  | succ k hk ih =>
    obtain ⟨lock, hlock, rfl⟩ := ih
    cases hc : log[k]? with
    | none =>
      rw [stateAt_succ_of_none hc]
      exact ⟨lock, hlock, rfl⟩
    | some c =>
      rw [stateAt_succ hc]
      exact ⟨lock, Machine.getLock_next_of_kept (keyed_replay _) hlock
        (hrel k c (by omega) hc) (hexp c (List.mem_of_getElem? hc)), rfl⟩

/-! ## What programs do with their locks -/

/-- A fleet whose clients ask for locks and release them. A client's locks are kept under the lease
of its session. -/
structure Tenancy (N : Type) where
  fleet : Fleet N
  /-- The calls of `Acquire` under way, with the length of the log when they were made. -/
  asking : UInt64 × String → Option Nat
  /-- The locks that clients have been told they have and have not released since, with the position
  of the acquire. -/
  held : UInt64 × String → Option Nat
  /-- The releases of which a copy may still be applied. -/
  releases : List (UInt64 × String)

inductive Tenancy.Act (N : Type) where
  | fleet (a : Fleet.Act N)
  /-- Client `i` calls `Acquire` or `WaitAcquire`, -/
  | acquire (i : Nat) (L : String)
  /-- and is answered with the reply to the command at `q`, -/
  | acquired (i : Nat) (L : String) (q : Nat) (token : UInt64)
  /-- or gets an error. -/
  | acquireFailed (i : Nat) (L : String)
  /-- Client `i` calls `Release`. -/
  | release (i : Nat) (L : String)
  /-- No copy of a release of the lock by the lease is left. -/
  | settled (l : UInt64) (L : String)

namespace Tenancy

variable {N : Type}

def init (now : Int) : Tenancy N := ⟨.init now, fun _ => none, fun _ => none, []⟩

/-- The lease with which client `i` calls, if its session has one. -/
def lease (s : Tenancy N) (i : Nat) : Option UInt64 :=
  s.fleet.clients[i]?.bind fun c =>
    match c.stage.session.activeLeaseID with
    | .ok l => some l
    | .error _ => none

/-- A release that is committed is a copy of one that was called. -/
def Permits (s : Tenancy N) (a : Fleet.Act N) : Prop :=
  ∀ cmd ∈ a.committed, cmd.type = .releaseLock →
    (cmd.getReleaseLock.leaseId, cmd.getReleaseLock.lockName) ∈ s.releases

instance (s : Tenancy N) (a : Fleet.Act N) : Decidable (s.Permits a) :=
  inferInstanceAs (Decidable (∀ cmd ∈ a.committed, _))

variable [DecidableEq N] (offset : N → Int)

/-- One move. A client makes its calls about one lock one after the other. -/
def step (s : Tenancy N) : Act N → Option (Tenancy N)
  | .fleet a =>
    if s.Permits a then (s.fleet.step offset a).map fun fleet => { s with fleet := fleet } else none
  | .acquire i L =>
    (s.lease i).bind fun l =>
      if s.asking (l, L) = none then
        some { s with asking := Function.update s.asking (l, L) (some s.fleet.commandLog.length) }
      else none
  | .acquired i L q token =>
    (s.lease i).bind fun l => (s.asking (l, L)).bind fun since =>
      if since ≤ q ∧ AcquiredAt s.fleet.commandLog q L l token then
        some { s with
          asking := Function.update s.asking (l, L) none
          held := Function.update s.held (l, L) (some q) }
      else none
  | .acquireFailed i L =>
    (s.lease i).map fun l => { s with asking := Function.update s.asking (l, L) none }
  | .release i L =>
    (s.lease i).bind fun l =>
      if s.asking (l, L) = none then
        some { s with
          held := Function.update s.held (l, L) none
          releases := (l, L) :: s.releases }
      else none
  | .settled l L => some { s with releases := s.releases.filter (· ≠ (l, L)) }

/-- The preconditions: those of the fleet, and a client asks for a lock only when no copy of an
earlier release of its own may still be applied. -/
def Suits (s : Tenancy N) : Act N → Prop
  | .fleet a => s.fleet.Suits a
  | .acquire i L => ∀ l ∈ s.lease i, (l, L) ∉ s.releases
  | _ => True

instance (s : Tenancy N) : (a : Act N) → Decidable (s.Suits a)
  | .fleet a => inferInstanceAs (Decidable (s.fleet.Suits a))
  | .acquire _ _ => Option.decidableForallMem _
  | .acquired _ _ _ _ => isTrue trivial
  | .acquireFailed _ _ => isTrue trivial
  | .release _ _ => isTrue trivial
  | .settled _ _ => isTrue trivial

inductive Moved (s : Tenancy N) : Act N → Tenancy N → Prop where
  | fleet (a : Fleet.Act N) (fleet : Fleet N) (hpermits : s.Permits a)
      (hmoved : Fleet.Moved offset s.fleet a fleet) : Moved s (.fleet a) { s with fleet := fleet }
  | acquire (i : Nat) (L : String) (l : UInt64) (hl : s.lease i = some l) :
      Moved s (.acquire i L)
        { s with asking := Function.update s.asking (l, L) (some s.fleet.commandLog.length) }
  | acquired (i : Nat) (L : String) (l : UInt64) (q since : Nat) (token : UInt64)
      (hasking : s.asking (l, L) = some since) (hsince : since ≤ q)
      (hacq : AcquiredAt s.fleet.commandLog q L l token) :
      Moved s (.acquired i L q token) { s with
        asking := Function.update s.asking (l, L) none
        held := Function.update s.held (l, L) (some q) }
  | acquireFailed (i : Nat) (L : String) (l : UInt64) :
      Moved s (.acquireFailed i L) { s with asking := Function.update s.asking (l, L) none }
  | release (i : Nat) (L : String) (l : UInt64) (hidle : s.asking (l, L) = none) :
      Moved s (.release i L) { s with
        held := Function.update s.held (l, L) none
        releases := (l, L) :: s.releases }
  | settled (l : UInt64) (L : String) :
      Moved s (.settled l L) { s with releases := s.releases.filter (· ≠ (l, L)) }

section Step

variable {offset : N → Int} {s s' : Tenancy N} {a : Act N}

theorem moved_of_step (h : s.step offset a = some s') : Moved offset s a s' := by
  cases a with
  | fleet a =>
    obtain ⟨hpermits, heq⟩ := Option.ite_none_right_eq_some.mp h
    obtain ⟨fleet, hfleet, rfl⟩ := Option.map_eq_some_iff.mp heq
    exact .fleet a fleet hpermits (Fleet.moved_of_step hfleet)
  | acquire i L =>
    obtain ⟨l, hl, hguard⟩ := Option.bind_eq_some_iff.mp h
    obtain ⟨-, heq⟩ := Option.ite_none_right_eq_some.mp hguard
    cases heq
    exact .acquire i L l hl
  | acquired i L q token =>
    obtain ⟨l, -, hrest⟩ := Option.bind_eq_some_iff.mp h
    obtain ⟨since, hasking, hguard⟩ := Option.bind_eq_some_iff.mp hrest
    obtain ⟨⟨hsince, hacq⟩, heq⟩ := Option.ite_none_right_eq_some.mp hguard
    cases heq
    exact .acquired i L l q since token hasking hsince hacq
  | acquireFailed i L =>
    obtain ⟨l, -, rfl⟩ := Option.map_eq_some_iff.mp h
    exact .acquireFailed i L l
  | release i L =>
    obtain ⟨l, -, hguard⟩ := Option.bind_eq_some_iff.mp h
    obtain ⟨hidle, heq⟩ := Option.ite_none_right_eq_some.mp hguard
    cases heq
    exact .release i L l hidle
  | settled l L =>
    cases h
    exact .settled l L

end Step

/-! ### The invariant -/

/-- No release of the lock by the lease is in the log from position `m` on, nor will one be. -/
def Unreleased (s : Tenancy N) (l : UInt64) (L : String) (m : Nat) : Prop :=
  (l, L) ∉ s.releases ∧
    ∀ k cmd, m ≤ k → s.fleet.commandLog[k]? = some cmd → ¬ cmd.Releases L l

structure Ok (s : Tenancy N) : Prop where
  fleet : Fleet.Ok offset s.fleet
  asking : ∀ l L m, s.asking (l, L) = some m → s.Unreleased l L m
  held : ∀ l L q, s.held (l, L) = some q →
    (∃ t, AcquiredAt s.fleet.commandLog q L l t) ∧ s.Unreleased l L (q + 1)

section Ok

variable {offset : N → Int} {s s' : Tenancy N} {a : Act N} {l : UInt64} {L : String} {m : Nat}

omit [DecidableEq N] in
theorem Unreleased.mono {m' : Nat} (h : s.Unreleased l L m) (hle : m ≤ m') :
    s.Unreleased l L m' :=
  ⟨h.1, fun k cmd hk => h.2 k cmd (by omega)⟩

/-- A move of the fleet commits copies of outstanding releases only. -/
theorem Unreleased.fleet (h : s.Unreleased l L m) {a : Fleet.Act N} {fleet : Fleet N}
    (hpermits : s.Permits a) (hmoved : Fleet.Moved offset s.fleet a fleet) :
    Unreleased { s with fleet := fleet } l L m := by
  refine ⟨h.1, fun k cmd hk hcmd hrel => ?_⟩
  change fleet.commandLog[k]? = some cmd at hcmd
  rw [hmoved.commandLog, List.getElem?_append] at hcmd
  split at hcmd
  · exact h.2 k cmd hk hcmd hrel
  · obtain ⟨htype, rfl, rfl⟩ := hrel
    exact h.1 (hpermits cmd (List.mem_of_getElem? hcmd) htype)

omit [DecidableEq N] in
/-- A release of another lock or by another lease is called. -/
theorem Unreleased.release (h : s.Unreleased l L m) {key : UInt64 × String} (hkey : (l, L) ≠ key)
    (held : UInt64 × String → Option Nat) :
    Unreleased { s with held := held, releases := key :: s.releases } l L m :=
  ⟨fun hmem => (List.mem_cons.mp hmem).elim hkey h.1, h.2⟩

theorem Ok.step (h : Ok offset s) (hsuits : s.Suits a) (hmoved : Moved offset s a s') :
    Ok offset s' := by
  cases hmoved with
  | fleet a fleet hpermits hmoved =>
    refine ⟨h.fleet.step hsuits hmoved, fun l L m hm => (h.asking l L m hm).fleet hpermits hmoved,
      fun l L q hq => ?_⟩
    obtain ⟨⟨t, hacq⟩, hrel⟩ := h.held l L q hq
    refine ⟨⟨t, ?_⟩, hrel.fleet hpermits hmoved⟩
    show AcquiredAt fleet.commandLog q L l t
    rw [hmoved.commandLog]
    exact hacq.append _
  | acquire i L l hl =>
    refine ⟨h.fleet, fun l' L' m hm => ?_, h.held⟩
    rcases update_some_eq_some hm with ⟨heq, rfl⟩ | ⟨-, hold⟩
    · cases heq
      refine ⟨hsuits l hl, fun k cmd hk hcmd => ?_⟩
      exact absurd (List.getElem?_eq_some_iff.mp hcmd).1 (Nat.not_lt.mpr hk)
    · exact h.asking l' L' m hold
  | acquired i L l q since token hasking hsince hacq =>
    refine ⟨h.fleet, fun l' L' m hm => ?_, fun l' L' q' hq' => ?_⟩
    · rcases update_eq_some hm with ⟨-, hnone⟩ | ⟨-, hold⟩
      · cases hnone
      · exact h.asking l' L' m hold
    · rcases update_some_eq_some hq' with ⟨heq, rfl⟩ | ⟨-, hold⟩
      · cases heq
        exact ⟨⟨token, hacq⟩, (h.asking l L since hasking).mono (by omega)⟩
      · exact h.held l' L' q' hold
  | acquireFailed i L l =>
    refine ⟨h.fleet, fun l' L' m hm => ?_, h.held⟩
    rcases update_eq_some hm with ⟨-, hnone⟩ | ⟨-, hold⟩
    · cases hnone
    · exact h.asking l' L' m hold
  | release i L l hidle =>
    refine ⟨h.fleet, fun l' L' m hm => ?_, fun l' L' q hq => ?_⟩
    · refine (h.asking l' L' m hm).release ?_ _
      rintro heq
      have hsome : s.asking (l', L') = some m := hm
      rw [heq, hidle] at hsome
      cases hsome
    · rcases update_eq_some hq with ⟨-, hnone⟩ | ⟨hne, hold⟩
      · cases hnone
      · obtain ⟨hacq, hrel⟩ := h.held l' L' q hold
        exact ⟨hacq, hrel.release hne _⟩
  | settled l L =>
    have hfewer : ∀ {l' L' m}, s.Unreleased l' L' m →
        Unreleased { s with releases := s.releases.filter (· ≠ (l, L)) } l' L' m :=
      fun hrel => ⟨fun hmem => hrel.1 (List.mem_of_mem_filter hmem), hrel.2⟩
    refine ⟨h.fleet, fun l' L' m hm => hfewer (h.asking l' L' m hm), fun l' L' q hq => ?_⟩
    obtain ⟨hacq, hrel⟩ := h.held l' L' q hq
    exact ⟨hacq, hfewer hrel⟩

omit [DecidableEq N] in
/-- What a client with an active session has been told it has, it has. -/
theorem Ok.holder_of_held (h : Ok offset s) {c : Participant} (hc : c ∈ s.fleet.clients)
    (hactive : c.stage.session.Active) {q : Nat} (hheld : s.held (c.leaseID, L) = some q) :
    s.fleet.cluster.fsm.holder L = some c.leaseID := by
  obtain ⟨⟨t, hacq⟩, -, hrel⟩ := h.held _ _ _ hheld
  have hlt : q + 1 ≤ s.fleet.commandLog.length := by
    obtain ⟨cmd, hcmd, -⟩ := hacq
    exact (List.getElem?_eq_some_iff.mp hcmd).1
  have hend := hacq.holder (fun k cmd hk => hrel k cmd hk)
    (h.fleet.not_expires_of_active hc hactive) hlt
  rw [stateAt, List.take_length] at hend
  exact hend

end Ok

/-! ## The headline -/

section Run

variable {offset : N → Int} {t : Trace (step offset)} {now₀ : Int}

theorem ok_state (h0 : t.start = init now₀) (hsuits : t.Steps Suits) (k : Nat) :
    Ok offset (t.state k) := by
  refine t.invariant_from (Nat.zero_le k) ?_ ?_
  · rw [t.state_zero, h0]
    exact ⟨Fleet.ok_init now₀, nofun, nofun⟩
  · intro i a s' _ _ ha hstep hok
    exact hok.step (hsuits.at ha) (moved_of_step hstep)

/-- **Mutual exclusion.** In every run of a cluster and its clients that meets the preconditions,
with any elections, clock offsets, lost and late replies: while a client's session is active, its
lease is in the replicated state, every lock that it was told it has and has not released since is
held there by its lease, and no other client with an active session was told that it has that lock
and has not released it since. -/
theorem exclusive (h0 : t.start = init now₀) (hsuits : t.Steps Suits) {k i : Nat} {c : Participant}
    (hi : (t.state k).fleet.clients[i]? = some c) (hactive : c.stage.session.Active) :
    (∃ lease, (t.state k).fleet.cluster.fsm.getLease c.leaseID = some lease) ∧
    ∀ L, (t.state k).held (c.leaseID, L) ≠ none →
      (t.state k).fleet.cluster.fsm.holder L = some c.leaseID ∧
      ∀ j c', j ≠ i → (t.state k).fleet.clients[j]? = some c' → c'.stage.session.Active →
        (t.state k).held (c'.leaseID, L) = none := by
  have hok := ok_state h0 hsuits k
  have hc := List.mem_of_getElem? hi
  refine ⟨hok.fleet.getLease_of_active hc hactive, ?_⟩
  intro L hheld
  obtain ⟨q, hq⟩ := Option.ne_none_iff_exists'.mp hheld
  have hholder := hok.holder_of_held hc hactive hq
  refine ⟨hholder, ?_⟩
  intro j c' hji hj hactive'
  rw [Option.eq_none_iff_forall_ne_some]
  intro q' hq'
  -- both would be the holder
  have hholder' := hok.holder_of_held (List.mem_of_getElem? hj) hactive' hq'
  have hsame : c.leaseID = c'.leaseID := Option.some.inj (hholder.symm.trans hholder')
  exact hok.fleet.distinct i j c c' hi hj (Ne.symm hji) (c.leaseID_ne_zero hactive) hsame

end Run

/-- The lease of the first client in `contended`. -/
def contendedLease : Lease := ⟨1, "client-1", 3000000100, Heartbeat.threeSeconds⟩

/-- The entries of `contended` up to the second client. -/
def contendedLog : List Entry :=
  [⟨1, some (newCreateLeaseCmd "client-1" Heartbeat.threeSeconds 100)⟩,
    ⟨1, some (newAcquireLockCmd "jobs" "client-1" 1)⟩, ⟨1, some (newReleaseLockCmd "jobs" 1)⟩,
    ⟨1, some (newAcquireLockCmd "jobs" "client-1" 1)⟩]

/-- One client starts, acquires a lock, releases it, acquires it again once the release is settled,
and has its lease renewed; then another node takes over, on whose clock everything is 1000 later,
and a second client starts and asks for the lock. -/
def contended : Trace (step World.skewed) where
  start := init 100
  acts := [.fleet (.cluster (.world (.elect false 1))),
    .fleet (.start ⟨Heartbeat.threeSeconds, 100, 0, 0⟩),
    .fleet (.cluster (.world (.create false 1 Machine.new "client-1" Heartbeat.threeSeconds))),
    .fleet (.cluster (.commit false
      ⟨1, some (newCreateLeaseCmd "client-1" Heartbeat.threeSeconds 100)⟩)),
    .fleet (.client 0 (.created 1)), .fleet (.client 0 .opened),
    .acquire 0 "jobs",
    .fleet (.cluster (.commit false ⟨1, some (newAcquireLockCmd "jobs" "client-1" 1)⟩)),
    .acquired 0 "jobs" 1 1, .release 0 "jobs",
    .fleet (.cluster (.commit false ⟨1, some (newReleaseLockCmd "jobs" 1)⟩)),
    .settled 1 "jobs", .acquire 0 "jobs",
    .fleet (.cluster (.commit false ⟨1, some (newAcquireLockCmd "jobs" "client-1" 1)⟩)),
    .acquired 0 "jobs" 3 2,
    .fleet (.tick 1000000000), .fleet (.client 0 (.loop .fire)),
    .fleet (.client 0 (.loop .receive)), .fleet (.cluster (.readClock false)),
    .fleet (.cluster (.track false 1 (.renew contendedLease) 4 1000000100)),
    .fleet (.cluster (.verifyLeader ⟨false, 1, contendedLease, 1000000100⟩)),
    .fleet (.client 0 (.loop (.result none))), .fleet (.cluster (.world (.elect true 2))),
    .fleet (.start ⟨Heartbeat.threeSeconds, 1000000100, 0, 0⟩),
    .fleet (.cluster (.world
      (.create true 2 (stateAfter contendedLog) "client-2" Heartbeat.threeSeconds))),
    .fleet (.cluster (.commit true
      ⟨2, some (newCreateLeaseCmd "client-2" Heartbeat.threeSeconds 1000001100)⟩)),
    .fleet (.client 1 (.created 2)), .fleet (.client 1 .opened), .acquire 1 "jobs",
    .fleet (.cluster (.commit true ⟨2, some (newAcquireLockCmd "jobs" "client-2" 2)⟩))]
  enabled := by decide

/-- Both sessions are active, the first client has the lock and the second does not. -/
theorem exclusive_contended : ∃ c c' : Participant,
    (contended.state 30).fleet.clients = [c, c'] ∧ c.stage.session.Active ∧
      c'.stage.session.Active ∧ (contended.state 30).held (c.leaseID, "jobs") = some 3 ∧
      (contended.state 30).fleet.cluster.fsm.holder "jobs" = some c.leaseID ∧
      (contended.state 30).held (c'.leaseID, "jobs") = none := by
  obtain ⟨c, c', hclients, hc, hheld, hc'⟩ : ∃ c c' : Participant,
      (contended.state 30).fleet.clients = [c, c'] ∧ c.stage.session.Active ∧
        (contended.state 30).held (c.leaseID, "jobs") = some 3 ∧ c'.stage.session.Active :=
    ⟨_, _, rfl, ⟨⟨1, rfl⟩, rfl⟩, rfl, ⟨⟨2, rfl⟩, rfl⟩⟩
  obtain ⟨-, hlocks⟩ := exclusive (t := contended) (k := 30) (i := 0) rfl (by decide)
    (by rw [hclients]; rfl) hc
  obtain ⟨hholder, hother⟩ := hlocks "jobs" (by rw [hheld]; exact Option.some_ne_none 3)
  exact ⟨c, c', hclients, hc, hc', hheld, hholder,
    hother 1 c' (by decide) (by rw [hclients]; rfl) hc'⟩

end Tenancy

end Clavis
