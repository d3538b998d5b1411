import Clavis.Cluster.ExpiryLoop

/-!
# Clavis — the expiry loop in time

The expiry loop of `Node` with its ticker (`time.NewTicker`, with a channel that holds one tick) and
the rule that time does not pass the loop by: local steps are immediate, a tick is received as soon
as the loop waits for one, and a proposal of the leader is applied within `commitTime`.

* `Sweeper` — the node with the ticker of its loop; `Sweeper.step` is the timed system.
* `Ok` — what holds in every run: the invariants of the node, and when the ticker and the loop are
  due.
* `Ok.proceeds` — the loop of a leader does not hang: where time cannot pass there is something to
  do.
* `countP_isOwn_le` — nor does it keep time from passing: a pass for every tick, of so many moves.
-/

namespace Clavis

open Lib

/-! ## The loop with its ticker -/

/-- A node and the ticker of its expiry loop. -/
structure Sweeper where
  node : Node
  nextTick : Int
  /-- There is a tick in the ticker's channel. -/
  tick : Bool
  /-- When the loop moved last. -/
  since : Int

inductive Sweeper.Act where
  /-- The ticker fires; a tick that finds the channel full is dropped. -/
  | fire
  /-- The loop receives a tick on a node that is not the leader. -/
  | skip
  | node (a : Node.Act)

namespace Sweeper

/-- `100 * time.Millisecond` -/
def period : Int := 100000000

def init (now : Int) : Sweeper := ⟨.new now, now + period, false, now⟩

variable (commitTime : Nat)

/-- How long the loop may stay where it is. -/
def Stays (s : Sweeper) (now : Int) : LoopPc → Prop
  | .idle => s.tick = false
  | .waiting _ _ _ _ _ => now ≤ s.since + commitTime
  | _ => False

instance (s : Sweeper) (now : Int) : (pc : LoopPc) → Decidable (s.Stays commitTime now pc)
  | .idle => inferInstanceAs (Decidable (s.tick = false))
  | .waiting _ _ _ _ _ => inferInstanceAs (Decidable (now ≤ s.since + commitTime))
  | .isLeader => isFalse id
  | .termRead _ => isFalse id
  | .proposing _ _ => isFalse id
  | .finishing _ _ _ _ => isFalse id

/-- Time may pass up to `now`. -/
def MayWait (s : Sweeper) (now : Int) : Prop :=
  now ≤ s.nextTick ∧ s.Stays commitTime now s.node.loop

instance (s : Sweeper) (now : Int) : Decidable (s.MayWait commitTime now) :=
  inferInstanceAs (Decidable (_ ∧ _))

def step (s : Sweeper) : Act → Option Sweeper
  | .fire =>
    if s.node.now = s.nextTick then
      some { s with tick := true, nextTick := s.nextTick + period }
    else none
  | .skip =>
    match s.node.loop with
    | .idle =>
      if s.tick = true ∧ s.node.raft.leader = false then some { s with tick := false } else none
    | _ => none
  | .node (.tick d) =>
    if s.MayWait commitTime (s.node.now + d) then
      some { s with node := { s.node with now := s.node.now + d } }
    else none
  | .node .loopTick =>
    if s.tick = true then
      (s.node.step .loopTick).map fun n => { s with node := n, tick := false, since := n.now }
    else none
  | .node a =>
    (s.node.step a).map fun n =>
      { s with node := n, since := if a.isLoop then n.now else s.since }

inductive Moved (s : Sweeper) : Act → Sweeper → Prop where
  | fire (hnow : s.node.now = s.nextTick) :
      Moved s .fire { s with tick := true, nextTick := s.nextTick + period }
  | skip (htick : s.tick = true) (hleader : s.node.raft.leader = false) :
      Moved s .skip { s with tick := false }
  | wait (d : Nat) (hwait : s.MayWait commitTime (s.node.now + d)) :
      Moved s (.node (.tick d)) { s with node := { s.node with now := s.node.now + d } }
  | received (n : Node) (htick : s.tick = true) (hstep : s.node.step .loopTick = some n) :
      Moved s (.node .loopTick) { s with node := n, tick := false, since := n.now }
  | loop (a : Node.Act) (n : Node) (hloop : a.isLoop = true) (hnot : a ≠ .loopTick)
      (hstep : s.node.step a = some n) :
      Moved s (.node a) { s with node := n, since := n.now }
  | other (a : Node.Act) (n : Node) (hloop : a.isLoop = false) (hnot : ∀ d, a ≠ .tick d)
      (hstep : s.node.step a = some n) : Moved s (.node a) { s with node := n }

section Step

variable {commitTime : Nat} {s s' : Sweeper} {a : Act}

theorem moved_of_step (h : s.step commitTime a = some s') : Moved commitTime s a s' := by
  cases a with
  | fire =>
    obtain ⟨hnow, heq⟩ := Option.ite_none_right_eq_some.mp h
    cases heq
    exact .fire hnow
  | skip =>
    simp only [step] at h
    split at h
    · obtain ⟨⟨htick, hleader⟩, heq⟩ := Option.ite_none_right_eq_some.mp h
      cases heq
      exact .skip htick hleader
    · cases h
  | node a =>
    cases a with
    | tick d =>
      obtain ⟨hwait, heq⟩ := Option.ite_none_right_eq_some.mp h
      cases heq
      exact .wait d hwait
    | loopTick =>
      obtain ⟨htick, heq⟩ := Option.ite_none_right_eq_some.mp h
      obtain ⟨n, hstep, rfl⟩ := Option.map_eq_some_iff.mp heq
      exact .received n htick hstep
    | loopTerm | loopClaim | loopPropose | loopWait | loopFinish | loopEnd =>
      obtain ⟨n, hstep, rfl⟩ := Option.map_eq_some_iff.mp h
      exact .loop _ n rfl nofun hstep
    | raft | propose | checkLeaseAlive | renewLease | awaitTermApplied | barrier | getLease
    | readClock | renew | verifyLeader =>
      obtain ⟨n, hstep, rfl⟩ := Option.map_eq_some_iff.mp h
      exact .other _ n rfl nofun hstep

/-- To the node, a move of the ticker is none. -/
theorem Moved.node_cases (h : Moved commitTime s a s') :
    s'.node = s.node ∨ ∃ b, a = .node b ∧ Node.Moved s.node b s'.node := by
  cases h with
  | fire | skip => exact Or.inl rfl
  | wait d hwait => exact Or.inr ⟨_, rfl, .tick d⟩
  | received n htick hstep => exact Or.inr ⟨_, rfl, Node.moved_of_step hstep⟩
  | loop a n hloop hnot hstep => exact Or.inr ⟨a, rfl, Node.moved_of_step hstep⟩
  | other a n hloop hnot hstep => exact Or.inr ⟨a, rfl, Node.moved_of_step hstep⟩

end Step

/-! ## What holds in every run -/

/-- The clock, the ticker and the loop are in time with each other. -/
structure Timed (s : Sweeper) : Prop where
  since_le : s.since ≤ s.node.now
  now_le : s.node.now ≤ s.nextTick
  next_le : s.nextTick ≤ s.node.now + period
  loop : match s.node.loop with
    | .idle => True
    | .waiting _ _ _ _ _ => s.node.now ≤ s.since + commitTime
    | _ => s.node.now = s.since

structure Ok (s : Sweeper) : Prop where
  inv : s.node.Inv
  marked : s.node.Marked
  told : s.node.Told
  filed : s.node.Filed
  timed : s.Timed commitTime

section Ok

variable {commitTime : Nat} {s s' : Sweeper} {a : Act}

theorem ok_init (now : Int) : Ok commitTime (init now) where
  inv := Node.inv_new now
  marked := by
    intro id hid
    cases hid
  told := by
    refine ⟨?_, ?_⟩
    · intro x hx
      cases hx
    · intro id x hx
      cases hx
  filed := by
    intro term leaseID index entryTerm batch hloop
    cases hloop
  timed := ⟨le_refl _, by show now ≤ now + period; unfold period; omega, le_refl _, trivial⟩

/-- The loop has just moved. -/
theorem Timed.moved (h : s.Timed commitTime) {n : Node} (hnow : n.now = s.node.now) (tick : Bool) :
    Timed commitTime { s with node := n, tick := tick, since := n.now } := by
  refine ⟨le_refl _, hnow ▸ h.now_le, hnow ▸ h.next_le, ?_⟩
  show match n.loop with
    | .idle => True
    | .waiting _ _ _ _ _ => n.now ≤ n.now + commitTime
    | _ => n.now = n.now
  split
  · trivial
  · omega
  · rfl

theorem Timed.step (h : s.Timed commitTime) (hm : Moved commitTime s a s') :
    s'.Timed commitTime := by
  have hsince := h.since_le
  have hnow := h.now_le
  have hnext := h.next_le
  cases hm with
  | fire heq =>
    refine ⟨hsince, ?_, ?_, h.loop⟩
    · show s.node.now ≤ s.nextTick + period
      unfold period
      omega
    · show s.nextTick + period ≤ s.node.now + period
      omega
  | skip => exact ⟨hsince, hnow, hnext, h.loop⟩
  | wait d hwait =>
    obtain ⟨hle, hstays⟩ := hwait
    refine ⟨?_, hle, ?_, ?_⟩
    · show s.since ≤ s.node.now + d
      omega
    · show s.nextTick ≤ s.node.now + d + period
      omega
    · -- only a loop that waits lets time pass
      show match s.node.loop with
        | .idle => True
        | .waiting _ _ _ _ _ => s.node.now + d ≤ s.since + commitTime
        | _ => s.node.now + d = s.since
      cases hloop : s.node.loop with
      | idle => trivial
      | waiting =>
        rw [hloop] at hstays
        exact hstays
      | isLeader | termRead | proposing | finishing =>
        rw [hloop] at hstays
        exact hstays.elim
  | received n htick hstep => exact h.moved ((Node.moved_of_step hstep).now_of_isLoop rfl) _
  | loop a n hloop hnot hstep => exact h.moved ((Node.moved_of_step hstep).now_of_isLoop hloop) _
  | other a n hloop hnot hstep =>
    obtain ⟨hpc, hclock⟩ := (Node.moved_of_step hstep).frame hloop hnot
    refine ⟨?_, ?_, ?_, ?_⟩
    · rw [hclock]
      exact hsince
    · rw [hclock]
      exact hnow
    · rw [hclock]
      exact hnext
    · rw [hclock, hpc]
      exact h.loop

theorem Ok.step (h : Ok commitTime s) (hm : Moved commitTime s a s') : Ok commitTime s' := by
  have htimed := h.timed.step hm
  rcases hm.node_cases with heq | ⟨b, -, hmoved⟩
  · exact ⟨heq ▸ h.inv, heq ▸ h.marked, heq ▸ h.told, heq ▸ h.filed, htimed⟩
  · exact ⟨h.inv.step hmoved, h.marked.step hmoved, h.told.step h.inv hmoved,
      h.filed.step h.inv hmoved, htimed⟩

/-- A loop that is about to expire a lease has moved lately. -/
theorem Timed.now_le_of_due (h : s.Timed commitTime) (hdue : s.node.loop.due ≠ []) :
    s.node.now ≤ s.since + commitTime := by
  have hloop := h.loop
  cases hpc : s.node.loop with
  | idle | isLeader | termRead =>
    rw [hpc] at hdue
    exact absurd rfl hdue
  | waiting =>
    rw [hpc] at hloop
    exact hloop
  | proposing | finishing =>
    rw [hpc] at hloop
    simp only at hloop
    omega

end Ok

/-! ## The loop does not hang -/

/-- The moves of the loop and of its ticker. -/
def Act.isOwn : Act → Bool
  | .fire | .skip => true
  | .node a => a.isLoop

/-- A proposal of the loop that is not accepted. -/
def Act.isRefused : Act → Bool
  | .node a => a.isRefused
  | _ => false

/-- There is something to do: time may pass, or the loop or the ticker has a move, or the loop waits
for an entry that Raft can go on to apply. -/
def Proceeds (s : Sweeper) : Prop :=
  (∃ d : Nat, 0 < d ∧ s.MayWait commitTime (s.node.now + d)) ∨
  (∃ a : Act, a.isOwn = true ∧ a.isRefused = false ∧ (s.step commitTime a).isSome) ∨
  ∃ term leaseID index entryTerm batch,
    s.node.loop = .waiting term leaseID index entryTerm batch ∧ s.node.raft.applied ≤ index ∧
      (s.step commitTime (.node (.raft .apply))).isSome

section Proceeds

variable {commitTime : Nat} {s s' : Sweeper} {a : Act}

/-- A move of the loop that is open to the node is open to the whole. -/
theorem proceeds_of_loop {b : Node.Act} (hloop : b.isLoop = true) (hnot : b ≠ .loopTick)
    (hrefused : b.isRefused = false) (hstep : (s.node.step b).isSome) : s.Proceeds commitTime := by
  refine Or.inr (Or.inl ⟨.node b, hloop, hrefused, ?_⟩)
  cases b with
  | loopTick => exact absurd rfl hnot
  | loopTerm | loopClaim | loopPropose | loopWait | loopFinish | loopEnd =>
    exact Option.isSome_map.trans hstep
  | _ => cases hloop

/-- What a loop that waits for its entry does. -/
theorem Ok.proceeds_waiting (h : Ok commitTime s) (hleader : s.node.raft.leader = true)
    (hearly : s.node.now < s.nextTick) {term leaseID entryTerm : UInt64} {index : Nat}
    {batch : List UInt64} (hpc : s.node.loop = .waiting term leaseID index entryTerm batch) :
    s.Proceeds commitTime := by
  by_cases htime : s.node.now < s.since + commitTime
  · refine Or.inl ⟨(min s.nextTick (s.since + commitTime) - s.node.now).toNat, by omega, ?_⟩
    have hsum : s.node.now + ((min s.nextTick (s.since + commitTime) - s.node.now).toNat : Int)
        = min s.nextTick (s.since + commitTime) := by omega
    rw [hsum]
    refine ⟨min_le_left _ _, ?_⟩
    rw [hpc]
    exact min_le_right _ _
  · by_cases hterm : s.node.raft.currentTerm = entryTerm
    · have hentry := (h.filed _ _ _ _ _ hpc).2 hleader hterm
      by_cases hindex : index < s.node.raft.applied
      · refine proceeds_of_loop (b := .loopWait true) rfl (by simp) rfl ?_
        simp [Node.step, Node.stepLoop, hpc, hindex, hentry]
      · -- the entry is in the log and is still to be applied
        have hlength := (List.getElem?_eq_some_iff.mp hentry).1
        have hmore : s.node.raft.applied < s.node.raft.log.length := by omega
        refine Or.inr (Or.inr ⟨_, _, _, _, _, hpc, Nat.not_lt.mp hindex, ?_⟩)
        simp [Sweeper.step, Node.step, Raft.step, hmore]
    · refine proceeds_of_loop (b := .loopWait false) rfl (by simp) rfl ?_
      simp [Node.step, Node.stepLoop, hpc, hterm]

/-- **The loop of a leader does not hang.** -/
theorem Ok.proceeds (h : Ok commitTime s) (hleader : s.node.raft.leader = true) :
    s.Proceeds commitTime := by
  have hnow := h.timed.now_le
  by_cases hfire : s.node.now = s.nextTick
  · exact Or.inr (Or.inl ⟨.fire, rfl, rfl, by rw [Sweeper.step, if_pos hfire]; rfl⟩)
  cases hpc : s.node.loop with
  | idle =>
    cases htick : s.tick with
    | true =>
      refine Or.inr (Or.inl ⟨.node .loopTick, rfl, rfl, ?_⟩)
      simp [Sweeper.step, htick, Node.step, Node.stepLoop, hpc, hleader]
    | false =>
      refine Or.inl ⟨(s.nextTick - s.node.now).toNat, by omega, by omega, ?_⟩
      rw [hpc]
      exact htick
  | isLeader =>
    refine proceeds_of_loop (b := .loopTerm) rfl (by simp) rfl ?_
    simp [Node.step, Node.stepLoop, hpc]
  | termRead term =>
    obtain ⟨leases, hleases⟩ := s.node.raft.fsm.exists_returnsLeases
    refine proceeds_of_loop (b := .loopClaim leases) rfl (by simp) rfl ?_
    simp [Node.step, Node.stepLoop, hpc, hleases]
  | proposing term batch =>
    cases batch with
    | nil =>
      refine proceeds_of_loop (b := .loopEnd) rfl (by simp) rfl ?_
      simp [Node.step, Node.stepLoop, hpc]
    | cons leaseID batch =>
      refine proceeds_of_loop (b := .loopPropose true) rfl (by simp) rfl ?_
      simp [Node.step, Node.stepLoop, hpc, hleader]
  | waiting term leaseID index entryTerm batch =>
    exact h.proceeds_waiting hleader (by omega) hpc
  | finishing term leaseID committed batch =>
    refine proceeds_of_loop (b := .loopFinish) rfl (by simp) rfl ?_
    simp [Node.step, Node.stepLoop, hpc]

end Proceeds

/-! ## How much there is to do -/

/-- The leases the loop is given. -/
def Act.leases : Act → List Lease
  | .node (.loopClaim leases) => leases
  | _ => []

/-- The loop finds no more leases than this. -/
def Few (bound : Nat) (_ : Sweeper) (a : Act) : Prop := a.leases.length ≤ bound

instance (bound : Nat) (s : Sweeper) (a : Act) : Decidable (s.Few bound a) :=
  inferInstanceAs (Decidable (_ ≤ _))

/-- How many moves the loop and the ticker can make up to a time: those of the pass at hand, those
of the pass for which there is a tick, and those for which the ticker is yet to fire. -/
def movesLeft (bound : Nat) (limit : Int) (s : Sweeper) : Nat :=
  s.node.loop.rank bound + (if s.tick then 3 * bound + 4 else 0)
    + (3 * bound + 5) * ((limit - s.nextTick) / period + 1).toNat

theorem movesLeft_moved {commitTime bound : Nat} {limit : Int} {s s' : Sweeper} {a : Act}
    (hm : Moved commitTime s a s') (hfew : s.Few bound a) (hlimit : s.node.now ≤ limit) :
    s'.movesLeft bound limit + (if a.isOwn then 1 else 0) ≤ s.movesLeft bound limit := by
  unfold movesLeft
  cases hm with
  | fire hnow =>
    -- one of the times that the ticker was to fire
    have hfires : ((limit - s.nextTick) / period + 1).toNat
        = ((limit - (s.nextTick + period)) / period + 1).toNat + 1 := by
      unfold period
      omega
    rw [hfires, Nat.mul_add_one]
    simp only [Act.isOwn, if_true]
    split <;> omega
  | skip htick =>
    simp only [Act.isOwn, htick, if_true, Bool.false_eq_true, if_false]
    omega
  | wait d => exact le_refl _
  | received n htick hstep =>
    obtain ⟨hpc, rfl⟩ := Node.of_loopTick hstep
    rw [hpc]
    simp only [Act.isOwn, Node.Act.isLoop, htick, if_true, Bool.false_eq_true, if_false,
      LoopPc.rank]
    omega
  | loop b n hloop hnot hstep =>
    have hclaim : ∀ leases, b = .loopClaim leases → leases.length ≤ bound := by
      rintro leases rfl
      exact hfew
    have hrank := (Node.moved_of_step hstep).rank_lt hloop hnot hclaim
    simp only [Act.isOwn, hloop, if_true]
    omega
  | other b n hloop hnot hstep =>
    obtain ⟨hpc, -⟩ := (Node.moved_of_step hstep).frame hloop hnot
    simp only [Act.isOwn, hloop, hpc]
    exact le_refl _

section Run

variable {commitTime bound : Nat} {term : UInt64} {t : Trace (step commitTime)} {now₀ : Int}
  {i k : Nat}

theorem ok_state (h0 : t.start = init now₀) (k : Nat) : Ok commitTime (t.state k) :=
  t.invariant (h0 ▸ ok_init now₀) (fun _ _ _ hs hok => hok.step (moved_of_step hs)) k

/-- The loop never has more to do than it can have claimed. -/
theorem due_le (h0 : t.start = init now₀) (hfew : t.Steps (Few bound)) (k : Nat) :
    (t.state k).node.loop.due.length ≤ bound := by
  refine t.invariant_from (I := fun s => s.node.loop.due.length ≤ bound) (Nat.zero_le k) ?_ ?_
  · rw [t.state_zero, h0]
    exact Nat.zero_le _
  · intro j a s' _ _ ha hs hle
    rcases (moved_of_step hs).node_cases with heq | ⟨b, rfl, hmoved⟩
    · rw [heq]
      exact hle
    · rcases hmoved.due_cases with hdue | ⟨leases, rfl, hdue⟩
      · exact hdue.trans hle
      · exact hdue.trans (hfew.at ha)

theorem now_mono (hik : i ≤ k) : (t.state i).node.now ≤ (t.state k).node.now := by
  refine t.invariant_from (I := fun s => (t.state i).node.now ≤ s.node.now) hik (le_refl _) ?_
  intro j a s' _ _ _ hs hle
  rcases (moved_of_step hs).node_cases with heq | ⟨b, -, hmoved⟩
  · rw [heq]
    exact hle
  · exact hle.trans hmoved.now_le

/-- **The loop does only so much in a time**: a pass for every tick, of three moves for each lease
and some more. -/
theorem countP_isOwn_le (h0 : t.start = init now₀) (hfew : t.Steps (Few bound)) (hik : i ≤ k) :
    ((t.between i k).countP Act.isOwn : Int)
      ≤ (3 * bound + 5) * (((t.state k).node.now - (t.state i).node.now) / period + 3) := by
  have hcount := t.countP_le_measure (μ := movesLeft bound (t.state k).node.now) (p := Act.isOwn)
    hik fun j a _ hjk ha =>
      movesLeft_moved (moved_of_step (t.step_state ha)) (hfew.at ha) (now_mono hjk.le)
  have hrank := LoopPc.rank_le (due_le h0 hfew i)
  have hnow := (ok_state h0 i).timed.now_le
  have hmono : (t.state i).node.now ≤ (t.state k).node.now := now_mono hik
  have hfires : (((t.state k).node.now - (t.state i).nextTick) / period + 1).toNat
      ≤ ((t.state k).node.now - (t.state i).node.now) / period + 1 := by
    unfold period
    omega
  unfold movesLeft at hcount
  generalize (((t.state k).node.now - (t.state i).nextTick) / period + 1).toNat = fires
    at hcount hfires
  generalize ((t.state k).node.now - (t.state i).node.now) / period = elapsed at hfires ⊢
  have hpasses : (((3 * bound + 5) * fires : Nat) : Int) ≤ (3 * bound + 5) * (elapsed + 1) := by
    rw [Int.natCast_mul]
    exact Int.mul_le_mul_of_nonneg_left hfires (Int.natCast_nonneg _)
  have hsplit : (3 * bound + 5 : Int) * (elapsed + 3)
      = (3 * bound + 5) * (elapsed + 1) + 2 * (3 * bound + 5) := by
    rw [show elapsed + 3 = elapsed + 1 + 2 by omega, Int.mul_add, Int.mul_comm _ 2]
  rw [hsplit]
  generalize (3 * bound + 5) * fires = passes at hcount hpasses
  split at hcount <;> omega

end Run

end Sweeper

end Clavis
