import Clavis.Lib.Sequence
import Clavis.Lib.Interval

/-!
# The mutual-exclusion check of the Jepsen test

`mutual-exclusion-violations` (`jepsen/src/clavis/jepsen.clj`) looks through the completed
operations of a run for two that held one resource at overlapping times. It groups the operations
that have a `:held` interval by resource, sorts each group by the start of the interval, and goes
over it once, remembering only the operation whose interval ends last.

The operations are maps; of their entries the check reads `:resource` and `:held`, and the rest is
the parameter `D`. Resources are any type with decidable equality. The groups come out of a map, in
an order the check does not fix: every statement is for all of them.

* `Swept` — what the accumulator of the pass says of the operations passed: `Swept.next` is one step
  and `Swept.foldl` the whole pass. What it reports is what the comparison of every operation with
  all earlier ones (`Lib.overlapping`) finds.
* `currents_on` — the same of the report on each resource, from which the soundness and completeness
  of the check follow.
-/

namespace Clavis.Jepsen

open Clavis.Lib

variable {R D : Type}

/-! ## The check -/

/-- A completed operation, with what the check reads of it. -/
structure CompletedOp (R D : Type) where
  resource : R
  held : Option (Int × Int)
  data : D
  deriving DecidableEq

/-- An operation that has a `:held` interval. -/
structure HeldOp (R D : Type) where
  op : CompletedOp R D
  isHeld : op.held.isSome
  deriving DecidableEq

namespace HeldOp

def interval (op : HeldOp R D) : Int × Int := op.op.held.get op.isHeld

/-- `(first (:held op))` -/
def start (op : HeldOp R D) : Int := op.interval.1

/-- `(second (:held op))` -/
def stop (op : HeldOp R D) : Int := op.interval.2

def resource (op : HeldOp R D) : R := op.op.resource

end HeldOp

/-- Two operations held their resource at once. -/
abbrev Overlaps (a b : HeldOp R D) : Prop := Overlap HeldOp.start HeldOp.stop a b

/-- `(filter :held ops)` -/
def holders (ops : List (CompletedOp R D)) : List (HeldOp R D) :=
  ops.filterMap fun op => if h : op.held.isSome then some ⟨op, h⟩ else none

/-- `{:type :overlapping-holders :previous … :current …}` -/
structure OverlappingHolders (R D : Type) where
  previous : HeldOp R D
  current : HeldOp R D
  deriving DecidableEq

/-- The accumulator of the pass over a group. -/
structure Sweep (R D : Type) where
  latest : Option (HeldOp R D)
  violations : List (OverlappingHolders R D)

/-- What the pass does with an operation. -/
def Sweep.next (acc : Sweep R D) (op : HeldOp R D) : Sweep R D :=
  let acc' :=
    match acc.latest with
    | some latest =>
      if op.start < latest.stop then
        { acc with violations := acc.violations ++ [⟨latest, op⟩] }
      else acc
    | none => acc
  -- `(or (nil? latest) …)`
  if acc.latest.all (·.stop < op.stop) then { acc' with latest := some op } else acc'

/-- The violations among the operations on one resource. -/
def groupViolations (held : List (HeldOp R D)) : List (OverlappingHolders R D) :=
  ((sortBy HeldOp.start held).foldl Sweep.next ⟨none, []⟩).violations

/-- The operations that held something, by resource. -/
def heldByResource [DecidableEq R] (ops : List (CompletedOp R D)) :
    Finmap fun _ : R => List (HeldOp R D) :=
  groupBy HeldOp.resource (holders ops)

/-- The check, for an order in which the groups are visited. -/
def mutualExclusionViolations [DecidableEq R] (ops : List (CompletedOp R D))
    (order : VisitOrder (heldByResource ops)) : List (OverlappingHolders R D) :=
  order.entries.flatMap fun group => groupViolations group.2

/-- The operations that held `r`. -/
def heldOn [DecidableEq R] (ops : List (CompletedOp R D)) (r : R) : List (HeldOp R D) :=
  (holders ops).filter (·.resource = r)

/-- The operations that held `r`, in the order in which they started to. -/
def startOrder [DecidableEq R] (ops : List (CompletedOp R D)) (r : R) : List (HeldOp R D) :=
  sortBy HeldOp.start (heldOn ops r)

/-- Every `:held` interval starts before it ends. -/
def ProperIntervals (ops : List (CompletedOp R D)) : Prop :=
  ∀ op ∈ ops, ∀ i ∈ op.held, i.1 < i.2

theorem mem_holders {ops : List (CompletedOp R D)} {op : HeldOp R D} :
    op ∈ holders ops ↔ op.op ∈ ops := by
  simp only [holders, List.mem_filterMap]
  constructor
  · rintro ⟨op', hmem, heq⟩
    split at heq
    · cases heq
      exact hmem
    · cases heq
  · intro hmem
    exact ⟨op.op, hmem, dif_pos op.isHeld⟩

theorem ProperIntervals.start_lt_stop {ops : List (CompletedOp R D)} (h : ProperIntervals ops)
    {op : HeldOp R D} (hop : op ∈ holders ops) : op.start < op.stop :=
  h op.op (mem_holders.mp hop) op.interval (Option.get_mem op.isHeld)

/-! ## The pass over one group -/

/-- What the accumulator says of the operations passed. -/
structure Swept (seen : List (HeldOp R D)) (acc : Sweep R D) : Prop where
  latest : Latest HeldOp.stop seen acc.latest
  /-- Every operation that overlaps an earlier one has been reported, and no other. -/
  currents : acc.violations.map (·.current) = overlapping HeldOp.start HeldOp.stop [] seen
  pairs : ∀ v ∈ acc.violations, v.previous ∈ seen ∧ Overlaps v.previous v.current

theorem swept_nil : Swept (R := R) (D := D) [] ⟨none, []⟩ where
  latest := rfl
  currents := rfl
  pairs := by simp

variable {seen : List (HeldOp R D)} {acc : Sweep R D} {op : HeldOp R D}

theorem next_of_none (h : acc.latest = none) : acc.next op = ⟨some op, acc.violations⟩ := by
  simp [Sweep.next, h]

theorem next_of_some {latest : HeldOp R D} (h : acc.latest = some latest) :
    acc.next op = ⟨some (if latest.stop < op.stop then op else latest),
      acc.violations ++ if op.start < latest.stop then [⟨latest, op⟩] else []⟩ := by
  obtain ⟨_, violations⟩ := acc
  cases h
  simp only [Sweep.next, Option.all_some, decide_eq_true_eq]
  split <;> split <;> simp

/-- **The step of the pass**: an operation with a proper interval, which starts no earlier than
those passed. -/
theorem Swept.next (h : Swept seen acc) (hstart : ∀ p ∈ seen, p.start ≤ op.start)
    (hop : op.start < op.stop) : Swept (seen ++ [op]) (acc.next op) := by
  cases hlatest : acc.latest with
  | none =>
    -- the first operation, which has nothing to overlap with
    have hnil : Latest HeldOp.stop seen none := hlatest ▸ h.latest
    cases hnil
    have hnone : acc.violations = [] := List.map_eq_nil_iff.mp h.currents
    rw [next_of_none hlatest, hnone]
    exact ⟨⟨List.mem_singleton_self op, by simp⟩, by simp [overlapping], by simp⟩
  | some latest =>
    have hlast : Latest HeldOp.stop seen (some latest) := hlatest ▸ h.latest
    have hex : (∃ p ∈ [] ++ seen, Overlaps p op) ↔ op.start < latest.stop :=
      exists_overlap_iff hlast hstart hop
    rw [next_of_some hlatest]
    -- whether `op` is reported and whether it becomes the latest do not depend on each other
    refine ⟨?_, ?_, ?_⟩
    · show Latest HeldOp.stop (seen ++ [op]) (some (if latest.stop < op.stop then op else latest))
      split
      · rename_i hlt
        exact hlast.replace hlt.le
      · rename_i hle
        exact hlast.keep (not_lt.mp hle)
    · rw [List.map_append, h.currents, overlapping_concat, if_congr hex rfl rfl]
      split <;> rfl
    · intro v hv
      rcases List.mem_append.mp hv with hold | hnew
      · exact ⟨List.mem_append_left _ (h.pairs v hold).1, (h.pairs v hold).2⟩
      · split at hnew
        · rename_i hlt
          cases List.mem_singleton.mp hnew
          exact ⟨List.mem_append_left _ hlast.1, (hstart latest hlast.1).trans_lt hop, hlt⟩
        · cases hnew

/-- **The whole pass**, from any point of a list in start order. -/
theorem Swept.foldl (h : Swept seen acc) {l : List (HeldOp R D)}
    (hordered : (seen ++ l).Pairwise fun a b => a.start ≤ b.start)
    (hproper : ∀ op ∈ l, op.start < op.stop) : Swept (seen ++ l) (l.foldl Sweep.next acc) := by
  induction l generalizing seen acc with
  | nil => simpa using h
  | cons op l ih =>
    have hstart : ∀ p ∈ seen, p.start ≤ op.start := fun p hp =>
      (List.pairwise_append.mp hordered).2.2 p hp op List.mem_cons_self
    rw [List.append_cons] at hordered
    have hstep := h.next hstart (hproper op List.mem_cons_self)
    have hrest := ih hstep hordered fun op' hop' => hproper op' (List.mem_cons_of_mem _ hop')
    rwa [← List.append_cons] at hrest

/-- What the pass reports on one resource. -/
theorem swept_groupViolations {held : List (HeldOp R D)}
    (hproper : ∀ op ∈ held, op.start < op.stop) :
    (groupViolations held).map (·.current)
        = overlapping HeldOp.start HeldOp.stop [] (sortBy HeldOp.start held) ∧
      ∀ v ∈ groupViolations held, v.previous ∈ held ∧ Overlaps v.previous v.current := by
  have hsorted := stablySorted_sortBy HeldOp.start held
  have hswept := swept_nil.foldl (l := sortBy HeldOp.start held) hsorted.ordered
    fun op hop => hproper op (hsorted.perm.mem_iff.mp hop)
  exact ⟨hswept.currents, fun v hv =>
    ⟨hsorted.perm.mem_iff.mp (hswept.pairs v hv).1, (hswept.pairs v hv).2⟩⟩

/-! ## The report -/

section Report

variable [DecidableEq R] {ops : List (CompletedOp R D)}

theorem mem_heldOn {op : HeldOp R D} {r : R} :
    op ∈ heldOn ops r ↔ op ∈ holders ops ∧ op.resource = r := by
  simp [heldOn]

theorem mem_startOrder {op : HeldOp R D} {r : R} : op ∈ startOrder ops r ↔ op ∈ heldOn ops r :=
  (stablySorted_sortBy HeldOp.start (heldOn ops r)).perm.mem_iff

theorem swept_heldOn (hproper : ProperIntervals ops) (r : R) :
    (groupViolations (heldOn ops r)).map (·.current)
        = overlapping HeldOp.start HeldOp.stop [] (startOrder ops r) ∧
      ∀ v ∈ groupViolations (heldOn ops r),
        v.previous ∈ heldOn ops r ∧ Overlaps v.previous v.current :=
  swept_groupViolations fun _ hop => hproper.start_lt_stop (mem_heldOn.mp hop).1

theorem current_mem_heldOn (hproper : ProperIntervals ops) {r : R} {v : OverlappingHolders R D}
    (hv : v ∈ groupViolations (heldOn ops r)) : v.current ∈ heldOn ops r := by
  have hmem := List.mem_map_of_mem (f := (·.current)) hv
  rw [(swept_heldOn hproper r).1] at hmem
  obtain ⟨before, after, hsplit, -⟩ := mem_overlapping.mp hmem
  exact mem_startOrder.mp (hsplit ▸ List.mem_append_right _ List.mem_cons_self)

variable (order : VisitOrder (heldByResource ops))

/-- What the check reports on a resource is what the pass over the resource's group finds. -/
theorem filter_mutualExclusionViolations (hproper : ProperIntervals ops) (r : R) :
    (mutualExclusionViolations ops order).filter (·.current.resource = r)
      = groupViolations (heldOn ops r) :=
  order.filter_flatMap groupViolations (·.current.resource) rfl
    (fun _ _ hv => (mem_heldOn.mp (current_mem_heldOn hproper hv)).2) r

theorem mem_mutualExclusionViolations (hproper : ProperIntervals ops)
    {v : OverlappingHolders R D} :
    v ∈ mutualExclusionViolations ops order ↔
      v ∈ groupViolations (heldOn ops v.current.resource) := by
  rw [← filter_mutualExclusionViolations order hproper]
  simp

/-- The operations reported on a resource, in the order of the report. -/
theorem currents_on (hproper : ProperIntervals ops) (r : R) :
    ((mutualExclusionViolations ops order).filter (·.current.resource = r)).map (·.current)
      = overlapping HeldOp.start HeldOp.stop [] (startOrder ops r) := by
  rw [filter_mutualExclusionViolations order hproper, (swept_heldOn hproper r).1]

theorem reported_iff (hproper : ProperIntervals ops) (op : HeldOp R D) :
    (∃ v ∈ mutualExclusionViolations ops order, v.current = op) ↔
      ∃ before after, startOrder ops op.resource = before ++ op :: after ∧
        ∃ p ∈ before, Overlaps p op := by
  have hmem : op ∈ overlapping HeldOp.start HeldOp.stop [] (startOrder ops op.resource) ↔ _ :=
    mem_overlapping
  rw [← currents_on order hproper op.resource] at hmem
  refine Iff.trans ?_ hmem
  constructor
  · rintro ⟨v, hv, rfl⟩
    exact List.mem_map_of_mem (List.mem_filter.mpr ⟨hv, decide_eq_true rfl⟩)
  · intro hop
    obtain ⟨v, hv, rfl⟩ := List.mem_map.mp hop
    exact ⟨v, (List.mem_filter.mp hv).1, rfl⟩

/-- No operation is reported on a resource exactly when no two operations on it overlap. -/
theorem groupViolations_eq_nil (hproper : ProperIntervals ops) (r : R) :
    groupViolations (heldOn ops r) = [] ↔
      (heldOn ops r).Pairwise fun a b => ¬ Overlaps a b := by
  rw [← List.map_eq_nil_iff (f := (·.current)), (swept_heldOn hproper r).1, overlapping_eq_nil]
  exact (stablySorted_sortBy HeldOp.start (heldOn ops r)).perm.pairwise_iff
    fun hnot hover => hnot hover.symm

theorem mutualExclusionViolations_eq_nil (hproper : ProperIntervals ops) :
    mutualExclusionViolations ops order = [] ↔
      (holders ops).Pairwise fun a b => a.resource = b.resource → ¬ Overlaps a b := by
  have hgroups : mutualExclusionViolations ops order = [] ↔
      ∀ r, groupViolations (heldOn ops r) = [] := by
    simp only [List.eq_nil_iff_forall_not_mem, mem_mutualExclusionViolations order hproper]
    constructor
    · intro hnone r v hv
      have hr := (mem_heldOn.mp (current_mem_heldOn hproper hv)).2
      exact hnone v (hr ▸ hv)
    · exact fun hnone v => hnone _ v
  simp only [hgroups, groupViolations_eq_nil hproper]
  simp only [heldOn, List.pairwise_filter, decide_eq_true_eq]
  -- no two overlap among those on `r`, for each `r`, or no two on the same resource
  constructor
  · intro hall
    refine List.pairwise_iff_getElem.mpr fun i j hi hj hij hr => ?_
    exact List.pairwise_iff_getElem.mp (hall _) i j hi hj hij hr rfl
  · exact fun hall r => hall.imp fun hab ha hb => hab (ha.trans hb.symm)

/-- **The check is sound and complete.** Let every `:held` interval start before it ends, and let
the groups be visited in any order.

On every resource the operations reported, in the order of the report, are those of a stable sort
by start that overlap one before them. So an operation is reported exactly when it overlaps one
that precedes it in start order; the report is empty exactly when no two operations on a resource
overlap; and each reported pair consists of two operations on one resource that overlap. -/
theorem mutualExclusionViolations_sound_and_complete (ops : List (CompletedOp R D))
    (order : VisitOrder (heldByResource ops)) (hproper : ProperIntervals ops) :
    (∀ r, StablySorted HeldOp.start (heldOn ops r) (startOrder ops r) ∧
      ((mutualExclusionViolations ops order).filter (·.current.resource = r)).map (·.current)
        = overlapping HeldOp.start HeldOp.stop [] (startOrder ops r)) ∧
    (∀ op, (∃ v ∈ mutualExclusionViolations ops order, v.current = op) ↔
      ∃ before after, startOrder ops op.resource = before ++ op :: after ∧
        ∃ p ∈ before, Overlaps p op) ∧
    (mutualExclusionViolations ops order = [] ↔
      (holders ops).Pairwise fun a b => a.resource = b.resource → ¬ Overlaps a b) ∧
    (∀ v ∈ mutualExclusionViolations ops order,
      v.previous ∈ holders ops ∧ v.current ∈ holders ops ∧
      v.previous.resource = v.current.resource ∧ Overlaps v.previous v.current) := by
  refine ⟨fun r => ⟨stablySorted_sortBy HeldOp.start _, currents_on order hproper r⟩,
    reported_iff order hproper, mutualExclusionViolations_eq_nil order hproper, fun v hv => ?_⟩
  have hv' := (mem_mutualExclusionViolations order hproper).mp hv
  obtain ⟨hprevious, hoverlap⟩ := (swept_heldOn hproper _).2 v hv'
  obtain ⟨hprevious, hresource⟩ := mem_heldOn.mp hprevious
  exact ⟨hprevious, (mem_heldOn.mp (current_mem_heldOn hproper hv')).1, hresource, hoverlap⟩

end Report

/-- On resource 1 a long hold with two short ones within it, which do not overlap each other, and a
failed operation; on resource 2 two holds that meet. -/
def nestedHolds : List (CompletedOp Nat Nat) :=
  [⟨2, some (4, 5), 15⟩, ⟨1, some (5, 6), 12⟩, ⟨1, none, 13⟩, ⟨1, some (0, 10), 10⟩,
    ⟨1, some (1, 3), 11⟩, ⟨2, some (0, 4), 14⟩]

def nestedHoldsOrder : VisitOrder (heldByResource nestedHolds) where
  entries := [⟨1, heldOn nestedHolds 1⟩, ⟨2, heldOn nestedHolds 2⟩]
  entries_eq := by decide

theorem nestedHolds_reported :
    ProperIntervals nestedHolds ∧
      (∃ v ∈ mutualExclusionViolations nestedHolds nestedHoldsOrder,
        v.current.op = ⟨1, some (5, 6), 12⟩) ∧
      mutualExclusionViolations nestedHolds nestedHoldsOrder ≠ [] := by
  have hproper : ProperIntervals nestedHolds := by unfold ProperIntervals; decide
  obtain ⟨-, hreported, hnil, -⟩ :=
    mutualExclusionViolations_sound_and_complete nestedHolds nestedHoldsOrder hproper
  refine ⟨hproper, ?_, ?_⟩
  · obtain ⟨v, hv, hcurrent⟩ := (hreported ⟨⟨1, some (5, 6), 12⟩, rfl⟩).mpr
      ⟨[⟨⟨1, some (0, 10), 10⟩, rfl⟩, ⟨⟨1, some (1, 3), 11⟩, rfl⟩], [],
        by decide, _, List.mem_cons_self, by decide⟩
    exact ⟨v, hv, congrArg HeldOp.op hcurrent⟩
  · exact fun hempty => absurd (hnil.mp hempty) (by decide)

end Clavis.Jepsen
