import Clavis.Jepsen.Checker

/-!
# The verdict of the Jepsen test

`FencedRegisterChecker` (`jepsen/src/clavis/jepsen.clj`) reads the history of a run and reports
seven kinds of violations. It first pairs every completion with the invocation of the same process,
in one pass over the history, and then looks at the completed operations only.

The maps of the test become structures with the entries that the checker reads; an entry that may be
missing is an option. Processes and resources are any types with decidable equality. The groups of
`group-by` are visited in any order.

* `Pairing.next`, `completedOps` — the pass over the history.
* `Violation`, `check` — the violations and the result.
* `Consistent` — what the checker is to establish of the completed operations, without a word on how
  it does. `check_valid_iff` is the connection: a run is valid exactly when its completed operations
  are consistent and there are enough successful ones.
-/

namespace Clavis.Jepsen

open Clavis.Lib

/-! ## The history -/

/-- `:type` -/
inductive OpType where
  | invoke
  | ok
  | fail
  | info
  deriving DecidableEq

/-- `:f` -/
inductive OpFn where
  | fencedWrite
  | other (name : String)
  deriving DecidableEq

/-- The keywords under `:error` in the value of a completed operation. -/
inductive OpError where
  | busy
  | lost
  | staleToken
  deriving DecidableEq

/-- `:value` -/
structure OpValue (R : Type) where
  resource : R
  token : Option Int
  held : Option (Int × Int)
  error : Option OpError
  deriving DecidableEq

/-- An operation of the history. -/
structure HistoryOp (P R : Type) where
  process : P
  f : OpFn
  type : OpType
  value : OpValue R
  time : Int
  index : Nat
  deriving DecidableEq

/-- The entries of a completed operation besides `:resource` and `:held`. -/
structure OpResult where
  resultType : OpType
  token : Option Int
  error : Option OpError
  invokeTime : Option Int
  completeTime : Int
  completeIndex : Nat
  deriving DecidableEq

abbrev Completed (R : Type) : Type := CompletedOp R OpResult

variable {P R : Type}

/-- The value of a completion, with what `check` adds to it. -/
def HistoryOp.completed (op : HistoryOp P R) (started : Option (HistoryOp P R)) : Completed R where
  resource := op.value.resource
  held := op.value.held
  data :=
    { resultType := op.type
      token := op.value.token
      error := op.value.error
      invokeTime := started.map HistoryOp.time
      completeTime := op.time
      completeIndex := op.index }

/-- The accumulator of the pass over the history. -/
structure Pairing (P R : Type) where
  pending : P × OpFn → Option (HistoryOp P R)
  completed : List (Completed R)

def Pairing.start : Pairing P R := ⟨fun _ => none, []⟩

variable [DecidableEq P]

def Pairing.next (acc : Pairing P R) (op : HistoryOp P R) : Pairing P R :=
  if op.type = .invoke then
    { acc with pending := Function.update acc.pending (op.process, op.f) (some op) }
  else if (op.type = .ok ∨ op.type = .fail) ∧ op.f = .fencedWrite then
    ⟨Function.update acc.pending (op.process, op.f) none,
      acc.completed ++ [op.completed (acc.pending (op.process, op.f))]⟩
  else { acc with pending := Function.update acc.pending (op.process, op.f) none }

/-- The accumulator after a history. -/
def paired (history : List (HistoryOp P R)) : Pairing P R := history.foldl Pairing.next .start

def completedOps (history : List (HistoryOp P R)) : List (Completed R) := (paired history).completed

theorem paired_concat (history : List (HistoryOp P R)) (op : HistoryOp P R) :
    paired (history ++ [op]) = (paired history).next op := by
  rw [paired, List.foldl_append]
  rfl

/-- An operation concerns the pending one of its process only. -/
theorem pending_concat_of_ne {history : List (HistoryOp P R)} {op : HistoryOp P R} {key : P × OpFn}
    (hkey : key ≠ (op.process, op.f)) :
    (paired (history ++ [op])).pending key = (paired history).pending key := by
  rw [paired_concat, Pairing.next]
  split_ifs <;> exact Function.update_of_ne hkey ..

theorem pending_concat_invoke {history : List (HistoryOp P R)} {op : HistoryOp P R}
    (htype : op.type = .invoke) :
    (paired (history ++ [op])).pending (op.process, op.f) = some op := by
  rw [paired_concat, Pairing.next, if_pos htype]
  exact Function.update_self ..

/-- What an operation adds to the completed ones. -/
theorem completedOps_concat (history : List (HistoryOp P R)) (op : HistoryOp P R) :
    completedOps (history ++ [op]) = completedOps history ++
      if (op.type = .ok ∨ op.type = .fail) ∧ op.f = .fencedWrite then
        [op.completed ((paired history).pending (op.process, op.f))]
      else [] := by
  rw [completedOps, paired_concat, Pairing.next]
  by_cases hinvoke : op.type = .invoke
  · simp [hinvoke, completedOps]
  · rw [if_neg hinvoke]
    split_ifs
    · rfl
    · exact (List.append_nil _).symm

/-! ## The checks -/

inductive Violation (R : Type) where
  | missingInvocation (operation : Completed R)
  | missingToken (operation : Completed R)
  | duplicateToken (token : Option Int) (operations : List (Completed R))
  | nonMonotonicToken (previous current : Completed R)
  | overlappingHolders (holders : OverlappingHolders R OpResult)
  | staleWhileHeld (operation : Completed R)
  | insufficientProgress (accepted minimum : Int)

section Checks

variable (ops : List (Completed R))

def accepted : List (Completed R) := ops.filter (·.data.resultType = .ok)

def staleRejections : List (Completed R) := ops.filter (·.data.error = some .staleToken)

def tokenResults : List (Completed R) :=
  ops.filter fun op => op.data.resultType = .ok ∨ op.data.token.isSome

def missingInvocations : List (Violation R) :=
  ((tokenResults ops).filter (·.data.invokeTime = none)).map .missingInvocation

def missingTokens : List (Violation R) :=
  ((tokenResults ops).filter (·.data.token = none)).map .missingToken

/-- `(group-by :token)` of the operations that have one. -/
def byToken : Finmap fun _ : Option Int => List (Completed R) :=
  groupBy (·.data.token) ((tokenResults ops).filter (·.data.token.isSome))

def duplicateTokens (order : VisitOrder (byToken ops)) : List (Violation R) :=
  (order.entries.filter fun group => 1 < group.2.length).map fun group =>
    .duplicateToken group.1 group.2

/-- `a` was over before `b` began, and its token is not the lower one. -/
def NonMonotonic (a b : Completed R) : Prop :=
  ∃ ta ∈ a.data.token, ∃ tb ∈ b.data.token, ∃ invokeTime ∈ b.data.invokeTime,
    a.data.completeIndex ≠ b.data.completeIndex ∧ a.data.completeTime < invokeTime ∧ ¬ ta < tb

instance (a b : Completed R) : Decidable (NonMonotonic a b) :=
  have (ta tb : Int) : Decidable (∃ invokeTime ∈ b.data.invokeTime,
      a.data.completeIndex ≠ b.data.completeIndex ∧ a.data.completeTime < invokeTime ∧
        ¬ ta < tb) := Option.decidableExistsMem _
  have (ta : Int) : Decidable (∃ tb ∈ b.data.token, ∃ invokeTime ∈ b.data.invokeTime,
      a.data.completeIndex ≠ b.data.completeIndex ∧ a.data.completeTime < invokeTime ∧
        ¬ ta < tb) := Option.decidableExistsMem _
  Option.decidableExistsMem _

def realtimeOrderViolations : List (Violation R) :=
  (tokenResults ops).flatMap fun a =>
    ((tokenResults ops).filter fun b => NonMonotonic a b).map fun b => .nonMonotonicToken a b

def staleWhileHeld : List (Violation R) :=
  ((staleRejections ops).filter (·.held.isSome)).map .staleWhileHeld

/-- `(max 1 (long (or (:min-successful-ops test) 1)))` -/
def minimumSuccesses (minSuccessfulOps : Option Int) : Int := max 1 (minSuccessfulOps.getD 1)

def progressViolations (minimum : Int) : List (Violation R) :=
  if (accepted ops).length < minimum then
    [.insufficientProgress (accepted ops).length minimum]
  else []

end Checks

/-- The result of `check`. -/
structure Verdict (R : Type) where
  valid : Bool
  acceptedCount : Nat
  staleRejectionCount : Nat
  heldCount : Nat
  lostCount : Nat
  resourceCount : Nat
  minimumSuccessfulOps : Int
  violations : List (Violation R)

/-- The orders in which the groups are visited. -/
structure GroupOrders [DecidableEq R] (ops : List (Completed R)) where
  tokens : VisitOrder (byToken ops)
  resources : VisitOrder (heldByResource ops)

def violations [DecidableEq R] (ops : List (Completed R)) (orders : GroupOrders ops)
    (minimum : Int) : List (Violation R) :=
  missingInvocations ops ++ missingTokens ops ++ duplicateTokens ops orders.tokens ++
    realtimeOrderViolations ops ++
    (mutualExclusionViolations ops orders.resources).map .overlappingHolders ++
    staleWhileHeld ops ++ progressViolations ops minimum

def check [DecidableEq R] (minSuccessfulOps : Option Int) (history : List (HistoryOp P R))
    (orders : GroupOrders (completedOps history)) : Verdict R :=
  let completed := completedOps history
  let minimum := minimumSuccesses minSuccessfulOps
  let violations := violations completed orders minimum
  { valid := violations.isEmpty
    acceptedCount := (accepted completed).length
    staleRejectionCount := (staleRejections completed).length
    heldCount := (holders completed).length
    lostCount := (completed.filter (·.data.error = some .lost)).length
    resourceCount := (groupBy (·.resource) (accepted completed)).keys.card
    minimumSuccessfulOps := minimum
    violations := violations }

/-! ## What a valid run is -/

/-- The completed operations are those of a lock service with fencing tokens. -/
structure Consistent (ops : List (Completed R)) : Prop where
  /-- Whoever got a token had asked for it. -/
  invoked : ∀ op ∈ tokenResults ops, op.data.invokeTime ≠ none
  /-- Every write was made under a token, -/
  fenced : ∀ op ∈ tokenResults ops, op.data.token ≠ none
  /-- which no other operation had, -/
  distinct : (tokenResults ops).Pairwise fun a b => a.data.token ≠ b.data.token
  /-- and tokens follow real time. -/
  monotonic : ∀ a ∈ tokenResults ops, ∀ b ∈ tokenResults ops, ¬ NonMonotonic a b
  exclusive : (holders ops).Pairwise fun a b => a.resource = b.resource → ¬ Overlaps a b
  /-- A write made while the lock was held was not fenced off. -/
  prompt : ∀ op ∈ ops, op.data.error = some .staleToken → op.held = none

section Valid

variable {ops : List (Completed R)}

theorem missingInvocations_eq_nil :
    missingInvocations ops = [] ↔ ∀ op ∈ tokenResults ops, op.data.invokeTime ≠ none := by
  simp [missingInvocations, List.filter_eq_nil_iff]

theorem missingTokens_eq_nil :
    missingTokens ops = [] ↔ ∀ op ∈ tokenResults ops, op.data.token ≠ none := by
  simp [missingTokens, List.filter_eq_nil_iff]

theorem realtimeOrderViolations_eq_nil : realtimeOrderViolations ops = [] ↔
    ∀ a ∈ tokenResults ops, ∀ b ∈ tokenResults ops, ¬ NonMonotonic a b := by
  simp [realtimeOrderViolations, List.flatMap_eq_nil_iff, List.filter_eq_nil_iff]

theorem staleWhileHeld_eq_nil : staleWhileHeld ops = [] ↔
    ∀ op ∈ ops, op.data.error = some .staleToken → op.held = none := by
  simp only [staleWhileHeld, staleRejections, List.map_eq_nil_iff, List.filter_eq_nil_iff,
    List.mem_filter, decide_eq_true_eq, Option.not_isSome_iff_eq_none, and_imp]

theorem progressViolations_eq_nil {minimum : Int} :
    progressViolations ops minimum = [] ↔ minimum ≤ (accepted ops).length := by
  simp [progressViolations]

/-- A group of `group-by` with two operations is a token given out twice. -/
theorem duplicateTokens_eq_nil (order : VisitOrder (byToken ops)) : duplicateTokens ops order = [] ↔
    ((tokenResults ops).filter (·.data.token.isSome)).Pairwise fun a b =>
      a.data.token ≠ b.data.token := by
  have hcount : ∀ token, ((tokenResults ops).filter (·.data.token.isSome)).countP
      (·.data.token = token) = (((tokenResults ops).filter (·.data.token.isSome)).map
        (·.data.token)).count token := by
    intro token
    rw [List.count, List.countP_map]
    exact List.countP_congr fun op _ => by simp
  have hpairwise : (((tokenResults ops).filter (·.data.token.isSome)).map (·.data.token)).Nodup ↔
      ((tokenResults ops).filter (·.data.token.isSome)).Pairwise fun a b =>
        a.data.token ≠ b.data.token := List.pairwise_map
  rw [← hpairwise, List.nodup_iff_count_le_one]
  simp only [duplicateTokens, List.map_eq_nil_iff, List.filter_eq_nil_iff, decide_eq_true_eq,
    not_lt, ← hcount, List.countP_eq_length_filter]
  constructor
  · -- every token that occurs has a group
    intro hgroups token
    by_cases hnil : ((tokenResults ops).filter (·.data.token.isSome)).filter
        (·.data.token = token) = []
    · rw [hnil]
      exact Nat.zero_le 1
    · have hlookup := lookup_groupBy (fun op : Completed R => op.data.token)
        ((tokenResults ops).filter (·.data.token.isSome)) token
      rw [if_neg hnil, ← byToken, ← order.dlookup_entries] at hlookup
      exact hgroups _ (List.of_mem_dlookup hlookup)
  · intro hall group hgroup
    rw [order.mem_entries_groupBy hgroup]
    exact hall group.1

/-- Operations that all have tokens. -/
theorem filter_token (hfenced : ∀ op ∈ tokenResults ops, op.data.token ≠ none) :
    (tokenResults ops).filter (·.data.token.isSome) = tokenResults ops := by
  refine List.filter_eq_self.mpr fun op hop => ?_
  exact Option.isSome_iff_ne_none.mpr (hfenced op hop)

/-- **There are no violations exactly when the run is consistent and has made progress.** -/
theorem violations_eq_nil [DecidableEq R] (hproper : ProperIntervals ops)
    (orders : GroupOrders ops) {minimum : Int} : violations ops orders minimum = [] ↔
      Consistent ops ∧ minimum ≤ (accepted ops).length := by
  simp only [violations, List.append_eq_nil_iff, List.map_eq_nil_iff, missingInvocations_eq_nil,
    missingTokens_eq_nil, duplicateTokens_eq_nil, realtimeOrderViolations_eq_nil,
    mutualExclusionViolations_eq_nil orders.resources hproper, staleWhileHeld_eq_nil,
    progressViolations_eq_nil]
  constructor
  · rintro ⟨⟨⟨⟨⟨⟨hinvoked, hfenced⟩, hdistinct⟩, hmonotonic⟩, hexclusive⟩, hprompt⟩, hprogress⟩
    rw [filter_token hfenced] at hdistinct
    exact ⟨⟨hinvoked, hfenced, hdistinct, hmonotonic, hexclusive, hprompt⟩, hprogress⟩
  · rintro ⟨h, hprogress⟩
    refine ⟨⟨⟨⟨⟨⟨h.invoked, h.fenced⟩, ?_⟩, h.monotonic⟩, h.exclusive⟩, h.prompt⟩, hprogress⟩
    rw [filter_token h.fenced]
    exact h.distinct

end Valid

/-- **The verdict.** When every `:held` interval starts before it ends, a run is valid exactly when
its completed operations are consistent and the minimum of them has succeeded, in whatever order the
groups are visited. -/
theorem check_valid_iff [DecidableEq R] (minSuccessfulOps : Option Int)
    (history : List (HistoryOp P R)) (orders : GroupOrders (completedOps history))
    (hproper : ProperIntervals (completedOps history)) :
    (check minSuccessfulOps history orders).valid = true ↔
      Consistent (completedOps history) ∧
        minimumSuccesses minSuccessfulOps ≤ (accepted (completedOps history)).length := by
  rw [← violations_eq_nil hproper orders]
  exact List.isEmpty_iff

/-- Two processes write one after the other, with a partition between; the second one also loses
a session. -/
def handover : List (HistoryOp Nat Nat) :=
  [⟨0, .fencedWrite, .invoke, ⟨7, none, none, none⟩, 10, 0⟩,
    ⟨1, .fencedWrite, .invoke, ⟨7, none, none, none⟩, 12, 1⟩,
    ⟨0, .fencedWrite, .ok, ⟨7, some 1, some (20, 30), none⟩, 31, 2⟩,
    ⟨9, .other "partition-start", .info, ⟨0, none, none, none⟩, 32, 3⟩,
    ⟨1, .fencedWrite, .fail, ⟨7, some 2, none, some .lost⟩, 40, 4⟩,
    ⟨1, .fencedWrite, .invoke, ⟨7, none, none, none⟩, 50, 5⟩,
    ⟨1, .fencedWrite, .ok, ⟨7, some 3, some (60, 70), none⟩, 71, 6⟩]

def handoverOrders : GroupOrders (completedOps handover) where
  tokens :=
    { entries := [⟨some 1, (completedOps handover).take 1⟩,
        ⟨some 2, ((completedOps handover).drop 1).take 1⟩, ⟨some 3, (completedOps handover).drop 2⟩]
      entries_eq := by decide }
  resources :=
    { entries := [⟨7, heldOn (completedOps handover) 7⟩]
      entries_eq := by decide }

theorem check_valid_iff_handover :
    ProperIntervals (completedOps handover) ∧
      (check (some 2) handover handoverOrders).valid = true := by
  have hproper : ProperIntervals (completedOps handover) := by unfold ProperIntervals; decide
  refine ⟨hproper, (check_valid_iff (some 2) handover handoverOrders hproper).mpr ⟨?_, ?_⟩⟩
  · exact ⟨by decide, by decide, by decide, by decide, by decide, by decide⟩
  · decide

end Clavis.Jepsen
