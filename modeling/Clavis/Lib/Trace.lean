import Mathlib.Data.Nat.Init
import Mathlib.Logic.Function.Basic

/-!
# Finite runs of a partial step function

`step s a` is the state after taking action `a` in state `s`, or `none` when `a` is not enabled
there. A `Trace` is a start state with a list of actions that are enabled one after the other, and
`Trace.state k` is the state after the first `k` of them, so that a property of a run speaks about
positions. `Trace.invariant_from` is the induction rule: what holds at one position and is kept by
every later step holds at every later position. `update_eq_some` reads an entry of a table of calls
after a step has written one, and `Apart` is what holds between any two parties of a system.
-/

namespace Clavis.Lib

variable {S A : Type}

/-- Take the actions of a list one after the other. -/
def run (step : S → A → Option S) : S → List A → Option S
  | s, [] => some s
  | s, a :: as => (step s a).bind fun s' => run step s' as

theorem run_append (step : S → A → Option S) (s : S) (as bs : List A) :
    run step s (as ++ bs) = (run step s as).bind fun s' => run step s' bs := by
  induction as generalizing s with
  | nil => rfl
  | cons a as ih =>
    rw [List.cons_append, run, run]
    cases step s a with
    | none => rfl
    | some s' => exact ih s'

theorem run_take_isSome {step : S → A → Option S} {s : S} {as : List A}
    (h : (run step s as).isSome) (k : Nat) : (run step s (as.take k)).isSome := by
  rw [← List.take_append_drop k as, run_append] at h
  cases hrun : run step s (as.take k) with
  | none => simp [hrun] at h
  | some s' => rfl

/-- A finite run. -/
structure Trace (step : S → A → Option S) where
  start : S
  acts : List A
  enabled : (run step start acts).isSome

namespace Trace

variable {step : S → A → Option S} (t : Trace step)

/-- The state after the first `k` actions. -/
def state (k : Nat) : S := (run step t.start (t.acts.take k)).get (run_take_isSome t.enabled k)

theorem run_state (k : Nat) : run step t.start (t.acts.take k) = some (t.state k) := by
  rw [state, Option.some_get]

theorem state_eq {k : Nat} {s : S} (h : run step t.start (t.acts.take k) = some s) :
    t.state k = s :=
  Option.some.inj ((t.run_state k).symm.trans h)

@[simp] theorem state_zero : t.state 0 = t.start := rfl

/-- One action of the run. -/
theorem step_state {k : Nat} {a : A} (h : t.acts[k]? = some a) :
    step (t.state k) a = some (t.state (k + 1)) := by
  have hrun := t.run_state (k + 1)
  rw [List.take_add_one, h, run_append, t.run_state k, Option.bind_some] at hrun
  simp only [Option.toList_some, run] at hrun
  cases hstep : step (t.state k) a with
  | none =>
    rw [hstep] at hrun
    cases hrun
  | some s' =>
    rw [hstep] at hrun
    exact hrun

theorem state_succ {k : Nat} {a : A} {s' : S} (h : t.acts[k]? = some a)
    (hstep : step (t.state k) a = some s') : t.state (k + 1) = s' :=
  Option.some.inj ((t.step_state h).symm.trans hstep)

theorem state_of_none {k : Nat} (h : t.acts[k]? = none) : t.state (k + 1) = t.state k := by
  have hrun := t.run_state (k + 1)
  rw [List.take_add_one, h, Option.toList_none, List.append_nil, t.run_state k] at hrun
  exact (Option.some.inj hrun).symm

/-- **The induction rule along a run**, from a position on. -/
theorem invariant_from {I : S → Prop} {j k : Nat} (hjk : j ≤ k) (hj : I (t.state j))
    (hstep : ∀ i a s', j ≤ i → i < k → t.acts[i]? = some a → step (t.state i) a = some s' →
      I (t.state i) → I s') : I (t.state k) := by
  induction k, hjk using Nat.le_induction with
  | base => exact hj
  | succ k hjk ih =>
    have hk : I (t.state k) := ih fun i a s' hji hik => hstep i a s' hji (by omega)
    cases ha : t.acts[k]? with
    | none => exact t.state_of_none ha ▸ hk
    | some a => exact hstep k a _ hjk (by omega) ha (t.step_state ha) hk

/-- What holds at the start and is kept by every step holds throughout. -/
theorem invariant {I : S → Prop} (h0 : I t.start)
    (hstep : ∀ s a s', step s a = some s' → I s → I s') (k : Nat) : I (t.state k) :=
  t.invariant_from (Nat.zero_le k) h0 fun _ a s' _ _ _ hs hI => hstep _ a s' hs hI

/-- **The change rule**: what holds at a position and did not hold at an earlier one was brought
about by a step in between. -/
theorem exists_change {P : S → Prop} {j k : Nat} (hjk : j ≤ k) (hj : ¬ P (t.state j))
    (hk : P (t.state k)) :
    ∃ i a, j ≤ i ∧ i < k ∧ t.acts[i]? = some a ∧ ¬ P (t.state i) ∧ P (t.state (i + 1)) := by
  refine Classical.byContradiction fun hnone => ?_
  refine t.invariant_from (I := fun s => ¬ P s) hjk hj ?_ hk
  intro i a s' hji hik ha hstep hi hs'
  exact hnone ⟨i, a, hji, hik, ha, hi, t.state_succ ha hstep ▸ hs'⟩

/-- **The measure rule**: a stretch of a run along which a measure decreases is no longer than the
measure. -/
theorem le_measure {μ : S → Nat} {j k : Nat} (hjk : j ≤ k)
    (hdec : ∀ i, j ≤ i → i < k → μ (t.state (i + 1)) < μ (t.state i)) :
    k - j ≤ μ (t.state j) := by
  have hsum : k - j + μ (t.state k) ≤ μ (t.state j) := by
    induction k, hjk using Nat.le_induction with
    | base => omega
    | succ k hjk ih =>
      have hk := ih fun i hji hik => hdec i hji (by omega)
      have hlast := hdec k hjk (by omega)
      omega
  omega

/-- The actions from position `j` up to position `k`. -/
def between (j k : Nat) : List A := (t.acts.take k).drop j

/-- **The counting rule**: a measure that nothing increases, and that certain actions decrease,
bounds the number of these actions. -/
theorem countP_le_measure {μ : S → Nat} {p : A → Bool} {j k : Nat} (hjk : j ≤ k)
    (hdec : ∀ i a, j ≤ i → i < k → t.acts[i]? = some a →
      μ (t.state (i + 1)) + (if p a then 1 else 0) ≤ μ (t.state i)) :
    (t.between j k).countP p ≤ μ (t.state j) := by
  have hsum : (t.between j k).countP p + μ (t.state k) ≤ μ (t.state j) := by
    induction k, hjk using Nat.le_induction with
    | base => simp [between, List.drop_eq_nil_of_le (List.length_take_le _ _)]
    | succ k hjk ih =>
      have hk := ih fun i a hji hik => hdec i a hji (by omega)
      cases ha : t.acts[k]? with
      | none =>
        rw [t.state_of_none ha, between, List.take_add_one, ha, Option.toList_none,
          List.append_nil]
        exact hk
      | some a =>
        have hlast := hdec k a hjk (by omega) ha
        have hlength : j ≤ (t.acts.take k).length := by
          have hlt := (List.getElem?_eq_some_iff.mp ha).1
          rw [List.length_take]
          omega
        rw [between, List.take_add_one, ha, List.drop_append_of_le_length hlength,
          List.countP_append, Option.toList_some, List.countP_singleton]
        have hold : ((t.acts.take k).drop j).countP p + μ (t.state k) ≤ μ (t.state j) := hk
        omega
  omega

/-- Every action of the run is taken in a state that it suits. -/
def Steps (P : S → A → Prop) : Prop := ∀ k < t.acts.length, ∀ a ∈ t.acts[k]?, P (t.state k) a

instance (P : S → A → Prop) [∀ s a, Decidable (P s a)] : Decidable (t.Steps P) :=
  inferInstanceAs (Decidable (∀ k < _, _))

theorem steps_of_forall {P : S → A → Prop} {t : Trace step} (h : ∀ a ∈ t.acts, ∀ s, P s a) :
    t.Steps P :=
  fun _ _ a ha => h a (List.mem_of_getElem? ha) _

theorem Steps.at {P : S → A → Prop} {t : Trace step} (h : t.Steps P) {k : Nat} {a : A}
    (ha : t.acts[k]? = some a) : P (t.state k) a :=
  h k (List.getElem?_eq_some_iff.mp ha).1 a ha

/-- Every action from position `i` up to position `k` is taken in a state that it suits. -/
def During (P : S → A → Prop) (i k : Nat) : Prop :=
  ∀ j < k, i ≤ j → ∀ a ∈ t.acts[j]?, P (t.state j) a

instance (P : S → A → Prop) [∀ s a, Decidable (P s a)] (i k : Nat) : Decidable (t.During P i k) :=
  have (j : Nat) : Decidable (∀ a ∈ t.acts[j]?, P (t.state j) a) := Option.decidableForallMem _
  inferInstanceAs (Decidable (∀ j < k, _))

theorem During.mono {P : S → A → Prop} {t : Trace step} {i k i' k' : Nat} (h : t.During P i k)
    (hi : i ≤ i') (hk : k' ≤ k) : t.During P i' k' :=
  fun j hj hij => h j (by omega) (by omega)

end Trace

/-! ## Tables

A system in which calls run side by side keeps them in a table, and a step writes one entry. -/

section Table

variable {K V : Type} [DecidableEq K] {table : K → Option V} {k k' : K}

/-- What is in a table is the entry just written, or was there before. -/
theorem update_eq_some {entry : Option V} {v : V}
    (h : Function.update table k entry k' = some v) :
    k' = k ∧ entry = some v ∨ k' ≠ k ∧ table k' = some v := by
  by_cases hk : k' = k
  · rw [hk, Function.update_self] at h
    exact Or.inl ⟨hk, h⟩
  · rw [Function.update_of_ne hk] at h
    exact Or.inr ⟨hk, h⟩

theorem update_some_eq_some {v v' : V} (h : Function.update table k (some v) k' = some v') :
    k' = k ∧ v' = v ∨ k' ≠ k ∧ table k' = some v' :=
  (update_eq_some h).imp_left fun ⟨hk, hv⟩ => ⟨hk, (Option.some.inj hv).symm⟩

end Table

/-! ## Parties

A system of any number of parties keeps them in a list: one joins at the end, and a step replaces
one. What is to hold between any two of them needs to be shown for the new one only. -/

section Parties

variable {α : Type} {R : α → α → Prop} {l : List α}

/-- The relation holds between the entries at any two different places. -/
def Apart (R : α → α → Prop) (l : List α) : Prop :=
  ∀ (i j : Nat) (a b : α), l[i]? = some a → l[j]? = some b → i ≠ j → R a b

theorem apart_nil : Apart R [] := by
  intro i j a b hi
  cases hi

theorem Apart.set (h : Apart R l) {i : Nat} {x y : α} (hi : l[i]? = some x)
    (hy : ∀ j a, j ≠ i → l[j]? = some a → R a y ∧ R y a) : Apart R (l.set i y) := by
  intro j k a b hj hk hjk
  have hlt : i < l.length := (List.getElem?_eq_some_iff.mp hi).1
  rw [List.getElem?_set] at hj hk
  by_cases hij : i = j
  · rw [if_pos hij, if_pos (hij ▸ hlt)] at hj
    rw [if_neg (hij ▸ hjk)] at hk
    cases hj
    exact (hy k b (hij ▸ Ne.symm hjk) hk).2
  · rw [if_neg hij] at hj
    by_cases hik : i = k
    · rw [if_pos hik, if_pos (hik ▸ hlt)] at hk
      cases hk
      exact (hy j a (Ne.symm hij) hj).1
    · rw [if_neg hik] at hk
      exact h j k a b hj hk hjk

theorem Apart.concat (h : Apart R l) {y : α} (hy : ∀ a ∈ l, R a y ∧ R y a) :
    Apart R (l ++ [y]) := by
  intro j k a b hj hk hjk
  simp only [List.getElem?_append, List.getElem?_singleton] at hj hk
  split at hj
  · split at hk
    · exact h j k a b hj hk hjk
    · obtain ⟨-, heq⟩ := Option.ite_none_right_eq_some.mp hk
      cases heq
      exact (hy a (List.mem_of_getElem? hj)).1
  · split at hk
    · obtain ⟨-, heq⟩ := Option.ite_none_right_eq_some.mp hj
      cases heq
      exact (hy b (List.mem_of_getElem? hk)).2
    · -- both would be the last place
      obtain ⟨hj0, -⟩ := Option.ite_none_right_eq_some.mp hj
      obtain ⟨hk0, -⟩ := Option.ite_none_right_eq_some.mp hk
      omega

end Parties

end Clavis.Lib
