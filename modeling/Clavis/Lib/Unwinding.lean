import Mathlib.Data.Nat.Init
import Mathlib.Data.Set.Defs

/-!
# Unwinding

Noninterference for a deterministic system. `next` and `out` are the system's transition and output
functions, `view` is what one observer can see of a state, and `keep` marks the inputs that are the
observer's business. If the view determines what a kept input does to the view and what it answers,
and no other input touches the view, then deleting the other inputs from a run changes nothing the
observer can see.

The `i`-th input of a list stands at `position keep as i` of the list of the kept ones.
-/

namespace Clavis.Lib

variable {S A O V : Type}

/-! ## Positions in a filtered list -/

/-- How many of the first `i` inputs are kept. -/
def position (keep : A → Bool) (as : List A) (i : Nat) : Nat := ((as.take i).filter keep).length

section Position

variable {keep : A → Bool} {as : List A} {i j k : Nat} {a : A}

theorem take_position (keep : A → Bool) (as : List A) (i : Nat) :
    (as.filter keep).take (position keep as i) = (as.take i).filter keep := by
  have hsplit : as.filter keep = (as.take i).filter keep ++ (as.drop i).filter keep := by
    rw [← List.filter_append, List.take_append_drop]
  rw [hsplit, position, List.take_left]

theorem position_succ (h : as[i]? = some a) :
    position keep as (i + 1) = position keep as i + if keep a then 1 else 0 := by
  rw [position, List.take_add_one, h, List.filter_append, List.length_append, position]
  by_cases hk : keep a <;> simp [hk]

theorem position_succ_of_none (h : as[i]? = none) :
    position keep as (i + 1) = position keep as i := by
  rw [position, List.take_add_one, h, Option.toList_none, List.append_nil, position]

theorem position_le_succ (keep : A → Bool) (as : List A) (i : Nat) :
    position keep as i ≤ position keep as (i + 1) ∧
      position keep as (i + 1) ≤ position keep as i + 1 := by
  cases h : as[i]? with
  | none =>
    rw [position_succ_of_none h]
    omega
  | some a =>
    rw [position_succ h]
    split <;> omega

theorem position_mono (keep : A → Bool) (as : List A) (hij : i ≤ j) :
    position keep as i ≤ position keep as j := by
  induction j, hij using Nat.le_induction with
  | base => exact Nat.le_refl _
  | succ j _ ih => exact Nat.le_trans ih (position_le_succ keep as j).1

/-- A kept input is found at its position. -/
theorem getElem?_position (h : as[i]? = some a) (hk : keep a = true) :
    (as.filter keep)[position keep as i]? = some a := by
  have htake := take_position keep as (i + 1)
  rw [position_succ h, if_pos hk, List.take_add_one, take_position, List.take_add_one, h,
    List.filter_append, Option.toList_some, List.filter_cons_of_pos hk, List.filter_nil] at htake
  have hlast := List.append_cancel_left htake
  cases hget : (as.filter keep)[position keep as i]? with
  | none => simp [hget] at hlast
  | some b =>
    rw [hget] at hlast
    simpa using hlast

/-- Positions move in steps of one, so none is skipped. -/
theorem exists_position (hij : i ≤ j) (hik : position keep as i < k)
    (hkj : k ≤ position keep as j) : ∃ k', i < k' ∧ k' ≤ j ∧ position keep as k' = k := by
  induction j, hij using Nat.le_induction with
  | base => omega
  | succ j hij ih =>
    have hstep := position_le_succ keep as j
    by_cases hk : k ≤ position keep as j
    · obtain ⟨k', hik', hkj', heq⟩ := ih hk
      exact ⟨k', hik', by omega, heq⟩
    · exact ⟨j + 1, by omega, Nat.le_refl _, by omega⟩

end Position

/-! ## The unwinding conditions -/

/-- The view is all that a kept input depends on and affects, and other inputs leave it alone. -/
structure Unwinding (next : S → A → S) (out : S → A → O) (view : S → V) (keep : A → Bool) :
    Prop where
  next_view : ∀ {s s' a}, keep a = true → view s = view s' → view (next s a) = view (next s' a)
  out_view : ∀ {s s' a}, keep a = true → view s = view s' → out s a = out s' a
  respects : ∀ {s a}, keep a = false → view (next s a) = view s

variable {next : S → A → S} {out : S → A → O} {view : S → V} {keep : A → Bool}

/-- **Unwinding**: the run of the kept inputs ends in the same view. -/
theorem Unwinding.view_filter (h : Unwinding next out view keep) {s s' : S}
    (hview : view s = view s') (as : List A) :
    view ((as.filter keep).foldl next s) = view (as.foldl next s') := by
  induction as generalizing s s' with
  | nil => exact hview
  | cons a as ih =>
    cases hk : keep a with
    | true =>
      rw [List.filter_cons_of_pos hk, List.foldl_cons, List.foldl_cons]
      exact ih (h.next_view hk hview)
    | false =>
      rw [List.filter_cons_of_neg (by simp [hk]), List.foldl_cons]
      exact ih (hview.trans (h.respects hk).symm)

/-! ## Maps from relations -/

/-- The map is strictly increasing on a set. -/
def IncreasingOn {α β : Type} [LT α] [LT β] (f : α → β) (D : Set α) : Prop :=
  ∀ a ∈ D, ∀ a' ∈ D, a < a' → f a < f a'

/-- A relation that keeps the strict order and equality is the graph of a strictly increasing
map. -/
theorem exists_increasingOn {α β : Type} [LT α] [LT β] [Inhabited β] {R : α → β → Prop}
    (hR : ∀ a a' b b', R a b → R a' b' → (a < a' → b < b') ∧ (a = a' → b = b')) :
    ∃ f : α → β, IncreasingOn f {a | ∃ b, R a b} ∧ ∀ a b, R a b → f a = b := by
  classical
  let f : α → β := fun a => if h : ∃ b, R a b then h.choose else default
  have hf : ∀ a b, R a b → f a = b := by
    intro a b hab
    have hex : ∃ b, R a b := ⟨b, hab⟩
    have hfa : f a = hex.choose := dif_pos hex
    rw [hfa]
    exact (hR a a _ b hex.choose_spec hab).2 rfl
  refine ⟨f, ?_, hf⟩
  rintro a ⟨b, hab⟩ a' ⟨b', hab'⟩ hlt
  rw [hf a b hab, hf a' b' hab']
  exact (hR a a' b b' hab hab').1 hlt

end Clavis.Lib
