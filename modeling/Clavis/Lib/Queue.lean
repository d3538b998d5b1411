import Mathlib.Data.List.Nodup

/-!
# Order in a queue

A queue is a list that is joined at the back and left from anywhere. `Before q a b` says that `a`
stands ahead of `b`. Joining and leaving do not change who is ahead of whom, whoever joins is behind
everybody, and only the head is behind nobody.
-/

namespace Clavis.Lib

variable {W : Type}

/-- `a` stands ahead of `b`. -/
def Before (q : List W) (a b : W) : Prop := [a, b].Sublist q

section Join

variable {q : List W} {a b x : W}

theorem Before.concat (h : Before q a b) (x : W) : Before (q ++ [x]) a b :=
  h.trans (List.sublist_append_left q [x])

theorem before_concat (ha : a ∈ q) : Before (q ++ [b]) a b :=
  (List.singleton_sublist.mpr ha).append (List.Sublist.refl [b])

/-- Whoever is at the head after somebody joined was there before, or joined an empty queue. -/
theorem head?_concat_eq_some (h : (q ++ [x]).head? = some a) :
    q.head? = some a ∨ (q = [] ∧ a = x) := by
  cases q with
  | nil => exact Or.inr ⟨rfl, (Option.some.inj h).symm⟩
  | cons y ys => exact Or.inl h

theorem head?_concat_of_head? (h : q.head? = some a) : (q ++ [x]).head? = some a := by
  cases q with
  | nil => cases h
  | cons y ys => exact h

/-- Nobody is ahead of the head. -/
theorem Before.head?_ne (h : Before q a b) (hnodup : q.Nodup) : q.head? ≠ some b := by
  intro hhead
  cases q with
  | nil => cases hhead
  | cons y ys =>
    cases hhead
    -- `b` at the head and again behind `a`
    have hb : b ∈ ys := by
      cases h with
      | cons _ htail => exact htail.subset (by simp)
      | cons_cons _ htail => exact htail.subset (by simp)
    exact (List.nodup_cons.mp hnodup).1 hb

end Join

section Leave

variable [DecidableEq W] {q : List W} {a b x : W}

theorem Before.erase (h : Before q a b) (ha : a ≠ x) (hb : b ≠ x) : Before (q.erase x) a b := by
  have herase : [a, b].erase x = [a, b] :=
    List.erase_of_not_mem (by simp [Ne.symm ha, Ne.symm hb])
  have hsub : ([a, b].erase x).Sublist (q.erase x) := List.Sublist.erase x h
  rw [herase] at hsub
  exact hsub

/-- Taking out somebody behind the head leaves the head. -/
theorem head?_erase_of_head?_ne (h : q.head? ≠ some x) : (q.erase x).head? = q.head? := by
  cases q with
  | nil => rfl
  | cons y ys =>
    have hy : y ≠ x := fun hy => h (by rw [hy]; rfl)
    rw [List.erase_cons_tail (by simpa using hy)]
    rfl

end Leave

end Clavis.Lib
