import Mathlib.Order.Lattice
import Mathlib.Data.List.Induction

/-!
# Overlapping intervals and the interval that ends last

Elements of a type `A` have an interval, from `start` up to but not including `stop`.

`overlapping` compares every element of a list with every one before it. A sweep over a list in the
order of the starts can do with the one that ends last among those it has passed (`Latest`): by
`exists_overlap_iff` a later interval overlaps one of them exactly when it starts before that one
ends.
-/

namespace Clavis.Lib

variable {A T : Type} [LinearOrder T] {start stop : A → T}

/-! ## Overlap -/

variable (start stop) in
/-- Each of the two starts before the other ends. -/
def Overlap (a b : A) : Prop := start a < stop b ∧ start b < stop a

instance : DecidableRel (Overlap start stop) :=
  fun a b => inferInstanceAs (Decidable (start a < stop b ∧ start b < stop a))

theorem Overlap.symm {a b : A} (h : Overlap start stop a b) : Overlap start stop b a :=
  And.symm h

variable (start stop) in
/-- The elements of a list that overlap one of `seen` or one that stands before them. -/
def overlapping (seen : List A) : List A → List A
  | [] => []
  | a :: l =>
    if ∃ p ∈ seen, Overlap start stop p a then a :: overlapping (seen ++ [a]) l
    else overlapping (seen ++ [a]) l

theorem overlapping_concat (seen l : List A) (a : A) :
    overlapping start stop seen (l ++ [a]) = overlapping start stop seen l
      ++ if ∃ p ∈ seen ++ l, Overlap start stop p a then [a] else [] := by
  induction l generalizing seen with
  | nil => simp [overlapping]
  | cons b l ih =>
    simp only [List.cons_append, overlapping, ih, List.append_assoc, List.nil_append]
    split <;> rfl

theorem mem_overlapping {seen l : List A} {a : A} :
    a ∈ overlapping start stop seen l ↔
      ∃ before after, l = before ++ a :: after ∧ ∃ p ∈ seen ++ before, Overlap start stop p a := by
  induction l using List.reverseRecOn with
  | nil => simp [overlapping]
  | append_singleton l b ih =>
    rw [overlapping_concat, List.mem_append, ih]
    constructor
    · rintro (⟨before, after, rfl, hp⟩ | hlast)
      · exact ⟨before, after ++ [b], by simp, hp⟩
      · split at hlast
        · rename_i hp
          cases List.mem_singleton.mp hlast
          exact ⟨l, [], rfl, hp⟩
        · cases hlast
    · rintro ⟨before, after, hl, hp⟩
      -- `a` is either the last element or stands within `l`
      induction after using List.reverseRecOn with
      | nil =>
        obtain ⟨rfl, hb⟩ := List.append_inj' hl rfl
        cases hb
        exact .inr (by rw [if_pos hp]; exact List.mem_singleton_self a)
      | append_singleton after c _ =>
        rw [← List.cons_append, ← List.append_assoc] at hl
        obtain ⟨rfl, -⟩ := List.append_inj' hl rfl
        exact .inl ⟨before, after, rfl, hp⟩

theorem overlapping_eq_nil {l : List A} :
    overlapping start stop [] l = [] ↔ l.Pairwise fun a b => ¬ Overlap start stop a b := by
  induction l using List.reverseRecOn with
  | nil => simp [overlapping]
  | append_singleton l a ih =>
    rw [overlapping_concat, List.append_eq_nil_iff, ih, List.pairwise_append]
    simp

/-! ## The interval that ends last -/

variable (stop) in
/-- `latest` ends last among the elements seen. -/
def Latest (seen : List A) : Option A → Prop
  | none => seen = []
  | some latest => latest ∈ seen ∧ ∀ p ∈ seen, stop p ≤ stop latest

theorem Latest.keep {seen : List A} {latest a : A} (h : Latest stop seen (some latest))
    (ha : stop a ≤ stop latest) : Latest stop (seen ++ [a]) (some latest) := by
  refine ⟨List.mem_append_left _ h.1, fun p hp => ?_⟩
  rcases List.mem_append.mp hp with hseen | hlast
  · exact h.2 p hseen
  · cases List.mem_singleton.mp hlast
    exact ha

theorem Latest.replace {seen : List A} {latest a : A} (h : Latest stop seen (some latest))
    (ha : stop latest ≤ stop a) : Latest stop (seen ++ [a]) (some a) := by
  refine ⟨List.mem_append_right _ (List.mem_singleton_self a), fun p hp => ?_⟩
  rcases List.mem_append.mp hp with hseen | hlast
  · exact (h.2 p hseen).trans ha
  · cases List.mem_singleton.mp hlast
    exact le_rfl

/-- **The interval that ends last decides.** An interval that starts no earlier than those seen
overlaps one of them exactly when it starts before the last of their ends. -/
theorem exists_overlap_iff {seen : List A} {latest a : A} (h : Latest stop seen (some latest))
    (hstart : ∀ p ∈ seen, start p ≤ start a) (ha : start a < stop a) :
    (∃ p ∈ seen, Overlap start stop p a) ↔ start a < stop latest := by
  constructor
  · rintro ⟨p, hp, -, hlt⟩
    exact hlt.trans_le (h.2 p hp)
  · intro hlt
    exact ⟨latest, h.1, (hstart latest h.1).trans_lt ha, hlt⟩

end Clavis.Lib
