import Mathlib.Data.Finmap

/-!
# Maps whose iteration order is unspecified, and the range-and-delete loop

A `Finmap` is a finite map with no order on its entries: `entries` is a multiset, and a list
`visited` with `(visited : Multiset _) = m.entries` is one order in which a loop may meet them.

`rangeDelete` is the loop that visits every entry, tests it, deletes it when the test succeeds,
reports its key and counts it. The test may also fail outright (`none`), which aborts the loop.
One iteration commutes with any other (`RangeDelete.step_right_comm`), so the loop is a fold over
the multiset of entries and every visiting order gives the same result
(`rangeDelete_eq_of_visited`); what that result is, is `lookup_rangeDelete`, `removed_rangeDelete`
and `count_rangeDelete`.
-/

namespace Clavis.Lib

universe u v

variable {α : Type u} {β : Type v} [DecidableEq α]

/-! ## Lookup after one update -/

theorem lookup_insert_eq_ite (m : Finmap (fun _ : α => β)) (k k' : α) (v : β) :
    (m.insert k v).lookup k' = if k' = k then some v else m.lookup k' := by
  by_cases h : k' = k
  · subst h
    rw [Finmap.lookup_insert, if_pos rfl]
  · rw [Finmap.lookup_insert_of_ne m h, if_neg h]

theorem lookup_erase_eq_ite (m : Finmap (fun _ : α => β)) (k k' : α) :
    (m.erase k).lookup k' = if k' = k then none else m.lookup k' := by
  by_cases h : k' = k
  · subst h
    rw [Finmap.lookup_erase, if_pos rfl]
  · rw [Finmap.lookup_erase_ne h, if_neg h]

theorem erase_erase_comm (m : Finmap (fun _ : α => β)) (k k' : α) :
    (m.erase k).erase k' = (m.erase k').erase k := by
  apply Finmap.ext_lookup
  intro x
  simp only [lookup_erase_eq_ite]
  split_ifs <;> rfl

/-! ## The loop -/

/-- The variables of the loop: the map being pruned, the keys reported so far and how many. -/
structure RangeDelete (α : Type u) (β : Type v) where
  map : Finmap (fun _ : α => β)
  removed : Multiset α
  count : Nat

/-- The loop before its first iteration. -/
def RangeDelete.start (m : Finmap (fun _ : α => β)) : RangeDelete α β := ⟨m, 0, 0⟩

/-- The deleting branch of the loop body. -/
def RangeDelete.remove (s : RangeDelete α β) (k : α) : RangeDelete α β :=
  ⟨s.map.erase k, k ::ₘ s.removed, s.count + 1⟩

/-- One iteration on the entry `e`: abort when the test does, delete when it holds. -/
def RangeDelete.step (test : α → β → Option Bool) (acc : Option (RangeDelete α β))
    (e : Sigma (fun _ : α => β)) : Option (RangeDelete α β) :=
  acc.bind fun s => (test e.1 e.2).bind fun hit => some (if hit then s.remove e.1 else s)

theorem RangeDelete.remove_comm (s : RangeDelete α β) (k k' : α) :
    (s.remove k).remove k' = (s.remove k').remove k := by
  simp only [RangeDelete.remove, erase_erase_comm s.map k k', Multiset.cons_swap]

/-- Two iterations may be swapped: both orders delete, report and count the same entries, and an
abort is an abort whenever it happens. -/
theorem RangeDelete.step_right_comm (test : α → β → Option Bool) (acc : Option (RangeDelete α β))
    (e e' : Sigma (fun _ : α => β)) :
    step test (step test acc e) e' = step test (step test acc e') e := by
  cases acc with
  | none => rfl
  | some s =>
    simp only [step, Option.bind_some]
    rcases test e.1 e.2 with _ | _ | _ <;> rcases test e'.1 e'.2 with _ | _ | _ <;>
      simp [RangeDelete.remove_comm s e.1 e'.1]

instance (test : α → β → Option Bool) :
    RightCommutative (RangeDelete.step (α := α) (β := β) test) :=
  ⟨RangeDelete.step_right_comm test⟩

/-- The whole loop, over the entries the map had when it began. -/
def rangeDelete (test : α → β → Option Bool) (m : Finmap (fun _ : α => β)) :
    Option (RangeDelete α β) :=
  m.entries.foldl (RangeDelete.step test) (some (RangeDelete.start m))

/-- **The visiting order does not matter.** -/
theorem rangeDelete_eq_of_visited (test : α → β → Option Bool) (m : Finmap (fun _ : α => β))
    (visited : List (Sigma (fun _ : α => β))) (hv : (visited : Multiset _) = m.entries) :
    visited.foldl (RangeDelete.step test) (some (RangeDelete.start m)) = rangeDelete test m := by
  rw [rangeDelete, ← hv, Multiset.coe_foldl]

/-! ## What the loop computes

All three facts are read off one induction over an arbitrary visiting order, from an arbitrary
point of the loop. -/

/-- The entries a total test selects. -/
def selected (p : α → β → Bool) (es : Multiset (Sigma (fun _ : α => β))) : Multiset α :=
  (es.filter fun e => p e.1 e.2 = true).map Sigma.fst

omit [DecidableEq α] in
theorem selected_cons (p : α → β → Bool) (e : Sigma (fun _ : α => β))
    (es : List (Sigma (fun _ : α => β))) :
    selected p ((e :: es : List _) : Multiset _)
      = if p e.1 e.2 = true then e.1 ::ₘ selected p es else selected p es := by
  unfold selected
  rw [← Multiset.cons_coe, Multiset.filter_cons]
  split_ifs with h
  · rw [Multiset.singleton_add, Multiset.map_cons]
  · rw [zero_add]

theorem foldl_step_of_total (test : α → β → Option Bool) (p : α → β → Bool)
    (es : List (Sigma (fun _ : α => β))) (htest : ∀ e ∈ es, test e.1 e.2 = some (p e.1 e.2))
    (s : RangeDelete α β) :
    ∃ s', es.foldl (RangeDelete.step test) (some s) = some s' ∧
      (∀ k, s'.map.lookup k
        = if ∃ e ∈ es, e.1 = k ∧ p e.1 e.2 = true then none else s.map.lookup k) ∧
      s'.removed = selected p es + s.removed ∧
      s'.count = Multiset.card (selected p es) + s.count := by
  induction es generalizing s with
  | nil => exact ⟨s, by simp [selected]⟩
  | cons e es ih =>
    have hhead := htest e (by simp)
    have htail : ∀ e' ∈ es, test e'.1 e'.2 = some (p e'.1 e'.2) :=
      fun e' he' => htest e' (by simp [he'])
    cases hp : p e.1 e.2 with
    | false =>
      obtain ⟨s', hfold, hlook, hrem, hcount⟩ := ih htail s
      refine ⟨s', ?_, ?_, ?_, ?_⟩
      · rw [List.foldl_cons, ← hfold]
        simp [RangeDelete.step, hhead, hp]
      · intro k
        rw [hlook k]
        simp only [List.exists_mem_cons_iff, hp, Bool.false_eq_true, and_false, false_or]
      · rw [hrem, selected_cons, if_neg (by simp [hp])]
      · rw [hcount, selected_cons, if_neg (by simp [hp])]
    | true =>
      obtain ⟨s', hfold, hlook, hrem, hcount⟩ := ih htail (s.remove e.1)
      refine ⟨s', ?_, ?_, ?_, ?_⟩
      · rw [List.foldl_cons, ← hfold]
        simp [RangeDelete.step, hhead, hp]
      · intro k
        rw [hlook k]
        simp only [RangeDelete.remove, lookup_erase_eq_ite, List.exists_mem_cons_iff, hp, and_true]
        by_cases hk : k = e.1
        · simp [hk]
        · rw [if_neg hk]
          simp only [show e.1 ≠ k from Ne.symm hk, false_or]
      · rw [hrem, selected_cons, if_pos hp]
        simp only [RangeDelete.remove, Multiset.add_cons, Multiset.cons_add]
      · rw [hcount, selected_cons, if_pos hp, Multiset.card_cons]
        simp only [RangeDelete.remove]
        omega

section Total

variable {test : α → β → Option Bool} {p : α → β → Bool} {m : Finmap (fun _ : α => β)}

/-- On a map all of whose entries the test decides, the loop runs to its end and leaves exactly
the entries the test does not select. -/
theorem rangeDelete_spec (htest : ∀ k v, m.lookup k = some v → test k v = some (p k v)) :
    ∃ s, rangeDelete test m = some s ∧
      (∀ k, s.map.lookup k = (m.lookup k).filter fun v => !p k v) ∧
      s.removed = selected p m.entries ∧
      s.count = Multiset.card (selected p m.entries) := by
  obtain ⟨visited, hv⟩ := Quot.exists_rep m.entries
  have hv' : (visited : Multiset _) = m.entries := hv
  have hmem : ∀ e : Sigma (fun _ : α => β), e ∈ visited ↔ m.lookup e.1 = some e.2 := by
    intro e
    rw [← Multiset.mem_coe, hv']
    exact (Finmap.mem_lookup_iff (s := m) (a := e.1) (b := e.2)).symm
  obtain ⟨s, hfold, hlook, hrem, hcount⟩ := foldl_step_of_total test p visited
    (fun e he => htest e.1 e.2 ((hmem e).mp he)) (RangeDelete.start m)
  rw [rangeDelete_eq_of_visited test m visited hv'] at hfold
  refine ⟨s, hfold, ?_, ?_, ?_⟩
  · intro k
    rw [hlook k]
    cases hk : m.lookup k with
    | none => simp [RangeDelete.start, hk]
    | some v =>
      have hiff : (∃ e ∈ visited, e.1 = k ∧ p e.1 e.2 = true) ↔ p k v = true := by
        constructor
        · rintro ⟨e, he, rfl, hp⟩
          rw [(hmem e).mp he] at hk
          cases hk
          exact hp
        · intro hp
          exact ⟨⟨k, v⟩, (hmem ⟨k, v⟩).mpr hk, rfl, hp⟩
      rw [if_congr hiff rfl rfl]
      cases hp : p k v <;> simp [RangeDelete.start, hk, hp, Option.filter]
  · rw [hrem, hv']
    simp [RangeDelete.start]
  · rw [hcount, hv']
    simp [RangeDelete.start]

/-- A key is reported exactly when the map had an entry under it that the test selects. -/
theorem mem_selected_entries {k : α} :
    k ∈ selected p m.entries ↔ ∃ v, m.lookup k = some v ∧ p k v = true := by
  simp only [selected, Multiset.mem_map, Multiset.mem_filter]
  constructor
  · rintro ⟨⟨k', v⟩, ⟨he, hp⟩, rfl⟩
    exact ⟨v, Finmap.mem_lookup_iff.mpr he, hp⟩
  · rintro ⟨v, hv, hp⟩
    exact ⟨⟨k, v⟩, ⟨Finmap.mem_lookup_iff.mp hv, hp⟩, rfl⟩

end Total

end Clavis.Lib
