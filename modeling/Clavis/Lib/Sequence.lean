import Mathlib.Data.Finmap
import Mathlib.Data.List.Sort

/-!
# Sorting and grouping a sequence

`sortBy` and `groupBy` as sequence libraries have them. `sortBy` is stable: `StablySorted` says that
its result is a rearrangement, in the order of the keys, in which elements with the same key stand
as they stood before. `groupBy` collects the elements with the same key; the groups are in a map,
which may be visited in any order, and each group keeps the order of the sequence.
-/

namespace Clavis.Lib

variable {A K : Type}

/-! ## Sorting -/

section Sorting

variable [LinearOrder K] (key : A → K)

/-- Sort by a key, keeping the order of elements with the same key. -/
def sortBy (l : List A) : List A := l.insertionSort fun a b => key a ≤ key b

/-- What a stable sort makes of a list. -/
structure StablySorted (l sorted : List A) : Prop where
  perm : sorted.Perm l
  ordered : sorted.Pairwise fun a b => key a ≤ key b
  stable : ∀ k, sorted.filter (key · = k) = l.filter (key · = k)

/-- An element is inserted before those with the same key. -/
theorem filter_orderedInsert (k : K) (a : A) (l : List A) :
    (l.orderedInsert (fun a b => key a ≤ key b) a).filter (key · = k)
      = (a :: l).filter (key · = k) := by
  induction l with
  | nil => rfl
  | cons b l ih =>
    by_cases hle : key a ≤ key b
    · rw [List.orderedInsert_cons_of_le _ l hle]
    · rw [List.orderedInsert_of_not_le _ l hle]
      by_cases hb : key b = k
      · -- `b` stays ahead of `a`, whose key is another one
        have ha : key a ≠ k := by
          rintro rfl
          exact hle (ge_of_eq hb)
        rw [List.filter_cons_of_pos (by simpa using hb), ih,
          List.filter_cons_of_neg (by simpa using ha), List.filter_cons_of_neg (by simpa using ha),
          List.filter_cons_of_pos (by simpa using hb)]
      · rw [List.filter_cons_of_neg (by simpa using hb), ih, List.filter_cons, List.filter_cons,
          List.filter_cons_of_neg (by simpa using hb)]

/-- **`sortBy` is a stable sort.** -/
theorem stablySorted_sortBy (l : List A) : StablySorted key l (sortBy key l) where
  perm := List.perm_insertionSort _ l
  ordered := by
    have htotal : Std.Total fun a b : A => key a ≤ key b := ⟨fun a b => le_total (key a) (key b)⟩
    have htrans : IsTrans A fun a b => key a ≤ key b := ⟨fun _ _ _ => le_trans⟩
    exact List.pairwise_insertionSort _ l
  stable k := by
    induction l with
    | nil => rfl
    | cons a l ih =>
      have hcons : sortBy key (a :: l)
          = (sortBy key l).orderedInsert (fun a b => key a ≤ key b) a :=
        List.insertionSort_cons _ a l
      rw [hcons, filter_orderedInsert, List.filter_cons, List.filter_cons, ih]

end Sorting

/-! ## Grouping -/

section Grouping

variable [DecidableEq K] (key : A → K)

/-- The elements with the same key, under that key. -/
def groupBy (l : List A) : Finmap fun _ : K => List A :=
  l.foldl (fun groups a =>
    groups.insert (key a) ((groups.lookup (key a)).getD [] ++ [a])) ∅

/-- The group of a key is the part of the sequence that has it. -/
theorem lookup_groupBy (l : List A) (k : K) :
    (groupBy key l).lookup k
      = if l.filter (key · = k) = [] then none else some (l.filter (key · = k)) := by
  induction l using List.reverseRecOn with
  | nil => rfl
  | append_singleton l a ih =>
    rw [groupBy, List.foldl_append, List.foldl_cons, List.foldl_nil, ← groupBy, List.filter_append]
    by_cases hk : k = key a
    · subst hk
      have hlast : ([a].filter fun b => key b = key a) = [a] := by simp
      rw [Finmap.lookup_insert, hlast, if_neg (by simp), ih]
      split
      · rename_i hnil
        rw [hnil]
        rfl
      · rfl
    · have hlast : ([a].filter fun b => key b = k) = [] := by simp [Ne.symm hk]
      rw [Finmap.lookup_insert_of_ne _ hk, hlast, List.append_nil, ih]

/-- The order in which the groups of a map are visited. -/
structure VisitOrder (groups : Finmap fun _ : K => List A) where
  entries : List (Sigma fun _ : K => List A)
  entries_eq : (entries : Multiset _) = groups.entries

variable {key} {groups : Finmap fun _ : K => List A}

omit [DecidableEq K] in
theorem VisitOrder.nodupKeys (order : VisitOrder groups) : order.entries.NodupKeys := by
  rw [← Multiset.coe_nodupKeys, order.entries_eq]
  exact groups.nodupKeys

theorem VisitOrder.dlookup_entries (order : VisitOrder groups) (k : K) :
    order.entries.dlookup k = groups.lookup k := by
  calc order.entries.dlookup k
      = Finmap.lookup k (AList.toFinmap ⟨order.entries, order.nodupKeys⟩) :=
        (Finmap.lookup_toFinmap k ⟨order.entries, order.nodupKeys⟩).symm
    _ = groups.lookup k := congrArg (Finmap.lookup k) (Finmap.ext order.entries_eq)

/-- The group visited under a key is the part of the sequence that has it. -/
theorem VisitOrder.mem_entries_groupBy {l : List A} (order : VisitOrder (groupBy key l))
    {e : Sigma fun _ : K => List A} (he : e ∈ order.entries) : e.2 = l.filter (key · = e.1) := by
  have hlookup := List.mem_dlookup order.nodupKeys he
  rw [order.dlookup_entries, lookup_groupBy, Option.mem_def] at hlookup
  split at hlookup
  · cases hlookup
  · exact (Option.some.inj hlookup).symm

/-- Of a list in which every key stands once, only the entry of `k` contributes. -/
theorem flatMap_eq_of_dlookup {B : Type} (f : List A → List B) (k : K)
    {entries : List (Sigma fun _ : K => List A)} (hnodup : entries.NodupKeys) :
    (entries.flatMap fun e => if e.1 = k then f e.2 else [])
      = (entries.dlookup k).elim [] f := by
  induction entries with
  | nil => rfl
  | cons e entries ih =>
    obtain ⟨hkey, hrest⟩ := List.nodupKeys_cons.mp hnodup
    rw [List.flatMap_cons, ih hrest]
    by_cases hk : e.1 = k
    · subst hk
      rw [if_pos rfl, List.dlookup_eq_none.mpr hkey, List.dlookup_cons_eq]
      exact List.append_nil _
    · rw [if_neg hk, List.dlookup_cons_ne _ _ (Ne.symm hk), List.nil_append]

/-- **One key's share of a visit.** When everything made of a group belongs to the group's key,
what belongs to `k` is what is made of the elements with the key `k`, whatever the order. -/
theorem VisitOrder.filter_flatMap {B : Type} {l : List A} (order : VisitOrder (groupBy key l))
    (f : List A → List B) (owner : B → K) (hnil : f [] = [])
    (howner : ∀ k, ∀ b ∈ f (l.filter (key · = k)), owner b = k) (k : K) :
    (order.entries.flatMap fun e => f e.2).filter (owner · = k) = f (l.filter (key · = k)) := by
  have hshare : ∀ e ∈ order.entries,
      (f e.2).filter (owner · = k) = if e.1 = k then f e.2 else [] := by
    intro e he
    have howner' := howner e.1
    rw [← order.mem_entries_groupBy he] at howner'
    by_cases hk : e.1 = k
    · rw [if_pos hk, List.filter_eq_self]
      exact fun b hb => by simpa using (howner' b hb).trans hk
    · rw [if_neg hk, List.filter_eq_nil_iff]
      intro b hb
      simpa [howner' b hb] using hk
  rw [List.filter_flatMap, List.flatMap_congr hshare, flatMap_eq_of_dlookup f k order.nodupKeys,
    order.dlookup_entries, lookup_groupBy]
  split
  · rename_i hgroup
    rw [hgroup, hnil]
    rfl
  · rfl

end Grouping

end Clavis.Lib
