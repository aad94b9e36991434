-- SUMMARY: Sorting by key: what is sorted stays, and distinct keys leave only one order.
import Mathlib.Data.List.NodupEquivFin
import Devicetree.Source.Node

/-!
# Sorting by key

The order of texts is total, so a sorted list has its keys in ascending order, and a
list whose keys ascend is its own sorted list. Where no two keys are the same, lists
with the same elements are sorted alike. Where keys are the same, elements keep their
order, so the sorted list is known from the places of its elements alone.
-/

namespace Devicetree

namespace Node

variable {α β : Type} {key : α → Text}

/-- The keys of a list ascend. -/
def Ascending (key : α → Text) (xs : List α) : Prop :=
  xs.Pairwise fun a b => Text.le (key a) (key b)

instance (key : α → Text) (xs : List α) : Decidable (Ascending key xs) :=
  inferInstanceAs (Decidable (xs.Pairwise fun a b => Text.le (key a) (key b)))

theorem sortByKey_perm (key : α → Text) (xs : List α) : (sortByKey key xs).Perm xs :=
  List.mergeSort_perm xs _

@[simp] theorem mem_sortByKey {x : α} {xs : List α} : x ∈ sortByKey key xs ↔ x ∈ xs :=
  (sortByKey_perm key xs).mem_iff

@[simp] theorem length_sortByKey (xs : List α) : (sortByKey key xs).length = xs.length :=
  (sortByKey_perm key xs).length_eq

theorem ascending_sortByKey (key : α → Text) (xs : List α) :
    Ascending key (sortByKey key xs) :=
  @List.pairwise_mergeSort α (fun a b => Text.le (key a) (key b))
    (fun _ _ _ => Text.le_trans) (fun a b => Text.le_total (key a) (key b)) xs

/-- What is sorted already stays as it is. -/
theorem sortByKey_eq_self {xs : List α} (h : Ascending key xs) : sortByKey key xs = xs :=
  List.mergeSort_of_pairwise h

/-- A map that keeps keys may come before or after sorting. -/
theorem map_sortByKey {g : α → β} {key' : β → Text} (xs : List α)
    (h : ∀ x ∈ xs, key' (g x) = key x) :
    (sortByKey key xs).map g = sortByKey key' (xs.map g) := by
  apply List.map_mergeSort
  intro a ha b hb
  rw [h a ha, h b hb]

theorem ascending_map {g : α → β} {key' : β → Text} {xs : List α}
    (h : ∀ x ∈ xs, key' (g x) = key x) : Ascending key' (xs.map g) ↔ Ascending key xs := by
  rw [Ascending, List.pairwise_map]
  apply List.Pairwise.iff_of_mem
  intro a b ha hb
  rw [h a ha, h b hb]

/-- An element goes in front of all that come behind it in the list and are not smaller. -/
theorem sortByKey_cons (key : α → Text) (x : α) (xs : List α) :
    ∃ us vs, sortByKey key (x :: xs) = us ++ x :: vs ∧ sortByKey key xs = us ++ vs ∧
      ∀ u ∈ us, ¬ Text.le (key x) (key u) := by
  obtain ⟨us, vs, hcons, hrest, hsmaller⟩ :=
    @List.mergeSort_cons α (fun a b => Text.le (key a) (key b))
      (fun _ _ _ => Text.le_trans) (fun a b => Text.le_total (key a) (key b)) x xs
  exact ⟨us, vs, hcons, hrest, by simpa using hsmaller⟩

/-- Elements with the same key stand to one another as they did before they were sorted. -/
theorem pairwise_sortByKey {r : α → α → Prop} {xs : List α} (h : xs.Pairwise r) :
    (sortByKey key xs).Pairwise fun a b => key a = key b → r a b := by
  induction xs with
  | nil => rw [sortByKey_eq_self List.Pairwise.nil]; exact List.Pairwise.nil
  | cons x xs ih =>
    obtain ⟨hx, hxs⟩ := List.pairwise_cons.1 h
    obtain ⟨us, vs, hcons, hrest, hsmaller⟩ := sortByKey_cons key x xs
    have hsorted := ih hxs
    rw [hrest, List.pairwise_append] at hsorted
    obtain ⟨hus, hvs, hbetween⟩ := hsorted
    rw [hcons, List.pairwise_append, List.pairwise_cons]
    refine ⟨hus, ⟨?_, hvs⟩, ?_⟩
    · intro v hv _
      have hmem : v ∈ sortByKey key xs := by
        rw [hrest]
        exact List.mem_append_right us hv
      exact hx v (mem_sortByKey.1 hmem)
    · intro u hu b hb hkey
      rcases List.mem_cons.1 hb with rfl | hb
      · exact absurd (hkey ▸ Text.le_refl (key u)) (hsmaller u hu)
      · exact hbetween u hu b hb hkey

/-- The places of a list in the order of their keys, places with the same key in their own
order. -/
def Arranges (key : α → Text) (xs : List α) (s : Equiv.Perm (Fin xs.length)) : Prop :=
  ∀ i j, i < j → Text.le (key (xs.get (s i))) (key (xs.get (s j))) ∧
    (key (xs.get (s i)) = key (xs.get (s j)) → s i < s j)

/-- Sorting arranges the places of a list. -/
theorem exists_arranges (key : α → Text) (xs : List α) :
    ∃ s : Equiv.Perm (Fin xs.length), Arranges key xs s ∧
      sortByKey key xs = List.ofFn fun i => xs.get (s i) := by
  let place : Fin xs.length → Text := fun i => key (xs.get i)
  let order := sortByKey place (List.finRange xs.length)
  have hperm : order.Perm (List.finRange xs.length) := sortByKey_perm _ _
  have hlength : xs.length = order.length := by simp [order]
  have hnodup : order.Nodup := hperm.nodup_iff.2 (List.nodup_finRange _)
  have hmem : ∀ i, i ∈ order := fun i => hperm.mem_iff.2 (List.mem_finRange i)
  have hmap : order.map xs.get = sortByKey key ((List.finRange xs.length).map xs.get) :=
    map_sortByKey _ fun _ _ => rfl
  have hascending : Ascending place order := ascending_sortByKey _ _
  have hstable : order.Pairwise fun i j => place i = place j → i < j :=
    pairwise_sortByKey (List.pairwise_lt_finRange _)
  refine ⟨(finCongr hlength).trans (hnodup.getEquivOfForallMemList order hmem), ?_, ?_⟩
  · intro i j hij
    rw [Ascending, List.pairwise_iff_get] at hascending
    rw [List.pairwise_iff_get] at hstable
    exact ⟨hascending (finCongr hlength i) (finCongr hlength j) hij,
      hstable (finCongr hlength i) (finCongr hlength j) hij⟩
  · rw [List.map_get_finRange] at hmap
    rw [← hmap]
    apply List.ext_getElem
    · simp [hlength]
    · intro n hn hn'
      simp

/-- Where keys are distinct, the order of a list does not matter. -/
theorem sortByKey_eq_of_perm {xs ys : List α} (hperm : xs.Perm ys)
    (hkeys : (xs.map key).Nodup) : sortByKey key xs = sortByKey key ys := by
  have hinj : ∀ a b, a ∈ sortByKey key xs → b ∈ sortByKey key ys →
      Text.le (key a) (key b) → Text.le (key b) (key a) → a = b := by
    intro a b ha hb hab hba
    rw [mem_sortByKey] at ha hb
    exact List.inj_on_of_nodup_map hkeys ha (hperm.mem_iff.2 hb) (Text.le_antisymm hab hba)
  exact ((sortByKey_perm key xs).trans (hperm.trans (sortByKey_perm key ys).symm)).eq_of_pairwise
    hinj (ascending_sortByKey key xs) (ascending_sortByKey key ys)

/-- Where keys are distinct, they ascend in one order only. -/
theorem sortByKey_eq_of_ascending {xs ys : List α} (hperm : xs.Perm ys)
    (hkeys : (xs.map key).Nodup) (hys : Ascending key ys) : sortByKey key xs = ys := by
  rw [sortByKey_eq_of_perm hperm hkeys, sortByKey_eq_self hys]

end Node

end Devicetree
