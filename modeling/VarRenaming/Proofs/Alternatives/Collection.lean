import Mathlib.Data.Finset.Card
import VarRenaming.Alternatives.Basic
import VarRenaming.Proofs.FiniteSet.Lexicographic

/-! # Collected alternatives

Which unifiers stand in a list is all that counts (`ofList_eq_ofList_iff`). So alternatives are
listed once each in ascending order (`toList_eq_iff`), are counted as the different unifiers of the
list (`size_ofList`), and the least and the only one are found among them or refused
(`least_eq_ok_iff`, `only_eq_ok_iff`). -/

namespace VarRenaming

open Std

/-! ### Arrows -/

namespace Unifier

theorem ofList_eq_ofList_iff {es ds : List Arrow} :
    ofList es = ofList ds ↔ ∀ e, e ∈ es ↔ e ∈ ds := by
  simp only [Unifier.ext_iff, mem_ofList]

theorem toFinset_toList_ofList (es : List Arrow) : (ofList es).toList.toFinset = es.toFinset := by
  ext e
  rw [List.mem_toFinset, List.mem_toFinset, mem_toList, mem_ofList]

theorem toFinset_toList_injective : Function.Injective fun u : Unifier => u.toList.toFinset := by
  intro u v h
  ext e
  have he : e ∈ u.toList.toFinset ↔ e ∈ v.toList.toFinset := Finset.ext_iff.mp h e
  rwa [List.mem_toFinset, List.mem_toFinset, mem_toList, mem_toList] at he

end Unifier

namespace Alternatives

variable {a b : Alternatives} {us vs : List Unifier} {u : Unifier} {r : Refusal}

/-! ### Listing and counting -/

theorem ofList_eq_ofList_iff : ofList us = ofList vs ↔ ∀ u, u ∈ us ↔ u ∈ vs := by
  simp only [Alternatives.ext_iff, mem_ofList]

theorem ascending_toList (a : Alternatives) : a.toList.Pairwise (compare · · = .lt) :=
  a.members.ascending_toList

/-- **The list of alternatives** is the one ascending list with these members. -/
theorem toList_eq_iff {l : List Unifier} :
    a.toList = l ↔ l.Pairwise (compare · · = .lt) ∧ ∀ u, u ∈ l ↔ u ∈ a := by
  constructor
  · rintro rfl
    exact ⟨a.ascending_toList, fun _ => mem_toList⟩
  · rintro ⟨hasc, hmem⟩
    exact FiniteSet.eq_of_ascending a.ascending_toList hasc fun u => mem_toList.trans (hmem u).symm

theorem toList_perm_dedup (us : List Unifier) : (ofList us).toList.Perm us.dedup := by
  have hnodup : (ofList us).toList.Nodup := (ofList us).members.nodup_toList
  refine (List.perm_ext_iff_of_nodup hnodup us.nodup_dedup).mpr fun u => ?_
  rw [mem_toList, mem_ofList, List.mem_dedup]

theorem size_ofList (us : List Unifier) : (ofList us).size = us.toFinset.card := by
  rw [← length_toList, (toList_perm_dedup us).length_eq, List.card_toFinset]

theorem size_ofList_map (ess : List (List Arrow)) :
    (ofList (ess.map Unifier.ofList)).size = (ess.map List.toFinset).toFinset.card := by
  have hmap : (ess.map Unifier.ofList).map (fun u => u.toList.toFinset) =
      ess.map List.toFinset := by
    rw [List.map_map]
    exact List.map_congr_left fun es _ => Unifier.toFinset_toList_ofList es
  rw [size_ofList, List.card_toFinset, List.card_toFinset, ← hmap,
    List.dedup_map_of_injective Unifier.toFinset_toList_injective, List.length_map]

/-! ### The least alternative -/

theorem least_eq_ok_iff : a.least = .ok u ↔ u ∈ a ∧ ∀ v ∈ a, (compare u v).isLE := by
  have hhead : a.least = .ok u ↔ a.toList.head? = some u := by
    unfold least
    cases a.toList <;> simp
  exact hhead.trans FiniteSet.head?_toList_eq_some_iff

theorem least_eq_error_iff : a.least = .error r ↔ a.toList = [] ∧ r = .noneExists := by
  unfold least
  split
  · next h => simp only [h, true_and, Except.error.injEq, eq_comm]
  · next h => simp only [h, false_and, reduceCtorEq]

/-! ### The only alternative -/

theorem toList_eq_singleton_iff : a.toList = [u] ↔ ∀ v, v ∈ a ↔ v = u := by
  rw [toList_eq_iff, and_iff_right (List.pairwise_singleton _ _)]
  simp only [List.mem_singleton, iff_comm]

theorem only_eq_ok_iff : a.only = .ok u ↔ a.toList = [u] := by
  unfold only
  split
  · next h => simp only [h, Except.ok.injEq, List.cons.injEq, and_true]
  · next h => exact iff_of_false nofun (h u)

theorem only_eq_error_iff :
    a.only = .error r ↔ (∀ u, a.toList ≠ [u]) ∧ r = .notSingle a.size := by
  unfold only
  split
  · next u h => exact iff_of_false nofun fun hno => hno.1 u h
  · next h => rw [and_iff_right h, Except.error.injEq, eq_comm]

theorem toList_ofList_eq_nil_iff : (ofList us).toList = [] ↔ us = [] := by
  simp only [List.eq_nil_iff_forall_not_mem, mem_toList, mem_ofList]

theorem toList_ofList_eq_singleton_iff :
    (ofList us).toList = [u] ↔ us ≠ [] ∧ ∀ v ∈ us, v = u := by
  simp only [toList_eq_singleton_iff, mem_ofList]
  constructor
  · intro h
    exact ⟨List.ne_nil_of_mem ((h u).mpr rfl), fun v hv => (h v).mp hv⟩
  · rintro ⟨hne, hall⟩ v
    obtain ⟨w, hw⟩ := List.exists_mem_of_ne_nil us hne
    refine ⟨hall v, ?_⟩
    rintro rfl
    exact hall w hw ▸ hw

/-! ### What a list of unifiers determines -/

/-- **The laws of collecting.** Two lists give the same alternatives exactly when the same unifiers
stand in them, in any order and any number of times, and so it is with unifiers and lists of arrows.
The alternatives are listed in strictly ascending order, each unifier of the list once, and their
number is the number of different unifiers; if the unifiers are themselves collected from lists of
arrows, it is the number of different sets of arrows. The least alternative is the unifier of the
list that is at most any other, and it is refused for the empty list only. The only alternative is
`u` when the list is not empty and repeats `u`; otherwise it is refused with the number of different
unifiers. And alternatives with the same members are equal. -/
theorem laws_of_collecting (us vs : List Unifier) (ess : List (List Arrow)) (a b : Alternatives) :
    (ofList us = ofList vs ↔ ∀ u, u ∈ us ↔ u ∈ vs) ∧
    (∀ es ds, Unifier.ofList es = Unifier.ofList ds ↔ ∀ e, e ∈ es ↔ e ∈ ds) ∧
    ((ofList us).toList.Pairwise (compare · · = .lt) ∧ (ofList us).toList.Perm us.dedup) ∧
    (ofList us).size = us.toFinset.card ∧
    (ofList (ess.map Unifier.ofList)).size = (ess.map List.toFinset).toFinset.card ∧
    (∀ u, (ofList us).least = .ok u ↔ u ∈ us ∧ ∀ v ∈ us, (compare u v).isLE) ∧
    (∀ r, (ofList us).least = .error r ↔ us = [] ∧ r = .noneExists) ∧
    (∀ u, (ofList us).only = .ok u ↔ us ≠ [] ∧ ∀ v ∈ us, v = u) ∧
    (∀ r, (ofList us).only = .error r ↔
      (¬ ∃ u, us ≠ [] ∧ ∀ v ∈ us, v = u) ∧ r = .notSingle us.toFinset.card) ∧
    (a = b ↔ ∀ u, u ∈ a ↔ u ∈ b) := by
  refine ⟨ofList_eq_ofList_iff, fun _ _ => Unifier.ofList_eq_ofList_iff,
    ⟨ascending_toList _, toList_perm_dedup us⟩, size_ofList us, size_ofList_map ess, fun u => ?_,
    fun r => ?_, fun u => ?_, fun r => ?_, Alternatives.ext_iff⟩
  · simp only [least_eq_ok_iff, mem_ofList]
  · rw [least_eq_error_iff, toList_ofList_eq_nil_iff]
  · rw [only_eq_ok_iff, toList_ofList_eq_singleton_iff]
  · simp only [only_eq_error_iff, Ne, toList_ofList_eq_singleton_iff, size_ofList, not_exists]

end Alternatives

end VarRenaming
