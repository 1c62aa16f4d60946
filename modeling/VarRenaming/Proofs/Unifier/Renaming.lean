import Mathlib.Tactic.ByContra
import VarRenaming.Proofs.Answer.Binding
import VarRenaming.Unifier.Renaming

/-! # What a renaming gives

A binding `v = c` becomes the bindings of all images of `v` to `c`, and the renamed answer has
exactly these (`rename?_eq_some_iff`). There is one unless some variable is an image of two
variables with different concepts, so that the unifier *conflicts* with the answer
(`rename?_eq_none_iff`). -/

namespace VarRenaming.Unifier

open Std

variable {u : Unifier} {a r : Answer}

/-! ### Images -/

theorem mem_images_of_mem_sources {v w : Var} (h : v ∈ u.sources) :
    w ∈ u.images v ↔ ⟨v, w⟩ ∈ u := by
  rw [mem_images]
  simp only [h, not_true, false_and, or_false]

theorem mem_images_of_not_mem_sources {v w : Var} (h : v ∉ u.sources) :
    w ∈ u.images v ↔ w = v := by
  have hw : ⟨v, w⟩ ∉ u := fun hm => h (mem_sources.mpr ⟨w, hm⟩)
  rw [mem_images]
  simp only [hw, h, not_false_eq_true, true_and, false_or]

/-- No variable is renamed to nothing. -/
theorem exists_mem_images (u : Unifier) (v : Var) : ∃ w, w ∈ u.images v := by
  by_cases h : v ∈ u.sources
  · obtain ⟨t, ht⟩ := mem_sources.mp h
    exact ⟨t, (mem_images_of_mem_sources h).mpr ht⟩
  · exact ⟨v, (mem_images_of_not_mem_sources h).mpr rfl⟩

/-! ### Renamed answers -/

theorem mem_renamedBindings {w : Var} {c : Concept} :
    (w, c) ∈ u.renamedBindings a ↔ ∃ v, a.get? v = some c ∧ w ∈ u.images v := by
  simp only [renamedBindings, List.mem_flatMap, List.mem_map, Prod.exists, Answer.mem_toList,
    Prod.mk.injEq]
  constructor
  · rintro ⟨v, d, hv, w, hw, rfl, rfl⟩
    exact ⟨v, hv, hw⟩
  · rintro ⟨v, hv, hw⟩
    exact ⟨v, c, hv, w, hw, rfl, rfl⟩

/-- **The renamed answer** binds the images of what the answer binds, and nothing else. -/
theorem rename?_eq_some_iff :
    u.rename? a = some r ↔
      ∀ w c, r.get? w = some c ↔ ∃ v, a.get? v = some c ∧ w ∈ u.images v := by
  rw [rename?, Answer.ofBindings?_eq_some_iff]
  simp only [mem_renamedBindings]

theorem exists_rename?
    (h : ∀ v v' c c' w, a.get? v = some c → a.get? v' = some c' → w ∈ u.images v →
      w ∈ u.images v' → c = c') : ∃ r, u.rename? a = some r := by
  refine Answer.exists_ofBindings? fun w c c' hc hc' => ?_
  obtain ⟨v, hv, hw⟩ := mem_renamedBindings.mp hc
  obtain ⟨v', hv', hw'⟩ := mem_renamedBindings.mp hc'
  exact h v v' c c' w hv hv' hw hw'

/-! ### Conflicts -/

/-- The answer binds two variables with an image in common to different concepts. -/
def Conflicts (u : Unifier) (a : Answer) : Prop :=
  ∃ v v' c c', a.get? v = some c ∧ a.get? v' = some c' ∧ c ≠ c' ∧
    ∃ w, w ∈ u.images v ∧ w ∈ u.images v'

theorem rename?_eq_none_iff : u.rename? a = none ↔ u.Conflicts a := by
  constructor
  · intro hnone
    by_contra hfree
    obtain ⟨r, hr⟩ : ∃ r, u.rename? a = some r := by
      refine exists_rename? fun v v' c c' w hv hv' hw hw' => ?_
      by_contra hne
      exact hfree ⟨v, v', c, c', hv, hv', hne, w, hw, hw'⟩
    rw [hnone] at hr
    cases hr
  · rintro ⟨v, v', c, c', hv, hv', hne, w, hw, hw'⟩
    refine Option.eq_none_iff_forall_ne_some.mpr fun r hr => hne ?_
    -- the common image would be bound to both concepts
    have hc : r.get? w = some c := (rename?_eq_some_iff.mp hr w c).mpr ⟨v, hv, hw⟩
    have hc' : r.get? w = some c' := (rename?_eq_some_iff.mp hr w c').mpr ⟨v', hv', hw'⟩
    rw [hc] at hc'
    exact Option.some.inj hc'

end VarRenaming.Unifier
