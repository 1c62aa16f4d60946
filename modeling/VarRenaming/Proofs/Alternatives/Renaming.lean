import VarRenaming.Alternatives.Renaming
import VarRenaming.Proofs.Unifier.Renaming

/-! # What a renaming with alternatives gives

A set of alternatives renames an answer to what its members make of it, without those that conflict
with the answer (`mem_rename_iff`). So nothing is left exactly when all of them conflict
(`rename_eq_empty_iff`); in particular, where there is no alternative. -/

namespace VarRenaming

open Std

namespace Unifier

variable {u : Unifier} {x y : Answer}

theorem mem_images_iff {v w : Var} :
    w ∈ u.images v ↔ if v ∈ u.sources then w ∈ u.targetsOf v else w = v := by
  split
  · next h => rw [mem_images_of_mem_sources h, mem_targetsOf]
  · next h => exact mem_images_of_not_mem_sources h

/-- `y` binds the images of what `x` binds, and nothing else. -/
def Renames (u : Unifier) (x y : Answer) : Prop :=
  ∀ w c, y.get? w = some c ↔ ∃ v, x.get? v = some c ∧ w ∈ u.images v

theorem exists_renames (h : ¬ u.Conflicts x) : ∃ y, u.rename? x = some y ∧ u.Renames x y := by
  cases hy : u.rename? x with
  | none => exact absurd (rename?_eq_none_iff.mp hy) h
  | some y => exact ⟨y, rfl, rename?_eq_some_iff.mp hy⟩

end Unifier

namespace Alternatives

variable {a : Alternatives} {x y : Answer}

theorem mem_rename_iff : y ∈ a.rename x ↔ ∃ u ∈ a, u.Renames x y := by
  rw [mem_rename]
  exact exists_congr fun u => and_congr_right fun _ => Unifier.rename?_eq_some_iff

theorem rename_eq_empty_iff : a.rename x = ∅ ↔ ∀ u ∈ a, u.Conflicts x := by
  constructor
  · intro hempty u hu
    refine Unifier.rename?_eq_none_iff.mp (Option.eq_none_iff_forall_ne_some.mpr fun y hy => ?_)
    have hmem : y ∈ a.rename x := mem_rename.mpr ⟨u, hu, hy⟩
    rw [hempty] at hmem
    exact ExtTreeSet.not_mem_empty hmem
  · intro hall
    refine ExtTreeSet.ext_mem fun y => iff_of_false ?_ ExtTreeSet.not_mem_empty
    intro hmem
    obtain ⟨u, hu, hy⟩ := mem_rename.mp hmem
    rw [Unifier.rename?_eq_none_iff.mpr (hall u hu)] at hy
    cases hy

/-- **The outcome of a renaming.** Let the images of a variable be its targets, or itself if it is no
source. A unifier renames an answer to nothing exactly when two bound variables with different
concepts have an image in common. Otherwise there is one renamed answer, which binds a variable to a
concept exactly when it is an image of a variable that the answer binds to it. Alternatives rename
an answer to the answers that come from some member in this way, and to none exactly when every
member conflicts with the answer. -/
theorem outcome_of_renaming (u : Unifier) (a : Alternatives) (x : Answer) :
    (∀ v w, w ∈ u.images v ↔ if v ∈ u.sources then w ∈ u.targetsOf v else w = v) ∧
    (u.rename? x = none ↔ ∃ v v' c c', x.get? v = some c ∧ x.get? v' = some c' ∧ c ≠ c' ∧
      ∃ w, w ∈ u.images v ∧ w ∈ u.images v') ∧
    (∀ y, u.rename? x = some y ↔
      ∀ w c, y.get? w = some c ↔ ∃ v, x.get? v = some c ∧ w ∈ u.images v) ∧
    (¬ u.Conflicts x → ∃ y, u.rename? x = some y ∧ u.Renames x y) ∧
    (∀ y, y ∈ a.rename x ↔ ∃ u' ∈ a, u'.Renames x y) ∧
    (a.rename x = ∅ ↔ ∀ u' ∈ a, u'.Conflicts x) :=
  ⟨fun _ _ => Unifier.mem_images_iff, Unifier.rename?_eq_none_iff,
    fun _ => Unifier.rename?_eq_some_iff, Unifier.exists_renames, fun _ => mem_rename_iff,
    rename_eq_empty_iff⟩

/-- `z` is bound already and also a target of `x`, so one alternative conflicts; the other exchanges
`x` and `z`. The first alone leaves nothing. -/
theorem outcome_of_renaming_exchange :
    let x : Var := ⟨"x"⟩
    let z : Var := ⟨"z"⟩
    let one : Concept := ⟨1, by decide⟩
    let two : Concept := ⟨2, by decide⟩
    let u : Unifier := .ofList [⟨x, z⟩]
    let v : Unifier := .ofList [⟨x, z⟩, ⟨z, x⟩]
    let b : Answer := .ofBindings [(x, one), (z, two)]
    let b' : Answer := .ofBindings [(z, one), (x, two)]
    (u.Conflicts b ∧ u.rename? b = none) ∧
      (¬ v.Conflicts b ∧ ∃ y, v.rename? b = some y ∧ v.Renames b y) ∧
      b' ∈ (ofList [u, v]).rename b ∧ (∀ w ∈ single u, w.Conflicts b) ∧ (single u).rename b = ∅ := by
  intro x z one two u v b b'
  have hnone : u.rename? b = none := by decide +kernel
  have hsome : v.rename? b = some b' := by decide +kernel
  obtain ⟨-, hu, -, -, -, hempty⟩ := outcome_of_renaming u (single u) b
  obtain ⟨-, hv, -, hren, hmem, -⟩ := outcome_of_renaming v (ofList [u, v]) b
  have hconf : u.Conflicts b := hu.mp hnone
  have hfree : ¬ v.Conflicts b := by
    intro h
    rw [hv.mpr h] at hsome
    cases hsome
  have hall : ∀ w ∈ single u, w.Conflicts b := by
    intro w hw
    obtain rfl := mem_single.mp hw
    exact hconf
  obtain ⟨y, hy, hrenames⟩ := hren hfree
  obtain rfl : b' = y := Option.some.inj (hsome.symm.trans hy)
  exact ⟨⟨hconf, hnone⟩, ⟨hfree, b', hy, hrenames⟩,
    (hmem b').mpr ⟨v, mem_ofList.mpr (by simp), hrenames⟩, hall, hempty.mpr hall⟩

end Alternatives

end VarRenaming
