import VarRenaming.Answer
import VarRenaming.Unifier.Basic

/-! # Renaming with a unifier

A unifier renames a variable to all its targets, and leaves a variable that is no source as it is.
`Unifier.rename?` gives nothing when two bindings with different concepts come to stand for one
variable. `Unifier.andThen` takes the place of two renamings, one after the other. -/

namespace VarRenaming

open Std

namespace Unifier

/-! ### Variables -/

/-- What a variable becomes: its targets, or itself if it has none. -/
def images (u : Unifier) (v : Var) : List Var :=
  if v ∈ u.sources then (u.targetsOf v).toList else [v]

theorem mem_images {u : Unifier} {v w : Var} :
    w ∈ u.images v ↔ ⟨v, w⟩ ∈ u ∨ v ∉ u.sources ∧ w = v := by
  unfold images
  split <;> rename_i h
  · simp [h]
  · have hw : ⟨v, w⟩ ∉ u := fun hm => h (mem_sources.mpr ⟨w, hm⟩)
    simp [h, hw]

/-! ### Answers -/

/-- The bindings of an answer with their variables renamed; they may repeat or contradict each
other. -/
def renamedBindings (u : Unifier) (a : Answer) : List (Var × Concept) :=
  a.toList.flatMap fun b => (u.images b.1).map (·, b.2)

/-- The answer with its variables renamed, unless the renamed bindings contradict each other. -/
def rename? (u : Unifier) (a : Answer) : Option Answer :=
  Answer.ofBindings? (u.renamedBindings a)

/-! ### One renaming after the other -/

/-- Renames by `u`, then by `v`: the arrows of `u` with their targets renamed by `v`, and the arrows
of `v` whose sources `u` neither renames nor produces. -/
def andThen (u v : Unifier) : Unifier :=
  .ofList <|
    (u.toList.flatMap fun e => (v.images e.target).map (Arrow.mk e.source)) ++
      v.toList.filter fun e => e.source ∉ u.sources ∧ e.source ∉ u.targets

end Unifier

end VarRenaming
