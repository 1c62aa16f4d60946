import VarRenaming.Proofs.Unifier.Inverse

/-! # A unifier followed by its inverse

Composed with its inverse, a unifier relates its sources to each other: an arrow leads from one to
another exactly when the two share a target (`mem_andThen_inverse`). Whatever the unifier produces
its inverse renames, so of the three kinds of arrows in a composition only the chains occur here. -/

namespace VarRenaming.Unifier

open Std

variable {u : Unifier}

/-! ### Loops -/

/-- An arrow from each of the variables to itself. -/
def loops (xs : FiniteSet Var) : Unifier := ⟨xs.image fun x => ⟨x, x⟩⟩

theorem mem_loops {xs : FiniteSet Var} {s t : Var} : ⟨s, t⟩ ∈ loops xs ↔ s ∈ xs ∧ s = t := by
  rw [← mem_arrows, loops, FiniteSet.mem_image]
  constructor
  · rintro ⟨x, hx, heq⟩
    obtain ⟨rfl, rfl⟩ := Arrow.mk.inj heq
    exact ⟨hx, rfl⟩
  · rintro ⟨hs, rfl⟩
    exact ⟨s, hs, rfl⟩

/-! ### Shared targets -/

/-- **The arrows there and back** lead between sources with a common target. -/
theorem mem_andThen_inverse {s s' : Var} :
    ⟨s, s'⟩ ∈ u.andThen u.inverse ↔ ∃ t, ⟨s, t⟩ ∈ u ∧ ⟨s', t⟩ ∈ u := by
  simp only [mem_andThen_iff, mem_inverse, Arrow.flip, mem_sources_inverse]
  constructor
  · rintro (h | ⟨hs, ht⟩ | ⟨hs, -, ht⟩)
    · exact h
    · exact absurd (mem_targets.mpr ⟨s, hs⟩) ht
    · exact absurd (mem_targets.mpr ⟨s', hs⟩) ht
  · exact Or.inl

theorem loop_mem_andThen_inverse {s : Var} : ⟨s, s⟩ ∈ u.andThen u.inverse ↔ s ∈ u.sources := by
  simp only [mem_andThen_inverse, and_self_iff, mem_sources]

theorem inverse_andThen_inverse (u : Unifier) :
    (u.andThen u.inverse).inverse = u.andThen u.inverse := by
  ext ⟨s, s'⟩
  simp only [mem_inverse, Arrow.flip, mem_andThen_inverse]
  exact exists_congr fun t => and_comm

theorem sources_andThen_inverse (u : Unifier) : (u.andThen u.inverse).sources = u.sources := by
  refine ExtTreeSet.ext_mem fun s => ?_
  rw [mem_sources_andThen, mem_sources_inverse, and_not_self_iff, or_false]

/-- **There and back is no step** exactly when no two sources share a target. -/
theorem andThen_inverse_eq_loops_iff :
    u.andThen u.inverse = loops u.sources ↔ u.Injective := by
  constructor
  · intro h s s' t hs hs'
    have hmem : ⟨s, s'⟩ ∈ u.andThen u.inverse := mem_andThen_inverse.mpr ⟨t, hs, hs'⟩
    rw [h] at hmem
    exact (mem_loops.mp hmem).2
  · intro hu
    ext ⟨s, s'⟩
    rw [mem_loops]
    constructor
    · intro hmem
      obtain ⟨t, hs, hs'⟩ := mem_andThen_inverse.mp hmem
      exact ⟨mem_sources.mpr ⟨t, hs⟩, hu s s' t hs hs'⟩
    · rintro ⟨hs, rfl⟩
      exact loop_mem_andThen_inverse.mpr hs

/-- **A unifier followed by its inverse** has an arrow from one variable to another exactly when the
two have a common target. So just the sources of the unifier have loops, the arrows lead from
sources to sources and in both directions, and there are no arrows but the loops exactly when no two
sources share a target. -/
theorem arrows_there_and_back (u : Unifier) :
    (∀ s s', ⟨s, s'⟩ ∈ u.andThen u.inverse ↔ ∃ t, ⟨s, t⟩ ∈ u ∧ ⟨s', t⟩ ∈ u) ∧
    (∀ s, ⟨s, s⟩ ∈ u.andThen u.inverse ↔ s ∈ u.sources) ∧
    (u.andThen u.inverse).sources = u.sources ∧
    (u.andThen u.inverse).inverse = u.andThen u.inverse ∧
    (u.andThen u.inverse = loops u.sources ↔ u.Injective) :=
  ⟨fun _ _ => mem_andThen_inverse, fun _ => loop_mem_andThen_inverse, u.sources_andThen_inverse,
    u.inverse_andThen_inverse, andThen_inverse_eq_loops_iff⟩

/-- `x` shares `p` with `y` and `q` with `z`, but `y` and `z` have no common target. -/
example :
    let x : Var := ⟨"x"⟩
    let y : Var := ⟨"y"⟩
    let z : Var := ⟨"z"⟩
    let u : Unifier := .ofList [⟨x, ⟨"p"⟩⟩, ⟨y, ⟨"p"⟩⟩, ⟨x, ⟨"q"⟩⟩, ⟨z, ⟨"q"⟩⟩]
    u.andThen u.inverse =
      .ofList [⟨x, x⟩, ⟨x, y⟩, ⟨x, z⟩, ⟨y, x⟩, ⟨y, y⟩, ⟨z, x⟩, ⟨z, z⟩] := by
  decide +kernel

end VarRenaming.Unifier
