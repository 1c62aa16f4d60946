import VarRenaming.Proofs.Unifier.Inverse

/-! # A composition turned around

Turned around, the chains of a composition stay chains, and its other two kinds of arrows change
places. But the one is filtered by one set of variables and the other by two. So the inverse of a
composition is the composition of the inverses (`inverse_andThen`) only where the additional filter
drops nothing. -/

namespace VarRenaming.Unifier

variable {u v : Unifier}

theorem inverse_inverse (u : Unifier) : u.inverse.inverse = u := by
  ext e
  rw [mem_inverse, mem_inverse, Arrow.flip_flip]

theorem inverse_inj : u.inverse = v.inverse ↔ u = v := by
  constructor
  · intro h
    rw [← inverse_inverse u, h, inverse_inverse]
  · rintro rfl
    rfl

theorem mem_targets_inverse {x : Var} : x ∈ u.inverse.targets ↔ x ∈ u.sources := by
  rw [← mem_sources_inverse, inverse_inverse]

/-- **The inverse of a composition** is the composition of the inverses, in the opposite order. -/
theorem inverse_andThen (hsrc : ∀ x ∈ u.sources, x ∈ v.sources → x ∈ u.targets)
    (htgt : ∀ x ∈ u.targets, x ∈ v.targets → x ∈ v.sources) :
    (u.andThen v).inverse = v.inverse.andThen u.inverse := by
  ext ⟨t, s⟩
  simp only [mem_inverse, Arrow.flip, mem_andThen_iff, mem_sources_inverse, mem_targets_inverse]
  have hchain : (∃ y, ⟨s, y⟩ ∈ u ∧ ⟨y, t⟩ ∈ v) ↔ ∃ y, ⟨y, t⟩ ∈ v ∧ ⟨s, y⟩ ∈ u :=
    exists_congr fun y => and_comm
  -- an arrow of `u` is kept on both sides alike: `htgt` is the test that only one side makes
  have hleft : ⟨s, t⟩ ∈ u ∧ t ∉ v.sources ↔ ⟨s, t⟩ ∈ u ∧ t ∉ v.targets ∧ t ∉ v.sources := by
    refine and_congr_right fun hst => ⟨fun hts => ⟨fun htt => ?_, hts⟩, And.right⟩
    exact hts (htgt t (mem_targets.mpr ⟨s, hst⟩) htt)
  -- and an arrow of `v` by `hsrc`
  have hright : ⟨s, t⟩ ∈ v ∧ s ∉ u.sources ∧ s ∉ u.targets ↔ ⟨s, t⟩ ∈ v ∧ s ∉ u.targets := by
    refine and_congr_right fun hst => ⟨And.right, fun hs => ⟨fun hss => ?_, hs⟩⟩
    exact hs (hsrc s hss (mem_sources.mpr ⟨t, hst⟩))
  rw [hchain, hleft, hright]
  exact or_congr_right or_comm

/-- Where both unifiers rename `x` and the first does not produce it, the order matters. -/
example :
    let u : Unifier := .ofList [⟨⟨"x"⟩, ⟨"y"⟩⟩]
    let v : Unifier := .ofList [⟨⟨"x"⟩, ⟨"z"⟩⟩]
    (u.andThen v).inverse ≠ v.inverse.andThen u.inverse := by
  decide +kernel

end VarRenaming.Unifier
