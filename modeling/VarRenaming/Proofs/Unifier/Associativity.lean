import VarRenaming.Proofs.Unifier.Composition

/-! # Three renamings in one

How much stands before an arrow of the last unifier, and so whether it is dropped, depends on the
bracketing. The two bracketings agree (`andThen_assoc`) if the first two unifiers have no source in
common and the first produces no source of the last. -/

namespace VarRenaming.Unifier

variable {u v w : Unifier}

theorem mem_targets_andThen {t : Var} :
    t ∈ (u.andThen v).targets ↔
      (∃ y ∈ u.targets, t ∈ v.images y) ∨ ∃ s, ⟨s, t⟩ ∈ v ∧ s ∉ u.sources ∧ s ∉ u.targets := by
  simp only [mem_targets, mem_andThen]
  constructor
  · rintro ⟨s, ⟨y, hy, ht⟩ | h⟩
    · exact Or.inl ⟨y, ⟨s, hy⟩, ht⟩
    · exact Or.inr ⟨s, h⟩
  · rintro (⟨y, ⟨s, hy⟩, ht⟩ | ⟨s, h⟩)
    · exact ⟨s, Or.inl ⟨y, hy, ht⟩⟩
    · exact ⟨s, Or.inr h⟩

theorem mem_targets_andThen_of_disjoint (huv : ∀ x ∈ u.sources, x ∉ v.sources) {t : Var}
    (ht : t ∈ v.targets) : t ∈ (u.andThen v).targets := by
  obtain ⟨s, hs⟩ := mem_targets.mp ht
  have hsv : s ∈ v.sources := mem_sources.mpr ⟨t, hs⟩
  have hsu : s ∉ u.sources := fun h => huv s h hsv
  rw [mem_targets_andThen]
  by_cases hst : s ∈ u.targets
  · exact Or.inl ⟨s, hst, (mem_images_of_mem_sources hsv).mpr hs⟩
  · exact Or.inr ⟨s, hs, hsu, hst⟩

theorem mem_targets_of_mem_targets_andThen {t : Var} (hu : t ∉ u.targets)
    (ht : t ∈ (u.andThen v).targets) : t ∈ v.targets := by
  rcases mem_targets_andThen.mp ht with ⟨y, hy, hty⟩ | ⟨s, hs, -, -⟩
  · rcases mem_images.mp hty with hyt | ⟨-, rfl⟩
    · exact mem_targets.mpr ⟨y, hyt⟩
    · exact absurd hy hu
  · exact mem_targets.mpr ⟨s, hs⟩

theorem kept_andThen_iff (huv : ∀ x ∈ u.sources, x ∉ v.sources) {s : Var} (hs : s ∉ u.targets) :
    s ∉ (u.andThen v).sources ∧ s ∉ (u.andThen v).targets ↔
      (s ∉ v.sources ∧ s ∉ v.targets) ∧ s ∉ u.sources ∧ s ∉ u.targets := by
  rw [mem_sources_andThen]
  constructor
  · rintro ⟨hsrc, htgt⟩
    have hv : s ∉ v.sources := fun h => hsrc (Or.inr ⟨h, hs⟩)
    have hvt : s ∉ v.targets := fun h => htgt (mem_targets_andThen_of_disjoint huv h)
    exact ⟨⟨hv, hvt⟩, fun h => hsrc (Or.inl h), hs⟩
  · rintro ⟨⟨hv, hvt⟩, hu, -⟩
    constructor
    · rintro (h | ⟨h, -⟩)
      · exact hu h
      · exact hv h
    · exact fun h => hvt (mem_targets_of_mem_targets_andThen hs h)

/-- **Associativity** of composition. -/
theorem andThen_assoc (huv : ∀ x ∈ u.sources, x ∉ v.sources)
    (huw : ∀ x ∈ u.targets, x ∉ w.sources) :
    (u.andThen v).andThen w = u.andThen (v.andThen w) := by
  ext ⟨s, t⟩
  -- no target of `u` is captured, since `w` does not rename it
  have himages : ∀ y, ⟨s, y⟩ ∈ u →
      (t ∈ (v.andThen w).images y ↔ ∃ z ∈ v.images y, t ∈ w.images z) := by
    intro y hy
    refine mem_images_andThen fun hcap => ?_
    exact huw y (mem_targets.mpr ⟨s, hy⟩) hcap.2.1
  have hkept : ⟨s, t⟩ ∈ w → (s ∉ (u.andThen v).sources ∧ s ∉ (u.andThen v).targets ↔
      (s ∉ v.sources ∧ s ∉ v.targets) ∧ s ∉ u.sources ∧ s ∉ u.targets) := by
    intro h
    exact kept_andThen_iff huv fun hs => huw s hs (mem_sources.mpr ⟨t, h⟩)
  rw [mem_andThen, mem_andThen]
  constructor
  · rintro (⟨z, hz, ht⟩ | ⟨h, hs⟩)
    · rcases mem_andThen.mp hz with ⟨y, hy, hzy⟩ | ⟨hv, hs⟩
      · exact Or.inl ⟨y, hy, (himages y hy).mpr ⟨z, hzy, ht⟩⟩
      · exact Or.inr ⟨mem_andThen.mpr (Or.inl ⟨z, hv, ht⟩), hs⟩
    · obtain ⟨hv, hu⟩ := (hkept h).mp hs
      exact Or.inr ⟨mem_andThen.mpr (Or.inr ⟨h, hv⟩), hu⟩
  · rintro (⟨y, hy, ht⟩ | ⟨hvw, hs⟩)
    · obtain ⟨z, hzy, ht⟩ := (himages y hy).mp ht
      exact Or.inl ⟨z, mem_andThen.mpr (Or.inl ⟨y, hy, hzy⟩), ht⟩
    · rcases mem_andThen.mp hvw with ⟨z, hz, ht⟩ | ⟨h, hv⟩
      · exact Or.inl ⟨z, mem_andThen.mpr (Or.inr ⟨hz, hs⟩), ht⟩
      · exact Or.inr ⟨h, (hkept h).mpr ⟨hv, hs⟩⟩

/-- Where the first two unifiers rename the same variable, the bracketing matters. -/
example :
    let u : Unifier := .ofList [⟨⟨"x"⟩, ⟨"y"⟩⟩]
    let v : Unifier := .ofList [⟨⟨"x"⟩, ⟨"z"⟩⟩]
    let w : Unifier := .ofList [⟨⟨"z"⟩, ⟨"x"⟩⟩]
    (u.andThen v).andThen w ≠ u.andThen (v.andThen w) := by
  decide +kernel

end VarRenaming.Unifier
