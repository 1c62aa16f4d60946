import VarRenaming.Proofs.Alternatives.Limit
import VarRenaming.Proofs.FiniteSet.Listing
import VarRenaming.Proofs.Unifier.Reversal

/-! # A combination turned around

Different unifiers have different inverses, so inverting keeps the number of alternatives
(`size_inverse`), and a combination needs as many pairs of alternatives in the one direction as in
the other (`pairCount_inverse`): the settings refuse both or neither, with the same numbers. -/

namespace VarRenaming.Alternatives

variable {a b : Alternatives}

theorem size_inverse (a : Alternatives) : a.inverse.size = a.size :=
  FiniteSet.size_image fun _ _ _ _ h => Unifier.inverse_inj.mp h

theorem pairCount_inverse (a b : Alternatives) :
    b.inverse.pairCount a.inverse = a.pairCount b := by
  rw [pairCount, pairCount, size_inverse, size_inverse, Nat.mul_comm]

theorem inverse_product
    (h : ∀ u ∈ a, ∀ v ∈ b, (u.andThen v).inverse = v.inverse.andThen u.inverse) :
    (a.product b).inverse = b.inverse.product a.inverse := by
  ext w
  simp only [mem_inverse, mem_product]
  constructor
  · rintro ⟨_, ⟨u, hu, v, hv, rfl⟩, rfl⟩
    exact ⟨_, ⟨v, hv, rfl⟩, _, ⟨u, hu, rfl⟩, (h u hu v hv).symm⟩
  · rintro ⟨_, ⟨v, hv, rfl⟩, _, ⟨u, hu, rfl⟩, rfl⟩
    exact ⟨_, ⟨u, hu, v, hv, rfl⟩, h u hu v hv⟩

/-- **Inverting a combination.** Let each alternative of the first set produce what it and one of
the second both rename, and let each of the second rename what it and one of the first both produce.
Then inverting what the combination gives is combining the inverses in the opposite order; where the
settings refuse the one, they refuse the other for the same reason. -/
theorem inverse_of_combination (a b : Alternatives) (s : Settings)
    (h : ∀ u ∈ a, ∀ v ∈ b,
      (∀ x ∈ u.sources, x ∈ v.sources → x ∈ u.targets) ∧
        ∀ x ∈ u.targets, x ∈ v.targets → x ∈ v.sources) :
    (a.andThen b s).map inverse = b.inverse.andThen a.inverse s := by
  have hinv : (a.product b).inverse = b.inverse.product a.inverse := by
    refine inverse_product fun u hu v hv => ?_
    obtain ⟨hsrc, htgt⟩ := h u hu v hv
    exact Unifier.inverse_andThen hsrc htgt
  unfold andThen
  rw [pairCount_inverse]
  split
  · exact congrArg Except.ok hinv
  · rfl

/-- `x` and `y` are exchanged, or kept with `x` copied to `k`; then `y` is copied to `p`, or they
are exchanged with `x` copied to `p`. A limit of four allows the four pairs in either direction, and
a limit of three refuses them. -/
theorem inverse_of_combination_exchange :
    let x : Var := ⟨"x"⟩
    let y : Var := ⟨"y"⟩
    let k : Var := ⟨"k"⟩
    let p : Var := ⟨"p"⟩
    let a : Alternatives := .ofList [.ofList [⟨x, y⟩, ⟨y, x⟩], .ofList [⟨y, y⟩, ⟨x, x⟩, ⟨x, k⟩]]
    let b : Alternatives := .ofList [.ofList [⟨y, p⟩, ⟨y, y⟩], .ofList [⟨x, y⟩, ⟨y, x⟩, ⟨x, p⟩]]
    let m : Alternatives :=
      .ofList [.ofList [⟨x, y⟩, ⟨x, p⟩, ⟨y, x⟩], .ofList [⟨x, x⟩, ⟨y, y⟩, ⟨y, p⟩],
        .ofList [⟨x, x⟩, ⟨x, k⟩, ⟨y, y⟩, ⟨y, p⟩], .ofList [⟨x, y⟩, ⟨x, p⟩, ⟨x, k⟩, ⟨y, x⟩]]
    let m' : Alternatives :=
      .ofList [.ofList [⟨y, x⟩, ⟨p, x⟩, ⟨x, y⟩], .ofList [⟨x, x⟩, ⟨y, y⟩, ⟨p, y⟩],
        .ofList [⟨x, x⟩, ⟨k, x⟩, ⟨y, y⟩, ⟨p, y⟩], .ofList [⟨y, x⟩, ⟨p, x⟩, ⟨k, x⟩, ⟨x, y⟩]]
    (∀ u ∈ a, ∀ v ∈ b,
      (∀ w ∈ u.sources, w ∈ v.sources → w ∈ u.targets) ∧
        ∀ w ∈ u.targets, w ∈ v.targets → w ∈ v.sources) ∧
    (a.andThen b ⟨4⟩ = .ok m ∧ b.inverse.andThen a.inverse ⟨4⟩ = .ok m') ∧
    a.andThen b ⟨3⟩ = .error (.overLimit 3 4) ∧
      b.inverse.andThen a.inverse ⟨3⟩ = .error (.overLimit 3 4) := by
  intro x y k p a b m m'
  have h : ∀ u ∈ a, ∀ v ∈ b,
      (∀ w ∈ u.sources, w ∈ v.sources → w ∈ u.targets) ∧
        ∀ w ∈ u.targets, w ∈ v.targets → w ∈ v.sources := by
    decide +kernel
  have hproduct : a.product b = m := by decide +kernel
  have hinverse : m.inverse = m' := by decide +kernel
  have hok : a.andThen b ⟨4⟩ = .ok m := by
    rw [andThen_of_allows (by decide +kernel), hproduct]
  have hrefused : a.andThen b ⟨3⟩ = .error (.overLimit 3 4) :=
    andThen_eq_error_iff.mpr ⟨by decide +kernel, by decide +kernel⟩
  refine ⟨h, ⟨hok, ?_⟩, hrefused, ?_⟩
  · rw [← inverse_of_combination a b ⟨4⟩ h, hok, ← hinverse]
    rfl
  · rw [← inverse_of_combination a b ⟨3⟩ h, hrefused]
    rfl

end VarRenaming.Alternatives
