import VarRenaming.Proofs.Alternatives.Composition
import VarRenaming.Proofs.Unifier.Associativity

/-! # Three sets of alternatives in one

The product of three sets of alternatives does not depend on the bracketing if the composition of
no triple of alternatives does (`product_assoc`). Without a bound on the number of alternatives the
same holds of their combination. -/

namespace VarRenaming.Alternatives

variable {a b c : Alternatives}

theorem product_assoc
    (h : ∀ u ∈ a, ∀ v ∈ b, ∀ w ∈ c, (u.andThen v).andThen w = u.andThen (v.andThen w)) :
    (a.product b).product c = a.product (b.product c) := by
  ext x
  simp only [mem_product]
  constructor
  · rintro ⟨_, ⟨u, hu, v, hv, rfl⟩, w, hw, rfl⟩
    exact ⟨u, hu, _, ⟨v, hv, w, hw, rfl⟩, (h u hu v hv w hw).symm⟩
  · rintro ⟨u, hu, _, ⟨v, hv, w, hw, rfl⟩, rfl⟩
    exact ⟨_, ⟨u, hu, v, hv, rfl⟩, w, hw, h u hu v hv w hw⟩

/-- **Combining three.** Let no alternative of the first set have a source in common with one of the
second, or produce a source of one of the third. Then the first two can be combined before the third
or the last two behind the first: without a bound, both combinations exist and are equal, and so are
the compositions of any three of the alternatives. -/
theorem andThen_bracketing (a b c : Alternatives)
    (h : ∀ u ∈ a, ∀ v ∈ b, ∀ w ∈ c,
      (∀ x ∈ u.sources, x ∉ v.sources) ∧ ∀ x ∈ u.targets, x ∉ w.sources) :
    (∃ ab bc m, a.andThen b .unlimited = .ok ab ∧ b.andThen c .unlimited = .ok bc ∧
      ab.andThen c .unlimited = .ok m ∧ a.andThen bc .unlimited = .ok m) ∧
    ∀ u ∈ a, ∀ v ∈ b, ∀ w ∈ c, (u.andThen v).andThen w = u.andThen (v.andThen w) := by
  have hassoc : ∀ u ∈ a, ∀ v ∈ b, ∀ w ∈ c,
      (u.andThen v).andThen w = u.andThen (v.andThen w) := by
    intro u hu v hv w hw
    obtain ⟨huv, huw⟩ := h u hu v hv w hw
    exact Unifier.andThen_assoc huv huw
  refine ⟨⟨a.product b, b.product c, (a.product b).product c, andThen_unlimited a b,
    andThen_unlimited b c, andThen_unlimited _ c, ?_⟩, hassoc⟩
  rw [product_assoc hassoc]
  exact andThen_unlimited a _

/-- `x` goes to `y`, or to `y` and `z`; some of these go on to `k`; then `k` and `x` are exchanged.
Either way four alternatives are left of the eight triples. -/
theorem andThen_bracketing_fan :
    let x : Var := ⟨"x"⟩
    let y : Var := ⟨"y"⟩
    let z : Var := ⟨"z"⟩
    let k : Var := ⟨"k"⟩
    let a : Alternatives := .ofList [.ofList [⟨x, y⟩], .ofList [⟨x, y⟩, ⟨x, z⟩]]
    let b : Alternatives := .ofList [.ofList [⟨y, k⟩], .ofList [⟨z, k⟩, ⟨k, z⟩]]
    let c : Alternatives := .ofList [.ofList [⟨k, x⟩, ⟨x, k⟩]]
    let ab : Alternatives :=
      .ofList [.ofList [⟨x, k⟩], .ofList [⟨x, y⟩, ⟨z, k⟩, ⟨k, z⟩], .ofList [⟨x, k⟩, ⟨x, z⟩],
        .ofList [⟨x, y⟩, ⟨x, k⟩, ⟨k, z⟩]]
    let bc : Alternatives := .ofList [.ofList [⟨y, x⟩, ⟨x, k⟩], .ofList [⟨z, x⟩, ⟨k, z⟩, ⟨x, k⟩]]
    let m : Alternatives :=
      .ofList [.ofList [⟨x, x⟩], .ofList [⟨x, y⟩, ⟨z, x⟩, ⟨k, z⟩], .ofList [⟨x, x⟩, ⟨x, z⟩],
        .ofList [⟨x, y⟩, ⟨x, x⟩, ⟨k, z⟩]]
    (∀ u ∈ a, ∀ v ∈ b, ∀ w ∈ c,
      (∀ t ∈ u.sources, t ∉ v.sources) ∧ ∀ t ∈ u.targets, t ∉ w.sources) ∧
    a.andThen b .unlimited = .ok ab ∧ b.andThen c .unlimited = .ok bc ∧
      ab.andThen c .unlimited = .ok m ∧ a.andThen bc .unlimited = .ok m := by
  intro x y z k a b c ab bc m
  have h : ∀ u ∈ a, ∀ v ∈ b, ∀ w ∈ c,
      (∀ t ∈ u.sources, t ∉ v.sources) ∧ ∀ t ∈ u.targets, t ∉ w.sources := by
    decide +kernel
  obtain ⟨⟨ab', bc', m', hab, hbc, hleft, hright⟩, -⟩ := andThen_bracketing a b c h
  obtain rfl : ab' = ab := (eq_product_of_andThen hab).trans (by decide +kernel)
  obtain rfl : bc' = bc := (eq_product_of_andThen hbc).trans (by decide +kernel)
  obtain rfl : m' = m := (eq_product_of_andThen hleft).trans (by decide +kernel)
  exact ⟨h, hab, hbc, hleft, hright⟩

end VarRenaming.Alternatives
