import VarRenaming.Proofs.Alternatives.Limit

/-! # Units of combination

For alternatives, `trivial` is a unit of the product and `impossible` its zero. Both are tested
against the limit all the same: with `trivial` there are as many pairs as alternatives, so a set
that is over the limit by itself is refused, and with `impossible` there are none. -/

namespace VarRenaming

/-! ### The identity -/

namespace Unifier

theorem not_mem_sources_identity (x : Var) : x ∉ identity.sources := by
  rw [mem_sources]
  rintro ⟨t, ht⟩
  exact not_mem_identity _ ht

theorem not_mem_targets_identity (x : Var) : x ∉ identity.targets := by
  rw [mem_targets]
  rintro ⟨s, hs⟩
  exact not_mem_identity _ hs

theorem andThen_identity (u : Unifier) : u.andThen identity = u := by
  ext ⟨s, t⟩
  simp only [mem_andThen_iff, not_mem_identity, not_mem_sources_identity, and_false, exists_false,
    false_and, not_false_eq_true, and_true, false_or, or_false]

theorem identity_andThen (u : Unifier) : identity.andThen u = u := by
  ext ⟨s, t⟩
  simp only [mem_andThen_iff, not_mem_identity, not_mem_sources_identity,
    not_mem_targets_identity, false_and, exists_false, not_false_eq_true, and_true, false_or]

end Unifier

namespace Alternatives

variable {s : Settings}

/-! ### Products -/

theorem mem_trivial {u : Unifier} : u ∈ trivial ↔ u = .identity := mem_single

theorem product_trivial (a : Alternatives) : a.product trivial = a := by
  ext w
  simp only [mem_product, mem_trivial, exists_eq_left, Unifier.andThen_identity, exists_eq_right]

theorem trivial_product (a : Alternatives) : trivial.product a = a := by
  ext w
  simp only [mem_product, mem_trivial, exists_eq_left, Unifier.identity_andThen, exists_eq_right]

theorem product_impossible (a : Alternatives) : a.product impossible = impossible := by
  ext w
  simp only [mem_product, not_mem_impossible, false_and, exists_false, and_false]

theorem impossible_product (a : Alternatives) : impossible.product a = impossible := by
  ext w
  simp only [mem_product, not_mem_impossible, false_and, exists_false]

/-! ### Numbers of pairs -/

theorem size_trivial : trivial.size = 1 := by
  decide

theorem toNat_pairCount_trivial (a : Alternatives) :
    (a.pairCount trivial).toNat = min a.size (UInt64.size - 1) := by
  rw [toNat_pairCount, size_trivial, Nat.mul_one]

theorem allows_pairCount_impossible (a : Alternatives) : s.Allows (a.pairCount impossible) := by
  have hzero : a.size * impossible.size = 0 := Nat.mul_zero _
  rw [allows_pairCount_iff, hzero, Nat.zero_min]
  exact Or.inr (Nat.zero_le _)

/-- Two alternatives are over a limit of one, also in a combination that does not change them. -/
example :
    let a := ofList [.ofList [⟨⟨"x"⟩, ⟨"y"⟩⟩], .ofList [⟨⟨"y"⟩, ⟨"x"⟩⟩, ⟨⟨"y"⟩, ⟨"y"⟩⟩]]
    ¬ Settings.Allows ⟨1⟩ (a.pairCount trivial) ∧ Settings.Allows ⟨1⟩ (a.pairCount impossible) := by
  decide +kernel

/-! ### Combinations -/

/-- **Units and zeros of combination.** Combining alternatives with the trivial ones, on either
side, gives the alternatives back if the settings allow as many as there are, and is refused
otherwise with this number as the required one; beyond 64 bits it counts as the greatest 64-bit
number. Combining them with the impossible ones, on either side, leaves nothing, and is never
refused, however low the limit. -/
theorem units_of_combination (a : Alternatives) (s : Settings) :
    (∃ required : UInt64, required.toNat = min a.size (UInt64.size - 1) ∧
      a.andThen trivial s =
        (if s.Allows required then .ok a else .error (.overLimit s.maxAlternatives required)) ∧
      trivial.andThen a s =
        (if s.Allows required then .ok a else .error (.overLimit s.maxAlternatives required))) ∧
    a.andThen impossible s = .ok impossible ∧ impossible.andThen a s = .ok impossible := by
  refine ⟨⟨_, toNat_pairCount_trivial a, ?_, ?_⟩, ?_, ?_⟩
  · rw [andThen, product_trivial]
  · rw [andThen, trivial_product, pairCount_comm]
  · rw [andThen_of_allows (allows_pairCount_impossible a), product_impossible]
  · have hallows : s.Allows (impossible.pairCount a) := by
      rw [pairCount_comm]
      exact allows_pairCount_impossible a
    rw [andThen_of_allows hallows, impossible_product]

end Alternatives

end VarRenaming
