import VarRenaming.Proofs.Alternatives.Composition

/-! # The limit on combinations

Whether a combination exists depends on the number of pairs alone, which is counted up to the
greatest 64-bit number and before equal compositions collapse (`andThen_eq_ok_iff`,
`andThen_eq_error_iff`). What exists is the whole product. -/

namespace VarRenaming.Alternatives

open Std

variable {a b m : Alternatives} {s : Settings}

/-! ### Sizes -/

theorem size_ofList_le (us : List Unifier) : (ofList us).size ≤ us.length :=
  ExtTreeSet.size_ofList_le

/-- Compositions of different pairs may be equal. -/
theorem size_product_le (a b : Alternatives) : (a.product b).size ≤ a.size * b.size := by
  have hlen : (a.toList.flatMap fun u => b.toList.map u.andThen).length = a.size * b.size := by
    simp only [List.length_flatMap, List.length_map, length_toList, List.map_const',
      List.sum_replicate_nat]
  rw [← hlen]
  exact size_ofList_le _

theorem pairCount_comm (a b : Alternatives) : a.pairCount b = b.pairCount a := by
  rw [pairCount, pairCount, Nat.mul_comm]

/-! ### Outcomes -/

theorem not_allows_pairCount_iff :
    ¬ s.Allows (a.pairCount b) ↔
      s.maxAlternatives ≠ 0 ∧
        s.maxAlternatives.toNat < min (a.size * b.size) (UInt64.size - 1) := by
  rw [allows_pairCount_iff, not_or, Nat.not_le]

theorem andThen_eq_ok_iff :
    a.andThen b s = .ok m ↔ s.Allows (a.pairCount b) ∧ m = a.product b := by
  unfold andThen
  split
  · next h => simp only [h, true_and, Except.ok.injEq, eq_comm]
  · next h => simp only [h, false_and, reduceCtorEq]

theorem andThen_eq_error_iff {r : Refusal} :
    a.andThen b s = .error r ↔
      ¬ s.Allows (a.pairCount b) ∧ r = .overLimit s.maxAlternatives (a.pairCount b) := by
  unfold andThen
  split
  · next h => simp only [h, not_true, false_and, reduceCtorEq]
  · next h => simp only [h, not_false_eq_true, true_and, Except.error.injEq, eq_comm]

theorem eq_product_iff : m = a.product b ↔ ∀ w, w ∈ m ↔ ∃ u ∈ a, ∃ v ∈ b, u.andThen v = w := by
  constructor
  · rintro rfl w
    exact mem_product
  · intro h
    ext w
    rw [h, mem_product]

/-- **The limit on a combination.** A combination is refused exactly when there is a limit and the
number of pairs of alternatives, or the greatest 64-bit number if there are more, exceeds it; the
refusal tells both numbers. Otherwise it has exactly the compositions of all pairs as its
alternatives, and no more of them than there are pairs. So a limit below the greatest 64-bit number
allows a combination exactly when there are no more pairs, and then holds for the result too. -/
theorem limit_of_combination (a b : Alternatives) (s : Settings) :
    (∀ r, a.andThen b s = .error r ↔
      (s.maxAlternatives ≠ 0 ∧
        s.maxAlternatives.toNat < min (a.size * b.size) (UInt64.size - 1)) ∧
      ∃ required : UInt64, required.toNat = min (a.size * b.size) (UInt64.size - 1) ∧
        r = .overLimit s.maxAlternatives required) ∧
    (∀ m, a.andThen b s = .ok m ↔
      (s.maxAlternatives = 0 ∨
        min (a.size * b.size) (UInt64.size - 1) ≤ s.maxAlternatives.toNat) ∧
      ∀ w, w ∈ m ↔ ∃ u ∈ a, ∃ v ∈ b, u.andThen v = w) ∧
    (∀ m, a.andThen b s = .ok m → m.size ≤ a.size * b.size) ∧
    (0 < s.maxAlternatives.toNat → s.maxAlternatives.toNat < UInt64.size - 1 →
      ((∃ m, a.andThen b s = .ok m) ↔ a.size * b.size ≤ s.maxAlternatives.toNat) ∧
      ∀ m, a.andThen b s = .ok m → m.size ≤ s.maxAlternatives.toNat) := by
  have hsize : ∀ m, a.andThen b s = .ok m → m.size ≤ a.size * b.size := by
    intro m hm
    rw [eq_product_of_andThen hm]
    exact size_product_le a b
  refine ⟨fun r => ?_, fun m => ?_, hsize, fun hpos hlt => ?_⟩
  · rw [andThen_eq_error_iff, not_allows_pairCount_iff]
    refine and_congr_right fun _ => ⟨fun hr => ⟨_, toNat_pairCount a b, hr⟩, ?_⟩
    rintro ⟨required, hreq, rfl⟩
    rw [UInt64.toNat_inj.mp (hreq.trans (toNat_pairCount a b).symm)]
  · rw [andThen_eq_ok_iff, allows_pairCount_iff, eq_product_iff]
  · have hzero : s.maxAlternatives ≠ 0 := by
      rintro h
      rw [h] at hpos
      exact Nat.lt_irrefl 0 hpos
    have hallows : (∃ m, a.andThen b s = .ok m) ↔
        a.size * b.size ≤ s.maxAlternatives.toNat := by
      simp only [andThen_eq_ok_iff, exists_and_left, exists_eq, and_true, allows_pairCount_iff,
        hzero, false_or]
      -- a limit below the greatest 64-bit number is compared with the exact count
      omega
    exact ⟨hallows, fun m hm => Nat.le_trans (hsize m hm) (hallows.mp ⟨m, hm⟩)⟩

/-- Four pairs with three different compositions are refused by a limit of three, which would hold
for the result, and allowed by a limit of four. -/
theorem limit_of_combination_collapse :
    let x : Var := ⟨"x"⟩
    let y : Var := ⟨"y"⟩
    let k : Var := ⟨"k"⟩
    let a : Alternatives := .ofList [.ofList [⟨x, y⟩], .ofList [⟨x, k⟩]]
    let b : Alternatives := .ofList [.identity, .ofList [⟨y, k⟩]]
    let m : Alternatives := .ofList [.ofList [⟨x, y⟩], .ofList [⟨x, k⟩], .ofList [⟨x, k⟩, ⟨y, k⟩]]
    (a.size * b.size = 4 ∧ m.size = 3) ∧
      (a.andThen b ⟨3⟩ = .error (.overLimit 3 4) ∧ ¬ ∃ m, a.andThen b ⟨3⟩ = .ok m) ∧
      a.andThen b ⟨4⟩ = .ok m := by
  intro x y k a b m
  have hsize : a.size * b.size = 4 := by decide +kernel
  have hproduct : a.product b = m := by decide +kernel
  have hrefused : a.andThen b ⟨3⟩ = .error (.overLimit 3 4) := by
    refine ((limit_of_combination a b ⟨3⟩).1 _).mpr ⟨?_, 4, ?_, rfl⟩ <;> rw [hsize] <;> decide
  obtain ⟨hallows, -⟩ := (limit_of_combination a b ⟨4⟩).2.2.2 (by decide) (by decide)
  obtain ⟨m', hm'⟩ := hallows.mpr (by rw [hsize]; decide)
  obtain rfl : m' = m := (eq_product_of_andThen hm').trans hproduct
  refine ⟨⟨hsize, by decide +kernel⟩, ⟨hrefused, ?_⟩, hm'⟩
  rw [((limit_of_combination a b ⟨3⟩).2.2.2 (by decide) (by decide)).1, hsize]
  decide

end VarRenaming.Alternatives
