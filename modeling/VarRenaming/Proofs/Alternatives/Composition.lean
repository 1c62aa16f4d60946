import VarRenaming.Alternatives.Renaming
import VarRenaming.Proofs.Unifier.Composition

/-! # Alternatives of two renamings in one

The product of two sets of alternatives renames an answer in all the ways in which an alternative of
the first and then one of the second can (`rename_product`), provided that no pair captures a
variable of the answer. Different pairs may compose to the same unifier. -/

namespace VarRenaming.Alternatives

open Std

variable {a b : Alternatives} {x : Answer}

/-! ### The product -/

/-- **The product renames as its factors do**, one after the other. -/
theorem rename_product
    (h : ∀ u ∈ a, ∀ v ∈ b, ∀ w c, x.get? w = some c → ¬ u.Captures v w) :
    (a.product b).rename x = (a.rename x).biUnion b.rename := by
  refine ExtTreeSet.ext_mem fun y => ?_
  simp only [mem_rename, mem_product, FiniteSet.mem_biUnion]
  constructor
  · rintro ⟨_, ⟨u, hu, v, hv, rfl⟩, hy⟩
    rw [Unifier.rename?_andThen (h u hu v hv), Option.bind_eq_some_iff] at hy
    obtain ⟨z, hz, hy⟩ := hy
    exact ⟨z, ⟨u, hu, hz⟩, v, hv, hy⟩
  · rintro ⟨z, ⟨u, hu, hz⟩, v, hv, hy⟩
    refine ⟨_, ⟨u, hu, v, hv, rfl⟩, ?_⟩
    rw [Unifier.rename?_andThen (h u hu v hv), hz]
    exact hy

/-! ### The limit -/

theorem allows_pairCount_iff {s : Settings} :
    s.Allows (a.pairCount b) ↔
      s.maxAlternatives = 0 ∨
        min (a.size * b.size) (UInt64.size - 1) ≤ s.maxAlternatives.toNat := by
  rw [Settings.Allows, UInt64.le_iff_toNat_le, toNat_pairCount]

theorem andThen_of_allows {s : Settings} (h : s.Allows (a.pairCount b)) :
    a.andThen b s = .ok (a.product b) := if_pos h

theorem andThen_unlimited (a b : Alternatives) : a.andThen b .unlimited = .ok (a.product b) :=
  andThen_of_allows (Or.inl rfl)

theorem eq_product_of_andThen {s : Settings} {m : Alternatives} (h : a.andThen b s = .ok m) :
    m = a.product b := by
  unfold andThen at h
  split at h
  · exact (Except.ok.inj h).symm
  · cases h

/-- **Combining loses and invents no answer.** Within the limit, combined alternatives rename an
answer to the union of what the second alternatives make of each result of the first, and each pair
of alternatives is without a result on both sides alike; provided that every variable of the answer
that an alternative of the first produces without renaming it is no source of the second. -/
theorem rename_andThen (a b : Alternatives) (s : Settings) (x : Answer)
    (hs : s.maxAlternatives = 0 ∨
      min (a.size * b.size) (UInt64.size - 1) ≤ s.maxAlternatives.toNat)
    (hx : ∀ u ∈ a, ∀ v ∈ b, ∀ w ∈ x.vars, w ∈ u.targets → w ∉ u.sources → w ∉ v.sources) :
    ∃ m, a.andThen b s = .ok m ∧
      m.rename x = (a.rename x).biUnion b.rename ∧
      ∀ u ∈ a, ∀ v ∈ b, (u.andThen v).rename? x = (u.rename? x).bind v.rename? := by
  have hcap : ∀ u ∈ a, ∀ v ∈ b, ∀ w c, x.get? w = some c → ¬ u.Captures v w := by
    rintro u hu v hv w c hw ⟨⟨ht, hn⟩, hsrc, -⟩
    exact hx u hu v hv w (Answer.mem_vars.mpr ⟨c, hw⟩) ht hn hsrc
  exact ⟨_, andThen_of_allows (allows_pairCount_iff.mpr hs), rename_product hcap,
    fun u hu v hv => Unifier.rename?_andThen (hcap u hu v hv)⟩

/-- Two crossed alternatives, then a renaming of `p` to `q` with and without one of `q` to `p`. The
four pairs just fit the limit; two of them are the same unifier, which would merge `x = 1` and
`y = 2`. -/
theorem rename_andThen_crossed :
    let x : Var := ⟨"x"⟩
    let y : Var := ⟨"y"⟩
    let p : Var := ⟨"p"⟩
    let q : Var := ⟨"q"⟩
    let one : Concept := ⟨1, by decide⟩
    let two : Concept := ⟨2, by decide⟩
    let a : Alternatives := .ofList [.ofList [⟨x, p⟩, ⟨y, q⟩], .ofList [⟨x, q⟩, ⟨y, p⟩]]
    let b : Alternatives := .ofList [.ofList [⟨p, q⟩], .ofList [⟨p, q⟩, ⟨q, p⟩]]
    let m : Alternatives :=
      .ofList [.ofList [⟨x, p⟩, ⟨y, q⟩], .ofList [⟨x, q⟩, ⟨y, p⟩], .ofList [⟨x, q⟩, ⟨y, q⟩]]
    let z : Answer := .ofBindings [(x, one), (y, two)]
    let rs : FiniteSet Answer :=
      .ofList [Answer.ofBindings [(p, one), (q, two)], .ofBindings [(p, two), (q, one)]]
    min (a.size * b.size) (UInt64.size - 1) = 4 ∧
      (∀ u ∈ a, ∀ v ∈ b, ∀ w ∈ z.vars, w ∈ u.targets → w ∉ u.sources → w ∉ v.sources) ∧
      a.andThen b ⟨4⟩ = .ok m ∧ m.rename z = rs ∧ (a.rename z).biUnion b.rename = rs := by
  intro x y p q one two a b m z rs
  have hsize : min (a.size * b.size) (UInt64.size - 1) = 4 := by decide +kernel
  have hfree : ∀ u ∈ a, ∀ v ∈ b, ∀ w ∈ z.vars, w ∈ u.targets → w ∉ u.sources → w ∉ v.sources := by
    simp only [a, b, mem_ofList, List.forall_mem_cons, List.not_mem_nil, false_imp_iff,
      implies_true, and_true]
    decide +kernel
  obtain ⟨m', hm', hunion, -⟩ := rename_andThen a b ⟨4⟩ z (.inr (Nat.le_of_eq hsize)) hfree
  have hproduct : a.product b = m := by decide +kernel
  obtain rfl : m' = m := (eq_product_of_andThen hm').trans hproduct
  have hrename : m.rename z = rs := by decide +kernel
  exact ⟨hsize, hfree, hm', hrename, hunion ▸ hrename⟩

end VarRenaming.Alternatives
