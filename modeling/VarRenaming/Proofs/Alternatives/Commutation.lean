import VarRenaming.Proofs.Alternatives.Limit
import VarRenaming.Proofs.Unifier.Union

/-! # Independent unifiers

A unifier whose sources another one does not meet only adds its arrows to that one
(`Unifier.andThen_eq_union`), and where this holds in both directions the order does not matter
(`Unifier.Independent.andThen_comm`). Common targets do no harm: a composition asks about sources
only. -/

namespace VarRenaming

/-! ### Unifiers -/

namespace Unifier

variable {u v : Unifier}

/-- The first unifier neither renames nor produces a source of the second. -/
def Avoids (u v : Unifier) : Prop := ∀ x ∈ v.sources, x ∉ u.sources ∧ x ∉ u.targets

/-- Neither unifier renames or produces a source of the other. -/
def Independent (u v : Unifier) : Prop := u.Avoids v ∧ ∀ x ∈ u.sources, x ∉ v.targets

/-- That the two have no source in common needs to be said only once. -/
theorem Independent.symm (h : u.Independent v) : v.Independent u := by
  obtain ⟨havoid, htgt⟩ := h
  refine ⟨fun x hx => ⟨fun hs => ?_, htgt x hx⟩, fun x hx => (havoid x hx).2⟩
  exact (havoid x hs).1 hx

/-- **Behind a unifier that avoids it**, a unifier is added as it is. -/
theorem andThen_eq_union (h : u.Avoids v) : u.andThen v = u.union v := by
  ext ⟨s, t⟩
  rw [mem_andThen_iff, mem_union]
  constructor
  · rintro (⟨y, hsy, hyt⟩ | ⟨hst, -⟩ | ⟨hst, -⟩)
    · have hy : y ∉ u.targets := (h y (mem_sources.mpr ⟨t, hyt⟩)).2
      exact absurd (mem_targets.mpr ⟨s, hsy⟩) hy
    · exact Or.inl hst
    · exact Or.inr hst
  · rintro (hst | hst)
    · have ht : t ∉ v.sources := fun hts => (h t hts).2 (mem_targets.mpr ⟨s, hst⟩)
      exact Or.inr (Or.inl ⟨hst, ht⟩)
    · exact Or.inr (Or.inr ⟨hst, h s (mem_sources.mpr ⟨t, hst⟩)⟩)

theorem Independent.andThen_comm (h : u.Independent v) : u.andThen v = v.andThen u :=
  calc u.andThen v = u.union v := andThen_eq_union h.1
    _ = v.union u := union_comm u v
    _ = v.andThen u := (andThen_eq_union h.symm.1).symm

/-- Where the second unifier produces a source of the first, the order matters. -/
example :
    let u : Unifier := .ofList [⟨⟨"x"⟩, ⟨"y"⟩⟩]
    let v : Unifier := .ofList [⟨⟨"z"⟩, ⟨"x"⟩⟩]
    u.Avoids v ∧ u.andThen v ≠ v.andThen u := by
  unfold Avoids
  decide +kernel

end Unifier

/-! ### Alternatives -/

namespace Alternatives

variable {a b : Alternatives}

theorem product_comm (h : ∀ u ∈ a, ∀ v ∈ b, u.andThen v = v.andThen u) :
    a.product b = b.product a := by
  ext w
  simp only [mem_product]
  constructor
  · rintro ⟨u, hu, v, hv, rfl⟩
    exact ⟨v, hv, u, hu, (h u hu v hv).symm⟩
  · rintro ⟨v, hv, u, hu, rfl⟩
    exact ⟨u, hu, v, hv, h u hu v hv⟩

theorem andThen_comm (h : ∀ u ∈ a, ∀ v ∈ b, u.andThen v = v.andThen u) (s : Settings) :
    a.andThen b s = b.andThen a s := by
  rw [andThen, andThen, pairCount_comm, product_comm h]

/-- **Combining independent alternatives.** If no source of a unifier is a variable of the one before
it, their composition is their union, and its rows are those of the first with the arrows of the
second entered. If moreover no source of the first is a target of the second, they can be composed in
either order. So if this holds of each alternative of one set and each of another, the sets can be
combined in either order with the same outcome, under all settings: the same alternatives, or the
same refusal. -/
theorem combination_of_independent (u v : Unifier) (a b : Alternatives) (s : Settings) :
    ((∀ x ∈ v.sources, x ∉ u.sources ∧ x ∉ u.targets) →
      (u.andThen v = u.union v ∧
        Table.andThen u.rows v.rows = Table.enterAll u.rows (Table.arrows v.rows)) ∧
      ((∀ x ∈ u.sources, x ∉ v.targets) →
        u.andThen v = v.andThen u ∧ Table.andThen u.rows v.rows = Table.andThen v.rows u.rows)) ∧
    ((∀ u' ∈ a, ∀ v' ∈ b,
        (∀ x ∈ v'.sources, x ∉ u'.sources ∧ x ∉ u'.targets) ∧ ∀ x ∈ u'.sources, x ∉ v'.targets) →
      a.andThen b s = b.andThen a s) := by
  refine ⟨fun havoid => ⟨?_, fun htgt => ?_⟩, fun hall => ?_⟩
  · have hunion : u.andThen v = u.union v := Unifier.andThen_eq_union havoid
    refine ⟨hunion, ?_⟩
    rw [← Unifier.rows_andThen, ← Unifier.rows_union, hunion]
  · have hcomm : u.andThen v = v.andThen u := Unifier.Independent.andThen_comm ⟨havoid, htgt⟩
    refine ⟨hcomm, ?_⟩
    rw [← Unifier.rows_andThen, ← Unifier.rows_andThen, hcomm]
  · exact andThen_comm (fun u' hu v' hv => Unifier.Independent.andThen_comm (hall u' hu v' hv)) s

/-- `x` goes to `k`, alone or with `y`; `p` goes to `k` as well, or to `q`. A limit of four allows
the four pairs in either order, and a limit of three refuses them in either order. -/
theorem combination_of_independent_meeting :
    let x : Var := ⟨"x"⟩
    let y : Var := ⟨"y"⟩
    let p : Var := ⟨"p"⟩
    let q : Var := ⟨"q"⟩
    let k : Var := ⟨"k"⟩
    let u : Unifier := .ofList [⟨x, k⟩, ⟨y, k⟩]
    let v : Unifier := .ofList [⟨p, k⟩]
    let w : Unifier := .ofList [⟨p, k⟩, ⟨x, k⟩, ⟨y, k⟩]
    let a : Alternatives := .ofList [.ofList [⟨x, k⟩], u]
    let b : Alternatives := .ofList [v, .ofList [⟨p, q⟩]]
    let m : Alternatives :=
      .ofList [.ofList [⟨p, k⟩, ⟨x, k⟩], .ofList [⟨p, q⟩, ⟨x, k⟩], w,
        .ofList [⟨p, q⟩, ⟨x, k⟩, ⟨y, k⟩]]
    ((∀ z ∈ v.sources, z ∉ u.sources ∧ z ∉ u.targets) ∧ (∀ z ∈ u.sources, z ∉ v.targets) ∧
      u.union v = w ∧ u.andThen v = w ∧ v.andThen u = w) ∧
    (∀ u' ∈ a, ∀ v' ∈ b,
      (∀ z ∈ v'.sources, z ∉ u'.sources ∧ z ∉ u'.targets) ∧ ∀ z ∈ u'.sources, z ∉ v'.targets) ∧
    (a.andThen b ⟨4⟩ = .ok m ∧ b.andThen a ⟨4⟩ = .ok m) ∧
    a.andThen b ⟨3⟩ = .error (.overLimit 3 4) ∧ b.andThen a ⟨3⟩ = .error (.overLimit 3 4) := by
  intro x y p q k u v w a b m
  have havoid : ∀ z ∈ v.sources, z ∉ u.sources ∧ z ∉ u.targets := by decide +kernel
  have htgt : ∀ z ∈ u.sources, z ∉ v.targets := by decide +kernel
  have hall : ∀ u' ∈ a, ∀ v' ∈ b, (∀ z ∈ v'.sources, z ∉ u'.sources ∧ z ∉ u'.targets) ∧
      ∀ z ∈ u'.sources, z ∉ v'.targets := by
    decide +kernel
  obtain ⟨hpair, hallowed⟩ := combination_of_independent u v a b ⟨4⟩
  obtain ⟨-, hrefused⟩ := combination_of_independent u v a b ⟨3⟩
  have hunion : u.union v = w := by decide +kernel
  have huv : u.andThen v = w := (hpair havoid).1.1.trans hunion
  have hvu : v.andThen u = w := ((hpair havoid).2 htgt).1.symm.trans huv
  have hproduct : a.product b = m := by decide +kernel
  have hok : a.andThen b ⟨4⟩ = .ok m := by
    rw [andThen_of_allows (by decide +kernel), hproduct]
  have herror : a.andThen b ⟨3⟩ = .error (.overLimit 3 4) :=
    andThen_eq_error_iff.mpr ⟨by decide +kernel, by decide +kernel⟩
  exact ⟨⟨havoid, htgt, hunion, huv, hvu⟩, hall, ⟨hok, (hallowed hall).symm.trans hok⟩, herror,
    (hrefused hall).symm.trans herror⟩

end Alternatives

end VarRenaming
