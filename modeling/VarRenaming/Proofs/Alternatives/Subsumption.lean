import VarRenaming.Proofs.Alternatives.Reversal
import VarRenaming.Proofs.Unifier.Union

/-! # Subsumption

A unifier is subsumed by alternatives one of which includes it. Alternatives subsume all of others
exactly when they subsume whatever the others do (`subsumesAll_iff`), so subsumption is a preorder;
and it is the same between the inverses (`subsumes_inverse`, `subsumesAll_inverse`). -/

namespace VarRenaming

namespace Unifier

variable {u v : Unifier}

theorem inverse_subset_inverse : u.inverse ⊆ v.inverse ↔ u ⊆ v := by
  have hmono : ∀ {u v : Unifier}, u ⊆ v → u.inverse ⊆ v.inverse := by
    intro u v h e he
    exact mem_inverse.mpr (h _ (mem_inverse.mp he))
  refine ⟨fun h => ?_, hmono⟩
  rw [← inverse_inverse u, ← inverse_inverse v]
  exact hmono h

end Unifier

namespace Alternatives

variable {a b c : Alternatives} {u v : Unifier}

/-! ### Subsumed unifiers -/

theorem Subsumes.mono (h : a.Subsumes u) (hvu : v ⊆ u) : a.Subsumes v := by
  obtain ⟨w, hw, huw⟩ := h
  exact ⟨w, hw, Unifier.subset_trans hvu huw⟩

theorem subsumes_of_mem (h : u ∈ a) : a.Subsumes u := ⟨u, h, u.subset_refl⟩

theorem subsumes_iff_rows :
    a.Subsumes u ↔ ∃ w ∈ a, ∀ r ∈ u.rows, ∃ r' ∈ w.rows,
      r'.source = r.source ∧ ∀ t ∈ r.targets, t ∈ r'.targets :=
  exists_congr fun _ => and_congr_right fun _ => Unifier.subset_iff_rows

theorem subsumes_inverse : a.inverse.Subsumes u.inverse ↔ a.Subsumes u := by
  constructor
  · rintro ⟨_, hmem, h⟩
    obtain ⟨w, hw, rfl⟩ := mem_inverse.mp hmem
    exact ⟨w, hw, Unifier.inverse_subset_inverse.mp h⟩
  · rintro ⟨w, hw, h⟩
    exact ⟨w.inverse, mem_inverse.mpr ⟨w, hw, rfl⟩, Unifier.inverse_subset_inverse.mpr h⟩

/-! ### Subsumed alternatives -/

/-- **Subsuming all alternatives** is subsuming whatever they subsume. -/
theorem subsumesAll_iff : a.SubsumesAll b ↔ ∀ u, b.Subsumes u → a.Subsumes u := by
  constructor
  · rintro h u ⟨w, hw, huw⟩
    exact (h w hw).mono huw
  · exact fun h w hw => h w (subsumes_of_mem hw)

theorem SubsumesAll.refl (a : Alternatives) : a.SubsumesAll a := fun _ => subsumes_of_mem

theorem SubsumesAll.trans (hab : a.SubsumesAll b) (hbc : b.SubsumesAll c) : a.SubsumesAll c :=
  fun w hw => subsumesAll_iff.mp hab w (hbc w hw)

theorem subsumesAll_inverse : a.inverse.SubsumesAll b.inverse ↔ a.SubsumesAll b := by
  constructor
  · exact fun h w hw => subsumes_inverse.mp (h _ (mem_inverse.mpr ⟨w, hw, rfl⟩))
  · intro h _ hmem
    obtain ⟨w, hw, rfl⟩ := mem_inverse.mp hmem
    exact subsumes_inverse.mpr (h w hw)

/-- **The laws of subsumption.** A unifier is subsumed when one of the alternatives has all its
arrows, or row by row all its targets; what it includes is then subsumed too. Alternatives subsume
all of others exactly when they subsume every unifier that the others do; so they subsume all of
their own, and what they subsume through others. The inverses subsume the inverse of a unifier, and
all inverses of other alternatives, exactly when the same holds without the inverses. -/
theorem subsumption_laws (a b c : Alternatives) (u v : Unifier) :
    (a.Subsumes u ↔ ∃ w ∈ a, ∀ e ∈ u, e ∈ w) ∧
    (a.Subsumes u ↔ ∃ w ∈ a, ∀ r ∈ u.rows, ∃ r' ∈ w.rows,
      r'.source = r.source ∧ ∀ t ∈ r.targets, t ∈ r'.targets) ∧
    (a.Subsumes u → v ⊆ u → a.Subsumes v) ∧
    (a.SubsumesAll b ↔ ∀ w, b.Subsumes w → a.Subsumes w) ∧
    a.SubsumesAll a ∧ (a.SubsumesAll b → b.SubsumesAll c → a.SubsumesAll c) ∧
    (a.inverse.Subsumes u.inverse ↔ a.Subsumes u) ∧
    (a.inverse.SubsumesAll b.inverse ↔ a.SubsumesAll b) :=
  ⟨Iff.rfl, subsumes_iff_rows, Subsumes.mono, subsumesAll_iff, SubsumesAll.refl a,
    SubsumesAll.trans, subsumes_inverse, subsumesAll_inverse⟩

/-- Two crossed alternatives subsume the parts of each, these subsume the identity, and so do the
inverses; a unifier with a part of each is not subsumed. -/
theorem subsumption_laws_crossed :
    let x : Var := ⟨"x"⟩
    let y : Var := ⟨"y"⟩
    let p : Var := ⟨"p"⟩
    let q : Var := ⟨"q"⟩
    let a : Alternatives := .ofList [.ofList [⟨x, p⟩, ⟨y, q⟩], .ofList [⟨x, q⟩, ⟨y, p⟩]]
    let b : Alternatives := .ofList [.ofList [⟨x, p⟩], .ofList [⟨y, p⟩]]
    let u : Unifier := .ofList [⟨x, p⟩, ⟨y, q⟩]
    let v : Unifier := .ofList [⟨y, q⟩]
    let w : Unifier := .ofList [⟨x, p⟩, ⟨y, p⟩]
    (a.Subsumes u ∧ v ⊆ u ∧ a.Subsumes v) ∧
      (a.SubsumesAll b ∧ b.SubsumesAll .trivial ∧ a.SubsumesAll .trivial) ∧
      a.inverse.Subsumes u.inverse ∧ a.inverse.SubsumesAll b.inverse ∧
      ¬ a.Subsumes w ∧ ¬ a.inverse.Subsumes w.inverse := by
  intro x y p q a b u v w
  have hu : a.Subsumes u := by decide +kernel
  have hvu : v ⊆ u := by decide +kernel
  have hab : a.SubsumesAll b := by decide +kernel
  have hb : b.SubsumesAll .trivial := by decide +kernel
  have hw : ¬ a.Subsumes w := by decide +kernel
  obtain ⟨-, -, hmono, -, -, htrans, hinv, hinvAll⟩ := subsumption_laws a b .trivial u v
  obtain ⟨-, -, -, -, -, -, hinvw, -⟩ := subsumption_laws a b .trivial w v
  exact ⟨⟨hu, hvu, hmono hu hvu⟩, ⟨hab, hb, htrans hab hb⟩, hinv.mpr hu, hinvAll.mpr hab, hw,
    fun h => hw (hinvw.mp h)⟩

end Alternatives

end VarRenaming
