import VarRenaming.Proofs.Answer.Merge
import VarRenaming.Proofs.Unifier.Composition

/-! # Renaming there and back

A unifier and its inverse, one after the other, take a variable to itself and to the variables that
share a target with it (`mem_images_inverse`), unless the unifier produces the variable without
renaming it: the inverse mistakes such a variable for an image. -/

namespace VarRenaming.Unifier

variable {u : Unifier} {a b : Answer}

/-! ### Images there and back -/

theorem mem_sources_inverse {v : Var} : v ∈ u.inverse.sources ↔ v ∈ u.targets := by
  simp only [mem_sources, mem_targets, mem_inverse, Arrow.flip]

theorem mem_images_inverse {x y w : Var} (hx : x ∈ u.targets → x ∈ u.sources)
    (hy : y ∈ u.images x) :
    w ∈ u.inverse.images y ↔ w = x ∨ ⟨x, y⟩ ∈ u ∧ ⟨w, y⟩ ∈ u := by
  by_cases hs : x ∈ u.sources
  · have hxy : ⟨x, y⟩ ∈ u := (mem_images_of_mem_sources hs).mp hy
    have hyt : y ∈ u.inverse.sources := mem_sources_inverse.mpr (mem_targets.mpr ⟨x, hxy⟩)
    rw [mem_images_of_mem_sources hyt, mem_inverse]
    constructor
    · exact fun hwy => Or.inr ⟨hxy, hwy⟩
    · rintro (rfl | ⟨-, hwy⟩)
      · exact hxy
      · exact hwy
  · obtain rfl : y = x := (mem_images_of_not_mem_sources hs).mp hy
    have hyt : y ∉ u.inverse.sources := fun h => hs (hx (mem_sources_inverse.mp h))
    rw [mem_images_of_not_mem_sources hyt]
    constructor
    · exact Or.inl
    · rintro (rfl | ⟨hyy, -⟩)
      · rfl
      · exact absurd (mem_sources.mpr ⟨_, hyy⟩) hs

/-- No two sources share a target. -/
def Injective (u : Unifier) : Prop := ∀ s s' t, ⟨s, t⟩ ∈ u → ⟨s', t⟩ ∈ u → s = s'

instance (u : Unifier) : Decidable u.Injective :=
  decidable_of_iff (∀ d ∈ u.toList, ∀ e ∈ u.toList, d.target = e.target → d.source = e.source) <| by
    simp only [mem_toList]
    constructor
    · exact fun h s s' t hs hs' => h ⟨s, t⟩ hs ⟨s', t⟩ hs' rfl
    · rintro h ⟨s, t⟩ hs ⟨s', _⟩ hs' rfl
      exact h s s' t hs hs'

theorem Injective.exists_mem_images_iff (hu : u.Injective) {x w : Var}
    (hx : x ∈ u.targets → x ∈ u.sources) :
    (∃ y ∈ u.images x, w ∈ u.inverse.images y) ↔ w = x := by
  constructor
  · rintro ⟨y, hy, hw⟩
    rcases (mem_images_inverse hx hy).mp hw with rfl | ⟨hxy, hwy⟩
    · rfl
    · exact hu w x y hwy hxy
  · rintro rfl
    obtain ⟨y, hy⟩ := exists_mem_images u w
    exact ⟨y, hy, (mem_images_inverse hx hy).mpr (Or.inl rfl)⟩

/-! ### Answers there and back -/

theorem subset_of_rename?_inverse
    (ha : ∀ x c, a.get? x = some c → x ∈ u.targets → x ∈ u.sources)
    (h : (u.rename? a).bind u.inverse.rename? = some b) : a ⊆ b := by
  intro x c hc
  obtain ⟨y, hy⟩ := exists_mem_images u x
  have hback : x ∈ u.inverse.images y := (mem_images_inverse (ha x c hc) hy).mpr (Or.inl rfl)
  exact (rename?_bind_rename?_eq_some_iff.mp h x c).mpr ⟨x, hc, y, hy, hback⟩

/-- **There and back**: where no two sources share a target, the inverse undoes the renaming. -/
theorem Injective.rename?_inverse (hu : u.Injective)
    (ha : ∀ x c, a.get? x = some c → x ∈ u.targets → x ∈ u.sources) :
    (u.rename? a).bind u.inverse.rename? = some a := by
  rw [rename?_bind_rename?_eq_some_iff]
  intro w c
  constructor
  · exact fun hw => ⟨w, hw, (hu.exists_mem_images_iff (ha w c hw)).mpr rfl⟩
  · rintro ⟨x, hx, hxw⟩
    obtain rfl := (hu.exists_mem_images_iff (ha x c hx)).mp hxw
    exact hx

/-- **What the inverse restores.** Let an answer bind no variable that the unifier produces without
renaming it. If the answer can be renamed and the result renamed back, then what comes back binds
all that the answer binds; and if no two sources share a target, both can be done, and the answer
itself comes back. -/
theorem inverse_restores (u : Unifier) (a : Answer)
    (ha : ∀ x ∈ a.vars, x ∈ u.targets → x ∈ u.sources) :
    (∀ r b, u.rename? a = some r → u.inverse.rename? r = some b → a ⊆ b) ∧
    (u.Injective → ∃ r, u.rename? a = some r ∧ u.inverse.rename? r = some a) := by
  have hget : ∀ x c, a.get? x = some c → x ∈ u.targets → x ∈ u.sources := fun x c hc =>
    ha x (Answer.mem_vars.mpr ⟨c, hc⟩)
  constructor
  · intro r b hr hb
    refine subset_of_rename?_inverse hget ?_
    rw [hr]
    exact hb
  · intro hu
    exact Option.bind_eq_some_iff.mp (hu.rename?_inverse hget)

/-- `x` and `y` are exchanged, and `x` fans out to `p` as well; `z` is not renamed. Beside it a
unifier that sends `x` and `y` to `p`, under which `x = 1` comes back as `x = 1, y = 1`. -/
theorem inverse_restores_swap :
    let x : Var := ⟨"x"⟩
    let y : Var := ⟨"y"⟩
    let z : Var := ⟨"z"⟩
    let p : Var := ⟨"p"⟩
    let one : Concept := ⟨1, by decide⟩
    let two : Concept := ⟨2, by decide⟩
    let u : Unifier := .ofList [⟨x, y⟩, ⟨x, p⟩, ⟨y, x⟩]
    let v : Unifier := .ofList [⟨x, p⟩, ⟨y, p⟩]
    let a : Answer := .ofBindings [(x, one), (y, two), (z, one)]
    let b : Answer := .ofBindings [(x, one)]
    let b' : Answer := .ofBindings [(x, one), (y, one)]
    ((∀ w ∈ a.vars, w ∈ u.targets → w ∈ u.sources) ∧
      u.Injective ∧ ∃ r, u.rename? a = some r ∧ u.inverse.rename? r = some a) ∧
    (∀ w ∈ b.vars, w ∈ v.targets → w ∈ v.sources) ∧
      ∃ r, v.rename? b = some r ∧ v.inverse.rename? r = some b' ∧ b ⊆ b' := by
  intro x y z p one two u v a b b'
  have ha : ∀ w ∈ a.vars, w ∈ u.targets → w ∈ u.sources := by decide +kernel
  have hu : u.Injective := by decide +kernel
  have hb : ∀ w ∈ b.vars, w ∈ v.targets → w ∈ v.sources := by decide +kernel
  have hr : v.rename? b = some (.ofBindings [(p, one)]) := by decide +kernel
  have hr' : v.inverse.rename? (.ofBindings [(p, one)]) = some b' := by decide +kernel
  exact ⟨⟨ha, hu, (inverse_restores u a ha).2 hu⟩, hb, _, hr, hr',
    (inverse_restores v b hb).1 _ _ hr hr'⟩

end VarRenaming.Unifier
