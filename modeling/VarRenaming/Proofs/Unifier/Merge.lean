import VarRenaming.Proofs.Answer.Merge
import VarRenaming.Proofs.Unifier.Renaming

/-! # Renaming and merging

Two answers can be merged and then renamed, or renamed each and then merged (`rename?_merge?`). A
conflict shows at different moments, but in both ways, because every variable has an image: a
renaming that dropped a variable could hide a conflict over it. -/

namespace VarRenaming.Unifier

open Answer

variable {u v : Unifier} {a b r : Answer}

/-! ### Renamed sub-answers -/

theorem exists_rename?_subset
    (h : ∀ v c w, a.get? v = some c → w ∈ u.images v → r.get? w = some c) :
    ∃ x, u.rename? a = some x ∧ x ⊆ r := by
  obtain ⟨x, hx⟩ : ∃ x, u.rename? a = some x := by
    refine exists_rename? fun v v' c c' w hv hv' hw hw' => ?_
    have h₁ := h v c w hv hw
    have h₂ := h v' c' w hv' hw'
    exact Option.some.inj (h₁.symm.trans h₂)
  refine ⟨x, hx, fun w c hw => ?_⟩
  obtain ⟨v, hv, hvw⟩ := (rename?_eq_some_iff.mp hx w c).mp hw
  exact h v c w hv hvw

theorem rename?_subset (hab : a ⊆ b) (hb : u.rename? b = some r) :
    ∃ x, u.rename? a = some x ∧ x ⊆ r := by
  refine exists_rename?_subset fun v c w hv hw => ?_
  exact (rename?_eq_some_iff.mp hb w c).mpr ⟨v, hab v c hv, hw⟩

/-! ### Both ways -/

theorem merge?_bind_rename?_eq_some_iff :
    (a.merge? b).bind u.rename? = some r ↔
      ∀ w c, r.get? w = some c ↔
        ∃ v, (a.get? v = some c ∨ b.get? v = some c) ∧ w ∈ u.images v := by
  simp only [Option.bind_eq_some_iff, merge?_eq_some_iff, rename?_eq_some_iff]
  constructor
  · rintro ⟨m, hm, hr⟩ w c
    rw [hr]
    simp only [hm]
  · intro h
    -- a conflict over a variable would be one over each of its images
    obtain ⟨m, hm⟩ : ∃ m, a.merge? b = some m := by
      refine exists_merge? fun v c d hc hd => ?_
      obtain ⟨w, hw⟩ := exists_mem_images u v
      have h₁ := (h w c).mpr ⟨v, Or.inl hc, hw⟩
      have h₂ := (h w d).mpr ⟨v, Or.inr hd, hw⟩
      exact Option.some.inj (h₁.symm.trans h₂)
    have hmv := merge?_eq_some_iff.mp hm
    refine ⟨m, hmv, fun w c => ?_⟩
    rw [h]
    simp only [hmv]

theorem rename?_bind_merge?_eq_some_iff :
    ((u.rename? a).bind fun x => (v.rename? b).bind x.merge?) = some r ↔
      ∀ w c, r.get? w = some c ↔
        (∃ x, a.get? x = some c ∧ w ∈ u.images x) ∨ ∃ x, b.get? x = some c ∧ w ∈ v.images x := by
  simp only [Option.bind_eq_some_iff]
  constructor
  · rintro ⟨x, hx, y, hy, hr⟩ w c
    rw [merge?_eq_some_iff.mp hr, rename?_eq_some_iff.mp hx, rename?_eq_some_iff.mp hy]
  · intro h
    obtain ⟨x, hx, -⟩ : ∃ x, u.rename? a = some x ∧ x ⊆ r :=
      exists_rename?_subset fun z c w hz hw => (h w c).mpr (Or.inl ⟨z, hz, hw⟩)
    obtain ⟨y, hy, -⟩ : ∃ y, v.rename? b = some y ∧ y ⊆ r :=
      exists_rename?_subset fun z c w hz hw => (h w c).mpr (Or.inr ⟨z, hz, hw⟩)
    refine ⟨x, hx, y, hy, merge?_eq_some_iff.mpr fun w c => ?_⟩
    rw [h, rename?_eq_some_iff.mp hx, rename?_eq_some_iff.mp hy]

theorem rename?_merge? (u : Unifier) (a b : Answer) :
    (a.merge? b).bind u.rename? = (u.rename? a).bind fun x => (u.rename? b).bind x.merge? := by
  ext1 r
  rw [merge?_bind_rename?_eq_some_iff, rename?_bind_merge?_eq_some_iff]
  simp only [or_and_right, exists_or]

/-! ### The law of merging -/

/-- **Renaming respects merging.** Answers can be merged before or after they are renamed, with the
same result or the same lack of one. So a conflict between two answers is still one between the
renamed answers. And with an answer its sub-answers can be renamed, to sub-answers of the result. -/
theorem rename?_respects_merge? (u : Unifier) (a b : Answer) :
    (a.merge? b).bind u.rename? = ((u.rename? a).bind fun x => (u.rename? b).bind x.merge?) ∧
    (a.merge? b = none → ∀ x y, u.rename? a = some x → u.rename? b = some y → x.merge? y = none) ∧
    (a ⊆ b → ∀ r, u.rename? b = some r → ∃ x, u.rename? a = some x ∧ x ⊆ r) := by
  refine ⟨rename?_merge? u a b, ?_, ?_⟩
  · intro hnone x y hx hy
    have h := rename?_merge? u a b
    rw [hnone, hx, hy] at h
    exact h.symm
  · intro hab r hr
    exact rename?_subset hab hr

/-- A unifier that sends `x` to two variables and `y` to one of them: `x = 1` and `y = 1` merge
before and behind it, `x = 1` and `x = 2` conflict before and behind it, and `x = 1` is a sub-answer
of `x = 1, y = 1` before and behind it. -/
theorem rename?_respects_merge?_fan :
    let x : Var := ⟨"x"⟩
    let y : Var := ⟨"y"⟩
    let p : Var := ⟨"p"⟩
    let q : Var := ⟨"q"⟩
    let one : Concept := ⟨1, by decide⟩
    let two : Concept := ⟨2, by decide⟩
    let u : Unifier := .ofList [⟨x, p⟩, ⟨x, q⟩, ⟨y, p⟩]
    let a : Answer := .ofBindings [(x, one)]
    let b : Answer := .ofBindings [(x, two)]
    let d : Answer := .ofBindings [(y, one)]
    let ad : Answer := .ofBindings [(x, one), (y, one)]
    let a' : Answer := .ofBindings [(p, one), (q, one)]
    let b' : Answer := .ofBindings [(p, two), (q, two)]
    let d' : Answer := .ofBindings [(p, one)]
    (u.rename? a = some a' ∧ u.rename? b = some b' ∧ u.rename? d = some d') ∧
    (a.merge? d = some ad ∧ u.rename? ad = some a' ∧ a'.merge? d' = some a') ∧
    (a.merge? b = none ∧ a'.merge? b' = none) ∧
    (a ⊆ ad ∧ ∃ r, u.rename? a = some r ∧ r ⊆ a') := by
  intro x y p q one two u a b d ad a' b' d'
  have ha : u.rename? a = some a' := by decide +kernel
  have hb : u.rename? b = some b' := by decide +kernel
  have hd : u.rename? d = some d' := by decide +kernel
  have had : a.merge? d = some ad := by decide +kernel
  have hada : u.rename? ad = some a' := by decide +kernel
  have hab : a.merge? b = none := by decide +kernel
  have hsub : a ⊆ ad := by decide +kernel
  have hmerged : a'.merge? d' = some a' := by
    have hlaw := (rename?_respects_merge? u a d).1
    rw [had, ha, hd] at hlaw
    exact hlaw.symm.trans hada
  exact ⟨⟨ha, hb, hd⟩, ⟨had, hada, hmerged⟩,
    ⟨hab, (rename?_respects_merge? u a b).2.1 hab a' b' ha hb⟩, hsub,
    (rename?_respects_merge? u a ad).2.2 hsub a' hada⟩

end VarRenaming.Unifier
