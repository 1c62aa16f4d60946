import VarRenaming.Proofs.Unifier.Merge

/-! # Two renamings at once

Renaming with a union is renaming with both parts and merging (`rename?_union`), if each bound
variable is renamed by both or by neither. A variable that only one of them renames would be kept by
the other beside its new names. -/

namespace VarRenaming.Unifier

variable {u v : Unifier} {a : Answer}

/-! ### Images -/

theorem mem_sources_union {x : Var} : x ∈ (u.union v).sources ↔ x ∈ u.sources ∨ x ∈ v.sources := by
  simp only [mem_sources, mem_union, exists_or]

theorem mem_images_union {x w : Var} (h : x ∈ u.sources ↔ x ∈ v.sources) :
    w ∈ (u.union v).images x ↔ w ∈ u.images x ∨ w ∈ v.images x := by
  by_cases hu : x ∈ u.sources
  · have huv : x ∈ (u.union v).sources := mem_sources_union.mpr (Or.inl hu)
    rw [mem_images_of_mem_sources huv, mem_images_of_mem_sources hu,
      mem_images_of_mem_sources (h.mp hu), mem_union]
  · have hv : x ∉ v.sources := fun hs => hu (h.mpr hs)
    have huv : x ∉ (u.union v).sources := fun hs => (mem_sources_union.mp hs).elim hu hv
    rw [mem_images_of_not_mem_sources huv, mem_images_of_not_mem_sources hu,
      mem_images_of_not_mem_sources hv, or_self_iff]

/-! ### Answers -/

/-- **Renaming with a union** is renaming with both parts and merging, if each bound variable is
renamed by both or by neither. -/
theorem rename?_union (h : ∀ x c, a.get? x = some c → (x ∈ u.sources ↔ x ∈ v.sources)) :
    (u.union v).rename? a = (u.rename? a).bind fun q => (v.rename? a).bind q.merge? := by
  have himages : ∀ w c, (∃ x, a.get? x = some c ∧ w ∈ (u.union v).images x) ↔
      (∃ x, a.get? x = some c ∧ w ∈ u.images x) ∨ ∃ x, a.get? x = some c ∧ w ∈ v.images x := by
    intro w c
    rw [← exists_or]
    refine exists_congr fun x => ?_
    rw [← and_or_left]
    exact and_congr_right fun hx => mem_images_union (h x c hx)
  ext1 r
  rw [rename?_eq_some_iff, rename?_bind_merge?_eq_some_iff]
  simp only [himages]

theorem rename?_union_eq_none_iff
    (h : ∀ x c, a.get? x = some c → (x ∈ u.sources ↔ x ∈ v.sources)) :
    (u.union v).rename? a = none ↔
      u.rename? a = none ∨ v.rename? a = none ∨
        ∃ q r, u.rename? a = some q ∧ v.rename? a = some r ∧ q.merge? r = none := by
  rw [rename?_union h]
  cases u.rename? a with
  | none => simp only [Option.bind_none, true_or]
  | some q =>
    cases v.rename? a with
    | none => simp only [Option.bind_some, Option.bind_none, true_or, or_true]
    | some r =>
      simp only [Option.bind_some, reduceCtorEq, false_or, Option.some.injEq, exists_and_left,
        exists_eq_left']

/-- **A union imposes both renamings at once.** Let each variable of an answer be a source of both
unifiers or of neither. Then their union renames the answer to what the two results of renaming it
merge to, with the same lack of a result: there is none exactly when one of the unifiers has none, or
both have one and these contradict each other. -/
theorem union_renames_at_once (u v : Unifier) (a : Answer)
    (ha : ∀ x ∈ a.vars, x ∈ u.sources ↔ x ∈ v.sources) :
    (u.union v).rename? a = ((u.rename? a).bind fun q => (v.rename? a).bind q.merge?) ∧
    ((u.union v).rename? a = none ↔
      u.rename? a = none ∨ v.rename? a = none ∨
        ∃ q r, u.rename? a = some q ∧ v.rename? a = some r ∧ q.merge? r = none) := by
  have hget : ∀ x c, a.get? x = some c → (x ∈ u.sources ↔ x ∈ v.sources) := fun x c hx =>
    ha x (Answer.mem_vars.mpr ⟨c, hx⟩)
  exact ⟨rename?_union hget, rename?_union_eq_none_iff hget⟩

/-- `x` and `y` go to `p` and `q`, and at once to `q` and `p`. Bound alike they can be renamed, and
`z` is kept; bound to different concepts each renaming succeeds by itself, and both at once do not.
-/
theorem union_renames_at_once_crossed :
    let x : Var := ⟨"x"⟩
    let y : Var := ⟨"y"⟩
    let z : Var := ⟨"z"⟩
    let p : Var := ⟨"p"⟩
    let q : Var := ⟨"q"⟩
    let one : Concept := ⟨1, by decide⟩
    let two : Concept := ⟨2, by decide⟩
    let u : Unifier := .ofList [⟨x, p⟩, ⟨y, q⟩]
    let v : Unifier := .ofList [⟨x, q⟩, ⟨y, p⟩]
    let a : Answer := .ofBindings [(x, one), (y, one), (z, two)]
    let b : Answer := .ofBindings [(x, one), (y, two)]
    ((∀ w ∈ a.vars, w ∈ u.sources ↔ w ∈ v.sources) ∧
      (u.union v).rename? a = some (.ofBindings [(p, one), (q, one), (z, two)])) ∧
    (∀ w ∈ b.vars, w ∈ u.sources ↔ w ∈ v.sources) ∧
      u.rename? b ≠ none ∧ v.rename? b ≠ none ∧ (u.union v).rename? b = none := by
  intro x y z p q one two u v a b
  have ha : ∀ w ∈ a.vars, w ∈ u.sources ↔ w ∈ v.sources := by decide +kernel
  have hb : ∀ w ∈ b.vars, w ∈ u.sources ↔ w ∈ v.sources := by decide +kernel
  have hbu : u.rename? b = some (.ofBindings [(p, one), (q, two)]) := by decide +kernel
  have hbv : v.rename? b = some (.ofBindings [(q, one), (p, two)]) := by decide +kernel
  refine ⟨⟨ha, ?_⟩, hb, by rw [hbu]; exact Option.some_ne_none _,
    by rw [hbv]; exact Option.some_ne_none _, ?_⟩
  · rw [(union_renames_at_once u v a ha).1]
    decide +kernel
  · refine (union_renames_at_once u v b hb).2.mpr (Or.inr (Or.inr ⟨_, _, hbu, hbv, ?_⟩))
    decide +kernel

/-- Renamed by one unifier alone, `x` is gone; merged with what the other keeps, it is not. -/
example :
    let u : Unifier := .ofList [⟨⟨"x"⟩, ⟨"p"⟩⟩]
    let a : Answer := .ofBindings [(⟨"x"⟩, ⟨1, by decide⟩)]
    (u.union .identity).rename? a ≠
      (u.rename? a).bind fun q => (Unifier.identity.rename? a).bind q.merge? := by
  decide +kernel

end VarRenaming.Unifier
