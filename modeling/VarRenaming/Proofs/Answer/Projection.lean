import VarRenaming.Proofs.Answer.Agreement

/-! # Projections

A projection is what is left of an answer when only the listed variables are kept (`get?_project`),
and also what comes together when the listed variables are looked up one after the other
(`project_eq_ofBindings`, `ofBindings?_lookUpAll`). Read in the second way, its laws are those of
collecting bindings. -/

namespace VarRenaming.Answer

variable {a b m : Answer} {vs ws : List Var}

/-! ### Looking up one variable after the other -/

/-- The bindings of the listed variables, in the order of the list and as often as it has them. -/
def lookUpAll (a : Answer) (vs : List Var) : List (Var × Concept) :=
  vs.filterMap fun v => (a.get? v).map (v, ·)

theorem mem_lookUpAll {v : Var} {c : Concept} :
    (v, c) ∈ a.lookUpAll vs ↔ v ∈ vs ∧ a.get? v = some c := by
  simp only [lookUpAll, List.mem_filterMap, Option.map_eq_some_iff, Prod.mk.injEq]
  constructor
  · rintro ⟨w, hw, d, hd, rfl, rfl⟩
    exact ⟨hw, hd⟩
  · rintro ⟨hv, hc⟩
    exact ⟨v, hv, c, hc, rfl, rfl⟩

theorem lookUpAll_append (a : Answer) (vs ws : List Var) :
    a.lookUpAll (vs ++ ws) = a.lookUpAll vs ++ a.lookUpAll ws :=
  List.filterMap_append

/-! ### Projections -/

theorem get?_project_eq_some_iff {v : Var} {c : Concept} :
    (a.project vs).get? v = some c ↔ v ∈ vs ∧ a.get? v = some c := by
  rw [get?_project, Option.ite_none_right_eq_some]

/-- **Looking up the listed variables** never gives one of them two concepts. -/
theorem ofBindings?_lookUpAll (a : Answer) (vs : List Var) :
    ofBindings? (a.lookUpAll vs) = some (a.project vs) :=
  ofBindings?_eq_some_iff.mpr fun _ _ => get?_project_eq_some_iff.trans mem_lookUpAll.symm

theorem project_eq_ofBindings (a : Answer) (vs : List Var) :
    a.project vs = ofBindings (a.lookUpAll vs) :=
  eq_ofBindings_of_ofBindings? (ofBindings?_lookUpAll a vs)

theorem project_congr (h : ∀ v, v ∈ vs ↔ v ∈ ws) : a.project vs = a.project ws := by
  ext v c
  rw [get?_project_eq_some_iff, get?_project_eq_some_iff, h]

theorem project_project (a : Answer) (vs ws : List Var) :
    (a.project vs).project ws = a.project (vs.filter (· ∈ ws)) := by
  ext v c
  simp only [get?_project_eq_some_iff, List.mem_filter, decide_eq_true_eq, and_left_comm, and_assoc]

/-! ### Projections and merging -/

/-- **Two projections of one answer** never contradict each other. -/
theorem merge?_project (a : Answer) (vs ws : List Var) :
    (a.project vs).merge? (a.project ws) = some (a.project (vs ++ ws)) :=
  calc (a.project vs).merge? (a.project ws)
      = (ofBindings? (a.lookUpAll vs)).bind fun x =>
          (ofBindings? (a.lookUpAll ws)).bind x.merge? := by
        rw [ofBindings?_lookUpAll, ofBindings?_lookUpAll]
        rfl
    _ = ofBindings? (a.lookUpAll (vs ++ ws)) := by rw [lookUpAll_append, ofBindings?_append]
    _ = some (a.project (vs ++ ws)) := ofBindings?_lookUpAll a (vs ++ ws)

theorem project_merge? (h : a.merge? b = some m) (vs : List Var) :
    (a.project vs).merge? (b.project vs) = some (m.project vs) := by
  refine merge?_eq_some_iff.mpr fun v c => ?_
  simp only [get?_project_eq_some_iff, merge?_eq_some_iff.mp h, and_or_left]

/-- **The laws of projection.** A projection binds the listed variables as the answer does and no
others, whatever their order, however often they are listed, and whether the answer binds them or
not. It is what the bindings that are found for the variables of the list, one after the other,
collect to, be it with or without a check. To project twice is to project once on the variables of
both lists. Two projections of an answer merge to the projection on both lists together, and where
two answers can be merged, so can their projections, to that of the merged answer. -/
theorem laws_of_projection (a b : Answer) (vs ws : List Var) :
    (∀ v c, (a.project vs).get? v = some c ↔ v ∈ vs ∧ a.get? v = some c) ∧
    (a.project vs = ofBindings (a.lookUpAll vs) ∧
      ofBindings? (a.lookUpAll vs) = some (a.project vs)) ∧
    ((∀ v, v ∈ vs ↔ v ∈ ws) → a.project vs = a.project ws) ∧
    (a.project vs).project ws = a.project (vs.filter (· ∈ ws)) ∧
    (a.project vs).merge? (a.project ws) = some (a.project (vs ++ ws)) ∧
    ∀ m, a.merge? b = some m → (a.project vs).merge? (b.project vs) = some (m.project vs) :=
  ⟨fun _ _ => get?_project_eq_some_iff, ⟨project_eq_ofBindings a vs, ofBindings?_lookUpAll a vs⟩,
    project_congr, project_project a vs ws, merge?_project a vs ws,
    fun _ hm => project_merge? hm vs⟩

/-- The list names `z` first, `x` twice, and `w`, which is not bound. -/
theorem laws_of_projection_unbound :
    let w : Var := ⟨"w"⟩
    let x : Var := ⟨"x"⟩
    let y : Var := ⟨"y"⟩
    let z : Var := ⟨"z"⟩
    let one : Concept := ⟨1, by decide⟩
    let two : Concept := ⟨2, by decide⟩
    let a : Answer := .ofBindings [(x, one), (y, two)]
    let b : Answer := .ofBindings [(y, two), (z, one)]
    let m : Answer := .ofBindings [(x, one), (y, two), (z, one)]
    let vs := [z, x, w, x]
    let ws := [w, x, z]
    ((∀ v, v ∈ vs ↔ v ∈ ws) ∧ m.project vs = m.project ws) ∧
      a.merge? b = some m ∧ (a.project vs).merge? (b.project vs) = some (m.project vs) ∧
        m.project vs = .ofBindings [(x, one), (z, one)] := by
  intro w x y z one two a b m vs ws
  have hmem : ∀ v, v ∈ vs ↔ v ∈ ws := by
    simp only [vs, ws, List.mem_cons, List.not_mem_nil, or_false]
    intro v
    constructor
    · rintro (rfl | rfl | rfl | rfl) <;> simp
    · rintro (rfl | rfl | rfl) <;> simp
  have hm : a.merge? b = some m := by decide +kernel
  obtain ⟨-, -, hcongr, -⟩ := laws_of_projection m b vs ws
  obtain ⟨-, -, -, -, -, hmerge⟩ := laws_of_projection a b vs ws
  exact ⟨⟨hmem, hcongr hmem⟩, hm, hmerge m hm, by decide +kernel⟩

end VarRenaming.Answer
