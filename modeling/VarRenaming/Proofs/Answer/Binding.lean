import VarRenaming.Answer

/-! # What checked binding gives

`Answer.bindAll?` binds the variables of a list one after the other and stops at the first conflict.
The result binds exactly what the answer and the list bind together (`bindAll?_eq_some_iff`), and
there is one as soon as no variable has two concepts (`exists_bindAll?`). -/

namespace VarRenaming.Answer

open Std

/-! ### One binding -/

theorem get?_insert (a : Answer) (v w : Var) (c : Concept) :
    (⟨a.bindings.insert v c⟩ : Answer).get? w = if v = w then some c else a.get? w := by
  simp only [get?, ExtTreeMap.getElem?_insert, Std.compare_eq_iff_eq]

/-- **One more binding**: the result, if any, binds the variable and what was bound before. -/
theorem bind?_eq_some_iff {a r : Answer} {v : Var} {c : Concept} :
    a.bind? v c = some r ↔
      ∀ w d, r.get? w = some d ↔ a.get? w = some d ∨ w = v ∧ d = c := by
  unfold bind?
  split
  · next hv =>
    have hins : ∀ w d, (⟨a.bindings.insert v c⟩ : Answer).get? w = some d ↔
        a.get? w = some d ∨ w = v ∧ d = c := by
      intro w d
      rw [get?_insert]
      by_cases hw : v = w
      · subst hw
        simp [hv, eq_comm]
      · simp [hw, Ne.symm hw]
    constructor
    · rintro ⟨⟩
      exact hins
    · intro h
      congr 1
      ext w d
      rw [h, hins]
  · next d hv =>
    by_cases hd : d = c
    · subst hd
      have hsame : ∀ w e, a.get? w = some e ∨ w = v ∧ e = d ↔ a.get? w = some e := by
        intro w e
        constructor
        · rintro (h | ⟨rfl, rfl⟩)
          · exact h
          · exact hv
        · exact Or.inl
      simp only [if_true, Option.some.injEq, hsame]
      constructor
      · rintro rfl w e
        exact Iff.rfl
      · intro h
        ext w e
        exact (h w e).symm
    · simp only [hd, if_false, reduceCtorEq, false_iff]
      intro h
      have h₁ := (h v d).mpr (Or.inl hv)
      have h₂ := (h v c).mpr (Or.inr ⟨rfl, rfl⟩)
      rw [h₁] at h₂
      exact hd (Option.some.inj h₂)

theorem exists_bind? {a : Answer} {v : Var} {c : Concept} (h : ∀ d, a.get? v = some d → d = c) :
    ∃ r, a.bind? v c = some r := by
  unfold bind?
  split
  · exact ⟨_, rfl⟩
  · next d hv => exact ⟨a, if_pos (h d hv)⟩

/-! ### Lists of bindings -/

theorem bindAll?_nil (a : Answer) : a.bindAll? [] = some a := rfl

theorem bindAll?_cons (a : Answer) (b : Var × Concept) (bs : List (Var × Concept)) :
    a.bindAll? (b :: bs) = (a.bind? b.1 b.2).bind (·.bindAll? bs) := rfl

/-- **Binding a list**: the result, if any, binds exactly what the answer and the list bind. -/
theorem bindAll?_eq_some_iff {a r : Answer} {bs : List (Var × Concept)} :
    a.bindAll? bs = some r ↔
      ∀ v c, r.get? v = some c ↔ a.get? v = some c ∨ (v, c) ∈ bs := by
  induction bs generalizing a with
  | nil =>
    simp only [bindAll?_nil, Option.some.injEq, List.not_mem_nil, or_false]
    constructor
    · rintro rfl v c
      exact Iff.rfl
    · intro h
      ext v c
      exact (h v c).symm
  | cons b bs ih =>
    simp only [bindAll?_cons, Option.bind_eq_some_iff, ih, List.mem_cons]
    constructor
    · rintro ⟨m, hm, hr⟩ v c
      rw [hr, bind?_eq_some_iff.mp hm, or_assoc, Prod.ext_iff]
    · intro h
      -- the head contradicts nothing, since the result binds it beside all that was bound before
      obtain ⟨m, hm⟩ : ∃ m, a.bind? b.1 b.2 = some m := by
        refine exists_bind? fun d hd => ?_
        have h₁ := (h b.1 d).mpr (Or.inl hd)
        have h₂ := (h b.1 b.2).mpr (Or.inr (Or.inl rfl))
        rw [h₁] at h₂
        exact Option.some.inj h₂
      refine ⟨m, hm, fun v c => ?_⟩
      rw [h, bind?_eq_some_iff.mp hm, or_assoc, Prod.ext_iff]

theorem exists_bindAll? {a : Answer} {bs : List (Var × Concept)}
    (h : ∀ v c d, a.get? v = some c ∨ (v, c) ∈ bs → a.get? v = some d ∨ (v, d) ∈ bs → c = d) :
    ∃ r, a.bindAll? bs = some r := by
  induction bs generalizing a with
  | nil => exact ⟨a, rfl⟩
  | cons b bs ih =>
    obtain ⟨m, hm⟩ : ∃ m, a.bind? b.1 b.2 = some m :=
      exists_bind? fun d hd => h b.1 d b.2 (Or.inl hd) (Or.inr List.mem_cons_self)
    have hall : ∀ v c, m.get? v = some c ∨ (v, c) ∈ bs ↔ a.get? v = some c ∨ (v, c) ∈ b :: bs := by
      intro v c
      rw [bind?_eq_some_iff.mp hm, List.mem_cons, or_assoc, Prod.ext_iff]
    obtain ⟨r, hr⟩ := ih (a := m) fun v c d hc hd => h v c d ((hall v c).mp hc) ((hall v d).mp hd)
    exact ⟨r, by rw [bindAll?_cons, hm]; exact hr⟩

theorem ofBindings?_eq_some_iff {r : Answer} {bs : List (Var × Concept)} :
    ofBindings? bs = some r ↔ ∀ v c, r.get? v = some c ↔ (v, c) ∈ bs := by
  have he : ∀ v, empty.get? v = none := get?_empty
  simp only [ofBindings?, bindAll?_eq_some_iff, he, reduceCtorEq, false_or]

theorem exists_ofBindings? {bs : List (Var × Concept)}
    (h : ∀ v c d, (v, c) ∈ bs → (v, d) ∈ bs → c = d) : ∃ r, ofBindings? bs = some r := by
  have he : ∀ v, empty.get? v = none := get?_empty
  refine exists_bindAll? ?_
  simpa only [he, reduceCtorEq, false_or] using h

end VarRenaming.Answer
