import VarRenaming.Proofs.Answer.Binding

/-! # Sub-answers and merging

`a ⊆ b` says that `b` binds every variable of `a` to the same concept. Two answers merge as soon as
they agree on the variables that both bind (`exists_merge?`), and the merged answer binds what
either of them binds (`merge?_eq_some_iff`). -/

namespace VarRenaming.Answer

variable {a b r : Answer}

/-- An answer is included in another that binds its variables alike. -/
instance : HasSubset Answer := ⟨fun a b => ∀ v c, a.get? v = some c → b.get? v = some c⟩

instance (a b : Answer) : Decidable (a ⊆ b) :=
  decidable_of_iff (a.toList.all fun e => b.get? e.1 = some e.2) <| by
    simp only [List.all_eq_true, decide_eq_true_eq, Prod.forall, mem_toList]
    exact Iff.rfl

/-- **Merging**: the result, if any, binds exactly what the two answers bind. -/
theorem merge?_eq_some_iff :
    a.merge? b = some r ↔ ∀ v c, r.get? v = some c ↔ a.get? v = some c ∨ b.get? v = some c := by
  simp only [merge?, bindAll?_eq_some_iff, mem_toList]

theorem exists_merge? (h : ∀ v c d, a.get? v = some c → b.get? v = some d → c = d) :
    ∃ r, a.merge? b = some r := by
  refine exists_bindAll? fun v c d hc hd => ?_
  rw [mem_toList] at hc hd
  rcases hc with hc | hc <;> rcases hd with hd | hd
  · exact Option.some.inj (hc.symm.trans hd)
  · exact h v c d hc hd
  · exact (h v d c hd hc).symm
  · exact Option.some.inj (hc.symm.trans hd)

end VarRenaming.Answer
