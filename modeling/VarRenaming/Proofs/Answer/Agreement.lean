import Mathlib.Tactic.ByContra
import VarRenaming.Proofs.Answer.Merge

/-! # Bindings that agree

Bindings are taken one after the other, and the first conflict ends the work. When that happens
depends on the order, but whether it happens does not (`ofBindings?_eq_none_iff`,
`ofBindings?_congr`). Merging binds what two answers list (`merge?_eq_ofBindings?`), so the laws of
merging are laws of lists. A list that is not refused gives the same answer with and without the
check (`eq_ofBindings_of_ofBindings?`). -/

namespace VarRenaming.Answer

open Std

variable {a b r : Answer} {xs ys : List (Var × Concept)}

/-! ### Lists of bindings -/

/-- **Neither order nor repetition** of bindings matters. -/
theorem ofBindings?_congr (h : ∀ e, e ∈ xs ↔ e ∈ ys) : ofBindings? xs = ofBindings? ys := by
  ext1 r
  rw [ofBindings?_eq_some_iff, ofBindings?_eq_some_iff]
  simp only [h]

/-- **A list is refused** exactly when some variable stands in it with two concepts. -/
theorem ofBindings?_eq_none_iff :
    ofBindings? xs = none ↔ ∃ v c d, (v, c) ∈ xs ∧ (v, d) ∈ xs ∧ c ≠ d := by
  constructor
  · intro hnone
    by_contra hfree
    obtain ⟨r, hr⟩ : ∃ r, ofBindings? xs = some r := by
      refine exists_ofBindings? fun v c d hc hd => ?_
      by_contra hne
      exact hfree ⟨v, c, d, hc, hd, hne⟩
    rw [hnone] at hr
    cases hr
  · rintro ⟨v, c, d, hc, hd, hne⟩
    refine Option.eq_none_iff_forall_ne_some.mpr fun r hr => hne ?_
    have h₁ := (ofBindings?_eq_some_iff.mp hr v c).mpr hc
    have h₂ := (ofBindings?_eq_some_iff.mp hr v d).mpr hd
    exact Option.some.inj (h₁.symm.trans h₂)

theorem bindAll?_append (a : Answer) (xs ys : List (Var × Concept)) :
    a.bindAll? (xs ++ ys) = (a.bindAll? xs).bind (·.bindAll? ys) :=
  List.foldlM_append

theorem ofBindings?_toList (a : Answer) : ofBindings? a.toList = some a :=
  ofBindings?_eq_some_iff.mpr fun _ _ => mem_toList.symm

theorem bindAll?_eq_ofBindings? (a : Answer) (xs : List (Var × Concept)) :
    a.bindAll? xs = ofBindings? (a.toList ++ xs) := by
  have ha : empty.bindAll? a.toList = some a := ofBindings?_toList a
  rw [ofBindings?, bindAll?_append, ha, Option.bind_some]

/-! ### Merging -/

theorem merge?_eq_ofBindings? (a b : Answer) : a.merge? b = ofBindings? (a.toList ++ b.toList) :=
  bindAll?_eq_ofBindings? a b.toList

theorem exists_merge?_iff :
    (∃ m, a.merge? b = some m) ↔ ∀ v c d, a.get? v = some c → b.get? v = some d → c = d := by
  refine ⟨?_, exists_merge?⟩
  rintro ⟨m, hm⟩ v c d hc hd
  have h₁ := (merge?_eq_some_iff.mp hm v c).mpr (Or.inl hc)
  have h₂ := (merge?_eq_some_iff.mp hm v d).mpr (Or.inr hd)
  exact Option.some.inj (h₁.symm.trans h₂)

theorem merge?_comm (a b : Answer) : a.merge? b = b.merge? a := by
  rw [merge?_eq_ofBindings?, merge?_eq_ofBindings?]
  refine ofBindings?_congr fun e => ?_
  rw [List.mem_append, List.mem_append, or_comm]

theorem merge?_self (a : Answer) : a.merge? a = some a :=
  merge?_eq_some_iff.mpr fun _ _ => or_self_iff.symm

theorem merge?_empty (a : Answer) : a.merge? ∅ = some a := by
  refine merge?_eq_some_iff.mpr fun v c => ?_
  rw [get?_empty, or_iff_left (Option.some_ne_none c).symm]

theorem empty_merge? (a : Answer) : (∅ : Answer).merge? a = some a := by
  rw [merge?_comm, merge?_empty]

theorem bind_merge? (xs : List (Var × Concept)) (a : Answer) :
    (ofBindings? xs).bind (·.merge? a) = ofBindings? (xs ++ a.toList) :=
  (bindAll?_append empty xs a.toList).symm

theorem merge?_assoc (a b c : Answer) :
    (a.merge? b).bind (·.merge? c) = (b.merge? c).bind a.merge? :=
  calc (a.merge? b).bind (·.merge? c)
      = ofBindings? (a.toList ++ b.toList ++ c.toList) := by
        rw [merge?_eq_ofBindings?, bind_merge?]
    _ = ofBindings? (b.toList ++ c.toList ++ a.toList) := by
        refine ofBindings?_congr fun e => ?_
        rw [List.append_assoc, List.mem_append, List.mem_append (s := b.toList ++ c.toList),
          or_comm]
    _ = (b.merge? c).bind (·.merge? a) := by rw [merge?_eq_ofBindings?, bind_merge?]
    _ = (b.merge? c).bind a.merge? := by simp only [merge?_comm _ a]

theorem bindAll?_eq_bind_merge? (a : Answer) (xs : List (Var × Concept)) :
    a.bindAll? xs = (ofBindings? xs).bind a.merge? :=
  calc a.bindAll? xs = ofBindings? (a.toList ++ xs) := bindAll?_eq_ofBindings? a xs
    _ = ofBindings? (xs ++ a.toList) := by
        refine ofBindings?_congr fun e => ?_
        rw [List.mem_append, List.mem_append, or_comm]
    _ = (ofBindings? xs).bind (·.merge? a) := (bind_merge? xs a).symm
    _ = (ofBindings? xs).bind a.merge? := by simp only [merge?_comm _ a]

/-- **Two lists, one behind the other**, give what their answers merge to. -/
theorem ofBindings?_append (xs ys : List (Var × Concept)) :
    ofBindings? (xs ++ ys) = (ofBindings? xs).bind fun x => (ofBindings? ys).bind x.merge? := by
  simp only [← bindAll?_eq_bind_merge?]
  exact bindAll?_append empty xs ys

/-! ### Overriding -/

/-- **A binding that is accepted** is entered as an overriding one would be. -/
theorem eq_insert_of_bind? {v : Var} {c : Concept} (h : a.bind? v c = some r) :
    r = ⟨a.bindings.insert v c⟩ := by
  have hr := bind?_eq_some_iff.mp h
  have hv : r.get? v = some c := (hr v c).mpr (Or.inr ⟨rfl, rfl⟩)
  ext w : 1
  rw [get?_insert]
  split
  · next hw => rw [← hw, hv]
  · next hw =>
    ext d
    rw [hr, or_iff_left fun hwd => hw hwd.1.symm]

theorem eq_insertMany_of_bindAll? (h : a.bindAll? xs = some r) :
    r = ⟨a.bindings.insertMany xs⟩ := by
  induction xs generalizing a with
  | nil =>
    obtain rfl : a = r := Option.some.inj h
    rw [ExtTreeMap.insertMany_nil]
  | cons e xs ih =>
    rw [bindAll?_cons, Option.bind_eq_some_iff] at h
    obtain ⟨m, hm, hr⟩ := h
    rw [ih hr, eq_insert_of_bind? hm, ExtTreeMap.insertMany_cons]

/-- **A list that is not refused** leaves nothing to override. -/
theorem eq_ofBindings_of_ofBindings? (h : ofBindings? xs = some r) : r = ofBindings xs := by
  rw [eq_insertMany_of_bindAll? h, ofBindings, ExtTreeMap.ofList_eq_insertMany_empty]
  rfl

theorem get?_ofBindings (xs : List (Var × Concept)) (v : Var) :
    (ofBindings xs).get? v = xs.reverse.findSome? fun e => if e.1 = v then some e.2 else none := by
  rw [get?, ofBindings, ExtTreeMap.ofList_eq_insertMany_empty, ExtTreeMap.getElem?_insertMany_list,
    ExtTreeMap.getElem?_empty, Option.or_none, List.findSomeRev?_eq_findSome?_reverse]
  simp only [Std.compare_eq_iff_eq]

/-- **The last binding counts**: behind it the list says nothing about the variable. -/
theorem get?_ofBindings_eq_some_iff {v : Var} {c : Concept} :
    (ofBindings xs).get? v = some c ↔ ∃ l r, xs = l ++ (v, c) :: r ∧ ∀ d, (v, d) ∉ r := by
  rw [get?_ofBindings, List.findSome?_eq_some_iff]
  constructor
  · rintro ⟨l, ⟨w, d⟩, r, hxs, hwd, hl⟩
    obtain ⟨rfl, hd⟩ := Option.ite_none_right_eq_some.mp hwd
    obtain rfl : d = c := Option.some.inj hd
    refine ⟨r.reverse, l.reverse, ?_, fun e he => ?_⟩
    · rw [← List.reverse_reverse xs, hxs, List.reverse_append, List.reverse_cons, List.append_assoc,
        List.singleton_append]
    · have hnone := hl (w, e) (List.mem_reverse.mp he)
      rw [if_pos rfl] at hnone
      cases hnone
  · rintro ⟨l, r, rfl, hr⟩
    refine ⟨r.reverse, (v, c), l.reverse, ?_, if_pos rfl, fun e he => if_neg ?_⟩
    · rw [List.reverse_append, List.reverse_cons, List.append_assoc, List.singleton_append]
    · rintro rfl
      exact hr e.2 (List.mem_reverse.mp he)

/-! ### The laws -/

/-- **The laws of merging.** Two answers have a merged one exactly when they agree on every variable
that both bind, and it binds what either of them binds. Merging is commutative, idempotent and
associative, has the empty answer as its unit, and fails on both sides alike. A list of bindings
made of two has the merged answer of the two, if there is one. It has the answer of every list of
the same bindings, in whatever order and however often they stand there, and none exactly when some
variable stands in it with two concepts. If it has one, this is the answer in which later bindings
override earlier ones, where the last binding of a variable counts. -/
theorem laws_of_merging (a b c : Answer) (xs ys : List (Var × Concept)) :
    ((∃ m, a.merge? b = some m) ↔ ∀ v d e, a.get? v = some d → b.get? v = some e → d = e) ∧
    (∀ m, a.merge? b = some m →
      ∀ v d, m.get? v = some d ↔ a.get? v = some d ∨ b.get? v = some d) ∧
    (a.merge? b = b.merge? a ∧ a.merge? a = some a ∧ a.merge? ∅ = some a ∧
      (∅ : Answer).merge? a = some a ∧
      (a.merge? b).bind (·.merge? c) = (b.merge? c).bind a.merge?) ∧
    ofBindings? (xs ++ ys) = ((ofBindings? xs).bind fun x => (ofBindings? ys).bind x.merge?) ∧
    ((∀ e, e ∈ xs ↔ e ∈ ys) → ofBindings? xs = ofBindings? ys) ∧
    (ofBindings? xs = none ↔ ∃ v d e, (v, d) ∈ xs ∧ (v, e) ∈ xs ∧ d ≠ e) ∧
    (∀ r, ofBindings? xs = some r → r = ofBindings xs) ∧
    ∀ v d, (ofBindings xs).get? v = some d ↔ ∃ l r, xs = l ++ (v, d) :: r ∧ ∀ e, (v, e) ∉ r :=
  ⟨exists_merge?_iff, fun _ hm => merge?_eq_some_iff.mp hm,
    ⟨merge?_comm a b, merge?_self a, merge?_empty a, empty_merge? a, merge?_assoc a b c⟩,
    ofBindings?_append xs ys, ofBindings?_congr, ofBindings?_eq_none_iff,
    fun _ hr => eq_ofBindings_of_ofBindings? hr, fun _ _ => get?_ofBindings_eq_some_iff⟩

/-- Two answers that share `y` are merged to the answer of their bindings, which can be listed in
another order and with a repetition. A third answer contradicts the merged one and only one of its
parts, so the two bracketings fail at different moments. -/
theorem laws_of_merging_shared :
    let x : Var := ⟨"x"⟩
    let y : Var := ⟨"y"⟩
    let z : Var := ⟨"z"⟩
    let one : Concept := ⟨1, by decide⟩
    let two : Concept := ⟨2, by decide⟩
    let a : Answer := .ofBindings [(x, one), (y, two)]
    let b : Answer := .ofBindings [(y, two), (z, one)]
    let c : Answer := .ofBindings [(x, two)]
    let m : Answer := .ofBindings [(x, one), (y, two), (z, one)]
    let xs := [(x, one), (y, two), (z, one)]
    let ys := [(z, one), (y, two), (x, one), (y, two)]
    (a.merge? b = some m ∧ (m.get? z = some one ↔ a.get? z = some one ∨ b.get? z = some one)) ∧
    ((∀ e, e ∈ xs ↔ e ∈ ys) ∧ ofBindings? xs = some m ∧ ofBindings? ys = some m ∧
      m = ofBindings ys) ∧
    b.merge? c ≠ none ∧ (a.merge? b).bind (·.merge? c) = none ∧
      (b.merge? c).bind a.merge? = none := by
  intro x y z one two a b c m xs ys
  have hm : a.merge? b = some m := by decide +kernel
  have hxs : ofBindings? xs = some m := by decide +kernel
  have hmem : ∀ e, e ∈ xs ↔ e ∈ ys := by
    simp only [xs, ys, List.mem_cons, List.not_mem_nil, or_false]
    intro e
    constructor
    · rintro (rfl | rfl | rfl) <;> simp
    · rintro (rfl | rfl | rfl | rfl) <;> simp
  obtain ⟨-, hunion, ⟨-, -, -, -, hassoc⟩, -, hcongr, -⟩ := laws_of_merging a b c xs ys
  obtain ⟨-, -, -, -, -, -, hover, -⟩ := laws_of_merging a b c ys xs
  have hys : ofBindings? ys = some m := (hcongr hmem).symm.trans hxs
  have hnone : (a.merge? b).bind (·.merge? c) = none := by decide +kernel
  exact ⟨⟨hm, hunion m hm z one⟩, ⟨hmem, hxs, hys, hover m hys⟩, by decide +kernel, hnone,
    hassoc.symm.trans hnone⟩

end VarRenaming.Answer
