import VarRenaming.Concept
import VarRenaming.Text.Listing
import VarRenaming.Var
import Std.Data.ExtTreeMap

/-! # Answers

An answer binds finitely many variables, each to one concept. With `Answer.ofBindings` a later
binding of a variable replaces an earlier one, while `Answer.bind?`, and what is built from it,
gives nothing when a variable would have to stand for two concepts. -/

namespace VarRenaming

open Std

/-- A binding of finitely many variables to concepts. -/
structure Answer where
  bindings : ExtTreeMap Var Concept

namespace Answer

instance : DecidableEq Answer := fun a b =>
  decidable_of_iff (a.bindings = b.bindings) ⟨congrArg mk, congrArg bindings⟩

/-- The answer that binds no variable. -/
def empty : Answer := ⟨∅⟩

instance : EmptyCollection Answer := ⟨empty⟩

instance : Inhabited Answer := ⟨empty⟩

/-! ### Look-ups -/

/-- The concept that a variable is bound to, if any. -/
def get? (a : Answer) (v : Var) : Option Concept := a.bindings[v]?

/-- The bindings in ascending order of their variables. -/
def toList (a : Answer) : List (Var × Concept) := a.bindings.toList

/-- The bound variables in ascending order. -/
def vars (a : Answer) : List Var := a.bindings.keys

/-- The number of bound variables. -/
def size (a : Answer) : Nat := a.bindings.size

/-- Whether no variable is bound. -/
def isEmpty (a : Answer) : Bool := a.bindings.isEmpty

@[ext] theorem ext {a b : Answer} (h : ∀ v, a.get? v = b.get? v) : a = b := by
  obtain ⟨m⟩ := a
  obtain ⟨n⟩ := b
  exact congrArg Answer.mk (ExtTreeMap.ext_getElem? h)

@[simp] theorem get?_empty (v : Var) : (∅ : Answer).get? v = none :=
  ExtTreeMap.getElem?_empty

@[simp] theorem mem_toList {a : Answer} {v : Var} {c : Concept} :
    (v, c) ∈ a.toList ↔ a.get? v = some c :=
  ExtTreeMap.mem_toList_iff_getElem?_eq_some

@[simp] theorem mem_vars {a : Answer} {v : Var} : v ∈ a.vars ↔ ∃ c, a.get? v = some c := by
  rw [vars, ExtTreeMap.mem_keys, ExtTreeMap.mem_iff_isSome_getElem?, Option.isSome_iff_exists]
  rfl

/-! ### Binding without overriding -/

/-- Binds one more variable, or gives nothing when the variable is bound to another concept. -/
def bind? (a : Answer) (v : Var) (c : Concept) : Option Answer :=
  match a.get? v with
  | none => some ⟨a.bindings.insert v c⟩
  | some d => if d = c then some a else none

/-- Binds the variables of a list one after the other. -/
def bindAll? (a : Answer) (bindings : List (Var × Concept)) : Option Answer :=
  bindings.foldlM (fun a b => a.bind? b.1 b.2) a

/-- The answer of a list of bindings, or nothing when two of them disagree. -/
def ofBindings? (bindings : List (Var × Concept)) : Option Answer :=
  empty.bindAll? bindings

/-- The union of two answers, or nothing when they disagree on a variable. -/
def merge? (a b : Answer) : Option Answer :=
  a.bindAll? b.toList

/-! ### Overriding and restricting -/

/-- The answer of a list of bindings, in which the last binding of a variable counts. -/
def ofBindings (bindings : List (Var × Concept)) : Answer :=
  ⟨.ofList bindings⟩

@[simp] theorem get?_ofBindings_singleton (v w : Var) (c : Concept) :
    (ofBindings [(v, c)]).get? w = if v = w then some c else none := by
  simp only [get?, ofBindings, ExtTreeMap.ofList_singleton, ExtTreeMap.getElem?_insert,
    Std.compare_eq_iff_eq, ExtTreeMap.getElem?_empty]

/-- The bindings of the listed variables. Listed variables that are not bound are passed over. -/
def project (a : Answer) (vars : List Var) : Answer :=
  ⟨a.bindings.filter fun v _ => vars.contains v⟩

@[simp] theorem get?_project (a : Answer) (vars : List Var) (v : Var) :
    (a.project vars).get? v = if v ∈ vars then a.get? v else none := by
  simp only [get?, project, ExtTreeMap.getElem?_filter']
  cases a.bindings[v]? <;> by_cases h : v ∈ vars <;> simp [h]

/-! ### Order -/

/-- Bindings are ordered by variable, then by concept. -/
instance : Ord (Var × Concept) := lexOrd

instance : TransOrd (Var × Concept) :=
  inferInstanceAs (TransCmp (compareLex (compareOn Prod.fst) (compareOn Prod.snd)))

instance : LawfulEqOrd (Var × Concept) where
  eq_of_compare h := by
    obtain ⟨h₁, h₂⟩ := compareLex_eq_eq.mp h
    exact Prod.ext (Std.compare_eq_iff_eq.mp h₁) (Std.compare_eq_iff_eq.mp h₂)

/-- Answers are ordered by their lists of bindings, lexicographically. -/
instance : Ord Answer := ⟨compareOn toList⟩

instance : TransOrd Answer := inferInstanceAs (TransCmp (compareOn toList))

instance : LawfulEqOrd Answer where
  eq_of_compare {a b} h := by
    obtain ⟨m⟩ := a
    obtain ⟨n⟩ := b
    exact congrArg Answer.mk (ExtTreeMap.toList_inj.mp (Std.compare_eq_iff_eq.mp h))

/-! ### Text and bytes -/

/-- An answer is shown as its bindings in braces. -/
def render (a : Answer) : String :=
  Text.listing "\x7b" "\x7d" (a.toList.map fun b => b.1.render ++ "=" ++ b.2.render)

/-- Answers have no layout as bytes; whoever asks for one breaks a precondition. -/
def bytes (_ : Answer) : Except Fault ByteArray := .error .answerBytes

end Answer

end VarRenaming
