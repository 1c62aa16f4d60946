import VarRenaming.Alternatives.Renaming

/-! # Changes and the stages that they pass

A change adds an amount, possibly negative, to the multiplicity of one answer. A stage renames the
answers that pass it with a set of alternatives and may then restrict them to some variables. A
change becomes a change by the same amount of each distinct renamed answer; answers that only the
restriction makes equal are not merged. -/

namespace VarRenaming

/-- A change of the multiplicity of one answer. -/
structure Change where
  answer : Answer
  amount : Int
deriving DecidableEq

/-- A step of a flow: alternatives to rename with, and the variables to keep, if not all are kept. -/
structure Stage where
  alternatives : Alternatives
  keep : Option (List Var) := none

namespace Stage

/-- What becomes of an answer after it has been renamed. -/
def restrict (s : Stage) (a : Answer) : Answer :=
  match s.keep with
  | none => a
  | some vars => a.project vars

/-- The changes that a change becomes. -/
def pass (s : Stage) (c : Change) : List Change :=
  (s.alternatives.rename c.answer).toList.map fun a => ⟨s.restrict a, c.amount⟩

/-- The changes that a list of changes becomes when it passes stages one after the other. -/
def passAll (stages : List Stage) (changes : List Change) : List Change :=
  stages.foldl (fun cs s => cs.flatMap s.pass) changes

theorem passAll_cons (s : Stage) (ss : List Stage) (cs : List Change) :
    passAll (s :: ss) cs = passAll ss (cs.flatMap s.pass) := rfl

@[simp] theorem passAll_nil (ss : List Stage) : passAll ss [] = [] := by
  induction ss with
  | nil => rfl
  | cons s ss ih => exact ih

/-- Changes pass stages independently of each other. -/
theorem passAll_append (ss : List Stage) (cs ds : List Change) :
    passAll ss (cs ++ ds) = passAll ss cs ++ passAll ss ds := by
  induction ss generalizing cs ds with
  | nil => rfl
  | cons s ss ih => simp only [passAll_cons, List.flatMap_append, ih]

theorem passAll_eq_flatMap (ss : List Stage) (cs : List Change) :
    passAll ss cs = cs.flatMap fun c => passAll ss [c] := by
  induction cs with
  | nil => exact passAll_nil ss
  | cons c cs ih => rw [← List.singleton_append, passAll_append, ih, List.flatMap_append,
      List.flatMap_singleton]

end Stage

end VarRenaming
