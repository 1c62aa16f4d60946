import VarRenaming.Flow.Stage

/-! # Tallies

A tally adds up the changes that it receives, answer by answer, and keeps an entry for an answer only
while its sum is not zero. The order in which changes arrive does not matter: every entry is read
through `Tally.count`, and a change adds its amount to the count of its answer. -/

namespace VarRenaming

open Std

/-- The sums of the changes received so far. -/
structure Tally where
  counts : ExtTreeMap Answer Int

namespace Tally

instance : DecidableEq Tally := fun t t' =>
  decidable_of_iff (t.counts = t'.counts) ⟨congrArg mk, congrArg counts⟩

/-- The tally that has received nothing. -/
def empty : Tally := ⟨∅⟩

instance : Inhabited Tally := ⟨empty⟩

/-- The sum for an answer, zero if there is no entry. -/
def count (t : Tally) (a : Answer) : Int := t.counts.getD a 0

/-- The entries in ascending order of their answers. -/
def toList (t : Tally) : List (Answer × Int) := t.counts.toList

/-- The answers that have an entry, in ascending order. -/
def answers (t : Tally) : List Answer := t.counts.keys

/-- Adds one change; an entry whose sum comes to zero is dropped. -/
def receive (t : Tally) (c : Change) : Tally :=
  ⟨t.counts.alter c.answer fun old =>
    let sum := old.getD 0 + c.amount
    if sum = 0 then none else some sum⟩

/-- Adds changes one after the other. -/
def receiveAll (t : Tally) (cs : List Change) : Tally := cs.foldl receive t

/-- The tally of a list of changes. -/
def ofList (cs : List Change) : Tally := empty.receiveAll cs

@[simp] theorem count_empty (a : Answer) : empty.count a = 0 := ExtTreeMap.getD_empty

theorem count_receive (t : Tally) (c : Change) (a : Answer) :
    (t.receive c).count a = t.count a + if c.answer = a then c.amount else 0 := by
  simp only [count, receive, ExtTreeMap.getD_alter, Std.compare_eq_iff_eq]
  by_cases h : c.answer = a
  · subst h
    rw [if_pos rfl, if_pos rfl, ExtTreeMap.getD_eq_getD_getElem?]
    by_cases h0 : t.counts[c.answer]?.getD 0 + c.amount = 0 <;> simp [h0]
  · simp [h]

end Tally

end VarRenaming
