import VarRenaming.Fault
import VarRenaming.Supply

/-! # Concepts

The ground values that answers bind variables to, known by positive 32-bit ids. Fresh concepts come
from a `ConceptSupply`, a counter that starts at one and wraps around, so it comes by the id zero,
for which there is no concept. -/

namespace VarRenaming

open Std

/-- A ground value, known by its id. -/
structure Concept where
  id : UInt32
  pos : 0 < id
deriving DecidableEq

namespace Concept

instance : Inhabited Concept := ⟨⟨1, by decide⟩⟩

/-- The concept of an id; the id zero has none. -/
def ofId (id : UInt32) : Except Fault Concept :=
  if h : 0 < id then .ok ⟨id, h⟩ else .error .idNotPositive

/-! ### Order -/

instance : Ord Concept := ⟨compareOn id⟩

instance : TransOrd Concept := inferInstanceAs (TransCmp (compareOn id))

instance : LawfulEqOrd Concept where
  eq_of_compare {a b} h := by
    obtain ⟨i, _⟩ := a
    obtain ⟨j, _⟩ := b
    obtain rfl : i = j := Std.compare_eq_iff_eq.mp h
    rfl

/-! ### Text -/

/-- A concept is shown as its id in decimal. -/
def render (c : Concept) : String := toString c.id.toNat

end Concept

/-! ### Fresh concepts -/

/-- A source of concepts: the id that the next one bears. -/
structure ConceptSupply where
  next : UInt32 := 1

namespace ConceptSupply

/-- The next concept and the supply after it; the supply moves on even when it is at zero and gives
none. -/
def fresh (s : ConceptSupply) : Except Fault Concept × ConceptSupply :=
  (Concept.ofId s.next, ⟨s.next + 1⟩)

/-- How many calls of `fresh` give a concept before the supply is at zero. -/
def untilZero (s : ConceptSupply) : Nat := (0 - s.next).toNat

/-- The concepts of the next `n` calls of `fresh`, with the supply after them. The first call that
gives none is the last one; whether there is such a call is known beforehand. -/
def take (n : Nat) (s : ConceptSupply) : Except Fault (List Concept) × ConceptSupply :=
  if s.untilZero < n then (.error .idNotPositive, ⟨1⟩)
  else ((Supply.draws fresh n s).mapM id, ⟨s.next + .ofNat n⟩)

end ConceptSupply

end VarRenaming
