import VarRenaming.Var

/-! # Arrows

An arrow says that one variable, its source, is to become another, its target. -/

namespace VarRenaming

open Std

/-- A step from one variable to another. -/
structure Arrow where
  source : Var
  target : Var
deriving DecidableEq, Inhabited

namespace Arrow

/-- The arrow that leads back. -/
def flip (e : Arrow) : Arrow := ⟨e.target, e.source⟩

@[simp] theorem flip_flip (e : Arrow) : e.flip.flip = e := rfl

/-- Arrows are ordered by source, then by target. -/
instance : Ord Arrow := ⟨compareLex (compareOn source) (compareOn target)⟩

instance : TransOrd Arrow :=
  inferInstanceAs (TransCmp (compareLex (compareOn source) (compareOn target)))

instance : LawfulEqOrd Arrow where
  eq_of_compare {a b} h := by
    obtain ⟨h₁, h₂⟩ := compareLex_eq_eq.mp h
    obtain ⟨_, _⟩ := a
    obtain ⟨_, _⟩ := b
    exact congr (congrArg Arrow.mk (Std.compare_eq_iff_eq.mp h₁)) (Std.compare_eq_iff_eq.mp h₂)

end Arrow

/-- An arrow is shown with its two variables. -/
def Arrow.render (e : Arrow) : String := e.source.render ++ "->" ++ e.target.render

end VarRenaming
