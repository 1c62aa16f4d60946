import VarRenaming.Unifier.Basic

/-! # Rows, and the order of unifiers

Read by sources, a unifier is a list of rows: each source in ascending order with the set of its
targets. Unifiers are ordered by their rows, which is not the order of their lists of arrows: of two
rows of one source, the one whose targets stop first comes first, whatever rows follow. -/

namespace VarRenaming

open Std

/-- A source with the set of its targets. -/
structure Row where
  source : Var
  targets : FiniteSet Var

instance : Ord Row := ⟨compareLex (compareOn Row.source) (compareOn Row.targets)⟩

instance : TransOrd Row :=
  inferInstanceAs (TransCmp (compareLex (compareOn Row.source) (compareOn Row.targets)))

instance : LawfulEqOrd Row where
  eq_of_compare {a b} h := by
    obtain ⟨h₁, h₂⟩ := compareLex_eq_eq.mp h
    obtain ⟨_, _⟩ := a
    obtain ⟨_, _⟩ := b
    exact congr (congrArg Row.mk (Std.compare_eq_iff_eq.mp h₁)) (Std.compare_eq_iff_eq.mp h₂)

namespace Unifier

/-- The sources in ascending order, each with its targets. -/
def rows (u : Unifier) : List Row :=
  u.sources.toList.map fun s => ⟨s, u.targetsOf s⟩

theorem mem_iff_rows {u : Unifier} {e : Arrow} :
    e ∈ u ↔ ∃ r ∈ u.rows, r.source = e.source ∧ e.target ∈ r.targets := by
  simp only [rows, List.mem_map, ExtTreeSet.mem_toList, mem_sources]
  constructor
  · intro h
    exact ⟨_, ⟨e.source, ⟨e.target, h⟩, rfl⟩, rfl, mem_targetsOf.mpr h⟩
  · rintro ⟨_, ⟨s, _, rfl⟩, rfl, ht⟩
    exact mem_targetsOf.mp ht

instance : Ord Unifier := ⟨compareOn rows⟩

instance : TransOrd Unifier := inferInstanceAs (TransCmp (compareOn rows))

instance : LawfulEqOrd Unifier where
  eq_of_compare {u v} h := by
    have hr : u.rows = v.rows := Std.compare_eq_iff_eq.mp h
    ext e
    rw [mem_iff_rows, hr, ← mem_iff_rows]

end Unifier

end VarRenaming
