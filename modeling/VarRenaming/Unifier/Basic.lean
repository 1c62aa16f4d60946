import VarRenaming.Arrow
import VarRenaming.Text.Listing

/-! # Unifiers

A unifier of two patterns is a finite set of arrows between their variables; without arrows it is
the identity. A source may have several targets and a target several sources. Each operation below
has one law that says which arrows its result has. -/

namespace VarRenaming

open Std

/-- A finite set of arrows. -/
structure Unifier where
  arrows : FiniteSet Arrow

namespace Unifier

instance : DecidableEq Unifier := fun u v =>
  decidable_of_iff (u.arrows = v.arrows) ⟨congrArg mk, congrArg arrows⟩

/-! ### Building -/

/-- The unifier without arrows, which renames nothing. -/
def identity : Unifier := ⟨∅⟩

instance : Inhabited Unifier := ⟨identity⟩

/-- Collects arrows; their order and repetitions do not matter. -/
def ofList (es : List Arrow) : Unifier := ⟨.ofList es⟩

/-- Adds the arrows of a list. -/
def extend (u : Unifier) (es : List Arrow) : Unifier := ⟨u.arrows.insertMany es⟩

/-! ### Members -/

instance : Membership Arrow Unifier := ⟨fun u e => e ∈ u.arrows⟩

instance (e : Arrow) (u : Unifier) : Decidable (e ∈ u) :=
  inferInstanceAs (Decidable (e ∈ u.arrows))

/-- Adds an arrow and tells whether it was new. -/
def insert (u : Unifier) (e : Arrow) : Bool × Unifier := (e ∉ u, ⟨u.arrows.insert e⟩)

/-- The arrows in ascending order. -/
def toList (u : Unifier) : List Arrow := u.arrows.toList

/-- The number of arrows. -/
def size (u : Unifier) : Nat := u.arrows.size

/-- Whether there is no arrow. -/
def isEmpty (u : Unifier) : Bool := u.arrows.isEmpty

@[ext] theorem ext {u v : Unifier} (h : ∀ e, e ∈ u ↔ e ∈ v) : u = v := by
  obtain ⟨_⟩ := u
  obtain ⟨_⟩ := v
  exact congrArg Unifier.mk (ExtTreeSet.ext_mem h)

@[simp] theorem mem_arrows {u : Unifier} {e : Arrow} : e ∈ u.arrows ↔ e ∈ u := Iff.rfl

@[simp] theorem not_mem_identity (e : Arrow) : e ∉ identity := ExtTreeSet.not_mem_empty

theorem isEmpty_iff {u : Unifier} : u.isEmpty = true ↔ u = identity := by
  obtain ⟨es⟩ := u
  show es.isEmpty = true ↔ _
  rw [ExtTreeSet.isEmpty_iff, identity, Unifier.mk.injEq]

@[simp] theorem mem_ofList {es : List Arrow} {e : Arrow} : e ∈ ofList es ↔ e ∈ es :=
  FiniteSet.mem_ofList

@[simp] theorem mem_toList {u : Unifier} {e : Arrow} : e ∈ u.toList ↔ e ∈ u :=
  ExtTreeSet.mem_toList

@[simp] theorem mem_insert {u : Unifier} {d e : Arrow} :
    e ∈ (u.insert d).2 ↔ e = d ∨ e ∈ u := by
  show e ∈ u.arrows.insert d ↔ _
  rw [ExtTreeSet.mem_insert, Std.compare_eq_iff_eq, mem_arrows, eq_comm]

@[simp] theorem mem_extend {u : Unifier} {es : List Arrow} {e : Arrow} :
    e ∈ u.extend es ↔ e ∈ u ∨ e ∈ es := by
  show e ∈ u.arrows.insertMany es ↔ _
  simp [ExtTreeSet.mem_insertMany_list]

/-! ### Sources and targets -/

/-- The variables from which an arrow leads. -/
def sources (u : Unifier) : FiniteSet Var := u.arrows.image Arrow.source

/-- The variables to which an arrow leads. -/
def targets (u : Unifier) : FiniteSet Var := u.arrows.image Arrow.target

/-- The targets of one variable. -/
def targetsOf (u : Unifier) (s : Var) : FiniteSet Var :=
  .ofList ((u.toList.filter (·.source = s)).map Arrow.target)

@[simp] theorem mem_sources {u : Unifier} {s : Var} : s ∈ u.sources ↔ ∃ t, ⟨s, t⟩ ∈ u := by
  simp only [sources, FiniteSet.mem_image, mem_arrows]
  constructor
  · rintro ⟨e, he, rfl⟩
    exact ⟨e.target, he⟩
  · rintro ⟨t, h⟩
    exact ⟨_, h, rfl⟩

@[simp] theorem mem_targets {u : Unifier} {t : Var} : t ∈ u.targets ↔ ∃ s, ⟨s, t⟩ ∈ u := by
  simp only [targets, FiniteSet.mem_image, mem_arrows]
  constructor
  · rintro ⟨e, he, rfl⟩
    exact ⟨e.source, he⟩
  · rintro ⟨s, h⟩
    exact ⟨_, h, rfl⟩

@[simp] theorem mem_targetsOf {u : Unifier} {s t : Var} : t ∈ u.targetsOf s ↔ ⟨s, t⟩ ∈ u := by
  simp only [targetsOf, FiniteSet.mem_ofList, List.mem_map, List.mem_filter, mem_toList,
    decide_eq_true_eq]
  constructor
  · rintro ⟨e, ⟨he, rfl⟩, rfl⟩
    exact he
  · intro h
    exact ⟨_, ⟨h, rfl⟩, rfl⟩

/-! ### Inverse, union and inclusion -/

/-- Turns every arrow around. -/
def inverse (u : Unifier) : Unifier := ⟨u.arrows.image Arrow.flip⟩

/-- The arrows of both. -/
def union (u v : Unifier) : Unifier := ⟨u.arrows ∪ v.arrows⟩

/-- A unifier is included in another that has all its arrows. -/
instance : HasSubset Unifier := ⟨fun u v => ∀ e ∈ u, e ∈ v⟩

instance (u v : Unifier) : Decidable (u ⊆ v) :=
  decidable_of_iff (u.toList.all (· ∈ v)) <| by
    simp only [List.all_eq_true, mem_toList, decide_eq_true_eq]
    exact Iff.rfl

@[simp] theorem mem_inverse {u : Unifier} {e : Arrow} : e ∈ u.inverse ↔ e.flip ∈ u := by
  show e ∈ u.arrows.image Arrow.flip ↔ _
  simp only [FiniteSet.mem_image, mem_arrows]
  constructor
  · rintro ⟨d, hd, rfl⟩
    exact hd
  · intro h
    exact ⟨_, h, rfl⟩

@[simp] theorem mem_union {u v : Unifier} {e : Arrow} : e ∈ u.union v ↔ e ∈ u ∨ e ∈ v :=
  ExtTreeSet.mem_union_iff

/-! ### Text -/

/-- A unifier is shown as its arrows in braces. -/
def render (u : Unifier) : String :=
  Text.listing "\x7b" "\x7d" (u.toList.map Arrow.render)

end Unifier

end VarRenaming
