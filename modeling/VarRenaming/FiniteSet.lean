import Std.Data.ExtTreeSet

/-! # Finite sets over an ordered type

A finite set is listed in ascending order. Sets are themselves ordered, by the lexicographic order
of their lists, in which a proper initial segment is smaller; so a set of sets is again a finite set
over an ordered type. -/

namespace VarRenaming

open Std

/-- A finite set of values of an ordered type. -/
abbrev FiniteSet (α : Type) [Ord α] := ExtTreeSet α

namespace FiniteSet

variable {α β : Type} [Ord α] [TransOrd α] [Ord β] [TransOrd β]

/-! ### Order -/

instance : Ord (FiniteSet α) := ⟨compareOn ExtTreeSet.toList⟩

instance : TransOrd (FiniteSet α) := inferInstanceAs (TransCmp (compareOn ExtTreeSet.toList))

variable [LawfulEqOrd α] [LawfulEqOrd β]

instance : LawfulEqOrd (FiniteSet α) where
  eq_of_compare h := ExtTreeSet.toList_inj.mp (Std.compare_eq_iff_eq.mp h)

/-! ### Members -/

@[simp] theorem mem_ofList {l : List α} {x : α} : x ∈ (.ofList l : FiniteSet α) ↔ x ∈ l := by
  classical simp

@[simp] theorem mem_singleton {x y : α} : y ∈ ({x} : FiniteSet α) ↔ y = x := by
  show y ∈ (∅ : FiniteSet α).insert x ↔ _
  rw [ExtTreeSet.mem_insert, Std.compare_eq_iff_eq, eq_comm]
  exact or_iff_left ExtTreeSet.not_mem_empty

instance (s : FiniteSet α) (p : α → Prop) [DecidablePred p] : Decidable (∀ x ∈ s, p x) :=
  decidable_of_iff (∀ x ∈ s.toList, p x) <| by simp only [ExtTreeSet.mem_toList]

/-- The values of `f` on a set. -/
def image (f : α → β) (s : FiniteSet α) : FiniteSet β := .ofList (s.toList.map f)

@[simp] theorem mem_image {f : α → β} {s : FiniteSet α} {y : β} :
    y ∈ s.image f ↔ ∃ x ∈ s, f x = y := by
  simp [image]

/-- The union of the sets that `f` gives on a set. -/
def biUnion (s : FiniteSet α) (f : α → FiniteSet β) : FiniteSet β :=
  .ofList (s.toList.flatMap fun x => (f x).toList)

@[simp] theorem mem_biUnion {s : FiniteSet α} {f : α → FiniteSet β} {y : β} :
    y ∈ s.biUnion f ↔ ∃ x ∈ s, y ∈ f x := by
  simp [biUnion]

end FiniteSet

end VarRenaming
