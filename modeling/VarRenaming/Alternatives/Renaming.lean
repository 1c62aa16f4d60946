import VarRenaming.Alternatives.Basic
import VarRenaming.Settings.Basic
import VarRenaming.Unifier.Renaming

/-! # Renaming with alternatives

`Alternatives.rename` renames an answer in every way that is free of contradiction.
`Alternatives.andThen` combines every alternative of one set with every alternative of another; how many
pairs there are is bounded by the settings, and the bound is tested before any pair is formed. -/

namespace VarRenaming

open Std

namespace Alternatives

/-- The distinct results of renaming an answer with the alternatives. -/
def rename (a : Alternatives) (x : Answer) : FiniteSet Answer :=
  .ofList (a.toList.filterMap (·.rename? x))

/-- The number of pairs of alternatives, or the greatest 64-bit number if there are more. -/
def pairCount (a b : Alternatives) : UInt64 :=
  .ofNat (min (a.size * b.size) (UInt64.size - 1))

/-- Every alternative of `a` followed by every alternative of `b`. -/
def product (a b : Alternatives) : Alternatives :=
  .ofList (a.toList.flatMap fun u => b.toList.map u.andThen)

/-- The product of `a` and `b`, unless it needs more alternatives than the settings allow. -/
def andThen (a b : Alternatives) (settings : Settings) : Except Refusal Alternatives :=
  if settings.Allows (a.pairCount b) then .ok (a.product b)
  else .error (.overLimit settings.maxAlternatives (a.pairCount b))

@[simp] theorem mem_rename {a : Alternatives} {x y : Answer} :
    y ∈ a.rename x ↔ ∃ u ∈ a, u.rename? x = some y := by
  simp [rename]

@[simp] theorem mem_product {a b : Alternatives} {w : Unifier} :
    w ∈ a.product b ↔ ∃ u ∈ a, ∃ v ∈ b, u.andThen v = w := by
  simp [product]

theorem toNat_pairCount (a b : Alternatives) :
    (a.pairCount b).toNat = min (a.size * b.size) (UInt64.size - 1) := by
  rw [pairCount, UInt64.toNat_ofNat_of_lt']
  exact Nat.lt_of_le_of_lt (Nat.min_le_right ..) (by decide)

end Alternatives

end VarRenaming
