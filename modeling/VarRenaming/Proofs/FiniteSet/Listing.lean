import Mathlib.Data.List.Nodup
import VarRenaming.FiniteSet

/-! # Ascending lists

A finite set is listed in strictly ascending order, so without repetitions, and there is only one
such list for given members (`eq_of_ascending`). Sizes are counted on lists: a map keeps the size of
a set on which it is injective (`size_image`). -/

namespace VarRenaming.FiniteSet

open Std

variable {α β : Type} [Ord α] [TransOrd α] [Ord β] [TransOrd β]

theorem ascending_toList (s : FiniteSet α) : s.toList.Pairwise fun x y => compare x y = .lt :=
  ExtTreeSet.ordered_toList

theorem nodup_of_ascending {l : List α} (h : l.Pairwise fun x y => compare x y = .lt) :
    l.Nodup := by
  refine h.imp fun {x y} hxy heq => ?_
  subst heq
  exact absurd hxy (OrientedCmp.not_lt_of_lt hxy)

theorem nodup_toList (s : FiniteSet α) : s.toList.Nodup :=
  nodup_of_ascending s.ascending_toList

/-- **Ascending lists** with the same members are equal. -/
theorem eq_of_ascending {l l' : List α} (h : l.Pairwise fun x y => compare x y = .lt)
    (h' : l'.Pairwise fun x y => compare x y = .lt) (hmem : ∀ x, x ∈ l ↔ x ∈ l') : l = l' := by
  have hperm : l.Perm l' :=
    (List.perm_ext_iff_of_nodup (nodup_of_ascending h) (nodup_of_ascending h')).mpr hmem
  refine hperm.eq_of_pairwise (fun x y _ _ hxy hyx => ?_) h h'
  exact absurd hyx (OrientedCmp.not_lt_of_lt hxy)

variable [LawfulEqOrd α] [LawfulEqOrd β]

theorem size_ofList {l : List α} (h : l.Nodup) : (.ofList l : FiniteSet α).size = l.length :=
  ExtTreeSet.size_ofList <| h.imp fun hne heq => hne (Std.compare_eq_iff_eq.mp heq)

theorem size_image {f : α → β} {s : FiniteSet α} (hf : ∀ x ∈ s, ∀ y ∈ s, f x = f y → x = y) :
    (s.image f).size = s.size := by
  have hnodup : (s.toList.map f).Nodup := by
    refine List.Nodup.map_on (fun x hx y hy => ?_) s.nodup_toList
    exact hf x (ExtTreeSet.mem_toList.mp hx) y (ExtTreeSet.mem_toList.mp hy)
  rw [image, size_ofList hnodup, List.length_map, ExtTreeSet.length_toList]

end VarRenaming.FiniteSet
