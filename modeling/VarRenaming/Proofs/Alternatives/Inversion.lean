import VarRenaming.Proofs.Alternatives.Reversal
import VarRenaming.Proofs.Unifier.Rows

/-! # Inversion undoes itself

Turning the arrows around tears the rows of a unifier apart and puts them together anew. An orderly
table that is turned around twice is still what it was (`Table.Orderly.inverse_inverse`); hence
inverting a set of alternatives lets none of them collapse (`Alternatives.inverse_inverse`). -/

namespace VarRenaming

open Std

/-! ### Tables -/

namespace Table

/-- The arrows of a table, turned around and entered into a new one. -/
def inverse (t : Table) : Table := enterAll [] (t.arrows.map Arrow.flip)

theorem mem_arrows_inverse {t : Table} {e : Arrow} : e ∈ t.inverse.arrows ↔ e.flip ∈ t.arrows := by
  rw [inverse, mem_arrows_enterAll, arrows_nil, or_iff_right List.not_mem_nil, List.mem_map]
  constructor
  · rintro ⟨d, hd, rfl⟩
    exact hd
  · exact fun he => ⟨e.flip, he, e.flip_flip⟩

theorem orderly_inverse (t : Table) : t.inverse.Orderly := Orderly.nil.enterAll _

theorem Orderly.inverse_inverse {t : Table} (h : t.Orderly) : t.inverse.inverse = t := by
  refine t.inverse.orderly_inverse.ext h fun e => ?_
  rw [mem_arrows_inverse, mem_arrows_inverse, Arrow.flip_flip]

end Table

/-! ### Unifiers -/

namespace Unifier

theorem size_inverse (u : Unifier) : u.inverse.size = u.size := by
  refine FiniteSet.size_image fun d _ e _ h => ?_
  rw [← d.flip_flip, h, e.flip_flip]

theorem sources_inverse (u : Unifier) : u.inverse.sources = u.targets :=
  ExtTreeSet.ext_mem fun _ => mem_sources_inverse

theorem targets_inverse (u : Unifier) : u.inverse.targets = u.sources :=
  ExtTreeSet.ext_mem fun _ => mem_targets_inverse

theorem inverse_union (u v : Unifier) : (u.union v).inverse = u.inverse.union v.inverse := by
  ext e
  simp only [mem_inverse, mem_union]

end Unifier

/-! ### Alternatives -/

namespace Alternatives

variable {a : Alternatives} {u : Unifier}

theorem inverse_mem_inverse : u.inverse ∈ a.inverse ↔ u ∈ a := by
  rw [mem_inverse]
  constructor
  · rintro ⟨v, hv, h⟩
    rw [← Unifier.inverse_inj.mp h]
    exact hv
  · exact fun hu => ⟨u, hu, rfl⟩

theorem inverse_inverse (a : Alternatives) : a.inverse.inverse = a := by
  ext u
  rw [← u.inverse_inverse, inverse_mem_inverse, inverse_mem_inverse, u.inverse_inverse]

/-- **The laws of inversion.** The inverse of a unifier has the arrows of the unifier, each turned
around, and as many of them; sources and targets change places. The inverse of a union is the union
of the inverses, and the inverse of the inverse is the unifier. The same holds row by row, however
many sources share a target: the rows of the inverse are the table of the arrows turned around, and
turned around again this is the table of the rows. Hence alternatives have as many inverses as there
are alternatives, inverting these gives the alternatives back, and a unifier is one of the
alternatives exactly when its inverse is one of the inverses. -/
theorem laws_of_inversion (u v : Unifier) (a : Alternatives) :
    (∀ s t, ⟨t, s⟩ ∈ u.inverse ↔ ⟨s, t⟩ ∈ u) ∧ u.inverse.size = u.size ∧
    (u.inverse.sources = u.targets ∧ u.inverse.targets = u.sources) ∧
    (u.union v).inverse = u.inverse.union v.inverse ∧ u.inverse.inverse = u ∧
    (u.inverse.rows = Table.inverse u.rows ∧ Table.inverse (Table.inverse u.rows) = u.rows) ∧
    a.inverse.size = a.size ∧ a.inverse.inverse = a ∧ (u.inverse ∈ a.inverse ↔ u ∈ a) :=
  ⟨fun _ _ => Unifier.mem_inverse, u.size_inverse, ⟨u.sources_inverse, u.targets_inverse⟩,
    Unifier.inverse_union u v, u.inverse_inverse, ⟨u.rows_inverse, u.orderly_rows.inverse_inverse⟩,
    a.size_inverse, inverse_inverse a, inverse_mem_inverse⟩

/-- A unifier that merges `x` and `y`, and one that keeps them apart, have two inverses. -/
example :
    let u : Unifier := .ofList [⟨⟨"x"⟩, ⟨"a"⟩⟩, ⟨⟨"y"⟩, ⟨"a"⟩⟩]
    let v : Unifier := .ofList [⟨⟨"x"⟩, ⟨"a"⟩⟩, ⟨⟨"y"⟩, ⟨"b"⟩⟩]
    (ofList [u, v]).inverse =
      ofList [.ofList [⟨⟨"a"⟩, ⟨"x"⟩⟩, ⟨⟨"a"⟩, ⟨"y"⟩⟩], .ofList [⟨⟨"a"⟩, ⟨"x"⟩⟩, ⟨⟨"b"⟩, ⟨"y"⟩⟩]] := by
  decide +kernel

end Alternatives

end VarRenaming
