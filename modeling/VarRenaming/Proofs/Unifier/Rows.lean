import VarRenaming.Proofs.Unifier.Composition
import VarRenaming.Proofs.Unifier.Table

/-! # The rows of a unifier

The rows of a unifier are the orderly table of its arrows (`rows_eq`). Inserting an arrow into the
unifier enters it into the rows (`rows_insert`, `insert_fst_eq`), and what is asked about a unifier
can be read from its rows: its list of arrows (`arrows_rows`), its size (`size_rows`), its sources
and the targets of each (`row?_rows`), and its composition with another (`rows_andThen`). -/

namespace VarRenaming

open Std

namespace Table

/-- The row of a source. -/
def row? (t : Table) (s : Var) : Option Row := t.find? fun r => r.source = s

/-- What a variable becomes: the targets in its row, or itself if it has none. -/
def images (t : Table) (v : Var) : List Var :=
  match t.row? v with
  | some r => r.targets.toList
  | none => [v]

/-- The table of a renaming by `t`, then by `t'`. -/
def andThen (t t' : Table) : Table :=
  enterAll [] <|
    (t.arrows.flatMap fun e => (t'.images e.target).map (Arrow.mk e.source)) ++
      t'.arrows.filter fun e => (t.row? e.source).isNone ∧ ∀ r ∈ t, e.source ∉ r.targets

theorem of_row?_eq_some {t : Table} {s : Var} {r : Row} (h : t.row? s = some r) :
    r ∈ t ∧ r.source = s := by
  have hs := List.find?_some h
  exact ⟨List.mem_of_find?_eq_some h, of_decide_eq_true hs⟩

theorem Orderly.row?_eq_some_iff {t : Table} (h : t.Orderly) {s : Var} {r : Row} :
    t.row? s = some r ↔ r ∈ t ∧ r.source = s := by
  refine ⟨of_row?_eq_some, ?_⟩
  rintro ⟨hr, rfl⟩
  cases hrow : t.row? r.source with
  | none => exact absurd (decide_eq_true rfl) (List.find?_eq_none.mp hrow r hr)
  | some r' =>
    obtain ⟨hr', hs⟩ := of_row?_eq_some hrow
    rw [h.eq_of_source_eq hr' hr hs]

end Table

namespace Unifier

variable {u v : Unifier}

/-! ### The table of the arrows -/

theorem mem_rows {r : Row} :
    r ∈ u.rows ↔ r.source ∈ u.sources ∧ r.targets = u.targetsOf r.source := by
  simp only [rows, List.mem_map, ExtTreeSet.mem_toList]
  constructor
  · rintro ⟨s, hs, rfl⟩
    exact ⟨hs, rfl⟩
  · rintro ⟨hs, ht⟩
    exact ⟨_, hs, by rw [← ht]⟩

theorem orderly_rows (u : Unifier) : Table.Orderly u.rows where
  ascending := List.pairwise_map.mpr u.sources.ascending_toList
  nonempty r hr := by
    obtain ⟨hs, ht⟩ := mem_rows.mp hr
    obtain ⟨x, hx⟩ := mem_sources.mp hs
    exact ⟨x, by rw [ht]; exact mem_targetsOf.mpr hx⟩

theorem mem_arrows_rows {e : Arrow} : e ∈ Table.arrows u.rows ↔ e ∈ u := by
  rw [Table.mem_arrows, mem_iff_rows]

/-- **The rows of a unifier** are the orderly table of its arrows. -/
theorem rows_eq {t : Table} (h : t.Orderly) (hmem : ∀ e, e ∈ t.arrows ↔ e ∈ u) : u.rows = t :=
  u.orderly_rows.ext h fun e => mem_arrows_rows.trans (hmem e).symm

theorem rows_inj : u.rows = v.rows ↔ u = v := by
  constructor
  · intro h
    ext e
    rw [← mem_arrows_rows, h, mem_arrows_rows]
  · rintro rfl
    rfl

theorem rows_identity : identity.rows = [] :=
  rows_eq .nil fun e => by simp only [Table.arrows_nil, List.not_mem_nil, not_mem_identity]

theorem rows_insert (e : Arrow) : (u.insert e).2.rows = (Table.enter u.rows e).2 :=
  rows_eq (u.orderly_rows.enter e) fun d => by
    rw [Table.mem_arrows_enter, mem_arrows_rows, mem_insert, or_comm]

theorem insert_fst {e : Arrow} : (u.insert e).1 = true ↔ e ∉ u := decide_eq_true_iff

/-- **Inserting an arrow** tells what entering it into the rows tells. -/
theorem insert_fst_eq (e : Arrow) : (u.insert e).1 = (Table.enter u.rows e).1 := by
  rw [Bool.eq_iff_iff, u.orderly_rows.enter_fst, mem_arrows_rows, insert_fst]

theorem rows_extend (es : List Arrow) : (u.extend es).rows = Table.enterAll u.rows es :=
  rows_eq (u.orderly_rows.enterAll es) fun d => by
    rw [Table.mem_arrows_enterAll, mem_arrows_rows, mem_extend]

theorem rows_ofList (es : List Arrow) : (ofList es).rows = Table.enterAll [] es :=
  rows_eq (Table.Orderly.nil.enterAll es) fun d => by
    rw [Table.mem_arrows_enterAll, Table.arrows_nil, mem_ofList, or_iff_right List.not_mem_nil]

/-! ### Reading from the rows -/

theorem toList_ascending (u : Unifier) : u.toList.Pairwise fun d e => compare d e = .lt :=
  FiniteSet.ascending_toList u.arrows

theorem arrows_rows (u : Unifier) : Table.arrows u.rows = u.toList :=
  FiniteSet.eq_of_ascending u.orderly_rows.ascending_arrows u.toList_ascending fun e => by
    rw [mem_arrows_rows, mem_toList]

theorem length_toList (u : Unifier) : u.toList.length = u.size := ExtTreeSet.length_toList

theorem size_rows (u : Unifier) : Table.size u.rows = u.size := by
  rw [← Table.length_arrows, arrows_rows, length_toList]

theorem sources_toList (u : Unifier) : u.sources.toList = u.rows.map Row.source := by
  rw [rows, List.map_map]
  exact (List.map_id _).symm

theorem rows_eq_nil_iff : u.rows = [] ↔ u = identity := by
  rw [← rows_identity, rows_inj]

theorem row?_rows (u : Unifier) (s : Var) :
    Table.row? u.rows s = if s ∈ u.sources then some ⟨s, u.targetsOf s⟩ else none := by
  split
  · next hs => exact u.orderly_rows.row?_eq_some_iff.mpr ⟨mem_rows.mpr ⟨hs, rfl⟩, rfl⟩
  · next hs =>
    refine Option.eq_none_iff_forall_ne_some.mpr fun r hrow => ?_
    obtain ⟨hr, rfl⟩ := Table.of_row?_eq_some hrow
    exact hs (mem_rows.mp hr).1

theorem mem_targets_iff_rows {t : Var} : t ∈ u.targets ↔ ∃ r ∈ u.rows, t ∈ r.targets := by
  simp only [mem_targets, mem_iff_rows]
  constructor
  · rintro ⟨s, r, hr, -, ht⟩
    exact ⟨r, hr, ht⟩
  · rintro ⟨r, hr, ht⟩
    exact ⟨r.source, r, hr, rfl, ht⟩

/-! ### Operations on the rows -/

theorem rows_inverse (u : Unifier) :
    u.inverse.rows = Table.enterAll [] ((Table.arrows u.rows).map Arrow.flip) := by
  rw [← rows_ofList, arrows_rows]
  rfl

theorem rows_union (u v : Unifier) :
    (u.union v).rows = Table.enterAll u.rows (Table.arrows v.rows) := by
  rw [← rows_extend, arrows_rows, rows_inj]
  ext e
  rw [mem_union, mem_extend, mem_toList]

theorem images_rows (u : Unifier) (x : Var) : Table.images u.rows x = u.images x := by
  rw [Table.images, row?_rows, images]
  by_cases h : x ∈ u.sources
  · rw [if_pos h, if_pos h]
  · rw [if_neg h, if_neg h]

theorem rows_andThen (u v : Unifier) : (u.andThen v).rows = Table.andThen u.rows v.rows := by
  have hkept : ∀ e : Arrow,
      ((Table.row? u.rows e.source).isNone ∧ ∀ r ∈ u.rows, e.source ∉ r.targets) ↔
        e.source ∉ u.sources ∧ e.source ∉ u.targets := by
    intro e
    rw [row?_rows, mem_targets_iff_rows, not_exists]
    simp only [not_and]
    refine and_congr_left fun _ => ?_
    split <;> simp [*]
  rw [andThen, rows_ofList, Table.andThen, arrows_rows, arrows_rows]
  simp only [images_rows, hkept]

/-! ### What a composition is made of -/

/-- **The arrows of a composition** are the chains of an arrow of `u` and one of `v`, the arrows of
`u` whose targets `v` does not rename, and the arrows of `v` whose sources `u` neither renames nor
produces. So its sources are those of `u` and those of `v` that `u` does not produce, and every
source of `u` keeps a target. The table that is filled from the rows of `u` and then of `v` says the
same: the row of a source has the targets of the composition, and there are no other rows. -/
theorem arrows_of_composition (u v : Unifier) :
    (∀ s t, ⟨s, t⟩ ∈ u.andThen v ↔
      (∃ y, ⟨s, y⟩ ∈ u ∧ ⟨y, t⟩ ∈ v) ∨ (⟨s, t⟩ ∈ u ∧ t ∉ v.sources) ∨
        (⟨s, t⟩ ∈ v ∧ s ∉ u.sources ∧ s ∉ u.targets)) ∧
    (∀ s, s ∈ (u.andThen v).sources ↔ s ∈ u.sources ∨ s ∈ v.sources ∧ s ∉ u.targets) ∧
    (∀ s ∈ u.sources, ∃ t, ⟨s, t⟩ ∈ u.andThen v) ∧
    ∀ s, (Table.andThen u.rows v.rows).row? s =
      if s ∈ u.sources ∨ s ∈ v.sources ∧ s ∉ u.targets then
        some ⟨s, (u.andThen v).targetsOf s⟩ else none := by
  refine ⟨fun s t => mem_andThen_iff, fun s => mem_sources_andThen, fun s hs => ?_, fun s => ?_⟩
  · have hkept : s ∈ (u.andThen v).sources := mem_sources_andThen.mpr (Or.inl hs)
    exact mem_sources.mp hkept
  · rw [← rows_andThen, row?_rows]
    simp only [mem_sources_andThen]

/-- `x` is renamed to itself and to `y`, and `y` to `x`; behind this, `y` fans out to `p` and `q`.
Both `x` and `y` keep targets, `y` itself is not renamed to `p` or `q`, and the arrow of `z` is kept.
-/
theorem arrows_of_composition_cycle :
    let x : Var := ⟨"x"⟩
    let y : Var := ⟨"y"⟩
    let z : Var := ⟨"z"⟩
    let p : Var := ⟨"p"⟩
    let q : Var := ⟨"q"⟩
    let u : Unifier := .ofList [⟨x, x⟩, ⟨x, y⟩, ⟨y, x⟩]
    let v : Unifier := .ofList [⟨y, p⟩, ⟨y, q⟩, ⟨z, p⟩]
    (x ∈ u.sources ∧ ∃ t, ⟨x, t⟩ ∈ u.andThen v) ∧ (y ∈ u.sources ∧ ∃ t, ⟨y, t⟩ ∈ u.andThen v) ∧
      u.andThen v = .ofList [⟨x, x⟩, ⟨x, p⟩, ⟨x, q⟩, ⟨y, x⟩, ⟨z, p⟩] := by
  intro x y z p q u v
  have hx : x ∈ u.sources := by decide +kernel
  have hy : y ∈ u.sources := by decide +kernel
  obtain ⟨-, -, hkept, -⟩ := arrows_of_composition u v
  exact ⟨⟨hx, hkept x hx⟩, ⟨hy, hkept y hy⟩, by decide +kernel⟩

end Unifier

end VarRenaming
