import VarRenaming.Proofs.Unifier.Reversal
import VarRenaming.Proofs.Unifier.Rows

/-! # Ways to build a unifier

A construction says how a unifier is built. It can be read in three ways, which agree
(`mem_unifier`, `rows_unifier`):

* `unifier` is the unifier that it builds;
* `table` does the same work on rows, where each step comes down to entering arrows into a table;
* `Has` tells which arrows are put in, and knows no order and no repetition. -/

namespace VarRenaming.Unifier

open Std

/-! ### Constructions -/

/-- A way to build a unifier. -/
inductive Construction where
  | nothing
  | insert (c : Construction) (e : Arrow)
  | extend (c : Construction) (es : List Arrow)
  | collect (es : List Arrow)
  | inverse (c : Construction)
  | union (c d : Construction)
  | andThen (c d : Construction)

namespace Construction

/-- The unifier that is built. -/
def unifier : Construction → Unifier
  | nothing => .identity
  | insert c e => (c.unifier.insert e).2
  | extend c es => c.unifier.extend es
  | collect es => .ofList es
  | inverse c => c.unifier.inverse
  | union c d => c.unifier.union d.unifier
  | andThen c d => c.unifier.andThen d.unifier

/-- The table that is built. -/
def table : Construction → Table
  | nothing => []
  | insert c e => (c.table.enter e).2
  | extend c es => c.table.enterAll es
  | collect es => Table.enterAll [] es
  | inverse c => Table.enterAll [] (c.table.arrows.map Arrow.flip)
  | union c d => c.table.enterAll d.table.arrows
  | andThen c d => c.table.andThen d.table

/-- The arrow is put in. -/
def Has : Construction → Arrow → Prop
  | nothing, _ => False
  | insert c d, e => c.Has e ∨ e = d
  | extend c es, e => c.Has e ∨ e ∈ es
  | collect es, e => e ∈ es
  | inverse c, e => c.Has e.flip
  | union c d, e => c.Has e ∨ d.Has e
  | andThen c d, e =>
    (∃ y, c.Has ⟨e.source, y⟩ ∧ d.Has ⟨y, e.target⟩) ∨
      (c.Has e ∧ ¬ ∃ z, d.Has ⟨e.target, z⟩) ∨
      (d.Has e ∧ (¬ ∃ z, c.Has ⟨e.source, z⟩) ∧ ¬ ∃ z, c.Has ⟨z, e.source⟩)

/-- **The arrows of a unifier** are those that were put in. -/
theorem mem_unifier {c : Construction} {e : Arrow} : e ∈ c.unifier ↔ c.Has e := by
  induction c generalizing e with
  | nothing => exact iff_of_false (not_mem_identity e) id
  | insert c d ih => rw [unifier, mem_insert, ih, Has, or_comm]
  | extend c es ih => rw [unifier, mem_extend, ih, Has]
  | collect es => rw [unifier, mem_ofList, Has]
  | inverse c ih => rw [unifier, mem_inverse, ih, Has]
  | union c d ihc ihd => rw [unifier, mem_union, ihc, ihd, Has]
  | andThen c d ihc ihd =>
    obtain ⟨s, t⟩ := e
    rw [unifier, mem_andThen_iff]
    simp only [mem_sources, mem_targets, ihc, ihd, Has]

instance (c : Construction) (e : Arrow) : Decidable (c.Has e) :=
  decidable_of_iff (e ∈ c.unifier) mem_unifier

theorem rows_unifier (c : Construction) : c.unifier.rows = c.table := by
  induction c with
  | nothing => exact rows_identity
  | insert c e ih => rw [unifier, rows_insert, ih, table]
  | extend c es ih => rw [unifier, rows_extend, ih, table]
  | collect es => rw [unifier, rows_ofList, table]
  | inverse c ih => rw [unifier, rows_inverse, ih, table]
  | union c d ihc ihd => rw [unifier, rows_union, ihc, ihd, table]
  | andThen c d ihc ihd => rw [unifier, rows_andThen, ihc, ihd, table]

theorem unifier_eq_iff {c d : Construction} :
    c.unifier = d.unifier ↔ ∀ e, c.Has e ↔ d.Has e := by
  simp only [Unifier.ext_iff, mem_unifier]

theorem table_eq_iff {c d : Construction} : c.table = d.table ↔ ∀ e, c.Has e ↔ d.Has e := by
  rw [← rows_unifier, ← rows_unifier, rows_inj, unifier_eq_iff]

end Construction

/-! ### Insertion -/

variable {u : Unifier} {e : Arrow}

theorem size_insert (h : e ∉ u) : (u.insert e).2.size = u.size + 1 := by
  show (u.arrows.insert e).size = _
  rw [ExtTreeSet.size_insert, if_neg fun hc => h (ExtTreeSet.contains_iff_mem.mp hc)]
  rfl

theorem insert_of_mem (h : e ∈ u) : (u.insert e).2 = u := by
  ext d
  rw [mem_insert, or_iff_right_iff_imp]
  rintro rfl
  exact h

/-! ### Readings -/

/-- What is asked about a unifier is read from a table of its arrows. -/
structure FiledAs (u : Unifier) (t : Table) : Prop where
  orderly : t.Orderly
  rows_eq : u.rows = t
  toList_eq : u.toList = t.arrows
  size_eq : u.size = t.size
  isEmpty_iff : u.isEmpty = true ↔ t = []
  sources_eq : u.sources.toList = t.map Row.source
  row?_eq : ∀ s, t.row? s = if s ∈ u.sources then some ⟨s, u.targetsOf s⟩ else none
  mem_targets_iff : ∀ x, x ∈ u.targets ↔ ∃ r ∈ t, x ∈ r.targets

/-- What is asked about a unifier is read from its ascending list of arrows. -/
structure ReadsAsListed (u : Unifier) : Prop where
  ascending : u.toList.Pairwise fun d e =>
    compare d.source e.source = .lt ∨ d.source = e.source ∧ compare d.target e.target = .lt
  mem_iff : ∀ e, e ∈ u ↔ e ∈ u.toList
  size_eq : u.size = u.toList.length
  isEmpty_iff : u.isEmpty = true ↔ u.toList = []
  nodup_sources : u.sources.toList.Nodup
  mem_sources_toList_iff : ∀ s, s ∈ u.sources.toList ↔ ∃ e ∈ u.toList, e.source = s
  nodup_targets : u.targets.toList.Nodup
  mem_targets_toList_iff : ∀ t, t ∈ u.targets.toList ↔ ∃ e ∈ u.toList, e.target = t
  mem_targetsOf_toList_iff : ∀ s t, t ∈ (u.targetsOf s).toList ↔ ⟨s, t⟩ ∈ u.toList
  mem_sources_iff : ∀ s, s ∈ u.sources ↔ (u.targetsOf s).toList ≠ []
  mem_targets_iff : ∀ t, t ∈ u.targets ↔ ∃ e ∈ u.toList, e.target = t

theorem filedAs_rows (u : Unifier) : u.FiledAs u.rows where
  orderly := u.orderly_rows
  rows_eq := rfl
  toList_eq := u.arrows_rows.symm
  size_eq := u.size_rows.symm
  isEmpty_iff := by rw [isEmpty_iff, rows_eq_nil_iff]
  sources_eq := u.sources_toList
  row?_eq := u.row?_rows
  mem_targets_iff _ := mem_targets_iff_rows

theorem mem_sources_iff_toList {s : Var} : s ∈ u.sources ↔ ∃ e ∈ u.toList, e.source = s := by
  simp only [sources, FiniteSet.mem_image, mem_arrows, mem_toList]

theorem mem_targets_iff_toList {t : Var} : t ∈ u.targets ↔ ∃ e ∈ u.toList, e.target = t := by
  simp only [targets, FiniteSet.mem_image, mem_arrows, mem_toList]

theorem mem_sources_iff_targetsOf {s : Var} : s ∈ u.sources ↔ (u.targetsOf s).toList ≠ [] := by
  simp only [Ne, List.eq_nil_iff_forall_not_mem, not_forall, not_not, mem_sources,
    ExtTreeSet.mem_toList, mem_targetsOf]

theorem readsAsListed (u : Unifier) : u.ReadsAsListed where
  ascending := u.toList_ascending.imp Arrow.compare_eq_lt_iff.mp
  mem_iff _ := mem_toList.symm
  size_eq := u.length_toList.symm
  isEmpty_iff := by
    rw [← List.isEmpty_iff]
    exact (Bool.eq_iff_iff.mp ExtTreeSet.isEmpty_toList).symm
  nodup_sources := FiniteSet.nodup_toList _
  mem_sources_toList_iff _ := ExtTreeSet.mem_toList.trans mem_sources_iff_toList
  nodup_targets := FiniteSet.nodup_toList _
  mem_targets_toList_iff _ := ExtTreeSet.mem_toList.trans mem_targets_iff_toList
  mem_targetsOf_toList_iff _ _ := by rw [ExtTreeSet.mem_toList, mem_targetsOf, mem_toList]
  mem_sources_iff _ := mem_sources_iff_targetsOf
  mem_targets_iff _ := mem_targets_iff_toList

/-- **However a unifier is built**, its rows are orderly and are the table that the same steps build
from rows; all readings of it, from its rows and from its ascending list of arrows, agree; and its
arrows are those that were put in. One more insertion tells whether its arrow is new, and entering
the arrow into the table tells the same and gives the rows of the result: if it is new the unifier
grows by this arrow and no other, and if not it stays as it is. Two unifiers are equal, and
so are their tables, exactly when the same arrows were put in. -/
theorem unifier_of_construction (c : Construction) :
    c.unifier.FiledAs c.table ∧ c.unifier.ReadsAsListed ∧ (∀ e, e ∈ c.unifier ↔ c.Has e) ∧
    (∀ e, ((c.unifier.insert e).1 = true ↔ ¬ c.Has e) ∧
      (c.table.enter e).1 = (c.unifier.insert e).1 ∧
      (c.table.enter e).2 = (c.unifier.insert e).2.rows ∧
      (¬ c.Has e → (c.unifier.insert e).2.size = c.unifier.size + 1 ∧
        ∀ d, d ∈ (c.unifier.insert e).2 ↔ c.Has d ∨ d = e) ∧
      (c.Has e → (c.unifier.insert e).2 = c.unifier)) ∧
    ∀ d : Construction,
      (c.unifier = d.unifier ↔ ∀ e, c.Has e ↔ d.Has e) ∧
      (c.table = d.table ↔ ∀ e, c.Has e ↔ d.Has e) := by
  refine ⟨?_, readsAsListed _, fun e => Construction.mem_unifier, fun e => ?_, fun d =>
    ⟨Construction.unifier_eq_iff, Construction.table_eq_iff⟩⟩
  · rw [← Construction.rows_unifier]
    exact filedAs_rows _
  · simp only [← Construction.mem_unifier]
    refine ⟨insert_fst, ?_, ?_, fun h => ⟨size_insert h, fun d => ?_⟩, insert_of_mem⟩
    · rw [← Construction.rows_unifier, insert_fst_eq]
    · rw [← Construction.rows_unifier, rows_insert]
    · rw [mem_insert, or_comm]

/-- `x` goes to `a` and on to `p` and `q`, and `k` to `r`. The arrow from `x` to `p` is no new one,
and that from `a` to `p` is; the same unifier is collected from a list in another order. -/
theorem unifier_of_construction_chain :
    let x : Var := ⟨"x"⟩
    let a : Var := ⟨"a"⟩
    let p : Var := ⟨"p"⟩
    let q : Var := ⟨"q"⟩
    let k : Var := ⟨"k"⟩
    let r : Var := ⟨"r"⟩
    let c := (Construction.nothing.insert ⟨x, a⟩).andThen
      ((Construction.collect [⟨p, a⟩, ⟨q, a⟩]).inverse.union (.collect [⟨k, r⟩]))
    let d := Construction.collect [⟨x, q⟩, ⟨k, r⟩, ⟨x, p⟩, ⟨x, q⟩]
    (c.Has ⟨x, p⟩ ∧ (c.table.enter ⟨x, p⟩).1 = false ∧ (c.unifier.insert ⟨x, p⟩).2 = c.unifier) ∧
      (¬ c.Has ⟨a, p⟩ ∧ (c.table.enter ⟨a, p⟩).1 = true ∧
        (c.unifier.insert ⟨a, p⟩).2.size = c.unifier.size + 1) ∧
      c.table = d.table := by
  intro x a p q k r c d
  obtain ⟨-, -, -, hinsert, heq⟩ := unifier_of_construction c
  have hxp : c.Has ⟨x, p⟩ := by decide +kernel
  have hap : ¬ c.Has ⟨a, p⟩ := by decide +kernel
  have hcd : c.unifier = d.unifier := by decide +kernel
  obtain ⟨hold, htable, -, -, hsame⟩ := hinsert ⟨x, p⟩
  obtain ⟨hnew, htable', -, hlarger, -⟩ := hinsert ⟨a, p⟩
  refine ⟨⟨hxp, ?_, hsame hxp⟩, ⟨hap, ?_, (hlarger hap).1⟩, (heq d).2.mpr ((heq d).1.mp hcd)⟩
  · rw [htable, Bool.eq_false_iff]
    exact fun htrue => hold.mp htrue hxp
  · rw [htable']
    exact hnew.mpr hap

end VarRenaming.Unifier
