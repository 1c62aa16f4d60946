import VarRenaming.Proofs.FiniteSet.Listing
import VarRenaming.Unifier.Order

/-! # Tables of rows

Arrows are entered into a table one after the other (`Table.enter`). Whatever is entered, the rows
stay *orderly*: they ascend strictly by source, and no row is without a target (`Orderly.enter`).
Then entering tells whether the arrow is new (`Orderly.enter_fst`), and tables with the same arrows
are equal (`Orderly.ext`). -/

namespace VarRenaming

open Std

/-! ### Arrows of rows -/

/-- The arrows of a row, in ascending order. -/
def Row.arrows (r : Row) : List Arrow := r.targets.toList.map (Arrow.mk r.source)

theorem Row.mem_arrows {r : Row} {e : Arrow} :
    e ∈ r.arrows ↔ r.source = e.source ∧ e.target ∈ r.targets := by
  simp only [arrows, List.mem_map, ExtTreeSet.mem_toList]
  constructor
  · rintro ⟨t, ht, rfl⟩
    exact ⟨rfl, ht⟩
  · rintro ⟨hs, ht⟩
    exact ⟨e.target, ht, by rw [hs]⟩

theorem Arrow.compare_eq_lt_iff {d e : Arrow} :
    compare d e = .lt ↔
      compare d.source e.source = .lt ∨ d.source = e.source ∧ compare d.target e.target = .lt := by
  show (compare d.source e.source).then (compare d.target e.target) = .lt ↔ _
  rw [Ordering.then_eq_lt, Std.compare_eq_iff_eq]

/-- A list of rows. -/
abbrev Table := List Row

namespace Table

/-- The arrows of all rows, row by row. -/
def arrows (t : Table) : List Arrow := t.flatMap Row.arrows

theorem mem_arrows {t : Table} {e : Arrow} :
    e ∈ t.arrows ↔ ∃ r ∈ t, r.source = e.source ∧ e.target ∈ r.targets := by
  simp only [arrows, List.mem_flatMap, Row.mem_arrows]

@[simp] theorem arrows_nil : arrows [] = [] := rfl

@[simp] theorem arrows_cons (r : Row) (t : Table) : arrows (r :: t) = r.arrows ++ arrows t := rfl

/-- The number of arrows, counted row by row. -/
def size : Table → Nat
  | [] => 0
  | r :: t => r.targets.size + size t

theorem length_arrows (t : Table) : t.arrows.length = t.size := by
  induction t with
  | nil => rfl
  | cons r t ih =>
    rw [arrows_cons, List.length_append, ih, size, Row.arrows, List.length_map,
      ExtTreeSet.length_toList]

/-! ### Orderly tables -/

/-- The rows ascend strictly by source, and none of them is without a target. -/
structure Orderly (t : Table) : Prop where
  ascending : t.Pairwise fun r r' => compare r.source r'.source = .lt
  nonempty : ∀ r ∈ t, ∃ x, x ∈ r.targets

namespace Orderly

variable {t t' : Table}

theorem nil : Orderly [] := ⟨.nil, fun _ h => absurd h List.not_mem_nil⟩

theorem cons_iff {r : Row} : Orderly (r :: t) ↔
    (∀ r' ∈ t, compare r.source r'.source = .lt) ∧ (∃ x, x ∈ r.targets) ∧ t.Orderly := by
  constructor
  · rintro ⟨hasc, hne⟩
    obtain ⟨hlt, hasc⟩ := List.pairwise_cons.mp hasc
    obtain ⟨hr, hne⟩ := List.forall_mem_cons.mp hne
    exact ⟨hlt, hr, hasc, hne⟩
  · rintro ⟨hlt, hr, hasc, hne⟩
    exact ⟨List.pairwise_cons.mpr ⟨hlt, hasc⟩, List.forall_mem_cons.mpr ⟨hr, hne⟩⟩

theorem eq_of_source_eq (h : t.Orderly) {r r' : Row} (hr : r ∈ t) (hr' : r' ∈ t)
    (hs : r.source = r'.source) : r = r' := by
  have hnodup : (t.map Row.source).Nodup :=
    FiniteSet.nodup_of_ascending (List.pairwise_map.mpr h.ascending)
  exact List.inj_on_of_nodup_map hnodup hr hr' hs

theorem mem_targets_iff (h : t.Orderly) {r : Row} (hr : r ∈ t) {x : Var} :
    x ∈ r.targets ↔ ⟨r.source, x⟩ ∈ t.arrows := by
  rw [mem_arrows]
  constructor
  · exact fun hx => ⟨r, hr, rfl, hx⟩
  · rintro ⟨r', hr', hs, hx⟩
    rw [← h.eq_of_source_eq hr' hr hs]
    exact hx

theorem mem_of_mem (h : t.Orderly) (h' : t'.Orderly) (hmem : ∀ e, e ∈ t.arrows ↔ e ∈ t'.arrows)
    {r : Row} (hr : r ∈ t) : r ∈ t' := by
  obtain ⟨x, hx⟩ := h.nonempty r hr
  have hrx : (⟨r.source, x⟩ : Arrow) ∈ t'.arrows := (hmem _).mp ((h.mem_targets_iff hr).mp hx)
  obtain ⟨r', hr', hs, -⟩ := mem_arrows.mp hrx
  have htargets : r.targets = r'.targets := by
    refine ExtTreeSet.ext_mem fun y => ?_
    rw [h.mem_targets_iff hr, h'.mem_targets_iff hr', hs, hmem]
  obtain ⟨s, ts⟩ := r
  obtain ⟨s', ts'⟩ := r'
  obtain rfl : s' = s := hs
  obtain rfl : ts = ts' := htargets
  exact hr'

/-- **Orderly tables** with the same arrows are equal. -/
theorem ext (h : t.Orderly) (h' : t'.Orderly) (hmem : ∀ e, e ∈ t.arrows ↔ e ∈ t'.arrows) :
    t = t' := by
  have hrow : ∀ r r' : Row, compare r.source r'.source = .lt → compare r r' = .lt := by
    intro r r' hlt
    show (compare r.source r'.source).then (compare r.targets r'.targets) = .lt
    rw [hlt]
    rfl
  refine FiniteSet.eq_of_ascending (h.ascending.imp (hrow _ _)) (h'.ascending.imp (hrow _ _)) ?_
  exact fun r => ⟨h.mem_of_mem h' hmem, h'.mem_of_mem h fun e => (hmem e).symm⟩

theorem ascending_arrows (h : t.Orderly) : t.arrows.Pairwise fun d e => compare d e = .lt := by
  rw [arrows, List.pairwise_flatMap]
  constructor
  · intro r _
    refine List.pairwise_map.mpr (r.targets.ascending_toList.imp fun hlt => ?_)
    exact Arrow.compare_eq_lt_iff.mpr (Or.inr ⟨rfl, hlt⟩)
  · refine h.ascending.imp fun hlt d hd e he => Arrow.compare_eq_lt_iff.mpr (Or.inl ?_)
    rw [← (Row.mem_arrows.mp hd).1, ← (Row.mem_arrows.mp he).1]
    exact hlt

end Orderly

/-! ### Entering -/

/-- Adds a target to a row and tells whether it is new there. -/
def addTarget (r : Row) (x : Var) : Bool × Row := (x ∉ r.targets, ⟨r.source, r.targets.insert x⟩)

/-- Enters an arrow and tells whether it is new. The target is added to the row of the source, which
is put into its place if it is not there yet. -/
def enter : Table → Arrow → Bool × Table
  | [], e =>
    let (isNew, r) := addTarget ⟨e.source, ∅⟩ e.target
    (isNew, [r])
  | r :: t, e =>
    match compare e.source r.source with
    | .lt =>
      let (isNew, r') := addTarget ⟨e.source, ∅⟩ e.target
      (isNew, r' :: r :: t)
    | .eq =>
      let (isNew, r') := addTarget r e.target
      (isNew, r' :: t)
    | .gt =>
      let (isNew, t') := enter t e
      (isNew, r :: t')

/-- Enters the arrows of a list one after the other. -/
def enterAll (t : Table) (es : List Arrow) : Table := es.foldl (fun t e => (t.enter e).2) t

theorem enterAll_cons (t : Table) (e : Arrow) (es : List Arrow) :
    t.enterAll (e :: es) = (t.enter e).2.enterAll es := rfl

theorem addTarget_fst {r : Row} {x : Var} :
    (addTarget r x).1 = true ↔ ⟨r.source, x⟩ ∉ r.arrows := by
  rw [Row.mem_arrows, addTarget, decide_eq_true_iff]
  simp only [true_and]

theorem mem_arrows_addTarget {r : Row} {x : Var} {d : Arrow} :
    d ∈ (addTarget r x).2.arrows ↔ d ∈ r.arrows ∨ d = ⟨r.source, x⟩ := by
  obtain ⟨s, y⟩ := d
  rw [Row.mem_arrows, Row.mem_arrows, addTarget, ExtTreeSet.mem_insert, Std.compare_eq_iff_eq,
    Arrow.mk.injEq, eq_comm (a := x), eq_comm (b := r.source), or_comm, and_or_left]

theorem not_mem_arrows_empty {s : Var} {d : Arrow} : d ∉ (⟨s, ∅⟩ : Row).arrows := by
  rw [Row.mem_arrows]
  exact fun h => ExtTreeSet.not_mem_empty h.2

theorem mem_arrows_enter {t : Table} {d e : Arrow} :
    d ∈ (t.enter e).2.arrows ↔ d ∈ t.arrows ∨ d = e := by
  induction t with
  | nil =>
    simp only [enter, arrows_cons, List.mem_append, mem_arrows_addTarget, not_mem_arrows_empty,
      false_or, or_comm]
  | cons r t ih =>
    rw [enter]
    split
    · simp only [arrows_cons, List.mem_append, mem_arrows_addTarget, not_mem_arrows_empty,
        false_or, or_comm]
    · next heq =>
      have he : (⟨r.source, e.target⟩ : Arrow) = e := by rw [← Std.compare_eq_iff_eq.mp heq]
      simp only [arrows_cons, List.mem_append, mem_arrows_addTarget, he, or_right_comm]
    · simp only [arrows_cons, List.mem_append, ih, or_assoc]

theorem mem_arrows_enterAll {t : Table} {es : List Arrow} {d : Arrow} :
    d ∈ (t.enterAll es).arrows ↔ d ∈ t.arrows ∨ d ∈ es := by
  induction es generalizing t with
  | nil => simp only [enterAll, List.foldl_nil, List.not_mem_nil, or_false]
  | cons e es ih =>
    rw [enterAll_cons, ih, mem_arrows_enter, List.mem_cons, or_assoc]

theorem source_of_mem_enter {t : Table} {e : Arrow} {r : Row} (h : r ∈ (t.enter e).2) :
    r.source = e.source ∨ ∃ r' ∈ t, r'.source = r.source := by
  induction t with
  | nil => exact Or.inl (by rw [List.mem_singleton.mp h])
  | cons r' t ih =>
    rw [enter] at h
    split at h <;> rcases List.mem_cons.mp h with rfl | h
    · exact Or.inl rfl
    · exact Or.inr ⟨r, h, rfl⟩
    · exact Or.inr ⟨r', List.mem_cons_self, rfl⟩
    · exact Or.inr ⟨r, List.mem_cons_of_mem _ h, rfl⟩
    · exact Or.inr ⟨r, List.mem_cons_self, rfl⟩
    · rcases ih h with hs | ⟨r'', hr'', hs⟩
      · exact Or.inl hs
      · exact Or.inr ⟨r'', List.mem_cons_of_mem _ hr'', hs⟩

theorem exists_mem_addTarget (r : Row) (x : Var) : ∃ y, y ∈ (addTarget r x).2.targets :=
  ⟨x, ExtTreeSet.mem_insert_self⟩

/-- **Entering an arrow** keeps a table orderly. -/
theorem Orderly.enter {t : Table} (h : t.Orderly) (e : Arrow) : (t.enter e).2.Orderly := by
  induction t with
  | nil =>
    exact cons_iff.mpr ⟨fun _ h => absurd h List.not_mem_nil, exists_mem_addTarget _ _, .nil⟩
  | cons r t ih =>
    obtain ⟨hlt, hr, ht⟩ := cons_iff.mp h
    rw [Table.enter]
    split
    · next hes =>
      refine cons_iff.mpr ⟨List.forall_mem_cons.mpr ⟨hes, fun r' hr' => ?_⟩,
        exists_mem_addTarget _ _, h⟩
      exact TransCmp.lt_trans hes (hlt r' hr')
    · exact cons_iff.mpr ⟨hlt, exists_mem_addTarget _ _, ht⟩
    · next hes =>
      refine cons_iff.mpr ⟨fun r' hr' => ?_, hr, ih ht⟩
      rcases source_of_mem_enter hr' with hs | ⟨r'', hr'', hs⟩
      · rw [hs]
        exact OrientedCmp.lt_of_gt hes
      · rw [← hs]
        exact hlt r'' hr''

theorem not_mem_arrows_of_lt {t : Table} {e : Arrow}
    (h : ∀ r ∈ t, compare e.source r.source = .lt) : e ∉ t.arrows := by
  intro he
  obtain ⟨r, hr, hs, -⟩ := mem_arrows.mp he
  have hlt := h r hr
  rw [hs, Std.compare_self] at hlt
  cases hlt

theorem addTarget_empty_fst (s x : Var) : (addTarget ⟨s, ∅⟩ x).1 = true :=
  addTarget_fst.mpr not_mem_arrows_empty

/-- **Entering an arrow into an orderly table** tells whether the table does not have it yet. -/
theorem Orderly.enter_fst {t : Table} (h : t.Orderly) {e : Arrow} :
    (t.enter e).1 = true ↔ e ∉ t.arrows := by
  induction t with
  | nil => exact iff_of_true (addTarget_empty_fst _ _) List.not_mem_nil
  | cons r t ih =>
    obtain ⟨hlt, -, ht⟩ := cons_iff.mp h
    rw [Table.enter]
    split
    · next hes =>
      have hall : ∀ r' ∈ r :: t, compare e.source r'.source = .lt :=
        List.forall_mem_cons.mpr ⟨hes, fun r' hr' => TransCmp.lt_trans hes (hlt r' hr')⟩
      exact iff_of_true (addTarget_empty_fst e.source e.target) (not_mem_arrows_of_lt hall)
    · next hes =>
      have hs : e.source = r.source := Std.compare_eq_iff_eq.mp hes
      have he : (⟨r.source, e.target⟩ : Arrow) = e := by rw [← hs]
      have hlater : e ∉ arrows t := not_mem_arrows_of_lt fun r' hr' => hs ▸ hlt r' hr'
      rw [arrows_cons, List.mem_append, not_or, addTarget_fst, he]
      exact (and_iff_left hlater).symm
    · next hes =>
      have hrow : e ∉ r.arrows := by
        intro he
        rw [(Row.mem_arrows.mp he).1, Std.compare_self] at hes
        cases hes
      rw [arrows_cons, List.mem_append, not_or, ih ht]
      exact (and_iff_right hrow).symm

theorem Orderly.enterAll {t : Table} (h : t.Orderly) (es : List Arrow) :
    (t.enterAll es).Orderly := by
  induction es generalizing t with
  | nil => exact h
  | cons e es ih => exact ih (h.enter e)

end Table

end VarRenaming
