import VarRenaming.Proofs.Unifier.Rows

/-! # Inclusion and union

Unifiers are partially ordered by inclusion, and the union of two is the least one that includes
both (`union_subset_iff`). On rows, inclusion is tested by looking up each source in the other table
(`Table.Orderly.within_iff`); a row without targets would spoil the test. -/

namespace VarRenaming

/-! ### Tables -/

namespace Table

variable {t t' : Table}

/-- The row of each source has all its targets in the row that the other table has for it. -/
def Within (t t' : Table) : Prop :=
  ∀ r ∈ t, ∃ r' ∈ t'.row? r.source, ∀ x ∈ r.targets, x ∈ r'.targets

instance (t t' : Table) : Decidable (t.Within t') :=
  inferInstanceAs (Decidable (∀ r ∈ t, ∃ r' ∈ t'.row? r.source, ∀ x ∈ r.targets, x ∈ r'.targets))

theorem Within.mem_arrows (h : t.Within t') {e : Arrow} (he : e ∈ t.arrows) : e ∈ t'.arrows := by
  obtain ⟨r, hr, hs, hx⟩ := Table.mem_arrows.mp he
  obtain ⟨r', hrow, hsub⟩ := h r hr
  obtain ⟨hr', hs'⟩ := of_row?_eq_some hrow
  exact Table.mem_arrows.mpr ⟨r', hr', hs'.trans hs, hsub _ hx⟩

/-- **The test row by row** tells, of orderly tables, whether all arrows are in the other. -/
theorem Orderly.within_iff (h : t.Orderly) (h' : t'.Orderly) :
    t.Within t' ↔ ∀ e ∈ t.arrows, e ∈ t'.arrows := by
  refine ⟨fun hw e => hw.mem_arrows, fun hsub r hr => ?_⟩
  have hmem : ∀ x ∈ r.targets, ⟨r.source, x⟩ ∈ t'.arrows := fun x hx =>
    hsub _ ((h.mem_targets_iff hr).mp hx)
  -- some arrow of the row leads to the row of its source in the other table
  obtain ⟨x, hx⟩ := h.nonempty r hr
  obtain ⟨r', hr', hs, -⟩ := Table.mem_arrows.mp (hmem x hx)
  refine ⟨r', h'.row?_eq_some_iff.mpr ⟨hr', hs⟩, fun y hy => ?_⟩
  rw [h'.mem_targets_iff hr', hs]
  exact hmem y hy

theorem Orderly.within_antisymm (h : t.Orderly) (h' : t'.Orderly) (hw : t.Within t')
    (hw' : t'.Within t) : t = t' :=
  h.ext h' fun _ => ⟨hw.mem_arrows, hw'.mem_arrows⟩

/-- A table with a row without targets is not within the empty table, which has the same arrows. -/
example :
    let t : Table := [⟨⟨"x"⟩, ∅⟩]
    ¬ t.Within [] ∧ t.arrows = [] := by
  decide +kernel

end Table

/-! ### Unifiers -/

namespace Unifier

variable {u v w : Unifier}

/-! #### Inclusion -/

theorem within_rows_iff : Table.Within u.rows v.rows ↔ u ⊆ v := by
  rw [u.orderly_rows.within_iff v.orderly_rows]
  simp only [mem_arrows_rows]
  exact Iff.rfl

theorem subset_iff_rows :
    u ⊆ v ↔ ∀ r ∈ u.rows, ∃ r' ∈ v.rows,
      r'.source = r.source ∧ ∀ t ∈ r.targets, t ∈ r'.targets := by
  rw [← within_rows_iff, Table.Within]
  simp only [Option.mem_def, v.orderly_rows.row?_eq_some_iff, and_assoc]

theorem subset_refl (u : Unifier) : u ⊆ u := fun _ h => h

theorem subset_trans (huv : u ⊆ v) (hvw : v ⊆ w) : u ⊆ w := fun e he => hvw e (huv e he)

theorem subset_antisymm (huv : u ⊆ v) (hvu : v ⊆ u) : u = v :=
  ext fun e => ⟨huv e, hvu e⟩

theorem identity_subset (u : Unifier) : identity ⊆ u := fun e he => absurd he (not_mem_identity e)

theorem eq_of_forall_subset_iff (h : ∀ w, u ⊆ w ↔ v ⊆ w) : u = v :=
  subset_antisymm ((h v).mpr v.subset_refl) ((h u).mp u.subset_refl)

/-! #### Union -/

theorem union_subset_iff : u.union v ⊆ w ↔ u ⊆ w ∧ v ⊆ w := by
  constructor
  · intro h
    exact ⟨fun e he => h e (mem_union.mpr (Or.inl he)), fun e he => h e (mem_union.mpr (Or.inr he))⟩
  · rintro ⟨hu, hv⟩ e he
    rcases mem_union.mp he with he | he
    · exact hu e he
    · exact hv e he

theorem union_comm (u v : Unifier) : u.union v = v.union u :=
  eq_of_forall_subset_iff fun w => by rw [union_subset_iff, union_subset_iff, and_comm]

theorem union_assoc (u v w : Unifier) : (u.union v).union w = u.union (v.union w) :=
  eq_of_forall_subset_iff fun x => by simp only [union_subset_iff, and_assoc]

theorem union_self (u : Unifier) : u.union u = u :=
  eq_of_forall_subset_iff fun w => by rw [union_subset_iff, and_self_iff]

/-- **The laws of inclusion and union.** A unifier includes another exactly when it has every arrow
of the other, and exactly when each row of the other has all its targets in the row of its source.
Inclusion is reflexive and transitive, unifiers that include each other are equal, in their rows
too, and the identity is included in each of them. A third unifier includes a union exactly when it
includes both its parts, and the rows of the union are what the rows of the first part become when
the arrows of the second are entered. So union is associative, commutative and idempotent. -/
theorem laws_of_union (u v w : Unifier) :
    ((v ⊆ u ↔ ∀ s t, ⟨s, t⟩ ∈ v → ⟨s, t⟩ ∈ u) ∧
      (Table.Within v.rows u.rows ↔ ∀ s t, ⟨s, t⟩ ∈ v → ⟨s, t⟩ ∈ u)) ∧
    (u ⊆ u ∧ (u ⊆ v → v ⊆ w → u ⊆ w) ∧ (u ⊆ v → v ⊆ u → u = v ∧ u.rows = v.rows) ∧
      identity ⊆ u) ∧
    ((u.union v ⊆ w ↔ u ⊆ w ∧ v ⊆ w) ∧
      (u.union v).rows = Table.enterAll u.rows (Table.arrows v.rows)) ∧
    (u.union v).union w = u.union (v.union w) ∧ u.union v = v.union u ∧ u.union u = u := by
  have hsub : v ⊆ u ↔ ∀ s t, ⟨s, t⟩ ∈ v → ⟨s, t⟩ ∈ u :=
    ⟨fun h s t => h ⟨s, t⟩, fun h e => h e.source e.target⟩
  have hanti : u ⊆ v → v ⊆ u → u = v ∧ u.rows = v.rows := by
    intro huv hvu
    have hrows : u.rows = v.rows := u.orderly_rows.within_antisymm v.orderly_rows
      (within_rows_iff.mpr huv) (within_rows_iff.mpr hvu)
    exact ⟨rows_inj.mp hrows, hrows⟩
  exact ⟨⟨hsub, within_rows_iff.trans hsub⟩,
    ⟨u.subset_refl, subset_trans, hanti, u.identity_subset⟩, ⟨union_subset_iff, rows_union u v⟩,
    union_assoc u v w, union_comm u v, union_self u⟩

/-- Two lists of the same arrows, one of them with a repetition, and a unifier that sends `x` to a
second target as well. -/
theorem laws_of_union_repetition :
    let x : Var := ⟨"x"⟩
    let y : Var := ⟨"y"⟩
    let p : Var := ⟨"p"⟩
    let q : Var := ⟨"q"⟩
    let u : Unifier := .ofList [⟨x, p⟩, ⟨y, q⟩]
    let v : Unifier := .ofList [⟨y, q⟩, ⟨x, p⟩, ⟨y, q⟩]
    let w : Unifier := .ofList [⟨x, p⟩, ⟨x, q⟩, ⟨y, q⟩]
    (u ⊆ v ∧ v ⊆ u ∧ u = v ∧ u.rows = v.rows) ∧ (v ⊆ w ∧ u ⊆ w) ∧
      u.union v ⊆ w ∧ ¬ Table.Within w.rows v.rows := by
  intro x y p q u v w
  have huv : u ⊆ v := by decide +kernel
  have hvu : v ⊆ u := by decide +kernel
  have hvw : v ⊆ w := by decide +kernel
  have hwv : ¬ w ⊆ v := by decide +kernel
  obtain ⟨-, ⟨-, htrans, hanti, -⟩, ⟨hlub, -⟩, -⟩ := laws_of_union u v w
  obtain ⟨⟨hsub, hrows⟩, -⟩ := laws_of_union v w u
  have huw : u ⊆ w := htrans huv hvw
  exact ⟨⟨huv, hvu, hanti huv hvu⟩, ⟨hvw, huw⟩, hlub.mpr ⟨huw, hvw⟩,
    fun h => hwv (hsub.mpr (hrows.mp h))⟩

end Unifier

end VarRenaming
