import VarRenaming.Alternatives.Basic
import VarRenaming.Answer
import VarRenaming.Proofs.FiniteSet.Lexicographic
import VarRenaming.Proofs.Unifier.Rows

/-! # The order of unifiers

Unifiers are compared row by row, so the least source with different targets decides. If only one of
them has it as a source, the other's next row stands against its row
(`FirstDifference.compare_eq_lt_iff`); if both have it, the sets of targets are compared
(`FirstDifference.compare_eq_compare`). In the flat lists of arrows it would be otherwise. -/

namespace VarRenaming

open Std

namespace Unifier

variable {u v : Unifier} {s : Var}

/-! ### The least source with different targets -/

/-- The source has different targets under the two unifiers, where a variable that is not renamed
has none, and no smaller variable has. -/
structure FirstDifference (u v : Unifier) (s : Var) : Prop where
  differ : u.targetsOf s ≠ v.targetsOf s
  below : ∀ r, compare r s = .lt → u.targetsOf r = v.targetsOf r

theorem FirstDifference.symm (h : u.FirstDifference v s) : v.FirstDifference u s where
  differ := h.differ.symm
  below r hr := (h.below r hr).symm

theorem mem_sources_congr {x : Var} (h : u.targetsOf x = v.targetsOf x) :
    x ∈ u.sources ↔ x ∈ v.sources := by
  simp only [mem_sources, ← mem_targetsOf, h]

theorem targetsOf_congr_of_not_mem {x : Var} (hu : x ∉ u.sources) (hv : x ∉ v.sources) :
    u.targetsOf x = v.targetsOf x := by
  refine ExtTreeSet.ext_mem fun t => iff_of_false (fun ht => hu ?_) fun ht => hv ?_
  · exact mem_sources.mpr ⟨t, mem_targetsOf.mp ht⟩
  · exact mem_sources.mpr ⟨t, mem_targetsOf.mp ht⟩

theorem FirstDifference.of_least (h : u.targetsOf s ≠ v.targetsOf s)
    (hu : ∀ r ∈ u.sources, compare r s ≠ .lt) (hv : ∀ r ∈ v.sources, compare r s ≠ .lt) :
    u.FirstDifference v s where
  differ := h
  below r hr := targetsOf_congr_of_not_mem (fun hmem => hu r hmem hr) fun hmem => hv r hmem hr

theorem exists_firstDifference (h : u ≠ v) : ∃ s, u.FirstDifference v s := by
  have hdiffer : ∃ s, u.targetsOf s ≠ v.targetsOf s := by
    by_contra hall
    refine h (ext fun e => ?_)
    rw [← mem_targetsOf (s := e.source), ← mem_targetsOf,
      not_not.mp (not_exists.mp hall e.source)]
  have hlisted : ∀ s, u.targetsOf s ≠ v.targetsOf s → s ∈ u.sources.toList ++ v.sources.toList := by
    intro s hs
    rw [List.mem_append, ExtTreeSet.mem_toList, ExtTreeSet.mem_toList]
    by_contra hno
    obtain ⟨hu, hv⟩ := not_or.mp hno
    exact hs (targetsOf_congr_of_not_mem hu hv)
  obtain ⟨s, hs, hbelow⟩ := FiniteSet.exists_least _ hlisted hdiffer
  exact ⟨s, hs, fun r hr => not_not.mp (hbelow r hr)⟩

/-! ### Rows -/

theorem mem_rows_iff_mem_rows {r : Row} (h : u.targetsOf r.source = v.targetsOf r.source) :
    r ∈ u.rows ↔ r ∈ v.rows := by
  rw [mem_rows, mem_rows, mem_sources_congr h, h]

theorem row_mem_rows (hs : s ∈ u.sources) : ⟨s, u.targetsOf s⟩ ∈ u.rows :=
  mem_rows.mpr ⟨hs, rfl⟩

theorem compare_rows_of_source {r r' : Row} (h : compare r.source r'.source = .lt) :
    compare r r' = .lt := by
  show (compare r.source r'.source).then (compare r.targets r'.targets) = .lt
  rw [h]
  rfl

/-- **A source that the other unifier has not** makes its unifier the smaller one, unless the other
has no greater sources. -/
theorem FirstDifference.compare_eq_lt_iff (h : u.FirstDifference v s) (hu : s ∈ u.sources)
    (hv : s ∉ v.sources) : compare u v = .lt ↔ ∃ r ∈ v.sources, compare s r = .lt := by
  have hrows : compare u.rows v.rows = .lt ↔ ∃ r ∈ v.rows, compare s r.source = .lt := by
    refine FiniteSet.compare_eq_lt_iff_of_missing (fun _ _ => compare_rows_of_source)
      u.orderly_rows.ascending v.orderly_rows.ascending (row_mem_rows hu) (fun r hr => ?_)
      fun r hr => mem_rows_iff_mem_rows (h.below r.source hr)
    rintro rfl
    exact hv (mem_rows.mp hr).1
  refine Iff.trans hrows ⟨?_, ?_⟩
  · rintro ⟨r, hr, hlt⟩
    exact ⟨r.source, (mem_rows.mp hr).1, hlt⟩
  · rintro ⟨r, hr, hlt⟩
    exact ⟨⟨r, v.targetsOf r⟩, row_mem_rows hr, hlt⟩

/-- **A source that both unifiers have** decides by its targets. -/
theorem FirstDifference.compare_eq_compare (h : u.FirstDifference v s) (hu : s ∈ u.sources)
    (hv : s ∈ v.sources) : compare u v = compare (u.targetsOf s) (v.targetsOf s) := by
  have hne : (⟨s, u.targetsOf s⟩ : Row) ≠ ⟨s, v.targetsOf s⟩ := fun heq =>
    h.differ (congrArg Row.targets heq)
  have hrows : compare u.rows v.rows =
      compare (⟨s, u.targetsOf s⟩ : Row) ⟨s, v.targetsOf s⟩ :=
    FiniteSet.compare_eq_compare_of_mem (fun _ _ => compare_rows_of_source)
      u.orderly_rows.ascending v.orderly_rows.ascending (row_mem_rows hu) (row_mem_rows hv) rfl hne
      fun r hr => mem_rows_iff_mem_rows (h.below r.source hr)
  have hs : compare s s = .eq := ReflCmp.compare_self
  calc compare u v = (compare s s).then (compare (u.targetsOf s) (v.targetsOf s)) := hrows
    _ = compare (u.targetsOf s) (v.targetsOf s) := by rw [hs, Ordering.eq_then]

end Unifier

/-! ### All comparisons -/

/-- **The laws of comparison.** Unifiers, sets of alternatives and answers are totally ordered: any
two values are comparable, the order is transitive, and only equal values are equal in it. Two
different unifiers have a least source with different targets. If only the first has it as a source,
the first is the smaller one exactly when the second has a greater source. If both have it, they
are compared as the two sets of targets are; and of these, the set with the least target that only
one of them has is the smaller one exactly when the other set has a greater target. -/
theorem laws_of_comparison :
    TotalOrder Unifier ∧ TotalOrder Alternatives ∧ TotalOrder Answer ∧
    ∀ u v : Unifier, u ≠ v →
      (∃ s, u.FirstDifference v s) ∧
      ∀ s, u.FirstDifference v s →
        (s ∈ u.sources → s ∉ v.sources →
          (compare u v = .lt ↔ ∃ r ∈ v.sources, compare s r = .lt)) ∧
        (s ∈ u.sources → s ∈ v.sources →
          compare u v = compare (u.targetsOf s) (v.targetsOf s) ∧
          (∃ t, FiniteSet.FirstDifference (u.targetsOf s) (v.targetsOf s) t) ∧
          ∀ t, FiniteSet.FirstDifference (u.targetsOf s) (v.targetsOf s) t →
            (t ∈ u.targetsOf s →
              (compare u v = .lt ↔ ∃ x ∈ v.targetsOf s, compare t x = .lt)) ∧
            (t ∈ v.targetsOf s →
              (compare v u = .lt ↔ ∃ x ∈ u.targetsOf s, compare t x = .lt))) := by
  refine ⟨totalOrder Unifier, totalOrder Alternatives, totalOrder Answer, fun u v huv =>
    ⟨Unifier.exists_firstDifference huv, fun s h => ⟨h.compare_eq_lt_iff, fun hu hv => ?_⟩⟩⟩
  refine ⟨h.compare_eq_compare hu hv, FiniteSet.exists_firstDifference h.differ, fun t ht =>
    ⟨fun htu => ?_, fun htv => ?_⟩⟩
  · rw [h.compare_eq_compare hu hv]
    exact ht.compare_eq_lt_iff htu
  · rw [h.symm.compare_eq_compare hv hu]
    exact ht.symm.compare_eq_lt_iff htv

/-- `x` and `y` go to `a`, or `x` alone goes to `a` and `b`: the least source `x` has more targets
under the second unifier, which is therefore the greater one, although its second arrow is smaller
than that of the first. The identity, which has no source at all, is smaller than the first. -/
theorem laws_of_comparison_rows :
    let x : Var := ⟨"x"⟩
    let y : Var := ⟨"y"⟩
    let a : Var := ⟨"a"⟩
    let b : Var := ⟨"b"⟩
    let u : Unifier := .ofList [⟨x, a⟩, ⟨y, a⟩]
    let v : Unifier := .ofList [⟨x, a⟩, ⟨x, b⟩]
    (u ≠ v ∧ u.FirstDifference v x ∧ x ∈ u.sources ∧ x ∈ v.sources ∧
      FiniteSet.FirstDifference (u.targetsOf x) (v.targetsOf x) b ∧ b ∈ v.targetsOf x ∧
      compare u v = .lt ∧ compare v.toList u.toList = .lt) ∧
    (u ≠ .identity ∧ u.FirstDifference .identity x ∧ x ∉ Unifier.identity.sources ∧
      compare Unifier.identity u = .lt) := by
  intro x y a b u v
  have hrows : u ≠ v := by decide +kernel
  have hfirst : u ≠ .identity := by decide +kernel
  have hxu : x ∈ u.sources := by decide +kernel
  have hxv : x ∈ v.sources := by decide +kernel
  have hxi : x ∉ Unifier.identity.sources := by decide +kernel
  have hb : b ∈ v.targetsOf x := by decide +kernel
  have hleast : ∀ r ∈ u.sources, compare r x ≠ .lt := by decide +kernel
  have hdiffer : u.FirstDifference v x :=
    .of_least (by decide +kernel) hleast (by decide +kernel)
  have hidentity : u.FirstDifference .identity x :=
    .of_least (by decide +kernel) hleast (by decide +kernel)
  -- Of the targets of `x` only `b` is not shared.
  have hsub : ∀ t ∈ u.targetsOf x, t ∈ v.targetsOf x := by decide +kernel
  have hsup : ∀ t ∈ v.targetsOf x, compare t b = .lt → t ∈ u.targetsOf x := by decide +kernel
  have htargets : FiniteSet.FirstDifference (u.targetsOf x) (v.targetsOf x) b :=
    ⟨by decide +kernel, fun t ht => ⟨hsub t, fun h => hsup t h ht⟩⟩
  obtain ⟨horder, -, -, hlaws⟩ := laws_of_comparison
  have hvu : compare v u ≠ .lt := by
    have hlast : ∀ t ∈ u.targetsOf x, compare b t ≠ .lt := by decide +kernel
    obtain ⟨-, -, hsets⟩ := ((hlaws u v hrows).2 x hdiffer).2 hxu hxv
    rw [Ne, (hsets b htargets).2 hb]
    rintro ⟨t, ht, hlt⟩
    exact hlast t ht hlt
  have hui : compare u .identity ≠ .lt := by
    have hlast : ∀ r ∈ Unifier.identity.sources, compare x r ≠ .lt := by decide +kernel
    rw [Ne, ((hlaws u .identity hfirst).2 x hidentity).1 hxu hxi]
    rintro ⟨r, hr, hlt⟩
    exact hlast r hr hlt
  exact ⟨⟨hrows, hdiffer, hxu, hxv, htargets, hb, horder.lt_of_ne_of_not_lt hrows hvu,
    by decide +kernel⟩, hfirst, hidentity, hxi, horder.lt_of_ne_of_not_lt hfirst.symm hui⟩

end VarRenaming
