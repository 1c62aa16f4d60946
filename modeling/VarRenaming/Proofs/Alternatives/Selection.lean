import VarRenaming.Proofs.Alternatives.Collection
import VarRenaming.Proofs.Alternatives.Subsumption

/-! # Selected alternatives

What a predicate that keeps a state selects depends on how often it is consulted and in which order.
`Consults` describes a series of consultations, each of which finds the state that the one before it
has left. A selection is one such series (`Consults.filterM`), without any further consultations
(`Consults.filterM_recorded`). -/

namespace VarRenaming.Alternatives

/-! ### Consulting a predicate -/

/-- One consultation of a predicate that keeps a state. -/
structure Consultation (σ : Type) where
  member : Unifier
  before : σ
  verdict : Bool
  after : σ

/-- **A series of consultations** of `p`, from one state to another. -/
inductive Consults {σ : Type} (p : Unifier → StateM σ Bool) : σ → List (Consultation σ) → σ → Prop
  | nil (s) : Consults p s [] s
  | cons {u s b s' cs t} : (p u).run s = (b, s') → Consults p s' cs t →
    Consults p s (⟨u, s, b, s'⟩ :: cs) t

/-- The members about which the verdict was positive. -/
def accepted {σ : Type} (cs : List (Consultation σ)) : List Unifier :=
  (cs.filter (·.verdict)).map (·.member)

/-- The predicate `p` that also keeps a record of its consultations. -/
def recorded {σ : Type} (p : Unifier → StateM σ Bool) (u : Unifier) :
    StateM (σ × List (Consultation σ)) Bool := fun (s, record) =>
  let (b, s') := (p u).run s
  (b, s', record ++ [⟨u, s, b, s'⟩])

variable {σ : Type} {p : Unifier → StateM σ Bool} {s t : σ} {cs : List (Consultation σ)}

theorem run_recorded (u : Unifier) (record : List (Consultation σ)) :
    (recorded p u).run (s, record) = (((p u).run s).1, ((p u).run s).2,
      record ++ [⟨u, s, ((p u).run s).1, ((p u).run s).2⟩]) := rfl

theorem accepted_cons (c : Consultation σ) :
    accepted (c :: cs) = if c.verdict then c.member :: accepted cs else accepted cs := by
  by_cases hc : c.verdict <;> simp [accepted, hc]

theorem exists_consults (p : Unifier → StateM σ Bool) (us : List Unifier) (s : σ) :
    ∃ cs t, Consults p s cs t ∧ cs.map (·.member) = us := by
  induction us generalizing s with
  | nil => exact ⟨[], s, .nil s, rfl⟩
  | cons u us ih =>
    obtain ⟨cs, t, hcs, hus⟩ := ih ((p u).run s).2
    exact ⟨_, t, .cons rfl hcs, congrArg (u :: ·) hus⟩

theorem Consults.threads (h : Consults p s cs t) :
    cs.map (·.before) ++ [t] = s :: cs.map (·.after) := by
  induction h with
  | nil => rfl
  | cons _ _ ih => rw [List.map_cons, List.map_cons, List.cons_append, ih]

/-! ### Selecting -/

theorem run_filterAuxM_cons {τ : Type} (q : Unifier → StateM τ Bool) (u : Unifier)
    (us acc : List Unifier) (r : τ) :
    ((u :: us).filterAuxM q acc).run r =
      (us.filterAuxM q (bif ((q u).run r).1 then u :: acc else acc)).run ((q u).run r).2 := rfl

theorem run_filterM {τ : Type} (q : Unifier → StateM τ Bool) (a : Alternatives) (r : τ) :
    (a.filterM q).run r =
      (ofList ((a.toList.filterAuxM q []).run r).1.reverse, ((a.toList.filterAuxM q []).run r).2) :=
  rfl

-- The list under construction holds what was accepted before, the last first.
theorem Consults.filterAuxM (h : Consults p s cs t) (acc : List Unifier) :
    ((cs.map (·.member)).filterAuxM p acc).run s = ((accepted cs).reverse ++ acc, t) := by
  induction h generalizing acc with
  | nil => rfl
  | @cons u s b s' cs t hp _ ih =>
    rw [List.map_cons, run_filterAuxM_cons, hp, ih, accepted_cons]
    cases b <;> simp

theorem Consults.filterAuxM_recorded (h : Consults p s cs t) (acc : List Unifier)
    (record : List (Consultation σ)) :
    ((cs.map (·.member)).filterAuxM (recorded p) acc).run (s, record) =
      ((accepted cs).reverse ++ acc, (t, record ++ cs)) := by
  induction h generalizing acc record with
  | nil s => rw [List.append_nil]; rfl
  | @cons u s b s' cs t hp _ ih =>
    rw [List.map_cons, run_filterAuxM_cons, run_recorded, hp, ih, accepted_cons]
    cases b <;> simp

variable {a : Alternatives}

/-- **A selection** keeps the alternatives that were accepted, and leaves the last state. -/
theorem Consults.filterM (h : Consults p s cs t) (ha : cs.map (·.member) = a.toList) :
    (a.filterM p).run s = (ofList (accepted cs), t) := by
  rw [run_filterM, ← ha, h.filterAuxM, List.append_nil, List.reverse_reverse]

/-- **The record of a selection** is the series of consultations, without any further ones. -/
theorem Consults.filterM_recorded (h : Consults p s cs t) (ha : cs.map (·.member) = a.toList) :
    (a.filterM (recorded p)).run (s, []) = (ofList (accepted cs), (t, cs)) := by
  rw [run_filterM, ← ha, h.filterAuxM_recorded, List.append_nil, List.reverse_reverse,
    List.nil_append]

theorem toList_accepted (ha : cs.map (·.member) = a.toList) :
    (ofList (accepted cs)).toList = accepted cs := by
  refine toList_eq_iff.mpr ⟨?_, fun u => mem_ofList.symm⟩
  have hsub : (accepted cs).Sublist a.toList := by
    rw [← ha]
    exact List.filter_sublist.map _
  exact a.ascending_toList.sublist hsub

theorem subsumesAll_accepted (ha : cs.map (·.member) = a.toList) :
    a.SubsumesAll (ofList (accepted cs)) := by
  intro u hu
  obtain ⟨c, hc, rfl⟩ := List.mem_map.mp (mem_ofList.mp hu)
  have hmem : c.member ∈ a.toList := by
    rw [← ha]
    exact List.mem_map_of_mem (List.mem_of_mem_filter hc)
  exact subsumes_of_mem (mem_toList.mp hmem)

/-! ### Selecting without a state -/

theorem Consults.of_pure {p : Unifier → Bool}
    (h : Consults (fun u => (pure (p u) : StateM σ Bool)) s cs t) :
    s = t ∧ accepted cs = (cs.map (·.member)).filter p := by
  induction h with
  | nil => exact ⟨rfl, rfl⟩
  | @cons u s b s' cs t hp _ ih =>
    obtain ⟨rfl, rfl⟩ := Prod.mk.inj hp
    rw [accepted_cons, ih.2, List.map_cons, List.filter_cons]
    exact ⟨ih.1, rfl⟩

theorem filterM_pure (p : Unifier → Bool) (a : Alternatives) (s : σ) :
    (a.filterM fun u => (pure (p u) : StateM σ Bool)).run s = (a.filter p, s) := by
  obtain ⟨cs, t, h, ha⟩ := exists_consults (fun u => (pure (p u) : StateM σ Bool)) a.toList s
  obtain ⟨rfl, hcs⟩ := h.of_pure
  rw [h.filterM ha, hcs, ha]
  rfl

theorem disjoint_filter_not (p : Unifier → Bool) (a : Alternatives) :
    (a.filter p).toList.Disjoint (a.filter fun u => !p u).toList := by
  intro u hpos hneg
  have hyes : p u = true := (mem_filter.mp (mem_toList.mp hpos)).2
  have hno : (!p u) = true := (mem_filter.mp (mem_toList.mp hneg)).2
  rw [hyes] at hno
  exact absurd hno (by decide)

theorem ofList_filter_append_filter_not (p : Unifier → Bool) (a : Alternatives) :
    ofList ((a.filter p).toList ++ (a.filter fun u => !p u).toList) = a := by
  ext u
  simp only [mem_ofList, List.mem_append, mem_toList, mem_filter, ← and_or_left]
  cases p u <;> simp

/-- **The laws of selecting.** A selection consults its predicate, which may keep a state, in a series
that runs once through the alternatives in strictly ascending order; the record of a predicate that
keeps one shows this series and nothing more. The selection gives the alternatives about which the
verdict was positive, in the same order, and the last state, and all that it gives is subsumed. If
the predicate keeps no state, the alternatives that it selects and those that its negation selects
have no member in common and make up all alternatives. -/
theorem laws_of_selecting (a : Alternatives) :
    a.toList.Pairwise (compare · · = .lt) ∧
    (∀ (σ : Type) (p : Unifier → StateM σ Bool) (s : σ), ∃ cs t b,
      Consults p s cs t ∧ cs.map (·.member) = a.toList ∧
      cs.map (·.before) ++ [t] = s :: cs.map (·.after) ∧
      (a.filterM p).run s = (b, t) ∧ (a.filterM (recorded p)).run (s, []) = (b, (t, cs)) ∧
      b.toList = (cs.filter (·.verdict)).map (·.member) ∧ a.SubsumesAll b) ∧
    ∀ p : Unifier → Bool,
      (∀ (σ : Type) (s : σ),
        (a.filterM fun u => (pure (p u) : StateM σ Bool)).run s = (a.filter p, s)) ∧
      (a.filter p).toList.Disjoint (a.filter fun u => !p u).toList ∧
      ofList ((a.filter p).toList ++ (a.filter fun u => !p u).toList) = a := by
  refine ⟨a.ascending_toList, fun σ p s => ?_, fun p => ⟨fun σ s => filterM_pure p a s,
    disjoint_filter_not p a, ofList_filter_append_filter_not p a⟩⟩
  obtain ⟨cs, t, h, ha⟩ := exists_consults p a.toList s
  exact ⟨cs, t, _, h, ha, h.threads, h.filterM ha, h.filterM_recorded ha, toList_accepted ha,
    subsumesAll_accepted ha⟩

end VarRenaming.Alternatives
