import VarRenaming.Concept
import VarRenaming.Proofs.Supply.Sharing

/-! # Fresh concepts

The counter of a supply of concepts moves on also when a call finds it at zero and gives nothing,
and then the concepts come again (`ConceptSupply.fresh_concepts_come_again`). Fresh concepts
differ for `2 ^ 32` calls, the one that gives nothing included
(`ConceptSupply.fresh_concepts_differ_iff`). -/

namespace VarRenaming

theorem Concept.toOption_ofId_eq_some_iff {id : UInt32} {c : Concept} :
    (ofId id).toOption = some c ↔ c.id = id := by
  obtain ⟨i, hi⟩ := c
  unfold ofId
  split
  · next h => simp [Except.toOption, eq_comm]
  · next h =>
    refine iff_of_false nofun ?_
    rintro rfl
    exact h hi

namespace ConceptSupply

open Supply

variable {κ : Type} {n : Nat}

theorem counts : Counts fresh (fun s => s.next.toNat) (2 ^ 32) where
  count_lt s := s.next.toNat_lt
  count_fresh s := UInt32.toNat_add s.next 1
  count_injective s s' h := by
    obtain ⟨k⟩ := s
    obtain ⟨k'⟩ := s'
    exact congrArg ConceptSupply.mk (UInt32.toNat_inj.mp h)

theorem nodup_concepts_iff :
    ((draws fresh n {}).filterMap Except.toOption).Nodup ↔ n ≤ 2 ^ 32 := by
  refine counts.nodup_filterMap_draws_iff (x := ⟨1, by decide⟩) ?_ rfl
  intro s s' c hs hs'
  obtain ⟨k⟩ := s
  obtain ⟨k'⟩ := s'
  have hk : c.id = k := Concept.toOption_ofId_eq_some_iff.mp hs
  have hk' : c.id = k' := Concept.toOption_ofId_eq_some_iff.mp hs'
  rw [← hk, hk']

/-- The concepts that calls have returned; a call that gave none has returned nothing. -/
def given (log : List (κ × Except Fault Concept)) : List Concept :=
  log.filterMap fun r => r.2.toOption

/-- **Fresh concepts differ** exactly in runs of at most `2 ^ 32` calls, whichever callers share the
supply and however their calls overlap: so long, no two calls have returned the same concept, and when
a longer run is over, two have. Together the callers draw what one caller would. -/
theorem fresh_concepts_differ_iff {m : Moment ConceptSupply κ (Except Fault Concept)}
    (h : Reaches fresh {} m) :
    (m.callers.length ≤ 2 ^ 32 → (given m.returned).Nodup) ∧
    (m.underWay = 0 → ((given m.returned).Nodup ↔ m.callers.length ≤ 2 ^ 32)) ∧
    m.values = (draws fresh m.callers.length {} : List (Except Fault Concept)) := by
  have hiff : (m.values.filterMap Except.toOption).Nodup ↔ m.callers.length ≤ 2 ^ 32 := by
    rw [h.values_eq, Multiset.filterMap_coe, Multiset.coe_nodup, nodup_concepts_iff]
  have hgiven : (given m.returned : Multiset Concept) =
      ((m.returned.map Prod.snd : List (Except Fault Concept)) :
        Multiset (Except Fault Concept)).filterMap Except.toOption := by
    rw [Multiset.filterMap_coe, List.filterMap_map]
    rfl
  refine ⟨fun hlen => ?_, fun hover => ?_, h.values_eq⟩
  · rw [← Multiset.coe_nodup, hgiven]
    exact Multiset.nodup_of_le (Multiset.filterMap_le_filterMap _ m.returned_le) (hiff.mpr hlen)
  · rw [← Multiset.coe_nodup, hgiven, ← m.values_of_finished hover, hiff]

/-- Two callers, of whom the second to draw is the first to return. -/
theorem fresh_concepts_differ_iff_overtaking :
    ∃ m : Moment ConceptSupply Bool (Except Fault Concept), Reaches fresh {} m ∧
      given m.returned = [⟨2, by decide⟩, ⟨1, by decide⟩] ∧ m.underWay = 0 ∧
      (given m.returned).Nodup := by
  let log : List (Bool × Except Fault Concept) :=
    [(true, .ok ⟨2, by decide⟩), (false, .ok ⟨1, by decide⟩)]
  have hm : Reaches fresh {} (⟨⟨3⟩, [false, true], 0, log⟩ : Moment ConceptSupply Bool _) :=
    (((Relation.ReflTransGen.refl.tail (.draw false ..)).tail (.draw true ..)).tail
      (.finish true ..)).tail (.finish false ..)
  exact ⟨_, hm, rfl, rfl, (fresh_concepts_differ_iff hm).1 (by decide)⟩

/-- **Concepts come again**: when one caller has made `2 ^ 32` calls, the next caller gets the concept
that the first of these calls gave. -/
theorem fresh_concepts_come_again :
    ∃ m : Moment ConceptSupply Bool (Except Fault Concept), Reaches fresh {} m ∧
      m.callers = false :: List.replicate (2 ^ 32 - 1) false ++ [true] ∧
      (false, .ok ⟨1, by decide⟩) ∈ m.returned ∧ (true, .ok ⟨1, by decide⟩) ∈ m.returned := by
  obtain ⟨m, hm, hcallers, hfirst, hlast⟩ :=
    exists_reaches_first_last fresh false true (List.replicate (2 ^ 32 - 1) false) {}
  have hround : after fresh (2 ^ 32 - 1 + 1) {} = ({} : ConceptSupply) := counts.after_period {}
  rw [List.length_replicate, hround] at hlast
  exact ⟨m, hm, hcallers, hfirst, hlast⟩

/-! ### Taking several concepts -/

theorem take_zero (s : ConceptSupply) : s.take 0 = (.ok [], s) := by
  rw [take, if_neg (Nat.not_lt_zero _)]
  exact congrArg (Prod.mk _ <| ConceptSupply.mk ·) (UInt32.add_zero s.next)

theorem untilZero_next {s : ConceptSupply} (hs : s.next ≠ 0) :
    s.untilZero = untilZero ⟨s.next + 1⟩ + 1 := by
  have hpos : s.next.toNat ≠ 0 := fun h => hs (UInt32.toNat_inj.mp h)
  have hlt := s.next.toNat_lt
  simp only [untilZero, UInt32.toNat_sub, UInt32.toNat_add, UInt32.toNat_zero, UInt32.toNat_one]
  omega

/-- **Taking** stops at the first call that gives no concept. -/
theorem take_succ (n : Nat) (s : ConceptSupply) :
    s.take (n + 1) =
      match s.fresh with
      | (.error f, s') => (.error f, s')
      | (.ok c, s') => ((s'.take n).1.map (c :: ·), (s'.take n).2) := by
  obtain ⟨x⟩ := s
  by_cases hx : x = 0
  · subst hx
    rfl
  · have hpos : 0 < x := UInt32.pos_iff_ne_zero.mpr hx
    have hfresh : fresh ⟨x⟩ = (.ok ⟨x, hpos⟩, ⟨x + 1⟩) := by
      rw [fresh, Concept.ofId, dif_pos hpos]
    have hleft : untilZero ⟨x⟩ = untilZero ⟨x + 1⟩ + 1 := untilZero_next hx
    simp only [hfresh]
    by_cases hn : untilZero ⟨x + 1⟩ < n
    · rw [take, if_pos (by omega), take, if_pos hn]
      rfl
    · rw [take, if_neg (by omega), take, if_neg hn, draws, hfresh, List.mapM_cons]
      refine Prod.ext ?_ ?_
      · cases (draws fresh n ⟨x + 1⟩).mapM id <;> rfl
      · show (⟨x + .ofNat (n + 1)⟩ : ConceptSupply) = ⟨x + 1 + .ofNat n⟩
        rw [UInt32.ofNat_add, UInt32.add_assoc, UInt32.add_comm 1]
        rfl

-- The call at zero brings the supply back to where it began.
example : ({} : ConceptSupply).take (2 ^ 32) = (.error .idNotPositive, {}) := rfl

end ConceptSupply

end VarRenaming
