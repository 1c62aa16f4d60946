import Mathlib.Algebra.Order.BigOperators.Group.Finset
import Mathlib.Algebra.Order.Ring.Int
import VarRenaming.Proofs.Alternatives.Composition
import VarRenaming.Proofs.Flow.Multiplicity

/-! # One stage in the place of two

Two renaming stages can be fused into one that renames with the product of their alternatives. An
answer that no pair captures has a way through the fused stage exactly if it has one through the two
(`Stage.pathCount_product_ne_zero_iff`), but only one (`Stage.pathCount_product_le`). If no net
amount is negative, ways cannot cancel out (`Stage.net_passAll_ne_zero_iff`). -/

namespace VarRenaming

open Std Change

namespace Stage

/-! ### Net amounts that are not negative -/

section Nonneg

variable {cs : List Change} (hcs : ∀ a, 0 ≤ net cs a) {ss ss' : List Stage} {p : Answer}
include hcs

/-- **What is left behind stages**, if nothing before them counts negatively. -/
theorem net_passAll_ne_zero_iff :
    net (passAll ss cs) p ≠ 0 ↔ ∃ a, net cs a ≠ 0 ∧ pathCount ss a p ≠ 0 := by
  rw [net_passAll ss fun _ => answer_mem_answers]
  have hterm : ∀ a ∈ answers cs, 0 ≤ net cs a * pathCount ss a p := fun a _ =>
    mul_nonneg (hcs a) (Int.natCast_nonneg _)
  constructor
  · intro h
    obtain ⟨a, -, ha⟩ := Finset.exists_ne_zero_of_sum_ne_zero h
    exact ⟨a, left_ne_zero_of_mul ha, Nat.cast_ne_zero.mp (right_ne_zero_of_mul ha)⟩
  · rintro ⟨a, hn, hp⟩ h
    have hzero := (Finset.sum_eq_zero_iff_of_nonneg hterm).mp h a (mem_answers_of_net_ne_zero hn)
    rcases mul_eq_zero.mp hzero with h0 | h0
    · exact hn h0
    · exact hp (Int.natCast_eq_zero.mp h0)

theorem net_passAll_le (h : ∀ a, net cs a ≠ 0 → pathCount ss a p ≤ pathCount ss' a p) :
    net (passAll ss cs) p ≤ net (passAll ss' cs) p := by
  rw [net_passAll ss fun _ => answer_mem_answers, net_passAll ss' fun _ => answer_mem_answers]
  refine Finset.sum_le_sum fun a _ => ?_
  by_cases hn : net cs a = 0
  · rw [hn, zero_mul, zero_mul]
  · exact mul_le_mul_of_nonneg_left (Int.ofNat_le.mpr (h a hn)) (hcs a)

end Nonneg

/-! ### Ways through renaming stages -/

theorem pathCount_cons_ne_zero_iff {s : Stage} {ss : List Stage} {a p : Answer} :
    pathCount (s :: ss) a p ≠ 0 ↔
      ∃ r ∈ s.alternatives.rename a, pathCount ss (s.restrict r) p ≠ 0 := by
  rw [pathCount, Ne, List.sum_eq_zero_iff]
  simp only [List.mem_map, forall_exists_index, and_imp, forall_apply_eq_imp_iff₂,
    ExtTreeSet.mem_toList, not_forall, exists_prop]

variable {m₁ m₂ : Alternatives} {a p : Answer}

theorem pathCount_rename_ne_zero_iff :
    pathCount [⟨m₁, none⟩] a p ≠ 0 ↔ p ∈ m₁.rename a := by
  rw [pathCount_singleton, multiplicity_of_keep_none]
  by_cases h : p ∈ m₁.rename a <;> simp [h]

theorem pathCount_rename_rename_ne_zero_iff :
    pathCount [⟨m₁, none⟩, ⟨m₂, none⟩] a p ≠ 0 ↔ p ∈ (m₁.rename a).biUnion m₂.rename := by
  rw [pathCount_cons_ne_zero_iff, FiniteSet.mem_biUnion]
  exact exists_congr fun r => and_congr_right fun _ => pathCount_rename_ne_zero_iff

section Fusion

variable (h : ∀ u ∈ m₁, ∀ v ∈ m₂, ∀ w c, a.get? w = some c → ¬ u.Captures v w)
include h

theorem pathCount_product_ne_zero_iff :
    pathCount [⟨m₁.product m₂, none⟩] a p ≠ 0 ↔
      pathCount [⟨m₁, none⟩, ⟨m₂, none⟩] a p ≠ 0 := by
  rw [pathCount_rename_ne_zero_iff, pathCount_rename_rename_ne_zero_iff,
    Alternatives.rename_product h]

/-- There is at most one way through the fused stage. -/
theorem pathCount_product_le :
    pathCount [⟨m₁.product m₂, none⟩] a p ≤ pathCount [⟨m₁, none⟩, ⟨m₂, none⟩] a p := by
  by_cases hp : pathCount [⟨m₁.product m₂, none⟩] a p = 0
  · rw [hp]
    exact Nat.zero_le _
  · have hpos := Nat.pos_of_ne_zero ((pathCount_product_ne_zero_iff h).mp hp)
    refine Nat.le_trans ?_ hpos
    rw [pathCount_singleton, multiplicity_of_keep_none]
    split_ifs
    · exact Nat.le_refl 1
    · exact Nat.zero_le 1

end Fusion

end Stage

/-! ### Fused flows -/

namespace Flow

/-- **Fusing two renaming stages.** Let no net amount of the input be negative, and let each of its
answers bind no variable that an alternative of the first stage produces without renaming it and one
of the second renames. Then a flow that renames with the combined alternatives leaves the same
answers as one that renames in two stages, and no greater multiplicity of any of them. -/
theorem fused_stage_leaves (m₁ m₂ m : Alternatives) (s : Settings) (epochs : List (List Change))
    (hm : m₁.andThen m₂ s = .ok m) (hnet : ∀ a, 0 ≤ net epochs.flatten a)
    (hfree : ∀ a, net epochs.flatten a ≠ 0 → ∀ u ∈ m₁, ∀ v ∈ m₂, ∀ w ∈ a.vars,
      w ∈ u.targets → w ∉ u.sources → w ∉ v.sources) :
    (∃ t, (inTurn [⟨m, none⟩]).Leaves epochs 0 t) ∧
    (∃ t', (inTurn [⟨m₁, none⟩, ⟨m₂, none⟩]).Leaves epochs 0 t') ∧
    ∀ t t', (inTurn [⟨m, none⟩]).Leaves epochs 0 t →
      (inTurn [⟨m₁, none⟩, ⟨m₂, none⟩]).Leaves epochs 0 t' →
      (∀ r, r ∈ t.answers ↔ r ∈ t'.answers) ∧ ∀ r, t.count r ≤ t'.count r := by
  obtain rfl := Alternatives.eq_product_of_andThen hm
  have hcap : ∀ a, net epochs.flatten a ≠ 0 → ∀ u ∈ m₁, ∀ v ∈ m₂, ∀ w c, a.get? w = some c →
      ¬ u.Captures v w := by
    intro a ha u hu v hv w c hw
    exact Unifier.not_captures (hfree a ha u hu v hv w (Answer.mem_vars.mpr ⟨c, hw⟩))
  refine ⟨⟨_, leaves_inTurn_iff.mpr rfl⟩, ⟨_, leaves_inTurn_iff.mpr rfl⟩, ?_⟩
  intro t t' ht ht'
  rw [leaves_inTurn_iff.mp ht, leaves_inTurn_iff.mp ht']
  constructor
  · intro r
    rw [Tally.mem_answers_ofList, Tally.mem_answers_ofList, Stage.net_passAll_ne_zero_iff hnet,
      Stage.net_passAll_ne_zero_iff hnet]
    exact exists_congr fun a => and_congr_right fun ha =>
      Stage.pathCount_product_ne_zero_iff (hcap a ha)
  · intro r
    rw [Tally.count_ofList, Tally.count_ofList]
    exact Stage.net_passAll_le hnet fun a ha => Stage.pathCount_product_le (hcap a ha)

/-- Two ways from `x` to `z`, by `p` and by `q`: the two stages leave `z = 1` twice, the fused one
once. -/
theorem fused_stage_leaves_once :
    let x : Var := ⟨"x"⟩
    let p : Var := ⟨"p"⟩
    let q : Var := ⟨"q"⟩
    let z : Var := ⟨"z"⟩
    let one : Concept := ⟨1, by decide⟩
    let m₁ : Alternatives := .ofList [.ofList [⟨x, p⟩], .ofList [⟨x, q⟩]]
    let m₂ : Alternatives := .ofList [.ofList [⟨p, z⟩, ⟨q, z⟩]]
    let m : Alternatives := .ofList [.ofList [⟨x, z⟩, ⟨q, z⟩], .ofList [⟨x, z⟩, ⟨p, z⟩]]
    let a : Answer := .ofBindings [(x, one)]
    let r : Answer := .ofBindings [(z, one)]
    let epochs : List (List Change) := [[⟨a, 2⟩], [⟨a, -1⟩]]
    (m₁.andThen m₂ ⟨2⟩ = .ok m ∧ (∀ b, 0 ≤ net epochs.flatten b) ∧
      ∀ b, net epochs.flatten b ≠ 0 → ∀ u ∈ m₁, ∀ v ∈ m₂, ∀ w ∈ b.vars,
        w ∈ u.targets → w ∉ u.sources → w ∉ v.sources) ∧
    ∃ t t', (inTurn [⟨m, none⟩]).Leaves epochs 0 t ∧
      (inTurn [⟨m₁, none⟩, ⟨m₂, none⟩]).Leaves epochs 0 t' ∧
      ((∀ b, b ∈ t.answers ↔ b ∈ t'.answers) ∧ ∀ b, t.count b ≤ t'.count b) ∧
      t.count r = 1 ∧ t'.count r = 2 := by
  intro x p q z one m₁ m₂ m a r epochs
  have hm : m₁.andThen m₂ ⟨2⟩ = .ok m := by decide +kernel
  have hnet : ∀ b, net epochs.flatten b = if a = b then 1 else 0 := by
    intro b
    have hflat : epochs.flatten = [⟨a, 2⟩, ⟨a, -1⟩] := rfl
    rw [hflat, net_cons, net_cons, net_nil]
    by_cases h : a = b <;> simp [h]
  have hnonneg : ∀ b, 0 ≤ net epochs.flatten b := by
    intro b
    rw [hnet]
    split_ifs <;> decide
  have hfree : ∀ u ∈ m₁, ∀ v ∈ m₂, ∀ w ∈ a.vars,
      w ∈ u.targets → w ∉ u.sources → w ∉ v.sources := by decide +kernel
  have hfree' : ∀ b, net epochs.flatten b ≠ 0 → ∀ u ∈ m₁, ∀ v ∈ m₂, ∀ w ∈ b.vars,
      w ∈ u.targets → w ∉ u.sources → w ∉ v.sources := by
    intro b hb
    rw [hnet] at hb
    obtain rfl : a = b := by
      by_contra h
      exact hb (if_neg h)
    exact hfree
  have ht : (inTurn [⟨m, none⟩]).Leaves epochs 0
      (.ofList (Stage.passAll [⟨m, none⟩] epochs.flatten)) := leaves_inTurn_iff.mpr rfl
  have ht' : (inTurn [⟨m₁, none⟩, ⟨m₂, none⟩]).Leaves epochs 0
      (.ofList (Stage.passAll [⟨m₁, none⟩, ⟨m₂, none⟩] epochs.flatten)) := leaves_inTurn_iff.mpr rfl
  exact ⟨⟨hm, hnonneg, hfree'⟩, _, _, ht, ht',
    (fused_stage_leaves m₁ m₂ m ⟨2⟩ epochs hm hnonneg hfree').2.2 _ _ ht ht',
    by decide +kernel, by decide +kernel⟩

end Flow

end VarRenaming
