import Mathlib.Algebra.BigOperators.Group.Finset.Piecewise
import Mathlib.Algebra.BigOperators.Ring.Finset
import VarRenaming.Proofs.FiniteSet.Listing
import VarRenaming.Proofs.Flow.Schedule

/-! # Multiplicities behind stages

An answer has a number of ways to become `p` behind stages (`Stage.pathCount`), and the net amount
of `p` behind them is the sum of the net amounts of the answers before them, each times this number
(`Stage.net_passAll`). Results that a renaming merges count once; results that only the restriction
makes equal count each (`Stage.multiplicity`). -/

namespace VarRenaming

open Std

/-! ### Sums over answers -/

namespace Change

/-- The answers that changes are about. -/
def answers (cs : List Change) : Finset Answer := (cs.map answer).toFinset

theorem answer_mem_answers {cs : List Change} {c : Change} (h : c ∈ cs) : c.answer ∈ answers cs :=
  List.mem_toFinset.mpr (List.mem_map_of_mem h)

theorem mem_answers_of_net_ne_zero {cs : List Change} {a : Answer} (h : net cs a ≠ 0) :
    a ∈ answers cs := by
  by_contra hmem
  have hnone : cs.filter (·.answer = a) = [] := by
    rw [List.filter_eq_nil_iff]
    intro c hc hca
    exact hmem (of_decide_eq_true hca ▸ answer_mem_answers hc)
  exact h (by rw [net, hnone]; rfl)

theorem sum_amount_mul (w : Answer → Int) {cs : List Change} {as : Finset Answer}
    (h : ∀ c ∈ cs, c.answer ∈ as) :
    (cs.map fun c => c.amount * w c.answer).sum = ∑ a ∈ as, net cs a * w a := by
  induction cs with
  | nil => simp only [List.map_nil, List.sum_nil, net_nil, zero_mul, Finset.sum_const_zero]
  | cons c cs ih =>
    have hc : c.answer ∈ as := h c List.mem_cons_self
    rw [List.map_cons, List.sum_cons, ih fun d hd => h d (List.mem_cons_of_mem c hd)]
    simp only [net_cons, add_mul, Finset.sum_add_distrib, ite_mul, zero_mul, Finset.sum_ite_eq, hc,
      if_true]

end Change

open Change

namespace Stage

/-! ### Ways through stages -/

/-- In how many ways an answer becomes `p` behind stages: each stage makes of an answer every
distinct result of renaming it. -/
def pathCount : List Stage → Answer → Answer → Nat
  | [], a, p => if a = p then 1 else 0
  | s :: ss, a, p =>
    ((s.alternatives.rename a).toList.map fun r => pathCount ss (s.restrict r) p).sum

theorem net_passAll_one (ss : List Stage) (c : Change) (p : Answer) :
    net (passAll ss [c]) p = c.amount * pathCount ss c.answer p := by
  induction ss generalizing c with
  | nil =>
    have hpass : passAll [] [c] = [c] := rfl
    rw [hpass, net_cons, net_nil, add_zero, pathCount]
    by_cases h : c.answer = p
    · rw [if_pos h, if_pos h, Nat.cast_one, mul_one]
    · rw [if_neg h, if_neg h, Nat.cast_zero, mul_zero]
  | cons s ss ih =>
    -- every result of the first stage goes its own way through the others
    rw [passAll_cons, List.flatMap_singleton, passAll_eq_flatMap, net_flatMap, pass, List.map_map,
      pathCount, Nat.cast_list_sum, ← List.sum_map_mul_left, List.map_map]
    simp only [Function.comp_def, ih]

/-- **The net amount of an answer behind stages**: every answer before them counts once for each of
its ways through them. -/
theorem net_passAll (ss : List Stage) {cs : List Change} {as : Finset Answer}
    (h : ∀ c ∈ cs, c.answer ∈ as) (p : Answer) :
    net (passAll ss cs) p = ∑ a ∈ as, net cs a * pathCount ss a p := by
  rw [← sum_amount_mul (fun a => (pathCount ss a p : Int)) h, passAll_eq_flatMap, net_flatMap]
  simp only [net_passAll_one]

theorem net_passAll_congr (ss : List Stage) {cs ds : List Change} (h : ∀ a, net cs a = net ds a)
    (p : Answer) : net (passAll ss cs) p = net (passAll ss ds) p := by
  have hcs : ∀ c ∈ cs, c.answer ∈ answers cs ∪ answers ds := fun c hc =>
    Finset.mem_union_left _ (answer_mem_answers hc)
  have hds : ∀ c ∈ ds, c.answer ∈ answers cs ∪ answers ds := fun c hc =>
    Finset.mem_union_right _ (answer_mem_answers hc)
  rw [net_passAll ss hcs, net_passAll ss hds]
  simp only [h]

/-! ### One stage -/

/-- How many distinct results of renaming `a` become `p` behind the stage. -/
def multiplicity (s : Stage) (a p : Answer) : Nat :=
  (s.alternatives.rename a).toList.countP (s.restrict · = p)

theorem pathCount_singleton (s : Stage) (a p : Answer) :
    pathCount [s] a p = s.multiplicity a p := by
  rw [pathCount, multiplicity]
  induction (s.alternatives.rename a).toList with
  | nil => rfl
  | cons r rs ih =>
    rw [List.map_cons, List.sum_cons, ih, List.countP_cons, add_comm, pathCount]
    simp only [decide_eq_true_eq]

theorem net_passAll_singleton (s : Stage) {cs : List Change} {as : Finset Answer}
    (h : ∀ c ∈ cs, c.answer ∈ as) (p : Answer) :
    net (passAll [s] cs) p = ∑ a ∈ as, net cs a * s.multiplicity a p := by
  simp only [net_passAll [s] h, pathCount_singleton]

theorem multiplicity_of_keep_none (m : Alternatives) (a r : Answer) :
    multiplicity ⟨m, none⟩ a r = if r ∈ m.rename a then 1 else 0 := by
  show List.count r (m.rename a).toList = _
  rw [(FiniteSet.nodup_toList _).count]
  simp only [ExtTreeSet.mem_toList]

end Stage

/-! ### A sink behind stages -/

namespace Flow

/-- A flow whose input passes stages in turn on its way to the sink of index zero. -/
def inTurn (ss : List Stage) : Flow := ⟨[⟨0, ss⟩]⟩

theorem reaching_inTurn (ss : List Stage) (cs : List Change) :
    (inTurn ss).reaching 0 cs = Stage.passAll ss cs := List.append_nil _

theorem leaves_inTurn_iff {ss : List Stage} {epochs : List (List Change)} {t : Tally} :
    (inTurn ss).Leaves epochs 0 t ↔ t = .ofList (Stage.passAll ss epochs.flatten) := by
  rw [leaves_iff, reaching_inTurn]

theorem sinks_inTurn (ss : List Stage) (cs : List Change) :
    (inTurn ss).sinks cs = [.ofList (Stage.passAll ss cs)] := by
  rw [← reaching_inTurn]
  rfl

variable {s : Stage} {epochs epochs' : List (List Change)} {t t' : Tally}

/-- **The snapshot behind a stage**: net amounts times multiplicities, as far as they are not zero.
-/
theorem Leaves.getElem?_inTurn (h : (inTurn [s]).Leaves epochs 0 t) {p : Answer} {n : Int} :
    t.counts[p]? = some n ↔
      n ≠ 0 ∧ n = ∑ a ∈ answers epochs.flatten, net epochs.flatten a * s.multiplicity a p := by
  rw [leaves_inTurn_iff.mp h, Tally.getElem?_ofList,
    s.net_passAll_singleton fun _ => answer_mem_answers]

/-- **Renaming in a flow counts per answer, not across answers.** When a flow has processed what it
was fed with in any number of epochs, the sink behind a renaming and restricting stage maps `p` to
the sum, over all answers `a`, of the net amount of `a` times the number of distinct results of
renaming `a` that restrict to `p`; behind a stage that only renames, each result of `a` counts once.
Sums of zero have no entry. The snapshot depends on the net amounts only, and it is what the program
computes. -/
theorem leaves_behind_stage (m : Alternatives) (vars : List Var) (epochs : List (List Change)) :
    (∀ t, (inTurn [⟨m, some vars⟩]).Leaves epochs 0 t → ∀ p n,
      t.counts[p]? = some n ↔ n ≠ 0 ∧ n = ∑ a ∈ answers epochs.flatten,
        net epochs.flatten a * (m.rename a).toList.countP (·.project vars = p)) ∧
    (∀ t, (inTurn [⟨m, none⟩]).Leaves epochs 0 t → ∀ r n,
      t.counts[r]? = some n ↔ n ≠ 0 ∧ n = ∑ a ∈ answers epochs.flatten,
        net epochs.flatten a * if r ∈ m.rename a then 1 else 0) ∧
    (∀ keep epochs', (∀ a, net epochs.flatten a = net epochs'.flatten a) → ∀ t t',
      (inTurn [⟨m, keep⟩]).Leaves epochs 0 t → (inTurn [⟨m, keep⟩]).Leaves epochs' 0 t' → t = t') ∧
    ∀ keep, ∃ t, (inTurn [⟨m, keep⟩]).Leaves epochs 0 t ∧
      (inTurn [⟨m, keep⟩]).sinks epochs.flatten = [t] := by
  refine ⟨?_, ?_, ?_, ?_⟩
  · intro t ht p n
    exact ht.getElem?_inTurn
  · intro t ht r n
    rw [ht.getElem?_inTurn]
    simp only [Stage.multiplicity_of_keep_none, Nat.cast_ite, Nat.cast_one, Nat.cast_zero]
  · intro keep epochs' hnet t t' ht ht'
    rw [leaves_inTurn_iff.mp ht, leaves_inTurn_iff.mp ht']
    exact Tally.ofList_congr (Stage.net_passAll_congr _ hnet)
  · intro keep
    exact ⟨_, leaves_inTurn_iff.mpr rfl, sinks_inTurn _ _⟩

/-- Two alternatives that differ in what the stage drops: `x = 1, y = 2` comes to a net amount of
three and counts twice for `a = 1`, `x = 1, y = 1` comes to minus one and does so too. -/
theorem leaves_behind_stage_collapse :
    let x : Var := ⟨"x"⟩
    let y : Var := ⟨"y"⟩
    let a : Var := ⟨"a"⟩
    let b : Var := ⟨"b"⟩
    let one : Concept := ⟨1, by decide⟩
    let two : Concept := ⟨2, by decide⟩
    let m : Alternatives := .ofList [.ofList [⟨x, a⟩, ⟨y, b⟩], .ofList [⟨x, a⟩, ⟨y, ⟨"c"⟩⟩]]
    let r : Answer := .ofBindings [(x, one), (y, two)]
    let q : Answer := .ofBindings [(x, one), (y, one)]
    let epochs : List (List Change) := [[⟨r, 2⟩, ⟨q, -1⟩], [⟨r, 1⟩]]
    (∃ t, (inTurn [⟨m, some [a]⟩]).Leaves epochs 0 t ∧
      t.counts[(Answer.ofBindings [(a, one)])]? = some 4) ∧
    ∃ t, (inTurn [⟨m, none⟩]).Leaves epochs 0 t ∧
      t.counts[(Answer.ofBindings [(a, one), (b, two)])]? = some 3 := by
  intro x y a b one two m r q epochs
  obtain ⟨hrestricted, hrenamed, -, hleaves⟩ := leaves_behind_stage m [a] epochs
  obtain ⟨t, ht, -⟩ := hleaves (some [a])
  obtain ⟨t', ht', -⟩ := hleaves none
  refine ⟨⟨t, ht, (hrestricted t ht _ _).mpr ?_⟩, t', ht', (hrenamed t' ht' _ _).mpr ?_⟩
  · decide +kernel
  · decide +kernel

end Flow

end VarRenaming
