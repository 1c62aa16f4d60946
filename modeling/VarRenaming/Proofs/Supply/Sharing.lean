import Mathlib.Algebra.Group.Nat.Defs
import Mathlib.Data.Int.ModEq
import Mathlib.Data.Multiset.Filter
import Mathlib.Logic.Relation
import VarRenaming.Supply

/-! # Callers that share a supply

A call to a shared supply draws, which is one indivisible step, and later returns what it has drawn;
other calls may draw and return in between.

* `Reaches.values_eq`: all calls together draw what one caller would.
* `exists_reaches`: any callers, in any order, can be served one after the other.
* `Counts.nodup_filterMap_draws_iff`: what a supply with a counter of period `p` gives is free of
  repetitions for just `p` calls. -/

namespace VarRenaming.Supply

variable {σ α κ : Type} {fresh : σ → α × σ} {s : σ} {n : Nat}

/-! ### Many callers -/

/-- A moment of the calls to a shared supply: the supply, the callers in the order in which they have
drawn, and with their callers the values that have been drawn but not returned yet, and those that
have been returned. -/
structure Moment (σ κ α : Type) where
  supply : σ
  callers : List κ
  underWay : Multiset (κ × α)
  returned : List (κ × α)

/-- **One step** of the calls to a shared supply. -/
inductive Step (fresh : σ → α × σ) : Moment σ κ α → Moment σ κ α → Prop
  | draw (k : κ) (s ks ms log) :
    Step fresh ⟨s, ks, ms, log⟩ ⟨(fresh s).2, ks ++ [k], (k, (fresh s).1) ::ₘ ms, log⟩
  | finish (k : κ) (x : α) (s ks ms log) :
    Step fresh ⟨s, ks, (k, x) ::ₘ ms, log⟩ ⟨s, ks, ms, log ++ [(k, x)]⟩

/-- The moment before the first call. -/
def opening (s : σ) : Moment σ κ α := ⟨s, [], 0, []⟩

/-- A moment that calls to the supply `s` can come to. -/
abbrev Reaches (fresh : σ → α × σ) (s : σ) : Moment σ κ α → Prop :=
  Relation.ReflTransGen (Step fresh) (opening s)

/-- All calls so far, under way or over, with what they have drawn. -/
def Moment.calls (m : Moment σ κ α) : Multiset (κ × α) := m.underWay + (m.returned : Multiset (κ × α))

/-- What all calls so far have drawn. -/
def Moment.values (m : Moment σ κ α) : Multiset α := m.calls.map Prod.snd

/-- The calls so far have drawn in turn from the supply `s`, each caller of the list once. -/
structure Accounted (fresh : σ → α × σ) (s : σ) (m : Moment σ κ α) : Prop where
  supply : m.supply = after fresh m.callers.length s
  calls : m.calls = (m.callers.zip (draws fresh m.callers.length s) : List (κ × α))

theorem coe_concat {β : Type} (l : List β) (x : β) :
    ((l ++ [x] : List β) : Multiset β) = x ::ₘ (l : Multiset β) :=
  Multiset.coe_eq_coe.mpr (List.perm_append_singleton x l)

theorem accounted_opening (fresh : σ → α × σ) (s : σ) :
    Accounted fresh s (opening s : Moment σ κ α) := ⟨rfl, rfl⟩

/-- **A step keeps the account**: a draw adds a call at the end, and a return ends one. -/
theorem Step.accounted {m m' : Moment σ κ α} (h : Step fresh m m') (hm : Accounted fresh s m) :
    Accounted fresh s m' := by
  obtain ⟨hsupply, hcalls⟩ := hm
  cases h with
  | draw k s' ks ms log =>
    obtain rfl : s' = after fresh ks.length s := hsupply
    have hdraws : (ks ++ [k]).zip (draws fresh (ks ++ [k]).length s) =
        ks.zip (draws fresh ks.length s) ++ [(k, (fresh (after fresh ks.length s)).1)] := by
      rw [List.length_append, List.length_singleton, draws_succ,
        List.zip_append (length_draws fresh ks.length s).symm, List.zip_cons_cons, List.zip_nil_left]
    constructor
    · rw [List.length_append, List.length_singleton, after_succ]
    · rw [hdraws, coe_concat, ← hcalls, Moment.calls, Moment.calls, Multiset.cons_add]
  | finish k x s' ks ms log =>
    refine ⟨hsupply, ?_⟩
    rw [← hcalls, Moment.calls, Moment.calls, coe_concat, Multiset.cons_add, Multiset.add_cons]

/-- **Whatever the order of steps**, the calls have drawn in turn. -/
theorem Reaches.accounted {m : Moment σ κ α} (h : Reaches fresh s m) : Accounted fresh s m := by
  induction h with
  | refl => exact accounted_opening fresh s
  | tail _ hstep ih => exact hstep.accounted ih

theorem Reaches.values_eq {m : Moment σ κ α} (h : Reaches fresh s m) :
    m.values = (draws fresh m.callers.length s : List α) := by
  rw [Moment.values, h.accounted.calls, Multiset.map_coe, List.map_snd_zip]
  rw [length_draws]

theorem Moment.returned_le (m : Moment σ κ α) :
    ((m.returned.map Prod.snd : List α) : Multiset α) ≤ m.values := by
  rw [values, calls, Multiset.map_add, Multiset.map_coe]
  exact Multiset.le_add_left _ _

theorem Moment.values_of_finished {m : Moment σ κ α} (h : m.underWay = 0) :
    m.values = (m.returned.map Prod.snd : List α) := by
  rw [values, calls, h, Multiset.zero_add, Multiset.map_coe]

/-! ### Callers that are served one after the other -/

theorem reaches_append (fresh : σ → α × σ) (ks ks' : List κ) (s : σ) (log : List (κ × α)) :
    Relation.ReflTransGen (Step fresh) ⟨s, ks, 0, log⟩
      ⟨after fresh ks'.length s, ks ++ ks', 0, log ++ ks'.zip (draws fresh ks'.length s)⟩ := by
  induction ks' generalizing ks s log with
  | nil =>
    rw [List.append_nil, List.zip_nil_left, List.append_nil]
    exact .refl
  | cons k ks' ih =>
    have hdraw : Step fresh ⟨s, ks, 0, log⟩
        ⟨(fresh s).2, ks ++ [k], (k, (fresh s).1) ::ₘ 0, log⟩ := .draw ..
    have hfinish : Step fresh ⟨(fresh s).2, ks ++ [k], (k, (fresh s).1) ::ₘ 0, log⟩
        ⟨(fresh s).2, ks ++ [k], 0, log ++ [(k, (fresh s).1)]⟩ := .finish ..
    have hrest := ih (ks ++ [k]) (fresh s).2 (log ++ [(k, (fresh s).1)])
    rw [List.append_assoc, List.append_assoc] at hrest
    exact .head hdraw (.head hfinish hrest)

theorem exists_reaches (fresh : σ → α × σ) (ks : List κ) (s : σ) :
    ∃ m : Moment σ κ α, Reaches fresh s m ∧ m.callers = ks ∧ m.underWay = 0 ∧
      m.returned = ks.zip (draws fresh ks.length s) :=
  ⟨_, reaches_append fresh [] ks s [], rfl, rfl, rfl⟩

theorem exists_reaches_first_last (fresh : σ → α × σ) (k k' : κ) (ks : List κ) (s : σ) :
    ∃ m : Moment σ κ α, Reaches fresh s m ∧ m.callers = k :: ks ++ [k'] ∧
      (k, (fresh s).1) ∈ m.returned ∧
      (k', (fresh (after fresh (ks.length + 1) s)).1) ∈ m.returned := by
  obtain ⟨m, hm, hcallers, -, hreturned⟩ := exists_reaches fresh (k :: ks ++ [k']) s
  have hlen : (k :: ks).length = (draws fresh (ks.length + 1) s).length := by
    rw [length_draws, List.length_cons]
  have hzip : m.returned = (k :: ks).zip (draws fresh (ks.length + 1) s) ++
      [(k', (fresh (after fresh (ks.length + 1) s)).1)] := by
    rw [hreturned, List.length_append, List.length_singleton, List.length_cons, draws_succ,
      List.zip_append hlen, List.zip_cons_cons, List.zip_nil_left]
  refine ⟨m, hm, hcallers, ?_, ?_⟩
  · rw [hzip, draws, List.zip_cons_cons]
    exact List.mem_cons_self
  · rw [hzip]
    exact List.mem_concat_self

/-! ### Supplies that count -/

theorem nodup_filterMap_range {g : Nat → Option α} :
    ((List.range n).filterMap g).Nodup ↔
      ∀ i j x, i < j → j < n → g i = some x → g j ≠ some x := by
  rw [List.Nodup, List.pairwise_filterMap, List.pairwise_iff_getElem]
  simp only [List.length_range, List.getElem_range]
  constructor
  · intro h i j x hij hj hi hx
    exact h i j (Nat.lt_trans hij hj) hj hij x hi x hx rfl
  · intro h i j _ hj hij x hx y hy hxy
    exact h i j x hij hj hx (hxy ▸ hy)

/-- A supply is known by a counter, which each call takes one further, modulo `p`. -/
structure Counts (fresh : σ → α × σ) (count : σ → Nat) (p : Nat) : Prop where
  count_lt : ∀ s, count s < p
  count_fresh : ∀ s, count (fresh s).2 = (count s + 1) % p
  count_injective : Function.Injective count

namespace Counts

variable {count : σ → Nat} {p : Nat}

theorem count_after (h : Counts fresh count p) (n : Nat) (s : σ) :
    count (after fresh n s) = (count s + n) % p := by
  induction n with
  | zero => rw [after, Nat.add_zero, Nat.mod_eq_of_lt (h.count_lt s)]
  | succ n ih => rw [after_succ, h.count_fresh, ih, Nat.mod_add_mod, Nat.add_assoc]

/-- **After `p` calls** the supply is what it was before them. -/
theorem after_period (h : Counts fresh count p) (s : σ) : after fresh p s = s := by
  apply h.count_injective
  rw [h.count_after, Nat.add_mod_right, Nat.mod_eq_of_lt (h.count_lt s)]

theorem eq_of_after_eq (h : Counts fresh count p) {i j : Nat} (hi : i < p) (hj : j < p)
    (heq : after fresh i s = after fresh j s) : i = j := by
  have hmod : count s + i ≡ count s + j [MOD p] := by
    have hcount := congrArg count heq
    rwa [h.count_after, h.count_after] at hcount
  exact (Nat.ModEq.add_left_cancel' (count s) hmod).eq_of_lt_of_lt hi hj

/-- **What a counting supply gives** repeats itself after `p` calls and not before, if what it gives
tells the supplies apart and the first call gives something. -/
theorem nodup_filterMap_draws_iff {β : Type} (h : Counts fresh count p) {g : α → Option β} {x : β}
    (hinj : ∀ s s' y, g (fresh s).1 = some y → g (fresh s').1 = some y → s = s')
    (hfirst : g (fresh s).1 = some x) :
    ((draws fresh n s).filterMap g).Nodup ↔ n ≤ p := by
  rw [draws_eq_map, List.filterMap_map, nodup_filterMap_range]
  simp only [Function.comp_apply]
  have hp : 0 < p := Nat.zero_lt_of_lt (h.count_lt s)
  constructor
  · intro hnodup
    by_contra hn
    refine hnodup 0 p x hp (Nat.lt_of_not_le hn) hfirst ?_
    rw [h.after_period]
    exact hfirst
  · intro hn i j y hij hj hi hjy
    have heq : after fresh i s = after fresh j s := hinj _ _ y hi hjy
    have := h.eq_of_after_eq (by omega) (by omega) heq
    omega

end Counts

end VarRenaming.Supply
