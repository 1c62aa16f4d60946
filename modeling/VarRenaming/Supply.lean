/-! # Supplies

A supply gives a value and the supply after it. -/

namespace VarRenaming.Supply

variable {σ α : Type}

/-- What the next calls of `fresh` draw. -/
def draws (fresh : σ → α × σ) : Nat → σ → List α
  | 0, _ => []
  | n + 1, s => (fresh s).1 :: draws fresh n (fresh s).2

/-- The supply after the next calls of `fresh`. -/
def after (fresh : σ → α × σ) : Nat → σ → σ
  | 0, s => s
  | n + 1, s => after fresh n (fresh s).2

theorem length_draws (fresh : σ → α × σ) (n : Nat) (s : σ) : (draws fresh n s).length = n := by
  induction n generalizing s with
  | zero => rfl
  | succ n ih => rw [draws, List.length_cons, ih]

theorem after_succ (fresh : σ → α × σ) (n : Nat) (s : σ) :
    after fresh (n + 1) s = (fresh (after fresh n s)).2 := by
  induction n generalizing s with
  | zero => rfl
  | succ n ih => rw [after, ih, after]

theorem draws_succ (fresh : σ → α × σ) (n : Nat) (s : σ) :
    draws fresh (n + 1) s = draws fresh n s ++ [(fresh (after fresh n s)).1] := by
  induction n generalizing s with
  | zero => rfl
  | succ n ih => rw [draws, ih, draws, after, List.cons_append]

theorem draws_eq_map (fresh : σ → α × σ) (n : Nat) (s : σ) :
    draws fresh n s = (List.range n).map fun i => (fresh (after fresh i s)).1 := by
  induction n with
  | zero => rfl
  | succ n ih => rw [draws_succ, ih, List.range_succ, List.map_append, List.map_singleton]

end VarRenaming.Supply
