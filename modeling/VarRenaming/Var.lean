import VarRenaming.FiniteSet
import VarRenaming.Supply

/-! # Query variables

A variable is its name: two occurrences of `$x` are the same variable wherever they stand. Variables
are ordered by name. Anonymous variables come from a `VarSupply`, a 64-bit counter that is written in
decimal behind `anon`; the counter wraps around after its last value. -/

namespace VarRenaming

open Std

/-- A query variable. Any text is a name, the empty one too. -/
structure Var where
  name : String
deriving DecidableEq, Inhabited

namespace Var

/-! ### Order -/

instance : Ord Var := ⟨compareOn name⟩

instance : TransOrd Var := inferInstanceAs (TransCmp (compareOn name))

instance : LawfulEqOrd Var where
  eq_of_compare {a b} h := by
    obtain ⟨_⟩ := a
    obtain ⟨_⟩ := b
    exact congrArg Var.mk (Std.compare_eq_iff_eq.mp h)

/-! ### Text -/

/-- A variable is shown as its name behind a dollar sign. -/
def render (v : Var) : String := "$" ++ v.name

end Var

/-! ### Fresh variables -/

/-- A source of anonymous variables: the number that the next one bears. -/
structure VarSupply where
  next : UInt64 := 0

namespace VarSupply

/-- The anonymous variable of a number. -/
def named (n : UInt64) : Var := ⟨"anon" ++ toString n.toNat⟩

/-- The next anonymous variable and the supply after it. -/
def fresh (s : VarSupply) : Var × VarSupply := (named s.next, ⟨s.next + 1⟩)

end VarSupply

end VarRenaming
