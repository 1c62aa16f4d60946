/-! # Settings

The one setting of the library bounds how many alternatives a combination may need. The bound is a
64-bit number, and zero stands for no bound. -/

namespace VarRenaming

/-- The bound on the number of alternatives. -/
structure Settings where
  maxAlternatives : UInt64 := 4096
deriving DecidableEq

namespace Settings

instance : Inhabited Settings := ⟨{}⟩

/-- The settings without a bound. -/
def unlimited : Settings := ⟨0⟩

/-- As many alternatives as `count` are within the bound. -/
def Allows (s : Settings) (count : UInt64) : Prop :=
  s.maxAlternatives = 0 ∨ count ≤ s.maxAlternatives

instance (s : Settings) (count : UInt64) : Decidable (s.Allows count) :=
  inferInstanceAs (Decidable (_ ∨ _))

end Settings

end VarRenaming
