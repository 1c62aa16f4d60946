/-! # Broken preconditions

Two operations of the library refuse to go on when their caller has broken a precondition. Such a
refusal ends the computation that asked for it; it is no answer of the operation. -/

namespace VarRenaming

/-- The ways to break a precondition. -/
inductive Fault where
  /-- A concept was asked for by the id zero. -/
  | idNotPositive
  /-- An answer was to be laid out as bytes. -/
  | answerBytes
deriving DecidableEq

/-- The text that reports a fault. -/
def Fault.message : Fault → String
  | idNotPositive => "assertion failed: id > 0"
  | answerBytes => "Abomonation not implemented for Answers."

end VarRenaming
