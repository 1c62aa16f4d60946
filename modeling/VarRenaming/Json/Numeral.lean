import VarRenaming.Json.Problem

/-! # Numerals

A numeral without fraction and exponent is an integer if it fits 64 bits; every other one is a
double. Its digits are gathered in a significand of 64 bits as long as they fit: the digits of the
whole part that do not fit only raise the exponent, those of the fraction are dropped. The
significand is then rounded to a double and scaled by powers of ten that are doubles themselves. -/

namespace VarRenaming.Json

/-- The parts of a numeral; the whole part and the fraction are digits. -/
structure Numeral where
  negative : Bool
  whole : List Char
  fraction : List Char
  exponent : Option Int
deriving DecidableEq

/-! ### Reading the parts -/

/-- The digits at the start of a text, of which there must be one at least. -/
def readDigits (cs : List Char) : Except Problem (List Char × List Char) :=
  match cs.span Char.isDigit with
  | ([], []) => .error .endInValue
  | ([], _ :: _) => .error .badNumber
  | (digits, rest) => .ok (digits, rest)

/-- A whole part, which is zero or starts with another digit than zero. -/
def readWhole (cs : List Char) : Except Problem (List Char × List Char) := do
  let (digits, rest) ← readDigits cs
  match digits with
  | '0' :: _ :: _ => .error .badNumber
  | _ => .ok (digits, rest)

/-- The digits behind a point; there are none without a point. -/
def readFraction : List Char → Except Problem (List Char × List Char)
  | '.' :: rest => readDigits rest
  | cs => .ok ([], cs)

/-- The exponent, if there is one. -/
def readExponent : List Char → Except Problem (Option Int × List Char)
  | c :: rest =>
    if c = 'e' ∨ c = 'E' then do
      let (sign, rest) : Int × List Char :=
        match rest with
        | '+' :: rest => (1, rest)
        | '-' :: rest => (-1, rest)
        | _ => (1, rest)
      let (digits, rest) ← readDigits rest
      .ok (some (sign * Nat.ofDigitChars 10 digits 0), rest)
    else .ok (none, c :: rest)
  | [] => .ok (none, [])

/-- The numeral at the start of a text. -/
def readNumeral (cs : List Char) : Except Problem (Numeral × List Char) := do
  let (negative, cs) :=
    match cs with
    | '-' :: rest => (true, rest)
    | _ => (false, cs)
  let (whole, cs) ← readWhole cs
  let (fraction, cs) ← readFraction cs
  let (exponent, cs) ← readExponent cs
  .ok (⟨negative, whole, fraction, exponent⟩, cs)

/-! ### The value -/

/-- The greatest significand. -/
def greatest : Nat := UInt64.size - 1

/-- The magnitude of the least 64-bit integer. -/
def greatestNegative : Nat := UInt64.size / 2

/-- A significand with the digits of a whole part behind it, and the number of digits that did not
fit. -/
def gatherWhole (significand : Nat) : List Char → Nat × Nat
  | [] => (significand, 0)
  | c :: cs =>
    let next := Nat.ofDigitChars 10 [c] significand
    if next ≤ greatest then gatherWhole next cs else (significand, cs.length + 1)

/-- A significand with the digits of a fraction behind it, and the number of digits that did fit. -/
def gatherFraction (significand : Nat) : List Char → Nat × Nat
  | [] => (significand, 0)
  | c :: cs =>
    let next := Nat.ofDigitChars 10 [c] significand
    if next ≤ greatest then
      let (all, taken) := gatherFraction next cs
      (all, taken + 1)
    else (significand, 0)

/-- The double `x · 10 ^ e`. Exponents beyond those of the doubles are scaled down in steps, and
scaled up only from zero; there is no result if it is infinite. -/
def scale (x : Float) (e : Int) : Option Float :=
  if e.natAbs ≤ 308 then
    if 0 ≤ e then
      let y := x * .ofScientific 1 false e.natAbs
      if y.isInf then none else some y
    else some (x / .ofScientific 1 false e.natAbs)
  else if x == 0 then some x
  else if 0 ≤ e then none
  else scale (x / .ofScientific 1 false 308) (e + 308)
termination_by e.natAbs
decreasing_by omega

namespace Numeral

/-- The value of the whole part. -/
def wholeValue (n : Numeral) : Nat := Nat.ofDigitChars 10 n.whole 0

/-- The numeral as a double. -/
def double? (n : Numeral) : Option Float :=
  let (whole, dropped) := gatherWhole 0 n.whole
  let (significand, taken) := gatherFraction whole n.fraction
  let magnitude := scale significand.toUInt64.toFloat (dropped - taken + n.exponent.getD 0)
  if n.negative then magnitude.map (- ·) else magnitude

/-- The numeral as an item. An integer is a double if it has a sign and is zero or less than the least
64-bit integer, or if it has no sign and does not fit 64 bits. -/
def item (n : Numeral) : Except Problem Item :=
  let value := n.wholeValue
  if n.fraction = [] ∧ n.exponent = none ∧ !n.negative ∧ value ≤ greatest then
    .ok (.natural (.ofNat value))
  else if n.fraction = [] ∧ n.exponent = none ∧ n.negative ∧ 0 < value ∧
      value ≤ greatestNegative then
    .ok (.negative (.ofNat value))
  else
    match n.double? with
    | some x => .ok (.floating x.toBits)
    | none => .error .outOfRange

end Numeral

end VarRenaming.Json
