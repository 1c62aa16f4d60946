/-! # Shortest decimals of doubles

The reals that round to a double `m · 2 ^ q` lie between the points half-way to its neighbours,
which belong to them exactly when `m` is even. Its shortest decimal is a number `d · 10 ^ k` among
them on the coarsest decimal grid that has one, and of two such numbers the nearer one, or the even
one if both are equally near. All comparisons are made between natural numbers. -/

namespace VarRenaming.Decimal

/-! ### Doubles -/

/-- The positive number `significand · 2 ^ exponent`. -/
structure Binary where
  significand : Nat
  exponent : Int
deriving DecidableEq

/-- The least significand that has all its bits, which is the bit that doubles leave out. -/
def leadingBit : Nat := 0x10000000000000

/-- The magnitude of a finite double with the bits `bits`. -/
def Binary.ofBits (bits : UInt64) : Binary :=
  let fraction := (bits &&& 0xFFFFFFFFFFFFF).toNat
  match ((bits >>> 52) &&& 0x7FF).toNat with
  | 0 => ⟨fraction, -1074⟩
  | e + 1 => ⟨leadingBit + fraction, e - 1074⟩

/-! ### Comparison with decimals -/

/-- The side of `d · 10 ^ k` in its comparison with a number in units of `2 ^ q`. -/
def decimalSide (d : Nat) (k q : Int) : Nat := d * Nat.pow 10 k.toNat * Nat.pow 2 (-q).toNat

/-- The side of `u · 2 ^ q` in its comparison with a number in units of `10 ^ k`. -/
def binarySide (u : Nat) (k q : Int) : Nat := u * Nat.pow 2 q.toNat * Nat.pow 10 (-k).toNat

namespace Binary

/-- The unit in which a double and the half-way points around it are whole numbers. -/
def unit (b : Binary) : Int := b.exponent - 2

/-- The double in units. -/
def value (b : Binary) : Nat := 4 * b.significand

/-- The lower half-way point in units. The neighbour below a power of two is only half as far away,
unless the double is the least that has all its bits. -/
def lower (b : Binary) : Nat :=
  if b.significand = leadingBit ∧ b.exponent ≠ -1074 then b.value - 1 else b.value - 2

/-- The upper half-way point in units. -/
def upper (b : Binary) : Nat := b.value + 2

/-- Whether `d · 10 ^ k` rounds to the double. -/
def isReadFrom (b : Binary) (d : Nat) (k : Int) : Bool :=
  let x := decimalSide d k b.unit
  let low := binarySide b.lower k b.unit
  let high := binarySide b.upper k b.unit
  if b.significand % 2 = 0 then low ≤ x && x ≤ high else low < x && x < high

/-- The greatest `d` for which `d · 10 ^ k` is not above the double. -/
def floor (b : Binary) (k : Int) : Nat := binarySide b.value k b.unit / decimalSide 1 k b.unit

/-- Of `d` and `d + 1`, between which the double lies on the grid of `k`, the nearer one. -/
def nearer (b : Binary) (d : Nat) (k : Int) : Nat :=
  match compare (2 * binarySide b.value k b.unit) (decimalSide (2 * d + 1) k b.unit) with
  | .lt => d
  | .gt => d + 1
  | .eq => d + d % 2

/-- The point of the grid of `k` that rounds to the double, if there is one. -/
def onGrid (b : Binary) (k : Int) : Option Nat :=
  let d := b.floor k
  match b.isReadFrom d k, b.isReadFrom (d + 1) k with
  | true, true => some (b.nearer d k)
  | true, false => some d
  | false, true => some (d + 1)
  | false, false => none

/-! ### The shortest decimal -/

/-- The least `k` for which `10 ^ k` is above the double. -/
def magnitude (b : Binary) : Int :=
  let above (k : Int) : Bool := binarySide b.value k b.unit < decimalSide 1 k b.unit
  (((List.range 640).map fun (i : Nat) => (i : Int) - 325).find? above).getD 315

end Binary

/-- The number `digits · 10 ^ exponent`. -/
structure Scientific where
  digits : Nat
  exponent : Int
deriving DecidableEq

/-- The shortest decimal of a double, and zero for zero. Seventeen digits always suffice. -/
def Binary.shortest (b : Binary) : Scientific :=
  if b.significand = 0 then ⟨0, 0⟩
  else
    let top := b.magnitude
    ((List.range 18).findSome? fun (n : Nat) =>
      (b.onGrid (top - n)).map fun d => ⟨d, top - n⟩).getD ⟨b.floor (top - 17), top - 17⟩

end VarRenaming.Decimal
