import VarRenaming.Decimal.Shortest

/-! # Texts of doubles

A double is written with the digits of its shortest decimal, and always with a point or an exponent.
A `Layout` says for which exponents the digits are written in their positions. -/

namespace VarRenaming.Decimal

/-- How digits are laid out. -/
structure Layout where
  /-- The least exponent of the first digit that is written in positions. -/
  least : Int := -5
  /-- The greatest one. -/
  greatest : Int := 15
  /-- What stands before the digits of an exponent that is not negative. -/
  positiveMark : String := "+"

/-- A run of zeros. -/
def zeros (n : Nat) : String := String.ofList (List.replicate n '0')

namespace Layout

/-- The digits in their positions, with a point among them or a zero behind it. -/
def positional (digits : String) (exponent : Int) : String :=
  if 0 ≤ exponent then digits ++ zeros exponent.toNat ++ ".0"
  else
    let places := (-exponent).toNat
    if places < digits.length then
      String.ofList (digits.toList.take (digits.length - places)) ++ "." ++
        String.ofList (digits.toList.drop (digits.length - places))
    else "0." ++ zeros (places - digits.length) ++ digits

/-- The text of an exponent: its sign is always written, and its digits have no zeros before them. -/
def power (l : Layout) (exponent : Int) : String :=
  "e" ++ (if exponent < 0 then "-" else l.positiveMark) ++ toString exponent.natAbs

/-- One digit before the point, the others behind it, and the exponent of the first. -/
def exponential (l : Layout) (digits : String) (first : Int) : String :=
  let fraction := digits.toList.drop 1
  String.ofList (digits.toList.take 1) ++
    (if fraction.isEmpty then "" else "." ++ String.ofList fraction) ++ l.power first

/-- The text of a decimal. -/
def render (l : Layout) (x : Scientific) : String :=
  let digits := toString x.digits
  let first := x.exponent + digits.length - 1
  if l.least ≤ first ∧ first ≤ l.greatest then positional digits x.exponent
  else l.exponential digits first

end Layout

/-- The text of the finite double with the bits `bits`. -/
def render (bits : UInt64) : String :=
  (if bits >>> 63 = 1 then "-" else "") ++ ({} : Layout).render (Binary.ofBits bits).shortest

-- The exponents -6, -5, 15 and 16, on both sides of the bounds of the layout, and the two zeros.
example : [0x3EB0C6F7A0B5ED8D, 0x3EE4F8B588E368F1, 0x430C6BF526340000, 0x4341C37937E08000,
    0x3FF8000000000000, 0x0, 0x8000000000000000].map render =
    ["1e-6", "0.00001", "1000000000000000.0", "1e+16", "1.5", "0.0", "-0.0"] := by
  decide +kernel

end VarRenaming.Decimal
