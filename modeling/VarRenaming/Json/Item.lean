import VarRenaming.Decimal.Layout
import VarRenaming.Text.Quoted

/-! # Items

What stands at a place of a JSON text, as far as a reader must look to tell what it is: a word, a
number or a quoted text as a whole, but of a list or an object only the opening bracket. -/

namespace VarRenaming.Json

/-- What stands at a place of a text. -/
inductive Item where
  | null
  | boolean (value : Bool)
  /-- A number without sign, fraction and exponent. -/
  | natural (value : UInt64)
  /-- A number below zero without fraction and exponent. -/
  | negative (magnitude : UInt64)
  /-- Any other number, as the bits of a double. -/
  | floating (bits : UInt64)
  | text (value : String)
  /-- The opening bracket of a list. -/
  | listOpening
  /-- The opening bracket of an object. -/
  | objectOpening
deriving DecidableEq

/-- The number behind a minus sign. -/
def Item.renderNegative (magnitude : UInt64) : String := "-" ++ toString magnitude.toNat

/-- How a report names an item. -/
def Item.render : Item → String
  | null => "null"
  | boolean value => "boolean `" ++ (if value then "true" else "false") ++ "`"
  | natural value => "integer `" ++ toString value.toNat ++ "`"
  | negative magnitude => "integer `" ++ renderNegative magnitude ++ "`"
  | floating bits => "floating point `" ++ Decimal.render bits ++ "`"
  | text value => "string " ++ Text.quote value
  | listOpening => "sequence"
  | objectOpening => "map"

end VarRenaming.Json
