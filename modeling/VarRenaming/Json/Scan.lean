import VarRenaming.Json.Blank
import VarRenaming.Json.Numeral
import VarRenaming.Json.Quoted

/-! # Reading items

`Json.readItem` finds out what stands at the start of a text. It reads words, numbers and quoted texts to
their ends, and of a list or an object the opening bracket. -/

namespace VarRenaming.Json

/-- Reads the rest of a word whose first letter has been read. -/
def readWord (item : Item) : List Char → List Char → Except Problem (Item × List Char)
  | [], cs => .ok (item, cs)
  | _ :: _, [] => .error .endInValue
  | w :: ws, c :: cs => if c = w then readWord item ws cs else .error .badWord

/-- What stands at the start of a text, after blanks, and what follows it. -/
def readItem (cs : List Char) : Except Problem (Item × List Char) :=
  match dropBlanks cs with
  | [] => .error .endInValue
  | 'n' :: rest => readWord .null ['u', 'l', 'l'] rest
  | 't' :: rest => readWord (.boolean true) ['r', 'u', 'e'] rest
  | 'f' :: rest => readWord (.boolean false) ['a', 'l', 's', 'e'] rest
  | '[' :: rest => .ok (.listOpening, rest)
  | '{' :: rest => .ok (.objectOpening, rest)
  | '"' :: rest => do
    let (value, rest) ← readQuoted rest
    .ok (.text (.ofList value), rest)
  | c :: rest =>
    if c = '-' ∨ c.isDigit then do
      let (numeral, rest) ← readNumeral (c :: rest)
      let item ← numeral.item
      .ok (item, rest)
    else .error .noValue

end VarRenaming.Json
