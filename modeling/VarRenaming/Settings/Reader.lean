import VarRenaming.Json.Scan
import VarRenaming.Settings.Printer

/-! # Reading settings

Settings are read from JSON in one of two forms: an object whose only member, if it has one, is the
bound, and a list whose only element, if it has one, is the bound. Of any other text the first
problem is reported. -/

namespace VarRenaming.Settings

open Json

/-! ### The bound -/

/-- What the reports call settings. -/
def expectedSettings : String := "struct UnifierConfig"

/-- What the reports call a bound. -/
def expectedBound : String := "usize"

/-- A bound at the start of a text. -/
def readBound (cs : List Char) : Except Problem (UInt64 × List Char) := do
  let (item, rest) ← readItem cs
  match item with
  | .natural value => .ok (value, rest)
  | .negative magnitude => .error (.belowZero magnitude expectedBound)
  | item => .error (.wrongType item expectedBound)

/-! ### The list form -/

/-- What follows a list, from behind its only element. -/
def closeList (cs : List Char) : Except Problem (List Char) :=
  match dropBlanks cs with
  | [] => .error .endInList
  | ']' :: rest => .ok rest
  | ',' :: rest =>
    match dropBlanks rest with
    | ']' :: _ => .error .trailingComma
    | _ => .error .trailingCharacters
  | _ => .error .trailingCharacters

/-- The settings in a list, from behind its opening bracket. -/
def readList (cs : List Char) : Except Problem (Settings × List Char) :=
  match dropBlanks cs with
  | [] => .error .endInList
  | ']' :: rest => .ok ({}, rest)
  | cs => do
    let (bound, rest) ← readBound cs
    let rest ← closeList rest
    .ok (⟨bound⟩, rest)

/-! ### The object form -/

/-- The name of a member, from behind its opening quote. -/
def readKey (cs : List Char) : Except Problem (String × List Char) := do
  let (name, rest) ← readQuoted cs
  .ok (.ofList name, rest)

/-- What follows the colon behind the name of a member. -/
def readColon (cs : List Char) : Except Problem (List Char) :=
  match dropBlanks cs with
  | [] => .error .endInObject
  | ':' :: rest => .ok rest
  | _ => .error .noColon

/-- What follows an object, from behind its only member. -/
def closeObject (cs : List Char) : Except Problem (List Char) :=
  match dropBlanks cs with
  | [] => .error .endInObject
  | '}' :: rest => .ok rest
  | ',' :: rest =>
    match dropBlanks rest with
    | [] => .error .endInValue
    | '}' :: _ => .error .trailingComma
    | '"' :: rest => do
      let (name, _) ← readKey rest
      .error (if name = key then .repeatedMember name else .unknownMember name key)
    | _ => .error .noKey
  | _ => .error .noCommaOrBrace

/-- The settings in an object, from behind its opening brace. -/
def readObject (cs : List Char) : Except Problem (Settings × List Char) :=
  match dropBlanks cs with
  | [] => .error .endInObject
  | '}' :: rest => .ok ({}, rest)
  | '"' :: rest => do
    let (name, rest) ← readKey rest
    if name = key then
      let rest ← readColon rest
      let (bound, rest) ← readBound rest
      let rest ← closeObject rest
      .ok (⟨bound⟩, rest)
    else .error (.unknownMember name key)
  | _ => .error .noKey

/-! ### The whole text -/

/-- The settings at the start of a text. -/
def readSettings (cs : List Char) : Except Problem (Settings × List Char) := do
  let (item, rest) ← readItem cs
  match item with
  | .listOpening => readList rest
  | .objectOpening => readObject rest
  | item => .error (.wrongType item expectedSettings)

/-- The settings that a text holds. -/
def ofText (text : String) : Except Problem Settings := do
  let (settings, rest) ← readSettings text.toList
  if dropBlanks rest = [] then .ok settings else .error .trailingCharacters

/-- The report of a text that holds no settings. -/
def report (p : Problem) : String := "invalid unifier configuration: " ++ p.message

end VarRenaming.Settings
