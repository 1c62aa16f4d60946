import VarRenaming.Json.Item

/-! # Problems of a JSON text

A text is read from left to right, and the first problem found is reported. It is of one of three
categories: the text ends too early, it is no JSON, or it is JSON of another kind than expected. -/

namespace VarRenaming.Json

/-- What is wrong with a text. -/
inductive Problem where
  /-- The text ends where a value must stand or go on. -/
  | endInValue
  /-- The text ends in a list. -/
  | endInList
  /-- The text ends in an object. -/
  | endInObject
  /-- The text ends in a quoted text. -/
  | endInText
  /-- No value starts with this character. -/
  | noValue
  /-- A word other than `null`, `true` and `false`. -/
  | badWord
  /-- The name of a member of an object is no quoted text. -/
  | noKey
  /-- The name of a member is not followed by a colon. -/
  | noColon
  /-- A member of an object is followed by neither a comma nor the closing brace. -/
  | noCommaOrBrace
  /-- A comma stands before the closing bracket. -/
  | trailingComma
  /-- More follows where the text must end. -/
  | trailingCharacters
  /-- A number lacks a digit or has a leading zero. -/
  | badNumber
  /-- A number is too large for a double. -/
  | outOfRange
  /-- A character may not follow a backslash. -/
  | badEscape
  /-- A leading surrogate is not followed by another escape. -/
  | cutSurrogate
  /-- A surrogate stands without its partner. -/
  | loneSurrogate
  /-- A control character stands in a quoted text. -/
  | controlCharacter
  /-- An item of another type than `expected`. -/
  | wrongType (found : Item) (expected : String)
  /-- A number below zero where `expected` admits none. -/
  | belowZero (magnitude : UInt64) (expected : String)
  /-- A member by a name other than the one `expected`. -/
  | unknownMember (name expected : String)
  /-- A second member by the name `name`. -/
  | repeatedMember (name : String)
deriving DecidableEq

/-- The categories of problems. -/
inductive Category where
  /-- The text ends too early. -/
  | cutOff
  /-- The text is not written as JSON is. -/
  | malformed
  /-- The text is JSON of another kind than expected. -/
  | mismatched
deriving DecidableEq

namespace Problem

/-- The category of a problem. -/
def category : Problem → Category
  | endInValue | endInList | endInObject | endInText => .cutOff
  | wrongType .. | belowZero .. | unknownMember .. | repeatedMember .. => .mismatched
  | _ => .malformed

/-- The text that reports a problem. -/
def message : Problem → String
  | endInValue => "EOF while parsing a value"
  | endInList => "EOF while parsing a list"
  | endInObject => "EOF while parsing an object"
  | endInText => "EOF while parsing a string"
  | noValue => "expected value"
  | badWord => "expected ident"
  | noKey => "key must be a string"
  | noColon => "expected `:`"
  | noCommaOrBrace => "expected `,` or `\x7d`"
  | trailingComma => "trailing comma"
  | trailingCharacters => "trailing characters"
  | badNumber => "invalid number"
  | outOfRange => "number out of range"
  | badEscape => "invalid escape"
  | cutSurrogate => "unexpected end of hex escape"
  | loneSurrogate => "lone leading surrogate in hex escape"
  | controlCharacter => "control character (\\u0000-\\u001F) found while parsing a string"
  | wrongType found expected => "invalid type: " ++ found.render ++ ", expected " ++ expected
  | belowZero magnitude expected =>
    "invalid value: integer `" ++ Item.renderNegative magnitude ++ "`, expected " ++ expected
  | unknownMember name expected =>
    "unknown field `" ++ name ++ "`, expected `" ++ expected ++ "`"
  | repeatedMember name => "duplicate field `" ++ name ++ "`"

end Problem

end VarRenaming.Json
