import VarRenaming.Text.Unprintable

/-! # Quoted texts in reports

A report shows a text between quotes. Quotes and backslashes in it follow a backslash, some control
characters are shown by a letter, and the other unprintable characters by their code point in
hexadecimal. -/

namespace VarRenaming.Text

/-- How a character is shown between quotes. -/
def escape (c : Char) : String :=
  match c with
  | '\x00' => "\\0"
  | '\t' => "\\t"
  | '\r' => "\\r"
  | '\n' => "\\n"
  | '\\' => "\\\\"
  | '"' => "\\\""
  | c =>
    if isUnprintable c then "\\u\x7b" ++ String.ofList (Nat.toDigits 16 c.toNat) ++ "\x7d"
    else c.toString

/-- A text between quotes. -/
def quote (s : String) : String := "\"" ++ String.join (s.toList.map escape) ++ "\""

example : quote "a\t\x7f\"\u0301" = "\"a\\t\\u\x7b7f\x7d\\\"\\u\x7b301\x7d\"" := by
  decide +kernel

-- A filler is not shown, and a sound mark that is a letter is.
example : quote "\u3164\uff9e" = "\"\\u\x7b3164\x7d\uff9e\"" := by
  decide +kernel

end VarRenaming.Text
