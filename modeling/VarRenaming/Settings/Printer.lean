import VarRenaming.Settings.Basic

/-! # Writing settings

Settings are written as a JSON object with one member, without blanks between its tokens. -/

namespace VarRenaming.Settings

/-- The name of the only member. -/
def key : String := "max_alternatives"

/-- The tokens of the text of settings. -/
def tokens (s : Settings) : List String :=
  ["\x7b", "\"" ++ key ++ "\"", ":", toString s.maxAlternatives.toNat, "\x7d"]

/-- The text of settings. -/
def render (s : Settings) : String := String.join s.tokens

end VarRenaming.Settings
