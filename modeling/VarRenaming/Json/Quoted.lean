import VarRenaming.Json.Problem

/-! # Quoted texts

A quoted text runs to the next quote that does not follow a backslash. A backslash and what follows
it stand for one character: a letter for some control characters, and `u` with four hexadecimal
digits for a unit of sixteen bits, where a leading and a trailing surrogate make up a character
beyond the first 65536. -/

namespace VarRenaming.Json

/-! ### Hexadecimal units -/

/-- The value of a hexadecimal digit. -/
def hexValue? (c : Char) : Option Nat :=
  if '0' ≤ c ∧ c ≤ '9' then some (c.toNat - 48)
  else if 'a' ≤ c ∧ c ≤ 'f' then some (c.toNat - 87)
  else if 'A' ≤ c ∧ c ≤ 'F' then some (c.toNat - 55)
  else none

/-- The value of four hexadecimal digits. -/
def hexUnit? (a b c d : Char) : Option Nat := do
  let a ← hexValue? a
  let b ← hexValue? b
  let c ← hexValue? c
  let d ← hexValue? d
  return ((a * 16 + b) * 16 + c) * 16 + d

/-- The unit of sixteen bits written at the start of a text. The text has ended too early if less than
four bytes are left of it. -/
def readUnit : List Char → Except Problem (Nat × List Char)
  | a :: b :: c :: d :: rest =>
    match hexUnit? a b c d with
    | some unit => .ok (unit, rest)
    | none => .error .badEscape
  | rest => .error (if 4 ≤ (String.ofList rest).utf8ByteSize then .badEscape else .endInText)

/-- Whether a unit is the first of two. -/
def isLeading (unit : Nat) : Bool := 0xD800 ≤ unit && unit ≤ 0xDBFF

/-- Whether a unit is the second of two. -/
def isTrailing (unit : Nat) : Bool := 0xDC00 ≤ unit && unit ≤ 0xDFFF

/-- The character that a leading and a trailing unit make up. -/
def pairChar (leading trailing : Nat) : Char :=
  .ofNat (0x10000 + (leading - 0xD800) * 0x400 + (trailing - 0xDC00))

/-- The trailing unit that must follow a leading one, as an escape of its own. -/
def readTrailing : List Char → Except Problem (Nat × List Char)
  | '\\' :: 'u' :: rest =>
    match readUnit rest with
    | .error p => .error p
    | .ok (unit, rest) => if isTrailing unit then .ok (unit, rest) else .error .loneSurrogate
  | [] | ['\\'] => .error .endInText
  | _ => .error .cutSurrogate

/-- The character written by one unit or two, behind a backslash and `u`. -/
def readUnicode (cs : List Char) : Except Problem (Char × List Char) :=
  match readUnit cs with
  | .error p => .error p
  | .ok (unit, rest) =>
    if isTrailing unit then .error .loneSurrogate
    else if isLeading unit then
      match readTrailing rest with
      | .error p => .error p
      | .ok (trailing, rest) => .ok (pairChar unit trailing, rest)
    else .ok (.ofNat unit, rest)

/-! ### Characters and texts -/

/-- The character that a letter behind a backslash stands for. -/
def escaped? : Char → Option Char
  | '"' => some '"'
  | '\\' => some '\\'
  | '/' => some '/'
  | 'b' => some '\x08'
  | 'f' => some '\x0c'
  | 'n' => some '\n'
  | 'r' => some '\r'
  | 't' => some '\t'
  | _ => none

/-- The character written behind a backslash. -/
def readEscape : List Char → Except Problem (Char × List Char)
  | [] => .error .endInText
  | 'u' :: rest => readUnicode rest
  | c :: rest =>
    match escaped? c with
    | some d => .ok (d, rest)
    | none => .error .badEscape

/-- The next character of a quoted text, where no quote stands. -/
def readChar : List Char → Except Problem (Char × List Char)
  | [] => .error .endInText
  | '\\' :: rest => readEscape rest
  | c :: rest => if c < ' ' then .error .controlCharacter else .ok (c, rest)

theorem length_of_readUnit {cs rest : List Char} {unit : Nat}
    (h : readUnit cs = .ok (unit, rest)) : rest.length < cs.length := by
  unfold readUnit at h
  split at h
  · split at h
    · injection h with h
      obtain ⟨_, rfl⟩ := Prod.mk.inj h
      simp only [List.length_cons]
      omega
    · contradiction
  · contradiction

theorem length_of_readTrailing {cs rest : List Char} {unit : Nat}
    (h : readTrailing cs = .ok (unit, rest)) : rest.length < cs.length := by
  unfold readTrailing at h
  split at h
  · split at h
    · contradiction
    · rename_i hu
      have hlt := length_of_readUnit hu
      split at h
      · injection h with h
        obtain ⟨_, rfl⟩ := Prod.mk.inj h
        simp only [List.length_cons]
        omega
      · contradiction
  · contradiction
  · contradiction
  · contradiction

theorem length_of_readUnicode {cs rest : List Char} {c : Char}
    (h : readUnicode cs = .ok (c, rest)) : rest.length < cs.length := by
  unfold readUnicode at h
  split at h
  · contradiction
  · rename_i hu
    have hlt := length_of_readUnit hu
    split at h
    · contradiction
    · split at h
      · split at h
        · contradiction
        · rename_i ht
          have hlt' := length_of_readTrailing ht
          injection h with h
          obtain ⟨_, rfl⟩ := Prod.mk.inj h
          omega
      · injection h with h
        obtain ⟨_, rfl⟩ := Prod.mk.inj h
        exact hlt

theorem length_of_readEscape {cs rest : List Char} {c : Char}
    (h : readEscape cs = .ok (c, rest)) : rest.length < cs.length := by
  unfold readEscape at h
  split at h
  · contradiction
  · have hlt := length_of_readUnicode h
    simp only [List.length_cons]
    omega
  · split at h
    · injection h with h
      obtain ⟨_, rfl⟩ := Prod.mk.inj h
      simp
    · contradiction

/-- Every character of a quoted text takes up some of it. -/
theorem length_of_readChar {cs rest : List Char} {c : Char}
    (h : readChar cs = .ok (c, rest)) : rest.length < cs.length := by
  unfold readChar at h
  split at h
  · contradiction
  · have hlt := length_of_readEscape h
    simp only [List.length_cons]
    omega
  · split at h
    · contradiction
    · injection h with h
      obtain ⟨_, rfl⟩ := Prod.mk.inj h
      simp

/-- The characters up to the closing quote, and what follows it. The opening quote has been read. -/
def readQuoted (cs : List Char) : Except Problem (List Char × List Char) :=
  match cs with
  | '"' :: rest => .ok ([], rest)
  | cs =>
    match h : readChar cs with
    | .error p => .error p
    | .ok (c, rest) =>
      have := length_of_readChar h
      match readQuoted rest with
      | .error p => .error p
      | .ok (more, rest) => .ok (c :: more, rest)
termination_by cs.length

end VarRenaming.Json
