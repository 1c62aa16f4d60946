import VarRenaming.Json.Blank

/-! # How JSON is written

The written forms of tokens: quoted texts (`Quotes`), in which a character stands for itself or is
escaped (`Spelling`), and whole numbers (`Whole`). A text consists of tokens with blanks between and
around them (`Spaced`), and is cut off before one of its tokens, within it or behind it
(`Begins.cut`). -/

namespace VarRenaming.Json

/-! ### Quoted texts -/

/-- A hexadecimal digit, small or capital, and its value. -/
def HexDigit (c : Char) (n : Nat) : Prop :=
  n < 16 ∧ (c = n.digitChar ∨ c = n.digitChar.toUpper)

/-- Four hexadecimal digits and the unit of sixteen bits that they write. -/
inductive HexUnit : List Char → Nat → Prop
  | digits {a b c d : Char} {i j k l : Nat} (ha : HexDigit a i) (hb : HexDigit b j)
      (hc : HexDigit c k) (hd : HexDigit d l) :
      HexUnit [a, b, c, d] (((i * 16 + j) * 16 + k) * 16 + l)

/-- The letters that may follow a backslash, with the characters that they stand for. -/
def escapes : List (Char × Char) :=
  [('"', '"'), ('\\', '\\'), ('/', '/'), ('b', '\x08'), ('f', '\x0c'), ('n', '\n'), ('r', '\r'),
   ('t', '\t')]

/-- What may follow a backslash, and the character that it stands for. -/
inductive Escape : List Char → Char → Prop
  | letter {l c : Char} (h : (l, c) ∈ escapes) : Escape [l] c
  /-- A unit that is no surrogate. -/
  | unit {ds : List Char} {n : Nat} (h : HexUnit ds n) (hn : n < 0xD800 ∨ 0xDFFF < n) :
      Escape ('u' :: ds) (.ofNat n)
  /-- A leading and a trailing surrogate. -/
  | pair {ds es : List Char} {m n : Nat} (hds : HexUnit ds m) (hm : 0xD800 ≤ m ∧ m ≤ 0xDBFF)
      (hes : HexUnit es n) (hn : 0xDC00 ≤ n ∧ n ≤ 0xDFFF) :
      Escape ('u' :: (ds ++ '\\' :: 'u' :: es))
        (.ofNat (0x10000 + (m - 0xD800) * 0x400 + (n - 0xDC00)))

/-- How a character is written in a quoted text. -/
inductive Spelling : List Char → Char → Prop
  | itself {c : Char} (hc : ' ' ≤ c) (hquote : c ≠ '"') (hslash : c ≠ '\\') : Spelling [c] c
  | escaped {e : List Char} {c : Char} (h : Escape e c) : Spelling ('\\' :: e) c

/-- How the characters of a text are written between quotes. -/
inductive Spells : List Char → List Char → Prop
  | nil : Spells [] []
  | cons {e body cs : List Char} {c : Char} (h : Spelling e c) (hbody : Spells body cs) :
      Spells (e ++ body) (c :: cs)

/-- A quoted text. -/
def Quotes (token : List Char) (text : String) : Prop :=
  ∃ body, token = '"' :: (body ++ ['"']) ∧ Spells body text.toList

/-! ### Numbers -/

/-- A number without sign, fraction and exponent, and its value. -/
structure Whole (token : List Char) (n : Nat) : Prop where
  nonempty : token ≠ []
  isDigit : ∀ c ∈ token, c.isDigit
  noLeadingZero : token.head? = some '0' → token = ['0']
  value : Nat.ofDigitChars 10 token 0 = n

/-! ### Tokens in a text -/

/-- Blanks, tabs, line feeds and carriage returns only. -/
def Blanks (ws : List Char) : Prop := ∀ c ∈ ws, c = ' ' ∨ c = '\t' ∨ c = '\n' ∨ c = '\r'

/-- `cs` begins with the tokens, blanks before each of them, and goes on with `rest`. -/
inductive Begins : List (List Char) → List Char → List Char → Prop
  | nil (rest : List Char) : Begins [] rest rest
  | cons {ws token cs rest : List Char} {tokens : List (List Char)} (hws : Blanks ws)
      (h : Begins tokens cs rest) : Begins (token :: tokens) (ws ++ (token ++ cs)) rest

/-- `cs` consists of the tokens, with blanks between and around them. -/
def Spaced (tokens : List (List Char)) (cs : List Char) : Prop :=
  ∃ rest, Begins tokens cs rest ∧ Blanks rest

variable {token cs rest p x : List Char} {tokens : List (List Char)}

theorem spells_self {cs : List Char} (h : cs.all fun c => ' ' ≤ c ∧ c ≠ '"' ∧ c ≠ '\\') :
    Spells cs cs := by
  induction cs with
  | nil => exact .nil
  | cons c cs ih =>
    rw [List.all_cons, Bool.and_eq_true, decide_eq_true_eq] at h
    obtain ⟨⟨hc, hquote, hslash⟩, hcs⟩ := h
    exact Spells.cons (.itself hc hquote hslash) (ih hcs)

theorem blanks_iff {ws : List Char} : Blanks ws ↔ ∀ c ∈ ws, isBlank c := by
  simp only [Blanks, isBlank, Bool.or_eq_true, beq_iff_eq, or_assoc]

instance (ws : List Char) : Decidable (Blanks ws) :=
  decidable_of_iff (ws.all isBlank) (by rw [blanks_iff, List.all_eq_true])

theorem Blanks.nil : Blanks [] := fun _ h => absurd h List.not_mem_nil

theorem begins_nil_iff : Begins [] cs rest ↔ cs = rest := by
  constructor
  · rintro ⟨⟩
    rfl
  · rintro rfl
    exact .nil cs

theorem begins_cons_iff :
    Begins (token :: tokens) cs rest ↔
      ∃ ws mid, Blanks ws ∧ cs = ws ++ (token ++ mid) ∧ Begins tokens mid rest := by
  constructor
  · rintro ⟨⟩
    exact ⟨_, _, ‹_›, rfl, ‹_›⟩
  · rintro ⟨ws, mid, hws, rfl, h⟩
    exact .cons hws h

theorem begins_singleton_iff :
    Begins [token] cs rest ↔ ∃ ws, Blanks ws ∧ cs = ws ++ (token ++ rest) := by
  rw [begins_cons_iff]
  constructor
  · rintro ⟨ws, mid, hws, rfl, h⟩
    obtain rfl := begins_nil_iff.mp h
    exact ⟨ws, hws, rfl⟩
  · rintro ⟨ws, hws, rfl⟩
    exact ⟨ws, rest, hws, rfl, .nil rest⟩

theorem begins_first_iff :
    Begins (token :: tokens) cs rest ↔ ∃ mid, Begins [token] cs mid ∧ Begins tokens mid rest := by
  simp only [begins_singleton_iff]
  rw [begins_cons_iff]
  constructor
  · rintro ⟨ws, mid, hws, hcs, h⟩
    exact ⟨mid, ⟨ws, hws, hcs⟩, h⟩
  · rintro ⟨mid, ⟨ws, hws, hcs⟩, h⟩
    exact ⟨ws, mid, hws, hcs, h⟩

theorem begins_flatten (tokens : List (List Char)) (rest : List Char) :
    Begins tokens (tokens.flatten ++ rest) rest := by
  induction tokens with
  | nil => exact .nil rest
  | cons token tokens ih =>
    rw [List.flatten_cons, List.append_assoc]
    exact begins_cons_iff.mpr ⟨[], _, .nil, rfl, ih⟩

/-! ### Texts cut off -/

/-- What is left of a text cut in two lies within the first part of it, or goes beyond. -/
theorem cut_append {cs ds p x : List Char} (h : cs ++ ds = p ++ x) :
    (∃ y, y ≠ [] ∧ cs = p ++ y) ∨ ∃ q, p = cs ++ q ∧ ds = q ++ x := by
  rcases List.append_eq_append_iff.mp h with ⟨q, hp, hds⟩ | ⟨y, hcs, hx⟩
  · exact Or.inr ⟨q, hp, hds⟩
  · by_cases hy : y = []
    · subst hy
      exact Or.inr ⟨[], by simpa using hcs.symm, by simpa using hx.symm⟩
    · exact Or.inl ⟨y, hy, hcs⟩

/-- **A text cut off** is cut off before its first token, within it or behind it. -/
theorem Begins.cut (h : Begins [token] (p ++ x) rest) :
    Blanks p ∨ (∃ p' y, Begins [p'] p [] ∧ p' ≠ [] ∧ y ≠ [] ∧ token = p' ++ y) ∨
      ∃ q, Begins [token] p q ∧ rest = q ++ x := by
  obtain ⟨ws, hws, heq⟩ := begins_singleton_iff.mp h
  rcases cut_append heq.symm with ⟨y, -, rfl⟩ | ⟨p', rfl, htail⟩
  · exact Or.inl (List.forall_mem_append.mp hws).1
  · rcases cut_append htail with ⟨y, hy, htoken⟩ | ⟨q, rfl, hrest⟩
    · by_cases hp' : p' = []
      · rw [hp', List.append_nil]
        exact Or.inl hws
      · exact Or.inr (Or.inl ⟨p', y, begins_singleton_iff.mpr ⟨ws, hws, by simp⟩, hp', hy, htoken⟩)
    · exact Or.inr (Or.inr ⟨q, begins_singleton_iff.mpr ⟨ws, hws, rfl⟩, hrest⟩)

theorem Begins.cut_char {c : Char} (h : Begins [[c]] (p ++ x) rest) :
    Blanks p ∨ ∃ q, Begins [[c]] p q ∧ rest = q ++ x := by
  rcases h.cut with hp | ⟨p', y, -, hp', hy, heq⟩ | hq
  · exact Or.inl hp
  · rcases List.singleton_eq_append_iff.mp heq with ⟨h, -⟩ | ⟨-, h⟩
    · exact absurd h hp'
    · exact absurd h hy
  · exact Or.inr hq

end VarRenaming.Json
