import Mathlib.Data.List.TakeDrop
import VarRenaming.Json.Numeral
import VarRenaming.Proofs.Json.Grammar

/-! # Reading numerals

A whole number is only read as one where the text does not go on as a number (`EndsNumber`,
`readNumeral_eq_ok_iff`), and it is a natural number if it fits 64 bits (`item_eq_natural_iff`).
What is left of it when it is cut off is a whole number again (`Whole.exists_prefix`). -/

namespace VarRenaming.Json

variable {cs rest ds token : List Char} {n : Nat}

theorem bind_eq_ok_iff {ε α β : Type} {r : Except ε α} {f : α → Except ε β} {b : β} :
    r >>= f = .ok b ↔ ∃ a, r = .ok a ∧ f a = .ok b := by
  cases r with
  | error e => simp only [bind, Except.bind, reduceCtorEq, false_and, exists_false]
  | ok a => simp only [bind, Except.bind, Except.ok.injEq, exists_eq_left']

/-! ### Whole numbers -/

theorem head?_toDigits {n : Nat} (hn : n ≠ 0) : (Nat.toDigits 10 n).head? ≠ some '0' := by
  induction n using Nat.strongRecOn with
  | ind n ih =>
    by_cases hlt : n < 10
    · have hdigit : ∀ m < 10, m ≠ 0 → m.digitChar ≠ '0' := by decide
      rw [Nat.toDigits_of_lt_base hlt]
      simpa using hdigit n hlt hn
    · have hquot := ih (n / 10) (by omega) (by omega)
      obtain ⟨c, cs, hcs⟩ := List.exists_cons_of_ne_nil (Nat.toDigits_ne_nil (n := n / 10) (b := 10))
      rw [hcs] at hquot
      rw [Nat.toDigits_of_base_le (by decide) (by omega), hcs]
      exact hquot

theorem whole_toDigits (n : Nat) : Whole (Nat.toDigits 10 n) n where
  nonempty := Nat.toDigits_ne_nil
  isDigit _ hc := Nat.isDigit_of_mem_toDigits (by decide) (by decide) hc
  noLeadingZero hzero := by
    by_cases hn : n = 0
    · rw [hn, Nat.toDigits_zero]
    · exact absurd hzero (head?_toDigits hn)
  value := Nat.ofDigitChars_ten_toDigits

theorem Whole.exists_prefix {p y : List Char} (h : Whole token n) (hcut : token = p ++ y)
    (hp : p ≠ []) : ∃ m ≤ n, Whole p m := by
  subst hcut
  refine ⟨Nat.ofDigitChars 10 p 0, ?_, hp, fun c hc => h.isDigit c (List.mem_append_left y hc), ?_,
    rfl⟩
  · rw [← h.value, Nat.ofDigitChars_append, Nat.ofDigitChars_eq_ofDigitChars_zero (l := y)]
    have hpow : 0 < 10 ^ y.length := Nat.pow_pos (by decide)
    have hmul := Nat.le_mul_of_pos_left (Nat.ofDigitChars 10 p 0) hpow
    omega
  · intro hzero
    obtain ⟨c, tail, rfl⟩ := List.exists_cons_of_ne_nil hp
    obtain ⟨rfl, htail⟩ := List.cons.inj (h.noLeadingZero hzero)
    rw [(List.append_eq_nil_iff.mp htail).1]

/-- The text does not go on as a number. -/
def EndsNumber (rest : List Char) : Prop :=
  ∀ c ∈ rest.head?, c.isDigit = false ∧ c ≠ '.' ∧ c ≠ 'e' ∧ c ≠ 'E'

theorem EndsNumber.nil : EndsNumber [] := nofun

instance : (rest : List Char) → Decidable (EndsNumber rest)
  | [] => isTrue .nil
  | c :: _ => decidable_of_iff (c.isDigit = false ∧ c ≠ '.' ∧ c ≠ 'e' ∧ c ≠ 'E')
      ⟨fun h _ hd => Option.some.inj hd ▸ h, fun h => h c rfl⟩

theorem EndsNumber.of_append {x : List Char} (h : EndsNumber (rest ++ x)) : EndsNumber rest := by
  cases rest with
  | nil => exact .nil
  | cons c rest => exact h

theorem Begins.endsNumber {c : Char} (h : Begins [[c]] cs rest) (hc : EndsNumber [c]) :
    EndsNumber cs := by
  obtain ⟨ws, hws, rfl⟩ := begins_singleton_iff.mp h
  intro d hd
  cases ws with
  | nil => exact hc d hd
  | cons w ws =>
    obtain rfl : w = d := Option.some.inj hd
    rcases hws w List.mem_cons_self with rfl | rfl | rfl | rfl <;> decide

/-! ### Parts -/

theorem span_isDigit_eq_iff :
    cs.span Char.isDigit = (ds, rest) ↔
      (∀ c ∈ ds, c.isDigit) ∧ (∀ c ∈ rest.head?, c.isDigit = false) ∧ cs = ds ++ rest := by
  rw [List.span_eq_takeWhile_dropWhile, Prod.mk.injEq]
  constructor
  · rintro ⟨rfl, rfl⟩
    refine ⟨fun c hc => ?_, fun c hc => ?_, List.takeWhile_append_dropWhile.symm⟩
    · exact List.all_eq_true.mp List.all_takeWhile c hc
    · have hnot := List.head?_dropWhile_not Char.isDigit cs
      rw [Option.mem_def.mp hc] at hnot
      exact hnot
  · rintro ⟨hds, hrest, rfl⟩
    rw [List.takeWhile_append_of_pos hds, List.dropWhile_append_of_pos hds]
    cases rest with
    | nil => exact ⟨List.append_nil ds, rfl⟩
    | cons c rest =>
      have hc : ¬ c.isDigit = true := Bool.eq_false_iff.mp (hrest c rfl)
      rw [List.takeWhile_cons_of_neg hc, List.dropWhile_cons_of_neg hc]
      exact ⟨List.append_nil ds, rfl⟩

theorem readDigits_eq_ok_iff :
    readDigits cs = .ok (ds, rest) ↔
      (ds ≠ [] ∧ ∀ c ∈ ds, c.isDigit) ∧ (∀ c ∈ rest.head?, c.isDigit = false) ∧ cs = ds ++ rest := by
  rw [and_assoc, ← span_isDigit_eq_iff]
  unfold readDigits
  split
  · next h =>
    rw [h]
    exact iff_of_false nofun fun ⟨hne, heq⟩ => hne (Prod.mk.inj heq).1.symm
  · next h =>
    rw [h]
    exact iff_of_false nofun fun ⟨hne, heq⟩ => hne (Prod.mk.inj heq).1.symm
  · next digits tail hend hnext h =>
    rw [h]
    simp only [Except.ok.injEq, Prod.mk.injEq]
    constructor
    · rintro ⟨rfl, rfl⟩
      refine ⟨?_, rfl, rfl⟩
      rintro rfl
      cases tail with
      | nil => exact hend rfl rfl
      | cons c tail => exact hnext c tail rfl rfl
    · exact And.right

theorem readWhole_eq_ok_iff :
    readWhole cs = .ok (ds, rest) ↔
      Whole ds (Nat.ofDigitChars 10 ds 0) ∧ (∀ c ∈ rest.head?, c.isDigit = false) ∧
        cs = ds ++ rest := by
  unfold readWhole
  simp only [bind_eq_ok_iff, Prod.exists, readDigits_eq_ok_iff]
  constructor
  · rintro ⟨digits, tail, ⟨⟨hne, hdigits⟩, htail⟩, h⟩
    split at h
    · cases h
    · next hzero =>
      obtain ⟨rfl, rfl⟩ := Prod.mk.inj (Except.ok.inj h)
      refine ⟨⟨hne, hdigits, fun hhead => ?_, rfl⟩, htail⟩
      obtain ⟨c, more, rfl⟩ := List.exists_cons_of_ne_nil hne
      obtain rfl : c = '0' := Option.some.inj hhead
      cases more with
      | nil => rfl
      | cons d more => exact absurd rfl (hzero d more)
  · rintro ⟨hds, htail⟩
    refine ⟨ds, rest, ⟨⟨hds.nonempty, hds.isDigit⟩, htail⟩, ?_⟩
    split
    · next d more _ => cases hds.noLeadingZero rfl
    · rfl

theorem readFraction_eq_nil_iff :
    readFraction cs = .ok ([], rest) ↔ cs = rest ∧ ∀ c ∈ rest.head?, c ≠ '.' := by
  unfold readFraction
  split
  · next tail =>
    refine iff_of_false ?_ ?_
    · rw [readDigits_eq_ok_iff]
      exact fun h => h.1.1 rfl
    · rintro ⟨rfl, hpoint⟩
      exact hpoint '.' rfl rfl
  · next hpoint =>
    simp only [Except.ok.injEq, Prod.mk.injEq, true_and]
    refine ⟨?_, And.left⟩
    rintro rfl
    refine ⟨rfl, ?_⟩
    rintro c hc rfl
    obtain ⟨tail, rfl⟩ := List.head?_eq_some_iff.mp hc
    exact hpoint tail rfl

theorem readExponent_eq_none_iff :
    readExponent cs = .ok (none, rest) ↔ cs = rest ∧ ∀ c ∈ rest.head?, c ≠ 'e' ∧ c ≠ 'E' := by
  unfold readExponent
  split
  · next c tail =>
    by_cases hc : c = 'e' ∨ c = 'E'
    · rw [if_pos hc]
      refine iff_of_false ?_ ?_
      · simp [bind_eq_ok_iff]
      · rintro ⟨rfl, hrest⟩
        obtain ⟨he, hE⟩ := hrest c rfl
        exact hc.elim he hE
    · rw [if_neg hc]
      simp only [Except.ok.injEq, Prod.mk.injEq, true_and]
      refine ⟨?_, And.left⟩
      rintro rfl
      refine ⟨rfl, fun d hd => ?_⟩
      obtain rfl : c = d := Option.some.inj hd
      exact not_or.mp hc
  · simp only [Except.ok.injEq, Prod.mk.injEq, true_and]
    refine ⟨?_, And.left⟩
    rintro rfl
    exact ⟨rfl, nofun⟩

theorem endsNumber_iff :
    EndsNumber rest ↔ (∀ c ∈ rest.head?, c.isDigit = false) ∧ (∀ c ∈ rest.head?, c ≠ '.') ∧
      ∀ c ∈ rest.head?, c ≠ 'e' ∧ c ≠ 'E' := by
  simp only [EndsNumber, forall_and]

/-- **A whole number** is read, without sign, fraction and exponent, where the text does not go on as
a number. -/
theorem readNumeral_eq_ok_iff :
    readNumeral cs = .ok (⟨false, token, [], none⟩, rest) ↔
      Whole token (Nat.ofDigitChars 10 token 0) ∧ EndsNumber rest ∧ cs = token ++ rest := by
  unfold readNumeral
  split
  next negative body hsign =>
  simp only [bind_eq_ok_iff, Prod.exists, readWhole_eq_ok_iff]
  constructor
  · rintro ⟨whole, cs₁, ⟨hwhole, hdigit, rfl⟩, fraction, cs₂, hfraction, exponent, cs₃, hexponent,
      heq⟩
    obtain ⟨hnumeral, rfl⟩ := Prod.mk.inj (Except.ok.inj heq)
    obtain ⟨rfl, rfl, rfl, rfl⟩ := Numeral.mk.inj hnumeral
    obtain ⟨rfl, hpoint⟩ := readFraction_eq_nil_iff.mp hfraction
    obtain ⟨rfl, he⟩ := readExponent_eq_none_iff.mp hexponent
    refine ⟨hwhole, endsNumber_iff.mpr ⟨hdigit, hpoint, he⟩, ?_⟩
    split at hsign
    · cases hsign
    · exact (Prod.mk.inj hsign).2
  · rintro ⟨hwhole, hends, rfl⟩
    obtain ⟨hdigit, hpoint, he⟩ := endsNumber_iff.mp hends
    have hbody : negative = false ∧ body = token ++ rest := by
      split at hsign
      · next heq =>
        -- a minus sign is no digit
        obtain ⟨c, more, rfl⟩ := List.exists_cons_of_ne_nil hwhole.nonempty
        obtain ⟨rfl, -⟩ := List.cons.inj heq
        exact absurd (hwhole.isDigit _ List.mem_cons_self) (by decide)
      · obtain ⟨rfl, rfl⟩ := Prod.mk.inj hsign
        exact ⟨rfl, rfl⟩
    obtain ⟨rfl, rfl⟩ := hbody
    exact ⟨token, rest, ⟨hwhole, hdigit, rfl⟩, [], rest, readFraction_eq_nil_iff.mpr ⟨rfl, hpoint⟩,
      none, rest, readExponent_eq_none_iff.mpr ⟨rfl, he⟩, rfl⟩

/-! ### Values -/

/-- **A numeral is a natural number** if it is whole and fits 64 bits. -/
theorem Numeral.item_eq_natural_iff {m : Numeral} {value : UInt64} :
    m.item = .ok (.natural value) ↔
      m = ⟨false, m.whole, [], none⟩ ∧ Nat.ofDigitChars 10 m.whole 0 = value.toNat := by
  obtain ⟨negative, whole, fraction, exponent⟩ := m
  constructor
  · intro h
    unfold Numeral.item at h
    dsimp only at h
    split at h
    · next hwhole =>
      obtain ⟨rfl, rfl, hsign, hle⟩ := hwhole
      obtain rfl : negative = false := by simpa using hsign
      obtain rfl := Item.natural.inj (Except.ok.inj h)
      have hlt : Nat.ofDigitChars 10 whole 0 < UInt64.size := Nat.lt_of_le_of_lt hle (by decide)
      exact ⟨rfl, (UInt64.toNat_ofNat_of_lt' hlt).symm⟩
    · split at h
      · cases h
      · split at h <;> cases h
  · rintro ⟨heq, hvalue⟩
    rw [heq]
    have hle : Nat.ofDigitChars 10 whole 0 ≤ greatest := by
      rw [hvalue]
      exact Nat.le_sub_one_of_lt value.toNat_lt
    have hitem : Numeral.item ⟨false, whole, [], none⟩ =
        .ok (.natural (.ofNat (Nat.ofDigitChars 10 whole 0))) := if_pos ⟨rfl, rfl, rfl, hle⟩
    rw [hitem, hvalue, UInt64.ofNat_toNat]

end VarRenaming.Json
