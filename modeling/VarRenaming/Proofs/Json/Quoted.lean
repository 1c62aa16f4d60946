import VarRenaming.Json.Quoted
import VarRenaming.Proofs.Json.Grammar

/-! # Reading quoted texts

Each reader of a part of a quoted text accepts what is written in that form and nothing else, up to
`readQuoted_eq_ok_iff` for a whole text. A form that is cut off is reported as a text that ends too
early (`readQuoted_cut`), since a hexadecimal digit takes one byte and so no cut is taken for a
wrong digit. -/

namespace VarRenaming.Json

variable {cs rest p x : List Char} {c : Char} {n : Nat}

/-! ### Hexadecimal units -/

theorem hexValue?_digitChar : ∀ n < 16, hexValue? n.digitChar = some n := by decide

theorem hexValue?_toUpper_digitChar : ∀ n < 16, hexValue? n.digitChar.toUpper = some n := by decide

theorem digitChar_of_lt_ten : ∀ n < 10, Char.ofNat (n + 48) = n.digitChar := by decide

theorem digitChar_of_lt_six : ∀ n < 6, Char.ofNat (n + 97) = (n + 10).digitChar := by decide

theorem toUpper_digitChar_of_lt_six :
    ∀ n < 6, Char.ofNat (n + 65) = (n + 10).digitChar.toUpper := by decide

theorem hexValue?_eq_some_iff : hexValue? c = some n ↔ HexDigit c n := by
  constructor
  · intro h
    unfold hexValue? at h
    split at h
    · next hc =>
      have hlow : 48 ≤ c.toNat := hc.1
      have hhigh : c.toNat ≤ 57 := hc.2
      obtain rfl := Option.some.inj h
      refine ⟨by omega, Or.inl ?_⟩
      rw [← digitChar_of_lt_ten _ (by omega), Nat.sub_add_cancel hlow, Char.ofNat_toNat]
    · split at h
      · next hc =>
        have hlow : 97 ≤ c.toNat := hc.1
        have hhigh : c.toNat ≤ 102 := hc.2
        obtain rfl := Option.some.inj h
        refine ⟨by omega, Or.inl ?_⟩
        have hvalue : c.toNat - 87 = (c.toNat - 97) + 10 := by omega
        rw [hvalue, ← digitChar_of_lt_six _ (by omega), Nat.sub_add_cancel hlow, Char.ofNat_toNat]
      · split at h
        · next hc =>
          have hlow : 65 ≤ c.toNat := hc.1
          have hhigh : c.toNat ≤ 70 := hc.2
          obtain rfl := Option.some.inj h
          refine ⟨by omega, Or.inr ?_⟩
          have hvalue : c.toNat - 55 = (c.toNat - 65) + 10 := by omega
          rw [hvalue, ← toUpper_digitChar_of_lt_six _ (by omega), Nat.sub_add_cancel hlow,
            Char.ofNat_toNat]
        · cases h
  · rintro ⟨hn, rfl | rfl⟩
    · exact hexValue?_digitChar n hn
    · exact hexValue?_toUpper_digitChar n hn

theorem hexUnit?_eq_some_iff {a b c d : Char} :
    hexUnit? a b c d = some n ↔ HexUnit [a, b, c, d] n := by
  simp only [hexUnit?, bind, Option.bind_eq_some_iff, hexValue?_eq_some_iff, pure,
    Option.some.injEq]
  constructor
  · rintro ⟨i, ha, j, hb, k, hc, l, hd, rfl⟩
    exact .digits ha hb hc hd
  · rintro ⟨ha, hb, hc, hd⟩
    exact ⟨_, ha, _, hb, _, hc, _, hd, rfl⟩

theorem HexUnit.readUnit_append {ds : List Char} (h : HexUnit ds n) (rest : List Char) :
    readUnit (ds ++ rest) = .ok (n, rest) := by
  cases h with
  | digits ha hb hc hd =>
    have hunit := hexUnit?_eq_some_iff.mpr (HexUnit.digits ha hb hc hd)
    simp only [List.cons_append, List.nil_append, readUnit, hunit]

theorem readUnit_eq_ok_iff :
    readUnit cs = .ok (n, rest) ↔ ∃ ds, HexUnit ds n ∧ cs = ds ++ rest := by
  constructor
  · intro h
    unfold readUnit at h
    split at h
    · split at h
      · next hunit =>
        obtain ⟨rfl, rfl⟩ := Prod.mk.inj (Except.ok.inj h)
        exact ⟨_, hexUnit?_eq_some_iff.mp hunit, rfl⟩
      · cases h
    · cases h
  · rintro ⟨ds, hds, rfl⟩
    exact hds.readUnit_append rest

/-! ### Escapes -/

theorem readTrailing_eq_ok_iff :
    readTrailing cs = .ok (n, rest) ↔
      ∃ ds, HexUnit ds n ∧ (0xDC00 ≤ n ∧ n ≤ 0xDFFF) ∧ cs = '\\' :: 'u' :: (ds ++ rest) := by
  have htrailing : isTrailing n = true ↔ 0xDC00 ≤ n ∧ n ≤ 0xDFFF := by
    simp only [isTrailing, Bool.and_eq_true, decide_eq_true_eq]
  constructor
  · intro h
    unfold readTrailing at h
    split at h
    · split at h
      · cases h
      · next hunit =>
        split at h
        · next ht =>
          obtain ⟨rfl, rfl⟩ := Prod.mk.inj (Except.ok.inj h)
          obtain ⟨ds, hds, rfl⟩ := readUnit_eq_ok_iff.mp hunit
          exact ⟨ds, hds, htrailing.mp ht, rfl⟩
        · cases h
    · cases h
    · cases h
    · cases h
  · rintro ⟨ds, hds, hn, rfl⟩
    simp only [readTrailing, hds.readUnit_append, htrailing.mpr hn, if_true]

theorem escaped?_escapes : ∀ b ∈ escapes, escaped? b.1 = some b.2 := by decide

theorem escaped?_eq_some_iff {l : Char} : escaped? l = some c ↔ (l, c) ∈ escapes := by
  constructor
  · intro h
    unfold escaped? at h
    split at h <;> simp only [Option.some.injEq, reduceCtorEq] at h <;> subst h <;> decide
  · exact escaped?_escapes (l, c)

theorem not_mem_escapes : ('u', c) ∉ escapes := by
  intro h
  cases escaped?_escapes _ h

theorem readUnicode_eq_ok_iff :
    readUnicode cs = .ok (c, rest) ↔ ∃ e, Escape ('u' :: e) c ∧ cs = e ++ rest := by
  constructor
  · intro h
    unfold readUnicode at h
    split at h
    · cases h
    · next m tail hunit =>
      obtain ⟨ds, hds, rfl⟩ := readUnit_eq_ok_iff.mp hunit
      simp only [isTrailing, isLeading, Bool.and_eq_true, decide_eq_true_eq] at h
      split at h
      · cases h
      · next htrailing =>
        split at h
        · next hleading =>
          split at h
          · cases h
          · next n tail' hpair =>
            obtain ⟨es, hes, hn, rfl⟩ := readTrailing_eq_ok_iff.mp hpair
            obtain ⟨rfl, rfl⟩ := Prod.mk.inj (Except.ok.inj h)
            exact ⟨_, .pair hds hleading hes hn, by simp⟩
        · next hleading =>
          obtain ⟨rfl, rfl⟩ := Prod.mk.inj (Except.ok.inj h)
          exact ⟨ds, .unit hds (by omega), rfl⟩
  · rintro ⟨e, he, rfl⟩
    cases he with
    | letter h => exact absurd h not_mem_escapes
    | @unit ds n hds hn =>
      have htrailing : ¬ (0xDC00 ≤ n ∧ n ≤ 0xDFFF) := by omega
      have hleading : ¬ (0xD800 ≤ n ∧ n ≤ 0xDBFF) := by omega
      simp only [readUnicode, hds.readUnit_append, isTrailing, isLeading, Bool.and_eq_true,
        decide_eq_true_eq, htrailing, hleading, if_false]
    | @pair ds es m n hds hm hes hn =>
      have htrailing : ¬ (0xDC00 ≤ m ∧ m ≤ 0xDFFF) := by omega
      have hpair : readTrailing ('\\' :: 'u' :: (es ++ rest)) = .ok (n, rest) :=
        readTrailing_eq_ok_iff.mpr ⟨es, hes, hn, rfl⟩
      simp only [List.append_assoc, List.cons_append, readUnicode, hds.readUnit_append, hpair,
        isTrailing, isLeading, Bool.and_eq_true, decide_eq_true_eq, htrailing, hm, and_self, if_false,
        if_true, pairChar]

theorem readEscape_eq_ok_iff :
    readEscape cs = .ok (c, rest) ↔ ∃ e, Escape e c ∧ cs = e ++ rest := by
  constructor
  · intro h
    unfold readEscape at h
    split at h
    · cases h
    · obtain ⟨e, he, rfl⟩ := readUnicode_eq_ok_iff.mp h
      exact ⟨_, he, rfl⟩
    · split at h
      · next hletter =>
        obtain ⟨rfl, rfl⟩ := Prod.mk.inj (Except.ok.inj h)
        exact ⟨_, .letter (escaped?_eq_some_iff.mp hletter), rfl⟩
      · cases h
  · rintro ⟨e, he, rfl⟩
    cases he with
    | @letter l _ h =>
      have hl : l ≠ 'u' := by
        rintro rfl
        exact not_mem_escapes h
      simp only [List.cons_append, List.nil_append, readEscape, escaped?_eq_some_iff.mpr h]
    | unit hds hn => exact readUnicode_eq_ok_iff.mpr ⟨_, .unit hds hn, rfl⟩
    | pair hds hm hes hn => exact readUnicode_eq_ok_iff.mpr ⟨_, .pair hds hm hes hn, rfl⟩

/-! ### Characters -/

theorem Spelling.exists_cons {e : List Char} (h : Spelling e c) :
    ∃ d tail, e = d :: tail ∧ d ≠ '"' := by
  cases h with
  | itself _ hquote _ => exact ⟨c, [], rfl, hquote⟩
  | escaped _ => exact ⟨'\\', _, rfl, by decide⟩

theorem readChar_eq_ok_iff (hquote : ∀ tail, cs ≠ '"' :: tail) :
    readChar cs = .ok (c, rest) ↔ ∃ e, Spelling e c ∧ cs = e ++ rest := by
  constructor
  · intro h
    unfold readChar at h
    split at h
    · cases h
    · obtain ⟨e, he, rfl⟩ := readEscape_eq_ok_iff.mp h
      exact ⟨_, .escaped he, rfl⟩
    · next d tail hslash =>
      split at h
      · cases h
      · next hcontrol =>
        obtain ⟨rfl, rfl⟩ := Prod.mk.inj (Except.ok.inj h)
        have hne : d ≠ '"' := by
          rintro rfl
          exact hquote _ rfl
        have hne' : d ≠ '\\' := by
          rintro rfl
          exact hslash rfl
        exact ⟨[d], .itself (Char.not_lt.mp hcontrol) hne hne', rfl⟩
  · rintro ⟨e, he, rfl⟩
    cases he with
    | itself hc _ hslash =>
      have hcontrol : ¬ c < ' ' := Char.not_lt.mpr hc
      simp only [List.cons_append, List.nil_append, readChar, hcontrol, if_false]
    | escaped he => exact readEscape_eq_ok_iff.mpr ⟨_, he, rfl⟩

/-! ### Whole texts -/

theorem readQuoted_of_readChar (hquote : ∀ tail, cs ≠ '"' :: tail)
    (h : readChar cs = .ok (c, rest)) :
    readQuoted cs = (readQuoted rest).map fun r => (c :: r.1, r.2) := by
  rw [readQuoted]
  split
  · next hp =>
    rw [h] at hp
    cases hp
  · next hok =>
    rw [h] at hok
    obtain ⟨rfl, rfl⟩ := Prod.mk.inj (Except.ok.inj hok)
    split <;> next hrest => rw [hrest]; rfl
  · exact hquote

theorem readQuoted_of_readChar_error {q : Problem} (hquote : ∀ tail, cs ≠ '"' :: tail)
    (h : readChar cs = .error q) : readQuoted cs = .error q := by
  rw [readQuoted]
  split
  · next hp =>
    rw [h] at hp
    rw [Except.error.inj hp]
  · next hok =>
    rw [h] at hok
    cases hok
  · exact hquote

theorem Spelling.append_ne {e : List Char} (h : Spelling e c) (cs tail : List Char) :
    e ++ cs ≠ '"' :: tail := by
  obtain ⟨d, e', rfl, hd⟩ := h.exists_cons
  intro heq
  exact hd (List.cons.inj heq).1

/-- **A quoted text** is read to its closing quote, as what it is written for. -/
theorem readQuoted_eq_ok_iff {value : List Char} :
    readQuoted cs = .ok (value, rest) ↔
      ∃ body, Spells body value ∧ cs = body ++ '"' :: rest := by
  constructor
  · intro h
    induction cs using readQuoted.induct generalizing value rest with
    | case1 tail =>
      rw [readQuoted] at h
      obtain ⟨rfl, rfl⟩ := Prod.mk.inj (Except.ok.inj h)
      exact ⟨[], .nil, rfl⟩
    | case2 cs hquote p hp =>
      rw [readQuoted_of_readChar_error hquote hp] at h
      cases h
    | case3 cs hquote c mid hc _ p hp _ =>
      rw [readQuoted_of_readChar hquote hc, hp] at h
      cases h
    | case4 cs hquote c mid hc _ more tail hmore ih =>
      rw [readQuoted_of_readChar hquote hc, hmore] at h
      obtain ⟨rfl, rfl⟩ := Prod.mk.inj (Except.ok.inj h)
      obtain ⟨e, he, rfl⟩ := (readChar_eq_ok_iff hquote).mp hc
      obtain ⟨body, hbody, rfl⟩ := ih hmore
      exact ⟨e ++ body, .cons he hbody, (List.append_assoc ..).symm⟩
  · rintro ⟨body, h, rfl⟩
    induction h with
    | nil => exact readQuoted.eq_1 rest
    | @cons e body more c he _ ih =>
      have hquote := he.append_ne (body ++ '"' :: rest)
      have hc : readChar (e ++ (body ++ '"' :: rest)) = .ok (c, body ++ '"' :: rest) :=
        (readChar_eq_ok_iff hquote).mpr ⟨e, he, rfl⟩
      rw [List.append_assoc, readQuoted_of_readChar hquote hc, ih]
      rfl

/-! ### Texts cut off -/

theorem HexDigit.utf8Size (h : HexDigit c n) : c.utf8Size = 1 := by
  have hall : ∀ n < 16, n.digitChar.utf8Size = 1 ∧ n.digitChar.toUpper.utf8Size = 1 := by decide
  obtain ⟨hn, rfl | rfl⟩ := h
  · exact (hall n hn).1
  · exact (hall n hn).2

theorem utf8ByteSize_ofList (h : ∀ c ∈ cs, c.utf8Size = 1) :
    (String.ofList cs).utf8ByteSize = cs.length := by
  induction cs with
  | nil => rfl
  | cons c cs ih =>
    obtain ⟨hc, hcs⟩ := List.forall_mem_cons.mp h
    rw [String.ofList_cons, String.utf8ByteSize_append, String.utf8ByteSize_singleton, hc, ih hcs,
      List.length_cons, Nat.add_comm]

theorem HexUnit.readUnit_cut {ds : List Char} (h : HexUnit ds n) (hcut : ds = p ++ x)
    (hx : x ≠ []) : readUnit p = .error .endInText := by
  have hsize : ∀ c ∈ ds, c.utf8Size = 1 := by
    cases h with
    | digits ha hb hc hd =>
      simp only [List.mem_cons, List.not_mem_nil, or_false]
      rintro _ (rfl | rfl | rfl | rfl)
      · exact ha.utf8Size
      · exact hb.utf8Size
      · exact hc.utf8Size
      · exact hd.utf8Size
  have hlen : p.length + x.length = 4 := by
    rw [← List.length_append, ← hcut]
    cases h
    rfl
  have hpos : 0 < x.length := List.length_pos_iff.mpr hx
  have hbytes : (String.ofList p).utf8ByteSize = p.length :=
    utf8ByteSize_ofList fun c hc => hsize c (by rw [hcut]; exact List.mem_append_left x hc)
  unfold readUnit
  split
  · simp only [List.length_cons] at hlen
    omega
  · rw [if_neg (by omega)]

theorem HexUnit.readTrailing_cut {es : List Char} (h : HexUnit es n)
    (hcut : '\\' :: 'u' :: es = p ++ x) (hx : x ≠ []) : readTrailing p = .error .endInText := by
  cases p with
  | nil => rfl
  | cons d p =>
    obtain ⟨hd, htail⟩ := List.cons.inj hcut
    subst hd
    cases p with
    | nil => rfl
    | cons d p =>
      obtain ⟨hd, hunit⟩ := List.cons.inj htail
      subst hd
      rw [readTrailing, h.readUnit_cut hunit hx]

theorem Escape.readEscape_cut {e : List Char} (h : Escape e c) (hcut : e = p ++ x)
    (hx : x ≠ []) : readEscape p = .error .endInText := by
  cases p with
  | nil => rfl
  | cons d p =>
    cases h with
    | letter h =>
      obtain ⟨rfl, htail⟩ := List.cons.inj hcut
      exact absurd (List.append_eq_nil_iff.mp htail.symm).2 hx
    | unit hds hn =>
      obtain ⟨rfl, htail⟩ := List.cons.inj hcut
      show readUnicode p = _
      rw [readUnicode, hds.readUnit_cut htail hx]
    | @pair ds es m n hds hm hes hn =>
      obtain ⟨rfl, htail⟩ := List.cons.inj hcut
      show readUnicode p = _
      rcases cut_append htail with ⟨y, hy, rfl⟩ | ⟨q, rfl, hq⟩
      · rw [readUnicode, hds.readUnit_cut rfl hy]
      · -- the leading unit is whole, so the trailing one is cut off
        have htrailing := hes.readTrailing_cut hq hx
        have hnot : ¬ (0xDC00 ≤ m ∧ m ≤ 0xDFFF) := by omega
        simp only [readUnicode, hds.readUnit_append, htrailing, isTrailing, isLeading,
          Bool.and_eq_true, decide_eq_true_eq, hnot, hm, and_self, if_false, if_true]

theorem Spelling.readChar_cut {e : List Char} (h : Spelling e c) (hcut : e = p ++ x)
    (hx : x ≠ []) : readChar p = .error .endInText := by
  cases p with
  | nil => rfl
  | cons d p =>
    cases h with
    | itself _ _ _ =>
      obtain ⟨_, htail⟩ := List.cons.inj hcut
      exact absurd (List.append_eq_nil_iff.mp htail.symm).2 hx
    | escaped he =>
      obtain ⟨hd, htail⟩ := List.cons.inj hcut
      subst hd
      exact he.readEscape_cut htail hx

/-- **A quoted text cut off** before its closing quote ends too early. -/
theorem readQuoted_cut {body value : List Char} (h : Spells body value)
    (hcut : body ++ '"' :: rest = p ++ x) :
    readQuoted p = .error .endInText ∨ ∃ q, p = body ++ '"' :: q ∧ rest = q ++ x := by
  induction h generalizing p with
  | nil =>
    cases p with
    | nil => exact Or.inl (readQuoted_of_readChar_error (fun _ h => by cases h) rfl)
    | cons d p =>
      obtain ⟨rfl, htail⟩ := List.cons.inj hcut
      exact Or.inr ⟨p, rfl, htail⟩
  | @cons e body cs c he _ ih =>
    rw [List.append_assoc] at hcut
    rcases cut_append hcut with ⟨y, hy, hey⟩ | ⟨q, rfl, hq⟩
    · -- a part of what is written for a character starts with no quote, as the whole does not
      have hquote : ∀ tail, p ≠ '"' :: tail := by
        rintro tail rfl
        exact he.append_ne [] (tail ++ y) (by rw [List.append_nil, hey]; rfl)
      exact Or.inl (readQuoted_of_readChar_error hquote (he.readChar_cut hey hy))
    · have hc : readChar (e ++ q) = .ok (c, q) :=
        (readChar_eq_ok_iff (he.append_ne q)).mpr ⟨e, he, rfl⟩
      rw [readQuoted_of_readChar (he.append_ne q) hc]
      rcases ih hq with herror | ⟨q', rfl, hrest⟩
      · exact Or.inl (by rw [herror]; rfl)
      · exact Or.inr ⟨q', (List.append_assoc ..).symm, hrest⟩

end VarRenaming.Json
