import VarRenaming.Proofs.Json.Scan
import VarRenaming.Settings.Reader

/-! # The texts that are read as settings

Settings are written in one of four forms (`Form`), with blanks between and around the tokens
(`Denotes`). For each part of the reader, what it accepts is stated as the tokens that it takes off
the text, up to the whole text (`ofText_eq_ok_iff`). -/

namespace VarRenaming.Settings

open Json

/-! ### Forms -/

/-- The tokens that settings may be written as. -/
inductive Form : List (List Char) → Settings → Prop
  | emptyObject : Form [['{'], ['}']] {}
  | object {name number : List Char} {bound : UInt64} (hname : Quotes name key)
      (hnumber : Whole number bound.toNat) : Form [['{'], name, [':'], number, ['}']] ⟨bound⟩
  | emptyList : Form [['['], [']']] {}
  | list {number : List Char} {bound : UInt64} (hnumber : Whole number bound.toNat) :
      Form [['['], number, [']']] ⟨bound⟩

/-- The text consists of the tokens of the settings, with blanks between and around them. -/
def Denotes (text : String) (s : Settings) : Prop :=
  ∃ tokens, Form tokens s ∧ Spaced tokens text.toList

variable {cs rest : List Char} {s : Settings}

/-! ### The bound -/

theorem readBound_eq_ok_iff {bound : UInt64} :
    readBound cs = .ok (bound, rest) ↔ readItem cs = .ok (.natural bound, rest) := by
  unfold readBound
  simp only [bind_eq_ok_iff, Prod.exists]
  constructor
  · rintro ⟨item, tail, hitem, h⟩
    split at h
    · obtain ⟨rfl, rfl⟩ := Prod.mk.inj (Except.ok.inj h)
      exact hitem
    all_goals cases h
  · intro h
    exact ⟨_, _, h, rfl⟩

theorem readBound_dropBlanks : readBound (dropBlanks cs) = readBound cs := by
  unfold readBound
  rw [readItem_dropBlanks]

theorem readBound_then_iff {c : Char} {bound : UInt64} (hc : EndsNumber [c]) :
    (∃ mid, readBound cs = .ok (bound, mid) ∧ Begins [[c]] mid rest) ↔
      ∃ number, Whole number bound.toNat ∧ Begins [number, [c]] cs rest := by
  simp only [readBound_eq_ok_iff, readItem_natural_iff]
  constructor
  · rintro ⟨mid, ⟨number, hnumber, -, hmid⟩, h⟩
    exact ⟨number, hnumber, begins_first_iff.mpr ⟨mid, hmid, h⟩⟩
  · rintro ⟨number, hnumber, hbegins⟩
    obtain ⟨mid, hmid, h⟩ := begins_first_iff.mp hbegins
    exact ⟨mid, ⟨number, hnumber, h.endsNumber hc, hmid⟩, h⟩

/-! ### The list form -/

theorem closeList_eq_ok_iff : closeList cs = .ok rest ↔ Begins [[']']] cs rest := by
  rw [← dropBlanks_eq_cons_iff (by decide)]
  unfold closeList
  split
  · next h => rw [h]; exact iff_of_false nofun nofun
  · next h => rw [h, Except.ok.injEq, List.cons.injEq, and_iff_right rfl]
  · next h =>
    rw [h]
    refine iff_of_false ?_ nofun
    split <;> nofun
  · next hne _ => exact iff_of_false nofun (hne _)

theorem readList_eq_ok_iff :
    readList cs = .ok (s, rest) ↔
      s = {} ∧ Begins [[']']] cs rest ∨
        ∃ number, Whole number s.maxAlternatives.toNat ∧ Begins [number, [']']] cs rest := by
  rw [← readBound_then_iff (by decide), ← dropBlanks_eq_cons_iff (by decide),
    ← readBound_dropBlanks]
  unfold readList
  split
  · next h =>
    rw [h]
    refine iff_of_false nofun ?_
    rintro (⟨-, h⟩ | ⟨mid, h, -⟩) <;> cases h
  · next h =>
    rw [h]
    simp only [Except.ok.injEq, Prod.mk.injEq, List.cons.injEq, true_and]
    constructor
    · rintro ⟨rfl, rfl⟩
      exact Or.inl ⟨rfl, rfl⟩
    · rintro (⟨rfl, rfl⟩ | ⟨mid, h, -⟩)
      · exact ⟨rfl, rfl⟩
      · cases h
  · next hne =>
    simp only [bind_eq_ok_iff, Prod.exists, closeList_eq_ok_iff]
    constructor
    · rintro ⟨bound, mid, hbound, tail, htail, h⟩
      obtain ⟨rfl, rfl⟩ := Prod.mk.inj (Except.ok.inj h)
      exact Or.inr ⟨mid, hbound, htail⟩
    · rintro (⟨-, h⟩ | ⟨mid, hbound, htail⟩)
      · exact absurd h (hne _)
      · exact ⟨_, mid, hbound, rest, htail, rfl⟩

/-! ### The object form -/

theorem readKey_eq_ok_iff {name : String} :
    readKey cs = .ok (name, rest) ↔
      ∃ body, Spells body name.toList ∧ cs = body ++ '"' :: rest := by
  unfold readKey
  simp only [bind_eq_ok_iff, Prod.exists, Except.ok.injEq, Prod.mk.injEq]
  rw [← readQuoted_eq_ok_iff]
  constructor
  · rintro ⟨value, tail, h, rfl, rfl⟩
    rwa [String.toList_ofList]
  · intro h
    exact ⟨_, _, h, String.ofList_toList, rfl⟩

theorem readColon_eq_ok_iff : readColon cs = .ok rest ↔ Begins [[':']] cs rest := by
  rw [← dropBlanks_eq_cons_iff (by decide)]
  unfold readColon
  split
  · next h => rw [h]; exact iff_of_false nofun nofun
  · next h => rw [h, Except.ok.injEq, List.cons.injEq, and_iff_right rfl]
  · next hne => exact iff_of_false nofun (hne _)

theorem closeObject_eq_ok_iff : closeObject cs = .ok rest ↔ Begins [['}']] cs rest := by
  rw [← dropBlanks_eq_cons_iff (by decide)]
  unfold closeObject
  split
  · next h => rw [h]; exact iff_of_false nofun nofun
  · next h => rw [h, Except.ok.injEq, List.cons.injEq, and_iff_right rfl]
  · next h =>
    rw [h]
    refine iff_of_false ?_ nofun
    split
    · nofun
    · nofun
    · simp only [bind_eq_ok_iff, reduceCtorEq, and_false, exists_false, not_false_eq_true]
    · nofun
  · next hne _ => exact iff_of_false nofun (hne _)

theorem readKey_of_quote_iff {name : String} :
    (∃ tail, dropBlanks cs = '"' :: tail ∧ readKey tail = .ok (name, rest)) ↔
      ∃ token, Quotes token name ∧ Begins [token] cs rest := by
  simp only [dropBlanks_eq_cons_iff (c := '"') (by decide), readKey_eq_ok_iff, begins_singleton_iff]
  constructor
  · rintro ⟨tail, ⟨ws, hws, rfl⟩, body, hbody, rfl⟩
    exact ⟨_, ⟨body, rfl, hbody⟩, ws, hws, by simp⟩
  · rintro ⟨token, ⟨body, rfl, hbody⟩, ws, hws, rfl⟩
    exact ⟨body ++ '"' :: rest, ⟨ws, hws, by simp⟩, body, hbody, rfl⟩

theorem readMember_iff {bound : UInt64} :
    (∃ tail mid mid' mid'', dropBlanks cs = '"' :: tail ∧ readKey tail = .ok (key, mid) ∧
        readColon mid = .ok mid' ∧ readBound mid' = .ok (bound, mid'') ∧
        closeObject mid'' = .ok rest) ↔
      ∃ name number, Quotes name key ∧ Whole number bound.toNat ∧
        Begins [name, [':'], number, ['}']] cs rest := by
  simp only [readColon_eq_ok_iff, closeObject_eq_ok_iff]
  constructor
  · rintro ⟨tail, mid, mid', mid'', htail, hkey, hcolon, hbound, hclose⟩
    obtain ⟨name, hname, hmid⟩ := readKey_of_quote_iff.mp ⟨tail, htail, hkey⟩
    obtain ⟨number, hnumber, h⟩ :=
      (readBound_then_iff (by decide)).mp ⟨mid'', hbound, hclose⟩
    exact ⟨name, number, hname, hnumber,
      begins_first_iff.mpr ⟨mid, hmid, begins_first_iff.mpr ⟨mid', hcolon, h⟩⟩⟩
  · rintro ⟨name, number, hname, hnumber, hbegins⟩
    obtain ⟨mid, hmid, h⟩ := begins_first_iff.mp hbegins
    obtain ⟨mid', hcolon, h⟩ := begins_first_iff.mp h
    obtain ⟨tail, htail, hkey⟩ := readKey_of_quote_iff.mpr ⟨name, hname, hmid⟩
    obtain ⟨mid'', hbound, hclose⟩ :=
      (readBound_then_iff (by decide)).mpr ⟨number, hnumber, h⟩
    exact ⟨tail, mid, mid', mid'', htail, hkey, hcolon, hbound, hclose⟩

theorem readObject_eq_ok_iff :
    readObject cs = .ok (s, rest) ↔
      s = {} ∧ Begins [['}']] cs rest ∨
        ∃ name number, Quotes name key ∧ Whole number s.maxAlternatives.toNat ∧
          Begins [name, [':'], number, ['}']] cs rest := by
  rw [← readMember_iff, ← dropBlanks_eq_cons_iff (by decide)]
  unfold readObject
  split
  · next h =>
    rw [h]
    refine iff_of_false nofun ?_
    rintro (⟨-, h⟩ | ⟨_, _, _, _, h, -⟩) <;> cases h
  · next h =>
    rw [h]
    simp only [Except.ok.injEq, Prod.mk.injEq, List.cons.injEq, true_and]
    constructor
    · rintro ⟨rfl, rfl⟩
      exact Or.inl ⟨rfl, rfl⟩
    · rintro (⟨rfl, rfl⟩ | ⟨_, _, _, _, h, -⟩)
      · exact ⟨rfl, rfl⟩
      · exact absurd h.1 (by decide)
  · next tail h =>
    rw [h]
    simp only [bind_eq_ok_iff, Prod.exists]
    constructor
    · rintro ⟨name, mid, hkey, h⟩
      split at h
      · next hname =>
        subst hname
        simp only [bind_eq_ok_iff, Prod.exists] at h
        obtain ⟨mid', hcolon, bound, mid'', hbound, tail', hclose, h⟩ := h
        obtain ⟨rfl, rfl⟩ := Prod.mk.inj (Except.ok.inj h)
        exact Or.inr ⟨tail, mid, mid', mid'', rfl, hkey, hcolon, hbound, hclose⟩
      · cases h
    · rintro (⟨-, h⟩ | ⟨tail', mid, mid', mid'', h, hkey, hcolon, hbound, hclose⟩)
      · cases h
      · obtain ⟨-, rfl⟩ := List.cons.inj h
        refine ⟨key, mid, hkey, ?_⟩
        rw [if_pos rfl]
        simp only [bind_eq_ok_iff, Prod.exists]
        exact ⟨mid', hcolon, _, mid'', hbound, rest, hclose, rfl⟩
  · next hclose hquote =>
    refine iff_of_false nofun ?_
    rintro (⟨-, h⟩ | ⟨tail, _, _, _, h, -⟩)
    · exact hclose _ h
    · exact hquote _ h

/-! ### The whole text -/

theorem readSettings_eq_ok_iff :
    readSettings cs = .ok (s, rest) ↔ ∃ tokens, Form tokens s ∧ Begins tokens cs rest := by
  unfold readSettings
  simp only [bind_eq_ok_iff, Prod.exists]
  constructor
  · rintro ⟨item, mid, hitem, h⟩
    split at h
    · have hmid := readItem_listOpening_iff.mp hitem
      rcases readList_eq_ok_iff.mp h with ⟨rfl, hrest⟩ | ⟨number, hnumber, hrest⟩
      · exact ⟨_, .emptyList, begins_first_iff.mpr ⟨mid, hmid, hrest⟩⟩
      · exact ⟨_, .list hnumber, begins_first_iff.mpr ⟨mid, hmid, hrest⟩⟩
    · have hmid := readItem_objectOpening_iff.mp hitem
      rcases readObject_eq_ok_iff.mp h with ⟨rfl, hrest⟩ | ⟨name, number, hname, hnumber, hrest⟩
      · exact ⟨_, .emptyObject, begins_first_iff.mpr ⟨mid, hmid, hrest⟩⟩
      · exact ⟨_, .object hname hnumber, begins_first_iff.mpr ⟨mid, hmid, hrest⟩⟩
    · cases h
  · rintro ⟨tokens, hform, hbegins⟩
    cases hform with
    | emptyObject =>
      obtain ⟨mid, hmid, hrest⟩ := begins_first_iff.mp hbegins
      exact ⟨_, mid, readItem_objectOpening_iff.mpr hmid,
        readObject_eq_ok_iff.mpr (Or.inl ⟨rfl, hrest⟩)⟩
    | object hname hnumber =>
      obtain ⟨mid, hmid, hrest⟩ := begins_first_iff.mp hbegins
      exact ⟨_, mid, readItem_objectOpening_iff.mpr hmid,
        readObject_eq_ok_iff.mpr (Or.inr ⟨_, _, hname, hnumber, hrest⟩)⟩
    | emptyList =>
      obtain ⟨mid, hmid, hrest⟩ := begins_first_iff.mp hbegins
      exact ⟨_, mid, readItem_listOpening_iff.mpr hmid,
        readList_eq_ok_iff.mpr (Or.inl ⟨rfl, hrest⟩)⟩
    | list hnumber =>
      obtain ⟨mid, hmid, hrest⟩ := begins_first_iff.mp hbegins
      exact ⟨_, mid, readItem_listOpening_iff.mpr hmid,
        readList_eq_ok_iff.mpr (Or.inr ⟨_, hnumber, hrest⟩)⟩

theorem ofText_eq_ok_iff {text : String} : ofText text = .ok s ↔ Denotes text s := by
  unfold ofText
  simp only [bind_eq_ok_iff, Prod.exists, readSettings_eq_ok_iff]
  constructor
  · rintro ⟨found, rest, ⟨tokens, hform, hbegins⟩, h⟩
    split at h
    · next hrest =>
      obtain rfl := Except.ok.inj h
      exact ⟨tokens, hform, rest, hbegins, dropBlanks_eq_nil_iff.mp hrest⟩
    · cases h
  · rintro ⟨tokens, hform, rest, hbegins, hrest⟩
    exact ⟨s, rest, ⟨tokens, hform, hbegins⟩, if_pos (dropBlanks_eq_nil_iff.mpr hrest)⟩

/-- The name may be written with escapes. -/
example : ofText "\x7b \"max\\u005falternatives\" : 7 \x7d\n" = .ok ⟨7⟩ := by decide +kernel

/-- **The texts that are read** are those that denote settings, and they are read as these settings;
every other text is refused. -/
theorem ofText_denotes (text : String) (s : Settings) :
    (ofText text = .ok s ↔ Denotes text s) ∧
      ((∃ problem, ofText text = .error problem) ↔ ¬ ∃ s', Denotes text s') := by
  refine ⟨ofText_eq_ok_iff, ?_⟩
  simp only [← ofText_eq_ok_iff]
  cases ofText text with
  | error problem => exact iff_of_true ⟨problem, rfl⟩ nofun
  | ok s' => exact iff_of_false nofun fun h => h ⟨s', rfl⟩

end VarRenaming.Settings
