import VarRenaming.Proofs.Settings.Reader

/-! # Texts of settings that are cut off

Given only the beginning of a text that it would accept, each part of the reader finds that the text
ends too early or accepts the same before the cut (`CutOffOr`). Only a bound may be cut off behind
one of its digits and be another bound (`readBound_cut`), but then the bracket that must follow it
is missing. -/

namespace VarRenaming.Settings

open Json

/-- The text has been found to end too early, or else the result is as stated. -/
def CutOffOr {α : Type} (P : α → Prop) : Except Problem α → Prop
  | .error problem => problem.category = .cutOff
  | .ok a => P a

theorem CutOffOr.bind {α β : Type} {P : α → Prop} {Q : β → Prop} {r : Except Problem α}
    {f : α → Except Problem β} (h : CutOffOr P r) (hf : ∀ a, P a → CutOffOr Q (f a)) :
    CutOffOr Q (r >>= f) := by
  cases r with
  | error problem => exact h
  | ok a => exact hf a h

variable {cs p x rest : List Char} {s : Settings} {bound : UInt64}

/-! ### Bounds -/

/-- **A bound cut off** is missing, or is a bound with nothing behind it, or is the same. -/
theorem readBound_cut (h : readBound (p ++ x) = .ok (bound, rest)) :
    Blanks p ∨ (∃ bound', readBound p = .ok (bound', [])) ∨
      ∃ q, readBound p = .ok (bound, q) ∧ rest = q ++ x := by
  simp only [readBound_eq_ok_iff, readItem_natural_iff] at h ⊢
  obtain ⟨number, hnumber, hends, hbegins⟩ := h
  rcases hbegins.cut with hp | ⟨p', y, hp', hne, -, hcut⟩ | ⟨q, hq, rfl⟩
  · exact Or.inl hp
  · obtain ⟨m, hm, hwhole⟩ := hnumber.exists_prefix hcut hne
    have hlt : m < UInt64.size := Nat.lt_of_le_of_lt hm bound.toNat_lt
    refine Or.inr (Or.inl ⟨.ofNat m, p', ?_, .nil, hp'⟩)
    rwa [UInt64.toNat_ofNat_of_lt' hlt]
  · exact Or.inr (Or.inr ⟨q, ⟨number, hnumber, hends.of_append, hq⟩, rfl⟩)

theorem readBound_of_blanks (h : Blanks p) : readBound p = .error .endInValue := by
  unfold readBound
  rw [readItem_of_blanks h]
  rfl

/-! ### Single characters -/

theorem closeList_of_blanks (h : Blanks cs) : closeList cs = .error .endInList := by
  unfold closeList
  rw [dropBlanks_eq_nil_iff.mpr h]

theorem readColon_of_blanks (h : Blanks cs) : readColon cs = .error .endInObject := by
  unfold readColon
  rw [dropBlanks_eq_nil_iff.mpr h]

theorem closeObject_of_blanks (h : Blanks cs) : closeObject cs = .error .endInObject := by
  unfold closeObject
  rw [dropBlanks_eq_nil_iff.mpr h]

/-- A reader of one character reads the same before the cut if the character stands there. -/
theorem cut_of_begins {c : Char} {e : Problem} {read : List Char → Except Problem (List Char)}
    (hok : ∀ {cs rest}, read cs = .ok rest ↔ Begins [[c]] cs rest)
    (hend : ∀ {cs}, Blanks cs → read cs = .error e) (he : e.category = .cutOff)
    (h : read (p ++ x) = .ok rest) : CutOffOr (fun q => rest = q ++ x) (read p) := by
  rcases (hok.mp h).cut_char with hp | ⟨q, hq, hrest⟩
  · rw [hend hp]
    exact he
  · rw [hok.mpr hq]
    exact hrest

theorem closeList_cut (h : closeList (p ++ x) = .ok rest) :
    CutOffOr (fun q => rest = q ++ x) (closeList p) :=
  cut_of_begins closeList_eq_ok_iff closeList_of_blanks rfl h

theorem readColon_cut (h : readColon (p ++ x) = .ok rest) :
    CutOffOr (fun q => rest = q ++ x) (readColon p) :=
  cut_of_begins readColon_eq_ok_iff readColon_of_blanks rfl h

theorem closeObject_cut (h : closeObject (p ++ x) = .ok rest) :
    CutOffOr (fun q => rest = q ++ x) (closeObject p) :=
  cut_of_begins closeObject_eq_ok_iff closeObject_of_blanks rfl h

/-! ### The list form -/

theorem readList_of_blanks (h : Blanks cs) : readList cs = .error .endInList := by
  unfold readList
  rw [dropBlanks_eq_nil_iff.mpr h]

theorem readList_of_readBound (h : readBound cs = .ok (bound, rest)) :
    readList cs = closeList rest >>= fun rest => .ok (⟨bound⟩, rest) := by
  rw [← readBound_dropBlanks] at h
  unfold readList
  split
  · next heq =>
    rw [heq] at h
    cases h
  · next heq =>
    rw [heq] at h
    cases h
  · rw [h]
    rfl

theorem readList_cut (h : readList (p ++ x) = .ok (s, rest)) :
    CutOffOr (fun r => r.1 = s ∧ rest = r.2 ++ x) (readList p) := by
  rcases readList_eq_ok_iff.mp h with ⟨rfl, hclose⟩ | hlist
  · rcases hclose.cut_char with hp | ⟨q, hq, hrest⟩
    · rw [readList_of_blanks hp]
      rfl
    · rw [readList_eq_ok_iff.mpr (Or.inl ⟨rfl, hq⟩)]
      exact ⟨rfl, hrest⟩
  · obtain ⟨mid, hbound, hclose⟩ := (readBound_then_iff (by decide)).mpr hlist
    rcases readBound_cut hbound with hp | ⟨bound', hp⟩ | ⟨mid', hp, rfl⟩
    · rw [readList_of_blanks hp]
      rfl
    · rw [readList_of_readBound hp, closeList_of_blanks .nil]
      rfl
    · rw [readList_of_readBound hp]
      refine (closeList_cut (closeList_eq_ok_iff.mpr hclose)).bind fun q hrest => ?_
      exact ⟨rfl, hrest⟩

/-! ### The object form -/

theorem readObject_of_blanks (h : Blanks cs) : readObject cs = .error .endInObject := by
  unfold readObject
  rw [dropBlanks_eq_nil_iff.mpr h]

theorem readKey_cut {name : String} (h : readKey (p ++ x) = .ok (name, rest)) :
    CutOffOr (fun r => r.1 = name ∧ rest = r.2 ++ x) (readKey p) := by
  obtain ⟨body, hbody, heq⟩ := readKey_eq_ok_iff.mp h
  rcases readQuoted_cut hbody heq.symm with hp | ⟨q, hq, hrest⟩
  · unfold readKey
    rw [hp]
    rfl
  · rw [readKey_eq_ok_iff.mpr ⟨body, hbody, hq⟩]
    exact ⟨rfl, hrest⟩

theorem readObject_cut (h : readObject (p ++ x) = .ok (s, rest)) :
    CutOffOr (fun r => r.1 = s ∧ rest = r.2 ++ x) (readObject p) := by
  rcases readObject_eq_ok_iff.mp h with ⟨rfl, hclose⟩ | hmember
  · rcases hclose.cut_char with hp | ⟨q, hq, hrest⟩
    · rw [readObject_of_blanks hp]
      rfl
    · rw [readObject_eq_ok_iff.mpr (Or.inl ⟨rfl, hq⟩)]
      exact ⟨rfl, hrest⟩
  · obtain ⟨tail, mid, mid', mid'', htail, hkey, hcolon, hbound, hclose⟩ :=
      readMember_iff.mpr hmember
    rcases ((dropBlanks_eq_cons_iff (by decide)).mp htail).cut_char with hp | ⟨tail, hp, rfl⟩
    · rw [readObject_of_blanks hp]
      rfl
    · unfold readObject
      rw [(dropBlanks_eq_cons_iff (by decide)).mpr hp]
      refine (readKey_cut hkey).bind ?_
      rintro ⟨name, mid⟩ ⟨rfl, rfl⟩
      dsimp only
      rw [if_pos rfl]
      refine (readColon_cut hcolon).bind ?_
      rintro mid' rfl
      rcases readBound_cut hbound with hp | ⟨bound', hp⟩ | ⟨mid'', hp, rfl⟩
      · rw [readBound_of_blanks hp]
        rfl
      · rw [hp]
        dsimp only [bind, Except.bind]
        rw [closeObject_of_blanks .nil]
        rfl
      · rw [hp]
        refine (closeObject_cut hclose).bind fun q hrest => ?_
        exact ⟨rfl, hrest⟩

/-! ### The whole text -/

theorem readSettings_cut (h : readSettings (p ++ x) = .ok (s, rest)) :
    CutOffOr (fun r => r.1 = s ∧ rest = r.2 ++ x) (readSettings p) := by
  obtain ⟨⟨item, mid⟩, hitem, h⟩ := bind_eq_ok_iff.mp h
  dsimp only at h
  unfold readSettings
  split at h
  · rcases (readItem_listOpening_iff.mp hitem).cut_char with hp | ⟨mid, hp, rfl⟩
    · rw [readItem_of_blanks hp]
      rfl
    · rw [readItem_listOpening_iff.mpr hp]
      exact readList_cut h
  · rcases (readItem_objectOpening_iff.mp hitem).cut_char with hp | ⟨mid, hp, rfl⟩
    · rw [readItem_of_blanks hp]
      rfl
    · rw [readItem_objectOpening_iff.mpr hp]
      exact readObject_cut h
  · cases h

/-- **A text of settings that is cut off** is refused as one that ends too early, unless only blanks
are cut off. -/
theorem ofText_cut (h : ofText (.ofList (p ++ x)) = .ok s) :
    CutOffOr (fun s' => s' = s ∧ Blanks x) (ofText (.ofList p)) := by
  obtain ⟨⟨found, rest⟩, hfound, h⟩ := bind_eq_ok_iff.mp h
  dsimp only at h
  split at h
  · next hrest =>
    obtain rfl := Except.ok.inj h
    unfold ofText
    rw [String.toList_ofList] at hfound ⊢
    refine (readSettings_cut hfound).bind ?_
    rintro ⟨found, q⟩ ⟨rfl, rfl⟩
    obtain ⟨hq, hx⟩ := List.forall_mem_append.mp (dropBlanks_eq_nil_iff.mp hrest)
    dsimp only
    rw [if_pos (dropBlanks_eq_nil_iff.mpr hq)]
    exact ⟨rfl, hx⟩
  · cases h

end VarRenaming.Settings
