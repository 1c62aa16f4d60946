import Mathlib.Data.List.DropRight
import VarRenaming.Json.Scan
import VarRenaming.Proofs.Json.Numeral
import VarRenaming.Proofs.Json.Quoted

/-! # Reading items

What `readItem` finds at the start of a text, as far as it is an opening bracket
(`readItem_listOpening_iff`, `readItem_objectOpening_iff`) or a natural number
(`readItem_natural_iff`). -/

namespace VarRenaming.Json

variable {cs rest : List Char} {item item' : Item}

/-! ### Blanks in front of a token -/

theorem dropBlanks_eq_nil_iff : dropBlanks cs = [] ↔ Blanks cs := by
  rw [blanks_iff, dropBlanks, List.dropWhile_eq_nil_iff]

theorem dropBlanks_eq_cons_iff {c : Char} (hc : isBlank c = false) :
    dropBlanks cs = c :: rest ↔ Begins [[c]] cs rest := by
  rw [begins_singleton_iff]
  constructor
  · intro h
    obtain ⟨ws, hws, hcs⟩ := exists_blanks cs
    exact ⟨ws, blanks_iff.mpr hws, by rw [hcs, h, List.singleton_append]⟩
  · rintro ⟨ws, hws, rfl⟩
    rw [dropBlanks_append (blanks_iff.mp hws), List.singleton_append, dropBlanks_cons hc]

theorem isBlank_of_isDigit {d : Char} (hd : d.isDigit) : isBlank d = false := by
  simp only [isBlank, Bool.or_eq_false_iff, beq_eq_false_iff_ne]
  refine ⟨⟨⟨?_, ?_⟩, ?_⟩, ?_⟩ <;> rintro rfl <;> exact absurd hd (by decide)

/-! ### Items -/

theorem readWord_item {ws : List Char} (h : readWord item ws cs = .ok (item', rest)) :
    item' = item := by
  induction ws generalizing cs with
  | nil =>
    obtain ⟨rfl, -⟩ := Prod.mk.inj (Except.ok.inj h)
    rfl
  | cons w ws ih =>
    cases cs with
    | nil => cases h
    | cons c cs =>
      unfold readWord at h
      split at h
      · exact ih h
      · cases h

theorem readItem_of_blanks (h : Blanks cs) : readItem cs = .error .endInValue := by
  unfold readItem
  rw [dropBlanks_eq_nil_iff.mpr h]

theorem readItem_dropBlanks : readItem (dropBlanks cs) = readItem cs := by
  unfold readItem dropBlanks
  rw [List.dropWhile_idempotent]

/-- What an item is read from: one of the opening brackets, a numeral, or else a word or a quoted
text. -/
inductive ReadFrom (cs rest : List Char) : Item → Prop
  | listOpening (h : Begins [['[']] cs rest) : ReadFrom cs rest .listOpening
  | objectOpening (h : Begins [['{']] cs rest) : ReadFrom cs rest .objectOpening
  | numeral {m : Numeral} {item : Item} (hm : readNumeral (dropBlanks cs) = .ok (m, rest))
      (hitem : m.item = .ok item) : ReadFrom cs rest item
  | null : ReadFrom cs rest .null
  | boolean (value : Bool) : ReadFrom cs rest (.boolean value)
  | text (value : String) : ReadFrom cs rest (.text value)

theorem readItem_cases (h : readItem cs = .ok (item, rest)) : ReadFrom cs rest item := by
  unfold readItem at h
  split at h
  · cases h
  · exact readWord_item h ▸ .null
  · exact readWord_item h ▸ .boolean true
  · exact readWord_item h ▸ .boolean false
  · next heq =>
    obtain ⟨rfl, rfl⟩ := Prod.mk.inj (Except.ok.inj h)
    exact .listOpening ((dropBlanks_eq_cons_iff (by decide)).mp heq)
  · next heq =>
    obtain ⟨rfl, rfl⟩ := Prod.mk.inj (Except.ok.inj h)
    exact .objectOpening ((dropBlanks_eq_cons_iff (by decide)).mp heq)
  · obtain ⟨⟨value, tail⟩, -, hitem⟩ := bind_eq_ok_iff.mp h
    obtain ⟨rfl, -⟩ := Prod.mk.inj (Except.ok.inj hitem)
    exact .text _
  · next heq =>
    split at h
    · obtain ⟨⟨m, tail⟩, hm, h⟩ := bind_eq_ok_iff.mp h
      obtain ⟨found, hfound, hitem⟩ := bind_eq_ok_iff.mp h
      obtain ⟨rfl, rfl⟩ := Prod.mk.inj (Except.ok.inj hitem)
      exact .numeral (heq ▸ hm) hfound
    · cases h

theorem readItem_of_digit {d : Char} {tail : List Char} {m : Numeral} (hd : d.isDigit)
    (hcs : dropBlanks cs = d :: tail) (hm : readNumeral (d :: tail) = .ok (m, rest))
    (hitem : m.item = .ok item) : readItem cs = .ok (item, rest) := by
  unfold readItem
  rw [hcs]
  split
  case h_8 heq =>
    obtain ⟨rfl, rfl⟩ := List.cons.inj heq
    rw [if_pos (Or.inr hd), bind_eq_ok_iff]
    exact ⟨(m, rest), hm, bind_eq_ok_iff.mpr ⟨item, hitem, rfl⟩⟩
  -- no other item starts with a digit
  all_goals next heq => cases heq <;> exact absurd hd (by decide)

theorem Numeral.item_ne_opening (m : Numeral) :
    m.item ≠ .ok .listOpening ∧ m.item ≠ .ok .objectOpening := by
  unfold Numeral.item
  dsimp only
  split
  · exact ⟨nofun, nofun⟩
  · split
    · exact ⟨nofun, nofun⟩
    · split <;> exact ⟨nofun, nofun⟩

/-- **An opening bracket** is found where it is the first character that is no blank. -/
theorem readItem_listOpening_iff :
    readItem cs = .ok (.listOpening, rest) ↔ Begins [['[']] cs rest := by
  constructor
  · intro h
    cases readItem_cases h with
    | listOpening h => exact h
    | numeral _ hitem => exact absurd hitem (Numeral.item_ne_opening _).1
  · intro h
    unfold readItem
    rw [(dropBlanks_eq_cons_iff (by decide)).mpr h]
    rfl

theorem readItem_objectOpening_iff :
    readItem cs = .ok (.objectOpening, rest) ↔ Begins [['{']] cs rest := by
  constructor
  · intro h
    cases readItem_cases h with
    | objectOpening h => exact h
    | numeral _ hitem => exact absurd hitem (Numeral.item_ne_opening _).2
  · intro h
    unfold readItem
    rw [(dropBlanks_eq_cons_iff (by decide)).mpr h]
    rfl

/-- **A natural number** is found where a whole number of 64 bits stands that does not go on. -/
theorem readItem_natural_iff {value : UInt64} :
    readItem cs = .ok (.natural value, rest) ↔
      ∃ token, Whole token value.toNat ∧ EndsNumber rest ∧ Begins [token] cs rest := by
  constructor
  · intro h
    cases readItem_cases h with
    | @numeral m _ hm hitem =>
      obtain ⟨hparts, hvalue⟩ := Numeral.item_eq_natural_iff.mp hitem
      rw [hparts] at hm
      obtain ⟨hwhole, hends, hcs⟩ := readNumeral_eq_ok_iff.mp hm
      obtain ⟨ws, hws, heq⟩ := exists_blanks cs
      exact ⟨m.whole, hvalue ▸ hwhole, hends,
        begins_singleton_iff.mpr ⟨ws, blanks_iff.mpr hws, hcs ▸ heq⟩⟩
  · rintro ⟨token, hwhole, hends, hbegins⟩
    obtain ⟨ws, hws, rfl⟩ := begins_singleton_iff.mp hbegins
    obtain ⟨d, more, rfl⟩ := List.exists_cons_of_ne_nil hwhole.nonempty
    have hd : d.isDigit := hwhole.isDigit d List.mem_cons_self
    have hcs : dropBlanks (ws ++ (d :: more ++ rest)) = d :: (more ++ rest) := by
      rw [dropBlanks_append (blanks_iff.mp hws), List.cons_append,
        dropBlanks_cons (isBlank_of_isDigit hd)]
    exact readItem_of_digit hd hcs
      (readNumeral_eq_ok_iff.mpr ⟨hwhole.value.symm ▸ hwhole, hends, rfl⟩)
      (Numeral.item_eq_natural_iff.mpr ⟨rfl, hwhole.value⟩)

end VarRenaming.Json
