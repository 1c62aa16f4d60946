import VarRenaming.Proofs.Settings.Truncation

/-! # Settings written and read back

The tokens that settings are written as are one of their forms (`form_tokens`), whatever blanks
stand between and around them. The last token is a closing brace, so nothing can be left out at the
end. -/

namespace VarRenaming.Settings

open Json

theorem quotes_key : Quotes ("\"" ++ key ++ "\"").toList key :=
  ⟨key.toList, by decide, spells_self (by decide)⟩

/-- **The tokens written** are those of an object with the bound. -/
theorem form_tokens (s : Settings) : Form (s.tokens.map String.toList) s := by
  have hnumber : Whole (toString s.maxAlternatives.toNat).toList s.maxAlternatives.toNat := by
    rw [Nat.toString_eq_repr, Nat.toList_repr]
    exact whole_toDigits _
  exact Form.object quotes_key hnumber

theorem toList_render (s : Settings) : s.render.toList = (s.tokens.map String.toList).flatten := by
  rw [render, String.toList_join, List.flatMap_def]

theorem denotes_of_spaced {s : Settings} {text : String}
    (h : Spaced (s.tokens.map String.toList) text.toList) : Denotes text s :=
  ⟨_, form_tokens s, h⟩

theorem denotes_render (s : Settings) : Denotes s.render s := by
  refine denotes_of_spaced ⟨[], ?_, .nil⟩
  have h := begins_flatten (s.tokens.map String.toList) []
  rwa [List.append_nil, ← toList_render] at h

theorem getLast?_render (s : Settings) : s.render.toList.getLast? = some '}' := by
  have htokens : s.tokens.map String.toList =
      (s.tokens.map String.toList).dropLast ++ [['}']] := rfl
  rw [toList_render, htokens, List.flatten_append, List.flatten_singleton, List.getLast?_concat]

theorem not_blanks_of_render {s : Settings} {p x : List Char} (h : s.render.toList = p ++ x)
    (hx : x ≠ []) : ¬ Blanks x := by
  have hlast := getLast?_render s
  rw [h, List.getLast?_append_of_ne_nil p hx] at hlast
  intro hblanks
  have hbrace := hblanks '}' (List.mem_of_getLast? hlast)
  exact absurd hbrace (by decide)

/-- **Settings written are read back as they were**, also with blanks between and around the tokens;
and the text cut off anywhere is refused as one that ends too early. -/
theorem ofText_render (s : Settings) :
    ofText s.render = .ok s ∧
      (∀ text : String, Spaced (s.tokens.map String.toList) text.toList → ofText text = .ok s) ∧
      ∀ p : List Char, p <+: s.render.toList → p ≠ s.render.toList →
        ∃ problem, ofText (.ofList p) = .error problem ∧ problem.category = .cutOff := by
  refine ⟨ofText_eq_ok_iff.mpr (denotes_render s),
    fun text h => ofText_eq_ok_iff.mpr (denotes_of_spaced h), ?_⟩
  rintro p ⟨x, hx⟩ hne
  have hnil : x ≠ [] := by
    rintro rfl
    exact hne (by rw [← hx, List.append_nil])
  have hwhole : ofText (.ofList (p ++ x)) = .ok s := by
    rw [hx, String.ofList_toList]
    exact ofText_eq_ok_iff.mpr (denotes_render s)
  have hcut := ofText_cut hwhole
  cases hp : ofText (.ofList p) with
  | error problem =>
    rw [hp] at hcut
    exact ⟨problem, rfl, hcut⟩
  | ok s' =>
    rw [hp] at hcut
    exact absurd hcut.2 (not_blanks_of_render hx.symm hnil)

/-- The greatest bound, with a blank of each kind, and cut off within its digits. -/
theorem ofText_render_greatest :
    ofText "\t\x7b \"max_alternatives\":\n18446744073709551615\r\x7d" =
        .ok ⟨18446744073709551615⟩ ∧
      ∃ problem, ofText "\x7b\"max_alternatives\":1844" = .error problem ∧
        problem.category = .cutOff := by
  have h := ofText_render ⟨18446744073709551615⟩
  refine ⟨h.2.1 _ ⟨[], ?_, .nil⟩,
    h.2.2 "\x7b\"max_alternatives\":1844".toList (by decide) (by decide)⟩
  have htab : Blanks ['\t'] := by decide
  have hblank : Blanks [' '] := by decide
  have hfeed : Blanks ['\n'] := by decide
  have hreturn : Blanks ['\r'] := by decide
  exact .cons htab (.cons hblank (.cons .nil (.cons hfeed (.cons hreturn (.nil [])))))

end VarRenaming.Settings
