/-! # Blanks

The characters that may stand between the tokens of a JSON text: blank, tab, line feed and carriage
return, and no others. -/

namespace VarRenaming.Json

/-- Whether a character may stand between tokens. -/
def isBlank (c : Char) : Bool := c == ' ' || c == '\t' || c == '\n' || c == '\r'

/-- What is left of a text after the blanks that it starts with. -/
def dropBlanks (cs : List Char) : List Char := cs.dropWhile isBlank

@[simp] theorem dropBlanks_nil : dropBlanks [] = [] := rfl

theorem dropBlanks_append {ws cs : List Char} (h : ∀ c ∈ ws, isBlank c) :
    dropBlanks (ws ++ cs) = dropBlanks cs := by
  induction ws with
  | nil => rfl
  | cons c ws ih =>
    have hc : isBlank c := h c (by simp)
    have hws : dropBlanks (ws ++ cs) = dropBlanks cs := ih fun d hd => h d (by simp [hd])
    rw [← hws, List.cons_append, dropBlanks, List.dropWhile_cons_of_pos hc, dropBlanks]

theorem dropBlanks_cons {c : Char} {cs : List Char} (h : isBlank c = false) :
    dropBlanks (c :: cs) = c :: cs := by
  simp [dropBlanks, h]

theorem exists_blanks (cs : List Char) :
    ∃ ws, (∀ c ∈ ws, isBlank c) ∧ cs = ws ++ dropBlanks cs := by
  refine ⟨cs.takeWhile isBlank, ?_, List.takeWhile_append_dropWhile.symm⟩
  intro c hc
  exact List.all_eq_true.mp List.all_takeWhile c hc

end VarRenaming.Json
