import Mathlib.Data.List.TakeDrop
import VarRenaming.Text.Listing

/-! # Listings tell their items apart

The text of a listing can be cut into its items again when no item contains a comma and each begins
with a dollar sign (`Item`), and so can a listing of listings in braces (`intercalate_braced_inj`),
although the same comma divides both: behind a comma that ends a whole listing comes an opening
brace, behind any other a dollar sign. -/

namespace VarRenaming.Text

variable {x y r s : List Char} {xs ys : List (List Char)}

/-! ### Cutting at a character -/

/-- A text is cut uniquely before the first place where a character stands. -/
theorem append_inj_of_not_mem {c : Char} (hx : c ∉ x) (hy : c ∉ y) (hr : ∀ d ∈ r.head?, d = c)
    (hs : ∀ d ∈ s.head?, d = c) (h : x ++ r = y ++ s) : x = y ∧ r = s := by
  have hfirst : ∀ {z t : List Char}, c ∉ z → (∀ d ∈ t.head?, d = c) →
      (z ++ t).takeWhile (· ≠ c) = z := by
    intro z t hz ht
    have hall : ∀ d ∈ z, decide (d ≠ c) := fun d hd => decide_eq_true fun hdc => hz (hdc ▸ hd)
    rw [List.takeWhile_append_of_pos hall]
    cases t with
    | nil => simp
    | cons d t => simp [ht d rfl]
  have hxy : x = y := by
    rw [← hfirst hx hr, h, hfirst hy hs]
  subst hxy
  exact ⟨rfl, List.append_cancel_left h⟩

/-! ### Items -/

/-- The items after the first, each behind a comma and a blank. -/
def further (xs : List (List Char)) : List Char := xs.flatMap ([',', ' '] ++ ·)

theorem further_nil : further [] = [] := rfl

theorem further_cons (x : List Char) (xs : List (List Char)) :
    further (x :: xs) = ',' :: ' ' :: (x ++ further xs) := rfl

theorem intercalate_cons (x : List Char) (xs : List (List Char)) :
    [',', ' '].intercalate (x :: xs) = x ++ further xs := by
  induction xs generalizing x with
  | nil => simp [further]
  | cons y ys ih => rw [List.intercalate_cons_cons, ih, further_cons, List.append_assoc]; rfl

/-- The text of something that begins with a variable. -/
structure Item (x : List Char) : Prop where
  dollar : ∃ t, x = '$' :: t
  no_comma : ',' ∉ x

/-- A listing in braces. -/
def braced (xs : List (List Char)) : List Char := '{' :: [',', ' '].intercalate xs ++ ['}']

/-- What can follow a listing in braces: nothing, or another one behind a comma and a blank. -/
def Follows (r : List Char) : Prop := r = [] ∨ ∃ s, r = ',' :: ' ' :: '{' :: s

theorem Follows.head? (h : Follows r) : ∀ d ∈ r.head?, d = ',' := by
  rcases h with rfl | ⟨s, rfl⟩ <;> simp

theorem Item.not_follows (h : Item x) : ¬ Follows (',' :: ' ' :: (x ++ r)) := by
  obtain ⟨t, rfl⟩ := h.dollar
  rintro (hnil | ⟨s, hs⟩)
  · exact nomatch hnil
  · simp at hs

theorem Item.not_mem_concat (h : Item x) : ',' ∉ x ++ ['}'] := by
  simp [h.no_comma]

theorem Item.last_ne {z : List Char} {zs : List (List Char)} (hx : Item x) (hy : Item y)
    (hz : Item z) (hr : Follows r) : x ++ '}' :: r ≠ y ++ further (z :: zs) ++ '}' :: s := by
  intro h
  have hcut : x ++ ['}'] ++ r = y ++ (',' :: ' ' :: (z ++ (further zs ++ '}' :: s))) := by
    simpa [further] using h
  obtain ⟨-, rfl⟩ := append_inj_of_not_mem hx.not_mem_concat hy.no_comma hr.head? (by simp) hcut
  exact hz.not_follows hr

-- Up to the first comma both texts hold one item, the last one with its closing brace.
theorem append_further_inj (hx : Item x) (hy : Item y) (hxs : ∀ z ∈ xs, Item z)
    (hys : ∀ z ∈ ys, Item z) (hr : Follows r) (hs : Follows s)
    (h : x ++ further xs ++ '}' :: r = y ++ further ys ++ '}' :: s) : x = y ∧ xs = ys ∧ r = s := by
  induction xs generalizing x y ys with
  | nil =>
    rw [further_nil, List.append_nil] at h
    cases ys with
    | nil =>
      have hcut : x ++ ['}'] ++ r = y ++ ['}'] ++ s := by simpa [further] using h
      obtain ⟨hxy, rfl⟩ := append_inj_of_not_mem hx.not_mem_concat hy.not_mem_concat hr.head?
        hs.head? hcut
      exact ⟨List.append_cancel_right hxy, rfl, rfl⟩
    | cons w ws => exact absurd h (hx.last_ne hy (hys w List.mem_cons_self) hr)
  | cons z zs ih =>
    cases ys with
    | nil =>
      rw [further_nil, List.append_nil] at h
      exact absurd h.symm (hy.last_ne hx (hxs z List.mem_cons_self) hs)
    | cons w ws =>
      have hcut : x ++ (',' :: ' ' :: (z ++ further zs ++ '}' :: r)) =
          y ++ (',' :: ' ' :: (w ++ further ws ++ '}' :: s)) := by
        simpa [further] using h
      obtain ⟨rfl, htail⟩ := append_inj_of_not_mem hx.no_comma hy.no_comma (by simp) (by simp) hcut
      obtain ⟨rfl, rfl, rfl⟩ := ih (hxs z List.mem_cons_self) (hys w List.mem_cons_self)
        (fun t ht => hxs t (List.mem_cons_of_mem z ht))
        (fun t ht => hys t (List.mem_cons_of_mem w ht)) (List.cons.inj (List.cons.inj htail).2).2
      exact ⟨rfl, rfl, rfl⟩

/-- **A listing in braces** is told apart from others, and from what follows it. -/
theorem braced_append_inj (hxs : ∀ z ∈ xs, Item z) (hys : ∀ z ∈ ys, Item z) (hr : Follows r)
    (hs : Follows s) (h : braced xs ++ r = braced ys ++ s) : xs = ys ∧ r = s := by
  have hin : [',', ' '].intercalate xs ++ '}' :: r = [',', ' '].intercalate ys ++ '}' :: s := by
    simpa [braced] using h
  cases xs with
  | nil =>
    cases ys with
    | nil => exact ⟨rfl, (List.cons.inj hin).2⟩
    | cons y ys =>
      obtain ⟨y, rfl⟩ := (hys y List.mem_cons_self).dollar
      simp [intercalate_cons] at hin
  | cons x xs =>
    cases ys with
    | nil =>
      obtain ⟨x, rfl⟩ := (hxs x List.mem_cons_self).dollar
      simp [intercalate_cons] at hin
    | cons y ys =>
      rw [intercalate_cons, intercalate_cons] at hin
      obtain ⟨rfl, rfl, rfl⟩ := append_further_inj (hxs x List.mem_cons_self)
        (hys y List.mem_cons_self) (fun t ht => hxs t (List.mem_cons_of_mem x ht))
        (fun t ht => hys t (List.mem_cons_of_mem y ht)) hr hs hin
      exact ⟨rfl, rfl⟩

theorem braced_inj (hxs : ∀ z ∈ xs, Item z) (hys : ∀ z ∈ ys, Item z)
    (h : braced xs = braced ys) : xs = ys :=
  (braced_append_inj hxs hys (.inl rfl) (.inl rfl) (by rw [h])).1

/-! ### Listings of listings -/

variable {xss yss : List (List (List Char))}

theorem follows_further (xss : List (List (List Char))) : Follows (further (xss.map braced)) := by
  cases xss with
  | nil => exact .inl rfl
  | cons xs xss => exact .inr ⟨_, rfl⟩

theorem further_braced_inj (hxss : ∀ xs ∈ xss, ∀ z ∈ xs, Item z)
    (hyss : ∀ ys ∈ yss, ∀ z ∈ ys, Item z)
    (h : further (xss.map braced) = further (yss.map braced)) : xss = yss := by
  induction xss generalizing yss with
  | nil =>
    cases yss with
    | nil => rfl
    | cons ys yss => exact nomatch h
  | cons xs xss ih =>
    cases yss with
    | nil => exact nomatch h
    | cons ys yss =>
      have htail : braced xs ++ further (xss.map braced) = braced ys ++ further (yss.map braced) :=
        (List.cons.inj (List.cons.inj h).2).2
      obtain ⟨rfl, hrest⟩ := braced_append_inj (hxss xs List.mem_cons_self)
        (hyss ys List.mem_cons_self) (follows_further xss) (follows_further yss) htail
      rw [ih (fun t ht => hxss t (List.mem_cons_of_mem xs ht))
        (fun t ht => hyss t (List.mem_cons_of_mem xs ht)) hrest]

/-- A listing of listings begins with a brace unless it is empty, so it shows what is listed just as
what follows another listing does. -/
theorem further_eq_of_intercalate_eq
    (h : [',', ' '].intercalate (xss.map braced) = [',', ' '].intercalate (yss.map braced)) :
    further (xss.map braced) = further (yss.map braced) := by
  cases xss with
  | nil =>
    cases yss with
    | nil => rfl
    | cons ys yss => simp [intercalate_cons, braced] at h
  | cons xs xss =>
    cases yss with
    | nil => simp [intercalate_cons, braced] at h
    | cons ys yss =>
      simp only [List.map_cons, intercalate_cons, further_cons] at h ⊢
      rw [h]

theorem intercalate_braced_inj (hxss : ∀ xs ∈ xss, ∀ z ∈ xs, Item z)
    (hyss : ∀ ys ∈ yss, ∀ z ∈ ys, Item z)
    (h : [',', ' '].intercalate (xss.map braced) = [',', ' '].intercalate (yss.map braced)) :
    xss = yss :=
  further_braced_inj hxss hyss (further_eq_of_intercalate_eq h)

end VarRenaming.Text
