import VarRenaming.Proofs.FiniteSet.Listing

/-! # Where ascending lists first differ

Two lists that ascend by a key have a common part below the least key at which they differ
(`exists_common_part`), and what stands behind it decides:

* `compare_eq_lt_iff_of_missing`: an entry that only the first list has makes it the smaller one
  exactly when the second goes on to greater keys;
* `compare_eq_compare_of_mem`: if both have an entry with this key, these two are compared.

A finite set is a list that ascends by its own values (`FirstDifference.compare_eq_lt_iff`). -/

namespace VarRenaming

open Std

/-! ### Total orders -/

/-- A comparison that puts all values of a type in one row, each in a place of its own. -/
structure TotalOrder (α : Type) [Ord α] : Prop where
  total : ∀ a b : α, (compare a b).isLE ∨ (compare b a).isLE
  antisymm : ∀ a b : α, (compare a b).isLE → (compare b a).isLE → a = b
  trans : ∀ a b c : α, (compare a b).isLE → (compare b c).isLE → (compare a c).isLE
  eq_iff : ∀ a b : α, compare a b = .eq ↔ a = b
  swap : ∀ a b : α, compare b a = (compare a b).swap

theorem totalOrder (α : Type) [Ord α] [TransOrd α] [LawfulEqOrd α] : TotalOrder α where
  total a b := by
    have hswap : compare b a = (compare a b).swap := OrientedCmp.eq_swap
    rw [hswap]
    cases compare a b <;> decide
  antisymm _ _ hab hba := Std.compare_eq_iff_eq.mp (OrientedCmp.isLE_antisymm hab hba)
  trans _ _ _ hab hbc := TransCmp.isLE_trans hab hbc
  eq_iff _ _ := Std.compare_eq_iff_eq
  swap _ _ := OrientedCmp.eq_swap

theorem TotalOrder.lt_of_ne_of_not_lt {α : Type} [Ord α] (h : TotalOrder α) {a b : α} (hne : a ≠ b)
    (hba : compare b a ≠ .lt) : compare a b = .lt := by
  cases hab : compare a b with
  | lt => rfl
  | eq => exact absurd ((h.eq_iff a b).mp hab) hne
  | gt => exact absurd (by rw [h.swap a b, hab, Ordering.swap_gt]) hba

namespace FiniteSet

variable {α κ : Type}

/-! ### Lists that ascend by a key -/

section Keyed

variable [Ord κ] {key : α → κ} {l l' : List α} {k : κ}

/-- Each entry stands in front of those with greater keys, and no key occurs twice. -/
abbrev AscendingBy (key : α → κ) (l : List α) : Prop :=
  l.Pairwise fun x y => compare (key x) (key y) = .lt

variable [TransOrd κ]

/-- A list is cut in front of the first key that is not below `k`. -/
theorem AscendingBy.exists_cut (h : AscendingBy key l) (k : κ) :
    ∃ p q, l = p ++ q ∧ (∀ x ∈ p, compare (key x) k = .lt) ∧
      ∀ x ∈ q, (compare k (key x)).isLE := by
  induction l with
  | nil => exact ⟨[], [], rfl, List.forall_mem_nil _, List.forall_mem_nil _⟩
  | cons x l ih =>
    obtain ⟨hlt, hl⟩ := List.pairwise_cons.mp h
    by_cases hx : compare (key x) k = .lt
    · obtain ⟨p, q, rfl, hp, hq⟩ := ih hl
      exact ⟨x :: p, q, rfl, List.forall_mem_cons.mpr ⟨hx, hp⟩, hq⟩
    · have hk : (compare k (key x)).isLE :=
        OrientedCmp.isGE_iff_isLE.mp (Ordering.isGE_iff_ne_lt.mpr hx)
      refine ⟨[], x :: l, rfl, List.forall_mem_nil _, List.forall_mem_cons.mpr ⟨hk, fun y hy => ?_⟩⟩
      exact Ordering.isLE_of_eq_lt (TransCmp.lt_of_isLE_of_lt hk (hlt y hy))

theorem AscendingBy.exists_eq_cons (h : AscendingBy key l) {x : α} (hx : x ∈ l)
    (hle : ∀ y ∈ l, (compare (key x) (key y)).isLE) : ∃ q, l = x :: q := by
  cases l with
  | nil => exact absurd hx List.not_mem_nil
  | cons y q =>
    rcases List.mem_cons.mp hx with rfl | hxq
    · exact ⟨q, rfl⟩
    · have hlt : compare (key y) (key x) = .lt := (List.pairwise_cons.mp h).1 x hxq
      exact absurd hlt (OrientedCmp.not_lt_of_isLE (hle y List.mem_cons_self))

theorem not_mem_of_below {p : List α} {x : α} (hp : ∀ y ∈ p, compare (key y) (key x) = .lt) :
    x ∉ p := fun hx => OrientedCmp.not_lt_of_lt (hp x hx) (hp x hx)

variable [Ord α] [TransOrd α]

/-- **The common part** of two lists with the same entries below a key. -/
theorem exists_common_part (hkey : ∀ x y, compare (key x) (key y) = .lt → compare x y = .lt)
    (h : AscendingBy key l) (h' : AscendingBy key l')
    (hbelow : ∀ x, compare (key x) k = .lt → (x ∈ l ↔ x ∈ l')) :
    ∃ p q q', l = p ++ q ∧ l' = p ++ q' ∧ (∀ x ∈ p, compare (key x) k = .lt) ∧
      (∀ x ∈ q, (compare k (key x)).isLE) ∧ ∀ x ∈ q', (compare k (key x)).isLE := by
  obtain ⟨p, q, rfl, hp, hq⟩ := h.exists_cut k
  obtain ⟨p', q', rfl, hp', hq'⟩ := h'.exists_cut k
  have hcut : ∀ {p q : List α} {x : α}, (∀ y ∈ q, (compare k (key y)).isLE) →
      compare (key x) k = .lt → (x ∈ p ++ q ↔ x ∈ p) := by
    intro p q x hq hx
    rw [List.mem_append, or_iff_left fun hxq => OrientedCmp.not_lt_of_isLE (hq x hxq) hx]
  have hasc : AscendingBy key p := (List.pairwise_append.mp h).1
  have hasc' : AscendingBy key p' := (List.pairwise_append.mp h').1
  obtain rfl : p = p' := by
    refine eq_of_ascending (hasc.imp (hkey _ _)) (hasc'.imp (hkey _ _)) fun x => ⟨fun hx => ?_, ?_⟩
    · rw [← hcut hq' (hp x hx), ← hbelow x (hp x hx)]
      exact List.mem_append_left _ hx
    · intro hx
      rw [← hcut hq (hp' x hx), hbelow x (hp' x hx)]
      exact List.mem_append_left _ hx
  exact ⟨p, q, q', rfl, rfl, hp, hq, hq'⟩

theorem compare_append (p l l' : List α) : compare (p ++ l) (p ++ l') = compare l l' := by
  induction p with
  | nil => rfl
  | cons x p ih =>
    have hx : compare x x = .eq := ReflCmp.compare_self
    rw [List.cons_append, List.cons_append, List.compare_cons_cons, hx, Ordering.eq_then, ih]

/-- **An entry that the other list has not** stands in front of whatever the other goes on with. -/
theorem compare_eq_lt_iff_of_missing [LawfulEqOrd κ]
    (hkey : ∀ x y, compare (key x) (key y) = .lt → compare x y = .lt)
    (h : AscendingBy key l) (h' : AscendingBy key l') {x : α} (hx : x ∈ l)
    (hx' : ∀ y ∈ l', key x ≠ key y)
    (hbelow : ∀ y, compare (key y) (key x) = .lt → (y ∈ l ↔ y ∈ l')) :
    compare l l' = .lt ↔ ∃ y ∈ l', compare (key x) (key y) = .lt := by
  obtain ⟨p, q, q', rfl, rfl, hp, hq, hq'⟩ := exists_common_part hkey h h' hbelow
  have hxq : x ∈ q := (List.mem_append.mp hx).resolve_left (not_mem_of_below hp)
  obtain ⟨q, rfl⟩ := AscendingBy.exists_eq_cons (List.pairwise_append.mp h).2.1 hxq hq
  rw [compare_append]
  cases q' with
  | nil =>
    rw [List.compare_cons_nil]
    refine iff_of_false (by decide) ?_
    rintro ⟨y, hy, hxy⟩
    rw [List.append_nil] at hy
    exact OrientedCmp.not_lt_of_lt (hp y hy) hxy
  | cons y q' =>
    have hy : y ∈ p ++ y :: q' := List.mem_append_right _ List.mem_cons_self
    have hne : compare (key x) (key y) ≠ .eq := fun heq => hx' y hy (Std.compare_eq_iff_eq.mp heq)
    have hxy : compare (key x) (key y) = .lt :=
      (Ordering.isLE_iff_eq_lt_or_eq_eq.mp (hq' y List.mem_cons_self)).resolve_right hne
    rw [List.compare_cons_cons, hkey x y hxy]
    exact iff_of_true rfl ⟨y, hy, hxy⟩

/-- **Different entries with the same key** are compared, and what follows them is not. -/
theorem compare_eq_compare_of_mem [LawfulEqOrd α]
    (hkey : ∀ x y, compare (key x) (key y) = .lt → compare x y = .lt)
    (h : AscendingBy key l) (h' : AscendingBy key l') {x y : α} (hx : x ∈ l) (hy : y ∈ l')
    (hxy : key x = key y) (hne : x ≠ y)
    (hbelow : ∀ z, compare (key z) (key x) = .lt → (z ∈ l ↔ z ∈ l')) :
    compare l l' = compare x y := by
  obtain ⟨p, q, q', rfl, rfl, hp, hq, hq'⟩ := exists_common_part hkey h h' hbelow
  have hxq : x ∈ q := (List.mem_append.mp hx).resolve_left (not_mem_of_below hp)
  obtain ⟨q, rfl⟩ := AscendingBy.exists_eq_cons (List.pairwise_append.mp h).2.1 hxq hq
  rw [hxy] at hp hq'
  have hyq : y ∈ q' := (List.mem_append.mp hy).resolve_left (not_mem_of_below hp)
  obtain ⟨q', rfl⟩ := AscendingBy.exists_eq_cons (List.pairwise_append.mp h').2.1 hyq hq'
  rw [compare_append, List.compare_cons_cons]
  cases hc : compare x y with
  | lt => rfl
  | eq => exact absurd (Std.compare_eq_iff_eq.mp hc) hne
  | gt => rfl

end Keyed

/-! ### Least values -/

section Sets

variable [Ord α] [TransOrd α] {s s' : FiniteSet α} {x : α}

theorem ascendingBy_id (s : FiniteSet α) : AscendingBy id s.toList := s.ascending_toList

/-- The value is in one of the sets only, and no smaller one is. -/
structure FirstDifference (s s' : FiniteSet α) (x : α) : Prop where
  differ : ¬ (x ∈ s ↔ x ∈ s')
  below : ∀ y, compare y x = .lt → (y ∈ s ↔ y ∈ s')

theorem FirstDifference.symm (h : FirstDifference s s' x) : FirstDifference s' s x where
  differ hx := h.differ hx.symm
  below y hy := (h.below y hy).symm

variable [LawfulEqOrd α]

theorem head?_toList_eq_some_iff :
    s.toList.head? = some x ↔ x ∈ s ∧ ∀ y ∈ s, (compare x y).isLE := by
  simp only [← ExtTreeSet.mem_toList]
  constructor
  · intro hx
    obtain ⟨l, hl⟩ := List.head?_eq_some_iff.mp hx
    have hasc := s.ascending_toList
    rw [hl] at hasc ⊢
    refine ⟨List.mem_cons_self, List.forall_mem_cons.mpr ⟨ReflCmp.isLE_rfl, fun y hy => ?_⟩⟩
    exact Ordering.isLE_of_eq_lt ((List.pairwise_cons.mp hasc).1 y hy)
  · rintro ⟨hx, hle⟩
    obtain ⟨l, hl⟩ := s.ascendingBy_id.exists_eq_cons hx hle
    rw [hl, List.head?_cons]

theorem exists_least {p : α → Prop} (l : List α) (hl : ∀ x, p x → x ∈ l) (h : ∃ x, p x) :
    ∃ x, p x ∧ ∀ y, compare y x = .lt → ¬ p y := by
  classical
  have hmem : ∀ x, x ∈ (.ofList (l.filter p) : FiniteSet α) ↔ p x := by
    intro x
    rw [mem_ofList, List.mem_filter, decide_eq_true_eq, and_iff_right_iff_imp]
    exact hl x
  cases hhead : (.ofList (l.filter p) : FiniteSet α).toList.head? with
  | none =>
    obtain ⟨x, hx⟩ := h
    have hx := ExtTreeSet.mem_toList.mpr ((hmem x).mpr hx)
    rw [List.head?_eq_none_iff.mp hhead] at hx
    exact absurd hx List.not_mem_nil
  | some x =>
    obtain ⟨hx, hle⟩ := head?_toList_eq_some_iff.mp hhead
    refine ⟨x, (hmem x).mp hx, fun y hy hpy => ?_⟩
    exact OrientedCmp.not_lt_of_isLE (hle y ((hmem y).mpr hpy)) hy

/-! ### The order of sets -/

theorem exists_firstDifference (h : s ≠ s') : ∃ x, FirstDifference s s' x := by
  have hdiffer : ∃ x, ¬ (x ∈ s ↔ x ∈ s') := by
    by_contra hall
    exact h (ExtTreeSet.ext_mem fun x => not_not.mp (not_exists.mp hall x))
  have hlisted : ∀ x, ¬ (x ∈ s ↔ x ∈ s') → x ∈ s.toList ++ s'.toList := by
    intro x hx
    rw [List.mem_append, ExtTreeSet.mem_toList, ExtTreeSet.mem_toList]
    by_contra hno
    obtain ⟨hs, hs'⟩ := not_or.mp hno
    exact hx (iff_of_false hs hs')
  obtain ⟨x, hx, hbelow⟩ := exists_least _ hlisted hdiffer
  exact ⟨x, hx, fun y hy => not_not.mp (hbelow y hy)⟩

/-- **The least value in one of two sets only** makes its set the smaller one, unless the other set
has no greater values. -/
theorem FirstDifference.compare_eq_lt_iff (h : FirstDifference s s' x) (hx : x ∈ s) :
    compare s s' = .lt ↔ ∃ y ∈ s', compare x y = .lt := by
  have hx' : x ∉ s' := fun hx' => h.differ (iff_of_true hx hx')
  have hlist : compare s.toList s'.toList = .lt ↔ ∃ y ∈ s'.toList, compare x y = .lt := by
    refine compare_eq_lt_iff_of_missing (fun _ _ => id) s.ascendingBy_id s'.ascendingBy_id
      (ExtTreeSet.mem_toList.mpr hx) (fun y hy => ?_) fun y hy => ?_
    · rintro rfl
      exact hx' (ExtTreeSet.mem_toList.mp hy)
    · rw [ExtTreeSet.mem_toList, ExtTreeSet.mem_toList]
      exact h.below y hy
  simp only [ExtTreeSet.mem_toList] at hlist
  exact hlist

end Sets

end FiniteSet

end VarRenaming
