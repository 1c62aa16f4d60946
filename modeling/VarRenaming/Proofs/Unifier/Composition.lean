import VarRenaming.Proofs.Unifier.Renaming

/-! # Two renamings in one

`u.andThen v` renames a variable to what `v` makes of what `u` makes of it (`mem_images_andThen`),
unless `u` and `v` *capture* the variable: `u` leaves it as it is but also produces it from another
one, and `v` renames it to something else. Without captured variables, the composition renames an
answer as the two steps do (`rename?_andThen`), and with one alone it does not
(`rename?_andThen_ne`). -/

namespace VarRenaming.Unifier

open Std

variable {u v : Unifier}

/-! ### Arrows of a composition -/

theorem mem_andThen {e : Arrow} :
    e ∈ u.andThen v ↔
      (∃ t, ⟨e.source, t⟩ ∈ u ∧ e.target ∈ v.images t) ∨
        e ∈ v ∧ e.source ∉ u.sources ∧ e.source ∉ u.targets := by
  simp only [andThen, mem_ofList, List.mem_append, List.mem_flatMap, List.mem_map, mem_toList,
    List.mem_filter, Bool.decide_and, Bool.and_eq_true, decide_eq_true_eq]
  refine or_congr ?_ Iff.rfl
  constructor
  · rintro ⟨d, hd, t, ht, rfl⟩
    exact ⟨d.target, hd, ht⟩
  · rintro ⟨t, ht, he⟩
    exact ⟨_, ht, e.target, he, rfl⟩

theorem mem_andThen_iff {s t : Var} :
    ⟨s, t⟩ ∈ u.andThen v ↔
      (∃ y, ⟨s, y⟩ ∈ u ∧ ⟨y, t⟩ ∈ v) ∨ (⟨s, t⟩ ∈ u ∧ t ∉ v.sources) ∨
        (⟨s, t⟩ ∈ v ∧ s ∉ u.sources ∧ s ∉ u.targets) := by
  rw [mem_andThen, ← or_assoc]
  refine or_congr ?_ Iff.rfl
  constructor
  · rintro ⟨y, hy, ht⟩
    rcases mem_images.mp ht with hyt | ⟨hys, rfl⟩
    · exact Or.inl ⟨y, hy, hyt⟩
    · exact Or.inr ⟨hy, hys⟩
  · rintro (⟨y, hy, hyt⟩ | ⟨ht, hts⟩)
    · exact ⟨y, hy, mem_images.mpr (Or.inl hyt)⟩
    · exact ⟨t, ht, mem_images.mpr (Or.inr ⟨hts, rfl⟩)⟩

theorem mem_sources_andThen {s : Var} :
    s ∈ (u.andThen v).sources ↔ s ∈ u.sources ∨ s ∈ v.sources ∧ s ∉ u.targets := by
  simp only [mem_sources, mem_andThen]
  constructor
  · rintro ⟨w, ⟨t, ht, -⟩ | ⟨hw, -, hs⟩⟩
    · exact Or.inl ⟨t, ht⟩
    · exact Or.inr ⟨⟨w, hw⟩, hs⟩
  · rintro (⟨t, ht⟩ | ⟨⟨w, hw⟩, hs⟩)
    · obtain ⟨w, hw⟩ := exists_mem_images v t
      exact ⟨w, Or.inl ⟨t, ht, hw⟩⟩
    · by_cases hu : ∃ t, ⟨s, t⟩ ∈ u
      · obtain ⟨t, ht⟩ := hu
        obtain ⟨w', hw'⟩ := exists_mem_images v t
        exact ⟨w', Or.inl ⟨t, ht, hw'⟩⟩
      · exact ⟨w, Or.inr ⟨hw, hu, hs⟩⟩

/-! ### Captured variables -/

/-- `u` produces the variable without renaming it, and `v` renames it to something else. -/
def Captures (u v : Unifier) (x : Var) : Prop :=
  (x ∈ u.targets ∧ x ∉ u.sources) ∧ x ∈ v.sources ∧ v.targetsOf x ≠ {x}

instance (u v : Unifier) (x : Var) : Decidable (u.Captures v x) :=
  inferInstanceAs (Decidable (_ ∧ _))

theorem not_captures {x : Var} (h : x ∈ u.targets → x ∉ u.sources → x ∉ v.sources) :
    ¬ u.Captures v x := by
  rintro ⟨⟨ht, hu⟩, hv, -⟩
  exact h ht hu hv

theorem mem_images_of_not_captures {x w : Var} (hx : x ∈ u.targets) (hu : x ∉ u.sources)
    (h : ¬ u.Captures v x) : w ∈ v.images x ↔ w = x := by
  by_cases hv : x ∈ v.sources
  · have ht : v.targetsOf x = {x} := by
      by_contra hne
      exact h ⟨⟨hx, hu⟩, hv, hne⟩
    rw [mem_images_of_mem_sources hv, ← mem_targetsOf, ht, FiniteSet.mem_singleton]
  · exact mem_images_of_not_mem_sources hv

/-- **The images under a composition** are what `v` makes of what `u` makes of the variable. -/
theorem mem_images_andThen {x w : Var} (h : ¬ u.Captures v x) :
    w ∈ (u.andThen v).images x ↔ ∃ y ∈ u.images x, w ∈ v.images y := by
  by_cases hu : x ∈ u.sources
  · rw [mem_images_of_mem_sources (mem_sources_andThen.mpr (Or.inl hu)), mem_andThen]
    simp only [mem_images_of_mem_sources hu, hu, not_true, false_and, and_false, or_false]
  · simp only [mem_images_of_not_mem_sources hu, exists_eq_left]
    by_cases ht : x ∈ u.targets
    · have hs : x ∉ (u.andThen v).sources := by
        rw [mem_sources_andThen]
        rintro (hs | ⟨-, hs⟩)
        · exact hu hs
        · exact hs ht
      rw [mem_images_of_not_mem_sources hs, mem_images_of_not_captures ht hu h]
    · have hno : ∀ t, ⟨x, t⟩ ∉ u := fun t hm => hu (mem_sources.mpr ⟨t, hm⟩)
      by_cases hv : x ∈ v.sources
      · rw [mem_images_of_mem_sources (mem_sources_andThen.mpr (Or.inr ⟨hv, ht⟩)),
          mem_images_of_mem_sources hv, mem_andThen]
        simp only [hno, false_and, exists_false, false_or, hu, ht, not_false_eq_true, and_true]
      · have hs : x ∉ (u.andThen v).sources := by
          rw [mem_sources_andThen]
          rintro (hs | ⟨hs, -⟩)
          · exact hu hs
          · exact hv hs
        rw [mem_images_of_not_mem_sources hs, mem_images_of_not_mem_sources hv]

/-! ### Answers -/

variable {a r : Answer}

theorem rename?_bind_rename?_eq_some_iff :
    (u.rename? a).bind v.rename? = some r ↔
      ∀ w c, r.get? w = some c ↔
        ∃ x, a.get? x = some c ∧ ∃ y ∈ u.images x, w ∈ v.images y := by
  simp only [Option.bind_eq_some_iff, rename?_eq_some_iff]
  constructor
  · rintro ⟨m, hm, hr⟩ w c
    rw [hr]
    constructor
    · rintro ⟨y, hy, hw⟩
      obtain ⟨x, hx, hxy⟩ := (hm y c).mp hy
      exact ⟨x, hx, y, hxy, hw⟩
    · rintro ⟨x, hx, y, hxy, hw⟩
      exact ⟨y, (hm y c).mpr ⟨x, hx, hxy⟩, hw⟩
  · intro h
    -- a conflict between images under `u` would be one between their images under `v`
    obtain ⟨m, hm⟩ : ∃ m, u.rename? a = some m := by
      refine exists_rename? fun x x' c c' y hx hx' hy hy' => ?_
      obtain ⟨w, hw⟩ := exists_mem_images v y
      have h₁ := (h w c).mpr ⟨x, hx, y, hy, hw⟩
      have h₂ := (h w c').mpr ⟨x', hx', y, hy', hw⟩
      rw [h₁] at h₂
      exact Option.some.inj h₂
    have hmy := rename?_eq_some_iff.mp hm
    refine ⟨m, hmy, fun w c => ?_⟩
    rw [h]
    constructor
    · rintro ⟨x, hx, y, hy, hw⟩
      exact ⟨y, (hmy y c).mpr ⟨x, hx, hy⟩, hw⟩
    · rintro ⟨y, hy, hw⟩
      obtain ⟨x, hx, hxy⟩ := (hmy y c).mp hy
      exact ⟨x, hx, y, hxy, hw⟩

/-- **The composition renames as its parts do**, if the answer binds no captured variable. -/
theorem rename?_andThen (h : ∀ x c, a.get? x = some c → ¬ u.Captures v x) :
    (u.andThen v).rename? a = (u.rename? a).bind v.rename? := by
  ext1 r
  rw [rename?_eq_some_iff, rename?_bind_rename?_eq_some_iff]
  refine forall₂_congr fun w c => iff_congr Iff.rfl (exists_congr fun x => ?_)
  exact and_congr_right fun hx => mem_images_andThen (h x c hx)

/-- **A captured variable is renamed differently**, even when nothing else is bound. -/
theorem rename?_andThen_ne {x : Var} (h : u.Captures v x) (c : Concept) :
    (u.andThen v).rename? (.ofBindings [(x, c)]) ≠
      (u.rename? (.ofBindings [(x, c)])).bind v.rename? := by
  obtain ⟨⟨ht, hu⟩, hv, hne⟩ := h
  have hs : x ∉ (u.andThen v).sources := by
    rw [mem_sources_andThen]
    rintro (hs | ⟨-, hs⟩)
    · exact hu hs
    · exact hs ht
  have hget : ∀ y d, (Answer.ofBindings [(x, c)]).get? y = some d ↔ x = y ∧ c = d := by
    intro y d
    rw [Answer.get?_ofBindings_singleton, Option.ite_none_right_eq_some, Option.some.injEq]
  obtain ⟨r, hr⟩ : ∃ r, (u.andThen v).rename? (.ofBindings [(x, c)]) = some r := by
    refine exists_rename? fun y y' d d' w hy hy' _ _ => ?_
    exact ((hget y d).mp hy).2.symm.trans ((hget y' d').mp hy').2
  intro heq
  rw [hr] at heq
  -- the composition leaves `x` alone, and so would `v`
  refine hne (ExtTreeSet.ext_mem fun w => ?_)
  have hcomp : r.get? w = some c ↔ w = x := by
    rw [rename?_eq_some_iff.mp hr]
    simp only [hget, and_true, exists_eq_left', mem_images_of_not_mem_sources hs]
  have hseq : r.get? w = some c ↔ w ∈ v.images x := by
    rw [rename?_bind_rename?_eq_some_iff.mp heq.symm]
    simp only [hget, and_true, exists_eq_left', mem_images_of_not_mem_sources hu, exists_eq_left]
  rw [mem_targetsOf, FiniteSet.mem_singleton, ← hcomp, hseq, mem_images_of_mem_sources hv]

/-! ### The law of composition -/

/-- **When one renaming takes the place of two.** The composition renames an answer as its parts do
one after the other, conflicts included, if each variable of the answer that `u` produces but does
not rename is left alone by `v`; and of the variables without this property, each is renamed
differently when bound alone. -/
theorem andThen_renames_in_turn (u v : Unifier) :
    (∀ a : Answer,
      (∀ x ∈ a.vars, x ∈ u.targets → x ∉ u.sources → x ∉ v.sources ∨ v.targetsOf x = {x}) →
        (u.andThen v).rename? a = (u.rename? a).bind v.rename?) ∧
    ∀ x, x ∈ u.targets → x ∉ u.sources → x ∈ v.sources → v.targetsOf x ≠ {x} → ∀ c,
      (u.andThen v).rename? (.ofBindings [(x, c)]) ≠
        (u.rename? (.ofBindings [(x, c)])).bind v.rename? := by
  constructor
  · intro a h
    refine rename?_andThen fun x c hx => ?_
    rintro ⟨⟨ht, hu⟩, hv, hne⟩
    rcases h x (Answer.mem_vars.mpr ⟨c, hx⟩) ht hu with hv' | heq
    · exact hv' hv
    · exact hne heq
  · intro x ht hu hv hne c
    exact rename?_andThen_ne ⟨⟨ht, hu⟩, hv, hne⟩ c

/-- Along the chain `x → y → z` and then with `y` and `z` exchanged: `y` is renamed by both, and `z`
is captured. -/
theorem andThen_renames_in_turn_chain_swap :
    let x : Var := ⟨"x"⟩
    let y : Var := ⟨"y"⟩
    let z : Var := ⟨"z"⟩
    let one : Concept := ⟨1, by decide⟩
    let two : Concept := ⟨2, by decide⟩
    let u : Unifier := .ofList [⟨x, y⟩, ⟨y, z⟩]
    let v : Unifier := .ofList [⟨y, z⟩, ⟨z, y⟩]
    let a : Answer := .ofBindings [(x, one), (y, two)]
    let r : Answer := .ofBindings [(y, two), (z, one)]
    let b : Answer := .ofBindings [(z, one)]
    ((∀ w ∈ a.vars, w ∈ u.targets → w ∉ u.sources → w ∉ v.sources ∨ v.targetsOf w = {w}) ∧
      (u.andThen v).rename? a = some r ∧ (u.rename? a).bind v.rename? = some r) ∧
    (z ∈ u.targets ∧ z ∉ u.sources ∧ z ∈ v.sources ∧ v.targetsOf z ≠ {z}) ∧
      (u.andThen v).rename? b = some b ∧ (u.rename? b).bind v.rename? ≠ some b := by
  intro x y z one two u v a r b
  obtain ⟨hsame, hcaptured⟩ := andThen_renames_in_turn u v
  have ha : ∀ w ∈ a.vars, w ∈ u.targets → w ∉ u.sources →
      w ∉ v.sources ∨ v.targetsOf w = {w} := by
    decide +kernel
  have hr : (u.andThen v).rename? a = some r := by decide +kernel
  have hz : z ∈ u.targets ∧ z ∉ u.sources ∧ z ∈ v.sources ∧ v.targetsOf z ≠ {z} := by
    decide +kernel
  have hb : (u.andThen v).rename? b = some b := by decide +kernel
  refine ⟨⟨ha, hr, (hsame a ha).symm.trans hr⟩, hz, hb, ?_⟩
  have hne := hcaptured z hz.1 hz.2.1 hz.2.2.1 hz.2.2.2 one
  exact fun htwo => hne (hb.trans htwo.symm)

end VarRenaming.Unifier
