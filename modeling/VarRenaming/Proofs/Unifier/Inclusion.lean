import VarRenaming.Proofs.Unifier.Composition

/-! # Larger unifiers

The images of a variable grow with the unifier as long as the variable is no new source
(`mem_images_of_subset`); a variable that was left alone may be renamed away. Hence the conditions
under which a larger unifier keeps conflicts (`Conflicts.mono`) and can take the place of the
smaller one in a composition. -/

namespace VarRenaming.Unifier

variable {u u' : Unifier} {a : Answer}

/-! ### Images -/

/-- **More arrows, more images**, as long as the variable is no new source. -/
theorem mem_images_of_subset (h : u ⊆ u') {x w : Var} (hx : x ∈ u'.sources → x ∈ u.sources)
    (hw : w ∈ u.images x) : w ∈ u'.images x := by
  rcases mem_images.mp hw with hxw | ⟨hs, rfl⟩
  · exact mem_images.mpr (Or.inl (h _ hxw))
  · exact mem_images.mpr (Or.inr ⟨fun hs' => hs (hx hs'), rfl⟩)

theorem mem_targets_of_mem_images {x x' w : Var} (hne : x ≠ x') (hw : w ∈ u.images x)
    (hw' : w ∈ u.images x') (hx : x ∉ u.sources) : x ∈ u.targets := by
  obtain rfl := (mem_images_of_not_mem_sources hx).mp hw
  rcases mem_images.mp hw' with hxw | ⟨-, rfl⟩
  · exact mem_targets.mpr ⟨x', hxw⟩
  · exact absurd rfl hne

/-! ### Conflicts -/

/-- **More arrows, more conflicts**, as long as no bound variable that the unifier produces is a new
source. -/
theorem Conflicts.mono (h : u ⊆ u')
    (ha : ∀ x c, a.get? x = some c → x ∈ u.targets → x ∈ u'.sources → x ∈ u.sources)
    (hc : u.Conflicts a) : u'.Conflicts a := by
  obtain ⟨x, x', c, c', hx, hx', hcc, w, hw, hw'⟩ := hc
  have hne : x ≠ x' := by
    rintro rfl
    exact hcc (Option.some.inj (hx.symm.trans hx'))
  -- if one of the two were a new source, the other would be renamed to it by `u`
  have himage : ∀ {y y' d}, y ≠ y' → a.get? y = some d → w ∈ u.images y → w ∈ u.images y' →
      w ∈ u'.images y := by
    intro y y' d hyy hy hyw hyw'
    refine mem_images_of_subset h (fun hs => ?_) hyw
    by_contra hn
    exact hn (ha y d hy (mem_targets_of_mem_images hyy hyw hyw' hn) hs)
  exact ⟨x, x', c, c', hx, hx', hcc, w, himage hne hx hw hw', himage hne.symm hx' hw' hw⟩

theorem get?_of_rename? {r : Answer} (hr : u.rename? a = some r) {s t : Var} {c : Concept}
    (hs : a.get? s = some c) (hst : ⟨s, t⟩ ∈ u) : r.get? t = some c :=
  (rename?_eq_some_iff.mp hr t c).mpr ⟨s, hs, mem_images.mpr (Or.inl hst)⟩

/-- **When a larger unifier constrains at least as much.** Let a unifier have all arrows of another,
and let an answer bind no target of the smaller one that is a source of the larger one only. If the
smaller one does not rename the answer, then neither does the larger one. And if both do, then what
the smaller one binds as a target of a bound source, the larger one binds too. -/
theorem larger_unifier_constrains (u v : Unifier) (a : Answer) (hvu : v ⊆ u)
    (ha : ∀ x ∈ a.vars, x ∈ v.targets → x ∈ u.sources → x ∈ v.sources) :
    (v.rename? a = none → u.rename? a = none) ∧
    ∀ q r, v.rename? a = some q → u.rename? a = some r →
      ∀ s t c, a.get? s = some c → ⟨s, t⟩ ∈ v → q.get? t = some c ∧ r.get? t = some c := by
  constructor
  · intro hnone
    refine rename?_eq_none_iff.mpr (Conflicts.mono hvu (fun x c hx => ?_) ?_)
    · exact ha x (Answer.mem_vars.mpr ⟨c, hx⟩)
    · exact rename?_eq_none_iff.mp hnone
  · intro q r hq hr s t c hs hst
    exact ⟨get?_of_rename? hq hs hst, get?_of_rename? hr hs (hvu _ hst)⟩

/-- `x` goes to `z`, and in the larger unifier to `k` as well, like `y`. Where `z` is bound to another
concept than `x`, neither unifier renames; where `x` and `y` are bound alike, both bind `z`. -/
theorem larger_unifier_constrains_fan :
    let x : Var := ⟨"x"⟩
    let y : Var := ⟨"y"⟩
    let z : Var := ⟨"z"⟩
    let k : Var := ⟨"k"⟩
    let one : Concept := ⟨1, by decide⟩
    let two : Concept := ⟨2, by decide⟩
    let v : Unifier := .ofList [⟨x, z⟩]
    let u : Unifier := .ofList [⟨x, z⟩, ⟨x, k⟩, ⟨y, k⟩]
    let a : Answer := .ofBindings [(x, one), (z, two)]
    let b : Answer := .ofBindings [(x, one), (y, one)]
    let q : Answer := .ofBindings [(z, one), (y, one)]
    let r : Answer := .ofBindings [(k, one), (z, one)]
    (v ⊆ u ∧ (∀ w ∈ a.vars, w ∈ v.targets → w ∈ u.sources → w ∈ v.sources) ∧
      v.rename? a = none ∧ u.rename? a = none) ∧
    ((∀ w ∈ b.vars, w ∈ v.targets → w ∈ u.sources → w ∈ v.sources) ∧
      v.rename? b = some q ∧ u.rename? b = some r ∧ b.get? x = some one ∧ ⟨x, z⟩ ∈ v ∧
      q.get? z = some one ∧ r.get? z = some one) := by
  intro x y z k one two v u a b q r
  have hvu : v ⊆ u := by decide +kernel
  have ha : ∀ w ∈ a.vars, w ∈ v.targets → w ∈ u.sources → w ∈ v.sources := by decide +kernel
  have hnone : v.rename? a = none := by decide +kernel
  have hb : ∀ w ∈ b.vars, w ∈ v.targets → w ∈ u.sources → w ∈ v.sources := by decide +kernel
  have hq : v.rename? b = some q := by decide +kernel
  have hr : u.rename? b = some r := by decide +kernel
  have hx : b.get? x = some one := by decide +kernel
  have hxz : ⟨x, z⟩ ∈ v := by decide +kernel
  exact ⟨⟨hvu, ha, hnone, (larger_unifier_constrains u v a hvu ha).1 hnone⟩, hb, hq, hr, hx, hxz,
    (larger_unifier_constrains u v b hvu hb).2 q r hq hr x z one hx hxz⟩

/-- An additional arrow can rename the conflicting variable away. -/
example :
    let v : Unifier := .ofList [⟨⟨"x"⟩, ⟨"z"⟩⟩]
    let u : Unifier := .ofList [⟨⟨"x"⟩, ⟨"z"⟩⟩, ⟨⟨"z"⟩, ⟨"k"⟩⟩]
    let a : Answer := .ofBindings [(⟨"x"⟩, ⟨1, by decide⟩), (⟨"z"⟩, ⟨2, by decide⟩)]
    v ⊆ u ∧ v.rename? a = none ∧ u.rename? a ≠ none := by
  decide +kernel

/-! ### Compositions -/

/-- **Composition grows with its parts.** Let two unifiers be included in two others, let the second
of these rename no target of the first that it did not rename before, and let the first of these
rename or produce no source of the second that it did not rename or produce before. Then the
composition of the smaller ones is included in that of the larger ones. -/
theorem andThen_subset_andThen (u u' v v' : Unifier) (hu : u ⊆ u') (hv : v ⊆ v')
    (htgt : ∀ x ∈ u.targets, x ∈ v'.sources → x ∈ v.sources)
    (hsrc : ∀ x ∈ v.sources, x ∈ u'.sources ∨ x ∈ u'.targets → x ∈ u.sources ∨ x ∈ u.targets) :
    u.andThen v ⊆ u'.andThen v' := by
  intro ⟨s, t⟩ hst
  rw [mem_andThen]
  rcases mem_andThen.mp hst with ⟨y, hy, ht⟩ | ⟨hv', hs⟩
  · have hyt : y ∈ u.targets := mem_targets.mpr ⟨s, hy⟩
    exact Or.inl ⟨y, hu _ hy, mem_images_of_subset hv (htgt y hyt) ht⟩
  · have hsv : s ∈ v.sources := mem_sources.mpr ⟨t, hv'⟩
    exact Or.inr ⟨hv _ hv', not_or.mp fun hmet => not_or.mpr hs (hsrc s hsv hmet)⟩

/-- Composed, the smaller unifiers send `x` on to `z`, leave `p` at `q` and keep the arrow from `c` to
`d`; the larger ones have further arrows at `x`, `y`, `c` and `d`. -/
theorem andThen_subset_andThen_fan :
    let x : Var := ⟨"x"⟩
    let y : Var := ⟨"y"⟩
    let z : Var := ⟨"z"⟩
    let p : Var := ⟨"p"⟩
    let q : Var := ⟨"q"⟩
    let c : Var := ⟨"c"⟩
    let d : Var := ⟨"d"⟩
    let u : Unifier := .ofList [⟨x, y⟩, ⟨p, q⟩]
    let u' : Unifier := .ofList [⟨x, y⟩, ⟨x, d⟩, ⟨p, q⟩, ⟨d, x⟩]
    let v : Unifier := .ofList [⟨y, z⟩, ⟨c, d⟩]
    let v' : Unifier := .ofList [⟨y, z⟩, ⟨y, q⟩, ⟨c, d⟩, ⟨c, c⟩, ⟨d, z⟩]
    (u ⊆ u' ∧ v ⊆ v' ∧ (∀ w ∈ u.targets, w ∈ v'.sources → w ∈ v.sources) ∧
      ∀ w ∈ v.sources, w ∈ u'.sources ∨ w ∈ u'.targets → w ∈ u.sources ∨ w ∈ u.targets) ∧
    u.andThen v = .ofList [⟨x, z⟩, ⟨p, q⟩, ⟨c, d⟩] ∧ u.andThen v ⊆ u'.andThen v' := by
  intro x y z p q c d u u' v v'
  have hu : u ⊆ u' := by decide +kernel
  have hv : v ⊆ v' := by decide +kernel
  have htgt : ∀ w ∈ u.targets, w ∈ v'.sources → w ∈ v.sources := by decide +kernel
  have hsrc : ∀ w ∈ v.sources, w ∈ u'.sources ∨ w ∈ u'.targets →
      w ∈ u.sources ∨ w ∈ u.targets := by
    decide +kernel
  exact ⟨⟨hu, hv, htgt, hsrc⟩, by decide +kernel, andThen_subset_andThen u u' v v' hu hv htgt hsrc⟩

/-- One more arrow behind `x → y`, or in front of `x → z`, and the arrow is lost. -/
example :
    let xy : Unifier := .ofList [⟨⟨"x"⟩, ⟨"y"⟩⟩]
    let xz : Unifier := .ofList [⟨⟨"x"⟩, ⟨"z"⟩⟩]
    let yz : Unifier := .ofList [⟨⟨"y"⟩, ⟨"z"⟩⟩]
    let kx : Unifier := .ofList [⟨⟨"k"⟩, ⟨"x"⟩⟩]
    ¬ xy.andThen .identity ⊆ xy.andThen yz ∧ ¬ identity.andThen xz ⊆ xy.andThen xz ∧
      ¬ identity.andThen xz ⊆ kx.andThen xz := by
  decide +kernel

end VarRenaming.Unifier
