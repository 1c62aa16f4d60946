import Std.Data.String.ToNat
import VarRenaming.Proofs.Alternatives.Collection
import VarRenaming.Proofs.Answer.Agreement
import VarRenaming.Proofs.Text.Listing

/-! # Texts that tell values apart

If the names of variables contain neither a comma nor a hyphen, texts tell values apart: arrows and
bindings are found between the commas, the source of an arrow ends at its first hyphen, and the
concept of a binding begins behind the last equals sign. -/

namespace VarRenaming

open Text

theorem eq_of_map_eq_map {α β : Type} {f : α → β} {l l' : List α}
    (hf : ∀ x ∈ l, ∀ y ∈ l', f x = f y → x = y) (h : l.map f = l'.map f) : l = l' := by
  induction l generalizing l' with
  | nil => exact (List.map_eq_nil_iff.mp h.symm).symm
  | cons x l ih =>
    cases l' with
    | nil => exact nomatch h
    | cons y l' =>
      obtain ⟨hxy, htail⟩ := List.cons.inj h
      rw [hf x List.mem_cons_self y List.mem_cons_self hxy,
        ih (fun z hz w hw => hf z (List.mem_cons_of_mem x hz) w (List.mem_cons_of_mem y hw)) htail]

/-! ### Plain names -/

/-- No comma and no hyphen stands in the name. -/
def Var.Plain (v : Var) : Prop := ',' ∉ v.name.toList ∧ '-' ∉ v.name.toList

instance (v : Var) : Decidable v.Plain := inferInstanceAs (Decidable (_ ∧ _))

def Unifier.Plain (u : Unifier) : Prop := ∀ e ∈ u.toList, e.source.Plain ∧ e.target.Plain

instance (u : Unifier) : Decidable u.Plain := inferInstanceAs (Decidable (∀ e ∈ u.toList, _))

def Alternatives.Plain (a : Alternatives) : Prop := ∀ u ∈ a.toList, u.Plain

instance (a : Alternatives) : Decidable a.Plain := inferInstanceAs (Decidable (∀ u ∈ a.toList, _))

def Answer.Plain (x : Answer) : Prop := ∀ v ∈ x.vars, v.Plain

instance (x : Answer) : Decidable x.Plain := inferInstanceAs (Decidable (∀ v ∈ x.vars, _))

/-! ### Arrows -/

theorem Var.toList_render (v : Var) : v.render.toList = '$' :: v.name.toList := by
  simp [Var.render]

theorem Var.ext_name {v w : Var} (h : v.name.toList = w.name.toList) : v = w := by
  obtain ⟨n⟩ := v
  obtain ⟨m⟩ := w
  exact congrArg Var.mk (String.toList_inj.mp h)

namespace Arrow

variable {e d : Arrow}

theorem toList_render (e : Arrow) :
    e.render.toList = '$' :: e.source.name.toList ++ '-' :: '>' :: '$' :: e.target.name.toList := by
  simp [render, Var.toList_render]

theorem item_render (hs : e.source.Plain) (ht : e.target.Plain) : Item e.render.toList := by
  refine ⟨⟨_, toList_render e⟩, ?_⟩
  rw [toList_render]
  simp [hs.1, ht.1]

theorem eq_of_render_eq (he : e.source.Plain) (hd : d.source.Plain)
    (h : e.render.toList = d.render.toList) : e = d := by
  rw [toList_render, toList_render] at h
  have hdash : ∀ {v : Var}, v.Plain → '-' ∉ '$' :: v.name.toList := by
    intro v hv
    simp [hv.2]
  obtain ⟨hsource, htarget⟩ := append_inj_of_not_mem (hdash he) (hdash hd) (by simp) (by simp) h
  obtain ⟨s, t⟩ := e
  obtain ⟨s', t'⟩ := d
  obtain rfl : s = s' := Var.ext_name (List.cons.inj hsource).2
  obtain rfl : t = t' := Var.ext_name (by simpa using htarget)
  rfl

end Arrow

/-! ### Bindings -/

namespace Concept

theorem toList_render (c : Concept) : c.render.toList = Nat.toDigits 10 c.id.toNat := by
  rw [render, Nat.toString_eq_repr, Nat.toList_repr]

theorem isDigit_of_mem_render {c : Concept} {d : Char} (h : d ∈ c.render.toList) : d.isDigit := by
  rw [toList_render] at h
  exact Nat.isDigit_of_mem_toDigits (by decide) (by decide) h

theorem eq_of_render_eq {c d : Concept} (h : c.render.toList = d.render.toList) : c = d := by
  obtain ⟨i, hi⟩ := c
  obtain ⟨j, hj⟩ := d
  have hij : i.toNat = j.toNat := Nat.repr_injective (String.toList_inj.mp h)
  obtain rfl : i = j := UInt32.toNat_inj.mp hij
  rfl

end Concept

namespace Answer

/-- The text of a binding. -/
def bindingText (b : Var × Concept) : List Char := (b.1.render ++ "=" ++ b.2.render).toList

theorem bindingText_eq (b : Var × Concept) :
    bindingText b = '$' :: b.1.name.toList ++ '=' :: b.2.render.toList := by
  simp [bindingText, Var.toList_render]

theorem item_bindingText {b : Var × Concept} (h : b.1.Plain) : Item (bindingText b) := by
  have hcomma : ',' ∉ b.2.render.toList := fun hmem =>
    absurd (Concept.isDigit_of_mem_render hmem) (by decide)
  refine ⟨⟨_, bindingText_eq b⟩, ?_⟩
  rw [bindingText_eq]
  simp [h.1, hcomma]

-- Names may contain equals signs, so the text is cut at its last one, which is the first from behind.
theorem eq_of_bindingText_eq {b d : Var × Concept} (h : bindingText b = bindingText d) : b = d := by
  have hequals : ∀ c : Concept, '=' ∉ c.render.toList.reverse := fun c hmem =>
    absurd (Concept.isDigit_of_mem_render (List.mem_reverse.mp hmem)) (by decide)
  have hrev : b.2.render.toList.reverse ++ '=' :: ('$' :: b.1.name.toList).reverse =
      d.2.render.toList.reverse ++ '=' :: ('$' :: d.1.name.toList).reverse := by
    simpa [bindingText_eq] using congrArg List.reverse h
  obtain ⟨hconcept, hname⟩ :=
    append_inj_of_not_mem (hequals _) (hequals _) (by simp) (by simp) hrev
  have hvar : '$' :: b.1.name.toList = '$' :: d.1.name.toList :=
    List.reverse_injective (List.cons.inj hname).2
  exact Prod.ext (Var.ext_name (List.cons.inj hvar).2)
    (Concept.eq_of_render_eq (List.reverse_injective hconcept))

/-! ### Answers -/

theorem toList_render (x : Answer) : x.render.toList = braced (x.toList.map bindingText) := by
  rw [render, toList_listing, List.map_map]
  rfl

theorem Plain.of_mem {x : Answer} (hx : x.Plain) {b : Var × Concept} (hb : b ∈ x.toList) :
    b.1.Plain :=
  hx b.1 (mem_vars.mpr ⟨b.2, mem_toList.mp hb⟩)

theorem Plain.item {x : Answer} (hx : x.Plain) : ∀ z ∈ x.toList.map bindingText, Item z :=
  List.forall_mem_map.mpr fun _ hb => item_bindingText (hx.of_mem hb)

theorem eq_of_toList_eq {x y : Answer} (h : x.toList = y.toList) : x = y := by
  ext v c
  rw [← mem_toList, h, mem_toList]

theorem render_inj {x y : Answer} (hx : x.Plain) (hy : y.Plain) :
    x.render = y.render ↔ x = y := by
  refine ⟨fun h => ?_, fun h => h ▸ rfl⟩
  have htext : braced (x.toList.map bindingText) = braced (y.toList.map bindingText) := by
    rw [← toList_render, h, toList_render]
  exact eq_of_toList_eq <|
    eq_of_map_eq_map (fun _ _ _ _ => eq_of_bindingText_eq) (braced_inj hx.item hy.item htext)

theorem ofBindings_perm {bs ds : List (Var × Concept)} (hperm : bs.Perm ds)
    (hdistinct : (bs.map Prod.fst).Nodup) : ofBindings bs = ofBindings ds := by
  have hagree : ∀ v c d, (v, c) ∈ bs → (v, d) ∈ bs → c = d := fun v c d hc hd =>
    congrArg Prod.snd (List.inj_on_of_nodup_map hdistinct hc hd rfl)
  obtain ⟨r, hr⟩ := exists_ofBindings? hagree
  have hr' : ofBindings? ds = some r := by
    rw [← hr]
    exact ofBindings?_congr fun b => hperm.mem_iff.symm
  rw [← eq_ofBindings_of_ofBindings? hr, ← eq_ofBindings_of_ofBindings? hr']

end Answer

/-! ### Unifiers -/

namespace Unifier

/-- The texts of the arrows in ascending order. -/
def arrowTexts (u : Unifier) : List (List Char) := u.toList.map fun e => e.render.toList

theorem toList_render (u : Unifier) : u.render.toList = braced u.arrowTexts := by
  rw [render, toList_listing, List.map_map]
  rfl

theorem Plain.item {u : Unifier} (hu : u.Plain) : ∀ z ∈ u.arrowTexts, Item z :=
  List.forall_mem_map.mpr fun e he => Arrow.item_render (hu e he).1 (hu e he).2

theorem eq_of_arrowTexts_eq {u v : Unifier} (hu : u.Plain) (hv : v.Plain)
    (h : u.arrowTexts = v.arrowTexts) : u = v := by
  have hlist : u.toList = v.toList :=
    eq_of_map_eq_map (fun e he d hd => Arrow.eq_of_render_eq (hu e he).1 (hv d hd).1) h
  ext e
  rw [← mem_toList, hlist, mem_toList]

theorem render_inj {u v : Unifier} (hu : u.Plain) (hv : v.Plain) :
    u.render = v.render ↔ u = v := by
  refine ⟨fun h => ?_, fun h => h ▸ rfl⟩
  have htext : braced u.arrowTexts = braced v.arrowTexts := by
    rw [← toList_render, h, toList_render]
  exact eq_of_arrowTexts_eq hu hv (braced_inj hu.item hv.item htext)

end Unifier

/-! ### Alternatives -/

namespace Alternatives

theorem toList_render (a : Alternatives) :
    a.render.toList =
      '[' :: [',', ' '].intercalate ((a.toList.map Unifier.arrowTexts).map braced) ++ [']'] := by
  rw [render, toList_listing, List.map_map, List.map_map]
  simp only [Function.comp_def, Unifier.toList_render]
  rfl

theorem Plain.item {a : Alternatives} (ha : a.Plain) :
    ∀ xs ∈ a.toList.map Unifier.arrowTexts, ∀ z ∈ xs, Item z :=
  List.forall_mem_map.mpr fun u hu => (ha u hu).item

theorem render_inj {a b : Alternatives} (ha : a.Plain) (hb : b.Plain) :
    a.render = b.render ↔ a = b := by
  refine ⟨fun h => ?_, fun h => h ▸ rfl⟩
  have htext := congrArg String.toList h
  rw [toList_render, toList_render] at htext
  have hinner := List.append_cancel_right (List.cons.inj htext).2
  have hlist : a.toList = b.toList :=
    eq_of_map_eq_map (fun u hu v hv => Unifier.eq_of_arrowTexts_eq (ha u hu) (hb v hv))
      (intercalate_braced_inj ha.item hb.item hinner)
  ext u
  rw [← mem_toList, hlist, mem_toList]

end Alternatives

/-- **Texts tell values with plain names apart**, be they unifiers, alternatives or answers; and the
order in which a value was put together does not show in its text. -/
theorem laws_of_rendering :
    (∀ u v : Unifier, u.Plain → v.Plain → (u.render = v.render ↔ u = v)) ∧
    (∀ a b : Alternatives, a.Plain → b.Plain → (a.render = b.render ↔ a = b)) ∧
    (∀ x y : Answer, x.Plain → y.Plain → (x.render = y.render ↔ x = y)) ∧
    (∀ es ds : List Arrow, (∀ e, e ∈ es ↔ e ∈ ds) →
      (Unifier.ofList es).render = (Unifier.ofList ds).render) ∧
    (∀ us vs : List Unifier, (∀ u, u ∈ us ↔ u ∈ vs) →
      (Alternatives.ofList us).render = (Alternatives.ofList vs).render) ∧
    (∀ bs ds : List (Var × Concept), (∀ b, b ∈ bs ↔ b ∈ ds) →
      (Answer.ofBindings? bs).map Answer.render = (Answer.ofBindings? ds).map Answer.render) ∧
    ∀ bs ds : List (Var × Concept), bs.Perm ds → (bs.map Prod.fst).Nodup →
      (Answer.ofBindings bs).render = (Answer.ofBindings ds).render := by
  refine ⟨fun _ _ => Unifier.render_inj, fun _ _ => Alternatives.render_inj,
    fun _ _ => Answer.render_inj, fun _ _ h => ?_, fun _ _ h => ?_, fun _ _ h => ?_,
    fun _ _ hperm hdistinct => ?_⟩
  · rw [Unifier.ofList_eq_ofList_iff.mpr h]
  · rw [Alternatives.ofList_eq_ofList_iff.mpr h]
  · rw [Answer.ofBindings?_congr h]
  · rw [Answer.ofBindings_perm hperm hdistinct]

/-- Names that end in a closing brace or begin with an opening one do not let two alternatives look
like one, and names that contain an equals sign do not hide where a concept begins. -/
theorem laws_of_rendering_nested :
    let e : Arrow := ⟨⟨"x"⟩, ⟨"a\x7d"⟩⟩
    let d : Arrow := ⟨⟨"\x7b$y"⟩, ⟨""⟩⟩
    let u : Unifier := .ofList [e]
    let v : Unifier := .ofList [d, e]
    let a : Alternatives := .ofList [u, .ofList [d]]
    let b : Alternatives := .single v
    let x : Answer := .ofBindings [(⟨"x=1"⟩, ⟨2, by decide⟩)]
    let y : Answer := .ofBindings [(⟨"x"⟩, ⟨12, by decide⟩)]
    (u.Plain ∧ v.Plain ∧ u.render ≠ v.render) ∧ (a.Plain ∧ b.Plain ∧ a.render ≠ b.render) ∧
      (x.Plain ∧ y.Plain ∧ x.render ≠ y.render) ∧
      v.render = (Unifier.ofList [e, d, e]).render ∧
      a.render = (Alternatives.ofList [.ofList [d], u]).render ∧
      (Answer.ofBindings (x.toList ++ y.toList)).render =
        (Answer.ofBindings (y.toList ++ x.toList)).render := by
  intro e d u v a b x y
  obtain ⟨hu, ha, hx, hes, hus, -, hbs⟩ := laws_of_rendering
  have hplain : (u.Plain ∧ v.Plain) ∧ (a.Plain ∧ b.Plain) ∧ x.Plain ∧ y.Plain := by decide +kernel
  obtain ⟨⟨hpu, hpv⟩, ⟨hpa, hpb⟩, hpx, hpy⟩ := hplain
  refine ⟨⟨hpu, hpv, (hu u v hpu hpv).not.mpr ?_⟩, ⟨hpa, hpb, (ha a b hpa hpb).not.mpr ?_⟩,
    ⟨hpx, hpy, (hx x y hpx hpy).not.mpr ?_⟩, hes _ _ ?_, hus _ _ ?_,
    hbs _ _ List.perm_append_comm ?_⟩
  · decide +kernel
  · decide +kernel
  · decide +kernel
  · simp [or_comm]
  · simp [or_comm]
  · decide +kernel

-- A comma in a name can look like one between two arrows.
example : (Unifier.ofList [⟨⟨"x"⟩, ⟨"a, $y->$b"⟩⟩]).render =
    (Unifier.ofList [⟨⟨"x"⟩, ⟨"a"⟩⟩, ⟨⟨"y"⟩, ⟨"b"⟩⟩]).render := by
  decide +kernel

end VarRenaming
