import Mathlib.Algebra.BigOperators.Group.List.Basic
import Mathlib.Algebra.Ring.Int.Defs
import VarRenaming.Flow.Tally

/-! # What a tally holds

A tally that has received changes holds their net amounts (`Change.net`), with no entry for an
answer whose amounts cancel (`getElem?_ofList`). It is read off its counts, because a tally that
starts empty is `Reduced` after each change. -/

namespace VarRenaming

open Std

namespace Change

/-- The sum of the amounts by which changes change the multiplicity of an answer. -/
def net (cs : List Change) (a : Answer) : Int := ((cs.filter (·.answer = a)).map amount).sum

@[simp] theorem net_nil (a : Answer) : net [] a = 0 := rfl

@[simp] theorem net_cons (c : Change) (cs : List Change) (a : Answer) :
    net (c :: cs) a = (if c.answer = a then c.amount else 0) + net cs a := by
  unfold net
  by_cases h : c.answer = a
  · rw [List.filter_cons_of_pos (by simpa using h), if_pos h, List.map_cons, List.sum_cons]
  · rw [List.filter_cons_of_neg (by simpa using h), if_neg h, zero_add]

@[simp] theorem net_append (cs ds : List Change) (a : Answer) :
    net (cs ++ ds) a = net cs a + net ds a := by
  simp only [net, List.filter_append, List.map_append, List.sum_append]

theorem net_flatMap {α : Type} (l : List α) (f : α → List Change) (a : Answer) :
    net (l.flatMap f) a = (l.map fun x => net (f x) a).sum := by
  induction l with
  | nil => rfl
  | cons x l ih => rw [List.flatMap_cons, net_append, ih, List.map_cons, List.sum_cons]

theorem net_perm {cs ds : List Change} (h : cs.Perm ds) (a : Answer) : net cs a = net ds a :=
  ((h.filter _).map amount).sum_eq

end Change

namespace Tally

open Change

variable {t : Tally} {a : Answer} {n : Int}

/-! ### Counts -/

theorem receiveAll_nil (t : Tally) : t.receiveAll [] = t := rfl

theorem receiveAll_cons (t : Tally) (c : Change) (cs : List Change) :
    t.receiveAll (c :: cs) = (t.receive c).receiveAll cs := rfl

theorem receiveAll_append (t : Tally) (cs ds : List Change) :
    t.receiveAll (cs ++ ds) = (t.receiveAll cs).receiveAll ds :=
  List.foldl_append

theorem count_receiveAll (t : Tally) (cs : List Change) (a : Answer) :
    (t.receiveAll cs).count a = t.count a + net cs a := by
  induction cs generalizing t with
  | nil => rw [receiveAll_nil, net_nil, add_zero]
  | cons c cs ih => rw [receiveAll_cons, ih, count_receive, net_cons, add_assoc]

theorem count_ofList (cs : List Change) (a : Answer) : (ofList cs).count a = net cs a := by
  rw [ofList, count_receiveAll, count_empty, zero_add]

/-! ### Entries -/

/-- **The invariant of a tally**: no entry is zero. -/
def Reduced (t : Tally) : Prop := ∀ a : Answer, t.counts[a]? ≠ some 0

theorem reduced_empty : empty.Reduced := by
  intro a h
  have hnone : empty.counts[a]? = none := ExtTreeMap.getElem?_empty
  rw [hnone] at h
  cases h

/-- A change keeps the invariant: it is the entry of its answer that may come to zero. -/
theorem Reduced.receive (h : t.Reduced) (c : Change) : (t.receive c).Reduced := by
  intro a
  simp only [Tally.receive, ExtTreeMap.getElem?_alter, Std.compare_eq_iff_eq]
  by_cases hc : c.answer = a
  · rw [if_pos hc]
    split_ifs with h0
    · exact (Option.some_ne_none 0).symm
    · exact fun hs => h0 (Option.some.inj hs)
  · rw [if_neg hc]
    exact h a

theorem Reduced.receiveAll (h : t.Reduced) (cs : List Change) : (t.receiveAll cs).Reduced := by
  induction cs generalizing t with
  | nil => exact h
  | cons c cs ih => exact ih (h.receive c)

theorem reduced_ofList (cs : List Change) : (ofList cs).Reduced := reduced_empty.receiveAll cs

theorem Reduced.getElem?_eq_some_iff (h : t.Reduced) :
    t.counts[a]? = some n ↔ n ≠ 0 ∧ n = t.count a := by
  rw [count, ExtTreeMap.getD_eq_getD_getElem?]
  cases he : t.counts[a]? with
  | none => simp
  | some m =>
    have hm : m ≠ 0 := fun h0 => h a (h0 ▸ he)
    simp only [Option.some.injEq, Option.getD_some]
    constructor
    · rintro rfl
      exact ⟨hm, rfl⟩
    · exact fun hn => hn.2.symm

theorem Reduced.mem_answers (h : t.Reduced) : a ∈ t.answers ↔ t.count a ≠ 0 := by
  rw [answers, ExtTreeMap.mem_keys, ExtTreeMap.mem_iff_isSome_getElem?, Option.isSome_iff_exists]
  simp only [h.getElem?_eq_some_iff]
  constructor
  · rintro ⟨n, hn, rfl⟩
    exact hn
  · exact fun hn => ⟨_, hn, rfl⟩

theorem Reduced.ext {t' : Tally} (h : t.Reduced) (h' : t'.Reduced)
    (hc : ∀ a, t.count a = t'.count a) : t = t' := by
  obtain ⟨m⟩ := t
  obtain ⟨m'⟩ := t'
  congr 1
  ext a n
  rw [h.getElem?_eq_some_iff, h'.getElem?_eq_some_iff, hc]

theorem nodup_answers (t : Tally) : t.answers.Nodup := ExtTreeMap.nodup_keys

/-! ### Tallies of lists -/

/-- **The snapshot of a tally**: the net amounts that are not zero. -/
theorem getElem?_ofList {cs : List Change} :
    (ofList cs).counts[a]? = some n ↔ n ≠ 0 ∧ n = net cs a := by
  rw [(reduced_ofList cs).getElem?_eq_some_iff, count_ofList]

theorem mem_answers_ofList {cs : List Change} : a ∈ (ofList cs).answers ↔ net cs a ≠ 0 := by
  rw [(reduced_ofList cs).mem_answers, count_ofList]

/-- **Only net amounts matter.** -/
theorem ofList_congr {cs ds : List Change} (h : ∀ a, net cs a = net ds a) : ofList cs = ofList ds :=
  (reduced_ofList cs).ext (reduced_ofList ds) fun a => by rw [count_ofList, count_ofList, h]

theorem ofList_congr_perm {cs ds : List Change} (h : cs.Perm ds) : ofList cs = ofList ds :=
  ofList_congr (net_perm h)

end Tally

end VarRenaming
