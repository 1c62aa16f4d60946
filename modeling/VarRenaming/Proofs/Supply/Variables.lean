import Std.Data.String.ToNat
import VarRenaming.Proofs.Supply.Sharing
import VarRenaming.Var

/-! # Fresh variables

The number of an anonymous variable can be read off its name (`VarSupply.named_injective`), so fresh
variables repeat no earlier than the counter of their supply does. -/

namespace VarRenaming.VarSupply

open Supply

variable {κ : Type} {s : VarSupply}

theorem counts : Counts fresh (fun s => s.next.toNat) (2 ^ 64) where
  count_lt s := s.next.toNat_lt
  count_fresh s := UInt64.toNat_add s.next 1
  count_injective s s' h := by
    obtain ⟨k⟩ := s
    obtain ⟨k'⟩ := s'
    exact congrArg VarSupply.mk (UInt64.toNat_inj.mp h)

/-- **Decimal numerals** behind the same word are told apart. -/
theorem named_injective {n k : UInt64} (h : (named n).name = (named k).name) : n = k := by
  have hlist : "anon".toList ++ (toString n.toNat).toList =
      "anon".toList ++ (toString k.toNat).toList := by
    rw [← String.toList_append, ← String.toList_append]
    exact congrArg String.toList h
  have hnumber : toString n.toNat = toString k.toNat :=
    String.toList_inj.mp (List.append_cancel_left hlist)
  exact UInt64.toNat_inj.mp (Nat.repr_injective hnumber)

theorem nodup_names_iff {n : Nat} : ((draws fresh n s).map Var.name).Nodup ↔ n ≤ 2 ^ 64 := by
  rw [← List.filterMap_eq_map]
  refine counts.nodup_filterMap_draws_iff ?_ rfl
  intro s s' x hs hs'
  obtain ⟨k⟩ := s
  obtain ⟨k'⟩ := s'
  have hname : (named k).name = (named k').name := Option.some.inj (hs.trans hs'.symm)
  exact congrArg VarSupply.mk (named_injective hname)

/-- **Fresh variables differ**, whichever callers share the supply and however their calls overlap:
all that at most `2 ^ 64` calls draw, and so all that they have returned, bear different names, since
no two numbers are written alike. One call more and a name comes again. Together the callers draw
what one caller would. -/
theorem fresh_variables_differ {m : Moment VarSupply κ Var} (h : Reaches fresh s m) :
    ((m.values.map Var.name).Nodup ↔ m.callers.length ≤ 2 ^ 64) ∧
    (m.callers.length ≤ 2 ^ 64 → (m.returned.map fun r => r.2.name).Nodup) ∧
    (∀ n k : UInt64, (named n).name = (named k).name → n = k) ∧
    m.values = (draws fresh m.callers.length s : List Var) := by
  have hiff : (m.values.map Var.name).Nodup ↔ m.callers.length ≤ 2 ^ 64 := by
    rw [h.values_eq, Multiset.map_coe, Multiset.coe_nodup, nodup_names_iff]
  refine ⟨hiff, fun hlen => ?_, fun _ _ => named_injective, h.values_eq⟩
  have hall := Multiset.nodup_of_le (Multiset.map_le_map m.returned_le) (hiff.mpr hlen)
  rwa [Multiset.map_coe, Multiset.coe_nodup, List.map_map] at hall

/-- Two callers, of whom the second to draw is the first to return. -/
theorem fresh_variables_differ_overtaking :
    ∃ m : Moment VarSupply Bool Var, Reaches fresh {} m ∧ m.callers.length ≤ 2 ^ 64 ∧
      m.returned = [(true, ⟨"anon1"⟩), (false, ⟨"anon0"⟩)] ∧
      (m.returned.map fun r => r.2.name).Nodup := by
  let log : List (Bool × Var) := [(true, ⟨"anon1"⟩), (false, ⟨"anon0"⟩)]
  have hm : Reaches fresh {} (⟨⟨2⟩, [false, true], 0, log⟩ : Moment VarSupply Bool Var) :=
    (((Relation.ReflTransGen.refl.tail (.draw false ..)).tail (.draw true ..)).tail
      (.finish true ..)).tail (.finish false ..)
  have hlen : [false, true].length ≤ 2 ^ 64 := by decide
  exact ⟨_, hm, hlen, rfl, (fresh_variables_differ hm).2.1 hlen⟩

end VarRenaming.VarSupply
