import VarRenaming.Unifier.Order

/-! # Alternative unifiers

Two patterns can unify in several ways, or in none. All ways together are a finite set of unifiers, in
ascending order. No way is the empty set (`Alternatives.impossible`), and patterns that already agree
have the identity alone (`Alternatives.trivial`). -/

namespace VarRenaming

open Std

/-- A finite set of unifiers, each of which unifies the same two patterns. -/
structure Alternatives where
  members : FiniteSet Unifier

namespace Alternatives

instance : DecidableEq Alternatives := fun a b =>
  decidable_of_iff (a.members = b.members) ⟨congrArg mk, congrArg members⟩

/-! ### Refusals -/

/-- Why an operation on alternatives gives no result. -/
inductive Refusal where
  /-- One alternative was expected, and there are `size`. -/
  | notSingle (size : Nat)
  /-- Some alternative was expected, and there is none. -/
  | noneExists
  /-- A combination needs more alternatives than the settings allow. -/
  | overLimit (limit required : UInt64)
deriving DecidableEq

/-- The text that reports a refusal. -/
def Refusal.message : Refusal → String
  | notSingle size => "expected exactly one unifier, found " ++ toString size
  | noneExists => "no unifier exists"
  | overLimit limit required =>
    "combining multi-unifiers requires " ++ toString required.toNat ++ " alternatives, limit is " ++
      toString limit.toNat

/-! ### Building -/

/-- Collects unifiers; their order and repetitions do not matter. -/
def ofList (us : List Unifier) : Alternatives := ⟨.ofList us⟩

/-- The one alternative `u`. -/
def single (u : Unifier) : Alternatives := ofList [u]

/-- The patterns agree as they are. -/
def trivial : Alternatives := single .identity

/-- The patterns do not unify. -/
def impossible : Alternatives := ⟨∅⟩

instance : Inhabited Alternatives := ⟨impossible⟩

/-! ### Members -/

instance : Membership Unifier Alternatives := ⟨fun a u => u ∈ a.members⟩

instance (u : Unifier) (a : Alternatives) : Decidable (u ∈ a) :=
  inferInstanceAs (Decidable (u ∈ a.members))

instance (a : Alternatives) (p : Unifier → Prop) [DecidablePred p] : Decidable (∀ u ∈ a, p u) :=
  inferInstanceAs (Decidable (∀ u ∈ a.members, p u))

/-- The alternatives in ascending order. -/
def toList (a : Alternatives) : List Unifier := a.members.toList

/-- The number of alternatives. -/
def size (a : Alternatives) : Nat := a.members.size

/-- Whether the patterns do not unify. -/
def isEmpty (a : Alternatives) : Bool := a.members.isEmpty

/-- Whether the patterns agree as they are: there is one alternative, and it renames nothing. -/
def isTrivial (a : Alternatives) : Bool := a.size = 1 ∧ a.toList.all Unifier.isEmpty

/-- The only alternative. -/
def only (a : Alternatives) : Except Refusal Unifier :=
  match a.toList with
  | [u] => .ok u
  | _ => .error (.notSingle a.size)

/-- The least alternative. -/
def least (a : Alternatives) : Except Refusal Unifier :=
  match a.toList with
  | [] => .error .noneExists
  | u :: _ => .ok u

@[ext] theorem ext {a b : Alternatives} (h : ∀ u, u ∈ a ↔ u ∈ b) : a = b := by
  obtain ⟨_⟩ := a
  obtain ⟨_⟩ := b
  exact congrArg Alternatives.mk (ExtTreeSet.ext_mem h)

@[simp] theorem mem_members {a : Alternatives} {u : Unifier} : u ∈ a.members ↔ u ∈ a := Iff.rfl

@[simp] theorem mem_ofList {us : List Unifier} {u : Unifier} : u ∈ ofList us ↔ u ∈ us :=
  FiniteSet.mem_ofList

@[simp] theorem mem_toList {a : Alternatives} {u : Unifier} : u ∈ a.toList ↔ u ∈ a :=
  ExtTreeSet.mem_toList

@[simp] theorem mem_single {u v : Unifier} : u ∈ single v ↔ u = v := by
  simp [single]

@[simp] theorem not_mem_impossible (u : Unifier) : u ∉ impossible := ExtTreeSet.not_mem_empty

@[simp] theorem length_toList (a : Alternatives) : a.toList.length = a.size :=
  ExtTreeSet.length_toList

theorem isTrivial_iff {a : Alternatives} : a.isTrivial = true ↔ a = trivial := by
  rw [isTrivial, decide_eq_true_iff, ← length_toList, List.length_eq_one_iff]
  constructor
  · rintro ⟨⟨u, hu⟩, hall⟩
    have hempty : u = .identity := Unifier.isEmpty_iff.mp (by simpa [hu] using hall)
    ext v
    rw [← mem_toList, hu, hempty, List.mem_singleton, trivial, mem_single]
  · rintro rfl
    have htrivial : trivial.toList = [.identity] := by decide +kernel
    exact ⟨⟨_, htrivial⟩, by rw [htrivial]; decide +kernel⟩

/-! ### Subsumption -/

/-- Some alternative has all arrows of `u`, so that `u` is a special case of it. -/
def Subsumes (a : Alternatives) (u : Unifier) : Prop := ∃ v ∈ a, u ⊆ v

/-- Each alternative of `b` is a special case of one of `a`. -/
def SubsumesAll (a b : Alternatives) : Prop := ∀ u ∈ b, a.Subsumes u

instance (a : Alternatives) (u : Unifier) : Decidable (a.Subsumes u) :=
  decidable_of_iff (a.toList.any (u ⊆ ·)) <| by simp [Subsumes]

instance (a b : Alternatives) : Decidable (a.SubsumesAll b) :=
  decidable_of_iff (b.toList.all (a.Subsumes ·)) <| by simp [SubsumesAll]

/-! ### Inverting and selecting -/

/-- Inverts every alternative. -/
def inverse (a : Alternatives) : Alternatives := ⟨a.members.image Unifier.inverse⟩

/-- The alternatives that `p` accepts. -/
def filter (p : Unifier → Bool) (a : Alternatives) : Alternatives := .ofList (a.toList.filter p)

/-- The alternatives that `p` accepts, where `p` may keep a state or have other effects. It is asked
once for every alternative, in ascending order. -/
def filterM {m : Type → Type} [Monad m] (p : Unifier → m Bool) (a : Alternatives) :
    m Alternatives :=
  ofList <$> a.toList.filterM p

@[simp] theorem mem_inverse {a : Alternatives} {u : Unifier} :
    u ∈ a.inverse ↔ ∃ v ∈ a, v.inverse = u :=
  FiniteSet.mem_image

@[simp] theorem mem_filter {p : Unifier → Bool} {a : Alternatives} {u : Unifier} :
    u ∈ a.filter p ↔ u ∈ a ∧ p u := by
  simp [filter]

/-! ### Order and text -/

/-- Alternatives are ordered by their lists of members, lexicographically. -/
instance : Ord Alternatives := ⟨compareOn members⟩

instance : TransOrd Alternatives := inferInstanceAs (TransCmp (compareOn members))

instance : LawfulEqOrd Alternatives where
  eq_of_compare {a b} h := by
    obtain ⟨_⟩ := a
    obtain ⟨_⟩ := b
    exact congrArg Alternatives.mk (Std.compare_eq_iff_eq.mp h)

/-- Alternatives are shown as their members in brackets. -/
def render (a : Alternatives) : String := Text.listing "[" "]" (a.toList.map Unifier.render)

end Alternatives

end VarRenaming
