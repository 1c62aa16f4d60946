import VarRenaming.Proofs.Flow.Schedule

/-! # Collections that share a sink

Several collections can be attached to one sink, and their changes arrive at it in any interleaving.
After every step the sink holds the net amounts of what has arrived (`Run.sinks_attached`), and at
the end those of the concatenation of its collections (`Run.sinks_attached_complete`). -/

namespace VarRenaming.Flow

open Change

/-- A collection that is attached, through some writer, to the sink of an index. -/
structure Attachment where
  sink : Nat
  changes : List Change

/-- Attached collections of which no change has been processed yet. -/
def attached (cols : List Attachment) : State where
  input := []
  inFlight := ↑(cols.flatMap fun k => k.changes.map (Message.mk k.sink []))
  sinks := fun _ => .empty

/-- The changes of all collections that are attached to a sink. -/
def concatenation (cols : List Attachment) (i : Nat) : List Change :=
  (cols.filter (·.sink = i)).flatMap (·.changes)

theorem concatenation_singleton (i : Nat) (cs : List Change) : concatenation [⟨i, cs⟩] i = cs := by
  simp [concatenation]

theorem flatMap_due_map (i j : Nat) (cs : List Change) :
    (cs.map (Message.mk j [])).flatMap (fun m => m.due i) = if j = i then cs else [] := by
  rw [List.flatMap_map]
  by_cases h : j = i
  · simp only [Message.due, h, if_true]
    exact (Stage.passAll_eq_flatMap [] cs).symm
  · simp only [Message.due, h, if_false, List.flatMap_eq_nil_iff, implies_true]

theorem due_attached (f : Flow) (cols : List Attachment) (i : Nat) :
    (attached cols).due f i = (concatenation cols i : Multiset Change) := by
  simp only [State.due, attached, List.flatten_nil, reaching_nil, Multiset.coe_nil, add_zero,
    Multiset.coe_bind, concatenation]
  refine congrArg _ ?_
  induction cols with
  | nil => rfl
  | cons k cols ih =>
    rw [List.flatMap_cons, List.flatMap_append, ih, flatMap_due_map]
    by_cases h : k.sink = i
    · rw [List.filter_cons_of_pos (by simpa using h), if_pos h, List.flatMap_cons]
    · rw [List.filter_cons_of_neg (by simpa using h), if_neg h, List.nil_append]

variable {f : Flow} {cols : List Attachment} {log : List Arrival} {s : State}

/-- At any moment, a sink has received a part of the changes of its collections. -/
theorem Run.exists_perm_concatenation (h : Run f (attached cols) log s) (i : Nat) :
    ∃ rest, (arrivedAt i log ++ rest).Perm (concatenation cols i) := by
  have hdue := h.due_eq i
  rw [due_attached] at hdue
  obtain ⟨rest, hrest⟩ := Quot.exists_rep (s.due f i)
  rw [← hrest] at hdue
  exact ⟨rest, (Multiset.coe_eq_coe.mp hdue).symm⟩

theorem Run.sinks_attached (h : Run f (attached cols) log s) (i : Nat) :
    s.sinks i = .ofList (arrivedAt i log) := h.sinks_eq i

/-- **The end does not depend on the interleaving.** -/
theorem Run.sinks_attached_complete (h : Run f (attached cols) log s) (hs : s.Complete) (i : Nat) :
    s.sinks i = .ofList (concatenation cols i) := by
  have harr : (arrivedAt i log : Multiset Change) = (concatenation cols i : Multiset Change) := by
    rw [h.arrivedAt_of_complete hs, due_attached]
  rw [h.sinks_attached]
  exact Tally.ofList_congr_perm (Multiset.coe_eq_coe.mp harr)

/-- **A sink adds up whatever its writers send it, in any interleaving.** After every step it has
received a part of the changes attached to it, and it holds exactly the sums that are not zero: as
entries, and each once in its list of answers. The steps that remain can be taken, and at the end
the sink holds the same as after any other interleaving, and the same as a sink to which the
concatenation of the collections is attached. -/
theorem sink_of_interleaving (cols : List Attachment) (log : List Arrival) (s : State)
    (h : Run ⟨[]⟩ (attached cols) log s) (i : Nat) :
    (∃ rest, (arrivedAt i log ++ rest).Perm (concatenation cols i)) ∧
    (∀ a n, (s.sinks i).counts[a]? = some n ↔ n ≠ 0 ∧ n = net (arrivedAt i log) a) ∧
    ((s.sinks i).answers.Nodup ∧ ∀ a, a ∈ (s.sinks i).answers ↔ net (arrivedAt i log) a ≠ 0) ∧
    (∃ log' s', Run ⟨[]⟩ s log' s' ∧ s'.Complete) ∧
    (s.Complete →
      (∀ log' s', Run ⟨[]⟩ (attached cols) log' s' → s'.Complete → s'.sinks i = s.sinks i) ∧
      ∀ j log' s', Run ⟨[]⟩ (attached [⟨j, concatenation cols i⟩]) log' s' → s'.Complete →
        s'.sinks j = s.sinks i) := by
  refine ⟨h.exists_perm_concatenation i, ?_, ?_, exists_run_complete _ s, ?_⟩
  · intro a n
    rw [h.sinks_attached, Tally.getElem?_ofList]
  · refine ⟨Tally.nodup_answers _, fun a => ?_⟩
    rw [h.sinks_attached, Tally.mem_answers_ofList]
  · intro hs
    rw [h.sinks_attached_complete hs]
    constructor
    · intro log' s' h' hs'
      exact h'.sinks_attached_complete hs' i
    · intro j log' s' h' hs'
      rw [h'.sinks_attached_complete hs', concatenation_singleton]

/-- Two collections on one sink: the entry of the answer is created, comes to zero and is created
anew. -/
theorem sink_of_interleaving_anew :
    let a : Answer := .ofBindings [(⟨"x"⟩, ⟨1, by decide⟩)]
    let cols : List Attachment := [⟨0, [⟨a, 1⟩, ⟨a, 2⟩]⟩, ⟨0, [⟨a, -1⟩]⟩]
    (∃ s, Run ⟨[]⟩ (attached cols) [(0, ⟨a, 1⟩), (0, ⟨a, -1⟩)] s ∧ a ∉ (s.sinks 0).answers) ∧
    ∃ s, Run ⟨[]⟩ (attached cols) [(0, ⟨a, 1⟩), (0, ⟨a, -1⟩), (0, ⟨a, 2⟩)] s ∧ s.Complete ∧
      (s.sinks 0).counts[a]? = some 2 := by
  intro a cols
  let m (n : Int) : Message := ⟨0, [], ⟨a, n⟩⟩
  have hcols : attached cols = ⟨[], m 1 ::ₘ m (-1) ::ₘ m 2 ::ₘ 0, fun _ => .empty⟩ :=
    congrArg (State.mk [] · _) (Multiset.coe_eq_coe.mpr (.cons _ (.swap (m (-1)) (m 2) [])))
  have h₀ : Run ⟨[]⟩ (attached cols) [] ⟨[], m 1 ::ₘ m (-1) ::ₘ m 2 ::ₘ 0, fun _ => .empty⟩ := by
    rw [hcols]
    exact .refl _
  have h₁ : Run ⟨[]⟩ (attached cols) [(0, ⟨a, 1⟩)] _ := h₀.tail (.arrive ..)
  have h₂ : Run ⟨[]⟩ (attached cols) [(0, ⟨a, 1⟩), (0, ⟨a, -1⟩)] _ := h₁.tail (.arrive ..)
  have h₃ : Run ⟨[]⟩ (attached cols) [(0, ⟨a, 1⟩), (0, ⟨a, -1⟩), (0, ⟨a, 2⟩)] _ :=
    h₂.tail (.arrive ..)
  refine ⟨⟨_, h₂, ?_⟩, _, h₃, ⟨rfl, rfl⟩, ?_⟩
  · rw [(sink_of_interleaving cols _ _ h₂ 0).2.2.1.2]
    decide +kernel
  · rw [(sink_of_interleaving cols _ _ h₃ 0).2.1]
    decide +kernel

end VarRenaming.Flow
