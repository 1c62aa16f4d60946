import Mathlib.Data.Multiset.Bind
import VarRenaming.Flow.Program
import VarRenaming.Proofs.Flow.Tally

/-! # Running a flow in any order

A flow runs in steps: a change of the input enters all taps, a change under way passes its next
stage, or a change that has passed all its stages is added to its sink, which is locked meanwhile.
Which step comes next is left open, so changes may overtake each other.

* `Run.sinks_eq`: a sink holds the tally of the changes that have arrived at it.
* `Run.due_eq`: no change is lost, doubled or invented on the way.
* `exists_run_complete`: whatever has happened, a run can be brought to an end.
* `leaves_iff`: whatever the order, a flow leaves in its sinks what `Flow.sinks` computes. -/

namespace VarRenaming.Flow

/-- A change under way: the sink that it will reach, and the stages that it has to pass before. -/
structure Message where
  sink : Nat
  stages : List Stage
  change : Change

/-- A flow at work: the epochs of the input that have not been fed yet, the changes under way in no
particular order, and the sinks by their indices. -/
structure State where
  input : List (List Change)
  inFlight : Multiset Message
  sinks : Nat → Tally

/-- A change that has been added to the sink of an index. -/
abbrev Arrival := Nat × Change

/-- A change of the input enters every tap. -/
def entering (f : Flow) (c : Change) : Multiset Message :=
  ↑(f.taps.map fun t => Message.mk t.sink t.stages c)

/-- What a change under way becomes when it passes its next stage. -/
def passing (i : Nat) (s : Stage) (ss : List Stage) (c : Change) : Multiset Message :=
  ↑((s.pass c).map (Message.mk i ss))

/-- **One step of a flow**, with the change that arrives by it at a sink, if one does. -/
inductive Step (f : Flow) : State → List Arrival → State → Prop
  /-- The next epoch of the input begins. -/
  | advance (es ms ts) : Step f ⟨[] :: es, ms, ts⟩ [] ⟨es, ms, ts⟩
  | enter (c cs es ms ts) : Step f ⟨(c :: cs) :: es, ms, ts⟩ [] ⟨cs :: es, f.entering c + ms, ts⟩
  | pass (es i s ss c ms ts) :
    Step f ⟨es, ⟨i, s :: ss, c⟩ ::ₘ ms, ts⟩ [] ⟨es, passing i s ss c + ms, ts⟩
  | arrive (es i c ms ts) :
    Step f ⟨es, ⟨i, [], c⟩ ::ₘ ms, ts⟩ [(i, c)]
      ⟨es, ms, Function.update ts i ((ts i).receive c)⟩

/-- A run of a flow, with the arrivals in their order. -/
inductive Run (f : Flow) : State → List Arrival → State → Prop
  | refl (s) : Run f s [] s
  | tail {s log t l t'} : Run f s log t → Step f t l t' → Run f s (log ++ l) t'

/-- Nothing is left to feed and nothing under way. -/
def State.Complete (s : State) : Prop := s.input = [] ∧ s.inFlight = 0

/-- A flow before it is fed with epochs. -/
def start (epochs : List (List Change)) : State := ⟨epochs, 0, fun _ => .empty⟩

/-- A run that is fed with epochs can end with the tally `t` in the sink of an index. -/
def Leaves (f : Flow) (epochs : List (List Change)) (i : Nat) (t : Tally) : Prop :=
  ∃ log s, Run f (start epochs) log s ∧ s.Complete ∧ s.sinks i = t

/-! ### What has arrived -/

/-- The changes that have arrived at a sink. -/
def arrivedAt (i : Nat) (log : List Arrival) : List Change :=
  (log.filter (·.1 = i)).map Prod.snd

@[simp] theorem arrivedAt_nil (i : Nat) : arrivedAt i [] = [] := rfl

@[simp] theorem arrivedAt_append (i : Nat) (log log' : List Arrival) :
    arrivedAt i (log ++ log') = arrivedAt i log ++ arrivedAt i log' := by
  simp only [arrivedAt, List.filter_append, List.map_append]

theorem arrivedAt_singleton (i j : Nat) (c : Change) :
    arrivedAt i [(j, c)] = if j = i then [c] else [] := by
  by_cases h : j = i <;> simp [arrivedAt, h]

variable {f : Flow} {s t : State} {log : List Arrival}

theorem Step.sinks_eq {l : List Arrival} (h : Step f s l t) (i : Nat) :
    t.sinks i = (s.sinks i).receiveAll (arrivedAt i l) := by
  cases h with
  | advance | enter | pass => rfl
  | arrive es j c ms ts =>
    rw [arrivedAt_singleton]
    by_cases hj : j = i
    · subst hj
      rw [if_pos rfl]
      exact Function.update_self ..
    · rw [if_neg hj]
      exact Function.update_of_ne (Ne.symm hj) ..

/-- **Sinks hold what has arrived at them.** -/
theorem Run.sinks_eq (h : Run f s log t) (i : Nat) :
    t.sinks i = (s.sinks i).receiveAll (arrivedAt i log) := by
  induction h with
  | refl => rfl
  | tail _ hstep ih => rw [hstep.sinks_eq, ih, arrivedAt_append, Tally.receiveAll_append]

/-! ### What is due -/

/-- The changes that a change under way will bring to the sink of an index. -/
def Message.due (m : Message) (i : Nat) : List Change :=
  if m.sink = i then Stage.passAll m.stages [m.change] else []

/-- The changes that are still to arrive at the sink of an index, from the input and from those
under way. -/
def State.due (f : Flow) (s : State) (i : Nat) : Multiset Change :=
  s.inFlight.bind (fun m => (m.due i : Multiset Change)) +
    (f.reaching i s.input.flatten : Multiset Change)

theorem bind_due_entering (f : Flow) (c : Change) (i : Nat) :
    (f.entering c).bind (fun m => (m.due i : Multiset Change)) =
      (f.reaching i [c] : Multiset Change) := by
  rw [entering, Multiset.coe_bind, Multiset.coe_eq_coe]
  refine List.Perm.of_eq ?_
  unfold reaching
  induction f.taps with
  | nil => rfl
  | cons t ts ih =>
    rw [List.map_cons, List.flatMap_cons, ih]
    by_cases h : t.sink = i
    · rw [List.filter_cons_of_pos (by simpa using h), List.flatMap_cons]
      simp only [Message.due, h, if_true]
    · rw [List.filter_cons_of_neg (by simpa using h)]
      simp only [Message.due, h, if_false, List.nil_append]

theorem bind_due_passing (i j : Nat) (s : Stage) (ss : List Stage) (c : Change) :
    (passing j s ss c).bind (fun m => (m.due i : Multiset Change)) =
      (Message.due ⟨j, s :: ss, c⟩ i : Multiset Change) := by
  rw [passing, Multiset.coe_bind, Multiset.coe_eq_coe, List.flatMap_map]
  refine List.Perm.of_eq ?_
  by_cases h : j = i
  · simp only [Message.due, h, if_true]
    rw [Stage.passAll_cons, List.flatMap_singleton, ← Stage.passAll_eq_flatMap]
  · simp only [Message.due, h, if_false, List.flatMap_eq_nil_iff, implies_true]

theorem reaching_nil (f : Flow) (i : Nat) : f.reaching i [] = [] := by
  simp only [reaching, Stage.passAll_nil, List.flatMap_eq_nil_iff, implies_true]

theorem reaching_append (f : Flow) (i : Nat) (cs ds : List Change) :
    (f.reaching i (cs ++ ds) : Multiset Change) = f.reaching i cs + f.reaching i ds := by
  unfold reaching
  rw [Multiset.coe_add, Multiset.coe_eq_coe]
  simp only [Stage.passAll_append]
  exact (List.flatMap_append_perm ..).symm

/-- **A step keeps the balance** of what has arrived and what is due. -/
theorem Step.due_eq {l : List Arrival} (h : Step f s l t) (i : Nat) :
    s.due f i = arrivedAt i l + t.due f i := by
  cases h with
  | advance es ms ts =>
    rw [arrivedAt_nil, Multiset.coe_nil, zero_add]
    rfl
  | enter c cs es ms ts =>
    have hsplit : ((c :: cs) :: es).flatten = [c] ++ (cs :: es).flatten := rfl
    simp only [State.due, hsplit, reaching_append, Multiset.add_bind, bind_due_entering,
      arrivedAt_nil, Multiset.coe_nil, zero_add]
    rw [← add_assoc, add_comm (ms.bind _)]
  | pass es j st ss c ms ts =>
    simp only [State.due, Multiset.cons_bind, Multiset.add_bind, bind_due_passing, arrivedAt_nil,
      Multiset.coe_nil, zero_add]
  | arrive es j c ms ts =>
    simp only [State.due, Multiset.cons_bind, arrivedAt_singleton, add_assoc]
    rfl

/-- **Nothing is lost or invented**: what was due at a sink has arrived or is still due. -/
theorem Run.due_eq (h : Run f s log t) (i : Nat) :
    s.due f i = arrivedAt i log + t.due f i := by
  induction h with
  | refl => rw [arrivedAt_nil, Multiset.coe_nil, zero_add]
  | tail _ hstep ih => rw [ih, hstep.due_eq, arrivedAt_append, ← Multiset.coe_add, add_assoc]

theorem State.Complete.due (h : s.Complete) (i : Nat) : s.due f i = 0 := by
  obtain ⟨hinput, hflight⟩ := h
  rw [State.due, hinput, hflight, List.flatten_nil, reaching_nil]
  rfl

theorem Run.arrivedAt_of_complete (h : Run f s log t) (ht : t.Complete) (i : Nat) :
    (arrivedAt i log : Multiset Change) = s.due f i := by
  rw [h.due_eq i, ht.due, add_zero]

/-! ### Runs can be brought to an end -/

theorem Run.single {l : List Arrival} (h : Step f s l t) : Run f s l t := .tail (.refl s) h

theorem Run.trans {u : State} {log' : List Arrival} (h : Run f s log t) (h' : Run f t log' u) :
    Run f s (log ++ log') u := by
  induction h' with
  | refl => rwa [List.append_nil]
  | tail _ hstep ih => rw [← List.append_assoc]; exact .tail ih hstep

theorem exists_run_message (f : Flow) (es : List (List Change)) (i : Nat) (ss : List Stage) :
    ∀ c ms ts, ∃ log ts', Run f ⟨es, ⟨i, ss, c⟩ ::ₘ ms, ts⟩ log ⟨es, ms, ts'⟩ := by
  induction ss with
  | nil => exact fun c ms ts => ⟨_, _, .single (.arrive es i c ms ts)⟩
  | cons st ss ih =>
    -- what the first stage makes of the change is brought to the sink one by one
    have hall : ∀ (cs : List Change) ms ts, ∃ log ts',
        Run f ⟨es, (cs.map (Message.mk i ss) : Multiset Message) + ms, ts⟩ log ⟨es, ms, ts'⟩ := by
      intro cs
      induction cs with
      | nil =>
        intro ms ts
        refine ⟨[], ts, ?_⟩
        rw [List.map_nil, Multiset.coe_nil, zero_add]
        exact .refl _
      | cons c cs ihc =>
        intro ms ts
        obtain ⟨log, ts', h⟩ := ih c ((cs.map (Message.mk i ss) : Multiset Message) + ms) ts
        obtain ⟨log', ts'', h'⟩ := ihc ms ts'
        refine ⟨log ++ log', ts'', .trans ?_ h'⟩
        rwa [List.map_cons, ← Multiset.cons_coe, Multiset.cons_add]
    intro c ms ts
    obtain ⟨log, ts', h⟩ := hall (st.pass c) ms ts
    exact ⟨_, ts', (Run.single (.pass es i st ss c ms ts)).trans h⟩

theorem exists_run_inFlight (f : Flow) (es : List (List Change)) (ms : Multiset Message) :
    ∀ ts, ∃ log ts', Run f ⟨es, ms, ts⟩ log ⟨es, 0, ts'⟩ := by
  induction ms using Multiset.induction with
  | empty => exact fun ts => ⟨[], ts, .refl _⟩
  | cons m ms ih =>
    intro ts
    obtain ⟨log, ts', h⟩ := exists_run_message f es m.sink m.stages m.change ms ts
    obtain ⟨log', ts'', h'⟩ := ih ts'
    exact ⟨_, ts'', h.trans h'⟩

/-- **Progress**: whatever has happened so far, a run can be brought to its end. -/
theorem exists_run_complete (f : Flow) (s : State) : ∃ log t, Run f s log t ∧ t.Complete := by
  obtain ⟨es, ms, ts⟩ := s
  induction es generalizing ms ts with
  | nil =>
    obtain ⟨log, ts', h⟩ := exists_run_inFlight f [] ms ts
    exact ⟨log, _, h, rfl, rfl⟩
  | cons e es ih =>
    induction e generalizing ms ts with
    | nil =>
      obtain ⟨log, t, h, ht⟩ := ih ms ts
      exact ⟨_, t, (Run.single (.advance es ms ts)).trans h, ht⟩
    | cons c cs ihc =>
      obtain ⟨log, t, h, ht⟩ := ihc (f.entering c + ms) ts
      exact ⟨_, t, (Run.single (.enter c cs es ms ts)).trans h, ht⟩

/-- **The end of a run does not depend on its order**: it leaves the tally of all changes that reach
the sink. -/
theorem leaves_iff {epochs : List (List Change)} {i : Nat} {u : Tally} :
    f.Leaves epochs i u ↔ u = .ofList (f.reaching i epochs.flatten) := by
  have hend : ∀ {log t}, Run f (start epochs) log t → t.Complete →
      t.sinks i = .ofList (f.reaching i epochs.flatten) := by
    intro log t h ht
    have hdue : (arrivedAt i log : Multiset Change) =
        (f.reaching i epochs.flatten : Multiset Change) := by
      rw [h.arrivedAt_of_complete ht, State.due, start, Multiset.zero_bind, zero_add]
    rw [h.sinks_eq]
    exact Tally.ofList_congr_perm (Multiset.coe_eq_coe.mp hdue)
  constructor
  · rintro ⟨log, t, h, ht, rfl⟩
    exact hend h ht
  · rintro rfl
    obtain ⟨log, t, h, ht⟩ := exists_run_complete f (start epochs)
    exact ⟨log, t, h, ht, hend h ht⟩

end VarRenaming.Flow
