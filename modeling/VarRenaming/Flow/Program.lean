import VarRenaming.Flow.Tally

/-! # Flows

A flow has one input, fed with changes in epochs, and taps on it. A tap sends the changes of the input
through its stages into a sink, and several taps may share a sink, which then holds the tally of all
their changes together. -/

namespace VarRenaming

/-- A connection from the input to the sink of an index. -/
structure Tap where
  sink : Nat
  stages : List Stage

/-- The taps on one input. -/
structure Flow where
  taps : List Tap

namespace Flow

/-- The number of sinks, which are numbered from zero up to the greatest index of a tap. -/
def sinkCount (f : Flow) : Nat := f.taps.foldl (fun n t => max n (t.sink + 1)) 0

/-- The changes that reach the sink of an index. -/
def reaching (f : Flow) (sink : Nat) (changes : List Change) : List Change :=
  (f.taps.filter (·.sink = sink)).flatMap fun t => Stage.passAll t.stages changes

/-- The sinks after the input has been fed with changes. -/
def sinks (f : Flow) (changes : List Change) : List Tally :=
  (List.range f.sinkCount).map fun i => .ofList (f.reaching i changes)

/-- The sinks after each epoch, where the changes of all epochs so far have arrived. -/
def history (f : Flow) (epochs : List (List Change)) : List (List Tally) :=
  (List.range epochs.length).map fun i => f.sinks (epochs.take (i + 1)).flatten

end Flow

end VarRenaming
