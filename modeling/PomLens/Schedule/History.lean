/-
This file defines the history of run times: an average for each of the keys used last.

A use is a new sample for a key, or a look at a key that has an average. The keys stand in
the order of their last use, the latest first, and when there are more of them than the
history has room for, the one at the end is forgotten. Looking at a key without an average
changes nothing.
-/

import PomLens.Schedule.Average

namespace PomLens

structure History (κ : Type) where
  /-- How many keys are remembered. -/
  capacity : Nat
  /-- The keys with their averages, the one used last in front. -/
  entries : List (κ × Average)
  deriving Repr

namespace History

variable {κ : Type} [DecidableEq κ]

/-- A history without entries. There is room for at least one key. -/
def new (capacity : Nat) : History κ :=
  ⟨max 1 capacity, []⟩

/-- The average of a key. -/
def get? (history : History κ) (key : κ) : Option Average :=
  history.entries.lookup key

/-- The entries of the other keys. -/
def others (history : History κ) (key : κ) : List (κ × Average) :=
  history.entries.filter fun (other, _) => other ≠ key

/-- The average of a key that is used now. -/
def use (history : History κ) (key : κ) : History κ × Option Average :=
  match history.get? key with
  | none => (history, none)
  | some average => ({ history with entries := (key, average) :: history.others key }, some average)

/-- The history with one more sample for a key. A key that is new to it starts afresh. -/
def record (history : History κ) (key : κ) (sample : Float) : History κ :=
  let average := (history.get? key).getD .empty
  { history with
    entries := ((key, average.push sample) :: history.others key).take history.capacity }

end History

end PomLens
