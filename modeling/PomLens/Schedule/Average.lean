/-
This file defines the running average of the times that a work took.

The average is kept without the samples: a new sample moves it by its share of the distance.
Times are measured in nanoseconds and averaged in milliseconds.
-/

namespace PomLens

/-- An average and the number of samples in it. -/
structure Average where
  value : Float
  samples : Nat
  deriving Repr

namespace Average

/-- The average of no samples. -/
def empty : Average :=
  ⟨0, 0⟩

/-- The number of samples that are told apart. From there on every sample weighs the same. -/
def maxSamples : Nat := UInt32.size - 2

/-- The average with one more sample. -/
def push (average : Average) (sample : Float) : Average :=
  ⟨average.value + (sample - average.value) / Float.ofNat (average.samples + 1),
    min (average.samples + 1) maxSamples⟩

end Average

/-- A time in milliseconds. Whole seconds and the rest of a second are converted on their
own, so a long time loses no more than its last digits. -/
def milliseconds (nanoseconds : Nat) : Float :=
  let second := 1000000000
  (Float.ofNat (nanoseconds / second) +
    Float.ofNat (nanoseconds % second) / Float.ofNat second) * 1000

end PomLens
