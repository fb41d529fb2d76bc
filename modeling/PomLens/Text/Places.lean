/-
This file defines places of a text, by which patterns are matched.

A match keeps track of all the places that the part of a pattern read so far may have come
to. Each further part carries every such place on to those where it may end. There are never
more places than characters, so a pattern of many wildcards costs no more than its length
times that of the text.
-/

namespace PomLens.Text

/-- Which places of a text have been reached: the one in front of each character, in order,
and the one at the end. -/
abbrev Places := List Bool

namespace Places

variable {α : Type}

/-- Only the place in front of the whole text. -/
def start (text : List α) : Places :=
  true :: text.map fun _ => false

/-- The places reached in one way or in another. -/
def union (first second : Places) : Places :=
  List.zipWith (· || ·) first second

/-- The places behind one character that is accepted. -/
def step (accepts : α → Bool) (text : List α) (places : Places) : Places :=
  false :: List.zipWith (fun char reached => accepts char && reached) text places

/-- The places from the first on that was reached, where `earlier` says that one was reached
already. -/
def onFrom (earlier : Bool) : Places → Places
  | [] => []
  | reached :: rest => (earlier || reached) :: onFrom (earlier || reached) rest

/-- The places behind any characters. -/
def run (places : Places) : Places :=
  places.onFrom false

/-- The end of the text has been reached. -/
def atEnd (places : Places) : Bool :=
  places.getLast? == some true

end Places

end PomLens.Text
