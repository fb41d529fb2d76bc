/-
This file defines edits: replacements of spans of a document's text.

An edit set is one logical change to one descriptor. All its spans refer to the text before
the change, so the set is a simultaneous replacement: it is applied as a whole or not at
all, and the order in which its edits were added matters only between edits of the same
span.
-/

import PomLens.Document

namespace PomLens

/-- The replacement of one span. -/
structure Edit where
  span : Span
  text : String
  deriving DecidableEq, Repr

namespace Edit

/-- Puts text at an offset. -/
def insert (offset : Nat) (text : String) : Edit :=
  ⟨.point offset, text⟩

/-- Removes a span. -/
def delete (span : Span) : Edit :=
  ⟨span, ""⟩

/-- The order of edits: by where they start, then by where they end. An insertion so comes
before a replacement that starts at the same offset. -/
def le (first second : Edit) : Bool :=
  first.span.start < second.span.start ||
    (first.span.start == second.span.start && first.span.stop ≤ second.span.stop)

end Edit

/-- Why an edit set cannot be applied. -/
inductive EditError
  /-- An edit starts before the one before it ends. -/
  | overlap (offset : Nat)
  /-- An edit reaches past the end of the text or cuts a character. -/
  | outOfBounds (start stop : Nat)
  deriving DecidableEq, Repr

def EditError.message : EditError → String
  | .overlap offset => s!"edits overlap at byte {offset}"
  | .outOfBounds start stop => s!"edit range {start}..{stop} is out of bounds"

/-- The edits of one change, in the order in which they were added. -/
structure EditSet where
  path : Path
  added : List Edit
  deriving DecidableEq, Repr

/-- An edit as an editor takes it. -/
structure PositionEdit where
  range : PositionRange
  text : String
  deriving DecidableEq, Repr

namespace EditSet

/-- The edits from the start of the text to its end. Edits of the same span keep the order
in which they were added. -/
def edits (set : EditSet) : List Edit :=
  set.added.mergeSort Edit.le

/-- The text from the offset `cursor` on, where `edits` are still to be made. Each edit is
checked before any text is taken, so the first bad one decides the error. -/
def applyFrom (text : List Char) (cursor : Nat) : List Edit → Except EditError (List Char)
  | [] => return ((Text.cut? cursor text).map Prod.snd).getD []
  | edit :: rest => do
    if !(Text.isBoundary text edit.span.start && Text.isBoundary text edit.span.stop) then
      throw (.outOfBounds edit.span.start edit.span.stop)
    if edit.span.start < cursor then throw (.overlap edit.span.start)
    let kept := ((Span.between cursor edit.span.start).slice? text).getD []
    return kept ++ edit.text.toList ++ (← applyFrom text edit.span.stop rest)

/-- The text with all edits made. -/
def applyTo (set : EditSet) (text : String) : Except EditError String := do
  return String.ofList (← applyFrom text.toList 0 set.edits)

/-- The edits from the start to the end as an editor takes them. -/
def positionEdits (set : EditSet) (document : Document) : List PositionEdit :=
  set.edits.map fun edit => ⟨document.rangeOf edit.span, edit.text⟩

end EditSet

end PomLens
