/-
This file reads the positions of edits back.

What is sent to an editor has positions in place of offsets. How an editor reads them is not known
here: they are read the way the document itself reads positions (`Document.spanOf`). If no edit
begins or ends inside the ending of a line, its positions lead back to its span
(`map_edit_positionEdits`), and if any two edits are apart, the set is applied and the edits read
back give the same text (`edited_of_apart`).
-/

import PomLens.Proofs.Document.Position
import PomLens.Proofs.Edit.Simultaneous

namespace PomLens

/-! ### Edits by positions -/

/-- The edit of the span that the document finds between the positions of an edit. -/
def PositionEdit.edit (document : Document) (edit : PositionEdit) : Edit :=
  ⟨document.spanOf edit.range, edit.text⟩

/-- The text of a document when some edits have been made by their positions, the last one first.
The positions of each are read by the document as it was before all of them. -/
def Document.editedBy? (document : Document) (edits : List PositionEdit) : Option (List Char) :=
  replaceFromLast? (edits.map (PositionEdit.edit document)) document.chars

/-- The edit stays inside a span, and divides no ending of a line at its ends. -/
structure Edit.Stays (text : List Char) (outer : Span) (edit : Edit) : Prop where
  rests : edit.span.Rests text
  start : outer.start ≤ edit.span.start
  stop : edit.span.stop ≤ outer.stop

theorem Edit.Stays.weaken {text : List Char} {inner outer : Span} {edit : Edit}
    (stays : edit.Stays text inner) (starts : outer.start ≤ inner.start)
    (stops : inner.stop ≤ outer.stop) : edit.Stays text outer :=
  ⟨stays.rests, starts.trans stays.start, stays.stop.trans stops⟩

theorem Edit.fits_of_rests {text : List Char} {edit : Edit} (rests : edit.span.Rests text) :
    edit.Fits text := by
  rw [Edit.fits_iff, rests.start.boundary, rests.stop.boundary]
  rfl

variable {document : Document}

/-- The positions of such edits lead back to them. -/
theorem EditSet.map_edit_positionEdits {set : EditSet}
    (rests : ∀ edit ∈ set.added, edit.span.Rests document.chars) :
    (set.positionEdits document).map (PositionEdit.edit document) = set.edits := by
  have same : ∀ edit ∈ set.edits,
      PositionEdit.edit document ⟨document.rangeOf edit.span, edit.text⟩ = id edit := by
    intro edit member
    have inSet := rests edit (set.edits_perm.mem_iff.mp member)
    rw [PositionEdit.edit, Document.spanOf_rangeOf inSet, id]
  rw [positionEdits, List.map_map]
  exact (List.map_congr_left same).trans (List.map_id _)

/-- A set of edits is found again by its positions, and made by them it gives what is computed. -/
structure Edited (document : Document) (set : EditSet) : Prop where
  edits : (set.positionEdits document).map (PositionEdit.edit document) = set.edits
  applied : ∃ new, set.applyTo document.text = .ok new ∧
    document.editedBy? (set.positionEdits document) = some new.toList

/-- Edits that do not meet can all be made, by their positions too. -/
theorem edited_of_apart {set : EditSet}
    (rests : ∀ edit ∈ set.added, edit.span.Rests document.chars)
    (apart : set.added.Pairwise Edit.Apart) : Edited document set := by
  have back := EditSet.map_edit_positionEdits rests
  obtain ⟨new, applied⟩ := EditSet.applyTo_eq_ok_iff.mpr
    (follow_edits_iff.mpr ⟨fun edit member => Edit.fits_of_rests (rests edit member), apart⟩)
  refine ⟨back, new, applied, ?_⟩
  rw [Document.editedBy?, back]
  exact EditSet.replaceFromLast?_of_applyTo applied

end PomLens
