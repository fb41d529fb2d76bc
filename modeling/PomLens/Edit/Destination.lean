/-
This file applies sets of edits to where the edited texts are kept: to documents that are
open, or to files.

Either all edits of a set are applied or none. A set is refused if there is no text for it,
or if its edits do not fit the text.
-/

import PomLens.Edit
import PomLens.FileTree

namespace PomLens

/-! ### Open documents -/

/-- The texts of open documents. Paths with the same steps are one. -/
structure OpenTexts where
  texts : List (Path × String)
  deriving DecidableEq, Repr

namespace OpenTexts

/-- Nothing is open. -/
def empty : OpenTexts :=
  ⟨[]⟩

/-- The text of an open document. -/
def text? (documents : OpenTexts) (path : Path) : Option String :=
  (documents.texts.find? fun (other, _) => other.same path).map Prod.snd

/-- Opens a document, or replaces the text of one that is open. -/
def insert (documents : OpenTexts) (path : Path) (text : String) : OpenTexts :=
  ⟨(path, text) :: documents.texts.filter fun (other, _) => !other.same path⟩

/-- The documents behind the edits. -/
def edit? (documents : OpenTexts) (edits : EditSet) : Option OpenTexts := do
  let text ← documents.text? edits.path
  let edited ← (edits.applyTo text).toOption
  some (documents.insert edits.path edited)

end OpenTexts

/-! ### Files -/

/-- The files behind the edits. -/
def FileTree.applyEdits? (files : FileTree) (edits : EditSet) : Option FileTree := do
  let text ← (files.read edits.path).toOption
  let edited ← (edits.applyTo text).toOption
  (files.overwrite edits.path edited).toOption

end PomLens
