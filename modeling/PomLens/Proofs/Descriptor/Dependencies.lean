/-
This file reads the dependencies of a descriptor from pieces.

A descriptor is read from nodes. What it says of the dependencies in a list depends only on the
elements inside, so it can be read of the pieces these were made of (`dependenciesIn_eq`), and
alike lists say the same. A value that is written between two tags is read back as it was, unless
it is empty or has blanks at its ends.
-/

import PomLens.Descriptor
import PomLens.Proofs.Markup.Outline

namespace PomLens

open Text (StandsAt blank)

/-! ### Values between tags -/

/-- A value that is not empty and has no blanks. -/
def IsToken (value : String) : Prop :=
  value ≠ "" ∧ ∀ char ∈ value.toList, Text.isBlank char = false

instance (value : String) : Decidable (IsToken value) :=
  decidable_of_iff (value ≠ "" ∧ value.toList.all (fun char => !Text.isBlank char) = true)
    (by simp [IsToken])

theorem trim_of_token {value : String} (token : IsToken value) :
    Text.trim value.toList = value.toList := by
  have kept {chars : List Char} (none : ∀ char ∈ chars, Text.isBlank char = false) :
      chars.dropWhile Text.isBlank = chars := by
    cases chars with
    | nil => rfl
    | cons first rest => rw [List.dropWhile_cons_of_neg (by simp [none first List.mem_cons_self])]
  have backwards : ∀ char ∈ value.toList.reverse, Text.isBlank char = false :=
    fun char member => token.2 char (List.mem_reverse.mp member)
  rw [Text.trim, Text.trimStart, kept token.2, Text.trimEnd, Text.dropEndWhile, kept backwards,
    List.reverse_reverse]

namespace Markup.Piece

theorem textFrom?_data (run chars : List Char) :
    textFrom? run (data chars) = runText? (run ++ chars) := by
  induction chars generalizing run with
  | nil => simp [data, textFrom?]
  | cons one rest inductionHypothesis =>
    rw [data, List.map_cons, textFrom?, ← data, inductionHypothesis, List.append_assoc,
      List.singleton_append]

/-- A token between two tags is the text of the element. -/
theorem text?_of_token {value : String} (token : IsToken value) (opening closing : List Char) :
    text? (.pair opening (data value.toList) closing) = some value := by
  have notEmpty : value.toList ≠ [] := fun empty =>
    token.1 (String.ext_iff.mpr (by simpa using empty))
  rw [text?, inside, textFrom?_data, List.nil_append, runText?, trim_of_token token,
    if_neg notEmpty, String.ofList_toList]

/-! ### Dependencies -/

/-- The dependency that an element is read as. -/
def dependency (piece : Piece) : DeclaredDependency where
  group := piece.childText? "groupId"
  artifact := piece.childText? "artifactId"
  version := piece.childText? "version"
  scope := piece.childText? "scope"
  packaging := piece.childText? "type"
  classifier := piece.childText? "classifier"

/-- The dependencies among pieces. -/
def dependencies (pieces : List Piece) : List DeclaredDependency :=
  (pieces.filter (isNamed "dependency")).map dependency

/-- The dependencies in a list are those of the pieces inside it. -/
theorem IsNodeAt.dependenciesIn {source : List Char} {offset : Nat} {piece : Piece} {node : Node}
    (isNode : IsNodeAt source offset piece node)
    (stands : StandsAt source offset (written [piece])) :
    Descriptor.dependenciesIn node = dependencies piece.inside := by
  rw [Descriptor.dependenciesIn, dependencies]
  refine isNode.map_elementsNamed stands "dependency" fun isDependency standsDependency => ?_
  simp only [dependency, isDependency.childText? standsDependency]

/-- The texts of all elements of a name inside an element. -/
def childTexts (piece : Piece) (name : String) : List (Option String) :=
  (piece.inside.filter (isNamed name)).map text?

theorem childText?_eq (piece : Piece) (name : String) :
    piece.childText? name = (piece.childTexts name)[0]?.join := by
  rw [childText?, ← List.head?_filter, childTexts, List.getElem?_map, ← List.head?_eq_getElem?]
  cases (piece.inside.filter (isNamed name)).head? <;> rfl

theorem IsNodeAt.childTexts {source : List Char} {offset : Nat} {piece : Piece} {node : Node}
    (isNode : IsNodeAt source offset piece node)
    (stands : StandsAt source offset (written [piece])) (name : String) :
    (node.elementsNamed name).map Node.text? = piece.childTexts name :=
  isNode.map_elementsNamed stands name fun isChild standsChild => isChild.text? standsChild

end Markup.Piece

end PomLens
