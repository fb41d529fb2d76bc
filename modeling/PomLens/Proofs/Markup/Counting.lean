/-
This file counts the elements of a name.

How many elements of a name a tree has can be told from its outline (`length_filter_places`), so
an edit of the tree that puts in elements of other names leaves the number as it is.
-/

import PomLens.Proofs.Markup.Numbering
import PomLens.Proofs.Markup.Outline

namespace PomLens.Markup

/-- The number of elements of this name, at any depth. -/
def namedIn (name : String) : List Outline → Nat
  | [] => 0
  | .char _ :: rest => namedIn name rest
  | .element own content :: rest =>
    (if own = name then 1 else 0) + namedIn name content + namedIn name rest

@[simp] theorem namedIn_append (name : String) (first second : List Outline) :
    namedIn name (first ++ second) = namedIn name first + namedIn name second := by
  induction first with
  | nil => simp [namedIn]
  | cons head rest inductionHypothesis =>
    cases head with
    | char one => rw [List.cons_append, namedIn, namedIn, inductionHypothesis]
    | element own content =>
      rw [List.cons_append, namedIn, namedIn, inductionHypothesis]
      omega

@[simp] theorem namedIn_ofData (name : String) (chars : List Char) :
    namedIn name (Outline.ofData chars) = 0 := by
  rw [Outline.ofData]
  induction Text.letters chars with
  | nil => rw [List.map_nil, namedIn]
  | cons one rest inductionHypothesis => rw [List.map_cons, namedIn, inductionHypothesis]

theorem namedIn_outlineOf_singleton (name : String) (node : Node) :
    namedIn name (outlineOf [node]) =
      (if node.name? = some name then 1 else 0) + namedIn name (outlineOf node.children) := by
  cases node with
  | text run => simp [outlineOf, Node.outline, Node.name?, Node.children, namedIn]
  | element tag children => simp [outlineOf_element, namedIn, Node.name?, Node.children]

/-- The number of elements of a name is read off the outline. -/
theorem length_filter_placesOf (name : String) (around : List (Nat × Node)) (index : Nat)
    (nodes : List Node) :
    ((placesOf around index nodes).filter fun place => place.node.name? == some name).length =
      namedIn name (outlineOf nodes) := by
  induction nodes using Node.forestInduction generalizing around index with
  | nil => simp [namedIn]
  | cons node rest insideHypothesis restHypothesis =>
    rw [outlineOf_cons, namedIn_append, namedIn_outlineOf_singleton, placesOf_cons,
      List.filter_cons, List.filter_append]
    by_cases named : node.name? = some name
    · rw [if_pos named, if_pos (beq_iff_eq.mpr named), List.length_cons, List.length_append,
        insideHypothesis, restHypothesis]
      omega
    · rw [if_neg named, if_neg (by simpa using named), List.length_append, insideHypothesis,
        restHypothesis]
      omega

theorem Tree.length_filter_places (name : String) (tree : Tree) :
    (tree.places.filter fun place => place.node.name? == some name).length =
      namedIn name tree.root.outline := by
  rw [tree.places_eq, length_filter_placesOf]
  simp [outlineOf]

/-- The number of elements stays if that among each of the new nodes does. -/
theorem namedIn_replaceFirst {name : String} {pick : Node → Bool} {change : Node → Node}
    (same : ∀ node, namedIn name (outlineOf [change node]) = namedIn name (outlineOf [node]))
    (nodes : List Node) :
    namedIn name (outlineOf (replaceFirst pick (fun node => [change node]) nodes)) =
      namedIn name (outlineOf nodes) := by
  induction nodes with
  | nil => rfl
  | cons head rest inductionHypothesis =>
    rw [replaceFirst]
    split
    · rw [outlineOf_append, outlineOf_cons head rest, namedIn_append, namedIn_append, same]
    · rw [outlineOf_cons head, outlineOf_cons head rest, namedIn_append, namedIn_append,
        inductionHypothesis]

end PomLens.Markup
