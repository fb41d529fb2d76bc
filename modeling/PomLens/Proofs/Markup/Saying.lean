/-
This file says what the text of an element is by the characters of the source.

Under the span of a text node there are its data, in brackets if they are a literal section
(`dataOf`). An element says the first of its data that are not blank, without blanks at either end
(`said?`). That is the text that was kept when the tree was built (`Tree.Has.text?_eq`), and it stands
inside the element.
-/

import PomLens.Proofs.Markup.Locating
import PomLens.Proofs.Markup.Seams

namespace PomLens.Markup

open Text (StandsAt)
open Piece (runText? firstText? literalNode)

/-! ### Data of the source -/

/-- The characters under a span, without the brackets of a literal section. -/
def dataOf (source : List Char) (span : Span) : List Char :=
  let written := (span.slice? source).getD []
  ((Text.afterPrefix? "<![CDATA[".toList written).bind (Text.beforeSuffix? "]]>".toList)).getD written

theorem dataOf_eq {source data : List Char} {span : Span} (holds : HoldsData source data span) :
    dataOf source span = data := by
  rcases holds with ⟨covered, noMarkup⟩ | covered
  · have unbracketed : Text.afterPrefix? "<![CDATA[".toList data = none := by
      refine Option.eq_none_iff_forall_ne_some.mpr fun rest starts => noMarkup ?_
      rw [Text.afterPrefix?_eq_some_iff.mp starts]
      exact List.mem_append_left _ (by decide)
    simp only [dataOf, covered, Option.getD_some, unbracketed, Option.bind_none, Option.getD_none]
  · have starts : Text.afterPrefix? "<![CDATA[".toList
        ("<![CDATA[".toList ++ data ++ "]]>".toList) = some (data ++ "]]>".toList) :=
      Text.afterPrefix?_eq_some_iff.mpr (List.append_assoc ..)
    have ends : Text.beforeSuffix? "]]>".toList (data ++ "]]>".toList) = some data :=
      Text.beforeSuffix?_eq_some_iff.mpr rfl
    simp only [dataOf, covered, Option.getD_some, starts, Option.bind_some, ends]

/-- The first of the texts among some nodes that is not blank, without blanks at either end. -/
def saidAmong? (source : List Char) (nodes : List Node) : Option (List Char) :=
  ((nodes.filter Node.isText).map fun node => Text.trim (dataOf source node.range)).find? (· ≠ [])

/-- What an element says. -/
def Node.said? (source : List Char) (node : Node) : Option (List Char) :=
  saidAmong? source node.children

/-- The text that was kept of each text node is that of its data. -/
def Keeps (source : List Char) (node : Node) : Prop :=
  node.isText → node.run?.map TextRun.value = runText? (dataOf source node.range)

theorem firstText?_eq {source : List Char} {nodes : List Node}
    (keep : ∀ node ∈ nodes, Keeps source node) :
    firstText? nodes = (saidAmong? source nodes).map String.ofList := by
  induction nodes with
  | nil => rfl
  | cons node rest inductionHypothesis =>
    obtain ⟨keepsFirst, keepRest⟩ := List.forall_mem_cons.mp keep
    rw [Piece.firstText?_cons, inductionHypothesis keepRest]
    cases node with
    | element tag children => simp [Node.run?, saidAmong?, Node.isText]
    | text run =>
      rw [keepsFirst rfl, runText?, saidAmong?, saidAmong?]
      by_cases nothing : Text.trim (dataOf source (Node.text run).range) = []
      · simp [Node.isText, nothing]
      · simp [Node.isText, nothing]

theorem ReadFrom.keeps {source : List Char} {tokens : List Token} {node : Node}
    (readFrom : ReadFrom source tokens node) (whole : writtenOf tokens = source)
    (legible : ∀ token ∈ tokens, token.Legible) : Keeps source node := by
  intro text
  obtain ⟨data, range, place, holds, stands, made⟩ := readFrom.exists_data whole legible text
  rw [dataOf_eq holds, made, Piece.run?_ofSpan stands]

/-! ### Where texts stand -/

/-- What is kept of data stands among them. -/
theorem encloses_body (source : List Char) {range content : Span}
    (start : range.start ≤ content.start) (stop : content.stop ≤ range.stop) :
    range.encloses (TextRun.ofSpan source range content).body := by
  have ordered := content.ordered
  rw [Span.encloses_iff, TextRun.ofSpan]
  cases covered : content.slice? source with
  | none =>
    simp only [Span.point]
    omega
  | some data =>
    have whole : Text.size data = content.length := Text.size_of_slice? covered
    have front : Text.size (data.takeWhile Text.isBlank) + Text.size (Text.trimStart data) =
        Text.size data := by
      rw [← Text.size_append, Text.trimStart, List.takeWhile_append_dropWhile]
    obtain ⟨tail, split⟩ := Text.dropEndWhile_beginning Text.isBlank (Text.trimStart data)
    have back := congrArg Text.size split
    rw [Text.size_append] at back
    change Text.size (Text.trim data) + _ = _ at back
    simp only [Span.length, Span.between] at whole ⊢
    omega

theorem ReadFrom.encloses_body {source : List Char} {tokens : List Token} {run : TextRun}
    (readFrom : ReadFrom source tokens (.text run)) : run.range.encloses run.body := by
  generalize same : Node.text run = node at readFrom
  cases readFrom with
  | text split =>
    obtain rfl := Node.text.inj same
    rw [TextRun.range_ofSpan]
    exact Markup.encloses_body source (Nat.le_refl _) (Nat.le_refl _)
  | @literal before after content split =>
    obtain rfl := Node.text.inj same
    rw [TextRun.range_ofSpan]
    have bracket : Text.size ('<' :: literalStart) = 1 + literalStart.length := by decide
    have sizes : 1 + literalStart.length ≤ Text.size (Token.literal content).written := by
      rw [← bracket, Token.written, List.append_assoc, Text.size_append]
      exact Nat.le_add_right _ _
    refine Markup.encloses_body source ?_ ?_ <;> simp only [Span.between] <;> omega
  | single => cases same
  | pair => cases same

section

variable {text : String} {tree : Tree} (parsed : Tree.parse text = .ok tree) {node : Node}
  (has : tree.Has node)

include parsed has

/-- The text of a node stands inside the node. -/
theorem Tree.Has.encloses_textSpan : node.range.encloses node.textSpan := by
  have ofRun (run : TextRun) (hasRun : tree.Has (.text run)) : run.range.encloses run.body := by
    obtain ⟨place, inTree, same⟩ := hasRun
    have readFrom := Tree.readFrom_of_parse parsed place inTree
    rw [same] at readFrom
    exact readFrom.encloses_body
  cases node with
  | text run => exact ofRun run has
  | element tag children =>
    have fits := has.fits parsed
    have inside := fits.inner
    have ordered := tag.inner.ordered
    rw [Span.encloses_iff] at inside ⊢
    rw [Node.textSpan]
    cases found : (Node.element tag children).firstRun? with
    | none =>
      simp only [Node.range, Node.inner, Option.map_none, Option.getD_none, Span.point] at inside ⊢
      omega
    | some run =>
      obtain ⟨child, member, isRun⟩ := List.exists_of_findSome?_eq_some found
      obtain rfl := Node.run?_eq_some isRun
      have body := ofRun run (has.child member)
      have bounds := fits.children.bounds _ member
      rw [Span.encloses_iff] at body
      simp only [Node.range, Node.inner, Option.map_some, Option.getD_some] at inside bounds ⊢
      omega

/-- The text that was kept of an element is what it says. -/
theorem Tree.Has.text?_eq (unmarked : withoutMark text.toList = text.toList)
    (element : node.isText = false) :
    node.text? = (node.said? text.toList).map String.ofList := by
  cases node with
  | text run => cases element
  | element tag children =>
    refine firstText?_eq fun child member => ?_
    obtain ⟨place, inTree, same⟩ := has.child member
    have readFrom := Tree.readFrom_of_parse parsed place inTree
    have whole := writtenOf_tokensOf parsed
    rw [unmarked] at whole
    rw [same] at readFrom
    refine readFrom.keeps whole ?_
    rw [tokensOf]
    exact (scan_legible _).1

end

end PomLens.Markup
