/-
This file proves what writing and removing an element does to the pieces of a document.

A snippet that is written is an element again, with its lines as blanks around it
(`Snippet.render_eq`). Each of the primitive changes is an amendment of the text of one element,
and the pieces inside the new element are those of the old one with the snippet at the front or
at the end, or without the removed element. What is added to or taken from the surroundings is
blank.
-/

import PomLens.Proofs.Descriptor.Dependencies
import PomLens.Proofs.Edit.Amendment
import PomLens.Proofs.Markup.Enclosed
import PomLens.Proofs.Text.Cutting
import PomLens.Remedy.Snippet

namespace PomLens.Remedy

open Markup Markup.Piece
open Text (StandsAt blank)

/-! ### Layout -/

/-- Lines are indented by spaces and tabs and end as lines do. -/
structure Style.Regular (style : Style) : Prop where
  indent : ∀ char ∈ style.indent.toList, char = ' ' ∨ char = '\t'
  eol : style.eol = "\n" ∨ style.eol = "\r\n"

instance (style : Style) : Decidable style.Regular :=
  decidable_of_iff
    (style.indent.toList.all (fun char => char == ' ' || char == '\t') = true ∧
      (style.eol = "\n" ∨ style.eol = "\r\n"))
    ⟨fun ⟨indent, eol⟩ => ⟨by simpa using indent, eol⟩,
      fun regular => ⟨by simpa using regular.indent, regular.eol⟩⟩

theorem Style.regular_standard : Style.standard.Regular := by
  decide +kernel

/-- What stands before the first character of a line at a level. -/
def lineStart (base : String) (style : Style) (level : Nat) : List Char :=
  style.eol.toList ++ base.toList ++ (List.replicate level style.indent).flatMap String.toList

theorem toList_renderLine (base : String) (style : Style) (line : Nat × String) :
    (renderLine base style line).toList = lineStart base style line.1 ++ line.2.toList := by
  simp [renderLine, lineStart]

theorem Style.Regular.blank_indent {style : Style} (regular : style.Regular) :
    blank style.indent.toList = true := by
  refine List.all_eq_true.mpr fun char member => ?_
  rcases regular.indent char member with rfl | rfl <;> decide

theorem Style.Regular.blank_eol {style : Style} (regular : style.Regular) :
    blank style.eol.toList = true := by
  rcases regular.eol with same | same <;> rw [same] <;> decide

theorem blank_append {first second : List Char} :
    blank (first ++ second) = true ↔ blank first = true ∧ blank second = true := by
  simp [blank]

/-- Only blanks stand at the start of a line. -/
theorem blank_lineStart {base : String} {style : Style} (regular : style.Regular)
    (blankBase : blank base.toList = true) (level : Nat) :
    blank (lineStart base style level) = true := by
  refine blank_append.mpr ⟨blank_append.mpr ⟨regular.blank_eol, blankBase⟩, ?_⟩
  refine List.all_eq_true.mpr fun char member => ?_
  obtain ⟨indent, repeated, inside⟩ := List.mem_flatMap.mp member
  rw [List.eq_of_mem_replicate repeated] at inside
  exact List.all_eq_true.mp regular.blank_indent char inside

/-! ### Snippets as elements -/

mutual

/-- The element that a snippet is written as, when its first line is at a level. -/
def Snippet.piece (base : String) (style : Style) (level : Nat) : Snippet → Piece
  | .leaf name value => .pair name.toList (data value.toList) name.toList
  | .branch name children =>
    .pair name.toList
      (piecesOf base style (level + 1) children ++ data (lineStart base style level)) name.toList

/-- Snippets on lines of their own. -/
def piecesOf (base : String) (style : Style) (level : Nat) : List Snippet → List Piece
  | [] => []
  | snippet :: rest =>
    data (lineStart base style level) ++
      snippet.piece base style level :: piecesOf base style level rest

end

mutual

/-- The names of a snippet are letters, and no value begins markup. -/
def Snippet.Legible : Snippet → Prop
  | .leaf name value => plainName name.toList ∧ '<' ∉ value.toList
  | .branch name children => plainName name.toList ∧ LegibleAll children

/-- The same for several snippets. -/
def LegibleAll : List Snippet → Prop
  | [] => True
  | snippet :: rest => snippet.Legible ∧ LegibleAll rest

end

mutual

/-- The node of a snippet, without a place. -/
def Snippet.node : Snippet → Node
  | .leaf name value =>
    .element ⟨name, false, .point 0, .point 0⟩ [.text ⟨.point 0, .point 0, value⟩]
  | .branch name children => .element ⟨name, false, .point 0, .point 0⟩ (nodesOf children)

/-- The nodes of several snippets. -/
def nodesOf : List Snippet → List Node
  | [] => []
  | snippet :: rest => snippet.node :: nodesOf rest

end

theorem toList_openingTag (name : String) :
    (openingTag name).toList = (Token.opening name.toList).written := by
  simp [openingTag, Token.written]

theorem toList_closingTag (name : String) :
    (closingTag name).toList = (Token.closing name.toList).written := by
  simp [closingTag, Token.written]

mutual

/-- The lines of a snippet are the text of its element. -/
theorem Snippet.toList_lines (base : String) (style : Style) (level : Nat) (snippet : Snippet) :
    ((snippet.lines level).map (renderLine base style)).flatMap String.toList =
      lineStart base style level ++ written [snippet.piece base style level] := by
  cases snippet with
  | leaf name value =>
    simp [Snippet.lines, Snippet.piece, toList_renderLine, toList_openingTag, toList_closingTag,
      written]
  | branch name children =>
    have inside := toList_linesOf base style (level + 1) children
    simp only [Snippet.lines, Snippet.piece, List.map_append, List.map_cons, List.map_nil,
      List.flatMap_append, List.flatMap_cons, List.flatMap_nil, toList_renderLine,
      toList_openingTag, toList_closingTag, List.append_nil, inside, written, written_append,
      written_data, List.append_assoc]

theorem toList_linesOf (base : String) (style : Style) (level : Nat) (snippets : List Snippet) :
    ((linesOf level snippets).map (renderLine base style)).flatMap String.toList =
      written (piecesOf base style level snippets) := by
  cases snippets with
  | nil => simp [linesOf, piecesOf]
  | cons snippet rest =>
    have first := snippet.toList_lines base style level
    have others := toList_linesOf base style level rest
    rw [linesOf, piecesOf, List.map_append, List.flatMap_append, first, others, written_append,
      written_data, written_cons (snippet.piece base style level) (piecesOf base style level rest),
      List.append_assoc]

end

/-- A snippet is rendered as its element on a line of its own. -/
theorem Snippet.toList_render (snippet : Snippet) (base : String) (style : Style) :
    (snippet.render base style).toList = written (piecesOf base style 1 [snippet]) := by
  rw [Snippet.render, String.toList_join, snippet.toList_lines]
  simp [piecesOf]

theorem tagName_toList {name : String} (plain : plainName name.toList) :
    tagName name.toList = name := by
  rw [tagName_plainName plain, String.ofList_toList]

theorem closingName_toList {name : String} (plain : plainName name.toList) :
    closingName name.toList = name := by
  rw [closingName_plainName plain, String.ofList_toList]

theorem Snippet.name?_branch {name : String} (plain : plainName name.toList)
    (children : List Snippet) (base : String) (style : Style) (level : Nat) :
    ((Snippet.branch name children).piece base style level).name? = some name :=
  congrArg some (tagName_toList plain)

/-- An element with a plain name is sound if what is inside is. -/
theorem sound_plain {name : String} (plain : plainName name.toList) {inside : List Piece}
    (sound : Sound inside) : Sound [.pair name.toList inside name.toList] :=
  sound_pair.mpr ⟨delimited_opening plain, delimited_closing plain,
    (tagName_toList plain).trans (closingName_toList plain).symm, sound⟩

theorem sound_of_blank {chars : List Char} (blanks : blank chars = true) : Sound (data chars) :=
  sound_data.mpr (not_mem_of_blank blanks (by decide))

section

variable {base : String} {style : Style} (regular : style.Regular)
  (blankBase : blank base.toList = true)

include regular blankBase

mutual

/-- A legible snippet is a sound element. -/
theorem Snippet.sound_piece (level : Nat) (snippet : Snippet) (legible : snippet.Legible) :
    Sound [snippet.piece base style level] := by
  cases snippet with
  | leaf name value =>
    rw [Snippet.Legible] at legible
    rw [Snippet.piece]
    exact sound_plain legible.1 (sound_data.mpr legible.2)
  | branch name children =>
    rw [Snippet.Legible] at legible
    rw [Snippet.piece]
    have inside := sound_piecesOf (level + 1) children legible.2
    have last := sound_of_blank (blank_lineStart regular blankBase level)
    exact sound_plain legible.1 (sound_append.mpr ⟨inside, last⟩)

theorem sound_piecesOf (level : Nat) (snippets : List Snippet) (legible : LegibleAll snippets) :
    Sound (piecesOf base style level snippets) := by
  cases snippets with
  | nil => simp [piecesOf]
  | cons snippet rest =>
    rw [LegibleAll] at legible
    have start := sound_of_blank (blank_lineStart regular blankBase level)
    have first := snippet.sound_piece level legible.1
    have others := sound_piecesOf level rest legible.2
    rw [piecesOf, sound_append, sound_cons]
    exact ⟨start, first, others⟩

end

/-- The elements of snippets on lines of their own are those of the snippets. -/
theorem alike_piecesOf (level : Nat) (snippets : List Snippet) :
    Alike (piecesOf base style level snippets)
      (snippets.map fun snippet => snippet.piece base style level) := by
  induction snippets with
  | nil => exact Alike.refl []
  | cons snippet rest inductionHypothesis =>
    have start := Alike.of_blank (blank_lineStart regular blankBase level)
    have first := Alike.refl [snippet.piece base style level]
    simpa [piecesOf] using start.append (first.append inductionHypothesis)

theorem Snippet.alike_inside (name : String) (children : List Snippet) (level : Nat) :
    Alike ((Snippet.branch name children).piece base style level).inside
      (children.map fun child => child.piece base style (level + 1)) := by
  have stop := Alike.of_blank (blank_lineStart regular blankBase level)
  simpa [Snippet.piece, Piece.inside] using
    (alike_piecesOf regular blankBase (level + 1) children).append stop

/-- The values that are written in an element are read back by their names. -/
theorem Snippet.childText?_branch {values : List (String × String)}
    (plain : ∀ entry ∈ values, plainName entry.1.toList)
    (tokens : ∀ entry ∈ values, IsToken entry.2) (name : String) (level : Nat) (child : String) :
    ((Snippet.branch name (values.map fun entry => .leaf entry.1 entry.2)).piece base style
        level).childText? child =
      (values.find? fun entry => entry.1 == child).map Prod.snd := by
  rw [Piece.childText?, (Snippet.alike_inside regular blankBase name _ level).find?, List.map_map,
    List.find?_map]
  have same : ∀ entry ∈ values, (isNamed child ∘ (fun snippet : Snippet =>
      snippet.piece base style (level + 1)) ∘ fun entry => .leaf entry.1 entry.2) entry =
        (entry.1 == child) := by
    intro entry member
    simp [Snippet.piece, isNamed, Piece.name?, tagName_toList (plain entry member)]
  rw [← List.head?_filter, List.filter_congr same, List.head?_filter]
  cases found : values.find? fun entry => entry.1 == child with
  | none => rfl
  | some entry =>
    exact text?_of_token (tokens entry (List.mem_of_find?_eq_some found)) _ _

theorem outline_lineStart (level : Nat) : outline (data (lineStart base style level)) = [] := by
  rw [(Alike.of_blank (blank_lineStart regular blankBase level)).outline, outline_nil]

mutual

/-- The element of a snippet has the outline of its node. -/
theorem Snippet.outline_piece (level : Nat) (snippet : Snippet) (legible : snippet.Legible) :
    outline [snippet.piece base style level] = outlineOf [snippet.node] := by
  cases snippet with
  | leaf name value =>
    rw [Snippet.Legible] at legible
    rw [Snippet.piece, Snippet.node, outlineOf_element, outline, outline_data, outline_nil,
      tagName_toList legible.1, outlineOf, outlineOf_nil, Node.outline, List.append_nil]
  | branch name children =>
    rw [Snippet.Legible] at legible
    have inside := outline_piecesOf (level + 1) children legible.2
    have last := outline_lineStart regular blankBase level
    rw [Snippet.piece, Snippet.node, outlineOf_element, outline, outline_append, inside, last,
      outline_nil, tagName_toList legible.1, List.append_nil]

theorem outline_piecesOf (level : Nat) (snippets : List Snippet) (legible : LegibleAll snippets) :
    outline (piecesOf base style level snippets) = outlineOf (nodesOf snippets) := by
  cases snippets with
  | nil => simp [piecesOf, nodesOf]
  | cons snippet rest =>
    rw [LegibleAll] at legible
    have start := outline_lineStart regular blankBase level
    have first := snippet.outline_piece level legible.1
    have others := outline_piecesOf level rest legible.2
    rw [piecesOf, nodesOf, outline_append, start, outline_cons, first, others,
      outlineOf_cons snippet.node (nodesOf rest), List.nil_append]

end

end

/-! ### Where an element stands -/

/-- The spans of an element's node. -/
theorem range_of_isNodeAt {source : List Char} {offset : Nat} {piece : Piece} {node : Node}
    (isNode : IsNodeAt source offset piece node) :
    node.range = .between offset (offset + Text.size (written [piece])) := by
  obtain ⟨element, shown⟩ := isNode
  cases piece with
  | single body =>
    simp only [nodes, dataNodes_self, List.nil_append, List.cons.injEq, and_true] at shown
    subst shown
    simp [Node.range, singleTag, written]
  | pair opening inside closing =>
    simp only [nodes, dataNodes_self, List.nil_append, List.cons.injEq, and_true] at shown
    subst shown
    simp [Node.range, pairTag, innerStart, written, Nat.add_assoc]
  | _ => simp [isElement] at element

/-- A line is indented by spaces and tabs. -/
theorem mem_baseIndent? {document : Document} {node : Node} {base : String}
    (found : baseIndent? document node = some base) {char : Char} (member : char ∈ base.toList) :
    char = ' ' ∨ char = '\t' := by
  obtain ⟨indent, isIndent, rfl⟩ := Option.map_eq_some_iff.mp found
  obtain ⟨⟨before, after⟩, -, same⟩ := Option.bind_eq_some_iff.mp isIndent
  obtain rfl := Option.some.inj same
  rw [String.toList_ofList] at member
  simpa using List.mem_takeWhile_imp member

/-- The indentation of a line is blank. -/
theorem blank_baseIndent? {document : Document} {node : Node} {base : String}
    (found : baseIndent? document node = some base) : blank base.toList = true := by
  refine List.all_eq_true.mpr fun char member => ?_
  rcases mem_baseIndent? found member with rfl | rfl <;> decide

/-- The indentation of an element's line is blank, and there always is one. -/
theorem baseIndent?_eq {document : Document} {offset : Nat} {piece : Piece} {node : Node}
    (isNode : IsNodeAt document.chars offset piece node)
    (stands : StandsAt document.chars offset (written [piece])) :
    ∃ base : String, baseIndent? document node = some base ∧ blank base.toList = true := by
  obtain ⟨before, after, whole, bytes⟩ := stands
  have start : node.range.start = offset := by rw [range_of_isNodeAt isNode, Span.between]
  have inside : min offset (Text.size document.chars) = offset := by
    rw [whole, ← bytes]
    simp
  have cut := Text.cut?_eq_some_iff.mpr ⟨whole, bytes⟩
  have found : ∃ base, baseIndent? document node = some base :=
    ⟨_, by rw [baseIndent?, Document.lineIndent?, start, inside, cut]; rfl⟩
  obtain ⟨base, isBase⟩ := found
  exact ⟨base, isBase, blank_baseIndent? isBase⟩

/-! ### Removing an element -/

/-- What stands before the last line ends with a line feed, if it is not empty. -/
theorem lastLine_eq (text : List Char) :
    ∃ front, text = front ++ Document.lastLine text ∧ front.getLast? ≠ some '\r' := by
  refine ⟨(text.reverse.dropWhile (· != '\n')).reverse, ?_, fun isReturn => ?_⟩
  · rw [Document.lastLine, ← List.reverse_append, List.takeWhile_append_dropWhile,
      List.reverse_reverse]
  · rw [List.getLast?_reverse] at isReturn
    have stopped := List.head?_dropWhile_not (fun char => char != '\n') text.reverse
    rw [isReturn] at stopped
    cases stopped

theorem splitLine?_eq {text line rest : List Char} (split : splitLine? text = some (line, rest)) :
    text = line ++ rest := by
  induction text generalizing line with
  | nil => simp [splitLine?] at split
  | cons char more inductionHypothesis =>
    rw [splitLine?] at split
    split at split
    · cases split
      rfl
    · obtain ⟨⟨first, others⟩, inner, same⟩ := Option.map_eq_some_iff.mp split
      cases same
      rw [inductionHypothesis inner, List.cons_append]

/-- A single edit that takes some of a text away. -/
theorem amends_delete {inner : Nat} (kept removed others : List Char) {start stop : Nat}
    (starts : start = inner + Text.size kept) (stops : stop = start + Text.size removed) :
    Amends inner (kept ++ (removed ++ others)) [.delete (.between start stop)]
      (kept ++ others) := by
  subst starts stops
  have amends := @Amends.edit inner kept removed
    (.delete (.between (inner + Text.size kept) (inner + Text.size kept + Text.size removed)))
    others others [] rfl (by simp [Edit.delete, Span.between]) (.keep _ _)
  simpa [Edit.delete] using amends

/-- An edit that takes an element away, and the characters around it. -/
theorem amends_delete_around {source : List Char} {inner : Nat} (kept others : List Piece)
    (lead tail : List Char) {piece : Piece} {node : Node}
    (isNode : IsNodeAt source (inner + Text.size (written (kept ++ data lead))) piece node) :
    Amends inner (written (kept ++ data lead ++ piece :: (data tail ++ others)))
      [.delete (.between (node.range.start - Text.size lead) (node.range.stop + Text.size tail))]
      (written (kept ++ others)) := by
  have range := range_of_isNodeAt isNode
  have split : written (kept ++ data lead ++ piece :: (data tail ++ others)) =
      written kept ++ ((lead ++ (written [piece] ++ tail)) ++ written others) := by
    rw [written_append, written_cons piece]
    simp
  rw [split, written_append]
  refine amends_delete _ _ _ ?_ ?_
  · simp only [range, Span.between, written_append, written_data, Text.size_append]
    omega
  · simp only [range, Span.between, written_append, written_data, Text.size_append]
    omega

/-- An element takes up some of the text. -/
theorem size_written_pos {piece : Piece} (element : piece.isElement = true)
    (sound : Sound [piece]) : 0 < Text.size (written [piece]) := by
  obtain ⟨content, brackets⟩ := written_of_isMarkup (isMarkup_of_isElement element) sound
  have := ('<' : Char).utf8Size_pos
  rw [brackets, List.cons_append, Text.size_cons]
  omega

section

variable {document : Document} {inner : Nat} {first rest : List Piece} {piece : Piece}
  {outer behind : List Char}
  (source : document.chars = outer ++ '>' :: (written (first ++ piece :: rest) ++ '<' :: behind))
  (bytes : Text.size outer + 1 = inner)

include source bytes

/-- What stands before an element of the content and behind it. -/
theorem cuts_around {node : Node}
    (isNode : IsNodeAt document.chars (inner + Text.size (written first)) piece node) :
    Text.cut? node.range.start document.chars =
        some (outer ++ '>' :: written first, written [piece] ++ (written rest ++ '<' :: behind)) ∧
      Text.cut? node.range.stop document.chars =
        some (outer ++ '>' :: written first ++ written [piece], written rest ++ '<' :: behind) := by
  have range := range_of_isNodeAt isNode
  have bracket : ('>' : Char).utf8Size = 1 := by decide
  have whole : written (first ++ piece :: rest) =
      written first ++ (written [piece] ++ written rest) := by
    rw [written_append, written_cons piece rest]
  constructor
  · refine Text.cut?_eq_some_iff.mpr ⟨by simp [source, whole], ?_⟩
    simp only [range, Span.between, Text.size_append, Text.size_cons, bracket]
    omega
  · refine Text.cut?_eq_some_iff.mpr ⟨by simp [source, whole], ?_⟩
    simp only [range, Span.between, Text.size_append, Text.size_cons, bracket]
    omega

/-- Blanks around an element are among the data of the content. -/
theorem blanks_around (sound : Sound (first ++ piece :: rest)) {before lead tail after : List Char}
    (lineBefore : outer ++ '>' :: written first = before ++ lead)
    (lineBehind : written rest ++ '<' :: behind = tail ++ after)
    (blankLead : blank lead = true) (blankTail : blank tail = true) :
    ∃ kept others, first = kept ++ data lead ∧ rest = data tail ++ others := by
  rw [sound_append, sound_cons] at sound
  obtain ⟨soundFirst, -, soundRest⟩ := sound
  have bracket : ('>' : Char).utf8Size = 1 := by decide
  have whole : written (first ++ piece :: rest) =
      written first ++ (written [piece] ++ written rest) := by
    rw [written_append, written_cons piece rest]
  have enclosed : Enclosed document.chars inner (first ++ piece :: rest) :=
    ⟨outer, behind, source, bytes⟩
  have enclosed' : Enclosed document.chars inner ((first ++ [piece]) ++ rest) := by
    simpa using enclosed
  have cutBefore : document.chars =
      before ++ (lead ++ (written [piece] ++ (written rest ++ '<' :: behind))) := by
    rw [← List.append_assoc, ← lineBefore]
    simp [source, whole]
  have sizeBefore : Text.size (before ++ lead) = inner + Text.size (written first) := by
    rw [← lineBefore, Text.size_append, Text.size_cons, bracket]
    omega
  obtain ⟨kept, leads⟩ := blanks_before enclosed soundFirst cutBefore sizeBefore blankLead
  have cutBehind : document.chars =
      (outer ++ '>' :: written (first ++ [piece])) ++ (tail ++ after) := by
    rw [← lineBehind]
    simp [source, whole]
  have sizeBehind : Text.size (outer ++ '>' :: written (first ++ [piece])) =
      inner + Text.size (written (first ++ [piece])) := by
    rw [Text.size_append, Text.size_cons, bracket]
    omega
  obtain ⟨others, tails⟩ := blanks_behind enclosed' soundRest cutBehind sizeBehind blankTail
  exact ⟨kept, others, leads, tails⟩

end

/-- An element that is removed takes at most blanks with it, which stand around it. -/
theorem delete?_eq {document : Document} {inner : Nat} {first rest : List Piece} {piece : Piece}
    {node : Node} (enclosed : Enclosed document.chars inner (first ++ piece :: rest))
    (sound : Sound (first ++ piece :: rest))
    (isNode : IsNodeAt document.chars (inner + Text.size (written first)) piece node) :
    ∃ edit kept lead tail others, delete? document node = some edit ∧
      edit.span.isEmpty = false ∧ first = kept ++ data lead ∧ rest = data tail ++ others ∧
      blank lead = true ∧ blank tail = true ∧
      Amends inner (written (first ++ piece :: rest)) [edit] (written (kept ++ others)) := by
  obtain ⟨outer, behind, source, bytes⟩ := enclosed
  obtain ⟨startCut, stopCut⟩ := cuts_around source bytes isNode
  -- The blanks of its line go with the element if nothing else stands there, and none otherwise.
  obtain ⟨kept, lead, tail, others, leads, tails, blankLead, blankTail, deleted⟩ :
      ∃ kept lead tail others, first = kept ++ data lead ∧ rest = data tail ++ others ∧
        blank lead = true ∧ blank tail = true ∧
        delete? document node = some (.delete
          (.between (node.range.start - Text.size lead) (node.range.stop + Text.size tail))) := by
    have alone : Edit.delete node.range = .delete
        (.between (node.range.start - Text.size []) (node.range.stop + Text.size [])) := by
      simp [Span.between, Nat.max_eq_right node.range.ordered]
    simp only [delete?, startCut, stopCut, Option.bind_eq_bind, Option.bind_some]
    split
    · next tail remaining ends =>
      split
      · next blanks =>
        rw [Bool.and_eq_true] at blanks
        obtain ⟨before, lineBefore, -⟩ := lastLine_eq (outer ++ '>' :: written first)
        obtain ⟨kept, others, leads, tails⟩ := blanks_around source bytes sound lineBefore
          (splitLine?_eq ends) blanks.1 blanks.2
        exact ⟨kept, _, tail, others, leads, tails, blanks.1, blanks.2, rfl⟩
      · exact ⟨first, [], [], rest, by simp, by simp, rfl, rfl, congrArg some alone⟩
    · exact ⟨first, [], [], rest, by simp, by simp, rfl, rfl, congrArg some alone⟩
  subst leads tails
  have visible : 0 < Text.size (written [piece]) :=
    size_written_pos isNode.1 (sound_cons.mp (sound_append.mp sound).2).1
  refine ⟨_, kept, lead, tail, others, deleted, ?_, rfl, rfl, blankLead, blankTail,
    amends_delete_around kept others lead tail isNode⟩
  simp only [Edit.delete, range_of_isNodeAt isNode, Span.isEmpty, Span.between,
    beq_eq_false_iff_ne]
  omega

/-! ### Reworked elements -/

/-- The edits make one element of another of the same name. What is inside the new one is alike
to `content`. -/
structure Reworks (offset : Nat) (piece : Piece) (edits : List Edit) (piece' : Piece)
    (content : List Piece) : Prop where
  amends : Amends offset (written [piece]) edits (written [piece'])
  sound : Sound [piece']
  element : piece'.isElement = true
  name : piece'.name? = piece.name?
  content : Alike piece'.inside content

/-- An amendment of what is inside an element. -/
theorem reworks_inside {offset : Nat} {opening closing : List Char} {inside inside' : List Piece}
    {edits : List Edit} (sound : Sound [.pair opening inside closing]) (sound' : Sound inside')
    (amends : Amends (innerStart offset opening) (written inside) edits (written inside'))
    {content : List Piece} (alike : Alike inside' content) :
    Reworks offset (.pair opening inside closing) edits (.pair opening inside' closing) content := by
  obtain ⟨opens, closes, sameName, -⟩ := sound_pair.mp sound
  refine ⟨?_, sound_pair.mpr ⟨opens, closes, sameName, sound'⟩, rfl, rfl, alike⟩
  have closed := amends.append (.keep _ (Token.closing closing).written)
  have whole := closed.behind
  simpa [written] using whole

theorem amends_insert (inner : Nat) (text : String) :
    Amends inner [] [.insert inner text] text.toList :=
  Amends.replace [] rfl rfl

section

variable {document : Document} {style : Style}

/-- A self-closing element that is expanded holds the snippet and nothing else. -/
theorem expand?_eq {offset : Nat} {body : List Char} {node : Node}
    (isNode : IsNodeAt document.chars offset (.single body) node)
    (stands : StandsAt document.chars offset (written [.single body])) {name : String}
    (named : tagName body = name) (snippet : Snippet) :
    ∃ base edit, blank base.toList = true ∧ expand? document node snippet style = some edit ∧
      edit.span.isEmpty = false ∧
      Amends offset (written [.single body]) [edit]
        (written [.pair name.toList
          (piecesOf base style 1 [snippet] ++ data (style.eol.toList ++ base.toList))
          name.toList]) := by
  obtain ⟨base, indented, blankBase⟩ := baseIndent?_eq isNode stands
  have range := range_of_isNodeAt isNode
  have sameName : node.name?.getD "" = name := by
    rw [isNode.name?]
    simpa [Piece.name?] using named
  have visible : 0 < Text.size (written [.single body]) := by
    have := ('<' : Char).utf8Size_pos
    simp [written, Token.written]
    omega
  refine ⟨base, ⟨node.range, openingTag name ++ snippet.render base style ++ style.eol ++ base ++
    closingTag name⟩, blankBase, ?_, ?_, ?_⟩
  · simp [expand?, indented, sameName]
  · simp only [range, Span.isEmpty, Span.between, beq_eq_false_iff_ne]
    omega
  · have whole := @Amends.replace offset (written [.single body])
      ⟨node.range, openingTag name ++ snippet.render base style ++ style.eol ++ base ++
        closingTag name⟩ (by rw [range]; rfl) (by simp [range, Span.between])
    simpa [written, toList_openingTag, toList_closingTag, Snippet.toList_render] using whole

theorem pair_of_isNodeAt {offset : Nat} {opening closing : List Char} {inside : List Piece}
    {node : Node} (isNode : IsNodeAt document.chars offset (.pair opening inside closing) node) :
    node.isSelfClosing = false ∧ node.inner.start = innerStart offset opening ∧
      node.inner.stop = innerStart offset opening + Text.size (written inside) := by
  obtain ⟨-, shown⟩ := isNode
  simp only [nodes, dataNodes_self, List.nil_append, List.cons.injEq, and_true] at shown
  subst shown
  exact ⟨rfl, rfl, by simp [Node.inner, pairTag, Span.between]⟩

theorem single_of_isNodeAt {offset : Nat} {body : List Char} {node : Node}
    (isNode : IsNodeAt document.chars offset (.single body) node) : node.isSelfClosing = true := by
  obtain ⟨-, shown⟩ := isNode
  simp only [nodes, dataNodes_self, List.nil_append, List.cons.injEq, and_true] at shown
  subst shown
  rfl

theorem insertFirst?_pair {offset : Nat} {opening closing : List Char} {inside : List Piece}
    {node : Node} (isNode : IsNodeAt document.chars offset (.pair opening inside closing) node)
    (stands : StandsAt document.chars offset (written [.pair opening inside closing]))
    (snippet : Snippet) :
    ∃ base : String, blank base.toList = true ∧ insertFirst? document node snippet style =
      some (.insert (innerStart offset opening) (snippet.render base style)) := by
  obtain ⟨base, indented, blankBase⟩ := baseIndent?_eq isNode stands
  obtain ⟨open_, start, -⟩ := pair_of_isNodeAt isNode
  exact ⟨base, blankBase, by simp [insertFirst?, indented, open_, start]⟩

/-- The blanks at the end of an element give way to what is written last. -/
theorem insertLast?_pair {offset : Nat} {opening closing : List Char} {inside : List Piece}
    {node : Node} (isNode : IsNodeAt document.chars offset (.pair opening inside closing) node)
    (stands : StandsAt document.chars offset (written [.pair opening inside closing]))
    (sound : Sound inside) (snippet : Snippet) (style : Style) :
    ∃ base kept tail, blank base.toList = true ∧ inside = kept ++ data tail ∧ blank tail = true ∧
      insertLast? document node snippet style =
        some ⟨.between (innerStart offset opening + Text.size (written kept))
            (innerStart offset opening + Text.size (written inside)),
          snippet.render base style ++ style.eol ++ base⟩ := by
  obtain ⟨base, indented, blankBase⟩ := baseIndent?_eq isNode stands
  obtain ⟨open_, start, stop⟩ := pair_of_isNodeAt isNode
  obtain ⟨tail, whole, blankTail⟩ :=
    Text.exists_eq_dropEndWhile_append Text.isBlank (written inside)
  obtain ⟨kept, split, same⟩ := data_of_blank_end sound whole blankTail
  have content : node.inner.slice? document.chars = some (written inside) := by
    have inner : node.inner = .between (innerStart offset opening)
        (innerStart offset opening + Text.size (written inside)) :=
      Span.ext start (by rw [stop]; simp [Span.between])
    rw [inner]
    exact (enclosed_of_pair stands).standsAt.slice?
  refine ⟨base, kept, tail, blankBase, split, blankTail, ?_⟩
  simp [insertLast?, Text.trimEnd, indented, open_, start, stop, content, same]

section

variable (regular : style.Regular)

include regular

/-- A snippet becomes the first element inside, before whatever an amendment makes of what is
there. -/
theorem insertFirst?_before {offset : Nat} {opening closing : List Char}
    {inside inside' : List Piece} {node : Node}
    (isNode : IsNodeAt document.chars offset (.pair opening inside closing) node)
    (stands : StandsAt document.chars offset (written [.pair opening inside closing]))
    (sound : Sound [.pair opening inside closing]) (sound' : Sound inside') {older : List Edit}
    (amends : Amends (innerStart offset opening) (written inside) older (written inside'))
    {snippet : Snippet} (legible : snippet.Legible) :
    ∃ base edit piece', blank base.toList = true ∧
      insertFirst? document node snippet style = some edit ∧ edit.span.isEmpty = true ∧
      Reworks offset (.pair opening inside closing) (edit :: older) piece'
        (snippet.piece base style 1 :: inside') := by
  obtain ⟨base, blankBase, inserted⟩ := insertFirst?_pair isNode stands snippet
  have soundSnippet := sound_piecesOf regular blankBase 1 [snippet] ⟨legible, trivial⟩
  have added := (amends_insert (innerStart offset opening)
    (snippet.render base style)).append (by simpa using amends)
  rw [List.nil_append, Snippet.toList_render, ← written_append] at added
  refine ⟨base, _, _, blankBase, inserted, by simp [Edit.insert, Span.isEmpty, Span.point],
    reworks_inside sound (sound_append.mpr ⟨soundSnippet, sound'⟩) added ?_⟩
  have blankLine := Alike.of_blank (blank_lineStart regular blankBase 1)
  simpa [piecesOf] using blankLine.append (Alike.refl (snippet.piece base style 1 :: inside'))

/-- A snippet alone on lines of its own is alike to its element. -/
theorem alike_alone {base : String} (blankBase : blank base.toList = true) (snippet : Snippet) :
    Alike (piecesOf base style 1 [snippet] ++ data (style.eol.toList ++ base.toList))
      [snippet.piece base style 1] := by
  have last := Alike.of_blank (blank_append.mpr ⟨regular.blank_eol, blankBase⟩)
  simpa using (alike_piecesOf regular blankBase 1 [snippet]).append last

theorem sound_alone {base : String} (blankBase : blank base.toList = true) {snippet : Snippet}
    (legible : snippet.Legible) :
    Sound (piecesOf base style 1 [snippet] ++ data (style.eol.toList ++ base.toList)) :=
  sound_append.mpr ⟨sound_piecesOf regular blankBase 1 [snippet] ⟨legible, trivial⟩,
    sound_of_blank (blank_append.mpr ⟨regular.blank_eol, blankBase⟩)⟩

theorem reworks_expanded {offset : Nat} {body : List Char} {node : Node}
    (isNode : IsNodeAt document.chars offset (.single body) node)
    (stands : StandsAt document.chars offset (written [.single body])) {name : String}
    (plain : plainName name.toList) (named : tagName body = name) {snippet : Snippet}
    (legible : snippet.Legible) :
    ∃ base edit piece', blank base.toList = true ∧ expand? document node snippet style = some edit ∧
      Reworks offset (.single body) [edit] piece' [snippet.piece base style 1] := by
  obtain ⟨base, edit, blankBase, expanded, -, amends⟩ := expand?_eq isNode stands named snippet
  refine ⟨base, edit, _, blankBase, expanded, amends,
    sound_plain plain (sound_alone regular blankBase legible), rfl, ?_,
    alike_alone regular blankBase snippet⟩
  simp [Piece.name?, tagName_toList plain, named]

/-- A snippet becomes the first element inside an element. -/
theorem insertFirst?_eq {offset : Nat} {piece : Piece} {node : Node}
    (isNode : IsNodeAt document.chars offset piece node)
    (stands : StandsAt document.chars offset (written [piece])) (sound : Sound [piece])
    {name : String} (plain : plainName name.toList) (named : piece.name? = some name)
    {snippet : Snippet} (legible : snippet.Legible) :
    ∃ base edit piece', blank base.toList = true ∧
      insertFirst? document node snippet style = some edit ∧
      Reworks offset piece [edit] piece' (snippet.piece base style 1 :: piece.inside) := by
  cases piece with
  | single body =>
    obtain ⟨base, edit, piece', blankBase, expanded, reworks⟩ :=
      reworks_expanded regular isNode stands plain (by simpa [Piece.name?] using named) legible
    have closed : node.isSelfClosing = true := single_of_isNodeAt isNode
    exact ⟨base, edit, piece', blankBase, by simp [insertFirst?, closed, expanded],
      by simpa [inside] using reworks⟩
  | pair opening within closing =>
    obtain ⟨-, -, -, soundInside⟩ := sound_pair.mp sound
    obtain ⟨base, edit, piece', blankBase, inserted, -, reworks⟩ :=
      insertFirst?_before regular isNode stands sound soundInside (.keep _ _) legible
    exact ⟨base, edit, piece', blankBase, inserted, reworks⟩
  | _ => exact absurd isNode.1 (by simp [isElement])

/-- A snippet becomes the last element inside, behind whatever an amendment makes of what is there
in front of the blanks at the end. -/
theorem insertLast?_after {offset : Nat} {opening closing : List Char} {inside : List Piece}
    {node : Node} (isNode : IsNodeAt document.chars offset (.pair opening inside closing) node)
    (stands : StandsAt document.chars offset (written [.pair opening inside closing]))
    (sound : Sound inside) {snippet : Snippet} (legible : snippet.Legible) :
    ∃ base edit kept tail, blank base.toList = true ∧ inside = kept ++ data tail ∧
      blank tail = true ∧ insertLast? document node snippet style = some edit ∧
      ∀ {older kept'}, Amends (innerStart offset opening) (written kept) older (written kept') →
        Sound kept' → ∃ inside', Amends (innerStart offset opening) (written inside)
            (older ++ [edit]) (written inside') ∧
          Sound inside' ∧ Alike inside' (kept' ++ [snippet.piece base style 1]) := by
  obtain ⟨base, kept, tail, blankBase, rfl, blankTail, inserted⟩ :=
    insertLast?_pair isNode stands sound snippet style
  refine ⟨base, _, kept, tail, blankBase, rfl, blankTail, inserted, fun {older kept'} before sound' =>
    ⟨_, ?_, sound_append.mpr ⟨sound', sound_alone regular blankBase legible⟩,
      (Alike.refl kept').append (alike_alone regular blankBase snippet)⟩⟩
  have replaced := @Amends.replace (innerStart offset opening + Text.size (written kept)) tail
    ⟨.between (innerStart offset opening + Text.size (written kept))
      (innerStart offset opening + Text.size (written (kept ++ data tail))),
      snippet.render base style ++ style.eol ++ base⟩ rfl
    (by simp [Span.between, Nat.add_assoc])
  have amends := before.append replaced
  simp only [String.toList_append, Snippet.toList_render] at amends
  simpa only [written_append, written_data, List.append_assoc] using amends

/-- A snippet becomes the last element inside an element that has two tags. -/
theorem insertLast?_eq {offset : Nat} {opening closing : List Char} {inside : List Piece}
    {node : Node} (isNode : IsNodeAt document.chars offset (.pair opening inside closing) node)
    (stands : StandsAt document.chars offset (written [.pair opening inside closing]))
    (sound : Sound [.pair opening inside closing]) {snippet : Snippet}
    (legible : snippet.Legible) :
    ∃ base edit piece', blank base.toList = true ∧
      insertLast? document node snippet style = some edit ∧
      Reworks offset (.pair opening inside closing) [edit] piece'
        (inside ++ [snippet.piece base style 1]) := by
  obtain ⟨-, -, -, soundInside⟩ := sound_pair.mp sound
  obtain ⟨base, edit, kept, tail, blankBase, rfl, blankTail, inserted, after⟩ :=
    insertLast?_after regular isNode stands soundInside legible
  obtain ⟨inside', amends, sound', alike⟩ :=
    after (.keep _ _) (sound_append.mp soundInside).1
  have blanks := (Alike.of_blank blankTail).symm.append (Alike.refl [snippet.piece base style 1])
  have content := (Alike.refl kept).append blanks
  rw [List.nil_append, ← List.append_assoc] at content
  exact ⟨base, edit, _, blankBase, inserted, reworks_inside sound sound' amends
    ⟨alike.outline.trans content.outline, alike.elements.trans content.elements⟩⟩

end

end

end PomLens.Remedy
