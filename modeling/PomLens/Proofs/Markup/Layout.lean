/-
This file proves that parsing a text and laying it out in pieces are the same.

A layout is one element with pieces that are no elements around it. A text is parsed into a
tree exactly if it is the text of a sound layout, and the tree is then that of the layout's
element (`parse_eq_ok_iff`). One half runs the builder on the layout's tokens. The other half
keeps, beside the builder, the pieces read so far with the elements that are still open: such a
reading determines the builder, and each token that the builder accepts extends it.
-/

import Mathlib.Data.List.Chain
import PomLens.Proofs.Markup.Building

namespace PomLens.Markup

open Piece

/-! ### Layouts -/

/-- A document in pieces. -/
structure Layout where
  before : List Piece
  root : Piece
  after : List Piece

namespace Layout

def pieces (layout : Layout) : List Piece :=
  layout.before ++ layout.root :: layout.after

/-- The offset at which the root element starts. -/
def rootOffset (layout : Layout) : Nat :=
  Text.size (written layout.before)

/-- The pieces can be told apart, and the root is the only element among them. -/
structure Sound (layout : Layout) : Prop where
  pieces : Piece.Sound layout.pieces
  root : layout.root.isElement = true
  before : ∀ piece ∈ layout.before, piece.isElement = false
  after : ∀ piece ∈ layout.after, piece.isElement = false

end Layout

/-! ### From layouts to trees -/

theorem tokens_append_cons (run : List Char) (first : List Piece) {piece : Piece}
    (element : piece.isElement = true) (rest : List Piece) :
    tokens run (first ++ piece :: rest) =
      tokens run first ++ (tokens [] [piece] ++ tokens [] rest) := by
  induction first using stretchInduction generalizing run with
  | nil => cases piece <;> simp_all [isElement, tokens, pending]
  | char one more inductionHypothesis =>
    rw [List.cons_append, tokens, inductionHypothesis, tokens]
  | literal content more inductionHypothesis => simp [tokens, inductionHypothesis]
  | aside text more inductionHypothesis => simp [tokens, inductionHypothesis]
  | single body more inductionHypothesis => simp [tokens, inductionHypothesis]
  | pair opening within closing more _ inductionHypothesis =>
    simp [tokens, inductionHypothesis]

/-- Where no element is open, the tokens of an element make its node the root. -/
theorem foldlM_tokens_root (source : List Char) {piece : Piece}
    (element : piece.isElement = true) (sound : Piece.Sound [piece]) (position : Nat)
    {node : Node} (shown : nodes source position position [piece] = [node]) :
    (tokens [] [piece]).foldlM (Builder.step source) ⟨position, [], none⟩ =
      pure ⟨position + Text.size (written [piece]), [], some node⟩ := by
  cases piece with
  | char one => simp [isElement] at element
  | literal content => simp [isElement] at element
  | aside text => simp [isElement] at element
  | single body =>
    simp only [nodes, dataNodes_self, List.nil_append, List.cons.injEq, and_true] at shown
    subst shown
    have placed : Builder.step source ⟨position, [], none⟩ (.selfClosing body) =
        pure ⟨position + Text.size (Token.selfClosing body).written, [],
          some (.element (singleTag position body) [])⟩ := rfl
    simp only [tokens, pending, ↓reduceIte, List.nil_append, List.foldlM_cons, List.foldlM_nil,
      placed, pure_bind, written, List.append_nil]
  | pair opening within closing =>
    simp only [nodes, dataNodes_self, List.nil_append, List.cons.injEq, and_true] at shown
    subst shown
    obtain ⟨-, -, sameName, soundWithin⟩ := sound_pair.mp sound
    have opened : Builder.step source ⟨position, [], none⟩ (.opening opening) =
        pure (inElement (innerStart position opening)
          ⟨tagName opening, position, innerStart position opening, []⟩ [] none) := rfl
    have built := foldlM_tokens source soundWithin (innerStart position opening)
      ⟨tagName opening, position, innerStart position opening, []⟩ [] none []
    simp only [tokens, pending, ↓reduceIte, List.nil_append, List.foldlM_cons, List.foldlM_append,
      List.foldlM_nil, opened, pure_bind, built, written, List.append_nil]
    simp only [Builder.step, inElement, Builder.close, withNodes, sameName, ne_eq,
      not_true_eq_false, ↓reduceIte, Text.size_nil, Nat.add_zero, List.append_nil,
      List.reverse_reverse]
    simp only [innerStart, pairTag, sameName, Text.size_append, Nat.add_assoc]
    rfl

/-- The text of a sound layout is parsed into the tree of its root. -/
theorem parse_of_layout {text : String} {layout : Layout} (sound : layout.Sound)
    (whole : written layout.pieces = withoutMark text.toList) {node : Node}
    (shown : nodes text.toList layout.rootOffset layout.rootOffset [layout.root] = [node]) :
    Tree.parse text = .ok ⟨node⟩ := by
  have soundRoot : Piece.Sound [layout.root] := by
    have parts := sound.pieces
    rw [Layout.pieces, sound_append, sound_cons] at parts
    exact parts.2.1
  have folded : (tokens [] layout.pieces).foldlM (Builder.step text.toList) Builder.start =
      pure ⟨Text.size (written layout.pieces), [], some node⟩ := by
    rw [Layout.pieces, tokens_append_cons [] layout.before sound.root, List.foldlM_append,
      Builder.start, foldlM_tokens_outside _ sound.before, pure_bind, List.foldlM_append]
    have position : 0 + Text.size [] + Text.size (written layout.before) = layout.rootOffset := by
      simp [Layout.rootOffset]
    rw [position, foldlM_tokens_root _ sound.root soundRoot _ shown, pure_bind,
      foldlM_tokens_outside _ sound.after, written_append,
      written_cons layout.root layout.after]
    simp [Layout.rootOffset, Nat.add_assoc]
  simp only [Tree.parse_eq, Builder.parse, ← whole, scan_written sound.pieces]
  rw [folded, pure_bind]
  rfl

/-! ### Readings -/

/-- An element that is still open, and what was read inside it. -/
structure Unclosed where
  opening : List Char
  content : List Piece

/-- What was read of a document: the pieces outside every open element, and the open elements,
the innermost first. -/
structure Reading where
  outside : List Piece
  opened : List Unclosed

/-- The text of a reading. -/
def writtenTo (outside : List Piece) : List Unclosed → List Char
  | [] => written outside
  | level :: outer =>
    writtenTo outside outer ++ (Token.opening level.opening).written ++ written level.content

/-- The offset at which the innermost open element starts, given what is around it. -/
def levelStart (outside : List Piece) (outer : List Unclosed) : Nat :=
  Text.size (writtenTo outside outer)

/-- The open elements as the builder keeps them. -/
def openElements (source : List Char) (outside : List Piece) : List Unclosed → List OpenElement
  | [] => []
  | level :: outer =>
    let start := levelStart outside outer
    let inner := innerStart start level.opening
    ⟨tagName level.opening, start, inner, (nodes source inner inner level.content).reverse⟩ ::
      openElements source outside outer

/-- The node of the first element among pieces that start at an offset. -/
def firstElement? (source : List Char) (offset : Nat) : List Piece → Option Node
  | [] => none
  | piece :: rest =>
    if piece.isElement then (nodes source offset offset [piece]).head?
    else firstElement? source (offset + Text.size (written [piece])) rest

theorem firstElement?_append (source : List Char) (offset : Nat) {first : List Piece}
    (noElement : ∀ piece ∈ first, piece.isElement = false) (second : List Piece) :
    firstElement? source offset (first ++ second) =
      firstElement? source (offset + Text.size (written first)) second := by
  induction first generalizing offset with
  | nil => simp
  | cons piece rest inductionHypothesis =>
    have skipped : ¬ piece.isElement = true := by simp [noElement piece List.mem_cons_self]
    have others := inductionHypothesis (offset + Text.size (written [piece])) fun other member =>
      noElement other (List.mem_cons_of_mem _ member)
    rw [List.cons_append, firstElement?, if_neg skipped, others, written_cons piece rest,
      Text.size_append, Nat.add_assoc]

/-- What is added behind pieces is not their first element, if they have one or it is none. -/
theorem firstElement?_concat (source : List Char) (offset : Nat) (first : List Piece)
    {second : List Piece} (noElement : ∀ piece ∈ second, piece.isElement = false) :
    firstElement? source offset (first ++ second) = firstElement? source offset first := by
  induction first generalizing offset with
  | nil =>
    have none := firstElement?_append source offset noElement []
    simpa [firstElement?] using none
  | cons piece rest inductionHypothesis =>
    rw [List.cons_append, firstElement?, firstElement?, inductionHypothesis]

namespace Reading

/-- The builder that has read what the reading has. -/
def builder (source : List Char) (reading : Reading) : Builder :=
  ⟨levelStart reading.outside reading.opened,
    openElements source reading.outside reading.opened,
    firstElement? source 0 reading.outside⟩

/-- The stretch of pieces to which the next piece is added. -/
def current (reading : Reading) : List Piece :=
  match reading.opened with
  | [] => reading.outside
  | level :: _ => level.content

/-- The reading with more pieces. -/
def push (reading : Reading) (added : List Piece) : Reading :=
  match reading.opened with
  | [] => ⟨reading.outside ++ added, []⟩
  | level :: outer =>
    ⟨reading.outside, ⟨level.opening, level.content ++ added⟩ :: outer⟩

/-- All pieces read so far are sound, and elements stand outside only where none is open, and
there at most one. -/
structure Sound (reading : Reading) : Prop where
  outside : Piece.Sound reading.outside
  opened : ∀ level ∈ reading.opened,
    (Token.opening level.opening).Delimited ∧ Piece.Sound level.content
  atMostOne : (reading.outside.filter isElement).length ≤ 1
  noneAround : reading.opened ≠ [] → ∀ piece ∈ reading.outside, piece.isElement = false

/-- No run of data is under way. -/
def AtSeam (reading : Reading) : Prop :=
  ∀ one, reading.current.getLast? ≠ some (.char one)

theorem written_push (reading : Reading) (added : List Piece) :
    writtenTo (reading.push added).outside (reading.push added).opened =
      writtenTo reading.outside reading.opened ++ written added := by
  obtain ⟨outside, opened⟩ := reading
  cases opened <;> simp [push, writtenTo]

end Reading

/-! ### Tokens one after the other -/

theorem notText_of_next {rest after : List Char} {token : Token}
    (read : next '<' rest = .ok (token, after)) : ∀ run, token ≠ .text run := by
  rintro run rfl
  simp only [next, ne_eq, not_true_eq_false, ↓reduceIte] at read
  split at read
  · unfold readDeclaration at read
    simp only at read
    repeat' split at read
    all_goals cases read
  · unfold readInstruction at read
    repeat' split at read
    all_goals cases read
  · obtain ⟨body, -, same⟩ := readTag_eq_ok_iff.mp read
    unfold Token.ofTag at same
    repeat' split at same
    all_goals cases same

/-- A token that a scan may give: a run of data, or markup that ends by itself. -/
def Token.Legible : Token → Prop
  | .text run => run ≠ [] ∧ '<' ∉ run
  | token => token.Delimited

/-- Tokens of which no two runs of data stand side by side. -/
def Alternating (tokens : List Token) : Prop :=
  tokens.IsChain fun first second => ∀ run, first = .text run → ∀ other, second ≠ .text other

theorem legible_of_next {first : Char} {rest after : List Char} {token : Token}
    (read : next first rest = .ok (token, after)) : token.Legible := by
  by_cases markup : first = '<'
  · have delimited := delimited_of_next read markup
    subst markup
    have notText := notText_of_next read
    cases token with
    | text run => exact absurd rfl (notText run)
    | _ => exact delimited
  · simp only [next, ne_eq, markup, not_false_eq_true, ↓reduceIte] at read
    cases read
    refine ⟨by simp, ?_⟩
    simp only [List.mem_cons, not_or]
    refine ⟨Ne.symm markup, fun member => ?_⟩
    simpa using List.mem_takeWhile_imp member

theorem atMarkup_of_next_text {first : Char} {rest after run : List Char}
    (read : next first rest = .ok (.text run, after)) : AtMarkup after := by
  by_cases markup : first = '<'
  · subst markup
    exact absurd rfl (notText_of_next read run)
  · simp only [next, ne_eq, markup, not_false_eq_true, ↓reduceIte] at read
    injection read with whole
    injection whole with text behind
    subst behind
    intro head begins
    have stopped := List.head?_dropWhile_not (fun char => decide (char ≠ '<')) rest
    simp only [ne_eq] at begins stopped
    rw [begins] at stopped
    simpa using stopped

/-- The first token of markup is no run of data. -/
theorem head_scan_of_atMarkup {text : List Char} (markup : AtMarkup text) :
    ∀ token, (scan text).1.head? = some token → ∀ run, token ≠ .text run := by
  match text with
  | [] => simp
  | first :: rest =>
    obtain rfl := markup first rfl
    intro token begins
    cases read : next '<' rest with
    | error failure =>
      rw [scan_of_failure read] at begins
      cases begins
    | ok result =>
      rw [scan_of_read read, List.head?_cons] at begins
      cases begins
      exact notText_of_next read

theorem scan_legible (text : List Char) :
    (∀ token ∈ (scan text).1, token.Legible) ∧ Alternating (scan text).1 := by
  induction text using scan.induct with
  | case1 => simp [Alternating]
  | case2 first rest failure read =>
    simp [scan_of_failure read, Alternating]
  | case3 first rest token after read tokens failure scanned inductionHypothesis =>
    rw [scan_of_read read]
    refine ⟨?_, ?_⟩
    · intro other member
      rcases List.mem_cons.mp member with rfl | later
      · exact legible_of_next read
      · exact inductionHypothesis.1 other later
    · refine List.isChain_cons.mpr ⟨?_, inductionHypothesis.2⟩
      rintro second head run rfl
      exact head_scan_of_atMarkup (atMarkup_of_next_text read) second head

/-! ### Readings follow the builder -/

theorem nodes_append_data (source : List Char) (start offset : Nat) (chars : List Char) :
    nodes source start offset (data chars) = dataNodes source start (offset + Text.size chars) := by
  induction chars generalizing offset with
  | nil => simp [nodes]
  | cons one rest inductionHypothesis =>
    rw [data, List.map_cons, nodes, ← data, inductionHypothesis, Text.size_cons, Nat.add_assoc]

/-- Data behind markup are a run of their own. -/
theorem nodes_append_run (source : List Char) (offset : Nat) {content : List Piece}
    (seam : ∀ one, content.getLast? ≠ some (.char one)) (run : List Char) :
    nodes source offset offset (content ++ data run) =
      nodes source offset offset content ++
        dataNodes source (offset + Text.size (written content))
          (offset + Text.size (written content) + Text.size run) := by
  rcases List.eq_nil_or_concat content with rfl | ⟨first, last, rfl⟩
  · simp [nodes, nodes_append_data]
  · rw [List.concat_eq_append] at seam ⊢
    have markup : last.isMarkup = true := by
      cases last with
      | char one => exact absurd (by simp) (seam one)
      | _ => rfl
    rw [List.append_assoc, List.singleton_append, nodes_append_cons _ _ _ _ markup,
      nodes_append_cons _ _ _ _ markup, nodes_append_data]
    simp [nodes]

/-- An open element as the builder keeps it. -/
def Unclosed.openElement (source : List Char) (outside : List Piece) (outer : List Unclosed)
    (level : Unclosed) : OpenElement :=
  let start := levelStart outside outer
  let inner := innerStart start level.opening
  ⟨tagName level.opening, start, inner, (nodes source inner inner level.content).reverse⟩

namespace Reading

theorem builder_inside (source : List Char) (outside : List Piece) (level : Unclosed)
    (outer : List Unclosed) :
    Reading.builder source ⟨outside, level :: outer⟩ =
      inElement (levelStart outside (level :: outer)) (level.openElement source outside outer)
        (openElements source outside outer) (firstElement? source 0 outside) := rfl

/-- What is pushed onto an open element becomes its latest nodes. -/
theorem builder_push (source : List Char) (outside : List Piece) (level : Unclosed)
    (outer : List Unclosed) (added : List Piece) {more : List Node}
    (shown : nodes source (innerStart (levelStart outside outer) level.opening)
        (innerStart (levelStart outside outer) level.opening) (level.content ++ added) =
      nodes source (innerStart (levelStart outside outer) level.opening)
        (innerStart (levelStart outside outer) level.opening) level.content ++ more) :
    Reading.builder source (push ⟨outside, level :: outer⟩ added) =
      inElement (levelStart outside (level :: outer) + Text.size (written added))
        (withNodes (level.openElement source outside outer) more)
        (openElements source outside outer) (firstElement? source 0 outside) := by
  simp only [push, builder, openElements, inElement, withNodes, Unclosed.openElement, shown,
    List.reverse_append]
  simp only [levelStart, writtenTo, written_append, Text.size_append, Nat.add_assoc]

theorem Sound.push_inside {outside : List Piece} {level : Unclosed} {outer : List Unclosed}
    (sound : Sound ⟨outside, level :: outer⟩) {added : List Piece} (more : Piece.Sound added) :
    Sound (push ⟨outside, level :: outer⟩ added) := by
  obtain ⟨first, others⟩ := List.forall_mem_cons.mp sound.opened
  refine ⟨sound.outside, ?_, sound.atMostOne, fun _ => sound.noneAround (by simp)⟩
  refine List.forall_mem_cons.mpr ⟨⟨first.1, ?_⟩, others⟩
  exact sound_append.mpr ⟨first.2, more⟩

theorem Sound.push_outside {outside : List Piece} (sound : Sound ⟨outside, []⟩)
    {added : List Piece} (more : Piece.Sound added)
    (few : ((outside ++ added).filter isElement).length ≤ 1) :
    Sound (push ⟨outside, []⟩ added) :=
  ⟨sound_append.mpr ⟨sound.outside, more⟩, fun _ member => absurd member (by simp [push]), few,
    fun opened => absurd rfl opened⟩

/-- The first element outside all others is pushed there. -/
theorem Sound.push_root {outside : List Piece} (sound : Sound ⟨outside, []⟩)
    (noElement : ∀ piece ∈ outside, piece.isElement = false) {piece : Piece}
    (soundPiece : Piece.Sound [piece]) : Sound (push ⟨outside, []⟩ [piece]) := by
  refine sound.push_outside soundPiece ?_
  have none : outside.filter isElement = [] :=
    List.filter_eq_nil_iff.mpr fun other member => by simp [noElement other member]
  rw [List.filter_append, none, List.nil_append]
  exact List.length_filter_le _ _

theorem atSeam_push {piece : Piece} (markup : piece.isMarkup = true) (reading : Reading) :
    (reading.push [piece]).AtSeam := by
  obtain ⟨outside, opened⟩ := reading
  intro one
  cases opened <;> cases piece <;> simp_all [push, current, isMarkup]

/-- Where there is an element outside all others, the builder has its root. -/
theorem noElement_of_firstElement?_eq_none {source : List Char} {offset : Nat}
    {pieces : List Piece} (none : firstElement? source offset pieces = none) :
    ∀ piece ∈ pieces, piece.isElement = false := by
  induction pieces generalizing offset with
  | nil => simp
  | cons piece rest inductionHypothesis =>
    rw [firstElement?] at none
    split at none
    · next element =>
      cases piece <;> simp_all [isElement, nodes]
    · next notElement =>
      exact List.forall_mem_cons.mpr ⟨by simpa using notElement, inductionHypothesis none⟩

end Reading

theorem nodes_concat (source : List Char) (offset : Nat) (content : List Piece) {piece : Piece}
    (markup : piece.isMarkup = true) :
    nodes source offset offset (content ++ [piece]) =
      nodes source offset offset content ++
        nodes source (offset + Text.size (written content))
          (offset + Text.size (written content)) [piece] := by
  rw [nodes_append_cons source offset offset content markup]
  simp [nodes]

/-- A later reading that has read one token more, and the builder of which is as given. -/
def Reading.Reaches (source : List Char) (reading : Reading) (token : Token) (builder : Builder) :
    Prop :=
  ∃ later : Reading, later.Sound ∧ builder = later.builder source ∧
    writtenTo later.outside later.opened =
      writtenTo reading.outside reading.opened ++ token.written ∧
    ((∀ run, token ≠ .text run) → later.AtSeam)

/-- Markup inside an open element is one more piece of it. -/
theorem reaches_of_markup (source : List Char) {outside : List Piece} {level : Unclosed}
    {outer : List Unclosed} (sound : Reading.Sound ⟨outside, level :: outer⟩) (token : Token)
    (piece : Piece) (markup : piece.isMarkup = true) (soundPiece : Piece.Sound [piece])
    (same : written [piece] = token.written) :
    Reading.Reaches source ⟨outside, level :: outer⟩ token
      (inElement (levelStart outside (level :: outer) + Text.size token.written)
        (withNodes (level.openElement source outside outer)
          (nodes source (levelStart outside (level :: outer))
            (levelStart outside (level :: outer)) [piece]))
        (openElements source outside outer) (firstElement? source 0 outside)) := by
  refine ⟨Reading.push ⟨outside, level :: outer⟩ [piece], sound.push_inside soundPiece, ?_, ?_,
    fun _ => Reading.atSeam_push markup _⟩
  · rw [Reading.builder_push _ _ _ _ _ (nodes_concat source _ level.content markup), same]
    simp only [levelStart, writtenTo, innerStart, Text.size_append]
  · rw [Reading.written_push, same]

theorem name_of_step_closing {source : List Char} {position : Nat} {inside : OpenElement}
    {outer : List OpenElement} {root : Option Node} {closing : List Char} {builder : Builder}
    (placed : Builder.step source (inElement position inside outer root) (.closing closing) =
      .ok builder) :
    inside.name = closingName closing := by
  by_contra different
  simp only [Builder.step, inElement, Builder.close, ne_eq, different, not_false_eq_true,
    ↓reduceIte] at placed
  cases placed

/-- A tag that closes the outermost element makes it the root. -/
theorem reaches_of_closing_root {source : List Char} {outside : List Piece} {level : Unclosed}
    (sound : Reading.Sound ⟨outside, [level]⟩) {closing : List Char}
    (legible : (Token.closing closing).Legible) {builder : Builder}
    (placed : Builder.step source (Reading.builder source ⟨outside, [level]⟩) (.closing closing) =
      .ok builder) :
    Reading.Reaches source ⟨outside, [level]⟩ (.closing closing) builder := by
  rw [Reading.builder_inside] at placed
  have sameName : tagName level.opening = closingName closing := name_of_step_closing placed
  obtain ⟨⟨opens, soundContent⟩, others⟩ := List.forall_mem_cons.mp sound.opened
  have soundPair : Piece.Sound [.pair level.opening level.content closing] :=
    sound_pair.mpr ⟨opens, legible, sameName, soundContent⟩
  have noneAround := sound.noneAround (by simp)
  have soundOutside : Reading.Sound ⟨outside, []⟩ :=
    ⟨sound.outside, others, sound.atMostOne, by simp⟩
  refine ⟨Reading.push ⟨outside, []⟩ [.pair level.opening level.content closing],
    soundOutside.push_root noneAround soundPair, ?_, ?_, fun _ => Reading.atSeam_push rfl _⟩
  · simp only [Builder.step, inElement, Builder.close, Unclosed.openElement, ne_eq, sameName,
      not_true_eq_false, ↓reduceIte] at placed
    cases placed
    simp only [Reading.push, Reading.builder, openElements,
      firstElement?_append source 0 noneAround, Nat.zero_add, firstElement?]
    simp [isElement, nodes, pairTag, levelStart, writtenTo, innerStart, written, Nat.add_assoc,
      sameName]
    exact ⟨rfl, rfl⟩
  · rw [Reading.written_push]
    simp [writtenTo, written]

/-- A tag that closes an inner element makes it one more piece of the element around it. -/
theorem reaches_of_closing_inner {source : List Char} {outside : List Piece}
    {level around : Unclosed} {outer : List Unclosed}
    (sound : Reading.Sound ⟨outside, level :: around :: outer⟩) {closing : List Char}
    (legible : (Token.closing closing).Legible) {builder : Builder}
    (placed : Builder.step source (Reading.builder source ⟨outside, level :: around :: outer⟩)
      (.closing closing) = .ok builder) :
    Reading.Reaches source ⟨outside, level :: around :: outer⟩ (.closing closing) builder := by
  rw [Reading.builder_inside] at placed
  have sameName : tagName level.opening = closingName closing := name_of_step_closing placed
  obtain ⟨⟨opens, soundContent⟩, others⟩ := List.forall_mem_cons.mp sound.opened
  have soundPair : Piece.Sound [.pair level.opening level.content closing] :=
    sound_pair.mpr ⟨opens, legible, sameName, soundContent⟩
  have soundOuter : Reading.Sound ⟨outside, around :: outer⟩ :=
    ⟨sound.outside, others, sound.atMostOne, fun _ => sound.noneAround (by simp)⟩
  have closed := step_closing source (levelStart outside (level :: around :: outer))
    (levelStart outside (around :: outer))
    (innerStart (levelStart outside (around :: outer)) level.opening) (tagName level.opening)
    (Unclosed.openElement source outside (around :: outer) level).children
    (around.openElement source outside outer) (openElements source outside outer)
    (firstElement? source 0 outside) closing sameName
  refine ⟨Reading.push ⟨outside, around :: outer⟩ [.pair level.opening level.content closing],
    soundOuter.push_inside soundPair, ?_, ?_, fun _ => Reading.atSeam_push rfl _⟩
  · have same := placed.symm.trans closed
    cases same
    rw [Reading.builder_push _ _ _ _ _ (nodes_concat source _ around.content rfl)]
    simp [nodes, Unclosed.openElement, pairTag, levelStart, writtenTo, innerStart, written,
      Nat.add_assoc]
  · rw [Reading.written_push]
    simp [writtenTo, written]

/-- A token that an open element takes extends the reading. -/
theorem reaches_inside {source : List Char} {outside : List Piece} {level : Unclosed}
    {outer : List Unclosed}
    (sound : Reading.Sound ⟨outside, level :: outer⟩) {token : Token} (legible : token.Legible)
    (seam : ∀ run, token = .text run → Reading.AtSeam ⟨outside, level :: outer⟩)
    {builder : Builder}
    (placed : Builder.step source (Reading.builder source ⟨outside, level :: outer⟩) token =
      .ok builder) :
    Reading.Reaches source ⟨outside, level :: outer⟩ token builder := by
  rw [Reading.builder_inside] at placed
  cases token with
  | text run =>
    rw [step_text] at placed
    cases placed
    refine ⟨Reading.push ⟨outside, level :: outer⟩ (data run),
      sound.push_inside (sound_data.mpr legible.2), ?_, ?_, fun notText => absurd rfl (notText run)⟩
    · have longer : ∀ offset : Nat, offset ≠ offset + Text.size run := fun offset => by
        have := mt Text.size_eq_zero_iff.mp legible.1
        omega
      rw [Reading.builder_push _ _ _ _ _ (nodes_append_run source _ (seam run rfl) run)]
      simp only [dataNodes, if_neg (longer _), written_data]
      simp only [levelStart, writtenTo, innerStart, Text.size_append, Reading.current]
    · rw [Reading.written_push, written_data]
      rfl
  | literal content =>
    rw [step_literal] at placed
    cases placed
    have delimited : (Token.literal content).Delimited := legible
    have reached := reaches_of_markup source sound (.literal content) (.literal content) rfl
      (by simpa [Piece.Sound] using delimited) (by simp [written])
    simpa [nodes] using reached
  | aside text =>
    rw [step_aside] at placed
    cases placed
    have delimited : (Token.aside text).Delimited := legible
    have reached := reaches_of_markup source sound (.aside text) (.aside text) rfl
      (by simpa [Piece.Sound] using delimited) (by simp [written])
    simpa [nodes] using reached
  | selfClosing body =>
    rw [step_single] at placed
    cases placed
    have delimited : (Token.selfClosing body).Delimited := legible
    have reached := reaches_of_markup source sound (.selfClosing body) (.single body) rfl
      (by simpa [Piece.Sound] using delimited) (by simp [written])
    simpa [nodes] using reached
  | opening opening =>
    rw [step_opening] at placed
    cases placed
    refine ⟨⟨outside, ⟨opening, []⟩ :: level :: outer⟩, ?_, ?_, ?_, ?_⟩
    · exact ⟨sound.outside, List.forall_mem_cons.mpr ⟨⟨legible, Piece.sound_nil⟩, sound.opened⟩,
        sound.atMostOne, fun _ => sound.noneAround (by simp)⟩
    · simp only [Reading.builder, inElement, openElements, levelStart, writtenTo, nodes,
        dataNodes_self, List.reverse_nil, written_nil, List.append_nil, Text.size_append,
        innerStart, Unclosed.openElement]
    · simp [writtenTo]
    · intro _ one
      simp [Reading.current]
  | closing closing =>
    rw [← Reading.builder_inside] at placed
    cases outer with
    | nil => exact reaches_of_closing_root sound legible placed
    | cons around outer => exact reaches_of_closing_inner sound legible placed

/-- What is no element is one more piece outside, and leaves no trace but its size. -/
theorem reaches_of_noElement {source : List Char} {outside : List Piece}
    (sound : Reading.Sound ⟨outside, []⟩) {token : Token} (added : List Piece)
    (soundAdded : Piece.Sound added) (noElement : ∀ piece ∈ added, piece.isElement = false)
    (same : written added = token.written)
    (seam : (∀ run, token ≠ .text run) → (Reading.push ⟨outside, []⟩ added).AtSeam) :
    Reading.Reaches source ⟨outside, []⟩ token
      ⟨levelStart outside [] + Text.size token.written, [], firstElement? source 0 outside⟩ := by
  refine ⟨Reading.push ⟨outside, []⟩ added, sound.push_outside soundAdded ?_, ?_, ?_, seam⟩
  · have none : added.filter isElement = [] :=
      List.filter_eq_nil_iff.mpr fun piece member => by simp [noElement piece member]
    rw [List.filter_append, none, List.append_nil]
    exact sound.atMostOne
  · simp only [Reading.builder, Reading.push, openElements, levelStart, writtenTo,
      firstElement?_concat source 0 outside noElement, written_append, Text.size_append, same]
  · rw [Reading.written_push, same]

/-- Where an element may start outside all others, none has stood there yet. -/
theorem mayStart_of_step {source : List Char} {position : Nat} {root : Option Node}
    {token : Token} (name : String) {builder after : Builder}
    (start : Builder.step source ⟨position, [], root⟩ token =
      (Builder.mayStart ⟨position, [], root⟩ name >>= fun _ => .ok after))
    (placed : Builder.step source ⟨position, [], root⟩ token = .ok builder) :
    root = none ∧ builder = after := by
  rw [start] at placed
  cases root with
  | none =>
    cases placed
    exact ⟨rfl, rfl⟩
  | some node => cases placed

/-- A token that is taken where no element is open extends the reading. -/
theorem reaches_outside {source : List Char} {outside : List Piece}
    (sound : Reading.Sound ⟨outside, []⟩) {token : Token} (legible : token.Legible)
    {builder : Builder}
    (placed : Builder.step source (Reading.builder source ⟨outside, []⟩) token = .ok builder) :
    Reading.Reaches source ⟨outside, []⟩ token builder := by
  cases token with
  | text run =>
    cases placed
    exact reaches_of_noElement sound (data run) (sound_data.mpr legible.2) (by simp [data, isElement])
      (written_data run) fun notText => absurd rfl (notText run)
  | literal content =>
    cases placed
    have delimited : (Token.literal content).Delimited := legible
    exact reaches_of_noElement sound [.literal content]
      (by simpa [Piece.Sound] using delimited) (by simp [isElement]) (by simp [written])
      fun _ => Reading.atSeam_push rfl _
  | aside text =>
    cases placed
    have delimited : (Token.aside text).Delimited := legible
    exact reaches_of_noElement sound [.aside text]
      (by simpa [Piece.Sound] using delimited) (by simp [isElement]) (by simp [written])
      fun _ => Reading.atSeam_push rfl _
  | selfClosing body =>
    obtain ⟨noRoot, rfl⟩ := mayStart_of_step (tagName body) rfl placed
    have noElement := Reading.noElement_of_firstElement?_eq_none noRoot
    have delimited : (Token.selfClosing body).Delimited := legible
    refine ⟨Reading.push ⟨outside, []⟩ [.single body],
      sound.push_root noElement (by simpa [Piece.Sound] using delimited), ?_, ?_,
      fun _ => Reading.atSeam_push rfl _⟩
    · simp [Reading.push, Reading.builder, openElements, levelStart, writtenTo,
        firstElement?_append source 0 noElement, firstElement?, isElement, nodes, written,
        Builder.add, singleTag]
    · simp [Reading.push, writtenTo, written]
  | opening opening =>
    obtain ⟨noRoot, rfl⟩ := mayStart_of_step (tagName opening) rfl placed
    have noElement := Reading.noElement_of_firstElement?_eq_none noRoot
    refine ⟨⟨outside, [⟨opening, []⟩]⟩, ⟨sound.outside, ?_, sound.atMostOne, fun _ => noElement⟩,
      ?_, ?_, ?_⟩
    · exact List.forall_mem_cons.mpr ⟨⟨legible, Piece.sound_nil⟩, by simp⟩
    · simp only [Reading.builder, openElements, levelStart, writtenTo, nodes, dataNodes_self,
        List.reverse_nil, written_nil, List.append_nil, Text.size_append, innerStart]
    · simp [writtenTo]
    · intro _ one
      simp [Reading.current]
  | closing closing => cases placed

/-- A run of the builder over tokens that a scan may give extends the reading by them. -/
theorem reading_of_foldlM {source : List Char} {tokens : List Token} {reading : Reading}
    (sound : reading.Sound) (legible : ∀ token ∈ tokens, token.Legible)
    (alternating : Alternating tokens)
    (seam : ∀ run, tokens.head? = some (.text run) → reading.AtSeam) {builder : Builder}
    (built : tokens.foldlM (Builder.step source) (reading.builder source) = .ok builder) :
    ∃ last : Reading, last.Sound ∧ builder = last.builder source ∧
      writtenTo last.outside last.opened =
        writtenTo reading.outside reading.opened ++ (tokens.map Token.written).flatten := by
  induction tokens generalizing reading with
  | nil =>
    cases built
    exact ⟨reading, sound, rfl, by simp⟩
  | cons token rest inductionHypothesis =>
    obtain ⟨legibleToken, legibleRest⟩ := List.forall_mem_cons.mp legible
    obtain ⟨apart, alternatingRest⟩ := List.isChain_cons.mp alternating
    rw [List.foldlM_cons] at built
    match placed : Builder.step source (reading.builder source) token with
    | .error failure =>
      rw [placed] at built
      cases built
    | .ok between =>
      rw [placed] at built
      have reaches : Reading.Reaches source reading token between := by
        obtain ⟨outside, opened⟩ := reading
        cases opened with
        | nil => exact reaches_outside sound legibleToken placed
        | cons level outer =>
          refine reaches_inside sound legibleToken ?_ placed
          rintro run rfl
          exact seam run rfl
      obtain ⟨later, soundLater, rfl, extended, atSeam⟩ := reaches
      have seamLater : ∀ run, rest.head? = some (.text run) → later.AtSeam := by
        intro run begins
        refine atSeam fun other text => ?_
        exact apart (.text run) begins other text run rfl
      obtain ⟨last, soundLast, same, whole⟩ :=
        inductionHypothesis soundLater legibleRest alternatingRest seamLater built
      refine ⟨last, soundLast, same, ?_⟩
      rw [whole, extended, List.map_cons, List.flatten_cons, List.append_assoc]

/-! ### From trees to layouts -/

/-- The tokens of a text that is read to its end are its text. -/
theorem written_tokens_of_scan {text : List Char} (complete : (scan text).2 = none) :
    ((scan text).1.map Token.written).flatten = text := by
  induction text using scan.induct with
  | case1 => simp
  | case2 first rest failure read =>
    rw [scan_of_failure read] at complete
    cases complete
  | case3 first rest token after read tokens failure scanned inductionHypothesis =>
    rw [scan_of_read read] at complete ⊢
    rw [List.map_cons, List.flatten_cons, inductionHypothesis complete, ← next_written read]

/-- Pieces with at most one element among them, of which one is, are laid out around it. -/
theorem layout_of_firstElement? {source : List Char} {offset : Nat} {pieces : List Piece}
    {node : Node} (shown : firstElement? source offset pieces = some node)
    (atMostOne : (pieces.filter isElement).length ≤ 1) :
    ∃ layout : Layout, layout.pieces = pieces ∧ layout.root.isElement = true ∧
      (∀ piece ∈ layout.before, piece.isElement = false) ∧
      (∀ piece ∈ layout.after, piece.isElement = false) ∧
      (nodes source (offset + layout.rootOffset) (offset + layout.rootOffset)
        [layout.root]).head? = some node := by
  induction pieces generalizing offset with
  | nil => simp [firstElement?] at shown
  | cons piece rest inductionHypothesis =>
    rw [firstElement?] at shown
    split at shown
    · next element =>
      refine ⟨⟨[], piece, rest⟩, rfl, element, by simp, ?_, by simpa [Layout.rootOffset] using shown⟩
      rw [List.filter_cons_of_pos element, List.length_cons] at atMostOne
      have none : rest.filter isElement = [] := List.length_eq_zero_iff.mp (by omega)
      intro other member
      simpa using List.filter_eq_nil_iff.mp none other member
    · next notElement =>
      rw [List.filter_cons_of_neg notElement] at atMostOne
      obtain ⟨layout, whole, root, before, after, node⟩ := inductionHypothesis shown atMostOne
      refine ⟨⟨piece :: layout.before, layout.root, layout.after⟩, ?_, root, ?_, after, ?_⟩
      · rw [← whole]
        rfl
      · exact List.forall_mem_cons.mpr ⟨by simpa using notElement, before⟩
      · rw [← node, Layout.rootOffset, Layout.rootOffset, written_cons piece, Text.size_append]
        simp only [Nat.add_assoc]

theorem parse_inversion {text : String} {tree : Tree} (parsed : Tree.parse text = .ok tree) :
    ∃ builder, (scan (withoutMark text.toList)).1.foldlM (Builder.step text.toList)
        Builder.start = .ok builder ∧
      (scan (withoutMark text.toList)).2 = none ∧ builder.finish = .ok tree := by
  simp only [Tree.parse_eq, Builder.parse] at parsed
  cases built : (scan (withoutMark text.toList)).1.foldlM (Builder.step text.toList)
      Builder.start with
  | error failure =>
    rw [built] at parsed
    cases parsed
  | ok builder =>
    rw [built] at parsed
    cases complete : (scan (withoutMark text.toList)).2 with
    | some failure =>
      rw [complete] at parsed
      cases parsed
    | none =>
      rw [complete] at parsed
      exact ⟨builder, rfl, rfl, parsed⟩

theorem finish_inversion {builder : Builder} {node : Node} (finished : builder.finish = .ok ⟨node⟩) :
    builder.opened = [] ∧ builder.root = some node := by
  unfold Builder.finish at finished
  split at finished
  · cases finished
  · cases finished
  · next noneOpen root =>
    cases finished
    exact ⟨List.getLast?_eq_none_iff.mp noneOpen, root⟩

theorem nodes_singleton_of_head? {source : List Char} {offset : Nat} {piece : Piece}
    (element : piece.isElement = true) {node : Node}
    (head : (nodes source offset offset [piece]).head? = some node) :
    nodes source offset offset [piece] = [node] := by
  cases piece <;> simp_all [isElement, nodes]

/-- A text has a tree exactly if it is the text of a sound layout, and the tree is then that of
the layout's root. -/
theorem parse_eq_ok_iff {text : String} {node : Node} :
    Tree.parse text = .ok ⟨node⟩ ↔
      ∃ layout : Layout, layout.Sound ∧ written layout.pieces = withoutMark text.toList ∧
        nodes text.toList layout.rootOffset layout.rootOffset [layout.root] = [node] := by
  constructor
  · intro parsed
    obtain ⟨builder, built, complete, finished⟩ := parse_inversion parsed
    have start : Builder.start = Reading.builder text.toList ⟨[], []⟩ := by
      simp [Builder.start, Reading.builder, levelStart, writtenTo, openElements, firstElement?]
    rw [start] at built
    obtain ⟨legible, alternating⟩ := scan_legible (withoutMark text.toList)
    have soundStart : Reading.Sound ⟨[], []⟩ := ⟨sound_nil, by simp, by simp, by simp⟩
    obtain ⟨last, soundLast, rfl, whole⟩ := reading_of_foldlM soundStart legible alternating
      (fun _ _ _ => by simp [Reading.current]) built
    obtain ⟨outside, opened⟩ := last
    obtain ⟨noneOpen, root⟩ := finish_inversion finished
    cases opened with
    | cons level outer => simp [Reading.builder, openElements] at noneOpen
    | nil =>
      obtain ⟨layout, same, element, before, after, head⟩ :=
        layout_of_firstElement? root soundLast.atMostOne
      refine ⟨layout, ⟨?_, element, before, after⟩, ?_, ?_⟩
      · rw [same]
        exact soundLast.outside
      · rw [same, ← written_tokens_of_scan complete]
        simpa [writtenTo] using whole
      · rw [Nat.zero_add] at head
        exact nodes_singleton_of_head? element head
  · rintro ⟨layout, sound, whole, shown⟩
    exact parse_of_layout sound whole shown

end PomLens.Markup
