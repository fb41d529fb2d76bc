/-
This file reads nodes back from the pieces they were made of.

Nodes are spans and trimmed data, so what they say depends on the source. If the pieces stand in
the source where their nodes were made, every reader of nodes can be turned into a reader of
pieces: the text of an element (`text?_node`), and with `filterMap_nodes` whatever is read of
its child elements. An element among the nodes is found among the pieces in the same place
(`split_nodes`).
-/

import PomLens.Proofs.Markup.Building

namespace PomLens

/-! ### Stretches of a source -/

namespace Text

/-- The source has these characters from an offset on. -/
def StandsAt (source : List Char) (offset : Nat) (chars : List Char) : Prop :=
  ∃ before after, source = before ++ (chars ++ after) ∧ size before = offset

theorem StandsAt.left {source first second : List Char} {offset : Nat}
    (stands : StandsAt source offset (first ++ second)) : StandsAt source offset first := by
  obtain ⟨before, after, whole, bytes⟩ := stands
  exact ⟨before, second ++ after, by simp [whole], bytes⟩

theorem StandsAt.right {source first second : List Char} {offset : Nat}
    (stands : StandsAt source offset (first ++ second)) :
    StandsAt source (offset + size first) second := by
  obtain ⟨before, after, whole, bytes⟩ := stands
  exact ⟨before ++ first, after, by simp [whole], by simp [bytes]⟩

theorem StandsAt.slice? {source chars : List Char} {offset : Nat}
    (stands : StandsAt source offset chars) :
    (Span.between offset (offset + size chars)).slice? source = some chars := by
  obtain ⟨before, after, whole, bytes⟩ := stands
  have first : cut? offset source = some (before, chars ++ after) :=
    cut?_eq_some_iff.mpr ⟨whole, bytes⟩
  have second : cut? (size chars) (chars ++ after) = some (chars, after) :=
    cut?_eq_some_iff.mpr ⟨rfl, rfl⟩
  have start : (Span.between offset (offset + size chars)).start = offset := rfl
  have length : (Span.between offset (offset + size chars)).length = size chars := by
    simp [Span.between, Span.length]
  rw [Span.slice?, start, length, first]
  simp [second]

/-- The characters of a text that are not blank. -/
def letters (text : List Char) : List Char :=
  text.filter fun char => !isBlank char

@[simp] theorem letters_nil : letters [] = [] := rfl

@[simp] theorem letters_append (first second : List Char) :
    letters (first ++ second) = letters first ++ letters second :=
  List.filter_append ..

theorem letters_eq_nil_iff {text : List Char} : letters text = [] ↔ blank text := by
  simp [letters, blank, List.filter_eq_nil_iff]

theorem letters_dropWhile (text : List Char) : letters (text.dropWhile isBlank) = letters text := by
  induction text with
  | nil => rfl
  | cons char rest inductionHypothesis =>
    by_cases isBlank : isBlank char
    · rw [List.dropWhile_cons_of_pos isBlank, inductionHypothesis]
      simp [letters, isBlank]
    · rw [List.dropWhile_cons_of_neg isBlank]

theorem letters_reverse (text : List Char) : letters text.reverse = (letters text).reverse :=
  List.filter_reverse ..

/-- Trimming takes blanks away and nothing else. -/
theorem letters_trim (text : List Char) : letters (trim text) = letters text := by
  rw [trim, trimEnd, dropEndWhile, letters_reverse, letters_dropWhile, letters_reverse,
    List.reverse_reverse, trimStart, letters_dropWhile]

end Text

namespace Markup

open Text (StandsAt)

/-! ### Runs of data -/

theorem ofSpan_eq {source run : List Char} {offset : Nat} (stands : StandsAt source offset run)
    (range : Span) :
    (TextRun.ofSpan source range (.between offset (offset + Text.size run))).value =
        String.ofList (Text.trim run) ∧
      (TextRun.ofSpan source range (.between offset (offset + Text.size run))).body.isEmpty =
        (Text.trim run).isEmpty := by
  simp only [TextRun.ofSpan, stands.slice?, true_and]
  rw [Bool.eq_iff_iff]
  simp [Span.isEmpty, Span.between, Text.size_eq_zero_iff]

namespace Piece

theorem size_literalStart : Text.size literalStart = literalStart.length := by decide

/-- The content of a literal section stands where its node looks for it, in front of the
brackets that end it. -/
theorem literalNode_eq {source content : List Char} {offset : Nat}
    (stands : StandsAt source offset (Token.literal content).written) :
    ∃ range place, literalNode source offset content =
        .text (.ofSpan source range (.between place (place + Text.size content))) ∧
      StandsAt source place (content ++ "]]>".toList) := by
  have start : StandsAt source (offset + Text.size ('<' :: literalStart))
      (content ++ "]]>".toList) := StandsAt.right (by simpa [Token.written] using stands)
  have bracket : ('<' : Char).utf8Size = 1 := by decide
  have ending : Text.size "]]>".toList = 3 := by decide
  have close : ("]]>" : String).length = 3 := by decide
  have place : offset + Text.size ('<' :: literalStart) = offset + 1 + literalStart.length := by
    rw [Text.size_cons, size_literalStart, bracket, Nat.add_assoc]
  rw [place] at start
  refine ⟨.between offset (offset + Text.size (Token.literal content).written),
    offset + 1 + literalStart.length, ?_, start⟩
  have stop : offset + Text.size (Token.literal content).written - ("]]>" : String).length =
      offset + 1 + literalStart.length + Text.size content := by
    simp only [Token.written, List.cons_append, Text.size_cons, Text.size_append,
      size_literalStart, bracket, ending, close]
    omega
  rw [literalNode, stop]

/-- The text of a run of data, if it is not blank. -/
def runText? (run : List Char) : Option String :=
  if Text.trim run = [] then none else some (String.ofList (Text.trim run))

/-- The first text among pieces before which the data in `run` stand. -/
def textFrom? (run : List Char) : List Piece → Option String
  | [] => runText? run
  | .char one :: rest => textFrom? (run ++ [one]) rest
  | .literal content :: rest => (runText? run <|> runText? content) <|> textFrom? [] rest
  | .aside _ :: rest | .single _ :: rest | .pair .. :: rest =>
    runText? run <|> textFrom? [] rest

theorem run?_ofSpan {source run : List Char} {offset : Nat} (stands : StandsAt source offset run)
    (range : Span) :
    ((Node.text (.ofSpan source range (.between offset (offset + Text.size run)))).run?).map
      TextRun.value = runText? run := by
  obtain ⟨value, body⟩ := ofSpan_eq stands range
  rw [Node.run?, body, runText?]
  by_cases empty : Text.trim run = []
  · simp [empty]
  · simp [empty, value]

/-- The first text of some nodes. -/
def firstText? (nodes : List Node) : Option String :=
  (nodes.findSome? Node.run?).map TextRun.value

@[simp] theorem firstText?_append (first second : List Node) :
    firstText? (first ++ second) = (firstText? first <|> firstText? second) := by
  simp only [firstText?, List.findSome?_append]
  cases first.findSome? Node.run? <;> simp

theorem firstText?_cons (node : Node) (rest : List Node) :
    firstText? (node :: rest) = (node.run?.map TextRun.value <|> firstText? rest) := by
  simp only [firstText?, List.findSome?_cons]
  cases node.run? <;> simp

theorem firstText?_dataNodes {source run : List Char} {start : Nat}
    (stands : StandsAt source start run) :
    firstText? (dataNodes source start (start + Text.size run)) = runText? run := by
  by_cases empty : run = []
  · subst empty
    simp [dataNodes, firstText?, runText?, Text.trim, Text.trimStart, Text.trimEnd,
      Text.dropEndWhile]
  · have longer : start ≠ start + Text.size run := by
      have := mt Text.size_eq_zero_iff.mp empty
      omega
    rw [dataNodes, if_neg longer, firstText?_cons, run?_ofSpan stands]
    simp [firstText?]

/-- The first text of the nodes is that of the pieces. -/
theorem firstText?_nodes {source run : List Char} {start : Nat} {pieces : List Piece}
    (stands : StandsAt source start (run ++ written pieces)) :
    firstText? (nodes source start (start + Text.size run) pieces) = textFrom? run pieces := by
  induction pieces using stretchInduction generalizing start run with
  | nil => simpa [nodes, textFrom?] using firstText?_dataNodes stands.left
  | char one rest inductionHypothesis =>
    have longer : StandsAt source start ((run ++ [one]) ++ written rest) := by
      simpa [written] using stands
    simpa [nodes, textFrom?, Nat.add_assoc] using inductionHypothesis longer
  | literal content rest inductionHypothesis =>
    rw [written] at stands
    obtain ⟨range, place, node, inPlace⟩ := literalNode_eq stands.right.left
    have behind := @inductionHypothesis [] _ stands.right.right
    rw [nodes, firstText?_append, firstText?_cons, firstText?_dataNodes stands.left, node,
      run?_ofSpan inPlace.left, textFrom?]
    rw [Text.size_nil, Nat.add_zero] at behind
    rw [behind]
    cases runText? run <;> simp
  | aside text rest inductionHypothesis =>
    rw [written] at stands
    have behind := @inductionHypothesis [] _ stands.right.right
    rw [Text.size_nil, Nat.add_zero] at behind
    rw [nodes, firstText?_append, firstText?_dataNodes stands.left, behind, textFrom?]
  | single body rest inductionHypothesis =>
    rw [written] at stands
    have behind := @inductionHypothesis [] _ stands.right.right
    rw [Text.size_nil, Nat.add_zero] at behind
    rw [nodes, firstText?_append, firstText?_cons, firstText?_dataNodes stands.left, behind,
      textFrom?]
    simp [Node.run?]
  | pair opening inside closing rest _ inductionHypothesis =>
    rw [written, List.append_assoc, List.append_assoc] at stands
    have behind := @inductionHypothesis [] _ stands.right.right.right.right
    rw [Text.size_nil, Nat.add_zero] at behind
    rw [nodes, firstText?_append, firstText?_cons, firstText?_dataNodes stands.left, textFrom?]
    simp only [innerStart, behind]
    simp [Node.run?]

/-! ### Elements -/

/-- The text of an element. -/
def text? (piece : Piece) : Option String :=
  textFrom? [] piece.inside

/-- The node of an element that starts at an offset. -/
def IsNodeAt (source : List Char) (offset : Nat) (piece : Piece) (node : Node) : Prop :=
  piece.isElement = true ∧ nodes source offset offset [piece] = [node]

theorem IsNodeAt.name? {source : List Char} {offset : Nat} {piece : Piece} {node : Node}
    (isNode : IsNodeAt source offset piece node) : node.name? = piece.name? := by
  obtain ⟨element, shown⟩ := isNode
  cases piece <;> simp [isElement, nodes] at element shown <;> subst shown <;> rfl

/-- The nodes inside an element are those of the pieces inside it, and stand where these do. -/
theorem IsNodeAt.children {source : List Char} {offset : Nat} {piece : Piece} {node : Node}
    (isNode : IsNodeAt source offset piece node)
    (stands : StandsAt source offset (written [piece])) :
    ∃ inner, node.children = nodes source inner inner piece.inside ∧
      StandsAt source inner (written piece.inside) := by
  obtain ⟨element, shown⟩ := isNode
  cases piece with
  | char one => simp [isElement] at element
  | literal content => simp [isElement] at element
  | aside text => simp [isElement] at element
  | single body =>
    simp only [nodes, dataNodes_self, List.nil_append, List.cons.injEq, and_true] at shown
    subst shown
    refine ⟨offset, by simp [Node.children, inside, nodes], ?_⟩
    have whole : StandsAt source offset (written [] ++ written [.single body]) := by
      simpa using stands
    exact whole.left
  | pair opening within closing =>
    simp only [nodes, dataNodes_self, List.nil_append, List.cons.injEq, and_true] at shown
    subst shown
    refine ⟨innerStart offset opening, rfl, ?_⟩
    rw [written, List.append_assoc, List.append_assoc] at stands
    exact stands.right.left

/-- The text of a node is that of the piece it was made of. -/
theorem IsNodeAt.text? {source : List Char} {offset : Nat} {piece : Piece} {node : Node}
    (isNode : IsNodeAt source offset piece node)
    (stands : StandsAt source offset (written [piece])) : node.text? = piece.text? := by
  obtain ⟨inner, children, inPlace⟩ := isNode.children stands
  have shown := @firstText?_nodes source [] _ _ inPlace
  rw [Text.size_nil, Nat.add_zero, ← children] at shown
  obtain ⟨tag, more, rfl⟩ : ∃ tag more, node = .element tag more := by
    obtain ⟨element, made⟩ := isNode
    cases piece <;> simp [isElement, nodes] at element made <;> exact ⟨_, _, made.symm⟩
  exact shown

theorem exists_isNodeAt (source : List Char) (offset : Nat) {piece : Piece}
    (element : piece.isElement = true) : ∃ node, IsNodeAt source offset piece node := by
  cases piece with
  | single body => exact ⟨_, rfl, by rw [nodes, dataNodes_self, nodes, dataNodes_self]; rfl⟩
  | pair opening within closing =>
    exact ⟨_, rfl, by rw [nodes, dataNodes_self, nodes, dataNodes_self]; rfl⟩
  | _ => simp [isElement] at element

theorem isText_of_mem_dataNodes {source : List Char} {start offset : Nat} {node : Node}
    (member : node ∈ dataNodes source start offset) : node.isText = true := by
  unfold dataNodes at member
  split at member
  · simp at member
  · rw [List.mem_singleton.mp member]
    rfl

/-- Pieces that are no elements have nodes that are none. -/
theorem isText_of_mem_nodes {source : List Char} {offset : Nat} {piece : Piece} {node : Node}
    (noElement : ¬ piece.isElement = true) (member : node ∈ nodes source offset offset [piece]) :
    node.isText = true := by
  cases piece with
  | char one => exact isText_of_mem_dataNodes (by simpa [nodes] using member)
  | literal content =>
    simp only [nodes, dataNodes_self, List.nil_append, List.mem_singleton] at member
    rw [member]
    rfl
  | aside text => simp [nodes] at member
  | _ => simp [isElement] at noElement

/-- One piece more gives at most some texts more, and its own node if it is an element. -/
theorem nodes_cons (source : List Char) (start offset : Nat) (piece : Piece) (rest : List Piece) :
    ∃ texts start', (∀ node ∈ texts, node.isText = true) ∧
      nodes source start offset (piece :: rest) =
        texts ++ ((if piece.isElement then nodes source offset offset [piece] else []) ++
          nodes source start' (offset + Text.size (written [piece])) rest) := by
  by_cases markup : piece.isMarkup = true
  · by_cases element : piece.isElement = true
    · refine ⟨dataNodes source start offset, offset + Text.size (written [piece]),
        fun _ => isText_of_mem_dataNodes, ?_⟩
      rw [nodes_cons_of_isMarkup source start offset markup, if_pos element]
    · refine ⟨dataNodes source start offset ++ nodes source offset offset [piece],
        offset + Text.size (written [piece]), ?_, ?_⟩
      · intro node member
        rcases List.mem_append.mp member with before | own
        · exact isText_of_mem_dataNodes before
        · exact isText_of_mem_nodes element own
      · rw [nodes_cons_of_isMarkup source start offset markup, if_neg element]
        simp
  · obtain ⟨one, rfl⟩ : ∃ one, piece = .char one := by
      cases piece <;> simp_all [isMarkup]
    exact ⟨[], start, by simp, by simp [nodes, isElement, written]⟩

/-- What is read of texts is nothing, so whatever is read of the elements among nodes can be read
of the pieces. -/
theorem filterMap_nodes {β : Type} {source : List Char} {read : Node → Option β}
    {readPiece : Piece → Option β} (noText : ∀ node, node.isText = true → read node = none)
    (noPiece : ∀ piece, piece.isElement = false → readPiece piece = none)
    (same : ∀ {offset piece node}, IsNodeAt source offset piece node →
      StandsAt source offset (written [piece]) → read node = readPiece piece)
    {start offset : Nat} {pieces : List Piece} (stands : StandsAt source offset (written pieces)) :
    (nodes source start offset pieces).filterMap read = pieces.filterMap readPiece := by
  induction pieces generalizing start offset with
  | nil =>
    rw [nodes, List.filterMap_nil]
    exact List.filterMap_eq_nil_iff.mpr fun node member =>
      noText node (isText_of_mem_dataNodes member)
  | cons piece rest inductionHypothesis =>
    rw [written_cons] at stands
    obtain ⟨texts, start', areTexts, shown⟩ := nodes_cons source start offset piece rest
    have nothing : texts.filterMap read = [] :=
      List.filterMap_eq_nil_iff.mpr fun node member => noText node (areTexts node member)
    rw [shown, List.filterMap_append, List.filterMap_append, nothing, List.nil_append,
      inductionHypothesis stands.right, List.filterMap_cons]
    by_cases element : piece.isElement = true
    · obtain ⟨node, isNode⟩ := exists_isNodeAt source offset element
      rw [if_pos element, isNode.2, ← same isNode stands.left, List.filterMap_cons]
      cases read node <;> rfl
    · rw [if_neg element, noPiece piece (by simpa using element)]
      rfl

/-! ### The first that is picked -/

section

variable {α : Type}

theorem find?_eq_none_of {pick : α → Bool} {list : List α}
    (others : ∀ other ∈ list, pick other = false) : list.find? pick = none :=
  List.find?_eq_none.mpr fun other member => by simp [others other member]

theorem find?_append_cons_of {pick : α → Bool} {first : List α} {found : α}
    (before : ∀ other ∈ first, pick other = false) (picked : pick found = true) (rest : List α) :
    (first ++ found :: rest).find? pick = some found := by
  rw [List.find?_append, find?_eq_none_of before, Option.none_or, List.find?_cons_of_pos picked]

end

/-- What stands in the middle of a text stands behind the pieces before it. -/
theorem standsAt_around {source : List Char} {offset : Nat} {first rest : List Piece}
    {piece : Piece} (stands : StandsAt source offset (written (first ++ piece :: rest))) :
    StandsAt source offset (written first) ∧
      StandsAt source (offset + Text.size (written first)) (written [piece]) ∧
      StandsAt source (offset + Text.size (written (first ++ [piece]))) (written rest) := by
  rw [written_append, written_cons piece rest] at stands
  refine ⟨stands.left, stands.right.left, ?_⟩
  rw [written_append, Text.size_append, ← Nat.add_assoc]
  exact stands.right.right

/-- A choice among nodes that can be made among the pieces they were made of. -/
structure Picks (pick : Node → Bool) (pickPiece : Piece → Bool) : Prop where
  noText : ∀ node, node.isText = true → pick node = false
  noPiece : ∀ piece, piece.isElement = false → pickPiece piece = false
  same : ∀ {source offset piece node}, IsNodeAt source offset piece node →
    StandsAt source offset (written [piece]) → pick node = pickPiece piece

/-- An element is found among the nodes where it is found among the pieces. -/
theorem Picks.find? {source : List Char} {pick : Node → Bool} {pickPiece : Piece → Bool}
    (picks : Picks pick pickPiece) (start : Nat) {offset : Nat} {pieces : List Piece}
    (stands : StandsAt source offset (written pieces)) :
    ((nodes source start offset pieces).find? pick = none ∧
        ∀ piece ∈ pieces, pickPiece piece = false) ∨
      ∃ first piece rest node, (nodes source start offset pieces).find? pick = some node ∧
        pieces = first ++ piece :: rest ∧ (∀ other ∈ first, pickPiece other = false) ∧
        pickPiece piece = true ∧
        IsNodeAt source (offset + Text.size (written first)) piece node := by
  induction pieces generalizing start offset with
  | nil =>
    refine Or.inl ⟨?_, by simp⟩
    rw [nodes]
    exact find?_eq_none_of fun node member => picks.noText node (isText_of_mem_dataNodes member)
  | cons piece rest inductionHypothesis =>
    rw [written_cons] at stands
    obtain ⟨texts, start', areTexts, shown⟩ := nodes_cons source start offset piece rest
    have nothing : texts.find? pick = none :=
      find?_eq_none_of fun node member => picks.noText node (areTexts node member)
    have later := inductionHypothesis start' stands.right
    rw [shown, List.find?_append, nothing, Option.none_or]
    by_cases picked : pickPiece piece = true
    · have element : piece.isElement = true := by
        by_contra other
        rw [picks.noPiece piece (by simpa using other)] at picked
        cases picked
      obtain ⟨node, isNode⟩ := exists_isNodeAt source offset element
      have found : pick node = true := by rw [picks.same isNode stands.left, picked]
      refine Or.inr ⟨[], piece, rest, node, ?_, rfl, by simp, picked, by simpa using isNode⟩
      rw [if_pos element, isNode.2, List.cons_append, List.find?_cons_of_pos found]
    · have passed : (if piece.isElement then nodes source offset offset [piece] else []).find? pick =
          none := by
        by_cases element : piece.isElement = true
        · obtain ⟨node, isNode⟩ := exists_isNodeAt source offset element
          rw [if_pos element, isNode.2, List.find?_cons_of_neg]
          · rfl
          · rw [picks.same isNode stands.left]
            exact picked
        · rw [if_neg element]
          rfl
      rw [List.find?_append, passed, Option.none_or]
      have notPicked : pickPiece piece = false := by simpa using picked
      rcases later with ⟨none, others⟩ | ⟨first, found, after, node, some, rfl, before, is, isNode⟩
      · exact Or.inl ⟨none, List.forall_mem_cons.mpr ⟨notPicked, others⟩⟩
      · refine Or.inr ⟨piece :: first, found, after, node, some, rfl,
          List.forall_mem_cons.mpr ⟨notPicked, before⟩, is, ?_⟩
        rw [written_cons piece first, Text.size_append, ← Nat.add_assoc]
        exact isNode

theorem Picks.none_of_nodes {source : List Char} {pick : Node → Bool} {pickPiece : Piece → Bool}
    (picks : Picks pick pickPiece) {start offset : Nat} {pieces : List Piece}
    (stands : StandsAt source offset (written pieces))
    (none : ∀ piece ∈ pieces, pickPiece piece = false) :
    ∀ node ∈ nodes source start offset pieces, pick node = false := by
  have notFound : (nodes source start offset pieces).find? pick = Option.none := by
    rcases picks.find? start stands with ⟨same, -⟩ | ⟨first, piece, rest, node, -, whole, -, picked, -⟩
    · exact same
    · rw [none piece (by simp [whole])] at picked
      cases picked
  intro node member
  simpa using List.find?_eq_none.mp notFound node member

/-- Around an element the nodes are those of the pieces before and behind it. -/
theorem nodes_around {source : List Char} (start : Nat) {offset : Nat} {first : List Piece}
    {piece : Piece} {node : Node}
    (isNode : IsNodeAt source (offset + Text.size (written first)) piece node)
    (rest : List Piece) :
    nodes source start offset (first ++ piece :: rest) =
      nodes source start offset first ++
        node :: nodes source (offset + Text.size (written (first ++ [piece])))
          (offset + Text.size (written (first ++ [piece]))) rest := by
  rw [nodes_append_cons source start offset first (isMarkup_of_isElement isNode.1), isNode.2]
  rfl

/-! ### Children by name -/

/-- The piece is an element of this name. -/
def isNamed (name : String) (piece : Piece) : Bool :=
  piece.name? == some name

theorem isNamed_iff {name : String} {piece : Piece} :
    isNamed name piece = true ↔ piece.name? = some name := by
  rw [isNamed, beq_iff_eq]

theorem isNamed_eq_false {name other : String} {piece : Piece} (named : piece.name? = some other)
    (different : other ≠ name) : isNamed name piece = false := by
  rw [isNamed, named]
  simpa using different

/-- The text of the first element of this name inside an element. -/
def childText? (piece : Piece) (name : String) : Option String :=
  piece.inside.find? (isNamed name) >>= text?

theorem Picks.named (name : String) :
    Picks (fun node => node.name? == some name) (isNamed name) := by
  refine ⟨fun node isText => ?_, fun piece noElement => ?_, fun isNode _ => ?_⟩
  · cases node with
    | text run => rfl
    | element tag children => cases isText
  · cases piece <;> simp_all [isElement, isNamed, Piece.name?]
  · rw [isNode.name?, isNamed]

/-- The first child that is picked is the node of the first piece inside that is picked. -/
theorem IsNodeAt.find? {source : List Char} {offset : Nat} {piece : Piece} {node : Node}
    (isNode : IsNodeAt source offset piece node)
    (stands : StandsAt source offset (written [piece])) {pick : Node → Bool}
    {pickPiece : Piece → Bool} (picks : Picks pick pickPiece) :
    (node.children.find? pick = none ∧ piece.inside.find? pickPiece = none) ∨
      ∃ place child childNode, node.children.find? pick = some childNode ∧
        piece.inside.find? pickPiece = some child ∧
        IsNodeAt source place child childNode ∧ StandsAt source place (written [child]) := by
  obtain ⟨inner, children, within⟩ := isNode.children stands
  rw [children]
  rcases picks.find? inner within with
    ⟨none, others⟩ | ⟨first, child, rest, childNode, some, whole, before, is, isNode⟩
  · exact Or.inl ⟨none, find?_eq_none_of others⟩
  · rw [whole] at within some ⊢
    exact Or.inr ⟨_, child, childNode, some, find?_append_cons_of before is rest, isNode,
      (standsAt_around within).2.1⟩

/-- The first child of a name is the node of the first element of that name inside. -/
theorem IsNodeAt.child? {source : List Char} {offset : Nat} {piece : Piece} {node : Node}
    (isNode : IsNodeAt source offset piece node)
    (stands : StandsAt source offset (written [piece])) (name : String) :
    (node.child? name = none ∧ piece.inside.find? (isNamed name) = none) ∨
      ∃ place child childNode, node.child? name = some childNode ∧
        piece.inside.find? (isNamed name) = some child ∧
        IsNodeAt source place child childNode ∧ StandsAt source place (written [child]) :=
  isNode.find? stands (Picks.named name)

/-- The text of a child is that of the piece it was made of. -/
theorem IsNodeAt.childText? {source : List Char} {offset : Nat} {piece : Piece} {node : Node}
    (isNode : IsNodeAt source offset piece node)
    (stands : StandsAt source offset (written [piece])) (name : String) :
    node.childText? name = piece.childText? name := by
  rw [Node.childText?, Piece.childText?]
  rcases isNode.child? stands name with
    ⟨noNode, noPiece⟩ | ⟨_, child, childNode, some, found, isChild, standsChild⟩
  · rw [noNode, noPiece]
    rfl
  · rw [some, found]
    exact isChild.text? standsChild

/-- What is read of the nodes that are picked can be read of the pieces. -/
theorem Picks.map_filter {β : Type} {source : List Char} {pick : Node → Bool}
    {pickPiece : Piece → Bool} (picks : Picks pick pickPiece) {read : Node → β}
    {readPiece : Piece → β}
    (same : ∀ {offset piece node}, IsNodeAt source offset piece node →
      StandsAt source offset (written [piece]) → read node = readPiece piece)
    {start offset : Nat} {pieces : List Piece} (stands : StandsAt source offset (written pieces)) :
    ((nodes source start offset pieces).filter pick).map read =
      (pieces.filter pickPiece).map readPiece := by
  rw [← List.filterMap_eq_filter, ← List.filterMap_eq_filter, List.map_filterMap,
    List.map_filterMap]
  refine filterMap_nodes (fun node isText => ?_) (fun piece noElement => ?_) ?_ stands
  · simp [Option.guard, picks.noText node isText]
  · simp [Option.guard, picks.noPiece piece noElement]
  · intro place piece node isNode standsPiece
    rw [Option.guard, Option.guard, picks.same isNode standsPiece]
    split
    · rw [Option.map_some, Option.map_some, same isNode standsPiece]
    · rfl

/-- What is read of the child elements of a name can be read of the pieces inside. -/
theorem IsNodeAt.map_elementsNamed {β : Type} {source : List Char} {offset : Nat} {piece : Piece}
    {node : Node} (isNode : IsNodeAt source offset piece node)
    (stands : StandsAt source offset (written [piece])) (name : String) {read : Node → β}
    {readPiece : Piece → β}
    (same : ∀ {offset piece node}, IsNodeAt source offset piece node →
      StandsAt source offset (written [piece]) → read node = readPiece piece) :
    (node.elementsNamed name).map read = (piece.inside.filter (isNamed name)).map readPiece := by
  obtain ⟨inner, children, within⟩ := isNode.children stands
  rw [Node.elementsNamed, children]
  exact (Picks.named name).map_filter same within

end Piece

end Markup

end PomLens
