/-
This file proves that what a report says so far does not depend on what follows.

A reader goes from line to line. A line that cannot be read ends the reading, with an error that
names this line (`Reader.line_of_readLine`). A line that is read leaves the nodes before it as they
are, except that one of them may get one more child, and the new node stands on that line
(`Reader.Upright.begins_readLine`). So the first line that cannot be read decides the error, and
the first lines of a report are read to the beginning of its forest (`Forest.parse_decided`).
-/

import PomLens.Proofs.Report.Reading

namespace PomLens.Report

/-! ### The line of an error -/

/-- The line that an error names. -/
def ReportError.line : ReportError → Nat
  | .indentation line _ => line
  | .orphan line _ => line
  | .coordinate line _ => line
  | .misplacedHeader line => line
  | .missingEffectiveVersion line => line

theorem Notes.line_of_omission {notes : Notes} {line : Nat} {version : String}
    {error : ReportError} (failed : notes.omission line version = .error error) :
    error.line = line := by
  rw [Notes.omission] at failed
  split at failed
  · cases failed
  · cases failed
    rfl
  · cases failed

theorem Entry.line_of_parse {line : Nat} {body : List Char} {error : ReportError}
    (failed : Entry.parse line body = .error error) : error.line = line := by
  unfold Entry.parse at failed
  simp only at failed
  split at failed
  -- With five or six fields only the notes can fail.
  iterate 2
    rcases cases_of_bind_eq_error failed with none | ⟨fields, -, failed⟩
    · cases none
    · rcases cases_of_bind_eq_error failed with unnamed | ⟨omission, -, none⟩
      · exact Notes.line_of_omission unnamed
      · cases none
  · rcases cases_of_bind_eq_error failed with invalid | ⟨fields, none, -⟩
    · cases invalid
      rfl
    · cases none

namespace Reader

theorem line_of_readEntry {reader : Reader} {line level : Nat} {body : List Char}
    {error : ReportError} (failed : reader.readEntry line level body = .error error) :
    error.line = line := by
  rw [readEntry] at failed
  split at failed
  · cases failed
    rfl
  · simp only at failed
    split at failed
    · cases failed
      rfl
    · rcases cases_of_bind_eq_error failed with invalid | ⟨entry, -, none⟩
      · exact Entry.line_of_parse invalid
      · cases none

/-- A line that cannot be read is the one that the error names. -/
theorem line_of_readLine {reader : Reader} {raw : List Char} {line : Nat} {error : ReportError}
    (failed : reader.readLine raw line = .error error) : error.line = line := by
  unfold readLine at failed
  simp only at failed
  split at failed
  · cases failed
  · split at failed
    · cases failed
      rfl
    · split at failed
      · exact line_of_readEntry failed
      · split at failed
        · cases failed
          rfl
        · cases failed

/-! ### Stopping and going on -/

/-- Reading fails at one line, behind lines that are read. -/
theorem exists_of_readLines_eq_error {reader : Reader} {line : Nat} {rows : List (List Char)}
    {error : ReportError} (failed : reader.readLines line rows = .error error) :
    ∃ early raw late next, rows = early ++ raw :: late ∧
      reader.readLines line early = .ok next ∧
      next.readLine raw (line + early.length) = .error error := by
  induction rows generalizing reader line with
  | nil => cases failed
  | cons raw rest inductionHypothesis =>
    rcases cases_of_bind_eq_error failed with here | ⟨between, one, others⟩
    · exact ⟨[], raw, rest, reader, rfl, rfl, here⟩
    · obtain ⟨early, bad, late, next, rfl, read, there⟩ := inductionHypothesis others
      refine ⟨raw :: early, bad, late, next, rfl, ?_, ?_⟩
      · rw [readLines, one]
        exact read
      · rw [List.length_cons, Nat.add_comm early.length, ← Nat.add_assoc]
        exact there

/-- A line that cannot be read hides what is behind it. -/
theorem readLines_of_error {reader next : Reader} {line : Nat} {early : List (List Char)}
    {raw : List Char} {error : ReportError} (read : reader.readLines line early = .ok next)
    (failed : next.readLine raw (line + early.length) = .error error) (late : List (List Char)) :
    reader.readLines line (early ++ raw :: late) = .error error := by
  rw [readLines_append read, readLines, failed]
  rfl

/-- Lines that are read are so one part after the other. -/
theorem exists_of_readLines_append {reader last : Reader} {line : Nat}
    {first second : List (List Char)} (read : reader.readLines line (first ++ second) = .ok last) :
    ∃ next, reader.readLines line first = .ok next ∧
      next.readLines (line + first.length) second = .ok last := by
  cases begins : reader.readLines line first with
  | ok next =>
    rw [readLines_append begins] at read
    exact ⟨next, rfl, read⟩
  | error failure =>
    obtain ⟨early, raw, late, next, rfl, before, failed⟩ := exists_of_readLines_eq_error begins
    rw [List.append_assoc, List.cons_append, readLines_of_error before failed] at read
    cases read

end Reader

/-! ### Nodes that stay -/

namespace Forest

/-- A forest is the beginning of another one, whose further nodes stand on the line `line` or
behind it. A node may get further children. -/
structure Begins (first : Forest) (line : Nat) (whole : Forest) : Prop where
  nodes : ∀ (index : Nat) (node : Node), first.nodes[index]? = some node →
    ∃ further, whole.nodes[index]? = some { node with children := node.children ++ further }
  roots : first.roots <+: whole.roots
  behind : ∀ (index : Nat) (node : Node), whole.nodes[index]? = some node → first.size ≤ index →
    line ≤ node.line

theorem begins_refl (forest : Forest) (line : Nat) : forest.Begins line forest where
  nodes _ node found := ⟨[], by rw [List.append_nil]; exact found⟩
  roots := List.prefix_refl _
  behind _ _ found beyond := absurd (lt_of_getElem? found) (Nat.not_lt.mpr beyond)

theorem Begins.trans {first second third : Forest} {line later : Nat}
    (begins : first.Begins line second) (goesOn : second.Begins later third)
    (inOrder : line ≤ later) : first.Begins line third where
  nodes index node found := by
    obtain ⟨some, isSecond⟩ := begins.nodes index node found
    obtain ⟨more, isThird⟩ := goesOn.nodes index _ isSecond
    exact ⟨some ++ more, by rw [isThird, List.append_assoc]⟩
  roots := begins.roots.trans goesOn.roots
  behind index node found beyond := by
    by_cases old : index < second.size
    · obtain ⟨before, isSecond⟩ := exists_getElem? old
      obtain ⟨more, isThird⟩ := goesOn.nodes index before isSecond
      obtain rfl := Option.some.inj (isThird.symm.trans found)
      exact begins.behind index before isSecond beyond
    · exact Nat.le_trans inOrder (goesOn.behind index node found (Nat.le_of_not_lt old))

theorem begins_add {forest : Forest} {parent : Option Nat}
    (inside : ∀ above, parent = some above → above < forest.size) (line depth : Nat)
    (entry : Entry) : forest.Begins line (forest.add parent line depth entry) where
  nodes index node found := by
    rw [getElem?_add inside, if_neg (Nat.ne_of_lt (lt_of_getElem? found)), found, Option.map_some]
    split
    · exact ⟨[forest.size], rfl⟩
    · exact ⟨[], by rw [List.append_nil]⟩
  roots := by
    rw [roots_add]
    split
    · exact List.prefix_append _ _
    · exact List.prefix_refl _
  behind index node found beyond := by
    rcases getElem?_add_cases inside found with ⟨-, rfl⟩ | ⟨old, children, isOld, rfl⟩
    · exact Nat.le_refl _
    · exact absurd (lt_of_getElem? isOld) (Nat.not_lt.mpr beyond)

@[simp] theorem header_add (forest : Forest) (parent : Option Nat) (line depth : Nat)
    (entry : Entry) : (forest.add parent line depth entry).header = forest.header := by
  cases parent <;> rfl

end Forest

namespace Reader.Upright

variable {reader : Reader} {line : Nat} (upright : reader.Upright line)

include upright

theorem begins_readLine {raw : List Char} {next : Reader}
    (read : reader.readLine raw line = .ok next) : reader.forest.Begins line next.forest := by
  rcases readLine_cases read with
    rfl | ⟨header, -, rfl⟩ | ⟨depth, body, entry, -, -, rfl⟩
  · exact next.forest.begins_refl line
  · have same := reader.forest.begins_refl line
    exact ⟨same.nodes, same.roots, same.behind⟩
  · exact Forest.begins_add (fun above isParent => upright.inside above
      (List.mem_of_mem_drop (List.mem_of_head? isParent))) line depth entry

/-- Reading on leaves the forest as it is, up to further nodes and children. -/
theorem begins_readLines {rows : List (List Char)} {last : Reader}
    (read : reader.readLines line rows = .ok last) : reader.forest.Begins line last.forest := by
  induction rows generalizing reader line with
  | nil =>
    cases read
    exact last.forest.begins_refl line
  | cons raw rest inductionHypothesis =>
    obtain ⟨next, one, others⟩ := exists_of_bind_eq_ok read
    exact (upright.begins_readLine one).trans
      (inductionHypothesis (upright.readLine one) others) (Nat.le_succ line)

end Reader.Upright

/-! ### The project -/

/-- The project that a line names, if it does. -/
def Header.ofLine? (raw : List Char) : Option Header :=
  let bare := bareLine raw
  if bare.dropWhile isConnector = bare then Header.parse? bare else none

theorem Header.parse?_of_blank {text : List Char} (blank : Text.blank text = true) :
    Header.parse? text = none := by
  cases text with
  | nil => rfl
  | cons char rest =>
    have someBlank : (char :: rest).any Text.isBlank = true :=
      List.any_eq_true.mpr
        ⟨char, List.mem_cons_self, List.all_eq_true.mp blank _ List.mem_cons_self⟩
    rw [Header.parse?, if_pos someBlank]

theorem Header.ofLine?_of_blank {raw : List Char} (blank : Text.blank (bareLine raw) = true) :
    Header.ofLine? raw = none := by
  rw [ofLine?]
  split
  · exact Header.parse?_of_blank blank
  · rfl

/-- A project stands on the first level, where there are no connectors. -/
theorem Header.parse?_eq_ofLine? {raw : List Char} {width : Nat}
    (isWidth : Text.size (bareLine raw) - Text.size ((bareLine raw).dropWhile isConnector) = width)
    (whole : width % levelWidth = 0) :
    (if width / levelWidth = 0 then Header.parse? ((bareLine raw).dropWhile isConnector)
      else none) = Header.ofLine? raw := by
  have sizes := congrArg Text.size
    (List.takeWhile_append_dropWhile (p := isConnector) (l := bareLine raw))
  rw [Text.size_append] at sizes
  have noWidth : width / levelWidth = 0 ↔ (bareLine raw).dropWhile isConnector = bareLine raw := by
    rw [levelWidth] at whole ⊢
    constructor
    · intro onFirst
      have none : Text.size ((bareLine raw).takeWhile isConnector) = 0 := by omega
      have split := List.takeWhile_append_dropWhile (p := isConnector) (l := bareLine raw)
      rwa [Text.size_eq_zero_iff.mp none, List.nil_append] at split
    · intro same
      rw [same] at isWidth
      omega
  rw [ofLine?]
  by_cases same : (bareLine raw).dropWhile isConnector = bareLine raw
  · rw [if_pos (noWidth.mpr same), if_pos same, same]
  · rw [if_neg (fun onFirst => same (noWidth.mp onFirst)), if_neg same]

namespace Reader

/-- What a reader knows of the project is what the lines that it has read say. -/
structure Named (reader : Reader) (rows : List (List Char)) : Prop where
  header : reader.forest.header = rows.findSome? Header.ofLine?
  fresh : reader.started = false → rows.findSome? Header.ofLine? = none

variable {reader next : Reader} {rows : List (List Char)} {raw : List Char} {line : Nat}

theorem Named.readLine (named : reader.Named rows) (read : reader.readLine raw line = .ok next) :
    next.Named (rows ++ [raw]) := by
  have further : (rows ++ [raw]).findSome? Header.ofLine? =
      (rows.findSome? Header.ofLine?).or (Header.ofLine? raw) := by
    rw [List.findSome?_append, List.findSome?_singleton]
  unfold Reader.readLine at read
  simp only at read
  split at read
  · next blank =>
    cases read
    rw [Header.ofLine?_of_blank blank, Option.or_none] at further
    exact ⟨named.header.trans further.symm, fun isFresh => further.trans (named.fresh isFresh)⟩
  · split at read
    · cases read
    · next whole =>
      rw [Header.parse?_eq_ofLine? rfl (by simpa using whole)] at read
      split at read
      · next noHeader =>
        rw [noHeader, Option.or_none] at further
        rw [readEntry] at read
        split at read
        · cases read
        · simp only at read
          split at read
          · cases read
          · obtain ⟨entry, -, same⟩ := exists_of_bind_eq_ok read
            cases same
            refine ⟨?_, fun isFresh => by cases isFresh⟩
            rw [addEntry, Forest.header_add]
            exact named.header.trans further.symm
      · next header isHeader =>
        split at read
        · cases read
        · next isFresh =>
          cases read
          rw [named.fresh (by simpa using isFresh), Option.none_or, isHeader] at further
          exact ⟨further.symm, fun none => by cases none⟩

theorem Named.readLines {more : List (List Char)} (named : reader.Named rows)
    (read : reader.readLines line more = .ok next) : next.Named (rows ++ more) := by
  induction more generalizing reader rows line with
  | nil =>
    cases read
    rw [List.append_nil]
    exact named
  | cons raw rest inductionHypothesis =>
    obtain ⟨between, one, others⟩ := exists_of_bind_eq_ok read
    rw [List.append_cons]
    exact inductionHypothesis (named.readLine one) others

theorem named_start : start.Named [] :=
  ⟨rfl, fun _ => rfl⟩

end Reader

/-! ### Reports -/

theorem Forest.exists_reader {report : String} {forest : Forest}
    (parsed : Forest.parse report = .ok forest) :
    ∃ reader, Reader.start.readLines 1 (Text.lines report.toList) = .ok reader ∧
      reader.forest = forest := by
  obtain ⟨reader, read, same⟩ := exists_of_bind_eq_ok parsed
  exact ⟨reader, read, Except.ok.inj same⟩

theorem Forest.parse_eq_error_iff {report : String} {error : ReportError} :
    Forest.parse report = .error error ↔
      Reader.start.readLines 1 (Text.lines report.toList) = .error error := by
  refine ⟨fun failed => ?_, fun failed => ?_⟩
  · rcases cases_of_bind_eq_error failed with bad | ⟨reader, -, none⟩
    · exact bad
    · cases none
  · rw [Forest.parse, failed]
    rfl

/-- The error of a report is decided by the first line that cannot be read: the lines before can be
read, and those behind do not matter. -/
structure ReportError.Decides (error : ReportError) (report : String) : Prop where
  isLine : 0 < error.line ∧ error.line ≤ (Text.lines report.toList).length
  before : ∀ part : String,
    Text.lines part.toList = (Text.lines report.toList).take (error.line - 1) →
    ∃ forest, Forest.parse part = .ok forest
  behind : ∀ other : String,
    (Text.lines other.toList).take error.line = (Text.lines report.toList).take error.line →
    Forest.parse other = .error error

theorem ReportError.decides {report : String} {error : ReportError}
    (failed : Forest.parse report = .error error) : error.Decides report := by
  obtain ⟨early, raw, late, next, whole, read, bad⟩ :=
    Reader.exists_of_readLines_eq_error (Forest.parse_eq_error_iff.mp failed)
  have isLine : error.line = early.length + 1 :=
    (Reader.line_of_readLine bad).trans (Nat.add_comm ..)
  refine ⟨?_, fun part same => ?_, fun other same => ?_⟩
  · rw [whole, isLine, List.length_append, List.length_cons]
    omega
  · rw [isLine, Nat.add_sub_cancel, whole, List.take_left] at same
    refine ⟨next.forest, ?_⟩
    rw [Forest.parse, same, read]
    rfl
  · rw [isLine, whole, List.append_cons, List.take_left' (by simp)] at same
    have split := List.take_append_drop (early.length + 1) (Text.lines other.toList)
    rw [same, ← List.append_cons] at split
    rw [Forest.parse_eq_error_iff, ← split]
    exact Reader.readLines_of_error read bad _

/-- A report that cannot be read fails at its first bad line, whatever stands behind it. The first
lines of a report that can be read are read to the beginning of its forest, with the project if one
of them names it. -/
theorem Forest.parse_decided (report : String) :
    (∀ error, Forest.parse report = .error error → error.Decides report) ∧
    ∀ forest, Forest.parse report = .ok forest → ∀ (count : Nat) (part : String),
      Text.lines part.toList = (Text.lines report.toList).take count →
      ∃ first, Forest.parse part = .ok first ∧ first.Begins (count + 1) forest ∧
        (first.header = forest.header ∨
          first.header = none ∧ ∀ raw ∈ Text.lines part.toList, Header.ofLine? raw = none) := by
  refine ⟨fun error => ReportError.decides, fun forest parsed count part same => ?_⟩
  obtain ⟨last, read, rfl⟩ := exists_reader parsed
  have named := Reader.named_start.readLines read
  rw [← List.take_append_drop count (Text.lines report.toList), ← same] at read
  obtain ⟨next, readPart, others⟩ := Reader.exists_of_readLines_append read
  have namedPart := Reader.named_start.readLines readPart
  refine ⟨next.forest, ?_, ?_, ?_⟩
  · rw [Forest.parse, readPart]
    rfl
  · by_cases isInside : count ≤ (Text.lines report.toList).length
    · have length : (Text.lines part.toList).length = count := by
        rw [same, List.length_take, Nat.min_eq_left isInside]
      have begins := (Reader.upright_start.after readPart).begins_readLines others
      rwa [length, Nat.add_comm] at begins
    · rw [List.drop_of_length_le (Nat.le_of_not_le isInside)] at others
      cases others
      exact last.forest.begins_refl _
  · rw [namedPart.header, named.header, List.nil_append, List.nil_append,
      ← List.take_append_drop count (Text.lines report.toList), ← same, List.findSome?_append]
    cases isNamed : (Text.lines part.toList).findSome? Header.ofLine? with
    | none => exact Or.inr ⟨rfl, List.findSome?_eq_none_iff.mp isNamed⟩
    | some header => exact Or.inl rfl

/-- A node that is too deep stands behind a report that can be read, and more behind it. -/
theorem Forest.parse_decided_tooDeep :
    let good := "g:p:pom:1\n+- g:a:jar:1:test\n|  \\- g:b:jar:1:test\n"
    let bad := good ++ "         +- g:c:jar:1:test\n"
    let error : ReportError := .orphan 4 3
    Forest.parse bad = .error error ∧ Forest.parse (bad ++ "none") = .error error ∧
      ∃ forest first, Forest.parse good = .ok forest ∧ forest.children 0 = [1] ∧
        Forest.parse (String.ofList (Text.firstLines 2 good.toList)) = .ok first ∧
        first.Begins 3 forest ∧ first.header = forest.header := by
  intro good bad error
  have failed : Forest.parse bad = .error error := by decide +kernel
  have decides := (parse_decided bad).1 error failed
  have read : (Forest.parse good).toOption.map (fun forest => forest.children 0) = some [1] := by
    decide +kernel
  obtain ⟨forest, isForest, isChild⟩ := Option.map_eq_some_iff.mp read
  rw [toOption_eq_some_iff] at isForest
  have same := Text.lines_firstLines 2 good.toList
  rw [← String.toList_ofList (l := Text.firstLines 2 good.toList)] at same
  obtain ⟨first, parsed, begins, sameHeader | ⟨-, unnamed⟩⟩ :=
    (parse_decided good).2 forest isForest 2 _ same
  · exact ⟨failed, decides.behind _ (by decide +kernel), forest, first, isForest, isChild, parsed,
      begins, sameHeader⟩
  · have isHeader : (Header.ofLine? "g:p:pom:1".toList).isSome = true := by decide +kernel
    rw [unnamed _ (by decide +kernel)] at isHeader
    cases isHeader

end PomLens.Report
