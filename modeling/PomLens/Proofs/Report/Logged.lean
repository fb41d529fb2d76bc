/-
This file proves that what a log puts around a report does not matter.

A log marks lines, leaves blanks behind them, ends them in one way or the other, and lets blank
lines stand between them (`LogLine`). A reader looks at a line without its mark and the blanks at
its end, so it comes through a log as it comes through the report that the log tells, only that a
line has another number (`Reader.readLines_logged`). What is read is then the same up to these
numbers (`Forest.parse_logged`).
-/

import PomLens.Proofs.Outcome
import PomLens.Proofs.Report.Accounts
import PomLens.Proofs.Text.Cutting

namespace PomLens.Report

/-! ### Other numbers for the lines -/

section

variable (number : Nat → Nat)

/-- The same error on another line. -/
def ReportError.renumber : ReportError → ReportError
  | .indentation line width => .indentation (number line) width
  | .orphan line depth => .orphan (number line) depth
  | .coordinate line text => .coordinate (number line) text
  | .misplacedHeader line => .misplacedHeader (number line)
  | .missingEffectiveVersion line => .missingEffectiveVersion (number line)

def Node.renumber (node : Node) : Node :=
  { node with line := number node.line }

/-- The same forest with its nodes on other lines. -/
def Forest.renumber (forest : Forest) : Forest :=
  { forest with nodes := forest.nodes.map (Node.renumber number) }

def Reader.renumber (reader : Reader) : Reader :=
  { reader with forest := reader.forest.renumber number }

/-- What comes of reading when lines have other numbers. -/
def renumbered {α : Type} (change : α → α) : Except ReportError α → Except ReportError α
  | .error error => .error (error.renumber number)
  | .ok value => .ok (change value)

theorem renumbered_bind {α β : Type} (change : β → β) (first : Except ReportError α)
    (second : α → Except ReportError β) :
    renumbered number change (first >>= second) =
      renumbered number id first >>= fun value => renumbered number change (second value) := by
  cases first <;> rfl

theorem Notes.omission_renumber (notes : Notes) (line : Nat) (version : String) :
    notes.omission (number line) version = renumbered number id (notes.omission line version) := by
  rw [Notes.omission, Notes.omission]
  split <;> rfl

theorem Entry.parse_renumber (line : Nat) (body : List Char) :
    Entry.parse (number line) body = renumbered number id (Entry.parse line body) := by
  unfold Entry.parse
  simp only
  split
  all_goals
    rw [renumbered_bind]
    refine congrArg₂ (· >>= ·) rfl (funext fun fields => ?_)
    rw [renumbered_bind, Notes.omission_renumber]
    rfl

theorem Forest.size_renumber (forest : Forest) : (forest.renumber number).size = forest.size :=
  Array.size_map ..

theorem Forest.modify_renumber (nodes : Array Node) (above child : Nat) :
    (nodes.map (Node.renumber number)).modify above (fun node => node.withChild child) =
      (nodes.modify above fun node => node.withChild child).map (Node.renumber number) := by
  refine Array.ext_getElem? fun index => ?_
  rw [Array.getElem?_modify, Array.getElem?_map, Array.getElem?_map, Array.getElem?_modify]
  split <;> cases nodes[index]? <;> rfl

theorem Forest.add_renumber (forest : Forest) (parent : Option Nat) (line depth : Nat)
    (entry : Entry) : (forest.renumber number).add parent (number line) depth entry =
      (forest.add parent line depth entry).renumber number := by
  have root (above : Nat) : (forest.renumber number).nodes[above]?.map Node.root =
      forest.nodes[above]?.map Node.root := by
    rw [renumber, Array.getElem?_map, Option.map_map]
    rfl
  have pushed : (forest.renumber number).nodes.push
      ((forest.renumber number).newNode parent (number line) depth entry) =
        (forest.nodes.push (forest.newNode parent line depth entry)).map
          (Node.renumber number) := by
    rw [Array.map_push, newNode, newNode, size_renumber]
    simp only [root]
    rfl
  cases parent with
  | none => exact Forest.mk.injEq .. |>.mpr ⟨rfl, pushed, by rw [size_renumber]; rfl⟩
  | some above =>
    refine Forest.mk.injEq .. |>.mpr ⟨rfl, ?_, rfl⟩
    calc ((forest.renumber number).nodes.push
          ((forest.renumber number).newNode (some above) (number line) depth entry)).modify above
            (fun node => node.withChild (forest.renumber number).size)
        = ((forest.nodes.push (forest.newNode (some above) line depth entry)).map
            (Node.renumber number)).modify above (fun node => node.withChild forest.size) := by
          rw [pushed, size_renumber]
      _ = _ := modify_renumber number _ above forest.size

theorem Reader.renumber_start : Reader.start.renumber number = Reader.start := by
  simp [renumber, Forest.renumber, start, Forest.empty]

theorem Reader.addEntry_renumber (reader : Reader) (line depth : Nat) (entry : Entry) :
    (reader.renumber number).addEntry (number line) depth entry =
      (reader.addEntry line depth entry).renumber number := by
  have added := Forest.add_renumber number reader.forest (reader.openPath depth).head? line depth
    entry
  have path := congrArg (· :: reader.openPath depth) (reader.forest.size_renumber number)
  exact Reader.mk.injEq .. |>.mpr ⟨added, path, rfl, rfl⟩

theorem Reader.readEntry_renumber (reader : Reader) (line level : Nat) (body : List Char) :
    (reader.renumber number).readEntry (number line) level body =
      renumbered number (Reader.renumber number) (reader.readEntry line level body) := by
  have sameLevel : (reader.renumber number).rootLevel = reader.rootLevel := rfl
  have samePath : (reader.renumber number).path = reader.path := rfl
  rw [readEntry, readEntry, sameLevel]
  split
  · rfl
  · simp only [samePath]
    split
    · rfl
    · rw [renumbered_bind, Entry.parse_renumber]
      refine congrArg (renumbered number id _ >>= ·) (funext fun entry => ?_)
      exact congrArg Except.ok (reader.addEntry_renumber number line _ entry)

/-- A line is read in the same way under another number. -/
theorem Reader.readLine_renumber (reader : Reader) (raw : List Char) (line : Nat) :
    (reader.renumber number).readLine raw (number line) =
      renumbered number (Reader.renumber number) (reader.readLine raw line) := by
  unfold readLine
  simp only
  split
  · rfl
  · split
    · rfl
    · split
      · exact readEntry_renumber number { reader with started := true } line _ _
      · have same : (reader.renumber number).started = reader.started := rfl
        rw [same]
        split <;> rfl

end

/-! ### What a reader does not see -/

/-- Blanks at the end of a line are not seen, unless they make a mark of what is before them. -/
theorem bareLine_append {row tail : List Char} (blank : Text.blank tail = true)
    (unmarked : logMark <+: row ++ tail → logMark <+: row) :
    bareLine (row ++ tail) = bareLine row := by
  have trimmed (text : List Char) : Text.trimEnd (text ++ tail) = Text.trimEnd text :=
    Text.dropEndWhile_append (List.all_eq_true.mp blank) text
  rw [bareLine, bareLine]
  cases isMarked : Text.afterPrefix? logMark row with
  | some rest =>
    rw [Text.afterPrefix?_eq_some_iff] at isMarked
    have marked : Text.afterPrefix? logMark (row ++ tail) = some (rest ++ tail) := by
      rw [Text.afterPrefix?_eq_some_iff, isMarked, List.append_assoc]
    rw [marked]
    exact trimmed rest
  | none =>
    have notMarked : Text.afterPrefix? logMark (row ++ tail) = none := by
      refine Option.eq_none_iff_forall_ne_some.mpr fun rest isRest => ?_
      obtain ⟨before, same⟩ := unmarked ⟨rest, (Text.afterPrefix?_eq_some_iff.mp isRest).symm⟩
      rw [Text.afterPrefix?_eq_some_iff.mpr same.symm] at isMarked
      cases isMarked
    rw [notMarked]
    exact trimmed row

/-- The carriage return of an ending is not seen. -/
theorem bareLine_concat_return (row : List Char) : bareLine (row ++ ['\r']) = bareLine row := by
  refine bareLine_append (by decide) fun isMarked => ?_
  rcases List.prefix_concat_iff.mp isMarked with whole | before
  · have ends := congrArg List.getLast? whole
    rw [List.getLast?_concat] at ends
    cases ends
  · exact before

theorem bareLine_endedLine (row : List Char) : bareLine (Text.endedLine row) = bareLine row := by
  rw [Text.endedLine]
  split
  · next isReturn =>
    obtain ⟨before, rfl⟩ := List.getLast?_eq_some_iff.mp isReturn
    rw [List.dropLast_concat, bareLine_concat_return]
  · rfl

namespace Reader

/-- What a reader does with a line it decides by what it sees of it. -/
theorem readLine_congr {raw raw' : List Char} (same : bareLine raw = bareLine raw')
    (reader : Reader) (line : Nat) : reader.readLine raw line = reader.readLine raw' line := by
  unfold readLine
  rw [same]

theorem readLines_congr {rows rows' : List (List Char)}
    (same : rows.map bareLine = rows'.map bareLine) (reader : Reader) (line : Nat) :
    reader.readLines line rows = reader.readLines line rows' := by
  induction rows generalizing rows' reader line with
  | nil =>
    rw [List.map_nil, eq_comm, List.map_eq_nil_iff] at same
    rw [same]
  | cons raw rest inductionHypothesis =>
    obtain ⟨raw', rest', rfl, first, others⟩ := List.map_eq_cons_iff.mp same.symm
    rw [readLines, readLines, readLine_congr first.symm]
    exact congrArg (_ >>= ·) (funext fun next => inductionHypothesis others.symm next (line + 1))

theorem readLine_of_blank {raw : List Char} (blank : Text.blank (bareLine raw) = true)
    (reader : Reader) (line : Nat) : reader.readLine raw line = .ok reader := by
  unfold readLine
  simp only [blank, ↓reduceIte]
  rfl

/-- A line without anything may end a report. -/
theorem readLines_concat_nil (reader : Reader) (line : Nat) (rows : List (List Char)) :
    reader.readLines line (rows ++ [[]]) = reader.readLines line rows := by
  induction rows generalizing reader line with
  | nil =>
    have blank : Text.blank (bareLine []) = true := by decide
    exact congrArg (· >>= fun next => next.readLines (line + 1) [])
      (readLine_of_blank blank reader line)
  | cons raw rest inductionHypothesis =>
    rw [List.cons_append, readLines, readLines]
    exact congrArg (_ >>= ·) (funext fun next => inductionHypothesis next (line + 1))

/-- The endings of lines do not matter. -/
theorem readLines_lines (reader : Reader) (line : Nat) (text : List Char) :
    reader.readLines line (Text.lines text) =
      reader.readLines line (Text.splitOn (· == '\n') text) := by
  obtain ⟨ended, last, pieces, whole⟩ := Text.exists_lines_eq text
  have same : (ended.map Text.endedLine).map bareLine = ended.map bareLine := by
    rw [List.map_map]
    exact List.map_congr_left fun row _ => bareLine_endedLine row
  rw [pieces, whole]
  split
  · next nothing =>
    rw [nothing, readLines_concat_nil, List.append_nil]
    exact readLines_congr same reader line
  · refine readLines_congr ?_ reader line
    rw [List.map_append, List.map_append, same]

end Reader

/-! ### Logs -/

/-- Blanks that may stand on a line. -/
structure Blanks where
  chars : List Char
  areBlank : Text.blank chars = true
  unbroken : '\n' ∉ chars

/-- How a line ends. -/
inductive Ending
  | feed
  | returnFeed
  deriving DecidableEq, Repr

def Ending.chars : Ending → List Char
  | .feed => ['\n']
  | .returnFeed => ['\r', '\n']

/-- A line of a log. It may tell a line of a report, and is blank otherwise. -/
structure LogLine where
  /-- The log's mark stands in front. -/
  marked : Bool
  line? : Option (List Char)
  blanks : Blanks
  ending : Ending

namespace LogLine

/-- What stands on a line. -/
def row (logged : LogLine) : List Char :=
  (if logged.marked then logMark else []) ++ (logged.line?.getD [] ++ logged.blanks.chars)

def written (logged : LogLine) : List Char :=
  logged.row ++ logged.ending.chars

/-- What stands on a line and in front of its line feed. -/
def piece (logged : LogLine) : List Char :=
  logged.row ++ logged.ending.chars.dropLast

theorem written_eq (logged : LogLine) : logged.written = logged.piece ++ ['\n'] := by
  rw [written, piece, List.append_assoc]
  cases logged.ending <;> rfl

theorem bareLine_piece (logged : LogLine) : bareLine logged.piece = bareLine logged.row := by
  rw [piece]
  cases logged.ending with
  | feed => exact congrArg bareLine (List.append_nil _)
  | returnFeed => exact bareLine_concat_return _

end LogLine

abbrev Log := List LogLine

namespace Log

/-- The lines of the report that a log tells. -/
def told (log : Log) : List (List Char) :=
  log.filterMap LogLine.line?

/-- The text is that of the log. The last line may lack its end. -/
def IsText (log : Log) (text : List Char) : Prop :=
  text = log.flatMap LogLine.written ∨ text ++ ['\n'] = log.flatMap LogLine.written

/-- The number that a line of the report has in the log. Lines are counted from one. -/
def number : Log → Nat → Nat
  | _, 0 => 0
  | [], line + 1 => line + 1
  | logged :: rest, line + 1 =>
    (match logged.line? with
      | some _ => number rest line
      | none => number rest (line + 1)) + 1

@[simp] theorem number_zero (log : Log) : log.number 0 = 0 := by
  cases log <;> rfl

theorem number_cons_of_none {logged : LogLine} (silent : logged.line? = none) (rest : Log)
    (line : Nat) : number (logged :: rest) (line + 1) = number rest (line + 1) + 1 := by
  rw [number, silent]

theorem number_cons_of_some {logged : LogLine} {own : List Char} (tells : logged.line? = some own)
    (rest : Log) (line : Nat) : number (logged :: rest) (line + 1) = number rest line + 1 := by
  rw [number, tells]

theorem number_pos (log : Log) (line : Nat) : 0 < log.number (line + 1) := by
  cases log <;> exact Nat.succ_pos _

/-- A line of the report stands under its number in the log. -/
theorem exists_getElem?_number {log : Log} {index : Nat} {line : List Char}
    (isLine : log.told[index]? = some line) :
    ∃ logged, log[log.number (index + 1) - 1]? = some logged ∧ logged.line? = some line := by
  induction log generalizing index with
  | nil => cases isLine
  | cons first rest inductionHypothesis =>
    -- A line of the rest stands one line further down.
    have below {index : Nat} (isBelow : (told rest)[index]? = some line) :
        ∃ logged : LogLine, (first :: rest)[number rest (index + 1)]? = some logged ∧
          logged.line? = some line := by
      obtain ⟨logged, found, tells⟩ := inductionHypothesis isBelow
      refine ⟨logged, ?_, tells⟩
      rw [List.getElem?_cons, if_neg (Nat.ne_of_gt (number_pos rest index)), found]
    rw [told, List.filterMap_cons] at isLine
    cases isTold : first.line? with
    | none =>
      rw [isTold] at isLine
      rw [number_cons_of_none isTold, Nat.add_sub_cancel]
      exact below isLine
    | some own =>
      rw [isTold] at isLine
      rw [number_cons_of_some isTold, Nat.add_sub_cancel]
      cases index with
      | zero =>
        obtain rfl : own = line := Option.some.inj isLine
        exact ⟨first, by rw [number_zero]; rfl, isTold⟩
      | succ index => exact below isLine

/-- Where no line is blank, every line keeps its number. -/
theorem number_of_told {log : Log} (allTold : ∀ logged ∈ log, logged.line?.isSome) :
    log.number = id := by
  funext line
  induction log generalizing line with
  | nil => cases line <;> rfl
  | cons first rest inductionHypothesis =>
    obtain ⟨isTold, others⟩ := List.forall_mem_cons.mp allTold
    obtain ⟨own, isOwn⟩ := Option.isSome_iff_exists.mp isTold
    cases line with
    | zero => rfl
    | succ line =>
      rw [number_cons_of_some isOwn]
      exact congrArg (· + 1) (inductionHypothesis others line)

end Log

/-- The mark of a log without the blank at its end. -/
def logTag : List Char :=
  "[INFO]".toList

/-- Blanks do not make a mark of a line that does not begin with one. -/
theorem not_marked_append {line tail : List Char} (untagged : ¬ logTag <+: line)
    (blank : Text.blank tail = true) : ¬ logMark <+: line ++ tail := by
  intro marked
  have tagged : logTag <+: line ++ tail := List.IsPrefix.trans ⟨[' '], rfl⟩ marked
  rcases List.prefix_or_prefix_of_prefix tagged (List.prefix_append line tail) with
    inLine | ⟨rest, split⟩
  · exact untagged inLine
  · have inTail : rest <+: tail := by
      rw [← split, List.prefix_append_right_inj] at tagged
      exact tagged
    cases rest with
    | nil => exact untagged ⟨[], by rw [List.append_nil] at split ⊢; exact split.symm⟩
    | cons first others =>
      have isBlank := List.all_eq_true.mp blank first (inTail.subset List.mem_cons_self)
      have inTag : first ∈ logTag := split ▸ List.mem_append_right _ List.mem_cons_self
      have visible : logTag.all (fun char => !Text.isBlank char) = true := by decide
      have isVisible := List.all_eq_true.mp visible first inTag
      rw [isBlank] at isVisible
      cases isVisible

/-- A mark is not seen. -/
theorem bareLine_marked {row : List Char} (unmarked : ¬ logMark <+: row) :
    bareLine (logMark ++ row) = bareLine row := by
  have none : Text.afterPrefix? logMark row = none :=
    Option.eq_none_iff_forall_ne_some.mpr fun rest isRest =>
      unmarked ⟨rest, (Text.afterPrefix?_eq_some_iff.mp isRest).symm⟩
  rw [bareLine, bareLine, Text.afterPrefix?_eq_some_iff.mpr rfl, none]
  rfl

/-- On a line of a log, the line of the report is seen, or nothing. -/
theorem LogLine.bareLine_row {logged : LogLine}
    (untagged : ∀ line, logged.line? = some line → ¬ logTag <+: line) :
    bareLine logged.row = bareLine (logged.line?.getD []) := by
  have blanks := logged.blanks.areBlank
  have unmarked : ¬ logMark <+: logged.line?.getD [] ++ logged.blanks.chars := by
    refine not_marked_append ?_ blanks
    cases tells : logged.line? with
    | none => decide
    | some line => exact untagged line tells
  have behind : bareLine (logged.line?.getD [] ++ logged.blanks.chars) =
      bareLine (logged.line?.getD []) :=
    bareLine_append blanks fun marked => absurd marked unmarked
  rw [row]
  cases logged.marked with
  | false => exact behind
  | true => exact (bareLine_marked unmarked).trans behind

/-! ### Reading a log -/

/-- A log is read as the report that it tells, under other numbers. -/
theorem Reader.readLines_logged {log : Log} (untagged : ∀ line ∈ log.told, ¬ logTag <+: line)
    {number : Nat → Nat} {before logged : Nat}
    (numbers : ∀ line, number (before + line + 1) = logged + log.number (line + 1))
    (reader : Reader) :
    (reader.renumber number).readLines (logged + 1) (log.map LogLine.row) =
      renumbered number (Reader.renumber number) (reader.readLines (before + 1) log.told) := by
  induction log generalizing reader before logged with
  | nil => rfl
  | cons first rest inductionHypothesis =>
    have seen : bareLine first.row = bareLine (first.line?.getD []) :=
      first.bareLine_row fun line tells =>
        untagged line (List.mem_filterMap.mpr ⟨first, List.mem_cons_self, tells⟩)
    rw [List.map_cons, readLines, readLine_congr seen]
    rw [Log.told, List.filterMap_cons] at untagged ⊢
    cases tells : first.line? with
    | none =>
      rw [tells] at untagged
      have blank : Text.blank (bareLine []) = true := by decide
      rw [Option.getD_none, readLine_of_blank blank]
      refine inductionHypothesis untagged (fun line => ?_) reader
      rw [numbers, Log.number_cons_of_none tells, Nat.add_assoc logged, Nat.add_comm 1]
    | some own =>
      rw [tells] at untagged
      have isNumber : number (before + 1) = logged + 1 := by
        rw [numbers 0, Log.number_cons_of_some tells, Log.number_zero]
      have one := reader.readLine_renumber number own (before + 1)
      rw [isNumber] at one
      rw [Option.getD_some, one, readLines]
      cases reader.readLine own (before + 1) with
      | error failure => rfl
      | ok next =>
        refine inductionHypothesis
          (fun line member => untagged line (List.mem_cons_of_mem _ member)) (fun line => ?_) next
        rw [Nat.add_assoc before, Nat.add_comm 1, numbers, Log.number_cons_of_some tells,
          Nat.add_assoc logged, Nat.add_comm 1]

/-- The text of a log is read as what stands on its lines. -/
theorem Reader.readLines_text {log : Log} {text : List Char} (isText : log.IsText text)
    (unbroken : ∀ logged ∈ log, '\n' ∉ logged.row) (reader : Reader) (line : Nat) :
    reader.readLines line (Text.lines text) = reader.readLines line (log.map LogLine.row) := by
  have isPiece : ∀ piece ∈ log.map LogLine.piece, '\n' ∉ piece := by
    rw [List.forall_mem_map]
    intro logged member
    rw [LogLine.piece, List.mem_append, not_or]
    refine ⟨unbroken logged member, ?_⟩
    cases logged.ending <;> decide
  have whole : log.flatMap LogLine.written = Text.unlines (log.map LogLine.piece) := by
    rw [Text.unlines, List.flatMap_map]
    exact congrArg (log.flatMap ·) (funext LogLine.written_eq)
  have pieces := Text.splitOn_unlines isPiece
  have same : (log.map LogLine.piece).map bareLine = (log.map LogLine.row).map bareLine := by
    rw [List.map_map, List.map_map]
    exact List.map_congr_left fun logged _ => logged.bareLine_piece
  rw [← readLines_congr same, readLines_lines]
  rw [Log.IsText, whole] at isText
  rcases isText with rfl | unended
  · rw [pieces, readLines_concat_nil]
  · rw [← unended, Text.splitOn_concat (by rfl), List.append_left_inj] at pieces
    rw [pieces]

/-! ### Reports in logs -/

theorem renumber_id :
    renumbered id (Forest.renumber id) = (id : Except ReportError Forest → _) := by
  have sameNode : Node.renumber id = id := rfl
  funext result
  cases result with
  | error failure => cases failure <;> rfl
  | ok forest => rw [renumbered, Forest.renumber, sameNode, Array.map_id, id]

/-- A report in a log is read as it is without it, up to the numbers of the lines, and if the log
has no lines of its own these are the same too. No line of the report may begin as a mark does. -/
theorem Forest.parse_logged {report text : String} {log : Log}
    (untagged : ∀ line ∈ Text.lines report.toList, ¬ logTag <+: line)
    (tells : log.told = Text.lines report.toList) (isText : log.IsText text.toList) :
    Forest.parse text =
        renumbered log.number (Forest.renumber log.number) (Forest.parse report) ∧
      (∀ (index : Nat) (line : List Char), (Text.lines report.toList)[index]? = some line →
        ∃ logged, log[log.number (index + 1) - 1]? = some logged ∧ logged.line? = some line) ∧
      ((∀ logged ∈ log, logged.line?.isSome) → Forest.parse text = Forest.parse report) := by
  have unbroken : ∀ logged ∈ log, '\n' ∉ logged.row := by
    intro logged member
    simp only [LogLine.row, List.mem_append, not_or]
    refine ⟨by split <;> decide, ?_, logged.blanks.unbroken⟩
    cases isLine : logged.line? with
    | none => exact List.not_mem_nil
    | some line =>
      have inReport : line ∈ log.told := List.mem_filterMap.mpr ⟨logged, member, isLine⟩
      exact Text.unbroken_of_mem_lines (tells ▸ inReport)
  have read : Forest.parse text =
      renumbered log.number (Forest.renumber log.number) (Forest.parse report) := by
    have same := @Reader.readLines_logged log (tells ▸ untagged) log.number 0 0
      (fun line => by rw [Nat.zero_add, Nat.zero_add]) Reader.start
    rw [Forest.parse, Forest.parse, Reader.readLines_text isText unbroken, ← tells]
    rw [Reader.renumber_start] at same
    rw [same]
    cases Reader.start.readLines 1 log.told <;> rfl
  refine ⟨read, fun index line isLine => ?_, fun allTold => ?_⟩
  · rw [← tells] at isLine
    exact Log.exists_getElem?_number isLine
  · rw [read, Log.number_of_told allTold, renumber_id]
    rfl

/-- A blank line in front of the project, marks before it and the project, a tab behind it, and one
of each ending. -/
theorem Forest.parse_logged_marked :
    let report := "g:p:pom:1\n+- g:a:jar:1:test\n"
    let text := "[INFO]  \r\n[INFO] g:p:pom:1\t\n+- g:a:jar:1:test"
    ∃ forest number, Forest.parse report = .ok forest ∧
      forest.nodes.toList.map Node.line = [2] ∧ number 2 = 3 ∧
      Forest.parse text = .ok (forest.renumber number) := by
  intro report text
  let log : Log :=
    [⟨true, none, ⟨[' '], by decide, by decide⟩, .returnFeed⟩,
      ⟨true, some "g:p:pom:1".toList, ⟨['\t'], by decide, by decide⟩, .feed⟩,
      ⟨false, some "+- g:a:jar:1:test".toList, ⟨[], by decide, by decide⟩, .feed⟩]
  have tells : log.told = Text.lines report.toList := by decide +kernel
  have isText : log.IsText text.toList := Or.inr (by decide +kernel)
  have untagged : ∀ line ∈ Text.lines report.toList, ¬ logTag <+: line := by decide +kernel
  have lines : (Forest.parse report).toOption.map (fun forest =>
      forest.nodes.toList.map Node.line) = some [2] := by decide +kernel
  obtain ⟨forest, parsed, isLine⟩ := Option.map_eq_some_iff.mp lines
  rw [toOption_eq_some_iff] at parsed
  have read := (parse_logged untagged tells isText).1
  rw [parsed] at read
  exact ⟨forest, log.number, parsed, isLine, rfl, read⟩

end PomLens.Report
