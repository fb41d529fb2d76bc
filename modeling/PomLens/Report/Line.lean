/-
This file reads and writes single lines of a dependency report.

A line is a prefix of connectors, three columns for each level, and a body. The body names
one artifact by fields between colons and may carry notes, in one of several spellings:

    group:artifact:jar:1.0:compile
    (group:artifact:jar:1.0:compile - omitted for conflict with 2.0)
    group:artifact:jar:1.0:compile (optional)

The notes are read as clauses between semicolons and spaced dashes. Clauses that are not
known are ignored.
-/

import PomLens.Report.Forest

namespace PomLens.Report

/-- Why a line cannot be read. Lines are counted from one. -/
inductive ReportError
  /-- A prefix whose width is no multiple of three. -/
  | indentation (line width : Nat)
  /-- A node deeper than one below the node before it. -/
  | orphan (line depth : Nat)
  /-- A body that does not name an artifact. -/
  | coordinate (line : Nat) (text : String)
  /-- A project header behind the first line, or a node at its level. -/
  | misplacedHeader (line : Nat)
  /-- A conflict that does not say which version was chosen. -/
  | missingEffectiveVersion (line : Nat)
  deriving DecidableEq, Repr

def ReportError.message : ReportError → String
  | .indentation line width =>
    s!"line {line}: connector prefix of width {width} is not a multiple of 3"
  | .orphan line depth => s!"line {line}: depth {depth} has no parent at depth {depth - 1}"
  | .coordinate line text => s!"line {line}: cannot read coordinate `{text}`"
  | .misplacedHeader line => s!"line {line}: project header must be the first line"
  | .missingEffectiveVersion line => s!"line {line}: conflict without an effective version"

/-! ### Prefixes -/

/-- What the build tool's log puts in front of a line. -/
def logMark : List Char := "[INFO] ".toList

/-- The characters that connectors are drawn with. -/
def isConnector (char : Char) : Bool :=
  char == '+' || char == '-' || char == '\\' || char == '|' || char == ' '

/-- A line without the log's mark and the blanks at its end. -/
def bareLine (raw : List Char) : List Char :=
  Text.trimEnd ((Text.afterPrefix? logMark raw).getD raw)

/-- The columns that one level takes. -/
def levelWidth : Nat := 3

/-! ### Bodies -/

/-- The fields of a text between colons, unless one of them is empty. -/
def fields? (text : List Char) : Option (List String) :=
  let fields := Text.splitOn (· == ':') text
  if fields.any List.isEmpty then none else some (fields.map String.ofList)

/-- Reads a project header: four fields and no blank anywhere. -/
def Header.parse? (body : List Char) : Option Header :=
  if body.any Text.isBlank then none
  else
    match fields? body with
    | some [group, artifact, packaging, version] => some ⟨group, artifact, packaging, version⟩
    | _ => none

/-- A body without the parentheses around it, if it has both. -/
def withoutParentheses (body : List Char) : List Char :=
  ((Text.afterPrefix? ['('] body >>= Text.beforeSuffix? [')'])).getD body

/-- A clause without the dashes and parentheses that set it off. -/
def bareClause (clause : List Char) : List Char :=
  let setOff (char : Char) : Bool := char == '(' || char == ')' || Text.isBlank char
  Text.dropEndWhile setOff (((Text.trim clause).dropWhile (· == '-')).dropWhile setOff)

/-- The clauses of a line's notes. -/
def clauses (notes : List Char) : List (List Char) :=
  (((Text.splitOn (· == ';') notes).flatMap (Text.splitOnText " - ".toList)).map
    bareClause).filter fun clause => !clause.isEmpty

/-- What the clauses of a line have said so far. -/
structure Notes where
  reason : Option OmissionReason
  effectiveVersion : Option String
  isOptional : Bool

/-- Takes up one clause. A later clause overrides an earlier one. -/
def Notes.read (notes : Notes) (clause : List Char) : Notes :=
  if let some rest := Text.afterPrefix? "omitted for conflict".toList clause then
    match Text.afterPrefix? "with ".toList (Text.trim rest) with
    | none => { notes with reason := some .conflict }
    | some version =>
      { notes with
        reason := some .conflict
        effectiveVersion := some (String.ofList (Text.trim version)) }
  else if (Text.afterPrefix? "omitted for duplicate".toList clause).isSome then
    { notes with reason := some .duplicate }
  else if (Text.afterPrefix? "omitted for cycle".toList clause).isSome then
    { notes with reason := some .cycle }
  else if let some version := Text.afterPrefix? "effective version ".toList clause then
    { notes with effectiveVersion := some (String.ofList (Text.trim version)) }
  else if clause = "optional".toList then { notes with isOptional := true }
  else notes

/-- The omission that the notes of a node with this version describe. A conflict must name
the version chosen; otherwise the node's own version is in effect. -/
def Notes.omission (notes : Notes) (line : Nat) (version : String) :
    Except ReportError (Option Omission) :=
  match notes.reason, notes.effectiveVersion with
  | none, _ => return none
  | some .conflict, none => throw (.missingEffectiveVersion line)
  | some reason, effective => return some ⟨reason, effective.getD version⟩

/-- Reads the body of the line with this number. -/
def Entry.parse (line : Nat) (body : List Char) : Except ReportError Entry := do
  let body := withoutParentheses (Text.trim body)
  let (coordinate, rest) := (Text.splitOnce? Text.isBlank body).getD (body, [])
  let invalid : ReportError := .coordinate line (String.ofList coordinate)
  let (group, artifact, packaging, classifier, version, scope) ←
    match fields? coordinate with
    | some [group, artifact, packaging, version, scope] =>
      pure (group, artifact, packaging, none, version, scope)
    | some [group, artifact, packaging, classifier, version, scope] =>
      pure (group, artifact, packaging, some classifier, version, scope)
    | _ => throw invalid
  let notes := (clauses rest).foldl Notes.read ⟨none, none, false⟩
  let omission ← notes.omission line version
  return ⟨group, artifact, packaging, classifier, version, scope, notes.isOptional, omission⟩

end PomLens.Report
