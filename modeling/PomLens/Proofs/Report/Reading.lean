/-
This file proves that every forest that is read from a report is consistent.

Between two lines the path of a reader is a climb from the last node to its root, and everything
read since a node on the path lies deeper than it (`Reader.Upright`). So the last node of the path
that a new node leaves open is its parent, and a line that is read keeps the forest consistent
(`Reader.Upright.readLine`).
-/

import PomLens.Proofs.Outcome
import PomLens.Proofs.Report.Accounts
import PomLens.Proofs.Text.Cutting

namespace PomLens.Report

/-! ### The version in effect -/

/-- No version in effect is empty. -/
def Notes.Named (notes : Notes) : Prop :=
  notes.effectiveVersion ≠ some ""

/-- A clause does not end with a blank. -/
theorem isBlank_getLast?_of_mem_clauses {text clause : List Char} {last : Char}
    (member : clause ∈ clauses text) (isLast : clause.getLast? = some last) :
    Text.isBlank last = false := by
  obtain ⟨piece, -, rfl⟩ := List.mem_map.mp (List.mem_filter.mp member).1
  have kept := Text.drop_getLast?_dropEndWhile isLast
  simp only [Bool.or_eq_false_iff] at kept
  exact kept.2

theorem Notes.named_read {notes : Notes} (named : notes.Named) {clause : List Char}
    (ends : ∀ last, clause.getLast? = some last → Text.isBlank last = false) :
    (notes.read clause).Named := by
  have nonempty {version : List Char} (left : Text.trim version ≠ []) :
      some (String.ofList (Text.trim version)) ≠ some "" := by
    simpa [String.ext_iff] using left
  rw [Notes.read]
  split
  · next rest _ =>
    split
    · exact named
    · next version found =>
      refine nonempty (Text.trim_ne_nil_of_append "with ".toList rfl rfl ?_)
      rw [← Text.afterPrefix?_eq_some_iff.mp found]
      exact fun last => Text.drop_getLast?_dropEndWhile
  · split
    · exact named
    · split
      · exact named
      · split
        · next version found =>
          refine nonempty (Text.trim_ne_nil_of_append "effective version ".toList
            rfl rfl ?_)
          rw [← Text.afterPrefix?_eq_some_iff.mp found]
          exact ends
        · split <;> exact named

theorem Notes.named_foldl {notes : Notes} (named : notes.Named) {clauses : List (List Char)}
    (ends : ∀ clause ∈ clauses, ∀ last, clause.getLast? = some last →
      Text.isBlank last = false) : (clauses.foldl Notes.read notes).Named := by
  induction clauses generalizing notes with
  | nil => exact named
  | cons clause rest inductionHypothesis =>
    exact inductionHypothesis (Notes.named_read named (ends clause List.mem_cons_self))
      fun other member => ends other (List.mem_cons_of_mem _ member)

theorem Notes.Named.omission {notes : Notes} (named : notes.Named) {line : Nat} {version : String}
    {omission : Omission} (told : notes.omission line version = .ok (some omission))
    (isConflict : omission.reason = .conflict) : omission.effectiveVersion ≠ "" := by
  obtain ⟨reason, effective, isOptional⟩ := notes
  rcases reason with _ | _ | _ | _
  · cases told
  · cases effective with
    | none => cases told
    | some chosen =>
      cases told
      exact fun nothing => named (congrArg some nothing)
  · cases told
    cases isConflict
  · cases told
    cases isConflict

/-- An entry takes its omission from the clauses of its notes. -/
theorem Entry.exists_omission {line : Nat} {body : List Char} {entry : Entry}
    (parsed : Entry.parse line body = .ok entry) : ∃ rest version,
      ((clauses rest).foldl Notes.read ⟨none, none, false⟩).omission line version =
        .ok entry.omission := by
  unfold Entry.parse at parsed
  simp only at parsed
  -- The omission is read in the same way for each number of fields.
  split at parsed
  all_goals
    obtain ⟨fields, -, noted⟩ := exists_of_bind_eq_ok parsed
    obtain ⟨omission, told, same⟩ := exists_of_bind_eq_ok noted
    cases same
    exact ⟨_, _, told⟩

/-- A conflict that is read names the version that was chosen. -/
theorem effectiveVersion_ne_empty {line : Nat} {body : List Char} {entry : Entry}
    (parsed : Entry.parse line body = .ok entry) (isConflict : entry.isConflict = true) :
    entry.effectiveVersion ≠ "" := by
  obtain ⟨rest, version, told⟩ := Entry.exists_omission parsed
  have named : ((clauses rest).foldl Notes.read ⟨none, none, false⟩).Named :=
    Notes.named_foldl (by simp [Notes.Named]) fun clause member last =>
      isBlank_getLast?_of_mem_clauses member
  rw [Entry.isConflict] at isConflict
  cases isOmitted : entry.omission with
  | none => simp [isOmitted] at isConflict
  | some omission =>
    rw [isOmitted] at told
    rw [Entry.effectiveVersion, isOmitted]
    exact named.omission told (by simpa [isOmitted] using isConflict)

/-! ### What a line does -/

namespace Reader

/-- A line that is read is blank, or names the project, or adds one node on the open path. -/
theorem readLine_cases {reader next : Reader} {raw : List Char} {line : Nat}
    (read : reader.readLine raw line = .ok next) :
    next = reader ∨
    (∃ header, reader.started = false ∧ next = { reader with
      forest := { reader.forest with header := some header }, rootLevel := 1, started := true }) ∨
    ∃ depth body entry, depth ≤ reader.path.length ∧ Entry.parse line body = .ok entry ∧
      next = { reader with started := true }.addEntry line depth entry := by
  unfold readLine at read
  simp only at read
  split at read
  · cases read
    exact Or.inl rfl
  · split at read
    · cases read
    · split at read
      · unfold readEntry at read
        split at read
        · cases read
        · simp only at read
          split at read
          · cases read
          · next onPath =>
            obtain ⟨entry, parsed, same⟩ := exists_of_bind_eq_ok read
            cases same
            exact Or.inr (Or.inr ⟨_, _, entry, Nat.le_of_not_lt onPath, parsed, rfl⟩)
      · next header _ =>
        split at read
        · cases read
        · next fresh =>
          cases read
          exact Or.inr (Or.inl ⟨header, by simpa using fresh, rfl⟩)

/-- Lines that are read take the reader to those behind them. -/
theorem readLines_append {reader next : Reader} {line : Nat} {first second : List (List Char)}
    (read : reader.readLines line first = .ok next) :
    reader.readLines line (first ++ second) = next.readLines (line + first.length) second := by
  induction first generalizing reader line with
  | nil =>
    cases read
    rfl
  | cons raw rest inductionHypothesis =>
    obtain ⟨between, one, others⟩ := exists_of_bind_eq_ok read
    rw [List.cons_append, readLines, one, List.length_cons, Nat.add_comm rest.length,
      ← Nat.add_assoc]
    exact inductionHypothesis others

/-! ### The path of a reader -/

/-- What is known of a reader before the line with this number. -/
structure Upright (reader : Reader) (line : Nat) : Prop where
  consistent : reader.forest.Consistent
  /-- The path climbs from its first node to a root. -/
  climbs : reader.path = reader.forest.upFrom reader.path.head?
  inside : ∀ index ∈ reader.path, index < reader.forest.size
  /-- Whatever was read since a node on the path lies deeper. -/
  deeper : ∀ index ∈ reader.path, ∀ (since : Nat) (node other : Node),
    reader.forest.nodes[index]? = some node → index < since →
    reader.forest.nodes[since]? = some other → node.depth < other.depth
  /-- All nodes were read from lines before. -/
  before : ∀ (index : Nat) (node : Node), reader.forest.nodes[index]? = some node →
    node.line < line

theorem upright_start : Upright start 1 where
  consistent := Forest.consistent_empty
  climbs := rfl
  inside _ member := by cases member
  deeper _ member := by cases member
  before _ _ found := by simp [start, Forest.empty] at found

namespace Upright

variable {reader : Reader} {line : Nat}

theorem later (upright : reader.Upright line) : reader.Upright (line + 1) :=
  { upright with
    before := fun index node found => Nat.lt_succ_of_lt (upright.before index node found) }

theorem withHeader (upright : reader.Upright line) (header : Option Header) :
    Upright { reader with forest := { reader.forest with header } } line :=
  { upright with
    consistent := upright.consistent.withHeader header
    climbs := by
      rw [Forest.upFrom_withHeader]
      exact upright.climbs }

/-- The open path climbs too, from the node that a new one is added below. -/
theorem openPath_eq (upright : reader.Upright line) (depth : Nat) :
    reader.openPath depth = reader.forest.upFrom (reader.openPath depth).head? := by
  rw [openPath, upright.climbs]
  exact Forest.drop_upFrom upright.consistent.earlier _ _

theorem addEntry (upright : reader.Upright line) {depth : Nat}
    (onPath : depth ≤ reader.path.length) {entry : Entry}
    (conflict : entry.isConflict = true → entry.effectiveVersion ≠ "") :
    (reader.addEntry line depth entry).Upright (line + 1) := by
  have earlier := upright.consistent.earlier
  have climbs := upright.openPath_eq depth
  have isLength : (reader.openPath depth).length = depth := by
    rw [openPath, List.length_drop]
    omega
  have ofOpen {index : Nat} (member : index ∈ reader.openPath depth) : index ∈ reader.path :=
    List.mem_of_mem_drop member
  have inside (above : Nat) (isParent : (reader.openPath depth).head? = some above) :
      above < reader.forest.size :=
    upright.inside above (ofOpen (List.mem_of_head? isParent))
  -- A node on the open path has fewer nodes above it than the new one.
  have shallower {index : Nat} (member : index ∈ reader.openPath depth) {node : Node}
      (found : reader.forest.nodes[index]? = some node) : node.depth < depth := by
    rw [climbs] at member
    have shorter := (Forest.suffix_of_mem_upFrom earlier member).length_le
    rw [← climbs, isLength, Forest.upFrom, List.length_cons,
      ← upright.consistent.depth index node found] at shorter
    exact shorter
  have deep (above : Nat) (isParent : (reader.openPath depth).head? = some above) (since : Nat)
      (other : Node) (after : above < since)
      (isOther : reader.forest.nodes[since]? = some other) : depth ≤ other.depth := by
    obtain ⟨node, isNode⟩ := Forest.exists_getElem? (inside above isParent)
    have further := upright.deeper above (ofOpen (List.mem_of_head? isParent)) since node other
      isNode after isOther
    have oneMore := congrArg List.length climbs
    rw [isLength, isParent, Forest.upFrom, List.length_cons,
      ← upright.consistent.depth above node isNode] at oneMore
    omega
  have consistent := upright.consistent.add inside (by rw [← climbs, isLength]) deep
    upright.before conflict
  refine ⟨consistent, ?_, ?_, ?_, ?_⟩
  · rw [Reader.addEntry, List.head?_cons, Forest.upFrom,
      Forest.ancestors_add_size inside earlier, ← climbs]
  · intro index member
    rw [Reader.addEntry, Forest.size_add]
    rcases List.mem_cons.mp member with rfl | old
    · exact Nat.lt_succ_self _
    · exact Nat.lt_succ_of_lt (upright.inside index (ofOpen old))
  · intro index member since node other isNode after isOther
    rcases Forest.getElem?_add_cases inside isNode with ⟨rfl, -⟩ | ⟨old, children, isOld, rfl⟩
    · have noLater := Forest.lt_of_getElem? isOther
      rw [Reader.addEntry, Forest.size_add] at noLater
      omega
    · have onOpen : index ∈ reader.openPath depth := by
        rcases List.mem_cons.mp member with rfl | old
        · exact absurd (Forest.lt_of_getElem? isOld) (Nat.lt_irrefl _)
        · exact old
      rcases Forest.getElem?_add_cases inside isOther with
        ⟨-, rfl⟩ | ⟨later, children, isLater, rfl⟩
      · have isShallower := shallower onOpen isOld
        exact isShallower
      · exact upright.deeper index (ofOpen onOpen) since old later isOld after isLater
  · intro index node found
    rcases Forest.getElem?_add_cases inside found with ⟨-, rfl⟩ | ⟨old, children, isOld, rfl⟩
    · exact Nat.lt_succ_self line
    · exact Nat.lt_succ_of_lt (upright.before index old isOld)

theorem readLine (upright : reader.Upright line) {raw : List Char} {next : Reader}
    (read : reader.readLine raw line = .ok next) : next.Upright (line + 1) := by
  rcases readLine_cases read with
    rfl | ⟨header, fresh, rfl⟩ | ⟨depth, body, entry, onPath, parsed, rfl⟩
  · exact upright.later
  · exact { (upright.withHeader (some header)).later with }
  · have begun : { reader with started := true }.Upright line := { upright with }
    exact begun.addEntry onPath (effectiveVersion_ne_empty parsed)

theorem after (upright : reader.Upright line) {lines : List (List Char)} {last : Reader}
    (read : reader.readLines line lines = .ok last) : last.Upright (line + lines.length) := by
  induction lines generalizing reader line with
  | nil =>
    cases read
    exact upright
  | cons raw rest inductionHypothesis =>
    obtain ⟨next, first, others⟩ := exists_of_bind_eq_ok read
    rw [List.length_cons, Nat.add_comm rest.length, ← Nat.add_assoc]
    exact inductionHypothesis (upright.readLine first) others

theorem readLines (upright : reader.Upright line) {lines : List (List Char)} {last : Reader}
    (read : reader.readLines line lines = .ok last) : last.forest.Consistent :=
  (upright.after read).consistent

end Upright

end Reader

/-! ### Reports -/

/-- The forest that is read from a report is consistent. -/
theorem Forest.consistent_of_parse {report : String} {forest : Forest}
    (parsed : Forest.parse report = .ok forest) : forest.Consistent := by
  obtain ⟨reader, read, same⟩ := exists_of_bind_eq_ok parsed
  cases same
  exact Reader.upright_start.readLines read

/-- A conflict below the second of two roots. -/
theorem Forest.consistent_belowSecondRoot :
    let report := "org.a:b:jar:1:test\norg.a:c:jar:1:test\n" ++
      "\\- (org.a:d:jar:1:test - omitted for conflict with 2)\n"
    ∃ forest, Forest.parse report = .ok forest ∧ forest.roots = [0, 1] ∧
      forest.children 1 = [2] ∧ forest.conflicts = [2] ∧ forest.Consistent := by
  intro report
  have read : (Forest.parse report).toOption.map (fun forest =>
      (forest.roots, forest.children 1, forest.conflicts)) = some ([0, 1], [2], [2]) := by
    decide +kernel
  cases parsed : Forest.parse report with
  | error failure => simp [parsed, Except.toOption] at read
  | ok forest =>
    simp only [parsed, Except.toOption, Option.map_some, Option.some.injEq, Prod.mk.injEq] at read
    exact ⟨forest, rfl, read.1, read.2.1, read.2.2, consistent_of_parse parsed⟩

end PomLens.Report
