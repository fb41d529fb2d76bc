/-
This file proves that a report reads back as the trees that it was written for.

A grove is written one node on a line, in preorder. How the connectors are drawn is free, only
their width counts (`Grove.Written`), and so is the spelling of each entry. Reading the lines of a
grove adds its nodes to the forest and leaves the path open as it was (`Written.readLines`): the
lines below a node are read with that node at the end of the open path, and those after it with
the path that was there before.
-/

import PomLens.Proofs.Report.Grove
import PomLens.Proofs.Report.Reading
import PomLens.Proofs.Report.Spelling

namespace PomLens.Report

/-! ### Lines -/

theorem utf8Size_of_isConnector {char : Char} (drawn : isConnector char = true) :
    char.utf8Size = 1 := by
  simp only [isConnector, Bool.or_eq_true, beq_iff_eq] at drawn
  rcases drawn with (((rfl | rfl) | rfl) | rfl) | rfl <;> rfl

theorem size_connectors {connectors : List Char}
    (drawn : ∀ char ∈ connectors, isConnector char = true) :
    Text.size connectors = connectors.length := by
  induction connectors with
  | nil => rfl
  | cons char rest inductionHypothesis =>
    rw [Text.size_cons, utf8Size_of_isConnector (drawn char List.mem_cons_self),
      inductionHypothesis fun other member => drawn other (List.mem_cons_of_mem _ member),
      List.length_cons, Nat.add_comm]

namespace IsBody

variable {connectors body : List Char} (isBody : IsBody body)
  (drawn : ∀ char ∈ connectors, isConnector char = true)

include isBody

theorem ends_append (connectors : List Char) {last : Char}
    (isLast : (connectors ++ body).getLast? = some last) : Text.isBlank last = false := by
  rw [Text.getLast?_append_of_ne_nil isBody.nonempty] at isLast
  exact isBody.ends last isLast

theorem dropWhile_append (drawn : ∀ char ∈ connectors, isConnector char = true) :
    (connectors ++ body).dropWhile isConnector = body := by
  rw [List.dropWhile_append_of_pos drawn]
  exact Text.dropWhile_eq_self fun first isFirst => (isBody.begins first isFirst).1

/-- A line without the log's mark has nothing to lose. -/
theorem bareLine_append (drawn : ∀ char ∈ connectors, isConnector char = true) :
    bareLine (connectors ++ body) = connectors ++ body := by
  have unmarked : Text.afterPrefix? logMark (connectors ++ body) = none := by
    cases connectors with
    | nil => exact isBody.unmarked
    | cons first rest =>
      have other : '[' ≠ first := by
        rintro rfl
        exact absurd (drawn _ List.mem_cons_self) (by decide)
      exact if_neg other
  rw [bareLine, unmarked]
  exact Text.dropEndWhile_eq_self fun last isLast => isBody.ends_append connectors isLast

theorem isLine_append (drawn : ∀ char ∈ connectors, isConnector char = true) :
    Text.IsLine (connectors ++ body) where
  nonempty := List.append_ne_nil_of_right_ne_nil _ isBody.nonempty
  unbroken := by
    rw [List.mem_append, not_or]
    exact ⟨fun member => absurd (drawn _ member) (by decide), isBody.unbroken⟩
  ends isReturn := absurd (isBody.ends_append connectors isReturn) (by decide)

theorem blank_append (connectors : List Char) : Text.blank (connectors ++ body) = false := by
  cases isLast : (connectors ++ body).getLast? with
  | none => simp [isBody.nonempty] at isLast
  | some last =>
    rw [Text.blank, List.all_eq_false]
    exact ⟨last, List.mem_of_getLast? isLast, by simp [isBody.ends_append connectors isLast]⟩

/-- The level of a line is told by the width of its connectors. -/
theorem readLine_append (drawn : ∀ char ∈ connectors, isConnector char = true) {level : Nat}
    (isWidth : connectors.length = levelWidth * level) (noHeader : Header.parse? body = none)
    (reader : Reader) (line : Nat) : reader.readLine (connectors ++ body) line =
      { reader with started := true }.readEntry line level body := by
  have width : Text.size (connectors ++ body) - Text.size body = levelWidth * level := by
    rw [Text.size_append, Nat.add_sub_cancel, size_connectors drawn, isWidth]
  have whole : levelWidth * level % levelWidth = 0 := Nat.mul_mod_right _ _
  have isLevel : levelWidth * level / levelWidth = level :=
    Nat.mul_div_cancel_left level (by decide)
  unfold Reader.readLine
  simp only [isBody.bareLine_append drawn, isBody.blank_append, isBody.dropWhile_append drawn,
    width, whole, isLevel, noHeader, ite_self, Bool.false_eq_true, ↓reduceIte, ne_eq,
    not_true_eq_false]

end IsBody

namespace Reader

/-- The line of an entry adds it to the forest. -/
theorem readLine_entry {entry : Entry} (writable : entry.Writable) {connectors body : List Char}
    (spelled : entry.Spelled body) (drawn : ∀ char ∈ connectors, isConnector char = true)
    {reader : Reader} {depth : Nat}
    (isWidth : connectors.length = levelWidth * (reader.rootLevel + depth))
    (onPath : depth ≤ reader.path.length) (line : Nat) :
    reader.readLine (connectors ++ body) line =
      .ok ({ reader with started := true }.addEntry line depth entry) := by
  rw [(spelled.isBody writable).readLine_append drawn isWidth (spelled.header?_eq_none writable)]
  simp only [readEntry]
  rw [if_neg (Nat.not_lt.mpr (Nat.le_add_right _ _)), Nat.add_sub_cancel_left,
    if_neg (Nat.not_lt.mpr onPath), spelled.parse writable]
  rfl

/-- The line of a project begins a report on it. -/
theorem readLine_header {header : Header} (writable : header.Writable) (line : Nat) :
    start.readLine (coordinateText header.fields) line =
      .ok ⟨⟨some header, #[], []⟩, [], 1, true⟩ := by
  have isBody := writable.isBody
  have undrawn : ∀ char ∈ ([] : List Char), isConnector char = true := by simp
  have bare := isBody.bareLine_append undrawn
  have dropped := isBody.dropWhile_append undrawn
  rw [List.nil_append] at bare dropped
  have visible : Text.blank (coordinateText header.fields) = false := isBody.blank_append []
  unfold readLine
  simp only [bare, visible, dropped, Nat.sub_self, Header.parse?_coordinateText writable]
  rfl

/-- A reader that is as open at a depth as another. -/
structure Resumes (reader : Reader) (depth : Nat) (next : Reader) : Prop where
  rootLevel : next.rootLevel = reader.rootLevel
  onPath : depth ≤ next.path.length
  openPath : next.openPath depth = reader.openPath depth

theorem Resumes.trans {first second third : Reader} {depth : Nat}
    (before : first.Resumes depth second) (after : second.Resumes depth third) :
    first.Resumes depth third :=
  ⟨after.rootLevel.trans before.rootLevel, after.onPath, after.openPath.trans before.openPath⟩

theorem openPath_eq_drop {reader : Reader} {depth : Nat} (onPath : depth + 1 ≤ reader.path.length) :
    reader.openPath depth = (reader.openPath (depth + 1)).drop 1 := by
  rw [openPath, openPath, List.drop_drop]
  congr 1
  omega

/-- A reader that is as open at a depth is so at the depth before. -/
theorem Resumes.pred {reader next : Reader} {depth : Nat}
    (onPath : depth + 1 ≤ reader.path.length) (resumes : reader.Resumes (depth + 1) next) :
    reader.Resumes depth next := by
  refine ⟨resumes.rootLevel, Nat.le_of_succ_le resumes.onPath, ?_⟩
  rw [openPath_eq_drop resumes.onPath, resumes.openPath, ← openPath_eq_drop onPath]

section

variable (reader : Reader) {depth : Nat} (onPath : depth ≤ reader.path.length) (line : Nat)
  (entry : Entry)

include onPath

theorem length_path_addEntry : (reader.addEntry line depth entry).path.length = depth + 1 := by
  rw [addEntry, List.length_cons, openPath, List.length_drop]
  omega

/-- The node that is added is open, on top of what was open before. -/
theorem openPath_addEntry : (reader.addEntry line depth entry).openPath (depth + 1) =
    reader.forest.size :: reader.openPath depth := by
  rw [openPath, length_path_addEntry reader onPath, Nat.sub_self]
  rfl

theorem resumes_addEntry : reader.Resumes depth (reader.addEntry line depth entry) := by
  have onNew : depth + 1 ≤ (reader.addEntry line depth entry).path.length :=
    Nat.le_of_eq (length_path_addEntry reader onPath line entry).symm
  refine ⟨rfl, Nat.le_of_succ_le onNew, ?_⟩
  rw [openPath_eq_drop onNew, openPath_addEntry reader onPath]
  rfl

end

end Reader

/-! ### Groves -/

/-- The lines of a grove at a level. Any connectors of the right width will do. -/
inductive Grove.Written : Nat → Grove → List (List Char) → Prop
  | nil (level : Nat) : Written level .nil []
  | cons {level : Nat} {entry : Entry} {below rest : Grove} {lower further : List (List Char)}
    (connectors body : List Char) (isWidth : connectors.length = levelWidth * level)
    (drawn : ∀ char ∈ connectors, isConnector char = true) (spelled : entry.Spelled body)
    (belowWritten : Written (level + 1) below lower) (restWritten : Written level rest further) :
    Written level (.cons entry below rest) ((connectors ++ body) :: (lower ++ further))

namespace Grove.Written

variable {level : Nat} {grove : Grove} {rows : List (List Char)}

theorem length_eq (written : grove.Written level rows) : rows.length = grove.size := by
  induction written with
  | nil level => rfl
  | cons connectors body isWidth drawn spelled belowWritten restWritten belowHypothesis
      restHypothesis =>
    rw [List.length_cons, List.length_append, belowHypothesis, restHypothesis, size]

theorem isLine (written : grove.Written level rows)
    (writable : ∀ entry ∈ grove.entries, entry.Writable) : ∀ row ∈ rows, Text.IsLine row := by
  induction written with
  | nil level => simp
  | cons connectors body isWidth drawn spelled belowWritten restWritten belowHypothesis
      restHypothesis =>
    intro row member
    simp only [entries, List.mem_cons, List.mem_append] at writable
    rcases List.mem_cons.mp member with rfl | others
    · exact (spelled.isBody (writable _ (Or.inl rfl))).isLine_append drawn
    · rcases List.mem_append.mp others with lower | further
      · exact belowHypothesis (fun entry isBelow => writable entry (Or.inr (Or.inl isBelow))) row
          lower
      · exact restHypothesis (fun entry isAfter => writable entry (Or.inr (Or.inr isAfter))) row
          further

/-- The lines of a grove let it grow below the node that is open there. -/
theorem readLines (written : grove.Written level rows)
    (writable : ∀ entry ∈ grove.entries, entry.Writable) (reader : Reader) {depth : Nat}
    (isLevel : level = reader.rootLevel + depth) (onPath : depth ≤ reader.path.length)
    (line : Nat) : ∃ next, reader.readLines line rows = .ok next ∧
      next.forest = grove.grow reader.forest (reader.openPath depth).head? depth line ∧
      reader.Resumes depth next := by
  induction written generalizing reader depth line with
  | nil level => exact ⟨reader, rfl, rfl, rfl, onPath, rfl⟩
  | @cons level entry below rest lower further connectors body isWidth drawn spelled belowWritten
      restWritten belowHypothesis restHypothesis =>
    simp only [entries, List.mem_cons, List.mem_append] at writable
    subst isLevel
    let begun := { reader with started := true }
    let added := begun.addEntry line depth entry
    have first : reader.readLine (connectors ++ body) line = .ok added :=
      Reader.readLine_entry (writable entry (Or.inl rfl)) spelled drawn isWidth onPath line
    have onAdded : depth + 1 ≤ added.path.length :=
      Nat.le_of_eq (Reader.length_path_addEntry begun onPath line entry).symm
    have addedOpen : added.openPath (depth + 1) = reader.forest.size :: reader.openPath depth :=
      Reader.openPath_addEntry begun onPath line entry
    have resumesAdded : begun.Resumes depth added :=
      Reader.resumes_addEntry begun onPath line entry
    obtain ⟨lowered, readLower, grownLower, resumesLower⟩ :=
      belowHypothesis (fun other isBelow => writable other (Or.inr (Or.inl isBelow))) added
        (Nat.add_assoc ..) onAdded (line + 1)
    have resumesLowered := resumesAdded.trans (resumesLower.pred onAdded)
    obtain ⟨next, readFurther, grownFurther, resumesFurther⟩ :=
      restHypothesis (fun other isAfter => writable other (Or.inr (Or.inr isAfter))) lowered
        (congrArg (· + depth) resumesLowered.rootLevel.symm)
        resumesLowered.onPath (line + 1 + lower.length)
    have resumes := resumesLowered.trans resumesFurther
    refine ⟨next, ?_, ?_, ⟨resumes.rootLevel, resumes.onPath, resumes.openPath⟩⟩
    · rw [Reader.readLines, first]
      exact (Reader.readLines_append readLower).trans readFurther
    · rw [grownFurther, grownLower, addedOpen, resumesLowered.openPath, belowWritten.length_eq]
      rfl

end Grove.Written

/-! ### Reports -/

/-- A report on a project, if there is one, and the trees of its dependencies. With a project all
levels are one higher. The last line may lack its end. -/
def Grove.Reported (grove : Grove) (header : Option Header) (report : String) : Prop :=
  ∃ rows, grove.Written (header.elim 0 fun _ => 1) rows ∧
    let all := (header.map fun project => coordinateText project.fields).toList ++ rows
    report.toList = Text.unlines all ∨ report.toList ++ ['\n'] = Text.unlines all

/-- A report reads back as the forest of the trees that it was written for. -/
theorem Forest.parse_reported {header : Option Header} {grove : Grove} {report : String}
    (writableHeader : ∀ project, header = some project → project.Writable)
    (writable : ∀ entry ∈ grove.entries, entry.Writable)
    (reported : grove.Reported header report) :
    Forest.parse report = .ok (grove.forest header (header.elim 1 fun _ => 2)) := by
  obtain ⟨rows, written, text⟩ := reported
  have areLines := written.isLine writable
  cases header with
  | none =>
    have lines := Text.lines_eq areLines text
    obtain ⟨next, read, grown, -⟩ :=
      written.readLines writable Reader.start rfl (Nat.zero_le _) 1
    rw [Forest.parse, lines, read]
    exact congrArg Except.ok (grown.trans (grove.grow_empty none 1))
  | some project =>
    have writableProject := writableHeader project rfl
    have undrawn : ∀ char ∈ ([] : List Char), isConnector char = true := by simp
    have isLine : Text.IsLine (coordinateText project.fields) :=
      writableProject.isBody.isLine_append undrawn
    have lines : Text.lines report.toList = coordinateText project.fields :: rows :=
      Text.lines_eq (List.forall_mem_cons.mpr ⟨isLine, areLines⟩) text
    obtain ⟨next, read, grown, -⟩ :=
      written.readLines writable ⟨⟨some project, #[], []⟩, [], 1, true⟩ rfl (Nat.zero_le _) 2
    rw [Forest.parse, lines, Reader.readLines, Reader.readLine_header writableProject]
    have whole := congrArg (fun result => result >>= fun reader => pure reader.forest) read
    exact whole.trans (congrArg Except.ok (grown.trans (grove.grow_empty (some project) 2)))

/-- A project with an optional dependency and, below it, one that lost to another version. The
connectors are drawn in an unusual way, and the last line lacks its end. -/
theorem Forest.parse_reported_conflict :
    let project : Header := ⟨"g", "p", "pom", "1"⟩
    let upper : Entry := ⟨"g", "a", "jar", none, "1", "test", true, none⟩
    let lower : Entry := ⟨"g", "b", "jar", some "c", "1", "test", false, some ⟨.conflict, "2"⟩⟩
    let grove : Grove := .cons upper (.cons lower .nil .nil) .nil
    let report := "g:p:pom:1\n|- g:a:jar:1:test (optional)\n" ++
      "+ -\\  (g:b:jar:c:1:test - omitted for conflict; effective version 2)"
    grove.Reported (some project) report ∧
      Forest.parse report = .ok (grove.forest (some project) 2) := by
  intro project upper lower grove report
  have upperText : "g:a:jar:1:test (optional)".toList =
      coordinateText upper.fields ++ (" (".toList ++ "optional".toList ++ [')']) := by decide
  have lowerText : "(g:b:jar:c:1:test - omitted for conflict; effective version 2)".toList =
      ['('] ++ (coordinateText lower.fields ++ (" - ".toList ++ ("omitted for conflict".toList ++
        ';' :: ([' '] ++ ("effective version ".toList ++ "2".toList))) ++ [')'])) := by decide
  have upperSpelled : upper.Spelled "g:a:jar:1:test (optional)".toList := by
    rw [upperText]
    exact .bracketed (.optional [] [] rfl .nothing) (.last _)
  have lowerSpelled : lower.Spelled
      "(g:b:jar:c:1:test - omitted for conflict; effective version 2)".toList := by
    rw [lowerText]
    exact .enclosed (.required rfl (.effective "2")) (.cons [' '] (by simp) (.last _))
  have reported : grove.Reported (some project) report :=
    ⟨_, .cons "|- ".toList _ rfl (by simp [isConnector]) upperSpelled
      (.cons "+ -\\  ".toList _ rfl (by simp [isConnector]) lowerSpelled (.nil _) (.nil _)) (.nil _),
      Or.inr (by decide)⟩
  have upperWritable : upper.Writable := by
    refine ⟨by decide, by decide, by decide, ?_, by decide, by decide, ?_, ?_⟩
    · rintro classifier ⟨⟩
    · rintro version ⟨⟩
    · rintro reason version ⟨⟩
  have lowerWritable : lower.Writable := by
    refine ⟨by decide, by decide, by decide, ?_, by decide, by decide, ?_, ?_⟩
    · rintro classifier ⟨⟩
      decide
    · rintro version ⟨⟩
      decide
    · rintro reason version ⟨⟩ noConflict
      exact absurd rfl noConflict
  refine ⟨reported, parse_reported ?_ ?_ reported⟩
  · rintro header ⟨⟩
    exact ⟨by decide, by decide, by decide, by decide⟩
  · simpa [Grove.entries, grove] using ⟨upperWritable, lowerWritable⟩

end PomLens.Report
