/-
This file proves that a command which changes the descriptor shows what it would write.

Showing makes the edits in the text that was read, and writing reads the descriptor once more,
makes them there and puts the result in its place. Up to the edits both do the same, and none of it
changes a file (`Looks`). A remedy never leaves an empty text, since it always writes something
(`Remedy.Writes`), so an empty output means that there was nothing to be done (`changes_agree`).
-/

import PomLens.CommandLine.Commands
import PomLens.Proofs.FileTree.Overwriting
import PomLens.Proofs.Remedy.Placing

namespace PomLens

/-! ### What remedies write -/

/-- What an edit writes stands in the new text. -/
theorem EditSet.infix_of_applyFrom {text new : List Char} {cursor : Nat} {edits : List Edit}
    (applied : EditSet.applyFrom text cursor edits = .ok new) {edit : Edit}
    (member : edit ∈ edits) : edit.text.toList <:+: new := by
  induction edits generalizing cursor new with
  | nil => cases member
  | cons first rest inductionHypothesis =>
    rw [EditSet.applyFrom] at applied
    simp only at applied
    split at applied
    · split at applied <;> cases applied
    · split at applied
      · cases applied
      · obtain ⟨others, passed, whole⟩ := exists_of_bind_eq_ok applied
        cases whole
        rcases List.mem_cons.mp member with rfl | later
        · exact ⟨_, others, rfl⟩
        · exact (inductionHypothesis passed later).trans (List.suffix_append _ _).isInfix

namespace Remedy

variable {document : Document} {container : Markup.Node} {snippet : Snippet} {style : Style}
  {edit : Edit}

theorem Snippet.render_ne_empty (snippet : Snippet) (base : String) (style : Style) :
    snippet.render base style ≠ "" := by
  intro empty
  have none := snippet.toList_render base style
  rw [empty] at none
  cases snippet <;> simp [piecesOf, Snippet.piece, Markup.Piece.written_append, Markup.Piece.written,
    Markup.Token.written] at none

theorem expand?_text_ne_empty (expanded : expand? document container snippet style = some edit) :
    edit.text ≠ "" := by
  obtain ⟨base, -, expanded⟩ := Option.bind_eq_some_iff.mp expanded
  obtain rfl := Option.some.inj expanded
  simp [openingTag, String.append_eq_empty_iff]

theorem insertFirst?_text_ne_empty
    (inserted : insertFirst? document container snippet style = some edit) : edit.text ≠ "" := by
  rw [insertFirst?] at inserted
  split at inserted
  · exact expand?_text_ne_empty inserted
  · obtain ⟨base, -, inserted⟩ := Option.bind_eq_some_iff.mp inserted
    obtain rfl := Option.some.inj inserted
    exact snippet.render_ne_empty base style

theorem insertLast?_text_ne_empty
    (inserted : insertLast? document container snippet style = some edit) : edit.text ≠ "" := by
  rw [insertLast?] at inserted
  split at inserted
  · exact expand?_text_ne_empty inserted
  · obtain ⟨base, -, inserted⟩ := Option.bind_eq_some_iff.mp inserted
    obtain rfl := Option.some.inj inserted
    simp [String.append_eq_empty_iff, snippet.render_ne_empty]

/-- The edits are of the document, and one of them writes something. -/
structure Writes (document : Document) (set : EditSet) : Prop where
  path : set.path = document.path
  writes : ∃ edit ∈ set.added, edit.text ≠ ""

/-- A remedy does not leave an empty text. -/
theorem Writes.applyTo_ne_empty {set : EditSet} (writes : Writes document set) {text new : String}
    (applied : set.applyTo text = .ok new) : new ≠ "" := by
  rintro rfl
  obtain ⟨-, edit, member, visible⟩ := writes
  obtain ⟨chars, passed, none⟩ := exists_of_bind_eq_ok applied
  have stands := EditSet.infix_of_applyFrom passed (set.edits_perm.mem_iff.mpr member)
  obtain rfl : chars = [] := by simpa using Except.ok.inj none
  exact visible (String.toList_eq_nil_iff.mp (List.infix_nil.mp stands))

theorem writes_of_pin {key : ArtifactKey} {effective chosen : String} {set : EditSet}
    (computed : pin document key effective chosen style = .ok (some set)) :
    Writes document set := by
  obtain ⟨project, dropped, written, -, -, manages, rfl⟩ := exists_of_pin computed
  refine ⟨rfl, ?_⟩
  rcases writes_of_manage manages with
    ⟨-, edit, inserted, rfl⟩ | ⟨management, older, edit, -, writes, rfl⟩
  · exact ⟨edit, by simp, insertLast?_text_ne_empty inserted⟩
  · refine ⟨edit, by simp, ?_⟩
    rw [WritesManaged] at writes
    split at writes
    · exact insertFirst?_text_ne_empty writes.2
    · exact insertFirst?_text_ne_empty writes.2

theorem writes_of_exclude {forest : Report.Forest} {index : Nat} {set : EditSet}
    (computed : exclude document forest index style = .ok (some set)) :
    Writes document set := by
  obtain ⟨node, root, project, declaration, -, -, -, -, -, computed⟩ := exists_of_exclude computed
  obtain ⟨edit, rfl, ⟨-, inserted⟩ | ⟨exclusions, -, -, inserted⟩⟩ := exists_of_excludeIn computed
  · exact ⟨rfl, edit, by simp, insertLast?_text_ne_empty inserted⟩
  · exact ⟨rfl, edit, by simp, insertFirst?_text_ne_empty inserted⟩

end Remedy

namespace CommandLine

/-! ### Steps that look -/

/-- What a step comes to, and the files behind it. -/
def Step.outcome {α : Type} (step : Step α) (files : FileTree) :
    Except CommandError α × FileTree :=
  (ExceptT.run step).run files

/-- The step changes no file, and what it gives, if it does, has a property. -/
def Looks {α : Type} (files : FileTree) (step : Step α) (holds : α → Prop) : Prop :=
  (step.outcome files).2 = files ∧ ∀ value, (step.outcome files).1 = .ok value → holds value

section

variable {α β : Type} {files : FileTree} {step : Step α}

theorem outcome_bind (step : Step α) (next : α → Step β) (files : FileTree) :
    (step >>= next).outcome files =
      match step.outcome files with
      | (.ok value, after) => (next value).outcome after
      | (.error error, after) => (.error error, after) := by
  simp only [Step.outcome, ExceptT.run_bind, StateT.run_bind]
  split
  · next value after first => rw [first]; rfl
  · next error after first => rw [first]; rfl

theorem Looks.cases {holds : α → Prop} (looks : Looks files step holds) :
    (∃ value, step.outcome files = (.ok value, files) ∧ holds value) ∨
      ∃ error, step.outcome files = (.error error, files) := by
  obtain ⟨kept, gives⟩ := looks
  generalize step.outcome files = outcome at kept gives
  obtain ⟨result, after⟩ := outcome
  obtain rfl : after = files := kept
  cases result with
  | ok value => exact Or.inl ⟨value, rfl, gives value rfl⟩
  | error error => exact Or.inr ⟨error, rfl⟩

theorem Looks.bind {holds : α → Prop} {holds' : β → Prop} {next : α → Step β}
    (looks : Looks files step holds)
    (further : ∀ value, holds value → Looks files (next value) holds') :
    Looks files (step >>= next) holds' := by
  rcases looks.cases with ⟨value, first, has⟩ | ⟨error, first⟩
  · rw [Looks, outcome_bind, first]
    exact further value has
  · rw [Looks, outcome_bind, first]
    exact ⟨rfl, fun _ given => by cases given⟩

theorem looks_pure {holds : α → Prop} {value : α} (has : holds value) :
    Looks files (pure value : Step α) holds :=
  ⟨rfl, fun _ given => by cases given; exact has⟩

theorem looks_throw (error : CommandError) (holds : α → Prop) :
    Looks files (throw error : Step α) holds :=
  ⟨rfl, fun _ given => by cases given⟩

theorem looks_get : Looks files (get : Step FileTree) (· = files) :=
  ⟨rfl, fun _ given => by cases given; rfl⟩

theorem looks_set {after : FileTree} (same : after = files) :
    Looks files (set after : Step PUnit) fun _ => True :=
  ⟨same, fun _ _ => trivial⟩

theorem looks_orFail {ε : Type} (wrap : ε → CommandError) (result : Except ε α) :
    Looks files (orFail wrap result) (result = .ok ·) := by
  cases result with
  | ok value => exact looks_pure rfl
  | error error => exact looks_throw _ _

theorem looks_absolutePath (path : Path) : Looks files (absolutePath path) fun _ => True := by
  refine looks_get.bind fun tree _ => ?_
  split
  · exact looks_throw _ _
  · exact looks_pure trivial

/-- A saved report is read, and no file is changed. -/
theorem files_withSavedReport (tool : Runner) (files : FileTree) (report path : Path) :
    ((tool.withSavedReport files report).treeReport path).files = files := by
  simp only [Runner.withSavedReport]
  split <;> rfl

/-- A descriptor is loaded with the text that can be read of it. -/
theorem looks_load (tool : Runner) (report pom : Path) :
    Looks files (load (tool.withSavedReport files report) pom) fun loaded =>
      loaded.document.path = pom ∧ files.read pom = .ok loaded.document.text := by
  refine looks_get.bind fun tree same => ?_
  subst same
  refine (looks_orFail _ _).bind fun text read => ?_
  refine (looks_absolutePath _).bind fun path _ => ?_
  refine (looks_orFail _ _).bind fun _ _ => ?_
  refine (looks_set (files_withSavedReport tool tree report _)).bind fun _ _ => ?_
  refine (looks_orFail _ _).bind fun _ _ => ?_
  exact looks_pure ⟨rfl, read⟩

/-! ### Showing and writing -/

/-- Showing changes nothing, and writing gives the descriptor at a path the text that is shown and
changes nothing else. Without a text there is nothing to be written. -/
structure Agrees (files : FileTree) (pom : Path) (shows writes : Step String) : Prop where
  kept : (shows.outcome files).2 = files
  written : ∀ text, (shows.outcome files).1 = .ok text → text ≠ "" →
    ∃ after, writes.outcome files = (.ok "", after) ∧ files.Rewrites pom text after
  nothing : (shows.outcome files).1 = .ok "" → writes.outcome files = (.ok "", files)
  failed : ∀ error, (shows.outcome files).1 = .error error →
    ∃ error', writes.outcome files = (.error error', files)

variable {pom : Path}

/-- A step that changes no file and gives no text may be both. -/
theorem agrees_of_looks {step : Step String} (looks : Looks files step (· = "")) :
    Agrees files pom step step := by
  rcases looks.cases with ⟨_, gives, rfl⟩ | ⟨error, fails⟩
  · exact ⟨looks.1, fun text given some => absurd (looks.2 text given) some, fun _ => gives,
      fun error given => by simp [gives] at given⟩
  · exact ⟨looks.1, fun text given some => absurd (looks.2 text given) some,
      fun given => by simp [fails] at given, fun _ _ => ⟨error, fails⟩⟩

theorem Agrees.bind {holds : α → Prop} {shows writes : α → Step String}
    (looks : Looks files step holds)
    (further : ∀ value, holds value → Agrees files pom (shows value) (writes value)) :
    Agrees files pom (step >>= shows) (step >>= writes) := by
  rcases looks.cases with ⟨value, first, has⟩ | ⟨error, first⟩
  · obtain ⟨kept, written, nothing, failed⟩ := further value has
    constructor <;> simpa only [outcome_bind, first]
  · constructor <;> simp [outcome_bind, first]

/-- What making edits in the file comes to. -/
theorem outcome_emit (document : Document) (edits : EditSet) (files : FileTree) :
    (emit document edits true).outcome files =
      match files.applyEdits? edits with
      | none => (.error (.editRejected edits.path), files)
      | some after => (.ok "", after) := by
  have found : (get : Step FileTree).outcome files = (.ok files, files) := rfl
  rw [emit, if_pos rfl, outcome_bind, found]
  simp only
  cases files.applyEdits? edits <;> rfl

/-- The edits of a remedy are shown, or they are made in the file. -/
theorem agrees_emit {document : Document} {edits : EditSet} (writes : Remedy.Writes document edits)
    (read : files.read document.path = .ok document.text) :
    Agrees files document.path (emit document edits false) (emit document edits true) := by
  have shown : emit document edits false = orFail .edit (edits.applyTo document.text) := rfl
  have overwrites := outcome_emit document edits files
  rw [← writes.path] at read ⊢
  cases applied : edits.applyTo document.text with
  | error error =>
    have refused : files.applyEdits? edits = none := by
      simp [FileTree.applyEdits?, read, applied, Except.toOption]
    rw [shown, applied]
    rw [refused] at overwrites
    exact ⟨rfl, fun _ given => (by cases given), fun given => (by cases given),
      fun _ _ => ⟨_, overwrites⟩⟩
  | ok new =>
    obtain ⟨after, overwritten, rewrites⟩ := FileTree.exists_overwrite read new
    have changed : files.applyEdits? edits = some after := by
      simp [FileTree.applyEdits?, read, applied, overwritten, Except.toOption]
    rw [shown, applied]
    rw [changed] at overwrites
    refine ⟨rfl, fun text given _ => ?_, fun given => ?_, fun _ given => (by cases given)⟩
    · cases given
      exact ⟨after, overwrites, rewrites⟩
    · obtain rfl : new = "" := Except.ok.inj given
      exact absurd rfl (writes.applyTo_ne_empty applied)

theorem agrees_emitRemedy {document : Document} {remedy : Except RemedyError (Option EditSet)}
    (writes : ∀ edits, remedy = .ok (some edits) → Remedy.Writes document edits)
    (read : files.read document.path = .ok document.text) :
    Agrees files document.path (emitRemedy document remedy false)
      (emitRemedy document remedy true) := by
  refine Agrees.bind (looks_orFail _ _) fun found isRemedy => ?_
  cases found with
  | none => exact agrees_of_looks (looks_pure rfl)
  | some edits => exact agrees_emit (writes edits isRemedy) read

/-- Pinning and excluding show what they write. -/
theorem changes_agree (tool : Runner) (files : FileTree) (report : Path) (settings : Settings)
    (pom : Path) (key : ArtifactKey) :
    (∀ version, Agrees files pom
      (resolve (tool.withSavedReport files report) settings pom key version false)
      (resolve (tool.withSavedReport files report) settings pom key version true)) ∧
    Agrees files pom (exclude (tool.withSavedReport files report) settings pom key false)
      (exclude (tool.withSavedReport files report) settings pom key true) := by
  refine ⟨fun version => ?_, ?_⟩
  · refine Agrees.bind (looks_load tool report pom) fun loaded ⟨samePath, read⟩ => ?_
    subst samePath
    split
    · exact agrees_of_looks (looks_throw _ _)
    · exact agrees_emitRemedy (fun _ => Remedy.writes_of_pin) read
  · refine Agrees.bind (looks_load tool report pom) fun loaded ⟨samePath, read⟩ => ?_
    subst samePath
    split
    · exact agrees_of_looks (looks_throw _ _)
    · exact agrees_emitRemedy (fun _ => Remedy.writes_of_exclude) read

end

/-! ### A project that is pinned -/

/-- Pinning shows the text with the edits of its remedy. -/
theorem outcome_resolve {runner : Runner} {settings : Settings} {pom : Path} {key : ArtifactKey}
    {version effective text : String} {files : FileTree} {loaded : Loaded} {edits : EditSet}
    (loads : (load runner pom).outcome files = (.ok loaded, files))
    (inEffect : loaded.project.dependencyVersion? key = some effective)
    (pins : Remedy.pin loaded.document key effective version (styleOf settings.edit) =
      .ok (some edits))
    (applied : edits.applyTo loaded.document.text = .ok text) :
    (resolve runner settings pom key version false).outcome files = (.ok text, files) := by
  rw [resolve, outcome_bind, loads]
  simp only [inEffect, emitRemedy, pins]
  show (orFail .edit (edits.applyTo loaded.document.text)).outcome files = _
  rw [applied]
  rfl

/-- An empty project next to a saved report that names a dependency. -/
def reported : FileTree where
  entries := [(["p"], .folder), (["p", "pom.xml"], .file "<project/>" false),
    (["p", "tree.txt"], .file "g:p:jar:1\n\\- g:a:jar:1:compile\n" false)]
  current := ⟨"/p"⟩

/-- A build tool that cannot be started. -/
def noTool : Runner :=
  .always ⟨throw (.notStarted ⟨"mvn"⟩ .notFound), reported⟩

theorem changes_agree_reported :
    let runner := noTool.withSavedReport reported ⟨"tree.txt"⟩
    let pin := resolve runner Settings.standard ⟨"pom.xml"⟩ ⟨"g", "a"⟩ "2"
    ∃ text after, (pin false).outcome reported = (.ok text, reported) ∧ text ≠ "" ∧
      (pin true).outcome reported = (.ok "", after) ∧
      reported.Rewrites ⟨"pom.xml"⟩ text after := by
  intro runner pin
  have agrees : Agrees reported ⟨"pom.xml"⟩ (pin false) (pin true) :=
    (changes_agree noTool reported ⟨"tree.txt"⟩ Settings.standard ⟨"pom.xml"⟩ ⟨"g", "a"⟩).1 "2"
  have loads : ((load runner ⟨"pom.xml"⟩).outcome reported).1.toOption.map (fun loaded =>
      (loaded.document, loaded.project.dependencyVersion? ⟨"g", "a"⟩)) =
      some (⟨⟨"pom.xml"⟩, "<project/>"⟩, some "1") := by decide +kernel
  have pins : (Remedy.pin ⟨⟨"pom.xml"⟩, "<project/>"⟩ ⟨"g", "a"⟩ "1" "2"
      (styleOf Settings.standard.edit)).toOption.map (Option.map fun edits =>
        edits.added.map Edit.span) = some (some [.between 0 10]) := by decide +kernel
  obtain ⟨loaded, isLoaded, same⟩ := Option.map_eq_some_iff.mp loads
  obtain ⟨sameDocument, inEffect⟩ := Prod.mk.inj same
  obtain ⟨found, computed, isFound⟩ := Option.map_eq_some_iff.mp pins
  obtain ⟨⟨path, added⟩, rfl, spans⟩ := Option.map_eq_some_iff.mp isFound
  obtain ⟨⟨span, text⟩, rfl, rfl⟩ := List.map_eq_singleton_iff.mp spans
  rw [toOption_eq_some_iff] at isLoaded computed
  have loads : (load runner ⟨"pom.xml"⟩).outcome reported = (.ok loaded, reported) :=
    Prod.ext isLoaded (looks_load noTool ⟨"tree.txt"⟩ ⟨"pom.xml"⟩).1
  -- The one edit puts its text in place of the whole element.
  have applied : EditSet.applyTo ⟨path, [⟨.between 0 10, text⟩]⟩ "<project/>" = .ok text := by
    have replaced := @Amends.replace 0 "<project/>".toList ⟨.between 0 10, text⟩ rfl rfl
    have amends : Amends 0 "<project/>".toList
        (EditSet.edits ⟨path, [⟨.between 0 10, text⟩]⟩) text.toList := by
      simpa [EditSet.edits] using replaced
    simpa using amends.applyTo
  have visible := (Remedy.writes_of_pin computed).applyTo_ne_empty applied
  rw [← sameDocument] at computed
  have shown : (pin false).outcome reported = (.ok text, reported) :=
    outcome_resolve loads inEffect computed (by rw [sameDocument]; exact applied)
  obtain ⟨after, writes, rewrites⟩ := agrees.written text (by rw [shown]) visible
  exact ⟨text, after, shown, visible, writes, rewrites⟩

end CommandLine

end PomLens
