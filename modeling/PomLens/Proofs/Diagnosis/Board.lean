/-
This file says what is on a board after a publication.

A board is read by the steps of a path, so a publication is seen under every spelling with the
same steps and under no other. A refresh publishes the findings of its document, given the tree
that its project has by then: the one that the build tool reported, or the one from before if it
reported none.
-/

import PomLens.Diagnosis.Finding
import PomLens.Proofs.Project.Tasks
import PomLens.Session

namespace PomLens

open Markup (Tree)

/-! ### Spellings -/

theorem Path.same_iff {first second : Path} :
    first.same second = true ↔ first.components = second.components := by
  rw [Path.same, beq_iff_eq]

theorem Path.normalize_of_same {first second : Path} (same : first.same second = true) :
    first.normalize = second.normalize := by
  rw [Path.normalize, Path.normalize, Path.same_iff.mp same]

namespace Board

/-- What was published last is seen under every spelling with the same steps. -/
theorem get?_publish (board : Board) (path other : Path) (diagnostics : List Diagnostic) :
    (board.publish path diagnostics).get? other =
      if path.same other then some diagnostics else board.get? other := by
  rw [get?, get?, publish]
  simp only
  induction board.sets with
  | nil => by_cases seen : path.same other <;> simp [publish.publishIn, seen]
  | cons first rest inductionHypothesis =>
    obtain ⟨spelling, old⟩ := first
    rw [publish.publishIn]
    by_cases replaced : spelling.same path = true
    · have same : spelling.same other = path.same other := by
        rw [Path.same, Path.same, Path.same_iff.mp replaced]
      rw [if_pos replaced, List.find?_cons, List.find?_cons, same]
      by_cases seen : path.same other <;> simp [seen]
    · rw [if_neg replaced, List.find?_cons, List.find?_cons]
      by_cases seen : spelling.same other = true
      · have unseen : ¬ path.same other = true := fun same => replaced
          (Path.same_iff.mpr ((Path.same_iff.mp seen).trans (Path.same_iff.mp same).symm))
        simp [seen, unseen]
      · simpa [seen] using inductionHypothesis

end Board

/-! ### Refreshes -/

/-- The tree of a refresh's project when the answer of the build tool is taken up, if it was
`stored` until then. -/
def Regeneration.treeAfter (refresh : Regeneration) (stored : Option TreeView) : Option TreeView :=
  match refresh.answer with
  | some (.ok report) => Project.readTree? report
  | _ => stored

/-- The diagnostics are what is to be found in the document, given the tree of its project. Without
a tree there is no dependency, and where conflicts are not reported nothing is looked for. -/
def Document.HasFindings (document : Document) (settings : DiagnosticsSettings)
    (tree : Option TreeView) (diagnostics : List Diagnostic) : Prop :=
  if settings.conflicts then
    ∃ found, findings document ((tree.map TreeView.forest).getD .empty) = .ok found ∧
      diagnostics = found.map Finding.diagnostic
  else diagnostics = []

/-- A refresh publishes the findings of its document, or the document has no tree. -/
theorem refresh_cases (document : Document) (project : Project) (settings : DiagnosticsSettings)
    (board : Board) :
    (refresh document project settings board = (board, .skipped) ∧
        ∃ failure, Tree.parse document.text = .error failure) ∨
      ∃ diagnostics outcome, outcome ≠ .skipped ∧
        document.HasFindings settings project.tree diagnostics ∧
        refresh document project settings board =
          (board.publish document.path diagnostics, outcome) := by
  unfold refresh Document.HasFindings
  cases reported : settings.conflicts with
  | false => exact Or.inr ⟨[], .disabled, by simp, by simp, rfl⟩
  | true =>
    match computed : findings document ((project.tree.map TreeView.forest).getD .empty) with
    | .error failure =>
      refine Or.inl ⟨by simp [computed], failure, ?_⟩
      unfold findings at computed
      match parsed : Tree.parse document.text with
      | .error other =>
        rw [parsed] at computed
        cases computed
        rfl
      | .ok tree =>
        rw [parsed] at computed
        cases computed
    | .ok found =>
      exact Or.inr ⟨found.map Finding.diagnostic, .published found.length, by simp,
        by simp, by simp [computed]⟩

theorem Project.tree_takeTreeReport (project : Project) (answer : Except ProcessError String) :
    (project.takeTreeReport answer).1.tree = (answer.toOption.map readTree?).getD project.tree := by
  cases answer with
  | error failure => rfl
  | ok report =>
    simp only [takeTreeReport, applyTreeReport, Except.toOption, Option.map_some, Option.getD_some,
      readTree?]
    cases Report.Forest.parse report <;> rfl

namespace Desk

@[simp] theorem board_register (desk : Desk) (path : Path) :
    (desk.register path).1.board = desk.board := by
  unfold register
  split <;> rfl

@[simp] theorem board_takeUp (desk : Desk) (document : Document) :
    (desk.takeUp document).1.board = desk.board :=
  desk.board_register document.path

@[simp] theorem document_takeUp (desk : Desk) (document : Document) :
    (desk.takeUp document).2.1.document = document := rfl

@[simp] theorem board_beginRefresh (desk : Desk) (subject : Subject) :
    (desk.beginRefresh subject).1.board = desk.board := by
  unfold beginRefresh
  split <;> rfl

@[simp] theorem toSubject_beginRefresh (desk : Desk) (subject : Subject) :
    (desk.beginRefresh subject).2.2.toSubject = subject := by
  unfold beginRefresh
  split <;> rfl

/-- A document that was read has a tree. -/
theorem parsed_of_takeUp {desk : Desk} {document : Document}
    (read : (desk.takeUp document).2.2 = .ok ()) :
    ∃ tree, Tree.parse document.text = .ok tree := by
  match parsed : Tree.parse document.text with
  | .ok tree => exact ⟨tree, rfl⟩
  | .error failure =>
    simp [takeUp, Project.parseDeclared, Descriptor.parse, Descriptor.rootElement, parsed, throw,
      throwThe, MonadExceptOf.throw, bind, Except.bind] at read

/-- The tree that is there for a refresh before it ends. -/
def storedTree (desk : Desk) (refresh : Regeneration) : Option TreeView :=
  (desk.projectOf refresh.toSubject).tree

/-- A refresh ends with the tree that its answer brought. -/
theorem exists_endRefresh_eq (desk : Desk) (refresh : Regeneration) :
    ∃ workspace project, project.tree = refresh.treeAfter (desk.storedTree refresh) ∧
      desk.endRefresh refresh =
        ({ desk with
            workspace
            board := (PomLens.refresh refresh.document project desk.settings desk.board).1 },
          (PomLens.refresh refresh.document project desk.settings desk.board).2) := by
  refine ⟨_, _, ?_, rfl⟩
  rw [Regeneration.treeAfter, storedTree]
  match refresh.answer with
  | none => rfl
  | some (.error failure) => rfl
  | some (.ok report) => exact Project.tree_takeTreeReport _ (.ok report)

/-- What a refresh publishes when it ends, if it does. -/
def publication? (desk : Desk) (refresh : Regeneration) : Option (List Diagnostic) :=
  match desk.endRefresh refresh with
  | (_, .skipped) => none
  | (after, _) => after.board.get? refresh.document.path

/-- At its end a refresh publishes the findings of its document under the path of the document. If
it publishes nothing, the document has no tree. -/
theorem endRefresh_board (desk : Desk) (refresh : Regeneration) :
    match desk.publication? refresh with
    | none => (desk.endRefresh refresh).1.board = desk.board ∧
      ∃ failure, Tree.parse refresh.document.text = .error failure
    | some diagnostics =>
      (desk.endRefresh refresh).1.board =
          desk.board.publish refresh.document.path diagnostics ∧
        refresh.document.HasFindings desk.settings (refresh.treeAfter (desk.storedTree refresh))
          diagnostics := by
  obtain ⟨workspace, project, tree, ends⟩ := desk.exists_endRefresh_eq refresh
  rw [publication?, ends, ← tree]
  rcases refresh_cases refresh.document project desk.settings desk.board with
    ⟨skipped, failure⟩ | ⟨diagnostics, outcome, published, found, shown⟩
  · rw [skipped]
    exact ⟨rfl, failure⟩
  · have seen : (desk.board.publish refresh.document.path diagnostics).get?
        refresh.document.path = some diagnostics := by
      rw [Board.get?_publish, if_pos (Path.same_iff.mpr rfl)]
    rw [shown]
    cases outcome with
    | skipped => exact absurd rfl published
    | disabled =>
      simp only [seen]
      exact ⟨trivial, found⟩
    | published count =>
      simp only [seen]
      exact ⟨trivial, found⟩

@[simp] theorem settings_takeUp (desk : Desk) (document : Document) :
    (desk.takeUp document).1.settings = desk.settings := by
  have registered : (desk.register document.path).1.settings = desk.settings := by
    unfold register
    split <;> rfl
  exact registered

@[simp] theorem settings_beginRefresh (desk : Desk) (subject : Subject) :
    (desk.beginRefresh subject).1.settings = desk.settings := by
  unfold beginRefresh
  split <;> rfl

end Desk

end PomLens
