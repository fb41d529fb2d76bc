/-
This file defines a session: the diagnostics of documents that an editor has open.

Every change of a document is read at once, but the dependency tree behind its diagnostics
is expensive, so asking the build tool for it waits until the changes pause. A change that
cannot be read takes the place of nothing: it only gives up the refresh that waits. What the
build tool answers is fixed when it is asked, and arrives when it is done.
-/

import PomLens.Diagnosis.Finding
import PomLens.Schedule.Clock
import PomLens.Workspace.Registry

namespace PomLens

/-! ### What refreshes read and change -/

/-- An answer of the build tool and the time it takes, in milliseconds. -/
structure TimedAnswer where
  outcome : Except ProcessError String
  duration : Nat

/-- The state of a session but for what has to do with time. -/
structure Desk where
  workspace : Workspace
  /-- The diagnostics published so far. -/
  board : Board
  settings : DiagnosticsSettings
  /-- What the build tool would answer for each descriptor now. -/
  tool : Path → TimedAnswer
  /-- How often the build tool was asked for a tree. -/
  requests : Nat

/-- What is to be refreshed, as it was when the refresh was asked for. -/
structure Subject where
  document : Document
  /-- The project of the document. -/
  project : Project
  deriving DecidableEq

/-- A refresh under way. -/
structure Regeneration extends Subject where
  /-- What the build tool will have answered, if it was asked. -/
  answer : Option (Except ProcessError String)

namespace Desk

/-- The project of a descriptor, registered if it was not. -/
def register (desk : Desk) (path : Path) : Desk × Project :=
  match desk.workspace.get? path with
  | some project => (desk, project)
  | none =>
    let project := Project.new path
    ({ desk with workspace := (desk.workspace.insert project).1 }, project)

/-- Reads a new text of a document into its project. Gives what a refresh of it is about, and
what reading came to. -/
def takeUp (desk : Desk) (document : Document) : Desk × Subject × Except ProjectError Unit :=
  let (desk, project) := desk.register document.path
  let (project, result) := project.parseDeclared document.text
  ({ desk with workspace := (desk.workspace.insert project).1 }, ⟨document, project⟩, result)

/-- Begins a refresh: asks the build tool for the tree of the project, unless conflicts are not
reported. Says how long that takes. -/
def beginRefresh (desk : Desk) (subject : Subject) : Desk × Nat × Regeneration :=
  if desk.settings.conflicts then
    let answer := desk.tool subject.project.path
    ({ desk with requests := desk.requests + 1 }, answer.duration,
      { subject with answer := some answer.outcome })
  else (desk, 0, { subject with answer := none })

/-- The project of a refresh as it is by now. One that was taken out of the registry meanwhile
is as it was. Projects are told apart by their paths: one that was registered anew under the path
counts as the same. -/
def projectOf (desk : Desk) (subject : Subject) : Project :=
  (desk.workspace.get? subject.project.path).getD subject.project

/-- Ends a refresh: takes up the tree if there is one, and publishes the diagnostics. A project
that was taken out of the registry is not registered again. -/
def endRefresh (desk : Desk) (refresh : Regeneration) : Desk × RefreshOutcome :=
  let project := desk.projectOf refresh.toSubject
  let project :=
    match refresh.answer with
    | none => project
    | some answer => (project.takeTreeReport answer).1
  let (board, outcome) := PomLens.refresh refresh.document project desk.settings desk.board
  let workspace := desk.workspace.update project.path fun _ => project
  ({ desk with workspace, board }, outcome)

end Desk

/-! ### Sessions -/

/-- Refreshes wait under the normalized paths of their documents. -/
abbrev Session := Clock Path Subject Regeneration Desk

namespace Session

/-- How a session refreshes documents. -/
def worker : Worker Path Subject Regeneration Desk where
  start _ desk _ subject := desk.beginRefresh subject
  finish _ desk _ refresh := (desk.endRefresh refresh).1

/-- A session without projects, for which the build tool has no answers yet. -/
def start (diagnostics : DiagnosticsSettings) (delays : DelaySettings) : Session :=
  .new delays
    { workspace := .empty
      board := .empty
      settings := diagnostics
      tool := fun _ => ⟨throw (.failed (some 1) ""), 0⟩
      requests := 0 }

/-- From now on the build tool has another answer for a descriptor. -/
def setAnswer (session : Session) (path : Path) (answer : TimedAnswer) : Session :=
  let tool := session.world.tool
  { session with
    world :=
      { session.world with tool := fun other => if other.same path then answer else tool other } }

/-- A document has changed. If it can be read, its refresh waits, in place of an older one;
else an older one is given up, and what was published stays. -/
def changed (session : Session) (document : Document) : Session :=
  let (world, subject, result) := session.world.takeUp document
  let key := document.path.normalize
  match result with
  | .ok () => Clock.schedule { session with world } key subject
  | .error _ => (Clock.cancel { session with world } key).1

/-- Refreshes a document without waiting. Time passes until the build tool has answered; what
else is due at that instant happens after the refresh. A document that cannot be read is
refreshed too. -/
def refreshNow (session : Session) (document : Document) : Session × RefreshOutcome :=
  let (world, subject, _) := session.world.takeUp document
  let (world, duration, refresh) := world.beginRefresh subject
  let begun := { session with world }
  let session := if duration = 0 then begun else begun.reach worker (begun.now + duration)
  let (world, outcome) := session.world.endRefresh refresh
  ({ session with world }, outcome)

/-- A document was closed. Its refresh is given up if it waits, and its diagnostics are
cleared. -/
def closed (session : Session) (path : Path) : Session :=
  let (session, _) := Clock.cancel session path.normalize
  let desk := session.world
  { session with world := { desk with board := desk.board.publish path [] } }

/-- How long a refresh of a document would wait if its path, without more than its plainest
spelling, were its key. -/
def delayFor (session : Session) (path : Path) : Session × Nat :=
  Clock.delayFor session path.plain

/-- Lets time pass. -/
def wait (session : Session) (duration : Nat) : Session :=
  Clock.advance worker duration session

end Session

end PomLens
