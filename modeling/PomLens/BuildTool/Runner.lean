/-
This file says what the build tool is asked for and what may come of it.

The tool reports on a descriptor in two ways: it lists the dependencies of a project as a
tree, and it merges a descriptor with all that it inherits. Either answer is a text or an
error; a runner is whatever gives these answers.
-/

import PomLens.FileTree

namespace PomLens

/-- Why the build tool gave no answer. -/
inductive ProcessError
  /-- The program could not be started. -/
  | notStarted (program : Path) (error : FileError)
  /-- The program ended with a status other than zero, or by a signal if there is none. -/
  | failed (status : Option Int) (errors : String)
  /-- The program's output could not be read. -/
  | noOutput (error : FileError)
  deriving DecidableEq, Repr

def ProcessError.message : ProcessError → String
  | .notStarted program error => s!"failed to start {program.text}: {error.message}"
  | .failed none errors => s!"build tool exited with a signal: {errors}"
  | .failed (some status) errors => s!"build tool exited with status {status}: {errors}"
  | .noOutput error => s!"build tool output unavailable: {error.message}"

/-- What the build tool answered, and the files as it left them. -/
structure Reply where
  text : Except ProcessError String
  files : FileTree

/-- What the build tool answers for each descriptor. -/
structure Runner where
  /-- The tree of a project's dependencies. -/
  treeReport : Path → Reply
  /-- A descriptor merged with all that it inherits. -/
  mergedDescriptor : Path → Reply

/-- The runner that always gives the same answer. -/
def Runner.always (reply : Reply) : Runner :=
  ⟨fun _ => reply, fun _ => reply⟩

/-- A runner that reads the tree from a saved report instead, whatever the descriptor. -/
def Runner.withSavedReport (runner : Runner) (files : FileTree) (report : Path) : Runner where
  treeReport _ :=
    match files.read report with
    | .error error => ⟨throw (.noOutput error), files⟩
    | .ok text => ⟨return text, files⟩
  mergedDescriptor := runner.mergedDescriptor

end PomLens
