/-
This file says how the build tool is called: which program is run, with what arguments, and
what is made of how it ends.

The result of a goal is not what the program prints but a file that it is told to write. The
program is the nearest wrapper script if wrappers are preferred and there is one, and runs
in the folder of the descriptor. What programs do is up to the system that runs them.
-/

import PomLens.BuildTool.Runner
import PomLens.Settings

namespace PomLens

/-! ### Programs -/

/-- The name of wrapper scripts. -/
def wrapperName : String := "mvnw"

/-- The nearest wrapper beside a descriptor or further up. -/
def wrapperFor? (files : FileTree) (descriptor : Path) : Option Path := do
  let folder ← descriptor.parent?
  (folder.ancestors.map fun folder => folder / wrapperName).find? files.isFile

/-- The program to run for a descriptor. -/
def BuildSettings.programFor (settings : BuildSettings) (files : FileTree)
    (descriptor : Path) : Path :=
  let wrapper := if settings.preferWrapper then wrapperFor? files descriptor else none
  wrapper.getD ⟨settings.executable⟩

/-! ### Goals -/

/-- Something to ask of the build tool. -/
structure Goal where
  arguments : List String
  /-- The option that names the file for the result. -/
  outputOption : String
  deriving DecidableEq, Repr

namespace Goal

/-- The report on the tree of dependencies. -/
def tree : Goal :=
  ⟨["dependency:tree", "-Dverbose"], "-DoutputFile"⟩

/-- The descriptor merged with all that it inherits. -/
def merge : Goal :=
  ⟨["help:effective-pom"], "-Doutput"⟩

/-- The arguments of the program when it is to write its result to `output`. -/
def commandLine (goal : Goal) (output descriptor : Path) : List String :=
  goal.arguments ++ [s!"{goal.outputOption}={output.text}", "-f", descriptor.text]

end Goal

/-! ### Systems -/

/-- Variables that a program finds, as names with values. -/
abbrev Variables := List (String × String)

/-- How a program ended. -/
inductive Ended
  | status (status : Nat)
  | signal
  deriving DecidableEq, Repr

/-- What came of running a program. -/
structure Outcome where
  ended : Ended
  /-- What was written for errors. -/
  errors : String
  files : FileTree

/-- What runs programs. -/
structure System where
  /-- Where programs are looked for that are named without a folder. -/
  searchPath : String
  /-- Runs a program in a folder with some arguments. -/
  launch : FileTree → Variables → (folder program : Path) → (arguments : List String) →
    Except FileError Outcome

/-! ### Running -/

/-- The folder that is made for what a program is told to write. -/
def outputFolder : FileLocation := ["tmp", "pomsense-output"]

/-- The file that programs are told to write, in a folder of its own. -/
def outputFile : Path := ⟨"/tmp/pomsense-output/output.txt"⟩

/-- What is made of how a program ended. -/
def readOutcome (outcome : Outcome) : Except ProcessError String :=
  match outcome.ended with
  | .signal => throw (.failed none outcome.errors)
  | .status (status + 1) => throw (.failed (some (status + 1 : Nat)) outcome.errors)
  | .status 0 =>
    match outcome.files.read outputFile with
    | .error error => throw (.noOutput error)
    | .ok text => return text

/-- Asks the build tool for a goal. -/
def BuildSettings.runGoal (settings : BuildSettings) (system : System) (files : FileTree)
    (found : Variables) (goal : Goal) (descriptor : Path) : Reply :=
  match descriptor.absolute? files.current with
  | none => ⟨throw (.noOutput .emptyPath), files⟩
  | some descriptor =>
    let program := settings.programFor files descriptor
    let folder := (descriptor.parent?.filter fun folder => folder.text ≠ "").getD files.current
    let prepared := files.add outputFolder .folder
    let arguments := goal.commandLine outputFile descriptor
    match system.launch prepared found folder program arguments with
    | .error error => ⟨throw (.notStarted program error), files⟩
    | .ok outcome => ⟨readOutcome outcome, outcome.files.remove outputFolder⟩

/-- The runner that asks the build tool where it finds some variables. -/
def BuildSettings.runner (settings : BuildSettings) (system : System) (files : FileTree)
    (found : Variables) : Runner where
  treeReport := settings.runGoal system files found .tree
  mergedDescriptor := settings.runGoal system files found .merge

end PomLens
