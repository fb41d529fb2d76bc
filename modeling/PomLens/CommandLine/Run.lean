/-
This file defines what a run of the program does: from its arguments and the files that it
finds to what it prints, the files that it leaves, and its exit code.

Arguments that ask for no command end the run with code two, unless they ask for help or the
version, and a command that fails ends it with code one. Finding conflicts counts as failing,
so that the check can guard a build.
-/

import PomLens.BuildTool.Tool
import PomLens.CommandLine.Arguments
import PomLens.CommandLine.Commands

namespace PomLens.CommandLine

/-- How a run of the program ended. -/
structure Ending where
  code : Nat
  /-- What is printed. -/
  output : String
  /-- What is said about a failure. -/
  complaint : String
  files : FileTree

/-- The version of the program. -/
def versionText : String := "pomsense 0.1.0\n"

/-- How the program is used. -/
def usageText : String :=
  String.join
    ["Usage: pomsense [--config FILE] [--report FILE] [--verbose] COMMAND\n\n",
      "tree POM\n",
      "check POM\n",
      "resolve POM GROUP:ARTIFACT VERSION [--write]\n",
      "exclude POM GROUP:ARTIFACT [--write]\n",
      "projects [DIR]\n"]

/-- The settings that apply to a request. -/
def settingsFor (environment : Environment) (files : FileTree) (invocation : Invocation) :
    Except SettingsError Settings :=
  match invocation.config with
  | some path => Settings.load files path
  | none => Settings.discover environment files invocation.request.workspaceRoot

/-- The variables that the build tool finds. -/
def foundVariables (system : System) (environment : Environment) : Variables :=
  let configuration := environment.configHome.map fun folder => ("XDG_CONFIG_HOME", folder.text)
  [("PATH", system.searchPath), ("HOME", environment.home.text)] ++
    configuration.toList

/-- The runner of an invocation: the build tool, or a saved report in its place. -/
def runnerFor (system : System) (environment : Environment) (files : FileTree)
    (settings : Settings) (invocation : Invocation) : Runner :=
  let tool := settings.build.runner system files (foundVariables system environment)
  match invocation.report with
  | none => tool
  | some report => tool.withSavedReport files report

/-- Carries out a request, and gives what is printed. What was printed before a failure
stands. -/
def perform (settings : Settings) (runner : Runner) :
    Request → StateM FileTree (String × Except CommandError Unit)
  | .tree pom => shown (showTree runner pom)
  | .check pom => do
    match ← (check runner pom).run with
    | .error error => return ("", throw error)
    | .ok found =>
      return (found.listing, if 0 < found.count then throw (.conflicts found.count) else pure ())
  | .resolve pom artifact version write =>
    shown (resolve runner settings pom artifact version write)
  | .exclude pom artifact write => shown (exclude runner settings pom artifact write)
  | .projects folder => shown (listProjects settings.discovery folder)
where
  shown (step : Step String) : StateM FileTree (String × Except CommandError Unit) := do
    match ← step.run with
    | .error error => return ("", throw error)
    | .ok output => return (output, pure ())

/-- Runs the program. -/
def run (system : System) (environment : Environment) (files : FileTree)
    (arguments : List String) : Ending :=
  match parse arguments with
  | .error .helpAsked => ⟨0, usageText, "", files⟩
  | .error .versionAsked => ⟨0, versionText, "", files⟩
  | .error _ => ⟨2, "", usageText, files⟩
  | .ok invocation =>
    match settingsFor environment files invocation with
    | .error error => ⟨1, "", s!"Error: {error.message}\n", files⟩
    | .ok settings =>
      let runner := runnerFor system environment files settings invocation
      match (perform settings runner invocation.request).run files with
      | ((output, .error error), files) => ⟨1, output, s!"Error: {error.message}\n", files⟩
      | ((output, .ok ()), files) => ⟨0, output, "", files⟩

end PomLens.CommandLine
