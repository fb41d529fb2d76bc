/-
This file says what tasks leave of a project, whatever came of each.

The tasks are done one after another, each to its end. What a task comes by settles the rest: a
reading of the descriptor, a report, or an answer of the build tool. For each of these one lemma
says what the task does with it (`perform_of_reading?` and its like), and `Effect` lists all that
a task can do. So a run leaves what its last reading and its last report left (`declared_after`,
`tree_after`), and a merged view stands only beside a declared one (`Paired.after`).
-/

import PomLens.Workspace.Inheritance

namespace PomLens.Project

/-! ### Tasks -/

/-- What can be done with a project. -/
inductive Task
  | parseDeclared (text : String)
  | reload (files : FileTree)
  | computeMerged (workspace : Workspace) (files : FileTree) (runner : Runner) (keepOld : Bool)
  | applyTreeReport (text : String)
  | refreshTree (runner : Runner)

/-- What a task gives that succeeds. -/
inductive Gain
  | declared
  | merged (view : MergedView)
  | tree (view : TreeView)
  deriving DecidableEq, Repr

/-- The project behind a task, and what came of it. -/
def perform (project : Project) : Task → Project × Except ProjectError Gain
  | .parseDeclared text => (project.parseDeclared text).map id (Except.map fun () => .declared)
  | .reload files => (project.reload files).map id (Except.map fun () => .declared)
  | .computeMerged workspace files runner keepOld =>
    (project.computeMerged workspace files runner keepOld).map id (Except.map .merged)
  | .applyTreeReport text => (project.applyTreeReport text).map id (Except.map .tree)
  | .refreshTree runner => (project.refreshTree runner).map id (Except.map .tree)

/-- The project when all the tasks are done, one after another. -/
def after (project : Project) (tasks : List Task) : Project :=
  tasks.foldl (fun project task => (project.perform task).1) project

@[simp] theorem after_nil (project : Project) : project.after [] = project := rfl

@[simp] theorem after_cons (project : Project) (task : Task) (rest : List Task) :
    project.after (task :: rest) = (project.perform task).1.after rest := rfl

/-! ### What a task comes by -/

namespace Task

/-- What reading a text of the descriptor comes to. -/
def readingOf (project : Project) (text : String) : Except ProjectError Descriptor :=
  (Descriptor.parse text).mapError (.invalid project.path)

/-- What reading the descriptor comes to, if the task reads it. -/
def reading? (project : Project) : Task → Option (Except ProjectError Descriptor)
  | .parseDeclared text => some (readingOf project text)
  | .reload files =>
    some ((files.read project.path).mapError (.unreadable project.path) >>= readingOf project)
  | _ => none

/-- What the build tool answers, if the task calls it. -/
def answer? (project : Project) : Task → Option (Except ProcessError String)
  | .computeMerged _ _ runner keepOld =>
    match project.requestMerged keepOld with
    | .ok none => some (runner.mergedDescriptor project.path).text
    | _ => none
  | .refreshTree runner => some (runner.treeReport project.path).text
  | _ => none

/-- The report that the task obtains, if it obtains one. -/
def report? (project : Project) : Task → Option String
  | .applyTreeReport text => some text
  | .refreshTree runner => (runner.treeReport project.path).text.toOption
  | _ => none

/-- What a merged descriptor comes to in which `name` selects a project. -/
def mergeOf (project : Project) (name text : String) : Except ProjectError MergedView :=
  ((Descriptor.parseMerged text name).map (⟨text, ·⟩)).mapError (.invalid project.path)

/-- What the merged descriptor comes to that the build tool gave to the task, if it gave one. -/
def merge? (project : Project) (task : Task) : Option (Except ProjectError MergedView) :=
  match task with
  | .computeMerged workspace files _ _ =>
    task.answer? project >>= Except.toOption >>= fun text =>
      some (mergeOf project (project.mergedName workspace files) text)
  | _ => none

end Task

/-! ### What comes of a task -/

section

variable (project : Project)

/-- A reading of the descriptor is stored. One that fails takes both views of it away. -/
def storeReading : Except ProjectError Descriptor → Project × Except ProjectError Gain
  | .ok descriptor => ({ project with declared := some descriptor }, .ok .declared)
  | .error error => ({ project with declared := none, merged := none }, .error error)

/-- A report is stored. One that cannot be read takes the tree away. -/
def storeReport (text : String) : Project × Except ProjectError Gain :=
  match Report.Forest.parse text with
  | .ok forest => ({ project with tree := some ⟨text, forest⟩ }, .ok (.tree ⟨text, forest⟩))
  | .error failure =>
    ({ project with tree := none }, .error (.invalid project.path (.report failure)))

/-- A merged view is stored. Without one nothing changes. -/
def storeMerge : Except ProjectError MergedView → Project × Except ProjectError Gain
  | .ok view => ({ project with merged := some view }, .ok (.merged view))
  | .error error => (project, .error error)

theorem parseDeclared_eq_storeReading (text : String) :
    (project.parseDeclared text).map id (Except.map fun () => Gain.declared) =
      project.storeReading (Task.readingOf project text) := by
  unfold parseDeclared Task.readingOf
  cases Descriptor.parse text <;> rfl

theorem applyTreeReport_eq_storeReport (text : String) :
    (project.applyTreeReport text).map id (Except.map Gain.tree) = project.storeReport text := by
  unfold applyTreeReport storeReport
  cases Report.Forest.parse text <;> rfl

theorem takeMerged_eq_storeMerge (name text : String) :
    (project.takeMerged name (.ok text)).map id (Except.map Gain.merged) =
      project.storeMerge (Task.mergeOf project name text) := by
  unfold takeMerged Task.mergeOf
  cases parsed : Descriptor.parseMerged text name <;> simp only [parsed] <;> rfl

end

section

variable {project : Project} {task : Task}

theorem perform_of_reading? {reading : Except ProjectError Descriptor}
    (read : task.reading? project = some reading) :
    project.perform task = project.storeReading reading := by
  cases task with
  | parseDeclared text =>
    cases read
    exact project.parseDeclared_eq_storeReading text
  | reload files =>
    cases read
    simp only [perform, reload]
    cases files.read project.path with
    | ok text => exact project.parseDeclared_eq_storeReading text
    | error failure => rfl
  | _ => cases read

theorem perform_of_report? {text : String} (report : task.report? project = some text) :
    project.perform task = project.storeReport text := by
  cases task with
  | applyTreeReport given =>
    cases report
    exact project.applyTreeReport_eq_storeReport text
  | refreshTree runner =>
    rw [Task.report?] at report
    simp only [perform, refreshTree, takeTreeReport]
    cases answer : (runner.treeReport project.path).text with
    | ok given =>
      rw [answer] at report
      cases report
      exact project.applyTreeReport_eq_storeReport text
    | error failure =>
      rw [answer] at report
      cases report
  | _ => cases report

theorem perform_of_unanswered {failure : ProcessError}
    (unanswered : task.answer? project = some (.error failure)) :
    project.perform task = (project, .error (.process project.path failure)) := by
  cases task with
  | computeMerged workspace files runner keepOld =>
    rw [Task.answer?] at unanswered
    split at unanswered
    · next request =>
      simp only [perform, computeMerged, request, Option.some.inj unanswered]
      rfl
    · cases unanswered
  | refreshTree runner =>
    simp only [perform, refreshTree, Option.some.inj unanswered]
    rfl
  | _ => cases unanswered

theorem perform_of_merge? {merge : Except ProjectError MergedView}
    (merges : task.merge? project = some merge) :
    project.perform task = project.storeMerge merge := by
  cases task with
  | computeMerged workspace files runner keepOld =>
    obtain ⟨answer, answered, given⟩ := Option.bind_eq_some_iff.mp merges
    obtain ⟨text, isText, read⟩ := Option.bind_eq_some_iff.mp answered
    rw [Task.answer?] at isText
    split at isText
    · next request =>
      cases given
      obtain rfl : text = .ok answer := by
        cases text with
        | ok text => cases read; rfl
        | error failure => cases read
      simp only [perform, computeMerged, request, Option.some.inj isText]
      exact project.takeMerged_eq_storeMerge _ answer
    · cases isText
  | _ => cases merges

theorem perform_of_undeclared (undeclared : project.declared = none) (workspace : Workspace)
    (files : FileTree) (runner : Runner) (keepOld : Bool) :
    project.perform (.computeMerged workspace files runner keepOld) =
      (project, .error (.notParsed project.path)) := by
  simp only [perform, computeMerged, requestMerged, undeclared]
  rfl

/-- A merged view that will do is given at once. -/
theorem perform_of_merged {view : MergedView} (declared : project.declared.isSome)
    (stored : project.merged = some view) (workspace : Workspace) (files : FileTree)
    (runner : Runner) :
    Task.answer? project (.computeMerged workspace files runner true) = none ∧
      project.perform (.computeMerged workspace files runner true) =
        (project, .ok (.merged view)) := by
  have request : project.requestMerged true = .ok (some view) := by
    obtain ⟨descriptor, isDescriptor⟩ := Option.isSome_iff_exists.mp declared
    simp [requestMerged, isDescriptor, stored, pure, Except.pure]
  simp only [Task.answer?, perform, computeMerged, request, true_and]
  rfl

end

theorem declared_of_requestMerged {project : Project} {keepOld : Bool} {view : Option MergedView}
    (request : project.requestMerged keepOld = .ok view) : project.declared.isSome := by
  unfold requestMerged at request
  split at request
  · cases request
  · next declared => simpa [Option.isSome_iff_ne_none] using declared

/-- All that a task can do to a project. -/
inductive Effect (project : Project) (task : Task) (next : Project) : Prop
  | read {reading : Except ProjectError Descriptor}
    (reads : task.reading? project = some reading) (unreported : task.report? project = none)
    (becomes : next = (project.storeReading reading).1)
  | reported {text : String} (unread : task.reading? project = none)
    (report : task.report? project = some text) (becomes : next = (project.storeReport text).1)
  | merged {merge : Except ProjectError MergedView} (unread : task.reading? project = none)
    (unreported : task.report? project = none) (declared : project.declared.isSome)
    (becomes : next = (project.storeMerge merge).1)
  | nothing (unread : task.reading? project = none) (unreported : task.report? project = none)
    (becomes : next = project)

theorem effect_computeMerged (project : Project) (workspace : Workspace) (files : FileTree)
    (runner : Runner) (keepOld : Bool) :
    Effect project (.computeMerged workspace files runner keepOld)
      (project.perform (.computeMerged workspace files runner keepOld)).1 := by
  simp only [perform, computeMerged]
  match request : project.requestMerged keepOld with
  | .error failure => exact .nothing rfl rfl rfl
  | .ok (some view) => exact .nothing rfl rfl rfl
  | .ok none =>
    match (runner.mergedDescriptor project.path).text with
    | .error failure => exact .nothing rfl rfl rfl
    | .ok text =>
      exact .merged rfl rfl (declared_of_requestMerged request)
        (congrArg Prod.fst (project.takeMerged_eq_storeMerge _ text))

theorem effect_refreshTree (project : Project) (runner : Runner) :
    Effect project (.refreshTree runner) (project.perform (.refreshTree runner)).1 := by
  cases answer : (runner.treeReport project.path).text with
  | ok text =>
    have report : Task.report? project (.refreshTree runner) = some text := by
      rw [Task.report?, answer]
      rfl
    exact .reported rfl report (by rw [perform_of_report? report])
  | error failure =>
    have unanswered : Task.answer? project (.refreshTree runner) = some (.error failure) := by
      rw [Task.answer?, answer]
    refine .nothing rfl ?_ (by rw [perform_of_unanswered unanswered])
    rw [Task.report?, answer]
    rfl

/-- A task does nothing else. -/
theorem effect_perform (project : Project) (task : Task) :
    Effect project task (project.perform task).1 := by
  cases task with
  | parseDeclared text => exact .read rfl rfl (by rw [perform_of_reading? rfl])
  | reload files => exact .read rfl rfl (by rw [perform_of_reading? rfl])
  | computeMerged workspace files runner keepOld =>
    exact effect_computeMerged project workspace files runner keepOld
  | applyTreeReport text => exact .reported rfl rfl (by rw [perform_of_report? rfl])
  | refreshTree runner => exact effect_refreshTree project runner

/-! ### What a run of tasks leaves -/

/-- What a run of tasks comes by, in order. -/
def collect {α : Type} (pick : Project → Task → Option α) (project : Project) :
    List Task → List α
  | [] => []
  | task :: rest => (pick project task).toList ++ collect pick (project.perform task).1 rest

/-- What the tasks of a run read of the descriptor. -/
def readings (project : Project) (tasks : List Task) : List (Except ProjectError Descriptor) :=
  project.collect (fun project task => task.reading? project) tasks

/-- The reports that the tasks of a run obtain. -/
def reports (project : Project) (tasks : List Task) : List String :=
  project.collect (fun project task => task.report? project) tasks

/-- If each task stores what it comes by, a run leaves what it came by last. -/
theorem stored_after {α β : Type} {pick : Project → Task → Option α} {field : Project → β}
    {store : α → β}
    (step : ∀ project task,
      field (project.perform task).1 = ((pick project task).map store).getD (field project))
    (project : Project) (tasks : List Task) :
    field (project.after tasks) =
      ((project.collect pick tasks).getLast?.map store).getD (field project) := by
  induction tasks generalizing project with
  | nil => rfl
  | cons task rest inductionHypothesis =>
    rw [after_cons, inductionHypothesis, step, collect, List.getLast?_append]
    cases (collect pick (project.perform task).1 rest).getLast? <;> cases pick project task <;> rfl

theorem declared_perform (project : Project) (task : Task) :
    (project.perform task).1.declared =
      ((task.reading? project).map Except.toOption).getD project.declared := by
  cases effect_perform project task with
  | @read reading reads unreported becomes =>
    rw [becomes, reads]
    cases reading <;> rfl
  | @reported text unread report becomes =>
    rw [becomes, unread, storeReport]
    cases Report.Forest.parse text <;> rfl
  | @merged merge unread unreported declared becomes =>
    rw [becomes, unread]
    cases merge <;> rfl
  | nothing unread unreported becomes =>
    rw [becomes, unread]
    rfl

/-- What a report says, if it can be read. -/
def readTree? (text : String) : Option TreeView :=
  (Report.Forest.parse text).toOption.map (⟨text, ·⟩)

theorem tree_perform (project : Project) (task : Task) :
    (project.perform task).1.tree =
      ((task.report? project).map readTree?).getD project.tree := by
  cases effect_perform project task with
  | @read reading reads unreported becomes =>
    rw [becomes, unreported]
    cases reading <;> rfl
  | @reported text unread report becomes =>
    rw [becomes, report, storeReport, Option.map_some, Option.getD_some, readTree?]
    cases Report.Forest.parse text <;> rfl
  | @merged merge unread unreported declared becomes =>
    rw [becomes, unreported]
    cases merge <;> rfl
  | nothing unread unreported becomes =>
    rw [becomes, unreported]
    rfl

theorem declared_after (project : Project) (tasks : List Task) :
    (project.after tasks).declared =
      ((project.readings tasks).getLast?.map Except.toOption).getD project.declared :=
  stored_after declared_perform project tasks

theorem tree_after (project : Project) (tasks : List Task) :
    (project.after tasks).tree =
      ((project.reports tasks).getLast?.map readTree?).getD project.tree :=
  stored_after tree_perform project tasks

/-- A merged view stands beside a declared one. -/
def Paired (project : Project) : Prop :=
  project.merged.isSome → project.declared.isSome

theorem Paired.perform {project : Project} (paired : project.Paired) (task : Task) :
    (project.perform task).1.Paired := by
  cases effect_perform project task with
  | @read reading reads unreported becomes =>
    rw [becomes]
    cases reading with
    | ok descriptor => exact fun _ => rfl
    | error failure => exact fun merged => nomatch merged
  | @reported text unread report becomes =>
    rw [becomes, storeReport]
    cases Report.Forest.parse text <;> exact paired
  | @merged merge unread unreported declared becomes =>
    rw [becomes]
    cases merge <;> exact fun _ => declared
  | nothing unread unreported becomes =>
    rw [becomes]
    exact paired

theorem Paired.after {project : Project} (paired : project.Paired) (tasks : List Task) :
    (project.after tasks).Paired := by
  induction tasks generalizing project with
  | nil => exact paired
  | cons task rest inductionHypothesis => exact inductionHypothesis (paired.perform task)

/-! ### What stands after a run -/

/-- What holds of a project whose tasks have read and obtained this, whatever is done next. -/
structure Settled (readings : List (Except ProjectError Descriptor)) (reports : List String)
    (project : Project) : Prop where
  /-- The declared view is there if the last reading of the descriptor succeeded. -/
  declared : project.declared = readings.getLast?.bind Except.toOption
  /-- The tree is there if the last report that was obtained can be read, and is what it says. -/
  stored : project.tree = reports.getLast?.bind readTree?
  /-- The tree says what its report says, and that is the last one obtained. -/
  tree : ∀ view, project.tree = some view →
    Report.Forest.parse view.text = .ok view.forest ∧ reports.getLast? = some view.text
  /-- Without an answer of the build tool nothing changes. -/
  unanswered : ∀ task failure, task.answer? project = some (.error failure) →
    project.perform task = (project, .error (.process project.path failure))
  /-- A report that cannot be read takes the tree away. -/
  unreported : ∀ task text failure, task.report? project = some text →
    Report.Forest.parse text = .error failure →
    project.perform task =
      ({ project with tree := none }, .error (.invalid project.path (.report failure)))
  /-- A descriptor that cannot be read takes both views of it away. -/
  unread : ∀ task error, task.reading? project = some (.error error) →
    project.perform task = ({ project with declared := none, merged := none }, .error error)
  /-- With a merged descriptor that cannot be read nothing changes. -/
  unmerged : ∀ task error, task.merge? project = some (.error error) →
    project.perform task = (project, .error error)
  /-- A merged view that is asked for too early changes nothing. -/
  refused : ∀ workspace files runner keepOld, readings.getLast?.bind Except.toOption = none →
    project.perform (.computeMerged workspace files runner keepOld) =
      (project, .error (.notParsed project.path))
  /-- A merged view that will do is given without the build tool. -/
  kept : ∀ workspace files runner view, project.merged = some view →
    Task.answer? project (.computeMerged workspace files runner true) = none ∧
      project.perform (.computeMerged workspace files runner true) = (project, .ok (.merged view))

theorem parse_of_readTree? {text : String} {view : TreeView}
    (read : readTree? text = some view) :
    Report.Forest.parse view.text = .ok view.forest ∧ text = view.text := by
  unfold readTree? at read
  cases parsed : Report.Forest.parse text with
  | ok forest =>
    rw [parsed] at read
    cases read
    exact ⟨parsed, rfl⟩
  | error failure =>
    rw [parsed] at read
    cases read

/-- Whatever was done with a project and whatever came of it, it is settled. -/
theorem settled_after (path : Path) (parentLink : Option Path) (tasks : List Task) :
    let start := { new path with parentLink }
    Settled (start.readings tasks) (start.reports tasks) (start.after tasks) := by
  intro start
  have declared : (start.after tasks).declared =
      (start.readings tasks).getLast?.bind Except.toOption := by
    rw [declared_after]
    cases (start.readings tasks).getLast? <;> rfl
  have stored : (start.after tasks).tree = (start.reports tasks).getLast?.bind readTree? := by
    rw [tree_after]
    cases (start.reports tasks).getLast? <;> rfl
  have paired : (start.after tasks).Paired := Paired.after (by simp [Paired, start, new]) tasks
  refine {
    declared
    stored
    tree := fun view isView => ?_
    unanswered := fun task failure answer => perform_of_unanswered answer
    unreported := fun task text failure report unparsed => ?_
    unread := fun task error reading => perform_of_reading? reading
    unmerged := fun task error merge => perform_of_merge? merge
    refused := fun workspace files runner keepOld failed =>
      perform_of_undeclared (declared.trans failed) workspace files runner keepOld
    kept := fun workspace files runner view stored =>
      perform_of_merged (paired (by rw [stored]; rfl)) stored workspace files runner }
  · obtain ⟨text, last, read⟩ := Option.bind_eq_some_iff.mp (stored.symm.trans isView)
    obtain ⟨parsed, same⟩ := parse_of_readTree? read
    exact ⟨parsed, last.trans (congrArg some same)⟩
  · rw [perform_of_report? report, storeReport, unparsed]

/-- By these a project comes by all of its views. -/
def wholeRun : List Task :=
  let descriptor := "<project><artifactId>p</artifactId></project>"
  [.parseDeclared descriptor,
    .computeMerged .empty .empty (.always ⟨.ok descriptor, .empty⟩) false,
    .applyTreeReport "g:p:jar:1\n\\- g:a:jar:1:compile\n"]

theorem settled_after_wholeRun :
    let start := new ⟨"/ws/pom.xml"⟩
    let project := start.after wholeRun
    (project.declared.isSome ∧ project.merged.isSome ∧ project.tree.isSome) ∧
      Settled (start.readings wholeRun) (start.reports wholeRun) project :=
  ⟨by decide +kernel, settled_after ⟨"/ws/pom.xml"⟩ none wholeRun⟩

end PomLens.Project
