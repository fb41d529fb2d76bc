/-
This file lets a session go on in every order in which it can.

The clock of a session settles when timers run down and when the build tool answers. Here
nothing is settled: any timer may run down next, any refresh under way may end next, and a work
may have taken any time. Each step is made by the session's own operations, and a history keeps
what has happened. A timer that was replaced or given up may still run down, or be stopped; and
between any two steps others may change the workspace and what the build tool would answer.
-/

import Mathlib.Logic.Relation
import PomLens.Proofs.Diagnosis.Board
import PomLens.Proofs.Schedule.Pending

namespace PomLens

/-! ### States -/

/-- A document that waits to be refreshed, under the key and with the token of its work. -/
structure Snapshot extends Subject where
  key : Path
  token : Nat
  deriving DecidableEq

/-- A refresh under way. One that did not wait has no token. -/
structure Run where
  key : Path
  token : Option Nat
  refresh : Regeneration

/-- The snapshot that a refresh is made of, if it waited. -/
def Run.snapshot? (run : Run) : Option Snapshot :=
  run.token.map fun token => ⟨run.refresh.toSubject, run.key, token⟩

inductive Happening
  /-- A change of a document was read, and its refresh waits. -/
  | accepted (snapshot : Snapshot)
  /-- A change could not be read. -/
  | rejected (document : Document)
  | closed (path : Path)
  /-- A document is refreshed without waiting. -/
  | asked (document : Document)
  /-- A refresh that waited has started. -/
  | started (snapshot : Snapshot)
  /-- A refresh has ended and published this, if anything. -/
  | ended (run : Run) (published : Option (List Diagnostic))

structure Flow where
  debouncer : Debouncer Path
  desk : Desk
  /-- The timers that have neither run down nor been stopped. -/
  timers : List Snapshot
  /-- The refreshes under way. -/
  runs : List Run
  history : List Happening

namespace Flow

/-! ### Steps -/

/-- A document has changed. -/
def changed (flow : Flow) (document : Document) : Flow :=
  let key := document.path.normalize
  let (desk, subject, result) := flow.desk.takeUp document
  match result with
  | .ok () =>
    let (debouncer, ticket) := flow.debouncer.schedule key
    let snapshot : Snapshot := ⟨subject, key, ticket.token⟩
    { flow with
      debouncer, desk
      timers := flow.timers ++ [snapshot]
      history := flow.history ++ [.accepted snapshot] }
  | .error _ =>
    { flow with
      debouncer := (flow.debouncer.cancel key).1
      desk
      history := flow.history ++ [.rejected document] }

/-- A document was closed. -/
def closed (flow : Flow) (path : Path) : Flow :=
  { flow with
    debouncer := (flow.debouncer.cancel path.normalize).1
    desk := { flow.desk with board := flow.desk.board.publish path [] }
    history := flow.history ++ [.closed path] }

/-- A document is to be refreshed without waiting. -/
def asked (flow : Flow) (document : Document) : Flow :=
  let (desk, subject, _) := flow.desk.takeUp document
  let (desk, _, refresh) := desk.beginRefresh subject
  { flow with
    desk
    runs := flow.runs ++ [⟨document.path.normalize, none, refresh⟩]
    history := flow.history ++ [.asked document] }

/-- A timer has run down. -/
def fired (flow : Flow) (snapshot : Snapshot) : Flow :=
  match flow.debouncer.expire? snapshot.key snapshot.token with
  | none => flow
  | some debouncer =>
    let (desk, _, refresh) := flow.desk.beginRefresh snapshot.toSubject
    { flow with
      debouncer, desk
      runs := flow.runs ++ [⟨snapshot.key, some snapshot.token, refresh⟩]
      history := flow.history ++ [.started snapshot] }

/-- A refresh has ended. The time it took is taken up if it had waited. -/
def ended (flow : Flow) (run : Run) (nanoseconds : Nat) : Flow :=
  { flow with
    debouncer :=
      if run.token.isSome then flow.debouncer.record run.key nanoseconds else flow.debouncer
    desk := (flow.desk.endRefresh run.refresh).1
    history := flow.history ++ [.ended run (flow.desk.publication? run.refresh)] }

inductive Step (flow : Flow) : Flow → Prop
  | changed (document : Document) : Step flow (flow.changed document)
  | closed (path : Path) : Step flow (flow.closed path)
  | asked (document : Document) : Step flow (flow.asked document)
  | fired {snapshot : Snapshot} {rest : List Snapshot}
      (waiting : flow.timers.Perm (snapshot :: rest)) :
      Step flow (fired { flow with timers := rest } snapshot)
  /-- Only a timer that was replaced or given up is stopped. -/
  | stopped {snapshot : Snapshot} {rest : List Snapshot}
      (waiting : flow.timers.Perm (snapshot :: rest))
      (superseded : flow.debouncer.token? snapshot.key ≠ some snapshot.token) :
      Step flow { flow with timers := rest }
  | ended {run : Run} {rest : List Run} (underWay : flow.runs.Perm (run :: rest))
      (nanoseconds : Nat) : Step flow (ended { flow with runs := rest } run nanoseconds)
  /-- Somebody asks how long a work would wait. -/
  | looked (key : Path) : Step flow { flow with debouncer := (flow.debouncer.delayFor key).1 }
  /-- Others change the workspace, and the build tool its answers. -/
  | elsewhere (workspace : Workspace) (tool : Path → TimedAnswer) :
      Step flow { flow with desk := { flow.desk with workspace, tool } }

/-- Any number of steps. -/
abbrev Steps : Flow → Flow → Prop := Relation.ReflTransGen Step

/-- Nothing has happened yet. -/
structure Fresh (flow : Flow) : Prop where
  pending : flow.debouncer.pending = []
  timers : flow.timers = []
  runs : flow.runs = []
  history : flow.history = []

/-- A state that a session can come to. -/
def Reachable (flow : Flow) : Prop :=
  ∃ start, Fresh start ∧ Steps start flow

theorem Reachable.step {flow next : Flow} (reachable : flow.Reachable) (step : Step flow next) :
    next.Reachable := by
  obtain ⟨start, fresh, steps⟩ := reachable
  exact ⟨start, fresh, steps.tail step⟩

theorem Reachable.steps {flow later : Flow} (reachable : flow.Reachable)
    (steps : Steps flow later) : later.Reachable := by
  obtain ⟨start, fresh, before⟩ := reachable
  exact ⟨start, fresh, before.trans steps⟩

/-- What holds at the start and is kept by every step holds always. -/
theorem Reachable.induction {holds : Flow → Prop} (fresh : ∀ flow, Fresh flow → holds flow)
    (step : ∀ flow next, flow.Reachable → holds flow → Step flow next → holds next) {flow : Flow}
    (reachable : flow.Reachable) : holds flow := by
  obtain ⟨start, isFresh, steps⟩ := reachable
  induction steps with
  | refl => exact fresh start isFresh
  | tail before next inductionHypothesis =>
    exact step _ _ ⟨start, isFresh, before⟩ inductionHypothesis next

/-! ### What a step can do -/

/-- The state behind a step, as far as refreshes and diagnostics are concerned. -/
structure Becomes (flow next : Flow) (lastToken : Nat) (token? : Path → Option Nat)
    (timers : List Snapshot) (runs : List Run) (happened : List Happening) (board : Board) :
    Prop where
  lastToken : next.debouncer.lastToken = lastToken
  token? : ∀ key, next.debouncer.token? key = token? key
  timers : next.timers = timers
  runs : next.runs = runs
  history : next.history = flow.history ++ happened
  board : next.desk.board = board

/-- The diagnostics are the findings of the refresh if it ends now: those in its document, given
the tree that its project has when the answer of the build tool is taken up. -/
def Finds (flow : Flow) (run : Run) (diagnostics : List Diagnostic) : Prop :=
  run.refresh.document.HasFindings flow.desk.settings
    (run.refresh.treeAfter (flow.desk.storedTree run.refresh)) diagnostics

/-- The tokens that wait when nothing waits for a key any more. -/
def without (flow : Flow) (key other : Path) : Option Nat :=
  if other = key then none else flow.debouncer.token? other

/-- All that a step can do. -/
inductive Effect (flow next : Flow) : Prop
  | accepted (snapshot : Snapshot) (key : snapshot.key = snapshot.document.path.normalize)
      (token : snapshot.token = flow.debouncer.lastToken + 1)
      (parsed : ∃ tree, Markup.Tree.parse snapshot.document.text = .ok tree)
      (becomes : Becomes flow next snapshot.token
        (fun other => if other = snapshot.key then some snapshot.token
          else flow.debouncer.token? other)
        (flow.timers ++ [snapshot]) flow.runs [.accepted snapshot] flow.desk.board)
  | rejected (document : Document)
      (becomes : Becomes flow next flow.debouncer.lastToken (flow.without document.path.normalize)
        flow.timers flow.runs [.rejected document] flow.desk.board)
  | closed (path : Path)
      (becomes : Becomes flow next flow.debouncer.lastToken (flow.without path.normalize)
        flow.timers flow.runs [.closed path] (flow.desk.board.publish path []))
  | asked (document : Document) (run : Run) (key : run.key = document.path.normalize)
      (token : run.token = none) (same : run.refresh.document = document)
      (becomes : Becomes flow next flow.debouncer.lastToken flow.debouncer.token? flow.timers
        (flow.runs ++ [run]) [.asked document] flow.desk.board)
  | started (snapshot : Snapshot) (rest : List Snapshot) (run : Run)
      (waiting : flow.timers.Perm (snapshot :: rest))
      (pending : flow.debouncer.token? snapshot.key = some snapshot.token)
      (same : run.snapshot? = some snapshot)
      (becomes : Becomes flow next flow.debouncer.lastToken (flow.without snapshot.key) rest
        (flow.runs ++ [run]) [.started snapshot] flow.desk.board)
  | stopped (snapshot : Snapshot) (rest : List Snapshot)
      (waiting : flow.timers.Perm (snapshot :: rest))
      (superseded : flow.debouncer.token? snapshot.key ≠ some snapshot.token)
      (becomes : Becomes flow next flow.debouncer.lastToken flow.debouncer.token? rest flow.runs
        [] flow.desk.board)
  | published (run : Run) (rest : List Run) (diagnostics : List Diagnostic)
      (underWay : flow.runs.Perm (run :: rest))
      (findings : flow.Finds run diagnostics)
      (becomes : Becomes flow next flow.debouncer.lastToken flow.debouncer.token? flow.timers rest
        [.ended run (some diagnostics)]
        (flow.desk.board.publish run.refresh.document.path diagnostics))
  | skipped (run : Run) (rest : List Run) (underWay : flow.runs.Perm (run :: rest))
      (failure : ∃ failure, Markup.Tree.parse run.refresh.document.text = .error failure)
      (becomes : Becomes flow next flow.debouncer.lastToken flow.debouncer.token? flow.timers rest
        [.ended run none] flow.desk.board)
  | nothing
      (becomes : Becomes flow next flow.debouncer.lastToken flow.debouncer.token? flow.timers
        flow.runs [] flow.desk.board)

/-- The snapshot of a change that is accepted next. -/
def nextSnapshot (flow : Flow) (document : Document) : Snapshot :=
  ⟨(flow.desk.takeUp document).2.1, document.path.normalize, flow.debouncer.lastToken + 1⟩

/-- A change that can be read waits, in place of an older one. -/
theorem becomes_changed {flow : Flow} {document : Document}
    (read : (flow.desk.takeUp document).2.2 = .ok ()) :
    Becomes flow (flow.changed document) (flow.debouncer.lastToken + 1)
      (fun other => if other = document.path.normalize then some (flow.debouncer.lastToken + 1)
        else flow.debouncer.token? other)
      (flow.timers ++ [flow.nextSnapshot document]) flow.runs
      [.accepted (flow.nextSnapshot document)] flow.desk.board := by
  have board := flow.desk.board_takeUp document
  unfold changed nextSnapshot
  match taken : flow.desk.takeUp document with
  | (desk, subject, .ok ()) =>
    rw [taken] at board
    exact ⟨rfl, fun other => flow.debouncer.token?_schedule _ other, rfl, rfl, rfl, board⟩
  | (desk, subject, .error failure) =>
    rw [taken] at read
    cases read

theorem effect_changed (flow : Flow) (document : Document) :
    Effect flow (flow.changed document) := by
  match taken : flow.desk.takeUp document with
  | (desk, subject, .ok ()) =>
    have read : (flow.desk.takeUp document).2.2 = .ok () := by rw [taken]
    exact .accepted (flow.nextSnapshot document) rfl rfl (Desk.parsed_of_takeUp read)
      (becomes_changed read)
  | (desk, subject, .error failure) =>
    have board := flow.desk.board_takeUp document
    rw [taken] at board
    have changed : flow.changed document =
        { flow with
          debouncer := (flow.debouncer.cancel document.path.normalize).1
          desk
          history := flow.history ++ [.rejected document] } := by
      simp only [Flow.changed, taken]
    rw [changed]
    exact .rejected document ⟨rfl, fun other => flow.debouncer.token?_cancel _ other, rfl, rfl,
      rfl, board⟩

theorem effect_asked (flow : Flow) (document : Document) : Effect flow (flow.asked document) := by
  refine .asked document _ rfl rfl ?_ ⟨rfl, fun _ => rfl, rfl, rfl, rfl, ?_⟩
  · exact congrArg Subject.document (Desk.toSubject_beginRefresh _ _)
  · exact (Desk.board_beginRefresh _ _).trans (flow.desk.board_takeUp document)

/-- The timer of the work that waits starts its refresh. -/
theorem becomes_fired {flow : Flow} {snapshot : Snapshot}
    (pending : flow.debouncer.token? snapshot.key = some snapshot.token) (rest : List Snapshot) :
    ∃ run, run.snapshot? = some snapshot ∧
      Becomes flow (fired { flow with timers := rest } snapshot) flow.debouncer.lastToken
        (flow.without snapshot.key) rest (flow.runs ++ [run]) [.started snapshot]
        flow.desk.board := by
  unfold fired
  match starts : flow.debouncer.expire? snapshot.key snapshot.token with
  | none =>
    rw [Debouncer.expire?, if_pos pending] at starts
    cases starts
  | some debouncer =>
    obtain ⟨-, lastToken, others⟩ := Debouncer.of_expire?_eq_some starts
    refine ⟨_, ?_, lastToken, others, rfl, rfl, rfl, Desk.board_beginRefresh _ _⟩
    simp [Run.snapshot?]

theorem effect_fired {flow : Flow} {snapshot : Snapshot} {rest : List Snapshot}
    (waiting : flow.timers.Perm (snapshot :: rest)) :
    Effect flow (fired { flow with timers := rest } snapshot) := by
  by_cases pending : flow.debouncer.token? snapshot.key = some snapshot.token
  · obtain ⟨run, same, becomes⟩ := becomes_fired pending rest
    exact .started snapshot rest run waiting pending same becomes
  · have nothing : fired { flow with timers := rest } snapshot = { flow with timers := rest } := by
      simp only [fired, Debouncer.expire?_of_ne _ pending]
    rw [nothing]
    exact .stopped snapshot rest waiting pending ⟨rfl, fun _ => rfl, rfl, rfl, by simp, rfl⟩

theorem effect_ended {flow : Flow} {run : Run} {rest : List Run}
    (underWay : flow.runs.Perm (run :: rest)) (nanoseconds : Nat) :
    Effect flow (ended { flow with runs := rest } run nanoseconds) := by
  have board := flow.desk.endRefresh_board run.refresh
  have tokens : (ended { flow with runs := rest } run nanoseconds).debouncer.lastToken =
      flow.debouncer.lastToken ∧ ∀ key,
        (ended { flow with runs := rest } run nanoseconds).debouncer.token? key =
          flow.debouncer.token? key := by
    unfold ended
    simp only
    split <;> simp
  cases published : flow.desk.publication? run.refresh with
  | none =>
    rw [published] at board
    exact .skipped run rest underWay board.2
      ⟨tokens.1, tokens.2, rfl, rfl, by simp [ended, published], board.1⟩
  | some diagnostics =>
    rw [published] at board
    exact .published run rest diagnostics underWay board.2
      ⟨tokens.1, tokens.2, rfl, rfl, by simp [ended, published], board.1⟩

/-- A step does nothing else. -/
theorem Step.effect {flow next : Flow} (step : Step flow next) : Effect flow next := by
  cases step with
  | changed document => exact effect_changed flow document
  | closed path =>
    exact .closed path
      ⟨rfl, fun other => flow.debouncer.token?_cancel _ other, rfl, rfl, rfl, rfl⟩
  | asked document => exact effect_asked flow document
  | fired waiting => exact effect_fired waiting
  | stopped waiting superseded =>
    exact .stopped _ _ waiting superseded ⟨rfl, fun _ => rfl, rfl, rfl, by simp, rfl⟩
  | ended underWay nanoseconds => exact effect_ended underWay nanoseconds
  | looked key => exact .nothing ⟨rfl, fun _ => rfl, rfl, rfl, by simp, rfl⟩
  | elsewhere workspace tool => exact .nothing ⟨rfl, fun _ => rfl, rfl, rfl, by simp, rfl⟩

/-- What is reported stays as it was set. -/
theorem Step.settings {flow next : Flow} (step : Step flow next) :
    next.desk.settings = flow.desk.settings := by
  cases step with
  | changed document =>
    have settings := flow.desk.settings_takeUp document
    unfold Flow.changed
    match taken : flow.desk.takeUp document with
    | (desk, subject, .ok ()) | (desk, subject, .error failure) =>
      rw [taken] at settings
      exact settings
  | asked document =>
    exact (Desk.settings_beginRefresh _ _).trans (flow.desk.settings_takeUp document)
  | @fired snapshot rest waiting =>
    unfold Flow.fired
    split
    · rfl
    · exact Desk.settings_beginRefresh _ _
  | @ended run rest underWay nanoseconds =>
    obtain ⟨_, _, -, ends⟩ := flow.desk.exists_endRefresh_eq run.refresh
    exact congrArg (·.1.settings) ends
  | closed | stopped | looked | elsewhere => rfl

theorem Steps.settings {flow later : Flow} (steps : Steps flow later) :
    later.desk.settings = flow.desk.settings := by
  induction steps with
  | refl => rfl
  | tail before step inductionHypothesis => exact step.settings.trans inductionHypothesis

/-! ### What has happened -/

/-- What holds of a state in which something happens next. -/
def Allows (flow : Flow) : Happening → Prop
  | .accepted snapshot => ∃ tree, Markup.Tree.parse snapshot.document.text = .ok tree
  | .started snapshot =>
    snapshot ∈ flow.timers ∧ flow.debouncer.token? snapshot.key = some snapshot.token
  | .ended run none =>
    run ∈ flow.runs ∧ ∃ failure, Markup.Tree.parse run.refresh.document.text = .error failure
  | .ended run (some diagnostics) =>
    run ∈ flow.runs ∧ flow.Finds run diagnostics
  | _ => True

/-- In a step at most one thing happens. -/
theorem Step.history {flow next : Flow} (step : Step flow next) :
    next.history = flow.history ∨
      ∃ happening, next.history = flow.history ++ [happening] ∧ flow.Allows happening := by
  cases step.effect with
  | accepted snapshot _ _ parsed becomes => exact Or.inr ⟨_, becomes.history, parsed⟩
  | rejected document becomes => exact Or.inr ⟨_, becomes.history, trivial⟩
  | closed path becomes => exact Or.inr ⟨_, becomes.history, trivial⟩
  | asked document _ _ _ _ becomes => exact Or.inr ⟨_, becomes.history, trivial⟩
  | started snapshot rest _ waiting pending _ becomes =>
    exact Or.inr ⟨_, becomes.history, waiting.mem_iff.mpr List.mem_cons_self, pending⟩
  | published run rest _ underWay findings becomes =>
    exact Or.inr ⟨_, becomes.history, underWay.mem_iff.mpr List.mem_cons_self, findings⟩
  | skipped run rest underWay failure becomes =>
    exact Or.inr ⟨_, becomes.history, underWay.mem_iff.mpr List.mem_cons_self, failure⟩
  | stopped _ _ _ _ becomes => exact Or.inl (by simpa using becomes.history)
  | nothing becomes => exact Or.inl (by simpa using becomes.history)

/-- Behind `early`, this has happened in the step from one state to another. -/
structure HappenedIn (flow : Flow) (early : List Happening) (happening : Happening)
    (before after : Flow) : Prop where
  reachable : before.Reachable
  step : Step before after
  steps : Steps after flow
  before : before.history = early
  after : after.history = early ++ [happening]

theorem HappenedIn.settings {flow before after : Flow} {early : List Happening}
    {happening : Happening} (happened : flow.HappenedIn early happening before after) :
    before.desk.settings = flow.desk.settings :=
  happened.step.settings.symm.trans happened.steps.settings.symm

/-- Whatever has happened, there was a step in which it happened. -/
theorem exists_step {flow : Flow} (reachable : flow.Reachable) {early late : List Happening}
    {happening : Happening} (whole : flow.history = early ++ happening :: late) :
    ∃ before after : Flow, flow.HappenedIn early happening before after ∧
      before.Allows happening := by
  obtain ⟨start, fresh, steps⟩ := reachable
  induction steps generalizing early late happening with
  | refl =>
    rw [fresh.history] at whole
    simp at whole
  | @tail flow next earlier step inductionHypothesis =>
    have before {late : List Happening} (whole : flow.history = early ++ happening :: late) :
        ∃ before after : Flow, next.HappenedIn early happening before after ∧
          before.Allows happening := by
      obtain ⟨before, after, happened, allows⟩ := inductionHypothesis whole
      exact ⟨before, after, { happened with steps := happened.steps.tail step }, allows⟩
    rcases step.history with same | ⟨last, more, allows⟩
    · exact before (same.symm.trans whole)
    · rw [more] at whole
      rcases List.eq_nil_or_concat late with rfl | ⟨shorter, final, rfl⟩
      · obtain ⟨same, isLast⟩ := List.append_inj' whole rfl
        rw [List.cons.injEq] at isLast
        obtain ⟨rfl, -⟩ := isLast
        exact ⟨flow, next, ⟨⟨start, fresh, earlier⟩, step, .refl, same, by rw [more, same]⟩, allows⟩
      · have split : early ++ happening :: shorter.concat final =
            (early ++ happening :: shorter) ++ [final] := by simp
        rw [split] at whole
        exact before (List.append_inj' whole rfl).1

/-- Whatever has happened, there was a state in which it happened next. -/
theorem exists_before {flow : Flow} (reachable : flow.Reachable) {early late : List Happening}
    {happening : Happening} (whole : flow.history = early ++ happening :: late) :
    ∃ before : Flow, before.Reachable ∧ before.history = early ∧ before.Allows happening := by
  obtain ⟨before, _, happened, allows⟩ := exists_step reachable whole
  exact ⟨before, happened.reachable, happened.before, allows⟩

/-! ### One step after another -/

/-- The first timer runs down, if there is one. -/
def fireFirst (flow : Flow) : Flow :=
  match flow.timers with
  | [] => flow
  | snapshot :: rest => fired { flow with timers := rest } snapshot

/-- The first refresh under way ends, if there is one. -/
def endFirst (flow : Flow) : Flow :=
  match flow.runs with
  | [] => flow
  | run :: rest => ended { flow with runs := rest } run 0

theorem steps_fireFirst (flow : Flow) : Steps flow flow.fireFirst := by
  rw [fireFirst]
  split
  · exact .refl
  · next snapshot rest waiting => exact .single (.fired (waiting ▸ .refl _))

theorem steps_endFirst (flow : Flow) : Steps flow flow.endFirst := by
  rw [endFirst]
  split
  · exact .refl
  · next run rest underWay => exact .single (.ended (underWay ▸ .refl _) 0)

/-! ### A session with a conflict -/

/-- A session to which nothing has happened. -/
def start (delays : DelaySettings) (desk : Desk) : Flow :=
  ⟨.new delays, desk, [], [], []⟩

theorem fresh_start (delays : DelaySettings) (desk : Desk) : Fresh (start delays desk) :=
  ⟨rfl, rfl, rfl, rfl⟩

/-- A session for which the build tool reports one conflict. -/
def withConflict : Flow :=
  start ⟨350, 1.3, 32⟩
    { workspace := .empty
      board := .empty
      settings := ⟨true⟩
      tool := fun _ => ⟨.ok ("g:p:jar:1\n\\- g:a:jar:1:compile\n" ++
        "   \\- (g:b:jar:1:compile - omitted for conflict with 2)\n"), 5000⟩
      requests := 0 }

/-- The descriptor of a project in which the conflict shows. -/
def conflictDocument : Document where
  path := ⟨"/ws/pom.xml"⟩
  text := "<project><dependencies><dependency><groupId>g</groupId>" ++
    "<artifactId>a</artifactId></dependency></dependencies></project>"

end Flow

end PomLens
