/-
This file lets other tasks go on while a merge awaits the build tool.

A merge looks at the declared view, awaits the tool and then stores what it was given, without a
second look. Between the two the descriptor may be read in vain, which takes both views away, and
a merged view that comes after that stands alone. This is the only way to one: `Tracked` follows
the merges under way through every step, and by it a merged view that stands alone was stored by
a merge that had begun beside a declared view and was overtaken by the last reading.
-/

import Mathlib.Logic.Relation
import PomLens.Proofs.Project.Tasks

namespace PomLens.Project

/-! ### States -/

inductive Event
  /-- A merge has found a declared view and awaits the build tool. -/
  | begun (call : Nat)
  /-- The build tool has answered a merge, which stored this, if anything. -/
  | ended (call : Nat) (stored : Option MergedView)
  /-- The descriptor was read. -/
  | read
  /-- The descriptor was read in vain, and both views of it were taken away. -/
  | lost
  deriving DecidableEq

/-- A project on which several tasks are at work. -/
structure Interplay where
  project : Project
  /-- How many merges have begun, each with the next number. -/
  calls : Nat
  /-- The merges that await the build tool. -/
  awaiting : List Nat
  history : List Event

namespace Interplay

/-! ### Steps -/

/-- What a task adds to the history. -/
def events (project : Project) (task : Task) : List Event :=
  match task.reading? project with
  | some (.ok _) => [.read]
  | some (.error _) => [.lost]
  | none => []

/-- A task was done with nothing in between. So is a refresh of the tree, however long it waited:
only the report changes anything. -/
def performed (state : Interplay) (task : Task) : Interplay :=
  { state with
    project := (state.project.perform task).1
    history := state.history ++ events state.project task }

/-- A merge has called the build tool. -/
def begun (state : Interplay) : Interplay :=
  { state with
    calls := state.calls + 1
    awaiting := state.awaiting ++ [state.calls + 1]
    history := state.history ++ [.begun (state.calls + 1)] }

/-- The build tool has answered a merge. -/
def ended (state : Interplay) (call : Nat) (name : String)
    (answer : Except ProcessError String) : Interplay :=
  { state with
    project := (state.project.takeMerged name answer).1
    history := state.history ++ [.ended call (state.project.takeMerged name answer).2.toOption] }

inductive Step (state : Interplay) : Interplay → Prop
  | performed (task : Task) : Step state (state.performed task)
  | begun {keepOld : Bool} (called : state.project.requestMerged keepOld = .ok none) :
      Step state state.begun
  | ended {call : Nat} {rest : List Nat} (underWay : state.awaiting.Perm (call :: rest))
      (workspace : Workspace) (files : FileTree) (answer : Except ProcessError String) :
      Step state (ended { state with awaiting := rest } call
        (state.project.mergedName workspace files) answer)

/-- Any number of steps. -/
abbrev Steps : Interplay → Interplay → Prop := Relation.ReflTransGen Step

/-- A project of which nothing is known, with no task at work. -/
def start (path : Path) (parentLink : Option Path) : Interplay :=
  ⟨{ new path with parentLink }, 0, [], []⟩

/-- A state that tasks can bring a project to. -/
def Reachable (state : Interplay) : Prop :=
  ∃ path parentLink, Steps (start path parentLink) state

theorem Reachable.step {state next : Interplay} (reachable : state.Reachable)
    (step : Step state next) : next.Reachable := by
  obtain ⟨path, parentLink, steps⟩ := reachable
  exact ⟨path, parentLink, steps.tail step⟩

/-! ### What a step can do -/

/-- Where the views and the merges under way stand behind a step. -/
structure Becomes (state next : Interplay) (declared : Option Descriptor)
    (merged : Option MergedView) (awaiting : List Nat) (happened : List Event) : Prop where
  declared : next.project.declared = declared
  merged : next.project.merged = merged
  awaiting : next.awaiting = awaiting
  history : next.history = state.history ++ happened

/-- All that a step can do to the views of the descriptor and to the merges under way. -/
inductive Effect (state next : Interplay) : Prop
  | read (descriptor : Descriptor) (becomes : Becomes state next (some descriptor)
      state.project.merged state.awaiting [.read])
  | lost (becomes : Becomes state next none none state.awaiting [.lost])
  | merged (view : MergedView) (declared : state.project.declared.isSome)
      (becomes : Becomes state next state.project.declared (some view) state.awaiting [])
  | begun (call : Nat) (declared : state.project.declared.isSome)
      (becomes : Becomes state next state.project.declared state.project.merged
        (state.awaiting ++ [call]) [.begun call])
  | stored (call : Nat) (rest : List Nat) (view : MergedView)
      (underWay : state.awaiting.Perm (call :: rest))
      (becomes : Becomes state next state.project.declared (some view) rest
        [.ended call (some view)])
  | failed (call : Nat) (rest : List Nat) (underWay : state.awaiting.Perm (call :: rest))
      (becomes : Becomes state next state.project.declared state.project.merged rest
        [.ended call none])
  | nothing (becomes : Becomes state next state.project.declared state.project.merged
      state.awaiting [])

theorem effect_performed (state : Interplay) (task : Task) :
    Effect state (state.performed task) := by
  cases effect_perform state.project task with
  | @read reading reads unreported becomes =>
    cases reading with
    | ok descriptor =>
      exact .read descriptor ⟨by simp [performed, becomes, storeReading],
        by simp [performed, becomes, storeReading], rfl, by simp [performed, events, reads]⟩
    | error failure =>
      exact .lost ⟨by simp [performed, becomes, storeReading],
        by simp [performed, becomes, storeReading], rfl, by simp [performed, events, reads]⟩
  | @reported text unread report becomes =>
    refine .nothing ⟨?_, ?_, rfl, by simp [performed, events, unread]⟩
    · rw [performed, becomes, storeReport]
      cases Report.Forest.parse text <;> rfl
    · rw [performed, becomes, storeReport]
      cases Report.Forest.parse text <;> rfl
  | @merged merge unread unreported declared becomes =>
    cases merge with
    | ok view =>
      exact .merged view declared ⟨by simp [performed, becomes, storeMerge],
        by simp [performed, becomes, storeMerge], rfl, by simp [performed, events, unread]⟩
    | error failure =>
      exact .nothing ⟨by simp [performed, becomes, storeMerge],
        by simp [performed, becomes, storeMerge], rfl, by simp [performed, events, unread]⟩
  | nothing unread unreported becomes =>
    exact .nothing ⟨by rw [performed, becomes], by rw [performed, becomes], rfl,
      by simp [performed, events, unread]⟩

theorem effect_ended {state : Interplay} {call : Nat} {rest : List Nat}
    (underWay : state.awaiting.Perm (call :: rest)) (name : String)
    (answer : Except ProcessError String) :
    Effect state (ended { state with awaiting := rest } call name answer) := by
  match answer with
  | .error failure => exact .failed call rest underWay ⟨rfl, rfl, rfl, rfl⟩
  | .ok text =>
    match parsed : Descriptor.parseMerged text name with
    | .ok descriptor =>
      exact .stored call rest ⟨text, descriptor⟩ underWay
        ⟨by simp [ended, takeMerged, parsed], by simp [ended, takeMerged, parsed], rfl,
          by simp [ended, takeMerged, parsed, pure, Except.pure, Except.toOption]⟩
    | .error failure =>
      exact .failed call rest underWay
        ⟨by simp [ended, takeMerged, parsed], by simp [ended, takeMerged, parsed], rfl,
          by simp [ended, takeMerged, parsed, throw, throwThe, MonadExceptOf.throw,
            Except.toOption]⟩

/-- A step does nothing else. -/
theorem Step.effect {state next : Interplay} (step : Step state next) : Effect state next := by
  cases step with
  | performed task => exact effect_performed state task
  | begun called =>
    exact .begun (state.calls + 1) (declared_of_requestMerged called) ⟨rfl, rfl, rfl, rfl⟩
  | ended underWay workspace files answer => exact effect_ended underWay _ answer

/-! ### What has happened -/

/-- In a step at most one thing happens, and merges begin beside a declared view. -/
theorem Step.history {state next : Interplay} (step : Step state next) :
    next.history = state.history ∨
      ∃ event, next.history = state.history ++ [event] ∧
        ∀ call, event = .begun call → state.project.declared.isSome := by
  cases step.effect with
  | begun call declared becomes => exact Or.inr ⟨_, becomes.history, fun _ _ => declared⟩
  | read descriptor becomes => exact Or.inr ⟨_, becomes.history, nofun⟩
  | lost becomes => exact Or.inr ⟨_, becomes.history, nofun⟩
  | stored call rest view underWay becomes => exact Or.inr ⟨_, becomes.history, nofun⟩
  | failed call rest underWay becomes => exact Or.inr ⟨_, becomes.history, nofun⟩
  | merged view declared becomes => exact Or.inl (by simpa using becomes.history)
  | nothing becomes => exact Or.inl (by simpa using becomes.history)

/-- Every merge that has begun had found a declared view. -/
theorem exists_before {state : Interplay} (reachable : state.Reachable)
    {early late : List Event} {call : Nat} (whole : state.history = early ++ .begun call :: late) :
    ∃ before : Interplay,
      before.Reachable ∧ before.history = early ∧ before.project.declared.isSome := by
  obtain ⟨path, parentLink, steps⟩ := reachable
  induction steps generalizing late with
  | refl => simp [start] at whole
  | @tail state next earlier step inductionHypothesis =>
    rcases step.history with same | ⟨event, more, declared⟩
    · exact inductionHypothesis (same.symm.trans whole)
    · rw [more] at whole
      rcases List.eq_nil_or_concat late with rfl | ⟨shorter, final, rfl⟩
      · obtain ⟨same, isLast⟩ := List.append_inj' whole rfl
        rw [List.cons.injEq] at isLast
        exact ⟨state, ⟨path, parentLink, earlier⟩, same, declared call isLast.1⟩
      · have split : early ++ .begun call :: shorter.concat final =
            (early ++ .begun call :: shorter) ++ [final] := by simp
        rw [split] at whole
        exact inductionHypothesis (List.append_inj' whole rfl).1

/-! ### Merges that are overtaken -/

/-- What neither brings a declared view nor takes it away. -/
def Quiet (events : List Event) : Prop :=
  .read ∉ events ∧ .lost ∉ events

theorem Quiet.append {first second : List Event} (firstQuiet : Quiet first)
    (secondQuiet : Quiet second) : Quiet (first ++ second) := by
  simp only [Quiet, List.mem_append, not_or]
  exact ⟨⟨firstQuiet.1, secondQuiet.1⟩, firstQuiet.2, secondQuiet.2⟩

theorem quiet_ended (call : Nat) (stored : Option MergedView) : Quiet [.ended call stored] := by
  simp [Quiet]

/-- The merge began before the descriptor was last read, and that was in vain. -/
def Overtaken (history : List Event) (call : Nat) : Prop :=
  ∃ early middle late,
    history = early ++ .begun call :: (middle ++ .lost :: late) ∧ Quiet late

/-- The merged view was stored last, by a merge that had been overtaken. -/
def Outlived (history : List Event) (view : MergedView) : Prop :=
  ∃ call early middle late rest,
    history = early ++ .begun call ::
      (middle ++ .lost :: (late ++ .ended call (some view) :: rest)) ∧
    Quiet late ∧ Quiet rest ∧ ∀ other view, .ended other (some view) ∉ rest

theorem overtaken_of_begun {history : List Event} {call : Nat} (begun : .begun call ∈ history) :
    Overtaken (history ++ [.lost]) call := by
  obtain ⟨early, middle, rfl⟩ := List.append_of_mem begun
  exact ⟨early, middle, [], by simp, by simp [Quiet]⟩

theorem Overtaken.append {history more : List Event} {call : Nat}
    (overtaken : Overtaken history call) (quiet : Quiet more) :
    Overtaken (history ++ more) call := by
  obtain ⟨early, middle, late, rfl, lateQuiet⟩ := overtaken
  exact ⟨early, middle, late ++ more, by simp, lateQuiet.append quiet⟩

theorem Overtaken.outlived {history : List Event} {call : Nat}
    (overtaken : Overtaken history call) (view : MergedView) :
    Outlived (history ++ [.ended call (some view)]) view := by
  obtain ⟨early, middle, late, rfl, lateQuiet⟩ := overtaken
  exact ⟨call, early, middle, late, [], by simp, lateQuiet, by simp [Quiet], by simp⟩

theorem Outlived.append {history more : List Event} {view : MergedView}
    (outlived : Outlived history view) (quiet : Quiet more)
    (unstored : ∀ other view, .ended other (some view) ∉ more) :
    Outlived (history ++ more) view := by
  obtain ⟨call, early, middle, late, rest, rfl, lateQuiet, restQuiet, last⟩ := outlived
  refine ⟨call, early, middle, late, rest ++ more, by simp, lateQuiet, restQuiet.append quiet, ?_⟩
  intro other view member
  exact (List.mem_append.mp member).elim (last other view) (unstored other view)

/-- Each merge under way has begun. Without a declared view they are all overtaken, and so was
the one that stored a merged view. -/
structure Tracked (state : Interplay) : Prop where
  begun : ∀ call ∈ state.awaiting, .begun call ∈ state.history
  overtaken : state.project.declared = none →
    ∀ call ∈ state.awaiting, Overtaken state.history call
  outlived : state.project.declared = none →
    ∀ view, state.project.merged = some view → Outlived state.history view

theorem tracked_start (path : Path) (parentLink : Option Path) :
    Tracked (start path parentLink) :=
  ⟨by simp [start], by simp [start], by simp [start, new]⟩

theorem Tracked.begun_step {state next : Interplay} (tracked : Tracked state)
    (step : Step state next) : ∀ call ∈ next.awaiting, .begun call ∈ next.history := by
  intro call waits
  cases step.effect with
  | begun other declared becomes =>
    rw [becomes.awaiting, List.mem_append, List.mem_singleton] at waits
    rw [becomes.history]
    rcases waits with waits | rfl
    · exact List.mem_append_left _ (tracked.begun call waits)
    · exact List.mem_append_right _ List.mem_cons_self
  | stored _ rest _ underWay becomes | failed _ rest underWay becomes =>
    rw [becomes.awaiting] at waits
    rw [becomes.history]
    exact List.mem_append_left _
      (tracked.begun call (underWay.mem_iff.mpr (List.mem_cons_of_mem _ waits)))
  | read _ becomes | lost becomes | merged _ _ becomes | nothing becomes =>
    rw [becomes.awaiting] at waits
    rw [becomes.history]
    exact List.mem_append_left _ (tracked.begun call waits)

/-- A declared view answers for everything. -/
theorem tracked_of_declared {state : Interplay}
    (begun : ∀ call ∈ state.awaiting, .begun call ∈ state.history)
    (declared : state.project.declared.isSome) : Tracked state where
  begun := begun
  overtaken undeclared := by simp [undeclared] at declared
  outlived undeclared := by simp [undeclared] at declared

/-- A step that changes no view and ends some merges at most. -/
theorem Tracked.quiet {state next : Interplay} (tracked : Tracked state) {awaiting : List Nat}
    {happened : List Event}
    (begun : ∀ call ∈ next.awaiting, .begun call ∈ next.history)
    (becomes : Becomes state next state.project.declared state.project.merged awaiting happened)
    (fewer : ∀ call ∈ awaiting, call ∈ state.awaiting) (quiet : Quiet happened)
    (unstored : ∀ other view, .ended other (some view) ∉ happened) : Tracked next where
  begun := begun
  overtaken undeclared call waits := by
    rw [becomes.declared] at undeclared
    rw [becomes.awaiting] at waits
    rw [becomes.history]
    exact (tracked.overtaken undeclared call (fewer call waits)).append quiet
  outlived undeclared view stored := by
    rw [becomes.declared] at undeclared
    rw [becomes.merged] at stored
    rw [becomes.history]
    exact (tracked.outlived undeclared view stored).append quiet unstored

theorem Tracked.step {state next : Interplay} (tracked : Tracked state)
    (step : Step state next) : Tracked next := by
  have begun := tracked.begun_step step
  cases step.effect with
  | read descriptor becomes =>
    exact tracked_of_declared begun (by rw [becomes.declared]; rfl)
  | merged view declared becomes =>
    exact tracked_of_declared begun (by rw [becomes.declared]; exact declared)
  | begun call declared becomes =>
    exact tracked_of_declared begun (by rw [becomes.declared]; exact declared)
  | lost becomes =>
    refine ⟨begun, fun undeclared call waits => ?_, fun undeclared view stored => ?_⟩
    · rw [becomes.awaiting] at waits
      rw [becomes.history]
      exact overtaken_of_begun (tracked.begun call waits)
    · rw [becomes.merged] at stored
      cases stored
  | stored call rest view underWay becomes =>
    refine ⟨begun, fun undeclared other waits => ?_, fun undeclared seen stored => ?_⟩
    · rw [becomes.declared] at undeclared
      rw [becomes.awaiting] at waits
      rw [becomes.history]
      have waited := underWay.mem_iff.mpr (List.mem_cons_of_mem _ waits)
      exact (tracked.overtaken undeclared other waited).append (quiet_ended call _)
    · rw [becomes.declared] at undeclared
      rw [becomes.merged] at stored
      rw [becomes.history]
      cases stored
      have waited := underWay.mem_iff.mpr List.mem_cons_self
      exact (tracked.overtaken undeclared call waited).outlived view
  | failed call rest underWay becomes =>
    have fewer : ∀ other ∈ rest, other ∈ state.awaiting := fun other waits =>
      underWay.mem_iff.mpr (List.mem_cons_of_mem _ waits)
    exact tracked.quiet begun becomes fewer (quiet_ended call none) (by simp)
  | nothing becomes =>
    exact tracked.quiet begun becomes (fun _ => id) (by simp [Quiet]) (by simp)

theorem Reachable.tracked {state : Interplay} (reachable : state.Reachable) : Tracked state := by
  obtain ⟨path, parentLink, steps⟩ := reachable
  induction steps with
  | refl => exact tracked_start path parentLink
  | tail before step inductionHypothesis => exact inductionHypothesis.step step

/-! ### A merged view that stands alone -/

/-- A merged view stands beside a declared one, unless a merge stored it that had begun beside
a declared view and still awaited the build tool when the descriptor was last read, in vain. -/
theorem declared_of_merged {state : Interplay} (reachable : state.Reachable) {view : MergedView}
    (merged : state.project.merged = some view) :
    state.project.declared.isSome ∨
      ∃ call early middle late rest,
        state.history = early ++ .begun call ::
          (middle ++ .lost :: (late ++ .ended call (some view) :: rest)) ∧
        (Quiet late ∧ Quiet rest ∧ ∀ other view, .ended other (some view) ∉ rest) ∧
        ∃ before : Interplay,
          before.Reachable ∧ before.history = early ∧ before.project.declared.isSome := by
  cases declared : state.project.declared with
  | some descriptor => exact Or.inl rfl
  | none =>
    obtain ⟨call, early, middle, late, rest, whole, quiet⟩ :=
      reachable.tracked.outlived declared view merged
    exact Or.inr ⟨call, early, middle, late, rest, whole, quiet, exists_before reachable whole⟩

/-- A descriptor without content. -/
def bareDescriptor : String := "<project></project>"

/-- The bare descriptor was read. -/
def bare : Interplay :=
  (start ⟨"/ws/pom.xml"⟩ none).performed (.parseDeclared bareDescriptor)

/-- While its merge awaits the build tool, the descriptor is read in vain. -/
def bareLost : Interplay :=
  bare.begun.performed (.parseDeclared "<project>")

/-- And then the tool answers. -/
def bareOvertaken : Interplay :=
  ended { bareLost with awaiting := [] } 1 (bareLost.project.mergedName .empty .empty)
    (.ok bareDescriptor)

theorem reachable_bareOvertaken : bareOvertaken.Reachable := by
  have started : (start ⟨"/ws/pom.xml"⟩ none).Reachable := ⟨_, _, .refl⟩
  have called : bare.project.requestMerged false = .ok none := by
    obtain ⟨descriptor, isDeclared⟩ : ∃ descriptor, bare.project.declared = some descriptor :=
      Option.isSome_iff_exists.mp (by decide +kernel)
    simp [requestMerged, isDeclared, pure, Except.pure]
  exact (((started.step (.performed _)).step (.begun called)).step (.performed _)).step
    (.ended (.refl _) .empty .empty _)

/-- The bare descriptor's merge is such a one. -/
theorem declared_of_merged_bareOvertaken :
    ∃ view, bareOvertaken.project.merged = some view ∧
      (bareOvertaken.project.declared.isSome ∨
        ∃ call early middle late rest,
          bareOvertaken.history = early ++ .begun call ::
            (middle ++ .lost :: (late ++ .ended call (some view) :: rest)) ∧
          (Quiet late ∧ Quiet rest ∧ ∀ other view, .ended other (some view) ∉ rest) ∧
          ∃ before : Interplay,
            before.Reachable ∧ before.history = early ∧ before.project.declared.isSome) := by
  obtain ⟨view, merged⟩ : ∃ view, bareOvertaken.project.merged = some view :=
    Option.isSome_iff_exists.mp (by decide +kernel)
  exact ⟨view, merged, declared_of_merged reachable_bareOvertaken merged⟩

/-- A merged view can stand alone. -/
theorem exists_alone :
    ∃ state : Interplay,
      state.Reachable ∧ state.project.merged.isSome ∧ state.project.declared = none :=
  ⟨bareOvertaken, reachable_bareOvertaken, by decide +kernel, by decide +kernel⟩

end Interplay

end PomLens.Project
