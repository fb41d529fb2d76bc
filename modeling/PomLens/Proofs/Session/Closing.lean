/-
This file proves what becomes of the diagnostics of a document that was closed.

What a board shows for a spelling is what was last published under it (`board_of_steps`). Closing
a document publishes an empty set and gives up the refresh that waits, so nothing starts for the
document until it is changed or refreshed again. A refresh that was under way is not stopped, and
a set that was published under a spelling with other steps is not cleared; nothing else can be
left (`clear_of_closed`).
-/

import PomLens.Proofs.Session.Flow

namespace PomLens

/-! ### What a board shows -/

/-- What is published under a spelling when this happens. -/
def Happening.shows? (spelling : Path) : Happening → Option (List Diagnostic)
  | .closed path => if path.same spelling then some [] else none
  | .ended run (some diagnostics) =>
    if run.refresh.document.path.same spelling then some diagnostics else none
  | _ => none

/-- What is shown after more has happened. -/
theorem last_or_append {α β : Type} (shows? : α → Option β) (happened : List α) (last : α)
    (shown : Option β) :
    (((happened ++ [last]).filterMap shows?).getLast?).or shown =
      (shows? last).or (((happened.filterMap shows?).getLast?).or shown) := by
  rw [List.filterMap_append]
  cases isShown : shows? last <;> simp [isShown]

/-- A board shows under every spelling what was last published under it. -/
theorem board_of_steps {flow later : Flow} (steps : Flow.Steps flow later) (spelling : Path) :
    ∃ happened, later.history = flow.history ++ happened ∧
      later.desk.board.get? spelling =
        ((happened.filterMap (Happening.shows? spelling)).getLast?).or
          (flow.desk.board.get? spelling) := by
  induction steps with
  | refl => exact ⟨[], by simp, by simp⟩
  | @tail middle next before step inductionHypothesis =>
    obtain ⟨happened, whole, shown⟩ := inductionHypothesis
    have more {last : Happening} (history : next.history = middle.history ++ [last])
        (board : next.desk.board.get? spelling =
          (last.shows? spelling).or (middle.desk.board.get? spelling)) :
        ∃ happened, next.history = flow.history ++ happened ∧
          next.desk.board.get? spelling =
            ((happened.filterMap (Happening.shows? spelling)).getLast?).or
              (flow.desk.board.get? spelling) := by
      refine ⟨happened ++ [last], by rw [history, whole, List.append_assoc], ?_⟩
      rw [last_or_append, board, shown]
    cases step.effect with
    | accepted snapshot _ _ _ becomes => exact more becomes.history (by rw [becomes.board]; rfl)
    | rejected document becomes => exact more becomes.history (by rw [becomes.board]; rfl)
    | asked document _ _ _ _ becomes => exact more becomes.history (by rw [becomes.board]; rfl)
    | started snapshot _ _ _ _ _ becomes => exact more becomes.history (by rw [becomes.board]; rfl)
    | skipped run _ _ _ becomes => exact more becomes.history (by rw [becomes.board]; rfl)
    | closed path becomes =>
      refine more becomes.history ?_
      rw [becomes.board, Board.get?_publish, Happening.shows?]
      split <;> rfl
    | published run _ diagnostics _ _ becomes =>
      refine more becomes.history ?_
      rw [becomes.board, Board.get?_publish, Happening.shows?]
      split <;> rfl
    | stopped _ _ _ _ becomes =>
      exact ⟨happened, by rw [becomes.history, List.append_nil, whole], by rw [becomes.board, shown]⟩
    | nothing becomes =>
      exact ⟨happened, by rw [becomes.history, List.append_nil, whole], by rw [becomes.board, shown]⟩

/-! ### Keys -/

/-- Every refresh waits and runs under the normalized path of its document. -/
structure Keyed (flow : Flow) : Prop where
  timers : ∀ snapshot ∈ flow.timers, snapshot.key = snapshot.document.path.normalize
  runs : ∀ run ∈ flow.runs, run.key = run.refresh.document.path.normalize

theorem Keyed.step {flow next : Flow} (keyed : Keyed flow) (step : Flow.Step flow next) :
    Keyed next := by
  have added {run : Run} (key : run.key = run.refresh.document.path.normalize) :
      ∀ other ∈ flow.runs ++ [run], other.key = other.refresh.document.path.normalize := by
    intro other member
    rcases List.mem_append.mp member with old | new
    · exact keyed.runs other old
    · rw [List.mem_singleton.mp new]
      exact key
  cases step.effect with
  | accepted snapshot key _ _ becomes =>
    refine ⟨?_, by rw [becomes.runs]; exact keyed.runs⟩
    rw [becomes.timers]
    intro other member
    rcases List.mem_append.mp member with old | new
    · exact keyed.timers other old
    · rw [List.mem_singleton.mp new]
      exact key
  | asked document run key _ same becomes =>
    refine ⟨by rw [becomes.timers]; exact keyed.timers, ?_⟩
    rw [becomes.runs]
    exact added (by rw [key, same])
  | started snapshot rest run waiting _ same becomes =>
    refine ⟨?_, ?_⟩
    · rw [becomes.timers]
      exact fun other member =>
        keyed.timers other (waiting.mem_iff.mpr (List.mem_cons_of_mem _ member))
    · rw [becomes.runs]
      have key := keyed.timers snapshot (waiting.mem_iff.mpr List.mem_cons_self)
      obtain ⟨token, -, rfl⟩ := Option.map_eq_some_iff.mp same
      exact added key
  | stopped snapshot rest waiting _ becomes =>
    refine ⟨?_, by rw [becomes.runs]; exact keyed.runs⟩
    rw [becomes.timers]
    exact fun other member =>
      keyed.timers other (waiting.mem_iff.mpr (List.mem_cons_of_mem _ member))
  | published run rest _ underWay _ becomes =>
    refine ⟨by rw [becomes.timers]; exact keyed.timers, ?_⟩
    rw [becomes.runs]
    exact fun other member => keyed.runs other (underWay.mem_iff.mpr (List.mem_cons_of_mem _ member))
  | skipped run rest underWay _ becomes =>
    refine ⟨by rw [becomes.timers]; exact keyed.timers, ?_⟩
    rw [becomes.runs]
    exact fun other member => keyed.runs other (underWay.mem_iff.mpr (List.mem_cons_of_mem _ member))
  | rejected document becomes =>
    exact ⟨by rw [becomes.timers]; exact keyed.timers, by rw [becomes.runs]; exact keyed.runs⟩
  | closed path becomes =>
    exact ⟨by rw [becomes.timers]; exact keyed.timers, by rw [becomes.runs]; exact keyed.runs⟩
  | nothing becomes =>
    exact ⟨by rw [becomes.timers]; exact keyed.timers, by rw [becomes.runs]; exact keyed.runs⟩

theorem keyed_of_reachable {flow : Flow} (reachable : flow.Reachable) : Keyed flow :=
  reachable.induction (fun _ fresh => ⟨by simp [fresh.timers], by simp [fresh.runs]⟩)
    fun _ _ _ keyed step => keyed.step step

/-- A refresh that has ended had the normalized path of its document as its key. -/
theorem key_of_ended {flow : Flow} (reachable : flow.Reachable) {run : Run}
    {diagnostics : List Diagnostic} (ended : .ended run (some diagnostics) ∈ flow.history) :
    run.key = run.refresh.document.path.normalize := by
  obtain ⟨early, late, whole⟩ := List.append_of_mem ended
  obtain ⟨before, isReachable, -, underWay, -⟩ := Flow.exists_before reachable whole
  exact (keyed_of_reachable isReachable).runs run underWay

/-! ### After a document was closed -/

/-- The document under a key is changed or refreshed by this. -/
def Happening.Touches (key : Path) : Happening → Prop
  | .accepted snapshot => snapshot.key = key
  | .rejected document => document.path.normalize = key
  | .asked document => document.path.normalize = key
  | _ => False

/-- Nothing waits for the key, and what is under way for it or has ended since was under way
before. -/
structure Quiet (key : Path) (before later : Flow) (since : List Happening) : Prop where
  pending : later.debouncer.token? key = none
  runs : ∀ run ∈ later.runs, run.key = key → run ∈ before.runs
  started : ∀ snapshot, .started snapshot ∈ since → snapshot.key ≠ key
  ended : ∀ run published, .ended run published ∈ since → run.key = key → run ∈ before.runs

theorem Quiet.append {key : Path} {before later next : Flow} {since happened : List Happening}
    (quiet : Quiet key before later since) (pending : next.debouncer.token? key = none)
    (runs : ∀ run ∈ next.runs, run.key = key → run ∈ later.runs)
    (started : ∀ snapshot, .started snapshot ∈ happened → snapshot.key ≠ key)
    (ended : ∀ run published, .ended run published ∈ happened → run ∈ later.runs) :
    Quiet key before next (since ++ happened) := by
  refine ⟨pending, fun run member own => quiet.runs run (runs run member own) own, ?_, ?_⟩
  · intro snapshot member
    rcases List.mem_append.mp member with old | new
    · exact quiet.started snapshot old
    · exact started snapshot new
  · intro run published member own
    rcases List.mem_append.mp member with old | new
    · exact quiet.ended run published old own
    · exact quiet.runs run (ended run published new) own

/-- It stays so as long as the document is not touched. -/
theorem Quiet.step {key : Path} {before later next : Flow} {since : List Happening}
    (quiet : Quiet key before later since) (step : Flow.Step later next) :
    ∃ happened, next.history = later.history ++ happened ∧
      ((∀ happening ∈ happened, ¬ happening.Touches key) →
        Quiet key before next (since ++ happened)) := by
  have without (other : Path) : later.without other key = none := by
    rw [Flow.without, quiet.pending]
    split <;> rfl
  have notOwn {run : Run} (different : run.key ≠ key) :
      ∀ other ∈ later.runs ++ [run], other.key = key → other ∈ later.runs := by
    intro other member own
    rcases List.mem_append.mp member with old | new
    · exact old
    · rw [List.mem_singleton.mp new] at own
      exact absurd own different
  cases step.effect with
  | accepted snapshot _ _ _ becomes =>
    refine ⟨_, becomes.history, fun untouched => quiet.append ?_ ?_ (by simp) (by simp)⟩
    · have different : snapshot.key ≠ key := untouched _ List.mem_cons_self
      rw [becomes.token?, if_neg different.symm, quiet.pending]
    · rw [becomes.runs]
      exact fun _ member _ => member
  | rejected document becomes =>
    refine ⟨_, becomes.history, fun _ => quiet.append ?_ ?_ (by simp) (by simp)⟩
    · rw [becomes.token?, without]
    · rw [becomes.runs]
      exact fun _ member _ => member
  | closed path becomes =>
    refine ⟨_, becomes.history, fun _ => quiet.append ?_ ?_ (by simp) (by simp)⟩
    · rw [becomes.token?, without]
    · rw [becomes.runs]
      exact fun _ member _ => member
  | asked document run isKey _ _ becomes =>
    refine ⟨_, becomes.history, fun untouched => quiet.append ?_ ?_ (by simp) (by simp)⟩
    · rw [becomes.token?, quiet.pending]
    · rw [becomes.runs]
      have different : document.path.normalize ≠ key := untouched _ List.mem_cons_self
      exact notOwn (isKey ▸ different)
  | started snapshot rest run _ pending same becomes =>
    -- Nothing waits for the key, so what starts is another one's.
    have different : snapshot.key ≠ key := by
      rintro rfl
      rw [quiet.pending] at pending
      cases pending
    refine ⟨_, becomes.history, fun _ => quiet.append ?_ ?_ ?_ (by simp)⟩
    · rw [becomes.token?, without]
    · rw [becomes.runs]
      obtain ⟨token, -, rfl⟩ := Option.map_eq_some_iff.mp same
      exact notOwn different
    · intro other member
      cases List.mem_singleton.mp member
      exact different
  | stopped snapshot rest _ _ becomes =>
    refine ⟨_, becomes.history, fun _ => quiet.append ?_ ?_ (by simp) (by simp)⟩
    · rw [becomes.token?, quiet.pending]
    · rw [becomes.runs]
      exact fun _ member _ => member
  | published run rest diagnostics underWay _ becomes =>
    refine ⟨_, becomes.history, fun _ => quiet.append ?_ ?_ (by simp) ?_⟩
    · rw [becomes.token?, quiet.pending]
    · rw [becomes.runs]
      exact fun _ member _ => underWay.mem_iff.mpr (List.mem_cons_of_mem _ member)
    · intro other published member
      cases List.mem_singleton.mp member
      exact underWay.mem_iff.mpr List.mem_cons_self
  | skipped run rest underWay _ becomes =>
    refine ⟨_, becomes.history, fun _ => quiet.append ?_ ?_ (by simp) ?_⟩
    · rw [becomes.token?, quiet.pending]
    · rw [becomes.runs]
      exact fun _ member _ => underWay.mem_iff.mpr (List.mem_cons_of_mem _ member)
    · intro other published member
      cases List.mem_singleton.mp member
      exact underWay.mem_iff.mpr List.mem_cons_self
  | nothing becomes =>
    refine ⟨_, becomes.history, fun _ => quiet.append ?_ ?_ (by simp) (by simp)⟩
    · rw [becomes.token?, quiet.pending]
    · rw [becomes.runs]
      exact fun _ member _ => member

/-- From the moment a document is closed, all is quiet until it is touched. -/
theorem quiet_of_closed {flow later : Flow} {path : Path}
    (steps : Flow.Steps (flow.closed path) later) :
    ∃ since, later.history = flow.history ++ .closed path :: since ∧
      ((∀ happening ∈ since, ¬ happening.Touches path.normalize) →
        Quiet path.normalize flow later since) := by
  induction steps with
  | refl =>
    refine ⟨[], rfl, fun _ => ⟨?_, fun _ member _ => member, by simp, by simp⟩⟩
    exact (flow.debouncer.token?_cancel _ _).trans (if_pos rfl)
  | @tail middle next before step inductionHypothesis =>
    obtain ⟨since, whole, quiet⟩ := inductionHypothesis
    by_cases untouched : ∀ happening ∈ since, ¬ happening.Touches path.normalize
    · obtain ⟨happened, history, quiet'⟩ := (quiet untouched).step step
      refine ⟨since ++ happened, by rw [history, whole]; simp, fun all => quiet' ?_⟩
      exact fun happening member => all happening (List.mem_append_right _ member)
    · rcases step.history with same | ⟨last, more, -⟩
      · exact ⟨since, same.trans whole, fun all => absurd all untouched⟩
      · refine ⟨since ++ [last], by rw [more, whole]; simp, fun all => absurd ?_ untouched⟩
        exact fun happening member => all happening (List.mem_append_left _ member)

/-- Once a document is closed, and as long as it is neither changed nor refreshed again, no
refresh of it starts. What is shown for it under any spelling is empty, was published by a refresh
that had been under way, or was shown before under a spelling with other steps. -/
theorem clear_of_closed {flow later : Flow} (reachable : flow.Reachable) (path : Path)
    (steps : Flow.Steps (flow.closed path) later) (since : List Happening)
    (whole : later.history = flow.history ++ .closed path :: since)
    (untouched : ∀ happening ∈ since, ¬ happening.Touches path.normalize) :
    (∀ snapshot, .started snapshot ∈ since → snapshot.key ≠ path.normalize) ∧
      ∀ spelling diagnostics, spelling.normalize = path.normalize →
        later.desk.board.get? spelling = some diagnostics → diagnostics ≠ [] →
        (∃ run ∈ flow.runs, run.refresh.document.path.same spelling = true ∧
          .ended run (some diagnostics) ∈ since) ∨
        path.same spelling = false ∧ flow.desk.board.get? spelling = some diagnostics := by
  obtain ⟨since', whole', quiet⟩ := quiet_of_closed steps
  obtain rfl : since' = since := by
    rw [whole', List.append_cancel_left_eq, List.cons.injEq] at whole
    exact whole.2
  have quiet := quiet untouched
  refine ⟨quiet.started, fun spelling diagnostics sameKey shown notEmpty => ?_⟩
  obtain ⟨happened, whole'', isShown⟩ := board_of_steps steps spelling
  obtain rfl : happened = since' := by
    have closed : (flow.closed path).history = flow.history ++ [.closed path] := rfl
    rw [closed, whole', List.append_assoc, List.append_cancel_left_eq, List.singleton_append,
      List.cons.injEq] at whole''
    exact whole''.2.symm
  rw [shown] at isShown
  cases last : (happened.filterMap (Happening.shows? spelling)).getLast? with
  | some lastShown =>
    rw [last, Option.some_or, Option.some.injEq] at isShown
    subst isShown
    obtain ⟨happening, member, shows⟩ := List.mem_filterMap.mp (List.mem_of_getLast? last)
    unfold Happening.shows? at shows
    split at shows
    · next other =>
      split at shows
      · rw [Option.some.injEq] at shows
        exact absurd shows.symm notEmpty
      · cases shows
    · next run published =>
      split at shows
      · next same =>
        rw [Option.some.injEq] at shows
        subst shows
        have ended : .ended run (some published) ∈ later.history := by
          rw [whole]
          exact List.mem_append_right _ (List.mem_cons_of_mem _ member)
        have key := key_of_ended ((reachable.step (.closed path)).steps steps) ended
        rw [Path.normalize_of_same same, sameKey] at key
        exact Or.inl ⟨run, quiet.ended run _ member key, same, member⟩
      · cases shows
    · cases shows
  | none =>
    have board : (flow.closed path).desk.board.get? spelling =
        if path.same spelling then some [] else flow.desk.board.get? spelling :=
      Board.get?_publish _ _ _ _
    rw [last, Option.none_or, board] at isShown
    by_cases same : path.same spelling = true
    · rw [if_pos same, Option.some.injEq] at isShown
      exact absurd isShown notEmpty
    · rw [if_neg same] at isShown
      exact Or.inr ⟨by simpa using same, isShown.symm⟩

/-! ### A refresh that outlasts its document -/

/-- The document was changed, and its refresh is under way. -/
def refreshing (document : Document) : Flow :=
  (Flow.withConflict.changed document).fireFirst

theorem reachable_refreshing (document : Document) : (refreshing document).Reachable :=
  ⟨_, Flow.fresh_start _ _, .trans (.single (.changed document)) (Flow.steps_fireFirst _)⟩

/-- When a refresh ends, nothing is touched. -/
theorem history_endFirst (flow : Flow) (key : Path) :
    ∃ happened, flow.endFirst.history = flow.history ++ happened ∧
      ∀ happening ∈ happened, ¬ happening.Touches key := by
  rw [Flow.endFirst]
  split
  · exact ⟨[], by simp, by simp⟩
  · next run rest underWay =>
    refine ⟨_, rfl, fun happening member => ?_⟩
    rw [List.mem_singleton.mp member]
    exact id

/-- The refresh of a closed document publishes the conflict it finds. -/
theorem shown_conflictDocument :
    (((refreshing Flow.conflictDocument).closed Flow.conflictDocument.path).endFirst.desk.board.get?
      Flow.conflictDocument.path).map List.length = some 1 := by decide +kernel

theorem clear_of_closed_conflictDocument :
    ∃ flow later : Flow, ∃ since diagnostics, flow.Reachable ∧
      Flow.Steps (flow.closed Flow.conflictDocument.path) later ∧
      later.history = flow.history ++ .closed Flow.conflictDocument.path :: since ∧
      (∀ happening ∈ since, ¬ happening.Touches Flow.conflictDocument.path.normalize) ∧
      later.desk.board.get? Flow.conflictDocument.path = some diagnostics ∧ diagnostics ≠ [] ∧
      ∃ run ∈ flow.runs, .ended run (some diagnostics) ∈ since := by
  let path := Flow.conflictDocument.path
  let flow := refreshing Flow.conflictDocument
  obtain ⟨since, history, untouched⟩ := history_endFirst (flow.closed path) path.normalize
  have whole : (flow.closed path).endFirst.history = flow.history ++ .closed path :: since := by
    rw [history]
    exact List.append_assoc ..
  obtain ⟨diagnostics, shown, one⟩ := Option.map_eq_some_iff.mp shown_conflictDocument
  have notEmpty : diagnostics ≠ [] := by
    rintro rfl
    cases one
  have reachable := reachable_refreshing Flow.conflictDocument
  have steps := Flow.steps_endFirst (flow.closed path)
  refine ⟨flow, _, since, diagnostics, reachable, steps, whole, untouched, shown, notEmpty, ?_⟩
  rcases (clear_of_closed reachable path steps since whole untouched).2 path diagnostics rfl shown
    notEmpty with ⟨run, underWay, -, ended⟩ | ⟨different, -⟩
  · exact ⟨run, underWay, ended⟩
  · rw [Path.same_iff.mpr rfl] at different
    cases different

/-- The same descriptor under a longer spelling of its path. -/
def respelledDocument : Document where
  path := ⟨"/ws/sub/../pom.xml"⟩
  text := Flow.conflictDocument.text

/-- A closed document need not stay clear: a refresh under way publishes its findings, and a set
under another spelling of the path is not cleared. -/
theorem shown_after_closing :
    (∃ flow later : Flow, ∃ since diagnostics, flow.Reachable ∧
      Flow.Steps (flow.closed Flow.conflictDocument.path) later ∧
      later.history = flow.history ++ .closed Flow.conflictDocument.path :: since ∧
      (∀ happening ∈ since, ¬ happening.Touches Flow.conflictDocument.path.normalize) ∧
      later.desk.board.get? Flow.conflictDocument.path = some diagnostics ∧ diagnostics ≠ []) ∧
    ∃ flow : Flow, ∃ diagnostics, flow.Reachable ∧
      respelledDocument.path.normalize = Flow.conflictDocument.path.normalize ∧
      (flow.closed Flow.conflictDocument.path).desk.board.get? respelledDocument.path =
        some diagnostics ∧ diagnostics ≠ [] := by
  refine ⟨?_, ?_⟩
  · obtain ⟨since, history, untouched⟩ := history_endFirst
      ((refreshing Flow.conflictDocument).closed Flow.conflictDocument.path)
      Flow.conflictDocument.path.normalize
    obtain ⟨diagnostics, shown, one⟩ := Option.map_eq_some_iff.mp shown_conflictDocument
    refine ⟨_, _, since, diagnostics, reachable_refreshing _, Flow.steps_endFirst _, ?_, untouched,
      shown, ?_⟩
    · rw [history]
      exact List.append_assoc ..
    · rintro rfl
      cases one
  · have computed : (((refreshing respelledDocument).endFirst.closed
        Flow.conflictDocument.path).desk.board.get? respelledDocument.path).map List.length =
          some 1 := by decide +kernel
    obtain ⟨diagnostics, shown, one⟩ := Option.map_eq_some_iff.mp computed
    refine ⟨_, diagnostics, (reachable_refreshing _).steps (Flow.steps_endFirst _),
      by decide +kernel, shown, ?_⟩
    rintro rfl
    cases one

end PomLens
