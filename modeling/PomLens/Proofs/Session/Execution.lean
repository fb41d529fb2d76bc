/-
This file proves that a session on its clock is one way for a flow to go on.

The alarms of a clock are the timers and the refreshes under way of a flow. Each alarm that goes
off is a step, so whatever is asked of a session and however long it waits, there is a flow with
the same debouncer and the same desk that was asked the same (`exists_flow`). What holds of all
reachable flows holds of sessions.
-/

import Mathlib.Data.List.Induction
import PomLens.Proofs.Schedule.Agenda
import PomLens.Proofs.Session.Flow

namespace PomLens

/-! ### Operations -/

/-- What can be done with a session. -/
inductive Operation
  | changed (document : Document)
  | closed (path : Path)
  | refreshNow (document : Document)
  | wait (duration : Nat)
  | setAnswer (path : Path) (answer : TimedAnswer)
  | delayFor (path : Path)

def Session.perform (session : Session) : Operation → Session
  | .changed document => session.changed document
  | .closed path => session.closed path
  | .refreshNow document => (session.refreshNow document).1
  | .wait duration => session.wait duration
  | .setAnswer path answer => session.setAnswer path answer
  | .delayFor path => (session.delayFor path).1

/-- What a client says to a session. -/
inductive Call
  | changed (document : Document)
  | closed (path : Path)
  | refreshNow (document : Document)

def Operation.call? : Operation → Option Call
  | .changed document => some (.changed document)
  | .closed path => some (.closed path)
  | .refreshNow document => some (.refreshNow document)
  | _ => none

def Happening.call? : Happening → Option Call
  | .accepted snapshot => some (.changed snapshot.document)
  | .rejected document => some (.changed document)
  | .closed path => some (.closed path)
  | .asked document => some (.refreshNow document)
  | _ => none

/-! ### Alarms -/

section

variable {κ ω ρ σ : Type}

/-- All that is still to go off. -/
def Clock.alarms (clock : Clock κ ω ρ σ) : List (Alarm κ ω ρ) :=
  clock.ready ++ clock.agenda.map Prod.snd

theorem Agenda.map_insert (due : Nat) (alarm : Alarm κ ω ρ) (agenda : Agenda κ ω ρ) :
    ((agenda.insert due alarm).map Prod.snd).Perm (alarm :: agenda.map Prod.snd) :=
  (insert_perm due alarm agenda).map Prod.snd

theorem Agenda.map_split (instant : Nat) (agenda : Agenda κ ω ρ) :
    (agenda.split instant).1 ++ (agenda.split instant).2.map Prod.snd = agenda.map Prod.snd := by
  obtain ⟨early, later, rfl, isSplit, -, -⟩ := exists_split instant agenda
  rw [isSplit, List.map_append]

/-- Time alone makes nothing go off. -/
@[simp] theorem Clock.alarms_wake (instant : Nat) (clock : Clock κ ω ρ σ) :
    (clock.wake instant).alarms = clock.alarms := by
  have split := Agenda.map_split instant clock.agenda
  simp only [alarms, wake, List.append_assoc, split]

end

/-- The snapshot of a work that waits. -/
def Alarm.snapshot? : Alarm Path Subject Regeneration → Option Snapshot
  | .arming key ticket subject => some ⟨subject, key, ticket.token⟩
  | .timer key token subject => some ⟨subject, key, token⟩
  | .finish .. => none

/-- The key and the refresh of a run, and whether it had waited. -/
def Run.view (run : Run) : Path × Bool × Regeneration :=
  (run.key, run.token.isSome, run.refresh)

/-- The same of a work that runs. -/
def Alarm.view? : Alarm Path Subject Regeneration → Option (Path × Bool × Regeneration)
  | .finish key _ refresh => some (key, true, refresh)
  | _ => none

/-! ### A flow that follows a clock -/

/-- The flow is where the clock is, if besides the alarms the refreshes `others` are under way. -/
structure Mirrors (others : List Run) (calls : List Call) (debouncer : Debouncer Path)
    (desk : Desk) (alarms : List (Alarm Path Subject Regeneration)) (flow : Flow) : Prop where
  debouncer : flow.debouncer = debouncer
  desk : flow.desk = desk
  timers : flow.timers.Perm (alarms.filterMap Alarm.snapshot?)
  runs : ∃ own, flow.runs.Perm (own ++ others) ∧
    (own.map Run.view).Perm (alarms.filterMap Alarm.view?)
  calls : flow.history.filterMap Happening.call? = calls

/-- The order of the alarms does not matter. -/
theorem Mirrors.perm {others : List Run} {calls : List Call} {debouncer : Debouncer Path}
    {desk : Desk} {alarms alarms' : List (Alarm Path Subject Regeneration)} {flow : Flow}
    (mirrors : Mirrors others calls debouncer desk alarms flow) (permuted : alarms.Perm alarms') :
    Mirrors others calls debouncer desk alarms' flow := by
  obtain ⟨own, underWay, same⟩ := mirrors.runs
  exact ⟨mirrors.debouncer, mirrors.desk, mirrors.timers.trans (permuted.filterMap _),
    ⟨own, underWay, same.trans (permuted.filterMap _)⟩, mirrors.calls⟩

/-- The flow goes on to where the clock is. -/
def Follows (others : List Run) (calls : List Call) (clock : Session) (flow : Flow) : Prop :=
  ∃ next, Flow.Steps flow next ∧
    Mirrors others calls clock.debouncer clock.world clock.alarms next

/-- What is under way can be found in the flow. -/
theorem exists_run {runs own others : List Run} {view : Path × Bool × Regeneration}
    {views : List (Path × Bool × Regeneration)} (underWay : runs.Perm (own ++ others))
    (same : (own.map Run.view).Perm (view :: views)) :
    ∃ run rest, run.view = view ∧ runs.Perm (run :: (rest ++ others)) ∧
      (rest.map Run.view).Perm views := by
  obtain ⟨run, member, isView⟩ := List.mem_map.mp (same.mem_iff.mpr List.mem_cons_self)
  obtain ⟨first, second, rfl⟩ := List.append_of_mem member
  have front : (first ++ run :: second).Perm (run :: (first ++ second)) := List.perm_middle
  refine ⟨run, first ++ second, isView, underWay.trans (front.append_right others), ?_⟩
  have views' := (front.map Run.view).symm.trans same
  rw [List.map_cons, isView] at views'
  exact views'.cons_inv

section

variable {others : List Run} {calls : List Call} {flow : Flow}

/-- A refresh that had waited ends. -/
theorem Mirrors.finish {debouncer : Debouncer Path} {desk : Desk} {key : Path} {started : Nat}
    {refresh : Regeneration} {alarms : List (Alarm Path Subject Regeneration)}
    (mirrors : Mirrors others calls debouncer desk (.finish key started refresh :: alarms) flow)
    (nanoseconds : Nat) :
    ∃ next, Flow.Steps flow next ∧ Mirrors others calls (debouncer.record key nanoseconds)
      (desk.endRefresh refresh).1 alarms next := by
  obtain ⟨own, underWay, same⟩ := mirrors.runs
  obtain ⟨run, rest, isView, runs, views⟩ := exists_run underWay same
  obtain ⟨rfl, waited, rfl⟩ : run.key = key ∧ run.token.isSome = true ∧ run.refresh = refresh := by
    simpa [Run.view] using isView
  refine ⟨_, .single (.ended runs nanoseconds), ?_, ?_, mirrors.timers, ⟨rest, .refl _, views⟩, ?_⟩
  · simp only [Flow.ended, waited, if_true, mirrors.debouncer]
  · simp only [Flow.ended, mirrors.desk]
  · simp only [Flow.ended, List.filterMap_append, mirrors.calls]
    simp [Happening.call?]

/-- A timer runs down: nothing comes of it, or its refresh starts, and ends at once if it takes no
time. -/
theorem Mirrors.expire {clock : Session} {key : Path} {token : Nat} {subject : Subject}
    (mirrors : Mirrors others calls clock.debouncer clock.world
      (.timer key token subject :: clock.alarms) flow) :
    Follows others calls (clock.expire Session.worker key token subject) flow := by
  obtain ⟨own, underWay, same⟩ := mirrors.runs
  let timers := clock.alarms.filterMap Alarm.snapshot?
  have step : Flow.Step flow (Flow.fired { flow with timers } ⟨subject, key, token⟩) :=
    .fired mirrors.timers
  rw [Clock.expire]
  cases starts : clock.debouncer.expire? key token with
  | none =>
    have nothing : Flow.fired { flow with timers } ⟨subject, key, token⟩ =
        { flow with timers } := by
      simp only [Flow.fired, mirrors.debouncer, starts]
    rw [nothing] at step
    exact ⟨_, .single step, mirrors.debouncer, mirrors.desk, .refl _, ⟨own, underWay, same⟩,
      mirrors.calls⟩
  | some debouncer =>
    let desk := (clock.world.beginRefresh subject).1
    let refresh := (clock.world.beginRefresh subject).2.2
    have fired : Flow.fired { flow with timers } ⟨subject, key, token⟩ =
        { flow with
          debouncer, desk, timers
          runs := flow.runs ++ [⟨key, some token, refresh⟩]
          history := flow.history ++ [.started ⟨subject, key, token⟩] } := by
      simp only [Flow.fired, mirrors.debouncer, mirrors.desk, starts]
      rfl
    have started : Mirrors others calls debouncer desk
        (.finish key clock.now refresh :: clock.alarms)
        (Flow.fired { flow with timers } ⟨subject, key, token⟩) := by
      rw [fired]
      refine ⟨rfl, rfl, .refl _, ⟨⟨key, some token, refresh⟩ :: own, ?_, same.cons _⟩, ?_⟩
      · exact List.perm_append_comm.trans (underWay.cons _)
      · rw [List.filterMap_append, mirrors.calls]
        exact List.append_nil calls
    by_cases atOnce : (clock.world.beginRefresh subject).2.1 = 0
    · obtain ⟨next, ends, ended⟩ := started.finish ((clock.now - clock.now) * 1000000)
      refine ⟨next, .head step ends, ?_⟩
      simpa only [Session.worker, atOnce, if_true, Clock.complete, Clock.alarms] using ended
    · refine ⟨_, .single step, ?_⟩
      have permuted : (Clock.alarms { clock with
          debouncer
          world := desk
          agenda := clock.agenda.insert (clock.now + (clock.world.beginRefresh subject).2.1)
            (.finish key clock.now refresh) }).Perm
          (.finish key clock.now refresh :: clock.alarms) :=
        ((Agenda.map_insert _ _ _).append_left _).trans List.perm_middle
      simpa only [Session.worker, atOnce, if_false] using started.perm permuted.symm

/-- Whatever goes off, the flow can follow. -/
theorem Mirrors.fire {clock : Session} {alarm : Alarm Path Subject Regeneration}
    (mirrors : Mirrors others calls clock.debouncer clock.world (alarm :: clock.alarms) flow) :
    Follows others calls (clock.fire Session.worker alarm) flow := by
  cases alarm with
  | finish key started refresh =>
    obtain ⟨next, ends, ended⟩ := mirrors.finish ((clock.now - started) * 1000000)
    exact ⟨next, ends, ended⟩
  | timer key token subject => exact mirrors.expire
  | arming key ticket subject =>
    rw [Clock.fire, Clock.arm]
    -- To set a timer makes it an alarm of another kind, but the same timer of the flow.
    have set : Mirrors others calls clock.debouncer clock.world
        (.timer key ticket.token subject :: clock.alarms) flow :=
      ⟨mirrors.debouncer, mirrors.desk, mirrors.timers, mirrors.runs, mirrors.calls⟩
    by_cases atOnce : ticket.delay = 0
    · rw [if_pos atOnce]
      exact set.expire
    · rw [if_neg atOnce]
      have permuted : (Clock.alarms { clock with
          agenda := clock.agenda.insert (clock.now + ticket.delay)
            (.timer key ticket.token subject) }).Perm
          (.timer key ticket.token subject :: clock.alarms) :=
        ((Agenda.map_insert _ _ _).append_left _).trans List.perm_middle
      exact ⟨flow, .refl, set.perm permuted.symm⟩

/-- As long as there are alarms before an instant, the flow follows them. -/
theorem follows_runBefore (limit : Nat) (clock : Session)
    (mirrors : Mirrors others calls clock.debouncer clock.world clock.alarms flow) :
    Follows others calls (clock.runBefore Session.worker limit) flow := by
  fun_induction Clock.runBefore Session.worker limit clock generalizing flow with
  | case1 clock alarm rest ready inductionHypothesis =>
    have split : clock.alarms = alarm :: Clock.alarms { clock with ready := rest } := by
      simp only [Clock.alarms, ready, List.cons_append]
    rw [split] at mirrors
    obtain ⟨next, goes, there⟩ := @Mirrors.fire _ _ _ { clock with ready := rest } _ mirrors
    obtain ⟨later, goesOn, arrived⟩ := inductionHypothesis there
    exact ⟨later, goes.trans goesOn, arrived⟩
  | case2 clock ready later => exact ⟨flow, .refl, mirrors⟩
  | case3 clock ready due alarm rest later isDue inductionHypothesis =>
    refine inductionHypothesis ?_
    rw [Clock.alarms_wake]
    exact mirrors
  | case4 clock ready due alarm rest later notDue => exact ⟨flow, .refl, mirrors⟩

theorem follows_reach (instant : Nat) (clock : Session)
    (mirrors : Mirrors others calls clock.debouncer clock.world clock.alarms flow) :
    Follows others calls (clock.reach Session.worker instant) flow := by
  obtain ⟨next, goes, there⟩ := follows_runBefore instant clock mirrors
  refine ⟨next, goes, ?_⟩
  rw [Clock.reach, Clock.alarms_wake]
  exact there

theorem follows_wait (duration : Nat) (clock : Session)
    (mirrors : Mirrors others calls clock.debouncer clock.world clock.alarms flow) :
    Follows others calls (clock.wait duration) flow := by
  obtain ⟨next, goes, there⟩ := follows_reach (clock.now + duration) clock mirrors
  obtain ⟨later, goesOn, arrived⟩ := follows_runBefore (clock.now + duration) _ there
  exact ⟨later, goes.trans goesOn, arrived⟩

end

/-! ### Sessions -/

/-- The flow is where the session is and was told the same. -/
abbrev Tells (calls : List Call) (session : Session) (flow : Flow) : Prop :=
  Mirrors [] calls session.debouncer session.world session.alarms flow

section

variable {calls : List Call} {session : Session} {flow : Flow} (tells : Tells calls session flow)

include tells

theorem follows_changed (document : Document) :
    Follows [] (calls ++ [.changed document]) (session.changed document) flow := by
  refine ⟨_, .single (.changed document), ?_⟩
  rw [Session.changed, Flow.changed, tells.desk, tells.debouncer]
  have isDocument := session.world.document_takeUp document
  generalize session.world.takeUp document = taken at isDocument ⊢
  obtain ⟨world, subject, outcome⟩ := taken
  cases outcome with
  | ok =>
    refine ⟨rfl, rfl, ?_, ?_, ?_⟩
    · have alarms : (Clock.alarms (Clock.schedule { session with world } document.path.normalize
          subject)).Perm (.arming document.path.normalize
            (session.debouncer.schedule document.path.normalize).2 subject :: session.alarms) := by
        simp only [Clock.alarms, Clock.schedule, List.append_assoc]
        exact List.perm_middle
      refine List.Perm.trans ?_ (alarms.filterMap Alarm.snapshot?).symm
      exact List.perm_append_comm.trans (tells.timers.cons _)
    · obtain ⟨own, underWay, same⟩ := tells.runs
      refine ⟨own, underWay, ?_⟩
      have views : (Clock.alarms (Clock.schedule { session with world } document.path.normalize
          subject)).filterMap Alarm.view? = session.alarms.filterMap Alarm.view? := by
        simp only [Clock.alarms, Clock.schedule, List.filterMap_append]
        exact congrArg (· ++ _) (List.append_nil _)
      rw [views]
      exact same
    · rw [List.filterMap_append, tells.calls]
      exact congrArg (calls ++ [.changed ·]) isDocument
  | error failure =>
    refine ⟨rfl, rfl, tells.timers, tells.runs, ?_⟩
    rw [List.filterMap_append, tells.calls]
    rfl

theorem follows_closed (path : Path) :
    Follows [] (calls ++ [.closed path]) (session.closed path) flow := by
  refine ⟨_, .single (.closed path), ?_⟩
  rw [Session.closed, Flow.closed, tells.desk, tells.debouncer]
  refine ⟨rfl, rfl, tells.timers, tells.runs, ?_⟩
  rw [List.filterMap_append, tells.calls]
  rfl

theorem follows_setAnswer (path : Path) (answer : TimedAnswer) :
    Follows [] calls (session.setAnswer path answer) flow := by
  refine ⟨_, .single (.elsewhere session.world.workspace
    (session.setAnswer path answer).world.tool), ?_⟩
  rw [tells.desk]
  exact ⟨tells.debouncer, rfl, tells.timers, tells.runs, tells.calls⟩

theorem follows_delayFor (path : Path) : Follows [] calls (session.delayFor path).1 flow := by
  refine ⟨_, .single (.looked path.plain), ?_⟩
  rw [tells.debouncer]
  exact ⟨rfl, tells.desk, tells.timers, tells.runs, tells.calls⟩

/-- While a session waits for a refresh, the flow has one more under way. -/
theorem follows_refreshNow (document : Document) :
    Follows [] (calls ++ [.refreshNow document]) (session.refreshNow document).1 flow := by
  let taken := session.world.takeUp document
  let begun := taken.1.beginRefresh taken.2.1
  let run : Run := ⟨document.path.normalize, none, begun.2.2⟩
  have asked : Mirrors [run] (calls ++ [.refreshNow document]) session.debouncer begun.1
      session.alarms (flow.asked document) := by
    obtain ⟨own, underWay, same⟩ := tells.runs
    rw [List.append_nil] at underWay
    rw [Flow.asked, tells.desk]
    refine ⟨tells.debouncer, rfl, tells.timers, ⟨own, underWay.append_right _, same⟩, ?_⟩
    rw [List.filterMap_append, tells.calls]
    rfl
  -- The time the build tool takes, in which all that is due before goes off.
  let later : Session := if begun.2.1 = 0 then { session with world := begun.1 }
    else Clock.reach Session.worker (session.now + begun.2.1) { session with world := begun.1 }
  obtain ⟨there, waits, arrived⟩ : Follows [run] (calls ++ [.refreshNow document]) later
      (flow.asked document) := by
    by_cases atOnce : begun.2.1 = 0
    · simp only [later, if_pos atOnce]
      exact ⟨_, .refl, asked⟩
    · simp only [later, if_neg atOnce]
      exact follows_reach _ { session with world := begun.1 } asked
  obtain ⟨own, underWay, same⟩ := arrived.runs
  have ends : Flow.Step there (Flow.ended { there with runs := own } run 0) :=
    .ended (underWay.trans List.perm_append_comm) 0
  refine ⟨_, (Relation.ReflTransGen.head (.asked document) waits).tail ends, ?_⟩
  have result : (session.refreshNow document).1 =
      { later with world := (later.world.endRefresh begun.2.2).1 } := rfl
  rw [result]
  refine ⟨arrived.debouncer, ?_, arrived.timers, ⟨own, by rw [List.append_nil]; exact .refl _, same⟩,
    ?_⟩
  · simp only [Flow.ended, arrived.desk, run]
  · simp only [Flow.ended, List.filterMap_append, arrived.calls]
    exact List.append_nil _

end

/-- What can be done with a session, a flow can follow. -/
theorem follows_perform {calls : List Call} {session : Session} {flow : Flow}
    (tells : Tells calls session flow) (operation : Operation) :
    Follows [] (calls ++ operation.call?.toList) (session.perform operation) flow := by
  cases operation with
  | changed document => exact follows_changed tells document
  | closed path => exact follows_closed tells path
  | refreshNow document => exact follows_refreshNow tells document
  | wait duration =>
    change Follows [] (calls ++ []) _ _
    rw [List.append_nil]
    exact follows_wait duration session tells
  | setAnswer path answer =>
    change Follows [] (calls ++ []) _ _
    rw [List.append_nil]
    exact follows_setAnswer tells path answer
  | delayFor path =>
    change Follows [] (calls ++ []) _ _
    rw [List.append_nil]
    exact follows_delayFor tells path

/-- Every state of a session is one that a flow can come to after the same calls. -/
theorem exists_flow (diagnostics : DiagnosticsSettings) (delays : DelaySettings)
    (operations : List Operation) :
    ∃ flow : Flow, flow.Reachable ∧
      flow.debouncer = (operations.foldl Session.perform (.start diagnostics delays)).debouncer ∧
      flow.desk = (operations.foldl Session.perform (.start diagnostics delays)).world ∧
      flow.history.filterMap Happening.call? = operations.filterMap Operation.call? := by
  have tells : ∃ flow : Flow, flow.Reachable ∧ Tells (operations.filterMap Operation.call?)
      (operations.foldl Session.perform (.start diagnostics delays)) flow := by
    induction operations using List.reverseRecOn with
    | nil =>
      refine ⟨Flow.start delays (Session.start diagnostics delays).world,
        ⟨_, Flow.fresh_start _ _, .refl⟩, rfl, rfl, .refl _, ⟨[], .refl _, .refl _⟩, rfl⟩
    | append_singleton operations last inductionHypothesis =>
      obtain ⟨flow, reachable, tells⟩ := inductionHypothesis
      obtain ⟨next, steps, tells⟩ := follows_perform tells last
      refine ⟨next, reachable.steps steps, ?_⟩
      have calls : (operations ++ [last]).filterMap Operation.call? =
          operations.filterMap Operation.call? ++ last.call?.toList := by
        rw [List.filterMap_append]
        cases same : last.call? <;> simp [same]
      rw [List.foldl_append, List.foldl_cons, List.foldl_nil, calls]
      exact tells
  obtain ⟨flow, reachable, tells⟩ := tells
  exact ⟨flow, reachable, tells.debouncer, tells.desk, tells.calls⟩

end PomLens
