/-
This file lets time pass for works that wait and works that run.

A clock keeps what is to happen in two places. What is ready happens at the present instant,
in the order in which it became ready, as soon as time is given to it. What is due later
stands on an agenda with its instant; when time has come to that instant, it becomes ready in
the order in which it was put there. A work that was scheduled becomes ready to have its
timer set, so the timers of works that are scheduled together run behind those of works that
were already ready. The timer of a work that was replaced or given up stays where it is, and
nothing comes of it.

What a work does is up to a worker: starting a work changes the world and says how long the
work will run, and its end changes the world again.
-/

import PomLens.Schedule.Debounce

namespace PomLens

/-! ### Agendas -/

/-- Something that happens at some instant. -/
inductive Alarm (κ ω ρ : Type)
  /-- The timer of a scheduled work is set. -/
  | arming (key : κ) (ticket : Ticket) (work : ω)
  /-- The timer of a waiting work has run down. -/
  | timer (key : κ) (token : Nat) (work : ω)
  /-- A running work ends. -/
  | finish (key : κ) (started : Nat) (run : ρ)
  deriving Repr

/-- How much is still to happen because of an alarm that is ready. One that is still to
become ready has one step more before it. -/
def Alarm.weight {κ ω ρ : Type} : Alarm κ ω ρ → Nat
  | .arming .. => 5
  | .timer .. => 3
  | .finish .. => 1

/-- Alarms with the instants at which they are due, the earliest first. -/
abbrev Agenda (κ ω ρ : Type) := List (Nat × Alarm κ ω ρ)

namespace Agenda

variable {κ ω ρ : Type}

/-- The agenda with one more alarm, behind those that are due no later. -/
def insert (due : Nat) (alarm : Alarm κ ω ρ) : Agenda κ ω ρ → Agenda κ ω ρ
  | [] => [(due, alarm)]
  | (other, first) :: rest =>
    if other ≤ due then (other, first) :: insert due alarm rest
    else (due, alarm) :: (other, first) :: rest

/-- The alarms that are due up to an instant, and the rest of the agenda. -/
def split (instant : Nat) : Agenda κ ω ρ → List (Alarm κ ω ρ) × Agenda κ ω ρ
  | [] => ([], [])
  | (due, alarm) :: rest =>
    if due ≤ instant then
      let (alarms, later) := split instant rest
      (alarm :: alarms, later)
    else ([], (due, alarm) :: rest)

/-- How much is still to happen because of an agenda. -/
def weight : Agenda κ ω ρ → Nat
  | [] => 0
  | (_, alarm) :: rest => alarm.weight + 1 + weight rest

/-- How much is still to happen because of alarms that are ready. -/
def readyWeight : List (Alarm κ ω ρ) → Nat
  | [] => 0
  | alarm :: rest => alarm.weight + readyWeight rest

theorem weight_insert (due : Nat) (alarm : Alarm κ ω ρ) (agenda : Agenda κ ω ρ) :
    (agenda.insert due alarm).weight = alarm.weight + 1 + agenda.weight := by
  induction agenda with
  | nil => simp [insert, weight]
  | cons first rest inductionHypothesis =>
    simp only [insert]
    split
    · simp only [weight, inductionHypothesis]
      omega
    · rfl

theorem readyWeight_append (first second : List (Alarm κ ω ρ)) :
    readyWeight (first ++ second) = readyWeight first + readyWeight second := by
  induction first with
  | nil => simp [readyWeight]
  | cons alarm rest inductionHypothesis =>
    simp only [List.cons_append, readyWeight, inductionHypothesis]
    omega

theorem weight_split (instant : Nat) (agenda : Agenda κ ω ρ) :
    readyWeight (agenda.split instant).1 + (agenda.split instant).1.length +
      (agenda.split instant).2.weight = agenda.weight := by
  induction agenda with
  | nil => rfl
  | cons first rest inductionHypothesis =>
    simp only [split]
    split
    · simp only [readyWeight, weight, List.length_cons]
      omega
    · simp [readyWeight, weight]

theorem length_split_pos {instant due : Nat} {alarm : Alarm κ ω ρ} {rest : Agenda κ ω ρ}
    (isDue : due ≤ instant) : 0 < (split instant ((due, alarm) :: rest)).1.length := by
  simp [split, isDue]

end Agenda

/-! ### Works -/

/-- What works do to a world of type `σ` at an instant. A work is described by an `ω` while
it waits and by a `ρ` while it runs. -/
structure Worker (κ ω ρ σ : Type) where
  /-- Starts a work: the world behind it, the time it will run in milliseconds, and what is
  left to be done at its end. -/
  start : Nat → σ → κ → ω → σ × Nat × ρ
  /-- Ends a work. -/
  finish : Nat → σ → κ → ρ → σ

/-! ### Time -/

structure Clock (κ ω ρ σ : Type) where
  /-- The present instant, in milliseconds. -/
  now : Nat
  debouncer : Debouncer κ
  /-- What happens next at the present instant, in its order. -/
  ready : List (Alarm κ ω ρ)
  agenda : Agenda κ ω ρ
  world : σ

namespace Clock

variable {κ ω ρ σ : Type} [DecidableEq κ]

/-- The clock at its start. -/
def new (settings : DelaySettings) (world : σ) : Clock κ ω ρ σ :=
  ⟨0, .new settings, [], [], world⟩

/-- Makes a work wait. -/
def schedule (clock : Clock κ ω ρ σ) (key : κ) (work : ω) : Clock κ ω ρ σ :=
  let (debouncer, ticket) := clock.debouncer.schedule key
  { clock with debouncer, ready := clock.ready ++ [.arming key ticket work] }

/-- Gives up the work that waits for a key. -/
def cancel (clock : Clock κ ω ρ σ) (key : κ) : Clock κ ω ρ σ × Bool :=
  let (debouncer, was) := clock.debouncer.cancel key
  ({ clock with debouncer }, was)

/-- How long a work scheduled now would wait. -/
def delayFor (clock : Clock κ ω ρ σ) (key : κ) : Clock κ ω ρ σ × Nat :=
  let (debouncer, delay) := clock.debouncer.delayFor key
  ({ clock with debouncer }, delay)

/-- Takes up the time that a work took. -/
def record (clock : Clock κ ω ρ σ) (key : κ) (nanoseconds : Nat) : Clock κ ω ρ σ :=
  { clock with debouncer := clock.debouncer.record key nanoseconds }

/-- A running work ends, and the time it took is taken up. -/
def complete (worker : Worker κ ω ρ σ) (clock : Clock κ ω ρ σ) (key : κ) (started : Nat)
    (run : ρ) : Clock κ ω ρ σ :=
  { clock with
    world := worker.finish clock.now clock.world key run
    debouncer := clock.debouncer.record key ((clock.now - started) * 1000000) }

/-- A timer runs down. A work that takes no time ends at once. -/
def expire (worker : Worker κ ω ρ σ) (clock : Clock κ ω ρ σ) (key : κ) (token : Nat)
    (work : ω) : Clock κ ω ρ σ :=
  match clock.debouncer.expire? key token with
  | none => clock
  | some debouncer =>
    let (world, duration, run) := worker.start clock.now clock.world key work
    let started := { clock with debouncer, world }
    if duration = 0 then started.complete worker key clock.now run
    else
      { started with
        agenda := clock.agenda.insert (clock.now + duration) (.finish key clock.now run) }

/-- Sets the timer of a scheduled work. Without a delay it runs down at once. -/
def arm (worker : Worker κ ω ρ σ) (clock : Clock κ ω ρ σ) (key : κ) (ticket : Ticket)
    (work : ω) : Clock κ ω ρ σ :=
  if ticket.delay = 0 then clock.expire worker key ticket.token work
  else
    { clock with
      agenda := clock.agenda.insert (clock.now + ticket.delay) (.timer key ticket.token work) }

/-- What an alarm does at the present instant. -/
def fire (worker : Worker κ ω ρ σ) (clock : Clock κ ω ρ σ) : Alarm κ ω ρ → Clock κ ω ρ σ
  | .arming key ticket work => clock.arm worker key ticket work
  | .timer key token work => clock.expire worker key token work
  | .finish key started run => clock.complete worker key started run

/-- Time comes to an instant, and what is due by then becomes ready. -/
def wake (instant : Nat) (clock : Clock κ ω ρ σ) : Clock κ ω ρ σ :=
  let (alarms, agenda) := clock.agenda.split instant
  { clock with now := instant, ready := clock.ready ++ alarms, agenda }

/-- How much is still to happen. -/
def weight (clock : Clock κ ω ρ σ) : Nat :=
  Agenda.readyWeight clock.ready + clock.agenda.weight

omit [DecidableEq κ] in
theorem weight_wake_lt {instant due : Nat} {clock : Clock κ ω ρ σ} {alarm : Alarm κ ω ρ}
    {rest : Agenda κ ω ρ} (waiting : clock.agenda = (due, alarm) :: rest)
    (isDue : due ≤ instant) : (clock.wake instant).weight < clock.weight := by
  have parts := Agenda.weight_split instant clock.agenda
  have moved : 0 < (clock.agenda.split instant).1.length := by
    rw [waiting]
    exact Agenda.length_split_pos isDue
  simp only [weight, wake, Agenda.readyWeight_append]
  omega

theorem weight_expire_le (worker : Worker κ ω ρ σ) (clock : Clock κ ω ρ σ) (key : κ)
    (token : Nat) (work : ω) :
    (clock.expire worker key token work).weight ≤ 2 + clock.weight := by
  simp only [expire]
  split
  · omega
  · split
    · simp [weight, complete]
    · simp only [weight, Agenda.weight_insert, Alarm.weight]
      omega

theorem weight_fire_lt (worker : Worker κ ω ρ σ) (clock : Clock κ ω ρ σ)
    (alarm : Alarm κ ω ρ) :
    (clock.fire worker alarm).weight < alarm.weight + clock.weight := by
  cases alarm with
  | finish key started run => simp [fire, complete, weight, Alarm.weight]
  | timer key token work =>
    have := weight_expire_le worker clock key token work
    simp only [fire, Alarm.weight]
    omega
  | arming key ticket work =>
    have := weight_expire_le worker clock key ticket.token work
    simp only [fire, arm, Alarm.weight]
    split
    · omega
    · simp only [weight, Agenda.weight_insert, Alarm.weight]
      omega

/-- Lets happen all that is ready and all that is due before an instant. -/
def runBefore (worker : Worker κ ω ρ σ) (limit : Nat) (clock : Clock κ ω ρ σ) :
    Clock κ ω ρ σ :=
  match _waiting : clock.ready with
  | alarm :: rest => runBefore worker limit (fire worker { clock with ready := rest } alarm)
  | [] =>
    match _later : clock.agenda with
    | [] => clock
    | (due, _) :: _ => if due < limit then runBefore worker limit (clock.wake due) else clock
termination_by clock.weight
decreasing_by
  · have shrinks := weight_fire_lt worker { clock with ready := rest } alarm
    simp only [weight, _waiting, Agenda.readyWeight] at shrinks ⊢
    omega
  · exact weight_wake_lt _later (Nat.le_refl due)

/-- Lets time come to a later instant. What is due then is ready, but has not happened. -/
def reach (worker : Worker κ ω ρ σ) (instant : Nat) (clock : Clock κ ω ρ σ) :
    Clock κ ω ρ σ :=
  (clock.runBefore worker instant).wake instant

/-- Lets time pass. All that is due by then, at the last instant too, has happened. -/
def advance (worker : Worker κ ω ρ σ) (duration : Nat) (clock : Clock κ ω ρ σ) :
    Clock κ ω ρ σ :=
  let limit := clock.now + duration
  (clock.reach worker limit).runBefore worker limit

end Clock

end PomLens
