/-
This file lets a debouncer work in every order in which it can.

A clock settles when timers run down. Here nothing is settled: a timer may be set late and may run
down late, a work may run for any time, and calls come whenever they like. A timer whose work was
replaced or given up may be stopped, or run down before it is; only the comparison of tokens then
keeps it from starting something. Each step is made by the debouncer's own operations, and a
history keeps what has happened. Instants are counted in nanoseconds.
-/

import Mathlib.Logic.Relation
import PomLens.Proofs.Schedule.Pending

namespace PomLens

/-! ### States -/

/-- A work that was scheduled. -/
structure Job (κ : Type) where
  key : κ
  ticket : Ticket
  /-- The instant at which it was scheduled. -/
  since : Nat
  deriving DecidableEq

/-- The instant before which a work does not start. -/
def Job.due {κ : Type} (job : Job κ) : Nat :=
  job.since + job.ticket.delay * 1000000

inductive Incident (κ : Type)
  | scheduled (job : Job κ)
  /-- The work that waits for a key was given up, if there was one. -/
  | cancelled (key : κ) (was : Bool)
  | started (job : Job κ) (instant : Nat)
  /-- All works that wait were given up for good. -/
  | dropped
  deriving DecidableEq

structure Traffic (κ : Type) where
  debouncer : Debouncer κ
  now : Nat
  /-- The timers that have neither run down nor been stopped, each with the instant at which it
  runs down, once it is set. -/
  timers : List (Job κ × Option Nat)
  /-- The works that run, with the instants at which they started. -/
  running : List (Job κ × Nat)
  /-- The debouncer can be called. -/
  inUse : Bool
  history : List (Incident κ)

namespace Traffic

variable {κ : Type} [DecidableEq κ]

/-! ### Steps -/

/-- A work is scheduled now. -/
def nextJob (traffic : Traffic κ) (key : κ) : Job κ :=
  ⟨key, (traffic.debouncer.schedule key).2, traffic.now⟩

/-- Makes a work wait. Its timer is not set yet. -/
def schedule (traffic : Traffic κ) (key : κ) : Traffic κ :=
  { traffic with
    debouncer := (traffic.debouncer.schedule key).1
    timers := traffic.timers ++ [(traffic.nextJob key, none)]
    history := traffic.history ++ [.scheduled (traffic.nextJob key)] }

/-- Gives up the work that waits for a key. -/
def cancel (traffic : Traffic κ) (key : κ) : Traffic κ :=
  { traffic with
    debouncer := (traffic.debouncer.cancel key).1
    history := traffic.history ++ [.cancelled key (traffic.debouncer.cancel key).2] }

/-- The timer of a work is set. Its time begins now. -/
def arm (traffic : Traffic κ) (job : Job κ) (others : List (Job κ × Option Nat)) : Traffic κ :=
  { traffic with
    timers := (job, some (traffic.now + job.ticket.delay * 1000000)) :: others }

/-- A timer has run down. -/
def expire (traffic : Traffic κ) (job : Job κ) : Traffic κ :=
  match traffic.debouncer.expire? job.key job.ticket.token with
  | none => traffic
  | some debouncer =>
    { traffic with
      debouncer
      running := traffic.running ++ [(job, traffic.now)]
      history := traffic.history ++ [.started job traffic.now] }

/-- The debouncer is not needed any more. -/
def drop (traffic : Traffic κ) : Traffic κ :=
  { traffic with
    debouncer := traffic.debouncer.giveUp
    inUse := false
    history := traffic.history ++ [.dropped] }

/-- All steps, each with the key that it is about, if it is about one. -/
inductive Step (traffic : Traffic κ) : Option κ → Traffic κ → Prop
  | scheduled (inUse : traffic.inUse = true) (key : κ) : Step traffic key (traffic.schedule key)
  | cancelled (inUse : traffic.inUse = true) (key : κ) : Step traffic key (traffic.cancel key)
  /-- Somebody asks how long a work would wait. -/
  | looked (inUse : traffic.inUse = true) (key : κ) :
      Step traffic key { traffic with debouncer := (traffic.debouncer.delayFor key).1 }
  /-- Somebody says how long a work took. -/
  | recorded (inUse : traffic.inUse = true) (key : κ) (nanoseconds : Nat) :
      Step traffic key { traffic with debouncer := traffic.debouncer.record key nanoseconds }
  | armed {job : Job κ} {rest : List (Job κ × Option Nat)}
      (waiting : traffic.timers.Perm ((job, none) :: rest)) :
      Step traffic job.key (traffic.arm job rest)
  | expired {job : Job κ} {due : Nat} {rest : List (Job κ × Option Nat)}
      (waiting : traffic.timers.Perm ((job, some due) :: rest)) (isDue : due ≤ traffic.now) :
      Step traffic job.key (expire { traffic with timers := rest } job)
  /-- Only a timer whose work was replaced or given up is stopped. -/
  | stopped {job : Job κ} {due : Option Nat} {rest : List (Job κ × Option Nat)}
      (waiting : traffic.timers.Perm ((job, due) :: rest))
      (superseded : traffic.debouncer.token? job.key ≠ some job.ticket.token) :
      Step traffic job.key { traffic with timers := rest }
  /-- A work has ended, and the time it took is taken up. -/
  | completed {job : Job κ} {started : Nat} {rest : List (Job κ × Nat)}
      (underWay : traffic.running.Perm ((job, started) :: rest)) :
      Step traffic job.key { traffic with
        debouncer := traffic.debouncer.record job.key (traffic.now - started)
        running := rest }
  /-- Time passes. -/
  | waited (duration : Nat) : Step traffic none { traffic with now := traffic.now + duration }
  | dropped (inUse : traffic.inUse = true) : Step traffic none traffic.drop

/-- One step, whatever it is about. -/
def Goes (traffic next : Traffic κ) : Prop :=
  ∃ about, Step traffic about next

/-- Nothing has happened yet. -/
def start (settings : DelaySettings) (now : Nat) : Traffic κ :=
  ⟨.new settings, now, [], [], true, []⟩

/-- A state that a debouncer can come to. -/
def Reachable (traffic : Traffic κ) : Prop :=
  ∃ settings now, Relation.ReflTransGen Goes (start settings now) traffic

theorem reachable_start (settings : DelaySettings) (now : Nat) :
    Reachable (start settings now : Traffic κ) :=
  ⟨settings, now, .refl⟩

theorem Reachable.step {traffic next : Traffic κ} {about : Option κ}
    (reachable : traffic.Reachable) (step : Step traffic about next) : next.Reachable := by
  obtain ⟨settings, now, steps⟩ := reachable
  exact ⟨settings, now, steps.tail ⟨about, step⟩⟩

/-- What holds at the start and is kept by every step holds always. -/
theorem Reachable.induction {holds : Traffic κ → Prop}
    (start : ∀ settings now, holds (start settings now))
    (step : ∀ traffic next about, holds traffic → Step traffic about next → holds next)
    {traffic : Traffic κ} (reachable : traffic.Reachable) : holds traffic := by
  obtain ⟨settings, now, steps⟩ := reachable
  induction steps with
  | refl => exact start settings now
  | tail _ goes inductionHypothesis =>
    obtain ⟨about, next⟩ := goes
    exact step _ _ about inductionHypothesis next

/-! ### What a timer does that has run down -/

/-- It starts its work if that still waits, and does nothing otherwise. -/
theorem expire_cases (traffic : Traffic κ) (job : Job κ) :
    (traffic.debouncer.token? job.key ≠ some job.ticket.token ∧ traffic.expire job = traffic) ∨
      ∃ debouncer, traffic.debouncer.expire? job.key job.ticket.token = some debouncer ∧
        traffic.expire job =
          { traffic with
            debouncer
            running := traffic.running ++ [(job, traffic.now)]
            history := traffic.history ++ [.started job traffic.now] } := by
  by_cases waiting : traffic.debouncer.token? job.key = some job.ticket.token
  · refine Or.inr ⟨_, if_pos waiting, ?_⟩
    simp only [expire, Debouncer.expire?, if_pos waiting]
  · exact Or.inl ⟨waiting, by simp only [expire, Debouncer.expire?_of_ne _ waiting]⟩

end Traffic

end PomLens
