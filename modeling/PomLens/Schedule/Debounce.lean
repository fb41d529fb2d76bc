/-
This file decides which work waits and for how long.

At most one work waits for each key. A work waits for the time that its key's earlier works
took on average, times a factor, but no less than a floor; one that is scheduled while
another waits takes its place. Every scheduled work gets a token, and a timer that has run
down starts its work only if the waiting work of the key still has that token. So a timer
that was too late to be stopped does no harm.
-/

import PomLens.Schedule.History
import PomLens.Settings

namespace PomLens

/-- The time in milliseconds that a work waits, given the average time of earlier ones. What
is no proper time counts as none. -/
def DelaySettings.delay (settings : DelaySettings) (average : Float) : Nat :=
  let scaled := (settings.growthFactor * average).floor
  if !scaled.isFinite || scaled ≤ 0 then settings.floor
  else max scaled.toUInt64.toNat settings.floor

/-- The works that wait, and how long works took. -/
structure Debouncer (κ : Type) where
  settings : DelaySettings
  history : History κ
  /-- The keys for which a work waits, each with the token of that work. -/
  pending : List (κ × Nat)
  /-- The token given last. Tokens never run out. -/
  lastToken : Nat
  deriving Repr

/-- What a work is given when it is scheduled. -/
structure Ticket where
  token : Nat
  /-- The time to wait, in milliseconds. -/
  delay : Nat
  deriving DecidableEq, Repr

namespace Debouncer

variable {κ : Type} [DecidableEq κ]

/-- Nothing waits and nothing has run. -/
def new (settings : DelaySettings) : Debouncer κ :=
  ⟨settings, .new settings.capacity, [], 0⟩

/-- The token of the work that waits for a key. -/
def token? (debouncer : Debouncer κ) (key : κ) : Option Nat :=
  debouncer.pending.lookup key

/-- A work waits for the key. -/
def isPending (debouncer : Debouncer κ) (key : κ) : Bool :=
  (debouncer.token? key).isSome

/-- The number of works that wait. -/
def pendingCount (debouncer : Debouncer κ) : Nat :=
  debouncer.pending.length

/-- The works that wait for other keys. -/
def pendingOthers (debouncer : Debouncer κ) (key : κ) : List (κ × Nat) :=
  debouncer.pending.filter fun (other, _) => other ≠ key

/-- How long a work scheduled now would wait. Asking counts as a use of the key. -/
def delayFor (debouncer : Debouncer κ) (key : κ) : Debouncer κ × Nat :=
  let (history, average) := debouncer.history.use key
  ({ debouncer with history },
    debouncer.settings.delay ((average.map Average.value).getD 0))

/-- Takes up the time that a work of the key took. -/
def record (debouncer : Debouncer κ) (key : κ) (nanoseconds : Nat) : Debouncer κ :=
  { debouncer with history := debouncer.history.record key (milliseconds nanoseconds) }

/-- Makes a work of the key wait, in place of one that waits already. -/
def schedule (debouncer : Debouncer κ) (key : κ) : Debouncer κ × Ticket :=
  let (asked, delay) := debouncer.delayFor key
  let token := debouncer.lastToken + 1
  ({ asked with pending := asked.pendingOthers key ++ [(key, token)], lastToken := token },
    ⟨token, delay⟩)

/-- Gives up the work that waits for a key. Says whether there was one. -/
def cancel (debouncer : Debouncer κ) (key : κ) : Debouncer κ × Bool :=
  ({ debouncer with pending := debouncer.pendingOthers key }, debouncer.isPending key)

/-- Gives up all works that wait. That is how a debouncer ends; works that run are not stopped. -/
def giveUp (debouncer : Debouncer κ) : Debouncer κ :=
  { debouncer with pending := [] }

/-- What a timer does that has run down: the work with its token waits no longer and is to
start. There is nothing to start if another work has taken its place or it was given up. -/
def expire? (debouncer : Debouncer κ) (key : κ) (token : Nat) : Option (Debouncer κ) :=
  if debouncer.token? key = some token then
    some { debouncer with pending := debouncer.pendingOthers key }
  else none

end Debouncer

end PomLens
