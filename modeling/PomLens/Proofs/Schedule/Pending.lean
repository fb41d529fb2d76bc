/-
This file says what each operation of a debouncer does to the works that wait.

A debouncer is looked at through the token that waits for each key. Scheduling gives the key a
new token, giving up and starting take it away, and looking up or recording run times touches
none. No operation on one key changes what waits for another.
-/

import PomLens.Proofs.Lookup
import PomLens.Schedule.Debounce

namespace PomLens.Debouncer

variable {κ : Type} [DecidableEq κ] (debouncer : Debouncer κ)

/-! ### Works that wait for other keys -/

theorem lookup_pendingOthers (key other : κ) :
    (debouncer.pendingOthers key).lookup other =
      if other = key then none else debouncer.token? other :=
  lookup_filter_ne debouncer.pending key other

/-! ### Looking up and recording -/

@[simp] theorem token?_delayFor (key other : κ) :
    (debouncer.delayFor key).1.token? other = debouncer.token? other := rfl

@[simp] theorem lastToken_delayFor (key : κ) :
    (debouncer.delayFor key).1.lastToken = debouncer.lastToken := rfl

@[simp] theorem token?_record (key other : κ) (nanoseconds : Nat) :
    (debouncer.record key nanoseconds).token? other = debouncer.token? other := rfl

@[simp] theorem lastToken_record (key : κ) (nanoseconds : Nat) :
    (debouncer.record key nanoseconds).lastToken = debouncer.lastToken := rfl

/-! ### Scheduling -/

@[simp] theorem token_schedule (key : κ) :
    (debouncer.schedule key).2.token = debouncer.lastToken + 1 := rfl

@[simp] theorem lastToken_schedule (key : κ) :
    (debouncer.schedule key).1.lastToken = debouncer.lastToken + 1 := rfl

/-- A scheduled work waits in place of an older one of its key. -/
@[simp] theorem token?_schedule (key other : κ) :
    (debouncer.schedule key).1.token? other =
      if other = key then some (debouncer.lastToken + 1) else debouncer.token? other := by
  have pending : (debouncer.schedule key).1.pending =
      debouncer.pendingOthers key ++ [(key, debouncer.lastToken + 1)] := rfl
  rw [token?, pending, List.lookup_append, lookup_pendingOthers]
  by_cases same : other = key
  · simp [same]
  · have different : (other == key) = false := by simpa using same
    simp [same, List.lookup_cons, different]

/-! ### Giving up and starting -/

@[simp] theorem token?_cancel (key other : κ) :
    (debouncer.cancel key).1.token? other =
      if other = key then none else debouncer.token? other :=
  debouncer.lookup_pendingOthers key other

@[simp] theorem lastToken_cancel (key : κ) :
    (debouncer.cancel key).1.lastToken = debouncer.lastToken := rfl

@[simp] theorem token?_giveUp (key : κ) : debouncer.giveUp.token? key = none := rfl

omit [DecidableEq κ] in
@[simp] theorem lastToken_giveUp : debouncer.giveUp.lastToken = debouncer.lastToken := rfl

theorem expire?_of_ne {key : κ} {token : Nat} (other : debouncer.token? key ≠ some token) :
    debouncer.expire? key token = none :=
  if_neg other

/-- A work starts only while it waits, and then it waits no longer. -/
theorem of_expire?_eq_some {debouncer debouncer' : Debouncer κ} {key : κ} {token : Nat}
    (starts : debouncer.expire? key token = some debouncer') :
    debouncer.token? key = some token ∧ debouncer'.lastToken = debouncer.lastToken ∧
      ∀ other, debouncer'.token? other =
        if other = key then none else debouncer.token? other := by
  rw [expire?] at starts
  split at starts
  · next waiting =>
    cases starts
    exact ⟨waiting, rfl, debouncer.lookup_pendingOthers key⟩
  · cases starts

end PomLens.Debouncer
