/-
This file proves that a debouncer on its clock takes one of the courses its traffic can take.

The alarms of a clock are the timers and the running works of a traffic, each due on the clock no
earlier than there. Each alarm that goes off is a step or two, and time passes in both alike. So
whatever is asked of a clock, there is a traffic with the same debouncer at the same instant that
was told the same, gave the same answers and started the same works at the same instants
(`exists_traffic`). What holds of all traffic holds of clocks, such as that no key sees more works
start than were scheduled for it (`count_starts_le`).
-/

import Mathlib
import PomLens.Proofs.Schedule.Agenda
import PomLens.Proofs.Schedule.Safety

namespace PomLens

variable {κ ω ρ σ : Type}

/-! ### Operations -/

/-- How a worker's world tells which works were started, and when. -/
structure Worker.Memory (worker : Worker κ ω ρ σ) where
  starts : σ → List (κ × Nat)
  starts_start : ∀ instant world key work,
    starts (worker.start instant world key work).1 = starts world ++ [(key, instant)]
  starts_finish : ∀ instant world key run,
    starts (worker.finish instant world key run) = starts world

/-- What a debouncer is asked that changes who waits, with its answer. -/
inductive Request (κ : Type)
  | schedule (key : κ)
  | cancel (key : κ) (was : Bool)

def Incident.request? : Incident κ → Option (Request κ)
  | .scheduled job => some (.schedule job.key)
  | .cancelled key was => some (.cancel key was)
  | _ => none

/-- The key for which a work was scheduled. -/
def Request.scheduled? : Request κ → Option κ
  | .schedule key => some key
  | .cancel .. => none

/-- The key of a work that was started, with the instant. -/
def Incident.start? : Incident κ → Option (κ × Nat)
  | .started job instant => some (job.key, instant)
  | _ => none

namespace Clock

/-- What can be done with a clock. -/
inductive Operation (κ ω : Type)
  | schedule (key : κ) (work : ω)
  | cancel (key : κ)
  | delayFor (key : κ)
  | record (key : κ) (nanoseconds : Nat)
  | advance (duration : Nat)

/-- The key for which a work is scheduled. -/
def Operation.scheduled? : Operation κ ω → Option κ
  | .schedule key _ => some key
  | _ => none

variable [DecidableEq κ]

def perform (worker : Worker κ ω ρ σ) (clock : Clock κ ω ρ σ) : Operation κ ω → Clock κ ω ρ σ
  | .schedule key work => clock.schedule key work
  | .cancel key => (clock.cancel key).1
  | .delayFor key => (clock.delayFor key).1
  | .record key nanoseconds => clock.record key nanoseconds
  | .advance duration => clock.advance worker duration

def request? (clock : Clock κ ω ρ σ) : Operation κ ω → Option (Request κ)
  | .schedule key _ => some (.schedule key)
  | .cancel key => some (.cancel key (clock.cancel key).2)
  | _ => none

/-- All that is asked while the operations are performed. -/
def requests (worker : Worker κ ω ρ σ) :
    Clock κ ω ρ σ → List (Operation κ ω) → List (Request κ)
  | _, [] => []
  | clock, operation :: rest =>
    (clock.request? operation).toList ++ requests worker (clock.perform worker operation) rest

variable {worker : Worker κ ω ρ σ} {clock : Clock κ ω ρ σ}

theorem scheduled_requests (operations : List (Operation κ ω)) :
    (clock.requests worker operations).filterMap Request.scheduled? =
      operations.filterMap Operation.scheduled? := by
  induction operations generalizing clock with
  | nil => rfl
  | cons operation rest inductionHypothesis =>
    rw [requests, List.filterMap_append, inductionHypothesis]
    cases operation <;> rfl

/-! ### Agendas -/

theorem ahead_expire (ahead : clock.agenda.Ahead clock.now) (key : κ) (token : Nat) (work : ω) :
    (clock.expire worker key token work).agenda.Ahead clock.now := by
  rw [expire]
  split
  · exact ahead
  · dsimp only
    split
    · exact ahead
    · exact ahead.insert (Nat.le_add_right _ _)

theorem now_expire (key : κ) (token : Nat) (work : ω) :
    (clock.expire worker key token work).now = clock.now := by
  rw [expire]
  split
  · rfl
  · dsimp only
    split <;> rfl

theorem now_fire (alarm : Alarm κ ω ρ) : (clock.fire worker alarm).now = clock.now := by
  cases alarm with
  | finish key started run => rfl
  | timer key token work => exact now_expire key token work
  | arming key ticket work =>
    rw [fire, arm]
    split
    · exact now_expire key ticket.token work
    · rfl

theorem ahead_fire (clock : Clock κ ω ρ σ) (ahead : clock.agenda.Ahead clock.now)
    (alarm : Alarm κ ω ρ) :
    (clock.fire worker alarm).agenda.Ahead (clock.fire worker alarm).now := by
  rw [now_fire]
  cases alarm with
  | finish key started run => exact ahead
  | timer key token work => exact ahead_expire ahead key token work
  | arming key ticket work =>
    rw [fire, arm]
    split
    · exact ahead_expire ahead key ticket.token work
    · exact ahead.insert (Nat.le_add_right _ _)

theorem ahead_runBefore (limit : Nat) (ahead : clock.agenda.Ahead clock.now) :
    (clock.runBefore worker limit).agenda.Ahead (clock.runBefore worker limit).now := by
  fun_induction runBefore worker limit clock with
  | case1 clock alarm rest ready inductionHypothesis =>
    exact inductionHypothesis (ahead_fire { clock with ready := rest } ahead alarm)
  | case2 clock ready later => exact ahead
  | case3 clock ready due alarm rest later isDue inductionHypothesis =>
    exact inductionHypothesis ahead.split
  | case4 clock ready due alarm rest later notDue => exact ahead

/-- Time does not go beyond the limit. -/
theorem now_runBefore_le {limit : Nat} (notBeyond : clock.now ≤ limit) :
    (clock.runBefore worker limit).now ≤ limit := by
  fun_induction runBefore worker limit clock with
  | case1 clock alarm rest ready inductionHypothesis =>
    exact inductionHypothesis (by rw [now_fire]; exact notBeyond)
  | case2 clock ready later => exact notBeyond
  | case3 clock ready due alarm rest later isDue inductionHypothesis =>
    exact inductionHypothesis (Nat.le_of_lt isDue)
  | case4 clock ready due alarm rest later notDue => exact notBeyond

theorem ahead_perform (ahead : clock.agenda.Ahead clock.now) (operation : Operation κ ω) :
    (clock.perform worker operation).agenda.Ahead (clock.perform worker operation).now := by
  cases operation with
  | advance duration =>
    refine ahead_runBefore _ ?_
    exact (ahead_runBefore _ ahead).split
  | _ => exact ahead

/-! ### Alarms -/

omit [DecidableEq κ]

/-- All that is still to go off, each with its instant. -/
def entries (clock : Clock κ ω ρ σ) : Multiset (Nat × Alarm κ ω ρ) :=
  Multiset.ofList (clock.ready.map (Prod.mk clock.now) ++ clock.agenda)

theorem entries_insert (clock : Clock κ ω ρ σ) (due : Nat) (alarm : Alarm κ ω ρ) :
    entries { clock with agenda := clock.agenda.insert due alarm } =
      (due, alarm) ::ₘ clock.entries :=
  Quot.sound (((Agenda.insert_perm due alarm _).append_left _).trans List.perm_middle)

theorem entries_schedule [DecidableEq κ] (key : κ) (work : ω) :
    (clock.schedule key work).entries =
      (clock.now, .arming key (clock.debouncer.schedule key).2 work) ::ₘ clock.entries := by
  refine Quot.sound ?_
  simp only [schedule, List.map_append, List.append_assoc]
  exact List.perm_middle

theorem entries_ready {alarm : Alarm κ ω ρ} {rest : List (Alarm κ ω ρ)}
    (ready : clock.ready = alarm :: rest) :
    clock.entries = (clock.now, alarm) ::ₘ entries { clock with ready := rest } := by
  simp only [entries, ready]
  rfl

end Clock

namespace Traffic

/-! ### Charges -/

/-- A timer, or a work that runs. -/
abbrev Charge (κ : Type) := (Job κ × Option Nat) ⊕ (Job κ × Nat)

section

variable {timer : Job κ × Option Nat} {timers timers' : List (Job κ × Option Nat)}
  {run : Job κ × Nat} {running running' : List (Job κ × Nat)} {rest : Multiset (Charge κ)}

def charges (timers : List (Job κ × Option Nat)) (running : List (Job κ × Nat)) :
    Multiset (Charge κ) :=
  Multiset.map Sum.inl ↑timers + Multiset.map Sum.inr ↑running

theorem charges_of_timers (split : timers.Perm (timer :: timers')) :
    charges timers running = .inl timer ::ₘ charges timers' running := by
  rw [charges, Multiset.coe_eq_coe.mpr split, ← Multiset.cons_coe, Multiset.map_cons,
    Multiset.cons_add, charges]

theorem charges_of_running (split : running.Perm (run :: running')) :
    charges timers running = .inr run ::ₘ charges timers running' := by
  rw [charges, Multiset.coe_eq_coe.mpr split, ← Multiset.cons_coe, Multiset.map_cons,
    Multiset.add_cons, charges]

/-- A timer that is met can be taken away. -/
theorem exists_timers (charged : charges timers running = .inl timer ::ₘ rest) :
    ∃ others, timers.Perm (timer :: others) ∧ rest = charges others running := by
  have member : Sum.inl timer ∈ charges timers running := charged ▸ Multiset.mem_cons_self _ _
  obtain ⟨first, second, rfl⟩ := List.append_of_mem (show timer ∈ timers by
    simpa [charges] using member)
  have split : (first ++ timer :: second).Perm (timer :: (first ++ second)) := List.perm_middle
  rw [charges_of_timers split] at charged
  exact ⟨_, split, ((Multiset.cons_inj_right _).mp charged).symm⟩

/-- A work that is met running can be taken away. -/
theorem exists_running (charged : charges timers running = .inr run ::ₘ rest) :
    ∃ others, running.Perm (run :: others) ∧ rest = charges timers others := by
  have member : Sum.inr run ∈ charges timers running := charged ▸ Multiset.mem_cons_self _ _
  obtain ⟨first, second, rfl⟩ := List.append_of_mem (show run ∈ running by
    simpa [charges] using member)
  have split : (first ++ run :: second).Perm (run :: (first ++ second)) := List.perm_middle
  rw [charges_of_running split] at charged
  exact ⟨_, split, ((Multiset.cons_inj_right _).mp charged).symm⟩

end

/-- An alarm stands for a timer, set or not, or for a work that runs. Its instant may be later than
that of the timer, which could have run down before. -/
inductive Stands : Nat × Alarm κ ω ρ → Charge κ → Prop
  | arming (due : Nat) (job : Job κ) (work : ω) :
      Stands (due, .arming job.key job.ticket work) (.inl (job, none))
  | timer {due instant : Nat} (job : Job κ) (work : ω) (notLater : instant ≤ due * 1000000) :
      Stands (due, .timer job.key job.ticket.token work) (.inl (job, some instant))
  | finish (due : Nat) (job : Job κ) (started : Nat) (run : ρ) :
      Stands (due, .finish job.key started run) (.inr (job, started * 1000000))

theorem Stands.later {due instant : Nat} {alarm : Alarm κ ω ρ} {charge : Charge κ}
    (stands : Stands (due, alarm) charge) (later : due ≤ instant) :
    Stands (instant, alarm) charge := by
  cases stands with
  | arming _ job work => exact .arming _ job work
  | timer job work notLater =>
    exact .timer job work (Nat.le_trans notLater (Nat.mul_le_mul_right _ later))
  | finish _ job started run => exact .finish _ job started run

/-! ### A traffic that follows a clock -/

variable [DecidableEq κ] {worker : Worker κ ω ρ σ}

/-- The traffic is where the clock is, if the alarms `entries` are those still to go off. -/
structure Mirrors (memory : worker.Memory) (requests : List (Request κ)) (clock : Clock κ ω ρ σ)
    (entries : Multiset (Nat × Alarm κ ω ρ)) (traffic : Traffic κ) : Prop where
  debouncer : traffic.debouncer = clock.debouncer
  now : traffic.now = clock.now * 1000000
  inUse : traffic.inUse = true
  alarms : Multiset.Rel Stands entries (charges traffic.timers traffic.running)
  requests : traffic.history.filterMap Incident.request? = requests
  starts : traffic.history.filterMap Incident.start? =
    (memory.starts clock.world).map (Prod.map id (· * 1000000))

/-- The traffic goes on to where the clock is. -/
def Follows (memory : worker.Memory) (requests : List (Request κ)) (clock : Clock κ ω ρ σ)
    (traffic : Traffic κ) : Prop :=
  ∃ next, Relation.ReflTransGen Goes traffic next ∧
    Mirrors memory requests clock clock.entries next

variable {memory : worker.Memory} {requests : List (Request κ)} {clock : Clock κ ω ρ σ}
  {traffic : Traffic κ}

/-- After one step the traffic goes on. -/
theorem Follows.head {next : Traffic κ} {about : Option κ} (step : Step traffic about next)
    (follows : Follows memory requests clock next) : Follows memory requests clock traffic := by
  obtain ⟨last, steps, mirrors⟩ := follows
  exact ⟨last, .head ⟨about, step⟩ steps, mirrors⟩

/-- From where the clock is, the traffic goes on to where the clock comes next. -/
theorem Follows.trans {requests' : List (Request κ)} {clock' : Clock κ ω ρ σ}
    (follows : Follows memory requests clock traffic)
    (goesOn : ∀ next, Mirrors memory requests clock clock.entries next →
      Follows memory requests' clock' next) : Follows memory requests' clock' traffic := by
  obtain ⟨next, steps, there⟩ := follows
  obtain ⟨last, further, arrived⟩ := goesOn next there
  exact ⟨last, steps.trans further, arrived⟩

/-- A work ends. -/
theorem Mirrors.complete {due started : Nat} {key : κ} {run : ρ}
    (mirrors : Mirrors memory requests clock
      ((due, .finish key started run) ::ₘ clock.entries) traffic) :
    Follows memory requests (clock.complete worker key started run) traffic := by
  obtain ⟨charge, rest, stands, others, charged⟩ := Multiset.rel_cons_left.mp mirrors.alarms
  cases stands with
  | finish _ job =>
    obtain ⟨running, underWay, rfl⟩ := exists_running charged
    have took : traffic.now - started * 1000000 = (clock.now - started) * 1000000 := by
      rw [mirrors.now, Nat.sub_mul]
    refine ⟨_, .single ⟨_, .completed underWay⟩, ?_, mirrors.now, mirrors.inUse, others,
      mirrors.requests, ?_⟩
    · simp only [took, mirrors.debouncer, Clock.complete]
    · simp only [Clock.complete, memory.starts_finish]
      exact mirrors.starts

/-- A timer runs down: nothing comes of it, or its work starts, and ends at once if it takes no
time. -/
theorem Mirrors.expire {key : κ} {token : Nat} {work : ω}
    (mirrors : Mirrors memory requests clock
      ((clock.now, .timer key token work) ::ₘ clock.entries) traffic) :
    Follows memory requests (clock.expire worker key token work) traffic := by
  obtain ⟨charge, rest, stands, others, charged⟩ := Multiset.rel_cons_left.mp mirrors.alarms
  cases stands with
  | @timer _ instant job _ notLater =>
    obtain ⟨timers, waiting, rfl⟩ := exists_timers charged
    have isDue : instant ≤ traffic.now := by
      rw [mirrors.now]
      exact notLater
    refine Follows.head (.expired waiting isDue) ?_
    rw [Clock.expire, Traffic.expire]
    simp only [mirrors.debouncer]
    cases starts : clock.debouncer.expire? job.key job.ticket.token with
    | none =>
      exact ⟨_, .refl, rfl, mirrors.now, mirrors.inUse, others, mirrors.requests, mirrors.starts⟩
    | some debouncer =>
      let begun := worker.start clock.now clock.world job.key work
      let started : Clock κ ω ρ σ := { clock with debouncer, world := begun.1 }
      have running : Mirrors memory requests started
          ((clock.now + begun.2.1, .finish job.key clock.now begun.2.2) ::ₘ started.entries)
          { traffic with
            timers, debouncer
            running := traffic.running ++ [(job, traffic.now)]
            history := traffic.history ++ [.started job traffic.now] } := by
        refine ⟨rfl, mirrors.now, mirrors.inUse, ?_, ?_, ?_⟩
        · rw [charges_of_running List.perm_append_comm, mirrors.now]
          exact .cons (.finish _ job clock.now begun.2.2) others
        · rw [List.filterMap_append, mirrors.requests]
          exact List.append_nil _
        · simp only [started, begun, memory.starts_start, List.filterMap_append, List.map_append,
            mirrors.starts, mirrors.now]
          rfl
      dsimp only
      split
      · exact running.complete
      · refine ⟨_, .refl, running.debouncer, running.now, running.inUse, ?_, running.requests,
          running.starts⟩
        rw [Clock.entries_insert started]
        exact running.alarms

/-- Whatever goes off, the traffic can follow. -/
theorem Mirrors.fire {alarm : Alarm κ ω ρ}
    (mirrors : Mirrors memory requests clock ((clock.now, alarm) ::ₘ clock.entries) traffic) :
    Follows memory requests (clock.fire worker alarm) traffic := by
  cases alarm with
  | finish key started run => exact mirrors.complete
  | timer key token work => exact mirrors.expire
  | arming key ticket work =>
    obtain ⟨charge, rest, stands, others, charged⟩ := Multiset.rel_cons_left.mp mirrors.alarms
    cases stands with
    | arming _ job =>
      obtain ⟨timers, waiting, rfl⟩ := exists_timers charged
      refine Follows.head (.armed waiting) ?_
      have armed : Mirrors memory requests clock
          ((clock.now + job.ticket.delay, .timer job.key job.ticket.token work) ::ₘ clock.entries)
          (traffic.arm job timers) := by
        refine ⟨mirrors.debouncer, mirrors.now, mirrors.inUse, ?_, mirrors.requests,
          mirrors.starts⟩
        rw [Traffic.arm, charges_of_timers (.refl _)]
        refine .cons (.timer job work ?_) others
        rw [mirrors.now, Nat.add_mul]
      rw [Clock.fire, Clock.arm]
      split
      · next atOnce =>
        rw [atOnce] at armed
        exact armed.expire
      · refine ⟨_, .refl, armed.debouncer, armed.now, armed.inUse, ?_, armed.requests,
          armed.starts⟩
        rw [Clock.entries_insert]
        exact armed.alarms

/-- Time passes. -/
theorem Mirrors.wake {instant : Nat}
    (mirrors : Mirrors memory requests clock clock.entries traffic)
    (forward : clock.now ≤ instant) : Follows memory requests (clock.wake instant) traffic := by
  refine ⟨_, .single ⟨_, .waited ((instant - clock.now) * 1000000)⟩, mirrors.debouncer, ?_,
    mirrors.inUse, ?_, mirrors.requests, mirrors.starts⟩
  · change traffic.now + (instant - clock.now) * 1000000 = instant * 1000000
    rw [mirrors.now, ← Nat.add_mul, Nat.add_sub_cancel' forward]
  · -- What was ready stays so, and what becomes ready was due no later.
    obtain ⟨early, later, isAgenda, isSplit, allDue, -⟩ := Agenda.exists_split instant clock.agenda
    have before : clock.entries =
        Multiset.map (Prod.mk clock.now) (.ofList clock.ready) + (.ofList early + .ofList later) := by
      rw [Clock.entries, isAgenda]
      rfl
    have after : (clock.wake instant).entries =
        Multiset.map (Prod.mk instant) (.ofList clock.ready) +
          (Multiset.map (fun entry => (instant, entry.2)) (.ofList early) + .ofList later) := by
      simp only [Clock.entries, Clock.wake, isSplit, List.map_append, List.map_map,
        List.append_assoc]
      rfl
    have alarms := mirrors.alarms
    rw [before, Multiset.rel_add_left] at alarms
    obtain ⟨ofReady, ofAgenda, ready, agenda, charged⟩ := alarms
    obtain ⟨ofEarly, ofLater, early', later', rfl⟩ := Multiset.rel_add_left.mp agenda
    rw [after]
    change Multiset.Rel Stands _ (charges traffic.timers traffic.running)
    rw [charged]
    refine Multiset.Rel.add ?_ (Multiset.Rel.add ?_ later')
    · rw [Multiset.rel_map_left] at ready ⊢
      exact ready.mono fun _ _ _ _ stands => stands.later forward
    · rw [Multiset.rel_map_left]
      exact early'.mono fun entry member _ _ stands => stands.later (allDue entry member)

/-- As long as there are alarms before an instant, the traffic follows them. -/
theorem follows_runBefore (limit : Nat) (ahead : clock.agenda.Ahead clock.now)
    (mirrors : Mirrors memory requests clock clock.entries traffic) :
    Follows memory requests (clock.runBefore worker limit) traffic := by
  fun_induction Clock.runBefore worker limit clock generalizing traffic with
  | case1 clock alarm rest ready inductionHypothesis =>
    rw [Clock.entries_ready ready] at mirrors
    have first : Mirrors memory requests { clock with ready := rest }
        ((clock.now, alarm) ::ₘ Clock.entries { clock with ready := rest }) traffic :=
      ⟨mirrors.debouncer, mirrors.now, mirrors.inUse, mirrors.alarms, mirrors.requests,
        mirrors.starts⟩
    exact first.fire.trans fun _ there =>
      inductionHypothesis (Clock.ahead_fire { clock with ready := rest } ahead alarm) there
  | case2 clock ready later => exact ⟨traffic, .refl, mirrors⟩
  | case3 clock ready due alarm rest later isDue inductionHypothesis =>
    have forward : clock.now ≤ due := ahead.notPast (due, alarm) (later ▸ List.mem_cons_self)
    exact (mirrors.wake forward).trans fun _ there => inductionHypothesis ahead.split there
  | case4 clock ready due alarm rest later notDue => exact ⟨traffic, .refl, mirrors⟩

theorem follows_advance (duration : Nat) (ahead : clock.agenda.Ahead clock.now)
    (mirrors : Mirrors memory requests clock clock.entries traffic) :
    Follows memory requests (clock.advance worker duration) traffic := by
  let limit := clock.now + duration
  have before := follows_runBefore limit ahead mirrors
  have reached := before.trans fun _ there =>
    there.wake (Clock.now_runBefore_le (Nat.le_add_right clock.now duration))
  exact reached.trans fun _ awake =>
    follows_runBefore limit (Clock.ahead_runBefore limit ahead).split awake

/-- What can be done with a clock, a traffic can follow. -/
theorem follows_perform (ahead : clock.agenda.Ahead clock.now)
    (mirrors : Mirrors memory requests clock clock.entries traffic)
    (operation : Clock.Operation κ ω) :
    Follows memory (requests ++ (clock.request? operation).toList)
      (clock.perform worker operation) traffic := by
  cases operation with
  | schedule key work =>
    refine ⟨_, .single ⟨_, .scheduled mirrors.inUse key⟩, ?_, mirrors.now, mirrors.inUse, ?_,
      ?_, ?_⟩
    · exact congrArg (fun debouncer => (debouncer.schedule key).1) mirrors.debouncer
    · have waiting : (traffic.schedule key).timers.Perm
          ((traffic.nextJob key, none) :: traffic.timers) := List.perm_append_comm
      have ticket : (traffic.nextJob key).ticket = (clock.debouncer.schedule key).2 :=
        congrArg (fun debouncer => (debouncer.schedule key).2) mirrors.debouncer
      rw [Clock.perform, Clock.entries_schedule, charges_of_timers waiting, ← ticket]
      exact .cons (.arming _ (traffic.nextJob key) work) mirrors.alarms
    · simp only [Traffic.schedule, List.filterMap_append, mirrors.requests]
      rfl
    · simp only [Traffic.schedule, List.filterMap_append, mirrors.starts]
      exact List.append_nil _
  | cancel key =>
    refine ⟨_, .single ⟨_, .cancelled mirrors.inUse key⟩, ?_, mirrors.now, mirrors.inUse,
      mirrors.alarms, ?_, ?_⟩
    · exact congrArg (fun debouncer => (debouncer.cancel key).1) mirrors.debouncer
    · simp only [Traffic.cancel, List.filterMap_append, mirrors.requests, mirrors.debouncer]
      rfl
    · simp only [Traffic.cancel, List.filterMap_append, mirrors.starts]
      exact List.append_nil _
  | delayFor key =>
    change Follows memory (requests ++ []) _ _
    rw [List.append_nil]
    exact ⟨_, .single ⟨_, .looked mirrors.inUse key⟩,
      congrArg (fun debouncer => (debouncer.delayFor key).1) mirrors.debouncer, mirrors.now,
      mirrors.inUse, mirrors.alarms, mirrors.requests, mirrors.starts⟩
  | record key nanoseconds =>
    change Follows memory (requests ++ []) _ _
    rw [List.append_nil]
    exact ⟨_, .single ⟨_, .recorded mirrors.inUse key nanoseconds⟩,
      congrArg (fun debouncer => debouncer.record key nanoseconds) mirrors.debouncer, mirrors.now,
      mirrors.inUse, mirrors.alarms, mirrors.requests, mirrors.starts⟩
  | advance duration =>
    change Follows memory (requests ++ []) _ _
    rw [List.append_nil]
    exact follows_advance duration ahead mirrors

theorem follows_operations (operations : List (Clock.Operation κ ω))
    (ahead : clock.agenda.Ahead clock.now)
    (mirrors : Mirrors memory requests clock clock.entries traffic) :
    Follows memory (requests ++ clock.requests worker operations)
      (operations.foldl (Clock.perform worker) clock) traffic := by
  induction operations generalizing clock requests traffic with
  | nil =>
    rw [Clock.requests, List.append_nil]
    exact ⟨traffic, .refl, mirrors⟩
  | cons operation rest inductionHypothesis =>
    rw [Clock.requests, ← List.append_assoc]
    exact (follows_perform ahead mirrors operation).trans fun _ there =>
      inductionHypothesis (Clock.ahead_perform ahead operation) there

/-! ### Clocks -/

/-- Every state of a clock is one that a traffic can come to which was asked the same and has
started the same works at the same instants. -/
theorem exists_traffic (memory : worker.Memory) (settings : DelaySettings) {world : σ}
    (unstarted : memory.starts world = []) (operations : List (Clock.Operation κ ω)) :
    ∃ traffic : Traffic κ, traffic.Reachable ∧
      traffic.debouncer =
        (operations.foldl (Clock.perform worker) (.new settings world)).debouncer ∧
      traffic.now =
        (operations.foldl (Clock.perform worker) (.new settings world)).now * 1000000 ∧
      traffic.history.filterMap Incident.request? =
        (Clock.new settings world).requests worker operations ∧
      traffic.history.filterMap Incident.start? =
        (memory.starts (operations.foldl (Clock.perform worker) (.new settings world)).world).map
          (Prod.map id (· * 1000000)) := by
  have mirrors : Mirrors memory [] (.new settings world) (Clock.new settings world).entries
      (start settings 0) := by
    refine ⟨rfl, (Nat.zero_mul _).symm, rfl, .zero, rfl, ?_⟩
    rw [Clock.new, unstarted]
    rfl
  obtain ⟨traffic, steps, arrived⟩ := follows_operations operations Agenda.ahead_nil mirrors
  exact ⟨traffic, ⟨settings, 0, steps⟩, arrived.debouncer, arrived.now, arrived.requests,
    arrived.starts⟩

/-- What was started had been scheduled. -/
theorem Kept.mem_jobs_of_mem_starts (kept : Kept traffic) {job : Job κ}
    (started : job ∈ Traffic.starts traffic.history) : job ∈ jobs traffic.history := by
  obtain ⟨incident, member, isStart⟩ := List.mem_filterMap.mp started
  cases incident with
  | started other instant =>
    cases isStart
    obtain ⟨early, late, whole⟩ := List.append_of_mem member
    have scheduled := (kept.lawful early _ late whole).1.mem_jobs
    rw [whole, jobs_append]
    exact List.mem_append_left _ scheduled
  | _ => cases isStart

omit [DecidableEq κ] in
theorem map_key_starts (history : List (Incident κ)) :
    (starts history).map Job.key = (history.filterMap Incident.start?).map Prod.fst := by
  rw [starts, List.map_filterMap, List.map_filterMap]
  refine List.filterMap_congr fun incident _ => ?_
  cases incident <;> rfl

omit [DecidableEq κ] in
theorem map_key_jobs (history : List (Incident κ)) :
    (jobs history).map Job.key =
      (history.filterMap Incident.request?).filterMap Request.scheduled? := by
  rw [jobs, List.map_filterMap, List.filterMap_filterMap]
  refine List.filterMap_congr fun incident _ => ?_
  cases incident <;> rfl

/-- On a clock no key sees more works start than were scheduled for it. -/
theorem count_starts_le (memory : worker.Memory) (settings : DelaySettings) {world : σ}
    (unstarted : memory.starts world = []) (operations : List (Clock.Operation κ ω)) (key : κ) :
    ((memory.starts
        (operations.foldl (Clock.perform worker) (.new settings world)).world).map Prod.fst).count
      key ≤ (operations.filterMap Clock.Operation.scheduled?).count key := by
  obtain ⟨traffic, reachable, -, -, requests, starts⟩ :=
    exists_traffic memory settings unstarted operations
  have kept := kept_of_reachable reachable
  obtain ⟨_, sameStarts, fewer⟩ :
      (Traffic.starts traffic.history).Subperm (jobs traffic.history) :=
    List.subperm_of_subset kept.once fun _ => kept.mem_jobs_of_mem_starts
  have keys : ((Traffic.starts traffic.history).map Job.key).Subperm
      ((jobs traffic.history).map Job.key) := ⟨_, sameStarts.map Job.key, fewer.map Job.key⟩
  rw [map_key_starts, map_key_jobs, requests, starts, Clock.scheduled_requests, List.map_map]
    at keys
  exact keys.count_le key

end Traffic

end PomLens
