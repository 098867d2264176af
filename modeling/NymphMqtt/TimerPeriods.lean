import NymphMqtt.ChronoTrigger

/-! The periods of `ChronoTrigger::run`: which of them end with the callback. -/

namespace NymphMqtt
open NymphMqtt.Library.Transition

/-! ### The periods of a run -/

/-- A call of `stop()`. It returns after the thread has ended, so that one in progress is a request
in every period. -/
def CallStep.stops : CallStep → Bool
  | .stopSignaled | .stopStopping | .stopNotify | .stopJoin => true
  | _ => false

/-- A call, or a step of one. -/
def ChronoTrigger.Action.requests : ChronoTrigger.Action → Bool
  | .restart | .finish | .stop | .proceed _ => true
  | _ => false

/-- From the top of the loop to the check of `stopping`. -/
def RunStep.inPeriod : RunStep → Bool
  | .top | .wait | .testSignaled | .clearSignaled | .testRestarting | .testStopping => true
  | _ => false

/-- A period ends with the callback, or it is discarded. -/
def RunStep.outcome : RunStep → RunStep → Option Bool
  | .testRestarting, .again _ => some false
  | .testStopping, .ended => some false
  | .testStopping, .callback => some true
  | _, _ => none

/-- The timer, and what the period that runs has seen: whether no request was made since its start,
and whether its wait was ended by the clock. `ends` tells for each period with both whether it ended
with the callback. -/
structure TimerWatch where
  timer : ChronoTrigger
  quiet : Bool
  expired : Bool
  ends : List Bool
  deriving DecidableEq, Repr

namespace ChronoTrigger

/-- No further period begins. -/
def Leaves (single : Bool) (t : ChronoTrigger) : Prop :=
  match t.step with
  | .testStopping => single = true ∨ t.running = false ∨ t.stopping = true
  | .callback | .testSingle => single = true ∨ t.running = false
  | .testRunning => t.running = false
  | .ended => True
  | _ => False

instance (single : Bool) (t : ChronoTrigger) : Decidable (t.Leaves single) := by
  unfold Leaves
  split <;> infer_instance

end ChronoTrigger

/-- `run()` comes to the reset or to the check of `restarting` before the next period begins. -/
def RunStep.consumes : RunStep → Bool
  | .start r | .again r => r ≠ .stopping
  | .top | .wait | .testSignaled | .clearSignaled | .testRestarting => true
  | _ => false

namespace ChronoTrigger

/-- A restart request that lands here is not left over for a later period. -/
def Consumed (single : Bool) (t : ChronoTrigger) : Prop :=
  t.step.consumes = true ∨ t.Leaves single

instance (single : Bool) (t : ChronoTrigger) : Decidable (t.Consumed single) :=
  inferInstanceAs (Decidable (_ ∨ _))

end ChronoTrigger

namespace TimerWatch
open ChronoTrigger

/-- After `start()`. -/
def start (running restarting signaled stopping : Bool) : TimerWatch :=
  ⟨.start running restarting signaled stopping, false, false, []⟩

def step (single : Bool) (w : TimerWatch) (a : Action) : Option TimerWatch :=
  (w.timer.act single a).map fun t =>
    { timer := t
      quiet := if w.timer.step ≠ .top ∧ t.step = .top then t.calls.all fun call => !call.stops
        else w.quiet && !a.requests
      expired := match a with
        | .expire => true
        | .wake => false
        | _ => w.expired
      ends := if w.quiet && w.expired then w.ends ++ (w.timer.step.outcome t.step).toList else w.ends }

/-- A period without a request that reached its end time has ended with the callback. -/
def PeriodsKept (w : TimerWatch) : Prop := ∀ kept ∈ w.ends, kept = true

/-- `restart()` sets its flag where it is still consumed. -/
def Heard (single : Bool) (w : TimerWatch) : Action → Prop
  | .proceed i => w.timer.calls[i]? = some .restartRestarting → w.timer.Consumed single
  | _ => True

instance (single : Bool) (w : TimerWatch) : (a : Action) → Decidable (w.Heard single a)
  | .proceed _ => inferInstanceAs (Decidable (_ → _))
  | .run | .wake | .expire | .restart | .finish | .stop => instDecidableTrue

end TimerWatch

namespace ChronoTrigger

/-! ### The flags -/

/-- What a flag that is set says of the thread and of the calls in progress. -/
structure Attended (single : Bool) (t : ChronoTrigger) : Prop where
  consumed : t.restarting = true → t.Consumed single
  stopping : t.stopping = true →
    t.step.resetting = true ∨ t.step = .ended ∨ ∃ call ∈ t.calls, call.stops = true

theorem attended_start (single running restarting signaled stopping : Bool) :
    Attended single (start running restarting signaled stopping) :=
  ⟨fun _ => .inl rfl, fun _ => .inl rfl⟩

/-- A `stop()` goes on to its next step, or the thread has ended. -/
theorem callStep_stops {t u : ChronoTrigger} {call : CallStep} {next : Option CallStep}
    (stops : call.stops = true) (stepped : t.callStep call = some (u, next)) :
    (∃ later, next = some later ∧ later.stops = true) ∨ u.step = .ended := by
  cases call with
  | stopSignaled =>
    cases stepped
    exact .inl ⟨_, rfl, rfl⟩
  | stopStopping =>
    cases stepped
    exact .inl ⟨_, rfl, rfl⟩
  | stopNotify =>
    cases stepped
    exact .inl ⟨_, rfl, rfl⟩
  | stopJoin =>
    obtain ⟨gone, rfl, -⟩ := stopJoin_spec stepped
    exact .inr gone
  | _ => cases stops

theorem Leaves.mono {single : Bool} {t u : ChronoTrigger} (leaves : t.Leaves single)
    (step : u.step = t.step) (running : t.running = false → u.running = false)
    (stopping : t.stopping = true → u.stopping = true) : u.Leaves single := by
  unfold Leaves at leaves ⊢
  rw [step]
  cases at_ : t.step with
  | testStopping =>
    rw [at_] at leaves
    exact leaves.imp_right (Or.imp running stopping)
  | callback =>
    rw [at_] at leaves
    exact leaves.imp_right running
  | testSingle =>
    rw [at_] at leaves
    exact leaves.imp_right running
  | testRunning =>
    rw [at_] at leaves
    exact running leaves
  | ended => trivial
  | _ =>
    rw [at_] at leaves
    exact leaves

/-- What a step of a call does to the flags. -/
structure Called (t : ChronoTrigger) (call : CallStep) (u : ChronoTrigger) : Prop where
  step : u.step = t.step
  running : t.running = false → u.running = false
  restarting : u.restarting = true → t.restarting = true ∨ call = .restartRestarting
  stopping : u.stopping = true → t.stopping = true ∨ call.stops = true
  kept : t.stopping = true → u.stopping = true

theorem callStep_called {t u : ChronoTrigger} {call : CallStep} {next : Option CallStep}
    (stepped : t.callStep call = some (u, next)) : Called t call u := by
  cases call with
  | restartRestarting =>
    cases stepped
    exact ⟨rfl, id, fun _ => .inr rfl, .inl, id⟩
  | finishRunning =>
    cases stepped
    exact ⟨rfl, fun _ => rfl, .inl, .inl, id⟩
  | stopStopping =>
    cases stepped
    exact ⟨rfl, id, .inl, fun _ => .inr rfl, fun _ => rfl⟩
  | stopJoin =>
    obtain ⟨-, rfl, -⟩ := stopJoin_spec stepped
    exact ⟨rfl, id, .inl, .inl, id⟩
  | _ =>
    cases stepped
    exact ⟨rfl, id, .inl, .inl, id⟩

/-- The calls in progress after one of them has gone on. -/
theorem proceed_cases {t u : ChronoTrigger} {i : Nat} (stepped : t.proceed i = some u) :
    ∃ call next v, t.calls[i]? = some call ∧ t.callStep call = some (v, next) ∧
      u = { v with calls := match next with
        | some later => v.calls.set i later
        | none => v.calls.eraseIdx i } ∧ v.calls = t.calls := by
  obtain ⟨call, current, rest⟩ := Option.bind_eq_some_iff.mp stepped
  obtain ⟨⟨v, next⟩, called, rest⟩ := Option.bind_eq_some_iff.mp rest
  have same : v.calls = t.calls := by
    cases call with
    | stopJoin =>
      obtain ⟨-, rfl, -⟩ := stopJoin_spec called
      rfl
    | _ =>
      cases called
      rfl
  refine ⟨call, next, v, current, called, ?_, same⟩
  cases next with
  | none =>
    cases rest
    rfl
  | some later =>
    cases rest
    rfl

theorem Attended.proceed {single : Bool} {t u : ChronoTrigger} {i : Nat} (attended : Attended single t)
    (heard : t.calls[i]? = some .restartRestarting → t.Consumed single)
    (stepped : t.proceed i = some u) : Attended single u := by
  obtain ⟨call, next, v, current, called, rfl, calls⟩ := proceed_cases stepped
  have flags := callStep_called called
  constructor
  · intro restarting
    have consumed : t.Consumed single := by
      rcases flags.restarting restarting with before | now
      · exact attended.consumed before
      · rw [now] at current
        exact heard current
    rcases consumed with ahead | leaves
    · exact .inl (by rw [← ahead]; exact congrArg _ flags.step)
    · exact .inr (leaves.mono flags.step flags.running flags.kept)
  · intro stopping
    by_cases own : call.stops = true
    · rcases callStep_stops own called with ⟨later, rfl, stops⟩ | gone
      · refine .inr (.inr ⟨later, ?_, stops⟩)
        rw [calls]
        exact List.mem_set (List.getElem?_eq_some_iff.mp current).1 later
      · exact .inr (.inl gone)
    · have before : t.stopping = true := (flags.stopping stopping).resolve_right own
      rw [show ({ v with calls := _ } : ChronoTrigger).step = t.step from flags.step]
      rcases attended.stopping before with resetting | gone | ⟨other, member, stops⟩
      · exact .inl resetting
      · exact .inr (.inl gone)
      · refine .inr (.inr ⟨other, ?_, stops⟩)
        obtain ⟨j, at_⟩ := List.mem_iff_getElem?.mp member
        have different : i ≠ j := by
          rintro rfl
          rw [current] at at_
          cases at_
          exact own stops
        cases next with
        | some later =>
          apply List.mem_of_getElem? (i := j)
          rw [List.getElem?_set_ne different, calls, at_]
        | none =>
          rw [calls]
          exact List.mem_eraseIdx_iff_getElem?.mpr ⟨j, different.symm, at_⟩

/-! ### The thread -/

/-- A step of the thread that leaves both flags and the calls. -/
theorem Attended.goto {single : Bool} {t : ChronoTrigger} (attended : Attended single t)
    (clear : t.step.resetting = false) (alive : t.step ≠ .ended) {step : RunStep}
    (consumed : t.restarting = true → (t.goto step).Consumed single) : Attended single (t.goto step) := by
  refine ⟨consumed, fun stopping => ?_⟩
  rcases attended.stopping stopping with resetting | gone | inCall
  · exact absurd (clear.symm.trans resetting) (by decide)
  · exact absurd gone alive
  · exact .inr (.inr inCall)

/-- One reset, not the last one. -/
theorem attended_reset {single : Bool} {t : ChronoTrigger} {r r' : Reset} (next : r.next = some r')
    {step : RunStep} (resetting : step.resetting = true)
    (consumes : step.consumes = decide (r' ≠ .stopping)) : Attended single ((t.reset r).goto step) := by
  refine ⟨fun restarting => .inl ?_, fun _ => .inl resetting⟩
  cases r with
  | restarting => cases restarting
  | stopping => cases next
  | _ =>
    cases next
    exact consumes

/-- At the last reset no restart request is left. -/
theorem Attended.cleared {single : Bool} {t : ChronoTrigger} (attended : Attended single t)
    (at_ : t.step = .start .stopping ∨ t.step = .again .stopping) : t.restarting = false := by
  rw [← Bool.not_eq_true]
  intro restarting
  have consumed := attended.consumed restarting
  rw [Consumed, Leaves] at consumed
  rcases at_ with at_ | at_
  · rw [at_] at consumed
    exact consumed.elim (by decide) id
  · rw [at_] at consumed
    exact consumed.elim (by decide) id

theorem Attended.lastReset {single : Bool} {t : ChronoTrigger} (attended : Attended single t)
    (at_ : t.step = .start .stopping ∨ t.step = .again .stopping) :
    Attended single (t.reset .stopping).gotoTop := by
  refine ⟨fun restarting => ?_, nofun⟩
  exact absurd ((attended.cleared at_).symm.trans restarting) (by decide)

/-- Behind the callback a request that is left over is one of the last period. -/
theorem Attended.periodic {single : Bool} {t : ChronoTrigger} (attended : Attended single t)
    (at_ : t.step = .testRunning) (running : t.running = true) : t.restarting = false := by
  rw [← Bool.not_eq_true]
  intro restarting
  have consumed := attended.consumed restarting
  rw [Consumed, Leaves, at_] at consumed
  rcases consumed with ahead | last
  · cases ahead
  · exact absurd (running.symm.trans last) (by decide)

theorem Attended.run {single : Bool} {t u : ChronoTrigger} (attended : Attended single t)
    (stepped : t.runStep single = some u) : Attended single u := by
  cases runStep_ran stepped with
  | resets at_ next => exact attended_reset next rfl rfl
  | resetsAgain at_ next => exact attended_reset next rfl rfl
  | lastReset at_ => exact attended.lastReset at_
  | waits at_ => exact attended.goto (by rw [at_]; rfl) (by rw [at_]; decide) fun _ => .inl rfl
  | signaled at_ => exact attended.goto (by rw [at_]; rfl) (by rw [at_]; decide) fun _ => .inl rfl
  | spurious at_ => exact attended.goto (by rw [at_]; rfl) (by rw [at_]; decide) fun _ => .inl rfl
  | clears at_ =>
    have kept : Attended single { t with signaled := false } := ⟨attended.consumed, attended.stopping⟩
    exact kept.goto (by simp only [at_]; rfl) (by simp only [at_]; decide) fun _ => .inl rfl
  | restarts at_ => exact attended.goto (by rw [at_]; rfl) (by rw [at_]; decide) fun _ => .inl rfl
  | elapses at_ idle =>
    apply attended.goto (by rw [at_]; rfl) (by rw [at_]; decide)
    intro restarting
    exact absurd (idle.symm.trans restarting) (by decide)
  | stops at_ => exact attended.goto (by rw [at_]; rfl) (by rw [at_]; decide) fun _ => .inr trivial
  | calls at_ going =>
    have kept : Attended single { t with callbacks := if t.finished then t.callbacks + 1 else t.callbacks } :=
      ⟨attended.consumed, attended.stopping⟩
    apply kept.goto (by simp only [at_]; rfl) (by simp only [at_]; decide)
    intro restarting
    have consumed := attended.consumed restarting
    rw [Consumed, Leaves, at_] at consumed
    refine .inr ((consumed.resolve_left (by decide)).imp_right fun last => ?_)
    exact last.resolve_right (fun stopping => absurd (going.symm.trans stopping) (by decide))
  | returns at_ =>
    apply attended.goto (by rw [at_]; rfl) (by rw [at_]; decide)
    intro restarting
    have consumed := attended.consumed restarting
    rw [Consumed, Leaves, at_] at consumed
    exact consumed.imp (fun ahead => absurd ahead (by decide)) id
  | once at_ => exact attended.goto (by rw [at_]; rfl) (by rw [at_]; decide) fun _ => .inr trivial
  | periodic at_ multi =>
    apply attended.goto (by rw [at_]; rfl) (by rw [at_]; decide)
    intro restarting
    have consumed := attended.consumed restarting
    rw [Consumed, Leaves, at_] at consumed
    refine .inr ((consumed.resolve_left (by decide)).resolve_left fun once => ?_)
    exact absurd (multi.symm.trans once) (by decide)
  | repeats at_ running =>
    have kept : Attended single { t with tops := if t.stopped then t.tops + 1 else t.tops } :=
      ⟨attended.consumed, attended.stopping⟩
    exact kept.goto (by simp only [at_]; rfl) (by simp only [at_]; decide) fun _ => .inl rfl
  | finishes at_ => exact attended.goto (by rw [at_]; rfl) (by rw [at_]; decide) fun _ => .inr trivial

theorem Attended.leaveWait {single : Bool} {t u : ChronoTrigger} (attended : Attended single t)
    {step : RunStep} (stepped : (if t.step = .wait then some (t.goto step) else none) = some u)
    (consumes : step.consumes = true) : Attended single u := by
  obtain ⟨waiting, rfl⟩ := wait_left stepped
  exact attended.goto (by rw [waiting]; rfl) (by rw [waiting]; nofun) fun _ => .inl consumes

/-- Calls in progress that are only more. -/
theorem Attended.calls {single : Bool} {t : ChronoTrigger} (attended : Attended single t) (call : CallStep) :
    Attended single { t with calls := t.calls ++ [call] } := by
  refine ⟨attended.consumed, fun stopping => ?_⟩
  rcases attended.stopping stopping with resetting | gone | ⟨other, member, stops⟩
  · exact .inl resetting
  · exact .inr (.inl gone)
  · exact .inr (.inr ⟨other, List.mem_append_left _ member, stops⟩)

theorem Attended.act {single : Bool} {t u : ChronoTrigger} (attended : Attended single t) {a : Action}
    (heard : ∀ i, a = .proceed i → t.calls[i]? = some .restartRestarting → t.Consumed single)
    (stepped : t.act single a = some u) : Attended single u := by
  cases a with
  | run => exact attended.run stepped
  | wake => exact attended.leaveWait stepped rfl
  | expire => exact attended.leaveWait stepped rfl
  | proceed i => exact attended.proceed (heard i rfl) stepped
  | _ =>
    cases stepped
    exact attended.calls _

/-! ### The start and the end of a period -/

/-- Only the thread moves itself to another place. -/
theorem act_step {single : Bool} {t u : ChronoTrigger} {a : Action} (requests : a.requests = true)
    (stepped : t.act single a = some u) : u.step = t.step := by
  cases a with
  | proceed i =>
    obtain ⟨call, next, v, -, called, rfl, -⟩ := proceed_cases stepped
    exact (callStep_called called).step
  | run => cases requests
  | wake => cases requests
  | expire => cases requests
  | _ =>
    cases stepped
    rfl

/-- A period begins behind the last reset, or behind a callback with `running` set. -/
theorem runStep_begins {single : Bool} {t u : ChronoTrigger} (stepped : t.runStep single = some u)
    (top : u.step = .top) : u.restarting = t.restarting ∧
      ((t.step = .start .stopping ∨ t.step = .again .stopping) ∨
        t.step = .testRunning ∧ t.running = true) := by
  cases runStep_ran stepped with
  | lastReset at_ => exact ⟨rfl, .inl at_⟩
  | repeats at_ running => exact ⟨rfl, .inr ⟨at_, running⟩⟩
  | _ => cases top

/-- Within a period the thread leaves both flags. -/
theorem runStep_within {single : Bool} {t u : ChronoTrigger} (stepped : t.runStep single = some u)
    (inside : u.step.inPeriod = true) (later : u.step ≠ .top) :
    t.step.inPeriod = true ∧ u.restarting = t.restarting ∧ u.stopping = t.stopping := by
  cases runStep_ran stepped with
  | lastReset => exact absurd rfl later
  | repeats => exact absurd rfl later
  | waits at_ => exact ⟨by rw [at_]; rfl, rfl, rfl⟩
  | signaled at_ => exact ⟨by rw [at_]; rfl, rfl, rfl⟩
  | spurious at_ => exact ⟨by rw [at_]; rfl, rfl, rfl⟩
  | clears at_ => exact ⟨by rw [at_]; rfl, rfl, rfl⟩
  | elapses at_ => exact ⟨by rw [at_]; rfl, rfl, rfl⟩
  | _ => cases inside

/-- A period is discarded on one of the two flags. -/
theorem runStep_outcome {single : Bool} {t u : ChronoTrigger} (stepped : t.runStep single = some u)
    {kept : Bool} (outcome : t.step.outcome u.step = some kept) (quiet : t.restarting = false)
    (going : t.stopping = false) : kept = true := by
  cases runStep_ran stepped with
  | restarts at_ restarting => exact absurd (quiet.symm.trans restarting) (by decide)
  | stops at_ stopping => exact absurd (going.symm.trans stopping) (by decide)
  | calls at_ =>
    rw [at_] at outcome
    cases outcome
    rfl
  | lastReset at_ =>
    rcases at_ with at_ | at_
    · rw [at_] at outcome
      cases outcome
    · rw [at_] at outcome
      cases outcome
  | _ at_ =>
    rw [at_] at outcome
    cases outcome

end ChronoTrigger

namespace TimerWatch
open ChronoTrigger

/-- While no request was made in it, a period finds both flags clear. -/
structure Undisturbed (single : Bool) (w : TimerWatch) : Prop where
  attended : Attended single w.timer
  quiet : w.quiet = true → w.timer.step.inPeriod = true →
    w.timer.restarting = false ∧ w.timer.stopping = false
  ends : w.PeriodsKept

theorem undisturbed_start (single running restarting signaled stopping : Bool) :
    Undisturbed single (start running restarting signaled stopping) :=
  ⟨attended_start single running restarting signaled stopping, nofun, fun _ => nofun⟩

theorem outcome_within {step step' : RunStep} {kept : Bool} (outcome : step.outcome step' = some kept) :
    step.inPeriod = true ∧ step ≠ step' := by
  cases step with
  | testRestarting =>
    refine ⟨rfl, ?_⟩
    rintro rfl
    cases outcome
  | testStopping =>
    refine ⟨rfl, ?_⟩
    rintro rfl
    cases outcome
  | _ => cases outcome

/-- Only a step of the thread begins a period. -/
theorem begins_run {single : Bool} {t u : ChronoTrigger} {a : Action} (stepped : t.act single a = some u)
    (outside : t.step ≠ .top) (top : u.step = .top) : a = .run := by
  by_cases requests : a.requests = true
  · rw [act_step requests stepped] at top
    exact absurd top outside
  · cases a with
    | run => rfl
    | wake =>
      obtain ⟨-, rfl⟩ := wait_left stepped
      cases top
    | expire =>
      obtain ⟨-, rfl⟩ := wait_left stepped
      cases top
    | _ => exact absurd rfl requests

namespace Undisturbed
variable {single : Bool} {w : TimerWatch} {t : ChronoTrigger} {a : Action}

/-- At the start of a period, with no `stop()` in progress. -/
theorem begins (undisturbed : Undisturbed single w) (attended : Attended single t)
    (stepped : w.timer.runStep single = some t) (top : t.step = .top)
    (idle : t.calls.all (fun call => !call.stops) = true) : t.restarting = false ∧ t.stopping = false := by
  obtain ⟨same, at_⟩ := runStep_begins stepped top
  constructor
  · rw [same]
    rcases at_ with reset | ⟨behind, running⟩
    · exact undisturbed.attended.cleared reset
    · exact undisturbed.attended.periodic behind running
  · rw [← Bool.not_eq_true]
    intro stopping
    rcases attended.stopping stopping with resetting | gone | ⟨call, member, stops⟩
    · rw [top] at resetting
      cases resetting
    · rw [top] at gone
      cases gone
    · have other := List.all_eq_true.mp idle call member
      rw [stops] at other
      cases other

/-- Within a period, with no request. -/
theorem goesOn (undisturbed : Undisturbed single w) (stepped : w.timer.act single a = some t)
    (same : ¬(w.timer.step ≠ .top ∧ t.step = .top)) (quiet : w.quiet = true) (silent : a.requests = false)
    (inside : t.step.inPeriod = true) : t.restarting = false ∧ t.stopping = false := by
  cases a with
  | run =>
    have later : t.step ≠ .top := by
      intro top
      have outside : w.timer.step ≠ .top := by
        intro before
        obtain ⟨-, (reset | reset) | ⟨behind, -⟩⟩ := runStep_begins stepped top
        · exact nomatch before.symm.trans reset
        · exact nomatch before.symm.trans reset
        · exact nomatch before.symm.trans behind
      exact same ⟨outside, top⟩
    obtain ⟨within, restarting, stopping⟩ := runStep_within stepped inside later
    rw [restarting, stopping]
    exact undisturbed.quiet quiet within
  | wake =>
    obtain ⟨waiting, rfl⟩ := wait_left stepped
    exact undisturbed.quiet quiet (by rw [waiting]; rfl)
  | expire =>
    obtain ⟨waiting, rfl⟩ := wait_left stepped
    exact undisturbed.quiet quiet (by rw [waiting]; rfl)
  | _ => cases silent

/-- A period without a request that ends, ends with the callback. -/
theorem outcome (undisturbed : Undisturbed single w) (stepped : w.timer.act single a = some t)
    (quiet : w.quiet = true) {kept : Bool} (outcome : w.timer.step.outcome t.step = some kept) :
    kept = true := by
  obtain ⟨within, moved⟩ := outcome_within outcome
  obtain ⟨restarting, stopping⟩ := undisturbed.quiet quiet within
  by_cases requests : a.requests = true
  · exact absurd (act_step requests stepped).symm moved
  · cases a with
    | run => exact runStep_outcome stepped outcome restarting stopping
    | wake =>
      obtain ⟨waiting, -⟩ := wait_left stepped
      rw [waiting] at outcome
      cases outcome
    | expire =>
      obtain ⟨waiting, -⟩ := wait_left stepped
      rw [waiting] at outcome
      cases outcome
    | _ => exact absurd rfl requests

theorem step {x : TimerWatch} (undisturbed : Undisturbed single w) (heard : w.Heard single a)
    (stepped : w.step single a = some x) : Undisturbed single x := by
  obtain ⟨t, acted, rfl⟩ := Option.map_eq_some_iff.mp stepped
  have attended : Attended single t := by
    apply undisturbed.attended.act _ acted
    rintro i rfl
    exact heard
  refine ⟨attended, ?_, ?_⟩
  · intro quiet inside
    dsimp only at quiet inside
    by_cases begun : w.timer.step ≠ .top ∧ t.step = .top
    · rw [if_pos begun] at quiet
      obtain rfl := begins_run acted begun.1 begun.2
      exact undisturbed.begins attended acted begun.2 quiet
    · rw [if_neg begun, Bool.and_eq_true, Bool.not_eq_true'] at quiet
      exact undisturbed.goesOn acted begun quiet.1 quiet.2 inside
  · intro kept member
    dsimp only at member
    by_cases watched : (w.quiet && w.expired) = true
    · rw [if_pos watched] at member
      rcases List.mem_append.mp member with before | now
      · exact undisturbed.ends kept before
      · exact undisturbed.outcome acted (Bool.and_eq_true_iff.mp watched).1 (Option.mem_toList.mp now)
    · rw [if_neg watched] at member
      exact undisturbed.ends kept member

end Undisturbed

theorem undisturbed_run {single running restarting signaled stopping : Bool} {w : TimerWatch}
    (run : Run (step single) (Heard single) (start running restarting signaled stopping) w) :
    Undisturbed single w := by
  refine run.invariant (undisturbed_start single running restarting signaled stopping) ?_
  intro w a x undisturbed heard stepped
  exact undisturbed.step heard stepped

/-- While every `restart()` sets its flag where it is still consumed, no period is skipped. -/
theorem periods_kept {single running restarting signaled stopping : Bool} {w : TimerWatch}
    (run : Run (step single) (Heard single) (start running restarting signaled stopping) w) :
    w.PeriodsKept := (undisturbed_run run).ends

/-- A `restart()` that meets the thread in its wait, and the period behind it. -/
theorem periods_kept_wait : ∃ w : TimerWatch, w.ends = [true] ∧ w.PeriodsKept := by
  have replayed : ∃ w, replay (guarded (step false) (Heard false)) (start false false false false)
      [.run, .run, .run, .run, .run, .restart, .proceed 0, .proceed 0, .proceed 0, .wake, .run, .run,
        .run, .run, .run, .run, .run, .run, .expire, .run, .run] = some w ∧ w.ends = [true] := by
    refine ⟨_, rfl, ?_⟩
    decide
  obtain ⟨w, replayed, ends⟩ := replayed
  exact ⟨w, ends, periods_kept (run_of_replay replayed)⟩

/-- The callback restarts its own timer, as `pingreqHandler` does: the flag is found by the next
period, which is discarded when it has reached its end time. -/
theorem callback_restarts :
    ∃ w, replay (step false) (start false false false false)
      [.run, .run, .run, .run, .run, .expire, .run, .run, .restart, .proceed 0, .proceed 0, .proceed 0,
        .run, .run, .run, .run, .expire, .run] = some w ∧
      w.timer.calls = [] ∧ w.ends = [true, false] ∧ ¬w.PeriodsKept := by
  refine ⟨_, rfl, rfl, rfl, fun kept => ?_⟩
  have last := kept false (List.mem_cons_of_mem _ (List.mem_singleton.mpr rfl))
  cases last

/-- A request that is left over for a period discards it, if nothing else happens. -/
theorem left_over_discards {single : Bool} {w : TimerWatch} (top : w.timer.step = .top)
    (quiet : w.quiet = true) (left : w.timer.restarting = true) :
    ∃ x, replay (step single) w [.run, .expire, .run] = some x ∧ false ∈ x.ends := by
  obtain ⟨⟨running, restarting, signaled, stopping, place, calls, stopped, tops, finished, callbacks⟩, quiet',
    expired, ends⟩ := w
  cases top
  cases quiet
  cases left
  exact ⟨_, rfl, List.mem_append_right _ (List.mem_singleton.mpr rfl)⟩

/-! ### The way to the callback -/

end TimerWatch

/-- How many steps at most the thread takes to its callback, with nothing in its way. -/
def RunStep.ahead : RunStep → Nat
  | .top | .testSignaled => 4
  | .wait | .clearSignaled => 3
  | .testRestarting => 2
  | .testStopping => 1
  | _ => 0

namespace TimerWatch
open ChronoTrigger

/-- The thread by itself, with the clock where it waits. -/
def Alone (a : Action) : Prop := a = .run ∨ a = .expire

/-- The period of `w` goes on, or it has come to its callback. -/
def Onward (w x : TimerWatch) : Prop :=
  x.timer.step.inPeriod = true ∧ x.ends = w.ends ∨
    x.timer.step = .callback ∧ x.ends = w.ends ++ if x.expired then [true] else []

/-- In a period without a request the thread always has its next step, or waits for the clock. -/
theorem Undisturbed.onward {single : Bool} {w : TimerWatch} (undisturbed : Undisturbed single w)
    (quiet : w.quiet = true) (inside : w.timer.step.inPeriod = true) :
    ∃ a x, Alone a ∧ w.step single a = some x ∧ x.quiet = true ∧ Onward w x ∧
      x.timer.step.ahead < w.timer.step.ahead := by
  obtain ⟨restarting, stopping⟩ := undisturbed.quiet quiet inside
  have moves {a : Action} {t : ChronoTrigger} {place : RunStep} (next : RunStep) (at_ : w.timer.step = place)
      (alone : Alone a) (acted : w.timer.act single a = some t) (there : t.step = next) (later : next ≠ .top)
      (goesOn : next.inPeriod = true) (none : place.outcome next = none) (nearer : next.ahead < place.ahead) :
      ∃ a x, Alone a ∧ w.step single a = some x ∧ x.quiet = true ∧ Onward w x ∧
        x.timer.step.ahead < place.ahead := by
    subst there at_
    refine ⟨a, _, alone, congrArg (Option.map _) acted, ?_, .inl ⟨goesOn, ?_⟩, nearer⟩
    · dsimp only
      rw [if_neg fun top => later top.2, quiet]
      rcases alone with rfl | rfl
      · rfl
      · rfl
    · dsimp only
      rw [none, Option.toList_none, List.append_nil, ite_self]
  cases at_ : w.timer.step with
  | top =>
    have acted : w.timer.act single .run = some (w.timer.goto .wait) := by
      simp only [act, runStep, at_]
    exact moves .wait at_ (.inl rfl) acted rfl (by decide) rfl rfl (by decide)
  | wait =>
    have acted : w.timer.act single .expire = some (w.timer.goto .testRestarting) := if_pos at_
    exact moves .testRestarting at_ (.inr rfl) acted rfl (by decide) rfl rfl (by decide)
  | testSignaled =>
    have acted : w.timer.act single .run =
        some (w.timer.goto (if w.timer.signaled then .clearSignaled else .wait)) := by
      simp only [act, runStep, at_]
    cases signaled : w.timer.signaled with
    | true =>
      rw [signaled] at acted
      exact moves .clearSignaled at_ (.inl rfl) acted rfl (by decide) rfl rfl (by decide)
    | false =>
      rw [signaled] at acted
      exact moves .wait at_ (.inl rfl) acted rfl (by decide) rfl rfl (by decide)
  | clearSignaled =>
    have acted : w.timer.act single .run =
        some ({ w.timer with signaled := false }.goto .testRestarting) := by
      simp only [act, runStep, at_]
    exact moves .testRestarting at_ (.inl rfl) acted rfl (by decide) rfl rfl (by decide)
  | testRestarting =>
    have acted : w.timer.act single .run = some (w.timer.goto .testStopping) := by
      simp only [act, runStep, at_, restarting, Bool.false_eq_true, if_false]
    exact moves .testStopping at_ (.inl rfl) acted rfl (by decide) rfl rfl (by decide)
  | testStopping =>
    have acted : w.timer.act single .run = some w.timer.gotoCallback := by
      simp only [act, runStep, at_, stopping, Bool.false_eq_true, if_false]
    refine ⟨.run, _, .inl rfl, congrArg (Option.map _) acted, ?_, .inr ⟨rfl, ?_⟩, Nat.zero_lt_one⟩
    · dsimp only
      rw [if_neg, quiet]
      · rfl
      · rintro ⟨-, top⟩
        cases top
    · dsimp only
      rw [at_, quiet, Bool.true_and]
      cases w.expired with
      | true => rfl
      | false => exact (List.append_nil _).symm
  | _ =>
    rw [at_] at inside
    cases inside

/-- From anywhere in a period without a request the thread comes to the callback by itself, in four steps
at most, one of which may be the end of its wait. -/
theorem period_completes {single running restarting signaled stopping : Bool} {w : TimerWatch}
    (run : Run (step single) (Heard single) (start running restarting signaled stopping) w)
    (quiet : w.quiet = true) (inside : w.timer.step.inPeriod = true) :
    ∃ labels x, labels.length ≤ w.timer.step.ahead ∧ (∀ a ∈ labels, Alone a) ∧
      replay (step single) w labels = some x ∧ x.timer.step = .callback ∧
      x.ends = w.ends ++ if x.expired then [true] else [] := by
  have nearer : ∀ x : TimerWatch, Undisturbed single x ∧ x.quiet = true ∧ Onward w x →
      ¬x.timer.step = .callback → ∃ a y, Alone a ∧ x.step single a = some y ∧
        (Undisturbed single y ∧ y.quiet = true ∧ Onward w y) ∧
        y.timer.step.ahead < x.timer.step.ahead := by
    rintro x ⟨undisturbed, quiet, onward⟩ short
    obtain ⟨inside, same⟩ := onward.resolve_right fun there => short there.1
    obtain ⟨a, y, alone, stepped, quiet', onward', less⟩ := undisturbed.onward quiet inside
    have heard : x.Heard single a := by
      rcases alone with rfl | rfl
      · trivial
      · trivial
    rw [Onward, same] at onward'
    exact ⟨a, y, alone, stepped, ⟨undisturbed.step heard stepped, quiet', onward'⟩, less⟩
  obtain ⟨labels, x, length, alone, replayed, ⟨-, -, onward⟩, there⟩ :=
    exists_replay nearer ⟨undisturbed_run run, quiet, .inl ⟨inside, rfl⟩⟩
  refine ⟨labels, x, length, alone, replayed, there, ?_⟩
  rcases onward with ⟨inside', -⟩ | ⟨-, ends⟩
  · rw [there] at inside'
    cases inside'
  · exact ends

end TimerWatch
end NymphMqtt
