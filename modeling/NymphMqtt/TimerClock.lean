import NymphMqtt.TimerPeriods

/-! The timer against a clock: how far the callbacks are apart. -/

namespace NymphMqtt
open NymphMqtt.Library.Transition

/-! ### The clock -/

/-- When a callback began. `lost` counts the time until then that the thread did not spend in a
wait before its end time, and `restarts` the requests of `restart()` that were made until then. -/
structure TimerCall where
  time : Nat
  lost : Nat
  restarts : Nat
  deriving DecidableEq, Repr

/-- The timer and the steady clock, in milliseconds since `start()`. -/
structure TimedTrigger where
  timer : ChronoTrigger
  now : Nat
  endTime : Nat
  lost : Nat
  restarts : Nat
  called : List TimerCall
  deriving DecidableEq, Repr

namespace TimedTrigger
open ChronoTrigger

inductive Event where
  | tick
  | act (action : Action)
  deriving DecidableEq, Repr

def start (running restarting signaled stopping : Bool) : TimedTrigger :=
  ⟨.start running restarting signaled stopping, 0, 0, 0, 0, []⟩

/-- `run()` reads the clock on its way to the wait, and the clock ends a wait at `endTime` and not
before. -/
def step (interval : Nat) (single : Bool) (w : TimedTrigger) : Event → Option TimedTrigger
  | .tick => some { w with
      now := w.now + 1
      lost := if w.timer.step = .wait ∧ w.now < w.endTime then w.lost else w.lost + 1 }
  | .act a =>
      if a = .expire ∧ w.now < w.endTime then none
      else (w.timer.act single a).map fun t => { w with
        timer := t
        endTime := if w.timer.step = .top ∧ t.step = .wait then w.now + interval else w.endTime
        restarts := if t.restarting && !w.timer.restarting then w.restarts + 1 else w.restarts
        called := if w.timer.step ≠ .callback ∧ t.step = .callback then
            w.called ++ [⟨w.now, w.lost, w.restarts⟩]
          else w.called }

end TimedTrigger

/-! ### Requests that are made whole -/

/-- The reset that comes next, among the resets. -/
def RunStep.pending : RunStep → Option Reset
  | .start r | .again r => some r
  | _ => none

/-- From the wait to the check of `stopping`, where `endTime` is that of the period. -/
def RunStep.timed : RunStep → Bool
  | .wait | .testSignaled | .clearSignaled | .testRestarting | .testStopping => true
  | _ => false

namespace ChronoTrigger

/-- The thread takes no step between the two stores of a request, and no request comes between its
resets of `signaled` and of the flag that belongs to it. -/
def Whole (t : ChronoTrigger) : Action → Prop
  | .run => .restartSignaled ∉ t.calls ∧ .stopStopping ∉ t.calls
  | .proceed i =>
      (t.calls[i]? = some .restartRestarting → t.step.pending ≠ some .restarting) ∧
        (t.calls[i]? = some .stopSignaled →
          t.step.pending ≠ some .restarting ∧ t.step.pending ≠ some .stopping)
  | _ => True

instance (t : ChronoTrigger) : (a : Action) → Decidable (t.Whole a)
  | .run => inferInstanceAs (Decidable (_ ∧ _))
  | .proceed _ => inferInstanceAs (Decidable (_ ∧ _))
  | .wake | .expire | .restart | .finish | .stop => instDecidableTrue

/-- What is left to say where `signaled` is set. -/
def Explained (t : ChronoTrigger) : Option Reset → Prop
  | some .running | some .signaled => True
  | some .restarting => False
  | some .stopping => t.restarting = true
  | none => t.restarting = true ∨ t.stopping = true ∨ .stopStopping ∈ t.calls

/-- No signal without the flag that tells what it is for. -/
structure Announced (t : ChronoTrigger) : Prop where
  half : .restartSignaled ∈ t.calls → t.restarting = true ∧ t.step.pending ≠ some .restarting
  signaled : t.signaled = true → t.Explained t.step.pending

theorem Explained.mono {t u : ChronoTrigger} {r : Option Reset} (explained : t.Explained r)
    (restarting : t.restarting = true → u.restarting = true)
    (stopping : t.stopping = true → u.stopping = true)
    (stops : .stopStopping ∈ t.calls → u.stopping = true ∨ .stopStopping ∈ u.calls) :
    u.Explained r := by
  cases r with
  | none =>
    rcases explained with now | now | inCall
    · exact .inl (restarting now)
    · exact .inr (.inl (stopping now))
    · exact .inr (stops inCall)
  | some r =>
    cases r with
    | stopping => exact restarting explained
    | _ => exact explained

theorem explained_restarting {t : ChronoTrigger} {r : Option Reset} (restarting : t.restarting = true)
    (free : r ≠ some .restarting) : t.Explained r := by
  cases r with
  | none => exact .inl restarting
  | some r =>
    cases r with
    | restarting => exact absurd rfl free
    | stopping => exact restarting
    | _ => trivial

theorem announced_start (running restarting signaled stopping : Bool) :
    Announced (start running restarting signaled stopping) :=
  ⟨fun member => absurd member List.not_mem_nil, fun _ => trivial⟩

/-! ### The calls in progress -/

section
variable {t u : ChronoTrigger} {i : Nat} {call other : CallStep}

/-- What the calls are after a step of one of them. -/
def callsAfter (calls : List CallStep) (i : Nat) (next : Option CallStep) : List CallStep :=
  match next with
  | some later => calls.set i later
  | none => calls.eraseIdx i

theorem mem_callsAfter {calls : List CallStep} {next : Option CallStep}
    (member : other ∈ callsAfter calls i next) : other ∈ calls ∨ next = some other := by
  cases next with
  | some later =>
    rcases List.mem_or_eq_of_mem_set member with before | same
    · exact .inl before
    · exact .inr (congrArg some same.symm)
  | none => exact .inl (List.mem_of_mem_eraseIdx member)

theorem callsAfter_kept {calls : List CallStep} {next : Option CallStep} (member : other ∈ calls)
    (current : calls[i]? = some call) (different : other ≠ call) :
    other ∈ callsAfter calls i next := by
  obtain ⟨j, at_⟩ := List.mem_iff_getElem?.mp member
  have elsewhere : i ≠ j := by
    rintro rfl
    exact different (Option.some_inj.mp (at_.symm.trans current))
  cases next with
  | some later =>
    apply List.mem_of_getElem?
    change (calls.set i later)[j]? = some other
    rw [List.getElem?_set_ne elsewhere, at_]
  | none => exact List.mem_eraseIdx_iff_getElem?.mpr ⟨j, elsewhere.symm, at_⟩

theorem proceed_spec (stepped : t.proceed i = some u) : ∃ call next v, t.calls[i]? = some call ∧
    t.callStep call = some (v, next) ∧ v.calls = t.calls ∧
      u = { v with calls := callsAfter t.calls i next } := by
  obtain ⟨call, next, v, current, called, same, calls⟩ := proceed_cases stepped
  rw [calls] at same
  refine ⟨call, next, v, current, called, calls, same.trans ?_⟩
  cases next <;> rfl

end

/-! ### The signal along a run -/

section
variable {single : Bool} {t u : ChronoTrigger} {a : Action}

/-- Only the thread clears the flag. -/
theorem callStep_restarting {v : ChronoTrigger} {call : CallStep} {next : Option CallStep}
    (called : t.callStep call = some (v, next)) (restarting : t.restarting = true) :
    v.restarting = true := by
  cases call with
  | restartRestarting =>
    cases called
    rfl
  | stopJoin =>
    obtain ⟨-, rfl, -⟩ := stopJoin_spec called
    exact restarting
  | _ =>
    cases called
    exact restarting

theorem Announced.proceed {i : Nat} (announced : t.Announced) (whole : t.Whole (.proceed i))
    (stepped : t.proceed i = some u) : u.Announced := by
  obtain ⟨call, next, v, current, called, calls, rfl⟩ := proceed_spec stepped
  have flags := callStep_called called
  have set := callStep_restarting called
  have stops : .stopStopping ∈ t.calls → v.stopping = true ∨ .stopStopping ∈ callsAfter t.calls i next := by
    intro member
    by_cases own : call = .stopStopping
    · subst own
      cases called
      exact .inl rfl
    · exact .inr (callsAfter_kept member current (Ne.symm own))
  -- a request is announced by its first store, and its signal is the second
  have half : .restartSignaled ∈ callsAfter t.calls i next →
      v.restarting = true ∧ v.step.pending ≠ some .restarting := by
    intro member
    rw [flags.step]
    rcases mem_callsAfter member with before | first
    · exact ⟨set (announced.half before).1, (announced.half before).2⟩
    · cases call with
      | restartRestarting =>
        cases called
        exact ⟨rfl, whole.1 current⟩
      | stopJoin =>
        obtain ⟨-, -, rfl⟩ := stopJoin_spec called
        cases first
      | _ =>
        cases called
        cases first
  refine ⟨half, fun signaled => ?_⟩
  change Explained _ v.step.pending
  rw [flags.step]
  by_cases before : t.signaled = true
  · exact (announced.signaled before).mono set flags.kept stops
  · cases call with
    | restartSignaled =>
      cases called
      obtain ⟨restarting, free⟩ := announced.half (List.mem_of_getElem? current)
      exact explained_restarting restarting free
    | stopSignaled =>
      cases called
      obtain ⟨restarting, stopping⟩ := whole.2 current
      cases place : t.step.pending with
      | none => exact .inr (.inr (List.mem_set (List.getElem?_eq_some_iff.mp current).1 _))
      | some r =>
        cases r with
        | restarting => exact absurd place restarting
        | stopping => exact absurd place stopping
        | _ => trivial
    | stopJoin =>
      obtain ⟨-, rfl, -⟩ := stopJoin_spec called
      exact absurd signaled before
    | _ =>
      cases called
      exact absurd signaled before

/-- A step of the thread that comes to no reset and from none. -/
theorem Announced.goto (announced : t.Announced) {step : RunStep} (free : t.step.pending = none)
    (free' : step.pending = none) : (t.goto step).Announced := by
  refine ⟨fun member => ⟨(announced.half member).1, ?_⟩, fun signaled => ?_⟩
  · change step.pending ≠ _
    rw [free']
    nofun
  · have before := announced.signaled signaled
    rw [free] at before
    change Explained _ step.pending
    rw [free']
    exact before

/-- One reset, not the last one. -/
theorem Announced.reset (announced : t.Announced) (idle : .restartSignaled ∉ t.calls)
    {r r' : Reset} (next : r.next = some r') {step : RunStep} (pending : t.step.pending = some r)
    (pending' : step.pending = some r') : ((t.reset r).goto step).Announced := by
  have calls : ((t.reset r).goto step).calls = t.calls := by cases r <;> rfl
  refine ⟨fun member => absurd (calls ▸ member) idle, fun signaled => ?_⟩
  change Explained _ step.pending
  rw [pending']
  cases r with
  | running =>
    cases next
    trivial
  | signaled => cases signaled
  | restarting =>
    have before := announced.signaled signaled
    rw [pending] at before
    exact before.elim
  | stopping => cases next

theorem Announced.run (announced : t.Announced) (whole : t.Whole .run)
    (stepped : t.runStep single = some u) : u.Announced := by
  have idle : .restartSignaled ∉ t.calls := whole.1
  have top : ∀ tops, ({ t with tops := tops } : ChronoTrigger).Announced :=
    fun _ => ⟨announced.half, announced.signaled⟩
  have counted : ∀ callbacks, ({ t with callbacks := callbacks } : ChronoTrigger).Announced :=
    fun _ => ⟨announced.half, announced.signaled⟩
  cases runStep_ran stepped with
  | resets at_ next => exact announced.reset idle next (by rw [at_]; rfl) rfl
  | resetsAgain at_ next => exact announced.reset idle next (by rw [at_]; rfl) rfl
  | lastReset at_ =>
    refine ⟨fun member => absurd member idle, fun signaled => ?_⟩
    have before := announced.signaled signaled
    left
    rcases at_ with at_ | at_
    · rw [at_] at before
      exact before
    · rw [at_] at before
      exact before
  | restarts at_ restarting => exact ⟨fun member => absurd member idle, fun _ => trivial⟩
  | clears at_ => exact ⟨fun member => absurd member idle, nofun⟩
  | calls at_ going =>
    exact (counted (if t.finished then t.callbacks + 1 else t.callbacks)).goto
      (congrArg RunStep.pending at_) rfl
  | repeats at_ running =>
    exact (top (if t.stopped then t.tops + 1 else t.tops)).goto (congrArg RunStep.pending at_) rfl
  | _ at_ => exact announced.goto (congrArg RunStep.pending at_) rfl

theorem Announced.act (announced : t.Announced) (whole : t.Whole a) (stepped : t.act single a = some u) :
    u.Announced := by
  have more : ∀ call, call ≠ .restartSignaled →
      ({ t with calls := t.calls ++ [call] } : ChronoTrigger).Announced := by
    intro call other
    refine ⟨fun member => announced.half ?_, fun signaled => ?_⟩
    · rw [List.mem_append, List.mem_singleton] at member
      exact member.resolve_right (Ne.symm other)
    · exact (announced.signaled signaled).mono id id fun inCall => .inr (List.mem_append_left _ inCall)
  cases a with
  | run => exact announced.run whole stepped
  | wake =>
    obtain ⟨waiting, rfl⟩ := wait_left stepped
    exact announced.goto (congrArg RunStep.pending waiting) rfl
  | expire =>
    obtain ⟨waiting, rfl⟩ := wait_left stepped
    exact announced.goto (congrArg RunStep.pending waiting) rfl
  | proceed i => exact announced.proceed whole stepped
  | restart =>
    cases stepped
    exact more _ (by decide)
  | finish =>
    cases stepped
    exact more _ (by decide)
  | stop =>
    cases stepped
    exact more _ (by decide)

/-- A request leaves the thread where it is, and clears neither flag. -/
theorem request_kept (requests : a.requests = true) (stepped : t.act single a = some u) :
    u.step = t.step ∧ (t.restarting = true → u.restarting = true) ∧
      (t.stopping = true → u.stopping = true) := by
  cases a with
  | proceed i =>
    obtain ⟨call, next, v, -, called, -, rfl⟩ := proceed_spec stepped
    have flags := callStep_called called
    exact ⟨flags.step, @callStep_restarting t v call next called, flags.kept⟩
  | run => cases requests
  | wake => cases requests
  | expire => cases requests
  | _ =>
    cases stepped
    exact ⟨rfl, id, id⟩

/-- Outside its wait the thread is moved by its own steps only. -/
theorem run_of_moved (stepped : t.act single a = some u) (moved : u.step ≠ t.step)
    (away : t.step ≠ .wait) : a = .run := by
  by_cases requests : a.requests = true
  · exact absurd (request_kept requests stepped).1 moved
  · cases a with
    | run => rfl
    | wake => exact absurd (wait_left stepped).1 away
    | expire => exact absurd (wait_left stepped).1 away
    | _ => exact absurd rfl requests

end
end ChronoTrigger

namespace TimedTrigger
open ChronoTrigger
variable {interval : Nat} {single : Bool} {w x : TimedTrigger} {e : Event}

/-! ### Steps of the clock and of the timer -/

/-- The counter of the requests behind a step of the timer. -/
def restartsAt (w : TimedTrigger) (t : ChronoTrigger) : Nat :=
  if t.restarting && !w.timer.restarting then w.restarts + 1 else w.restarts

/-- What a step does: the clock goes on, a wait or a callback begins, or anything else happens. -/
inductive Stepped (interval : Nat) (single : Bool) (w : TimedTrigger) : Event → TimedTrigger → Prop
  | tick : Stepped interval single w .tick { w with
      now := w.now + 1
      lost := if w.timer.step = .wait ∧ w.now < w.endTime then w.lost else w.lost + 1 }
  | waits : w.timer.step = .top → Stepped interval single w (.act .run)
      { w with timer := w.timer.goto .wait, endTime := w.now + interval }
  | calls : w.timer.step = .testStopping → w.timer.stopping = false →
      Stepped interval single w (.act .run)
        { w with timer := w.timer.gotoCallback, called := w.called ++ [⟨w.now, w.lost, w.restarts⟩] }
  | moves {a : Action} {t : ChronoTrigger} : w.timer.act single a = some t →
      (a = .expire → w.endTime ≤ w.now) → ¬(w.timer.step = .top ∧ t.step = .wait) →
      ¬(w.timer.step ≠ .callback ∧ t.step = .callback) →
      Stepped interval single w (.act a) { w with timer := t, restarts := w.restartsAt t }

theorem waits_cases {t : ChronoTrigger} {a : Action} (acted : w.timer.act single a = some t)
    (top : w.timer.step = .top) (waits : t.step = .wait) : a = .run ∧ t = w.timer.goto .wait := by
  have moved : a = .run :=
    run_of_moved acted (by rw [top, waits]; nofun) (by rw [top]; nofun)
  subst moved
  refine ⟨rfl, ?_⟩
  change w.timer.runStep single = some t at acted
  rw [runStep, top] at acted
  exact (Option.some_inj.mp acted).symm

theorem calls_cases {t : ChronoTrigger} {a : Action} (acted : w.timer.act single a = some t)
    (outside : w.timer.step ≠ .callback) (inside : t.step = .callback) :
    a = .run ∧ w.timer.step = .testStopping ∧ w.timer.stopping = false ∧ t = w.timer.gotoCallback := by
  have away : w.timer.step ≠ .wait := by
    intro waiting
    by_cases requests : a.requests = true
    · exact outside ((request_kept requests acted).1.symm.trans inside)
    · cases a with
      | run =>
        change w.timer.runStep single = some t at acted
        rw [runStep, waiting] at acted
        cases acted
      | wake =>
        obtain ⟨-, rfl⟩ := wait_left acted
        cases inside
      | expire =>
        obtain ⟨-, rfl⟩ := wait_left acted
        cases inside
      | _ => exact requests rfl
  have moved : a = .run :=
    run_of_moved acted (fun same => outside (same.symm.trans inside)) away
  subst moved
  refine ⟨rfl, ?_⟩
  cases runStep_ran acted with
  | calls at_ going => exact ⟨at_, going, rfl⟩
  | _ => cases inside

theorem step_stepped (stepped : step interval single w e = some x) :
    Stepped interval single w e x := by
  cases e with
  | tick =>
    cases stepped
    exact .tick
  | act a =>
    by_cases early : a = .expire ∧ w.now < w.endTime
    · rw [step, if_pos early] at stepped
      cases stepped
    · rw [step, if_neg early] at stepped
      obtain ⟨t, acted, rfl⟩ := Option.map_eq_some_iff.mp stepped
      by_cases waits : w.timer.step = .top ∧ t.step = .wait
      · obtain ⟨rfl, rfl⟩ := waits_cases acted waits.1 waits.2
        have idle : ¬(w.timer.step ≠ .callback ∧ (w.timer.goto .wait).step = .callback) := nofun
        have counted : ((w.timer.goto .wait).restarting && !w.timer.restarting) = false :=
          Bool.and_not_self _
        rw [if_pos waits, if_neg idle, counted]
        exact .waits waits.1
      · by_cases calls : w.timer.step ≠ .callback ∧ t.step = .callback
        · obtain ⟨rfl, at_, going, rfl⟩ := calls_cases acted calls.1 calls.2
          have counted : (w.timer.gotoCallback.restarting && !w.timer.restarting) = false :=
            Bool.and_not_self _
          rw [if_neg waits, if_pos calls, counted]
          exact .calls at_ going
        · rw [if_neg waits, if_neg calls]
          apply Stepped.moves acted _ waits calls
          intro expires
          exact Nat.not_lt.mp fun before => early ⟨expires, before⟩

/-! ### How far the callbacks are apart -/

def Whole (w : TimedTrigger) : Event → Prop
  | .tick => True
  | .act a => w.timer.Whole a

instance (w : TimedTrigger) : (e : Event) → Decidable (w.Whole e)
  | .tick => instDecidableTrue
  | .act a => inferInstanceAs (Decidable (w.timer.Whole a))

/-- Behind its wait the thread has come to the end time, or finds the flag that ended the wait. -/
def Due (w : TimedTrigger) : Prop :=
  match w.timer.step with
  | .clearSignaled | .testRestarting =>
      w.endTime ≤ w.now ∨ w.timer.restarting = true ∨ w.timer.stopping = true
  | .testStopping => w.endTime ≤ w.now ∨ w.timer.stopping = true
  | _ => True

/-- The callbacks lie a whole interval apart, and so does the end of the period from the last. -/
structure Spaced (interval : Nat) (w : TimedTrigger) : Prop where
  announced : w.timer.Announced
  due : w.Due
  apart : w.called.Pairwise fun a b => a.time + interval ≤ b.time
  past : ∀ c ∈ w.called, interval ≤ c.time ∧ c.time ≤ w.now
  ahead : w.timer.step.timed = true →
    interval ≤ w.endTime ∧ ∀ c ∈ w.called, c.time + interval ≤ w.endTime

theorem spaced_start (interval : Nat) (running restarting signaled stopping : Bool) :
    Spaced interval (start running restarting signaled stopping) where
  announced := announced_start running restarting signaled stopping
  due := trivial
  apart := .nil
  past _ member := absurd member List.not_mem_nil
  ahead := nofun

theorem Due.later {now : Nat} (due : w.Due) (later : w.now ≤ now) (lost : Nat) :
    Due { w with now := now, lost := lost } := by
  unfold Due at due ⊢
  dsimp only
  cases at_ : w.timer.step with
  | clearSignaled =>
    rw [at_] at due
    exact due.imp_left fun before => Nat.le_trans before later
  | testRestarting =>
    rw [at_] at due
    exact due.imp_left fun before => Nat.le_trans before later
  | testStopping =>
    rw [at_] at due
    exact due.imp_left fun before => Nat.le_trans before later
  | _ => trivial

/-- A request may only add to what the thread finds. -/
theorem Due.request {t : ChronoTrigger} (due : w.Due) (step : t.step = w.timer.step)
    (restarting : w.timer.restarting = true → t.restarting = true)
    (stopping : w.timer.stopping = true → t.stopping = true) (restarts : Nat) :
    Due { w with timer := t, restarts := restarts } := by
  unfold Due at due ⊢
  dsimp only
  rw [step]
  cases at_ : w.timer.step with
  | clearSignaled =>
    rw [at_] at due
    exact due.imp_right (Or.imp restarting stopping)
  | testRestarting =>
    rw [at_] at due
    exact due.imp_right (Or.imp restarting stopping)
  | testStopping =>
    rw [at_] at due
    exact due.imp_right stopping
  | _ => trivial

theorem Due.run {t : ChronoTrigger} (due : w.Due) (announced : w.timer.Announced)
    (whole : w.timer.Whole .run) (acted : w.timer.runStep single = some t) (restarts : Nat) :
    Due { w with timer := t, restarts := restarts } := by
  unfold Due at due
  cases runStep_ran acted with
  | signaled at_ signaled =>
    have explained := announced.signaled signaled
    rw [at_] at explained
    exact .inr (Or.imp_right (fun either => either.resolve_right whole.2) explained)
  | clears at_ =>
    rw [at_] at due
    exact due
  | elapses at_ quiet =>
    rw [at_] at due
    exact due.imp_right fun either =>
      either.resolve_left fun restarting => absurd (quiet.symm.trans restarting) (by decide)
  | _ => trivial

theorem Due.moves {t : ChronoTrigger} {a : Action} (due : w.Due) (announced : w.timer.Announced)
    (whole : w.timer.Whole a) (acted : w.timer.act single a = some t)
    (expires : a = .expire → w.endTime ≤ w.now) (restarts : Nat) :
    Due { w with timer := t, restarts := restarts } := by
  by_cases requests : a.requests = true
  · obtain ⟨step, restarting, stopping⟩ := request_kept requests acted
    exact due.request step restarting stopping restarts
  · cases a with
    | run => exact due.run announced whole acted restarts
    | wake =>
      obtain ⟨-, rfl⟩ := wait_left acted
      trivial
    | expire =>
      obtain ⟨-, rfl⟩ := wait_left acted
      exact .inl (expires rfl)
    | _ => exact absurd rfl requests

/-- No step but the one that sets the end time leads into the period. -/
theorem timed_before {t : ChronoTrigger} {a : Action} (acted : w.timer.act single a = some t)
    (begins : ¬(w.timer.step = .top ∧ t.step = .wait)) (timed : t.step.timed = true) :
    w.timer.step.timed = true := by
  by_cases requests : a.requests = true
  · rw [← (request_kept requests acted).1]
    exact timed
  · cases a with
    | run =>
      cases runStep_ran acted with
      | waits at_ => exact absurd ⟨at_, rfl⟩ begins
      | signaled at_ => exact congrArg RunStep.timed at_
      | spurious at_ => exact congrArg RunStep.timed at_
      | clears at_ => exact congrArg RunStep.timed at_
      | elapses at_ => exact congrArg RunStep.timed at_
      | _ => cases timed
    | wake => exact congrArg RunStep.timed (wait_left acted).1
    | expire => exact congrArg RunStep.timed (wait_left acted).1
    | _ => exact absurd rfl requests

theorem Spaced.step (spaced : Spaced interval w) (whole : w.Whole e)
    (stepped : step interval single w e = some x) : Spaced interval x := by
  cases step_stepped stepped with
  | tick =>
    refine ⟨spaced.announced, spaced.due.later (Nat.le_succ _) _, spaced.apart, ?_, spaced.ahead⟩
    intro c member
    exact ⟨(spaced.past c member).1, Nat.le_succ_of_le (spaced.past c member).2⟩
  | waits at_ =>
    refine ⟨?_, trivial, spaced.apart, spaced.past, fun _ => ⟨Nat.le_add_left _ _, ?_⟩⟩
    · exact spaced.announced.goto (congrArg RunStep.pending at_) rfl
    · intro c member
      exact Nat.add_le_add_right (spaced.past c member).2 interval
  | calls at_ going =>
    have due := spaced.due
    rw [Due, at_] at due
    have elapsed : w.endTime ≤ w.now :=
      due.resolve_right fun stopping => absurd (going.symm.trans stopping) (by decide)
    obtain ⟨first, ahead⟩ := spaced.ahead (congrArg RunStep.timed at_)
    have acted : w.timer.runStep single = some w.timer.gotoCallback := by
      rw [runStep, at_]
      exact congrArg some (if_neg (by rw [going]; decide))
    refine ⟨spaced.announced.run whole acted, trivial, ?_, ?_, fun timed => by cases timed⟩
    · refine List.pairwise_append.mpr ⟨spaced.apart, List.pairwise_singleton _ _, ?_⟩
      intro c member d last
      rw [List.mem_singleton.mp last]
      exact Nat.le_trans (ahead c member) elapsed
    · intro c member
      rcases List.mem_append.mp member with before | last
      · exact spaced.past c before
      · rw [List.mem_singleton.mp last]
        exact ⟨Nat.le_trans first elapsed, Nat.le_refl _⟩
  | moves acted expires begins calls =>
    refine ⟨spaced.announced.act whole acted, spaced.due.moves spaced.announced whole acted expires _,
      spaced.apart, spaced.past, fun timed => ?_⟩
    exact spaced.ahead (timed_before acted begins timed)

/-- Moments that lie an interval apart take up so much time. -/
theorem length_mul_le {interval last : Nat} {calls : List TimerCall} {first : Nat}
    (apart : calls.Pairwise fun a b => a.time + interval ≤ b.time) (begun : first ≤ last)
    (between : ∀ c ∈ calls, first + interval ≤ c.time ∧ c.time ≤ last) :
    first + calls.length * interval ≤ last := by
  induction calls generalizing first with
  | nil =>
    rw [List.length_nil, Nat.zero_mul, Nat.add_zero]
    exact begun
  | cons c calls ih =>
    obtain ⟨later, apart⟩ := List.pairwise_cons.mp apart
    obtain ⟨here, before⟩ := between c List.mem_cons_self
    have rest := ih apart before fun d member =>
      ⟨later d member, (between d (List.mem_cons_of_mem _ member)).2⟩
    rw [List.length_cons, Nat.succ_mul]
    omega

/-- Where requests are made whole, no two callbacks of a timer are less than an interval apart, and
none comes earlier than that: it pings no more often than it was told to. -/
theorem callbacks_spaced {running restarting signaled stopping : Bool}
    (run : Run (step interval single) Whole (start running restarting signaled stopping) w) :
    (w.called.Pairwise fun a b => a.time + interval ≤ b.time) ∧
      w.called.length * interval ≤ w.now := by
  have spaced : Spaced interval w := by
    refine run.invariant (spaced_start interval running restarting signaled stopping) ?_
    exact fun _ _ _ spaced whole stepped => spaced.step whole stepped
  refine ⟨spaced.apart, ?_⟩
  have total := @length_mul_le interval w.now w.called 0 spaced.apart (Nat.zero_le _) fun c member =>
    ⟨by rw [Nat.zero_add]; exact (spaced.past c member).1, (spaced.past c member).2⟩
  rwa [Nat.zero_add] at total

/-- Two periods of two milliseconds, with a late end of the first. -/
theorem callbacks_spaced_two : ∃ w : TimedTrigger, w.called.map (·.time) = [3, 5] ∧
    w.called.length * 2 ≤ w.now := by
  have replayed : ∃ w, replay (guarded (step 2 false) Whole) (start false false false false)
      [.act .run, .act .run, .act .run, .act .run, .act .run, .tick, .tick, .tick, .act .expire,
        .act .run, .act .run, .act .run, .act .run, .act .run, .act .run, .tick, .tick, .act .expire,
        .act .run, .act .run] = some w ∧ w.called.map (·.time) = [3, 5] := by
    refine ⟨_, rfl, ?_⟩
    decide
  obtain ⟨w, replayed, times⟩ := replayed
  exact ⟨w, times, (callbacks_spaced (run_of_replay replayed)).2⟩

/-- A `stop()` between its two stores: the thread finds the signal without the flag and calls back at
once. -/
theorem callback_early : ∃ w, replay (step 2 false) (start false false false false)
    [.act .run, .act .run, .act .run, .act .run, .act .run, .act .stop, .act (.proceed 0), .act .wake,
      .act .run, .act .run, .act .run, .act .run] = some w ∧
    ¬w.called.length * 2 ≤ w.now := by
  refine ⟨_, rfl, ?_⟩
  decide

end TimedTrigger
end NymphMqtt
