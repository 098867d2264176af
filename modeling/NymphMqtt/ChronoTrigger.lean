import NymphMqtt.Library.Transition
import Mathlib.Data.List.Basic

/-! `ChronoTrigger`: the timer thread and the calls of `restart`, `finish` and `stop` that
other threads and the callback make. Every access to one of the four atomic flags is a
step of its own. -/

namespace NymphMqtt
open NymphMqtt.Library.Transition

/-! ### The timer thread -/

/-- The four resets that `run()` makes at its start and again on a restart, in order. -/
inductive Reset where
  | running
  | signaled
  | restarting
  | stopping
  deriving DecidableEq, Repr

def Reset.next : Reset → Option Reset
  | .running => some .signaled
  | .signaled => some .restarting
  | .restarting => some .stopping
  | .stopping => none

/-- Where `run()` stands: at a reset, at the top of its loop, in the wait (its tests of the
clock and `wait_until` are one wait of unknown length), at the load and the store of
`signaled`, at the two checks, in the callback, at the two exits behind it, or gone. -/
inductive RunStep where
  | start (reset : Reset)
  | top
  | wait
  | testSignaled
  | clearSignaled
  | testRestarting
  | again (reset : Reset)
  | testStopping
  | callback
  | testSingle
  | testRunning
  | ended
  deriving DecidableEq, Repr

/-- Among the resets, with the one of `stopping` ahead. -/
def RunStep.resetting : RunStep → Bool
  | .start _ | .again _ => true
  | _ => false

/-- About to reset `running`. -/
def RunStep.resetsRunning : RunStep → Bool
  | .start .running | .again .running => true
  | _ => false

/-- Between the top of the loop and the check of `stopping`, or gone. -/
def RunStep.checking : RunStep → Bool
  | .top | .wait | .testSignaled | .clearSignaled | .testRestarting | .testStopping | .ended => true
  | _ => false

/-- In the callback or behind it. -/
def RunStep.leaving : RunStep → Bool
  | .callback | .testSingle | .testRunning | .ended => true
  | _ => false

/-- A call in progress, before its next store, its notification, or the join of `stop()`. -/
inductive CallStep where
  | restartRestarting
  | restartSignaled
  | restartNotify
  | finishRunning
  | stopSignaled
  | stopStopping
  | stopNotify
  | stopJoin
  deriving DecidableEq, Repr

/-- The flags, the timer thread and the calls in progress. The rest is history: whether
`stop()` has set `stopping` and `finish()` has cleared `running`, how often `run()` came to
the top of its loop since the former, and how many callbacks count since the latter. -/
structure ChronoTrigger where
  running : Bool
  restarting : Bool
  signaled : Bool
  stopping : Bool
  step : RunStep
  calls : List CallStep
  stopped : Bool
  tops : Nat
  finished : Bool
  callbacks : Nat
  deriving DecidableEq, Repr

namespace ChronoTrigger

/-- After `start()`: the thread exists, and the flags hold what they held before. -/
def start (running restarting signaled stopping : Bool) : ChronoTrigger :=
  { running, restarting, signaled, stopping, step := .start .running, calls := [],
    stopped := false, tops := 0, finished := false, callbacks := 0 }

/-- `wake` ends a wait by a notification or spuriously, `expire` by the clock. A `restart()`
made inside the callback is a call like any other, between two steps of the thread. -/
inductive Action where
  | run
  | wake
  | expire
  | restart
  | finish
  | stop
  | proceed (call : Nat)
  deriving DecidableEq, Repr

def reset (t : ChronoTrigger) : Reset → ChronoTrigger
  | .running => { t with running := true }
  | .signaled => { t with signaled := false }
  | .restarting => { t with restarting := false }
  | .stopping => { t with stopping := false }

def goto (t : ChronoTrigger) (step : RunStep) : ChronoTrigger := { t with step := step }

def gotoTop (t : ChronoTrigger) : ChronoTrigger :=
  { t with step := .top, tops := if t.stopped then t.tops + 1 else t.tops }

def gotoCallback (t : ChronoTrigger) : ChronoTrigger :=
  { t with step := .callback, callbacks := if t.finished then t.callbacks + 1 else t.callbacks }

/-- One step of `run(interval, single)` outside its wait. -/
def runStep (single : Bool) (t : ChronoTrigger) : Option ChronoTrigger :=
  match t.step with
  | .start r => match r.next with
      | some r' => some ((t.reset r).goto (.start r'))
      | none => some (t.reset r).gotoTop
  | .top => some (t.goto .wait)
  | .wait => none
  | .testSignaled => some (t.goto (if t.signaled then .clearSignaled else .wait))
  | .clearSignaled => some ({ t with signaled := false }.goto .testRestarting)
  | .testRestarting => some (t.goto (if t.restarting then .again .running else .testStopping))
  | .again r => match r.next with
      | some r' => some ((t.reset r).goto (.again r'))
      | none => some (t.reset r).gotoTop
  | .testStopping => some (if t.stopping then t.goto .ended else t.gotoCallback)
  | .callback => some (t.goto .testSingle)
  | .testSingle => some (t.goto (if single then .ended else .testRunning))
  | .testRunning => some (if t.running then t.gotoTop else t.goto .ended)
  | .ended => none

/-- The next step of a call: its effect on the flags, and where it stands then. -/
def callStep (t : ChronoTrigger) : CallStep → Option (ChronoTrigger × Option CallStep)
  | .restartRestarting => some ({ t with restarting := true }, some .restartSignaled)
  | .restartSignaled => some ({ t with signaled := true }, some .restartNotify)
  | .restartNotify => some (t, none)
  | .finishRunning => some ({ t with
      running := false
      callbacks := if t.finished then t.callbacks else if t.step = .callback then 1 else 0
      finished := true }, none)
  | .stopSignaled => some ({ t with signaled := true }, some .stopStopping)
  | .stopStopping => some ({ t with stopping := true, stopped := true }, some .stopNotify)
  | .stopNotify => some (t, some .stopJoin)
  | .stopJoin => if t.step = .ended then some (t, none) else none

def proceed (t : ChronoTrigger) (i : Nat) : Option ChronoTrigger := do
  let call ← t.calls[i]?
  let (t, next) ← t.callStep call
  match next with
  | some next => some { t with calls := t.calls.set i next }
  | none => some { t with calls := t.calls.eraseIdx i }

def act (single : Bool) (t : ChronoTrigger) : Action → Option ChronoTrigger
  | .run => t.runStep single
  | .wake => if t.step = .wait then some (t.goto .testSignaled) else none
  | .expire => if t.step = .wait then some (t.goto .testRestarting) else none
  | .restart => some { t with calls := t.calls ++ [.restartRestarting] }
  | .finish => some { t with calls := t.calls ++ [.finishRunning] }
  | .stop => some { t with calls := t.calls ++ [.stopSignaled] }
  | .proceed call => t.proceed call

/-- The steps of `run()` outside its wait, each with what it has found. -/
inductive Ran (single : Bool) (t : ChronoTrigger) : ChronoTrigger → Prop
  | resets {r r' : Reset} : t.step = .start r → r.next = some r' →
      Ran single t ((t.reset r).goto (.start r'))
  | resetsAgain {r r' : Reset} : t.step = .again r → r.next = some r' →
      Ran single t ((t.reset r).goto (.again r'))
  | lastReset : t.step = .start .stopping ∨ t.step = .again .stopping →
      Ran single t (t.reset .stopping).gotoTop
  | waits : t.step = .top → Ran single t (t.goto .wait)
  | signaled : t.step = .testSignaled → t.signaled = true → Ran single t (t.goto .clearSignaled)
  | spurious : t.step = .testSignaled → t.signaled = false → Ran single t (t.goto .wait)
  | clears : t.step = .clearSignaled → Ran single t ({ t with signaled := false }.goto .testRestarting)
  | restarts : t.step = .testRestarting → t.restarting = true →
      Ran single t (t.goto (.again .running))
  | elapses : t.step = .testRestarting → t.restarting = false → Ran single t (t.goto .testStopping)
  | stops : t.step = .testStopping → t.stopping = true → Ran single t (t.goto .ended)
  | calls : t.step = .testStopping → t.stopping = false → Ran single t t.gotoCallback
  | returns : t.step = .callback → Ran single t (t.goto .testSingle)
  | once : t.step = .testSingle → single = true → Ran single t (t.goto .ended)
  | periodic : t.step = .testSingle → single = false → Ran single t (t.goto .testRunning)
  | repeats : t.step = .testRunning → t.running = true → Ran single t t.gotoTop
  | finishes : t.step = .testRunning → t.running = false → Ran single t (t.goto .ended)

theorem runStep_ran {single : Bool} {t u : ChronoTrigger} (stepped : t.runStep single = some u) :
    Ran single t u := by
  cases at_ : t.step with
  | start r =>
    simp only [runStep, at_] at stepped
    cases r with
    | stopping =>
      cases stepped
      exact .lastReset (.inl at_)
    | _ =>
      cases stepped
      exact .resets at_ rfl
  | again r =>
    simp only [runStep, at_] at stepped
    cases r with
    | stopping =>
      cases stepped
      exact .lastReset (.inr at_)
    | _ =>
      cases stepped
      exact .resetsAgain at_ rfl
  | top =>
    simp only [runStep, at_] at stepped
    cases stepped
    exact .waits at_
  | testSignaled =>
    cases flag : t.signaled with
    | false =>
      simp only [runStep, at_, flag] at stepped
      cases stepped
      exact .spurious at_ flag
    | true =>
      simp only [runStep, at_, flag] at stepped
      cases stepped
      exact .signaled at_ flag
  | clearSignaled =>
    simp only [runStep, at_] at stepped
    cases stepped
    exact .clears at_
  | testRestarting =>
    cases flag : t.restarting with
    | false =>
      simp only [runStep, at_, flag] at stepped
      cases stepped
      exact .elapses at_ flag
    | true =>
      simp only [runStep, at_, flag] at stepped
      cases stepped
      exact .restarts at_ flag
  | testStopping =>
    cases flag : t.stopping with
    | false =>
      simp only [runStep, at_, flag] at stepped
      cases stepped
      exact .calls at_ flag
    | true =>
      simp only [runStep, at_, flag] at stepped
      cases stepped
      exact .stops at_ flag
  | callback =>
    simp only [runStep, at_] at stepped
    cases stepped
    exact .returns at_
  | testSingle =>
    cases single with
    | false =>
      simp only [runStep, at_] at stepped
      cases stepped
      exact .periodic at_ rfl
    | true =>
      simp only [runStep, at_] at stepped
      cases stepped
      exact .once at_ rfl
  | testRunning =>
    cases flag : t.running with
    | false =>
      simp only [runStep, at_, flag] at stepped
      cases stepped
      exact .finishes at_ flag
    | true =>
      simp only [runStep, at_, flag] at stepped
      cases stepped
      exact .repeats at_ flag
  | wait => simp only [runStep, at_, reduceCtorEq] at stepped
  | ended => simp only [runStep, at_, reduceCtorEq] at stepped

theorem wait_left {t u : ChronoTrigger} {step : RunStep}
    (stepped : (if t.step = .wait then some (t.goto step) else none) = some u) :
    t.step = .wait ∧ u = t.goto step := by
  by_cases waiting : t.step = .wait
  · rw [if_pos waiting] at stepped
    cases stepped
    exact ⟨waiting, rfl⟩
  · rw [if_neg waiting] at stepped
    cases stepped

/-- The join returns when the thread has ended. -/
theorem stopJoin_spec {t u : ChronoTrigger} {next : Option CallStep}
    (stepped : t.callStep .stopJoin = some (u, next)) : t.step = .ended ∧ u = t ∧ next = none := by
  simp only [callStep] at stepped
  by_cases gone : t.step = .ended
  · rw [if_pos gone] at stepped
    cases stepped
    exact ⟨gone, rfl, rfl⟩
  · rw [if_neg gone] at stepped
    cases stepped

/-! ### Termination requests -/

/-- What the requests that have landed may expect: `stopping` stays set and `run()` comes
to the top of its loop at most once more; after `finish()` one callback counts at most,
and `run()` is on its way out as soon as one has. -/
structure Honoured (t : ChronoTrigger) : Prop where
  stopKept : t.stopped = true → t.stopping = true
  stopLeaves : t.tops ≤ 1
  finishOnce : t.callbacks ≤ 1
  finishLeaves : t.callbacks = 1 → t.step.leaving = true

/-- A request takes effect when the resets that would clear it are over. A single-shot
timer ends after its callback whatever becomes of `running`. -/
def Lands (single : Bool) (t : ChronoTrigger) : CallStep → Prop
  | .stopStopping => t.step.resetting = false
  | .finishRunning => single = false → t.step.resetsRunning = false
  | _ => True

/-- Requests take effect outside the resets, and `run()` does not enter its restart branch
after that. -/
def Timely (single : Bool) (t : ChronoTrigger) : Action → Prop
  | .proceed call => ∀ c ∈ t.calls[call]?, t.Lands single c
  | .run => t.step = .testRestarting → t.restarting = true →
      t.stopped = false ∧ (single = false → t.finished = false)
  | _ => True

instance (single : Bool) (t : ChronoTrigger) (c : CallStep) : Decidable (t.Lands single c) :=
  match c with
  | .stopStopping => inferInstanceAs (Decidable (_ = false))
  | .finishRunning => inferInstanceAs (Decidable (_ → _))
  | .restartRestarting | .restartSignaled | .restartNotify | .stopSignaled | .stopNotify
  | .stopJoin => inferInstanceAs (Decidable True)

instance (single : Bool) (t : ChronoTrigger) (a : Action) : Decidable (t.Timely single a) :=
  match a with
  | .proceed call => inferInstanceAs (Decidable (∀ c ∈ t.calls[call]?, t.Lands single c))
  | .run => inferInstanceAs (Decidable (_ → _ → _ ∧ (_ → _)))
  | .wake | .expire | .restart | .finish | .stop => inferInstanceAs (Decidable True)

/-- What carries the two promises along a run. -/
structure Promised (single : Bool) (t : ChronoTrigger) : Prop where
  stop : t.stopped = true → t.stopping = true ∧ t.step.resetting = false
  tops : t.tops = 0 ∨ t.tops = 1 ∧ t.stopped = true ∧ t.step.checking = true
  finish : t.finished = true → single = false → t.running = false ∧ t.step.resetsRunning = false
  callbacks : t.callbacks = 0 ∨ t.callbacks = 1 ∧ t.finished = true ∧ t.step.leaving = true
  single : single = true → t.step ≠ .testRunning

theorem Promised.honoured {single : Bool} {t : ChronoTrigger} (promised : Promised single t) :
    t.Honoured where
  stopKept stopped := (promised.stop stopped).1
  stopLeaves := by
    rcases promised.tops with none | ⟨one, -⟩
    · omega
    · omega
  finishOnce := by
    rcases promised.callbacks with none | ⟨one, -⟩
    · omega
    · omega
  finishLeaves one := by
    rcases promised.callbacks with none | ⟨-, -, leaving⟩
    · omega
    · exact leaving

theorem promised_start (single running restarting signaled stopping : Bool) :
    Promised single (start running restarting signaled stopping) where
  stop h := nomatch h
  tops := .inl rfl
  finish h := nomatch h
  callbacks := .inl rfl
  single _ := fun h => nomatch h

namespace Promised
variable {single : Bool} {t : ChronoTrigger} (promised : Promised single t)
include promised

/-- Calls in progress promise nothing. -/
theorem withCalls (calls : List CallStep) : Promised single { t with calls := calls } :=
  ⟨promised.stop, promised.tops, promised.finish, promised.callbacks, promised.single⟩

theorem withSignaled (signaled : Bool) : Promised single { t with signaled := signaled } :=
  ⟨promised.stop, promised.tops, promised.finish, promised.callbacks, promised.single⟩

theorem withRestarting (restarting : Bool) : Promised single { t with restarting := restarting } :=
  ⟨promised.stop, promised.tops, promised.finish, promised.callbacks, promised.single⟩

/-! ### Calls -/

theorem stopStopping (clear : t.step.resetting = false) :
    Promised single { t with stopping := true, stopped := true } := by
  refine ⟨fun _ => ⟨rfl, clear⟩, ?_, promised.finish, promised.callbacks, promised.single⟩
  rcases promised.tops with none | ⟨one, -, checking⟩
  · exact .inl none
  · exact .inr ⟨one, rfl, checking⟩

theorem finishRunning (clear : single = false → t.step.resetsRunning = false) :
    Promised single { t with
      running := false
      callbacks := if t.finished then t.callbacks else if t.step = .callback then 1 else 0
      finished := true } := by
  refine ⟨promised.stop, promised.tops, fun _ multi => ⟨rfl, clear multi⟩, ?_, promised.single⟩
  by_cases before : t.finished = true
  · simp only [if_pos before, true_and]
    rcases promised.callbacks with none | ⟨one, -, leaving⟩
    · exact .inl none
    · exact .inr ⟨one, leaving⟩
  · simp only [if_neg before, true_and]
    by_cases inside : t.step = .callback
    · rw [if_pos inside]
      exact .inr ⟨rfl, by rw [inside]; rfl⟩
    · rw [if_neg inside]
      exact .inl rfl

theorem call {u : ChronoTrigger} {call : CallStep} {next : Option CallStep}
    (stop : call = .stopStopping → t.step.resetting = false)
    (finish : call = .finishRunning → single = false → t.step.resetsRunning = false)
    (stepped : t.callStep call = some (u, next)) : Promised single u := by
  cases call with
  | restartRestarting =>
    cases stepped
    exact promised.withRestarting true
  | restartSignaled =>
    cases stepped
    exact promised.withSignaled true
  | restartNotify =>
    cases stepped
    exact promised
  | finishRunning =>
    cases stepped
    exact promised.finishRunning (finish rfl)
  | stopSignaled =>
    cases stepped
    exact promised.withSignaled true
  | stopStopping =>
    cases stepped
    exact promised.stopStopping (stop rfl)
  | stopNotify =>
    cases stepped
    exact promised
  | stopJoin =>
    obtain ⟨-, rfl, -⟩ := stopJoin_spec stepped
    exact promised

theorem proceed {u : ChronoTrigger} {i : Nat} (timely : t.Timely single (.proceed i))
    (stepped : t.proceed i = some u) : Promised single u := by
  obtain ⟨call, current, rest⟩ := Option.bind_eq_some_iff.mp stepped
  obtain ⟨⟨v, next⟩, called, rest⟩ := Option.bind_eq_some_iff.mp rest
  have lands : t.Lands single call := timely call current
  have kept : Promised single v := by
    apply promised.call _ _ called
    · rintro rfl
      exact lands
    · rintro rfl
      exact lands
  cases next with
  | none =>
    cases rest
    exact kept.withCalls _
  | some next =>
    cases rest
    exact kept.withCalls _

/-! ### The thread -/

/-- While the thread resets, no request has landed that it could clear. -/
theorem resets (resetting : t.step.resetting = true) :
    t.stopped = false ∧ t.tops = 0 ∧ t.callbacks = 0 := by
  have unstopped : t.stopped = false := by
    by_contra stopped
    have clear := (promised.stop (eq_true_of_ne_false stopped)).2
    rw [resetting] at clear
    cases clear
  refine ⟨unstopped, ?_, ?_⟩
  · rcases promised.tops with none | ⟨-, stopped, -⟩
    · exact none
    · rw [unstopped] at stopped
      cases stopped
  · rcases promised.callbacks with none | ⟨-, -, leaving⟩
    · exact none
    · cases at_ : t.step <;> rw [at_] at resetting leaving <;> cases resetting <;> cases leaving

/-- A step that neither enters the resets nor passes a check backwards. -/
theorem forward {step : RunStep} (clear : step.resetting = false ∧ step.resetsRunning = false)
    (checking : t.step.checking = true → step.checking = true)
    (leaving : t.step.leaving = true → step.leaving = true)
    (once : single = true → step ≠ .testRunning) : Promised single (t.goto step) := by
  refine ⟨fun stopped => ⟨(promised.stop stopped).1, clear.1⟩, ?_,
    fun finished multi => ⟨(promised.finish finished multi).1, clear.2⟩, ?_, once⟩
  · rcases promised.tops with none | ⟨one, stopped, before⟩
    · exact .inl none
    · exact .inr ⟨one, stopped, checking before⟩
  · rcases promised.callbacks with none | ⟨one, finished, before⟩
    · exact .inl none
    · exact .inr ⟨one, finished, leaving before⟩

/-- One reset, and on to the next one or to the top of the loop. -/
theorem reset {r : Reset} (at_ : t.step = .start r ∨ t.step = .again r) {step : RunStep}
    (past : step.resetsRunning = false) (neither : step ≠ .testRunning) :
    Promised single ((t.reset r).goto step) := by
  obtain ⟨unstopped, tops, callbacks⟩ := promised.resets (by rcases at_ with e | e <;> rw [e] <;> rfl)
  have same : ((t.reset r).goto step).stopped = false ∧ ((t.reset r).goto step).tops = 0 ∧
      ((t.reset r).goto step).callbacks = 0 := by
    cases r <;> exact ⟨unstopped, tops, callbacks⟩
  refine ⟨fun stopped => ?_, .inl same.2.1, fun finished multi => ⟨?_, past⟩, .inl same.2.2,
    fun _ => neither⟩
  · rw [same.1] at stopped
    cases stopped
  · have kept : t.finished = true := by cases r <;> exact finished
    obtain ⟨running, clear⟩ := promised.finish kept multi
    cases r with
    | running => rcases at_ with e | e <;> rw [e] at clear <;> cases clear
    | _ => exact running

theorem gotoTop (tops : t.tops = 0) (callbacks : t.callbacks = 0) :
    Promised single t.gotoTop := by
  refine ⟨fun stopped => ⟨(promised.stop stopped).1, rfl⟩, ?_,
    fun finished multi => ⟨(promised.finish finished multi).1, rfl⟩, .inl callbacks,
    fun _ => fun h => nomatch h⟩
  by_cases stopped : t.stopped = true
  · refine .inr ⟨?_, stopped, rfl⟩
    simp only [ChronoTrigger.gotoTop, if_pos stopped, tops]
  · left
    simp only [ChronoTrigger.gotoTop, if_neg stopped, tops]

theorem gotoCallback (unstopped : t.stopped = false) (callbacks : t.callbacks = 0) :
    Promised single t.gotoCallback := by
  refine ⟨fun stopped => ⟨(promised.stop stopped).1, rfl⟩, ?_,
    fun finished multi => ⟨(promised.finish finished multi).1, rfl⟩, ?_, fun _ => fun h => nomatch h⟩
  · rcases promised.tops with none | ⟨-, stopped, -⟩
    · exact .inl none
    · rw [unstopped] at stopped
      cases stopped
  · by_cases finished : t.finished = true
    · refine .inr ⟨?_, finished, rfl⟩
      simp only [ChronoTrigger.gotoCallback, if_pos finished, callbacks]
    · left
      simp only [ChronoTrigger.gotoCallback, if_neg finished, callbacks]

/-- The last reset, and back to the top of the loop. -/
theorem lastReset {r : Reset} (at_ : t.step = .start r ∨ t.step = .again r) :
    Promised single (t.reset r).gotoTop := by
  have reached := promised.reset at_ (rfl : RunStep.top.resetsRunning = false) (fun h => nomatch h)
  obtain ⟨unstopped, -, -⟩ := promised.resets (by rcases at_ with e | e <;> rw [e] <;> rfl)
  have same : (t.reset r).gotoTop = (t.reset r).goto .top := by
    have kept : (t.reset r).stopped = false := by cases r <;> exact unstopped
    simp only [ChronoTrigger.gotoTop, goto, kept, Bool.false_eq_true, if_false]
  rw [same]
  exact reached

theorem enterAgain (unstopped : t.stopped = false) (unfinished : single = false → t.finished = false)
    (at_ : t.step = .testRestarting) : Promised single (t.goto (.again .running)) := by
  refine ⟨fun stopped => ?_, ?_, fun finished multi => ?_, ?_, fun _ => fun h => nomatch h⟩
  · exact absurd (unstopped.symm.trans stopped) (by decide)
  · rcases promised.tops with none | ⟨-, stopped, -⟩
    · exact .inl none
    · exact absurd (unstopped.symm.trans stopped) (by decide)
  · exact absurd ((unfinished multi).symm.trans finished) (by decide)
  · rcases promised.callbacks with none | ⟨-, -, leaving⟩
    · exact .inl none
    · rw [at_] at leaving
      cases leaving

/-- A step of the thread that keeps clear of its restart branch after a request. -/
theorem run {u : ChronoTrigger} (timely : t.Timely single .run)
    (stepped : t.runStep single = some u) : Promised single u := by
  have idle : t.step.leaving = false → t.callbacks = 0 := fun inside => by
    rcases promised.callbacks with none | ⟨-, -, leaving⟩
    · exact none
    · exact absurd (inside.symm.trans leaving) (by decide)
  have early : t.step.checking = false → t.tops = 0 := fun outside => by
    rcases promised.tops with none | ⟨-, -, checking⟩
    · exact none
    · exact absurd (outside.symm.trans checking) (by decide)
  cases runStep_ran stepped with
  | @resets r r' at_ next =>
    refine promised.reset (.inl at_) ?_ (fun h => nomatch h)
    cases r <;> cases next <;> rfl
  | @resetsAgain r r' at_ next =>
    refine promised.reset (.inr at_) ?_ (fun h => nomatch h)
    cases r <;> cases next <;> rfl
  | lastReset at_ => exact promised.lastReset at_
  | waits at_ =>
    exact promised.forward (by decide) (fun _ => rfl) (by rw [at_]; decide) (fun _ h => nomatch h)
  | signaled at_ =>
    exact promised.forward (by decide) (fun _ => rfl) (by rw [at_]; decide) (fun _ h => nomatch h)
  | spurious at_ =>
    exact promised.forward (by decide) (fun _ => rfl) (by rw [at_]; decide) (fun _ h => nomatch h)
  | clears at_ =>
    exact (promised.withSignaled false).forward (by decide) (fun _ => rfl)
      (by simp only [at_]; decide) (fun _ h => nomatch h)
  | restarts at_ restarting =>
    obtain ⟨unstopped, unfinished⟩ := timely at_ restarting
    exact promised.enterAgain unstopped unfinished at_
  | elapses at_ =>
    exact promised.forward (by decide) (fun _ => rfl) (by rw [at_]; decide) (fun _ h => nomatch h)
  | stops at_ =>
    exact promised.forward (by decide) (fun _ => rfl) (fun _ => rfl) (fun _ h => nomatch h)
  | calls at_ going =>
    apply promised.gotoCallback
    · by_contra stopped
      have stopping := (promised.stop (eq_true_of_ne_false stopped)).1
      exact absurd (going.symm.trans stopping) (by decide)
    · exact idle (by rw [at_]; rfl)
  | returns at_ =>
    exact promised.forward (by decide) (by rw [at_]; decide) (fun _ => rfl) (fun _ h => nomatch h)
  | once at_ =>
    exact promised.forward (by decide) (fun _ => rfl) (fun _ => rfl) (fun _ h => nomatch h)
  | periodic at_ multi =>
    apply promised.forward (by decide) (by rw [at_]; decide) (fun _ => rfl)
    intro once
    exact absurd (multi.symm.trans once) (by decide)
  | repeats at_ running =>
    apply promised.gotoTop (early (by rw [at_]; rfl))
    have multi : single = false := by
      by_contra once
      exact promised.single (eq_true_of_ne_false once) at_
    -- with the flag up, no `finish()` has landed, and so no callback counts
    rcases promised.callbacks with none | ⟨-, finished, -⟩
    · exact none
    · exact absurd ((promised.finish finished multi).1.symm.trans running) (by decide)
  | finishes at_ =>
    exact promised.forward (by decide) (fun _ => rfl) (fun _ => rfl) (fun _ h => nomatch h)

/-- The wait ends, by a notification or by the clock. -/
theorem leaveWait {step : RunStep} {u : ChronoTrigger}
    (stepped : (if t.step = .wait then some (t.goto step) else none) = some u)
    (clear : step.resetting = false ∧ step.resetsRunning = false)
    (checking : step.checking = true ∧ step ≠ .testRunning) : Promised single u := by
  obtain ⟨waiting, rfl⟩ := wait_left stepped
  have staying : t.step.leaving = false := by rw [waiting]; rfl
  exact promised.forward clear (fun _ => checking.1)
    (fun leaving => absurd (staying.symm.trans leaving) (by decide)) (fun _ => checking.2)

theorem act {u : ChronoTrigger} {a : Action} (timely : t.Timely single a)
    (stepped : t.act single a = some u) : Promised single u := by
  cases a with
  | run => exact promised.run timely stepped
  | wake => exact promised.leaveWait stepped (by decide) (by decide)
  | expire => exact promised.leaveWait stepped (by decide) (by decide)
  | proceed call => exact promised.proceed timely stepped
  | _ =>
    cases stepped
    exact promised.withCalls _

end Promised

/-- In every run whose requests are timely, none of them is lost. -/
theorem requests_honoured {single running restarting signaled stopping : Bool} {t : ChronoTrigger}
    (run : Run (fun t a => t.act single a) (Timely single)
      (start running restarting signaled stopping) t) : t.Honoured := by
  apply Promised.honoured
  apply run.invariant
  · exact promised_start single running restarting signaled stopping
  · intro t a u promised timely stepped
    exact promised.act timely stepped

/-- A `stop()` that meets the thread in its wait. -/
theorem requests_honoured_stop : ∃ t : ChronoTrigger, t.stopped = true ∧ t.Honoured := by
  have replayed : ∃ t, replay (guarded (fun t a => act false t a) (Timely false))
      (start false false false false)
      [.run, .run, .run, .run, .run, .stop, .proceed 0, .proceed 0, .proceed 0, .wake, .run, .run,
        .run, .run] = some t ∧ t.stopped = true := by
    refine ⟨_, rfl, ?_⟩
    decide
  obtain ⟨t, replayed, stopped⟩ := replayed
  exact ⟨t, stopped, requests_honoured (run_of_replay replayed)⟩

/-- `restart()`, as `sendMessage` calls it, and then `stop()`, as `disconnect` does: the
restart branch clears the stop flag, and the join waits on a timer that goes on. -/
theorem restart_swallows_stop :
    ∃ t, replay (fun t a => act false t a) (start false false false false)
      [.run, .run, .run, .run, .run, .restart, .proceed 0, .proceed 0, .proceed 0, .stop,
        .proceed 0, .proceed 0, .proceed 0, .wake, .run, .run, .run, .run, .run, .run, .run, .run,
        .expire, .run, .run] = some t ∧
      t.stopped = true ∧ t.calls = [.stopJoin] ∧ t.stopping = false ∧ t.step = .callback := by
  refine ⟨_, rfl, ?_⟩
  decide

end ChronoTrigger
end NymphMqtt
