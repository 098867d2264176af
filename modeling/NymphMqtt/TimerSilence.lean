import NymphMqtt.PingPeriods

/-! How long a timer can be silent that nobody ends: what its callbacks and the restarts leave of the
time. -/

namespace NymphMqtt
open NymphMqtt.Library Transition

def CallStep.ofRestart : CallStep → Bool
  | .restartRestarting | .restartSignaled | .restartNotify => true
  | _ => false

namespace ChronoTrigger

/-- The flags of a timer that nobody told to end, and of its thread. -/
structure Going (t : ChronoTrigger) : Prop where
  calls : ∀ call ∈ t.calls, call.ofRestart = true
  running : t.step ≠ .start .running → t.running = true
  stopping : (∀ r, t.step ≠ .start r) → t.stopping = false
  thread : t.step ≠ .ended

theorem going_start (running restarting signaled stopping : Bool) :
    Going (start running restarting signaled stopping) where
  calls _ member := absurd member List.not_mem_nil
  running away := absurd rfl away
  stopping away := absurd rfl (away .running)
  thread := nofun

section
variable {single : Bool} {t u : ChronoTrigger}

/-- A step of the thread that stores nothing. -/
theorem Going.goto (going : t.Going) {step : RunStep} (away : ∀ r, t.step ≠ .start r)
    (thread : step ≠ .ended) : (t.goto step).Going :=
  ⟨going.calls, fun _ => going.running (away .running), fun _ => going.stopping away, thread⟩

theorem Going.run (going : t.Going) (acted : t.runStep false = some u) : u.Going := by
  have calls : ∀ call ∈ u.calls, call.ofRestart = true := by
    rw [TimedTrigger.runStep_calls acted]
    exact going.calls
  cases runStep_ran acted with
  | @resets r r' at_ next =>
    refine ⟨calls, fun _ => ?_, fun away => absurd rfl (away r'), nofun⟩
    cases r with
    | running => rfl
    | _ => exact going.running (by rw [at_]; nofun)
  | @resetsAgain r r' at_ next =>
    have running := going.running (by rw [at_]; nofun)
    have stopping := going.stopping (by rw [at_]; nofun)
    cases r with
    | running => exact ⟨calls, fun _ => rfl, fun _ => stopping, nofun⟩
    | stopping => exact ⟨calls, fun _ => running, fun _ => rfl, nofun⟩
    | _ => exact ⟨calls, fun _ => running, fun _ => stopping, nofun⟩
  | lastReset at_ =>
    refine ⟨calls, fun _ => going.running ?_, fun _ => rfl, nofun⟩
    rcases at_ with at_ | at_
    · rw [at_]
      nofun
    · rw [at_]
      nofun
  | stops at_ stopping =>
    have never := going.stopping (by rw [at_]; nofun)
    rw [stopping] at never
    cases never
  | once _ once => cases once
  | finishes at_ gone =>
    have never := going.running (by rw [at_]; nofun)
    rw [gone] at never
    cases never
  | clears at_ =>
    exact ⟨calls, fun _ => going.running (by rw [at_]; nofun),
      fun _ => going.stopping (by rw [at_]; nofun), nofun⟩
  | calls at_ =>
    exact ⟨calls, fun _ => going.running (by rw [at_]; nofun),
      fun _ => going.stopping (by rw [at_]; nofun), nofun⟩
  | repeats at_ =>
    exact ⟨calls, fun _ => going.running (by rw [at_]; nofun),
      fun _ => going.stopping (by rw [at_]; nofun), nofun⟩
  | _ at_ => exact going.goto (by rw [at_]; nofun) (by nofun)

/-- The calls of `restart()` store nothing but what they ask for. -/
theorem Going.proceed {i : Nat} (going : t.Going) (acted : t.proceed i = some u) : u.Going := by
  obtain ⟨call, next, v, current, called, -, rfl⟩ := proceed_spec acted
  have own := going.calls call (List.mem_of_getElem? current)
  have others : ∀ other ∈ callsAfter t.calls i next, next = some other ∨ other.ofRestart = true :=
    fun other member => (mem_callsAfter member).symm.imp_right (going.calls other)
  cases call with
  | restartRestarting =>
    cases called
    exact ⟨fun other member => (others other member).elim (fun same => by cases same; rfl) id,
      going.running, going.stopping, going.thread⟩
  | restartSignaled =>
    cases called
    exact ⟨fun other member => (others other member).elim (fun same => by cases same; rfl) id,
      going.running, going.stopping, going.thread⟩
  | restartNotify =>
    cases called
    exact ⟨fun other member => (others other member).elim (fun same => by cases same) id,
      going.running, going.stopping, going.thread⟩
  | _ => cases own

end
end ChronoTrigger

namespace TimedTrigger
open ChronoTrigger
variable {interval : Nat} {single : Bool} {w x : TimedTrigger} {e : Event}

/-- Nobody calls `finish()` or `stop()`. -/
def Unended (_ : TimedTrigger) : Event → Prop
  | .act .finish | .act .stop => False
  | _ => True

instance (w : TimedTrigger) : (e : Event) → Decidable (w.Unended e)
  | .act .finish | .act .stop => instDecidableFalse
  | .tick | .act .run | .act .wake | .act .expire | .act .restart | .act (.proceed _) =>
    instDecidableTrue

theorem going_moves {t u : ChronoTrigger} {a : Action} (going : t.Going)
    (unended : w.Unended (.act a)) (acted : t.act false a = some u) : u.Going := by
  cases a with
  | run => exact going.run acted
  | wake =>
    obtain ⟨waiting, rfl⟩ := wait_left acted
    exact going.goto (by rw [waiting]; nofun) nofun
  | expire =>
    obtain ⟨waiting, rfl⟩ := wait_left acted
    exact going.goto (by rw [waiting]; nofun) nofun
  | restart =>
    cases acted
    refine ⟨fun call member => ?_, going.running, going.stopping, going.thread⟩
    rcases List.mem_append.mp member with before | new
    · exact going.calls call before
    · rw [List.mem_singleton.mp new]
      rfl
  | proceed i => exact going.proceed acted
  | finish => exact unended.elim
  | stop => exact unended.elim

/-! ### What is left of a period -/

/-- The time that the thread may still wait until it calls back, if no restart comes. -/
def left (interval : Nat) (w : TimedTrigger) : Nat :=
  let owed := if w.timer.restarting then interval else 0
  match w.timer.step with
  | .start .stopping | .again .stopping | .top | .callback | .testSingle | .testRunning =>
      interval + owed
  | .start _ | .again _ => interval
  | .wait | .testSignaled | .clearSignaled => (w.endTime - w.now) + owed
  | .testRestarting | .testStopping => owed
  | .ended => 0

/-- Time that goes by is used up in a wait or lost to the thread, but for what a callback and a
restart give. -/
def Spends (interval : Nat) (w x : TimedTrigger) : Prop :=
  x.now + w.lost + x.left interval + (w.called.length + w.restarts) * interval ≤
    w.now + x.lost + w.left interval + (x.called.length + x.restarts) * interval

theorem Spends.refl (w : TimedTrigger) : Spends interval w w := Nat.le_refl _

theorem Spends.trans {y : TimedTrigger} (front : Spends interval w x) (back : Spends interval x y) :
    Spends interval w y := by
  unfold Spends at *
  omega

theorem spends_tick : Spends interval w { w with
    now := w.now + 1
    lost := if w.timer.step = .wait ∧ w.now < w.endTime then w.lost else w.lost + 1 } := by
  unfold Spends left
  dsimp only
  cases at_ : w.timer.step with
  | wait =>
    by_cases early : w.now < w.endTime
    · simp only [early, and_self, if_true]
      omega
    · simp only [early, and_false, if_false]
      omega
  | start r => cases r <;> simp only [reduceCtorEq, false_and, if_false] <;> omega
  | again r => cases r <;> simp only [reduceCtorEq, false_and, if_false] <;> omega
  | _ =>
    simp only [reduceCtorEq, false_and, if_false]
    omega

/-- Where the clock and the callbacks stay, it is a matter of what is left. -/
theorem spends_of_left {t : ChronoTrigger} {restarts : Nat}
    (less : left interval { w with timer := t } + w.restarts * interval ≤
      w.left interval + restarts * interval) :
    Spends interval w { w with timer := t, restarts := restarts } := by
  have same : left interval { w with timer := t, restarts := restarts } =
      left interval { w with timer := t } := rfl
  unfold Spends
  rw [same, Nat.add_mul, Nat.add_mul]
  dsimp only
  omega

theorem left_run {t : ChronoTrigger} (acted : w.timer.runStep single = some t)
    (begins : ¬(w.timer.step = .top ∧ t.step = .wait))
    (calls : ¬(w.timer.step ≠ .callback ∧ t.step = .callback)) :
    left interval { w with timer := t } ≤ w.left interval := by
  unfold left
  cases runStep_ran acted with
  | @resets r r' at_ next =>
    rw [at_]
    cases r <;> cases next <;> exact Nat.le_refl _
  | @resetsAgain r r' at_ next =>
    rw [at_]
    cases r <;> cases next <;> exact Nat.le_refl _
  | lastReset at_ =>
    rcases at_ with at_ | at_
    · rw [at_]
      exact Nat.le_refl _
    · rw [at_]
      exact Nat.le_refl _
  | waits at_ => exact absurd ⟨at_, rfl⟩ begins
  | clears at_ =>
    rw [at_]
    exact Nat.le_add_left _ _
  | restarts at_ restarting =>
    rw [at_, restarting]
    exact Nat.le_refl _
  | calls at_ => exact absurd ⟨by rw [at_]; nofun, rfl⟩ calls
  | stops at_ => exact Nat.zero_le _
  | once at_ => exact Nat.zero_le _
  | finishes at_ => exact Nat.zero_le _
  | _ at_ =>
    rw [at_]
    exact Nat.le_refl _

/-- A request leaves the thread where it is; if it is the first to ask for a restart, that may cost
another period. -/
theorem left_request {t : ChronoTrigger} {a : Action} (requests : a.requests = true)
    (acted : w.timer.act single a = some t) :
    left interval { w with timer := t } + w.restarts * interval ≤
      w.left interval + w.restartsAt t * interval := by
  obtain ⟨step, kept, -⟩ := request_kept requests acted
  unfold left restartsAt
  dsimp only
  rw [step]
  cases before : w.timer.restarting with
  | true =>
    rw [kept before]
    exact Nat.le_refl _
  | false =>
    cases t.restarting with
    | false => exact Nat.le_refl _
    | true =>
      simp only [if_true, Bool.false_eq_true, if_false, Bool.not_false, Bool.and_true, Nat.succ_mul]
      cases w.timer.step with
      | start r => cases r <;> dsimp only <;> omega
      | again r => cases r <;> dsimp only <;> omega
      | _ =>
        dsimp only
        omega

theorem spends_moves {t : ChronoTrigger} {a : Action} (acted : w.timer.act single a = some t)
    (begins : ¬(w.timer.step = .top ∧ t.step = .wait))
    (calls : ¬(w.timer.step ≠ .callback ∧ t.step = .callback)) :
    Spends interval w { w with timer := t, restarts := w.restartsAt t } := by
  apply spends_of_left
  by_cases requests : a.requests = true
  · exact left_request requests acted
  · cases a with
    | run =>
      rw [restartsAt_run acted]
      exact Nat.add_le_add_right (left_run acted begins calls) _
    | wake =>
      obtain ⟨waiting, rfl⟩ := wait_left acted
      have same : w.restartsAt (w.timer.goto .testSignaled) = w.restarts := by
        simp only [restartsAt, goto, Bool.and_not_self, Bool.false_eq_true, if_false]
      rw [same, left, left, waiting]
      exact Nat.le_refl _
    | expire =>
      obtain ⟨waiting, rfl⟩ := wait_left acted
      have same : w.restartsAt (w.timer.goto .testRestarting) = w.restarts := by
        simp only [restartsAt, goto, Bool.and_not_self, Bool.false_eq_true, if_false]
      rw [same, left, left, waiting]
      exact Nat.add_le_add_right (Nat.le_add_left _ _) _
    | _ => exact absurd rfl requests

theorem spends_step (stepped : step interval single w e = some x) : Spends interval w x := by
  cases step_stepped stepped with
  | tick => exact spends_tick
  | waits at_ =>
    have before : w.left interval = interval + if w.timer.restarting then interval else 0 := by
      rw [left, at_]
    have after : left interval { w with timer := w.timer.goto .wait, endTime := w.now + interval } =
        w.now + interval - w.now + if w.timer.restarting then interval else 0 := rfl
    refine Nat.le_of_eq ?_
    rw [before, after, Nat.add_sub_cancel_left]
  | calls at_ =>
    have before : w.left interval = if w.timer.restarting then interval else 0 := by
      rw [left, at_]
    have after : ∀ called, left interval { w with timer := w.timer.gotoCallback, called := called } =
        interval + if w.timer.restarting then interval else 0 := fun _ => rfl
    unfold Spends
    rw [before, after, List.length_append, List.length_singleton, Nat.add_right_comm w.called.length,
      Nat.succ_mul]
    dsimp only
    omega
  | moves acted _ begins calls => exact spends_moves acted begins calls

/-! ### Runs -/

/-- The thread is there, and its end time is no more than an interval away. -/
structure Alive (interval : Nat) (w : TimedTrigger) : Prop where
  going : w.timer.Going
  near : w.timer.step.timed = true → w.endTime ≤ w.now + interval

theorem Alive.step (alive : Alive interval w) (unended : w.Unended e)
    (stepped : step interval false w e = some x) : Alive interval x := by
  cases step_stepped stepped with
  | tick => exact ⟨alive.going, fun timed => by have near := alive.near timed; dsimp only; omega⟩
  | waits at_ =>
    have begun : ∀ r, w.timer.step ≠ .start r := by
      rw [at_]
      intro r same
      cases same
    exact ⟨alive.going.goto begun (by intro same; cases same), fun _ => Nat.le_refl _⟩
  | calls at_ quiet =>
    have acted : w.timer.runStep false = some w.timer.gotoCallback := by
      rw [runStep, at_]
      exact congrArg some (if_neg (by rw [quiet]; decide))
    exact ⟨alive.going.run acted, by intro timed; cases timed⟩
  | moves acted _ begins calls =>
    exact ⟨going_moves alive.going unended acted, fun timed => alive.near (timed_before acted begins timed)⟩

theorem Alive.left (alive : Alive interval w) :
    w.left interval ≤ (if w.timer.restarting then 2 else 1) * interval := by
  have owed : interval + (if w.timer.restarting then interval else 0) =
      (if w.timer.restarting then 2 else 1) * interval := by
    split <;> omega
  have near := alive.near
  unfold TimedTrigger.left
  dsimp only
  rw [← owed]
  cases at_ : w.timer.step with
  | start r => cases r <;> dsimp only <;> omega
  | again r => cases r <;> dsimp only <;> omega
  | wait =>
    rw [at_] at near
    have near := near rfl
    dsimp only
    omega
  | testSignaled =>
    rw [at_] at near
    have near := near rfl
    dsimp only
    omega
  | clearSignaled =>
    rw [at_] at near
    have near := near rfl
    dsimp only
    omega
  | _ =>
    dsimp only
    omega

end TimedTrigger
end NymphMqtt
