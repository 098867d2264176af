import NymphMqtt.Library.Splice
import NymphMqtt.TimerClock

/-! When the pings of a client go out that sends nothing else. -/

namespace NymphMqtt
open NymphMqtt.Library Splice Transition

namespace TimedTrigger
open ChronoTrigger
variable {interval : Nat} {single : Bool} {w x : TimedTrigger} {e : Event}

/-! ### The requests of the callback -/

/-- The callback makes the only requests, at most one `restart()` each, as `pingreqHandler` does
when its message is sent; and no wait ends spuriously. -/
def Pinging (w : TimedTrigger) : Event → Prop
  | .act .restart => w.timer.step = .callback ∧ w.timer.calls = [] ∧ w.timer.restarting = false
  | .act .finish | .act .stop | .act .wake => False
  | .act .run => w.timer.calls = []
  | _ => True

instance (w : TimedTrigger) : (e : Event) → Decidable (w.Pinging e)
  | .act .restart => inferInstanceAs (Decidable (_ ∧ _ ∧ _))
  | .act .run => inferInstanceAs (Decidable (_ = _))
  | .act .finish | .act .stop | .act .wake => instDecidableFalse
  | .tick | .act .expire | .act (.proceed _) => instDecidableTrue

/-- The calls in progress are those of the callback. -/
def Own (t : ChronoTrigger) : Prop :=
  t.calls = [] ∨ t.step = .callback ∧
    (t.calls = [.restartRestarting] ∧ t.restarting = false ∨
      t.restarting = true ∧ (t.calls = [.restartSignaled] ∨ t.calls = [.restartNotify]))

/-- The time of all periods that are over, as the callbacks and their restarts tell it, but for the
period that a restart has still to take. -/
def OnTime (interval : Nat) (w : TimedTrigger) : Prop :=
  let spent := (w.called.length + w.restarts) * interval + w.lost
  let owed := if w.timer.restarting then interval else 0
  match w.timer.step with
  | .start .stopping | .again .stopping | .top | .callback | .testSingle | .testRunning =>
      w.now + owed = spent
  | .start _ => w.now = w.lost ∧ w.called = [] ∧ w.restarts = 0
  | .wait => max w.now w.endTime + owed = spent + interval
  | .testRestarting => w.now + owed = spent + interval
  | .again _ => w.now = spent ∧ w.timer.restarting = true
  | .testStopping => w.now = spent + interval ∧ w.timer.restarting = false
  | .testSignaled | .clearSignaled => False
  | .ended => True

structure Paced (interval : Nat) (w : TimedTrigger) : Prop where
  own : Own w.timer
  onTime : w.OnTime interval
  restarts : w.restarts + (if w.timer.step = .callback ∧ w.timer.restarting = false then 1 else 0) ≤
    w.called.length
  called : ∀ (k : Nat) c, w.called[k]? = some c →
    c.time = (k + 1 + c.restarts) * interval + c.lost ∧ c.restarts ≤ k

theorem paced_start (interval : Nat) (running restarting signaled stopping : Bool) :
    Paced interval (start running restarting signaled stopping) where
  own := .inl rfl
  onTime := ⟨rfl, rfl, rfl⟩
  restarts := Nat.le_refl 0
  called k c known := by cases known

theorem Paced.tick (paced : Paced interval w) : Paced interval { w with
    now := w.now + 1
    lost := if w.timer.step = .wait ∧ w.now < w.endTime then w.lost else w.lost + 1 } := by
  refine ⟨paced.own, ?_, paced.restarts, paced.called⟩
  have before := paced.onTime
  unfold OnTime at before ⊢
  dsimp only at before ⊢
  cases at_ : w.timer.step with
  | wait =>
    rw [at_] at before
    by_cases early : w.now < w.endTime
    · simp only [early, and_self, if_true] at before ⊢
      omega
    · simp only [early, and_false, if_false] at before ⊢
      omega
  | start r =>
    rw [at_] at before
    simp only [reduceCtorEq, false_and, if_false]
    cases r with
    | stopping => exact (Nat.add_right_comm _ _ _).trans (congrArg Nat.succ before)
    | _ => exact ⟨congrArg Nat.succ before.1, before.2⟩
  | again r =>
    rw [at_] at before
    simp only [reduceCtorEq, false_and, if_false]
    cases r with
    | stopping => exact (Nat.add_right_comm _ _ _).trans (congrArg Nat.succ before)
    | _ => exact ⟨congrArg Nat.succ before.1, before.2⟩
  | testStopping =>
    rw [at_] at before
    simp only [reduceCtorEq, false_and, if_false]
    exact ⟨by omega, before.2⟩
  | testSignaled =>
    rw [at_] at before
    exact before
  | clearSignaled =>
    rw [at_] at before
    exact before
  | ended => trivial
  | _ =>
    rw [at_] at before
    simp only [reduceCtorEq, false_and, if_false] at before ⊢
    omega

/-- The thread itself asks for no restart. -/
theorem restartsAt_run {t : ChronoTrigger} (acted : w.timer.runStep single = some t) :
    w.restartsAt t = w.restarts := by
  have unset : t.restarting = true → w.timer.restarting = true := by
    intro set
    cases runStep_ran acted with
    | @resets r r' at_ next => cases r <;> first | exact set | cases set
    | @resetsAgain r r' at_ next => cases r <;> first | exact set | cases set
    | _ => exact set
  unfold restartsAt
  cases set : t.restarting with
  | false => rfl
  | true =>
    rw [unset set]
    rfl

theorem OnTime.run {t : ChronoTrigger} (onTime : w.OnTime interval)
    (acted : w.timer.runStep single = some t) (begins : ¬(w.timer.step = .top ∧ t.step = .wait))
    (calls : ¬(w.timer.step ≠ .callback ∧ t.step = .callback)) :
    OnTime interval { w with timer := t } := by
  unfold OnTime at onTime
  dsimp only at onTime
  cases runStep_ran acted with
  | @resets r r' at_ next =>
    rw [at_] at onTime
    cases r with
    | stopping => cases next
    | restarting =>
      cases next
      obtain ⟨now, called, restarts⟩ := onTime
      change w.now + 0 = (w.called.length + w.restarts) * interval + w.lost
      rw [called, restarts, now]
      simp
    | _ =>
      cases next
      exact onTime
  | @resetsAgain r r' at_ next =>
    rw [at_] at onTime
    cases r with
    | stopping => cases next
    | restarting =>
      cases next
      exact onTime.1
    | _ =>
      cases next
      exact onTime
  | lastReset at_ =>
    rcases at_ with at_ | at_
    · rw [at_] at onTime
      exact onTime
    · rw [at_] at onTime
      exact onTime
  | waits at_ => exact absurd ⟨at_, rfl⟩ begins
  | signaled at_ =>
    rw [at_] at onTime
    exact onTime.elim
  | spurious at_ =>
    rw [at_] at onTime
    exact onTime.elim
  | clears at_ =>
    rw [at_] at onTime
    exact onTime.elim
  | restarts at_ restarting =>
    rw [at_, restarting] at onTime
    exact ⟨Nat.add_right_cancel onTime, restarting⟩
  | elapses at_ quiet =>
    rw [at_, quiet] at onTime
    exact ⟨onTime, quiet⟩
  | calls at_ => exact absurd ⟨by rw [at_]; nofun, rfl⟩ calls
  | returns at_ =>
    rw [at_] at onTime
    exact onTime
  | periodic at_ =>
    rw [at_] at onTime
    exact onTime
  | repeats at_ =>
    rw [at_] at onTime
    exact onTime
  | _ => trivial

theorem runStep_calls {t u : ChronoTrigger} (acted : t.runStep single = some u) :
    u.calls = t.calls := by
  cases runStep_ran acted with
  | @resets r r' at_ next => cases r <;> rfl
  | @resetsAgain r r' at_ next => cases r <;> rfl
  | _ => rfl

namespace Paced

theorem bound (paced : Paced interval w) : w.restarts ≤ w.called.length :=
  Nat.le_of_add_right_le paced.restarts

theorem run {t : ChronoTrigger} (paced : Paced interval w) (idle : w.timer.calls = [])
    (acted : w.timer.runStep single = some t) (begins : ¬(w.timer.step = .top ∧ t.step = .wait))
    (calls : ¬(w.timer.step ≠ .callback ∧ t.step = .callback)) :
    Paced interval { w with timer := t, restarts := w.restartsAt t } := by
  rw [restartsAt_run acted]
  refine ⟨.inl ((runStep_calls acted).trans idle), paced.onTime.run acted begins calls, ?_, paced.called⟩
  have outside : t.step ≠ .callback := by
    intro inside
    have before : w.timer.step = .callback := by
      by_contra away
      exact calls ⟨away, inside⟩
    rw [runStep, before] at acted
    obtain rfl := Option.some_inj.mp acted
    cases inside
  change w.restarts + (if t.step = .callback ∧ _ then 1 else 0) ≤ _
  rw [if_neg fun both => outside both.1]
  exact paced.bound

theorem onTime_callback (inside : w.timer.step = .callback) : w.OnTime interval ↔
    w.now + (if w.timer.restarting then interval else 0) =
      (w.called.length + w.restarts) * interval + w.lost := by
  unfold OnTime
  rw [inside]

theorem singleton_cases {x y : CallStep} {i : Nat} (known : [x][i]? = some y) : i = 0 ∧ x = y := by
  cases i with
  | zero => exact ⟨rfl, Option.some_inj.mp known⟩
  | succ i => cases known

/-- The first store is what counts as a restart. -/
theorem restarts_once {t : ChronoTrigger} (paced : Paced interval w) (inside : w.timer.step = .callback)
    (quiet : w.timer.restarting = false) (step : t.step = w.timer.step)
    (restarting : t.restarting = true) (calls : t.calls = [.restartSignaled]) :
    Paced interval { w with timer := t, restarts := w.restartsAt t } := by
  have counted : w.restartsAt t = w.restarts + 1 := by
    rw [restartsAt, quiet, restarting]
    rfl
  have there : t.step = .callback := step.trans inside
  have onTime := (onTime_callback inside).mp paced.onTime
  have restarts := paced.restarts
  rw [if_pos ⟨inside, quiet⟩] at restarts
  rw [counted]
  refine ⟨.inr ⟨there, .inr ⟨restarting, .inl calls⟩⟩, (onTime_callback there).mpr ?_, ?_, paced.called⟩
  · rw [quiet, if_neg Bool.false_ne_true] at onTime
    dsimp only
    rw [restarting, if_pos rfl, ← Nat.add_assoc, Nat.succ_mul]
    omega
  · rw [if_neg fun both => absurd (restarting.symm.trans both.2) (by decide)]
    exact restarts

/-- Behind the first store nothing is counted any more. -/
theorem goesOn {t : ChronoTrigger} (paced : Paced interval w) (inside : w.timer.step = .callback)
    (set : w.timer.restarting = true) (step : t.step = w.timer.step)
    (restarting : t.restarting = true)
    (calls : t.calls = [] ∨ t.calls = [.restartSignaled] ∨ t.calls = [.restartNotify]) :
    Paced interval { w with timer := t, restarts := w.restartsAt t } := by
  have counted : w.restartsAt t = w.restarts := by
    rw [restartsAt, set, restarting]
    rfl
  have there : t.step = .callback := step.trans inside
  have onTime := (onTime_callback inside).mp paced.onTime
  rw [counted]
  refine ⟨?_, (onTime_callback there).mpr ?_, ?_, paced.called⟩
  · exact calls.imp_right fun later => ⟨there, .inr ⟨restarting, later⟩⟩
  · rw [set] at onTime
    rw [restarting]
    exact onTime
  · rw [if_neg fun both => absurd (restarting.symm.trans both.2) (by decide)]
    exact paced.bound

/-- The request that the callback makes, one store after the other. -/
theorem proceed {t : ChronoTrigger} {i : Nat} (paced : Paced interval w)
    (acted : w.timer.proceed i = some t) :
    Paced interval { w with timer := t, restarts := w.restartsAt t } := by
  obtain ⟨call, next, v, current, called, -, rfl⟩ := proceed_spec acted
  rcases paced.own with idle | ⟨inside, ⟨first, quiet⟩ | ⟨set, second | last⟩⟩
  · rw [idle] at current
    cases current
  · rw [first] at current ⊢
    obtain ⟨rfl, rfl⟩ := singleton_cases current
    cases called
    exact paced.restarts_once inside quiet rfl rfl rfl
  · rw [second] at current ⊢
    obtain ⟨rfl, rfl⟩ := singleton_cases current
    cases called
    exact paced.goesOn inside set rfl set (.inr (.inr rfl))
  · rw [last] at current ⊢
    obtain ⟨rfl, rfl⟩ := singleton_cases current
    cases called
    exact paced.goesOn inside set rfl set (.inl rfl)

theorem moves {t : ChronoTrigger} {a : Action} (paced : Paced interval w)
    (pinging : w.Pinging (.act a)) (acted : w.timer.act single a = some t)
    (expires : a = .expire → w.endTime ≤ w.now) (begins : ¬(w.timer.step = .top ∧ t.step = .wait))
    (calls : ¬(w.timer.step ≠ .callback ∧ t.step = .callback)) :
    Paced interval { w with timer := t, restarts := w.restartsAt t } := by
  have same : ∀ u : ChronoTrigger, u.restarting = w.timer.restarting → w.restartsAt u = w.restarts := by
    intro u unset
    rw [restartsAt, unset, Bool.and_not_self]
    rfl
  cases a with
  | run => exact paced.run pinging acted begins calls
  | proceed i => exact paced.proceed acted
  | expire =>
    obtain ⟨waiting, rfl⟩ := wait_left acted
    have idle : w.timer.calls = [] :=
      paced.own.resolve_right fun either => nomatch waiting.symm.trans either.1
    have onTime := paced.onTime
    unfold OnTime at onTime
    rw [waiting] at onTime
    dsimp only at onTime
    rw [Nat.max_eq_left (expires rfl)] at onTime
    rw [same (w.timer.goto .testRestarting) rfl]
    exact ⟨.inl idle, onTime, paced.bound, paced.called⟩
  | restart =>
    obtain ⟨inside, idle, quiet⟩ := pinging
    have made : { w.timer with calls := w.timer.calls ++ [.restartRestarting] } = t :=
      Option.some_inj.mp acted
    rw [same t (by rw [← made]), ← made]
    refine ⟨.inr ⟨inside, .inl ⟨?_, quiet⟩⟩, paced.onTime, paced.restarts, paced.called⟩
    rw [idle]
    rfl
  | wake => exact pinging.elim
  | finish => exact pinging.elim
  | stop => exact pinging.elim

theorem step (paced : Paced interval w) (pinging : w.Pinging e)
    (stepped : step interval single w e = some x) : Paced interval x := by
  have onTime := paced.onTime
  unfold OnTime at onTime
  cases step_stepped stepped with
  | tick => exact paced.tick
  | waits at_ =>
    rw [at_] at onTime
    refine ⟨.inl pinging, ?_, paced.bound, paced.called⟩
    change max w.now (w.now + interval) + _ = _
    rw [Nat.max_eq_right (Nat.le_add_right _ _), Nat.add_right_comm]
    exact congrArg (· + interval) onTime
  | calls at_ going =>
    rw [at_] at onTime
    obtain ⟨now, quiet⟩ := onTime
    have spent : w.now = (w.called.length + 1 + w.restarts) * interval + w.lost := by
      rw [now, Nat.add_right_comm w.called.length, Nat.succ_mul]
      omega
    refine ⟨.inl pinging, (onTime_callback rfl).mpr ?_, ?_, ?_⟩
    · change w.now + (if w.timer.restarting then interval else 0) = _
      rw [quiet, List.length_append]
      exact spent
    · rw [if_pos ⟨rfl, quiet⟩, List.length_append]
      exact Nat.succ_le_succ paced.bound
    · intro k c known
      rcases concat_cases known with before | ⟨rfl, rfl⟩
      · exact paced.called k c before
      · exact ⟨spent, paced.bound⟩
  | moves acted expires begins calls => exact paced.moves pinging acted expires begins calls

end Paced

end TimedTrigger
end NymphMqtt
