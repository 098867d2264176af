import NymphMqtt.DispatcherShutdown
import Mathlib.Algebra.Order.BigOperators.Group.List
import Mathlib.Algebra.Order.Group.Nat
import Mathlib.Algebra.Group.Action.Defs

/-! How `Dispatcher::stop` comes to its return: the steps that the call and the workers have left. -/

namespace NymphMqtt
open NymphMqtt.Library NymphMqtt.Library.Transition

/-! ### Steps that are left -/

/-- How many steps at most a worker takes to its end once it is told to stop. While it is not, the two
steps come on top that take it past the test of its flag. -/
def Worker.left (w : Worker) : Nat :=
  match w.step with
  | .wait => if w.running then 10 else 2
  | .testRunning => if w.running then 9 else 1
  | .testReady => 8
  | .clearReady => 7
  | .process => 6
  | .finish => 5
  | .takeRequest => 4
  | .park => 3
  | .ended => 0

theorem Worker.left_le (w : Worker) : w.left ≤ 10 := by
  unfold Worker.left
  split
  case h_1 | h_2 => split <;> decide
  all_goals decide

theorem Worker.left_stop (w : Worker) : Worker.left { w with running := false } ≤ w.left := by
  unfold Worker.left
  cases w.step with
  | wait | testRunning => cases w.running <;> simp
  | _ => exact Nat.le_refl _

/-- A worker that is told to stop takes its next step, unless it has ended; so does one that has been
handed a request and has yet to test its flag. -/
theorem Dispatcher.work_left {d : Dispatcher} {i : Nat} {w : Worker} (known : d.allWorkers[i]? = some w)
    (alive : w.step ≠ .ended)
    (moves : w.running = false ∨ w.ready = true ∧ (w.step = .testRunning ∨ w.step = .wait)) :
    ∃ d' w', d.step (.work i) = some d' ∧ d'.allWorkers = d.allWorkers.set i w' ∧ w'.left < w.left := by
  have told (late : w.step ≠ .testRunning ∧ w.step ≠ .wait) : w.running = false :=
    moves.resolve_right fun early => early.2.elim late.1 late.2
  simp only [step, work, known, Option.bind_eq_bind, Option.bind_some]
  cases at_ : w.step with
  | ended => exact absurd at_ alive
  | testRunning =>
    refine ⟨_, _, rfl, rfl, ?_⟩
    cases running : w.running <;> simp [Worker.left, at_, running]
  | wait =>
    have wakes : w.ready = true ∨ ¬w.running = true := by
      rcases moves with told | ⟨ready, -⟩
      · exact .inr (by rw [told]; exact Bool.false_ne_true)
      · exact .inl ready
    refine ⟨_, _, if_pos wakes, rfl, ?_⟩
    cases running : w.running <;> simp [Worker.left, at_, running]
  | takeRequest =>
    have stopped := told (by rw [at_]; decide)
    dsimp only
    unfold takeRequest
    split
    next => exact ⟨_, _, rfl, rfl, by simp [Worker.left, Worker.setRequest, at_, stopped]⟩
    next => exact ⟨_, _, rfl, rfl, by simp [Worker.left, at_]⟩
  | testReady =>
    refine ⟨_, _, rfl, rfl, ?_⟩
    cases ready : w.ready <;> simp [Worker.left, at_]
  | clearReady => exact ⟨_, _, rfl, rfl, by simp [Worker.left, at_]⟩
  | process => exact ⟨_, _, rfl, rfl, by simp [Worker.left, at_]⟩
  | finish => exact ⟨_, _, rfl, rfl, by simp [Worker.left, at_]⟩
  | park =>
    have stopped := told (by rw [at_]; decide)
    exact ⟨_, _, rfl, rfl, by simp [Worker.left, at_, stopped]⟩

/-- How many steps of `stop` itself are left. -/
def Control.left (threads : Nat) : Control → Nat
  | .idle | .starting _ => 0
  | .clearing i => 2 * threads + 2 + (threads - i)
  | .joining j => 2 * (threads - j) + 1
  | .deleting j => 2 * (threads - j)

/-- The flag of that worker is cleared. -/
def Control.Cleared : Control → Nat → Prop
  | .idle, _ | .starting _, _ => False
  | .clearing i, k => k < i
  | .joining _, _ | .deleting _, _ => True

namespace ThreadPool

/-- The steps of the call and of the workers. -/
def Action.inside : Action → Bool
  | .advance | .thread (.work _) => true
  | _ => false

def left (p : ThreadPool) : Nat :=
  p.control.left p.threads.length + (p.dispatcher.allWorkers.map Worker.left).sum

def Told (p : ThreadPool) : Prop :=
  ∀ k w, p.control.Cleared k → p.dispatcher.allWorkers[k]? = some w → w.running = false

/-! ### The flags -/

theorem told_new : new.Told := fun _ _ cleared => cleared.elim

theorem Told.advance {p q : ThreadPool} (told : p.Told) (stepped : p.advance = some q) : q.Told := by
  unfold ThreadPool.advance at stepped
  split at stepped
  next => cases stepped
  next =>
    cases stepped
    exact fun k w cleared => cleared.elim
  next =>
    obtain ⟨d, -, rest⟩ := Option.bind_eq_some_iff.mp stepped
    cases rest
    exact fun k w cleared => cleared.elim
  next i at_ =>
    split at stepped
    next d clears =>
      cases stepped
      obtain ⟨v, there, rfl⟩ := Option.map_eq_some_iff.mp clears
      intro k w below known
      change (p.dispatcher.allWorkers.set i { v with running := false })[k]? = some w at known
      by_cases same : i = k
      · subst same
        rw [List.getElem?_set_self (List.getElem?_eq_some_iff.mp there).1] at known
        cases known
        rfl
      · rw [List.getElem?_set_ne same] at known
        refine told k w ?_ known
        rw [at_]
        exact Nat.lt_of_le_of_ne (Nat.lt_succ_iff.mp below) (Ne.symm same)
    next last =>
      cases stepped
      intro k w _ known
      refine told k w ?_ known
      rw [at_]
      have all := List.getElem?_eq_none_iff.mp (Option.map_eq_none_iff.mp last)
      exact Nat.lt_of_lt_of_le (List.getElem?_eq_some_iff.mp known).1 all
  next j at_ =>
    have all (k : Nat) (w : Worker) : p.dispatcher.allWorkers[k]? = some w → w.running = false :=
      told k w (by rw [at_]; trivial)
    split at stepped
    next =>
      split at stepped
      next =>
        cases stepped
        exact fun k w _ => all k w
      next => cases stepped
    next =>
      cases stepped
      exact fun k w _ => all k w
  next j at_ =>
    obtain ⟨t, -, rest⟩ := Option.bind_eq_some_iff.mp stepped
    cases rest
    exact fun k w _ => told k w (by rw [at_]; trivial)

theorem Told.step {p q : ThreadPool} {a : Action} (told : p.Told) (stepped : p.step a = some q) :
    q.Told := by
  cases a with
  | init workers =>
    obtain ⟨-, same⟩ := Option.ite_none_right_eq_some.mp stepped
    cases same
    exact fun k w cleared => cleared.elim
  | stop =>
    obtain ⟨-, same⟩ := Option.ite_none_right_eq_some.mp stepped
    cases same
    exact fun k w below => absurd below (Nat.not_lt_zero k)
  | advance => exact told.advance stepped
  | thread a =>
    replace stepped : p.threadStep a = some q := stepped
    unfold threadStep at stepped
    split at stepped
    next => cases stepped
    next other =>
      obtain ⟨d, moved, rfl⟩ := Option.map_eq_some_iff.mp stepped
      intro k w cleared known
      obtain ⟨v, before, same⟩ := (Dispatcher.step_change moved).running other known
      rw [same]
      exact told k v cleared before

/-! ### The next step -/

/-- A step of the call or of a worker brings the return nearer. -/
def Nears (p : ThreadPool) : Prop :=
  ∃ a q, Action.inside a = true ∧ p.Heeded a ∧ p.step a = some q ∧
    (q.control.stopping = true ∨ q.control = .idle) ∧ q.left < p.left

/-- A worker goes ahead, while the call stands still. -/
theorem nears_work {p : ThreadPool} (stopping : p.control.stopping = true) {i : Nat} {w : Worker}
    (known : p.dispatcher.allWorkers[i]? = some w) (alive : w.step ≠ .ended)
    (moves : w.running = false ∨ w.ready = true ∧ (w.step = .testRunning ∨ w.step = .wait)) : p.Nears := by
  obtain ⟨d, w', moved, allWorkers, less⟩ := Dispatcher.work_left known alive moves
  have other : Dispatcher.Action.work i ≠ .startWorker := by
    intro same
    cases same
  have stepped : p.step (.thread (.work i)) = some { p with
      dispatcher := d
      processed := p.processed ++ finishes p.dispatcher (.work i)
      handed := p.handed ++ (p.dispatcher.receiver (.work i)).toList.map fun i => !ended p.dispatcher i } := by
    change p.threadStep (.work i) = _
    rw [threadStep, if_neg other, moved, Option.map_some]
  have sum := Splice.sum_map_set known w' Worker.left
  rw [← allWorkers] at sum
  refine ⟨.thread (.work i), _, rfl, trivial, stepped, .inl stopping, ?_⟩
  unfold left
  dsimp only
  omega

/-- The call goes on, and the workers stay as they are. -/
theorem nears_control {p : ThreadPool} {threads : List ThreadUse} {control : Control} {awaited : Nat}
    (inTime : p.InTime p.control)
    (stepped : p.advance = some { p with threads := threads, control := control, awaited := awaited })
    (inStop : control.stopping = true ∨ control = .idle) (length : threads.length = p.threads.length)
    (less : control.left p.threads.length < p.control.left p.threads.length) : p.Nears := by
  refine ⟨.advance, _, rfl, inTime, stepped, inStop, ?_⟩
  unfold left
  dsimp only
  rw [length]
  omega

/-- The flag of a worker that owes a request is not cleared before the worker has tested it: its slot is
full, so that it can go ahead. -/
theorem Kept.nears_clearing {p : ThreadPool} (kept : p.Kept) {i : Nat} (at_ : p.control = .clearing i) :
    p.Nears := by
  cases known : p.dispatcher.allWorkers[i]? with
  | none =>
    have inTime : p.InTime p.control := by
      rw [at_, InTime, known]
      exact nofun
    have stepped : p.advance = some { p with control := .joining 0 } := by
      simp only [ThreadPool.advance, at_, stopWorker, known, Option.map_none]
    apply nears_control inTime stepped (.inl rfl) rfl
    rw [at_]
    simp only [Control.left]
    omega
  | some w =>
    by_cases late : (w.step = .testRunning ∨ w.step = .wait) ∧ p.Owes i
    · obtain ⟨early, ⟨worker, request⟩, member, rfl, open_⟩ := late
      obtain ⟨v, known', -, bound⟩ := (kept.loads_stopping member).resolve_left open_
      cases known.symm.trans known'
      have here : w.step.busy = false ∧ w.step ≠ .ended := by
        rcases early with at_ | at_
        · rw [at_]
          decide
        · rw [at_]
          decide
      rcases bound with ⟨ready, -⟩ | busy
      · exact nears_work (by rw [at_]; rfl) known here.2 (.inr ⟨ready, early⟩)
      · cases here.1.symm.trans busy
    · have inTime : p.InTime p.control := by
        rw [at_, InTime, known]
        rintro v ⟨⟩ early owes
        exact late ⟨early, owes⟩
      have stepped : p.advance = some { p with
          dispatcher := p.dispatcher.setWorker i { w with running := false }
          control := .clearing (i + 1) } := by
        simp only [ThreadPool.advance, at_, stopWorker, known, Option.map_some]
      have inside : i < p.threads.length := kept.count ▸ (List.getElem?_eq_some_iff.mp known).1
      have sum := Splice.sum_map_set known { w with running := false } Worker.left
      have less := w.left_stop
      refine ⟨.advance, _, rfl, inTime, stepped, .inl rfl, ?_⟩
      simp only [left, Dispatcher.setWorker, at_, Control.left] at sum ⊢
      omega

theorem Kept.nears_joining {p : ThreadPool} (kept : p.Kept) (told : p.Told) {j : Nat}
    (at_ : p.control = .joining j) : p.Nears := by
  have inTime : p.InTime p.control := by
    rw [at_]
    trivial
  cases entry : p.threads[j]? with
  | none =>
    have stepped : p.advance = some { p with control := .idle, awaited := p.threads.length } := by
      simp only [ThreadPool.advance, at_, entry]
    apply nears_control inTime stepped (.inr rfl) rfl
    rw [at_]
    exact Nat.succ_pos _
  | some t =>
    have inside := (List.getElem?_eq_some_iff.mp entry).1
    obtain ⟨w, known⟩ : ∃ w, p.dispatcher.allWorkers[j]? = some w :=
      ⟨_, List.getElem?_eq_getElem (kept.count ▸ inside)⟩
    by_cases gone : w.step = .ended
    · have stepped : p.advance = some { p with
          threads := p.threads.set j { t with joins := t.joins + 1 }
          control := .deleting j } := by
        simp only [ThreadPool.advance, at_, entry, ended, known, Option.map_some, gone, decide_true, if_true]
      apply nears_control inTime stepped (.inl rfl) (List.length_set ..)
      rw [at_]
      exact Nat.lt_succ_self _
    · exact nears_work (by rw [at_]; rfl) known gone (.inl (told j w (by rw [at_]; trivial) known))

theorem Kept.nears_deleting {p : ThreadPool} (kept : p.Kept) {j : Nat} (at_ : p.control = .deleting j) :
    p.Nears := by
  have gone := kept.joined j (by rw [at_]; exact Nat.lt_succ_self j)
  rw [ended, decide_eq_true_eq] at gone
  obtain ⟨w, known, -⟩ := Option.map_eq_some_iff.mp gone
  have inside : j < p.threads.length := kept.count ▸ (List.getElem?_eq_some_iff.mp known).1
  have inTime : p.InTime p.control := by
    rw [at_]
    trivial
  have stepped : p.advance = some { p with
      threads := p.threads.set j { p.threads[j] with deletes := p.threads[j].deletes + 1 }
      control := .joining (j + 1) } := by
    simp only [ThreadPool.advance, at_, List.getElem?_eq_getElem inside, Option.bind_eq_bind,
      Option.bind_some]
  apply nears_control inTime stepped (.inl rfl) (List.length_set ..)
  rw [at_]
  simp only [Control.left]
  omega

/-- In `stop` the call itself can go on, or a worker can that it waits for, or that it lets go ahead. -/
theorem Kept.nears {p : ThreadPool} (kept : p.Kept) (told : p.Told) (stopping : p.control.stopping = true) :
    p.Nears := by
  cases at_ : p.control with
  | idle | starting =>
    rw [at_] at stopping
    cases stopping
  | clearing i => exact kept.nears_clearing at_
  | joining j => exact kept.nears_joining told at_
  | deleting j => exact kept.nears_deleting at_

/-! ### The way to the return -/

/-- Each thread has at most ten steps to its end, and three of `stop` are about it. -/
theorem Kept.left_le {p : ThreadPool} (kept : p.Kept) : p.left ≤ 13 * p.threads.length + 2 := by
  have workers : (p.dispatcher.allWorkers.map Worker.left).sum ≤ p.threads.length * 10 := by
    have most : ∀ steps ∈ p.dispatcher.allWorkers.map Worker.left, steps ≤ 10 := by
      intro steps member
      obtain ⟨w, -, rfl⟩ := List.mem_map.mp member
      exact w.left_le
    have sum := List.sum_le_card_nsmul _ _ most
    rwa [List.length_map, smul_eq_mul, ← kept.count] at sum
  have control : p.control.left p.threads.length ≤ 3 * p.threads.length + 2 := by
    cases p.control with
    | idle | starting => exact Nat.zero_le _
    | _ =>
      simp only [Control.left]
      omega
  unfold left
  omega

/-- Wherever a run that meets the condition stands in `stop`, the call and the workers alone can bring it to
its return, and they have at most that many steps to take. -/
theorem stop_returns {p : ThreadPool} (run : Run step Heeded new p) (stopping : p.control.stopping = true) :
    ∃ labels q, labels.length ≤ 13 * p.threads.length + 2 ∧ (∀ a ∈ labels, Action.inside a = true) ∧
      replay (guarded step Heeded) p labels = some q ∧ q.control = .idle ∧ q.ShutDown := by
  have kept := kept_run run
  have told : p.Told := by
    refine run.invariant told_new ?_
    intro p a q told _ stepped
    exact told.step stepped
  have nearer : ∀ p : ThreadPool, (p.Kept ∧ p.Told) ∧ (p.control.stopping = true ∨ p.control = .idle) →
      ¬p.control = .idle → ∃ a q, Action.inside a = true ∧ guarded step Heeded p a = some q ∧
        ((q.Kept ∧ q.Told) ∧ (q.control.stopping = true ∨ q.control = .idle)) ∧ q.left < p.left := by
    rintro p ⟨⟨kept, told⟩, inStop⟩ going
    obtain ⟨a, q, inside, heeded, stepped, later, less⟩ := kept.nears told (inStop.resolve_right going)
    exact ⟨a, q, inside, guarded_eq_some_iff.mpr ⟨heeded, stepped⟩,
      ⟨⟨kept.step heeded stepped, told.step stepped⟩, later⟩, less⟩
  obtain ⟨labels, q, length, inside, replayed, ⟨⟨later, -⟩, -⟩, idle⟩ :=
    exists_replay nearer ⟨⟨kept, told⟩, .inl stopping⟩
  exact ⟨labels, q, Nat.le_trans length kept.left_le, inside, replayed, idle, later.shutDown⟩

end ThreadPool
end NymphMqtt
