import NymphMqtt.Dispatcher
import NymphMqtt.Library.Splice
import Mathlib.Data.List.Nodup

/-! Where a request is, from the moment it is given to `addRequest` until its `finish` has
returned. -/

namespace NymphMqtt
open NymphMqtt.Library NymphMqtt.Library.Transition

/-! ### Places -/

/-- `request` is being processed. -/
def WorkerStep.busy : WorkerStep → Bool
  | .process | .finish => true
  | _ => false

/-- A request may have been put into the slot of a worker that stands here. -/
def WorkerStep.loadable : WorkerStep → Bool
  | .testRunning | .testReady | .clearReady | .wait => true
  | _ => false

namespace Worker

/-- The request that was assigned to the worker and not taken yet. -/
def slot (w : Worker) : List RequestId := if w.ready then w.request.toList else []

def processing (w : Worker) : List RequestId := if w.step.busy then w.request.toList else []

def held (w : Worker) : List RequestId := w.slot ++ w.processing

section Held
variable {w : Worker}

theorem held_empty (unready : w.ready = false) (idle : w.step.busy = false) : w.held = [] := by
  rw [held, slot, processing, unready, idle]
  rfl

theorem held_slot {request : RequestId} (ready : w.ready = true) (loaded : w.request = some request)
    (idle : w.step.busy = false) : w.held = [request] := by
  rw [held, slot, processing, ready, loaded, idle]
  rfl

theorem held_busy {request : RequestId} (unready : w.ready = false)
    (loaded : w.request = some request) (busy : w.step.busy = true) : w.held = [request] := by
  rw [held, slot, processing, unready, loaded, busy]
  rfl

end Held

/-- What is true of every worker while nobody calls `stop()`. -/
structure Sound (w : Worker) : Prop where
  running : w.running = true
  loadable : w.ready = true → w.step.loadable = true
  clear : w.step = .clearReady → w.ready = true
  loaded : w.ready = true → w.request.isSome = true
  busy : w.step.busy = true → w.request.isSome = true

theorem Sound.not_ready {w : Worker} (sound : w.Sound) (taken : w.step.loadable = false) :
    w.ready = false := by
  by_contra ready
  cases taken.symm.trans (sound.loadable (eq_true_of_ne_false ready))

theorem sound_new : Worker.new.Sound where
  running := rfl
  loadable := fun ready => nomatch ready
  clear := fun at_ => nomatch at_
  loaded := fun ready => nomatch ready
  busy := fun at_ => nomatch at_

section Goes
variable {w : Worker} {requests : List RequestId} {step : WorkerStep} (goes : w.Goes requests step)
include goes

theorem Goes.busy : step.busy = w.step.busy := by
  cases goes with
  | runs at_ | ends at_ | seesReady at_ | seesNone at_ | processed at_ | findsNone at_ | wakes at_ =>
    rw [at_]
    rfl

theorem Goes.held : Worker.held { w with step := step } = w.held := by
  unfold Worker.held Worker.slot Worker.processing
  rw [goes.busy]

theorem Goes.loadable (running : w.running = true) (ready : w.ready = true)
    (before : w.step.loadable = true) : step.loadable = true := by
  cases goes with
  | runs | seesReady | wakes => rfl
  | ends at_ stopped => cases running.symm.trans stopped
  | seesNone at_ idle => cases ready.symm.trans idle
  | processed at_ | findsNone at_ =>
    rw [at_] at before
    cases before

theorem Goes.no_requests (takes : w.step = .takeRequest) : requests = [] := by
  cases goes with
  | findsNone at_ none => exact none
  | runs at_ | ends at_ | seesReady at_ | seesNone at_ | processed at_ | wakes at_ =>
    cases takes.symm.trans at_

/-- Nobody leaves the wait with an empty slot. -/
theorem Goes.wakes_ready (sound : w.Sound) (waits : w.step = .wait) : w.ready = true := by
  cases goes with
  | wakes at_ wake => exact wake.resolve_right (not_not.mpr sound.running)
  | runs at_ | ends at_ | seesReady at_ | seesNone at_ | processed at_ | findsNone at_ =>
    cases waits.symm.trans at_

theorem Goes.clear (clearing : step = .clearReady) : w.ready = true := by
  cases goes with
  | seesReady at_ ready => exact ready
  | _ => cases clearing

theorem Goes.sound (sound : w.Sound) : Worker.Sound { w with step := step } where
  running := sound.running
  loadable := fun ready => goes.loadable sound.running ready (sound.loadable ready)
  clear := goes.clear
  loaded := sound.loaded
  busy := fun busy => sound.busy (goes.busy ▸ busy)

end Goes

end Worker

namespace Dispatcher

/-- Where the requests are: with their submitters, in the queue, in the slots of workers,
being processed, finished. -/
def places (d : Dispatcher) : List RequestId :=
  d.calling ++ d.queueing ++ d.requests ++ d.allWorkers.flatMap Worker.slot ++
    d.allWorkers.flatMap Worker.processing ++ d.finished

/-- The requests that a step brings. -/
def Action.given : Action → List RequestId
  | .call request => [request]
  | _ => []

/-- The worker that a step calls `setRequest` on. -/
def receiver (d : Dispatcher) : Action → Option Nat
  | .assign call => if call < d.calling.length then d.workers.head? else none
  | .work worker =>
      if d.allWorkers[worker]?.map Worker.step = some .takeRequest ∧ d.requests ≠ [] then some worker
      else none
  | _ => none

/-! ### The invariant -/

structure Sound (d : Dispatcher) : Prop where
  worker : ∀ w ∈ d.allWorkers, w.Sound
  nodup : d.workers.Nodup
  idle : ∀ i ∈ d.workers, ∃ w, d.allWorkers[i]? = some w ∧ w.step = .wait ∧ w.ready = false

theorem sound_new : new.Sound where
  worker := fun _ member => nomatch member
  nodup := List.nodup_nil
  idle := fun _ member => nomatch member

namespace Sound
variable {d : Dispatcher} (sound : d.Sound)
include sound

/-- A worker that does not wait with an empty slot is not in the idle queue. -/
theorem not_idle {i : Nat} {w : Worker} (known : d.allWorkers[i]? = some w)
    (active : w.step = .wait → w.ready = true) : i ∉ d.workers := by
  intro member
  obtain ⟨w', known', waits, unready⟩ := sound.idle i member
  cases known.symm.trans known'
  cases (active waits).symm.trans unready

/-- A worker outside the idle queue may be replaced. -/
theorem setWorker {i : Nat} {w' : Worker} (out : i ∉ d.workers) (ok : w'.Sound) : (d.setWorker i w').Sound where
  worker := by
    intro v member
    rcases List.mem_or_eq_of_mem_set member with old | rfl
    · exact sound.worker v old
    · exact ok
  nodup := sound.nodup
  idle := by
    intro j member
    have other : i ≠ j := by
      rintro rfl
      exact out member
    change ∃ w, (d.allWorkers.set i w')[j]? = some w ∧ _
    rw [List.getElem?_set_ne other]
    exact sound.idle j member

theorem dequeue {workers : List Nat} (sub : workers.Sublist d.workers) :
    { d with workers := workers }.Sound :=
  ⟨sound.worker, sound.nodup.sublist sub, fun j member => sound.idle j (sub.subset member)⟩

theorem enqueue {i : Nat} {w : Worker} (known : d.allWorkers[i]? = some w) (waits : w.step = .wait)
    (unready : w.ready = false) (out : i ∉ d.workers) :
    { d with workers := d.workers ++ [i] }.Sound where
  worker := sound.worker
  nodup := List.nodup_append.mpr ⟨sound.nodup, List.nodup_singleton i, fun j queued k last same => by
    rw [List.mem_singleton] at last
    subst last same
    exact out queued⟩
  idle := by
    intro j member
    rcases List.mem_append.mp member with queued | last
    · exact sound.idle j queued
    · rw [List.mem_singleton] at last
      subst last
      exact ⟨w, known, waits, unready⟩

/-- Only the workers and the idle queue matter. -/
theorem congr {d' : Dispatcher} (allWorkers : d'.allWorkers = d.allWorkers)
    (workers : d'.workers = d.workers) : d'.Sound where
  worker := by
    rw [allWorkers]
    exact sound.worker
  nodup := by
    rw [workers]
    exact sound.nodup
  idle := by
    rw [allWorkers, workers]
    exact sound.idle

/-- The worker that the head of the idle queue names, and that it stays the only one. -/
theorem head {i : Nat} {workers : List Nat} {w : Worker} (idle : d.workers = i :: workers)
    (known : d.allWorkers[i]? = some w) : i ∉ workers ∧ w.step = .wait ∧ w.ready = false := by
  obtain ⟨w', known', waits, unready⟩ := sound.idle i (idle ▸ List.mem_cons_self)
  cases known.symm.trans known'
  exact ⟨(List.nodup_cons.mp (idle ▸ sound.nodup)).1, waits, unready⟩

end Sound

end Dispatcher

namespace Worker

/-- A worker with nothing in its slot may be given a request. -/
theorem Sound.setRequest {w : Worker} (sound : w.Sound) (request : RequestId)
    (step : WorkerStep) (loadable : step.loadable = true) (idle : step.busy = false) :
    Worker.Sound { w.setRequest request with step := step } where
  running := sound.running
  loadable := fun _ => loadable
  clear := fun _ => rfl
  loaded := fun _ => rfl
  busy := fun busy => by cases idle.symm.trans busy

/-- With an empty slot a worker may stand anywhere but in the middle of a request. -/
theorem Sound.unload {w : Worker} (sound : w.Sound) (step : WorkerStep) (unready : w.ready = false)
    (idle : step.busy = false) (unclear : step ≠ .clearReady) :
    Worker.Sound { w with step := step } where
  running := sound.running
  loadable := fun ready => by cases unready.symm.trans ready
  clear := fun clearing => absurd clearing unclear
  loaded := sound.loaded
  busy := fun busy => by cases idle.symm.trans busy

end Worker

namespace Dispatcher

theorem Sound.change {d d' : Dispatcher} {a : Action} (sound : d.Sound) (change : Change d a d') :
    d'.Sound := by
  cases change with
  | startWorker =>
    constructor
    · intro w member
      rcases List.mem_append.mp member with old | new
      · exact sound.worker w old
      · rw [List.mem_singleton] at new
        subst new
        exact Worker.sound_new
    · exact sound.nodup
    · intro i member
      obtain ⟨w, known, idle⟩ := sound.idle i member
      refine ⟨w, ?_, idle⟩
      rw [List.getElem?_append_left (List.getElem?_eq_some_iff.mp known).1]
      exact known
  | call | noWorker | enqueue => exact sound.congr rfl rfl
  | @handOver call i request workers w waiting idle known =>
    obtain ⟨out, waits, unready⟩ := sound.head idle known
    have rest := sound.dequeue (idle ▸ List.sublist_cons_self i workers)
    have ok := (sound.worker w (List.mem_of_getElem? known)).setRequest request w.step
      (by rw [waits]; rfl) (by rw [waits]; rfl)
    exact (rest.setWorker out ok).congr rfl rfl
  | goOn known goes =>
    have ok := sound.worker _ (List.mem_of_getElem? known)
    exact sound.setWorker (sound.not_idle known (goes.wakes_ready ok)) (goes.sound ok)
  | clearReady known at_ =>
    have ok := sound.worker _ (List.mem_of_getElem? known)
    apply sound.setWorker (sound.not_idle known (by rw [at_]; nofun))
    exact ⟨ok.running, (fun ready => nomatch ready), (fun clearing => nomatch clearing),
      (fun ready => nomatch ready), fun _ => ok.loaded (ok.clear at_)⟩
  | @finish i w known at_ =>
    have ok := sound.worker w (List.mem_of_getElem? known)
    have unready := ok.not_ready (by rw [at_]; rfl)
    have moved := sound.setWorker (sound.not_idle known (by rw [at_]; nofun))
      (ok.unload .takeRequest unready rfl (by nofun))
    exact moved.congr rfl rfl
  | @take i w request requests known at_ queued =>
    have ok := sound.worker w (List.mem_of_getElem? known)
    have moved := sound.setWorker (sound.not_idle known (by rw [at_]; nofun))
      (ok.setRequest request .testRunning rfl rfl)
    exact moved.congr rfl rfl
  | @park i w known at_ =>
    have ok := sound.worker w (List.mem_of_getElem? known)
    have unready := ok.not_ready (by rw [at_]; rfl)
    have out := sound.not_idle known (by rw [at_]; nofun)
    have moved := sound.setWorker out (ok.unload .wait unready rfl (by nofun))
    have bound := (List.getElem?_eq_some_iff.mp known).1
    exact (moved.enqueue (List.getElem?_set_self bound) rfl unready out).congr rfl rfl

/-! ### Nothing is lost and nothing is doubled -/

section Count
variable (r : RequestId)

theorem count_places (d : Dispatcher) : d.places.count r =
    d.calling.count r + d.queueing.count r + d.requests.count r +
      (d.allWorkers.flatMap Worker.slot).count r + (d.allWorkers.flatMap Worker.processing).count r +
        d.finished.count r := by
  simp only [places, List.count_append]

/-- Replacing a worker moves the total by what the worker holds. -/
theorem count_set {d : Dispatcher} {i : Nat} {w : Worker} (known : d.allWorkers[i]? = some w)
    (w' : Worker) :
    ((d.allWorkers.set i w').flatMap Worker.slot).count r +
        ((d.allWorkers.set i w').flatMap Worker.processing).count r + w.held.count r =
      (d.allWorkers.flatMap Worker.slot).count r + (d.allWorkers.flatMap Worker.processing).count r +
        w'.held.count r := by
  have slots := Splice.count_flatMap_set r known w' Worker.slot
  have processing := Splice.count_flatMap_set r known w' Worker.processing
  simp only [Worker.held, List.count_append]
  omega

/-- A step moves each request from one place to another, or brings it. -/
theorem Sound.count_change {d d' : Dispatcher} {a : Action} (sound : d.Sound)
    (change : Change d a d') : d'.places.count r = d.places.count r + a.given.count r := by
  simp only [count_places]
  cases change with
  | startWorker =>
    simp only [List.flatMap_append, List.count_append, Action.given, List.count_nil]
    rfl
  | call =>
    simp only [List.count_append, Action.given]
    omega
  | noWorker waiting =>
    have moved := Splice.count_eraseIdx r waiting
    simp only [List.count_append, Action.given, List.count_nil]
    omega
  | enqueue waiting =>
    have moved := Splice.count_eraseIdx r waiting
    simp only [List.count_append, Action.given, List.count_nil]
    omega
  | @handOver call i request workers w waiting idle known =>
    obtain ⟨-, waits, unready⟩ := sound.head idle known
    have moved := Splice.count_eraseIdx r waiting
    have replaced := count_set r known (w.setRequest request)
    have after : (w.setRequest request).held = [request] :=
      Worker.held_slot rfl rfl (by rw [Worker.setRequest, waits]; rfl)
    rw [Worker.held_empty unready (by rw [waits]; rfl), after] at replaced
    simp only [Dispatcher.setWorker, Action.given, List.count_nil] at replaced ⊢
    omega
  | @goOn i w step known goes =>
    have replaced := count_set r known { w with step := step }
    rw [goes.held] at replaced
    simp only [Dispatcher.setWorker, Action.given, List.count_nil] at replaced ⊢
    omega
  | @clearReady i w known at_ =>
    have ok := sound.worker w (List.mem_of_getElem? known)
    obtain ⟨request, loaded⟩ := Option.isSome_iff_exists.mp (ok.loaded (ok.clear at_))
    have replaced := count_set r known { w with ready := false, step := .process }
    have after : Worker.held { w with ready := false, step := .process } = [request] :=
      Worker.held_busy rfl loaded rfl
    rw [Worker.held_slot (ok.clear at_) loaded (by rw [at_]; rfl), after] at replaced
    simp only [Dispatcher.setWorker, Action.given, List.count_nil] at replaced ⊢
    omega
  | @finish i w known at_ =>
    have ok := sound.worker w (List.mem_of_getElem? known)
    have unready := ok.not_ready (by rw [at_]; rfl)
    obtain ⟨request, loaded⟩ := Option.isSome_iff_exists.mp (ok.busy (by rw [at_]; rfl))
    have replaced := count_set r known { w with step := .takeRequest }
    have after : Worker.held { w with step := .takeRequest } = [] := Worker.held_empty unready rfl
    rw [Worker.held_busy unready loaded (by rw [at_]; rfl), after] at replaced
    simp only [Dispatcher.finish, Dispatcher.setWorker, Action.given, List.count_nil, loaded,
      Option.toList_some, List.count_append] at replaced ⊢
    omega
  | @take i w request requests known at_ queued =>
    have ok := sound.worker w (List.mem_of_getElem? known)
    have unready := ok.not_ready (by rw [at_]; rfl)
    have replaced := count_set r known { w.setRequest request with step := .testRunning }
    have after : Worker.held { w.setRequest request with step := .testRunning } = [request] :=
      Worker.held_slot rfl rfl rfl
    rw [Worker.held_empty unready (by rw [at_]; rfl), after] at replaced
    have head : d.requests.count r = [request].count r + requests.count r := by
      rw [queued, ← List.singleton_append, List.count_append]
    simp only [Dispatcher.setWorker, Action.given, List.count_nil] at replaced ⊢
    omega
  | @park i w known at_ =>
    have ok := sound.worker w (List.mem_of_getElem? known)
    have unready := ok.not_ready (by rw [at_]; rfl)
    have replaced := count_set r known { w with step := .wait }
    have after : Worker.held { w with step := .wait } = [] := Worker.held_empty unready rfl
    rw [Worker.held_empty unready (by rw [at_]; rfl), after] at replaced
    simp only [Dispatcher.park, Dispatcher.setWorker, Action.given, List.count_nil] at replaced ⊢
    omega

end Count

/-- `setRequest` is only called on a worker whose slot is empty and that is not in the
middle of a request. -/
theorem Sound.receiver {d : Dispatcher} (sound : d.Sound) {a : Action} {i : Nat}
    (receives : d.receiver a = some i) :
    ∃ w, d.allWorkers[i]? = some w ∧ w.ready = false ∧ w.step.busy = false := by
  cases a with
  | assign call =>
    simp only [Dispatcher.receiver, Option.ite_none_right_eq_some] at receives
    obtain ⟨w, known, waits, unready⟩ := sound.idle i (List.mem_of_mem_head? receives.2)
    exact ⟨w, known, unready, by rw [waits]; rfl⟩
  | work worker =>
    simp only [Dispatcher.receiver, Option.ite_none_right_eq_some, Option.some.injEq,
      Option.map_eq_some_iff] at receives
    obtain ⟨⟨⟨w, known, at_⟩, -⟩, rfl⟩ := receives
    have ok := sound.worker w (List.mem_of_getElem? known)
    exact ⟨w, known, ok.not_ready (by rw [at_]; rfl), by rw [at_]; rfl⟩
  | startWorker => cases receives
  | call request => cases receives
  | enqueue call => cases receives

theorem sound_replay {labels : List Action} {d : Dispatcher}
    (replayed : replay step new labels = some d) : d.Sound :=
  replay_invariant (fun _ _ _ sound stepped => Sound.change sound (step_change stepped)) sound_new
    replayed

/-- Whatever the order of the steps, every request that was given is in exactly one place,
no worker is twice in the idle queue, and no assigned request is overwritten. -/
theorem requests_handed_over {labels : List Action} {d : Dispatcher}
    (replayed : replay step new labels = some d) :
    d.places.Perm (labels.flatMap Action.given) ∧ d.workers.Nodup ∧
      ∀ a, ∀ i ∈ d.receiver a,
        ∃ w, d.allWorkers[i]? = some w ∧ w.ready = false ∧ w.step.busy = false := by
  have sound := sound_replay replayed
  refine ⟨?_, sound.nodup, fun a i receives => sound.receiver receives⟩
  rw [List.perm_iff_count]
  intro r
  have tally := @replay_tally _ _ step Sound (fun d => d.places.count r)
    (fun a => a.given.count r) (fun _ _ _ sound stepped => sound.change (step_change stepped))
    (fun _ _ _ sound stepped => sound.count_change r (step_change stepped)) _ _ _ sound_new replayed
  rw [tally, List.count_flatMap]
  exact Nat.zero_add _

/-- One worker and three requests: one is done, one is being processed, one waits. -/
theorem requests_handed_over_three : ∃ d : Dispatcher, d.finished = [7] ∧ d.requests = [9] ∧
    d.places.Perm [7, 8, 9] := by
  have replayed : replay step new [.startWorker, .work 0, .work 0, .work 0, .work 0, .call 7,
      .assign 0, .call 8, .assign 0, .enqueue 0, .call 9, .work 0, .work 0, .work 0, .work 0, .work 0,
      .work 0, .assign 0, .enqueue 0, .work 0, .work 0, .work 0,
      .work 0] =
        some ⟨[9], [], [⟨some 8, true, false, .process⟩], [], [], [7]⟩ := rfl
  exact ⟨_, rfl, rfl, (requests_handed_over replayed).1⟩

end Dispatcher
end NymphMqtt
