import NymphMqtt.DispatcherProgress

/-! The dispatcher with the critical sections of `addRequest` and `addWorker` taken apart:
each lock, test, store, push, pop and unlock is a step, and a worker reads its flag `ready`
without any lock. Its runs are runs of the dispatcher whose sections are single steps. -/

namespace NymphMqtt
open NymphMqtt.Library NymphMqtt.Library.Transition

/-! ### The sections -/

/-- What the thread that has locked `workersMutex` does next. It is in `addRequest`, or in the
second section of `addWorker` (`push` and `unlockParked`). -/
inductive WorkersSection where
  | testWorkers (call : Nat)
  | storeRequest (call worker : Nat)
  | storeReady (worker : Nat)
  | pop
  | unlock
  | unlockEmpty (call : Nat)
  | push (worker : Nat)
  | unlockParked (worker : Nat)
  deriving DecidableEq, Repr

/-- What the thread that has locked `requestsMutex` does next. It is in the second section of
`addRequest` (`push` and `unlock`), or in `addWorker`. -/
inductive RequestsSection where
  | push (call : Nat)
  | unlock
  | testRequests (worker : Nat)
  | storeRequest (worker : Nat)
  | storeReady (worker : Nat)
  | pop (worker : Nat)
  | unlockTaken (worker : Nat)
  | unlockEmpty (worker : Nat)
  deriving DecidableEq, Repr

/-- The memory, and the two mutexes. A worker's own mutex and its condition variable are left
out: they do not change what is stored, and a wait lasts a second at most. -/
structure LockedDispatcher where
  memory : Dispatcher
  workersMutex : Option WorkersSection
  requestsMutex : Option RequestsSection
  deriving DecidableEq, Repr

namespace LockedDispatcher

def new : LockedDispatcher := ⟨Dispatcher.new, none, none⟩

inductive Action where
  | startWorker
  | call (request : RequestId)
  | lockWorkers (call : Nat)
  | lockRequests (call : Nat)
  | underWorkers
  | underRequests
  | work (worker : Nat)
  deriving DecidableEq, Repr

/-- The requests that a step brings. -/
def Action.given : Action → List RequestId
  | .call request => [request]
  | _ => []

/-- `addRequest` between `workersMutex.lock()` and `unlock()`, and the end of `addWorker`. -/
def underWorkers (s : LockedDispatcher) : Option LockedDispatcher := do
  let d := s.memory
  match ← s.workersMutex with
  | .testWorkers call =>
      match d.workers with
      | worker :: _ => some { s with workersMutex := some (.storeRequest call worker) }
      | [] => some { s with workersMutex := some (.unlockEmpty call) }
  | .storeRequest call worker =>
      let request ← d.calling[call]?
      let w ← d.allWorkers[worker]?
      some { s with
        memory := { d.setWorker worker { w with request := some request } with
          calling := d.calling.eraseIdx call }
        workersMutex := some (.storeReady worker) }
  | .storeReady worker =>
      let w ← d.allWorkers[worker]?
      some { s with
        memory := d.setWorker worker { w with ready := true }
        workersMutex := some .pop }
  | .pop => some { s with memory := { d with workers := d.workers.tail }, workersMutex := some .unlock }
  | .unlock => some { s with workersMutex := none }
  | .unlockEmpty call =>
      let request ← d.calling[call]?
      some { s with
        memory := { d with
          calling := d.calling.eraseIdx call
          queueing := d.queueing ++ [request] }
        workersMutex := none }
  | .push worker =>
      some { s with
        memory := { d with workers := d.workers ++ [worker] }
        workersMutex := some (.unlockParked worker) }
  | .unlockParked worker =>
      let w ← d.allWorkers[worker]?
      some { s with memory := d.setWorker worker { w with step := .wait }, workersMutex := none }

/-- The end of `addRequest`, and `addWorker` between `requestsMutex.lock()` and `unlock()`. -/
def underRequests (s : LockedDispatcher) : Option LockedDispatcher := do
  let d := s.memory
  match ← s.requestsMutex with
  | .push call =>
      let request ← d.queueing[call]?
      some { s with
        memory := { d with
          queueing := d.queueing.eraseIdx call
          requests := d.requests ++ [request] }
        requestsMutex := some .unlock }
  | .unlock => some { s with requestsMutex := none }
  | .testRequests worker =>
      match d.requests with
      | _ :: _ => some { s with requestsMutex := some (.storeRequest worker) }
      | [] => some { s with requestsMutex := some (.unlockEmpty worker) }
  | .storeRequest worker =>
      let request ← d.requests.head?
      let w ← d.allWorkers[worker]?
      some { s with
        memory := d.setWorker worker { w with request := some request }
        requestsMutex := some (.storeReady worker) }
  | .storeReady worker =>
      let w ← d.allWorkers[worker]?
      some { s with
        memory := d.setWorker worker { w with ready := true }
        requestsMutex := some (.pop worker) }
  | .pop worker =>
      some { s with
        memory := { d with requests := d.requests.tail }
        requestsMutex := some (.unlockTaken worker) }
  | .unlockTaken worker =>
      let w ← d.allWorkers[worker]?
      some { s with memory := d.setWorker worker { w with step := .testRunning }, requestsMutex := none }
  | .unlockEmpty worker =>
      let w ← d.allWorkers[worker]?
      some { s with memory := d.setWorker worker { w with step := .park }, requestsMutex := none }

/-- Outside the two sections of `addWorker` a worker goes on as before. -/
def work (s : LockedDispatcher) (i : Nat) : Option LockedDispatcher := do
  let w ← s.memory.allWorkers[i]?
  match w.step with
  | .takeRequest =>
      if s.requestsMutex = none then some { s with requestsMutex := some (.testRequests i) } else none
  | .park =>
      if s.workersMutex = none then some { s with workersMutex := some (.push i) } else none
  | _ => (s.memory.work i).map fun d => { s with memory := d }

def step (s : LockedDispatcher) : Action → Option LockedDispatcher
  | .startWorker =>
      some { s with memory := { s.memory with allWorkers := s.memory.allWorkers ++ [Worker.new] } }
  | .call request =>
      some { s with memory := { s.memory with calling := s.memory.calling ++ [request] } }
  | .lockWorkers call =>
      if s.workersMutex = none ∧ call < s.memory.calling.length then
        some { s with workersMutex := some (.testWorkers call) }
      else none
  | .lockRequests call =>
      if s.requestsMutex = none ∧ call < s.memory.queueing.length then
        some { s with requestsMutex := some (.push call) }
      else none
  | .underWorkers => s.underWorkers
  | .underRequests => s.underRequests
  | .work worker => s.work worker

/-! ### What a step does -/

/-- All that a step does. -/
inductive Change (s : LockedDispatcher) : Action → LockedDispatcher → Prop
  | startWorker : Change s .startWorker
      { s with memory := { s.memory with allWorkers := s.memory.allWorkers ++ [Worker.new] } }
  | call {request : RequestId} : Change s (.call request)
      { s with memory := { s.memory with calling := s.memory.calling ++ [request] } }
  | lockWorkers {call : Nat} : s.workersMutex = none → call < s.memory.calling.length →
      Change s (.lockWorkers call) { s with workersMutex := some (.testWorkers call) }
  | lockRequests {call : Nat} : s.requestsMutex = none → call < s.memory.queueing.length →
      Change s (.lockRequests call) { s with requestsMutex := some (.push call) }
  | findsWorker {call worker : Nat} : s.workersMutex = some (.testWorkers call) →
      s.memory.workers.head? = some worker →
      Change s .underWorkers { s with workersMutex := some (.storeRequest call worker) }
  | findsNoWorker {call : Nat} : s.workersMutex = some (.testWorkers call) →
      s.memory.workers = [] →
      Change s .underWorkers { s with workersMutex := some (.unlockEmpty call) }
  | handRequest {call worker : Nat} {request : RequestId} {w : Worker} :
      s.workersMutex = some (.storeRequest call worker) → s.memory.calling[call]? = some request →
      s.memory.allWorkers[worker]? = some w →
      Change s .underWorkers { s with
        memory := { s.memory.setWorker worker { w with request := some request } with
          calling := s.memory.calling.eraseIdx call }
        workersMutex := some (.storeReady worker) }
  | handReady {worker : Nat} {w : Worker} : s.workersMutex = some (.storeReady worker) →
      s.memory.allWorkers[worker]? = some w →
      Change s .underWorkers { s with
        memory := s.memory.setWorker worker { w with ready := true }
        workersMutex := some .pop }
  | popWorker : s.workersMutex = some .pop → Change s .underWorkers { s with
        memory := { s.memory with workers := s.memory.workers.tail }
        workersMutex := some .unlock }
  | unlockWorkers : s.workersMutex = some .unlock →
      Change s .underWorkers { s with workersMutex := none }
  | leave {call : Nat} {request : RequestId} : s.workersMutex = some (.unlockEmpty call) →
      s.memory.calling[call]? = some request →
      Change s .underWorkers { s with
        memory := { s.memory with
          calling := s.memory.calling.eraseIdx call
          queueing := s.memory.queueing ++ [request] }
        workersMutex := none }
  | pushWorker {worker : Nat} : s.workersMutex = some (.push worker) →
      Change s .underWorkers { s with
        memory := { s.memory with workers := s.memory.workers ++ [worker] }
        workersMutex := some (.unlockParked worker) }
  | parked {worker : Nat} {w : Worker} : s.workersMutex = some (.unlockParked worker) →
      s.memory.allWorkers[worker]? = some w →
      Change s .underWorkers { s with
        memory := s.memory.setWorker worker { w with step := .wait }
        workersMutex := none }
  | pushRequest {call : Nat} {request : RequestId} : s.requestsMutex = some (.push call) →
      s.memory.queueing[call]? = some request →
      Change s .underRequests { s with
        memory := { s.memory with
          queueing := s.memory.queueing.eraseIdx call
          requests := s.memory.requests ++ [request] }
        requestsMutex := some .unlock }
  | unlockRequests : s.requestsMutex = some .unlock →
      Change s .underRequests { s with requestsMutex := none }
  | findsRequest {worker : Nat} : s.requestsMutex = some (.testRequests worker) →
      s.memory.requests ≠ [] →
      Change s .underRequests { s with requestsMutex := some (.storeRequest worker) }
  | findsNoRequest {worker : Nat} : s.requestsMutex = some (.testRequests worker) →
      s.memory.requests = [] →
      Change s .underRequests { s with requestsMutex := some (.unlockEmpty worker) }
  | takeRequest {worker : Nat} {request : RequestId} {w : Worker} :
      s.requestsMutex = some (.storeRequest worker) → s.memory.requests.head? = some request →
      s.memory.allWorkers[worker]? = some w →
      Change s .underRequests { s with
        memory := s.memory.setWorker worker { w with request := some request }
        requestsMutex := some (.storeReady worker) }
  | takeReady {worker : Nat} {w : Worker} : s.requestsMutex = some (.storeReady worker) →
      s.memory.allWorkers[worker]? = some w →
      Change s .underRequests { s with
        memory := s.memory.setWorker worker { w with ready := true }
        requestsMutex := some (.pop worker) }
  | popRequest {worker : Nat} : s.requestsMutex = some (.pop worker) →
      Change s .underRequests { s with
        memory := { s.memory with requests := s.memory.requests.tail }
        requestsMutex := some (.unlockTaken worker) }
  | taken {worker : Nat} {w : Worker} : s.requestsMutex = some (.unlockTaken worker) →
      s.memory.allWorkers[worker]? = some w →
      Change s .underRequests { s with
        memory := s.memory.setWorker worker { w with step := .testRunning }
        requestsMutex := none }
  | foundNone {worker : Nat} {w : Worker} : s.requestsMutex = some (.unlockEmpty worker) →
      s.memory.allWorkers[worker]? = some w →
      Change s .underRequests { s with
        memory := s.memory.setWorker worker { w with step := .park }
        requestsMutex := none }
  | lockToTake {worker : Nat} {w : Worker} : s.memory.allWorkers[worker]? = some w →
      w.step = .takeRequest → s.requestsMutex = none →
      Change s (.work worker) { s with requestsMutex := some (.testRequests worker) }
  | lockToPark {worker : Nat} {w : Worker} : s.memory.allWorkers[worker]? = some w →
      w.step = .park → s.workersMutex = none →
      Change s (.work worker) { s with workersMutex := some (.push worker) }
  | work {worker : Nat} {w : Worker} {d : Dispatcher} : s.memory.allWorkers[worker]? = some w →
      w.step ≠ .takeRequest → w.step ≠ .park → s.memory.work worker = some d →
      Change s (.work worker) { s with memory := d }

theorem underWorkers_change {s t : LockedDispatcher} (stepped : s.underWorkers = some t) :
    Change s .underWorkers t := by
  obtain ⟨place, locked, rest⟩ := Option.bind_eq_some_iff.mp stepped
  cases place with
  | testWorkers call =>
    cases idle : s.memory.workers with
    | nil =>
      simp only [idle, Option.some.injEq] at rest
      subst rest
      exact .findsNoWorker locked idle
    | cons worker workers =>
      simp only [idle, Option.some.injEq] at rest
      subst rest
      exact .findsWorker locked (by rw [idle]; rfl)
  | storeRequest call worker =>
    obtain ⟨request, waiting, rest⟩ := Option.bind_eq_some_iff.mp rest
    obtain ⟨w, known, rest⟩ := Option.bind_eq_some_iff.mp rest
    cases rest
    exact .handRequest locked waiting known
  | storeReady worker =>
    obtain ⟨w, known, rest⟩ := Option.bind_eq_some_iff.mp rest
    cases rest
    exact .handReady locked known
  | pop =>
    cases rest
    exact .popWorker locked
  | unlock =>
    cases rest
    exact .unlockWorkers locked
  | unlockEmpty call =>
    obtain ⟨request, waiting, rest⟩ := Option.bind_eq_some_iff.mp rest
    cases rest
    exact .leave locked waiting
  | push worker =>
    cases rest
    exact .pushWorker locked
  | unlockParked worker =>
    obtain ⟨w, known, rest⟩ := Option.bind_eq_some_iff.mp rest
    cases rest
    exact .parked locked known

theorem underRequests_change {s t : LockedDispatcher} (stepped : s.underRequests = some t) :
    Change s .underRequests t := by
  obtain ⟨place, locked, rest⟩ := Option.bind_eq_some_iff.mp stepped
  cases place with
  | push call =>
    obtain ⟨request, waiting, rest⟩ := Option.bind_eq_some_iff.mp rest
    cases rest
    exact .pushRequest locked waiting
  | unlock =>
    cases rest
    exact .unlockRequests locked
  | testRequests worker =>
    cases queued : s.memory.requests with
    | nil =>
      simp only [queued, Option.some.injEq] at rest
      subst rest
      exact .findsNoRequest locked queued
    | cons request requests =>
      simp only [queued, Option.some.injEq] at rest
      subst rest
      exact .findsRequest locked (by rw [queued]; exact List.cons_ne_nil _ _)
  | storeRequest worker =>
    obtain ⟨request, first, rest⟩ := Option.bind_eq_some_iff.mp rest
    obtain ⟨w, known, rest⟩ := Option.bind_eq_some_iff.mp rest
    cases rest
    exact .takeRequest locked first known
  | storeReady worker =>
    obtain ⟨w, known, rest⟩ := Option.bind_eq_some_iff.mp rest
    cases rest
    exact .takeReady locked known
  | pop worker =>
    cases rest
    exact .popRequest locked
  | unlockTaken worker =>
    obtain ⟨w, known, rest⟩ := Option.bind_eq_some_iff.mp rest
    cases rest
    exact .taken locked known
  | unlockEmpty worker =>
    obtain ⟨w, known, rest⟩ := Option.bind_eq_some_iff.mp rest
    cases rest
    exact .foundNone locked known

theorem work_change {s t : LockedDispatcher} {i : Nat} (stepped : s.work i = some t) :
    Change s (.work i) t := by
  obtain ⟨w, known, rest⟩ := Option.bind_eq_some_iff.mp stepped
  cases at_ : w.step with
  | takeRequest =>
    simp only [at_, Option.ite_none_right_eq_some, Option.some.injEq] at rest
    obtain ⟨free, rfl⟩ := rest
    exact .lockToTake known at_ free
  | park =>
    simp only [at_, Option.ite_none_right_eq_some, Option.some.injEq] at rest
    obtain ⟨free, rfl⟩ := rest
    exact .lockToPark known at_ free
  | _ =>
    simp only [at_, Option.map_eq_some_iff] at rest
    obtain ⟨d, worked, rfl⟩ := rest
    exact .work known (by rw [at_]; decide) (by rw [at_]; decide) worked

theorem step_change {s t : LockedDispatcher} {a : Action} (stepped : s.step a = some t) :
    Change s a t := by
  cases a with
  | startWorker =>
    cases stepped
    exact .startWorker
  | call request =>
    cases stepped
    exact .call
  | lockWorkers call =>
    simp only [step, Option.ite_none_right_eq_some, Option.some.injEq] at stepped
    obtain ⟨⟨free, inside⟩, rfl⟩ := stepped
    exact .lockWorkers free inside
  | lockRequests call =>
    simp only [step, Option.ite_none_right_eq_some, Option.some.injEq] at stepped
    obtain ⟨⟨free, inside⟩, rfl⟩ := stepped
    exact .lockRequests free inside
  | underWorkers => exact underWorkers_change stepped
  | underRequests => exact underRequests_change stepped
  | work worker => exact work_change stepped

end LockedDispatcher

/-! ### How it is seen with whole sections -/

/-- A section takes effect with its store to `request`: from there on the worker counts as
ready, and the first entry of the queue as gone. A worker that has pushed itself waits. -/
def WorkersSection.seen : Option WorkersSection → Nat → Worker → Worker
  | some (.storeReady worker), i, w => if i = worker then { w with ready := true } else w
  | some (.unlockParked worker), i, w => if i = worker then { w with step := .wait } else w
  | _, _, w => w

def RequestsSection.seen : Option RequestsSection → Nat → Worker → Worker
  | some (.storeReady worker), i, w =>
      if i = worker then { w with ready := true, step := .testRunning } else w
  | some (.pop worker), i, w | some (.unlockTaken worker), i, w =>
      if i = worker then { w with step := .testRunning } else w
  | _, _, w => w

def WorkersSection.workers : Option WorkersSection → List Nat → List Nat
  | some (.storeReady _), l | some .pop, l => l.tail
  | _, l => l

def RequestsSection.requests : Option RequestsSection → List RequestId → List RequestId
  | some (.storeReady _), l | some (.pop _), l => l.tail
  | _, l => l

namespace LockedDispatcher

def seen (s : LockedDispatcher) (i : Nat) (w : Worker) : Worker :=
  RequestsSection.seen s.requestsMutex i (WorkersSection.seen s.workersMutex i w)

def coarse (s : LockedDispatcher) : Dispatcher where
  requests := RequestsSection.requests s.requestsMutex s.memory.requests
  workers := WorkersSection.workers s.workersMutex s.memory.workers
  allWorkers := s.memory.allWorkers.mapIdx s.seen
  calling := s.memory.calling
  queueing := s.memory.queueing
  finished := s.memory.finished

/-- With no section in progress it is seen as it is. -/
theorem coarse_free {s : LockedDispatcher} (workers : s.workersMutex = none)
    (requests : s.requestsMutex = none) : s.coarse = s.memory := by
  have plain : s.memory.allWorkers.mapIdx s.seen = s.memory.allWorkers := by
    apply List.ext_getElem?
    intro i
    rw [List.getElem?_mapIdx]
    cases s.memory.allWorkers[i]? with
    | none => rfl
    | some w =>
      rw [Option.map_some, seen, workers, requests]
      rfl
  rw [coarse, plain, workers, requests]
  rfl

end LockedDispatcher

/-! ### What holds inside the sections -/

/-- A worker of the dispatcher of which something is true. -/
def Dispatcher.At (d : Dispatcher) (i : Nat) (p : Worker → Prop) : Prop :=
  ∃ w, d.allWorkers[i]? = some w ∧ p w

def Worker.Idle (w : Worker) : Prop := w.step = .wait ∧ w.ready = false

def Worker.Taking (w : Worker) : Prop := w.step = .takeRequest

def Worker.Parking (w : Worker) : Prop := w.step = .park

namespace Dispatcher
variable {d d' : Dispatcher} {i : Nat} {p : Worker → Prop}

theorem At.congr (at_ : d.At i p) (same : d'.allWorkers = d.allWorkers) : d'.At i p := by
  unfold At
  rw [same]
  exact at_

theorem At.known (at_ : d.At i p) {w : Worker} (known : d.allWorkers[i]? = some w) : p w := by
  obtain ⟨v, there, holds⟩ := at_
  cases known.symm.trans there
  exact holds

/-- Of a worker that is known, what is not true of it. -/
theorem not_at {w : Worker} (known : d.allWorkers[i]? = some w) (other : ¬p w) : ¬d.At i p :=
  fun at_ => other (at_.known known)

theorem At.bound (at_ : d.At i p) : i < d.allWorkers.length := by
  obtain ⟨w, known, -⟩ := at_
  exact (List.getElem?_eq_some_iff.mp known).1

theorem At.setWorker (at_ : d.At i p) {j : Nat} {w w' : Worker} (known : d.allWorkers[j]? = some w)
    (other : ¬p w) (set : d'.allWorkers = d.allWorkers.set j w') : d'.At i p := by
  obtain ⟨v, there, holds⟩ := at_
  have distinct : j ≠ i := by
    rintro rfl
    cases known.symm.trans there
    exact other holds
  refine ⟨v, ?_, holds⟩
  rw [set, List.getElem?_set_ne distinct]
  exact there

theorem At.startWorker (at_ : d.At i p) (more : d'.allWorkers = d.allWorkers ++ [Worker.new]) :
    d'.At i p := by
  obtain ⟨w, known, holds⟩ := at_
  refine ⟨w, ?_, holds⟩
  rw [more, List.getElem?_append_left (List.getElem?_eq_some_iff.mp known).1]
  exact known

end Dispatcher

def WorkersSection.Holds (d : Dispatcher) : WorkersSection → Prop
  | .testWorkers call => call < d.calling.length
  | .storeRequest call worker =>
      call < d.calling.length ∧ d.workers.head? = some worker ∧ d.At worker Worker.Idle
  | .storeReady worker => d.workers.head? = some worker ∧ d.At worker Worker.Idle
  | .pop | .unlock => True
  | .unlockEmpty call => call < d.calling.length ∧ d.workers = []
  | .push worker | .unlockParked worker => d.At worker Worker.Parking

def RequestsSection.Holds (d : Dispatcher) : RequestsSection → Prop
  | .push call => call < d.queueing.length
  | .unlock => True
  | .storeRequest worker => d.requests ≠ [] ∧ d.At worker Worker.Taking
  | .unlockEmpty worker => d.requests = [] ∧ d.At worker Worker.Taking
  | .testRequests worker | .storeReady worker | .pop worker | .unlockTaken worker =>
      d.At worker Worker.Taking

namespace LockedDispatcher

/-- Both sections are where they should be, and as seen from outside all is well. -/
structure Sound (s : LockedDispatcher) : Prop where
  workers : ∀ place ∈ s.workersMutex, place.Holds s.memory
  requests : ∀ place ∈ s.requestsMutex, place.Holds s.memory
  coarse : s.coarse.Sound

theorem sound_new : new.Sound where
  workers := fun _ locked => by cases locked
  requests := fun _ locked => by cases locked
  coarse := Dispatcher.sound_new

section Seen
variable {s t : LockedDispatcher} {i : Nat} {w : Worker}

/-- Only a worker in its own section is seen in another state by the holder of `requestsMutex`. -/
theorem Sound.seen_requests (sound : s.Sound) (elsewhere : ¬s.memory.At i Worker.Taking)
    (v : Worker) : RequestsSection.seen s.requestsMutex i v = v := by
  have apart : ∀ {j : Nat}, s.memory.At j Worker.Taking → i ≠ j := by
    rintro j at_ rfl
    exact elsewhere at_
  cases locked : s.requestsMutex with
  | none => rfl
  | some place =>
    have holds := sound.requests place locked
    cases place with
    | storeReady worker => exact if_neg (apart holds)
    | pop worker => exact if_neg (apart holds)
    | unlockTaken worker => exact if_neg (apart holds)
    | _ => rfl

theorem Sound.seen_workers (sound : s.Sound) (active : ¬s.memory.At i Worker.Idle)
    (unparked : ¬s.memory.At i Worker.Parking) (v : Worker) :
    WorkersSection.seen s.workersMutex i v = v := by
  have apart : ∀ {j : Nat} {p : Worker → Prop}, s.memory.At j p → ¬s.memory.At i p → i ≠ j := by
    rintro j p at_ other rfl
    exact other at_
  cases locked : s.workersMutex with
  | none => rfl
  | some place =>
    have holds := sound.workers place locked
    cases place with
    | storeReady worker => exact if_neg (apart holds.2 active)
    | unlockParked worker => exact if_neg (apart holds unparked)
    | _ => rfl

theorem coarse_known (known : s.memory.allWorkers[i]? = some w) :
    s.coarse.allWorkers[i]? = some (s.seen i w) := by
  rw [coarse, List.getElem?_mapIdx, known, Option.map_some]

/-- Where one worker was replaced, and no other is seen in another state. -/
theorem coarse_set {v : Worker} (set : t.memory.allWorkers = s.memory.allWorkers.set i w)
    (same : ∀ j, j ≠ i → s.seen j = t.seen j) (here : t.seen i w = v) :
    s.coarse.allWorkers.set i v = t.coarse.allWorkers := by
  rw [coarse, coarse, set, Splice.mapIdx_set w same, here]

/-- Where that worker is seen as before, too. -/
theorem coarse_same {w' : Worker} (known : s.memory.allWorkers[i]? = some w)
    (set : t.memory.allWorkers = s.memory.allWorkers.set i w')
    (same : ∀ j, j ≠ i → s.seen j = t.seen j) (here : t.seen i w' = s.seen i w) :
    t.coarse.allWorkers = s.coarse.allWorkers := by
  rw [coarse, coarse, set, Splice.mapIdx_set_same known same here]

end Seen

end LockedDispatcher

/-! ### The sections stay where they should be -/

namespace Dispatcher
variable {d d' : Dispatcher} {i : Nat} {w : Worker}

/-- A step of a worker outside `addWorker` looks at nothing but the worker. -/
theorem work_local (known : d.allWorkers[i]? = some w) (elsewhere : ¬w.Taking)
    (unparked : ¬w.Parking) (worked : d.work i = some d') :
    ∃ w' done, d' = { d.setWorker i w' with finished := d.finished ++ done } ∧
      ∀ e : Dispatcher, e.allWorkers[i]? = some w →
        e.work i = some { e.setWorker i w' with finished := e.finished ++ done } := by
  have alone : ∀ {w' : Worker}, (∀ e : Dispatcher, e.allWorkers[i]? = some w →
      e.work i = some (e.setWorker i w')) →
      ∃ w' done, d' = { d.setWorker i w' with finished := d.finished ++ done } ∧
        ∀ e : Dispatcher, e.allWorkers[i]? = some w →
          e.work i = some { e.setWorker i w' with finished := e.finished ++ done } := by
    intro w' all
    refine ⟨w', [], ?_, ?_⟩
    · rw [all d known] at worked
      cases worked
      rw [List.append_nil]
      rfl
    · intro e there
      rw [all e there, List.append_nil]
      rfl
  unfold Worker.Taking at elsewhere
  unfold Worker.Parking at unparked
  cases at_ : w.step with
  | takeRequest => exact absurd at_ elsewhere
  | park => exact absurd at_ unparked
  | ended => simp only [work, known, at_, Option.bind_eq_bind, Option.bind_some, reduceCtorEq] at worked
  | wait =>
    have woken : w.ready = true ∨ ¬w.running = true := by
      by_contra asleep
      simp only [work, known, at_, Option.bind_eq_bind, Option.bind_some, if_neg asleep,
        reduceCtorEq] at worked
    apply alone
    intro e there
    simp only [work, there, at_, Option.bind_eq_bind, Option.bind_some, if_pos woken]
    rfl
  | finish =>
    have all : ∀ e : Dispatcher, e.allWorkers[i]? = some w → e.work i = some (e.finish i w) := by
      intro e there
      simp only [work, there, at_, Option.bind_eq_bind, Option.bind_some]
    rw [all d known] at worked
    cases worked
    exact ⟨_, _, rfl, all⟩
  | testRunning | testReady | clearReady | process =>
    apply alone
    intro e there
    simp only [work, there, at_, Option.bind_eq_bind, Option.bind_some]
    rfl

end Dispatcher

theorem WorkersSection.Holds.frame {d d' : Dispatcher} {place : WorkersSection}
    (holds : place.Holds d) (calling : d.calling.length ≤ d'.calling.length)
    (workers : d'.workers = d.workers)
    (idle : ∀ i, d.At i Worker.Idle → d'.At i Worker.Idle)
    (parking : ∀ i, d.At i Worker.Parking → d'.At i Worker.Parking) : place.Holds d' := by
  cases place with
  | testWorkers call => exact Nat.lt_of_lt_of_le holds calling
  | storeRequest call worker =>
    exact ⟨Nat.lt_of_lt_of_le holds.1 calling, workers ▸ holds.2.1, idle worker holds.2.2⟩
  | storeReady worker => exact ⟨workers ▸ holds.1, idle worker holds.2⟩
  | pop | unlock => trivial
  | unlockEmpty call => exact ⟨Nat.lt_of_lt_of_le holds.1 calling, workers.trans holds.2⟩
  | push worker | unlockParked worker => exact parking worker holds

theorem RequestsSection.Holds.frame {d d' : Dispatcher} {place : RequestsSection}
    (holds : place.Holds d) (queueing : d.queueing.length ≤ d'.queueing.length)
    (requests : d'.requests = d.requests)
    (taking : ∀ i, d.At i Worker.Taking → d'.At i Worker.Taking) : place.Holds d' := by
  cases place with
  | push call => exact Nat.lt_of_lt_of_le holds queueing
  | unlock => trivial
  | storeRequest worker => exact ⟨requests ▸ holds.1, taking worker holds.2⟩
  | unlockEmpty worker => exact ⟨requests.trans holds.1, taking worker holds.2⟩
  | testRequests worker | storeReady worker | pop worker | unlockTaken worker =>
    exact taking worker holds

/-- A worker seen idle is idle. -/
theorem RequestsSection.seen_idle {m : Option RequestsSection} {i : Nat} {w : Worker}
    (idle : (RequestsSection.seen m i w).Idle) : w.Idle := by
  cases m with
  | none => exact idle
  | some place =>
    cases place with
    | storeReady worker | pop worker | unlockTaken worker =>
      simp only [RequestsSection.seen] at idle
      split at idle
      · cases idle.1
      · exact idle
    | _ => exact idle

theorem Worker.Taking.not_idle {w : Worker} (taking : w.Taking) : ¬w.Idle := by
  rintro ⟨waits, -⟩
  cases taking.symm.trans waits

theorem Worker.Taking.not_parking {w : Worker} (taking : w.Taking) : ¬w.Parking := by
  intro parking
  cases taking.symm.trans parking

namespace LockedDispatcher
variable {s t : LockedDispatcher} {a : Action}

/-- Nobody leaves the wait with an empty slot. -/
theorem Sound.work_active (sound : s.Sound) {i : Nat} {w : Worker} {d : Dispatcher}
    (known : s.memory.allWorkers[i]? = some w) (worked : s.memory.work i = some d) : ¬w.Idle := by
  rintro ⟨waits, unready⟩
  have running : (s.seen i w).running = w.running := by
    unfold seen RequestsSection.seen WorkersSection.seen
    split <;> split <;> (try split) <;> (try split) <;> rfl
  have ok := sound.coarse.worker _ (List.mem_of_getElem? (coarse_known known))
  simp only [Dispatcher.work, known, waits, unready, running.symm.trans ok.running, Option.bind_eq_bind,
    Option.bind_some, Bool.false_eq_true, not_true_eq_false, or_self, if_false, reduceCtorEq] at worked

theorem Sound.workers_change (sound : s.Sound) (change : Change s a t) :
    ∀ place ∈ t.workersMutex, place.Holds t.memory := by
  intro place locked
  cases change with
  | startWorker =>
    exact (sound.workers place locked).frame (Nat.le_refl _) rfl
      (fun i at_ => at_.startWorker rfl) (fun i at_ => at_.startWorker rfl)
  | call =>
    refine (sound.workers place locked).frame ?_ rfl (fun i at_ => at_.congr rfl)
      (fun i at_ => at_.congr rfl)
    simp only [List.length_append, Nat.le_add_right]
  | lockWorkers free inside =>
    cases locked
    exact inside
  | lockRequests | unlockRequests | findsRequest | findsNoRequest | lockToTake =>
    exact sound.workers place locked
  | @findsWorker call worker before first =>
    cases locked
    refine ⟨sound.workers _ before, first, ?_⟩
    have queued : worker ∈ s.coarse.workers := by
      rw [LockedDispatcher.coarse, before]
      exact List.mem_of_mem_head? first
    obtain ⟨v, there, idle⟩ := sound.coarse.idle worker queued
    rw [LockedDispatcher.coarse, List.getElem?_mapIdx, Option.map_eq_some_iff] at there
    obtain ⟨w, known, rfl⟩ := there
    rw [seen, before] at idle
    exact ⟨w, known, RequestsSection.seen_idle idle⟩
  | findsNoWorker before none =>
    cases locked
    exact ⟨sound.workers _ before, none⟩
  | @handRequest call worker request w before waiting known =>
    cases locked
    obtain ⟨-, first, at_⟩ := sound.workers _ before
    have idle := at_.known known
    refine ⟨first, { w with request := some request }, ?_, idle⟩
    exact List.getElem?_set_self (List.getElem?_eq_some_iff.mp known).1
  | handReady | popWorker =>
    cases locked
    trivial
  | unlockWorkers | leave | parked => cases locked
  | pushWorker before =>
    cases locked
    exact (sound.workers _ before).congr rfl
  | pushRequest =>
    exact (sound.workers place locked).frame (Nat.le_refl _) rfl (fun i at_ => at_.congr rfl)
      (fun i at_ => at_.congr rfl)
  | popRequest =>
    exact (sound.workers place locked).frame (Nat.le_refl _) rfl (fun i at_ => at_.congr rfl)
      (fun i at_ => at_.congr rfl)
  | takeRequest before first known =>
    have taking := (sound.requests _ before).2.known known
    exact (sound.workers place locked).frame (Nat.le_refl _) rfl
      (fun i at_ => at_.setWorker known taking.not_idle rfl)
      (fun i at_ => at_.setWorker known taking.not_parking rfl)
  | takeReady before known | taken before known =>
    have taking := Dispatcher.At.known (sound.requests _ before) known
    exact (sound.workers place locked).frame (Nat.le_refl _) rfl
      (fun i at_ => at_.setWorker known taking.not_idle rfl)
      (fun i at_ => at_.setWorker known taking.not_parking rfl)
  | foundNone before known =>
    have taking := (sound.requests _ before).2.known known
    exact (sound.workers place locked).frame (Nat.le_refl _) rfl
      (fun i at_ => at_.setWorker known taking.not_idle rfl)
      (fun i at_ => at_.setWorker known taking.not_parking rfl)
  | @lockToPark worker w known at_ =>
    cases locked
    exact ⟨w, known, at_⟩
  | work known elsewhere unparked worked =>
    have active := sound.work_active known worked
    obtain ⟨w', done, rfl, -⟩ := Dispatcher.work_local known elsewhere unparked worked
    exact (sound.workers place locked).frame (Nat.le_refl _) rfl
      (fun i at_ => at_.setWorker known active rfl) (fun i at_ => at_.setWorker known unparked rfl)

theorem Sound.requests_change (sound : s.Sound) (change : Change s a t) :
    ∀ place ∈ t.requestsMutex, place.Holds t.memory := by
  intro place locked
  cases change with
  | startWorker =>
    exact (sound.requests place locked).frame (Nat.le_refl _) rfl (fun i at_ => at_.startWorker rfl)
  | call | popWorker | pushWorker =>
    exact (sound.requests place locked).frame (Nat.le_refl _) rfl (fun i at_ => at_.congr rfl)
  | lockRequests free inside =>
    cases locked
    exact inside
  | lockWorkers | unlockWorkers | findsWorker | findsNoWorker | lockToPark =>
    exact sound.requests place locked
  | leave =>
    refine (sound.requests place locked).frame ?_ rfl (fun i at_ => at_.congr rfl)
    simp only [List.length_append, Nat.le_add_right]
  | handRequest before waiting known =>
    have idle := (sound.workers _ before).2.2.known known
    exact (sound.requests place locked).frame (Nat.le_refl _) rfl
      (fun i at_ => at_.setWorker known (fun taking => taking.not_idle idle) rfl)
  | handReady before known =>
    have idle := (sound.workers _ before).2.known known
    exact (sound.requests place locked).frame (Nat.le_refl _) rfl
      (fun i at_ => at_.setWorker known (fun taking => taking.not_idle idle) rfl)
  | parked before known =>
    have parking := Dispatcher.At.known (sound.workers _ before) known
    exact (sound.requests place locked).frame (Nat.le_refl _) rfl
      (fun i at_ => at_.setWorker known (fun taking => taking.not_parking parking) rfl)
  | pushRequest =>
    cases locked
    trivial
  | unlockRequests | taken | foundNone => cases locked
  | findsRequest before some =>
    cases locked
    exact ⟨some, sound.requests _ before⟩
  | findsNoRequest before none =>
    cases locked
    exact ⟨none, sound.requests _ before⟩
  | @takeRequest worker request w before first known =>
    cases locked
    have taking := (sound.requests _ before).2.known known
    refine ⟨{ w with request := some request }, ?_, taking⟩
    exact List.getElem?_set_self (List.getElem?_eq_some_iff.mp known).1
  | @takeReady worker w before known =>
    cases locked
    have taking := Dispatcher.At.known (sound.requests _ before) known
    refine ⟨{ w with ready := true }, ?_, taking⟩
    exact List.getElem?_set_self (List.getElem?_eq_some_iff.mp known).1
  | popRequest before =>
    cases locked
    exact Dispatcher.At.congr (sound.requests _ before) rfl
  | @lockToTake worker w known at_ =>
    cases locked
    exact ⟨w, known, at_⟩
  | work known elsewhere unparked worked =>
    obtain ⟨w', done, rfl, -⟩ := Dispatcher.work_local known elsewhere unparked worked
    exact (sound.requests place locked).frame (Nat.le_refl _) rfl
      (fun i at_ => at_.setWorker known elsewhere rfl)

end LockedDispatcher

/-! ### Whole sections -/

namespace Dispatcher
variable {d : Dispatcher}

theorem eq_of {e : Dispatcher} (requests : d.requests = e.requests) (workers : d.workers = e.workers)
    (allWorkers : d.allWorkers = e.allWorkers) (calling : d.calling = e.calling)
    (queueing : d.queueing = e.queueing) (finished : d.finished = e.finished) : d = e := by
  cases d
  cases e
  cases requests
  cases workers
  cases allWorkers
  cases calling
  cases queueing
  cases finished
  rfl

theorem step_handOver {call worker : Nat} {request : RequestId} {workers : List Nat} {w : Worker}
    (waiting : d.calling[call]? = some request) (idle : d.workers = worker :: workers)
    (known : d.allWorkers[worker]? = some w) : d.step (.assign call) =
      some { d.setWorker worker (w.setRequest request) with
        calling := d.calling.eraseIdx call
        workers := workers } := by
  simp only [step, assign, waiting, idle, known, Option.bind_eq_bind, Option.bind_some]
  rfl

theorem step_noWorker {call : Nat} {request : RequestId} (waiting : d.calling[call]? = some request)
    (idle : d.workers = []) : d.step (.assign call) =
      some { d with
        calling := d.calling.eraseIdx call
        queueing := d.queueing ++ [request] } := by
  simp only [step, assign, waiting, idle, Option.bind_eq_bind, Option.bind_some]

theorem step_enqueue {call : Nat} {request : RequestId}
    (waiting : d.queueing[call]? = some request) : d.step (.enqueue call) =
      some { d with
        queueing := d.queueing.eraseIdx call
        requests := d.requests ++ [request] } := by
  simp only [step, enqueue, waiting, Option.bind_eq_bind, Option.bind_some]

theorem step_take {i : Nat} {w : Worker} {request : RequestId} {requests : List RequestId}
    (known : d.allWorkers[i]? = some w) (taking : w.Taking)
    (queued : d.requests = request :: requests) : d.step (.work i) =
      some { d.setWorker i { w.setRequest request with step := .testRunning } with
        requests := requests } := by
  unfold Worker.Taking at taking
  simp only [step, work, known, taking, takeRequest, queued, Option.bind_eq_bind, Option.bind_some]

theorem step_findsNone {i : Nat} {w : Worker} (known : d.allWorkers[i]? = some w)
    (taking : w.Taking) (none : d.requests = []) :
    d.step (.work i) = some (d.setWorker i { w with step := .park }) := by
  unfold Worker.Taking at taking
  simp only [step, work, known, taking, takeRequest, none, Option.bind_eq_bind, Option.bind_some]

theorem step_park {i : Nat} {w : Worker} (known : d.allWorkers[i]? = some w) (parking : w.Parking) :
    d.step (.work i) = some (d.park i w) := by
  unfold Worker.Parking at parking
  simp only [step, work, known, parking, Option.bind_eq_bind, Option.bind_some]

end Dispatcher

namespace LockedDispatcher
variable {s t : LockedDispatcher} {a : Action}

theorem Sound.step_handRequest (sound : s.Sound) {call worker : Nat} {request : RequestId}
    {w : Worker} (before : s.workersMutex = some (.storeRequest call worker))
    (waiting : s.memory.calling[call]? = some request)
    (known : s.memory.allWorkers[worker]? = some w) : s.coarse.step (.assign call) =
      some (LockedDispatcher.coarse { s with
        memory := { s.memory.setWorker worker { w with request := some request } with
          calling := s.memory.calling.eraseIdx call }
        workersMutex := some (.storeReady worker) }) := by
  obtain ⟨-, first, at_⟩ := sound.workers _ before
  have untaken := Dispatcher.not_at known (fun taking => Worker.Taking.not_idle taking (at_.known known))
  have plain : s.seen worker w = w := by
    rw [seen, before]
    exact sound.seen_requests untaken w
  have there := (coarse_known known).trans (congrArg some plain)
  have queue : s.coarse.workers = worker :: s.memory.workers.tail := by
    rw [LockedDispatcher.coarse, before]
    exact (List.cons_head?_tail first).symm
  have calling : s.coarse.calling[call]? = some request := waiting
  rw [Dispatcher.step_handOver calling queue there]
  refine congrArg some (Dispatcher.eq_of rfl rfl (coarse_set rfl ?_ ?_) rfl rfl rfl)
  · intro j other
    funext v
    simp only [seen, before, WorkersSection.seen, if_neg other]
  · simp only [seen, WorkersSection.seen, if_true]
    exact sound.seen_requests untaken _

theorem coarse_handReady {worker : Nat} {w : Worker}
    (before : s.workersMutex = some (.storeReady worker))
    (known : s.memory.allWorkers[worker]? = some w) :
    LockedDispatcher.coarse { s with
      memory := s.memory.setWorker worker { w with ready := true }
      workersMutex := some .pop } = s.coarse := by
  refine Dispatcher.eq_of rfl ?_ (coarse_same known rfl ?_ ?_) rfl rfl rfl
  · simp only [LockedDispatcher.coarse, before, WorkersSection.workers]
    rfl
  · intro j other
    funext v
    simp only [seen, before, WorkersSection.seen, if_neg other]
  · simp only [seen, before, WorkersSection.seen, if_true]

theorem Sound.step_pushWorker (sound : s.Sound) {worker : Nat}
    (before : s.workersMutex = some (.push worker)) : s.coarse.step (.work worker) =
      some (LockedDispatcher.coarse { s with
        memory := { s.memory with workers := s.memory.workers ++ [worker] }
        workersMutex := some (.unlockParked worker) }) := by
  obtain ⟨w, known, parking⟩ := sound.workers _ before
  have untaken := Dispatcher.not_at known (fun taking => Worker.Taking.not_parking taking parking)
  have plain : s.seen worker w = w := by
    rw [seen, before]
    exact sound.seen_requests untaken w
  have there := (coarse_known known).trans (congrArg some plain)
  have unchanged : s.memory.allWorkers = s.memory.allWorkers.set worker w := by
    obtain ⟨bound, at_⟩ := List.getElem?_eq_some_iff.mp known
    rw [← at_, List.set_getElem_self bound]
  rw [Dispatcher.step_park there parking]
  refine congrArg some (Dispatcher.eq_of rfl ?_ (coarse_set unchanged ?_ ?_) rfl rfl rfl)
  · simp only [Dispatcher.park, LockedDispatcher.coarse, before, WorkersSection.workers]
  · intro j other
    funext v
    simp only [seen, before, WorkersSection.seen, if_neg other]
  · simp only [seen, WorkersSection.seen, if_true]
    exact sound.seen_requests untaken _

theorem coarse_parked {worker : Nat} {w : Worker}
    (before : s.workersMutex = some (.unlockParked worker))
    (known : s.memory.allWorkers[worker]? = some w) :
    LockedDispatcher.coarse { s with
      memory := s.memory.setWorker worker { w with step := .wait }
      workersMutex := none } = s.coarse := by
  refine Dispatcher.eq_of rfl ?_ (coarse_same known rfl ?_ ?_) rfl rfl rfl
  · simp only [LockedDispatcher.coarse, before, WorkersSection.workers]
    rfl
  · intro j other
    funext v
    simp only [seen, before, WorkersSection.seen, if_neg other]
  · simp only [seen, before, WorkersSection.seen, if_true]

/-- A worker inside the first section of `addWorker` is in no other section. -/
theorem Sound.seen_taking (sound : s.Sound) {i : Nat} {w : Worker}
    (known : s.memory.allWorkers[i]? = some w) (taking : w.Taking) (v : Worker) :
    WorkersSection.seen s.workersMutex i v = v :=
  sound.seen_workers (Dispatcher.not_at known taking.not_idle)
    (Dispatcher.not_at known taking.not_parking) v

theorem Sound.step_takeRequest (sound : s.Sound) {worker : Nat} {request : RequestId} {w : Worker}
    (before : s.requestsMutex = some (.storeRequest worker))
    (first : s.memory.requests.head? = some request)
    (known : s.memory.allWorkers[worker]? = some w) : s.coarse.step (.work worker) =
      some (LockedDispatcher.coarse { s with
        memory := s.memory.setWorker worker { w with request := some request }
        requestsMutex := some (.storeReady worker) }) := by
  have taking := (sound.requests _ before).2.known known
  have plain : s.seen worker w = w := by
    rw [seen, before, sound.seen_taking known taking]
    rfl
  have there := (coarse_known known).trans (congrArg some plain)
  have queue : s.coarse.requests = request :: s.memory.requests.tail := by
    rw [LockedDispatcher.coarse, before]
    exact (List.cons_head?_tail first).symm
  rw [Dispatcher.step_take there taking queue]
  refine congrArg some (Dispatcher.eq_of rfl rfl (coarse_set rfl ?_ ?_) rfl rfl rfl)
  · intro j other
    funext v
    simp only [seen, before, RequestsSection.seen, if_neg other]
  · simp only [seen, RequestsSection.seen, if_true]
    rw [sound.seen_taking known taking]
    rfl

theorem Sound.coarse_takeReady (sound : s.Sound) {worker : Nat} {w : Worker}
    (before : s.requestsMutex = some (.storeReady worker))
    (known : s.memory.allWorkers[worker]? = some w) :
    LockedDispatcher.coarse { s with
      memory := s.memory.setWorker worker { w with ready := true }
      requestsMutex := some (.pop worker) } = s.coarse := by
  have taking := Dispatcher.At.known (sound.requests _ before) known
  refine Dispatcher.eq_of ?_ rfl (coarse_same known rfl ?_ ?_) rfl rfl rfl
  · simp only [LockedDispatcher.coarse, before, RequestsSection.requests]
    rfl
  · intro j other
    funext v
    simp only [seen, before, RequestsSection.seen, if_neg other]
  · simp only [seen, before, RequestsSection.seen, if_true, sound.seen_taking known taking]

theorem Sound.coarse_taken (sound : s.Sound) {worker : Nat} {w : Worker}
    (before : s.requestsMutex = some (.unlockTaken worker))
    (known : s.memory.allWorkers[worker]? = some w) :
    LockedDispatcher.coarse { s with
      memory := s.memory.setWorker worker { w with step := .testRunning }
      requestsMutex := none } = s.coarse := by
  have taking := Dispatcher.At.known (sound.requests _ before) known
  refine Dispatcher.eq_of ?_ rfl (coarse_same known rfl ?_ ?_) rfl rfl rfl
  · simp only [LockedDispatcher.coarse, before, RequestsSection.requests]
    rfl
  · intro j other
    funext v
    simp only [seen, before, RequestsSection.seen, if_neg other]
  · simp only [seen, before, RequestsSection.seen, if_true, sound.seen_taking known taking]

theorem Sound.step_foundNone (sound : s.Sound) {worker : Nat} {w : Worker}
    (before : s.requestsMutex = some (.unlockEmpty worker))
    (known : s.memory.allWorkers[worker]? = some w) : s.coarse.step (.work worker) =
      some (LockedDispatcher.coarse { s with
        memory := s.memory.setWorker worker { w with step := .park }
        requestsMutex := none }) := by
  obtain ⟨none, at_⟩ := sound.requests _ before
  have taking := at_.known known
  have plain : s.seen worker w = w := by
    rw [seen, before, sound.seen_taking known taking]
    rfl
  have there := (coarse_known known).trans (congrArg some plain)
  have queue : s.coarse.requests = [] := by
    rw [LockedDispatcher.coarse, before]
    exact none
  rw [Dispatcher.step_findsNone there taking queue]
  refine congrArg some (Dispatcher.eq_of ?_ rfl (coarse_set rfl ?_ ?_) rfl rfl rfl)
  · simp only [Dispatcher.setWorker, LockedDispatcher.coarse, before, RequestsSection.requests]
  · intro j other
    funext v
    simp only [seen, before, RequestsSection.seen]
  · simp only [seen, RequestsSection.seen, sound.seen_taking known taking]

theorem Sound.step_work (sound : s.Sound) {i : Nat} {w : Worker} {d : Dispatcher}
    (known : s.memory.allWorkers[i]? = some w) (elsewhere : ¬w.Taking) (unparked : ¬w.Parking)
    (worked : s.memory.work i = some d) :
    s.coarse.step (.work i) = some (LockedDispatcher.coarse { s with memory := d }) := by
  have active := sound.work_active known worked
  have plain : ∀ v, s.seen i v = v := by
    intro v
    rw [seen, sound.seen_workers (Dispatcher.not_at known active) (Dispatcher.not_at known unparked),
      sound.seen_requests (Dispatcher.not_at known elsewhere)]
  have there := (coarse_known known).trans (congrArg some (plain w))
  obtain ⟨w', done, rfl, all⟩ := Dispatcher.work_local known elsewhere unparked worked
  rw [Dispatcher.step, all s.coarse there]
  exact congrArg some (Dispatcher.eq_of rfl rfl (coarse_set rfl (fun _ _ => rfl) (plain w')) rfl rfl rfl)

theorem Sound.step_startWorker (sound : s.Sound) : s.coarse.step .startWorker =
    some (LockedDispatcher.coarse
      { s with memory := { s.memory with allWorkers := s.memory.allWorkers ++ [Worker.new] } }) := by
  have outside : ∀ p, ¬s.memory.At s.memory.allWorkers.length p :=
    fun p at_ => Nat.lt_irrefl _ at_.bound
  have fresh : s.seen s.memory.allWorkers.length Worker.new = Worker.new := by
    rw [seen, sound.seen_workers (outside _) (outside _), sound.seen_requests (outside _)]
  refine congrArg some (Dispatcher.eq_of rfl rfl ?_ rfl rfl rfl)
  calc s.coarse.allWorkers ++ [Worker.new]
      = s.memory.allWorkers.mapIdx s.seen ++ [s.seen s.memory.allWorkers.length Worker.new] := by
        rw [fresh]
        rfl
    _ = (s.memory.allWorkers ++ [Worker.new]).mapIdx s.seen := List.mapIdx_concat.symm

/-- A step is one of the dispatcher with whole sections, or none. -/
theorem Sound.follows (sound : s.Sound) (change : Change s a t) :
    (t.coarse = s.coarse ∧ a.given = []) ∨
      ∃ b, s.coarse.step b = some t.coarse ∧ b.given = a.given := by
  cases change with
  | startWorker => exact .inr ⟨_, sound.step_startWorker, rfl⟩
  | call => exact .inr ⟨.call _, rfl, rfl⟩
  | handRequest before waiting known => exact .inr ⟨_, sound.step_handRequest before waiting known, rfl⟩
  | handReady before known => exact .inl ⟨coarse_handReady before known, rfl⟩
  | leave before waiting =>
    obtain ⟨-, none⟩ := sound.workers _ before
    obtain ⟨d, m, n⟩ := s
    cases before
    exact .inr ⟨.assign _, Dispatcher.step_noWorker waiting none, rfl⟩
  | pushWorker before => exact .inr ⟨_, sound.step_pushWorker before, rfl⟩
  | parked before known => exact .inl ⟨coarse_parked before known, rfl⟩
  | pushRequest before waiting =>
    obtain ⟨d, m, n⟩ := s
    cases before
    exact .inr ⟨.enqueue _, Dispatcher.step_enqueue waiting, rfl⟩
  | takeRequest before first known =>
    exact .inr ⟨_, sound.step_takeRequest before first known, rfl⟩
  | takeReady before known => exact .inl ⟨sound.coarse_takeReady before known, rfl⟩
  | taken before known => exact .inl ⟨sound.coarse_taken before known, rfl⟩
  | foundNone before known => exact .inr ⟨_, sound.step_foundNone before known, rfl⟩
  | work known elsewhere unparked worked =>
    exact .inr ⟨_, sound.step_work known elsewhere unparked worked, rfl⟩
  | lockWorkers free | lockRequests free | lockToTake known at_ free | lockToPark known at_ free =>
    obtain ⟨d, m, n⟩ := s
    cases free
    exact .inl ⟨rfl, rfl⟩
  | findsWorker before | findsNoWorker before | popWorker before | unlockWorkers before
  | unlockRequests before | findsRequest before | findsNoRequest before | popRequest before =>
    obtain ⟨d, m, n⟩ := s
    cases before
    exact .inl ⟨rfl, rfl⟩

theorem Sound.change (sound : s.Sound) (change : Change s a t) : t.Sound where
  workers := sound.workers_change change
  requests := sound.requests_change change
  coarse := by
    rcases sound.follows change with ⟨same, -⟩ | ⟨b, moved, -⟩
    · rw [same]
      exact sound.coarse
    · exact sound.coarse.change (Dispatcher.step_change moved)

/-- What is seen of a worker is never another request. -/
theorem seen_request (i : Nat) (w : Worker) : (s.seen i w).request = w.request ∧
    (w.ready = true → (s.seen i w).ready = true) := by
  have first : (WorkersSection.seen s.workersMutex i w).request = w.request ∧
      (w.ready = true → (WorkersSection.seen s.workersMutex i w).ready = true) := by
    unfold WorkersSection.seen
    split
    · split
      · exact ⟨rfl, fun _ => rfl⟩
      · exact ⟨rfl, id⟩
    · split
      · exact ⟨rfl, id⟩
      · exact ⟨rfl, id⟩
    · exact ⟨rfl, id⟩
  unfold seen RequestsSection.seen
  split
  · split
    · exact ⟨first.1, fun _ => rfl⟩
    · exact first
  · split
    · exact first
    · exact first
  · split
    · exact first
    · exact first
  · exact first

/-- A worker that acts on its flag, or is in the middle of a request, has the pointer that it
was given. -/
theorem Sound.seen_loaded (sound : s.Sound) {i : Nat} {w : Worker}
    (known : s.memory.allWorkers[i]? = some w) (acts : w.ready = true ∨ w.step.busy = true) :
    ∃ v, s.coarse.allWorkers[i]? = some v ∧ v.request = w.request ∧ w.request.isSome = true := by
  have there := coarse_known known
  have ok := sound.coarse.worker _ (List.mem_of_getElem? there)
  obtain ⟨request, ready⟩ := s.seen_request i w
  refine ⟨_, there, request, ?_⟩
  rw [← request]
  rcases acts with set | busy
  · exact ok.loaded (ready set)
  · have plain : s.seen i w = w := by
      have apart : ∀ {p : Worker → Prop}, (p w → w.step.busy = false) → ¬s.memory.At i p := by
        intro p quiet at_
        cases busy.symm.trans (quiet (at_.known known))
      rw [seen, sound.seen_workers (apart fun idle => by rw [idle.1]; rfl)
        (apart fun parking => by rw [show w.step = .park from parking]; rfl),
        sound.seen_requests (apart fun taking => by rw [show w.step = .takeRequest from taking]; rfl)]
    rw [plain] at ok ⊢
    exact ok.busy busy

theorem sound_replay {labels : List Action} (replayed : replay step new labels = some s) : s.Sound :=
  replay_invariant (fun _ _ _ sound stepped => Sound.change sound (step_change stepped)) sound_new
    replayed

/-- Whatever the order in which the threads take the single steps of their sections, the run is
one of the dispatcher with whole sections, with the same requests. A worker never takes up a
request that it was not given, and no request is lost or doubled. -/
theorem sections_whole {labels : List Action} (replayed : replay step new labels = some s) :
    (∃ labels', replay Dispatcher.step Dispatcher.new labels' = some s.coarse ∧
      labels'.flatMap Dispatcher.Action.given = labels.flatMap Action.given) ∧
    (s.workersMutex = none → s.requestsMutex = none → s.coarse = s.memory) ∧
    (∀ (i : Nat) (w : Worker), s.memory.allWorkers[i]? = some w →
      w.ready = true ∨ w.step.busy = true →
      ∃ v, s.coarse.allWorkers[i]? = some v ∧ v.request = w.request ∧ w.request.isSome = true) ∧
    s.coarse.places.Perm (labels.flatMap Action.given) := by
  have sound := sound_replay replayed
  obtain ⟨labels', followed, same⟩ := @replay_refines _ _ _ _ _ step Dispatcher.step coarse Sound
    Action.given Dispatcher.Action.given (fun _ _ _ sound stepped => sound.change (step_change stepped))
    (fun _ _ _ sound stepped => sound.follows (step_change stepped)) _ _ _ sound_new replayed
  refine ⟨⟨labels', followed, same⟩, coarse_free, fun i w => sound.seen_loaded, ?_⟩
  rw [← same, List.perm_iff_count]
  exact Dispatcher.count_given followed

/-- The worker has seen `ready` and goes on while its entry is still in the idle queue. -/
theorem sections_whole_early : ∃ s : LockedDispatcher, s.memory.workers = [0] ∧
    s.coarse.workers = [] ∧ s.coarse.places.Perm [7] := by
  have replayed : replay step new [.startWorker, .work 0, .work 0, .work 0, .underRequests,
      .underRequests, .work 0, .underWorkers, .underWorkers, .call 7, .lockWorkers 0, .underWorkers,
      .underWorkers, .underWorkers, .work 0, .work 0, .work 0] =
        some ⟨⟨[], [0], [⟨some 7, true, true, .clearReady⟩], [], [], []⟩, some .pop, none⟩ := rfl
  exact ⟨_, rfl, rfl, (sections_whole replayed).2.2.2⟩

end LockedDispatcher
end NymphMqtt
