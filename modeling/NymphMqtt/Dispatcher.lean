import NymphMqtt.Library.Transition
import Mathlib.Data.List.Basic

/-! The dispatcher and its worker threads. Each critical section of `addRequest` and
`addWorker` is one step, and so is each access of a worker to its flags; the threads take
their steps in any order. -/

namespace NymphMqtt
open NymphMqtt.Library.Transition

/-- Requests are told apart by the call that brought them. -/
abbrev RequestId := Nat

/-! ### Workers -/

/-- Where a worker stands in `Worker::run`: before the two tests of its loop, before it
clears `ready`, in `process` and `finish`, before the two sections of `addWorker`, in the
loop that waits for `ready`, behind the end. -/
inductive WorkerStep where
  | testRunning
  | testReady
  | clearReady
  | process
  | finish
  | takeRequest
  | park
  | wait
  | ended
  deriving DecidableEq, Repr

structure Worker where
  request : Option RequestId
  running : Bool
  ready : Bool
  step : WorkerStep
  deriving DecidableEq, Repr

/-- A constructed worker whose thread has just been started. -/
def Worker.new : Worker := ⟨none, true, false, .testRunning⟩

def Worker.setRequest (w : Worker) (request : RequestId) : Worker :=
  { w with request := some request, ready := true }

/-! ### The dispatcher -/

/-- The static members, the `addRequest` calls that have not entered their first section,
those that found no worker and have not entered their second one, and the requests whose
`finish` has returned. -/
structure Dispatcher where
  requests : List RequestId
  workers : List Nat
  allWorkers : List Worker
  calling : List RequestId
  queueing : List RequestId
  finished : List RequestId
  deriving DecidableEq, Repr

namespace Dispatcher

def new : Dispatcher := ⟨[], [], [], [], [], []⟩

/-- `init` starts its threads one by one. -/
inductive Action where
  | startWorker
  | call (request : RequestId)
  | assign (call : Nat)
  | enqueue (call : Nat)
  | work (worker : Nat)
  deriving DecidableEq, Repr

def setWorker (d : Dispatcher) (i : Nat) (w : Worker) : Dispatcher :=
  { d with allWorkers := d.allWorkers.set i w }

/-- The first section of `addRequest`, under `workersMutex`. -/
def assign (d : Dispatcher) (call : Nat) : Option Dispatcher := do
  let request ← d.calling[call]?
  let d := { d with calling := d.calling.eraseIdx call }
  match d.workers with
  | worker :: workers =>
      let w ← d.allWorkers[worker]?
      some { d.setWorker worker (w.setRequest request) with workers := workers }
  | [] => some { d with queueing := d.queueing ++ [request] }

/-- The second section of `addRequest`, under `requestsMutex`. -/
def enqueue (d : Dispatcher) (call : Nat) : Option Dispatcher := do
  let request ← d.queueing[call]?
  some { d with queueing := d.queueing.eraseIdx call, requests := d.requests ++ [request] }

/-- The first section of `addWorker`, under `requestsMutex`. -/
def takeRequest (d : Dispatcher) (i : Nat) (w : Worker) : Dispatcher :=
  match d.requests with
  | request :: requests =>
      { d.setWorker i { w.setRequest request with step := .testRunning } with requests := requests }
  | [] => d.setWorker i { w with step := .park }

/-- The second section of `addWorker`, under `workersMutex`. -/
def park (d : Dispatcher) (i : Nat) (w : Worker) : Dispatcher :=
  { d.setWorker i { w with step := .wait } with workers := d.workers ++ [i] }

def finish (d : Dispatcher) (i : Nat) (w : Worker) : Dispatcher :=
  { d.setWorker i { w with step := .takeRequest } with
    finished := d.finished ++ w.request.toList }

/-- The next step of a worker. In the waiting loop a wake-up without `ready` changes
nothing, so only the way out of it is a step. -/
def work (d : Dispatcher) (i : Nat) : Option Dispatcher := do
  let w ← d.allWorkers[i]?
  match w.step with
  | .testRunning => d.setWorker i { w with step := if w.running then .testReady else .ended }
  | .testReady => d.setWorker i { w with step := if w.ready then .clearReady else .takeRequest }
  | .clearReady => d.setWorker i { w with ready := false, step := .process }
  | .process => d.setWorker i { w with step := .finish }
  | .finish => d.finish i w
  | .takeRequest => d.takeRequest i w
  | .park => d.park i w
  | .wait => if w.ready ∨ ¬w.running then d.setWorker i { w with step := .testRunning } else none
  | .ended => none

def step (d : Dispatcher) : Action → Option Dispatcher
  | .startWorker => some { d with allWorkers := d.allWorkers ++ [Worker.new] }
  | .call request => some { d with calling := d.calling ++ [request] }
  | .assign call => d.assign call
  | .enqueue call => d.enqueue call
  | .work worker => d.work worker

/-! ### What a step does -/

end Dispatcher

/-- The steps of a worker after which only its place in the loop is another. -/
inductive Worker.Goes (w : Worker) (requests : List RequestId) : WorkerStep → Prop
  | runs : w.step = .testRunning → w.running = true → Goes w requests .testReady
  | ends : w.step = .testRunning → w.running = false → Goes w requests .ended
  | seesReady : w.step = .testReady → w.ready = true → Goes w requests .clearReady
  | seesNone : w.step = .testReady → w.ready = false → Goes w requests .takeRequest
  | processed : w.step = .process → Goes w requests .finish
  | findsNone : w.step = .takeRequest → requests = [] → Goes w requests .park
  | wakes : w.step = .wait → w.ready = true ∨ ¬w.running → Goes w requests .testRunning

namespace Dispatcher

/-- All that a step does. -/
inductive Change (d : Dispatcher) : Action → Dispatcher → Prop
  | startWorker : Change d .startWorker { d with allWorkers := d.allWorkers ++ [Worker.new] }
  | call {request : RequestId} : Change d (.call request) { d with calling := d.calling ++ [request] }
  | handOver {call worker : Nat} {request : RequestId} {workers : List Nat} {w : Worker} :
      d.calling[call]? = some request → d.workers = worker :: workers →
      d.allWorkers[worker]? = some w →
      Change d (.assign call) { d.setWorker worker (w.setRequest request) with
        calling := d.calling.eraseIdx call
        workers := workers }
  | noWorker {call : Nat} {request : RequestId} : d.calling[call]? = some request →
      d.workers = [] →
      Change d (.assign call) { d with
        calling := d.calling.eraseIdx call
        queueing := d.queueing ++ [request] }
  | enqueue {call : Nat} {request : RequestId} : d.queueing[call]? = some request →
      Change d (.enqueue call) { d with
        queueing := d.queueing.eraseIdx call
        requests := d.requests ++ [request] }
  | goOn {worker : Nat} {w : Worker} {step : WorkerStep} : d.allWorkers[worker]? = some w →
      w.Goes d.requests step →
      Change d (.work worker) (d.setWorker worker { w with step := step })
  | clearReady {worker : Nat} {w : Worker} : d.allWorkers[worker]? = some w →
      w.step = .clearReady →
      Change d (.work worker) (d.setWorker worker { w with ready := false, step := .process })
  | finish {worker : Nat} {w : Worker} : d.allWorkers[worker]? = some w → w.step = .finish →
      Change d (.work worker) (d.finish worker w)
  | take {worker : Nat} {w : Worker} {request : RequestId} {requests : List RequestId} :
      d.allWorkers[worker]? = some w → w.step = .takeRequest → d.requests = request :: requests →
      Change d (.work worker) { d.setWorker worker { w.setRequest request with step := .testRunning }
        with requests := requests }
  | park {worker : Nat} {w : Worker} : d.allWorkers[worker]? = some w → w.step = .park →
      Change d (.work worker) (d.park worker w)

theorem work_change {d d' : Dispatcher} {worker : Nat} (stepped : d.work worker = some d') :
    Change d (.work worker) d' := by
  obtain ⟨w, known, rest⟩ := Option.bind_eq_some_iff.mp stepped
  cases at_ : w.step with
  | takeRequest =>
    simp only [at_, Option.some.injEq, takeRequest] at rest
    cases queued : d.requests with
    | nil =>
      simp only [queued] at rest
      subst rest
      exact .goOn known (.findsNone at_ queued)
    | cons request requests =>
      simp only [queued] at rest
      subst rest
      exact .take known at_ queued
  | wait =>
    simp only [at_] at rest
    split at rest
    next wake =>
      cases rest
      exact .goOn known (.wakes at_ wake)
    next => cases rest
  | clearReady =>
    simp only [at_, Option.some.injEq] at rest
    subst rest
    exact .clearReady known at_
  | finish =>
    simp only [at_, Option.some.injEq] at rest
    subst rest
    exact .finish known at_
  | park =>
    simp only [at_, Option.some.injEq] at rest
    subst rest
    exact .park known at_
  | ended => simp only [at_, reduceCtorEq] at rest
  | testRunning =>
    simp only [at_, Option.some.injEq] at rest
    subst rest
    split
    next running => exact .goOn known (.runs at_ running)
    next stopped => exact .goOn known (.ends at_ (eq_false_of_ne_true stopped))
  | testReady =>
    simp only [at_, Option.some.injEq] at rest
    subst rest
    split
    next ready => exact .goOn known (.seesReady at_ ready)
    next idle => exact .goOn known (.seesNone at_ (eq_false_of_ne_true idle))
  | process =>
    simp only [at_, Option.some.injEq] at rest
    subst rest
    exact .goOn known (.processed at_)

theorem step_change {d d' : Dispatcher} {a : Action} (stepped : d.step a = some d') :
    Change d a d' := by
  cases a with
  | startWorker =>
    cases stepped
    exact .startWorker
  | call request =>
    cases stepped
    exact .call
  | assign call =>
    obtain ⟨request, waiting, rest⟩ := Option.bind_eq_some_iff.mp stepped
    cases idle : d.workers with
    | nil =>
      simp only [idle, Option.some.injEq] at rest
      subst rest
      have moved := Change.noWorker waiting idle
      rw [idle] at moved
      exact moved
    | cons worker workers =>
      simp only [idle] at rest
      obtain ⟨w, known, handed⟩ := Option.bind_eq_some_iff.mp rest
      cases handed
      exact .handOver waiting idle known
  | enqueue call =>
    obtain ⟨request, waiting, pushed⟩ := Option.bind_eq_some_iff.mp stepped
    cases pushed
    exact .enqueue waiting
  | work worker => exact work_change stepped

/-- The step of a worker that pushes it onto the idle queue. -/
def Parks (d : Dispatcher) (i : Nat) : Prop := d.allWorkers[i]?.map Worker.step = some .park

theorem parks_iff {d : Dispatcher} {i : Nat} {w : Worker} (known : d.allWorkers[i]? = some w) :
    d.Parks i ↔ w.step = .park := by
  rw [Parks, known, Option.map_some, Option.some.injEq]

/-! ### Stranded requests -/

/-- No `addRequest` call and no `addWorker` call is in progress. -/
def Settled (d : Dispatcher) : Prop :=
  d.calling = [] ∧ d.queueing = [] ∧
    ∀ w ∈ d.allWorkers, w.step ≠ .takeRequest ∧ w.step ≠ .park

def Stranded (d : Dispatcher) : Prop := d.requests ≠ [] ∧ d.workers ≠ []

instance (d : Dispatcher) : Decidable d.Settled := inferInstanceAs (Decidable (_ ∧ _))

instance (d : Dispatcher) : Decidable d.Stranded := inferInstanceAs (Decidable (_ ∧ _))

/-- What the first section of a call saw still holds when its second section pushes: the
other queue is empty. -/
def CheckHolds (d : Dispatcher) : Action → Prop
  | .enqueue _ => d.workers = []
  | .work worker => d.Parks worker → d.requests = []
  | _ => True

instance (d : Dispatcher) (a : Action) : Decidable (d.CheckHolds a) :=
  match a with
  | .enqueue _ => inferInstanceAs (Decidable (d.workers = []))
  | .work worker =>
      inferInstanceAs (Decidable (d.allWorkers[worker]?.map Worker.step = some .park → d.requests = []))
  | .startWorker | .call _ | .assign _ => inferInstanceAs (Decidable True)

/-- A push on a check that still holds strands nothing. -/
theorem step_not_stranded {d d' : Dispatcher} {a : Action} (before : ¬d.Stranded)
    (holds : d.CheckHolds a) (stepped : d.step a = some d') : ¬d'.Stranded := by
  intro ⟨waiting, idle⟩
  cases step_change stepped with
  | handOver calls workers => exact before ⟨waiting, by rw [workers]; exact List.cons_ne_nil _ _⟩
  | enqueue calls => exact idle holds
  | take known at_ requests => exact before ⟨by rw [requests]; exact List.cons_ne_nil _ _, idle⟩
  | park known at_ => exact waiting (holds ((parks_iff known).mpr at_))
  | _ => exact before ⟨waiting, idle⟩

theorem enqueue_pushes {d d' : Dispatcher} {call : Nat} (stepped : d.step (.enqueue call) = some d') :
    d'.requests ≠ [] ∧ d'.workers = d.workers ∧ d'.allWorkers = d.allWorkers := by
  cases step_change stepped with
  | enqueue calls => exact ⟨by simp, rfl, rfl⟩

theorem park_pushes {d d' : Dispatcher} {worker : Nat} (parks : d.Parks worker)
    (stepped : d.step (.work worker) = some d') :
    d'.workers ≠ [] ∧ d'.requests = d.requests ∧ d'.queueing = d.queueing := by
  obtain ⟨w, known, at_⟩ := Option.map_eq_some_iff.mp parks
  have moved : d.step (.work worker) = some (d.park worker w) := by
    simp only [step, work, known, at_, Option.bind_eq_bind, Option.bind_some]
  cases stepped.symm.trans moved
  exact ⟨by simp [park], rfl, rfl⟩

/-- A push on a stale check leaves both queues non-empty. -/
theorem step_stranded {d d' : Dispatcher} {a : Action} (stale : ¬d.CheckHolds a)
    (stepped : d.step a = some d') : d'.Stranded := by
  cases a with
  | enqueue call =>
    obtain ⟨waiting, workers, -⟩ := enqueue_pushes stepped
    exact ⟨waiting, workers ▸ stale⟩
  | work worker =>
    obtain ⟨parks, waiting⟩ := Classical.not_imp.mp stale
    obtain ⟨idle, requests, -⟩ := park_pushes parks stepped
    exact ⟨requests ▸ waiting, idle⟩
  | _ => exact absurd trivial stale

/-! ### The order of the sections -/

/-- Between the two sections of an `addRequest` call that found no worker, no `addWorker` call pushes
one; and between the two sections of an `addWorker` call that found no request, no `addRequest` call
pushes one. -/
def Scheduled (d : Dispatcher) : Action → Prop
  | .enqueue _ => ∀ w ∈ d.allWorkers, w.step ≠ .park
  | .work worker => d.Parks worker → d.queueing = []
  | _ => True

instance (d : Dispatcher) (a : Action) : Decidable (d.Scheduled a) :=
  match a with
  | .enqueue _ => inferInstanceAs (Decidable (∀ w ∈ d.allWorkers, w.step ≠ .park))
  | .work worker =>
      inferInstanceAs (Decidable (d.allWorkers[worker]?.map Worker.step = some .park → d.queueing = []))
  | .startWorker | .call _ | .assign _ => inferInstanceAs (Decidable True)

/-- What each call found empty is empty until its own push. -/
structure Found (d : Dispatcher) : Prop where
  worker : d.queueing ≠ [] → d.workers = []
  request : ∀ w ∈ d.allWorkers, w.step = .park → d.requests = []

theorem found_new : new.Found := ⟨fun waits => absurd rfl waits, fun _ member => nomatch member⟩

/-- A worker that was none to park, or the step before was, is replaced. -/
theorem Found.setWorker {d : Dispatcher} {requests : List RequestId} (found : d.Found) {i : Nat}
    {w' : Worker} (same : d.requests = [] → requests = []) (parks : w'.step = .park → requests = []) :
    ∀ w ∈ d.allWorkers.set i w', w.step = .park → requests = [] := by
  intro w member at_
  cases List.mem_or_eq_of_mem_set member with
  | inl old => exact same (found.request w old at_)
  | inr new => exact parks (new ▸ at_)

/-- Under the schedule what a call found still holds at its push. -/
theorem Found.checkHolds {d d' : Dispatcher} {a : Action} (found : d.Found)
    (stepped : d.step a = some d') (scheduled : d.Scheduled a) : d.CheckHolds a := by
  cases step_change stepped with
  | enqueue calls =>
    apply found.worker
    intro none
    rw [none] at calls
    cases calls
  | goOn known | clearReady known | finish known | take known | park known =>
    intro parks
    exact found.request _ (List.mem_of_getElem? known) ((parks_iff known).mp parks)
  | _ => trivial

theorem Found.step {d d' : Dispatcher} {a : Action} (found : d.Found) (scheduled : d.Scheduled a)
    (stepped : d.step a = some d') : d'.Found := by
  cases step_change stepped with
  | startWorker =>
    refine ⟨found.worker, fun w member at_ => ?_⟩
    rcases List.mem_append.mp member with old | new
    · exact found.request w old at_
    · rw [List.mem_singleton.mp new] at at_
      cases at_
  | call => exact ⟨found.worker, found.request⟩
  | @handOver call worker request workers w calls idle known =>
    constructor
    · intro waits
      rw [found.worker waits] at idle
      cases idle
    · exact found.setWorker id fun at_ => found.request w (List.mem_of_getElem? known) at_
  | noWorker calls none => exact ⟨fun _ => none, found.request⟩
  | enqueue calls =>
    constructor
    · intro _
      exact found.checkHolds stepped scheduled
    · exact fun w member at_ => absurd at_ (scheduled w member)
  | goOn known goes =>
    refine ⟨found.worker, found.setWorker id fun at_ => ?_⟩
    cases goes with
    | findsNone _ none => exact none
    | _ => cases at_
  | clearReady known at_ | finish known at_ =>
    exact ⟨found.worker, found.setWorker id fun at_ => by cases at_⟩
  | take known at_ requests =>
    refine ⟨found.worker, found.setWorker (fun none => ?_) fun at_ => by cases at_⟩
    rw [none] at requests
    cases requests
  | park known at_ =>
    constructor
    · intro waits
      exact absurd (scheduled ((parks_iff known).mpr at_)) waits
    · exact found.setWorker id fun at_ => by cases at_

/-- Where no call pushes onto a queue that another one has found empty and is still to push for, no
request waits beside an idle worker. -/
theorem no_stranded_request {d : Dispatcher} (run : Run step Scheduled new d) : ¬d.Stranded := by
  have both : d.Found ∧ ¬d.Stranded := by
    apply run.invariant
    · exact ⟨found_new, fun stranded => stranded.1 rfl⟩
    · rintro t a u ⟨found, before⟩ scheduled stepped
      exact ⟨found.step scheduled stepped,
        step_not_stranded before (found.checkHolds stepped scheduled) stepped⟩
  exact both.2

/-- The worker parks, a first request is handed to it, and a second one has to wait. -/
theorem no_stranded_request_busy : ∃ d : Dispatcher, d.requests = [8] ∧ ¬d.Stranded := by
  have replayed : replay (guarded step Scheduled) new [.startWorker, .work 0, .work 0, .work 0,
      .work 0, .call 7, .assign 0, .call 8, .assign 0, .enqueue 0] =
        some ⟨[8], [], [⟨some 7, true, true, .wait⟩], [], [], []⟩ := rfl
  exact ⟨_, rfl, no_stranded_request (run_of_replay replayed)⟩

/-- After a push against the schedule the other call is on its way to a push on a stale check. -/
theorem unscheduled_strands {d d' : Dispatcher} {a : Action} (against : ¬d.Scheduled a)
    (stepped : d.step a = some d') : ∃ b d'', d'.step b = some d'' ∧ d''.Stranded := by
  cases a with
  | enqueue call =>
    obtain ⟨w, against⟩ := not_forall.mp against
    obtain ⟨member, parks⟩ := Classical.not_imp.mp against
    obtain ⟨i, known⟩ := List.mem_iff_getElem?.mp member
    obtain ⟨waiting, -, same⟩ := enqueue_pushes stepped
    have parks : d'.Parks i := (parks_iff (same ▸ known)).mpr (not_not.mp parks)
    obtain ⟨w', known', at_⟩ := Option.map_eq_some_iff.mp parks
    have moved : d'.step (.work i) = some (d'.park i w') := by
      simp only [step, work, known', at_, Option.bind_eq_bind, Option.bind_some]
    have stale : ¬d'.CheckHolds (.work i) := fun holds => waiting (holds parks)
    exact ⟨.work i, _, moved, step_stranded stale moved⟩
  | work worker =>
    obtain ⟨parks, calls⟩ := Classical.not_imp.mp against
    obtain ⟨idle, -, same⟩ := park_pushes parks stepped
    obtain ⟨request, queueing, waits⟩ := List.exists_cons_of_ne_nil (same ▸ calls)
    have moved : d'.step (.enqueue 0) = some { d' with
        queueing := d'.queueing.eraseIdx 0, requests := d'.requests ++ [request] } := by
      simp only [step, enqueue, waits, List.getElem?_cons_zero, Option.bind_eq_bind, Option.bind_some]
    have stale : ¬d'.CheckHolds (.enqueue 0) := idle
    exact ⟨.enqueue 0, _, moved, step_stranded stale moved⟩
  | _ => exact absurd trivial against

/-- The worker finds no request, a call finds no worker, and then both push: nothing is
in progress any more, the request waits and the worker is idle. -/
theorem stranded_request :
    ∃ d, replay step new [.startWorker, .work 0, .work 0, .work 0, .call 7, .assign 0, .enqueue 0,
      .work 0] = some d ∧ d.Settled ∧ d.Stranded := by
  refine ⟨_, rfl, ?_⟩
  decide

end Dispatcher
end NymphMqtt
