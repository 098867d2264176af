import NymphMqtt.DispatcherCustody

/-! `Dispatcher::init` and `Dispatcher::stop`, called one after the other, beside the workers and the
`addRequest` calls of other threads. -/

namespace NymphMqtt
open NymphMqtt.Library NymphMqtt.Library.Transition

/-! ### The threads -/

/-- An entry of `threads`: how often it was joined and deleted. No entry is ever taken out. -/
structure ThreadUse where
  joins : Nat
  deletes : Nat
  deriving DecidableEq, Repr

/-- In no call, in `init` with some threads to start, in the first loop of `stop` and in the second
one, before a join and before the delete behind it. -/
inductive Control where
  | idle
  | starting (left : Nat)
  | clearing (i : Nat)
  | joining (j : Nat)
  | deleting (j : Nat)
  deriving DecidableEq, Repr

def Control.stopping : Control → Bool
  | .clearing _ | .joining _ | .deleting _ => true
  | _ => false

/-- The thread of a worker has the worker's index. `awaited` is how many threads there were when `stop`
returned. `assigned` are the requests that stood in a worker's slot when `stop` was called, each with the
worker, and `processed` those that were finished since then. `handed` tells for each request that was
handed to a worker whether its `run` had not ended. -/
structure ThreadPool where
  dispatcher : Dispatcher
  threads : List ThreadUse
  control : Control
  awaited : Nat
  assigned : List (Nat × RequestId)
  processed : List (Nat × RequestId)
  handed : List Bool
  deriving DecidableEq, Repr

namespace ThreadPool

def new : ThreadPool := ⟨.new, [], .idle, 0, [], [], []⟩

/-- `advance` is the next step of the call of `init` or `stop`. -/
inductive Action where
  | init (workers : Nat)
  | stop
  | advance
  | thread (action : Dispatcher.Action)
  deriving DecidableEq, Repr

/-- The requests in the slots of the workers. -/
def slots (d : Dispatcher) : List (Nat × RequestId) :=
  d.allWorkers.zipIdx.flatMap fun (w, i) => w.slot.map fun request => (i, request)

/-- `allWorkers[i]->stop()`. -/
def stopWorker (d : Dispatcher) (i : Nat) : Option Dispatcher :=
  d.allWorkers[i]?.map fun w => d.setWorker i { w with running := false }

def ended (d : Dispatcher) (i : Nat) : Bool := d.allWorkers[i]?.map Worker.step = some .ended

/-- A join returns when the thread has. -/
def advance (p : ThreadPool) : Option ThreadPool :=
  match p.control with
  | .idle => none
  | .starting 0 => some { p with control := .idle }
  | .starting (left + 1) => do
      let d ← p.dispatcher.step .startWorker
      some { p with dispatcher := d, threads := p.threads ++ [⟨0, 0⟩], control := .starting left }
  | .clearing i =>
      match stopWorker p.dispatcher i with
      | some d => some { p with dispatcher := d, control := .clearing (i + 1) }
      | none => some { p with control := .joining 0 }
  | .joining j =>
      match p.threads[j]? with
      | some t =>
          if ended p.dispatcher j then
            some { p with threads := p.threads.set j { t with joins := t.joins + 1 }, control := .deleting j }
          else none
      | none => some { p with control := .idle, awaited := p.threads.length }
  | .deleting j => do
      let t ← p.threads[j]?
      some { p with
        threads := p.threads.set j { t with deletes := t.deletes + 1 }
        control := .joining (j + 1) }

/-- What a worker finishes in this step, with the worker. -/
def finishes (d : Dispatcher) : Dispatcher.Action → List (Nat × RequestId)
  | .work i =>
      match d.allWorkers[i]? with
      | some w => if w.step = .finish then w.request.toList.map fun request => (i, request) else []
      | none => []
  | _ => []

/-- A step of a worker, or of a call of `addRequest`. -/
def threadStep (p : ThreadPool) (a : Dispatcher.Action) : Option ThreadPool :=
  if a = .startWorker then none
  else (p.dispatcher.step a).map fun d =>
    { p with
      dispatcher := d
      processed := p.processed ++ finishes p.dispatcher a
      handed := p.handed ++ (p.dispatcher.receiver a).toList.map fun i => !ended p.dispatcher i }

def step (p : ThreadPool) : Action → Option ThreadPool
  | .init workers => if p.control = .idle then some { p with control := .starting workers } else none
  | .stop =>
      if p.control = .idle then
        some { p with control := .clearing 0, assigned := slots p.dispatcher, processed := [] }
      else none
  | .advance => p.advance
  | .thread a => p.threadStep a

/-- No thread was joined or deleted twice, those that a `stop` has waited for were joined and deleted, no
request was handed to a worker behind its end, and after `stop` the requests are processed that were
assigned before it was called. -/
structure ShutDown (p : ThreadPool) : Prop where
  once : ∀ t ∈ p.threads, t.joins ≤ 1 ∧ t.deletes ≤ 1
  all : ∀ j < p.awaited, p.threads[j]? = some ⟨1, 1⟩
  handed : ∀ alive ∈ p.handed, alive = true
  processed : p.control.stopping = false → ∀ load ∈ p.assigned, load ∈ p.processed

/-! ### The condition -/

/-- The worker has not finished the request that was assigned to it before `stop` was called. -/
def Owes (p : ThreadPool) (i : Nat) : Prop := ∃ load ∈ p.assigned, load.1 = i ∧ load ∉ p.processed

instance (p : ThreadPool) (i : Nat) : Decidable (p.Owes i) :=
  inferInstanceAs (Decidable (∃ load ∈ p.assigned, _))

/-- A flag is not cleared where the worker has yet to test it before a request that it owes. -/
def InTime (p : ThreadPool) : Control → Prop
  | .clearing i => ∀ w ∈ p.dispatcher.allWorkers[i]?, w.step = .testRunning ∨ w.step = .wait → ¬p.Owes i
  | _ => True

/-- `stop` is called while no thread was joined, it clears the flags in time, and `addRequest` takes a
worker that was not told to stop. -/
def Heeded (p : ThreadPool) : Action → Prop
  | .stop => ∀ t ∈ p.threads, t.joins = 0
  | .advance => p.InTime p.control
  | .thread (.assign _) => ∀ i ∈ p.dispatcher.workers.head?, ∀ w ∈ p.dispatcher.allWorkers[i]?,
      w.running = true
  | _ => True

instance (p : ThreadPool) : (control : Control) → Decidable (p.InTime control)
  | .clearing i => inferInstanceAs (Decidable (∀ w ∈ p.dispatcher.allWorkers[i]?, _ → _))
  | .idle | .starting _ | .joining _ | .deleting _ => instDecidableTrue

instance (p : ThreadPool) : (a : Action) → Decidable (p.Heeded a)
  | .stop => inferInstanceAs (Decidable (∀ t ∈ p.threads, _))
  | .advance => inferInstanceAs (Decidable (p.InTime p.control))
  | .thread (.assign _) => inferInstanceAs (Decidable (∀ i ∈ p.dispatcher.workers.head?, ∀ w ∈ _, _))
  | .init _ | .thread .startWorker | .thread (.call _) | .thread (.enqueue _) | .thread (.work _) =>
      instDecidableTrue

end ThreadPool

/-! ### Workers that may be told to stop -/

namespace Worker

/-- What is true of every worker, with its flag set or cleared. -/
structure Steady (w : Worker) : Prop where
  loadable : w.ready = true → w.step.loadable = true ∨ w.step = .ended
  clear : w.step = .clearReady → w.ready = true
  ended : w.step = .ended → w.running = false

/-- Where a worker in the idle queue stands. Told to stop, it leaves its wait without leaving the queue. -/
def Idles (w : Worker) : Prop :=
  w.ready = false ∧ (w.step = .wait ∨ w.running = false ∧ (w.step = .testRunning ∨ w.step = .ended))

/-- The worker processes the request in its slot, or has it in process. -/
def Bound (w : Worker) : Prop :=
  w.ready = true ∧ (w.step = .testReady ∨ w.step = .clearReady ∨
    w.running = true ∧ (w.step = .testRunning ∨ w.step = .wait)) ∨ w.step.busy = true

theorem steady_new : Worker.new.Steady := ⟨nofun, nofun, nofun⟩

theorem Steady.not_ready {w : Worker} (steady : w.Steady) (taken : w.step.loadable = false)
    (running : w.step ≠ .ended) : w.ready = false := by
  rw [← Bool.not_eq_true]
  intro ready
  rcases steady.loadable ready with loadable | ended
  · cases taken.symm.trans loadable
  · exact running ended

theorem Steady.stop {w : Worker} (steady : w.Steady) : Steady { w with running := false } :=
  ⟨steady.loadable, steady.clear, fun _ => rfl⟩

theorem Idles.stop {w : Worker} (idles : w.Idles) : Idles { w with running := false } :=
  ⟨idles.1, idles.2.imp_right fun told => ⟨rfl, told.2⟩⟩

theorem not_idles {w : Worker} {step : WorkerStep} (at_ : w.step = step)
    (active : step ≠ .wait ∧ step ≠ .testRunning ∧ step ≠ .ended) : ¬w.Idles := by
  subst at_
  rintro ⟨-, waits | ⟨-, tests | ended⟩⟩
  · exact active.1 waits
  · exact active.2.1 tests
  · exact active.2.2 ended

theorem Idles.not_bound {w : Worker} (idles : w.Idles) : ¬w.Bound := by
  obtain ⟨unready, at_ | ⟨-, at_ | at_⟩⟩ := idles
  all_goals
    rintro (⟨ready, -⟩ | busy)
    · cases unready.symm.trans ready
    · rw [at_] at busy
      cases busy

theorem not_bound {w : Worker} {step : WorkerStep} (at_ : w.step = step)
    (behind : step = .takeRequest ∨ step = .park ∨ step = .ended) : ¬w.Bound := by
  subst at_
  rintro (⟨-, place⟩ | busy)
  · rcases behind with at_ | at_ | at_
    all_goals
      rw [at_] at place
      simp at place
  · rcases behind with at_ | at_ | at_
    all_goals
      rw [at_] at busy
      cases busy

section Goes
variable {w : Worker} {requests : List RequestId} {step : WorkerStep} (goes : w.Goes requests step)
include goes

theorem Goes.steady (steady : w.Steady) : Steady { w with step := step } := by
  refine ⟨?_, goes.clear, ?_⟩
  · intro ready
    cases goes with
    | runs | seesReady | wakes => exact .inl rfl
    | ends => exact .inr rfl
    | seesNone at_ idle => cases ready.symm.trans idle
    | processed at_ =>
      cases ready.symm.trans (steady.not_ready (by rw [at_]; rfl) (by rw [at_]; nofun))
    | findsNone at_ =>
      cases ready.symm.trans (steady.not_ready (by rw [at_]; rfl) (by rw [at_]; nofun))
  · intro gone
    cases goes with
    | ends at_ stopped => exact stopped
    | _ => cases gone

/-- A worker of the idle queue only runs to its end. -/
theorem Goes.idles (idles : w.Idles) : Idles { w with step := step } := by
  obtain ⟨unready, place⟩ := idles
  refine ⟨unready, .inr ?_⟩
  cases goes with
  | wakes at_ wake =>
    rw [unready] at wake
    exact ⟨eq_false_of_ne_true (wake.resolve_left nofun), .inl rfl⟩
  | ends at_ stopped => exact ⟨stopped, .inr rfl⟩
  | runs at_ running =>
    rw [at_] at place
    obtain ⟨stopped, -⟩ := place.resolve_left nofun
    cases running.symm.trans stopped
  | seesReady at_ | seesNone at_ | processed at_ | findsNone at_ =>
    rw [at_] at place
    obtain ⟨-, told | told⟩ := place.resolve_left nofun
    · cases told
    · cases told

/-- A worker that is bound to process a request goes on to it. -/
theorem Goes.bound (bound : w.Bound) : Bound { w with step := step } := by
  rcases bound with ⟨ready, place⟩ | busy
  · cases goes with
    | runs => exact .inl ⟨ready, .inl rfl⟩
    | seesReady => exact .inl ⟨ready, .inr (.inl rfl)⟩
    | processed => exact .inr rfl
    | seesNone at_ idle => cases ready.symm.trans idle
    | ends at_ stopped =>
      rw [at_] at place
      obtain clear | clear | ⟨running, -⟩ := place
      · cases clear
      · cases clear
      · cases running.symm.trans stopped
    | findsNone at_ =>
      rw [at_] at place
      obtain clear | clear | ⟨-, early | early⟩ := place
      · cases clear
      · cases clear
      · cases early
      · cases early
    | wakes at_ =>
      rw [at_] at place
      obtain clear | clear | ⟨running, -⟩ := place
      · cases clear
      · cases clear
      · exact .inl ⟨ready, .inr (.inr ⟨running, .inl rfl⟩)⟩
  · exact .inr (goes.busy.trans busy)

end Goes
end Worker

/-! ### Dispatchers with such workers -/

namespace Dispatcher

structure Steady (d : Dispatcher) : Prop where
  worker : ∀ w ∈ d.allWorkers, w.Steady
  nodup : d.workers.Nodup
  idle : ∀ i ∈ d.workers, ∃ w, d.allWorkers[i]? = some w ∧ w.Idles

theorem steady_new : new.Steady where
  worker := fun _ member => nomatch member
  nodup := List.nodup_nil
  idle := fun _ member => nomatch member

namespace Steady
variable {d : Dispatcher} (steady : d.Steady)
include steady

theorem idles {i : Nat} {w : Worker} (known : d.allWorkers[i]? = some w) (queued : i ∈ d.workers) : w.Idles := by
  obtain ⟨w', known', idles⟩ := steady.idle i queued
  cases known.symm.trans known'
  exact idles

theorem out {i : Nat} {w : Worker} (known : d.allWorkers[i]? = some w) (active : ¬w.Idles) : i ∉ d.workers :=
  fun queued => active (steady.idles known queued)

/-- A worker is replaced by one that may stay in the idle queue if the first one could. -/
theorem setWorker {i : Nat} {w w' : Worker} (known : d.allWorkers[i]? = some w) (ok : w'.Steady)
    (idles : i ∈ d.workers → w'.Idles) : (d.setWorker i w').Steady where
  worker := by
    intro v member
    rcases List.mem_or_eq_of_mem_set member with old | rfl
    · exact steady.worker v old
    · exact ok
  nodup := steady.nodup
  idle := by
    intro j member
    change ∃ w, (d.allWorkers.set i w')[j]? = some w ∧ _
    by_cases same : i = j
    · subst same
      exact ⟨w', List.getElem?_set_self (List.getElem?_eq_some_iff.mp known).1, idles member⟩
    · rw [List.getElem?_set_ne same]
      exact steady.idle j member

/-- Only the workers and the idle queue matter, and the queue may lose entries. -/
theorem congr {d' : Dispatcher} (allWorkers : d'.allWorkers = d.allWorkers)
    (workers : d'.workers.Sublist d.workers) : d'.Steady where
  worker := by
    rw [allWorkers]
    exact steady.worker
  nodup := steady.nodup.sublist workers
  idle := by
    intro i member
    rw [allWorkers]
    exact steady.idle i (workers.subset member)

theorem change {d' : Dispatcher} {a : Action} (change : Change d a d') : d'.Steady := by
  cases change with
  | startWorker =>
    refine ⟨?_, steady.nodup, ?_⟩
    · intro w member
      rcases List.mem_append.mp member with old | new
      · exact steady.worker w old
      · rw [List.mem_singleton.mp new]
        exact Worker.steady_new
    · intro i member
      obtain ⟨w, known, idles⟩ := steady.idle i member
      refine ⟨w, ?_, idles⟩
      rw [List.getElem?_append_left (List.getElem?_eq_some_iff.mp known).1]
      exact known
  | call => exact steady.congr rfl (List.Sublist.refl _)
  | noWorker => exact steady.congr rfl (List.Sublist.refl _)
  | enqueue => exact steady.congr rfl (List.Sublist.refl _)
  | @handOver call i request workers w waiting idle known =>
    have ok := steady.worker w (List.mem_of_getElem? known)
    have idles := steady.idles known (idle ▸ List.mem_cons_self)
    have rest : Steady { d with workers := workers } :=
      steady.congr rfl (idle ▸ List.sublist_cons_self i workers)
    have out : i ∉ workers := (List.nodup_cons.mp (idle ▸ steady.nodup)).1
    have loaded : (w.setRequest request).Steady := by
      refine ⟨fun _ => ?_, fun _ => rfl, ok.ended⟩
      change w.step.loadable = true ∨ w.step = .ended
      obtain ⟨-, at_ | ⟨-, at_ | at_⟩⟩ := idles
      · exact .inl (by rw [at_]; rfl)
      · exact .inl (by rw [at_]; rfl)
      · exact .inr at_
    exact (rest.setWorker known loaded fun queued => absurd queued out).congr rfl (List.Sublist.refl _)
  | goOn known goes =>
    have ok := steady.worker _ (List.mem_of_getElem? known)
    exact steady.setWorker known (goes.steady ok) fun queued => goes.idles (steady.idles known queued)
  | clearReady known at_ =>
    have out := steady.out known (Worker.not_idles at_ (by decide))
    exact steady.setWorker known ⟨nofun, nofun, nofun⟩ fun queued => absurd queued out
  | @finish i w known at_ =>
    have ok := steady.worker w (List.mem_of_getElem? known)
    have out := steady.out known (Worker.not_idles at_ (by decide))
    have unready := ok.not_ready (by rw [at_]; rfl) (by rw [at_]; nofun)
    have unloaded : Worker.Steady { w with step := .takeRequest } :=
      ⟨(fun ready => nomatch unready.symm.trans ready), nofun, nofun⟩
    exact (steady.setWorker known unloaded fun queued => absurd queued out).congr rfl (List.Sublist.refl _)
  | @take i w request requests known at_ queued =>
    have out := steady.out known (Worker.not_idles at_ (by decide))
    have loaded : Worker.Steady { w.setRequest request with step := .testRunning } :=
      ⟨fun _ => .inl rfl, nofun, nofun⟩
    exact (steady.setWorker known loaded fun queued => absurd queued out).congr rfl (List.Sublist.refl _)
  | @park i w known at_ =>
    have ok := steady.worker w (List.mem_of_getElem? known)
    have out := steady.out known (Worker.not_idles at_ (by decide))
    have unready := ok.not_ready (by rw [at_]; rfl) (by rw [at_]; nofun)
    have waits : Worker.Steady { w with step := .wait } := ⟨fun _ => .inl rfl, nofun, nofun⟩
    have moved := steady.setWorker known waits fun queued => absurd queued out
    refine ⟨moved.worker, ?_, ?_⟩
    · apply List.nodup_append.mpr ⟨steady.nodup, List.nodup_singleton i, ?_⟩
      rintro j queued k last rfl
      rw [List.mem_singleton.mp last] at queued
      exact out queued
    · intro j member
      rcases List.mem_append.mp member with queued | last
      · exact moved.idle j queued
      · rw [List.mem_singleton.mp last]
        exact ⟨_, List.getElem?_set_self (List.getElem?_eq_some_iff.mp known).1, unready, .inl rfl⟩

end Steady
/-- What a step replaces of the workers; the flag that `stop` clears is none of it. -/
theorem Change.allWorkers {d d' : Dispatcher} {a : Action} (change : Change d a d') (other : a ≠ .startWorker) :
    d'.allWorkers = d.allWorkers ∨ ∃ i w w', d.allWorkers[i]? = some w ∧
      d'.allWorkers = d.allWorkers.set i w' ∧ w'.running = w.running ∧ (w.step = .ended → w'.step = .ended) := by
  cases change with
  | startWorker => exact absurd rfl other
  | call => exact .inl rfl
  | noWorker => exact .inl rfl
  | enqueue => exact .inl rfl
  | handOver waiting idle known => exact .inr ⟨_, _, _, known, rfl, rfl, id⟩
  | goOn known goes =>
    refine .inr ⟨_, _, _, known, rfl, rfl, fun gone => ?_⟩
    cases goes with
    | runs at_ | ends at_ | seesReady at_ | seesNone at_ | processed at_ | findsNone at_ | wakes at_ =>
      cases gone.symm.trans at_
  | clearReady known at_ => exact .inr ⟨_, _, _, known, rfl, rfl, fun gone => nomatch gone.symm.trans at_⟩
  | finish known at_ => exact .inr ⟨_, _, _, known, rfl, rfl, fun gone => nomatch gone.symm.trans at_⟩
  | take known at_ => exact .inr ⟨_, _, _, known, rfl, rfl, fun gone => nomatch gone.symm.trans at_⟩
  | park known at_ => exact .inr ⟨_, _, _, known, rfl, rfl, fun gone => nomatch gone.symm.trans at_⟩

section Kept
variable {d d' : Dispatcher} {a : Action} (change : Change d a d') (other : a ≠ .startWorker)
include change other

theorem Change.length : d'.allWorkers.length = d.allWorkers.length := by
  obtain same | ⟨i, w, w', -, same, -⟩ := change.allWorkers other
  · rw [same]
  · rw [same, List.length_set]

theorem Change.running {k : Nat} {w' : Worker} (known : d'.allWorkers[k]? = some w') :
    ∃ w, d.allWorkers[k]? = some w ∧ w'.running = w.running := by
  obtain same | ⟨i, w, v, before, same, running, -⟩ := change.allWorkers other
  · exact ⟨w', by rw [← same, known], rfl⟩
  · rw [same] at known
    by_cases own : i = k
    · subst own
      rw [List.getElem?_set_self (List.getElem?_eq_some_iff.mp before).1] at known
      cases known
      exact ⟨w, before, running⟩
    · rw [List.getElem?_set_ne own] at known
      exact ⟨w', known, rfl⟩

theorem Change.ended {k : Nat} (gone : ThreadPool.ended d k = true) : ThreadPool.ended d' k = true := by
  unfold ThreadPool.ended at gone ⊢
  rw [decide_eq_true_eq] at gone ⊢
  obtain same | ⟨i, w, w', known, same, -, kept⟩ := change.allWorkers other
  · rw [same, gone]
  · rw [same]
    by_cases own : i = k
    · subst own
      rw [known] at gone
      rw [List.getElem?_set_self (List.getElem?_eq_some_iff.mp known).1, Option.map_some,
        kept (Option.some.inj gone)]
    · rw [List.getElem?_set_ne own, gone]

end Kept

/-- The worker is bound to process that request. -/
def Holds (d : Dispatcher) (load : Nat × RequestId) : Prop :=
  ∃ w, d.allWorkers[load.1]? = some w ∧ w.request = some load.2 ∧ w.Bound

theorem Holds.setWorker {d : Dispatcher} {load : Nat × RequestId} (holds : d.Holds load) {i : Nat} {w w' : Worker}
    (known : d.allWorkers[i]? = some w) (own : i = load.1 → w.request = some load.2 → w.Bound →
      w'.request = some load.2 ∧ w'.Bound) : (d.setWorker i w').Holds load := by
  obtain ⟨v, known', request, bound⟩ := holds
  change ∃ u, (d.allWorkers.set i w')[load.1]? = some u ∧ _
  by_cases same : i = load.1
  · rw [same] at known
    cases known.symm.trans known'
    obtain ⟨request', bound'⟩ := own same request bound
    refine ⟨w', ?_, request', bound'⟩
    rw [same, List.getElem?_set_self (List.getElem?_eq_some_iff.mp known).1]
  · rw [List.getElem?_set_ne same]
    exact ⟨v, known', request, bound⟩

/-- A request that a worker is bound to process stays with it until it is finished. -/
theorem Holds.change {d d' : Dispatcher} {a : Action} {load : Nat × RequestId} (holds : d.Holds load)
    (steady : d.Steady) (change : Change d a d') : d'.Holds load ∨ load ∈ ThreadPool.finishes d a := by
  cases change with
  | startWorker =>
    obtain ⟨w, known, kept⟩ := holds
    refine .inl ⟨w, ?_, kept⟩
    rw [List.getElem?_append_left (List.getElem?_eq_some_iff.mp known).1]
    exact known
  | call => exact .inl holds
  | noWorker => exact .inl holds
  | enqueue => exact .inl holds
  | handOver waiting idle known =>
    have idles := steady.idles known (idle ▸ List.mem_cons_self)
    exact .inl (holds.setWorker known fun _ _ bound => absurd bound idles.not_bound)
  | goOn known goes => exact .inl (holds.setWorker known fun _ request bound => ⟨request, goes.bound bound⟩)
  | clearReady known => exact .inl (holds.setWorker known fun _ request _ => ⟨request, .inr rfl⟩)
  | @finish i w known at_ =>
    obtain ⟨worker, r⟩ := load
    by_cases same : i = worker
    · right
      subst same
      obtain ⟨v, known', request, -⟩ := holds
      cases known.symm.trans known'
      unfold ThreadPool.finishes
      dsimp only at request ⊢
      rw [known]
      dsimp only
      rw [if_pos at_, request]
      exact List.mem_singleton.mpr rfl
    · exact .inl (holds.setWorker known fun own => absurd own same)
  | take known at_ =>
    exact .inl (holds.setWorker known fun _ _ bound => absurd bound (Worker.not_bound at_ (.inl rfl)))
  | park known at_ =>
    exact .inl (holds.setWorker known fun _ _ bound => absurd bound (Worker.not_bound at_ (.inr (.inl rfl))))

end Dispatcher

/-! ### The call of `stop` -/

/-- What has been made of a thread. -/
def Control.use (awaited k : Nat) : Control → ThreadUse
  | .idle | .starting _ => if k < awaited then ⟨1, 1⟩ else ⟨0, 0⟩
  | .clearing _ => ⟨0, 0⟩
  | .joining j => if k < j then ⟨1, 1⟩ else ⟨0, 0⟩
  | .deleting j => if k < j then ⟨1, 1⟩ else if k = j then ⟨1, 0⟩ else ⟨0, 0⟩

/-- The threads below have ended. -/
def Control.joined : Control → Nat
  | .joining j => j
  | .deleting j => j + 1
  | _ => 0

theorem Control.use_going (control : Control) (going : control.stopping = false) (awaited k : Nat) :
    control.use awaited k = if k < awaited then ⟨1, 1⟩ else ⟨0, 0⟩ := by
  cases control with
  | idle => rfl
  | starting => rfl
  | _ => cases going

theorem Control.joined_going (control : Control) (going : control.stopping = false) : control.joined = 0 := by
  cases control with
  | idle => rfl
  | starting => rfl
  | _ => cases going

theorem Control.use_le (awaited k : Nat) (control : Control) :
    (control.use awaited k).joins ≤ 1 ∧ (control.use awaited k).deletes ≤ 1 := by
  have either {p : Prop} [Decidable p] {first second : ThreadUse} (one : first.joins ≤ 1 ∧ first.deletes ≤ 1)
      (two : second.joins ≤ 1 ∧ second.deletes ≤ 1) :
      (if p then first else second).joins ≤ 1 ∧ (if p then first else second).deletes ≤ 1 := by
    split
    · exact one
    · exact two
  cases control with
  | idle => exact either (by decide) (by decide)
  | starting => exact either (by decide) (by decide)
  | clearing => exact ⟨Nat.zero_le _, Nat.zero_le _⟩
  | joining => exact either (by decide) (by decide)
  | deleting => exact either (by decide) (either (by decide) (by decide))

namespace ThreadPool

/-- What holds between two steps of the condition. -/
structure Kept (p : ThreadPool) : Prop where
  steady : p.dispatcher.Steady
  count : p.threads.length = p.dispatcher.allWorkers.length
  threads : ∀ k t, p.threads[k]? = some t → t = p.control.use p.awaited k
  awaited : p.awaited ≤ p.threads.length
  fresh : p.control.stopping = true → p.awaited = 0
  running : p.control.stopping = false →
    ∀ k w, p.awaited ≤ k → p.dispatcher.allWorkers[k]? = some w → w.running = true
  joined : ∀ k < p.control.joined, ended p.dispatcher k = true
  loads : ∀ load ∈ p.assigned,
    load ∈ p.processed ∨ p.control.stopping = true ∧ p.dispatcher.Holds load
  handed : ∀ alive ∈ p.handed, alive = true

theorem kept_new : Kept new where
  steady := Dispatcher.steady_new
  count := rfl
  threads := nofun
  awaited := Nat.zero_le _
  fresh := nofun
  running := fun _ _ _ _ known => nomatch known
  joined := fun _ below => absurd below (Nat.not_lt_zero _)
  loads := fun _ member => nomatch member
  handed := fun _ member => nomatch member

theorem Kept.shutDown {p : ThreadPool} (kept : p.Kept) : p.ShutDown where
  once := by
    intro t member
    obtain ⟨k, known⟩ := List.mem_iff_getElem?.mp member
    rw [kept.threads k t known]
    exact p.control.use_le p.awaited k
  all := by
    intro j below
    have inside := Nat.lt_of_lt_of_le below kept.awaited
    have use := kept.threads j _ (List.getElem?_eq_getElem inside)
    rw [List.getElem?_eq_getElem inside, use]
    have going : p.control.stopping = false := by
      rw [← Bool.not_eq_true]
      intro stopping
      rw [kept.fresh stopping] at below
      exact Nat.not_lt_zero _ below
    rw [p.control.use_going going, if_pos below]
  handed := kept.handed
  processed := by
    intro going load member
    rcases kept.loads load member with processed | ⟨stopping, -⟩
    · exact processed
    · cases going.symm.trans stopping

namespace Kept
variable {p : ThreadPool} (kept : p.Kept)
include kept

/-- Outside `stop`. -/
theorem outside (going : p.control.stopping = false) {control : Control} (going' : control.stopping = false) :
    Kept { p with control := control } := by
  refine ⟨kept.steady, kept.count, ?_, kept.awaited, ?_, fun _ => kept.running going, ?_, ?_, kept.handed⟩
  · intro k t known
    have use := kept.threads k t known
    rw [p.control.use_going going] at use
    exact use.trans (control.use_going going' p.awaited k).symm
  · exact fun stopping => nomatch going'.symm.trans stopping
  · intro k below
    change k < control.joined at below
    rw [control.joined_going going'] at below
    exact absurd below (Nat.not_lt_zero k)
  · intro load member
    rcases kept.loads load member with processed | ⟨stopping, -⟩
    · exact .inl processed
    · cases going.symm.trans stopping

/-- At the call of `stop` no thread was waited for before. -/
theorem awaited_zero (going : p.control.stopping = false) (unjoined : ∀ t ∈ p.threads, t.joins = 0) : p.awaited = 0 := by
  by_contra some
  have below := Nat.pos_of_ne_zero some
  have inside := Nat.lt_of_lt_of_le below kept.awaited
  have known := List.getElem?_eq_getElem inside
  have use := kept.threads 0 _ known
  rw [p.control.use_going going, if_pos below] at use
  have joins := unjoined _ (List.getElem_mem inside)
  rw [use] at joins
  cases joins

/-- While all flags are set, each worker with a request in its slot is bound to process it. -/
theorem slots_held (going : p.control.stopping = false) (none : p.awaited = 0) {load : Nat × RequestId}
    (member : load ∈ slots p.dispatcher) : p.dispatcher.Holds load := by
  obtain ⟨⟨w, i⟩, entry, inSlot⟩ := List.mem_flatMap.mp member
  obtain ⟨request, loaded, rfl⟩ := List.mem_map.mp inSlot
  have known : p.dispatcher.allWorkers[i]? = some w := List.mem_zipIdx_iff_getElem?.mp entry
  have running := kept.running going i w (by rw [none]; exact Nat.zero_le i) known
  have steady := kept.steady.worker w (List.mem_of_getElem? known)
  unfold Worker.slot at loaded
  split at loaded
  next ready =>
    refine ⟨w, known, Option.mem_toList.mp loaded, .inl ⟨ready, ?_⟩⟩
    rcases steady.loadable ready with loadable | gone
    · cases at_ : w.step with
      | testRunning => exact .inr (.inr ⟨running, .inl rfl⟩)
      | testReady => exact .inl rfl
      | clearReady => exact .inr (.inl rfl)
      | wait => exact .inr (.inr ⟨running, .inr rfl⟩)
      | _ =>
        rw [at_] at loadable
        cases loadable
    · cases running.symm.trans (steady.ended gone)
  next => cases loaded

theorem stop (idle : p.control = .idle) (unjoined : ∀ t ∈ p.threads, t.joins = 0) :
    Kept { p with control := .clearing 0, assigned := slots p.dispatcher, processed := [] } := by
  have going : p.control.stopping = false := by rw [idle]; rfl
  have none := kept.awaited_zero going unjoined
  refine ⟨kept.steady, kept.count, ?_, kept.awaited, fun _ => none, nofun, ?_, ?_, kept.handed⟩
  · intro k t known
    have use := kept.threads k t known
    rwa [p.control.use_going going, none, if_neg (Nat.not_lt_zero k)] at use
  · exact fun _ below => absurd below (Nat.not_lt_zero _)
  · exact fun load member => .inr ⟨rfl, kept.slots_held going none member⟩

theorem startOne {left : Nat} (at_ : p.control = .starting (left + 1)) {d : Dispatcher}
    (stepped : p.dispatcher.step .startWorker = some d) :
    Kept { p with dispatcher := d, threads := p.threads ++ [⟨0, 0⟩], control := .starting left } := by
  cases stepped
  have going : p.control.stopping = false := by rw [at_]; rfl
  refine ⟨kept.steady.change .startWorker, ?_, ?_, ?_, nofun, ?_, ?_, ?_, kept.handed⟩
  · simp only [List.length_append, kept.count, List.length_singleton]
  · intro k t known
    rcases Splice.concat_cases known with old | ⟨rfl, rfl⟩
    · have use := kept.threads k t old
      rwa [at_] at use
    · exact (if_neg (Nat.not_lt.mpr kept.awaited)).symm
  · simp only [List.length_append]
    exact Nat.le_add_right_of_le kept.awaited
  · intro _ k w later known
    rcases Splice.concat_cases known with old | ⟨-, rfl⟩
    · exact kept.running going k w later old
    · rfl
  · exact fun _ below => absurd below (Nat.not_lt_zero _)
  · intro load member
    rcases kept.loads load member with processed | ⟨stopping, -⟩
    · exact .inl processed
    · cases going.symm.trans stopping

/-- In `stop` the requests that were assigned before it are processed, or held. -/
theorem loads_stopping {load : Nat × RequestId} (member : load ∈ p.assigned) :
    load ∈ p.processed ∨ p.dispatcher.Holds load :=
  (kept.loads load member).imp_right And.right

theorem clear {i : Nat} (at_ : p.control = .clearing i) {w : Worker}
    (known : p.dispatcher.allWorkers[i]? = some w)
    (inTime : w.step = .testRunning ∨ w.step = .wait → ¬p.Owes i) :
    Kept { p with
      dispatcher := p.dispatcher.setWorker i { w with running := false }
      control := .clearing (i + 1) } := by
  have stopping : p.control.stopping = true := by rw [at_]; rfl
  have ok := kept.steady.worker w (List.mem_of_getElem? known)
  refine ⟨?_, ?_, ?_, kept.awaited, fun _ => kept.fresh stopping, nofun, ?_, ?_, kept.handed⟩
  · exact kept.steady.setWorker known ok.stop fun queued => (kept.steady.idles known queued).stop
  · exact kept.count.trans (List.length_set ..).symm
  · intro k t entry
    have use := kept.threads k t entry
    rwa [at_] at use
  · exact fun _ below => absurd below (Nat.not_lt_zero _)
  · intro load member
    by_cases done : load ∈ p.processed
    · exact .inl done
    · have holds := (kept.loads_stopping member).resolve_left done
      refine .inr ⟨rfl, holds.setWorker known fun own request bound => ⟨request, ?_⟩⟩
      rcases bound with ⟨ready, clear | clear | ⟨-, early⟩⟩ | busy
      · exact .inl ⟨ready, .inl clear⟩
      · exact .inl ⟨ready, .inr (.inl clear)⟩
      · exact absurd ⟨load, member, own.symm, done⟩ (inTime early)
      · exact .inr busy

theorem cleared {i : Nat} (at_ : p.control = .clearing i) : Kept { p with control := .joining 0 } := by
  have stopping : p.control.stopping = true := by rw [at_]; rfl
  refine ⟨kept.steady, kept.count, ?_, kept.awaited, fun _ => kept.fresh stopping, nofun, ?_, ?_, kept.handed⟩
  · intro k t known
    have use := kept.threads k t known
    rw [at_] at use
    change t = if k < 0 then ⟨1, 1⟩ else ⟨0, 0⟩
    rw [if_neg (Nat.not_lt_zero k)]
    exact use
  · exact fun _ below => absurd below (Nat.not_lt_zero _)
  · exact fun load member => (kept.loads_stopping member).imp_right fun holds => ⟨rfl, holds⟩

/-- The thread at `j` is used once more, and the other ones stay as they are. -/
theorem useThread {control : Control} {j : Nat} {t u : ThreadUse} (known : p.threads[j]? = some t)
    (stopping : p.control.stopping = true) (still : control.stopping = true)
    (own : u = control.use p.awaited j)
    (others : ∀ k, k ≠ j → p.control.use p.awaited k = control.use p.awaited k)
    (joined : ∀ k < control.joined, ended p.dispatcher k = true) :
    Kept { p with threads := p.threads.set j u, control := control } := by
  refine ⟨kept.steady, ?_, ?_, ?_, fun _ => kept.fresh stopping, ?_, joined, ?_, kept.handed⟩
  · exact (List.length_set ..).trans kept.count
  · intro k v entry
    change (p.threads.set j u)[k]? = some v at entry
    by_cases same : j = k
    · subst same
      rw [List.getElem?_set_self (List.getElem?_eq_some_iff.mp known).1] at entry
      exact (Option.some.inj entry).symm.trans own
    · rw [List.getElem?_set_ne same] at entry
      exact (kept.threads k v entry).trans (others k (Ne.symm same))
  · rw [List.length_set]
    exact kept.awaited
  · intro going
    cases still.symm.trans going
  · exact fun load member => (kept.loads_stopping member).imp_right fun holds => ⟨still, holds⟩

theorem join {j : Nat} (at_ : p.control = .joining j) {t : ThreadUse} (known : p.threads[j]? = some t)
    (gone : ended p.dispatcher j = true) :
    Kept { p with threads := p.threads.set j { t with joins := t.joins + 1 }, control := .deleting j } := by
  have use := kept.threads j t known
  rw [at_, Control.use, if_neg (Nat.lt_irrefl j)] at use
  apply kept.useThread known (by rw [at_]; rfl) rfl
  · rw [Control.use, if_neg (Nat.lt_irrefl j), if_pos rfl, use]
  · intro k other
    rw [at_, Control.use, Control.use, if_neg other]
  · intro k below
    rcases Nat.lt_succ_iff_lt_or_eq.mp below with before | rfl
    · have joined := kept.joined
      rw [at_] at joined
      exact joined k before
    · exact gone

theorem delete {j : Nat} (at_ : p.control = .deleting j) {t : ThreadUse} (known : p.threads[j]? = some t) :
    Kept { p with
      threads := p.threads.set j { t with deletes := t.deletes + 1 }
      control := .joining (j + 1) } := by
  have use := kept.threads j t known
  rw [at_, Control.use, if_neg (Nat.lt_irrefl j), if_pos rfl] at use
  apply kept.useThread known (by rw [at_]; rfl) rfl
  · rw [Control.use, if_pos (Nat.lt_succ_self j), use]
  · intro k other
    have next : k < j + 1 ↔ k < j := by omega
    rw [at_, Control.use, Control.use, if_neg other]
    simp only [next]
  · have joined := kept.joined
    rw [at_] at joined
    exact joined

/-- When `stop` returns, every worker has ended, and none of them holds a request that it owes. -/
theorem leave {j : Nat} (at_ : p.control = .joining j) (last : p.threads[j]? = none) :
    Kept { p with control := .idle, awaited := p.threads.length } := by
  have all : p.threads.length ≤ j := List.getElem?_eq_none_iff.mp last
  have joined := kept.joined
  rw [at_] at joined
  refine ⟨kept.steady, kept.count, ?_, Nat.le_refl _, nofun, ?_, ?_, ?_, kept.handed⟩
  · intro k t known
    have inside := (List.getElem?_eq_some_iff.mp known).1
    have use := kept.threads k t known
    rw [at_] at use
    change t = if k < j then ⟨1, 1⟩ else ⟨0, 0⟩ at use
    rw [if_pos (Nat.lt_of_lt_of_le inside all)] at use
    exact use.trans (if_pos inside).symm
  · intro _ k w later known
    have inside := (List.getElem?_eq_some_iff.mp known).1
    rw [← kept.count] at inside
    exact absurd later (Nat.not_le.mpr inside)
  · exact fun _ below => absurd below (Nat.not_lt_zero _)
  · intro load member
    rcases kept.loads_stopping member with done | ⟨w, known, -, bound⟩
    · exact .inl done
    · have inside := (List.getElem?_eq_some_iff.mp known).1
      rw [← kept.count] at inside
      have gone := joined load.1 (Nat.lt_of_lt_of_le inside all)
      rw [ended, known, decide_eq_true_eq] at gone
      exact absurd bound (Worker.not_bound (Option.some.inj gone) (.inr (.inr rfl)))

theorem advance {q : ThreadPool} (heeded : p.InTime p.control) (stepped : p.advance = some q) : q.Kept := by
  unfold ThreadPool.advance at stepped
  split at stepped
  next => cases stepped
  next at_ =>
    cases stepped
    exact kept.outside (by rw [at_]; rfl) rfl
  next left at_ =>
    obtain ⟨d, started, rest⟩ := Option.bind_eq_some_iff.mp stepped
    cases rest
    exact kept.startOne at_ started
  next i at_ =>
    split at stepped
    next d told =>
      cases stepped
      obtain ⟨w, known, rfl⟩ := Option.map_eq_some_iff.mp told
      rw [at_] at heeded
      exact kept.clear at_ known (heeded w known)
    next =>
      cases stepped
      exact kept.cleared at_
  next j at_ =>
    split at stepped
    next t known =>
      split at stepped
      next gone =>
        cases stepped
        exact kept.join at_ known gone
      next => cases stepped
    next last =>
      cases stepped
      exact kept.leave at_ last
  next j at_ =>
    obtain ⟨t, known, rest⟩ := Option.bind_eq_some_iff.mp stepped
    cases rest
    exact kept.delete at_ known

/-- A worker that takes a request, or that is not told to stop, has not ended. -/
theorem receiver_alive {a : Dispatcher.Action} (heeded : p.Heeded (.thread a)) {i : Nat}
    (receives : p.dispatcher.receiver a = some i) : (!ended p.dispatcher i) = true := by
  rw [Bool.not_eq_true', ended, decide_eq_false_iff_not]
  intro gone
  cases a with
  | assign call =>
    simp only [Dispatcher.receiver, Option.ite_none_right_eq_some] at receives
    obtain ⟨w, known, at_⟩ := Option.map_eq_some_iff.mp gone
    have running := heeded i receives.2 w known
    cases running.symm.trans ((kept.steady.worker w (List.mem_of_getElem? known)).ended at_)
  | work worker =>
    simp only [Dispatcher.receiver, Option.ite_none_right_eq_some, Option.some.injEq] at receives
    obtain ⟨⟨takes, -⟩, rfl⟩ := receives
    cases gone.symm.trans takes
  | startWorker => cases receives
  | call request => cases receives
  | enqueue call => cases receives

theorem thread {q : ThreadPool} {a : Dispatcher.Action} (heeded : p.Heeded (.thread a))
    (stepped : p.threadStep a = some q) : q.Kept := by
  unfold threadStep at stepped
  split at stepped
  next => cases stepped
  next other =>
    obtain ⟨d, moved, rfl⟩ := Option.map_eq_some_iff.mp stepped
    have change := Dispatcher.step_change moved
    refine ⟨kept.steady.change change, ?_, kept.threads, kept.awaited, kept.fresh, ?_, ?_, ?_, ?_⟩
    · exact kept.count.trans (change.length other).symm
    · intro going k w later known
      obtain ⟨v, before, same⟩ := change.running other known
      rw [same]
      exact kept.running going k v later before
    · exact fun k below => change.ended other (kept.joined k below)
    · intro load member
      rcases kept.loads load member with done | ⟨stopping, holds⟩
      · exact .inl (List.mem_append_left _ done)
      · rcases holds.change kept.steady change with still | now
        · exact .inr ⟨stopping, still⟩
        · exact .inl (List.mem_append_right _ now)
    · intro alive member
      rcases List.mem_append.mp member with before | now
      · exact kept.handed alive before
      · obtain ⟨i, receives, rfl⟩ := List.mem_map.mp now
        exact kept.receiver_alive heeded (Option.mem_toList.mp receives)

theorem step {q : ThreadPool} {a : Action} (heeded : p.Heeded a) (stepped : p.step a = some q) : q.Kept := by
  cases a with
  | init workers =>
    obtain ⟨idle, same⟩ := Option.ite_none_right_eq_some.mp stepped
    cases same
    exact kept.outside (by rw [idle]; rfl) rfl
  | stop =>
    obtain ⟨idle, same⟩ := Option.ite_none_right_eq_some.mp stepped
    cases same
    exact kept.stop idle heeded
  | advance => exact kept.advance heeded stepped
  | thread a => exact kept.thread heeded stepped

end Kept

theorem kept_run {p : ThreadPool} (run : Run step Heeded new p) : p.Kept := by
  refine run.invariant kept_new ?_
  intro p a q kept heeded stepped
  exact kept.step heeded stepped

end ThreadPool
end NymphMqtt
