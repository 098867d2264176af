import NymphMqtt.DispatcherCustody
import NymphMqtt.Library.Precedence
import NymphMqtt.ReceiveAcceptance

/-! In which order the packets of a connection reach their handlers. Each connection has a
listener thread that gives one request to the dispatcher after the other. -/

namespace NymphMqtt
open NymphMqtt.Library NymphMqtt.Library.Transition NymphMqtt.Library.Precedence

/-- A connection of the client library, or a session of the server. -/
inductive Connection where
  | client (handle : Nat)
  | server (handle : Nat)
  deriving DecidableEq, Repr

structure Arrival where
  connection : Connection
  command : MqttPacketType
  deriving DecidableEq, Repr

/-- `process` calls a handler. -/
def Arrival.handled (p : Arrival) : Bool :=
  match p.connection with
  | .client _ => (Request.handlerOf p.command).isSome
  | .server _ => (NmqttServerRequest.handlerOf p.command).isSome

/-- Packets are numbered as they are received, and so are their requests. `assigned` keeps
the calls of `setRequest` and `started` those of `process`, each with its worker. -/
structure Delivery where
  dispatcher : Dispatcher
  received : Nat
  assigned : List (RequestId × Nat)
  started : List (RequestId × Nat)
  deriving DecidableEq, Repr

namespace Dispatcher

/-- The call of `setRequest` in a step. -/
def assigns (d : Dispatcher) : Action → List (RequestId × Nat)
  | .assign call => (d.calling[call]?.toList).flatMap fun r => (d.workers.head?.toList).map (r, ·)
  | .work worker =>
      if d.allWorkers[worker]?.map Worker.step = some .takeRequest then
        (d.requests.head?.toList).map (·, worker)
      else []
  | _ => []

/-- The call of `process` in a step. -/
def starts (d : Dispatcher) : Action → List (RequestId × Nat)
  | .work worker =>
      (d.allWorkers[worker]?.toList).flatMap fun w =>
        if w.step = .process then w.request.toList.map (·, worker) else []
  | _ => []

/-! ### One line of requests -/

/-- The requests in the order of their calls, as long as nobody overtakes: the assigned
ones, the queue, those about to enter it, those about to look for a worker. -/
def line (assigned : List RequestId) (d : Dispatcher) : List RequestId :=
  assigned ++ d.requests ++ (d.queueing ++ d.calling)

/-- The only entry of its kind may be moved to the front. -/
theorem filter_moved {p : RequestId → Bool} {front back : List RequestId} {r : RequestId}
    (single : ((front ++ r :: back).filter p).length ≤ 1) :
    (r :: (front ++ back)).filter p = (front ++ r :: back).filter p := by
  by_cases kind : p r = true
  · rw [List.filter_append, List.filter_cons_of_pos kind, List.length_append, List.length_cons] at single
    have before : front.filter p = [] := List.length_eq_zero_iff.mp (by omega)
    rw [List.filter_cons_of_pos kind, List.filter_append, List.filter_append,
      List.filter_cons_of_pos kind, before, List.nil_append, List.nil_append]
  · rw [List.filter_cons_of_neg kind, List.filter_append, List.filter_append,
      List.filter_cons_of_neg kind]

theorem assigns_none {d : Dispatcher} {i : Nat} {w : Worker} (known : d.allWorkers[i]? = some w)
    (empty : w.step = .takeRequest → d.requests = []) : d.assigns (.work i) = [] := by
  simp only [assigns, known, Option.map_some, Option.some.injEq, ite_eq_right_iff]
  intro at_
  rw [empty at_]
  rfl

section Assigns
variable {d : Dispatcher} {call i : Nat} {r : RequestId}

theorem assigns_handOver {workers : List Nat} (waiting : d.calling[call]? = some r)
    (idle : d.workers = i :: workers) : d.assigns (.assign call) = [(r, i)] := by
  simp only [assigns, waiting, idle, List.head?_cons, Option.toList_some]
  rfl

theorem assigns_noWorker (waiting : d.calling[call]? = some r) (idle : d.workers = []) :
    d.assigns (.assign call) = [] := by
  simp only [assigns, waiting, idle, List.head?_nil, Option.toList_none, Option.toList_some]
  rfl

theorem assigns_take {w : Worker} {requests : List RequestId} (known : d.allWorkers[i]? = some w)
    (at_ : w.step = .takeRequest) (queued : d.requests = r :: requests) :
    d.assigns (.work i) = [(r, i)] := by
  simp only [assigns, known, queued, Option.map_some, at_, if_true, List.head?_cons]
  rfl

theorem assigns_receiver {a : Action} {e : RequestId × Nat} (assigned : e ∈ d.assigns a) :
    d.receiver a = some e.2 := by
  cases a with
  | assign call =>
    obtain ⟨r, waiting, rest⟩ := List.mem_flatMap.mp assigned
    obtain ⟨i, idle, rfl⟩ := List.mem_map.mp rest
    rw [Option.mem_toList] at waiting idle
    have bound := (List.getElem?_eq_some_iff.mp waiting).1
    rw [receiver, if_pos bound]
    exact idle
  | work worker =>
    change e ∈ if _ then _ else _ at assigned
    split at assigned
    next at_ =>
      obtain ⟨r, queued, rfl⟩ := List.mem_map.mp assigned
      rw [Option.mem_toList] at queued
      apply if_pos
      constructor
      · exact at_
      · exact List.ne_nil_of_mem (List.mem_of_mem_head? queued)
    next => cases assigned
  | startWorker => cases assigned
  | call request => cases assigned
  | enqueue call => cases assigned

end Assigns

theorem Change.workers_length {d d' : Dispatcher} {a : Action} (change : Change d a d') :
    d.allWorkers.length ≤ d'.allWorkers.length := by
  cases change with
  | startWorker =>
    rw [List.length_append]
    exact Nat.le_add_right _ _
  | call | noWorker | enqueue => exact Nat.le_refl _
  | handOver | goOn | clearReady | finish | take | park => exact Nat.le_of_eq List.length_set.symm

section Line
variable {d d' : Dispatcher} {a : Action} {p : RequestId → Bool}
  (single : ((d.queueing ++ d.calling).filter p).length ≤ 1)
include single

/-- A submitter has at most one request under way. -/
theorem single_change (change : Change d a d')
    (idle : ∀ r ∈ a.given, p r = true → (d.queueing ++ d.calling).filter p = []) :
    ((d'.queueing ++ d'.calling).filter p).length ≤ 1 := by
  cases change with
  | @call r =>
    change ((d.queueing ++ (d.calling ++ [r])).filter p).length ≤ 1
    rw [← List.append_assoc, List.filter_append]
    by_cases kind : p r = true
    · rw [idle r List.mem_cons_self kind, List.filter_cons_of_pos kind]
      rfl
    · rw [List.filter_cons_of_neg kind, List.filter_nil, List.append_nil]
      exact single
  | @handOver call i r workers w waiting =>
    obtain ⟨front, back, whole, erased, -⟩ := Splice.split_at waiting
    change ((d.queueing ++ d.calling.eraseIdx call).filter p).length ≤ 1
    rw [erased]
    rw [whole] at single
    simp only [List.filter_append, List.length_append, List.filter_cons] at single ⊢
    split at single
    · rw [List.length_cons] at single
      omega
    · exact single
  | @noWorker call r waiting =>
    obtain ⟨front, back, whole, erased, -⟩ := Splice.split_at waiting
    change ((d.queueing ++ [r] ++ d.calling.eraseIdx call).filter p).length ≤ 1
    rw [erased]
    rw [whole, ← List.singleton_append] at single
    simp only [List.filter_append, List.length_append] at single ⊢
    omega
  | @enqueue call r waiting =>
    obtain ⟨front, back, whole, erased, -⟩ := Splice.split_at waiting
    change ((d.queueing.eraseIdx call ++ d.calling).filter p).length ≤ 1
    rw [erased]
    rw [whole, ← List.singleton_append] at single
    simp only [List.filter_append, List.length_append] at single ⊢
    omega
  | startWorker | goOn | clearReady | finish | take | park => exact single

/-- No step lets a request overtake one of its kind. -/
theorem line_change (change : Change d a d') (served : ¬d.Stranded) (assigned : List RequestId) :
    (line (assigned ++ (d.assigns a).map Prod.fst) d').filter p =
      (line assigned d).filter p ++ a.given.filter p := by
  have still : ∀ {i}, d.assigns (.work i) = [] →
      (line (assigned ++ (d.assigns (.work i)).map Prod.fst) d).filter p =
        (line assigned d).filter p ++ [] := by
    intro i none
    rw [none, List.map_nil, List.append_nil, List.append_nil]
  cases change with
  | @call r =>
    simp only [line, assigns, Action.given, List.map_nil, List.append_nil, List.filter_append,
      List.append_assoc]
  | @handOver call i r workers w waiting idle known =>
    obtain ⟨front, back, whole, erased, -⟩ := Splice.split_at waiting
    have empty : d.requests = [] := by
      by_contra waits
      exact served ⟨waits, by rw [idle]; exact List.cons_ne_nil _ _⟩
    have head := assigns_handOver waiting idle
    rw [whole] at single
    simp only [line, Dispatcher.setWorker, head, empty, erased, Action.given, List.map_cons,
      List.map_nil, List.append_nil, List.filter_nil]
    rw [← List.append_assoc] at single
    rw [whole, List.append_assoc, List.singleton_append, ← List.append_assoc d.queueing,
      ← List.append_assoc d.queueing, List.filter_append, List.filter_append, filter_moved single]
  | @noWorker call r waiting idle =>
    obtain ⟨front, back, whole, erased, -⟩ := Splice.split_at waiting
    have none := assigns_noWorker waiting idle
    rw [whole] at single
    simp only [line, none, erased, Action.given, List.map_nil, List.append_nil, List.filter_nil]
    rw [List.filter_append, List.length_append] at single
    rw [whole, List.append_assoc d.queueing, List.singleton_append, List.filter_append _ (_ ++ _),
      List.filter_append d.queueing, filter_moved (by omega), List.filter_append _ (_ ++ _),
      List.filter_append d.queueing]
  | @enqueue call r waiting =>
    obtain ⟨front, back, whole, erased, -⟩ := Splice.split_at waiting
    rw [whole] at single
    simp only [line, assigns, erased, Action.given, List.map_nil, List.append_nil, List.filter_nil]
    rw [List.filter_append, List.length_append] at single
    rw [whole, ← List.append_assoc assigned, List.append_assoc (assigned ++ d.requests),
      List.singleton_append, ← List.cons_append, List.filter_append, List.filter_append (r :: _),
      filter_moved (by omega), List.filter_append _ (_ ++ d.calling), List.filter_append (front ++ _)]
  | @take i w r requests known at_ queued =>
    have head := assigns_take known at_ queued
    simp only [line, Dispatcher.setWorker, head, queued, Action.given, List.map_cons, List.map_nil,
      List.append_assoc, List.cons_append, List.nil_append, List.filter_nil, List.append_nil]
  | startWorker =>
    simp only [line, assigns, Action.given, List.map_nil, List.append_nil, List.filter_nil]
  | @goOn i w step known goes =>
    exact still (assigns_none known goes.no_requests)
  | @clearReady i w known at_ =>
    exact still (assigns_none known fun takes => absurd (at_.symm.trans takes) (by decide))
  | @finish i w known at_ =>
    exact still (assigns_none known fun takes => absurd (at_.symm.trans takes) (by decide))
  | @park i w known at_ =>
    exact still (assigns_none known fun takes => absurd (at_.symm.trans takes) (by decide))

end Line

/-! ### Assigned and started -/

end Dispatcher

/-- The request that a worker is going to process. -/
def Worker.unstarted (w : Worker) : List RequestId :=
  if w.ready ∨ w.step = .process then w.request.toList else []

section Unstarted
variable {w : Worker}

theorem Worker.unstarted_empty (unready : w.ready = false) (elsewhere : w.step ≠ .process) :
    w.unstarted = [] := by
  apply if_neg
  rintro (ready | at_)
  · cases unready.symm.trans ready
  · exact elsewhere at_

theorem Worker.unstarted_loaded {request : RequestId} (loaded : w.request = some request)
    (begun : w.ready = true ∨ w.step = .process) : w.unstarted = [request] := by
  rw [unstarted, if_pos begun, loaded]
  rfl

theorem Worker.Goes.unstarted {requests : List RequestId} {step : WorkerStep}
    (goes : w.Goes requests step) (elsewhere : w.step ≠ .process) :
    Worker.unstarted { w with step := step } = w.unstarted := by
  have target : step ≠ .process := by
    cases goes with
    | processed at_ => exact absurd at_ elsewhere
    | _ => nofun
  simp only [Worker.unstarted, target, elsewhere, or_false]

end Unstarted

namespace Dispatcher

def pending (d : Dispatcher) (i : Nat) : List (RequestId × Nat) :=
  (d.allWorkers[i]?.toList.flatMap Worker.unstarted).map (·, i)

theorem pending_known {d : Dispatcher} {i : Nat} {w : Worker} (known : d.allWorkers[i]? = some w) :
    d.pending i = w.unstarted.map (·, i) := by
  rw [pending, known, Option.toList_some, List.flatMap_singleton]

theorem pending_set {d : Dispatcher} {i : Nat} {w : Worker} (known : d.allWorkers[i]? = some w)
    (w' : Worker) : (d.setWorker i w').pending i = w'.unstarted.map (·, i) := by
  apply pending_known
  exact List.getElem?_set_self (List.getElem?_eq_some_iff.mp known).1

theorem pending_set_ne {d : Dispatcher} {i j : Nat} (other : i ≠ j) (w' : Worker) :
    (d.setWorker i w').pending j = d.pending j := by
  unfold pending
  have same : (d.setWorker i w').allWorkers[j]? = d.allWorkers[j]? := List.getElem?_set_ne other
  rw [same]

/-- A worker's calls keep their worker. -/
theorem filter_worker (l : List RequestId) (i j : Nat) :
    (l.map (·, i)).filter (fun e => e.2 = j) = if i = j then l.map (·, i) else [] := by
  rw [List.filter_map]
  split
  next same => simp only [Function.comp_def, same, decide_true, List.filter_true]
  next other => simp only [Function.comp_def, other, decide_false, List.filter_false, List.map_nil]

theorem starts_known {d : Dispatcher} {i : Nat} {w : Worker} (known : d.allWorkers[i]? = some w) :
    d.starts (.work i) = if w.step = .process then w.request.toList.map (·, i) else [] := by
  rw [starts, known, Option.toList_some, List.flatMap_singleton]

/-- A step that replaces one worker, in the terms of that worker. -/
theorem pending_move {d : Dispatcher} {i : Nat} {w w' : Worker} (known : d.allWorkers[i]? = some w)
    {assigned started : List RequestId}
    (moved : w.unstarted ++ assigned = started ++ w'.unstarted) (j : Nat) :
    d.pending j ++ (assigned.map (·, i)).filter (fun e => e.2 = j) =
      (started.map (·, i)).filter (fun e => e.2 = j) ++ (d.setWorker i w').pending j := by
  rw [filter_worker, filter_worker]
  by_cases same : i = j
  · subst same
    rw [if_pos rfl, if_pos rfl, pending_known known, pending_set known, ← List.map_append, moved,
      List.map_append]
  · rw [if_neg same, if_neg same, pending_set_ne same, List.append_nil, List.nil_append]

/-- Every worker starts what it was assigned, in this order. -/
theorem Sound.pending_change {d d' : Dispatcher} {a : Action} (sound : d.Sound)
    (change : Change d a d') (j : Nat) :
    d.pending j ++ (d.assigns a).filter (fun e => e.2 = j) =
      (d.starts a).filter (fun e => e.2 = j) ++ d'.pending j := by
  have still : ∀ {i w w'}, d.allWorkers[i]? = some w → d.assigns (.work i) = [] →
      w.step ≠ .process → w.unstarted = w'.unstarted →
      d.pending j ++ (d.assigns (.work i)).filter (fun e => e.2 = j) =
        (d.starts (.work i)).filter (fun e => e.2 = j) ++ (d.setWorker i w').pending j := by
    intro i w w' known none elsewhere same
    rw [none, starts_known known, if_neg elsewhere]
    have moved : w.unstarted ++ [] = [] ++ w'.unstarted := by rw [List.append_nil, same]; rfl
    exact pending_move known moved j
  cases change with
  | startWorker =>
    change d.pending j ++ [] = [] ++ _
    rw [List.append_nil, List.nil_append, pending, pending]
    rcases Nat.lt_or_ge j d.allWorkers.length with old | new
    · rw [List.getElem?_append_left old]
    · have none : d.allWorkers[j]? = none := List.getElem?_eq_none new
      rw [List.getElem?_append_right new, none]
      cases j - d.allWorkers.length with
      | zero => rfl
      | succ => rfl
  | call | enqueue => exact List.append_nil _
  | @noWorker call r waiting idle =>
    rw [assigns_noWorker waiting idle]
    exact List.append_nil _
  | @handOver call i r workers w waiting idle known =>
    obtain ⟨-, waits, unready⟩ := sound.head idle known
    have assigned : d.assigns (.assign call) = [r].map (·, i) := assigns_handOver waiting idle
    have started : d.starts (.assign call) = ([] : List RequestId).map (·, i) := rfl
    have moved : w.unstarted ++ [r] = [] ++ (w.setRequest r).unstarted := by
      rw [Worker.unstarted_empty unready (by rw [waits]; nofun),
        Worker.unstarted_loaded rfl (Or.inl rfl)]
    rw [assigned, started]
    exact pending_move known moved j
  | @goOn i w step known goes =>
    have none := assigns_none known goes.no_requests
    by_cases at_ : w.step = .process
    · have ok := sound.worker w (List.mem_of_getElem? known)
      have unready := ok.not_ready (by rw [at_]; rfl)
      obtain ⟨r, loaded⟩ := Option.isSome_iff_exists.mp (ok.busy (by rw [at_]; rfl))
      have target : step ≠ .process := by
        cases goes with
        | processed => nofun
        | _ => nofun
      have after : Worker.unstarted { w with step := step } = [] :=
        Worker.unstarted_empty unready target
      have moved : w.unstarted ++ [] = [r] ++ Worker.unstarted { w with step := step } := by
        rw [Worker.unstarted_loaded loaded (Or.inr at_), after]
      have started : d.starts (.work i) = [r].map (·, i) := by
        rw [starts_known known, if_pos at_, loaded]
        rfl
      rw [none, started]
      exact pending_move known moved j
    · exact still known none at_ (goes.unstarted at_).symm
  | @clearReady i w known at_ =>
    have ok := sound.worker w (List.mem_of_getElem? known)
    obtain ⟨r, loaded⟩ := Option.isSome_iff_exists.mp (ok.loaded (ok.clear at_))
    have after : Worker.unstarted { w with ready := false, step := .process } = [r] :=
      Worker.unstarted_loaded loaded (Or.inr rfl)
    apply still known (assigns_none known (by rw [at_]; nofun)) (by rw [at_]; nofun)
    rw [Worker.unstarted_loaded loaded (Or.inl (ok.clear at_)), after]
  | @finish i w known at_ =>
    have unready := (sound.worker w (List.mem_of_getElem? known)).not_ready (by rw [at_]; rfl)
    have after : Worker.unstarted { w with step := .takeRequest } = [] :=
      Worker.unstarted_empty unready (by nofun)
    apply still known (assigns_none known (by rw [at_]; nofun)) (by rw [at_]; nofun)
    rw [Worker.unstarted_empty unready (by rw [at_]; nofun), after]
  | @take i w r requests known at_ queued =>
    have unready := (sound.worker w (List.mem_of_getElem? known)).not_ready (by rw [at_]; rfl)
    have assigned : d.assigns (.work i) = [r].map (·, i) := assigns_take known at_ queued
    have moved : w.unstarted ++ [r] =
        [] ++ Worker.unstarted { w.setRequest r with step := .testRunning } := by
      rw [Worker.unstarted_empty unready (by rw [at_]; nofun),
        Worker.unstarted_loaded rfl (Or.inl rfl)]
    rw [assigned, starts_known known, if_neg (by rw [at_]; nofun)]
    exact pending_move known moved j
  | @park i w known at_ =>
    have unready := (sound.worker w (List.mem_of_getElem? known)).not_ready (by rw [at_]; rfl)
    have after : Worker.unstarted { w with step := .wait } = [] :=
      Worker.unstarted_empty unready (by nofun)
    apply still known (assigns_none known (by rw [at_]; nofun)) (by rw [at_]; nofun)
    rw [Worker.unstarted_empty unready (by rw [at_]; nofun), after]

end Dispatcher

namespace Delivery

def new : Delivery := ⟨Dispatcher.new, 0, [], []⟩

section Packets
variable (packets : RequestId → Arrival)

/-- The next packet is received by a listener whose last `addRequest` has returned. -/
def Receives (d : Delivery) (r : RequestId) : Prop :=
  r = d.received ∧ ∀ q ∈ d.dispatcher.queueing ++ d.dispatcher.calling,
    (packets q).connection ≠ (packets r).connection

instance (d : Delivery) (r : RequestId) : Decidable (d.Receives packets r) :=
  inferInstanceAs (Decidable (_ ∧ _))

def step (d : Delivery) (a : Dispatcher.Action) : Option Delivery :=
  if ∀ r ∈ a.given, d.Receives packets r then
    (d.dispatcher.step a).map fun dispatcher =>
      { dispatcher
        received := d.received + a.given.length
        assigned := d.assigned ++ d.dispatcher.assigns a
        started := d.started ++ d.dispatcher.starts a }
  else none

/-- The handler calls that have begun, each with its worker. -/
def handlerCalls (d : Delivery) : List (RequestId × Nat) :=
  d.started.filter fun e => (packets e.1).handled

/-- Two packets received one after the other on one connection, each of which causes a
handler call. -/
def InSequence (earlier later : RequestId) : Prop :=
  earlier < later ∧ (packets earlier).connection = (packets later).connection ∧
    (packets earlier).handled = true ∧ (packets later).handled = true

/-- No handler call begins before those for earlier packets of its connection. -/
def InOrder (d : Delivery) : Prop :=
  ∀ earlier later, InSequence packets earlier later →
    Precedes ((d.handlerCalls packets).map Prod.fst) earlier later

/-- The order that the dispatcher keeps. -/
structure Ordered (d : Delivery) : Prop where
  assigned : ∀ earlier later, InSequence packets earlier later →
    Precedes (d.assigned.map Prod.fst) earlier later
  sameWorker : ∀ earlier later worker, InSequence packets earlier later →
    (earlier, worker) ∈ d.assigned →
      Precedes (d.handlerCalls packets) (earlier, worker) (later, worker)
  oneWorker : d.dispatcher.allWorkers.length ≤ 1 → d.InOrder packets

/-! ### The invariant -/

def ofConnection (c : Connection) (r : RequestId) : Bool := (packets r).connection = c

structure Lined (d : Delivery) : Prop where
  sound : d.dispatcher.Sound
  served : ¬d.dispatcher.Stranded
  single : ∀ c, ((d.dispatcher.queueing ++ d.dispatcher.calling).filter
    (ofConnection packets c)).length ≤ 1
  order : ∀ c, (d.dispatcher.line (d.assigned.map Prod.fst)).filter (ofConnection packets c) =
    (List.range d.received).filter (ofConnection packets c)
  worker : ∀ i, d.assigned.filter (fun e => e.2 = i) =
    d.started.filter (fun e => e.2 = i) ++ d.dispatcher.pending i
  known : ∀ e ∈ d.assigned, e.2 < d.dispatcher.allWorkers.length

theorem lined_new : new.Lined packets where
  sound := Dispatcher.sound_new
  served := fun stranded => stranded.1 rfl
  single := fun _ => Nat.zero_le 1
  order := fun _ => rfl
  worker := fun _ => rfl
  known := fun _ member => nomatch member

variable {packets} {d d' : Delivery} {a : Dispatcher.Action}

theorem step_eq (stepped : step packets d a = some d') :
    (∀ r ∈ a.given, d.Receives packets r) ∧ ∃ after, d.dispatcher.step a = some after ∧
      d' = { dispatcher := after
             received := d.received + a.given.length
             assigned := d.assigned ++ d.dispatcher.assigns a
             started := d.started ++ d.dispatcher.starts a } := by
  unfold step at stepped
  split at stepped
  next receives =>
    obtain ⟨after, moved, rfl⟩ := Option.map_eq_some_iff.mp stepped
    exact ⟨receives, after, moved, rfl⟩
  next => cases stepped

/-- Requests are numbered in the order of their packets. -/
theorem range_given (receives : ∀ r ∈ a.given, d.Receives packets r) :
    List.range (d.received + a.given.length) = List.range d.received ++ a.given := by
  cases a with
  | call request =>
    rw [(receives request List.mem_cons_self).1]
    exact List.range_succ
  | startWorker | assign | enqueue | work => exact (List.append_nil _).symm

theorem Lined.step (lined : d.Lined packets) (holds : d.dispatcher.CheckHolds a)
    (stepped : step packets d a = some d') : d'.Lined packets := by
  obtain ⟨receives, after, moved, rfl⟩ := step_eq stepped
  have change := Dispatcher.step_change moved
  constructor
  · exact lined.sound.change change
  · exact Dispatcher.step_not_stranded lined.served holds moved
  · intro c
    apply Dispatcher.single_change (lined.single c) change
    intro r given kind
    rw [List.filter_eq_nil_iff]
    intro q pending same
    apply (receives r given).2 q pending
    rw [of_decide_eq_true same, of_decide_eq_true kind]
  · intro c
    have one := Dispatcher.line_change (lined.single c) change lined.served (d.assigned.map Prod.fst)
    rw [List.map_append, one, lined.order c, range_given receives, List.filter_append]
  · intro i
    rw [List.filter_append, List.filter_append, lined.worker i, List.append_assoc, List.append_assoc,
      lined.sound.pending_change change i]
  · intro e member
    rcases List.mem_append.mp member with old | new
    · exact Nat.lt_of_lt_of_le (lined.known e old) change.workers_length
    · obtain ⟨w, known, -⟩ := lined.sound.receiver (Dispatcher.assigns_receiver new)
      exact Nat.lt_of_lt_of_le (List.getElem?_eq_some_iff.mp known).1 change.workers_length

theorem lined_run (run : Run (Delivery.step packets) (fun d a => d.dispatcher.CheckHolds a) new d) :
    d.Lined packets :=
  run.invariant (lined_new packets) fun _ _ _ lined holds stepped => lined.step holds stepped

/-! ### Order -/

section Lined
variable (lined : d.Lined packets)
include lined

theorem Lined.assigned_precedes {earlier later : RequestId} (less : earlier < later)
    (same : (packets earlier).connection = (packets later).connection) :
    Precedes (d.assigned.map Prod.fst) earlier later := by
  have received : Precedes (List.range d.received) earlier later := by
    intro front back whole
    have bound : later < d.received := by
      rw [← List.mem_range, whole]
      exact List.mem_append_right front List.mem_cons_self
    have member := List.mem_range.mpr (Nat.lt_trans less bound)
    exact Precedes.of_sorted List.pairwise_lt_range member less front back whole
  let mine := ofConnection packets (packets later).connection
  have kept := received.filter (show mine earlier = true from decide_eq_true same)
  rw [← lined.order] at kept
  have line := kept.of_filter (show mine later = true from decide_eq_true rfl)
  unfold Dispatcher.line at line
  rw [List.append_assoc] at line
  exact line.of_append

/-- No request is assigned twice. -/
theorem Lined.assigned_nodup : (d.assigned.map Prod.fst).Nodup := by
  rw [List.nodup_iff_count_le_one]
  intro r
  have kind : ofConnection packets (packets r).connection r = true := decide_eq_true rfl
  calc (d.assigned.map Prod.fst).count r
      ≤ (d.dispatcher.line (d.assigned.map Prod.fst)).count r := by
        rw [Dispatcher.line, List.append_assoc, List.count_append]
        exact Nat.le_add_right _ _
    _ = (List.range d.received).count r := by
        rw [← List.count_filter kind, lined.order, List.count_filter kind]
    _ ≤ 1 := List.nodup_iff_count_le_one.mp List.nodup_range r

theorem Lined.started_assigned {e : RequestId × Nat} (started : e ∈ d.started) : e ∈ d.assigned := by
  have mine : e ∈ d.started.filter fun x => x.2 = e.2 :=
    List.mem_filter.mpr ⟨started, decide_eq_true rfl⟩
  have both := lined.worker e.2 ▸ List.mem_append_left (d.dispatcher.pending e.2) mine
  exact List.mem_of_mem_filter both

theorem Lined.sameWorker_precedes {earlier later : RequestId} {worker : Nat}
    (sequence : InSequence packets earlier later) (assigned : (earlier, worker) ∈ d.assigned) :
    Precedes (d.handlerCalls packets) (earlier, worker) (later, worker) := by
  have whole : Precedes d.assigned (earlier, worker) (later, worker) := by
    intro front back split
    have before := lined.assigned_precedes sequence.1 sequence.2.1 (front.map Prod.fst)
      (back.map Prod.fst) (by rw [split, List.map_append, List.map_cons])
    obtain ⟨e, member, same⟩ := List.mem_map.mp before
    have unique := List.inj_on_of_nodup_map lined.assigned_nodup
      (split ▸ List.mem_append_left _ member) assigned same
    rw [← unique]
    exact member
  let mine : RequestId × Nat → Bool := fun e => e.2 = worker
  have kept := whole.filter (show mine (earlier, worker) = true from decide_eq_true rfl)
  rw [lined.worker worker] at kept
  have started := kept.of_append.of_filter (show mine (later, worker) = true from decide_eq_true rfl)
  exact started.filter sequence.2.2.1

theorem Lined.oneWorker_inOrder (one : d.dispatcher.allWorkers.length ≤ 1) : d.InOrder packets := by
  intro earlier later sequence front back split
  obtain ⟨first, rest, calls, rfl, tail⟩ := List.map_eq_append_iff.mp split
  obtain ⟨⟨later', worker⟩, behind, rfl, rfl, -⟩ := List.map_eq_cons_iff.mp tail
  -- With one worker the call for `earlier` was assigned to the worker that runs `later`.
  have called : (later', worker) ∈ d.handlerCalls packets := by
    rw [calls]
    exact List.mem_append_right first List.mem_cons_self
  have assigned := lined.started_assigned (List.mem_of_mem_filter called)
  obtain ⟨before, after, whole⟩ := List.append_of_mem (List.mem_map_of_mem (f := Prod.fst) assigned)
  have earlier_mem := lined.assigned_precedes sequence.1 sequence.2.1 before after whole
  have earlier_assigned : earlier ∈ d.assigned.map Prod.fst := by
    rw [whole]
    exact List.mem_append_left _ earlier_mem
  obtain ⟨e, member, rfl⟩ := List.mem_map.mp earlier_assigned
  have same : e.2 = worker := by
    have mine := lined.known _ member
    have other := lined.known _ assigned
    omega
  have first_mem := lined.sameWorker_precedes sequence (same ▸ member) first behind calls
  exact List.mem_map.mpr ⟨_, first_mem, rfl⟩

end Lined

/-- As long as no push relies on a stale check, a connection's requests are assigned in the
order of its packets, and each worker starts them in this order. -/
theorem handlers_ordered
    (run : Run (Delivery.step packets) (fun d a => d.dispatcher.CheckHolds a) new d) :
    d.Ordered packets where
  assigned := fun _ _ sequence => (lined_run run).assigned_precedes sequence.1 sequence.2.1
  sameWorker := fun _ _ _ sequence assigned => (lined_run run).sameWorker_precedes sequence assigned
  oneWorker := (lined_run run).oneWorker_inOrder

/-- PUBLISH packets on one connection. -/
def publishes (_ : RequestId) : Arrival := ⟨.client 0, .publish⟩

/-- The first request is handed over, the second one waits in the queue. -/
theorem handlers_ordered_two : ∃ d : Delivery,
    d.handlerCalls publishes = [(0, 0), (1, 0)] ∧ d.Ordered publishes := by
  have replayed : replay (guarded (Delivery.step publishes) fun d a => d.dispatcher.CheckHolds a) new
      ([.startWorker, .work 0, .work 0, .work 0, .work 0, .call 0, .assign 0, .call 1, .assign 0,
        .enqueue 0] ++ List.replicate 11 (.work 0)) =
        some ⟨⟨[], [], [⟨some 1, true, false, .finish⟩], [], [], [0]⟩, 2, [(0, 0), (1, 0)],
          [(0, 0), (1, 0)]⟩ := rfl
  exact ⟨_, rfl, handlers_ordered (run_of_replay replayed)⟩

/-- Two workers were given one packet each, and the later one starts first. With one
worker a call that found no worker may push behind its back: its request waits while the
next one is handed over. -/
theorem handlers_out_of_order :
    (∃ d, Run (Delivery.step publishes) (fun d a => d.dispatcher.CheckHolds a) new d ∧
      ¬d.InOrder publishes) ∧
    ∃ d, (∃ labels, replay (Delivery.step publishes) new labels = some d) ∧
      d.dispatcher.allWorkers.length = 1 ∧ ¬d.InOrder publishes := by
  have late : ∀ d : Delivery, (d.handlerCalls publishes).map Prod.fst = [1] → ¬d.InOrder publishes := by
    intro d calls ordered
    have before := ordered 0 1 ⟨Nat.zero_lt_one, rfl, rfl, rfl⟩ [] [] calls
    cases before
  have two : replay (guarded (Delivery.step publishes) fun d a => d.dispatcher.CheckHolds a) new
      ([.startWorker, .work 0, .work 0, .work 0, .work 0, .startWorker, .work 1, .work 1, .work 1,
        .work 1, .call 0, .assign 0, .call 1, .assign 0] ++ List.replicate 5 (.work 1)) =
        some ⟨⟨[], [], [⟨some 0, true, true, .wait⟩, ⟨some 1, true, false, .finish⟩], [], [], []⟩, 2,
          [(0, 0), (1, 1)], [(1, 1)]⟩ := rfl
  have one : replay (Delivery.step publishes) new
      ([.startWorker, .work 0, .work 0, .work 0, .call 0, .assign 0, .work 0, .enqueue 0, .call 1,
        .assign 0] ++ List.replicate 5 (.work 0)) =
        some ⟨⟨[0], [], [⟨some 1, true, false, .finish⟩], [], [], []⟩, 2, [(1, 0)], [(1, 0)]⟩ := rfl
  constructor
  · exact ⟨_, run_of_replay two, late _ rfl⟩
  · exact ⟨_, ⟨_, one⟩, rfl, late _ rfl⟩

end Packets

end Delivery
end NymphMqtt
