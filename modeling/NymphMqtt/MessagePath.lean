import NymphMqtt.DeliveryOrder
import NymphMqtt.DispatcherProgress
import NymphMqtt.Library.Splice
import NymphMqtt.Transmission

/-! The way of a message through the client library: the listener threads with their streams, the
dispatcher that they give their requests to, and the handlers that its workers call. -/

namespace NymphMqtt
open NymphMqtt.Library Splice Transition

/-! ### One loop -/

namespace Receiver
variable (host : Host) (heap : Nat → Heap)

theorem run_add (k m : Nat) (r : Receiver) :
    run host heap (k + m) r = run host heap m (run host heap k r) := by
  induction k generalizing r with
  | zero => rw [Nat.zero_add, run]
  | succ k ih =>
    rw [Nat.succ_add]
    by_cases listening : r.status = .listening
    · rw [run_succ host heap listening, run_succ host heap listening, ih]
    · rw [run_left host heap listening, run_left host heap listening, run_left host heap listening]

/-- A turn hands over one request at most. -/
theorem turn_hands (r : Receiver) : (turn host heap r).handed = r.handed ∨
    ∃ h, (turn host heap r).handed = r.handed ++ [h] := by
  rcases header_cases r.socket with bytes | ⟨b0, rest, bytes, cut⟩ | ⟨b0, b1, rest, bytes, whole⟩
  · rw [turn_closed host heap r bytes]
    exact .inl rfl
  · rw [turn_cut host heap r bytes cut]
    exact .inl rfl
  · obtain ⟨message, handed⟩ := turn_handed host heap r bytes whole
    rw [handed]
    cases Verdict.of host .version4 (r.nextFrame host b0 b1 rest) with
    | accept => exact .inr ⟨_, rfl⟩
    | reject => exact .inr ⟨_, rfl⟩
    | overrun => exact .inl (List.append_nil _)

/-- The turns that a loop may still take. -/
def ahead (r : Receiver) : Nat :=
  if r.status = .listening then r.socket.incoming.length + 1 else 0

/-- A turn takes a byte or more, or it is the last one. -/
theorem turn_ahead {r : Receiver} (listening : r.status = .listening) :
    (turn host heap r).ahead + 1 ≤ r.ahead := by
  rw [ahead, ahead, if_pos listening]
  rcases header_cases r.socket with bytes | ⟨b0, rest, bytes, cut⟩ | ⟨b0, b1, rest, bytes, whole⟩
  · rw [turn_closed host heap r bytes, if_neg (fun h => by cases h)]
    exact Nat.succ_le_succ (Nat.zero_le _)
  · rw [turn_cut host heap r bytes cut, bytes, List.length_cons]
    dsimp only
    split <;> omega
  · obtain ⟨-, -, socket, -⟩ := turn_frame host heap r bytes whole
    obtain ⟨-, left, -⟩ := readBody_collects ⟨rest, r.socket.offers.tail⟩
      (r.nextHeader host b0 b1).msglen.toNat
    rw [socket, left, List.length_drop, bytes, List.length_cons, List.length_cons]
    dsimp only
    split <;> omega

end Receiver

/-! ### The threads -/

/-- The listeners by the number of their connection, and the dispatcher. Requests are numbered as
they are made; `given` keeps each with its connection. -/
structure MessagePath where
  listeners : List Receiver
  given : List (Nat × Handed)
  delivery : Delivery

namespace MessagePath

def start (listeners : List Receiver) : MessagePath := ⟨listeners, [], Delivery.new⟩

/-- The packets of the requests that were given. -/
def arrivals (given : List (Nat × Handed)) (r : RequestId) : Arrival :=
  match given[r]? with
  | some (i, h) => ⟨.client i, h.message.command⟩
  | none => ⟨.server 0, .publish⟩

/-- A turn of a listener's loop, or a step of the dispatcher's threads that brings no request. -/
inductive Event where
  | turn (connection : Nat)
  | act (action : Dispatcher.Action)
  deriving DecidableEq, Repr

section Step
variable (host : Host) (heap : Nat → Nat → Heap)

/-- The loop goes on when the `addRequest` of its last turn has returned. -/
def step (s : MessagePath) : Event → Option MessagePath
  | .turn i => do
      let r ← s.listeners[i]?
      if r.status = .listening ∧ ∀ q ∈ s.delivery.dispatcher.queueing ++ s.delivery.dispatcher.calling,
          (arrivals s.given q).connection ≠ .client i then
        let r' := r.turn host (heap i)
        match r'.handed.drop r.handed.length with
        | [] => some { s with listeners := s.listeners.set i r' }
        | h :: _ =>
            let given := s.given ++ [(i, h)]
            (s.delivery.step (arrivals given) (.call s.given.length)).map fun delivery =>
              ⟨s.listeners.set i r', given, delivery⟩
      else none
  | .act a =>
      if a.given = [] then
        (s.delivery.step (arrivals s.given) a).map fun delivery => { s with delivery := delivery }
      else none

/-- The steps of the threads themselves. The others start a worker. -/
def Event.inside : Event → Bool
  | .turn _ => true
  | .act a => a.inside

/-- How many steps an event makes possible. -/
def Event.allows : Event → Nat
  | .turn _ => 0
  | .act a => a.allows

/-- No listener and no thread of the dispatcher can take a step. -/
def AtRest (s : MessagePath) : Prop :=
  (∀ i, s.step host heap (.turn i) = none) ∧
    ∀ a : Dispatcher.Action, a.inside = true → s.step host heap (.act a) = none

/-- The checks of the dispatcher's pushes are not stale. -/
def CheckHolds (s : MessagePath) : Event → Prop
  | .turn _ => True
  | .act a => s.delivery.dispatcher.CheckHolds a

instance (s : MessagePath) : (e : Event) → Decidable (s.CheckHolds e)
  | .turn _ => instDecidableTrue
  | .act a => inferInstanceAs (Decidable (s.delivery.dispatcher.CheckHolds a))

end Step

/-- The call that the request is processed into. -/
def callOf (given : List (Nat × Handed)) (r : RequestId) : Option ClientCall :=
  given[r]?.bind fun e => Request.process e.2.message

/-- The handler calls that have begun, in their order. -/
def calls (s : MessagePath) : List ClientCall :=
  (s.delivery.started.map Prod.fst).filterMap (callOf s.given)

/-- Those for the packets of one connection. -/
def callsOf (s : MessagePath) (i : Nat) : List ClientCall :=
  ((s.delivery.started.map Prod.fst).filter
    (Delivery.ofConnection (arrivals s.given) (.client i))).filterMap (callOf s.given)

/-! ### Numbers -/

theorem arrivals_old {given : List (Nat × Handed)} (e : Nat × Handed) {r : RequestId}
    (old : r < given.length) : arrivals (given ++ [e]) r = arrivals given r := by
  rw [arrivals, arrivals, List.getElem?_append_left old]

theorem filterMap_range (given : List (Nat × Handed)) (f : Nat × Handed → Option ClientCall) :
    (List.range given.length).filterMap (fun r => given[r]?.bind f) = given.filterMap f := by
  induction given using List.reverseRecOn with
  | nil => rfl
  | append_singleton given e ih =>
    rw [List.length_append, List.length_singleton, List.range_succ, List.filterMap_append,
      List.filterMap_append, ← ih]
    congr 1
    · apply List.filterMap_congr
      intro r member
      rw [List.getElem?_append_left (List.mem_range.mp member)]
    · rw [List.filterMap_cons, List.filterMap_cons, List.getElem?_concat_length]
      rfl

/-- The calls for the requests of one connection. -/
theorem ofConnection_calls (given : List (Nat × Handed)) (i : Nat) :
    ((List.range given.length).filter
      (Delivery.ofConnection (arrivals given) (.client i))).filterMap (callOf given) =
      (given.filter fun e => e.1 = i).filterMap fun e => Request.process e.2.message := by
  rw [List.filterMap_filter, List.filterMap_filter, ← filterMap_range]
  apply List.filterMap_congr
  intro r member
  obtain ⟨e, known⟩ : ∃ e, given[r]? = some e :=
    ⟨_, List.getElem?_eq_getElem (List.mem_range.mp member)⟩
  rw [callOf, Delivery.ofConnection, arrivals, known, Option.bind_some, Option.bind_some]
  simp only [Connection.client.injEq]

end MessagePath

/-! ### Requests that are known -/

namespace Delivery
variable {packets packets' : RequestId → Arrival} {d : Delivery}

/-- What is in the line has been received. -/
theorem Lined.line_known (lined : d.Lined packets) {r : RequestId}
    (member : r ∈ d.dispatcher.line (d.assigned.map Prod.fst)) : r < d.received := by
  have mine : ofConnection packets (packets r).connection r = true := decide_eq_true rfl
  have filtered := List.mem_filter.mpr ⟨member, mine⟩
  rw [lined.order] at filtered
  exact List.mem_range.mp (List.mem_of_mem_filter filtered)

/-- The order is a matter of the packets received so far. -/
theorem Lined.congr (lined : d.Lined packets) (same : ∀ r < d.received, packets' r = packets r) :
    d.Lined packets' := by
  have kind : ∀ c, ∀ r < d.received, ofConnection packets' c r = ofConnection packets c r := by
    intro c r known
    rw [ofConnection, ofConnection, same r known]
  refine ⟨lined.sound, lined.served, fun c => ?_, fun c => ?_, lined.worker, lined.known⟩
  · rw [List.filter_congr fun r member => kind c r (lined.line_known (List.mem_append_right _ member))]
    exact lined.single c
  · rw [List.filter_congr fun r member => kind c r (lined.line_known member), lined.order c]
    exact List.filter_congr fun r member => (kind c r (List.mem_range.mp member)).symm

end Delivery

namespace MessagePath
open Delivery
variable {host : Host} {heap : Nat → Nat → Heap} {listeners : List Receiver} {s t : MessagePath}
  {e : Event}

/-! ### The invariant -/

/-- The requests are those of the loops, each of which has run for some turns. -/
structure Kept (host : Host) (heap : Nat → Nat → Heap) (listeners : List Receiver) (s : MessagePath) :
    Prop where
  lined : s.delivery.Lined (arrivals s.given)
  accounted : s.delivery.dispatcher.Accounted
  count : s.delivery.received = s.given.length
  mine : ∀ (i : Nat) r, s.listeners[i]? = some r →
    (s.given.filter fun e => e.1 = i).map Prod.snd = r.handed
  whole : (s.given.map Prod.snd).Perm (s.listeners.flatMap Receiver.handed)
  ran : ∀ (i : Nat) r, s.listeners[i]? = some r →
    ∃ r₀ turns, listeners[i]? = some r₀ ∧ r = Receiver.run host (heap i) turns r₀
  size : s.listeners.length = listeners.length

theorem kept_start (fresh : ∀ r ∈ listeners, r.handed = []) :
    Kept host heap listeners (start listeners) where
  lined := lined_new _
  accounted := Dispatcher.accounted_new
  count := rfl
  mine i r known := (fresh r (List.mem_of_getElem? known)).symm
  whole := by
    rw [show (start listeners).listeners.flatMap Receiver.handed = [] from
      List.flatMap_eq_nil_iff.mpr fresh]
    exact .refl _
  ran i r known := ⟨r, 0, known, rfl⟩
  size := rfl

section Turn
variable {i : Nat} {r : Receiver}

/-- The loop after one more turn. -/
theorem Kept.ran_set (kept : Kept host heap listeners s) (known : s.listeners[i]? = some r)
    (listening : r.status = .listening) (j : Nat) (u : Receiver)
    (there : (s.listeners.set i (r.turn host (heap i)))[j]? = some u) :
    ∃ r₀ turns, listeners[j]? = some r₀ ∧ u = Receiver.run host (heap j) turns r₀ := by
  rw [getElem?_set_known known] at there
  split at there
  next same =>
    subst same
    obtain rfl := Option.some_inj.mp there
    obtain ⟨r₀, turns, begun, rfl⟩ := kept.ran j r known
    refine ⟨r₀, turns + 1, begun, ?_⟩
    rw [Receiver.run_add, Receiver.run, if_pos listening]
    rfl
  next => exact kept.ran j u there

/-- A turn that hands over nothing. -/
theorem Kept.silent (kept : Kept host heap listeners s) (known : s.listeners[i]? = some r)
    (listening : r.status = .listening) (handed : (r.turn host (heap i)).handed = r.handed) :
    Kept host heap listeners { s with listeners := s.listeners.set i (r.turn host (heap i)) } := by
  refine ⟨kept.lined, kept.accounted, kept.count, fun j u there => ?_, ?_,
    kept.ran_set known listening, (List.length_set ..).trans kept.size⟩
  · rw [getElem?_set_known known] at there
    split at there
    next same =>
      obtain rfl := Option.some_inj.mp there
      rw [handed, same]
      exact kept.mine i r known
    next => exact kept.mine j u there
  · have perm := flatMap_set_perm known (handed.trans (List.append_nil _).symm)
    rw [List.append_nil] at perm
    exact kept.whole.trans perm.symm

/-- A turn that hands over a request, and the call that gives it to the dispatcher. -/
theorem Kept.gives (kept : Kept host heap listeners s) (known : s.listeners[i]? = some r)
    (listening : r.status = .listening) {h : Handed}
    (handed : (r.turn host (heap i)).handed = r.handed ++ [h]) {delivery : Delivery}
    (called : s.delivery.step (arrivals (s.given ++ [(i, h)])) (.call s.given.length) =
      some delivery) :
    Kept host heap listeners
      ⟨s.listeners.set i (r.turn host (heap i)), s.given ++ [(i, h)], delivery⟩ := by
  have later : s.delivery.Lined (arrivals (s.given ++ [(i, h)])) :=
    kept.lined.congr fun q old => arrivals_old _ (kept.count ▸ old)
  obtain ⟨-, after, moved, rfl⟩ := step_eq called
  have fresh : s.delivery.dispatcher.CheckHolds (.call s.given.length) := trivial
  have lined := later.step fresh called
  refine ⟨lined, kept.accounted.change kept.lined.sound (Dispatcher.step_change moved), ?_, ?_, ?_,
    kept.ran_set known listening, (List.length_set ..).trans kept.size⟩
  · rw [List.length_append, ← kept.count]
    rfl
  · intro j u there
    rw [List.filter_append, List.map_append]
    rw [getElem?_set_known known] at there
    split at there
    next same =>
      obtain rfl := Option.some_inj.mp there
      rw [handed, same, kept.mine i r known, List.filter_singleton, decide_eq_true rfl]
      rfl
    next other =>
      rw [kept.mine j u there, List.filter_singleton, decide_eq_false (Ne.symm other)]
      exact List.append_nil _
  · rw [List.map_append]
    exact (kept.whole.append_right _).trans (flatMap_set_perm known handed).symm

end Turn

theorem Kept.step (kept : Kept host heap listeners s) (holds : s.CheckHolds e)
    (stepped : s.step host heap e = some t) : Kept host heap listeners t := by
  cases e with
  | turn i =>
    obtain ⟨r, known, rest⟩ := Option.bind_eq_some_iff.mp stepped
    split at rest
    next free =>
      dsimp only at rest
      rcases r.turn_hands host (heap i) with same | ⟨h, more⟩
      · rw [same, List.drop_length] at rest
        cases rest
        exact kept.silent known free.1 same
      · rw [more, List.drop_left] at rest
        obtain ⟨delivery, called, rfl⟩ := Option.map_eq_some_iff.mp rest
        exact kept.gives known free.1 more called
    next => cases rest
  | act a =>
    rw [MessagePath.step] at stepped
    split at stepped
    next none =>
      obtain ⟨delivery, acted, rfl⟩ := Option.map_eq_some_iff.mp stepped
      obtain ⟨-, after, moved, rfl⟩ := step_eq acted
      refine ⟨kept.lined.step holds acted,
        kept.accounted.change kept.lined.sound (Dispatcher.step_change moved), ?_, kept.mine, kept.whole,
        kept.ran, kept.size⟩
      rw [← kept.count, none]
      rfl
    next => cases stepped

theorem Kept.guarded (kept : Kept host heap listeners s)
    (stepped : guarded (MessagePath.step host heap) CheckHolds s e = some t) :
    s.CheckHolds e ∧ s.step host heap e = some t ∧ Kept host heap listeners t := by
  unfold Transition.guarded at stepped
  split at stepped
  next holds => exact ⟨holds, stepped, kept.step holds stepped⟩
  next => cases stepped

theorem kept_run (fresh : ∀ r ∈ listeners, r.handed = []) {events : List Event}
    (run : replay (guarded (step host heap) CheckHolds) (start listeners) events = some s) :
    Kept host heap listeners s :=
  replay_invariant (fun _ _ _ kept stepped => (kept.guarded stepped).2.2) (kept_start fresh) run

/-! ### At rest -/

/-- What the threads leave when none of them can take a step. -/
structure Rested (s : MessagePath) : Prop where
  ended : ∀ r ∈ s.listeners, r.status ≠ .listening
  calling : s.delivery.dispatcher.calling = []
  queueing : s.delivery.dispatcher.queueing = []
  workers : ∀ w ∈ s.delivery.dispatcher.allWorkers, w.step = .wait ∧ w.ready = false

theorem Kept.rested (kept : Kept host heap listeners s) (rest : s.AtRest host heap) : s.Rested := by
  have still : s.delivery.dispatcher.AtRest := by
    intro a inside
    have none := rest.2 a inside
    have nothing : a.given = [] := by
      cases a with
      | call request => cases inside
      | _ => rfl
    rw [MessagePath.step, if_pos nothing, Option.map_eq_none_iff, Delivery.step, if_pos,
      Option.map_eq_none_iff] at none
    · exact none
    · rw [nothing]
      exact nofun
  obtain ⟨calling, queueing, workers⟩ := (kept.accounted.atRest_iff kept.lined.sound).mp still
  refine ⟨?_, calling, queueing, workers⟩
  intro r member listening
  obtain ⟨i, known⟩ := List.mem_iff_getElem?.mp member
  have none := rest.1 i
  have free : ∀ q ∈ s.delivery.dispatcher.queueing ++ s.delivery.dispatcher.calling,
      (arrivals s.given q).connection ≠ .client i := by
    rw [calling, queueing]
    exact nofun
  have turned : (s.step host heap (.turn i)).isSome := by
    rw [MessagePath.step, known, Option.bind_eq_bind, Option.bind_some, if_pos ⟨listening, free⟩]
    dsimp only
    rcases r.turn_hands host (heap i) with same | ⟨h, more⟩
    · rw [same, List.drop_length]
      rfl
    · rw [more, List.drop_left]
      dsimp only
      rw [Option.isSome_map, Delivery.step, if_pos]
      · rfl
      · intro q asked
        rw [List.mem_singleton.mp asked]
        refine ⟨kept.count.symm, ?_⟩
        rw [calling, queueing]
        exact nofun
  rw [none] at turned
  cases turned

theorem Rested.atRest (rested : s.Rested) (kept : Kept host heap listeners s) :
    s.AtRest host heap := by
  have still : s.delivery.dispatcher.AtRest :=
    (kept.accounted.atRest_iff kept.lined.sound).mpr ⟨rested.calling, rested.queueing, rested.workers⟩
  constructor
  · intro i
    rw [MessagePath.step]
    cases known : s.listeners[i]? with
    | none => rfl
    | some r =>
      rw [Option.bind_eq_bind, Option.bind_some]
      exact if_neg fun both => rested.ended r (List.mem_of_getElem? known) both.1
  · intro a inside
    rw [MessagePath.step, Delivery.step, still a inside]
    split
    next =>
      split
      next => rfl
      next => rfl
    next => rfl

section Rested
variable (kept : Kept host heap listeners s) (rested : s.Rested)
  (staffed : s.delivery.dispatcher.allWorkers ≠ [])
include kept rested staffed

/-- With a worker no request waits. -/
theorem Kept.requests_nil : s.delivery.dispatcher.requests = [] := by
  by_contra waiting
  obtain ⟨w, others, all⟩ := List.exists_cons_of_ne_nil staffed
  have first : s.delivery.dispatcher.allWorkers[0]? = some w := by rw [all]; rfl
  obtain ⟨waits, unready⟩ := rested.workers w (List.mem_of_getElem? first)
  have idle := (kept.accounted 0 w first).2 waits unready
  exact kept.lined.served ⟨waiting, List.ne_nil_of_mem idle⟩

/-- Every request has been assigned, those of a connection in their order. -/
theorem Kept.assigned_order (c : Connection) :
    (s.delivery.assigned.map Prod.fst).filter (ofConnection (arrivals s.given) c) =
      (List.range s.given.length).filter (ofConnection (arrivals s.given) c) := by
  have order := kept.lined.order c
  rw [Dispatcher.line, kept.requests_nil rested staffed, rested.calling, rested.queueing, kept.count] at order
  simpa using order

omit staffed in
/-- Every assigned request has been started. -/
theorem Kept.started_of (i : Nat) :
    s.delivery.started.filter (fun e => e.2 = i) = s.delivery.assigned.filter fun e => e.2 = i := by
  have pending : s.delivery.dispatcher.pending i = [] := by
    cases known : s.delivery.dispatcher.allWorkers[i]? with
    | none =>
      rw [Dispatcher.pending, known]
      rfl
    | some w =>
      obtain ⟨waits, unready⟩ := rested.workers w (List.mem_of_getElem? known)
      rw [Dispatcher.pending_known known, Worker.unstarted_empty unready (by rw [waits]; intro same; cases same)]
      rfl
  have worker := kept.lined.worker i
  rw [pending, List.append_nil] at worker
  exact worker.symm

theorem Kept.started_perm :
    (s.delivery.started.map Prod.fst).Perm (List.range s.given.length) := by
  have started : s.delivery.started.Perm s.delivery.assigned :=
    perm_of_filter Prod.snd (kept.started_of rested)
  have assigned : (s.delivery.assigned.map Prod.fst).Perm (List.range s.given.length) :=
    perm_of_filter (fun r => (arrivals s.given r).connection) (kept.assigned_order rested staffed)
  exact (started.map Prod.fst).trans assigned

/-- Every request is processed once. -/
theorem Kept.calls_perm : s.calls.Perm (processed (s.listeners.flatMap Receiver.handed)) := by
  have started := (kept.started_perm rested staffed).filterMap (callOf s.given)
  have all : (List.range s.given.length).filterMap (callOf s.given) =
      processed (s.given.map Prod.snd) := by
    rw [processed, List.filterMap_map]
    exact filterMap_range s.given _
  rw [all] at started
  exact started.trans (kept.whole.filterMap _)

/-- By one worker, in the order of its connection. -/
theorem Kept.calls_order (one : s.delivery.dispatcher.allWorkers.length = 1) {i : Nat} {r : Receiver}
    (known : s.listeners[i]? = some r) : s.callsOf i = processed r.handed := by
  have first : ∀ e ∈ s.delivery.assigned, decide (e.2 = 0) = true := by
    intro e member
    have bound := kept.lined.known e member
    exact decide_eq_true (by omega)
  have first' : ∀ e ∈ s.delivery.started, decide (e.2 = 0) = true :=
    fun e member => first e (kept.lined.started_assigned member)
  have same : s.delivery.started = s.delivery.assigned := by
    have all := kept.started_of rested 0
    rwa [List.filter_eq_self.mpr first, List.filter_eq_self.mpr first'] at all
  rw [callsOf, same, kept.assigned_order rested staffed, ofConnection_calls, ← kept.mine i r known]
  rw [processed, List.filterMap_map]
  rfl

end Rested

/-! ### How long it takes -/

/-- A turn is worth its request and one step more. -/
def ahead (s : MessagePath) : Nat :=
  10 * (s.listeners.map Receiver.ahead).sum + s.delivery.dispatcher.ahead

theorem Kept.spends (kept : Kept host heap listeners s) (stepped : s.step host heap e = some t) :
    t.ahead + (if e.inside then 1 else 0) ≤ s.ahead + e.allows := by
  cases e with
  | turn i =>
    obtain ⟨r, known, rest⟩ := Option.bind_eq_some_iff.mp stepped
    split at rest
    next free =>
      dsimp only at rest
      have less := Receiver.turn_ahead host (heap i) free.1
      have moved := sum_map_set known (r.turn host (heap i)) Receiver.ahead
      split at rest
      next =>
        cases rest
        simp only [ahead, Event.inside, Event.allows, if_true]
        omega
      next =>
        obtain ⟨delivery, called, rfl⟩ := Option.map_eq_some_iff.mp rest
        obtain ⟨-, after, acted, rfl⟩ := step_eq called
        have more := kept.lined.sound.ahead_change (Dispatcher.step_change acted)
        simp only [Dispatcher.Action.inside, Dispatcher.Action.allows, Bool.false_eq_true,
          if_false] at more
        simp only [ahead, Event.inside, Event.allows, if_true]
        omega
    next => cases rest
  | act a =>
    rw [MessagePath.step] at stepped
    split at stepped
    next =>
      obtain ⟨delivery, called, rfl⟩ := Option.map_eq_some_iff.mp stepped
      obtain ⟨-, after, acted, rfl⟩ := step_eq called
      have more := kept.lined.sound.ahead_change (Dispatcher.step_change acted)
      change 10 * (s.listeners.map Receiver.ahead).sum + after.ahead + (if a.inside then 1 else 0) ≤
        s.ahead + a.allows
      unfold ahead
      omega
    next => cases stepped

/-! ### Published messages -/

/-- The `publish` calls whose messages come over a connection, and how its socket hands them out to
the listener. -/
structure Publishing where
  calls : List PublishCall
  offers : List Nat
  headerBuff : Vector Byte 5

def Publishing.listener (sender : Host) (p : Publishing) : Receiver :=
  ⟨p.headerBuff, ⟨p.calls.flatMap fun c => (c.message.serialize sender).1, p.offers⟩, [], [], .listening⟩

/-- The calls of the message handler that they are to lead to. -/
def Publishing.handled (p : Publishing) : List ClientCall :=
  p.calls.map fun c => .handler c.topic c.arriving

theorem fresh_listeners (sender : Host) (ps : List Publishing) :
    ∀ r ∈ ps.map (Publishing.listener sender), r.handed = [] := by
  rw [List.forall_mem_map]
  exact fun _ _ => rfl

section Publishes
variable {sender : Host} (order : sender.endian = .le) (order' : host.endian = .le)
  {ps : List Publishing} (short : ∀ p ∈ ps, ∀ c ∈ p.calls, c.remainingLength ≤ 127)
  (whole : ∀ p ∈ ps, Receiver.HeadersWhole (p.calls.map PublishCall.remainingLength) p.offers)
include order order' short whole

/-- A loop that has ended has got all of its connection. -/
theorem Kept.published (kept : Kept host heap (ps.map (Publishing.listener sender)) s) {i : Nat}
    {r : Receiver} (known : s.listeners[i]? = some r) (ended : r.status ≠ .listening) :
    r.status = .disconnected ∧ ∃ p, ps[i]? = some p ∧ processed r.handed = p.handled := by
  obtain ⟨r₀, turns, begun, rfl⟩ := kept.ran i r known
  rw [List.getElem?_map] at begun
  obtain ⟨p, there, rfl⟩ := Option.map_eq_some_iff.mp begun
  have member := List.mem_of_getElem? there
  obtain ⟨status, hs, handed, received⟩ := @run_received sender host order order' p.calls
    (short p member) p.offers (whole p member) (heap i) (p.listener sender) rfl rfl
    (turns + (p.calls.length + 1)) (by omega)
  rw [Receiver.run_add, Receiver.run_left host (heap i) ended] at status handed
  refine ⟨status, p, there, ?_⟩
  rw [handed]
  exact processed_received received

/-- Messages with one length byte that are published to a client over any number of connections,
in any interleaving of its listeners, their calls of the dispatcher and its workers: the threads
come to rest after a bounded number of steps, and where there is a worker and no push relied on a
stale check, the message handler has been called for each message once, by one worker in the order
of each connection. -/
theorem publishes_handled {events : List Event}
    (run : replay (guarded (step host heap) CheckHolds)
      (start (ps.map (Publishing.listener sender))) events = some s) :
    events.countP Event.inside ≤
        10 * (ps.map fun p => (p.listener sender).socket.incoming.length + 1).sum +
          (events.map Event.allows).sum ∧
      (s.AtRest host heap → s.delivery.dispatcher.allWorkers ≠ [] →
        (∀ r ∈ s.listeners, r.status = .disconnected) ∧
        s.calls.Perm (ps.flatMap Publishing.handled) ∧
        (s.delivery.dispatcher.allWorkers.length = 1 →
          ∀ (i : Nat) p, ps[i]? = some p → s.callsOf i = p.handled)) := by
  have fresh := fresh_listeners sender ps
  have kept := kept_run fresh run
  constructor
  · have spends := @replay_spends _ _ _ (Kept host heap (ps.map (Publishing.listener sender)))
      ahead Event.inside Event.allows (fun _ _ _ kept stepped => (kept.guarded stepped).2.2)
      (fun _ _ _ kept stepped => kept.spends (kept.guarded stepped).2.1) _ _ _ (kept_start fresh) run
    have begun : (start (ps.map (Publishing.listener sender))).ahead =
        10 * (ps.map fun p => (p.listener sender).socket.incoming.length + 1).sum := by
      rw [ahead, start, List.map_map]
      rfl
    omega
  · intro rest staffed
    have rested := kept.rested rest
    have each : ∀ (i : Nat) r, s.listeners[i]? = some r → r.status = .disconnected ∧
        ∃ p, ps[i]? = some p ∧ processed r.handed = p.handled := fun i r known =>
      kept.published order order' short whole known (rested.ended r (List.mem_of_getElem? known))
    refine ⟨?_, ?_, ?_⟩
    · intro r member
      obtain ⟨i, known⟩ := List.mem_iff_getElem?.mp member
      exact (each i r known).1
    · have all : s.listeners.map (fun r => processed r.handed) = ps.map Publishing.handled := by
        have size := kept.size
        rw [List.length_map] at size
        apply List.ext_getElem (by rw [List.length_map, List.length_map, size])
        intro i inside inside'
        rw [List.length_map] at inside inside'
        obtain ⟨-, p, there, handled⟩ := each i _ (List.getElem?_eq_getElem inside)
        rw [List.getElem?_eq_getElem inside'] at there
        rw [List.getElem_map, List.getElem_map, handled, Option.some_inj.mp there]
      have perm := kept.calls_perm rested staffed
      rw [processed, List.filterMap_flatMap] at perm
      rw [List.flatMap_def, ← all, ← List.flatMap_def]
      exact perm
    · intro one i p there
      have size := kept.size
      rw [List.length_map] at size
      have inside := (List.getElem?_eq_some_iff.mp there).1
      have known := List.getElem?_eq_getElem (size ▸ inside)
      obtain ⟨-, p', there', reached⟩ := each i _ known
      rw [kept.calls_order rested staffed one known, reached, Option.some_inj.mp (there.symm.trans there')]

end Publishes

/-- One message over each of two connections; the second one waits for the only worker. -/
theorem publishes_handled_two :
    let message : PublishCall := ⟨[0x74], [0x68, 0x69], .atMostOnce, false, default⟩
    let ps : List Publishing := List.replicate 2 ⟨[message], [], #v[0, 0, 0, 0, 0]⟩
    let heap : Nat → Nat → Heap := fun _ _ => ⟨default, fun _ => 0⟩
    let events := .act .startWorker :: List.replicate 4 (.act (.work 0)) ++ [.turn 0, .turn 1,
      .act (.assign 0), .act (.assign 0), .act (.enqueue 0)] ++
      List.replicate 14 (.act (.work 0)) ++ [.turn 0, .turn 1]
    ∃ s, replay (guarded (step ⟨.le, false⟩ heap) CheckHolds)
        (start (ps.map (Publishing.listener ⟨.le, true⟩))) events = some s ∧
      s.callsOf 0 = [.handler [0x74] [0x68, 0x69]] ∧ s.callsOf 1 = [.handler [0x74] [0x68, 0x69]] := by
  intro message ps heap events
  have replayed : (replay (guarded (step ⟨.le, false⟩ heap) CheckHolds)
      (start (ps.map (Publishing.listener ⟨.le, true⟩))) events).map
        (fun s => (s.listeners.map (·.status), s.delivery.dispatcher)) =
      some ([.disconnected, .disconnected],
        ⟨[], [0], [⟨some 1, true, false, .wait⟩], [], [], [0, 1]⟩) := by
    decide
  obtain ⟨s, run, same⟩ := Option.map_eq_some_iff.mp replayed
  obtain ⟨status, dispatcher⟩ := Prod.mk.inj same
  have rested : s.Rested := by
    refine ⟨fun r member listening => ?_, by rw [dispatcher], by rw [dispatcher], ?_⟩
    · have member := List.mem_map_of_mem (f := Receiver.status) member
      rw [status, listening] at member
      revert member
      decide
    · rw [dispatcher]
      decide
  have rest := rested.atRest (kept_run (fresh_listeners ⟨.le, true⟩ ps) run)
  have whole : ∀ p ∈ ps, Receiver.HeadersWhole (p.calls.map PublishCall.remainingLength) p.offers := by
    intro p member
    rw [List.eq_of_mem_replicate member]
    exact Receiver.headersWhole_at_once _
  obtain ⟨-, -, once⟩ := (@publishes_handled ⟨.le, false⟩ heap s ⟨.le, true⟩ rfl rfl ps (by decide)
    whole events run).2 rest (by rw [dispatcher]; decide)
  have ordered := once (by rw [dispatcher]; rfl)
  exact ⟨s, run, ordered 0 _ rfl, ordered 1 _ rfl⟩

end MessagePath
end NymphMqtt
