import NymphMqtt.ClientRuntime
import NymphMqtt.Library.Transition

/-! The thread of a client listener beside the thread that disconnects its connection, with the
objects that the listener deletes at its end. -/

namespace NymphMqtt.Runtime
open NymphMqtt.Library Transition

/-! ### Two threads -/

/-- Where `NmqttClientListener::run` is: in its loop, as far as `wait`, and behind it. A socket
method or a `parseMessage` that throws ends the thread with nothing deleted. -/
inductive ListenerPlace where
  | testing
  | polling
  | receiving
  | parsing
  | receivingRest (msglen : Nat)
  | pollingUnread (unread : Nat)
  | receivingUnread (unread : Nat)
  | dispatching
  | signaling
  | threw
  | deletingCondition
  | waiting
  | deletingSocket
  | deletingSemaphore
  | deletingThis
  | ended
  deriving DecidableEq, Repr

/-- Where `NmqttClient::disconnect` is, from `sendMessage` on, with `removeConnection` in it. -/
inductive DisconnectPlace where
  | sending
  | shuttingDown
  | closing
  | setting
  | finding
  | stopping
  | erasing
  | returned
  | threw
  deriving DecidableEq, Repr

/-- The semaphore is gone after it was deleted. `listed` tells whether the manager has the listener.
The two lists tell for each use of the socket and for each call of `stop()` whether the object was
alive. -/
structure LifeCycle where
  listener : ListenerPlace
  disconnect : DisconnectPlace
  listen : Bool
  semaphore : Option Bool
  listed : Bool
  listenerAlive : Bool
  socketAlive : Bool
  socketUses : List Bool
  stopCalls : List Bool
  deriving DecidableEq, Repr

/-- A step with its result, as far as the socket or the parser decides it. -/
inductive ListenerEvent where
  | advanced
  | polled (readable : Bool)
  | received (count : Nat)
  | parsed (msglen : Option Nat)
  | threw
  deriving DecidableEq, Repr

inductive DisconnectEvent where
  | advanced
  | threw
  deriving DecidableEq, Repr

inductive LifeStep where
  | listener (event : ListenerEvent)
  | disconnect (event : DisconnectEvent)
  deriving DecidableEq, Repr

namespace LifeCycle

/-- The listener runs, and `disconnect` is called. -/
def start (listed : Bool) : LifeCycle :=
  ⟨.testing, .sending, true, some false, listed, true, true, [], []⟩

def listenerAt (s : LifeCycle) (place : ListenerPlace) : LifeCycle := { s with listener := place }

def disconnectAt (s : LifeCycle) (place : DisconnectPlace) : LifeCycle := { s with disconnect := place }

def useSocket (s : LifeCycle) : LifeCycle := { s with socketUses := s.socketUses ++ [s.socketAlive] }

/-- `stop()`; nothing is written where the object was deleted. -/
def callStop (s : LifeCycle) : LifeCycle :=
  { s with
    stopCalls := s.stopCalls ++ [s.listenerAlive]
    listen := if s.listenerAlive then false else s.listen }

def listenerStep (s : LifeCycle) (event : ListenerEvent) : Option LifeCycle :=
  match s.listener, event with
  | .testing, .advanced => some (s.listenerAt (if s.listen then .polling else .deletingCondition))
  | .polling, .polled readable =>
      some (s.useSocket.listenerAt (if readable then .receiving else .signaling))
  | .receiving, .received count =>
      some (s.useSocket.listenerAt
        (if count = 0 then .deletingCondition else if count < 2 then .testing else .parsing))
  -- A header that is not complete is parsed again and again.
  | .parsing, .parsed none => some (s.listenerAt .parsing)
  | .parsing, .parsed (some msglen) =>
      some (s.listenerAt (if msglen > 0 then .receivingRest msglen else .dispatching))
  | .receivingRest msglen, .received count =>
      some (s.useSocket.listenerAt
        (if count ≠ msglen then .pollingUnread (msglen - count) else .dispatching))
  | .pollingUnread unread, .polled readable =>
      some (s.useSocket.listenerAt (if readable then .receivingUnread unread else .pollingUnread unread))
  -- A remote that has closed here ends the loop of the message only.
  | .receivingUnread unread, .received count =>
      some (s.useSocket.listenerAt
        (if count = 0 then .dispatching else if count ≠ unread then .pollingUnread (unread - count)
          else .dispatching))
  | .dispatching, .advanced => some (s.listenerAt .signaling)
  | .dispatching, .threw => some (s.listenerAt .threw)
  | .signaling, .advanced => some (s.listenerAt .testing)
  | .polling, .threw | .receiving, .threw | .receivingRest _, .threw | .pollingUnread _, .threw
  | .receivingUnread _, .threw => some (s.useSocket.listenerAt .threw)
  | .deletingCondition, .advanced => some (s.listenerAt .waiting)
  | .waiting, .advanced =>
      if s.semaphore = some true then
        some ({ s with semaphore := some false }.listenerAt .deletingSocket)
      else none
  | .deletingSocket, .advanced => some ({ s with socketAlive := false }.listenerAt .deletingSemaphore)
  | .deletingSemaphore, .advanced => some ({ s with semaphore := none }.listenerAt .deletingThis)
  | .deletingThis, .advanced => some ({ s with listenerAlive := false }.listenerAt .ended)
  | _, _ => none

def disconnectStep (s : LifeCycle) (event : DisconnectEvent) : Option LifeCycle :=
  match s.disconnect, event with
  | .sending, .advanced => some (s.useSocket.disconnectAt .shuttingDown)
  | .shuttingDown, .advanced => some (s.useSocket.disconnectAt .closing)
  | .closing, .advanced => some (s.useSocket.disconnectAt .setting)
  | .shuttingDown, .threw | .closing, .threw => some (s.useSocket.disconnectAt .threw)
  | .setting, .advanced =>
      some ({ s with semaphore := s.semaphore.map fun _ => true }.disconnectAt .finding)
  | .finding, .advanced => some (s.disconnectAt (if s.listed then .stopping else .returned))
  | .stopping, .advanced => some (s.callStop.disconnectAt .erasing)
  | .erasing, .advanced => some ({ s with listed := false }.disconnectAt .returned)
  | _, _ => none

def step (s : LifeCycle) : LifeStep → Option LifeCycle
  | .listener event => s.listenerStep event
  | .disconnect event => s.disconnectStep event

/-- `stop()` was only called on a listener that was alive, and no use of the socket came after its
deletion. -/
structure LifeKept (s : LifeCycle) : Prop where
  stops : ∀ alive ∈ s.stopCalls, alive = true
  sockets : ∀ alive ∈ s.socketUses, alive = true

/-- `disconnect` has set the semaphore, and has not told the listener to stop. -/
def StopPending (s : LifeCycle) : Prop :=
  s.disconnect = .finding ∧ s.listed = true ∨ s.disconnect = .stopping

instance (s : LifeCycle) : Decidable s.StopPending := inferInstanceAs (Decidable (_ ∨ _))

/-- The listener does not delete itself while it is to be told to stop. -/
def Awaited (s : LifeCycle) : LifeStep → Prop
  | .listener _ => s.listener = .deletingThis → ¬s.StopPending
  | .disconnect _ => True

instance (s : LifeCycle) : (l : LifeStep) → Decidable (s.Awaited l)
  | .listener _ => inferInstanceAs (Decidable (_ → _))
  | .disconnect _ => instDecidableTrue

/-! ### What a step does -/

end LifeCycle

/-- The listener has come through its `wait`. -/
def ListenerPlace.released : ListenerPlace → Bool
  | .deletingSocket | .deletingSemaphore | .deletingThis | .ended => true
  | _ => false

namespace LifeCycle

/-- All that the listener does: up to its `wait` it goes on, with a use of the socket or without one;
then it deletes one object after the other. -/
inductive ListenerMoved (s : LifeCycle) : LifeCycle → Prop
  | goes (place : ListenerPlace) : s.listener.released = false → place.released = false →
      ListenerMoved s (s.listenerAt place)
  | uses (place : ListenerPlace) : s.listener.released = false → place.released = false →
      ListenerMoved s (s.useSocket.listenerAt place)
  | waits : s.listener = .waiting → s.semaphore = some true →
      ListenerMoved s ({ s with semaphore := some false }.listenerAt .deletingSocket)
  | deletesSocket : s.listener = .deletingSocket →
      ListenerMoved s ({ s with socketAlive := false }.listenerAt .deletingSemaphore)
  | deletesSemaphore : s.listener = .deletingSemaphore →
      ListenerMoved s ({ s with semaphore := none }.listenerAt .deletingThis)
  | deletesThis : s.listener = .deletingThis →
      ListenerMoved s ({ s with listenerAlive := false }.listenerAt .ended)

theorem released_ite {p : Prop} [Decidable p] {first second : ListenerPlace}
    (one : first.released = false) (two : second.released = false) :
    (if p then first else second).released = false := by
  split
  · exact one
  · exact two

theorem listenerStep_moved {s t : LifeCycle} {event : ListenerEvent}
    (stepped : s.listenerStep event = some t) : ListenerMoved s t := by
  unfold listenerStep at stepped
  split at stepped
  next here => cases stepped; exact .goes _ (congrArg _ here) (released_ite rfl rfl)
  next here => cases stepped; exact .uses _ (congrArg _ here) (released_ite rfl rfl)
  next here =>
    cases stepped
    exact .uses _ (congrArg _ here) (released_ite rfl (released_ite rfl rfl))
  next here => cases stepped; exact .goes .parsing (congrArg _ here) rfl
  next here => cases stepped; exact .goes _ (congrArg _ here) (released_ite rfl rfl)
  next here => cases stepped; exact .uses _ (congrArg _ here) (released_ite rfl rfl)
  next here => cases stepped; exact .uses _ (congrArg _ here) (released_ite rfl rfl)
  next here =>
    cases stepped
    exact .uses _ (congrArg _ here) (released_ite rfl (released_ite rfl rfl))
  next here => cases stepped; exact .goes .signaling (congrArg _ here) rfl
  next here => cases stepped; exact .goes .threw (congrArg _ here) rfl
  next here => cases stepped; exact .goes .testing (congrArg _ here) rfl
  next here => cases stepped; exact .uses .threw (congrArg _ here) rfl
  next here => cases stepped; exact .uses .threw (congrArg _ here) rfl
  next here => cases stepped; exact .uses .threw (congrArg _ here) rfl
  next here => cases stepped; exact .uses .threw (congrArg _ here) rfl
  next here => cases stepped; exact .uses .threw (congrArg _ here) rfl
  next here => cases stepped; exact .goes .waiting (congrArg _ here) rfl
  next here =>
    split at stepped
    next set => cases stepped; exact .waits here set
    next => cases stepped
  next here => cases stepped; exact .deletesSocket here
  next here => cases stepped; exact .deletesSemaphore here
  next here => cases stepped; exact .deletesThis here
  next => cases stepped

end LifeCycle

/-- The semaphore was set. -/
def DisconnectPlace.signaled : DisconnectPlace → Bool
  | .finding | .stopping | .erasing | .returned => true
  | _ => false

namespace LifeCycle

/-- All that `disconnect` does: it uses the socket up to its close; then it sets the semaphore and
takes the listener out of the manager. -/
inductive Disconnected (s : LifeCycle) : LifeCycle → Prop
  | uses (place : DisconnectPlace) : s.disconnect.signaled = false → place.signaled = false →
      Disconnected s (s.useSocket.disconnectAt place)
  | sets : s.disconnect = .setting →
      Disconnected s ({ s with semaphore := s.semaphore.map fun _ => true }.disconnectAt .finding)
  | finds : s.disconnect = .finding →
      Disconnected s (s.disconnectAt (if s.listed then .stopping else .returned))
  | stops : s.disconnect = .stopping → Disconnected s (s.callStop.disconnectAt .erasing)
  | erases : s.disconnect = .erasing →
      Disconnected s ({ s with listed := false }.disconnectAt .returned)

theorem disconnectStep_disconnected {s t : LifeCycle} {event : DisconnectEvent}
    (stepped : s.disconnectStep event = some t) : Disconnected s t := by
  unfold disconnectStep at stepped
  split at stepped
  next here => cases stepped; exact .uses .shuttingDown (congrArg _ here) rfl
  next here => cases stepped; exact .uses .closing (congrArg _ here) rfl
  next here => cases stepped; exact .uses .setting (congrArg _ here) rfl
  next here => cases stepped; exact .uses .threw (congrArg _ here) rfl
  next here => cases stepped; exact .uses .threw (congrArg _ here) rfl
  next here => cases stepped; exact .sets here
  next here => cases stepped; exact .finds here
  next here => cases stepped; exact .stops here
  next here => cases stepped; exact .erases here
  next => cases stepped

/-! ### The socket -/

/-- The listener comes through its `wait` behind the `set()` of `disconnect` only, and the socket is
there until then. -/
structure Orderly (s : LifeCycle) : Prop where
  released : s.listener.released = true → s.disconnect.signaled = true
  set : s.semaphore = some true → s.disconnect.signaled = true
  socket : s.listener.released = false ∨ s.listener = .deletingSocket → s.socketAlive = true
  sockets : ∀ alive ∈ s.socketUses, alive = true

theorem orderly_start (listed : Bool) : Orderly (start listed) := by
  refine ⟨?_, ?_, fun _ => rfl, fun _ => nofun⟩
  · exact fun released => Bool.noConfusion released
  · exact fun set => Bool.noConfusion (Option.some.inj set)

/-- The listener up to its `wait`, with one use of the socket more. -/
theorem Orderly.uses {s : LifeCycle} (orderly : Orderly s) (alive : s.socketAlive = true) :
    ∀ alive ∈ s.useSocket.socketUses, alive = true := by
  intro used member
  rcases List.mem_append.mp member with before | now
  · exact orderly.sockets used before
  · rw [List.mem_singleton.mp now]
    exact alive

/-- The listener behind its `wait`, with the socket deleted. -/
theorem Orderly.beyond {s t : LifeCycle} (orderly : Orderly s) (place : ListenerPlace)
    (through : s.listener.released = true) (at_ : t.listener = place) (released : place.released = true)
    (deleted : place ≠ .deletingSocket) (disconnect : t.disconnect = s.disconnect)
    (semaphore : t.semaphore = some true → s.semaphore = some true)
    (uses : t.socketUses = s.socketUses) : Orderly t := by
  refine ⟨fun _ => ?_, fun set => ?_, ?_, ?_⟩
  · rw [disconnect]
    exact orderly.released through
  · rw [disconnect]
    exact orderly.set (semaphore set)
  · rw [at_]
    rintro (inside | socket)
    · exact Bool.noConfusion (inside.symm.trans released)
    · exact absurd socket deleted
  · rw [uses]
    exact orderly.sockets

theorem Orderly.listener {s t : LifeCycle} (orderly : Orderly s) (moved : ListenerMoved s t) :
    Orderly t := by
  cases moved with
  | goes place inside inside' =>
    refine ⟨?_, orderly.set, fun _ => orderly.socket (.inl inside), orderly.sockets⟩
    exact fun released => Bool.noConfusion (inside'.symm.trans released)
  | uses place inside inside' =>
    have alive := orderly.socket (.inl inside)
    refine ⟨?_, orderly.set, fun _ => alive, orderly.uses alive⟩
    exact fun released => Bool.noConfusion (inside'.symm.trans released)
  | waits here set =>
    have alive := orderly.socket (.inl (congrArg ListenerPlace.released here))
    exact ⟨fun _ => orderly.set set, fun set => Bool.noConfusion (Option.some.inj set), fun _ => alive,
      orderly.sockets⟩
  | deletesSocket here =>
    exact orderly.beyond .deletingSemaphore (congrArg ListenerPlace.released here) rfl rfl (by decide) rfl id rfl
  | deletesSemaphore here =>
    exact orderly.beyond .deletingThis (congrArg ListenerPlace.released here) rfl rfl (by decide) rfl nofun rfl
  | deletesThis here =>
    exact orderly.beyond .ended (congrArg ListenerPlace.released here) rfl rfl (by decide) rfl id rfl

/-- Before the `set()` the listener has not come through its `wait`. -/
theorem Orderly.unreleased {s : LifeCycle} (orderly : Orderly s)
    (early : s.disconnect.signaled = false) : s.listener.released = false := by
  rw [← Bool.not_eq_true]
  intro released
  rw [orderly.released released] at early
  cases early

theorem Orderly.disconnect {s t : LifeCycle} (orderly : Orderly s) (moved : Disconnected s t) :
    Orderly t := by
  cases moved with
  | uses place early early' =>
    have inside := orderly.unreleased early
    refine ⟨?_, ?_, orderly.socket, orderly.uses (orderly.socket (.inl inside))⟩
    · exact fun released => Bool.noConfusion (inside.symm.trans released)
    · intro set
      rw [orderly.set set] at early
      cases early
  | sets => exact ⟨fun _ => rfl, fun _ => rfl, orderly.socket, orderly.sockets⟩
  | finds =>
    have signaled : (if s.listed then DisconnectPlace.stopping else .returned).signaled = true := by
      split <;> rfl
    exact ⟨fun _ => signaled, fun _ => signaled, orderly.socket, orderly.sockets⟩
  | stops => exact ⟨fun _ => rfl, fun _ => rfl, orderly.socket, orderly.sockets⟩
  | erases => exact ⟨fun _ => rfl, fun _ => rfl, orderly.socket, orderly.sockets⟩

/-! ### The listener -/

/-- The listener is alive until it is ended, and it does not end while it is to be told to stop. -/
structure Outlived (s : LifeCycle) : Prop where
  orderly : Orderly s
  alive : s.listener ≠ .ended → s.listenerAlive = true
  pending : s.listener = .ended → ¬s.StopPending
  stops : ∀ alive ∈ s.stopCalls, alive = true

theorem ne_ended {place : ListenerPlace} (inside : place.released = false) : place ≠ .ended := by
  rintro rfl
  cases inside

theorem outlived_start (listed : Bool) : Outlived (start listed) :=
  ⟨orderly_start listed, fun _ => rfl, nofun, fun _ => nofun⟩

theorem Outlived.listener {s t : LifeCycle} (outlived : Outlived s)
    (awaited : s.listener = .deletingThis → ¬s.StopPending) (moved : ListenerMoved s t) :
    Outlived t := by
  have orderly := outlived.orderly.listener moved
  -- Up to `delete this` the object is alive before and after the step.
  have kept (place : ListenerPlace) (here : s.listener = place) (running : place ≠ .ended) :
      s.listenerAlive = true := outlived.alive (by rwa [here])
  cases moved with
  | goes place inside inside' =>
    have alive := outlived.alive (ne_ended inside)
    exact ⟨orderly, fun _ => alive, fun ended => absurd ended (ne_ended inside'), outlived.stops⟩
  | uses place inside inside' =>
    have alive := outlived.alive (ne_ended inside)
    exact ⟨orderly, fun _ => alive, fun ended => absurd ended (ne_ended inside'), outlived.stops⟩
  | waits here => exact ⟨orderly, fun _ => kept _ here nofun, nofun, outlived.stops⟩
  | deletesSocket here => exact ⟨orderly, fun _ => kept _ here nofun, nofun, outlived.stops⟩
  | deletesSemaphore here => exact ⟨orderly, fun _ => kept _ here nofun, nofun, outlived.stops⟩
  | deletesThis here =>
    exact ⟨orderly, fun going => absurd rfl going, fun _ => awaited here, outlived.stops⟩

theorem Outlived.disconnect {s t : LifeCycle} (outlived : Outlived s) (moved : Disconnected s t) :
    Outlived t := by
  have orderly := outlived.orderly.disconnect moved
  cases moved with
  | uses place early early' =>
    refine ⟨orderly, outlived.alive, ?_, outlived.stops⟩
    rintro ended (⟨here, -⟩ | here)
    · exact nomatch (congrArg DisconnectPlace.signaled here).symm.trans early'
    · exact nomatch (congrArg DisconnectPlace.signaled here).symm.trans early'
  | sets here =>
    refine ⟨orderly, outlived.alive, ?_, outlived.stops⟩
    -- An ended listener came through its `wait`, and before the `set()` it has not.
    intro ended
    have inside := outlived.orderly.unreleased (congrArg DisconnectPlace.signaled here)
    exact absurd ended (ne_ended inside)
  | finds here =>
    refine ⟨orderly, outlived.alive, ?_, outlived.stops⟩
    intro ended pending
    apply outlived.pending ended
    refine .inl ⟨here, ?_⟩
    change (if s.listed then DisconnectPlace.stopping else .returned) = .finding ∧ _ ∨
      (if s.listed then DisconnectPlace.stopping else .returned) = .stopping at pending
    cases listed : s.listed with
    | true => rfl
    | false =>
      rw [listed] at pending
      rcases pending with ⟨finding, -⟩ | stopping
      · cases finding
      · cases stopping
  | stops here =>
    have alive : s.listenerAlive = true := outlived.alive fun ended => outlived.pending ended (.inr here)
    refine ⟨orderly, outlived.alive, ?_, ?_⟩
    · rintro ended (⟨finding, -⟩ | stopping)
      · cases finding
      · cases stopping
    · intro called member
      rcases List.mem_append.mp member with before | now
      · exact outlived.stops called before
      · rw [List.mem_singleton.mp now]
        exact alive
  | erases =>
    refine ⟨orderly, outlived.alive, ?_, outlived.stops⟩
    rintro ended (⟨finding, -⟩ | stopping)
    · cases finding
    · cases stopping

/-! ### Runs -/

/-- Without any condition the socket is alive whenever it is used. -/
theorem socket_alive {listed : Bool} {s : LifeCycle} {labels : List LifeStep}
    (replayed : replay step (start listed) labels = some s) : ∀ alive ∈ s.socketUses, alive = true := by
  have orderly : Orderly s := by
    refine replay_invariant ?_ (orderly_start listed) replayed
    intro s l t orderly stepped
    cases l with
    | listener event => exact orderly.listener (listenerStep_moved stepped)
    | disconnect event => exact orderly.disconnect (disconnectStep_disconnected stepped)
  exact orderly.sockets

/-- While the listener does not delete itself before `stop()`, no thread calls what is gone. -/
theorem life_kept {listed : Bool} {s : LifeCycle} (run : Run step Awaited (start listed) s) :
    LifeKept s := by
  have outlived : Outlived s := by
    refine run.invariant (outlived_start listed) ?_
    intro s l t outlived awaited stepped
    cases l with
    | listener event => exact outlived.listener awaited (listenerStep_moved stepped)
    | disconnect event => exact outlived.disconnect (disconnectStep_disconnected stepped)
  exact ⟨outlived.stops, outlived.orderly.sockets⟩

/-- The remote has closed, and the listener deletes itself after it was told to stop. -/
theorem life_kept_closed : ∃ s : LifeCycle, s.stopCalls = [true] ∧ s.listener = .ended ∧ LifeKept s := by
  have run : ∃ s : LifeCycle, replay (guarded step Awaited) (start true) [.listener .advanced,
      .listener (.polled true), .listener (.received 0), .listener .advanced, .disconnect .advanced,
      .disconnect .advanced, .disconnect .advanced, .disconnect .advanced, .disconnect .advanced,
      .disconnect .advanced, .listener .advanced, .listener .advanced, .listener .advanced,
      .listener .advanced] = some s ∧ s.stopCalls = [true] ∧ s.listener = .ended :=
    ⟨_, rfl, rfl, rfl⟩
  obtain ⟨s, replayed, called, ended⟩ := run
  exact ⟨s, called, ended, life_kept (run_of_replay replayed)⟩

/-- The remote has closed, and the listener comes through its `wait` and deletes itself between the
`set()` and the `stop()`. -/
theorem stop_after_delete : ∃ s : LifeCycle, replay step (start true) [.listener .advanced,
      .listener (.polled true), .listener (.received 0), .listener .advanced, .disconnect .advanced,
      .disconnect .advanced, .disconnect .advanced, .disconnect .advanced, .listener .advanced,
      .listener .advanced, .listener .advanced, .listener .advanced, .disconnect .advanced,
      .disconnect .advanced] = some s ∧ s.stopCalls = [false] ∧ ¬LifeKept s := by
  refine ⟨_, rfl, rfl, fun kept => ?_⟩
  have stops := kept.stops
  exact absurd (stops false (List.mem_singleton.mpr rfl)) nofun

/-- A listener that has deleted itself too early is told to stop. -/
theorem pending_stops {s : LifeCycle} (gone : s.listenerAlive = false) (pending : s.StopPending) :
    ∃ labels t, replay step s labels = some t ∧ false ∈ t.stopCalls := by
  have stops {s : LifeCycle} (gone : s.listenerAlive = false) (here : s.disconnect = .stopping) :
      ∃ t, step s (.disconnect .advanced) = some t ∧ false ∈ t.stopCalls := by
    refine ⟨s.callStop.disconnectAt .erasing, ?_, ?_⟩
    · change s.disconnectStep .advanced = _
      unfold disconnectStep
      rw [here]
    · exact List.mem_append_right _ (List.mem_singleton.mpr gone.symm)
  rcases pending with ⟨here, listed⟩ | here
  · have found : step s (.disconnect .advanced) = some (s.disconnectAt .stopping) := by
      change s.disconnectStep .advanced = _
      unfold disconnectStep
      rw [here]
      dsimp only
      rw [listed]
      rfl
    obtain ⟨t, stepped, called⟩ := @stops (s.disconnectAt .stopping) gone rfl
    refine ⟨[.disconnect .advanced, .disconnect .advanced], t, ?_, called⟩
    rw [replay, found, Option.bind_some, replay, stepped]
    rfl
  · obtain ⟨t, stepped, called⟩ := stops gone here
    refine ⟨[.disconnect .advanced], t, ?_, called⟩
    rw [replay, stepped]
    rfl

/-! ### The call as one step -/

/-- The tables of the process tell the same of the listener and of the semaphore of its connection. -/
structure Agrees (c : Statics) (handle : BitVec 32) (listener : ListenerId) (semaphore : SemaphoreId)
    (s : LifeCycle) : Prop where
  listed : c.listeners.lookup handle = if s.listed then some listener else none
  listen : c.started[listener]?.map NmqttClientListener.listen = some s.listen
  semaphore : c.semaphores[semaphore]? = s.semaphore

/-- From the `set()` on, with nothing in between, the steps do what `setSemaphore` and
`removeConnection` do. -/
theorem disconnect_agrees {c : Statics} {handle : BitVec 32} {listener : ListenerId} {semaphore : SemaphoreId}
    {s : LifeCycle} (agrees : Agrees c handle listener semaphore s) (here : s.disconnect = .setting)
    (alive : s.listenerAlive = true) :
    ∃ labels t, replay step s labels = some t ∧ t.disconnect = .returned ∧
      Agrees ((c.setSemaphore semaphore).removeConnection handle) handle listener semaphore t := by
  obtain ⟨listed, listen, set⟩ := agrees
  obtain ⟨place, disconnect, going, value, entered, life, socket, uses, stops⟩ := s
  cases here
  cases alive
  have signaled : (c.setSemaphore semaphore).semaphores[semaphore]? = value.map fun _ => true := by
    change (c.semaphores.set semaphore true)[semaphore]? = _
    rw [List.getElem?_set_self', set]
    rfl
  cases entered with
  | false =>
    refine ⟨List.replicate 2 (.disconnect .advanced), _, rfl, rfl, ?_⟩
    have unchanged : (c.setSemaphore semaphore).removeConnection handle = c.setSemaphore semaphore := by
      unfold Statics.removeConnection
      rw [show (c.setSemaphore semaphore).listeners.lookup handle = none from listed]
    rw [unchanged]
    exact ⟨listed, listen, signaled⟩
  | true =>
    refine ⟨List.replicate 4 (.disconnect .advanced), _, rfl, rfl, ?_⟩
    have removed : (c.setSemaphore semaphore).removeConnection handle =
        { (c.setSemaphore semaphore).stopListener listener with listeners := c.listeners.erase handle } := by
      unfold Statics.removeConnection
      rw [show (c.setSemaphore semaphore).listeners.lookup handle = some listener from listed]
      rfl
    rw [removed]
    refine ⟨AList.lookup_erase .., ?_, signaled⟩
    change (c.started.modify listener _)[listener]?.map _ = _
    rw [List.getElem?_modify_eq]
    obtain ⟨l, known, -⟩ := Option.map_eq_some_iff.mp listen
    rw [known]
    rfl

end LifeCycle
end NymphMqtt.Runtime
