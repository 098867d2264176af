import NymphMqtt.Library.Transition
import NymphMqtt.ServerConnections

/-! The server at work: sessions register their sockets and queue requests, and workers
answer them. Which worker takes a request makes no difference, so a request carries its
own progress, and the requests proceed in any order. -/

namespace NymphMqtt
open NymphMqtt.Library.Transition

/-! ### Sessions -/

/-- Sessions are numbered as they start. The number also stands for the session's socket. -/
abbrev SessionId := Nat

/-- `removed`: `run()` has returned. `threw`: an exception left it before `removeSocket`. -/
inductive SessionStep where
  | listening
  | removed
  | threw
  deriving DecidableEq, Repr

structure NmqttSession where
  handle : BitVec 64
  step : SessionStep
  deriving DecidableEq, Repr

/-- The handle was not given back. -/
def NmqttSession.registered (s : NmqttSession) : Bool := s.step ≠ .removed

/-! ### Requests -/

/-- The address of an entry of the map, as `getSocket` returns it. Nothing assigns to an entry, and
each session adds one; so the handle and the socket tell it from all others. -/
structure EntryPointer where
  handle : BitVec 64
  socket : Option SessionId
  deriving DecidableEq, Repr

namespace EntryPointer

def getSocket (connections : NmqttClientConnections SessionId) (handle : BitVec 64) :
    Option EntryPointer :=
  (connections.getSocket handle).map fun entry => ⟨handle, entry.socket⟩

/-- The entry, if it has not been erased. -/
def load (connections : NmqttClientConnections SessionId) (p : EntryPointer) :
    Option (NmqttClientSocket SessionId) :=
  (connections.getSocket p.handle).filter fun entry => entry.socket = p.socket

theorem getSocket_isSome (connections : NmqttClientConnections SessionId) (handle : BitVec 64) :
    (getSocket connections handle).isSome = (connections.getSocket handle).isSome :=
  Option.isSome_map

theorem load_eq_some_iff {connections : NmqttClientConnections SessionId} {p : EntryPointer}
    {entry : NmqttClientSocket SessionId} : p.load connections = some entry ↔
      connections.getSocket p.handle = some entry ∧ entry.socket = p.socket := by
  rw [load, Option.filter_eq_some_iff, decide_eq_true_iff]

/-- What has just been looked up is there. -/
theorem load_getSocket {connections : NmqttClientConnections SessionId} {handle : BitVec 64}
    {p : EntryPointer} (found : getSocket connections handle = some p) :
    p.handle = handle ∧ ∃ entry, p.load connections = some entry := by
  obtain ⟨entry, known, rfl⟩ := Option.map_eq_some_iff.mp found
  exact ⟨rfl, entry, load_eq_some_iff.mpr ⟨known, rfl⟩⟩

end EntryPointer

/-- Where a request stands: waiting for a worker, in `process` with the pointer it looked up,
in a handler, in `sendMessage` with the pointer it looked up again, or done. -/
inductive RequestStep where
  | queued
  | process (clientSocket : Option EntryPointer)
  | handler (handler : ServerHandler)
  | sendMessage (handler : ServerHandler) (clientSocket : Option EntryPointer)
  | finished
  deriving DecidableEq, Repr

/-- `session` received the packet; the program does not keep it. -/
structure NmqttServerRequest where
  session : SessionId
  handle : BitVec 32
  msg : NmqttMessage
  step : RequestStep

/-- An answer written to a socket, and the session whose packet it answers. -/
structure Response where
  session : SessionId
  socket : SessionId
  command : MqttPacketType
  deriving DecidableEq, Repr

/-- The message that `NmqttServer::connectHandler` and `NmqttServer::pingreqHandler` send. -/
def ServerHandler.response : ServerHandler → MqttPacketType
  | .connectHandler => .connack
  | .pingreqHandler => .pingresp

namespace NmqttServerRequest

/-- A handle as an `int`. -/
def narrow (handle : BitVec 64) : BitVec 32 := handle.setWidth 32

/-- An `int` passed for a `uint64_t`. -/
def widen (handle : BitVec 32) : BitVec 64 := handle.signExtend 64

def setMessage (session : SessionId) (handle : BitVec 64) (msg : NmqttMessage) :
    NmqttServerRequest :=
  ⟨session, narrow handle, msg, .queued⟩

/-- What the request is looked up under, both times. -/
def key (r : NmqttServerRequest) : BitVec 64 := widen r.handle

/-- The conversions lose nothing below 2 ^ 31. -/
theorem key_setMessage (session : SessionId) {handle : BitVec 64} (msg : NmqttMessage)
    (small : handle.toNat < 2 ^ 31) : (setMessage session handle msg).key = handle := by
  have narrowed : (narrow handle).toNat = handle.toNat := by
    rw [narrow, BitVec.toNat_setWidth, Nat.mod_eq_of_lt (by omega)]
  have positive : (narrow handle).msb = false := by
    rw [BitVec.msb_eq_false_iff_two_mul_lt]
    omega
  apply BitVec.eq_of_toNat_eq
  rw [key, widen, setMessage, BitVec.signExtend_eq_setWidth_of_msb_false positive,
    BitVec.toNat_setWidth, narrowed, Nat.mod_eq_of_lt handle.isLt]

end NmqttServerRequest

/-! ### The server -/

/-- `failed` are the answers that `sendBytes` cut short or threw at. -/
structure NmqttServer where
  connections : NmqttClientConnections SessionId
  sessions : List NmqttSession
  requests : List NmqttServerRequest
  sent : List Response
  failed : List Response

/-- How a request goes on: as it is written, with a `sendBytes` that falls short or throws, or with
what lies where an entry or a socket was that is gone. -/
inductive Outcome where
  | through
  | sendFails
  | stray (found : NmqttClientSocket SessionId)
  deriving DecidableEq, Repr

namespace NmqttServer

/-- The session object is there, and its socket with it. -/
def Alive (d : NmqttServer) (i : SessionId) : Prop := ∃ s ∈ d.sessions[i]?, s.step = .listening

instance (d : NmqttServer) (i : SessionId) : Decidable (d.Alive i) :=
  inferInstanceAs (Decidable (∃ s ∈ d.sessions[i]?, _))

/-- The socket behind a pointer, if the entry and the socket are still there. -/
def socketBehind (d : NmqttServer) (p : EntryPointer) : Option SessionId := do
  let socket ← (← p.load d.connections).socket
  if d.Alive socket then some socket else none

theorem socketBehind_eq_some_iff {d : NmqttServer} {p : EntryPointer} {i : SessionId} :
    d.socketBehind p = some i ↔
      (p.load d.connections).isSome = true ∧ p.socket = some i ∧ d.Alive i := by
  unfold socketBehind
  constructor
  · intro found
    obtain ⟨entry, loaded, rest⟩ := Option.bind_eq_some_iff.mp found
    obtain ⟨socket, own, rest⟩ := Option.bind_eq_some_iff.mp rest
    simp only [Option.ite_none_right_eq_some, Option.some.injEq] at rest
    obtain ⟨alive, rfl⟩ := rest
    refine ⟨by rw [loaded, Option.isSome_some], ?_, alive⟩
    rw [← (EntryPointer.load_eq_some_iff.mp loaded).2, own]
  · intro ⟨there, own, alive⟩
    obtain ⟨entry, loaded⟩ := Option.isSome_iff_exists.mp there
    have socket := (EntryPointer.load_eq_some_iff.mp loaded).2.trans own
    simp only [loaded, socket, Option.bind_eq_bind, Option.bind_some, if_pos alive]

end NmqttServer

namespace NmqttServerRequest

/-- The next step of `process()`, and the answer that it sends. A null pointer, an empty function,
a null socket, and an entry or a socket that is gone have no next step here. -/
def goOn (d : NmqttServer) (r : NmqttServerRequest) : Option (NmqttServerRequest × List Response) :=
  match r.step with
  | .queued => some ({ r with step := .process (EntryPointer.getSocket d.connections r.key) }, [])
  | .process clientSocket =>
      match handlerOf r.msg.command with
      | some member => do
          let handler ← (← (← clientSocket).load d.connections).handler member
          some ({ r with step := .handler handler }, [])
      | none => some ({ r with step := .finished }, [])
  | .handler handler =>
      some ({ r with step := .sendMessage handler (EntryPointer.getSocket d.connections r.key) }, [])
  | .sendMessage handler clientSocket => do
      let socket ← d.socketBehind (← clientSocket)
      some ({ r with step := .finished }, [⟨r.session, socket, handler.response⟩])
  | .finished => none

/-- `sendBytes` returns a smaller number, or throws a `Poco::Exception`. -/
def giveUp (d : NmqttServer) (r : NmqttServerRequest) : Option (NmqttServerRequest × List Response) :=
  match r.step with
  | .sendMessage handler clientSocket => do
      let socket ← d.socketBehind (← clientSocket)
      some ({ r with step := .finished }, [⟨r.session, socket, handler.response⟩])
  | _ => none

/-- The worker uses an entry or a socket that is gone. -/
def goAstray (d : NmqttServer) (r : NmqttServerRequest) (found : NmqttClientSocket SessionId) :
    Option (NmqttServerRequest × List Response) :=
  match r.step with
  | .process (some p) =>
      if p.load d.connections = none then do
        let handler ← found.handler (← handlerOf r.msg.command)
        some ({ r with step := .handler handler }, [])
      else none
  | .sendMessage handler (some p) =>
      if d.socketBehind p = none then
        some ({ r with step := .finished },
          found.socket.toList.map fun socket => ⟨r.session, socket, handler.response⟩)
      else none
  | _ => none

/-- The request afterwards, the answers sent, and those that were not sent whole. -/
def advance (d : NmqttServer) (r : NmqttServerRequest) :
    Outcome → Option (NmqttServerRequest × List Response × List Response)
  | .through => (r.goOn d).map fun (r, sent) => (r, sent, [])
  | .sendFails => (r.giveUp d).map fun (r, failed) => (r, [], failed)
  | .stray found => (r.goAstray d found).map fun (r, sent) => (r, sent, [])

/-- All that a step of a request does. -/
inductive Advance (d : NmqttServer) (r : NmqttServerRequest) :
    Outcome → NmqttServerRequest → List Response → List Response → Prop
  | lookUp : r.step = .queued →
      Advance d r .through { r with step := .process (EntryPointer.getSocket d.connections r.key) } [] []
  | call {p : EntryPointer} {entry : NmqttClientSocket SessionId} {member handler : ServerHandler} :
      r.step = .process (some p) → handlerOf r.msg.command = some member →
      p.load d.connections = some entry → entry.handler member = some handler →
      Advance d r .through { r with step := .handler handler } [] []
  | ignore {clientSocket : Option EntryPointer} :
      r.step = .process clientSocket → handlerOf r.msg.command = none →
      Advance d r .through { r with step := .finished } [] []
  | lookUpAgain {handler : ServerHandler} : r.step = .handler handler →
      Advance d r .through
        { r with step := .sendMessage handler (EntryPointer.getSocket d.connections r.key) } [] []
  | send {handler : ServerHandler} {p : EntryPointer} {socket : SessionId} :
      r.step = .sendMessage handler (some p) → d.socketBehind p = some socket →
      Advance d r .through { r with step := .finished } [⟨r.session, socket, handler.response⟩] []
  | sendFails {handler : ServerHandler} {p : EntryPointer} {socket : SessionId} :
      r.step = .sendMessage handler (some p) → d.socketBehind p = some socket →
      Advance d r .sendFails { r with step := .finished } [] [⟨r.session, socket, handler.response⟩]
  | strayCall {p : EntryPointer} {found : NmqttClientSocket SessionId}
      {member handler : ServerHandler} : r.step = .process (some p) →
      handlerOf r.msg.command = some member → p.load d.connections = none →
      Advance d r (.stray found) { r with step := .handler handler } [] []
  | straySend {handler : ServerHandler} {p : EntryPointer} {found : NmqttClientSocket SessionId}
      {sent : List Response} : r.step = .sendMessage handler (some p) → d.socketBehind p = none →
      Advance d r (.stray found) { r with step := .finished } sent []

section Advance
variable {d : NmqttServer} {r r' : NmqttServerRequest} {sent failed : List Response}

theorem goOn_cases (moved : r.goOn d = some (r', sent)) : Advance d r .through r' sent [] := by
  unfold goOn at moved
  cases at_ : r.step with
  | queued =>
    simp only [at_] at moved
    cases moved
    exact .lookUp at_
  | process clientSocket =>
    simp only [at_] at moved
    cases command : handlerOf r.msg.command with
    | none =>
      simp only [command] at moved
      cases moved
      exact .ignore at_ command
    | some member =>
      simp only [command] at moved
      obtain ⟨p, rfl, rest⟩ := Option.bind_eq_some_iff.mp moved
      obtain ⟨entry, loaded, rest⟩ := Option.bind_eq_some_iff.mp rest
      obtain ⟨handler, behind, stepped⟩ := Option.bind_eq_some_iff.mp rest
      cases stepped
      exact .call at_ command loaded behind
  | handler handler =>
    simp only [at_] at moved
    cases moved
    exact .lookUpAgain at_
  | sendMessage handler clientSocket =>
    simp only [at_] at moved
    obtain ⟨p, rfl, rest⟩ := Option.bind_eq_some_iff.mp moved
    obtain ⟨socket, behind, stepped⟩ := Option.bind_eq_some_iff.mp rest
    cases stepped
    exact .send at_ behind
  | finished => simp only [at_, reduceCtorEq] at moved

theorem giveUp_cases (moved : r.giveUp d = some (r', failed)) : Advance d r .sendFails r' [] failed := by
  unfold giveUp at moved
  cases at_ : r.step with
  | sendMessage handler clientSocket =>
    simp only [at_] at moved
    obtain ⟨p, rfl, rest⟩ := Option.bind_eq_some_iff.mp moved
    obtain ⟨socket, behind, stepped⟩ := Option.bind_eq_some_iff.mp rest
    cases stepped
    exact .sendFails at_ behind
  | _ => simp only [at_, reduceCtorEq] at moved

theorem goAstray_cases {found : NmqttClientSocket SessionId}
    (moved : r.goAstray d found = some (r', sent)) : Advance d r (.stray found) r' sent [] := by
  unfold goAstray at moved
  split at moved
  next p at_ =>
    split at moved
    next gone =>
      obtain ⟨member, command, rest⟩ := Option.bind_eq_some_iff.mp moved
      obtain ⟨handler, -, stepped⟩ := Option.bind_eq_some_iff.mp rest
      cases stepped
      exact .strayCall at_ command gone
    next => cases moved
  next handler p at_ =>
    split at moved
    next gone =>
      cases moved
      exact .straySend at_ gone
    next => cases moved
  next => cases moved

theorem advance_cases {outcome : Outcome} (advanced : r.advance d outcome = some (r', sent, failed)) :
    Advance d r outcome r' sent failed := by
  cases outcome with
  | through =>
    obtain ⟨⟨u, w⟩, moved, same⟩ := Option.map_eq_some_iff.mp advanced
    cases same
    exact goOn_cases moved
  | sendFails =>
    obtain ⟨⟨u, w⟩, moved, same⟩ := Option.map_eq_some_iff.mp advanced
    cases same
    exact giveUp_cases moved
  | stray found =>
    obtain ⟨⟨u, w⟩, moved, same⟩ := Option.map_eq_some_iff.mp advanced
    cases same
    exact goAstray_cases moved

end Advance
end NmqttServerRequest

namespace NmqttServer

/-- After `init` and `start`. -/
def init : NmqttServer :=
  { connections := NmqttClientConnections.new.setCoreParameters
      ⟨none, some .connectHandler, some .pingreqHandler⟩
    sessions := []
    requests := []
    sent := []
    failed := [] }

/-- A session starts, receives a packet, returns from `run()` or leaves it by an exception;
a request takes its next step, in one of the three ways. -/
inductive Action where
  | accept
  | receive (session : SessionId) (msg : NmqttMessage)
  | leave (session : SessionId)
  | fail (session : SessionId)
  | proceed (request : Nat)
  | sendFails (request : Nat)
  | stray (request : Nat) (found : NmqttClientSocket SessionId)

def accept (d : NmqttServer) : NmqttServer :=
  let (handle, connections) := d.connections.addSocket ⟨some d.sessions.length, none, none⟩
  { d with connections := connections, sessions := d.sessions ++ [⟨handle, .listening⟩] }

def receive (d : NmqttServer) (i : SessionId) (msg : NmqttMessage) : Option NmqttServer := do
  let s ← d.sessions[i]?
  if s.step = .listening then
    some { d with requests := d.requests ++ [NmqttServerRequest.setMessage i s.handle msg] }
  else none

def leave (d : NmqttServer) (i : SessionId) : Option NmqttServer := do
  let s ← d.sessions[i]?
  if s.step = .listening then
    some { d with
      connections := d.connections.removeSocket s.handle
      sessions := d.sessions.set i { s with step := .removed } }
  else none

def fail (d : NmqttServer) (i : SessionId) : Option NmqttServer := do
  let s ← d.sessions[i]?
  if s.step = .listening then some { d with sessions := d.sessions.set i { s with step := .threw } }
  else none

def proceed (d : NmqttServer) (i : Nat) (outcome : Outcome) : Option NmqttServer := do
  let r ← d.requests[i]?
  let (r, sent, failed) ← r.advance d outcome
  some { d with
    requests := d.requests.set i r
    sent := d.sent ++ sent
    failed := d.failed ++ failed }

def step (d : NmqttServer) : Action → Option NmqttServer
  | .accept => some d.accept
  | .receive session msg => d.receive session msg
  | .leave session => d.leave session
  | .fail session => d.fail session
  | .proceed request => d.proceed request .through
  | .sendFails request => d.proceed request .sendFails
  | .stray request found => d.proceed request (.stray found)

/-- The request whose step it is, and how it goes on. -/
def Action.move : Action → Option (Nat × Outcome)
  | .proceed request => some (request, .through)
  | .sendFails request => some (request, .sendFails)
  | .stray request found => some (request, .stray found)
  | _ => none

/-! ### What a step does -/

/-- Session `i` is registered under this handle. -/
def Holds (d : NmqttServer) (i : SessionId) (handle : BitVec 64) : Prop :=
  ∃ s ∈ d.sessions[i]?, s.registered = true ∧ s.handle = handle

instance (d : NmqttServer) (i : SessionId) (handle : BitVec 64) : Decidable (d.Holds i handle) :=
  inferInstanceAs (Decidable (∃ s ∈ d.sessions[i]?, _))

def Held (d : NmqttServer) (handle : BitVec 64) : Prop :=
  ∃ i < d.sessions.length, d.Holds i handle

instance (d : NmqttServer) (handle : BitVec 64) : Decidable (d.Held handle) :=
  inferInstanceAs (Decidable (∃ i < d.sessions.length, _))

section Holds
variable {d : NmqttServer} {i : SessionId} {handle : BitVec 64} (holds : d.Holds i handle)
include holds

theorem Holds.bound : i < d.sessions.length := by
  obtain ⟨s, known, -⟩ := holds
  exact (List.getElem?_eq_some_iff.mp known).1

theorem Holds.held : d.Held handle := ⟨i, holds.bound, holds⟩

end Holds

/-- All that a step does to the registered handles, the sockets, the map, the requests and the
answers. -/
inductive Change (d d' : NmqttServer) : Action → Prop
  | accept : (∀ j handle, d'.Holds j handle ↔
        d.Holds j handle ∨ j = d.sessions.length ∧ handle = d.connections.nextHandle) →
      (∀ j, d'.Alive j ↔ d.Alive j ∨ j = d.sessions.length) →
      d'.connections = (d.connections.addSocket ⟨some d.sessions.length, none, none⟩).2 →
      d'.requests = d.requests → d'.sent = d.sent → d'.failed = d.failed → Change d d' .accept
  | receive {i : SessionId} {msg : NmqttMessage} {handle : BitVec 64} : d.Holds i handle →
      d.Alive i → (∀ j handle, d'.Holds j handle ↔ d.Holds j handle) →
      (∀ j, d'.Alive j ↔ d.Alive j) → d'.connections = d.connections →
      d'.requests = d.requests ++ [NmqttServerRequest.setMessage i handle msg] →
      d'.sent = d.sent → d'.failed = d.failed → Change d d' (.receive i msg)
  | leave {i : SessionId} {handle : BitVec 64} : d.Holds i handle →
      (∀ j handle, d'.Holds j handle ↔ j ≠ i ∧ d.Holds j handle) →
      (∀ j, d'.Alive j ↔ j ≠ i ∧ d.Alive j) →
      d'.connections = d.connections.removeSocket handle →
      d'.requests = d.requests → d'.sent = d.sent → d'.failed = d.failed → Change d d' (.leave i)
  | fail {i : SessionId} : (∀ j handle, d'.Holds j handle ↔ d.Holds j handle) →
      (∀ j, d'.Alive j ↔ j ≠ i ∧ d.Alive j) → d'.connections = d.connections →
      d'.requests = d.requests → d'.sent = d.sent → d'.failed = d.failed → Change d d' (.fail i)
  | proceed {a : Action} {i : Nat} {outcome : Outcome} {r r' : NmqttServerRequest}
      {sent failed : List Response} : a.move = some (i, outcome) → d.requests[i]? = some r →
      r.advance d outcome = some (r', sent, failed) →
      (∀ j handle, d'.Holds j handle ↔ d.Holds j handle) → (∀ j, d'.Alive j ↔ d.Alive j) →
      d'.connections = d.connections → d'.requests = d.requests.set i r' →
      d'.sent = d.sent ++ sent → d'.failed = d.failed ++ failed → Change d d' a

/-- What is asked of the session of a number, with one session more. -/
theorem exists_session_append (sessions : List NmqttSession) (new : NmqttSession)
    (P : NmqttSession → Prop) (j : SessionId) : (∃ s ∈ (sessions ++ [new])[j]?, P s) ↔
      (∃ s ∈ sessions[j]?, P s) ∨ j = sessions.length ∧ P new := by
  by_cases old : j < sessions.length
  · rw [List.getElem?_append_left old]
    simp only [old.ne, false_and, or_false]
  · rw [List.getElem?_append_right (Nat.le_of_not_lt old),
      List.getElem?_eq_none (Nat.le_of_not_lt old)]
    by_cases last : j = sessions.length
    · simp only [last, Nat.sub_self, List.getElem?_cons_zero, Option.mem_some_iff, exists_eq_left',
        Option.not_mem_none, false_and, exists_false, false_or, true_and]
    · have beyond : 1 ≤ j - sessions.length := Nat.sub_pos_of_lt
        (Nat.lt_of_le_of_ne (Nat.le_of_not_lt old) (Ne.symm last))
      rw [List.getElem?_eq_none beyond]
      simp only [Option.not_mem_none, false_and, exists_false, last, or_self]

/-- And with one of them replaced. -/
theorem exists_session_set {sessions : List NmqttSession} {i : SessionId} {s s' : NmqttSession}
    (known : sessions[i]? = some s) (P : NmqttSession → Prop) (j : SessionId) :
    (∃ t ∈ (sessions.set i s')[j]?, P t) ↔ if j = i then P s' else ∃ t ∈ sessions[j]?, P t := by
  have bound : i < sessions.length := (List.getElem?_eq_some_iff.mp known).1
  by_cases same : j = i
  · subst same
    rw [if_pos rfl, List.getElem?_set_self bound]
    simp only [Option.mem_some_iff, exists_eq_left']
  · rw [if_neg same, List.getElem?_set_ne (Ne.symm same)]

theorem holds_iff {d : NmqttServer} {i : SessionId} {s : NmqttSession} {handle : BitVec 64}
    (known : d.sessions[i]? = some s) :
    d.Holds i handle ↔ s.registered = true ∧ s.handle = handle := by
  unfold Holds
  rw [known]
  simp only [Option.mem_some_iff, exists_eq_left']

theorem alive_iff {d : NmqttServer} {i : SessionId} {s : NmqttSession}
    (known : d.sessions[i]? = some s) : d.Alive i ↔ s.step = .listening := by
  unfold Alive
  rw [known]
  simp only [Option.mem_some_iff, exists_eq_left']

/-- The session that ends is the one that is alive no more. -/
theorem alive_setSession {d d' : NmqttServer} {i : SessionId} {s s' : NmqttSession}
    (known : d.sessions[i]? = some s) (set : d'.sessions = d.sessions.set i s')
    (ended : s'.step ≠ .listening) (j : SessionId) : d'.Alive j ↔ j ≠ i ∧ d.Alive j := by
  unfold Alive
  rw [set, exists_session_set known]
  by_cases same : j = i
  · rw [if_pos same]
    exact iff_of_false ended fun both => both.1 same
  · rw [if_neg same]
    exact (and_iff_right same).symm

theorem accept_change (d : NmqttServer) : Change d d.accept .accept := by
  refine .accept (fun j handle => ?_) (fun j => ?_) rfl rfl rfl rfl
  · refine (exists_session_append d.sessions _ _ j).trans (or_congr_right (and_congr_right' ?_))
    exact ⟨fun both => both.2.symm, fun same => ⟨rfl, same.symm⟩⟩
  · exact (exists_session_append d.sessions _ _ j).trans (or_congr_right (and_iff_left rfl))

theorem receive_change {d d' : NmqttServer} {i : SessionId} {msg : NmqttMessage}
    (stepped : d.receive i msg = some d') : Change d d' (.receive i msg) := by
  obtain ⟨s, known, rest⟩ := Option.bind_eq_some_iff.mp stepped
  split at rest
  next listening =>
    cases rest
    have receiver : d.Holds i s.handle := by
      rw [holds_iff known, NmqttSession.registered, listening]
      exact ⟨rfl, rfl⟩
    exact .receive receiver ((alive_iff known).mpr listening) (fun _ _ => Iff.rfl) (fun _ => Iff.rfl)
      rfl rfl rfl rfl
  next => cases rest

theorem leave_change {d d' : NmqttServer} {i : SessionId} (stepped : d.leave i = some d') :
    Change d d' (.leave i) := by
  obtain ⟨s, known, rest⟩ := Option.bind_eq_some_iff.mp stepped
  split at rest
  next listening =>
    cases rest
    have leaver : d.Holds i s.handle := by
      rw [holds_iff known, NmqttSession.registered, listening]
      exact ⟨rfl, rfl⟩
    refine .leave leaver (fun j handle => ?_) (alive_setSession known rfl ?_) rfl rfl rfl rfl
    · refine (exists_session_set known _ j).trans ?_
      by_cases same : j = i
      · simp [same, NmqttSession.registered]
      · rw [if_neg same]
        exact (and_iff_right same).symm
    · intro same
      cases same
  next => cases rest

theorem fail_change {d d' : NmqttServer} {i : SessionId} (stepped : d.fail i = some d') :
    Change d d' (.fail i) := by
  obtain ⟨s, known, rest⟩ := Option.bind_eq_some_iff.mp stepped
  split at rest
  next listening =>
    cases rest
    refine .fail (fun j handle => ?_) (alive_setSession known rfl ?_) rfl rfl rfl rfl
    · refine (exists_session_set known _ j).trans ?_
      by_cases same : j = i
      · rw [if_pos same, same, holds_iff known, NmqttSession.registered, NmqttSession.registered,
          listening]
        rfl
      · rw [if_neg same]
        rfl
    · intro same
      cases same
  next => cases rest

theorem proceed_change {d d' : NmqttServer} {a : Action} {i : Nat} {outcome : Outcome}
    (moves : a.move = some (i, outcome)) (stepped : d.proceed i outcome = some d') :
    Change d d' a := by
  obtain ⟨r, known, rest⟩ := Option.bind_eq_some_iff.mp stepped
  obtain ⟨⟨r', sent, failed⟩, advanced, rest⟩ := Option.bind_eq_some_iff.mp rest
  cases rest
  exact .proceed moves known advanced (fun _ _ => Iff.rfl) (fun _ => Iff.rfl) rfl rfl rfl rfl

theorem step_change {d d' : NmqttServer} {a : Action} (stepped : d.step a = some d') :
    Change d d' a := by
  cases a with
  | accept =>
    cases stepped
    exact d.accept_change
  | receive session msg => exact receive_change stepped
  | leave session => exact leave_change stepped
  | fail session => exact fail_change stepped
  | proceed request | sendFails request | stray request found => exact proceed_change rfl stepped

end NmqttServer
end NymphMqtt
