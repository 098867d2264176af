import NymphMqtt.ClientConnect
import NymphMqtt.Library.OrderedMap

/-! The calls that threads make on the `NmqttClient` objects of one process, one after the
other. What Poco and the network answer inside a call is given with the call. -/

namespace NymphMqtt.Runtime
open NymphMqtt.Library OrderedMap

/-! ### The records -/

/-- Clients, sockets, semaphores and listeners are numbered as they are made. A number stands
for the pointer. -/
abbrev ClientId := Nat
abbrev SocketId := Nat
abbrev SemaphoreId := Nat
abbrev ListenerId := Nat

/-- A function that an application may set as its message handler. -/
abbrev Handler := Nat

/-- `connackHandler` and `pingrespHandler` are bound to the client that they name. -/
structure NymphSocket where
  socket : SocketId
  semaphore : SemaphoreId
  handler : Handler
  connackHandler : ClientId
  pingrespHandler : ClientId
  data : Nat
  handle : BitVec 32
  deriving DecidableEq, Repr

/-- `nymphSocket` points to the entry of `NmqttConnections` under that handle. -/
structure NmqttClientListener where
  nymphSocket : BitVec 32
  socket : SocketId
  listen : Bool
  deriving DecidableEq, Repr

/-- The map of `NmqttConnections`, the map of `NmqttClientListenerManager`, and what was made:
the listeners, the client behind each socket, and for each semaphore whether it was set. -/
structure Statics where
  connections : AList fun _ : BitVec 32 => NymphSocket
  listeners : AList fun _ : BitVec 32 => ListenerId
  started : List NmqttClientListener
  opened : List ClientId
  semaphores : List Bool

/-- `pingTimer` tells whether the timer has a thread that was not joined. -/
structure NmqttClient where
  sockets : AList fun _ : BitVec 32 => SocketId
  socketSemaphores : AList fun _ : BitVec 32 => SemaphoreId
  socketsMutex : Mutex
  lastHandle : BitVec 32
  messageHandler : Handler
  connectMtx : Mutex
  pingTimer : Bool

/-! ### What happens inside a call -/

inductive SocketOpening where
  | opened
  | caught (exception : ConnectException) (displayText : String)
  | uncaught
  deriving DecidableEq, Repr

inductive ListenerStart where
  | ready
  | timedOut
  | threw
  deriving DecidableEq, Repr

/-- Whether `sendBytes` takes all the bytes. -/
inductive Sending where
  | complete
  | short
  | threw
  deriving DecidableEq, Repr

inductive Closing where
  | closed
  | shutdownThrew
  | closeThrew
  deriving DecidableEq, Repr

structure ConnectOutcome where
  opening : SocketOpening
  listener : ListenerStart
  sending : Sending
  signaled : Bool
  deriving DecidableEq, Repr

/-- `failing` are the sockets whose `shutdown()` throws. -/
inductive Call where
  | setMessageHandler (handler : Handler)
  | connect (data : Nat) (outcome : ConnectOutcome)
  | disconnect (handle : BitVec 32) (sending : Sending) (closing : Closing)
  | publish (handle : BitVec 32) (sending : Sending)
  | subscribe (handle : BitVec 32) (sending : Sending)
  | unsubscribe (handle : BitVec 32) (sending : Sending)
  | shutdown (failing : List SocketId)
  deriving DecidableEq, Repr

/-! ### How a call ends -/

/-- The exceptions that no call catches. -/
inductive Failure where
  | opening
  | listenerThread
  | socket
  | timerJoin
  deriving DecidableEq, Repr

/-- A thread object assigned over a joinable one, and two null pointers. -/
inductive Fault where
  | timerStart
  | nullListener
  | nullSocket
  deriving DecidableEq, Repr

inductive Exit where
  | returned (value : Bool)
  | threw (failure : Failure)
  | terminated (fault : Fault)
  deriving DecidableEq, Repr

def Exit.terminates : Exit → Bool
  | .terminated _ => true
  | _ => false

/-- With what the call has stored in the caller's `handle` and `result`. -/
structure Answer where
  exit : Exit
  handle : Option (BitVec 32)
  result : Option String
  deriving DecidableEq, Repr

/-! ### `NmqttConnections` and `NmqttClientListenerManager` -/

namespace Statics

def new : Statics := ⟨∅, ∅, [], [], []⟩

def addSocket (s : Statics) (ns : NymphSocket) : Statics :=
  { s with connections := insertNew s.connections ns.handle ns }

def getSocket (s : Statics) (handle : BitVec 32) : Option NymphSocket :=
  s.connections.lookup handle

/-- The listener is constructed before its thread is started, and it is entered only when
the thread has signaled. -/
def addConnection (s : Statics) (handle : BitVec 32) (start : ListenerStart) : Statics × Exit :=
  match s.getSocket handle with
  | none => (s, .terminated .nullSocket)
  | some ns =>
      let esl := s.started.length
      let s := { s with started := s.started ++ [⟨handle, ns.socket, true⟩] }
      match start with
      | .threw => (s, .threw .listenerThread)
      | .timedOut => (s, .returned false)
      | .ready =>
          ({ s with listeners := insertNew s.listeners handle esl }, .returned true)

def stopListener (s : Statics) (listener : ListenerId) : Statics :=
  { s with started := s.started.modify listener fun l => { l with listen := false } }

def removeConnection (s : Statics) (handle : BitVec 32) : Statics :=
  match s.listeners.lookup handle with
  | none => s
  | some listener =>
      let s := s.stopListener listener
      { s with listeners := s.listeners.erase handle }

/-- `listeners[i]->stop()`. Where there is no entry the index operator enters a null pointer,
and the call through it ends the process. -/
def stopAt (s : Statics) (i : Nat) : Option Statics :=
  (s.listeners.lookup (BitVec.ofNat 32 i)).map s.stopListener

def stop (s : Statics) : Option Statics := (List.range s.listeners.keys.length).foldlM stopAt s

def setSemaphore (s : Statics) (semaphore : SemaphoreId) : Statics :=
  { s with semaphores := s.semaphores.set semaphore true }

end Statics

/-! ### `NmqttClient` -/

namespace NmqttClient

def new : NmqttClient := ⟨∅, ∅, ⟨0, 0⟩, 0, 0, ⟨0, 0⟩, false⟩

@[simps]
def setSocketsMutex (c : NmqttClient) (m : Mutex) : NmqttClient := { c with socketsMutex := m }

@[simps]
def setConnectMtx (c : NmqttClient) (m : Mutex) : NmqttClient := { c with connectMtx := m }

@[simps]
def setTimer (c : NmqttClient) (joinable : Bool) : NmqttClient := { c with pingTimer := joinable }

def lockSockets (c : NmqttClient) (thread : Nat) : Option NmqttClient :=
  (c.socketsMutex.lock thread).map c.setSocketsMutex

def unlockSockets (c : NmqttClient) : NmqttClient := c.setSocketsMutex c.socketsMutex.unlock

def lockConnect (c : NmqttClient) (thread : Nat) : Option NmqttClient :=
  (c.connectMtx.lock thread).map c.setConnectMtx

def unlockConnect (c : NmqttClient) : NmqttClient := c.setConnectMtx c.connectMtx.unlock

/-- `ChronoTrigger::start`. -/
def startTimer (c : NmqttClient) : Option NmqttClient :=
  if c.pingTimer then none else some (c.setTimer true)

/-- `ChronoTrigger::stop`. The join throws where there is no thread. -/
def stopTimer (c : NmqttClient) : Option NmqttClient :=
  if c.pingTimer then some (c.setTimer false) else none

/-- Both failures of the transfer return with the mutex locked. -/
def sendMessage (c : NmqttClient) (thread : Nat) (handle : BitVec 32) (sending : Sending) :
    Option (NmqttClient × Bool) := do
  let c ← c.lockSockets thread
  match c.sockets.lookup handle with
  | none => some (c.unlockSockets, false)
  | some _ =>
      match sending with
      | .short | .threw => some (c, false)
      | .complete => some (c.unlockSockets, true)

/-- The client's side of the entries that `connect` makes. -/
@[simps]
def insertSocket (c : NmqttClient) (socket : SocketId) (semaphore : SemaphoreId) : NmqttClient :=
  { c with
    sockets := insertNew c.sockets c.lastHandle socket
    socketSemaphores := insertNew c.socketSemaphores c.lastHandle semaphore }

/-- `handle = lastHandle++`. -/
@[simps]
def takeHandle (c : NmqttClient) : NmqttClient := { c with lastHandle := c.lastHandle + 1 }

/-- Both maps of the client without the handle. -/
@[simps]
def eraseSocket (c : NmqttClient) (handle : BitVec 32) : NmqttClient :=
  { c with
    sockets := c.sockets.erase handle
    socketSemaphores := c.socketSemaphores.erase handle }

/-- `ns`, with a new socket and a new semaphore. -/
def nymphSocket (c : NmqttClient) (s : Statics) (client : ClientId) (data : Nat) : NymphSocket :=
  ⟨s.opened.length, s.semaphores.length, c.messageHandler, client, client, data, c.lastHandle⟩

/-- The process's side: the socket, its semaphore, and the entry of `NmqttConnections`. -/
def register (c : NmqttClient) (s : Statics) (client : ClientId) (data : Nat) : Statics :=
  { s with
    opened := s.opened ++ [client]
    semaphores := s.semaphores ++ [false] }.addSocket (c.nymphSocket s client data)

/-- `tryWait` gives the mutex up and takes it again. Only a wait that ran out unlocks it. -/
def awaitConnack (c : NmqttClient) (thread : Nat) (handle : BitVec 32) (signaled : Bool) :
    Option (NmqttClient × Answer) := do
  let c ← c.lockConnect thread
  let c ← c.unlockConnect.lockConnect thread
  if signaled then
    match c.startTimer with
    | none => some (c, ⟨.terminated .timerStart, some handle, none⟩)
    | some c => some (c, ⟨.returned true, some handle, none⟩)
  else
    some (c.unlockConnect,
      ⟨.returned false, some handle, some "Timeout while trying to connect to broker."⟩)

/-- From the CONNECT message on. -/
def sendConnect (c : NmqttClient) (thread : Nat) (handle : BitVec 32) (o : ConnectOutcome) :
    Option (NmqttClient × Answer) := do
  match ← c.sendMessage thread handle o.sending with
  | (c, false) => some (c, ⟨.returned false, some handle, none⟩)
  | (c, true) => c.awaitConnack thread handle o.signaled

/-- A listener that does not start leaves the mutex locked and `lastHandle` as it is. -/
def connect (c : NmqttClient) (s : Statics) (client : ClientId) (thread data : Nat)
    (o : ConnectOutcome) : Option (NmqttClient × Statics × Answer) :=
  match o.opening with
  | .caught exception displayText =>
      some (c, s, ⟨.returned false, none, some (exception.result displayText)⟩)
  | .uncaught => some (c, s, ⟨.threw .opening, none, none⟩)
  | .opened => do
      let c ← c.lockSockets thread
      let handle := c.lastHandle
      let entered := c.insertSocket s.opened.length s.semaphores.length
      match (c.register s client data).addConnection handle o.listener with
      | (s, .returned true) =>
          let (c, answer) ← entered.takeHandle.unlockSockets.sendConnect thread handle o
          some (c, s, answer)
      | (s, exit) => some (entered, s, ⟨exit, none, none⟩)

/-- From the lookups on. An exception of the socket leaves with the mutex locked and both
entries in place. -/
def closeSocket (c : NmqttClient) (s : Statics) (thread : Nat) (handle : BitVec 32)
    (closing : Closing) : Option (NmqttClient × Statics × Answer) := do
  let c ← c.lockSockets thread
  match c.sockets.lookup handle, c.socketSemaphores.lookup handle with
  | none, _ =>
      some (c.unlockSockets, s, ⟨.returned false, none,
        some ("Provided handle " ++ toString handle.toInt ++ " was not found.")⟩)
  | some _, none =>
      some (c.unlockSockets, s,
        ⟨.returned false, none, some "No semaphore found for socket handle."⟩)
  | some _, some semaphore =>
      match closing with
      | .shutdownThrew | .closeThrew => some (c, s, ⟨.threw .socket, none, none⟩)
      | .closed =>
          let s := (s.setSemaphore semaphore).removeConnection handle
          some ((c.eraseSocket handle).unlockSockets, s, ⟨.returned true, none, none⟩)

/-- What `sendMessage` returns is ignored. -/
def disconnect (c : NmqttClient) (s : Statics) (thread : Nat) (handle : BitVec 32)
    (sending : Sending) (closing : Closing) : Option (NmqttClient × Statics × Answer) :=
  match c.stopTimer with
  | none => some (c, s, ⟨.threw .timerJoin, none, none⟩)
  | some c => do
      let (c, _) ← c.sendMessage thread handle sending
      c.closeSocket s thread handle closing

/-- The messages of these three differ, and what they return does not. -/
def publish (c : NmqttClient) (s : Statics) (thread : Nat) (handle : BitVec 32)
    (sending : Sending) : Option (NmqttClient × Statics × Answer) := do
  let (c, sent) ← c.sendMessage thread handle sending
  some (c, s, ⟨.returned sent, none, none⟩)

def subscribe (c : NmqttClient) (s : Statics) (thread : Nat) (handle : BitVec 32)
    (sending : Sending) : Option (NmqttClient × Statics × Answer) :=
  c.publish s thread handle sending

def unsubscribe (c : NmqttClient) (s : Statics) (thread : Nat) (handle : BitVec 32)
    (sending : Sending) : Option (NmqttClient × Statics × Answer) :=
  c.publish s thread handle sending

/-- The loop of `shutdown`, and whether no socket of it has thrown. -/
def closeAll (failing : List SocketId) : Statics → List (BitVec 32 × SocketId) → Statics × Bool
  | s, [] => (s, true)
  | s, (handle, socket) :: rest =>
      let s := s.removeConnection handle
      if socket ∈ failing then (s, false) else closeAll failing s rest

@[simps]
def clearSockets (c : NmqttClient) : NmqttClient := { c with sockets := ∅ }

/-- Neither the semaphores nor the timer are looked at. -/
def shutdown (c : NmqttClient) (s : Statics) (thread : Nat) (failing : List SocketId) :
    Option (NmqttClient × Statics × Answer) := do
  let c ← c.lockSockets thread
  match closeAll failing s (inOrder (fun a b => a.toInt ≤ b.toInt) c.sockets) with
  | (s, false) => some (c, s, ⟨.threw .socket, none, none⟩)
  | (s, true) =>
      let c := c.clearSockets.unlockSockets
      match s.stop with
      | none => some (c, s, ⟨.terminated .nullListener, none, none⟩)
      | some s => some (c, s, ⟨.returned true, none, none⟩)

def invoke (c : NmqttClient) (s : Statics) (client : ClientId) (thread : Nat) :
    Call → Option (NmqttClient × Statics × Answer)
  | .setMessageHandler handler =>
      some ({ c with messageHandler := handler }, s, ⟨.returned true, none, none⟩)
  | .connect data outcome => c.connect s client thread data outcome
  | .disconnect handle sending closing => c.disconnect s thread handle sending closing
  | .publish handle sending => c.publish s thread handle sending
  | .subscribe handle sending => c.subscribe s thread handle sending
  | .unsubscribe handle sending => c.unsubscribe s thread handle sending
  | .shutdown failing => c.shutdown s thread failing

end NmqttClient

/-! ### The process -/

/-- `answer` is how the last call ended. -/
structure Process where
  clients : List NmqttClient
  statics : Statics
  answer : Answer

structure Invocation where
  client : ClientId
  thread : Nat
  call : Call
  deriving DecidableEq, Repr

namespace Process

def new (count : Nat) : Process :=
  ⟨List.replicate count .new, .new, ⟨.returned true, none, none⟩⟩

/-- A call that waits for a mutex that another thread will not release never ends. -/
def step (p : Process) (l : Invocation) : Option Process :=
  if p.answer.exit.terminates then none
  else do
    let c ← p.clients[l.client]?
    let (c, s, answer) ← c.invoke p.statics l.client l.thread l.call
    some ⟨p.clients.set l.client c, s, answer⟩

end Process
end NymphMqtt.Runtime
