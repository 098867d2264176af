import NymphMqtt.ReceiveAcceptance
import Mathlib.Data.List.AList

/-! `NmqttClientConnections`: the server's map from handles to client sockets. A handle
that was given back is reused before the counter is. -/

namespace NymphMqtt

/-- The members that are read: the socket, and the functions behind the two handlers. A
socket pointer that was never set and an empty `std::function` are `none`. -/
structure NmqttClientSocket (Socket : Type) where
  socket : Option Socket
  connectHandler : Option ServerHandler
  pingreqHandler : Option ServerHandler
  deriving DecidableEq, Repr

/-- What is behind the member that a handler is called through. -/
def NmqttClientSocket.handler {Socket : Type} (s : NmqttClientSocket Socket) :
    ServerHandler → Option ServerHandler
  | .connectHandler => s.connectHandler
  | .pingreqHandler => s.pingreqHandler

structure NmqttClientConnections (Socket : Type) where
  sockets : AList fun _ : BitVec 64 => NmqttClientSocket Socket
  lastHandle : BitVec 64
  freeHandles : List (BitVec 64)
  coreCS : NmqttClientSocket Socket

namespace NmqttClientConnections
variable {Socket : Type}

/-- The static initialisers. -/
def new : NmqttClientConnections Socket := ⟨∅, 0, [], ⟨none, none, none⟩⟩

def setCoreParameters (c : NmqttClientConnections Socket) (ns : NmqttClientSocket Socket) :
    NmqttClientConnections Socket :=
  { c with coreCS := ns }

/-- The handle that `addSocket` is about to give out. -/
def nextHandle (c : NmqttClientConnections Socket) : BitVec 64 :=
  match c.freeHandles with
  | handle :: _ => handle
  | [] => c.lastHandle

/-- The pop, or the increment, that takes it. -/
def takeHandle (c : NmqttClientConnections Socket) : NmqttClientConnections Socket :=
  match c.freeHandles with
  | _ :: freeHandles => { c with freeHandles := freeHandles }
  | [] => { c with lastHandle := c.lastHandle + 1 }

/-- `map::insert` keeps an entry that is there already. -/
def addSocket (c : NmqttClientConnections Socket) (ns : NmqttClientSocket Socket) :
    BitVec 64 × NmqttClientConnections Socket :=
  let handle := c.nextHandle
  let ts := { c.coreCS with socket := ns.socket }
  let c := c.takeHandle
  (handle, if handle ∈ c.sockets then c else { c with sockets := c.sockets.insert handle ts })

def getSocket (c : NmqttClientConnections Socket) (handle : BitVec 64) :
    Option (NmqttClientSocket Socket) :=
  c.sockets.lookup handle

def removeSocket (c : NmqttClientConnections Socket) (handle : BitVec 64) :
    NmqttClientConnections Socket :=
  if handle ∈ c.sockets then
    { c with sockets := c.sockets.erase handle, freeHandles := c.freeHandles ++ [handle] }
  else c

variable (c : NmqttClientConnections Socket) (ns : NmqttClientSocket Socket) (handle : BitVec 64)

theorem takeHandle_sockets : c.takeHandle.sockets = c.sockets := by
  unfold takeHandle
  split <;> rfl

theorem takeHandle_freeHandles : c.takeHandle.freeHandles = c.freeHandles.tail := by
  unfold takeHandle
  split
  next free => rw [free, List.tail_cons]
  next free => rw [free, List.tail_nil]

/-- Behind the handle it takes, `addSocket` changes the table only. -/
theorem addSocket_store :
    (c.addSocket ns).2 = { c.takeHandle with sockets := (c.addSocket ns).2.sockets } := by
  unfold addSocket
  dsimp only
  split
  · rfl
  · rfl

theorem addSocket_freeHandles : (c.addSocket ns).2.freeHandles = c.freeHandles.tail :=
  calc (c.addSocket ns).2.freeHandles
    _ = c.takeHandle.freeHandles := by rw [c.addSocket_store ns]
    _ = c.freeHandles.tail := c.takeHandle_freeHandles

theorem addSocket_sockets : (c.addSocket ns).2.sockets =
    if c.nextHandle ∈ c.sockets then c.sockets
    else c.sockets.insert c.nextHandle { c.coreCS with socket := ns.socket } := by
  unfold addSocket
  simp only [takeHandle_sockets]
  split
  · exact c.takeHandle_sockets
  · rfl

/-- A new entry takes its handlers from the core parameters, and an old one stays. -/
theorem getSocket_addSocket_self : (c.addSocket ns).2.getSocket c.nextHandle =
    some ((c.getSocket c.nextHandle).getD { c.coreCS with socket := ns.socket }) := by
  unfold getSocket
  rw [addSocket_sockets]
  by_cases used : c.nextHandle ∈ c.sockets
  · obtain ⟨entry, known⟩ := Option.isSome_iff_exists.mp (AList.lookup_isSome.mpr used)
    rw [if_pos used, known, Option.getD_some]
  · rw [if_neg used, AList.lookup_insert, AList.lookup_eq_none.mpr used, Option.getD_none]

theorem getSocket_addSocket_ne (other : handle ≠ c.nextHandle) :
    (c.addSocket ns).2.getSocket handle = c.getSocket handle := by
  unfold getSocket
  rw [addSocket_sockets]
  by_cases used : c.nextHandle ∈ c.sockets
  · rw [if_pos used]
  · rw [if_neg used, AList.lookup_insert_ne other]

theorem getSocket_removeSocket_self : (c.removeSocket handle).getSocket handle = none := by
  unfold removeSocket getSocket
  split
  next => exact AList.lookup_erase handle c.sockets
  next absent => exact AList.lookup_eq_none.mpr absent

theorem getSocket_removeSocket_ne {other : BitVec 64} (ne : other ≠ handle) :
    (c.removeSocket handle).getSocket other = c.getSocket other := by
  unfold removeSocket getSocket
  split
  · exact AList.lookup_erase_ne ne
  · rfl

/-- The handle goes behind those that wait for reuse. -/
theorem removeSocket_freeHandles (known : (c.getSocket handle).isSome) :
    (c.removeSocket handle).freeHandles = c.freeHandles ++ [handle] := by
  unfold removeSocket
  rw [if_pos (AList.lookup_isSome.mp known)]

end NmqttClientConnections
end NymphMqtt
