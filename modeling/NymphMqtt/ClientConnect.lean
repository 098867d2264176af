import NymphMqtt.Message
import NymphMqtt.Library.Transition
import Mathlib.Data.List.AList

/-! `NmqttClient::connect` and `connackHandler` on one client. The threads that connect and
the workers that handle CONNACK packets take their steps in any order. -/

namespace NymphMqtt
open NymphMqtt.Library.Transition

/-! ### Poco -/

/-- A recursive mutex. At depth 0 it is free, whoever owned it. -/
structure Mutex where
  owner : Nat
  depth : Nat
  deriving DecidableEq, Repr

def Mutex.lock (m : Mutex) (thread : Nat) : Option Mutex :=
  if m.depth = 0 ∨ m.owner = thread then some ⟨thread, m.depth + 1⟩ else none

def Mutex.unlock (m : Mutex) : Mutex := { m with depth := m.depth - 1 }

/-- The exceptions that `connect` catches. -/
inductive ConnectException where
  | connectionRefused
  | invalidArgument
  | invalidSocket
  | net
  deriving DecidableEq, Repr

def ConnectException.result (exception : ConnectException) (displayText : String) : String :=
  match exception with
  | .connectionRefused => "Unable to connect: " ++ displayText
  | .invalidArgument => "Invalid argument: " ++ displayText
  | .invalidSocket => "Invalid socket exception: " ++ displayText
  | .net => "Net exception: " ++ displayText

/-! ### Calls of `connect` -/

/-- Calls are numbered as they start. The number also stands for the connection that the
call opens. -/
abbrev CallId := Nat

structure NmqttBrokerConnection where
  handle : BitVec 32
  sessionPresent : Bool
  responseCode : MqttReasonCodes
  deriving DecidableEq, Repr

/-- Where a call stands: before one of its steps, in the wait, signaled or expired and about
to take the mutex again, or returned with what the caller's record held then. -/
inductive ConnectStep where
  | openSocket
  | clearBrokerConn
  | sendConnect
  | lock
  | publish
  | tryWait
  | waiting
  | signaled
  | expired
  | startTimer
  | timedOut
  | unlock
  | returned (connected : Bool) (conn : NmqttBrokerConnection)
  deriving DecidableEq, Repr

def ConnectStep.hasReturned : ConnectStep → Bool
  | .returned _ _ => true
  | _ => false

/-- `conn` names the record that the caller passed; two calls may be passed the same one. -/
structure ConnectCall where
  thread : Nat
  conn : Nat
  handle : Option (BitVec 32)
  result : String
  step : ConnectStep
  deriving DecidableEq, Repr

/-- What the constructor of the socket and the start of its listener come to. -/
inductive Opening where
  | opened
  | threw (exception : ConnectException) (displayText : String)
  | noListener
  deriving DecidableEq, Repr

/-! ### Calls of `connackHandler` -/

/-- Before the test of `brokerConn`, before one of the three stores, before the signal (and
whether the stores were made), or returned. -/
inductive ConnackStep where
  | test
  | handle
  | sessionPresent
  | responseCode
  | signal (stored : Bool)
  | returned
  deriving DecidableEq, Repr

/-- The arguments, and the connection that the packet arrived on, which the program does
not pass. -/
structure Connack where
  connection : CallId
  handle : BitVec 32
  sessionPresent : Bool
  code : MqttReasonCodes
  deriving DecidableEq, Repr

structure ConnackCall where
  packet : Connack
  step : ConnackStep
  deriving DecidableEq, Repr

/-! ### The client -/

/-- `sockets` is the map of `NmqttConnections`, `waiters` the queue of `connectCnd`, and
`timer` tells whether the ping timer has a thread that was not joined. -/
structure NmqttClient where
  lastHandle : BitVec 32
  sockets : AList fun _ : BitVec 32 => CallId
  connectMtx : Mutex
  waiters : List CallId
  brokerConn : Option CallId
  timer : Bool
  records : Nat → NmqttBrokerConnection
  calls : List ConnectCall
  connacks : List ConnackCall

namespace NmqttClient

/-- Nothing is known of the callers' records. -/
def new (records : Nat → NmqttBrokerConnection) : NmqttClient :=
  ⟨0, ∅, ⟨0, 0⟩, [], none, false, records, [], []⟩

/-- `stopTimer` is the `pingTimer.stop()` of `disconnect`. -/
inductive Action where
  | connect (thread conn : Nat) (result : String)
  | openSocket (call : CallId) (opening : Opening)
  | sendConnect (call : CallId) (sent : Bool)
  | proceed (call : CallId)
  | expire (call : CallId)
  | stopTimer
  | receive (handle : BitVec 32) (sessionPresent : Bool) (code : MqttReasonCodes)
  | handle (connack : Nat)

def setCall (d : NmqttClient) (i : CallId) (call : ConnectCall) : NmqttClient :=
  { d with calls := d.calls.set i call }

/-- What the caller's record holds now. -/
def record (d : NmqttClient) (call : ConnectCall) : NmqttBrokerConnection := d.records call.conn

/-- A thread makes one call after the other. -/
def connect (d : NmqttClient) (thread conn : Nat) (result : String) : Option NmqttClient :=
  if ∀ call ∈ d.calls, call.thread = thread → call.step.hasReturned = true then
    some { d with calls := d.calls ++ [⟨thread, conn, none, result, .openSocket⟩] }
  else none

/-- `map::insert` keeps an entry that a call without a listener has left. -/
def addSocket (d : NmqttClient) (i : CallId) : NmqttClient :=
  { d with sockets :=
      if d.lastHandle ∈ d.sockets then d.sockets else d.sockets.insert d.lastHandle i }

def openSocket (d : NmqttClient) (i : CallId) (opening : Opening) : Option NmqttClient := do
  let call ← d.calls[i]?
  if call.step = .openSocket then
    match opening with
    | .threw exception displayText =>
        some (d.setCall i { call with
          result := exception.result displayText
          step := .returned false (d.record call) })
    | .noListener =>
        some ((d.addSocket i).setCall i { call with step := .returned false (d.record call) })
    | .opened =>
        some { (d.addSocket i).setCall i { call with
            handle := some d.lastHandle
            step := .clearBrokerConn } with
          lastHandle := d.lastHandle + 1 }
  else none

def sendConnect (d : NmqttClient) (i : CallId) (sent : Bool) : Option NmqttClient := do
  let call ← d.calls[i]?
  if call.step = .sendConnect then
    some (d.setCall i { call with
      step := if sent then .lock else .returned false (d.record call) })
  else none

/-- The steps of `connect` that leave no choice. A second `start` of the timer, over
a thread that was not joined, terminates the program. -/
def proceed (d : NmqttClient) (i : CallId) : Option NmqttClient := do
  let call ← d.calls[i]?
  match call.step with
  | .clearBrokerConn =>
      some { d.setCall i { call with step := .sendConnect } with brokerConn := none }
  | .lock => do
      let connectMtx ← d.connectMtx.lock call.thread
      some { d.setCall i { call with step := .publish } with connectMtx := connectMtx }
  | .publish => some { d.setCall i { call with step := .tryWait } with brokerConn := some i }
  | .tryWait =>
      some { d.setCall i { call with step := .waiting } with
        connectMtx := d.connectMtx.unlock
        waiters := d.waiters ++ [i] }
  | .signaled => do
      let connectMtx ← d.connectMtx.lock call.thread
      some { d.setCall i { call with step := .startTimer } with connectMtx := connectMtx }
  | .startTimer =>
      if d.timer then none
      else some { d.setCall i { call with step := .returned true (d.record call) } with timer := true }
  | .expired => do
      let connectMtx ← d.connectMtx.lock call.thread
      some { d.setCall i { call with step := .timedOut } with connectMtx := connectMtx }
  | .timedOut =>
      some { d.setCall i { call with
          result := "Timeout while trying to connect to broker."
          step := .unlock } with
        brokerConn := none }
  | .unlock =>
      some { d.setCall i { call with step := .returned false (d.record call) } with
        connectMtx := d.connectMtx.unlock }
  | .openSocket | .sendConnect | .waiting | .returned _ _ => none

/-- The timeout passes before a signal comes. -/
def expire (d : NmqttClient) (i : CallId) : Option NmqttClient := do
  let call ← d.calls[i]?
  if call.step = .waiting then
    some { d.setCall i { call with step := .expired } with waiters := d.waiters.filter (· ≠ i) }
  else none

def stopTimer (d : NmqttClient) : Option NmqttClient :=
  if d.timer then some { d with timer := false } else none

/-- A CONNACK on the connection behind a handle, as far as `Request::process`. -/
def receive (d : NmqttClient) (handle : BitVec 32) (sessionPresent : Bool)
    (code : MqttReasonCodes) : Option NmqttClient := do
  let connection ← d.sockets.lookup handle
  some { d with connacks := d.connacks ++ [⟨⟨connection, handle, sessionPresent, code⟩, .test⟩] }

/-- A store through `brokerConn`, which must not be null then. -/
def store (d : NmqttClient) (change : NmqttBrokerConnection → NmqttBrokerConnection) :
    Option NmqttClient := do
  let c ← d.brokerConn
  let call ← d.calls[c]?
  some { d with records := Function.update d.records call.conn (change (d.record call)) }

/-- The call that has waited longest is woken; without one the signal is lost. -/
def signal (d : NmqttClient) : Option NmqttClient :=
  match d.waiters with
  | [] => some d
  | c :: waiters => do
      let call ← d.calls[c]?
      some { d.setCall c { call with step := .signaled } with waiters := waiters }

def setConnack (d : NmqttClient) (n : Nat) (a : ConnackCall) : NmqttClient :=
  { d with connacks := d.connacks.set n a }

def handle (d : NmqttClient) (n : Nat) : Option NmqttClient := do
  let a ← d.connacks[n]?
  match a.step with
  | .test =>
      some (d.setConnack n { a with step := if d.brokerConn.isSome then .handle else .signal false })
  | .handle => do
      let d ← d.store fun conn => { conn with handle := a.packet.handle }
      some (d.setConnack n { a with step := .sessionPresent })
  | .sessionPresent => do
      let d ← d.store fun conn => { conn with sessionPresent := a.packet.sessionPresent }
      some (d.setConnack n { a with step := .responseCode })
  | .responseCode => do
      let d ← d.store fun conn => { conn with responseCode := a.packet.code }
      some (d.setConnack n { a with step := .signal true })
  | .signal _ => do
      let d ← d.signal
      some (d.setConnack n { a with step := .returned })
  | .returned => none

def step (d : NmqttClient) : Action → Option NmqttClient
  | .connect thread conn result => d.connect thread conn result
  | .openSocket call opening => d.openSocket call opening
  | .sendConnect call sent => d.sendConnect call sent
  | .proceed call => d.proceed call
  | .expire call => d.expire call
  | .stopTimer => d.stopTimer
  | .receive handle sessionPresent code => d.receive handle sessionPresent code
  | .handle connack => d.handle connack

end NmqttClient
end NymphMqtt
