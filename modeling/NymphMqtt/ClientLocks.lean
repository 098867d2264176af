import NymphMqtt.ClientCalls
import NymphMqtt.Library.Transition

/-! The two mutexes of a client over runs of the process: which calls give back every lock
that they take. -/

namespace NymphMqtt.Runtime
open NymphMqtt.Library OrderedMap Transition

/-- How often a thread has locked `socketsMutex` and `connectMtx`. -/
def NmqttClient.held (c : NmqttClient) (thread : Nat) : Nat × Nat :=
  (c.socketsMutex.held thread, c.connectMtx.held thread)

/-- The call has come back, and its thread holds what it held before of every client. -/
def Process.Balanced (p : Process) (l : Invocation) (q : Process) : Prop :=
  q.answer.exit.terminates = false →
    q.clients.map (fun c => c.held l.thread) = p.clients.map fun c => c.held l.thread

/-- A call of `connect` that opens its socket sends its message and waits in vain, or ends
the process. A known handle has all its bytes sent, and a socket that is closed does not
throw. -/
def Call.Releases (c : NmqttClient) : Call → Prop
  | .setMessageHandler _ => True
  | .connect _ o => o.entered = true → o.sent = true ∧ (o.signaled = true → c.pingTimer = true)
  | .disconnect handle sending closing =>
      c.pingTimer = true → handle ∈ c.sockets →
        sending = .complete ∧ (handle ∈ c.socketSemaphores → closing = .closed)
  | .publish handle sending => handle ∈ c.sockets → sending = .complete
  | .subscribe handle sending => handle ∈ c.sockets → sending = .complete
  | .unsubscribe handle sending => handle ∈ c.sockets → sending = .complete
  | .shutdown failing => ¬ c.Fails failing

def Process.Releases (p : Process) (l : Invocation) (_ : Process) : Prop :=
  ∀ c, p.clients[l.client]? = some c → l.call.Releases c

namespace NmqttClient
variable {c c' : NmqttClient} {s s' : Statics} {client thread : Nat} {answer : Answer}

theorem held_eq_iff : c'.held thread = c.held thread ↔
    c'.socketsMutex.held thread = c.socketsMutex.held thread ∧
      c'.connectMtx.held thread = c.connectMtx.held thread :=
  Prod.mk_inj

theorem connect_held {data : Nat} {o : ConnectOutcome}
    (left : Connected c s client thread data o c' s' answer) :
    (answer.exit.terminates = false → c'.held thread = c.held thread) ↔
      (Call.connect data o).Releases c := by
  rw [held_eq_iff, left.heldSockets, left.heldConnect, left.exit, ConnectOutcome.exit_terminates,
    Call.Releases, ConnectOutcome.answered]
  cases sent : o.sent with
  | false => cases o.entered <;> simp
  | true =>
    rw [ConnectOutcome.entered_of_sent sent]
    cases o.signaled <;> cases c.pingTimer <;> simp

theorem disconnect_held {handle : BitVec 32} {sending : Sending} {closing : Closing}
    (left : Disconnected c s thread handle sending closing c' s' answer) :
    (answer.exit.terminates = false → c'.held thread = c.held thread) ↔
      (Call.disconnect handle sending closing).Releases c := by
  rw [held_eq_iff, left.survived, left.heldSockets, left.connectMtx, Call.Releases]
  cases c.pingTimer with
  | false => simp
  | true =>
    by_cases known : handle ∈ c.sockets
    · by_cases here : handle ∈ c.socketSemaphores <;> simp [known, here]
    · simp [known]

theorem publish_held {handle : BitVec 32} {sending : Sending}
    (called : c.publish s thread handle sending = some (c', s', answer)) :
    (answer.exit.terminates = false → c'.held thread = c.held thread) ↔
      (handle ∈ c.sockets → sending = .complete) := by
  obtain ⟨-, ⟨sent, exit⟩, m, rfl, held⟩ := publish_spec called
  rw [held_eq_iff, setSocketsMutex_socketsMutex, setSocketsMutex_connectMtx, held, exit]
  by_cases known : handle ∈ c.sockets <;> simp [known, Exit.terminates]

theorem shutdown_held {failing : List SocketId}
    (left : ShutDown c s thread failing c' s' answer) :
    (answer.exit.terminates = false → c'.held thread = c.held thread) ↔
      (Call.shutdown failing).Releases c := by
  rw [held_eq_iff, left.heldSockets, left.connectMtx, Call.Releases, ← left.threw]
  by_cases threw : answer.exit = .threw .socket
  · simp [threw, Exit.terminates]
  · simp [threw]

theorem invoke_held {call : Call}
    (called : c.invoke s client thread call = some (c', s', answer)) :
    (answer.exit.terminates = false → c'.held thread = c.held thread) ↔ call.Releases c := by
  cases call with
  | setMessageHandler handler =>
    cases called
    exact iff_of_true (fun _ => rfl) trivial
  | connect data outcome => exact connect_held (connect_spec called)
  | disconnect handle sending closing => exact disconnect_held (disconnect_spec called)
  | publish handle sending => exact publish_held called
  | subscribe handle sending => exact publish_held called
  | unsubscribe handle sending => exact publish_held called
  | shutdown failing => exact shutdown_held (shutdown_spec called)

end NmqttClient

/-- A projection of one entry decides whether the projection of all has changed. -/
theorem map_set_eq_iff {α β : Type} {f : α → β} {l : List α} {i : Nat} {x y : α}
    (here : l[i]? = some x) : (l.set i y).map f = l.map f ↔ f y = f x := by
  obtain ⟨inside, rfl⟩ := List.getElem?_eq_some_iff.mp here
  rw [List.map_set]
  constructor
  · intro same
    have at_i := congrArg (fun m => m[i]?) same
    simpa [inside] using at_i
  · intro same
    have bound : i < (l.map f).length := by rwa [List.length_map]
    rw [same, ← List.getElem_map f (h := bound), List.set_getElem_self]

theorem Process.balanced_iff {p q : Process} {l : Invocation} (stepped : p.step l = some q) :
    p.Balanced l q ↔ p.Releases l q := by
  obtain ⟨c, c', s', answer, here, invoked, rfl⟩ := step_cases stepped
  have releases : p.Releases l ⟨p.clients.set l.client c', s', answer⟩ ↔ l.call.Releases c := by
    unfold Process.Releases
    rw [here]
    exact ⟨fun all => all c rfl, fun meets c₁ same => Option.some_inj.mp same ▸ meets⟩
  rw [releases, ← NmqttClient.invoke_held invoked]
  apply imp_congr_right
  intro _
  exact map_set_eq_iff here

/-- Every call that comes back leaves its thread the locks it had exactly if every call
releases. -/
theorem Process.locks_balanced_iff (count : Nat) (calls : List Invocation) :
    Along Process.step Process.Balanced (Process.new count) calls ↔
      Along Process.step Process.Releases (Process.new count) calls := by
  apply @along_congr _ _ _ fun _ => True
  · exact fun _ _ _ _ _ => trivial
  · exact fun _ _ _ _ stepped => Process.balanced_iff stepped
  · trivial

/-- A connection that is established leaves `connectMtx` locked. -/
theorem Process.connect_keeps_lock :
    ¬ Along Process.step Process.Balanced (Process.new 1)
      [⟨0, 0, .connect 0 ⟨.opened, .ready, .complete, true⟩⟩] := by
  intro balanced
  have left := (balanced _ rfl).1 rfl
  revert left
  decide

end NymphMqtt.Runtime
