import NymphMqtt.ClientCalls

/-! What a call of `connect` that returns false leaves in the four tables. -/

namespace NymphMqtt.Runtime
open NymphMqtt.Library OrderedMap

/-- The maps of the client, the registry and the table of the listeners have the entries that
they had. -/
structure Traceless (c : NmqttClient) (s : Statics) (c' : NmqttClient) (s' : Statics) : Prop where
  sockets : SameEntries c.sockets c'.sockets
  socketSemaphores : SameEntries c.socketSemaphores c'.socketSemaphores
  connections : SameEntries s.connections s'.connections
  listeners : SameEntries s.listeners s'.listeners

/-- No table takes anything in: the socket is not opened, or the client's next handle has its
entries already. -/
def ConnectOutcome.Barred (o : ConnectOutcome) (c : NmqttClient) (s : Statics) : Prop :=
  o.opening = .opened → c.lastHandle ∈ c.sockets ∧ c.lastHandle ∈ c.socketSemaphores ∧
    c.lastHandle ∈ s.connections ∧ (o.listener = .ready → c.lastHandle ∈ s.listeners)

variable {c c' : NmqttClient} {s s' : Statics} {client thread data : Nat} {o : ConnectOutcome}
  {answer : Answer}

theorem addConnection_connections (s : Statics) (handle : BitVec 32) (start : ListenerStart) :
    (s.addConnection handle start).1.connections = s.connections := by
  unfold Statics.addConnection
  cases s.getSocket handle with
  | none => rfl
  | some ns => cases start <;> rfl

/-- The listener is entered only when it has signaled. -/
theorem addConnection_listeners {s : Statics} {handle : BitVec 32} {ns : NymphSocket}
    (known : s.getSocket handle = some ns) (start : ListenerStart) :
    (s.addConnection handle start).1.listeners =
      if start = .ready then insertNew s.listeners handle s.started.length else s.listeners := by
  unfold Statics.addConnection
  rw [known]
  cases start <;> rfl

/-- The registry and the listeners behind a socket that was opened. -/
theorem registered_traceless_iff (c : NmqttClient) (s : Statics) (client data : Nat)
    (start : ListenerStart) :
    let s' := ((c.register s client data).addConnection c.lastHandle start).1
    SameEntries s.connections s'.connections ∧ SameEntries s.listeners s'.listeners ↔
      c.lastHandle ∈ s.connections ∧ (start = .ready → c.lastHandle ∈ s.listeners) := by
  intro s'
  obtain ⟨ns, known⟩ := NmqttClient.mem_register c s client data
  have connections : s'.connections =
      insertNew s.connections c.lastHandle (c.nymphSocket s client data) :=
    addConnection_connections _ _ _
  have listeners : s'.listeners =
      if start = .ready then insertNew s.listeners c.lastHandle s.started.length
      else s.listeners :=
    addConnection_listeners known start
  rw [connections, listeners, sameEntries_insertNew]
  apply and_congr_right
  intro _
  by_cases ready : start = .ready
  · rw [if_pos ready, sameEntries_insertNew]
    exact ⟨fun listed _ => listed, fun listed => listed ready⟩
  · rw [if_neg ready]
    exact iff_of_true (.refl s.listeners) fun h => absurd h ready

theorem connected_traceless_iff (left : c.Connected s client thread data o c' s' answer) :
    Traceless c s c' s' ↔ o.Barred c s := by
  by_cases opening : o.opening = .opened
  · have entered : o.entered = true := decide_eq_true opening
    have registered := registered_traceless_iff c s client data o.listener
    dsimp only at registered
    have sockets := left.sockets
    have socketSemaphores := left.socketSemaphores
    have statics := left.statics
    rw [if_pos entered] at sockets socketSemaphores statics
    rw [← statics] at registered
    constructor
    · intro traceless _
      refine ⟨?_, ?_, registered.mp ⟨traceless.connections, traceless.listeners⟩⟩
      · rw [← sameEntries_insertNew, ← sockets]
        exact traceless.sockets
      · rw [← sameEntries_insertNew, ← socketSemaphores]
        exact traceless.socketSemaphores
    · intro barred
      obtain ⟨socket, semaphore, entries⟩ := barred opening
      obtain ⟨connections, listeners⟩ := registered.mpr entries
      refine ⟨?_, ?_, connections, listeners⟩
      · rw [sockets]
        exact sameEntries_insertNew.mpr socket
      · rw [socketSemaphores]
        exact sameEntries_insertNew.mpr semaphore
  · have entered : o.entered ≠ true := fun h => opening (of_decide_eq_true h)
    refine iff_of_true ?_ (fun h => absurd h opening)
    constructor
    · rw [left.sockets, if_neg entered]
      exact .refl c.sockets
    · rw [left.socketSemaphores, if_neg entered]
      exact .refl c.socketSemaphores
    · rw [left.statics, if_neg entered]
      exact .refl s.connections
    · rw [left.statics, if_neg entered]
      exact .refl s.listeners

/-- A call leaves no trace, whatever it returns, exactly where no table has taken anything in. -/
theorem connect_traceless_iff (called : c.connect s client thread data o = some (c', s', answer)) :
    Traceless c s c' s' ↔ o.Barred c s :=
  connected_traceless_iff (NmqttClient.connect_spec called)

/-- A broker that refuses the connection. -/
theorem connect_traceless_refused :
    let o : ConnectOutcome := ⟨.caught .connectionRefused "", .ready, .complete, false⟩
    ∃ c s answer, NmqttClient.new.connect .new 0 0 0 o = some (c, s, answer) ∧
      answer.exit = .returned false ∧ Traceless NmqttClient.new .new c s := by
  intro o
  have called : NmqttClient.new.connect .new 0 0 0 o = some (.new, .new,
      ⟨.returned false, none, some (ConnectException.connectionRefused.result "")⟩) := rfl
  exact ⟨_, _, _, called, rfl, (connect_traceless_iff called).mpr nofun⟩

/-- The broker does not answer: the call returns false, and the connection stays in all four
tables. -/
theorem unanswered_connect_kept :
    ∃ c s answer,
      NmqttClient.new.connect .new 0 0 0 ⟨.opened, .ready, .complete, false⟩ = some (c, s, answer) ∧
      answer.exit = .returned false ∧ 0 ∈ c.sockets ∧ 0 ∈ c.socketSemaphores ∧
      0 ∈ s.connections ∧ 0 ∈ s.listeners ∧ ¬Traceless NmqttClient.new .new c s := by
  refine ⟨_, _, _, rfl, rfl, by decide, by decide, by decide, by decide, fun traceless => ?_⟩
  exact absurd (traceless.sockets 0) (by decide)

end NymphMqtt.Runtime
