import NymphMqtt.ClientCalls
import NymphMqtt.Library.Transition

/-! What a handle stands for in the tables that all clients share, over runs of the process:
the entry of `NmqttConnections`, the listener, and the client behind both. -/

namespace NymphMqtt.Runtime
open NymphMqtt.Library OrderedMap Transition

/-! ### The shared tables -/

namespace Statics

/-- The entry through which the packets of a listener are dispatched. The listener passes on
the handle that its own entry holds. -/
def receiver (s : Statics) (l : NmqttClientListener) : Option NymphSocket := do
  let ns ← s.getSocket l.nymphSocket
  s.getSocket ns.handle

/-- Handle, socket and listener belong together, and to the client. -/
structure Bound (s : Statics) (client : ClientId) (handler : Handler) (handle : BitVec 32)
    (socket : SocketId) (listener : ListenerId) : Prop where
  entry : ∃ ns, s.getSocket handle = some ns ∧ ns.socket = socket ∧ ns.handler = handler ∧
    ns.connackHandler = client ∧ ns.pingrespHandler = client
  reads : ∃ l, s.started[listener]? = some l ∧ l.socket = socket
  listed : s.listeners.lookup handle = some listener
  dispatched : ∀ l ∈ s.started, l.socket = socket → ∃ ns, s.receiver l = some ns ∧
    ns.handler = handler ∧ ns.connackHandler = client ∧ ns.pingrespHandler = client

/-- Every entry lies under its own handle and names an opened socket, every listener reads
the socket of its entry, and the listeners lie under handles of entries. -/
structure Consistent (s : Statics) : Prop where
  handles : ∀ handle ns, s.getSocket handle = some ns → ns.handle = handle
  sockets : ∀ handle ns, s.getSocket handle = some ns → ns.socket < s.opened.length
  reads : ∀ l ∈ s.started, ∃ ns, s.getSocket l.nymphSocket = some ns ∧ ns.socket = l.socket
  listed : ∀ handle ∈ s.listeners, handle ∈ s.connections

theorem consistent_new : Consistent .new :=
  ⟨nofun, nofun, nofun, nofun⟩

/-! ### Listeners that are told to stop -/

/-- Nothing but this happens to the shared tables outside `connect`: listeners stop and leave
their table, and semaphores are set. -/
structure Retired (s t : Statics) : Prop where
  connections : t.connections = s.connections
  opened : t.opened = s.opened
  listed : ∀ handle ∈ t.listeners, handle ∈ s.listeners
  started : ∀ l ∈ t.started, ∃ l' ∈ s.started, l'.nymphSocket = l.nymphSocket ∧ l'.socket = l.socket

theorem Retired.refl (s : Statics) : Retired s s :=
  ⟨rfl, rfl, fun _ listed => listed, fun l started => ⟨l, started, rfl, rfl⟩⟩

theorem Retired.trans {s t u : Statics} (first : Retired s t) (second : Retired t u) :
    Retired s u := by
  refine ⟨second.connections.trans first.connections, second.opened.trans first.opened, ?_, ?_⟩
  · intro handle listed
    exact first.listed handle (second.listed handle listed)
  · intro l started
    obtain ⟨l₁, started₁, entry₁, socket₁⟩ := second.started l started
    obtain ⟨l₂, started₂, entry₂, socket₂⟩ := first.started l₁ started₁
    exact ⟨l₂, started₂, entry₂.trans entry₁, socket₂.trans socket₁⟩

theorem retired_stopListener (s : Statics) (listener : ListenerId) :
    Retired s (s.stopListener listener) := by
  refine ⟨rfl, rfl, fun _ listed => listed, ?_⟩
  intro l started
  obtain ⟨i, at_i⟩ := List.mem_iff_getElem?.mp started
  unfold stopListener at at_i
  rw [List.getElem?_modify] at at_i
  obtain ⟨l', before, same⟩ := Option.map_eq_some_iff.mp at_i
  refine ⟨l', List.mem_of_getElem? before, ?_⟩
  split at same
  · rw [← same]
    exact ⟨rfl, rfl⟩
  · rw [← same]
    exact ⟨rfl, rfl⟩

theorem retired_removeConnection (s : Statics) (handle : BitVec 32) :
    Retired s (s.removeConnection handle) := by
  unfold removeConnection
  split
  next => exact .refl s
  next listener found =>
    have stopped := retired_stopListener s listener
    refine ⟨stopped.connections, stopped.opened, ?_, stopped.started⟩
    intro other listed
    exact (AList.mem_erase.mp listed).2

theorem retired_setSemaphore (s : Statics) (semaphore : SemaphoreId) :
    Retired s (s.setSemaphore semaphore) :=
  ⟨rfl, rfl, fun _ listed => listed, fun l started => ⟨l, started, rfl, rfl⟩⟩

theorem retired_stop {s t : Statics} (stopped : s.stop = some t) : Retired s t := by
  unfold stop at stopped
  generalize List.range s.listeners.keys.length = indices at stopped
  induction indices generalizing s with
  | nil =>
    cases stopped
    exact .refl _
  | cons i indices ih =>
    obtain ⟨u, first, rest⟩ := Option.bind_eq_some_iff.mp stopped
    obtain ⟨listener, -, rfl⟩ := Option.map_eq_some_iff.mp first
    exact (retired_stopListener s listener).trans (ih rest)

theorem retired_closeAll (failing : List SocketId) (s : Statics)
    (listed : List (BitVec 32 × SocketId)) :
    Retired s (NmqttClient.closeAll failing s listed).1 := by
  induction listed generalizing s with
  | nil => exact .refl s
  | cons entry rest ih =>
    obtain ⟨handle, socket⟩ := entry
    have removed := retired_removeConnection s handle
    unfold NmqttClient.closeAll
    split_ifs
    · exact removed
    · exact removed.trans (ih _)

theorem Consistent.retire {s t : Statics} (kept : s.Consistent) (retired : Retired s t) :
    t.Consistent := by
  have same : ∀ handle, t.getSocket handle = s.getSocket handle := by
    intro handle
    rw [getSocket, retired.connections]
    rfl
  refine ⟨?_, ?_, ?_, ?_⟩
  · intro handle ns known
    exact kept.handles handle ns (same handle ▸ known)
  · intro handle ns known
    rw [retired.opened]
    exact kept.sockets handle ns (same handle ▸ known)
  · intro l started
    obtain ⟨l', started', entry, socket⟩ := retired.started l started
    rw [same, ← entry, ← socket]
    exact kept.reads l' started'
  · intro handle listed
    rw [retired.connections]
    exact kept.listed handle (retired.listed handle listed)

/-! ### A new connection -/

variable {s : Statics} {c : NmqttClient} {client data : Nat} {handle : BitVec 32} {ns : NymphSocket}

theorem register_getSocket_cases
    (known : (c.register s client data).getSocket handle = some ns) :
    s.getSocket handle = some ns ∨
      c.lastHandle ∉ s.connections ∧ handle = c.lastHandle ∧ ns = c.nymphSocket s client data :=
  lookup_insertNew_cases known

theorem register_getSocket_old (known : s.getSocket handle = some ns) :
    (c.register s client data).getSocket handle = some ns :=
  lookup_insertNew_old known

theorem addConnection_getSocket (s : Statics) (handle other : BitVec 32) (start : ListenerStart) :
    (s.addConnection handle start).1.getSocket other = s.getSocket other := by
  unfold Statics.addConnection
  split
  next => rfl
  next => cases start <;> rfl

theorem Consistent.register (kept : s.Consistent) (c : NmqttClient) (client data : Nat) :
    (c.register s client data).Consistent := by
  have grown : (c.register s client data).opened.length = s.opened.length + 1 := by
    change (s.opened ++ [client]).length = _
    rw [List.length_append, List.length_singleton]
  refine ⟨?_, ?_, ?_, ?_⟩
  · intro handle ns known
    obtain old | ⟨-, rfl, rfl⟩ := register_getSocket_cases known
    · exact kept.handles handle ns old
    · rfl
  · intro handle ns known
    rw [grown]
    obtain old | ⟨-, rfl, rfl⟩ := register_getSocket_cases known
    · exact Nat.lt_succ_of_lt (kept.sockets handle ns old)
    · exact Nat.lt_succ_self _
  · intro l started
    obtain ⟨ns, known, socket⟩ := kept.reads l started
    exact ⟨ns, register_getSocket_old known, socket⟩
  · intro handle listed
    exact mem_insertNew.mpr (.inr (kept.listed handle listed))

theorem Consistent.addConnection (kept : s.Consistent) (known : s.getSocket handle = some ns)
    (start : ListenerStart) : (s.addConnection handle start).1.Consistent := by
  have reads : ∀ l ∈ s.started ++ [⟨handle, ns.socket, true⟩],
      ∃ ns, s.getSocket l.nymphSocket = some ns ∧ ns.socket = l.socket := by
    intro l started
    obtain old | new := List.mem_append.mp started
    · exact kept.reads l old
    · rw [List.mem_singleton.mp new]
      exact ⟨ns, known, rfl⟩
  unfold Statics.addConnection
  rw [known]
  cases start with
  | threw => exact ⟨kept.handles, kept.sockets, reads, kept.listed⟩
  | timedOut => exact ⟨kept.handles, kept.sockets, reads, kept.listed⟩
  | ready =>
    refine ⟨kept.handles, kept.sockets, reads, ?_⟩
    intro other listed
    obtain rfl | old := mem_insertNew.mp listed
    · exact mem_of_lookup known
    · exact kept.listed other old

/-- An entry that is there already keeps an older socket. -/
theorem not_bound_of_old (kept : s.Consistent) (old : c.lastHandle ∈ s.connections)
    (start : ListenerStart) {handler : Handler} {listener : ListenerId} :
    ¬ Bound ((c.register s client data).addConnection c.lastHandle start).1 client handler
        c.lastHandle s.opened.length listener := by
  intro bound
  obtain ⟨ns, known⟩ := Option.isSome_iff_exists.mp (AList.lookup_isSome.mpr old)
  have still : (c.register s client data).getSocket c.lastHandle = some ns :=
    register_getSocket_old known
  obtain ⟨ns', entry, socket, -⟩ := bound.entry
  rw [addConnection_getSocket, still] at entry
  obtain rfl := Option.some_inj.mp entry
  exact absurd socket (Nat.ne_of_lt (kept.sockets _ _ known))

/-- A new handle gets the entry, the listener and the place in the table that the call makes. -/
theorem bound_of_new (kept : s.Consistent) (new : c.lastHandle ∉ s.connections) :
    Bound ((c.register s client data).addConnection c.lastHandle .ready).1 client c.messageHandler
        c.lastHandle s.opened.length s.started.length := by
  have known : (c.register s client data).getSocket c.lastHandle =
      some (c.nymphSocket s client data) :=
    lookup_insertNew_new new
  have unlisted : c.lastHandle ∉ s.listeners := fun listed => new (kept.listed _ listed)
  have entry : ((c.register s client data).addConnection c.lastHandle .ready).1.getSocket
      c.lastHandle = some (c.nymphSocket s client data) := by
    rw [addConnection_getSocket, known]
  refine ⟨⟨_, entry, rfl, rfl, rfl, rfl⟩, ?_, ?_, ?_⟩
  · unfold Statics.addConnection
    rw [known]
    exact ⟨_, List.getElem?_concat_length, rfl⟩
  · unfold Statics.addConnection
    rw [known]
    exact lookup_insertNew_new unlisted
  · intro l started socket
    have either : l ∈ s.started ∨ l = ⟨c.lastHandle, s.opened.length, true⟩ := by
      unfold Statics.addConnection at started
      rw [known] at started
      exact (List.mem_append.mp started).imp_right List.mem_singleton.mp
    obtain old | rfl := either
    · obtain ⟨ns, before, same⟩ := kept.reads l old
      exact absurd (same.trans socket) (Nat.ne_of_lt (kept.sockets _ _ before))
    · refine ⟨c.nymphSocket s client data, ?_, rfl, rfl, rfl⟩
      unfold receiver
      rw [entry]
      exact entry

end Statics

/-! ### Runs -/

namespace Process

/-- A call of `connect` that returns true with a handle has bound it. -/
def HandleBound (p : Process) (l : Invocation) (q : Process) : Prop :=
  ∀ c data o handle, p.clients[l.client]? = some c → l.call = .connect data o →
    q.answer.exit = .returned true → q.answer.handle = some handle →
      q.statics.Bound l.client c.messageHandler handle p.statics.opened.length
        p.statics.started.length

/-- A call of `connect` that gets through and finds its timer stopped takes a handle that no
client of the process has registered before. -/
def HandleFresh (p : Process) (l : Invocation) (_ : Process) : Prop :=
  ∀ c data o, p.clients[l.client]? = some c → l.call = .connect data o →
    o.answered = true → c.pingTimer = false → c.lastHandle ∉ p.statics.connections

theorem consistent_step {p q : Process} {l : Invocation} (kept : p.statics.Consistent)
    (stepped : p.step l = some q) : q.statics.Consistent := by
  obtain ⟨c, c', s', answer, -, invoked, rfl⟩ := step_cases stepped
  change s'.Consistent
  generalize l.call = call at invoked
  cases call with
  | setMessageHandler handler =>
    cases invoked
    exact kept
  | connect data outcome =>
    rw [(NmqttClient.connect_spec invoked).statics]
    split
    · obtain ⟨ns, known⟩ := NmqttClient.mem_register c p.statics l.client data
      exact (kept.register c l.client data).addConnection known outcome.listener
    · exact kept
  | disconnect handle sending closing =>
    obtain ⟨-, -, rfl⟩ | ⟨-, semaphore, -, -, -, rfl⟩ := (NmqttClient.disconnect_spec invoked).tables
    · exact kept
    · exact (kept.retire (Statics.retired_setSemaphore _ _)).retire
        (Statics.retired_removeConnection _ _)
  | publish handle sending => exact (NmqttClient.publish_spec invoked).1 ▸ kept
  | subscribe handle sending => exact (NmqttClient.publish_spec invoked).1 ▸ kept
  | unsubscribe handle sending => exact (NmqttClient.publish_spec invoked).1 ▸ kept
  | shutdown failing =>
    obtain ⟨t, closed, walked, ended⟩ := (NmqttClient.shutdown_spec invoked).statics
    have retired := Statics.retired_closeAll failing p.statics
      (inOrder (fun a b => a.toInt ≤ b.toInt) c.sockets)
    rw [walked] at retired
    obtain rfl | stopped := ended
    · exact kept.retire retired
    · exact (kept.retire retired).retire (Statics.retired_stop stopped)

/-- What a call of `connect` that gets through makes of the shared tables. -/
theorem answered_statics {c c' : NmqttClient} {s s' : Statics} {client thread data : Nat}
    {o : ConnectOutcome} {answer : Answer}
    (left : c.Connected s client thread data o c' s' answer) (answered : o.answered = true) :
    s' = ((c.register s client data).addConnection c.lastHandle .ready).1 ∧
      answer.handle = some c.lastHandle := by
  obtain ⟨entered, listening, ready⟩ := ConnectOutcome.ready_of_answered answered
  rw [left.statics, left.handle, if_pos entered, if_pos listening, ready]
  exact ⟨rfl, rfl⟩

theorem handle_bound_step {p q : Process} {l : Invocation} (kept : p.statics.Consistent)
    (stepped : p.step l = some q) : p.HandleBound l q ↔ p.HandleFresh l q := by
  obtain ⟨c, c', s', answer, here, invoked, rfl⟩ := step_cases stepped
  constructor
  · intro bound c₁ data o here₁ called answered stopped
    obtain rfl : c₁ = c := Option.some_inj.mp (here₁.symm.trans here)
    rw [called] at invoked
    have left := NmqttClient.connect_spec invoked
    obtain ⟨rfl, stored⟩ := answered_statics left answered
    have returned : answer.exit = .returned true := by
      rw [left.exit, ConnectOutcome.exit_returned_true]
      exact ⟨answered, stopped⟩
    have made := bound c₁ data o c₁.lastHandle here called returned stored
    exact fun old => Statics.not_bound_of_old kept old .ready made
  · intro fresh c₁ data o handle here₁ called returned stored
    obtain rfl : c₁ = c := Option.some_inj.mp (here₁.symm.trans here)
    rw [called] at invoked
    have left := NmqttClient.connect_spec invoked
    change answer.exit = _ at returned
    rw [left.exit, ConnectOutcome.exit_returned_true] at returned
    obtain ⟨rfl, stored'⟩ := answered_statics left returned.1
    obtain rfl := Option.some_inj.mp (stored'.symm.trans stored)
    exact Statics.bound_of_new kept (fresh c₁ data o here called returned.1 returned.2)

/-- Handles are bound by every successful call of `connect` exactly if each takes a handle that
is new to the process. -/
theorem handles_bound_iff (count : Nat) (calls : List Invocation) :
    Along Process.step HandleBound (Process.new count) calls ↔
      Along Process.step HandleFresh (Process.new count) calls := by
  apply @along_congr _ _ _ fun p => p.statics.Consistent
  · exact fun _ _ _ kept stepped => consistent_step kept stepped
  · exact fun _ _ _ kept stepped => handle_bound_step kept stepped
  · exact Statics.consistent_new

/-- Two clients that connect for the first time both take the handle 0. -/
theorem handle_shared :
    ¬ Along Process.step HandleBound (Process.new 2)
      [⟨0, 0, .connect 0 ⟨.opened, .ready, .complete, true⟩⟩,
        ⟨1, 0, .connect 0 ⟨.opened, .ready, .complete, true⟩⟩] := by
  intro bound
  have second := ((bound _ rfl).2 _ rfl).1 _ _ _ 0 rfl rfl rfl rfl
  obtain ⟨ns, entry, socket, -⟩ := second.entry
  revert socket
  obtain rfl := Option.some_inj.mp entry
  decide

end Process
end NymphMqtt.Runtime
