import NymphMqtt.HandleBinding
import NymphMqtt.Library.Splice

/-! Which socket each listener reads and which client gets its packets, over runs of all the
clients of the process. -/

namespace NymphMqtt.Runtime
open NymphMqtt.Library OrderedMap Splice Transition

namespace Statics

/-- The handles, in the order in which their connections were opened. -/
def handles (s : Statics) : List (BitVec 32) := s.started.map (·.nymphSocket)

/-- Some listener reads the socket. -/
def Read (s : Statics) (socket : SocketId) : Prop := ∃ l ∈ s.started, l.socket = socket

/-- Each opened socket has got a listener, which reads the first socket that was opened under
the same handle; the entry of the handle names that socket and the client that opened it. -/
structure Routed (s : Statics) : Prop where
  count : s.started.length = s.opened.length
  reads : ∀ l ∈ s.started, l.socket = s.handles.idxOf l.nymphSocket
  known : ∀ handle, handle ∈ s.connections ↔ handle ∈ s.handles
  entry : ∀ handle ns, s.getSocket handle = some ns → ns.handle = handle ∧
    ns.socket = s.handles.idxOf handle ∧ s.opened[ns.socket]? = some ns.connackHandler ∧
    ns.pingrespHandler = ns.connackHandler
  listed : ∀ handle listener, s.listeners.lookup handle = some listener →
    s.handles[listener]? = some handle

theorem routed_new : Routed .new :=
  ⟨rfl, fun _ started => (List.not_mem_nil started).elim,
    fun _ => iff_of_false (AList.notMem_empty _) List.not_mem_nil, nofun, nofun⟩

/-! ### What happens outside `connect` -/

/-- The entries, the sockets and what the listeners read are as before, and no listener is new
to its table. -/
structure Kept (s t : Statics) : Prop where
  connections : t.connections = s.connections
  opened : t.opened = s.opened
  started : t.started.map (fun l => (l.nymphSocket, l.socket)) =
    s.started.map fun l => (l.nymphSocket, l.socket)
  listed : ∀ handle listener, t.listeners.lookup handle = some listener →
    s.listeners.lookup handle = some listener

namespace Kept
variable {s t u : Statics}

theorem refl (s : Statics) : Kept s s := ⟨rfl, rfl, rfl, fun _ _ listed => listed⟩

theorem trans (first : Kept s t) (second : Kept t u) : Kept s u :=
  ⟨second.connections.trans first.connections, second.opened.trans first.opened,
    second.started.trans first.started,
    fun handle listener listed => first.listed handle listener (second.listed handle listener listed)⟩

theorem handles (kept : Kept s t) : t.handles = s.handles := by
  have same := congrArg (List.map Prod.fst) kept.started
  rw [List.map_map, List.map_map] at same
  exact same

theorem getSocket (kept : Kept s t) (handle : BitVec 32) :
    t.getSocket handle = s.getSocket handle := by
  rw [Statics.getSocket, kept.connections]
  rfl

theorem mem_started (kept : Kept s t) {l : NmqttClientListener} (started : l ∈ t.started) :
    ∃ l' ∈ s.started, l'.nymphSocket = l.nymphSocket ∧ l'.socket = l.socket := by
  have image : (l.nymphSocket, l.socket) ∈ t.started.map fun l => (l.nymphSocket, l.socket) :=
    List.mem_map_of_mem started
  rw [kept.started] at image
  obtain ⟨l', started', same⟩ := List.mem_map.mp image
  exact ⟨l', started', Prod.mk.inj same⟩

theorem stopListener (s : Statics) (listener : ListenerId) : Kept s (s.stopListener listener) := by
  refine ⟨rfl, rfl, ?_, fun _ _ listed => listed⟩
  apply List.ext_getElem?
  intro i
  rw [List.getElem?_map, List.getElem?_map, Statics.stopListener, List.getElem?_modify]
  cases s.started[i]? with
  | none => rfl
  | some l =>
    rw [Option.map_eq_map, Option.map_some, Option.map_some, Option.map_some]
    split <;> rfl

theorem removeConnection (s : Statics) (handle : BitVec 32) :
    Kept s (s.removeConnection handle) := by
  unfold Statics.removeConnection
  split
  next => exact refl s
  next listener found =>
    have stopped := stopListener s listener
    refine ⟨stopped.connections, stopped.opened, stopped.started, ?_⟩
    intro other listener' listed
    change (s.listeners.erase handle).lookup other = _ at listed
    by_cases same : other = handle
    · rw [same, AList.lookup_erase] at listed
      cases listed
    · rwa [AList.lookup_erase_ne same] at listed

theorem setSemaphore (s : Statics) (semaphore : SemaphoreId) : Kept s (s.setSemaphore semaphore) :=
  ⟨rfl, rfl, rfl, fun _ _ listed => listed⟩

theorem stop (stopped : s.stop = some t) : Kept s t := by
  unfold Statics.stop at stopped
  generalize List.range s.listeners.keys.length = indices at stopped
  induction indices generalizing s with
  | nil =>
    cases stopped
    exact refl _
  | cons i indices ih =>
    obtain ⟨u, first, rest⟩ := Option.bind_eq_some_iff.mp stopped
    obtain ⟨listener, -, rfl⟩ := Option.map_eq_some_iff.mp first
    exact (stopListener s listener).trans (ih rest)

theorem closeAll (failing : List SocketId) (s : Statics) (listed : List (BitVec 32 × SocketId)) :
    Kept s (NmqttClient.closeAll failing s listed).1 := by
  induction listed generalizing s with
  | nil => exact refl s
  | cons entry rest ih =>
    have removed := removeConnection s entry.1
    unfold NmqttClient.closeAll
    split
    · exact removed
    · exact removed.trans (ih _)

end Kept

theorem removeConnection_started (s : Statics) (handle : BitVec 32) :
    (s.removeConnection handle).started = match s.listeners.lookup handle with
      | none => s.started
      | some listener => s.started.modify listener fun r => { r with listen := false } := by
  unfold removeConnection
  cases s.listeners.lookup handle <;> rfl

theorem Routed.kept {s t : Statics} (routed : s.Routed) (kept : Kept s t) : t.Routed := by
  have count := congrArg List.length kept.started
  rw [List.length_map, List.length_map] at count
  refine ⟨?_, ?_, ?_, ?_, ?_⟩
  · rw [count, kept.opened, routed.count]
  · intro l started
    obtain ⟨l', started', handle, socket⟩ := kept.mem_started started
    rw [kept.handles, ← handle, ← socket, routed.reads l' started']
  · intro handle
    rw [kept.connections, kept.handles]
    exact routed.known handle
  · intro handle ns found
    rw [kept.handles, kept.opened]
    exact routed.entry handle ns (kept.getSocket handle ▸ found)
  · intro handle listener listed
    rw [kept.handles]
    exact routed.listed handle listener (kept.listed handle listener listed)

/-! ### A new connection -/

section
variable {s : Statics} (c : NmqttClient) (client data : Nat) (start : ListenerStart)

/-- The tables behind the part of `connect` that makes the entries. -/
def connected (s : Statics) : Statics :=
  ((c.register s client data).addConnection c.lastHandle start).1

theorem connected_getSocket (handle : BitVec 32) :
    (s.connected c client data start).getSocket handle =
      (c.register s client data).getSocket handle :=
  addConnection_getSocket _ _ _ _

theorem connected_opened : (s.connected c client data start).opened = s.opened ++ [client] := by
  obtain ⟨ns, known⟩ := NmqttClient.mem_register c s client data
  rw [connected, Statics.addConnection, known]
  cases start <;> rfl

/-- The new listener reads the socket of the entry that its handle has got. -/
theorem connected_started : ∃ ns, (c.register s client data).getSocket c.lastHandle = some ns ∧
    (s.connected c client data start).started =
      s.started ++ [⟨c.lastHandle, ns.socket, true⟩] := by
  obtain ⟨ns, known⟩ := NmqttClient.mem_register c s client data
  refine ⟨ns, known, ?_⟩
  rw [connected, Statics.addConnection, known]
  cases start <;> rfl

theorem connected_handles :
    (s.connected c client data start).handles = s.handles ++ [c.lastHandle] := by
  obtain ⟨ns, -, started⟩ := s.connected_started c client data start
  rw [handles, started, List.map_append]
  rfl

theorem connected_listed {handle : BitVec 32} {listener : ListenerId}
    (listed : (s.connected c client data start).listeners.lookup handle = some listener) :
    s.listeners.lookup handle = some listener ∨
      handle = c.lastHandle ∧ listener = s.started.length := by
  obtain ⟨ns, known⟩ := NmqttClient.mem_register c s client data
  rw [connected, Statics.addConnection, known] at listed
  cases start with
  | threw => exact .inl listed
  | timedOut => exact .inl listed
  | ready =>
    obtain old | ⟨-, same, new⟩ := lookup_insertNew_cases listed
    · exact .inl old
    · exact .inr ⟨same, new⟩

theorem handles_length (s : Statics) : s.handles.length = s.started.length := List.length_map ..

theorem Routed.entered (routed : s.Routed) {handle : BitVec 32} {ns : NymphSocket}
    (found : (c.register s client data).getSocket handle = some ns) : ns.handle = handle ∧
      ns.socket = (s.handles ++ [c.lastHandle]).idxOf handle ∧
      (s.opened ++ [client])[ns.socket]? = some ns.connackHandler ∧
      ns.pingrespHandler = ns.connackHandler := by
  obtain old | ⟨new, rfl, rfl⟩ := register_getSocket_cases found
  · obtain ⟨under, socket, owner, both⟩ := routed.entry handle ns old
    have present : handle ∈ s.handles := (routed.known handle).mp (mem_of_lookup old)
    rw [List.idxOf_append_of_mem present]
    refine ⟨under, socket, ?_, both⟩
    rw [List.getElem?_append_left (List.getElem?_eq_some_iff.mp owner).1]
    exact owner
  · have absent : c.lastHandle ∉ s.handles := fun member => new ((routed.known _).mpr member)
    rw [List.idxOf_append_of_notMem absent, List.idxOf_cons_self, handles_length, routed.count]
    exact ⟨rfl, rfl, List.getElem?_concat_length, rfl⟩

theorem Routed.connected (routed : s.Routed) : (s.connected c client data start).Routed := by
  obtain ⟨ns, made, started⟩ := s.connected_started c client data start
  have handles := s.connected_handles c client data start
  have opened := s.connected_opened c client data start
  refine ⟨?_, ?_, ?_, ?_, ?_⟩
  · rw [started, opened, List.length_append, List.length_append, routed.count]
    rfl
  · intro l member
    rw [handles]
    rw [started, List.mem_append, List.mem_singleton] at member
    obtain old | rfl := member
    · have present : l.nymphSocket ∈ s.handles := List.mem_map_of_mem old
      rw [List.idxOf_append_of_mem present]
      exact routed.reads l old
    · exact (routed.entered c client data made).2.1
  · intro handle
    have here : handle ∈ (s.connected c client data start).connections ↔
        handle ∈ (c.register s client data).connections := by
      have same := s.connected_getSocket c client data start handle
      rw [← AList.lookup_isSome, ← AList.lookup_isSome]
      exact iff_of_eq (congrArg (fun found => found.isSome = true) same)
    rw [here, handles, List.mem_append, List.mem_singleton, ← routed.known, or_comm]
    exact mem_insertNew
  · intro handle entry found
    rw [s.connected_getSocket c client data start] at found
    rw [handles, opened]
    exact routed.entered c client data found
  · intro handle listener listed
    rw [handles]
    obtain old | ⟨rfl, rfl⟩ := connected_listed c client data start listed
    · have before := routed.listed handle listener old
      rw [List.getElem?_append_left (List.getElem?_eq_some_iff.mp before).1]
      exact before
    · rw [← s.handles_length]
      exact List.getElem?_concat_length

end

/-! ### From one state to a later one -/

/-- Connections are added, and what there is of them stays. -/
structure Later (s t : Statics) : Prop where
  handles : s.handles <+: t.handles
  opened : s.opened <+: t.opened
  entries : ∀ handle ns, s.getSocket handle = some ns → t.getSocket handle = some ns

theorem Later.refl (s : Statics) : Later s s :=
  ⟨List.prefix_refl _, List.prefix_refl _, fun _ _ found => found⟩

theorem Later.trans {s t u : Statics} (first : Later s t) (second : Later t u) : Later s u :=
  ⟨first.handles.trans second.handles, first.opened.trans second.opened,
    fun handle ns found => second.entries handle ns (first.entries handle ns found)⟩

theorem Kept.later {s t : Statics} (kept : Kept s t) : Later s t := by
  refine ⟨?_, ?_, ?_⟩
  · rw [kept.handles]
  · rw [kept.opened]
  · intro handle ns found
    rw [kept.getSocket]
    exact found

theorem later_connected (s : Statics) (c : NmqttClient) (client data : Nat) (start : ListenerStart) :
    Later s (s.connected c client data start) := by
  refine ⟨?_, ?_, ?_⟩
  · rw [connected_handles]
    exact List.prefix_append _ _
  · rw [connected_opened]
    exact List.prefix_append _ _
  · intro handle ns found
    rw [connected_getSocket]
    exact register_getSocket_old found

/-- An entry of a list is the first of its kind if there is none in front of it. -/
theorem first_iff {l : List (BitVec 32)} {i : Nat} {handle : BitVec 32}
    (here : l[i]? = some handle) : l.idxOf handle = i ↔ handle ∉ l.take i := by
  have present : handle ∈ l := List.mem_of_getElem? here
  have upto : handle ∈ l.take (i + 1) := by
    apply List.mem_of_getElem?
    rw [List.getElem?_take_of_lt (Nat.lt_succ_self i), here]
  rw [List.mem_take_iff_idxOf_lt present] at upto ⊢
  omega

/-- A socket is read if none was opened under its handle before. -/
theorem Routed.read_iff {s : Statics} (routed : s.Routed) {socket : SocketId} {handle : BitVec 32}
    (opened : s.handles[socket]? = some handle) :
    s.Read socket ↔ s.handles.idxOf handle = socket := by
  constructor
  · intro ⟨l, started, same⟩
    have first := routed.reads l started
    have present : l.nymphSocket ∈ s.handles := List.mem_map_of_mem started
    have at_first := List.getElem?_idxOf present
    rw [← first, same, opened] at at_first
    rw [Option.some_inj.mp at_first, ← first, same]
  · intro first
    obtain ⟨l, started, same⟩ := List.mem_map.mp (List.mem_of_getElem? opened)
    refine ⟨l, started, ?_⟩
    rw [routed.reads l started, same, first]

/-- Whether a socket is read is settled when it has been opened. -/
theorem Later.read_iff {s t : Statics} (later : Later s t) (routed : s.Routed) (routed' : t.Routed)
    {socket : SocketId} (opened : socket < s.opened.length) : t.Read socket ↔ s.Read socket := by
  have inside : socket < s.handles.length := by rw [handles_length, routed.count]; exact opened
  obtain ⟨handle, here⟩ : ∃ handle, s.handles[socket]? = some handle :=
    ⟨_, List.getElem?_eq_getElem inside⟩
  obtain ⟨more, grown⟩ := later.handles
  rw [routed.read_iff here, routed'.read_iff (getElem?_grown later.handles here), ← grown,
    List.idxOf_append_of_mem (List.mem_of_getElem? here)]

end Statics

/-! ### Calls -/

namespace NmqttClient
variable {c c' : NmqttClient} {s s' : Statics} {client thread : Nat} {call : Call} {answer : Answer}

/-- A call of `connect` that opens its socket makes the entries; every other call keeps them. -/
theorem invoke_tables (called : c.invoke s client thread call = some (c', s', answer)) :
    Statics.Kept s s' ∧ (∀ handle socket, c'.sockets.lookup handle = some socket →
      c.sockets.lookup handle = some socket) ∨
    (∃ data start, s' = s.connected c client data start) ∧
      c'.sockets = insertNew c.sockets c.lastHandle s.opened.length := by
  cases call with
  | setMessageHandler handler =>
    cases called
    exact .inl ⟨.refl s, fun _ _ found => found⟩
  | connect data o =>
    have left := connect_spec called
    have sockets := left.sockets
    have statics := left.statics
    cases entered : o.entered with
    | false =>
      rw [entered] at sockets statics
      refine .inl ⟨statics ▸ .refl s, ?_⟩
      intro handle socket found
      rw [sockets] at found
      exact found
    | true =>
      rw [entered] at sockets statics
      exact .inr ⟨⟨data, o.listener, statics⟩, sockets⟩
  | disconnect handle sending closing =>
    obtain ⟨sockets, -, rfl⟩ | ⟨-, semaphore, -, sockets, -, rfl⟩ := (disconnect_spec called).tables
    · exact .inl ⟨.refl _, fun _ _ found => sockets ▸ found⟩
    · refine .inl ⟨(Statics.Kept.setSemaphore s semaphore).trans (.removeConnection _ handle), ?_⟩
      intro other socket found
      rw [sockets] at found
      by_cases same : other = handle
      · rw [same, AList.lookup_erase] at found
        cases found
      · rwa [AList.lookup_erase_ne same] at found
  | publish handle sending =>
    obtain ⟨rfl, -, m, rfl, -⟩ := publish_spec called
    exact .inl ⟨.refl _, fun _ _ found => found⟩
  | subscribe handle sending =>
    obtain ⟨rfl, -, m, rfl, -⟩ := publish_spec called
    exact .inl ⟨.refl _, fun _ _ found => found⟩
  | unsubscribe handle sending =>
    obtain ⟨rfl, -, m, rfl, -⟩ := publish_spec called
    exact .inl ⟨.refl _, fun _ _ found => found⟩
  | shutdown failing =>
    obtain ⟨m, t, closed, -, -, walked, ended⟩ := shutdown_cases called
    have kept := Statics.Kept.closeAll failing s (inOrder (fun a b => a.toInt ≤ b.toInt) c.sockets)
    rw [walked] at kept
    have emptied : ∀ handle socket, (∅ : AList fun _ : BitVec 32 => SocketId).lookup handle =
        some socket → c.sockets.lookup handle = some socket := nofun
    obtain ⟨-, rfl, rfl, -⟩ | ⟨-, -, rfl, ⟨-, rfl, -⟩ | ⟨stopped, -⟩⟩ := ended
    · exact .inl ⟨kept, fun _ _ found => found⟩
    · exact .inl ⟨kept, emptied⟩
    · exact .inl ⟨kept.trans (.stop stopped), emptied⟩

/-- What a call of `disconnect` that returns true has done. -/
theorem disconnect_true {handle : BitVec 32} {sending : Sending} {closing : Closing}
    (called : c.disconnect s thread handle sending closing = some (c', s', answer))
    (closed : answer.exit = .returned true) : ∃ socket semaphore,
      c.sockets.lookup handle = some socket ∧
        s' = (s.setSemaphore semaphore).removeConnection handle := by
  unfold disconnect stopTimer at called
  cases joinable : c.pingTimer with
  | false =>
    rw [joinable] at called
    cases called
    cases closed
  | true =>
    rw [joinable] at called
    obtain ⟨⟨c₁, sent⟩, passed, called⟩ := Option.bind_eq_some_iff.mp called
    obtain ⟨m, rfl, -, -⟩ := sendMessage_spec passed
    obtain ⟨c₂, locked, called⟩ := Option.bind_eq_some_iff.mp called
    obtain ⟨m', rfl, -, -⟩ := lockSockets_spec locked
    dsimp only at called
    split at called
    next =>
      cases called
      cases closed
    next =>
      cases called
      cases closed
    next socket semaphore found existing =>
      cases closing with
      | closed =>
        cases called
        exact ⟨socket, semaphore, found, rfl⟩
      | shutdownThrew =>
        cases called
        cases closed
      | closeThrew =>
        cases called
        cases closed

/-- The sockets in the map of a client are among those that it opened, each under its handle. -/
def Owns (c : NmqttClient) (s : Statics) (client : ClientId) : Prop :=
  ∀ handle socket, c.sockets.lookup handle = some socket →
    s.handles[socket]? = some handle ∧ s.opened[socket]? = some client

theorem Owns.later {t : Statics} (owns : c.Owns s client) (later : Statics.Later s t) :
    c.Owns t client := by
  intro handle socket found
  obtain ⟨under, mine⟩ := owns handle socket found
  exact ⟨getElem?_grown later.handles under, getElem?_grown later.opened mine⟩

/-- A new socket is entered under the handle that it is opened with. -/
theorem Owns.connected (owns : c.Owns s client) (routed : s.Routed) (data : Nat)
    (start : ListenerStart) (sockets : c'.sockets = insertNew c.sockets c.lastHandle s.opened.length) :
    c'.Owns (s.connected c client data start) client := by
  intro handle socket found
  rw [sockets] at found
  obtain old | ⟨-, rfl, rfl⟩ := lookup_insertNew_cases found
  · exact owns.later (s.later_connected c client data start) handle socket old
  · rw [Statics.connected_handles, Statics.connected_opened]
    refine ⟨?_, List.getElem?_concat_length⟩
    rw [← routed.count, ← s.handles_length]
    exact List.getElem?_concat_length

end NmqttClient

/-! ### Runs -/

namespace Process
variable {p q : Process}

structure Routed (p : Process) : Prop where
  statics : p.statics.Routed
  owns : ∀ (client : ClientId) (c : NmqttClient), p.clients[client]? = some c → c.Owns p.statics client

theorem routed_new (count : Nat) : (new count).Routed := by
  refine ⟨Statics.routed_new, ?_⟩
  intro client c here
  obtain rfl : c = .new := List.eq_of_mem_replicate (List.mem_of_getElem? here)
  exact nofun

theorem Routed.step {l : Invocation} (routed : p.Routed) (stepped : p.step l = some q) :
    q.Routed ∧ Statics.Later p.statics q.statics := by
  obtain ⟨c, c', s', answer, here, invoked, rfl⟩ := step_cases stepped
  have own := routed.owns l.client c here
  obtain ⟨kept, sockets⟩ | ⟨⟨data, start, rfl⟩, sockets⟩ := NmqttClient.invoke_tables invoked
  · refine ⟨⟨routed.statics.kept kept, ?_⟩, kept.later⟩
    intro client d there
    rw [getElem?_set_known here] at there
    split at there
    next same =>
      obtain rfl := Option.some_inj.mp there
      rw [same]
      exact fun handle socket found => own.later kept.later handle socket (sockets handle socket found)
    next => exact (routed.owns client d there).later kept.later
  · have later := p.statics.later_connected c l.client data start
    refine ⟨⟨routed.statics.connected c l.client data start, ?_⟩, later⟩
    intro client d there
    rw [getElem?_set_known here] at there
    split at there
    next same =>
      obtain rfl := Option.some_inj.mp there
      rw [same]
      exact own.connected routed.statics data start sockets
    next => exact (routed.owns client d there).later later

theorem Routed.run {calls : List Invocation} (routed : p.Routed)
    (run : replay Process.step p calls = some q) :
    q.Routed ∧ Statics.Later p.statics q.statics := by
  have first : p.Routed ∧ Statics.Later p.statics p.statics := ⟨routed, .refl _⟩
  apply @replay_invariant _ _ _ (fun t => t.Routed ∧ Statics.Later p.statics t.statics) _ _ _ _ first run
  intro t l u ⟨before, later⟩ stepped
  obtain ⟨after, more⟩ := before.step stepped
  exact ⟨after, later.trans more⟩

/-- The entry was made by the call that opened its socket, with the message handler that the client
had set by then. -/
def Origin (count : Nat) (calls : List Invocation) (ns : NymphSocket) : Prop :=
  ∃ front l back r r' c, calls = front ++ l :: back ∧ replay Process.step (new count) front = some r ∧
    r.step l = some r' ∧ r.statics.opened.length = ns.socket ∧
    r'.statics.opened.length = ns.socket + 1 ∧ l.client = ns.connackHandler ∧
    r.clients[l.client]? = some c ∧ ns.handler = c.messageHandler

theorem Origin.append {count : Nat} {calls : List Invocation} {ns : NymphSocket}
    (origin : Origin count calls ns) (last : Invocation) : Origin count (calls ++ [last]) ns := by
  obtain ⟨front, l, back, r, r', c, rfl, rest⟩ := origin
  exact ⟨front, l, back ++ [last], r, r', c, by rw [List.append_assoc]; rfl, rest⟩

theorem origins {count : Nat} {calls : List Invocation} {p : Process}
    (run : replay Process.step (new count) calls = some p) {handle : BitVec 32} {ns : NymphSocket}
    (found : p.statics.getSocket handle = some ns) : Origin count calls ns := by
  induction calls using List.reverseRecOn generalizing p handle ns with
  | nil =>
    cases run
    cases found
  | append_singleton calls l ih =>
    rw [replay_append] at run
    obtain ⟨r, before, last⟩ := Option.bind_eq_some_iff.mp run
    obtain ⟨_, stepped, ⟨⟩⟩ := Option.bind_eq_some_iff.mp last
    obtain ⟨c, c', s', answer, here, invoked, rfl⟩ := step_cases stepped
    rcases NmqttClient.invoke_tables invoked with ⟨kept, -⟩ | ⟨⟨data, start, rfl⟩, -⟩
    · exact (ih before (kept.getSocket handle ▸ found)).append l
    · have found : (r.statics.connected c l.client data start).getSocket handle = some ns := found
      rw [Statics.connected_getSocket] at found
      rcases Statics.register_getSocket_cases found with old | ⟨-, rfl, rfl⟩
      · exact (ih before old).append l
      · refine ⟨calls, l, [], r, _, c, rfl, before, stepped, rfl, ?_, rfl, here, rfl⟩
        rw [Statics.connected_opened, List.length_append, List.length_singleton]
        rfl

/-- In every run the packets that a listener reads go to the client that opened its socket, which
is the first socket of its handle, and its messages to the handler that this client had then; a
socket that is not the first of its handle is read by no listener, then or later, and no entry is
ever replaced. -/
theorem packets_routed {count : Nat} {calls more : List Invocation}
    (run : replay Process.step (new count) calls = some p)
    (later : replay Process.step p more = some q) :
    p.statics.started.length = p.statics.opened.length ∧
      (∀ l ∈ p.statics.started, ∃ ns, p.statics.receiver l = some ns ∧ ns.socket = l.socket ∧
        p.statics.opened[l.socket]? = some ns.connackHandler ∧
        ns.pingrespHandler = ns.connackHandler ∧ Origin count calls ns) ∧
      (∀ (socket : SocketId) handle, p.statics.handles[socket]? = some handle →
        (p.statics.Read socket ↔ handle ∉ p.statics.handles.take socket)) ∧
      (∀ socket < p.statics.opened.length, q.statics.Read socket ↔ p.statics.Read socket) ∧
      ∀ handle ns, p.statics.getSocket handle = some ns → q.statics.getSocket handle = some ns := by
  obtain ⟨⟨routed, -⟩, -⟩ := (routed_new count).run run
  obtain ⟨⟨routed', -⟩, grown⟩ := Routed.run ((routed_new count).run run).1 later
  refine ⟨routed.count, ?_, ?_, fun socket opened => grown.read_iff routed routed' opened, grown.entries⟩
  · intro l started
    have present : l.nymphSocket ∈ p.statics.connections :=
      (routed.known _).mpr (List.mem_map_of_mem started)
    obtain ⟨ns, found⟩ := Option.isSome_iff_exists.mp (AList.lookup_isSome.mpr present)
    have found : p.statics.getSocket l.nymphSocket = some ns := found
    obtain ⟨under, socket, owner, both⟩ := routed.entry _ ns found
    have same : ns.socket = l.socket := socket.trans (routed.reads l started).symm
    refine ⟨ns, ?_, same, same ▸ owner, both, origins run found⟩
    rw [Statics.receiver, found]
    change p.statics.getSocket ns.handle = some ns
    rw [under, found]
  · intro socket handle opened
    rw [routed.read_iff opened, Statics.first_iff opened]

/-- Of two clients that both take the handle 0, the socket of the second is not read. -/
theorem packets_routed_second :
    let calls : List Invocation := [⟨0, 0, .connect 0 ⟨.opened, .ready, .complete, true⟩⟩,
      ⟨1, 0, .connect 0 ⟨.opened, .ready, .complete, true⟩⟩]
    ∃ p, replay Process.step (new 2) calls = some p ∧ p.statics.opened = [0, 1] ∧
      ¬p.statics.Read 1 := by
  intro calls
  refine ⟨_, rfl, rfl, fun read => ?_⟩
  have first := ((@packets_routed _ _ 2 calls [] rfl rfl).2.2.1 1 0 rfl).mp read
  revert first
  decide

/-- A call of `disconnect` that returns true closes a socket that the client has opened, and tells
at most one listener to stop: one that reads the first socket of the handle, which is the closed one
exactly if that is read at all. -/
theorem disconnect_stops {count : Nat} {calls : List Invocation} {l : Invocation} {c : NmqttClient}
    {handle : BitVec 32} {sending : Sending} {closing : Closing}
    (run : replay Process.step (new count) calls = some p) (stepped : p.step l = some q)
    (called : l.call = .disconnect handle sending closing)
    (closed : q.answer.exit = .returned true) (here : p.clients[l.client]? = some c) :
    ∃ socket, c.sockets.lookup handle = some socket ∧ p.statics.handles[socket]? = some handle ∧
      p.statics.opened[socket]? = some l.client ∧
      match p.statics.listeners.lookup handle with
      | none => q.statics.started = p.statics.started
      | some listener => ∃ r, p.statics.started[listener]? = some r ∧ r.nymphSocket = handle ∧
          q.statics.started = p.statics.started.modify listener (fun r => { r with listen := false }) ∧
          r.socket = p.statics.handles.idxOf handle ∧ (r.socket = socket ↔ p.statics.Read socket) := by
  obtain ⟨⟨routed, owns⟩, -⟩ := (routed_new count).run run
  obtain ⟨c₁, c', s', answer, here₁, invoked, rfl⟩ := step_cases stepped
  obtain rfl : c₁ = c := Option.some_inj.mp (here₁.symm.trans here)
  rw [called] at invoked
  obtain ⟨socket, semaphore, found, left⟩ := NmqttClient.disconnect_true invoked closed
  obtain ⟨under, mine⟩ := owns l.client c₁ here handle socket found
  refine ⟨socket, found, under, mine, ?_⟩
  have started : s'.started = match p.statics.listeners.lookup handle with
      | none => p.statics.started
      | some listener => p.statics.started.modify listener fun r => { r with listen := false } := by
    rw [left, Statics.removeConnection_started]
    rfl
  cases listed : p.statics.listeners.lookup handle with
  | none =>
    rw [listed] at started
    exact started
  | some listener =>
    rw [listed] at started
    have entered := routed.listed handle listener listed
    rw [Statics.handles, List.getElem?_map] at entered
    obtain ⟨r, there, same⟩ := Option.map_eq_some_iff.mp entered
    have first := routed.reads r (List.mem_of_getElem? there)
    rw [same] at first
    refine ⟨r, there, same, started, first, ?_⟩
    rw [first, routed.read_iff under]

/-- The second client closes its socket, and it is the first one's listener that is told to stop. -/
theorem disconnect_stops_other :
    let calls : List Invocation := [⟨0, 0, .connect 0 ⟨.opened, .ready, .complete, true⟩⟩,
      ⟨1, 0, .connect 0 ⟨.opened, .ready, .complete, true⟩⟩]
    ∃ p q, replay Process.step (new 2) calls = some p ∧
      p.step ⟨1, 0, .disconnect 0 .complete .closed⟩ = some q ∧
      ∃ r, p.statics.started[0]? = some r ∧ r.socket = 0 ∧
        q.statics.started = p.statics.started.modify 0 fun r => { r with listen := false } := by
  intro calls
  refine ⟨_, _, rfl, rfl, ?_⟩
  obtain ⟨socket, -, -, -, stops⟩ := @disconnect_stops _ _ 2 calls
    ⟨1, 0, .disconnect 0 .complete .closed⟩ _ 0 .complete .closed rfl rfl rfl rfl rfl
  obtain ⟨r, there, -, stopped, first, -⟩ := stops
  exact ⟨r, there, first, stopped⟩

end Process
end NymphMqtt.Runtime
