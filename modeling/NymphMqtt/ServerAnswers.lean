import NymphMqtt.Server

/-! What the workers find under the handle of a request, and where the answers go. -/

namespace NymphMqtt
open NymphMqtt.Library.Transition

namespace NmqttServerRequest

/-- A lookup whose result will be used is still ahead. -/
def looksUp (r : NmqttServerRequest) : Bool :=
  match r.step with
  | .queued | .process _ => (handlerOf r.msg.command).isSome
  | .handler _ => true
  | .sendMessage _ _ | .finished => false

/-- The entry that a handler is about to be called through, or that `sendMessage` is about
to use, is not null. -/
def Present (r : NmqttServerRequest) : Prop :=
  match r.step with
  | .process clientSocket => (handlerOf r.msg.command).isSome = true → clientSocket.isSome = true
  | .sendMessage _ clientSocket => clientSocket.isSome = true
  | .queued | .handler _ | .finished => True

instance (r : NmqttServerRequest) : Decidable r.Present :=
  match r with
  | ⟨_, _, _, .process clientSocket⟩ => inferInstanceAs (Decidable (_ → clientSocket.isSome = true))
  | ⟨_, _, _, .sendMessage _ clientSocket⟩ => inferInstanceAs (Decidable (clientSocket.isSome = true))
  | ⟨_, _, _, .queued⟩ | ⟨_, _, _, .handler _⟩ | ⟨_, _, _, .finished⟩ =>
      inferInstanceAs (Decidable True)

/-- The pointer that a worker is still to use. -/
def pointer (r : NmqttServerRequest) : Option EntryPointer :=
  match r.step with
  | .process clientSocket => if (handlerOf r.msg.command).isSome then clientSocket else none
  | .sendMessage _ clientSocket => clientSocket
  | .queued | .handler _ | .finished => none

section Advance
variable {d : NmqttServer} {outcome : Outcome} {r r' : NmqttServerRequest}
  {sent failed : List Response} (advance : Advance d r outcome r' sent failed)
include advance

theorem Advance.same : r'.session = r.session ∧ r'.key = r.key := by
  cases advance <;> exact ⟨rfl, rfl⟩

theorem Advance.looksUp (later : r'.looksUp = true) : r.looksUp = true := by
  cases advance with
  | lookUp at_ =>
    rw [NmqttServerRequest.looksUp, at_]
    exact later
  | call at_ command => rw [NmqttServerRequest.looksUp, at_, command, Option.isSome_some]
  | strayCall at_ command => rw [NmqttServerRequest.looksUp, at_, command, Option.isSome_some]
  | _ => cases later

theorem Advance.present
    (found : r.looksUp = true → (d.connections.getSocket r.key).isSome = true) : r'.Present := by
  cases advance with
  | lookUp at_ =>
    intro handled
    rw [EntryPointer.getSocket_isSome]
    apply found
    rw [NmqttServerRequest.looksUp, at_]
    exact handled
  | lookUpAgain at_ =>
    change (EntryPointer.getSocket d.connections r.key).isSome = true
    rw [EntryPointer.getSocket_isSome]
    apply found
    rw [NmqttServerRequest.looksUp, at_]
  | _ => trivial

/-- A pointer is still to be used just after its lookup. -/
theorem Advance.pointer {p : EntryPointer} (later : r'.pointer = some p) :
    r.looksUp = true ∧ EntryPointer.getSocket d.connections r.key = some p := by
  cases advance with
  | lookUp at_ =>
    have handled : (if (handlerOf r.msg.command).isSome then
        EntryPointer.getSocket d.connections r.key else none) = some p := later
    rw [Option.ite_none_right_eq_some] at handled
    refine ⟨?_, handled.2⟩
    rw [NmqttServerRequest.looksUp, at_]
    exact handled.1
  | lookUpAgain at_ =>
    refine ⟨?_, later⟩
    rw [NmqttServerRequest.looksUp, at_]
  | _ => cases later

end Advance

end NmqttServerRequest

namespace NmqttServer

/-- What is true of the requests is true with one of them replaced. -/
theorem forall_request_set {requests : List NmqttServerRequest} {P : NmqttServerRequest → Prop}
    {i : Nat} {r' : NmqttServerRequest} (all : ∀ r ∈ requests, P r) (new : P r') :
    ∀ r ∈ requests.set i r', P r := by
  intro r changed
  cases List.mem_or_eq_of_mem_set changed with
  | inl old => exact all r old
  | inr same => exact same ▸ new

/-- And with one more at the end. -/
theorem forall_request_append {requests : List NmqttServerRequest} {P : NmqttServerRequest → Prop}
    {r' : NmqttServerRequest} (all : ∀ r ∈ requests, P r) (new : P r') :
    ∀ r ∈ requests ++ [r'], P r :=
  List.forall_mem_append.mpr ⟨all, List.forall_mem_singleton.mpr new⟩

/-! ### Present entries -/

/-- The handles of registered sessions are in the map, differ, and do not wait for reuse. -/
structure Registered (d : NmqttServer) : Prop where
  entry : ∀ i handle, d.Holds i handle → (d.connections.getSocket handle).isSome = true
  alone : ∀ i j handle, d.Holds i handle → d.Holds j handle → i = j
  unused : ∀ i handle, d.Holds i handle → handle ∉ d.connections.freeHandles
  freeOnce : d.connections.freeHandles.Nodup

namespace Registered
variable {d d' : NmqttServer} (registered : d.Registered)
include registered

theorem same (holds : ∀ j handle, d'.Holds j handle ↔ d.Holds j handle)
    (connections : d'.connections = d.connections) : d'.Registered := by
  obtain ⟨entry, alone, unused, freeOnce⟩ := registered
  simp only [← holds, ← connections] at entry alone unused freeOnce
  exact ⟨entry, alone, unused, freeOnce⟩

/-- The handle that is given out next is free, unless the counter has come round to it. -/
theorem nextFree
    (fresh : d.connections.freeHandles = [] → ¬d.Held d.connections.lastHandle) :
    (∀ i, ¬d.Holds i d.connections.nextHandle) ∧
      d.connections.nextHandle ∉ d.connections.freeHandles.tail := by
  unfold NmqttClientConnections.nextHandle
  have unused := registered.unused
  have freeOnce := registered.freeOnce
  cases free : d.connections.freeHandles with
  | nil => exact ⟨fun i holds => fresh free holds.held, List.not_mem_nil⟩
  | cons front rest =>
    rw [free] at unused freeOnce
    exact ⟨fun i holds => unused i front holds List.mem_cons_self, (List.nodup_cons.mp freeOnce).1⟩

theorem accept (fresh : d.connections.freeHandles = [] → ¬d.Held d.connections.lastHandle)
    (holds : ∀ j handle, d'.Holds j handle ↔
      d.Holds j handle ∨ j = d.sessions.length ∧ handle = d.connections.nextHandle)
    (connections : d'.connections =
      (d.connections.addSocket ⟨some d.sessions.length, none, none⟩).2) : d'.Registered := by
  obtain ⟨unheld, once⟩ := registered.nextFree fresh
  have free : d'.connections.freeHandles = d.connections.freeHandles.tail := by
    rw [connections, NmqttClientConnections.addSocket_freeHandles]
  constructor
  · intro i handle holder
    rw [connections]
    by_cases next : handle = d.connections.nextHandle
    · rw [next, NmqttClientConnections.getSocket_addSocket_self, Option.isSome_some]
    · rw [NmqttClientConnections.getSocket_addSocket_ne _ _ _ next]
      rcases (holds i handle).mp holder with old | ⟨-, new⟩
      · exact registered.entry i handle old
      · exact absurd new next
  · intro i j handle first second
    rcases (holds i handle).mp first with old | ⟨i_eq, new⟩
    · rcases (holds j handle).mp second with old' | ⟨-, rfl⟩
      · exact registered.alone i j handle old old'
      · exact absurd old (unheld i)
    · rcases (holds j handle).mp second with old' | ⟨j_eq, -⟩
      · subst new
        exact absurd old' (unheld j)
      · exact i_eq.trans j_eq.symm
  · intro i handle holder member
    rw [free] at member
    rcases (holds i handle).mp holder with old | ⟨-, rfl⟩
    · exact registered.unused i handle old (List.mem_of_mem_tail member)
    · exact once member
  · rw [free]
    exact registered.freeOnce.tail

theorem leave {i : SessionId} {handle : BitVec 64} (leaver : d.Holds i handle)
    (holds : ∀ j handle, d'.Holds j handle ↔ j ≠ i ∧ d.Holds j handle)
    (connections : d'.connections = d.connections.removeSocket handle) : d'.Registered := by
  have others : ∀ j k, d'.Holds j k → d.Holds j k ∧ k ≠ handle := by
    intro j k holder
    obtain ⟨other, old⟩ := (holds j k).mp holder
    refine ⟨old, ?_⟩
    rintro rfl
    exact other (registered.alone j i k old leaver)
  have free : d'.connections.freeHandles = d.connections.freeHandles ++ [handle] := by
    rw [connections,
      NmqttClientConnections.removeSocket_freeHandles _ _ (registered.entry i handle leaver)]
  constructor
  · intro j k holder
    obtain ⟨old, ne⟩ := others j k holder
    rw [connections, NmqttClientConnections.getSocket_removeSocket_ne _ _ ne]
    exact registered.entry j k old
  · intro j j' k first second
    exact registered.alone j j' k (others j k first).1 (others j' k second).1
  · intro j k holder member
    obtain ⟨old, ne⟩ := others j k holder
    rw [free, List.mem_append, List.mem_singleton] at member
    rcases member with waiting | last
    · exact registered.unused j k old waiting
    · exact ne last
  · rw [free, List.nodup_append]
    refine ⟨registered.freeOnce, List.nodup_singleton _, fun k waiting k' last => ?_⟩
    rw [List.mem_singleton] at last
    subst last
    rintro rfl
    exact registered.unused i k leaver waiting

end Registered

/-- A handled request is queued only if some registered session has the handle it carries,
no session leaves while such a request still has a lookup of its handle ahead, and
the counter does not come round to a handle in use. -/
def Answerable (d : NmqttServer) : Action → Prop
  | .accept => d.connections.freeHandles = [] → ¬d.Held d.connections.lastHandle
  | .receive i msg => (NmqttServerRequest.handlerOf msg.command).isSome = true →
      ∀ s ∈ d.sessions[i]?, d.Held (NmqttServerRequest.setMessage i s.handle msg).key
  | .leave i => ∀ r ∈ d.requests, r.looksUp = true → ¬d.Holds i r.key
  | .fail _ | .proceed _ | .sendFails _ | .stray _ _ => True

/-- A session whose handle is an `int` may queue what it likes. -/
theorem answerable_receive {d : NmqttServer} {i : SessionId} {s : NmqttSession}
    (known : d.sessions[i]? = some s) (registered : s.registered = true)
    (small : s.handle.toNat < 2 ^ 31) (msg : NmqttMessage) : d.Answerable (.receive i msg) := by
  intro _ s' known'
  cases known.symm.trans known'
  rw [NmqttServerRequest.key_setMessage i msg small]
  exact Holds.held ⟨s, known, registered, rfl⟩

instance (d : NmqttServer) (a : Action) : Decidable (d.Answerable a) :=
  match a with
  | .accept => inferInstanceAs (Decidable (_ = [] → _))
  | .receive _ _ => inferInstanceAs (Decidable (_ → ∀ s ∈ d.sessions[_]?, _))
  | .leave _ => inferInstanceAs (Decidable (∀ r ∈ d.requests, _))
  | .fail _ | .proceed _ | .sendFails _ | .stray _ _ => inferInstanceAs (Decidable True)

/-- What keeps the entries present along a run. -/
structure Answered (d : NmqttServer) : Prop where
  registered : d.Registered
  served : ∀ r ∈ d.requests, r.looksUp = true → ∃ i, d.Holds i r.key
  present : ∀ r ∈ d.requests, r.Present

theorem answered_init : init.Answered where
  registered :=
    { entry := fun _ _ ⟨_, known, _⟩ => nomatch known
      alone := fun _ _ _ ⟨_, known, _⟩ => nomatch known
      unused := fun _ _ ⟨_, known, _⟩ => nomatch known
      freeOnce := List.nodup_nil }
  served := fun _ member => nomatch member
  present := fun _ member => nomatch member

theorem Answered.step {d d' : NmqttServer} {a : Action} (answered : d.Answered)
    (answerable : d.Answerable a) (change : Change d d' a) : d'.Answered := by
  obtain ⟨registered, served, present⟩ := answered
  cases change with
  | accept holds alive connections requests sent =>
    refine ⟨registered.accept answerable holds connections, ?_, by rwa [requests]⟩
    rw [requests]
    intro r member ahead
    obtain ⟨i, holder⟩ := served r member ahead
    exact ⟨i, (holds i r.key).mpr (.inl holder)⟩
  | receive holder listening holds alive connections requests sent =>
    refine ⟨registered.same holds connections, ?_, ?_⟩
    · rw [requests]
      simp only [holds]
      apply forall_request_append served
      intro ahead
      obtain ⟨s, known, -, rfl⟩ := holder
      obtain ⟨i, -, keeper⟩ := answerable ahead s known
      exact ⟨i, keeper⟩
    · rw [requests]
      exact forall_request_append present trivial
  | leave leaver holds alive connections requests sent =>
    refine ⟨registered.leave leaver holds connections, ?_, by rwa [requests]⟩
    rw [requests]
    intro r member ahead
    obtain ⟨i, holder⟩ := served r member ahead
    refine ⟨i, (holds i r.key).mpr ⟨?_, holder⟩⟩
    intro itself
    exact answerable r member ahead (itself ▸ holder)
  | fail holds alive connections requests sent =>
    refine ⟨registered.same holds connections, ?_, by rwa [requests]⟩
    simpa only [requests, holds] using served
  | @proceed _ i outcome r r' responses failures moves known advanced holds alive connections
      requests sent failed =>
    have member := List.mem_of_getElem? known
    have advance := NmqttServerRequest.advance_cases advanced
    refine ⟨registered.same holds connections, ?_, ?_⟩
    · rw [requests]
      simp only [holds]
      apply forall_request_set served
      intro ahead
      rw [advance.same.2]
      exact served r member (advance.looksUp ahead)
    · rw [requests]
      apply forall_request_set present
      apply advance.present
      intro ahead
      obtain ⟨j, holder⟩ := served r member ahead
      exact registered.entry j r.key holder

/-- Under these conditions no worker acts on a null entry. -/
theorem lookups_present {d : NmqttServer} (run : Run step Answerable init d) :
    ∀ r ∈ d.requests, r.Present := by
  apply Answered.present
  apply run.invariant
  · exact answered_init
  · intro t a u answered answerable stepped
    exact answered.step answerable (step_change stepped)

/-- A PINGREQ whose session stays until it is answered. -/
theorem lookups_present_pingreq : ∃ d : NmqttServer, d.sent = [⟨0, 0, .pingresp⟩] ∧
    ∀ r ∈ d.requests, r.Present := by
  have replayed : ∃ d, replay (guarded step Answerable) init
      [.accept, .receive 0 (NmqttMessage.ofType default .pingreq), .proceed 0, .proceed 0, .proceed 0,
        .proceed 0, .leave 0] = some d ∧ d.sent = [⟨0, 0, .pingresp⟩] := by
    refine ⟨_, rfl, ?_⟩
    decide
  obtain ⟨d, replayed, sent⟩ := replayed
  exact ⟨d, sent, lookups_present (run_of_replay replayed)⟩

/-- A client sends PINGREQ and closes at once: the worker comes too late. -/
theorem closed_session_null : ∃ d, replay step init
    [.accept, .receive 0 (NmqttMessage.ofType default .pingreq), .leave 0, .proceed 0] = some d ∧
      ∃ r ∈ d.requests, ¬r.Present := by
  refine ⟨_, rfl, ?_⟩
  decide

/-! ### Own sockets -/

/-- `addSocket` does not give out a handle that a handled request of an earlier session
still carries, and none is queued while another registered session has the handle it
carries. No session ends while a worker is still to use a pointer that it looked up under the
session's handle; and with an exception, which leaves the entry there, none ends before that
lookup either. -/
def Exclusive (d : NmqttServer) : Action → Prop
  | .accept => ∀ r ∈ d.requests, r.looksUp = true → r.key ≠ d.connections.nextHandle
  | .receive i msg => (NmqttServerRequest.handlerOf msg.command).isSome = true →
      ∀ s ∈ d.sessions[i]?, ∀ j < d.sessions.length,
        d.Holds j (NmqttServerRequest.setMessage i s.handle msg).key → j = i
  | .leave i => ∀ r ∈ d.requests, r.pointer.isSome = true → ¬d.Holds i r.key
  | .fail i => ∀ r ∈ d.requests, r.looksUp = true ∨ r.pointer.isSome = true → ¬d.Holds i r.key
  | .proceed _ | .sendFails _ | .stray _ _ => True

instance (d : NmqttServer) (a : Action) : Decidable (d.Exclusive a) :=
  match a with
  | .accept => inferInstanceAs (Decidable (∀ r ∈ d.requests, _))
  | .receive _ _ => inferInstanceAs (Decidable (_ → ∀ s ∈ d.sessions[_]?, _))
  | .leave _ => inferInstanceAs (Decidable (∀ r ∈ d.requests, _ → _))
  | .fail _ => inferInstanceAs (Decidable (∀ r ∈ d.requests, _ ∨ _ → _))
  | .proceed _ | .sendFails _ | .stray _ _ => inferInstanceAs (Decidable True)

/-- The pointer that a worker is still to use leads to an entry, and in `sendMessage` to the socket of
the session that received the packet, which is there. -/
structure Reaches (d : NmqttServer) (r : NmqttServerRequest) (p : EntryPointer) : Prop where
  handle : p.handle = r.key
  there : (p.load d.connections).isSome = true
  own : ∀ handler, r.step = .sendMessage handler (some p) →
    p.socket = some r.session ∧ d.Holds r.session r.key ∧ d.Alive r.session

/-- What sends the answers to the right sockets along a run. -/
structure OwnAnswers (d : NmqttServer) : Prop where
  entry : ∀ handle entry, d.connections.getSocket handle = some entry →
    ∃ i, entry.socket = some i ∧ d.Holds i handle
  alone : ∀ r ∈ d.requests, r.looksUp = true → ∀ i, d.Holds i r.key → i = r.session ∧ d.Alive i
  reaches : ∀ r ∈ d.requests, ∀ p, r.pointer = some p → d.Reaches r p
  sent : ∀ w ∈ d.sent ++ d.failed, w.socket = w.session

theorem ownAnswers_init : init.OwnAnswers where
  entry := fun _ _ known => nomatch known
  alone := fun _ member => nomatch member
  reaches := fun _ member => nomatch member
  sent := fun _ member => nomatch member

section Own
variable {d d' : NmqttServer}

/-- A pointer leads where it led. -/
theorem Reaches.congr {r : NmqttServerRequest} {p : EntryPointer} (reaches : d.Reaches r p)
    (load : p.load d'.connections = p.load d.connections)
    (holds : d.Holds r.session r.key → d'.Holds r.session r.key)
    (alive : d.Alive r.session → d.Holds r.session r.key → d'.Alive r.session) : d'.Reaches r p where
  handle := reaches.handle
  there := load ▸ reaches.there
  own := fun handler at_ =>
    have ⟨own, holder, there⟩ := reaches.own handler at_
    ⟨own, holds holder, alive there holder⟩

theorem load_accept {p : EntryPointer} {connections : NmqttClientConnections SessionId}
    {ns : NmqttClientSocket SessionId} (there : (p.load connections).isSome = true) :
    p.load (connections.addSocket ns).2 = p.load connections := by
  obtain ⟨entry, loaded⟩ := Option.isSome_iff_exists.mp there
  obtain ⟨known, same⟩ := EntryPointer.load_eq_some_iff.mp loaded
  rw [loaded, EntryPointer.load_eq_some_iff]
  refine ⟨?_, same⟩
  by_cases next : p.handle = connections.nextHandle
  · rw [next] at known ⊢
    rw [NmqttClientConnections.getSocket_addSocket_self, known, Option.getD_some]
  · rw [NmqttClientConnections.getSocket_addSocket_ne _ _ _ next, known]

theorem load_leave {p : EntryPointer} {connections : NmqttClientConnections SessionId}
    {handle : BitVec 64} (other : p.handle ≠ handle) :
    p.load (connections.removeSocket handle) = p.load connections := by
  unfold EntryPointer.load
  rw [NmqttClientConnections.getSocket_removeSocket_ne _ _ other]

variable (own : d.OwnAnswers)
include own

/-- A new entry names the session that it was made for. -/
theorem OwnAnswers.entry_accept
    (holds : ∀ j handle, d'.Holds j handle ↔
      d.Holds j handle ∨ j = d.sessions.length ∧ handle = d.connections.nextHandle)
    (connections : d'.connections =
      (d.connections.addSocket ⟨some d.sessions.length, none, none⟩).2) (handle : BitVec 64)
    (entry : NmqttClientSocket SessionId) (known : d'.connections.getSocket handle = some entry) :
    ∃ i, entry.socket = some i ∧ d'.Holds i handle := by
  rw [connections] at known
  by_cases next : handle = d.connections.nextHandle
  · rw [next, NmqttClientConnections.getSocket_addSocket_self, Option.some.injEq] at known
    subst known
    rw [next]
    cases before : d.connections.getSocket d.connections.nextHandle with
    | none => exact ⟨_, rfl, (holds _ _).mpr (.inr ⟨rfl, rfl⟩)⟩
    | some old =>
      obtain ⟨i, socket, holder⟩ := own.entry _ old before
      exact ⟨i, socket, (holds _ _).mpr (.inl holder)⟩
  · rw [NmqttClientConnections.getSocket_addSocket_ne _ _ _ next] at known
    obtain ⟨i, socket, holder⟩ := own.entry handle entry known
    exact ⟨i, socket, (holds _ _).mpr (.inl holder)⟩

/-- A session takes its entry with it and no other. -/
theorem OwnAnswers.entry_leave {i : SessionId} {handle : BitVec 64} (leaver : d.Holds i handle)
    (holds : ∀ j k, d'.Holds j k ↔ j ≠ i ∧ d.Holds j k)
    (connections : d'.connections = d.connections.removeSocket handle) (k : BitVec 64)
    (entry : NmqttClientSocket SessionId) (known : d'.connections.getSocket k = some entry) :
    ∃ j, entry.socket = some j ∧ d'.Holds j k := by
  rw [connections] at known
  by_cases same : k = handle
  · rw [same, NmqttClientConnections.getSocket_removeSocket_self] at known
    cases known
  · rw [NmqttClientConnections.getSocket_removeSocket_ne _ _ same] at known
    obtain ⟨j, socket, holder⟩ := own.entry k entry known
    refine ⟨j, socket, (holds j k).mpr ⟨?_, holder⟩⟩
    intro itself
    subst itself
    obtain ⟨s, at_, -, rfl⟩ := holder
    obtain ⟨s', at', -, rfl⟩ := leaver
    exact same (congrArg _ (Option.some.inj (at_.symm.trans at')))

/-- The lookup of a request that is still to look up finds its own session. -/
theorem OwnAnswers.found {r : NmqttServerRequest} (member : r ∈ d.requests)
    (ahead : r.looksUp = true) {p : EntryPointer}
    (found : EntryPointer.getSocket d.connections r.key = some p) :
    p.handle = r.key ∧ (p.load d.connections).isSome = true ∧
      p.socket = some r.session ∧ d.Holds r.session r.key ∧ d.Alive r.session := by
  obtain ⟨handle, entry, loaded⟩ := EntryPointer.load_getSocket found
  obtain ⟨known, same⟩ := EntryPointer.load_eq_some_iff.mp loaded
  rw [handle] at known
  obtain ⟨i, socket, holder⟩ := own.entry r.key entry known
  obtain ⟨rfl, alive⟩ := own.alone r member ahead i holder
  exact ⟨handle, Option.isSome_iff_exists.mpr ⟨entry, loaded⟩, same ▸ socket, holder, alive⟩

/-- A pointer that a request is still to use after its step was there before, or has just been
looked up. -/
theorem OwnAnswers.reaches_advance {outcome : Outcome} {r r' : NmqttServerRequest}
    {sent failed : List Response} (member : r ∈ d.requests)
    (advance : NmqttServerRequest.Advance d r outcome r' sent failed) {p : EntryPointer}
    (later : r'.pointer = some p) : d.Reaches r' p := by
  obtain ⟨ahead, found⟩ := advance.pointer later
  obtain ⟨handle, there, rest⟩ := own.found member ahead found
  obtain ⟨session, key⟩ := advance.same
  refine ⟨key ▸ handle, there, fun _ _ => ?_⟩
  rw [session, key]
  exact rest

/-- An answer goes, whole or in part, to the session whose packet it answers. -/
theorem OwnAnswers.writes {outcome : Outcome} {r r' : NmqttServerRequest}
    {sent failed : List Response} (member : r ∈ d.requests)
    (advance : NmqttServerRequest.Advance d r outcome r' sent failed) :
    ∀ w ∈ sent ++ failed, w.socket = w.session := by
  have behind {handler : ServerHandler} {p : EntryPointer}
      (at_ : r.step = .sendMessage handler (some p)) : d.socketBehind p = some r.session := by
    have reaches := own.reaches r member p (by rw [NmqttServerRequest.pointer, at_])
    obtain ⟨socket, -, alive⟩ := reaches.own handler at_
    exact socketBehind_eq_some_iff.mpr ⟨reaches.there, socket, alive⟩
  intro w written
  cases advance with
  | send at_ socket | sendFails at_ socket =>
    rw [behind at_] at socket
    cases socket
    obtain rfl := List.mem_singleton.mp written
    rfl
  | straySend at_ gone =>
    rw [behind at_] at gone
    cases gone
  | _ => cases written

theorem OwnAnswers.step {a : Action} (exclusive : d.Exclusive a) (change : Change d d' a) :
    d'.OwnAnswers := by
  cases change with
  | accept holds alive connections requests sent failed =>
    refine ⟨own.entry_accept holds connections, ?_, ?_, by rw [sent, failed]; exact own.sent⟩
    · rw [requests]
      intro r member ahead i holder
      cases (holds i r.key).mp holder with
      | inl old =>
        obtain ⟨same, there⟩ := own.alone r member ahead i old
        exact ⟨same, (alive i).mpr (.inl there)⟩
      | inr taken => exact absurd taken.2 (exclusive r member ahead)
    · rw [requests]
      intro r member p pointer
      have reaches := own.reaches r member p pointer
      refine reaches.congr ?_ (fun holder => (holds _ _).mpr (.inl holder))
        fun there _ => (alive _).mpr (.inl there)
      rw [connections, load_accept reaches.there]
  | receive receiver listening holds alive connections requests sent failed =>
    refine ⟨?_, ?_, ?_, by rw [sent, failed]; exact own.sent⟩
    · simpa only [connections, holds] using own.entry
    · rw [requests]
      simp only [holds, alive]
      apply forall_request_append own.alone
      intro ahead i holder
      obtain ⟨s, known, -, rfl⟩ := receiver
      obtain rfl := exclusive ahead s known i holder.bound holder
      exact ⟨rfl, listening⟩
    · rw [requests]
      apply forall_request_append
      · intro r member p pointer
        refine (own.reaches r member p pointer).congr (by rw [connections]) (holds _ _).mpr
          fun there _ => (alive _).mpr there
      · intro p pointer
        cases pointer
  | leave leaver holds alive connections requests sent failed =>
    refine ⟨own.entry_leave leaver holds connections, ?_, ?_, by rw [sent, failed]; exact own.sent⟩
    · rw [requests]
      intro r member ahead j holder
      obtain ⟨other, old⟩ := (holds j r.key).mp holder
      obtain ⟨same, there⟩ := own.alone r member ahead j old
      exact ⟨same, (alive j).mpr ⟨other, there⟩⟩
    · rw [requests]
      intro r member p pointer
      have reaches := own.reaches r member p pointer
      have away := exclusive r member (Option.isSome_iff_exists.mpr ⟨p, pointer⟩)
      refine reaches.congr ?_ (fun holder => (holds _ _).mpr ⟨?_, holder⟩)
        fun there holder => (alive _).mpr ⟨?_, there⟩
      · rw [connections]
        apply load_leave
        rw [reaches.handle]
        rintro rfl
        exact away leaver
      · rintro rfl
        exact away holder
      · rintro rfl
        exact away holder
  | fail holds alive connections requests sent failed =>
    refine ⟨?_, ?_, ?_, by rw [sent, failed]; exact own.sent⟩
    · simpa only [connections, holds] using own.entry
    · rw [requests]
      simp only [holds]
      intro r member ahead j holder
      obtain ⟨same, there⟩ := own.alone r member ahead j holder
      refine ⟨same, (alive j).mpr ⟨?_, there⟩⟩
      rintro rfl
      exact exclusive r member (.inl ahead) holder
    · rw [requests]
      intro r member p pointer
      refine (own.reaches r member p pointer).congr (by rw [connections]) (holds _ _).mpr
        fun there holder => (alive _).mpr ⟨?_, there⟩
      rintro rfl
      exact exclusive r member (.inr (Option.isSome_iff_exists.mpr ⟨p, pointer⟩)) holder
  | @proceed _ n outcome r r' responses failures moves known advanced holds alive connections
      requests sent failed =>
    have member := List.mem_of_getElem? known
    have advance := NmqttServerRequest.advance_cases advanced
    refine ⟨?_, ?_, ?_, ?_⟩
    · simpa only [connections, holds] using own.entry
    · rw [requests]
      simp only [holds, alive]
      apply forall_request_set own.alone
      rw [advance.same.1, advance.same.2]
      intro ahead i holder
      exact own.alone r member (advance.looksUp ahead) i holder
    · rw [requests]
      have kept {r : NmqttServerRequest} {p : EntryPointer} (reaches : d.Reaches r p) :
          d'.Reaches r p :=
        reaches.congr (by rw [connections]) (holds _ _).mpr fun there _ => (alive _).mpr there
      apply forall_request_set
      · exact fun r member p pointer => kept (own.reaches r member p pointer)
      · exact fun p pointer => kept (own.reaches_advance member advance pointer)
    · have own' := own.writes member advance
      have all := own.sent
      rw [sent, failed]
      simp only [List.forall_mem_append] at own' all ⊢
      exact ⟨⟨all.1, own'.1⟩, all.2, own'.2⟩

/-- What a worker is about to use is there. -/
theorem OwnAnswers.none_stray (i : Nat) (found : NmqttClientSocket SessionId) :
    d.step (.stray i found) = none := by
  by_contra strays
  obtain ⟨d', stepped⟩ := Option.ne_none_iff_exists'.mp strays
  cases step_change stepped with
  | proceed moves known advanced =>
    cases moves
    have member := List.mem_of_getElem? known
    cases NmqttServerRequest.advance_cases advanced with
    | strayCall at_ command gone =>
      have reaches := own.reaches _ member _
        (by rw [NmqttServerRequest.pointer, at_, command]; rfl)
      have there := reaches.there
      rw [gone] at there
      cases there
    | straySend at_ gone =>
      have reaches := own.reaches _ member _ (by rw [NmqttServerRequest.pointer, at_])
      obtain ⟨socket, -, alive⟩ := reaches.own _ at_
      rw [socketBehind_eq_some_iff.mpr ⟨reaches.there, socket, alive⟩] at gone
      cases gone

end Own

/-- Under these conditions every answer goes to the session whose packet it answers, and no worker
uses an entry or a socket that is gone. -/
theorem answers_own {d : NmqttServer} (run : Run step Exclusive init d) :
    (∀ w ∈ d.sent ++ d.failed, w.socket = w.session) ∧
      ∀ i found, d.step (.stray i found) = none := by
  have own : d.OwnAnswers := by
    apply run.invariant
    · exact ownAnswers_init
    · intro t a u own exclusive stepped
      exact own.step exclusive (step_change stepped)
  exact ⟨own.sent, own.none_stray⟩

/-- Two sessions with one handle after the other, and each gets its own answer. -/
theorem answers_own_reused : ∃ d : NmqttServer,
    d.sent = [⟨0, 0, .connack⟩, ⟨1, 1, .pingresp⟩] ∧
      ∀ w ∈ d.sent ++ d.failed, w.socket = w.session := by
  have replayed : ∃ d, replay (guarded step Exclusive) init
      [.accept, .receive 0 (NmqttMessage.ofType default .connect), .proceed 0, .proceed 0, .proceed 0,
        .proceed 0, .leave 0, .accept, .receive 1 (NmqttMessage.ofType default .pingreq), .proceed 1,
        .proceed 1, .proceed 1, .proceed 1] = some d ∧
      d.sent = [⟨0, 0, .connack⟩, ⟨1, 1, .pingresp⟩] := by
    refine ⟨_, rfl, ?_⟩
    decide
  obtain ⟨d, replayed, sent⟩ := replayed
  exact ⟨d, sent, (answers_own (run_of_replay replayed)).1⟩

/-- The handle of a session that left goes to the next one, and so does the answer. -/
theorem reused_handle_misdirects : ∃ d, replay step init
    [.accept, .receive 0 (NmqttMessage.ofType default .pingreq), .leave 0, .accept, .proceed 0,
      .proceed 0, .proceed 0, .proceed 0] = some d ∧
      ⟨0, 1, .pingresp⟩ ∈ d.sent ∧ ¬∀ w ∈ d.sent, w.socket = w.session := by
  refine ⟨_, rfl, ?_⟩
  decide

/-- The session leaves after the second lookup, and its entry is erased: the worker finds the one
that lies there by then. -/
example : ∃ d, replay step init
    [.accept, .receive 0 (NmqttMessage.ofType default .pingreq), .proceed 0, .proceed 0, .proceed 0,
      .leave 0, .accept, .stray 0 ⟨some 1, none, none⟩] = some d ∧ d.sent = [⟨0, 1, .pingresp⟩] :=
  ⟨_, rfl, by decide⟩

end NmqttServer
end NymphMqtt
