import NymphMqtt.Server

/-! Sessions from the start of `NmqttSession::run` to its end: what they read, how they are
stopped, and what becomes of their handles. The calls of the store are taken as whole
steps here. -/

namespace NymphMqtt
open NymphMqtt.Library.Transition

/-! ### The end of a turn -/

namespace Receiver
variable (host : Host) (heap : Nat → Heap) (r : Receiver)

/-- The next turn hands `parseMessage` a frame that it runs past the end of. -/
def Overruns : Prop :=
  ∃ b0 b1 rest, r.socket.incoming = b0 :: b1 :: rest ∧ 2 ≤ r.socket.offers.headD 2 ∧
    Verdict.of host .version4 (r.nextFrame host b0 b1 rest) = .overrun

theorem turn_status {r : Receiver} (listening : r.status = .listening) :
    (turn host heap r).status = .listening ∧ ¬r.Overruns host ∨
      (turn host heap r).status = .disconnected ∧ ¬r.Overruns host ∨
      (turn host heap r).status = .threw ∧ r.Overruns host := by
  rcases header_cases r.socket with none | ⟨b0, rest, bytes, cut⟩ | ⟨b0, b1, rest, bytes, whole⟩
  · refine .inr (.inl ⟨by rw [turn_closed host heap r none], ?_⟩)
    rintro ⟨b0, b1, rest, bytes, -⟩
    exact List.cons_ne_nil _ _ (bytes.symm.trans none)
  · refine .inl ⟨by rw [turn_cut host heap r bytes cut, listening], ?_⟩
    rintro ⟨b0', b1, rest', bytes', whole, -⟩
    rw [bytes] at bytes'
    rcases cut with rfl | short
    · cases bytes'
    · omega
  · have status := (turn_frame host heap r bytes whole).2.2.2
    by_cases overrun : Verdict.of host .version4 (r.nextFrame host b0 b1 rest) = .overrun
    · rw [if_pos overrun] at status
      exact .inr (.inr ⟨status, b0, b1, rest, bytes, whole, overrun⟩)
    · rw [if_neg overrun, listening] at status
      refine .inl ⟨status, ?_⟩
      rintro ⟨c0, c1, rest', bytes', -, overrun'⟩
      rw [bytes] at bytes'
      cases bytes'
      exact overrun overrun'

end Receiver

/-! ### One run -/

/-- `returned` and `threw` are the two ways in which a run is over. -/
inductive RunStage where
  | looping
  | cleaningUp
  | returned
  | threw
  deriving DecidableEq, Repr

/-- The locals of `run()`, and the member `listen`. -/
structure SessionRun where
  handle : BitVec 64
  listen : Bool
  receiver : Receiver
  step : RunStage
  deriving DecidableEq, Repr

/-- What a pass of the loop meets: nothing to read, data or a disconnect, or an exception of
a socket operation. -/
inductive Pass where
  | idle
  | data
  | exception
  deriving DecidableEq, Repr

namespace SessionRun

def new (handle : BitVec 64) (headerBuff : Vector Byte 5) (socket : StreamSocket) : SessionRun :=
  ⟨handle, true, ⟨headerBuff, socket, [], [], .listening⟩, .looping⟩

def Ended (s : SessionRun) : Prop := s.step = .returned ∨ s.step = .threw

instance (s : SessionRun) : Decidable s.Ended := inferInstanceAs (Decidable (_ ∨ _))

theorem not_ended {s : SessionRun} (looping : s.step = .looping) : ¬s.Ended := by
  rintro (returned | threw)
  · exact RunStage.noConfusion (looping.symm.trans returned)
  · exact RunStage.noConfusion (looping.symm.trans threw)

def stop (s : SessionRun) : SessionRun := { s with listen := false }

/-- From the test of `listen` to the next one, or out of the loop. -/
def pass (host : Host) (heap : Nat → Heap) (s : SessionRun) (meets : Pass) : SessionRun :=
  if s.listen = false then { s with step := .cleaningUp }
  else match meets with
    | .idle => s
    | .exception => { s with step := .threw }
    | .data =>
        let receiver := Receiver.turn host heap s.receiver
        { s with
          receiver := receiver
          step := match receiver.status with
            | .listening => .looping
            | .spinning => .looping
            | .disconnected => .cleaningUp
            | .threw => .threw }

/-- The pass throws, in a socket operation or in `parseMessage`. -/
def Raises (host : Host) (s : SessionRun) : Pass → Prop
  | .idle => False
  | .data => s.receiver.Overruns host
  | .exception => True

section Pass
variable (host : Host) (heap : Nat → Heap) {s : SessionRun} (looping : s.step = .looping)
  (listening : s.receiver.status = .listening)
include looping listening

/-- A pass ends the run exactly if it throws; what stays in the loop goes on listening. -/
theorem pass_spec (meets : Pass) :
    (s.pass host heap meets).handle = s.handle ∧
      ((s.pass host heap meets).Ended ↔ s.listen = true ∧ s.Raises host meets) ∧
      ((s.pass host heap meets).step = .looping →
        (s.pass host heap meets).receiver.status = .listening) := by
  unfold pass
  cases listen : s.listen with
  | false =>
    rw [if_pos rfl]
    exact ⟨rfl, iff_of_false (by simp [Ended]) (by simp), nofun⟩
  | true =>
    rw [if_neg (by decide)]
    cases meets with
    | idle => exact ⟨rfl, iff_of_false (not_ended looping) And.right, fun _ => listening⟩
    | exception => exact ⟨rfl, iff_of_true (.inr rfl) ⟨rfl, trivial⟩, nofun⟩
    | data =>
      refine ⟨rfl, ?_⟩
      dsimp only
      rcases Receiver.turn_status host heap listening with
        ⟨status, none⟩ | ⟨status, none⟩ | ⟨status, overruns⟩
      · rw [status]
        exact ⟨iff_of_false (by simp [Ended]) fun h => none h.2, fun _ => rfl⟩
      · rw [status]
        exact ⟨iff_of_false (by simp [Ended]) fun h => none h.2, nofun⟩
      · rw [status]
        exact ⟨iff_of_true (.inr rfl) ⟨rfl, overruns⟩, nofun⟩

end Pass
end SessionRun

/-! ### Handles that are not lost -/

namespace NmqttClientConnections
variable {Socket : Type} (c : NmqttClientConnections Socket)

/-- Registered, or waiting for reuse. -/
def Somewhere (handle : BitVec 64) : Prop := handle ∈ c.sockets ∨ handle ∈ c.freeHandles

/-- A key of the table no longer, and waiting for reuse. -/
def Unregistered (handle : BitVec 64) : Prop := handle ∉ c.sockets ∧ handle ∈ c.freeHandles

theorem mem_addSocket (ns : NmqttClientSocket Socket) (handle : BitVec 64) :
    handle ∈ (c.addSocket ns).2.sockets ↔ handle = c.nextHandle ∨ handle ∈ c.sockets := by
  rw [c.addSocket_sockets]
  by_cases used : c.nextHandle ∈ c.sockets
  · rw [if_pos used]
    refine ⟨.inr, fun member => member.elim ?_ id⟩
    rintro rfl
    exact used
  · rw [if_neg used, AList.mem_insert]

theorem addSocket_somewhere (ns : NmqttClientSocket Socket) {handle : BitVec 64}
    (here : c.Somewhere handle) : (c.addSocket ns).2.Somewhere handle := by
  unfold Somewhere
  rw [c.mem_addSocket, c.addSocket_freeHandles]
  rcases here with used | free
  · exact .inl (.inr used)
  · cases waiting : c.freeHandles with
    | nil =>
      rw [waiting] at free
      cases free
    | cons first rest =>
      rw [waiting] at free
      rcases List.mem_cons.mp free with rfl | later
      · exact .inl (.inl (by rw [nextHandle, waiting]))
      · exact .inr later

theorem removeSocket_somewhere (removed : BitVec 64) {handle : BitVec 64}
    (here : c.Somewhere handle) : (c.removeSocket removed).Somewhere handle := by
  unfold removeSocket
  split
  · by_cases same : handle = removed
    · exact .inr (List.mem_append.mpr (.inr (List.mem_singleton.mpr same)))
    · rcases here with used | free
      · exact .inl (AList.mem_erase.mpr ⟨same, used⟩)
      · exact .inr (List.mem_append.mpr (.inl free))
  · exact here

/-- Whoever removed it, a handle that was given out is unregistered after a removal. -/
theorem removeSocket_unregisters {handle : BitVec 64} (here : c.Somewhere handle) :
    (c.removeSocket handle).Unregistered handle := by
  unfold removeSocket
  split
  · exact ⟨fun member => (AList.mem_erase.mp member).1 rfl,
      List.mem_append.mpr (.inr (List.mem_singleton.mpr rfl))⟩
  next absent => exact ⟨absent, here.resolve_left absent⟩

end NmqttClientConnections

/-! ### All sessions -/

structure RunningServer where
  connections : NmqttClientConnections SessionId
  sessions : List SessionRun

namespace RunningServer

def start (core : NmqttClientSocket SessionId) : RunningServer :=
  ⟨NmqttClientConnections.new.setCoreParameters core, []⟩

/-- A connection is accepted and its `run()` adds the socket; `stop()` is called; a pass of a
session's loop; a session behind its loop removes its socket. -/
inductive Event where
  | accept (headerBuff : Vector Byte 5) (socket : StreamSocket)
  | stop (session : SessionId)
  | pass (session : SessionId) (meets : Pass)
  | removeSocket (session : SessionId)
  deriving DecidableEq, Repr

def setSession (r : RunningServer) (i : SessionId) (s : SessionRun) : RunningServer :=
  { r with sessions := r.sessions.set i s }

section Step
variable (host : Host) (heap : SessionId → Nat → Heap)

def step (r : RunningServer) : Event → Option RunningServer
  | .accept headerBuff socket =>
      let (handle, connections) := r.connections.addSocket ⟨some r.sessions.length, none, none⟩
      some ⟨connections, r.sessions ++ [.new handle headerBuff socket]⟩
  | .stop i => do
      let s ← r.sessions[i]?
      some (r.setSession i s.stop)
  | .pass i meets => do
      let s ← r.sessions[i]?
      if s.step = .looping then some (r.setSession i (s.pass host (heap i) meets)) else none
  | .removeSocket i => do
      let s ← r.sessions[i]?
      if s.step = .cleaningUp then
        some { r.setSession i { s with step := .returned } with
          connections := r.connections.removeSocket s.handle }
      else none

/-! ### The property and the condition -/

/-- A run that this step brings to its end leaves its handle unregistered. -/
def EndsUnregistered (r : RunningServer) (_ : Event) (t : RunningServer) : Prop :=
  ∀ (i : SessionId) (s s' : SessionRun), r.sessions[i]? = some s → t.sessions[i]? = some s' →
    ¬s.Ended → s'.Ended → t.connections.Unregistered s'.handle

/-- No pass throws while its session's handle is registered. Unless the counter has wrapped
around, it is: two sessions then have one handle, and one of them can have removed it. -/
def NoneRaises (r : RunningServer) (e : Event) (_ : RunningServer) : Prop :=
  match e with
  | .pass i meets => ∀ s, r.sessions[i]? = some s → s.listen = true → s.Raises host meets →
      s.handle ∉ r.connections.sockets
  | _ => True

/-! ### The invariant -/

/-- Loops that go on are listening, and no handle that was given out is lost. -/
structure Kept (r : RunningServer) : Prop where
  listening : ∀ s ∈ r.sessions, s.step = .looping → s.receiver.status = .listening
  somewhere : ∀ s ∈ r.sessions, r.connections.Somewhere s.handle

theorem kept_start (core : NmqttClientSocket SessionId) : (start core).Kept where
  listening := fun _ member => nomatch member
  somewhere := fun _ member => nomatch member

section Set
variable {r : RunningServer} {i : SessionId} {s s' : SessionRun}
  {connections : NmqttClientConnections SessionId}

theorem Kept.set (kept : r.Kept)
    (listening : s'.step = .looping → s'.receiver.status = .listening)
    (somewhere : connections.Somewhere s'.handle)
    (others : ∀ handle, r.connections.Somewhere handle → connections.Somewhere handle) :
    ({ r.setSession i s' with connections := connections } : RunningServer).Kept where
  listening := by
    intro s member
    rcases List.mem_or_eq_of_mem_set member with old | rfl
    · exact kept.listening s old
    · exact listening
  somewhere := by
    intro s member
    rcases List.mem_or_eq_of_mem_set member with old | rfl
    · exact others s.handle (kept.somewhere s old)
    · exact somewhere

/-- Only the session whose step it is can come to its end. -/
theorem endsUnregistered_set (known : r.sessions[i]? = some s) (e : Event) :
    r.EndsUnregistered e { r.setSession i s' with connections := connections } ↔
      (¬s.Ended → s'.Ended → connections.Unregistered s'.handle) := by
  have bound : i < r.sessions.length := (List.getElem?_eq_some_iff.mp known).1
  constructor
  · intro all
    exact all i s s' known (List.getElem?_set_self bound)
  · intro one j t t' before after running ended
    by_cases same : j = i
    · subst same
      obtain rfl : s = t := Option.some.inj (known.symm.trans before)
      obtain rfl : s' = t' := Option.some.inj ((List.getElem?_set_self bound).symm.trans after)
      exact one running ended
    · have unchanged : (r.sessions.set i s')[j]? = r.sessions[j]? :=
        List.getElem?_set_ne (Ne.symm same)
      obtain rfl : t = t' := Option.some.inj (before.symm.trans (unchanged.symm.trans after))
      exact absurd ended running

end Set

/-! ### Steps and runs -/

section Accept
variable {r : RunningServer} (ns : NmqttClientSocket SessionId) (headerBuff : Vector Byte 5)
  (socket : StreamSocket)

theorem Kept.accept (kept : r.Kept) : (⟨(r.connections.addSocket ns).2,
    r.sessions ++ [.new (r.connections.addSocket ns).1 headerBuff socket]⟩ : RunningServer).Kept where
  listening := by
    intro s member
    rcases List.mem_append.mp member with old | new
    · exact kept.listening s old
    · rw [List.mem_singleton.mp new]
      exact fun _ => rfl
  somewhere := by
    intro s member
    rcases List.mem_append.mp member with old | new
    · exact r.connections.addSocket_somewhere ns (kept.somewhere s old)
    · rw [List.mem_singleton.mp new]
      exact .inl ((r.connections.mem_addSocket ns _).mpr (.inl rfl))

/-- A new session leaves the runs of the others where they are. -/
theorem endsUnregistered_accept (e : Event) (connections : NmqttClientConnections SessionId)
    (new : SessionRun) : r.EndsUnregistered e ⟨connections, r.sessions ++ [new]⟩ := by
  intro i s s' before after running ended
  have old : (r.sessions ++ [new])[i]? = r.sessions[i]? :=
    List.getElem?_append_left (List.getElem?_eq_some_iff.mp before).1
  obtain rfl : s = s' := Option.some.inj (before.symm.trans (old.symm.trans after))
  exact absurd ended running

end Accept

section Sound
variable {r t : RunningServer} {e : Event}

/-- A step keeps what is known of the handles, and ends a run as it should exactly under the
condition. -/
theorem step_spec (kept : r.Kept) (stepped : r.step host heap e = some t) :
    t.Kept ∧ (r.EndsUnregistered e t ↔ r.NoneRaises host e t) := by
  cases e with
  | accept headerBuff socket =>
    cases stepped
    exact ⟨kept.accept _ headerBuff socket,
      iff_of_true (endsUnregistered_accept _ _ _) trivial⟩
  | stop i =>
    obtain ⟨s, known, rest⟩ := Option.bind_eq_some_iff.mp stepped
    cases rest
    have member := List.mem_of_getElem? known
    constructor
    · exact kept.set (kept.listening s member) (kept.somewhere s member) fun _ here => here
    · refine iff_of_true ((endsUnregistered_set known _).mpr ?_) trivial
      exact fun running ended => absurd ended running
  | pass i meets =>
    obtain ⟨s, known, rest⟩ := Option.bind_eq_some_iff.mp stepped
    have member := List.mem_of_getElem? known
    split at rest
    next looping =>
      cases rest
      obtain ⟨handle, ended, listening⟩ := SessionRun.pass_spec host (heap i) looping
        (kept.listening s member looping) meets
      have somewhere := kept.somewhere s member
      have running := SessionRun.not_ended looping
      constructor
      · exact kept.set listening (handle ▸ somewhere) fun _ here => here
      · rw [show r.EndsUnregistered _ _ ↔ _ from endsUnregistered_set known _, ended, handle]
        constructor
        · intro unregistered s' known' listen raises
          obtain rfl : s = s' := Option.some.inj (known.symm.trans known')
          exact (unregistered running ⟨listen, raises⟩).1
        · intro none _ raised
          have absent := none s known raised.1 raised.2
          exact ⟨absent, somewhere.resolve_left absent⟩
    next => cases rest
  | removeSocket i =>
    obtain ⟨s, known, rest⟩ := Option.bind_eq_some_iff.mp stepped
    have member := List.mem_of_getElem? known
    split at rest
    next cleaningUp =>
      cases rest
      have somewhere := kept.somewhere s member
      have unregistered := r.connections.removeSocket_unregisters somewhere
      constructor
      · refine kept.set nofun (.inr unregistered.2) fun handle here => ?_
        exact r.connections.removeSocket_somewhere s.handle here
      · exact iff_of_true ((endsUnregistered_set known _).mpr fun _ _ => unregistered) trivial
    next => cases rest

end Sound

/-- Over any run from the empty store: each session that comes to its end is unregistered
then, if and only if no pass throws while its session's handle is registered. -/
theorem sessions_unregistered_iff (core : NmqttClientSocket SessionId) (events : List Event) :
    Along (step host heap) EndsUnregistered (start core) events ↔
      Along (step host heap) (NoneRaises host) (start core) events :=
  along_congr (fun _ _ _ kept stepped => (step_spec host heap kept stepped).1)
    (fun _ _ _ kept stepped => (step_spec host heap kept stepped).2) (kept_start core) events

end Step

/-- A PUBLISH of remaining length 0 ends the run of the only session, which stays in the
table. -/
theorem emptyPublish_registered :
    let step := step ⟨.le, true⟩ fun _ _ => ⟨default, fun _ => 0⟩
    let events := [.accept #v[0, 0, 0, 0, 0] ⟨[0x30, 0x00], []⟩, .pass 0 .data]
    (∃ t s, replay step (start ⟨none, none, none⟩) events = some t ∧ t.sessions = [s] ∧
      s.step = .threw ∧ s.handle = 0 ∧ s.handle ∈ t.connections.sockets ∧
      t.connections.freeHandles = []) ∧
    ¬Along step EndsUnregistered (start ⟨none, none, none⟩) events := by
  intro step events
  constructor
  · exact ⟨_, _, rfl, rfl, by decide, by decide, by decide, by decide⟩
  · intro along
    have last := (along _ rfl).2 _ rfl
    exact absurd (last.1 0 _ _ rfl rfl (by decide) (by decide)).1 (by decide)

/-! ### The server without its streams -/

/-- A run that is not over counts as listening. -/
def toSession (s : SessionRun) : NmqttSession where
  handle := s.handle
  step := match s.step with
    | .looping => .listening
    | .cleaningUp => .listening
    | .returned => .removed
    | .threw => .threw

def toServer (r : RunningServer) : NmqttServer where
  connections := r.connections
  sessions := r.sessions.map toSession
  requests := []
  sent := []
  failed := []

section Follows
variable {r t : RunningServer} {i : SessionId} {s s' : SessionRun}

theorem toServer_same (known : r.sessions[i]? = some s) (same : toSession s' = toSession s) :
    (r.setSession i s').toServer = r.toServer := by
  have unchanged : (r.sessions.map toSession).set i (toSession s) = r.sessions.map toSession := by
    rw [← List.map_set]
    congr 1
    obtain ⟨bound, rfl⟩ := List.getElem?_eq_some_iff.mp known
    exact List.set_getElem_self bound
  unfold toServer setSession
  rw [List.map_set, same, unchanged]

theorem toServer_session (known : r.sessions[i]? = some s) :
    r.toServer.sessions[i]? = some (toSession s) := by
  change (r.sessions.map toSession)[i]? = _
  rw [List.getElem?_map, known]
  rfl

theorem toSession_looping (looping : s.step = .looping) :
    toSession s = ⟨s.handle, .listening⟩ := by
  unfold toSession
  rw [looping]

/-- A pass leaves the session as it was, for the server, or it throws. -/
theorem toSession_pass (host : Host) (heap : Nat → Heap) (looping : s.step = .looping)
    (meets : Pass) : toSession (s.pass host heap meets) = toSession s ∨
      toSession (s.pass host heap meets) = ⟨s.handle, .threw⟩ := by
  rw [toSession_looping looping]
  unfold SessionRun.pass
  cases s.listen with
  | false => exact .inl rfl
  | true =>
    rw [if_neg (by decide)]
    cases meets with
    | idle => exact .inl (toSession_looping looping)
    | exception => exact .inr rfl
    | data =>
      unfold toSession
      dsimp only
      cases (Receiver.turn host heap s.receiver).status with
      | listening => exact .inl rfl
      | disconnected => exact .inl rfl
      | spinning => exact .inl rfl
      | threw => exact .inr rfl

/-- A step is one of the server, or nothing that it knows of. -/
theorem step_toServer (host : Host) (heap : SessionId → Nat → Heap) (e : Event)
    (stepped : r.step host heap e = some t) :
    t.toServer = r.toServer ∨ ∃ a, r.toServer.step a = some t.toServer := by
  cases e with
  | accept headerBuff socket =>
    cases stepped
    right
    refine ⟨.accept, ?_⟩
    unfold NmqttServer.step NmqttServer.accept toServer
    simp only [List.length_map, List.map_append, List.map_cons, List.map_nil]
    rfl
  | stop i =>
    obtain ⟨s, known, rest⟩ := Option.bind_eq_some_iff.mp stepped
    cases rest
    exact .inl (toServer_same known rfl)
  | pass i meets =>
    obtain ⟨s, known, rest⟩ := Option.bind_eq_some_iff.mp stepped
    split at rest
    next looping =>
      cases rest
      rcases toSession_pass host (heap i) looping meets with same | threw
      · exact .inl (toServer_same known same)
      · right
        refine ⟨.fail i, ?_⟩
        have session := toServer_session known
        rw [toSession_looping looping] at session
        unfold NmqttServer.step NmqttServer.fail
        dsimp only
        rw [session]
        unfold toServer setSession
        rw [List.map_set, threw]
        rfl
    next => cases rest
  | removeSocket i =>
    obtain ⟨s, known, rest⟩ := Option.bind_eq_some_iff.mp stepped
    split at rest
    next cleaningUp =>
      cases rest
      right
      refine ⟨.leave i, ?_⟩
      have session := toServer_session known
      rw [show toSession s = ⟨s.handle, .listening⟩ by unfold toSession; rw [cleaningUp]] at session
      unfold NmqttServer.step NmqttServer.leave
      dsimp only
      rw [session]
      unfold toServer setSession
      rw [List.map_set]
      rfl
    next => cases rest

end Follows

/-- Whatever the sessions read, the server goes through one of its runs. -/
theorem replay_toServer (host : Host) (heap : SessionId → Nat → Heap) {r t : RunningServer}
    {events : List Event} (replayed : replay (step host heap) r events = some t) :
    ∃ actions, replay NmqttServer.step r.toServer actions = some t.toServer :=
  replay_stutter (fun _ e _ stepped => step_toServer host heap e stepped) replayed

end RunningServer
end NymphMqtt
