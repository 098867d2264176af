import NymphMqtt.Library.Splice
import NymphMqtt.ServerAnswers

/-! How many answers the server writes: for each CONNECT and each PINGREQ that a session hands
over, at most one, and in the end exactly one, which `sendBytes` may fail to send whole, unless a
worker has found a null entry or stands before one that is gone. -/

namespace NymphMqtt
open NymphMqtt.Library NymphMqtt.Library.Transition

/-- What answers are counted under: the session whose packet is answered, and the type. -/
structure Reply where
  session : SessionId
  command : MqttPacketType
  deriving DecidableEq, Repr

def Response.reply (w : Response) : Reply := ⟨w.session, w.command⟩

/-- The answer that a packet of this session asks for, if any. -/
def answerTo (packet : SessionId × NmqttMessage) : List Reply :=
  (NmqttServerRequest.handlerOf packet.2.command).toList.map fun handler =>
    ⟨packet.1, handler.response⟩

/-- Both handlers are there, under their own names, and so is the socket. -/
structure NmqttClientSocket.Furnished (entry : NmqttClientSocket SessionId) : Prop where
  handlers : ∀ member, entry.handler member = some member
  socket : entry.socket.isSome = true

/-! ### One request -/

namespace NmqttServerRequest

def packet (r : NmqttServerRequest) : SessionId × NmqttMessage := (r.session, r.msg)

/-- The answers that are still to be written. -/
def pending (r : NmqttServerRequest) : List Reply :=
  if r.step = .finished then [] else answerTo r.packet

/-- The steps that are still to be taken. -/
def ahead (r : NmqttServerRequest) : Nat :=
  match r.step with
  | .queued => 4
  | .process _ => 3
  | .handler _ => 2
  | .sendMessage _ _ => 1
  | .finished => 0

/-- The handler is the one for the packet. -/
def Sound (r : NmqttServerRequest) : Prop :=
  match r.step with
  | .queued | .finished | .process _ => True
  | .handler handler | .sendMessage handler _ => handlerOf r.msg.command = some handler

/-- The entry that a handler is about to be called through is there, or the entry and the socket that
`sendMessage` is about to use. -/
def InReach (d : NmqttServer) (r : NmqttServerRequest) : Prop :=
  match r.step with
  | .process clientSocket => (handlerOf r.msg.command).isSome = true →
      ∃ p, clientSocket = some p ∧ (p.load d.connections).isSome = true
  | .sendMessage _ clientSocket => ∃ p, clientSocket = some p ∧ (d.socketBehind p).isSome = true
  | .queued | .handler _ | .finished => True

/-- What a step of a request does: it leaves the packet, goes one step ahead, and has an answer
pending no more that it writes, or fails to. -/
structure Advanced (r r' : NmqttServerRequest) (written : List Response) : Prop where
  sound : r'.Sound
  packet : r'.packet = r.packet
  ahead : r'.ahead + 1 ≤ r.ahead
  pending : r.pending = written.map Response.reply ++ r'.pending

section Advance
variable {d : NmqttServer} {outcome : Outcome} {r r' : NmqttServerRequest}
  {sent failed : List Response}

theorem Advance.advanced (sound : r.Sound)
    (furnished : ∀ handle, ∀ entry ∈ d.connections.getSocket handle, entry.Furnished)
    (kept : ∀ found, outcome ≠ .stray found)
    (advanced : r.advance d outcome = some (r', sent, failed)) : Advanced r r' (sent ++ failed) := by
  cases advance_cases advanced with
  | lookUp at_ => exact ⟨trivial, rfl, by simp [ahead, at_], by simp [pending, at_, packet]⟩
  | call at_ command loaded behind =>
    have known := (EntryPointer.load_eq_some_iff.mp loaded).1
    rw [(furnished _ _ known).handlers _, Option.some.injEq] at behind
    subst behind
    exact ⟨command, rfl, by simp [ahead, at_], by simp [pending, at_, packet]⟩
  | ignore at_ command =>
    exact ⟨trivial, rfl, by simp [ahead, at_], by simp [pending, at_, answerTo, packet, command]⟩
  | lookUpAgain at_ =>
    rw [Sound, at_] at sound
    exact ⟨sound, rfl, by simp [ahead, at_], by simp [pending, at_, packet]⟩
  | send at_ | sendFails at_ =>
    rw [Sound, at_] at sound
    refine ⟨trivial, rfl, by simp [ahead, at_], ?_⟩
    simp [pending, at_, answerTo, packet, sound, Response.reply]
  | strayCall | straySend => exact absurd rfl (kept _)

/-- A request that takes no more steps has nothing pending, or stands before what is not there. -/
theorem stopped_iff (sound : r.Sound)
    (furnished : ∀ handle, ∀ entry ∈ d.connections.getSocket handle, entry.Furnished)
    (stopped : r.goOn d = none) : r.InReach d ↔ r.pending = [] := by
  unfold goOn at stopped
  unfold Sound at sound
  unfold InReach pending answerTo
  cases at_ : r.step with
  | queued => simp only [at_, reduceCtorEq] at stopped
  | process clientSocket =>
    simp only [at_] at stopped
    cases command : handlerOf r.msg.command with
    | none => simp only [command, reduceCtorEq] at stopped
    | some member =>
      simp only [command] at stopped
      refine iff_of_false (fun all => ?_) (by simp [packet, command])
      obtain ⟨p, rfl, there⟩ := all rfl
      obtain ⟨entry, loaded⟩ := Option.isSome_iff_exists.mp there
      have known := (EntryPointer.load_eq_some_iff.mp loaded).1
      simp [loaded, (furnished _ _ known).handlers member] at stopped
  | handler handler => simp only [at_, reduceCtorEq] at stopped
  | sendMessage handler clientSocket =>
    simp only [at_] at stopped sound
    refine iff_of_false ?_ (by simp [packet, sound])
    rintro ⟨p, rfl, there⟩
    obtain ⟨socket, behind⟩ := Option.isSome_iff_exists.mp there
    simp [behind] at stopped
  | finished => simp

end Advance
end NmqttServerRequest

/-! ### The server -/

namespace NmqttServer
open NmqttServerRequest

/-- The functions that `init` sets are in every entry, and behind every lookup that was made. -/
structure Furnished (d : NmqttServer) : Prop where
  core : ∀ member, d.connections.coreCS.handler member = some member
  entry : ∀ handle, ∀ entry ∈ d.connections.getSocket handle, entry.Furnished
  requests : ∀ r ∈ d.requests, r.Sound

theorem furnished_init : init.Furnished where
  core := fun member => by cases member <;> rfl
  entry := fun _ _ none => by cases none
  requests := fun _ member => by cases member

theorem takeHandle_coreCS (c : NmqttClientConnections SessionId) :
    c.takeHandle.coreCS = c.coreCS := by
  unfold NmqttClientConnections.takeHandle
  split <;> rfl

theorem removeSocket_coreCS (c : NmqttClientConnections SessionId) (handle : BitVec 64) :
    (c.removeSocket handle).coreCS = c.coreCS := by
  unfold NmqttClientConnections.removeSocket
  split <;> rfl

/-- The worker goes on with something that is gone. -/
def Action.strays : Action → Bool
  | .stray _ _ => true
  | _ => false

/-- A step in which nothing is used that is gone. -/
def keptStep : NmqttServer → Action → Option NmqttServer := guarded step fun _ a => a.strays = false

theorem move_kept {a : Action} {i : Nat} {outcome : Outcome} (kept : a.strays = false)
    (moves : a.move = some (i, outcome)) (found : NmqttClientSocket SessionId) :
    outcome ≠ .stray found := by
  cases a with
  | proceed | sendFails =>
    cases moves
    intro same
    cases same
  | stray => cases kept
  | _ => cases moves

section Steps
variable {d d' : NmqttServer} (furnished : d.Furnished)
include furnished

theorem Furnished.accept : d.accept.Furnished := by
  have core : (d.accept).connections.coreCS = d.connections.coreCS := by
    change (d.connections.addSocket _).2.coreCS = _
    rw [NmqttClientConnections.addSocket_store]
    exact takeHandle_coreCS d.connections
  refine ⟨by rw [core]; exact furnished.core, ?_, furnished.requests⟩
  intro handle entry known
  change (d.connections.addSocket _).2.getSocket handle = some entry at known
  by_cases next : handle = d.connections.nextHandle
  · rw [next, NmqttClientConnections.getSocket_addSocket_self, Option.some.injEq] at known
    cases before : d.connections.getSocket d.connections.nextHandle with
    | none =>
      rw [before, Option.getD_none] at known
      subst known
      refine ⟨fun member => ?_, rfl⟩
      cases member with
      | connectHandler => exact furnished.core .connectHandler
      | pingreqHandler => exact furnished.core .pingreqHandler
    | some old =>
      rw [before, Option.getD_some] at known
      subst known
      exact furnished.entry _ old before
  · rw [NmqttClientConnections.getSocket_addSocket_ne _ _ _ next] at known
    exact furnished.entry handle entry known

theorem Furnished.step {a : Action} (stepped : d.keptStep a = some d') : d'.Furnished := by
  obtain ⟨kept, stepped⟩ := guarded_eq_some_iff.mp stepped
  cases step_change stepped with
  | accept =>
    cases stepped
    exact furnished.accept
  | receive holder listening holds alive connections requests sent =>
    refine ⟨by rw [connections]; exact furnished.core, by rw [connections]; exact furnished.entry, ?_⟩
    rw [requests]
    exact forall_request_append furnished.requests trivial
  | @leave i left leaver holds alive connections requests sent =>
    refine ⟨?_, ?_, by rw [requests]; exact furnished.requests⟩
    · rw [connections, removeSocket_coreCS]
      exact furnished.core
    · rw [connections]
      intro handle entry known
      by_cases same : handle = left
      · rw [same, NmqttClientConnections.getSocket_removeSocket_self] at known
        cases known
      · rw [NmqttClientConnections.getSocket_removeSocket_ne _ _ same] at known
        exact furnished.entry handle entry known
  | fail holds alive connections requests sent =>
    exact ⟨by rw [connections]; exact furnished.core, by rw [connections]; exact furnished.entry,
      by rw [requests]; exact furnished.requests⟩
  | proceed moves known advanced holds alive connections requests sent =>
    refine ⟨by rw [connections]; exact furnished.core, by rw [connections]; exact furnished.entry, ?_⟩
    rw [requests]
    exact forall_request_set furnished.requests
      (Advance.advanced (furnished.requests _ (List.mem_of_getElem? known)) furnished.entry
        (move_kept kept moves) advanced).sound

end Steps

/-! ### Received and sent -/

/-- The packet that a step hands over. -/
def received : Action → List (SessionId × NmqttMessage)
  | .receive session msg => [(session, msg)]
  | _ => []

def proceeds (a : Action) : Bool := a.move.isSome

/-- The answers that `sendBytes` was called for. -/
def written (d : NmqttServer) : List Response := d.sent ++ d.failed

/-- What the answers written and the answers pending come to. -/
structure Tally (d d' : NmqttServer) (a : Action) : Prop where
  packets : d'.requests.map packet = d.requests.map packet ++ received a
  answers : ∀ reply,
    (d'.written.map Response.reply).count reply + (d'.requests.flatMap pending).count reply =
      (d.written.map Response.reply).count reply + (d.requests.flatMap pending).count reply +
        ((received a).flatMap answerTo).count reply
  ahead : (d'.requests.map ahead).sum + (if proceeds a then 1 else 0) ≤
    (d.requests.map ahead).sum + 4 * (received a).length

theorem received_move {a : Action} {m : Nat × Outcome} (moves : a.move = some m) : received a = [] := by
  cases a with
  | proceed | sendFails | stray => rfl
  | _ => cases moves

theorem tally {d d' : NmqttServer} {a : Action} (furnished : d.Furnished)
    (stepped : d.keptStep a = some d') : Tally d d' a := by
  obtain ⟨kept, stepped⟩ := guarded_eq_some_iff.mp stepped
  have same (requests : d'.requests = d.requests) (sent : d'.sent = d.sent)
      (failed : d'.failed = d.failed) (none : received a = []) (waits : proceeds a = false) :
      Tally d d' a := by
    refine ⟨?_, fun reply => ?_, ?_⟩
    · rw [requests, none, List.append_nil]
    · rw [written, written, requests, sent, failed, none]
      rfl
    · rw [requests, none, waits]
      exact Nat.le_refl _
  cases step_change stepped with
  | accept holds alive connections requests sent failed => exact same requests sent failed rfl rfl
  | @receive i msg handle holder listening holds alive connections requests sent failed =>
    refine ⟨?_, fun reply => ?_, ?_⟩
    · rw [requests, List.map_append]
      rfl
    · rw [written, written, requests, sent, failed, List.flatMap_append, List.count_append]
      change _ + (_ + ((answerTo (i, msg) ++ []).count reply)) = _ + _ + (answerTo (i, msg) ++ []).count reply
      omega
    · rw [requests, List.map_append, List.sum_append]
      exact Nat.le_refl _
  | leave leaver holds alive connections requests sent failed => exact same requests sent failed rfl rfl
  | fail holds alive connections requests sent failed => exact same requests sent failed rfl rfl
  | @proceed _ i outcome r r' responses failures moves known moved holds alive connections requests
      sent failed =>
    have advanced := Advance.advanced (furnished.requests r (List.mem_of_getElem? known))
      furnished.entry (move_kept kept moves) moved
    have none := received_move moves
    refine ⟨?_, fun reply => ?_, ?_⟩
    · obtain ⟨front, back, whole, -, replaced⟩ := Splice.split_at known
      rw [requests, replaced, whole, List.map_append, List.map_append, List.map_cons, List.map_cons,
        advanced.packet, none]
      exact (List.append_nil _).symm
    · have moved := Splice.count_flatMap_set reply known r' pending
      rw [advanced.pending, List.count_append] at moved
      rw [written, written, requests, sent, failed, none]
      simp only [List.map_append, List.count_append] at moved ⊢
      change _ = _ + _ + 0
      omega
    · have spent := Splice.sum_map_set known r' ahead
      have fewer := advanced.ahead
      have one : proceeds a = true := by rw [proceeds, moves, Option.isSome_some]
      rw [requests, one, none, if_pos rfl]
      change _ ≤ _ + 4 * 0
      omega

section Replays
variable {labels : List Action} {d : NmqttServer} (replayed : replay keptStep init labels = some d)
include replayed

theorem furnished_replay : d.Furnished :=
  replay_invariant (fun _ _ _ furnished stepped => furnished.step stepped) furnished_init replayed

/-- The packets of the requests are the received ones, in their order. -/
theorem packets_replay : d.requests.map packet = labels.flatMap received :=
  @replay_appends _ _ _ keptStep Furnished (fun s => s.requests.map packet) received
    (fun _ _ _ furnished stepped => furnished.step stepped)
    (fun _ _ _ furnished stepped => (tally furnished stepped).packets) _ _ _ furnished_init replayed

/-- Every answer that was asked for is written or pending, as often as it was asked for. -/
theorem replies_replay : (d.written.map Response.reply ++ d.requests.flatMap pending).Perm
    ((labels.flatMap received).flatMap answerTo) := by
  rw [List.perm_iff_count]
  intro reply
  have total := @replay_tally _ _ keptStep Furnished
    (fun s => (s.written.map Response.reply).count reply + (s.requests.flatMap pending).count reply)
    (fun a => ((received a).flatMap answerTo).count reply)
    (fun _ _ _ furnished stepped => furnished.step stepped)
    (fun _ _ _ furnished stepped => (tally furnished stepped).answers reply) _ _ _ furnished_init
    replayed
  rw [List.count_append, List.flatMap_assoc]
  refine total.trans ?_
  change 0 + 0 + _ = _
  rw [Nat.zero_add, List.count_flatMap]
  rfl

/-- Each packet costs its worker four steps at most. -/
theorem steps_replay : labels.countP proceeds ≤ 4 * (labels.flatMap received).length := by
  have spent := @replay_spends _ _ keptStep Furnished (fun s => (s.requests.map ahead).sum) proceeds
    (fun a => 4 * (received a).length) (fun _ _ _ furnished stepped => furnished.step stepped)
    (fun _ _ _ furnished stepped => (tally furnished stepped).ahead) _ _ _ furnished_init replayed
  have start : (init.requests.map ahead).sum = 0 := rfl
  rw [List.length_flatMap, ← List.sum_map_mul_left]
  omega

end Replays

end NmqttServer
end NymphMqtt
