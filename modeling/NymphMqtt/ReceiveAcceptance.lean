import NymphMqtt.Receive

/-! Which received packets take effect: the receive loops queue requests, and the workers
call handlers for them. -/

namespace NymphMqtt

/-! ### Handlers -/

inductive ServerHandler where
  | connectHandler
  | pingreqHandler
  deriving DecidableEq, Repr

inductive ClientHandler where
  | handler
  | connackHandler
  | pingrespHandler
  deriving DecidableEq, Repr

/-- The handler that `NmqttServerRequest::process` calls. -/
def NmqttServerRequest.handlerOf : MqttPacketType → Option ServerHandler
  | .connect => some .connectHandler
  | .pingreq => some .pingreqHandler
  | _ => none

/-- The handler that `Request::process` calls. -/
def Request.handlerOf : MqttPacketType → Option ClientHandler
  | .publish => some .handler
  | .connack => some .connackHandler
  | .pingresp => some .pingrespHandler
  | _ => none

/-- Both parser calls on the packet returned 1. -/
def Handed.Accepted (h : Handed) : Prop := h.header = 1 ∧ h.parse = 1

instance (h : Handed) : Decidable h.Accepted := inferInstanceAs (Decidable (_ ∧ _))

/-- Of the requests handed over, the ones a worker calls a handler for. -/
def calls {Handler : Type} (handlerOf : MqttPacketType → Option Handler) (handed : List Handed) :
    List (Handler × Handed) :=
  handed.filterMap fun h => (handlerOf h.message.command).map fun handler => (handler, h)

theorem of_mem_calls {Handler : Type} {handlerOf : MqttPacketType → Option Handler}
    {handed : List Handed} {call : Handler × Handed} (mem : call ∈ calls handlerOf handed) :
    call.2 ∈ handed := by
  obtain ⟨h, member, image⟩ := List.mem_filterMap.mp mem
  obtain ⟨handler, -, rfl⟩ := Option.map_eq_some_iff.mp image
  exact member

/-! ### Rejected strings -/

/-- What `parseMessage` answers with -1: a length that disagrees with the second byte, or
a CONNECT with another protocol name or level or with the reserved flag. -/
def Malformed (host : Host) (bytes : List Byte) : Prop :=
  ¬Verdict.WellSized host bytes ∨
    MqttPacketType.ofByte0 (bytes.getD 0 0) = .connect ∧
      let idx := Verdict.bodyStart host bytes
      ((bytes.drop idx).take 6 ≠ NmqttMessage.protMatch ∨
        ¬NmqttMessage.KnownLevel (bytes.getD (idx + 6) 0) ∨
        (bytes.getD (idx + 7) 0).getLsbD 0 = true)

theorem connect_reject_iff (host : Host) (bytes : List Byte) (idx : Nat) :
    Verdict.connect host bytes idx = .reject ↔
      ((bytes.drop idx).take 6 ≠ NmqttMessage.protMatch ∨
        ¬NmqttMessage.KnownLevel (bytes.getD (idx + 6) 0) ∨
        (bytes.getD (idx + 7) 0).getLsbD 0 = true) := by
  unfold Verdict.connect NmqttMessage.KnownLevel
  rw [not_or]
  split
  next name => exact iff_of_true rfl (.inl name)
  next name =>
    split
    next level => exact iff_of_true rfl (.inr (.inl level))
    next level =>
      split
      next reserved => exact iff_of_true rfl (.inr (.inr reserved))
      next reserved =>
        refine iff_of_false ?_ (fun h => h.elim name fun h => h.elim level reserved)
        split <;> decide

theorem publish_ne_reject (bytes : List Byte) (version : MqttProtocolVersion) (idx : Nat) :
    Verdict.publish bytes version idx ≠ .reject := by
  unfold Verdict.publish
  split <;> decide

theorem reject_iff (host : Host) (version : MqttProtocolVersion) (bytes : List Byte) :
    Verdict.of host version bytes = .reject ↔ Malformed host bytes := by
  unfold Verdict.of Malformed
  split
  next sized =>
    cases MqttPacketType.ofByte0 (bytes.getD 0 0) with
    | connect => simp only [connect_reject_iff, sized, not_true_eq_false, false_or, true_and]
    | publish =>
      exact iff_of_false (publish_ne_reject bytes version _)
        (fun h => h.elim (absurd sized) fun h => nomatch h.1)
    | _ =>
      exact iff_of_false (fun h : Verdict.accept = .reject => nomatch h)
        (fun h => h.elim (absurd sized) fun h => nomatch h.1)
  next missized => exact iff_of_true rfl (.inl missized)

namespace Receiver

/-! ### Clean turns -/

/-- Should this turn get both header bytes, then the string made of them is well formed,
and the header decodes unless the parser throws on that string. -/
def CleanTurn (host : Host) (r : Receiver) : Prop :=
  r.status = .listening → ∀ b0 b1 rest, r.socket.incoming = b0 :: b1 :: rest →
    2 ≤ r.socket.offers.headD 2 → ¬Malformed host (r.nextFrame host b0 b1 rest) ∧
      ((r.nextHeader host b0 b1).code = 1 ∨
        Verdict.of host .version4 (r.nextFrame host b0 b1 rest) = .overrun)

section Turns
variable (host : Host) (heap : Nat → Heap)

theorem turn_accepted_iff {r : Receiver} (listening : r.status = .listening) :
    (∀ h ∈ (turn host heap r).handed, h.Accepted) ↔
      (∀ h ∈ r.handed, h.Accepted) ∧ CleanTurn host r := by
  rcases header_cases r.socket with bytes | ⟨b0, rest, bytes, cut⟩ | ⟨b0, b1, rest, bytes, whole⟩
  · rw [turn_closed host heap r bytes]
    constructor
    · intro accepted
      refine ⟨accepted, fun _ b0 b1 rest some => ?_⟩
      rw [bytes] at some
      cases some
    · exact And.left
  · rw [turn_cut host heap r bytes cut]
    constructor
    · intro accepted
      refine ⟨accepted, fun _ b0' b1 rest' some both => ?_⟩
      rw [bytes, List.cons.injEq] at some
      rcases cut with rfl | short
      · cases some.2
      · omega
    · exact And.left
  · obtain ⟨message, handed⟩ := turn_handed host heap r bytes whole
    have clean : CleanTurn host r ↔ ¬Malformed host (r.nextFrame host b0 b1 rest) ∧
        ((r.nextHeader host b0 b1).code = 1 ∨
          Verdict.of host .version4 (r.nextFrame host b0 b1 rest) = .overrun) := by
      constructor
      · intro clean
        exact clean listening b0 b1 rest bytes whole
      · intro here _ b0' b1' rest' some _
        rw [bytes, List.cons.injEq, List.cons.injEq] at some
        obtain ⟨rfl, rfl, rfl⟩ := some
        exact here
    rw [clean, handed, ← reject_iff host .version4]
    cases Verdict.of host .version4 (r.nextFrame host b0 b1 rest) with
    | accept => simp [List.mem_append, or_imp, forall_and, Handed.Accepted, and_right_comm]
    | reject => simp [List.mem_append, or_imp, forall_and, Handed.Accepted]
    | overrun => simp

/-- Over a whole run, only accepted packets are queued exactly when every turn is clean. -/
theorem run_accepted_iff (turns : Nat) (r : Receiver) :
    (∀ h ∈ (run host heap turns r).handed, h.Accepted) ↔
      (∀ h ∈ r.handed, h.Accepted) ∧ ∀ k < turns, CleanTurn host (run host heap k r) := by
  induction turns generalizing r with
  | zero => simp [run]
  | succ turns ih =>
    by_cases listening : r.status = .listening
    · have later : (∀ k < turns + 1, CleanTurn host (run host heap k r)) ↔
          CleanTurn host r ∧ ∀ k < turns, CleanTurn host (run host heap k (turn host heap r)) := by
        constructor
        · intro h
          refine ⟨h 0 (Nat.zero_lt_succ _), fun k lt => ?_⟩
          rw [← run_succ host heap listening]
          exact h (k + 1) (by omega)
        · rintro ⟨first, rest⟩ k lt
          cases k with
          | zero => exact first
          | succ k =>
            rw [run_succ host heap listening]
            exact rest k (by omega)
      rw [run_succ host heap listening, ih, turn_accepted_iff host heap listening, later, and_assoc]
    · have fixed : ∀ k, run host heap k r = r := run_left host heap listening
      rw [fixed]
      constructor
      · intro accepted
        refine ⟨accepted, fun k _ => ?_⟩
        rw [fixed]
        exact fun h => absurd h listening
      · exact And.left

end Turns

/-- Every request handed fixed is for an accepted packet, and so is every handler call. -/
def OnlyAccepted {Handler : Type} (handlerOf : MqttPacketType → Option Handler) (r : Receiver) :
    Prop :=
  (∀ h ∈ r.handed, h.Accepted) ∧ ∀ call ∈ calls handlerOf r.handed, call.2.Accepted

theorem onlyAccepted_iff {Handler : Type} (handlerOf : MqttPacketType → Option Handler)
    (r : Receiver) : OnlyAccepted handlerOf r ↔ ∀ h ∈ r.handed, h.Accepted :=
  ⟨And.left, fun h => ⟨h, fun call mem => h call.2 (of_mem_calls mem)⟩⟩

section Loops
variable (host : Host) (heap : Nat → Heap) (turns : Nat) (headerBuff : Vector Byte 5)
  (socket : StreamSocket)

/-- Only accepted packets take effect on the server and on a client exactly when all the
turns before were clean. -/
theorem loops_onlyAccepted_iff :
    (OnlyAccepted NmqttServerRequest.handlerOf (NmqttSession.run host heap turns headerBuff socket) ↔
      ∀ k < turns, CleanTurn host (NmqttSession.run host heap k headerBuff socket)) ∧
    (OnlyAccepted Request.handlerOf (NmqttClientListener.run host heap turns headerBuff socket) ↔
      ∀ k < turns, CleanTurn host (NmqttClientListener.run host heap k headerBuff socket)) := by
  constructor
  · rw [onlyAccepted_iff, NmqttSession.run, run_accepted_iff]
    exact and_iff_right (fun _ mem => nomatch mem)
  · rw [onlyAccepted_iff, NmqttClientListener.run, run_accepted_iff]
    exact and_iff_right (fun _ mem => nomatch mem)

end Loops

/-- A CONNECT for another protocol is rejected and still reaches the connect handler. -/
theorem wrongProtocol_connects :
    ∃ call ∈ calls NmqttServerRequest.handlerOf
        (NmqttSession.run ⟨.le, true⟩ (fun _ => ⟨default, fun _ => 0⟩) 1 #v[0, 0, 0, 0, 0]
          ⟨[0x10, 0x06, 0x00, 0x04, 0x58, 0x58, 0x58, 0x58], []⟩).handed,
      call.1 = .connectHandler ∧ call.2.parse = -1 := by
  decide

end Receiver

end NymphMqtt
