import NymphMqtt.ClientSettings
import NymphMqtt.Server
import NymphMqtt.Transmission

/-! A client of this library at a server of this library: what becomes of its CONNECT, and of the
answers on their way back. -/

namespace NymphMqtt
open NymphMqtt.Library NymphMqtt.Library.LoggedReader

/-! ### Walking over strings -/

/-- `text` holds so many strings for the parser of CONNECT, which takes the first byte of a
length for all of it: each string has both bytes of its length in `text`. -/
def Walks : (count : Nat) → (text : List Byte) → Prop
  | 0, _ => True
  | count + 1, text => 2 ≤ text.length ∧ Walks count (text.drop (2 + (text.headD 0).toNat))

instance Walks.decidable : (count : Nat) → (text : List Byte) → Decidable (Walks count text)
  | 0, _ => inferInstanceAs (Decidable True)
  | count + 1, text =>
      have := Walks.decidable count (text.drop (2 + (text.headD 0).toNat))
      inferInstanceAs (Decidable (_ ∧ _))

namespace Verdict

theorem widenChar_small (host : Host) (c : Byte) :
    (host.widenChar 16 c).toNat = c.toNat ∨ 128 ≤ (host.widenChar 16 c).toNat ∧ 128 ≤ c.toNat := by
  unfold Host.widenChar
  revert c
  cases host.charSigned <;> decide

/-- In a short packet no length above 127 can be walked over, whatever the sign of a char. -/
theorem skipStrings_iff (host : Host) {bytes : List Byte} (small : bytes.length ≤ 129)
    (count idx : Nat) :
    (skipStrings host bytes count idx).isSome = true ↔ Walks count (bytes.drop idx) := by
  induction count generalizing idx with
  | zero => exact iff_of_true rfl trivial
  | succ count ih =>
    have head : (bytes.drop idx).headD 0 = bytes.getD idx 0 := by
      rw [List.headD_eq_head?_getD, List.head?_drop, List.getD_eq_getElem?_getD]
    rw [skipStrings, Walks, List.length_drop, head, List.drop_drop]
    by_cases inside : idx + 2 ≤ bytes.length
    · rw [if_pos inside, ih, and_iff_right (by omega)]
      obtain same | ⟨wide, large⟩ := widenChar_small host (bytes.getD idx 0)
      · rw [same, Nat.add_assoc]
      · rw [List.drop_of_length_le (by omega), List.drop_of_length_le (by omega)]
    · rw [if_neg inside]
      exact iff_of_false (fun h => by cases h) (fun h => inside (by omega))

/-- The verdict on a short CONNECT whose header is the one that `serialize` puts out. -/
theorem of_connect (host : Host) {flags : Byte} {text : List Byte}
    (reserved : flags.getLsbD 0 = false) (short : 10 + text.length ≤ 127) :
    let body := [0x00, 0x04, 0x4D, 0x51, 0x54, 0x54, 0x04] ++ [flags] ++ [0x00, 0x3C] ++ text
    Verdict.of host .version4 (shortFrame 0x10 body) =
      if Walks (stringCount flags) text then .accept else .overrun := by
  intro body
  have length : body.length = 10 + text.length := by
    simp only [body, List.length_append, List.length_cons, List.length_nil]
  have second : ((shortFrame 0x10 body).getD 1 0).toNat = body.length := by
    change (BitVec.ofNat 8 body.length).toNat = _
    rw [BitVec.toNat_ofNat]
    omega
  have size : (shortFrame 0x10 body).length = 2 + body.length := by
    rw [shortFrame, List.length_cons, List.length_cons]
    omega
  have sized : WellSized host (shortFrame 0x10 body) :=
    (wellSized_small host _ (by omega)).mpr (by omega)
  have start : bodyStart host (shortFrame 0x10 body) = 2 := by
    rw [bodyStart, (packedLength_small host _ (by omega)).1]
  have walk := @skipStrings_iff host (shortFrame 0x10 body) (by omega) (stringCount flags) 12
  change _ ↔ Walks _ text at walk
  have type : MqttPacketType.ofByte0 ((shortFrame 0x10 body).getD 0 0) = .connect :=
    (by decide : MqttPacketType.ofByte0 0x10 = .connect)
  have name : ((shortFrame 0x10 body).drop 2).take 6 = NmqttMessage.protMatch := rfl
  have level : (shortFrame 0x10 body).getD (2 + 6) 0 = 4 := rfl
  have given : (shortFrame 0x10 body).getD (2 + 7) 0 = flags := rfl
  rw [Verdict.of, if_pos sized, type]
  dsimp only
  rw [start, connect, if_neg (not_not.mpr name), if_neg (fun h => h.1 level), given, reserved,
    if_neg Bool.false_ne_true]
  exact if_congr walk rfl rfl

end Verdict

/-! ### The client's own CONNECT -/

namespace ClientSettings
open Setter

section Own
variable (will : Option WillArgs) (credentials : Option (List Byte × List Byte))
  (clientId : List Byte)

/-- The strings behind the client identifier. -/
def optionalStrings : Nat :=
  (if will.isSome then 2 else 0) + if credentials.isSome then 2 else 0

/-- What follows the length of the client identifier: on a little-endian host the other lengths
come out as zeros. -/
def behindLength : List Byte :=
  clientId ++ (will.elim [] fun w => [0x00, 0x00] ++ w.topic ++ ([0x00, 0x00] ++ w.will)) ++
    (credentials.elim [] fun c => [0x00, 0x00] ++ c.1 ++ ([0x00, 0x00] ++ c.2))

theorem stringCount_eq {flags : Byte} (reflects : Reflects flags will credentials) :
    Verdict.stringCount flags = optionalStrings will credentials + 1 := by
  rw [Verdict.stringCount, reflects.willFlag, reflects.usernameFlag, reflects.passwordFlag,
    optionalStrings]
  cases will.isSome <;> cases credentials.isSome <;> rfl

theorem lengthBytes_short (host : Host) (text : List Byte) (short : text.length ≤ 127) :
    NmqttMessage.lengthBytes host text = [0x00, BitVec.ofNat 8 text.length] := by
  have zero : (0x00 : Byte).toNat = 0 := rfl
  rw [NmqttMessage.lengthBytes, NmqttMessage.shortBytes_eq]
  simp only [zero, List.cons.injEq, and_true, ← BitVec.toNat_inj, BitVec.extractLsb'_toNat,
    BitVec.toNat_ofNat, Nat.shiftRight_eq_div_pow]
  omega

variable {host : Host} (order : host.endian = .le)
include order

theorem wideLengthBytes_zero (text : List Byte) (short : text.length ≤ 127) :
    NmqttMessage.wideLengthBytes host text = [0x00, 0x00] := by
  have zero : (0x00 : Byte).toNat = 0 := rfl
  rw [NmqttMessage.wideLengthBytes_le order]
  simp only [zero, List.cons.injEq, and_true, ← BitVec.toNat_inj, BitVec.extractLsb'_toNat,
    BitVec.toNat_ofNat, Nat.shiftRight_eq_div_pow]
  omega

theorem payload_short (short : (payload host will credentials clientId).length ≤ 127) :
    payload host will credentials clientId =
      [0x00, BitVec.ofNat 8 clientId.length] ++ behindLength will credentials clientId := by
  unfold payload at short ⊢
  unfold behindLength
  simp only [List.length_append] at short
  rw [lengthBytes_short host clientId (by omega)]
  cases will with
  | none =>
    cases credentials with
    | none => simp
    | some c =>
      simp only [Option.elim, List.length_append, List.length_nil] at short ⊢
      rw [wideLengthBytes_zero order [] (by simp), wideLengthBytes_zero order c.2 (by omega)]
      simp
  | some w =>
    simp only [Option.elim_some, List.length_append] at short ⊢
    rw [wideLengthBytes_zero order w.topic (by omega), wideLengthBytes_zero order w.will (by omega)]
    cases credentials with
    | none => simp
    | some c =>
      simp only [Option.elim_some, List.length_append] at short ⊢
      rw [wideLengthBytes_zero order c.2 (by omega)]
      simp

end Own

/-- The server's parser finds all the strings that the flags of this CONNECT announce. -/
def Handled (will : Option WillArgs) (credentials : Option (List Byte × List Byte))
    (clientId : List Byte) : Prop :=
  Walks (optionalStrings will credentials) (behindLength will credentials clientId)

instance (will : Option WillArgs) (credentials : Option (List Byte × List Byte))
    (clientId : List Byte) : Decidable (Handled will credentials clientId) :=
  inferInstanceAs (Decidable (Walks _ _))

theorem walks_first (count : Nat) (length : Byte) (text : List Byte) :
    Walks (count + 1) ([0x00, length] ++ text) ↔ Walks count text := by
  rw [Walks, List.length_append]
  exact and_iff_right (by simp)

/-- One will or one pair of credentials is found just if the first byte of the client identifier,
read as a length, does not lead beyond the end. -/
theorem walks_two (clientId first second : List Byte) :
    Walks 2 (clientId ++ ([0x00, 0x00] ++ first ++ ([0x00, 0x00] ++ second))) ↔
      (clientId.headD 0).toNat ≤ clientId.length + first.length + second.length := by
  have head : (clientId ++ ([0x00, 0x00] ++ first ++ ([0x00, 0x00] ++ second))).headD 0 =
      clientId.headD 0 := by
    cases clientId <;> rfl
  rw [Walks, Walks, Walks, head, and_true, List.length_drop]
  simp only [List.length_append, List.length_cons, List.length_nil]
  omega

/-- With a will or with credentials, and not with both. -/
theorem handled_iff {will : Option WillArgs} {credentials : Option (List Byte × List Byte)}
    {clientId : List Byte} (one : will = none ∨ credentials = none) :
    Handled will credentials clientId ↔ (will = none ∧ credentials = none) ∨
      (clientId.headD 0).toNat ≤ clientId.length +
        (will.elim 0 fun w => w.topic.length + w.will.length) +
        credentials.elim 0 fun c => c.1.length + c.2.length := by
  unfold Handled optionalStrings behindLength
  cases will with
  | none =>
    cases credentials with
    | none => exact iff_of_true trivial (.inl ⟨rfl, rfl⟩)
    | some c =>
      rw [Option.elim_none, Option.elim_none, Option.elim_some, Option.elim_some, List.append_nil]
      refine (walks_two clientId c.1 c.2).trans ?_
      simp [Nat.add_assoc]
  | some w =>
    cases credentials with
    | none =>
      rw [Option.elim_none, Option.elim_none, Option.elim_some, Option.elim_some, List.append_nil]
      refine (walks_two clientId w.topic w.will).trans ?_
      simp [Nat.add_assoc]
    | some c => simp at one

section Sent
variable (setters : List Setter) (memory : NmqttMessage) {client : Host} (order : client.endian = .le)
  (short : (((after setters).connectMessage memory).body client).length ≤ 127)
include order short

theorem sent_verdict (server : Host) :
    Verdict.of server .version4 (((after setters).connectMessage memory).serialize client).1 =
      if Handled (last willArgs setters) (last credentialArgs setters)
          ((last clientIdArgs setters).getD defaultClientId) then .accept else .overrun := by
  rw [NmqttMessage.serialize_short _ order short]
  rw [after_eq] at short ⊢
  have draft := connectMessage_draft (last willArgs setters) (last credentialArgs setters)
    (last clientIdArgs setters) memory client
  have body := connectMessage_body (last willArgs setters) (last credentialArgs setters)
    (last clientIdArgs setters) memory client
  have reflects := connectFlags_reflects (last willArgs setters) (last credentialArgs setters)
    (last clientIdArgs setters) memory
  dsimp only at draft body
  generalize ((ofLast (last willArgs setters) (last credentialArgs setters)
    (last clientIdArgs setters)).connectMessage memory) = m at *
  have size := congrArg List.length body
  simp only [List.length_append, List.length_cons, List.length_nil] at size
  have verdict := Verdict.of_connect server reflects.reserved (show 10 + (payload client
    (last willArgs setters) (last credentialArgs setters)
    ((last clientIdArgs setters).getD defaultClientId)).length ≤ 127 by omega)
  rw [draft, body]
  refine verdict.trans ?_
  rw [stringCount_eq _ _ reflects, payload_short _ _ _ order (by omega)]
  exact if_congr (walks_first _ _ _) rfl rfl

theorem sent_type :
    let bytes := (((after setters).connectMessage memory).serialize client).1
    2 ≤ bytes.length ∧ MqttPacketType.ofByte0 (bytes.getD 0 0) = .connect := by
  rw [NmqttMessage.serialize_short _ order short]
  refine ⟨Nat.le_add_left 2 _, ?_⟩
  rw [after_eq, connectMessage_draft]
  exact (by decide : MqttPacketType.ofByte0 0x10 = .connect)

end Sent

end ClientSettings

/-! ### Answers -/

/-- The variable header of a CONNACK, after a call that finds the length right. -/
theorem NmqttMessage.parseMessage_connack (b : Buffer) (m : NmqttMessage)
    (sized : Verdict.WellSized b.host b.bytes)
    (type : MqttPacketType.ofByte0 (b.bytes.getD 0 0) = .connack) :
    let idx := Verdict.bodyStart b.host b.bytes
    (parseMessage b m).message.sessionPresent = decide (b.byteAt idx ≠ 0) ∧
      (parseMessage b m).message.reasonCode = b.host.widenChar 32 (b.byteAt (idx + 1)) := by
  have command : ({ m with parseGood := false }.withFixedHeader b.host b.bytes).command = .connack :=
    type
  unfold parseMessage
  rw [parseBody_sized b m sized.1 sized]
  simp only [parseVariable, get_bind_run, command]
  exact ⟨rfl, rfl⟩

namespace ServerHandler

/-- The message that a handler of the server sends. -/
def message (handler : ServerHandler) (memory : NmqttMessage) : NmqttMessage :=
  NmqttMessage.ofType memory handler.response

/-- What an answer comes to on the client. -/
def answered : ServerHandler → ClientCall
  | .connectHandler => .connackHandler false .success
  | .pingreqHandler => .pingrespHandler

def bodyLength : ServerHandler → Nat
  | .connectHandler => 2
  | .pingreqHandler => 0

section Answers
variable (handler : ServerHandler) (memory : NmqttMessage) {server : Host}

theorem message_body (server : Host) :
    ((handler.message memory).body server).length = handler.bodyLength := by
  cases handler <;> rfl

theorem message_bytes (order : server.endian = .le) :
    ((handler.message memory).serialize server).1 = match handler with
      | .connectHandler => [0x20, 0x02, 0x00, 0x00]
      | .pingreqHandler => [0xD0, 0x00] := by
  have short : ((handler.message memory).body server).length ≤ 127 := by
    rw [message_body]
    cases handler <;> decide
  rw [NmqttMessage.serialize_short _ order short]
  cases handler <;> rfl

theorem connack_sized (client : Host) : Verdict.WellSized client [0x20, 0x02, 0x00, 0x00] :=
  (Verdict.wellSized_small client _ (by decide)).mpr (by decide)

variable (client : Host) (order : server.endian = .le)
include order

theorem message_verdict :
    Verdict.of client .version4 ((handler.message memory).serialize server).1 = .accept := by
  rw [message_bytes handler memory order, Verdict.of]
  cases handler with
  | connectHandler =>
    rw [if_pos (connack_sized client)]
    rfl
  | pingreqHandler =>
    have sized : Verdict.WellSized client [0xD0, 0x00] :=
      (Verdict.wellSized_small client _ (by decide)).mpr (by decide)
    rw [if_pos sized]
    rfl

theorem processed_answer {h : Handed}
    (arrived : Arrived client ((handler.message memory).serialize server).1 h) :
    Request.process h.message = some handler.answered := by
  rw [message_bytes handler memory order] at arrived
  cases handler with
  | connectHandler =>
    have type := arrived.command (by decide)
    obtain ⟨here, -, -, message⟩ := arrived
    obtain ⟨session, code⟩ := NmqttMessage.parseMessage_connack
      ⟨client, [0x20, 0x02, 0x00, 0x00], here.beyond⟩ (NmqttMessage.new here.object)
      (connack_sized client) (by decide : MqttPacketType.ofByte0 0x20 = .connack)
    have start : Verdict.bodyStart client [0x20, 0x02, 0x00, 0x00] = 2 := by
      rw [Verdict.bodyStart, (Verdict.packedLength_small client _ (by decide)).1]
    have zero : client.widenChar 32 (0x00 : Byte) = 0 := by
      unfold Host.widenChar
      cases client.charSigned <;> decide
    dsimp only at session code
    rw [start] at session code
    change _ = client.widenChar 32 0x00 at code
    rw [zero] at code
    rw [Request.process, type, message, session, code]
    rfl
  | pingreqHandler =>
    rw [Request.process, arrived.command (by decide)]
    rfl

end Answers
end ServerHandler

/-! ### The exchange -/

/-- The messages of a client that connects and then sends a PINGREQ for each of `pings`, the
memory that its message is built in. -/
def clientMessages (setters : List Setter) (memory : NmqttMessage) (pings : List NmqttMessage) :
    List NmqttMessage :=
  (ClientSettings.after setters).connectMessage memory ::
    pings.map fun ping => NmqttMessage.ofType ping .pingreq

theorem pingreq_bytes {client : Host} (order : client.endian = .le) (memory : NmqttMessage) :
    ((NmqttMessage.ofType memory .pingreq).serialize client).1 = [0xC0, 0x00] := by
  rw [NmqttMessage.serialize_short _ order (Nat.zero_le _)]
  rfl

theorem pingreq_verdict (server : Host) :
    Verdict.of server .version4 [0xC0, 0x00] = .accept := by
  have sized : Verdict.WellSized server [0xC0, 0x00] :=
    (Verdict.wellSized_small server _ (by decide)).mpr (by decide)
  rw [Verdict.of, if_pos sized]
  rfl

section Exchange
variable {client server : Host} (order : client.endian = .le) (order' : server.endian = .le)
include order order'

/-- The requests that a session queues for them. -/
theorem session_handles {setters : List Setter} {memory : NmqttMessage}
    (short : (((ClientSettings.after setters).connectMessage memory).body client).length ≤ 127)
    (handled : ClientSettings.Handled (Setter.last Setter.willArgs setters)
      (Setter.last Setter.credentialArgs setters)
      ((Setter.last Setter.clientIdArgs setters).getD ClientSettings.defaultClientId))
    {pings : List NmqttMessage} {offers : List Nat}
    (whole : Receiver.HeadersWhole
      ((clientMessages setters memory pings).map fun m => (m.body client).length) offers)
    (heap : Nat → Heap) (headerBuff : Vector Byte 5) {turns : Nat}
    (enough : pings.length + 1 < turns) :
    let session := NmqttSession.run server heap turns headerBuff
      ⟨(clientMessages setters memory pings).flatMap fun m => (m.serialize client).1, offers⟩
    session.status = .disconnected ∧
      (calls NmqttServerRequest.handlerOf session.handed).map Prod.fst =
        .connectHandler :: List.replicate pings.length .pingreqHandler := by
  intro session
  have verdict := ClientSettings.sent_verdict setters memory order short server
  rw [if_pos handled] at verdict
  obtain ⟨two, type⟩ := ClientSettings.sent_type setters memory order short
  have fits : ∀ m ∈ clientMessages setters memory pings, (m.body client).length ≤ 127 := by
    rw [clientMessages, List.forall_mem_cons, List.forall_mem_map]
    exact ⟨short, fun ping _ => Nat.zero_le _⟩
  have kept : ∀ m ∈ clientMessages setters memory pings,
      Verdict.of server .version4 (m.serialize client).1 ≠ .overrun := by
    rw [clientMessages, List.forall_mem_cons, List.forall_mem_map, verdict]
    refine ⟨by decide, fun ping _ => ?_⟩
    rw [pingreq_bytes order, pingreq_verdict]
    decide
  obtain ⟨ended, hs, queued, arrived⟩ := @Receiver.run_arrived server heap client order' order
    ⟨headerBuff, ⟨(clientMessages setters memory pings).flatMap fun m => (m.serialize client).1,
      offers⟩, [], [], .listening⟩ rfl _ offers rfl whole fits kept turns
    (by rw [clientMessages, List.length_cons, List.length_map]; exact enough)
  obtain ⟨h, rest, first, others, rfl⟩ := List.forall₂_cons_left_iff.mp arrived
  rw [List.forall₂_map_left_iff] at others
  change session.handed = h :: rest at queued
  have pinged : (calls NmqttServerRequest.handlerOf rest).map Prod.fst =
      pings.map fun _ => .pingreqHandler := by
    apply calls_eq _ others
    intro ping h there
    rw [pingreq_bytes order] at there
    rw [there.command (by decide)]
    rfl
  rw [List.map_const'] at pinged
  refine ⟨ended, ?_⟩
  rw [queued, calls, List.filterMap_cons, first.command two, type]
  exact congrArg (List.cons _) pinged

/-- And what becomes of the answers. -/
theorem listener_answered (answers : List (ServerHandler × NmqttMessage)) {offers : List Nat}
    (whole : Receiver.HeadersWhole (answers.map fun a => a.1.bodyLength) offers)
    (heap : Nat → Heap) (headerBuff : Vector Byte 5) {turns : Nat}
    (enough : answers.length < turns) :
    let listener := NmqttClientListener.run client heap turns headerBuff
      ⟨answers.flatMap fun a => ((a.1.message a.2).serialize server).1, offers⟩
    listener.status = .disconnected ∧
      processed listener.handed = answers.map fun a => a.1.answered := by
  intro listener
  have lengths : (answers.map fun a => a.1.message a.2).map (fun m => (m.body server).length) =
      answers.map fun a => a.1.bodyLength := by
    rw [List.map_map]
    exact List.map_congr_left fun a _ => a.1.message_body a.2 server
  have fits : ∀ m ∈ answers.map fun a => a.1.message a.2, (m.body server).length ≤ 127 := by
    rw [List.forall_mem_map]
    intro a _
    rw [a.1.message_body]
    cases a.1 <;> decide
  have kept : ∀ m ∈ answers.map fun a => a.1.message a.2,
      Verdict.of client .version4 (m.serialize server).1 ≠ .overrun := by
    rw [List.forall_mem_map]
    intro a _
    rw [a.1.message_verdict a.2 client order']
    decide
  have stream : (answers.flatMap fun a => ((a.1.message a.2).serialize server).1) =
      (answers.map fun a => a.1.message a.2).flatMap fun m => (m.serialize server).1 := by
    rw [List.flatMap_map]
  obtain ⟨ended, hs, queued, arrived⟩ := @Receiver.run_arrived client heap server order order'
    ⟨headerBuff, ⟨answers.flatMap fun a => ((a.1.message a.2).serialize server).1, offers⟩, [], [],
      .listening⟩ rfl _ offers (by rw [stream]) (by rw [lengths]; exact whole) fits kept turns
    (by rw [List.length_map]; exact enough)
  rw [List.forall₂_map_left_iff] at arrived
  change listener.handed = hs at queued
  refine ⟨ended, ?_⟩
  rw [queued]
  exact processed_eq _ arrived fun a h there => a.1.processed_answer a.2 client order' there

end Exchange

end NymphMqtt
