import NymphMqtt.MessageRoundTrip
import NymphMqtt.PacketFraming
import NymphMqtt.ReceiveAcceptance

/-! Messages from the sender's `serialize` through the receive loop of the other side to the
handlers that its workers call. -/

namespace NymphMqtt
open NymphMqtt.Library NymphMqtt.Library.LoggedReader

/-! ### The packet type -/

namespace NmqttMessage
variable (b : Buffer)

theorem parseConnectHeader_command (idx : Nat) : Keeps command (parseConnectHeader b idx) := by
  have level (protver : Byte) : Keeps command (checkProtocolLevel protver) :=
    Keeps.ite (Keeps.update fun _ => rfl) (Keeps.ite (Keeps.pure _) (Keeps.exit _))
  unfold parseConnectHeader
  apply Keeps.bind (Keeps.ite (Keeps.pure _) (Keeps.exit _))
  intro protName
  refine Keeps.ite (Keeps.bind (Keeps.exit _) fun _ => ?_) ?_
  all_goals
    apply Keeps.bind (Keeps.read _ _)
    intro protver
    apply Keeps.bind (level protver)
    intro _
    apply Keeps.bind (Keeps.read _ _)
    intro connflags
    refine Keeps.bind (Keeps.update fun _ => rfl) fun _ => ?_
    refine Keeps.ite (Keeps.bind (Keeps.exit _) fun _ => ?_) ?_
    all_goals
      exact Keeps.bind (Keeps.read _ _) fun _ =>
        Keeps.bind (Keeps.update fun _ => rfl) fun _ => Keeps.pure _

theorem parseConnectPayload_command (idx : Nat) : Keeps command (parseConnectPayload b idx) := by
  have string (idx : Nat) (store : List Byte → NmqttMessage → NmqttMessage)
      (same : ∀ text m, (store text m).command = m.command) :
      Keeps command (b.readString idx store) :=
    Keeps.bind (Keeps.read _ _) fun _ => Keeps.bind (Keeps.ite (Keeps.pure _) (Keeps.exit _))
      fun text => Keeps.bind (Keeps.update (same text)) fun _ => Keeps.pure _
  refine Keeps.bind (string _ _ fun _ _ => rfl) fun _ => ?_
  refine Keeps.bind (Keeps.bind Keeps.get fun m => ?_) fun _ => ?_
  · exact Keeps.ite (Keeps.bind (string _ _ fun _ _ => rfl) fun _ => string _ _ fun _ _ => rfl)
      (Keeps.pure _)
  refine Keeps.bind (Keeps.bind Keeps.get fun m => ?_) fun _ => ?_
  · exact Keeps.ite (string _ _ fun _ _ => rfl) (Keeps.pure _)
  exact Keeps.bind Keeps.get fun m => Keeps.ite (string _ _ fun _ _ => rfl) (Keeps.pure _)

theorem parsePublish_command (idx qosCnt : Nat) : Keeps command (parsePublish b idx qosCnt) := by
  refine Keeps.bind ?_ fun _ => Keeps.bind ?_ fun _ => Keeps.bind ?_ fun _ => ?_
  · exact Keeps.bind (Keeps.read _ _) fun _ => Keeps.bind (Keeps.ite (Keeps.pure _) (Keeps.exit _))
      fun _ => Keeps.bind (Keeps.update fun _ => rfl) fun _ => Keeps.pure _
  · exact Keeps.ite (Keeps.bind (Keeps.read _ _) fun _ =>
      Keeps.bind (Keeps.update fun _ => rfl) fun _ => Keeps.pure _) (Keeps.pure _)
  · exact Keeps.bind Keeps.get fun _ => Keeps.ite
      (Keeps.bind (Keeps.read _ _) fun _ => Keeps.pure _) (Keeps.pure _)
  · exact Keeps.ite (Keeps.bind (Keeps.ite (Keeps.pure _) (Keeps.exit _)) fun _ =>
      Keeps.update fun _ => rfl) (Keeps.pure _)

theorem parseVariable_command (idx qosCnt : Nat) : Keeps command (parseVariable b idx qosCnt) := by
  apply Keeps.bind Keeps.get
  intro m
  cases m.command with
  | connect =>
    exact Keeps.bind (parseConnectHeader_command b idx) fun _ =>
      Keeps.bind (parseConnectPayload_command b _) fun _ => Keeps.pure _
  | connack =>
    exact Keeps.bind (Keeps.read _ _) fun _ => Keeps.bind (Keeps.update fun _ => rfl) fun _ =>
      Keeps.bind (Keeps.read _ _) fun _ => Keeps.update fun _ => rfl
  | publish => exact parsePublish_command b idx qosCnt
  | _ => exact Keeps.pure _

/-- Whatever becomes of the rest, the packet type is that of the first byte. -/
theorem parseMessage_command (m : NmqttMessage) (two : 2 ≤ b.size) :
    (parseMessage b m).message.command = .ofByte0 (b.bytes.getD 0 0) := by
  unfold parseMessage
  by_cases sized : Verdict.WellSized b.host b.bytes
  · have kept := parseVariable_command b (Verdict.bodyStart b.host b.bytes)
      (qosCnt (b.bytes.getD 0 0)) ({ m with parseGood := false }.withFixedHeader b.host b.bytes)
    change command (parseVariable b _ _ _).state = .ofByte0 (b.bytes.getD 0 0) at kept
    rw [parseBody_sized b m two sized, ← kept]
    dsimp only
    split <;> rfl
  · rw [parseBody_missized b m two sized]
    rfl

end NmqttMessage

/-! ### Short packets -/

/-- A packet whose remaining length takes one byte. -/
def shortFrame (byte0 : Byte) (body : List Byte) : List Byte :=
  byte0 :: BitVec.ofNat 8 body.length :: body

namespace NmqttMessage
variable {host : Host} (m : NmqttMessage)

theorem remainingLengthBytes_short (order : host.endian = .le) {length : Nat}
    (short : length ≤ 127) :
    remainingLengthBytes host (BitVec.ofNat 32 length) = [BitVec.ofNat 8 length] := by
  have value : (BitVec.ofNat 32 length).toNat = length := by
    rw [BitVec.toNat_ofNat]
    omega
  have one : ByteBauble.packedBytes (BitVec.ofNat 32 length) = 1 := by
    rw [ByteBauble.packedBytes, value, if_pos (by omega)]
  have single : (remainingLengthBytes host (BitVec.ofNat 32 length)).length = 1 := by
    rw [remainingLengthBytes_length, one]
  obtain ⟨byte, only⟩ := List.length_eq_one_iff.mp single
  have first := remainingLengthBytes_le host _ order (by rw [one]; decide)
  rw [only, value, one, if_neg (by decide)] at first
  rw [only, List.cons.injEq, ← BitVec.toNat_inj, BitVec.toNat_ofNat]
  refine ⟨?_, rfl⟩
  change byte.toNat = _ at first
  omega

theorem serialize_short (order : host.endian = .le) (short : (m.body host).length ≤ 127) :
    (m.serialize host).1 = shortFrame (m.draft host).b0 (m.body host) := by
  rw [serialize_bytes, remainingLengthBytes_short order short]
  rfl

/-- The bytes depend on the host by its byte order alone. -/
theorem serialize_order {host host' : Host} (same : host.endian = host'.endian) :
    m.serialize host = m.serialize host' := by
  obtain ⟨endian, signed⟩ := host
  obtain ⟨endian', signed'⟩ := host'
  cases same
  rfl

end NmqttMessage

/-! ### What arrives -/

/-- The request that the loop queues for a packet: the parser has seen the packet as it was
sent, over a fresh message. -/
def Arrived (host : Host) (frame : List Byte) (h : Handed) : Prop :=
  ∃ here : Heap,
    let call := NmqttMessage.parseMessage ⟨host, frame, here.beyond⟩ (NmqttMessage.new here.object)
    h.header = 1 ∧ call.exit = .returned h.parse ∧ h.message = call.message

section Arrived
variable {host : Host} {frame : List Byte} {h : Handed} (arrived : Arrived host frame h)
include arrived

theorem Arrived.accepted (accept : Verdict.of host .version4 frame = .accept) : h.Accepted := by
  obtain ⟨here, header, parse, -⟩ := arrived
  rw [(NmqttMessage.parseMessage_outcome _ _).1] at parse
  change (Verdict.of host .version4 frame).exit = _ at parse
  rw [accept] at parse
  exact ⟨header, (ParseExit.returned.inj parse).symm⟩

theorem Arrived.command (two : 2 ≤ frame.length) :
    h.message.command = .ofByte0 (frame.getD 0 0) := by
  obtain ⟨here, -, -, message⟩ := arrived
  rw [message]
  exact NmqttMessage.parseMessage_command ⟨host, frame, here.beyond⟩ _ two

end Arrived

namespace Receiver

/-- Each call for the two header bytes gets both of them, bodies of these lengths in between. -/
def HeadersWhole : (lengths : List Nat) → (offers : List Nat) → Prop
  | [], _ => True
  | length :: lengths, offers => 2 ≤ offers.headD 2 ∧
      HeadersWhole lengths (StreamSocket.offersAfter offers.tail length)

/-- No header of a stream that is there at once is cut. -/
theorem headersWhole_at_once (lengths : List Nat) : HeadersWhole lengths [] := by
  induction lengths with
  | nil => trivial
  | cons length lengths ih => exact ⟨Nat.le_refl 2, ih⟩

section Runs
variable (host : Host) (heap : Nat → Heap)

section Short
variable {r : Receiver} (order : host.endian = .le) {byte0 : Byte} {body rest : List Byte}
  (short : body.length ≤ 127) (bytes : r.socket.incoming = shortFrame byte0 body ++ rest)
  (both : 2 ≤ r.socket.offers.headD 2)
include order short bytes both

/-- The turn that meets a short packet with an uncut header. -/
theorem turn_short : turn host heap r = dispatch host heap
    { r with
      socket := ⟨rest, StreamSocket.offersAfter r.socket.offers.tail body.length⟩
      headerBuff := r.buffered byte0 (BitVec.ofNat 8 body.length) } 1 (shortFrame byte0 body) := by
  change r.socket.incoming = byte0 :: BitVec.ofNat 8 body.length :: (body ++ rest) at bytes
  have length : (BitVec.ofNat 8 body.length).toNat = body.length := by
    rw [BitVec.toNat_ofNat]
    omega
  have clean : ¬SeesStale host (BitVec.ofNat 8 body.length) := by
    rintro (e | h)
    · rw [order] at e
      cases e
    · omega
  obtain ⟨code, -, msglen⟩ := nextHeader_short host r byte0 _ clean
  rw [length] at msglen
  have frame : r.nextFrame host byte0 (BitVec.ofNat 8 body.length) (body ++ rest) =
      shortFrame byte0 body := by
    rw [nextFrame_short host r _ _ _ clean, length, List.take_left]
    rfl
  obtain ⟨-, left, offers⟩ := readBody_collects ⟨body ++ rest, r.socket.offers.tail⟩ body.length
  rw [List.drop_left] at left
  have within : body.length ≤ (body ++ rest).length := by
    rw [List.length_append]
    omega
  have socket : (readBody ⟨body ++ rest, r.socket.offers.tail⟩ body.length).2 =
      ⟨rest, StreamSocket.offersAfter r.socket.offers.tail body.length⟩ :=
    congrArg₂ StreamSocket.mk left (offers within)
  rw [turn_dispatch host heap r bytes both, frame, code, msglen, socket]

theorem turn_arrived (listening : r.status = .listening)
    (kept : Verdict.of host .version4 (shortFrame byte0 body) ≠ .overrun) :
    (turn host heap r).status = .listening ∧
      (turn host heap r).socket =
        ⟨rest, StreamSocket.offersAfter r.socket.offers.tail body.length⟩ ∧
      ∃ h, (turn host heap r).handed = r.handed ++ [h] ∧
        Arrived host (shortFrame byte0 body) h := by
  rw [turn_short host heap order short bytes both]
  refine ⟨?_, (dispatch_spec host heap _ 1 _).2.1, ?_⟩
  · rw [(dispatch_spec host heap _ 1 _).2.2.2, if_neg kept]
    exact listening
  · rw [dispatch]
    generalize heap _ = here
    have exit := (NmqttMessage.parseMessage_outcome ⟨host, shortFrame byte0 body, here.beyond⟩
      (NmqttMessage.new here.object)).1
    change _ = (Verdict.of host .version4 (shortFrame byte0 body)).exit at exit
    cases verdict : Verdict.of host .version4 (shortFrame byte0 body) with
    | accept =>
      rw [verdict] at exit
      simp only [exit]
      exact ⟨_, rfl, here, rfl, exit, rfl⟩
    | reject =>
      rw [verdict] at exit
      simp only [exit]
      exact ⟨_, rfl, here, rfl, exit, rfl⟩
    | overrun => exact absurd verdict kept

theorem turn_overrun (thrown : Verdict.of host .version4 (shortFrame byte0 body) = .overrun) :
    (turn host heap r).status = .threw ∧ (turn host heap r).handed = r.handed := by
  rw [turn_short host heap order short bytes both]
  constructor
  · rw [(dispatch_spec host heap _ 1 _).2.2.2, if_pos thrown]
  · obtain ⟨message, handed⟩ := dispatch_handed host heap { r with
      socket := ⟨rest, StreamSocket.offersAfter r.socket.offers.tail body.length⟩
      headerBuff := r.buffered byte0 (BitVec.ofNat 8 body.length) } 1 (shortFrame byte0 body)
    rw [handed, thrown]
    exact List.append_nil _

end Short

/-- Short messages that the parser does not throw on arrive one by one, and then the loop ends
with the connection. -/
theorem run_arrived {sender : Host} (order : host.endian = .le) (order' : sender.endian = .le)
    {r : Receiver} (listening : r.status = .listening) {sent : List NmqttMessage}
    {offers : List Nat} (socket : r.socket = ⟨sent.flatMap fun m => (m.serialize sender).1, offers⟩)
    (whole : HeadersWhole (sent.map fun m => (m.body sender).length) offers)
    (short : ∀ m ∈ sent, (m.body sender).length ≤ 127)
    (kept : ∀ m ∈ sent, Verdict.of host .version4 (m.serialize sender).1 ≠ .overrun) {turns : Nat}
    (enough : sent.length < turns) :
    (run host heap turns r).status = .disconnected ∧
      ∃ hs, (run host heap turns r).handed = r.handed ++ hs ∧
        List.Forall₂ (fun m => Arrived host (m.serialize sender).1) sent hs := by
  induction sent generalizing r offers turns with
  | nil =>
    obtain ⟨turns, rfl⟩ := Nat.exists_eq_succ_of_ne_zero (Nat.ne_zero_of_lt enough)
    have closed := turn_closed host heap r (by rw [socket]; rfl)
    rw [run_succ host heap listening, run_left host heap (by rw [closed]; exact fun h => by cases h),
      closed]
    exact ⟨rfl, [], (List.append_nil _).symm, .nil⟩
  | cons m sent ih =>
    obtain ⟨turns, rfl⟩ := Nat.exists_eq_succ_of_ne_zero (Nat.ne_zero_of_lt enough)
    obtain ⟨both, rest⟩ := whole
    rw [List.forall_mem_cons] at short kept
    have emitted := m.serialize_short order' short.1
    have bytes : r.socket.incoming = shortFrame (m.draft sender).b0 (m.body sender) ++
        sent.flatMap fun m => (m.serialize sender).1 := by
      rw [socket, ← emitted]
      rfl
    have first : 2 ≤ r.socket.offers.headD 2 := by rw [socket]; exact both
    have passes := emitted ▸ kept.1
    obtain ⟨status, next, h, handed, arrived⟩ :=
      turn_arrived host heap order short.1 bytes first listening passes
    rw [socket] at next
    obtain ⟨ended, hs, later, others⟩ := ih status next rest short.2 kept.2
      (Nat.lt_of_succ_lt_succ enough)
    rw [run_succ host heap listening]
    refine ⟨ended, h :: hs, ?_, .cons (emitted ▸ arrived) others⟩
    rw [later, handed, List.append_assoc]
    rfl

end Runs
end Receiver

/-! ### What the workers do -/

/-- A handler that `Request::process` calls, with what it takes from the message. -/
inductive ClientCall where
  | handler (topic payload : List Byte)
  | connackHandler (sessionPresent : Bool) (code : MqttReasonCodes)
  | pingrespHandler
  deriving DecidableEq, Repr

def Request.process (msg : NmqttMessage) : Option ClientCall :=
  match msg.command with
  | .publish => some (.handler msg.topic msg.payload)
  | .connack => some (.connackHandler msg.sessionPresent msg.reasonCode)
  | .pingresp => some .pingrespHandler
  | _ => none

/-- The calls for a queue of requests, in the order of the queue. -/
def processed (handed : List Handed) : List ClientCall :=
  handed.filterMap fun h => Request.process h.message

/-- Requests that are each processed into one call. -/
theorem processed_eq {α : Type} {R : α → Handed → Prop} {xs : List α} {hs : List Handed}
    (call : α → ClientCall) (related : List.Forall₂ R xs hs)
    (each : ∀ x h, R x h → Request.process h.message = some (call x)) :
    processed hs = xs.map call := by
  induction related with
  | nil => rfl
  | cons first rest ih =>
    rw [processed, List.filterMap_cons, each _ _ first]
    exact congrArg _ ih

/-- Requests that one handler each is called for. -/
theorem calls_eq {α Handler : Type} {handlerOf : MqttPacketType → Option Handler}
    {R : α → Handed → Prop} {xs : List α} {hs : List Handed} (handler : α → Handler)
    (related : List.Forall₂ R xs hs)
    (each : ∀ x h, R x h → handlerOf h.message.command = some (handler x)) :
    (calls handlerOf hs).map Prod.fst = xs.map handler := by
  induction related with
  | nil => rfl
  | cons first rest ih =>
    rw [calls, List.filterMap_cons, each _ _ first]
    exact congrArg _ ih

/-- Requests that no handler is called for. -/
theorem calls_eq_nil {α Handler : Type} {handlerOf : MqttPacketType → Option Handler}
    {R : α → Handed → Prop} {xs : List α} {hs : List Handed} (related : List.Forall₂ R xs hs)
    (each : ∀ x h, R x h → handlerOf h.message.command = none) : calls handlerOf hs = [] := by
  induction related with
  | nil => rfl
  | cons first rest ih =>
    rw [calls, List.filterMap_cons, each _ _ first]
    exact ih

/-! ### Calls of `publish` -/

/-- The arguments of `NmqttClient::publish`, and the memory that its message is built in. -/
structure PublishCall where
  topic : List Byte
  payload : List Byte
  qos : MqttQoS
  retain : Bool
  memory : NmqttMessage

namespace PublishCall
variable (c : PublishCall)

/-- The message that is sent. -/
def message : NmqttMessage :=
  ((((NmqttMessage.ofType c.memory .publish).setQoS c.qos).setRetain c.retain).setTopic
    c.topic).setPayload c.payload

def remainingLength : Nat := publishLength .version4 c.qos c.topic c.payload

/-- What arrives of the payload. -/
def arriving : List Byte := if c.payload.length = 1 then [] else c.payload

/-- Accepted, and everything there but a payload of one byte. The QoS levels 1 and 2 have
changed places. -/
structure Received (h : Handed) : Prop where
  header : h.header = 1
  parse : h.parse = 1
  command : h.message.command = .publish
  topic : h.message.topic = c.topic
  payload : h.message.payload = c.arriving
  qos : h.message.qos = Publication.swappedQoS c.qos
  duplicate : h.message.duplicateMessage = false
  retain : h.message.retainMessage = c.retain

section Short
variable (short : c.remainingLength ≤ 127)
include short

def publication : Publication where
  version := .version4
  topic := c.topic
  payload := c.payload
  qos := c.qos
  duplicate := false
  retain := c.retain
  packetID := c.memory.packetID
  topicFits := by
    unfold remainingLength publishLength at short
    omega
  fits := Nat.le_trans short (by decide)

theorem message_publication : (c.publication short).message c.memory = c.message := rfl

theorem body_length (host : Host) : (c.message.body host).length = c.remainingLength := by
  rw [← c.message_publication short, NmqttMessage.body, (c.publication short).draft_message,
    List.length_append]
  exact (c.publication short).header_length host

variable {sender receiver : Host} (order : sender.endian = .le) (order' : receiver.endian = .le)
include order order'

/-- The parser of the receiver on the bytes of the sender. -/
theorem parse_sent (beyond : Nat → Byte) (fresh : NmqttMessage) :
    let call := NmqttMessage.parseMessage ⟨receiver, (c.message.serialize sender).1, beyond⟩
      (NmqttMessage.new fresh)
    call.exit = .returned 1 ∧ call.message.topic = c.topic ∧ call.message.payload = c.arriving ∧
      call.message.qos = Publication.swappedQoS c.qos ∧ call.message.duplicateMessage = false ∧
      call.message.retainMessage = c.retain := by
  have bytes : (c.message.serialize sender).1 = (c.publication short).bytes receiver c.memory := by
    rw [c.message.serialize_order (order.trans order'.symm), Publication.bytes,
      c.message_publication short]
  have sized := ((c.publication short).wellSized_bytes_iff receiver c.memory).mpr ⟨order', short⟩
  have call : NmqttMessage.parseMessage ⟨receiver, (c.message.serialize sender).1, beyond⟩
      (NmqttMessage.new fresh) = (c.publication short).receive receiver c.memory beyond fresh := by
    rw [bytes]
    rfl
  obtain ⟨exit, topic, payload, qos, duplicate, retain, -⟩ :=
    (c.publication short).receive_sized receiver c.memory beyond fresh sized
  rw [call]
  exact ⟨exit, topic, payload, qos, duplicate, retain⟩

theorem sent_kept :
    Verdict.of receiver .version4 (c.message.serialize sender).1 ≠ .overrun := by
  intro overrun
  have exit := (c.parse_sent short order order' (fun _ => 0) default).1
  rw [(NmqttMessage.parseMessage_outcome _ _).1] at exit
  change (Verdict.of receiver .version4 _).exit = _ at exit
  rw [overrun] at exit
  cases exit

theorem received {h : Handed} (arrived : Arrived receiver (c.message.serialize sender).1 h) :
    c.Received h := by
  have emitted := c.message.serialize_short order (by rw [c.body_length short]; exact short)
  have command := arrived.command (by rw [emitted]; exact Nat.le_add_left 2 _)
  obtain ⟨here, header, parse, message⟩ := arrived
  obtain ⟨exit, topic, payload, qos, duplicate, retain⟩ :=
    c.parse_sent short order order' here.beyond here.object
  rw [exit] at parse
  rw [← message] at topic payload qos duplicate retain
  refine ⟨header, (ParseExit.returned.inj parse).symm, ?_, topic, payload, qos, duplicate, retain⟩
  rw [command, emitted]
  exact (c.publication short).ofByte0_byte0

end Short

end PublishCall

section Streams
variable {sender receiver : Host} (order : sender.endian = .le) (order' : receiver.endian = .le)
  {cs : List PublishCall} (short : ∀ c ∈ cs, c.remainingLength ≤ 127) {offers : List Nat}
  (whole : Receiver.HeadersWhole (cs.map PublishCall.remainingLength) offers) (heap : Nat → Heap)
include order order' short whole

/-- A loop that gets the bytes of these calls and no others. -/
theorem run_received {r : Receiver} (listening : r.status = .listening)
    (socket : r.socket = ⟨cs.flatMap fun c => (c.message.serialize sender).1, offers⟩) {turns : Nat}
    (enough : cs.length < turns) :
    (Receiver.run receiver heap turns r).status = .disconnected ∧
      ∃ hs, (Receiver.run receiver heap turns r).handed = r.handed ++ hs ∧
        List.Forall₂ PublishCall.Received cs hs := by
  have lengths : (cs.map PublishCall.message).map (fun m => (m.body sender).length) =
      cs.map PublishCall.remainingLength := by
    rw [List.map_map]
    apply List.map_congr_left
    intro c member
    exact c.body_length (short c member) sender
  have fits : ∀ m ∈ cs.map PublishCall.message, (m.body sender).length ≤ 127 := by
    rw [List.forall_mem_map]
    intro c member
    rw [c.body_length (short c member)]
    exact short c member
  have kept : ∀ m ∈ cs.map PublishCall.message,
      Verdict.of receiver .version4 (m.serialize sender).1 ≠ .overrun := by
    rw [List.forall_mem_map]
    exact fun c member => c.sent_kept (short c member) order order'
  have stream : r.socket =
      ⟨(cs.map PublishCall.message).flatMap fun m => (m.serialize sender).1, offers⟩ := by
    rw [socket, List.flatMap_map]
  obtain ⟨ended, hs, handed, arrived⟩ := @Receiver.run_arrived receiver heap sender order' order
    r listening _ offers stream (by rw [lengths]; exact whole) fits kept turns
    (by rw [List.length_map]; exact enough)
  rw [List.forall₂_map_left_iff] at arrived
  refine ⟨ended, hs, handed, ?_⟩
  exact ((List.forall₂_and_left _ _).mpr ⟨short, arrived⟩).imp fun c h there =>
    c.received there.1 order order' there.2

end Streams

theorem processed_received {cs : List PublishCall} {hs : List Handed}
    (received : List.Forall₂ PublishCall.Received cs hs) :
    processed hs = cs.map fun c => .handler c.topic c.arriving := by
  apply processed_eq _ received
  intro c h there
  rw [Request.process, there.command, there.topic, there.payload]

end NymphMqtt
