import NymphMqtt.MessageParseOutcome
import NymphMqtt.MessageSerialize

/-! `serialize` against `parseMessage` on PUBLISH: which messages come back. -/

namespace NymphMqtt
open NymphMqtt.Library NymphMqtt.Library.LoggedReader

/-- The remaining length of a PUBLISH: topic with its prefix, packet identifier, property
length, payload. -/
def publishLength (version : MqttProtocolVersion) (qos : MqttQoS) (topic payload : List Byte) : Nat :=
  2 + topic.length + (if qos = .atMostOnce then 0 else 2) +
    (if version = .version5 then 1 else 0) + payload.length

/-- The fields of a PUBLISH within the limits of the format. -/
structure Publication where
  version : MqttProtocolVersion
  topic : List Byte
  payload : List Byte
  qos : MqttQoS
  duplicate : Bool
  retain : Bool
  packetID : BitVec 16
  topicFits : topic.length ≤ 65535
  fits : publishLength version qos topic payload ≤ 268435455

namespace Publication
open NmqttMessage
variable (p : Publication) (host : Host) (memory : NmqttMessage)

def remainingLength : Nat := publishLength p.version p.qos p.topic p.payload

/-- The message as a sender builds it. No setter reaches the packet identifier: it is
what the memory of the object held. -/
def message : NmqttMessage :=
  ((((((ofType { memory with packetID := p.packetID } .publish).setProtocolVersion
    p.version).setTopic p.topic).setPayload p.payload).setQoS p.qos).setDuplicateMessage
      p.duplicate).setRetain p.retain

def bytes : List Byte := ((p.message memory).serialize host).1

def header : List Byte :=
  lengthBytes host p.topic ++ p.topic ++
    (if p.qos ≠ .atMostOnce then shortBytes host p.packetID else []) ++
    (if p.version = .version5 then [0x00] else [])

def byte0 : Byte :=
  0x30 + (flag p.duplicate 8 + flag (p.qos = .atLeastOnce) 2 + flag (p.qos = .exactlyOnce) 4 +
    flag p.retain 1)

theorem draft_message :
    draft host (p.message memory) = ⟨p.byte0, p.header host, p.payload⟩ := rfl

theorem header_length :
    (p.header host).length + p.payload.length = p.remainingLength := by
  unfold header remainingLength publishLength lengthBytes
  simp only [List.length_append, shortBytes_length, apply_ite List.length, List.length_nil,
    List.length_cons, ite_not]

theorem bytes_eq : p.bytes host memory = p.byte0 ::
    (remainingLengthBytes host (BitVec.ofNat 32 p.remainingLength) ++ p.header host ++ p.payload) := by
  simp only [bytes, serialize, draft_message, p.header_length host]

theorem msgLen_toNat : (BitVec.ofNat 32 p.remainingLength).toNat = p.remainingLength := by
  have fits : p.remainingLength ≤ 268435455 := p.fits
  rw [BitVec.toNat_ofNat, Nat.mod_eq_of_lt (by omega)]

theorem packedBytes_cases :
    let n := ByteBauble.packedBytes (BitVec.ofNat 32 p.remainingLength)
    (n = 1 ∧ p.remainingLength ≤ 128) ∨ (n = 2 ∧ 128 < p.remainingLength) ∨
      (n = 3 ∧ 128 < p.remainingLength) ∨ (n = 4 ∧ 2097152 < p.remainingLength) := by
  have fits : p.remainingLength ≤ 268435455 := p.fits
  unfold ByteBauble.packedBytes
  rw [p.msgLen_toNat]
  split_ifs <;> omega

theorem bytes_length : (p.bytes host memory).length =
    1 + ByteBauble.packedBytes (BitVec.ofNat 32 p.remainingLength) + p.remainingLength := by
  have length := p.header_length host
  rw [p.bytes_eq]
  simp only [List.length_cons, List.length_append, remainingLengthBytes_length]
  omega

theorem bytes_second : (p.bytes host memory).getD 1 0 =
    (remainingLengthBytes host (BitVec.ofNat 32 p.remainingLength)).getD 0 0 := by
  have some := p.packedBytes_cases
  rw [p.bytes_eq, List.append_assoc]
  simp only [List.getD_cons_succ]
  rw [List.getD_append _ _ _ _ (by rw [remainingLengthBytes_length]; omega)]

/-- The string passes the parser's length check just when the host is little-endian and
the remaining length takes one byte. -/
theorem wellSized_bytes_iff : Verdict.WellSized host (p.bytes host memory) ↔
    host.endian = .le ∧ p.remainingLength ≤ 127 := by
  have cases := p.packedBytes_cases
  have length := p.bytes_length host memory
  have second := congrArg BitVec.toNat (p.bytes_second host memory)
  have some : ByteBauble.packedBytes (BitVec.ofNat 32 p.remainingLength) ≠ 0 := by omega
  have fits : p.remainingLength ≤ 268435455 := p.fits
  have two : 2 ≤ p.remainingLength := by unfold remainingLength publishLength; omega
  cases order : host.endian with
  | be =>
    rw [remainingLengthBytes_be host _ order some, p.msgLen_toNat] at second
    have small : ((p.bytes host memory).getD 1 0).toNat < 128 := by
      rw [second]
      split <;> omega
    rw [Verdict.wellSized_small _ _ small, length, second]
    simp only [reduceCtorEq, false_and, iff_false]
    split <;> omega
  | le =>
    rw [remainingLengthBytes_le host _ order some, p.msgLen_toNat] at second
    simp only [true_and]
    by_cases one : ByteBauble.packedBytes (BitVec.ofNat 32 p.remainingLength) = 1
    · rw [if_neg (by omega)] at second
      rw [Verdict.wellSized_small _ _ (by omega), length, second]
      omega
    · rw [if_pos (by omega)] at second
      rw [Verdict.wellSized_marked _ _ (by omega), length, second]
      split <;> omega

/-! ### The first byte -/

theorem ofByte0_byte0 : MqttPacketType.ofByte0 p.byte0 = .publish := by
  unfold byte0
  cases p.qos <;> cases p.duplicate <;> cases p.retain <;> decide

theorem byte0_duplicate : p.byte0.getLsbD 3 = p.duplicate := by
  unfold byte0
  cases p.qos <;> cases p.duplicate <;> cases p.retain <;> decide

theorem byte0_retain : p.byte0.getLsbD 0 = p.retain := by
  unfold byte0
  cases p.qos <;> cases p.duplicate <;> cases p.retain <;> decide

theorem qosCnt_byte0 : 0 < qosCnt p.byte0 ↔ p.qos ≠ .atMostOnce := by
  unfold byte0
  cases p.qos <;> cases p.duplicate <;> cases p.retain <;> decide

/-- The parser takes each of the two QoS bits for the other. -/
def swappedQoS : MqttQoS → MqttQoS
  | .atMostOnce => .atMostOnce
  | .atLeastOnce => .exactlyOnce
  | .exactlyOnce => .atLeastOnce

theorem receivedQoS_byte0 : receivedQoS p.byte0 .atMostOnce = swappedQoS p.qos := by
  unfold byte0
  cases p.qos <;> cases p.duplicate <;> cases p.retain <;> decide

/-! ### What comes back -/

/-- Everything in front of the payload when the remaining length takes one byte. -/
def front (length : Byte) : List Byte :=
  let topicLen := BitVec.ofNat 16 p.topic.length
  [p.byte0, length, topicLen.extractLsb' 8 8, topicLen.extractLsb' 0 8] ++ (p.topic ++
    ((if p.qos ≠ .atMostOnce then [p.packetID.extractLsb' 8 8, p.packetID.extractLsb' 0 8] else []) ++
      if p.version = .version5 then [0x00] else []))

theorem bytes_front (sized : Verdict.WellSized host (p.bytes host memory)) :
    ∃ length, p.bytes host memory = p.front length ++ p.payload := by
  obtain ⟨order, one⟩ := (p.wellSized_bytes_iff host memory).mp sized
  have cases := p.packedBytes_cases
  have single : (remainingLengthBytes host (BitVec.ofNat 32 p.remainingLength)).length = 1 := by
    rw [remainingLengthBytes_length]
    omega
  obtain ⟨length, only⟩ := List.length_eq_one_iff.mp single
  refine ⟨length, ?_⟩
  rw [p.bytes_eq, only, front, header, lengthBytes, shortBytes_eq, shortBytes_eq]
  simp only [List.cons_append, List.nil_append, List.append_assoc]

theorem bodyStart_bytes (sized : Verdict.WellSized host (p.bytes host memory)) :
    Verdict.bodyStart host (p.bytes host memory) = 2 := by
  obtain ⟨order, one⟩ := (p.wellSized_bytes_iff host memory).mp sized
  have cases := p.packedBytes_cases
  have second := congrArg BitVec.toNat (p.bytes_second host memory)
  rw [remainingLengthBytes_le host _ order (by omega), p.msgLen_toNat, if_neg (by omega)] at second
  rw [Verdict.bodyStart, (Verdict.packedLength_small host _ (by omega)).1]

theorem joinBytes (v : BitVec 16) :
    (v.extractLsb' 8 8 ++ v.extractLsb' 0 8 : BitVec 16) = v :=
  @BitVec.extractLsb'_append_extractLsb' 8 8 v

theorem topicLength_front (length : Byte) :
    Verdict.topicLength (p.front length ++ p.payload) 2 = p.topic.length := by
  have fits := p.topicFits
  simp only [Verdict.topicLength, front, List.cons_append, List.nil_append, List.getD_cons_succ,
    List.getD_cons_zero]
  rw [joinBytes, BitVec.toNat_ofNat]
  omega

theorem payloadStart_front (length : Byte) :
    Verdict.payloadStart (p.front length ++ p.payload) p.version 2 = (p.front length).length := by
  have first : (p.front length ++ p.payload).getD 0 0 = p.byte0 := rfl
  rw [Verdict.payloadStart, p.topicLength_front, first]
  simp only [qosCnt_byte0, front, List.length_append, apply_ite List.length, List.length_cons,
    List.length_nil, Nat.zero_add, Nat.reduceAdd]
  omega

theorem front_topic (length : Byte) :
    ((p.front length ++ p.payload).drop 4).take p.topic.length = p.topic := by
  simp only [front, List.append_assoc, List.cons_append, List.nil_append, List.drop_succ_cons,
    List.drop_zero, List.take_left]

theorem front_packetID (length : Byte) (some : p.qos ≠ .atMostOnce) :
    (p.front length ++ p.payload).getD (4 + p.topic.length) 0 ++
      (p.front length ++ p.payload).getD (4 + p.topic.length + 1) 0 = p.packetID := by
  have shift : ∀ i, (p.front length ++ p.payload).getD (4 + p.topic.length + i) 0 =
      ([p.packetID.extractLsb' 8 8, p.packetID.extractLsb' 0 8] ++
        ((if p.version = .version5 then [0x00] else []) ++ p.payload) : List Byte).getD i 0 := fun i => by
    simp only [front, if_pos some, List.append_assoc, List.getD_eq_getElem?_getD]
    rw [List.getElem?_append_right (by simp only [List.length_cons, List.length_nil]; omega),
      List.getElem?_append_right (by simp only [List.length_cons, List.length_nil]; omega)]
    congr 2
    simp only [List.length_cons, List.length_nil]
    omega
  have high := shift 0
  have low := shift 1
  rw [Nat.add_zero] at high
  rw [high, low]
  exact joinBytes p.packetID

/-- A fresh message set to the protocol version of the sender, after the call. -/
def receive (beyond : Nat → Byte) (fresh : NmqttMessage) : ParseCall :=
  parseMessage ⟨host, p.bytes host memory, beyond⟩ ((new fresh).setProtocolVersion p.version)

section Receive
variable (beyond : Nat → Byte) (fresh : NmqttMessage)

/-- A well-sized PUBLISH is accepted. Its QoS bits are taken for each other, and of a
payload of one byte nothing arrives. -/
theorem receive_sized (sized : Verdict.WellSized host (p.bytes host memory)) :
    let c := p.receive host memory beyond fresh
    c.exit = .returned 1 ∧ c.message.topic = p.topic ∧
      c.message.payload = (if p.payload.length = 1 then [] else p.payload) ∧
      c.message.qos = swappedQoS p.qos ∧ c.message.duplicateMessage = p.duplicate ∧
      c.message.retainMessage = p.retain ∧
      (p.qos ≠ .atMostOnce → c.message.packetID = p.packetID) := by
  intro c
  obtain ⟨length, bytes⟩ := p.bytes_front host memory sized
  have start := p.bodyStart_bytes host memory sized
  have first : (p.bytes host memory).getD 0 0 = p.byte0 := by rw [bytes]; rfl
  have payloadStart : Verdict.payloadStart (p.bytes host memory) p.version 2 =
      (p.front length).length := by rw [bytes, p.payloadStart_front]
  have size : (p.bytes host memory).length = (p.front length).length + p.payload.length := by
    rw [bytes, List.length_append]
  have fits : 2 + 2 ≤ (p.bytes host memory).length := by
    simp only [size, front, List.length_append, List.length_cons, List.length_nil]
    omega
  have whole : Verdict.payloadStart (p.bytes host memory) p.version 2 ≤
      (p.bytes host memory).length := by omega
  obtain ⟨exit, message⟩ := parseMessage_publish ⟨host, p.bytes host memory, beyond⟩
    ((new fresh).setProtocolVersion p.version) sized (by rw [first]; exact p.ofByte0_byte0)
    (by rw [start]; exact fits) (by rw [start]; exact whole)
  refine ⟨exit, ?_⟩
  change c.message = _ at message
  rw [message]
  have topicLength : Verdict.topicLength (p.bytes host memory) 2 = p.topic.length := by
    rw [bytes, p.topicLength_front]
  unfold published withTopic
  simp only [start, topicLength]
  refine ⟨?topic, ?payload, ?qos, ?duplicate, ?retain, ?packetID⟩
  case topic => rw [bytes, p.front_topic]
  case payload =>
    change (if Verdict.payloadStart (p.bytes host memory) p.version 2 + 1 =
      (p.bytes host memory).length then [] else
      (p.bytes host memory).drop (Verdict.payloadStart (p.bytes host memory) p.version 2)) = _
    rw [payloadStart, size, bytes, List.drop_left]
    exact if_congr (by omega) rfl rfl
  case qos =>
    change receivedQoS ((p.bytes host memory).getD 0 0) .atMostOnce = _
    rw [first, p.receivedQoS_byte0]
  case duplicate =>
    change ((p.bytes host memory).getD 0 0).getLsbD 3 = _
    rw [first, p.byte0_duplicate]
  case retain =>
    change ((p.bytes host memory).getD 0 0).getLsbD 0 = _
    rw [first, p.byte0_retain]
  case packetID =>
    intro some
    have inside : 2 + 2 + p.topic.length + 2 ≤ (p.bytes host memory).length := by
      rw [size, front, if_pos some]
      simp only [List.length_append, List.length_cons, List.length_nil]
      omega
    rw [first, if_pos (p.qosCnt_byte0.mpr some),
      Buffer.byteAt_eq _ (show 2 + 2 + p.topic.length ≤ (p.bytes host memory).length by omega),
      Buffer.byteAt_eq _ (show 2 + 2 + p.topic.length + 1 ≤ (p.bytes host memory).length by omega)]
    rw [bytes]
    exact p.front_packetID length some

/-- The call accepts, and every field arrives. -/
def RoundTrips : Prop :=
  let c := p.receive host memory beyond fresh
  c.exit = .returned 1 ∧ c.message.topic = p.topic ∧ c.message.payload = p.payload ∧
    c.message.qos = p.qos ∧ c.message.duplicateMessage = p.duplicate ∧
    c.message.retainMessage = p.retain ∧
    (p.qos ≠ .atMostOnce → c.message.packetID = p.packetID)

instance : Decidable (p.RoundTrips host memory beyond fresh) :=
  inferInstanceAs (Decidable (_ ∧ _))

theorem receive_missized (missized : ¬Verdict.WellSized host (p.bytes host memory)) :
    (p.receive host memory beyond fresh).exit = .returned (-1) := by
  unfold receive
  rw [(parseMessage_outcome _ _).1, Verdict.of, if_neg missized]
  rfl

theorem swappedQoS_fixed (qos : MqttQoS) : swappedQoS qos = qos ↔ qos = .atMostOnce := by
  cases qos <;> decide

/-- A PUBLISH comes back exactly when the host is little-endian, the QoS is 0, the
remaining length takes one byte and the payload does not. -/
theorem publish_roundTrips_iff : p.RoundTrips host memory beyond fresh ↔
    host.endian = .le ∧ p.remainingLength ≤ 127 ∧ p.qos = .atMostOnce ∧ p.payload.length ≠ 1 := by
  rw [← and_assoc, ← p.wellSized_bytes_iff host memory]
  by_cases sized : Verdict.WellSized host (p.bytes host memory)
  · obtain ⟨exit, topic, payload, qos, duplicate, retain, packetID⟩ :=
      p.receive_sized host memory beyond fresh sized
    unfold RoundTrips
    simp only [exit, topic, payload, qos, duplicate, retain, swappedQoS_fixed, sized, true_and]
    constructor
    · intro ⟨whole, once, _⟩
      refine ⟨once, fun one => ?_⟩
      rw [if_pos one] at whole
      rw [← whole] at one
      exact absurd one (by decide)
    · intro ⟨once, many⟩
      exact ⟨if_neg many, once, packetID⟩
  · have missized := p.receive_missized host memory beyond fresh sized
    simp only [sized, false_and, iff_false]
    intro back
    rw [back.1] at missized
    exact absurd missized (by decide)

/-- QoS 1 comes back as QoS 2. -/
theorem atLeastOnce_lost :
    ¬Publication.RoundTrips
      { version := .version4, topic := [0x74], payload := [0x68, 0x69], qos := .atLeastOnce,
        duplicate := false, retain := false, packetID := 7, topicFits := by decide,
        fits := by decide } ⟨.le, true⟩ default (fun _ => 0) default := by
  decide

end Receive

end Publication
end NymphMqtt
