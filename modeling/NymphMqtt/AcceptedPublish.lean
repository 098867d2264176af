import NymphMqtt.ParseHistory
import NymphMqtt.Transmission

/-! The short PUBLISH packets that the parser accepts are the ones that `serialize` puts out; and
what comes of a packet that is parsed and serialized again. -/

namespace NymphMqtt
open NymphMqtt.Library NymphMqtt.Library.LoggedReader NmqttMessage

/-! ### What is accepted -/

/-- A PUBLISH with one length byte and not both QoS bits, which the parser accepts. -/
structure ShortPublish (host : Host) (bytes : List Byte) : Prop where
  accept : Verdict.of host .version4 bytes = .accept
  type : MqttPacketType.ofByte0 (bytes.getD 0 0) = .publish
  short : (bytes.getD 1 0).toNat < 128
  legal : ¬((bytes.getD 0 0).getLsbD 1 = true ∧ (bytes.getD 0 0).getLsbD 2 = true)

instance (host : Host) (bytes : List Byte) : Decidable (ShortPublish host bytes) :=
  decidable_of_iff (Verdict.of host .version4 bytes = .accept ∧
      MqttPacketType.ofByte0 (bytes.getD 0 0) = .publish ∧ (bytes.getD 1 0).toNat < 128 ∧
      ¬((bytes.getD 0 0).getLsbD 1 = true ∧ (bytes.getD 0 0).getLsbD 2 = true))
    ⟨fun ⟨accept, type, short, legal⟩ => ⟨accept, type, short, legal⟩,
      fun ⟨accept, type, short, legal⟩ => ⟨accept, type, short, legal⟩⟩

/-- The QoS level that `serialize` stands for by these bits. -/
def sentQoS (byte0 : Byte) : MqttQoS :=
  if byte0.getLsbD 1 then .atLeastOnce else if byte0.getLsbD 2 then .exactlyOnce else .atMostOnce

theorem sentQoS_byte0 {byte0 : Byte} (type : MqttPacketType.ofByte0 byte0 = .publish)
    (legal : ¬(byte0.getLsbD 1 = true ∧ byte0.getLsbD 2 = true)) :
    0x30 + (flag (byte0.getLsbD 3) 8 + flag (sentQoS byte0 = .atLeastOnce) 2 +
      flag (sentQoS byte0 = .exactlyOnce) 4 + flag (byte0.getLsbD 0) 1) = byte0 := by
  revert byte0
  decide

theorem sentQoS_qosCnt {byte0 : Byte} : 0 < qosCnt byte0 ↔ sentQoS byte0 ≠ .atMostOnce := by
  revert byte0
  decide

theorem splitBytes (a b : Byte) :
    (a ++ b : BitVec 16).extractLsb' 8 8 = a ∧ (a ++ b : BitVec 16).extractLsb' 0 8 = b :=
  ⟨BitVec.extractLsb'_append_eq_left, BitVec.extractLsb'_append_eq_right⟩

namespace Publication
variable {host : Host} (order : host.endian = .le) (p : Publication)
  (short : p.remainingLength ≤ 127) (memory : NmqttMessage)

section
include order short

theorem bytes_short :
    p.bytes host memory = p.front (BitVec.ofNat 8 p.remainingLength) ++ p.payload := by
  rw [p.bytes_eq, remainingLengthBytes_short order short, front, header, lengthBytes, shortBytes_eq,
    shortBytes_eq]
  simp only [List.cons_append, List.nil_append, List.append_assoc]

theorem bytes_shortPublish (version : p.version = .version4) :
    ShortPublish host (p.bytes host memory) := by
  have sized := (p.wellSized_bytes_iff host memory).mpr ⟨order, short⟩
  have bytes := p.bytes_short order short memory
  have first : (p.bytes host memory).getD 0 0 = p.byte0 := by
    rw [bytes]
    rfl
  refine ⟨?_, by rw [first]; exact p.ofByte0_byte0, ?_, ?_⟩
  · obtain ⟨exit, -⟩ := p.receive_sized host memory (fun _ => 0) default sized
    rw [receive, (parseMessage_outcome _ _).1] at exit
    change (Verdict.of host p.version (p.bytes host memory)).exit = _ at exit
    rw [version] at exit
    revert exit
    cases Verdict.of host .version4 (p.bytes host memory) <;> decide
  · rw [bytes]
    change (BitVec.ofNat 8 p.remainingLength).toNat < 128
    rw [BitVec.toNat_ofNat]
    omega
  · rw [first]
    unfold byte0
    cases p.qos <;> cases p.duplicate <;> cases p.retain <;> decide

end

/-- Parts that make up a string are those of a publication. -/
theorem exists_of_parts {b0 length : Byte} {topic packetID payload : List Byte}
    (type : MqttPacketType.ofByte0 b0 = .publish)
    (legal : ¬(b0.getLsbD 1 = true ∧ b0.getLsbD 2 = true)) (topicFits : topic.length ≤ 65535)
    (id : packetID.length = if sentQoS b0 = .atMostOnce then 0 else 2)
    (sized : length.toNat = 2 + topic.length + packetID.length + payload.length)
    (small : length.toNat < 128) :
    ∃ p : Publication, p.version = .version4 ∧ p.remainingLength = length.toNat ∧
      p.front length ++ p.payload = [b0, length, (BitVec.ofNat 16 topic.length).extractLsb' 8 8,
        (BitVec.ofNat 16 topic.length).extractLsb' 0 8] ++ (topic ++ (packetID ++ payload)) := by
  have remaining : publishLength .version4 (sentQoS b0) topic payload = length.toNat := by
    rw [sized, id]
    rfl
  refine ⟨⟨.version4, topic, payload, sentQoS b0, b0.getLsbD 3, b0.getLsbD 0,
    packetID.getD 0 0 ++ packetID.getD 1 0, topicFits, by omega⟩, rfl, remaining, ?_⟩
  have identifier : (if sentQoS b0 ≠ .atMostOnce then
      [(packetID.getD 0 0 ++ packetID.getD 1 0 : BitVec 16).extractLsb' 8 8,
        (packetID.getD 0 0 ++ packetID.getD 1 0 : BitVec 16).extractLsb' 0 8] else []) = packetID := by
    obtain ⟨high, low⟩ := splitBytes (packetID.getD 0 0) (packetID.getD 1 0)
    rw [high, low]
    by_cases none : sentQoS b0 = .atMostOnce
    · rw [if_pos none] at id
      rw [if_neg (not_not.mpr none), List.length_eq_zero_iff.mp id]
    · rw [if_neg none] at id
      rw [if_pos none]
      match packetID, id with
      | [_, _], _ => rfl
  have first := sentQoS_byte0 type legal
  simp only [front, byte0, first, identifier, reduceCtorEq, if_false, List.append_nil,
    List.append_assoc]

theorem exists_of_accepted (order : host.endian = .le) {bytes : List Byte}
    (publish : ShortPublish host bytes) :
    ∃ p : Publication, p.version = .version4 ∧ p.remainingLength ≤ 127 ∧
      bytes = p.bytes host memory := by
  obtain ⟨accept, type, small, legal⟩ := publish
  have sized : Verdict.WellSized host bytes := by
    by_contra missized
    rw [Verdict.of, if_neg missized] at accept
    cases accept
  have length := (Verdict.wellSized_small host bytes small).mp sized
  have start : Verdict.bodyStart host bytes = 2 := by
    rw [Verdict.bodyStart, (Verdict.packedLength_small host bytes small).1]
  rw [Verdict.of, if_pos sized, type] at accept
  change Verdict.publish bytes .version4 (Verdict.bodyStart host bytes) = .accept at accept
  rw [start, Verdict.publish] at accept
  have inside : 2 + 2 ≤ bytes.length ∧ Verdict.payloadStart bytes .version4 2 ≤ bytes.length := by
    by_contra outside
    rw [if_neg outside] at accept
    cases accept
  obtain ⟨long, within⟩ := inside
  obtain _ | ⟨b0, _ | ⟨b1, _ | ⟨high, _ | ⟨low, rest⟩⟩⟩⟩ := bytes
  -- fewer than four bytes do not hold the topic's prefix
  iterate 4 exact absurd long (by simp only [List.length_cons, List.length_nil]; omega)
  · change b1.toNat < 128 at small
    change MqttPacketType.ofByte0 b0 = .publish at type
    change ¬(b0.getLsbD 1 = true ∧ b0.getLsbD 2 = true) at legal
    change rest.length + 1 + 1 + 1 + 1 = 2 + b1.toNat at length
    change 2 + 2 + (high ++ low : BitVec 16).toNat + (if 0 < qosCnt b0 then 2 else 0) + 0 ≤
      rest.length + 1 + 1 + 1 + 1 at within
    have bound := (high ++ low : BitVec 16).isLt
    -- where the topic ends, and how long the packet identifier is
    generalize same : (high ++ low : BitVec 16).toNat = topicLength at within bound
    generalize width : (if sentQoS b0 = .atMostOnce then 0 else 2) = idLength
    have fits : topicLength + idLength ≤ rest.length := by
      rw [← width]
      simp only [sentQoS_qosCnt, ne_eq, ite_not] at within
      omega
    have topicTaken : (rest.take topicLength).length = topicLength :=
      List.length_take_of_le (by omega)
    have idTaken : ((rest.drop topicLength).take idLength).length = idLength :=
      List.length_take_of_le (by rw [List.length_drop]; omega)
    obtain ⟨p, version, remaining, whole⟩ := @exists_of_parts b0 b1 (rest.take topicLength)
      ((rest.drop topicLength).take idLength) ((rest.drop topicLength).drop idLength) type legal
      (by omega) (by rw [idTaken, width])
      (by rw [topicTaken, idTaken, List.length_drop, List.length_drop]; omega) small
    refine ⟨p, version, by omega, ?_⟩
    have lengthByte : BitVec.ofNat 8 p.remainingLength = b1 := by
      rw [remaining, BitVec.ofNat_toNat, BitVec.setWidth_eq]
    obtain ⟨first, second⟩ := splitBytes high low
    rw [p.bytes_short order (by omega) memory, lengthByte, whole, topicTaken, ← same,
      BitVec.ofNat_toNat, BitVec.setWidth_eq, first, second, List.take_append_drop,
      List.take_append_drop]
    rfl

end Publication

/-- The short PUBLISH packets that are accepted are the publications as they are serialized. -/
theorem accepted_publish_iff {host : Host} (order : host.endian = .le) (memory : NmqttMessage)
    (bytes : List Byte) : ShortPublish host bytes ↔
      ∃ p : Publication, p.version = .version4 ∧ p.remainingLength ≤ 127 ∧
        bytes = p.bytes host memory := by
  constructor
  · exact fun publish => Publication.exists_of_accepted memory order publish
  · rintro ⟨p, version, short, rfl⟩
    exact p.bytes_shortPublish order short memory version

/-- A packet with topic "t" and no payload is some publication's. -/
theorem accepted_publish_one : ∃ p : Publication, p.version = .version4 ∧ p.remainingLength ≤ 127 ∧
    ([0x30, 0x03, 0x00, 0x01, 0x74] : List Byte) = p.bytes ⟨.le, true⟩ default :=
  (@accepted_publish_iff ⟨.le, true⟩ rfl default [0x30, 0x03, 0x00, 0x01, 0x74]).mp (by decide)

/-! ### Serialized again -/

/-- A received string, serialized again from the message that the parser has made of it. -/
def reserialized (host : Host) (beyond : Nat → Byte) (memory : NmqttMessage) (bytes : List Byte) : List Byte :=
  ((parseMessage ⟨host, bytes, beyond⟩ (new memory)).message.serialize host).1

/-- The first byte with its two QoS bits in each other's place. -/
def exchangeQoS (byte0 : Byte) : Byte :=
  (byte0 &&& 0xF9) ||| ((byte0 &&& 0x02) <<< 1) ||| ((byte0 &&& 0x04) >>> 1)

namespace Publication
variable (p : Publication)

theorem swappedQoS_none (qos : MqttQoS) : swappedQoS qos = .atMostOnce ↔ qos = .atMostOnce := by
  cases qos <;> decide

/-- What the parser finds of a payload. -/
def found (payload : List Byte) : List Byte := if payload.length = 1 then [] else payload

theorem found_many {payload : List Byte} (many : payload.length ≠ 1) : found payload = payload :=
  if_neg many

theorem found_length (payload : List Byte) : (found payload).length ≤ payload.length := by
  unfold found
  split
  · exact Nat.zero_le _
  · exact Nat.le_refl _

theorem publishLength_found (version : MqttProtocolVersion) (qos : MqttQoS)
    (topic payload : List Byte) : publishLength version (swappedQoS qos) topic (found payload) ≤
      publishLength version qos topic payload := by
  have shorter := found_length payload
  simp only [publishLength, swappedQoS_none]
  omega

/-- The fields that the parser finds. -/
def parsed : Publication where
  version := p.version
  topic := p.topic
  payload := found p.payload
  qos := swappedQoS p.qos
  duplicate := p.duplicate
  retain := p.retain
  packetID := p.packetID
  topicFits := p.topicFits
  fits := Nat.le_trans (publishLength_found _ _ _ _) p.fits

theorem flags_exchanged (duplicate retain : Bool) (qos : MqttQoS) :
    0x30 + (flag duplicate 8 + flag (swappedQoS qos = .atLeastOnce) 2 +
      flag (swappedQoS qos = .exactlyOnce) 4 + flag retain 1) =
    exchangeQoS (0x30 + (flag duplicate 8 + flag (qos = .atLeastOnce) 2 +
      flag (qos = .exactlyOnce) 4 + flag retain 1)) := by
  cases qos <;> cases duplicate <;> cases retain <;> decide

theorem parsed_byte0 : p.parsed.byte0 = exchangeQoS p.byte0 :=
  flags_exchanged p.duplicate p.retain p.qos

theorem ite_swapped (qos : MqttQoS) (id : List Byte) :
    (if swappedQoS qos ≠ .atMostOnce then id else []) =
      if qos ≠ .atMostOnce then id else [] := by
  cases qos <;> rfl

theorem parsed_header (host : Host) : p.parsed.header host = p.header host := by
  rw [header, header]
  exact congrArg (fun id => lengthBytes host p.topic ++ p.topic ++ id ++
    if p.version = .version5 then [0x00] else []) (ite_swapped p.qos _)

theorem identifier_parsed (host : Host) {qos : MqttQoS} {id id' : BitVec 16}
    (same : qos ≠ .atMostOnce → id = id') :
    (if swappedQoS qos ≠ .atMostOnce then shortBytes host id else []) =
      if swappedQoS qos ≠ .atMostOnce then shortBytes host id' else [] := by
  by_cases none : qos = .atMostOnce
  · rw [none]
    rfl
  · rw [same none]

theorem parsed_remainingLength (many : p.payload.length ≠ 1) :
    p.parsed.remainingLength = p.remainingLength := by
  simp only [remainingLength, publishLength, parsed, found_many many, swappedQoS_none]

theorem parsed_le : p.parsed.remainingLength ≤ p.remainingLength := publishLength_found _ _ _ _

theorem parsed_twice (many : p.payload.length ≠ 1) : p.parsed.parsed = p := by
  obtain ⟨version, topic, payload, qos, duplicate, retain, packetID, topicFits, fits⟩ := p
  change payload.length ≠ 1 at many
  simp only [parsed, found_many many, mk.injEq, true_and, and_true]
  cases qos <;> rfl

variable {host : Host} (order : host.endian = .le) (short : p.remainingLength ≤ 127)
  (version : p.version = .version4) (memory memory' : NmqttMessage) (beyond : Nat → Byte)
include order short version

/-- The message that the parser makes of a publication is drafted as the parsed one. -/
theorem draft_received :
    draft host (parseMessage ⟨host, p.bytes host memory, beyond⟩ (new memory')).message =
      ⟨p.parsed.byte0, p.parsed.header host, p.parsed.payload⟩ := by
  have sized := (p.wellSized_bytes_iff host memory).mpr ⟨order, short⟩
  have publish := p.bytes_shortPublish order short memory version
  have call : parseMessage ⟨host, p.bytes host memory, beyond⟩ (new memory') =
      p.receive host memory beyond memory' := by
    rw [receive, version]
    rfl
  obtain ⟨exit, topic, payload, qos, duplicate, retain, packetID⟩ :=
    p.receive_sized host memory beyond memory' sized
  have message := accepted_message ⟨host, p.bytes host memory, beyond⟩ (new memory') publish.type
    (call ▸ exit)
  have command : (p.receive host memory beyond memory').message.command = .publish := by
    rw [← call, message]
    exact publish.type
  have version' : (p.receive host memory beyond memory').message.mqttVersion = p.version := by
    rw [← call, message, version]
    rfl
  rw [call, draft, command]
  change draftPublish host _ = _
  rw [draftPublish, publishFlags, command, topic, payload, qos, duplicate, retain, version']
  rw [identifier_parsed host packetID]
  rfl

theorem reserialized_bytes :
    reserialized host beyond memory' (p.bytes host memory) = p.parsed.bytes host memory := by
  rw [p.parsed.bytes_eq, ← p.parsed.header_length host]
  simp only [reserialized, serialize, p.draft_received order short version memory memory' beyond]

end Publication

/-- A short PUBLISH that is parsed and serialized again has its QoS bits exchanged and is the same
otherwise, unless its payload has one byte; and twice over it is the same. -/
theorem publish_reserialized {host : Host} (order : host.endian = .le) {bytes : List Byte}
    (publish : ShortPublish host bytes)
    (many : Verdict.payloadStart bytes .version4 2 + 1 ≠ bytes.length) (beyond : Nat → Byte)
    (memory : NmqttMessage) :
    reserialized host beyond memory bytes = exchangeQoS (bytes.getD 0 0) :: bytes.tail ∧
      ShortPublish host (reserialized host beyond memory bytes) ∧
      reserialized host beyond memory (reserialized host beyond memory bytes) = bytes := by
  obtain ⟨p, version, short, rfl⟩ := Publication.exists_of_accepted memory order publish
  have payload : p.payload.length ≠ 1 := by
    intro one
    apply many
    rw [p.bytes_short order short memory, ← version, p.payloadStart_front, List.length_append, one]
  have short' : p.parsed.remainingLength ≤ 127 := Nat.le_trans p.parsed_le short
  rw [p.reserialized_bytes order short version memory memory beyond]
  refine ⟨?_, p.parsed.bytes_shortPublish order short' memory version, ?_⟩
  · rw [Publication.bytes_eq, Publication.bytes_eq, p.parsed_remainingLength payload,
      p.parsed_header, p.parsed_byte0]
    exact congrArg (exchangeQoS p.byte0 :: remainingLengthBytes host _ ++ p.header host ++ ·)
      (Publication.found_many payload)
  · rw [p.parsed.reserialized_bytes order short' version memory memory beyond, p.parsed_twice payload]

/-- A packet of QoS 2 is put out again as one of QoS 1. -/
theorem publish_reserialized_once : reserialized ⟨.le, true⟩ (fun _ => 0) default
    [0x34, 0x05, 0x00, 0x01, 0x74, 0x00, 0x07] = [0x32, 0x05, 0x00, 0x01, 0x74, 0x00, 0x07] :=
  (@publish_reserialized ⟨.le, true⟩ rfl [0x34, 0x05, 0x00, 0x01, 0x74, 0x00, 0x07] (by decide) (by decide)
    (fun _ => 0) default).1

end NymphMqtt
