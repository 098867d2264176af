import NymphMqtt.MessageParseOutcome

/-! One PUBLISH read into two messages that have been through different things. -/

namespace NymphMqtt
namespace NmqttMessage

/-- What is read from a PUBLISH is the same in both messages; of the packet identifier this
is asked only where the packet has one. -/
structure ReadAlike (bytes : List Byte) (m m' : NmqttMessage) : Prop where
  topic : m.topic = m'.topic
  payload : m.payload = m'.payload
  qos : m.qos = m'.qos
  duplicate : m.duplicateMessage = m'.duplicateMessage
  retain : m.retainMessage = m'.retainMessage
  packetID : 0 < qosCnt (bytes.getD 0 0) → m.packetID = m'.packetID

/-- The members that the packet leaves as they were held the same before. -/
structure HeldAlike (host : Host) (bytes : List Byte) (m m' : NmqttMessage) : Prop where
  qos : qosCnt (bytes.getD 0 0) = 0 → m.qos = m'.qos
  payload : Verdict.payloadStart bytes m.mqttVersion (Verdict.bodyStart host bytes) + 1 =
    bytes.length → m.payload = m'.payload

/-- Any QoS bit decides the QoS. -/
theorem receivedQoS_eq_iff (byte0 : Byte) (old old' : MqttQoS) :
    receivedQoS byte0 old = receivedQoS byte0 old' ↔ (qosCnt byte0 = 0 → old = old') := by
  unfold receivedQoS qosCnt
  cases byte0.getLsbD 2 <;> cases byte0.getLsbD 1 <;> simp

section Accepted
variable (b : Buffer) (m : NmqttMessage)
  (type : MqttPacketType.ofByte0 (b.bytes.getD 0 0) = .publish)
  (accepted : (parseMessage b m).exit = .returned 1)
include type accepted

/-- An accepted PUBLISH lies inside the string. -/
theorem accepted_publish : Verdict.WellSized b.host b.bytes ∧
    Verdict.bodyStart b.host b.bytes + 2 ≤ b.size ∧
    Verdict.payloadStart b.bytes m.mqttVersion (Verdict.bodyStart b.host b.bytes) ≤ b.size := by
  rw [(parseMessage_outcome b m).1, Verdict.of] at accepted
  by_cases sized : Verdict.WellSized b.host b.bytes
  · rw [if_pos sized, type] at accepted
    dsimp only at accepted
    unfold Verdict.publish at accepted
    split at accepted
    next inside => exact ⟨sized, inside⟩
    next => exact absurd accepted (by decide)
  · rw [if_neg sized] at accepted
    exact absurd accepted (by decide)

theorem accepted_message : (parseMessage b m).message = m.published b := by
  obtain ⟨sized, fits, whole⟩ := accepted_publish b m type accepted
  exact (parseMessage_publish b m sized type fits whole).2

/-- With two bytes in place for the packet identifier, nothing behind the string is read. -/
theorem published_packetID (some : 0 < qosCnt (b.bytes.getD 0 0)) :
    let topicEnd := Verdict.bodyStart b.host b.bytes + 2 +
      Verdict.topicLength b.bytes (Verdict.bodyStart b.host b.bytes)
    (m.published b).packetID = b.bytes.getD topicEnd 0 ++ b.bytes.getD (topicEnd + 1) 0 := by
  obtain ⟨-, -, whole⟩ := accepted_publish b m type accepted
  intro topicEnd
  have room : topicEnd + 2 ≤ b.size := by
    unfold Verdict.payloadStart at whole
    rw [if_pos some] at whole
    omega
  have read : (m.published b).packetID = b.byteAt topicEnd ++ b.byteAt (topicEnd + 1) := if_pos some
  rw [read, b.byteAt_eq (by omega), b.byteAt_eq (by omega)]

end Accepted

section Two
variable (host : Host) (bytes : List Byte) (beyond beyond' : Nat → Byte) (m m' : NmqttMessage)

/-- An accepted PUBLISH is read alike exactly if the members that it leaves alone were alike:
the QoS where no bit of it is set, the payload where it has one byte. -/
theorem publish_readAlike_iff (version : m.mqttVersion = m'.mqttVersion)
    (type : MqttPacketType.ofByte0 (bytes.getD 0 0) = .publish)
    (accepted : (parseMessage ⟨host, bytes, beyond⟩ m).exit = .returned 1) :
    ReadAlike bytes (parseMessage ⟨host, bytes, beyond⟩ m).message
        (parseMessage ⟨host, bytes, beyond'⟩ m').message ↔
      HeldAlike host bytes m m' := by
  have accepted' : (parseMessage ⟨host, bytes, beyond'⟩ m').exit = .returned 1 := by
    rw [(parseMessage_outcome _ _).1] at accepted ⊢
    rw [← version]
    exact accepted
  have message := accepted_message ⟨host, bytes, beyond⟩ m type accepted
  have message' := accepted_message ⟨host, bytes, beyond'⟩ m' type accepted'
  have payload : ∀ (held : NmqttMessage) (behind : Nat → Byte), held.mqttVersion = m.mqttVersion →
      (held.published ⟨host, bytes, behind⟩).payload =
        if Verdict.payloadStart bytes m.mqttVersion (Verdict.bodyStart host bytes) + 1 =
          bytes.length then held.payload
        else bytes.drop (Verdict.payloadStart bytes m.mqttVersion (Verdict.bodyStart host bytes)) := by
    intro held behind same
    rw [← same]
    rfl
  have payload₁ := payload m beyond rfl
  have payload₂ := payload m' beyond' version.symm
  rw [message, message']
  constructor
  · intro alike
    refine ⟨fun none => (receivedQoS_eq_iff _ _ _).mp alike.qos none, fun one => ?_⟩
    rw [if_pos one] at payload₁ payload₂
    exact payload₁.symm.trans (alike.payload.trans payload₂)
  · intro held
    exact {
      topic := rfl
      payload := by
        rw [payload₁, payload₂]
        split
        next one => exact held.payload one
        next => rfl
      qos := (receivedQoS_eq_iff _ _ _).mpr held.qos
      duplicate := rfl
      retain := rfl
      packetID := fun some =>
        (published_packetID ⟨host, bytes, beyond⟩ m type accepted some).trans
          (published_packetID ⟨host, bytes, beyond'⟩ m' type accepted' some).symm }

/-- The topic `t` and two bytes of payload, read into a message that had a topic before. -/
theorem publish_readAlike_fresh :
    (new default).mqttVersion = ((new default).setTopic [0x61]).mqttVersion ∧
      ReadAlike [0x30, 0x05, 0x00, 0x01, 0x74, 0x70, 0x71]
        (parseMessage ⟨⟨.le, true⟩, [0x30, 0x05, 0x00, 0x01, 0x74, 0x70, 0x71], fun _ => 0⟩
          (new default)).message
        (parseMessage ⟨⟨.le, true⟩, [0x30, 0x05, 0x00, 0x01, 0x74, 0x70, 0x71], fun _ => 1⟩
          ((new default).setTopic [0x61])).message :=
  ⟨rfl, (publish_readAlike_iff ⟨.le, true⟩ _ _ _ (new default) ((new default).setTopic [0x61]) rfl
    (by decide) (by decide)).mpr ⟨fun _ => rfl, fun _ => rfl⟩⟩

/-- A PUBLISH of QoS 0 and of one byte, received in a message that was set to QoS 2 and one
that was not: the old QoS and the old payload stay. -/
theorem publish_stale :
    let bytes : List Byte := [0x30, 0x04, 0x00, 0x01, 0x74, 0x70]
    let used := ((new default).setQoS .exactlyOnce).setPayload [0x6F, 0x6C, 0x64]
    let c := parseMessage ⟨⟨.le, true⟩, bytes, fun _ => 0⟩ (new default)
    let c' := parseMessage ⟨⟨.le, true⟩, bytes, fun _ => 0⟩ used
    c.exit = .returned 1 ∧ c.message.qos = .atMostOnce ∧ c.message.payload = [] ∧
      c'.exit = .returned 1 ∧ c'.message.qos = .exactlyOnce ∧
      c'.message.payload = [0x6F, 0x6C, 0x64] ∧ ¬ReadAlike bytes c.message c'.message := by
  intro bytes used c c'
  refine ⟨by decide, by decide, by decide, by decide, by decide, by decide, fun alike => ?_⟩
  exact absurd alike.qos (by decide)

end Two
end NmqttMessage
end NymphMqtt
