import NymphMqtt.ConnectEncoding

/-! The SUBSCRIBE and UNSUBSCRIBE packets of a client against the layout that MQTT 3.1.1
gives them. -/

namespace NymphMqtt

inductive FilterCommand where
  | subscribe
  | unsubscribe
  deriving DecidableEq, Repr

namespace FilterCommand

/-! ### The layout -/

/-- What stands behind a topic filter: the QoS that a SUBSCRIBE asks for. -/
def Options : FilterCommand → List Byte → Prop
  | .subscribe, options => ∃ qos : Byte, qos.toNat ≤ 2 ∧ options = [qos]
  | .unsubscribe, options => options = []

/-- A packet identifier, and then one topic filter. -/
def Parses (command : FilterCommand) (topic : FieldText) (bytes : List Byte) : Prop :=
  ∃ id options, id.length = 2 ∧ command.Options options ∧
    bytes = id ++ (stringField topic.1 ++ options)

/-! ### The message -/

def type : FilterCommand → MqttPacketType
  | .subscribe => .subscribe
  | .unsubscribe => .unsubscribe

/-- The message as `subscribe` and `unsubscribe` build it. -/
def message (command : FilterCommand) (topic : FieldText) (memory : NmqttMessage) : NmqttMessage :=
  (NmqttMessage.ofType memory command.type).setTopic topic.1

/-- What `serialize` emits behind the first byte and the length bytes. -/
def emitted (command : FilterCommand) (topic : FieldText) (host : Host) (memory : NmqttMessage) :
    List Byte :=
  let m := command.message topic memory
  let msgLen := BitVec.ofNat 32 (m.body host).length
  (m.serialize host).1.drop (1 + (NmqttMessage.remainingLengthBytes host msgLen).length)

section Emitted
variable (topic : FieldText) (host : Host) (memory : NmqttMessage)

theorem emitted_eq (command : FilterCommand) :
    command.emitted topic host memory = (command.message topic memory).body host :=
  (command.message topic memory).serialize_drop host

/-- Nothing was appended to the payload before. -/
theorem subscribe_body : (subscribe.message topic memory).body host =
    [0x00, 0x0A] ++ (stringField topic.1 ++ [0x00]) := by
  have id : NmqttMessage.shortBytes host 10 = [0x00, 0x0A] := by
    rw [NmqttMessage.shortBytes_eq]
    rfl
  calc (subscribe.message topic memory).body host
      = NmqttMessage.shortBytes host 10 ++ [] ++
          ([] ++ (NmqttMessage.lengthBytes host topic.1 ++ topic.1) ++ [0x00]) := rfl
    _ = [0x00, 0x0A] ++ (stringField topic.1 ++ [0x00]) := by
        rw [id, shortBytes_lengthPrefix, List.append_nil, List.nil_append, stringField]

theorem unsubscribe_body_length :
    ((unsubscribe.message topic memory).body host).length = 6 + topic.1.length := by
  calc ((unsubscribe.message topic memory).body host).length
      = (NmqttMessage.shortBytes host 10 ++ NmqttMessage.shortBytes host memory.packetID ++
          ([] ++ (NmqttMessage.wideLengthBytes host topic.1 ++ topic.1))).length := rfl
    _ = 6 + topic.1.length := by
        simp only [List.length_append, NmqttMessage.shortBytes_length,
          NmqttMessage.wideLengthBytes_length, List.length_nil]
        omega

/-- The length of an UNSUBSCRIBE leaves no room for a second packet identifier. -/
theorem Parses.unsubscribe_length {bytes : List Byte} (parses : unsubscribe.Parses topic bytes) :
    bytes.length = 4 + topic.1.length := by
  obtain ⟨id, options, two, none, rfl⟩ := parses
  rw [show options = [] from none, List.append_nil, stringField, List.length_append,
    List.length_append, two]
  change 2 + (2 + topic.1.length) = _
  omega

/-- A SUBSCRIBE is laid out as it should be, and an UNSUBSCRIBE never is. -/
theorem filter_encoded_iff (command : FilterCommand) :
    command.Parses topic (command.emitted topic host memory) ↔ command = .subscribe := by
  rw [emitted_eq]
  cases command with
  | subscribe =>
    refine iff_of_true ⟨[0x00, 0x0A], [0x00], rfl, ⟨0, by decide, rfl⟩, ?_⟩ rfl
    exact subscribe_body topic host memory
  | unsubscribe =>
    refine iff_of_false (fun parses => ?_) (by decide)
    have expected := parses.unsubscribe_length topic
    rw [unsubscribe_body_length] at expected
    omega

end Emitted

/-- The topic `a`: a packet identifier, the member `packetID`, a zero length, the topic. -/
theorem unsubscribe_misencoded :
    let topic : FieldText := ⟨[0x61], by decide⟩
    unsubscribe.emitted topic ⟨.le, true⟩ default = [0x00, 0x0A, 0x00, 0x00, 0x00, 0x00, 0x61] ∧
      ¬unsubscribe.Parses topic (unsubscribe.emitted topic ⟨.le, true⟩ default) := by
  intro topic
  have bytes : unsubscribe.emitted topic ⟨.le, true⟩ default =
      [0x00, 0x0A, 0x00, 0x00, 0x00, 0x00, 0x61] := by decide
  rw [bytes]
  refine ⟨rfl, fun parses => ?_⟩
  exact absurd (parses.unsubscribe_length topic) (by decide)

end FilterCommand
end NymphMqtt
