import NymphMqtt.MessageByteOrder

/-! The length in front of each string of a packet, whatever the length of the string. -/

namespace NymphMqtt
namespace NmqttMessage

/-- A length of two bytes, the high one first. -/
def prefixValue (bytes : List Byte) : Nat := 256 * (bytes.getD 0 0).toNat + (bytes.getD 1 0).toNat

/-- The strings stand one behind the other, each behind the number of its bytes. -/
def StringsAt : List (List Byte) → List Byte → Prop
  | [], _ => True
  | text :: texts, bytes =>
    2 ≤ bytes.length ∧ prefixValue bytes = text.length ∧ text <+: bytes.drop 2 ∧
      StringsAt texts (bytes.drop (2 + text.length))

/-- The strings that a message of its type carries, in order. -/
def strings (m : NmqttMessage) : List (List Byte) :=
  match m.command with
  | .connect => [m.clientId] ++ (if m.willFlag then [m.willTopic, m.will] else []) ++
      (if m.usernameFlag then [m.username] else []) ++ (if m.passwordFlag then [m.password] else [])
  | .publish | .subscribe | .unsubscribe => [m.topic]
  | _ => []

/-- A topic to publish to begins the variable header; the other strings are appended to the payload. -/
def stringsStart (host : Host) (m : NmqttMessage) : Nat :=
  match m.command with
  | .publish => 0
  | _ => (m.draft host).varHeader.length + m.payload.length

/-- What `serialize` emits from the first string on. -/
def emittedStrings (host : Host) (m : NmqttMessage) : List Byte :=
  let msgLen := BitVec.ofNat 32 (m.body host).length
  ((m.serialize host).1.drop (1 + (remainingLengthBytes host msgLen).length)).drop (m.stringsStart host)

/-! ### What the prefixes can describe -/

/-- A text whose length goes out as a converted `size_t`. -/
def Describable (host : Host) (text : List Byte) : Prop :=
  text.length ≤ 65535 ∧ (host.endian = .le → text = [])

/-- The user name is as long as the length of the will topic says. -/
def UsernameDescribed (host : Host) (m : NmqttMessage) : Prop :=
  m.username.length = (if host.endian = .le then m.willTopic.length / 2 ^ 48 else m.willTopic.length) % 65536

/-- Every string of the message has the length that goes out in front of it. -/
def StringsDescribed (host : Host) (m : NmqttMessage) : Prop :=
  match m.command with
  | .connect => m.clientId.length ≤ 65535 ∧
      (m.willFlag = true → Describable host m.willTopic ∧ Describable host m.will) ∧
      (m.usernameFlag = true → UsernameDescribed host m) ∧
      (m.passwordFlag = true → Describable host m.password)
  | .publish | .subscribe => m.topic.length ≤ 65535
  | .unsubscribe => Describable host m.topic
  | _ => True

/-! ### Prefixes -/

theorem prefixValue_short (host : Host) (text : List Byte) :
    prefixValue (lengthBytes host text) = text.length % 65536 := by
  rw [lengthBytes, shortBytes_eq]
  simp only [prefixValue, List.getD_cons_zero, List.getD_cons_succ, BitVec.extractLsb'_toNat,
    BitVec.toNat_ofNat, Nat.shiftRight_eq_div_pow]
  omega

theorem prefixValue_wide (host : Host) (text : List Byte) :
    prefixValue (wideLengthBytes host text) =
      (if host.endian = .le then text.length / 2 ^ 48 else text.length) % 65536 := by
  cases order : host.endian with
  | le =>
    rw [wideLengthBytes_le order, if_pos rfl]
    simp only [prefixValue, List.getD_cons_zero, List.getD_cons_succ, BitVec.extractLsb'_toNat,
      BitVec.toNat_ofNat, Nat.shiftRight_eq_div_pow]
    omega
  | be =>
    rw [wideLengthBytes_be order, if_neg (by decide)]
    simp only [prefixValue, List.getD_cons_zero, List.getD_cons_succ, BitVec.extractLsb'_toNat,
      BitVec.toNat_ofNat, Nat.shiftRight_eq_div_pow]
    omega

theorem prefixValue_short_iff (host : Host) (text : List Byte) :
    prefixValue (lengthBytes host text) = text.length ↔ text.length ≤ 65535 := by
  rw [prefixValue_short]
  omega

theorem prefixValue_wide_iff (host : Host) (text : List Byte) :
    prefixValue (wideLengthBytes host text) = text.length ↔ Describable host text := by
  rw [prefixValue_wide, Describable, ← List.length_eq_zero_iff]
  by_cases order : host.endian = .le
  · have high := Nat.mod_le (text.length / 2 ^ 48) 65536
    rw [if_pos order, forall_prop_of_true order]
    omega
  · rw [if_neg order, forall_prop_of_false order, and_true]
    omega

theorem prefixValue_username_iff (host : Host) (m : NmqttMessage) :
    prefixValue (wideLengthBytes host m.willTopic) = m.username.length ↔ UsernameDescribed host m := by
  rw [prefixValue_wide, UsernameDescribed]
  exact eq_comm

/-! ### The strings as they are appended -/

/-- Each string behind the bytes that are appended in front of it. -/
def fields (host : Host) (m : NmqttMessage) : List (List Byte × List Byte) :=
  match m.command with
  | .connect => [(lengthBytes host m.clientId, m.clientId)] ++
      (if m.willFlag then [(wideLengthBytes host m.willTopic, m.willTopic),
        (wideLengthBytes host m.will, m.will)] else []) ++
      (if m.usernameFlag then [(wideLengthBytes host m.willTopic, m.username)] else []) ++
      (if m.passwordFlag then [(wideLengthBytes host m.password, m.password)] else [])
  | .publish | .subscribe => [(lengthBytes host m.topic, m.topic)]
  | .unsubscribe => [(wideLengthBytes host m.topic, m.topic)]
  | _ => []

def fieldsBytes (fields : List (List Byte × List Byte)) : List Byte :=
  fields.flatMap fun field => field.1 ++ field.2

theorem stringsAt_fields {fields : List (List Byte × List Byte)} (tail : List Byte)
    (two : ∀ field ∈ fields, field.1.length = 2) :
    StringsAt (fields.map Prod.snd) (fieldsBytes fields ++ tail) ↔
      ∀ field ∈ fields, prefixValue field.1 = field.2.length := by
  induction fields with
  | nil => exact iff_of_true trivial fun _ member => nomatch member
  | cons field fields ih =>
    obtain ⟨number, text⟩ := field
    rw [List.forall_mem_cons] at two ⊢
    rw [← ih two.2]
    match number, two.1 with
    | [high, low], _ =>
      have split : fieldsBytes (([high, low], text) :: fields) ++ tail =
          high :: low :: (text ++ (fieldsBytes fields ++ tail)) := by
        simp only [fieldsBytes, List.flatMap_cons, List.append_assoc, List.cons_append, List.nil_append]
      rw [split, List.map_cons, StringsAt]
      have rest : (high :: low :: (text ++ (fieldsBytes fields ++ tail))).drop (2 + text.length) =
          fieldsBytes fields ++ tail := by
        rw [Nat.add_comm, List.drop_succ_cons, List.drop_succ_cons, List.drop_left]
      rw [rest]
      have enough : 2 ≤ (high :: low :: (text ++ (fieldsBytes fields ++ tail))).length := by
        simp only [List.length_cons]
        omega
      have front : text <+: (high :: low :: (text ++ (fieldsBytes fields ++ tail))).drop 2 :=
        List.prefix_append _ _
      rw [and_iff_right enough, and_iff_right front]
      rfl

theorem fields_strings (host : Host) (m : NmqttMessage) : (m.fields host).map Prod.snd = m.strings := by
  unfold fields strings
  cases m.command with
  | connect =>
    dsimp only
    cases m.willFlag <;> cases m.usernameFlag <;> cases m.passwordFlag <;> rfl
  | _ => rfl

theorem fields_two (host : Host) (m : NmqttMessage) : ∀ field ∈ m.fields host, field.1.length = 2 := by
  have short (text : List Byte) : (lengthBytes host text).length = 2 := shortBytes_length host _
  have wide (text : List Byte) : (wideLengthBytes host text).length = 2 := wideLengthBytes_length host _
  unfold fields
  cases m.command with
  | connect =>
    dsimp only
    cases m.willFlag <;> cases m.usernameFlag <;> cases m.passwordFlag <;>
      simp [short, wide]
  | publish => simp [short]
  | subscribe => simp [short]
  | unsubscribe => simp [wide]
  | _ => simp

theorem fields_described_iff (host : Host) (m : NmqttMessage) :
    (∀ field ∈ m.fields host, prefixValue field.1 = field.2.length) ↔ StringsDescribed host m := by
  unfold fields StringsDescribed
  cases m.command with
  | connect =>
    simp only [List.forall_mem_append, List.forall_mem_singleton, prefixValue_short_iff, and_assoc]
    refine and_congr_right' (and_congr ?_ (and_congr ?_ ?_))
    · cases m.willFlag with
      | false => simp
      | true => simp [prefixValue_wide_iff]
    · cases m.usernameFlag with
      | false => simp
      | true => simp [prefixValue_username_iff]
    · cases m.passwordFlag with
      | false => simp
      | true => simp [prefixValue_wide_iff]
  | publish => simp [prefixValue_short_iff]
  | subscribe => simp [prefixValue_short_iff]
  | unsubscribe => simp [prefixValue_wide_iff]
  | _ => simp

/-- Except for PUBLISH the strings are appended to the payload. -/
theorem payload_fields (host : Host) (m : NmqttMessage) (other : m.command ≠ .publish) :
    ∃ tail, (m.draft host).payload = m.payload ++ (fieldsBytes (m.fields host) ++ tail) := by
  unfold draft fields
  cases command : m.command with
  | connect =>
    refine ⟨[], ?_⟩
    simp only [draftConnect]
    cases m.willFlag <;> cases m.usernameFlag <;> cases m.passwordFlag <;>
      simp [fieldsBytes]
  | publish => exact absurd command other
  | subscribe => exact ⟨[0x00], by simp [draftSubscribe, fieldsBytes]⟩
  | unsubscribe => exact ⟨[], by simp [draftUnsubscribe, fieldsBytes]⟩
  | connack => exact ⟨[], (List.append_nil _).symm⟩
  | _ => exact ⟨[], (List.append_nil _).symm⟩

theorem body_fields (host : Host) (m : NmqttMessage) :
    ∃ tail, (m.body host).drop (m.stringsStart host) = fieldsBytes (m.fields host) ++ tail := by
  by_cases publish : m.command = .publish
  · have start : m.stringsStart host = 0 := by rw [stringsStart, publish]
    have front : m.fields host = [(lengthBytes host m.topic, m.topic)] := by rw [fields, publish]
    rw [start, front, List.drop_zero, body, draft, publish, draftPublish]
    simp only [fieldsBytes, List.flatMap_cons, List.flatMap_nil, List.append_nil, List.append_assoc]
    exact ⟨_, rfl⟩
  · obtain ⟨tail, payload⟩ := payload_fields host m publish
    have start : m.stringsStart host = (m.draft host).varHeader.length + m.payload.length := by
      unfold stringsStart
      split
      · contradiction
      · rfl
    refine ⟨tail, ?_⟩
    rw [start, body, payload, ← List.append_assoc, ← List.length_append, List.drop_left]

/-- No prefix is wrong exactly if the lengths of the strings are those that can go out. -/
theorem prefixes_right_iff (host : Host) (m : NmqttMessage) :
    StringsAt m.strings (m.emittedStrings host) ↔ StringsDescribed host m := by
  obtain ⟨tail, emitted⟩ := body_fields host m
  rw [emittedStrings, serialize_drop, emitted, ← fields_strings host m, stringsAt_fields tail (fields_two host m)]
  exact fields_described_iff host m

/-- The receiver of a PUBLISH takes the topic modulo 65536 bytes, and the rest as payload. -/
theorem publish_counted (host : Host) {m : NmqttMessage} (publish : m.command = .publish) :
    prefixValue (m.emittedStrings host) = m.topic.length % 65536 := by
  obtain ⟨tail, front⟩ := body_fields host m
  have field : m.fields host = [(lengthBytes host m.topic, m.topic)] := by rw [fields, publish]
  rw [← prefixValue_short host, emittedStrings, serialize_drop, front, field]
  simp only [fieldsBytes, List.flatMap_cons, List.append_assoc, lengthBytes, shortBytes_eq]
  rfl

/-- A topic of 65536 bytes: the prefix says that there is none. -/
theorem long_topic_wrapped :
    let m := (NmqttMessage.ofType default .publish).setTopic (List.replicate 65536 0x61)
    prefixValue (m.emittedStrings (.little true)) = 0 ∧
      ¬StringsAt m.strings (m.emittedStrings (.little true)) := by
  intro m
  have publish : m.command = .publish := rfl
  have topic : m.topic.length = 65536 := List.length_replicate
  have strings : m.strings = [m.topic] := by rw [NmqttMessage.strings, publish]
  have none : prefixValue (m.emittedStrings (.little true)) = 0 := by
    rw [publish_counted _ publish, topic]
  refine ⟨none, ?_⟩
  rw [strings]
  intro ⟨_, number, _⟩
  omega

end NmqttMessage
end NymphMqtt
