import NymphMqtt.MessageVerdict

/-! How `parseMessage` ends on every string: the verdict on the string decides the
exit and the validity, and the positions read are followed branch by branch. -/

namespace NymphMqtt
open NymphMqtt.Library NymphMqtt.Library.LoggedReader
namespace NmqttMessage

/-! ### The PUBLISH branch -/

section Publish
variable (b : Buffer) (idx : Nat) (s : NmqttMessage)

theorem parseTopic_run : parseTopic b idx s =
    let topicLen := (b.byteAt idx ++ b.byteAt (idx + 1) : BitVec 16).toNat
    if idx + 2 ≤ b.size then
      ⟨.ok (idx + 2 + topicLen), { s with topic := (b.bytes.drop (idx + 2)).take topicLen },
        [idx, idx + 1]⟩
    else ⟨.error .outOfRange, s, [idx, idx + 1]⟩ := by
  simp only [parseTopic, Buffer.load16, Buffer.substr, read_bind_run, ByteBauble.toHost16_load16]
  by_cases fits : idx + 2 ≤ b.size
  · simp only [if_pos fits, pure_bind_run, update_bind_run, pure_run, List.append_nil]
  · simp only [if_neg fits, exit_bind_run, List.append_nil]

theorem parsePacketID_run (qosCnt : Nat) : parsePacketID b idx qosCnt s =
    ⟨.ok (idx + if 0 < qosCnt then 2 else 0),
      { s with packetID := if 0 < qosCnt then b.byteAt idx ++ b.byteAt (idx + 1) else s.packetID },
      if 0 < qosCnt then [idx, idx + 1] else []⟩ := by
  unfold parsePacketID
  by_cases some : 0 < qosCnt
  · simp only [if_pos some, Buffer.load16, read_bind_run, update_bind_run, pure_run,
      ByteBauble.toHost16_load16, List.append_nil]
  · simp only [if_neg some]
    rfl

theorem parseProperties_run :
    parseProperties b idx s = ⟨.ok (idx + if s.mqttVersion = .version5 then 1 else 0), s,
      if s.mqttVersion = .version5 then [idx] else []⟩ := by
  unfold parseProperties
  rw [get_bind_run]
  by_cases five : s.mqttVersion = .version5
  · simp only [if_pos five, Buffer.charAt, read_bind_run, pure_run, List.append_nil]
  · simp only [if_neg five]
    rfl

theorem parsePayload_run : parsePayload b idx s =
    if idx ≤ b.size then
      ⟨.ok (), { s with payload := if idx + 1 = b.size then s.payload else b.bytes.drop idx }, []⟩
    else ⟨.error .outOfRange, s, []⟩ := by
  unfold parsePayload
  by_cases one : idx + 1 = b.size
  · rw [if_neg (not_not.mpr one), if_pos (by omega), if_pos one]
    rfl
  · rw [if_pos one]
    by_cases within : idx ≤ b.size
    · have whole : (b.bytes.drop idx).take b.size = b.bytes.drop idx :=
        List.take_of_length_le (by rw [List.length_drop]; exact Nat.sub_le _ _)
      simp only [Buffer.substr, if_pos within, if_neg one, pure_bind_run, whole]
      rfl
    · simp only [Buffer.substr, if_neg within, exit_bind_run]

/-- The topic and, where the QoS bits ask for one, the packet identifier. -/
def withTopic (s : NmqttMessage) (b : Buffer) (idx : Nat) : NmqttMessage :=
  let topicLen := Verdict.topicLength b.bytes idx
  { s with
    topic := (b.bytes.drop (idx + 2)).take topicLen
    packetID := if 0 < qosCnt (b.bytes.getD 0 0) then
      b.byteAt (idx + 2 + topicLen) ++ b.byteAt (idx + 2 + topicLen + 1) else s.packetID }

/-- Every position before `payloadStart` that the PUBLISH branch reads. -/
def publishReads (bytes : List Byte) (version : MqttProtocolVersion) (idx : Nat) : List Nat :=
  let some := 0 < qosCnt (bytes.getD 0 0)
  let topicEnd := idx + 2 + Verdict.topicLength bytes idx
  [idx, idx + 1] ++ ((if some then [topicEnd, topicEnd + 1] else []) ++
    (if version = .version5 then [topicEnd + if some then 2 else 0] else []))

theorem publishReads_lt (bytes : List Byte) (version : MqttProtocolVersion) :
    ∀ i ∈ publishReads bytes version idx, i < Verdict.payloadStart bytes version idx := by
  intro i hi
  unfold publishReads at hi
  unfold Verdict.payloadStart
  simp only [List.mem_append, List.mem_cons, List.not_mem_nil, or_false] at hi
  rcases hi with (rfl | rfl) | hi | hi
  · omega
  · omega
  · split at hi
    next some =>
      simp only [List.mem_cons, List.not_mem_nil, or_false] at hi
      rw [if_pos some]
      omega
    next => cases hi
  · split at hi
    next five =>
      rw [List.mem_singleton.mp hi, if_pos five]
      omega
    next => cases hi

/-- With the topic length inside, everything hangs on the payload. -/
theorem parsePublish_run (fits : idx + 2 ≤ b.size) :
    parsePublish b idx (qosCnt (b.bytes.getD 0 0)) s =
      let o := parsePayload b (Verdict.payloadStart b.bytes s.mqttVersion idx) (s.withTopic b idx)
      ⟨o.result, o.state, publishReads b.bytes s.mqttVersion idx ++ o.reads⟩ := by
  have topic := parseTopic_run b idx s
  rw [b.byteAt_eq (by omega), b.byteAt_eq (by omega), ← Verdict.topicLength] at topic
  simp only [if_pos fits] at topic
  unfold parsePublish
  simp only [bind_run _ _ _ topic, bind_run _ _ _ (parsePacketID_run b _ _ _),
    bind_run _ _ _ (parseProperties_run b _ _), publishReads, List.append_assoc]
  rfl

/-- The PUBLISH branch accepts inside the string or throws. -/
theorem parsePublish_outcome :
    (parsePublish b idx (qosCnt (b.bytes.getD 0 0)) s).result =
        (Verdict.publish b.bytes s.mqttVersion idx).result ∧
    (Verdict.publish b.bytes s.mqttVersion idx ≠ .overrun →
      ∀ i ∈ (parsePublish b idx (qosCnt (b.bytes.getD 0 0)) s).reads, i < b.size) := by
  by_cases fits : idx + 2 ≤ b.size
  · rw [parsePublish_run b idx s fits, parsePayload_run]
    by_cases whole : Verdict.payloadStart b.bytes s.mqttVersion idx ≤ b.size
    · have accepted : Verdict.publish b.bytes s.mqttVersion idx = .accept := if_pos ⟨fits, whole⟩
      rw [if_pos whole, accepted]
      refine ⟨rfl, fun _ i hi => ?_⟩
      simp only [List.append_nil] at hi
      exact (publishReads_lt idx b.bytes s.mqttVersion i hi).trans_le whole
    · have cut : Verdict.publish b.bytes s.mqttVersion idx = .overrun :=
        if_neg (fun h => whole h.2)
      rw [if_neg whole, cut]
      exact ⟨rfl, fun h => absurd rfl h⟩
  · have topic := parseTopic_run b idx s
    simp only [if_neg fits] at topic
    unfold parsePublish
    rw [bind_exit _ _ _ topic, Verdict.publish, if_neg (fun h => fits h.1)]
    exact ⟨rfl, fun h => absurd rfl h⟩

end Publish

/-! ### The whole call -/

theorem parseConnack_outcome (b : Buffer) (idx : Nat) (s : NmqttMessage) :
    (parseConnack b idx s).result = .ok () ∧ (parseConnack b idx s).reads = [idx, idx + 1] :=
  ⟨rfl, rfl⟩

/-- What keeps the reads inside a string that is accepted or rejected. -/
def StaysInside (host : Host) (bytes : List Byte) : Prop :=
  match MqttPacketType.ofByte0 (bytes.getD 0 0) with
  | .connect => bytes.drop (Verdict.bodyStart host bytes) ≠ protMatch
  | .connack => Verdict.bodyStart host bytes + 2 ≤ bytes.length
  | _ => True

/-- The message after a fixed header that passed. -/
def withFixedHeader (m : NmqttMessage) (host : Host) (bytes : List Byte) : NmqttMessage :=
  { m with
    command := .ofByte0 (bytes.getD 0 0)
    duplicateMessage := (bytes.getD 0 0).getLsbD 3
    qos := receivedQoS (bytes.getD 0 0) m.qos
    retainMessage := (bytes.getD 0 0).getLsbD 0
    messageLength := (Verdict.packedLength host bytes).2 }

theorem parseFixedHeader_run (b : Buffer) (s : NmqttMessage) (two : 2 ≤ b.size) :
    parseFixedHeader b s = if Verdict.WellSized b.host b.bytes then
      ⟨.ok (Verdict.bodyStart b.host b.bytes, qosCnt (b.bytes.getD 0 0)),
        s.withFixedHeader b.host b.bytes, [0, 1]⟩
      else ⟨.error (.returned (-1)), s.withFixedHeader b.host b.bytes, [0, 1]⟩ := by
  have check : Verdict.WellSized b.host b.bytes ↔ (BitVec.ofNat 32
      ((ByteBauble.readPackedInt (b.host.widenChar 32 (b.bytes.getD 1 0))).1 + 1) +
      (ByteBauble.readPackedInt (b.host.widenChar 32 (b.bytes.getD 1 0))).2).toNat = b.size :=
    ⟨And.right, And.intro two⟩
  simp only [parseFixedHeader, Buffer.charAt, reject, read_bind_run, update_bind_run,
    b.byteAt_eq (Nat.zero_le _), b.byteAt_eq (by omega : 1 ≤ b.size)]
  by_cases sized : Verdict.WellSized b.host b.bytes
  · rw [if_neg (not_not.mpr (check.mp sized)), if_pos sized]
    rfl
  · rw [if_pos (fun h => sized (check.mpr h)), if_neg sized]
    rfl

/-- The whole parser ends as the verdict on its string says, and short of an overrun it
stays inside unless it reads behind a bare protocol name or a short CONNACK. -/
theorem parseVariable_outcome (b : Buffer) (s : NmqttMessage)
    (sized : Verdict.WellSized b.host b.bytes) :
    let o := parseVariable b (Verdict.bodyStart b.host b.bytes) (qosCnt (b.bytes.getD 0 0))
      (s.withFixedHeader b.host b.bytes)
    o.result = (Verdict.of b.host s.mqttVersion b.bytes).result ∧
    (Verdict.of b.host s.mqttVersion b.bytes ≠ .overrun →
      ((∀ i ∈ o.reads, i < b.size) ↔ StaysInside b.host b.bytes)) := by
  have within : Verdict.bodyStart b.host b.bytes ≤ b.size := Verdict.bodyStart_le sized
  simp only [parseVariable, get_bind_run, Verdict.of, if_pos sized, StaysInside,
    show (s.withFixedHeader b.host b.bytes).command = .ofByte0 (b.bytes.getD 0 0) from rfl]
  cases MqttPacketType.ofByte0 (b.bytes.getD 0 0) with
  | connect => exact parseConnect_outcome b _ _ within
  | publish =>
    obtain ⟨result, reads⟩ := parsePublish_outcome b (Verdict.bodyStart b.host b.bytes)
      (s.withFixedHeader b.host b.bytes)
    exact ⟨result, fun h => iff_of_true (reads h) trivial⟩
  | connack =>
    obtain ⟨result, reads⟩ := parseConnack_outcome b (Verdict.bodyStart b.host b.bytes)
      (s.withFixedHeader b.host b.bytes)
    refine ⟨result, fun _ => ?_⟩
    simp only [reads, List.mem_cons, List.not_mem_nil, or_false]
    unfold Buffer.size
    constructor
    · intro inside
      have := inside _ (.inr rfl)
      omega
    · rintro last i (rfl | rfl) <;> omega
  | _ => exact ⟨rfl, fun _ => iff_of_true (fun _ hi => nomatch hi) trivial⟩

theorem parseBody_short (b : Buffer) (m : NmqttMessage) (short : b.size < 2) :
    parseBody b m = ⟨.error (.returned (-1)), { m with parseGood := false }, []⟩ := by
  simp only [parseBody, update_bind_run, reject]
  rw [if_pos short]
  rfl

theorem parseBody_missized (b : Buffer) (m : NmqttMessage) (two : 2 ≤ b.size)
    (missized : ¬Verdict.WellSized b.host b.bytes) :
    parseBody b m = ⟨.error (.returned (-1)),
      { m with parseGood := false }.withFixedHeader b.host b.bytes, [0, 1]⟩ := by
  have header := parseFixedHeader_run b { m with parseGood := false } two
  rw [if_neg missized] at header
  simp only [parseBody, update_bind_run]
  rw [if_neg (Nat.not_lt.mpr two)]
  exact bind_exit _ _ _ header

/-- Behind a fixed header that passed, the variable part decides. -/
theorem parseBody_sized (b : Buffer) (m : NmqttMessage) (two : 2 ≤ b.size)
    (sized : Verdict.WellSized b.host b.bytes) :
    let o := parseVariable b (Verdict.bodyStart b.host b.bytes) (qosCnt (b.bytes.getD 0 0))
      ({ m with parseGood := false }.withFixedHeader b.host b.bytes)
    parseBody b m = ⟨o.result, match o.result with
      | .ok _ => { o.state with parseGood := true }
      | .error _ => o.state, [0, 1] ++ o.reads⟩ := by
  intro o
  have header := parseFixedHeader_run b { m with parseGood := false } two
  rw [if_pos sized] at header
  simp only [parseBody, update_bind_run]
  rw [if_neg (Nat.not_lt.mpr two)]
  refine (bind_run _ _ _ header).trans ?_
  cases result : o.result with
  | ok _ => simp only [bind_ok _ _ _ result, Reader.update, List.append_nil]; rfl
  | error e => simp only [bind_error _ _ _ result]; rfl

/-- The call ends as the verdict on its string says, and short of an overrun its reads
stay inside unless it looks behind a bare protocol name or a short CONNACK. -/
theorem parseMessage_outcome (b : Buffer) (m : NmqttMessage) :
    (parseMessage b m).exit = (Verdict.of b.host m.mqttVersion b.bytes).exit ∧
    (Verdict.of b.host m.mqttVersion b.bytes ≠ .overrun →
      ((∀ i ∈ (parseMessage b m).reads, i < b.size) ↔
        (Verdict.WellSized b.host b.bytes → StaysInside b.host b.bytes))) := by
  unfold parseMessage
  by_cases two : 2 ≤ b.size
  · have header : ∀ i ∈ [0, 1], i < b.size := fun i hi => by
      simp only [List.mem_cons, List.not_mem_nil, or_false] at hi
      omega
    by_cases sized : Verdict.WellSized b.host b.bytes
    · obtain ⟨result, reads⟩ := parseVariable_outcome b { m with parseGood := false } sized
      rw [parseBody_sized b m two sized]
      refine ⟨?_, fun h => ?_⟩
      · simp only [result]
        cases Verdict.of b.host m.mqttVersion b.bytes <;> rfl
      · simp only [sized, forall_true_left, ← reads h, List.mem_append]
        exact ⟨fun inside i hi => inside i (.inr hi), fun inside i hi => hi.elim (header i) (inside i)⟩
    · rw [parseBody_missized b m two sized, Verdict.of, if_neg sized]
      exact ⟨rfl, fun _ => iff_of_true header (fun h => absurd h sized)⟩
  · have sized : ¬Verdict.WellSized b.host b.bytes := fun h => two h.1
    rw [parseBody_short b m (Nat.not_le.mp two), Verdict.of, if_neg sized]
    exact ⟨rfl, fun _ => iff_of_true (fun _ hi => nomatch hi) (fun h => absurd h sized)⟩

/-! ### Validity and header fields -/

/-- What only the fixed header and the end of the call write. -/
def fixedFields (m : NmqttMessage) : Bool × Bool × MqttQoS × Bool :=
  (m.valid, m.duplicateMessage, m.qos, m.retainMessage)

section FixedFields
variable (b : Buffer)

theorem charAt_keeps (i : Nat) : Keeps fixedFields (b.charAt i) := Keeps.read _ _

theorem load16_keeps (i : Nat) : Keeps fixedFields (b.load16 i) := Keeps.read _ _

theorem substr_keeps (pos len : Nat) : Keeps fixedFields (b.substr pos len) :=
  Keeps.ite (Keeps.pure _) (Keeps.exit _)

theorem readString_keeps (idx : Nat) (store : List Byte → NmqttMessage → NmqttMessage)
    (same : ∀ text m, (store text m).fixedFields = m.fixedFields) : Keeps fixedFields (b.readString idx store) :=
  Keeps.bind (charAt_keeps b idx) fun _ => Keeps.bind (substr_keeps b _ _) fun text =>
    Keeps.bind (Keeps.update (same text)) fun _ => Keeps.pure _

theorem checkProtocolLevel_keeps (protver : Byte) : Keeps fixedFields (checkProtocolLevel protver) :=
  Keeps.ite (Keeps.update fun _ => rfl) (Keeps.ite (Keeps.pure _) (Keeps.exit _))

theorem parseConnectHeader_keeps (idx : Nat) : Keeps fixedFields (parseConnectHeader b idx) := by
  unfold parseConnectHeader
  apply Keeps.bind (substr_keeps b _ _)
  intro protName
  refine Keeps.ite (Keeps.bind (Keeps.exit _) fun _ => ?_) ?_
  all_goals
    apply Keeps.bind (charAt_keeps b _)
    intro protver
    apply Keeps.bind (checkProtocolLevel_keeps protver)
    intro _
    apply Keeps.bind (charAt_keeps b _)
    intro connflags
    refine Keeps.bind (Keeps.update fun _ => rfl) fun _ => ?_
    refine Keeps.ite (Keeps.bind (Keeps.exit _) fun _ => ?_) ?_
    all_goals
      exact Keeps.bind (charAt_keeps b _) fun _ =>
        Keeps.bind (Keeps.update fun _ => rfl) fun _ => Keeps.pure _

theorem parseConnectPayload_keeps (idx : Nat) : Keeps fixedFields (parseConnectPayload b idx) := by
  have string := fun idx store same => readString_keeps b idx store same
  refine Keeps.bind (string _ _ fun _ _ => rfl) fun _ => ?_
  refine Keeps.bind (Keeps.bind Keeps.get fun m => ?_) fun _ => ?_
  · exact Keeps.ite (Keeps.bind (string _ _ fun _ _ => rfl) fun _ => string _ _ fun _ _ => rfl)
      (Keeps.pure _)
  refine Keeps.bind (Keeps.bind Keeps.get fun m => ?_) fun _ => ?_
  · exact Keeps.ite (string _ _ fun _ _ => rfl) (Keeps.pure _)
  exact Keeps.bind Keeps.get fun m => Keeps.ite (string _ _ fun _ _ => rfl) (Keeps.pure _)

theorem parsePublish_keeps (idx qosCnt : Nat) : Keeps fixedFields (parsePublish b idx qosCnt) := by
  refine Keeps.bind ?_ fun _ => Keeps.bind ?_ fun _ => Keeps.bind ?_ fun _ => ?_
  · exact Keeps.bind (load16_keeps b _) fun _ => Keeps.bind (substr_keeps b _ _) fun _ =>
      Keeps.bind (Keeps.update fun _ => rfl) fun _ => Keeps.pure _
  · exact Keeps.ite (Keeps.bind (load16_keeps b _) fun _ =>
      Keeps.bind (Keeps.update fun _ => rfl) fun _ => Keeps.pure _) (Keeps.pure _)
  · exact Keeps.bind Keeps.get fun _ => Keeps.ite
      (Keeps.bind (charAt_keeps b _) fun _ => Keeps.pure _) (Keeps.pure _)
  · exact Keeps.ite (Keeps.bind (substr_keeps b _ _) fun _ => Keeps.update fun _ => rfl)
      (Keeps.pure _)

/-- No branch of the packet types touches them. -/
theorem parseVariable_keeps (idx qosCnt : Nat) : Keeps fixedFields (parseVariable b idx qosCnt) := by
  apply Keeps.bind Keeps.get
  intro m
  cases m.command with
  | connect =>
    exact Keeps.bind (parseConnectHeader_keeps b idx) fun _ =>
      Keeps.bind (parseConnectPayload_keeps b _) fun _ => Keeps.pure _
  | connack =>
    exact Keeps.bind (charAt_keeps b _) fun _ => Keeps.bind (Keeps.update fun _ => rfl) fun _ =>
      Keeps.bind (charAt_keeps b _) fun _ => Keeps.update fun _ => rfl
  | publish => exact parsePublish_keeps b idx qosCnt
  | _ => exact Keeps.pure _

end FixedFields

/-- A message is valid after the call just when the call returned 1. -/
theorem parseMessage_valid (b : Buffer) (m : NmqttMessage) :
    (parseMessage b m).message.valid = decide ((parseMessage b m).exit = .returned 1) := by
  unfold parseMessage
  by_cases two : 2 ≤ b.size
  · by_cases sized : Verdict.WellSized b.host b.bytes
    · have kept := parseVariable_keeps b (Verdict.bodyStart b.host b.bytes)
        (qosCnt (b.bytes.getD 0 0)) ({ m with parseGood := false }.withFixedHeader b.host b.bytes)
      obtain ⟨result, -⟩ := parseVariable_outcome b { m with parseGood := false } sized
      rw [parseBody_sized b m two sized]
      simp only [result]
      cases Verdict.of b.host m.mqttVersion b.bytes with
      | accept => rfl
      | reject => exact congrArg Prod.fst kept
      | overrun => exact congrArg Prod.fst kept
    · rw [parseBody_missized b m two sized]
      rfl
  · rw [parseBody_short b m (Nat.not_le.mp two)]
    rfl

/-! ### Accepted PUBLISH packets -/

/-- The message after a PUBLISH that was accepted. -/
def published (m : NmqttMessage) (b : Buffer) : NmqttMessage :=
  let idx := Verdict.bodyStart b.host b.bytes
  let payloadStart := Verdict.payloadStart b.bytes m.mqttVersion idx
  { (m.withFixedHeader b.host b.bytes).withTopic b idx with
    payload := if payloadStart + 1 = b.size then m.payload else b.bytes.drop payloadStart
    parseGood := true }

theorem parsePublish_accepted (b : Buffer) (idx : Nat) (s : NmqttMessage) (fits : idx + 2 ≤ b.size)
    (whole : Verdict.payloadStart b.bytes s.mqttVersion idx ≤ b.size) :
    parsePublish b idx (qosCnt (b.bytes.getD 0 0)) s = ⟨.ok (), { s.withTopic b idx with
      payload := if Verdict.payloadStart b.bytes s.mqttVersion idx + 1 = b.size then s.payload
        else b.bytes.drop (Verdict.payloadStart b.bytes s.mqttVersion idx) },
      publishReads b.bytes s.mqttVersion idx⟩ := by
  rw [parsePublish_run b _ _ fits, parsePayload_run, if_pos whole]
  simp only [List.append_nil]
  rfl

theorem parseMessage_publish (b : Buffer) (m : NmqttMessage)
    (sized : Verdict.WellSized b.host b.bytes)
    (type : MqttPacketType.ofByte0 (b.bytes.getD 0 0) = .publish)
    (fits : Verdict.bodyStart b.host b.bytes + 2 ≤ b.size)
    (whole : Verdict.payloadStart b.bytes m.mqttVersion (Verdict.bodyStart b.host b.bytes) ≤ b.size) :
    (parseMessage b m).exit = .returned 1 ∧ (parseMessage b m).message = m.published b := by
  have command : ({ m with parseGood := false }.withFixedHeader b.host b.bytes).command = .publish :=
    type
  have accepted := parsePublish_accepted b (Verdict.bodyStart b.host b.bytes)
    ({ m with parseGood := false }.withFixedHeader b.host b.bytes) fits whole
  unfold parseMessage
  rw [parseBody_sized b m sized.1 sized]
  simp only [parseVariable, get_bind_run, command, accepted, true_and]
  rfl

/-! ### Safe calls -/

/-- A call that stayed inside a string of `size` bytes and reported its outcome the same
way twice, by its return code and by `valid()`. -/
def ParseCall.Total (c : ParseCall) (size : Nat) : Prop :=
  (∀ i ∈ c.reads, i < size) ∧
    (c.exit = .returned (-1) ∧ c.message.valid = false ∨
      c.exit = .returned 1 ∧ c.message.valid = true)

instance (c : ParseCall) (size : Nat) : Decidable (c.Total size) :=
  inferInstanceAs (Decidable (_ ∧ _))

/-- Room for the variable part, from the bytes alone. A CONNECT is not cut right behind
its protocol name and, where it gets past its header, each announced string starts
inside; a CONNACK has its two bytes; a PUBLISH has its topic length and ends at or after
its topic, packet identifier and property length. -/
def FieldsInside (host : Host) (version : MqttProtocolVersion) (bytes : List Byte) : Prop :=
  let idx := Verdict.bodyStart host bytes
  match MqttPacketType.ofByte0 (bytes.getD 0 0) with
  | .connect =>
      bytes.drop idx ≠ protMatch ∧
        ((bytes.drop idx).take 6 = protMatch → KnownLevel (bytes.getD (idx + 6) 0) →
          (bytes.getD (idx + 7) 0).getLsbD 0 = false →
          Verdict.skipStrings host bytes (Verdict.stringCount (bytes.getD (idx + 7) 0))
            (idx + 10) ≠ none)
  | .connack => idx + 2 ≤ bytes.length
  | .publish => idx + 2 ≤ bytes.length ∧ Verdict.payloadStart bytes version idx ≤ bytes.length
  | _ => True

theorem connect_overrun_iff (host : Host) (bytes : List Byte) (idx : Nat) :
    Verdict.connect host bytes idx ≠ .overrun ↔
      ((bytes.drop idx).take 6 = protMatch → KnownLevel (bytes.getD (idx + 6) 0) →
        (bytes.getD (idx + 7) 0).getLsbD 0 = false →
        Verdict.skipStrings host bytes (Verdict.stringCount (bytes.getD (idx + 7) 0))
          (idx + 10) ≠ none) := by
  unfold Verdict.connect KnownLevel
  by_cases name : (bytes.drop idx).take 6 = protMatch
  · rw [if_neg (not_not.mpr name)]
    by_cases unknown : bytes.getD (idx + 6) 0 ≠ 4 ∧ bytes.getD (idx + 6) 0 ≠ 5
    · rw [if_pos unknown]
      exact iff_of_true (by decide) (fun _ known => (known.elim unknown.1 unknown.2).elim)
    · rw [if_neg unknown]
      have known : bytes.getD (idx + 6) 0 = 4 ∨ bytes.getD (idx + 6) 0 = 5 := by
        by_contra h
        exact unknown (not_or.mp h)
      simp only [name, known, forall_true_left]
      cases (bytes.getD (idx + 7) 0).getLsbD 0 with
      | true => simp
      | false =>
        cases Verdict.skipStrings host bytes (Verdict.stringCount (bytes.getD (idx + 7) 0))
            (idx + 10) with
        | none => simp
        | some next => simp
  · rw [if_pos name]
    exact iff_of_true (by decide) (fun h => absurd h name)

theorem fieldsInside_iff (host : Host) (version : MqttProtocolVersion) (bytes : List Byte)
    (sized : Verdict.WellSized host bytes) :
    FieldsInside host version bytes ↔
      Verdict.of host version bytes ≠ .overrun ∧ StaysInside host bytes := by
  unfold FieldsInside StaysInside Verdict.of
  rw [if_pos sized]
  cases MqttPacketType.ofByte0 (bytes.getD 0 0) with
  | connect => simp only [connect_overrun_iff, and_comm]
  | publish =>
    simp only [Verdict.publish, and_true]
    split
    next inside => exact iff_of_true inside (by decide)
    next outside => exact iff_of_false outside (by decide)
  | connack => simp
  | _ => simp

/-- The parser is total on a string exactly when the string is not well sized, and so
turned down at once, or has room for its fields. -/
theorem parseMessage_total_iff (b : Buffer) (m : NmqttMessage) :
    (parseMessage b m).Total b.size ↔
      (Verdict.WellSized b.host b.bytes → FieldsInside b.host m.mqttVersion b.bytes) := by
  obtain ⟨exit, reads⟩ := parseMessage_outcome b m
  have valid := parseMessage_valid b m
  have fields : (Verdict.WellSized b.host b.bytes → FieldsInside b.host m.mqttVersion b.bytes) ↔
      Verdict.of b.host m.mqttVersion b.bytes ≠ .overrun ∧
        (Verdict.WellSized b.host b.bytes → StaysInside b.host b.bytes) := by
    by_cases sized : Verdict.WellSized b.host b.bytes
    · simp only [sized, forall_true_left, fieldsInside_iff _ _ _ sized]
    · simp only [sized, false_implies, and_true, true_iff, Verdict.of, if_false]
      decide
  rw [fields, ParseCall.Total, valid, exit]
  cases verdict : Verdict.of b.host m.mqttVersion b.bytes with
  | accept =>
    rw [verdict] at reads
    simp [reads, Verdict.exit]
  | reject =>
    rw [verdict] at reads
    simp [reads, Verdict.exit]
  | overrun => simp [Verdict.exit]

/-- A PUBLISH of remaining length 0 throws. -/
theorem emptyPublish_throws :
    ¬(parseMessage ⟨⟨.le, true⟩, [0x30, 0x00], fun _ => 0⟩ (new default)).Total 2 := by
  decide

end NmqttMessage

end NymphMqtt
