import NymphMqtt.MessageByteOrder

/-! The CONNECT packet of a client against the layout that MQTT 3.1.1 gives it. -/

namespace NymphMqtt
open NymphMqtt.Library

/-! ### The layout -/

/-- A length in two bytes, the high one first. -/
def lengthPrefix (text : List Byte) : List Byte :=
  [BitVec.ofNat 8 (text.length / 256), BitVec.ofNat 8 (text.length % 256)]

def stringField (text : List Byte) : List Byte := lengthPrefix text ++ text

/-- A string that a length prefix can describe. -/
def FieldText := { text : List Byte // text.length ≤ 65535 }

structure Will where
  topic : FieldText
  message : FieldText
  qos : Byte
  retain : Bool
  level : qos.toNat ≤ 2

structure Credentials where
  username : FieldText
  password : FieldText

structure ConnectRequest where
  clientId : FieldText
  will : Option Will
  credentials : Option Credentials

namespace ConnectRequest

/-- Reserved, clean session, will, two bits of will QoS, will retain, password, user name. -/
def flags (r : ConnectRequest) : Byte :=
  0x02 ||| (match r.will with
    | some w => 0x04 ||| (w.qos <<< 3) ||| (if w.retain then 0x20 else 0)
    | none => 0) ||| (if r.credentials.isSome then 0xC0 else 0)

/-- Will and credentials, as far as there are any. -/
def fields (r : ConnectRequest) : List Byte :=
  (match r.will with
    | some w => stringField w.topic.1 ++ stringField w.message.1
    | none => []) ++
  match r.credentials with
    | some c => stringField c.username.1 ++ stringField c.password.1
    | none => []

/-- What follows the fixed header. -/
def body (r : ConnectRequest) : List Byte :=
  [0x00, 0x04, 0x4D, 0x51, 0x54, 0x54, 0x04] ++ [r.flags] ++ [0x00, 0x3C] ++
    (stringField r.clientId.1 ++ r.fields)

/-! ### The message -/

/-- The message as `connect` builds it. -/
def message (r : ConnectRequest) (memory : NmqttMessage) : NmqttMessage :=
  let m := NmqttMessage.ofType memory .connect
  let m := match r.will with
    | some w => m.setWill w.topic.1 w.message.1 w.qos w.retain
    | none => m
  let m := match r.credentials with
    | some c => m.setCredentials c.username.1 c.password.1
    | none => m
  m.setClientId r.clientId.1

/-- What `serialize` emits behind the first byte and the length bytes. -/
def emitted (r : ConnectRequest) (host : Host) (memory : NmqttMessage) : List Byte :=
  let m := r.message memory
  let msgLen := BitVec.ofNat 32 (m.body host).length
  (m.serialize host).1.drop (1 + (NmqttMessage.remainingLengthBytes host msgLen).length)

end ConnectRequest

/-! ### Prefixes -/

theorem shortBytes_lengthPrefix (host : Host) (text : FieldText) :
    NmqttMessage.lengthBytes host text.1 = lengthPrefix text.1 := by
  have fits := text.2
  rw [NmqttMessage.lengthBytes, NmqttMessage.shortBytes_eq, lengthPrefix]
  simp only [List.cons.injEq, and_true, ← BitVec.toNat_inj, BitVec.extractLsb'_toNat,
    BitVec.toNat_ofNat, Nat.shiftRight_eq_div_pow]
  omega

theorem lengthPrefix_inj (s t : FieldText) :
    lengthPrefix s.1 = lengthPrefix t.1 ↔ s.1.length = t.1.length := by
  have fits := s.2
  have fits' := t.2
  unfold lengthPrefix
  simp only [List.cons.injEq, and_true, ← BitVec.toNat_inj, BitVec.toNat_ofNat]
  omega

/-- A converted length in front of a text is the text's own prefix. -/
theorem wideLengthBytes_eq_iff (host : Host) (counted text : FieldText) :
    NmqttMessage.wideLengthBytes host counted.1 = lengthPrefix text.1 ↔
      if host.endian = .le then text.1 = [] else counted.1.length = text.1.length := by
  have fits := counted.2
  have fits' := text.2
  cases order : host.endian with
  | le =>
    rw [NmqttMessage.wideLengthBytes_le order, if_pos rfl, ← List.length_eq_zero_iff, lengthPrefix]
    simp only [List.cons.injEq, and_true, ← BitVec.toNat_inj, BitVec.extractLsb'_toNat,
      BitVec.toNat_ofNat, Nat.shiftRight_eq_div_pow]
    omega
  | be =>
    have right : NmqttMessage.wideLengthBytes host counted.1 = lengthPrefix counted.1 := by
      rw [NmqttMessage.wideLengthBytes_be order, lengthPrefix]
      simp only [List.cons.injEq, and_true, ← BitVec.toNat_inj, BitVec.extractLsb'_toNat,
        BitVec.toNat_ofNat, Nat.shiftRight_eq_div_pow]
      omega
    rw [right, if_neg (by decide), lengthPrefix_inj]

/-- Two fields, and what comes behind them. -/
theorem fields_eq_iff (host : Host) (counted first counted' second : FieldText)
    (rest rest' : List Byte) :
    NmqttMessage.wideLengthBytes host counted.1 ++ first.1 ++
        (NmqttMessage.wideLengthBytes host counted'.1 ++ second.1) ++ rest =
        stringField first.1 ++ stringField second.1 ++ rest' ↔
      (NmqttMessage.wideLengthBytes host counted.1 = lengthPrefix first.1 ∧
        NmqttMessage.wideLengthBytes host counted'.1 = lengthPrefix second.1) ∧ rest = rest' := by
  have sizes : ∀ s t : List Byte, (NmqttMessage.wideLengthBytes host s).length =
      (lengthPrefix t).length := fun s t => NmqttMessage.wideLengthBytes_length host s
  unfold stringField
  simp only [List.append_assoc]
  rw [NmqttMessage.append_eq_iff (sizes _ _), List.append_cancel_left_eq,
    NmqttMessage.append_eq_iff (sizes _ _), List.append_cancel_left_eq, and_assoc]

/-! ### The packet -/

namespace ConnectRequest
variable (r : ConnectRequest) (host : Host) (memory : NmqttMessage)

theorem emitted_eq : r.emitted host memory = (r.message memory).body host :=
  (r.message memory).serialize_drop host

theorem level_cases (w : Will) : w.qos = 0#8 ∨ w.qos = 1#8 ∨ w.qos = 2#8 := by
  have level := w.level
  simp only [← BitVec.toNat_inj, BitVec.toNat_ofNat]
  omega

/-- The sum of the flags that are set is their union. -/
theorem flags_sum (qos : Byte) (retain credentials : Bool) (level : qos = 0 ∨ qos = 1 ∨ qos = 2) :
    NmqttMessage.flag true 0x02 + NmqttMessage.flag true 0x04 +
        NmqttMessage.flag (if qos = 1 then true else false) 0x08 +
        NmqttMessage.flag (if qos = 2 then true else false) 0x10 + NmqttMessage.flag retain 0x20 +
        NmqttMessage.flag credentials 0x40 + NmqttMessage.flag credentials 0x80 =
      0x02#8 ||| (0x04#8 ||| (qos <<< 3) ||| (if retain then 0x20 else 0)) |||
        (if credentials then 0xC0 else 0) := by
  rcases level with rfl | rfl | rfl
  all_goals
    revert retain credentials
    decide

theorem connectFlags_message : (r.message memory).connectFlags = r.flags := by
  obtain ⟨clientId, will, credentials⟩ := r
  cases will with
  | none =>
    cases credentials with
    | none =>
      change NmqttMessage.flag true 0x02 + NmqttMessage.flag false 0x04 +
        NmqttMessage.flag false 0x08 + NmqttMessage.flag false 0x10 + NmqttMessage.flag false 0x20 +
        NmqttMessage.flag false 0x40 + NmqttMessage.flag false 0x80 = 0x02#8 ||| 0 ||| 0
      decide
    | some c =>
      change NmqttMessage.flag true 0x02 + NmqttMessage.flag false 0x04 +
        NmqttMessage.flag false 0x08 + NmqttMessage.flag false 0x10 + NmqttMessage.flag false 0x20 +
        NmqttMessage.flag true 0x40 + NmqttMessage.flag true 0x80 = 0x02#8 ||| 0 ||| 0xC0
      decide
  | some w =>
    cases credentials with
    | none => exact flags_sum w.qos w.retain false (level_cases w)
    | some c => exact flags_sum w.qos w.retain true (level_cases w)

/-- The member `willTopic` of the message. -/
def willTopic (r : ConnectRequest) : FieldText :=
  match r.will with
  | some w => w.topic
  | none => ⟨[], Nat.zero_le _⟩

/-- Will and credentials as they are emitted. -/
def emittedFields (r : ConnectRequest) (host : Host) : List Byte :=
  (match r.will with
    | some w => NmqttMessage.wideLengthBytes host w.topic.1 ++ w.topic.1 ++
        (NmqttMessage.wideLengthBytes host w.message.1 ++ w.message.1)
    | none => []) ++
  match r.credentials with
    | some c => NmqttMessage.wideLengthBytes host r.willTopic.1 ++ c.username.1 ++
        (NmqttMessage.wideLengthBytes host c.password.1 ++ c.password.1)
    | none => []

theorem draft_message : (r.message memory).draft host =
    { b0 := 0x10
      varHeader := NmqttMessage.shortBytes host 4 ++ [0x4D, 0x51, 0x54, 0x54] ++ [0x04] ++
        [(r.message memory).connectFlags] ++ NmqttMessage.shortBytes host 60 ++ []
      payload := [] ++ (NmqttMessage.lengthBytes host r.clientId.1 ++ r.clientId.1) ++
        (match r.will with
          | some w => NmqttMessage.wideLengthBytes host w.topic.1 ++ w.topic.1 ++
              (NmqttMessage.wideLengthBytes host w.message.1 ++ w.message.1)
          | none => []) ++
        (match r.credentials with
          | some c => NmqttMessage.wideLengthBytes host r.willTopic.1 ++ c.username.1
          | none => []) ++
        (match r.credentials with
          | some c => NmqttMessage.wideLengthBytes host c.password.1 ++ c.password.1
          | none => []) } := by
  obtain ⟨clientId, will, credentials⟩ := r
  cases will with
  | none =>
    cases credentials with
    | none => rfl
    | some c => rfl
  | some w =>
    cases credentials with
    | none => rfl
    | some c => rfl

theorem message_body : (r.message memory).body host =
    [0x00, 0x04, 0x4D, 0x51, 0x54, 0x54, 0x04] ++ [r.flags] ++ [0x00, 0x3C] ++
      (stringField r.clientId.1 ++ r.emittedFields host) := by
  have name : NmqttMessage.shortBytes host 4 = [0x00, 0x04] := by
    rw [NmqttMessage.shortBytes_eq]
    rfl
  have keepAlive : NmqttMessage.shortBytes host 60 = [0x00, 0x3C] := by
    rw [NmqttMessage.shortBytes_eq]
    rfl
  rw [NmqttMessage.body, draft_message, name, keepAlive, connectFlags_message,
    shortBytes_lengthPrefix, emittedFields, stringField]
  cases r.credentials with
  | none => simp only [List.append_assoc, List.nil_append, List.append_nil, List.cons_append]
  | some c => simp only [List.append_assoc, List.nil_append, List.append_nil, List.cons_append]

/-- The texts whose prefixes come out right. -/
def Suits (r : ConnectRequest) (host : Host) : Prop :=
  if host.endian = .le then
    (∀ w ∈ r.will, w.topic.1 = [] ∧ w.message.1 = []) ∧
      ∀ c ∈ r.credentials, c.username.1 = [] ∧ c.password.1 = []
  else ∀ c ∈ r.credentials, r.willTopic.1.length = c.username.1.length

theorem credentials_eq_iff : (match r.credentials with
      | some c => NmqttMessage.wideLengthBytes host r.willTopic.1 ++ c.username.1 ++
          (NmqttMessage.wideLengthBytes host c.password.1 ++ c.password.1)
      | none => []) =
      (match r.credentials with
      | some c => stringField c.username.1 ++ stringField c.password.1
      | none => []) ↔
    ∀ c ∈ r.credentials, if host.endian = .le then c.username.1 = [] ∧ c.password.1 = []
      else r.willTopic.1.length = c.username.1.length := by
  cases r.credentials with
  | none => exact ⟨fun _ => nofun, fun _ => rfl⟩
  | some c =>
    have fields := fields_eq_iff host r.willTopic c.username c.password c.password [] []
    rw [List.append_nil, List.append_nil, wideLengthBytes_eq_iff, wideLengthBytes_eq_iff] at fields
    simp only [fields, Option.mem_def, Option.some.injEq, forall_eq']
    split <;> simp

theorem emittedFields_eq_iff : r.emittedFields host = r.fields ↔ r.Suits host := by
  have credentials := r.credentials_eq_iff host
  unfold emittedFields fields Suits
  cases r.will with
  | none =>
    rw [List.nil_append, List.nil_append, credentials]
    split <;> simp
  | some w =>
    dsimp only
    rw [fields_eq_iff host w.topic w.topic w.message w.message, credentials, wideLengthBytes_eq_iff,
      wideLengthBytes_eq_iff]
    split <;> simp

/-- The packet is the one of the standard exactly where the texts behind the client
identifier are empty, or on a big-endian host where the user name is as long as the will
topic. -/
theorem connect_encoded_iff : r.emitted host memory = r.body ↔ r.Suits host := by
  rw [emitted_eq, message_body, body, List.append_cancel_left_eq, List.append_cancel_left_eq]
  exact r.emittedFields_eq_iff host

/-- A user name and a password of one byte each: the prefixes are zero on a little-endian
host, and the user name's is on the other one. -/
theorem connect_misencoded :
    let r : ConnectRequest :=
      { clientId := ⟨[0x63], by decide⟩
        will := none
        credentials := some ⟨⟨[0x75], by decide⟩, ⟨[0x70], by decide⟩⟩ }
    r.fields = [0x00, 0x01, 0x75, 0x00, 0x01, 0x70] ∧
      r.emitted ⟨.le, true⟩ default ≠ r.body ∧ r.emitted ⟨.be, true⟩ default ≠ r.body ∧
      (r.emitted ⟨.le, true⟩ default).drop 13 = [0x00, 0x00, 0x75, 0x00, 0x00, 0x70] ∧
      (r.emitted ⟨.be, true⟩ default).drop 13 = [0x00, 0x00, 0x75, 0x00, 0x01, 0x70] := by
  decide

end ConnectRequest
end NymphMqtt
