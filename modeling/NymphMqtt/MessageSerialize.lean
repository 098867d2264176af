import NymphMqtt.Message

/-! `NmqttMessage::serialize`. The CONNECT, SUBSCRIBE and UNSUBSCRIBE branches append to
the payload member itself, so the message is returned along with the bytes. -/

namespace NymphMqtt
open NymphMqtt.Library ByteBauble

namespace NmqttMessage

/-- `bytebauble` after `setGlobalEndianness(BB_BE)`. -/
def globalOrder (host : Host) : ByteBauble := (ByteBauble.new host).setGlobalEndianness .be

/-- The two bytes appended for a `uint16_t` that went through `toGlobal`. -/
def shortBytes (host : Host) (v : BitVec 16) : List Byte :=
  host.memory 2 ((globalOrder host).toGlobal16 v (globalOrder host).hostEndian)

/-- `uint16_t xLenHost = x.length();` and then `shortBytes`. -/
def lengthBytes (host : Host) (text : List Byte) : List Byte :=
  shortBytes host (BitVec.ofNat 16 text.length)

/-- `uint16_t xLenBE = bytebauble.toGlobal(x.length(), ..)`: the length is converted as
a `size_t` and narrowed afterwards. -/
def wideLengthBytes (host : Host) (text : List Byte) : List Byte :=
  host.memory 2 (((globalOrder host).toGlobal64 (BitVec.ofNat 64 text.length)
    (globalOrder host).hostEndian).setWidth 16)

/-- The first byte, the variable header, and the payload member after the switch. -/
structure Draft where
  b0 : Byte
  varHeader : List Byte
  payload : List Byte
  deriving DecidableEq, Repr

def flag (set : Bool) (value : Byte) : Byte := if set then value else 0

def connectFlags (m : NmqttMessage) : Byte :=
  flag m.cleanSessionFlag 0x02 + flag m.willFlag 0x04 + flag m.willQoS1 0x08 +
    flag m.willQoS2 0x10 + flag m.willRetainFlag 0x20 + flag m.passwordFlag 0x40 +
    flag m.usernameFlag 0x80

def protVersion (m : NmqttMessage) : Byte := if m.mqttVersion = .version5 then 5 else 4

/-- The session expiry interval goes out in host order. -/
def connectProperties (host : Host) (m : NmqttMessage) : List Byte :=
  if m.mqttVersion = .version5 then [0x05, 0x11] ++ host.memory 4 (0x0A : BitVec 32) else []

/-- The username is preceded by the length of the will topic. -/
def draftConnect (host : Host) (m : NmqttMessage) : Draft where
  b0 := m.command.code
  varHeader := shortBytes host 0x0004 ++ [0x4D, 0x51, 0x54, 0x54] ++ [m.protVersion] ++
    [m.connectFlags] ++ shortBytes host 60 ++ connectProperties host m
  payload := m.payload ++ (lengthBytes host m.clientId ++ m.clientId) ++
    (if m.willFlag then wideLengthBytes host m.willTopic ++ m.willTopic ++
      (wideLengthBytes host m.will ++ m.will) else []) ++
    (if m.usernameFlag then wideLengthBytes host m.willTopic ++ m.username else []) ++
    (if m.passwordFlag then wideLengthBytes host m.password ++ m.password else [])

def draftConnack (m : NmqttMessage) : Draft := ⟨m.command.code, [0x00, 0x00], m.payload⟩

def publishFlags (m : NmqttMessage) : Byte :=
  flag m.duplicateMessage 8 + flag (m.qos = .atLeastOnce) 2 + flag (m.qos = .exactlyOnce) 4 +
    flag m.retainMessage 1

def draftPublish (host : Host) (m : NmqttMessage) : Draft where
  b0 := m.command.code + m.publishFlags
  varHeader := lengthBytes host m.topic ++ m.topic ++
    (if m.qos ≠ .atMostOnce then shortBytes host m.packetID else []) ++
    (if m.mqttVersion = .version5 then [0x00] else [])
  payload := m.payload

def draftSubscribe (host : Host) (m : NmqttMessage) : Draft where
  b0 := m.command.code + 0x2
  varHeader := shortBytes host 10 ++ (if m.mqttVersion = .version5 then [0x00] else [])
  payload := m.payload ++ (lengthBytes host m.topic ++ m.topic) ++ [0x00]

/-- Two packet identifiers: the fixed one, and then the member. -/
def draftUnsubscribe (host : Host) (m : NmqttMessage) : Draft where
  b0 := m.command.code + 0x2
  varHeader := shortBytes host 10 ++ shortBytes host m.packetID
  payload := m.payload ++ (wideLengthBytes host m.topic ++ m.topic)

/-- The switch; the remaining types add nothing to the first byte. -/
def draft (host : Host) (m : NmqttMessage) : Draft :=
  match m.command with
  | .connect => draftConnect host m
  | .connack => draftConnack m
  | .publish => draftPublish host m
  | .subscribe => draftSubscribe host m
  | .unsubscribe => draftUnsubscribe host m
  | _ => ⟨m.command.code, [], m.payload⟩

/-- The packed length as it lies in memory, cut to the byte count the writer returned.
Out of range nothing of it is appended. -/
def remainingLengthBytes (host : Host) (msgLen : BitVec 32) : List Byte :=
  let packed := ByteBauble.writePackedInt msgLen 0
  (host.memory 4 packed.2).take packed.1

def serialize (host : Host) (m : NmqttMessage) : List Byte × NmqttMessage :=
  let d := draft host m
  let msgLen := BitVec.ofNat 32 (d.varHeader.length + d.payload.length)
  (d.b0 :: (remainingLengthBytes host msgLen ++ d.varHeader ++ d.payload),
    { m with payload := d.payload })

/-! ### Lengths and byte order -/

theorem memory_length (host : Host) (count : Nat) {width : Nat} (value : BitVec width) :
    (host.memory count value).length = count := by
  unfold Host.memory
  cases host.endian <;> simp

theorem packedBytes_le (msgLen : BitVec 32) : packedBytes msgLen ≤ 4 := by
  unfold packedBytes
  split_ifs <;> decide

theorem remainingLengthBytes_length (host : Host) (msgLen : BitVec 32) :
    (remainingLengthBytes host msgLen).length = packedBytes msgLen := by
  have bound := packedBytes_le msgLen
  unfold remainingLengthBytes ByteBauble.writePackedInt
  rw [List.length_take, memory_length]
  split <;> simp only <;> omega

/-- On either host the bytes come out high byte first. -/
theorem shortBytes_eq (host : Host) (v : BitVec 16) :
    shortBytes host v = [v.extractLsb' 8 8, v.extractLsb' 0 8] := by
  have range : List.range 2 = [0, 1] := rfl
  simp only [shortBytes, globalOrder, ByteBauble.toGlobal16, ByteBauble.setGlobalEndianness,
    ByteBauble.new, ByteBauble.detectHostEndian_eq, Host.memory, range, List.map_cons, List.map_nil]
  cases order : host.endian with
  | be => rfl
  | le =>
    simp only [reduceCtorEq, if_false, ByteBauble.bswap16, Nat.mul_zero, Nat.mul_one,
      BitVec.extractLsb'_append_eq_right, BitVec.extractLsb'_append_eq_left]

theorem shortBytes_length (host : Host) (v : BitVec 16) : (shortBytes host v).length = 2 := by
  rw [shortBytes_eq]; rfl

/-! ### The first length byte -/

theorem writePackedInt_spec (msgLen output : BitVec 32) (some : packedBytes msgLen ≠ 0) :
    (writePackedInt msgLen output).1 = packedBytes msgLen ∧
      (writePackedInt msgLen output).2.toNat =
        Nat.ofDigits 256 (Base128.groups (packedBytes msgLen) msgLen.toNat) := by
  have bound := packedBytes_le msgLen
  have written := writeGroups_spec msgLen (packedBytes msgLen) .start
    (by simp only [Copy.start]; omega) (by decide)
  unfold writePackedInt
  rw [if_neg some]
  refine ⟨rfl, ?_⟩
  rw [written]
  simp [Copy.start]

theorem remainingLengthBytes_head (host : Host) (msgLen : BitVec 32)
    (some : packedBytes msgLen ≠ 0) :
    ((remainingLengthBytes host msgLen).getD 0 0).toNat =
      Nat.ofDigits 256 (Base128.groups (packedBytes msgLen) msgLen.toNat) /
        (if host.endian = .le then 1 else 16777216) % 256 := by
  obtain ⟨count, output⟩ := writePackedInt_spec msgLen 0 some
  have range : List.range 4 = [0, 1, 2, 3] := rfl
  unfold remainingLengthBytes
  simp only [count, List.getD_eq_getElem?_getD, List.getElem?_take, Nat.pos_of_ne_zero some, if_true]
  rw [← output]
  cases order : host.endian with
  | le => simp [Host.memory, order, range, BitVec.extractLsb'_toNat]
  | be => simp [Host.memory, order, range, BitVec.extractLsb'_toNat, Nat.shiftRight_eq_div_pow]

/-- On a little-endian host it is the lowest group, with its mark where another follows. -/
theorem remainingLengthBytes_le (host : Host) (msgLen : BitVec 32) (order : host.endian = .le)
    (some : packedBytes msgLen ≠ 0) :
    ((remainingLengthBytes host msgLen).getD 0 0).toNat =
      msgLen.toNat % 128 + if 2 ≤ packedBytes msgLen then 128 else 0 := by
  rw [remainingLengthBytes_head host msgLen some, if_pos order, Nat.div_one]
  obtain ⟨n, count⟩ := Nat.exists_eq_succ_of_ne_zero some
  rw [count]
  cases n with
  | zero =>
    rw [if_neg (by decide)]
    simp only [Base128.groups, Nat.ofDigits_cons, Nat.ofDigits_nil]
    omega
  | succ n =>
    rw [if_pos (by omega)]
    simp only [Base128.groups, Nat.ofDigits_cons]
    omega

theorem highest_byte {a b c d : Nat} (ha : a < 256) (hb : b < 256) (hc : c < 256) (hd : d < 256) :
    (a + 256 * (b + 256 * (c + 256 * d))) / 16777216 % 256 = d := by
  omega

/-- On a big-endian host it is the highest byte of the word, and carries no mark. -/
theorem remainingLengthBytes_be (host : Host) (msgLen : BitVec 32) (order : host.endian = .be)
    (some : packedBytes msgLen ≠ 0) :
    ((remainingLengthBytes host msgLen).getD 0 0).toNat =
      if packedBytes msgLen = 4 then msgLen.toNat / 2097152 % 128 else 0 := by
  have bound := packedBytes_le msgLen
  rw [remainingLengthBytes_head host msgLen some, order, if_neg (by decide)]
  have group : ∀ v, v % 128 < 256 ∧ v % 128 + 128 < 256 := fun v => by omega
  generalize packedBytes msgLen = n at some bound ⊢
  obtain rfl | rfl | rfl | rfl : n = 1 ∨ n = 2 ∨ n = 3 ∨ n = 4 := by omega
  all_goals
    simp only [Base128.groups, Nat.ofDigits_cons, Nat.ofDigits_nil, Nat.reduceEqDiff, if_false,
      if_true]
  · exact highest_byte (b := 0) (c := 0) (d := 0) (group _).1 (by decide) (by decide) (by decide)
  · exact highest_byte (c := 0) (d := 0) (group _).2 (group _).1 (by decide) (by decide)
  · exact highest_byte (d := 0) (group _).2 (group _).2 (group _).1 (by decide)
  · refine (highest_byte (d := msgLen.toNat / 128 / 128 / 128 % 128) (group _).2 (group _).2
      (group _).2 (group _).1).trans ?_
    rw [Nat.div_div_eq_div_mul, Nat.div_div_eq_div_mul]

end NmqttMessage
end NymphMqtt
