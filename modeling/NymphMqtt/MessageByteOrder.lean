import NymphMqtt.MessageParseOutcome
import NymphMqtt.PacketFraming

/-! Where the bytes of a message, and what the parsers make of bytes, depend on the byte
order of the host. -/

namespace NymphMqtt
open NymphMqtt.Library NymphMqtt.Library.LoggedReader

/-- A host of each byte order, with the same kind of `char`. -/
def Host.little (charSigned : Bool) : Host := ⟨.le, charSigned⟩

def Host.big (charSigned : Bool) : Host := ⟨.be, charSigned⟩

namespace NmqttMessage

/-! ### Pieces of a packet -/

/-- The two bytes that a converted length is cut to are the right ones. -/
def LengthKept (text : List Byte) : Prop := text.length / 2 ^ 48 % 2 ^ 16 = text.length % 2 ^ 16

instance (text : List Byte) : Decidable (LengthKept text) := inferInstanceAs (Decidable (_ = _))

theorem wideLengthBytes_length (host : Host) (text : List Byte) :
    (wideLengthBytes host text).length = 2 := memory_length host 2 _

theorem swap_setWidth (v : BitVec 64) :
    (ByteBauble.bswap64 v).setWidth 16 = (v.extractLsb' 48 8 ++ v.extractLsb' 56 8 : BitVec 16) := by
  apply BitVec.eq_of_toNat_eq
  simp only [ByteBauble.bswap64, BitVec.toNat_setWidth, toNat_append]
  omega

/-- The swap moves the low half of a 64-bit length out of reach. -/
theorem wideLengthBytes_le {host : Host} (order : host.endian = .le) (text : List Byte) :
    wideLengthBytes host text = [(BitVec.ofNat 64 text.length).extractLsb' 56 8,
      (BitVec.ofNat 64 text.length).extractLsb' 48 8] := by
  have range : List.range 2 = [0, 1] := rfl
  simp only [wideLengthBytes, globalOrder, ByteBauble.toGlobal64, ByteBauble.setGlobalEndianness,
    ByteBauble.new, ByteBauble.detectHostEndian_eq, Host.memory, range, List.map_cons, List.map_nil,
    order, reduceCtorEq, if_false]
  rw [swap_setWidth]
  simp only [Nat.mul_zero, Nat.mul_one, BitVec.extractLsb'_append_eq_right,
    BitVec.extractLsb'_append_eq_left]

theorem wideLengthBytes_be {host : Host} (order : host.endian = .be) (text : List Byte) :
    wideLengthBytes host text = [(BitVec.ofNat 64 text.length).extractLsb' 8 8,
      (BitVec.ofNat 64 text.length).extractLsb' 0 8] := by
  have range : List.range 2 = [0, 1] := rfl
  simp only [wideLengthBytes, globalOrder, ByteBauble.toGlobal64, ByteBauble.setGlobalEndianness,
    ByteBauble.new, ByteBauble.detectHostEndian_eq, Host.memory, range, List.map_cons, List.map_nil,
    order, if_true]
  have part : ∀ v : BitVec 64, ∀ i ≤ 8, (v.setWidth 16).extractLsb' i 8 = v.extractLsb' i 8 := by
    intro v i within
    apply BitVec.eq_of_getLsbD_eq
    intro bit bound
    simp only [BitVec.getLsbD_extractLsb', BitVec.getLsbD_setWidth, show i + bit < 16 by omega,
      decide_true, Bool.true_and]
  rw [part _ _ (by decide), part _ _ (by decide)]
  rfl

section Sides
variable (charSigned : Bool)

theorem wideLengthBytes_eq_iff (text : List Byte) :
    wideLengthBytes (.little charSigned) text = wideLengthBytes (.big charSigned) text ↔
      LengthKept text := by
  rw [wideLengthBytes_le rfl, wideLengthBytes_be rfl, LengthKept]
  simp only [List.cons.injEq, and_true, ← BitVec.toNat_inj, BitVec.extractLsb'_toNat,
    BitVec.toNat_ofNat, Nat.shiftRight_eq_div_pow]
  generalize text.length = n
  have high : n % 2 ^ 64 / 2 ^ 56 % 2 ^ 8 = n / 2 ^ 48 % 2 ^ 16 / 2 ^ 8 := by omega
  have middle : n % 2 ^ 64 / 2 ^ 48 % 2 ^ 8 = n / 2 ^ 48 % 2 ^ 16 % 2 ^ 8 := by omega
  have second : n % 2 ^ 64 / 2 ^ 8 % 2 ^ 8 = n % 2 ^ 16 / 2 ^ 8 := by omega
  have low : n % 2 ^ 64 / 2 ^ 0 % 2 ^ 8 = n % 2 ^ 16 % 2 ^ 8 := by omega
  rw [high, middle, second, low]
  generalize n / 2 ^ 48 % 2 ^ 16 = lost
  generalize n % 2 ^ 16 = kept
  omega

/-- The word in memory reads the same from both ends only without any bytes, or if it is
zero and one byte of it is taken. -/
theorem remainingLengthBytes_eq_iff (msgLen : BitVec 32) :
    remainingLengthBytes (.little charSigned) msgLen = remainingLengthBytes (.big charSigned) msgLen ↔
      msgLen.toNat = 0 ∨ msgLen.toNat = 128 ∨ 268435456 < msgLen.toNat := by
  have packed := packedBytes_eq msgLen
  by_cases none : ByteBauble.packedBytes msgLen = 0
  · have empty : ∀ host, remainingLengthBytes host msgLen = [] := fun host =>
      List.length_eq_zero_iff.mp ((remainingLengthBytes_length host msgLen).trans none)
    rw [empty, empty]
    split_ifs at packed <;> simp <;> omega
  · have little := remainingLengthBytes_toNat_le (show (Host.little charSigned).endian = .le from rfl) none
    have big := remainingLengthBytes_toNat_be (show (Host.big charSigned).endian = .be from rfl) none
    have values : remainingLengthBytes (.little charSigned) msgLen =
        remainingLengthBytes (.big charSigned) msgLen ↔
          (remainingLengthBytes (.little charSigned) msgLen).map BitVec.toNat =
            (remainingLengthBytes (.big charSigned) msgLen).map BitVec.toNat :=
      (List.map_inj_right fun _ _ => BitVec.eq_of_toNat_eq).symm
    rw [values, little]
    generalize ByteBauble.packedBytes msgLen = count at packed none big
    generalize (remainingLengthBytes (.big charSigned) msgLen).map BitVec.toNat = front at big
    cases big with
    | one =>
      simp only [Base128.groups, List.cons.injEq, and_true]
      split_ifs at packed <;> omega
    | two =>
      simp only [Base128.groups, List.cons.injEq]
      split_ifs at packed <;> omega
    | three =>
      simp only [Base128.groups, List.cons.injEq]
      split_ifs at packed <;> omega
    | four =>
      simp only [Base128.groups, List.cons.injEq]
      split_ifs at packed <;> omega

/-! ### `serialize` -/

theorem append_eq_iff {s s' t t' : List Byte} (length : s.length = s'.length) :
    s ++ t = s' ++ t' ↔ s = s' ∧ t = t' :=
  ⟨fun same => List.append_inj same length, fun parts => by rw [parts.1, parts.2]⟩

theorem shortBytes_eq_host (host host' : Host) (v : BitVec 16) :
    shortBytes host v = shortBytes host' v := by
  rw [shortBytes_eq, shortBytes_eq]

/-- The messages whose variable header and payload are the same on either host. -/
def BodyAlike (m : NmqttMessage) : Prop :=
  match m.command with
  | .connect => m.mqttVersion = .version4 ∧
      (m.willFlag = true → LengthKept m.willTopic ∧ LengthKept m.will) ∧
      (m.usernameFlag = true → LengthKept m.willTopic) ∧
      (m.passwordFlag = true → LengthKept m.password)
  | .unsubscribe => LengthKept m.topic
  | _ => True

/-- An optional field in front of which stands its converted length. -/
theorem field_eq_iff (set : Bool) (counted text : List Byte) :
    (if set then wideLengthBytes (.little charSigned) counted ++ text else []) =
        (if set then wideLengthBytes (.big charSigned) counted ++ text else []) ↔
      (set = true → LengthKept counted) := by
  cases set with
  | false => exact ⟨fun _ => nofun, fun _ => rfl⟩
  | true =>
    simp only [if_true, forall_const]
    rw [List.append_cancel_right_eq]
    exact wideLengthBytes_eq_iff charSigned counted

theorem field_length (host host' : Host) (set : Bool) (counted text : List Byte) :
    (if set then wideLengthBytes host counted ++ text else []).length =
      (if set then wideLengthBytes host' counted ++ text else []).length := by
  cases set with
  | false => rfl
  | true => simp only [if_true, List.length_append, wideLengthBytes_length]

/-- The optional will, with two converted lengths. -/
theorem will_eq_iff (set : Bool) (topic will : List Byte) :
    (if set then wideLengthBytes (.little charSigned) topic ++
        (topic ++ (wideLengthBytes (.little charSigned) will ++ will)) else []) =
        (if set then wideLengthBytes (.big charSigned) topic ++
          (topic ++ (wideLengthBytes (.big charSigned) will ++ will)) else []) ↔
      (set = true → LengthKept topic ∧ LengthKept will) := by
  cases set with
  | false => exact ⟨fun _ => nofun, fun _ => rfl⟩
  | true =>
    have lengths : ∀ counted, (wideLengthBytes (.little charSigned) counted).length =
        (wideLengthBytes (.big charSigned) counted).length := fun counted =>
      (wideLengthBytes_length _ counted).trans (wideLengthBytes_length _ counted).symm
    simp only [if_true, forall_const]
    rw [append_eq_iff (lengths topic), List.append_cancel_left_eq, List.append_cancel_right_eq,
      wideLengthBytes_eq_iff, wideLengthBytes_eq_iff]

theorem will_length (host host' : Host) (set : Bool) (topic will : List Byte) :
    (if set then wideLengthBytes host topic ++ (topic ++ (wideLengthBytes host will ++ will))
        else []).length =
      (if set then wideLengthBytes host' topic ++ (topic ++ (wideLengthBytes host' will ++ will))
        else []).length := by
  cases set with
  | false => rfl
  | true => simp only [if_true, List.length_append, wideLengthBytes_length]

theorem connectProperties_eq_iff (m : NmqttMessage) :
    connectProperties (.little charSigned) m = connectProperties (.big charSigned) m ↔
      m.mqttVersion = .version4 := by
  unfold connectProperties
  cases m.mqttVersion with
  | version4 => exact ⟨fun _ => rfl, fun _ => rfl⟩
  | version5 =>
    constructor
    · intro same
      cases charSigned <;> exact absurd same (by decide)
    · nofun

theorem connect_body_eq_iff (m : NmqttMessage) (connect : m.command = .connect) :
    m.body (.little charSigned) = m.body (.big charSigned) ↔ m.BodyAlike := by
  unfold body draft BodyAlike
  simp only [connect, draftConnect, lengthBytes]
  rw [shortBytes_eq_host (.big charSigned) (.little charSigned),
    shortBytes_eq_host (.big charSigned) (.little charSigned),
    shortBytes_eq_host (.big charSigned) (.little charSigned)]
  have properties : (connectProperties (.little charSigned) m).length =
      (connectProperties (.big charSigned) m).length := by
    simp only [connectProperties, apply_ite List.length, List.length_append, memory_length]
  simp only [List.append_assoc, List.append_cancel_left_eq]
  rw [append_eq_iff properties, List.append_cancel_left_eq, List.append_cancel_left_eq,
    List.append_cancel_left_eq, append_eq_iff (will_length _ _ _ _ _),
    append_eq_iff (field_length _ _ _ _ _), connectProperties_eq_iff, will_eq_iff, field_eq_iff,
    field_eq_iff]

theorem unsubscribe_body_eq_iff (m : NmqttMessage) (unsubscribe : m.command = .unsubscribe) :
    m.body (.little charSigned) = m.body (.big charSigned) ↔ m.BodyAlike := by
  unfold body draft BodyAlike
  simp only [unsubscribe, draftUnsubscribe]
  rw [shortBytes_eq_host (.big charSigned) (.little charSigned),
    shortBytes_eq_host (.big charSigned) (.little charSigned), List.append_cancel_left_eq,
    List.append_cancel_left_eq, List.append_cancel_right_eq]
  exact wideLengthBytes_eq_iff charSigned m.topic

theorem body_eq_iff (m : NmqttMessage) :
    m.body (.little charSigned) = m.body (.big charSigned) ↔ m.BodyAlike := by
  cases command : m.command with
  | connect => exact connect_body_eq_iff charSigned m command
  | unsubscribe => exact unsubscribe_body_eq_iff charSigned m command
  | publish =>
    unfold body draft BodyAlike
    simp only [command, draftPublish, lengthBytes, shortBytes_eq]
  | subscribe =>
    unfold body draft BodyAlike
    simp only [command, draftSubscribe, lengthBytes, shortBytes_eq]
  | _ =>
    unfold body draft BodyAlike
    simp only [command]

theorem body_length_eq (m : NmqttMessage) (host host' : Host) :
    (m.body host).length = (m.body host').length := by
  unfold body draft
  cases m.command with
  | connect =>
    simp only [draftConnect, lengthBytes, connectProperties, List.length_append,
      apply_ite List.length, shortBytes_length, wideLengthBytes_length, memory_length]
  | unsubscribe =>
    simp only [draftUnsubscribe, List.length_append, shortBytes_length, wideLengthBytes_length]
  | publish => simp only [draftPublish, lengthBytes, shortBytes_eq]
  | subscribe => simp only [draftSubscribe, lengthBytes, shortBytes_eq]
  | _ => rfl

/-- The messages that either host serializes to the same bytes. -/
def SerializesAlike (m : NmqttMessage) : Prop :=
  let msgLen := (m.body (.big charSigned)).length % 2 ^ 32
  (msgLen = 0 ∨ msgLen = 128 ∨ 268435456 < msgLen) ∧ m.BodyAlike

theorem serialize_eq_iff (m : NmqttMessage) :
    (m.serialize (.little charSigned)).1 = (m.serialize (.big charSigned)).1 ↔
      m.SerializesAlike charSigned := by
  have length := body_length_eq m (.little charSigned) (.big charSigned)
  have first : (m.draft (.little charSigned)).b0 = (m.draft (.big charSigned)).b0 := by
    unfold draft
    cases m.command with
    | _ => rfl
  have sizes : (remainingLengthBytes (.little charSigned)
        (BitVec.ofNat 32 (m.body (.little charSigned)).length)).length =
      (remainingLengthBytes (.big charSigned)
        (BitVec.ofNat 32 (m.body (.big charSigned)).length)).length := by
    rw [remainingLengthBytes_length, remainingLengthBytes_length, length]
  rw [serialize_bytes, serialize_bytes, List.cons.injEq, append_eq_iff sizes, length,
    remainingLengthBytes_eq_iff, body_eq_iff, BitVec.toNat_ofNat]
  exact and_iff_right first

/-! ### `parseHeader` -/

section Header
variable (b0 b1 b2 b3 b4 : Byte) (len : Nat) (msglen : BitVec 32) (idx : Nat)

/-- The length bytes end within the bytes that are there. -/
def HeaderEnds (b1 b2 b3 b4 : Byte) (len : Nat) : Prop :=
  (Base128.scan [b1.toNat, b2.toNat, b3.toNat, b4.toNat]).1 + 1 ≤ min 5 len

instance : Decidable (HeaderEnds b1 b2 b3 b4 len) := inferInstanceAs (Decidable (_ ≤ _))

/-- The header word reads the same from both ends. -/
def Palindromic (b1 b2 b3 b4 : Byte) : Prop :=
  (b1.toNat < 128 ∧ b4 = b1) ∨ (128 ≤ b1.toNat ∧ b2.toNat < 128 ∧ b4 = b1 ∧ b3 = b2)

theorem headerEnds_iff : HeaderEnds b1 b2 b3 b4 len ↔
    2 ≤ len ∧ (b1.toNat < 128 ∨ 3 ≤ len ∧ (b2.toNat < 128 ∨ 4 ≤ len ∧ (b3.toNat < 128 ∨
      5 ≤ len ∧ b4.toNat < 128))) := by
  have pos2 := Base128.scan_pos [b2.toNat, b3.toNat, b4.toNat]
  unfold HeaderEnds
  by_cases last1 : b1.toNat < 128
  · rw [Base128.scan_last last1]
    omega
  rw [Base128.scan_marked last1]
  by_cases last2 : b2.toNat < 128
  · rw [Base128.scan_last last2]
    omega
  rw [Base128.scan_marked last2]
  by_cases last3 : b3.toNat < 128
  · rw [Base128.scan_last last3]
    omega
  rw [Base128.scan_marked last3]
  by_cases last4 : b4.toNat < 128
  · rw [Base128.scan_last last4]
    omega
  rw [Base128.scan_marked last4]
  simp only [Base128.scan]
  omega

/-- Without the end of the length nothing is decoded. -/
theorem parseHeader_unfinished (unfinished : ¬HeaderEnds b1 b2 b3 b4 len) (host host' : Host) :
    parseHeader host #v[b0, b1, b2, b3, b4] len msglen idx =
      parseHeader host' #v[b0, b1, b2, b3, b4] len msglen idx := by
  have mark : ∀ b : Byte, ¬b.toNat < 128 → continues b = true := fun b marked =>
    (Receiver.continues_iff b).mpr (Nat.not_lt.mp marked)
  rw [headerEnds_iff] at unfinished
  unfold parseHeader
  change (if len < 2 then _ else if continues b1 then if len < 3 then _ else if continues b2 then
    if len < 4 then _ else if continues b3 then if len < 5 then _ else if continues b4 then _
      else _ else _ else _ else _) = (if len < 2 then _ else if continues b1 then if len < 3 then _
    else if continues b2 then if len < 4 then _ else if continues b3 then if len < 5 then _
    else if continues b4 then _ else _ else _ else _ else _)
  -- each byte within the buffer is marked, up to the first one that is not there
  by_cases short : len < 2
  · rw [if_pos short, if_pos short]
  have marked := mark b1 (by omega)
  rw [if_neg short, if_neg short, if_pos marked, if_pos marked]
  by_cases short : len < 3
  · rw [if_pos short, if_pos short]
  have marked := mark b2 (by omega)
  rw [if_neg short, if_neg short, if_pos marked, if_pos marked]
  by_cases short : len < 4
  · rw [if_pos short, if_pos short]
  have marked := mark b3 (by omega)
  rw [if_neg short, if_neg short, if_pos marked, if_pos marked]
  by_cases short : len < 5
  · rw [if_pos short, if_pos short]
  have marked := mark b4 (by omega)
  rw [if_neg short, if_neg short, if_pos marked, if_pos marked]

/-- Two readings agree on a number of at most two bytes that is repeated at the end. -/
theorem scan_reverse_iff (ends : HeaderEnds b1 b2 b3 b4 len) :
    Base128.scan [b4.toNat, b3.toNat, b2.toNat, b1.toNat] =
        Base128.scan [b1.toNat, b2.toNat, b3.toNat, b4.toNat] ↔
      Palindromic b1 b2 b3 b4 := by
  unfold Palindromic
  simp only [← BitVec.toNat_inj]
  rw [headerEnds_iff] at ends
  by_cases last1 : b1.toNat < 128
  · rw [Base128.scan_last last1 [_, _, _], Base128.scan_one_iff]
    omega
  by_cases last2 : b2.toNat < 128
  · rw [Base128.scan_marked last1 [_, _, _], Base128.scan_last last2 [_, _], Base128.scan_two_iff]
    omega
  by_cases last3 : b3.toNat < 128
  · rw [Base128.scan_marked last1 [_, _, _], Base128.scan_marked last2 [_, _],
      Base128.scan_last last3 [_], Base128.scan_three_iff]
    omega
  · have last4 : b4.toNat < 128 := by omega
    rw [Base128.scan_last last4 [_, _, _], Base128.scan_marked last1 [_, _, _],
      Base128.scan_marked last2 [_, _], Base128.scan_marked last3 [_], Prod.mk.injEq]
    omega

theorem header_ext {h h' : HeaderParse} (code : h.code = h'.code) (msglen : h.msglen = h'.msglen)
    (idx : h.idx = h'.idx) : h = h' := by
  cases h
  cases h'
  cases code
  cases msglen
  cases idx
  rfl

theorem decodeHeader_eq_iff :
    decodeHeader (.little charSigned) #v[b0, b1, b2, b3, b4] =
        decodeHeader (.big charSigned) #v[b0, b1, b2, b3, b4] ↔
      Base128.scan [b4.toNat, b3.toNat, b2.toNat, b1.toNat] =
        Base128.scan [b1.toNat, b2.toNat, b3.toNat, b4.toNat] := by
  obtain ⟨code, idx, msglen⟩ := decodeHeader_scan (.little charSigned) b0 b1 b2 b3 b4
  obtain ⟨code', idx', msglen'⟩ := decodeHeader_scan (.big charSigned) b0 b1 b2 b3 b4
  rw [Host.lowFirst_le rfl] at idx msglen
  rw [Host.lowFirst_be rfl] at idx' msglen'
  constructor
  · intro same
    rw [same, idx'] at idx
    rw [same, msglen'] at msglen
    exact Prod.ext (Nat.succ.inj idx) msglen
  · intro same
    change Base128.scan [b1.toNat, b2.toNat, b3.toNat, b4.toNat].reverse = _ at same
    rw [same, ← idx] at idx'
    rw [same, ← msglen] at msglen'
    exact header_ext (code.trans code'.symm) (BitVec.eq_of_toNat_eq msglen').symm idx'.symm

end Header

theorem parseHeader_eq_iff (buff : Vector Byte 5) (len : Nat) (msglen : BitVec 32) (idx : Nat) :
    parseHeader (.little charSigned) buff len msglen idx =
        parseHeader (.big charSigned) buff len msglen idx ↔
      (HeaderEnds (byte1 buff) (byte2 buff) (byte3 buff) (byte4 buff) len →
        Palindromic (byte1 buff) (byte2 buff) (byte3 buff) (byte4 buff)) := by
  obtain ⟨⟨l⟩, size⟩ := buff
  match l, size with
  | [b0, b1, b2, b3, b4], _ =>
    change parseHeader (.little charSigned) #v[b0, b1, b2, b3, b4] len msglen idx =
        parseHeader (.big charSigned) #v[b0, b1, b2, b3, b4] len msglen idx ↔
      (HeaderEnds b1 b2 b3 b4 len → Palindromic b1 b2 b3 b4)
    by_cases ends : HeaderEnds b1 b2 b3 b4 len
    · rw [parseHeader_scan _ _ _ _ _ _ _ _ _ ends, parseHeader_scan _ _ _ _ _ _ _ _ _ ends,
        decodeHeader_eq_iff, scan_reverse_iff _ _ _ _ _ ends]
      exact ⟨fun same _ => same, fun same => same ends⟩
    · exact ⟨fun _ now => absurd now ends,
        fun _ => parseHeader_unfinished b0 b1 b2 b3 b4 len msglen idx ends _ _⟩

/-! ### `parseMessage` -/

section Parse
variable (bytes : List Byte) (beyond : Nat → Byte)

theorem parsePublish_eq (idx qosCnt : Nat) :
    parsePublish ⟨.little charSigned, bytes, beyond⟩ idx qosCnt =
      parsePublish ⟨.big charSigned, bytes, beyond⟩ idx qosCnt := by
  have topic : parseTopic ⟨.little charSigned, bytes, beyond⟩ =
      parseTopic ⟨.big charSigned, bytes, beyond⟩ := by
    funext idx s
    rw [parseTopic_run, parseTopic_run]
    rfl
  have packetID : parsePacketID ⟨.little charSigned, bytes, beyond⟩ =
      parsePacketID ⟨.big charSigned, bytes, beyond⟩ := by
    funext idx qosCnt s
    rw [parsePacketID_run, parsePacketID_run]
    rfl
  unfold parsePublish
  rw [topic, packetID]
  rfl

/-- The parser converts what it loads, and never looks at more than single bytes besides. -/
theorem parseMessage_eq (m : NmqttMessage) :
    parseMessage ⟨.little charSigned, bytes, beyond⟩ m =
      parseMessage ⟨.big charSigned, bytes, beyond⟩ m := by
  have branches : parseVariable ⟨.little charSigned, bytes, beyond⟩ =
      parseVariable ⟨.big charSigned, bytes, beyond⟩ := by
    funext idx qosCnt
    unfold parseVariable
    simp only [parsePublish_eq charSigned bytes beyond]
    rfl
  unfold parseMessage parseBody
  rw [branches]
  rfl

end Parse

/-- What the byte order of the host decides: the packed length of most packets, the
converted lengths, the properties, and the reading of most headers; and nothing in
`parseMessage`. -/
theorem byteOrder_iff :
    (∀ m : NmqttMessage, (m.serialize (.little charSigned)).1 = (m.serialize (.big charSigned)).1 ↔
      m.SerializesAlike charSigned) ∧
    (∀ (buff : Vector Byte 5) (len : Nat) (msglen : BitVec 32) (idx : Nat),
      parseHeader (.little charSigned) buff len msglen idx =
          parseHeader (.big charSigned) buff len msglen idx ↔
        (HeaderEnds (byte1 buff) (byte2 buff) (byte3 buff) (byte4 buff) len →
          Palindromic (byte1 buff) (byte2 buff) (byte3 buff) (byte4 buff))) ∧
    ∀ (bytes : List Byte) (beyond : Nat → Byte) (m : NmqttMessage),
      parseMessage ⟨.little charSigned, bytes, beyond⟩ m =
        parseMessage ⟨.big charSigned, bytes, beyond⟩ m := by
  constructor
  · exact serialize_eq_iff charSigned
  · constructor
    · exact parseHeader_eq_iff charSigned
    · exact parseMessage_eq charSigned

end Sides

/-- A PUBLISH of four bytes, as both hosts write it, and as both hosts read its header. -/
theorem byteOrder_matters :
    let m := ((ofType default .publish).setTopic [0x74]).setPayload [0x61]
    (m.serialize (.little true)).1 = [0x30, 0x04, 0x00, 0x01, 0x74, 0x61] ∧
      (m.serialize (.big true)).1 = [0x30, 0x00, 0x00, 0x01, 0x74, 0x61] ∧
      (parseHeader (.little true) #v[0x30, 0x04, 0x00, 0x01, 0x74] 5 0 0).msglen = 4 ∧
      (parseHeader (.big true) #v[0x30, 0x04, 0x00, 0x01, 0x74] 5 0 0).msglen = 116 := by
  decide

end NmqttMessage
end NymphMqtt
