import NymphMqtt.ConnectEncoding
import NymphMqtt.HeaderAgreement

/-! CONNECT packets of MQTT 3.1.1, as `parseMessage` decodes them. -/

namespace NymphMqtt
open NymphMqtt.Library NymphMqtt.Library.LoggedReader

/-! ### The packet -/

/-- Strings one behind the other, each with its length in front. -/
def stringFields (texts : List FieldText) : List Byte :=
  texts.flatMap fun text => stringField text.1

/-- What a client may put into a CONNECT. A password may come without a user name here. -/
structure ConnectPacket where
  cleanSession : Bool
  keepAlive : BitVec 16
  clientId : FieldText
  will : Option Will
  username : Option FieldText
  password : Option FieldText

namespace ConnectPacket

/-- User name, password, will retain, two bits of will QoS, will, clean session, reserved. -/
def flags (p : ConnectPacket) : Byte :=
  (if p.username.isSome then 0x80#8 else 0#8) ||| (if p.password.isSome then 0x40#8 else 0#8) |||
    (match p.will with
      | some w => (if w.retain then 0x20#8 else 0#8) ||| (w.qos <<< 3) ||| 0x04#8
      | none => 0#8) ||| (if p.cleanSession then 0x02#8 else 0#8)

/-- The strings of the payload. -/
def texts (p : ConnectPacket) : List FieldText :=
  p.clientId :: ((match p.will with
    | some w => [w.topic, w.message]
    | none => []) ++ (p.username.toList ++ p.password.toList))

def body (p : ConnectPacket) : List Byte :=
  [0x00, 0x04, 0x4D, 0x51, 0x54, 0x54, 0x04, p.flags, p.keepAlive.extractLsb' 8 8,
    p.keepAlive.extractLsb' 0 8] ++ stringFields p.texts

end ConnectPacket

theorem stringFields_cons (text : FieldText) (texts : List FieldText) :
    stringFields (text :: texts) = stringField text.1 ++ stringFields texts := rfl

theorem stringField_length (text : List Byte) : (stringField text).length = 2 + text.length := by
  rw [stringField, List.length_append]
  rfl

/-- Each string takes at most 65537 bytes, and at least the two of its length. -/
theorem stringFields_length_le (texts : List FieldText) :
    (stringFields texts).length ≤ 65537 * texts.length := by
  induction texts with
  | nil => exact Nat.le_refl 0
  | cons text texts ih =>
    have fits := text.2
    rw [stringFields_cons, List.length_append, stringField_length, List.length_cons]
    omega

theorem stringFields_length_ge {texts : List FieldText} :
    ∀ text ∈ texts, text.1.length ≤ (stringFields texts).length := by
  induction texts with
  | nil => exact nofun
  | cons first texts ih =>
    intro text member
    rw [stringFields_cons, List.length_append, stringField_length]
    rcases List.mem_cons.mp member with rfl | later
    · omega
    · have bound := ih text later
      omega

theorem stringFields_length_empty {texts : List FieldText} (empty : ∀ text ∈ texts, text.1 = []) :
    (stringFields texts).length = 2 * texts.length := by
  induction texts with
  | nil => rfl
  | cons text texts ih =>
    have rest := ih fun other member => empty other (List.mem_cons_of_mem text member)
    rw [stringFields_cons, List.length_append, stringField_length, empty text List.mem_cons_self,
      rest, List.length_cons, List.length_nil]
    omega

/-! ### Reading strings into slots -/

namespace Buffer
variable (b : Buffer)

/-- With fewer than 256 bytes behind it, the first byte of a length is zero, and nothing of
the string is read. -/
theorem readString_short {idx : Nat} {text : FieldText} {rest : List Byte}
    (here : b.bytes.drop idx = stringField text.1 ++ rest) (short : text.1.length < 256)
    (store : List Byte → NmqttMessage → NmqttMessage) (m : NmqttMessage) :
    b.readString idx store m = ⟨.ok (idx + 2), store [] m, [idx]⟩ := by
  have size := congrArg List.length here
  rw [List.length_drop, List.length_append, stringField_length] at size
  have first : b.bytes.getD idx 0 = 0 := by
    have head := congrArg (fun l : List Byte => l.getD 0 0) here
    simp only [List.getD_eq_getElem?_getD, List.getElem?_drop, Nat.add_zero] at head
    rw [List.getD_eq_getElem?_getD, head, stringField, lengthPrefix, Nat.div_eq_of_lt short]
    rfl
  have none : (b.host.widenChar 16 (0 : Byte)).toNat = 0 := by
    unfold Host.widenChar
    cases b.host.charSigned <;> decide
  rw [b.readString_run, if_pos (show idx + 2 ≤ b.size by unfold Buffer.size; omega), first, none,
    List.take_zero]

/-- One string after the other, each into its slot. -/
def readSlots (b : Buffer) : List (Slot NmqttMessage (List Byte)) → (idx : Nat) → ParseM Nat
  | [], idx => pure idx
  | slot :: slots, idx => do
      let idx ← b.readString idx slot.store
      b.readSlots slots idx

theorem readSlots_append (slots slots' : List (Slot NmqttMessage (List Byte))) (idx : Nat)
    (s : NmqttMessage) :
    b.readSlots (slots ++ slots') idx s = (b.readSlots slots idx >>= b.readSlots slots') s := by
  induction slots generalizing idx s with
  | nil => rfl
  | cons slot slots ih =>
    change (b.readString idx slot.store >>= b.readSlots (slots ++ slots')) s =
      ((b.readString idx slot.store >>= b.readSlots slots) >>= b.readSlots slots') s
    rw [bind_assoc_run]
    apply bind_congr_run rfl
    intro next t _
    exact ih next t

/-- What no slot holds stays as it is. -/
theorem readSlots_keeps {γ : Type} {view : NmqttMessage → γ}
    {slots : List (Slot NmqttMessage (List Byte))}
    (kept : ∀ slot ∈ slots, ∀ text m, view (slot.store text m) = view m) (idx : Nat) :
    Keeps view (b.readSlots slots idx) := by
  induction slots generalizing idx with
  | nil => exact Keeps.pure idx
  | cons slot slots ih =>
    apply Keeps.bind
    · intro s
      rw [b.readString_run]
      split
      · exact kept slot List.mem_cons_self _ s
      · rfl
    · intro next
      exact ih (fun other member => kept other (List.mem_cons_of_mem slot member)) next

/-- Short strings come back from their slots only if all of them are empty, and then they are
read to the end. -/
theorem readSlots_recover_iff {slots : List (Slot NmqttMessage (List Byte))}
    (apart : slots.Pairwise Slot.Apart) {texts : List FieldText} (size : slots.length = texts.length)
    (short : ∀ text ∈ texts, text.1.length < 256) {idx : Nat}
    (here : b.bytes.drop idx = stringFields texts) (s : NmqttMessage) :
    let o := b.readSlots slots idx s
    ((∃ next, o.result = .ok next) ∧
        slots.map (fun slot => slot.view o.state) = texts.map fun text => text.1) ↔
      ∀ text ∈ texts, text.1 = [] := by
  induction slots generalizing texts idx s with
  | nil =>
    obtain rfl : texts = [] := List.length_eq_zero_iff.mp size.symm
    exact iff_of_true ⟨⟨idx, rfl⟩, rfl⟩ nofun
  | cons slot slots ih =>
    obtain ⟨text, texts, rfl⟩ := List.exists_cons_of_length_eq_add_one size.symm
    obtain ⟨others, apart⟩ := List.pairwise_cons.mp apart
    have read := b.readString_short here (short text List.mem_cons_self) slot.store s
    intro o
    have run : o = ⟨(b.readSlots slots (idx + 2) (slot.store [] s)).result,
        (b.readSlots slots (idx + 2) (slot.store [] s)).state,
        [idx] ++ (b.readSlots slots (idx + 2) (slot.store [] s)).reads⟩ :=
      bind_run _ _ s read
    have own : slot.view o.state = [] := by
      rw [run]
      exact (b.readSlots_keeps others (idx + 2) (slot.store [] s)).trans (slot.stored [] s)
    by_cases empty : text.1 = []
    · have there : b.bytes.drop (idx + 2) = stringFields texts := by
        rw [← List.drop_drop, here, stringFields_cons, stringField, empty]
        rfl
      have rest := ih apart (Nat.succ.inj size)
        (fun other member => short other (List.mem_cons_of_mem text member)) there (slot.store [] s)
      dsimp only at rest
      rw [List.forall_mem_cons, ← rest, List.map_cons, List.map_cons, own, empty, run]
      simp only [List.cons.injEq, true_and]
    · refine iff_of_false (fun recovered => empty ?_) (fun all => empty (all text List.mem_cons_self))
      have first := (List.cons.inj recovered.2).1
      exact first.symm.trans own

end Buffer
namespace NmqttMessage

/-! ### The payload of CONNECT -/

def clientIdSlot : Slot NmqttMessage (List Byte) :=
  ⟨clientId, fun text m => { m with clientId := text }, fun _ _ => rfl⟩

def willTopicSlot : Slot NmqttMessage (List Byte) :=
  ⟨willTopic, fun text m => { m with willTopic := text }, fun _ _ => rfl⟩

def willSlot : Slot NmqttMessage (List Byte) :=
  ⟨will, fun text m => { m with will := text }, fun _ _ => rfl⟩

def usernameSlot : Slot NmqttMessage (List Byte) :=
  ⟨username, fun text m => { m with username := text }, fun _ _ => rfl⟩

def passwordSlot : Slot NmqttMessage (List Byte) :=
  ⟨password, fun text m => { m with password := text }, fun _ _ => rfl⟩

/-- The slots that the flags ask for, in the order of the payload. -/
def connectSlots : Bool × Bool × Bool → List (Slot NmqttMessage (List Byte))
  | (will, username, password) =>
      clientIdSlot :: ((if will then [willTopicSlot, willSlot] else []) ++
        ((if username then [usernameSlot] else []) ++ if password then [passwordSlot] else []))

/-- Every slot there is. -/
def allSlots : List (Slot NmqttMessage (List Byte)) :=
  [clientIdSlot, willTopicSlot, willSlot, usernameSlot, passwordSlot]

theorem connectSlots_sublist (flags : Bool × Bool × Bool) : (connectSlots flags).Sublist allSlots := by
  obtain ⟨will, username, password⟩ := flags
  have optional : ∀ (set : Bool) (l : List (Slot NmqttMessage (List Byte))),
      (if set then l else []).Sublist l := by
    intro set l
    cases set with
    | false => exact List.nil_sublist l
    | true => exact List.Sublist.refl l
  exact ((optional will _).append ((optional username _).append (optional password _))).cons_cons _

theorem connectSlots_apart (flags : Bool × Bool × Bool) :
    (connectSlots flags).Pairwise Slot.Apart := by
  have all : allSlots.Pairwise Slot.Apart := by
    simp only [allSlots, List.pairwise_cons, List.mem_cons, List.not_mem_nil, or_false,
      forall_eq_or_imp, forall_eq, IsEmpty.forall_iff, implies_true, List.Pairwise.nil, and_true]
    refine ⟨⟨?_, ?_, ?_, ?_⟩, ⟨?_, ?_, ?_⟩, ⟨?_, ?_⟩, ?_⟩
    all_goals exact fun _ _ => rfl
  exact List.Pairwise.sublist (connectSlots_sublist flags) all

section Payload
variable (b : Buffer) (idx : Nat) (s : NmqttMessage)

theorem parseWill_slots : parseWill b idx s =
    b.readSlots (if s.willFlag then [willTopicSlot, willSlot] else []) idx s := by
  unfold parseWill
  rw [get_bind_run]
  cases s.willFlag with
  | false => rfl
  | true =>
    apply bind_congr_run rfl
    intro next t _
    exact (bind_pure_run _ t).symm

theorem parseUsername_slots : parseUsername b idx s =
    b.readSlots (if s.usernameFlag then [usernameSlot] else []) idx s := by
  unfold parseUsername
  rw [get_bind_run]
  cases s.usernameFlag with
  | false => rfl
  | true => exact (bind_pure_run _ _).symm

theorem parsePassword_slots : parsePassword b idx s =
    b.readSlots (if s.passwordFlag then [passwordSlot] else []) idx s := by
  unfold parsePassword
  rw [get_bind_run]
  cases s.passwordFlag with
  | false => rfl
  | true => exact (bind_pure_run _ _).symm

/-- The branches of the payload fill the slots that the flags ask for. -/
theorem parseConnectPayload_slots :
    parseConnectPayload b idx s = b.readSlots (connectSlots s.announced) idx s := by
  unfold parseConnectPayload connectSlots announced
  apply bind_congr_run rfl
  intro i₁ t₁ at₁
  have same₁ := (StepsOver.string b idx s _ (fun _ _ => rfl : ∀ text m,
    (clientIdSlot.store text m).announced = m.announced)).1
  rw [show (b.readString idx clientIdSlot.store s).state = t₁ from at₁] at same₁
  simp only [announced, Prod.mk.injEq] at same₁
  rw [← same₁.1, ← same₁.2.1, ← same₁.2.2]
  refine Eq.trans ?_ (b.readSlots_append _ _ i₁ t₁).symm
  apply bind_congr_run (parseWill_slots b i₁ t₁)
  intro i₂ t₂ at₂
  have same₂ := (parseWill_steps b i₁ t₁).1
  rw [at₂] at same₂
  simp only [announced, Prod.mk.injEq] at same₂
  rw [← same₂.2.1, ← same₂.2.2]
  refine Eq.trans ?_ (b.readSlots_append _ _ i₂ t₂).symm
  apply bind_congr_run (parseUsername_slots b i₂ t₂)
  intro i₃ t₃ at₃
  have same₃ := (parseUsername_steps b i₂ t₂).1
  rw [at₃] at same₃
  simp only [announced, Prod.mk.injEq] at same₃
  rw [← same₃.2.2]
  exact parsePassword_slots b i₃ t₃

end Payload
end NmqttMessage
namespace ConnectPacket
variable (p : ConnectPacket)

/-! ### The fixed and the variable header -/

theorem texts_length : p.texts.length ≤ 5 := by
  unfold texts
  cases p.will <;> cases p.username <;> cases p.password <;> simp

theorem body_length : p.body.length = 10 + (stringFields p.texts).length := by
  rw [body, List.length_append]
  rfl

theorem body_fits : p.body.length ≤ 268435455 := by
  have bound := stringFields_length_le p.texts
  have count := p.texts_length
  rw [body_length]
  omega

def packet : Packet := ⟨0x10, p.body, p.body_fits⟩

/-- The packet as it is sent. -/
def bytes : List Byte := p.packet.encode

def willRetain : Bool :=
  match p.will with
  | some w => w.retain
  | none => false

def willQoS : Byte :=
  match p.will with
  | some w => w.qos
  | none => 0

/-- Bit 3 alone reaches the will QoS. -/
def receivedWillQoS : Byte :=
  match p.will with
  | some w => if w.qos = 2 then 0 else w.qos
  | none => 0

/-- The flags come back, except for the upper bit of the will QoS. -/
theorem flags_decoded (s : NmqttMessage) :
    p.flags.getLsbD 0 = false ∧
      (s.withConnectFlags p.flags).announced =
        (p.will.isSome, p.username.isSome, p.password.isSome) ∧
      (s.withConnectFlags p.flags).cleanSessionFlag = p.cleanSession ∧
      (s.withConnectFlags p.flags).willRetainFlag = p.willRetain ∧
      (s.withConnectFlags p.flags).willQoS = p.receivedWillQoS := by
  unfold NmqttMessage.withConnectFlags NmqttMessage.announced flags willRetain receivedWillQoS
  generalize p.username.isSome = username
  generalize p.password.isSome = password
  generalize p.cleanSession = clean
  cases p.will with
  | none =>
    dsimp only [Option.isSome]
    revert username password clean
    decide
  | some w =>
    have level := ConnectRequest.level_cases w
    dsimp only [Option.isSome]
    generalize w.qos = qos at level
    generalize w.retain = retain
    rcases level with rfl | rfl | rfl
    all_goals
      revert username password clean retain
      decide

/-- The message behind the variable header: of the keep-alive, its first byte. -/
def withHeader (host : Host) (s : NmqttMessage) : NmqttMessage :=
  { ({ s with mqttVersion := .version4 } : NmqttMessage).withConnectFlags p.flags with
    keepAlive := host.widenChar 16 (p.keepAlive.extractLsb' 8 8) }

/-- The strings of a packet, read into their slots. -/
def slots : List (Slot NmqttMessage (List Byte)) :=
  NmqttMessage.connectSlots (p.will.isSome, p.username.isSome, p.password.isSome)

theorem parseConnectPayload_run (host : Host) (beyond : Nat → Byte) (s : NmqttMessage) :
    NmqttMessage.parseConnectPayload ⟨host, p.bytes, beyond⟩ 12 (p.withHeader host s) =
      Buffer.readSlots ⟨host, p.bytes, beyond⟩ p.slots 12 (p.withHeader host s) := by
  have announced : (p.withHeader host s).announced =
      (p.will.isSome, p.username.isSome, p.password.isSome) := (p.flags_decoded s).2.1
  rw [NmqttMessage.parseConnectPayload_slots, announced, slots]

section Short
variable (short : p.body.length ≤ 127) (host : Host) (beyond : Nat → Byte)
include short

theorem bytes_short : p.bytes = 0x10 :: BitVec.ofNat 8 p.body.length :: p.body :=
  p.packet.encode_short short

theorem bytes_front : p.bytes = [0x10, BitVec.ofNat 8 p.body.length, 0x00, 0x04, 0x4D, 0x51, 0x54,
    0x54, 0x04, p.flags, p.keepAlive.extractLsb' 8 8, p.keepAlive.extractLsb' 0 8] ++
      stringFields p.texts :=
  p.bytes_short short

theorem bytes_length : p.bytes.length = 2 + p.body.length := by
  rw [p.bytes_short short, List.length_cons, List.length_cons]
  omega

theorem parseConnectHeader_run (s : NmqttMessage) :
    NmqttMessage.parseConnectHeader ⟨host, p.bytes, beyond⟩ 2 s =
      ⟨.ok 12, p.withHeader host s, [8, 9, 10]⟩ := by
  have reserved := (p.flags_decoded s).1
  have size := p.bytes_length short
  have body := p.body_length
  have front := p.bytes_front short
  have inside : ∀ i ≤ 11, (Buffer.mk host p.bytes beyond).byteAt i = p.bytes.getD i 0 := by
    intro i small
    apply Buffer.byteAt_eq
    change i ≤ p.bytes.length
    omega
  have within : 2 ≤ (Buffer.mk host p.bytes beyond).size := by
    change 2 ≤ p.bytes.length
    omega
  have name : (p.bytes.drop 2).take 6 = NmqttMessage.protMatch := by
    rw [front]
    rfl
  have level : (Buffer.mk host p.bytes beyond).byteAt 8 = 4 := by
    rw [inside 8 (by decide), front]
    rfl
  have flags : (Buffer.mk host p.bytes beyond).byteAt 9 = p.flags := by
    rw [inside 9 (by decide), front]
    rfl
  have alive : (Buffer.mk host p.bytes beyond).byteAt 10 = p.keepAlive.extractLsb' 8 8 := by
    rw [inside 10 (by decide), front]
    rfl
  simp only [NmqttMessage.parseConnectHeader, Buffer.substr, Buffer.charAt, if_pos within,
    pure_bind_run, name, ne_eq, not_true_eq_false, if_false, read_bind_run, Nat.reduceAdd, level,
    NmqttMessage.checkProtocolLevel, if_true, update_bind_run, flags, reserved, Bool.false_eq_true,
    alive, pure_run]
  rfl

theorem bodyStart_bytes : Verdict.bodyStart host p.bytes = 2 := by
  have second : (p.bytes.getD 1 0).toNat = p.body.length := by
    rw [p.bytes_front short]
    change (BitVec.ofNat 8 p.body.length).toNat = _
    rw [BitVec.toNat_ofNat]
    omega
  rw [Verdict.bodyStart, (Verdict.packedLength_small host p.bytes (by omega)).1]

/-- The fixed header passes, and the rest of the packet is read as strings. -/
theorem parseMessage_run (m : NmqttMessage) :
    let b : Buffer := ⟨host, p.bytes, beyond⟩
    let o := b.readSlots p.slots 12
      (p.withHeader host ({ m with parseGood := false }.withFixedHeader host p.bytes))
    ((NmqttMessage.parseMessage b m).exit = .returned 1 ↔ ∃ next, o.result = .ok next) ∧
      ∃ good, (NmqttMessage.parseMessage b m).message = { o.state with parseGood := good } := by
  have sized : Verdict.WellSized host p.bytes := (p.packet.encode_sized_iff host).mpr short
  have whole := NmqttMessage.parseBody_sized ⟨host, p.bytes, beyond⟩ m sized.1 sized
  have type : MqttPacketType.ofByte0 (p.bytes.getD 0 0) = .connect := by
    rw [p.bytes_front short]
    exact (by decide : MqttPacketType.ofByte0 0x10 = .connect)
  dsimp only at whole ⊢
  rw [p.bodyStart_bytes short host] at whole
  have command : ({ m with parseGood := false }.withFixedHeader host p.bytes).command =
      .connect := type
  generalize ({ m with parseGood := false } : NmqttMessage).withFixedHeader host p.bytes = s
    at whole command ⊢
  have header := p.parseConnectHeader_run short host beyond s
  have payload := p.parseConnectPayload_run host beyond s
  have steps := (NmqttMessage.parseConnectPayload_steps ⟨host, p.bytes, beyond⟩ 12
    (p.withHeader host s)).2
  rw [payload] at steps
  generalize Buffer.readSlots ⟨host, p.bytes, beyond⟩ p.slots 12 (p.withHeader host s) = o
    at payload steps ⊢
  have run : NmqttMessage.parseConnect ⟨host, p.bytes, beyond⟩ 2 s =
      ⟨o.result.map fun _ => (), o.state, [8, 9, 10] ++ o.reads⟩ := by
    unfold NmqttMessage.parseConnect
    rw [bind_run _ _ _ header]
    cases result : o.result with
    | ok next =>
      rw [bind_ok _ _ _ ((congrArg Outcome.result payload).trans result), payload]
      simp only [pure_run, List.append_nil]
      rfl
    | error e =>
      rw [bind_error _ _ _ ((congrArg Outcome.result payload).trans result), payload]
      rfl
  unfold NmqttMessage.parseMessage
  rw [whole]
  simp only [NmqttMessage.parseVariable, get_bind_run, command, run]
  split at steps
  next next _ =>
    rw [steps.1]
    exact ⟨iff_of_true rfl ⟨next, rfl⟩, true, rfl⟩
  next =>
    rw [steps]
    exact ⟨iff_of_false (by decide) nofun, o.state.parseGood, rfl⟩

end Short

/-! ### What comes back -/

/-- The call accepts the packet, and everything in it has arrived. -/
structure Recovered (c : NmqttMessage.ParseCall) : Prop where
  accepted : c.exit = .returned 1
  cleanSession : c.message.cleanSessionFlag = p.cleanSession
  flagged : c.message.announced = (p.will.isSome, p.username.isSome, p.password.isSome)
  willRetain : c.message.willRetainFlag = p.willRetain
  willQoS : c.message.willQoS = p.willQoS
  keepAlive : c.message.keepAlive = p.keepAlive
  clientId : c.message.clientId = p.clientId.1
  will : ∀ w ∈ p.will, c.message.willTopic = w.topic.1 ∧ c.message.will = w.message.1
  username : ∀ u ∈ p.username, c.message.username = u.1
  password : ∀ u ∈ p.password, c.message.password = u.1

/-- Packets of which nothing is lost: their strings are empty, their will is not of QoS 2,
and their keep-alive survives being read from its first byte alone. -/
structure Decodable (host : Host) : Prop where
  empty : ∀ text ∈ p.texts, text.1 = []
  level : ∀ w ∈ p.will, w.qos ≠ 2
  keepAlive : p.keepAlive = 0 ∨ host.charSigned ∧ p.keepAlive = 0xFFFF

theorem slots_length : p.slots.length = p.texts.length := by
  unfold slots texts NmqttMessage.connectSlots
  cases p.will <;> cases p.username <;> cases p.password <;> rfl

theorem slots_apart : p.slots.Pairwise Slot.Apart := NmqttMessage.connectSlots_apart _

/-- The slots hold the strings of the packet. -/
theorem slots_view_iff (m : NmqttMessage) :
    p.slots.map (fun slot => slot.view m) = (p.texts.map fun text => text.1) ↔
      m.clientId = p.clientId.1 ∧
        (∀ w ∈ p.will, m.willTopic = w.topic.1 ∧ m.will = w.message.1) ∧
        (∀ u ∈ p.username, m.username = u.1) ∧ ∀ u ∈ p.password, m.password = u.1 := by
  unfold slots texts NmqttMessage.connectSlots
  cases p.will <;> cases p.username <;> cases p.password
  all_goals
    simp [NmqttMessage.clientIdSlot, NmqttMessage.willTopicSlot, NmqttMessage.willSlot,
      NmqttMessage.usernameSlot, NmqttMessage.passwordSlot, and_assoc]

/-- What the variable header writes, no string of the payload does. -/
def headerFields (m : NmqttMessage) :
    Bool × (Bool × Bool × Bool) × Bool × Byte × BitVec 16 :=
  (m.cleanSessionFlag, m.announced, m.willRetainFlag, m.willQoS, m.keepAlive)

theorem headerFields_kept (b : Buffer) (idx : Nat) : Keeps headerFields (b.readSlots p.slots idx) := by
  apply b.readSlots_keeps
  intro slot member text m
  have known := (NmqttMessage.connectSlots_sublist _).subset member
  simp only [NmqttMessage.allSlots, List.mem_cons, List.not_mem_nil, or_false] at known
  rcases known with rfl | rfl | rfl | rfl | rfl
  all_goals rfl

/-- The first byte widens to both only where it is zero, or its sign fills all of them. -/
theorem keepAlive_iff (host : Host) (keepAlive : BitVec 16) :
    host.widenChar 16 (keepAlive.extractLsb' 8 8) = keepAlive ↔
      keepAlive = 0 ∨ host.charSigned ∧ keepAlive = 0xFFFF := by
  have value := keepAlive.isLt
  have zero : (0 : BitVec 16).toNat = 0 := rfl
  have top : (0xFFFF : BitVec 16).toNat = 65535 := rfl
  have first : (keepAlive.extractLsb' 8 8).toNat = keepAlive.toNat / 256 := by
    rw [BitVec.extractLsb'_toNat, Nat.shiftRight_eq_div_pow]
    exact Nat.mod_eq_of_lt (Nat.div_lt_of_lt_mul value)
  have small : keepAlive.toNat / 256 < 256 := Nat.div_lt_of_lt_mul value
  have word : keepAlive.toNat / 256 % 2 ^ 16 = keepAlive.toNat / 256 :=
    Nat.mod_eq_of_lt (small.trans (by decide))
  unfold Host.widenChar
  rw [← BitVec.toNat_inj, ← BitVec.toNat_inj, ← BitVec.toNat_inj]
  cases host.charSigned with
  | false =>
    simp only [Bool.false_eq_true, if_false, BitVec.toNat_setWidth, first, word, false_and,
      or_false]
    omega
  | true =>
    simp only [if_true, BitVec.toNat_signExtend, BitVec.toNat_setWidth, BitVec.msb_eq_decide, first,
      word, true_and, decide_eq_true_eq]
    split <;> omega

theorem willQoS_iff : p.receivedWillQoS = p.willQoS ↔ ∀ w ∈ p.will, w.qos ≠ 2 := by
  unfold receivedWillQoS willQoS
  cases p.will with
  | none => exact iff_of_true rfl nofun
  | some w =>
    simp only [Option.mem_def, Option.some.injEq, forall_eq']
    by_cases two : w.qos = 2
    · rw [if_pos two, two]
      exact iff_of_false (by decide) (fun other => other rfl)
    · rw [if_neg two]
      exact iff_of_true rfl two

theorem recovered_short_iff (short : p.body.length ≤ 127) (host : Host) (beyond : Nat → Byte)
    (m : NmqttMessage) :
    p.Recovered (NmqttMessage.parseMessage ⟨host, p.bytes, beyond⟩ m) ↔ p.Decodable host := by
  obtain ⟨exit, good, message⟩ := p.parseMessage_run short host beyond m
  generalize ({ m with parseGood := false } : NmqttMessage).withFixedHeader host p.bytes = s
    at exit message
  have here : p.bytes.drop 12 = stringFields p.texts := by
    rw [p.bytes_front short]
    rfl
  have small : ∀ text ∈ p.texts, text.1.length < 256 := by
    intro text member
    have bound := stringFields_length_ge text member
    have length := p.body_length
    omega
  have recover := Buffer.readSlots_recover_iff ⟨host, p.bytes, beyond⟩
    p.slots_apart p.slots_length small here (p.withHeader host s)
  have kept := p.headerFields_kept ⟨host, p.bytes, beyond⟩ 12 (p.withHeader host s)
  obtain ⟨-, flagged, clean, retain, qos⟩ := p.flags_decoded s
  dsimp only at recover
  rw [← exit, p.slots_view_iff] at recover
  change _ = (_, _, _, _, host.widenChar 16 (p.keepAlive.extractLsb' 8 8)) at kept
  generalize Buffer.readSlots ⟨host, p.bytes, beyond⟩ p.slots 12 (p.withHeader host s) = o
    at message recover kept
  simp only [headerFields, Prod.mk.injEq] at kept
  obtain ⟨cleanSession, announced, willRetain, willQoS, keepAlive⟩ := kept
  constructor
  · intro r
    obtain ⟨accepted, -, -, -, qos, alive, id, will, username, password⟩ := r
    rw [message] at qos alive id will username password
    refine ⟨recover.mp ⟨accepted, id, will, username, password⟩, ?_, ?_⟩
    · rw [← p.willQoS_iff, ← p.flags_decoded s |>.2.2.2.2]
      exact willQoS.symm.trans qos
    · rw [← keepAlive_iff]
      exact keepAlive.symm.trans alive
  · intro decodable
    obtain ⟨accepted, id, will, username, password⟩ := recover.mpr decodable.empty
    have level := p.willQoS_iff.mpr decodable.level
    have alive := (keepAlive_iff host p.keepAlive).mpr decodable.keepAlive
    exact {
      accepted := accepted
      cleanSession := by rw [message]; exact cleanSession.trans clean
      flagged := by rw [message]; exact announced.trans flagged
      willRetain := by rw [message]; exact willRetain.trans retain
      willQoS := by rw [message]; exact (willQoS.trans qos).trans level
      keepAlive := by rw [message]; exact keepAlive.trans alive
      clientId := by rw [message]; exact id
      will := by rw [message]; exact will
      username := by rw [message]; exact username
      password := by rw [message]; exact password }

/-- A packet with empty strings is short. -/
theorem Decodable.short {host : Host} (decodable : p.Decodable host) : p.body.length ≤ 127 := by
  have count := p.texts_length
  rw [p.body_length, stringFields_length_empty decodable.empty]
  omega

/-- A CONNECT comes back as it was put together exactly where nothing of it can be lost. -/
theorem connect_decoded_iff (host : Host) (beyond : Nat → Byte) (m : NmqttMessage) :
    p.Recovered (NmqttMessage.parseMessage ⟨host, p.bytes, beyond⟩ m) ↔ p.Decodable host := by
  by_cases short : p.body.length ≤ 127
  · exact p.recovered_short_iff short host beyond m
  · refine iff_of_false (fun recovered => ?_) (fun decodable => short decodable.short)
    have missized : ¬Verdict.WellSized host p.bytes := mt (p.packet.encode_sized_iff host).mp short
    have exit := (NmqttMessage.parseMessage_outcome ⟨host, p.bytes, beyond⟩ m).1
    rw [recovered.accepted, Verdict.of, if_neg missized] at exit
    exact absurd exit (by decide)

/-- A client identifier of one byte, and a minute of keep-alive. -/
def shortClient : ConnectPacket where
  cleanSession := true
  keepAlive := 60
  clientId := ⟨[0x63], by decide⟩
  will := none
  username := none
  password := none

/-- Neither comes back. -/
theorem shortClient_lost :
    let c := NmqttMessage.parseMessage ⟨⟨.le, true⟩, shortClient.bytes, fun _ => 0⟩ (.new default)
    shortClient.bytes = [0x10, 0x0D, 0x00, 0x04, 0x4D, 0x51, 0x54, 0x54, 0x04, 0x02, 0x00, 0x3C,
        0x00, 0x01, 0x63] ∧
      c.exit = .returned 1 ∧ c.message.clientId = [] ∧ c.message.keepAlive = 0 ∧
      ¬shortClient.Recovered c := by
  have bytes : shortClient.bytes = [0x10, 0x0D, 0x00, 0x04, 0x4D, 0x51, 0x54, 0x54, 0x04, 0x02,
      0x00, 0x3C, 0x00, 0x01, 0x63] :=
    shortClient.bytes_short (by decide)
  rw [bytes]
  refine ⟨rfl, by decide, by decide, by decide, fun recovered => ?_⟩
  exact absurd recovered.clientId (by decide)

end ConnectPacket
end NymphMqtt
