import NymphMqtt.ConnectFlags

/-! What the setters of `NmqttClient` leave for `connect`, and the CONNECT message that it
builds from them. -/

namespace NymphMqtt

/-- The members that the setters write and `connect` reads. -/
structure ClientSettings where
  willFlag : Bool
  willRetainFlag : Bool
  usernameFlag : Bool
  passwordFlag : Bool
  willQoS : Byte
  will : List Byte
  willTopic : List Byte
  clientId : List Byte
  username : List Byte
  password : List Byte
  deriving DecidableEq, Repr

/-- Any byte may be passed for the QoS of a will. -/
inductive Setter where
  | setWill (topic will : List Byte) (qos : Byte) (retain : Bool)
  | setCredentials (user pass : List Byte)
  | setClientId (id : List Byte)
  deriving DecidableEq, Repr

namespace ClientSettings

/-- "NymphMQTT-client" -/
def defaultClientId : List Byte :=
  [0x4E, 0x79, 0x6D, 0x70, 0x68, 0x4D, 0x51, 0x54, 0x54, 0x2D, 0x63, 0x6C, 0x69, 0x65, 0x6E, 0x74]

def new : ClientSettings where
  willFlag := false
  willRetainFlag := false
  usernameFlag := false
  passwordFlag := false
  willQoS := 0
  will := []
  willTopic := []
  clientId := defaultClientId
  username := []
  password := []

def apply (s : ClientSettings) : Setter → ClientSettings
  | .setWill topic will qos retain =>
      { s with
        will := will
        willTopic := topic
        willRetainFlag := retain
        willQoS := qos
        willFlag := true }
  | .setCredentials user pass =>
      { s with
        username := user
        password := pass
        usernameFlag := true
        passwordFlag := true }
  | .setClientId id => { s with clientId := id }

def after (calls : List Setter) : ClientSettings := calls.foldl apply new

/-- The message that `connect` sends. -/
def connectMessage (s : ClientSettings) (memory : NmqttMessage) : NmqttMessage :=
  let msg := NmqttMessage.ofType memory .connect
  let msg := if s.willFlag then msg.setWill s.willTopic s.will s.willQoS s.willRetainFlag else msg
  let msg := if s.usernameFlag then msg.setCredentials s.username s.password else msg
  msg.setClientId s.clientId

end ClientSettings

/-! ### The last calls -/

/-- The arguments of `setWill`. -/
structure WillArgs where
  topic : List Byte
  will : List Byte
  qos : Byte
  retain : Bool

namespace Setter

def willArgs : Setter → Option WillArgs
  | .setWill topic will qos retain => some ⟨topic, will, qos, retain⟩
  | _ => none

def credentialArgs : Setter → Option (List Byte × List Byte)
  | .setCredentials user pass => some (user, pass)
  | _ => none

def clientIdArgs : Setter → Option (List Byte)
  | .setClientId id => some id
  | _ => none

/-- What the last of the calls that `select` picks was given. -/
def last {α : Type} (select : Setter → Option α) (calls : List Setter) : Option α :=
  (calls.filterMap select).getLast?

theorem last_append {α : Type} (select : Setter → Option α) (calls : List Setter) (call : Setter) :
    last select (calls ++ [call]) = (select call).or (last select calls) := by
  rw [last, List.filterMap_append, List.getLast?_append]
  cases taken : select call with
  | none => simp [taken, last]
  | some x => simp [taken]

end Setter

namespace ClientSettings
open Setter

/-- The members, from the last call of each setter. -/
def ofLast (will : Option WillArgs) (credentials : Option (List Byte × List Byte))
    (clientId : Option (List Byte)) : ClientSettings where
  willFlag := will.isSome
  willRetainFlag := will.elim false WillArgs.retain
  usernameFlag := credentials.isSome
  passwordFlag := credentials.isSome
  willQoS := will.elim 0 WillArgs.qos
  will := will.elim [] WillArgs.will
  willTopic := will.elim [] WillArgs.topic
  clientId := clientId.getD defaultClientId
  username := credentials.elim [] Prod.fst
  password := credentials.elim [] Prod.snd

theorem after_append (calls : List Setter) (call : Setter) :
    after (calls ++ [call]) = (after calls).apply call := by
  rw [after, List.foldl_append]
  rfl

/-- Only the last call of each setter matters. -/
theorem after_eq (calls : List Setter) :
    after calls = ofLast (last willArgs calls) (last credentialArgs calls) (last clientIdArgs calls) := by
  induction calls using List.reverseRecOn with
  | nil => rfl
  | append_singleton calls call ih =>
    rw [after_append, ih, last_append, last_append, last_append]
    cases call with
    | setWill topic will qos retain => rfl
    | setCredentials user pass => rfl
    | setClientId id => rfl

/-! ### The message -/

/-- The flags of a CONNECT with this will and these credentials. -/
structure Reflects (flags : Byte) (will : Option WillArgs)
    (credentials : Option (List Byte × List Byte)) : Prop where
  reserved : flags.getLsbD 0 = false
  cleanSession : flags.getLsbD 1 = true
  willFlag : flags.getLsbD 2 = will.isSome
  willQoS : willQoSField flags =
    will.elim 0 fun w => if w.qos.toNat ≤ 2 then w.qos.toNat else 0
  willRetain : flags.getLsbD 5 = will.elim false WillArgs.retain
  passwordFlag : flags.getLsbD 6 = credentials.isSome
  usernameFlag : flags.getLsbD 7 = credentials.isSome

/-- The texts of the payload, with the prefixes that `serialize` puts in front of them. -/
def payload (host : Host) (will : Option WillArgs) (credentials : Option (List Byte × List Byte))
    (clientId : List Byte) : List Byte :=
  NmqttMessage.lengthBytes host clientId ++ clientId ++
    (will.elim [] fun w => NmqttMessage.wideLengthBytes host w.topic ++ w.topic ++
      (NmqttMessage.wideLengthBytes host w.will ++ w.will)) ++
    (credentials.elim [] fun c =>
      NmqttMessage.wideLengthBytes host (will.elim [] WillArgs.topic) ++ c.1) ++
    (credentials.elim [] fun c => NmqttMessage.wideLengthBytes host c.2 ++ c.2)

section Message
variable (will : Option WillArgs) (credentials : Option (List Byte × List Byte))
  (clientId : Option (List Byte)) (memory : NmqttMessage) (host : Host)

theorem connectMessage_draft :
    let m := (ofLast will credentials clientId).connectMessage memory
    m.draft host =
      { b0 := 0x10
        varHeader := NmqttMessage.shortBytes host 4 ++ [0x4D, 0x51, 0x54, 0x54] ++ [0x04] ++
          [m.connectFlags] ++ NmqttMessage.shortBytes host 60 ++ []
        payload := payload host will credentials (clientId.getD defaultClientId) } := by
  cases will with
  | none =>
    cases credentials with
    | none => rfl
    | some c => rfl
  | some w =>
    cases credentials with
    | none => rfl
    | some c => rfl

/-- The two bits of the will QoS, from the byte that was passed. -/
theorem level_bits (qos : Byte) :
    (if qos = 1 then true else false).toNat + 2 * (if qos = 2 then true else false).toNat =
      if qos.toNat ≤ 2 then qos.toNat else 0 := by
  revert qos
  decide

theorem connectFlags_clean (clean will willQoS1 willQoS2 retain password username : Bool) :
    (NmqttMessage.flag clean 0x02 + NmqttMessage.flag will 0x04 + NmqttMessage.flag willQoS1 0x08 +
      NmqttMessage.flag willQoS2 0x10 + NmqttMessage.flag retain 0x20 +
      NmqttMessage.flag password 0x40 + NmqttMessage.flag username 0x80).getLsbD 1 = clean := by
  revert clean will willQoS1 willQoS2 retain password username
  decide

theorem connectFlags_reflects :
    Reflects ((ofLast will credentials clientId).connectMessage memory).connectFlags will
      credentials := by
  generalize at_ : (ofLast will credentials clientId).connectMessage memory = m
  obtain ⟨reserved, set, willQoS, retain, password, username⟩ := NmqttMessage.flags_bits
    m.cleanSessionFlag m.willFlag m.willQoS1 m.willQoS2 m.willRetainFlag m.passwordFlag m.usernameFlag
  have clean := connectFlags_clean m.cleanSessionFlag m.willFlag m.willQoS1 m.willQoS2
    m.willRetainFlag m.passwordFlag m.usernameFlag
  have members : m.cleanSessionFlag = true ∧ m.willFlag = will.isSome ∧
      m.willQoS1.toNat + 2 * m.willQoS2.toNat =
        (will.elim 0 fun w => if w.qos.toNat ≤ 2 then w.qos.toNat else 0) ∧
      m.willRetainFlag = will.elim false WillArgs.retain ∧
      m.passwordFlag = credentials.isSome ∧ m.usernameFlag = credentials.isSome := by
    subst at_
    cases will with
    | none => cases credentials <;> exact ⟨rfl, rfl, rfl, rfl, rfl, rfl⟩
    | some w => cases credentials <;> exact ⟨rfl, rfl, level_bits w.qos, rfl, rfl, rfl⟩
  obtain ⟨cleanSession, willFlag, level, willRetain, passwordFlag, usernameFlag⟩ := members
  exact {
    reserved := reserved
    cleanSession := clean.trans cleanSession
    willFlag := set.trans willFlag
    willQoS := willQoS.trans level
    willRetain := retain.trans willRetain
    passwordFlag := password.trans passwordFlag
    usernameFlag := username.trans usernameFlag }

theorem connectMessage_command :
    ((ofLast will credentials clientId).connectMessage memory).command = .connect := by
  cases will <;> cases credentials <;> rfl

theorem connectMessage_body :
    let m := (ofLast will credentials clientId).connectMessage memory
    m.body host = [0x00, 0x04, 0x4D, 0x51, 0x54, 0x54, 0x04] ++ [m.connectFlags] ++ [0x00, 0x3C] ++
      payload host will credentials (clientId.getD defaultClientId) := by
  have name : NmqttMessage.shortBytes host 4 = [0x00, 0x04] := by
    rw [NmqttMessage.shortBytes_eq]
    rfl
  have keepAlive : NmqttMessage.shortBytes host 60 = [0x00, 0x3C] := by
    rw [NmqttMessage.shortBytes_eq]
    rfl
  have draft := connectMessage_draft will credentials clientId memory host
  dsimp only at draft ⊢
  rw [NmqttMessage.body, draft, name, keepAlive]
  simp only [List.nil_append, List.cons_append]

end Message

/-- Whatever was set before, and in whatever order, a CONNECT announces the will and the
credentials that were set last, with flags that are legal, and carries their texts. -/
theorem connect_reflects_last (calls : List Setter) (memory : NmqttMessage) (host : Host) :
    let m := (after calls).connectMessage memory
    Reflects (m.emittedFlags host) (last willArgs calls) (last credentialArgs calls) ∧
      m.body host = [0x00, 0x04, 0x4D, 0x51, 0x54, 0x54, 0x04] ++ [m.emittedFlags host] ++
        [0x00, 0x3C] ++ payload host (last willArgs calls) (last credentialArgs calls)
          ((last clientIdArgs calls).getD defaultClientId) := by
  rw [after_eq]
  intro m
  rw [NmqttMessage.emittedFlags_eq host (connectMessage_command _ _ _ memory)]
  constructor
  · exact connectFlags_reflects _ _ _ memory
  · exact connectMessage_body _ _ _ memory host

end ClientSettings
end NymphMqtt
