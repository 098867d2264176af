import NymphMqtt.ByteBauble

/-! The state of an `NmqttMessage`, its constructors and its setters. Members without an
initialiser start with whatever the memory of the object held, so every constructor
takes that memory as an argument. -/

namespace NymphMqtt

inductive MqttProtocolVersion where
  | version4
  | version5
  deriving DecidableEq, Inhabited, Repr

/-- The high nibble of the first byte. `reserved` is the value 0, which the cast from
a received byte can produce although no enumerator names it. -/
inductive MqttPacketType where
  | reserved
  | connect
  | connack
  | publish
  | puback
  | pubrec
  | pubrel
  | pubcomp
  | subscribe
  | suback
  | unsubscribe
  | unsuback
  | pingreq
  | pingresp
  | disconnect
  | auth
  deriving DecidableEq, Inhabited, Repr

def MqttPacketType.code : MqttPacketType → Byte
  | .reserved => 0x00
  | .connect => 0x10
  | .connack => 0x20
  | .publish => 0x30
  | .puback => 0x40
  | .pubrec => 0x50
  | .pubrel => 0x60
  | .pubcomp => 0x70
  | .subscribe => 0x80
  | .suback => 0x90
  | .unsubscribe => 0xA0
  | .unsuback => 0xB0
  | .pingreq => 0xC0
  | .pingresp => 0xD0
  | .disconnect => 0xE0
  | .auth => 0xF0

/-- `(MqttPacketType) (byte0 & 0xF0)`. -/
def MqttPacketType.ofByte0 (byte0 : Byte) : MqttPacketType :=
  match (byte0 >>> 4).toNat with
  | 1 => .connect
  | 2 => .connack
  | 3 => .publish
  | 4 => .puback
  | 5 => .pubrec
  | 6 => .pubrel
  | 7 => .pubcomp
  | 8 => .subscribe
  | 9 => .suback
  | 10 => .unsubscribe
  | 11 => .unsuback
  | 12 => .pingreq
  | 13 => .pingresp
  | 14 => .disconnect
  | 15 => .auth
  | _ => .reserved

theorem MqttPacketType.code_ofByte0 (byte0 : Byte) :
    (MqttPacketType.ofByte0 byte0).code = byte0 &&& 0xF0#8 := by
  revert byte0; decide

inductive MqttQoS where
  | atMostOnce
  | atLeastOnce
  | exactlyOnce
  deriving DecidableEq, Inhabited, Repr

/-- Reason codes are cast from a received `char`, so every widened byte occurs. -/
abbrev MqttReasonCodes := BitVec 32

def MqttReasonCodes.success : MqttReasonCodes := 0

structure NmqttMessage where
  mqttVersion : MqttProtocolVersion
  command : MqttPacketType
  duplicateMessage : Bool
  qos : MqttQoS
  retainMessage : Bool
  packetID : BitVec 16
  messageLength : BitVec 32
  topic : List Byte
  sessionPresent : Bool
  reasonCode : MqttReasonCodes
  cleanSessionFlag : Bool
  willFlag : Bool
  willRetainFlag : Bool
  usernameFlag : Bool
  passwordFlag : Bool
  willQoS : Byte
  willQoS1 : Bool
  willQoS2 : Bool
  will : List Byte
  willTopic : List Byte
  clientId : List Byte
  username : List Byte
  password : List Byte
  keepAlive : BitVec 16
  parseGood : Bool
  payload : List Byte
  deriving DecidableEq, Inhabited, Repr

namespace NmqttMessage

/-- The default constructor, over the memory the object is built in. -/
def new (memory : NmqttMessage) : NmqttMessage :=
  { memory with
    mqttVersion := .version4
    duplicateMessage := false
    qos := .atMostOnce
    retainMessage := false
    topic := []
    will := []
    willTopic := []
    clientId := []
    username := []
    password := []
    parseGood := false
    payload := [] }

def setCredentials (m : NmqttMessage) (user pass : List Byte) : NmqttMessage :=
  { m with username := user, password := pass, usernameFlag := true, passwordFlag := true }

/-- Only the two lowest levels turn a will QoS bit on, and nothing here turns one off. -/
def setWill (m : NmqttMessage) (topic will : List Byte) (qos : Byte) (retain : Bool) :
    NmqttMessage :=
  { m with
    will := will
    willTopic := topic
    willRetainFlag := retain
    willQoS := qos
    willFlag := true
    willQoS1 := if qos = 1 then true else m.willQoS1
    willQoS2 := if qos = 2 then true else m.willQoS2 }

/-- The returned Boolean, and the message after the call. -/
def createMessage (m : NmqttMessage) (type : MqttPacketType) : Bool × NmqttMessage :=
  if type = .auth ∧ m.mqttVersion = .version4 then (false, m)
  else
    let m := if type = .connect then
      { m with
        cleanSessionFlag := true
        willFlag := false
        willRetainFlag := false
        usernameFlag := false
        passwordFlag := false
        willQoS1 := false
        willQoS2 := false }
      else m
    (true, { m with command := type })

/-- The constructor from a packet type. -/
def ofType (memory : NmqttMessage) (type : MqttPacketType) : NmqttMessage :=
  let (created, m) := (new memory).createMessage type
  if created then m else { m with parseGood := false }

def setProtocolVersion (m : NmqttMessage) (version : MqttProtocolVersion) : NmqttMessage :=
  { m with mqttVersion := version }

def setClientId (m : NmqttMessage) (id : List Byte) : NmqttMessage := { m with clientId := id }

def setDuplicateMessage (m : NmqttMessage) (dup : Bool) : NmqttMessage :=
  { m with duplicateMessage := dup }

def setQoS (m : NmqttMessage) (q : MqttQoS) : NmqttMessage := { m with qos := q }

def setRetain (m : NmqttMessage) (retain : Bool) : NmqttMessage := { m with retainMessage := retain }

def setTopic (m : NmqttMessage) (topic : List Byte) : NmqttMessage := { m with topic := topic }

def setPayload (m : NmqttMessage) (payload : List Byte) : NmqttMessage := { m with payload := payload }

def valid (m : NmqttMessage) : Bool := m.parseGood

end NmqttMessage

end NymphMqtt
