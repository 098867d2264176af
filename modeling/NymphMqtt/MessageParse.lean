import NymphMqtt.Message
import NymphMqtt.Library.LoggedReader

/-! `NmqttMessage::parseMessage` and `NmqttMessage::parseHeader`. -/

namespace NymphMqtt
open NymphMqtt.Library.LoggedReader

/-- The string handed to the parser, on its host: the bytes, and the memory that
follows their terminator. -/
structure Buffer where
  host : Host
  bytes : List Byte
  beyond : Nat → Byte

/-! The bytes of the buffer that a header is decoded from. -/

abbrev byte0 (buff : Vector Byte 5) : Byte := buff[0]

abbrev byte1 (buff : Vector Byte 5) : Byte := buff[1]

abbrev byte2 (buff : Vector Byte 5) : Byte := buff[2]

abbrev byte3 (buff : Vector Byte 5) : Byte := buff[3]

abbrev byte4 (buff : Vector Byte 5) : Byte := buff[4]

/-- How a call of `parseMessage` ends: a return, or the `std::out_of_range` that
`substr` throws. -/
inductive ParseExit where
  | returned (code : Int)
  | outOfRange
  deriving DecidableEq, Repr

abbrev ParseM := Reader ParseExit NmqttMessage

namespace Buffer

def size (b : Buffer) : Nat := b.bytes.length

/-- `msg[i]`. The terminator is defined behaviour, what follows it is not. -/
def byteAt (b : Buffer) (i : Nat) : Byte :=
  b.bytes.getD i (if i = b.size then 0 else b.beyond (i - b.size - 1))

def charAt (b : Buffer) (i : Nat) : ParseM Byte := Reader.read [i] (b.byteAt i)

/-- `*((uint16_t*) &msg[i])`. -/
def load16 (b : Buffer) (i : Nat) : ParseM (BitVec 16) :=
  Reader.read [i, i + 1] (b.host.load16 (b.byteAt i) (b.byteAt (i + 1)))

def substr (b : Buffer) (pos len : Nat) : ParseM (List Byte) :=
  if pos ≤ b.size then pure ((b.bytes.drop pos).take len) else Reader.exit .outOfRange

/-- One string of the CONNECT payload, stored; the index after it. The length is taken
from the first byte of the prefix alone. -/
def readString (b : Buffer) (idx : Nat) (store : List Byte → NmqttMessage → NmqttMessage) :
    ParseM Nat := do
  let c ← b.charAt idx
  let len := (b.host.widenChar 16 c).toNat
  let idx := idx + 2
  let text ← b.substr idx len
  Reader.update (store text)
  pure (idx + len)

end Buffer

namespace NmqttMessage

def reject {α : Type} : ParseM α := Reader.exit (.returned (-1))

/-- `qosCnt`: how many of the two QoS bits are set. -/
def qosCnt (byte0 : Byte) : Nat := (byte0.getLsbD 2).toNat + (byte0.getLsbD 1).toNat

/-- The QoS after the three assignments of the fixed header; without a bit it stays. -/
def receivedQoS (byte0 : Byte) (old : MqttQoS) : MqttQoS :=
  let q := if byte0.getLsbD 2 then .atLeastOnce else old
  let q := if byte0.getLsbD 1 then .exactlyOnce else q
  if 1 < qosCnt byte0 then .atMostOnce else q

/-- The fixed header: the index after it and `qosCnt`. The remaining length comes from
the second byte alone, widened as a `char`. -/
def parseFixedHeader (b : Buffer) : ParseM (Nat × Nat) := do
  let byte0 ← b.charAt 0
  Reader.update fun m => { m with
    command := .ofByte0 byte0
    duplicateMessage := byte0.getLsbD 3
    qos := receivedQoS byte0 m.qos
    retainMessage := byte0.getLsbD 0 }
  let first ← b.charAt 1
  let packed := ByteBauble.readPackedInt (b.host.widenChar 32 first)
  Reader.update fun m => { m with messageLength := packed.2 }
  if (BitVec.ofNat 32 (packed.1 + 1) + packed.2).toNat ≠ b.size then reject
  pure (packed.1 + 1, qosCnt byte0)

def protMatch : List Byte := [0x00, 0x04, 0x4D, 0x51, 0x54, 0x54]

/-- The connect flags. In the will QoS the `&` binds last, so only bit 3 survives. -/
def withConnectFlags (m : NmqttMessage) (connflags : Byte) : NmqttMessage :=
  { m with
    usernameFlag := connflags.getLsbD 7
    passwordFlag := connflags.getLsbD 6
    willRetainFlag := connflags.getLsbD 5
    willQoS := ((((connflags >>> 4) &&& 1) <<< 1) + (connflags >>> 3)) &&& 1
    willFlag := connflags.getLsbD 2
    cleanSessionFlag := connflags.getLsbD 1 }

/-- The protocol level. For level 5 the source has `mqttVersion == MQTT_PROTOCOL_VERSION_5;`,
which compares and assigns nothing. -/
def checkProtocolLevel (protver : Byte) : ParseM Unit :=
  if protver = 4 then Reader.update fun m => { m with mqttVersion := .version4 }
  else if protver = 5 then pure ()
  else reject

/-- The variable header of CONNECT: the index of its payload. -/
def parseConnectHeader (b : Buffer) (idx : Nat) : ParseM Nat := do
  let protName ← b.substr idx 6
  if protName ≠ protMatch then reject
  let idx := idx + 6
  let protver ← b.charAt idx
  let idx := idx + 1
  checkProtocolLevel protver
  let connflags ← b.charAt idx
  let idx := idx + 1
  Reader.update fun m => m.withConnectFlags connflags
  if connflags.getLsbD 0 then reject
  let alive ← b.charAt idx
  Reader.update fun m => { m with keepAlive := b.host.widenChar 16 alive }
  pure (idx + 2)

def parseWill (b : Buffer) (idx : Nat) : ParseM Nat := do
  let m ← Reader.get
  if m.willFlag then
    let idx ← b.readString idx fun topic m => { m with willTopic := topic }
    b.readString idx fun will m => { m with will := will }
  else pure idx

def parseUsername (b : Buffer) (idx : Nat) : ParseM Nat := do
  let m ← Reader.get
  if m.usernameFlag then b.readString idx fun username m => { m with username := username }
  else pure idx

def parsePassword (b : Buffer) (idx : Nat) : ParseM Nat := do
  let m ← Reader.get
  if m.passwordFlag then b.readString idx fun password m => { m with password := password }
  else pure idx

def parseConnectPayload (b : Buffer) (idx : Nat) : ParseM Nat := do
  let idx ← b.readString idx fun clientId m => { m with clientId := clientId }
  let idx ← parseWill b idx
  let idx ← parseUsername b idx
  parsePassword b idx

def parseConnect (b : Buffer) (idx : Nat) : ParseM Unit := do
  let idx ← parseConnectHeader b idx
  let _ ← parseConnectPayload b idx

def parseConnack (b : Buffer) (idx : Nat) : ParseM Unit := do
  let flags ← b.charAt idx
  Reader.update fun m => { m with sessionPresent := decide (flags ≠ 0) }
  let code ← b.charAt (idx + 1)
  Reader.update fun m => { m with reasonCode := b.host.widenChar 32 code }

/-- The topic of a PUBLISH, and the index after it. -/
def parseTopic (b : Buffer) (idx : Nat) : ParseM Nat := do
  let lenBE ← b.load16 idx
  let strlen := ((ByteBauble.new b.host).toHost16 lenBE .be).toNat
  let idx := idx + 2
  let topic ← b.substr idx strlen
  Reader.update fun m => { m with topic := topic }
  pure (idx + strlen)

def parsePacketID (b : Buffer) (idx qosCnt : Nat) : ParseM Nat := do
  if 0 < qosCnt then
    let pIDBE ← b.load16 idx
    Reader.update fun m => { m with packetID := (ByteBauble.new b.host).toHost16 pIDBE .be }
    pure (idx + 2)
  else pure idx

/-- A property length other than zero is only reported. -/
def parseProperties (b : Buffer) (idx : Nat) : ParseM Nat := do
  let m ← Reader.get
  if m.mqttVersion = .version5 then
    let _ ← b.charAt idx
    pure (idx + 1)
  else pure idx

/-- The payload is taken unless exactly one byte is left. -/
def parsePayload (b : Buffer) (idx : Nat) : ParseM Unit := do
  if idx + 1 ≠ b.size then
    let payload ← b.substr idx b.size
    Reader.update fun m => { m with payload := payload }

def parsePublish (b : Buffer) (idx qosCnt : Nat) : ParseM Unit := do
  let idx ← parseTopic b idx
  let idx ← parsePacketID b idx qosCnt
  let idx ← parseProperties b idx
  parsePayload b idx

/-- The switch on the packet type. The other types have empty branches. -/
def parseVariable (b : Buffer) (idx qosCnt : Nat) : ParseM Unit := do
  let m ← Reader.get
  match m.command with
  | .connect => parseConnect b idx
  | .connack => parseConnack b idx
  | .publish => parsePublish b idx qosCnt
  | _ => pure ()

def parseBody (b : Buffer) : ParseM Unit := do
  Reader.update fun m => { m with parseGood := false }
  if b.size < 2 then reject
  let (idx, qosCnt) ← parseFixedHeader b
  parseVariable b idx qosCnt
  Reader.update fun m => { m with parseGood := true }

/-- A finished call: how it ended, the message after it, the positions of `msg` it read. -/
structure ParseCall where
  exit : ParseExit
  message : NmqttMessage
  reads : List Nat
  deriving DecidableEq, Repr

def parseMessage (b : Buffer) (m : NmqttMessage) : ParseCall :=
  let o := parseBody b m
  { exit := match o.result with
      | .ok _ => .returned 1
      | .error e => e
    message := o.state
    reads := o.reads }

/-! ### The header decoder of the receive loops -/

/-- The return code of `parseHeader` and its two reference arguments after the call. -/
structure HeaderParse where
  code : Int
  msglen : BitVec 32
  idx : Nat
  deriving DecidableEq, Repr

/-- `(c >> 7) & 1UL`: another length byte follows. -/
def continues (c : Byte) : Bool := c.getLsbD 7

def decodeHeader (host : Host) (buff : Vector Byte 5) : HeaderParse :=
  let packed := ByteBauble.readPackedInt (host.load32 buff[1] buff[2] buff[3] buff[4])
  ⟨1, packed.2, packed.1 + 1⟩

def parseHeader (host : Host) (buff : Vector Byte 5) (len : Nat) (msglen : BitVec 32)
    (idx : Nat) : HeaderParse :=
  if len < 2 then ⟨-1, msglen, idx⟩
  else if continues buff[1] then
    if len < 3 then ⟨0, msglen, 2⟩
    else if continues buff[2] then
      if len < 4 then ⟨0, msglen, 3⟩
      else if continues buff[3] then
        if len < 5 then ⟨0, msglen, 4⟩
        else if continues buff[4] then ⟨-1, msglen, 5⟩
        else decodeHeader host buff
      else decodeHeader host buff
    else decodeHeader host buff
  else decodeHeader host buff

end NmqttMessage

end NymphMqtt
