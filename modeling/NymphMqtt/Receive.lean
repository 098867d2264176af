import NymphMqtt.MessageParseOutcome

/-! The receive loop that `NmqttSession::run` and `NmqttClientListener::run` share. A turn
is one pass of the loop whose `poll` reported data or a disconnect; `stop()` may end the
loop between any two turns. -/

namespace NymphMqtt
open NymphMqtt.Library

/-! ### The socket -/

/-- The peer's bytes that are still unread, with a disconnect behind them, and how much
each coming call of `receiveBytes` hands out at most. -/
structure StreamSocket where
  incoming : List Byte
  offers : List Nat
  deriving DecidableEq, Repr

namespace StreamSocket

/-- How many bytes the next call asks the stream for: between 1 and the request. -/
def grant (offers : List Nat) (length : Nat) : Nat := min length (max 1 (offers.headD length))

def receiveBytes (s : StreamSocket) (length : Nat) : List Byte × StreamSocket :=
  (s.incoming.take (grant s.offers length),
    ⟨s.incoming.drop (grant s.offers length), s.offers.tail⟩)

end StreamSocket

/-! ### One turn -/

/-- What the process memory happens to hold when a frame is handled: under the fresh
message object, and behind the string that is parsed. -/
structure Heap where
  object : NmqttMessage
  beyond : Nat → Byte

/-- A request given to `Dispatcher::addRequest`, and what the two parser calls on its
packet had returned. -/
structure Handed where
  header : Int
  parse : Int
  message : NmqttMessage
  deriving DecidableEq, Repr

/-- `spinning`: the inner loop calls `parseHeader` with the same arguments forever.
`threw`: an exception left `run()`. -/
inductive Listening where
  | listening
  | disconnected
  | spinning
  | threw
  deriving DecidableEq, Repr

/-- The locals of `run()`, with every string passed to `parseMessage` and every request
handed over so far. -/
structure Receiver where
  headerBuff : Vector Byte 5
  socket : StreamSocket
  passed : List (List Byte)
  handed : List Handed
  status : Listening
  deriving DecidableEq, Repr

namespace Receiver

/-- The loop that waits for the rest of a packet; it ends on a disconnect as well. Each
call that does not end it takes at least one byte, so `unread` bounds the calls. -/
def readRest : (calls : Nat) → StreamSocket → (unread : Nat) → List Byte × StreamSocket
  | 0, socket, _ => ([], socket)
  | calls + 1, socket, unread =>
      let (buff1, socket) := socket.receiveBytes unread
      if buff1.length = 0 then ([], socket)
      else if buff1.length ≠ unread then
        let (rest, socket) := readRest calls socket (unread - buff1.length)
        (buff1 ++ rest, socket)
      else (buff1, socket)

def readBody (socket : StreamSocket) (msglen : Nat) : List Byte × StreamSocket :=
  if 0 < msglen then
    let (buff, socket) := socket.receiveBytes msglen
    if buff.length ≠ msglen then
      let unread := msglen - buff.length
      let (rest, socket) := readRest unread socket unread
      (buff ++ rest, socket)
    else (buff, socket)
  else ([], socket)

theorem at0 : 0 < 5 := by decide

theorem at1 : 1 < 5 := by decide

/-- Only the two bytes at the front of the buffer are ever written. -/
def withHeader (headerBuff : Vector Byte 5) : List Byte → Vector Byte 5
  | b0 :: b1 :: _ => (headerBuff.set 0 b0 at0).set 1 b1 at1
  | [b0] => headerBuff.set 0 b0 at0
  | [] => headerBuff

section Turn
variable (host : Host) (heap : Nat → Heap)

/-- From the string on: parse it, and queue a request whatever the parser returned. -/
def dispatch (r : Receiver) (header : Int) (binMsg : List Byte) : Receiver :=
  let here := heap r.passed.length
  let call := NmqttMessage.parseMessage ⟨host, binMsg, here.beyond⟩ (NmqttMessage.new here.object)
  let r := { r with passed := r.passed ++ [binMsg] }
  match call.exit with
  | .outOfRange => { r with status := .threw }
  | .returned parse => { r with handed := r.handed ++ [⟨header, parse, call.message⟩] }

def receiveMessage (r : Receiver) : Receiver :=
  let header := NmqttMessage.parseHeader host r.headerBuff 5 0 0
  if header.code = 0 then { r with status := .spinning }
  else
    let (body, socket) := readBody r.socket header.msglen.toNat
    dispatch host heap { r with socket := socket } header.code
      (r.headerBuff.toList.take header.idx ++ body)

def turn (r : Receiver) : Receiver :=
  let (received, socket) := r.socket.receiveBytes 2
  let r := { r with socket := socket, headerBuff := withHeader r.headerBuff received }
  if received.length = 0 then { r with status := .disconnected }
  else if received.length < 2 then r
  else receiveMessage host heap r

def run : (turns : Nat) → Receiver → Receiver
  | 0, r => r
  | turns + 1, r => if r.status = .listening then run turns (turn host heap r) else r

end Turn

/-! ### Reading a body -/

theorem StreamSocket.grant_bounds (offers : List Nat) {length : Nat} (some : 0 < length) :
    0 < StreamSocket.grant offers length ∧ StreamSocket.grant offers length ≤ length := by
  unfold StreamSocket.grant
  omega

/-- The offers that are left when `length` bytes have been received. -/
def StreamSocket.offersAfter : List Nat → (length : Nat) → List Nat
  | [], _ => []
  | offer :: offers, length =>
      if length = 0 then offer :: offers
      else StreamSocket.offersAfter offers (length - max 1 offer)

theorem StreamSocket.offersAfter_zero (offers : List Nat) :
    StreamSocket.offersAfter offers 0 = offers := by
  cases offers <;> rfl

theorem StreamSocket.offersAfter_grant (offers : List Nat) {length : Nat} (some : 0 < length) :
    StreamSocket.offersAfter offers length =
      StreamSocket.offersAfter offers.tail (length - StreamSocket.grant offers length) := by
  cases offers with
  | nil => rfl
  | cons offer offers =>
    rw [StreamSocket.offersAfter, if_neg (by omega), StreamSocket.grant, List.headD_cons,
      List.tail_cons]
    congr 1
    omega

/-- A result that took `length` bytes off the socket, or all there were. -/
def Collects (socket : StreamSocket) (length : Nat) (result : List Byte × StreamSocket) : Prop :=
  result.1 = socket.incoming.take length ∧ result.2.incoming = socket.incoming.drop length ∧
    (length ≤ socket.incoming.length →
      result.2.offers = StreamSocket.offersAfter socket.offers length)

namespace Collects
variable {socket : StreamSocket} {length : Nat} (some : 0 < length)
include some

/-- One call that got everything. -/
theorem once (full : (socket.receiveBytes length).1.length = length) :
    Collects socket length (socket.receiveBytes length) := by
  obtain ⟨positive, within⟩ := StreamSocket.grant_bounds socket.offers some
  have after := StreamSocket.offersAfter_grant socket.offers some
  simp only [StreamSocket.receiveBytes, List.length_take] at full
  have all : StreamSocket.grant socket.offers length = length := by omega
  rw [all, Nat.sub_self, StreamSocket.offersAfter_zero] at after
  simp only [Collects, StreamSocket.receiveBytes, all, after, true_and, implies_true]

/-- One call, and something that collects what it left open. -/
theorem more {rest : List Byte × StreamSocket}
    (later : Collects (socket.receiveBytes length).2
      (length - (socket.receiveBytes length).1.length) rest) :
    Collects socket length ((socket.receiveBytes length).1 ++ rest.1, rest.2) := by
  obtain ⟨positive, within⟩ := StreamSocket.grant_bounds socket.offers some
  have after := StreamSocket.offersAfter_grant socket.offers some
  obtain ⟨bytes, left, offers⟩ := later
  unfold Collects
  simp only [StreamSocket.receiveBytes, List.length_take, List.drop_drop, List.length_drop]
    at bytes left offers ⊢
  generalize StreamSocket.grant socket.offers length = granted at *
  rw [bytes, left]
  rcases le_or_gt granted socket.incoming.length with inside | beyond
  · have whole : granted + (length - granted) = length := by omega
    rw [Nat.min_eq_left inside] at offers ⊢
    rw [← List.take_add, whole, after]
    exact ⟨rfl, rfl, fun _ => offers (by omega)⟩
  · rw [List.drop_eq_nil_of_le beyond.le, List.take_nil, List.append_nil,
      List.take_of_length_le beyond.le, List.take_of_length_le (by omega),
      List.drop_eq_nil_of_le (by omega), List.drop_eq_nil_of_le (by omega)]
    exact ⟨rfl, rfl, fun more => by omega⟩

end Collects

/-- However the stream is cut, the loop collects what was asked for, or all there is. -/
theorem readRest_collects (calls : Nat) (socket : StreamSocket) (unread : Nat) (some : 0 < unread)
    (enough : unread ≤ calls) : Collects socket unread (readRest calls socket unread) := by
  induction calls generalizing socket unread with
  | zero => omega
  | succ calls ih =>
    obtain ⟨positive, within⟩ := StreamSocket.grant_bounds socket.offers some
    simp only [readRest]
    by_cases closed : (socket.receiveBytes unread).1.length = 0
    · have none : socket.incoming = [] := List.length_eq_zero_iff.mp (by
        simp only [StreamSocket.receiveBytes, List.length_take] at closed
        omega)
      rw [if_pos closed]
      simp only [Collects, StreamSocket.receiveBytes, none, List.take_nil, List.drop_nil,
        List.length_nil, true_and]
      omega
    · rw [if_neg closed]
      by_cases full : (socket.receiveBytes unread).1.length = unread
      · rw [if_neg (not_not.mpr full)]
        exact Collects.once some full
      · have part : (socket.receiveBytes unread).1.length < unread := by
          simp only [StreamSocket.receiveBytes, List.length_take] at full ⊢
          omega
        rw [if_pos full]
        exact Collects.more some (ih _ _ (by omega) (by omega))

theorem readBody_collects (socket : StreamSocket) (msglen : Nat) :
    Collects socket msglen (readBody socket msglen) := by
  unfold readBody
  by_cases some : 0 < msglen
  · obtain ⟨positive, within⟩ := StreamSocket.grant_bounds socket.offers some
    rw [if_pos some]
    by_cases full : (socket.receiveBytes msglen).1.length = msglen
    · simp only [full, ne_eq, not_true_eq_false, if_false]
      exact Collects.once some full
    · have part : (socket.receiveBytes msglen).1.length < msglen := by
        simp only [StreamSocket.receiveBytes, List.length_take] at full ⊢
        omega
      simp only [full, ne_eq, not_false_eq_true, if_true]
      exact Collects.more some (readRest_collects _ _ _ (by omega) le_rfl)
  · have none : msglen = 0 := by omega
    rw [if_neg some, none]
    exact ⟨rfl, rfl, fun _ => (StreamSocket.offersAfter_zero _).symm⟩

/-! ### What a turn does -/

section Turns
variable (host : Host) (heap : Nat → Heap) (r : Receiver)

/-- With all five bytes claimed to be there, the header is never short of bytes. -/
theorem parseHeader_five (buff : Vector Byte 5) (msglen : BitVec 32) (idx : Nat) :
    NmqttMessage.parseHeader host buff 5 msglen idx =
      if NmqttMessage.continues (byte1 buff) ∧ NmqttMessage.continues (byte2 buff) ∧
          NmqttMessage.continues (byte3 buff) ∧ NmqttMessage.continues (byte4 buff) then
        ⟨-1, msglen, 5⟩
      else NmqttMessage.decodeHeader host buff := by
  unfold NmqttMessage.parseHeader
  cases NmqttMessage.continues buff[1] <;> cases NmqttMessage.continues buff[2] <;>
    cases NmqttMessage.continues buff[3] <;> cases NmqttMessage.continues buff[4] <;> rfl

theorem parseHeader_code (buff : Vector Byte 5) :
    (NmqttMessage.parseHeader host buff 5 0 0).code ≠ 0 := by
  rw [parseHeader_five]
  split
  · exact fun h => absurd (show (-1 : Int) = 0 from h) (by decide)
  · exact fun h => absurd (show (1 : Int) = 0 from h) (by decide)

/-- The frame that is passed on, and what becomes of the loop. -/
theorem dispatch_spec (header : Int) (binMsg : List Byte) :
    let after := dispatch host heap r header binMsg
    after.passed = r.passed ++ [binMsg] ∧ after.socket = r.socket ∧
      after.headerBuff = r.headerBuff ∧
      after.status =
        (if Verdict.of host .version4 binMsg = .overrun then .threw else r.status) := by
  have exit := (NmqttMessage.parseMessage_outcome ⟨host, binMsg, (heap r.passed.length).beyond⟩
    (NmqttMessage.new (heap r.passed.length).object)).1
  change _ = (Verdict.of host .version4 binMsg).exit at exit
  simp only [dispatch, exit]
  cases Verdict.of host .version4 binMsg <;> exact ⟨rfl, rfl, rfl, rfl⟩

/-- A request is queued for every frame the parser does not throw on. -/
theorem dispatch_handed (header : Int) (binMsg : List Byte) :
    ∃ message, (dispatch host heap r header binMsg).handed = r.handed ++
      match Verdict.of host .version4 binMsg with
      | .accept => [⟨header, 1, message⟩]
      | .reject => [⟨header, -1, message⟩]
      | .overrun => [] := by
  have exit := (NmqttMessage.parseMessage_outcome ⟨host, binMsg, (heap r.passed.length).beyond⟩
    (NmqttMessage.new (heap r.passed.length).object)).1
  change _ = (Verdict.of host .version4 binMsg).exit at exit
  refine ⟨(NmqttMessage.parseMessage ⟨host, binMsg, (heap r.passed.length).beyond⟩
    (NmqttMessage.new (heap r.passed.length).object)).message, ?_⟩
  simp only [dispatch, exit]
  cases Verdict.of host .version4 binMsg with
  | accept => rfl
  | reject => rfl
  | overrun => exact (List.append_nil _).symm

/-- A turn finds the stream closed, its two bytes cut, or both of them. -/
theorem header_cases (socket : StreamSocket) :
    socket.incoming = [] ∨
    (∃ b0 rest, socket.incoming = b0 :: rest ∧ (rest = [] ∨ socket.offers.headD 2 < 2)) ∨
    ∃ b0 b1 rest, socket.incoming = b0 :: b1 :: rest ∧ 2 ≤ socket.offers.headD 2 := by
  match bytes : socket.incoming with
  | [] => exact .inl rfl
  | [b0] => exact .inr (.inl ⟨b0, [], rfl, .inl rfl⟩)
  | b0 :: b1 :: rest =>
    by_cases whole : 2 ≤ socket.offers.headD 2
    · exact .inr (.inr ⟨b0, b1, rest, rfl, whole⟩)
    · exact .inr (.inl ⟨b0, b1 :: rest, rfl, .inr (by omega)⟩)

theorem run_left {r : Receiver} (left : r.status ≠ .listening) (turns : Nat) :
    run host heap turns r = r := by
  cases turns with
  | zero => rfl
  | succ turns => rw [run, if_neg left]

theorem run_succ {r : Receiver} (listening : r.status = .listening) (turns : Nat) :
    run host heap (turns + 1) r = run host heap turns (turn host heap r) := by
  rw [run, if_pos listening]

theorem receiveMessage_eq : receiveMessage host heap r =
    let header := NmqttMessage.parseHeader host r.headerBuff 5 0 0
    let body := readBody r.socket header.msglen.toNat
    dispatch host heap { r with socket := body.2 } header.code
      (r.headerBuff.toList.take header.idx ++ body.1) := by
  unfold receiveMessage
  simp only [if_neg (parseHeader_code host r.headerBuff)]

theorem turn_closed (none : r.socket.incoming = []) : turn host heap r =
    { r with socket := ⟨[], r.socket.offers.tail⟩, status := .disconnected } := by
  simp only [turn, StreamSocket.receiveBytes, none, List.take_nil, List.drop_nil, List.length_nil,
    if_true, withHeader]

/-- A call that returns one byte loses it: the buffer is written from its start again. -/
theorem turn_cut {b0 : Byte} {rest : List Byte} (bytes : r.socket.incoming = b0 :: rest)
    (cut : rest = [] ∨ r.socket.offers.headD 2 < 2) : turn host heap r =
    { r with socket := ⟨rest, r.socket.offers.tail⟩
             headerBuff := r.headerBuff.set 0 b0 at0 } := by
  obtain ⟨positive, within⟩ := StreamSocket.grant_bounds r.socket.offers (by decide : 0 < 2)
  have single : r.socket.incoming.take (StreamSocket.grant r.socket.offers 2) = [b0] ∧
      r.socket.incoming.drop (StreamSocket.grant r.socket.offers 2) = rest := by
    rw [bytes]
    rcases cut with rfl | small
    · exact ⟨List.take_of_length_le positive, List.drop_of_length_le positive⟩
    · have one : StreamSocket.grant r.socket.offers 2 = 1 := by
        unfold StreamSocket.grant
        omega
      rw [one]
      exact ⟨rfl, rfl⟩
  simp only [turn, StreamSocket.receiveBytes, single.1, single.2, List.length_cons, List.length_nil,
    Nat.zero_add, one_ne_zero, if_false, Nat.one_lt_ofNat, if_true, withHeader]

theorem turn_whole {b0 b1 : Byte} {rest : List Byte}
    (bytes : r.socket.incoming = b0 :: b1 :: rest) (whole : 2 ≤ r.socket.offers.headD 2) :
    turn host heap r = receiveMessage host heap
      { r with socket := ⟨rest, r.socket.offers.tail⟩
               headerBuff := (r.headerBuff.set 0 b0 at0).set 1 b1 at1 } := by
  have two : StreamSocket.grant r.socket.offers 2 = 2 := by
    unfold StreamSocket.grant
    omega
  simp only [turn, StreamSocket.receiveBytes, two, bytes, List.take_succ_cons, List.take_zero,
    List.drop_succ_cons, List.drop_zero, List.length_cons, List.length_nil, Nat.zero_add,
    Nat.reduceAdd, OfNat.ofNat_ne_zero, if_false, Nat.lt_irrefl, withHeader]

/-- The buffer once both header bytes are in it. -/
def buffered (b0 b1 : Byte) : Vector Byte 5 := (r.headerBuff.set 0 b0 at0).set 1 b1 at1

/-- What `parseHeader` makes of that buffer. -/
def nextHeader (b0 b1 : Byte) : NmqttMessage.HeaderParse :=
  NmqttMessage.parseHeader host (r.buffered b0 b1) 5 0 0

/-- What is passed to `parseMessage` when `rest` follows the header bytes. -/
def nextFrame (b0 b1 : Byte) (rest : List Byte) : List Byte :=
  (r.buffered b0 b1).toList.take (r.nextHeader host b0 b1).idx ++
    rest.take (r.nextHeader host b0 b1).msglen.toNat

section Whole
variable {b0 b1 : Byte} {rest : List Byte} (bytes : r.socket.incoming = b0 :: b1 :: rest)
  (whole : 2 ≤ r.socket.offers.headD 2)
include bytes whole

theorem turn_dispatch : turn host heap r = dispatch host heap
    { r with
      socket := (readBody ⟨rest, r.socket.offers.tail⟩ (r.nextHeader host b0 b1).msglen.toNat).2
      headerBuff := r.buffered b0 b1 } (r.nextHeader host b0 b1).code
    (r.nextFrame host b0 b1 rest) := by
  obtain ⟨body, -, -⟩ := readBody_collects ⟨rest, r.socket.offers.tail⟩
    (r.nextHeader host b0 b1).msglen.toNat
  rw [turn_whole host heap r bytes whole, receiveMessage_eq, nextFrame, ← body]
  rfl

theorem turn_frame :
    (turn host heap r).passed = r.passed ++ [r.nextFrame host b0 b1 rest] ∧
      (turn host heap r).headerBuff = r.buffered b0 b1 ∧
      (turn host heap r).socket =
        (readBody ⟨rest, r.socket.offers.tail⟩ (r.nextHeader host b0 b1).msglen.toNat).2 ∧
      (turn host heap r).status =
        if Verdict.of host .version4 (r.nextFrame host b0 b1 rest) = .overrun then .threw
        else r.status := by
  obtain ⟨passed, socket, buff, status⟩ := dispatch_spec host heap
    { r with
      socket := (readBody ⟨rest, r.socket.offers.tail⟩ (r.nextHeader host b0 b1).msglen.toNat).2
      headerBuff := r.buffered b0 b1 } (r.nextHeader host b0 b1).code
    (r.nextFrame host b0 b1 rest)
  rw [turn_dispatch host heap r bytes whole]
  exact ⟨passed, buff, socket, status⟩

/-- The request of this turn carries the return codes of the two parser calls. -/
theorem turn_handed : ∃ message, (turn host heap r).handed = r.handed ++
    match Verdict.of host .version4 (r.nextFrame host b0 b1 rest) with
    | .accept => [⟨(r.nextHeader host b0 b1).code, 1, message⟩]
    | .reject => [⟨(r.nextHeader host b0 b1).code, -1, message⟩]
    | .overrun => [] := by
  rw [turn_dispatch host heap r bytes whole]
  exact dispatch_handed host heap _ _ _

end Whole

end Turns

end Receiver

/-! ### The two loops -/

/-- The loop of a server session, from the start of its thread. -/
def NmqttSession.run (host : Host) (heap : Nat → Heap) (turns : Nat) (headerBuff : Vector Byte 5)
    (socket : StreamSocket) : Receiver :=
  Receiver.run host heap turns ⟨headerBuff, socket, [], [], .listening⟩

/-- The loop of a client connection, from the start of its thread. -/
def NmqttClientListener.run (host : Host) (heap : Nat → Heap) (turns : Nat)
    (headerBuff : Vector Byte 5) (socket : StreamSocket) : Receiver :=
  Receiver.run host heap turns ⟨headerBuff, socket, [], [], .listening⟩

end NymphMqtt
