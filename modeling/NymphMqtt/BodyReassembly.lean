import NymphMqtt.HeaderAgreement

/-! The part of the receive loops that reads the body of a packet, pass by pass of its
inner loop. -/

namespace NymphMqtt
open NymphMqtt.Library

/-! ### One call of `receiveBytes` -/

namespace StreamSocket
variable (socket : StreamSocket) (length : Nat)

/-- A call takes its result off the front of the stream. -/
theorem receiveBytes_takes :
    (socket.receiveBytes length).1 =
        socket.incoming.take (socket.receiveBytes length).1.length ∧
      (socket.receiveBytes length).2.incoming =
        socket.incoming.drop (socket.receiveBytes length).1.length ∧
      (socket.receiveBytes length).1.length ≤ length ∧
      (socket.receiveBytes length).1.length ≤ socket.incoming.length := by
  unfold receiveBytes grant
  dsimp only
  rw [List.length_take]
  refine ⟨?_, ?_, by omega, by omega⟩
  · rw [List.take_eq_take_iff]
    omega
  · rw [List.drop_eq_drop_iff]
    omega

/-- Nothing but the end of the stream makes a call return 0. -/
theorem receiveBytes_none (some : 0 < length) (none : (socket.receiveBytes length).1.length = 0) :
    socket.incoming = [] := by
  have positive := (Receiver.StreamSocket.grant_bounds socket.offers some).1
  unfold receiveBytes at none
  rw [List.length_take] at none
  exact List.length_eq_zero_iff.mp (by omega)

end StreamSocket

/-! ### The read code -/

/-- The locals while a body is read: `reading` while the loop that waits for the rest has
not been left, and in `received` what the calls in that loop have returned. -/
structure BodyRead where
  binMsg : List Byte
  socket : StreamSocket
  unread : Nat
  received : List Nat
  reading : Bool
  deriving DecidableEq, Repr

namespace BodyRead

/-- The first call, for the whole body. -/
def start (headerBuff : Vector Byte 5) (idx msglen : Nat) (socket : StreamSocket) : BodyRead :=
  let (buff, socket) := socket.receiveBytes msglen
  { binMsg := headerBuff.toList.take idx ++ buff
    socket := socket
    unread := msglen - buff.length
    received := []
    reading := decide (buff.length ≠ msglen) }

/-- One pass of the loop; without data to `poll` for, it only comes round again. -/
def pass (s : BodyRead) (ready : Bool) : BodyRead :=
  if s.reading ∧ ready then
    let (buff1, socket) := s.socket.receiveBytes s.unread
    let s := { s with socket := socket, received := s.received ++ [buff1.length] }
    if buff1.length = 0 then { s with reading := false }
    else if buff1.length ≠ s.unread then
      { s with binMsg := s.binMsg ++ buff1, unread := s.unread - buff1.length }
    else { s with binMsg := s.binMsg ++ buff1, reading := false }
  else s

def run (s : BodyRead) (polls : List Bool) : BodyRead := polls.foldl pass s

/-! ### What a pass does -/

theorem pass_idle (s : BodyRead) : s.pass false = s := if_neg fun h => Bool.false_ne_true h.2

theorem pass_left {s : BodyRead} (left : s.reading = false) (ready : Bool) : s.pass ready = s :=
  if_neg fun h => Bool.false_ne_true (left.symm.trans h.1)

/-- What a call in the loop returns. -/
def buff1 (s : BodyRead) : List Byte := (s.socket.receiveBytes s.unread).1

theorem buff1_takes (s : BodyRead) :
    s.buff1 = s.socket.incoming.take s.buff1.length ∧
      (s.socket.receiveBytes s.unread).2.incoming = s.socket.incoming.drop s.buff1.length ∧
      s.buff1.length ≤ s.unread ∧ s.buff1.length ≤ s.socket.incoming.length :=
  s.socket.receiveBytes_takes s.unread

theorem buff1_none {s : BodyRead} (some : 0 < s.unread) (none : s.buff1.length = 0) :
    s.socket.incoming = [] :=
  s.socket.receiveBytes_none s.unread some none

/-- All that a call in the loop does: it finds the end of the stream, or brings the rest, or
a part of it. -/
inductive Call (s : BodyRead) : BodyRead → Prop
  | ended : s.buff1.length = 0 → Call s { s with
      socket := (s.socket.receiveBytes s.unread).2
      received := s.received ++ [s.buff1.length]
      reading := false }
  | whole : s.buff1.length ≠ 0 → s.buff1.length = s.unread → Call s { s with
      binMsg := s.binMsg ++ s.buff1
      socket := (s.socket.receiveBytes s.unread).2
      received := s.received ++ [s.buff1.length]
      reading := false }
  | part : s.buff1.length ≠ 0 → s.buff1.length ≠ s.unread → Call s { s with
      binMsg := s.binMsg ++ s.buff1
      socket := (s.socket.receiveBytes s.unread).2
      unread := s.unread - s.buff1.length
      received := s.received ++ [s.buff1.length] }

theorem pass_call {s : BodyRead} (reading : s.reading = true) : s.Call (s.pass true) := by
  unfold pass
  rw [if_pos ⟨reading, rfl⟩]
  dsimp only
  by_cases none : (s.socket.receiveBytes s.unread).1.length = 0
  · rw [if_pos none]
    exact .ended none
  · rw [if_neg none]
    by_cases whole : (s.socket.receiveBytes s.unread).1.length = s.unread
    · rw [if_neg (not_not.mpr whole)]
      exact .whole none whole
    · rw [if_pos whole]
      exact .part none whole

/-- A pass leaves everything as it is, or makes a call. -/
theorem pass_cases (s : BodyRead) (ready : Bool) :
    s.pass ready = s ∨ s.reading = true ∧ ready = true ∧ s.Call (s.pass ready) := by
  cases ready with
  | false => exact .inl s.pass_idle
  | true =>
    cases reading : s.reading with
    | false => exact .inl (pass_left reading true)
    | true => exact .inr ⟨rfl, rfl, pass_call reading⟩

/-! ### What holds between two passes -/

section Invariant
variable (front : List Byte) (stream : StreamSocket) (msglen : Nat)

/-- At the head of the loop. Every call has brought a byte. -/
structure Underway (s : BodyRead) : Prop where
  bytes : s.binMsg = front ++ stream.incoming.take (msglen - s.unread)
  left : s.socket.incoming = stream.incoming.drop (msglen - s.unread)
  there : msglen - s.unread ≤ stream.incoming.length
  some : 0 < s.unread
  calls : s.received.length + s.unread ≤ msglen
  results : ∀ count ∈ s.received, 0 < count

/-- Behind the loop. Its last call alone may have found the end of the stream. -/
structure Finished (s : BodyRead) : Prop where
  bytes : s.binMsg = front ++ stream.incoming.take msglen
  left : s.socket.incoming = stream.incoming.drop msglen
  calls : s.received.length ≤ msglen
  results : (s.received.filter (· = 0)).length ≤ 1

def Invariant (s : BodyRead) : Prop :=
  if s.reading then Underway front stream msglen s else Finished front stream msglen s

variable {front stream msglen}

theorem Underway.total {s : BodyRead} (underway : Underway front stream msglen s) :
    s.binMsg.length + s.unread = front.length + msglen := by
  have calls := underway.calls
  rw [underway.bytes, List.length_append, List.length_take, Nat.min_eq_left underway.there]
  omega

theorem Underway.no_zero {s : BodyRead} (underway : Underway front stream msglen s) :
    s.received.filter (· = 0) = [] := by
  rw [List.filter_eq_nil_iff]
  intro count member
  have positive := underway.results count member
  simpa using positive.ne'

theorem start_invariant (headerBuff : Vector Byte 5) (idx : Nat) (some : 0 < msglen) :
    Invariant (headerBuff.toList.take idx) stream msglen (start headerBuff idx msglen stream) := by
  obtain ⟨bytes, left, within, there⟩ := stream.receiveBytes_takes msglen
  unfold Invariant start
  dsimp only
  by_cases whole : (stream.receiveBytes msglen).1.length = msglen
  · rw [whole] at bytes left
    rw [if_neg (by simp [whole])]
    exact ⟨congrArg _ bytes, left, Nat.zero_le _, Nat.zero_le _⟩
  · have missing : msglen - (msglen - (stream.receiveBytes msglen).1.length) =
        (stream.receiveBytes msglen).1.length := by omega
    rw [if_pos (decide_eq_true whole)]
    exact {
      bytes := by rw [missing, ← bytes]
      left := by rw [missing, ← left]
      there := by rw [missing]; exact there
      some := by dsimp only; omega
      calls := by dsimp only [List.length_nil]; omega
      results := nofun }

/-- A call keeps the head of the loop, or leads behind the loop. -/
theorem Underway.call {s t : BodyRead} (underway : Underway front stream msglen s)
    (reading : s.reading = true) (call : s.Call t) : Invariant front stream msglen t := by
  have noZero := underway.no_zero
  obtain ⟨bytes, left, there, some, calls, results⟩ := underway
  obtain ⟨taken, rest, within, available⟩ := s.buff1_takes
  have last : s.buff1.length = 0 → s.socket.incoming = [] := buff1_none some
  rw [left] at taken rest available last
  rw [List.drop_drop] at rest
  rw [List.length_drop] at available
  have appended : s.binMsg ++ s.buff1 =
      front ++ stream.incoming.take (msglen - s.unread + s.buff1.length) := by
    rw [bytes, List.append_assoc, List.take_add]
    exact congrArg (fun more => front ++ (_ ++ more)) taken
  have made : (s.received ++ [s.buff1.length]).length = s.received.length + 1 :=
    List.length_append
  have some_each : s.buff1.length ≠ 0 → ∀ count ∈ s.received ++ [s.buff1.length], 0 < count := by
    intro now count member
    rcases List.mem_append.mp member with before | new
    · exact results count before
    · rw [List.mem_singleton.mp new]
      exact Nat.pos_of_ne_zero now
  cases call with
  | ended none =>
    have past : stream.incoming.length ≤ msglen - s.unread := List.drop_eq_nil_iff.mp (last none)
    refine (if_neg Bool.false_ne_true).mpr ?_
    exact {
      bytes := by rw [bytes, List.take_of_length_le past, List.take_of_length_le (by omega)]
      left := by rw [rest, List.drop_of_length_le (by omega), List.drop_of_length_le (by omega)]
      calls := made.trans_le (by omega)
      results := by rw [List.filter_append, noZero, none]; decide }
  | whole now all =>
    have total : msglen - s.unread + s.buff1.length = msglen := by omega
    rw [total] at appended rest
    refine (if_neg Bool.false_ne_true).mpr ?_
    exact {
      bytes := appended
      left := rest
      calls := made.trans_le (by omega)
      results := by
        rw [List.filter_eq_nil_iff.mpr fun count member => by simpa using (some_each now count member).ne']
        decide }
  | part now more =>
    have moved : msglen - s.unread + s.buff1.length = msglen - (s.unread - s.buff1.length) := by omega
    rw [moved] at appended rest
    refine (if_pos reading).mpr ?_
    exact {
      bytes := appended
      left := rest
      there := by dsimp only; omega
      some := by dsimp only; omega
      calls := by dsimp only; omega
      results := some_each now }

theorem pass_invariant {s : BodyRead} (holds : Invariant front stream msglen s) (ready : Bool) :
    Invariant front stream msglen (s.pass ready) := by
  rcases s.pass_cases ready with idle | ⟨reading, -, call⟩
  · rwa [idle]
  · have underway : Underway front stream msglen s := (if_pos reading).mp holds
    exact underway.call reading call

theorem run_invariant {s : BodyRead} (holds : Invariant front stream msglen s) (polls : List Bool) :
    Invariant front stream msglen (s.run polls) := by
  induction polls generalizing s with
  | nil => exact holds
  | cons ready polls ih => exact ih (pass_invariant holds ready)

end Invariant

/-! ### The end of the loop -/

/-- A pass that stays in the loop has made one call if there was data. -/
theorem pass_received {s : BodyRead} {ready : Bool} (stays : (s.pass ready).reading = true) :
    (s.pass ready).received.length = s.received.length + ready.toNat := by
  cases ready with
  | false => rw [pass_idle]; rfl
  | true =>
    cases reading : s.reading with
    | false =>
      rw [pass_left reading, reading] at stays
      cases stays
    | true =>
      have call := pass_call reading
      generalize s.pass true = t at stays call
      cases call with
      | ended none => cases stays
      | whole now all => cases stays
      | part now more => exact List.length_append

theorem run_left {s : BodyRead} (left : s.reading = false) (polls : List Bool) : s.run polls = s := by
  induction polls with
  | nil => rfl
  | cons ready polls ih =>
    change (s.pass ready).run polls = s
    rw [pass_left left, ih]

theorem run_received {s : BodyRead} {polls : List Bool} (stays : (s.run polls).reading = true) :
    (s.run polls).received.length = s.received.length + polls.count true := by
  induction polls generalizing s with
  | nil => rfl
  | cons ready polls ih =>
    change ((s.pass ready).run polls).reading = true at stays
    have first : (s.pass ready).reading = true := by
      by_contra left
      rw [run_left (Bool.eq_false_of_not_eq_true left)] at stays
      exact left stays
    change ((s.pass ready).run polls).received.length = _
    rw [ih stays, pass_received first, List.count_cons]
    cases ready
    · rfl
    · change s.received.length + 1 + polls.count true = s.received.length + (polls.count true + 1)
      omega

end BodyRead

/-! ### The reading of a turn -/

namespace Receiver

/-- More calls than bytes that are missing make no difference. -/
theorem readRest_calls {calls calls' unread : Nat} (socket : StreamSocket) (some : 0 < unread)
    (enough : unread ≤ calls) (enough' : unread ≤ calls') :
    readRest calls socket unread = readRest calls' socket unread := by
  induction calls generalizing calls' socket unread with
  | zero => omega
  | succ calls ih =>
    obtain ⟨calls', rfl⟩ := Nat.exists_eq_add_one.mpr (some.trans_le enough')
    obtain ⟨-, -, within, -⟩ := socket.receiveBytes_takes unread
    simp only [readRest]
    by_cases none : (socket.receiveBytes unread).1.length = 0
    · rw [if_pos none, if_pos none]
    · rw [if_neg none, if_neg none]
      by_cases whole : (socket.receiveBytes unread).1.length = unread
      · rw [if_neg (not_not.mpr whole), if_neg (not_not.mpr whole)]
      · rw [if_pos whole, if_pos whole, @ih calls' _ _ (by omega) (by omega) (by omega)]

end Receiver

namespace BodyRead

/-- What the loop has, and what `readRest` will still read, make up the result. -/
def Owes (result : List Byte × StreamSocket) (s : BodyRead) : Prop :=
  if s.reading then
    (s.binMsg ++ (Receiver.readRest s.unread s.socket s.unread).1,
      (Receiver.readRest s.unread s.socket s.unread).2) = result
  else (s.binMsg, s.socket) = result

theorem start_owes (headerBuff : Vector Byte 5) (idx msglen : Nat) (stream : StreamSocket)
    (some : 0 < msglen) :
    Owes (headerBuff.toList.take idx ++ (Receiver.readBody stream msglen).1,
      (Receiver.readBody stream msglen).2) (start headerBuff idx msglen stream) := by
  unfold Owes start Receiver.readBody
  rw [if_pos some]
  dsimp only
  by_cases whole : (stream.receiveBytes msglen).1.length = msglen
  · rw [if_neg (by simp [whole]), if_neg (not_not.mpr whole)]
  · rw [if_pos (decide_eq_true whole), if_pos whole, List.append_assoc]

theorem pass_owes {result : List Byte × StreamSocket} {s : BodyRead} (owes : Owes result s)
    (some : s.reading = true → 0 < s.unread) (ready : Bool) : Owes result (s.pass ready) := by
  rcases s.pass_cases ready with idle | ⟨reading, -, call⟩
  · rwa [idle]
  · have before := (if_pos reading).mp owes
    have within := s.buff1_takes.2.2.1
    have positive := some reading
    obtain ⟨calls, unread⟩ := Nat.exists_eq_add_one.mpr positive
    rw [Receiver.readRest_calls _ positive le_rfl (by omega : _ ≤ calls + 1)] at before
    simp only [Receiver.readRest] at before
    rw [← buff1] at before
    generalize s.pass ready = t at call
    cases call with
    | ended none =>
      rw [if_pos none, List.append_nil] at before
      exact (if_neg Bool.false_ne_true).mpr before
    | whole now all =>
      rw [if_neg now, if_neg (not_not.mpr all)] at before
      exact (if_neg Bool.false_ne_true).mpr before
    | part now more =>
      rw [if_neg now, if_pos more] at before
      refine (if_pos reading).mpr ?_
      dsimp only
      rw [List.append_assoc, Receiver.readRest_calls _ (by omega) le_rfl (by omega : _ ≤ calls)]
      exact before

theorem run_owes {front : List Byte} {stream : StreamSocket} {msglen : Nat}
    {result : List Byte × StreamSocket} {s : BodyRead} (holds : Invariant front stream msglen s)
    (owes : Owes result s) (polls : List Bool) : Owes result (s.run polls) := by
  induction polls generalizing s with
  | nil => exact owes
  | cons ready polls ih =>
    apply ih (pass_invariant holds ready)
    apply pass_owes owes
    intro reading
    exact ((if_pos reading).mp holds : Underway front stream msglen s).some

/-- Left, the loop has read what `readBody` reads. -/
theorem run_readBody (headerBuff : Vector Byte 5) (idx : Nat) {msglen : Nat} (stream : StreamSocket)
    (some : 0 < msglen) (polls : List Bool)
    (left : ((start headerBuff idx msglen stream).run polls).reading = false) :
    (((start headerBuff idx msglen stream).run polls).binMsg,
        ((start headerBuff idx msglen stream).run polls).socket) =
      (headerBuff.toList.take idx ++ (Receiver.readBody stream msglen).1,
        (Receiver.readBody stream msglen).2) := by
  have owes := run_owes (start_invariant headerBuff idx some)
    (start_owes headerBuff idx msglen stream some) polls
  unfold Owes at owes
  rwa [left, if_neg Bool.false_ne_true] at owes

/-! ### The body of a decoded header -/

/-- A decoded header lies within the buffer. -/
theorem header_length (host : Host) (headerBuff : Vector Byte 5)
    (decoded : (NmqttMessage.parseHeader host headerBuff 5 0 0).code = 1) :
    (headerBuff.toList.take (NmqttMessage.parseHeader host headerBuff 5 0 0).idx).length =
      (NmqttMessage.parseHeader host headerBuff 5 0 0).idx := by
  let v : NmqttMessage.HeaderView :=
    { bytes := headerBuff.toList
      buff := headerBuff
      len := 5
      two := by simp
      front := by simp
      there := by simp
      five := le_rfl }
  have ends := (v.header_code_iff host 0 0).mp decoded
  have within : (Base128.scan (host.lowFirst
      ((NmqttMessage.lengthField headerBuff).map BitVec.toNat))).1 ≤ 4 := v.decoded_le host ends
  have idx := (NmqttMessage.parseHeader_ends host headerBuff 0 0 ends).2.1
  rw [List.length_take, Vector.length_toList, idx]
  omega

/-- Between any two passes of the loop, whatever the calls return: the header and what has
come of the body, and with the rest of it the whole packet; in the end the body, or all of
it there was, taken off the stream with nothing behind it. -/
theorem body_reassembled (host : Host) (headerBuff : Vector Byte 5) (stream : StreamSocket)
    (polls : List Bool)
    (decoded : (NmqttMessage.parseHeader host headerBuff 5 0 0).code = 1)
    (some : 0 < (NmqttMessage.parseHeader host headerBuff 5 0 0).msglen.toNat) :
    let idx := (NmqttMessage.parseHeader host headerBuff 5 0 0).idx
    let msglen := (NmqttMessage.parseHeader host headerBuff 5 0 0).msglen.toNat
    let available := min msglen stream.incoming.length
    let s := (start headerBuff idx msglen stream).run polls
    (headerBuff.toList.take idx).length = idx ∧ msglen < 2 ^ 28 ∧
      (s.reading = true → s.binMsg.length + s.unread = idx + msglen) ∧
      (s.reading = false →
        s.binMsg = headerBuff.toList.take idx ++ stream.incoming.take available ∧
          s.socket.incoming = stream.incoming.drop available) ∧
      (s.received.filter (0 < ·)).length ≤ msglen ∧ (s.received.filter (· = 0)).length ≤ 1 ∧
      (msglen ≤ polls.count true → s.reading = false) := by
  intro idx msglen available s
  have front := header_length host headerBuff decoded
  have holds : Invariant _ stream msglen s :=
    run_invariant (start_invariant headerBuff idx some) polls
  have size := NmqttMessage.parseHeader_msglen_lt host 5 0 0 headerBuff decoded
  have positives : (s.received.filter (0 < ·)).length ≤ s.received.length := List.length_filter_le _ _
  refine ⟨front, size, ?_⟩
  unfold Invariant at holds
  cases reading : s.reading with
  | true =>
    rw [if_pos reading] at holds
    have total := holds.total
    rw [front] at total
    have calls := holds.calls
    have unread := holds.some
    have count : s.received.length = 0 + polls.count true := run_received reading
    refine ⟨fun _ => total, nofun, by omega, ?_, fun enough => by omega⟩
    rw [holds.no_zero]
    exact Nat.zero_le _
  | false =>
    rw [if_neg (by rw [reading]; decide)] at holds
    have calls := holds.calls
    have taken : stream.incoming.take msglen = stream.incoming.take available :=
      List.take_eq_take_iff.mpr (by omega)
    have left : stream.incoming.drop msglen = stream.incoming.drop available :=
      List.drop_eq_drop_iff.mpr (by omega)
    refine ⟨nofun, fun _ => ⟨?_, ?_⟩, by omega, holds.results, fun _ => rfl⟩
    · rw [← taken]
      exact holds.bytes
    · rw [← left]
      exact holds.left

/-- A body of three bytes that comes in two parts, with the next packet behind it. -/
theorem body_reassembled_parts :
    let headerBuff : Vector Byte 5 := #v[0x90, 0x03, 0, 0, 0]
    let stream : StreamSocket := ⟨[0x00, 0x0A, 0x01, 0xD0, 0x00], [2, 1]⟩
    let s := (start headerBuff 2 3 stream).run [false, true]
    (NmqttMessage.parseHeader ⟨.le, true⟩ headerBuff 5 0 0).code = 1 ∧
      0 < (NmqttMessage.parseHeader ⟨.le, true⟩ headerBuff 5 0 0).msglen.toNat ∧
      (s.reading = false → s.binMsg = [0x90, 0x03, 0x00, 0x0A, 0x01] ∧
        s.socket.incoming = [0xD0, 0x00]) ∧ s.reading = false := by
  intro headerBuff stream s
  obtain ⟨-, -, -, whole, -⟩ := body_reassembled ⟨.le, true⟩ headerBuff stream [false, true]
    (by decide) (by decide)
  have header : NmqttMessage.parseHeader ⟨.le, true⟩ headerBuff 5 0 0 = ⟨1, 3, 2⟩ := by decide
  rw [header] at whole ⊢
  exact ⟨rfl, by decide, whole, by decide⟩

end BodyRead
end NymphMqtt
