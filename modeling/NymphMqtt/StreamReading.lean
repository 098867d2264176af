import NymphMqtt.Receive

/-! What the receive loops make of any stream: into which pieces it is cut, which strings go to
the parser, which requests are queued, and how the loop ends. -/

namespace NymphMqtt
open NymphMqtt.Library

/-! ### Pieces of a stream -/

/-- What one turn takes off the stream: a single byte that is lost, or the two bytes of a header
with what is read behind them. -/
inductive Piece where
  | lost (b : Byte)
  | packet (b0 b1 : Byte) (body : List Byte)
  deriving DecidableEq, Repr

def Verdict.code : Verdict → Option Int
  | .accept => some 1
  | .reject => some (-1)
  | .overrun => none

namespace Piece

def bytes : Piece → List Byte
  | .lost b => [b]
  | .packet b0 b1 body => b0 :: b1 :: body

section Header
variable (host : Host) (headerBuff : Vector Byte 5)

/-- The buffer of a turn. Its last three bytes are those that it had at the start of the thread. -/
def buffer (b0 b1 : Byte) : Vector Byte 5 :=
  (headerBuff.set 0 b0 Receiver.at0).set 1 b1 Receiver.at1

def header (b0 b1 : Byte) : NmqttMessage.HeaderParse :=
  NmqttMessage.parseHeader host (buffer headerBuff b0 b1) 5 0 0

/-- The string that is passed to `parseMessage`. -/
def frame : Piece → Option (List Byte)
  | .lost _ => none
  | .packet b0 b1 body =>
      some ((buffer headerBuff b0 b1).toList.take (header host headerBuff b0 b1).idx ++ body)

/-- The parser throws on the string. -/
def Overruns (p : Piece) : Prop :=
  ∃ binMsg ∈ p.frame host headerBuff, Verdict.of host .version4 binMsg = .overrun

/-- The return codes of the two parser calls on the packet, when a request is queued for it. -/
def codes (p : Piece) : Option (Int × Int) :=
  match p with
  | .lost _ => none
  | .packet b0 b1 _ =>
      (p.frame host headerBuff).bind fun binMsg =>
        (Verdict.of host .version4 binMsg).code.map fun parse =>
          ((header host headerBuff b0 b1).code, parse)

def msglen (b0 b1 : Byte) : Nat := (header host headerBuff b0 b1).msglen.toNat

/-- As many bytes were read as the header announces. -/
def Complete : Piece → Prop
  | .lost _ => True
  | .packet b0 b1 body => body.length = msglen host headerBuff b0 b1

/-- The packet with `rest` behind its header. -/
def read (b0 b1 : Byte) (rest : List Byte) : Piece :=
  .packet b0 b1 (rest.take (msglen host headerBuff b0 b1))

theorem read_bytes (b0 b1 : Byte) (rest : List Byte) :
    (read host headerBuff b0 b1 rest).bytes ++ rest.drop (msglen host headerBuff b0 b1) =
      b0 :: b1 :: rest := by
  change b0 :: b1 :: (rest.take _ ++ rest.drop _) = _
  rw [List.take_append_drop]

theorem read_complete (b0 b1 : Byte) (rest : List Byte) :
    (read host headerBuff b0 b1 rest).Complete host headerBuff ∨
      rest.drop (msglen host headerBuff b0 b1) = [] := by
  by_cases whole : msglen host headerBuff b0 b1 ≤ rest.length
  · exact .inl (List.length_take_of_le whole)
  · exact .inr (List.drop_of_length_le (by omega))

theorem read_codes (b0 b1 : Byte) (rest : List Byte) :
    (read host headerBuff b0 b1 rest).codes host headerBuff =
      ((read host headerBuff b0 b1 rest).frame host headerBuff).bind fun binMsg =>
        (Verdict.of host .version4 binMsg).code.map fun parse =>
          ((header host headerBuff b0 b1).code, parse) := rfl

theorem lost_sound (b : Byte) : ¬(Piece.lost b).Overruns host headerBuff := by
  rintro ⟨binMsg, framed, -⟩
  cases framed

end Header
end Piece

/-! ### Readings -/

/-- How a stream can be read: with a header cut anywhere, with every body whole unless the stream
ends in it, up to the end or to a packet on which the parser throws. -/
inductive Reading (host : Host) (headerBuff : Vector Byte 5) :
    List Byte → List Piece → List Byte → Listening → Prop
  | closed : Reading host headerBuff [] [] [] .disconnected
  | lost {b : Byte} {rest left : List Byte} {ps : List Piece} {status : Listening} :
      Reading host headerBuff rest ps left status →
      Reading host headerBuff (b :: rest) (.lost b :: ps) left status
  | packet {b0 b1 : Byte} {rest left : List Byte} {ps : List Piece} {status : Listening} :
      ¬(Piece.read host headerBuff b0 b1 rest).Overruns host headerBuff →
      Reading host headerBuff (rest.drop (Piece.msglen host headerBuff b0 b1)) ps left status →
      Reading host headerBuff (b0 :: b1 :: rest) (Piece.read host headerBuff b0 b1 rest :: ps) left
        status
  | threw {b0 b1 : Byte} {rest : List Byte} :
      (Piece.read host headerBuff b0 b1 rest).Overruns host headerBuff →
      Reading host headerBuff (b0 :: b1 :: rest) [Piece.read host headerBuff b0 b1 rest]
        (rest.drop (Piece.msglen host headerBuff b0 b1)) .threw

namespace Reading
variable {host : Host} {headerBuff : Vector Byte 5} {stream left : List Byte} {ps : List Piece}
  {status : Listening}

/-- No byte of the stream is skipped or used twice. -/
theorem bytes (reading : Reading host headerBuff stream ps left status) :
    stream = ps.flatMap Piece.bytes ++ left := by
  induction reading with
  | closed => rfl
  | lost _ ih =>
    rw [List.flatMap_cons, List.append_assoc, ← ih]
    rfl
  | packet _ _ ih => rw [List.flatMap_cons, List.append_assoc, ← ih, Piece.read_bytes]
  | threw _ => rw [List.flatMap_singleton, Piece.read_bytes]

/-- A body is cut short only by the end of the stream. -/
theorem complete (reading : Reading host headerBuff stream ps left status) :
    ∀ front p back, ps = front ++ p :: back →
      p.Complete host headerBuff ∨ (back = [] ∧ left = []) := by
  induction reading with
  | closed =>
    intro front p back at_
    cases front <;> cases at_
  | lost _ ih =>
    intro front p back at_
    cases front with
    | nil =>
      obtain ⟨rfl, -⟩ := List.cons.inj at_
      exact .inl trivial
    | cons first front => exact ih front p back (List.cons.inj at_).2
  | @packet b0 b1 rest left ps status _ reading ih =>
    intro front p back at_
    cases front with
    | nil =>
      obtain ⟨rfl, rfl⟩ := List.cons.inj at_
      apply (Piece.read_complete host headerBuff b0 b1 rest).imp_right
      intro none
      rw [none] at reading
      cases reading
      exact ⟨rfl, rfl⟩
    | cons first front => exact ih front p back (List.cons.inj at_).2
  | @threw b0 b1 rest _ =>
    intro front p back at_
    cases front with
    | nil =>
      obtain ⟨rfl, rfl⟩ := List.cons.inj at_
      exact (Piece.read_complete host headerBuff b0 b1 rest).imp_right fun none => ⟨rfl, none⟩
    | cons first front =>
      have none := (List.cons.inj at_).2
      cases front <;> cases none

/-- The reading ends with the stream, or with the first packet on which the parser throws. -/
theorem ends (reading : Reading host headerBuff stream ps left status) :
    (status = .disconnected ∧ left = [] ∧ ∀ p ∈ ps, ¬p.Overruns host headerBuff) ∨
      status = .threw ∧ ∃ front p, ps = front ++ [p] ∧ p.Overruns host headerBuff ∧
        ∀ q ∈ front, ¬q.Overruns host headerBuff := by
  induction reading with
  | closed => exact .inl ⟨rfl, rfl, List.forall_mem_nil _⟩
  | @lost b rest left ps status _ ih =>
    rcases ih with ⟨ended, none, sound⟩ | ⟨threw, front, p, rfl, overruns, sound⟩
    · exact .inl ⟨ended, none, List.forall_mem_cons.mpr ⟨Piece.lost_sound host headerBuff b, sound⟩⟩
    · refine .inr ⟨threw, .lost b :: front, p, rfl, overruns, ?_⟩
      exact List.forall_mem_cons.mpr ⟨Piece.lost_sound host headerBuff b, sound⟩
  | packet here _ ih =>
    rcases ih with ⟨ended, none, sound⟩ | ⟨threw, front, p, rfl, overruns, sound⟩
    · exact .inl ⟨ended, none, List.forall_mem_cons.mpr ⟨here, sound⟩⟩
    · exact .inr ⟨threw, _ :: front, p, rfl, overruns, List.forall_mem_cons.mpr ⟨here, sound⟩⟩
  | threw overruns => exact .inr ⟨rfl, [], _, rfl, overruns, List.forall_mem_nil _⟩

/-- Two bytes at least are read for every string that is passed on. -/
theorem few (reading : Reading host headerBuff stream ps left status) :
    2 * (ps.filterMap (Piece.frame host headerBuff)).length ≤ stream.length := by
  induction reading with
  | closed => exact Nat.le_refl 0
  | lost _ ih => exact Nat.le_succ_of_le ih
  | packet _ _ ih =>
    rw [List.length_drop] at ih
    change 2 * (_ + 1) ≤ _ + 1 + 1
    omega
  | threw _ =>
    change 2 * 1 ≤ _ + 1 + 1
    omega

theorem overruns_iff (b0 b1 : Byte) (rest : List Byte) :
    (Piece.read host headerBuff b0 b1 rest).Overruns host headerBuff ↔
      (Piece.read host headerBuff b0 b1 rest).codes host headerBuff = none := by
  rw [Piece.read_codes]
  change (∃ binMsg ∈ some _, _) ↔ Option.map _ _ = none
  rw [Option.map_eq_none_iff]
  constructor
  · rintro ⟨binMsg, framed, thrown⟩
    rw [Option.some.inj framed, thrown]
    rfl
  · intro none
    refine ⟨_, rfl, ?_⟩
    revert none
    cases Verdict.of host .version4 _ <;> decide

/-- Only the string on which the parser throws is passed on without a request. -/
theorem queued (reading : Reading host headerBuff stream ps left status) :
    (ps.filterMap (Piece.frame host headerBuff)).length =
      (ps.filterMap (Piece.codes host headerBuff)).length + if status = .threw then 1 else 0 := by
  induction reading with
  | closed => rfl
  | lost _ ih => exact ih
  | @packet b0 b1 rest left ps status sound _ ih =>
    rw [overruns_iff] at sound
    obtain ⟨pair, coded⟩ := Option.ne_none_iff_exists'.mp sound
    rw [List.filterMap_cons, List.filterMap_cons, coded]
    change _ + 1 = _ + 1 + _
    omega
  | @threw b0 b1 rest overruns =>
    rw [overruns_iff] at overruns
    rw [List.filterMap_cons, List.filterMap_cons, overruns]
    rfl

end Reading

/-! ### The loop reads the stream -/

namespace Receiver

/-- The return codes behind the requests that were queued. -/
def codes (r : Receiver) : List (Int × Int) := r.handed.map fun h => (h.header, h.parse)

/-- The three bytes of the buffer that no turn writes are those of another buffer. -/
def Leftover (headerBuff : Vector Byte 5) (r : Receiver) : Prop :=
  ∀ b0 b1, r.buffered b0 b1 = Piece.buffer headerBuff b0 b1

section
variable {headerBuff : Vector Byte 5} {r s : Receiver} (leftover : Leftover headerBuff r)
include leftover

theorem Leftover.cut {b0 : Byte} (buff : s.headerBuff = r.headerBuff.set 0 b0 at0) :
    Leftover headerBuff s := by
  intro c0 c1
  rw [← leftover c0 c1, buffered, buff, Vector.set_set]
  rfl

theorem Leftover.whole {b0 b1 : Byte} (buff : s.headerBuff = r.buffered b0 b1) :
    Leftover headerBuff s := by
  intro c0 c1
  rw [← leftover c0 c1, buffered, buff, buffered, buffered]
  apply Vector.ext
  intro i bound
  simp only [Vector.getElem_set]
  split_ifs <;> rfl

variable (host : Host)

theorem Leftover.header (b0 b1 : Byte) :
    r.nextHeader host b0 b1 = Piece.header host headerBuff b0 b1 := by
  rw [nextHeader, leftover b0 b1]
  rfl

theorem Leftover.frame (b0 b1 : Byte) (rest : List Byte) :
    (Piece.read host headerBuff b0 b1 rest).frame host headerBuff =
      some (r.nextFrame host b0 b1 rest) := by
  rw [nextFrame, leftover.header host, leftover b0 b1]
  rfl

end

section Run
variable (host : Host) (heap : Nat → Heap) {headerBuff : Vector Byte 5} {r : Receiver}
  (leftover : Leftover headerBuff r)
include leftover

/-- A turn on a whole header reads one packet. -/
theorem turn_reads {b0 b1 : Byte} {rest : List Byte} (bytes : r.socket.incoming = b0 :: b1 :: rest)
    (whole : 2 ≤ r.socket.offers.headD 2) :
    let piece := Piece.read host headerBuff b0 b1 rest
    Leftover headerBuff (turn host heap r) ∧
      (turn host heap r).socket.incoming = rest.drop (Piece.msglen host headerBuff b0 b1) ∧
      (turn host heap r).passed = r.passed ++ (piece.frame host headerBuff).toList ∧
      (turn host heap r).codes = r.codes ++ (piece.codes host headerBuff).toList ∧
      (piece.Overruns host headerBuff ∧ (turn host heap r).status = .threw ∨
        ¬piece.Overruns host headerBuff ∧ (turn host heap r).status = r.status) := by
  intro piece
  have frame := leftover.frame host b0 b1 rest
  have header := leftover.header host b0 b1
  obtain ⟨passed, buff, socket, status⟩ := turn_frame host heap r bytes whole
  obtain ⟨message, handed⟩ := turn_handed host heap r bytes whole
  obtain ⟨-, left, -⟩ := readBody_collects ⟨rest, r.socket.offers.tail⟩
    (r.nextHeader host b0 b1).msglen.toNat
  have overruns : piece.Overruns host headerBuff ↔
      Verdict.of host .version4 (r.nextFrame host b0 b1 rest) = .overrun := by
    rw [Piece.Overruns, frame]
    exact ⟨fun ⟨_, same, thrown⟩ => Option.some.inj same ▸ thrown, fun thrown => ⟨_, rfl, thrown⟩⟩
  refine ⟨leftover.whole buff, ?_, ?_, ?_, ?_⟩
  · rw [socket, left, header]
    rfl
  · rw [passed, frame]
    rfl
  · have codes : piece.codes host headerBuff =
        (Verdict.of host .version4 (r.nextFrame host b0 b1 rest)).code.map
          fun parse => ((r.nextHeader host b0 b1).code, parse) := by
      rw [Piece.read_codes, frame, Option.bind_some, header]
    rw [codes, Receiver.codes, handed, List.map_append]
    congr 1
    cases Verdict.of host .version4 (r.nextFrame host b0 b1 rest) <;> rfl
  · rw [overruns, status]
    by_cases thrown : Verdict.of host .version4 (r.nextFrame host b0 b1 rest) = .overrun
    · exact .inl ⟨thrown, if_pos thrown⟩
    · exact .inr ⟨thrown, if_neg thrown⟩

theorem run_reads (listening : r.status = .listening) {turns : Nat}
    (enough : r.socket.incoming.length < turns) :
    ∃ ps, Reading host headerBuff r.socket.incoming ps (run host heap turns r).socket.incoming
        (run host heap turns r).status ∧
      (run host heap turns r).passed = r.passed ++ ps.filterMap (Piece.frame host headerBuff) ∧
      (run host heap turns r).codes = r.codes ++ ps.filterMap (Piece.codes host headerBuff) := by
  induction turns generalizing r with
  | zero => cases enough
  | succ turns ih =>
    rw [run_succ host heap listening]
    rcases header_cases r.socket with bytes | ⟨b0, rest, bytes, cut⟩ | ⟨b0, b1, rest, bytes, whole⟩
    · rw [turn_closed host heap r bytes, run_left host heap (fun h => by cases h), bytes]
      exact ⟨[], .closed, (List.append_nil _).symm, (List.append_nil _).symm⟩
    · have turned := turn_cut host heap r bytes cut
      have shorter : (turn host heap r).socket.incoming.length < turns := by
        rw [turned]
        rw [bytes, List.length_cons] at enough
        exact Nat.lt_of_succ_lt_succ enough
      obtain ⟨ps, reading, passed, codes⟩ := ih (leftover.cut (by rw [turned]))
        (by rw [turned]; exact listening) shorter
      refine ⟨.lost b0 :: ps, ?_, ?_, ?_⟩
      · rw [bytes]
        apply Reading.lost
        rw [turned] at reading ⊢
        exact reading
      · rw [passed, turned]
        rfl
      · rw [codes, turned]
        rfl
    · obtain ⟨leftover', left, passed, codes, ⟨overruns, threw⟩ | ⟨sound, status⟩⟩ :=
        turn_reads host heap leftover bytes whole
      · rw [run_left host heap (by rw [threw]; decide), threw, left, bytes, passed, codes]
        refine ⟨_, .threw overruns, ?_, ?_⟩
        · rw [List.filterMap_cons, List.filterMap_nil]
          cases Piece.frame host headerBuff _ <;> rfl
        · rw [List.filterMap_cons, List.filterMap_nil]
          cases Piece.codes host headerBuff _ <;> rfl
      · have shorter : (turn host heap r).socket.incoming.length < turns := by
          rw [left, List.length_drop]
          rw [bytes, List.length_cons, List.length_cons] at enough
          omega
        obtain ⟨ps, reading, passed', codes'⟩ := ih leftover' (status.trans listening) shorter
        refine ⟨Piece.read host headerBuff b0 b1 rest :: ps, ?_, ?_, ?_⟩
        · rw [bytes]
          exact .packet sound (left ▸ reading)
        · rw [passed', passed, List.append_assoc, List.filterMap_cons]
          cases Piece.frame host headerBuff _ <;> rfl
        · rw [codes', codes, List.append_assoc, List.filterMap_cons]
          cases Piece.codes host headerBuff _ <;> rfl

end Run
end Receiver

/-- What a loop that has ended has made of a stream. -/
structure CutUp (host : Host) (headerBuff : Vector Byte 5) (stream : List Byte) (r : Receiver)
    (ps : List Piece) : Prop where
  bytes : stream = ps.flatMap Piece.bytes ++ r.socket.incoming
  passed : r.passed = ps.filterMap (Piece.frame host headerBuff)
  codes : r.codes = ps.filterMap (Piece.codes host headerBuff)
  complete : ∀ front p back, ps = front ++ p :: back →
    p.Complete host headerBuff ∨ (back = [] ∧ r.socket.incoming = [])
  ends : (r.status = .disconnected ∧ r.socket.incoming = [] ∧
      ∀ p ∈ ps, ¬p.Overruns host headerBuff) ∨
    r.status = .threw ∧ ∃ front p, ps = front ++ [p] ∧ p.Overruns host headerBuff ∧
      ∀ q ∈ front, ¬q.Overruns host headerBuff
  few : 2 * r.passed.length ≤ stream.length
  queued : r.passed.length = r.handed.length + if r.status = .threw then 1 else 0

end NymphMqtt
