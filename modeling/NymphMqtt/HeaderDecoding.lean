import NymphMqtt.MessageByteOrder

/-! The two decoders of the fixed header: `parseHeader`, on the five bytes of the receive
loops, and `parseMessage`, on the whole string. -/

namespace NymphMqtt
open NymphMqtt.Library

namespace NmqttMessage

/-! ### `parseHeader` on what was received -/

/-- The received bytes behind the first one. -/
def received (buff : Vector Byte 5) (len : Nat) : List Byte := (buff.toList.take len).tail

/-- Every byte says that another one follows. -/
def Marked (bytes : List Byte) : Prop := ∀ b ∈ bytes, continues b = true

instance (bytes : List Byte) : Decidable (Marked bytes) := inferInstanceAs (Decidable (∀ b ∈ bytes, _))

section Header
variable (host : Host) (buff : Vector Byte 5) {len : Nat} (msglen : BitVec 32) (idx : Nat)

theorem marked_iff (bytes : List Byte) :
    Marked bytes ↔ ∀ b ∈ bytes.map BitVec.toNat, ¬b < 128 := by
  unfold Marked
  simp only [List.forall_mem_map, Receiver.continues_iff, Nat.not_lt]

theorem parseHeader_marked (two : 2 ≤ len) (five : len ≤ 5) (marked : Marked (received buff len)) :
    (parseHeader host buff len msglen idx).code = if len = 5 then -1 else 0 := by
  obtain ⟨⟨l⟩, size⟩ := buff
  match l, size with
  | [b0, b1, b2, b3, b4], _ =>
    have known : ∀ b ∈ (([b0, b1, b2, b3, b4] : List Byte).take len).tail, continues b = true := marked
    unfold parseHeader
    change (if len < 2 then _ else if continues b1 then if len < 3 then _ else if continues b2 then
      if len < 4 then _ else if continues b3 then if len < 5 then _ else if continues b4 then _
        else _ else _ else _ else _ : HeaderParse).code = _
    obtain rfl | rfl | rfl | rfl : len = 2 ∨ len = 3 ∨ len = 4 ∨ len = 5 := by omega
    all_goals
      simp only [List.take_succ_cons, List.take_zero, List.tail_cons, List.mem_cons,
        List.not_mem_nil, or_false, forall_eq_or_imp, forall_eq] at known
    · rw [if_neg (by decide), if_pos known, if_pos (by decide)]
      rfl
    · rw [if_neg (by decide), if_pos known.1, if_neg (by decide), if_pos known.2, if_pos (by decide)]
      rfl
    · rw [if_neg (by decide), if_pos known.1, if_neg (by decide), if_pos known.2.1,
        if_neg (by decide), if_pos known.2.2, if_pos (by decide)]
      rfl
    · rw [if_neg (by decide), if_pos known.1, if_neg (by decide), if_pos known.2.1,
        if_neg (by decide), if_pos known.2.2.1, if_neg (by decide), if_pos known.2.2.2]
      rfl

/-- The four bytes that may belong to the length. -/
def lengthField (buff : Vector Byte 5) : List Byte :=
  [byte1 buff, byte2 buff, byte3 buff, byte4 buff]

theorem received_append (five : len ≤ 5) :
    lengthField buff = received buff len ++ (lengthField buff).drop (len - 1) := by
  have bytes : buff.toList = byte0 buff :: lengthField buff := Receiver.toList_five buff
  cases len with
  | zero =>
    rw [received, List.take_zero]
    rfl
  | succ len =>
    rw [received, bytes, List.take_succ_cons, List.tail_cons, Nat.add_sub_cancel,
      List.take_append_drop]

theorem received_length (five : len ≤ 5) : (received buff len).length = len - 1 := by
  rw [received, List.length_tail, List.length_take, Vector.length_toList, Nat.min_eq_left five]

theorem scan_received (five : len ≤ 5) (unmarked : ¬Marked (received buff len)) :
    Base128.scan ((lengthField buff).map BitVec.toNat) =
        Base128.scan ((received buff len).map BitVec.toNat) ∧
      (Base128.scan ((received buff len).map BitVec.toNat)).1 ≤ len - 1 := by
  have ends : (Base128.scan ((received buff len).map BitVec.toNat)).1 ≤
      ((received buff len).map BitVec.toNat).length := by
    rw [Base128.scan_ends_iff]
    rw [marked_iff] at unmarked
    by_contra none
    exact unmarked fun b member last => none ⟨b, member, last⟩
  constructor
  · rw [received_append buff five, List.map_append, Base128.scan_append ends]
  · rw [List.length_map, received_length buff five] at ends
    exact ends

/-- The length ends within the received bytes unless all of them are marked. -/
theorem headerEnds_received (two : 2 ≤ len) (five : len ≤ 5) :
    HeaderEnds (byte1 buff) (byte2 buff) (byte3 buff) (byte4 buff) len ↔
      ¬Marked (received buff len) := by
  change (Base128.scan ((lengthField buff).map BitVec.toNat)).1 + 1 ≤ min 5 len ↔ _
  constructor
  · intro ends marked
    have beyond := Base128.scan_all_marked ((marked_iff _).mp marked)
      (((lengthField buff).drop (len - 1)).map BitVec.toNat)
    rw [← List.map_append, ← received_append buff five, List.length_map,
      received_length buff five] at beyond
    omega
  · intro unmarked
    obtain ⟨same, ends⟩ := scan_received buff five unmarked
    rw [same]
    omega

/-- A length that ends within the received bytes is decoded in the order of the host. -/
theorem parseHeader_ends
    (ends : HeaderEnds (byte1 buff) (byte2 buff) (byte3 buff) (byte4 buff) len) :
    let decoded := Base128.scan (host.lowFirst ((lengthField buff).map BitVec.toNat))
    let header := parseHeader host buff len msglen idx
    header.code = 1 ∧ header.idx = decoded.1 + 1 ∧ header.msglen.toNat = decoded.2 :=
  parseHeader_list host (byte0 buff) len msglen idx (Receiver.toList_five buff) ends

/-- On a little-endian host the bytes behind the received ones make no difference. -/
theorem parseHeader_unmarked (order : host.endian = .le) (two : 2 ≤ len) (five : len ≤ 5)
    (unmarked : ¬Marked (received buff len)) :
    let decoded := Base128.scan ((received buff len).map BitVec.toNat)
    let header := parseHeader host buff len msglen idx
    header.code = 1 ∧ header.idx = decoded.1 + 1 ∧ header.msglen.toNat = decoded.2 := by
  have parsed := parseHeader_ends host buff msglen idx
    ((headerEnds_received buff two five).mpr unmarked)
  rw [Host.lowFirst_le order, (scan_received buff five unmarked).1] at parsed
  exact parsed

end Header

/-! ### Exact answers -/

/-- Of `len` bytes, those behind the first one are all marked and one of four is missing, or
all four are marked, or they begin with a number and the answer says which. -/
structure Answers (len : Nat) (received : List Byte) (header : HeaderParse) : Prop where
  more : header.code = 0 ↔ Marked received ∧ len < 5
  corrupted : header.code = -1 ↔ Marked received ∧ len = 5
  parsed : ¬Marked received →
    let decoded := Base128.scan (received.map BitVec.toNat)
    header.code = 1 ∧ header.msglen.toNat = decoded.2 ∧ header.idx = 1 + decoded.1

theorem parseHeader_answers {host : Host} (order : host.endian = .le) (buff : Vector Byte 5)
    {len : Nat} (two : 2 ≤ len) (five : len ≤ 5) (msglen : BitVec 32) (idx : Nat) :
    Answers len (received buff len) (parseHeader host buff len msglen idx) := by
  by_cases marked : Marked (received buff len)
  · have code := parseHeader_marked host buff msglen idx two five marked
    by_cases last : len = 5
    · rw [if_pos last] at code
      refine ⟨?_, ?_, fun unmarked => absurd marked unmarked⟩
      · exact iff_of_false (by rw [code]; decide) (by omega)
      · exact iff_of_true code ⟨marked, last⟩
    · rw [if_neg last] at code
      refine ⟨?_, ?_, fun unmarked => absurd marked unmarked⟩
      · exact iff_of_true code ⟨marked, by omega⟩
      · exact iff_of_false (by rw [code]; decide) (by omega)
  · obtain ⟨code, start, length⟩ := parseHeader_unmarked host buff msglen idx order two five marked
    refine ⟨?_, ?_, fun _ => ⟨code, length, start.trans (Nat.add_comm _ 1)⟩⟩
    · exact iff_of_false (by rw [code]; decide) (fun short => marked short.1)
    · exact iff_of_false (by rw [code]; decide) (fun corrupted => marked corrupted.1)

/-- There is one answer to the received bytes. -/
theorem Answers.unique {len : Nat} {bytes : List Byte} {header header' : HeaderParse}
    (first : Answers len bytes header) (second : Answers len bytes header') (five : len ≤ 5) :
    header'.code = header.code ∧
      (header.code = 1 → header'.msglen = header.msglen ∧ header'.idx = header.idx) := by
  by_cases marked : Marked bytes
  · by_cases last : len = 5
    · have code := first.corrupted.mpr ⟨marked, last⟩
      rw [code, second.corrupted.mpr ⟨marked, last⟩]
      exact ⟨rfl, fun wrong => absurd wrong (by decide)⟩
    · have code := first.more.mpr ⟨marked, by omega⟩
      rw [code, second.more.mpr ⟨marked, by omega⟩]
      exact ⟨rfl, fun wrong => absurd wrong (by decide)⟩
  · obtain ⟨code, length, start⟩ := first.parsed marked
    obtain ⟨code', length', start'⟩ := second.parsed marked
    exact ⟨code'.trans code.symm, fun _ =>
      ⟨BitVec.eq_of_toNat_eq (length'.trans length.symm), start'.trans start.symm⟩⟩

end NmqttMessage

/-! ### The retry loops -/

namespace Receiver
variable (host : Host) (heap : Nat → Heap)

theorem turn_not_spinning {r : Receiver} (moving : r.status ≠ .spinning) :
    (turn host heap r).status ≠ .spinning := by
  rcases header_cases r.socket with bytes | ⟨b0, rest, bytes, cut⟩ | ⟨b0, b1, rest, bytes, whole⟩
  · rw [turn_closed host heap r bytes]
    exact nofun
  · rw [turn_cut host heap r bytes cut]
    exact moving
  · obtain ⟨-, -, -, status⟩ := turn_frame host heap r bytes whole
    rw [status]
    split
    · exact nofun
    · exact moving

/-- No header makes the inner loop repeat its call. -/
theorem run_not_spinning (turns : Nat) {r : Receiver} (moving : r.status ≠ .spinning) :
    (run host heap turns r).status ≠ .spinning := by
  induction turns generalizing r with
  | zero => exact moving
  | succ turns ih =>
    unfold run
    split
    · exact ih (turn_not_spinning host heap moving)
    · exact moving

end Receiver

namespace NmqttMessage

/-- On a little-endian host `parseHeader` answers to the bytes that were received and to
nothing behind them, and the receive loops, which claim five bytes, are never asked for more. -/
theorem parseHeader_exact (charSigned : Bool) (buff : Vector Byte 5) {len : Nat} (two : 2 ≤ len)
    (five : len ≤ 5) (msglen : BitVec 32) (idx : Nat) :
    let header := parseHeader (.little charSigned) buff len msglen idx
    Answers len (received buff len) header ∧
    (∀ (buff' : Vector Byte 5) (msglen' : BitVec 32) (idx' : Nat),
      buff'.toList.take len = buff.toList.take len →
        let header' := parseHeader (.little charSigned) buff' len msglen' idx'
        header'.code = header.code ∧
          (header.code = 1 → header'.msglen = header.msglen ∧ header'.idx = header.idx)) ∧
    (parseHeader (.little charSigned) buff 5 msglen idx).code ≠ 0 ∧
    ∀ heap turns headerBuff socket,
      (NmqttSession.run (.little charSigned) heap turns headerBuff socket).status ≠ .spinning ∧
      (NmqttClientListener.run (.little charSigned) heap turns headerBuff socket).status ≠
        .spinning := by
  have order : (Host.little charSigned).endian = .le := rfl
  have answers := parseHeader_answers order buff two five msglen idx
  refine ⟨answers, fun buff' msglen' idx' agrees => ?_, ?_, fun heap turns headerBuff socket => ?_⟩
  · have same : received buff' len = received buff len := congrArg List.tail agrees
    have answers' := parseHeader_answers order buff' two five msglen' idx'
    rw [same] at answers'
    exact answers.unique answers' five
  · have answers' := parseHeader_answers order buff (by decide : 2 ≤ 5) le_rfl msglen idx
    intro short
    exact absurd (answers'.more.mp short).2 (by decide)
  · exact ⟨Receiver.run_not_spinning _ heap turns nofun, Receiver.run_not_spinning _ heap turns nofun⟩

/-- Two of the three bytes that a length of 300 takes with the first one. -/
theorem parseHeader_exact_three :
    (parseHeader (.little true) #v[0x30, 0xAC, 0x02, 0, 0] 3 0 0).msglen = 300 ∧
      (parseHeader (.little true) #v[0x30, 0xAC, 0x02, 0, 0] 3 0 0).idx = 3 := by
  obtain ⟨answers, -⟩ := parseHeader_exact true #v[0x30, 0xAC, 0x02, 0, 0] (by decide : 2 ≤ 3)
    (by decide) 0 0
  obtain ⟨-, length, start⟩ := answers.parsed (by decide)
  exact ⟨BitVec.eq_of_toNat_eq length, start⟩

end NmqttMessage
end NymphMqtt
