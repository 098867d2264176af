import NymphMqtt.ConnectDecoding

/-! The strings that `parseMessage` accepts, and those that are complete packets. -/

namespace NymphMqtt
open NymphMqtt.Library

/-! ### Complete packets -/

/-- Byte count and value of the remaining length, from all of its bytes. -/
def remainingLength (bytes : List Byte) : Nat × Nat :=
  Base128.scan ((bytes.drop 1).map BitVec.toNat)

def variableStart (bytes : List Byte) : Nat := (remainingLength bytes).1 + 1

/-- At most four length bytes, and as many bytes behind them as they say. -/
structure WellFramed (bytes : List Byte) : Prop where
  four : (remainingLength bytes).1 ≤ 4
  whole : variableStart bytes + (remainingLength bytes).2 = bytes.length

/-- From `start` to the end there are so many strings, and nothing else. -/
def HoldsStrings (bytes : List Byte) (start count : Nat) : Prop :=
  ∃ texts : List FieldText, texts.length = count ∧ bytes.drop start = stringFields texts

/-- A packet of a type that MQTT 3.1.1 has, with everything its type and its flags ask for. -/
def HoldsFields (bytes : List Byte) (start : Nat) : Prop :=
  match MqttPacketType.ofByte0 (bytes.getD 0 0) with
  | .reserved => False
  | .auth => False
  | .connect =>
      HoldsStrings bytes (start + 10) (Verdict.stringCount (bytes.getD (start + 7) 0))
  | .connack => start + 2 ≤ bytes.length
  | .publish => NmqttMessage.qosCnt (bytes.getD 0 0) < 2 ∧ start + 2 ≤ bytes.length ∧
      Verdict.payloadStart bytes .version4 start ≤ bytes.length
  | .pingreq => start = bytes.length
  | .pingresp => start = bytes.length
  | .disconnect => start = bytes.length
  | _ => True

structure CompletePacket (bytes : List Byte) : Prop where
  framed : WellFramed bytes
  fields : HoldsFields bytes (variableStart bytes)

/-! ### The length -/

namespace Verdict

/-- The second byte is all of the length, or its continuation adds nothing to it. -/
def LengthRead (host : Host) (bytes : List Byte) : Prop :=
  (bytes.getD 1 0).toNat < 128 ∨ host.charSigned = false ∧ bytes.getD 2 0 = 0

theorem remainingLength_cons (b0 b1 : Byte) (rest : List Byte) :
    remainingLength (b0 :: b1 :: rest) = Base128.scan (b1.toNat :: rest.map BitVec.toNat) := rfl

theorem sized_cons {host : Host} {bytes : List Byte} (sized : WellSized host bytes) :
    ∃ b0 b1 rest, bytes = b0 :: b1 :: rest := by
  have two := sized.1
  match bytes, two with
  | b0 :: b1 :: rest, _ => exact ⟨b0, b1, rest, rfl⟩

section Marked
variable {host : Host} {b0 b1 : Byte} {rest : List Byte}
  (sized : WellSized host (b0 :: b1 :: rest)) (marked : ¬b1.toNat < 128)
include sized marked

theorem marked_length :
    rest.length + 2 = (if host.charSigned then 268435334 else 3) + b1.toNat % 128 :=
  (wellSized_marked host (b0 :: b1 :: rest) (Nat.not_lt.mp marked)).mp sized

/-- An unsigned `char` leaves room for a third byte. -/
theorem marked_third (unsigned : host.charSigned = false) : ∃ b2 behind, rest = b2 :: behind := by
  have length := marked_length sized marked
  rw [unsigned, if_neg (by decide)] at length
  exact List.exists_cons_of_length_pos (by omega)

end Marked

/-- With the length read, both decodings are the same. -/
theorem remainingLength_read {host : Host} {bytes : List Byte} (sized : WellSized host bytes)
    (read : LengthRead host bytes) :
    remainingLength bytes = ((packedLength host bytes).1, (packedLength host bytes).2.toNat) := by
  obtain ⟨b0, b1, rest, rfl⟩ := sized_cons sized
  rw [packedLength_announced, remainingLength_cons]
  change _ = announced host b1.toNat
  unfold announced
  by_cases small : b1.toNat < 128
  · rw [if_pos small, Base128.scan_last small]
  · obtain ⟨unsigned, zero⟩ := read.resolve_left small
    obtain ⟨b2, rest, rfl⟩ := marked_third sized small unsigned
    rw [if_neg small, unsigned, if_neg (by decide)]
    obtain rfl : b2 = 0 := zero
    exact (Base128.scan_two_iff _).mpr ⟨Nat.not_lt.mp small, by decide, rfl⟩

theorem variableStart_eq {host : Host} {bytes : List Byte} (sized : WellSized host bytes)
    (read : LengthRead host bytes) : variableStart bytes = bodyStart host bytes := by
  rw [variableStart, remainingLength_read sized read]
  rfl

/-- Where the parser has the size right, it has read the length or the length is wrong. -/
theorem wellFramed_iff {host : Host} {bytes : List Byte} (sized : WellSized host bytes) :
    WellFramed bytes ↔ LengthRead host bytes := by
  constructor
  · intro ⟨four, whole⟩
    obtain ⟨b0, b1, rest, rfl⟩ := sized_cons sized
    by_cases small : b1.toNat < 128
    · exact .inl small
    right
    have length := marked_length sized small
    have pos := Base128.scan_pos (rest.map BitVec.toNat)
    unfold variableStart at whole
    rw [remainingLength_cons, Base128.scan_marked small] at four whole
    rw [List.length_cons, List.length_cons] at whole
    dsimp only at four whole
    cases signed : host.charSigned with
    | true =>
      rw [signed, if_pos rfl] at length
      omega
    | false =>
      obtain ⟨b2, rest, rfl⟩ := marked_third sized small signed
      rw [signed, if_neg (by decide)] at length
      have ends : Base128.scan (b2.toNat :: rest.map BitVec.toNat) = (1, 0) := by
        rw [List.map_cons] at pos whole
        exact Prod.ext (by omega) (by omega)
      exact ⟨rfl, BitVec.eq_of_toNat_eq ((Base128.scan_one_iff _).mp ends).2⟩
  · intro read
    have length := ((wellSized_iff host bytes).mp sized).2
    have same := remainingLength_read sized read
    constructor
    · rw [same, packedLength_announced]
      unfold announced
      rcases read with small | ⟨unsigned, -⟩
      · rw [if_pos small]
        exact (by decide : 1 ≤ 4)
      · rw [unsigned, if_neg (by decide : ¬false = true)]
        split
        · exact (by decide : 1 ≤ 4)
        · exact (by decide : 2 ≤ 4)
    · rw [variableStart, same]
      exact length

end Verdict

/-! ### What is let through -/

namespace NmqttMessage

/-- The checks that the source does not make: on a string that passes the ones it does, the
length has been read, the type is one of MQTT 3.1.1, the two bytes of a CONNACK are there,
nothing stands behind the fixed header of the empty types, at most one QoS bit is set, and
the strings of a CONNECT fill it. -/
def PassesUnchecked (host : Host) (bytes : List Byte) : Prop :=
  let start := Verdict.bodyStart host bytes
  let flags := bytes.getD (start + 7) 0
  match MqttPacketType.ofByte0 (bytes.getD 0 0) with
  | .reserved => False
  | .auth => False
  | .connect =>
      (bytes.drop start).take 6 = protMatch → KnownLevel (bytes.getD (start + 6) 0) →
        flags.getLsbD 0 = false →
        Verdict.skipStrings host bytes (Verdict.stringCount flags) (start + 10) ≠ none →
        Verdict.LengthRead host bytes ∧
          HoldsStrings bytes (start + 10) (Verdict.stringCount flags)
  | .connack => Verdict.LengthRead host bytes ∧ start + 2 ≤ bytes.length
  | .publish =>
      start + 2 ≤ bytes.length → Verdict.payloadStart bytes .version4 start ≤ bytes.length →
        Verdict.LengthRead host bytes ∧ qosCnt (bytes.getD 0 0) < 2
  | .pingreq => Verdict.LengthRead host bytes ∧ start = bytes.length
  | .pingresp => Verdict.LengthRead host bytes ∧ start = bytes.length
  | .disconnect => Verdict.LengthRead host bytes ∧ start = bytes.length
  | _ => Verdict.LengthRead host bytes

theorem completePacket_iff {host : Host} {bytes : List Byte}
    (sized : Verdict.WellSized host bytes) :
    CompletePacket bytes ↔ Verdict.LengthRead host bytes ∧
      HoldsFields bytes (Verdict.bodyStart host bytes) := by
  rw [← Verdict.wellFramed_iff sized]
  constructor
  · intro ⟨framed, fields⟩
    rw [Verdict.variableStart_eq sized ((Verdict.wellFramed_iff sized).mp framed)] at fields
    exact ⟨framed, fields⟩
  · intro ⟨framed, fields⟩
    rw [← Verdict.variableStart_eq sized ((Verdict.wellFramed_iff sized).mp framed)] at fields
    exact ⟨framed, fields⟩

theorem connect_accepts_iff (host : Host) (bytes : List Byte) (idx : Nat) :
    Verdict.connect host bytes idx = .accept ↔
      (bytes.drop idx).take 6 = protMatch ∧ KnownLevel (bytes.getD (idx + 6) 0) ∧
        (bytes.getD (idx + 7) 0).getLsbD 0 = false ∧
        Verdict.skipStrings host bytes (Verdict.stringCount (bytes.getD (idx + 7) 0))
          (idx + 10) ≠ none := by
  unfold Verdict.connect
  by_cases name : (bytes.drop idx).take 6 = protMatch
  · rw [if_neg (not_not.mpr name)]
    by_cases known : KnownLevel (bytes.getD (idx + 6) 0)
    · rw [if_neg (fun unknown => known.elim unknown.1 unknown.2)]
      cases (bytes.getD (idx + 7) 0).getLsbD 0 with
      | true => simp
      | false =>
        rw [and_iff_right name, and_iff_right known, and_iff_right rfl, if_neg (by decide),
          ← Option.isSome_iff_ne_none]
        split
        next walked => exact iff_of_true rfl walked
        next cut => exact iff_of_false (by decide) cut
    · rw [if_pos (not_or.mp known)]
      exact iff_of_false (by decide) (fun h => known h.2.1)
  · rw [if_pos name]
    exact iff_of_false (by decide) (fun h => name h.1)

/-- Acceptance means a complete packet exactly on the strings where the checks that are
missing would have passed. -/
theorem accepted_complete_iff (host : Host) (bytes : List Byte) (beyond : Nat → Byte)
    (m : NmqttMessage) (version : m.mqttVersion = .version4) :
    ((parseMessage ⟨host, bytes, beyond⟩ m).exit = .returned 1 → CompletePacket bytes) ↔
      (Verdict.WellSized host bytes → PassesUnchecked host bytes) := by
  have exit := (parseMessage_outcome ⟨host, bytes, beyond⟩ m).1
  rw [version] at exit
  have accepts : (parseMessage ⟨host, bytes, beyond⟩ m).exit = .returned 1 ↔
      Verdict.of host .version4 bytes = .accept := by
    rw [exit]
    change (Verdict.of host .version4 bytes).exit = _ ↔ _
    cases Verdict.of host .version4 bytes <;> decide
  rw [accepts]
  by_cases sized : Verdict.WellSized host bytes
  · rw [completePacket_iff sized, Verdict.of, if_pos sized, forall_prop_of_true sized]
    unfold HoldsFields PassesUnchecked
    cases MqttPacketType.ofByte0 (bytes.getD 0 0) with
    | connect =>
      dsimp only
      rw [connect_accepts_iff]
      exact ⟨fun complete name known clear walked => complete ⟨name, known, clear, walked⟩,
        fun unchecked passed => unchecked passed.1 passed.2.1 passed.2.2.1 passed.2.2.2⟩
    | publish =>
      dsimp only
      unfold Verdict.publish
      constructor
      · intro complete fits whole
        obtain ⟨read, level, -⟩ := complete (if_pos ⟨fits, whole⟩)
        exact ⟨read, level⟩
      · intro unchecked accepted
        split at accepted
        next inside =>
          obtain ⟨read, level⟩ := unchecked inside.1 inside.2
          exact ⟨read, level, inside⟩
        next => cases accepted
    | _ => simp
  · rw [Verdict.of, if_neg sized]
    refine iff_of_true (fun accepted => ?_) fun h => absurd h sized
    cases accepted

/-- A PINGREQ without a body, on a fresh message. -/
theorem accepted_complete_pingreq :
    (new default).mqttVersion = .version4 ∧
      ((parseMessage ⟨⟨.le, true⟩, [0xC0, 0x00], fun _ => 0⟩ (new default)).exit = .returned 1 →
        CompletePacket [0xC0, 0x00]) :=
  ⟨rfl, (accepted_complete_iff ⟨.le, true⟩ [0xC0, 0x00] (fun _ => 0) (new default) rfl).mpr
    fun _ => ⟨.inl (by decide), rfl⟩⟩

/-- A CONNACK of remaining length 0 is taken for one. -/
theorem emptyConnack_accepted :
    (parseMessage ⟨⟨.le, true⟩, [0x20, 0x00], fun _ => 0⟩ (new default)).exit = .returned 1 ∧
      ¬CompletePacket [0x20, 0x00] := by
  refine ⟨by decide, fun complete => ?_⟩
  exact absurd complete.fields (by decide : ¬2 + 2 ≤ 2)

end NmqttMessage
end NymphMqtt
