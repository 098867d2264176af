import NymphMqtt.PacketFraming

/-! `writePackedInt` against `readPackedInt`. -/

namespace NymphMqtt.ByteBauble
open NymphMqtt.Library

/-- The word written for a number in range has the fewest groups, reads back as that number
and is zero behind them. A number out of range is refused. -/
def Coded (integer output : BitVec 32) : Prop :=
  let written := writePackedInt integer output
  if integer.toNat ≤ 268435455 then
    Base128.Fewest integer.toNat written.1 ∧ readPackedInt written.2 = (written.1, integer) ∧
      ∀ i, 8 * written.1 ≤ i → written.2.getLsbD i = false
  else written.1 = 0

section Written
variable {integer : BitVec 32} (output : BitVec 32) (some : packedBytes integer ≠ 0)
include some

/-- The groups that are written are read again, whether or not they hold the number. -/
theorem readPackedInt_written :
    (readPackedInt (writePackedInt integer output).2).1 = packedBytes integer ∧
      (readPackedInt (writePackedInt integer output).2).2.toNat =
        integer.toNat % 128 ^ packedBytes integer := by
  obtain ⟨-, word⟩ := NmqttMessage.writePackedInt_spec integer output some
  have room : (Base128.groups (packedBytes integer) integer.toNat).length ≤ 4 := by
    rw [Base128.groups_length]
    exact NmqttMessage.packedBytes_le integer
  have bytes := Base256.bytesOf_ofDigits (Base128.groups_lt _ _) room
  obtain ⟨count, succ⟩ := Nat.exists_eq_succ_of_ne_zero some
  rw [readPackedInt_count, readPackedInt_output, word, bytes, succ, Base128.scan_groups]
  exact ⟨rfl, rfl⟩

theorem written_high (i : Nat) (high : 8 * packedBytes integer ≤ i) :
    (writePackedInt integer output).2.getLsbD i = false := by
  obtain ⟨-, word⟩ := NmqttMessage.writePackedInt_spec integer output some
  have small := Nat.ofDigits_lt_base_pow_length (b := 256) (by decide)
    (Base128.groups_lt (packedBytes integer) integer.toNat)
  rw [← word, Base128.groups_length] at small
  apply Nat.testBit_lt_two_pow
  calc (writePackedInt integer output).2.toNat
    _ < 256 ^ packedBytes integer := small
    _ = 2 ^ (8 * packedBytes integer) := by rw [Nat.pow_mul]
    _ ≤ 2 ^ i := Nat.pow_le_pow_right (by decide) high

theorem coded_some (fits : integer.toNat ≤ 268435455) :
    Coded integer output ↔ Base128.Fewest integer.toNat (packedBytes integer) := by
  obtain ⟨count, value⟩ := readPackedInt_written output some
  have written := (NmqttMessage.writePackedInt_spec integer output some).1
  unfold Coded
  dsimp only
  rw [if_pos fits, written]
  constructor
  · exact And.left
  · intro fewest
    have same : (readPackedInt (writePackedInt integer output).2).2 = integer := by
      apply BitVec.eq_of_toNat_eq
      rw [value, Nat.mod_eq_of_lt fewest.holds]
    exact ⟨fewest, Prod.ext count same, written_high output some⟩

end Written

/-- The codec fails at the four numbers that its range tests put one group too low. -/
theorem coded_iff (integer output : BitVec 32) :
    Coded integer output ↔ integer.toNat ∉ [128, 16384, 2097152, 268435456] := by
  have packed := NmqttMessage.packedBytes_eq integer
  simp only [List.mem_cons, List.not_mem_nil, or_false]
  by_cases fits : integer.toNat ≤ 268435455
  · have some : packedBytes integer ≠ 0 := by split_ifs at packed <;> omega
    rw [coded_some output some fits, Base128.fewest_iff]
    split_ifs at packed <;> rw [packed] <;> omega
  · unfold Coded writePackedInt
    dsimp only
    rw [if_neg fits]
    by_cases last : integer.toNat = 268435456
    · have four : packedBytes integer = 4 := by
        split_ifs at packed <;> omega
      rw [if_neg (by omega)]
      simp only [four]
      omega
    · have none : packedBytes integer = 0 := by split_ifs at packed <;> omega
      rw [if_pos none]
      simp only [true_iff]
      omega

/-- 128 is written as one group, which reads back as 0. -/
theorem uncoded_128 : writePackedInt 128 0 = (1, 0) ∧ readPackedInt 0 = (1, 0) ∧ ¬ Coded 128 0 := by
  refine ⟨by decide, by decide, fun coded => ?_⟩
  have same := coded.2.1
  revert same
  decide

end NymphMqtt.ByteBauble
