import NymphMqtt.ByteBauble

/-! `readPackedInt` against the closed form of what it reads. -/

namespace NymphMqtt.ByteBauble
open NymphMqtt.Library

/-! ### Shift amounts -/

/-- `value >> amount`, undefined where the amount reaches the width. -/
def shiftRight (value : BitVec 32) (amount : Nat) : Option (BitVec 32) :=
  if amount < 32 then some (value >>> amount) else none

/-- `1UL << amount`, which is at least as wide. -/
def shiftOne (amount : Nat) : Option (BitVec 32) :=
  if amount < 32 then some (1#32 <<< amount) else none

/-- One pass of the inner loop, with its shifts checked. -/
def checkedBit (source : BitVec 32) (s : Copy) : Option Copy := do
  let bit ← shiftRight source s.src
  if bit &&& 1#32 = 1#32 then
    let set ← shiftOne s.idx
    some ⟨s.output ||| set, s.idx + 1, s.src + 1⟩
  else some ⟨s.output, s.idx + 1, s.src + 1⟩

def checkedBits (source : BitVec 32) : Nat → Copy → Option Copy
  | 0, s => some s
  | n + 1, s => (checkedBit source s).bind (checkedBits source n)

def checkedGroups (packed : BitVec 32) : (n i : Nat) → Copy → Option (Nat × BitVec 32)
  | 0, i, s => some (i, s.output)
  | n + 1, i, s => do
      let s ← checkedBits packed 7 s
      let follow ← shiftRight packed s.src
      if follow &&& 1#32 = 0#32 then some (i, s.output)
      else checkedGroups packed n (i + 1) { s with src := s.src + 1 }

/-- `readPackedInt`, which comes to a result only if every shift of it is defined. -/
def checkedRead (packed : BitVec 32) : Option (Nat × BitVec 32) :=
  (checkedGroups packed 4 0 .start).map fun r => (r.1 + 1, r.2)

theorem checkedBit_eq (source : BitVec 32) {s : Copy} (src : s.src < 32) (idx : s.idx < 32) :
    checkedBit source s = some (copyBit source s) := by
  unfold checkedBit copyBit shiftRight shiftOne
  rw [if_pos src, if_pos idx]
  dsimp only [Option.bind_eq_bind, Option.bind_some]
  split <;> rfl

theorem checkedBits_eq (source : BitVec 32) {n : Nat} {s : Copy} (src : s.src + n ≤ 32)
    (idx : s.idx + n ≤ 32) : checkedBits source n s = some (copyBits source n s) := by
  induction n generalizing s with
  | zero => rfl
  | succ n ih =>
    rw [checkedBits, checkedBit_eq source (by omega) (by omega), Option.bind_some]
    apply ih
    · rw [copyBit_src]
      omega
    · rw [copyBit_idx]
      omega

/-- A pass of the outer loop moves the source by eight bits, and the output by seven. -/
theorem checkedGroups_eq (packed : BitVec 32) {n i : Nat} {s : Copy} (src : s.src + 8 * n ≤ 32)
    (idx : s.idx + 7 * n ≤ 32) : checkedGroups packed n i s = some (readGroups packed n i s) := by
  induction n generalizing i s with
  | zero => rfl
  | succ n ih =>
    have inside : (copyBits packed 7 s).src < 32 := by
      rw [copyBits_src]
      omega
    rw [checkedGroups, checkedBits_eq packed (by omega) (by omega), Option.bind_eq_bind,
      Option.bind_some, shiftRight, if_pos inside, Option.bind_eq_bind, Option.bind_some, readGroups]
    by_cases last : packed >>> (copyBits packed 7 s).src &&& 1#32 = 0#32
    · rw [if_pos last, if_pos last]
    · rw [if_neg last, if_neg last]
      apply ih
      · rw [copyBits_src]
        dsimp only
        omega
      · rw [copyBits_idx]
        omega

theorem checkedRead_eq (packed : BitVec 32) : checkedRead packed = some (readPackedInt packed) := by
  rw [checkedRead, checkedGroups_eq packed (by decide) (by decide)]
  rfl

/-! ### The closed form -/

/-- Byte `i` of a word, counted from the least significant one. -/
def byteOf (packed : BitVec 32) (i : Nat) : Byte := packed.extractLsb' (8 * i) 8

/-- The byte is followed by another one. -/
def Marked (packed : BitVec 32) (i : Nat) : Prop := (byteOf packed i).msb = true

/-- The seven-bit groups of the first `k` bytes. -/
def groupsOf (packed : BitVec 32) (k : Nat) : Nat :=
  ∑ i ∈ Finset.range k, (byteOf packed i).toNat % 128 * 128 ^ i

theorem bytesOf_byteOf (packed : BitVec 32) {i : Nat} (inside : i < 4) :
    (Base256.bytesOf 4 packed.toNat).getD i 0 = (byteOf packed i).toNat := by
  rw [Base256.bytesOf_eq_map, List.getD_eq_getElem?_getD, List.getElem?_map,
    List.getElem?_range inside, byteOf, BitVec.extractLsb'_toNat, Nat.shiftRight_eq_div_pow,
    Nat.pow_mul]
  rfl

theorem marked_iff (packed : BitVec 32) (i : Nat) : Marked packed i ↔ 128 ≤ (byteOf packed i).toNat := by
  rw [Marked, BitVec.msb_eq_decide, decide_eq_true_eq]

theorem groupsOf_eq (packed : BitVec 32) {k : Nat} (inside : k ≤ 4) :
    Base128.groupSum (Base256.bytesOf 4 packed.toNat) k = groupsOf packed k := by
  apply Finset.sum_congr rfl
  intro i member
  rw [bytesOf_byteOf packed ((Finset.mem_range.mp member).trans_le inside)]

/-- The position of the first byte without a mark. -/
structure EndsAt (packed : BitVec 32) (k : Nat) : Prop where
  some : 1 ≤ k
  inside : k ≤ 4
  last : ¬Marked packed (k - 1)
  marked : ∀ i < k - 1, Marked packed i

theorem readPackedInt_ends {packed : BitVec 32} {k : Nat} (ends : EndsAt packed k) :
    (readPackedInt packed).1 = k ∧ (readPackedInt packed).2.toNat = groupsOf packed k := by
  obtain ⟨some, inside, last, marked⟩ := ends
  obtain ⟨k, rfl⟩ := Nat.exists_eq_add_of_le' some
  have scanned := @Base128.scan_first (Base256.bytesOf 4 packed.toNat) k
    (by rw [Base256.bytesOf_length]; exact inside)
    (by
      intro i earlier
      rw [bytesOf_byteOf packed (by omega)]
      exact (marked_iff packed i).mp (marked i earlier))
    (by
      rw [bytesOf_byteOf packed (by omega)]
      exact Nat.not_le.mp (mt (marked_iff packed k).mpr last))
  rw [readPackedInt_count, readPackedInt_output, scanned, groupsOf_eq packed inside]
  exact ⟨rfl, rfl⟩

theorem readPackedInt_endless {packed : BitVec 32} (marked : ∀ i < 4, Marked packed i) :
    (readPackedInt packed).1 = 5 ∧ (readPackedInt packed).2.toNat = groupsOf packed 4 := by
  have scanned := @Base128.scan_endless (Base256.bytesOf 4 packed.toNat) (by
    intro i inside
    rw [Base256.bytesOf_length] at inside
    rw [bytesOf_byteOf packed inside]
    exact (marked_iff packed i).mp (marked i inside))
  rw [Base256.bytesOf_length] at scanned
  rw [readPackedInt_count, readPackedInt_output, scanned, groupsOf_eq packed (by decide)]
  exact ⟨rfl, rfl⟩

theorem groupsOf_lt (packed : BitVec 32) {k : Nat} (inside : k ≤ 4) : groupsOf packed k < 128 ^ k := by
  rw [← groupsOf_eq packed inside]
  exact Base128.groupSum_lt _ k

/-- Words with the same bytes up to the first one without a mark. -/
theorem EndsAt.congr {packed other : BitVec 32} {k : Nat} (ends : EndsAt packed k)
    (same : ∀ i < k, byteOf other i = byteOf packed i) : EndsAt other k := by
  obtain ⟨some, inside, last, marked⟩ := ends
  refine ⟨some, inside, ?_, ?_⟩
  · rw [Marked, same (k - 1) (by omega)]
    exact last
  · intro i earlier
    rw [Marked, same i (by omega)]
    exact marked i earlier

/-- What is read ends at the first byte without a mark, is the sum of the groups up to there
and depends on nothing behind it. Four marks count as five bytes. Every shift is defined. -/
theorem readPackedInt_exact (packed : BitVec 32) :
    (∀ k, EndsAt packed k → (readPackedInt packed).1 = k ∧
      (readPackedInt packed).2.toNat = groupsOf packed k ∧ groupsOf packed k < 128 ^ k ∧
      ∀ other, (∀ i < k, byteOf other i = byteOf packed i) →
        readPackedInt other = readPackedInt packed) ∧
    ((∀ i < 4, Marked packed i) → (readPackedInt packed).1 = 5 ∧
      (readPackedInt packed).2.toNat = groupsOf packed 4) ∧
    checkedRead packed = some (readPackedInt packed) := by
  refine ⟨?_, readPackedInt_endless, checkedRead_eq packed⟩
  intro k ends
  obtain ⟨count, value⟩ := readPackedInt_ends ends
  refine ⟨count, value, groupsOf_lt packed ends.inside, ?_⟩
  intro other same
  obtain ⟨count', value'⟩ := readPackedInt_ends (ends.congr same)
  have sums : groupsOf other k = groupsOf packed k := by
    apply Finset.sum_congr rfl
    intro i member
    rw [same i (Finset.mem_range.mp member)]
  apply Prod.ext
  · rw [count, count']
  · apply BitVec.eq_of_toNat_eq
    rw [value, value', sums]

end NymphMqtt.ByteBauble
