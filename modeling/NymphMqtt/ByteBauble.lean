import NymphMqtt.Library.Base128
import NymphMqtt.Library.Base256

/-! The ByteBauble integer library: packed (variable-byte) integers, the host byte
order, and the conversions between host order and the global order. -/

namespace NymphMqtt
open NymphMqtt.Library

abbrev Byte := BitVec 8

inductive BBEndianness where
  | be
  | le
  deriving DecidableEq, Repr

/-- What the code inherits from its platform: the byte order of integers in memory,
and whether a plain `char` widens with its sign. -/
structure Host where
  endian : BBEndianness
  charSigned : Bool
  deriving DecidableEq, Repr

/-- The two stores `(uint16_t) c` and `(uint32_t) c` make of a `char`. -/
def Host.widenChar (host : Host) (width : Nat) (c : Byte) : BitVec width :=
  if host.charSigned then c.signExtend width else c.setWidth width

theorem Host.widenChar_toNat (host : Host) (c : Byte) :
    (host.widenChar 32 c).toNat =
      if host.charSigned ∧ 128 ≤ c.toNat then 4294967040 + c.toNat else c.toNat := by
  have byte := c.isLt
  unfold Host.widenChar
  cases host.charSigned with
  | false =>
    simp
    omega
  | true =>
    simp only [if_true, true_and, BitVec.toNat_signExtend, BitVec.toNat_setWidth,
      BitVec.msb_eq_decide]
    by_cases marked : 128 ≤ c.toNat
    · simp [marked]
      omega
    · simp [marked]
      omega

/-- The bytes of an integer at its address, lowest address first. -/
def Host.memory (host : Host) (count : Nat) {width : Nat} (value : BitVec width) : List Byte :=
  let low := (List.range count).map fun i => value.extractLsb' (8 * i) 8
  match host.endian with
  | .le => low
  | .be => low.reverse

/-- `*(uint16_t*) p`. -/
def Host.load16 (host : Host) (b0 b1 : Byte) : BitVec 16 :=
  match host.endian with
  | .le => b1 ++ b0
  | .be => b0 ++ b1

/-- `*(uint32_t*) p`. -/
def Host.load32 (host : Host) (b0 b1 b2 b3 : Byte) : BitVec 32 :=
  match host.endian with
  | .le => b3 ++ b2 ++ b1 ++ b0
  | .be => b0 ++ b1 ++ b2 ++ b3

/-! ### Byte order -/

structure ByteBauble where
  globalEndian : BBEndianness := .le
  hostEndian : BBEndianness := .le
  deriving DecidableEq, Repr

namespace ByteBauble

/-- The probe reads the byte at the address of the 16-bit integer 1. -/
def detectHostEndian (host : Host) : BBEndianness :=
  if (host.memory 2 (1 : BitVec 16)).head? = some 1 then .le else .be

def new (host : Host) : ByteBauble := { hostEndian := detectHostEndian host }

@[simp] theorem detectHostEndian_eq (host : Host) : detectHostEndian host = host.endian := by
  unfold detectHostEndian Host.memory
  cases host.endian <;> decide

def bswap16 (v : BitVec 16) : BitVec 16 := v.extractLsb' 0 8 ++ v.extractLsb' 8 8

def bswap64 (v : BitVec 64) : BitVec 64 :=
  v.extractLsb' 0 8 ++ v.extractLsb' 8 8 ++ v.extractLsb' 16 8 ++ v.extractLsb' 24 8 ++
    v.extractLsb' 32 8 ++ v.extractLsb' 40 8 ++ v.extractLsb' 48 8 ++ v.extractLsb' 56 8

def setGlobalEndianness (bb : ByteBauble) (endian : BBEndianness) : ByteBauble :=
  { bb with globalEndian := endian }

/-- `toGlobal` at `uint16_t`. -/
def toGlobal16 (bb : ByteBauble) (v : BitVec 16) (endian : BBEndianness) : BitVec 16 :=
  if endian = bb.globalEndian then v else bswap16 v

/-- `toGlobal` at `size_t`. -/
def toGlobal64 (bb : ByteBauble) (v : BitVec 64) (endian : BBEndianness) : BitVec 64 :=
  if endian = bb.globalEndian then v else bswap64 v

/-- `toHost` at `uint16_t`. -/
def toHost16 (bb : ByteBauble) (v : BitVec 16) (endian : BBEndianness) : BitVec 16 :=
  if endian = bb.hostEndian then v else bswap16 v

/-- Reading a big-endian pair works on either host. -/
theorem toHost16_load16 (host : Host) (b0 b1 : Byte) :
    (new host).toHost16 (host.load16 b0 b1) .be = b0 ++ b1 := by
  simp only [toHost16, new, detectHostEndian_eq]
  cases order : host.endian with
  | be => simp only [Host.load16, order, if_true]
  | le =>
    simp only [Host.load16, order, reduceCtorEq, if_false, bswap16,
      BitVec.extractLsb'_append_eq_right, BitVec.extractLsb'_append_eq_left]

/-! ### Packed integers -/

/-- The locals of the copy loops: output word, index into it, index into the source. -/
structure Copy where
  output : BitVec 32
  idx : Nat
  src : Nat
  deriving DecidableEq, Repr

def Copy.start : Copy := ⟨0, 0, 0⟩

/-- One pass of the inner loop. -/
def copyBit (source : BitVec 32) (s : Copy) : Copy :=
  if (source >>> s.src) &&& 1#32 = 1#32 then
    ⟨s.output ||| (1#32 <<< s.idx), s.idx + 1, s.src + 1⟩
  else ⟨s.output, s.idx + 1, s.src + 1⟩

def copyBits (source : BitVec 32) : Nat → Copy → Copy
  | 0, s => s
  | n + 1, s => copyBits source n (copyBit source s)

/-- The outer loop of `readPackedInt` with `n` passes left, at pass `i`. -/
def readGroups (packed : BitVec 32) : (n i : Nat) → Copy → Nat × BitVec 32
  | 0, i, s => (i, s.output)
  | n + 1, i, s =>
      let s := copyBits packed 7 s
      if (packed >>> s.src) &&& 1#32 = 0#32 then (i, s.output)
      else readGroups packed n (i + 1) { s with src := s.src + 1 }

/-- The number of bytes of the packed integer, and `output`. -/
def readPackedInt (packed : BitVec 32) : Nat × BitVec 32 :=
  let r := readGroups packed 4 0 .start
  (r.1 + 1, r.2)

/-- The outer loop of `writePackedInt` with `n` passes left. -/
def writeGroups (integer : BitVec 32) : Nat → Copy → BitVec 32
  | 0, s => s.output
  | n + 1, s =>
      let s := copyBits integer 7 s
      if 0 < n then
        writeGroups integer n ⟨s.output ||| (1#32 <<< s.idx), s.idx + 1, s.src⟩
      else s.output

/-- `totalBytes` of `writePackedInt`; zero reports a number out of range. -/
def packedBytes (integer : BitVec 32) : Nat :=
  if integer.toNat ≤ 0x80 then 1
  else if integer.toNat ≤ 0x4000 then 2
  else if integer.toNat ≤ 0x200000 then 3
  else if integer.toNat ≤ 0x10000000 then 4
  else 0

/-- The returned byte count, and `output`, which stays as it was out of range. -/
def writePackedInt (integer output : BitVec 32) : Nat × BitVec 32 :=
  if packedBytes integer = 0 then (0, output)
  else (packedBytes integer, writeGroups integer (packedBytes integer) .start)

/-! ### The copy loops in arithmetic -/

/-- `output |= (1UL << idx)` above the bits written so far adds that power of two. -/
theorem setBit_toNat (output : BitVec 32) (idx : Nat) (room : idx < 32)
    (fits : output.toNat < 2 ^ idx) :
    (output ||| (1#32 <<< idx)).toNat = output.toNat + 2 ^ idx := by
  have bit : (1#32 <<< idx).toNat = 2 ^ idx := by
    have small := Nat.pow_lt_pow_right (by decide : 1 < 2) room
    rw [BitVec.toNat_shiftLeft, BitVec.toNat_ofNat, Nat.shiftLeft_eq, Nat.mod_eq_of_lt]
    · simp
    · simpa using small
  have disjoint := Nat.two_pow_add_eq_or_of_lt fits 1
  rw [Nat.mul_one] at disjoint
  rw [BitVec.toNat_or, bit, Nat.or_comm, ← disjoint]
  omega

theorem copyBit_spec (source : BitVec 32) (s : Copy) (room : s.idx < 32)
    (fits : s.output.toNat < 2 ^ s.idx) :
    (copyBit source s).output.toNat =
      s.output.toNat + 2 ^ s.idx * (source.toNat / 2 ^ s.src % 2) := by
  have bit : ((source >>> s.src) &&& 1#32).toNat = source.toNat / 2 ^ s.src % 2 := by
    simp [Nat.shiftRight_eq_div_pow, Nat.and_one_is_mod]
  unfold copyBit
  split
  next set =>
    have one : source.toNat / 2 ^ s.src % 2 = 1 := by
      rw [← bit]; exact congrArg BitVec.toNat set
    rw [setBit_toNat s.output s.idx room fits, one, Nat.mul_one]
  next clear =>
    have zero : source.toNat / 2 ^ s.src % 2 = 0 := by
      have lt : source.toNat / 2 ^ s.src % 2 < 2 := Nat.mod_lt _ (by decide)
      have : source.toNat / 2 ^ s.src % 2 ≠ 1 := fun h =>
        clear (BitVec.eq_of_toNat_eq (by rw [← bit] at h; exact h))
      omega
    simp [zero]

@[simp] theorem copyBit_idx (source : BitVec 32) (s : Copy) :
    (copyBit source s).idx = s.idx + 1 := by
  unfold copyBit; split <;> rfl

@[simp] theorem copyBit_src (source : BitVec 32) (s : Copy) :
    (copyBit source s).src = s.src + 1 := by
  unfold copyBit; split <;> rfl

@[simp] theorem copyBits_idx (source : BitVec 32) (n : Nat) (s : Copy) :
    (copyBits source n s).idx = s.idx + n := by
  induction n generalizing s with
  | zero => rfl
  | succ n ih => rw [copyBits, ih, copyBit_idx]; omega

@[simp] theorem copyBits_src (source : BitVec 32) (n : Nat) (s : Copy) :
    (copyBits source n s).src = s.src + n := by
  induction n generalizing s with
  | zero => rfl
  | succ n ih => rw [copyBits, ih, copyBit_src]; omega

/-- `n` passes of the inner loop move `n` bits of the source to `idx` in the output. -/
theorem copyBits_spec (source : BitVec 32) (n : Nat) (s : Copy) (room : s.idx + n ≤ 32)
    (fits : s.output.toNat < 2 ^ s.idx) :
    (copyBits source n s).output.toNat =
      s.output.toNat + 2 ^ s.idx * (source.toNat / 2 ^ s.src % 2 ^ n) := by
  induction n generalizing s with
  | zero => simp [copyBits, Nat.mod_one]
  | succ n ih =>
    have head := copyBit_spec source s (by omega) fits
    have bit : source.toNat / 2 ^ s.src % 2 < 2 := Nat.mod_lt _ (by decide)
    have grown : (copyBit source s).output.toNat < 2 ^ (copyBit source s).idx := by
      rw [head, copyBit_idx, Nat.pow_succ]
      have : 2 ^ s.idx * (source.toNat / 2 ^ s.src % 2) ≤ 2 ^ s.idx * 1 :=
        Nat.mul_le_mul_left _ (by omega)
      omega
    rw [copyBits, ih _ (by rw [copyBit_idx]; omega) grown, head, copyBit_idx, copyBit_src]
    have split : source.toNat / 2 ^ s.src % 2 ^ (n + 1) =
        source.toNat / 2 ^ s.src % 2 + 2 * (source.toNat / 2 ^ (s.src + 1) % 2 ^ n) := by
      rw [Nat.pow_succ 2 s.src, ← Nat.div_div_eq_div_mul, Nat.pow_succ, Nat.mul_comm (2 ^ n) 2,
        Nat.mod_mul]
    rw [split, Nat.pow_succ]
    ring

theorem copyBits_fits (source : BitVec 32) (n : Nat) (s : Copy) (room : s.idx + n ≤ 32)
    (fits : s.output.toNat < 2 ^ s.idx) :
    (copyBits source n s).output.toNat < 2 ^ (s.idx + n) := by
  rw [copyBits_spec source n s room fits, Nat.pow_add]
  have chunk := Nat.mod_lt (source.toNat / 2 ^ s.src) (Nat.two_pow_pos n)
  have : 2 ^ s.idx * (source.toNat / 2 ^ s.src % 2 ^ n) ≤ 2 ^ s.idx * (2 ^ n - 1) :=
    Nat.mul_le_mul_left _ (by omega)
  have : 2 ^ s.idx * (2 ^ n - 1) + 2 ^ s.idx = 2 ^ s.idx * 2 ^ n := by
    rw [← Nat.mul_succ, Nat.succ_eq_add_one, Nat.sub_add_cancel (Nat.two_pow_pos n)]
  omega

/-- The test that ends the outer loop of the reader looks at the mark of the byte at `src`. -/
theorem followBit (packed : BitVec 32) (src : Nat) :
    ((packed >>> (src + 7)) &&& 1#32 = 0#32) ↔ packed.toNat / 2 ^ src % 256 < 128 := by
  have bit : ((packed >>> (src + 7)) &&& 1#32).toNat = packed.toNat / 2 ^ src / 128 % 2 := by
    simp [Nat.shiftRight_eq_div_pow, Nat.and_one_is_mod, Nat.pow_add, Nat.div_div_eq_div_mul]
  rw [← BitVec.toNat_inj, bit]
  simp only [BitVec.toNat_ofNat]
  omega

/-- From an aligned position on, the reader counts and sums what the scan of the
remaining bytes says. -/
theorem readGroups_spec (packed : BitVec 32) (n i : Nat) (s : Copy)
    (room : s.idx + 7 * n ≤ 32) (fits : s.output.toNat < 2 ^ s.idx) :
    (readGroups packed n i s).1 + 1 =
        i + (Base128.scan (Base256.bytesOf n (packed.toNat / 2 ^ s.src))).1 ∧
      (readGroups packed n i s).2.toNat = s.output.toNat +
        2 ^ s.idx * (Base128.scan (Base256.bytesOf n (packed.toNat / 2 ^ s.src))).2 := by
  induction n generalizing i s with
  | zero => simp [readGroups, Base256.bytesOf, Base128.scan]
  | succ n ih =>
    have copied := copyBits_spec packed 7 s (by omega) fits
    simp only [readGroups, copyBits_src, copyBits_idx, Base256.bytesOf, Base128.scan, followBit]
    by_cases last : packed.toNat / 2 ^ s.src % 256 < 128
    · have whole : packed.toNat / 2 ^ s.src % 2 ^ 7 = packed.toNat / 2 ^ s.src % 256 := by omega
      simp only [if_pos last, copied, whole, true_and]
    · have rest := ih (i + 1) ⟨(copyBits packed 7 s).output, s.idx + 7, s.src + 7 + 1⟩
        (by simp only; omega) (copyBits_fits packed 7 s (by omega) fits)
      have shifted : packed.toNat / 2 ^ (s.src + 7 + 1) = packed.toNat / 2 ^ s.src / 256 := by
        rw [Nat.add_assoc, Nat.pow_add, Nat.div_div_eq_div_mul]
      have group : packed.toNat / 2 ^ s.src % 256 % 128 = packed.toNat / 2 ^ s.src % 2 ^ 7 := by
        omega
      simp only [shifted] at rest
      simp only [if_neg last, group]
      refine ⟨by rw [rest.1]; omega, ?_⟩
      rw [rest.2, copied, Nat.pow_add]
      ring

theorem readPackedInt_count (packed : BitVec 32) :
    (readPackedInt packed).1 = (Base128.scan (Base256.bytesOf 4 packed.toNat)).1 := by
  have h := (readGroups_spec packed 4 0 .start (by decide) (by decide)).1
  simpa [readPackedInt, Copy.start] using h

theorem readPackedInt_output (packed : BitVec 32) :
    (readPackedInt packed).2.toNat = (Base128.scan (Base256.bytesOf 4 packed.toNat)).2 := by
  have h := (readGroups_spec packed 4 0 .start (by decide) (by decide)).2
  simpa [readPackedInt, Copy.start] using h

/-- The writer emits the marked groups of the integer, least significant first. -/
theorem writeGroups_spec (integer : BitVec 32) (n : Nat) (s : Copy)
    (room : s.idx + 8 * n ≤ 32) (fits : s.output.toNat < 2 ^ s.idx) :
    (writeGroups integer n s).toNat = s.output.toNat +
      2 ^ s.idx * Nat.ofDigits 256 (Base128.groups n (integer.toNat / 2 ^ s.src)) := by
  induction n generalizing s with
  | zero => simp [writeGroups, Base128.groups]
  | succ n ih =>
    have copied := copyBits_spec integer 7 s (by omega) fits
    have grown := copyBits_fits integer 7 s (by omega) fits
    cases n with
    | zero => simp [writeGroups, Base128.groups, copied]
    | succ n =>
      have mark := setBit_toNat (copyBits integer 7 s).output (s.idx + 7) (by omega) grown
      have rest := ih ⟨(copyBits integer 7 s).output ||| (1#32 <<< (s.idx + 7)), s.idx + 7 + 1,
        s.src + 7⟩ (by simp only; omega)
        (by rw [mark]; simp only [Nat.pow_succ] at grown ⊢; omega)
      have shifted : integer.toNat / 2 ^ (s.src + 7) = integer.toNat / 2 ^ s.src / 128 := by
        rw [Nat.pow_add, Nat.div_div_eq_div_mul]
      rw [writeGroups, if_pos (by omega)]
      simp only [copyBits_idx, copyBits_src] at rest ⊢
      rw [rest, mark, copied, shifted]
      simp only [Base128.groups, Nat.ofDigits_cons, Nat.pow_succ]
      ring

end ByteBauble

end NymphMqtt
