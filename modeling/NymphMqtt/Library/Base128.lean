import Mathlib.Algebra.BigOperators.Intervals
import Mathlib.Algebra.BigOperators.Ring.Finset
import Mathlib.Data.Nat.Bitwise
import Mathlib.Tactic.Ring

/-! Base-128 integers with continuation marks: seven payload bits in each byte,
least significant group first, and the mark 128 on every byte another one follows. -/

namespace NymphMqtt.Library.Base128

/-- The shortest marked form of a number. -/
def encode (n : Nat) : List Nat :=
  if n < 128 then [n] else (n % 128 + 128) :: encode (n / 128)
termination_by n
decreasing_by omega

/-- Exactly `count` groups of a number, whether or not they can hold it. -/
def groups : (count n : Nat) → List Nat
  | 0, _ => []
  | 1, n => [n % 128]
  | count + 2, n => (n % 128 + 128) :: groups (count + 1) (n / 128)

/-- How many bytes the number at the front of a list takes, and its value. A list
that ends on a mark counts the byte that is missing. -/
def scan : List Nat → Nat × Nat
  | [] => (1, 0)
  | byte :: rest =>
      if byte < 128 then (1, byte)
      else ((scan rest).1 + 1, byte % 128 + 128 * (scan rest).2)

theorem scan_last {byte : Nat} (last : byte < 128) (rest : List Nat) : scan (byte :: rest) = (1, byte) :=
  if_pos last

theorem scan_marked {byte : Nat} (marked : ¬byte < 128) (rest : List Nat) :
    scan (byte :: rest) = ((scan rest).1 + 1, byte % 128 + 128 * (scan rest).2) :=
  if_neg marked

theorem scan_pos (l : List Nat) : 1 ≤ (scan l).1 := by
  cases l with
  | nil => exact Nat.le_refl 1
  | cons byte rest =>
    by_cases last : byte < 128
    · rw [scan_last last]
    · rw [scan_marked last]
      exact Nat.le_add_left 1 _

/-- Numbers that take one, two or three bytes. -/
theorem scan_one_iff {b0 n : Nat} (rest : List Nat) : scan (b0 :: rest) = (1, n) ↔ b0 < 128 ∧ b0 = n := by
  by_cases last : b0 < 128
  · rw [scan_last last, Prod.mk.injEq]
    exact ⟨fun h => ⟨last, h.2⟩, fun h => ⟨rfl, h.2⟩⟩
  · have pos := scan_pos rest
    rw [scan_marked last, Prod.mk.injEq]
    omega

/-- A number of more than one byte: its first byte is marked, and the others hold the rest. -/
theorem scan_next_iff {b0 count n : Nat} (some : 0 < count) (rest : List Nat) :
    scan (b0 :: rest) = (count + 1, n) ↔
      128 ≤ b0 ∧ ∃ value, scan rest = (count, value) ∧ b0 % 128 + 128 * value = n := by
  by_cases last : b0 < 128
  · rw [scan_last last, Prod.mk.injEq]
    omega
  · rw [scan_marked last, Prod.mk.injEq]
    constructor
    · intro ⟨next, value⟩
      exact ⟨Nat.not_lt.mp last, (scan rest).2, Prod.ext (Nat.succ.inj next) rfl, value⟩
    · rintro ⟨-, value, next, whole⟩
      rw [next]
      exact ⟨rfl, whole⟩

theorem scan_two_iff {b0 b1 n : Nat} (rest : List Nat) :
    scan (b0 :: b1 :: rest) = (2, n) ↔ 128 ≤ b0 ∧ b1 < 128 ∧ b0 % 128 + 128 * b1 = n := by
  refine (scan_next_iff Nat.one_pos (b1 :: rest)).trans (and_congr_right fun _ => ?_)
  simp only [scan_one_iff, and_assoc, exists_and_left, exists_eq_left']

theorem scan_three_iff {b0 b1 b2 n : Nat} (rest : List Nat) :
    scan (b0 :: b1 :: b2 :: rest) = (3, n) ↔
      128 ≤ b0 ∧ 128 ≤ b1 ∧ b2 < 128 ∧ b0 % 128 + 128 * (b1 % 128 + 128 * b2) = n := by
  refine (scan_next_iff Nat.two_pos (b1 :: b2 :: rest)).trans (and_congr_right fun _ => ?_)
  simp only [scan_two_iff, and_assoc, exists_and_left, exists_eq_left']

theorem encode_small {n : Nat} (small : n < 128) : encode n = [n] := by
  rw [encode, if_pos small]

theorem encode_large {n : Nat} (large : 128 ≤ n) :
    encode n = (n % 128 + 128) :: encode (n / 128) := by
  rw [encode, if_neg (by omega)]

theorem groups_length (count n : Nat) : (groups count n).length = count := by
  induction count generalizing n with
  | zero => rfl
  | succ count ih =>
    cases count with
    | zero => rfl
    | succ count => rw [groups, List.length_cons, ih]

theorem groups_lt (count n : Nat) : ∀ b ∈ groups count n, b < 256 := by
  induction count generalizing n with
  | zero => exact fun _ member => nomatch member
  | succ count ih =>
    cases count with
    | zero =>
      intro b member
      rw [groups, List.mem_singleton] at member
      omega
    | succ count =>
      intro b member
      rcases List.mem_cons.mp member with rfl | later
      · omega
      · exact ih (n / 128) b later

/-- Groups that are too few for the number stand for its remainder. -/
theorem scan_groups (count n : Nat) (rest : List Nat) :
    scan (groups (count + 1) n ++ rest) = (count + 1, n % 128 ^ (count + 1)) := by
  induction count generalizing n with
  | zero =>
    have small : n % 128 < 128 := Nat.mod_lt n (by decide)
    rw [groups, List.singleton_append, scan_last small, pow_one]
  | succ count ih =>
    have marked : ¬n % 128 + 128 < 128 := by omega
    have low : (n % 128 + 128) % 128 = n % 128 := by omega
    rw [groups, List.cons_append, scan_marked marked, ih, low, pow_succ' 128 (count + 1), Nat.mod_mul]

theorem scan_bounds (l : List Nat) (small : ∀ b ∈ l, b < 256) :
    (scan l).1 ≤ l.length + 1 ∧ (scan l).2 < 128 ^ l.length := by
  induction l with
  | nil => simp [scan]
  | cons b rest ih =>
    obtain ⟨count, value⟩ := ih (fun x hx => small x (by simp [hx]))
    simp only [scan, List.length_cons, Nat.pow_succ]
    have positive : 0 < 128 ^ rest.length := Nat.pow_pos (by decide)
    split
    · refine ⟨by simp only; omega, by simp only; omega⟩
    · refine ⟨by simp only; omega, by simp only; omega⟩

/-- A number that ends inside a list is not changed by what follows. -/
theorem scan_append {l : List Nat} (ends : (scan l).1 ≤ l.length) (rest : List Nat) :
    scan (l ++ rest) = scan l := by
  induction l with
  | nil => cases ends
  | cons byte l ih =>
    rw [List.cons_append]
    by_cases last : byte < 128
    · rw [scan_last last, scan_last last]
    · rw [scan_marked last] at ends
      rw [scan_marked last, scan_marked last, ih (Nat.le_of_succ_le_succ ends)]

theorem scan_all_marked {l : List Nat} (marked : ∀ b ∈ l, ¬b < 128) (rest : List Nat) :
    l.length < (scan (l ++ rest)).1 := by
  induction l with
  | nil => exact scan_pos rest
  | cons byte l ih =>
    have later := ih fun b member => marked b (List.mem_cons_of_mem byte member)
    rw [List.cons_append, scan_marked (marked byte List.mem_cons_self), List.length_cons]
    exact Nat.succ_lt_succ later

/-- A number ends inside a list at an unmarked byte. -/
theorem scan_ends_iff {l : List Nat} : (scan l).1 ≤ l.length ↔ ∃ b ∈ l, b < 128 := by
  constructor
  · intro ends
    by_contra none
    have beyond := scan_all_marked (fun b member last => none ⟨b, member, last⟩) []
    rw [List.append_nil] at beyond
    omega
  · intro ⟨b, member, last⟩
    induction l with
    | nil => cases member
    | cons byte l ih =>
      by_cases first : byte < 128
      · rw [scan_last first]
        exact Nat.le_add_left 1 _
      · have later : b ∈ l := (List.mem_cons.mp member).resolve_left (by
          rintro rfl
          exact first last)
        rw [scan_marked first]
        exact Nat.succ_le_succ (ih later)

/-- The groups of the first `count` bytes of a list, least significant first. -/
def groupSum (l : List Nat) (count : Nat) : Nat := ∑ i ∈ Finset.range count, l.getD i 0 % 128 * 128 ^ i

theorem groupSum_cons (byte : Nat) (l : List Nat) (count : Nat) :
    groupSum (byte :: l) (count + 1) = byte % 128 + 128 * groupSum l count := by
  have first : (byte :: l).getD 0 0 % 128 * 128 ^ 0 = byte % 128 := Nat.mul_one _
  have later : ∀ i, (byte :: l).getD (i + 1) 0 % 128 * 128 ^ (i + 1) =
      128 * (l.getD i 0 % 128 * 128 ^ i) := by
    intro i
    rw [List.getD_cons_succ, pow_succ]
    ring
  unfold groupSum
  rw [Finset.sum_range_succ', first, Finset.sum_congr rfl fun i _ => later i, ← Finset.mul_sum, Nat.add_comm]

theorem groupSum_lt (l : List Nat) (count : Nat) : groupSum l count < 128 ^ count := by
  induction count with
  | zero => exact Nat.one_pos
  | succ count ih =>
    have digit : l.getD count 0 % 128 ≤ 127 := Nat.le_of_lt_succ (Nat.mod_lt _ (by decide))
    have term := Nat.mul_le_mul_right (128 ^ count) digit
    unfold groupSum at ih ⊢
    rw [Finset.sum_range_succ, pow_succ]
    omega

/-- A number ends at the first byte without a mark, and it is the sum of its groups. -/
theorem scan_first {l : List Nat} {last : Nat} (inside : last < l.length)
    (marked : ∀ i < last, 128 ≤ l.getD i 0) (ends : l.getD last 0 < 128) :
    scan l = (last + 1, groupSum l (last + 1)) := by
  induction l generalizing last with
  | nil => cases inside
  | cons byte l ih =>
    cases last with
    | zero =>
      have small : byte < 128 := ends
      rw [scan_last small, groupSum_cons, Nat.mod_eq_of_lt small]
      rfl
    | succ last =>
      have first : ¬byte < 128 := Nat.not_lt.mpr (marked 0 (Nat.succ_pos last))
      have rest := ih (Nat.lt_of_succ_lt_succ inside)
        (fun i earlier => marked (i + 1) (Nat.succ_lt_succ earlier)) ends
      rw [scan_marked first, rest, groupSum_cons]

/-- Without such a byte the count goes one beyond the list. -/
theorem scan_endless {l : List Nat} (marked : ∀ i < l.length, 128 ≤ l.getD i 0) :
    scan l = (l.length + 1, groupSum l l.length) := by
  induction l with
  | nil => rfl
  | cons byte l ih =>
    have first : ¬byte < 128 := Nat.not_lt.mpr (marked 0 (Nat.succ_pos l.length))
    have rest := ih fun i inside => marked (i + 1) (Nat.succ_lt_succ inside)
    rw [scan_marked first, rest, List.length_cons, groupSum_cons]

/-- The fewest groups, at least one, that hold a number. -/
structure Fewest (n count : Nat) : Prop where
  some : 1 ≤ count
  holds : n < 128 ^ count
  least : ∀ fewer, 1 ≤ fewer → n < 128 ^ fewer → count ≤ fewer

/-- One group less does not hold the number. -/
theorem fewest_iff {n count : Nat} :
    Fewest n count ↔ n < 128 ^ count ∧ (count = 1 ∨ 2 ≤ count ∧ 128 ^ (count - 1) ≤ n) := by
  constructor
  · intro fewest
    have some := fewest.some
    refine ⟨fewest.holds, ?_⟩
    by_cases one : count = 1
    · exact .inl one
    · right
      refine ⟨by omega, ?_⟩
      by_contra less
      have smaller := fewest.least (count - 1) (by omega) (by omega)
      omega
  · intro ⟨holds, last⟩
    refine ⟨by omega, holds, fun fewer positive enough => ?_⟩
    by_contra less
    have short : 128 ^ fewer ≤ 128 ^ (count - 1) := Nat.pow_le_pow_right (by decide) (by omega)
    omega

theorem fewest_encode (n : Nat) : Fewest n (encode n).length := by
  induction n using encode.induct with
  | case1 n small =>
    rw [encode_small small, fewest_iff]
    exact ⟨small, .inl rfl⟩
  | case2 n large ih =>
    rw [fewest_iff] at ih
    rw [encode_large (Nat.not_lt.mp large), List.length_cons, fewest_iff, Nat.pow_succ',
      Nat.add_sub_cancel]
    obtain ⟨holds, last⟩ := ih
    refine ⟨by omega, .inr ?_⟩
    rcases last with one | ⟨more, least⟩
    · rw [one]
      omega
    · obtain ⟨count, succ⟩ := Nat.exists_eq_add_of_le' more
      rw [succ] at least ⊢
      change 128 ^ (count + 1) ≤ n / 128 at least
      rw [Nat.pow_succ' (n := count + 1)]
      omega

end NymphMqtt.Library.Base128
