import Mathlib.Data.Nat.Digits.Defs

/-! Fixed-length base-256 expansions, least significant byte first. -/

namespace NymphMqtt.Library.Base256

/-- The `count` lowest base-256 digits of a value. -/
def bytesOf : (count value : Nat) → List Nat
  | 0, _ => []
  | count + 1, value => value % 256 :: bytesOf count (value / 256)

@[simp] theorem bytesOf_length (count value : Nat) : (bytesOf count value).length = count := by
  induction count generalizing value with
  | zero => rfl
  | succ count ih => simp [bytesOf, ih]

theorem bytesOf_lt (count value : Nat) : ∀ b ∈ bytesOf count value, b < 256 := by
  induction count generalizing value with
  | zero => simp [bytesOf]
  | succ count ih =>
    intro b member
    rcases List.mem_cons.mp member with rfl | later
    · exact Nat.mod_lt _ (by decide)
    · exact ih _ b later

theorem bytesOf_zero (count : Nat) : bytesOf count 0 = List.replicate count 0 := by
  induction count with
  | zero => rfl
  | succ count ih => rw [bytesOf, Nat.zero_mod, Nat.zero_div, ih, List.replicate_succ]

/-- A number made from few digits has them in front. -/
theorem bytesOf_ofDigits {l : List Nat} (small : ∀ b ∈ l, b < 256) {count : Nat}
    (room : l.length ≤ count) :
    bytesOf count (Nat.ofDigits 256 l) = l ++ List.replicate (count - l.length) 0 := by
  induction l generalizing count with
  | nil => exact bytesOf_zero count
  | cons b l ih =>
    obtain ⟨count, rfl⟩ := Nat.exists_eq_add_one_of_ne_zero (show count ≠ 0 by
      rintro rfl
      cases room)
    have first : b < 256 := small b List.mem_cons_self
    have rest := ih (fun x member => small x (List.mem_cons_of_mem b member))
      (Nat.le_of_succ_le_succ room)
    rw [bytesOf, Nat.ofDigits_cons, Nat.add_mul_mod_self_left, Nat.mod_eq_of_lt first,
      Nat.add_mul_div_left _ _ (by decide : 0 < 256), Nat.div_eq_of_lt first, Nat.zero_add, rest,
      List.length_cons, Nat.add_sub_add_right, List.cons_append]

theorem bytesOf_eq_map (count value : Nat) :
    bytesOf count value = (List.range count).map fun i => value / 256 ^ i % 256 := by
  induction count generalizing value with
  | zero => rfl
  | succ count ih =>
    rw [bytesOf, ih, List.range_succ_eq_map, List.map_cons, List.map_map, pow_zero, Nat.div_one]
    congr 1
    apply List.map_congr_left
    intro i _
    rw [Function.comp_apply, Nat.succ_eq_add_one, pow_succ', Nat.div_div_eq_div_mul]

end NymphMqtt.Library.Base256
