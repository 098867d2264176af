import Mathlib.Data.List.Basic
import Mathlib.Order.Defs.PartialOrder

/-! Which entries of a list come first. -/

namespace NymphMqtt.Library.Precedence

variable {α β : Type}

/-- Every `b` in the list comes after an `a`. -/
def Precedes (l : List α) (a b : α) : Prop := ∀ front back, l = front ++ b :: back → a ∈ front

theorem Precedes.of_sorted [Preorder α] {l : List α} (sorted : l.Pairwise (· < ·)) {a b : α}
    (member : a ∈ l) (less : a < b) : Precedes l a b := by
  rintro front back rfl
  rcases List.mem_append.mp member with before | after
  · exact before
  · rcases List.mem_cons.mp after with rfl | later
    · exact absurd less (lt_irrefl _)
    · have greater := List.rel_of_pairwise_cons (List.pairwise_append.mp sorted).2.1 later
      exact absurd (lt_trans less greater) (lt_irrefl _)

/-- Entries that the filter passes come in the same order in the whole list. -/
theorem Precedes.of_filter {l : List α} {p : α → Bool} {a b : α} (passed : p b = true)
    (filtered : Precedes (l.filter p) a b) : Precedes l a b := by
  rintro front back rfl
  apply List.mem_of_mem_filter
  apply filtered (front.filter p) (back.filter p)
  rw [List.filter_append, List.filter_cons_of_pos passed]

theorem Precedes.filter {l : List α} {p : α → Bool} {a b : α} (passed : p a = true)
    (whole : Precedes l a b) : Precedes (l.filter p) a b := by
  intro front back split
  obtain ⟨before, after, rfl, rfl, rest⟩ := List.filter_eq_append_iff.mp split
  obtain ⟨skipped, behind, rfl, none, -, -⟩ := List.filter_eq_cons_iff.mp rest
  have member := whole (before ++ skipped) behind (by rw [List.append_assoc])
  rcases List.mem_append.mp member with early | late
  · exact List.mem_filter.mpr ⟨early, passed⟩
  · exact absurd passed (none a late)

/-- What holds of a list holds of its beginning. -/
theorem Precedes.of_append {l more : List α} {a b : α} (whole : Precedes (l ++ more) a b) :
    Precedes l a b := by
  rintro front back rfl
  exact whole front (back ++ more) (by rw [List.append_assoc, List.cons_append])

end NymphMqtt.Library.Precedence
