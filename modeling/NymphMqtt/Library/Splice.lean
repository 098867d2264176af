import Mathlib.Algebra.GroupWithZero.Nat
import Mathlib.Data.List.Basic

/-! Lists with one entry taken out or replaced, and lists that are told apart by the parts of a
kind. -/

namespace NymphMqtt.Library.Splice

variable {α β : Type}

/-- The parts of a list around one of its entries. -/
theorem split_at {l : List α} {i : Nat} {x : α} (known : l[i]? = some x) :
    ∃ front back, l = front ++ x :: back ∧ l.eraseIdx i = front ++ back ∧
      ∀ y, l.set i y = front ++ y :: back := by
  obtain ⟨bound, at_⟩ := List.getElem?_eq_some_iff.mp known
  have whole : l = l.take i ++ x :: l.drop (i + 1) := by
    rw [← at_, ← List.drop_eq_getElem_cons bound, List.take_append_drop]
  exact ⟨l.take i, l.drop (i + 1), whole, List.eraseIdx_eq_take_drop_succ l i,
    fun y => List.set_eq_take_cons_drop y bound⟩

/-- An entry of a list with one more at its end. -/
theorem concat_cases {l : List α} {x y : α} {k : Nat} (known : (l ++ [x])[k]? = some y) :
    l[k]? = some y ∨ k = l.length ∧ y = x := by
  by_cases inside : k < l.length
  · rw [List.getElem?_append_left inside] at known
    exact .inl known
  · rw [List.getElem?_append_right (Nat.not_lt.mp inside)] at known
    obtain ⟨bound, rfl⟩ := List.getElem?_eq_some_iff.mp known
    have first : k - l.length = 0 := Nat.lt_one_iff.mp bound
    refine .inr ⟨by omega, ?_⟩
    simp only [first, List.getElem_cons_zero]

/-- Two views of a list that differ in the entry that is replaced. -/
theorem mapIdx_set {l : List α} {i : Nat} (y : α) {f g : Nat → α → β}
    (same : ∀ j, j ≠ i → f j = g j) : (l.set i y).mapIdx g = (l.mapIdx f).set i (g i y) := by
  apply List.ext_getElem?
  intro j
  rw [List.getElem?_mapIdx]
  by_cases here : i = j
  · subst here
    rw [List.getElem?_set_self', List.getElem?_set_self', List.getElem?_mapIdx]
    cases l[i]? <;> rfl
  · rw [List.getElem?_set_ne here, List.getElem?_set_ne here, List.getElem?_mapIdx,
      same j (Ne.symm here)]

/-- A view of a list that does not show that an entry was replaced. -/
theorem mapIdx_set_same {l : List α} {i : Nat} {x : α} (known : l[i]? = some x) {y : α}
    {f g : Nat → α → β} (same : ∀ j, j ≠ i → f j = g j) (here : g i y = f i x) :
    (l.set i y).mapIdx g = l.mapIdx f := by
  rw [mapIdx_set y same, here]
  apply List.ext_getElem?
  intro j
  by_cases at_ : i = j
  · subst at_
    rw [List.getElem?_set_self', List.getElem?_mapIdx, known]
    rfl
  · rw [List.getElem?_set_ne at_]

/-- Replacing an entry moves a sum by what the entry counts for. -/
theorem sum_map_set {l : List α} {i : Nat} {x : α} (known : l[i]? = some x) (y : α)
    (f : α → Nat) : ((l.set i y).map f).sum + f x = (l.map f).sum + f y := by
  obtain ⟨front, back, whole, -, replaced⟩ := split_at known
  rw [replaced, whole]
  simp only [List.map_append, List.map_cons, List.sum_append, List.sum_cons]
  omega

/-- Replacing an entry moves a count by what the entry counts for. -/
theorem countP_set_known {l : List α} {i : Nat} {x : α} (known : l[i]? = some x) (y : α)
    (p : α → Bool) : (l.set i y).countP p + (p x).toNat = l.countP p + (p y).toNat := by
  obtain ⟨front, back, whole, -, replaced⟩ := split_at known
  rw [replaced, whole]
  simp only [List.countP_append, List.countP_cons]
  cases p x <;> cases p y <;> simp only [Bool.toNat_false, Bool.toNat_true, if_true, Bool.false_eq_true,
    if_false] <;> omega

theorem getElem?_set_known {l : List α} {i : Nat} {x : α} (known : l[i]? = some x) (y : α)
    (j : Nat) : (l.set i y)[j]? = if j = i then some y else l[j]? := by
  obtain ⟨bound, -⟩ := List.getElem?_eq_some_iff.mp known
  by_cases same : j = i
  · rw [if_pos same, same, List.getElem?_set_self bound]
  · rw [if_neg same, List.getElem?_set_ne (Ne.symm same)]

/-- What a list begins with stays in its place. -/
theorem getElem?_grown {l l' : List α} (grown : l <+: l') {i : Nat} {x : α}
    (here : l[i]? = some x) : l'[i]? = some x := by
  obtain ⟨more, rfl⟩ := grown
  rw [List.getElem?_append_left (List.getElem?_eq_some_iff.mp here).1, here]

/-- An entry that gives more gives it to the whole. -/
theorem flatMap_set_perm {l : List α} {i : Nat} {x y : α} (known : l[i]? = some x)
    {f : α → List β} {more : List β} (grown : f y = f x ++ more) :
    ((l.set i y).flatMap f).Perm (l.flatMap f ++ more) := by
  obtain ⟨front, back, whole, -, replaced⟩ := split_at known
  rw [replaced, whole]
  simp only [List.flatMap_append, List.flatMap_cons, grown, List.append_assoc]
  exact (List.perm_append_comm.append_left _).append_left _

/-- Lists with the same entries of each kind. -/
theorem perm_of_filter [DecidableEq α] [DecidableEq β] {l l' : List α} (kind : α → β)
    (same : ∀ k, l.filter (fun x => kind x = k) = l'.filter fun x => kind x = k) : l.Perm l' := by
  rw [List.perm_iff_count]
  intro x
  have mine : ∀ m : List α, (m.filter fun y => kind y = kind x).count x = m.count x :=
    fun m => List.count_filter (decide_eq_true rfl)
  rw [← mine l, ← mine l', same]

variable [DecidableEq β] (r : β)

theorem count_eraseIdx {l : List β} {i : Nat} {x : β} (known : l[i]? = some x) :
    (l.eraseIdx i).count r + [x].count r = l.count r := by
  obtain ⟨front, back, whole, erased, -⟩ := split_at known
  have whole : l = front ++ ([x] ++ back) := whole
  rw [erased, whole]
  simp only [List.count_append]
  omega

/-- Replacing an entry moves a total by what the entry gives. -/
theorem count_flatMap_set {l : List α} {i : Nat} {x : α} (known : l[i]? = some x) (y : α)
    (f : α → List β) :
    ((l.set i y).flatMap f).count r + (f x).count r = (l.flatMap f).count r + (f y).count r := by
  obtain ⟨front, back, whole, -, replaced⟩ := split_at known
  rw [replaced, whole]
  simp only [List.flatMap_append, List.flatMap_cons, List.count_append]
  omega

end NymphMqtt.Library.Splice
