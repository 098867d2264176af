import Mathlib.Data.List.AList
import Mathlib.Data.List.Sort

/-! Tables with two habits of an ordered map: an insertion keeps the entry that is there,
and a walk visits the entries by key. -/

namespace NymphMqtt.Library.OrderedMap

variable {κ β : Type} [DecidableEq κ]

def insertNew (m : AList fun _ : κ => β) (k : κ) (v : β) : AList fun _ : κ => β :=
  if k ∈ m then m else m.insert k v

theorem mem_of_lookup {m : AList fun _ : κ => β} {k : κ} {v : β} (found : m.lookup k = some v) :
    k ∈ m :=
  AList.lookup_isSome.mp (by rw [found]; rfl)

theorem mem_insertNew {m : AList fun _ : κ => β} {k a : κ} {v : β} :
    a ∈ insertNew m k v ↔ a = k ∨ a ∈ m := by
  unfold insertNew
  split
  next old => exact ⟨.inr, fun either => either.elim (fun same => same ▸ old) id⟩
  next => exact AList.mem_insert m

/-- What was found before is found again. -/
theorem lookup_insertNew_old {m : AList fun _ : κ => β} {k a : κ} {v w : β}
    (found : m.lookup a = some w) : (insertNew m k v).lookup a = some w := by
  unfold insertNew
  split
  next => exact found
  next new =>
    have other : a ≠ k := fun same => new (same ▸ mem_of_lookup found)
    rw [AList.lookup_insert_ne other, found]

theorem lookup_insertNew_new {m : AList fun _ : κ => β} {k : κ} {v : β} (new : k ∉ m) :
    (insertNew m k v).lookup k = some v := by
  rw [insertNew, if_neg new, AList.lookup_insert]

/-- An entry is the one inserted or one that was there. -/
theorem lookup_insertNew_cases {m : AList fun _ : κ => β} {k a : κ} {v w : β}
    (found : (insertNew m k v).lookup a = some w) :
    m.lookup a = some w ∨ k ∉ m ∧ a = k ∧ w = v := by
  unfold insertNew at found
  split at found
  next => exact .inl found
  next new =>
    by_cases same : a = k
    · rw [same, AList.lookup_insert] at found
      exact .inr ⟨new, same, (Option.some_inj.mp found).symm⟩
    · rw [AList.lookup_insert_ne same] at found
      exact .inl found

/-- Two tables with the same entries. -/
def SameEntries (m m' : AList fun _ : κ => β) : Prop := ∀ k, m'.lookup k = m.lookup k

theorem SameEntries.refl (m : AList fun _ : κ => β) : SameEntries m m := fun _ => rfl

/-- An insertion is lost exactly where there is an entry already. -/
theorem sameEntries_insertNew {m : AList fun _ : κ => β} {k : κ} {v : β} :
    SameEntries m (insertNew m k v) ↔ k ∈ m := by
  constructor
  · intro same
    by_contra new
    have found := same k
    rw [lookup_insertNew_new new, AList.lookup_eq_none.mpr new] at found
    cases found
  · intro old
    rw [insertNew, if_pos old]
    exact .refl m

/-- The entries as a walk meets them. -/
def inOrder (le : κ → κ → Prop) [DecidableRel le] (m : AList fun _ : κ => β) : List (κ × β) :=
  (m.entries.map fun e => (e.1, e.2)).insertionSort fun a b => le a.1 b.1

theorem mem_inOrder {le : κ → κ → Prop} [DecidableRel le] {m : AList fun _ : κ => β} {k : κ} {v : β} :
    (k, v) ∈ inOrder le m ↔ m.lookup k = some v := by
  unfold inOrder
  rw [List.mem_insertionSort, List.mem_map, ← Option.mem_def, AList.mem_lookup_iff]
  constructor
  · intro ⟨e, listed, same⟩
    obtain ⟨rfl, rfl⟩ := Prod.mk.inj same
    exact listed
  · exact fun listed => ⟨⟨k, v⟩, listed, rfl⟩

end NymphMqtt.Library.OrderedMap
