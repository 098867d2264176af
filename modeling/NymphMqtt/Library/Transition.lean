import Mathlib.Algebra.GroupWithZero.Nat

/-! Labelled transition systems given by a partial step function, and what holds along
their runs. A run may be guarded: then each of its steps meets a condition on the state
before the step and on its label. -/

namespace NymphMqtt.Library.Transition

variable {σ α : Type}

/-- The state after a list of labels, if each of them is enabled in its turn. -/
def replay (step : σ → α → Option σ) : σ → List α → Option σ
  | s, [] => some s
  | s, a :: labels => (step s a).bind fun t => replay step t labels

/-- The states reached from `s` by steps that meet the guard. -/
inductive Run (step : σ → α → Option σ) (guard : σ → α → Prop) (s : σ) : σ → Prop
  | start : Run step guard s s
  | next {t u : σ} {a : α} : Run step guard s t → guard t a → step t a = some u → Run step guard s u

namespace Run
variable {step : σ → α → Option σ} {guard : σ → α → Prop} {s t : σ}

/-- What holds at the start and is kept by every guarded step holds along the run. -/
theorem invariant {inv : σ → Prop} (first : inv s)
    (keep : ∀ t a u, inv t → guard t a → step t a = some u → inv u) (run : Run step guard s t) :
    inv t := by
  induction run with
  | start => exact first
  | next _ allowed stepped ih => exact keep _ _ _ ih allowed stepped

theorem trans {u : σ} (front : Run step guard s t) (back : Run step guard t u) :
    Run step guard s u := by
  induction back with
  | start => exact front
  | next _ allowed stepped ih => exact ih.next allowed stepped

end Run

/-- The step function that is disabled where the guard fails. -/
def guarded (step : σ → α → Option σ) (guard : σ → α → Prop) [∀ s a, Decidable (guard s a)] :
    σ → α → Option σ :=
  fun s a => if guard s a then step s a else none

/-- What every step keeps holds after a replay. -/
theorem replay_invariant {step : σ → α → Option σ} {inv : σ → Prop}
    (keep : ∀ s a t, inv s → step s a = some t → inv t) {s t : σ} {labels : List α} (first : inv s)
    (replayed : replay step s labels = some t) : inv t := by
  induction labels generalizing s with
  | nil =>
    cases replayed
    exact first
  | cons a labels ih =>
    obtain ⟨u, stepped, rest⟩ := Option.bind_eq_some_iff.mp replayed
    exact ih (keep s a u first stepped) rest

/-- What each label adds to a measure adds up along a replay. -/
theorem replay_tally {step : σ → α → Option σ} {inv : σ → Prop} {measure : σ → Nat} {gain : α → Nat}
    (keep : ∀ s a t, inv s → step s a = some t → inv t)
    (tally : ∀ s a t, inv s → step s a = some t → measure t = measure s + gain a) {s t : σ}
    {labels : List α} (first : inv s) (replayed : replay step s labels = some t) :
    measure t = measure s + (labels.map gain).sum := by
  induction labels generalizing s with
  | nil =>
    cases replayed
    rfl
  | cons a labels ih =>
    obtain ⟨u, stepped, rest⟩ := Option.bind_eq_some_iff.mp replayed
    rw [ih (keep s a u first stepped) rest, tally s a u first stepped, List.map_cons, List.sum_cons,
      Nat.add_assoc]

/-- A list that each label appends to. -/
theorem replay_appends {β : Type} {step : σ → α → Option σ} {inv : σ → Prop} {view : σ → List β}
    {gain : α → List β} (keep : ∀ s a t, inv s → step s a = some t → inv t)
    (appends : ∀ s a t, inv s → step s a = some t → view t = view s ++ gain a) {s t : σ}
    {labels : List α} (first : inv s) (replayed : replay step s labels = some t) :
    view t = view s ++ labels.flatMap gain := by
  induction labels generalizing s with
  | nil =>
    cases replayed
    exact (List.append_nil _).symm
  | cons a labels ih =>
    obtain ⟨u, stepped, rest⟩ := Option.bind_eq_some_iff.mp replayed
    rw [ih (keep s a u first stepped) rest, appends s a u first stepped, List.flatMap_cons,
      List.append_assoc]

/-- Where the counted labels draw on a measure that only some labels fill up, their number is
bounded by what was filled in. -/
theorem replay_spends {step : σ → α → Option σ} {inv : σ → Prop} {measure : σ → Nat}
    {counted : α → Bool} {allows : α → Nat} (keep : ∀ s a t, inv s → step s a = some t → inv t)
    (spends : ∀ s a t, inv s → step s a = some t →
      measure t + (if counted a then 1 else 0) ≤ measure s + allows a) {s t : σ}
    {labels : List α} (first : inv s) (replayed : replay step s labels = some t) :
    measure t + labels.countP counted ≤ measure s + (labels.map allows).sum := by
  induction labels generalizing s with
  | nil =>
    cases replayed
    exact Nat.le_refl _
  | cons a labels ih =>
    obtain ⟨u, stepped, rest⟩ := Option.bind_eq_some_iff.mp replayed
    have later := ih (keep s a u first stepped) rest
    have now := spends s a u first stepped
    rw [List.countP_cons, List.map_cons, List.sum_cons]
    omega

/-- Where each state short of a goal has a step that brings it nearer, a replay leads there. -/
theorem exists_replay {step : σ → α → Option σ} {inv goal : σ → Prop} {allowed : α → Prop}
    {measure : σ → Nat} (nearer : ∀ s, inv s → ¬goal s →
      ∃ a t, allowed a ∧ step s a = some t ∧ inv t ∧ measure t < measure s) {s : σ} (first : inv s) :
    ∃ labels t, labels.length ≤ measure s ∧ (∀ a ∈ labels, allowed a) ∧
      replay step s labels = some t ∧ inv t ∧ goal t := by
  induction bound : measure s using Nat.strongRecOn generalizing s with
  | _ n ih =>
    by_cases there : goal s
    · exact ⟨[], s, Nat.zero_le _, fun _ member => absurd member List.not_mem_nil, rfl, first, there⟩
    · obtain ⟨a, u, may, stepped, kept, less⟩ := nearer s first there
      obtain ⟨labels, t, length, all, rest, last⟩ := ih (measure u) (bound ▸ less) kept rfl
      refine ⟨a :: labels, t, ?_, List.forall_mem_cons.mpr ⟨may, all⟩, ?_, last⟩
      · rw [List.length_cons]
        omega
      · rw [replay, stepped]
        exact rest

/-- Each step of a replay meets a condition on the state before it, its label and the state
after it. -/
def Along (step : σ → α → Option σ) (meets : σ → α → σ → Prop) : σ → List α → Prop
  | _, [] => True
  | s, a :: labels => ∀ t, step s a = some t → meets s a t ∧ Along step meets t labels

theorem along_cons {step : σ → α → Option σ} {meets : σ → α → σ → Prop} {s t : σ} {a : α}
    {labels : List α} (stepped : step s a = some t) :
    Along step meets s (a :: labels) ↔ meets s a t ∧ Along step meets t labels := by
  rw [Along, stepped]
  exact ⟨fun all => all t rfl, fun both u same => Option.some_inj.mp same ▸ both⟩

theorem replay_append (step : σ → α → Option σ) (s : σ) (front back : List α) :
    replay step s (front ++ back) = (replay step s front).bind fun t => replay step t back := by
  induction front generalizing s with
  | nil => rfl
  | cons a front ih =>
    rw [List.cons_append, replay, replay, Option.bind_assoc]
    apply Option.bind_congr
    intro t _
    exact ih t

/-- A condition holds along a replay if it holds of every step that is reached. -/
theorem along_iff {step : σ → α → Option σ} {meets : σ → α → σ → Prop} {s : σ} {labels : List α} :
    Along step meets s labels ↔ ∀ front a back, labels = front ++ a :: back →
      ∀ t u, replay step s front = some t → step t a = some u → meets t a u := by
  induction labels generalizing s with
  | nil =>
    refine iff_of_true trivial ?_
    intro front a back same
    cases front <;> cases same
  | cons b labels ih =>
    constructor
    · intro along front a back same t u reached stepped
      cases front with
      | nil =>
        obtain ⟨rfl, rfl⟩ := List.cons.inj same
        cases reached
        exact (along u stepped).1
      | cons c front =>
        obtain ⟨rfl, rfl⟩ := List.cons.inj same
        obtain ⟨v, first, rest⟩ := Option.bind_eq_some_iff.mp reached
        exact ih.mp (along v first).2 front a back rfl t u rest stepped
    · intro all v stepped
      refine ⟨all [] b labels rfl s v rfl stepped, ih.mpr ?_⟩
      intro front a back same t u reached
      apply all (b :: front) a back (by rw [same]; rfl) t u
      rw [replay, stepped]
      exact reached

/-- Where a step ends well just if it began so and met a condition, so does a replay. -/
theorem replay_decides {step : σ → α → Option σ} {inv good : σ → Prop} {meets : σ → α → σ → Prop}
    (keep : ∀ s a t, inv s → step s a = some t → inv t)
    (decides : ∀ s a t, inv s → step s a = some t → (good t ↔ good s ∧ meets s a t)) {s t : σ}
    {labels : List α} (first : inv s) (replayed : replay step s labels = some t) :
    good t ↔ good s ∧ Along step meets s labels := by
  induction labels generalizing s with
  | nil =>
    cases replayed
    exact (and_iff_left trivial).symm
  | cons a labels ih =>
    obtain ⟨u, stepped, rest⟩ := Option.bind_eq_some_iff.mp replayed
    rw [ih (keep s a u first stepped) rest, decides s a u first stepped, along_cons stepped, and_assoc]

/-- Two conditions that agree wherever an invariant holds agree along replays. -/
theorem along_congr {step : σ → α → Option σ} {inv : σ → Prop} {meets meets' : σ → α → σ → Prop}
    (keep : ∀ s a t, inv s → step s a = some t → inv t)
    (agree : ∀ s a t, inv s → step s a = some t → (meets s a t ↔ meets' s a t)) {s : σ}
    (first : inv s) (labels : List α) : Along step meets s labels ↔ Along step meets' s labels := by
  induction labels generalizing s with
  | nil => exact Iff.rfl
  | cons a labels ih =>
    apply forall_congr'
    intro t
    apply imp_congr_right
    intro stepped
    exact and_congr (agree s a t first stepped) (ih (keep s a t first stepped))

/-- A system that follows another one step for step follows its replays. -/
theorem replay_map {τ β : Type} {step : σ → α → Option σ} {step' : τ → β → Option τ} {f : σ → τ}
    {g : α → β} (follows : ∀ s a, step' (f s) (g a) = (step s a).map f) (s : σ) (labels : List α) :
    replay step' (f s) (labels.map g) = (replay step s labels).map f := by
  induction labels generalizing s with
  | nil => rfl
  | cons a labels ih =>
    rw [List.map_cons, replay, replay, follows]
    cases step s a with
    | none => rfl
    | some t => exact ih t

/-- A system that is followed step for step, or not at all, has its replays followed. -/
theorem replay_stutter {τ β : Type} {step : σ → α → Option σ} {step' : τ → β → Option τ} {f : σ → τ}
    (follows : ∀ s a t, step s a = some t → f t = f s ∨ ∃ b, step' (f s) b = some (f t)) {s t : σ}
    {labels : List α} (replayed : replay step s labels = some t) :
    ∃ labels', replay step' (f s) labels' = some (f t) := by
  induction labels generalizing s with
  | nil =>
    cases replayed
    exact ⟨[], rfl⟩
  | cons a labels ih =>
    obtain ⟨u, stepped, rest⟩ := Option.bind_eq_some_iff.mp replayed
    obtain ⟨labels', later⟩ := ih rest
    rcases follows s a u stepped with same | ⟨b, moved⟩
    · rw [same] at later
      exact ⟨labels', later⟩
    · refine ⟨b :: labels', ?_⟩
      rw [replay, moved]
      exact later

/-- A system that is followed under an invariant, step for step or not at all, has its replays
followed, with the same labels to be seen in them. -/
theorem replay_refines {τ β γ : Type} {step : σ → α → Option σ} {step' : τ → β → Option τ} {f : σ → τ}
    {inv : σ → Prop} {shown : α → List γ} {shown' : β → List γ}
    (keep : ∀ s a t, inv s → step s a = some t → inv t)
    (follows : ∀ s a t, inv s → step s a = some t →
      (f t = f s ∧ shown a = []) ∨ ∃ b, step' (f s) b = some (f t) ∧ shown' b = shown a) {s t : σ}
    {labels : List α} (first : inv s) (replayed : replay step s labels = some t) :
    ∃ labels', replay step' (f s) labels' = some (f t) ∧
      labels'.flatMap shown' = labels.flatMap shown := by
  induction labels generalizing s with
  | nil =>
    cases replayed
    exact ⟨[], rfl, rfl⟩
  | cons a labels ih =>
    obtain ⟨u, stepped, rest⟩ := Option.bind_eq_some_iff.mp replayed
    obtain ⟨labels', later, same⟩ := ih (keep s a u first stepped) rest
    rcases follows s a u first stepped with ⟨stays, hidden⟩ | ⟨b, moved, seen⟩
    · refine ⟨labels', stays ▸ later, ?_⟩
      rw [List.flatMap_cons, hidden, same, List.nil_append]
    · refine ⟨b :: labels', ?_, ?_⟩
      · rw [replay, moved]
        exact later
      · rw [List.flatMap_cons, List.flatMap_cons, seen, same]

theorem guarded_map {τ β : Type} {step : σ → α → Option σ} {step' : τ → β → Option τ} {f : σ → τ}
    {g : α → β} {guard : σ → α → Prop} {guard' : τ → β → Prop} [∀ s a, Decidable (guard s a)]
    [∀ s a, Decidable (guard' s a)] (follows : ∀ s a, step' (f s) (g a) = (step s a).map f)
    (guards : ∀ s a, guard' (f s) (g a) ↔ guard s a) (s : σ) (a : α) :
    guarded step' guard' (f s) (g a) = (guarded step guard s a).map f := by
  unfold guarded
  by_cases allowed : guard s a
  · rw [if_pos allowed, if_pos ((guards s a).mpr allowed), follows]
  · rw [if_neg allowed, if_neg (fun h => allowed ((guards s a).mp h)), Option.map_none]

theorem guarded_eq_some_iff {step : σ → α → Option σ} {guard : σ → α → Prop}
    [∀ s a, Decidable (guard s a)] {s t : σ} {a : α} :
    guarded step guard s a = some t ↔ guard s a ∧ step s a = some t :=
  Option.ite_none_right_eq_some

/-- Where the guard allows all labels, it changes no replay of them. -/
theorem replay_guarded (step : σ → α → Option σ) {guard : σ → α → Prop}
    [∀ s a, Decidable (guard s a)] {labels : List α} (allowed : ∀ a ∈ labels, ∀ s, guard s a) (s : σ) :
    replay (guarded step guard) s labels = replay step s labels := by
  induction labels generalizing s with
  | nil => rfl
  | cons a labels ih =>
    rw [List.forall_mem_cons] at allowed
    rw [replay, replay, guarded, if_pos (allowed.1 s)]
    exact Option.bind_congr fun t _ => ih allowed.2 t

/-- A replay of guarded steps is a guarded run. -/
theorem run_of_replay {step : σ → α → Option σ} {guard : σ → α → Prop}
    [∀ s a, Decidable (guard s a)] {s t : σ} {labels : List α}
    (replayed : replay (guarded step guard) s labels = some t) : Run step guard s t := by
  induction labels generalizing s with
  | nil =>
    cases replayed
    exact .start
  | cons a labels ih =>
    obtain ⟨u, stepped, rest⟩ := Option.bind_eq_some_iff.mp replayed
    unfold guarded at stepped
    split at stepped
    next allowed => exact (Run.start.next allowed stepped).trans (ih rest)
    next => cases stepped

end NymphMqtt.Library.Transition
