import NymphMqtt.HandleBinding
import Mathlib.Logic.Function.Iterate

/-! `NmqttClientListenerManager::stop`: the loop that walks its table by index, pass by
pass. -/

namespace NymphMqtt.Runtime
open NymphMqtt.Library OrderedMap Transition

/-! ### The loop -/

/-- In the loop, behind it, in a call through a null pointer, at a counter that ran over. -/
inductive StopPlace where
  | looping
  | left
  | nullListener
  | overflow
  deriving DecidableEq, Repr

/-- The counter, the handles that the index operator has entered with a null pointer, and the
listeners that were told to stop. -/
structure StopLoop where
  i : Nat
  nulls : List (BitVec 32)
  stopped : List ListenerId
  place : StopPlace
  deriving DecidableEq, Repr

namespace StopLoop
variable (listeners : AList fun _ : BitVec 32 => ListenerId)

def start : StopLoop := ⟨0, [], [], .looping⟩

/-- The test of the loop and one pass. The table grows where there is no entry. -/
def pass (s : StopLoop) : StopLoop :=
  match s.place with
  | .looping =>
      if s.i < listeners.keys.length + s.nulls.length then
        match listeners.lookup (BitVec.ofNat 32 s.i) with
        | some listener =>
            { s with
              i := s.i + 1
              stopped := s.stopped ++ [listener]
              place := if s.i + 1 < 2 ^ 31 then .looping else .overflow }
        | none =>
            { s with nulls := s.nulls.insert (BitVec.ofNat 32 s.i), place := .nullListener }
      else { s with place := .left }
  | _ => s

def run (passes : Nat) : StopLoop := (pass listeners)^[passes] start

end StopLoop

/-- The listeners of the table. -/
def registered (listeners : AList fun _ : BitVec 32 => ListenerId) : List ListenerId :=
  listeners.keys.filterMap listeners.lookup

/-- The loop is left, nothing was entered, and every listener of the table was told to stop
once. -/
def StopsAll (listeners : AList fun _ : BitVec 32 => ListenerId) : Prop :=
  ∃ passes, (StopLoop.run listeners passes).place = .left ∧
    (StopLoop.run listeners passes).nulls = [] ∧
    (StopLoop.run listeners passes).stopped.Perm (registered listeners) ∧
    (StopLoop.run listeners passes).stopped.Nodup

/-- The handles are 0 and the numbers behind it. -/
def Contiguous (keys : List (BitVec 32)) : Prop := ∀ i < keys.length, BitVec.ofNat 32 i ∈ keys

instance (keys : List (BitVec 32)) : Decidable (Contiguous keys) :=
  inferInstanceAs (Decidable (∀ i < keys.length, _))

namespace StopLoop
variable {listeners : AList fun _ : BitVec 32 => ListenerId}

/-! ### What a pass does -/

/-- All that a pass of the loop does: it stops the listener of its index, it calls through a
null pointer that it has entered, or it leaves. -/
inductive Passed (listeners : AList fun _ : BitVec 32 => ListenerId) (s : StopLoop) : StopLoop → Prop
  | stops {listener : ListenerId} : s.i < listeners.keys.length + s.nulls.length →
      listeners.lookup (BitVec.ofNat 32 s.i) = some listener → Passed listeners s { s with
        i := s.i + 1
        stopped := s.stopped ++ [listener]
        place := if s.i + 1 < 2 ^ 31 then .looping else .overflow }
  | enters : s.i < listeners.keys.length + s.nulls.length →
      BitVec.ofNat 32 s.i ∉ listeners → Passed listeners s { s with
        nulls := s.nulls.insert (BitVec.ofNat 32 s.i)
        place := .nullListener }
  | leaves : ¬s.i < listeners.keys.length + s.nulls.length →
      Passed listeners s { s with place := .left }

theorem pass_passed {s : StopLoop} (looping : s.place = .looping) :
    Passed listeners s (s.pass listeners) := by
  unfold pass
  rw [looping]
  dsimp only
  by_cases more : s.i < listeners.keys.length + s.nulls.length
  · rw [if_pos more]
    cases found : listeners.lookup (BitVec.ofNat 32 s.i) with
    | none => exact .enters more (AList.lookup_eq_none.mp found)
    | some listener => exact .stops more found
  · rw [if_neg more]
    exact .leaves more

theorem pass_ended {s : StopLoop} (ended : s.place ≠ .looping) : s.pass listeners = s := by
  unfold pass
  cases place : s.place with
  | looping => exact absurd place ended
  | _ => rfl

theorem run_succ (listeners : AList fun _ : BitVec 32 => ListenerId) (passes : Nat) :
    run listeners (passes + 1) = (run listeners passes).pass listeners :=
  Function.iterate_succ_apply' _ passes start

/-- While it goes on, the counter tells the passes. -/
theorem run_counted {passes : Nat} (looping : (run listeners passes).place = .looping) :
    (run listeners passes).i = passes := by
  induction passes with
  | zero => rfl
  | succ passes ih =>
    rw [run_succ] at looping ⊢
    by_cases before : (run listeners passes).place = .looping
    · have counted := ih before
      have passed := @pass_passed listeners _ before
      generalize (run listeners passes).pass listeners = t at looping passed
      cases passed with
      | stops => exact congrArg (· + 1) counted
      | enters => cases looping
      | leaves => cases looping
    · rw [pass_ended before] at looping
      exact absurd looping before

/-! ### What holds between two passes -/

/-- Every handle below the counter was found. -/
structure Walked (listeners : AList fun _ : BitVec 32 => ListenerId) (s : StopLoop) : Prop where
  found : ∀ i < s.i, BitVec.ofNat 32 i ∈ listeners
  stopped : s.stopped = (List.range s.i).filterMap fun i => listeners.lookup (BitVec.ofNat 32 i)
  within : s.i ≤ listeners.keys.length
  going : s.place = .looping → s.i < 2 ^ 31 ∧ s.nulls = []
  left : s.place = .left → s.i = listeners.keys.length ∧ s.i < 2 ^ 31 ∧ s.nulls = []

theorem walked_start : Walked listeners start :=
  ⟨nofun, rfl, Nat.zero_le _, fun _ => ⟨by decide, rfl⟩, nofun⟩

theorem Walked.passed {s t : StopLoop} (walked : Walked listeners s) (looping : s.place = .looping)
    (passed : Passed listeners s t) : Walked listeners t := by
  obtain ⟨small, none⟩ := walked.going looping
  have size : listeners.keys.length + s.nulls.length = listeners.keys.length := by rw [none]; rfl
  cases passed with
  | @stops listener more here =>
    rw [size] at more
    refine ⟨?_, ?_, more, ?_, ?_⟩
    · intro i earlier
      rcases Nat.lt_succ_iff_lt_or_eq.mp earlier with before | rfl
      · exact walked.found i before
      · exact mem_of_lookup here
    · change s.stopped ++ [listener] = _
      rw [walked.stopped, List.range_succ, List.filterMap_append]
      simp only [List.filterMap_cons, here, List.filterMap_nil]
    · intro goes
      refine ⟨?_, none⟩
      by_contra large
      dsimp only at goes
      rw [if_neg large] at goes
      cases goes
    · intro left
      dsimp only at left
      split at left
      · cases left
      · cases left
  | enters more absent => exact ⟨walked.found, walked.stopped, walked.within, nofun, nofun⟩
  | leaves last =>
    rw [size] at last
    have all : s.i = listeners.keys.length := Nat.le_antisymm walked.within (Nat.not_lt.mp last)
    exact ⟨walked.found, walked.stopped, walked.within, nofun, fun _ => ⟨all, small, none⟩⟩

theorem run_walked (listeners : AList fun _ : BitVec 32 => ListenerId) (passes : Nat) : Walked listeners (run listeners passes) := by
  induction passes with
  | zero => exact walked_start
  | succ passes ih =>
    rw [run_succ]
    by_cases looping : (run listeners passes).place = .looping
    · exact ih.passed looping (pass_passed looping)
    · rwa [pass_ended looping]

/-- The loop ends on every table. -/
theorem run_ends (listeners : AList fun _ : BitVec 32 => ListenerId) :
    (run listeners (listeners.keys.length + 1)).place ≠ .looping := by
  intro looping
  have within := (run_walked listeners (listeners.keys.length + 1)).within
  rw [run_counted looping] at within
  omega

/-- With all handles in place it goes on as far as the table does. -/
theorem run_looping (contiguous : Contiguous listeners.keys) {passes : Nat}
    (within : passes ≤ listeners.keys.length) (small : passes < 2 ^ 31) :
    (run listeners passes).place = .looping := by
  induction passes with
  | zero => rfl
  | succ passes ih =>
    have looping := ih (by omega) (by omega)
    have counted := run_counted looping
    have passed := @pass_passed listeners _ looping
    rw [run_succ]
    generalize (run listeners passes).pass listeners = t at passed
    cases passed with
    | stops => exact if_pos (by rwa [counted])
    | enters more absent =>
      rw [counted] at absent
      exact absurd (contiguous passes within) absent
    | leaves last =>
      rw [counted] at last
      omega

theorem run_left (contiguous : Contiguous listeners.keys) (small : listeners.keys.length < 2 ^ 31) :
    (run listeners (listeners.keys.length + 1)).place = .left := by
  have looping := run_looping contiguous le_rfl small
  have counted := run_counted looping
  have none := ((run_walked listeners listeners.keys.length).going looping).2
  have passed := @pass_passed listeners _ looping
  have size : listeners.keys.length + (run listeners listeners.keys.length).nulls.length =
      listeners.keys.length := by rw [none]; rfl
  rw [run_succ]
  generalize (run listeners listeners.keys.length).pass listeners = t at passed
  cases passed with
  | stops more =>
    rw [counted, size] at more
    omega
  | enters more =>
    rw [counted, size] at more
    omega
  | leaves => rfl

end StopLoop

/-! ### The tables that it walks right -/

section Tables
variable {listeners : AList fun _ : BitVec 32 => ListenerId}

/-- Keys that are contiguous are the numbers below their count. -/
theorem contiguous_perm {keys : List (BitVec 32)} (contiguous : Contiguous keys)
    (small : keys.length < 2 ^ 31) :
    ((List.range keys.length).map (BitVec.ofNat 32)).Perm keys := by
  have different : ((List.range keys.length).map (BitVec.ofNat 32)).Nodup := by
    apply List.Nodup.map_on _ List.nodup_range
    intro i i_lt j j_lt same
    have values := congrArg BitVec.toNat same
    rw [BitVec.toNat_ofNat, BitVec.toNat_ofNat] at values
    rw [List.mem_range] at i_lt j_lt
    omega
  have inside : (List.range keys.length).map (BitVec.ofNat 32) ⊆ keys := by
    intro key member
    obtain ⟨i, i_lt, rfl⟩ := List.mem_map.mp member
    exact contiguous i (List.mem_range.mp i_lt)
  apply (List.subperm_of_subset different inside).perm_of_length_le
  rw [List.length_map, List.length_range]

theorem walked_registered (contiguous : Contiguous listeners.keys)
    (small : listeners.keys.length < 2 ^ 31) :
    ((List.range listeners.keys.length).filterMap fun i =>
      listeners.lookup (BitVec.ofNat 32 i)).Perm (registered listeners) := by
  have keys := contiguous_perm contiguous small
  have mapped := keys.filterMap listeners.lookup
  rwa [List.filterMap_map] at mapped

/-- No two handles stand for one listener. -/
def Distinct (listeners : AList fun _ : BitVec 32 => ListenerId) : Prop :=
  ∀ handle handle' listener, listeners.lookup handle = some listener →
    listeners.lookup handle' = some listener → handle = handle'

theorem Distinct.registered (distinct : Distinct listeners) : (registered listeners).Nodup :=
  List.Nodup.filterMap distinct listeners.nodupKeys

theorem StopsAll.contiguous (all : StopsAll listeners) :
    Contiguous listeners.keys ∧ listeners.keys.length < 2 ^ 31 := by
  obtain ⟨passes, left, -⟩ := all
  have walked := StopLoop.run_walked listeners passes
  obtain ⟨count, small, -⟩ := walked.left left
  rw [count] at small
  refine ⟨?_, small⟩
  intro i inside
  exact walked.found i (inside.trans_eq count.symm)

theorem stopsAll_iff (distinct : Distinct listeners) : StopsAll listeners ↔
    Contiguous listeners.keys ∧ listeners.keys.length < 2 ^ 31 := by
  constructor
  · exact StopsAll.contiguous
  · intro ⟨contiguous, small⟩
    have left := StopLoop.run_left contiguous small
    have walked := StopLoop.run_walked listeners (listeners.keys.length + 1)
    obtain ⟨all, -, none⟩ := walked.left left
    have stopped := walked.stopped
    rw [all] at stopped
    have each := walked_registered contiguous small
    rw [← stopped] at each
    exact ⟨_, left, none, each, each.nodup_iff.mpr distinct.registered⟩

end Tables

/-! ### The calls that fill and empty the table -/

/-- A registration with `NmqttConnections`, an `addConnection` whose listener signals in time,
and a `removeConnection`. -/
inductive ManagerCall where
  | addSocket (ns : NymphSocket)
  | addConnection (handle : BitVec 32)
  | removeConnection (handle : BitVec 32)
  deriving DecidableEq, Repr

namespace Statics
variable {s t : Statics}

def manage (s : Statics) : ManagerCall → Option Statics
  | .addSocket ns => some (s.addSocket ns)
  | .addConnection handle =>
      match s.addConnection handle .ready with
      | (s, .returned true) => some s
      | _ => none
  | .removeConnection handle => some (s.removeConnection handle)

/-- The listeners of the table were started, each for its own handle. -/
structure Numbered (s : Statics) : Prop where
  started : ∀ handle listener, s.listeners.lookup handle = some listener → listener < s.started.length
  distinct : Distinct s.listeners

theorem numbered_new : Numbered .new := ⟨nofun, nofun⟩

theorem Numbered.addConnection {handle : BitVec 32} (numbered : s.Numbered)
    (called : s.addConnection handle .ready = (t, .returned true)) : t.Numbered := by
  unfold Statics.addConnection at called
  split at called
  next => cases called
  next ns known =>
    cases called
    constructor
    · intro other listener listed
      change listener < (s.started ++ _).length
      rw [List.length_append, List.length_singleton]
      rcases lookup_insertNew_cases listed with old | ⟨-, -, rfl⟩
      · exact Nat.lt_succ_of_lt (numbered.started other listener old)
      · exact Nat.lt_succ_self _
    · intro first second listener listed listed'
      rcases lookup_insertNew_cases listed with old | ⟨-, rfl, rfl⟩
      · rcases lookup_insertNew_cases listed' with old' | ⟨-, -, rfl⟩
        · exact numbered.distinct first second listener old old'
        · exact absurd (numbered.started first _ old) (lt_irrefl _)
      · rcases lookup_insertNew_cases listed' with old' | ⟨-, rfl, -⟩
        · exact absurd (numbered.started second _ old') (lt_irrefl _)
        · rfl

theorem Numbered.removeConnection (numbered : s.Numbered) (handle : BitVec 32) :
    (s.removeConnection handle).Numbered := by
  unfold Statics.removeConnection
  split
  next => exact numbered
  next stopped found =>
    have kept : ∀ other listener, (s.listeners.erase handle).lookup other = some listener →
        s.listeners.lookup other = some listener := by
      intro other listener listed
      by_cases same : other = handle
      · rw [same, AList.lookup_erase] at listed
        cases listed
      · rwa [AList.lookup_erase_ne same] at listed
    constructor
    · intro other listener listed
      change listener < (s.started.modify stopped _).length
      rw [List.length_modify]
      exact numbered.started other listener (kept other listener listed)
    · intro first second listener listed listed'
      exact numbered.distinct first second listener (kept first listener listed)
        (kept second listener listed')

theorem Numbered.manage {call : ManagerCall} (numbered : s.Numbered)
    (called : s.manage call = some t) : t.Numbered := by
  cases call with
  | addSocket ns =>
    cases called
    exact ⟨numbered.started, numbered.distinct⟩
  | addConnection handle =>
    unfold Statics.manage at called
    dsimp only at called
    split at called
    next s' added =>
      cases called
      exact numbered.addConnection added
    next => cases called
  | removeConnection handle =>
    cases called
    exact numbered.removeConnection handle

/-- `stop` is right on exactly the tables whose handles are 0 to their size, however they came
about. -/
theorem stop_all_iff {calls : List ManagerCall} (run : replay manage .new calls = some s) :
    StopsAll s.listeners ↔ Contiguous s.listeners.keys ∧ s.listeners.keys.length < 2 ^ 31 := by
  have numbered : s.Numbered :=
    replay_invariant (fun _ _ _ numbered called => numbered.manage called) numbered_new run
  exact stopsAll_iff numbered.distinct

/-- The handles 0 and 1. -/
theorem stop_all_two : ∃ s : Statics, s.listeners.keys.length = 2 ∧ StopsAll s.listeners := by
  have run : ∃ s : Statics, replay manage .new [.addSocket ⟨0, 0, 0, 0, 0, 0, 0⟩, .addConnection 0,
      .addSocket ⟨1, 1, 0, 0, 0, 0, 1⟩, .addConnection 1] = some s ∧
      s.listeners.keys.length = 2 ∧ Contiguous s.listeners.keys := by
    refine ⟨_, rfl, ?_⟩
    decide
  obtain ⟨s, run, two, contiguous⟩ := run
  exact ⟨s, two, (stop_all_iff run).mpr ⟨contiguous, by omega⟩⟩

/-- The first of two connections is removed: the loop enters a null pointer under the handle 0,
calls through it, and does not come to the listener that is left. -/
theorem stop_null : ∃ s : Statics, replay manage .new [.addSocket ⟨0, 0, 0, 0, 0, 0, 0⟩, .addConnection 0,
      .addSocket ⟨1, 1, 0, 0, 0, 0, 1⟩, .addConnection 1, .removeConnection 0] = some s ∧
    registered s.listeners = [1] ∧
    StopLoop.run s.listeners 1 = ⟨0, [0], [], .nullListener⟩ ∧ ¬StopsAll s.listeners := by
  refine ⟨_, rfl, by decide, by decide, fun all => ?_⟩
  exact absurd all.contiguous.1 (by decide)

/-! ### The walk as one fold -/

theorem stopAt_listeners {i : Nat} (called : s.stopAt i = some t) : t.listeners = s.listeners := by
  obtain ⟨listener, -, rfl⟩ := Option.map_eq_some_iff.mp called
  rfl

/-- The indices that are all found. -/
theorem foldlM_stopAt {indices : List Nat} (found : ∀ i ∈ indices, BitVec.ofNat 32 i ∈ s.listeners) :
    indices.foldlM stopAt s = some
      ((indices.filterMap fun i => s.listeners.lookup (BitVec.ofNat 32 i)).foldl stopListener s) := by
  induction indices generalizing s with
  | nil => rfl
  | cons i indices ih =>
    obtain ⟨here, later⟩ := List.forall_mem_cons.mp found
    obtain ⟨listener, listed⟩ := Option.isSome_iff_exists.mp (AList.lookup_isSome.mpr here)
    have called : s.stopAt i = some (s.stopListener listener) := by rw [stopAt, listed]; rfl
    rw [List.foldlM_cons, called, Option.bind_eq_bind, Option.bind_some,
      @ih (s.stopListener listener) later, List.filterMap_cons, listed, List.foldl_cons]
    rfl

theorem foldlM_stopAt_found {indices : List Nat} (called : indices.foldlM stopAt s = some t) :
    ∀ i ∈ indices, BitVec.ofNat 32 i ∈ s.listeners := by
  induction indices generalizing s with
  | nil => exact nofun
  | cons i indices ih =>
    obtain ⟨u, first, rest⟩ := Option.bind_eq_some_iff.mp called
    have here : BitVec.ofNat 32 i ∈ s.listeners := by
      obtain ⟨listener, listed, -⟩ := Option.map_eq_some_iff.mp first
      exact mem_of_lookup listed
    have later := ih rest
    rw [stopAt_listeners first] at later
    exact List.forall_mem_cons.mpr ⟨here, later⟩

theorem stop_isSome_iff : s.stop.isSome ↔ Contiguous s.listeners.keys := by
  constructor
  · intro came
    obtain ⟨t, called⟩ := Option.isSome_iff_exists.mp came
    intro i inside
    exact foldlM_stopAt_found called i (List.mem_range.mpr inside)
  · intro contiguous
    have called := @foldlM_stopAt s (List.range s.listeners.keys.length) fun i member =>
      contiguous i (List.mem_range.mp member)
    rw [stop, called]
    rfl

/-- Left, the loop has done to the listeners what `stop` does. -/
theorem stop_of_left {passes : Nat} (left : (StopLoop.run s.listeners passes).place = .left) :
    s.stop = some ((StopLoop.run s.listeners passes).stopped.foldl stopListener s) := by
  have walked := StopLoop.run_walked s.listeners passes
  obtain ⟨all, -⟩ := walked.left left
  rw [walked.stopped, all]
  apply foldlM_stopAt
  intro i member
  exact walked.found i (by rw [all]; exact List.mem_range.mp member)

end Statics
end NymphMqtt.Runtime
