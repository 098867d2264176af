import NymphMqtt.ClientRuntime
import NymphMqtt.Library.Transition

/-! The start of a client listener: `NmqttClientListenerManager::addConnection` waits on a
condition that the new thread signals after its first pass, and the thread deletes the condition
and its mutex when it leaves its loop. -/

namespace NymphMqtt.Runtime
open NymphMqtt.Library Transition

/-! ### Two threads -/

/-- How a pass of the loop in `run` comes to its end: at the test of `init`, at a `continue`, at
the `break`, or with an exception. -/
inductive Pass where
  | through
  | cut
  | closed
  | threw
  deriving DecidableEq, Repr

/-- Where the listener's thread is. It is `left` behind its two deletions. -/
inductive RunPlace where
  | created
  | looping
  | locking
  | signaling
  | unlocking
  | settling
  | deletingCondition
  | deletingMutex
  | left
  | threw
  deriving DecidableEq, Repr

/-- Where `addConnection` is, from the thread's start on. The flag tells whether the wait was
signaled. -/
inductive AddPlace where
  | starting
  | entering
  | waiting
  | relocking (signaled : Bool)
  | unlocking (signaled : Bool)
  | inserting
  | returned (value : Bool)
  | threw
  deriving DecidableEq, Repr

inductive Holder where
  | listener
  | manager
  deriving DecidableEq, Repr

inductive StartEvent where
  | signaled
  | timedOut
  deriving DecidableEq, Repr

/-- What the manager's table has under the handle: this listener, or one that another connection was
entered with. -/
inductive Entry where
  | own
  | other
  deriving DecidableEq, Repr

/-- `inserted` tells, once `addConnection` has called `insert`, whether it made the entry. `uses` tells
for each use of the condition or of its mutex whether the object was alive, `log` which of the two
ends of a wait came, in order. -/
structure StartUp where
  listener : RunPlace
  manager : AddPlace
  init : Bool
  listen : Bool
  mutex : Option Holder
  conditionAlive : Bool
  mutexAlive : Bool
  entry : Option Entry
  inserted : Option Bool
  uses : List Bool
  log : List StartEvent
  deriving DecidableEq, Repr

/-- The last three are other threads at the table: `NmqttClientListenerManager::stop`,
`removeConnection` for this handle, and an `insert` under it. -/
inductive StartStep where
  | pass (outcome : Pass)
  | listener
  | manager
  | startThrew
  | timeOut
  | stop
  | remove
  | insertOther
  deriving DecidableEq, Repr

namespace StartUp

/-- The mutex is locked and the listener constructed. -/
def start (entry : Option Entry) : StartUp :=
  ⟨.created, .starting, true, true, some .manager, true, true, entry, none, [], []⟩

def useCondition (s : StartUp) : StartUp := { s with uses := s.uses ++ [s.conditionAlive] }

def useMutex (s : StartUp) : StartUp := { s with uses := s.uses ++ [s.mutexAlive] }

/-- One pass while `listen` is set. -/
def passStep (s : StartUp) (outcome : Pass) : Option StartUp :=
  if s.listener = .looping ∧ s.listen = true then
    match outcome with
    | .through => some { s with listener := if s.init then .locking else .looping }
    | .cut => some s
    | .closed => some { s with listener := .deletingCondition }
    | .threw => some { s with listener := .threw }
  else none

def listenerStep (s : StartUp) : Option StartUp :=
  match s.listener with
  | .looping => if s.listen then none else some { s with listener := .deletingCondition }
  | .locking =>
      if s.mutex = none then
        some { s.useMutex with listener := .signaling, mutex := some .listener }
      else none
  -- A signal wakes who waits, and nobody else.
  | .signaling =>
      some { s.useCondition with
        listener := .unlocking
        manager := if s.manager = .waiting then .relocking true else s.manager
        log := s.log ++ [.signaled] }
  | .unlocking => some { s.useMutex with listener := .settling, mutex := none }
  | .settling => some { s with listener := .looping, init := false }
  | .deletingCondition => some { s with listener := .deletingMutex, conditionAlive := false }
  | .deletingMutex => some { s with listener := .left, mutexAlive := false }
  | .created | .left | .threw => none

/-- `listeners.insert`, which keeps an entry that is there already. -/
def insert (s : StartUp) (entry : Entry) : StartUp := { s with entry := s.entry.or (some entry) }

/-- `stop()` of the listener that the table has under the handle. -/
def stopListed (s : StartUp) : StartUp :=
  { s with listen := if s.entry = some .own then false else s.listen }

/-- `tryWait` gives the mutex up as it begins to wait, and takes it again before it returns. -/
def managerStep (s : StartUp) : Option StartUp :=
  match s.manager with
  | .starting => some { s with listener := .looping, manager := .entering }
  | .entering => some { s.useCondition.useMutex with manager := .waiting, mutex := none }
  | .relocking signaled =>
      if s.mutex = none then
        some { s.useMutex with manager := .unlocking signaled, mutex := some .manager }
      else none
  | .unlocking signaled =>
      some { s.useMutex with
        manager := if signaled then .inserting else .returned false
        mutex := none }
  | .inserting =>
      some { s.insert .own with manager := .returned true, inserted := some s.entry.isNone }
  | .waiting | .returned _ | .threw => none

/-- A wait that runs out takes itself off the condition. -/
def timeOutStep (s : StartUp) : Option StartUp :=
  if s.manager = .waiting then
    some { s.useCondition with manager := .relocking false, log := s.log ++ [.timedOut] }
  else none

def step (s : StartUp) : StartStep → Option StartUp
  | .pass outcome => s.passStep outcome
  | .listener => s.listenerStep
  | .manager => s.managerStep
  | .startThrew => if s.manager = .starting then some { s with manager := .threw } else none
  | .timeOut => s.timeOutStep
  | .stop => some s.stopListed
  | .remove => some { s.stopListed with entry := none }
  | .insertOther => some (s.insert .other)

/-! ### What a step does -/

/-- All that a step does. -/
inductive Change (s : StartUp) : StartStep → StartUp → Prop
  | passes (outcome : Pass) (place : RunPlace) : s.listener = .looping →
      place ∈ [.looping, .locking, .deletingCondition, .threw] →
      (place = .locking → s.init = true) → Change s (.pass outcome) { s with listener := place }
  | leaves : s.listener = .looping → s.listen = false →
      Change s .listener { s with listener := .deletingCondition }
  | locks : s.listener = .locking → s.mutex = none →
      Change s .listener { s.useMutex with listener := .signaling, mutex := some .listener }
  | signals : s.listener = .signaling →
      Change s .listener { s.useCondition with
        listener := .unlocking
        manager := if s.manager = .waiting then .relocking true else s.manager
        log := s.log ++ [.signaled] }
  | unlocks : s.listener = .unlocking →
      Change s .listener { s.useMutex with listener := .settling, mutex := none }
  | settles : s.listener = .settling →
      Change s .listener { s with listener := .looping, init := false }
  | deletesCondition : s.listener = .deletingCondition →
      Change s .listener { s with listener := .deletingMutex, conditionAlive := false }
  | deletesMutex : s.listener = .deletingMutex →
      Change s .listener { s with listener := .left, mutexAlive := false }
  | starts : s.manager = .starting →
      Change s .manager { s with listener := .looping, manager := .entering }
  | enters : s.manager = .entering →
      Change s .manager { s.useCondition.useMutex with manager := .waiting, mutex := none }
  | relocks (signaled : Bool) : s.manager = .relocking signaled → s.mutex = none →
      Change s .manager { s.useMutex with manager := .unlocking signaled, mutex := some .manager }
  | returnsFalse : s.manager = .unlocking false →
      Change s .manager { s.useMutex with manager := .returned false, mutex := none }
  | unlocksToInsert : s.manager = .unlocking true →
      Change s .manager { s.useMutex with manager := .inserting, mutex := none }
  | inserts : s.manager = .inserting →
      Change s .manager { s.insert .own with
        manager := .returned true
        inserted := some s.entry.isNone }
  | startThrew : s.manager = .starting → Change s .startThrew { s with manager := .threw }
  | timesOut : s.manager = .waiting →
      Change s .timeOut { s.useCondition with
        manager := .relocking false
        log := s.log ++ [.timedOut] }
  | stops : Change s .stop s.stopListed
  | removes : Change s .remove { s.stopListed with entry := none }
  | insertsOther : Change s .insertOther (s.insert .other)

theorem passStep_change {s t : StartUp} {outcome : Pass} (stepped : s.passStep outcome = some t) :
    Change s (.pass outcome) t := by
  simp only [passStep, Option.ite_none_right_eq_some] at stepped
  obtain ⟨⟨looping, -⟩, rest⟩ := stepped
  cases outcome with
  | through =>
    cases rest
    refine .passes .through _ looping ?_ ?_
    · cases s.init <;> decide
    · intro locks
      by_contra settled
      rw [if_neg settled] at locks
      cases locks
  | cut =>
    cases rest
    have same := Change.passes (s := s) .cut .looping looping (by decide) (fun locks => by cases locks)
    rw [← looping] at same
    exact same
  | closed =>
    cases rest
    exact .passes .closed _ looping (by decide) (fun locks => by cases locks)
  | threw =>
    cases rest
    exact .passes .threw _ looping (by decide) (fun locks => by cases locks)

theorem listenerStep_change {s t : StartUp} (stepped : s.listenerStep = some t) :
    Change s .listener t := by
  unfold listenerStep at stepped
  split at stepped
  next here =>
    split at stepped
    next => cases stepped
    next stopped =>
      cases stepped
      exact .leaves here (eq_false_of_ne_true stopped)
  next here =>
    split at stepped
    next free =>
      cases stepped
      exact .locks here free
    next => cases stepped
  next here => cases stepped; exact .signals here
  next here => cases stepped; exact .unlocks here
  next here => cases stepped; exact .settles here
  next here => cases stepped; exact .deletesCondition here
  next here => cases stepped; exact .deletesMutex here
  next => cases stepped
  next => cases stepped
  next => cases stepped

theorem managerStep_change {s t : StartUp} (stepped : s.managerStep = some t) :
    Change s .manager t := by
  unfold managerStep at stepped
  split at stepped
  next here => cases stepped; exact .starts here
  next here => cases stepped; exact .enters here
  next signaled here =>
    split at stepped
    next free =>
      cases stepped
      exact .relocks signaled here free
    next => cases stepped
  next signaled here =>
    cases stepped
    cases signaled with
    | false => exact .returnsFalse here
    | true => exact .unlocksToInsert here
  next here => cases stepped; exact .inserts here
  next => cases stepped
  next => cases stepped
  next => cases stepped

theorem step_change {s t : StartUp} {l : StartStep} (stepped : s.step l = some t) : Change s l t := by
  cases l with
  | pass outcome => exact passStep_change stepped
  | listener => exact listenerStep_change stepped
  | manager => exact managerStep_change stepped
  | startThrew =>
    simp only [step, Option.ite_none_right_eq_some, Option.some.injEq] at stepped
    obtain ⟨here, rfl⟩ := stepped
    exact .startThrew here
  | timeOut =>
    simp only [step, timeOutStep, Option.ite_none_right_eq_some, Option.some.injEq] at stepped
    obtain ⟨here, rfl⟩ := stepped
    exact .timesOut here
  | stop =>
    cases stepped
    exact .stops
  | remove =>
    cases stepped
    exact .removes
  | insertOther =>
    cases stepped
    exact .insertsOther

end StartUp

/-! ### Signal and time-out -/

/-- `addConnection` holds the mutex. -/
def AddPlace.holds : AddPlace → Bool
  | .starting | .entering | .unlocking _ | .threw => true
  | _ => false

def RunPlace.holds : RunPlace → Bool
  | .signaling | .unlocking => true
  | _ => false

/-- How the wait of `addConnection` ended, where it has. -/
def AddPlace.ending : AddPlace → Option Bool
  | .relocking signaled | .unlocking signaled => some signaled
  | .inserting => some true
  | .returned value => some value
  | .starting | .entering | .waiting | .threw => none

namespace StartUp

def eventOf (signaled : Bool) : StartEvent := if signaled then .signaled else .timedOut

/-- Each thread holds the mutex where it should, and the wait ended with the event that came
first. The listener is in the table only by the manager's insertion, and is stopped through it
only. -/
structure Decided (s : StartUp) : Prop where
  manager : s.mutex = some .manager ↔ s.manager.holds = true
  listener : s.mutex = some .listener ↔ s.listener.holds = true
  first : s.log.head? = s.manager.ending.map eventOf
  inserted : s.inserted.isSome = true ↔ s.manager = .returned true
  own : s.entry = some .own → s.inserted = some true
  listen : s.listen = false → s.inserted = some true

theorem decided_start {entry : Option Entry} (others : entry ≠ some .own) :
    (start entry).Decided := by
  have none : ¬((none : Option Bool).isSome = true) := by decide
  refine ⟨iff_of_true rfl rfl, ?_, rfl, ?_, fun own => absurd own others, fun stopped => by cases stopped⟩
  · exact iff_of_false (fun same => by cases same) (fun holds => by cases holds)
  · exact iff_of_false none (fun at_ => by cases at_)

theorem head_append {l : List StartEvent} {e f : StartEvent} (some : l.head? = some e) :
    (l ++ [f]).head? = Option.some e := by
  cases l with
  | nil => cases some
  | cons g l => exact some

namespace Decided
variable {s t : StartUp} (decided : s.Decided)
include decided

/-- The listener moves without touching the mutex, or something else happens that no field sees. -/
theorem congr (mutex : t.mutex = s.mutex) (listener : t.listener.holds = s.listener.holds)
    (manager : t.manager = s.manager) (log : t.log = s.log) (inserted : t.inserted = s.inserted)
    (own : t.entry = some .own → s.entry = some .own)
    (listen : t.listen = false → s.listen = false ∨ s.entry = some .own) : t.Decided where
  manager := by rw [mutex, manager]; exact decided.manager
  listener := by rw [mutex, listener]; exact decided.listener
  first := by rw [log, manager]; exact decided.first
  inserted := by rw [inserted, manager]; exact decided.inserted
  own := fun is => inserted.trans (decided.own (own is))
  listen := fun stopped => inserted.trans ((listen stopped).elim decided.listen decided.own)

/-- The manager moves with the mutex free or in its own hands, before and after, and not to its last
place. -/
theorem moves (listener : t.listener.holds = s.listener.holds) (before : s.mutex ≠ some .listener)
    (after : t.mutex = if t.manager.holds then some .manager else none)
    (log : t.log.head? = t.manager.ending.map eventOf)
    (short : s.manager ≠ .returned true) (short' : t.manager ≠ .returned true) (inserted : t.inserted = s.inserted)
    (entry : t.entry = s.entry) (listen : t.listen = s.listen) : t.Decided where
  manager := by
    rw [after]
    cases t.manager.holds <;> decide
  listener := by
    rw [after, listener]
    have idle : ¬s.listener.holds = true := fun holds => before (decided.listener.mpr holds)
    refine iff_of_false ?_ idle
    cases t.manager.holds <;> decide
  first := log
  inserted := by
    rw [inserted]
    exact iff_of_false (fun is => short (decided.inserted.mp is)) short'
  own := by rw [entry, inserted]; exact decided.own
  listen := by rw [listen, inserted]; exact decided.listen

/-- Before its end `addConnection` has not come to insert. -/
theorem uninserted {place : AddPlace} (at_ : s.manager = place) (other : place ≠ .returned true) :
    s.inserted = none := by
  by_contra is
  exact other (at_.symm.trans (decided.inserted.mp (Option.isSome_iff_ne_none.mpr is)))

theorem ended {place : AddPlace} (at_ : s.manager = place) :
    s.log.head? = place.ending.map eventOf := by
  rw [← at_]
  exact decided.first

/-- Before its wait is over the manager has seen no event. -/
theorem quiet (waits : s.manager.ending = none) : s.log = [] := by
  have first := decided.first
  rw [waits] at first
  exact List.head?_eq_none_iff.mp first

theorem signals (here : s.listener = .signaling) : Decided { s.useCondition with
      listener := .unlocking
      manager := if s.manager = .waiting then .relocking true else s.manager
      log := s.log ++ [.signaled] } := by
  have held := decided.listener.mpr (congrArg RunPlace.holds here)
  by_cases waits : s.manager = .waiting
  · rw [if_pos waits]
    have empty := decided.quiet (congrArg AddPlace.ending waits)
    refine ⟨?_, iff_of_true held rfl, ?_, ?_, decided.own, decided.listen⟩
    · exact iff_of_false (fun manager => by cases held.symm.trans manager) (fun holds => by cases holds)
    · simp only [empty]
      rfl
    · rw [show s.useCondition.inserted = none from decided.uninserted waits (by decide)]
      exact iff_of_false (by decide) (fun at_ => by cases at_)
  · rw [if_neg waits]
    refine ⟨decided.manager, iff_of_true held rfl, ?_, decided.inserted, decided.own, decided.listen⟩
    have first := decided.first
    change (s.log ++ [StartEvent.signaled]).head? = s.manager.ending.map eventOf
    cases at_ : s.manager.ending with
    | some signaled =>
      rw [at_] at first
      exact head_append first
    | none =>
      -- Before the wait the manager holds the mutex, so there is no signal.
      have holds : s.manager.holds = true := by
        cases place : s.manager with
        | waiting => exact absurd place waits
        | starting | entering | threw => rfl
        | relocking | unlocking | inserting | returned =>
          rw [place] at at_
          cases at_
      cases held.symm.trans (decided.manager.mpr holds)

theorem change {l : StartStep} (change : Change s l t) : t.Decided := by
  have free {place : AddPlace} (at_ : s.manager = place) (holds : place.holds = true) :
      s.mutex ≠ some .listener := by
    rw [decided.manager.mpr (at_ ▸ holds)]
    decide
  cases change with
  | passes outcome place here among =>
    refine decided.congr rfl ?_ rfl rfl rfl id .inl
    simp only [List.mem_cons, List.not_mem_nil, or_false] at among
    rw [here]
    rcases among with rfl | rfl | rfl | rfl <;> rfl
  | leaves here | settles here | deletesCondition here | deletesMutex here =>
    refine decided.congr rfl ?_ rfl rfl rfl id .inl
    rw [here]
    rfl
  | locks here none =>
    refine ⟨?_, iff_of_true rfl rfl, decided.first, decided.inserted, decided.own, decided.listen⟩
    refine iff_of_false (fun same => by cases same) (fun holds => ?_)
    cases none.symm.trans (decided.manager.mpr holds)
  | signals here => exact decided.signals here
  | unlocks here =>
    have held := decided.listener.mpr (congrArg RunPlace.holds here)
    refine ⟨?_, iff_of_false (fun same => by cases same) (fun holds => by cases holds),
      decided.first, decided.inserted, decided.own, decided.listen⟩
    refine iff_of_false (fun same => by cases same) (fun holds => ?_)
    cases held.symm.trans (decided.manager.mpr holds)
  | starts here =>
    have idle : s.listener.holds = false :=
      eq_false_of_ne_true fun holds => free here rfl (decided.listener.mpr holds)
    refine decided.moves idle.symm (free here rfl) ?_ ?_ (by rw [here]; intro same; cases same)
      (by intro same; cases same) rfl rfl rfl
    · exact decided.manager.mpr (congrArg AddPlace.holds here)
    · exact congrArg List.head? (decided.quiet (congrArg AddPlace.ending here))
  | enters here =>
    refine decided.moves rfl (free here rfl) rfl ?_ (by rw [here]; intro same; cases same)
      (by intro same; cases same) rfl rfl rfl
    exact congrArg List.head? (decided.quiet (congrArg AddPlace.ending here))
  | relocks signaled here none =>
    refine decided.moves rfl (by rw [none]; decide) rfl ?_ (by rw [here]; intro same; cases same)
      (by intro same; cases same) rfl rfl rfl
    have ended := decided.ended here
    exact ended
  | returnsFalse here =>
    refine decided.moves rfl (free here rfl) rfl ?_ (by rw [here]; intro same; cases same)
      (by intro same; cases same) rfl rfl rfl
    have ended := decided.ended here
    exact ended
  | unlocksToInsert here =>
    refine decided.moves rfl (free here rfl) rfl ?_ (by rw [here]; intro same; cases same)
      (by intro same; cases same) rfl rfl rfl
    have ended := decided.ended here
    exact ended
  | inserts here =>
    have away : ¬s.mutex = some .manager := fun held => by
      have holds := decided.manager.mp held
      rw [here] at holds
      cases holds
    have none := decided.uninserted here (by decide)
    have ended := decided.ended here
    refine ⟨iff_of_false away (fun holds => by cases holds), decided.listener, ended,
      iff_of_true rfl rfl, fun is => ?_, fun stopped => ?_⟩
    · cases found : s.entry with
      | none => rfl
      | some entry =>
        have is : s.entry.or (some .own) = some .own := is
        rw [found, Option.some_or] at is
        rw [is] at found
        cases none.symm.trans (decided.own found)
    · cases none.symm.trans (decided.listen stopped)
  | startThrew here =>
    refine decided.moves rfl (free here rfl) ?_ ?_ (by rw [here]; intro same; cases same)
      (by intro same; cases same) rfl rfl rfl
    · exact decided.manager.mpr (congrArg AddPlace.holds here)
    · exact congrArg List.head? (decided.quiet (congrArg AddPlace.ending here))
  | timesOut here =>
    have away : ¬s.mutex = some .manager := fun held => by
      have holds := decided.manager.mp held
      rw [here] at holds
      cases holds
    have before := decided.uninserted here (by decide)
    refine ⟨iff_of_false away (fun holds => by cases holds), decided.listener, ?_, ?_, decided.own,
      decided.listen⟩
    · change (s.log ++ [StartEvent.timedOut]).head? = _
      rw [decided.quiet (congrArg AddPlace.ending here)]
      rfl
    · rw [show s.useCondition.inserted = none from before]
      exact iff_of_false (by decide) (fun at_ => by cases at_)
  | stops | removes =>
    refine decided.congr rfl rfl rfl rfl rfl (fun is => by first | exact is | cases is) fun stopped => ?_
    by_cases listed : s.entry = some .own
    · exact .inr listed
    · refine .inl ?_
      have stopped : (if s.entry = some .own then false else s.listen) = false := stopped
      rwa [if_neg listed] at stopped
  | insertsOther =>
    refine decided.congr rfl rfl rfl rfl rfl (fun is => ?_) .inl
    cases found : s.entry with
    | none =>
      have is : s.entry.or (some .other) = some .own := is
      rw [found] at is
      cases is
    | some entry =>
      have is : s.entry.or (some .other) = some .own := is
      rwa [found, Option.some_or] at is

end Decided
theorem decided_replay {entry : Option Entry} (others : entry ≠ some .own) {labels : List StartStep}
    {s : StartUp} (replayed : replay step (start entry) labels = some s) : s.Decided :=
  replay_invariant (fun _ _ _ decided stepped => Decided.change decided (step_change stepped))
    (decided_start others) replayed

/-! ### The way to the end -/

/-- `addConnection` has returned, or the start of the thread has thrown. -/
def Over (s : StartUp) : Prop := s.manager = .threw ∨ ∃ value, s.manager = .returned value

end StartUp

/-- The steps that `addConnection` has still to take. -/
def AddPlace.ahead : AddPlace → Nat
  | .starting => 6
  | .entering => 5
  | .waiting => 4
  | .relocking _ => 3
  | .unlocking _ => 2
  | .inserting => 1
  | .returned _ | .threw => 0

/-- Those until the listener has given the mutex back. -/
def RunPlace.ahead : RunPlace → Nat
  | .signaling => 2
  | .unlocking => 1
  | _ => 0

namespace StartUp

def ahead (s : StartUp) : Nat := s.manager.ahead + s.listener.ahead

/-- The steps of the two threads, and the end of the manager's wait. -/
def Inside (l : StartStep) : Prop := l = .listener ∨ l = .manager ∨ l = .timeOut

/-- Before `addConnection` has come to its end, a step brings it nearer. -/
theorem Decided.nearer {s : StartUp} (decided : s.Decided) (under : ¬s.Over) :
    ∃ l t, Inside l ∧ s.step l = some t ∧ t.Decided ∧ t.ahead < s.ahead := by
  have goes {l : StartStep} {t : StartUp} (inside : Inside l) (stepped : s.step l = some t)
      (less : t.ahead < s.ahead) :
      ∃ l t, Inside l ∧ s.step l = some t ∧ t.Decided ∧ t.ahead < s.ahead :=
    ⟨l, t, inside, stepped, decided.change (step_change stepped), less⟩
  have manager : Inside .manager := .inr (.inl rfl)
  cases at_ : s.manager with
  | threw => exact absurd (.inl at_) under
  | returned value => exact absurd (.inr ⟨value, at_⟩) under
  | waiting =>
    refine goes (.inr (.inr rfl)) (by rw [step, timeOutStep, if_pos at_]) ?_
    simp only [ahead, at_, AddPlace.ahead, useCondition]
    omega
  | starting =>
    refine goes manager (by rw [step, managerStep, at_]) ?_
    simp only [ahead, at_, AddPlace.ahead, RunPlace.ahead]
    omega
  | entering =>
    refine goes manager (by rw [step, managerStep, at_]) ?_
    simp only [ahead, at_, AddPlace.ahead, useCondition, useMutex]
    omega
  | unlocking signaled =>
    refine goes manager (by rw [step, managerStep, at_]) ?_
    cases signaled <;> simp only [ahead, at_, AddPlace.ahead, useMutex] <;> simp
  | inserting =>
    refine goes manager (by rw [step, managerStep, at_]) ?_
    simp only [ahead, at_, AddPlace.ahead, StartUp.insert]
    omega
  | relocking signaled =>
    cases held : s.mutex with
    | none =>
      refine goes manager (by rw [step, managerStep, at_]; exact if_pos held) ?_
      simp only [ahead, at_, AddPlace.ahead, useMutex]
      omega
    | some holder =>
      cases holder with
      | manager =>
        have holds := decided.manager.mp held
        rw [at_] at holds
        cases holds
      | listener =>
        -- The listener holds the mutex for its signal only.
        have holds := decided.listener.mp held
        cases place : s.listener with
        | signaling =>
          refine goes (.inl rfl) (by rw [step, listenerStep, place]) ?_
          rw [if_neg (by rw [at_]; intro same; cases same)]
          simp only [ahead, place, RunPlace.ahead]
          omega
        | unlocking =>
          refine goes (.inl rfl) (by rw [step, listenerStep, place]) ?_
          simp only [ahead, place, RunPlace.ahead, useMutex]
          omega
        | created | looping | locking | settling | deletingCondition | deletingMutex | left | threw =>
          rw [place] at holds
          cases holds

/-- From every state the two threads can bring `addConnection` to its end, in eight steps at most. -/
theorem Decided.ends {s : StartUp} (decided : s.Decided) :
    ∃ labels t, labels.length ≤ 8 ∧ (∀ l ∈ labels, Inside l) ∧ replay step s labels = some t ∧
      t.Over := by
  obtain ⟨labels, t, length, inside, replayed, -, over'⟩ :=
    @exists_replay _ _ step Decided Over Inside ahead
      (fun s decided under => decided.nearer under) s decided
  refine ⟨labels, t, length.trans ?_, inside, replayed, over'⟩
  have manager : s.manager.ahead ≤ 6 := by
    cases s.manager <;> simp only [AddPlace.ahead] <;> omega
  have listener : s.listener.ahead ≤ 2 := by
    cases s.listener <;> simp only [RunPlace.ahead] <;> omega
  unfold ahead
  omega

/-! ### The entry -/

/-- What a step does to the table and to what is known of the insertion. -/
theorem table_change {s t : StartUp} {l : StartStep} (change : Change s l t) :
    t.entry = s.entry ∧ t.inserted = s.inserted ∨
      s.manager = .inserting ∧ t.entry = s.entry.or (some .own) ∧ t.inserted = some s.entry.isNone ∨
      l = .remove ∧ t.entry = none ∧ t.inserted = s.inserted ∨
      l = .insertOther ∧ t.entry = s.entry.or (some .other) ∧ t.inserted = s.inserted := by
  cases change with
  | inserts here => exact .inr (.inl ⟨here, rfl, rfl⟩)
  | removes => exact .inr (.inr (.inl ⟨rfl, rfl, rfl⟩))
  | insertsOther => exact .inr (.inr (.inr ⟨rfl, rfl, rfl⟩))
  | _ => exact .inl ⟨rfl, rfl⟩

/-- Where no other listener is entered under the handle, `insert` finds no entry. -/
theorem alone_change {s t : StartUp} {l : StartStep} (decided : s.Decided) (change : Change s l t)
    (alone : l ≠ .insertOther) (found : s.inserted ≠ some false) (entry : s.entry ≠ some .other) :
    t.inserted ≠ some false ∧ t.entry ≠ some .other := by
  rcases table_change change with ⟨same, same'⟩ | ⟨here, made, told⟩ | ⟨-, gone, same'⟩ | ⟨other, -⟩
  · exact ⟨same' ▸ found, same ▸ entry⟩
  · have before := decided.uninserted here (by decide)
    cases there : s.entry with
    | none =>
      rw [made, told, there]
      decide
    | some e =>
      cases e with
      | own => cases before.symm.trans (decided.own there)
      | other => exact absurd there entry
  · rw [gone, same']
    exact ⟨found, by decide⟩
  · exact absurd other alone

theorem alone_replay {labels : List StartStep} {s : StartUp} (alone : .insertOther ∉ labels)
    (replayed : replay step (start none) labels = some s) : s.inserted ≠ some false := by
  have guards : ∀ l ∈ labels, ∀ _ : StartUp, l ≠ .insertOther :=
    fun l member _ same => alone (same ▸ member)
  have replayed := (replay_guarded step guards (start none)).trans replayed
  have kept : s.Decided ∧ s.inserted ≠ some false ∧ s.entry ≠ some .other := by
    refine @replay_invariant _ _ _
      (fun s : StartUp => s.Decided ∧ s.inserted ≠ some false ∧ s.entry ≠ some .other) ?_ _ _ _
      ⟨decided_start (by decide), by decide, by decide⟩ replayed
    rintro s l t ⟨decided, found, entry⟩ stepped
    obtain ⟨other, stepped⟩ := guarded_eq_some_iff.mp stepped
    have change := step_change stepped
    exact ⟨decided.change change, alone_change decided change other found entry⟩
  exact kept.2.1

/-- Where another listener's entry stays, `insert` keeps it. -/
theorem taken_change {s t : StartUp} {l : StartStep} (change : Change s l t) (stays : l ≠ .remove)
    (found : s.inserted ≠ some true) (entry : s.entry = some .other) :
    t.inserted ≠ some true ∧ t.entry = some .other := by
  rcases table_change change with ⟨same, same'⟩ | ⟨here, made, told⟩ | ⟨gone, -⟩ | ⟨-, made, same'⟩
  · exact ⟨same' ▸ found, same ▸ entry⟩
  · rw [made, told, entry]
    decide
  · exact absurd gone stays
  · rw [made, same', entry]
    exact ⟨found, rfl⟩

theorem taken_replay {labels : List StartStep} {s : StartUp} (stays : .remove ∉ labels)
    (replayed : replay step (start (some .other)) labels = some s) : s.inserted ≠ some true := by
  have guards : ∀ l ∈ labels, ∀ _ : StartUp, l ≠ .remove :=
    fun l member _ same => stays (same ▸ member)
  have replayed := (replay_guarded step guards (start (some .other))).trans replayed
  have kept : s.inserted ≠ some true ∧ s.entry = some .other := by
    refine @replay_invariant _ _ _
      (fun s : StartUp => s.inserted ≠ some true ∧ s.entry = some .other) ?_ _ _ _
      ⟨by decide, rfl⟩ replayed
    rintro s l t ⟨found, entry⟩ stepped
    obtain ⟨other, stepped⟩ := guarded_eq_some_iff.mp stepped
    exact taken_change (step_change stepped) other found entry
  exact kept.1

/-- A free handle that nobody else takes gets its entry just if the ready signal came in time. -/
theorem inserted_iff {labels : List StartStep} {s : StartUp} (alone : .insertOther ∉ labels)
    (replayed : replay step (start none) labels = some s) :
    s.inserted = some true ↔ s.manager = .returned true := by
  rw [← (decided_replay (by decide) replayed).inserted]
  have found := alone_replay alone replayed
  cases told : s.inserted with
  | none => decide
  | some made =>
    cases made with
    | true => decide
    | false => exact absurd told found

end StartUp

/-- `addConnection` needs the mutex no more. -/
def AddPlace.past : AddPlace → Bool
  | .inserting | .returned _ => true
  | _ => false

/-- `addConnection` is still to use the condition. -/
def AddPlace.toWait : AddPlace → Bool
  | .entering | .waiting => true
  | _ => false

namespace StartUp

/-- The listener deletes neither object while the manager is still to use it. -/
def Keeps (s : StartUp) : StartStep → Prop
  | .listener =>
      (s.listener = .deletingCondition → s.manager.toWait = false) ∧
        (s.listener = .deletingMutex → s.manager.past = true)
  | _ => True

/-- Only a listener at its end has deleted anything, and then its thread was started. -/
structure Ending (s : StartUp) : Prop where
  condition : s.conditionAlive = false → s.listener = .deletingMutex ∨ s.listener = .left
  mutex : s.mutexAlive = false → s.listener = .left
  created : s.manager = .starting ∨ s.manager = .threw → s.listener = .created

theorem ending_start (entry : Option Entry) : (start entry).Ending :=
  ⟨fun gone => Bool.noConfusion gone, fun gone => Bool.noConfusion gone, fun _ => rfl⟩

theorem Ending.alive {s : StartUp} (ending : s.Ending) {place : RunPlace} (here : s.listener = place)
    (before : place ≠ .deletingMutex) (inside : place ≠ .left) :
    s.conditionAlive = true ∧ s.mutexAlive = true := by
  constructor
  · by_contra gone
    rcases ending.condition (eq_false_of_ne_true gone) with at_ | at_
    · exact before (here.symm.trans at_)
    · exact inside (here.symm.trans at_)
  · by_contra gone
    exact inside (here.symm.trans (ending.mutex (eq_false_of_ne_true gone)))

theorem Ending.change {s t : StartUp} {l : StartStep} (ending : s.Ending) (change : Change s l t) :
    t.Ending := by
  have runs {place : RunPlace} (here : s.listener = place) (other : place ≠ .created) :
      ¬(s.manager = .starting ∨ s.manager = .threw) := fun before =>
    other (here.symm.trans (ending.created before))
  -- The listener moves on with both objects alive, or the manager moves.
  have moves {place : RunPlace} (here : s.listener = place) (other : place ≠ .created)
      (before : place ≠ .deletingMutex) (inside : place ≠ .left) {u : StartUp}
      (condition : u.conditionAlive = s.conditionAlive) (mutex : u.mutexAlive = s.mutexAlive)
      (manager : u.manager = .starting ∨ u.manager = .threw → s.manager = .starting ∨ s.manager = .threw) :
      u.Ending := by
    obtain ⟨live, live'⟩ := ending.alive here before inside
    refine ⟨fun gone => ?_, fun gone => ?_, fun starting => absurd (manager starting) (runs here other)⟩
    · cases (condition.trans live).symm.trans gone
    · cases (mutex.trans live').symm.trans gone
  have stays {u : StartUp} (listener : u.listener = s.listener)
      (condition : u.conditionAlive = s.conditionAlive) (mutex : u.mutexAlive = s.mutexAlive)
      (manager : u.manager = .starting ∨ u.manager = .threw → s.manager = .starting ∨ s.manager = .threw) :
      u.Ending :=
    ⟨fun gone => listener ▸ ending.condition (condition ▸ gone),
      fun gone => listener ▸ ending.mutex (mutex ▸ gone),
      fun starting => listener ▸ ending.created (manager starting)⟩
  cases change with
  | passes outcome place here | leaves here | locks here | unlocks here | settles here =>
    exact moves here (by decide) (by decide) (by decide) rfl rfl id
  | signals here =>
    refine moves here (by decide) (by decide) (by decide) rfl rfl ?_
    dsimp only
    split
    next => rintro (at_ | at_) <;> cases at_
    next => exact id
  | deletesCondition here =>
    obtain ⟨-, live⟩ := ending.alive here (by decide) (by decide)
    refine ⟨fun _ => .inl rfl, fun gone => ?_, fun starting => absurd starting (runs here (by decide))⟩
    cases live.symm.trans gone
  | deletesMutex here =>
    exact ⟨fun _ => .inr rfl, fun _ => rfl, fun starting => absurd starting (runs here (by decide))⟩
  | starts here =>
    obtain ⟨live, live'⟩ := ending.alive (ending.created (.inl here)) (by decide) (by decide)
    refine ⟨fun gone => ?_, fun gone => ?_, ?_⟩
    · cases live.symm.trans gone
    · cases live'.symm.trans gone
    · rintro (at_ | at_) <;> cases at_
  | startThrew here => exact stays rfl rfl rfl (fun _ => .inl here)
  | stops | removes | insertsOther => exact stays rfl rfl rfl id
  | enters | relocks | returnsFalse | unlocksToInsert | inserts | timesOut =>
    exact stays rfl rfl rfl (by rintro (at_ | at_) <;> cases at_)

/-- Everything used was alive, and what is still to be used is. -/
def Fine (uses : List Bool) (condition mutex : Bool) (manager : AddPlace) : Prop :=
  (∀ alive ∈ uses, alive = true) ∧ (condition = false → manager.toWait = false) ∧
    (mutex = false → manager.past = true)

theorem fine_alive (uses : List Bool) (manager : AddPlace) :
    Fine uses true true manager ↔ ∀ alive ∈ uses, alive = true := by
  unfold Fine
  simp only [Bool.true_eq_false, false_implies, and_true]

theorem uses_concat (uses : List Bool) (alive : Bool) :
    (∀ used ∈ uses ++ [alive], used = true) ↔ (∀ used ∈ uses, used = true) ∧ alive = true := by
  simp only [List.mem_append, List.mem_singleton, or_imp, forall_and, forall_eq]

/-- The objects are fine after a step just if they were before it and the step keeps them. -/
theorem Ending.fine_change {s t : StartUp} {l : StartStep} (ending : s.Ending) (change : Change s l t) :
    Fine t.uses t.conditionAlive t.mutexAlive t.manager ↔
      Fine s.uses s.conditionAlive s.mutexAlive s.manager ∧ s.Keeps l := by
  have idle {place : RunPlace} (here : s.listener = place) (other : place ≠ .deletingCondition)
      (other' : place ≠ .deletingMutex) : s.Keeps .listener :=
    ⟨fun at_ => absurd (here.symm.trans at_) other, fun at_ => absurd (here.symm.trans at_) other'⟩
  cases change with
  | passes | stops | removes | insertsOther => exact (and_iff_left trivial).symm
  | leaves here | settles here => exact (and_iff_left (idle here (by decide) (by decide))).symm
  | locks here | unlocks here =>
    obtain ⟨live, live'⟩ := ending.alive here (by decide) (by decide)
    rw [and_iff_left (idle here (by decide) (by decide))]
    simp only [useMutex, live, live', fine_alive, uses_concat, and_true]
  | signals here =>
    obtain ⟨live, live'⟩ := ending.alive here (by decide) (by decide)
    rw [and_iff_left (idle here (by decide) (by decide))]
    simp only [useCondition, live, live', fine_alive, uses_concat, and_true]
  | deletesCondition here =>
    obtain ⟨live, live'⟩ := ending.alive here (by decide) (by decide)
    simp only [Fine, Keeps, here, live, live', reduceCtorEq, true_implies, false_implies, and_true,
      Bool.true_eq_false]
  | deletesMutex here =>
    have live : s.mutexAlive = true := by
      by_contra gone
      cases here.symm.trans (ending.mutex (eq_false_of_ne_true gone))
    simp only [Fine, Keeps, here, live, reduceCtorEq, true_implies, false_implies, and_true, true_and,
      Bool.true_eq_false, and_assoc]
  | starts here | startThrew here =>
    obtain ⟨live, live'⟩ := ending.alive (ending.created (.inl here)) (by decide) (by decide)
    simp only [live, live', fine_alive, Keeps, and_true]
  | enters here =>
    simp only [Fine, Keeps, here, useCondition, useMutex, uses_concat, AddPlace.toWait, AddPlace.past,
      Bool.true_eq_false, Bool.false_eq_true, imp_false, Bool.not_eq_false, and_true]
    tauto
  | relocks signaled here =>
    simp only [Fine, Keeps, here, useMutex, uses_concat, AddPlace.toWait, AddPlace.past,
      Bool.false_eq_true, imp_false, Bool.not_eq_false, and_true, implies_true, true_and]
    tauto
  | returnsFalse here | unlocksToInsert here =>
    simp only [Fine, Keeps, here, useMutex, uses_concat, AddPlace.toWait, AddPlace.past,
      Bool.false_eq_true, imp_false, Bool.not_eq_false, and_true, implies_true, true_and]
  | inserts here =>
    simp only [Fine, Keeps, here, StartUp.insert, AddPlace.toWait, AddPlace.past, implies_true, and_true]
  | timesOut here =>
    simp only [Fine, Keeps, here, useCondition, uses_concat, AddPlace.toWait, AddPlace.past,
      Bool.true_eq_false, Bool.false_eq_true, imp_false, Bool.not_eq_false, implies_true, and_true,
      true_and]
    tauto

/-- Once `addConnection` has returned, it has used nothing that was gone just if the listener has
deleted the condition after the wait, and the mutex after the last `unlock()`. -/
theorem objects_kept_iff {entry : Option Entry} {labels : List StartStep} {s : StartUp} {value : Bool}
    (replayed : replay step (start entry) labels = some s) (returned : s.manager = .returned value) :
    (∀ alive ∈ s.uses, alive = true) ↔ Along step (fun s l _ => s.Keeps l) (start entry) labels := by
  have decides := @replay_decides _ _ step Ending
    (fun s => Fine s.uses s.conditionAlive s.mutexAlive s.manager) (fun s l _ => s.Keeps l)
    (fun _ _ _ ending stepped => ending.change (step_change stepped))
    (fun _ _ _ ending stepped => ending.fine_change (step_change stepped)) _ _ _ (ending_start entry)
    replayed
  have first : Fine (start entry).uses (start entry).conditionAlive (start entry).mutexAlive
      (start entry).manager :=
    (fine_alive _ _).mpr fun _ member => absurd member List.not_mem_nil
  rw [and_iff_right first, returned] at decides
  rw [← decides, Fine]
  simp only [AddPlace.toWait, AddPlace.past, implies_true, and_true]

/-- The peer closes at once: the thread deletes both objects, and the manager's wait, which now runs
out, goes on with them. -/
theorem closed_at_once : ∃ s : StartUp, s.manager = .returned false ∧ s.uses = [true, true, false, false, false] ∧
    ∃ labels, replay step (start none) labels = some s ∧
      ¬Along step (fun s l _ => s.Keeps l) (start none) labels := by
  have replayed : ∃ s : StartUp, replay step (start none) [.manager, .manager, .pass .closed, .listener,
      .listener, .timeOut, .manager, .manager] = some s ∧ s.manager = .returned false ∧
        s.uses = [true, true, false, false, false] := ⟨_, rfl, rfl, rfl⟩
  obtain ⟨s, run, returned, uses⟩ := replayed
  refine ⟨s, returned, uses, _, run, ?_⟩
  rw [← objects_kept_iff run returned, uses]
  decide

/-! ### The call as one step -/

/-- What the table has under a handle before a call of `addConnection`. -/
def entryBefore (c : Statics) (handle : BitVec 32) : Option Entry :=
  (c.listeners.lookup handle).map fun _ => .other

/-- What the two threads do together, where no other is at the table under this handle, is the call of
`addConnection` with the outcome of its wait. -/
theorem addConnection_agrees {c : Statics} {handle : BitVec 32} {ns : NymphSocket}
    (known : c.getSocket handle = some ns) {labels : List StartStep} {s : StartUp} {value : Bool}
    (insertOther : .insertOther ∉ labels) (remove : .remove ∉ labels)
    (replayed : replay step (start (entryBefore c handle)) labels = some s)
    (returned : s.manager = .returned value) :
    let call := c.addConnection handle (if value then .ready else .timedOut)
    call.2 = .returned value ∧
      call.1.listeners.lookup handle = if s.inserted = some true then some c.started.length
        else c.listeners.lookup handle := by
  have others : entryBefore c handle ≠ some .own := by
    unfold entryBefore
    cases c.listeners.lookup handle with
    | none => decide
    | some listener => exact fun same => by cases same
  cases value with
  | false =>
    have none : ¬s.inserted = some true := fun is => by
      have returned' := (decided_replay others replayed).inserted.mp (by rw [is]; rfl)
      cases returned.symm.trans returned'
    rw [if_neg none]
    simp only [Statics.addConnection, known, Bool.false_eq_true, if_false, and_self]
  | true =>
    cases before : c.listeners.lookup handle with
    | none =>
      rw [entryBefore, before] at replayed
      rw [if_pos ((inserted_iff insertOther replayed).mpr returned)]
      simp only [Statics.addConnection, known, if_true, true_and]
      exact OrderedMap.lookup_insertNew_new (AList.lookup_eq_none.mp before)
    | some listener =>
      rw [entryBefore, before] at replayed
      rw [if_neg (taken_replay remove replayed)]
      simp only [Statics.addConnection, known, if_true, true_and]
      exact OrderedMap.lookup_insertNew_old before

end StartUp
end NymphMqtt.Runtime
