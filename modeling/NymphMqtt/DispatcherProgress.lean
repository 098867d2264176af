import NymphMqtt.DispatcherCustody

/-! Progress of the dispatcher: its threads cannot go on forever without new requests, and
what is left where none of them can take a step. -/

namespace NymphMqtt
open NymphMqtt.Library NymphMqtt.Library.Transition

/-! ### Steps that are left -/

/-- How many steps a worker can take on its own before it waits. -/
def Worker.ahead (w : Worker) : Nat :=
  if w.ready then
    match w.step with
    | .wait => 8
    | .testRunning => 7
    | .testReady => 6
    | _ => 5
  else
    match w.step with
    | .testRunning | .process => 4
    | .testReady | .finish => 3
    | .takeRequest => 2
    | .park => 1
    | _ => 0

namespace Worker
variable {w : Worker}

theorem Goes.ahead {requests : List RequestId} {step : WorkerStep} (goes : w.Goes requests step)
    (sound : w.Sound) : Worker.ahead { w with step := step } + 1 ≤ w.ahead := by
  cases goes with
  | ends at_ stopped => cases sound.running.symm.trans stopped
  | runs at_ =>
    unfold Worker.ahead
    rw [at_]
    cases w.ready <;> exact Nat.le_refl _
  | seesReady at_ ready => simp only [Worker.ahead, at_, ready, if_true, Nat.reduceAdd, Nat.le_refl]
  | wakes at_ wake =>
    have ready := wake.resolve_right (not_not.mpr sound.running)
    simp only [Worker.ahead, at_, ready, if_true, Nat.reduceAdd, Nat.le_refl]
  | seesNone at_ unready =>
    simp only [Worker.ahead, at_, unready, Bool.false_eq_true, if_false, Nat.reduceAdd, Nat.le_refl]
  | processed at_ | findsNone at_ =>
    have unready := sound.not_ready (by rw [at_]; rfl)
    simp only [Worker.ahead, at_, unready, Bool.false_eq_true, if_false, Nat.reduceAdd, Nat.le_refl]

end Worker

namespace Dispatcher

/-- The steps of the threads themselves. The others bring a worker or a request. -/
def Action.inside : Action → Bool
  | .startWorker | .call _ => false
  | .assign _ | .enqueue _ | .work _ => true

/-- How many steps an action makes possible. -/
def Action.allows : Action → Nat
  | .startWorker => 4
  | .call _ => 9
  | .assign _ | .enqueue _ | .work _ => 0

/-- A request that is further from its worker has more steps ahead. -/
def ahead (d : Dispatcher) : Nat :=
  9 * d.calling.length + 7 * d.queueing.length + 6 * d.requests.length +
    (d.allWorkers.map Worker.ahead).sum

theorem Sound.ahead_change {d d' : Dispatcher} {a : Action} (sound : d.Sound)
    (change : Change d a d') :
    d'.ahead + (if a.inside then 1 else 0) ≤ d.ahead + a.allows := by
  cases change with
  | startWorker =>
    have new : Worker.new.ahead = 4 := rfl
    simp only [ahead, List.map_append, List.sum_append, List.map_cons, List.map_nil, List.sum_cons,
      List.sum_nil, new, Action.inside, Action.allows, Bool.false_eq_true, if_false]
    omega
  | call =>
    simp only [ahead, List.length_append, List.length_cons, List.length_nil, Action.inside,
      Action.allows, Bool.false_eq_true, if_false]
    omega
  | noWorker waiting =>
    have fewer := List.length_eraseIdx_add_one (List.getElem?_eq_some_iff.mp waiting).1
    simp only [ahead, List.length_append, List.length_cons, List.length_nil, Action.inside,
      Action.allows, if_true]
    omega
  | enqueue waiting =>
    have fewer := List.length_eraseIdx_add_one (List.getElem?_eq_some_iff.mp waiting).1
    simp only [ahead, List.length_append, List.length_cons, List.length_nil, Action.inside,
      Action.allows, if_true]
    omega
  | @handOver call i request workers w waiting idle known =>
    obtain ⟨-, waits, unready⟩ := sound.head idle known
    have fewer := List.length_eraseIdx_add_one (List.getElem?_eq_some_iff.mp waiting).1
    have moved := Splice.sum_map_set known (w.setRequest request) Worker.ahead
    have before : w.ahead = 0 := by
      simp only [Worker.ahead, waits, unready, Bool.false_eq_true, if_false]
    have after : (w.setRequest request).ahead = 8 := by
      simp only [Worker.ahead, Worker.setRequest, waits, if_true]
    simp only [ahead, Dispatcher.setWorker, Action.inside, Action.allows, if_true] at moved ⊢
    omega
  | @goOn i w step known goes =>
    have less := goes.ahead (sound.worker w (List.mem_of_getElem? known))
    have moved := Splice.sum_map_set known { w with step := step } Worker.ahead
    simp only [ahead, Dispatcher.setWorker, Action.inside, Action.allows, if_true] at moved ⊢
    omega
  | @clearReady i w known at_ =>
    have ready := (sound.worker w (List.mem_of_getElem? known)).clear at_
    have moved := Splice.sum_map_set known { w with ready := false, step := .process } Worker.ahead
    have before : w.ahead = 5 := by simp only [Worker.ahead, at_, ready, if_true]
    have after : Worker.ahead { w with ready := false, step := .process } = 4 := rfl
    simp only [ahead, Dispatcher.setWorker, Action.inside, Action.allows, if_true] at moved ⊢
    omega
  | @finish i w known at_ =>
    have unready := (sound.worker w (List.mem_of_getElem? known)).not_ready (by rw [at_]; rfl)
    have moved := Splice.sum_map_set known { w with step := .takeRequest } Worker.ahead
    have before : w.ahead = 3 := by
      simp only [Worker.ahead, at_, unready, Bool.false_eq_true, if_false]
    have after : Worker.ahead { w with step := .takeRequest } = 2 := by
      simp only [Worker.ahead, unready, Bool.false_eq_true, if_false]
    simp only [ahead, Dispatcher.finish, Dispatcher.setWorker, Action.inside, Action.allows,
      if_true] at moved ⊢
    omega
  | @take i w request requests known at_ queued =>
    have unready := (sound.worker w (List.mem_of_getElem? known)).not_ready (by rw [at_]; rfl)
    have moved := Splice.sum_map_set known { w.setRequest request with step := .testRunning }
      Worker.ahead
    have more := congrArg List.length queued
    have before : w.ahead = 2 := by
      simp only [Worker.ahead, at_, unready, Bool.false_eq_true, if_false]
    have after : Worker.ahead { w.setRequest request with step := .testRunning } = 7 := rfl
    simp only [ahead, Dispatcher.setWorker, Action.inside, Action.allows, if_true,
      List.length_cons] at moved after more ⊢
    omega
  | @park i w known at_ =>
    have unready := (sound.worker w (List.mem_of_getElem? known)).not_ready (by rw [at_]; rfl)
    have moved := Splice.sum_map_set known { w with step := .wait } Worker.ahead
    have before : w.ahead = 1 := by
      simp only [Worker.ahead, at_, unready, Bool.false_eq_true, if_false]
    have after : Worker.ahead { w with step := .wait } = 0 := by
      simp only [Worker.ahead, unready, Bool.false_eq_true, if_false]
    simp only [ahead, Dispatcher.park, Dispatcher.setWorker, Action.inside, Action.allows,
      if_true] at moved ⊢
    omega

/-! ### At rest -/

/-- No thread can take a step. -/
def AtRest (d : Dispatcher) : Prop := ∀ a : Action, a.inside = true → d.step a = none

/-- No worker has ended, and one that waits with an empty slot is in the idle queue. -/
def Accounted (d : Dispatcher) : Prop :=
  ∀ i w, d.allWorkers[i]? = some w →
    w.step ≠ .ended ∧ (w.step = .wait → w.ready = false → i ∈ d.workers)

theorem accounted_new : new.Accounted := by
  intro i w known
  cases known

namespace Accounted
variable {d d' : Dispatcher} (accounted : d.Accounted)
include accounted

/-- A worker may be replaced by one that neither ended nor waits with an empty slot. -/
theorem setWorker {i : Nat} {w' : Worker} (alive : w'.step ≠ .ended)
    (active : w'.step = .wait → w'.ready = true) : (d.setWorker i w').Accounted := by
  intro j v known
  change (d.allWorkers.set i w')[j]? = some v at known
  by_cases same : i = j
  · subst same
    rw [List.getElem?_set_self'] at known
    obtain ⟨u, -, rfl⟩ := Option.map_eq_some_iff.mp known
    refine ⟨alive, ?_⟩
    intro waits unready
    cases (active waits).symm.trans unready
  · rw [List.getElem?_set_ne same] at known
    exact accounted j v known

theorem congr (allWorkers : d'.allWorkers = d.allWorkers) (workers : d'.workers = d.workers) :
    d'.Accounted := by
  intro i w known
  rw [workers]
  exact accounted i w (allWorkers ▸ known)

theorem change {a : Action} (sound : d.Sound) (change : Change d a d') : d'.Accounted := by
  cases change with
  | startWorker =>
    intro i w known
    rcases Splice.concat_cases known with old | ⟨-, rfl⟩
    · exact accounted i w old
    · exact ⟨by decide, fun waits => by cases waits⟩
  | call | noWorker | enqueue => exact accounted.congr rfl rfl
  | @handOver call i request workers w waiting idle known =>
    intro j v there
    change (d.allWorkers.set i (w.setRequest request))[j]? = some v at there
    by_cases same : i = j
    · subst same
      rw [List.getElem?_set_self (List.getElem?_eq_some_iff.mp known).1] at there
      cases there
      refine ⟨(accounted i w known).1, ?_⟩
      intro waits unready
      cases unready
    · rw [List.getElem?_set_ne same] at there
      refine ⟨(accounted j v there).1, ?_⟩
      intro waits unready
      have before := (accounted j v there).2 waits unready
      rw [idle, List.mem_cons] at before
      exact before.resolve_left (Ne.symm same)
  | @goOn i w step known goes =>
    have running := (sound.worker w (List.mem_of_getElem? known)).running
    cases goes with
    | ends at_ stopped => cases running.symm.trans stopped
    | runs | seesReady | seesNone | processed | findsNone | wakes =>
      exact accounted.setWorker (fun ended => by cases ended) (fun waits => by cases waits)
  | clearReady known at_ =>
    exact accounted.setWorker (fun ended => by cases ended) (fun waits => by cases waits)
  | finish known at_ =>
    exact (accounted.setWorker (fun ended => by cases ended) (fun waits => by cases waits)).congr
      rfl rfl
  | take known at_ queued =>
    exact (accounted.setWorker (fun ended => by cases ended) (fun waits => by cases waits)).congr
      rfl rfl
  | @park i w known at_ =>
    intro j v there
    change (d.allWorkers.set i { w with step := .wait })[j]? = some v at there
    by_cases same : i = j
    · subst same
      rw [List.getElem?_set_self (List.getElem?_eq_some_iff.mp known).1] at there
      cases there
      exact ⟨(fun ended => by cases ended), fun _ _ => List.mem_append_right _ (List.mem_singleton_self i)⟩
    · rw [List.getElem?_set_ne same] at there
      obtain ⟨alive, idle⟩ := accounted j v there
      exact ⟨alive, fun waits unready => List.mem_append_left _ (idle waits unready)⟩

end Accounted

/-- At rest no call is in progress, and every worker waits with an empty slot. -/
theorem Accounted.atRest_iff {d : Dispatcher} (accounted : d.Accounted) (sound : d.Sound) :
    d.AtRest ↔
      d.calling = [] ∧ d.queueing = [] ∧ ∀ w ∈ d.allWorkers, w.step = .wait ∧ w.ready = false := by
  constructor
  · intro rest
    refine ⟨?calling, ?queueing, ?workers⟩
    case calling =>
      by_contra some
      obtain ⟨request, calling, calls⟩ := List.exists_cons_of_ne_nil some
      have none := rest (.assign 0) rfl
      simp only [step, assign, calls, List.getElem?_cons_zero, Option.bind_eq_bind,
        Option.bind_some] at none
      cases idle : d.workers with
      | nil =>
        rw [idle] at none
        cases none
      | cons worker workers =>
        obtain ⟨w, known, -⟩ := sound.idle worker (idle ▸ List.mem_cons_self)
        simp only [idle, known, Option.bind_some, reduceCtorEq] at none
    case queueing =>
      by_contra some
      obtain ⟨request, queueing, queued⟩ := List.exists_cons_of_ne_nil some
      have none := rest (.enqueue 0) rfl
      simp only [step, enqueue, queued, List.getElem?_cons_zero, Option.bind_eq_bind,
        Option.bind_some, reduceCtorEq] at none
    case workers =>
      intro w member
      obtain ⟨i, known⟩ := List.mem_iff_getElem?.mp member
      have none := rest (.work i) rfl
      have running := (sound.worker w member).running
      simp only [step, work, known, Option.bind_eq_bind, Option.bind_some] at none
      cases at_ : w.step with
      | wait =>
        simp only [at_, running, not_true_eq_false, or_false, ite_eq_right_iff, reduceCtorEq,
          imp_false] at none
        exact ⟨rfl, eq_false_of_ne_true none⟩
      | ended => exact absurd at_ (accounted i w known).1
      | _ => simp only [at_, reduceCtorEq] at none
  · rintro ⟨calling, queueing, workers⟩ a inside
    cases a with
    | startWorker | call => cases inside
    | assign call => simp only [step, assign, calling, List.getElem?_nil, Option.bind_eq_bind, Option.bind_none]
    | enqueue call => simp only [step, enqueue, queueing, List.getElem?_nil, Option.bind_eq_bind, Option.bind_none]
    | work i =>
      simp only [step, work, Option.bind_eq_bind, Option.bind_eq_none_iff]
      intro w known
      obtain ⟨waits, unready⟩ := workers w (List.mem_of_getElem? known)
      have running := (sound.worker w (List.mem_of_getElem? known)).running
      simp only [waits, unready, running, Bool.false_eq_true, not_true_eq_false, or_self, if_false]

/-! ### What is left -/

theorem accounted_replay {labels : List Action} {d : Dispatcher}
    (replayed : replay step new labels = some d) : d.Sound ∧ d.Accounted :=
  @replay_invariant _ _ step (fun d => d.Sound ∧ d.Accounted)
    (fun _ _ _ both stepped => ⟨both.1.change (step_change stepped),
      both.2.change both.1 (step_change stepped)⟩) _ _ _ ⟨sound_new, accounted_new⟩ replayed

theorem count_given {labels : List Action} {d : Dispatcher}
    (replayed : replay step new labels = some d) (r : RequestId) :
    d.places.count r = (labels.flatMap Action.given).count r := by
  have tally := @replay_tally _ _ step Sound (fun d => d.places.count r)
    (fun a => a.given.count r) (fun _ _ _ sound stepped => sound.change (step_change stepped))
    (fun _ _ _ sound stepped => sound.count_change r (step_change stepped)) _ _ _ sound_new replayed
  rw [tally, List.count_flatMap]
  exact Nat.zero_add _

/-- At rest a request is finished, or it waits in the queue. -/
theorem rest_places {d : Dispatcher} (calling : d.calling = []) (queueing : d.queueing = [])
    (workers : ∀ w ∈ d.allWorkers, w.step = .wait ∧ w.ready = false) :
    d.places = d.requests ++ d.finished := by
  have slots : d.allWorkers.flatMap Worker.slot = [] := by
    rw [List.flatMap_eq_nil_iff]
    intro w member
    rw [Worker.slot, (workers w member).2]
    rfl
  have processing : d.allWorkers.flatMap Worker.processing = [] := by
    rw [List.flatMap_eq_nil_iff]
    intro w member
    rw [Worker.processing, (workers w member).1]
    rfl
  rw [places, calling, queueing, slots, processing]
  simp only [List.nil_append, List.append_nil]

/-- With every check still valid where it is used, no request waits beside an idle worker. -/
theorem served_along {labels : List Action} {d : Dispatcher}
    (holds : Along step (fun d a _ => d.CheckHolds a) new labels)
    (replayed : replay step new labels = some d) : ¬d.Stranded := by
  have served : ∀ {s : Dispatcher} {labels : List Action}, ¬s.Stranded →
      Along step (fun d a _ => d.CheckHolds a) s labels → replay step s labels = some d →
        ¬d.Stranded := by
    intro s labels before along replayed
    induction labels generalizing s with
    | nil =>
      cases replayed
      exact before
    | cons a labels ih =>
      obtain ⟨t, stepped, rest⟩ := Option.bind_eq_some_iff.mp replayed
      obtain ⟨first, later⟩ := (along_cons stepped).mp along
      exact ih (step_not_stranded before first stepped) later rest
  exact served (fun stranded => stranded.1 rfl) holds replayed

/-- The threads take at most nine steps for each request and four for each worker. Where none
of them can take another one and there is a worker, all requests given are finished, unless
some wait beside an idle worker; and none do if no push relied on a stale check. -/
theorem requests_processed {labels : List Action} {d : Dispatcher}
    (replayed : replay step new labels = some d) :
    labels.countP Action.inside ≤ (labels.map Action.allows).sum ∧
      (d.AtRest → d.allWorkers ≠ [] →
        (d.finished.Perm (labels.flatMap Action.given) ↔ ¬d.Stranded) ∧
        (Along step (fun d a _ => d.CheckHolds a) new labels →
          d.finished.Perm (labels.flatMap Action.given))) := by
  have spends := @replay_spends _ _ step Sound ahead Action.inside Action.allows
    (fun _ _ _ sound stepped => sound.change (step_change stepped))
    (fun _ _ _ sound stepped => sound.ahead_change (step_change stepped)) _ _ _ sound_new replayed
  have empty : new.ahead = 0 := rfl
  refine ⟨by omega, ?_⟩
  intro rest staffed
  obtain ⟨sound, accounted⟩ := accounted_replay replayed
  obtain ⟨calling, queueing, workers⟩ := (accounted.atRest_iff sound).mp rest
  have idle : d.workers ≠ [] := by
    obtain ⟨w, others, all⟩ := List.exists_cons_of_ne_nil staffed
    have first : d.allWorkers[0]? = some w := by rw [all]; rfl
    obtain ⟨waits, unready⟩ := workers w (List.mem_of_getElem? first)
    exact List.ne_nil_of_mem ((accounted 0 w first).2 waits unready)
  have whole : (d.requests ++ d.finished).Perm (labels.flatMap Action.given) := by
    rw [← rest_places calling queueing workers, List.perm_iff_count]
    exact count_given replayed
  have done_iff : d.finished.Perm (labels.flatMap Action.given) ↔ ¬d.Stranded := by
    constructor
    · intro done stranded
      have lengths := (done.trans whole.symm).length_eq
      rw [List.length_append] at lengths
      exact stranded.1 (List.length_eq_zero_iff.mp (by omega))
    · intro served
      have none : d.requests = [] := by
        by_contra waiting
        exact served ⟨waiting, idle⟩
      rwa [none, List.nil_append] at whole
  refine ⟨done_iff, ?_⟩
  intro holds
  exact done_iff.mpr (served_along holds replayed)

/-- Two requests for one worker: the second one waits in the queue until the first is done. -/
theorem requests_processed_two : ∃ labels d, replay step new labels = some d ∧
    labels.flatMap Action.given = [7, 8] ∧ d.finished.Perm [7, 8] := by
  have replayed : replay step new [.startWorker, .work 0, .work 0, .work 0, .work 0, .call 7,
      .assign 0, .call 8, .assign 0, .enqueue 0, .work 0, .work 0, .work 0, .work 0, .work 0, .work 0,
      .work 0, .work 0, .work 0, .work 0, .work 0, .work 0, .work 0, .work 0] =
        some ⟨[], [0], [⟨some 8, true, false, .wait⟩], [], [], [7, 8]⟩ := rfl
  obtain ⟨sound, accounted⟩ := accounted_replay replayed
  have rest := (accounted.atRest_iff sound).mpr (by decide)
  exact ⟨_, _, replayed, rfl, ((requests_processed replayed).2 rest (by decide)).1.mpr (by decide)⟩

end Dispatcher
end NymphMqtt
