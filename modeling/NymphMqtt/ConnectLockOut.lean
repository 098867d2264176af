import NymphMqtt.ClientConnect
import NymphMqtt.Library.Splice

/-! `connectMtx` over the runs of one client: which calls of `connect` hold it, and what a call
that has returned true leaves of it to the others. -/

namespace NymphMqtt
open NymphMqtt.Library Transition

/-! ### The steps of a call -/

/-- The mutex is held on account of the call. A call that returned true has not given it back. -/
def ConnectStep.locking : ConnectStep → Bool
  | .publish | .tryWait | .startTimer | .timedOut | .unlock | .returned true _ => true
  | _ => false

/-- CONNECT was sent, and the call has to take the mutex before it can return. -/
def ConnectStep.awaiting : ConnectStep → Bool
  | .lock | .waiting | .signaled | .expired => true
  | _ => false

/-- The call takes the mutex next. -/
def ConnectStep.atLock : ConnectStep → Bool
  | .lock | .signaled | .expired => true
  | _ => false

/-- The steps that leave the mutex and the queue of the condition as they are. -/
inductive ConnectStep.Runs : ConnectStep → ConnectStep → Prop
  | fails (conn : NmqttBrokerConnection) : Runs .openSocket (.returned false conn)
  | opens : Runs .openSocket .clearBrokerConn
  | clears : Runs .clearBrokerConn .sendConnect
  | sends : Runs .sendConnect .lock
  | unsent (conn : NmqttBrokerConnection) : Runs .sendConnect (.returned false conn)
  | publishes : Runs .publish .tryWait
  | connects (conn : NmqttBrokerConnection) : Runs .startTimer (.returned true conn)
  | resets : Runs .timedOut .unlock

/-- The steps that take the mutex. -/
inductive ConnectStep.Locks : ConnectStep → ConnectStep → Prop
  | first : Locks .lock .publish
  | woken : Locks .signaled .startTimer
  | late : Locks .expired .timedOut

theorem ConnectStep.Runs.locking {s s' : ConnectStep} (runs : Runs s s') :
    s'.locking = s.locking := by
  cases runs <;> rfl

theorem ConnectStep.Runs.idle {s s' : ConnectStep} (runs : Runs s s') :
    s ≠ .waiting ∧ s.awaiting = false := by
  cases runs <;> exact ⟨by decide, rfl⟩

theorem ConnectStep.Runs.returns {s s' : ConnectStep} (runs : Runs s s') : s.hasReturned = false := by
  cases runs <;> rfl

theorem ConnectStep.Locks.takes {s s' : ConnectStep} (locks : Locks s s') :
    s.atLock = true ∧ s.locking = false ∧ s'.locking = true := by
  cases locks <;> exact ⟨rfl, rfl, rfl⟩

theorem ConnectStep.atLock_idle {s : ConnectStep} (atLock : s.atLock = true) :
    s ≠ .waiting ∧ s.hasReturned = false := by
  cases s with
  | lock => exact ⟨by decide, rfl⟩
  | signaled => exact ⟨by decide, rfl⟩
  | expired => exact ⟨by decide, rfl⟩
  | _ => cases atLock

theorem ConnectStep.locking_of_returned {s : ConnectStep} {conn : NmqttBrokerConnection}
    (returned : s = .returned true conn) : s.locking = true ∧ s.hasReturned = true := by
  rw [returned]
  exact ⟨rfl, rfl⟩

/-! ### What a step does to the calls, the mutex and the queue -/

namespace NmqttClient

/-- One constructor for each way in which a step of any party changes them. -/
inductive Stepped (d d' : NmqttClient) : Prop
  | idle : d'.calls = d.calls → d'.connectMtx = d.connectMtx → d'.waiters = d.waiters → Stepped d d'
  | begins (call : ConnectCall) : call.step = .openSocket → d'.calls = d.calls ++ [call] →
      d'.connectMtx = d.connectMtx → d'.waiters = d.waiters → Stepped d d'
  | runs {i : CallId} {call call' : ConnectCall} {s : ConnectStep} : d.calls[i]? = some call →
      d'.calls = d.calls.set i call' → call'.thread = call.thread → call.step = s →
      s.Runs call'.step → d'.connectMtx = d.connectMtx → d'.waiters = d.waiters → Stepped d d'
  | locks {i : CallId} {call call' : ConnectCall} {s : ConnectStep} : d.calls[i]? = some call →
      d'.calls = d.calls.set i call' → call'.thread = call.thread → call.step = s →
      s.Locks call'.step → d.connectMtx.lock call.thread = some d'.connectMtx →
      d'.waiters = d.waiters → Stepped d d'
  | waits {i : CallId} {call call' : ConnectCall} : d.calls[i]? = some call →
      d'.calls = d.calls.set i call' → call'.thread = call.thread → call.step = .tryWait →
      call'.step = .waiting → d'.connectMtx = d.connectMtx.unlock →
      d'.waiters = d.waiters ++ [i] → Stepped d d'
  | unlocks {i : CallId} {call call' : ConnectCall} (conn : NmqttBrokerConnection) :
      d.calls[i]? = some call → d'.calls = d.calls.set i call' → call'.thread = call.thread →
      call.step = .unlock → call'.step = .returned false conn →
      d'.connectMtx = d.connectMtx.unlock → d'.waiters = d.waiters → Stepped d d'
  | wakes {i : CallId} {call call' : ConnectCall} : d.calls[i]? = some call →
      d'.calls = d.calls.set i call' → call'.thread = call.thread → call'.step = .signaled →
      d'.connectMtx = d.connectMtx → d.waiters = i :: d'.waiters → Stepped d d'
  | expires {i : CallId} {call call' : ConnectCall} : d.calls[i]? = some call →
      d'.calls = d.calls.set i call' → call'.thread = call.thread → call.step = .waiting →
      call'.step = .expired → d'.connectMtx = d.connectMtx →
      d'.waiters = d.waiters.filter (· ≠ i) → Stepped d d'

section Inversion
variable {d d' : NmqttClient}

theorem connect_stepped {thread conn : Nat} {result : String}
    (stepped : d.connect thread conn result = some d') : Stepped d d' := by
  unfold connect at stepped
  split at stepped
  next =>
    cases stepped
    exact .begins _ rfl rfl rfl rfl
  next => cases stepped

theorem openSocket_stepped {i : CallId} {opening : Opening}
    (stepped : d.openSocket i opening = some d') : Stepped d d' := by
  obtain ⟨call, known, rest⟩ := Option.bind_eq_some_iff.mp stepped
  split at rest
  next at_ =>
    cases opening with
    | threw exception displayText =>
      cases rest
      exact .runs known rfl rfl at_ (.fails _) rfl rfl
    | noListener =>
      cases rest
      exact .runs known rfl rfl at_ (.fails _) rfl rfl
    | opened =>
      cases rest
      exact .runs known rfl rfl at_ .opens rfl rfl
  next => cases rest

theorem sendConnect_stepped {i : CallId} {sent : Bool} (stepped : d.sendConnect i sent = some d') :
    Stepped d d' := by
  obtain ⟨call, known, rest⟩ := Option.bind_eq_some_iff.mp stepped
  split at rest
  next at_ =>
    cases sent with
    | true =>
      cases rest
      exact .runs known rfl rfl at_ .sends rfl rfl
    | false =>
      cases rest
      exact .runs known rfl rfl at_ (.unsent _) rfl rfl
  next => cases rest

theorem proceed_stepped {i : CallId} (stepped : d.proceed i = some d') : Stepped d d' := by
  obtain ⟨call, known, rest⟩ := Option.bind_eq_some_iff.mp stepped
  cases at_ : call.step with
  | clearBrokerConn =>
    simp only [at_] at rest
    cases rest
    exact .runs known rfl rfl at_ .clears rfl rfl
  | lock =>
    simp only [at_] at rest
    obtain ⟨connectMtx, locked, moved⟩ := Option.bind_eq_some_iff.mp rest
    cases moved
    exact .locks known rfl rfl at_ .first locked rfl
  | publish =>
    simp only [at_] at rest
    cases rest
    exact .runs known rfl rfl at_ .publishes rfl rfl
  | tryWait =>
    simp only [at_] at rest
    cases rest
    exact .waits known rfl rfl at_ rfl rfl rfl
  | signaled =>
    simp only [at_] at rest
    obtain ⟨connectMtx, locked, moved⟩ := Option.bind_eq_some_iff.mp rest
    cases moved
    exact .locks known rfl rfl at_ .woken locked rfl
  | startTimer =>
    simp only [at_] at rest
    split at rest
    next => cases rest
    next =>
      cases rest
      exact .runs known rfl rfl at_ (.connects _) rfl rfl
  | expired =>
    simp only [at_] at rest
    obtain ⟨connectMtx, locked, moved⟩ := Option.bind_eq_some_iff.mp rest
    cases moved
    exact .locks known rfl rfl at_ .late locked rfl
  | timedOut =>
    simp only [at_] at rest
    cases rest
    exact .runs known rfl rfl at_ .resets rfl rfl
  | unlock =>
    simp only [at_] at rest
    cases rest
    exact .unlocks _ known rfl rfl at_ rfl rfl rfl
  | _ => simp only [at_, reduceCtorEq] at rest

theorem expire_stepped {i : CallId} (stepped : d.expire i = some d') : Stepped d d' := by
  obtain ⟨call, known, rest⟩ := Option.bind_eq_some_iff.mp stepped
  split at rest
  next at_ =>
    cases rest
    exact .expires known rfl rfl at_ rfl rfl rfl
  next => cases rest

theorem store_stepped {change : NmqttBrokerConnection → NmqttBrokerConnection} {n : Nat}
    {a : ConnackCall}
    (stepped : ((d.store change).bind fun e => some (e.setConnack n a)) = some d') : Stepped d d' := by
  obtain ⟨e, stored, moved⟩ := Option.bind_eq_some_iff.mp stepped
  obtain ⟨c, -, calling⟩ := Option.bind_eq_some_iff.mp stored
  obtain ⟨call, -, written⟩ := Option.bind_eq_some_iff.mp calling
  cases written
  cases moved
  exact .idle rfl rfl rfl

theorem signal_stepped {n : Nat} {a : ConnackCall}
    (stepped : (d.signal.bind fun e => some (e.setConnack n a)) = some d') : Stepped d d' := by
  obtain ⟨e, sent, moved⟩ := Option.bind_eq_some_iff.mp stepped
  cases moved
  unfold signal at sent
  cases queue : d.waiters with
  | nil =>
    simp only [queue] at sent
    cases sent
    exact .idle rfl rfl rfl
  | cons c waiters =>
    simp only [queue] at sent
    obtain ⟨call, known, woken⟩ := Option.bind_eq_some_iff.mp sent
    cases woken
    exact .wakes known rfl rfl rfl rfl queue

theorem handle_stepped {n : Nat} (stepped : d.handle n = some d') : Stepped d d' := by
  obtain ⟨a, -, rest⟩ := Option.bind_eq_some_iff.mp stepped
  cases at_ : a.step with
  | test =>
    simp only [at_] at rest
    cases rest
    exact .idle rfl rfl rfl
  | handle =>
    simp only [at_] at rest
    exact store_stepped rest
  | sessionPresent =>
    simp only [at_] at rest
    exact store_stepped rest
  | responseCode =>
    simp only [at_] at rest
    exact store_stepped rest
  | signal stored =>
    simp only [at_] at rest
    exact signal_stepped rest
  | returned => simp only [at_, reduceCtorEq] at rest

theorem step_stepped {a : Action} (stepped : d.step a = some d') : Stepped d d' := by
  cases a with
  | connect thread conn result => exact connect_stepped stepped
  | openSocket call opening => exact openSocket_stepped stepped
  | sendConnect call sent => exact sendConnect_stepped stepped
  | proceed call => exact proceed_stepped stepped
  | expire call => exact expire_stepped stepped
  | stopTimer =>
    change (if d.timer then _ else none) = some d' at stepped
    split at stepped
    next =>
      cases stepped
      exact .idle rfl rfl rfl
    next => cases stepped
  | receive handle sessionPresent code =>
    obtain ⟨connection, -, received⟩ := Option.bind_eq_some_iff.mp stepped
    cases received
    exact .idle rfl rfl rfl
  | handle connack => exact handle_stepped stepped

end Inversion

/-! ### Who holds the mutex -/

/-- The mutex is locked once for each call that holds it, and all of these are calls of its owner.
Only calls that wait are in the queue. -/
structure Accounted (d : NmqttClient) : Prop where
  depth : d.connectMtx.depth = d.calls.countP fun call => call.step.locking
  owner : ∀ call ∈ d.calls, call.step.locking = true → call.thread = d.connectMtx.owner
  nodup : d.waiters.Nodup
  waiting : ∀ c ∈ d.waiters, ∃ call, d.calls[c]? = some call ∧ call.step = .waiting

theorem accounted_new (records : Nat → NmqttBrokerConnection) : (new records).Accounted where
  depth := rfl
  owner := fun _ member => by cases member
  nodup := List.nodup_nil
  waiting := fun _ member => by cases member

namespace Accounted
variable {d d' : NmqttClient} (accounted : d.Accounted)
include accounted

/-- One call has gone on, and the mutex has followed it. -/
theorem replace {i : CallId} {call call' : ConnectCall} (known : d.calls[i]? = some call)
    (calls : d'.calls = d.calls.set i call')
    (depth : d'.connectMtx.depth + call.step.locking.toNat =
      d.connectMtx.depth + call'.step.locking.toNat)
    (owner : ∀ other ∈ d.calls, other.step.locking = true → other.thread = d'.connectMtx.owner)
    (own : call'.step.locking = true → call'.thread = d'.connectMtx.owner)
    (nodup : d'.waiters.Nodup)
    (waiting : ∀ c ∈ d'.waiters, c = i ∧ call'.step = .waiting ∨ c ≠ i ∧ c ∈ d.waiters) :
    d'.Accounted := by
  refine ⟨?_, ?_, nodup, ?_⟩
  · have counted := Splice.countP_set_known known call' fun call => call.step.locking
    rw [calls]
    have before := accounted.depth
    omega
  · rw [calls]
    intro other member
    rcases List.mem_or_eq_of_mem_set member with old | rfl
    · exact owner other old
    · exact own
  · intro c member
    rw [calls, Splice.getElem?_set_known known]
    rcases waiting c member with ⟨rfl, waits⟩ | ⟨different, old⟩
    · exact ⟨call', if_pos rfl, waits⟩
    · rw [if_neg different]
      exact accounted.waiting c old

/-- A call that does not wait is not in the queue. -/
theorem notQueued {i : CallId} {call : ConnectCall} (known : d.calls[i]? = some call)
    (idle : call.step ≠ .waiting) : ∀ c ∈ d.waiters, c ≠ i ∧ c ∈ d.waiters := by
  intro c member
  refine ⟨?_, member⟩
  rintro rfl
  obtain ⟨call', known', waits⟩ := accounted.waiting c member
  cases known.symm.trans known'
  exact idle waits

theorem locked {thread : Nat} {m : Mutex} (taken : d.connectMtx.lock thread = some m) :
    m.depth = d.connectMtx.depth + 1 ∧ m.owner = thread ∧
      ∀ other ∈ d.calls, other.step.locking = true → other.thread = thread := by
  unfold Mutex.lock at taken
  split at taken
  next free =>
    cases taken
    refine ⟨rfl, rfl, ?_⟩
    intro other member locking
    rcases free with none | same
    · have positive : 0 < d.calls.countP fun call => call.step.locking :=
        List.countP_pos_iff.mpr ⟨other, member, locking⟩
      rw [← accounted.depth, none] at positive
      cases positive
    · rw [accounted.owner other member locking, same]
  next => cases taken

/-- While some call holds the mutex, no other thread takes it. -/
theorem barred {holder : ConnectCall} (member : holder ∈ d.calls)
    (locking : holder.step.locking = true) {thread : Nat} (different : thread ≠ holder.thread) :
    d.connectMtx.lock thread = none := by
  rw [← Option.not_isSome_iff_eq_none]
  intro some
  obtain ⟨m, taken⟩ := Option.isSome_iff_exists.mp some
  obtain ⟨-, -, owner⟩ := accounted.locked taken
  exact different (owner holder member locking).symm

theorem step (stepped : Stepped d d') : d'.Accounted := by
  cases stepped with
  | idle calls connectMtx waiters =>
    refine ⟨?_, ?_, ?_, ?_⟩
    · rw [calls, connectMtx]
      exact accounted.depth
    · rw [calls, connectMtx]
      exact accounted.owner
    · rw [waiters]
      exact accounted.nodup
    · rw [calls, waiters]
      exact accounted.waiting
  | begins call first calls connectMtx waiters =>
    refine ⟨?_, ?_, ?_, ?_⟩
    · rw [calls, connectMtx, List.countP_append, List.countP_singleton, first]
      exact accounted.depth
    · rw [calls, connectMtx]
      intro other member locking
      rcases List.mem_append.mp member with old | new
      · exact accounted.owner other old locking
      · rw [List.mem_singleton.mp new, first] at locking
        cases locking
    · rw [waiters]
      exact accounted.nodup
    · rw [calls, waiters]
      intro c member
      obtain ⟨other, known, waits⟩ := accounted.waiting c member
      refine ⟨other, ?_, waits⟩
      rw [List.getElem?_append_left (List.getElem?_eq_some_iff.mp known).1]
      exact known
  | @runs i call call' s known calls thread at_ runs connectMtx waiters =>
    subst at_
    apply accounted.replace known calls
    · rw [connectMtx, runs.locking]
    · rw [connectMtx]
      exact accounted.owner
    · rw [connectMtx, runs.locking, thread]
      exact accounted.owner call (List.mem_of_getElem? known)
    · rw [waiters]
      exact accounted.nodup
    · rw [waiters]
      exact fun c member => .inr (accounted.notQueued known runs.idle.1 c member)
  | @locks i call call' s known calls thread at_ locks taken waiters =>
    subst at_
    obtain ⟨depth, owner, owned⟩ := accounted.locked taken
    obtain ⟨atLock, before, after⟩ := locks.takes
    apply accounted.replace known calls
    · rw [depth, before, after]
      rfl
    · rw [owner]
      exact owned
    · rw [owner]
      exact fun _ => thread
    · rw [waiters]
      exact accounted.nodup
    · rw [waiters]
      have idle := (ConnectStep.atLock_idle atLock).1
      exact fun c member => .inr (accounted.notQueued known idle c member)
  | @waits i call call' known calls thread at_ after connectMtx waiters =>
    have held : 0 < d.connectMtx.depth := by
      rw [accounted.depth]
      exact List.countP_pos_iff.mpr ⟨call, List.mem_of_getElem? known, by rw [at_]; rfl⟩
    have out := accounted.notQueued known (by rw [at_]; decide)
    apply accounted.replace known calls
    · rw [connectMtx, at_, after]
      change d.connectMtx.depth - 1 + 1 = d.connectMtx.depth + 0
      omega
    · rw [connectMtx]
      exact accounted.owner
    · rw [after]
      intro locking
      cases locking
    · rw [waiters]
      refine List.nodup_append.mpr ⟨accounted.nodup, List.nodup_singleton i, ?_⟩
      intro c queued c' last same
      rw [List.mem_singleton] at last
      exact (out c queued).1 (same.trans last)
    · rw [waiters]
      intro c member
      rcases List.mem_append.mp member with old | new
      · exact .inr (out c old)
      · exact .inl ⟨List.mem_singleton.mp new, after⟩
  | @unlocks i call call' conn known calls thread at_ after connectMtx waiters =>
    have held : 0 < d.connectMtx.depth := by
      rw [accounted.depth]
      exact List.countP_pos_iff.mpr ⟨call, List.mem_of_getElem? known, by rw [at_]; rfl⟩
    apply accounted.replace known calls
    · rw [connectMtx, at_, after]
      change d.connectMtx.depth - 1 + 1 = d.connectMtx.depth + 0
      omega
    · rw [connectMtx]
      exact accounted.owner
    · rw [after]
      intro locking
      cases locking
    · rw [waiters]
      exact accounted.nodup
    · rw [waiters]
      exact fun c member => .inr (accounted.notQueued known (by rw [at_]; decide) c member)
  | @wakes i call call' known calls thread after connectMtx queue =>
    have front := List.nodup_cons.mp (queue ▸ accounted.nodup)
    have waits : call.step = .waiting := by
      obtain ⟨other, known', waits⟩ := accounted.waiting i (by rw [queue]; exact List.mem_cons_self)
      cases known.symm.trans known'
      exact waits
    apply accounted.replace known calls
    · rw [connectMtx, waits, after]
      rfl
    · rw [connectMtx]
      exact accounted.owner
    · rw [after]
      intro locking
      cases locking
    · exact front.2
    · intro c member
      refine .inr ⟨?_, by rw [queue]; exact List.mem_cons_of_mem i member⟩
      rintro rfl
      exact front.1 member
  | @expires i call call' known calls thread at_ after connectMtx waiters =>
    apply accounted.replace known calls
    · rw [connectMtx, at_, after]
      rfl
    · rw [connectMtx]
      exact accounted.owner
    · rw [after]
      intro locking
      cases locking
    · rw [waiters]
      exact accounted.nodup.filter _
    · rw [waiters]
      intro c member
      obtain ⟨old, different⟩ := List.mem_filter.mp member
      exact .inr ⟨of_decide_eq_true different, old⟩

end Accounted

theorem accounted_replay {records : Nat → NmqttBrokerConnection} {labels : List Action}
    {d : NmqttClient} (replayed : replay NmqttClient.step (new records) labels = some d) :
    d.Accounted := by
  refine replay_invariant ?_ (accounted_new records) replayed
  intro t a u accounted stepped
  exact accounted.step (step_stepped stepped)

/-! ### Runs behind a call that has returned true -/

/-- What has become of a call: it stays with its thread; when it had returned it is as it was; and
from the sent CONNECT on it waits until it gets the mutex. -/
def Follows (d' : NmqttClient) (i : CallId) (call : ConnectCall) : Prop :=
  ∃ call', d'.calls[i]? = some call' ∧ call'.thread = call.thread ∧
    (call.step.hasReturned = true → call'.step = call.step) ∧
    (call.step.awaiting = true → call'.step.awaiting = true ∨ call'.step.locking = true)

theorem Stepped.follows {d d' : NmqttClient} (stepped : Stepped d d') {i : CallId}
    {call : ConnectCall} (known : d.calls[i]? = some call) (accounted : d.Accounted) :
    d'.Follows i call := by
  have kept (calls : d'.calls[i]? = some call) : d'.Follows i call :=
    ⟨call, calls, rfl, fun _ => rfl, .inl⟩
  have replaced {j : CallId} {old new : ConnectCall} (found : d.calls[j]? = some old)
      (calls : d'.calls = d.calls.set j new) (thread : new.thread = old.thread)
      (returned : old.step.hasReturned = false)
      (goes : old.step.awaiting = true → new.step.awaiting = true ∨ new.step.locking = true) :
      d'.Follows i call := by
    have after := Splice.getElem?_set_known found new i
    rw [← calls] at after
    by_cases same : i = j
    · subst same
      cases known.symm.trans found
      refine ⟨new, after.trans (if_pos rfl), thread, fun gone => ?_, goes⟩
      rw [returned] at gone
      cases gone
    · exact kept (after.trans ((if_neg same).trans known))
  cases stepped with
  | idle calls _ _ => exact kept (calls ▸ known)
  | begins call' first calls _ _ =>
    apply kept
    rw [calls, List.getElem?_append_left (List.getElem?_eq_some_iff.mp known).1]
    exact known
  | runs found calls thread at_ runs _ _ =>
    subst at_
    refine replaced found calls thread runs.returns fun awaiting => ?_
    rw [runs.idle.2] at awaiting
    cases awaiting
  | locks found calls thread at_ locks _ _ =>
    subst at_
    have atLock := (ConnectStep.atLock_idle locks.takes.1).2
    exact replaced found calls thread atLock fun _ => .inr locks.takes.2.2
  | waits found calls thread at_ after _ _ =>
    refine replaced found calls thread (by rw [at_]; rfl) fun _ => .inl ?_
    rw [after]
    rfl
  | unlocks conn found calls thread at_ after _ _ =>
    refine replaced found calls thread (by rw [at_]; rfl) fun awaiting => ?_
    rw [at_] at awaiting
    cases awaiting
  | @wakes j old new found calls thread after _ queue =>
    have waits : old.step = .waiting := by
      obtain ⟨other, known', waits⟩ := accounted.waiting j (by rw [queue]; exact List.mem_cons_self)
      cases found.symm.trans known'
      exact waits
    refine replaced found calls thread (by rw [waits]; rfl) fun _ => .inl ?_
    rw [after]
    rfl
  | expires found calls thread at_ after _ _ =>
    refine replaced found calls thread (by rw [at_]; rfl) fun _ => .inl ?_
    rw [after]
    rfl

/-- A call that is kept from the mutex does not move. -/
theorem proceed_barred {d : NmqttClient} {i : CallId} {call : ConnectCall}
    (known : d.calls[i]? = some call) (atLock : call.step.atLock = true)
    (taken : d.connectMtx.lock call.thread = none) : d.proceed i = none := by
  unfold NmqttClient.proceed
  cases at_ : call.step with
  | lock => simp [known, at_, taken]
  | signaled => simp [known, at_, taken]
  | expired => simp [known, at_, taken]
  | _ =>
    rw [at_] at atLock
    cases atLock

/-- A call of the thread has returned true. -/
def HasConnected (d : NmqttClient) (i : CallId) (thread : Nat) : Prop :=
  ∃ call conn, d.calls[i]? = some call ∧ call.thread = thread ∧ call.step = .returned true conn

/-- A call of the thread has sent its CONNECT and not returned. -/
def IsAwaiting (d : NmqttClient) (j : CallId) (thread : Nat) : Prop :=
  ∃ call, d.calls[j]? = some call ∧ call.thread = thread ∧ call.step.awaiting = true

section Held
variable {d d' : NmqttClient} {i j : CallId} {thread thread' : Nat}

theorem HasConnected.holder (connected : d.HasConnected i thread) :
    ∃ call ∈ d.calls, call.step.locking = true ∧ call.thread = thread := by
  obtain ⟨call, conn, known, same, returned⟩ := connected
  exact ⟨call, List.mem_of_getElem? known, (ConnectStep.locking_of_returned returned).1, same⟩

theorem HasConnected.step (connected : d.HasConnected i thread) (accounted : d.Accounted)
    (stepped : Stepped d d') : d'.HasConnected i thread := by
  obtain ⟨call, conn, known, same, returned⟩ := connected
  obtain ⟨call', known', thread', stays, -⟩ := stepped.follows known accounted
  have still := stays (ConnectStep.locking_of_returned returned).2
  exact ⟨call', conn, known', thread'.trans same, still.trans returned⟩

theorem IsAwaiting.step (awaiting : d.IsAwaiting j thread') (connected : d.HasConnected i thread)
    (different : thread' ≠ thread) (accounted : d.Accounted) (stepped : Stepped d d') :
    d'.IsAwaiting j thread' := by
  obtain ⟨call, known, same, waits⟩ := awaiting
  obtain ⟨call', known', kept, -, goes⟩ := stepped.follows known accounted
  refine ⟨call', known', kept.trans same, (goes waits).resolve_right fun locking => ?_⟩
  -- the mutex has one owner, and that is the thread that has connected
  have after := accounted.step stepped
  obtain ⟨holder, member, holds, own⟩ := (connected.step accounted stepped).holder
  have owner := after.owner call' (List.mem_of_getElem? known') locking
  rw [← after.owner holder member holds, own, kept, same] at owner
  exact different owner

end Held

/-- A call that has returned true keeps the mutex for its thread. No other thread ever gets it
again, and a call of another thread that has sent its CONNECT never returns, answered or not. -/
theorem connected_locks_out {records : Nat → NmqttBrokerConnection} {labels later : List Action}
    {d d' : NmqttClient} (replayed : replay NmqttClient.step (new records) labels = some d)
    (resumed : replay NmqttClient.step d later = some d') {i : CallId} {thread : Nat}
    (connected : d.HasConnected i thread) :
    d'.connectMtx.owner = thread ∧ 0 < d'.connectMtx.depth ∧
      d'.connectMtx.depth = d'.calls.countP (fun call => call.step.locking) ∧
      (∀ call ∈ d'.calls, call.step.locking = true → call.thread = thread) ∧
      ∀ j thread', thread' ≠ thread → d.IsAwaiting j thread' → d'.IsAwaiting j thread' ∧
        ∀ call ∈ d'.calls[j]?, call.step.atLock = true → d'.proceed j = none := by
  have accounted := accounted_replay replayed
  have keep : ∀ s a t, s.Accounted ∧ s.HasConnected i thread → NmqttClient.step s a = some t →
      t.Accounted ∧ t.HasConnected i thread := by
    rintro s a t ⟨accounted, connected⟩ stepped
    have moved := step_stepped stepped
    exact ⟨accounted.step moved, connected.step accounted moved⟩
  obtain ⟨accounted', connected'⟩ := replay_invariant keep ⟨accounted, connected⟩ resumed
  obtain ⟨holder, member, holds, own⟩ := connected'.holder
  have owner : d'.connectMtx.owner = thread := by
    rw [← accounted'.owner holder member holds, own]
  refine ⟨owner, ?_, accounted'.depth, ?_, ?_⟩
  · rw [accounted'.depth]
    exact List.countP_pos_iff.mpr ⟨holder, member, holds⟩
  · intro call member locking
    rw [accounted'.owner call member locking, owner]
  · intro j thread' different awaiting
    have keep' : ∀ s a t, (s.Accounted ∧ s.HasConnected i thread) ∧ s.IsAwaiting j thread' →
        NmqttClient.step s a = some t →
        (t.Accounted ∧ t.HasConnected i thread) ∧ t.IsAwaiting j thread' := by
      rintro s a t ⟨both, awaiting⟩ stepped
      exact ⟨keep s a t both stepped,
        awaiting.step both.2 different both.1 (step_stepped stepped)⟩
    obtain ⟨-, awaiting'⟩ := replay_invariant keep' ⟨⟨accounted, connected⟩, awaiting⟩ resumed
    refine ⟨awaiting', ?_⟩
    intro call known atLock
    obtain ⟨call', known', same, -⟩ := awaiting'
    cases known.symm.trans known'
    apply proceed_barred known' atLock
    apply accounted'.barred member holds
    rw [same, own]
    exact different

/-- One thread has connected. The CONNACK of the other one is handled, and its call stays before
the mutex. -/
theorem connected_locks_out_second : ∃ d : NmqttClient, d.connectMtx.owner = 0 ∧
    (∀ a ∈ d.connacks, a.step = .returned) ∧ d.IsAwaiting 1 1 ∧ d.proceed 1 = none := by
  have replayed : ∃ d, replay NmqttClient.step (new fun _ => ⟨0, false, 0⟩)
      [.connect 0 0 "", .openSocket 0 .opened, .proceed 0, .sendConnect 0 true, .proceed 0, .proceed 0,
        .proceed 0, .receive 0 true 0, .handle 0, .handle 0, .handle 0, .handle 0, .handle 0,
        .proceed 0, .proceed 0,
        .connect 1 1 "", .openSocket 1 .opened, .proceed 1, .sendConnect 1 true] = some d ∧
      (∃ d', replay NmqttClient.step d [.receive 1 true 0, .handle 1, .handle 1] = some d' ∧
        (∀ a ∈ d'.connacks, a.step = .returned) ∧ ∃ call ∈ d'.calls[1]?, call.step = .lock) ∧
      (∃ call ∈ d.calls[0]?, call.thread = 0 ∧ call.step = .returned true ⟨0, true, 0⟩) ∧
      ∃ call ∈ d.calls[1]?, call.thread = 1 ∧ call.step.awaiting = true := by
    refine ⟨_, rfl, ⟨_, rfl, ?_⟩, ?_⟩ <;> decide
  obtain ⟨d, replayed, ⟨d', resumed, handled, call, known, at_⟩, ⟨first, known₀, own, returned⟩,
    second, known₁, thread, awaiting⟩ := replayed
  have locked := connected_locks_out replayed resumed ⟨first, _, known₀, own, returned⟩
  obtain ⟨still, stuck⟩ := locked.2.2.2.2 1 1 (by decide) ⟨second, known₁, thread, awaiting⟩
  exact ⟨d', locked.1, handled, still, stuck call known (by rw [at_]; rfl)⟩

end NmqttClient
end NymphMqtt
