import NymphMqtt.ClientLocks
import NymphMqtt.Library.Splice

/-! `socketsMutex` over runs of the process: what a call that left it locked means for the calls of
other threads. -/

namespace NymphMqtt

theorem Mutex.lock_barred {m : Mutex} {thread other : Nat} (held : 0 < m.held thread)
    (foreign : other ≠ thread) : m.lock other = none := by
  unfold Mutex.held at held
  split at held
  next owned =>
    rw [Mutex.lock, if_neg]
    rintro (free | mine)
    · omega
    · exact foreign (mine.symm.trans owned)
  next => exact absurd held (Nat.lt_irrefl 0)

namespace Runtime
open NymphMqtt.Library OrderedMap Splice Transition

/-- The calls that come to lock `socketsMutex`. -/
def Call.LocksSockets (c : NmqttClient) : Call → Prop
  | .setMessageHandler _ => False
  | .connect _ o => o.entered = true
  | .disconnect .. => c.pingTimer = true
  | .publish .. | .subscribe .. | .unsubscribe .. | .shutdown _ => True

namespace NmqttClient
variable {c c' : NmqttClient} {s s' : Statics} {client thread : Nat} {call : Call} {answer : Answer}

theorem lockSockets_barred (barred : c.socketsMutex.lock thread = none) :
    c.lockSockets thread = none := by
  rw [lockSockets, barred]
  rfl

theorem sendMessage_barred (barred : c.socketsMutex.lock thread = none) (handle : BitVec 32)
    (sending : Sending) : c.sendMessage thread handle sending = none := by
  rw [sendMessage, lockSockets_barred barred]
  rfl

theorem publish_barred (barred : c.socketsMutex.lock thread = none) (handle : BitVec 32)
    (sending : Sending) : c.publish s thread handle sending = none := by
  rw [publish, sendMessage_barred barred]
  rfl

/-- Where the mutex cannot be had, exactly the calls that do not come to lock it end. -/
theorem invoke_barred (barred : c.socketsMutex.lock thread = none) :
    c.invoke s client thread call = none ↔ call.LocksSockets c := by
  cases call with
  | setMessageHandler handler => exact iff_of_false nofun id
  | connect data o =>
    change c.connect s client thread data o = none ↔ o.entered = true
    unfold connect
    cases opening : o.opening with
    | opened =>
      have entered : o.entered = true := decide_eq_true opening
      dsimp only
      rw [lockSockets_barred barred]
      exact iff_of_true rfl entered
    | caught exception displayText =>
      have entered : o.entered = false := decide_eq_false (by rw [opening]; nofun)
      exact iff_of_false nofun (by rw [entered]; nofun)
    | uncaught =>
      have entered : o.entered = false := decide_eq_false (by rw [opening]; nofun)
      exact iff_of_false nofun (by rw [entered]; nofun)
  | disconnect handle sending closing =>
    change c.disconnect s thread handle sending closing = none ↔ c.pingTimer = true
    unfold disconnect stopTimer
    cases c.pingTimer with
    | false => exact iff_of_false nofun nofun
    | true =>
      have stopped : (c.setTimer false).sendMessage thread handle sending = none :=
        @sendMessage_barred (c.setTimer false) thread barred handle sending
      rw [if_pos rfl]
      dsimp only
      rw [stopped]
      exact iff_of_true rfl rfl
  | publish handle sending => exact iff_of_true (publish_barred barred handle sending) trivial
  | subscribe handle sending => exact iff_of_true (publish_barred barred handle sending) trivial
  | unsubscribe handle sending => exact iff_of_true (publish_barred barred handle sending) trivial
  | shutdown failing =>
    change c.shutdown s thread failing = none ↔ True
    rw [shutdown, lockSockets_barred barred]
    exact iff_of_true rfl trivial

/-- A call that does not come to lock the mutex leaves it alone. -/
theorem invoke_unlocking (unlocking : ¬call.LocksSockets c)
    (called : c.invoke s client thread call = some (c', s', answer)) :
    c'.socketsMutex = c.socketsMutex := by
  cases call with
  | setMessageHandler handler =>
    cases called
    rfl
  | connect data o =>
    change c.connect s client thread data o = _ at called
    unfold connect at called
    cases opening : o.opening with
    | opened => exact absurd (decide_eq_true opening) unlocking
    | caught exception displayText =>
      rw [opening] at called
      cases called
      rfl
    | uncaught =>
      rw [opening] at called
      cases called
      rfl
  | disconnect handle sending closing =>
    have idle : c.pingTimer = false := Bool.not_eq_true _ ▸ unlocking
    change c.disconnect s thread handle sending closing = _ at called
    rw [disconnect, stopTimer, idle] at called
    cases called
    rfl
  | publish handle sending => exact absurd trivial unlocking
  | subscribe handle sending => exact absurd trivial unlocking
  | unsubscribe handle sending => exact absurd trivial unlocking
  | shutdown failing => exact absurd trivial unlocking

/-- No call unlocks more often than it locks. -/
theorem invoke_holds (called : c.invoke s client thread call = some (c', s', answer)) :
    c.socketsMutex.held thread ≤ c'.socketsMutex.held thread := by
  cases call with
  | setMessageHandler handler =>
    cases called
    exact Nat.le_refl _
  | connect data o =>
    rw [(connect_spec called).heldSockets]
    exact Nat.le_add_right _ _
  | disconnect handle sending closing =>
    rw [(disconnect_spec called).heldSockets]
    exact Nat.le_add_right _ _
  | publish handle sending =>
    obtain ⟨-, -, m, rfl, held⟩ := publish_spec called
    exact held ▸ Nat.le_add_right _ _
  | subscribe handle sending =>
    obtain ⟨-, -, m, rfl, held⟩ := publish_spec called
    exact held ▸ Nat.le_add_right _ _
  | unsubscribe handle sending =>
    obtain ⟨-, -, m, rfl, held⟩ := publish_spec called
    exact held ▸ Nat.le_add_right _ _
  | shutdown failing =>
    rw [(shutdown_spec called).heldSockets]
    exact Nat.le_add_right _ _

end NmqttClient

namespace Process
variable {p q : Process} {client thread : Nat}

/-- The thread has locked the mutex of the client at least so many times. -/
def HoldsSockets (client thread depth : Nat) (p : Process) : Prop :=
  ∃ c, p.clients[client]? = some c ∧ depth ≤ c.socketsMutex.held thread

theorem HoldsSockets.step {depth : Nat} {l : Invocation} (some_depth : 0 < depth)
    (holds : HoldsSockets client thread depth p) (stepped : p.step l = some q) :
    HoldsSockets client thread depth q := by
  obtain ⟨c, here, held⟩ := holds
  obtain ⟨c₁, c', s', answer, here₁, invoked, rfl⟩ := step_cases stepped
  by_cases same : l.client = client
  · subst same
    obtain rfl : c₁ = c := Option.some_inj.mp (here₁.symm.trans here)
    refine ⟨c', List.getElem?_set_self (List.getElem?_eq_some_iff.mp here).1, ?_⟩
    by_cases mine : l.thread = thread
    · rw [mine] at invoked
      exact Nat.le_trans held (NmqttClient.invoke_holds invoked)
    · have barred := Mutex.lock_barred (Nat.lt_of_lt_of_le some_depth held) mine
      have unlocking : ¬l.call.LocksSockets c₁ := by
        intro locks
        rw [(NmqttClient.invoke_barred barred).mpr locks] at invoked
        cases invoked
      rw [NmqttClient.invoke_unlocking unlocking invoked]
      exact held
  · exact ⟨c, (List.getElem?_set_ne same).trans here, held⟩

/-- Once a call has left `socketsMutex` locked, its thread keeps it for good: in any continuation
the calls of other threads that come to lock it never end, and all others do. -/
theorem sockets_locked_out {more : List Invocation} {c : NmqttClient}
    (here : p.clients[client]? = some c) (held : 0 < c.socketsMutex.held thread)
    (run : replay Process.step p more = some q) :
    ∃ d, q.clients[client]? = some d ∧ c.socketsMutex.held thread ≤ d.socketsMutex.held thread ∧
      ∀ other call, other ≠ thread → (q.step ⟨client, other, call⟩ = none ↔
        q.answer.exit.terminates = true ∨ call.LocksSockets d) := by
  have first : HoldsSockets client thread (c.socketsMutex.held thread) p := ⟨c, here, Nat.le_refl _⟩
  obtain ⟨d, there, held'⟩ := replay_invariant
    (fun _ _ _ holds stepped => HoldsSockets.step held holds stepped) first run
  refine ⟨d, there, held', ?_⟩
  intro other call foreign
  have barred := Mutex.lock_barred (Nat.lt_of_lt_of_le held held') foreign
  unfold Process.step
  cases terminated : q.answer.exit.terminates with
  | true => exact iff_of_true rfl (.inl rfl)
  | false =>
    rw [if_neg Bool.false_ne_true, there]
    have invoked := @NmqttClient.invoke_barred d q.statics client other call barred
    constructor
    · intro ended
      right
      rw [← invoked]
      cases outcome : d.invoke q.statics client other call with
      | none => rfl
      | some made =>
        change (d.invoke q.statics client other call).bind _ = none at ended
        rw [outcome] at ended
        cases ended
    · rintro (ended | locks)
      · cases ended
      · change (d.invoke q.statics client other call).bind _ = none
        rw [invoked.mpr locks]
        rfl

/-- After one message that was not sent whole, no other thread publishes. -/
theorem sockets_locked_out_short :
    let calls : List Invocation := [⟨0, 0, .connect 0 ⟨.opened, .ready, .complete, true⟩⟩,
      ⟨0, 0, .publish 0 .short⟩]
    ∃ p, replay Process.step (new 1) calls = some p ∧
      p.step ⟨0, 1, .publish 0 .complete⟩ = none := by
  intro calls
  obtain ⟨p, reached, c, here, held⟩ : ∃ p, replay Process.step (new 1) calls = some p ∧
      ∃ c, p.clients[0]? = some c ∧ 0 < c.socketsMutex.held 0 := ⟨_, rfl, _, rfl, by decide⟩
  obtain ⟨d, -, -, ended⟩ := @sockets_locked_out _ _ 0 0 [] c here held rfl
  exact ⟨p, reached, (ended 1 (.publish 0 .complete) (by decide)).mpr (.inr trivial)⟩

end Process
end Runtime
end NymphMqtt
