import NymphMqtt.ClientCalls
import NymphMqtt.Library.Transition

/-! The ping timer of a client over runs of the process: when it is started over a thread
that was not joined, stopped without one, and left running by `shutdown`. -/

namespace NymphMqtt.Runtime
open NymphMqtt.Library OrderedMap Transition

/-! ### The order of the calls -/

def Call.establishes : Call → Bool
  | .connect _ o => o.answered
  | _ => false

def Call.disconnects : Call → Bool
  | .disconnect _ _ _ => true
  | _ => false

/-- A connection is established, and the client shut down, only after as many disconnects as
connections. A disconnect comes only after one connection more. -/
def Call.InTurn (established disconnected : Nat) : Call → Prop
  | .connect _ o => o.answered = true → established = disconnected
  | .disconnect _ _ _ => established = disconnected + 1
  | .shutdown _ => established = disconnected
  | _ => True

/-- Every call of the list is in turn, with what was counted before the list. -/
def Orderly (established disconnected : Nat) (calls : List Call) : Prop :=
  ∀ before call after, calls = before ++ call :: after →
    call.InTurn (established + before.countP Call.establishes)
      (disconnected + before.countP Call.disconnects)

theorem orderly_cons {established disconnected : Nat} {call : Call} {calls : List Call} :
    Orderly established disconnected (call :: calls) ↔
      call.InTurn established disconnected ∧
        Orderly (established + call.establishes.toNat) (disconnected + call.disconnects.toNat)
          calls := by
  have counts (before : List Call) : ∀ (e : Call → Bool) (n : Nat),
      n + (call :: before).countP e = n + (e call).toNat + before.countP e := by
    intro e n
    rw [List.countP_cons]
    cases e call <;> simp [Nat.add_comm, Nat.add_left_comm]
  constructor
  · intro orderly
    refine ⟨orderly [] call calls rfl, ?_⟩
    intro before next after same
    rw [← counts before Call.establishes, ← counts before Call.disconnects]
    exact orderly (call :: before) next after (by rw [same, List.cons_append])
  · intro ⟨first, rest⟩ before next after same
    cases before with
    | nil =>
      obtain ⟨rfl, -⟩ := List.cons.inj same
      exact first
    | cons head before =>
      obtain ⟨rfl, tail⟩ := List.cons.inj same
      rw [counts before Call.establishes, counts before Call.disconnects]
      exact rest before next after tail

/-- The calls made on one client. -/
def callsOf (client : ClientId) (calls : List Invocation) : List Call :=
  (calls.filter fun l => l.client = client).map fun l => l.call

/-! ### The timer -/

/-- The timer was not started over a joinable thread and not stopped without one, and
a shutdown has left none behind. -/
def NmqttClient.TimerKept (call : Call) (c' : NmqttClient) (exit : Exit) : Prop :=
  exit ≠ .terminated .timerStart ∧ exit ≠ .threw .timerJoin ∧
    ∀ failing, call = .shutdown failing → c'.pingTimer = false

def Process.TimerKept (client : ClientId) (_ : Process) (l : Invocation) (q : Process) : Prop :=
  l.client = client → ∀ c', q.clients[client]? = some c' → c'.TimerKept l.call q.answer.exit

namespace NmqttClient
variable {c c' : NmqttClient} {s s' : Statics} {client thread established disconnected : Nat}
  {call : Call} {answer : Answer}

theorem counted_free {joinable : Bool} (counted : established = disconnected + joinable.toNat) :
    established = disconnected ↔ joinable = false := by
  cases joinable <;> simp [counted]

theorem counted_running {joinable : Bool} (counted : established = disconnected + joinable.toNat) :
    established = disconnected + 1 ↔ ¬ joinable = false := by
  cases joinable <;> simp [counted]

theorem connect_timer {data : Nat} {o : ConnectOutcome}
    (counted : established = disconnected + c.pingTimer.toNat)
    (left : Connected c s client thread data o c' s' answer) :
    c'.TimerKept (.connect data o) answer.exit ↔
      (Call.connect data o).InTurn established disconnected := by
  rw [TimerKept, left.exit, Ne, ConnectOutcome.exit_timerStart, Call.InTurn, counted_free counted,
    not_and, Bool.not_eq_true]
  exact and_iff_left ⟨o.exit_ne_timerJoin _, nofun⟩

theorem disconnect_timer {handle : BitVec 32} {sending : Sending} {closing : Closing}
    (counted : established = disconnected + c.pingTimer.toNat)
    (left : Disconnected c s thread handle sending closing c' s' answer) :
    c'.TimerKept (.disconnect handle sending closing) answer.exit ↔
      (Call.disconnect handle sending closing).InTurn established disconnected := by
  have survived : answer.exit ≠ .terminated .timerStart := by
    intro ended
    have left_survived := left.survived
    rw [ended] at left_survived
    cases left_survived
  rw [Call.InTurn, counted_running counted, ← left.joined]
  exact ⟨fun kept => kept.2.1, fun joined => ⟨survived, joined, nofun⟩⟩

theorem shutdown_timer {failing : List SocketId}
    (counted : established = disconnected + c.pingTimer.toNat)
    (left : ShutDown c s thread failing c' s' answer) :
    c'.TimerKept (.shutdown failing) answer.exit ↔
      (Call.shutdown failing).InTurn established disconnected := by
  have other : answer.exit ≠ .terminated .timerStart ∧ answer.exit ≠ .threw .timerJoin := by
    obtain exit | exit | exit := left.ended <;> rw [exit] <;> exact ⟨nofun, nofun⟩
  rw [Call.InTurn, counted_free counted, ← left.pingTimer]
  exact ⟨fun kept => kept.2.2 failing rfl, fun stopped => ⟨other.1, other.2, fun _ _ => stopped⟩⟩

/-- A call that only sends, or only sets the handler, is always in turn. -/
theorem idle_timer {sent : Bool} (idle : ∀ failing, call ≠ .shutdown failing)
    (exit : answer.exit = .returned sent) : c'.TimerKept call answer.exit := by
  rw [exit]
  exact ⟨nofun, nofun, fun failing same => absurd same (idle failing)⟩

theorem invoke_timerKept_iff (counted : established = disconnected + c.pingTimer.toNat)
    (called : c.invoke s client thread call = some (c', s', answer)) :
    c'.TimerKept call answer.exit ↔ call.InTurn established disconnected := by
  cases call with
  | setMessageHandler handler =>
    cases called
    exact iff_of_true (idle_timer nofun rfl) trivial
  | connect data outcome => exact connect_timer counted (connect_spec called)
  | disconnect handle sending closing => exact disconnect_timer counted (disconnect_spec called)
  | publish handle sending =>
    obtain ⟨-, ⟨sent, exit⟩, -⟩ := publish_spec called
    exact iff_of_true (idle_timer nofun exit) trivial
  | subscribe handle sending =>
    obtain ⟨-, ⟨sent, exit⟩, -⟩ := publish_spec called
    exact iff_of_true (idle_timer nofun exit) trivial
  | unsubscribe handle sending =>
    obtain ⟨-, ⟨sent, exit⟩, -⟩ := publish_spec called
    exact iff_of_true (idle_timer nofun exit) trivial
  | shutdown failing => exact shutdown_timer counted (shutdown_spec called)

/-- A call in turn leaves the timer running exactly if one more connection was established
than was disconnected. -/
theorem invoke_counted (counted : established = disconnected + c.pingTimer.toNat)
    (called : c.invoke s client thread call = some (c', s', answer))
    (turn : call.InTurn established disconnected) :
    established + call.establishes.toNat =
      disconnected + call.disconnects.toNat + c'.pingTimer.toNat := by
  cases call with
  | setMessageHandler handler =>
    cases called
    exact counted
  | connect data outcome =>
    rw [(connect_spec called).pingTimer]
    change established + outcome.answered.toNat = disconnected + _
    cases answered : outcome.answered with
    | false =>
      rw [Bool.or_false]
      exact counted
    | true =>
      rw [Bool.or_true, turn answered]
  | disconnect handle sending closing =>
    rw [(disconnect_spec called).pingTimer]
    exact turn
  | publish handle sending =>
    obtain ⟨-, -, m, rfl, -⟩ := publish_spec called
    exact counted
  | subscribe handle sending =>
    obtain ⟨-, -, m, rfl, -⟩ := publish_spec called
    exact counted
  | unsubscribe handle sending =>
    obtain ⟨-, -, m, rfl, -⟩ := publish_spec called
    exact counted
  | shutdown failing =>
    rw [(shutdown_spec called).pingTimer]
    exact counted

end NmqttClient

/-! ### Runs -/

theorem orderly_nil (established disconnected : Nat) : Orderly established disconnected [] := by
  intro before call after same
  cases before <;> cases same

theorem callsOf_cons_self {client : ClientId} {l : Invocation} {calls : List Invocation}
    (same : l.client = client) : callsOf client (l :: calls) = l.call :: callsOf client calls := by
  rw [callsOf, List.filter_cons_of_pos (by simpa using same)]
  rfl

theorem callsOf_cons_other {client : ClientId} {l : Invocation} {calls : List Invocation}
    (other : l.client ≠ client) : callsOf client (l :: calls) = callsOf client calls := by
  rw [callsOf, List.filter_cons_of_neg (by simpa using other)]
  rfl

namespace Process

/-- The counts stand for the state of the timer. A call out of turn breaks it, and a call in
turn keeps the counts right. -/
theorem along_timerKept_iff {client : ClientId} {calls : List Invocation} {p q : Process}
    {c : NmqttClient} {established disconnected : Nat} (here : p.clients[client]? = some c)
    (counted : established = disconnected + c.pingTimer.toNat)
    (run : replay Process.step p calls = some q) :
    Along Process.step (TimerKept client) p calls ↔
      Orderly established disconnected (callsOf client calls) := by
  induction calls generalizing p c established disconnected with
  | nil => exact iff_of_true trivial (orderly_nil _ _)
  | cons l calls ih =>
    obtain ⟨p', stepped, rest⟩ := Option.bind_eq_some_iff.mp run
    rw [along_cons stepped]
    obtain ⟨c₁, c', s', answer, here₁, invoked, rfl⟩ := step_cases stepped
    by_cases same : l.client = client
    · subst same
      obtain rfl : c₁ = c := Option.some_inj.mp (here₁.symm.trans here)
      have here' : (p.clients.set l.client c')[l.client]? = some c' :=
        List.getElem?_set_self (List.getElem?_eq_some_iff.mp here).1
      have kept : p.TimerKept l.client l ⟨p.clients.set l.client c', s', answer⟩ ↔
          l.call.InTurn established disconnected := by
        rw [← NmqttClient.invoke_timerKept_iff counted invoked, TimerKept, here']
        exact ⟨fun all => all rfl c' rfl, fun meets _ c₂ same => Option.some_inj.mp same ▸ meets⟩
      rw [callsOf_cons_self rfl, orderly_cons, kept]
      apply and_congr_right
      intro turn
      exact ih here' (NmqttClient.invoke_counted counted invoked turn) rest
    · have here' : (p.clients.set l.client c')[client]? = some c := by
        rw [List.getElem?_set_ne same, here]
      rw [callsOf_cons_other same, ← ih here' counted rest]
      exact and_iff_right fun client_is => absurd client_is same

/-- The timer of a client is kept exactly if its established connections and its disconnects
alternate, and no connection is left at a shutdown. -/
theorem timer_kept_iff {count : Nat} (client : Fin count) {calls : List Invocation} {q : Process}
    (run : replay Process.step (Process.new count) calls = some q) :
    Along Process.step (TimerKept client) (Process.new count) calls ↔
      Orderly 0 0 (callsOf client calls) := by
  have here : (Process.new count).clients[client.val]? = some .new := by
    change (List.replicate count NmqttClient.new)[client.val]? = _
    rw [List.getElem?_replicate, if_pos client.isLt]
  exact along_timerKept_iff here rfl run

/-- Two connections one after the other, and a shutdown. -/
theorem timer_kept_twice :
    Along Process.step (TimerKept 0) (Process.new 1)
      [⟨0, 0, .connect 0 ⟨.opened, .ready, .complete, true⟩⟩,
        ⟨0, 0, .disconnect 0 .complete .closed⟩,
        ⟨0, 0, .connect 0 ⟨.opened, .ready, .complete, true⟩⟩,
        ⟨0, 0, .disconnect 1 .complete .closed⟩, ⟨0, 0, .shutdown []⟩] := by
  apply (timer_kept_iff (0 : Fin 1) rfl).mpr
  change Orderly 0 0 [_, _, _, _, _]
  simp only [orderly_cons]
  exact ⟨fun _ => rfl, rfl, fun _ => rfl, rfl, rfl, orderly_nil _ _⟩

/-- A client that is shut down with a connection open keeps its timer thread. -/
theorem shutdown_keeps_timer :
    ¬ Along Process.step (TimerKept 0) (Process.new 1)
      [⟨0, 0, .connect 0 ⟨.opened, .ready, .complete, true⟩⟩, ⟨0, 0, .shutdown []⟩] := by
  intro kept
  have stopped := ((kept _ rfl).2 _ rfl).1 rfl _ rfl
  have joined := stopped.2.2 [] rfl
  revert joined
  decide

end Process
end NymphMqtt.Runtime
