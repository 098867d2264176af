import NymphMqtt.ClientRuntime

/-! What each call of an `NmqttClient` leaves behind: one lemma for each function, over the
tables, the timer, the locks that the calling thread still holds, and the answer. -/

namespace NymphMqtt
open NymphMqtt.Library OrderedMap

/-! ### Locks -/

/-- How many locks of the mutex a thread holds. -/
def Mutex.held (m : Mutex) (thread : Nat) : Nat := if m.owner = thread then m.depth else 0

theorem Mutex.lock_spec {m m' : Mutex} {thread : Nat} (locked : m.lock thread = some m') :
    m'.owner = thread ∧ m'.held thread = m.held thread + 1 := by
  unfold Mutex.lock at locked
  split at locked
  next free =>
    cases locked
    refine ⟨rfl, ?_⟩
    simp only [Mutex.held, if_true]
    split <;> omega
  next => cases locked

theorem Mutex.held_unlock {m : Mutex} {thread : Nat} (mine : m.owner = thread) :
    m.unlock.held thread = m.held thread - 1 := by
  simp only [Mutex.held, Mutex.unlock, mine, if_true]

namespace Runtime

namespace NmqttClient

variable {c c' : NmqttClient} {s s' : Statics} {client thread data : Nat} {handle : BitVec 32}

theorem lockSockets_spec (locked : c.lockSockets thread = some c') :
    ∃ m, c' = c.setSocketsMutex m ∧ m.owner = thread ∧
      m.held thread = c.socketsMutex.held thread + 1 := by
  obtain ⟨m, taken, rfl⟩ := Option.map_eq_some_iff.mp locked
  exact ⟨m, rfl, Mutex.lock_spec taken⟩

theorem lockConnect_spec (locked : c.lockConnect thread = some c') :
    ∃ m, c' = c.setConnectMtx m ∧ m.owner = thread ∧
      m.held thread = c.connectMtx.held thread + 1 := by
  obtain ⟨m, taken, rfl⟩ := Option.map_eq_some_iff.mp locked
  exact ⟨m, rfl, Mutex.lock_spec taken⟩

/-- The message is sent exactly if the handle is known and all bytes are taken, and a lock
stays behind exactly if the handle is known and they are not. -/
theorem sendMessage_spec {sending : Sending} {sent : Bool}
    (called : c.sendMessage thread handle sending = some (c', sent)) :
    ∃ m, c' = c.setSocketsMutex m ∧
      sent = decide (handle ∈ c.sockets ∧ sending = .complete) ∧
      m.held thread =
        c.socketsMutex.held thread + if handle ∈ c.sockets ∧ sending ≠ .complete then 1 else 0 := by
  obtain ⟨c₁, locked, called⟩ := Option.bind_eq_some_iff.mp called
  obtain ⟨m, rfl, mine, held⟩ := lockSockets_spec locked
  have released : m.unlock.held thread = c.socketsMutex.held thread := by
    rw [Mutex.held_unlock mine, held, Nat.add_sub_cancel]
  rw [setSocketsMutex_sockets] at called
  split at called
  next unknown =>
    have absent : handle ∉ c.sockets := AList.lookup_eq_none.mp unknown
    cases called
    exact ⟨m.unlock, rfl, by simp [absent], by simp [absent, released]⟩
  next socket found =>
    have present : handle ∈ c.sockets := AList.lookup_isSome.mp (by rw [found]; rfl)
    cases sending with
    | complete =>
      cases called
      exact ⟨m.unlock, rfl, by simp [present], by simp [released]⟩
    | short =>
      cases called
      exact ⟨m, rfl, by simp, by simp [present, held]⟩
    | threw =>
      cases called
      exact ⟨m, rfl, by simp, by simp [present, held]⟩

end NmqttClient

/-! ### What `connect` does, by how far it gets -/

namespace ConnectOutcome

/-- The socket is entered in the tables. -/
def entered (o : ConnectOutcome) : Bool := o.opening = .opened

/-- Its listener has signaled that it is ready. -/
def listening (o : ConnectOutcome) : Bool := o.entered && o.listener = .ready

/-- The CONNECT message has gone out. -/
def sent (o : ConnectOutcome) : Bool := o.listening && o.sending = .complete

/-- And the wait for its answer has been signaled. -/
def answered (o : ConnectOutcome) : Bool := o.sent && o.signaled

/-- `joinable` is the state of the timer before the call. -/
def exit (o : ConnectOutcome) (joinable : Bool) : Exit :=
  if o.answered then if joinable then .terminated .timerStart else .returned true
  else if o.opening = .uncaught then .threw .opening
  else if o.entered && o.listener = .threw then .threw .listenerThread
  else .returned false

theorem entered_of_sent {o : ConnectOutcome} (sent : o.sent = true) : o.entered = true := by
  rw [ConnectOutcome.sent, Bool.and_eq_true, listening, Bool.and_eq_true] at sent
  exact sent.1.1

theorem ready_of_answered {o : ConnectOutcome} (answered : o.answered = true) :
    o.entered = true ∧ o.listening = true ∧ o.listener = .ready := by
  rw [ConnectOutcome.answered, Bool.and_eq_true, sent, Bool.and_eq_true] at answered
  have listening := answered.1.1
  rw [ConnectOutcome.listening, Bool.and_eq_true, decide_eq_true_eq] at listening
  exact ⟨listening.1, answered.1.1, listening.2⟩

theorem exit_answered {o : ConnectOutcome} (answered : o.answered = true) (joinable : Bool) :
    o.exit joinable = if joinable then .terminated .timerStart else .returned true := by
  rw [exit, if_pos answered]

theorem exit_failed {o : ConnectOutcome} (failed : o.answered = false) (joinable : Bool) :
    o.exit joinable = .returned false ∨ o.exit joinable = .threw .opening ∨
      o.exit joinable = .threw .listenerThread := by
  rw [exit, failed, if_neg Bool.false_ne_true]
  split
  · exact .inr (.inl rfl)
  · split
    · exact .inr (.inr rfl)
    · exact .inl rfl

theorem exit_terminates (o : ConnectOutcome) (joinable : Bool) :
    (o.exit joinable).terminates = (o.answered && joinable) := by
  cases answered : o.answered with
  | true =>
    rw [exit_answered answered]
    cases joinable <;> rfl
  | false => obtain exit | exit | exit := exit_failed answered joinable <;> rw [exit] <;> rfl

theorem exit_timerStart (o : ConnectOutcome) (joinable : Bool) :
    o.exit joinable = .terminated .timerStart ↔ o.answered = true ∧ joinable = true := by
  cases answered : o.answered with
  | true =>
    rw [exit_answered answered]
    cases joinable <;> simp
  | false =>
    refine iff_of_false ?_ nofun
    obtain exit | exit | exit := exit_failed answered joinable <;> rw [exit] <;> nofun

theorem exit_returned_true (o : ConnectOutcome) (joinable : Bool) :
    o.exit joinable = .returned true ↔ o.answered = true ∧ joinable = false := by
  cases answered : o.answered with
  | true =>
    rw [exit_answered answered]
    cases joinable <;> simp
  | false =>
    refine iff_of_false ?_ nofun
    obtain exit | exit | exit := exit_failed answered joinable <;> rw [exit] <;> nofun

theorem exit_ne_timerJoin (o : ConnectOutcome) (joinable : Bool) :
    o.exit joinable ≠ .threw .timerJoin := by
  cases answered : o.answered with
  | true =>
    rw [exit_answered answered]
    cases joinable <;> nofun
  | false => obtain exit | exit | exit := exit_failed answered joinable <;> rw [exit] <;> nofun

end ConnectOutcome

namespace NmqttClient
variable {c c' : NmqttClient} {s s' : Statics} {client thread data : Nat} {handle : BitVec 32}
  {o : ConnectOutcome} {answer : Answer}

theorem mem_register (c : NmqttClient) (s : Statics) (client data : Nat) :
    ∃ ns, (c.register s client data).getSocket c.lastHandle = some ns := by
  have present : c.lastHandle ∈ (c.register s client data).connections :=
    mem_insertNew.mpr (.inl rfl)
  exact Option.isSome_iff_exists.mp (AList.lookup_isSome.mpr present)

theorem addConnection_exit {ns : NymphSocket} {start : ListenerStart}
    (known : s.getSocket handle = some ns) :
    (s.addConnection handle start).2 =
      match start with
      | .threw => .threw .listenerThread
      | .timedOut => .returned false
      | .ready => .returned true := by
  unfold Statics.addConnection
  rw [known]
  cases start <;> rfl

/-- What a call of `connect` leaves behind. -/
structure Connected (c : NmqttClient) (s : Statics) (client thread data : Nat) (o : ConnectOutcome)
    (c' : NmqttClient) (s' : Statics) (answer : Answer) : Prop where
  sockets : c'.sockets =
    if o.entered then insertNew c.sockets c.lastHandle s.opened.length else c.sockets
  socketSemaphores : c'.socketSemaphores =
    if o.entered then insertNew c.socketSemaphores c.lastHandle s.semaphores.length
    else c.socketSemaphores
  lastHandle : c'.lastHandle = if o.listening then c.lastHandle + 1 else c.lastHandle
  messageHandler : c'.messageHandler = c.messageHandler
  pingTimer : c'.pingTimer = (c.pingTimer || o.answered)
  statics : s' =
    if o.entered then ((c.register s client data).addConnection c.lastHandle o.listener).1 else s
  exit : answer.exit = o.exit c.pingTimer
  handle : answer.handle = if o.listening then some c.lastHandle else none
  heldSockets : c'.socketsMutex.held thread =
    c.socketsMutex.held thread + if o.entered && !o.sent then 1 else 0
  heldConnect : c'.connectMtx.held thread = c.connectMtx.held thread + if o.answered then 1 else 0

theorem awaitConnack_spec {signaled : Bool}
    (called : c.awaitConnack thread handle signaled = some (c', answer)) :
    ∃ m, c' = (c.setConnectMtx m).setTimer (c.pingTimer || signaled) ∧
      answer.exit = (if signaled then if c.pingTimer then .terminated .timerStart else .returned true
        else .returned false) ∧
      answer.handle = some handle ∧
      m.held thread = c.connectMtx.held thread + if signaled then 1 else 0 := by
  obtain ⟨c₁, locked, called⟩ := Option.bind_eq_some_iff.mp called
  obtain ⟨m, rfl, mine, held⟩ := lockConnect_spec locked
  obtain ⟨c₂, locked, called⟩ := Option.bind_eq_some_iff.mp called
  obtain ⟨m', rfl, mine', held'⟩ := lockConnect_spec locked
  have again : m'.held thread = c.connectMtx.held thread + 1 := by
    rw [held', unlockConnect, setConnectMtx_connectMtx, setConnectMtx_connectMtx,
      Mutex.held_unlock mine, held, Nat.add_sub_cancel]
  cases signaled with
  | false =>
    cases called
    refine ⟨m'.unlock, ?_, rfl, rfl, ?_⟩
    · rw [Bool.or_false]
      rfl
    · rw [Mutex.held_unlock mine', again]
      rfl
  | true =>
    cases joinable : c.pingTimer with
    | false =>
      simp only [startTimer, unlockConnect, setConnectMtx_pingTimer, joinable] at called
      cases called
      exact ⟨m', rfl, rfl, rfl, again⟩
    | true =>
      simp only [startTimer, unlockConnect, setConnectMtx_pingTimer, joinable] at called
      cases called
      refine ⟨m', ?_, rfl, rfl, again⟩
      rw [Bool.true_or, ← joinable]
      rfl

theorem sendConnect_spec (known : handle ∈ c.sockets)
    (called : c.sendConnect thread handle o = some (c', answer)) :
    ∃ sm cm, c' = ((c.setSocketsMutex sm).setConnectMtx cm).setTimer
        (c.pingTimer || (o.sending = .complete && o.signaled)) ∧
      answer.exit =
        (if o.sending = .complete && o.signaled then
          if c.pingTimer then .terminated .timerStart else .returned true
        else .returned false) ∧
      answer.handle = some handle ∧
      sm.held thread = c.socketsMutex.held thread + (if o.sending ≠ .complete then 1 else 0) ∧
      cm.held thread =
        c.connectMtx.held thread + if o.sending = .complete && o.signaled then 1 else 0 := by
  obtain ⟨⟨c₁, sent⟩, sending, called⟩ := Option.bind_eq_some_iff.mp called
  obtain ⟨sm, rfl, passed, held⟩ := sendMessage_spec sending
  simp only [known, true_and] at passed held
  cases sent with
  | false =>
    have failed : o.sending ≠ .complete := of_decide_eq_false passed.symm
    cases called
    simp only [failed, decide_false, Bool.false_and, Bool.or_false]
    exact ⟨sm, c.connectMtx, rfl, (if_neg Bool.false_ne_true).symm, trivial, held, rfl⟩
  | true =>
    have complete : o.sending = .complete := of_decide_eq_true passed.symm
    obtain ⟨cm, rfl, exit, stored, held'⟩ := awaitConnack_spec called
    simp only [complete, decide_true, Bool.true_and]
    exact ⟨sm, cm, rfl, exit, stored, by rw [held, complete], held'⟩

/-- A socket that was not opened leaves everything as it is. -/
theorem Connected.unopened (failed : o.opening ≠ .opened) (exit : answer.exit = o.exit c.pingTimer)
    (stored : answer.handle = none) : Connected c s client thread data o c s answer := by
  have entered : o.entered = false := decide_eq_false failed
  have listening : o.listening = false := by rw [ConnectOutcome.listening, entered]; rfl
  have answered : o.answered = false := by
    rw [ConnectOutcome.answered, ConnectOutcome.sent, listening]; rfl
  constructor <;> simp [entered, listening, answered, exit, stored]

/-- A listener that does not start leaves the entries, and the mutex locked. -/
theorem Connected.unheard {m : Mutex} {s₁ : Statics} {exit : Exit} (opening : o.opening = .opened)
    (late : o.listener ≠ .ready)
    (added : (c.register s client data).addConnection c.lastHandle o.listener = (s₁, exit))
    (held : m.held thread = c.socketsMutex.held thread + 1) :
    Connected c s client thread data o
      ((c.setSocketsMutex m).insertSocket s.opened.length s.semaphores.length) s₁
      ⟨exit, none, none⟩ := by
  have entered : o.entered = true := decide_eq_true opening
  have listening : o.listening = false := by
    rw [ConnectOutcome.listening, entered, decide_eq_false late]; rfl
  have sent : o.sent = false := by rw [ConnectOutcome.sent, listening]; rfl
  have answered : o.answered = false := by rw [ConnectOutcome.answered, sent]; rfl
  obtain ⟨ns, known⟩ := mem_register c s client data
  have started := @addConnection_exit _ _ _ o.listener known
  rw [added] at started
  change exit = _ at started
  constructor
  · rw [entered]
    rfl
  · rw [entered]
    rfl
  · rw [listening]
    rfl
  · rfl
  · rw [answered, Bool.or_false]
    rfl
  · rw [entered, added]
    rfl
  · change exit = _
    rw [started, ConnectOutcome.exit, answered, opening, entered]
    cases start : o.listener with
    | ready => exact absurd start late
    | timedOut => rfl
    | threw => rfl
  · rw [listening]
    rfl
  · change m.held thread = _
    rw [held, entered, sent]
    rfl
  · rw [answered]
    rfl

/-- With a listener, the mutex is unlocked and CONNECT is sent. -/
theorem Connected.heard {m : Mutex} {s₁ : Statics} (opening : o.opening = .opened)
    (ready : o.listener = .ready)
    (added : (c.register s client data).addConnection c.lastHandle o.listener =
      (s₁, .returned true))
    (released : m.unlock.held thread = c.socketsMutex.held thread)
    (sending : ((c.setSocketsMutex m).insertSocket s.opened.length
      s.semaphores.length).takeHandle.unlockSockets.sendConnect thread c.lastHandle o =
        some (c', answer)) :
    Connected c s client thread data o c' s₁ answer := by
  have entered : o.entered = true := decide_eq_true opening
  have listening : o.listening = true := by
    rw [ConnectOutcome.listening, entered, ready]; rfl
  have sent : o.sent = decide (o.sending = .complete) := by
    rw [ConnectOutcome.sent, listening]; rfl
  have answered : o.answered = (decide (o.sending = .complete) && o.signaled) := by
    rw [ConnectOutcome.answered, sent]
  obtain ⟨sm, cm, rfl, exit, stored, heldSockets, heldConnect⟩ :=
    sendConnect_spec (mem_insertNew.mpr (.inl rfl)) sending
  rw [← answered] at exit heldConnect
  constructor
  · rw [entered]
    rfl
  · rw [entered]
    rfl
  · rw [listening]
    rfl
  · rfl
  · rw [answered]
    rfl
  · rw [entered, added]
    rfl
  · refine exit.trans ?_
    change (if o.answered then if c.pingTimer then _ else _ else _) = _
    simp [ConnectOutcome.exit, opening, ready]
  · rw [listening]
    exact stored
  · refine heldSockets.trans ?_
    change m.unlock.held thread + _ = _
    simp [released, entered, sent]
  · exact heldConnect

theorem connect_spec (called : c.connect s client thread data o = some (c', s', answer)) :
    Connected c s client thread data o c' s' answer := by
  unfold connect at called
  split at called
  next exception displayText opening =>
    cases called
    apply Connected.unopened (by rw [opening]; nofun) _ rfl
    simp [ConnectOutcome.exit, ConnectOutcome.answered, ConnectOutcome.sent,
      ConnectOutcome.listening, ConnectOutcome.entered, opening]
  next opening =>
    cases called
    apply Connected.unopened (by rw [opening]; nofun) _ rfl
    simp [ConnectOutcome.exit, ConnectOutcome.answered, ConnectOutcome.sent,
      ConnectOutcome.listening, ConnectOutcome.entered, opening]
  next opening =>
    obtain ⟨c₁, locked, called⟩ := Option.bind_eq_some_iff.mp called
    obtain ⟨m, rfl, mine, held⟩ := lockSockets_spec locked
    obtain ⟨ns, known⟩ := mem_register c s client data
    have started := @addConnection_exit _ _ _ o.listener known
    dsimp only at called
    split at called
    next s₁ added =>
      change (c.register s client data).addConnection c.lastHandle o.listener = _ at added
      rw [added] at started
      have ready : o.listener = .ready := by
        cases start : o.listener with
        | ready => rfl
        | timedOut => rw [start] at started; cases started
        | threw => rw [start] at started; cases started
      have released : m.unlock.held thread = c.socketsMutex.held thread := by
        rw [Mutex.held_unlock mine, held, Nat.add_sub_cancel]
      obtain ⟨⟨c₂, answer₂⟩, sending, called⟩ := Option.bind_eq_some_iff.mp called
      cases called
      exact .heard opening ready added released sending
    next s₁ exit returned added =>
      change (c.register s client data).addConnection c.lastHandle o.listener = _ at added
      rw [added] at started
      cases called
      apply Connected.unheard opening _ added held
      intro ready
      rw [ready] at started
      exact returned started

/-! ### What `publish`, `subscribe` and `unsubscribe` do -/

theorem publish_spec {sending : Sending}
    (called : c.publish s thread handle sending = some (c', s', answer)) :
    s' = s ∧ (∃ sent, answer.exit = .returned sent) ∧ ∃ m, c' = c.setSocketsMutex m ∧
      m.held thread =
        c.socketsMutex.held thread + if handle ∈ c.sockets ∧ sending ≠ .complete then 1 else 0 := by
  obtain ⟨⟨c₁, sent⟩, passed, called⟩ := Option.bind_eq_some_iff.mp called
  obtain ⟨m, rfl, -, held⟩ := sendMessage_spec passed
  cases called
  exact ⟨rfl, ⟨sent, rfl⟩, m, rfl, held⟩

/-! ### What `disconnect` does -/

/-- Either nothing is taken from the tables, or the connection is. -/
def Released (c : NmqttClient) (s : Statics) (handle : BitVec 32) (c' : NmqttClient)
    (s' : Statics) : Prop :=
  (c'.sockets = c.sockets ∧ c'.socketSemaphores = c.socketSemaphores ∧ s' = s) ∨
    handle ∈ c.sockets ∧ ∃ semaphore, c.socketSemaphores.lookup handle = some semaphore ∧
      c'.sockets = c.sockets.erase handle ∧
      c'.socketSemaphores = c.socketSemaphores.erase handle ∧
      s' = (s.setSemaphore semaphore).removeConnection handle

/-- What a call of `disconnect` leaves behind. -/
structure Disconnected (c : NmqttClient) (s : Statics) (thread : Nat) (handle : BitVec 32)
    (sending : Sending) (closing : Closing) (c' : NmqttClient) (s' : Statics) (answer : Answer) :
    Prop where
  pingTimer : c'.pingTimer = false
  lastHandle : c'.lastHandle = c.lastHandle
  messageHandler : c'.messageHandler = c.messageHandler
  connectMtx : c'.connectMtx = c.connectMtx
  joined : answer.exit = .threw .timerJoin ↔ c.pingTimer = false
  survived : answer.exit.terminates = false
  tables : Released c s handle c' s'
  heldSockets : c'.socketsMutex.held thread = c.socketsMutex.held thread +
    if c.pingTimer then
      (if handle ∈ c.sockets ∧ sending ≠ .complete then 1 else 0) +
        (if handle ∈ c.sockets ∧ handle ∈ c.socketSemaphores ∧ closing ≠ .closed then 1 else 0)
    else 0

theorem closeSocket_spec {closing : Closing}
    (called : c.closeSocket s thread handle closing = some (c', s', answer)) :
    c'.lastHandle = c.lastHandle ∧ c'.messageHandler = c.messageHandler ∧
      c'.connectMtx = c.connectMtx ∧ c'.pingTimer = c.pingTimer ∧
      answer.exit ≠ .threw .timerJoin ∧ answer.exit.terminates = false ∧
      Released c s handle c' s' ∧
      c'.socketsMutex.held thread = c.socketsMutex.held thread +
        if handle ∈ c.sockets ∧ handle ∈ c.socketSemaphores ∧ closing ≠ .closed then 1 else 0 := by
  obtain ⟨c₂, locked, called⟩ := Option.bind_eq_some_iff.mp called
  obtain ⟨m, rfl, mine, held⟩ := lockSockets_spec locked
  have released : m.unlock.held thread = c.socketsMutex.held thread := by
    rw [Mutex.held_unlock mine, held, Nat.add_sub_cancel]
  rw [setSocketsMutex_sockets, setSocketsMutex_socketSemaphores] at called
  split at called
  next x unknown =>
    have absent : handle ∉ c.sockets := AList.lookup_eq_none.mp unknown
    cases called
    refine ⟨rfl, rfl, rfl, rfl, nofun, rfl, .inl ⟨rfl, rfl, rfl⟩, ?_⟩
    rw [if_neg (fun h => absent h.1)]
    exact released
  next socket found missing =>
    have absent : handle ∉ c.socketSemaphores := AList.lookup_eq_none.mp missing
    cases called
    refine ⟨rfl, rfl, rfl, rfl, nofun, rfl, .inl ⟨rfl, rfl, rfl⟩, ?_⟩
    rw [if_neg (fun h => absent h.2.1)]
    exact released
  next socket semaphore found existing =>
    have present := mem_of_lookup found
    have here := mem_of_lookup existing
    cases closing with
    | closed =>
      cases called
      refine ⟨rfl, rfl, rfl, rfl, nofun, rfl,
        .inr ⟨present, semaphore, existing, rfl, rfl, rfl⟩, ?_⟩
      rw [if_neg (fun h => h.2.2 rfl)]
      exact released
    | shutdownThrew =>
      cases called
      refine ⟨rfl, rfl, rfl, rfl, nofun, rfl, .inl ⟨rfl, rfl, rfl⟩, ?_⟩
      rw [if_pos ⟨present, here, nofun⟩]
      exact held
    | closeThrew =>
      cases called
      refine ⟨rfl, rfl, rfl, rfl, nofun, rfl, .inl ⟨rfl, rfl, rfl⟩, ?_⟩
      rw [if_pos ⟨present, here, nofun⟩]
      exact held

theorem disconnect_spec {sending : Sending} {closing : Closing}
    (called : c.disconnect s thread handle sending closing = some (c', s', answer)) :
    Disconnected c s thread handle sending closing c' s' answer := by
  unfold disconnect stopTimer at called
  cases joinable : c.pingTimer with
  | false =>
    rw [joinable] at called
    cases called
    refine ⟨joinable, rfl, rfl, rfl, ?_, rfl, .inl ⟨rfl, rfl, rfl⟩, ?_⟩
    · rw [joinable]
      exact iff_of_true rfl rfl
    · rw [joinable]
      rfl
  | true =>
    rw [joinable] at called
    obtain ⟨⟨c₁, sent⟩, passed, called⟩ := Option.bind_eq_some_iff.mp called
    obtain ⟨m, rfl, -, held⟩ := sendMessage_spec passed
    obtain ⟨last, handler, mutex, timer, joined, survived, tables, held'⟩ := closeSocket_spec called
    refine ⟨timer, last, handler, mutex, ?_, survived, tables, ?_⟩
    · rw [joinable]
      exact iff_of_false joined nofun
    · rw [held', joinable, if_pos rfl, ← Nat.add_assoc]
      change m.held thread + _ = _
      rw [held]
      rfl

/-! ### What `shutdown` does -/

/-- Some socket of the client throws when it is shut down. -/
def Fails (c : NmqttClient) (failing : List SocketId) : Prop :=
  ∃ handle, ∃ socket ∈ failing, c.sockets.lookup handle = some socket

/-- What a call of `shutdown` leaves behind. -/
structure ShutDown (c : NmqttClient) (s : Statics) (thread : Nat) (failing : List SocketId)
    (c' : NmqttClient) (s' : Statics) (answer : Answer) : Prop where
  pingTimer : c'.pingTimer = c.pingTimer
  lastHandle : c'.lastHandle = c.lastHandle
  messageHandler : c'.messageHandler = c.messageHandler
  connectMtx : c'.connectMtx = c.connectMtx
  socketSemaphores : c'.socketSemaphores = c.socketSemaphores
  threw : answer.exit = .threw .socket ↔ c.Fails failing
  ended : answer.exit = .threw .socket ∨ answer.exit = .returned true ∨
    answer.exit = .terminated .nullListener
  statics : ∃ t closed,
    closeAll failing s (inOrder (fun a b => a.toInt ≤ b.toInt) c.sockets) = (t, closed) ∧
      (s' = t ∨ t.stop = some s')
  heldSockets : c'.socketsMutex.held thread = c.socketsMutex.held thread +
    if answer.exit = .threw .socket then 1 else 0

/-- The loop goes through exactly if no socket that it meets throws. -/
theorem closeAll_closed {failing : List SocketId} {listed : List (BitVec 32 × SocketId)} :
    (closeAll failing s listed).2 = true ↔ ∀ entry ∈ listed, entry.2 ∉ failing := by
  induction listed generalizing s with
  | nil => exact iff_of_true rfl nofun
  | cons entry rest ih =>
    rw [List.forall_mem_cons]
    obtain ⟨handle, socket⟩ := entry
    unfold closeAll
    by_cases fails : socket ∈ failing
    · rw [if_pos fails]
      exact iff_of_false nofun fun all => all.1 fails
    · rw [if_neg fails, ih]
      exact (and_iff_right fails).symm

theorem closeAll_threw_iff {failing : List SocketId} :
    (closeAll failing s (inOrder (fun a b => a.toInt ≤ b.toInt) c.sockets)).2 = false ↔
      c.Fails failing := by
  rw [← Bool.not_eq_true, closeAll_closed]
  simp only [not_forall, not_not, exists_prop]
  constructor
  · intro ⟨⟨handle, socket⟩, listed, fails⟩
    exact ⟨handle, socket, fails, mem_inOrder.mp listed⟩
  · intro ⟨handle, socket, fails, found⟩
    exact ⟨⟨handle, socket⟩, mem_inOrder.mpr found, fails⟩

/-- How a call of `shutdown` ends: in a socket that throws, in the `stop` of the listeners that
are left, or behind it. -/
theorem shutdown_cases {failing : List SocketId}
    (called : c.shutdown s thread failing = some (c', s', answer)) :
    ∃ m t closed, m.owner = thread ∧ m.held thread = c.socketsMutex.held thread + 1 ∧
      closeAll failing s (inOrder (fun a b => a.toInt ≤ b.toInt) c.sockets) = (t, closed) ∧
      (c.Fails failing ∧ c' = c.setSocketsMutex m ∧ s' = t ∧ answer = ⟨.threw .socket, none, none⟩ ∨
        ¬c.Fails failing ∧ closed = true ∧ c' = (c.setSocketsMutex m).clearSockets.unlockSockets ∧
          (t.stop = none ∧ s' = t ∧ answer = ⟨.terminated .nullListener, none, none⟩ ∨
            t.stop = some s' ∧ answer = ⟨.returned true, none, none⟩)) := by
  obtain ⟨c₁, locked, called⟩ := Option.bind_eq_some_iff.mp called
  obtain ⟨m, rfl, mine, held⟩ := lockSockets_spec locked
  have fails := @closeAll_threw_iff c s failing
  rw [setSocketsMutex_sockets] at called
  split at called
  next t closed =>
    rw [closed] at fails
    cases called
    exact ⟨m, _, false, mine, held, closed, .inl ⟨fails.mp rfl, rfl, rfl, rfl⟩⟩
  next t closed =>
    rw [closed] at fails
    have none_fails : ¬c.Fails failing := fun some_fails => nomatch fails.mpr some_fails
    dsimp only at called
    split at called
    next null =>
      cases called
      exact ⟨m, _, true, mine, held, closed, .inr ⟨none_fails, rfl, rfl, .inl ⟨null, rfl, rfl⟩⟩⟩
    next t' stopped =>
      cases called
      exact ⟨m, _, true, mine, held, closed, .inr ⟨none_fails, rfl, rfl, .inr ⟨stopped, rfl⟩⟩⟩

theorem shutdown_spec {failing : List SocketId}
    (called : c.shutdown s thread failing = some (c', s', answer)) :
    ShutDown c s thread failing c' s' answer := by
  obtain ⟨m, t, closed, mine, held, walked, ended⟩ := shutdown_cases called
  have released : m.unlock.held thread = c.socketsMutex.held thread := by
    rw [Mutex.held_unlock mine, held, Nat.add_sub_cancel]
  obtain ⟨fails, rfl, rfl, rfl⟩ | ⟨none_fails, -, rfl, ⟨-, rfl, rfl⟩ | ⟨stopped, rfl⟩⟩ := ended
  · exact ⟨rfl, rfl, rfl, rfl, rfl, iff_of_true rfl fails, .inl rfl, ⟨_, _, walked, .inl rfl⟩, held⟩
  · exact ⟨rfl, rfl, rfl, rfl, rfl, iff_of_false nofun none_fails, .inr (.inr rfl),
      ⟨_, _, walked, .inl rfl⟩, released⟩
  · exact ⟨rfl, rfl, rfl, rfl, rfl, iff_of_false nofun none_fails, .inr (.inl rfl),
      ⟨_, _, walked, .inr stopped⟩, released⟩

end NmqttClient

/-! ### Steps of the process -/

theorem Process.step_cases {p q : Process} {l : Invocation} (stepped : p.step l = some q) :
    ∃ c c' s' answer, p.clients[l.client]? = some c ∧
      c.invoke p.statics l.client l.thread l.call = some (c', s', answer) ∧
      q = ⟨p.clients.set l.client c', s', answer⟩ := by
  unfold Process.step at stepped
  split at stepped
  next => cases stepped
  next =>
    obtain ⟨c, here, stepped⟩ := Option.bind_eq_some_iff.mp stepped
    obtain ⟨⟨c', s', answer⟩, invoked, stepped⟩ := Option.bind_eq_some_iff.mp stepped
    cases stepped
    exact ⟨c, c', s', answer, here, invoked, rfl⟩

end Runtime
end NymphMqtt
