import NymphMqtt.ClientConnect

/-! One call of `connect`, from the sent CONNECT on, against the worker that handles the
CONNACK of its connection. -/

namespace NymphMqtt
open NymphMqtt.Library.Transition

/-- `brokerConn` points to the record of a call at this step, when there is no other. -/
def ConnectStep.published : ConnectStep → Bool
  | .tryWait | .waiting | .signaled | .startTimer | .expired | .timedOut | .returned true _ => true
  | _ => false

/-- From the sent CONNECT to the end of the wait. -/
def ConnectStep.racing : ConnectStep → Bool
  | .lock | .publish | .tryWait | .waiting => true
  | _ => false

/-- The signal has reached the call. -/
def ConnectStep.woken : ConnectStep → Bool
  | .signaled | .startTimer | .returned true _ => true
  | _ => false

def ConnackStep.signals : ConnackStep → Bool
  | .signal _ => true
  | _ => false

def ConnackStep.storesField : ConnackStep → Bool
  | .handle | .sessionPresent | .responseCode => true
  | _ => false

/-- The values that the handler stores. -/
def Connack.fields (p : Connack) : NmqttBrokerConnection := ⟨p.handle, p.sessionPresent, p.code⟩

/-- A handler makes its test when the record is published, or holds what it would store
already, and its signal when some call waits. -/
def NmqttClient.InTime (d : NmqttClient) : NmqttClient.Action → Prop
  | .handle n => ∀ a ∈ d.connacks[n]?,
      (a.step = .test → d.brokerConn ≠ none ∨
        ∃ call ∈ d.calls[a.packet.connection]?, d.record call = a.packet.fields) ∧
      (a.step.signals = true → d.waiters ≠ [])
  | _ => True

instance (d : NmqttClient) (a : NmqttClient.Action) : Decidable (d.InTime a) :=
  match a with
  | .handle n => inferInstanceAs (Decidable (∀ a ∈ d.connacks[n]?, (_ → _) ∧ (_ → _)))
  | .connect _ _ _ | .openSocket _ _ | .sendConnect _ _ | .proceed _ | .expire _ | .stopTimer
  | .receive _ _ _ => inferInstanceAs (Decidable True)

/-- A call of `connect` that has sent CONNECT, with the packet that answers it. -/
structure Handshake where
  records : Nat → NmqttBrokerConnection
  thread : Nat
  conn : Nat
  result : String
  handle : BitVec 32
  sessionPresent : Bool
  code : MqttReasonCodes

namespace Handshake

/-- Who makes the next step: the call, its timeout, or the worker. -/
inductive Move where
  | connect
  | timeout
  | handler
  deriving DecidableEq, Repr

def Move.action : Move → NmqttClient.Action
  | .connect => .proceed 0
  | .timeout => .expire 0
  | .handler => .handle 0

section
variable (s : Handshake)

def packet : Connack := ⟨0, s.handle, s.sessionPresent, s.code⟩

/-- The client behind `sendMessage`, the handler not yet started. -/
def sent : NmqttClient :=
  { lastHandle := s.handle + 1
    sockets := .singleton s.handle 0
    connectMtx := ⟨0, 0⟩
    waiters := []
    brokerConn := none
    timer := false
    records := s.records
    calls := [⟨s.thread, s.conn, some s.handle, s.result, .lock⟩]
    connacks := [⟨s.packet, .test⟩] }

theorem sent_reached : replay NmqttClient.step { NmqttClient.new s.records with lastHandle := s.handle }
    [.connect s.thread s.conn s.result, .openSocket 0 .opened, .proceed 0, .sendConnect 0 true,
      .receive s.handle s.sessionPresent s.code] = some s.sent := by
  have known : (AList.singleton s.handle 0 : AList fun _ : BitVec 32 => CallId).lookup s.handle =
      some 0 := AList.lookup_insert ∅
  simp [replay, NmqttClient.step, NmqttClient.connect, NmqttClient.openSocket, NmqttClient.new,
    NmqttClient.addSocket, NmqttClient.setCall, NmqttClient.proceed, NmqttClient.sendConnect,
    NmqttClient.receive, sent, packet, known]

end

/-! ### The race alone -/

/-- Where the two parties stand, and what the caller's record holds. -/
structure Race where
  connect : ConnectStep
  handler : ConnackStep
  conn : NmqttBrokerConnection

namespace Race
variable (s : Handshake)

def start : Race := ⟨.lock, .test, s.records s.conn⟩

/-- The next step of the call. With one call, the mutex is always free for it. -/
def proceed (q : Race) : Option Race :=
  match q.connect with
  | .clearBrokerConn => some { q with connect := .sendConnect }
  | .lock => some { q with connect := .publish }
  | .publish => some { q with connect := .tryWait }
  | .tryWait => some { q with connect := .waiting }
  | .signaled => some { q with connect := .startTimer }
  | .startTimer => some { q with connect := .returned true q.conn }
  | .expired => some { q with connect := .timedOut }
  | .timedOut => some { q with connect := .unlock }
  | .unlock => some { q with connect := .returned false q.conn }
  | _ => none

/-- A store needs the record to be published still. -/
def store (q : Race) (conn : NmqttBrokerConnection) (handler : ConnackStep) : Option Race :=
  if q.connect.published then some { q with handler := handler, conn := conn } else none

def handle (q : Race) : Option Race :=
  match q.handler with
  | .test =>
      some { q with handler := if q.connect.published then .handle else .signal false }
  | .handle => q.store { q.conn with handle := s.handle } .sessionPresent
  | .sessionPresent => q.store { q.conn with sessionPresent := s.sessionPresent } .responseCode
  | .responseCode => q.store { q.conn with responseCode := s.code } (.signal true)
  | .signal _ => some { q with
      handler := .returned
      connect := if q.connect = .waiting then .signaled else q.connect }
  | .returned => none

def move (q : Race) : Move → Option Race
  | .connect => q.proceed
  | .timeout => if q.connect = .waiting then some { q with connect := .expired } else none
  | .handler => q.handle s

/-! ### The race inside the client -/

def mutex : ConnectStep → Mutex
  | .publish | .tryWait | .startTimer | .timedOut | .unlock | .returned true _ => ⟨s.thread, 1⟩
  | .waiting | .signaled | .expired | .returned false _ => ⟨s.thread, 0⟩
  | .openSocket | .clearBrokerConn | .sendConnect | .lock => ⟨0, 0⟩

def result : ConnectStep → String
  | .unlock | .returned false _ => "Timeout while trying to connect to broker."
  | _ => s.result

def timer : ConnectStep → Bool
  | .returned true _ => true
  | _ => false

def client (q : Race) : NmqttClient :=
  { lastHandle := s.handle + 1
    sockets := .singleton s.handle 0
    connectMtx := mutex s q.connect
    waiters := if q.connect = .waiting then [0] else []
    brokerConn := if q.connect.published then some 0 else none
    timer := timer q.connect
    records := Function.update s.records s.conn q.conn
    calls := [⟨s.thread, s.conn, some s.handle, result s q.connect, q.connect⟩]
    connacks := [⟨s.packet, q.handler⟩] }

theorem client_start : client s (start s) = s.sent := by
  simp only [client, start, Function.update_eq_self]
  rfl

theorem proceed_client (q : Race) :
    (client s q).proceed 0 = q.proceed.map (client s) := by
  obtain ⟨connect, handler, conn⟩ := q
  cases connect with
  | returned connected conn => cases connected <;> rfl
  | startTimer => simp [NmqttClient.proceed, client, proceed, NmqttClient.setCall, NmqttClient.record,
      timer, mutex, result, ConnectStep.published]
  | unlock => simp [NmqttClient.proceed, client, proceed, NmqttClient.setCall, NmqttClient.record,
      timer, mutex, result, ConnectStep.published, Mutex.unlock]
  | _ => rfl

theorem expire_client (q : Race) :
    (client s q).expire 0 = (q.move s .timeout).map (client s) := by
  obtain ⟨connect, handler, conn⟩ := q
  cases connect with
  | returned connected conn => cases connected <;> rfl
  | _ => rfl

/-- The handler's test and its signal touch nothing but the two parties. -/
theorem handle_client_control (q : Race) (control : q.handler.storesField = false) :
    (client s q).handle 0 = (q.handle s).map (client s) := by
  obtain ⟨connect, handler, conn⟩ := q
  cases handler with
  | test =>
    cases connect with
    | returned connected conn => cases connected <;> rfl
    | _ => rfl
  | signal stored =>
    cases connect with
    | returned connected conn => cases connected <;> rfl
    | _ => rfl
  | returned => rfl
  | _ => cases control

theorem store_client (q : Race) (change : NmqttBrokerConnection → NmqttBrokerConnection)
    (handler : ConnackStep) :
    (((client s q).store change).bind fun d => some (d.setConnack 0 ⟨s.packet, handler⟩)) =
      (q.store (change q.conn) handler).map (client s) := by
  unfold store
  by_cases published : q.connect.published = true
  · simp [NmqttClient.store, client, published, NmqttClient.record, NmqttClient.setConnack]
  · simp [NmqttClient.store, client, published]

theorem handle_client (q : Race) : (client s q).handle 0 = (q.handle s).map (client s) := by
  obtain ⟨connect, handler, conn⟩ := q
  cases handler with
  | handle => exact store_client s ⟨connect, .handle, conn⟩ (fun conn => { conn with handle := s.handle }) _
  | sessionPresent =>
    exact store_client s ⟨connect, .sessionPresent, conn⟩
      (fun conn => { conn with sessionPresent := s.sessionPresent }) _
  | responseCode =>
    exact store_client s ⟨connect, .responseCode, conn⟩
      (fun conn => { conn with responseCode := s.code }) _
  | _ => exact handle_client_control s _ rfl

theorem move_client (q : Race) (m : Move) :
    (client s q).step m.action = (q.move s m).map (client s) := by
  cases m with
  | connect => exact proceed_client s q
  | timeout => exact expire_client s q
  | handler => exact handle_client s q

/-! ### Who wins -/

def InTime (q : Race) : Move → Prop
  | .handler => (q.handler = .test → q.connect.published = true ∨ q.conn = s.packet.fields) ∧
      (q.handler.signals = true → q.connect = .waiting)
  | .connect | .timeout => True

instance (q : Race) (m : Move) : Decidable (q.InTime s m) :=
  match m with
  | .handler => inferInstanceAs (Decidable ((_ → _) ∧ (_ → _)))
  | .connect | .timeout => inferInstanceAs (Decidable True)

theorem inTime_client (q : Race) (m : Move) : (client s q).InTime m.action ↔ q.InTime s m := by
  cases m with
  | connect => exact Iff.rfl
  | timeout => exact Iff.rfl
  | handler => simp [NmqttClient.InTime, Move.action, InTime, client, NmqttClient.record, packet]

/-- Before the handler's signal, with nothing missed so far. -/
def Ready (q : Race) : Prop :=
  q.connect.racing = true ∧
    match q.handler with
    | .test => True
    | .handle => q.connect.published = true
    | .sessionPresent => q.connect.published = true ∧ q.conn.handle = s.handle
    | .responseCode => q.connect.published = true ∧ q.conn.handle = s.handle ∧
        q.conn.sessionPresent = s.sessionPresent
    | .signal _ => q.conn = s.packet.fields
    | .returned => False

/-- The call has the signal, and its record the packet. -/
structure Kept (q : Race) : Prop where
  handler : q.handler = .returned
  conn : q.conn = s.packet.fields
  connect : q.connect = .signaled ∨ q.connect = .startTimer ∨
    q.connect = .returned true s.packet.fields

/-- The stores were skipped, or the signal met nobody. -/
def Missed (q : Race) : Prop :=
  q.handler = .signal false ∧ q.conn ≠ s.packet.fields ∧ q.connect.woken = false ∨
  q.handler = .returned ∧ (q.connect.woken = false ∨ q.conn ≠ s.packet.fields ∧
    ∀ conn, q.connect = .returned true conn → conn ≠ s.packet.fields)

variable {s}

theorem proceed_racing {q u : Race} (racing : q.connect.racing = true)
    (stepped : q.proceed = some u) : ∃ c, u = { q with connect := c } ∧ c.racing = true ∧
      (q.connect.published = true → c.published = true) := by
  cases at_ : q.connect with
  | lock =>
    simp only [proceed, at_, Option.some.injEq] at stepped
    exact ⟨_, stepped.symm, rfl, fun h => nomatch h⟩
  | publish =>
    simp only [proceed, at_, Option.some.injEq] at stepped
    exact ⟨_, stepped.symm, rfl, fun _ => rfl⟩
  | tryWait =>
    simp only [proceed, at_, Option.some.injEq] at stepped
    exact ⟨_, stepped.symm, rfl, fun _ => rfl⟩
  | waiting => simp only [proceed, at_, reduceCtorEq] at stepped
  | _ => rw [at_] at racing; cases racing

theorem store_some {q u : Race} {conn : NmqttBrokerConnection} {handler : ConnackStep}
    (stepped : q.store conn handler = some u) :
    q.connect.published = true ∧ u = { q with handler := handler, conn := conn } := by
  unfold store at stepped
  split at stepped
  next published => exact ⟨published, (Option.some.inj stepped).symm⟩
  next => cases stepped

theorem Ready.move {q u : Race} {m : Move} (ready : q.Ready s) (inTime : q.InTime s m)
    (unexpired : m ≠ .timeout) (stepped : q.move s m = some u) : u.Ready s ∨ u.Kept s := by
  obtain ⟨racing, progress⟩ := ready
  cases m with
  | timeout => exact absurd rfl unexpired
  | connect =>
    obtain ⟨c, rfl, racing', published⟩ := proceed_racing racing stepped
    refine .inl ⟨racing', ?_⟩
    cases at_ : q.handler with
    | test => trivial
    | handle =>
      simp only [at_] at progress
      exact published progress
    | sessionPresent =>
      simp only [at_] at progress
      exact ⟨published progress.1, progress.2⟩
    | responseCode =>
      simp only [at_] at progress
      exact ⟨published progress.1, progress.2⟩
    | signal stored =>
      simp only [at_] at progress
      exact progress
    | returned =>
      simp only [at_] at progress
  | handler =>
    obtain ⟨tested, signals⟩ := inTime
    cases at_ : q.handler with
    | test =>
      simp only [Race.move, handle, at_, Option.some.injEq] at stepped
      subst stepped
      refine .inl ⟨racing, ?_⟩
      by_cases published : q.connect.published = true
      · rw [if_pos published]
        exact published
      · rw [if_neg published]
        exact (tested at_).resolve_left published
    | handle =>
      simp only [Race.move, handle, at_] at stepped
      obtain ⟨published, rfl⟩ := store_some stepped
      exact .inl ⟨racing, published, rfl⟩
    | sessionPresent =>
      simp only [Race.move, handle, at_] at stepped progress
      obtain ⟨published, rfl⟩ := store_some stepped
      exact .inl ⟨racing, published, progress.2, rfl⟩
    | responseCode =>
      simp only [Race.move, handle, at_] at stepped progress
      obtain ⟨published, rfl⟩ := store_some stepped
      refine .inl ⟨racing, ?_⟩
      simp only [Connack.fields, packet, ← progress.2.1, ← progress.2.2]
    | signal stored =>
      have waits := signals (by rw [at_]; rfl)
      simp only [Race.move, handle, at_, Option.some.injEq, if_pos waits] at stepped progress
      subst stepped
      exact .inr ⟨rfl, progress, .inl rfl⟩
    | returned =>
      simp only [at_] at progress

theorem Ready.misses {q u : Race} {m : Move} (ready : q.Ready s) (late : ¬q.InTime s m)
    (stepped : q.move s m = some u) : u.Missed s := by
  obtain ⟨racing, progress⟩ := ready
  have asleep : q.connect.woken = false := by
    cases at_ : q.connect <;> rw [at_] at racing <;> first | rfl | cases racing
  cases m with
  | connect => exact absurd trivial late
  | timeout => exact absurd trivial late
  | handler =>
    cases at_ : q.handler with
    | test =>
      simp only [InTime, at_, ConnackStep.signals, forall_const, Bool.false_eq_true,
        false_implies, and_true, not_or] at late
      simp only [Race.move, handle, at_, Option.some.injEq, if_neg late.1] at stepped
      subst stepped
      exact .inl ⟨rfl, late.2, asleep⟩
    | signal stored =>
      simp only [InTime, at_, ConnackStep.signals, reduceCtorEq, false_implies, true_and,
        forall_const] at late
      simp only [Race.move, handle, at_, Option.some.injEq, if_neg late] at stepped
      subst stepped
      exact .inr ⟨rfl, .inl asleep⟩
    | _ =>
      refine absurd ⟨fun h => ?_, fun h => ?_⟩ late
      · rw [at_] at h
        cases h
      · rw [at_] at h
        cases h

theorem Kept.inTime {q : Race} (kept : q.Kept s) (m : Move) : q.InTime s m := by
  cases m with
  | handler =>
    constructor
    · intro test
      cases kept.handler.symm.trans test
    · intro signals
      rw [kept.handler] at signals
      cases signals
  | _ => trivial

/-- A signaled call can only return, with what it has. -/
theorem Kept.move {q u : Race} {m : Move} (kept : q.Kept s) (stepped : q.move s m = some u) :
    u.Kept s := by
  obtain ⟨handler, conn, connect⟩ := kept
  cases m with
  | connect =>
    rcases connect with at_ | at_ | at_
    · simp only [Race.move, proceed, at_, Option.some.injEq] at stepped
      subst stepped
      exact ⟨handler, conn, .inr (.inl rfl)⟩
    · simp only [Race.move, proceed, at_, Option.some.injEq] at stepped
      subst stepped
      exact ⟨handler, conn, .inr (.inr (by rw [conn]))⟩
    · simp only [Race.move, proceed, at_, reduceCtorEq] at stepped
  | timeout =>
    rcases connect with at_ | at_ | at_ <;> simp only [Race.move, at_, reduceCtorEq, if_false] at stepped
  | handler => simp only [Race.move, handle, handler, reduceCtorEq] at stepped

/-- A call that sleeps does not wake itself, and it stores nothing. -/
theorem proceed_asleep {q u : Race} (asleep : q.connect.woken = false)
    (stepped : q.proceed = some u) :
    u.connect.woken = false ∧ u.handler = q.handler ∧ u.conn = q.conn := by
  obtain ⟨connect, handler, conn⟩ := q
  cases connect with
  | signaled => cases asleep
  | startTimer => cases asleep
  | _ => cases stepped <;> exact ⟨rfl, rfl, rfl⟩

theorem timeout_some {q u : Race} (stepped : q.move s .timeout = some u) :
    u = { q with connect := .expired } := by
  simp only [Race.move] at stepped
  split at stepped
  next => exact (Option.some.inj stepped).symm
  next => cases stepped

/-- A return takes the record as it is. -/
theorem proceed_returned {q u : Race} {conn : NmqttBrokerConnection} (stepped : q.proceed = some u)
    (returned : u.connect = .returned true conn) : conn = q.conn := by
  obtain ⟨connect, handler, value⟩ := q
  cases connect with
  | startTimer =>
    cases stepped
    cases returned
    rfl
  | _ => cases stepped <;> cases returned

theorem proceed_same {q u : Race} (stepped : q.proceed = some u) :
    u.handler = q.handler ∧ u.conn = q.conn := by
  obtain ⟨connect, handler, conn⟩ := q
  cases connect <;> cases stepped <;> exact ⟨rfl, rfl⟩

/-- What was missed stays missed. -/
theorem Missed.move {q u : Race} {m : Move} (missed : q.Missed s) (stepped : q.move s m = some u) :
    u.Missed s := by
  rcases missed with ⟨handler, conn, asleep⟩ | ⟨handler, missed⟩
  · cases m with
    | connect =>
      obtain ⟨asleep', handler', conn'⟩ := proceed_asleep asleep stepped
      exact .inl ⟨handler'.trans handler, by rwa [conn'], asleep'⟩
    | timeout =>
      obtain rfl := timeout_some stepped
      exact .inl ⟨handler, conn, rfl⟩
    | handler =>
      simp only [Race.move, handle, handler, Option.some.injEq] at stepped
      subst stepped
      refine .inr ⟨rfl, .inr ⟨conn, fun c returned => ?_⟩⟩
      by_cases waits : q.connect = .waiting
      · simp only [if_pos waits, reduceCtorEq] at returned
      · simp only [if_neg waits] at returned
        rw [returned] at asleep
        cases asleep
  · cases m with
    | connect =>
      have same := proceed_same stepped
      refine .inr ⟨same.1.trans handler, ?_⟩
      rcases missed with asleep | ⟨conn, -⟩
      · exact .inl (proceed_asleep asleep stepped).1
      · refine .inr ⟨by rwa [same.2], fun c returned => ?_⟩
        rwa [proceed_returned stepped returned]
    | timeout =>
      obtain rfl := timeout_some stepped
      exact .inr ⟨handler, .inl rfl⟩
    | handler => simp only [Race.move, handle, handler, reduceCtorEq] at stepped

/-- A call that missed something does not return true with the packet. -/
theorem Missed.not_returned {q : Race} (missed : q.Missed s) :
    q.connect ≠ .returned true s.packet.fields := by
  intro returned
  rcases missed with ⟨-, -, asleep⟩ | ⟨-, asleep | ⟨-, other⟩⟩
  · rw [returned] at asleep
    cases asleep
  · rw [returned] at asleep
    cases asleep
  · exact other _ returned rfl

/-- Until the timeout, either every move is in time or something is missed for good. -/
theorem front_cases {moves : List Move} {q u : Race} (before : q.Ready s ∨ q.Kept s)
    (unexpired : .timeout ∉ moves) (raced : replay (move s) q moves = some u) :
    replay (guarded (move s) (InTime s)) q moves = some u ∧ (u.Ready s ∨ u.Kept s) ∨
      replay (guarded (move s) (InTime s)) q moves = none ∧ u.Missed s := by
  induction moves generalizing q with
  | nil =>
    cases raced
    exact .inl ⟨rfl, before⟩
  | cons m moves ih =>
    rw [List.mem_cons, not_or] at unexpired
    obtain ⟨v, stepped, rest⟩ := Option.bind_eq_some_iff.mp raced
    by_cases inTime : q.InTime s m
    · have after : v.Ready s ∨ v.Kept s := by
        rcases before with ready | kept
        · exact ready.move inTime (Ne.symm unexpired.1) stepped
        · exact .inr (kept.move stepped)
      rw [replay, guarded, if_pos inTime, stepped]
      exact ih after unexpired.2 rest
    · rw [replay, guarded, if_neg inTime]
      refine .inr ⟨rfl, ?_⟩
      rcases before with ready | kept
      · exact replay_invariant (fun _ _ _ missed => missed.move) (ready.misses inTime stepped) rest
      · exact absurd (kept.inTime m) inTime

theorem start_ready : (start s).Ready s := ⟨rfl, trivial⟩

end Race

/-- When the handler has run before the timeout, `connect` returns true with the packet in
the caller's record exactly if each of the handler's steps was in time. -/
theorem connack_kept_iff {s : Handshake} {front back : List Move} {m d : NmqttClient}
    {call : ConnectCall} (unexpired : .timeout ∉ front)
    (raced : replay NmqttClient.step s.sent (front.map Move.action) = some m)
    (handled : ∃ a ∈ m.connacks[0]?, a.step = .returned)
    (finished : replay NmqttClient.step m (back.map Move.action) = some d)
    (caller : d.calls[0]? = some call) (returned : call.step.hasReturned = true) :
    call.step = .returned true s.packet.fields ↔
      replay (guarded NmqttClient.step NmqttClient.InTime) s.sent (front.map Move.action) =
        some m := by
  rw [← Race.client_start] at raced ⊢
  rw [replay_map (Race.move_client s)] at raced
  rw [replay_map (guarded_map (Race.move_client s) (Race.inTime_client s))]
  obtain ⟨u, moved, rfl⟩ := Option.map_eq_some_iff.mp raced
  rw [replay_map (Race.move_client s)] at finished
  obtain ⟨v, ended, rfl⟩ := Option.map_eq_some_iff.mp finished
  obtain rfl : ⟨s.thread, s.conn, some s.handle, Race.result s v.connect, v.connect⟩ = call :=
    Option.some.inj caller
  obtain ⟨a, known, done⟩ := handled
  obtain rfl : ⟨s.packet, u.handler⟩ = a := Option.some.inj known
  rcases Race.front_cases (.inl Race.start_ready) unexpired moved with
    ⟨inTime, ready | kept⟩ | ⟨late, missed⟩
  · change u.handler = .returned at done
    obtain ⟨-, progress⟩ := ready
    simp only [done] at progress
  · have after := replay_invariant (fun _ _ _ kept => Race.Kept.move kept) kept ended
    rw [inTime, Option.map_some]
    apply iff_of_true _ rfl
    rcases after.connect with at_ | at_ | at_
    · rw [at_] at returned
      cases returned
    · rw [at_] at returned
      cases returned
    · exact at_
  · have after := replay_invariant (fun _ _ _ missed => Race.Missed.move missed) missed ended
    rw [late, Option.map_none]
    exact iff_of_false after.not_returned (fun h => nomatch h)

/-- The CONNACK is handled while the call waits. -/
theorem connack_kept_iff_waiting :
    ∃ d, replay NmqttClient.step (sent ⟨fun _ => ⟨7, false, 9⟩, 0, 0, "", 0, true, 0⟩)
        ([.connect, .connect, .connect, .handler, .handler, .handler, .handler, .handler, .connect,
          .connect].map Move.action) = some d ∧
      ∃ call ∈ d.calls[0]?, call.step = .returned true ⟨0, true, 0⟩ := by
  have kept := @connack_kept_iff ⟨fun _ => ⟨7, false, 9⟩, 0, 0, "", 0, true, 0⟩
    [.connect, .connect, .connect, .handler, .handler, .handler, .handler, .handler]
    [.connect, .connect] _ _ _ (by decide) rfl ⟨_, rfl, rfl⟩ rfl rfl rfl
  exact ⟨_, rfl, _, rfl, kept.mpr rfl⟩

/-- The broker is fast: the handler has run before `connect` publishes its record, and
`connect` times out. -/
theorem fast_connack_lost :
    ∃ m, replay NmqttClient.step (sent ⟨fun _ => ⟨7, false, 9⟩, 0, 0, "", 0, true, 0⟩)
        ([.handler, .handler].map Move.action) = some m ∧
      (∃ a ∈ m.connacks[0]?, a.step = .returned) ∧
      ∃ d, replay NmqttClient.step m ([.connect, .connect, .connect, .timeout, .connect, .connect,
          .connect].map Move.action) = some d ∧
        ∃ call ∈ d.calls[0]?, call.step = .returned false ⟨7, false, 9⟩ ∧
          call.result = "Timeout while trying to connect to broker." :=
  ⟨_, rfl, ⟨_, rfl, rfl⟩, _, rfl, _, rfl, rfl, rfl⟩

end Handshake
end NymphMqtt
