import NymphMqtt.ClientConnect

/-! What a call of `connect` that returned true has seen: a CONNACK on its own connection,
with success, in the caller's record. -/

namespace NymphMqtt
open NymphMqtt.Library.Transition

/-! ### Steps -/

/-- Published, and not timed out: a CONNACK may still fill the record. -/
def ConnectStep.attached : ConnectStep → Bool
  | .tryWait | .waiting | .signaled | .startTimer => true
  | _ => false

def ConnectStep.answered : ConnectStep → Bool
  | .signaled | .startTimer => true
  | _ => false

/-- The caller's handle was assigned. -/
def ConnectStep.opened : ConnectStep → Bool
  | .openSocket | .returned false _ => false
  | _ => true

/-- The steps of a call under way that no CONNACK can reach. -/
def ConnectStep.quiet : ConnectStep → Bool
  | .clearBrokerConn | .sendConnect | .lock | .publish | .expired | .timedOut | .unlock
  | .returned false _ => true
  | _ => false

/-- The steps that change `brokerConn`. -/
def ConnectStep.repoints : ConnectStep → Bool
  | .clearBrokerConn | .publish | .timedOut => true
  | _ => false

/-- Between a test that found a record and the signal. -/
def ConnackStep.storing : ConnackStep → Bool
  | .handle | .sessionPresent | .responseCode | .signal true => true
  | _ => false

inductive ConnackField where
  | handle
  | sessionPresent
  | responseCode

/-- The stores that were made. -/
def ConnackStep.past : ConnackStep → ConnackField → Bool
  | .sessionPresent, .handle => true
  | .responseCode, .handle | .responseCode, .sessionPresent => true
  | .signal true, _ => true
  | _, _ => false

namespace NmqttClient

def packets (d : NmqttClient) : List Connack := d.connacks.map ConnackCall.packet

/-- The field of the record is that of a successful CONNACK on this call's connection. -/
def Holds (d : NmqttClient) (i : CallId) (call : ConnectCall) (conn : NmqttBrokerConnection) :
    ConnackField → Prop
  | .handle => call.handle = some conn.handle
  | .sessionPresent => ∃ p ∈ d.packets, p.connection = i ∧ p.code = MqttReasonCodes.success ∧
      p.sessionPresent = conn.sessionPresent
  | .responseCode => conn.responseCode = MqttReasonCodes.success

/-- Every call that returned true had a CONNACK with success on its own connection, and the
caller's record held its fields then. -/
def Justified (d : NmqttClient) : Prop :=
  ∀ i < d.calls.length, ∀ call ∈ d.calls[i]?, ∀ conn, call.step = .returned true conn →
    ∃ p ∈ d.packets, p.connection = i ∧ p.code = MqttReasonCodes.success ∧
      call.handle = some conn.handle ∧ conn.sessionPresent = p.sessionPresent ∧
      conn.responseCode = p.code

/-- A CONNACK whose handler finds a record belongs to the call that published it, and is
a success; a handler that found none meets no waiting call at its signal; `brokerConn` is
not changed while a handler stores; and no call publishes while another is attached. -/
def Attributed (d : NmqttClient) : Action → Prop
  | .proceed i => ∀ call ∈ d.calls[i]?,
      (call.step.repoints = true → ∀ a ∈ d.connacks, a.step.storing = false) ∧
      (call.step = .publish → ∀ other ∈ d.calls, other.step.attached = false)
  | .handle n => ∀ a ∈ d.connacks[n]?,
      (a.step = .test → ∀ c ∈ d.brokerConn,
        a.packet.connection = c ∧ a.packet.code = MqttReasonCodes.success) ∧
      (a.step = .signal false → d.waiters = [])
  | _ => True

instance (d : NmqttClient) (a : Action) : Decidable (d.Attributed a) :=
  match a with
  | .proceed i => inferInstanceAs (Decidable (∀ call ∈ d.calls[i]?, (_ → _) ∧ (_ → _)))
  | .handle n => inferInstanceAs (Decidable (∀ a ∈ d.connacks[n]?, (_ → _) ∧ (_ → _)))
  | .connect _ _ _ | .openSocket _ _ | .sendConnect _ _ | .expire _ | .stopTimer
  | .receive _ _ _ => inferInstanceAs (Decidable True)

/-! ### The invariant -/

structure CallOk (d : NmqttClient) (i : CallId) (call : ConnectCall) : Prop where
  unopened : call.step = .openSocket → call.handle = none
  opened : call.step.opened = true → call.handle.isSome = true
  current : call.step.attached = true → ∀ c ∈ d.brokerConn, c = i
  answered : call.step.answered = true → ∀ f, d.Holds i call (d.record call) f
  returned : ∀ conn, call.step = .returned true conn → ∀ f, d.Holds i call conn f

structure ConnackOk (d : NmqttClient) (a : ConnackCall) : Prop where
  arrived : d.sockets.lookup a.packet.handle = some a.packet.connection
  own : a.step.storing = true →
    d.brokerConn = some a.packet.connection ∧ a.packet.code = MqttReasonCodes.success
  stored : ∀ call ∈ d.calls[a.packet.connection]?, ∀ f, a.step.past f = true →
    d.Holds a.packet.connection call (d.record call) f

/-- What every state of an attributed run satisfies. -/
structure Sound (d : NmqttClient) : Prop where
  call : ∀ i call, d.calls[i]? = some call → d.CallOk i call
  connack : ∀ a ∈ d.connacks, d.ConnackOk a
  opener : ∀ h c, d.sockets.lookup h = some c →
    ∃ call, d.calls[c]? = some call ∧ call.step ≠ .openSocket ∧ ∀ h' ∈ call.handle, h' = h
  pointer : ∀ c, d.brokerConn = some c →
    ∃ call, d.calls[c]? = some call ∧ call.handle.isSome = true
  nodup : d.waiters.Nodup
  waiting : ∀ c ∈ d.waiters, ∃ call, d.calls[c]? = some call ∧ call.step = .waiting

theorem Sound.justified {d : NmqttClient} (sound : d.Sound) : d.Justified := by
  intro i _ call known conn returned
  have holds := (sound.call i call known).returned conn returned
  obtain ⟨p, member, connection, code, present⟩ := holds .sessionPresent
  exact ⟨p, member, connection, code, holds .handle, present.symm, (holds .responseCode).trans code.symm⟩

theorem sound_new (records : Nat → NmqttBrokerConnection) : (new records).Sound where
  call := fun _ _ known => nomatch known
  connack := fun _ member => nomatch member
  opener := fun _ _ known => nomatch known
  pointer := fun _ known => nomatch known
  nodup := List.nodup_nil
  waiting := fun _ member => nomatch member

section Update
variable {d : NmqttClient}

theorem holds_congr {i : CallId} {call call' : ConnectCall} (same : call'.handle = call.handle)
    (conn : NmqttBrokerConnection) (f : ConnackField) :
    d.Holds i call' conn f ↔ d.Holds i call conn f := by
  cases f with
  | handle => simp only [Holds, same]
  | _ => exact Iff.rfl

theorem holds_packets {d' : NmqttClient} (packets : d'.packets = d.packets) (i : CallId)
    (call : ConnectCall) (conn : NmqttBrokerConnection) (f : ConnackField) :
    d'.Holds i call conn f ↔ d.Holds i call conn f := by
  cases f with
  | sessionPresent => simp only [Holds, packets]
  | _ => exact Iff.rfl

theorem getElem?_setCall {i : CallId} {call : ConnectCall} (known : d.calls[i]? = some call)
    (call' : ConnectCall) (j : CallId) :
    (d.setCall i call').calls[j]? = if j = i then some call' else d.calls[j]? := by
  have bound : i < d.calls.length := (List.getElem?_eq_some_iff.mp known).1
  by_cases same : j = i
  · subst same
    rw [if_pos rfl]
    exact List.getElem?_set_self bound
  · rw [if_neg same]
    exact List.getElem?_set_ne (Ne.symm same)

/-- What holds of every call still holds when one of them is replaced. -/
theorem forall_setCall {i : CallId} {call call' : ConnectCall} (known : d.calls[i]? = some call)
    {ok : CallId → ConnectCall → Prop} (new : ok i call')
    (old : ∀ j x, d.calls[j]? = some x → ok j x) :
    ∀ j x, (d.setCall i call').calls[j]? = some x → ok j x := by
  intro j x found
  rw [getElem?_setCall known] at found
  split at found
  next same =>
    cases found
    rw [same]
    exact new
  next => exact old j x found

theorem record_store (d : NmqttClient) (call : ConnectCall) (conn : NmqttBrokerConnection) :
    { d with records := Function.update d.records call.conn conn }.record call = conn :=
  Function.update_self _ _ _

theorem store_cases {stored : NmqttClient} {c : CallId} (pointed : d.brokerConn = some c)
    {change : NmqttBrokerConnection → NmqttBrokerConnection}
    (written : d.store change = some stored) : ∃ call, d.calls[c]? = some call ∧
      stored = { d with records := Function.update d.records call.conn (change (d.record call)) } := by
  obtain ⟨c', pointed', calling⟩ := Option.bind_eq_some_iff.mp written
  obtain ⟨call, caller, changed⟩ := Option.bind_eq_some_iff.mp calling
  cases pointed.symm.trans pointed'
  exact ⟨call, caller, (Option.some.inj changed).symm⟩

/-- Going on with a connack call keeps the packets. -/
theorem packets_setConnack {n : Nat} {a : ConnackCall} (known : d.connacks[n]? = some a)
    (step : ConnackStep) : (d.setConnack n { a with step := step }).packets = d.packets := by
  have same : d.packets[n]? = some a.packet := by
    rw [packets, List.getElem?_map, known, Option.map_some]
  obtain ⟨bound, at_⟩ := List.getElem?_eq_some_iff.mp same
  change (d.connacks.set n _).map ConnackCall.packet = d.packets
  rw [List.map_set]
  change d.packets.set n a.packet = d.packets
  rw [← at_, List.set_getElem_self]

end Update

/-! ### What keeps it -/

section Frame
variable {d d' : NmqttClient}

theorem CallOk.transfer {i : CallId} {call : ConnectCall} (ok : d.CallOk i call)
    (records : d'.records = d.records)
    (current : call.step.attached = true → ∀ c ∈ d'.brokerConn, c = i)
    (holds : ∀ conn f, d.Holds i call conn f → d'.Holds i call conn f) : d'.CallOk i call where
  unopened := ok.unopened
  opened := ok.opened
  current := current
  answered := fun answered f => by
    have same : d'.record call = d.record call := congrFun records call.conn
    rw [same]
    exact holds _ f (ok.answered answered f)
  returned := fun conn at_ f => holds conn f (ok.returned conn at_ f)

/-- A call depends on the pointer, the records and the packets alone. -/
theorem CallOk.frame {i : CallId} {call : ConnectCall} (ok : d.CallOk i call)
    (brokerConn : d'.brokerConn = d.brokerConn) (records : d'.records = d.records)
    (packets : d'.packets = d.packets) : d'.CallOk i call := by
  apply ok.transfer records
  · rw [brokerConn]
    exact ok.current
  · intro conn f
    exact (holds_packets packets i call conn f).mpr

theorem ConnackOk.frame {a : ConnackCall} (ok : d.ConnackOk a) (sockets : d'.sockets = d.sockets)
    (brokerConn : d'.brokerConn = d.brokerConn) (records : d'.records = d.records)
    (calls : d'.calls = d.calls) (packets : d'.packets = d.packets) : d'.ConnackOk a where
  arrived := by
    rw [sockets]
    exact ok.arrived
  own := by
    rw [brokerConn]
    exact ok.own
  stored := by
    rw [calls]
    intro call found f past
    have same : d'.record call = d.record call := congrFun records call.conn
    rw [same, holds_packets packets]
    exact ok.stored call found f past

end Frame

theorem CallOk.quiet {d : NmqttClient} {i : CallId} {call : ConnectCall}
    (quiet : call.step.quiet = true)
    (opened : call.step.opened = true → call.handle.isSome = true) : d.CallOk i call where
  unopened := fun at_ => by
    rw [at_] at quiet
    cases quiet
  opened := opened
  current := fun attached => by
    cases at_ : call.step <;> rw [at_] at attached quiet <;> cases attached <;> cases quiet
  answered := fun answered => by
    cases at_ : call.step <;> rw [at_] at answered quiet <;> cases answered <;> cases quiet
  returned := fun conn at_ => by
    rw [at_] at quiet
    cases quiet

namespace Sound
variable {d : NmqttClient} (sound : d.Sound)
include sound

/-- Only what the invariant reads matters. -/
theorem congr {d' : NmqttClient} (sockets : d'.sockets = d.sockets) (waiters : d'.waiters = d.waiters)
    (brokerConn : d'.brokerConn = d.brokerConn) (records : d'.records = d.records)
    (calls : d'.calls = d.calls) (connacks : d'.connacks = d.connacks) : d'.Sound := by
  have packets : d'.packets = d.packets := congrArg (List.map ConnackCall.packet) connacks
  constructor
  · rw [calls]
    intro i x known
    exact (sound.call i x known).frame brokerConn records packets
  · rw [connacks]
    intro a member
    exact (sound.connack a member).frame sockets brokerConn records calls packets
  · rw [sockets, calls]
    exact sound.opener
  · rw [brokerConn, calls]
    exact sound.pointer
  · rw [waiters]
    exact sound.nodup
  · rw [waiters, calls]
    exact sound.waiting

/-- A call that does not wait goes on. -/
theorem move {i : CallId} {call : ConnectCall} (known : d.calls[i]? = some call)
    (out : i ∉ d.waiters) {step : ConnectStep} {result : String} (isOpen : step ≠ .openSocket)
    (ok : d.CallOk i { call with result := result, step := step }) :
    (d.setCall i { call with result := result, step := step }).Sound := by
  have at_ := getElem?_setCall known { call with result := result, step := step }
  constructor
  · exact forall_setCall known (ok.frame rfl rfl rfl)
      fun j x found => (sound.call j x found).frame rfl rfl rfl
  · intro a member
    obtain ⟨arrived, own, stored⟩ := sound.connack a member
    refine ⟨arrived, own, fun x found f past => ?_⟩
    rw [at_] at found
    split at found
    next same =>
      cases found
      exact (holds_congr rfl _ f).mpr (stored call (same ▸ known) f past)
    next => exact stored x found f past
  · intro h c found
    obtain ⟨x, known', started, same⟩ := sound.opener h c found
    by_cases moved : c = i
    · subst moved
      cases known.symm.trans known'
      exact ⟨{ call with result := result, step := step }, by rw [at_, if_pos rfl], isOpen, same⟩
    · exact ⟨x, by rw [at_, if_neg moved]; exact known', started, same⟩
  · intro c pointed
    obtain ⟨x, known', some⟩ := sound.pointer c pointed
    by_cases moved : c = i
    · subst moved
      cases known.symm.trans known'
      exact ⟨{ call with result := result, step := step }, by rw [at_, if_pos rfl], some⟩
    · exact ⟨x, by rw [at_, if_neg moved]; exact known', some⟩
  · exact sound.nodup
  · intro c member
    obtain ⟨x, known', waits⟩ := sound.waiting c member
    have other : c ≠ i := by
      rintro rfl
      exact out member
    exact ⟨x, by rw [at_, if_neg other]; exact known', waits⟩

theorem out {i : CallId} {call : ConnectCall} (known : d.calls[i]? = some call)
    (idle : call.step ≠ .waiting) : i ∉ d.waiters := by
  intro member
  obtain ⟨x, known', waits⟩ := sound.waiting i member
  cases known.symm.trans known'
  exact idle waits

theorem moveQuiet {i : CallId} {call : ConnectCall} (known : d.calls[i]? = some call)
    (out : i ∉ d.waiters) {step : ConnectStep} {result : String} (quiet : step.quiet = true)
    (opened : step.opened = true → call.handle.isSome = true) :
    (d.setCall i { call with result := result, step := step }).Sound := by
  apply sound.move known out
  · rintro rfl
    cases quiet
  · exact .quiet quiet opened

/-- Without a handler that stores, the pointer may be cleared. -/
theorem unpoint (quiet : ∀ a ∈ d.connacks, a.step.storing = false) :
    { d with brokerConn := none }.Sound := by
  obtain ⟨call, connack, opener, pointer, nodup, waiting⟩ := sound
  refine ⟨fun i x known => ?_, fun a member => ?_, opener, (fun _ none => nomatch none),
    nodup, waiting⟩
  · exact (call i x known).transfer rfl (fun _ _ none => nomatch none) (fun _ _ holds => holds)
  · obtain ⟨arrived, own, stored⟩ := connack a member
    exact ⟨arrived, fun storing => absurd ((quiet a member).symm.trans storing) (by decide), stored⟩

/-- Without such a handler and without an attached call, it may be set. -/
theorem point {i : CallId} {call : ConnectCall} (known : d.calls[i]? = some call)
    (opened : call.handle.isSome = true) (quiet : ∀ a ∈ d.connacks, a.step.storing = false)
    (alone : ∀ other ∈ d.calls, other.step.attached = false) :
    { d with brokerConn := some i }.Sound := by
  obtain ⟨ok, connack, opener, pointer, nodup, waiting⟩ := sound
  refine ⟨fun j x found => ?_, fun a member => ?_, opener, fun c pointed => ?_, nodup, waiting⟩
  · have detached := alone x (List.mem_of_getElem? found)
    have other : x.step.attached = true → ∀ c ∈ some i, c = j := fun attached =>
      absurd (detached.symm.trans attached) (by decide)
    exact (ok j x found).transfer rfl other (fun _ _ holds => holds)
  · obtain ⟨arrived, own, stored⟩ := connack a member
    exact ⟨arrived, fun storing => absurd ((quiet a member).symm.trans storing) (by decide), stored⟩
  · cases pointed
    exact ⟨call, known, opened⟩

/-- Leaving the queue. -/
theorem dequeue {waiters : List CallId} (sub : waiters.Sublist d.waiters) :
    { d with waiters := waiters }.Sound := by
  obtain ⟨call, connack, opener, pointer, nodup, waiting⟩ := sound
  refine ⟨fun i x known => ?_, fun a member => ?_, opener, pointer, nodup.sublist sub,
    fun c member => waiting c (sub.subset member)⟩
  · exact (call i x known).frame rfl rfl rfl
  · exact (connack a member).frame rfl rfl rfl rfl rfl

theorem enqueue {i : CallId} {call : ConnectCall} (known : d.calls[i]? = some call)
    (waits : call.step = .waiting) (out : i ∉ d.waiters) :
    { d with waiters := d.waiters ++ [i] }.Sound := by
  obtain ⟨ok, connack, opener, pointer, nodup, waiting⟩ := sound
  refine ⟨fun j x found => ?_, fun a member => ?_, opener, pointer, ?_, fun c member => ?_⟩
  · exact (ok j x found).frame rfl rfl rfl
  · exact (connack a member).frame rfl rfl rfl rfl rfl
  · rw [List.nodup_append]
    refine ⟨nodup, List.nodup_singleton i, ?_⟩
    intro c queued c' last same
    rw [List.mem_singleton] at last
    subst last same
    exact out queued
  · rcases List.mem_append.mp member with queued | last
    · exact waiting c queued
    · rw [List.mem_singleton] at last
      subst last
      exact ⟨call, known, waits⟩

/-- A connack call goes on. -/
theorem moveConnack {n : Nat} {a : ConnackCall} (known : d.connacks[n]? = some a)
    {step : ConnackStep} (ok : d.ConnackOk { a with step := step }) :
    (d.setConnack n { a with step := step }).Sound := by
  have packets := packets_setConnack known step
  constructor
  · intro i x found
    exact (sound.call i x found).frame rfl rfl packets
  · intro b member
    rcases List.mem_or_eq_of_mem_set member with old | rfl
    · exact (sound.connack b old).frame rfl rfl rfl rfl packets
    · exact ok.frame rfl rfl rfl rfl packets
  · exact sound.opener
  · exact sound.pointer
  · exact sound.nodup
  · exact sound.waiting

/-- A store that takes no field away from the record of the call that is pointed at. -/
theorem store {c : CallId} {call : ConnectCall} (pointed : d.brokerConn = some c)
    (known : d.calls[c]? = some call) {conn : NmqttBrokerConnection}
    (keeps : ∀ f, d.Holds c call (d.record call) f → d.Holds c call conn f) :
    { d with records := Function.update d.records call.conn conn }.Sound := by
  have written := record_store d call conn
  constructor
  · intro i x found
    obtain ⟨unopened, opened, current, answered, returned⟩ := sound.call i x found
    refine ⟨unopened, opened, current, fun signaled f => ?_, returned⟩
    have attached : x.step.attached = true := by
      cases at_ : x.step <;> rw [at_] at signaled <;> first | rfl | cases signaled
    have same := current attached c pointed
    subst same
    cases known.symm.trans found
    rw [written]
    exact keeps f (answered signaled f)
  · intro a member
    obtain ⟨arrived, own, stored⟩ := sound.connack a member
    refine ⟨arrived, own, fun x found f past => ?_⟩
    have storing : a.step.storing = true := by
      cases at_ : a.step with
      | test => rw [at_] at past; cases past
      | returned => rw [at_] at past; cases past
      | signal stored =>
        cases stored with
        | true => rfl
        | false => rw [at_] at past; cases past
      | _ => rfl
    have same := Option.some.inj (pointed.symm.trans (own storing).1)
    rw [← same] at found stored ⊢
    cases known.symm.trans found
    rw [written]
    exact keeps f (stored call known f past)
  · exact sound.opener
  · exact sound.pointer
  · exact sound.nodup
  · exact sound.waiting

end Sound

/-! ### Steps of a call -/

namespace Sound
variable {d d' : NmqttClient} (sound : d.Sound)
include sound

theorem connect {thread conn : Nat} {result : String}
    (stepped : d.connect thread conn result = some d') : d'.Sound := by
  unfold NmqttClient.connect at stepped
  split at stepped
  next =>
    cases stepped
    have older : ∀ {j : CallId} {x : ConnectCall}, d.calls[j]? = some x →
        (d.calls ++ [⟨thread, conn, none, result, .openSocket⟩])[j]? = some x := by
      intro j x found
      rw [List.getElem?_append_left (List.getElem?_eq_some_iff.mp found).1]
      exact found
    constructor
    · intro j x found
      change (d.calls ++ [_])[j]? = some x at found
      by_cases old : j < d.calls.length
      · rw [List.getElem?_append_left old] at found
        exact (sound.call j x found).frame rfl rfl rfl
      · have last := List.mem_of_getElem? ((List.getElem?_append_right (Nat.le_of_not_lt old)).symm.trans
          found)
        rw [List.mem_singleton] at last
        subst last
        exact ⟨fun _ => rfl, fun opened => (nomatch opened), fun attached => (nomatch attached),
          fun answered => (nomatch answered), fun _ returned => (nomatch returned)⟩
    · intro a member
      obtain ⟨arrived, own, stored⟩ := sound.connack a member
      refine ⟨arrived, own, fun x found f past => ?_⟩
      obtain ⟨y, known, -⟩ := sound.opener _ _ arrived
      cases (older known).symm.trans found
      exact stored _ known f past
    · intro h c found
      obtain ⟨x, known, rest⟩ := sound.opener h c found
      exact ⟨x, older known, rest⟩
    · intro c pointed
      obtain ⟨x, known, rest⟩ := sound.pointer c pointed
      exact ⟨x, older known, rest⟩
    · exact sound.nodup
    · intro c member
      obtain ⟨x, known, rest⟩ := sound.waiting c member
      exact ⟨x, older known, rest⟩
  next => cases stepped

/-- The new entry belongs to a call that had none. -/
theorem addSocket {i : CallId} {call call' : ConnectCall} (known : d.calls[i]? = some call)
    (closed : call.step = .openSocket) (isOpen : call'.step ≠ .openSocket)
    (handle : ∀ h ∈ call'.handle, h = d.lastHandle) (ok : d.CallOk i call') :
    ((d.addSocket i).setCall i call').Sound := by
  have at_ : ∀ j, ((d.addSocket i).setCall i call').calls[j]? =
      if j = i then some call' else d.calls[j]? := fun j => getElem?_setCall known call' j
  have older : ∀ {h c}, d.sockets.lookup h = some c → (d.addSocket i).sockets.lookup h = some c := by
    intro h c found
    unfold NmqttClient.addSocket
    dsimp only
    split
    next => exact found
    next absent =>
      rw [AList.lookup_insert_ne]
      · exact found
      · rintro rfl
        exact absent (AList.lookup_isSome.mp (by rw [found, Option.isSome_some]))
  have newer : ∀ {h c}, (d.addSocket i).sockets.lookup h = some c →
      d.sockets.lookup h = some c ∨ h = d.lastHandle ∧ c = i := by
    intro h c found
    unfold NmqttClient.addSocket at found
    dsimp only at found
    split at found
    next => exact .inl found
    next =>
      by_cases same : h = d.lastHandle
      · rw [same, AList.lookup_insert, Option.some.injEq] at found
        exact .inr ⟨same, found.symm⟩
      · rw [AList.lookup_insert_ne same] at found
        exact .inl found
  have entryless : ∀ {h c}, d.sockets.lookup h = some c → c ≠ i := by
    rintro h c found rfl
    obtain ⟨x, known', started, -⟩ := sound.opener h c found
    cases known.symm.trans known'
    exact started closed
  constructor
  · exact forall_setCall (d := d.addSocket i) known (ok.frame rfl rfl rfl)
      fun j x found => (sound.call j x found).frame rfl rfl rfl
  · intro a member
    obtain ⟨arrived, own, stored⟩ := sound.connack a member
    refine ⟨older arrived, own, fun x found f past => ?_⟩
    rw [at_, if_neg (entryless arrived)] at found
    exact stored x found f past
  · intro h c found
    rcases newer found with old | ⟨rfl, rfl⟩
    · obtain ⟨x, known', rest⟩ := sound.opener h c old
      exact ⟨x, by rw [at_, if_neg (entryless old)]; exact known', rest⟩
    · exact ⟨call', by rw [at_, if_pos rfl], isOpen, handle⟩
  · intro c pointed
    obtain ⟨x, known', some⟩ := sound.pointer c pointed
    have other : c ≠ i := by
      rintro rfl
      cases known.symm.trans known'
      rw [(sound.call c call known).unopened closed] at some
      cases some
    exact ⟨x, by rw [at_, if_neg other]; exact known', some⟩
  · exact sound.nodup
  · intro c member
    obtain ⟨x, known', waits⟩ := sound.waiting c member
    have other : c ≠ i := by
      rintro rfl
      cases known.symm.trans known'
      exact absurd (closed.symm.trans waits) (by decide)
    exact ⟨x, by rw [at_, if_neg other]; exact known', waits⟩

theorem openSocket {i : CallId} {opening : Opening}
    (stepped : d.openSocket i opening = some d') : d'.Sound := by
  obtain ⟨call, known, rest⟩ := Option.bind_eq_some_iff.mp stepped
  split at rest
  next closed =>
    have unopened := (sound.call i call known).unopened closed
    have out := sound.out known (by rw [closed]; exact fun h => nomatch h)
    cases opening with
    | threw exception displayText =>
      cases rest
      exact sound.moveQuiet known out rfl (fun h => nomatch h)
    | noListener =>
      cases rest
      apply sound.addSocket known closed (by nofun) _ (.quiet rfl (by nofun))
      intro h given
      cases unopened.symm.trans given
    | opened =>
      cases rest
      have ok : d.CallOk i { call with handle := some d.lastHandle, step := .clearBrokerConn } :=
        .quiet rfl (fun _ => rfl)
      have opened := sound.addSocket known closed (by nofun)
        (fun h given => (Option.some.inj given).symm) ok
      exact opened.congr rfl rfl rfl rfl rfl rfl
  next => cases rest

theorem sendConnect {i : CallId} {sent : Bool} (stepped : d.sendConnect i sent = some d') :
    d'.Sound := by
  obtain ⟨call, known, rest⟩ := Option.bind_eq_some_iff.mp stepped
  split at rest
  next sending =>
    cases rest
    have opened := (sound.call i call known).opened (by rw [sending]; rfl)
    have out := sound.out known (by rw [sending]; exact fun h => nomatch h)
    cases sent with
    | true => exact sound.moveQuiet known out rfl (fun _ => opened)
    | false => exact sound.moveQuiet known out rfl (fun _ => opened)
  next => cases rest

theorem expire {i : CallId} (stepped : d.expire i = some d') : d'.Sound := by
  obtain ⟨call, known, rest⟩ := Option.bind_eq_some_iff.mp stepped
  split at rest
  next waiting =>
    cases rest
    have opened := (sound.call i call known).opened (by rw [waiting]; rfl)
    have gone := sound.dequeue (@List.filter_sublist _ (· ≠ i) d.waiters)
    apply gone.moveQuiet known _ rfl (fun _ => opened)
    simp only [List.mem_filter, ne_eq, not_true_eq_false, decide_false, Bool.false_eq_true,
      and_false, not_false_eq_true]
  next => cases rest

/-- The steps of `connect` that leave no choice. -/
theorem proceed {i : CallId} (attributed : d.Attributed (.proceed i))
    (stepped : d.proceed i = some d') : d'.Sound := by
  obtain ⟨call, known, rest⟩ := Option.bind_eq_some_iff.mp stepped
  obtain ⟨quiet, alone⟩ := attributed call known
  have ok := sound.call i call known
  have out : i ∉ d.waiters := by
    apply sound.out known
    intro waits
    simp only [waits, reduceCtorEq] at rest
  cases at_ : call.step with
  | clearBrokerConn =>
    simp only [at_, Option.some.injEq] at rest
    subst rest
    have cleared := sound.unpoint (quiet (by rw [at_]; rfl))
    exact cleared.moveQuiet known out rfl (fun _ => ok.opened (by rw [at_]; rfl))
  | lock =>
    simp only [at_] at rest
    obtain ⟨connectMtx, -, moved⟩ := Option.bind_eq_some_iff.mp rest
    cases moved
    have moved := @sound.moveQuiet _ i call known out .publish call.result rfl
      (fun _ => ok.opened (by rw [at_]; rfl))
    exact moved.congr rfl rfl rfl rfl rfl rfl
  | publish =>
    simp only [at_, Option.some.injEq] at rest
    subst rest
    have opened := ok.opened (by rw [at_]; rfl)
    have pointed := sound.point known opened (quiet (by rw [at_]; rfl)) (alone at_)
    have waits : { d with brokerConn := some i }.CallOk i { call with step := .tryWait } :=
      { unopened := fun h => nomatch h
        opened := fun _ => opened
        current := fun _ c own => (Option.some.inj own).symm
        answered := fun h => nomatch h
        returned := fun _ h => nomatch h }
    exact pointed.move known out (by nofun) waits
  | tryWait =>
    simp only [at_, Option.some.injEq] at rest
    subst rest
    have waits : d.CallOk i { call with step := .waiting } :=
      { unopened := fun h => nomatch h
        opened := fun _ => ok.opened (by rw [at_]; rfl)
        current := fun _ => ok.current (by rw [at_]; rfl)
        answered := fun h => nomatch h
        returned := fun _ h => nomatch h }
    have moved := sound.move known out (by nofun) waits
    have last : (d.setCall i { call with step := .waiting }).calls[i]? =
        some { call with step := .waiting } := by
      rw [getElem?_setCall known, if_pos rfl]
    exact (moved.enqueue last rfl out).congr rfl rfl rfl rfl rfl rfl
  | signaled =>
    simp only [at_] at rest
    obtain ⟨connectMtx, -, moved⟩ := Option.bind_eq_some_iff.mp rest
    cases moved
    have woken : d.CallOk i { call with step := .startTimer } :=
      { unopened := fun h => nomatch h
        opened := fun _ => ok.opened (by rw [at_]; rfl)
        current := fun _ => ok.current (by rw [at_]; rfl)
        answered := fun _ f => (holds_congr rfl _ f).mpr (ok.answered (by rw [at_]; rfl) f)
        returned := fun _ h => nomatch h }
    exact (sound.move known out (by nofun) woken).congr rfl rfl rfl rfl rfl rfl
  | startTimer =>
    simp only [at_] at rest
    split at rest
    next => cases rest
    next =>
      cases rest
      have returns : d.CallOk i { call with step := .returned true (d.record call) } :=
        { unopened := fun h => nomatch h
          opened := fun _ => ok.opened (by rw [at_]; rfl)
          current := fun h => nomatch h
          answered := fun h => nomatch h
          returned := fun conn snapshot f => by
            cases snapshot
            exact (holds_congr rfl _ f).mpr (ok.answered (by rw [at_]; rfl) f) }
      exact (sound.move known out (by nofun) returns).congr rfl rfl rfl rfl rfl rfl
  | expired =>
    simp only [at_] at rest
    obtain ⟨connectMtx, -, moved⟩ := Option.bind_eq_some_iff.mp rest
    cases moved
    have moved := @sound.moveQuiet _ i call known out .timedOut call.result rfl
      (fun _ => ok.opened (by rw [at_]; rfl))
    exact moved.congr rfl rfl rfl rfl rfl rfl
  | timedOut =>
    simp only [at_, Option.some.injEq] at rest
    subst rest
    have cleared := sound.unpoint (quiet (by rw [at_]; rfl))
    exact cleared.moveQuiet known out rfl (fun _ => ok.opened (by rw [at_]; rfl))
  | unlock =>
    simp only [at_, Option.some.injEq] at rest
    subst rest
    have moved := @sound.moveQuiet _ i call known out (.returned false (d.record call)) call.result
      rfl (fun h => nomatch h)
    exact moved.congr rfl rfl rfl rfl rfl rfl
  | openSocket => simp only [at_, reduceCtorEq] at rest
  | sendConnect => simp only [at_, reduceCtorEq] at rest
  | waiting => simp only [at_, reduceCtorEq] at rest
  | returned connected conn => simp only [at_, reduceCtorEq] at rest

theorem stopTimer (stepped : d.stopTimer = some d') : d'.Sound := by
  unfold NmqttClient.stopTimer at stepped
  split at stepped
  next =>
    cases stepped
    exact sound.congr rfl rfl rfl rfl rfl rfl
  next => cases stepped

/-! ### Steps of a CONNACK -/

theorem receive {handle : BitVec 32} {sessionPresent : Bool} {code : MqttReasonCodes}
    (stepped : d.receive handle sessionPresent code = some d') : d'.Sound := by
  obtain ⟨connection, known, rest⟩ := Option.bind_eq_some_iff.mp stepped
  cases rest
  have more : ∀ {i call conn f}, d.Holds i call conn f →
      { d with connacks := d.connacks ++
          [(⟨⟨connection, handle, sessionPresent, code⟩, .test⟩ : ConnackCall)] }.Holds
        i call conn f := by
    intro i call conn f holds
    cases f with
    | sessionPresent =>
      obtain ⟨p, member, rest⟩ := holds
      refine ⟨p, ?_, rest⟩
      rw [packets, List.map_append]
      exact List.mem_append_left _ member
    | _ => exact holds
  constructor
  · intro i x found
    have ok := sound.call i x found
    exact ok.transfer rfl ok.current (fun _ _ holds => more holds)
  · intro a member
    rcases List.mem_append.mp member with old | new
    · obtain ⟨arrived, own, stored⟩ := sound.connack a old
      exact ⟨arrived, own, fun x found f past => more (stored x found f past)⟩
    · rw [List.mem_singleton] at new
      subst new
      exact ⟨known, (fun storing => nomatch storing), (fun _ _ _ past => nomatch past)⟩
  · exact sound.opener
  · exact sound.pointer
  · exact sound.nodup
  · exact sound.waiting

/-- Nothing is asked of a handler that does not store. -/
theorem moveIdle {n : Nat} {a : ConnackCall} (known : d.connacks[n]? = some a) {step : ConnackStep}
    (idle : step.storing = false) (past : ∀ f, step.past f = false) :
    (d.setConnack n { a with step := step }).Sound := by
  apply sound.moveConnack known
  obtain ⟨arrived, -, -⟩ := sound.connack a (List.mem_of_getElem? known)
  exact ⟨arrived, fun storing => absurd (idle.symm.trans storing) (by decide),
    fun _ _ f at_ => absurd ((past f).symm.trans at_) (by decide)⟩

/-- A handler stores one more field. -/
theorem fill {n : Nat} {a : ConnackCall} (known : d.connacks[n]? = some a)
    (storing : a.step.storing = true) {change : NmqttBrokerConnection → NmqttBrokerConnection}
    {step : ConnackStep}
    (keeps : ∀ call f, call.handle = some a.packet.handle →
      a.packet.code = MqttReasonCodes.success →
      (d.Holds a.packet.connection call (d.record call) f ∨
        step.past f = true ∧ a.step.past f = false) →
      d.Holds a.packet.connection call (change (d.record call)) f)
    (filled : ((d.store change).bind fun d => some (d.setConnack n { a with step := step })) =
      some d') : d'.Sound := by
  obtain ⟨arrived, own, before⟩ := sound.connack a (List.mem_of_getElem? known)
  obtain ⟨pointed, success⟩ := own storing
  obtain ⟨stored, written, moved⟩ := Option.bind_eq_some_iff.mp filled
  cases moved
  obtain ⟨call, caller, rfl⟩ := store_cases pointed written
  -- the call that is pointed at has the handle on which the packet arrived
  have handle : call.handle = some a.packet.handle := by
    obtain ⟨x, known', some⟩ := sound.pointer _ pointed
    cases caller.symm.trans known'
    obtain ⟨y, known', -, same⟩ := sound.opener _ _ arrived
    cases caller.symm.trans known'
    obtain ⟨h, given⟩ := Option.isSome_iff_exists.mp some
    rw [given, same h given]
  have after := sound.store pointed caller
    (fun f holds => keeps call f handle success (.inl holds))
  apply after.moveConnack known
  refine ⟨arrived, fun _ => ⟨pointed, success⟩, fun x found f past => ?_⟩
  cases caller.symm.trans found
  rw [record_store]
  apply keeps call f handle success
  by_cases old : a.step.past f = true
  · exact .inl (before call caller f old)
  · exact .inr ⟨past, eq_false_of_ne_true old⟩

theorem handle {n : Nat} (attributed : d.Attributed (.handle n)) (stepped : d.handle n = some d') :
    d'.Sound := by
  obtain ⟨a, known, rest⟩ := Option.bind_eq_some_iff.mp stepped
  obtain ⟨found, unheard⟩ := attributed a known
  have ok := sound.connack a (List.mem_of_getElem? known)
  have member : a.packet ∈ d.packets := List.mem_map_of_mem (List.mem_of_getElem? known)
  cases at_ : a.step with
  | test =>
    simp only [at_, Option.some.injEq] at rest
    subst rest
    cases pointed : d.brokerConn with
    | none => exact sound.moveIdle known rfl (fun _ => rfl)
    | some c =>
      obtain ⟨own, success⟩ := found at_ c pointed
      apply sound.moveConnack known
      exact ⟨ok.arrived, fun _ => ⟨by rw [own]; exact pointed, success⟩,
        (fun _ _ _ past => nomatch past)⟩
  | handle =>
    simp only [at_] at rest
    refine sound.fill known (by rw [at_]; rfl) ?_ rest
    intro call f handle success before
    cases f with
    | handle => exact handle
    | _ => exact before.resolve_right (by rw [at_]; nofun)
  | sessionPresent =>
    simp only [at_] at rest
    refine sound.fill known (by rw [at_]; rfl) ?_ rest
    intro call f handle success before
    cases f with
    | sessionPresent => exact ⟨a.packet, member, rfl, success, rfl⟩
    | _ => exact before.resolve_right (by rw [at_]; nofun)
  | responseCode =>
    simp only [at_] at rest
    refine sound.fill known (by rw [at_]; rfl) ?_ rest
    intro call f handle success before
    cases f with
    | responseCode => exact success
    | _ => exact before.resolve_right (by rw [at_]; nofun)
  | signal stored =>
    simp only [at_] at rest
    obtain ⟨signaled, sent, moved⟩ := Option.bind_eq_some_iff.mp rest
    cases moved
    unfold NmqttClient.signal at sent
    cases queue : d.waiters with
    | nil =>
      simp only [queue, Option.some.injEq] at sent
      subst sent
      exact sound.moveIdle known rfl (fun _ => rfl)
    | cons c waiters =>
      simp only [queue] at sent
      obtain ⟨call, caller, woken⟩ := Option.bind_eq_some_iff.mp sent
      cases woken
      have heard : stored = true := by
        by_contra missed
        have none := unheard (by rw [at_, eq_false_of_ne_true missed])
        exact absurd (queue.symm.trans none) (List.cons_ne_nil _ _)
      subst heard
      obtain ⟨pointed, -⟩ := ok.own (by rw [at_]; rfl)
      obtain ⟨x, known', waits⟩ := sound.waiting c (by rw [queue]; exact List.mem_cons_self)
      cases caller.symm.trans known'
      have waiter := sound.call c call caller
      have own := waiter.current (by rw [waits]; rfl) _ pointed
      have front := List.nodup_cons.mp (queue ▸ sound.nodup)
      have answer : { d with waiters := waiters }.CallOk c { call with step := .signaled } :=
        { unopened := fun h => nomatch h
          opened := fun _ => waiter.opened (by rw [waits]; rfl)
          current := fun _ => waiter.current (by rw [waits]; rfl)
          answered := fun _ f => (holds_congr rfl _ f).mpr
            (own ▸ ok.stored call (own ▸ caller) f (by rw [at_]; cases f <;> rfl))
          returned := fun _ h => nomatch h }
      have rest := sound.dequeue (queue ▸ List.sublist_cons_self c waiters)
      have moved := rest.move caller front.1 (by nofun) answer
      exact moved.moveIdle known rfl (fun _ => rfl)
  | returned => simp only [at_, reduceCtorEq] at rest

end Sound

theorem Sound.step {d d' : NmqttClient} {a : Action} (sound : d.Sound)
    (attributed : d.Attributed a) (stepped : d.step a = some d') : d'.Sound := by
  cases a with
  | connect thread conn result => exact sound.connect stepped
  | openSocket call opening => exact sound.openSocket stepped
  | sendConnect call sent => exact sound.sendConnect stepped
  | proceed call => exact sound.proceed attributed stepped
  | expire call => exact sound.expire stepped
  | stopTimer => exact sound.stopTimer stepped
  | receive handle sessionPresent code => exact sound.receive stepped
  | handle connack => exact sound.handle attributed stepped

/-- In an attributed run no call returns true without its own CONNACK. -/
theorem connects_justified {records : Nat → NmqttBrokerConnection} {d : NmqttClient}
    (run : Run step Attributed (new records) d) : d.Justified := by
  apply Sound.justified
  apply run.invariant
  · exact sound_new records
  · intro t a u sound attributed stepped
    exact sound.step attributed stepped

/-- A first call times out, and a second one is answered. -/
theorem connects_justified_retry : ∃ d : NmqttClient,
    (∃ call ∈ d.calls[1]?, call.step = .returned true ⟨1, true, 0⟩) ∧ d.Justified := by
  have replayed : ∃ d, replay (guarded step Attributed) (new fun _ => ⟨0, false, 0⟩)
      [.connect 0 0 "", .openSocket 0 .opened, .proceed 0, .sendConnect 0 true, .proceed 0, .proceed 0,
        .proceed 0, .expire 0, .proceed 0, .proceed 0, .proceed 0,
        .connect 0 0 "", .openSocket 1 .opened, .proceed 1, .sendConnect 1 true, .proceed 1, .proceed 1,
        .proceed 1, .receive 1 true 0, .handle 0, .handle 0, .handle 0, .handle 0, .handle 0,
        .proceed 1, .proceed 1] = some d ∧
      ∃ call ∈ d.calls[1]?, call.step = .returned true ⟨1, true, 0⟩ := by
    refine ⟨_, rfl, ?_⟩
    decide
  obtain ⟨d, replayed, returned⟩ := replayed
  exact ⟨d, returned, connects_justified (run_of_replay replayed)⟩

/-- The broker refuses the client, and `connect` returns true. -/
theorem refused_connects : ∃ d, replay step (new fun _ => ⟨0, false, 0⟩)
    [.connect 0 0 "", .openSocket 0 .opened, .proceed 0, .sendConnect 0 true, .proceed 0, .proceed 0,
      .proceed 0, .receive 0 false 5, .handle 0, .handle 0, .handle 0, .handle 0, .handle 0,
      .proceed 0, .proceed 0] = some d ∧
    (∃ call ∈ d.calls[0]?, call.step = .returned true ⟨0, false, 5⟩) ∧ ¬d.Justified := by
  refine ⟨_, rfl, by decide, fun justified => ?_⟩
  obtain ⟨p, member, -, code, -⟩ := justified 0 (by decide) _ rfl _ rfl
  cases List.mem_singleton.mp member
  exact absurd code (by decide)

end NmqttClient
end NymphMqtt
