import NymphMqtt.Library.Splice
import NymphMqtt.Server

/-! Sessions that register their sockets and remove them again, each in a thread of its own.
`addSocket` and `removeSocket` take no lock: every operation on one of the containers is a
step, and so is the increment. -/

namespace NymphMqtt
open NymphMqtt.Library NymphMqtt.Library.Transition

namespace NmqttClientConnections
variable {Socket : Type}

/-! ### Single operations -/

def pop (c : NmqttClientConnections Socket) : NmqttClientConnections Socket :=
  { c with freeHandles := c.freeHandles.tail }

def increment (c : NmqttClientConnections Socket) : NmqttClientConnections Socket :=
  { c with lastHandle := c.lastHandle + 1 }

/-- `map::insert` of the merged entry. -/
def insert (c : NmqttClientConnections Socket) (handle : BitVec 64) (socket : Option Socket) :
    NmqttClientConnections Socket :=
  if handle ∈ c.sockets then c
  else { c with sockets := c.sockets.insert handle { c.coreCS with socket := socket } }

def erase (c : NmqttClientConnections Socket) (handle : BitVec 64) : NmqttClientConnections Socket :=
  { c with sockets := c.sockets.erase handle }

def push (c : NmqttClientConnections Socket) (handle : BitVec 64) : NmqttClientConnections Socket :=
  { c with freeHandles := c.freeHandles ++ [handle] }

/-- One after the other, the operations are `addSocket`. -/
theorem addSocket_steps (c : NmqttClientConnections Socket) (ns : NmqttClientSocket Socket) :
    c.addSocket ns = match c.freeHandles with
      | handle :: _ => (handle, c.pop.insert handle ns.socket)
      | [] => (c.lastHandle, c.increment.insert c.lastHandle ns.socket) := by
  unfold addSocket takeHandle nextHandle
  cases free : c.freeHandles with
  | nil =>
    unfold increment
    rw [free]
    rfl
  | cons handle rest =>
    unfold pop
    rw [free]
    rfl

theorem removeSocket_steps (c : NmqttClientConnections Socket) (handle : BitVec 64) :
    c.removeSocket handle = if handle ∈ c.sockets then (c.erase handle).push handle else c := rfl

end NmqttClientConnections

/-! ### Threads -/

/-- Where a session's thread stands. In `addSocket`: before the test for a free handle,
before the two operations that take one, before the increment, before the insertion. Then
in the loop of `run`. In `removeSocket`: before the search, before `erase`, before `push`. -/
inductive RegistrationStep where
  | testEmpty
  | front
  | pop (handle : BitVec 64)
  | increment
  | insert (handle : BitVec 64)
  | listening (handle : BitVec 64)
  | find (handle : BitVec 64)
  | erase (handle : BitVec 64)
  | push (handle : BitVec 64)
  | ended
  deriving DecidableEq, Repr

/-- The handle of a session that is registered: from the insertion of its entry to the
erasure. -/
def RegistrationStep.live : RegistrationStep → Option (BitVec 64)
  | .listening handle | .find handle | .erase handle => some handle
  | _ => none

/-- A handle that a session has taken and not inserted yet, or erased and not given back. -/
def RegistrationStep.carried : RegistrationStep → List (BitVec 64)
  | .insert handle | .push handle => [handle]
  | _ => []

/-- The store, and the threads in the order of their sessions. -/
structure Registry where
  connections : NmqttClientConnections SessionId
  sessions : List RegistrationStep

namespace Registry

def new (core : NmqttClientSocket SessionId) : Registry :=
  ⟨NmqttClientConnections.new.setCoreParameters core, []⟩

/-- A new session, or the next step of one. -/
inductive Action where
  | start
  | work (session : SessionId)
  deriving DecidableEq, Repr

def setSession (r : Registry) (i : SessionId) (step : RegistrationStep) : Registry :=
  { r with sessions := r.sessions.set i step }

/-- `front` and `pop` on an empty queue and `erase` of an erased entry have no defined
behaviour, so there is no such step. -/
def work (r : Registry) (i : SessionId) : Option Registry := do
  let step ← r.sessions[i]?
  match step with
  | .testEmpty => r.setSession i (if r.connections.freeHandles = [] then .increment else .front)
  | .front => do
      let handle ← r.connections.freeHandles.head?
      r.setSession i (.pop handle)
  | .pop handle => do
      let _ ← r.connections.freeHandles.head?
      some { r.setSession i (.insert handle) with connections := r.connections.pop }
  | .increment =>
      some { r.setSession i (.insert r.connections.lastHandle) with
        connections := r.connections.increment }
  | .insert handle =>
      some { r.setSession i (.listening handle) with
        connections := r.connections.insert handle (some i) }
  | .listening handle => r.setSession i (.find handle)
  | .find handle =>
      r.setSession i (if handle ∈ r.connections.sockets then .erase handle else .ended)
  | .erase handle =>
      if handle ∈ r.connections.sockets then
        some { r.setSession i (.push handle) with connections := r.connections.erase handle }
      else none
  | .push handle => some { r.setSession i .ended with connections := r.connections.push handle }
  | .ended => none

def step (r : Registry) : Action → Option Registry
  | .start => some { r with sessions := r.sessions ++ [.testEmpty] }
  | .work session => r.work session

/-! ### The property -/

def Live (r : Registry) (i : SessionId) (handle : BitVec 64) : Prop :=
  ∃ step, r.sessions[i]? = some step ∧ RegistrationStep.live step = some handle

/-- Live sessions have handles of their own, and their sockets are in the table. -/
structure Registered (r : Registry) : Prop where
  distinct : ∀ i j handle, r.Live i handle → r.Live j handle → i = j
  present : ∀ i handle, r.Live i handle →
    (r.connections.getSocket handle).bind NmqttClientSocket.socket = some i

/-! ### The condition -/

/-- All handles that are somewhere. -/
def handles (r : Registry) : List (BitVec 64) :=
  r.sessions.flatMap RegistrationStep.carried ++ r.connections.freeHandles ++ r.connections.sockets.keys

/-- What a session's next step needs. -/
def Sole (r : Registry) : Option RegistrationStep → Prop
  | some (.pop handle) => r.connections.freeHandles.head? = some handle
  | some .increment => r.connections.lastHandle ∉ r.handles
  | _ => True

/-- A session pops the handle that it read, and the increment takes an unused one. -/
def Exclusive (r : Registry) : Action → Prop
  | .start => True
  | .work i => r.Sole r.sessions[i]?

instance (r : Registry) (step : Option RegistrationStep) : Decidable (r.Sole step) :=
  match step with
  | some (.pop handle) => inferInstanceAs (Decidable (r.connections.freeHandles.head? = some handle))
  | some .increment => inferInstanceAs (Decidable (r.connections.lastHandle ∉ r.handles))
  | none | some .testEmpty | some .front | some (.insert _) | some (.listening _) | some (.find _)
  | some (.erase _) | some (.push _) | some .ended => inferInstanceAs (Decidable True)

instance (r : Registry) (a : Action) : Decidable (r.Exclusive a) :=
  match a with
  | .start => inferInstanceAs (Decidable True)
  | .work i => inferInstanceAs (Decidable (r.Sole r.sessions[i]?))

/-! ### The invariant -/

structure Sound (r : Registry) : Prop where
  unique : r.handles.Nodup
  present : ∀ i handle, r.Live i handle →
    (r.connections.getSocket handle).bind NmqttClientSocket.socket = some i

theorem Sound.registered {r : Registry} (sound : r.Sound) : r.Registered where
  distinct := by
    intro i j handle first second
    exact Option.some.inj ((sound.present i handle first).symm.trans (sound.present j handle second))
  present := sound.present

theorem sound_new (core : NmqttClientSocket SessionId) : (new core).Sound where
  unique := List.nodup_nil
  present := by
    intro i handle ⟨step, known, _⟩
    cases known

/-- The handles in the store. -/
def stock (c : NmqttClientConnections SessionId) : List (BitVec 64) :=
  c.freeHandles ++ c.sockets.keys

theorem count_handles (r : Registry) (h : BitVec 64) : r.handles.count h =
    (r.sessions.flatMap RegistrationStep.carried).count h + (stock r.connections).count h := by
  rw [handles, stock, List.append_assoc, List.count_append]

section Move
variable {r : Registry} {i : SessionId} {st st' : RegistrationStep}
  {c : NmqttClientConnections SessionId} (known : r.sessions[i]? = some st)
include known

/-- A session's step moves handles between the session and the store. -/
theorem count_move (h : BitVec 64) :
    ({ r.setSession i st' with connections := c } : Registry).handles.count h + st.carried.count h +
        (stock r.connections).count h =
      r.handles.count h + st'.carried.count h + (stock c).count h := by
  have moved := Splice.count_flatMap_set h known st' RegistrationStep.carried
  rw [count_handles, count_handles]
  change ((r.sessions.set i st').flatMap RegistrationStep.carried).count h + (stock c).count h +
    _ + _ = _
  omega

theorem Sound.unique_move (sound : r.Sound)
    (balance : ∀ h, st'.carried.count h + (stock c).count h ≤
      st.carried.count h + (stock r.connections).count h) :
    ({ r.setSession i st' with connections := c } : Registry).handles.Nodup := by
  rw [List.nodup_iff_count_le_one]
  intro h
  have before := List.nodup_iff_count_le_one.mp sound.unique h
  have moved := @count_move r i st st' c known h
  have balanced := balance h
  omega

theorem live_known {h : BitVec 64} (live : st.live = some h) : r.Live i h := ⟨st, known, live⟩

/-- Other sessions stay live, and see the same entries. -/
theorem Sound.move (sound : r.Sound)
    (unique : ({ r.setSession i st' with connections := c } : Registry).handles.Nodup)
    (others : ∀ j h, j ≠ i → r.Live j h → c.getSocket h = r.connections.getSocket h)
    (own : ∀ h, st'.live = some h → (c.getSocket h).bind NmqttClientSocket.socket = some i) :
    ({ r.setSession i st' with connections := c } : Registry).Sound where
  unique := unique
  present := by
    intro j h ⟨step, at_, live⟩
    change (r.sessions.set i st')[j]? = some step at at_
    by_cases same : i = j
    · subst same
      rw [List.getElem?_set_self (List.getElem?_eq_some_iff.mp known).1, Option.some.injEq] at at_
      exact own h (at_ ▸ live)
    · rw [List.getElem?_set_ne same] at at_
      have old : r.Live j h := ⟨step, at_, live⟩
      change (c.getSocket h).bind NmqttClientSocket.socket = some j
      rw [others j h (Ne.symm same) old]
      exact sound.present j h old

end Move

theorem Sound.start {r : Registry} (sound : r.Sound) :
    ({ r with sessions := r.sessions ++ [.testEmpty] } : Registry).Sound where
  unique := by
    have same : ({ r with sessions := r.sessions ++ [.testEmpty] } : Registry).handles = r.handles := by
      unfold handles
      rw [List.flatMap_append]
      simp only [List.flatMap_singleton, RegistrationStep.carried, List.append_nil]
    rw [same]
    exact sound.unique
  present := by
    intro i h ⟨step, at_, live⟩
    change (r.sessions ++ [.testEmpty])[i]? = some step at at_
    rcases Nat.lt_or_ge i r.sessions.length with old | new
    · rw [List.getElem?_append_left old] at at_
      exact sound.present i h ⟨step, at_, live⟩
    · rw [List.getElem?_append_right new] at at_
      have last := List.mem_of_getElem? at_
      rw [List.mem_singleton] at last
      subst last
      cases live

section Work
variable {r r' : Registry} {i : SessionId} (sound : r.Sound)
include sound

theorem Sound.stay {st st' : RegistrationStep} (known : r.sessions[i]? = some st)
    (carried : st'.carried = st.carried) (live : ∀ h, st'.live = some h → st.live = some h) :
    (r.setSession i st').Sound := by
  have unique : (r.setSession i st').handles.Nodup := by
    apply @Sound.unique_move r i st st' r.connections known sound
    intro h
    rw [carried]
  apply sound.move known unique
  · intro j h _ _
    rfl
  · intro h now
    exact sound.present i h ⟨st, known, live h now⟩

theorem Sound.pop {handle : BitVec 64} (known : r.sessions[i]? = some (.pop handle))
    (front : r.connections.freeHandles.head? = some handle) :
    ({ r.setSession i (.insert handle) with connections := r.connections.pop } : Registry).Sound := by
  have whole : r.connections.freeHandles = handle :: r.connections.freeHandles.tail :=
    (List.cons_head?_tail front).symm
  apply sound.move known
  · apply sound.unique_move known
    intro h
    have split : r.connections.freeHandles.count h =
        [handle].count h + r.connections.freeHandles.tail.count h := by
      rw [← List.count_append, List.singleton_append, ← whole]
    simp only [stock, RegistrationStep.carried, NmqttClientConnections.pop, List.count_append,
      List.count_nil]
    omega
  · intro j h _ _
    rfl
  · nofun

theorem Sound.increment (known : r.sessions[i]? = some .increment)
    (unused : r.connections.lastHandle ∉ r.handles) :
    ({ r.setSession i (.insert r.connections.lastHandle) with
      connections := r.connections.increment } : Registry).Sound := by
  apply sound.move known
  · rw [List.nodup_iff_count_le_one]
    intro h
    have before := List.nodup_iff_count_le_one.mp sound.unique h
    have moved := @count_move r i _ (.insert r.connections.lastHandle) r.connections.increment known h
    have none := List.count_eq_zero.mpr unused
    simp only [RegistrationStep.carried, List.count_nil, List.count_singleton, stock,
      NmqttClientConnections.increment] at moved ⊢
    by_cases same : r.connections.lastHandle = h
    · subst same
      simp only [beq_self_eq_true, if_true] at moved
      omega
    · simp only [beq_iff_eq, same, if_false] at moved
      omega
  · intro j h _ _
    rfl
  · nofun

/-- A handle that is carried is no key. -/
theorem Sound.carried_fresh {handle : BitVec 64} {st : RegistrationStep}
    (known : r.sessions[i]? = some st) (carried : handle ∈ st.carried) :
    handle ∉ r.connections.sockets := by
  intro used
  have disjoint := (List.nodup_append.mp sound.unique).2.2
  have held : handle ∈ r.sessions.flatMap RegistrationStep.carried ++ r.connections.freeHandles :=
    List.mem_append_left _ (List.mem_flatMap.mpr ⟨st, List.mem_of_getElem? known, carried⟩)
  exact disjoint handle held handle (AList.mem_keys.mp used) rfl

theorem Sound.live_key {h : BitVec 64} (live : r.Live i h) : h ∈ r.connections.sockets := by
  have entry := sound.present i h live
  rw [← AList.lookup_isSome]
  by_contra absent
  rw [NmqttClientConnections.getSocket, Option.not_isSome_iff_eq_none.mp absent] at entry
  cases entry

theorem Sound.insert {handle : BitVec 64} (known : r.sessions[i]? = some (.insert handle)) :
    ({ r.setSession i (.listening handle) with
      connections := r.connections.insert handle (some i) } : Registry).Sound := by
  have fresh := sound.carried_fresh known List.mem_cons_self
  have inserted : r.connections.insert handle (some i) = { r.connections with
      sockets := r.connections.sockets.insert handle { r.connections.coreCS with socket := some i } } :=
    if_neg fresh
  rw [inserted]
  apply sound.move known
  · apply sound.unique_move known
    intro h
    have keys : (r.connections.sockets.insert handle
        { r.connections.coreCS with socket := some i }).keys = handle :: r.connections.sockets.keys := by
      rw [AList.keys_insert, List.erase_of_not_mem (mt AList.mem_keys.mpr fresh)]
    simp only [stock, RegistrationStep.carried, List.count_append, keys, List.count_cons,
      List.count_nil]
    omega
  · intro j h _ live
    have other : h ≠ handle := by
      rintro rfl
      exact fresh (sound.live_key live)
    exact AList.lookup_insert_ne other
  · intro h live
    cases live
    change (AList.lookup handle (AList.insert handle _ _)).bind _ = _
    rw [AList.lookup_insert]
    rfl

theorem Sound.erase {handle : BitVec 64} (known : r.sessions[i]? = some (.erase handle)) :
    ({ r.setSession i (.push handle) with connections := r.connections.erase handle } : Registry).Sound := by
  have mine := live_known known rfl
  apply sound.move known
  · apply sound.unique_move known
    intro h
    have member := AList.mem_keys.mp (sound.live_key mine)
    have kept := (List.perm_cons_erase member).count_eq h
    rw [← List.singleton_append, List.count_append] at kept
    simp only [stock, RegistrationStep.carried, NmqttClientConnections.erase, AList.keys_erase,
      List.count_append, List.count_nil]
    omega
  · intro j h other live
    have different : h ≠ handle := by
      rintro rfl
      exact other (sound.registered.distinct j i h live mine)
    exact AList.lookup_erase_ne different
  · nofun

theorem Sound.push {handle : BitVec 64} (known : r.sessions[i]? = some (.push handle)) :
    ({ r.setSession i .ended with connections := r.connections.push handle } : Registry).Sound := by
  apply sound.move known
  · apply sound.unique_move known
    intro h
    simp only [stock, RegistrationStep.carried, NmqttClientConnections.push, List.count_append,
      List.count_nil]
    omega
  · intro j h _ _
    rfl
  · nofun

/-- An exclusive step keeps the invariant. -/
theorem Sound.work (sole : r.Sole r.sessions[i]?) (stepped : r.work i = some r') : r'.Sound := by
  obtain ⟨st, known, rest⟩ := Option.bind_eq_some_iff.mp stepped
  rw [known] at sole
  cases st with
  | testEmpty =>
    cases rest
    split
    · exact sound.stay known rfl nofun
    · exact sound.stay known rfl nofun
  | front =>
    obtain ⟨handle, -, moved⟩ := Option.bind_eq_some_iff.mp rest
    cases moved
    exact sound.stay known rfl nofun
  | pop handle =>
    obtain ⟨-, -, moved⟩ := Option.bind_eq_some_iff.mp rest
    cases moved
    exact sound.pop known sole
  | increment =>
    cases rest
    exact sound.increment known sole
  | insert handle =>
    cases rest
    exact sound.insert known
  | listening handle =>
    cases rest
    exact sound.stay known rfl fun h live => live
  | find handle =>
    cases rest
    split
    · exact sound.stay known rfl fun h live => live
    · exact sound.stay known rfl nofun
  | erase handle =>
    dsimp only at rest
    split at rest
    · cases rest
      exact sound.erase known
    · cases rest
  | push handle =>
    cases rest
    exact sound.push known
  | ended => cases rest

end Work

/-! ### The counter -/

end Registry

/-- The session has still to take its handle. -/
def RegistrationStep.toTake : RegistrationStep → Bool
  | .testEmpty | .front | .pop _ | .increment => true
  | _ => false

/-- The handle that a session has read or taken. -/
def RegistrationStep.seen : RegistrationStep → Option (BitVec 64)
  | .pop handle | .insert handle | .listening handle | .find handle | .erase handle
  | .push handle => some handle
  | .testEmpty | .front | .increment | .ended => none

namespace Registry

/-- After `n` increments every handle there is lies below `n`, and each increment was that of one
session. -/
structure Counted (r : Registry) (n : Nat) : Prop where
  last : r.connections.lastHandle = BitVec.ofNat 64 n
  once : n + r.sessions.countP RegistrationStep.toTake ≤ r.sessions.length
  seen : ∀ st ∈ r.sessions, ∀ handle ∈ st.seen, handle.toNat < n
  free : ∀ handle ∈ r.connections.freeHandles, handle.toNat < n
  used : ∀ handle ∈ r.connections.sockets, handle.toNat < n

theorem counted_new (core : NmqttClientSocket SessionId) : (new core).Counted 0 where
  last := rfl
  once := Nat.le_refl _
  seen := fun _ member => absurd member List.not_mem_nil
  free := fun _ member => absurd member List.not_mem_nil
  used := fun handle member => absurd member (AList.notMem_empty handle)

section Counted
variable {r : Registry} {n m : Nat} {i : SessionId} {st st' : RegistrationStep}
  {c : NmqttClientConnections SessionId}

theorem Counted.start (counted : r.Counted n) :
    ({ r with sessions := r.sessions ++ [.testEmpty] } : Registry).Counted n := by
  refine ⟨counted.last, ?_, ?_, counted.free, counted.used⟩
  · have once := counted.once
    have one : [RegistrationStep.testEmpty].countP RegistrationStep.toTake = 1 := rfl
    rw [List.countP_append, List.length_append, one, List.length_singleton]
    omega
  · intro st member handle seen
    rcases List.mem_append.mp member with old | new
    · exact counted.seen st old handle seen
    · rw [List.mem_singleton.mp new] at seen
      cases seen

/-- A session's step, with as many increments as it makes. -/
theorem Counted.move (counted : r.Counted n) (known : r.sessions[i]? = some st) (le : n ≤ m)
    (last : c.lastHandle = BitVec.ofNat 64 m)
    (once : m + st'.toTake.toNat ≤ n + st.toTake.toNat)
    (seen : ∀ handle ∈ st'.seen, handle.toNat < m)
    (free : ∀ handle ∈ c.freeHandles, handle.toNat < m)
    (used : ∀ handle ∈ c.sockets, handle.toNat < m) :
    ({ r.setSession i st' with connections := c } : Registry).Counted m where
  last := last
  once := by
    have before := counted.once
    have moved := Splice.countP_set_known known st' RegistrationStep.toTake
    change m + (r.sessions.set i st').countP _ ≤ (r.sessions.set i st').length
    rw [List.length_set]
    omega
  seen := by
    intro st member handle found
    rcases List.mem_or_eq_of_mem_set member with old | rfl
    · exact Nat.lt_of_lt_of_le (counted.seen st old handle found) le
    · exact seen handle found
  free := free
  used := used

/-- A step that leaves the store as it is. -/
theorem Counted.stay (counted : r.Counted n) (known : r.sessions[i]? = some st)
    (take : st'.toTake = true → st.toTake = true) (seen : ∀ handle ∈ st'.seen, handle.toNat < n) :
    (r.setSession i st').Counted n := by
  refine @Counted.move r n n i st st' r.connections counted known (Nat.le_refl _) counted.last ?_
    seen counted.free counted.used
  cases now : st'.toTake with
  | false => exact Nat.le_add_right _ _
  | true => rw [take now]

theorem Counted.work {r' : Registry} (counted : r.Counted n) (few : r.sessions.length < 2 ^ 64)
    (stepped : r.work i = some r') : ∃ m, r'.Counted m := by
  obtain ⟨st, known, rest⟩ := Option.bind_eq_some_iff.mp stepped
  have seen := counted.seen st (List.mem_of_getElem? known)
  cases st with
  | testEmpty =>
    cases rest
    refine ⟨n, counted.stay known (fun _ => rfl) ?_⟩
    intro handle found
    split at found <;> cases found
  | front =>
    obtain ⟨handle, first, moved⟩ := Option.bind_eq_some_iff.mp rest
    cases moved
    refine ⟨n, counted.stay known (fun _ => rfl) ?_⟩
    rintro _ ⟨⟩
    exact counted.free handle (List.mem_of_mem_head? first)
  | pop handle =>
    obtain ⟨-, -, moved⟩ := Option.bind_eq_some_iff.mp rest
    cases moved
    exact ⟨n, counted.move known (Nat.le_refl _) counted.last (Nat.le_succ _) seen
      (fun handle member => counted.free handle (List.mem_of_mem_tail member)) counted.used⟩
  | increment =>
    cases rest
    have bound : n < 2 ^ 64 := by
      have once := counted.once
      have one : 0 < r.sessions.countP RegistrationStep.toTake :=
        List.countP_pos_iff.mpr ⟨.increment, List.mem_of_getElem? known, rfl⟩
      omega
    have below {handle : BitVec 64} (before : handle.toNat < n) : handle.toNat < n + 1 :=
      Nat.lt_succ_of_lt before
    refine ⟨n + 1, counted.move known (Nat.le_succ _) ?_ (Nat.le_refl _) ?_
      (fun handle member => below (counted.free handle member))
      fun handle member => below (counted.used handle member)⟩
    · change r.connections.lastHandle + 1 = BitVec.ofNat 64 (n + 1)
      rw [counted.last, BitVec.ofNat_add]
      rfl
    · rintro _ ⟨⟩
      rw [counted.last, BitVec.toNat_ofNat, Nat.mod_eq_of_lt bound]
      exact Nat.lt_succ_self n
  | insert handle =>
    cases rest
    refine ⟨n, counted.move known (Nat.le_refl _) ?_ (Nat.le_refl _) seen ?_ ?_⟩
    · unfold NmqttClientConnections.insert
      split <;> exact counted.last
    · unfold NmqttClientConnections.insert
      split <;> exact counted.free
    · unfold NmqttClientConnections.insert
      split
      · exact counted.used
      · intro other member
        rcases (AList.mem_insert _).mp member with rfl | old
        · exact seen _ rfl
        · exact counted.used other old
  | listening handle =>
    cases rest
    exact ⟨n, counted.stay known (fun take => by cases take) seen⟩
  | find handle =>
    cases rest
    refine ⟨n, counted.stay known ?_ ?_⟩
    · split <;> exact fun take => by cases take
    · split
      · exact seen
      · exact fun _ found => by cases found
  | erase handle =>
    dsimp only at rest
    split at rest
    · cases rest
      exact ⟨n, counted.move known (Nat.le_refl _) counted.last (Nat.le_refl _) seen counted.free
        fun other member => counted.used other (AList.mem_erase.mp member).2⟩
    · cases rest
  | push handle =>
    cases rest
    refine ⟨n, counted.move known (Nat.le_refl _) counted.last (Nat.le_refl _)
      (fun _ found => by cases found) ?_ counted.used⟩
    intro other member
    rcases List.mem_append.mp member with old | new
    · exact counted.free other old
    · rw [List.mem_singleton.mp new]
      exact seen handle rfl
  | ended => cases rest

theorem Counted.handles (counted : r.Counted n) : ∀ handle ∈ r.handles, handle.toNat < n := by
  intro handle member
  rcases List.mem_append.mp member with member | key
  · rcases List.mem_append.mp member with carried | free
    · obtain ⟨st, there, carried⟩ := List.mem_flatMap.mp carried
      refine counted.seen st there handle ?_
      cases st with
      | insert | push => exact congrArg some (List.mem_singleton.mp carried).symm
      | _ => cases carried
    · exact counted.free handle free
  · exact counted.used handle (AList.mem_keys.mpr key)

theorem work_length {r' : Registry} (stepped : r.work i = some r') :
    r'.sessions.length = r.sessions.length := by
  obtain ⟨st, known, rest⟩ := Option.bind_eq_some_iff.mp stepped
  cases st with
  | front | pop =>
    obtain ⟨_, _, moved⟩ := Option.bind_eq_some_iff.mp rest
    cases moved
    exact List.length_set
  | erase =>
    dsimp only at rest
    split at rest
    · cases rest
      exact List.length_set
    · cases rest
  | ended => cases rest
  | _ =>
    cases rest
    exact List.length_set

/-- With fewer than 2 ^ 64 sessions the counter comes to no handle that is anywhere. -/
theorem lastHandle_unused {core : NmqttClientSocket SessionId} {labels : List Action}
    (replayed : replay step (new core) labels = some r) (few : r.sessions.length < 2 ^ 64) :
    r.connections.lastHandle ∉ r.handles := by
  obtain ⟨n, counted⟩ : ∃ n, r.Counted n := by
    refine @replay_invariant _ _ _
      (fun r : Registry => r.sessions.length < 2 ^ 64 → ∃ n, r.Counted n) ?_ _ _ _
      (fun _ => ⟨0, counted_new core⟩) replayed few
    intro s a t before stepped few
    cases a with
    | start =>
      cases stepped
      rw [List.length_append] at few
      obtain ⟨n, counted⟩ := before (Nat.lt_of_le_of_lt (Nat.le_add_right _ _) few)
      exact ⟨n, counted.start⟩
    | work i =>
      rw [work_length stepped] at few
      obtain ⟨n, counted⟩ := before few
      exact counted.work few stepped
  intro member
  have below := counted.handles _ member
  have bound := counted.once
  rw [counted.last, BitVec.toNat_ofNat, Nat.mod_eq_of_lt (by omega)] at below
  omega

/-- There the pops are all that `Exclusive` asks for. -/
theorem exclusive_iff {core : NmqttClientSocket SessionId} {labels : List Action}
    (replayed : replay step (new core) labels = some r) (few : r.sessions.length < 2 ^ 64)
    (a : Action) : r.Exclusive a ↔ ∀ i handle, a = .work i → r.sessions[i]? = some (.pop handle) →
      r.connections.freeHandles.head? = some handle := by
  cases a with
  | start => exact iff_of_true trivial fun _ _ same => by cases same
  | work i =>
    constructor
    · rintro sole _ handle ⟨⟩ known
      have sole : r.Sole r.sessions[i]? := sole
      rw [known] at sole
      exact sole
    · intro pops
      change r.Sole r.sessions[i]?
      cases known : r.sessions[i]? with
      | none => trivial
      | some st =>
        cases st with
        | pop handle => exact pops i handle rfl known
        | increment => exact lastHandle_unused replayed few
        | _ => trivial

end Counted

/-- As long as every session pops the handle that it read, and the counter gives unused
ones, live sessions have handles of their own and are found under them. -/
theorem sessions_registered {core : NmqttClientSocket SessionId} {r : Registry}
    (run : Run step Exclusive (new core) r) : r.Registered := by
  apply Sound.registered
  apply run.invariant (sound_new core)
  intro t a u sound exclusive stepped
  cases a with
  | start =>
    cases stepped
    exact sound.start
  | work i => exact sound.work exclusive stepped

def noCore : NmqttClientSocket SessionId := ⟨none, none, none⟩

/-- Two sessions register at the same time; the handle of the first goes to a third one while the
second is live. -/
theorem sessions_registered_reuse : ∃ r : Registry,
    r.sessions = [.ended, .listening 1, .listening 0] ∧ r.Registered := by
  let labels : List Action := [.start, .start, .work 0, .work 1, .work 0, .work 1, .work 1, .work 0,
    .work 0, .start, .work 0, .work 0, .work 0, .work 2, .work 2, .work 2, .work 2]
  obtain ⟨r, replayed, sessions⟩ : ∃ r, replay (guarded step Exclusive) (new noCore) labels = some r ∧
      r.sessions = [.ended, .listening 1, .listening 0] := ⟨_, rfl, rfl⟩
  exact ⟨r, sessions, sessions_registered (run_of_replay replayed)⟩

/-- With two handles to reuse, two sessions read the same one before either pops: both
insert under it, and only the first insertion takes place. -/
theorem sessions_share_handle : ∃ r : Registry, (∃ labels, replay step (new noCore) labels = some r) ∧
    r.Live 2 0 ∧ r.Live 3 0 ∧
      (r.connections.getSocket 0).bind NmqttClientSocket.socket = some 2 := by
  let labels : List Action := [.start, .work 0, .work 0, .work 0, .start, .work 1, .work 1, .work 1,
    .work 0, .work 0, .work 0, .work 0, .work 1, .work 1, .work 1, .work 1, .start, .start,
    .work 2, .work 3, .work 2, .work 3, .work 2, .work 3, .work 2, .work 3]
  obtain ⟨r, replayed, sessions, entry⟩ : ∃ r, replay step (new noCore) labels = some r ∧
      r.sessions = [.ended, .ended, .listening 0, .listening 0] ∧
      (r.connections.getSocket 0).bind NmqttClientSocket.socket = some 2 := ⟨_, rfl, rfl, rfl⟩
  refine ⟨r, ⟨labels, replayed⟩, ?_, ?_, entry⟩
  · exact ⟨.listening 0, by rw [sessions]; rfl, rfl⟩
  · exact ⟨.listening 0, by rw [sessions]; rfl, rfl⟩

end Registry
end NymphMqtt
