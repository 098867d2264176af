import NymphMqtt.Library.Transition
import NymphMqtt.ServerConnections
import Mathlib.Data.List.Nodup

/-! The handles of the server's sessions, over all calls from the empty store on. -/

namespace NymphMqtt
open NymphMqtt.Library.Transition

namespace NmqttClientConnections
variable {Socket : Type}

inductive Call (Socket : Type) where
  | addSocket (ns : NmqttClientSocket Socket)
  | removeSocket (handle : BitVec 64)
  | getSocket (handle : BitVec 64)
  deriving DecidableEq, Repr

/-- What calls did: a handle was returned for a socket, or was to be removed. -/
inductive Event (Socket : Type) where
  | added (handle : BitVec 64) (ns : NmqttClientSocket Socket)
  | removed (handle : BitVec 64)
  deriving DecidableEq, Repr

/-- The store, the events so far with the newest in front, and the largest number of
sockets that were registered at a time. -/
structure Record (Socket : Type) where
  store : NmqttClientConnections Socket
  events : List (Event Socket)
  peak : Nat

/-- The socket of the most recent `addSocket` that returned the handle, unless it was
removed since. -/
def latest : List (Event Socket) → BitVec 64 → Option (NmqttClientSocket Socket)
  | [], _ => none
  | .added handle ns :: events, h => if handle = h then some ns else latest events h
  | .removed handle :: events, h => if handle = h then none else latest events h

/-- The empty store with its core parameters. -/
def Record.start (core : NmqttClientSocket Socket) : Record Socket :=
  ⟨new.setCoreParameters core, [], 0⟩

def Record.put (r : Record Socket) (store : NmqttClientConnections Socket) (event : Event Socket) :
    Record Socket :=
  ⟨store, event :: r.events, max r.peak store.sockets.keys.length⟩

def Record.step (r : Record Socket) : Call Socket → Option (Record Socket)
  | .addSocket ns =>
      let (handle, store) := r.store.addSocket ns
      some (r.put store (.added handle ns))
  | .removeSocket handle => some (r.put (r.store.removeSocket handle) (.removed handle))
  | .getSocket _ => some r

/-! ### The invariant -/

/-- The free handles and the registered ones share the numbers below the counter. -/
structure Partition (c : NmqttClientConnections Socket) : Prop where
  nodup : c.freeHandles.Nodup
  disjoint : ∀ h ∈ c.freeHandles, h ∉ c.sockets
  below : ∀ h, h.toNat < c.lastHandle.toNat ↔ h ∈ c.freeHandles ∨ h ∈ c.sockets
  count : c.freeHandles.length + c.sockets.keys.length = c.lastHandle.toNat

/-- What is true of a record whose store was never full. -/
structure Record.Kept (core : NmqttClientSocket Socket) (r : Record Socket) : Prop where
  partition : r.store.Partition
  last : r.store.lastHandle.toNat = r.peak
  coreCS : r.store.coreCS = core
  get : ∀ h, r.store.getSocket h =
    (latest r.events h).map fun ns => { core with socket := ns.socket }

section Table
variable {sockets : AList fun _ : BitVec 64 => NmqttClientSocket Socket} {handle : BitVec 64}

theorem length_insert (absent : handle ∉ sockets) (ns : NmqttClientSocket Socket) :
    (sockets.insert handle ns).keys.length = sockets.keys.length + 1 := by
  rw [AList.keys_insert, List.length_cons, List.erase_of_not_mem (mt AList.mem_keys.mpr absent)]

theorem length_erase (known : handle ∈ sockets) :
    (sockets.erase handle).keys.length + 1 = sockets.keys.length := by
  have member := AList.mem_keys.mp known
  rw [AList.keys_erase, List.length_erase_of_mem member]
  exact Nat.sub_add_cancel (List.length_pos_of_mem member)

end Table

/-- The counter moves when there is no handle to reuse. -/
theorem addSocket_lastHandle (c : NmqttClientConnections Socket) (ns : NmqttClientSocket Socket) :
    (c.addSocket ns).2.lastHandle =
      if c.freeHandles = [] then c.lastHandle + 1 else c.lastHandle := by
  calc (c.addSocket ns).2.lastHandle
    _ = c.takeHandle.lastHandle := by rw [c.addSocket_store ns]
    _ = _ := by
      unfold takeHandle
      cases c.freeHandles with
      | nil => rfl
      | cons handle rest => rfl

theorem partition_start (core : NmqttClientSocket Socket) : (new.setCoreParameters core).Partition where
  nodup := List.nodup_nil
  disjoint := fun _ member => nomatch member
  below := by
    intro h
    constructor
    · intro less
      exact absurd less (Nat.not_lt_zero _)
    · rintro (free | used)
      · cases free
      · exact absurd used (AList.notMem_empty h)
  count := rfl

section Partition
variable {c : NmqttClientConnections Socket} (partition : c.Partition)
include partition

theorem Partition.nextHandle_fresh : c.nextHandle ∉ c.sockets := by
  unfold nextHandle
  cases free : c.freeHandles with
  | cons handle rest => exact partition.disjoint handle (free ▸ List.mem_cons_self)
  | nil =>
    intro member
    exact Nat.lt_irrefl _ ((partition.below c.lastHandle).mpr (Or.inr member))

theorem Partition.addSocket_sockets (ns : NmqttClientSocket Socket) : (c.addSocket ns).2.sockets =
    c.sockets.insert c.nextHandle { c.coreCS with socket := ns.socket } := by
  rw [c.addSocket_sockets, if_neg partition.nextHandle_fresh]

theorem Partition.addSocket (ns : NmqttClientSocket Socket)
    (room : c.sockets.keys.length + 1 < 2 ^ 64) : (c.addSocket ns).2.Partition := by
  have fresh := partition.nextHandle_fresh
  have sockets := partition.addSocket_sockets ns
  have longer := length_insert fresh { c.coreCS with socket := ns.socket }
  have count := partition.count
  cases free : c.freeHandles with
  | cons handle rest =>
    have next : c.nextHandle = handle := by rw [nextHandle, free]
    have freeHandles : (c.addSocket ns).2.freeHandles = rest := by
      rw [c.addSocket_freeHandles, free, List.tail_cons]
    have lastHandle : (c.addSocket ns).2.lastHandle = c.lastHandle := by
      rw [c.addSocket_lastHandle, free, if_neg (List.cons_ne_nil handle rest)]
    have nodup := List.nodup_cons.mp (free ▸ partition.nodup)
    rw [next] at sockets longer
    constructor
    · rw [freeHandles]
      exact nodup.2
    · intro h member
      rw [freeHandles] at member
      rw [sockets, AList.mem_insert]
      rintro (rfl | used)
      · exact nodup.1 member
      · exact partition.disjoint h (free ▸ List.mem_cons_of_mem handle member) used
    · intro h
      rw [freeHandles, lastHandle, sockets, AList.mem_insert, partition.below h, free, List.mem_cons]
      tauto
    · rw [freeHandles, lastHandle, sockets, longer, ← count, free, List.length_cons]
      omega
  | nil =>
    have next : c.nextHandle = c.lastHandle := by rw [nextHandle, free]
    have freeHandles : (c.addSocket ns).2.freeHandles = [] := by
      rw [c.addSocket_freeHandles, free, List.tail_nil]
    rw [free, List.length_nil] at count
    have lastHandle : (c.addSocket ns).2.lastHandle.toNat = c.lastHandle.toNat + 1 := by
      rw [c.addSocket_lastHandle, free, if_pos rfl, BitVec.toNat_add]
      apply Nat.mod_eq_of_lt
      change c.lastHandle.toNat + 1 < 2 ^ 64
      omega
    rw [next] at sockets longer
    constructor
    · rw [freeHandles]
      exact List.nodup_nil
    · intro h member
      rw [freeHandles] at member
      cases member
    · intro h
      have old := partition.below h
      rw [free] at old
      rw [freeHandles, lastHandle, sockets, AList.mem_insert, Nat.lt_succ_iff_lt_or_eq, old,
        BitVec.toNat_inj]
      tauto
    · rw [freeHandles, lastHandle, sockets, longer, List.length_nil]
      omega

theorem Partition.removeSocket (handle : BitVec 64) : (c.removeSocket handle).Partition := by
  unfold NmqttClientConnections.removeSocket
  split
  next known =>
    have used : handle ∉ c.freeHandles := fun free => partition.disjoint handle free known
    constructor
    · apply List.nodup_append.mpr
      refine ⟨partition.nodup, List.nodup_singleton handle, fun h free h' last same => ?_⟩
      rw [List.mem_singleton] at last
      subst last same
      exact used free
    · intro h free member
      obtain ⟨other, member⟩ := AList.mem_erase.mp member
      rcases List.mem_append.mp free with old | last
      · exact partition.disjoint h old member
      · exact other (List.mem_singleton.mp last)
    · intro h
      rw [partition.below h, AList.mem_erase, List.mem_append, List.mem_singleton]
      by_cases same : h = handle
      · subst same
        simp only [known, or_true, true_iff]
        tauto
      · tauto
    · have shorter := length_erase known
      have count := partition.count
      simp only [List.length_append, List.length_cons, List.length_nil]
      omega
  next => exact partition

end Partition

/-! ### Calls -/

section Calls
variable {core : NmqttClientSocket Socket} {r : Record Socket}

theorem kept_start (core : NmqttClientSocket Socket) : (Record.start core).Kept core where
  partition := partition_start core
  last := rfl
  coreCS := rfl
  get := fun _ => rfl

theorem addSocket_coreCS (c : NmqttClientConnections Socket) (ns : NmqttClientSocket Socket) :
    (c.addSocket ns).2.coreCS = c.coreCS := by
  calc (c.addSocket ns).2.coreCS
    _ = c.takeHandle.coreCS := by rw [c.addSocket_store ns]
    _ = c.coreCS := by
      unfold takeHandle
      split
      · rfl
      · rfl

/-- The peak bounds what is registered, and only an `addSocket` at the peak raises it. -/
theorem Record.Kept.add (kept : r.Kept core) (ns : NmqttClientSocket Socket)
    (room : max r.peak (r.store.addSocket ns).2.sockets.keys.length < 2 ^ 64) :
    (r.put (r.store.addSocket ns).2 (.added (r.store.addSocket ns).1 ns)).Kept core := by
  have fresh := kept.partition.nextHandle_fresh
  have longer : (r.store.addSocket ns).2.sockets.keys.length = r.store.sockets.keys.length + 1 := by
    rw [kept.partition.addSocket_sockets, length_insert fresh]
  have after := kept.partition.addSocket ns (longer ▸ lt_of_le_of_lt (le_max_right _ _) room)
  constructor
  · exact after
  · have count := kept.partition.count
    have count' := after.count
    have last := kept.last
    rw [r.store.addSocket_freeHandles, List.length_tail] at count'
    change (r.store.addSocket ns).2.lastHandle.toNat =
      max r.peak (r.store.addSocket ns).2.sockets.keys.length
    omega
  · exact (addSocket_coreCS r.store ns).trans kept.coreCS
  · intro h
    by_cases same : r.store.nextHandle = h
    · subst same
      have absent : r.store.getSocket r.store.nextHandle = none := AList.lookup_eq_none.mpr fresh
      change (r.store.addSocket ns).2.getSocket r.store.nextHandle =
        Option.map _ (if r.store.nextHandle = r.store.nextHandle then _ else _)
      rw [if_pos rfl, r.store.getSocket_addSocket_self, absent, kept.coreCS]
      rfl
    · change (r.store.addSocket ns).2.getSocket h =
        Option.map _ (if r.store.nextHandle = h then _ else _)
      rw [if_neg same, r.store.getSocket_addSocket_ne ns h (Ne.symm same)]
      exact kept.get h

theorem Record.Kept.remove (kept : r.Kept core) (handle : BitVec 64) :
    (r.put (r.store.removeSocket handle) (.removed handle)).Kept core := by
  have same_last : (r.store.removeSocket handle).lastHandle = r.store.lastHandle := by
    unfold removeSocket
    split <;> rfl
  have after := kept.partition.removeSocket handle
  constructor
  · exact after
  · have count := after.count
    have last := kept.last
    rw [same_last] at count
    change (r.store.removeSocket handle).lastHandle.toNat =
      max r.peak (r.store.removeSocket handle).sockets.keys.length
    rw [same_last]
    omega
  · rw [← kept.coreCS]
    change (r.store.removeSocket handle).coreCS = _
    unfold removeSocket
    split <;> rfl
  · intro h
    change (r.store.removeSocket handle).getSocket h = Option.map _ (if _ then _ else _)
    by_cases same : handle = h
    · subst same
      rw [if_pos rfl, r.store.getSocket_removeSocket_self]
      rfl
    · rw [if_neg same, r.store.getSocket_removeSocket_ne handle (Ne.symm same)]
      exact kept.get h

/-- A call keeps the invariant unless it fills the store. -/
theorem kept_step {call : Call Socket} {r' : Record Socket}
    (kept : r.peak < 2 ^ 64 → r.Kept core) (stepped : r.step call = some r')
    (room : r'.peak < 2 ^ 64) : r'.Kept core := by
  cases call with
  | addSocket ns =>
    cases stepped
    exact (kept (lt_of_le_of_lt (le_max_left _ _) room)).add ns room
  | removeSocket handle =>
    cases stepped
    exact (kept (lt_of_le_of_lt (le_max_left _ _) room)).remove handle
  | getSocket handle =>
    cases stepped
    exact kept room

/-- What the next `addSocket` does. -/
structure Inserts (c : NmqttClientConnections Socket) (ns : NmqttClientSocket Socket) : Prop where
  fresh : (c.addSocket ns).1 ∉ c.sockets
  entry : (c.addSocket ns).2.getSocket (c.addSocket ns).1 = some { c.coreCS with socket := ns.socket }
  others : ∀ h ≠ (c.addSocket ns).1, (c.addSocket ns).2.getSocket h = c.getSocket h

theorem Partition.inserts {c : NmqttClientConnections Socket} (partition : c.Partition)
    (ns : NmqttClientSocket Socket) : c.Inserts ns where
  fresh := partition.nextHandle_fresh
  entry := by
    have absent : c.getSocket c.nextHandle = none :=
      AList.lookup_eq_none.mpr partition.nextHandle_fresh
    change (c.addSocket ns).2.getSocket c.nextHandle = _
    rw [c.getSocket_addSocket_self, absent]
    rfl
  others := fun h other => c.getSocket_addSocket_ne ns h other

/-- As long as fewer than 2^64 sockets are registered at a time, the free and the
registered handles are the numbers below the counter, which is the largest number of
sockets so far; lookups find the latest socket, and the next one gets a fresh handle. -/
theorem handles_partitioned {calls : List (Call Socket)}
    (replayed : replay Record.step (Record.start core) calls = some r) (room : r.peak < 2 ^ 64) :
    r.Kept core ∧ ∀ ns, r.store.Inserts ns := by
  have first : (Record.start core).peak < 2 ^ 64 → (Record.start core).Kept core :=
    fun _ => kept_start core
  have kept := @replay_invariant _ _ Record.step (fun r => r.peak < 2 ^ 64 → r.Kept core)
    (fun _ _ _ before stepped => kept_step before stepped) _ _ _ first replayed room
  exact ⟨kept, kept.partition.inserts⟩

/-- Two sockets, an unknown handle and a handle that is given back twice. -/
theorem handles_partitioned_reuse : ∃ r : Record Nat, r.store.freeHandles = [0] ∧
    r.store.lastHandle = 2 ∧ r.Kept ⟨none, none, none⟩ ∧ ∀ ns, r.store.Inserts ns := by
  let calls : List (Call Nat) := [.addSocket ⟨some 5, none, none⟩, .addSocket ⟨some 6, none, none⟩,
    .removeSocket 9, .removeSocket 0, .removeSocket 0, .getSocket 1]
  exact ⟨_, by decide, by decide, @handles_partitioned _ _ _ calls rfl (by decide)⟩

end Calls

end NmqttClientConnections
end NymphMqtt
