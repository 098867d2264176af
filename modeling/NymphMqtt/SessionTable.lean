import NymphMqtt.Library.Splice
import NymphMqtt.ServerHandles
import NymphMqtt.SessionEnds

/-! The table of `NmqttClientConnections` against the sessions of the running server: what is in it,
and when a handle that was given back comes to be used again. -/

namespace NymphMqtt
open NymphMqtt.Library Splice Transition

/-- A pass never comes to remove the socket. -/
theorem SessionRun.pass_kept (host : Host) (heap : Nat → Heap) {s : SessionRun}
    (looping : s.step = .looping) (meets : Pass) :
    (s.pass host heap meets).handle = s.handle ∧ (s.pass host heap meets).step ≠ .returned := by
  unfold pass
  split
  next => exact ⟨rfl, nofun⟩
  next =>
    cases meets with
    | idle => exact ⟨rfl, by rw [looping]; nofun⟩
    | exception => exact ⟨rfl, nofun⟩
    | data =>
      refine ⟨rfl, ?_⟩
      dsimp only
      cases (Receiver.turn host heap s.receiver).status <;> nofun

namespace RunningServer

/-- The entry is that of a session which has not removed it. -/
def Registers (core : NmqttClientSocket SessionId) (r : RunningServer) (handle : BitVec 64)
    (entry : NmqttClientSocket SessionId) : Prop :=
  ∃ (i : SessionId) (s : SessionRun), r.sessions[i]? = some s ∧ s.step ≠ .returned ∧
    s.handle = handle ∧ entry = { core with socket := some i }

/-- The table holds the sessions that have not removed themselves, each under its own handle. -/
structure Tabled (core : NmqttClientSocket SessionId) (r : RunningServer) : Prop where
  partition : r.connections.Partition
  coreCS : r.connections.coreCS = core
  entries : ∀ handle entry,
    r.connections.getSocket handle = some entry ↔ r.Registers core handle entry
  count : r.connections.sockets.keys.length = r.sessions.countP fun s => s.step ≠ .returned

section
variable {core : NmqttClientSocket SessionId} {r : RunningServer} {i : SessionId} {s s' : SessionRun}

theorem tabled_start (core : NmqttClientSocket SessionId) : (start core).Tabled core where
  partition := NmqttClientConnections.partition_start core
  coreCS := rfl
  entries _ _ := iff_of_false nofun fun ⟨_, _, known, _⟩ => by cases known
  count := rfl

theorem Tabled.mem (tabled : r.Tabled core) (known : r.sessions[i]? = some s)
    (alive : s.step ≠ .returned) : s.handle ∈ r.connections.sockets := by
  have found := (tabled.entries s.handle _).mpr ⟨i, s, known, alive, rfl, rfl⟩
  exact AList.lookup_isSome.mp (Option.isSome_of_eq_some found)

/-- A session that is known to the table is the only one with its handle. -/
theorem Tabled.unique (tabled : r.Tabled core) {j : SessionId} {t : SessionRun}
    (known : r.sessions[i]? = some s) (alive : s.step ≠ .returned) (known' : r.sessions[j]? = some t)
    (alive' : t.step ≠ .returned) (same : t.handle = s.handle) : j = i := by
  have mine := (tabled.entries s.handle _).mpr ⟨i, s, known, alive, rfl, rfl⟩
  have other := (tabled.entries s.handle _).mpr ⟨j, t, known', alive', same, rfl⟩
  have sockets := congrArg NmqttClientSocket.socket (Option.some_inj.mp (other.symm.trans mine))
  exact Option.some_inj.mp sockets

/-- A session goes on, under the same handle. -/
theorem Tabled.set (tabled : r.Tabled core) (known : r.sessions[i]? = some s)
    (handle : s'.handle = s.handle) (step : s'.step = .returned ↔ s.step = .returned) :
    (r.setSession i s').Tabled core := by
  refine ⟨tabled.partition, tabled.coreCS, fun h entry => (tabled.entries h entry).trans ?_, ?_⟩
  · constructor
    · rintro ⟨j, t, known', alive, under, made⟩
      by_cases same : j = i
      · subst same
        obtain rfl := Option.some_inj.mp (known.symm.trans known')
        refine ⟨j, s', ?_, mt step.mp alive, handle.trans under, made⟩
        rw [setSession, getElem?_set_known known, if_pos rfl]
      · refine ⟨j, t, ?_, alive, under, made⟩
        rw [setSession, getElem?_set_known known, if_neg same, known']
    · rintro ⟨j, t, known', alive, under, made⟩
      rw [setSession, getElem?_set_known known] at known'
      split at known'
      next same =>
        obtain rfl := Option.some_inj.mp known'
        exact ⟨i, s, known, mt step.mpr alive, handle.symm.trans under, same ▸ made⟩
      next => exact ⟨j, t, known', alive, under, made⟩
  · have counted := countP_set_known known s' fun s => decide (s.step ≠ .returned)
    have same : decide (s'.step ≠ .returned) = decide (s.step ≠ .returned) :=
      decide_eq_decide.mpr (not_congr step)
    rw [same] at counted
    exact tabled.count.trans (Nat.add_right_cancel counted).symm

theorem Tabled.accept (tabled : r.Tabled core) (headerBuff : Vector Byte 5) (socket : StreamSocket)
    (room : r.sessions.length + 1 < 2 ^ 64) :
    let added := r.connections.addSocket ⟨some r.sessions.length, none, none⟩
    Tabled core ⟨added.2, r.sessions ++ [.new added.1 headerBuff socket]⟩ := by
  intro added
  have fresh := tabled.partition.nextHandle_fresh
  have longer : added.2.sockets.keys.length = r.connections.sockets.keys.length + 1 := by
    rw [tabled.partition.addSocket_sockets, NmqttClientConnections.length_insert fresh]
  have few : r.connections.sockets.keys.length ≤ r.sessions.length := by
    rw [tabled.count]
    exact List.countP_le_length
  refine ⟨tabled.partition.addSocket _ (by omega), ?_, fun handle entry => ?_, ?_⟩
  · exact (NmqttClientConnections.addSocket_coreCS _ _).trans tabled.coreCS
  · have inserts := tabled.partition.inserts ⟨some r.sessions.length, none, none⟩
    have own := inserts.entry
    rw [tabled.coreCS] at own
    constructor
    · intro found
      by_cases same : handle = r.connections.nextHandle
      · subst same
        refine ⟨r.sessions.length, _, List.getElem?_concat_length, nofun, rfl, ?_⟩
        exact Option.some_inj.mp (found.symm.trans own)
      · rw [inserts.others handle same] at found
        obtain ⟨j, t, known, rest⟩ := (tabled.entries handle entry).mp found
        refine ⟨j, t, ?_, rest⟩
        rw [List.getElem?_append_left (List.getElem?_eq_some_iff.mp known).1]
        exact known
    · rintro ⟨j, t, known, alive, rfl, rfl⟩
      rcases concat_cases known with old | ⟨rfl, rfl⟩
      · have found := (tabled.entries t.handle _).mpr ⟨j, t, old, alive, rfl, rfl⟩
        have other : t.handle ≠ r.connections.nextHandle := by
          intro same
          apply fresh
          rw [← same]
          exact AList.lookup_isSome.mp (Option.isSome_of_eq_some found)
        exact (inserts.others t.handle other).trans found
      · exact own
  · rw [longer, tabled.count, List.countP_append]
    rfl

theorem Tabled.removeSocket (tabled : r.Tabled core) (known : r.sessions[i]? = some s)
    (alive : s.step ≠ .returned) (returned : s'.step = .returned) :
    Tabled core { r.setSession i s' with
      connections := r.connections.removeSocket s.handle } := by
  have here := tabled.mem known alive
  refine ⟨tabled.partition.removeSocket s.handle, ?_, fun handle entry => ?_, ?_⟩
  · change (r.connections.removeSocket s.handle).coreCS = core
    rw [NmqttClientConnections.removeSocket, if_pos here]
    exact tabled.coreCS
  · change (r.connections.removeSocket s.handle).getSocket handle = some entry ↔ _
    by_cases same : handle = s.handle
    · subst same
      rw [NmqttClientConnections.getSocket_removeSocket_self]
      refine iff_of_false nofun ?_
      rintro ⟨j, t, known', alive', under, -⟩
      change (r.sessions.set i s')[j]? = some t at known'
      rw [getElem?_set_known known] at known'
      split at known'
      next =>
        obtain rfl := Option.some_inj.mp known'
        exact alive' returned
      next other => exact other (tabled.unique known alive known' alive' under)
    · rw [NmqttClientConnections.getSocket_removeSocket_ne _ _ same, tabled.entries]
      constructor
      · rintro ⟨j, t, known', alive', under, made⟩
        have other : j ≠ i := by
          rintro rfl
          obtain rfl := Option.some_inj.mp (known.symm.trans known')
          exact same under.symm
        refine ⟨j, t, ?_, alive', under, made⟩
        change (r.sessions.set i s')[j]? = some t
        rw [getElem?_set_known known, if_neg other, known']
      · rintro ⟨j, t, known', alive', under, made⟩
        change (r.sessions.set i s')[j]? = some t at known'
        rw [getElem?_set_known known] at known'
        split at known'
        next =>
          obtain rfl := Option.some_inj.mp known'
          exact absurd returned alive'
        next => exact ⟨j, t, known', alive', under, made⟩
  · have shorter := NmqttClientConnections.length_erase here
    have counted := countP_set_known known s' fun s => decide (s.step ≠ .returned)
    rw [decide_eq_true alive, decide_eq_false (not_not.mpr returned)] at counted
    change (r.connections.removeSocket s.handle).sockets.keys.length =
      (r.sessions.set i s').countP _
    rw [NmqttClientConnections.removeSocket, if_pos here]
    have before := tabled.count
    simp only [Bool.toNat_true, Bool.toNat_false] at counted
    dsimp only
    omega

end

section
variable (host : Host) (heap : SessionId → Nat → Heap) {core : NmqttClientSocket SessionId}
  {r t : RunningServer} {e : Event}

theorem step_length (stepped : r.step host heap e = some t) :
    r.sessions.length ≤ t.sessions.length := by
  cases e with
  | accept headerBuff socket =>
    cases stepped
    rw [List.length_append]
    exact Nat.le_add_right _ _
  | stop i =>
    obtain ⟨s, -, rest⟩ := Option.bind_eq_some_iff.mp stepped
    cases rest
    exact (List.length_set ..).ge
  | pass i meets =>
    obtain ⟨s, -, rest⟩ := Option.bind_eq_some_iff.mp stepped
    split at rest
    next =>
      cases rest
      exact (List.length_set ..).ge
    next => cases rest
  | removeSocket i =>
    obtain ⟨s, -, rest⟩ := Option.bind_eq_some_iff.mp stepped
    split at rest
    next =>
      cases rest
      exact (List.length_set ..).ge
    next => cases rest

theorem Tabled.step (tabled : r.Tabled core) (stepped : r.step host heap e = some t)
    (room : t.sessions.length < 2 ^ 64) : t.Tabled core := by
  cases e with
  | accept headerBuff socket =>
    cases stepped
    apply tabled.accept
    rwa [List.length_append] at room
  | stop i =>
    obtain ⟨s, known, rest⟩ := Option.bind_eq_some_iff.mp stepped
    cases rest
    exact tabled.set known rfl Iff.rfl
  | pass i meets =>
    obtain ⟨s, known, rest⟩ := Option.bind_eq_some_iff.mp stepped
    split at rest
    next looping =>
      cases rest
      obtain ⟨handle, stays⟩ := SessionRun.pass_kept host (heap i) looping meets
      exact tabled.set known handle (iff_of_false stays (by rw [looping]; nofun))
    next => cases rest
  | removeSocket i =>
    obtain ⟨s, known, rest⟩ := Option.bind_eq_some_iff.mp stepped
    split at rest
    next cleaningUp =>
      cases rest
      exact tabled.removeSocket known (by rw [cleaningUp]; nofun) rfl
    next => cases rest

theorem Tabled.run {events : List Event} (tabled : r.Tabled core)
    (run : replay (RunningServer.step host heap) r events = some t)
    (room : t.sessions.length < 2 ^ 64) : t.Tabled core := by
  have first : r.sessions.length < 2 ^ 64 → r.Tabled core := fun _ => tabled
  refine @replay_invariant _ _ _ (fun r => r.sessions.length < 2 ^ 64 → r.Tabled core) ?_ _ _ _ first
    run room
  intro v e w before stepped room
  have fewer := step_length host heap stepped
  exact (before (by omega)).step host heap stepped room

/-- Sessions that are not removed are running, or an exception has ended them. -/
theorem countP_alive (sessions : List SessionRun) :
    (sessions.countP fun s => s.step ≠ .returned) =
      (sessions.countP fun s => ¬s.Ended) + sessions.countP fun s => s.step = .threw := by
  induction sessions with
  | nil => rfl
  | cons s sessions ih =>
    obtain ⟨handle, listen, receiver, step⟩ := s
    simp only [List.countP_cons, ih, SessionRun.Ended]
    cases step <;> simp <;> omega

/-- As long as fewer than 2^64 sessions were started, the table of the server is that of its
sessions: each one that runs has its entry under a handle of its own, as has each one that an
exception has ended, for good; and there is no other entry. -/
theorem table_is_sessions {events : List Event}
    (run : replay (step host heap) (start core) events = some r)
    (room : r.sessions.length < 2 ^ 64) :
    (∀ handle entry, r.connections.getSocket handle = some entry ↔ r.Registers core handle entry) ∧
      r.connections.sockets.keys.length =
        (r.sessions.countP fun s => ¬s.Ended) + r.sessions.countP fun s => s.step = .threw := by
  have tabled := (tabled_start core).run host heap run room
  exact ⟨tabled.entries, tabled.count.trans (countP_alive r.sessions)⟩

/-- The entry of a session that an empty PUBLISH has ended, beside that of one which left. -/
theorem table_is_sessions_threw :
    let step := step ⟨.le, true⟩ fun _ _ => ⟨default, fun _ => 0⟩
    let events : List Event := [.accept #v[0, 0, 0, 0, 0] ⟨[0x30, 0x00], []⟩,
      .accept #v[0, 0, 0, 0, 0] ⟨[], []⟩, .pass 0 .data, .pass 1 .data, .removeSocket 1]
    ∃ r, replay step (start ⟨none, none, none⟩) events = some r ∧
      r.connections.sockets.keys.length = 1 := by
  intro step events
  obtain ⟨r, run, room, running, threw⟩ : ∃ r, replay step (start ⟨none, none, none⟩) events = some r ∧
      r.sessions.length < 2 ^ 64 ∧ (r.sessions.countP fun s => ¬s.Ended) = 0 ∧
      (r.sessions.countP fun s => s.step = .threw) = 1 := ⟨_, rfl, by decide, by decide, by decide⟩
  have counted := (@table_is_sessions ⟨.le, true⟩ (fun _ _ => ⟨default, fun _ => 0⟩) _ r events run
    room).2
  rw [running, threw] at counted
  exact ⟨r, run, counted⟩

/-! ### Handles that are given back -/

/-- The handles of all sessions, in the order of their starts. -/
def handles (r : RunningServer) : List (BitVec 64) := r.sessions.map (·.handle)

def Event.accepts : Event → Bool
  | .accept .. => true
  | _ => false

theorem handles_set {i : SessionId} {s s' : SessionRun} (known : r.sessions[i]? = some s)
    (handle : s'.handle = s.handle) : (r.sessions.set i s').map (·.handle) = r.handles := by
  obtain ⟨bound, rfl⟩ := List.getElem?_eq_some_iff.mp known
  rw [handles, List.map_set, handle, ← List.getElem_map (f := SessionRun.handle)]
  exact List.set_getElem_self (by rwa [List.length_map])

/-- A step that starts no session may put a handle behind those that wait. -/
theorem step_free (stepped : r.step host heap e = some t) (other : e.accepts = false) :
    t.handles = r.handles ∧ ∃ more, t.connections.freeHandles = r.connections.freeHandles ++ more := by
  cases e with
  | accept headerBuff socket => cases other
  | stop i =>
    obtain ⟨s, known, rest⟩ := Option.bind_eq_some_iff.mp stepped
    cases rest
    exact ⟨handles_set known rfl, [], (List.append_nil _).symm⟩
  | pass i meets =>
    obtain ⟨s, known, rest⟩ := Option.bind_eq_some_iff.mp stepped
    split at rest
    next looping =>
      cases rest
      exact ⟨handles_set known (SessionRun.pass_kept host (heap i) looping meets).1, [],
        (List.append_nil _).symm⟩
    next => cases rest
  | removeSocket i =>
    obtain ⟨s, known, rest⟩ := Option.bind_eq_some_iff.mp stepped
    split at rest
    next =>
      cases rest
      refine ⟨@handles_set r i s _ known rfl, ?_⟩
      change ∃ more, (r.connections.removeSocket s.handle).freeHandles = _ ++ more
      unfold NmqttClientConnections.removeSocket
      split
      next => exact ⟨[s.handle], rfl⟩
      next => exact ⟨[], (List.append_nil _).symm⟩
    next => cases rest

/-- New sessions take the handles that wait, in their order. -/
theorem free_taken {events : List Event} (run : replay (step host heap) r events = some t)
    {waiting behind : List (BitVec 64)} (free : r.connections.freeHandles = waiting ++ behind) :
    ∃ new, t.handles = r.handles ++ new ∧ new.length = events.countP Event.accepts ∧
      new.take waiting.length = waiting.take new.length := by
  induction events generalizing r waiting behind with
  | nil =>
    cases run
    exact ⟨[], (List.append_nil _).symm, rfl, by rw [List.take_nil, List.length_nil, List.take_zero]⟩
  | cons e events ih =>
    obtain ⟨v, stepped, rest⟩ := Option.bind_eq_some_iff.mp run
    cases accepts : e.accepts with
    | false =>
      obtain ⟨same, more, longer⟩ := step_free host heap stepped accepts
      rw [free, List.append_assoc] at longer
      obtain ⟨new, grown, count, taken⟩ := ih rest longer
      refine ⟨new, same ▸ grown, ?_, taken⟩
      rw [List.countP_cons_of_neg (by rw [accepts]; decide), count]
    | true =>
      cases e with
      | accept headerBuff socket =>
        obtain rfl : v = ⟨(r.connections.addSocket ⟨some r.sessions.length, none, none⟩).2,
            r.sessions ++ [SessionRun.new r.connections.nextHandle headerBuff socket]⟩ :=
          (Option.some_inj.mp stepped).symm
        have tail := r.connections.addSocket_freeHandles ⟨some r.sessions.length, none, none⟩
        rw [free] at tail
        cases waiting with
        | nil =>
          obtain ⟨new, grown, count, -⟩ := @ih _ rest [] behind.tail tail
          refine ⟨r.connections.nextHandle :: new, ?_, ?_, ?_⟩
          · rw [grown, handles, List.map_append, List.append_assoc]
            rfl
          · rw [List.length_cons, List.countP_cons_of_pos rfl, count]
          · rw [List.length_nil, List.take_zero, List.take_nil]
        | cons first waiting =>
          have next : r.connections.nextHandle = first := by
            rw [NmqttClientConnections.nextHandle, free, List.cons_append]
          obtain ⟨new, grown, count, taken⟩ := @ih _ rest waiting behind tail
          refine ⟨first :: new, ?_, ?_, ?_⟩
          · rw [grown, handles, List.map_append, List.append_assoc, next]
            rfl
          · rw [List.length_cons, List.countP_cons_of_pos rfl, count]
          · rw [List.length_cons, List.length_cons, List.take_succ_cons, List.take_succ_cons, taken]
      | _ => cases accepts

/-- A handle that is given back is used again by the sessions that start later, behind all those
that were waiting before it and not twice. -/
theorem handles_reused_in_order {events later : List Event} {u : RunningServer} {i : SessionId}
    {s : SessionRun} (run : replay (step host heap) (start core) events = some r)
    (room : r.sessions.length < 2 ^ 64) (known : r.sessions[i]? = some s)
    (removed : r.step host heap (.removeSocket i) = some t)
    (goes : replay (step host heap) t later = some u) :
    let waiting := r.connections.freeHandles ++ [s.handle]
    waiting.Nodup ∧ ∃ new, u.handles = r.handles ++ new ∧
      new.length = later.countP Event.accepts ∧
      new.take waiting.length = waiting.take new.length := by
  intro waiting
  have tabled := (tabled_start core).run host heap run room
  obtain ⟨s', known', rest⟩ := Option.bind_eq_some_iff.mp removed
  obtain rfl := Option.some_inj.mp (known.symm.trans known')
  split at rest
  next cleaningUp =>
    cases rest
    have here := tabled.mem known (by rw [cleaningUp]; exact RunStage.noConfusion)
    have given : (r.connections.removeSocket s.handle).freeHandles = waiting := by
      rw [NmqttClientConnections.removeSocket, if_pos here]
    constructor
    · rw [← given]
      exact (tabled.partition.removeSocket s.handle).nodup
    · obtain ⟨new, grown, count, taken⟩ := free_taken host heap goes
        (given.trans (List.append_nil waiting).symm)
      exact ⟨new, grown.trans (congrArg (· ++ new) (handles_set known rfl)), count, taken⟩
  next => cases rest

/-- Of three sessions the middle one and then the first leave; two start again. -/
theorem handles_reused_in_order_twice :
    let step := step ⟨.le, true⟩ fun _ _ => ⟨default, fun _ => 0⟩
    let accept : Event := .accept #v[0, 0, 0, 0, 0] ⟨[], []⟩
    let events := [accept, accept, accept, .pass 1 .data, .removeSocket 1, .pass 0 .data]
    ∃ t u, replay step (start ⟨none, none, none⟩) (events ++ [.removeSocket 0]) = some t ∧
      replay step t [accept, accept] = some u ∧ ∃ new, u.handles = t.handles ++ new ∧
        new.take 2 = [1, 0] := by
  intro step accept events
  obtain ⟨r, t, u, s, run, room, known, removed, goes, free, handle, same⟩ : ∃ r t u s,
      replay step (start ⟨none, none, none⟩) events = some r ∧ r.sessions.length < 2 ^ 64 ∧
      r.sessions[0]? = some s ∧ step r (.removeSocket 0) = some t ∧
      replay step t [accept, accept] = some u ∧ r.connections.freeHandles = [1] ∧ s.handle = 0 ∧
      r.handles = t.handles := ⟨_, _, _, _, rfl, by decide, rfl, rfl, rfl, by decide, rfl, by decide⟩
  obtain ⟨-, new, grown, count, taken⟩ := @handles_reused_in_order ⟨.le, true⟩
    (fun _ _ => ⟨default, fun _ => 0⟩) _ r t events [accept, accept] u 0 s run room known removed goes
  rw [free, handle, count] at taken
  refine ⟨t, u, ?_, goes, new, same ▸ grown, taken⟩
  rw [replay_append, run]
  exact congrArg (Option.bind · some) removed

end
end RunningServer
end NymphMqtt
