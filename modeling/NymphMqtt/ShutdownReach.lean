import NymphMqtt.ConnectionRelease
import NymphMqtt.ConnectionRouting

/-! What the shutdown of one client does to the listeners of the process. -/

namespace NymphMqtt.Runtime
open NymphMqtt.Library OrderedMap Splice Transition

namespace Statics
variable {s t u : Statics}

/-- The listeners that were told to stop will, and nothing has happened to another one. -/
structure Silenced (s t : Statics) (told : ListenerId → Prop) : Prop where
  hit : ∀ i, told i → t.started[i]? = s.started[i]?.map fun r => { r with listen := false }
  others : ∀ i, ¬told i → t.started[i]? = s.started[i]?

theorem Silenced.of_eq (same : t.started = s.started) : Silenced s t fun _ => False :=
  ⟨fun _ told => told.elim, fun _ _ => by rw [same]⟩

theorem Silenced.trans {told told' : ListenerId → Prop} (first : Silenced s t told)
    (second : Silenced t u told') : Silenced s u fun i => told i ∨ told' i := by
  refine ⟨fun i either => ?_, fun i neither => ?_⟩
  · by_cases again : told' i
    · rw [second.hit i again]
      by_cases before : told i
      · rw [first.hit i before, Option.map_map]
        rfl
      · rw [first.others i before]
    · rw [second.others i again]
      exact first.hit i (either.resolve_right again)
  · rw [second.others i (mt Or.inr neither)]
    exact first.others i (mt Or.inl neither)

theorem Silenced.congr {told told' : ListenerId → Prop} (silenced : Silenced s t told)
    (same : ∀ i, told' i ↔ told i) : Silenced s t told' :=
  ⟨fun i here => silenced.hit i ((same i).mp here),
    fun i away => silenced.others i (mt (same i).mpr away)⟩

/-- What has been told to stop stays as it is. -/
theorem Silenced.stays {told : ListenerId → Prop} (silenced : Silenced s t told) {i : ListenerId}
    {r : NmqttClientListener} (here : s.started[i]? = some r) (off : r.listen = false) :
    t.started[i]? = some r := by
  by_cases again : told i
  · have same : { r with listen := false } = r := by rw [← off]
    rw [silenced.hit i again, here, Option.map_some, same]
  · rw [silenced.others i again, here]

theorem silenced_stopListener (s : Statics) (listener : ListenerId) :
    Silenced s (s.stopListener listener) fun i => i = listener := by
  refine ⟨fun i same => ?_, fun i other => ?_⟩
  · rw [stopListener, List.getElem?_modify, same]
    simp only [if_true]
    rfl
  · rw [stopListener, List.getElem?_modify]
    simp only [if_neg (Ne.symm other)]
    exact Option.map_id'

theorem silenced_removeConnection (s : Statics) (handle : BitVec 32) :
    Silenced s (s.removeConnection handle) fun i => s.listeners.lookup handle = some i := by
  unfold removeConnection
  cases found : s.listeners.lookup handle with
  | none => exact (Silenced.of_eq rfl).congr fun i => iff_of_false nofun id
  | some listener =>
    have silenced := s.silenced_stopListener listener
    refine Silenced.congr ⟨silenced.hit, silenced.others⟩ fun i => ?_
    rw [Option.some_inj, eq_comm]

theorem removeConnection_lookup (s : Statics) (handle other : BitVec 32) :
    (s.removeConnection handle).listeners.lookup other =
      if other = handle then none else s.listeners.lookup other := by
  by_cases same : other = handle
  · rw [if_pos same, same]
    unfold removeConnection
    split
    next absent => exact absent
    next => exact AList.lookup_erase ..
  · rw [if_neg same]
    unfold removeConnection
    split
    next => rfl
    next => exact AList.lookup_erase_ne same

/-- The loop of `shutdown` over all sockets of the client. -/
theorem closeAll_silenced {failing : List SocketId} {listed : List (BitVec 32 × SocketId)}
    (closed : (NmqttClient.closeAll failing s listed).2 = true) :
    Silenced s (NmqttClient.closeAll failing s listed).1 (fun i =>
        ∃ handle ∈ listed.map Prod.fst, s.listeners.lookup handle = some i) ∧
      ∀ other, (NmqttClient.closeAll failing s listed).1.listeners.lookup other =
        if other ∈ listed.map Prod.fst then none else s.listeners.lookup other := by
  induction listed generalizing s with
  | nil =>
    constructor
    · apply (Silenced.of_eq rfl).congr
      exact fun i => iff_of_false (fun ⟨_, member, _⟩ => List.not_mem_nil member) id
    · exact fun other => (if_neg List.not_mem_nil).symm
  | cons entry rest ih =>
    obtain ⟨handle, socket⟩ := entry
    unfold NmqttClient.closeAll at closed ⊢
    dsimp only at closed ⊢
    by_cases fails : socket ∈ failing
    · rw [if_pos fails] at closed
      cases closed
    · rw [if_neg fails] at closed ⊢
      obtain ⟨silenced, left⟩ := ih closed
      have removed := s.removeConnection_lookup handle
      constructor
      · apply ((s.silenced_removeConnection handle).trans silenced).congr
        intro i
        rw [List.map_cons]
        constructor
        · rintro ⟨other, member, found⟩
          by_cases same : other = handle
          · exact .inl (same ▸ found)
          · refine .inr ⟨other, (List.mem_cons.mp member).resolve_left same, ?_⟩
            rw [removed, if_neg same, found]
        · rintro (found | ⟨other, member, found⟩)
          · exact ⟨handle, List.mem_cons_self, found⟩
          · refine ⟨other, List.mem_cons_of_mem _ member, ?_⟩
            rw [removed] at found
            split at found
            next => cases found
            next => exact found
      · intro other
        rw [left, removed, List.map_cons]
        by_cases same : other = handle
        · rw [if_pos same, if_pos (List.mem_cons.mpr (.inl same)), ite_self]
        · simp only [List.mem_cons, same, false_or, if_false]

theorem closeAll_silences (failing : List SocketId) (s : Statics)
    (listed : List (BitVec 32 × SocketId)) :
    ∃ told, Silenced s (NmqttClient.closeAll failing s listed).1 told := by
  induction listed generalizing s with
  | nil => exact ⟨_, .of_eq rfl⟩
  | cons entry rest ih =>
    have removed := s.silenced_removeConnection entry.1
    unfold NmqttClient.closeAll
    split
    · exact ⟨_, removed⟩
    · obtain ⟨told, later⟩ := ih (s.removeConnection entry.1)
      exact ⟨_, removed.trans later⟩

theorem foldlM_silenced {indices : List Nat} (stopped : indices.foldlM stopAt s = some t) :
    t.listeners = s.listeners ∧
      Silenced s t fun i => ∃ k ∈ indices, s.listeners.lookup (BitVec.ofNat 32 k) = some i := by
  induction indices generalizing s with
  | nil =>
    cases stopped
    refine ⟨rfl, (Silenced.of_eq rfl).congr fun i => ?_⟩
    exact iff_of_false (fun ⟨_, member, _⟩ => List.not_mem_nil member) id
  | cons k indices ih =>
    obtain ⟨v, first, rest⟩ := Option.bind_eq_some_iff.mp stopped
    obtain ⟨listener, found, rfl⟩ := Option.map_eq_some_iff.mp first
    obtain ⟨listeners, later⟩ := ih rest
    refine ⟨listeners, ((s.silenced_stopListener listener).trans later).congr fun i => ?_⟩
    simp only [List.mem_cons, exists_eq_or_imp, found, Option.some_inj]
    exact or_congr_left eq_comm

/-- Where `stop` comes back, it has told all listeners of its table. -/
theorem stop_silenced (stopped : s.stop = some t) (few : s.listeners.keys.length < 2 ^ 31) :
    t.listeners = s.listeners ∧
      Silenced s t fun i => ∃ handle, s.listeners.lookup handle = some i := by
  obtain ⟨listeners, silenced⟩ := foldlM_silenced stopped
  refine ⟨listeners, silenced.congr fun i => ?_⟩
  have contiguous : Contiguous s.listeners.keys :=
    stop_isSome_iff.mp (Option.isSome_of_eq_some stopped)
  have all := contiguous_perm contiguous few
  constructor
  · rintro ⟨handle, found⟩
    obtain ⟨k, member, rfl⟩ := List.mem_map.mp (all.mem_iff.mpr (mem_of_lookup found))
    exact ⟨k, member, found⟩
  · rintro ⟨k, -, found⟩
    exact ⟨_, found⟩

end Statics

/-! ### Calls -/

namespace NmqttClient
variable {c c' : NmqttClient} {s s' : Statics} {client thread : Nat} {call : Call} {answer : Answer}

/-- No call makes a listener go on that was told to stop. -/
theorem invoke_stays (called : c.invoke s client thread call = some (c', s', answer)) {i : ListenerId}
    {r : NmqttClientListener} (here : s.started[i]? = some r) (off : r.listen = false) :
    s'.started[i]? = some r := by
  cases call with
  | setMessageHandler handler =>
    cases called
    exact here
  | connect data o =>
    have statics := (connect_spec called).statics
    split at statics
    next =>
      have statics : s' = s.connected c client data o.listener := statics
      obtain ⟨ns, -, started⟩ := s.connected_started c client data o.listener
      rw [statics, started, List.getElem?_append_left (List.getElem?_eq_some_iff.mp here).1, here]
    next => rw [statics, here]
  | disconnect handle sending closing =>
    obtain ⟨-, -, rfl⟩ | ⟨-, semaphore, -, -, -, rfl⟩ := (disconnect_spec called).tables
    · exact here
    · exact ((s.setSemaphore semaphore).silenced_removeConnection handle).stays here off
  | publish handle sending => exact (publish_spec called).1 ▸ here
  | subscribe handle sending => exact (publish_spec called).1 ▸ here
  | unsubscribe handle sending => exact (publish_spec called).1 ▸ here
  | shutdown failing =>
    obtain ⟨t, closed, walked, ended⟩ := (shutdown_spec called).statics
    obtain ⟨told, closing⟩ := Statics.closeAll_silences failing s
      (inOrder (fun a b => a.toInt ≤ b.toInt) c.sockets)
    rw [walked] at closing
    have there := closing.stays here off
    obtain rfl | stopped := ended
    · exact there
    · exact (Statics.foldlM_silenced stopped).2.stays there off

/-- What a call of `shutdown` that returns true has done to the listeners. -/
theorem shutdown_true {failing : List SocketId}
    (called : c.shutdown s thread failing = some (c', s', answer))
    (came : answer.exit = .returned true) (few : s.listeners.keys.length < 2 ^ 31) :
    (∀ handle, s'.listeners.lookup handle =
        if handle ∈ c.sockets then none else s.listeners.lookup handle) ∧
      Statics.Silenced s s' fun i => ∃ handle, s.listeners.lookup handle = some i := by
  obtain ⟨m, t, closed, -, -, walked, ended⟩ := shutdown_cases called
  obtain ⟨-, -, -, rfl⟩ | ⟨-, all, -, ⟨-, -, rfl⟩ | ⟨stopped, -⟩⟩ := ended
  · cases came
  · cases came
  have keys := @Statics.closeAll_keys failing s (inOrder (fun a b => a.toInt ≤ b.toInt) c.sockets)
    (by rw [walked, all])
  obtain ⟨closing, left⟩ := @Statics.closeAll_silenced s failing
    (inOrder (fun a b => a.toInt ≤ b.toInt) c.sockets) (by rw [walked, all])
  rw [walked] at keys closing left
  dsimp only at keys closing left
  have few' : t.listeners.keys.length < 2 ^ 31 := by
    rw [keys]
    exact Nat.lt_of_le_of_lt (List.length_filter_le _ _) few
  obtain ⟨listeners, silenced⟩ := Statics.stop_silenced stopped few'
  constructor
  · intro handle
    rw [listeners, left]
    exact if_congr mem_handles rfl rfl
  · refine (closing.trans silenced).congr fun i => ?_
    constructor
    · rintro ⟨handle, found⟩
      by_cases mine : handle ∈ (inOrder (fun a b => a.toInt ≤ b.toInt) c.sockets).map Prod.fst
      · exact .inl ⟨handle, mine, found⟩
      · exact .inr ⟨handle, by rw [left, if_neg mine, found]⟩
    · rintro (⟨handle, -, found⟩ | ⟨handle, found⟩)
      · exact ⟨handle, found⟩
      · rw [left] at found
        split at found
        next => cases found
        next => exact ⟨handle, found⟩

end NmqttClient

namespace Process
variable {p q u : Process}

theorem step_stays {l : Invocation} (stepped : p.step l = some q) {i : ListenerId}
    {r : NmqttClientListener} (here : p.statics.started[i]? = some r) (off : r.listen = false) :
    q.statics.started[i]? = some r := by
  obtain ⟨c, c', s', answer, -, invoked, rfl⟩ := step_cases stepped
  exact NmqttClient.invoke_stays invoked here off

theorem run_stays {calls : List Invocation} (run : replay step p calls = some q) {i : ListenerId}
    {r : NmqttClientListener} (here : p.statics.started[i]? = some r) (off : r.listen = false) :
    q.statics.started[i]? = some r :=
  @replay_invariant _ _ _ (fun p => p.statics.started[i]? = some r)
    (fun _ _ _ here stepped => step_stays stepped here off) _ _ _ here run

/-- A shutdown comes back if no socket of its client throws and the entries of the table under other
handles than its own happen to be those from 0 on without a gap. Then it has told every listener of
the process to stop that was registered, whichever client it belongs to; the entries under its own
handles are gone, the others stay in the table, and nothing lets a listener go on. -/
theorem shutdown_silences {count : Nat} {calls more : List Invocation} {l : Invocation}
    {c : NmqttClient} {failing : List SocketId}
    (run : replay step (new count) calls = some p)
    (few : p.statics.listeners.keys.length < 2 ^ 31) (here : p.clients[l.client]? = some c)
    (called : l.call = .shutdown failing) (stepped : p.step l = some q)
    (later : replay step q more = some u) :
    (q.answer.exit = .returned true ↔ ¬c.Fails failing ∧ Contiguous (c.others p.statics)) ∧
      (q.answer.exit = .returned true →
        (∀ handle, q.statics.listeners.lookup handle =
          if handle ∈ c.sockets then none else p.statics.listeners.lookup handle) ∧
        (∀ handle listener, p.statics.listeners.lookup handle = some listener →
          ∃ r, u.statics.started[listener]? = some r ∧ r.nymphSocket = handle ∧ r.listen = false) ∧
        ∀ listener, (∀ handle, p.statics.listeners.lookup handle ≠ some listener) →
          q.statics.started[listener]? = p.statics.started[listener]?) := by
  obtain ⟨⟨routed, -⟩, -⟩ := (routed_new count).run run
  obtain ⟨c₁, c', s', answer, here₁, invoked, rfl⟩ := step_cases stepped
  obtain rfl : c₁ = c := Option.some_inj.mp (here₁.symm.trans here)
  rw [called] at invoked
  have invoked : c₁.shutdown p.statics l.thread failing = some (c', s', answer) := invoked
  constructor
  · obtain ⟨m, t, closed, -, -, walked, ended⟩ := NmqttClient.shutdown_cases invoked
    have came := NmqttClient.shutdown_sockets invoked
    obtain ⟨fails, -, -, rfl⟩ | ⟨unfailing, -, -, ⟨-, -, rfl⟩ | ⟨-, rfl⟩⟩ := ended
    · exact iff_of_false (by intro same; cases same) fun both => both.1 fails
    · obtain ⟨fails, -⟩ | ⟨-, -, back⟩ := came
      · exact absurd fails unfailing
      · refine iff_of_false (by intro same; cases same) fun both => ?_
        have gone : true = false := back.mpr both.2
        cases gone
    · obtain ⟨fails, -⟩ | ⟨-, -, back⟩ := came
      · exact absurd fails unfailing
      · exact iff_of_true rfl ⟨unfailing, back.mp rfl⟩
  · intro came
    obtain ⟨left, silenced⟩ := NmqttClient.shutdown_true invoked came few
    refine ⟨left, ?_, fun listener unlisted => ?_⟩
    · intro handle listener listed
      have entered := routed.listed handle listener listed
      rw [Statics.handles, List.getElem?_map] at entered
      obtain ⟨r, there, same⟩ := Option.map_eq_some_iff.mp entered
      have off := silenced.hit listener ⟨handle, listed⟩
      rw [there, Option.map_some] at off
      exact ⟨_, run_stays later off rfl, same, rfl⟩
    · apply silenced.others listener
      rintro ⟨handle, listed⟩
      exact unlisted handle listed

/-- A client without a connection is shut down, and the listener of the other client ends. -/
theorem shutdown_silences_other :
    let calls : List Invocation := [⟨0, 0, .connect 0 ⟨.opened, .ready, .complete, true⟩⟩]
    ∃ p q, replay step (new 2) calls = some p ∧ p.step ⟨1, 0, .shutdown []⟩ = some q ∧
      (q.clients[0]?.map fun c => c.sockets.lookup 0) = some (some 0) ∧
      ∃ r, q.statics.started[0]? = some r ∧ r.socket = 0 ∧ r.listen = false := by
  intro calls
  obtain ⟨p, q, c, run, few, here, stepped, listed, came, socket, kept⟩ : ∃ p q c,
      replay step (new 2) calls = some p ∧ p.statics.listeners.keys.length < 2 ^ 31 ∧
      p.clients[1]? = some c ∧ p.step ⟨1, 0, .shutdown []⟩ = some q ∧
      p.statics.listeners.lookup 0 = some 0 ∧ q.answer.exit = .returned true ∧
      (q.statics.started[0]?.map (·.socket)) = some 0 ∧
      (q.clients[0]?.map fun c => c.sockets.lookup 0) = some (some 0) :=
    ⟨_, _, _, rfl, by decide, rfl, rfl, by decide, rfl, rfl, by decide⟩
  obtain ⟨-, all⟩ := @shutdown_silences p q q 2 calls [] ⟨1, 0, .shutdown []⟩ c [] run few here rfl
    stepped rfl
  obtain ⟨r, there, -, off⟩ := (all came).2.1 0 0 listed
  rw [there] at socket
  exact ⟨p, q, run, stepped, kept, r, there, Option.some_inj.mp socket, off⟩

end Process
end NymphMqtt.Runtime
