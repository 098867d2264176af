import NymphMqtt.ConnectTraces
import NymphMqtt.ListenerStop

/-! The two maps of a client over runs of the process: whether they have the same handles, and
whether the semaphore of a connection that has left them is set. -/

namespace NymphMqtt.Runtime
open NymphMqtt.Library OrderedMap Transition

/-! ### Semaphores -/

namespace Statics

/-- A semaphore that is set stays set. -/
structure Grown (s t : Statics) : Prop where
  count : s.semaphores.length ≤ t.semaphores.length
  set : ∀ semaphore : SemaphoreId, s.semaphores[semaphore]? = some true →
    t.semaphores[semaphore]? = some true

theorem Grown.refl (s : Statics) : Grown s s := ⟨le_rfl, fun _ set => set⟩

theorem Grown.of_eq {s t : Statics} (same : t.semaphores = s.semaphores) : Grown s t := by
  constructor
  · rw [same]
  · intro semaphore set
    rwa [same]

theorem Grown.trans {s t u : Statics} (first : Grown s t) (second : Grown t u) : Grown s u :=
  ⟨first.count.trans second.count, fun semaphore set => second.set semaphore (first.set semaphore set)⟩

theorem grown_setSemaphore (s : Statics) (semaphore : SemaphoreId) :
    Grown s (s.setSemaphore semaphore) := by
  constructor
  · exact (List.length_set ..).ge
  · intro other set
    change (s.semaphores.set semaphore true)[other]? = some true
    by_cases same : semaphore = other
    · subst same
      exact List.getElem?_set_self (List.getElem?_eq_some_iff.mp set).1
    · rwa [List.getElem?_set_ne same]

theorem removeConnection_semaphores (s : Statics) (handle : BitVec 32) :
    (s.removeConnection handle).semaphores = s.semaphores := by
  unfold removeConnection
  split
  next => rfl
  next => rfl

theorem closeAll_semaphores (failing : List SocketId) (s : Statics)
    (listed : List (BitVec 32 × SocketId)) :
    (NmqttClient.closeAll failing s listed).1.semaphores = s.semaphores := by
  induction listed generalizing s with
  | nil => rfl
  | cons entry rest ih =>
    obtain ⟨handle, socket⟩ := entry
    have removed := removeConnection_semaphores s handle
    unfold NmqttClient.closeAll
    split_ifs
    · exact removed
    · exact (ih _).trans removed

theorem stop_semaphores {s t : Statics} (stopped : s.stop = some t) :
    t.semaphores = s.semaphores := by
  unfold stop at stopped
  generalize List.range s.listeners.keys.length = indices at stopped
  induction indices generalizing s with
  | nil =>
    cases stopped
    rfl
  | cons i indices ih =>
    obtain ⟨u, first, rest⟩ := Option.bind_eq_some_iff.mp stopped
    obtain ⟨listener, -, rfl⟩ := Option.map_eq_some_iff.mp first
    have later : t.semaphores = (s.stopListener listener).semaphores := ih rest
    exact later

theorem register_semaphores (c : NmqttClient) (s : Statics) (client data : Nat)
    (start : ListenerStart) :
    ((c.register s client data).addConnection c.lastHandle start).1.semaphores =
      s.semaphores ++ [false] := by
  unfold addConnection
  obtain ⟨ns, known⟩ := NmqttClient.mem_register c s client data
  rw [known]
  cases start <;> rfl

theorem grown_register (c : NmqttClient) (s : Statics) (client data : Nat) (start : ListenerStart) :
    Grown s ((c.register s client data).addConnection c.lastHandle start).1 := by
  have semaphores := register_semaphores c s client data start
  constructor
  · rw [semaphores, List.length_append]
    exact Nat.le_add_right _ _
  · intro semaphore set
    rw [semaphores, List.getElem?_append_left (List.getElem?_eq_some_iff.mp set).1]
    exact set

/-! ### The handles that `shutdown` leaves to the listeners -/

theorem removeConnection_keys (s : Statics) (handle : BitVec 32) :
    (s.removeConnection handle).listeners.keys = s.listeners.keys.filter (· ≠ handle) := by
  unfold removeConnection
  split
  next unknown =>
    have absent : handle ∉ s.listeners.keys := AList.lookup_eq_none.mp unknown
    symm
    rw [List.filter_eq_self]
    intro key member
    simpa using fun same : key = handle => absent (same ▸ member)
  next listener found =>
    change (s.listeners.erase handle).keys = _
    rw [AList.keys_erase, s.listeners.keys_nodup.erase_eq_filter]
    apply List.filter_congr
    intro key _
    rw [Bool.eq_iff_iff, bne_iff_ne, decide_eq_true_eq]

/-- The loop of `shutdown` takes the handles that it walks out of the table. -/
theorem closeAll_keys {failing : List SocketId} {s : Statics} {listed : List (BitVec 32 × SocketId)}
    (closed : (NmqttClient.closeAll failing s listed).2 = true) :
    (NmqttClient.closeAll failing s listed).1.listeners.keys =
      s.listeners.keys.filter fun key => key ∉ listed.map Prod.fst := by
  induction listed generalizing s with
  | nil =>
    change s.listeners.keys = _
    symm
    rw [List.filter_eq_self]
    intro key _
    rfl
  | cons entry rest ih =>
    obtain ⟨handle, socket⟩ := entry
    unfold NmqttClient.closeAll at closed ⊢
    dsimp only at closed ⊢
    by_cases fails : socket ∈ failing
    · rw [if_pos fails] at closed
      cases closed
    · rw [if_neg fails] at closed ⊢
      rw [ih closed, removeConnection_keys, List.filter_filter]
      apply List.filter_congr
      intro key _
      rw [Bool.eq_iff_iff, List.map_cons]
      simp only [Bool.and_eq_true, decide_eq_true_eq, List.mem_cons, not_or]
      exact and_comm

end Statics

/-! ### What a call does to the connections of its client -/

namespace NmqttClient
variable {c c' : NmqttClient} {s s' : Statics} {client thread : Nat} {answer : Answer}

def Paired (c : NmqttClient) : Prop := ∀ handle, handle ∈ c.sockets ↔ handle ∈ c.socketSemaphores

/-- A connection of the client: a socket and the semaphore under the same handle. -/
def Holds (c : NmqttClient) (handle : BitVec 32) (socket : SocketId) (semaphore : SemaphoreId) : Prop :=
  c.sockets.lookup handle = some socket ∧ c.socketSemaphores.lookup handle = some semaphore

/-- The handles of the listeners that are left when the client is shut down. -/
def others (c : NmqttClient) (s : Statics) : List (BitVec 32) :=
  s.listeners.keys.filter fun key => key ∉ c.sockets

theorem mem_handles {key : BitVec 32} :
    key ∈ (inOrder (fun a b => a.toInt ≤ b.toInt) c.sockets).map Prod.fst ↔ key ∈ c.sockets := by
  constructor
  · intro member
    obtain ⟨⟨handle, socket⟩, listed, rfl⟩ := List.mem_map.mp member
    exact mem_of_lookup (mem_inOrder.mp listed)
  · intro present
    obtain ⟨socket, found⟩ := Option.isSome_iff_exists.mp (AList.lookup_isSome.mpr present)
    exact List.mem_map.mpr ⟨(key, socket), mem_inOrder.mpr found, rfl⟩

/-- A socket that throws keeps all of them. Otherwise the map is cleared, and the call comes
back if the listeners that are left have the handles that `stop` expects. -/
theorem shutdown_sockets {failing : List SocketId}
    (called : c.shutdown s thread failing = some (c', s', answer)) :
    c.Fails failing ∧ c'.sockets = c.sockets ∨
      ¬c.Fails failing ∧ c'.sockets = ∅ ∧
        (answer.exit.terminates = false ↔ Contiguous (c.others s)) := by
  obtain ⟨m, t, closed, -, -, walked, ended⟩ := shutdown_cases called
  obtain ⟨fails, rfl, -, -⟩ | ⟨none_fails, rfl, rfl, ended⟩ := ended
  · exact .inl ⟨fails, rfl⟩
  · have keys := @Statics.closeAll_keys failing s
      (inOrder (fun a b => a.toInt ≤ b.toInt) c.sockets) (congrArg Prod.snd walked)
    rw [walked] at keys
    have left : t.listeners.keys = c.others s := by
      refine keys.trans (List.filter_congr fun key _ => ?_)
      rw [decide_eq_decide, mem_handles]
    have came := @Statics.stop_isSome_iff t
    rw [left] at came
    obtain ⟨null, -, rfl⟩ | ⟨stopped, rfl⟩ := ended
    · rw [null] at came
      exact .inr ⟨none_fails, rfl, iff_of_false nofun fun contiguous => nomatch came.mpr contiguous⟩
    · rw [stopped] at came
      exact .inr ⟨none_fails, rfl, iff_of_true rfl (came.mp rfl)⟩

theorem invoke_grown {call : Call} (called : c.invoke s client thread call = some (c', s', answer)) :
    Statics.Grown s s' := by
  cases call with
  | setMessageHandler handler =>
    cases called
    exact .refl s
  | connect data outcome =>
    rw [(connect_spec called).statics]
    split
    · exact Statics.grown_register c s client data outcome.listener
    · exact .refl s
  | disconnect handle sending closing =>
    obtain ⟨-, -, rfl⟩ | ⟨-, semaphore, -, -, -, rfl⟩ := (disconnect_spec called).tables
    · exact .refl _
    · exact (Statics.grown_setSemaphore s semaphore).trans
        (.of_eq (Statics.removeConnection_semaphores _ _))
  | publish handle sending => exact (publish_spec called).1 ▸ .refl s
  | subscribe handle sending => exact (publish_spec called).1 ▸ .refl s
  | unsubscribe handle sending => exact (publish_spec called).1 ▸ .refl s
  | shutdown failing =>
    obtain ⟨t, closed, walked, ended⟩ := (shutdown_spec called).statics
    have closing := Statics.closeAll_semaphores failing s
      (inOrder (fun a b => a.toInt ≤ b.toInt) c.sockets)
    rw [walked] at closing
    obtain rfl | stopped := ended
    · exact .of_eq closing
    · exact .of_eq ((Statics.stop_semaphores stopped).trans closing)

/-- The handles agree, and the semaphores of the client were made. -/
structure Kept (c : NmqttClient) (s : Statics) : Prop where
  paired : c.Paired
  made : ∀ handle semaphore, c.socketSemaphores.lookup handle = some semaphore →
    semaphore < s.semaphores.length

/-- A shutdown that does not throw and comes back finds no connection. -/
def ShutsIdle (c : NmqttClient) (s : Statics) (call : Call) : Prop :=
  ∀ failing, call = .shutdown failing →
    (∀ handle, handle ∉ c.sockets) ∨ c.Fails failing ∨ ¬Contiguous (c.others s)

/-- A connection stays, or its semaphore is set. -/
def Leaves (c : NmqttClient) (c' : NmqttClient) (s' : Statics) : Prop :=
  ∀ handle socket semaphore, c.Holds handle socket semaphore →
    c'.Holds handle socket semaphore ∨ s'.semaphores[semaphore]? = some true

theorem Kept.same (kept : c.Kept s) (sockets : c'.sockets = c.sockets)
    (socketSemaphores : c'.socketSemaphores = c.socketSemaphores) (grown : Statics.Grown s s') :
    c'.Kept s' ∧ c.Leaves c' s' := by
  refine ⟨⟨?_, ?_⟩, ?_⟩
  · rw [Paired, sockets, socketSemaphores]
    exact kept.paired
  · rw [socketSemaphores]
    intro handle semaphore found
    exact (kept.made handle semaphore found).trans_le grown.count
  · intro handle socket semaphore holds
    left
    rw [Holds, sockets, socketSemaphores]
    exact holds

theorem Kept.connect (kept : c.Kept s) {data : Nat} {o : ConnectOutcome}
    (left : c.Connected s client thread data o c' s' answer) : c'.Kept s' ∧ c.Leaves c' s' := by
  have sockets := left.sockets
  have socketSemaphores := left.socketSemaphores
  have statics := left.statics
  cases entered : o.entered with
  | false =>
    rw [entered] at sockets socketSemaphores statics
    subst statics
    exact kept.same sockets socketSemaphores (.refl _)
  | true =>
    rw [entered, if_pos rfl] at sockets socketSemaphores statics
    have semaphores := Statics.register_semaphores c s client data o.listener
    rw [← statics] at semaphores
    refine ⟨⟨?_, ?_⟩, ?_⟩
    · intro handle
      rw [sockets, socketSemaphores, mem_insertNew, mem_insertNew, kept.paired]
    · intro handle semaphore found
      rw [socketSemaphores] at found
      rw [semaphores, List.length_append, List.length_singleton]
      obtain old | ⟨-, -, rfl⟩ := lookup_insertNew_cases found
      · exact Nat.lt_succ_of_lt (kept.made handle semaphore old)
      · exact Nat.lt_succ_self _
    · intro handle socket semaphore holds
      left
      rw [Holds, sockets, socketSemaphores]
      exact ⟨lookup_insertNew_old holds.1, lookup_insertNew_old holds.2⟩

theorem Kept.disconnect (kept : c.Kept s) {handle : BitVec 32} (released : c.Released s handle c' s') :
    c'.Kept s' ∧ c.Leaves c' s' := by
  obtain ⟨sockets, socketSemaphores, rfl⟩ | ⟨-, own, here, sockets, socketSemaphores, rfl⟩ := released
  · exact kept.same sockets socketSemaphores (.refl s')
  have inside := kept.made handle own here
  have set : ((s.setSemaphore own).removeConnection handle).semaphores = s.semaphores.set own true :=
    Statics.removeConnection_semaphores _ _
  refine ⟨⟨?_, ?_⟩, ?_⟩
  · intro other
    rw [sockets, socketSemaphores, AList.mem_erase, AList.mem_erase, kept.paired]
  · intro other semaphore found
    rw [set, List.length_set]
    rw [socketSemaphores] at found
    by_cases same : other = handle
    · rw [same, AList.lookup_erase] at found
      cases found
    · rw [AList.lookup_erase_ne same] at found
      exact kept.made other semaphore found
  · intro other socket semaphore holds
    by_cases same : other = handle
    · right
      subst same
      obtain rfl := Option.some_inj.mp (holds.2.symm.trans here)
      rw [set]
      exact List.getElem?_set_self inside
    · left
      rw [Holds, sockets, socketSemaphores, AList.lookup_erase_ne same, AList.lookup_erase_ne same]
      exact holds

theorem Kept.shutdown (kept : c.Kept s) {failing : List SocketId}
    (idle : c.ShutsIdle s (.shutdown failing))
    (called : c.shutdown s thread failing = some (c', s', answer))
    (back : answer.exit.terminates = false) (grown : Statics.Grown s s') :
    c'.Kept s' ∧ c.Leaves c' s' := by
  have socketSemaphores := (shutdown_spec called).socketSemaphores
  obtain ⟨-, sockets⟩ | ⟨unfailing, sockets, came⟩ := shutdown_sockets called
  · exact kept.same sockets socketSemaphores grown
  have empty : ∀ handle, handle ∉ c.sockets :=
    (idle failing rfl).resolve_right fun either =>
      either.elim unfailing fun gap => gap (came.mp back)
  refine ⟨⟨?_, ?_⟩, ?_⟩
  · intro handle
    rw [sockets, socketSemaphores, ← kept.paired]
    exact iff_of_false (AList.notMem_empty handle) (empty handle)
  · rw [socketSemaphores]
    intro handle semaphore found
    exact (kept.made handle semaphore found).trans_le grown.count
  · intro handle socket semaphore holds
    exact absurd (mem_of_lookup holds.1) (empty handle)

theorem Kept.invoke (kept : c.Kept s) {call : Call} (idle : c.ShutsIdle s call)
    (called : c.invoke s client thread call = some (c', s', answer))
    (back : answer.exit.terminates = false) : c'.Kept s' ∧ c.Leaves c' s' := by
  have grown := invoke_grown called
  cases call with
  | setMessageHandler handler =>
    cases called
    exact kept.same rfl rfl grown
  | connect data outcome => exact kept.connect (connect_spec called)
  | disconnect handle sending closing => exact kept.disconnect (disconnect_spec called).tables
  | publish handle sending =>
    obtain ⟨-, -, m, rfl, -⟩ := publish_spec called
    exact kept.same rfl rfl grown
  | subscribe handle sending =>
    obtain ⟨-, -, m, rfl, -⟩ := publish_spec called
    exact kept.same rfl rfl grown
  | unsubscribe handle sending =>
    obtain ⟨-, -, m, rfl, -⟩ := publish_spec called
    exact kept.same rfl rfl grown
  | shutdown failing => exact kept.shutdown idle called back grown

end NmqttClient

/-! ### Runs -/

namespace Process
variable {p q : Process} {client : ClientId} {calls : List Invocation}

/-- The client's shutdowns that do not throw and come back find no connection of it. -/
def ShutsIdle (client : ClientId) (p : Process) (l : Invocation) (_ : Process) : Prop :=
  l.client = client → ∀ c, p.clients[client]? = some c → c.ShutsIdle p.statics l.call

/-- After each call that comes back the two maps have the same handles, and every connection
that was in them after an earlier call and has left has had its semaphore set. -/
def ReleasesLeavers (client : ClientId) (start : Process) (calls : List Invocation) : Prop :=
  ∀ front back rest p q, calls = front ++ back ++ rest → replay Process.step start front = some p →
    replay Process.step p back = some q → q.answer.exit.terminates = false →
    ∀ c d, p.clients[client]? = some c → q.clients[client]? = some d →
      d.Paired ∧ ∀ handle socket semaphore, c.Holds handle socket semaphore →
        d.sockets.lookup handle ≠ some socket → q.statics.semaphores[semaphore]? = some true

def KeptAt (client : ClientId) (p : Process) : Prop :=
  ∀ c, p.clients[client]? = some c → c.Kept p.statics

theorem step_survived {l : Invocation} (stepped : p.step l = some q) :
    p.answer.exit.terminates = false := by
  by_contra terminated
  rw [Process.step, if_pos (eq_true_of_ne_false terminated)] at stepped
  cases stepped

theorem replay_survived (run : replay Process.step p calls = some q)
    (back : q.answer.exit.terminates = false) : p.answer.exit.terminates = false := by
  cases calls with
  | nil =>
    cases run
    exact back
  | cons l calls =>
    obtain ⟨_, stepped, -⟩ := Option.bind_eq_some_iff.mp run
    exact step_survived stepped

/-- What happens to the connections of a client between two states. -/
structure Between (client : ClientId) (p q : Process) : Prop where
  grown : Statics.Grown p.statics q.statics
  leaves : ∀ c, p.clients[client]? = some c →
    ∃ d, q.clients[client]? = some d ∧ c.Leaves d q.statics

theorem Between.refl (client : ClientId) (p : Process) : Between client p p :=
  ⟨.refl p.statics, fun c here => ⟨c, here, fun _ _ _ holds => .inl holds⟩⟩

theorem Between.trans {r : Process} (first : Between client p q) (second : Between client q r) :
    Between client p r := by
  refine ⟨first.grown.trans second.grown, ?_⟩
  intro c here
  obtain ⟨d, there, left⟩ := first.leaves c here
  obtain ⟨e, last, left'⟩ := second.leaves d there
  refine ⟨e, last, fun handle socket semaphore holds => ?_⟩
  rcases left handle socket semaphore holds with still | set
  · exact left' handle socket semaphore still
  · exact .inr (second.grown.set semaphore set)

theorem KeptAt.step {l : Invocation} (kept : KeptAt client p) (idle : p.ShutsIdle client l q)
    (stepped : p.step l = some q) (back : q.answer.exit.terminates = false) :
    KeptAt client q ∧ Between client p q := by
  obtain ⟨c, c', s', answer, here, invoked, rfl⟩ := step_cases stepped
  have grown := NmqttClient.invoke_grown invoked
  by_cases same : l.client = client
  · subst same
    obtain ⟨kept', leaves⟩ := (kept c here).invoke (idle rfl c here) invoked back
    have here' : (p.clients.set l.client c')[l.client]? = some c' :=
      List.getElem?_set_self (List.getElem?_eq_some_iff.mp here).1
    refine ⟨?_, grown, ?_⟩
    · intro d there
      obtain rfl := Option.some_inj.mp (here'.symm.trans there)
      exact kept'
    · intro d there
      obtain rfl := Option.some_inj.mp (here.symm.trans there)
      exact ⟨c', here', leaves⟩
  · have other : (p.clients.set l.client c')[client]? = p.clients[client]? :=
      List.getElem?_set_ne same
    refine ⟨?_, grown, ?_⟩
    · intro d there
      exact ((kept d (other.symm.trans there)).same rfl rfl grown).1
    · intro d there
      exact ⟨d, other.trans there, fun _ _ _ holds => .inl holds⟩

theorem KeptAt.run (kept : KeptAt client p) (idle : Along Process.step (ShutsIdle client) p calls)
    (run : replay Process.step p calls = some q) (back : q.answer.exit.terminates = false) :
    KeptAt client q ∧ Between client p q := by
  induction calls generalizing p with
  | nil =>
    cases run
    exact ⟨kept, .refl client _⟩
  | cons l calls ih =>
    obtain ⟨r, stepped, rest⟩ := Option.bind_eq_some_iff.mp run
    obtain ⟨first, later⟩ := idle r stepped
    obtain ⟨kept', between⟩ := kept.step first stepped (replay_survived rest back)
    obtain ⟨kept'', between'⟩ := ih kept' later rest
    exact ⟨kept'', between.trans between'⟩

theorem keptAt_new (client : ClientId) (count : Nat) : KeptAt client (new count) := by
  intro c here
  have fresh : c = .new := List.eq_of_mem_replicate (List.mem_of_getElem? here)
  subst fresh
  exact ⟨fun _ => Iff.rfl, nofun⟩

/-- A shutdown that clears the sockets of a client leaves their semaphores. -/
theorem cleared_unpaired {l : Invocation} {c d : NmqttClient} {failing : List SocketId}
    {handle : BitVec 32} (stepped : p.step l = some q) (here : p.clients[l.client]? = some c)
    (there : q.clients[l.client]? = some d) (called : l.call = .shutdown failing)
    (unfailing : ¬c.Fails failing) (paired : c.Paired) (present : handle ∈ c.sockets) :
    (q.answer.exit.terminates = false ↔ Contiguous (c.others p.statics)) ∧ ¬d.Paired := by
  obtain ⟨c₁, c', s', answer, here₁, invoked, rfl⟩ := step_cases stepped
  obtain rfl : c₁ = c := Option.some_inj.mp (here₁.symm.trans here)
  have here' : (p.clients.set l.client c')[l.client]? = some c' :=
    List.getElem?_set_self (List.getElem?_eq_some_iff.mp here).1
  obtain rfl : c' = d := Option.some_inj.mp (here'.symm.trans there)
  rw [called] at invoked
  have socketSemaphores := (NmqttClient.shutdown_spec invoked).socketSemaphores
  obtain ⟨fails, -⟩ | ⟨-, sockets, came⟩ := NmqttClient.shutdown_sockets invoked
  · exact absurd fails unfailing
  refine ⟨came, fun paired' => ?_⟩
  have kept : handle ∈ c'.socketSemaphores := by
    rw [socketSemaphores]
    exact (paired handle).mp present
  have gone := (paired' handle).mpr kept
  rw [sockets] at gone
  exact AList.notMem_empty handle gone

/-- The maps agree and the semaphores of closed connections are set, whatever a client and the
others call, exactly if no shutdown of it that clears its sockets finds one. -/
theorem connections_released_iff (client : ClientId) (count : Nat) (calls : List Invocation) :
    ReleasesLeavers client (new count) calls ↔
      Along Process.step (ShutsIdle client) (new count) calls := by
  constructor
  · intro releases
    rw [along_iff]
    intro front l rest same p q reached stepped own c here failing called
    subst own
    by_contra either
    rw [not_or, not_or, not_forall, not_not] at either
    obtain ⟨⟨handle, present⟩, unfailing, contiguous⟩ := either
    rw [not_not] at present
    have split : calls = front ++ [] ++ (l :: rest) := by rw [List.append_nil, same]
    have split' : calls = front ++ [l] ++ rest := by
      rw [same, List.append_assoc, List.singleton_append]
    have paired := (releases front [] (l :: rest) p p split reached rfl (step_survived stepped) c c here
      here).1
    obtain ⟨c₁, c', s', answer, here₁, -, moved⟩ := step_cases stepped
    have there : q.clients[l.client]? = some c' := by
      rw [moved]
      exact List.getElem?_set_self (List.getElem?_eq_some_iff.mp here).1
    obtain ⟨came, unpaired⟩ := cleared_unpaired stepped here there called unfailing paired present
    have once : replay Process.step p [l] = some q := by
      rw [replay, stepped]
      rfl
    exact unpaired (releases front [l] rest p q split' reached once (came.mpr contiguous) c c' here
      there).1
  · intro idle front back rest p q same reached run came c d here there
    have idle' := along_iff.mp idle
    have before : Along Process.step (ShutsIdle client) (new count) front := by
      rw [along_iff]
      intro front' l back' split
      apply idle' front' l (back' ++ back ++ rest)
      rw [same, split]
      simp only [List.append_assoc, List.cons_append]
    have after : Along Process.step (ShutsIdle client) p back := by
      rw [along_iff]
      intro front' l back' split t u reached' stepped
      apply idle' (front ++ front') l (back' ++ rest) _ t u _ stepped
      · rw [same, split]
        simp only [List.append_assoc, List.cons_append]
      · rw [replay_append, reached]
        exact reached'
    obtain ⟨kept, -⟩ := (keptAt_new client count).run before reached (replay_survived run came)
    obtain ⟨kept', between⟩ := kept.run after run came
    refine ⟨(kept' d there).paired, ?_⟩
    intro handle socket semaphore holds left
    obtain ⟨d', there', leaves⟩ := between.leaves c here
    obtain rfl := Option.some_inj.mp (there.symm.trans there')
    rcases leaves handle socket semaphore holds with still | set
    · exact absurd still.1 left
    · exact set

/-- A client that is shut down with a connection open: its semaphore stays in the map and is
never set, so that the listener waits for ever. -/
theorem shutdown_unreleased :
    let calls : List Invocation :=
      [⟨0, 0, .connect 0 ⟨.opened, .ready, .complete, true⟩⟩, ⟨0, 0, .shutdown []⟩]
    (∃ p, replay Process.step (new 1) calls = some p ∧ p.answer.exit = .returned true ∧
      p.statics.semaphores = [false] ∧
      ∃ c, p.clients = [c] ∧ 0 ∉ c.sockets ∧ 0 ∈ c.socketSemaphores) ∧
    ¬ReleasesLeavers 0 (new 1) calls := by
  intro calls
  refine ⟨⟨_, rfl, rfl, rfl, _, rfl, by decide, by decide⟩, fun releases => ?_⟩
  have paired := (releases calls [] [] _ _ rfl rfl rfl rfl _ _ rfl rfl).1 0
  revert paired
  decide

end Process
end NymphMqtt.Runtime
