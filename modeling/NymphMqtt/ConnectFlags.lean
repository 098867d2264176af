import NymphMqtt.MessageByteOrder

/-! The flags byte of a CONNECT after any sequence of the calls that set the message up. -/

namespace NymphMqtt

/-- The QoS levels of a will. -/
def WillQoS := { qos : Byte // qos.toNat ≤ 2 }

/-- `createMessage(MQTT_CONNECT)` and the setters of a CONNECT. -/
inductive SetUp where
  | createMessage
  | setWill (topic will : List Byte) (qos : WillQoS) (retain : Bool)
  | setCredentials (user pass : List Byte)
  | setClientId (id : List Byte)

namespace SetUp

def apply (m : NmqttMessage) : SetUp → NmqttMessage
  | .createMessage => (m.createMessage .connect).2
  | .setWill topic will qos retain => m.setWill topic will qos.1 retain
  | .setCredentials user pass => m.setCredentials user pass
  | .setClientId id => m.setClientId id

/-- The message after a sequence that begins with `createMessage`. -/
def message (m : NmqttMessage) (calls : List SetUp) : NmqttMessage :=
  calls.foldl apply (apply m .createMessage)

/-! ### What was called since the last `createMessage` -/

def record (since : List SetUp) : SetUp → List SetUp
  | .createMessage => []
  | call => since ++ [call]

def sinceCreate (calls : List SetUp) : List SetUp := calls.foldl record []

def will : SetUp → Option WillQoS
  | .setWill _ _ qos _ => some qos
  | _ => none

/-- The QoS of each `setWill`, in order. -/
def wills (since : List SetUp) : List WillQoS := since.filterMap will

/-- Some call was `setCredentials`. -/
def Credited (since : List SetUp) : Prop := ∃ user pass, .setCredentials user pass ∈ since

end SetUp

/-! ### The byte -/

/-- Bits 3 and 4. -/
def willQoSField (flags : Byte) : Nat := (flags.extractLsb' 3 2).toNat

/-- The flags that the calls since the last `createMessage` ask for. -/
structure LegalFlags (flags : Byte) (since : List SetUp) : Prop where
  reserved : flags.getLsbD 0 = false
  willQoS : ∀ last ∈ (SetUp.wills since).getLast?, willQoSField flags = last.1.toNat
  valid : willQoSField flags ≠ 3
  idle : flags.getLsbD 2 = false → willQoSField flags = 0 ∧ flags.getLsbD 5 = false
  will : flags.getLsbD 2 = true ↔ SetUp.wills since ≠ []
  username : flags.getLsbD 7 = true ↔ SetUp.Credited since
  password : flags.getLsbD 6 = true ↔ SetUp.Credited since

namespace NmqttMessage

/-- What `serialize` emits behind the protocol name and the protocol level. -/
def emittedFlags (host : Host) (m : NmqttMessage) : Byte :=
  let msgLen := BitVec.ofNat 32 (m.body host).length
  ((m.serialize host).1.drop (1 + (remainingLengthBytes host msgLen).length)).getD 7 0

theorem emittedFlags_eq (host : Host) {m : NmqttMessage} (connect : m.command = .connect) :
    m.emittedFlags host = m.connectFlags := by
  have draft : m.draft host = m.draftConnect host := by
    unfold NmqttMessage.draft
    rw [connect]
  unfold emittedFlags
  dsimp only
  rw [serialize_drop, body, draft, draftConnect, shortBytes_eq, shortBytes_eq]
  rfl

/-- No two flags share a bit, and none of them is the lowest one. -/
theorem flags_bits (clean will willQoS1 willQoS2 retain password username : Bool) :
    let flags := flag clean 0x02 + flag will 0x04 + flag willQoS1 0x08 + flag willQoS2 0x10 +
      flag retain 0x20 + flag password 0x40 + flag username 0x80
    flags.getLsbD 0 = false ∧ flags.getLsbD 2 = will ∧
      willQoSField flags = willQoS1.toNat + 2 * willQoS2.toNat ∧ flags.getLsbD 5 = retain ∧
      flags.getLsbD 6 = password ∧ flags.getLsbD 7 = username := by
  revert clean will willQoS1 willQoS2 retain password username
  decide

end NmqttMessage

/-! ### The members of the message -/

namespace SetUp

/-- What the calls since the last `createMessage` have made of the flags. -/
structure Tracks (m : NmqttMessage) (since : List SetUp) : Prop where
  command : m.command = .connect
  will : m.willFlag = true ↔ wills since ≠ []
  first : m.willQoS1 = true ↔ ∃ qos ∈ wills since, qos.1.toNat = 1
  second : m.willQoS2 = true ↔ ∃ qos ∈ wills since, qos.1.toNat = 2
  retain : m.willRetainFlag = true → wills since ≠ []
  username : m.usernameFlag = true ↔ Credited since
  password : m.passwordFlag = true ↔ Credited since

theorem tracks_created (m : NmqttMessage) : Tracks (apply m .createMessage) [] := by
  have none : ¬Credited [] := fun ⟨_, _, member⟩ => nomatch member
  have empty : ∀ level, ¬∃ qos ∈ wills [], qos.1.toNat = level := fun _ ⟨_, member, _⟩ => nomatch member
  exact {
    command := rfl
    will := iff_of_false Bool.false_ne_true fun some => some rfl
    first := iff_of_false Bool.false_ne_true (empty 1)
    second := iff_of_false Bool.false_ne_true (empty 2)
    retain := nofun
    username := iff_of_false Bool.false_ne_true none
    password := iff_of_false Bool.false_ne_true none }

theorem wills_append (since : List SetUp) (call : SetUp) :
    wills (since ++ [call]) = wills since ++ call.will.toList := by
  rw [wills, List.filterMap_append]
  cases call <;> rfl

theorem credited_append {since : List SetUp} {call : SetUp} :
    Credited (since ++ [call]) ↔ Credited since ∨ ∃ user pass, call = .setCredentials user pass := by
  unfold Credited
  constructor
  · intro ⟨user, pass, member⟩
    rcases List.mem_append.mp member with before | last
    · exact .inl ⟨user, pass, before⟩
    · exact .inr ⟨user, pass, (List.mem_singleton.mp last).symm⟩
  · rintro (⟨user, pass, before⟩ | ⟨user, pass, rfl⟩)
    · exact ⟨user, pass, List.mem_append_left _ before⟩
    · exact ⟨user, pass, List.mem_append_right _ List.mem_cons_self⟩

/-- A setter turns the bit of its own level on and leaves the other one. -/
theorem level_iff {bit : Bool} {level : Nat} {levels : List WillQoS} (qos : WillQoS) (small : level < 256)
    (tracks : bit = true ↔ ∃ w ∈ levels, w.1.toNat = level) :
    (if qos.1 = BitVec.ofNat 8 level then true else bit) = true ↔
      ∃ w ∈ levels ++ [qos], w.1.toNat = level := by
  have same : qos.1 = BitVec.ofNat 8 level ↔ qos.1.toNat = level := by
    rw [← BitVec.toNat_inj, BitVec.toNat_ofNat, Nat.mod_eq_of_lt small]
  simp only [List.mem_append, List.mem_singleton]
  by_cases own : qos.1 = BitVec.ofNat 8 level
  · rw [if_pos own]
    exact iff_of_true rfl ⟨qos, .inr rfl, same.mp own⟩
  · rw [if_neg own, tracks]
    constructor
    · intro ⟨w, member, equal⟩
      exact ⟨w, .inl member, equal⟩
    · rintro ⟨w, before | rfl, equal⟩
      · exact ⟨w, before, equal⟩
      · exact absurd (same.mpr equal) own

/-- A call that sets no will leaves what is known of it. -/
theorem Tracks.keepWill {m m' : NmqttMessage} {since since' : List SetUp} (tracks : Tracks m since)
    (same : wills since' = wills since) (command : m'.command = m.command)
    (flags : (m'.willFlag, m'.willQoS1, m'.willQoS2, m'.willRetainFlag) =
      (m.willFlag, m.willQoS1, m.willQoS2, m.willRetainFlag))
    (username : m'.usernameFlag = true ↔ Credited since')
    (password : m'.passwordFlag = true ↔ Credited since') : Tracks m' since' := by
  simp only [Prod.mk.injEq] at flags
  obtain ⟨will, first, second, retain⟩ := flags
  refine ⟨command.trans tracks.command, ?_, ?_, ?_, ?_, username, password⟩
  · rw [same, will]
    exact tracks.will
  · rw [same, first]
    exact tracks.first
  · rw [same, second]
    exact tracks.second
  · rw [same, retain]
    exact tracks.retain

theorem Tracks.apply {m : NmqttMessage} {since : List SetUp} (tracks : Tracks m since) (call : SetUp) :
    Tracks (SetUp.apply m call) (record since call) := by
  cases call with
  | createMessage => exact tracks_created m
  | setWill topic will qos retain =>
    have grown : wills (since ++ [.setWill topic will qos retain]) = wills since ++ [qos] :=
      wills_append since _
    have some : wills since ++ [qos] ≠ [] := List.append_ne_nil_of_right_ne_nil _ (List.cons_ne_nil _ _)
    have credited : Credited (since ++ [.setWill topic will qos retain]) ↔ Credited since :=
      credited_append.trans (or_iff_left (by rintro ⟨_, _, same⟩; cases same))
    change Tracks _ (since ++ [_])
    refine ⟨tracks.command, ?_, ?_, ?_, ?_, ?_, ?_⟩
    · rw [grown]
      exact iff_of_true rfl some
    · rw [grown]
      exact level_iff qos (by decide) tracks.first
    · rw [grown]
      exact level_iff qos (by decide) tracks.second
    · rw [grown]
      exact fun _ => some
    · exact tracks.username.trans credited.symm
    · exact tracks.password.trans credited.symm
  | setCredentials user pass =>
    have credited : Credited (since ++ [.setCredentials user pass]) :=
      credited_append.mpr (.inr ⟨user, pass, rfl⟩)
    have same : wills (since ++ [.setCredentials user pass]) = wills since :=
      (wills_append since _).trans (List.append_nil _)
    refine tracks.keepWill same rfl rfl ?_ ?_
    · exact iff_of_true rfl credited
    · exact iff_of_true rfl credited
  | setClientId id =>
    have credited : Credited (since ++ [.setClientId id]) ↔ Credited since :=
      credited_append.trans (or_iff_left (by rintro ⟨_, _, same⟩; cases same))
    have same : wills (since ++ [.setClientId id]) = wills since :=
      (wills_append since _).trans (List.append_nil _)
    refine tracks.keepWill same rfl rfl ?_ ?_
    · exact tracks.username.trans credited.symm
    · exact tracks.password.trans credited.symm

theorem tracks_foldl {m : NmqttMessage} {since : List SetUp} (tracks : Tracks m since)
    (calls : List SetUp) : Tracks (calls.foldl apply m) (calls.foldl record since) := by
  induction calls generalizing m since with
  | nil => exact tracks
  | cons call calls ih => exact ih (tracks.apply call)

theorem tracks_message (m : NmqttMessage) (calls : List SetUp) :
    Tracks (message m calls) (sinceCreate calls) :=
  tracks_foldl (tracks_created m) calls

/-! ### Legal flags -/

/-- The two bits tell the last level exactly if no other one was set but 0. -/
theorem level_told_iff {levels : List WillQoS} {willQoS1 willQoS2 : Bool}
    (first : willQoS1 = true ↔ ∃ qos ∈ levels, qos.1.toNat = 1)
    (second : willQoS2 = true ↔ ∃ qos ∈ levels, qos.1.toNat = 2) {last : WillQoS}
    (member : last ∈ levels) :
    willQoS1.toNat + 2 * willQoS2.toNat = last.1.toNat ↔
      ∀ qos ∈ levels, qos.1.toNat = 0 ∨ qos.1.toNat = last.1.toNat := by
  have bound := last.2
  constructor
  · intro told qos other
    have level := qos.2
    obtain zero | one | two : qos.1.toNat = 0 ∨ qos.1.toNat = 1 ∨ qos.1.toNat = 2 := by omega
    · exact .inl zero
    · rw [first.mpr ⟨qos, other, one⟩, Bool.toNat_true] at told
      omega
    · rw [second.mpr ⟨qos, other, two⟩, Bool.toNat_true] at told
      omega
  · intro agree
    have told (level : Nat) (positive : 0 < level) :
        (∃ qos ∈ levels, qos.1.toNat = level) ↔ last.1.toNat = level := by
      constructor
      · intro ⟨qos, other, equal⟩
        have := agree qos other
        omega
      · exact fun equal => ⟨last, member, equal⟩
    rw [told 1 (by decide)] at first
    rw [told 2 (by decide)] at second
    cases willQoS1 <;> cases willQoS2 <;>
      simp only [Bool.false_eq_true, false_iff, true_iff] at first second <;>
      simp only [Bool.toNat_true, Bool.toNat_false] <;> omega

/-- The levels since the last `createMessage` are 0 or the last one. -/
def LevelsAgree (since : List SetUp) : Prop :=
  ∀ last ∈ (wills since).getLast?, ∀ qos ∈ wills since, qos.1.toNat = 0 ∨ qos.1.toNat = last.1.toNat

theorem Tracks.legal_iff {m : NmqttMessage} {since : List SetUp} (tracks : Tracks m since) :
    LegalFlags m.connectFlags since ↔ LevelsAgree since := by
  obtain ⟨reserved, will, willQoS, retain, password, username⟩ := NmqttMessage.flags_bits m.cleanSessionFlag
    m.willFlag m.willQoS1 m.willQoS2 m.willRetainFlag m.passwordFlag m.usernameFlag
  change m.connectFlags.getLsbD 0 = false at reserved
  change m.connectFlags.getLsbD 2 = m.willFlag at will
  change willQoSField m.connectFlags = m.willQoS1.toNat + 2 * m.willQoS2.toNat at willQoS
  change m.connectFlags.getLsbD 5 = m.willRetainFlag at retain
  change m.connectFlags.getLsbD 6 = m.passwordFlag at password
  change m.connectFlags.getLsbD 7 = m.usernameFlag at username
  constructor
  · intro legal last final
    have told := legal.willQoS last final
    rw [willQoS] at told
    exact (level_told_iff tracks.first tracks.second (List.mem_of_getLast? final)).mp told
  · intro agree
    have told : ∀ last ∈ (wills since).getLast?, willQoSField m.connectFlags = last.1.toNat := by
      intro last final
      rw [willQoS]
      exact (level_told_iff tracks.first tracks.second (List.mem_of_getLast? final)).mpr (agree last final)
    have unset (none : wills since = []) : willQoSField m.connectFlags = 0 := by
      have first : m.willQoS1 = false := by
        rw [← Bool.not_eq_true, tracks.first, none]
        exact fun ⟨_, member, _⟩ => nomatch member
      have second : m.willQoS2 = false := by
        rw [← Bool.not_eq_true, tracks.second, none]
        exact fun ⟨_, member, _⟩ => nomatch member
      rw [willQoS, first, second]
      rfl
    refine ⟨reserved, told, ?_, ?_, ?_, ?_, ?_⟩
    · match final : (wills since).getLast? with
      | none =>
        rw [unset (List.getLast?_eq_none_iff.mp final)]
        decide
      | some last =>
        have bound := last.2
        rw [told last final]
        omega
    · rw [will, retain]
      intro idle
      have none : wills since = [] := by
        by_contra some
        rw [tracks.will.mpr some] at idle
        cases idle
      refine ⟨unset none, ?_⟩
      rw [← Bool.not_eq_true]
      exact fun set => tracks.retain set none
    · rw [will]
      exact tracks.will
    · rw [username]
      exact tracks.username
    · rw [password]
      exact tracks.password

/-- Two levels other than 0, or a level 0 behind another one, are told wrong; nothing else is. -/
theorem flags_legal_iff (host : Host) (m : NmqttMessage) (calls : List SetUp) :
    LegalFlags ((message m calls).emittedFlags host) (sinceCreate calls) ↔
      LevelsAgree (sinceCreate calls) := by
  have tracks := tracks_message m calls
  rw [NmqttMessage.emittedFlags_eq host tracks.command]
  exact tracks.legal_iff

/-- A will of QoS 1 and then one of QoS 2: the two bits together say 3. -/
theorem two_wills_flags :
    let calls : List SetUp := [.setWill [] [] ⟨1, by decide⟩ false, .setWill [] [] ⟨2, by decide⟩ false]
    let flags := (message (.new default) calls).emittedFlags (.little true)
    willQoSField flags = 3 ∧ ¬LegalFlags flags (sinceCreate calls) := by
  intro calls flags
  have three : willQoSField flags = 3 := by decide
  exact ⟨three, fun legal => legal.valid three⟩

end SetUp
end NymphMqtt
