import NymphMqtt.MessageParse

/-! What `parseMessage` makes of a byte string, read off the bytes alone: it accepts,
it rejects, or it runs past the end and throws. The verdict does not depend on the
message object (its protocol version apart) nor on the memory behind the string. -/

namespace NymphMqtt
open NymphMqtt.Library NymphMqtt.Library.LoggedReader

inductive Verdict where
  | accept
  | reject
  | overrun
  deriving DecidableEq, Repr

def Verdict.exit : Verdict → ParseExit
  | .accept => .returned 1
  | .reject => .returned (-1)
  | .overrun => .outOfRange

namespace Verdict

/-- What the parser decodes from the second byte: byte count and remaining length. -/
def packedLength (host : Host) (bytes : List Byte) : Nat × BitVec 32 :=
  ByteBauble.readPackedInt (host.widenChar 32 (bytes.getD 1 0))

/-- Where the variable header starts for the parser. -/
def bodyStart (host : Host) (bytes : List Byte) : Nat := (packedLength host bytes).1 + 1

/-- The length check of the fixed header. -/
def WellSized (host : Host) (bytes : List Byte) : Prop :=
  2 ≤ bytes.length ∧ (BitVec.ofNat 32 (bodyStart host bytes) +
    (packedLength host bytes).2).toNat = bytes.length

instance (host : Host) (bytes : List Byte) : Decidable (WellSized host bytes) :=
  inferInstanceAs (Decidable (_ ∧ _))

/-- Walk over `count` strings of a CONNECT payload, each with its two-byte prefix inside;
the index after the last one, which may lie beyond the end. -/
def skipStrings (host : Host) (bytes : List Byte) : (count idx : Nat) → Option Nat
  | 0, idx => some idx
  | count + 1, idx =>
      if idx + 2 ≤ bytes.length then
        skipStrings host bytes count (idx + 2 + (host.widenChar 16 (bytes.getD idx 0)).toNat)
      else none

/-- How many strings the connect flags announce. -/
def stringCount (flags : Byte) : Nat :=
  1 + ((if flags.getLsbD 2 then 2 else 0) + ((if flags.getLsbD 7 then 1 else 0) +
    (if flags.getLsbD 6 then 1 else 0)))

def connect (host : Host) (bytes : List Byte) (idx : Nat) : Verdict :=
  if (bytes.drop idx).take 6 ≠ NmqttMessage.protMatch then .reject
  else if bytes.getD (idx + 6) 0 ≠ 4 ∧ bytes.getD (idx + 6) 0 ≠ 5 then .reject
  else if (bytes.getD (idx + 7) 0).getLsbD 0 then .reject
  else if (skipStrings host bytes (stringCount (bytes.getD (idx + 7) 0)) (idx + 10)).isSome then
    .accept
  else .overrun

/-- Big-endian length of the string whose prefix stands at `idx`. -/
def topicLength (bytes : List Byte) (idx : Nat) : Nat :=
  (bytes.getD idx 0 ++ bytes.getD (idx + 1) 0 : BitVec 16).toNat

/-- Where the payload of a PUBLISH starts for the parser. -/
def payloadStart (bytes : List Byte) (version : MqttProtocolVersion) (idx : Nat) : Nat :=
  idx + 2 + topicLength bytes idx +
    (if 0 < NmqttMessage.qosCnt (bytes.getD 0 0) then 2 else 0) +
    (if version = .version5 then 1 else 0)

def publish (bytes : List Byte) (version : MqttProtocolVersion) (idx : Nat) : Verdict :=
  if idx + 2 ≤ bytes.length ∧ payloadStart bytes version idx ≤ bytes.length then .accept
  else .overrun

def of (host : Host) (version : MqttProtocolVersion) (bytes : List Byte) : Verdict :=
  if WellSized host bytes then
    match MqttPacketType.ofByte0 (bytes.getD 0 0) with
    | .connect => connect host bytes (bodyStart host bytes)
    | .publish => publish bytes version (bodyStart host bytes)
    | _ => .accept
  else .reject

/-! ### The length check -/

theorem packedLength_bounds (host : Host) (bytes : List Byte) :
    (packedLength host bytes).1 ≤ 5 ∧ (packedLength host bytes).2.toNat < 2 ^ 28 := by
  have h := Base128.scan_bounds _ (Base256.bytesOf_lt 4 (host.widenChar 32 (bytes.getD 1 0)).toNat)
  rw [Base256.bytesOf_length] at h
  unfold packedLength
  rw [ByteBauble.readPackedInt_count, ByteBauble.readPackedInt_output]
  exact ⟨h.1, by simpa using h.2⟩

/-- The 32-bit sum of the length check does not wrap. -/
theorem wellSized_iff (host : Host) (bytes : List Byte) :
    WellSized host bytes ↔ 2 ≤ bytes.length ∧
      bodyStart host bytes + (packedLength host bytes).2.toNat = bytes.length := by
  obtain ⟨count, value⟩ := packedLength_bounds host bytes
  unfold WellSized bodyStart
  rw [BitVec.toNat_add, BitVec.toNat_ofNat]
  have : ((packedLength host bytes).1 + 1) % 2 ^ 32 = (packedLength host bytes).1 + 1 := by omega
  rw [this, Nat.mod_eq_of_lt (by omega)]

theorem bodyStart_le {host : Host} {bytes : List Byte} (sized : WellSized host bytes) :
    bodyStart host bytes ≤ bytes.length := by
  have := ((wellSized_iff host bytes).mp sized).2
  omega

theorem packedLength_small (host : Host) (bytes : List Byte) (small : (bytes.getD 1 0).toNat < 128) :
    (packedLength host bytes).1 = 1 ∧
      (packedLength host bytes).2.toNat = (bytes.getD 1 0).toNat := by
  unfold packedLength
  rw [ByteBauble.readPackedInt_count, ByteBauble.readPackedInt_output, Host.widenChar_toNat,
    if_neg (fun h => by omega)]
  simp only [Base256.bytesOf, Base128.scan]
  rw [if_pos (by omega)]
  refine ⟨rfl, ?_⟩
  simp only
  omega

/-- A marked second byte is followed by the sign of the `char`: three more marked bytes,
or a zero. -/
theorem packedLength_marked (host : Host) (bytes : List Byte)
    (marked : 128 ≤ (bytes.getD 1 0).toNat) :
    (packedLength host bytes).1 + (packedLength host bytes).2.toNat =
      (if host.charSigned then 268435333 else 2) + (bytes.getD 1 0).toNat % 128 := by
  have byte := (bytes.getD 1 0).isLt
  unfold packedLength
  rw [ByteBauble.readPackedInt_count, ByteBauble.readPackedInt_output, Host.widenChar_toNat]
  generalize (bytes.getD 1 0).toNat = c at marked byte ⊢
  cases host.charSigned with
  | false =>
    rw [if_neg (by simp)]
    have low : c % 256 = c := by omega
    have high : c / 256 = 0 := by omega
    simp [Base256.bytesOf, Base128.scan, low, high, show ¬c < 128 by omega]
  | true =>
    rw [if_pos ⟨rfl, marked⟩]
    have low : (4294967040 + c) % 256 = c := by omega
    have high : (4294967040 + c) / 256 = 16777215 := by omega
    simp [Base256.bytesOf, Base128.scan, low, high, show ¬c < 128 by omega]
    omega

theorem wellSized_small (host : Host) (bytes : List Byte)
    (small : (bytes.getD 1 0).toNat < 128) :
    WellSized host bytes ↔ bytes.length = 2 + (bytes.getD 1 0).toNat := by
  obtain ⟨count, value⟩ := packedLength_small host bytes small
  rw [wellSized_iff, bodyStart, count, value]
  omega

theorem wellSized_marked (host : Host) (bytes : List Byte)
    (marked : 128 ≤ (bytes.getD 1 0).toNat) :
    WellSized host bytes ↔
      bytes.length = (if host.charSigned then 268435334 else 3) + (bytes.getD 1 0).toNat % 128 := by
  have sum := packedLength_marked host bytes marked
  rw [wellSized_iff, bodyStart]
  by_cases signed : host.charSigned = true
  · rw [if_pos signed] at sum ⊢
    omega
  · rw [if_neg signed] at sum ⊢
    omega

end Verdict

/-! ### The CONNECT payload -/

theorem Buffer.byteAt_eq (b : Buffer) {i : Nat} (inside : i ≤ b.size) :
    b.byteAt i = b.bytes.getD i 0 := by
  unfold Buffer.byteAt
  by_cases last : i = b.size
  · rw [if_pos last]
  · have below : i < b.bytes.length := Nat.lt_of_le_of_ne inside last
    simp [List.getD_eq_getElem?_getD, below]

theorem Buffer.readString_run (b : Buffer) (idx : Nat)
    (store : List Byte → NmqttMessage → NmqttMessage) (m : NmqttMessage) :
    b.readString idx store m = if idx + 2 ≤ b.size then
      ⟨.ok (idx + 2 + (b.host.widenChar 16 (b.bytes.getD idx 0)).toNat),
        store ((b.bytes.drop (idx + 2)).take
          (b.host.widenChar 16 (b.bytes.getD idx 0)).toNat) m, [idx]⟩
      else ⟨.error .outOfRange, m, [idx]⟩ := by
  unfold Buffer.readString Buffer.charAt Buffer.substr
  by_cases fits : idx + 2 ≤ b.size
  · rw [if_pos fits, ← b.byteAt_eq (by omega)]
    simp only [if_pos fits, read_bind_run, pure_bind_run, update_bind_run, pure_run, List.append_nil]
  · simp only [if_neg fits, read_bind_run, exit_bind_run, List.append_nil]

theorem Verdict.skipStrings_add (host : Host) (bytes : List Byte) (m n idx : Nat) :
    skipStrings host bytes (m + n) idx =
      (skipStrings host bytes m idx).bind (skipStrings host bytes n) := by
  induction m generalizing idx with
  | zero => simp [skipStrings]
  | succ m ih =>
    rw [Nat.succ_add]
    simp only [skipStrings]
    split
    · exact ih _
    · rfl

/-- The flags that announce the optional strings. -/
def NmqttMessage.announced (m : NmqttMessage) : Bool × Bool × Bool :=
  (m.willFlag, m.usernameFlag, m.passwordFlag)

/-- A step of the CONNECT payload that moves over `count` strings: either all of them
start inside and nothing outside was read, or the step throws. -/
def StepsOver (b : Buffer) (count idx : Nat) (s : NmqttMessage)
    (o : Outcome ParseExit NmqttMessage Nat) : Prop :=
  o.state.announced = s.announced ∧
    match Verdict.skipStrings b.host b.bytes count idx with
    | some next => o.result = .ok next ∧ ∀ i ∈ o.reads, i < b.size
    | none => o.result = .error .outOfRange

namespace StepsOver

theorem stay (b : Buffer) (idx : Nat) (s : NmqttMessage) :
    StepsOver b 0 idx s ((pure idx : ParseM Nat) s) := by
  simp [StepsOver, Verdict.skipStrings]

theorem string (b : Buffer) (idx : Nat) (s : NmqttMessage)
    (store : List Byte → NmqttMessage → NmqttMessage)
    (frame : ∀ text m, (store text m).announced = m.announced) :
    StepsOver b 1 idx s (b.readString idx store s) := by
  rw [b.readString_run, StepsOver]
  simp only [Verdict.skipStrings]
  by_cases fits : idx + 2 ≤ b.bytes.length
  · have inside : idx < b.size := by unfold Buffer.size; omega
    rw [if_pos (show idx + 2 ≤ b.size from fits), if_pos fits]
    exact ⟨frame _ s, rfl, fun i hi => by rw [List.mem_singleton.mp hi]; exact inside⟩
  · rw [if_neg (show ¬idx + 2 ≤ b.size from fits), if_neg fits]
    exact ⟨rfl, rfl⟩

/-- Steps compose, and their counts add up. -/
theorem bind {b : Buffer} {m n idx : Nat} {x : ParseM Nat} {f : Nat → ParseM Nat}
    {s : NmqttMessage} (first : StepsOver b m idx s (x s))
    (second : ∀ next t, t.announced = s.announced → StepsOver b n next t (f next t)) :
    StepsOver b (m + n) idx s ((x >>= f) s) := by
  obtain ⟨frame, outcome⟩ := first
  rw [StepsOver, Verdict.skipStrings_add]
  cases walked : Verdict.skipStrings b.host b.bytes m idx with
  | none =>
    simp only [walked] at outcome
    rw [bind_error x f s outcome]
    exact ⟨frame, rfl⟩
  | some next =>
    simp only [walked] at outcome
    obtain ⟨frame', outcome'⟩ := second next (x s).state frame
    rw [bind_ok x f s outcome.1, Option.bind_some]
    refine ⟨frame'.trans frame, ?_⟩
    cases walked' : Verdict.skipStrings b.host b.bytes n next with
    | none => simpa only [walked'] using outcome'
    | some last =>
      simp only [walked'] at outcome' ⊢
      refine ⟨outcome'.1, fun i hi => ?_⟩
      exact (List.mem_append.mp hi).elim (outcome.2 i) (outcome'.2 i)

end StepsOver

namespace NmqttMessage

theorem parseWill_steps (b : Buffer) (idx : Nat) (s : NmqttMessage) :
    StepsOver b (if s.willFlag then 2 else 0) idx s (parseWill b idx s) := by
  unfold parseWill
  rw [get_bind_run]
  by_cases flag : s.willFlag = true
  · simp only [if_pos flag]
    exact StepsOver.bind (m := 1) (n := 1) (StepsOver.string b idx s _ (fun _ _ => rfl))
      (fun next t _ => StepsOver.string b next t _ (fun _ _ => rfl))
  · simp only [if_neg flag]
    exact StepsOver.stay b idx s

theorem parseUsername_steps (b : Buffer) (idx : Nat) (s : NmqttMessage) :
    StepsOver b (if s.usernameFlag then 1 else 0) idx s (parseUsername b idx s) := by
  unfold parseUsername
  rw [get_bind_run]
  by_cases flag : s.usernameFlag = true
  · simp only [if_pos flag]
    exact StepsOver.string b idx s _ (fun _ _ => rfl)
  · simp only [if_neg flag]
    exact StepsOver.stay b idx s

theorem parsePassword_steps (b : Buffer) (idx : Nat) (s : NmqttMessage) :
    StepsOver b (if s.passwordFlag then 1 else 0) idx s (parsePassword b idx s) := by
  unfold parsePassword
  rw [get_bind_run]
  by_cases flag : s.passwordFlag = true
  · simp only [if_pos flag]
    exact StepsOver.string b idx s _ (fun _ _ => rfl)
  · simp only [if_neg flag]
    exact StepsOver.stay b idx s

theorem parseConnectPayload_steps (b : Buffer) (idx : Nat) (s : NmqttMessage) :
    StepsOver b (1 + ((if s.willFlag then 2 else 0) + ((if s.usernameFlag then 1 else 0) +
      (if s.passwordFlag then 1 else 0)))) idx s (parseConnectPayload b idx s) := by
  unfold parseConnectPayload
  refine StepsOver.bind (StepsOver.string b idx s _ (fun _ _ => rfl)) (fun i₁ t₁ same₁ => ?_)
  simp only [announced, Prod.mk.injEq] at same₁
  rw [← same₁.1, ← same₁.2.1, ← same₁.2.2]
  apply StepsOver.bind (parseWill_steps b i₁ t₁)
  intro i₂ t₂ same₂
  simp only [announced, Prod.mk.injEq] at same₂
  rw [← same₂.2.1, ← same₂.2.2]
  apply StepsOver.bind (parseUsername_steps b i₂ t₂)
  intro i₃ t₃ same₃
  simp only [announced, Prod.mk.injEq] at same₃
  rw [← same₃.2.2]
  exact parsePassword_steps b i₃ t₃

end NmqttMessage

/-! ### The CONNECT branch -/

theorem Buffer.nameInside {b : Buffer} {idx : Nat}
    (name : (b.bytes.drop idx).take 6 = NmqttMessage.protMatch) : idx + 6 ≤ b.size := by
  have := congrArg List.length name
  simp only [List.length_take, List.length_drop, NmqttMessage.protMatch, List.length_cons,
    List.length_nil] at this
  unfold Buffer.size
  omega

theorem getD_inside {bytes : List Byte} {i : Nat} (set : bytes.getD i 0 ≠ 0) : i < bytes.length := by
  by_contra outside
  exact set (by simp [List.getD_eq_getElem?_getD, List.getElem?_eq_none (not_lt.mp outside)])

/-- The result of a branch of the parser under a verdict. -/
def Verdict.result : Verdict → Except ParseExit Unit
  | .accept => .ok ()
  | .reject => .error (.returned (-1))
  | .overrun => .error .outOfRange

namespace NmqttMessage

/-- The two protocol levels the parser lets pass. -/
def KnownLevel (protver : Byte) : Prop := protver = 4 ∨ protver = 5

theorem checkProtocolLevel_known {protver : Byte} (known : KnownLevel protver) (s : NmqttMessage) :
    ∃ t, checkProtocolLevel protver s = ⟨.ok (), t, []⟩ := by
  unfold checkProtocolLevel
  by_cases four : protver = 4
  · rw [if_pos four]; exact ⟨_, rfl⟩
  · rw [if_neg four, if_pos (known.resolve_left four)]; exact ⟨_, rfl⟩

theorem checkProtocolLevel_unknown {protver : Byte} (unknown : ¬KnownLevel protver) :
    checkProtocolLevel protver = reject := by
  unfold KnownLevel at unknown
  push Not at unknown
  rw [checkProtocolLevel, if_neg unknown.1, if_neg unknown.2]

section ConnectHeader
variable (b : Buffer) (idx : Nat) (s : NmqttMessage)

/-- A wrong protocol name stops the parser before it reads a byte by index. -/
theorem parseConnectHeader_name (within : idx ≤ b.size)
    (name : (b.bytes.drop idx).take 6 ≠ protMatch) :
    parseConnectHeader b idx s = ⟨.error (.returned (-1)), s, []⟩ := by
  simp only [parseConnectHeader, Buffer.substr, reject, if_pos within, pure_bind_run, if_pos name,
    exit_bind_run]

theorem parseConnectHeader_level (name : (b.bytes.drop idx).take 6 = protMatch)
    (unknown : ¬KnownLevel (b.byteAt (idx + 6))) :
    parseConnectHeader b idx s = ⟨.error (.returned (-1)), s, [idx + 6]⟩ := by
  have within : idx ≤ b.size := by have := b.nameInside name; omega
  simp only [parseConnectHeader, Buffer.substr, Buffer.charAt, reject, if_pos within, pure_bind_run,
    name, ne_eq, not_true_eq_false, if_false, read_bind_run, checkProtocolLevel_unknown unknown,
    exit_bind_run, List.append_nil]

/-- Past the protocol level the flags decide between a rejection and the payload. -/
theorem parseConnectHeader_flags (name : (b.bytes.drop idx).take 6 = protMatch)
    (known : KnownLevel (b.byteAt (idx + 6))) :
    ∃ t : NmqttMessage, t.announced = (s.withConnectFlags (b.byteAt (idx + 7))).announced ∧
      parseConnectHeader b idx s = if (b.byteAt (idx + 7)).getLsbD 0 then
        ⟨.error (.returned (-1)), t, [idx + 6, idx + 7]⟩
      else ⟨.ok (idx + 10), t, [idx + 6, idx + 7, idx + 8]⟩ := by
  have within : idx ≤ b.size := by have := b.nameInside name; omega
  obtain ⟨t, level⟩ := checkProtocolLevel_known known s
  have run : ∀ (f : Unit → ParseM Nat), (checkProtocolLevel (b.byteAt (idx + 6)) >>= f) s =
      ⟨(f () t).result, (f () t).state, (f () t).reads⟩ := fun f => by
    rw [bind_run _ f s level]; rfl
  simp only [parseConnectHeader, Buffer.substr, Buffer.charAt, reject, if_pos within, pure_bind_run,
    name, ne_eq, not_true_eq_false, if_false, read_bind_run, run, update_bind_run]
  by_cases reserved : (b.byteAt (idx + 7)).getLsbD 0 = true
  · simp only [if_pos reserved, exit_bind_run]
    exact ⟨t.withConnectFlags (b.byteAt (idx + 7)), rfl, rfl⟩
  · simp only [if_neg reserved, read_bind_run, update_bind_run, pure_run]
    refine ⟨_, ?_, rfl⟩
    rfl

end ConnectHeader

/-- With the name in place, the string goes on behind it unless it is the bare name. -/
theorem bare_iff {b : Buffer} {idx : Nat} (name : (b.bytes.drop idx).take 6 = protMatch) :
    b.bytes.drop idx = protMatch ↔ b.size = idx + 6 := by
  have inside := b.nameInside name
  constructor
  · intro bare
    have := congrArg List.length bare
    simp only [List.length_drop, protMatch, List.length_cons, List.length_nil] at this
    unfold Buffer.size at inside ⊢
    omega
  · intro last
    rw [← name, List.take_of_length_le]
    simp only [List.length_drop]
    unfold Buffer.size at last
    omega

/-- Behind a known protocol level: the flags, and then as many strings as they announce. -/
theorem parseConnect_known (b : Buffer) (idx : Nat) (s : NmqttMessage)
    (name : (b.bytes.drop idx).take 6 = protMatch) (known : KnownLevel (b.bytes.getD (idx + 6) 0)) :
    (parseConnect b idx s).result = (Verdict.connect b.host b.bytes idx).result ∧
    (Verdict.connect b.host b.bytes idx ≠ .overrun →
      ∀ i ∈ (parseConnect b idx s).reads, i < b.size) := by
  -- a known level is not the terminator, so the flags stand inside or are the terminator
  have levelInside : idx + 6 < b.size := getD_inside (by
    rcases known with h | h <;> rw [h] <;> decide)
  have level : b.byteAt (idx + 6) = b.bytes.getD (idx + 6) 0 := b.byteAt_eq (by omega)
  have flags : b.byteAt (idx + 7) = b.bytes.getD (idx + 7) 0 := b.byteAt_eq (by omega)
  obtain ⟨t, same, run⟩ := parseConnectHeader_flags b idx s name (by rwa [level])
  rw [flags] at run same
  unfold parseConnect Verdict.connect
  rw [if_neg (not_not.mpr name), if_neg (by rintro ⟨h, h'⟩; exact known.elim h h')]
  by_cases reserved : (b.bytes.getD (idx + 7) 0).getLsbD 0 = true
  · have flagsInside : idx + 7 < b.size := getD_inside (fun h => by
      rw [h] at reserved; exact absurd reserved (by decide))
    rw [if_pos reserved] at run
    rw [if_pos reserved, bind_exit _ _ s run]
    refine ⟨rfl, fun _ i hi => ?_⟩
    simp only [List.mem_cons, List.not_mem_nil, or_false] at hi
    rcases hi with rfl | rfl <;> omega
  · rw [if_neg reserved] at run
    rw [if_neg reserved, bind_run _ _ s run]
    simp only [announced, withConnectFlags, Prod.mk.injEq] at same
    obtain ⟨-, payload⟩ := parseConnectPayload_steps b (idx + 10) t
    rw [same.1, same.2.1, same.2.2, ← Verdict.stringCount] at payload
    cases walked : Verdict.skipStrings b.host b.bytes
        (Verdict.stringCount (b.bytes.getD (idx + 7) 0)) (idx + 10) with
    | none =>
      simp only [walked] at payload
      simp only [bind_error _ _ t payload]
      exact ⟨rfl, fun h => absurd rfl h⟩
    | some next =>
      have first : idx + 12 ≤ b.size := by
        rw [Verdict.stringCount, Nat.add_comm, Verdict.skipStrings] at walked
        unfold Buffer.size
        by_contra short
        rw [if_neg short] at walked
        cases walked
      simp only [walked] at payload
      simp only [bind_ok _ _ t payload.1]
      refine ⟨rfl, fun _ i hi => ?_⟩
      simp only [pure_run, List.append_nil, List.mem_append, List.mem_cons, List.not_mem_nil,
        or_false] at hi
      rcases hi with (rfl | rfl | rfl) | later
      · omega
      · omega
      · omega
      · exact payload.2 i later

/-- The CONNECT branch ends as its verdict says. Short of an overrun it stays inside the
string, except that after a bare protocol name it looks at the terminator. -/
theorem parseConnect_outcome (b : Buffer) (idx : Nat) (s : NmqttMessage) (within : idx ≤ b.size) :
    (parseConnect b idx s).result = (Verdict.connect b.host b.bytes idx).result ∧
    (Verdict.connect b.host b.bytes idx ≠ .overrun →
      ((∀ i ∈ (parseConnect b idx s).reads, i < b.size) ↔ b.bytes.drop idx ≠ protMatch)) := by
  by_cases name : (b.bytes.drop idx).take 6 = protMatch
  · have named := b.nameInside name
    have level : b.byteAt (idx + 6) = b.bytes.getD (idx + 6) 0 := b.byteAt_eq named
    by_cases known : KnownLevel (b.bytes.getD (idx + 6) 0)
    · obtain ⟨result, reads⟩ := parseConnect_known b idx s name known
      have inside : idx + 6 < b.size := getD_inside (by
        rcases known with h | h <;> rw [h] <;> decide)
      have longer : b.bytes.drop idx ≠ protMatch := fun bare => by
        have := (bare_iff name).mp bare
        omega
      exact ⟨result, fun h => ⟨fun _ => longer, fun _ => reads h⟩⟩
    · have run := parseConnectHeader_level b idx s name (by rwa [level])
      unfold KnownLevel at known
      push Not at known
      unfold parseConnect Verdict.connect
      rw [if_neg (not_not.mpr name), if_pos known, bind_exit _ _ s run]
      refine ⟨rfl, fun _ => ⟨fun inside bare => ?_, fun longer i hi => ?_⟩⟩
      · have := (bare_iff name).mp bare
        have := inside (idx + 6) (List.mem_singleton.mpr rfl)
        omega
      · have : b.size ≠ idx + 6 := fun last => longer ((bare_iff name).mpr last)
        rw [List.mem_singleton.mp hi]
        omega
  · have run := parseConnectHeader_name b idx s within name
    unfold parseConnect Verdict.connect
    rw [if_pos name, bind_exit _ _ s run]
    refine ⟨rfl, fun _ => ⟨fun _ bare => name ?_, fun _ i hi => nomatch hi⟩⟩
    rw [bare]; rfl

end NmqttMessage

end NymphMqtt
