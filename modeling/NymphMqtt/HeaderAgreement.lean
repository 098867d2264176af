import NymphMqtt.HeaderDecoding

/-! `parseHeader` against the length check of `parseMessage`, on the same string. -/

namespace NymphMqtt
open NymphMqtt.Library

namespace Verdict

/-- What the second byte stands for without the bytes behind it: the sign of a `char` fills
the word with marks, and an unsigned `char` with zeros. -/
def announced (host : Host) (b1 : Nat) : Nat × Nat :=
  if b1 < 128 then (1, b1)
  else if host.charSigned then (5, 268435328 + b1 % 128)
  else (2, b1 % 128)

theorem packedLength_announced (host : Host) (bytes : List Byte) :
    ((packedLength host bytes).1, (packedLength host bytes).2.toNat) =
      announced host (bytes.getD 1 0).toNat := by
  have byte := (bytes.getD 1 0).isLt
  unfold announced
  by_cases small : (bytes.getD 1 0).toNat < 128
  · obtain ⟨count, value⟩ := packedLength_small host bytes small
    rw [if_pos small, count, value]
  have sum := packedLength_marked host bytes (Nat.not_lt.mp small)
  have count : (packedLength host bytes).1 = if host.charSigned then 5 else 2 := by
    unfold packedLength
    rw [ByteBauble.readPackedInt_count, Host.widenChar_toNat]
    cases host.charSigned with
    | false =>
      rw [if_neg (by simp)]
      have low : (bytes.getD 1 0).toNat % 256 = (bytes.getD 1 0).toNat := by omega
      have high : (bytes.getD 1 0).toNat / 256 = 0 := by omega
      simp only [Base256.bytesOf, low, high, Base128.scan_marked small]
      rfl
    | true =>
      rw [if_pos ⟨rfl, Nat.not_lt.mp small⟩]
      have low : (4294967040 + (bytes.getD 1 0).toNat) % 256 = (bytes.getD 1 0).toNat := by omega
      have high : (4294967040 + (bytes.getD 1 0).toNat) / 256 = 16777215 := by omega
      simp only [Base256.bytesOf, low, high, Base128.scan_marked small]
      rfl
  rw [if_neg small]
  cases signed : host.charSigned with
  | false =>
    rw [signed] at sum count
    simp only [Bool.false_eq_true, if_false] at sum count ⊢
    exact Prod.ext count (by omega)
  | true =>
    rw [signed] at sum count
    simp only [if_true] at sum count ⊢
    exact Prod.ext count (by omega)

end Verdict

namespace NmqttMessage

/-- A string, and a buffer that holds the front of it and anything behind a short one. At
least the bytes of the string that it holds are said to be there. -/
structure HeaderView where
  bytes : List Byte
  buff : Vector Byte 5
  len : Nat
  two : 2 ≤ bytes.length
  front : buff.toList.take bytes.length = bytes.take 5
  there : min 5 bytes.length ≤ len
  five : len ≤ 5

namespace HeaderView
variable (v : HeaderView) (host : Host)

/-- The string passes the length check if and only if `parseHeader` finds its length, and
then both have found the same. -/
def Agrees : Prop :=
  ∀ (beyond : Nat → Byte) (m : NmqttMessage) (msglen : BitVec 32) (idx : Nat),
    let check := parseFixedHeader ⟨host, v.bytes, beyond⟩ m
    let header := parseHeader host v.buff v.len msglen idx
    ((∃ start, check.result = .ok start) ↔
      header.code = 1 ∧ header.idx + header.msglen.toNat = v.bytes.length) ∧
    ∀ start, check.result = .ok start →
      start.1 = header.idx ∧ check.state.messageLength = header.msglen

/-- The length bytes end within those that are there, and announce the size of the string. -/
def Framed : Prop :=
  let decoded := Base128.scan (host.lowFirst ((lengthField v.buff).map BitVec.toNat))
  HeaderEnds (byte1 v.buff) (byte2 v.buff) (byte3 v.buff) (byte4 v.buff) v.len ∧
    1 + decoded.1 + decoded.2 = v.bytes.length

/-- Where the second byte alone announces the size of the string, the other length bytes say
the same. Elsewhere they do not announce it either. -/
def Agreeable : Prop :=
  let b1 := (byte1 v.buff).toNat
  let announced := Verdict.announced host b1
  if 1 + announced.1 + announced.2 = v.bytes.length then
    if b1 < 128 then host.endian = .le ∨ byte4 v.buff = byte1 v.buff
    else host.charSigned = false ∧
      match host.endian with
      | .le => byte2 v.buff = 0
      | .be => HeaderEnds (byte1 v.buff) (byte2 v.buff) (byte3 v.buff) (byte4 v.buff) v.len ∧
          byte3 v.buff = 0 ∧ byte4 v.buff = byte1 v.buff
  else ¬v.Framed host

/-! ### Each decoder in terms of the bytes -/

theorem second_byte : v.bytes.getD 1 0 = byte1 v.buff := by
  obtain ⟨bytes, buff, len, two, front, there, five⟩ := v
  match bytes, two with
  | b0 :: b1 :: rest, _ =>
    rw [Receiver.toList_five] at front
    have same := congrArg (fun l : List Byte => l.getD 1 0) front
    exact same.symm

theorem check_iff (beyond : Nat → Byte) (m : NmqttMessage) :
    let announced := Verdict.announced host (byte1 v.buff).toNat
    let check := parseFixedHeader ⟨host, v.bytes, beyond⟩ m
    ((∃ start, check.result = .ok start) ↔ 1 + announced.1 + announced.2 = v.bytes.length) ∧
      ∀ start, check.result = .ok start →
        start.1 = announced.1 + 1 ∧ check.state.messageLength.toNat = announced.2 := by
  have pair := Verdict.packedLength_announced host v.bytes
  rw [second_byte] at pair
  obtain ⟨count, value⟩ : _ = _ ∧ _ = _ := Prod.ext_iff.mp pair
  dsimp only at count value
  intro announced check
  have sized : Verdict.WellSized host v.bytes ↔
      2 ≤ v.bytes.length ∧ announced.1 + 1 + announced.2 = v.bytes.length := by
    rw [Verdict.wellSized_iff, Verdict.bodyStart, count, value]
  have run : check = _ := parseFixedHeader_run ⟨host, v.bytes, beyond⟩ m v.two
  by_cases passes : Verdict.WellSized host v.bytes
  · rw [if_pos passes] at run
    rw [run]
    constructor
    · have size := (sized.mp passes).2
      exact iff_of_true ⟨_, rfl⟩ (by omega)
    · intro start same
      cases same
      exact ⟨congrArg (fun count => count + 1) count, value⟩
  · rw [if_neg passes] at run
    rw [run]
    constructor
    · refine iff_of_false (fun ok => ?_) fun size => passes (sized.mpr ⟨v.two, ?_⟩)
      · obtain ⟨start, ok⟩ := ok
        cases ok
      · omega
    · intro start ok
      cases ok

theorem two_len : 2 ≤ v.len := by
  have two := v.two
  have there := v.there
  omega

theorem header_code_iff (msglen : BitVec 32) (idx : Nat) :
    (parseHeader host v.buff v.len msglen idx).code = 1 ↔
      HeaderEnds (byte1 v.buff) (byte2 v.buff) (byte3 v.buff) (byte4 v.buff) v.len := by
  constructor
  · intro parsed
    rw [headerEnds_received v.buff v.two_len v.five]
    intro marked
    rw [parseHeader_marked host v.buff msglen idx v.two_len v.five marked] at parsed
    split at parsed
    · exact absurd parsed (by decide)
    · exact absurd parsed (by decide)
  · intro ends
    exact (parseHeader_ends host v.buff msglen idx ends).1

/-- The decoders agree just where their answers do. -/
theorem agrees_iff :
    v.Agrees host ↔
      if 1 + (Verdict.announced host (byte1 v.buff).toNat).1 +
          (Verdict.announced host (byte1 v.buff).toNat).2 = v.bytes.length then
        HeaderEnds (byte1 v.buff) (byte2 v.buff) (byte3 v.buff) (byte4 v.buff) v.len ∧
          Base128.scan (host.lowFirst ((lengthField v.buff).map BitVec.toNat)) =
            Verdict.announced host (byte1 v.buff).toNat
      else ¬v.Framed host := by
  have check := v.check_iff host
  dsimp only at check
  generalize Verdict.announced host (byte1 v.buff).toNat = announced at check ⊢
  by_cases size : 1 + announced.1 + announced.2 = v.bytes.length
  · rw [if_pos size]
    constructor
    · intro agrees
      obtain ⟨both, same⟩ := agrees (fun _ => 0) default 0 0
      obtain ⟨passes, found⟩ := check (fun _ => 0) default
      obtain ⟨start, result⟩ := passes.mpr size
      have ends := (v.header_code_iff host 0 0).mp (both.mp ⟨start, result⟩).1
      obtain ⟨-, idx, length⟩ := parseHeader_ends host v.buff 0 0 ends
      obtain ⟨first, second⟩ := same start result
      obtain ⟨first', second'⟩ := found start result
      refine ⟨ends, Prod.ext ?_ ?_⟩
      · exact Nat.succ.inj (idx.symm.trans (first.symm.trans first'))
      · rw [← length, ← second]
        exact second'
    · rintro ⟨ends, decoded⟩ beyond m msglen idx
      obtain ⟨code, first, second⟩ := parseHeader_ends host v.buff msglen idx ends
      rw [decoded] at first second
      obtain ⟨passes, found⟩ := check beyond m
      refine ⟨iff_of_true (passes.mpr size) ⟨code, ?_⟩, fun start result => ?_⟩
      · rw [first, second]
        omega
      · obtain ⟨first', second'⟩ := found start result
        exact ⟨first'.trans first.symm, BitVec.eq_of_toNat_eq (second'.trans second.symm)⟩
  · rw [if_neg size]
    constructor
    · intro agrees framed
      obtain ⟨both, -⟩ := agrees (fun _ => 0) default 0 0
      obtain ⟨code, first, second⟩ := parseHeader_ends host v.buff 0 0 framed.1
      have sum := framed.2
      apply size
      rw [← (check (fun _ => 0) default).1]
      apply both.mpr
      refine ⟨code, ?_⟩
      rw [first, second]
      omega
    · intro unframed beyond m msglen idx
      have fails := mt (check beyond m).1.mp size
      refine ⟨iff_of_false fails ?_, fun start result => absurd ⟨start, result⟩ fails⟩
      rintro ⟨code, sum⟩
      have ends := (v.header_code_iff host msglen idx).mp code
      obtain ⟨-, first, second⟩ := parseHeader_ends host v.buff msglen idx ends
      rw [first, second] at sum
      exact unframed ⟨ends, by omega⟩

/-! ### Each decoder in terms of the other -/

/-- In either order there is an unmarked byte. -/
theorem decoded_le
    (ends : HeaderEnds (byte1 v.buff) (byte2 v.buff) (byte3 v.buff) (byte4 v.buff) v.len) :
    (Base128.scan (host.lowFirst ((lengthField v.buff).map BitVec.toNat))).1 ≤ 4 := by
  have some : ∃ b ∈ (lengthField v.buff).map BitVec.toNat, b < 128 := by
    rw [← Base128.scan_ends_iff]
    have within : (Base128.scan ((lengthField v.buff).map BitVec.toNat)).1 + 1 ≤ min 5 v.len := ends
    change _ ≤ 4
    omega
  have ordered : (Base128.scan (host.lowFirst ((lengthField v.buff).map BitVec.toNat))).1 ≤
      (host.lowFirst ((lengthField v.buff).map BitVec.toNat)).length := by
    rw [Base128.scan_ends_iff]
    unfold Host.lowFirst
    cases host.endian with
    | le => exact some
    | be => simpa only [List.mem_reverse] using some
  refine ordered.trans ?_
  unfold Host.lowFirst
  cases host.endian <;> exact le_rfl

theorem decoded_announced_iff
    (size : 1 + (Verdict.announced host (byte1 v.buff).toNat).1 +
      (Verdict.announced host (byte1 v.buff).toNat).2 = v.bytes.length) :
    (HeaderEnds (byte1 v.buff) (byte2 v.buff) (byte3 v.buff) (byte4 v.buff) v.len ∧
        Base128.scan (host.lowFirst ((lengthField v.buff).map BitVec.toNat)) =
          Verdict.announced host (byte1 v.buff).toNat) ↔
      if (byte1 v.buff).toNat < 128 then host.endian = .le ∨ byte4 v.buff = byte1 v.buff
      else host.charSigned = false ∧
        match host.endian with
        | .le => byte2 v.buff = 0
        | .be => HeaderEnds (byte1 v.buff) (byte2 v.buff) (byte3 v.buff) (byte4 v.buff) v.len ∧
            byte3 v.buff = 0 ∧ byte4 v.buff = byte1 v.buff := by
  have two := v.two_len
  have there := v.there
  have within := v.decoded_le host
  have ends_iff := headerEnds_iff (byte1 v.buff) (byte2 v.buff) (byte3 v.buff) (byte4 v.buff) v.len
  unfold Verdict.announced at size ⊢
  have b1_lt := (byte1 v.buff).isLt
  have b4_lt := (byte4 v.buff).isLt
  by_cases small : (byte1 v.buff).toNat < 128
  · rw [if_pos small, if_pos small]
    have ends := ends_iff.mpr ⟨two, .inl small⟩
    rw [and_iff_right ends]
    unfold lengthField Host.lowFirst
    cases host.endian with
    | le =>
      exact iff_of_true (Base128.scan_last small _) (.inl rfl)
    | be =>
      simp only [List.map_cons, List.map_nil, List.reverse_cons, List.reverse_nil, List.nil_append,
        List.cons_append, reduceCtorEq, false_or]
      rw [Base128.scan_one_iff, ← BitVec.toNat_inj]
      omega
  · rw [if_neg small] at size ⊢
    rw [if_neg small]
    cases signed : host.charSigned with
    | true =>
      rw [if_pos rfl]
      refine iff_of_false ?_ (fun h => absurd h.1 (by decide))
      rintro ⟨ends, decoded⟩
      have count := within ends
      rw [decoded] at count
      change 5 ≤ 4 at count
      omega
    | false =>
      rw [signed, if_neg (by decide)] at size
      rw [if_neg (by decide)]
      dsimp only at size
      simp only [true_and]
      unfold lengthField Host.lowFirst
      cases host.endian with
      | le =>
        simp only [List.map_cons, List.map_nil]
        rw [Base128.scan_two_iff, ends_iff, ← BitVec.toNat_inj]
        change _ ↔ (byte2 v.buff).toNat = 0
        omega
      | be =>
        simp only [List.map_cons, List.map_nil, List.reverse_cons, List.reverse_nil,
          List.nil_append, List.cons_append]
        rw [Base128.scan_two_iff, ← BitVec.toNat_inj, ← BitVec.toNat_inj]
        change _ ↔ _ ∧ (byte3 v.buff).toNat = 0 ∧ _
        apply and_congr_right
        intro _
        omega

theorem agreeable_iff : v.Agrees host ↔ v.Agreeable host := by
  rw [agrees_iff, Agreeable]
  by_cases size : 1 + (Verdict.announced host (byte1 v.buff).toNat).1 +
      (Verdict.announced host (byte1 v.buff).toNat).2 = v.bytes.length
  · rw [if_pos size, if_pos size]
    exact v.decoded_announced_iff host size
  · rw [if_neg size, if_neg size]

end HeaderView
end NmqttMessage

/-! ### Packets -/

namespace Packet
variable (p : Packet) (host : Host)

theorem encode_length :
    p.encode.length = 1 + (Base128.encode p.body.length).length + p.body.length := by
  rw [encode, List.length_cons, List.length_append, List.length_map]
  omega

/-- The length check takes the second byte for all of the length. -/
theorem encode_sized_iff : Verdict.WellSized host p.encode ↔ p.body.length ≤ 127 := by
  have fits := p.fits
  have size := p.encode_length
  by_cases short : p.body.length ≤ 127
  · have second : (p.encode.getD 1 0).toNat = p.body.length := by
      rw [p.encode_short short]
      change (BitVec.ofNat 8 p.body.length).toNat = _
      rw [BitVec.toNat_ofNat]
      omega
    rw [Base128.encode_small (by omega)] at size
    rw [Verdict.wellSized_small host _ (by omega), second]
    exact iff_of_true (by simpa [Nat.add_assoc] using size) short
  · have second : (p.encode.getD 1 0).toNat = p.body.length % 128 + 128 := by
      rw [encode, Base128.encode_large (by omega)]
      change (BitVec.ofNat 8 (p.body.length % 128 + 128)).toNat = _
      rw [BitVec.toNat_ofNat]
      omega
    have fewest := Base128.fewest_encode p.body.length
    have four := fewest.least 4 (by decide) (by omega)
    have two : 2 ≤ (Base128.encode p.body.length).length := by
      by_contra one
      have holds := fewest.holds
      rw [show (Base128.encode p.body.length).length = 1 by have := fewest.some; omega] at holds
      omega
    rw [Verdict.wellSized_marked host _ (by omega), second, size]
    refine iff_of_false ?_ short
    split <;> omega

end Packet

namespace NmqttMessage

/-- The strings on which the decoders agree, and the packets that pass the length check. -/
theorem decoders_agree_iff (host : Host) :
    (∀ v : HeaderView, v.Agrees host ↔ v.Agreeable host) ∧
    ∀ (p : Packet) (beyond : Nat → Byte) (m : NmqttMessage),
      (∃ start, (parseFixedHeader ⟨host, p.encode, beyond⟩ m).result = .ok start) ↔
        p.body.length ≤ 127 := by
  constructor
  · intro v
    exact v.agreeable_iff host
  · intro p beyond m
    have two : 2 ≤ p.encode.length := by
      rw [p.encode_length]
      have some := (Base128.fewest_encode p.body.length).some
      omega
    rw [← p.encode_sized_iff host, parseFixedHeader_run ⟨host, p.encode, beyond⟩ m two]
    dsimp only
    by_cases sized : Verdict.WellSized host p.encode
    · rw [if_pos sized]
      exact iff_of_true ⟨_, rfl⟩ sized
    · rw [if_neg sized]
      refine iff_of_false (fun ok => ?_) sized
      obtain ⟨start, ok⟩ := ok
      cases ok

/-- The front of a packet with 128 bytes behind its header. -/
def longPacket : HeaderView where
  bytes := [0x30, 0x80, 0x01] ++ List.replicate 128 0
  buff := #v[0x30, 0x80, 0x01, 0, 0]
  len := 5
  two := by simp
  front := by decide +kernel
  there := by simp
  five := le_rfl

/-- One decoder finds its length, and the other turns it down. -/
theorem longPacket_disagrees : ¬longPacket.Agrees ⟨.le, true⟩ := by
  have size : longPacket.bytes.length = 131 := by decide +kernel
  have framed : longPacket.Framed ⟨.le, true⟩ := ⟨by decide, size.symm⟩
  rw [HeaderView.agreeable_iff, HeaderView.Agreeable, size]
  exact fun agreeable => agreeable framed

end NmqttMessage
end NymphMqtt
