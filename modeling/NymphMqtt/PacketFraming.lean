import NymphMqtt.MessageSerialize
import NymphMqtt.ReceiveFraming

/-! `parseHeader` on what `serialize` emits. -/

namespace NymphMqtt
open NymphMqtt.Library

/-- The bytes of an integer in memory, low byte first. -/
def Host.lowFirst {α : Type} (host : Host) (l : List α) : List α :=
  match host.endian with
  | .le => l
  | .be => l.reverse

theorem Host.lowFirst_le {α : Type} {host : Host} (order : host.endian = .le) (l : List α) :
    host.lowFirst l = l := by
  unfold lowFirst
  rw [order]

theorem Host.lowFirst_be {α : Type} {host : Host} (order : host.endian = .be) (l : List α) :
    host.lowFirst l = l.reverse := by
  unfold lowFirst
  rw [order]

theorem Host.memory_toNat (host : Host) (count : Nat) {width : Nat} (value : BitVec width) :
    (host.memory count value).map BitVec.toNat = host.lowFirst (Base256.bytesOf count value.toNat) := by
  have low : ((List.range count).map fun i => value.extractLsb' (8 * i) 8).map BitVec.toNat =
      Base256.bytesOf count value.toNat := by
    rw [Base256.bytesOf_eq_map, List.map_map]
    apply List.map_congr_left
    intro i _
    rw [Function.comp_apply, BitVec.extractLsb'_toNat, Nat.shiftRight_eq_div_pow, Nat.pow_mul]
  unfold Host.memory Host.lowFirst
  cases host.endian with
  | le => exact low
  | be => exact List.map_reverse.trans (congrArg List.reverse low)

namespace NmqttMessage

/-! ### The header decoder -/

section Header
variable (host : Host) (b0 b1 b2 b3 b4 : Byte) (len : Nat) (msglen : BitVec 32) (idx : Nat)

theorem decodeHeader_scan :
    let decoded := Base128.scan (host.lowFirst [b1.toNat, b2.toNat, b3.toNat, b4.toNat])
    let header := decodeHeader host #v[b0, b1, b2, b3, b4]
    header.code = 1 ∧ header.idx = decoded.1 + 1 ∧ header.msglen.toNat = decoded.2 := by
  have bytes : Base256.bytesOf 4 (host.load32 b1 b2 b3 b4).toNat =
      host.lowFirst [b1.toNat, b2.toNat, b3.toNat, b4.toNat] := by
    rw [bytesOf_load32]
    unfold Host.lowFirst
    cases host.endian with
    | le => rfl
    | be => rfl
  refine ⟨rfl, ?_, ?_⟩
  · rw [← bytes, ← ByteBauble.readPackedInt_count]
    rfl
  · rw [← bytes, ← ByteBauble.readPackedInt_output]
    rfl

/-- The decoder runs once the marks end within the bytes that are there. -/
theorem parseHeader_scan
    (whole : (Base128.scan [b1.toNat, b2.toNat, b3.toNat, b4.toNat]).1 + 1 ≤ min 5 len) :
    parseHeader host #v[b0, b1, b2, b3, b4] len msglen idx =
      decodeHeader host #v[b0, b1, b2, b3, b4] := by
  have mark : ∀ b : Byte, continues b = true ↔ ¬b.toNat < 128 := fun b =>
    (Receiver.continues_iff b).trans Nat.not_lt.symm
  have pos2 := Base128.scan_pos [b2.toNat, b3.toNat, b4.toNat]
  have pos3 := Base128.scan_pos [b3.toNat, b4.toNat]
  have pos4 := Base128.scan_pos [b4.toNat]
  unfold parseHeader
  change (if len < 2 then _ else if continues b1 then if len < 3 then _ else if continues b2 then
    if len < 4 then _ else if continues b3 then if len < 5 then _ else if continues b4 then _
      else _ else _ else _ else _) = _
  by_cases last1 : b1.toNat < 128
  · rw [Base128.scan_last last1] at whole
    rw [if_neg (by omega), if_neg (mt (mark b1).mp (not_not.mpr last1))]
  rw [Base128.scan_marked last1] at whole
  rw [if_neg (by omega), if_pos ((mark b1).mpr last1), if_neg (by omega)]
  by_cases last2 : b2.toNat < 128
  · rw [if_neg (mt (mark b2).mp (not_not.mpr last2))]
  rw [Base128.scan_marked last2] at whole
  rw [if_pos ((mark b2).mpr last2), if_neg (by omega)]
  by_cases last3 : b3.toNat < 128
  · rw [if_neg (mt (mark b3).mp (not_not.mpr last3))]
  rw [Base128.scan_marked last3] at whole
  rw [if_pos ((mark b3).mpr last3), if_neg (by omega)]
  by_cases last4 : b4.toNat < 128
  · rw [if_neg (mt (mark b4).mp (not_not.mpr last4))]
  rw [Base128.scan_marked last4] at whole
  exact absurd whole (by simp only [Base128.scan]; omega)

/-- The two together, on the bytes behind the first one. -/
theorem parseHeader_list {buff : Vector Byte 5} {four : List Byte} (bytes : buff.toList = b0 :: four)
    (whole : (Base128.scan (four.map BitVec.toNat)).1 + 1 ≤ min 5 len) :
    let decoded := Base128.scan (host.lowFirst (four.map BitVec.toNat))
    let header := parseHeader host buff len msglen idx
    header.code = 1 ∧ header.idx = decoded.1 + 1 ∧ header.msglen.toNat = decoded.2 := by
  obtain ⟨⟨l⟩, size⟩ := buff
  match l, size with
  | [c0, c1, c2, c3, c4], _ =>
    cases bytes
    dsimp only
    have parsed := parseHeader_scan host b0 c1 c2 c3 c4 len msglen idx whole
    have decoded := decodeHeader_scan host b0 c1 c2 c3 c4
    rw [← parsed] at decoded
    exact decoded

/-- A header that is not decoded has another code. -/
theorem parseHeader_decoded {buff : Vector Byte 5}
    (parsed : (parseHeader host buff len msglen idx).code = 1) :
    parseHeader host buff len msglen idx = decodeHeader host buff := by
  generalize result : parseHeader host buff len msglen idx = header at parsed ⊢
  unfold parseHeader at result
  split_ifs at result
  all_goals
    subst result
    first
    | rfl
    | (dsimp only at parsed; omega)

theorem parseHeader_msglen_lt (buff : Vector Byte 5)
    (parsed : (parseHeader host buff len msglen idx).code = 1) :
    (parseHeader host buff len msglen idx).msglen.toNat < 268435456 := by
  have decoded : (decodeHeader host buff).msglen.toNat < 268435456 := by
    have bound := fun v => (Base128.scan_bounds _ (Base256.bytesOf_lt 4 v)).2
    simp only [Base256.bytesOf_length] at bound
    unfold decodeHeader
    rw [ByteBauble.readPackedInt_output]
    exact bound _
  rw [parseHeader_decoded host len msglen idx parsed]
  exact decoded

end Header

/-- On a buffer that holds the front of the packet, and anything behind a short one,
`parseHeader` finds the variable header at `start` and the length of the rest. -/
def Framed (host : Host) (bytes : List Byte) (start : Nat) : Prop :=
  ∀ (buff : Vector Byte 5) (msglen : BitVec 32) (idx : Nat),
    buff.toList.take bytes.length = bytes.take 5 →
      let header := parseHeader host buff (min 5 bytes.length) msglen idx
      header.code = 1 ∧ header.idx = start ∧ header.msglen.toNat = (bytes.drop start).length

/-- What stands between the length bytes and the end of the buffer: the front of the body,
and anything behind a short one. -/
def Follows (body tail : List Byte) : Prop := tail.take body.length = body.take tail.length

section Framed
variable {host : Host} {b0 : Byte} {length body : List Byte}

theorem take_front {tail : List Byte} (whole : length.length + tail.length = 4) :
    (b0 :: (length ++ tail)).take (b0 :: (length ++ body)).length = (b0 :: (length ++ body)).take 5 ↔
      Follows body tail := by
  have five : 5 = length.length + tail.length + 1 := by rw [whole]
  rw [five, List.length_cons, List.length_append, List.take_succ_cons, List.take_succ_cons,
    List.take_length_add_append, List.take_length_add_append, List.cons.injEq, List.append_cancel_left_eq]
  exact ⟨And.right, And.intro rfl⟩

/-- The front of the buffer is the packet's. -/
theorem buffer_front (room : length.length ≤ 4) {buff : List Byte} (five : buff.length = 5)
    (agrees : buff.take (b0 :: (length ++ body)).length = (b0 :: (length ++ body)).take 5) :
    ∃ tail, length.length + tail.length = 4 ∧ buff = b0 :: (length ++ tail) := by
  have front : buff.take (length.length + 1) = b0 :: length := by
    have shorter := congrArg (List.take (length.length + 1)) agrees
    rw [List.take_take, List.take_take, Nat.min_eq_left (by
      rw [List.length_cons, List.length_append]
      omega), Nat.min_eq_left (by omega), List.take_succ_cons, List.take_left] at shorter
    exact shorter
  refine ⟨buff.drop (length.length + 1), ?_, ?_⟩
  · rw [List.length_drop, five]
    omega
  · rw [← List.cons_append, ← front, List.take_append_drop]

theorem framed_iff (room : length.length ≤ 4)
    (marks : ∀ tail : List Byte,
      (Base128.scan ((length ++ tail).map BitVec.toNat)).1 ≤ length.length) :
    Framed host (b0 :: (length ++ body)) (length.length + 1) ↔
      ∀ tail, length.length + tail.length = 4 → Follows body tail →
        Base128.scan (host.lowFirst ((length ++ tail).map BitVec.toNat)) =
          (length.length, body.length) := by
  have rest : ((b0 :: (length ++ body)).drop (length.length + 1)).length = body.length := by
    rw [List.drop_succ_cons, List.drop_left]
  have enough : length.length + 1 ≤ min 5 (min 5 (b0 :: (length ++ body)).length) := by
    rw [List.length_cons, List.length_append]
    omega
  have parsed : ∀ (buff : Vector Byte 5) (tail : List Byte) (msglen : BitVec 32) (idx : Nat),
      buff.toList = b0 :: (length ++ tail) → _ := fun buff tail msglen idx bytes =>
    parseHeader_list host b0 _ msglen idx bytes ((Nat.succ_le_succ (marks tail)).trans enough)
  constructor
  · intro framed tail whole follows
    have size : (b0 :: (length ++ tail)).length = 5 := by
      rw [List.length_cons, List.length_append, whole]
    let buff : Vector Byte 5 := ⟨(b0 :: (length ++ tail)).toArray, size⟩
    obtain ⟨-, start, count⟩ := framed buff 0 0 ((take_front whole).mpr follows)
    obtain ⟨-, start', count'⟩ := parsed buff tail 0 0 rfl
    rw [start'] at start
    rw [count', rest] at count
    exact Prod.ext (Nat.succ.inj start) count
  · intro decodes buff msglen idx agrees
    obtain ⟨tail, whole, bytes⟩ := buffer_front room buff.length_toList agrees
    rw [bytes] at agrees
    have decoded := parsed buff tail msglen idx bytes
    dsimp only at decoded
    rw [decodes tail whole ((take_front whole).mp agrees)] at decoded
    rw [rest]
    exact decoded

/-! ### Bytes behind the length -/

theorem follows_take {tail : List Byte} (follows : Follows body tail)
    (long : tail.length ≤ body.length) : tail = body.take tail.length := by
  rw [← follows, List.take_of_length_le long]

/-- A short body may be followed by anything. -/
theorem exists_follows (body : List Byte) (count : Nat) : ∃ tail : List Byte, tail.length = count ∧
    Follows body tail ∧ ∀ i < count, body.length ≤ i → tail[i]? = some 0xFF := by
  have size : ((body ++ List.replicate count (0xFF : Byte)).take count).length = count := by
    rw [List.length_take, List.length_append, List.length_replicate]
    omega
  refine ⟨(body ++ List.replicate count 0xFF).take count, size, ?_, fun i bound behind => ?_⟩
  · rw [Follows, size, List.take_take, Nat.min_comm, ← List.take_take, List.take_left]
  · rw [List.getElem?_take_of_lt bound, List.getElem?_append_right behind,
      List.getElem?_replicate_of_lt (by omega)]

/-! ### The length bytes -/

theorem remainingLengthBytes_toNat (host : Host) {msgLen : BitVec 32}
    (some : ByteBauble.packedBytes msgLen ≠ 0) :
    (remainingLengthBytes host msgLen).map BitVec.toNat =
      (host.lowFirst (Base128.groups (ByteBauble.packedBytes msgLen) msgLen.toNat ++
        List.replicate (4 - ByteBauble.packedBytes msgLen) 0)).take (ByteBauble.packedBytes msgLen) := by
  obtain ⟨count, output⟩ := writePackedInt_spec msgLen 0 some
  have room : (Base128.groups (ByteBauble.packedBytes msgLen) msgLen.toNat).length ≤ 4 := by
    rw [Base128.groups_length]
    exact packedBytes_le msgLen
  have word := Base256.bytesOf_ofDigits (Base128.groups_lt _ _) room
  rw [Base128.groups_length] at word
  unfold remainingLengthBytes
  dsimp only
  rw [count, List.map_take, host.memory_toNat, output, word]

theorem remainingLengthBytes_toNat_le (order : host.endian = .le) {msgLen : BitVec 32}
    (some : ByteBauble.packedBytes msgLen ≠ 0) :
    (remainingLengthBytes host msgLen).map BitVec.toNat =
      Base128.groups (ByteBauble.packedBytes msgLen) msgLen.toNat := by
  rw [remainingLengthBytes_toNat host some, Host.lowFirst_le order]
  exact List.take_left' (Base128.groups_length _ _)

/-- On a little-endian host the header stands for the remainder that its groups hold. -/
theorem framed_le_iff (order : host.endian = .le) {msgLen : BitVec 32}
    (some : ByteBauble.packedBytes msgLen ≠ 0) :
    Framed host (b0 :: (remainingLengthBytes host msgLen ++ body))
        (ByteBauble.packedBytes msgLen + 1) ↔
      msgLen.toNat % 128 ^ ByteBauble.packedBytes msgLen = body.length := by
  have size := remainingLengthBytes_length host msgLen
  have bytes := remainingLengthBytes_toNat_le order some
  have room := packedBytes_le msgLen
  obtain ⟨count, succ⟩ := Nat.exists_eq_succ_of_ne_zero some
  have scanned : ∀ tail : List Byte,
      Base128.scan ((remainingLengthBytes host msgLen ++ tail).map BitVec.toNat) =
        (ByteBauble.packedBytes msgLen, msgLen.toNat % 128 ^ ByteBauble.packedBytes msgLen) := by
    intro tail
    rw [List.map_append, bytes, succ]
    exact Base128.scan_groups count msgLen.toNat (tail.map BitVec.toNat)
  have iff := @framed_iff host b0 (remainingLengthBytes host msgLen) body (size ▸ room) (by
    intro tail
    rw [scanned, size])
  rw [size] at iff
  rw [iff]
  simp only [Host.lowFirst_le order, scanned, Prod.mk.injEq, true_and]
  constructor
  · intro decodes
    obtain ⟨tail, whole, follows, -⟩ := exists_follows body (4 - ByteBauble.packedBytes msgLen)
    exact decodes tail (by omega) follows
  · exact fun whole _ _ _ => whole

/-- On a big-endian host the word begins with its highest byte. -/
inductive WordFront (n : Nat) : Nat → List Nat → Prop
  | one : WordFront n 1 [0]
  | two : WordFront n 2 [0, 0]
  | three : WordFront n 3 [0, n / 128 / 128 % 128, n / 128 % 128 + 128]
  | four : WordFront n 4
      [n / 128 / 128 / 128 % 128, n / 128 / 128 % 128 + 128, n / 128 % 128 + 128, n % 128 + 128]

theorem remainingLengthBytes_toNat_be (order : host.endian = .be) {msgLen : BitVec 32}
    (some : ByteBauble.packedBytes msgLen ≠ 0) :
    WordFront msgLen.toNat (ByteBauble.packedBytes msgLen)
      ((remainingLengthBytes host msgLen).map BitVec.toNat) := by
  have bound := packedBytes_le msgLen
  rw [remainingLengthBytes_toNat host some, Host.lowFirst_be order]
  generalize ByteBauble.packedBytes msgLen = count at some bound
  obtain rfl | rfl | rfl | rfl : count = 1 ∨ count = 2 ∨ count = 3 ∨ count = 4 := by omega
  · exact .one
  · exact .two
  · exact .three
  · exact .four

theorem WordFront.scan {n count : Nat} {front : List Nat} (word : WordFront n count front)
    (rest : List Nat) : (Base128.scan (front ++ rest)).1 ≤ count := by
  have first : ∀ b more, b < 128 → (Base128.scan (b :: more)).1 = 1 := fun b more small =>
    congrArg Prod.fst (Base128.scan_last small more)
  cases word with
  | one | two | three =>
    exact le_of_eq_of_le (first _ _ (by decide)) (by decide)
  | four => exact le_of_eq_of_le (first _ _ (Nat.mod_lt _ (by decide))) (by decide)

/-- The bytes that the body gives to the word stand for the length by chance. -/
def Completes (body : List Byte) : Prop :=
  (body.length ≤ 127 ∧ body[2]? = some (BitVec.ofNat 8 body.length)) ∨
  (128 < body.length ∧ body.length < 16384 ∧ body[0]? = some (BitVec.ofNat 8 (body.length / 128)) ∧
    body[1]? = some (BitVec.ofNat 8 (body.length % 128 + 128))) ∨
  (16384 < body.length ∧ body.length < 2097152 ∧
    body[0]? = some (BitVec.ofNat 8 (body.length % 128 + 128)))

instance (body : List Byte) : Decidable (Completes body) := inferInstanceAs (Decidable (_ ∨ _))

theorem packedBytes_eq (msgLen : BitVec 32) : ByteBauble.packedBytes msgLen =
    if msgLen.toNat ≤ 128 then 1 else if msgLen.toNat ≤ 16384 then 2
    else if msgLen.toNat ≤ 2097152 then 3 else if msgLen.toNat ≤ 268435456 then 4 else 0 := rfl

/-- A body that is long enough leaves no choice. -/
theorem forall_follows_iff {P : List Byte → Prop} {count missing : Nat} (whole : count + missing = 4)
    (long : missing ≤ body.length) :
    (∀ tail : List Byte, count + tail.length = 4 → Follows body tail → P tail) ↔
      P (body.take missing) := by
  constructor
  · intro all
    have size : (body.take missing).length = missing := List.length_take_of_le long
    apply all
    · rw [size, whole]
    · rw [Follows, size, List.take_take, Nat.min_eq_right long]
  · intro one tail count_tail follows
    have size : tail.length = missing := by omega
    have known := follows_take follows (by omega)
    rw [size] at known
    exact known ▸ one

theorem byte_eq_iff {b : Byte} {v : Nat} (small : v < 256) : b = BitVec.ofNat 8 v ↔ b.toNat = v := by
  rw [← BitVec.toNat_inj, BitVec.toNat_ofNat, Nat.mod_eq_of_lt small]

section Words
variable {n : Nat} (size : body.length = n)
include size

theorem completes_one_iff (small : n ≤ 128) :
    (∀ tail : List Byte, 1 + tail.length = 4 → Follows body tail →
      Base128.scan ((tail.map BitVec.toNat).reverse ++ [0]) = (1, n)) ↔ Completes body := by
  by_cases long : 3 ≤ n
  · obtain ⟨x0, x1, x2, rest, rfl⟩ : ∃ x0 x1 x2 rest, body = x0 :: x1 :: x2 :: rest := by
      match body, size with
      | x0 :: x1 :: x2 :: rest, _ => exact ⟨x0, x1, x2, rest, rfl⟩
      | [_, _], size => simp only [List.length_cons, List.length_nil] at size; omega
      | [_], size => simp only [List.length_singleton] at size; omega
      | [], size => simp only [List.length_nil] at size; omega
    rw [forall_follows_iff (rfl : 1 + 3 = 4) (by omega)]
    change Base128.scan (x2.toNat :: x1.toNat :: x0.toNat :: [0]) = _ ↔ _
    rw [Base128.scan_one_iff, Completes, size]
    simp only [List.getElem?_cons_zero, List.getElem?_cons_succ, Option.some.injEq,
      byte_eq_iff (show n < 256 by omega)]
    constructor
    · intro ⟨last, value⟩
      left
      omega
    · rintro (one | two | three)
      · omega
      · omega
      · omega
  -- The byte that decides lies behind the packet.
  · have absent : body[2]? = none := List.getElem?_eq_none (by omega)
    constructor
    · intro all
      obtain ⟨tail, count, follows, behind⟩ := exists_follows body 3
      have last := behind 2 (by decide) (by omega)
      match tail, count with
      | [x0, x1, x2], _ =>
        cases last
        have scanned := all [x0, x1, 0xFF] rfl follows
        have small := (Base128.scan_one_iff [x1.toNat, x0.toNat, 0]).mp scanned
        exact absurd small.1 (by decide)
    · rintro (one | two | three)
      · rw [absent] at one
        cases one.2
      · omega
      · omega

theorem completes_two_iff (large : 128 < n) (small : n ≤ 16384) :
    (∀ tail : List Byte, 2 + tail.length = 4 → Follows body tail →
      Base128.scan ((tail.map BitVec.toNat).reverse ++ [0, 0]) = (2, n)) ↔ Completes body := by
  obtain ⟨x0, x1, rest, rfl⟩ : ∃ x0 x1 rest, body = x0 :: x1 :: rest := by
    match body, size with
    | x0 :: x1 :: rest, _ => exact ⟨x0, x1, rest, rfl⟩
    | [_], size => simp only [List.length_singleton] at size; omega
    | [], size => simp only [List.length_nil] at size; omega
  rw [forall_follows_iff (rfl : 2 + 2 = 4) (by omega)]
  have x1_lt := x1.isLt
  change Base128.scan (x1.toNat :: x0.toNat :: [0, 0]) = _ ↔ _
  rw [Base128.scan_two_iff, Completes, size]
  simp only [List.getElem?_cons_zero, List.getElem?_cons_succ, Option.some.injEq,
    byte_eq_iff (show n % 128 + 128 < 256 by omega)]
  constructor
  · intro ⟨marked, last, value⟩
    right
    left
    exact ⟨large, by omega, (byte_eq_iff (by omega)).mpr (by omega), by omega⟩
  · rintro (one | two | three)
    · omega
    · have high := (byte_eq_iff (by omega)).mp two.2.2.1
      omega
    · omega

theorem completes_three_iff (large : 16384 < n) (small : n ≤ 2097152) :
    (∀ tail : List Byte, 3 + tail.length = 4 → Follows body tail →
      Base128.scan ((tail.map BitVec.toNat).reverse ++
        [n / 128 % 128 + 128, n / 128 / 128 % 128, 0]) = (3, n)) ↔ Completes body := by
  obtain ⟨x0, rest, rfl⟩ : ∃ x0 rest, body = x0 :: rest := by
    match body, size with
    | x0 :: rest, _ => exact ⟨x0, rest, rfl⟩
    | [], size => simp only [List.length_nil] at size; omega
  rw [forall_follows_iff (rfl : 3 + 1 = 4) (by omega)]
  have x0_lt := x0.isLt
  change Base128.scan (x0.toNat :: (n / 128 % 128 + 128) :: (n / 128 / 128 % 128) :: [0]) = _ ↔ _
  rw [Base128.scan_three_iff, Completes, size]
  simp only [List.getElem?_cons_zero, Option.some.injEq,
    byte_eq_iff (show n % 128 + 128 < 256 by omega)]
  constructor
  · intro ⟨marked, _, last, value⟩
    right
    right
    omega
  · rintro (one | two | three)
    · omega
    · omega
    · omega

end Words

theorem framed_be_iff (order : host.endian = .be) {msgLen : BitVec 32}
    (some : ByteBauble.packedBytes msgLen ≠ 0) (length : msgLen.toNat = body.length)
    (fits : body.length ≤ 268435455) :
    Framed host (b0 :: (remainingLengthBytes host msgLen ++ body))
        (ByteBauble.packedBytes msgLen + 1) ↔ 2097153 ≤ body.length ∨ Completes body := by
  have size := remainingLengthBytes_length host msgLen
  have word := remainingLengthBytes_toNat_be order some
  have room := packedBytes_le msgLen
  have packed := packedBytes_eq msgLen
  have iff := @framed_iff host b0 (remainingLengthBytes host msgLen) body (size ▸ room) (by
    intro tail
    rw [List.map_append, size]
    exact word.scan _)
  rw [size] at iff
  rw [iff]
  simp only [Host.lowFirst_be order, List.map_append, List.reverse_append]
  rw [length] at packed word
  generalize ByteBauble.packedBytes msgLen = count at packed word
  generalize (remainingLengthBytes host msgLen).map BitVec.toNat = front at word
  cases word with
  | one =>
    have small : body.length ≤ 128 := by split_ifs at packed <;> omega
    rw [or_iff_right (by omega)]
    exact completes_one_iff rfl small
  | two =>
    have small : 128 < body.length ∧ body.length ≤ 16384 := by split_ifs at packed <;> omega
    rw [or_iff_right (by omega)]
    exact completes_two_iff rfl small.1 small.2
  | three =>
    have small : 16384 < body.length ∧ body.length ≤ 2097152 := by split_ifs at packed <;> omega
    rw [or_iff_right (by omega)]
    exact completes_three_iff rfl small.1 small.2
  | four =>
    have large : 2097152 < body.length := by split_ifs at packed <;> omega
    rw [forall_follows_iff (rfl : 4 + 0 = 4) (Nat.zero_le _)]
    have scanned := Base128.scan_groups 3 body.length []
    rw [Nat.mod_eq_of_lt (by omega)] at scanned
    exact ⟨fun _ => Or.inl large, fun _ => scanned⟩

/-- No header stands for a length that takes more than four bytes. -/
theorem framed_length_lt {bytes : List Byte} {start : Nat} (long : 5 ≤ bytes.length)
    (framed : Framed host bytes start) : (bytes.drop start).length < 268435456 := by
  have five : (bytes.take 5).length = 5 := List.length_take_of_le long
  have agrees : (bytes.take 5).take bytes.length = bytes.take 5 := by
    apply List.take_of_length_le
    omega
  obtain ⟨code, -, length⟩ := framed ⟨(bytes.take 5).toArray, five⟩ 0 0 agrees
  rw [← length]
  exact parseHeader_msglen_lt host _ 0 0 _ code

end Framed

/-! ### Packets -/

section Packets
variable (host : Host) (m : NmqttMessage)

/-- The variable header and the payload. -/
def body : List Byte := (m.draft host).varHeader ++ (m.draft host).payload

theorem serialize_bytes : (m.serialize host).1 = (m.draft host).b0 ::
    (remainingLengthBytes host (BitVec.ofNat 32 (m.body host).length) ++ m.body host) := by
  rw [body, List.length_append, ← List.append_assoc]
  rfl

/-- Behind the first byte and the length bytes stands the body. -/
theorem serialize_drop : (m.serialize host).1.drop
    (1 + (remainingLengthBytes host (BitVec.ofNat 32 (m.body host).length)).length) =
      m.body host := by
  rw [serialize_bytes, Nat.add_comm, List.drop_succ_cons, List.drop_left]

/-- A packet whose remaining length fits is framed, and another one is not emitted with a
wrong header. -/
def SelfFramed : Prop :=
  let bytes := (m.serialize host).1
  let start := bytes.length - (m.body host).length
  if (m.body host).length ≤ 268435455 then Framed host bytes start
  else bytes = [] ∨ Framed host bytes start

theorem serialize_start : (m.serialize host).1.length - (m.body host).length =
    ByteBauble.packedBytes (BitVec.ofNat 32 (m.body host).length) + 1 := by
  rw [serialize_bytes, List.length_cons, List.length_append, remainingLengthBytes_length]
  omega

theorem selfFramed_fits (fits : (m.body host).length ≤ 268435455) :
    m.SelfFramed host ↔
      if host.endian = .le then
        (m.body host).length ∉ [128, 16384, 2097152]
      else 2097153 ≤ (m.body host).length ∨ Completes (m.body host) := by
  have length : (BitVec.ofNat 32 (m.body host).length).toNat = (m.body host).length := by
    rw [BitVec.toNat_ofNat, Nat.mod_eq_of_lt (by omega)]
  have packed := packedBytes_eq (BitVec.ofNat 32 (m.body host).length)
  rw [length] at packed
  have some : ByteBauble.packedBytes (BitVec.ofNat 32 (m.body host).length) ≠ 0 := by
    split_ifs at packed <;> omega
  unfold SelfFramed
  dsimp only
  rw [if_pos fits, serialize_start, serialize_bytes]
  cases order : host.endian with
  | be =>
    rw [if_neg (by decide)]
    exact framed_be_iff order some length fits
  | le =>
    rw [if_pos rfl, framed_le_iff order some, length, Nat.mod_eq_iff_lt (by positivity)]
    simp only [List.mem_cons, List.not_mem_nil, or_false]
    split_ifs at packed <;> rw [packed] <;> omega

/-- Every packet ends up with a header, also one that no header can describe. -/
theorem not_selfFramed_large (large : ¬(m.body host).length ≤ 268435455) : ¬m.SelfFramed host := by
  unfold SelfFramed
  dsimp only
  rw [if_neg large]
  rintro (nothing | framed)
  · rw [serialize_bytes] at nothing
    cases nothing
  · have whole : (m.body host).length < (m.serialize host).1.length := by
      rw [serialize_bytes, List.length_cons, List.length_append]
      omega
    have small := framed_length_lt (by omega) framed
    rw [List.length_drop] at small
    omega

/-- Which packets describe themselves. -/
theorem serialize_selfFramed_iff : m.SelfFramed host ↔
    (m.body host).length ≤ 268435455 ∧
      if host.endian = .le then (m.body host).length ∉ [128, 16384, 2097152]
      else 2097153 ≤ (m.body host).length ∨ Completes (m.body host) := by
  by_cases fits : (m.body host).length ≤ 268435455
  · rw [selfFramed_fits host m fits]
    exact ⟨And.intro fits, And.right⟩
  · exact ⟨fun framed => absurd framed (not_selfFramed_large host m fits), fun h => absurd h.1 fits⟩

/-- A PUBLISH with 128 bytes behind its header says that there are none. -/
theorem publish_misframed : ¬(((ofType default .publish).setTopic [0x74]).setPayload
    (List.replicate 125 0x61)).SelfFramed ⟨.le, true⟩ := by
  have size : (body ⟨.le, true⟩ (((ofType default .publish).setTopic [0x74]).setPayload
      (List.replicate 125 0x61))).length = 128 := by decide +kernel
  rw [selfFramed_fits _ _ (by rw [size]; decide), size]
  decide

end Packets

end NmqttMessage
end NymphMqtt
