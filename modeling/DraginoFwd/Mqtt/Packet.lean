import DraginoFwd.Lib.Cursor
import DraginoFwd.Lib.Varint

/-!
# The parts of MQTT packets

Model of `MQTTPacket.c`: the header byte, the remaining length, integers of two bytes and strings
with their length, as they are written to and read from a buffer. Each writer puts a list of bytes
(`mqttPacketEncode_eq`, `writeMqttString_eq`), and each reader gets it back from where it stands
(`mqttPacketDecodeBuf_of_holdsAt`, `readMqttLenString_of_holdsAt`).

The library is always built with the members of a byte from its first to its last (`REVERSED`).
Where the first of them stands is up to the target: MQTT wants it at the top, where compilers for
big-endian targets put it; those for little-endian targets put it at the bottom.
-/

set_option autoImplicit false

namespace DraginoFwd.Mqtt

open DraginoFwd.Lib
open DraginoFwd.Lib.Memory

variable {n : Nat}

/-! ## The header -/

/-- Where the first bit field of a byte stands. -/
inductive BitOrder where
  | top
  | bottom
  deriving DecidableEq, Repr

/-- `MQTTHeader` -/
@[ext] structure MqttHeader where
  type : BitVec 4
  dup : BitVec 1
  qos : BitVec 2
  retain : BitVec 1
  deriving DecidableEq, Repr

/-- `header.byte`, from `header.bits` -/
def MqttHeader.byte : BitOrder → MqttHeader → BitVec 8
  | .top, h => h.type ++ h.dup ++ h.qos ++ h.retain
  | .bottom, h => h.retain ++ h.qos ++ h.dup ++ h.type

/-- `header.bits`, from `header.byte` -/
def MqttHeader.ofByte : BitOrder → BitVec 8 → MqttHeader
  | .top, b => ⟨b.extractLsb' 4 4, b.extractLsb' 3 1, b.extractLsb' 1 2, b.extractLsb' 0 1⟩
  | .bottom, b => ⟨b.extractLsb' 0 4, b.extractLsb' 4 1, b.extractLsb' 5 2, b.extractLsb' 7 1⟩

/-! `enum msgTypes` -/

/-- `CONNECT` -/
abbrev connect : BitVec 4 := 1#4
/-- `CONNACK` -/
abbrev connack : BitVec 4 := 2#4
/-- `PUBLISH` -/
abbrev publish : BitVec 4 := 3#4
/-- `PUBACK` -/
abbrev puback : BitVec 4 := 4#4
/-- `PUBREC` -/
abbrev pubrec : BitVec 4 := 5#4
/-- `PUBREL` -/
abbrev pubrel : BitVec 4 := 6#4
/-- `PUBCOMP` -/
abbrev pubcomp : BitVec 4 := 7#4
/-- `SUBSCRIBE` -/
abbrev subscribe : BitVec 4 := 8#4
/-- `SUBACK` -/
abbrev suback : BitVec 4 := 9#4
/-- `UNSUBSCRIBE` -/
abbrev unsubscribe : BitVec 4 := 10#4
/-- `UNSUBACK` -/
abbrev unsuback : BitVec 4 := 11#4
/-- `PINGREQ` -/
abbrev pingreq : BitVec 4 := 12#4
/-- `PINGRESP` -/
abbrev pingresp : BitVec 4 := 13#4
/-- `DISCONNECT` -/
abbrev disconnect : BitVec 4 := 14#4

/-- `MQTTPACKET_BUFFER_TOO_SHORT` -/
abbrev bufferTooShort : Int := -2

/-! ## Integers -/

/-- `writeChar` -/
def writeChar (w : Cursor (BitVec 8) n) (c : BitVec 8) :
    Except OutOfBounds (Cursor (BitVec 8) n) := w.put [c]

/-- `writeInt` -/
def writeInt (w : Cursor (BitVec 8) n) (anInt : Nat) :
    Except OutOfBounds (Cursor (BitVec 8) n) := do
  let w ← writeChar w (BitVec.ofNat 8 (anInt / 256))
  writeChar w (BitVec.ofNat 8 (anInt % 256))

/-- `readChar`, at `ptr` -/
def readChar (buf : Vector (BitVec 8) n) (ptr : Nat) : Except OutOfBounds (BitVec 8 × Nat) := do
  let c ← read buf (ptr : Int)
  .ok (c, ptr + 1)

/-- `readInt`, at `ptr` -/
def readInt (buf : Vector (BitVec 8) n) (ptr : Nat) : Except OutOfBounds (Nat × Nat) := do
  let high ← read buf (ptr : Int)
  let low ← read buf ((ptr + 1 : Nat) : Int)
  .ok (256 * high.toNat + low.toNat, ptr + 2)

/-! ## The remaining length -/

theorem nonneg_of_tdiv_pos {length : Int} (h : 0 < length.tdiv 128) : 0 ≤ length := by
  by_contra hneg
  have hdiv : 0 ≤ (-length).tdiv 128 := Int.tdiv_nonneg (by omega) (by decide)
  rw [Int.neg_tdiv] at hdiv
  omega

/-- `MQTTPacket_encode`, at the cursor -/
def mqttPacketEncode (w : Cursor (BitVec 8) n) (length : Int) :
    Except OutOfBounds (Cursor (BitVec 8) n) :=
  let d := BitVec.ofInt 8 (length.tmod 128)
  if 0 < length.tdiv 128 then
    (writeChar w (d ||| 0x80#8)).bind fun w => mqttPacketEncode w (length.tdiv 128)
  else writeChar w d
termination_by length.toNat
decreasing_by
  next hpos =>
  have hnonneg := nonneg_of_tdiv_pos hpos
  rw [Int.tdiv_eq_ediv_of_nonneg hnonneg] at hpos ⊢
  omega

/-- `MAX_NO_OF_REMAINING_LENGTH_BYTES` -/
abbrev maxNoOfRemainingLengthBytes : Nat := 4

/-- `bufchar`, with `count` 1 and `bufptr` -/
def bufchar (buf : Vector (BitVec 8) n) (bufptr : Nat) :
    Except OutOfBounds (Option (BitVec 8) × Nat) :=
  (readChar buf bufptr).map fun r => (some r.1, r.2)

/-- `MQTTPacket_decodeBuf`: the number of bytes that it asked for, and `value` -/
def mqttPacketDecodeBuf (buf : Vector (BitVec 8) n) (ptr : Nat) : Except OutOfBounds (Nat × Nat) :=
  (Varint.decode (bufchar buf) maxNoOfRemainingLengthBytes ptr 0 1 0).map fun r => (r.2.1, r.2.2.1)

/-- `MQTTPacket_len` -/
def mqttPacketLen (remLen : Int) : Int :=
  let remLen := remLen + 1
  if remLen < 128 then remLen + 1
  else if remLen < 16384 then remLen + 2
  else if remLen < 2097151 then remLen + 3
  else remLen + 4

/-! ## Strings -/

/-- `MQTTString`: a C string, without its end, and a length with the bytes that the pointer beside
it has, each of the two if it is not null -/
structure MqttString where
  cstring : Option (List (BitVec 8))
  len : Int
  data : Option (List (BitVec 8))
  deriving DecidableEq, Repr

/-- `MQTTString_initializer` -/
def MqttString.initializer : MqttString := ⟨none, 0, none⟩

/-- `MQTTstrlen` -/
def mqttStrlen (s : MqttString) : Int :=
  match s.cstring with
  | some t => t.length
  | none => s.len

/-- `writeCString` -/
def writeCString (w : Cursor (BitVec 8) n) (string : List (BitVec 8)) :
    Except OutOfBounds (Cursor (BitVec 8) n) := do
  let w ← writeInt w string.length
  w.put string

/-- The first `len` bytes that `data` points to. -/
def MqttString.bytes (s : MqttString) : Except OutOfBounds (List (BitVec 8)) :=
  let data := s.data.getD []
  if s.len ≤ data.length then .ok (data.take s.len.toNat) else .error ⟨s.len, data.length⟩

/-- `writeMQTTString` -/
def writeMqttString (w : Cursor (BitVec 8) n) (mqttstring : MqttString) :
    Except OutOfBounds (Cursor (BitVec 8) n) :=
  if 0 < mqttstring.len then do
    let w ← writeInt w mqttstring.len.toNat
    let data ← mqttstring.bytes
    w.put data
  else
    match mqttstring.cstring with
    | some t => writeCString w t
    | none => writeInt w 0

/-- `readMQTTLenString` into `s`: whether it succeeds, what it leaves in `s`, and the pointer -/
def readMqttLenString (s : MqttString) (buf : Vector (BitVec 8) n) (ptr enddata : Nat) :
    Except OutOfBounds (Bool × MqttString × Nat) :=
  if ptr + 1 < enddata then do
    let (len, ptr) ← readInt buf ptr
    if ptr + len ≤ enddata then
      let data ← slice buf ptr len
      .ok (true, ⟨none, len, some data⟩, ptr + len)
    else .ok (false, ⟨none, len, s.data⟩, ptr)
  else .ok (false, { s with cstring := none }, ptr)

/-- `MQTTPacket_equals` -/
def mqttPacketEquals (a : MqttString) (b : List (BitVec 8)) : Except OutOfBounds Bool :=
  match a.cstring with
  | some t => .ok (decide (t = b))
  | none => if a.len = b.length then (a.bytes).map fun t => decide (t = b) else .ok false

/-! ## The header and back -/

@[simp] theorem MqttHeader.ofByte_byte (o : BitOrder) (h : MqttHeader) :
    ofByte o (h.byte o) = h := by
  obtain ⟨type, dup, qos, retain⟩ := h
  cases o <;>
  · simp only [ofByte, byte, mk.injEq]
    refine ⟨?_, ?_, ?_, ?_⟩ <;>
    · ext i hi
      simp
      grind

/-! ## What is written -/

/-- An integer of two bytes. -/
def twoBytes (k : Nat) : List (BitVec 8) := [BitVec.ofNat 8 (k / 256), BitVec.ofNat 8 (k % 256)]

/-- A string with its length in front. -/
def field (t : List (BitVec 8)) : List (BitVec 8) := twoBytes t.length ++ t

@[simp] theorem length_twoBytes (k : Nat) : (twoBytes k).length = 2 := rfl

@[simp] theorem length_field (t : List (BitVec 8)) : (field t).length = 2 + t.length := by
  simp [field]

theorem writeInt_eq (w : Cursor (BitVec 8) n) (k : Nat) : writeInt w k = w.put (twoBytes k) :=
  Cursor.put_bind_put w _ _

theorem digit_or : ∀ d : Fin 128,
    BitVec.ofInt 8 (d : Int) ||| 0x80#8 = BitVec.ofNat 8 (d + 128) := by decide +kernel

theorem mqttPacketEncode_eq (w : Cursor (BitVec 8) n) (k : Nat) :
    mqttPacketEncode w (k : Int) = w.put (Varint.encode k) := by
  induction k using Nat.strong_induction_on generalizing w with
  | _ k ih =>
    have hdiv : (k : Int).tdiv 128 = ((k / 128 : Nat) : Int) := Int.ofNat_tdiv k 128
    have hmod : (k : Int).tmod 128 = ((k % 128 : Nat) : Int) := Int.ofNat_tmod k 128
    have hlt : k % 128 < 128 := Nat.mod_lt k (by decide)
    rw [mqttPacketEncode, hdiv, hmod]
    rcases Nat.lt_or_ge k 128 with hsmall | hlarge
    · rw [if_neg (by omega), Varint.encode_of_lt hsmall, Nat.mod_eq_of_lt hsmall, writeChar,
        BitVec.ofInt_natCast]
    · rw [if_pos (by omega), Varint.encode_of_le hlarge, writeChar, digit_or ⟨k % 128, hlt⟩]
      exact (congrArg _ (funext fun w => ih (k / 128) (by omega) w)).trans
        (Cursor.put_bind_put w [_] _)

/-- The string has these characters, whichever of its two parts has them. -/
def MqttString.Denotes (s : MqttString) (t : List (BitVec 8)) : Prop :=
  s.cstring = some t ∧ s.len ≤ 0 ∨
    s.cstring = none ∧ s.len = t.length ∧ (t = [] ∨ ∃ rest, s.data = some (t ++ rest))

theorem mqttStrlen_eq {s : MqttString} {t : List (BitVec 8)} (h : s.Denotes t) :
    mqttStrlen s = t.length := by
  rcases h with ⟨hc, -⟩ | ⟨hc, hlen, -⟩
  · rw [mqttStrlen, hc]
  · rw [mqttStrlen, hc, ← hlen]

theorem writeMqttString_eq {s : MqttString} {t : List (BitVec 8)} (h : s.Denotes t)
    (w : Cursor (BitVec 8) n) : writeMqttString w s = w.put (field t) := by
  rcases h with ⟨hc, hlen⟩ | ⟨hc, hlen, hdata⟩
  · rw [writeMqttString, if_neg (by omega), hc]
    show (writeInt w t.length >>= fun w => w.put t) = _
    rw [writeInt_eq, Cursor.put_bind_put, field]
  · rcases hdata with rfl | ⟨rest, hdata⟩
    · rw [writeMqttString, if_neg (by simp [hlen]), hc]
      exact writeInt_eq w 0
    · rw [writeMqttString]
      split
      · have hbytes : s.bytes = .ok t := by
          rw [MqttString.bytes, hdata, hlen]
          simp
        rw [writeInt_eq, hbytes, hlen]
        exact Cursor.put_bind_put w _ _
      · next hpos =>
        obtain rfl : t = [] := List.eq_nil_of_length_eq_zero (by omega)
        rw [hc]
        exact writeInt_eq w 0

/-! ## What is read -/

variable {buf : Vector (BitVec 8) n} {ptr : Nat}

theorem readChar_of_holdsAt {c : BitVec 8} (h : HoldsAt buf ptr [c]) :
    readChar buf ptr = .ok (c, ptr + 1) := by
  have hread : read buf ((ptr + 0 : Nat) : Int) = .ok c := h.read rfl
  rw [readChar, show (ptr : Int) = ((ptr + 0 : Nat) : Int) from rfl, hread]
  rfl

theorem readInt_of_holdsAt {k : Nat} (hk : k < 65536) (h : HoldsAt buf ptr (twoBytes k)) :
    readInt buf ptr = .ok (k, ptr + 2) := by
  have hhigh : read buf ((ptr + 0 : Nat) : Int) = .ok (BitVec.ofNat 8 (k / 256)) := h.read rfl
  have hlow : read buf ((ptr + 1 : Nat) : Int) = .ok (BitVec.ofNat 8 (k % 256)) := h.read rfl
  have hvalue : 256 * (BitVec.ofNat 8 (k / 256)).toNat + (BitVec.ofNat 8 (k % 256)).toNat = k := by
    rw [BitVec.toNat_ofNat, BitVec.toNat_ofNat]
    omega
  rw [readInt, show (ptr : Int) = ((ptr + 0 : Nat) : Int) from rfl, hhigh, ok_bind, hlow, ok_bind,
    hvalue]

/-- `bufchar` gives the bytes of the buffer. -/
theorem feeds_of_holdsAt {l : List (BitVec 8)} (h : HoldsAt buf ptr l) :
    Varint.Feeds (bufchar buf) ptr l (ptr + l.length) := by
  induction l generalizing ptr with
  | nil => exact Varint.Feeds.nil ptr
  | cons c l ih =>
    have hfirst : HoldsAt buf ptr [c] := HoldsAt.left (l := [c]) h
    have hrest : HoldsAt buf (ptr + 1) l := HoldsAt.right (l := [c]) h
    rw [List.length_cons, Nat.add_comm l.length, ← Nat.add_assoc]
    refine Varint.Feeds.cons ?_ (ih hrest)
    rw [bufchar, readChar_of_holdsAt hfirst]
    rfl

theorem mqttPacketDecodeBuf_of_holdsAt {k : Nat} (hk : k < 128 ^ 4)
    (h : HoldsAt buf ptr (Varint.encode k)) :
    mqttPacketDecodeBuf buf ptr = .ok ((Varint.encode k).length, k) := by
  have hlen : (Varint.encode k).length ≤ maxNoOfRemainingLengthBytes :=
    (Varint.length_encode_le_iff k 3).2 hk
  rw [mqttPacketDecodeBuf, Varint.decode_encode (feeds_of_holdsAt h) hlen]
  rfl

theorem readMqttLenString_of_holdsAt {t : List (BitVec 8)} (ht : t.length < 65536)
    (h : HoldsAt buf ptr (field t)) {enddata : Nat} (hend : ptr + (2 + t.length) ≤ enddata)
    (hfit : ptr + (2 + t.length) ≤ n) (s : MqttString) :
    readMqttLenString s buf ptr enddata =
      .ok (true, ⟨none, t.length, some t⟩, ptr + (2 + t.length)) := by
  have hslice := HoldsAt.slice (HoldsAt.right h) (by rw [length_twoBytes]; omega)
  rw [length_twoBytes] at hslice
  rw [readMqttLenString, if_pos (by omega), readInt_of_holdsAt ht (HoldsAt.left h), ok_bind]
  show (if ptr + 2 + t.length ≤ enddata then _ else _) = _
  rw [if_pos (by omega), hslice, ok_bind, Nat.add_assoc]

/-! ## The length of a packet -/

/-- The bytes of a packet. -/
def packetBytes (header : BitVec 8) (body : List (BitVec 8)) : List (BitVec 8) :=
  header :: (Varint.encode body.length ++ body)

theorem length_packetBytes (header : BitVec 8) (body : List (BitVec 8)) :
    (packetBytes header body).length = 1 + (Varint.encode body.length).length + body.length := by
  rw [packetBytes, List.length_cons, List.length_append]
  omega

/-- `MQTTPacket_len` counts the header to what the remaining length has to measure: it is one too
many where that makes a difference, and once more below two million. -/
theorem mqttPacketLen_eq {k : Nat} (hk : k < 128 ^ 4) :
    mqttPacketLen k = 1 + (Varint.encode k).length + k +
      if k = 127 ∨ k = 16383 ∨ k = 2097150 ∨ k = 2097151 then 1 else 0 := by
  have h0 := Varint.length_encode_pos k
  have h1 := Varint.length_encode_le_iff k 0
  have h2 := Varint.length_encode_le_iff k 1
  have h3 := Varint.length_encode_le_iff k 2
  have h4 := Varint.length_encode_le_iff k 3
  norm_num at h1 h2 h3 h4 hk
  simp only [mqttPacketLen]
  split_ifs <;> omega

end DraginoFwd.Mqtt
