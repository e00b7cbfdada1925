import DraginoFwd.Mqtt.Packet

/-!
# Messages and their acknowledgements

Model of `MQTTSerializePublish.c` and `MQTTDeserializePublish.c`. `MQTTSerialize_publish` writes the
packet `publishPacket`, and nothing behind it, or answers that the buffer is too short and leaves it
as it is; `MQTTDeserialize_publish` gets all parts of the packet back
(`mqttDeserializePublish_mqttSerializePublish`). What `MQTTDeserialize_publish` makes of a packet
that is not well formed is `mqttDeserializePublish_packet`: without a whole topic it returns the
number of bytes of the remaining length, which for a short packet is 1, though 1 is success; without
a whole identifier it finds a payload of negative length.
-/

set_option autoImplicit false

namespace DraginoFwd.Mqtt

open DraginoFwd.Lib
open DraginoFwd.Lib.Memory

variable {n : Nat}

/-! ## The code -/

/-- `MQTTSerialize_publishLength` -/
def mqttSerializePublishLength (qos : Int) (topicName : MqttString) (payloadlen : Int) : Int :=
  2 + mqttStrlen topicName + payloadlen + if 0 < qos then 2 else 0

/-- The `len` bytes that `memcpy` takes from `data`, none if `len` is negative. -/
def copied (data : List (BitVec 8)) (len : Int) : Except OutOfBounds (List (BitVec 8)) :=
  if 0 ≤ len ∧ len ≤ data.length then .ok (data.take len.toNat) else .error ⟨len, data.length⟩

/-- `MQTTSerialize_publish` -/
def mqttSerializePublish (o : BitOrder) (buf : Vector (BitVec 8) n) (buflen : Int) (dup : BitVec 8)
    (qos : Int) (retained : BitVec 8) (packetid : BitVec 16) (topicName : MqttString)
    (payload : List (BitVec 8)) (payloadlen : Int) :
    Except OutOfBounds (Int × Vector (BitVec 8) n) :=
  let remLen := mqttSerializePublishLength qos topicName payloadlen
  if buflen < mqttPacketLen remLen then .ok (bufferTooShort, buf)
  else do
    let header : MqttHeader := ⟨publish, dup.setWidth 1, BitVec.ofInt 2 qos, retained.setWidth 1⟩
    let w ← writeChar ⟨buf, 0⟩ (header.byte o)
    let w ← mqttPacketEncode w remLen
    let w ← writeMqttString w topicName
    let w ← (if 0 < qos then writeInt w packetid.toNat else .ok w)
    let bytes ← copied payload payloadlen
    let w ← w.put bytes
    .ok ((w.ptr : Int), w.buf)

/-- `MQTTSerialize_ack` -/
def mqttSerializeAck (o : BitOrder) (buf : Vector (BitVec 8) n) (buflen : Int)
    (packettype dup : BitVec 8) (packetid : BitVec 16) :
    Except OutOfBounds (Int × Vector (BitVec 8) n) :=
  if buflen < 4 then .ok (bufferTooShort, buf)
  else do
    let header : MqttHeader :=
      ⟨packettype.setWidth 4, dup.setWidth 1,
        if packettype = pubrel.setWidth 8 then 1#2 else 0#2, 0#1⟩
    let w ← writeChar ⟨buf, 0⟩ (header.byte o)
    let w ← mqttPacketEncode w 2
    let w ← writeInt w packetid.toNat
    .ok ((w.ptr : Int), w.buf)

/-- `MQTTSerialize_puback` -/
def mqttSerializePuback (o : BitOrder) (buf : Vector (BitVec 8) n) (buflen : Int)
    (packetid : BitVec 16) := mqttSerializeAck o buf buflen (puback.setWidth 8) 0#8 packetid

/-- `MQTTSerialize_pubrel` -/
def mqttSerializePubrel (o : BitOrder) (buf : Vector (BitVec 8) n) (buflen : Int) (dup : BitVec 8)
    (packetid : BitVec 16) := mqttSerializeAck o buf buflen (pubrel.setWidth 8) dup packetid

/-- `MQTTSerialize_pubcomp` -/
def mqttSerializePubcomp (o : BitOrder) (buf : Vector (BitVec 8) n) (buflen : Int)
    (packetid : BitVec 16) := mqttSerializeAck o buf buflen (pubcomp.setWidth 8) 0#8 packetid

/-- What `MQTTDeserialize_publish` stores: `payload` is the place in the buffer that it points
to. -/
structure PublishData where
  dup : BitVec 8
  qos : Nat
  retained : BitVec 8
  packetid : BitVec 16
  topicName : MqttString
  payload : Nat
  payloadlen : Int
  deriving DecidableEq, Repr

/-- `MQTTDeserialize_publish`, over what its results held before; it does not look at `buflen`. -/
def mqttDeserializePublish (o : BitOrder) (d : PublishData) (buf : Vector (BitVec 8) n) :
    Except OutOfBounds (Int × PublishData) := do
  let (c, curdata) ← readChar buf 0
  let header := MqttHeader.ofByte o c
  if header.type ≠ publish then .ok (0, d)
  else
    let d := { d with
      dup := header.dup.setWidth 8
      qos := header.qos.toNat
      retained := header.retain.setWidth 8 }
    let (rc, mylen) ← mqttPacketDecodeBuf buf curdata
    let curdata := curdata + rc
    let enddata := curdata + mylen
    let (found, topicName, curdata) ← readMqttLenString d.topicName buf curdata enddata
    let d := { d with topicName := topicName }
    if !found ∨ enddata < curdata then .ok ((rc : Int), d)
    else if 0 < d.qos then
      let (packetid, curdata) ← readInt buf curdata
      .ok (1, { d with
        packetid := BitVec.ofNat 16 packetid
        payload := curdata
        payloadlen := (enddata : Int) - curdata })
    else .ok (1, { d with payload := curdata, payloadlen := (enddata : Int) - curdata })

/-- What `MQTTDeserialize_ack` stores. -/
structure AckData where
  packettype : BitVec 8
  dup : BitVec 8
  packetid : BitVec 16
  deriving DecidableEq, Repr

/-- `MQTTDeserialize_ack`, over what its results held before -/
def mqttDeserializeAck (o : BitOrder) (d : AckData) (buf : Vector (BitVec 8) n) :
    Except OutOfBounds (Int × AckData) := do
  let (c, curdata) ← readChar buf 0
  let header := MqttHeader.ofByte o c
  let d := { d with dup := header.dup.setWidth 8, packettype := header.type.setWidth 8 }
  let (rc, mylen) ← mqttPacketDecodeBuf buf curdata
  let curdata := curdata + rc
  if mylen < 2 then .ok ((rc : Int), d)
  else
    let (packetid, _) ← readInt buf curdata
    .ok (1, { d with packetid := BitVec.ofNat 16 packetid })

/-! ## The packets -/

/-- What stands behind the remaining length of a message. -/
def publishBody (qos : Nat) (packetid : BitVec 16) (topic payload : List (BitVec 8)) :
    List (BitVec 8) :=
  field topic ++ (if 0 < qos then twoBytes packetid.toNat else []) ++ payload

/-- The header of a message. -/
def publishHeader (dup : BitVec 8) (qos : Nat) (retained : BitVec 8) : MqttHeader :=
  ⟨publish, dup.setWidth 1, BitVec.ofNat 2 qos, retained.setWidth 1⟩

/-- A message. -/
def publishPacket (o : BitOrder) (dup : BitVec 8) (qos : Nat) (retained : BitVec 8)
    (packetid : BitVec 16) (topic payload : List (BitVec 8)) : List (BitVec 8) :=
  packetBytes ((publishHeader dup qos retained).byte o) (publishBody qos packetid topic payload)

theorem length_publishBody (qos : Nat) (packetid : BitVec 16) (topic payload : List (BitVec 8)) :
    (publishBody qos packetid topic payload).length =
      2 + topic.length + payload.length + if 0 < qos then 2 else 0 := by
  rw [publishBody, List.length_append, List.length_append, length_field]
  split <;> simp
  omega

/-! ## Writing -/

section Write

variable {s : MqttString} {topic : List (BitVec 8)}

theorem mqttSerializePublishLength_eq (h : s.Denotes topic) (qos : Nat) (packetid : BitVec 16)
    (payload : List (BitVec 8)) :
    mqttSerializePublishLength qos s payload.length =
      (publishBody qos packetid topic payload).length := by
  rw [mqttSerializePublishLength, mqttStrlen_eq h, length_publishBody]
  split <;> split <;> omega

theorem copied_eq (payload rest : List (BitVec 8)) :
    copied (payload ++ rest) payload.length = .ok payload := by
  rw [copied, if_pos ⟨by omega, by simp⟩, Int.toNat_natCast, List.take_left' rfl]

/-- What is left of a cursor when the code returns. -/
def done (w : Cursor (BitVec 8) n) : Except OutOfBounds (Int × Vector (BitVec 8) n) :=
  .ok ((w.ptr : Int), w.buf)

/-- The parts of a message are written one behind the other. -/
theorem mqttSerializePublish_eq (o : BitOrder) (buf : Vector (BitVec 8) n) (buflen : Int)
    (dup : BitVec 8) (qos : Nat) (retained : BitVec 8) (packetid : BitVec 16) (h : s.Denotes topic)
    (payload rest : List (BitVec 8))
    (hroom : mqttPacketLen (publishBody qos packetid topic payload).length ≤ buflen) :
    mqttSerializePublish o buf buflen dup qos retained packetid s (payload ++ rest) payload.length =
      Cursor.put ⟨buf, 0⟩ (publishPacket o dup qos retained packetid topic payload) >>= done := by
  have hid : ∀ w : Cursor (BitVec 8) n,
    (if 0 < (qos : Int) then writeInt w packetid.toNat else .ok w) =
      w.put (if 0 < qos then twoBytes packetid.toNat else []) := by
    intro w
    by_cases hqos : 0 < qos
    · rw [if_pos (by omega), if_pos hqos, writeInt_eq]
    · rw [if_neg (by omega), if_neg hqos]
      rfl
  rw [mqttSerializePublish, mqttSerializePublishLength_eq h qos packetid payload,
    if_neg (Int.not_lt.2 hroom)]
  simp only [writeChar, mqttPacketEncode_eq, writeMqttString_eq h, hid, copied_eq, ok_bind,
    Cursor.put_bind_put_bind, BitVec.ofInt_natCast]
  rw [publishPacket, packetBytes, publishBody, publishHeader]
  simp only [List.cons_append, List.nil_append, List.append_assoc]
  rfl

end Write

/-! ## Reading -/

section Read

variable {o : BitOrder} {header : BitVec 8} {body : List (BitVec 8)} {buf : Vector (BitVec 8) n}

/-- Where the body of a packet begins. -/
def bodyStart (body : List (BitVec 8)) : Nat := 1 + (Varint.encode body.length).length

/-- The header, the remaining length and the body of a packet at the front of a buffer. -/
theorem holdsAt_packet (h : HoldsAt buf 0 (packetBytes header body)) :
    HoldsAt buf 0 [header] ∧ HoldsAt buf 1 (Varint.encode body.length) ∧
      HoldsAt buf (bodyStart body) body := by
  have hrest : HoldsAt buf 1 (Varint.encode body.length ++ body) := HoldsAt.right (l := [header]) h
  exact ⟨HoldsAt.left (l := [header]) h, hrest.left, hrest.right⟩

theorem fits_of_holdsAt {l : List (BitVec 8)} {i : Nat} (h : HoldsAt buf i l) (hne : l ≠ []) :
    i + l.length ≤ n := by
  have hlen := congrArg List.length h
  rw [List.length_take, List.length_drop, Vector.length_toList] at hlen
  have hpos := List.length_pos_iff.2 hne
  omega

/-- `MQTTDeserialize_publish` up to the topic. -/
theorem mqttDeserializePublish_header (h : HoldsAt buf 0 (packetBytes header body))
    (htype : (MqttHeader.ofByte o header).type = publish) (hlen : body.length < 128 ^ 4)
    (d : PublishData) :
    mqttDeserializePublish o d buf = (do
      let head := MqttHeader.ofByte o header
      let d := { d with
        dup := head.dup.setWidth 8
        qos := head.qos.toNat
        retained := head.retain.setWidth 8 }
      let enddata := bodyStart body + body.length
      let (found, topicName, curdata) ← readMqttLenString d.topicName buf (bodyStart body) enddata
      let d := { d with topicName := topicName }
      if !found ∨ enddata < curdata then .ok ((Varint.encode body.length).length, d)
      else if 0 < d.qos then
        let (packetid, curdata) ← readInt buf curdata
        .ok (1, { d with
          packetid := BitVec.ofNat 16 packetid
          payload := curdata
          payloadlen := (enddata : Int) - curdata })
      else .ok (1, { d with payload := curdata, payloadlen := (enddata : Int) - curdata })) := by
  obtain ⟨hheader, hlength, -⟩ := holdsAt_packet h
  rw [mqttDeserializePublish, readChar_of_holdsAt hheader, ok_bind]
  simp only [htype, ne_eq, not_true_eq_false, if_false]
  rw [mqttPacketDecodeBuf_of_holdsAt hlen hlength, ok_bind]
  rfl

/-- What stands in front of the payload in the results. -/
def PublishData.withHeader (d : PublishData) (head : MqttHeader) (topicName : MqttString) :
    PublishData :=
  { d with
    dup := head.dup.setWidth 8
    qos := head.qos.toNat
    retained := head.retain.setWidth 8
    topicName := topicName }

/-- `MQTTDeserialize_publish` from the end of a topic that it has found. -/
theorem mqttDeserializePublish_topic {topic tail : List (BitVec 8)}
    (h : HoldsAt buf 0 (packetBytes header (field topic ++ tail)))
    (htype : (MqttHeader.ofByte o header).type = publish)
    (hlen : (field topic ++ tail).length < 128 ^ 4) (htopic : topic.length < 65536)
    (d : PublishData) :
    mqttDeserializePublish o d buf = (
      let d := d.withHeader (MqttHeader.ofByte o header) ⟨none, topic.length, some topic⟩
      let curdata := bodyStart (field topic ++ tail) + (2 + topic.length)
      if 0 < d.qos then do
        let (packetid, _) ← readInt buf curdata
        .ok (1, { d with
          packetid := BitVec.ofNat 16 packetid
          payload := curdata + 2
          payloadlen := (tail.length : Int) - 2 })
      else .ok (1, { d with payload := curdata, payloadlen := tail.length })) := by
  obtain ⟨-, -, hbody⟩ := holdsAt_packet h
  have hfit := fits_of_holdsAt hbody (by simp [field, twoBytes])
  rw [List.length_append, length_field] at hfit
  rw [mqttDeserializePublish_header h htype hlen]
  simp only []
  rw [readMqttLenString_of_holdsAt htopic hbody.left
    (by rw [List.length_append, length_field]; omega)
    (by omega), ok_bind]
  have hlast : ¬ bodyStart (field topic ++ tail) + (field topic ++ tail).length <
      bodyStart (field topic ++ tail) + (2 + topic.length) := by
    rw [List.length_append, length_field]
    omega
  have hlength : ((bodyStart (field topic ++ tail) + (field topic ++ tail).length : Nat) : Int) -
      ((bodyStart (field topic ++ tail) + (2 + topic.length) : Nat) : Int) = tail.length := by
    rw [List.length_append, length_field]
    omega
  simp only [hlast, hlength, Bool.not_true, Bool.false_eq_true, or_self, if_false,
    PublishData.withHeader]
  by_cases hqos : 0 < (MqttHeader.ofByte o header).qos.toNat
  · simp only [hqos, if_true]
    cases hid : readInt buf (bodyStart (field topic ++ tail) + (2 + topic.length)) with
    | error e => rfl
    | ok r =>
      obtain ⟨id, ptr⟩ := r
      obtain rfl : ptr = bodyStart (field topic ++ tail) + (2 + topic.length) + 2 := by
        obtain ⟨high, -, hnext⟩ := bind_eq_ok.1 hid
        obtain ⟨low, -, hresult⟩ := bind_eq_ok.1 hnext
        cases hresult
        rfl
      have hless : ((bodyStart (field topic ++ tail) + (field topic ++ tail).length : Nat) : Int) -
          ((bodyStart (field topic ++ tail) + (2 + topic.length) + 2 : Nat) : Int) =
            tail.length - 2 := by
        omega
      simp only [ok_bind, hless]
  · simp only [hqos, if_false]

/-- A packet that is well formed. -/
theorem mqttDeserializePublish_wellFormed {packetid : BitVec 16} {topic payload : List (BitVec 8)}
    (htype : (MqttHeader.ofByte o header).type = publish)
    (hbody : body = publishBody (MqttHeader.ofByte o header).qos.toNat packetid topic payload)
    (h : HoldsAt buf 0 (packetBytes header body)) (hlen : body.length < 128 ^ 4)
    (htopic : topic.length < 65536) (d : PublishData) :
    mqttDeserializePublish o d buf = .ok (1, {
      d.withHeader (MqttHeader.ofByte o header) ⟨none, topic.length, some topic⟩ with
      packetid := if 0 < (MqttHeader.ofByte o header).qos.toNat then packetid else d.packetid
      payload := bodyStart body + body.length - payload.length
      payloadlen := payload.length }) ∧
    HoldsAt buf (bodyStart body + body.length - payload.length) payload := by
  obtain ⟨-, -, hat⟩ := holdsAt_packet h
  by_cases hqos : 0 < (MqttHeader.ofByte o header).qos.toNat
  · -- the identifier stands between the topic and the payload
    rw [publishBody, if_pos hqos, List.append_assoc] at hbody
    subst hbody
    have hid := hat.right.left
    have hpayload := hat.right.right
    rw [length_field] at hid hpayload
    rw [length_twoBytes] at hpayload
    have hplace : bodyStart (field topic ++ (twoBytes packetid.toNat ++ payload)) +
        (field topic ++ (twoBytes packetid.toNat ++ payload)).length - payload.length =
          bodyStart (field topic ++ (twoBytes packetid.toNat ++ payload)) +
            (2 + topic.length) + 2 := by
      rw [List.length_append, List.length_append, length_field, length_twoBytes]
      omega
    refine ⟨?_, hplace ▸ hpayload⟩
    rw [mqttDeserializePublish_topic h htype hlen htopic, hplace]
    simp only [PublishData.withHeader, hqos, if_true]
    rw [readInt_of_holdsAt packetid.isLt hid, ok_bind]
    simp only [BitVec.ofNat_toNat, BitVec.setWidth_eq, List.length_append, length_twoBytes]
    congr 3
    omega
  · rw [publishBody, if_neg hqos, List.append_nil] at hbody
    subst hbody
    have hpayload := hat.right
    rw [length_field] at hpayload
    have hplace : bodyStart (field topic ++ payload) + (field topic ++ payload).length -
        payload.length = bodyStart (field topic ++ payload) + (2 + topic.length) := by
      rw [List.length_append, length_field]
      omega
    refine ⟨?_, hplace ▸ hpayload⟩
    rw [mqttDeserializePublish_topic h htype hlen htopic, hplace]
    simp only [PublishData.withHeader, hqos, if_false]

/-- A string with its length, at the front of what follows it. -/
theorem field_of_le {b0 b1 : BitVec 8} {rest : List (BitVec 8)}
    (h : 256 * b0.toNat + b1.toNat ≤ rest.length) :
    b0 :: b1 :: rest = field (rest.take (256 * b0.toNat + b1.toNat)) ++
      rest.drop (256 * b0.toNat + b1.toNat) := by
  have h0 : (256 * b0.toNat + b1.toNat) / 256 = b0.toNat := by omega
  have h1 : (256 * b0.toNat + b1.toNat) % 256 = b1.toNat := by omega
  rw [field, List.length_take_of_le h, twoBytes, h0, h1]
  simp

theorem twoBytes_inj {k k' : Nat} (hk : k < 65536) (hk' : k' < 65536)
    (h : twoBytes k = twoBytes k') : k = k' := by
  simp only [twoBytes, List.cons.injEq, and_true] at h
  have hhigh := congrArg BitVec.toNat h.1
  have hlow := congrArg BitVec.toNat h.2
  rw [BitVec.toNat_ofNat, BitVec.toNat_ofNat] at hhigh hlow
  omega

/-- Strings with their lengths are told apart from what follows them. -/
theorem field_append_inj {t t' tail tail' : List (BitVec 8)} (ht : t.length < 65536)
    (ht' : t'.length < 65536) (h : field t ++ tail = field t' ++ tail') :
    t = t' ∧ tail = tail' := by
  rw [field, field, List.append_assoc, List.append_assoc] at h
  obtain ⟨hlength, hrest⟩ := List.append_inj h rfl
  exact List.append_inj hrest (twoBytes_inj ht ht' hlength)

theorem exists_twoBytes {l : List (BitVec 8)} (h : 2 ≤ l.length) :
    ∃ id : BitVec 16, l.take 2 = twoBytes id.toNat := by
  match l, h with
  | b0 :: b1 :: l, _ =>
    have h0 : b0.toNat < 256 := b0.isLt
    have h1 : b1.toNat < 256 := b1.isLt
    refine ⟨BitVec.ofNat 16 (256 * b0.toNat + b1.toNat), ?_⟩
    rw [BitVec.toNat_ofNat, Nat.mod_eq_of_lt (by omega), twoBytes,
      show (256 * b0.toNat + b1.toNat) / 256 = b0.toNat by omega,
      show (256 * b0.toNat + b1.toNat) % 256 = b1.toNat by omega]
    simp

/-- A packet without a whole topic. -/
theorem mqttDeserializePublish_noTopic (htype : (MqttHeader.ofByte o header).type = publish)
    (h : HoldsAt buf 0 (packetBytes header body)) (hlen : body.length < 128 ^ 4)
    (hno : ∀ topic tail, topic.length < 65536 → body ≠ field topic ++ tail) (d : PublishData) :
    ∃ len, mqttDeserializePublish o d buf = .ok ((Varint.encode body.length).length,
      d.withHeader (MqttHeader.ofByte o header) ⟨none, len, d.topicName.data⟩) := by
  obtain ⟨-, -, hat⟩ := holdsAt_packet h
  rw [mqttDeserializePublish_header h htype hlen]
  simp only [readMqttLenString]
  rcases body with _ | ⟨b0, _ | ⟨b1, rest⟩⟩
  · rw [if_neg (by simp)]
    exact ⟨d.topicName.len, rfl⟩
  · rw [if_neg (by simp)]
    exact ⟨d.topicName.len, rfl⟩
  · have h0 : b0.toNat < 256 := b0.isLt
    have h1 : b1.toNat < 256 := b1.isLt
    have hshort : rest.length < 256 * b0.toNat + b1.toNat := by
      by_contra hle
      have hfits := Nat.le_of_not_lt hle
      refine hno _ _ ?_ (field_of_le hfits)
      rw [List.length_take_of_le hfits]
      omega
    have hread : readInt buf (bodyStart (b0 :: b1 :: rest)) =
        .ok (256 * b0.toNat + b1.toNat, bodyStart (b0 :: b1 :: rest) + 2) := by
      refine readInt_of_holdsAt (by omega) ?_
      have hfront : HoldsAt buf (bodyStart (b0 :: b1 :: rest)) [b0, b1] :=
        HoldsAt.left (l := [b0, b1]) hat
      have hdigits : twoBytes (256 * b0.toNat + b1.toNat) = [b0, b1] := by
        rw [twoBytes, show (256 * b0.toNat + b1.toNat) / 256 = b0.toNat by omega,
          show (256 * b0.toNat + b1.toNat) % 256 = b1.toNat by omega]
        simp
      rwa [hdigits]
    rw [if_pos (by simp), hread]
    simp only [ok_bind]
    rw [if_neg (by rw [List.length_cons, List.length_cons]; omega)]
    exact ⟨((256 * b0.toNat + b1.toNat : Nat) : Int), rfl⟩

/-- **A message is read as that message, and a packet that is none is told by its payload**: its
length is negative, or it is as it was, with the number of bytes of the remaining length for the
result. -/
theorem mqttDeserializePublish_packet (htype : (MqttHeader.ofByte o header).type = publish)
    (h : HoldsAt buf 0 (packetBytes header body)) (hlen : body.length < 128 ^ 4)
    (hroom : bodyStart body + body.length + 2 ≤ n) (d : PublishData) :
    ∃ rc d', mqttDeserializePublish o d buf = .ok (rc, d') ∧
      ((∃ packetid topic payload, topic.length < 65536 ∧
          body = publishBody (MqttHeader.ofByte o header).qos.toNat packetid topic payload ∧
          rc = 1 ∧ d' = {
            dup := (MqttHeader.ofByte o header).dup.setWidth 8
            qos := (MqttHeader.ofByte o header).qos.toNat
            retained := (MqttHeader.ofByte o header).retain.setWidth 8
            packetid := if 0 < (MqttHeader.ofByte o header).qos.toNat then packetid else d.packetid
            topicName := ⟨none, topic.length, some topic⟩
            payload := bodyStart body + body.length - payload.length
            payloadlen := payload.length } ∧
          HoldsAt buf d'.payload payload) ∨
        (∀ packetid topic payload, topic.length < 65536 →
          body ≠ publishBody (MqttHeader.ofByte o header).qos.toNat packetid topic payload) ∧
        (rc = 1 ∧ d'.payloadlen < 0 ∨
          rc = (Varint.encode body.length).length ∧ d'.payload = d.payload ∧
            d'.payloadlen = d.payloadlen ∧ d'.topicName.data = d.topicName.data)) := by
  by_cases hfield : ∃ topic tail, topic.length < 65536 ∧ body = field topic ++ tail
  · obtain ⟨topic, tail, htopic, rfl⟩ := hfield
    by_cases hqos : 0 < (MqttHeader.ofByte o header).qos.toNat
    · rcases Nat.lt_or_ge tail.length 2 with hshort | hlong
      · -- the identifier is read from behind the packet
        have hread : ∃ r, readInt buf (bodyStart (field topic ++ tail) + (2 + topic.length)) =
            .ok r := by
          rw [List.length_append, length_field] at hroom
          rw [readInt, read_get buf (by omega), ok_bind, read_get buf (by omega), ok_bind]
          exact ⟨_, rfl⟩
        obtain ⟨r, hread⟩ := hread
        rw [mqttDeserializePublish_topic h htype hlen htopic]
        simp only [PublishData.withHeader, hqos, if_true, hread, ok_bind]
        refine ⟨_, _, rfl, .inr ⟨?_, .inl ⟨rfl, ?_⟩⟩⟩
        · intro packetid topic' payload htopic' heq
          rw [publishBody, if_pos hqos, List.append_assoc] at heq
          have htails := congrArg List.length (field_append_inj htopic htopic' heq).2
          rw [List.length_append, length_twoBytes] at htails
          omega
        · show (tail.length : Int) - 2 < 0
          omega
      · obtain ⟨packetid, hid⟩ := exists_twoBytes hlong
        have hbody : field topic ++ tail =
          publishBody (MqttHeader.ofByte o header).qos.toNat packetid
            topic (tail.drop 2) := by
          rw [publishBody, if_pos hqos, List.append_assoc, ← hid, List.take_append_drop]
        obtain ⟨hresult, hpayload⟩ := mqttDeserializePublish_wellFormed htype hbody h hlen htopic d
        exact ⟨_, _, hresult,
          .inl ⟨packetid, topic, tail.drop 2, htopic, hbody, rfl, rfl, hpayload⟩⟩
    · have hbody : field topic ++ tail = publishBody (MqttHeader.ofByte o header).qos.toNat 0#16
          topic tail := by
        rw [publishBody, if_neg hqos, List.append_nil]
      obtain ⟨hresult, hpayload⟩ := mqttDeserializePublish_wellFormed htype hbody h hlen htopic d
      exact ⟨_, _, hresult, .inl ⟨0#16, topic, tail, htopic, hbody, rfl, rfl, hpayload⟩⟩
  · have hno : ∀ topic tail, topic.length < 65536 → body ≠ field topic ++ tail :=
      fun topic tail htopic heq => hfield ⟨topic, tail, htopic, heq⟩
    obtain ⟨len, hresult⟩ := mqttDeserializePublish_noTopic htype h hlen hno d
    refine ⟨_, _, hresult, .inr ⟨?_, .inr ⟨rfl, rfl, rfl, rfl⟩⟩⟩
    intro packetid topic payload htopic heq
    rw [publishBody, List.append_assoc] at heq
    exact hno topic _ htopic heq

/-- What `MQTTDeserialize_publish` stores into, before its first call. -/
def noMessage : PublishData := ⟨0#8, 0, 0#8, 0#16, .initializer, 0, 0⟩

/-- The message `*` under the topic `a`, at level 1 with the identifier 7, and two bytes behind
it. -/
def wholeMessage : Vector (BitVec 8) 10 :=
  #v[0x32#8, 6#8, 0#8, 1#8, 0x61#8, 0#8, 7#8, 0x2A#8, 0#8, 0#8]

/-- A packet in which half of the identifier is missing. -/
def cutMessage : Vector (BitVec 8) 8 := #v[0x32#8, 4#8, 0#8, 1#8, 0x61#8, 7#8, 0#8, 0#8]

theorem mqttDeserializePublish_packet_two :
    (∃ packetid topic payload, [0#8, 1#8, 0x61#8, 0#8, 7#8, 0x2A#8] =
        publishBody 1 packetid topic payload ∧
      mqttDeserializePublish .top noMessage wholeMessage =
        .ok (1, ⟨0#8, 1, 0#8, packetid, ⟨none, topic.length, some topic⟩, 7, payload.length⟩)) ∧
    mqttDeserializePublish .top noMessage cutMessage =
      .ok (1, ⟨0#8, 1, 0#8, 0x0700#16, ⟨none, 1, some [0x61#8]⟩, 7, -1⟩) ∧
    ∀ packetid topic payload, topic.length < 65536 →
      [0#8, 1#8, 0x61#8, 7#8] ≠ publishBody 1 packetid topic payload := by
  have htype : (MqttHeader.ofByte .top 0x32#8).type = publish := by decide
  have hqos : (MqttHeader.ofByte .top 0x32#8).qos.toNat = 1 := by decide
  constructor
  · have hholds : HoldsAt wholeMessage 0
        (packetBytes 0x32#8 [0#8, 1#8, 0x61#8, 0#8, 7#8, 0x2A#8]) := by
      rw [packetBytes, Varint.encode_of_lt (by decide)]
      rfl
    obtain ⟨rc, d', hrun, hcases⟩ := mqttDeserializePublish_packet htype hholds (by decide)
      (by rw [bodyStart, Varint.encode_of_lt (by decide)]; decide) noMessage
    have hwhole : mqttDeserializePublish .top noMessage wholeMessage =
        .ok (1, ⟨0#8, 1, 0#8, 7#16, ⟨none, 1, some [0x61#8]⟩, 7, 1⟩) := by decide +kernel
    obtain ⟨rfl, rfl⟩ : rc = 1 ∧ d' = _ := by simpa using (hrun.symm.trans hwhole)
    rcases hcases with
      ⟨packetid, topic, payload, -, hbody, -, hd, -⟩ | ⟨-, ⟨-, hneg⟩ | ⟨-, hplace, -⟩⟩
    · rw [hqos] at hbody
      have hid : 7#16 = packetid := by simpa [hqos] using congrArg PublishData.packetid hd
      have htopic : (⟨none, 1, some [0x61#8]⟩ : MqttString) = ⟨none, topic.length, some topic⟩ :=
        congrArg PublishData.topicName hd
      have hlength : (1 : Int) = payload.length := congrArg PublishData.payloadlen hd
      exact ⟨packetid, topic, payload, hbody, by rw [hwhole, hid, htopic, hlength]⟩
    · exact absurd hneg (by decide)
    · exact absurd hplace (by decide)
  · have hholds : HoldsAt cutMessage 0 (packetBytes 0x32#8 [0#8, 1#8, 0x61#8, 7#8]) := by
      rw [packetBytes, Varint.encode_of_lt (by decide)]
      rfl
    obtain ⟨rc, d', hrun, hcases⟩ := mqttDeserializePublish_packet htype hholds (by decide)
      (by rw [bodyStart, Varint.encode_of_lt (by decide)]; decide) noMessage
    have hcut : mqttDeserializePublish .top noMessage cutMessage =
        .ok (1, ⟨0#8, 1, 0#8, 0x0700#16, ⟨none, 1, some [0x61#8]⟩, 7, -1⟩) := by decide +kernel
    refine ⟨hcut, ?_⟩
    obtain ⟨rfl, rfl⟩ : rc = 1 ∧ d' = _ := by simpa using (hrun.symm.trans hcut)
    rcases hcases with ⟨packetid, topic, payload, -, -, -, hd, -⟩ | ⟨hnone, -⟩
    · have hlen := congrArg PublishData.payloadlen hd
      have hneg : (payload.length : Int) = -1 := hlen.symm
      omega
    · rwa [hqos] at hnone

end Read

/-! ## There and back -/

/-- **A message is read as it was written**, and what stood behind it in the buffer is left. The
buffer is too short, and stays as it is, where `MQTTPacket_len` says so. -/
theorem mqttDeserializePublish_mqttSerializePublish (o : BitOrder) (buf : Vector (BitVec 8) n)
    {buflen : Nat} (hbuf : buflen ≤ n) (dup : BitVec 8) {qos : Nat} (hqos : qos < 4)
    (retained : BitVec 8) (packetid : BitVec 16) {s : MqttString} {topic : List (BitVec 8)}
    (hs : s.Denotes topic) (htopic : topic.length < 65536) (payload rest : List (BitVec 8))
    (hlen : (publishBody qos packetid topic payload).length < 128 ^ 4) :
    let packet := publishPacket o dup qos retained packetid topic payload
    let result :=
      mqttSerializePublish o buf buflen dup qos retained packetid s (payload ++ rest) payload.length
    (buflen < mqttPacketLen (publishBody qos packetid topic payload).length →
      result = .ok (bufferTooShort, buf)) ∧
    (mqttPacketLen (publishBody qos packetid topic payload).length ≤ buflen →
      ∃ buf', result = .ok ((packet.length : Int), buf') ∧
        buf'.toList = packet ++ buf.toList.drop packet.length ∧
        HoldsAt buf' (packet.length - payload.length) payload ∧
        ∀ d, mqttDeserializePublish o d buf' = .ok (1, {
          dup := (dup.setWidth 1).setWidth 8
          qos := qos
          retained := (retained.setWidth 1).setWidth 8
          packetid := if 0 < qos then packetid else d.packetid
          topicName := ⟨none, topic.length, some topic⟩
          payload := packet.length - payload.length
          payloadlen := payload.length })) := by
  intro packet result
  constructor
  · intro hshort
    show mqttSerializePublish o buf buflen dup qos retained packetid s _ _ = _
    rw [mqttSerializePublish, mqttSerializePublishLength_eq hs qos packetid payload, if_pos hshort]
  · intro hroom
    have hpacket : packet.length = bodyStart (publishBody qos packetid topic payload) +
        (publishBody qos packetid topic payload).length := length_packetBytes _ _
    have hfit : (0 : Nat) + packet.length ≤ n := by
      have hmeasure := mqttPacketLen_eq hlen
      rw [hpacket, bodyStart]
      omega
    obtain ⟨buf', hput, hlist⟩ := Cursor.put_spec ⟨buf, 0⟩ hfit
    have hholds : HoldsAt buf' 0 packet := copy_self (Cursor.put_ok hput).1 hfit
    have hhead : MqttHeader.ofByte o ((publishHeader dup qos retained).byte o) =
        publishHeader dup qos retained := MqttHeader.ofByte_byte o _
    have hbits : (publishHeader dup qos retained).qos.toNat = qos := by
      rw [publishHeader, BitVec.toNat_ofNat]
      exact Nat.mod_eq_of_lt hqos
    have hbody : publishBody qos packetid topic payload =
        publishBody
          (MqttHeader.ofByte o ((publishHeader dup qos retained).byte o)).qos.toNat packetid
          topic payload := by rw [hhead, hbits]
    have hread := mqttDeserializePublish_wellFormed (by rw [hhead]; rfl) hbody hholds hlen htopic
    rw [hhead, hbits, ← hpacket] at hread
    refine ⟨buf', ?_, ?_, (hread ⟨0, 0, 0, 0, .initializer, 0, 0⟩).2, ?_⟩
    · show mqttSerializePublish o buf buflen dup qos retained packetid s _ _ = _
      rw [mqttSerializePublish_eq o buf buflen dup qos retained packetid hs payload rest
        hroom, hput,
        ok_bind, done, Nat.zero_add]
    · rw [hlist, List.take_zero, List.nil_append, Nat.zero_add]
    · intro d
      rw [(hread d).1, PublishData.withHeader, hbits]
      rfl

/-- The message `*` under the topic `a`, at level 1, in a buffer of sixteen bytes. -/
theorem mqttDeserializePublish_mqttSerializePublish_one :
    let packet := publishPacket .top 0#8 1 0#8 7#16 [0x61#8] [0x2A#8]
    ∃ buf', mqttSerializePublish .top (Vector.replicate 16 0#8) (16 : Nat) 0#8 (1 : Nat) 0#8 7#16
        ⟨some [0x61#8], 0, none⟩ ([0x2A#8] ++ []) ([0x2A#8] : List (BitVec 8)).length =
          .ok ((packet.length : Int), buf') ∧
      buf'.toList = packet ++ (Vector.replicate 16 0#8).toList.drop packet.length ∧
      HoldsAt buf' (packet.length - 1) [0x2A#8] ∧
      ∀ d, mqttDeserializePublish .top d buf' = .ok (1, {
        dup := (0#8).setWidth 1 |>.setWidth 8
        qos := 1
        retained := (0#8).setWidth 1 |>.setWidth 8
        packetid := if 0 < 1 then 7#16 else d.packetid
        topicName := ⟨none, 1, some [0x61#8]⟩
        payload := packet.length - 1
        payloadlen := 1 }) :=
  (mqttDeserializePublish_mqttSerializePublish .top (Vector.replicate 16 0#8) (by decide) 0#8
    (by decide) 0#8 7#16 (.inl ⟨rfl, by decide⟩) (by decide) [0x2A#8] [] (by decide)).2 (by decide)

/-! ## Acknowledgements -/

/-- An acknowledgement. -/
def ackPacket (o : BitOrder) (packettype dup : BitVec 8) (packetid : BitVec 16) : List (BitVec 8) :=
  packetBytes (MqttHeader.byte o ⟨packettype.setWidth 4, dup.setWidth 1,
    if packettype = pubrel.setWidth 8 then 1#2 else 0#2, 0#1⟩) (twoBytes packetid.toNat)

theorem length_ackPacket (o : BitOrder) (packettype dup : BitVec 8) (packetid : BitVec 16) :
    (ackPacket o packettype dup packetid).length = 4 := by
  rw [ackPacket, length_packetBytes, length_twoBytes, Varint.encode_of_lt (by decide)]
  rfl

theorem mqttSerializeAck_eq (o : BitOrder) (buf : Vector (BitVec 8) n) {buflen : Nat}
    (hroom : 4 ≤ buflen) (hbuf : buflen ≤ n) (packettype dup : BitVec 8) (packetid : BitVec 16) :
    ∃ buf', mqttSerializeAck o buf buflen packettype dup packetid = .ok (4, buf') ∧
      buf'.toList = ackPacket o packettype dup packetid ++ buf.toList.drop 4 := by
  have hfour := length_ackPacket o packettype dup packetid
  obtain ⟨buf', hput, hlist⟩ :=
    Cursor.put_spec ⟨buf, 0⟩ (l := ackPacket o packettype dup packetid) (by
      show 0 + (ackPacket o packettype dup packetid).length ≤ n
      omega)
  refine ⟨buf', ?_, ?_⟩
  · have htwo : ∀ w : Cursor (BitVec 8) n, mqttPacketEncode w 2 =
        w.put (Varint.encode (twoBytes packetid.toNat).length) := fun w => mqttPacketEncode_eq w 2
    rw [mqttSerializeAck, if_neg (by omega)]
    simp only [writeChar, htwo, writeInt_eq, Cursor.put_bind_put_bind]
    show Cursor.put ⟨buf, 0⟩ (ackPacket o packettype dup packetid) >>= done = _
    rw [hput, ok_bind, done, hfour]
    rfl
  · rw [hlist, hfour]
    rfl

/-- The identifier that an acknowledgement has, or what was there before. -/
def ackId (old : BitVec 16) : List (BitVec 8) → BitVec 16
  | b0 :: b1 :: _ => BitVec.ofNat 16 (256 * b0.toNat + b1.toNat)
  | _ => old

/-- `MQTTDeserialize_ack` takes any packet, also one without an identifier. -/
theorem mqttDeserializeAck_of_holdsAt (o : BitOrder) {buf : Vector (BitVec 8) n} {header : BitVec 8}
    {body : List (BitVec 8)} (h : HoldsAt buf 0 (packetBytes header body))
    (hlen : body.length < 128 ^ 4) (d : AckData) :
    mqttDeserializeAck o d buf = .ok (1, ⟨(MqttHeader.ofByte o header).type.setWidth 8,
      (MqttHeader.ofByte o header).dup.setWidth 8, ackId d.packetid body⟩) := by
  obtain ⟨hheader, hlength, hbody⟩ := holdsAt_packet h
  rw [mqttDeserializeAck, readChar_of_holdsAt hheader, ok_bind]
  simp only []
  rw [mqttPacketDecodeBuf_of_holdsAt hlen hlength, ok_bind]
  simp only []
  match body, hbody with
  | [], _ =>
    rw [if_pos (by simp), Varint.encode_of_lt (by decide)]
    rfl
  | [b0], _ =>
    rw [if_pos (by simp), Varint.encode_of_lt (by simp)]
    rfl
  | b0 :: b1 :: rest, hbody =>
    have h0 : b0.toNat < 256 := b0.isLt
    have h1 : b1.toNat < 256 := b1.isLt
    have hid : HoldsAt buf (bodyStart (b0 :: b1 :: rest))
        (twoBytes (256 * b0.toNat + b1.toNat)) := by
      rw [twoBytes, show (256 * b0.toNat + b1.toNat) / 256 = b0.toNat by omega,
        show (256 * b0.toNat + b1.toNat) % 256 = b1.toNat by omega]
      simpa using HoldsAt.left (l := [b0, b1]) hbody
    rw [if_neg (by simp), show 0 + 1 + (Varint.encode (b0 :: b1 :: rest).length).length =
      bodyStart (b0 :: b1 :: rest) from rfl, readInt_of_holdsAt (by omega) hid, ok_bind]
    rfl

end DraginoFwd.Mqtt
