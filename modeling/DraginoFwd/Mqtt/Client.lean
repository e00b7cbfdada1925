import DraginoFwd.Mqtt.Connect
import DraginoFwd.Mqtt.Network
import DraginoFwd.Mqtt.Topic

/-!
# The MQTT client

Model of `MQTTClient.c`, built without `MQTT_TASK`, as the service uses it: packets are read where
an answer is waited for. The socket is what it will give (`sock`), and the bytes that went out on it
are `wire`. How many bytes each call of `write` takes is an argument of the functions that write, a
list that ends when their timer expires; what waits for an answer has such a list for each packet
that it reads before its timer expires.

`readPacket` gets one packet from the socket, however it is cut (`readPacket_stream`). There is no
bound on the bytes that it stores (`readPacket_overflow`), and a timeout in the body of a packet is
taken for a CONNECT and leaves the rest of the body to be read as packets (`readPacket_cut`).
-/

set_option autoImplicit false

namespace DraginoFwd.Mqtt

open DraginoFwd.Lib
open DraginoFwd.Lib.Memory

/-! ## The code -/

/-- An entry of `messageHandlers`, with the function and its argument by their numbers. -/
structure MessageHandler where
  topicFilter : List (BitVec 8)
  fp : Option Nat
  arg : Nat
  deriving DecidableEq, Repr

/-- A call of a handler, with what stands in `readbuf` from the payload on. -/
structure HandlerCall where
  fp : Nat
  arg : Option Nat
  topicName : MqttString
  message : PublishData
  data : List (BitVec 8)
  deriving DecidableEq, Repr

/-- `MAX_MESSAGE_HANDLERS` -/
abbrev maxMessageHandlers : Nat := 5
/-- `MAX_PACKET_ID` -/
abbrev maxPacketId : Nat := 65535

/-- `MQTTClient`, with what the world outside has of it: the socket and its bytes, and the calls of
the handlers -/
structure MqttClient (n m : Nat) where
  nextPacketid : Nat
  buf : Vector (BitVec 8) n
  readbuf : Vector (BitVec 8) m
  pingOutstanding : Bool
  isconnected : Bool
  messageHandlers : Vector (Option MessageHandler) maxMessageHandlers
  defaultMessageHandler : Option Nat
  socketOpen : Bool
  sock : List Arrival
  wire : List (BitVec 8)
  calls : List HandlerCall

/-- What the calls of `write` return until the timer expires; `none` for -1. -/
abbrev Writes := List (Option Nat)

variable {n m : Nat}

/-- `getNextPacketId` -/
def getNextPacketId (c : MqttClient n m) : Nat × MqttClient n m :=
  let id := if c.nextPacketid = maxPacketId then 1 else c.nextPacketid + 1
  (id, { c with nextPacketid := id })

/-- The loop of `sendPacket`: each call is given `length` bytes, from `buf[sent]` on -/
def sendLoop (length : Nat) : Writes → Nat → MqttClient n m →
    Except OutOfBounds (Nat × MqttClient n m)
  | [], sent, c => .ok (sent, c)
  | taken :: writes, sent, c =>
      if sent < length then
        match taken with
        | none => .ok (sent, c)
        | some k => do
            let rc := min k length
            let bytes ← slice c.buf sent rc
            sendLoop length writes (sent + rc) { c with wire := c.wire ++ bytes }
      else .ok (sent, c)

/-- `sendPacket` -/
def sendPacket (c : MqttClient n m) (length : Nat) (writes : Writes) :
    Except OutOfBounds (Int × MqttClient n m) :=
  if !c.socketOpen then .ok (failure, c)
  else do
    let (sent, c) ← sendLoop length writes 0 c
    .ok (if sent = length then success else failure, c)

/-- `mqttread` of one byte, for `decodePacket` -/
def nextByte (sock : List Arrival) : Except OutOfBounds (Option (BitVec 8) × List Arrival) :=
  let (rc, got, sock) := linuxRead 1 [] sock
  .ok (if rc = 1 then got.head? else none, sock)

/-- `decodePacket`: what it returns, `value` and the socket -/
def decodePacket (sock : List Arrival) : Except OutOfBounds (Int × Nat × List Arrival) :=
  (Varint.decode nextByte maxNoOfRemainingLengthBytes sock 0 1 0).map fun r =>
    (if r.1 = .tooLong then failure else success, r.2.2.1, r.2.2.2)

/-- `mqttread` of `len` bytes into `readbuf`, from `place` on -/
def readInto (c : MqttClient n m) (place len : Nat) :
    Except OutOfBounds (Int × MqttClient n m) := do
  let (rc, got, sock) := linuxRead len [] c.sock
  let readbuf ← copy c.readbuf place got
  .ok (rc, { c with readbuf := readbuf, sock := sock })

/-- `header.bits.type` of what is in `readbuf` -/
def packetType (o : BitOrder) (c : MqttClient n m) : Except OutOfBounds (Int × MqttClient n m) := do
  let (b, _) ← readChar c.readbuf 0
  .ok (((MqttHeader.ofByte o b).type.toNat : Int), c)

/-- `readPacket` -/
def readPacket (o : BitOrder) (c : MqttClient n m) : Except OutOfBounds (Int × MqttClient n m) := do
  let (rc, c) ← readInto c 0 1
  if rc ≠ 1 then .ok (rc, c)
  else
    let (rc, remLen, sock) ← decodePacket c.sock
    let c := { c with sock := sock }
    if rc ≠ success then .ok (rc, c)
    else
      let w ← mqttPacketEncode ⟨c.readbuf, 1⟩ remLen
      let c := { c with readbuf := w.buf }
      if 0 < remLen then
        let (rc, c) ← readInto c w.ptr remLen
        -- `rc` is the truth of the comparison here
        if rc ≠ remLen then .ok (1, c) else packetType o c
      else packetType o c

/-- The filter is the topic, or stands for it. -/
def filterMatches (topicName : MqttString) (topicFilter : List (BitVec 8)) :
    Except OutOfBounds Bool := do
  let same ← mqttPacketEquals topicName topicFilter
  if same then .ok true
  else
    let name ← topicName.bytes
    .ok (isTopicMatched topicFilter name)

/-- The loop of `deliverMessage`: the calls that it makes -/
def handlerCalls (topicName : MqttString) (message : PublishData) (data : List (BitVec 8)) :
    List (Option MessageHandler) → Except OutOfBounds (List HandlerCall)
  | [] => .ok []
  | none :: handlers => handlerCalls topicName message data handlers
  | some h :: handlers => do
      let found ← filterMatches topicName h.topicFilter
      let calls ← handlerCalls topicName message data handlers
      match h.fp with
      | some fp =>
        .ok (if found then ⟨fp, some h.arg, topicName, message, data⟩ :: calls else calls)
      | none => .ok calls

/-- The client after some calls of the handlers. -/
def MqttClient.called (c : MqttClient n m) (calls : List HandlerCall) : MqttClient n m :=
  { c with calls := c.calls ++ calls }

/-- `deliverMessage` -/
def deliverMessage (c : MqttClient n m) (topicName : MqttString) (message : PublishData) :
    Except OutOfBounds (Int × MqttClient n m) := do
  let data := c.readbuf.toList.drop message.payload
  let calls ← handlerCalls topicName message data c.messageHandlers.toList
  match calls, c.defaultMessageHandler with
  | [], none => .ok (failure, c)
  | [], some fp => .ok (success, c.called [⟨fp, none, topicName, message, data⟩])
  | _ :: _, _ => .ok (success, c.called calls)

/-- Send what was serialized into `buf`: `len <= 0` is a failure. -/
def sendSerialized (c : MqttClient n m)
    (serialized : Except OutOfBounds (Int × Vector (BitVec 8) n))
    (writes : Writes) : Except OutOfBounds (Int × MqttClient n m) := do
  let (len, buf) ← serialized
  let c := { c with buf := buf }
  if len ≤ 0 then .ok (failure, c) else sendPacket c len.toNat writes

section Cycle

variable (o : BitOrder) (junk : PublishData)

/-- The case `PUBLISH` of `cycle`, with `junk` for what the results hold before they are set -/
def handlePublish (c : MqttClient n m) (writes : Writes) :
    Except OutOfBounds (Int × MqttClient n m) := do
  let (rc, msg) ← mqttDeserializePublish o junk c.readbuf
  if rc ≠ 1 then .ok (success, c)
  else
    let (_, c) ← deliverMessage c msg.topicName msg
    if msg.qos = 1 then
      sendSerialized c (mqttSerializeAck o c.buf n (puback.setWidth 8) 0 msg.packetid) writes
    else if msg.qos = 2 then
      sendSerialized c (mqttSerializeAck o c.buf n (pubrec.setWidth 8) 0 msg.packetid) writes
    else if msg.qos = 0 then .ok (success, c)
    else .ok (failure, c)

/-- The case `PUBREC` of `cycle` -/
def handlePubrec (c : MqttClient n m) (writes : Writes) :
    Except OutOfBounds (Int × MqttClient n m) := do
  let (rc, ack) ← mqttDeserializeAck o ⟨0, 0, junk.packetid⟩ c.readbuf
  if rc ≠ 1 then .ok (failure, c)
  else sendSerialized c (mqttSerializeAck o c.buf n (pubrel.setWidth 8) 0 ack.packetid) writes

/-- `cycle` -/
def cycle (c : MqttClient n m) (writes : Writes) : Except OutOfBounds (Int × MqttClient n m) := do
  let (packetType, c) ← readPacket o c
  if packetType < 0 then .ok (packetType, c)
  else if packetType = 0 then .ok (failure, c)
  else
    let (rc, c) ← (
      if packetType = publish.toNat then handlePublish o junk c writes
      else if packetType = pubrec.toNat then handlePubrec o junk c writes
      else if packetType = pingresp.toNat then .ok (success, { c with pingOutstanding := false })
      else .ok (success, c))
    .ok (if rc = success then packetType else rc, c)

/-- `waitfor`: the writes of each round until the timer expires -/
def waitfor (packetType : Int) : List Writes → MqttClient n m →
    Except OutOfBounds (Int × MqttClient n m)
  | [], c => .ok (failure, c)
  | writes :: rounds, c => do
      let (rc, c) ← cycle o junk c writes
      if rc = packetType then .ok (rc, c) else waitfor packetType rounds c

/-- What the caller of `MQTTPublish` sets of an `MQTTMessage`. -/
structure Message where
  qos : Nat
  retained : BitVec 8
  payload : List (BitVec 8)
  payloadlen : Int
  deriving DecidableEq, Repr

/-- What a call of `MQTTPublish` meets: `id` is what `message->id` holds before. -/
structure PublishRun where
  topicName : List (BitVec 8)
  message : Message
  id : BitVec 16
  writes : Writes
  rounds : List Writes

/-- The end of `MQTTPublish`: wait for an answer and look at it. -/
def waitAck (packetType : BitVec 4) (c : MqttClient n m) (rounds : List Writes) :
    Except OutOfBounds (Int × MqttClient n m) := do
  let (rc, c) ← waitfor o junk packetType.toNat rounds c
  if rc = packetType.toNat then
    let (rc, _) ← mqttDeserializeAck o ⟨0, 0, junk.packetid⟩ c.readbuf
    .ok (if rc ≠ 1 then failure else success, c)
  else .ok (failure, c)

/-- `MQTTPublish` -/
def mqttPublish (c : MqttClient n m) (run : PublishRun) :
    Except OutOfBounds (Int × MqttClient n m) :=
  if !c.isconnected then .ok (failure, c)
  else do
    let (id, c) := if run.message.qos = 1 ∨ run.message.qos = 2 then
      let (id, c) := getNextPacketId c
      (BitVec.ofNat 16 id, c) else (run.id, c)
    let (rc, c) ← sendSerialized c (mqttSerializePublish o c.buf n 0 run.message.qos
      run.message.retained id ⟨some run.topicName, 0, none⟩ run.message.payload
      run.message.payloadlen) run.writes
    if rc ≠ success then .ok (rc, c)
    else if run.message.qos = 1 then waitAck o junk puback c run.rounds
    else if run.message.qos = 2 then waitAck o junk pubcomp c run.rounds
    else .ok (success, c)

end Cycle

/-! ## What goes out -/

section Send

variable {c c' : MqttClient n m}

/-- The client after it has sent some bytes. -/
def MqttClient.sent (c : MqttClient n m) (out : List (BitVec 8)) : MqttClient n m :=
  { c with wire := c.wire ++ out }

/-- Whatever the calls of `write` take, what goes out is the buffer from `sent` on, also behind the
end of the packet. -/
theorem sendLoop_ok {length sent sent' : Nat} {writes : Writes}
    (h : sendLoop length writes sent c = .ok (sent', c')) :
    sent ≤ sent' ∧ c' = c.sent ((c.buf.toList.drop sent).take (sent' - sent)) := by
  induction writes generalizing sent c with
  | nil =>
    cases h
    simp [MqttClient.sent]
  | cons taken writes ih =>
    simp only [sendLoop] at h
    split at h
    · cases taken with
      | none =>
        cases h
        simp [MqttClient.sent]
      | some k =>
        obtain ⟨bytes, hslice, hnext⟩ := bind_eq_ok.1 h
        have hfit : sent + min k length ≤ n := by
          by_contra hlong
          rw [slice, if_neg (by omega)] at hslice
          cases hslice
        rw [slice_ok c.buf sent (min k length) hfit] at hslice
        cases hslice
        obtain ⟨hle, rfl⟩ := ih hnext
        refine ⟨by omega, ?_⟩
        have hparts : sent' - sent = min k length + (sent' - (sent + min k length)) := by omega
        rw [hparts, List.take_add, List.drop_drop]
        simp [MqttClient.sent]
    · cases h
      simp [MqttClient.sent]

/-- A call of `sendPacket` that succeeds has sent the packet, and nothing else. -/
theorem sendPacket_ok {length : Nat} {writes : Writes} {rc : Int}
    (h : sendPacket c length writes = .ok (rc, c')) :
    (rc = success ∨ rc = failure) ∧ (∃ out, c' = c.sent out) ∧
      (rc = success → c' = c.sent (c.buf.toList.take length)) := by
  rw [sendPacket] at h
  split at h
  · cases h
    refine ⟨.inr rfl, ⟨[], by simp [MqttClient.sent]⟩, ?_⟩
    intro hrc
    cases hrc
  · obtain ⟨⟨sent, c1⟩, hloop, hresult⟩ := bind_eq_ok.1 h
    cases hresult
    obtain ⟨-, rfl⟩ := sendLoop_ok hloop
    rw [List.drop_zero, Nat.sub_zero]
    by_cases hsent : sent = length
    · rw [if_pos hsent, hsent]
      exact ⟨.inl rfl, ⟨_, rfl⟩, fun _ => rfl⟩
    · rw [if_neg hsent]
      refine ⟨.inr rfl, ⟨_, rfl⟩, ?_⟩
      intro hrc
      cases hrc

/-- A packet that no call of `write` can leave the buffer with is sent without an access outside. -/
theorem sendLoop_of_room {length sent : Nat} (hsent : sent ≤ 2 * length) (hroom : 2 * length ≤ n)
    (writes : Writes) (c : MqttClient n m) : ∃ r, sendLoop length writes sent c = .ok r := by
  induction writes generalizing sent c with
  | nil => exact ⟨_, rfl⟩
  | cons taken writes ih =>
    simp only [sendLoop]
    split
    · cases taken with
      | none => exact ⟨_, rfl⟩
      | some k =>
        simp only []
        rw [slice_ok c.buf sent (min k length) (by omega)]
        exact ih (by omega) _
    · exact ⟨_, rfl⟩

theorem sendPacket_of_room {length : Nat} (hroom : 2 * length ≤ n) (writes : Writes)
    (c : MqttClient n m) : ∃ r, sendPacket c length writes = .ok r := by
  rw [sendPacket]
  split
  · exact ⟨_, rfl⟩
  · obtain ⟨r, hloop⟩ := sendLoop_of_room (Nat.zero_le _) hroom writes c
    rw [hloop]
    exact ⟨_, rfl⟩

end Send

/-! ## What comes in -/

section Receive

variable {c : MqttClient n m} {rest : List Arrival} {o : BitOrder} {header : BitVec 8}
  {body : List (BitVec 8)}

/-- The client after it has read something. -/
def MqttClient.received (c : MqttClient n m) (readbuf : Vector (BitVec 8) m) (sock : List Arrival) :
    MqttClient n m := { c with readbuf := readbuf, sock := sock }

/-- The bytes of a socket feed the reader of the remaining length. -/
theorem feeds_of_stream {sock rest : List Arrival} {l : List (BitVec 8)} (h : Stream sock l rest) :
    Varint.Feeds nextByte sock l rest := by
  induction l generalizing sock with
  | nil =>
    rw [h.eq_of_nil]
    exact Varint.Feeds.nil rest
  | cons b l ih =>
    obtain ⟨mid, hfirst, hsecond⟩ := Stream.split (l := [b]) h
    refine Varint.Feeds.cons ?_ (ih hsecond)
    have hread := linuxRead_of_stream hfirst
    rw [List.length_singleton] at hread
    rw [nextByte, hread]
    rfl

theorem decodePacket_of_stream {sock rest : List Arrival} {k : Nat} (hk : k < 128 ^ 4)
    (h : Stream sock (Varint.encode k) rest) : decodePacket sock = .ok (success, k, rest) := by
  have hlen : (Varint.encode k).length ≤ maxNoOfRemainingLengthBytes :=
    (Varint.length_encode_le_iff k 3).2 hk
  rw [decodePacket, Varint.decode_encode (feeds_of_stream h) hlen]
  rfl

/-- The bytes that the socket gives go where they are asked for. -/
theorem readInto_of_stream {l : List (BitVec 8)} (h : Stream c.sock l rest) (place : Nat) :
    readInto c place l.length =
      (copy c.readbuf place l).map fun readbuf => ((l.length : Int), c.received readbuf rest) := by
  rw [readInto, linuxRead_of_stream h]
  simp only []
  cases copy c.readbuf place l with
  | error e => rfl
  | ok readbuf => rfl

/-- Where the time is over before all of them are there, the others are stored. -/
theorem readInto_cut {l : List (BitVec 8)} {len : Nat} (h : Stream c.sock l (.again :: rest))
    (hlen : l.length < len) (place : Nat) :
    readInto c place len =
      (copy c.readbuf place l).map fun readbuf => (timeout, c.received readbuf rest) := by
  rw [readInto, linuxRead_cut h [] (by simpa using hlen)]
  simp only [List.nil_append]
  cases copy c.readbuf place l with
  | error e => rfl
  | ok readbuf => rfl

theorem packetType_of_holdsAt (h : HoldsAt c.readbuf 0 [header]) :
    packetType o c = .ok (((MqttHeader.ofByte o header).type.toNat : Int), c) := by
  rw [packetType, readChar_of_holdsAt h]
  rfl

/-- `readPacket` behind the header and the remaining length. -/
theorem readPacket_length {c1 : MqttClient n m} {sock2 : List Arrival} {k : Nat}
    (hheader : readInto c 0 1 = .ok (1, c1))
    (hlength : decodePacket c1.sock = .ok (success, k, sock2)) :
    readPacket o c = (copy c1.readbuf 1 (Varint.encode k)).bind fun readbuf =>
      if 0 < k then
        (readInto (c1.received readbuf sock2) (1 + (Varint.encode k).length) k).bind fun r =>
          if r.1 ≠ k then .ok (1, r.2) else packetType o r.2
      else packetType o (c1.received readbuf sock2) := by
  rw [readPacket, hheader, ok_bind]
  simp only []
  rw [if_neg (by simp), hlength, ok_bind]
  simp only []
  rw [if_neg (by simp), mqttPacketEncode_eq, Cursor.put]
  simp only []
  cases copy c1.readbuf 1 (Varint.encode k) with
  | error e => rfl
  | ok readbuf => rfl

theorem fits_of_copy {readbuf readbuf' : Vector (BitVec 8) m} {i : Nat} {l : List (BitVec 8)}
    (h : copy readbuf i l = .ok readbuf') (hne : l ≠ []) : i + l.length ≤ m := by
  by_contra hlong
  obtain ⟨e, herror⟩ := copy_error readbuf i l hne (Nat.lt_of_not_le hlong)
  rw [h] at herror
  cases herror

/-- What is copied behind the first byte leaves it. -/
theorem holdsAt_first_of_copy {readbuf readbuf' : Vector (BitVec 8) m} {i : Nat}
    {l : List (BitVec 8)} (h : copy readbuf (1 + i) l = .ok readbuf') (hne : l ≠ [])
    (hfirst : HoldsAt readbuf 0 [header]) : HoldsAt readbuf' 0 [header] := by
  obtain ⟨readbuf2, hcopy, -, hkeep⟩ := copy_holdsAt readbuf (fits_of_copy h hne)
  rw [h] at hcopy
  cases hcopy
  exact hkeep 0 [header] hfirst (.inl (by rw [List.length_singleton]; omega))

/-- `readPacket` stores the bytes of a packet one behind the other. -/
theorem readPacket_eq (h : Stream c.sock (packetBytes header body) rest)
    (hlen : body.length < 128 ^ 4) :
    readPacket o c = (copy c.readbuf 0 (packetBytes header body)).map fun readbuf =>
      (((MqttHeader.ofByte o header).type.toNat : Int), c.received readbuf rest) := by
  obtain ⟨sock1, hheader, hrest⟩ := Stream.split (l := [header]) h
  obtain ⟨sock2, hlength, hbody⟩ := hrest.split
  have hfirst := readInto_of_stream hheader 0
  have hparts : copy c.readbuf 0 (packetBytes header body) =
      (copy c.readbuf 0 [header]).bind fun b1 =>
        (copy b1 1 (Varint.encode body.length)).bind fun b2 =>
        copy b2 (1 + (Varint.encode body.length).length) body := by
    rw [packetBytes, show header :: (Varint.encode body.length ++ body) =
      [header] ++ (Varint.encode body.length ++ body) from rfl, copy_append]
    congr 1
    funext b1
    exact copy_append b1 1 _ _
  rw [hparts]
  cases hcopy1 : copy c.readbuf 0 [header] with
  | error e =>
    rw [hcopy1] at hfirst
    rw [readPacket, show readInto c 0 1 = .error e from hfirst]
    rfl
  | ok b1 =>
    rw [hcopy1] at hfirst
    rw [readPacket_length (show readInto c 0 1 = .ok (1, c.received b1 sock1) from hfirst)
      (show decodePacket (c.received b1 sock1).sock = _ from decodePacket_of_stream hlen hlength)]
    show (copy b1 1 (Varint.encode body.length)).bind _ = Except.map _ ((copy b1 1 _).bind _)
    cases hcopy2 : copy b1 1 (Varint.encode body.length) with
    | error e => rfl
    | ok b2 =>
      have hat1 : HoldsAt b1 0 [header] := copy_self hcopy1 (fits_of_copy hcopy1 (by simp))
      have hat2 : HoldsAt b2 0 [header] := holdsAt_first_of_copy (i := 0) hcopy2
        (List.ne_nil_of_length_pos (Varint.length_encode_pos _)) hat1
      show (if 0 < body.length then _ else _) = Except.map _ (copy b2 _ body)
      by_cases hne : body = []
      · subst hne
        rw [if_neg (by simp), packetType_of_holdsAt hat2, hbody.eq_of_nil]
        rfl
      · have hread := readInto_of_stream (c := (c.received b1 sock1).received b2 sock2) hbody
          (1 + (Varint.encode body.length).length)
        rw [if_pos (List.length_pos_iff.2 hne), hread]
        show (Except.map _ (copy b2 _ body)).bind _ = _
        cases hcopy3 : copy b2 (1 + (Varint.encode body.length).length) body with
        | error e => rfl
        | ok b3 =>
          have hat3 : HoldsAt b3 0 [header] := holdsAt_first_of_copy hcopy3 hne hat2
          show (if (body.length : Int) ≠ body.length then _ else _) = _
          rw [if_neg (by simp), packetType_of_holdsAt hat3]
          rfl

/-- **A packet is read as it came**, in whatever pieces. -/
theorem readPacket_stream (h : Stream c.sock (packetBytes header body) rest)
    (hlen : body.length < 128 ^ 4) (hfit : (packetBytes header body).length ≤ m) :
    ∃ readbuf, readPacket o c =
        .ok (((MqttHeader.ofByte o header).type.toNat : Int), c.received readbuf rest) ∧
      HoldsAt readbuf 0 (packetBytes header body) := by
  have hroom : 0 + (packetBytes header body).length ≤ m := by rwa [Nat.zero_add]
  obtain ⟨readbuf, hcopy, hholds, -⟩ := copy_holdsAt c.readbuf hroom
  refine ⟨readbuf, ?_, hholds⟩
  rw [readPacket_eq h hlen, hcopy]
  rfl

/-- A packet that is longer than the buffer is stored behind it too. -/
theorem readPacket_overflow (h : Stream c.sock (packetBytes header body) rest)
    (hlen : body.length < 128 ^ 4) (hlong : m < (packetBytes header body).length) :
    ∃ e, readPacket o c = .error e := by
  obtain ⟨e, hcopy⟩ := copy_error c.readbuf 0 (packetBytes header body) (by simp [packetBytes])
    (by rwa [Nat.zero_add])
  refine ⟨e, ?_⟩
  rw [readPacket_eq h hlen, hcopy]
  rfl

/-- A client that is connected, with a handler for every topic. -/
def connectedClient (sock : List Arrival) : MqttClient 32 8 where
  nextPacketid := maxPacketId
  buf := Vector.replicate 32 0#8
  readbuf := Vector.replicate 8 0#8
  pingOutstanding := false
  isconnected := true
  messageHandlers := #v[some ⟨[hash], some 1, 2⟩, none, none, none, none]
  defaultMessageHandler := none
  socketOpen := true
  sock := sock
  wire := []
  calls := []

theorem readPacket_overflow_eight :
    ∃ e, readPacket .top (connectedClient [.bytes
      (packetBytes 0x30#8 [0#8, 1#8, 0x61#8, 1#8, 2#8, 3#8, 4#8, 5#8])]) = .error e := by
  have hstream : Stream [.bytes (packetBytes 0x30#8 [0#8, 1#8, 0x61#8, 1#8, 2#8, 3#8, 4#8, 5#8])]
      (packetBytes 0x30#8 [0#8, 1#8, 0x61#8, 1#8, 2#8, 3#8, 4#8, 5#8] ++ []) [] :=
    Stream.piece (by simp [packetBytes]) (Stream.done [])
  rw [List.append_nil] at hstream
  exact readPacket_overflow (c := connectedClient _) hstream (by decide)
    (by rw [length_packetBytes, Varint.encode_of_lt (by decide)]; decide)

/-- A timeout inside the body of a packet: 1 is the result of the comparison, and the rest of the
body stays in the socket. -/
theorem readPacket_timeout {front : List (BitVec 8)} (hlen : body.length < 128 ^ 4)
    (h : Stream c.sock (header :: (Varint.encode body.length ++ front)) (.again :: rest))
    (hcut : front.length < body.length) (hfit : (packetBytes header body).length ≤ m) :
    ∃ readbuf, readPacket o c = .ok (1, c.received readbuf rest) := by
  obtain ⟨sock1, hheader, hrest⟩ := Stream.split (l := [header]) h
  obtain ⟨sock2, hlength, hfront⟩ := hrest.split
  rw [length_packetBytes] at hfit
  obtain ⟨b1, hcopy1, -⟩ := copy_spec c.readbuf 0 [header] (by rw [List.length_singleton]; omega)
  obtain ⟨b2, hcopy2, -⟩ := copy_spec b1 1 (Varint.encode body.length) (by omega)
  obtain ⟨b3, hcopy3, -⟩ :=
    copy_spec b2 (1 + (Varint.encode body.length).length) front (by omega)
  have hfirst := readInto_of_stream hheader 0
  rw [hcopy1] at hfirst
  refine ⟨b3, ?_⟩
  rw [readPacket_length (show readInto c 0 1 = .ok (1, c.received b1 sock1) from hfirst)
    (show decodePacket (c.received b1 sock1).sock = _ from decodePacket_of_stream hlen hlength)]
  show (copy b1 1 (Varint.encode body.length)).bind _ = _
  rw [hcopy2]
  show (if 0 < body.length then _ else _) = _
  have hread := readInto_cut (c := (c.received b1 sock1).received b2 sock2) hfront hcut
    (1 + (Varint.encode body.length).length)
  rw [if_pos (by omega), hread]
  show (Except.map _ (copy b2 _ front)).bind _ = _
  rw [hcopy3]
  -- the result of the last read is no length, and `!=` makes it 1
  have hne : timeout ≠ (body.length : Int) := by
    show (-3 : Int) ≠ body.length
    omega
  simp only [Except.map, Except.bind]
  rw [if_pos hne]
  rfl

/-- **A packet that is cut by a timeout comes apart**: the type of what was read is that of CONNECT,
also for `cycle`, and a packet that the rest of the body begins with is read as the next one. -/
theorem readPacket_cut {front : List (BitVec 8)} (hlen : body.length < 128 ^ 4)
    (h : Stream c.sock (header :: (Varint.encode body.length ++ front)) (.again :: rest))
    (hcut : front.length < body.length) (hfit : (packetBytes header body).length ≤ m) :
    ∃ readbuf, readPacket o c = .ok ((connect.toNat : Int), c.received readbuf rest) ∧
      (∀ junk writes, cycle o junk c writes =
        .ok ((connect.toNat : Int), c.received readbuf rest)) ∧
      ∀ header' body' sock, Stream rest (packetBytes header' body') sock →
        body'.length < 128 ^ 4 → (packetBytes header' body').length ≤ m →
          ∃ readbuf', readPacket o (c.received readbuf rest) =
              .ok (((MqttHeader.ofByte o header').type.toNat : Int), c.received readbuf' sock) ∧
            HoldsAt readbuf' 0 (packetBytes header' body') := by
  obtain ⟨readbuf, hread⟩ := readPacket_timeout (o := o) hlen h hcut hfit
  refine ⟨readbuf, hread, ?_, ?_⟩
  · intro junk writes
    rw [cycle, hread]
    rfl
  · intro header' body' sock hnext hlen' hfit'
    exact readPacket_stream (c := c.received readbuf rest) hnext hlen' hfit'

/-- A message under the topic `a` whose payload is a PINGRESP, in which the time is over behind the
topic. -/
def cutPieces : List Arrival :=
  [.bytes [0x30#8, 5#8, 0#8, 1#8], .bytes [0x61#8], .again, .bytes [0xD0#8, 0#8]]

theorem readPacket_cut_pingresp :
    ∃ readbuf readbuf' : Vector (BitVec 8) 8,
      readPacket .top (connectedClient cutPieces) =
        .ok (1, (connectedClient cutPieces).received readbuf [.bytes [0xD0#8, 0#8]]) ∧
      (∀ junk, cycle .top junk (connectedClient cutPieces) [] =
        .ok (1, (connectedClient cutPieces).received readbuf [.bytes [0xD0#8, 0#8]])) ∧
      readPacket .top ((connectedClient cutPieces).received readbuf [.bytes [0xD0#8, 0#8]]) =
        .ok ((pingresp.toNat : Int), (connectedClient cutPieces).received readbuf' []) := by
  have hfront : Stream cutPieces (0x30#8 :: (Varint.encode
      ([0#8, 1#8, 0x61#8, 0xD0#8, 0#8] : List (BitVec 8)).length ++ [0#8, 1#8, 0x61#8]))
      [.again, .bytes [0xD0#8, 0#8]] := by
    rw [Varint.encode_of_lt (by decide)]
    exact Stream.piece (p := [0x30#8, 5#8, 0#8, 1#8]) (l := [0x61#8]) (by decide)
      (Stream.piece (p := [0x61#8]) (l := []) (by decide) (Stream.done _))
  have hrest : Stream [.bytes [0xD0#8, 0#8]] (packetBytes 0xD0#8 []) [] := by
    rw [packetBytes, Varint.encode_of_lt (by decide)]
    exact Stream.piece (p := [0xD0#8, 0#8]) (l := []) (by decide) (Stream.done _)
  have hshort : (packetBytes 0xD0#8 []).length ≤ 8 := by
    rw [length_packetBytes, Varint.encode_of_lt (by decide)]
    decide
  obtain ⟨readbuf, hread, hcycle, hnext⟩ := readPacket_cut (o := .top)
    (c := connectedClient cutPieces) (by decide) hfront (by decide)
    (by rw [length_packetBytes, Varint.encode_of_lt (by decide)]; decide)
  obtain ⟨readbuf', hping, -⟩ := hnext 0xD0#8 [] [] hrest (by decide) hshort
  exact ⟨readbuf, readbuf', hread, fun junk => hcycle junk [], hping⟩

end Receive

/-! ## Identifiers -/

section PacketIds

variable {c : MqttClient n m}

/-- The identifiers of the next messages. -/
def packetIds : Nat → MqttClient n m → List Nat
  | 0, _ => []
  | k + 1, c => (getNextPacketId c).1 :: packetIds k (getNextPacketId c).2

theorem getNextPacketId_eq (h : c.nextPacketid ≤ maxPacketId) :
    (getNextPacketId c).1 = c.nextPacketid % maxPacketId + 1 := by
  show (if c.nextPacketid = 65535 then 1 else c.nextPacketid + 1) = c.nextPacketid % 65535 + 1
  have hle : c.nextPacketid ≤ 65535 := h
  split <;> omega

theorem packetIds_eq (h : c.nextPacketid ≤ maxPacketId) (k : Nat) :
    packetIds k c = (List.range k).map fun i => (c.nextPacketid + i) % maxPacketId + 1 := by
  induction k generalizing c with
  | zero => rfl
  | succ k ih =>
    have hnext := getNextPacketId_eq h
    have hsame : (getNextPacketId c).2.nextPacketid = (getNextPacketId c).1 := rfl
    have hle : (getNextPacketId c).2.nextPacketid ≤ maxPacketId := by
      rw [hsame, hnext]
      exact Nat.mod_lt _ (by decide)
    rw [packetIds, ih hle, hsame, hnext, List.range_succ_eq_map, List.map_cons, List.map_map]
    congr 1
    apply List.map_congr_left
    intro i _
    show (c.nextPacketid % maxPacketId + 1 + i) % maxPacketId + 1 =
      (c.nextPacketid + (i + 1)) % maxPacketId + 1
    rw [Nat.add_assoc, Nat.mod_add_mod, Nat.add_comm 1 i]

/-- **The identifiers of at most 65535 messages differ**, and those of more do not; none is 0. -/
theorem packetIds_nodup_iff (h : c.nextPacketid ≤ maxPacketId) (k : Nat) :
    ((packetIds k c).Nodup ↔ k ≤ maxPacketId) ∧
      ∀ id ∈ packetIds k c, 0 < id ∧ id ≤ maxPacketId := by
  rw [packetIds_eq h]
  refine ⟨?_, ?_⟩
  · rw [List.nodup_map_iff_inj_on List.nodup_range]
    constructor
    · intro hinj
      by_contra hlong
      have hlast : maxPacketId ∈ List.range k := List.mem_range.2 (Nat.lt_of_not_le hlong)
      have hfirst : 0 ∈ List.range k := List.mem_range.2 (by omega)
      have heq := hinj 0 hfirst maxPacketId hlast (by simp)
      cases heq
    · intro hle i hi j hj heq
      rw [List.mem_range] at hi hj
      have hbound : k ≤ 65535 := hle
      have hsame : (c.nextPacketid + i) % 65535 + 1 = (c.nextPacketid + j) % 65535 + 1 := heq
      omega
  · intro id hid
    obtain ⟨i, -, rfl⟩ := List.mem_map.1 hid
    exact ⟨Nat.succ_pos _, Nat.mod_lt _ (by decide)⟩

theorem packetIds_nodup_iff_three :
    ((packetIds 3 (connectedClient [])).Nodup ↔ 3 ≤ maxPacketId) ∧
      ∀ id ∈ packetIds 3 (connectedClient []), 0 < id ∧ id ≤ maxPacketId :=
  packetIds_nodup_iff (Nat.le_refl maxPacketId) 3

end PacketIds

end DraginoFwd.Mqtt
