import DraginoFwd.Mqtt.Client

/-!
# A session of the MQTT client

What the server sends is a list of packets, `Incoming`; they arrive in any pieces, with pauses
between them (`Arrives`). A round of `cycle` takes the first one, calls the handlers of a message
and no other ones, and keeps the rest (`cycle_packet`). So do any calls of `MQTTPublish`, which
takes any PUBACK for the one that it waits for (`mqttPublishes_arrives`).
-/

set_option autoImplicit false

namespace DraginoFwd.Mqtt

open DraginoFwd.Lib
open DraginoFwd.Lib.Memory

variable {n m : Nat}

/-! ## What the server sends -/

/-- A packet from the server: a message, or another one. -/
inductive Incoming where
  | message (dup : BitVec 8) (qos : Nat) (retained : BitVec 8) (packetid : BitVec 16)
      (topic payload : List (BitVec 8))
  | other (header : MqttHeader) (body : List (BitVec 8))

/-- The header of the packet. -/
def Incoming.header : Incoming → MqttHeader
  | .message dup qos retained _ _ _ => publishHeader dup qos retained
  | .other header _ => header

/-- What stands behind its remaining length. -/
def Incoming.body : Incoming → List (BitVec 8)
  | .message _ qos _ packetid topic payload => publishBody qos packetid topic payload
  | .other _ body => body

/-- The packet as it comes in. -/
def Incoming.bytes (o : BitOrder) (p : Incoming) : List (BitVec 8) :=
  packetBytes (p.header.byte o) p.body

/-- A message has a level and a topic that can be written, and what is another packet is none. -/
def Incoming.Proper : Incoming → Prop
  | .message _ qos _ _ topic _ => qos < 4 ∧ topic.length < 65536
  | .other header _ => header.type ≠ publish

/-- The packet can be written, and has room in a buffer of `m` bytes. -/
structure Incoming.Fits (o : BitOrder) (m : Nat) (p : Incoming) : Prop where
  short : p.body.length < 128 ^ 4
  room : (p.bytes o).length ≤ m
  proper : p.Proper

/-- Nothing comes in time, the connection fails or the peer closes it. -/
def Arrival.IsPause (a : Arrival) : Prop := a = .again ∨ a = .error ∨ a = .bytes []

/-- The packets come in any pieces, with pauses between them. -/
inductive Arrives (o : BitOrder) : List Arrival → List Incoming → Prop where
  | nothing : Arrives o [] []
  | pause {a : Arrival} {sock : List Arrival} {ps : List Incoming} :
      a.IsPause → Arrives o sock ps → Arrives o (a :: sock) ps
  | packet {sock sock' : List Arrival} {p : Incoming} {ps : List Incoming} :
      Stream sock (p.bytes o) sock' → Arrives o sock' ps → Arrives o sock (p :: ps)

/-! ## What the handlers get -/

/-- What a handler is called with. -/
structure Delivery where
  fp : Nat
  arg : Option Nat
  dup : BitVec 8
  qos : Nat
  retained : BitVec 8
  topic : List (BitVec 8)
  payload : List (BitVec 8)
  deriving DecidableEq

/-- What a call says: the payload is as long as the message says. -/
def HandlerCall.delivery (call : HandlerCall) : Delivery where
  fp := call.fp
  arg := call.arg
  dup := call.message.dup
  qos := call.message.qos
  retained := call.message.retained
  topic := call.topicName.data.getD []
  payload := call.data.take call.message.payloadlen.toNat

/-- The filter is the topic, or stands for it. -/
def matchesTopic (topic topicFilter : List (BitVec 8)) : Bool :=
  decide (topic = topicFilter) || isTopicMatched topicFilter topic

/-- The functions, with their arguments, of the handlers whose filters match. -/
def subscribers (topic : List (BitVec 8)) (handlers : List (Option MessageHandler)) :
    List (Nat × Option Nat) :=
  handlers.filterMap fun entry => entry.bind fun h =>
    if matchesTopic topic h.topicFilter then h.fp.map fun fp => (fp, some h.arg) else none

/-- Who gets a message: all whose filters match, or else the default. -/
def receivers (c : MqttClient n m) (topic : List (BitVec 8)) : List (Nat × Option Nat) :=
  match subscribers topic c.messageHandlers.toList, c.defaultMessageHandler with
  | [], some fp => [(fp, none)]
  | found, _ => found

/-- What the handlers are to get of a packet. -/
def Incoming.deliveries (c : MqttClient n m) : Incoming → List Delivery
  | .message dup qos retained _ topic payload =>
      (receivers c topic).map fun r =>
        ⟨r.1, r.2, (dup.setWidth 1).setWidth 8, qos, (retained.setWidth 1).setWidth 8,
          topic, payload⟩
  | .other _ _ => []

/-- What a packet is answered with: `junk` is for an identifier that is not there. -/
def Incoming.answer (o : BitOrder) (junk : PublishData) : Incoming → List (BitVec 8)
  | .message _ qos _ packetid _ _ =>
      if qos = 1 then ackPacket o (puback.setWidth 8) 0 packetid
      else if qos = 2 then ackPacket o (pubrec.setWidth 8) 0 packetid
      else []
  | .other header body =>
      if header.type = pubrec then
        ackPacket o (pubrel.setWidth 8) 0 (ackId junk.packetid body) else []

theorem filterMatches_stored (topic topicFilter : List (BitVec 8)) :
    filterMatches (stored topic) topicFilter = .ok (matchesTopic topic topicFilter) := by
  have hbytes : (stored topic).bytes = .ok topic := by
    simp [MqttString.bytes, stored]
  have hsame : mqttPacketEquals (stored topic) topicFilter =
      .ok (decide (topic = topicFilter)) := by
    show (if (topic.length : Int) = topicFilter.length then _ else _) = _
    split
    · rw [hbytes]
      rfl
    · next hlen =>
      rw [decide_eq_false]
      rintro rfl
      exact hlen rfl
  rw [filterMatches, hsame, ok_bind, hbytes, matchesTopic]
  by_cases h : topic = topicFilter <;> simp [h]

theorem handlerCalls_stored (topic : List (BitVec 8)) (msg : PublishData) (data : List (BitVec 8))
    (handlers : List (Option MessageHandler)) :
    handlerCalls (stored topic) msg data handlers =
      .ok ((subscribers topic handlers).map fun r => ⟨r.1, r.2, stored topic, msg, data⟩) := by
  induction handlers with
  | nil => rfl
  | cons entry handlers ih =>
    cases entry with
    | none => exact ih
    | some h =>
      rw [handlerCalls, filterMatches_stored, ok_bind, ih, ok_bind]
      cases hfp : h.fp with
      | none => simp [hfp, subscribers]
      | some fp =>
        cases hmatch : matchesTopic topic h.topicFilter with
        | false => simp [hmatch, subscribers]
        | true => simp [hmatch, hfp, subscribers]

theorem deliverMessage_stored (c : MqttClient n m) (topic : List (BitVec 8)) (msg : PublishData) :
    ∃ rc, deliverMessage c (stored topic) msg = .ok (rc, c.called
      ((receivers c topic).map fun r =>
        ⟨r.1, r.2, stored topic, msg, c.readbuf.toList.drop msg.payload⟩)) := by
  rw [deliverMessage, handlerCalls_stored, ok_bind, receivers]
  cases subscribers topic c.messageHandlers.toList with
  | nil =>
    cases c.defaultMessageHandler with
    | none => exact ⟨failure, by simp [MqttClient.called]⟩
    | some fp => exact ⟨success, rfl⟩
  | cons r found =>
    cases c.defaultMessageHandler with
    | none => exact ⟨success, rfl⟩
    | some fp => exact ⟨success, rfl⟩

/-! ## One packet -/

section Handle

variable {o : BitOrder} (junk : PublishData) {c : MqttClient n m} {p : Incoming}
  {rest : List Arrival}

/-- The client after it has sent some bytes from a new packet. -/
def MqttClient.wrote (c : MqttClient n m) (buf : Vector (BitVec 8) n) (out : List (BitVec 8)) :
    MqttClient n m := { c with buf := buf, wire := c.wire ++ out }

/-- What was serialized goes out, or the call fails. -/
theorem sendSerialized_of_room {serialized : Except OutOfBounds (Int × Vector (BitVec 8) n)}
    {buf : Vector (BitVec 8) n} {packet : List (BitVec 8)}
    (hserial : serialized = .ok ((packet.length : Int), buf))
    (hfront : buf.toList.take packet.length = packet) (hpos : 0 < packet.length)
    (hroom : 2 * packet.length ≤ n) (c : MqttClient n m) (writes : Writes) :
    ∃ rc out, sendSerialized c serialized writes = .ok (rc, c.wrote buf out) ∧
      (rc = success ∨ rc = failure) ∧ (rc = success → out = packet) := by
  obtain ⟨⟨rc, c'⟩, hsend⟩ := sendPacket_of_room hroom writes { c with buf := buf }
  obtain ⟨hrc, ⟨out, hout⟩, hwhole⟩ := sendPacket_ok hsend
  have hrun : sendSerialized c serialized writes = .ok (rc, c') := by
    rw [sendSerialized, hserial, ok_bind]
    simp only []
    rw [if_neg (by omega), Int.toNat_natCast]
    exact hsend
  rcases hrc with hrc | hrc
  · refine ⟨rc, packet, ?_, .inl hrc, fun _ => rfl⟩
    rw [hrun, hwhole hrc]
    show Except.ok (rc, MqttClient.sent _ (buf.toList.take packet.length)) = _
    rw [hfront]
    rfl
  · refine ⟨rc, out, ?_, .inr hrc, ?_⟩
    · rw [hrun, hout]
      rfl
    · intro hsuccess
      rw [hrc] at hsuccess
      cases hsuccess

/-- An acknowledgement goes out, or the call fails. -/
theorem sendSerialized_ack (hn : 8 ≤ n) (c : MqttClient n m) (packettype : BitVec 8)
    (packetid : BitVec 16) (writes : Writes) :
    ∃ rc buf out, sendSerialized c (mqttSerializeAck o c.buf n packettype 0 packetid) writes =
        .ok (rc, c.wrote buf out) ∧ (rc = success ∨ rc = failure) ∧
      (rc = success → out = ackPacket o packettype 0 packetid) := by
  have hfour := length_ackPacket o packettype 0 packetid
  obtain ⟨buf, hserial, hlist⟩ :=
    mqttSerializeAck_eq o c.buf (show 4 ≤ n by omega) le_rfl packettype 0 packetid
  have hfront : buf.toList.take (ackPacket o packettype 0 packetid).length =
      ackPacket o packettype 0 packetid := by
    rw [hlist, List.take_left' rfl]
  have hwritten : mqttSerializeAck o c.buf n packettype 0 packetid =
      .ok (((ackPacket o packettype 0 packetid).length : Int), buf) := by
    rw [hserial, hfour]
    rfl
  obtain ⟨rc, out, hsend, hrc, hout⟩ :=
    sendSerialized_of_room hwritten hfront (by omega) (by omega) c writes
  exact ⟨rc, buf, out, hsend, hrc, hout⟩

/-- The client has taken some packets: the handlers were called for them, in this order, and are as
they were. -/
structure Took (c : MqttClient n m) (ps : List Incoming) (c' : MqttClient n m) : Prop where
  isconnected : c'.isconnected = c.isconnected
  messageHandlers : c'.messageHandlers = c.messageHandlers
  defaultMessageHandler : c'.defaultMessageHandler = c.defaultMessageHandler
  calls : c'.calls.map HandlerCall.delivery =
    c.calls.map HandlerCall.delivery ++ ps.flatMap (Incoming.deliveries c)

theorem Took.refl (c : MqttClient n m) : Took c [] c := ⟨rfl, rfl, rfl, by simp⟩

theorem Took.deliveries {c c' : MqttClient n m} {ps : List Incoming} (h : Took c ps c') :
    Incoming.deliveries c' = Incoming.deliveries c := by
  funext p
  cases p with
  | message dup qos retained packetid topic payload =>
    simp only [Incoming.deliveries, receivers, h.messageHandlers, h.defaultMessageHandler]
  | other header body => rfl

theorem Took.trans {c c1 c2 : MqttClient n m} {ps qs : List Incoming} (h : Took c ps c1)
    (h' : Took c1 qs c2) : Took c (ps ++ qs) c2 where
  isconnected := h'.isconnected.trans h.isconnected
  messageHandlers := h'.messageHandlers.trans h.messageHandlers
  defaultMessageHandler := h'.defaultMessageHandler.trans h.defaultMessageHandler
  calls := by
    rw [h'.calls, h.calls, h.deliveries, List.flatMap_append, List.append_assoc]

/-- What has become of a packet: the client has taken it, and it was answered or the answer has
failed. -/
structure Handled (o : BitOrder) (junk : PublishData) (c : MqttClient n m) (p : Incoming) (rc : Int)
    (c' : MqttClient n m) : Prop where
  took : Took c [p] c'
  read : HoldsAt c'.readbuf 0 (p.bytes o)
  result : rc = failure ∨ rc = p.header.type.toNat
  sure : p.header.type ≠ publish → p.header.type ≠ pubrec → p.header.type ≠ 0 →
    rc = p.header.type.toNat
  wire : ∃ out, c'.wire = c.wire ++ out ∧ (rc ≠ failure → out = p.answer o junk)

/-- A message is read as it was sent, and a handler that is called with it gets it so. -/
theorem read_message {dup : BitVec 8} {qos : Nat} {retained : BitVec 8} {packetid : BitVec 16}
    {topic payload : List (BitVec 8)}
    (hfits : (Incoming.message dup qos retained packetid topic payload).Fits o m)
    (hread : HoldsAt c.readbuf 0
      ((Incoming.message dup qos retained packetid topic payload).bytes o)) :
    ∃ msg, mqttDeserializePublish o junk c.readbuf = .ok (1, msg) ∧ msg.qos = qos ∧
      msg.topicName = stored topic ∧ (0 < qos → msg.packetid = packetid) ∧
      ∀ fp arg, HandlerCall.delivery ⟨fp, arg, stored topic, msg,
          c.readbuf.toList.drop msg.payload⟩ =
        ⟨fp, arg, (dup.setWidth 1).setWidth 8, qos, (retained.setWidth 1).setWidth 8, topic,
          payload⟩ := by
  obtain ⟨hqos, htopic⟩ := hfits.proper
  have hhead := MqttHeader.ofByte_byte o (publishHeader dup qos retained)
  have hbits : (publishHeader dup qos retained).qos.toNat = qos := by
    rw [publishHeader, BitVec.toNat_ofNat]
    exact Nat.mod_eq_of_lt hqos
  have htype : (MqttHeader.ofByte o ((publishHeader dup qos retained).byte o)).type = publish := by
    rw [hhead]
    rfl
  have hbody : publishBody qos packetid topic payload =
      publishBody (MqttHeader.ofByte o ((publishHeader dup qos retained).byte o)).qos.toNat packetid
        topic payload := by
    rw [hhead, hbits]
  obtain ⟨hmsg, hpayload⟩ :=
    mqttDeserializePublish_wellFormed htype hbody hread hfits.short htopic junk
  rw [hhead, hbits] at hmsg
  refine ⟨_, hmsg, hbits, rfl, fun hpos => if_pos hpos, ?_⟩
  intro fp arg
  have hbytes : (c.readbuf.toList.drop _).take payload.length = payload := hpayload
  simp only [HandlerCall.delivery, PublishData.withHeader, hbits, Int.toNat_natCast]
  rw [hbytes]
  rfl

/-- A message calls its handlers and is answered. -/
theorem handlePublish_message (hn : 8 ≤ n) {dup : BitVec 8} {qos : Nat} {retained : BitVec 8}
    {packetid : BitVec 16} {topic payload : List (BitVec 8)}
    (hfits : (Incoming.message dup qos retained packetid topic payload).Fits o m)
    (hread : HoldsAt c.readbuf 0
      ((Incoming.message dup qos retained packetid topic payload).bytes o))
    (writes : Writes) :
    ∃ rc buf out calls, handlePublish o junk c writes = .ok (rc, (c.called calls).wrote buf out) ∧
      calls.map HandlerCall.delivery =
        (Incoming.message dup qos retained packetid topic payload).deliveries c ∧
      (rc = success ∨ rc = failure) ∧
      (rc = success →
        out = (Incoming.message dup qos retained packetid topic payload).answer o junk) := by
  obtain ⟨msg, hmsg, hlevel, hname, hid, hdelivery⟩ := read_message junk hfits hread
  obtain ⟨rc0, hdeliver⟩ := deliverMessage_stored c topic msg
  generalize hcalls : ((receivers c topic).map fun r => (⟨r.1, r.2, stored topic, msg,
    c.readbuf.toList.drop msg.payload⟩ : HandlerCall)) = calls at hdeliver
  have hdeliveries : calls.map HandlerCall.delivery =
      (Incoming.message dup qos retained packetid topic payload).deliveries c := by
    rw [← hcalls, List.map_map, Incoming.deliveries]
    congr 1
    funext r
    exact hdelivery r.1 r.2
  have hrun : handlePublish o junk c writes =
      if qos = 1 then sendSerialized (c.called calls)
        (mqttSerializeAck o (c.called calls).buf n (puback.setWidth 8) 0 msg.packetid) writes
      else if qos = 2 then sendSerialized (c.called calls)
        (mqttSerializeAck o (c.called calls).buf n (pubrec.setWidth 8) 0 msg.packetid) writes
      else if qos = 0 then .ok (success, c.called calls) else .ok (failure, c.called calls) := by
    rw [handlePublish, hmsg, ok_bind]
    simp only []
    rw [if_neg (by simp), hname, hdeliver, ok_bind]
    simp only [hlevel]
  rw [hrun]
  -- the answer is one of two acknowledgements, or none, and a message of level 3 fails
  by_cases h1 : qos = 1
  · obtain ⟨rc, buf, out, hsend, hrc, hout⟩ :=
      sendSerialized_ack (o := o) hn (c.called calls) (puback.setWidth 8) msg.packetid writes
    refine ⟨rc, buf, out, calls, by rw [if_pos h1, hsend], hdeliveries, hrc, ?_⟩
    intro hok
    rw [hout hok, hid (by omega), Incoming.answer, if_pos h1]
  · by_cases h2 : qos = 2
    · obtain ⟨rc, buf, out, hsend, hrc, hout⟩ :=
        sendSerialized_ack (o := o) hn (c.called calls) (pubrec.setWidth 8) msg.packetid writes
      refine ⟨rc, buf, out, calls, by rw [if_neg h1, if_pos h2, hsend], hdeliveries, hrc, ?_⟩
      intro hok
      rw [hout hok, hid (by omega), Incoming.answer, if_neg h1, if_pos h2]
    · have hsame : c.called calls = (c.called calls).wrote c.buf [] := by
        simp [MqttClient.wrote, MqttClient.called]
      rw [if_neg h1, if_neg h2]
      by_cases h0 : qos = 0
      · refine ⟨success, c.buf, [], calls, by rw [if_pos h0, ← hsame], hdeliveries, .inl rfl, ?_⟩
        intro hok
        rw [Incoming.answer, if_neg h1, if_neg h2]
      · refine ⟨failure, c.buf, [], calls, by rw [if_neg h0, ← hsame], hdeliveries, .inr rfl, ?_⟩
        intro hok
        rw [Incoming.answer, if_neg h1, if_neg h2]

/-- `cycle` after `readPacket`. -/
theorem cycle_of_readPacket {type : BitVec 4} {c1 : MqttClient n m}
    (hread : readPacket o c = .ok ((type.toNat : Int), c1)) (htype : type ≠ 0) (writes : Writes) :
    cycle o junk c writes = ((
      if type = publish then handlePublish o junk c1 writes
      else if type = pubrec then handlePubrec o junk c1 writes
      else if type = pingresp then .ok (success, { c1 with pingOutstanding := false })
      else .ok (success, c1)).bind fun r =>
        .ok (if r.1 = success then (type.toNat : Int) else r.1, r.2)) := by
  have hcast : ∀ t : BitVec 4, ((type.toNat : Int) = t.toNat) = (type = t) := by
    intro t
    rw [eq_iff_iff, Int.natCast_inj, BitVec.toNat_inj]
  have hzero : ¬ (type.toNat : Int) = 0 := by
    intro h0
    exact htype (BitVec.eq_of_toNat_eq (by simpa using h0))
  rw [cycle, hread, ok_bind]
  simp only []
  rw [if_neg (by omega), if_neg hzero]
  simp only [hcast]
  rfl

/-- `cycle` answers a PUBREC whatever it is for. -/
theorem handlePubrec_packet (hn : 8 ≤ n) {header : BitVec 8} {body : List (BitVec 8)}
    (hread : HoldsAt c.readbuf 0 (packetBytes header body)) (hlen : body.length < 128 ^ 4)
    (writes : Writes) :
    ∃ rc buf out, handlePubrec o junk c writes = .ok (rc, c.wrote buf out) ∧
      (rc = success ∨ rc = failure) ∧
      (rc = success → out = ackPacket o (pubrel.setWidth 8) 0 (ackId junk.packetid body)) := by
  obtain ⟨rc, buf, out, hsend, hrc, hout⟩ :=
    sendSerialized_ack (o := o) hn c (pubrel.setWidth 8) (ackId junk.packetid body) writes
  refine ⟨rc, buf, out, ?_, hrc, hout⟩
  rw [handlePubrec, mqttDeserializeAck_of_holdsAt o hread hlen, ok_bind]
  simp only []
  rw [if_neg (by simp)]
  exact hsend

/-- What `cycle` does with a packet that it has read. -/
theorem handle_packet (hn : 8 ≤ n) (hfits : p.Fits o m) (hread : HoldsAt c.readbuf 0 (p.bytes o))
    (writes : Writes) :
    ∃ rc buf out calls ping,
      (if p.header.type = publish then handlePublish o junk c writes
        else if p.header.type = pubrec then handlePubrec o junk c writes
        else if p.header.type = pingresp then .ok (success, { c with pingOutstanding := false })
        else .ok (success, c)) =
        .ok (rc, { (c.called calls).wrote buf out with pingOutstanding := ping }) ∧
      calls.map HandlerCall.delivery = p.deliveries c ∧ (rc = success ∨ rc = failure) ∧
      (p.header.type ≠ publish → p.header.type ≠ pubrec → rc = success) ∧
      (rc = success → out = p.answer o junk) := by
  cases p with
  | message dup qos retained packetid topic payload =>
    obtain ⟨rc, buf, out, calls, hhandle, hcalls, hrc, hout⟩ :=
      handlePublish_message junk hn hfits hread writes
    refine ⟨rc, buf, out, calls, c.pingOutstanding, ?_, hcalls, hrc, ?_, hout⟩
    · have htype : (Incoming.message dup qos retained packetid topic payload).header.type =
          publish :=
        rfl
      rw [if_pos htype, hhandle]
      rfl
    · intro hno
      exact absurd rfl hno
  | other header body =>
    have hno : (Incoming.other header body).header.type ≠ publish := hfits.proper
    have hsame : c =
        { (c.called []).wrote c.buf [] with pingOutstanding := c.pingOutstanding } := by
      simp [MqttClient.wrote, MqttClient.called]
    rw [if_neg hno]
    by_cases hrec : (Incoming.other header body).header.type = pubrec
    · obtain ⟨rc, buf, out, hhandle, hrc, hout⟩ :=
        handlePubrec_packet (o := o) junk (c := c) hn hread hfits.short writes
      refine ⟨rc, buf, out, [], c.pingOutstanding, ?_, rfl, hrc, fun _ h => absurd hrec h, ?_⟩
      · rw [if_pos hrec, hhandle]
        simp [MqttClient.wrote, MqttClient.called]
      · intro hok
        rw [hout hok]
        exact (if_pos hrec).symm
    · rw [if_neg hrec]
      have hanswer : Incoming.answer o junk (.other header body) = [] := if_neg hrec
      by_cases hping : (Incoming.other header body).header.type = pingresp
      · refine ⟨success, c.buf, [], [], false, ?_, rfl, .inl rfl, fun _ _ => rfl,
          fun _ => hanswer.symm⟩
        rw [if_pos hping]
        simp [MqttClient.wrote, MqttClient.called]
      · refine ⟨success, c.buf, [], [], c.pingOutstanding, ?_, rfl, .inl rfl, fun _ _ => rfl,
          fun _ => hanswer.symm⟩
        rw [if_neg hping, ← hsame]

/-- **A round of `cycle` takes one packet**: the handlers of a message are called, and no others, it
is answered, and what comes behind it is left. -/
theorem cycle_packet (hn : 8 ≤ n) (h : Stream c.sock (p.bytes o) rest) (hfits : p.Fits o m)
    (writes : Writes) :
    ∃ rc c', cycle o junk c writes = .ok (rc, c') ∧ c'.sock = rest ∧ Handled o junk c p rc c' := by
  obtain ⟨readbuf, hpacket, hholds⟩ := readPacket_stream (o := o) h hfits.short hfits.room
  rw [MqttHeader.ofByte_byte] at hpacket
  by_cases htype : p.header.type = 0
  · -- the type is taken for a failure of `readPacket`
    refine ⟨failure, c.received readbuf rest, ?_, rfl, ?_⟩
    · rw [cycle, hpacket, ok_bind, htype]
      rfl
    · have hnone : p.deliveries c = [] := by
        cases p with
        | message dup qos retained packetid topic payload =>
          exact absurd htype (show publish ≠ 0 by decide)
        | other header body => rfl
      exact {
        took := ⟨rfl, rfl, rfl, by simp [MqttClient.received, hnone]⟩
        read := hholds
        result := .inl rfl
        sure := fun _ _ hzero => absurd htype hzero
        wire := ⟨[], by simp [MqttClient.received], fun hok => absurd rfl hok⟩ }
  · obtain ⟨rc, buf, out, calls, ping, hhandle, hcalls, hrc, hsure, hout⟩ :=
      handle_packet junk (c := c.received readbuf rest) hn hfits hholds writes
    have hrun : cycle o junk c writes = .ok (
        if rc = success then (p.header.type.toNat : Int) else rc,
        { ((c.received readbuf rest).called calls).wrote buf out with
          pingOutstanding := ping }) := by
      rw [cycle_of_readPacket junk hpacket htype writes, hhandle]
      rfl
    refine ⟨_, _, hrun, rfl, ?_⟩
    constructor
    · refine ⟨rfl, rfl, rfl, ?_⟩
      show (c.calls ++ calls).map HandlerCall.delivery = _
      rw [List.map_append, hcalls]
      simp only [List.flatMap_cons, List.flatMap_nil, List.append_nil]
      rfl
    · exact hholds
    · rcases hrc with rfl | rfl
      · exact .inr rfl
      · exact .inl rfl
    · intro hmsg hrec _
      rw [if_pos (hsure hmsg hrec)]
    · refine ⟨out, rfl, ?_⟩
      intro hok
      rcases hrc with hrc | hrc
      · exact hout hrc
      · rw [hrc] at hok
        exact absurd rfl hok

/-- Where nothing comes, nothing is taken. -/
theorem cycle_pause {a : Arrival} (ha : a.IsPause) (hsock : recv 1 c.sock = (a, rest))
    (writes : Writes) :
    ∃ rc, cycle o junk c writes = .ok (rc, c.received c.readbuf rest) ∧ rc < 0 := by
  have hread : ∃ rc, readInto c 0 1 = .ok (rc, c.received c.readbuf rest) ∧ rc ≤ 0 := by
    rw [readInto, linuxRead, if_pos (by simp)]
    simp only [List.length_nil, Nat.sub_zero, hsock]
    rcases ha with rfl | rfl | rfl
    · exact ⟨timeout, rfl, by decide⟩
    · exact ⟨failure, rfl, by decide⟩
    · exact ⟨0, rfl, le_rfl⟩
  obtain ⟨rc, hread, hle⟩ := hread
  have hpacket : readPacket o c = .ok (rc, c.received c.readbuf rest) := by
    rw [readPacket, hread, ok_bind]
    simp only []
    rw [if_pos (by omega)]
  rw [cycle, hpacket, ok_bind]
  simp only []
  rcases Int.lt_or_eq_of_le hle with hneg | hzero
  · exact ⟨rc, by rw [if_pos hneg], hneg⟩
  · exact ⟨failure, by rw [if_neg (by omega), if_pos hzero], by decide⟩

end Handle

/-! ## Waiting and publishing -/

section Run

variable {o : BitOrder} (junk : PublishData)

/-- A round takes the next packet or nothing. -/
theorem cycle_arrives (hn : 8 ≤ n) {c : MqttClient n m} {ps : List Incoming}
    (harr : Arrives o c.sock ps) (hfits : ∀ p ∈ ps, p.Fits o m) (writes : Writes) :
    ∃ rc c' left, cycle o junk c writes = .ok (rc, c') ∧ Arrives o c'.sock left ∧
      (ps = left ∧ rc < 0 ∧ Took c [] c' ∨ ∃ p, ps = p :: left ∧ Handled o junk c p rc c') := by
  have htook : ∀ rest, Took c [] (c.received c.readbuf rest) := fun rest =>
    ⟨rfl, rfl, rfl, by simp [MqttClient.received]⟩
  generalize hsock : c.sock = sock at harr
  cases harr with
  | nothing =>
    have hrecv : recv 1 c.sock = (.again, []) := by
      rw [hsock]
      rfl
    obtain ⟨rc, hcycle, hneg⟩ := cycle_pause (o := o) junk (.inl rfl) hrecv writes
    exact ⟨rc, _, [], hcycle, Arrives.nothing, .inl ⟨rfl, hneg, htook []⟩⟩
  | @pause a sock ps ha harr =>
    have hrecv : recv 1 c.sock = (a, sock) := by
      rw [hsock]
      rcases ha with rfl | rfl | rfl <;> rfl
    obtain ⟨rc, hcycle, hneg⟩ := cycle_pause (o := o) junk ha hrecv writes
    exact ⟨rc, _, ps, hcycle, harr, .inl ⟨rfl, hneg, htook sock⟩⟩
  | @packet sock sock' p ps hstream harr =>
    -- a whole packet is there before the next pause, so its front is not lost in one
    obtain ⟨hp, -⟩ := List.forall_mem_cons.1 hfits
    obtain ⟨rc, c', hcycle, hrest, hhandled⟩ :=
      cycle_packet junk hn (hsock ▸ hstream) hp writes
    exact ⟨rc, c', ps, hcycle, hrest ▸ harr, .inr ⟨p, rfl, hhandled⟩⟩

/-- An acknowledgement that is waited for is the first one that comes. -/
theorem waitfor_arrives (hn : 8 ≤ n) {type : BitVec 4} (hzero : type ≠ 0) (hmsg : type ≠ publish)
    (hrec : type ≠ pubrec) (rounds : List Writes) {c : MqttClient n m} {ps : List Incoming}
    (harr : Arrives o c.sock ps) (hfits : ∀ p ∈ ps, p.Fits o m) :
    ∃ rc c' taken left, waitfor o junk type.toNat rounds c = .ok (rc, c') ∧ ps = taken ++ left ∧
      Arrives o c'.sock left ∧ Took c taken c' ∧
      (rc = failure ∧ (∀ p ∈ taken, p.header.type ≠ type) ∨
        rc = type.toNat ∧ ∃ front p, taken = front ++ [p] ∧ p.header.type = type ∧
          (∀ q ∈ front, q.header.type ≠ type) ∧ HoldsAt c'.readbuf 0 (p.bytes o)) := by
  induction rounds generalizing c ps with
  | nil =>
    exact ⟨failure, c, [], ps, rfl, rfl, harr, ⟨rfl, rfl, rfl, by simp⟩, .inl ⟨rfl, by simp⟩⟩
  | cons writes rounds ih =>
    obtain ⟨rc1, c1, left1, hcycle, harr1, hcase⟩ :=
      cycle_arrives junk hn harr hfits writes
    rw [waitfor, hcycle, ok_bind]
    simp only []
    rcases hcase with ⟨rfl, hneg, htook⟩ | ⟨p, rfl, hhandled⟩
    · obtain ⟨rc, c', taken, left, hwait, hps, harr', htook', hresult⟩ := ih harr1 hfits
      rw [if_neg (by omega)]
      exact ⟨rc, c', taken, left, hwait, hps, harr', htook.trans htook', hresult⟩
    · -- the first packet of the type ends the loop: no other one returns it
      by_cases htype : p.header.type = type
      · have hrc : rc1 = type.toNat := by
          rw [← htype] at hzero hmsg hrec ⊢
          exact hhandled.sure hmsg hrec hzero
        rw [if_pos hrc]
        exact ⟨rc1, c1, [p], left1, rfl, rfl, harr1, hhandled.took,
          .inr ⟨hrc, [], p, rfl, htype, by simp, hhandled.read⟩⟩
      · have hrc : rc1 ≠ type.toNat := by
          rcases hhandled.result with hfail | hother
          · rw [hfail]
            show (-1 : Int) ≠ type.toNat
            omega
          · rw [hother]
            intro heq
            exact htype (BitVec.eq_of_toNat_eq (Int.natCast_inj.1 heq))
        obtain ⟨rc, c', taken, left, hwait, hps, harr', htook', hresult⟩ :=
          ih harr1 (List.forall_mem_cons.1 hfits).2
        rw [if_neg hrc]
        refine ⟨rc, c', p :: taken, left, hwait, by rw [hps]; rfl, harr',
          hhandled.took.trans htook',
          ?_⟩
        rcases hresult with ⟨hfail, hnone⟩ | ⟨hok, front, q, htaken, hq, hfront, hread⟩
        · exact .inl ⟨hfail, List.forall_mem_cons.2 ⟨htype, hnone⟩⟩
        · exact .inr ⟨hok, p :: front, q, by rw [htaken]; rfl, hq,
            List.forall_mem_cons.2 ⟨htype, hfront⟩, hread⟩

/-- The packet is a PUBACK. -/
def Incoming.IsPuback (p : Incoming) : Bool := p.header.type == puback

/-- The message of level 1 can be written, and no call of `write` makes the next one read behind the
buffer. -/
structure PublishRun.Fits (n : Nat) (run : PublishRun) : Prop where
  qos : run.message.qos = 1
  payload : run.message.payloadlen = run.message.payload.length
  short : (publishBody 1 0 run.topicName run.message.payload).length < 128 ^ 4
  room : 2 * (publishPacket .top 0 1 0 0 run.topicName run.message.payload).length ≤ n

/-- `MQTTPublish` waits for the end of what it sends: a PUBACK, whatever its identifier. -/
theorem waitAck_arrives (hn : 8 ≤ n) (rounds : List Writes) {c : MqttClient n m}
    {ps : List Incoming} (harr : Arrives o c.sock ps) (hfits : ∀ p ∈ ps, p.Fits o m) :
    ∃ rc c' taken left, waitAck o junk puback c rounds = .ok (rc, c') ∧ ps = taken ++ left ∧
      Arrives o c'.sock left ∧ Took c taken c' ∧
      taken.countP Incoming.IsPuback = if rc = success then 1 else 0 := by
  obtain ⟨rc, c', taken, left, hwait, hps, harr', htook, hresult⟩ :=
    waitfor_arrives junk hn (show puback ≠ 0 by decide) (by decide) (by decide) rounds harr hfits
  rw [waitAck, hwait, ok_bind]
  simp only []
  rcases hresult with ⟨rfl, hnone⟩ | ⟨rfl, front, p, htaken, hp, hfront, hread⟩
  · refine ⟨failure, c', taken, left, by rw [if_neg (by decide)], hps, harr', htook, ?_⟩
    rw [List.countP_eq_zero.2 fun p hp => by simpa [Incoming.IsPuback] using hnone p hp]
    rfl
  · have hlast : p ∈ ps := by
      rw [hps, htaken]
      simp
    rw [if_pos rfl, mqttDeserializeAck_of_holdsAt o hread (hfits p hlast).short, ok_bind]
    refine ⟨success, c', taken, left, rfl, hps, harr', htook, ?_⟩
    have hpuback : p.IsPuback = true := by simp [Incoming.IsPuback, hp]
    rw [htaken, List.countP_append, List.countP_singleton, if_pos hpuback,
      List.countP_eq_zero.2 fun q hq => by simpa [Incoming.IsPuback] using hfront q hq]
    rfl

/-- A message that fits is serialized and sent, as far as the calls of `write` take it. -/
theorem sendSerialized_publish {run : PublishRun} (h : run.Fits n) (c : MqttClient n m)
    (packetid : BitVec 16) :
    ∃ rc buf out, sendSerialized c (mqttSerializePublish o c.buf n 0 run.message.qos
        run.message.retained packetid ⟨some run.topicName, 0, none⟩ run.message.payload
        run.message.payloadlen) run.writes = .ok (rc, c.wrote buf out) ∧
      (rc = success ∨ rc = failure) ∧
      (rc = success → out = publishPacket o 0 1 run.message.retained packetid run.topicName
        run.message.payload) := by
  have hlength : (publishBody 1 packetid run.topicName run.message.payload).length =
      (publishBody 1 0 run.topicName run.message.payload).length := by
    rw [length_publishBody, length_publishBody]
  have hpacket : (publishPacket o 0 1 run.message.retained packetid run.topicName
      run.message.payload).length =
        (publishPacket .top 0 1 0 0 run.topicName run.message.payload).length := by
    rw [publishPacket, publishPacket, length_packetBytes, length_packetBytes, hlength]
  have hroom := h.room
  rw [← hpacket] at hroom
  have hmeasure := mqttPacketLen_eq (hlength.trans_lt h.short)
  have hfit : mqttPacketLen (publishBody 1 packetid run.topicName run.message.payload).length ≤
      (n : Int) := by
    have hone : 1 + (Varint.encode (publishBody 1 packetid run.topicName
        run.message.payload).length).length +
          (publishBody 1 packetid run.topicName run.message.payload).length ≤ n / 2 := by
      rw [publishPacket, length_packetBytes] at hroom
      omega
    rw [hmeasure]
    split <;> omega
  have hdenotes : (⟨some run.topicName, 0, none⟩ : MqttString).Denotes run.topicName :=
    .inl ⟨rfl, le_rfl⟩
  have hserial := mqttSerializePublish_eq o c.buf n 0 1 run.message.retained packetid hdenotes
    run.message.payload [] hfit
  obtain ⟨buf, hput, hlist⟩ := Cursor.put_spec ⟨c.buf, 0⟩ (l := publishPacket o 0 1
    run.message.retained packetid run.topicName run.message.payload) (by
      show 0 + (publishPacket o 0 1 run.message.retained packetid run.topicName
        run.message.payload).length ≤ n
      omega)
  rw [hput, List.append_nil, ok_bind, done, Nat.zero_add] at hserial
  rw [h.qos, h.payload]
  have hfront : buf.toList.take (publishPacket o 0 1 run.message.retained packetid run.topicName
      run.message.payload).length =
        publishPacket o 0 1 run.message.retained packetid run.topicName run.message.payload := by
    rw [hlist, List.take_zero, List.nil_append, List.take_left' rfl]
  obtain ⟨rc, out, hsend, hrc, hout⟩ :=
    sendSerialized_of_room hserial hfront (by simp [publishPacket, packetBytes]) hroom c run.writes
  exact ⟨rc, buf, out, hsend, hrc, hout⟩

/-- A call of `MQTTPublish` succeeds by a PUBACK that it takes from the socket. -/
theorem mqttPublish_arrives (hn : 8 ≤ n) {run : PublishRun} (hrun : run.Fits n) {c : MqttClient n m}
    {ps : List Incoming} (harr : Arrives o c.sock ps) (hfits : ∀ p ∈ ps, p.Fits o m) :
    ∃ rc c' taken left, mqttPublish o junk c run = .ok (rc, c') ∧ ps = taken ++ left ∧
      Arrives o c'.sock left ∧ Took c taken c' ∧
      taken.countP Incoming.IsPuback = if rc = success then 1 else 0 := by
  by_cases hconn : c.isconnected = true
  · obtain ⟨rc, buf, out, hsend, hrc, -⟩ := sendSerialized_publish (o := o) hrun
      (getNextPacketId c).2 (BitVec.ofNat 16 (getNextPacketId c).1)
    have hbegin : mqttPublish o junk c run =
        if rc ≠ success then .ok (rc, (getNextPacketId c).2.wrote buf out)
        else waitAck o junk puback ((getNextPacketId c).2.wrote buf out) run.rounds := by
      rw [mqttPublish, if_neg (by simp [hconn])]
      simp only [if_pos (Or.inl hrun.qos : run.message.qos = 1 ∨ run.message.qos = 2)]
      rw [hsend, ok_bind]
      simp only []
      rw [if_pos hrun.qos]
    have htook : Took c [] ((getNextPacketId c).2.wrote buf out) :=
      ⟨rfl, rfl, rfl, by simp [MqttClient.wrote, getNextPacketId]⟩
    rw [hbegin]
    rcases hrc with rfl | rfl
    · obtain ⟨rc, c', taken, left, hwait, hps, harr', htook', hcount⟩ :=
        waitAck_arrives junk hn run.rounds (c := (getNextPacketId c).2.wrote buf out) harr
          hfits
      exact ⟨rc, c', taken, left, by rw [if_neg (by decide), hwait], hps, harr', htook.trans htook',
        hcount⟩
    · exact ⟨failure, (getNextPacketId c).2.wrote buf out, [], ps, by rw [if_pos (by decide)], rfl,
        harr, htook, rfl⟩
  · refine ⟨failure, c, [], ps, ?_, rfl, harr, Took.refl c, rfl⟩
    rw [mqttPublish, if_pos (by simpa using hconn)]

variable (o)

/-- Calls of `MQTTPublish`, one after the other, with what they return. -/
def mqttPublishes : List PublishRun → MqttClient n m →
    Except OutOfBounds (List Int × MqttClient n m)
  | [], c => .ok ([], c)
  | run :: runs, c => do
      let (rc, c) ← mqttPublish o junk c run
      let (rcs, c) ← mqttPublishes runs c
      .ok (rc :: rcs, c)

variable {o}

/-- **Over any calls of `MQTTPublish`**, the packets of the server are taken in their order, however
they are cut and wherever it is late: the handlers get each message that was taken once, and as many
calls succeed as PUBACKs were taken, whatever their identifiers. -/
theorem mqttPublishes_arrives (hn : 8 ≤ n) {runs : List PublishRun}
    (hruns : ∀ run ∈ runs, run.Fits n) {c : MqttClient n m} {ps : List Incoming}
    (harr : Arrives o c.sock ps) (hfits : ∀ p ∈ ps, p.Fits o m) :
    ∃ rcs c' taken left, mqttPublishes o junk runs c = .ok (rcs, c') ∧ ps = taken ++ left ∧
      Arrives o c'.sock left ∧
      c'.calls.map HandlerCall.delivery =
        c.calls.map HandlerCall.delivery ++ taken.flatMap (Incoming.deliveries c) ∧
      rcs.count success = taken.countP Incoming.IsPuback := by
  suffices hrun : ∃ rcs c' taken left, mqttPublishes o junk runs c = .ok (rcs, c') ∧
      ps = taken ++ left ∧ Arrives o c'.sock left ∧ Took c taken c' ∧
      rcs.count success = taken.countP Incoming.IsPuback by
    obtain ⟨rcs, c', taken, left, hrcs, hps, harr', htook, hcount⟩ := hrun
    exact ⟨rcs, c', taken, left, hrcs, hps, harr', htook.calls, hcount⟩
  induction runs generalizing c ps with
  | nil => exact ⟨[], c, [], ps, rfl, rfl, harr, Took.refl c, rfl⟩
  | cons run runs ih =>
    obtain ⟨hrun, hruns⟩ := List.forall_mem_cons.1 hruns
    obtain ⟨rc, c1, taken1, left1, hfirst, rfl, harr1, htook1, hcount1⟩ :=
      mqttPublish_arrives junk hn hrun harr hfits
    obtain ⟨rcs, c', taken, left, hrest, rfl, harr', htook, hcount⟩ :=
      ih hruns harr1 fun p hp => hfits p (List.mem_append_right _ hp)
    refine ⟨rc :: rcs, c', taken1 ++ taken, left, ?_, (List.append_assoc _ _ _).symm, harr',
      htook1.trans htook, ?_⟩
    · rw [mqttPublishes, hfirst, ok_bind]
      simp only []
      rw [hrest]
      rfl
    · rw [List.count_cons, hcount, List.countP_append, hcount1, Nat.add_comm]
      simp

end Run

/-- A message of level 1 to `a` that is written in two pieces, with time for three rounds. -/
def threeRounds : PublishRun where
  topicName := [0x61#8]
  message := ⟨1, 0#8, [0x2A#8], 1⟩
  id := 0
  writes := [some 3, some 5]
  rounds := [[some 64], [], [some 64]]

/-- A message of level 1 from the server, under `b`. -/
def bMessage : Incoming := .message 0#8 1 0#8 7#16 [0x62#8] [0x2B#8]

/-- The PUBACK of another call. -/
def strayAck : Incoming := .other ⟨puback, 0, 0, 0⟩ [0#8, 9#8]

/-- A message of level 0, under `c`. -/
def cMessage : Incoming := .message 0#8 0 0#8 0#16 [0x63#8] [0x2B#8, 0x2C#8]

/-- The messages and the PUBACK, with a pause in front of it. -/
def lateClient : MqttClient 32 8 :=
  connectedClient [.bytes (bMessage.bytes .top), .again, .bytes (strayAck.bytes .top),
    .bytes (cMessage.bytes .top)]

theorem arrives_lateClient : Arrives .top lateClient.sock [bMessage, strayAck, cMessage] := by
  have hstream : ∀ (p : Incoming) (sock : List Arrival),
      Stream (.bytes (p.bytes .top) :: sock) (p.bytes .top) sock := by
    intro p sock
    have hne : ∀ q ∈ [p.bytes .top], q ≠ [] := by simp [Incoming.bytes, packetBytes]
    simpa using stream_pieces hne sock
  exact Arrives.packet (hstream bMessage _) (Arrives.pause (.inl rfl)
    (Arrives.packet (hstream strayAck _) (Arrives.packet (hstream cMessage _) Arrives.nothing)))

theorem fits_lateClient : ∀ p ∈ [bMessage, strayAck, cMessage], p.Fits .top 8 := by
  have hroom : ∀ (header : BitVec 8) (body : List (BitVec 8)), body.length ≤ 6 →
      (packetBytes header body).length ≤ 8 := by
    intro header body hle
    rw [length_packetBytes, Varint.encode_of_lt (by omega)]
    show 1 + 1 + body.length ≤ 8
    omega
  intro p hp
  simp only [List.mem_cons, List.not_mem_nil, or_false] at hp
  rcases hp with rfl | rfl | rfl
  · exact ⟨by decide, hroom _ _ (by decide), by decide, by decide⟩
  · exact ⟨by decide, hroom _ _ (by decide), show puback ≠ publish by decide⟩
  · exact ⟨by decide, hroom _ _ (by decide), by decide, by decide⟩

/-- A socket that gives nothing more has no packet. -/
theorem eq_nil_of_arrives {ps : List Incoming} {o : BitOrder} (h : Arrives o [] ps) : ps = [] := by
  cases h with
  | nothing => rfl
  | @packet _ sock' p ps hstream _ =>
    have hbytes : p.bytes o ≠ [] := by simp [Incoming.bytes, packetBytes]
    generalize p.bytes o = l at hstream hbytes
    cases hstream
    exact absurd rfl hbytes

/-- The first of two calls succeeds by the PUBACK of another one, and the second has no time to wait
for its own. -/
theorem mqttPublishes_arrives_late :
    ∃ c',
      mqttPublishes .top noMessage [threeRounds, { threeRounds with rounds := [[]] }] lateClient =
        .ok ([success, failure], c') ∧ c'.sock = [] ∧
      c'.calls.map HandlerCall.delivery =
        [⟨1, some 2, 0#8, 1, 0#8, [0x62#8], [0x2B#8]⟩,
          ⟨1, some 2, 0#8, 0, 0#8, [0x63#8], [0x2B#8, 0x2C#8]⟩] ∧
      ([success, failure] : List Int).count success =
        [bMessage, strayAck, cMessage].countP Incoming.IsPuback := by
  have hruns : ∀ run ∈ [threeRounds, { threeRounds with rounds := [[]] }], run.Fits 32 := by
    have hroom : 2 * (publishPacket .top 0 1 0 0 [0x61#8] [0x2A#8]).length ≤ 32 := by
      rw [publishPacket, length_packetBytes, Varint.encode_of_lt (by decide)]
      decide
    intro run hrun
    rcases List.mem_pair.1 hrun with rfl | rfl
    · exact ⟨rfl, rfl, by decide, hroom⟩
    · exact ⟨rfl, rfl, by decide, hroom⟩
  obtain ⟨rcs, c', taken, left, hrun, hps, harr, hcalls, hcount⟩ :=
    mqttPublishes_arrives noMessage (by decide) hruns arrives_lateClient fits_lateClient
  -- the first call takes all three packets, and nothing is left for the second
  have heval : (mqttPublishes .top noMessage [threeRounds, { threeRounds with rounds := [[]] }]
      lateClient).map (fun r => (r.1, r.2.sock)) = .ok ([success, failure], []) := by decide +kernel
  rw [hrun] at heval
  obtain ⟨rfl, hsock⟩ : rcs = [success, failure] ∧ c'.sock = [] := by
    simpa [Except.map] using heval
  rw [hsock] at harr
  rw [eq_nil_of_arrives harr, List.append_nil] at hps
  subst hps
  exact ⟨c', hrun, hsock, hcalls, hcount⟩

end DraginoFwd.Mqtt
