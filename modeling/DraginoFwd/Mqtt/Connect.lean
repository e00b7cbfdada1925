import DraginoFwd.Mqtt.Publish

/-!
# Connections and subscriptions

Model of `MQTTConnectClient.c`, of `MQTTDeserialize_connect` in `MQTTConnectServer.c` and of
`MQTTSubscribeClient.c`. What `MQTTSerialize_connect` writes `MQTTDeserialize_connect` reads back
(`mqttDeserializeConnect_mqttSerializeConnect`), unless the last of the credentials is empty.
`MQTTDeserialize_suback` stores up to `maxcount + 1` numbers, one more than its comment says that
the array has places for (`mqttDeserializeSuback_packet`).
-/

set_option autoImplicit false

namespace DraginoFwd.Mqtt

open DraginoFwd.Lib
open DraginoFwd.Lib.Memory

variable {n : Nat}

/-! ## The code: CONNECT -/

/-- `MQTTConnectFlags` -/
@[ext] structure MqttConnectFlags where
  username : BitVec 1
  password : BitVec 1
  willRetain : BitVec 1
  willQos : BitVec 2
  will : BitVec 1
  cleansession : BitVec 1
  unused : BitVec 1
  deriving DecidableEq, Repr

/-- `flags.all`, from `flags.bits` -/
def MqttConnectFlags.all : BitOrder → MqttConnectFlags → BitVec 8
  | .top, f => f.username ++ f.password ++ f.willRetain ++ f.willQos ++ f.will ++ f.cleansession ++
      f.unused
  | .bottom, f => f.unused ++ f.cleansession ++ f.will ++ f.willQos ++ f.willRetain ++ f.password ++
      f.username

/-- `flags.bits`, from `flags.all` -/
def MqttConnectFlags.ofAll : BitOrder → BitVec 8 → MqttConnectFlags
  | .top, b => ⟨b.extractLsb' 7 1, b.extractLsb' 6 1, b.extractLsb' 5 1, b.extractLsb' 3 2,
      b.extractLsb' 2 1, b.extractLsb' 1 1, b.extractLsb' 0 1⟩
  | .bottom, b => ⟨b.extractLsb' 0 1, b.extractLsb' 1 1, b.extractLsb' 2 1, b.extractLsb' 3 2,
      b.extractLsb' 5 1, b.extractLsb' 6 1, b.extractLsb' 7 1⟩

/-- `MQTTPacket_willOptions` -/
structure MqttPacketWillOptions where
  topicName : MqttString
  message : MqttString
  retained : BitVec 8
  qos : BitVec 8
  deriving DecidableEq, Repr

/-- `MQTTPacket_connectData` -/
structure MqttPacketConnectData where
  mqttVersion : BitVec 8
  clientID : MqttString
  keepAliveInterval : BitVec 16
  cleansession : BitVec 8
  willFlag : BitVec 8
  will : MqttPacketWillOptions
  username : MqttString
  password : MqttString
  deriving DecidableEq, Repr

/-- `MQTTPacket_connectData_initializer` -/
def MqttPacketConnectData.initializer : MqttPacketConnectData :=
  ⟨4, .initializer, 60, 1, 0, ⟨.initializer, .initializer, 0, 0⟩, .initializer, .initializer⟩

/-- `s.cstring || s.lenstring.data` -/
def MqttString.given (s : MqttString) : Bool := s.cstring.isSome || s.data.isSome

/-- `MQTTSerialize_connectLength` -/
def mqttSerializeConnectLength (options : MqttPacketConnectData) : Int :=
  (if options.mqttVersion = 3 then 12 else if options.mqttVersion = 4 then 10 else 0) +
    (mqttStrlen options.clientID + 2) +
    (if options.willFlag ≠ 0 then
      mqttStrlen options.will.topicName + 2 + mqttStrlen options.will.message + 2 else 0) +
    (if options.username.given then mqttStrlen options.username + 2 else 0) +
    (if options.password.given then mqttStrlen options.password + 2 else 0)

/-- `"MQTT"`, the name in version 4 -/
def protocolName : List (BitVec 8) := [0x4D#8, 0x51#8, 0x54#8, 0x54#8]
/-- `"MQIsdp"`, the name in version 3 -/
def protocolName3 : List (BitVec 8) := [0x4D#8, 0x51#8, 0x49#8, 0x73#8, 0x64#8, 0x70#8]

/-- The flags that `MQTTSerialize_connect` sets. -/
def connectFlags (options : MqttPacketConnectData) : MqttConnectFlags where
  username := BitVec.ofBool options.username.given
  password := BitVec.ofBool options.password.given
  willRetain := if options.willFlag ≠ 0 then options.will.retained.setWidth 1 else 0
  willQos := if options.willFlag ≠ 0 then options.will.qos.setWidth 2 else 0
  will := BitVec.ofBool (options.willFlag ≠ 0)
  cleansession := options.cleansession.setWidth 1
  unused := 0

/-- `if (options->willFlag)` -/
def writeWill (w : Cursor (BitVec 8) n) (options : MqttPacketConnectData) :
    Except OutOfBounds (Cursor (BitVec 8) n) :=
  if options.willFlag ≠ 0 then do
    let w ← writeMqttString w options.will.topicName
    writeMqttString w options.will.message
  else .ok w

/-- `MQTTSerialize_connect` -/
def mqttSerializeConnect (o : BitOrder) (buf : Vector (BitVec 8) n) (buflen : Int)
    (options : MqttPacketConnectData) : Except OutOfBounds (Int × Vector (BitVec 8) n) :=
  let len := mqttSerializeConnectLength options
  if buflen < mqttPacketLen len then .ok (bufferTooShort, buf)
  else do
    let header : MqttHeader := ⟨connect, 0, 0, 0⟩
    let w ← writeChar ⟨buf, 0⟩ (header.byte o)
    let w ← mqttPacketEncode w len
    let w ← writeCString w (if options.mqttVersion = 4 then protocolName else protocolName3)
    let w ← writeChar w (if options.mqttVersion = 4 then 4 else 3)
    let flags := connectFlags options
    let w ← writeChar w (flags.all o)
    let w ← writeInt w options.keepAliveInterval.toNat
    let w ← writeMqttString w options.clientID
    let w ← writeWill w options
    let w ← (if flags.username ≠ 0 then writeMqttString w options.username else .ok w)
    let w ← (if flags.password ≠ 0 then writeMqttString w options.password else .ok w)
    .ok ((w.ptr : Int), w.buf)

/-- `MQTTPacket_checkVersion`: `memcmp` with the length of the name, if that is shorter -/
def mqttPacketCheckVersion (protocol : List (BitVec 8)) (version : BitVec 8) : Bool :=
  version = 3 ∧ protocol.take 6 = protocolName3.take protocol.length ∨
    version = 4 ∧ protocol.take 4 = protocolName.take protocol.length

/-- The will of `MQTTDeserialize_connect`. -/
def readWill (flags : MqttConnectFlags) (buf : Vector (BitVec 8) n) (curdata enddata : Nat)
    (will : MqttPacketWillOptions) : Except OutOfBounds (Bool × MqttPacketWillOptions × Nat) :=
  if flags.will = 0 then .ok (true, will, curdata)
  else do
    let will := { will with
      qos := flags.willQos.setWidth 8
      retained := flags.willRetain.setWidth 8 }
    let (found, topicName, curdata) ← readMqttLenString will.topicName buf curdata enddata
    let will := { will with topicName := topicName }
    if !found then .ok (false, will, curdata)
    else
      let (found, message, curdata) ← readMqttLenString will.message buf curdata enddata
      .ok (found, { will with message := message }, curdata)

/-- `enddata - curdata < 3 || !readMQTTLenString(..)`, for one of the credentials -/
def readCredential (s : MqttString) (buf : Vector (BitVec 8) n) (curdata enddata : Nat) :
    Except OutOfBounds (Bool × MqttString × Nat) :=
  if enddata < curdata + 3 then .ok (false, s, curdata) else readMqttLenString s buf curdata enddata

/-- The credentials of `MQTTDeserialize_connect`. -/
def readCredentials (flags : MqttConnectFlags) (buf : Vector (BitVec 8) n) (curdata enddata : Nat)
    (data : MqttPacketConnectData) : Except OutOfBounds (Int × MqttPacketConnectData) :=
  if flags.username ≠ 0 then do
    let (found, username, curdata) ← readCredential data.username buf curdata enddata
    let data := { data with username := username }
    if !found then .ok (0, data)
    else if flags.password ≠ 0 then do
      let (found, password, _) ← readCredential data.password buf curdata enddata
      .ok (if found then 1 else 0, { data with password := password })
    else .ok (1, data)
  else if flags.password ≠ 0 then .ok (0, data)
  else .ok (1, data)

/-- `MQTTDeserialize_connect`, over what `data` held before -/
def mqttDeserializeConnect (o : BitOrder) (data : MqttPacketConnectData) (buf : Vector (BitVec 8) n)
    (len : Nat) : Except OutOfBounds (Int × MqttPacketConnectData) := do
  let enddata := len
  let (c, curdata) ← readChar buf 0
  if (MqttHeader.ofByte o c).type ≠ connect then .ok (0, data)
  else
    let (count, _) ← mqttPacketDecodeBuf buf curdata
    let (found, protocol, curdata) ← readMqttLenString .initializer buf (curdata + count) enddata
    if !found ∨ enddata < curdata then .ok (0, data)
    else
      let (version, curdata) ← readChar buf curdata
      if mqttPacketCheckVersion (protocol.data.getD []) version then
        let (all, curdata) ← readChar buf curdata
        let flags := MqttConnectFlags.ofAll o all
        let data := { data with cleansession := flags.cleansession.setWidth 8 }
        let (keepAliveInterval, curdata) ← readInt buf curdata
        let data := { data with keepAliveInterval := BitVec.ofNat 16 keepAliveInterval }
        let (found, clientID, curdata) ← readMqttLenString data.clientID buf curdata enddata
        let data := { data with clientID := clientID }
        if !found then .ok (0, data)
        else
          let data := { data with willFlag := flags.will.setWidth 8 }
          let (found, will, curdata) ← readWill flags buf curdata enddata data.will
          let data := { data with will := will }
          if !found then .ok (0, data) else readCredentials flags buf curdata enddata data
      else .ok (0, data)

/-! ## The code: the other packets -/

/-- `MQTTDeserialize_connack`: what it returns, `sessionPresent` and `connack_rc` -/
def mqttDeserializeConnack (o : BitOrder) (sessionPresent connackRc : BitVec 8)
    (buf : Vector (BitVec 8) n) : Except OutOfBounds (Int × BitVec 8 × BitVec 8) := do
  let (c, curdata) ← readChar buf 0
  if (MqttHeader.ofByte o c).type ≠ connack then .ok (0, sessionPresent, connackRc)
  else
    let (rc, mylen) ← mqttPacketDecodeBuf buf curdata
    if mylen < 2 then .ok ((rc : Int), sessionPresent, connackRc)
    else
      let (all, curdata) ← readChar buf (curdata + rc)
      let (code, _) ← readChar buf curdata
      let present := match o with
        | .top => all.extractLsb' 7 1
        | .bottom => all.extractLsb' 0 1
      .ok (1, present.setWidth 8, code)

/-- `MQTTSerialize_zero` -/
def mqttSerializeZero (o : BitOrder) (buf : Vector (BitVec 8) n) (buflen : Int)
    (packettype : BitVec 8) : Except OutOfBounds (Int × Vector (BitVec 8) n) :=
  if buflen < 2 then .ok (bufferTooShort, buf)
  else do
    let header : MqttHeader := ⟨packettype.setWidth 4, 0, 0, 0⟩
    let w ← writeChar ⟨buf, 0⟩ (header.byte o)
    let w ← mqttPacketEncode w 0
    .ok ((w.ptr : Int), w.buf)

/-- `MQTTSerialize_disconnect` -/
def mqttSerializeDisconnect (o : BitOrder) (buf : Vector (BitVec 8) n) (buflen : Int) :=
  mqttSerializeZero o buf buflen (disconnect.setWidth 8)

/-- `MQTTSerialize_subscribeLength`, for `count` filters -/
def mqttSerializeSubscribeLength (topicFilters : List MqttString) : Int :=
  topicFilters.foldl (fun len s => len + (2 + mqttStrlen s + 1)) 2

/-- The filters and levels of `MQTTSerialize_subscribe`. -/
def writeFilters : List (MqttString × BitVec 8) → Cursor (BitVec 8) n →
    Except OutOfBounds (Cursor (BitVec 8) n)
  | [], w => .ok w
  | (topicFilter, requestedQos) :: filters, w => do
      let w ← writeMqttString w topicFilter
      let w ← writeChar w requestedQos
      writeFilters filters w

/-- `MQTTSerialize_subscribe`, with the filters and the levels side by side -/
def mqttSerializeSubscribe (o : BitOrder) (buf : Vector (BitVec 8) n) (buflen : Int)
    (dup : BitVec 8)
    (packetid : BitVec 16) (filters : List (MqttString × BitVec 8)) :
    Except OutOfBounds (Int × Vector (BitVec 8) n) :=
  let remLen := mqttSerializeSubscribeLength (filters.map Prod.fst)
  if buflen < mqttPacketLen remLen then .ok (bufferTooShort, buf)
  else do
    let header : MqttHeader := ⟨subscribe, dup.setWidth 1, 1, 0⟩
    let w ← writeChar ⟨buf, 0⟩ (header.byte o)
    let w ← mqttPacketEncode w remLen
    let w ← writeInt w packetid.toNat
    let w ← writeFilters filters w
    .ok ((w.ptr : Int), w.buf)

/-- The value of a `char`, which is a signed number on some targets. -/
def charValue (signed : Bool) (c : BitVec 8) : Int := if signed then c.toInt else c.toNat

/-- The loop of `MQTTDeserialize_suback`. -/
def readGranted (signed : Bool) (maxcount : Int) (buf : Vector (BitVec 8) n) {k : Nat}
    (grantedQoss : Vector Int k) (count curdata enddata : Nat) :
    Except OutOfBounds (Int × Nat × Vector Int k) :=
  if curdata < enddata then
    if maxcount < (count : Int) then .ok (-1, count, grantedQoss)
    else do
      let (c, _) ← readChar buf curdata
      let grantedQoss ← write grantedQoss count (charValue signed c)
      readGranted signed maxcount buf grantedQoss (count + 1) (curdata + 1) enddata
  else .ok (1, count, grantedQoss)
termination_by enddata - curdata

/-- `MQTTDeserialize_suback`: what it returns, the identifier, `count` and the array -/
def mqttDeserializeSuback (o : BitOrder) (signed : Bool) (packetid : BitVec 16) (maxcount : Int)
    (count : Nat) {k : Nat} (grantedQoss : Vector Int k) (buf : Vector (BitVec 8) n) :
    Except OutOfBounds (Int × BitVec 16 × Nat × Vector Int k) := do
  let (c, curdata) ← readChar buf 0
  if (MqttHeader.ofByte o c).type ≠ suback then .ok (0, packetid, count, grantedQoss)
  else
    let (rc, mylen) ← mqttPacketDecodeBuf buf curdata
    let curdata := curdata + rc
    let enddata := curdata + mylen
    if mylen < 2 then .ok ((rc : Int), packetid, count, grantedQoss)
    else
      let (id, curdata) ← readInt buf curdata
      let (rc, count, grantedQoss) ← readGranted signed maxcount buf grantedQoss 0 curdata enddata
      .ok (rc, BitVec.ofNat 16 id, count, grantedQoss)

/-! ## What a connection is asked for with -/

@[simp] theorem MqttConnectFlags.ofAll_all (o : BitOrder) (f : MqttConnectFlags) :
    ofAll o (f.all o) = f := by
  obtain ⟨username, password, willRetain, willQos, will, cleansession, unused⟩ := f
  cases o <;>
  · simp only [ofAll, all, mk.injEq]
    refine ⟨?_, ?_, ?_, ?_, ?_, ?_, ?_⟩ <;>
    · ext i hi
      simp
      grind

/-- The texts of a connection. -/
structure ConnectText where
  client : List (BitVec 8)
  will : Option (List (BitVec 8) × List (BitVec 8))
  username : Option (List (BitVec 8))
  password : Option (List (BitVec 8))

/-- A string is given, with these characters, or it is not. -/
def MqttString.Gives (s : MqttString) : Option (List (BitVec 8)) → Prop
  | some t => s.given = true ∧ s.Denotes t
  | none => s.given = false

/-- The options have these texts. -/
structure MqttPacketConnectData.Describes (options : MqttPacketConnectData) (t : ConnectText) :
    Prop where
  version : options.mqttVersion = 3 ∨ options.mqttVersion = 4
  client : options.clientID.Denotes t.client
  will : (options.willFlag ≠ 0 ↔ t.will.isSome)
  willText : ∀ w ∈ t.will, options.will.topicName.Denotes w.1 ∧ options.will.message.Denotes w.2
  username : options.username.Gives t.username
  password : options.password.Gives t.password

theorem MqttPacketConnectData.Describes.willFlag_of_none {options : MqttPacketConnectData}
    {t : ConnectText} (h : options.Describes t) (hw : t.will = none) : ¬ options.willFlag ≠ 0 := by
  intro hne
  have hsome := h.will.1 hne
  rw [hw] at hsome
  cases hsome

theorem MqttPacketConnectData.Describes.willFlag_of_some {options : MqttPacketConnectData}
    {t : ConnectText} (h : options.Describes t) {w : List (BitVec 8) × List (BitVec 8)}
    (hw : t.will = some w) : options.willFlag ≠ 0 := h.will.2 (by rw [hw]; rfl)

/-- The protocol and its version. -/
def protocolBytes (version : BitVec 8) : List (BitVec 8) :=
  if version = 4 then field protocolName ++ [4] else field protocolName3 ++ [3]

/-- The topic and the message of the will. -/
def ConnectText.willBytes (t : ConnectText) : List (BitVec 8) :=
  t.will.elim [] fun w => field w.1 ++ field w.2

/-- The name and the password. -/
def ConnectText.credentialBytes (t : ConnectText) : List (BitVec 8) :=
  t.username.elim [] field ++ t.password.elim [] field

/-- What stands behind the remaining length of a CONNECT packet. -/
def connectBody (o : BitOrder) (options : MqttPacketConnectData) (t : ConnectText) :
    List (BitVec 8) :=
  protocolBytes options.mqttVersion ++ [(connectFlags options).all o] ++
    twoBytes options.keepAliveInterval.toNat ++ field t.client ++ t.willBytes ++ t.credentialBytes

/-- A CONNECT packet. -/
def connectPacket (o : BitOrder) (options : MqttPacketConnectData) (t : ConnectText) :
    List (BitVec 8) :=
  packetBytes (MqttHeader.byte o ⟨connect, 0, 0, 0⟩) (connectBody o options t)

/-! ## Writing -/

section WriteConnect

variable {options : MqttPacketConnectData} {t : ConnectText}

theorem length_given {s : MqttString} {u : Option (List (BitVec 8))} (h : s.Gives u) :
    (if s.given then mqttStrlen s + 2 else 0) = (u.elim [] field).length := by
  cases u with
  | none =>
    rw [show s.given = false from h]
    rfl
  | some u =>
    rw [h.1, if_pos rfl, mqttStrlen_eq h.2, Option.elim_some, length_field]
    omega

theorem mqttSerializeConnectLength_eq (h : options.Describes t) (o : BitOrder) :
    mqttSerializeConnectLength options = (connectBody o options t).length := by
  have hwill : (if options.willFlag ≠ 0 then
      mqttStrlen options.will.topicName + 2 + mqttStrlen options.will.message + 2 else 0) =
        (t.willBytes.length : Int) := by
    cases hw : t.will with
    | none =>
      rw [if_neg (h.willFlag_of_none hw), ConnectText.willBytes, hw]
      rfl
    | some w =>
      obtain ⟨htopic, hmessage⟩ := h.willText w hw
      rw [if_pos (h.willFlag_of_some hw), ConnectText.willBytes, hw, mqttStrlen_eq htopic,
        mqttStrlen_eq hmessage, Option.elim_some, List.length_append, length_field, length_field]
      omega
  rw [mqttSerializeConnectLength, hwill, length_given h.username, length_given h.password,
    mqttStrlen_eq h.client]
  simp only [connectBody, ConnectText.credentialBytes, List.length_append, length_field,
    length_twoBytes, List.length_singleton]
  rcases h.version with hv | hv <;>
  · simp [hv, protocolBytes, protocolName, protocolName3]
    omega

theorem writeGiven_eq {s : MqttString} {u : Option (List (BitVec 8))} (h : s.Gives u)
    (w : Cursor (BitVec 8) n) :
    (if BitVec.ofBool s.given ≠ 0 then writeMqttString w s else .ok w) =
      w.put (u.elim [] field) := by
  cases u with
  | none =>
    rw [show s.given = false from h]
    rfl
  | some u =>
    rw [h.1, if_pos (by decide), writeMqttString_eq h.2]
    rfl

theorem writeWill_eq (h : options.Describes t) (w : Cursor (BitVec 8) n) :
    writeWill w options = w.put t.willBytes := by
  rw [writeWill, ConnectText.willBytes]
  cases hw : t.will with
  | none =>
    rw [if_neg (h.willFlag_of_none hw)]
    rfl
  | some texts =>
    obtain ⟨htopic, hmessage⟩ := h.willText texts hw
    rw [if_pos (h.willFlag_of_some hw)]
    simp only [writeMqttString_eq htopic, writeMqttString_eq hmessage, Cursor.put_bind_put]
    rfl

/-- The parts of a CONNECT packet are written one behind the other. -/
theorem mqttSerializeConnect_eq (h : options.Describes t) (o : BitOrder) (buf : Vector (BitVec 8) n)
    {buflen : Int} (hroom : mqttPacketLen (connectBody o options t).length ≤ buflen) :
    mqttSerializeConnect o buf buflen options =
      Cursor.put ⟨buf, 0⟩ (connectPacket o options t) >>= done := by
  have hname : ∀ w : Cursor (BitVec 8) n,
      writeCString w (if options.mqttVersion = 4 then protocolName else protocolName3) =
        w.put (field (if options.mqttVersion = 4 then protocolName else protocolName3)) := by
    intro w
    rw [writeCString, writeInt_eq, Cursor.put_bind_put, field]
  have husername : (connectFlags options).username = BitVec.ofBool options.username.given := rfl
  have hpassword : (connectFlags options).password = BitVec.ofBool options.password.given := rfl
  rw [mqttSerializeConnect, mqttSerializeConnectLength_eq h o, if_neg (Int.not_lt.2 hroom)]
  simp only [writeChar, mqttPacketEncode_eq, hname, writeInt_eq, writeMqttString_eq h.client,
    writeWill_eq h, husername, hpassword, writeGiven_eq h.username, writeGiven_eq h.password,
    Cursor.put_bind_put_bind]
  rw [connectPacket, packetBytes, connectBody, protocolBytes, ConnectText.credentialBytes]
  congr 2
  split <;> simp only [List.cons_append, List.nil_append, List.append_assoc]

end WriteConnect

/-! ## Reading -/

section ReadConnect

variable {options : MqttPacketConnectData} {t : ConnectText}

/-- A string that was read. -/
def stored (t : List (BitVec 8)) : MqttString := ⟨none, t.length, some t⟩

/-- The credentials that `MQTTDeserialize_connect` accepts: no password without a name, and the last
one is not empty. -/
def ConnectText.Readable (t : ConnectText) : Prop :=
  match t.username, t.password with
  | none, none => True
  | none, some _ => False
  | some u, none => u ≠ []
  | some _, some p => p ≠ []

/-- No text has more than 65535 bytes. -/
structure ConnectText.Short (t : ConnectText) : Prop where
  client : t.client.length < 65536
  will : ∀ w ∈ t.will, w.1.length < 65536 ∧ w.2.length < 65536
  username : ∀ u ∈ t.username, u.length < 65536
  password : ∀ p ∈ t.password, p.length < 65536

variable {buf : Vector (BitVec 8) n} {ptr : Nat}

theorem readCredential_last (buf : Vector (BitVec 8) n) {ptr enddata : Nat} (h : enddata < ptr + 3)
    (s : MqttString) : readCredential s buf ptr enddata = .ok (false, s, ptr) := if_pos h

theorem readCredential_of_holdsAt {u : List (BitVec 8)} (hu : u.length < 65536)
    (h : HoldsAt buf ptr (field u)) (enddata : Nat) (hend : ptr + (2 + u.length) ≤ enddata)
    (hthree : ptr + 3 ≤ enddata) (hfit : enddata ≤ n) (s : MqttString) :
    readCredential s buf ptr enddata = .ok (true, stored u, ptr + (2 + u.length)) :=
  (if_neg (Nat.not_lt.2 hthree)).trans (readMqttLenString_of_holdsAt hu h hend (by omega) s)

/-- What `MQTTDeserialize_connect` stores of the credentials. -/
def MqttPacketConnectData.withCredentials (data : MqttPacketConnectData) (t : ConnectText) :
    MqttPacketConnectData :=
  { data with
    username := t.username.elim data.username stored
    password := t.password.elim data.password stored }

theorem readCredentials_of_holdsAt {flags : MqttConnectFlags}
    (husername : flags.username = BitVec.ofBool t.username.isSome)
    (hpassword : flags.password = BitVec.ofBool t.password.isSome) (hshort : t.Short)
    (h : HoldsAt buf ptr t.credentialBytes) (hfit : ptr + t.credentialBytes.length ≤ n)
    (data : MqttPacketConnectData) :
    ∃ rc data', readCredentials flags buf ptr (ptr + t.credentialBytes.length) data =
        .ok (rc, data') ∧ (rc = 1 ↔ t.Readable) ∧
      (rc = 1 → data' = data.withCredentials t) := by
  obtain ⟨client, will, username, password⟩ := t
  rw [readCredentials, husername, hpassword]
  rw [ConnectText.credentialBytes] at h hfit ⊢
  match username, password with
  | none, none => exact ⟨1, data, rfl, by simp [ConnectText.Readable], fun _ => rfl⟩
  | none, some p => exact ⟨0, data, rfl, by simp [ConnectText.Readable], fun hone => by cases hone⟩
  | some [], none =>
    have hread := readCredential_last buf
      (show ptr + ((some []).elim [] field ++ none.elim [] field).length < ptr + 3 by simp [field])
    rw [if_pos (by simp), hread]
    exact ⟨0, _, rfl, by simp [ConnectText.Readable], fun hone => by cases hone⟩
  | some (c :: u), none =>
    have hu := hshort.username (c :: u) rfl
    have hread := readCredential_of_holdsAt hu h.left
      (ptr + ((some (c :: u)).elim [] field ++ none.elim [] field).length)
      (by simp) (by simp; omega) hfit
    rw [if_pos (by simp), hread]
    exact ⟨1, _, rfl, by simp [ConnectText.Readable], fun _ => rfl⟩
  | some u, some p =>
    have hu := hshort.username u rfl
    have hp := hshort.password p rfl
    have hread := readCredential_of_holdsAt hu h.left
      (ptr + ((some u).elim [] field ++ (some p).elim [] field).length)
      (by simp) (by simp; omega) hfit
    have hword := h.right
    rw [Option.elim_some, length_field] at hword
    rw [if_pos (by simp), hread, ok_bind]
    simp only [Bool.not_true, Bool.false_eq_true, if_false]
    rw [if_pos (by simp)]
    cases p with
    | nil =>
      have hlast := readCredential_last buf
        (show ptr + ((some u).elim [] field ++ (some []).elim [] field).length <
          ptr + (2 + u.length) + 3 by simp [field]; omega)
      rw [hlast]
      exact ⟨0, _, rfl, by simp [ConnectText.Readable], fun hone => by cases hone⟩
    | cons c p =>
      have hsecond := readCredential_of_holdsAt hp hword
        (ptr + ((some u).elim [] field ++ (some (c :: p)).elim [] field).length)
        (by simp; omega) (by simp; omega) hfit
      rw [hsecond]
      exact ⟨1, _, rfl, by simp [ConnectText.Readable], fun _ => rfl⟩

/-- What `MQTTDeserialize_connect` stores of the will. -/
def MqttPacketWillOptions.read (will : MqttPacketWillOptions) (flags : MqttConnectFlags)
    (t : ConnectText) : MqttPacketWillOptions :=
  t.will.elim will fun w =>
    ⟨stored w.1, stored w.2, flags.willRetain.setWidth 8, flags.willQos.setWidth 8⟩

theorem readWill_of_holdsAt {flags : MqttConnectFlags}
    (hwill : flags.will = BitVec.ofBool t.will.isSome) (hshort : t.Short)
    (h : HoldsAt buf ptr t.willBytes) {enddata : Nat} (hend : ptr + t.willBytes.length ≤ enddata)
    (hfit : enddata ≤ n) (will : MqttPacketWillOptions) :
    readWill flags buf ptr enddata will =
      .ok (true, will.read flags t, ptr + t.willBytes.length) := by
  rw [readWill, hwill, MqttPacketWillOptions.read]
  rw [ConnectText.willBytes] at h hend ⊢
  cases hw : t.will with
  | none => rfl
  | some w =>
    obtain ⟨htopic, hmessage⟩ := hshort.will w hw
    simp only [hw, Option.elim_some, List.length_append, length_field] at h hend
    have hsecond := h.right
    rw [length_field] at hsecond
    simp only [Option.isSome_some, Option.elim_some, List.length_append, length_field]
    rw [if_neg (by decide),
      readMqttLenString_of_holdsAt htopic h.left (by omega) (by omega), ok_bind]
    simp only [Bool.not_true, Bool.false_eq_true, if_false]
    rw [readMqttLenString_of_holdsAt hmessage hsecond (by omega) (by omega), ok_bind, Nat.add_assoc]
    rfl

theorem connectFlags_of_describes (h : options.Describes t) :
    (connectFlags options).username = BitVec.ofBool t.username.isSome ∧
      (connectFlags options).password = BitVec.ofBool t.password.isSome ∧
      (connectFlags options).will = BitVec.ofBool t.will.isSome := by
  have hgiven : ∀ (s : MqttString) u, s.Gives u → s.given = u.isSome := by
    intro s u hs
    cases u with
    | none => exact hs
    | some u => exact hs.1
  have hwill : decide (options.willFlag ≠ 0) = t.will.isSome := by
    rw [Bool.eq_iff_iff, decide_eq_true_eq]
    exact h.will
  exact ⟨congrArg BitVec.ofBool (hgiven _ _ h.username),
    congrArg BitVec.ofBool (hgiven _ _ h.password), congrArg BitVec.ofBool hwill⟩

theorem mqttPacketCheckVersion_protocol (version : BitVec 8) :
    mqttPacketCheckVersion (if version = 4 then protocolName else protocolName3)
      (if version = 4 then 4 else 3) = true := by
  split <;> decide

/-- What `MQTTDeserialize_connect` stores of a connection. -/
def MqttPacketConnectData.read (data options : MqttPacketConnectData) (t : ConnectText) :
    MqttPacketConnectData :=
  { data with
    cleansession := (options.cleansession.setWidth 1).setWidth 8
    keepAliveInterval := options.keepAliveInterval
    clientID := stored t.client
    willFlag := (BitVec.ofBool t.will.isSome).setWidth 8
    will := data.will.read (connectFlags options) t
    username := t.username.elim data.username stored
    password := t.password.elim data.password stored }

theorem mqttDeserializeConnect_of_holdsAt {o : BitOrder} (h : options.Describes t)
    (hshort : t.Short) (hlen : (connectBody o options t).length < 128 ^ 4)
    (hholds : HoldsAt buf 0 (connectPacket o options t)) (data : MqttPacketConnectData) :
    ∃ rc data', mqttDeserializeConnect o data buf (connectPacket o options t).length =
        .ok (rc, data') ∧ (rc = 1 ↔ t.Readable) ∧
      (rc = 1 → data' = data.read options t) := by
  obtain ⟨husername, hpassword, hwill⟩ := connectFlags_of_describes h
  obtain ⟨hheader, hlength, hbody⟩ := holdsAt_packet hholds
  have hfit := fits_of_holdsAt hbody (by simp [connectBody, twoBytes])
  -- the parts of the body, one behind the other
  generalize hstart : bodyStart (connectBody o options t) = start at hbody hfit
  have hend : (connectPacket o options t).length = start + (connectBody o options t).length := by
    rw [← hstart]
    exact length_packetBytes _ _
  rw [hend]
  generalize hname : (if options.mqttVersion = 4 then protocolName else protocolName3) = name
  have hnameLen : name.length < 65536 := by
    rw [← hname]
    split <;> decide
  have hprotocol : protocolBytes options.mqttVersion =
      field name ++ [if options.mqttVersion = 4 then 4 else 3] := by
    rw [protocolBytes, ← hname]
    split <;> rfl
  rw [connectBody, hprotocol] at hbody hfit
  have hprotocolAt := hbody.left.left.left.left.left.left
  have hversionAt := hbody.left.left.left.left.left.right
  have hflagsAt := hbody.left.left.left.left.right
  have hkeepAt := hbody.left.left.left.right
  have hclientAt := hbody.left.left.right
  have hwillAt := hbody.left.right
  have hcredentialsAt := hbody.right
  rw [length_field] at hversionAt
  simp only [List.length_append, length_field, List.length_singleton] at hflagsAt hkeepAt
  simp only [List.length_append, length_field, List.length_singleton, length_twoBytes] at hclientAt
  simp only [List.length_append, length_field, List.length_singleton,
    length_twoBytes] at hwillAt hfit
  simp only [List.length_append, length_field, List.length_singleton,
    length_twoBytes] at hcredentialsAt
  have htotal : start + (connectBody o options t).length =
      start + (2 + name.length + 1 + 1 + 2 + (2 + t.client.length) + t.willBytes.length) +
        t.credentialBytes.length := by
    rw [connectBody, hprotocol]
    simp only [List.length_append, length_field, List.length_singleton, length_twoBytes]
    omega
  rw [mqttDeserializeConnect, readChar_of_holdsAt hheader, ok_bind]
  simp only [MqttHeader.ofByte_byte, ne_eq, not_true_eq_false, if_false]
  rw [mqttPacketDecodeBuf_of_holdsAt hlen hlength, ok_bind]
  simp only []
  rw [show 0 + 1 + (Varint.encode (connectBody o options t).length).length = start from hstart,
    htotal,
    readMqttLenString_of_holdsAt hnameLen hprotocolAt (by omega) (by omega), ok_bind]
  simp only [Bool.not_true, Bool.false_eq_true, false_or, Option.getD_some]
  rw [if_neg (by omega), readChar_of_holdsAt hversionAt, ok_bind]
  simp only []
  rw [← hname, mqttPacketCheckVersion_protocol, if_pos rfl, hname]
  rw [show start + (2 + name.length) + 1 = start + (2 + name.length + 1) by omega,
    readChar_of_holdsAt hflagsAt, ok_bind]
  simp only [MqttConnectFlags.ofAll_all]
  rw [show start + (2 + name.length + 1) + 1 = start + (2 + name.length + 1 + 1) by omega,
    readInt_of_holdsAt options.keepAliveInterval.isLt hkeepAt, ok_bind]
  simp only []
  rw [show start + (2 + name.length + 1 + 1) + 2 = start + (2 + name.length + 1 + 1 + 2) by omega,
    readMqttLenString_of_holdsAt hshort.client hclientAt (by omega) (by omega), ok_bind]
  simp only [Bool.not_true, Bool.false_eq_true, if_false]
  rw [show start + (2 + name.length + 1 + 1 + 2) + (2 + t.client.length) =
      start + (2 + name.length + 1 + 1 + 2 + (2 + t.client.length)) by omega,
    readWill_of_holdsAt hwill hshort hwillAt (by omega) (by omega), ok_bind]
  simp only [Bool.not_true, Bool.false_eq_true, if_false]
  rw [show start + (2 + name.length + 1 + 1 + 2 + (2 + t.client.length)) + t.willBytes.length =
      start + (2 + name.length + 1 + 1 + 2 + (2 + t.client.length) + t.willBytes.length) by omega]
  obtain ⟨rc, data', hread, hrc, hdata⟩ := readCredentials_of_holdsAt husername hpassword hshort
    hcredentialsAt (by omega) { data with
      cleansession := (connectFlags options).cleansession.setWidth 8
      keepAliveInterval := BitVec.ofNat 16 options.keepAliveInterval.toNat
      clientID := stored t.client
      willFlag := (connectFlags options).will.setWidth 8
      will := data.will.read (connectFlags options) t }
  refine ⟨rc, data', hread, hrc, ?_⟩
  intro hone
  rw [hdata hone, hwill, BitVec.ofNat_toNat, BitVec.setWidth_eq]
  rfl

theorem length_connectBody_lt (hshort : t.Short) (o : BitOrder) (options : MqttPacketConnectData) :
    (connectBody o options t).length < 128 ^ 4 := by
  have hwill : t.willBytes.length ≤ 131074 := by
    rw [ConnectText.willBytes]
    cases hw : t.will with
    | none => simp
    | some w =>
      obtain ⟨htopic, hmessage⟩ := hshort.will w hw
      rw [Option.elim_some, List.length_append, length_field, length_field]
      omega
  have hcredential : ∀ u : Option (List (BitVec 8)), (∀ x ∈ u, x.length < 65536) →
      (u.elim [] field).length ≤ 65537 := by
    intro u hu
    cases u with
    | none => simp
    | some u =>
      have hlt := hu u rfl
      rw [Option.elim_some, length_field]
      omega
  have husername := hcredential t.username hshort.username
  have hpassword := hcredential t.password hshort.password
  have hclient := hshort.client
  have hprotocol : (protocolBytes options.mqttVersion).length ≤ 9 := by
    rw [protocolBytes]
    split <;> decide
  rw [connectBody, ConnectText.credentialBytes]
  simp only [List.length_append, length_field, List.length_singleton, length_twoBytes]
  omega

/-- **A connection is read as it was asked for**, if there is no password without a name and the
last of the credentials is not empty. -/
theorem mqttDeserializeConnect_mqttSerializeConnect (h : options.Describes t) (hshort : t.Short)
    (o : BitOrder) (buf : Vector (BitVec 8) n) {buflen : Nat} (hbuf : buflen ≤ n)
    (hroom : mqttPacketLen (connectBody o options t).length ≤ buflen) :
    ∃ buf', mqttSerializeConnect o buf buflen options =
        .ok ((connectPacket o options t).length, buf') ∧
      buf'.toList = connectPacket o options t ++
        buf.toList.drop (connectPacket o options t).length ∧
      ∀ data, ∃ rc data', mqttDeserializeConnect o data buf' (connectPacket o options t).length =
          .ok (rc, data') ∧ (rc = 1 ↔ t.Readable) ∧
        (rc = 1 → data' = data.read options t) := by
  have hlen := length_connectBody_lt hshort o options
  have hpacket : (connectPacket o options t).length = bodyStart (connectBody o options t) +
      (connectBody o options t).length := length_packetBytes _ _
  have hfit : (0 : Nat) + (connectPacket o options t).length ≤ n := by
    have hmeasure := mqttPacketLen_eq hlen
    rw [hpacket, bodyStart]
    omega
  obtain ⟨buf', hput, hlist⟩ := Cursor.put_spec ⟨buf, 0⟩ hfit
  have hholds : HoldsAt buf' 0 (connectPacket o options t) := copy_self (Cursor.put_ok hput).1 hfit
  refine ⟨buf', ?_, ?_, mqttDeserializeConnect_of_holdsAt h hshort hlen hholds⟩
  · rw [mqttSerializeConnect_eq h o buf hroom, hput, ok_bind, done, Nat.zero_add]
  · rw [hlist, List.take_zero, List.nil_append, Nat.zero_add]

theorem mqttDeserializeConnect_mqttSerializeConnect_password :
    let options : MqttPacketConnectData := { MqttPacketConnectData.initializer with
      clientID := ⟨some [0x67#8], 0, none⟩
      username := ⟨some [0x75#8], 0, none⟩
      password := ⟨some [0x70#8], 0, none⟩ }
    let t : ConnectText := ⟨[0x67#8], none, some [0x75#8], some [0x70#8]⟩
    ∃ buf', mqttSerializeConnect .top (Vector.replicate 32 0#8) (32 : Nat) options =
        .ok ((connectPacket .top options t).length, buf') ∧
      buf'.toList = connectPacket .top options t ++
        (Vector.replicate 32 0#8).toList.drop (connectPacket .top options t).length ∧
      ∀ data, ∃ rc data', mqttDeserializeConnect .top data buf'
          (connectPacket .top options t).length = .ok (rc, data') ∧ (rc = 1 ↔ t.Readable) ∧
        (rc = 1 → data' = data.read options t) := by
  intro options t
  have hdescribes : options.Describes t := {
    version := .inr rfl
    client := .inl ⟨rfl, le_rfl⟩
    will := by decide
    willText := fun w hw => by cases hw
    username := ⟨rfl, .inl ⟨rfl, le_rfl⟩⟩
    password := ⟨rfl, .inl ⟨rfl, le_rfl⟩⟩ }
  have hshort : t.Short := {
    client := by decide
    will := fun w hw => by cases hw
    username := fun u hu => by cases hu; decide
    password := fun p hp => by cases hp; decide }
  exact mqttDeserializeConnect_mqttSerializeConnect hdescribes hshort .top _ (by decide) (by decide)

end ReadConnect

/-! ## What a subscription asks for -/

section WriteSubscribe

variable {filters : List (MqttString × BitVec 8)} {texts : List (List (BitVec 8) × BitVec 8)}

/-- The filters have these texts and levels. -/
def DescribeFilters : List (MqttString × BitVec 8) → List (List (BitVec 8) × BitVec 8) → Prop :=
  List.Forall₂ fun s t => s.1.Denotes t.1 ∧ s.2 = t.2

/-- Filters, each with its level behind it. -/
def filterBytes (texts : List (List (BitVec 8) × BitVec 8)) : List (BitVec 8) :=
  texts.flatMap fun t => field t.1 ++ [t.2]

/-- The header of a subscription, and what it has behind it. -/
def subscribePacket (o : BitOrder) (dup : BitVec 8) (packetid : BitVec 16)
    (texts : List (List (BitVec 8) × BitVec 8)) : List (BitVec 8) :=
  packetBytes (MqttHeader.byte o ⟨subscribe, dup.setWidth 1, 1, 0⟩)
    (twoBytes packetid.toNat ++ filterBytes texts)

theorem filtersLength_eq (h : DescribeFilters filters texts) (len : Int) :
    (filters.map Prod.fst).foldl (fun len s => len + (2 + mqttStrlen s + 1)) len =
      len + (filterBytes texts).length := by
  induction h generalizing len with
  | nil => simp [filterBytes]
  | @cons s t filters texts hs _ ih =>
    rw [List.map_cons, List.foldl_cons, ih, mqttStrlen_eq hs.1, filterBytes, filterBytes,
      List.flatMap_cons, List.length_append, List.length_append, length_field,
      List.length_singleton]
    omega

theorem mqttSerializeSubscribeLength_eq (h : DescribeFilters filters texts) (packetid : BitVec 16) :
    mqttSerializeSubscribeLength (filters.map Prod.fst) =
      (twoBytes packetid.toNat ++ filterBytes texts).length := by
  rw [mqttSerializeSubscribeLength, filtersLength_eq h, List.length_append, length_twoBytes]
  omega

theorem writeFilters_eq (h : DescribeFilters filters texts) (w : Cursor (BitVec 8) n) :
    writeFilters filters w = w.put (filterBytes texts) := by
  induction h generalizing w with
  | nil => rfl
  | @cons s t filters texts hs _ ih =>
    have hrest : writeFilters filters = fun w : Cursor (BitVec 8) n => w.put (filterBytes texts) :=
      funext ih
    obtain ⟨s, level⟩ := s
    obtain ⟨hname, rfl⟩ := hs
    rw [writeFilters, hrest]
    simp only [writeMqttString_eq hname, writeChar, Cursor.put_bind_put]
    rw [filterBytes, filterBytes, List.flatMap_cons, List.append_assoc]

/-- **A subscription is written with all its filters**, behind each its level. The buffer is too
short, and stays as it is, where `MQTTPacket_len` says so. -/
theorem mqttSerializeSubscribe_packet (h : DescribeFilters filters texts) (o : BitOrder)
    (buf : Vector (BitVec 8) n) {buflen : Nat} (hbuf : buflen ≤ n) (dup : BitVec 8)
    (packetid : BitVec 16)
    (hlen : (twoBytes packetid.toNat ++ filterBytes texts).length < 128 ^ 4) :
    let packet := subscribePacket o dup packetid texts
    let result := mqttSerializeSubscribe o buf buflen dup packetid filters
    (buflen < mqttPacketLen (twoBytes packetid.toNat ++ filterBytes texts).length →
      result = .ok (bufferTooShort, buf)) ∧
    (mqttPacketLen (twoBytes packetid.toNat ++ filterBytes texts).length ≤ buflen →
      ∃ buf', result = .ok ((packet.length : Int), buf') ∧ HoldsAt buf' 0 packet ∧
        buf'.toList = packet ++ buf.toList.drop packet.length) := by
  intro packet result
  have hmeasure := mqttSerializeSubscribeLength_eq h packetid
  constructor
  · intro hshort
    show mqttSerializeSubscribe o buf buflen dup packetid filters = _
    rw [mqttSerializeSubscribe, hmeasure, if_pos hshort]
  · intro hroom
    have hpacket : packet.length = 1 +
        (Varint.encode (twoBytes packetid.toNat ++ filterBytes texts).length).length +
          (twoBytes packetid.toNat ++ filterBytes texts).length := length_packetBytes _ _
    have hfit : (0 : Nat) + packet.length ≤ n := by
      have hcount := mqttPacketLen_eq hlen
      rw [hpacket]
      omega
    obtain ⟨buf', hput, hlist⟩ := Cursor.put_spec ⟨buf, 0⟩ hfit
    refine ⟨buf', ?_, copy_self (Cursor.put_ok hput).1 hfit, ?_⟩
    · show mqttSerializeSubscribe o buf buflen dup packetid filters = _
      have hparts : mqttSerializeSubscribe o buf buflen dup packetid filters =
          Cursor.put ⟨buf, 0⟩ packet >>= done := by
        rw [mqttSerializeSubscribe, hmeasure, if_neg (Int.not_lt.2 hroom)]
        simp only [writeChar, mqttPacketEncode_eq, writeInt_eq, writeFilters_eq h,
          Cursor.put_bind_put_bind]
        rfl
      rw [hparts, hput, ok_bind, done, Nat.zero_add]
    · rw [hlist, List.take_zero, List.nil_append, Nat.zero_add]

theorem mqttSerializeSubscribe_packet_two :
    let texts := [([0x61#8], 0#8), ([0x62#8, 0x2F#8, 0x23#8], 1#8)]
    let packet := subscribePacket .top 0#8 7#16 texts
    ∃ buf', mqttSerializeSubscribe .top (Vector.replicate 32 0#8) (32 : Nat) 0#8 7#16
        [(⟨some [0x61#8], 0, none⟩, 0#8), (⟨some [0x62#8, 0x2F#8, 0x23#8], 0, none⟩, 1#8)] =
          .ok ((packet.length : Int), buf') ∧ HoldsAt buf' 0 packet ∧
      buf'.toList = packet ++ (Vector.replicate 32 0#8).toList.drop packet.length := by
  intro texts packet
  have hfilters : DescribeFilters
      [(⟨some [0x61#8], 0, none⟩, 0#8), (⟨some [0x62#8, 0x2F#8, 0x23#8], 0, none⟩, 1#8)] texts :=
    .cons ⟨.inl ⟨rfl, le_rfl⟩, rfl⟩ (.cons ⟨.inl ⟨rfl, le_rfl⟩, rfl⟩ .nil)
  exact (mqttSerializeSubscribe_packet hfilters .top (Vector.replicate 32 0#8) (by decide) 0#8 7#16
    (by decide)).2 (by decide)

end WriteSubscribe

/-! ## What a subscription is answered with -/

section ReadSuback

variable {buf : Vector (BitVec 8) n} {k : Nat}

/-- The numbers are stored one behind the other as long as `count` is not above `maxcount`, also
behind the array. -/
theorem readGranted_eq (signed : Bool) (maxcount : Int) {codes : List (BitVec 8)} {curdata : Nat}
    (h : HoldsAt buf curdata codes) (grantedQoss : Vector Int k) (count : Nat) :
    readGranted signed maxcount buf grantedQoss count curdata (curdata + codes.length) =
      (copy grantedQoss count
        ((codes.take (maxcount + 1 - count).toNat).map (charValue signed))).map fun granted =>
          (if codes.length ≤ (maxcount + 1 - count).toNat then 1 else -1,
            count + ((codes.take (maxcount + 1 - count).toNat).map (charValue signed)).length,
            granted) := by
  induction codes generalizing curdata count grantedQoss with
  | nil =>
    rw [readGranted, if_neg (by simp), List.take_nil]
    simp [copy, Except.map]
  | cons c codes ih =>
    have hfirst : HoldsAt buf curdata [c] := HoldsAt.left (l := [c]) h
    have hrest : HoldsAt buf (curdata + 1) codes := HoldsAt.right (l := [c]) h
    have hend : curdata + (c :: codes).length = curdata + 1 + codes.length := by
      rw [List.length_cons]
      omega
    rw [hend, readGranted, if_pos (by omega)]
    by_cases hfull : maxcount < (count : Int)
    · -- `maxcount + 1` numbers are stored
      rw [if_pos hfull, show (maxcount + 1 - count).toNat = 0 by omega, List.take_zero]
      simp [copy, Except.map]
    · have hone : (maxcount + 1 - count).toNat = (maxcount + 1 - (count + 1 : Nat)).toNat + 1 := by
        omega
      rw [if_neg hfull, readChar_of_holdsAt hfirst, ok_bind, hone, List.take_succ_cons,
        List.map_cons,
        copy]
      simp only [List.length_cons, Nat.add_le_add_iff_right, ← Nat.add_assoc,
        Nat.add_right_comm count _ 1]
      by_cases hroom : count < k
      · rw [write_ok grantedQoss _ hroom]
        exact ih hrest (grantedQoss.set count (charValue signed c)) (count + 1)
      · rw [write, dif_neg hroom]
        rfl

/-- **`MQTTDeserialize_suback` stores `maxcount + 1` numbers**, if the packet has so many, also
behind an array of fewer places; only with more in the packet it returns -1. -/
theorem mqttDeserializeSuback_packet (o : BitOrder) (signed : Bool) {header : BitVec 8}
    {packetid : BitVec 16} {codes : List (BitVec 8)}
    (h : HoldsAt buf 0 (packetBytes header (twoBytes packetid.toNat ++ codes)))
    (htype : (MqttHeader.ofByte o header).type = suback)
    (hlen : (twoBytes packetid.toNat ++ codes).length < 128 ^ 4) (id : BitVec 16) (maxcount : Int)
    (count : Nat) (grantedQoss : Vector Int k) :
    let granted := (codes.take (maxcount + 1).toNat).map (charValue signed)
    let result := mqttDeserializeSuback o signed id maxcount count grantedQoss buf
    (granted.length ≤ k →
      ∃ grantedQoss', result = .ok (if codes.length ≤ (maxcount + 1).toNat then 1 else -1, packetid,
          granted.length, grantedQoss') ∧
        grantedQoss'.toList = granted ++ grantedQoss.toList.drop granted.length) ∧
    (k < granted.length → ∃ e, result = .error e) := by
  intro granted result
  obtain ⟨hheader, hlength, hbody⟩ := holdsAt_packet h
  have hcodes := hbody.right
  rw [length_twoBytes] at hcodes
  have hread := readGranted_eq signed maxcount hcodes grantedQoss 0
  rw [Nat.cast_zero, Int.sub_zero, Nat.zero_add] at hread
  have hsuback : result = (copy grantedQoss 0 granted).map fun grantedQoss' =>
      (if codes.length ≤ (maxcount + 1).toNat then 1 else -1, packetid, granted.length,
        grantedQoss') := by
    show mqttDeserializeSuback o signed id maxcount count grantedQoss buf = _
    rw [mqttDeserializeSuback, readChar_of_holdsAt hheader, ok_bind]
    simp only [htype, ne_eq, not_true_eq_false, if_false]
    rw [mqttPacketDecodeBuf_of_holdsAt hlen hlength, ok_bind]
    simp only []
    rw [show 0 + 1 + (Varint.encode (twoBytes packetid.toNat ++ codes).length).length =
        bodyStart (twoBytes packetid.toNat ++ codes) from rfl, List.length_append, length_twoBytes,
      if_neg (by omega), readInt_of_holdsAt packetid.isLt hbody.left, ok_bind]
    simp only []
    rw [← Nat.add_assoc, hread, BitVec.ofNat_toNat, BitVec.setWidth_eq]
    show _ = (copy grantedQoss 0 granted).map _
    cases copy grantedQoss 0 granted with
    | error e => rfl
    | ok grantedQoss' => rfl
  rw [hsuback]
  constructor
  · intro hle
    obtain ⟨grantedQoss', hcopy, hlist⟩ := copy_spec grantedQoss 0 granted (by simpa using hle)
    refine ⟨grantedQoss', by rw [hcopy]; rfl, ?_⟩
    simpa using hlist
  · intro hlt
    obtain ⟨e, herror⟩ := copy_error grantedQoss 0 granted
      (by rintro hnil; simp [hnil] at hlt) (by simpa using hlt)
    exact ⟨e, by rw [herror]; rfl⟩

/-- Four numbers with `maxcount` 1: in an array of three places two are stored, and in one of a
single place the second one behind it. -/
theorem mqttDeserializeSuback_packet_four :
    let buf : Vector (BitVec 8) 8 := #v[0x90#8, 6#8, 0#8, 7#8, 1#8, 0#8, 2#8, 1#8]
    (∃ grantedQoss', mqttDeserializeSuback .top true 0#16 1 0 #v[9, 9, 9] buf =
        .ok (-1, 7#16, 2, grantedQoss') ∧ grantedQoss'.toList = [1, 0, 9]) ∧
      ∃ e, mqttDeserializeSuback .top true 0#16 1 0 #v[9] buf = .error e := by
  intro buf
  have hpacket : HoldsAt buf 0
      (packetBytes 0x90#8 (twoBytes (7#16).toNat ++ [1#8, 0#8, 2#8, 1#8])) := by
    rw [packetBytes, Varint.encode_of_lt (by decide)]
    rfl
  exact ⟨(mqttDeserializeSuback_packet .top true hpacket (by decide) (by decide) 0#16 1 0
      #v[9, 9, 9]).1 (by decide),
    (mqttDeserializeSuback_packet .top true hpacket (by decide) (by decide) 0#16 1 0 #v[9]).2
      (by decide)⟩

end ReadSuback

end DraginoFwd.Mqtt
