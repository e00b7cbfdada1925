import DraginoFwd.Hal
import DraginoFwd.Lib.Memory

/-!
# The payload of an MQTT uplink

Model of `payload_deal` in `mqtt_serv.c`, which cuts what stands in front of the data off a packet
and publishes the rest: a RadioHead header of four bytes, or everything to the `>` of a channel
`<id>` among the first 16 bytes. The start of the data and its length are two variables.

A header moves the start but not the length, and each `>` takes its index off the length, one less
than what it puts in front of the start. What is published is the rest of the packet where neither
happens, and at a few payloads where two such errors meet (`ExactAt`).
-/

set_option autoImplicit false

namespace DraginoFwd.Service

open DraginoFwd.Hal
open DraginoFwd.Lib.Memory

/-- `'<'` -/
def openMark : BitVec 8 := 0x3C#8
/-- `'>'` -/
def closeMark : BitVec 8 := 0x3E#8

/-- The variables of `payload_deal`; `chanData` is an offset into `tmp`. -/
structure PayloadScan where
  tmp : Vector (BitVec 8) 256
  chanData : Nat
  dataSize : Int
  idFound : Nat

/-- The copy of the payload and the test for a header. -/
def payloadCopy (p : LgwPktRx) : Except OutOfBounds PayloadScan :=
  (slice p.payload 0 p.size.toNat).bind fun bytes =>
    (copy (Vector.replicate 256 0#8) 0 bytes).map fun tmp =>
      { tmp := tmp
        chanData := if tmp[2] = 0x00#8 ∧ tmp[3] = 0x00#8 then 4 else 0
        dataSize := p.size.toNat
        idFound := 0 }

/-- The body of the scan at `tmp[i]`. -/
def scanStep (s : PayloadScan) (i : Nat) : PayloadScan :=
  let idFound := if s.tmp.toList.getD i 0#8 = openMark ∧ s.idFound = 0 then s.idFound + 1
    else s.idFound
  if s.tmp.toList.getD i 0#8 = closeMark then
    { tmp := s.tmp.setIfInBounds i 0#8
      chanData := i + 1
      dataSize := s.dataSize - i
      idFound := idFound + 1 }
  else { s with idFound := idFound }

/-- The scan of `n` bytes from `tmp[i]` on; it stops at the second mark. -/
def scanLoop : Nat → Nat → PayloadScan → PayloadScan
  | 0, _, s => s
  | n + 1, i, s =>
      if (scanStep s i).idFound = 2 then scanStep s i else scanLoop n (i + 1) (scanStep s i)

/-- `MQTTMessage`; the payload is an offset into `tmp`. -/
structure MqttMessage where
  qos : Nat
  retained : BitVec 8
  dup : BitVec 8
  payload : Nat
  payloadlen : Int
  deriving DecidableEq

/-- `mqtt_send_uplink`: what is handed to `MQTTPublish`, if there is a topic. -/
def mqttSendUplink (uplinkTopic : Option (List Char)) (uplink : Nat) (len : Int) :
    Option (List Char × MqttMessage) :=
  uplinkTopic.map fun topic =>
    (topic, { qos := 1, retained := 0#8, dup := 0#8, payload := uplink, payloadlen := len })

/-- `payload_deal`: the copy and what is published of it. -/
def payloadDeal (uplinkTopic : Option (List Char)) (p : LgwPktRx) :
    Except OutOfBounds (Vector (BitVec 8) 256 × Option (List Char × MqttMessage)) :=
  (payloadCopy p).map fun s =>
    let s := scanLoop 16 0 s
    (s.tmp, mqttSendUplink uplinkTopic s.chanData s.dataSize)

/-- The bytes that `MQTTSerialize_publish` takes out of the copy. -/
def MqttMessage.bytes (m : MqttMessage) (tmp : Vector (BitVec 8) 256) :
    Except OutOfBounds (List (BitVec 8)) :=
  slice tmp m.payload m.payloadlen

/-! ## What stands in front of the data -/

/-- The received bytes. -/
def received (p : LgwPktRx) : List (BitVec 8) := p.payload.toList.take p.size.toNat

/-- Where the data after a channel id begin: behind the first `>` that closes a `<`. -/
def channelIdEnd : Bool → List (BitVec 8) → Option Nat
  | _, [] => none
  | opened, b :: bs =>
      if opened ∧ b = closeMark then some 1
      else (channelIdEnd (opened || b = openMark) bs).map (· + 1)

/-- A RadioHead header: four bytes, the last two of them zero. -/
def HasHeader (l : List (BitVec 8)) : Prop := l[2]? = some 0x00#8 ∧ l[3]? = some 0x00#8

instance (l : List (BitVec 8)) : Decidable (HasHeader l) := inferInstanceAs (Decidable (_ ∧ _))

/-- Where the data of a payload begin: behind a channel id in the first 16 bytes, or behind a
header, or at once. -/
def dataStart (l : List (BitVec 8)) : Nat :=
  match channelIdEnd false (l.take 16) with
  | some k => k
  | none => if HasHeader l then 4 else 0

/-- `payload_deal` publishes the data of a packet: the positions of the message are those of the
received bytes from `dataStart` on, and the bytes there are the ones that were received. -/
def PublishesData (p : LgwPktRx) : Prop :=
  ∀ topic : List Char, ∃ tmp m, payloadDeal (some topic) p = .ok (tmp, some (topic, m)) ∧
    0 ≤ m.payloadlen ∧
    List.range' m.payload m.payloadlen.toNat =
      List.range' (dataStart (received p)) (p.size.toNat - dataStart (received p)) ∧
    m.bytes tmp = .ok ((received p).drop (dataStart (received p)))

/-- No mark stands in the list. -/
def Plain (l : List (BitVec 8)) : Prop := openMark ∉ l ∧ closeMark ∉ l

/-- The two bytes that the test for a header reads; a byte that was not received is
zero. -/
def ZeroPair (l : List (BitVec 8)) : Prop := l.getD 2 0#8 = 0x00#8 ∧ l.getD 3 0#8 = 0x00#8

instance (l : List (BitVec 8)) : Decidable (ZeroPair l) := inferInstanceAs (Decidable (_ ∧ _))

/-- The payloads of which the right part is published. The first is empty, and the second has no
`>` among its first 16 bytes and no two zero bytes that pass for a header. In the other two a `>`
without a `<` takes from the length what a later one leaves in it: at byte 1 in front of a channel
id, and so far behind that nothing is left of a packet that ends with its channel id. -/
def ExactAt (l : List (BitVec 8)) : Prop :=
  l = [] ∨
  (closeMark ∉ l.take 16 ∧ ¬ ZeroPair l) ∨
  (∃ front id rest, l.take 16 = front ++ closeMark :: (id ++ closeMark :: rest) ∧ Plain front ∧
    front.length = 1 ∧ openMark ∈ id ∧ closeMark ∉ id) ∨
  ∃ front mid tail, l = front ++ closeMark :: (mid ++ closeMark :: tail) ∧ l.length ≤ 16 ∧
    Plain front ∧ Plain mid ∧ channelIdEnd false tail = some tail.length ∧
    front.length = tail.length + 1

/-! ## The scan on a list -/

/-- The scan, as a function of the bytes: the start and the length that it leaves. -/
def scanBytes : List (BitVec 8) → Nat → Nat → Nat → Int → Nat × Int
  | [], _, _, chanData, dataSize => (chanData, dataSize)
  | b :: bs, i, idFound, chanData, dataSize =>
      if b = closeMark then
        if idFound = 1 then (i + 1, dataSize - i) else scanBytes bs (i + 1) 1 (i + 1) (dataSize - i)
      else if b = openMark then scanBytes bs (i + 1) 1 chanData dataSize
      else scanBytes bs (i + 1) idFound chanData dataSize

/-- The scan changes only bytes in front of what is left to scan and in front of the data. -/
def Kept (tmp : Vector (BitVec 8) 256) (i : Nat) (s : PayloadScan) : Prop :=
  (∀ k, i ≤ k → s.tmp.toList[k]? = tmp.toList[k]?) ∧
  ∀ k, s.chanData ≤ k → s.tmp.toList[k]? = tmp.toList[k]?

theorem Kept.step {tmp : Vector (BitVec 8) 256} {i : Nat} {s : PayloadScan} (h : Kept tmp i s) :
    Kept tmp (i + 1) (scanStep s i) := by
  obtain ⟨hahead, hdata⟩ := h
  rw [scanStep]
  split
  · have hset : ∀ k, i + 1 ≤ k → (s.tmp.setIfInBounds i 0#8).toList[k]? = tmp.toList[k]? := by
      intro k hk
      rw [← hahead k (by omega), Vector.toList_setIfInBounds, List.getElem?_set_ne (by omega)]
    exact ⟨hset, hset⟩
  · exact ⟨fun k hk => hahead k (by omega), hdata⟩

/-- The scan of the copy is the scan of its bytes. -/
theorem scanLoop_eq {tmp : Vector (BitVec 8) 256} (n i : Nat) (s : PayloadScan)
    (hid : s.idFound < 2) (hkept : Kept tmp i s) (hn : i + n ≤ 256) :
    (∀ k, (scanLoop n i s).chanData ≤ k → (scanLoop n i s).tmp.toList[k]? = tmp.toList[k]?) ∧
      ((scanLoop n i s).chanData, (scanLoop n i s).dataSize) =
        scanBytes ((tmp.toList.drop i).take n) i s.idFound s.chanData s.dataSize := by
  induction n generalizing i s with
  | zero =>
    rw [List.take_zero]
    exact ⟨hkept.2, rfl⟩
  | succ n ih =>
      have hi : i < tmp.toList.length := by
        rw [Vector.length_toList]
        omega
      have hbyte : s.tmp.toList.getD i 0#8 = tmp.toList[i] := by
        rw [List.getD_eq_getElem?_getD, hkept.1 i (Nat.le_refl i), List.getElem?_eq_getElem hi]
        rfl
      rw [List.drop_eq_getElem_cons hi, List.take_succ_cons, scanBytes, scanLoop]
      -- a `>` may end the scan, a `<` may open a channel id, and other bytes leave the variables
      have hnext := hkept.step
      by_cases hclose : tmp.toList[i] = closeMark
      · have hopen : tmp.toList[i] ≠ openMark := by
          rw [hclose]
          decide
        have hstep : scanStep s i = ⟨s.tmp.setIfInBounds i 0#8, i + 1, s.dataSize - i,
            s.idFound + 1⟩ := by
          simp only [scanStep, hbyte, if_pos hclose, if_neg (fun h : _ ∧ _ => hopen h.1)]
        rw [if_pos hclose]
        -- the second mark ends the scan, the first does not
        rcases (by omega : s.idFound = 1 ∨ s.idFound = 0) with hone | hzero
        · rw [if_pos (by rw [hstep, hone]), if_pos hone]
          exact ⟨hnext.2, by rw [hstep]⟩
        · have hid' : (scanStep s i).idFound = 1 := by rw [hstep, hzero]
          rw [if_neg (by omega), if_neg (by omega)]
          have hrest := ih (i + 1) (scanStep s i) (by omega) hnext (by omega)
          rw [hstep, hzero] at hrest
          rw [hstep, hzero]
          exact hrest
      · rw [if_neg hclose]
        have hstep : scanStep s i = { s with idFound :=
            if tmp.toList[i] = openMark ∧ s.idFound = 0 then s.idFound + 1 else s.idFound } := by
          simp only [scanStep, hbyte, if_neg hclose]
        have hlt : (scanStep s i).idFound < 2 := by
          rw [hstep]
          show (if _ then _ else _) < 2
          split
          · next h => rw [h.2]; decide
          · exact hid
        rw [if_neg (Nat.ne_of_lt hlt)]
        have hrest := ih (i + 1) (scanStep s i) hlt hnext (by omega)
        refine ⟨hrest.1, hrest.2.trans ?_⟩
        rw [hstep]
        by_cases hopen : tmp.toList[i] = openMark
        · rw [if_pos hopen]
          congr 1
          show (if _ then _ else _) = 1
          split
          · next h => rw [h.2]
          · next h =>
            have hne : s.idFound ≠ 0 := fun hzero => h ⟨hopen, hzero⟩
            omega
        · rw [if_neg hopen, if_neg (fun h => hopen h.1)]

/-- The start stays among the scanned bytes. -/
theorem scanBytes_fst_le (l : List (BitVec 8)) (i idFound chanData : Nat) (dataSize : Int) :
    (scanBytes l i idFound chanData dataSize).1 ≤ max chanData (i + l.length) := by
  induction l generalizing i idFound chanData dataSize with
  | nil => exact Nat.le_max_left _ _
  | cons b bs ih =>
    rw [scanBytes, List.length_cons]
    split
    · split
      · simp only
        omega
      · have hrest := ih (i + 1) 1 (i + 1) (dataSize - i)
        omega
    · split
      · have hrest := ih (i + 1) 1 chanData dataSize
        omega
      · have hrest := ih (i + 1) idFound chanData dataSize
        omega

/-! ### Marks -/

theorem scanBytes_of_not_mem {l : List (BitVec 8)} (h : closeMark ∉ l) (i idFound chanData : Nat)
    (dataSize : Int) : scanBytes l i idFound chanData dataSize = (chanData, dataSize) := by
  induction l generalizing i idFound with
  | nil => rfl
  | cons b bs ih =>
    rw [List.mem_cons, not_or] at h
    rw [scanBytes, if_neg (Ne.symm h.1)]
    split
    · exact ih h.2 _ _
    · exact ih h.2 _ _

/-- The first `>` after a mark ends the scan. -/
theorem scanBytes_closed {front : List (BitVec 8)} (h : closeMark ∉ front) (rest : List (BitVec 8))
    (i chanData : Nat) (dataSize : Int) :
    scanBytes (front ++ closeMark :: rest) i 1 chanData dataSize =
      (i + front.length + 1, dataSize - ((i + front.length : Nat) : Int)) := by
  induction front generalizing i with
  | nil => simp [scanBytes]
  | cons b bs ih =>
    rw [List.mem_cons, not_or] at h
    rw [List.cons_append, scanBytes, if_neg (Ne.symm h.1), ite_self, ih h.2, List.length_cons,
      show i + 1 + bs.length = i + (bs.length + 1) by omega]

/-- A `<` before the first `>` makes that one the end of the scan. -/
theorem scanBytes_opened {front : List (BitVec 8)} (hopen : openMark ∈ front)
    (hclose : closeMark ∉ front) (rest : List (BitVec 8)) (i chanData : Nat) (dataSize : Int) :
    scanBytes (front ++ closeMark :: rest) i 0 chanData dataSize =
      (i + front.length + 1, dataSize - ((i + front.length : Nat) : Int)) := by
  induction front generalizing i with
  | nil => cases hopen
  | cons b bs ih =>
    rw [List.mem_cons, not_or] at hclose
    rw [List.cons_append, scanBytes, if_neg (Ne.symm hclose.1), List.length_cons,
      show i + (bs.length + 1) = i + 1 + bs.length by omega]
    split
    · exact scanBytes_closed hclose.2 rest (i + 1) chanData dataSize
    · next hb =>
      rcases List.mem_cons.1 hopen with heq | hmem
      · exact absurd heq.symm hb
      · exact ih hmem hclose.2 (i + 1)

/-- A first `>` without a `<` is taken for half of a channel id. -/
theorem scanBytes_plain {front : List (BitVec 8)} (h : Plain front) (rest : List (BitVec 8))
    (i chanData : Nat) (dataSize : Int) :
    scanBytes (front ++ closeMark :: rest) i 0 chanData dataSize =
      scanBytes rest (i + front.length + 1) 1 (i + front.length + 1)
        (dataSize - ((i + front.length : Nat) : Int)) := by
  induction front generalizing i with
  | nil => simp [scanBytes]
  | cons b bs ih =>
    obtain ⟨hopen, hclose⟩ := h
    rw [List.mem_cons, not_or] at hopen hclose
    rw [List.cons_append, scanBytes, if_neg (Ne.symm hclose.1), if_neg (Ne.symm hopen.1),
      ih ⟨hopen.2, hclose.2⟩, List.length_cons,
      show i + 1 + bs.length = i + (bs.length + 1) by omega]

theorem channelIdEnd_of_not_mem {l : List (BitVec 8)} (h : closeMark ∉ l) (opened : Bool) :
    channelIdEnd opened l = none := by
  induction l generalizing opened with
  | nil => rfl
  | cons b bs ih =>
    rw [List.mem_cons, not_or] at h
    rw [channelIdEnd, if_neg (fun hb => h.1 hb.2.symm), ih h.2]
    rfl

theorem channelIdEnd_opened {front : List (BitVec 8)} (hclose : closeMark ∉ front)
    (rest : List (BitVec 8)) (opened : Bool) (hopen : opened = true ∨ openMark ∈ front) :
    channelIdEnd opened (front ++ closeMark :: rest) = some (front.length + 1) := by
  induction front generalizing opened with
  | nil =>
    have htrue : opened = true := hopen.resolve_right List.not_mem_nil
    rw [htrue]
    rfl
  | cons b bs ih =>
    rw [List.mem_cons, not_or] at hclose
    rw [List.cons_append, channelIdEnd, if_neg (fun hb => hclose.1 hb.2.symm), ih hclose.2]
    · rfl
    · rcases hopen with htrue | hmem
      · exact Or.inl (by rw [htrue]; rfl)
      · rcases List.mem_cons.1 hmem with hb | hmem
        · exact Or.inl (by simp [hb.symm])
        · exact Or.inr hmem

/-- A channel id lies in the list: it has a `<` and a `>`. -/
theorem channelIdEnd_le {l : List (BitVec 8)} {opened : Bool} {k : Nat}
    (h : channelIdEnd opened l = some k) : 1 ≤ k ∧ k ≤ l.length := by
  induction l generalizing opened k with
  | nil => cases h
  | cons b bs ih =>
    rw [channelIdEnd] at h
    rw [List.length_cons]
    split at h
    · cases h
      omega
    · obtain ⟨k', hk', rfl⟩ := Option.map_eq_some_iff.1 h
      have hle := ih hk'
      omega

theorem channelIdEnd_plain {front : List (BitVec 8)} (h : Plain front) (rest : List (BitVec 8)) :
    channelIdEnd false (front ++ closeMark :: rest) =
      (channelIdEnd false rest).map (· + (front.length + 1)) := by
  induction front with
  | nil =>
    rw [List.nil_append, channelIdEnd, if_neg (by simp)]
    rfl
  | cons b bs ih =>
    obtain ⟨hopen, hclose⟩ := h
    rw [List.mem_cons, not_or] at hopen hclose
    have hb : (false || decide (b = openMark)) = false := by simp [Ne.symm hopen.1]
    rw [List.cons_append, channelIdEnd, if_neg (by simp), hb, ih ⟨hopen.2, hclose.2⟩,
      Option.map_map]
    rfl

/-! ## What is published -/

/-- `n` bytes from `chanData` on are the data of `size` bytes that begin at `start`. -/
def Agrees (r : Nat × Int) (start size : Nat) : Prop :=
  r.2 = ((size - start : Nat) : Int) ∧ (size - start = 0 ∨ r.1 = start)

/-- A list is without `>`, or it has a first one. -/
theorem close_cases (l : List (BitVec 8)) :
    closeMark ∉ l ∨ ∃ front rest, l = front ++ closeMark :: rest ∧ closeMark ∉ front := by
  by_cases h : closeMark ∈ l
  · obtain ⟨front, rest, heq, hfront⟩ := List.eq_append_cons_of_mem h
    exact Or.inr ⟨front, rest, heq, hfront⟩
  · exact Or.inl h

/-- The first `>` stands in one place only. -/
theorem close_unique {front front' rest rest' : List (BitVec 8)}
    (h : front ++ closeMark :: rest = front' ++ closeMark :: rest') (hfront : closeMark ∉ front)
    (hfront' : closeMark ∉ front') : front = front' ∧ rest = rest' := by
  induction front generalizing front' with
  | nil =>
    cases front' with
    | nil => exact ⟨rfl, (List.cons.inj h).2⟩
    | cons b bs => exact absurd (List.mem_cons.2 (Or.inl (List.cons.inj h).1)) hfront'
  | cons b bs ih =>
      cases front' with
      | nil => exact absurd (List.mem_cons.2 (Or.inl (List.cons.inj h).1.symm)) hfront
      | cons b' bs' =>
        obtain ⟨hb, htail⟩ := List.cons.inj h
        obtain ⟨hbs, hrest⟩ := ih htail (fun hmem => hfront (List.mem_cons_of_mem b hmem))
          (fun hmem => hfront' (List.mem_cons_of_mem b' hmem))
        exact ⟨by rw [hb, hbs], hrest⟩

theorem hasHeader_iff (l : List (BitVec 8)) : HasHeader l ↔ ZeroPair l ∧ 4 ≤ l.length := by
  rw [HasHeader, ZeroPair, List.getD_eq_getElem?_getD, List.getD_eq_getElem?_getD]
  constructor
  · rintro ⟨h2, h3⟩
    have hlt := (List.getElem?_eq_some_iff.1 h3).1
    exact ⟨⟨by rw [h2]; rfl, by rw [h3]; rfl⟩, by omega⟩
  · rintro ⟨⟨h2, h3⟩, hlen⟩
    rw [List.getElem?_eq_getElem (by omega)] at h2 h3
    rw [List.getElem?_eq_getElem (by omega), List.getElem?_eq_getElem (by omega)]
    exact ⟨congrArg some h2, congrArg some h3⟩

/-- The start that the scan begins with. -/
def scanStart (l : List (BitVec 8)) : Nat := if ZeroPair l then 4 else 0

theorem dataStart_of_none {l : List (BitVec 8)} (h : channelIdEnd false (l.take 16) = none) :
    dataStart l = if HasHeader l then 4 else 0 := by
  rw [dataStart, h]

theorem dataStart_cases {l : List (BitVec 8)} (h : channelIdEnd false (l.take 16) = none) :
    dataStart l = 0 ∨ (dataStart l = 4 ∧ HasHeader l) := by
  rw [dataStart_of_none h]
  split
  · next hheader => exact Or.inr ⟨rfl, hheader⟩
  · exact Or.inl rfl

theorem dataStart_of_some {l : List (BitVec 8)} {k : Nat}
    (h : channelIdEnd false (l.take 16) = some k) : dataStart l = k := by
  rw [dataStart, h]

/-- No `>`: the data are right unless the two bytes are zero. -/
theorem agrees_of_no_close {l : List (BitVec 8)} (h : closeMark ∉ l.take 16) :
    Agrees (scanBytes (l.take 16) 0 0 (scanStart l) l.length) (dataStart l) l.length ↔
      l = [] ∨ ¬ ZeroPair l := by
  rw [scanBytes_of_not_mem h, dataStart_of_none (channelIdEnd_of_not_mem h false),
    scanStart, Agrees]
  by_cases hpair : ZeroPair l
  -- two zero bytes: with four bytes this is a header, and the length still counts its bytes
  · rw [if_pos hpair]
    by_cases hlen : 4 ≤ l.length
    · rw [if_pos ((hasHeader_iff l).2 ⟨hpair, hlen⟩)]
      constructor
      · rintro ⟨hsize, -⟩
        simp only at hsize
        omega
      · rintro (rfl | hno)
        · simp at hlen
        · exact absurd hpair hno
    · rw [if_neg (fun hheader => hlen ((hasHeader_iff l).1 hheader).2)]
      constructor
      · rintro ⟨-, hempty | hfour⟩
        · exact Or.inl (List.length_eq_zero_iff.1 (by omega))
        · exact absurd hfour (by simp)
      · rintro (rfl | hno)
        · exact ⟨rfl, Or.inl rfl⟩
        · exact absurd hpair hno
  · rw [if_neg hpair, if_neg (fun hheader => hpair ((hasHeader_iff l).1 hheader).1)]
    exact ⟨fun _ => Or.inr hpair, fun _ => ⟨by simp, Or.inr rfl⟩⟩

section Closed

variable {l front rest : List (BitVec 8)}

/-- The first 16 bytes are no more than all. -/
theorem length_of_take (h : l.take 16 = front ++ closeMark :: rest) :
    front.length + 1 + rest.length = min 16 l.length := by
  have hlen := congrArg List.length h
  rw [List.length_take, List.length_append, List.length_cons] at hlen
  omega

/-- What makes a payload with a first `>` an exact one. -/
theorem exactAt_iff_of_close (h : l.take 16 = front ++ closeMark :: rest)
    (hclose : closeMark ∉ front) :
    ExactAt l ↔ Plain front ∧ ∃ mid tail, rest = mid ++ closeMark :: tail ∧ closeMark ∉ mid ∧
      ((front.length = 1 ∧ openMark ∈ mid) ∨
        (l.length ≤ 16 ∧ Plain mid ∧ channelIdEnd false tail = some tail.length ∧
          front.length = tail.length + 1)) := by
  constructor
  · rintro (rfl | ⟨hno, -⟩ | ⟨front', mid, tail, heq, hplain, hone, hopen, hmid⟩ |
      ⟨front', mid, tail, heq, h16, hplain, hmid, hend, hlen⟩)
    · simp at h
    · exact absurd (by rw [h]; simp) hno
    · rw [h] at heq
      obtain ⟨rfl, rfl⟩ := close_unique heq hclose hplain.2
      exact ⟨hplain, mid, tail, rfl, hmid, Or.inl ⟨hone, hopen⟩⟩
    · rw [List.take_of_length_le h16, heq] at h
      obtain ⟨rfl, rfl⟩ := close_unique h hplain.2 hclose
      exact ⟨hplain, mid, tail, rfl, hmid.2, Or.inr ⟨h16, hmid, hend, hlen⟩⟩
  · rintro ⟨hplain, mid, tail, rfl, hmid, ⟨hone, hopen⟩ | ⟨h16, hplain', hend, hlen⟩⟩
    · exact Or.inr (Or.inr (Or.inl ⟨front, mid, tail, h, hplain, hone, hopen, hmid⟩))
    · rw [List.take_of_length_le h16] at h
      exact Or.inr (Or.inr (Or.inr ⟨front, mid, tail, h, h16, hplain, hplain', hend, hlen⟩))

/-- A channel id without anything else: one byte too many is published. -/
theorem not_agrees_of_opened (h : l.take 16 = front ++ closeMark :: rest)
    (hclose : closeMark ∉ front) (hopen : openMark ∈ front) (chanData : Nat) :
    ¬ Agrees (scanBytes (l.take 16) 0 0 chanData l.length) (dataStart l) l.length := by
  have hlen := length_of_take h
  have hend : channelIdEnd false (l.take 16) = some (front.length + 1) := by
    rw [h]
    exact channelIdEnd_opened hclose rest false (Or.inr hopen)
  rw [dataStart_of_some hend, h, scanBytes_opened hopen hclose]
  rintro ⟨hsize, -⟩
  simp only at hsize
  omega

/-- A `>` alone: nothing is cut off the packet, but the start moves. -/
theorem not_agrees_of_single (h : l.take 16 = front ++ closeMark :: rest) (hplain : Plain front)
    (hrest : closeMark ∉ rest) (chanData : Nat) :
    ¬ Agrees (scanBytes (l.take 16) 0 0 chanData l.length) (dataStart l) l.length := by
  have hlen := length_of_take h
  have hend : channelIdEnd false (l.take 16) = none := by
    rw [h, channelIdEnd_plain hplain, channelIdEnd_of_not_mem hrest]
    rfl
  rw [h, scanBytes_plain hplain, scanBytes_of_not_mem hrest]
  rintro ⟨hsize, hstart⟩
  simp only at hsize hstart
  rcases dataStart_cases hend with hzero | ⟨hfour, -⟩ <;> omega

/-- Two `>`, the first without a `<`: the data are right at the two kinds of `ExactAt`. -/
theorem agrees_iff_of_double {mid tail : List (BitVec 8)}
    (h : l.take 16 = front ++ closeMark :: (mid ++ closeMark :: tail)) (hplain : Plain front)
    (hmid : closeMark ∉ mid) (chanData : Nat) :
    Agrees (scanBytes (l.take 16) 0 0 chanData l.length) (dataStart l) l.length ↔
      ((front.length = 1 ∧ openMark ∈ mid) ∨
        (l.length ≤ 16 ∧ Plain mid ∧ channelIdEnd false tail = some tail.length ∧
          front.length = tail.length + 1)) := by
  have hlen := length_of_take h
  rw [List.length_append, List.length_cons] at hlen
  have hscan : scanBytes (l.take 16) 0 0 chanData l.length =
      (front.length + 1 + mid.length + 1,
        (l.length : Int) - front.length - ((front.length + 1 + mid.length : Nat) : Int)) := by
    rw [h, scanBytes_plain hplain, scanBytes_closed hmid]
    simp
  rw [hscan]
  by_cases hopen : openMark ∈ mid
  · -- the second `>` closes a channel id: the start is right, and the length is at `front` of one
    have hend : channelIdEnd false (l.take 16) = some (front.length + 1 + mid.length + 1) := by
      rw [h, channelIdEnd_plain hplain, channelIdEnd_opened hmid tail false (Or.inr hopen)]
      simp only [Option.map_some]
      congr 1
      omega
    rw [dataStart_of_some hend]
    constructor
    · rintro ⟨hsize, -⟩
      simp only at hsize
      exact Or.inl ⟨by omega, hopen⟩
    · rintro (⟨hone, -⟩ | ⟨-, hplain', -, -⟩)
      · exact ⟨by simp only; omega, Or.inr rfl⟩
      · exact absurd hopen hplain'.1
  · have hplain' : Plain mid := ⟨hopen, hmid⟩
    have htail : channelIdEnd false (l.take 16) =
        (channelIdEnd false tail).map (· + (front.length + 1 + mid.length + 1)) := by
      rw [h, channelIdEnd_plain hplain, channelIdEnd_plain hplain', Option.map_map]
      congr 1
      funext k
      simp only [Function.comp_apply]
      omega
    cases hid : channelIdEnd false tail with
    | none =>
      rw [hid] at htail
      constructor
      · rintro ⟨hsize, hstart⟩
        simp only at hsize hstart
        rcases dataStart_cases htail with hzero | ⟨hfour, hheader⟩
        · omega
        · -- the second `>` would be byte 3, which is zero in a header
          have hfit := ((hasHeader_iff l).1 hheader).2
          have hone : front.length = 1 ∧ mid.length = 1 := by omega
          have hbyte : (l.take 16)[3]? = some closeMark := by
            rw [h, List.getElem?_append_right (by omega), hone.1]
            show (mid ++ closeMark :: tail)[1]? = some closeMark
            rw [List.getElem?_append_right (by omega), hone.2]
            rfl
          rw [List.getElem?_take_of_lt (by decide), hheader.2] at hbyte
          exact absurd (Option.some.inj hbyte) (by decide)
      · rintro (⟨-, hmem⟩ | ⟨-, -, hend, -⟩)
        · exact absurd hmem hopen
        · cases hend
    | some k =>
      -- the channel id is behind: nothing is published, and nothing is left
      rw [hid] at htail
      have hstart : dataStart l = k + (front.length + 1 + mid.length + 1) :=
        dataStart_of_some htail
      rw [hstart]
      have hk := channelIdEnd_le hid
      constructor
      · rintro ⟨hsize, hempty⟩
        simp only at hsize hempty
        refine Or.inr ⟨by omega, hplain', ?_, by omega⟩
        congr 1
        omega
      · rintro (⟨-, hmem⟩ | ⟨h16, -, hend, hlast⟩)
        · exact absurd hmem hopen
        · have hk' : k = tail.length := Option.some.inj hend
          have hall : front.length + 1 + (mid.length + (tail.length + 1)) = l.length := by omega
          refine ⟨?_, Or.inl ?_⟩
          · simp only
            omega
          · omega

end Closed

/-- The scan leaves the data of exactly the payloads of `ExactAt`. -/
theorem agrees_iff (l : List (BitVec 8)) :
    Agrees (scanBytes (l.take 16) 0 0 (scanStart l) l.length) (dataStart l) l.length ↔
      ExactAt l := by
  -- by the first `>` of the first 16 bytes, if there is one, and by what stands in front of it
  rcases close_cases (l.take 16) with hno | ⟨front, rest, h, hclose⟩
  · rw [agrees_of_no_close hno]
    constructor
    · rintro (hnil | hpair)
      · exact Or.inl hnil
      · exact Or.inr (Or.inl ⟨hno, hpair⟩)
    · rintro (hnil | ⟨-, hpair⟩ | ⟨front, id, rest, heq, -⟩ | ⟨front, mid, tail, heq, h16, -⟩)
      · exact Or.inl hnil
      · exact Or.inr hpair
      · exact absurd (by rw [heq]; simp) hno
      · rw [List.take_of_length_le h16] at hno
        exact absurd (by rw [heq]; simp) hno
  · rw [exactAt_iff_of_close h hclose]
    by_cases hopen : openMark ∈ front
    · constructor
      · exact fun hagrees => absurd hagrees (not_agrees_of_opened h hclose hopen _)
      · exact fun hexact => absurd hopen hexact.1.1
    · have hplain : Plain front := ⟨hopen, hclose⟩
      -- a first `>` without a `<`, and then by the second one
      rcases close_cases rest with hrest | ⟨mid, tail, rfl, hmid⟩
      · constructor
        · exact fun hagrees => absurd hagrees (not_agrees_of_single h hplain hrest _)
        · rintro ⟨-, mid, tail, rfl, -⟩
          simp at hrest
      · rw [agrees_iff_of_double h hplain hmid]
        constructor
        · exact fun hkind => ⟨hplain, mid, tail, rfl, hmid, hkind⟩
        · rintro ⟨-, mid', tail', heq, hmid', hkind⟩
          obtain ⟨rfl, rfl⟩ := close_unique heq hmid hmid'
          exact hkind

/-! ## Whole packets -/

theorem length_received (p : LgwPktRx) (hsize : p.size.toNat ≤ 256) :
    (received p).length = p.size.toNat := by
  rw [received, List.length_take_of_le]
  rw [Vector.length_toList]
  exact hsize

/-- The bytes of the packet, followed by zeros. -/
theorem payloadCopy_spec (p : LgwPktRx) (hsize : p.size.toNat ≤ 256) :
    ∃ tmp, payloadCopy p = .ok ⟨tmp, scanStart (received p), p.size.toNat, 0⟩ ∧
      tmp.toList = received p ++ List.replicate (256 - p.size.toNat) 0#8 := by
  have hlen := length_received p hsize
  have hslice : slice p.payload 0 (p.size.toNat : Int) = .ok (received p) := by
    rw [slice_ok p.payload 0 _ (by omega)]
    rfl
  obtain ⟨tmp, hcopy, htmp⟩ := copy_spec (Vector.replicate 256 0#8) 0 (received p)
    (by rw [hlen]; omega)
  have hlist : tmp.toList = received p ++ List.replicate (256 - p.size.toNat) 0#8 := by
    rw [htmp, hlen, List.take_zero, List.nil_append, Vector.toList_replicate, List.drop_replicate,
      Nat.zero_add]
  have hbyte : ∀ k, k < 256 → tmp.toList.getD k 0#8 = (received p).getD k 0#8 := by
    intro k hk
    rw [hlist, List.getD_eq_getElem?_getD, List.getD_eq_getElem?_getD, List.getElem?_append]
    split
    · rfl
    · next hge =>
      rw [List.getElem?_replicate_of_lt (by omega), List.getElem?_eq_none (by omega)]
      rfl
  -- the header test reads the copy, whose bytes behind the packet are zero
  have htwo : tmp[2] = (received p).getD 2 0#8 := by
    rw [← hbyte 2 (by decide)]
    simp
  have hthree : tmp[3] = (received p).getD 3 0#8 := by
    rw [← hbyte 3 (by decide)]
    simp
  refine ⟨tmp, ?_, hlist⟩
  rw [payloadCopy, hslice]
  show (copy (Vector.replicate 256 0#8) 0 (received p)).map _ = _
  rw [hcopy]
  simp only [Except.map, htwo, hthree]
  rfl

/-- Zeros behind the packet are no marks. -/
theorem scanBytes_append_plain {rest : List (BitVec 8)} (h : Plain rest) (l : List (BitVec 8))
    (i idFound chanData : Nat) (dataSize : Int) :
    scanBytes (l ++ rest) i idFound chanData dataSize =
      scanBytes l i idFound chanData dataSize := by
  induction l generalizing i idFound chanData dataSize with
  | nil => exact scanBytes_of_not_mem h.2 i idFound chanData dataSize
  | cons b bs ih => simp only [List.cons_append, scanBytes, ih]

/-- What `payload_deal` hands over, by the scan of the received bytes. -/
theorem payloadDeal_spec (p : LgwPktRx) (hsize : p.size.toNat ≤ 255) (topic : List Char) :
    ∃ (tmp : Vector (BitVec 8) 256) (r : Nat × Int),
      scanBytes ((received p).take 16) 0 0 (scanStart (received p)) (received p).length = r ∧
      payloadDeal (some topic) p = .ok (tmp, some (topic, ⟨1, 0#8, 0#8, r.1, r.2⟩)) ∧
      ∀ k, r.1 ≤ k → k < p.size.toNat → tmp.toList[k]? = (received p)[k]? := by
  have hlen := length_received p (by omega)
  obtain ⟨tmp, hcopy, htmp⟩ := payloadCopy_spec p (by omega)
  have hkept : Kept tmp 0 ⟨tmp, scanStart (received p), p.size.toNat, 0⟩ :=
    ⟨fun _ _ => rfl, fun _ _ => rfl⟩
  obtain ⟨hbytes, hscan⟩ := scanLoop_eq 16 0 _ (by decide : (0 : Nat) < 2) hkept (by decide)
  -- of a short packet the scan goes on over zeros
  have hplain : Plain ((List.replicate (256 - p.size.toNat) 0#8).take
      (16 - (received p).length)) := by
    constructor
    · intro hmem
      exact absurd (List.eq_of_mem_replicate (List.mem_of_mem_take hmem)) (by decide)
    · intro hmem
      exact absurd (List.eq_of_mem_replicate (List.mem_of_mem_take hmem)) (by decide)
  rw [List.drop_zero, htmp, List.take_append, scanBytes_append_plain hplain] at hscan
  rw [hlen]
  refine ⟨(scanLoop 16 0 ⟨tmp, scanStart (received p), p.size.toNat, 0⟩).tmp, _, hscan.symm,
    ?_, ?_⟩
  · rw [payloadDeal, hcopy]
    rfl
  · intro k hk hlt
    rw [hbytes k hk, htmp, List.getElem?_append_left (by omega)]

theorem agrees_of_publishesData {p : LgwPktRx} (hsize : p.size.toNat ≤ 255)
    (h : PublishesData p) :
    Agrees (scanBytes ((received p).take 16) 0 0 (scanStart (received p)) (received p).length)
      (dataStart (received p)) (received p).length := by
  obtain ⟨tmp, m, hdeal, hnonneg, hrange, -⟩ := h []
  obtain ⟨tmp', r, hr, hdeal', -⟩ := payloadDeal_spec p hsize []
  rw [hdeal] at hdeal'
  cases hdeal'
  obtain ⟨hcount, hfirst⟩ := List.range'_inj.1 hrange
  simp only at hnonneg hcount hfirst
  rw [hr, length_received p (by omega)]
  exact ⟨by omega, by omega⟩

/-- `payload_deal` publishes the data of exactly the packets whose payload is one of `ExactAt`. -/
theorem publishesData_iff (p : LgwPktRx) (hsize : p.size.toNat ≤ 255) :
    PublishesData p ↔ ExactAt (received p) := by
  have hlen := length_received p (by omega)
  rw [← agrees_iff]
  constructor
  · exact agrees_of_publishesData hsize
  · intro h topic
    obtain ⟨tmp, r, hr, hdeal, hbytes⟩ := payloadDeal_spec p hsize topic
    rw [hr, hlen] at h
    obtain ⟨hcount, hfirst⟩ := h
    refine ⟨tmp, _, hdeal, ?_, ?_, ?_⟩
    · simp only [hcount]
      omega
    · simp only [hcount, Int.toNat_natCast]
      exact List.range'_inj.2 ⟨rfl, hfirst⟩
    -- the slice is inside the copy: the start is at most 16 and the length that of the packet
    · have hstart : r.1 ≤ 16 := by
        have hle := scanBytes_fst_le ((received p).take 16) 0 0 (scanStart (received p))
          (received p).length
        rw [hr, List.length_take] at hle
        have hfour : scanStart (received p) ≤ 4 := by
          rw [scanStart]
          split <;> omega
        omega
      simp only [MqttMessage.bytes, hcount]
      rw [slice_ok tmp r.1 _ (by omega)]
      congr 1
      rcases hfirst with hempty | hfirst
      · rw [hempty, List.take_zero, List.drop_of_length_le (by omega)]
      · apply List.ext_getElem?
        intro k
        rw [List.getElem?_take, List.getElem?_drop, List.getElem?_drop]
        split
        · next hk => rw [hbytes _ (by omega) (by omega), hfirst]
        · next hk => rw [List.getElem?_eq_none (by omega)]

theorem publishesData_plain : PublishesData (LgwPktRx.ofBytes [0x61#8, 0x62#8, 0x63#8]) :=
  (publishesData_iff _ (by decide)).2 (Or.inr (Or.inl (by decide +kernel)))

/-- The packet `<a>x`: two bytes are published from byte 3 of the four on. -/
theorem payloadDeal_id_false :
    (∃ tmp, payloadDeal (some []) (LgwPktRx.ofBytes [0x3C#8, 0x61#8, 0x3E#8, 0x78#8]) =
      .ok (tmp, some ([], ⟨1, 0#8, 0#8, 3, 2⟩))) ∧
      ¬ PublishesData (LgwPktRx.ofBytes [0x3C#8, 0x61#8, 0x3E#8, 0x78#8]) := by
  have hrec : received (LgwPktRx.ofBytes [0x3C#8, 0x61#8, 0x3E#8, 0x78#8]) =
      [0x3C#8, 0x61#8, 0x3E#8, 0x78#8] := by decide +kernel
  constructor
  · obtain ⟨tmp, r, hr, hdeal, -⟩ := payloadDeal_spec
      (LgwPktRx.ofBytes [0x3C#8, 0x61#8, 0x3E#8, 0x78#8]) (by decide) []
    rw [hrec] at hr
    have hvalue : r = (3, 2) := hr.symm.trans (by decide +kernel)
    rw [hvalue] at hdeal
    exact ⟨tmp, hdeal⟩
  · intro h
    have hagrees := agrees_of_publishesData (by decide) h
    rw [hrec] at hagrees
    have hsplit : [0x3C#8, 0x61#8, 0x3E#8, 0x78#8].take 16 =
        [0x3C#8, 0x61#8] ++ closeMark :: [0x78#8] := rfl
    exact not_agrees_of_opened hsplit (by decide) (by decide) _ hagrees

end DraginoFwd.Service
