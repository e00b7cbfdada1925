import DraginoFwd.Hal.Receive

/-!
# What is received

A packet that is in the concentrator is a record with the time when it came in. `batch` says what
becomes of the packets of one call of `lgw_receive`, in terms of the records alone, and
`specReceive` of all of them over the calls. `lgw_receive` does this (`lgwReceive_spec`), in every
run of arrivals and calls (`reachable_refines`) in which calls and pulses are less than a period of
the 27-bit counter apart, no packet waits for longer than that, and the FIFO fits the buffer
(`ReceiveCall.Fits`). A record whose metadata are refused stays the next one for good
(`refused_blocks`).
-/

set_option autoImplicit false

namespace DraginoFwd.Hal

open DraginoFwd.Lib.Memory
open DraginoFwd.Lib.Transition

/-! ## One packet -/

/-- A packet in the concentrator, with the ticks of the 32 MHz clock when it came in. -/
structure Stamped where
  record : Record
  ticks : Nat
  stamp : record.timestamp = BitVec.ofNat 32 ticks

/-- What becomes of a record: its sum is wrong, its metadata is out of range, it is taken out and
found to be unusable, or it is returned. -/
inductive Fate where
  | corrupt
  | refused
  | unusable
  | good
  deriving DecidableEq

/-- The fate of a record from its bytes and the configuration. -/
def Record.fate (ctx : RxContext) (r : Record) : Fate :=
  if !r.intact then .corrupt
  else if !r.packet.inRange then .refused
  else
    match ifmodConfig[r.channel.toNat]? with
    | some ifmod =>
        if ifmod ≠ .fskStd ∧ failsCrcCheck ctx ifmod r.packet = true then .unusable else .good
    | none => .unusable

/-- The status that a record gets from its CRC. -/
def Record.status (ctx : RxContext) (ifmod : Ifmod) (r : Record) : BitVec 8 :=
  crcStatus (if ifmod = .fskStd then r.crcEn else crcEnabled ctx ifmod r.packet) r.packet

/-- The packet is the one of the record: its payload, its chain and CRC, and its time in
microseconds with the correction for its modulation. -/
structure Delivers (ctx : RxContext) (st : Stamped) (p : LgwPktRx) : Prop where
  size : p.size.toNat = st.record.payload.length
  payload : p.payload.toList.take p.size.toNat = st.record.payload
  ifChain : p.ifChain = st.record.channel
  modemId : p.modemId = st.record.modemId
  crc : p.crc = st.record.crc16
  modem : ∃ ifmod, ifmodConfig[st.record.channel.toNat]? = some ifmod ∧
    p.status = st.record.status ctx ifmod ∧
    p.countUs = BitVec.ofNat 32 (st.ticks / 32) + timestampCorrection ctx ifmod st.record.packet

/-- The packet of a record that is in order is used. -/
theorem Record.fate_of_inRange {ctx : RxContext} {r : Record} (hintact : r.intact = true)
    (hrange : r.packet.inRange = true) :
    r.fate ctx = match ifmodConfig[r.channel.toNat]? with
      | some ifmod =>
          if ifmod ≠ .fskStd ∧ failsCrcCheck ctx ifmod r.packet = true then .unusable else .good
      | none => .unusable := by
  rw [Record.fate, hintact, hrange, Bool.not_true, if_neg Bool.false_ne_true,
    if_neg Bool.false_ne_true]

section Packet

variable {ctx : RxContext} {floats : RxFloats} {counter : TimestampCounter} {st : Stamped}

variable (ctx floats) in
/-- The packet that is popped for a record is used, or is an error. -/
theorem parsePacket_record (hintact : st.record.intact = true)
    (hrange : st.record.packet.inRange = true) {inst : Nat}
    (htracks : Tracks counter.inst (inst / 32))
    (hsoon : Soon st.ticks inst) (p : LgwPktRx) :
    (st.record.fate ctx = .good ∧
      ∃ p', parsePacket ctx floats counter st.record.packet p = .ok (.success, p') ∧
        Delivers ctx st p') ∨
    (st.record.fate ctx = .unusable ∧
      ∃ p', parsePacket ctx floats counter st.record.packet p = .ok (.error, p')) := by
  have hle := st.record.payload_le
  have hsize : (BitVec.ofNat 16 st.record.payload.length).toNat = st.record.payload.length :=
    Nat.mod_eq_of_lt (by omega)
  obtain ⟨payload, hcopy, hholds, -⟩ := copy_holdsAt p.payload (i := 0) (l := st.record.payload)
    (by omega)
  have hpayload : payload.toList.take (BitVec.ofNat 16 st.record.payload.length).toNat =
      st.record.payload := by
    rw [hsize]
    exact hholds
  have hcount : timestampPktExpand counter (st.record.timestamp / 32#32) =
      BitVec.ofNat 32 (st.ticks / 32) := by
    rw [st.stamp]
    exact htracks.pktExpand (Nat.div_le_div_right hsoon.1) hsoon.2 (toNat_ticks st.ticks)
  rw [Record.fate_of_inRange hintact hrange, parsePacket, show st.record.packet.payload =
    st.record.payload from rfl, hcopy, ok_bind]
  by_cases hchannel : st.record.packet.rxChannelIn.toNat < lgwIfChainNb
  · have hmodem : ifmodConfig[st.record.channel.toNat]? =
        some ifmodConfig[st.record.packet.rxChannelIn.toNat] := Vector.getElem?_eq_getElem hchannel
    rw [dif_pos hchannel, hmodem]
    dsimp only
    by_cases hfails : ifmodConfig[st.record.packet.rxChannelIn.toNat] ≠ .fskStd ∧
        failsCrcCheck ctx ifmodConfig[st.record.packet.rxChannelIn.toNat] st.record.packet = true
    · rw [if_pos hfails, if_pos hfails]
      exact .inr ⟨rfl, _, rfl⟩
    · rw [if_neg hfails, if_neg hfails]
      refine .inl ⟨rfl, _, rfl, ?_⟩
      by_cases hfsk : ifmodConfig[st.record.packet.rxChannelIn.toNat] = .fskStd
      · rw [if_pos hfsk]
        refine ⟨hsize, hpayload, rfl, rfl, rfl, _, hmodem, ?_, congrArg (· + _) hcount⟩
        rw [Record.status, if_pos hfsk]
        rfl
      · rw [if_neg hfsk]
        refine ⟨hsize, hpayload, rfl, rfl, rfl, _, hmodem, ?_, congrArg (· + _) hcount⟩
        rw [Record.status, if_neg hfsk]
        rfl
  · have hmodem : ifmodConfig[st.record.channel.toNat]? = none :=
      Vector.getElem?_eq_none (Nat.le_of_not_lt hchannel)
    rw [dif_neg hchannel, hmodem]
    exact .inr ⟨rfl, _, rfl⟩

/-- The records of the packets that wait in the receive buffer. -/
abbrev Waiting (rx : RxBuffer) (q : List Stamped) : Prop := Pending rx (q.map Stamped.record)

theorem waiting_del {rx : RxBuffer} : Waiting rx.del [] :=
  pending_nil (Nat.zero_le _) rfl rfl

variable (ctx floats counter) in
/-- A record that is refused is an error, and stays. -/
theorem sx1302Parse_refused {rx : RxBuffer} {q : List Stamped} (h : Waiting rx (st :: q))
    (hrefused : st.record.fate ctx = .refused) (p : LgwPktRx) :
    sx1302Parse ctx floats counter rx p = .ok (.error, rx, p) := by
  rcases h.pop_cons with ⟨hintact, -⟩ | ⟨-, -, hpop⟩ | ⟨hintact, hrange, -⟩
  · rw [Record.fate, hintact] at hrefused
    cases hrefused
  · rw [sx1302Parse, hpop]
    rfl
  · rw [Record.fate_of_inRange hintact hrange] at hrefused
    split at hrefused
    · split at hrefused
      · cases hrefused
      · cases hrefused
    · cases hrefused

variable (ctx floats) in
/-- What `sx1302_parse` does with the next packet, for each fate. -/
theorem sx1302Parse_waiting {rx : RxBuffer} {q : List Stamped} (h : Waiting rx (st :: q))
    {inst : Nat} (htracks : Tracks counter.inst (inst / 32)) (hsoon : Soon st.ticks inst)
    (p : LgwPktRx) :
    ∃ status rx' p', sx1302Parse ctx floats counter rx p = .ok (status, rx', p') ∧
      match st.record.fate ctx with
      | .corrupt => status = .warning ∧ Waiting rx' []
      | .refused => status = .error ∧ Waiting rx' (st :: q)
      | .unusable => status = .error ∧ Waiting rx' q
      | .good => status = .success ∧ Waiting rx' q ∧ Delivers ctx st p' := by
  rcases h.pop_cons with ⟨hintact, hpop⟩ | ⟨hintact, hrange, hpop⟩ |
    ⟨hintact, hrange, rx', hpop, hrest⟩
  · have hfate : st.record.fate ctx = .corrupt := by rw [Record.fate, hintact]; rfl
    rw [sx1302Parse, hpop, hfate]
    exact ⟨_, _, _, rfl, rfl, waiting_del⟩
  · have hfate : st.record.fate ctx = .refused := by rw [Record.fate, hintact, hrange]; rfl
    rw [sx1302Parse_refused ctx floats counter h hfate, hfate]
    exact ⟨_, _, _, rfl, rfl, h⟩
  · rcases parsePacket_record ctx floats hintact hrange htracks hsoon p with
      ⟨hfate, p', hparse, hdelivers⟩ | ⟨hfate, p', hparse⟩
    · rw [sx1302Parse, hpop, hfate]
      simp only [ok_bind, hparse]
      exact ⟨_, _, _, rfl, rfl, hrest, hdelivers⟩
    · rw [sx1302Parse, hpop, hfate]
      simp only [ok_bind, hparse]
      exact ⟨_, _, _, rfl, rfl, hrest⟩

/-- The levels are not among what is delivered. -/
theorem Delivers.addRssiOffset {p : LgwPktRx} (h : Delivers ctx st p) (temperature : BitVec 32) :
    Delivers ctx st (addRssiOffset floats temperature p) :=
  ⟨h.size, h.payload, h.ifChain, h.modemId, h.crc, h.modem⟩

end Packet

/-! ## One call -/

/-- What a call makes of the packets it takes: they are returned, they are thrown away with the
buffer, or the call is an error. -/
inductive Outcome where
  | delivered (l : List Stamped)
  | discarded
  | failed

/-- A packet in front. -/
def Outcome.cons (st : Stamped) : Outcome → Outcome
  | delivered l => delivered (st :: l)
  | discarded => discarded
  | failed => failed

/-- What becomes of the next `k` packets that wait, and which ones wait on. -/
def batch (ctx : RxContext) : Nat → List Stamped → Outcome × List Stamped
  | 0, q => (.delivered [], q)
  | _ + 1, [] => (.delivered [], [])
  | k + 1, st :: q =>
      match st.record.fate ctx with
      | .corrupt => (.discarded, [])
      | .refused => (.failed, st :: q)
      | .unusable => (.failed, q)
      | .good => ((batch ctx k q).1.cons st, (batch ctx k q).2)

/-- The packets that wait are taken from the concentrator when none is left. -/
def waiting (buffered fifo : List Stamped) : List Stamped × List Stamped :=
  if buffered = [] then (fifo, []) else (buffered, fifo)

/-- What a call makes of the packets in the buffer and in the concentrator. -/
def specReceive (ctx : RxContext) (temperatureOk : Bool) (maxPkt : Nat)
    (buffered fifo : List Stamped) : Outcome × List Stamped × List Stamped :=
  let (q, fifo) := waiting buffered fifo
  if q = [] then (.delivered [], [], fifo)
  else if temperatureOk then
    let (outcome, q) := batch ctx (min q.length maxPkt) q
    (outcome, q, fifo)
  else (.failed, q, fifo)

section Call

variable {ctx : RxContext} {floats : RxFloats} {counter : TimestampCounter} {n : Nat}

/-- The packets in a row of cells. -/
def cells (pktData : Vector LgwPktRx n) (i k : Nat) : List LgwPktRx :=
  (pktData.toList.drop i).take k

/-- What the loop returns for an outcome. -/
def Outcome.Loops (ctx : RxContext) (outcome : Outcome) (status : RegStatus) (out : List LgwPktRx) :
    Prop :=
  match outcome with
  | delivered l => status = .success ∧ List.Forall₂ (Delivers ctx) l out
  | discarded => status = .warning
  | failed => status = .error

theorem cells_succ (pktData : Vector LgwPktRx n) {i : Nat} (k : Nat) (h : i < n) :
    cells pktData i (k + 1) = pktData[i] :: cells pktData (i + 1) k := by
  have hlen : i < pktData.toList.length := by
    rw [Vector.length_toList]
    exact h
  rw [cells, cells, List.drop_eq_getElem_cons hlen, List.take_succ_cons, Vector.getElem_toList]

variable (ctx floats) in
theorem receiveLoop_batch {inst : Nat} (htracks : Tracks counter.inst (inst / 32))
    (temperature : BitVec 32) {k i : Nat} {rx : RxBuffer} {q : List Stamped} (h : Waiting rx q)
    (hsoon : ∀ st ∈ q, Soon st.ticks inst) (hk : k ≤ q.length) (pktData : Vector LgwPktRx n)
    (hfit : i + k ≤ n) :
    ∃ status rx' pktData',
      receiveLoop ctx floats counter temperature k i rx pktData = .ok (status, rx', pktData') ∧
        Waiting rx' (batch ctx k q).2 ∧
        (batch ctx k q).1.Loops ctx status (cells pktData' i k) ∧
        pktData'.toList.take i = pktData.toList.take i := by
  induction k generalizing i rx q pktData with
  | zero =>
    refine ⟨_, _, _, rfl, h, ⟨rfl, ?_⟩, rfl⟩
    rw [cells, List.take_zero]
    exact .nil
  | succ k ih =>
    obtain ⟨st, q, rfl⟩ := List.exists_cons_of_length_pos (Nat.lt_of_lt_of_le (Nat.succ_pos k) hk)
    have hi : i < n := by omega
    have hread := read_get pktData hi
    obtain ⟨status, rx', p', hparse, hfate⟩ := sx1302Parse_waiting ctx floats h htracks
      (hsoon st List.mem_cons_self) (pktData.get ⟨i, hi⟩)
    rw [receiveLoop, hread, ok_bind, hparse, ok_bind, batch]
    dsimp only
    have hkept (v : LgwPktRx) : (pktData.set i v).toList.take i = pktData.toList.take i := by
      rw [Vector.toList_set, List.take_set_of_le le_rfl]
    cases hrecord : st.record.fate ctx with
    | corrupt =>
      rw [hrecord] at hfate
      obtain ⟨rfl, hrest⟩ := hfate
      rw [if_neg (by decide), write_ok _ _ hi, ok_bind]
      exact ⟨_, _, _, rfl, hrest, rfl, hkept _⟩
    | refused =>
      rw [hrecord] at hfate
      obtain ⟨rfl, hrest⟩ := hfate
      rw [if_neg (by decide), write_ok _ _ hi, ok_bind]
      exact ⟨_, _, _, rfl, hrest, rfl, hkept _⟩
    | unusable =>
      rw [hrecord] at hfate
      obtain ⟨rfl, hrest⟩ := hfate
      rw [if_neg (by decide), write_ok _ _ hi, ok_bind]
      exact ⟨_, _, _, rfl, hrest, rfl, hkept _⟩
    | good =>
      rw [hrecord] at hfate
      obtain ⟨rfl, hrest, hdelivers⟩ := hfate
      rw [if_pos rfl, write_ok _ _ hi, ok_bind]
      obtain ⟨status, rx'', pktData', hloop, hwaiting, hloops, htake⟩ := ih hrest
        (fun st' hst' => hsoon st' (List.mem_cons_of_mem st hst')) (Nat.le_of_succ_le_succ hk)
        (pktData.set i (addRssiOffset floats temperature p')) (i := i + 1) (by omega)
      have hcell : pktData'[i] = addRssiOffset floats temperature p' := by
        have hget := congrArg (fun l => l[i]?) htake
        simpa [List.getElem?_take_of_lt, hi] using hget
      have hfront := congrArg (List.take i) htake
      rw [List.take_take, List.take_take, Nat.min_eq_left (Nat.le_succ i), hkept] at hfront
      refine ⟨_, _, _, hloop, hwaiting, ?_, hfront⟩
      rw [cells_succ _ _ hi, hcell]
      dsimp only
      cases hbatch : (batch ctx k q).1 with
      | delivered l =>
        rw [hbatch] at hloops
        exact ⟨hloops.1, .cons (hdelivers.addRssiOffset temperature) hloops.2⟩
      | discarded =>
        rw [hbatch] at hloops
        exact hloops
      | failed =>
        rw [hbatch] at hloops
        exact hloops

end Call

/-! ## Runs -/

variable {n : Nat}

/-- A call of `lgw_receive`, with the times of the last pulse and of the call. The FIFO may begin
with bytes that are no record. -/
structure ReceiveCall (n : Nat) where
  floats : RxFloats
  input : ReceiveInput
  maxPkt : BitVec 8
  pktData : Vector LgwPktRx n
  junk : List (BitVec 8)
  pps : Nat
  inst : Nat

/-- What a call returns is what the outcome says: the packets of the records, merged where the fine
time stamps are enabled. -/
def Outcome.Returns (ctx : RxContext) (outcome : Outcome) (ret : Received) (out : List LgwPktRx) :
    Prop :=
  match outcome with
  | delivered l =>
      ret = .found out.length ∧ ∃ ps, List.Forall₂ (Delivers ctx) l ps ∧
        if ctx.ftimeEnable = true then Merged out ps else out = ps
  | discarded => ret = .found 0 ∧ out = []
  | failed => ret = .error ∧ out = []

/-- The packets that a call returns. -/
def Received.packets (ret : Received) (pktData : Vector LgwPktRx n) : List LgwPktRx :=
  match ret with
  | found nbPkt => Hal.packets pktData nbPkt
  | error => []

/-- One call, with its outcome in terms of the records. -/
structure LogEntry where
  outcome : Outcome
  ret : Received
  out : List LgwPktRx

/-- The library and the concentrator. `buffered` are the packets that the library has fetched,
`fifo` are those that it has not. -/
structure Reception where
  hal : RxState
  pps : Nat
  inst : Nat
  buffered : List Stamped
  fifo : List Stamped
  arrived : List Stamped
  log : List LogEntry

/-- The counters are read soon after those of the last call, all packets that wait came in less than
a period of 27 bits before, the FIFO is read as it is and fits the buffer, and the array of the
caller has room. -/
structure ReceiveCall.Fits (call : ReceiveCall n) (s : Reception) : Prop where
  room : call.maxPkt.toNat ≤ n
  reads : call.input.reads.Show call.pps call.inst
  pps : Soon s.pps call.pps
  inst : Soon s.inst call.inst
  soon : ∀ st ∈ (waiting s.buffered s.fifo).1, Soon st.ticks call.inst
  holds : s.buffered = [] →
    call.input.fifo.Holds (call.junk ++ stream (s.fifo.map Stamped.record))
  syncFree : SyncFree call.junk (stream (s.fifo.map Stamped.record))
  cap : (call.junk ++ stream (s.fifo.map Stamped.record)).length ≤ rxBufferCap
  junk : s.fifo = [] → call.junk = []

/-- The buffer of the library holds the packets, and its counters are those of the last call. -/
structure Reception.Consistent (s : Reception) : Prop where
  waiting : Waiting s.hal.rx s.buffered
  tracked : Clocked.Tracked ⟨s.hal.counter, s.pps, s.inst⟩

theorem sx1302Fetch_waiting {s : Reception} (hs : s.Consistent) {call : ReceiveCall n}
    (hfits : call.Fits s) :
    ∃ rx, sx1302Fetch s.hal.rx call.input.fifo = .ok (.success, rx) ∧
      Waiting rx (waiting s.buffered s.fifo).1 := by
  have hzero := hs.waiting.pktNb_eq_zero_iff
  rw [List.map_eq_nil_iff] at hzero
  rw [sx1302Fetch, waiting]
  by_cases hbuffered : s.buffered = []
  · rw [if_pos (hzero.2 hbuffered), if_pos hbuffered]
    have hholds := hfits.holds hbuffered
    by_cases hfifo : s.fifo = []
    · rw [hfits.junk hfifo, hfifo, List.map_nil, stream_nil, List.append_nil] at hholds
      rw [hfifo]
      exact rxBufferFetch_empty hholds
    · exact rxBufferFetch_records (by rwa [Ne, List.map_eq_nil_iff]) hholds hfits.syncFree hfits.cap
  · rw [if_neg (fun h => hbuffered (hzero.1 h)), if_neg hbuffered]
    exact ⟨_, rfl, hs.waiting⟩

/-- **A call does what `specReceive` says**, and accesses nothing outside an array. -/
theorem lgwReceive_spec (ctx : RxContext) {s : Reception} (hs : s.Consistent)
    {call : ReceiveCall n} (hfits : call.Fits s) {outcome : Outcome} {buffered fifo : List Stamped}
    (hspec : specReceive ctx call.input.temperature.isSome call.maxPkt.toNat s.buffered s.fifo =
      (outcome, buffered, fifo)) :
    ∃ ret hal pktData,
      lgwReceive ctx call.floats s.hal call.input call.maxPkt call.pktData =
        .ok (ret, hal, pktData) ∧
      outcome.Returns ctx ret (ret.packets pktData) ∧ Waiting hal.rx buffered ∧
      Clocked.Tracked ⟨hal.counter, call.pps, call.inst⟩ := by
  obtain ⟨rx, hfetch, hwaiting⟩ := sx1302Fetch_waiting hs hfits
  obtain ⟨counter, hget, htracked⟩ := hs.tracked.get hfits.reads hfits.pps hfits.inst
  have hupdate : sx1302Update s.hal.counter call.input.reads = counter := by
    rw [sx1302Update, hget]
  have hzero := hwaiting.pktNb_eq_zero_iff
  have hnb := hwaiting.toNat_pktNb
  rw [List.map_eq_nil_iff] at hzero
  rw [List.length_map] at hnb
  rw [lgwReceive, hfetch, ok_bind]
  dsimp only
  rw [if_neg (by decide), hupdate]
  obtain ⟨q, rest, hq⟩ : ∃ q rest, waiting s.buffered s.fifo = (q, rest) := ⟨_, _, rfl⟩
  have hsoon := hfits.soon
  simp only [specReceive, hq] at hspec hwaiting hzero hnb hsoon
  by_cases hempty : q = []
  · -- nothing has been fetched
    rw [if_pos hempty] at hspec
    obtain ⟨rfl, rfl, rfl⟩ := hspec
    rw [if_pos (hzero.2 hempty)]
    refine ⟨_, _, _, rfl, ⟨rfl, [], .nil, ?_⟩, hempty ▸ hwaiting, htracked⟩
    split
    · exact ⟨.refl [], .nil⟩
    · rfl
  · rw [if_neg hempty] at hspec
    rw [if_neg (fun h => hempty (hzero.1 h))]
    cases htemperature : call.input.temperature with
    | none =>
      rw [htemperature] at hspec
      obtain ⟨rfl, rfl, rfl⟩ := hspec
      exact ⟨_, _, _, rfl, ⟨rfl, rfl⟩, hwaiting, htracked⟩
    | some temperature =>
      rw [htemperature] at hspec
      obtain ⟨rfl, rfl, rfl⟩ := hspec
      have hmin : (if rx.bufferPktNb ≤ call.maxPkt then rx.bufferPktNb else call.maxPkt).toNat =
          min q.length call.maxPkt.toNat := by
        split
        · next hle => rw [hnb, Nat.min_eq_left (hnb ▸ hle)]
        · next hle => rw [Nat.min_eq_right (hnb ▸ Nat.le_of_not_le hle)]
      have hroom := hfits.room
      obtain ⟨status, rx', pktData, hloop, hrest, hloops, -⟩ := receiveLoop_batch ctx call.floats
        htracked.2 temperature (k := min q.length call.maxPkt.toNat) (i := 0) hwaiting
        hsoon (Nat.min_le_left _ _) call.pktData (by omega)
      rw [hmin]
      dsimp only
      rw [hloop, ok_bind]
      cases hbatch : (batch ctx (min q.length call.maxPkt.toNat) q).1 with
      | delivered l =>
        rw [hbatch] at hloops
        obtain ⟨rfl, hdelivers⟩ := hloops
        have hle : min q.length call.maxPkt.toNat ≤ n := by omega
        dsimp only
        by_cases hmerge : 0 < min q.length call.maxPkt.toNat ∧ ctx.ftimeEnable = true
        · rw [if_pos hmerge]
          have hlen := length_packets (mergePackets_le pktData hle)
            (p := (mergePackets pktData (min q.length call.maxPkt.toNat)).1)
          refine ⟨_, _, _, rfl, ⟨congrArg Received.found hlen.symm, _, hdelivers, ?_⟩, hrest,
            htracked⟩
          rw [if_pos hmerge.2]
          exact mergePackets_merged pktData hle
        · rw [if_neg hmerge]
          refine ⟨_, _, _, rfl,
            ⟨congrArg Received.found (length_packets hle).symm, _, hdelivers, ?_⟩,
            hrest, htracked⟩
          split
          · next hftime =>
            have hzero : min q.length call.maxPkt.toNat = 0 := by
              by_contra hpos
              exact hmerge ⟨Nat.pos_of_ne_zero hpos, hftime⟩
            rw [hzero]
            exact ⟨.refl [], .nil⟩
          · rfl
      | discarded =>
        rw [hbatch] at hloops
        obtain rfl : status = .warning := hloops
        exact ⟨_, _, _, rfl, ⟨rfl, rfl⟩, hrest, htracked⟩
      | failed =>
        rw [hbatch] at hloops
        obtain rfl : status = .error := hloops
        exact ⟨_, _, _, rfl, ⟨rfl, rfl⟩, hrest, htracked⟩

/-- What happens: a packet comes in, or the library is called. -/
inductive ReceptionEvent (n : Nat) where
  | arrive (st : Stamped)
  | receive (call : ReceiveCall n)

/-- One event. -/
inductive ReceptionStep (ctx : RxContext) (s : Reception) :
    ReceptionEvent n → Reception → Prop where
  | arrive (st : Stamped) :
      ReceptionStep ctx s (.arrive st)
        { s with fifo := s.fifo ++ [st], arrived := s.arrived ++ [st] }
  | receive {call : ReceiveCall n} {ret : Received} {hal : RxState} {pktData : Vector LgwPktRx n}
      {outcome : Outcome} {buffered fifo : List Stamped} :
      call.Fits s →
      specReceive ctx call.input.temperature.isSome call.maxPkt.toNat s.buffered s.fifo =
        (outcome, buffered, fifo) →
      lgwReceive ctx call.floats s.hal call.input call.maxPkt call.pktData =
        .ok (ret, hal, pktData) →
      ReceptionStep ctx s (.receive call)
        { s with
          hal := hal
          pps := call.pps
          inst := call.inst
          buffered := buffered
          fifo := fifo
          log := s.log ++ [⟨outcome, ret, ret.packets pktData⟩] }

/-- Nothing has been received yet. -/
def receptionInit (s : Reception) : Prop :=
  s = ⟨⟨RxBuffer.new, TimestampCounter.new⟩, 0, 0, [], [], [], []⟩

variable {ctx : RxContext} {s t : Reception}

/-- What a step makes of the log. -/
theorem ReceptionStep.refines (hs : s.Consistent)
    (hlog : ∀ e ∈ s.log, e.outcome.Returns ctx e.ret e.out) {e : ReceptionEvent n}
    (h : ReceptionStep ctx s e t) :
    t.Consistent ∧ ∀ e ∈ t.log, e.outcome.Returns ctx e.ret e.out := by
  cases h with
  | arrive st => exact ⟨⟨hs.waiting, hs.tracked⟩, hlog⟩
  | receive hfits hspec hcall =>
    obtain ⟨ret, hal, pktData, hcall', hreturns, hwaiting, htracked⟩ :=
      lgwReceive_spec ctx hs hfits hspec
    rw [hcall] at hcall'
    cases hcall'
    refine ⟨⟨hwaiting, htracked⟩, ?_⟩
    intro e he
    rcases List.mem_append.1 he with hold | hnew
    · exact hlog e hold
    · rw [List.mem_singleton.1 hnew]
      exact hreturns

theorem reachable_consistent (h : Reachable receptionInit (ReceptionStep (n := n) ctx) s) :
    s.Consistent ∧ ∀ e ∈ s.log, e.outcome.Returns ctx e.ret e.out := by
  apply Reachable.invariant ?_ ?_ h
  · rintro s rfl
    exact ⟨⟨pending_nil (Nat.zero_le _) rfl rfl, tracks_new, tracks_new⟩,
      fun e he => absurd he List.not_mem_nil⟩
  · intro s e t hs hstep
    exact hstep.refines hs.1 hs.2

/-- The packets of an outcome. -/
def Outcome.packets : Outcome → List Stamped
  | delivered l => l
  | discarded => []
  | failed => []

theorem batch_good {k : Nat} {q : List Stamped} (hgood : ∀ st ∈ q, st.record.fate ctx = .good) :
    batch ctx k q = (.delivered (q.take k), q.drop k) := by
  induction k generalizing q with
  | zero => rfl
  | succ k ih =>
    cases q with
    | nil => rfl
    | cons st q =>
      rw [batch, hgood st List.mem_cons_self]
      simp only [ih fun st' hst' => hgood st' (List.mem_cons_of_mem st hst'), Outcome.cons,
        List.take_succ_cons, List.drop_succ_cons]

/-- A call with good packets takes some of them from the front. -/
theorem specReceive_good {temperatureOk : Bool} {maxPkt : Nat} {buffered fifo : List Stamped}
    (hgood : ∀ st ∈ buffered ++ fifo, st.record.fate ctx = .good) {outcome : Outcome}
    {buffered' fifo' : List Stamped}
    (h : specReceive ctx temperatureOk maxPkt buffered fifo = (outcome, buffered', fifo')) :
    outcome ≠ .discarded ∧ outcome.packets ++ (buffered' ++ fifo') = buffered ++ fifo := by
  have hwaiting : (waiting buffered fifo).1 ++ (waiting buffered fifo).2 = buffered ++ fifo := by
    rw [waiting]
    split
    · next hnil => rw [hnil, List.append_nil, List.nil_append]
    · rfl
  rw [specReceive] at h
  generalize waiting buffered fifo = w at h hwaiting
  obtain ⟨q, rest⟩ := w
  dsimp only at h hwaiting
  rw [← hwaiting] at hgood ⊢
  by_cases hempty : q = []
  · rw [if_pos hempty] at h
    obtain ⟨rfl, rfl, rfl⟩ := h
    rw [hempty]
    exact ⟨nofun, rfl⟩
  · rw [if_neg hempty] at h
    cases temperatureOk with
    | false =>
      obtain ⟨rfl, rfl, rfl⟩ := h
      exact ⟨nofun, rfl⟩
    | true =>
      rw [if_pos rfl, batch_good fun st hst => hgood st (List.mem_append_left rest hst)] at h
      obtain ⟨rfl, rfl, rfl⟩ := h
      exact ⟨nofun, by rw [Outcome.packets, ← List.append_assoc, List.take_append_drop]⟩

/-- All that has come in is in the log, in the buffer or in the concentrator, in this order. -/
def Reception.Conserved (s : Reception) : Prop :=
  s.arrived = s.log.flatMap (fun e => e.outcome.packets) ++ (s.buffered ++ s.fifo)

theorem ReceptionStep.conserved (hs : s.Conserved)
    (hgood : ∀ st ∈ s.arrived, st.record.fate ctx = .good) {e : ReceptionEvent n}
    (h : ReceptionStep ctx s e t) : t.Conserved := by
  cases h with
  | arrive st =>
    show s.arrived ++ [st] = s.log.flatMap _ ++ (s.buffered ++ (s.fifo ++ [st]))
    rw [hs]
    simp only [List.append_assoc]
  | receive hfits hspec hcall =>
    have hkept := (specReceive_good (fun st hst => hgood st (hs ▸ List.mem_append_right _ hst))
      hspec).2
    rw [Reception.Conserved] at hs ⊢
    rw [hs, List.flatMap_append, List.flatMap_singleton, List.append_assoc, hkept]

/-- The packets of the outcomes are the ones returned, where nothing is merged. -/
theorem forall₂_returned (hftime : ctx.ftimeEnable = false) {log : List LogEntry}
    (h : ∀ e ∈ log, e.outcome.Returns ctx e.ret e.out) :
    List.Forall₂ (Delivers ctx) (log.flatMap fun e => e.outcome.packets)
      (log.flatMap LogEntry.out) := by
  induction log with
  | nil => exact .nil
  | cons e log ih =>
    rw [List.flatMap_cons, List.flatMap_cons]
    refine List.rel_append ?_ (ih fun e' he' => h e' (List.mem_cons_of_mem e he'))
    have hreturns := h e List.mem_cons_self
    cases houtcome : e.outcome with
    | delivered l =>
      rw [houtcome] at hreturns
      obtain ⟨-, ps, hdelivers, hout⟩ := hreturns
      rw [if_neg (by rw [hftime]; exact Bool.false_ne_true)] at hout
      rw [hout]
      exact hdelivers
    | discarded =>
      rw [houtcome] at hreturns
      rw [hreturns.2]
      exact .nil
    | failed =>
      rw [houtcome] at hreturns
      rw [hreturns.2]
      exact .nil

/-- With a refused record in front, a call that asks for a packet is an error, whatever the counters
show and the concentrator holds. -/
theorem lgwReceive_refused {hal : RxState} {st : Stamped} {q : List Stamped}
    (h : Waiting hal.rx (st :: q)) (hrefused : st.record.fate ctx = .refused)
    {call : ReceiveCall n} (hpos : 0 < call.maxPkt.toNat) (hroom : call.maxPkt.toNat ≤ n) :
    ∃ counter pktData, lgwReceive ctx call.floats hal call.input call.maxPkt call.pktData =
      .ok (.error, ⟨hal.rx, counter⟩, pktData) := by
  have hsome : hal.rx.bufferPktNb ≠ 0#8 := by
    rw [Ne, h.pktNb_eq_zero_iff]
    exact List.cons_ne_nil _ _
  have hfetch : sx1302Fetch hal.rx call.input.fifo = .ok (.success, hal.rx) := if_neg hsome
  rw [lgwReceive, hfetch, ok_bind]
  dsimp only
  rw [if_neg (by decide), if_neg hsome]
  cases call.input.temperature with
  | none => exact ⟨_, _, rfl⟩
  | some temperature =>
    -- the loop has at least one turn, and its first one ends it
    obtain ⟨k, hk⟩ : ∃ k, (if hal.rx.bufferPktNb ≤ call.maxPkt then hal.rx.bufferPktNb
        else call.maxPkt).toNat = k + 1 := by
      apply Nat.exists_eq_succ_of_ne_zero
      split
      · intro hzero
        exact hsome (BitVec.eq_of_toNat_eq hzero)
      · exact hpos.ne'
    have hn : 0 < n := by omega
    have hread := read_get call.pktData hn
    dsimp only
    rw [hk, receiveLoop, hread, ok_bind, sx1302Parse_refused ctx call.floats _ h hrefused, ok_bind]
    dsimp only
    rw [if_neg (by decide), write_ok _ _ hn, ok_bind]
    exact ⟨_, _, rfl⟩

/-- The calls of a list, one after the other: what they return, and the state behind them. -/
def receiveAll (ctx : RxContext) :
    RxState → List (ReceiveCall n) → Except OutOfBounds (List Received × RxState)
  | hal, [] => .ok ([], hal)
  | hal, call :: calls => do
    let (ret, hal, _) ← lgwReceive ctx call.floats hal call.input call.maxPkt call.pktData
    let (rets, hal) ← receiveAll ctx hal calls
    return (ret :: rets, hal)

theorem receiveAll_refused {hal : RxState} {st : Stamped} {q : List Stamped}
    (h : Waiting hal.rx (st :: q)) (hrefused : st.record.fate ctx = .refused)
    (calls : List (ReceiveCall n))
    (hcalls : ∀ call ∈ calls, 0 < call.maxPkt.toNat ∧ call.maxPkt.toNat ≤ n) :
    ∃ counter, receiveAll ctx hal calls =
      .ok (List.replicate calls.length .error, ⟨hal.rx, counter⟩) := by
  induction calls generalizing hal with
  | nil => exact ⟨hal.counter, rfl⟩
  | cons call calls ih =>
    obtain ⟨hpos, hroom⟩ := hcalls call List.mem_cons_self
    obtain ⟨counter, pktData, hcall⟩ := lgwReceive_refused h hrefused hpos hroom
    have hstill : Waiting (RxState.mk hal.rx counter).rx (st :: q) := h
    obtain ⟨counter', hrest⟩ :=
      ih hstill fun call' hcall' => hcalls call' (List.mem_cons_of_mem call hcall')
    refine ⟨counter', ?_⟩
    rw [receiveAll, hcall, ok_bind]
    dsimp only
    rw [hrest, ok_bind, List.length_cons, List.replicate_succ]
    rfl

/-- **A refused record blocks the library**: once a record with metadata out of range is the next in
the buffer, every later call that asks for a packet is an error, whenever it is made and whatever it
reads from the concentrator, and the record stays with all that are behind it. -/
theorem refused_blocks (h : Reachable receptionInit (ReceptionStep (n := n) ctx) s) {st : Stamped}
    {q : List Stamped} (hnext : s.buffered = st :: q) (hrefused : st.record.fate ctx = .refused)
    (calls : List (ReceiveCall n))
    (hcalls : ∀ call ∈ calls, 0 < call.maxPkt.toNat ∧ call.maxPkt.toNat ≤ n) :
    ∃ hal, receiveAll ctx s.hal calls = .ok (List.replicate calls.length .error, hal) ∧
      Waiting hal.rx (st :: q) := by
  have hwaiting := (reachable_consistent h).1.waiting
  rw [hnext] at hwaiting
  obtain ⟨counter, hall⟩ := receiveAll_refused hwaiting hrefused calls hcalls
  exact ⟨_, hall, hwaiting⟩

/-! ## Runs with short records -/

/-- A record of one byte on the first chain, with the given modem and its sum off by `off`. -/
def shortRecord (byte modemId off : BitVec 8) : Record where
  payload := [byte]
  channel := 0#8
  crcEn := false
  codingRate := 1#3
  datarate := 7#4
  modemId := modemId
  freqOffset := 0#20
  crcError := false
  syncError := false
  headerError := false
  timingSet := false
  snr := 0#8
  rssiChan := 0#8
  rssiSig := 0#8
  deltas := 0#16
  timestamp := 32000#32
  crc16 := 0#16
  metrics := []
  spare8 := 0#4
  spare9 := 0#1
  spareTop9 := 0#3
  sum := 0x55#8 + byte + modemId + off
  payload_le := Nat.le_of_ble_eq_true rfl
  metrics_le := Nat.zero_le _

/-- It came in after one millisecond. -/
def shortStamped (byte modemId off : BitVec 8) : Stamped :=
  ⟨shortRecord byte modemId off, 32000, rfl⟩

/-- A context with all chains on the first radio. -/
def shortContext : RxContext where
  rfChainFreqHz := Vector.replicate 2 868000000#32
  ifChainCfg := Vector.replicate 10 ⟨⟨0, Nat.two_pos⟩, 0#32⟩
  loraServiceCfg := ⟨false, false, 0#8, bw125khz⟩
  fskBandwidth := 0#8
  fskDatarate := 50000#32
  ftimeEnable := false

/-- Levels that are not converted. -/
def shortFloats : RxFloats where
  ofByte x := x.setWidth 32
  quarter x := x.setWidth 32
  freqOffset _ x := x
  fskRssi x := x
  addRssiOffset _ _ x := x
  preciseTimestamp _ _ _ _ := (false, 0#32)

/-- A call after two milliseconds, with room for two packets. -/
def shortCall (fifo : List Stamped) : ReceiveCall 2 where
  floats := shortFloats
  input := ⟨FifoRead.ofBytes (stream (fifo.map Stamped.record)),
    regsAt #v[0#8, 0#8, 0#8, 0#8] #v[0#8, 0#8, 0xFA#8, 0#8], some 0#32⟩
  maxPkt := 2#8
  pktData := Vector.replicate 2 (LgwPktRx.ofBytes [])
  junk := []
  pps := 0
  inst := 64000

/-- A run has led to this state: what waits, what has come in, and the outcomes of the calls. -/
structure RunTo (t : Reception) (buffered fifo arrived : List Stamped) (outcomes : List Outcome) :
    Prop where
  reach : Reachable receptionInit (ReceptionStep (n := 2) shortContext) t
  pps : t.pps = 0
  inst : t.inst = 0 ∨ t.inst = 64000
  buffered : t.buffered = buffered
  fifo : t.fifo = fifo
  arrived : t.arrived = arrived
  log : t.log.map LogEntry.outcome = outcomes

theorem runTo_init :
    RunTo ⟨⟨RxBuffer.new, TimestampCounter.new⟩, 0, 0, [], [], [], []⟩ [] [] [] [] :=
  ⟨Reachable.start rfl, rfl, .inl rfl, rfl, rfl, rfl, rfl⟩

section Short

variable {buffered fifo arrived : List Stamped} {outcomes : List Outcome}

theorem RunTo.arrive (h : RunTo t buffered fifo arrived outcomes) (new : List Stamped) :
    ∃ t', RunTo t' buffered (fifo ++ new) (arrived ++ new) outcomes := by
  induction new generalizing t fifo arrived with
  | nil => exact ⟨t, by rwa [List.append_nil, List.append_nil]⟩
  | cons st new ih =>
    have hnext : RunTo { t with fifo := t.fifo ++ [st], arrived := t.arrived ++ [st] } buffered
        (fifo ++ [st]) (arrived ++ [st]) outcomes :=
      ⟨h.reach.next (.arrive st), h.pps, h.inst, h.buffered, by rw [h.fifo], by rw [h.arrived],
        h.log⟩
    obtain ⟨t', ht'⟩ := ih hnext
    rw [List.append_assoc, List.append_assoc, List.singleton_append] at ht'
    exact ⟨t', ht'⟩

theorem syncFree_nil (rest : List (BitVec 8)) : SyncFree [] rest :=
  fun i hi => absurd hi (Nat.not_lt_zero i)

theorem show_shortCall (fifo : List Stamped) : (shortCall fifo).input.reads.Show 0 64000 := by
  have hinst : be32 #v[0#8, 0#8, 0xFA#8, 0#8] = BitVec.ofNat 32 64000 := by decide
  exact ⟨⟨#v[0#8, 0#8, 0#8, 0#8], #v[0#8, 0#8, 0xFA#8, 0#8]⟩, rfl, by decide, hinst⟩

theorem RunTo.fits (h : RunTo t buffered fifo arrived outcomes)
    (hticks : ∀ st ∈ buffered ++ fifo, st.ticks = 32000)
    (hlen : (stream (fifo.map Stamped.record)).length ≤ rxBufferCap) :
    (shortCall fifo).Fits t := by
  have hcap : rxBufferCap < 2 ^ 16 := by decide
  have hpps : Soon t.pps 0 := by
    rw [h.pps]
    exact ⟨by decide, by decide⟩
  have hinst : Soon t.inst 64000 := by
    rcases h.inst with hzero | hsame
    · rw [hzero]
      exact ⟨by decide, by decide⟩
    · rw [hsame]
      exact ⟨by decide, by decide⟩
  have hpacket : Soon 32000 64000 := ⟨by decide, by decide⟩
  refine {
    room := le_refl 2
    reads := show_shortCall fifo
    pps := hpps
    inst := hinst
    soon := ?_
    holds := fun _ => ?_
    syncFree := syncFree_nil _
    cap := by rw [h.fifo]; exact hlen
    junk := fun _ => rfl }
  · intro st hst
    have hmem : st ∈ buffered ++ fifo := by
      rw [waiting, h.buffered, h.fifo] at hst
      split at hst
      · exact List.mem_append_right _ hst
      · exact List.mem_append_left _ hst
    rw [hticks st hmem]
    exact hpacket
  · rw [h.fifo]
    exact FifoRead.holds_ofBytes (Nat.lt_of_le_of_lt hlen hcap)

/-- A call goes through with the outcome that `specReceive` says. -/
theorem RunTo.call (outcome : Outcome) (buffered' fifo' : List Stamped)
    (h : RunTo t buffered fifo arrived outcomes)
    (hticks : ∀ st ∈ buffered ++ fifo, st.ticks = 32000)
    (hlen : (stream (fifo.map Stamped.record)).length ≤ rxBufferCap)
    (hspec : specReceive shortContext true 2 buffered fifo = (outcome, buffered', fifo')) :
    ∃ t', RunTo t' buffered' fifo' arrived (outcomes ++ [outcome]) := by
  have hfits := h.fits hticks hlen
  rw [← h.buffered, ← h.fifo] at hspec
  obtain ⟨ret, hal, pktData, hcall, -⟩ :=
    lgwReceive_spec shortContext (reachable_consistent h.reach).1 hfits hspec
  exact ⟨_, h.reach.next (.receive hfits hspec hcall), rfl, .inr rfl, rfl, rfl, h.arrived,
    by rw [List.map_append, h.log]; rfl⟩

end Short

/-- Packets with the bytes of a list. -/
def goodStamped (bytes : List (BitVec 8)) : List Stamped :=
  bytes.map fun b => shortStamped b 0#8 0#8

/-- Modem 18 is no modem. -/
def refusedStamped : Stamped := shortStamped 7#8 18#8 0#8

theorem fate_shortStamped :
    (∀ b ∈ [1#8, 2#8, 3#8, 4#8, 5#8, 6#8],
      (shortStamped b 0#8 0#8).record.fate shortContext = .good) ∧
      refusedStamped.record.fate shortContext = .refused ∧
      (shortStamped 8#8 0#8 1#8).record.fate shortContext = .corrupt := by
  decide +kernel

/-- Three packets are returned by two calls, a corrupt one discards its batch, and a refused one
stays in front of another. -/
theorem runTo_four :
    ∃ t, RunTo t (refusedStamped :: goodStamped [4#8]) []
      (goodStamped [1#8, 2#8, 3#8] ++ [shortStamped 8#8 0#8 1#8] ++
        (refusedStamped :: goodStamped [4#8]))
      [.delivered (goodStamped [1#8, 2#8]), .delivered (goodStamped [3#8]), .discarded,
        .failed] := by
  obtain ⟨hgood, hrefused, hcorrupt⟩ := fate_shortStamped
  obtain ⟨_, h1⟩ := runTo_init.arrive (goodStamped [1#8, 2#8, 3#8])
  obtain ⟨_, h2⟩ := RunTo.call (.delivered (goodStamped [1#8, 2#8])) (goodStamped [3#8]) []
    h1 (by decide) (by decide +kernel) (by
      simp [specReceive, waiting, batch, goodStamped, Outcome.cons, hgood])
  obtain ⟨_, h3⟩ := h2.arrive [shortStamped 8#8 0#8 1#8]
  obtain ⟨_, h4⟩ := RunTo.call (.delivered (goodStamped [3#8])) [] [shortStamped 8#8 0#8 1#8]
    h3 (by decide) (by decide +kernel) (by
      simp [specReceive, waiting, batch, goodStamped, Outcome.cons, hgood])
  obtain ⟨_, h5⟩ := RunTo.call .discarded [] [] h4 (by decide) (by decide +kernel)
    (by simp [specReceive, waiting, batch, hcorrupt])
  obtain ⟨_, h6⟩ := h5.arrive (refusedStamped :: goodStamped [4#8])
  exact RunTo.call .failed (refusedStamped :: goodStamped [4#8]) [] h6 (by decide)
    (by decide +kernel) (by simp [specReceive, waiting, batch, goodStamped, hrefused])

/-- Two calls with a new packet in the concentrator, and one of five seconds later for a single
packet, in which the temperature cannot be read. -/
def laterCalls : List (ReceiveCall 2) :=
  [shortCall (goodStamped [5#8]), shortCall (goodStamped [5#8]),
    { shortCall [] with
      maxPkt := 1#8
      input :=
        ⟨FifoRead.ofBytes [], regsAt #v[0#8, 0#8, 0#8, 0#8] #v[9#8, 0x89#8, 0x68#8, 0#8], none⟩
      inst := 160000000 }]

theorem refused_blocks_three :
    ∃ t : Reception, t.buffered = refusedStamped :: goodStamped [4#8] ∧
      ∃ hal, receiveAll shortContext t.hal laterCalls = .ok ([.error, .error, .error], hal) ∧
        Waiting hal.rx (refusedStamped :: goodStamped [4#8]) := by
  obtain ⟨t, h⟩ := runTo_four
  refine ⟨t, h.buffered, ?_⟩
  apply refused_blocks h.reach h.buffered fate_shortStamped.2.1 laterCalls
  intro call hcall
  simp only [laterCalls, List.mem_cons, List.not_mem_nil, or_false] at hcall
  rcases hcall with rfl | rfl | rfl
  · exact ⟨by decide, by decide⟩
  · exact ⟨by decide, by decide⟩
  · exact ⟨by decide, by decide⟩

end DraginoFwd.Hal
