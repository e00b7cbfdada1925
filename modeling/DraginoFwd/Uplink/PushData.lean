import DraginoFwd.Base64
import DraginoFwd.Lib.Printf
import DraginoFwd.Mac.PacketLoop
import DraginoFwd.Uplink.Fanout

/-!
# The PUSH_DATA datagram

`pushUp` is one iteration of `semtech_push_up` up to the call of `send`: it fetches a batch, filters
its packets, writes a JSON object for each of them into `buff_up` behind a header of 12 bytes, and
adds the status report when one is ready. The text is what stands in the buffer from the header to
`buff_index`. A packet is a list of writes and the way in which they end (`Layout`): complete, left
as they are by a `continue`, or taken back by setting `buff_index` to 21, which leaves the first
nine characters of the text.

A write that would leave the buffer is an error. An `snprintf` is one as soon as its text does not
fit: it is cut short, but `buff_index` moves behind the buffer all the same, and before it is set
back there is always another write by `memcpy` or by assignment.
-/

set_option autoImplicit false

namespace DraginoFwd.Uplink

open DraginoFwd.Base64 (binToB64)
open DraginoFwd.Hal
open DraginoFwd.Lib.Memory
open DraginoFwd.Lib.Printf
open DraginoFwd.Mac (ServFilter passesFilter loRaMacParserData)

/-! ## Filters -/

/-- `filter_e`: `NOFILTER`, `INCLUDE` and `EXCLUDE`. Other numbers do what `NOFILTER` does. -/
inductive FilterMode where
  | noFilter
  | included
  | excluded
  deriving DecidableEq

/-- What of a service decides which packets it forwards: its name and its filters. -/
structure PushConfig where
  name : List Char
  filter : ServFilter
  fport : FilterMode
  devaddr : FilterMode

/-- `addr_key`, in an array of 64 characters -/
def addrKey (name : List Char) (addr : BitVec 32) : List Char :=
  (name ++ "/devaddr/".toList ++ fmtX8 addr).take 63

/-- `fport_key`, in an array of 48 characters -/
def fportKey (name : List Char) (fport : BitVec 8) : List Char :=
  (name ++ "/fport/".toList ++ fmtU fport.toNat).take 47

/-- One `switch` of `pkt_basic_filter`: whether the packet is dropped, by whether the key exists. -/
def FilterMode.drops (mode : FilterMode) (keyExists : Bool) : Bool :=
  match mode with
  | .noFilter => false
  | .included => keyExists
  | .excluded => !keyExists

/-- `pkt_basic_filter`, where `keyExist` is `lgw_db_key_exist`. -/
def pktBasicFilter (cfg : PushConfig) (keyExist : List Char → Bool) (addr : BitVec 32)
    (fport : BitVec 8) : Bool :=
  cfg.fport.drops (keyExist (fportKey cfg.name fport)) ||
    cfg.devaddr.drops (keyExist (addrKey cfg.name addr))

/-- The device address and the port that `LoRaMacParserData` leaves in `macmsg`. Of a packet
shorter than four bytes it reads the MIC before the payload, inside the same record, when the
address is set and the port is 0. -/
def macAddrPort (p : LgwPktRx) : BitVec 32 × BitVec 8 :=
  match loRaMacParserData p.payload (p.size.setWidth 8) with
  | .ok (_, macmsg) => (macmsg.devAddr, macmsg.fport)
  | .error _ =>
      let byte := fun i => p.payload.toList.getD i 0#8
      (le32 (byte 1) (byte 2) (byte 3) (byte 4), 0#8)

/-- The packet passes the filters and is counted in `meas_up_pkt_fwd`. -/
def forwards (cfg : PushConfig) (keyExist : List Char → Bool) (p : LgwPktRx) : Bool :=
  passesFilter cfg.filter p &&
    !((cfg.fport ≠ .noFilter || cfg.devaddr ≠ .noFilter) &&
      pktBasicFilter cfg keyExist (macAddrPort p).1 (macAddrPort p).2)

/-! ## The buffer -/

/-- `STATUS_SIZE` -/
abbrev statusSize : Nat := 300

/-- `TX_BUFF_SIZE` -/
abbrev txBuffSize : Nat := 540 * nbPktMax + 30 + statusSize

/-- The header of a datagram. -/
abbrev headerSize : Nat := 12

/-- A write at `buff_index`: `memcpy` or an assignment, or a text with its terminator by `snprintf`
or `bin_to_b64`. -/
inductive Write where
  | copy (text : List Char)
  | print (text : List Char)

/-- The characters that `buff_index` moves over. -/
def Write.text : Write → List Char
  | .copy text => text
  | .print text => text

/-- The number of bytes that are stored. -/
def Write.extent : Write → Nat
  | .copy text => text.length
  | .print text => text.length + 1

/-- A write behind a text. -/
def Write.store (w : Write) (text : List Char) : Except OutOfBounds (List Char) :=
  if headerSize + text.length + w.extent ≤ txBuffSize then .ok (text ++ w.text)
  else .error ⟨(headerSize + text.length + w.extent : Nat), txBuffSize⟩

/-- Writes one behind the other. -/
def storeAll : List Write → List Char → Except OutOfBounds (List Char)
  | [], text => .ok text
  | w :: ws, text => do
      let text ← w.store text
      storeAll ws text

/-! ## One packet -/

/-- How the writes of a packet end: at `++pkt_in_dgram`, at a `continue`, or at a `continue` behind
`buff_index = 21`. -/
inductive PktEnd where
  | done
  | left
  | dropped
  deriving DecidableEq

/-- The writes of a packet. The calls of `snprintf` do not fail, as none of their texts is empty. -/
structure Layout where
  writes : List Write
  pktEnd : PktEnd

/-- Writes before a layout. -/
def Layout.behind (ws : List Write) (l : Layout) : Layout := ⟨ws ++ l.writes, l.pktEnd⟩

/-- `struct tm`, as far as it is printed, and the nanoseconds. -/
structure UtcTime where
  tmYear : BitVec 32
  tmMon : BitVec 32
  tmMday : BitVec 32
  tmHour : BitVec 32
  tmMin : BitVec 32
  tmSec : BitVec 32
  tvNsec : BitVec 64

/-- `%04i-%02i-%02iT%02i:%02i:%02i.%06liZ` -/
def UtcTime.text (t : UtcTime) : List Char :=
  fmtZeroD 4 (t.tmYear.toInt + 1900) ++ '-' :: fmtZeroD 2 (t.tmMon.toInt + 1) ++
    '-' :: fmtZeroD 2 t.tmMday.toInt ++ 'T' :: fmtZeroD 2 t.tmHour.toInt ++
    ':' :: fmtZeroD 2 t.tmMin.toInt ++ ':' :: fmtZeroD 2 t.tmSec.toInt ++
    '.' :: fmtZeroD 6 (t.tvNsec.toInt.tdiv 1000) ++ ['Z']

/-- The time of a packet: what the GPS reference makes of its counter, if it is converted, or the
clock. -/
inductive PktTime where
  | gps (utc : Option UtcTime) (gpsMs : Option (BitVec 64))
  | clock (utc : UtcTime)

/-- The member `time`. -/
def utcWrite (t : UtcTime) : Write := .print (",\"time\":\"".toList ++ t.text ++ ['"'])

/-- The members that tell the time of a packet. -/
def timeWrites : PktTime → List Write
  | .gps utc gpsMs =>
      utc.toList.map utcWrite ++
        gpsMs.toList.map fun ms => .print (",\"tmms\":".toList ++ fmtU ms.toNat)
  | .clock utc => [utcWrite utc]

/-- `STAT_CRC_OK`, `STAT_CRC_BAD` and `STAT_NO_CRC` in `stat` -/
def statText (p : LgwPktRx) : Option (List Char) :=
  if p.status = statCrcOk then some "1".toList
  else if p.status = statCrcBad then some "-1".toList
  else if p.status = statNoCrc then some "0".toList
  else none

/-- `DR_LORA_SF5` to `DR_LORA_SF12` in `datr` -/
def datrText (p : LgwPktRx) : Option (List Char) :=
  match p.datarate.toNat with
  | 5 => some "SF5".toList
  | 6 => some "SF6".toList
  | 7 => some "SF7".toList
  | 8 => some "SF8".toList
  | 9 => some "SF9".toList
  | 10 => some "SF10".toList
  | 11 => some "SF11".toList
  | 12 => some "SF12".toList
  | _ => none

/-- `BW_125KHZ`, `BW_250KHZ` and `BW_500KHZ` in `datr` -/
def bandText (p : LgwPktRx) : Option (List Char) :=
  match p.bandwidth.toNat with
  | 4 => some "BW125".toList
  | 5 => some "BW250".toList
  | 6 => some "BW500".toList
  | _ => none

/-- `CR_LORA_4_5` to `CR_LORA_4_8`, and 0, in `codr` -/
def codrText (p : LgwPktRx) : Option (List Char) :=
  match p.coderate.toNat with
  | 1 => some "4/5".toList
  | 2 => some "4/6".toList
  | 3 => some "4/7".toList
  | 4 => some "4/8".toList
  | 0 => some "OFF".toList
  | _ => none

/-- Signal strength, size and payload, and the end of the object. -/
def dataLayout (p : LgwPktRx) : Layout :=
  .behind [.print (",\"rssi\":".toList ++ fmtRoundf p.rssic ++ ",\"size\":".toList ++
      fmtU p.size.toNat),
    .copy ",\"data\":\"".toList] <|
  match binToB64 p.payload.toList p.size.toNat 341 with
  | some text => ⟨[.print text, .copy ['"'], .copy ['}']], .done⟩
  | none => ⟨[], .dropped⟩

/-- The branch for `MOD_LORA`. -/
def loraLayout (p : LgwPktRx) : Layout :=
  .behind [.copy ",\"modu\":\"LORA\"".toList] <|
  match datrText p with
  | none => ⟨[.copy ",\"datr\":\"SF?".toList], .left⟩
  | some datr =>
      .behind [.copy (",\"datr\":\"".toList ++ datr)] <|
      match bandText p with
      | none => ⟨[.copy "BW?\"".toList], .left⟩
      | some band =>
          .behind [.copy (band ++ ['"'])] <|
          match codrText p with
          | none => ⟨[.copy ",\"codr\":\"?\"".toList], .left⟩
          | some codr =>
              .behind [.copy (",\"codr\":\"".toList ++ codr ++ ['"']),
                .print (",\"rssis\":".toList ++ fmtRoundf p.rssis),
                .print (",\"lsnr\":".toList ++ fmtF1 p.snr),
                .print (",\"foff\":".toList ++ fmtD p.freqOffset.toInt)] (dataLayout p)

/-- The branch for `MOD_FSK`. -/
def fskLayout (p : LgwPktRx) : Layout :=
  .behind [.copy ",\"modu\":\"FSK\"".toList, .print (",\"datr\":".toList ++ fmtU p.datarate.toNat)]
    (dataLayout p)

/-- The branches on the modulation. -/
def moduLayout (p : LgwPktRx) : Layout :=
  if p.modulation = modLora then loraLayout p
  else if p.modulation = modFsk then fskLayout p
  else ⟨[], .dropped⟩

/-- A packet, with `pkt_in_dgram` packets before it. The build is the one for the SX1302. -/
def pktLayout (pktInDgram : Nat) (time : PktTime) (p : LgwPktRx) : Layout :=
  .behind (.copy (if pktInDgram = 0 then ['{'] else [',', '{']) ::
    .print "\"jver\":1".toList ::
    .print (",\"tmst\":".toList ++ fmtU p.countUs.toNat) ::
    (timeWrites time ++ [.print (",\"chan\":".toList ++ fmtU p.ifChain.toNat ++
      ",\"rfch\":".toList ++ fmtU p.rfChain.toNat ++ ",\"freq\":".toList ++ fmtMillionth p.freqHz ++
      ",\"mid\":".toList ++ fmtBlankU p.modemId.toNat)])) <|
  match statText p with
  | none => ⟨[.copy ",\"stat\":?".toList], .left⟩
  | some stat => .behind [.copy (",\"stat\":".toList ++ stat)] (moduLayout p)

/-! ## The batch -/

/-- The packets that `get_rxpkt` has copied to `rxpkt`: none, or those of a batch. -/
structure Fetched where
  packets : List LgwPktRx
  fits : packets.length ≤ nbPktMax

/-- The three reads of `report_ready`. The report thread may set it at any time, and nobody else
clears it. -/
structure ReportReads where
  atFetch : Bool
  atArrayEnd : Bool
  atReport : Bool
  fetch_le : atFetch = true → atArrayEnd = true
  arrayEnd_le : atArrayEnd = true → atReport = true

/-- What `semtech_report` leaves in `status_report`: its format begins with the name of the member
and of its first member, and the array cuts it short. -/
structure StatusReport where
  rest : List Char
  fits : ("\"stat\":\x7b\"time\":\"".toList ++ rest).length < statusSize

/-- The text with the beginning that it always has. -/
def StatusReport.text (status : StatusReport) : List Char :=
  "\"stat\":\x7b\"time\":\"".toList ++ status.rest

/-- What the iteration finds outside: the keys of the database and the time, for each packet of the
batch, and the report. -/
structure PushEnv where
  keyExist : Nat → List Char → Bool
  time : Nat → PktTime
  reads : ReportReads
  status : StatusReport

/-- The text in the buffer, `pkt_in_dgram`, and the packets that were counted in
`meas_up_pkt_fwd`. -/
structure PushState where
  text : List Char
  pktInDgram : Nat
  counted : List LgwPktRx

/-- The body of the loop for packet `i`. -/
def pushPacket (cfg : PushConfig) (env : PushEnv) (i : Nat) (p : LgwPktRx) (s : PushState) :
    Except OutOfBounds PushState :=
  if forwards cfg (env.keyExist i) p then do
    let layout := pktLayout s.pktInDgram (env.time i) p
    let text ← storeAll layout.writes s.text
    match layout.pktEnd with
    | .done => .ok ⟨text, s.pktInDgram + 1, s.counted ++ [p]⟩
    | .left => .ok ⟨text, s.pktInDgram, s.counted ++ [p]⟩
    | .dropped => .ok ⟨text.take 9, s.pktInDgram, s.counted ++ [p]⟩
  else .ok s

/-- The loop over the packets from index `i` on. -/
def pushLoop (cfg : PushConfig) (env : PushEnv) :
    Nat → List LgwPktRx → PushState → Except OutOfBounds PushState
  | _, [], s => .ok s
  | i, p :: ps, s => do
      let s ← pushPacket cfg env i p s
      pushLoop cfg env (i + 1) ps s

/-! ## The datagram -/

/-- What an iteration has done: the text it sends, if any, the packets it has counted, and whether
it has taken the report. -/
structure Pushed where
  sent : Option (List Char)
  counted : List LgwPktRx
  reported : Bool

/-- From the status report to the end: the report, the last brace and the terminator. -/
def pushEnd (env : PushEnv) (counted : List LgwPktRx) (text : List Char) :
    Except OutOfBounds Pushed := do
  let text ← storeAll (if env.reads.atReport then [.print env.status.text] else []) text
  let text ← storeAll [.copy ['}'], .print []] text
  .ok ⟨some text, counted, env.reads.atReport⟩

/-- From the end of the loop: without a packet and a report nothing is sent, without a packet the
last eight characters are taken off the text. -/
def pushRest (env : PushEnv) (s : PushState) : Except OutOfBounds Pushed :=
  if s.pktInDgram = 0 then
    if env.reads.atArrayEnd then pushEnd env s.counted (s.text.take (s.text.length - 8))
    else .ok ⟨none, s.counted, false⟩
  else do
    let text ← storeAll (.copy [']'] :: if env.reads.atArrayEnd then [.copy [',']] else []) s.text
    pushEnd env s.counted text

/-- The start of the text. -/
def rxpkOpen : List Char := "\x7b\"rxpk\":[".toList

/-- One iteration of `semtech_push_up`, up to `send`. -/
def pushUp (cfg : PushConfig) (env : PushEnv) (fetched : Fetched) : Except OutOfBounds Pushed :=
  if fetched.packets = [] ∧ env.reads.atFetch = false then .ok ⟨none, [], false⟩
  else do
    let text ← storeAll [.copy rxpkOpen] []
    let s ← pushLoop cfg env 0 fetched.packets ⟨text, 0, []⟩
    pushRest env s

end DraginoFwd.Uplink
