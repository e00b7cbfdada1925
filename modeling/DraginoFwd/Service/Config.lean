import DraginoFwd.Lib.Handles
import DraginoFwd.Lib.JsonReader
import DraginoFwd.Lib.Printf
import DraginoFwd.Service.Sockets
import DraginoFwd.Uplink.PushData

/-!
# The services of the configuration

The part of `parsecfg` (gwcfg.c) that reads the array `servers`, and the choice of `service_start`
between the threads. Every `lgw_malloc` gives a new block and every `lgw_free` is counted, an access
through a NULL pointer ends the run with nothing, and `sem_init` succeeds or fails as it likes. How
`parsecfg` reads a number out of the text of a JSON number is a parameter.

`parseServers_agrees_iff` says for which arrays no block is lost and every entry has what its
threads use. An element without a name loses its blocks, and without an address its key and its
topics. The two types that are neither `semtech` nor `mqtt` get no report, and run the threads that
use one, and `stat_interval` is stored in the report without a test.
-/

set_option autoImplicit false

namespace DraginoFwd.Service

open DraginoFwd.Lib.Handles
open DraginoFwd.Lib.JsonReader (Json)
open DraginoFwd.Lib.Printf
open DraginoFwd.Mac (ServFilter)
open DraginoFwd.Uplink (FilterMode)

/-! ## Values of the array -/

/-- The casts of a JSON number to `uint16_t`, `long`, `int` and `uint8_t`. -/
structure Casts where
  u16 : List Char → BitVec 16
  long : List Char → Int
  int : List Char → BitVec 32
  u8 : List Char → BitVec 8

/-- The members of `json_value_get_object`. Nothing is found in NULL. -/
def getObject : Json → List (List Char × Json)
  | .obj members => members
  | _ => []

/-- `json_object_get_value` -/
def getValue (obj : List (List Char × Json)) (name : String) : Option Json :=
  obj.lookup name.toList

/-- `json_object_get_string` -/
def getString (obj : List (List Char × Json)) (name : String) : Option (List Char) :=
  match getValue obj name with
  | some (.str text) => some text
  | _ => none

/-- A field that takes a boolean only. -/
def getBoolean (obj : List (List Char × Json)) (name : String) (default : Bool) : Bool :=
  match getValue obj name with
  | some (.bool b) => b
  | _ => default

/-- `json_value_get_number`, which is 0 for other values -/
def numberText : Json → List Char
  | .num text => text
  | _ => ['0']

/-- A number that is stored whenever there is a value. -/
def getNumber {α : Type} (obj : List (List Char × Json)) (name : String) (cast : List Char → α)
    (default : α) : α :=
  match getValue obj name with
  | some v => cast (numberText v)
  | none => default

/-- `serv_type` -/
inductive ServType where
  | semtech
  | ttn
  | mqtt
  | pkt
  | gwtraf
  deriving DecidableEq

/-- The type by the beginning of `server_type`, which is `semtech` where that is anything else. -/
def servType (obj : List (List Char × Json)) : ServType :=
  match getString obj "server_type" with
  | none => .semtech
  | some str =>
      if "semtech".toList.isPrefixOf str then .semtech
      else if "ttn".toList.isPrefixOf str then .ttn
      else if "mqtt".toList.isPrefixOf str then .mqtt
      else if "gwtraf".toList.isPrefixOf str then .gwtraf
      else .semtech

/-- `filter_e` by its number. -/
def filterMode (n : BitVec 8) : FilterMode :=
  if n = 1#8 then .included else if n = 2#8 then .excluded else .noFilter

/-- The characters that a field of `size` bytes keeps of a string. -/
def kept (size : Nat) (text : List Char) : List Char := text.take (size - 1)

/-! ## Blocks and entries -/

/-- The structure a block was allocated for. -/
inductive BlockKind where
  | serv
  | net
  | key
  | mqtt
  | report
  deriving DecidableEq

/-- `mqttinfo_s` -/
structure MqttInfo where
  block : Nat
  uptopic : List Char
  dntopic : List Char

/-- `report_s`, where `mxReport` says that the lock is initialised -/
structure Report where
  block : Nat
  reportReady : Bool
  statFormat : List Char
  statInterval : BitVec 16
  mxReport : Bool

/-- `serv_net_s` -/
structure NetInfo where
  block : Nat
  sockUp : Option Nat
  sockDown : Option Nat
  addr : List Char
  portUp : List Char
  portDown : List Char
  pushTimeoutHalf : Timeval
  pullTimeout : Timeval
  pullInterval : BitVec 32
  mqtt : Option MqttInfo

/-- `serv_s`, as far as `parsecfg` fills it -/
structure Serv where
  block : Nat
  stamp : BitVec 8
  type : ServType
  enabled : Bool
  name : List Char
  key : Option (Nat × List Char)
  filter : ServFilter
  fport : FilterMode
  devaddr : FilterMode
  net : Option NetInfo
  report : Option Report

/-- The blocks so far, and `GW.serv_list`. -/
structure ConfState where
  blocks : List (Handle BlockKind)
  servList : List Serv

/-- The blocks of an entry. -/
def Serv.owned (serv : Serv) : Multiset (Nat × BlockKind) :=
  slot (some serv.block) BlockKind.serv + slot (serv.net.map NetInfo.block) BlockKind.net +
    slot (serv.key.map Prod.fst) BlockKind.key +
    slot ((serv.net.bind NetInfo.mqtt).map MqttInfo.block) BlockKind.mqtt +
    slot (serv.report.map Report.block) BlockKind.report

/-- The blocks of the entries of a list. -/
def ownedBy (l : List Serv) : Multiset (Nat × BlockKind) := (l.map Serv.owned).sum

/-- What `main` puts into the list in front of the configuration. -/
def pktServ : Serv where
  block := 0
  stamp := 1#8
  type := .pkt
  enabled := false
  name := "PKT_SERV".toList
  key := none
  filter := ⟨true, false, false⟩
  fport := .noFilter
  devaddr := .noFilter
  net := none
  report := none

/-- The PKT service alone. -/
def confStart : ConfState := ⟨acquire [] .serv, [pktServ]⟩

/-! ## The loop of `parsecfg` -/

/-- The calls of `sem_init` that fail, of at most three. -/
def semTries (sem : Nat → Bool) : Nat :=
  if sem 0 then 0 else if sem 1 then 1 else if sem 2 then 2 else 3

/-- The option `stat_interval`, which is stored through `report`. -/
def setStatInterval (c : Casts) (obj : List (List Char × Json)) (report : Option Report) :
    Option (Option Report) :=
  match getValue obj "stat_interval" with
  | none => some report
  | some v =>
      match report with
      | none => none
      | some report =>
          some (some { report with statInterval := (c.int (numberText v)).setWidth 16 })

/-- A new `report_s`, filled behind its allocation. -/
def newReport (block : Nat) : Report := ⟨block, false, "semtech".toList, 30#16, true⟩

/-- The entry with the values of the element of index `i` and its blocks. -/
def fillServ (c : Casts) (i : Nat) (obj : List (List Char × Json)) (name addr : List Char)
    (entry net : Nat) (key mqtt : Option Nat) (report : Option Report) : Serv where
  block := entry
  stamp := 1#8 <<< (i + 1)
  type := servType obj
  enabled := getBoolean obj "enabled" true
  name := kept 32 name
  key := key.map fun block => (block, kept 64 ((getString obj "server_key").getD []))
  filter := ⟨getBoolean obj "forward_crc_valid" true, getBoolean obj "forward_crc_error" false,
    getBoolean obj "forward_crc_disabled" false⟩
  fport := filterMode (getNumber obj "fport_filter" c.u8 0#8)
  devaddr := filterMode (getNumber obj "devaddr_filter" c.u8 0#8)
  net := some {
    block := net
    sockUp := none
    sockDown := none
    addr := kept 256 addr
    portUp := fmtU (getNumber obj "serv_port_up" c.u16 1700#16).toNat
    portDown := fmtU (getNumber obj "serv_port_down" c.u16 1700#16).toNat
    pushTimeoutHalf := ⟨0, 500 * getNumber obj "push_timeout_ms" c.long 100⟩
    pullTimeout := ⟨0, 1000 * getNumber obj "pull_timeout_ms" c.long 200⟩
    pullInterval := getNumber obj "pull_interval" c.int 5#32
    mqtt := mqtt.map fun block =>
      ⟨block, kept 64 ((getString obj "uptopic").getD "test".toList),
        kept 64 ((getString obj "dntopic").getD "test".toList)⟩ }
  report := report

/-- The allocation for `server_key`. -/
def allocKey (obj : List (List Char × Json)) (blocks : List (Handle BlockKind)) :
    Option Nat × List (Handle BlockKind) :=
  tryAcquire blocks (getString obj "server_key").isSome .key

/-- The allocation of the type `mqtt`. -/
def allocMqtt (obj : List (List Char × Json)) (blocks : List (Handle BlockKind)) :
    Option Nat × List (Handle BlockKind) :=
  tryAcquire blocks (servType obj = .mqtt) .mqtt

/-- The allocation of the type `semtech`. -/
def allocReport (obj : List (List Char × Json)) (blocks : List (Handle BlockKind)) :
    Option Nat × List (Handle BlockKind) :=
  tryAcquire blocks (servType obj = .semtech) .report

/-- An element with a name, from `server_key` on. -/
def parseNamed (c : Casts) (i : Nat) (obj : List (List Char × Json)) (name : List Char)
    (entry net : Nat) (s : ConfState) : Option ConfState :=
  let key := allocKey obj s.blocks
  let mqtt := allocMqtt obj key.2
  let report := allocReport obj mqtt.2
  match getString obj "server_address" with
  | none => some { s with blocks := release (releaseSlot (release report.2 net) report.1) entry }
  | some addr =>
      (setStatInterval c obj (report.1.map newReport)).map fun r =>
        ⟨report.2, s.servList ++ [fillServ c i obj name addr entry net key.1 mqtt.1 r]⟩

/-- What the element of index `i` does, with the results of its calls of `sem_init`. -/
def parseServer (c : Casts) (i : Nat) (sem : Nat → Bool) (elem : Json) (s : ConfState) :
    Option ConfState :=
  let entry := s.blocks.length
  let blocks := acquire s.blocks .serv
  let net := blocks.length
  let blocks := acquire blocks .net
  if semTries sem = 3 then
    some { s with blocks := release (release blocks net) entry }
  else
    match getString (getObject elem) "server_name" with
    -- a random name, and on to the next element
    | none => some { s with blocks := blocks }
    | some name => parseNamed c i (getObject elem) name entry net { s with blocks := blocks }

/-- The elements from the index `i` on. -/
def parseServers (c : Casts) (sem : Nat → Nat → Bool) (i : Nat) :
    List Json → ConfState → Option ConfState
  | [], s => some s
  | elem :: items, s => (parseServer c i (sem i) elem s).bind (parseServers c sem (i + 1) items)

/-! ## What the threads use -/

/-- The function that starts the threads of a service. -/
inductive Starter where
  | semtechStart
  | pktStart
  | mqttStart
  deriving DecidableEq

/-- The `switch` of `service_start`. -/
def ServType.starter : ServType → Starter
  | .semtech => .semtechStart
  | .pkt => .pktStart
  | .mqtt => .mqttStart
  | _ => .semtechStart

/-- The threads of the entry find the block they use. -/
def Serv.Equipped (serv : Serv) : Prop :=
  match serv.type.starter with
  | .semtechStart => ∃ report, serv.report = some report ∧ report.mxReport = true
  | .mqttStart => ∃ net info, serv.net = some net ∧ net.mqtt = some info
  | .pktStart => True

/-- The blocks of the entries of the list are allocated, each for one entry, all others were freed
once, and every entry has what its threads use. -/
structure ConfState.Agrees (s : ConfState) : Prop where
  blocks : Held s.blocks (ownedBy s.servList)
  equipped : ∀ serv ∈ s.servList, serv.Equipped

/-- The elements that `parsecfg` reads without harm: its semaphore fails, and it is skipped before
it is read, or it has a name, and either an address and one of the types whose threads are provided
for, with `stat_interval` for a type with a report only, or no address and nothing allocated for a
key or for topics. -/
def ElementOk (sem : Nat → Bool) (elem : Json) : Prop :=
  semTries sem = 3 ∨
    (getString (getObject elem) "server_name").isSome ∧
      ((getString (getObject elem) "server_address").isSome ∧
          (servType (getObject elem) = .semtech ∨ servType (getObject elem) = .mqtt ∧
            getValue (getObject elem) "stat_interval" = none) ∨
        getString (getObject elem) "server_address" = none ∧
          getString (getObject elem) "server_key" = none ∧
          servType (getObject elem) ≠ .mqtt)

instance (sem : Nat → Bool) (elem : Json) : Decidable (ElementOk sem elem) :=
  inferInstanceAs (Decidable (_ ∨ _))

/-! ## One element -/

theorem add_ownedBy_nil (m : Multiset (Nat × BlockKind)) : m + ownedBy [] = m := add_zero m

theorem add_ownedBy_singleton (m : Multiset (Nat × BlockKind)) (serv : Serv) :
    m + ownedBy [serv] = m + serv.owned := by
  rw [ownedBy, List.map_singleton, List.sum_singleton]

variable {c : Casts} {i : Nat} {sem : Nat → Bool} {elem : Json} {s : ConfState}
  {m : Multiset (Nat × BlockKind)}

/-- The two blocks that every element begins with. -/
theorem held_begin (h : Held s.blocks m) :
    Held (acquire (acquire s.blocks .serv) .net)
      (slot (some (acquire s.blocks .serv).length) BlockKind.net +
        (slot (some s.blocks.length) BlockKind.serv + m)) :=
  (h.tryAcquire true .serv).tryAcquire true .net

/-- An element whose semaphore fails is skipped, and its blocks are freed. -/
theorem parseServer_semFails (c : Casts) (i : Nat) (elem : Json) (hsem : semTries sem = 3)
    (h : Held s.blocks m) :
    ∃ blocks, parseServer c i sem elem s = some { s with blocks := blocks } ∧ Held blocks m := by
  -- the entry and its `net` are freed again, in the other order
  rw [parseServer, if_pos hsem]
  exact ⟨_, rfl, (held_begin h).release.release⟩

/-- An element without a name is skipped, and its blocks are lost. -/
theorem parseServer_unnamed (c : Casts) (i : Nat) (hsem : semTries sem ≠ 3)
    (hname : getString (getObject elem) "server_name" = none) (h : Held s.blocks m) :
    ∃ blocks lost, parseServer c i sem elem s = some { s with blocks := blocks } ∧
      Held blocks (m + lost) ∧ lost ≠ 0 := by
  rw [parseServer, if_neg hsem]
  simp only [hname]
  refine ⟨_, slot (some (acquire s.blocks .serv).length) BlockKind.net +
    slot (some s.blocks.length) BlockKind.serv, rfl, (held_begin h).congr ?_, ?_⟩
  · abel
  · rw [slot_some, Multiset.singleton_add]
    exact Multiset.cons_ne_zero

section Named

variable {obj : List (List Char × Json)} {name : List Char} {entry net : Nat}

/-- The blocks behind the allocations of an element with a name. -/
theorem held_named {blocks : List (Handle BlockKind)} (h : Held blocks m) :
    let key := allocKey obj blocks
    let mqtt := allocMqtt obj key.2
    let report := allocReport obj mqtt.2
    Held report.2 (slot report.1 BlockKind.report +
      (slot mqtt.1 BlockKind.mqtt + (slot key.1 BlockKind.key + m))) :=
  ((h.tryAcquire _ .key).tryAcquire _ .mqtt).tryAcquire _ .report

/-- Without an address the element is skipped, and what was allocated for its key and its topics is
lost. -/
theorem parseNamed_unaddressed (c : Casts) (i : Nat) (name : List Char)
    (haddr : getString obj "server_address" = none)
    (h : Held s.blocks (slot (some net) BlockKind.net + (slot (some entry) BlockKind.serv + m))) :
    ∃ blocks lost, parseNamed c i obj name entry net s = some { s with blocks := blocks } ∧
      Held blocks (m + lost) ∧
      (lost = 0 ↔ getString obj "server_key" = none ∧ servType obj ≠ .mqtt) := by
  simp only [parseNamed, haddr]
  refine ⟨_, slot (allocMqtt obj (allocKey obj s.blocks).2).1 BlockKind.mqtt +
    slot (allocKey obj s.blocks).1 BlockKind.key, rfl, ?_, ?_⟩
  -- `net`, the report and the entry are freed, in this order
  · refine Held.releaseSlot (o := some entry) (k := .serv) (Held.releaseSlot (k := .report)
      (Held.releaseSlot (o := some net) (k := .net) ((held_named h).congr ?_)))
    abel
  · rw [add_eq_zero, slot_eq_zero, slot_eq_zero, ← Option.isNone_iff_eq_none,
      ← Option.isNone_iff_eq_none, ← Option.isSome_eq_false_iff, ← Option.isSome_eq_false_iff,
      allocKey, allocMqtt, tryAcquire_isSome, tryAcquire_isSome, decide_eq_false_iff_not,
      Option.isSome_eq_false_iff, Option.isNone_iff_eq_none]
    exact and_comm

/-- The option `stat_interval` changes nothing but the interval of a report. -/
theorem setStatInterval_ok {report : Option Report}
    (h : getValue obj "stat_interval" = none ∨ report.isSome) :
    ∃ r, setStatInterval c obj report = some r ∧ r.map Report.block = report.map Report.block ∧
      r.map Report.mxReport = report.map Report.mxReport := by
  rw [setStatInterval]
  cases hstat : getValue obj "stat_interval" with
  | none => exact ⟨report, rfl, rfl, rfl⟩
  | some v =>
    cases report with
    | none =>
      rcases h with h | h
      · rw [hstat] at h
        cases h
      · cases h
    | some report => exact ⟨_, rfl, rfl, rfl⟩

/-- The blocks of a new entry. -/
theorem fillServ_owned {addr : List Char} (key mqtt : Option Nat) (r : Option Report) :
    (fillServ c i obj name addr entry net key mqtt r).owned =
      slot (some entry) BlockKind.serv + slot (some net) BlockKind.net + slot key BlockKind.key +
        slot mqtt BlockKind.mqtt + slot (r.map Report.block) BlockKind.report := by
  simp only [Serv.owned, fillServ, Option.map_map, Function.comp_def, Option.map_id',
    Option.bind_some, Option.map_some]

/-- No element is of the type of the first entry. -/
theorem servType_ne_pkt (obj : List (List Char × Json)) : servType obj ≠ .pkt := by
  rw [servType]
  cases getString obj "server_type" with
  | none => exact ServType.noConfusion
  | some str =>
    dsimp only
    split_ifs <;> exact ServType.noConfusion

/-- A new entry has what its threads use exactly if it is of one of two types. -/
theorem fillServ_equipped {addr : List Char} {key mqtt block : Option Nat} {r : Option Report}
    (hmqtt : mqtt.isSome = decide (servType obj = .mqtt))
    (hblock : block.isSome = decide (servType obj = .semtech))
    (hr : r.map Report.block = (block.map newReport).map Report.block)
    (hlock : r.map Report.mxReport = (block.map newReport).map Report.mxReport) :
    (fillServ c i obj name addr entry net key mqtt r).Equipped ↔
      servType obj = .semtech ∨ servType obj = .mqtt := by
  have htype : (fillServ c i obj name addr entry net key mqtt r).type = servType obj := rfl
  rw [Serv.Equipped, htype]
  -- by the type, as the `switch` of `service_start` goes
  cases hobj : servType obj with
  | semtech =>
    rw [hobj] at hblock
    obtain ⟨b, rfl⟩ := Option.isSome_iff_exists.1 hblock
    obtain ⟨report, rfl, hmx⟩ := Option.map_eq_some_iff.1 hlock
    exact iff_of_true ⟨report, rfl, hmx⟩ (Or.inl rfl)
  | mqtt =>
    rw [hobj] at hmqtt
    obtain ⟨b, rfl⟩ := Option.isSome_iff_exists.1 hmqtt
    exact iff_of_true ⟨_, _, rfl, rfl⟩ (Or.inr rfl)
  | pkt => exact absurd hobj (servType_ne_pkt obj)
  | ttn | gwtraf =>
    rw [hobj] at hblock
    -- these types run the threads of `semtech` and have no report
    obtain rfl : block = none := Option.not_isSome_iff_eq_none.1 (by rw [hblock]; decide)
    obtain rfl : r = none := Option.map_eq_none_iff.1 hr
    refine iff_of_false ?_ (by decide)
    rintro ⟨report, hreport, -⟩
    cases hreport

/-- With an address the element is appended. -/
theorem parseNamed_addressed (c : Casts) (i : Nat) (name : List Char) {addr : List Char}
    (haddr : getString obj "server_address" = some addr)
    (hstat : getValue obj "stat_interval" = none ∨ servType obj = .semtech)
    (h : Held s.blocks (slot (some net) BlockKind.net + (slot (some entry) BlockKind.serv + m))) :
    ∃ blocks serv, parseNamed c i obj name entry net s = some ⟨blocks, s.servList ++ [serv]⟩ ∧
      Held blocks (m + serv.owned) ∧
      (serv.Equipped ↔ servType obj = .semtech ∨ servType obj = .mqtt) := by
  have hreport : (allocReport obj (allocMqtt obj (allocKey obj s.blocks).2).2).1.isSome =
      decide (servType obj = .semtech) := tryAcquire_isSome _ _ _
  have hstored : getValue obj "stat_interval" = none ∨
      ((allocReport obj (allocMqtt obj (allocKey obj s.blocks).2).2).1.map newReport).isSome := by
    refine hstat.imp_right fun htype => ?_
    rw [Option.isSome_map, hreport]
    exact decide_eq_true htype
  obtain ⟨r, hr, hblock, hlock⟩ := setStatInterval_ok (c := c) hstored
  simp only [parseNamed, haddr, hr, Option.map_some]
  refine ⟨_, _, rfl, (held_named h).congr ?_,
    fillServ_equipped (tryAcquire_isSome _ _ _) hreport hblock hlock⟩
  rw [fillServ_owned, hblock, Option.map_map]
  have hid : Report.block ∘ newReport = id := rfl
  rw [hid, Option.map_id_apply]
  abel

/-- With an address, but `stat_interval` without a report, the element ends the run. -/
theorem parseNamed_crashes {addr : List Char} (haddr : getString obj "server_address" = some addr)
    (hstat : getValue obj "stat_interval" ≠ none) (htype : servType obj ≠ .semtech) :
    parseNamed c i obj name entry net s = none := by
  obtain ⟨v, hv⟩ := Option.ne_none_iff_exists'.1 hstat
  have hnone : (allocReport obj (allocMqtt obj (allocKey obj s.blocks).2).2).1 = none := by
    rw [allocReport, decide_eq_false htype]
    rfl
  simp only [parseNamed, haddr, hnone, Option.map_none, setStatInterval, hv]

end Named

/-! ## The whole array -/

/-- What an element does. It ends the run, or it adds entries to the list and loses blocks. -/
theorem parseServer_spec (c : Casts) (i : Nat) (sem : Nat → Bool) (elem : Json)
    (h : Held s.blocks m) :
    (parseServer c i sem elem s = none ∧ ¬ ElementOk sem elem) ∨
    ∃ blocks new lost, parseServer c i sem elem s = some ⟨blocks, s.servList ++ new⟩ ∧
      Held blocks (m + ownedBy new + lost) ∧
      (ElementOk sem elem ↔ lost = 0 ∧ ∀ serv ∈ new, serv.Equipped) := by
  -- the exits of the body in their order: no semaphore, no name, no address, no report
  by_cases hsem : semTries sem = 3
  · obtain ⟨blocks, hparse, hheld⟩ := parseServer_semFails c i elem hsem h
    refine Or.inr ⟨blocks, [], 0, ?_, ?_, iff_of_true (Or.inl hsem) ⟨rfl, by simp⟩⟩
    · rw [hparse, List.append_nil]
    · rw [add_ownedBy_nil, add_zero]
      exact hheld
  cases hname : getString (getObject elem) "server_name" with
  | none =>
    obtain ⟨blocks, lost, hparse, hheld, hlost⟩ := parseServer_unnamed c i hsem hname h
    refine Or.inr ⟨blocks, [], lost, ?_, ?_, iff_of_false ?_ fun hzero => hlost hzero.1⟩
    · rw [hparse, List.append_nil]
    · rw [add_ownedBy_nil]
      exact hheld
    · rw [ElementOk, hname]
      simp [hsem]
  | some name =>
    have hnamed : parseServer c i sem elem s = parseNamed c i (getObject elem) name s.blocks.length
        (acquire s.blocks .serv).length
        { s with blocks := acquire (acquire s.blocks .serv) .net } := by
      rw [parseServer, if_neg hsem]
      simp only [hname]
    have hbegin := held_begin h
    rw [hnamed]
    cases haddr : getString (getObject elem) "server_address" with
    | none =>
      obtain ⟨blocks, lost, hparse, hheld, hlost⟩ := parseNamed_unaddressed c i name
        (s := { s with blocks := acquire (acquire s.blocks .serv) .net }) haddr hbegin
      refine Or.inr ⟨blocks, [], lost, ?_, ?_, ?_⟩
      · rw [hparse, List.append_nil]
      · rw [add_ownedBy_nil]
        exact hheld
      · rw [ElementOk, hname, haddr, hlost]
        simp [hsem]
    | some addr =>
      by_cases hstat : getValue (getObject elem) "stat_interval" = none ∨
          servType (getObject elem) = .semtech
      · obtain ⟨blocks, serv, hparse, hheld, hequipped⟩ := parseNamed_addressed c i name
          (s := { s with blocks := acquire (acquire s.blocks .serv) .net }) haddr hstat hbegin
        refine Or.inr ⟨blocks, [serv], 0, hparse, ?_, ?_⟩
        · rw [add_ownedBy_singleton, add_zero]
          exact hheld
        · rw [ElementOk, hname, haddr, List.forall_mem_singleton, hequipped]
          rcases hstat with hstat | hstat <;> simp [hsem, hstat]
      · rw [not_or] at hstat
        refine Or.inl ⟨parseNamed_crashes haddr hstat.1 hstat.2, ?_⟩
        rw [ElementOk, hname, haddr]
        simp [hsem, hstat.1, hstat.2]

/-- The whole array: nothing is lost and every entry is equipped exactly if every element is read
without harm. The state in front of it may have lost blocks already. -/
theorem parseServers_iff (c : Casts) (sem : Nat → Nat → Bool) (items : List Json) (i : Nat)
    (s : ConfState) {lost : Multiset (Nat × BlockKind)}
    (h : Held s.blocks (ownedBy s.servList + lost)) :
    (∃ t, parseServers c sem i items s = some t ∧ t.Agrees) ↔
      lost = 0 ∧ (∀ serv ∈ s.servList, serv.Equipped) ∧
        ∀ k elem, items[k]? = some elem → ElementOk (sem (i + k)) elem := by
  induction items generalizing i s lost with
  | nil =>
    constructor
    · rintro ⟨t, hparse, hagrees⟩
      obtain rfl : s = t := Option.some.inj hparse
      refine ⟨hagrees.blocks.eq_zero h, hagrees.equipped, fun k elem hk => ?_⟩
      cases hk
    · rintro ⟨rfl, hequipped, -⟩
      rw [add_zero] at h
      exact ⟨s, rfl, h, hequipped⟩
  | cons elem items ih =>
    have hcons : (∀ k e, (elem :: items)[k]? = some e → ElementOk (sem (i + k)) e) ↔
        ElementOk (sem i) elem ∧ ∀ k e, items[k]? = some e → ElementOk (sem (i + 1 + k)) e := by
      constructor
      · intro hall
        refine ⟨hall 0 elem rfl, fun k e hk => ?_⟩
        rw [Nat.add_assoc, Nat.add_comm 1 k]
        exact hall (k + 1) e hk
      · rintro ⟨helem, hall⟩ k e hk
        cases k with
        | zero =>
          obtain rfl := Option.some.inj hk
          exact helem
        | succ k =>
          have hnext := hall k e hk
          rw [Nat.add_assoc, Nat.add_comm 1 k] at hnext
          exact hnext
    rw [hcons, parseServers]
    rcases parseServer_spec c i (sem i) elem h with ⟨hparse, hbad⟩ |
      ⟨blocks, new, lost', hparse, hheld, hok⟩
    · rw [hparse]
      refine iff_of_false ?_ fun hall => hbad hall.2.2.1
      rintro ⟨t, ht, -⟩
      cases ht
    · rw [hparse, Option.bind_some]
      -- the new entries join the list, and what is lost now joins what was lost before
      have howned : ownedBy (s.servList ++ new) + (lost + lost') =
          ownedBy s.servList + lost + ownedBy new + lost' := by
        rw [ownedBy, List.map_append, List.sum_append]
        show ownedBy s.servList + ownedBy new + (lost + lost') = _
        abel
      rw [ih (i + 1) ⟨blocks, s.servList ++ new⟩ (hheld.congr howned.symm), hok, add_eq_zero,
        List.forall_mem_append]
      tauto

theorem held_confStart : Held confStart.blocks (ownedBy confStart.servList + 0) := by
  have hserv := held_nil.tryAcquire true BlockKind.serv
  rw [add_zero] at hserv ⊢
  exact hserv

/-- The services agree with their threads exactly if every element of the array can be read without
harm. -/
theorem parseServers_agrees_iff (c : Casts) (sem : Nat → Nat → Bool) (items : List Json) :
    (∃ s, parseServers c sem 0 items confStart = some s ∧ s.Agrees) ↔
      ∀ k elem, items[k]? = some elem → ElementOk (sem k) elem := by
  have hpkt : ∀ serv ∈ confStart.servList, serv.Equipped := by
    intro serv hserv
    obtain rfl := List.mem_singleton.1 hserv
    trivial
  rw [parseServers_iff c sem items 0 confStart held_confStart]
  constructor
  · rintro ⟨-, -, hall⟩ k elem hk
    have hok := hall k elem hk
    rw [Nat.zero_add] at hok
    exact hok
  · intro hall
    refine ⟨rfl, hpkt, fun k elem hk => ?_⟩
    rw [Nat.zero_add]
    exact hall k elem hk

/-- The array is read, and the services agree. -/
def ReadsWell (items : List Json) : Prop :=
  ∃ s, parseServers ⟨fun _ => 0, fun _ => 0, fun _ => 0, fun _ => 0⟩ (fun _ _ => true) 0 items
    confStart = some s ∧ s.Agrees

/-- An element with strings only. -/
def stringElement (fields : List (String × String)) : Json :=
  .obj (fields.map fun f => (f.1.toList, .str f.2.toList))

theorem not_readsWell {elem : Json} (h : ¬ ElementOk (fun _ => true) elem) :
    ¬ ReadsWell [elem] := by
  intro hread
  rw [ReadsWell, parseServers_iff _ _ _ 0 confStart held_confStart] at hread
  exact h (hread.2.2 0 elem rfl)

/-- A service of the type `ttn`, one of the type `mqtt` with an interval, an element without a name,
and one of the type `mqtt` without an address. -/
theorem servers_disagree :
    ¬ ReadsWell [stringElement [("server_name", "a"), ("server_type", "ttn"),
      ("server_address", "b")]] ∧
    ¬ ReadsWell [stringElement [("server_name", "a"), ("server_type", "mqtt"),
      ("server_address", "b"), ("stat_interval", "30")]] ∧
    ¬ ReadsWell [stringElement [("server_address", "b")]] ∧
    ¬ ReadsWell [stringElement [("server_name", "a"), ("server_type", "mqtt")]] := by
  refine ⟨not_readsWell ?_, not_readsWell ?_, not_readsWell ?_, not_readsWell ?_⟩ <;> decide

end DraginoFwd.Service
