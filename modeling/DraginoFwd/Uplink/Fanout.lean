import DraginoFwd.Hal
import DraginoFwd.Lib.Transition

/-!
# Batches of uplinks and the services

`thread_up` puts each batch of received packets into one list, and every service takes the batches
from there with `get_rxpkt`. A batch carries two records of who took it: `stamps`, a set of bits in
a `uint8_t`, and `bind`, the number of services that are still to come. A recycling thread removes
old batches. The list is locked, so that each of the three is one step (`fanStep`).

While each service has a bit of its own, the two records agree, every service gets each batch at
most once, and none is refused a batch that it has not had (`FanInv`, which `BatchInv` comes to
when the services have bits). The bit of a server is
`1 << (i + 1)` for its index in the configuration, and from the eighth server on it falls off the
`uint8_t`: such a server never gets a batch (`fanOut_iff`).
-/

set_option autoImplicit false

namespace DraginoFwd.Uplink

open DraginoFwd.Hal
open DraginoFwd.Lib.Transition

/-! ## Services and their stamps -/

/-- The services: the one for packets, and the servers by their index in the configuration. -/
inductive Service where
  | pkt
  | server (i : Nat)
  deriving DecidableEq

/-- The number of the bit that a service is meant to have. -/
def Service.number : Service → Nat
  | .pkt => 0
  | .server i => i + 1

/-- `info.stamp`: 1, or the `int` `1 << (i + 1)` in a `uint8_t`. -/
def Service.stamp : Service → BitVec 8
  | .pkt => 1#8
  | .server i => (1#32 <<< (i + 1)).setWidth 8

/-- What decides whether a server of the configuration is kept: that its semaphore can be
initialized, and that it has a name and an address. -/
structure ServerConf where
  semReady : Bool
  serverName : Option String
  serverAddress : Option String

/-- The server gets a service. -/
def ServerConf.kept (conf : ServerConf) : Bool :=
  conf.semReady && conf.serverName.isSome && conf.serverAddress.isSome

/-- The loop over the array `servers` from index `i` on. A server that is not kept uses up its
index. -/
def parseServers : Nat → List ServerConf → List Service
  | _, [] => []
  | i, conf :: confs =>
      if conf.kept then .server i :: parseServers (i + 1) confs else parseServers (i + 1) confs

/-- `GW.serv_list`: the service for packets, inserted by `main`, and the servers of `parsecfg`. -/
def servList (confs : List ServerConf) : List Service := .pkt :: parseServers 0 confs

/-! ## The list of batches -/

/-- `NB_PKT_MAX`, the larger of its two values -/
abbrev nbPktMax : Nat := 255

/-- The packets of one fetch: at least one, and at most what the array takes. -/
structure RxBatch where
  packets : List LgwPktRx
  nonempty : packets ≠ []
  fits : packets.length ≤ nbPktMax

/-- `rxpkts_s`. The serial number is not in the source: it tells the batches apart. -/
structure Rxpkts where
  entryUs : BitVec 32
  stamps : BitVec 8
  bind : BitVec 8
  rxpkt : RxBatch
  serial : Nat

/-- `nb_pkt` -/
def Rxpkts.nbPkt (entry : Rxpkts) : BitVec 8 := BitVec.ofNat 8 entry.rxpkt.packets.length

/-- The entry after a service with this stamp has taken it. -/
def Rxpkts.taken (entry : Rxpkts) (stamp : BitVec 8) : Rxpkts :=
  { entry with
    stamps := entry.stamps ||| stamp
    bind := entry.bind - 1#8 }

/-- The traversal of `get_rxpkt`: the first entry without the stamp, and the list with the entry
marked. -/
def findRxpkt (stamp : BitVec 8) : List Rxpkts → Option (Rxpkts × List Rxpkts)
  | [] => none
  | entry :: entries =>
      if stamp = stamp &&& entry.stamps then
        (findRxpkt stamp entries).map fun r => (r.1, entry :: r.2)
      else some (entry, entry.taken stamp :: entries)

/-- `get_rxpkt`: its result, the packets that it copies to the service, and the list. -/
def getRxpkt (service : Service) (rxpktsList : List Rxpkts) :
    Nat × Option (List LgwPktRx) × List Rxpkts :=
  match findRxpkt service.stamp rxpktsList with
  | none => (0, none, rxpktsList)
  | some (entry, rest) => (entry.nbPkt.toNat, some entry.rxpkt.packets, rest)

/-- `DEFAULT_RXPKTS_LIST_SIZE` -/
abbrev rxpktsListSize : Nat := 8

/-- One pass of `thread_rxpkt_recycle`. Only this thread shortens the list, so that the test of the
size may stand inside the lock. -/
def recycle (curHalTime : BitVec 32) (rxpktsList : List Rxpkts) : List Rxpkts :=
  if rxpktsListSize < rxpktsList.length then
    rxpktsList.filter fun entry =>
      !(3000000#32 < curHalTime - entry.entryUs || entry.bind < 1#8)
  else rxpktsList

/-- The list, the number of batches so far, and who obtained which batch, the latest first. -/
structure FanState where
  rxpktsList : List Rxpkts
  inserted : Nat
  log : List (Service × Nat)

/-- The steps of the threads. -/
inductive FanEvent where
  | threadUp (entryUs : BitVec 32) (batch : RxBatch)
  | getRxpkt (service : Service)
  | recycle (curHalTime : BitVec 32)

/-- One step, for the services in the list. -/
def fanStep (services : List Service) (s : FanState) : FanEvent → Option FanState
  | .threadUp entryUs batch =>
      let entry := ⟨entryUs, 0#8, BitVec.ofNat 8 services.length, batch, s.inserted⟩
      some { s with
        rxpktsList := entry :: s.rxpktsList
        inserted := s.inserted + 1 }
  | .getRxpkt service =>
      if service ∈ services then
        some { s with
          rxpktsList := (getRxpkt service s.rxpktsList).2.2
          log := match findRxpkt service.stamp s.rxpktsList with
            | none => s.log
            | some (entry, _) => (service, entry.serial) :: s.log }
      else none
  | .recycle curHalTime => some { s with rxpktsList := recycle curHalTime s.rxpktsList }

/-- The steps as a relation. -/
def FanStep (services : List Service) (s : FanState) (e : FanEvent) (t : FanState) : Prop :=
  fanStep services s e = some t

/-- Nothing received. -/
def fanStart : FanState := ⟨[], 0, []⟩

/-- The services that have not obtained the batch. -/
def waiting (services : List Service) (log : List (Service × Nat)) (serial : Nat) : Nat :=
  services.countP fun service => (service, serial) ∉ log

/-- Each service obtains each batch at most once; one for which a batch of the list is new obtains
a new one, and not 0; and the `bind` of a listed batch counts the services that have not obtained
it. -/
structure FanOut (services : List Service) (s : FanState) : Prop where
  once : s.log.Nodup
  served : ∀ service ∈ services, (∃ entry ∈ s.rxpktsList, (service, entry.serial) ∉ s.log) →
    0 < (getRxpkt service s.rxpktsList).1 ∧
      ∃ entry ∈ s.rxpktsList, (service, entry.serial) ∉ s.log ∧
        (getRxpkt service s.rxpktsList).2.1 = some entry.rxpkt.packets
  bound : ∀ entry ∈ s.rxpktsList, entry.bind.toNat = waiting services s.log entry.serial

/-! ## Stamps as bits -/

theorem stamp_eq_twoPow {service : Service} (h : service.number < 8) :
    service.stamp = BitVec.twoPow 8 service.number := by
  cases service with
  | pkt => rfl
  | server i =>
    have hi : i < 7 := by
      have hnum : i + 1 < 8 := h
      omega
    show (1#32 <<< (i + 1)).setWidth 8 = BitVec.twoPow 8 (i + 1)
    interval_cases i <;> rfl

/-- From the eighth server on the bit falls off. -/
theorem stamp_eq_zero {i : Nat} (h : 7 ≤ i) : (Service.server i).stamp = 0#8 := by
  refine BitVec.eq_of_getLsbD_eq fun j hj => ?_
  have hlow : j < i + 1 := by omega
  simp [Service.stamp, hlow]

/-- The test of `get_rxpkt` reads the bit of the service. -/
theorem stamp_and_eq_iff {service : Service} (h : service.number < 8) (stamps : BitVec 8) :
    service.stamp = service.stamp &&& stamps ↔ stamps.getLsbD service.number = true := by
  rw [stamp_eq_twoPow h, BitVec.twoPow_and]
  cases stamps.getLsbD service.number with
  | true => simp
  | false =>
    have hne : BitVec.twoPow 8 service.number ≠ 0#8 := by
      intro hzero
      have hbit := congrArg (BitVec.getLsbD · service.number) hzero
      simp [h] at hbit
    simp [hne]

/-- Taking a batch sets the bit of the service, and no other. -/
theorem taken_getLsbD {service other : Service} (h : service.number < 8) (entry : Rxpkts) :
    (entry.taken service.stamp).stamps.getLsbD other.number = true ↔
      other.number = service.number ∨ entry.stamps.getLsbD other.number = true := by
  rw [Rxpkts.taken, stamp_eq_twoPow h, BitVec.getLsbD_or, BitVec.getLsbD_twoPow, Bool.or_eq_true,
    Bool.and_eq_true, decide_eq_true_iff, decide_eq_true_iff]
  tauto

theorem number_injective : Function.Injective Service.number := by
  intro v w h
  cases v with
  | pkt =>
    cases w with
    | pkt => rfl
    | server j => cases h
  | server i =>
    cases w with
    | pkt => cases h
    | server j =>
      have hij : i + 1 = j + 1 := h
      rw [Nat.succ.inj hij]

/-! ## The traversal -/

/-- The entry that the traversal finds has not the stamp, those before it have, and it is the one
that changes. -/
theorem findRxpkt_some {stamp : BitVec 8} {entries rest : List Rxpkts} {entry : Rxpkts}
    (h : findRxpkt stamp entries = some (entry, rest)) :
    stamp ≠ stamp &&& entry.stamps ∧
      ∃ before after, entries = before ++ entry :: after ∧
        (∀ e ∈ before, stamp = stamp &&& e.stamps) ∧
        rest = before ++ entry.taken stamp :: after := by
  induction entries generalizing rest with
  | nil => cases h
  | cons first entries ih =>
    rw [findRxpkt] at h
    by_cases hstamp : stamp = stamp &&& first.stamps
    · rw [if_pos hstamp] at h
      obtain ⟨⟨found, tail⟩, hfind, heq⟩ := Option.map_eq_some_iff.1 h
      cases heq
      obtain ⟨hne, before, after, hentries, hbefore, htail⟩ := ih hfind
      refine ⟨hne, first :: before, after, ?_, ?_, ?_⟩
      · rw [hentries]
        rfl
      · exact List.forall_mem_cons.2 ⟨hstamp, hbefore⟩
      · exact congrArg (first :: ·) htail
    · rw [if_neg hstamp] at h
      cases h
      exact ⟨hstamp, [], entries, rfl, by simp, rfl⟩

/-- When nothing is found every entry has the stamp. -/
theorem findRxpkt_none {stamp : BitVec 8} {entries : List Rxpkts}
    (h : findRxpkt stamp entries = none) : ∀ entry ∈ entries, stamp = stamp &&& entry.stamps := by
  induction entries with
  | nil =>
    intro entry hentry
    cases hentry
  | cons first entries ih =>
    rw [findRxpkt] at h
    by_cases hstamp : stamp = stamp &&& first.stamps
    · rw [if_pos hstamp, Option.map_eq_none_iff] at h
      intro entry hentry
      rcases List.mem_cons.1 hentry with rfl | htail
      · exact hstamp
      · exact ih h entry htail
    · rw [if_neg hstamp] at h
      cases h

/-- Taking a batch leaves it in its place. -/
theorem getRxpkt_serials (service : Service) (entries : List Rxpkts) :
    (getRxpkt service entries).2.2.map Rxpkts.serial = entries.map Rxpkts.serial := by
  cases hfind : findRxpkt service.stamp entries with
  | none => simp [getRxpkt, hfind]
  | some r =>
    obtain ⟨entry, rest⟩ := r
    obtain ⟨-, before, after, rfl, -, rfl⟩ := findRxpkt_some hfind
    simp only [getRxpkt, hfind]
    rw [List.map_append, List.map_append]
    rfl

/-- A batch has between 1 and 255 packets, so that its number is not 0. -/
theorem nbPkt_pos (entry : Rxpkts) : 0 < entry.nbPkt.toNat := by
  have hpos : 0 < entry.rxpkt.packets.length := List.length_pos_iff.2 entry.rxpkt.nonempty
  have hfits : entry.rxpkt.packets.length ≤ 255 := entry.rxpkt.fits
  rw [Rxpkts.nbPkt, BitVec.toNat_ofNat]
  omega

/-! ## The invariant -/

/-- The two records of a batch agree with the log, `bind` as far as its 8 bits go. -/
structure BatchOk (services : List Service) (log : List (Service × Nat)) (entry : Rxpkts) :
    Prop where
  stamps : ∀ service ∈ services,
    entry.stamps.getLsbD service.number = true ↔ (service, entry.serial) ∈ log
  bind : entry.bind = BitVec.ofNat 8 (waiting services log entry.serial)

/-- What a run keeps for any services that differ: those that obtain a batch have a bit, the list
has the newest batch first, and the records of its batches agree with the log. -/
structure BatchInv (services : List Service) (s : FanState) : Prop where
  once : s.log.Nodup
  logOld : ∀ service serial, (service, serial) ∈ s.log → serial < s.inserted
  logBit : ∀ service serial, (service, serial) ∈ s.log → service.number < 8
  serialOld : ∀ serial ∈ s.rxpktsList.map Rxpkts.serial, serial < s.inserted
  newestFirst : (s.rxpktsList.map Rxpkts.serial).Pairwise (· > ·)
  entries : ∀ entry ∈ s.rxpktsList, BatchOk services s.log entry

/-- The two records of a batch agree with the log. -/
structure EntryOk (services : List Service) (log : List (Service × Nat)) (entry : Rxpkts) :
    Prop where
  stamps : ∀ service ∈ services,
    entry.stamps.getLsbD service.number = true ↔ (service, entry.serial) ∈ log
  bind : entry.bind.toNat = waiting services log entry.serial

/-- The log records each delivery once, and the batches in the list agree with it. -/
structure FanInv (services : List Service) (s : FanState) : Prop where
  once : s.log.Nodup
  logOld : ∀ service serial, (service, serial) ∈ s.log → serial < s.inserted
  serialOld : ∀ serial ∈ s.rxpktsList.map Rxpkts.serial, serial < s.inserted
  serials : (s.rxpktsList.map Rxpkts.serial).Nodup
  entries : ∀ entry ∈ s.rxpktsList, EntryOk services s.log entry

/-- Services that each have a bit of the `uint8_t`. -/
structure Stampable (services : List Service) : Prop where
  nodup : services.Nodup
  number_lt : ∀ service ∈ services, service.number < 8

theorem Stampable.length_le {services : List Service} (h : Stampable services) :
    services.length ≤ 8 := by
  have hnodup : (services.map Service.number).Nodup := h.nodup.map number_injective
  have hsub : services.map Service.number ⊆ List.range 8 := by
    intro n hn
    obtain ⟨service, hservice, rfl⟩ := List.mem_map.1 hn
    exact List.mem_range.2 (h.number_lt service hservice)
  have hlen := (List.subperm_of_subset hnodup hsub).length_le
  rwa [List.length_map, List.length_range] at hlen

/-- One service fewer waits for a batch that one of them takes. -/
theorem waiting_cons_self {services : List Service} (hnodup : services.Nodup) {service : Service}
    (hmem : service ∈ services) {log : List (Service × Nat)} {serial : Nat}
    (hnot : (service, serial) ∉ log) :
    waiting services ((service, serial) :: log) serial + 1 = waiting services log serial := by
  have hperm := List.perm_cons_erase hmem
  have hrest : service ∉ services.erase service := (List.nodup_cons.1 (hperm.nodup_iff.1 hnodup)).1
  rw [waiting, waiting, hperm.countP_eq, hperm.countP_eq, List.countP_cons_of_neg (by simp),
    List.countP_cons_of_pos (by simpa using hnot)]
  congr 1
  refine List.countP_congr fun other hother => ?_
  have hne : other ≠ service := by
    rintro rfl
    exact hrest hother
  simp [hne]

/-- Taking another batch changes nothing for a batch. -/
theorem waiting_cons_of_ne {services : List Service} {service : Service}
    {log : List (Service × Nat)} {serial other : Nat} (hne : serial ≠ other) :
    waiting services ((service, other) :: log) serial = waiting services log serial := by
  refine List.countP_congr fun v _ => ?_
  simp [hne]

theorem BatchOk.of_ne {services : List Service} {log : List (Service × Nat)} {entry : Rxpkts}
    (h : BatchOk services log entry) {service : Service} {serial : Nat}
    (hne : entry.serial ≠ serial) : BatchOk services ((service, serial) :: log) entry := by
  constructor
  · intro other hother
    rw [h.stamps other hother]
    simp [hne]
  · rw [h.bind, waiting_cons_of_ne hne]

/-- The records of a batch that a service takes. -/
theorem BatchOk.taken {services : List Service} (hnodup : services.Nodup)
    {log : List (Service × Nat)} {entry : Rxpkts} (h : BatchOk services log entry)
    {service : Service} (hbit : service.number < 8) (hmem : service ∈ services)
    (hnot : (service, entry.serial) ∉ log) :
    BatchOk services ((service, entry.serial) :: log) (entry.taken service.stamp) := by
  constructor
  · intro other hother
    rw [taken_getLsbD hbit, h.stamps other hother, number_injective.eq_iff, List.mem_cons]
    show _ ↔ (other, entry.serial) = (service, entry.serial) ∨ _
    rw [Prod.mk.injEq, and_iff_left rfl]
    exact Iff.rfl
  · -- one service fewer waits, and `bind` counts one down
    have hcount := waiting_cons_self hnodup hmem hnot
    show entry.bind - 1#8 = BitVec.ofNat 8 (waiting services _ entry.serial)
    rw [h.bind, ← hcount, BitVec.ofNat_add, BitVec.add_sub_cancel]

theorem batchInv_start (services : List Service) : BatchInv services fanStart where
  once := List.nodup_nil
  logOld := by simp [fanStart]
  logBit := by simp [fanStart]
  serialOld := by simp [fanStart]
  newestFirst := by simp [fanStart]
  entries := by simp [fanStart]

theorem BatchInv.threadUp {services : List Service} {s : FanState} (h : BatchInv services s)
    (entryUs : BitVec 32) (batch : RxBatch) :
    BatchInv services
      { s with
        rxpktsList :=
          ⟨entryUs, 0#8, BitVec.ofNat 8 services.length, batch, s.inserted⟩ :: s.rxpktsList
        inserted := s.inserted + 1 } := by
  have hfresh : ∀ service, (service, s.inserted) ∉ s.log := fun service hmem =>
    absurd (h.logOld service _ hmem) (lt_irrefl _)
  constructor
  · exact h.once
  · intro service serial hmem
    exact Nat.lt_succ_of_lt (h.logOld service serial hmem)
  · exact h.logBit
  · intro serial hserial
    rcases List.mem_cons.1 hserial with rfl | hold
    · exact Nat.lt_succ_self _
    · exact Nat.lt_succ_of_lt (h.serialOld serial hold)
  · exact List.pairwise_cons.2 ⟨h.serialOld, h.newestFirst⟩
  · intro entry hentry
    rcases List.mem_cons.1 hentry with rfl | hold
    · constructor
      · intro service _
        simp [hfresh service]
      · -- all services wait for the new batch
        have hall : waiting services s.log s.inserted = services.length := by
          refine List.countP_eq_length.2 fun service _ => ?_
          exact decide_eq_true (hfresh service)
        exact congrArg (BitVec.ofNat 8) hall.symm
    · exact h.entries entry hold

/-- A service that the traversal finds a batch for has a bit. -/
theorem number_lt_of_findRxpkt {service : Service} {entries rest : List Rxpkts} {entry : Rxpkts}
    (h : findRxpkt service.stamp entries = some (entry, rest)) : service.number < 8 := by
  obtain ⟨hstamp, -⟩ := findRxpkt_some h
  cases service with
  | pkt => exact Nat.zero_lt_succ _
  | server i =>
    by_contra hbig
    have hi : 7 ≤ i := by
      have hnum : ¬ i + 1 < 8 := hbig
      omega
    rw [stamp_eq_zero hi] at hstamp
    simp at hstamp

/-- A service that the traversal finds a batch for has not obtained it. -/
theorem BatchInv.not_obtained {services : List Service} {s : FanState} (h : BatchInv services s)
    {service : Service} (hmem : service ∈ services) {entry : Rxpkts} {rest : List Rxpkts}
    (hfind : findRxpkt service.stamp s.rxpktsList = some (entry, rest)) :
    entry ∈ s.rxpktsList ∧ (service, entry.serial) ∉ s.log := by
  obtain ⟨hstamp, before, after, hlist, -⟩ := findRxpkt_some hfind
  have hentry : entry ∈ s.rxpktsList := by
    rw [hlist]
    exact List.mem_append_right _ List.mem_cons_self
  refine ⟨hentry, ?_⟩
  rw [← (h.entries entry hentry).stamps service hmem,
    ← stamp_and_eq_iff (number_lt_of_findRxpkt hfind)]
  exact hstamp

theorem BatchInv.getRxpkt {services : List Service} (hnodup : services.Nodup) {s : FanState}
    (h : BatchInv services s) {service : Service} (hmem : service ∈ services) {entry : Rxpkts}
    {rest : List Rxpkts} (hfind : findRxpkt service.stamp s.rxpktsList = some (entry, rest)) :
    BatchInv services
      { s with
        rxpktsList := rest
        log := (service, entry.serial) :: s.log } := by
  have hbit := number_lt_of_findRxpkt hfind
  obtain ⟨hentry, hnot⟩ := h.not_obtained hmem hfind
  have hsame := getRxpkt_serials service s.rxpktsList
  simp only [Uplink.getRxpkt, hfind] at hsame
  obtain ⟨-, before, after, hlist, -, rfl⟩ := findRxpkt_some hfind
  constructor
  · exact List.nodup_cons.2 ⟨hnot, h.once⟩
  · intro other serial hother
    rcases List.mem_cons.1 hother with heq | hold
    · cases heq
      exact h.serialOld _ (List.mem_map_of_mem hentry)
    · exact h.logOld other serial hold
  · intro other serial hother
    rcases List.mem_cons.1 hother with heq | hold
    · cases heq
      exact hbit
    · exact h.logBit other serial hold
  · rw [hsame]
    exact h.serialOld
  · rw [hsame]
    exact h.newestFirst
  · -- the other batches have other serial numbers
    have hdistinct : ∀ other ∈ before ++ after, other.serial ≠ entry.serial := by
      have hserials : (s.rxpktsList.map Rxpkts.serial).Nodup :=
        h.newestFirst.imp fun hgt => Nat.ne_of_gt hgt
      rw [hlist, List.map_append, List.map_cons, List.nodup_middle, ← List.map_append,
        List.nodup_cons] at hserials
      intro other hother heq
      exact hserials.1 (heq ▸ List.mem_map_of_mem hother)
    intro other hother
    rcases List.mem_append.1 hother with hbefore | hcons
    · have hold : other ∈ s.rxpktsList := hlist ▸ List.mem_append_left _ hbefore
      exact (h.entries other hold).of_ne (hdistinct other (List.mem_append_left _ hbefore))
    · rcases List.mem_cons.1 hcons with rfl | hafter
      · exact (h.entries entry hentry).taken hnodup hbit hmem hnot
      · have hold : other ∈ s.rxpktsList :=
          hlist ▸ List.mem_append_right _ (List.mem_cons_of_mem _ hafter)
        exact (h.entries other hold).of_ne (hdistinct other (List.mem_append_right _ hafter))

/-- Recycling only removes batches. -/
theorem recycle_sublist (curHalTime : BitVec 32) (entries : List Rxpkts) :
    (recycle curHalTime entries).Sublist entries := by
  unfold recycle
  split
  · exact List.filter_sublist
  · exact List.Sublist.refl _

theorem BatchInv.sublist {services : List Service} {s : FanState} (h : BatchInv services s)
    {rest : List Rxpkts} (hsub : rest.Sublist s.rxpktsList) :
    BatchInv services { s with rxpktsList := rest } := by
  have hmap := hsub.map Rxpkts.serial
  constructor
  · exact h.once
  · exact h.logOld
  · exact h.logBit
  · intro serial hserial
    exact h.serialOld serial (hmap.subset hserial)
  · exact h.newestFirst.sublist hmap
  · intro entry hentry
    exact h.entries entry (hsub.subset hentry)

/-- Every step keeps the invariant. -/
theorem batchInv_step {services : List Service} (hnodup : services.Nodup) {s t : FanState}
    {e : FanEvent} (h : BatchInv services s) (hstep : FanStep services s e t) :
    BatchInv services t := by
  cases e with
  | threadUp entryUs batch =>
    cases hstep
    exact h.threadUp entryUs batch
  | getRxpkt service =>
    simp only [FanStep, fanStep] at hstep
    split at hstep
    · next hmem =>
      cases hstep
      cases hfind : findRxpkt service.stamp s.rxpktsList with
      | none =>
        simp only [getRxpkt, hfind]
        exact h
      | some r =>
        simp only [getRxpkt, hfind]
        exact h.getRxpkt hnodup hmem hfind
    · cases hstep
  | recycle curHalTime =>
    cases hstep
    exact h.sublist (recycle_sublist curHalTime s.rxpktsList)

/-- With a bit for every service there are at most eight, and `bind` does not wrap. -/
theorem BatchInv.fanInv {services : List Service} (hs : Stampable services) {s : FanState}
    (h : BatchInv services s) : FanInv services s := by
  constructor
  · exact h.once
  · exact h.logOld
  · exact h.serialOld
  · exact h.newestFirst.imp fun hgt => Nat.ne_of_gt hgt
  · intro entry hentry
    have hok := h.entries entry hentry
    refine ⟨hok.stamps, ?_⟩
    have hlen := hs.length_le
    have hle : waiting services s.log entry.serial ≤ services.length := List.countP_le_length
    rw [hok.bind, BitVec.toNat_ofNat, Nat.mod_eq_of_lt (by omega)]

/-- The invariant says that the fan-out is right. -/
theorem FanInv.fanOut {services : List Service} (hs : Stampable services) {s : FanState}
    (h : FanInv services s) : FanOut services s := by
  constructor
  · exact h.once
  · rintro service hmem ⟨entry, hentry, hnew⟩
    cases hfind : findRxpkt service.stamp s.rxpktsList with
    | none =>
      have hstamp := findRxpkt_none hfind entry hentry
      rw [stamp_and_eq_iff (hs.number_lt service hmem),
        (h.entries entry hentry).stamps service hmem] at hstamp
      exact absurd hstamp hnew
    | some r =>
      obtain ⟨found, rest⟩ := r
      obtain ⟨hstamp, before, after, hlist, -⟩ := findRxpkt_some hfind
      have hfound : found ∈ s.rxpktsList := by
        rw [hlist]
        exact List.mem_append_right _ List.mem_cons_self
      simp only [Uplink.getRxpkt, hfind]
      refine ⟨nbPkt_pos found, found, hfound, ?_, rfl⟩
      rw [← (h.entries found hfound).stamps service hmem,
        ← stamp_and_eq_iff (hs.number_lt service hmem)]
      exact hstamp
  · intro entry hentry
    exact (h.entries entry hentry).bind

/-! ## The services of a configuration -/

theorem mem_parseServers {i : Nat} {confs : List ServerConf} {service : Service} :
    service ∈ parseServers i confs ↔
      ∃ k conf, confs[k]? = some conf ∧ conf.kept = true ∧ service = .server (i + k) := by
  induction confs generalizing i with
  | nil => simp [parseServers]
  | cons first confs ih =>
    have hrest : service ∈ parseServers (i + 1) confs ↔
        ∃ k conf, confs[k]? = some conf ∧ conf.kept = true ∧ service = .server (i + (k + 1)) := by
      rw [ih]
      simp only [Nat.add_assoc, Nat.add_comm 1]
    have hsplit : (∃ k conf, (first :: confs)[k]? = some conf ∧ conf.kept = true ∧
        service = .server (i + k)) ↔
        (first.kept = true ∧ service = .server i) ∨ service ∈ parseServers (i + 1) confs := by
      rw [hrest]
      constructor
      · rintro ⟨k, conf, hget, hkept, rfl⟩
        cases k with
        | zero =>
          cases hget
          exact Or.inl ⟨hkept, rfl⟩
        | succ k => exact Or.inr ⟨k, conf, hget, hkept, rfl⟩
      · rintro (⟨hkept, rfl⟩ | ⟨k, conf, hget, hkept, rfl⟩)
        · exact ⟨0, first, rfl, hkept, rfl⟩
        · exact ⟨k + 1, conf, hget, hkept, rfl⟩
    rw [hsplit, parseServers]
    cases first.kept with
    | true => simp
    | false => simp

theorem nodup_parseServers (i : Nat) (confs : List ServerConf) : (parseServers i confs).Nodup := by
  induction confs generalizing i with
  | nil => exact List.nodup_nil
  | cons first confs ih =>
    rw [parseServers]
    split
    · refine List.nodup_cons.2 ⟨fun hmem => ?_, ih (i + 1)⟩
      obtain ⟨k, conf, -, -, heq⟩ := mem_parseServers.1 hmem
      have hik : i = i + 1 + k := Service.server.inj heq
      omega
    · exact ih (i + 1)

theorem nodup_servList (confs : List ServerConf) : (servList confs).Nodup := by
  refine List.nodup_cons.2 ⟨fun hmem => ?_, nodup_parseServers 0 confs⟩
  obtain ⟨k, conf, -, -, heq⟩ := mem_parseServers.1 hmem
  cases heq

/-- The invariant holds in every run, whatever the configuration. -/
theorem reachable_batchInv (confs : List ServerConf) (s : FanState)
    (hs : Reachable (fun s0 => s0 = fanStart) (FanStep (servList confs)) s) :
    BatchInv (servList confs) s := by
  refine Reachable.invariant (P := BatchInv (servList confs)) ?_ ?_ hs
  · rintro s0 rfl
    exact batchInv_start _
  · intro s0 e t h0 hstep
    exact batchInv_step (nodup_servList confs) h0 hstep

/-- The servers that are kept are among the first seven of the configuration. -/
def KeptAmongSeven (confs : List ServerConf) : Prop :=
  ∀ i conf, confs[i]? = some conf → conf.kept = true → i < 7

theorem stampable_servList {confs : List ServerConf} (h : KeptAmongSeven confs) :
    Stampable (servList confs) := by
  constructor
  · exact nodup_servList confs
  · intro service hmem
    rcases List.mem_cons.1 hmem with rfl | hserver
    · exact Nat.zero_lt_succ _
    · obtain ⟨k, conf, hget, hkept, rfl⟩ := mem_parseServers.1 hserver
      have hk := h k conf hget hkept
      show 0 + k + 1 < 8
      omega

/-! ## Main result -/

/-- A batch of one packet. -/
def oneBatch : RxBatch := ⟨[LgwPktRx.ofBytes []], List.cons_ne_nil _ _, by decide⟩

/-- One batch received, and nobody has it. -/
def oneListed (services : List Service) : FanState :=
  ⟨[⟨0#32, 0#8, BitVec.ofNat 8 services.length, oneBatch, 0⟩], 1, []⟩

theorem oneListed_reachable (services : List Service) :
    Reachable (fun s0 => s0 = fanStart) (FanStep services) (oneListed services) := by
  have hstep : FanStep services fanStart (.threadUp 0#32 oneBatch) (oneListed services) := rfl
  exact Reachable.next (Reachable.start rfl) hstep

/-- A service without a bit is refused every batch. -/
theorem not_fanOut_oneListed {services : List Service} {service : Service}
    (hmem : service ∈ services) (hstamp : service.stamp = 0#8) :
    ¬ FanOut services (oneListed services) := by
  intro hfan
  obtain ⟨hpos, -⟩ := hfan.served service hmem ⟨_, List.mem_cons_self, List.not_mem_nil⟩
  simp [getRxpkt, oneListed, findRxpkt, hstamp] at hpos

/-- The fan-out is right in every run, if and only if the servers that are kept are among the first
seven of the configuration. -/
theorem fanOut_iff (confs : List ServerConf) :
    (∀ s, Reachable (fun s0 => s0 = fanStart) (FanStep (servList confs)) s →
      FanOut (servList confs) s) ↔ KeptAmongSeven confs := by
  constructor
  · intro h i conf hget hkept
    by_contra hi
    have hmem : Service.server i ∈ servList confs := by
      refine List.mem_cons_of_mem _ (mem_parseServers.2 ⟨i, conf, hget, hkept, ?_⟩)
      rw [Nat.zero_add]
    exact not_fanOut_oneListed hmem (stamp_eq_zero (by omega)) (h _ (oneListed_reachable _))
  · intro h s hs
    have hstampable := stampable_servList h
    exact ((reachable_batchInv confs s hs).fanInv hstampable).fanOut hstampable

/-- A configuration of eight servers. -/
def eightServers : List ServerConf := List.replicate 8 ⟨true, some "server", some "address"⟩

/-- The eighth server never gets a batch. -/
theorem eighth_server_refused :
    ¬ ∀ s, Reachable (fun s0 => s0 = fanStart) (FanStep (servList eightServers)) s →
      FanOut (servList eightServers) s := by
  intro h
  have hmem : Service.server 7 ∈ servList eightServers := by decide
  exact not_fanOut_oneListed hmem rfl (h _ (oneListed_reachable _))

end DraginoFwd.Uplink
