import DraginoFwd.Hal
import DraginoFwd.Lib.Memory
import DraginoFwd.Lib.Transition
import DraginoFwd.Lib.WrapCount

/-!
# The counter of the concentrator, widened

Model of `loragw_sx1302_timestamp.c`. The concentrator counts with 32 MHz in 32 bits, which are 27
bits of microseconds. `timestamp_counter_update` counts their wraps, so that
`timestamp_counter_expand` and `timestamp_pkt_expand` give microseconds in 32 bits, for the counter
itself, for its value at the last pulse of the GPS, and for the time stamp of a packet.

They are right as long as the counter is read once in a period of 27 bits (`Tracks.update`,
`Tracks.expand`, `Tracks.pktExpand`), which is carried over all runs by `reachable_widened`.
-/

set_option autoImplicit false

namespace DraginoFwd.Hal

open DraginoFwd.Lib.Memory
open DraginoFwd.Lib.Transition
open DraginoFwd.Lib.WrapCount

/-! ## Model -/

/-- `struct timestamp_info_s` -/
structure TimestampInfo where
  counterUs27bitsRef : BitVec 32
  counterUs27bitsWrap : BitVec 8

/-- `timestamp_counter_t` -/
structure TimestampCounter where
  inst : TimestampInfo
  pps : TimestampInfo

/-- `timestamp_counter_new` -/
def TimestampCounter.new : TimestampCounter := ⟨⟨0#32, 0#8⟩, ⟨0#32, 0#8⟩⟩

/-- `timestamp_counter_update`, for one of the two counters. -/
def TimestampInfo.update (info : TimestampInfo) (cnt : BitVec 32) : TimestampInfo where
  counterUs27bitsWrap :=
    if cnt < info.counterUs27bitsRef then (info.counterUs27bitsWrap + 1#8) % 32#8
    else info.counterUs27bitsWrap
  counterUs27bitsRef := cnt

/-- `timestamp_counter_update` -/
def timestampCounterUpdate (self : TimestampCounter) (pps inst : BitVec 32) : TimestampCounter :=
  ⟨self.inst.update inst, self.pps.update pps⟩

/-- `timestamp_counter_expand`, for one of the two counters. -/
def TimestampInfo.expand (info : TimestampInfo) (cntUs : BitVec 32) : BitVec 32 :=
  info.counterUs27bitsWrap.setWidth 32 <<< 27 ||| cntUs

/-- `timestamp_counter_expand` -/
def timestampCounterExpand (self : TimestampCounter) (pps : Bool) (cntUs : BitVec 32) : BitVec 32 :=
  (if pps then self.pps else self.inst).expand cntUs

/-- `timestamp_pkt_expand` -/
def timestampPktExpand (self : TimestampCounter) (pktCntUs : BitVec 32) : BitVec 32 :=
  let info := self.inst
  let wrapStatus :=
    (info.counterUs27bitsWrap - if pktCntUs ≤ info.counterUs27bitsRef then 0#8 else 1#8) &&& 0x1F#8
  wrapStatus.setWidth 32 <<< 27 ||| pktCntUs

/-- The registers of the two counters, in big-endian order: the one of the last pulse, and the
instantaneous one. -/
structure CounterRegs where
  pps : Vector (BitVec 8) 4
  inst : Vector (BitVec 8) 4
  deriving DecidableEq

/-- A counter from its four registers. -/
def be32 (b : Vector (BitVec 8) 4) : BitVec 32 := le32 b[3] b[2] b[1] b[0]

/-- What three reads of the registers give; a read can fail. -/
structure CounterReads where
  buff : Option CounterRegs
  buffWa : Option CounterRegs
  again : Option CounterRegs

/-- The registers that `timestamp_counter_get` takes: those of the first read, or of a third one if
a high byte has changed in the second. -/
def CounterReads.regs (reads : CounterReads) : Option CounterRegs :=
  reads.buff.bind fun buff => reads.buffWa.bind fun buffWa =>
    if buff.pps[0] ≠ buffWa.pps[0] ∨ buff.inst[0] ≠ buffWa.inst[0] then reads.again else some buff

/-- `timestamp_counter_get`: the two counters in 32 bits, `inst` first. Nothing changes when a read
fails. -/
def timestampCounterGet (self : TimestampCounter) (reads : CounterReads) :
    Option (BitVec 32 × BitVec 32 × TimestampCounter) :=
  reads.regs.map fun regs =>
    let pps := be32 regs.pps / 32#32
    let inst := be32 regs.inst / 32#32
    let self := timestampCounterUpdate self pps inst
    (timestampCounterExpand self false inst, timestampCounterExpand self true pps, self)

/-! ## The correction of a packet's time stamp -/

/-- `BW_500KHZ` -/
def bw500khz : BitVec 8 := 0x06#8
/-- `BW_250KHZ` -/
def bw250khz : BitVec 8 := 0x05#8
/-- `BW_125KHZ` -/
def bw125khz : BitVec 8 := 0x04#8

/-- `bw_pow`: the bandwidth over 125 kHz. -/
def bwPow (bandwidth : BitVec 8) : Option Nat :=
  if bandwidth = bw125khz then some 1
  else if bandwidth = bw250khz then some 2
  else if bandwidth = bw500khz then some 4
  else none

/-- `IS_LORA_DR` -/
def isLoraDr (datarate : Nat) : Bool := 5 ≤ datarate && datarate ≤ 12
/-- `IS_LORA_CR` -/
def isLoraCr (coderate : BitVec 8) : Bool := 1#8 ≤ coderate && coderate ≤ 4#8

/-- `SET_PPM_ON` -/
def setPpmOn (bandwidth : BitVec 8) (sf : Nat) : Bool :=
  (bandwidth = bw125khz && (sf = 11 || sf = 12)) || (bandwidth = bw250khz && sf = 12)

/-- `legacy_timestamp_correction`. The delays are in picoseconds, and all of them fit 64 bits; the
nibbles are counted in 32 bits. -/
def legacyTimestampCorrection (bandwidth : BitVec 8) (sf : Nat) (cr : BitVec 8) (crcEn : Bool)
    (payloadLength : BitVec 8) (dftPeak : Bool) : Int :=
  match bwPow bandwidth with
  | none => 0
  | some bwPow =>
      let ppm := if setPpmOn bandwidth sf then 1 else 0
      let withCrc := payloadLength.toNat + if crcEn then 2 else 0
      let clkPeriod := 250000 / bwPow
      let nbNibble := BitVec.ofNat 32 (withCrc * 2 + 5)
      let nbNibbleInHdr := BitVec.ofNat 32 (if sf = 5 ∨ sf = 6 then sf else sf - 2)
      let rest := (nbNibble - nbNibbleInHdr).toNat % (sf - 2 * ppm)
      let nbNibbleInLastBlock := if rest = 0 then sf - 2 * ppm else rest
      let nbIter := (sf + 1) / 2
      let fitsInHeader := 2 * (withCrc : Int) - ((sf : Int) - 7) ≤ 0 ∨ withCrc = 0
      let dftPeak := dftPeak && !decide fitsInHeader
      let crLocal := if fitsInHeader then 4 else cr.toNat
      let nbNibbleInLastBlock :=
        if fitsInHeader then (if 6 < sf then sf - 2 else sf) else nbNibbleInLastBlock
      let filteringDelay := 16000000 / bwPow + 2031250
      let demapDelay :=
        if fitsInHeader then
          clkPeriod + 2 ^ sf * clkPeriod * 3 / 4 + 3 * clkPeriod + (sf - 2) * clkPeriod
        else clkPeriod + 2 ^ sf * clkPeriod + 3 * clkPeriod + (sf - 2 * ppm) * clkPeriod
      let fftDelayState3 :=
        clkPeriod * (2 ^ sf - 6 + 2 * (2 ^ sf * (nbIter - 1) + 6)) + 4 * clkPeriod
      let fftDelay :=
        if dftPeak then (5 - 2 * ppm) * (2 ^ sf * clkPeriod + 7 * clkPeriod) + 2 * clkPeriod
        else 2 ^ sf * 2 * clkPeriod + 3 * clkPeriod
      let decodeDelay :=
        5 * clkPeriod + (9 * clkPeriod + clkPeriod * crLocal) * nbNibbleInLastBlock + 3 * clkPeriod
      let totalDelay : Int :=
        ((filteringDelay + fftDelayState3 + fftDelay + demapDelay + decodeDelay + 500000) /
          1000000 : Nat)
      Int.neg totalDelay

/-- `lora_packet_time_on_air` with an explicit header, up to the number of symbols in the payload
and the microseconds of a symbol. The quotient of the payload's bits is rounded up. -/
def payloadSymbols (bwPow sf : Nat) (cr : BitVec 8) (crcEn : Bool) (size : BitVec 8) : Nat × Nat :=
  let bits :=
    8 * (size.toNat : Int) + (if crcEn then 16 else 0) - 4 * sf + (if 7 ≤ sf then 8 else 0) + 20
  let perBlock := 4 * (sf - if 11 ≤ sf then 2 else 0)
  ((bits.toNat + perBlock - 1) / perBlock * (cr.toNat + 4), 2 ^ sf * 8 / bwPow)

/-- `precision_timestamp_correction`: the symbols of the payload less the filtering delay, cut
towards zero. -/
def precisionTimestampCorrection (bandwidth : BitVec 8) (sf : Nat) (cr : BitVec 8) (crcEn : Bool)
    (payloadLength : BitVec 8) : Int :=
  match bwPow bandwidth with
  | none => 0
  | some bwPow =>
      let (nbSymbols, tSymbolUs) := payloadSymbols bwPow sf cr crcEn payloadLength
      let filteringDelay := 16000000 / bwPow + 2031250
      (((nbSymbols * tSymbolUs : Nat) : Int) * 1000000 - (filteringDelay + 500000 : Nat)).tdiv
        1000000

/-- `timestamp_counter_correction`, in 32 bits. -/
def timestampCounterCorrection (ftimeEnable : Bool) (bandwidth : BitVec 8) (datarate : BitVec 32)
    (coderate : BitVec 8) (crcEn : Bool) (payloadLength : BitVec 8) (dftPeak : Bool) : BitVec 32 :=
  let sf := (datarate.setWidth 8).toNat
  BitVec.ofInt 32 <|
    if !isLoraDr sf || (bwPow bandwidth).isNone || !isLoraCr coderate then 0
    else if ftimeEnable then precisionTimestampCorrection bandwidth sf coderate crcEn payloadLength
    else legacyTimestampCorrection bandwidth sf coderate crcEn payloadLength dftPeak

/-! ## Widening -/

/-- The period of 27 bits, in microseconds. -/
abbrev period27 : Nat := 2 ^ 27

/-- The info knows the microseconds `us`: the counter then, and its wraps mod 32. -/
structure Tracks (info : TimestampInfo) (us : Nat) : Prop where
  ref : info.counterUs27bitsRef.toNat = us % period27
  wrap : info.counterUs27bitsWrap.toNat = us / period27 % 32

theorem tracks_new : Tracks ⟨0#32, 0#8⟩ 0 := ⟨rfl, rfl⟩

/-- Five bits above 27 bits. -/
theorem toNat_widen {wrap : BitVec 8} {cnt : BitVec 32} (hwrap : wrap.toNat < 32)
    (hcnt : cnt.toNat < period27) :
    (wrap.setWidth 32 <<< 27 ||| cnt).toNat = period27 * wrap.toNat + cnt.toNat := by
  have hshift : (wrap.setWidth 32 <<< 27).toNat = wrap.toNat <<< 27 := by
    rw [BitVec.toNat_shiftLeft, BitVec.toNat_setWidth,
      Nat.mod_eq_of_lt (a := wrap.toNat) (by omega),
      Nat.shiftLeft_eq]
    exact Nat.mod_eq_of_lt (by omega)
  rw [BitVec.toNat_or, hshift, ← Nat.shiftLeft_add_eq_or_of_lt hcnt, Nat.shiftLeft_eq,
    Nat.mul_comm]

theorem widen_eq {wrap : BitVec 8} {cnt : BitVec 32} {us : Nat} (hcnt : cnt.toNat = us % period27)
    (hwrap : wrap.toNat = us / period27 % 32) :
    wrap.setWidth 32 <<< 27 ||| cnt = BitVec.ofNat 32 us := by
  have hsplit : us % (period27 * 32) = us % period27 + period27 * (us / period27 % 32) :=
    Nat.mod_mul
  apply BitVec.eq_of_toNat_eq
  rw [toNat_widen (by omega) (by rw [hcnt]; exact Nat.mod_lt _ (by decide)),
    BitVec.toNat_ofNat, hcnt,
    hwrap, Nat.add_comm]
  exact hsplit.symm

section Tracking

variable {info : TimestampInfo} {us : Nat}

/-- A reading less than a period later. -/
theorem Tracks.update (h : Tracks info us) {us' : Nat} (hle : us ≤ us')
    (hlt : us' < us + period27) {cnt : BitVec 32} (hcnt : cnt.toNat = us' % period27) :
    Tracks (info.update cnt) us' := by
  refine ⟨hcnt, ?_⟩
  have hdiv := div_of_later (by decide : 0 < period27) hle hlt
  have hwrap := h.wrap
  simp only [TimestampInfo.update, BitVec.lt_def, hcnt, h.ref]
  by_cases hmod : us' % period27 < us % period27
  · rw [if_pos hmod] at hdiv ⊢
    have hsum : (info.counterUs27bitsWrap + 1#8).toNat = info.counterUs27bitsWrap.toNat + 1 := by
      rw [BitVec.toNat_add, show (1#8 : BitVec 8).toNat = 1 from rfl]
      exact Nat.mod_eq_of_lt (by omega)
    rw [BitVec.toNat_umod, hsum, hwrap, hdiv]
    exact Nat.mod_add_mod _ _ _
  · rw [if_neg hmod] at hdiv ⊢
    rw [hwrap, hdiv, Nat.add_zero]

theorem Tracks.expand (h : Tracks info us) :
    info.expand info.counterUs27bitsRef = BitVec.ofNat 32 us :=
  widen_eq h.ref h.wrap

end Tracking

/-- The time stamp of a packet, received less than a period before. -/
theorem Tracks.pktExpand {self : TimestampCounter} {us : Nat} (h : Tracks self.inst us)
    {pktUs : Nat}
    (hle : pktUs ≤ us) (hlt : us < pktUs + period27) {cnt : BitVec 32}
    (hcnt : cnt.toNat = pktUs % period27) :
    timestampPktExpand self cnt = BitVec.ofNat 32 pktUs := by
  apply widen_eq hcnt
  have hdiv := div_of_earlier (by decide : 0 < period27) hle hlt
  have hwrap := h.wrap
  have hmask : ∀ x : BitVec 8, (x &&& 0x1F#8).toNat = x.toNat % 32 := by decide +kernel
  rw [hmask, BitVec.toNat_sub]
  simp only [BitVec.le_def, hcnt, h.ref]
  split
  · next hmod =>
    rw [if_pos hmod] at hdiv
    show (2 ^ 8 - 0 + self.inst.counterUs27bitsWrap.toNat) % 2 ^ 8 % 32 = _
    omega
  · next hmod =>
    rw [if_neg hmod] at hdiv
    show (2 ^ 8 - 1 + self.inst.counterUs27bitsWrap.toNat) % 2 ^ 8 % 32 = _
    omega

/-! ## Runs -/

/-- The ticks of the 32 MHz clock are shown by a register of 32 bits. -/
theorem toNat_ticks (ticks : Nat) :
    (BitVec.ofNat 32 ticks / 32#32).toNat = ticks / 32 % period27 := by
  rw [BitVec.toNat_udiv, BitVec.toNat_ofNat, show (32#32 : BitVec 32).toNat = 32 from rfl]
  exact Nat.mod_mul_right_div_self ticks 32 period27

/-- The reads give the registers at the time `inst`, with the last pulse at `pps`. -/
def CounterReads.Show (reads : CounterReads) (pps inst : Nat) : Prop :=
  ∃ regs, reads.regs = some regs ∧ be32 regs.pps = BitVec.ofNat 32 pps ∧
    be32 regs.inst = BitVec.ofNat 32 inst

/-- The counter of the HAL, and the true ticks at its last update and at the pulse before. -/
structure Clocked where
  counter : TimestampCounter
  pps : Nat
  inst : Nat

/-- Not before, and less than a period of 27 bits of microseconds later. -/
def Soon (earlier later : Nat) : Prop :=
  earlier ≤ later ∧ later / 32 < earlier / 32 + period27

/-- A call of `timestamp_counter_get` at some time. -/
structure CounterCall where
  reads : CounterReads
  pps : Nat
  inst : Nat

/-- One call: the reads fail, or show the counters soon after those of the last call. -/
inductive CounterStep (s : Clocked) (e : CounterCall) : Clocked → Prop where
  | failed : timestampCounterGet s.counter e.reads = none → CounterStep s e s
  | read {cntInst cntPps : BitVec 32} {counter : TimestampCounter} :
      e.reads.Show e.pps e.inst → Soon s.pps e.pps → Soon s.inst e.inst →
      timestampCounterGet s.counter e.reads = some (cntInst, cntPps, counter) →
      CounterStep s e ⟨counter, e.pps, e.inst⟩

/-- Nothing has been counted yet: the ticks are those since the registers were zero, less than a
period before the first call. -/
def clockedInit (s : Clocked) : Prop := s = ⟨TimestampCounter.new, 0, 0⟩

/-- Both counters are tracked. -/
def Clocked.Tracked (s : Clocked) : Prop :=
  Tracks s.counter.pps (s.pps / 32) ∧ Tracks s.counter.inst (s.inst / 32)

theorem Tracks.update_ticks {info : TimestampInfo} {ticks ticks' : Nat}
    (h : Tracks info (ticks / 32)) (hsoon : Soon ticks ticks') {reg : BitVec 32}
    (hreg : reg = BitVec.ofNat 32 ticks') : Tracks (info.update (reg / 32#32)) (ticks' / 32) := by
  subst hreg
  exact h.update (Nat.div_le_div_right hsoon.1) hsoon.2 (toNat_ticks ticks')

/-- What a call returns, and what it leaves. -/
theorem Clocked.Tracked.get {s : Clocked} (h : s.Tracked) {reads : CounterReads} {pps inst : Nat}
    (hshow : reads.Show pps inst) (hpps : Soon s.pps pps) (hinst : Soon s.inst inst) :
    ∃ counter, timestampCounterGet s.counter reads =
        some (BitVec.ofNat 32 (inst / 32), BitVec.ofNat 32 (pps / 32), counter) ∧
      Clocked.Tracked ⟨counter, pps, inst⟩ := by
  obtain ⟨regs, hregs, hregPps, hregInst⟩ := hshow
  have htracksPps := h.1.update_ticks hpps hregPps
  have htracksInst := h.2.update_ticks hinst hregInst
  refine ⟨timestampCounterUpdate s.counter (be32 regs.pps / 32#32) (be32 regs.inst / 32#32), ?_,
    htracksPps, htracksInst⟩
  rw [timestampCounterGet, hregs, Option.map_some, ← htracksPps.expand, ← htracksInst.expand]
  rfl

theorem reachable_tracked {s : Clocked} (h : Reachable clockedInit CounterStep s) : s.Tracked := by
  apply Reachable.invariant ?_ ?_ h
  · rintro s rfl
    exact ⟨tracks_new, tracks_new⟩
  · intro s e t hs hstep
    cases hstep with
    | failed => exact hs
    | read hshow hpps hinst hget =>
      obtain ⟨counter', hget', htracked⟩ := hs.get hshow hpps hinst
      rw [hget] at hget'
      cases hget'
      exact htracked

/-- The registers of two counters. -/
def regsAt (pps inst : Vector (BitVec 8) 4) : CounterReads :=
  ⟨some ⟨pps, inst⟩, some ⟨pps, inst⟩, none⟩

end DraginoFwd.Hal
