import DraginoFwd.Mac.Decode

/-!
# The packet loop of the PKT service

`packetBody` is the body of the loop of `pkt_deal_up` over a batch, with every path that ends it
early, and `packetLoop` the loop. The loop variable is declared once for the whole function, and
the body uses it again to print a decoded payload, so a decoded packet leaves in it the length of
its payload.

A batch is processed once and in order exactly when no packet makes the body leave an array and
every decoded packet has a payload as long as its position in the batch; for the last packet it is
enough that the payload is no shorter (`processedOnce_iff`). What the body writes to files and to
the database does not come back into the loop and is left out.
-/

set_option autoImplicit false

namespace DraginoFwd.Mac

open DraginoFwd.Hal
open DraginoFwd.Lib.Memory

/-- The filter of a service. -/
structure ServFilter where
  fwdValidPkt : Bool
  fwdErrorPkt : Bool
  fwdNocrcPkt : Bool

/-- The first `switch` of the body: whether the packet is kept. -/
def passesFilter (filter : ServFilter) (p : LgwPktRx) : Bool :=
  if p.status = statCrcOk then filter.fwdValidPkt
  else if p.status = statCrcBad then filter.fwdErrorPkt
  else if p.status = statNoCrc then filter.fwdNocrcPkt
  else false

/-- `decode_mac_pkt_up`, of which the loop sees only whether it leaves an array. -/
def decodeMacPktUp (p : LgwPktRx) (bufSize : BitVec 8) (macmsg : LoRaMacMessageData) :
    Except OutOfBounds Unit :=
  (decodeMacPktUpRow p bufSize macmsg).map fun _ => ()

/-! ## The body -/

/-- The settings that the body reads. -/
structure PktConfig where
  filter : ServFilter
  macDecode : Bool
  customDownlink : Bool

/-- The fields of a `dn_pkt_s` that its frame depends on. -/
structure DnPkt where
  payload : Vector (BitVec 8) 512
  psize : BitVec 8
  txport : BitVec 8

/-- What one run of the body finds outside: the session keys of a device in the database, the
downlink that waits for it, and the counter of that downlink. Other threads may change all three
between two runs. -/
structure BodyEnv where
  keys : BitVec 32 → Option (Key × Key)
  dnElem : BitVec 32 → Option DnPkt
  dwfcnt : BitVec 32 → BitVec 32

/-- The variables that live across the packets. -/
structure LoopState where
  i : Nat
  payloadEncrypt : Vector (BitVec 8) defaultPayloadSize
  payloadTxt : Vector (BitVec 8) defaultPayloadSize

/-- The frame that `custom_rx2dn` builds. -/
def customFrame (c : Cipher) (devinfo : DevInfo) (dwfcnt : BitVec 32) (dn : DnPkt) :
    Except OutOfBounds (Vector (BitVec 8) defaultPayloadSize × Nat) :=
  prepareFrame c frameTypeDataUnconfirmedDown devinfo dwfcnt dn.payload dn.psize.toNat
    (Vector.replicate defaultPayloadSize 0#8) dn.txport

/-- The branch `GW.cfg.mac_decode` of the body. The loop `for (i = 0; i < fsize; ++i)` that prints
a decoded payload leaves its length in `i`. -/
def decodeStage (c : Cipher) (cfg : PktConfig) (p : LgwPktRx) (macmsg : LoRaMacMessageData)
    (devinfo : DevInfo) (s : LoopState) : Except OutOfBounds LoopState :=
  if cfg.macDecode then do
    let d ← macDecode c p devinfo macmsg s.payloadEncrypt s.payloadTxt
    .ok ⟨if d.fcnt.isSome then d.fsize.toNat else s.i, d.payloadEncrypt, d.payloadTxt⟩
  else .ok s

/-- The branch `GW.cfg.custom_downlink` of the body. -/
def downlinkStage (c : Cipher) (cfg : PktConfig) (env : BodyEnv) (devinfo : DevInfo) :
    Except OutOfBounds Unit :=
  if cfg.customDownlink then
    match env.dnElem devinfo.devaddr with
    | none => .ok ()
    | some dn => do
        let _ ← customFrame c devinfo (env.dwfcnt devinfo.devaddr) dn
        .ok ()
  else .ok ()

/-- The body for a device whose keys are known. -/
def deviceBody (c : Cipher) (cfg : PktConfig) (env : BodyEnv) (p : LgwPktRx)
    (macmsg : LoRaMacMessageData) (devinfo : DevInfo) (s : LoopState) :
    Except OutOfBounds LoopState := do
  let s ← decodeStage c cfg p macmsg devinfo s
  downlinkStage c cfg env devinfo
  .ok s

/-- The body of the loop for the packet `p`. -/
def packetBody (c : Cipher) (cfg : PktConfig) (env : BodyEnv) (p : LgwPktRx) (s : LoopState) :
    Except OutOfBounds LoopState :=
  if !passesFilter cfg.filter p then .ok s
  else if p.size.toNat < 13 then .ok s
  else do
    let (status, macmsg) ← loRaMacParserData p.payload (p.size.setWidth 8)
    if status ≠ .success then .ok s
    else do
      decodeMacPktUp p (p.size.setWidth 8) macmsg
      if cfg.macDecode || cfg.customDownlink then
        match env.keys macmsg.devAddr with
        | none => .ok s
        | some (appskey, nwkskey) =>
            deviceBody c cfg env p macmsg ⟨macmsg.devAddr, appskey, nwkskey⟩ s
      else .ok s

/-! ## The loop -/

/-- How a bounded number of iterations ends. -/
inductive LoopEnd where
  | done
  | fault (e : OutOfBounds)
  | running

/-- At most `fuel` iterations, of which the first is the `t`-th run of the body: the indices whose
packets were processed, and how it ended. -/
def packetLoop (c : Cipher) (cfg : PktConfig) (env : Nat → BodyEnv) (batch : List LgwPktRx) :
    Nat → Nat → LoopState → List Nat × LoopEnd
  | 0, _, _ => ([], .running)
  | fuel + 1, t, s =>
      match batch[s.i]? with
      | none => ([], .done)
      | some p =>
          match packetBody c cfg (env t) p s with
          | .error e => ([s.i], .fault e)
          | .ok s' =>
              let rest := packetLoop c cfg env batch fuel (t + 1) { s' with i := s'.i + 1 }
              (s.i :: rest.1, rest.2)

/-- The loop ends, and has run its body for each index once and in order. -/
def ProcessedOnce (c : Cipher) (cfg : PktConfig) (env : Nat → BodyEnv) (batch : List LgwPktRx)
    (payloadEncrypt payloadTxt : Vector (BitVec 8) defaultPayloadSize) : Prop :=
  ∃ fuel, packetLoop c cfg env batch fuel 0 ⟨0, payloadEncrypt, payloadTxt⟩ =
    (List.range batch.length, .done)

/-! ## When the index survives -/

/-- One of the eight counters has the MIC of the message. -/
def MicFound (c : Cipher) (p : LgwPktRx) (devinfo : DevInfo) (macmsg : LoRaMacMessageData) : Prop :=
  ∃ l < fcntGap, loRaMacComputeMic c p.payload (p.size - 4#16) devinfo.nwkskey devinfo.devaddr up
    (fcntCandidate macmsg.fcnt l) = .ok macmsg.mic

/-- The texts of the packet fit. -/
def TextsFit (p : LgwPktRx) (macmsg : LoRaMacMessageData) : Prop :=
  decodeMacPktUp p (p.size.setWidth 8) macmsg = .ok ()

/-- A payload length that keeps the loop in step at index `k` of `n`: the index itself, or, at the
last one, anything from it on. -/
def KeepsStep (n k : Nat) (fsize : Int) : Prop := fsize = k ∨ (k + 1 = n ∧ (k : Int) ≤ fsize)

/-- The packet at index `k` of a batch of `n` keeps the loop in step: it is skipped, or its texts
fit, its payload is inside the packet and has the right length if it is decoded, and the frame of
the waiting downlink fits its array. -/
def KeepsIndex (c : Cipher) (cfg : PktConfig) (env : BodyEnv) (n k : Nat) (p : LgwPktRx) : Prop :=
  passesFilter cfg.filter p = true → 13 ≤ p.size.toNat →
    ∃ macmsg, loRaMacParserData p.payload (p.size.setWidth 8) = .ok (.success, macmsg) ∧
      TextsFit p macmsg ∧
      ((cfg.macDecode || cfg.customDownlink) = true →
        ∀ appskey nwkskey, env.keys macmsg.devAddr = some (appskey, nwkskey) →
          (cfg.macDecode = true → 0 ≤ macFsize p macmsg ∧ p.size.toNat ≤ 260 ∧
            (MicFound c p ⟨macmsg.devAddr, appskey, nwkskey⟩ macmsg →
              KeepsStep n k (macFsize p macmsg))) ∧
          (cfg.customDownlink = true → ∀ dn, env.dnElem macmsg.devAddr = some dn →
            dn.psize.toNat ≤ 247))

/-! ## One packet -/

theorem customFrame_isOk_iff (c : Cipher) (devinfo : DevInfo) (dwfcnt : BitVec 32) (dn : DnPkt) :
    (∃ r, customFrame c devinfo dwfcnt dn = .ok r) ↔ dn.psize.toNat ≤ 247 :=
  prepareFrame_isOk_iff _ _ _ _ _ _ _ _

/-- The search looks for a matching counter among the last `k` and never leaves the packet. -/
theorem searchFcnt_isOk (c : Cipher) (p : LgwPktRx) (devinfo : DevInfo)
    (macmsg : LoRaMacMessageData) (k : Nat) (hk : k ≤ fcntGap) :
    ∃ r, searchFcnt c p devinfo macmsg k = .ok r ∧
      (r.isSome ↔ ∃ l < fcntGap, fcntGap - k ≤ l ∧
        loRaMacComputeMic c p.payload (p.size - 4#16) devinfo.nwkskey devinfo.devaddr up
          (fcntCandidate macmsg.fcnt l) = .ok macmsg.mic) := by
  induction k with
  | zero =>
    refine ⟨none, rfl, ?_⟩
    constructor
    · intro h
      cases h
    · rintro ⟨l, hl, hle, -⟩
      omega
  | succ k ih =>
    obtain ⟨r, hr, hiff⟩ := ih (by omega)
    obtain ⟨mic, hmic⟩ := loRaMacComputeMic_isOk c p.payload (by omega) (p.size - 4#16)
      devinfo.nwkskey devinfo.devaddr up (fcntCandidate macmsg.fcnt (fcntGap - (k + 1)))
    rw [searchFcnt, hmic, ok_bind]
    by_cases hm : mic = macmsg.mic
    · rw [if_pos hm]
      refine ⟨_, rfl, fun _ => ⟨fcntGap - (k + 1), by omega, le_rfl, ?_⟩, fun _ => rfl⟩
      rw [hmic, hm]
    · rw [if_neg hm]
      refine ⟨r, hr, hiff.trans ⟨?_, ?_⟩⟩
      · rintro ⟨l, hl, hle, hcomp⟩
        exact ⟨l, hl, by omega, hcomp⟩
      · rintro ⟨l, hl, hle, hcomp⟩
        -- the candidate tried first does not match
        rcases Nat.eq_or_lt_of_le hle with heq | hlt
        · rw [← heq, hmic] at hcomp
          cases hcomp
          exact absurd rfl hm
        · exact ⟨l, hl, by omega, hcomp⟩

/-- The branch stays inside its arrays when the payload is inside the packet, and then it reports a
counter when one matches. -/
theorem macDecode_of_fits (c : Cipher) (p : LgwPktRx) (devinfo : DevInfo)
    (macmsg : LoRaMacMessageData) (payloadEncrypt payloadTxt : Vector (BitVec 8) defaultPayloadSize)
    (hneg : 0 ≤ macFsize p macmsg) (hsize : p.size.toNat ≤ 260) :
    ∃ d, macDecode c p devinfo macmsg payloadEncrypt payloadTxt = .ok d ∧
      d.fsize = macFsize p macmsg ∧ (d.fcnt.isSome ↔ MicFound c p devinfo macmsg) := by
  have h256 : defaultPayloadSize = 256 := rfl
  obtain ⟨len, hlen⟩ := Int.eq_ofNat_of_zero_le hneg
  have hfit : 9 + (fOptsLen macmsg.fctrl).toNat + len ≤ 256 := by
    unfold macFsize at hlen
    omega
  have hslice := slice_ok p.payload _ _ hfit
  obtain ⟨enc, hcopy, -⟩ := copy_spec payloadEncrypt 0
    ((p.payload.toList.drop (9 + (fOptsLen macmsg.fctrl).toNat)).take len) (by
      rw [List.length_take]
      omega)
  obtain ⟨r, hr, hiff⟩ := searchFcnt_isOk c p devinfo macmsg fcntGap le_rfl
  have hfound : r.isSome ↔ MicFound c p devinfo macmsg := by
    rw [hiff]
    constructor
    · rintro ⟨l, hl, -, hcomp⟩
      exact ⟨l, hl, hcomp⟩
    · rintro ⟨l, hl, hcomp⟩
      exact ⟨l, hl, by omega, hcomp⟩
  have hsize16 : (BitVec.ofInt 16 (len : Int)).toNat = len := by
    rw [BitVec.ofInt_natCast, BitVec.toNat_ofNat, Nat.mod_eq_of_lt (by omega)]
  cases r with
  | none =>
    refine ⟨⟨none, len, enc, payloadTxt⟩, ?_, hlen.symm, hfound⟩
    simp only [macDecode, hlen, hslice, ok_bind, hcopy, hr]
  | some fcnt =>
    obtain ⟨txt, htxt, -⟩ := loRaMacPayloadEncrypt_spec c enc (BitVec.ofInt 16 (len : Int))
      (payloadKey devinfo macmsg.fport) devinfo.devaddr up fcnt payloadTxt
      (by omega) (by omega) (by omega)
    refine ⟨⟨some fcnt, len, enc, txt⟩, ?_, hlen.symm, hfound⟩
    simp only [macDecode, hlen, hslice, ok_bind, hcopy, hr, loRaMacPayloadDecrypt, htxt]

/-- The branch leaves the packet when the payload does. -/
theorem fits_of_macDecode {c : Cipher} {p : LgwPktRx} {devinfo : DevInfo}
    {macmsg : LoRaMacMessageData} {payloadEncrypt payloadTxt : Vector (BitVec 8) defaultPayloadSize}
    {d : MacDecoded} (h : macDecode c p devinfo macmsg payloadEncrypt payloadTxt = .ok d) :
    0 ≤ macFsize p macmsg ∧ p.size.toNat ≤ 260 := by
  unfold macDecode at h
  obtain ⟨bytes, hslice, -⟩ := bind_eq_ok.1 h
  unfold slice at hslice
  split at hslice
  · next hin =>
    refine ⟨hin.1, ?_⟩
    have hup := hin.2
    unfold macFsize at hup
    omega
  · cases hslice

theorem decodeStage_iff (c : Cipher) (cfg : PktConfig) (n : Nat) (p : LgwPktRx)
    (macmsg : LoRaMacMessageData) (devinfo : DevInfo) (s : LoopState) :
    (∃ s', decodeStage c cfg p macmsg devinfo s = .ok s' ∧ KeepsStep n s.i s'.i) ↔
      (cfg.macDecode = true → 0 ≤ macFsize p macmsg ∧ p.size.toNat ≤ 260 ∧
        (MicFound c p devinfo macmsg → KeepsStep n s.i (macFsize p macmsg))) := by
  cases hdec : cfg.macDecode with
  | false =>
    simp only [decodeStage, hdec, Bool.false_eq_true, if_false, false_imp_iff, iff_true]
    exact ⟨s, rfl, Or.inl rfl⟩
  | true =>
    simp only [decodeStage, hdec, if_true, true_imp_iff]
    constructor
    · rintro ⟨s', hs', hkeep⟩
      obtain ⟨d, hd, hout⟩ := bind_eq_ok.1 hs'
      obtain ⟨hneg, hsize⟩ := fits_of_macDecode hd
      refine ⟨hneg, hsize, fun hfound => ?_⟩
      obtain ⟨d', hd', hfsize, hiff⟩ :=
        macDecode_of_fits c p devinfo macmsg s.payloadEncrypt s.payloadTxt hneg hsize
      rw [hd] at hd'
      cases hd'
      cases hout
      rw [if_pos (hiff.2 hfound), Int.toNat_of_nonneg (by omega), hfsize] at hkeep
      exact hkeep
    · rintro ⟨hneg, hsize, hstep⟩
      obtain ⟨d, hd, hfsize, hiff⟩ :=
        macDecode_of_fits c p devinfo macmsg s.payloadEncrypt s.payloadTxt hneg hsize
      refine ⟨_, bind_eq_ok.2 ⟨d, hd, rfl⟩, ?_⟩
      dsimp only
      by_cases hfound : d.fcnt.isSome
      · rw [if_pos hfound, Int.toNat_of_nonneg (by omega), hfsize]
        exact hstep (hiff.1 hfound)
      · rw [if_neg hfound]
        exact Or.inl rfl

theorem downlinkStage_iff (c : Cipher) (cfg : PktConfig) (env : BodyEnv) (devinfo : DevInfo) :
    downlinkStage c cfg env devinfo = .ok () ↔
      (cfg.customDownlink = true → ∀ dn, env.dnElem devinfo.devaddr = some dn →
        dn.psize.toNat ≤ 247) := by
  cases hcust : cfg.customDownlink with
  | false => simp [downlinkStage, hcust]
  | true =>
    cases hdn : env.dnElem devinfo.devaddr with
    | none => simp [downlinkStage, hcust, hdn]
    | some dn =>
      simp only [downlinkStage, hcust, hdn, if_true, true_imp_iff, Option.some.injEq,
        forall_eq']
      rw [← customFrame_isOk_iff c devinfo (env.dwfcnt devinfo.devaddr) dn]
      constructor
      · intro h
        obtain ⟨r, hr, -⟩ := bind_eq_ok.1 h
        exact ⟨r, hr⟩
      · rintro ⟨r, hr⟩
        exact bind_eq_ok.2 ⟨r, hr, rfl⟩

/-- The body for a known device keeps the loop in step exactly when the payload is inside the
packet and has the right length if it is decoded, and the waiting downlink fits. -/
theorem deviceBody_iff (c : Cipher) (cfg : PktConfig) (env : BodyEnv) (n : Nat) (p : LgwPktRx)
    (macmsg : LoRaMacMessageData) (devinfo : DevInfo) (s : LoopState) :
    (∃ s', deviceBody c cfg env p macmsg devinfo s = .ok s' ∧ KeepsStep n s.i s'.i) ↔
      (cfg.macDecode = true → 0 ≤ macFsize p macmsg ∧ p.size.toNat ≤ 260 ∧
        (MicFound c p devinfo macmsg → KeepsStep n s.i (macFsize p macmsg))) ∧
      (cfg.customDownlink = true → ∀ dn, env.dnElem devinfo.devaddr = some dn →
        dn.psize.toNat ≤ 247) := by
  rw [← decodeStage_iff, ← downlinkStage_iff c]
  constructor
  · rintro ⟨s', hs', hkeep⟩
    obtain ⟨s1, h1, hs'⟩ := bind_eq_ok.1 hs'
    obtain ⟨⟨⟩, h2, hs'⟩ := bind_eq_ok.1 hs'
    cases hs'
    exact ⟨⟨_, h1, hkeep⟩, h2⟩
  · rintro ⟨⟨s1, h1, hkeep⟩, h2⟩
    exact ⟨s1, bind_eq_ok.2 ⟨s1, h1, bind_eq_ok.2 ⟨(), h2, rfl⟩⟩, hkeep⟩

/-- The body keeps the loop in step exactly for the packets that `KeepsIndex` describes. -/
theorem packetBody_iff (c : Cipher) (cfg : PktConfig) (env : BodyEnv) (n : Nat) (p : LgwPktRx)
    (s : LoopState) :
    (∃ s', packetBody c cfg env p s = .ok s' ∧ KeepsStep n s.i s'.i) ↔
      KeepsIndex c cfg env n s.i p := by
  have hskip : ∃ s', (Except.ok s : Except OutOfBounds LoopState) = .ok s' ∧ KeepsStep n s.i s'.i :=
    ⟨s, rfl, Or.inl rfl⟩
  unfold packetBody KeepsIndex
  cases hpass : passesFilter cfg.filter p with
  | false => simpa using hskip
  | true =>
    by_cases hsmall : p.size.toNat < 13
    · rw [if_neg (by simp), if_pos hsmall]
      exact ⟨fun _ _ h13 => absurd hsmall (Nat.not_lt.2 h13), fun _ => hskip⟩
    · rw [if_neg (by simp), if_neg hsmall]
      simp only [true_imp_iff, Nat.not_lt.1 hsmall]
      constructor
      · rintro ⟨s', hs', hkeep⟩
        obtain ⟨⟨status, macmsg⟩, hparse, hs'⟩ := bind_eq_ok.1 hs'
        have hstatus := parser_success hparse
        subst hstatus
        rw [if_neg (by simp)] at hs'
        obtain ⟨⟨⟩, htexts, hs'⟩ := bind_eq_ok.1 hs'
        refine ⟨macmsg, hparse, htexts, ?_⟩
        intro hcfg appskey nwkskey hkeys
        rw [if_pos hcfg, hkeys] at hs'
        exact (deviceBody_iff c cfg env n p macmsg ⟨macmsg.devAddr, appskey, nwkskey⟩ s).1
          ⟨s', hs', hkeep⟩
      · rintro ⟨macmsg, hparse, htexts, hdevice⟩
        rw [hparse, ok_bind, if_neg (by simp), show decodeMacPktUp p _ macmsg = .ok () from htexts,
          ok_bind]
        by_cases hcfg : (cfg.macDecode || cfg.customDownlink) = true
        · rw [if_pos hcfg]
          cases hkeys : env.keys macmsg.devAddr with
          | none => exact hskip
          | some keys =>
            obtain ⟨appskey, nwkskey⟩ := keys
            exact (deviceBody_iff c cfg env n p macmsg ⟨macmsg.devAddr, appskey, nwkskey⟩ s).2
              (hdevice hcfg appskey nwkskey hkeys)
        · rw [if_neg hcfg]
          exact hskip

/-! ## The whole batch -/

section Batch

variable {c : Cipher} {cfg : PktConfig} {env : Nat → BodyEnv} {batch : List LgwPktRx}

/-- The loop is over when the index is behind the batch. -/
theorem packetLoop_end {t : Nat} {s : LoopState} (h : batch.length ≤ s.i) (fuel : Nat) :
    packetLoop c cfg env batch (fuel + 1) t s = ([], .done) := by
  rw [packetLoop, List.getElem?_eq_none h]

/-- While every packet from `t` on keeps the loop in step, the loop runs through the `m` that are
left. -/
theorem packetLoop_of_keeps (m t : Nat) (s : LoopState) (hi : s.i = t) (hm : t + m = batch.length)
    (h : ∀ k p, t ≤ k → batch[k]? = some p → KeepsIndex c cfg (env k) batch.length k p) :
    ∃ fuel, packetLoop c cfg env batch fuel t s = (List.range' t m, .done) := by
  induction m generalizing t s with
  | zero => exact ⟨1, packetLoop_end (by omega) 0⟩
  | succ m ih =>
    subst hi
    obtain ⟨p, hp⟩ : ∃ p, batch[s.i]? = some p := ⟨_, List.getElem?_eq_getElem (by omega)⟩
    obtain ⟨s', hbody, hstep⟩ :=
      (packetBody_iff c cfg (env s.i) batch.length p s).2 (h s.i p le_rfl hp)
    have hrest : ∃ fuel, packetLoop c cfg env batch fuel (s.i + 1) { s' with i := s'.i + 1 } =
        (List.range' (s.i + 1) m, .done) := by
      rcases hstep with heq | ⟨hlast, hge⟩
      · have hi' : s'.i = s.i := by exact_mod_cast heq
        exact ih (s.i + 1) _ (by rw [hi']) (by omega) fun k p hk => h k p (by omega)
      · have hm0 : m = 0 := by omega
        subst hm0
        refine ⟨1, packetLoop_end ?_ 0⟩
        show batch.length ≤ s'.i + 1
        omega
    obtain ⟨fuel, hfuel⟩ := hrest
    refine ⟨fuel + 1, ?_⟩
    rw [packetLoop, hp]
    simp only [hbody, hfuel, List.range'_succ]

/-- A loop that ends after the `m` indices from `t` on starts at `t`, unless it is over at once. -/
theorem next_index {m fuel t : Nat} {s : LoopState}
    (h : packetLoop c cfg env batch fuel t s = (List.range' t m, .done)) :
    s.i = t ∨ (m = 0 ∧ batch.length ≤ s.i) := by
  cases fuel with
  | zero =>
    have hend : LoopEnd.running = .done := congrArg Prod.snd h
    cases hend
  | succ fuel =>
    rw [packetLoop] at h
    cases hp : batch[s.i]? with
    | none =>
      rw [hp] at h
      have hlen := congrArg (fun r => r.1.length) h
      exact Or.inr ⟨by simpa using hlen.symm, List.getElem?_eq_none_iff.1 hp⟩
    | some p =>
      simp only [hp] at h
      have hhead : (List.range' t m).head? = some s.i := by
        cases hbody : packetBody c cfg (env t) p s with
        | error e =>
          simp only [hbody] at h
          have hend : LoopEnd.fault e = .done := congrArg Prod.snd h
          cases hend
        | ok s' =>
          simp only [hbody] at h
          have hvisits : _ = List.range' t m := congrArg Prod.fst h
          rw [← hvisits]
          rfl
      cases m with
      | zero => cases hhead
      | succ m =>
        rw [List.range'_succ, List.head?_cons, Option.some.injEq] at hhead
        exact Or.inl hhead.symm

/-- A loop that ends after the `m` indices from `t` on was kept in step by every packet. -/
theorem keeps_of_packetLoop (m fuel t : Nat) (s : LoopState) (hi : s.i = t)
    (hm : t + m = batch.length)
    (h : packetLoop c cfg env batch fuel t s = (List.range' t m, .done)) :
    ∀ k p, t ≤ k → batch[k]? = some p → KeepsIndex c cfg (env k) batch.length k p := by
  induction m generalizing fuel t s with
  | zero =>
    intro k p hk hp
    have hlt := (List.getElem?_eq_some_iff.1 hp).1
    omega
  | succ m ih =>
    subst hi
    cases fuel with
    | zero =>
      have hend : LoopEnd.running = .done := congrArg Prod.snd h
      cases hend
    | succ fuel =>
      obtain ⟨p, hp⟩ : ∃ p, batch[s.i]? = some p := ⟨_, List.getElem?_eq_getElem (by omega)⟩
      rw [packetLoop, hp] at h
      cases hbody : packetBody c cfg (env s.i) p s with
      | error e =>
        simp only [hbody] at h
        have hend : LoopEnd.fault e = .done := congrArg Prod.snd h
        cases hend
      | ok s' =>
        simp only [hbody, List.range'_succ, Prod.mk.injEq, List.cons.injEq, true_and] at h
        obtain ⟨hvisits, hend⟩ := h
        have hrest : packetLoop c cfg env batch fuel (s.i + 1) { s' with i := s'.i + 1 } =
            (List.range' (s.i + 1) m, .done) := Prod.ext hvisits hend
        have hnext := next_index hrest
        have hstep : KeepsStep batch.length s.i (s'.i : Int) := by
          dsimp only at hnext
          rcases hnext with heq | ⟨hm0, hge⟩
          · exact Or.inl (by omega)
          · exact Or.inr ⟨by omega, by omega⟩
        have hkeep := (packetBody_iff c cfg (env s.i) batch.length p s).1 ⟨s', hbody, hstep⟩
        intro k q hk hkq
        rcases Nat.eq_or_lt_of_le hk with rfl | hgt
        · rw [hp] at hkq
          cases hkq
          exact hkeep
        · have hklt := (List.getElem?_eq_some_iff.1 hkq).1
          rcases hnext with heq | ⟨hm0, -⟩
          · exact ih fuel (s.i + 1) _ (by rw [heq]) (by omega) hrest k q hgt hkq
          · omega

/-- The loop processes every packet once and in order exactly when every packet keeps it in
step. -/
theorem processedOnce_iff (c : Cipher) (cfg : PktConfig) (env : Nat → BodyEnv)
    (batch : List LgwPktRx)
    (payloadEncrypt payloadTxt : Vector (BitVec 8) defaultPayloadSize) :
    ProcessedOnce c cfg env batch payloadEncrypt payloadTxt ↔
      ∀ k p, batch[k]? = some p → KeepsIndex c cfg (env k) batch.length k p := by
  constructor
  · rintro ⟨fuel, h⟩ k p hp
    rw [List.range_eq_range'] at h
    exact keeps_of_packetLoop batch.length fuel 0 _ rfl (Nat.zero_add _) h k p (Nat.zero_le k) hp
  · intro h
    obtain ⟨fuel, hfuel⟩ := packetLoop_of_keeps batch.length 0 ⟨0, payloadEncrypt, payloadTxt⟩ rfl
      (Nat.zero_add _) fun k p _ => h k p
    rw [← List.range_eq_range'] at hfuel
    exact ⟨fuel, hfuel⟩

end Batch

/-- The settings that decode the packets with a good checksum. -/
def decodeConfig : PktConfig := ⟨⟨true, false, false⟩, true, false⟩

/-- One device with known keys, and no downlink. -/
def toyEnv : BodyEnv where
  keys devaddr :=
    if devaddr = toyDevice.devaddr then some (toyDevice.appskey, toyDevice.nwkskey) else none
  dnElem _ := none
  dwfcnt _ := 1#32

/-- Two uplinks of the device with two bytes of text: the first one leaves the index 2, and the loop
ends without the second one. -/
theorem not_processedOnce_decoded :
    ¬ ∀ (c : Cipher) (cfg : PktConfig) (env : Nat → BodyEnv) (batch : List LgwPktRx),
      ProcessedOnce c cfg env batch (Vector.replicate _ 0#8) (Vector.replicate _ 0#8) := by
  intro h
  let p := LgwPktRx.ofBytes (portUplink.frame toyCipher toyDevice).bytes
  have hp : Carries p (portUplink.frame toyCipher toyDevice) := carries_ofBytes (by decide)
  have hunique := micUnique_toyCipher toyDevice portUplink
  obtain ⟨fuel, hrun⟩ := h toyCipher decodeConfig (fun _ => toyEnv) [p, p]
  rw [List.range_eq_range'] at hrun
  have hkeep := keeps_of_packetLoop 2 fuel 0 _ rfl rfl hrun 0 p le_rfl rfl
  obtain ⟨macmsg, hparse, -, hdevice⟩ := hkeep rfl (by decide)
  rw [hp.parse] at hparse
  cases hparse
  obtain ⟨hdecode, -⟩ := hdevice rfl toyDevice.appskey toyDevice.nwkskey rfl
  obtain ⟨hneg, hsize, hstep⟩ := hdecode rfl
  obtain ⟨d, hd, hfcnt, hfsize, -⟩ := macDecode_port toyCipher toyDevice hp hunique rfl
    (Vector.replicate _ 0#8) (Vector.replicate _ 0#8)
  obtain ⟨d', hd', hfsize', hiff⟩ := macDecode_of_fits toyCipher p toyDevice
    (portUplink.frame toyCipher toyDevice).parsed (Vector.replicate _ 0#8)
    (Vector.replicate _ 0#8) hneg hsize
  rw [hd] at hd'
  cases hd'
  have hfound : d.fcnt.isSome := by rw [hfcnt]; rfl
  have hbad := hstep (hiff.1 hfound)
  rw [← hfsize', hfsize] at hbad
  revert hbad
  unfold KeepsStep
  decide

end DraginoFwd.Mac
