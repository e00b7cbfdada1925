import DraginoFwd.Hal
import DraginoFwd.Mac.Downlink

/-!
# Decoding an uplink

The MAC-decode branch of `pkt_deal_up` (`macDecode`): it copies the payload of a parsed frame by an
offset and a length of its own, tries eight high halves for the counter until the MIC matches, and
decrypts. `Uplink` is what a device sends, and `DecodeRecovers` says that the branch gets the
counter and the text back.

The length of the branch counts a port that not every frame has. A frame without one is skipped or
copied with length -1, so the branch recovers exactly the uplinks that have a port
(`decodeRecovers_iff`).
-/

set_option autoImplicit false

namespace DraginoFwd.Mac

open DraginoFwd.Hal
open DraginoFwd.Lib.CounterMode
open DraginoFwd.Lib.Memory

/-- `FCNT_GAP` -/
def fcntGap : Nat := 8

/-- `macmsg.FHDR.FCnt | (l * 0x10000)` -/
def fcntCandidate (fcnt : BitVec 16) (l : Nat) : BitVec 32 :=
  fcnt.setWidth 32 ||| BitVec.ofNat 32 (l * 0x10000)

/-- The loop over the high halves, with `k` of them left: the first counter whose MIC is that of
the message. -/
def searchFcnt (c : Cipher) (p : LgwPktRx) (devinfo : DevInfo) (macmsg : LoRaMacMessageData) :
    Nat → Except OutOfBounds (Option (BitVec 32))
  | 0 => .ok none
  | k + 1 => do
      let fcnt := fcntCandidate macmsg.fcnt (fcntGap - (k + 1))
      let mic ← loRaMacComputeMic c p.payload (p.size - 4#16) devinfo.nwkskey
        devinfo.devaddr up fcnt
      if mic = macmsg.mic then .ok (some fcnt) else searchFcnt c p devinfo macmsg k

/-- `fsize` of the branch -/
def macFsize (p : LgwPktRx) (macmsg : LoRaMacMessageData) : Int :=
  (p.size.toNat : Int) - 13 - (fOptsLen macmsg.fctrl).toNat

/-- What the branch leaves: the counter it found, `fsize`, and the buffers. -/
structure MacDecoded where
  fcnt : Option (BitVec 32)
  fsize : Int
  payloadEncrypt : Vector (BitVec 8) defaultPayloadSize
  payloadTxt : Vector (BitVec 8) defaultPayloadSize

/-- The branch `GW.cfg.mac_decode` of `pkt_deal_up`, to the end of the decryption. -/
def macDecode (c : Cipher) (p : LgwPktRx) (devinfo : DevInfo) (macmsg : LoRaMacMessageData)
    (payloadEncrypt payloadTxt : Vector (BitVec 8) defaultPayloadSize) :
    Except OutOfBounds MacDecoded := do
  let fsize := macFsize p macmsg
  let bytes ← slice p.payload (9 + (fOptsLen macmsg.fctrl).toNat) fsize
  let payloadEncrypt ← copy payloadEncrypt 0 bytes
  let found ← searchFcnt c p devinfo macmsg fcntGap
  match found with
  | none => .ok ⟨none, fsize, payloadEncrypt, payloadTxt⟩
  | some fcnt =>
      let payloadTxt ← loRaMacPayloadDecrypt c payloadEncrypt (BitVec.ofInt 16 fsize)
        (payloadKey devinfo macmsg.fport) devinfo.devaddr up fcnt payloadTxt
      .ok ⟨some fcnt, fsize, payloadEncrypt, payloadTxt⟩

/-! ## What a device sends -/

/-- A data uplink in the clear: header bytes, counter, options, and the port with the text. -/
structure Uplink where
  mhdr : BitVec 8
  fctrl : BitVec 8
  counter : BitVec 32
  fopts : List (BitVec 8)
  body : Option (BitVec 8 × List (BitVec 8))
  isUp : mType mhdr = frameTypeDataUnconfirmedUp ∨ mType mhdr = frameTypeDataConfirmedUp
  foptsLength : fopts.length = (fOptsLen fctrl).toNat
  counter_lt : counter.toNat < fcntGap * 65536

/-- The text of an uplink. -/
def Uplink.text (u : Uplink) : List (BitVec 8) :=
  match u.body with
  | none => []
  | some (_, text) => text

/-- The frame without a MIC: the text is encrypted with the key of its port. -/
def Uplink.unsignedFrame (u : Uplink) (c : Cipher) (devinfo : DevInfo) : DataFrame where
  mhdr := u.mhdr
  devAddr := devinfo.devaddr
  fctrl := u.fctrl
  counter := u.counter
  fopts := u.fopts
  body := u.body.map fun (fport, text) =>
    (fport,
      xorStream (payloadStream c (payloadKey devinfo fport) devinfo.devaddr up u.counter) text)
  mic := 0#32
  isData := by
    rcases u.isUp with h | h
    · rw [h]
      decide
    · rw [h]
      decide
  foptsLength := u.foptsLength

/-- The frame as it is sent. -/
def Uplink.frame (u : Uplink) (c : Cipher) (devinfo : DevInfo) : DataFrame :=
  let f := u.unsignedFrame c devinfo
  { f with
    mic := micOf c devinfo.nwkskey devinfo.devaddr up u.counter
      (BitVec.ofNat 16 f.message.length) f.message }

/-- The packet carries the frame of the uplink, which fits the 255 bytes of a radio packet. -/
def Carries (p : LgwPktRx) (f : DataFrame) : Prop :=
  f.bytes.length ≤ 255 ∧ p.size = BitVec.ofNat 16 f.bytes.length ∧
    ∃ rest, p.payload.toList = f.bytes ++ rest

/-- Of the eight candidates only the true counter has the MIC of the frame. -/
def MicUnique (c : Cipher) (devinfo : DevInfo) (u : Uplink) : Prop :=
  ∀ l < fcntGap, fcntCandidate (u.counter.setWidth 16) l ≠ u.counter →
    micOf c devinfo.nwkskey devinfo.devaddr up (fcntCandidate (u.counter.setWidth 16) l)
      (BitVec.ofNat 16 (u.frame c devinfo).message.length) (u.frame c devinfo).message ≠
        (u.frame c devinfo).mic

/-- The packet gets to the branch, which finds the counter and the text, with the length that the
parser gives. -/
def DecodeRecovers (c : Cipher) (devinfo : DevInfo) (u : Uplink) (p : LgwPktRx)
    (payloadEncrypt payloadTxt : Vector (BitVec 8) defaultPayloadSize) : Prop :=
  ¬ p.size.toNat < 13 ∧ ∃ macmsg d,
    loRaMacParserData p.payload (p.size.setWidth 8) = .ok (.success, macmsg) ∧
    macDecode c p devinfo macmsg payloadEncrypt payloadTxt = .ok d ∧
    d.fcnt = some u.counter ∧ d.fsize = macmsg.frmPayloadSize.toNat ∧
    d.payloadTxt.toList.take d.fsize.toNat = u.text

/-! ## The counter -/

theorem toNat_fcntCandidate (fcnt : BitVec 16) {l : Nat} (h : l < fcntGap) :
    (fcntCandidate fcnt l).toNat = l * 65536 + fcnt.toNat := by
  have hgap : fcntGap = 8 := rfl
  have hlow := fcnt.isLt
  have hor : 2 ^ 16 * l ||| fcnt.toNat = 2 ^ 16 * l + fcnt.toNat :=
    (Nat.two_pow_add_eq_or_of_lt hlow l).symm
  have hl : (BitVec.ofNat 32 (l * 0x10000)).toNat = 2 ^ 16 * l := by
    rw [BitVec.toNat_ofNat, Nat.mod_eq_of_lt (by omega)]
    omega
  have hfcnt : (fcnt.setWidth 32).toNat = fcnt.toNat := by
    rw [BitVec.toNat_setWidth, Nat.mod_eq_of_lt (by omega)]
  rw [fcntCandidate, BitVec.toNat_or, hl, hfcnt, Nat.or_comm, hor]
  omega

/-- The low half with its own high half is the counter. -/
theorem fcntCandidate_self {counter : BitVec 32} (h : counter.toNat / 65536 < fcntGap) :
    fcntCandidate (counter.setWidth 16) (counter.toNat / 65536) = counter := by
  apply BitVec.eq_of_toNat_eq
  rw [toNat_fcntCandidate _ h, BitVec.toNat_setWidth]
  exact Nat.div_add_mod' counter.toNat 65536

section Decode

variable (c : Cipher) (devinfo : DevInfo) (u : Uplink) {p : LgwPktRx}

theorem frame_parsed_fcnt : (u.frame c devinfo).parsed.fcnt = u.counter.setWidth 16 := rfl

theorem frame_parsed_mic : (u.frame c devinfo).parsed.mic = (u.frame c devinfo).mic := rfl

/-- The frame size without the MIC, in the 16 bits of the source. -/
theorem Carries.size_sub {f : DataFrame} (h : Carries p f) :
    p.size - 4#16 = BitVec.ofNat 16 f.message.length := by
  obtain ⟨hlen, hsize, -⟩ := h
  have hbytes := f.length_bytes
  rw [hsize]
  bv_omega

theorem Carries.take {f : DataFrame} (h : Carries p f) :
    p.payload.toList.take f.message.length = f.message := by
  obtain ⟨-, -, rest, hlist⟩ := h
  rw [hlist, DataFrame.bytes, List.append_assoc, List.take_left]

/-- The search finds the counter while its high half is among those left. -/
theorem searchFcnt_spec (hp : Carries p (u.frame c devinfo)) (hunique : MicUnique c devinfo u)
    (k : Nat) (hk : k ≤ fcntGap) (hleft : fcntGap - k ≤ u.counter.toNat / 65536)
    (hhigh : u.counter.toNat / 65536 < fcntGap) :
    searchFcnt c p devinfo (u.frame c devinfo).parsed k = .ok (some u.counter) := by
  have hbytes := (u.frame c devinfo).length_bytes
  have hlen := hp.1
  induction k with
  | zero => omega
  | succ k ih =>
    have hmic := loRaMacComputeMic_ok c p.payload
      (k := (u.frame c devinfo).message.length) (by omega) (by omega) devinfo.nwkskey
      devinfo.devaddr up (fcntCandidate (u.counter.setWidth 16) (fcntGap - (k + 1)))
    rw [hp.take] at hmic
    rw [searchFcnt, frame_parsed_fcnt, frame_parsed_mic, hp.size_sub, hmic, ok_bind]
    by_cases hc : fcntCandidate (u.counter.setWidth 16) (fcntGap - (k + 1)) = u.counter
    · rw [hc, if_pos]
      rfl
    · have hne := hunique (fcntGap - (k + 1)) (by omega) hc
      rw [if_neg hne]
      refine ih (by omega) ?_
      -- the candidate just tried is not the high half of the counter
      by_contra hlt
      have heq : fcntGap - (k + 1) = u.counter.toNat / 65536 := by omega
      rw [heq] at hc
      exact hc (fcntCandidate_self hhigh)

/-- The parser is given the size of the frame and reads it back. -/
theorem Carries.parse {f : DataFrame} (hp : Carries p f) :
    loRaMacParserData p.payload (p.size.setWidth 8) = .ok (.success, f.parsed) := by
  obtain ⟨hlen, hsize, rest, hlist⟩ := hp
  have hsize8 : p.size.setWidth 8 = BitVec.ofNat 8 f.bytes.length := by
    rw [hsize]
    bv_omega
  rw [hsize8]
  exact loRaMacParserData_bytes f hlist hlen

/-- `fsize` is one less than the port and payload are long. -/
theorem macFsize_frame (hp : Carries p (u.frame c devinfo)) :
    macFsize p (u.frame c devinfo).parsed = ((u.frame c devinfo).bodyBytes.length : Int) - 1 := by
  have hlen := hp.1
  have hbytes := (u.frame c devinfo).length_bytes
  have hmsg := (u.frame c devinfo).length_message
  have hfopts : (u.frame c devinfo).fopts.length =
      (fOptsLen (u.frame c devinfo).parsed.fctrl).toNat :=
    (u.frame c devinfo).foptsLength
  have hsize : p.size.toNat = (u.frame c devinfo).bytes.length := by
    rw [hp.2.1, BitVec.toNat_ofNat, Nat.mod_eq_of_lt (by omega)]
  rw [macFsize, hsize]
  omega

section Port

variable {u} {fport : BitVec 8} {text : List (BitVec 8)}

/-- The encrypted text of a port. -/
def upCipher (u : Uplink) (fport : BitVec 8) (text : List (BitVec 8)) : List (BitVec 8) :=
  xorStream (payloadStream c (payloadKey devinfo fport) devinfo.devaddr up u.counter) text

theorem length_upCipher : (upCipher c devinfo u fport text).length = text.length :=
  length_xorStream _ text

theorem frame_bodyBytes (hbody : u.body = some (fport, text)) :
    (u.frame c devinfo).bodyBytes = fport :: upCipher c devinfo u fport text := by
  show (u.unsignedFrame c devinfo).bodyBytes = _
  rw [DataFrame.bodyBytes, Uplink.unsignedFrame, hbody]
  rfl

theorem frame_parsed_fport (hbody : u.body = some (fport, text)) :
    (u.frame c devinfo).parsed.fport = fport := by
  show (u.unsignedFrame c devinfo).parsed.fport = fport
  rw [DataFrame.parsed, Uplink.unsignedFrame, hbody]
  rfl

/-- The offset and length of the branch cut out the text behind header, options and port. -/
theorem slice_frame (hp : Carries p (u.frame c devinfo)) (hbody : u.body = some (fport, text)) :
    slice p.payload (9 + (u.frame c devinfo).fopts.length) (text.length : Int) =
      .ok (upCipher c devinfo u fport text) := by
  have hbytes := (u.frame c devinfo).length_bytes
  have hmsg := (u.frame c devinfo).length_message
  obtain ⟨hlen, -, rest, hlist⟩ := hp
  have hbodyBytes := frame_bodyBytes c devinfo hbody
  have hfront : ((u.frame c devinfo).header ++ (u.frame c devinfo).fopts ++ [fport]).length =
      9 + (u.frame c devinfo).fopts.length := by
    rw [List.length_append, List.length_append]
    show 8 + _ + 1 = _
    omega
  rw [hbodyBytes, List.length_cons, length_upCipher] at hmsg
  rw [slice_ok _ _ _ (by omega), hlist, DataFrame.bytes, DataFrame.message, hbodyBytes,
    List.append_cons, List.append_assoc, List.append_assoc, List.drop_left' hfront,
    List.take_left' (length_upCipher c devinfo)]

/-- With a port the branch decrypts the payload behind it. -/
theorem macDecode_port (hp : Carries p (u.frame c devinfo)) (hunique : MicUnique c devinfo u)
    (hbody : u.body = some (fport, text))
    (payloadEncrypt payloadTxt : Vector (BitVec 8) defaultPayloadSize) :
    ∃ d, macDecode c p devinfo (u.frame c devinfo).parsed payloadEncrypt payloadTxt = .ok d ∧
      d.fcnt = some u.counter ∧ d.fsize = text.length ∧
      d.payloadTxt.toList.take text.length = text := by
  have h256 : defaultPayloadSize = 256 := rfl
  have hbodyLen : (u.frame c devinfo).bodyBytes.length = text.length + 1 := by
    rw [frame_bodyBytes c devinfo hbody, List.length_cons, length_upCipher]
  have htextLen : text.length ≤ 255 := by
    have hlen := hp.1
    have hbytes := (u.frame c devinfo).length_bytes
    have hmsg := (u.frame c devinfo).length_message
    omega
  have hfsize : macFsize p (u.frame c devinfo).parsed = (text.length : Int) := by
    rw [macFsize_frame c devinfo u hp, hbodyLen]
    omega
  have hfopts : (fOptsLen (u.frame c devinfo).parsed.fctrl).toNat =
      (u.frame c devinfo).fopts.length := (u.frame c devinfo).foptsLength.symm
  obtain ⟨enc, hcopy, henc⟩ := copy_spec payloadEncrypt 0 (upCipher c devinfo u fport text) (by
    rw [length_upCipher]
    omega)
  have hhigh : u.counter.toNat / 65536 < fcntGap :=
    Nat.div_lt_of_lt_mul (Nat.mul_comm _ _ ▸ u.counter_lt)
  have hsearch := searchFcnt_spec c devinfo u hp hunique fcntGap le_rfl
    (by rw [Nat.sub_self]; exact Nat.zero_le _) hhigh
  have hsize16 : (BitVec.ofInt 16 (text.length : Int)).toNat = text.length := by
    rw [BitVec.ofInt_natCast, BitVec.toNat_ofNat, Nat.mod_eq_of_lt (by omega)]
  obtain ⟨txt, hdecrypt, htxt⟩ := loRaMacPayloadEncrypt_spec c enc
    (BitVec.ofInt 16 (text.length : Int)) (payloadKey devinfo fport) devinfo.devaddr up u.counter
    payloadTxt (by omega) (by omega) (by omega)
  have htext : txt.toList.take text.length = text := by
    rw [htxt, hsize16, henc, List.take_zero, List.nil_append,
      List.take_left' (length_upCipher c devinfo), upCipher, xorStream_xorStream]
    exact List.take_left' rfl
  refine ⟨⟨some u.counter, text.length, enc, txt⟩, ?_, rfl, rfl, htext⟩
  simp only [macDecode, hfsize, hfopts, slice_frame c devinfo hp hbody, ok_bind, hcopy, hsearch,
    frame_parsed_fport c devinfo hbody, loRaMacPayloadDecrypt, hdecrypt]

end Port

/-- Without a port the branch copies a length of -1. -/
theorem macDecode_noPort (hp : Carries p (u.frame c devinfo)) (hbody : u.body = none)
    (payloadEncrypt payloadTxt : Vector (BitVec 8) defaultPayloadSize) :
    ∀ d, macDecode c p devinfo (u.frame c devinfo).parsed payloadEncrypt payloadTxt ≠ .ok d := by
  intro d h
  have hbodyBytes : (u.frame c devinfo).bodyBytes = [] := by
    show (u.unsignedFrame c devinfo).bodyBytes = _
    rw [DataFrame.bodyBytes, Uplink.unsignedFrame, hbody]
    rfl
  have hfsize := macFsize_frame c devinfo u hp
  rw [hbodyBytes] at hfsize
  rw [macDecode, hfsize, slice_neg _ _ (by decide)] at h
  cases h

/-- The branch recovers counter and text of exactly the uplinks that have a port. -/
theorem decodeRecovers_iff (payloadEncrypt payloadTxt : Vector (BitVec 8) defaultPayloadSize)
    (hp : Carries p (u.frame c devinfo)) (hunique : MicUnique c devinfo u) :
    DecodeRecovers c devinfo u p payloadEncrypt payloadTxt ↔ u.body.isSome := by
  constructor
  · rintro ⟨-, macmsg, d, hparse, hdecode, -⟩
    rw [hp.parse] at hparse
    cases hparse
    cases hbody : u.body with
    | some body => rfl
    | none => exact absurd hdecode (macDecode_noPort c devinfo u hp hbody _ _ d)
  · intro hsome
    obtain ⟨⟨fport, text⟩, hbody⟩ := Option.isSome_iff_exists.1 hsome
    obtain ⟨d, hdecode, hfcnt, hfsize, htext⟩ :=
      macDecode_port c devinfo hp hunique hbody payloadEncrypt payloadTxt
    have hlen := hp.1
    have hbytes := (u.frame c devinfo).length_bytes
    have hmsg := (u.frame c devinfo).length_message
    have hbodyLen := congrArg List.length (frame_bodyBytes c devinfo hbody)
    rw [List.length_cons, length_upCipher] at hbodyLen
    have hparsed : (u.frame c devinfo).parsed.frmPayloadSize = BitVec.ofNat 8 text.length := by
      show (u.unsignedFrame c devinfo).parsed.frmPayloadSize = _
      simp only [DataFrame.parsed, Uplink.unsignedFrame, hbody, Option.map_some, length_xorStream]
    have hsize : p.size.toNat = (u.frame c devinfo).bytes.length := by
      rw [hp.2.1, BitVec.toNat_ofNat, Nat.mod_eq_of_lt (by omega)]
    refine ⟨by omega, _, d, hp.parse, hdecode, hfcnt, ?_, ?_⟩
    · rw [hfsize, hparsed, BitVec.toNat_ofNat, Nat.mod_eq_of_lt (by omega)]
    · rw [hfsize, Int.toNat_natCast, htext, Uplink.text, hbody]

end Decode

/-! ## Frames of a device -/

/-- A packet made of the bytes of a frame carries it. -/
theorem carries_ofBytes {f : DataFrame} (h : f.bytes.length ≤ 255) :
    Carries (LgwPktRx.ofBytes f.bytes) f := by
  refine ⟨h, rfl, List.replicate (256 - f.bytes.length) 0#8, ?_⟩
  have hlen : (f.bytes ++ List.replicate (256 - f.bytes.length) 0#8).length = 256 := by
    rw [List.length_append, List.length_replicate]
    omega
  apply List.ext_getElem
  · rw [hlen]
    exact Vector.length_toList
  · intro i h1 h2
    by_cases hi : i < f.bytes.length
    · simp [LgwPktRx.ofBytes, List.getElem_append_left, hi]
    · rw [List.getElem_append_right (Nat.le_of_not_lt hi)]
      simp [LgwPktRx.ofBytes, hi]

theorem micOf_toyCipher (key : Key) (address : BitVec 32) (dir : BitVec 8) (counter : BitVec 32)
    (size : BitVec 16) (data : List (BitVec 8)) :
    micOf toyCipher key address dir counter size data = counter := by
  simp [micOf, toyCipher, micBlockB0, le32_byteOf]

theorem micUnique_toyCipher (devinfo : DevInfo) (u : Uplink) : MicUnique toyCipher devinfo u := by
  intro l _ hne
  show micOf _ _ _ _ _ _ _ ≠ micOf _ _ _ _ _ _ _
  rw [micOf_toyCipher, micOf_toyCipher]
  exact hne

/-- A device with two session keys. -/
def toyDevice : DevInfo := ⟨0x26011234#32, Vector.replicate 16 1#8, Vector.replicate 16 2#8⟩

/-- An unconfirmed uplink on port 2, whose counter has gone around twice. -/
def portUplink : Uplink where
  mhdr := 0x40#8
  fctrl := 0x00#8
  counter := 131077#32
  fopts := []
  body := some (2#8, [0x68#8, 0x69#8])
  isUp := by decide
  foptsLength := by decide
  counter_lt := by decide

theorem decodeRecovers_port :
    DecodeRecovers toyCipher toyDevice portUplink
      (LgwPktRx.ofBytes (portUplink.frame toyCipher toyDevice).bytes)
      (Vector.replicate _ 0#8) (Vector.replicate _ 0#8) := by
  have hp : Carries (LgwPktRx.ofBytes (portUplink.frame toyCipher toyDevice).bytes) _ :=
    carries_ofBytes (by decide)
  exact (decodeRecovers_iff toyCipher toyDevice portUplink _ _ hp
    (micUnique_toyCipher toyDevice portUplink)).2 rfl

/-- An uplink that carries one byte of options and no port, a MAC command alone. -/
def commandUplink : Uplink where
  mhdr := 0x40#8
  fctrl := 0x01#8
  counter := 7#32
  fopts := [0x02#8]
  body := none
  isUp := by decide
  foptsLength := by decide
  counter_lt := by decide

/-- That frame of 13 bytes is decoded with a payload length of -1. -/
theorem not_decodeRecovers_command :
    ¬ ∀ (c : Cipher) (devinfo : DevInfo) (u : Uplink) (p : LgwPktRx)
      (payloadEncrypt payloadTxt : Vector (BitVec 8) defaultPayloadSize),
      Carries p (u.frame c devinfo) → MicUnique c devinfo u →
        DecodeRecovers c devinfo u p payloadEncrypt payloadTxt := by
  intro h
  have hp : Carries (LgwPktRx.ofBytes (commandUplink.frame toyCipher toyDevice).bytes) _ :=
    carries_ofBytes (by decide)
  obtain ⟨-, macmsg, d, hparse, hdecode, -⟩ := h toyCipher toyDevice commandUplink _
    (Vector.replicate _ 0#8) (Vector.replicate _ 0#8) hp (micUnique_toyCipher _ _)
  rw [hp.parse] at hparse
  cases hparse
  exact macDecode_noPort toyCipher toyDevice commandUplink hp rfl _ _ d hdecode

end DraginoFwd.Mac
