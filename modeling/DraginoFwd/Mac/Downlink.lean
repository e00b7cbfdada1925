import DraginoFwd.Mac.Crypto
import DraginoFwd.Mac.Frame

/-!
# Building a downlink frame

`prepareFrame` is `prepare_frame` of `pkt_serv.c`, which writes the frame through an index of eight
bits. For payloads of up to 243 bytes the frame is the one it should be
(`prepareFrame_spec`). From 243 bytes on the frame is too long for the 8-bit length that
`LoRaMacParserData` is given, and the index wraps at 244, so the round trip holds for exactly the
payloads of up to 242 bytes (`downlinkRoundTrip_iff`).
-/

set_option autoImplicit false

namespace DraginoFwd.Mac

open DraginoFwd.Lib.CounterMode
open DraginoFwd.Lib.Memory

/-- `DEFAULT_PAYLOAD_SIZE` -/
abbrev defaultPayloadSize : Nat := 256

/-- The fields of `devinfo_s` that the frames depend on. -/
structure DevInfo where
  devaddr : BitVec 32
  appskey : Key
  nwkskey : Key

/-- The key of a payload: the network key for port 0, else the application key. -/
def payloadKey (devinfo : DevInfo) (fport : BitVec 8) : Key :=
  if fport = 0#8 then devinfo.nwkskey else devinfo.appskey

/-- `hdr.Value` with the frame type in its upper three bits. -/
def mhdrOf (type : BitVec 8) : BitVec 8 := type <<< 5

/-- `fctrl.Value`: `Adr` is set, and `Ack` in an unconfirmed downlink. -/
def fctrlOf (type : BitVec 8) : BitVec 8 :=
  (if type = frameTypeDataUnconfirmedDown then 0x20#8 else 0#8) ||| 0x80#8

/-- `frame[0..8]`, header and port of a downlink. -/
def downHeader (type : BitVec 8) (devinfo : DevInfo) (downcnt : BitVec 32) (fport : BitVec 8) :
    List (BitVec 8) :=
  [mhdrOf type, byteOf devinfo.devaddr 0, byteOf devinfo.devaddr 1, byteOf devinfo.devaddr 2,
    byteOf devinfo.devaddr 3, fctrlOf type, byteOf downcnt 0, byteOf downcnt 1, fport]

/-- `prepare_frame`: the frame and its size. The payload is the array of a `dn_pkt_s`. -/
def prepareFrame (c : Cipher) (type : BitVec 8) (devinfo : DevInfo) (downcnt : BitVec 32)
    (payload : Vector (BitVec 8) 512) (payloadSize : Nat)
    (frame : Vector (BitVec 8) defaultPayloadSize) (fport : BitVec 8) :
    Except OutOfBounds (Vector (BitVec 8) defaultPayloadSize × Nat) := do
  let frame ← copy frame 0 (downHeader type devinfo downcnt fport)
  let index : BitVec 8 := 9#8
  let encryptPayload ← loRaMacPayloadEncrypt c payload (BitVec.ofNat 16 payloadSize)
    (payloadKey devinfo fport) devinfo.devaddr down downcnt (Vector.replicate payloadSize 0#8)
  let frame ← copy frame index.toNat encryptPayload.toList
  let index := index + BitVec.ofNat 8 payloadSize
  let mic ← loRaMacComputeMic c frame (index.setWidth 16) devinfo.nwkskey devinfo.devaddr down
    downcnt
  let frame ← write frame index.toNat (byteOf mic 0)
  let frame ← write frame (index + 1#8).toNat (byteOf mic 1)
  let frame ← write frame (index + 2#8).toNat (byteOf mic 2)
  let frame ← write frame (index + 3#8).toNat (byteOf mic 3)
  .ok (frame, (index + 3#8).toNat + 1)

/-- The encrypted payload of a downlink. -/
def downCipher (c : Cipher) (devinfo : DevInfo) (downcnt : BitVec 32) (fport : BitVec 8)
    (text : List (BitVec 8)) : List (BitVec 8) :=
  xorStream (payloadStream c (payloadKey devinfo fport) devinfo.devaddr down downcnt) text

/-- The unconfirmed downlink that carries `text`. -/
def downFrame (c : Cipher) (devinfo : DevInfo) (downcnt : BitVec 32) (fport : BitVec 8)
    (text : List (BitVec 8)) : DataFrame where
  mhdr := mhdrOf frameTypeDataUnconfirmedDown
  devAddr := devinfo.devaddr
  fctrl := fctrlOf frameTypeDataUnconfirmedDown
  counter := downcnt
  fopts := []
  body := some (fport, downCipher c devinfo downcnt fport text)
  mic := micOf c devinfo.nwkskey devinfo.devaddr down downcnt
    (BitVec.ofNat 16 (9 + text.length))
    (downHeader frameTypeDataUnconfirmedDown devinfo downcnt fport ++
      downCipher c devinfo downcnt fport text)
  isData := by decide
  foptsLength := by decide

theorem downFrame_message (c : Cipher) (devinfo : DevInfo) (downcnt : BitVec 32)
    (fport : BitVec 8) (text : List (BitVec 8)) :
    (downFrame c devinfo downcnt fport text).message =
      downHeader frameTypeDataUnconfirmedDown devinfo downcnt fport ++
        downCipher c devinfo downcnt fport text := rfl

theorem length_downFrame (c : Cipher) (devinfo : DevInfo) (downcnt : BitVec 32)
    (fport : BitVec 8) (text : List (BitVec 8)) :
    (downFrame c devinfo downcnt fport text).bytes.length = 13 + text.length := by
  rw [DataFrame.length_bytes, downFrame_message, List.length_append, downCipher,
    length_xorStream]
  show 9 + text.length + 4 = 13 + text.length
  omega

/-- A MIC over the first `k ≤ 255` bytes of a buffer. -/
theorem loRaMacComputeMic_ok {n : Nat} (c : Cipher) (buffer : Vector (BitVec 8) n) {k : Nat}
    (hk : k ≤ 255) (hn : k ≤ n) (key : Key) (address : BitVec 32) (dir : BitVec 8)
    (sequenceCounter : BitVec 32) :
    loRaMacComputeMic c buffer (BitVec.ofNat 16 k) key address dir sequenceCounter =
      .ok (micOf c key address dir sequenceCounter (BitVec.ofNat 16 k) (buffer.toList.take k)) := by
  have hand : (BitVec.ofNat 16 k &&& 0xFF#16).toNat = k := by
    rw [BitVec.toNat_and, BitVec.toNat_ofNat, Nat.mod_eq_of_lt (by omega)]
    exact (Nat.and_two_pow_sub_one_eq_mod k 8).trans (Nat.mod_eq_of_lt (by omega))
  have hslice := slice_ok buffer 0 k (by omega)
  rw [loRaMacComputeMic, hand, hslice]
  rfl

section PrepareFrame

variable (c : Cipher) (devinfo : DevInfo) (downcnt : BitVec 32) (fport : BitVec 8)
  (payload : Vector (BitVec 8) 512)

/-- The buffer for the encrypted payload holds the cipher text of the frame. -/
theorem loRaMacPayloadEncrypt_down {psize : Nat} (h : psize ≤ 255) :
    ∃ enc : Vector (BitVec 8) psize,
      loRaMacPayloadEncrypt c payload (BitVec.ofNat 16 psize) (payloadKey devinfo fport)
          devinfo.devaddr down downcnt (Vector.replicate psize 0#8) = .ok enc ∧
        enc.toList = downCipher c devinfo downcnt fport (payload.toList.take psize) := by
  have hsize : (BitVec.ofNat 16 psize).toNat = psize := by
    rw [BitVec.toNat_ofNat, Nat.mod_eq_of_lt (by omega)]
  obtain ⟨enc, hencrypt, henc⟩ := loRaMacPayloadEncrypt_spec c payload (BitVec.ofNat 16 psize)
    (payloadKey devinfo fport) devinfo.devaddr down downcnt (Vector.replicate psize 0#8)
    (by omega) (by omega) (by omega)
  refine ⟨enc, hencrypt, ?_⟩
  rw [henc, hsize, downCipher]
  simp

/-- The four writes of the MIC are one copy, as long as the 8-bit index does not wrap. -/
theorem write_micBytes (frame : Vector (BitVec 8) defaultPayloadSize) {index : BitVec 8} {i : Nat}
    (hi : index.toNat = i) (h : i + 4 ≤ 256) (mic : BitVec 32) :
    (do
      let frame ← write frame index.toNat (byteOf mic 0)
      let frame ← write frame (index + 1#8).toNat (byteOf mic 1)
      let frame ← write frame (index + 2#8).toNat (byteOf mic 2)
      let frame ← write frame (index + 3#8).toNat (byteOf mic 3)
      .ok (frame, (index + 3#8).toNat + 1)) =
      copy frame i (micBytes mic) >>= fun frame => Except.ok (frame, i + 4) := by
  have h1 : (index + 1#8).toNat = i + 1 := by bv_omega
  have h2 : (index + 2#8).toNat = i + 1 + 1 := by bv_omega
  have h3 : (index + 3#8).toNat = i + 1 + 1 + 1 := by bv_omega
  have hlt : ∀ k, k < i + 4 → k < defaultPayloadSize := fun k hk => Nat.lt_of_lt_of_le hk h
  rw [hi, h1, h2, h3, micBytes]
  simp only [copy, ok_bind, write_ok _ _ (hlt i (by omega)), write_ok _ _ (hlt (i + 1) (by omega)),
    write_ok _ _ (hlt (i + 1 + 1) (by omega)), write_ok _ _ (hlt (i + 1 + 1 + 1) (by omega))]
  rfl

/-- Up to 243 bytes of payload make the frame they should, at the start of the buffer. -/
theorem prepareFrame_spec (psize : Nat) (frame : Vector (BitVec 8) defaultPayloadSize)
    (h : psize ≤ 243) :
    ∃ frame',
      prepareFrame c frameTypeDataUnconfirmedDown devinfo downcnt payload psize frame fport =
        .ok (frame', 13 + psize) ∧
      ∃ rest, frame'.toList =
        (downFrame c devinfo downcnt fport (payload.toList.take psize)).bytes ++ rest := by
  obtain ⟨enc, hencrypt, henc⟩ :=
    loRaMacPayloadEncrypt_down c devinfo downcnt fport payload (h.trans (by decide))
  generalize hhdr : downHeader frameTypeDataUnconfirmedDown devinfo downcnt fport = hdr
  generalize htext : payload.toList.take psize = text at henc ⊢
  have hhdrLen : hdr.length = 9 := by rw [← hhdr]; rfl
  have hencLen : enc.toList.length = psize := Vector.length_toList
  have htextLen : text.length = psize := by
    rw [← htext, List.length_take, Vector.length_toList]
    omega
  -- header, payload and MIC, each written behind the former
  generalize hmic : micOf c devinfo.nwkskey devinfo.devaddr down downcnt
    (BitVec.ofNat 16 (9 + psize)) (hdr ++ enc.toList) = mic
  have h256 : defaultPayloadSize = 256 := rfl
  have hmicLen : (micBytes mic).length = 4 := rfl
  have hlen2 : (hdr ++ enc.toList).length = 9 + psize := by
    rw [List.length_append, hhdrLen, hencLen]
  have hlen3 : (hdr ++ enc.toList ++ micBytes mic).length = 13 + psize := by
    rw [List.length_append, hlen2, hmicLen]
    omega
  obtain ⟨frame1, hcopy1, -⟩ := copy_spec frame 0 hdr (by omega)
  obtain ⟨frame2, hcopy2, hframe2⟩ := copy_spec frame 0 (hdr ++ enc.toList) (by omega)
  obtain ⟨frame3, hcopy3, hframe3⟩ :=
    copy_spec frame 0 (hdr ++ enc.toList ++ micBytes mic) (by omega)
  rw [copy_append_ok hcopy2, hlen2, Nat.zero_add] at hcopy3
  rw [copy_append_ok hcopy1, hhdrLen, Nat.zero_add] at hcopy2
  have hindex : (9#8 + BitVec.ofNat 8 psize).toNat = 9 + psize := by bv_omega
  have hindex16 : (9#8 + BitVec.ofNat 8 psize).setWidth 16 = BitVec.ofNat 16 (9 + psize) := by
    bv_omega
  have hmicRun := loRaMacComputeMic_ok c frame2 (k := 9 + psize) (by omega) (by omega)
    devinfo.nwkskey devinfo.devaddr down downcnt
  rw [hframe2, List.take_zero, List.nil_append, List.take_left' hlen2, hmic] at hmicRun
  refine ⟨frame3, ?_, ?_⟩
  · have h9 : (9#8).toNat = 9 := rfl
    simp only [prepareFrame, hhdr, hcopy1, ok_bind, hencrypt, h9, hcopy2, hindex16, hmicRun]
    rw [write_micBytes frame2 hindex (by omega), hcopy3, ok_bind,
      show 9 + psize + 4 = 13 + psize by omega]
  · refine ⟨frame.toList.drop (0 + (hdr ++ enc.toList ++ micBytes mic).length), ?_⟩
    rw [hframe3, List.take_zero, List.nil_append, DataFrame.bytes, downFrame_message, hhdr, ← henc]
    show hdr ++ enc.toList ++ micBytes mic ++ _ = hdr ++ enc.toList ++ micBytes _ ++ _
    congr 3
    rw [← hmic, ← hhdr, henc, ← htextLen]
    rfl

end PrepareFrame

/-- The size of a frame comes out of an 8-bit index. -/
theorem prepareFrame_size_le {c : Cipher} {type : BitVec 8} {devinfo : DevInfo}
    {downcnt : BitVec 32} {payload : Vector (BitVec 8) 512} {psize : Nat}
    {frame frame' : Vector (BitVec 8) defaultPayloadSize} {fport : BitVec 8} {size : Nat}
    (h : prepareFrame c type devinfo downcnt payload psize frame fport = .ok (frame', size)) :
    size ≤ 256 := by
  unfold prepareFrame at h
  obtain ⟨frame1, -, h⟩ := bind_eq_ok.1 h
  obtain ⟨enc, -, h⟩ := bind_eq_ok.1 h
  obtain ⟨frame2, -, h⟩ := bind_eq_ok.1 h
  obtain ⟨mic, -, h⟩ := bind_eq_ok.1 h
  obtain ⟨frame3, -, h⟩ := bind_eq_ok.1 h
  obtain ⟨frame4, -, h⟩ := bind_eq_ok.1 h
  obtain ⟨frame5, -, h⟩ := bind_eq_ok.1 h
  obtain ⟨frame6, -, h⟩ := bind_eq_ok.1 h
  cases h
  exact (9#8 + BitVec.ofNat 8 psize + 3#8).isLt

/-- A MIC over any length is taken of at most 255 bytes. -/
theorem loRaMacComputeMic_isOk {n : Nat} (c : Cipher) (buffer : Vector (BitVec 8) n) (hn : 255 ≤ n)
    (size : BitVec 16) (key : Key) (address : BitVec 32) (dir : BitVec 8)
    (sequenceCounter : BitVec 32) :
    ∃ mic, loRaMacComputeMic c buffer size key address dir sequenceCounter = .ok mic := by
  have hand : (size &&& 0xFF#16).toNat ≤ 255 := by
    rw [BitVec.toNat_and]
    exact Nat.and_le_right
  have hslice := slice_ok buffer 0 (size &&& 0xFF#16).toNat (by omega)
  rw [loRaMacComputeMic, hslice]
  exact ⟨_, rfl⟩

/-- The frame stays inside its array up to a payload of 247 bytes. -/
theorem prepareFrame_isOk_iff (c : Cipher) (type : BitVec 8) (devinfo : DevInfo)
    (downcnt : BitVec 32) (payload : Vector (BitVec 8) 512) (psize : BitVec 8)
    (frame : Vector (BitVec 8) defaultPayloadSize) (fport : BitVec 8) :
    (∃ r, prepareFrame c type devinfo downcnt payload psize.toNat frame fport = .ok r) ↔
      psize.toNat ≤ 247 := by
  have h256 : defaultPayloadSize = 256 := rfl
  have hpsize := psize.isLt
  have hhdrLen : (downHeader type devinfo downcnt fport).length = 9 := rfl
  obtain ⟨frame1, hcopy1, -⟩ := copy_spec frame 0 (downHeader type devinfo downcnt fport) (by omega)
  obtain ⟨enc, hencrypt, -⟩ :=
    loRaMacPayloadEncrypt_down c devinfo downcnt fport payload (Nat.le_of_lt_succ hpsize)
  have hencLen : enc.toList.length = psize.toNat := Vector.length_toList
  have h9 : (9#8).toNat = 9 := rfl
  simp only [prepareFrame, hcopy1, ok_bind, hencrypt, h9]
  constructor
  · rintro ⟨r, hr⟩
    by_contra hlong
    have hne : enc.toList ≠ [] := by
      intro hnil
      rw [hnil, List.length_nil] at hencLen
      omega
    obtain ⟨e, herr⟩ := copy_error frame1 9 enc.toList hne (by omega)
    rw [herr] at hr
    cases hr
  · intro hshort
    obtain ⟨frame2, hcopy2, -⟩ := copy_spec frame1 9 enc.toList (by omega)
    obtain ⟨mic, hmic⟩ := loRaMacComputeMic_isOk c frame2 (by omega)
      ((9#8 + BitVec.ofNat 8 psize.toNat).setWidth 16) devinfo.nwkskey devinfo.devaddr down downcnt
    have hlt : ∀ i : BitVec 8, i.toNat < defaultPayloadSize := fun i => i.isLt
    rw [hcopy2, ok_bind, hmic]
    simp only [ok_bind, write_ok _ _ (hlt _)]
    exact ⟨_, rfl⟩

/-- With the length 0 that 256 becomes in eight bits, the parser looks for the MIC of a data frame
before the buffer. -/
theorem loRaMacParserData_zero {n : Nat} {buffer : Vector (BitVec 8) n} (f : DataFrame)
    {rest : List (BitVec 8)} (hbuf : buffer.toList = f.bytes ++ rest) :
    ∀ r, loRaMacParserData buffer 0#8 ≠ .ok r := by
  intro r h
  have h0 : read buffer 0 = .ok f.mhdr := read_ok (i := 0) hbuf rfl
  have hdata : ¬ (mType f.mhdr = frameTypeJoinAccept ∨ mType f.mhdr = frameTypeJoinReq) :=
    not_or.2 f.isData
  have hmic : ∀ m, parseMic buffer 0#8 ≠ .ok m := by
    intro m hm
    unfold parseMic at hm
    rw [read_neg buffer (i := ((0#8).toNat : Int) - (loramacMicFieldSize : Nat)) (by decide)] at hm
    cases hm
  rw [loRaMacParserData, h0, ok_bind, if_neg hdata] at h
  obtain ⟨a0, -, h⟩ := bind_eq_ok.1 h
  obtain ⟨a1, -, h⟩ := bind_eq_ok.1 h
  obtain ⟨a2, -, h⟩ := bind_eq_ok.1 h
  obtain ⟨a3, -, h⟩ := bind_eq_ok.1 h
  obtain ⟨fctrl, -, h⟩ := bind_eq_ok.1 h
  obtain ⟨c0, -, h⟩ := bind_eq_ok.1 h
  obtain ⟨c1, -, h⟩ := bind_eq_ok.1 h
  rw [if_pos (fOptsLen_le fctrl)] at h
  obtain ⟨fopts, -, h⟩ := bind_eq_ok.1 h
  obtain ⟨body, -, h⟩ := bind_eq_ok.1 h
  obtain ⟨mic, hm, -⟩ := bind_eq_ok.1 h
  exact hmic mic hm

/-- The round trip of a downlink: the frame is 13 bytes longer than the payload and written inside
its array, the parser reads back what went in, the MIC is that of the frame before it, and the
payload decrypts to the text. -/
def DownlinkRoundTrip (c : Cipher) (devinfo : DevInfo) (downcnt : BitVec 32) (fport : BitVec 8)
    (payload : Vector (BitVec 8) 512) (psize : BitVec 8)
    (frame : Vector (BitVec 8) defaultPayloadSize) : Prop :=
  ∃ frame' msg,
    prepareFrame c frameTypeDataUnconfirmedDown devinfo downcnt payload psize.toNat frame fport =
        .ok (frame', 13 + psize.toNat) ∧
    loRaMacParserData frame' (BitVec.ofNat 8 (13 + psize.toNat)) = .ok (.success, msg) ∧
    msg.devAddr = devinfo.devaddr ∧ fOptsLen msg.fctrl = 0#8 ∧ msg.fcnt = downcnt.setWidth 16 ∧
    msg.fport = fport ∧ msg.frmPayloadSize = psize ∧
    loRaMacComputeMic c frame' (BitVec.ofNat 16 (9 + psize.toNat)) devinfo.nwkskey devinfo.devaddr
        down downcnt = .ok msg.mic ∧
    ∃ src dec : Vector (BitVec 8) psize.toNat,
      slice frame' msg.frmPayload psize.toNat = .ok src.toList ∧
      loRaMacPayloadDecrypt c src (psize.setWidth 16) (payloadKey devinfo msg.fport) devinfo.devaddr
        down downcnt (Vector.replicate psize.toNat 0#8) = .ok dec ∧
      dec.toList = payload.toList.take psize.toNat

/-- The cipher text of a frame decrypts to the text. -/
theorem decrypt_downCipher (c : Cipher) (devinfo : DevInfo) (downcnt : BitVec 32)
    (fport : BitVec 8) {psize : BitVec 8} {text : List (BitVec 8)}
    (htext : text.length = psize.toNat) :
    ∃ src dec : Vector (BitVec 8) psize.toNat,
      src.toList = downCipher c devinfo downcnt fport text ∧
      loRaMacPayloadDecrypt c src (psize.setWidth 16) (payloadKey devinfo fport) devinfo.devaddr
        down downcnt (Vector.replicate psize.toNat 0#8) = .ok dec ∧
      dec.toList = text := by
  have hlen : (downCipher c devinfo downcnt fport text).length = psize.toNat := by
    rw [downCipher, length_xorStream, htext]
  let src : Vector (BitVec 8) psize.toNat :=
    ⟨(downCipher c devinfo downcnt fport text).toArray, by simpa using hlen⟩
  have hsrc : src.toList = downCipher c devinfo downcnt fport text := rfl
  have hsize : (psize.setWidth 16).toNat = psize.toNat := by bv_omega
  have hlt := psize.isLt
  obtain ⟨dec, hrun, hdec⟩ := loRaMacPayloadEncrypt_spec c src (psize.setWidth 16)
    (payloadKey devinfo fport) devinfo.devaddr down downcnt (Vector.replicate psize.toNat 0#8)
    (by omega) (by omega) (by omega)
  refine ⟨src, dec, hsrc, hrun, ?_⟩
  rw [hdec, hsize, hsrc, List.take_of_length_le hlen.le, downCipher, xorStream_xorStream]
  simp

section Buffer

variable {c : Cipher} {devinfo : DevInfo} {downcnt : BitVec 32} {fport : BitVec 8}
  {text rest : List (BitVec 8)} {n : Nat} {buffer : Vector (BitVec 8) n}

/-- The MIC of a downlink in a buffer is the one over the bytes before it. -/
theorem loRaMacComputeMic_downFrame
    (hbuffer : buffer.toList = (downFrame c devinfo downcnt fport text).bytes ++ rest)
    (h : 9 + text.length ≤ 255) :
    loRaMacComputeMic c buffer (BitVec.ofNat 16 (9 + text.length)) devinfo.nwkskey devinfo.devaddr
      down downcnt = .ok (downFrame c devinfo downcnt fport text).mic := by
  have hlen := congrArg List.length hbuffer
  rw [Vector.length_toList, List.length_append, length_downFrame] at hlen
  have hmessage : (downFrame c devinfo downcnt fport text).message.length = 9 + text.length := by
    have hbytes := (downFrame c devinfo downcnt fport text).length_bytes
    rw [length_downFrame] at hbytes
    omega
  rw [loRaMacComputeMic_ok c buffer h (by omega), hbuffer, DataFrame.bytes, List.append_assoc,
    List.take_left' hmessage, downFrame_message]
  rfl

/-- The cipher text stands behind the header and the port. -/
theorem slice_downFrame
    (hbuffer : buffer.toList = (downFrame c devinfo downcnt fport text).bytes ++ rest) :
    slice buffer 9 text.length = .ok (downCipher c devinfo downcnt fport text) := by
  have hlen := congrArg List.length hbuffer
  rw [Vector.length_toList, List.length_append, length_downFrame] at hlen
  have hheader : (downHeader frameTypeDataUnconfirmedDown devinfo downcnt fport).length = 9 := rfl
  have hcipher : (downCipher c devinfo downcnt fport text).length = text.length := by
    rw [downCipher, length_xorStream]
  rw [slice_ok _ _ _ (by omega), hbuffer, DataFrame.bytes, downFrame_message, List.append_assoc,
    List.append_assoc, List.drop_left' hheader, List.take_left' hcipher]

end Buffer

/-- The round trip holds for exactly the payloads of at most 242 bytes. -/
theorem downlinkRoundTrip_iff (c : Cipher) (devinfo : DevInfo) (downcnt : BitVec 32)
    (fport : BitVec 8) (payload : Vector (BitVec 8) 512) (psize : BitVec 8)
    (frame : Vector (BitVec 8) defaultPayloadSize) :
    DownlinkRoundTrip c devinfo downcnt fport payload psize frame ↔ psize.toNat ≤ 242 := by
  have htextLen : (payload.toList.take psize.toNat).length = psize.toNat := by
    have hlt := psize.isLt
    rw [List.length_take, Vector.length_toList]
    omega
  constructor
  · rintro ⟨frame', msg, hbuild, hparse, -⟩
    have hsize := prepareFrame_size_le hbuild
    by_contra hlong
    -- the size of 256 is left, and its low eight bits are zero
    have h243 : psize.toNat = 243 := by omega
    obtain ⟨frame2, hbuild2, rest, hlist⟩ := prepareFrame_spec c devinfo downcnt fport payload
      psize.toNat frame (by omega)
    rw [hbuild2] at hbuild
    cases hbuild
    rw [h243] at hparse
    exact loRaMacParserData_zero _ hlist _ hparse
  · intro hshort
    obtain ⟨frame', hbuild, rest, hlist⟩ := prepareFrame_spec c devinfo downcnt fport payload
      psize.toNat frame (by omega)
    generalize htext : payload.toList.take psize.toNat = text at hlist htextLen
    have hparse := loRaMacParserData_bytes (downFrame c devinfo downcnt fport text) hlist (by
      rw [length_downFrame, htextLen]
      omega)
    rw [length_downFrame, htextLen] at hparse
    obtain ⟨src, dec, hsrc, hdecrypt, hdec⟩ :=
      decrypt_downCipher c devinfo downcnt fport htextLen
    have hmic := loRaMacComputeMic_downFrame hlist (by omega)
    have hslice := slice_downFrame hlist
    rw [htextLen] at hmic
    rw [htextLen, ← hsrc] at hslice
    have hopts : fOptsLen (fctrlOf frameTypeDataUnconfirmedDown) = 0#8 := by decide
    refine ⟨frame', _, hbuild, hparse, rfl, hopts, rfl, rfl, ?_, hmic, src, dec, hslice, hdecrypt,
      hdec.trans htext.symm⟩
    show BitVec.ofNat 8 (downCipher c devinfo downcnt fport text).length = psize
    rw [downCipher, length_xorStream, htextLen]
    simp

/-- A cipher for runs: the sum of key and block, and the bytes of a message from the tenth on, which
are those of the counter. -/
def toyCipher : Cipher where
  aesEncrypt key block := Vector.zipWith (fun x y => x ^^^ y) key block
  aesCmac _ message := Vector.ofFn fun i => message.getD (10 + i) 0#8

/-- A payload of 243 bytes: the frame has 256 bytes, and the parser is given the length 0. -/
theorem not_downlinkRoundTrip_243 :
    ¬ ∀ (c : Cipher) (devinfo : DevInfo) (downcnt : BitVec 32) (fport : BitVec 8)
      (payload : Vector (BitVec 8) 512) (psize : BitVec 8),
      DownlinkRoundTrip c devinfo downcnt fport payload psize (Vector.replicate _ 0#8) := by
  intro h
  obtain ⟨frame', msg, hbuild, hparse, -⟩ := h toyCipher
    ⟨0x26011234#32, Vector.replicate 16 1#8, Vector.replicate 16 2#8⟩ 1#32 2#8
    (Vector.replicate 512 0x41#8) 243#8
  obtain ⟨frame2, hbuild2, rest, hlist⟩ := prepareFrame_spec toyCipher
    ⟨0x26011234#32, Vector.replicate 16 1#8, Vector.replicate 16 2#8⟩ 1#32 2#8
    (Vector.replicate 512 0x41#8) 243 (Vector.replicate _ 0#8) le_rfl
  have h243 : (243#8).toNat = 243 := rfl
  rw [h243] at hbuild hparse
  rw [hbuild2] at hbuild
  cases hbuild
  exact loRaMacParserData_zero _ hlist _ hparse

end DraginoFwd.Mac
