import DraginoFwd.Lib.CounterMode
import DraginoFwd.Lib.Memory

/-!
# Frame cryptography

Model of `loramac-crypto.c` over an abstract block cipher and CMAC (`Cipher`): the message
integrity code of a frame, and the encryption of a payload by 16-byte blocks with a tail. The
encryption is counter mode (`loRaMacPayloadEncrypt_spec`), so decryption, which is the same
function, undoes it. The index into the buffers has eight bits: from 257 bytes on it wraps, and
the encryption is not LoRaWAN's any more (`not_counterModeAt`).
-/

set_option autoImplicit false

namespace DraginoFwd.Mac

open DraginoFwd.Lib.CounterMode
open DraginoFwd.Lib.Memory

/-- A key of AES-128. -/
abbrev Key : Type := Vector (BitVec 8) 16
/-- A block of AES. -/
abbrev Block : Type := Vector (BitVec 8) 16

/-- AES-128 and its CMAC: a key and a block to a block, a key and a message to a tag. -/
structure Cipher where
  aesEncrypt : Key → Block → Block
  aesCmac : Key → List (BitVec 8) → Block

/-- `UP` -/
def up : BitVec 8 := 0#8
/-- `DOWN` -/
def down : BitVec 8 := 1#8

/-- `MicBlockB0` -/
def micBlockB0 (address : BitVec 32) (dir : BitVec 8) (sequenceCounter : BitVec 32)
    (size : BitVec 16) : List (BitVec 8) :=
  [0x49#8, 0#8, 0#8, 0#8, 0#8, dir,
    byteOf address 0, byteOf address 1, byteOf address 2, byteOf address 3,
    byteOf sequenceCounter 0, byteOf sequenceCounter 1,
    byteOf sequenceCounter 2, byteOf sequenceCounter 3, 0#8, size.setWidth 8]

/-- The MIC of a message: the first four bytes of the tag. -/
def micOf (c : Cipher) (key : Key) (address : BitVec 32) (dir : BitVec 8)
    (sequenceCounter : BitVec 32) (size : BitVec 16) (data : List (BitVec 8)) : BitVec 32 :=
  let mic := c.aesCmac key (micBlockB0 address dir sequenceCounter size ++ data)
  le32 mic[0] mic[1] mic[2] mic[3]

/-- `LoRaMacComputeMic` -/
def loRaMacComputeMic {n : Nat} (c : Cipher) (buffer : Vector (BitVec 8) n) (size : BitVec 16)
    (key : Key) (address : BitVec 32) (dir : BitVec 8) (sequenceCounter : BitVec 32) :
    Except OutOfBounds (BitVec 32) :=
  (slice buffer 0 (size &&& 0xFF#16).toNat).map
    (micOf c key address dir sequenceCounter size)

/-- `aBlock` with the block counter `ctr` -/
def aBlock (address : BitVec 32) (dir : BitVec 8) (sequenceCounter : BitVec 32)
    (ctr : BitVec 16) : Block :=
  #v[0x01#8, 0#8, 0#8, 0#8, 0#8, dir,
    byteOf address 0, byteOf address 1, byteOf address 2, byteOf address 3,
    byteOf sequenceCounter 0, byteOf sequenceCounter 1,
    byteOf sequenceCounter 2, byteOf sequenceCounter 3, 0#8, ctr.setWidth 8]

/-- The loop of `LoRaMacPayloadEncrypt` with its tail: whole blocks, then the remaining bytes. -/
def encryptBlocks {m n : Nat} (sBlock : BitVec 16 → Block) (buffer : Vector (BitVec 8) m)
    (size : Nat) (bufferIndex : BitVec 8) (ctr : BitVec 16) (encBuffer : Vector (BitVec 8) n) :
    Except OutOfBounds (Vector (BitVec 8) n) :=
  if 16 ≤ size then
    (slice buffer bufferIndex.toNat 16).bind fun src =>
      (copy encBuffer bufferIndex.toNat (xorBlock (sBlock ctr) src)).bind fun encBuffer =>
        encryptBlocks sBlock buffer (size - 16) (bufferIndex + 16#8) (ctr + 1#16) encBuffer
  else if 0 < size then
    (slice buffer bufferIndex.toNat size).bind fun src =>
      copy encBuffer bufferIndex.toNat (xorBlock (sBlock ctr) src)
  else .ok encBuffer
termination_by size

/-- `LoRaMacPayloadEncrypt` -/
def loRaMacPayloadEncrypt {m n : Nat} (c : Cipher) (buffer : Vector (BitVec 8) m)
    (size : BitVec 16) (key : Key) (address : BitVec 32) (dir : BitVec 8)
    (sequenceCounter : BitVec 32) (encBuffer : Vector (BitVec 8) n) :
    Except OutOfBounds (Vector (BitVec 8) n) :=
  encryptBlocks (fun ctr => c.aesEncrypt key (aBlock address dir sequenceCounter ctr)) buffer
    size.toNat 0#8 1#16 encBuffer

/-- `LoRaMacPayloadDecrypt` -/
def loRaMacPayloadDecrypt {m n : Nat} (c : Cipher) (buffer : Vector (BitVec 8) m)
    (size : BitVec 16) (key : Key) (address : BitVec 32) (dir : BitVec 8)
    (sequenceCounter : BitVec 32) (decBuffer : Vector (BitVec 8) n) :
    Except OutOfBounds (Vector (BitVec 8) n) :=
  loRaMacPayloadEncrypt c buffer size key address dir sequenceCounter decBuffer

/-! ## Counter mode -/

/-- The keystream of a payload: the encrypted `aBlock`s, counted from one. -/
def payloadStream (c : Cipher) (key : Key) (address : BitVec 32) (dir : BitVec 8)
    (sequenceCounter : BitVec 32) : Nat → BitVec 8 :=
  blockStream fun k =>
    c.aesEncrypt key (aBlock address dir sequenceCounter (BitVec.ofNat 16 (k + 1)))

section Blocks

variable {m n : Nat} (sBlock : BitVec 16 → Block) (buffer : Vector (BitVec 8) m)

/-- Copying a block: at most 16 bytes from byte `16 k` on meet the keystream there. -/
theorem copyBlock_spec (encBuffer : Vector (BitVec 8) n) (k len : Nat) (h16 : len ≤ 16)
    (hm : 16 * k + len ≤ m) (hn : 16 * k + len ≤ n) :
    ∃ enc, ((slice buffer (16 * k) len).bind fun src =>
        copy encBuffer (16 * k) (xorBlock (sBlock (BitVec.ofNat 16 (k + 1))) src)) = .ok enc ∧
      enc.toList = encBuffer.toList.take (16 * k) ++
        xorStream (fun i => blockStream (fun j => sBlock (BitVec.ofNat 16 (j + 1))) (16 * k + i))
          ((buffer.toList.drop (16 * k)).take len) ++
        encBuffer.toList.drop (16 * k + len) := by
  have hlen : ((buffer.toList.drop (16 * k)).take len).length = len := by
    simp only [List.length_take, List.length_drop, Vector.length_toList]
    omega
  have hblock := xorBlock_eq (fun j => sBlock (BitVec.ofNat 16 (j + 1))) k (hlen.le.trans h16)
  have hblockLen := length_xorBlock (b := sBlock (BitVec.ofNat 16 (k + 1))) (hlen.le.trans h16)
  rw [hlen] at hblockLen
  obtain ⟨enc, hcopy, henc⟩ := copy_spec encBuffer (16 * k)
    (xorBlock (sBlock (BitVec.ofNat 16 (k + 1))) ((buffer.toList.drop (16 * k)).take len))
    (by rw [hblockLen]; exact hn)
  refine ⟨enc, ?_, ?_⟩
  · rw [slice_ok buffer (16 * k) len hm]
    exact hcopy
  · rw [henc, hblockLen, hblock]

/-- A whole block is copied before the loop goes on. -/
theorem encryptBlocks_whole (encBuffer : Vector (BitVec 8) n) {size : Nat} (h : 16 ≤ size)
    (bufferIndex : BitVec 8) (ctr : BitVec 16) :
    encryptBlocks sBlock buffer size bufferIndex ctr encBuffer =
      ((slice buffer bufferIndex.toNat (16 : Nat)).bind fun src =>
        copy encBuffer bufferIndex.toNat (xorBlock (sBlock ctr) src)).bind
          (encryptBlocks sBlock buffer (size - 16) (bufferIndex + 16#8) (ctr + 1#16)) := by
  rw [encryptBlocks, if_pos h]
  show (slice buffer bufferIndex.toNat 16).bind _ =
    ((slice buffer bufferIndex.toNat 16).bind _).bind _
  cases slice buffer bufferIndex.toNat 16 with
  | error e => rfl
  | ok src => rfl

/-- `k` blocks done, the loop adds the keystream from byte `16 k` on to the `size` bytes that
remain. The 8-bit buffer index does not wrap before byte 256. -/
theorem encryptBlocks_spec (size : Nat) (bufferIndex : BitVec 8) (ctr : BitVec 16)
    (encBuffer : Vector (BitVec 8) n) (k : Nat) (hctr : ctr = BitVec.ofNat 16 (k + 1))
    (hindex : 0 < size → bufferIndex.toNat = 16 * k) (h256 : 16 * k + size ≤ 256)
    (hm : 16 * k + size ≤ m) (hn : 16 * k + size ≤ n) :
    ∃ enc, encryptBlocks sBlock buffer size bufferIndex ctr encBuffer = .ok enc ∧
      enc.toList = encBuffer.toList.take (16 * k) ++
        xorStream (fun i => blockStream (fun j => sBlock (BitVec.ofNat 16 (j + 1))) (16 * k + i))
          ((buffer.toList.drop (16 * k)).take size) ++
        encBuffer.toList.drop (16 * k + size) := by
  induction size using Nat.strong_induction_on generalizing bufferIndex ctr encBuffer k with
  | _ size ih =>
  subst hctr
  rcases Nat.lt_or_ge size 16 with htail | hwhole
  · rw [encryptBlocks, if_neg (Nat.not_le.2 htail)]
    split
    · next hpos =>
      rw [hindex hpos]
      exact copyBlock_spec sBlock buffer encBuffer k size htail.le hm hn
    · next hzero =>
      obtain rfl := Nat.eq_zero_of_not_pos hzero
      exact ⟨encBuffer, rfl, by simp⟩
  · -- a whole block: its 16 bytes are copied, and the rest is the induction hypothesis
    obtain ⟨enc1, hcopy, henc1⟩ := copyBlock_spec sBlock buffer encBuffer k 16 (Nat.le_refl 16)
      (by omega) (by omega)
    have hi := hindex (Nat.lt_of_lt_of_le (by decide) hwhole)
    obtain ⟨enc, hrest, henc⟩ := ih (size - 16) (by omega) (bufferIndex + 16#8)
      (BitVec.ofNat 16 (k + 1) + 1#16) enc1 (k + 1) (by rw [← BitVec.ofNat_add])
      (fun hpos => by bv_omega) (by omega) (by omega) (by omega)
    refine ⟨enc, ?_, ?_⟩
    · rw [encryptBlocks_whole sBlock buffer encBuffer hwhole, hi, hcopy]
      exact hrest
    · have hfirst : ((buffer.toList.drop (16 * k)).take 16).length = 16 := by
        simp only [List.length_take, List.length_drop, Vector.length_toList]
        omega
      have hsplit : (buffer.toList.drop (16 * k)).take size =
          (buffer.toList.drop (16 * k)).take 16 ++
            (buffer.toList.drop (16 * k + 16)).take (size - 16) := by
        rw [← List.drop_drop, ← List.take_add, Nat.add_sub_cancel' hwhole]
      have hk : 16 * k ≤ encBuffer.toList.length := by
        rw [Vector.length_toList]
        omega
      have hfront := @take_splice _ _ (xorStream
        (fun i => blockStream (fun j => sBlock (BitVec.ofNat 16 (j + 1))) (16 * k + i))
        ((buffer.toList.drop (16 * k)).take 16)) _ hk
      have hback := @drop_splice _ _ (xorStream
        (fun i => blockStream (fun j => sBlock (BitVec.ofNat 16 (j + 1))) (16 * k + i))
        ((buffer.toList.drop (16 * k)).take 16)) _ hk (size - 16)
      rw [length_xorStream, hfirst] at hfront hback
      rw [henc, henc1, Nat.mul_add, Nat.mul_one, hfront, hback, hsplit, xorStream_append, hfirst,
        Nat.add_assoc, Nat.add_sub_cancel' hwhole]
      simp only [List.append_assoc, Nat.add_assoc]

end Blocks

/-- The encryption of up to 256 bytes adds the keystream to them and leaves the rest of the
output. -/
theorem loRaMacPayloadEncrypt_spec {m n : Nat} (c : Cipher) (buffer : Vector (BitVec 8) m)
    (size : BitVec 16) (key : Key) (address : BitVec 32) (dir : BitVec 8)
    (sequenceCounter : BitVec 32) (encBuffer : Vector (BitVec 8) n) (h256 : size.toNat ≤ 256)
    (hm : size.toNat ≤ m) (hn : size.toNat ≤ n) :
    ∃ enc, loRaMacPayloadEncrypt c buffer size key address dir sequenceCounter encBuffer = .ok enc ∧
      enc.toList = xorStream (payloadStream c key address dir sequenceCounter)
        (buffer.toList.take size.toNat) ++ encBuffer.toList.drop size.toNat := by
  obtain ⟨enc, hrun, henc⟩ := encryptBlocks_spec
    (fun ctr => c.aesEncrypt key (aBlock address dir sequenceCounter ctr)) buffer
      size.toNat 0#8 1#16
    encBuffer 0 rfl (fun _ => rfl) (by omega) (by omega) (by omega)
  refine ⟨enc, hrun, ?_⟩
  rw [henc]
  simp [payloadStream]

/-! ## Every size -/

/-- The LoRaWAN block `A_i`: its last byte is the block counter mod 256. -/
def lorawanBlock (address : BitVec 32) (dir : BitVec 8) (sequenceCounter : BitVec 32) (i : Nat) :
    Block :=
  #v[0x01#8, 0#8, 0#8, 0#8, 0#8, dir,
    byteOf address 0, byteOf address 1, byteOf address 2, byteOf address 3,
    byteOf sequenceCounter 0, byteOf sequenceCounter 1,
    byteOf sequenceCounter 2, byteOf sequenceCounter 3, 0#8, BitVec.ofNat 8 i]

/-- The LoRaWAN keystream: byte `k` is byte `k mod 16` of the encrypted `A_{1 + k / 16}`. -/
def lorawanStream (c : Cipher) (key : Key) (address : BitVec 32) (dir : BitVec 8)
    (sequenceCounter : BitVec 32) : Nat → BitVec 8 :=
  blockStream fun k => c.aesEncrypt key (lorawanBlock address dir sequenceCounter (1 + k))

theorem aBlock_eq_lorawanBlock (address : BitVec 32) (dir : BitVec 8)
    (sequenceCounter : BitVec 32) (i : Nat) :
    aBlock address dir sequenceCounter (BitVec.ofNat 16 i) =
      lorawanBlock address dir sequenceCounter i := by
  have hctr : (BitVec.ofNat 16 i).setWidth 8 = BitVec.ofNat 8 i :=
    BitVec.setWidth_ofNat_of_le (by decide) i
  rw [aBlock, lorawanBlock, hctr]

theorem payloadStream_eq_lorawanStream (c : Cipher) (key : Key) (address : BitVec 32)
    (dir : BitVec 8) (sequenceCounter : BitVec 32) :
    payloadStream c key address dir sequenceCounter =
      lorawanStream c key address dir sequenceCounter := by
  simp only [payloadStream, lorawanStream, aBlock_eq_lorawanBlock, Nat.add_comm]

/-- Encrypting the first `size` bytes of a buffer is counter mode, whatever the output held:
`size` bytes are written and byte `k` is the buffer's with byte `k` of the keystream added, a
second encryption gives the buffer back, and a part in front is encrypted alike. -/
structure CounterModeAt {m : Nat} (c : Cipher) (buffer : Vector (BitVec 8) m) (size : BitVec 16)
    (key : Key) (address : BitVec 32) (dir : BitVec 8) (sequenceCounter : BitVec 32) : Prop where
  bytes : ∀ (n : Nat) (encBuffer : Vector (BitVec 8) n), size.toNat ≤ n →
    ∃ enc, loRaMacPayloadEncrypt c buffer size key address dir sequenceCounter encBuffer = .ok enc ∧
      (∀ k, k < size.toNat → enc.toList[k]? = buffer.toList[k]?.map fun b =>
        b ^^^ lorawanStream c key address dir sequenceCounter k) ∧
      ∀ k, size.toNat ≤ k → enc.toList[k]? = encBuffer.toList[k]?
  twice : ∀ (n : Nat) (encBuffer : Vector (BitVec 8) n), size.toNat ≤ n →
    ∃ enc, loRaMacPayloadEncrypt c buffer size key address dir sequenceCounter encBuffer = .ok enc ∧
      ∀ (n' : Nat) (decBuffer : Vector (BitVec 8) n'), size.toNat ≤ n' →
        ∃ dec, loRaMacPayloadEncrypt c enc size key address dir sequenceCounter
          decBuffer = .ok dec ∧
          dec.toList.take size.toNat = buffer.toList.take size.toNat
  front : ∀ (n : Nat) (encBuffer : Vector (BitVec 8) n), size.toNat ≤ n →
    ∃ enc, loRaMacPayloadEncrypt c buffer size key address dir sequenceCounter encBuffer = .ok enc ∧
      ∀ len : BitVec 16, len.toNat ≤ size.toNat → ∀ (n' : Nat) (encFront : Vector (BitVec 8) n'),
        len.toNat ≤ n' → ∃ enc', loRaMacPayloadEncrypt c buffer len key address dir
          sequenceCounter encFront = .ok enc' ∧
          enc'.toList.take len.toNat = enc.toList.take len.toNat

section Sizes

variable {m n : Nat} (c : Cipher) (buffer : Vector (BitVec 8) m) (key : Key) (address : BitVec 32)
  (dir : BitVec 8) (sequenceCounter : BitVec 32)

/-- Up to 256 bytes, the first `size` bytes of the output are those of the buffer with the
keystream added. -/
theorem loRaMacPayloadEncrypt_take {size : BitVec 16} (encBuffer : Vector (BitVec 8) n)
    (h256 : size.toNat ≤ 256) (hm : size.toNat ≤ m) (hn : size.toNat ≤ n) :
    ∃ enc, loRaMacPayloadEncrypt c buffer size key address dir sequenceCounter encBuffer = .ok enc ∧
      enc.toList.take size.toNat = xorStream (lorawanStream c key address dir sequenceCounter)
        (buffer.toList.take size.toNat) ∧
      enc.toList.drop size.toNat = encBuffer.toList.drop size.toNat := by
  obtain ⟨enc, hrun, henc⟩ := loRaMacPayloadEncrypt_spec c buffer size key address dir
    sequenceCounter encBuffer h256 hm hn
  have hlen : (xorStream (payloadStream c key address dir sequenceCounter)
      (buffer.toList.take size.toNat)).length = size.toNat := by
    rw [length_xorStream, List.length_take_of_le (by simpa using hm)]
  refine ⟨enc, hrun, ?_, ?_⟩
  · rw [henc, List.take_left' hlen, payloadStream_eq_lorawanStream]
  · rw [henc, List.drop_left' hlen]

theorem counterModeAt_of_le {size : BitVec 16} (h256 : size.toNat ≤ 256) (hm : size.toNat ≤ m) :
    CounterModeAt c buffer size key address dir sequenceCounter where
  bytes := by
    intro n encBuffer hn
    obtain ⟨enc, hrun, htake, hdrop⟩ := loRaMacPayloadEncrypt_take c buffer key address dir
      sequenceCounter encBuffer h256 hm hn
    refine ⟨enc, hrun, ?_, ?_⟩
    · intro k hk
      have hcell := congrArg (fun l => l[k]?) htake
      simp only [xorStream, List.getElem?_mapIdx] at hcell
      rwa [List.getElem?_take_of_lt hk, List.getElem?_take_of_lt hk] at hcell
    · intro k hk
      have hcell := congrArg (fun l => l[k - size.toNat]?) hdrop
      simp only [List.getElem?_drop] at hcell
      rwa [Nat.add_sub_cancel' hk] at hcell
  twice := by
    intro n encBuffer hn
    obtain ⟨enc, hrun, htake, -⟩ := loRaMacPayloadEncrypt_take c buffer key address dir
      sequenceCounter encBuffer h256 hm hn
    refine ⟨enc, hrun, ?_⟩
    intro n' decBuffer hn'
    obtain ⟨dec, hrun', htake', -⟩ := loRaMacPayloadEncrypt_take c enc key address dir
      sequenceCounter decBuffer h256 hn hn'
    refine ⟨dec, hrun', ?_⟩
    rw [htake', htake, xorStream_xorStream]
  front := by
    intro n encBuffer hn
    obtain ⟨enc, hrun, htake, -⟩ := loRaMacPayloadEncrypt_take c buffer key address dir
      sequenceCounter encBuffer h256 hm hn
    refine ⟨enc, hrun, ?_⟩
    intro len hlen n' encFront hn'
    obtain ⟨enc', hrun', htake', -⟩ := loRaMacPayloadEncrypt_take c buffer key address dir
      sequenceCounter encFront (hlen.trans h256) (hlen.trans hm) hn'
    refine ⟨enc', hrun', ?_⟩
    have hfront := congrArg (List.take len.toNat) htake
    rw [List.take_take, Nat.min_eq_left hlen, take_xorStream, List.take_take,
      Nat.min_eq_left hlen] at hfront
    rw [htake', hfront]

end Sizes

/-! ## The 8-bit buffer index -/

/-- A block at a multiple of 16 below 256 is not copied behind byte 255. -/
theorem copyBlock_beyond {m n : Nat} {buffer : Vector (BitVec 8) m} {b : Block} {index len : Nat}
    {encBuffer enc : Vector (BitVec 8) n} (hindex : index + 16 ≤ 256)
    (h : ((slice buffer index len).bind fun src => copy encBuffer index (xorBlock b src)) = .ok enc)
    {k : Nat} (hk : 256 ≤ k) : enc.toList[k]? = encBuffer.toList[k]? := by
  obtain ⟨src, -, hcopy⟩ := bind_eq_ok.1 h
  have hlen := length_xorBlock_le b src
  exact copy_getElem?_of_le hcopy (by omega)

/-- The buffer index has eight bits, so no byte behind the first 256 is ever written. -/
theorem encryptBlocks_beyond {m n : Nat} (sBlock : BitVec 16 → Block) (buffer : Vector (BitVec 8) m)
    (size : Nat) (bufferIndex : BitVec 8) (ctr : BitVec 16) (encBuffer enc : Vector (BitVec 8) n)
    (h16 : bufferIndex.toNat % 16 = 0)
    (h : encryptBlocks sBlock buffer size bufferIndex ctr encBuffer = .ok enc) {k : Nat}
    (hk : 256 ≤ k) : enc.toList[k]? = encBuffer.toList[k]? := by
  have hindex : bufferIndex.toNat + 16 ≤ 256 := by
    have hlt := bufferIndex.isLt
    omega
  induction size using Nat.strong_induction_on generalizing bufferIndex ctr encBuffer with
  | _ size ih =>
      rcases Nat.lt_or_ge size 16 with htail | hwhole
      · rw [encryptBlocks, if_neg (Nat.not_le.2 htail)] at h
        split at h
        · exact copyBlock_beyond hindex h hk
        · rw [Except.ok.inj h]
      · -- one block is written, and the index it leaves is a multiple of 16 again
        rw [encryptBlocks_whole sBlock buffer encBuffer hwhole] at h
        obtain ⟨enc1, hblock, hrest⟩ := bind_eq_ok.1 h
        have hnext : (bufferIndex + 16#8).toNat % 16 = 0 := by
          rw [BitVec.toNat_add]
          show (bufferIndex.toNat + 16) % 256 % 16 = 0
          omega
        have hnext' : (bufferIndex + 16#8).toNat + 16 ≤ 256 := by
          have hlt := (bufferIndex + 16#8).isLt
          omega
        rw [ih (size - 16) (by omega) _ _ _ hnext hrest hnext', copyBlock_beyond hindex hblock hk]

theorem loRaMacPayloadEncrypt_beyond {m n : Nat} {c : Cipher} {buffer : Vector (BitVec 8) m}
    {size : BitVec 16} {key : Key} {address : BitVec 32} {dir : BitVec 8}
    {sequenceCounter : BitVec 32} {encBuffer enc : Vector (BitVec 8) n}
    (h : loRaMacPayloadEncrypt c buffer size key address dir sequenceCounter encBuffer = .ok enc)
    {k : Nat} (hk : 256 ≤ k) : enc.toList[k]? = encBuffer.toList[k]? :=
  encryptBlocks_beyond _ buffer size.toNat 0#8 1#16 encBuffer enc rfl h hk

/-- A payload of more than 256 bytes: whatever byte 256 of the output held stays there. -/
theorem not_counterModeAt {m : Nat} (c : Cipher) (buffer : Vector (BitVec 8) m) {size : BitVec 16}
    (key : Key) (address : BitVec 32) (dir : BitVec 8) (sequenceCounter : BitVec 32)
    (h256 : 256 < size.toNat) (hm : size.toNat ≤ m) :
    ¬ CounterModeAt c buffer size key address dir sequenceCounter := by
  intro hspec
  -- byte 256 stays what it was, but would have to be the byte of the stream
  have hcell : ∀ old : BitVec 8, some old = (buffer.toList[256]?).map fun b =>
      b ^^^ lorawanStream c key address dir sequenceCounter 256 := by
    intro old
    obtain ⟨enc, hrun, hbytes, -⟩ := hspec.bytes m (Vector.replicate m old) hm
    rw [← hbytes 256 h256, loRaMacPayloadEncrypt_beyond hrun (Nat.le_refl 256)]
    simp [Nat.lt_of_lt_of_le h256 hm]
  have hsame : some 0#8 = some 1#8 := (hcell 0#8).trans (hcell 1#8).symm
  exact absurd hsame (by decide)

/-- `LoRaMacPayloadEncrypt` is LoRaWAN's counter mode at exactly the sizes up to 256. -/
theorem counterModeAt_iff {m : Nat} (c : Cipher) (buffer : Vector (BitVec 8) m) (size : BitVec 16)
    (key : Key) (address : BitVec 32) (dir : BitVec 8) (sequenceCounter : BitVec 32)
    (hm : size.toNat ≤ m) :
    CounterModeAt c buffer size key address dir sequenceCounter ↔ size.toNat ≤ 256 := by
  constructor
  · intro hspec
    by_contra h
    exact not_counterModeAt c buffer key address dir sequenceCounter (Nat.lt_of_not_le h) hm hspec
  · intro h256
    exact counterModeAt_of_le c buffer key address dir sequenceCounter h256 hm

theorem counterModeAt_three :
    CounterModeAt ⟨fun _ b => b, fun _ _ => Vector.replicate 16 0#8⟩ #v[1#8, 2#8, 3#8] 3#16
      (Vector.replicate 16 0#8) 0#32 up 0#32 :=
  (counterModeAt_iff _ #v[1#8, 2#8, 3#8] 3#16 (Vector.replicate 16 0#8) 0#32 up 0#32
    (by decide)).2 (by decide)

/-- 257 zero bytes, with each block its own encryption: byte 256 of the output is not written. -/
theorem counterModeAt_257_false :
    ¬ CounterModeAt ⟨fun _ b => b, fun _ _ => Vector.replicate 16 0#8⟩ (Vector.replicate 257 0#8)
      257#16 (Vector.replicate 16 0#8) 0#32 up 0#32 :=
  not_counterModeAt _ _ _ _ _ _ (by decide) (by decide)

end DraginoFwd.Mac
