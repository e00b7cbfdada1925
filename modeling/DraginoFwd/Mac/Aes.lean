import DraginoFwd.Lib.Memory
import DraginoFwd.Lib.Rijndael
import DraginoFwd.Mac.Crypto

/-!
# The block cipher

Model of `aes.c` as it is compiled here: with tables, and with a key schedule that is computed in
front. Substitution, rotation and mixing of the columns are one step each way, on the sixteen bytes
of a block. A block is a state of `Lib.Rijndael`, column by column, and on it the code is its cipher
for the words of the schedule (`aesEncrypt_eq`, `aesDecrypt_eq`), whose words `aes_set_key` expands
from the key (`aesSetKey_spec`).
-/

set_option autoImplicit false

namespace DraginoFwd.Mac

open DraginoFwd.Lib.BinaryPoly
open DraginoFwd.Lib.Memory
open DraginoFwd.Lib.Rijndael

/-! ## Tables -/

set_option maxRecDepth 4000 in
/-- `sb_data` -/
def sbData : Vector (BitVec 8) 256 := #v[
    0x63#8, 0x7c#8, 0x77#8, 0x7b#8, 0xf2#8, 0x6b#8, 0x6f#8, 0xc5#8, 0x30#8, 0x01#8, 0x67#8, 0x2b#8,
    0xfe#8, 0xd7#8, 0xab#8, 0x76#8, 0xca#8, 0x82#8, 0xc9#8, 0x7d#8, 0xfa#8, 0x59#8, 0x47#8, 0xf0#8,
    0xad#8, 0xd4#8, 0xa2#8, 0xaf#8, 0x9c#8, 0xa4#8, 0x72#8, 0xc0#8, 0xb7#8, 0xfd#8, 0x93#8, 0x26#8,
    0x36#8, 0x3f#8, 0xf7#8, 0xcc#8, 0x34#8, 0xa5#8, 0xe5#8, 0xf1#8, 0x71#8, 0xd8#8, 0x31#8, 0x15#8,
    0x04#8, 0xc7#8, 0x23#8, 0xc3#8, 0x18#8, 0x96#8, 0x05#8, 0x9a#8, 0x07#8, 0x12#8, 0x80#8, 0xe2#8,
    0xeb#8, 0x27#8, 0xb2#8, 0x75#8, 0x09#8, 0x83#8, 0x2c#8, 0x1a#8, 0x1b#8, 0x6e#8, 0x5a#8, 0xa0#8,
    0x52#8, 0x3b#8, 0xd6#8, 0xb3#8, 0x29#8, 0xe3#8, 0x2f#8, 0x84#8, 0x53#8, 0xd1#8, 0x00#8, 0xed#8,
    0x20#8, 0xfc#8, 0xb1#8, 0x5b#8, 0x6a#8, 0xcb#8, 0xbe#8, 0x39#8, 0x4a#8, 0x4c#8, 0x58#8, 0xcf#8,
    0xd0#8, 0xef#8, 0xaa#8, 0xfb#8, 0x43#8, 0x4d#8, 0x33#8, 0x85#8, 0x45#8, 0xf9#8, 0x02#8, 0x7f#8,
    0x50#8, 0x3c#8, 0x9f#8, 0xa8#8, 0x51#8, 0xa3#8, 0x40#8, 0x8f#8, 0x92#8, 0x9d#8, 0x38#8, 0xf5#8,
    0xbc#8, 0xb6#8, 0xda#8, 0x21#8, 0x10#8, 0xff#8, 0xf3#8, 0xd2#8, 0xcd#8, 0x0c#8, 0x13#8, 0xec#8,
    0x5f#8, 0x97#8, 0x44#8, 0x17#8, 0xc4#8, 0xa7#8, 0x7e#8, 0x3d#8, 0x64#8, 0x5d#8, 0x19#8, 0x73#8,
    0x60#8, 0x81#8, 0x4f#8, 0xdc#8, 0x22#8, 0x2a#8, 0x90#8, 0x88#8, 0x46#8, 0xee#8, 0xb8#8, 0x14#8,
    0xde#8, 0x5e#8, 0x0b#8, 0xdb#8, 0xe0#8, 0x32#8, 0x3a#8, 0x0a#8, 0x49#8, 0x06#8, 0x24#8, 0x5c#8,
    0xc2#8, 0xd3#8, 0xac#8, 0x62#8, 0x91#8, 0x95#8, 0xe4#8, 0x79#8, 0xe7#8, 0xc8#8, 0x37#8, 0x6d#8,
    0x8d#8, 0xd5#8, 0x4e#8, 0xa9#8, 0x6c#8, 0x56#8, 0xf4#8, 0xea#8, 0x65#8, 0x7a#8, 0xae#8, 0x08#8,
    0xba#8, 0x78#8, 0x25#8, 0x2e#8, 0x1c#8, 0xa6#8, 0xb4#8, 0xc6#8, 0xe8#8, 0xdd#8, 0x74#8, 0x1f#8,
    0x4b#8, 0xbd#8, 0x8b#8, 0x8a#8, 0x70#8, 0x3e#8, 0xb5#8, 0x66#8, 0x48#8, 0x03#8, 0xf6#8, 0x0e#8,
    0x61#8, 0x35#8, 0x57#8, 0xb9#8, 0x86#8, 0xc1#8, 0x1d#8, 0x9e#8, 0xe1#8, 0xf8#8, 0x98#8, 0x11#8,
    0x69#8, 0xd9#8, 0x8e#8, 0x94#8, 0x9b#8, 0x1e#8, 0x87#8, 0xe9#8, 0xce#8, 0x55#8, 0x28#8, 0xdf#8,
    0x8c#8, 0xa1#8, 0x89#8, 0x0d#8, 0xbf#8, 0xe6#8, 0x42#8, 0x68#8, 0x41#8, 0x99#8, 0x2d#8, 0x0f#8,
    0xb0#8, 0x54#8, 0xbb#8, 0x16#8]

set_option maxRecDepth 4000 in
/-- `isb_data` -/
def isbData : Vector (BitVec 8) 256 := #v[
    0x52#8, 0x09#8, 0x6a#8, 0xd5#8, 0x30#8, 0x36#8, 0xa5#8, 0x38#8, 0xbf#8, 0x40#8, 0xa3#8, 0x9e#8,
    0x81#8, 0xf3#8, 0xd7#8, 0xfb#8, 0x7c#8, 0xe3#8, 0x39#8, 0x82#8, 0x9b#8, 0x2f#8, 0xff#8, 0x87#8,
    0x34#8, 0x8e#8, 0x43#8, 0x44#8, 0xc4#8, 0xde#8, 0xe9#8, 0xcb#8, 0x54#8, 0x7b#8, 0x94#8, 0x32#8,
    0xa6#8, 0xc2#8, 0x23#8, 0x3d#8, 0xee#8, 0x4c#8, 0x95#8, 0x0b#8, 0x42#8, 0xfa#8, 0xc3#8, 0x4e#8,
    0x08#8, 0x2e#8, 0xa1#8, 0x66#8, 0x28#8, 0xd9#8, 0x24#8, 0xb2#8, 0x76#8, 0x5b#8, 0xa2#8, 0x49#8,
    0x6d#8, 0x8b#8, 0xd1#8, 0x25#8, 0x72#8, 0xf8#8, 0xf6#8, 0x64#8, 0x86#8, 0x68#8, 0x98#8, 0x16#8,
    0xd4#8, 0xa4#8, 0x5c#8, 0xcc#8, 0x5d#8, 0x65#8, 0xb6#8, 0x92#8, 0x6c#8, 0x70#8, 0x48#8, 0x50#8,
    0xfd#8, 0xed#8, 0xb9#8, 0xda#8, 0x5e#8, 0x15#8, 0x46#8, 0x57#8, 0xa7#8, 0x8d#8, 0x9d#8, 0x84#8,
    0x90#8, 0xd8#8, 0xab#8, 0x00#8, 0x8c#8, 0xbc#8, 0xd3#8, 0x0a#8, 0xf7#8, 0xe4#8, 0x58#8, 0x05#8,
    0xb8#8, 0xb3#8, 0x45#8, 0x06#8, 0xd0#8, 0x2c#8, 0x1e#8, 0x8f#8, 0xca#8, 0x3f#8, 0x0f#8, 0x02#8,
    0xc1#8, 0xaf#8, 0xbd#8, 0x03#8, 0x01#8, 0x13#8, 0x8a#8, 0x6b#8, 0x3a#8, 0x91#8, 0x11#8, 0x41#8,
    0x4f#8, 0x67#8, 0xdc#8, 0xea#8, 0x97#8, 0xf2#8, 0xcf#8, 0xce#8, 0xf0#8, 0xb4#8, 0xe6#8, 0x73#8,
    0x96#8, 0xac#8, 0x74#8, 0x22#8, 0xe7#8, 0xad#8, 0x35#8, 0x85#8, 0xe2#8, 0xf9#8, 0x37#8, 0xe8#8,
    0x1c#8, 0x75#8, 0xdf#8, 0x6e#8, 0x47#8, 0xf1#8, 0x1a#8, 0x71#8, 0x1d#8, 0x29#8, 0xc5#8, 0x89#8,
    0x6f#8, 0xb7#8, 0x62#8, 0x0e#8, 0xaa#8, 0x18#8, 0xbe#8, 0x1b#8, 0xfc#8, 0x56#8, 0x3e#8, 0x4b#8,
    0xc6#8, 0xd2#8, 0x79#8, 0x20#8, 0x9a#8, 0xdb#8, 0xc0#8, 0xfe#8, 0x78#8, 0xcd#8, 0x5a#8, 0xf4#8,
    0x1f#8, 0xdd#8, 0xa8#8, 0x33#8, 0x88#8, 0x07#8, 0xc7#8, 0x31#8, 0xb1#8, 0x12#8, 0x10#8, 0x59#8,
    0x27#8, 0x80#8, 0xec#8, 0x5f#8, 0x60#8, 0x51#8, 0x7f#8, 0xa9#8, 0x19#8, 0xb5#8, 0x4a#8, 0x0d#8,
    0x2d#8, 0xe5#8, 0x7a#8, 0x9f#8, 0x93#8, 0xc9#8, 0x9c#8, 0xef#8, 0xa0#8, 0xe0#8, 0x3b#8, 0x4d#8,
    0xae#8, 0x2a#8, 0xf5#8, 0xb0#8, 0xc8#8, 0xeb#8, 0xbb#8, 0x3c#8, 0x83#8, 0x53#8, 0x99#8, 0x61#8,
    0x17#8, 0x2b#8, 0x04#8, 0x7e#8, 0xba#8, 0x77#8, 0xd6#8, 0x26#8, 0xe1#8, 0x69#8, 0x14#8, 0x63#8,
    0x55#8, 0x21#8, 0x0c#8, 0x7d#8]

/-- `mm_data` -/
def mmData : Vector (BitVec 8) 256 := Vector.ofFn fun i => BitVec.ofNat 8 i.val

/-- `WPOLY` -/
def wpoly : BitVec 32 := 0x11B#32

/-- `f2`, which is computed as an `int`, as `f4` and `f8` are -/
def f2 (x : BitVec 32) : BitVec 32 := (x <<< 1) ^^^ (((x >>> 7) &&& 1#32) * wpoly)
/-- `f4` -/
def f4 (x : BitVec 32) : BitVec 32 :=
  (x <<< 2) ^^^ (((x >>> 6) &&& 1#32) * wpoly) ^^^ (((x >>> 6) &&& 2#32) * wpoly)
/-- `f8` -/
def f8 (x : BitVec 32) : BitVec 32 :=
  (x <<< 3) ^^^ (((x >>> 5) &&& 1#32) * wpoly) ^^^ (((x >>> 5) &&& 2#32) * wpoly) ^^^
    (((x >>> 5) &&& 4#32) * wpoly)

/-- `f3` -/
def f3 (x : BitVec 32) : BitVec 32 := f2 x ^^^ x
/-- `f9` -/
def f9 (x : BitVec 32) : BitVec 32 := f8 x ^^^ x
/-- `fb` -/
def fb (x : BitVec 32) : BitVec 32 := f8 x ^^^ f2 x ^^^ x
/-- `fd` -/
def fd (x : BitVec 32) : BitVec 32 := f8 x ^^^ f4 x ^^^ x
/-- `fe` -/
def fe (x : BitVec 32) : BitVec 32 := f8 x ^^^ f4 x ^^^ f2 x

/-- A table of bytes with a function of each of the data. -/
def table (f : BitVec 32 → BitVec 32) (data : Vector (BitVec 8) 256) : Vector (BitVec 8) 256 :=
  data.map fun x => (f (x.setWidth 32)).setWidth 8

/-- `sbox` -/
def sbox : Vector (BitVec 8) 256 := table id sbData
/-- `isbox` -/
def isbox : Vector (BitVec 8) 256 := table id isbData
/-- `gfm2_sbox` -/
def gfm2Sbox : Vector (BitVec 8) 256 := table f2 sbData
/-- `gfm3_sbox` -/
def gfm3Sbox : Vector (BitVec 8) 256 := table f3 sbData

/-- `gfmul_9` -/
def gfmul9 : Vector (BitVec 8) 256 := table f9 mmData
/-- `gfmul_b` -/
def gfmulB : Vector (BitVec 8) 256 := table fb mmData
/-- `gfmul_d` -/
def gfmulD : Vector (BitVec 8) 256 := table fd mmData
/-- `gfmul_e` -/
def gfmulE : Vector (BitVec 8) 256 := table fe mmData

/-- The entry of a table. -/
def entry (t : Vector (BitVec 8) 256) (x : BitVec 8) : BitVec 8 :=
  have h : x.toNat < 256 := x.isLt
  t[x.toNat]

/-- `s_box` -/
def sBox (x : BitVec 8) : BitVec 8 := entry sbox x
/-- `is_box` -/
def isBox (x : BitVec 8) : BitVec 8 := entry isbox x

/-- `gfm2_sb` -/
def gfm2Sb (x : BitVec 8) : BitVec 8 := entry gfm2Sbox x
/-- `gfm3_sb` -/
def gfm3Sb (x : BitVec 8) : BitVec 8 := entry gfm3Sbox x

/-- `gfm_9` -/
def gfm9 (x : BitVec 8) : BitVec 8 := entry gfmul9 x
/-- `gfm_b` -/
def gfmB (x : BitVec 8) : BitVec 8 := entry gfmulB x
/-- `gfm_d` -/
def gfmD (x : BitVec 8) : BitVec 8 := entry gfmulD x
/-- `gfm_e` -/
def gfmE (x : BitVec 8) : BitVec 8 := entry gfmulE x

/-! ## The steps -/

/-- `xor_block`, and `copy_and_key` -/
def xorBlocks (d s : Block) : Block := Vector.zipWith (fun x y => x ^^^ y) d s

/-- `N_BLOCK` -/
abbrev nBlock : Nat := 16

/-- `shift_sub_rows` -/
def shiftSubRows (st : Vector (BitVec 8) nBlock) : Block :=
  #v[sBox st[0], sBox st[5], sBox st[10], sBox st[15],
    sBox st[4], sBox st[9], sBox st[14], sBox st[3],
    sBox st[8], sBox st[13], sBox st[2], sBox st[7],
    sBox st[12], sBox st[1], sBox st[6], sBox st[11]]

/-- `inv_shift_sub_rows` -/
def invShiftSubRows (st : Vector (BitVec 8) nBlock) : Block :=
  #v[isBox st[0], isBox st[13], isBox st[10], isBox st[7],
    isBox st[4], isBox st[1], isBox st[14], isBox st[11],
    isBox st[8], isBox st[5], isBox st[2], isBox st[15],
    isBox st[12], isBox st[9], isBox st[6], isBox st[3]]

/-- `mix_sub_columns` -/
def mixSubColumns (st : Vector (BitVec 8) nBlock) : Block :=
  #v[gfm2Sb st[0] ^^^ gfm3Sb st[5] ^^^ sBox st[10] ^^^ sBox st[15],
    sBox st[0] ^^^ gfm2Sb st[5] ^^^ gfm3Sb st[10] ^^^ sBox st[15],
    sBox st[0] ^^^ sBox st[5] ^^^ gfm2Sb st[10] ^^^ gfm3Sb st[15],
    gfm3Sb st[0] ^^^ sBox st[5] ^^^ sBox st[10] ^^^ gfm2Sb st[15],
    gfm2Sb st[4] ^^^ gfm3Sb st[9] ^^^ sBox st[14] ^^^ sBox st[3],
    sBox st[4] ^^^ gfm2Sb st[9] ^^^ gfm3Sb st[14] ^^^ sBox st[3],
    sBox st[4] ^^^ sBox st[9] ^^^ gfm2Sb st[14] ^^^ gfm3Sb st[3],
    gfm3Sb st[4] ^^^ sBox st[9] ^^^ sBox st[14] ^^^ gfm2Sb st[3],
    gfm2Sb st[8] ^^^ gfm3Sb st[13] ^^^ sBox st[2] ^^^ sBox st[7],
    sBox st[8] ^^^ gfm2Sb st[13] ^^^ gfm3Sb st[2] ^^^ sBox st[7],
    sBox st[8] ^^^ sBox st[13] ^^^ gfm2Sb st[2] ^^^ gfm3Sb st[7],
    gfm3Sb st[8] ^^^ sBox st[13] ^^^ sBox st[2] ^^^ gfm2Sb st[7],
    gfm2Sb st[12] ^^^ gfm3Sb st[1] ^^^ sBox st[6] ^^^ sBox st[11],
    sBox st[12] ^^^ gfm2Sb st[1] ^^^ gfm3Sb st[6] ^^^ sBox st[11],
    sBox st[12] ^^^ sBox st[1] ^^^ gfm2Sb st[6] ^^^ gfm3Sb st[11],
    gfm3Sb st[12] ^^^ sBox st[1] ^^^ sBox st[6] ^^^ gfm2Sb st[11]]

/-- `inv_mix_sub_columns`, in the order of the result -/
def invMixSubColumns (st : Vector (BitVec 8) nBlock) : Block :=
  #v[isBox (gfmE st[0] ^^^ gfmB st[1] ^^^ gfmD st[2] ^^^ gfm9 st[3]),
    isBox (gfm9 st[12] ^^^ gfmE st[13] ^^^ gfmB st[14] ^^^ gfmD st[15]),
    isBox (gfmD st[8] ^^^ gfm9 st[9] ^^^ gfmE st[10] ^^^ gfmB st[11]),
    isBox (gfmB st[4] ^^^ gfmD st[5] ^^^ gfm9 st[6] ^^^ gfmE st[7]),
    isBox (gfmE st[4] ^^^ gfmB st[5] ^^^ gfmD st[6] ^^^ gfm9 st[7]),
    isBox (gfm9 st[0] ^^^ gfmE st[1] ^^^ gfmB st[2] ^^^ gfmD st[3]),
    isBox (gfmD st[12] ^^^ gfm9 st[13] ^^^ gfmE st[14] ^^^ gfmB st[15]),
    isBox (gfmB st[8] ^^^ gfmD st[9] ^^^ gfm9 st[10] ^^^ gfmE st[11]),
    isBox (gfmE st[8] ^^^ gfmB st[9] ^^^ gfmD st[10] ^^^ gfm9 st[11]),
    isBox (gfm9 st[4] ^^^ gfmE st[5] ^^^ gfmB st[6] ^^^ gfmD st[7]),
    isBox (gfmD st[0] ^^^ gfm9 st[1] ^^^ gfmE st[2] ^^^ gfmB st[3]),
    isBox (gfmB st[12] ^^^ gfmD st[13] ^^^ gfm9 st[14] ^^^ gfmE st[15]),
    isBox (gfmE st[12] ^^^ gfmB st[13] ^^^ gfmD st[14] ^^^ gfm9 st[15]),
    isBox (gfm9 st[8] ^^^ gfmE st[9] ^^^ gfmB st[10] ^^^ gfmD st[11]),
    isBox (gfmD st[4] ^^^ gfm9 st[5] ^^^ gfmE st[6] ^^^ gfmB st[7]),
    isBox (gfmB st[0] ^^^ gfmD st[1] ^^^ gfm9 st[2] ^^^ gfmE st[3])]

/-! ## The schedule -/

/-- The bytes of `ksch`. -/
abbrev kschSize : Nat := 240

/-- `aes_context` -/
structure AesContext where
  ksch : Vector (BitVec 8) kschSize
  rnd : BitVec 8

/-- The word in front of `cc`, as the loop of `aes_set_key` changes it, with `rc` behind it. -/
def nextWord (keylen cc : Nat) (rc t0 t1 t2 t3 : BitVec 8) : List (BitVec 8) × BitVec 8 :=
  if cc % keylen = 0 then
    ([sBox t1 ^^^ rc, sBox t2, sBox t3, sBox t0], (f2 (rc.setWidth 32)).setWidth 8)
  else if 24 < keylen ∧ cc % keylen = 16 then ([sBox t0, sBox t1, sBox t2, sBox t3], rc)
  else ([t0, t1, t2, t3], rc)

/-- The loop of `aes_set_key`. -/
def scheduleLoop (keylen hi cc : Nat) (rc : BitVec 8) (ksch : Vector (BitVec 8) kschSize) :
    Except OutOfBounds (Vector (BitVec 8) kschSize) := do
  if cc < hi then
    let t0 ← read ksch ((cc : Int) - 4)
    let t1 ← read ksch ((cc : Int) - 3)
    let t2 ← read ksch ((cc : Int) - 2)
    let t3 ← read ksch ((cc : Int) - 1)
    let (t, rc) := nextWord keylen cc rc t0 t1 t2 t3
    let old ← slice ksch (cc - keylen) 4
    let ksch ← copy ksch cc (List.zipWith (fun x y => x ^^^ y) old t)
    scheduleLoop keylen hi (cc + 4) rc ksch
  else return ksch
termination_by hi - cc

/-- `aes_set_key`, which returns whether the length is one of the three -/
def aesSetKey {n : Nat} (key : Vector (BitVec 8) n) (keylen : BitVec 8) (ctx : AesContext) :
    Except OutOfBounds (Bool × AesContext) := do
  if keylen = 16#8 ∨ keylen = 24#8 ∨ keylen = 32#8 then
    let bytes ← slice key 0 (keylen.toNat : Int)
    let ksch ← copy ctx.ksch 0 bytes
    let hi := (keylen + 28#8) <<< 2
    let ksch ← scheduleLoop keylen.toNat hi.toNat keylen.toNat 1#8 ksch
    return (true, ⟨ksch, (hi >>> 4) - 1#8⟩)
  else return (false, { ctx with rnd := 0#8 })

/-! ## Encryption and decryption -/

/-- `ctx->ksch + r * N_BLOCK` -/
def roundKey (ctx : AesContext) (r : Nat) : Except OutOfBounds Block :=
  if h : 16 * r + 16 ≤ kschSize then
    .ok (Vector.ofFn fun i => ctx.ksch.get ⟨16 * r + i.val, by omega⟩)
  else .error ⟨(16 * r + 16 : Nat), kschSize⟩

/-- The loop of `aes_encrypt`. -/
def encryptLoop (ctx : AesContext) (r : Nat) (s1 : Block) : Except OutOfBounds Block := do
  if r < ctx.rnd.toNat then
    let key ← roundKey ctx r
    encryptLoop ctx (r + 1) (xorBlocks (mixSubColumns s1) key)
  else return s1
termination_by ctx.rnd.toNat - r

/-- `aes_encrypt`: nothing without a schedule. -/
def aesEncrypt (inp : Block) (ctx : AesContext) : Except OutOfBounds (Option Block) := do
  if ctx.rnd = 0#8 then return none
  else
    let first ← roundKey ctx 0
    let s1 ← encryptLoop ctx 1 (xorBlocks inp first)
    let last ← roundKey ctx ctx.rnd.toNat
    return some (xorBlocks (shiftSubRows s1) last)

/-- The loop of `aes_decrypt`, from `--r` on. -/
def decryptLoop (ctx : AesContext) : Nat → Block → Except OutOfBounds Block
  | 0, s1 => .ok s1
  | r + 1, s1 => do
    let key ← roundKey ctx (r + 1)
    decryptLoop ctx r (invMixSubColumns (xorBlocks s1 key))

/-- `aes_decrypt` -/
def aesDecrypt (inp : Block) (ctx : AesContext) : Except OutOfBounds (Option Block) := do
  if ctx.rnd = 0#8 then return none
  else
    let last ← roundKey ctx ctx.rnd.toNat
    let s1 ← decryptLoop ctx (ctx.rnd.toNat - 1) (invShiftSubRows (xorBlocks inp last))
    let first ← roundKey ctx 0
    return some (xorBlocks s1 first)

/-! ## The tables are the field's -/

theorem entry_table (f : BitVec 32 → BitVec 32) (data : Vector (BitVec 8) 256) (x : BitVec 8) :
    entry (table f data) x = (f ((entry data x).setWidth 32)).setWidth 8 := by
  rw [entry, table, Vector.getElem_map]
  rfl

theorem entry_mmData (x : BitVec 8) : entry mmData x = x := by
  rw [entry, mmData, Vector.getElem_ofFn, BitVec.ofNat_toNat, BitVec.setWidth_eq]

theorem entry_sbData : ∀ x : BitVec 8, entry sbData x = subByte x := by decide +kernel

theorem entry_isbData : ∀ x : BitVec 8, entry isbData x = invSubByte x := by decide +kernel

theorem sBox_eq (x : BitVec 8) : sBox x = subByte x := by
  rw [sBox, sbox, entry_table, entry_sbData, id, BitVec.setWidth_setWidth_of_le _ (by decide),
    BitVec.setWidth_eq]

theorem isBox_eq (x : BitVec 8) : isBox x = invSubByte x := by
  rw [isBox, isbox, entry_table, entry_isbData, id, BitVec.setWidth_setWidth_of_le _ (by decide),
    BitVec.setWidth_eq]

/-- The functions of the tables are products. -/
theorem products : ∀ x : BitVec 8,
    (f2 (x.setWidth 32)).setWidth 8 = mul 2#8 x ∧ (f3 (x.setWidth 32)).setWidth 8 = mul 3#8 x ∧
      (f9 (x.setWidth 32)).setWidth 8 = mul 9#8 x ∧ (fb (x.setWidth 32)).setWidth 8 = mul 11#8 x ∧
      (fd (x.setWidth 32)).setWidth 8 = mul 13#8 x ∧
      (fe (x.setWidth 32)).setWidth 8 = mul 14#8 x := by
  decide +kernel

theorem gfm2Sb_eq (x : BitVec 8) : gfm2Sb x = mul 2#8 (subByte x) := by
  rw [gfm2Sb, gfm2Sbox, entry_table, entry_sbData, (products _).1]

theorem gfm3Sb_eq (x : BitVec 8) : gfm3Sb x = mul 3#8 (subByte x) := by
  rw [gfm3Sb, gfm3Sbox, entry_table, entry_sbData, (products _).2.1]

theorem gfm9_eq (x : BitVec 8) : gfm9 x = mul 9#8 x := by
  rw [gfm9, gfmul9, entry_table, entry_mmData, (products _).2.2.1]

theorem gfmB_eq (x : BitVec 8) : gfmB x = mul 11#8 x := by
  rw [gfmB, gfmulB, entry_table, entry_mmData, (products _).2.2.2.1]

theorem gfmD_eq (x : BitVec 8) : gfmD x = mul 13#8 x := by
  rw [gfmD, gfmulD, entry_table, entry_mmData, (products _).2.2.2.2.1]

theorem gfmE_eq (x : BitVec 8) : gfmE x = mul 14#8 x := by
  rw [gfmE, gfmulE, entry_table, entry_mmData, (products _).2.2.2.2.2]

/-! ## Blocks and states -/

/-- The bytes of a block fill the state column by column. -/
def state (b : Block) : State := fun r c => b.get ⟨r.val + 4 * c.val, by omega⟩

/-- The words of a schedule. -/
def words (ksch : Vector (BitVec 8) kschSize) (i : Nat) : Word := fun r =>
  ksch.toList.getD (4 * i + r.val) 0#8

theorem state_injective : Function.Injective state := by
  intro b b' h
  apply Vector.ext
  intro i hi
  have hcell := congrFun (congrFun h ⟨i % 4, by omega⟩) ⟨i / 4, by omega⟩
  have hindex : i % 4 + 4 * (i / 4) = i := Nat.mod_add_div i 4
  simp only [state, hindex] at hcell
  exact hcell

theorem state_shiftSubRows (st : Block) :
    state (shiftSubRows st) = shiftRows (subBytes (state st)) := by
  funext r c
  rw [shiftRows, subBytes, ← sBox_eq]
  fin_cases r <;> fin_cases c <;> rfl

theorem state_invShiftSubRows (st : Block) :
    state (invShiftSubRows st) = invSubBytes (invShiftRows (state st)) := by
  funext r c
  rw [invSubBytes, invShiftRows, ← isBox_eq]
  fin_cases r <;> fin_cases c <;> rfl

theorem xor_rotate (a b c d : BitVec 8) :
    b ^^^ c ^^^ d ^^^ a = a ^^^ b ^^^ c ^^^ d ∧ c ^^^ d ^^^ a ^^^ b = a ^^^ b ^^^ c ^^^ d ∧
      d ^^^ a ^^^ b ^^^ c = a ^^^ b ^^^ c ^^^ d := by
  refine ⟨?_, ?_, ?_⟩ <;> ac_rfl

theorem state_mixSubColumns (st : Block) :
    state (mixSubColumns st) = mixColumns (shiftRows (subBytes (state st))) := by
  funext r c
  simp only [mixColumns, shiftRows, subBytes]
  rw [← gfm2Sb_eq, ← gfm3Sb_eq, ← sBox_eq, ← sBox_eq]
  fin_cases r
  · fin_cases c <;> rfl
  · fin_cases c <;> exact (xor_rotate _ _ _ _).1.symm
  · fin_cases c <;> exact (xor_rotate _ _ _ _).2.1.symm
  · fin_cases c <;> exact (xor_rotate _ _ _ _).2.2.symm

theorem state_invMixSubColumns (st : Block) :
    state (invMixSubColumns st) = invSubBytes (invShiftRows (invMixColumns (state st))) := by
  funext r c
  simp only [invMixColumns, invShiftRows, invSubBytes]
  rw [← gfmE_eq, ← gfmB_eq, ← gfmD_eq, ← gfm9_eq, ← isBox_eq]
  fin_cases r
  · fin_cases c <;> rfl
  · fin_cases c <;> exact congrArg isBox (xor_rotate _ _ _ _).1.symm
  · fin_cases c <;> exact congrArg isBox (xor_rotate _ _ _ _).2.1.symm
  · fin_cases c <;> exact congrArg isBox (xor_rotate _ _ _ _).2.2.symm

/-! ## The cipher -/

/-- A schedule that is long enough for its rounds. -/
def AesContext.Keyed (ctx : AesContext) : Prop := 0 < ctx.rnd.toNat ∧ ctx.rnd.toNat ≤ 14

section Cipher

variable {ctx : AesContext}

theorem AesContext.Keyed.rnd_ne (h : ctx.Keyed) : ctx.rnd ≠ 0#8 := by
  intro hzero
  have hpos := h.1
  rw [hzero] at hpos
  exact absurd hpos (by decide)

theorem roundKey_spec (ctx : AesContext) {r : Nat} (h : r ≤ 14) :
    ∃ key, roundKey ctx r = .ok key ∧
      ∀ b, state (xorBlocks b key) = addRoundKey (words ctx.ksch) r (state b) := by
  have hfit : 16 * r + 16 ≤ kschSize := by
    rw [kschSize]
    omega
  refine ⟨_, dif_pos hfit, ?_⟩
  intro b
  funext row col
  have hindex : 4 * (4 * r + col.val) + row.val < ctx.ksch.toList.length := by
    rw [Vector.length_toList]
    omega
  have hbyte : words ctx.ksch (4 * r + col.val) row =
      ctx.ksch.get ⟨16 * r + (row.val + 4 * col.val), by omega⟩ := by
    have heq : 4 * (4 * r + col.val) + row.val = 16 * r + (row.val + 4 * col.val) := by omega
    rw [words, List.getD_eq_getElem _ _ hindex, Vector.getElem_toList, Vector.get_eq_getElem]
    simp only [heq]
  rw [addRoundKey, hbyte]
  simp [state, xorBlocks, Vector.get_eq_getElem]

theorem encryptLoop_spec (h : ctx.Keyed) {inp : State} {r : Nat} {s1 : Block}
    (hr : r < ctx.rnd.toNat)
    (hs1 : state s1 = rounds (words ctx.ksch) r inp) :
    ∃ s1', encryptLoop ctx (r + 1) s1 = .ok s1' ∧
      state s1' = rounds (words ctx.ksch) (ctx.rnd.toNat - 1) inp := by
  induction hk : ctx.rnd.toNat - 1 - r generalizing r s1 with
  | zero =>
    have hlast : r = ctx.rnd.toNat - 1 := by omega
    rw [encryptLoop, if_neg (by omega)]
    exact ⟨s1, rfl, by rw [hs1, hlast]⟩
  | succ k ih =>
    have hle := h.2
    obtain ⟨key, hkey, hadd⟩ := roundKey_spec ctx (r := r + 1) (by omega)
    rw [encryptLoop, if_pos (by omega), hkey, ok_bind]
    apply ih (by omega) ?_ (by omega)
    rw [hadd, state_mixSubColumns, hs1]
    rfl

/-- **A block is encrypted by the cipher**, for the words of any schedule. -/
theorem aesEncrypt_eq (h : ctx.Keyed) (inp : Block) :
    ∃ out, aesEncrypt inp ctx = .ok (some out) ∧
      state out = cipher ctx.rnd.toNat (words ctx.ksch) (state inp) := by
  obtain ⟨first, hfirst, hadd⟩ := roundKey_spec ctx (r := 0) (by decide)
  obtain ⟨last, hlast, haddLast⟩ := roundKey_spec ctx h.2
  obtain ⟨s1, hloop, hs1⟩ := encryptLoop_spec h h.1 (hadd inp)
  rw [aesEncrypt, if_neg h.rnd_ne, hfirst, ok_bind, hloop, ok_bind, hlast, ok_bind]
  refine ⟨_, rfl, ?_⟩
  rw [haddLast, state_shiftSubRows, hs1]
  rfl

theorem decryptLoop_spec (ctx : AesContext) {r : Nat} (hr : r ≤ 14) (s1 : Block) :
    ∃ s1', decryptLoop ctx r s1 = .ok s1' ∧
      addRoundKey (words ctx.ksch) 0 (state s1') = invRounds (words ctx.ksch) r (state s1) := by
  induction r generalizing s1 with
  | zero => exact ⟨s1, rfl, rfl⟩
  | succ r ih =>
    obtain ⟨key, hkey, hadd⟩ := roundKey_spec ctx hr
    obtain ⟨s1', hloop, hs1'⟩ := ih (by omega) (invMixSubColumns (xorBlocks s1 key))
    rw [state_invMixSubColumns, hadd] at hs1'
    exact ⟨s1', by rw [decryptLoop, hkey, ok_bind, hloop], hs1'⟩

theorem aesDecrypt_eq (h : ctx.Keyed) (inp : Block) :
    ∃ out, aesDecrypt inp ctx = .ok (some out) ∧
      state out = invCipher ctx.rnd.toNat (words ctx.ksch) (state inp) := by
  obtain ⟨first, hfirst, hadd⟩ := roundKey_spec ctx (r := 0) (by decide)
  obtain ⟨last, hlast, haddLast⟩ := roundKey_spec ctx h.2
  obtain ⟨s1, hloop, hs1⟩ := decryptLoop_spec ctx (r := ctx.rnd.toNat - 1)
    (by have hle := h.2; omega) (invShiftSubRows (xorBlocks inp last))
  rw [aesDecrypt, if_neg h.rnd_ne, hlast, ok_bind, hloop, ok_bind, hfirst, ok_bind]
  refine ⟨_, rfl, ?_⟩
  rw [hadd, hs1, state_invShiftSubRows, haddLast]
  rfl

theorem aesDecrypt_of_aesEncrypt (h : ctx.Keyed) (inp : Block) :
    ∃ out, aesEncrypt inp ctx = .ok (some out) ∧ aesDecrypt out ctx = .ok (some inp) := by
  obtain ⟨out, henc, hout⟩ := aesEncrypt_eq h inp
  obtain ⟨back, hdec, hback⟩ := aesDecrypt_eq h out
  rw [hout, invCipher_cipher] at hback
  exact ⟨out, henc, state_injective hback ▸ hdec⟩

/-- **Decryption and encryption undo each other**, for every schedule of one to fourteen rounds. -/
theorem aesDecrypt_aesEncrypt (h : ctx.Keyed) (inp : Block) :
    (∃ out, aesEncrypt inp ctx = .ok (some out) ∧ aesDecrypt out ctx = .ok (some inp)) ∧
      ∃ out, aesDecrypt inp ctx = .ok (some out) ∧ aesEncrypt out ctx = .ok (some inp) := by
  refine ⟨aesDecrypt_of_aesEncrypt h inp, ?_⟩
  obtain ⟨out, hdec, hout⟩ := aesDecrypt_eq h inp
  obtain ⟨back, henc, hback⟩ := aesEncrypt_eq h out
  rw [hout, cipher_invCipher] at hback
  exact ⟨out, hdec, state_injective hback ▸ henc⟩

theorem aesDecrypt_aesEncrypt_zero :
    ∃ out, aesEncrypt (Vector.replicate 16 0#8) ⟨Vector.replicate kschSize 0#8, 10#8⟩ =
      .ok (some out) ∧
      aesDecrypt out ⟨Vector.replicate kschSize 0#8, 10#8⟩ =
        .ok (some (Vector.replicate 16 0#8)) :=
  (aesDecrypt_aesEncrypt ⟨by decide, by decide⟩ _).1

end Cipher

/-! ## Chains of blocks -/

/-- `aes_cbc_encrypt`: the blocks it writes and the vector it leaves, or nothing when it fails. -/
def aesCbcEncrypt (ctx : AesContext) :
    List Block → Block → Except OutOfBounds (Option (List Block × Block))
  | [], iv => .ok (some ([], iv))
  | b :: bs, iv => do
    match ← aesEncrypt (xorBlocks iv b) ctx with
    | none => return none
    | some iv => return (← aesCbcEncrypt ctx bs iv).map fun (out, last) => (iv :: out, last)

/-- `aes_cbc_decrypt` -/
def aesCbcDecrypt (ctx : AesContext) :
    List Block → Block → Except OutOfBounds (Option (List Block × Block))
  | [], iv => .ok (some ([], iv))
  | tmp :: bs, iv => do
    match ← aesDecrypt tmp ctx with
    | none => return none
    | some b => return (← aesCbcDecrypt ctx bs tmp).map fun (out, last) =>
      (xorBlocks b iv :: out, last)

theorem xorBlocks_xorBlocks (iv b : Block) : xorBlocks (xorBlocks iv b) iv = b := by
  apply Vector.ext
  intro i hi
  rw [xorBlocks, xorBlocks, Vector.getElem_zipWith, Vector.getElem_zipWith, BitVec.xor_comm iv[i],
    BitVec.xor_assoc, BitVec.xor_self, BitVec.xor_zero]

/-- **A chain of blocks is decrypted with the vector it was encrypted with**, and both leave the
same vector for the next chain. -/
theorem aesCbcDecrypt_aesCbcEncrypt {ctx : AesContext} (h : ctx.Keyed) (blocks : List Block)
    (iv : Block) :
    ∃ out last, aesCbcEncrypt ctx blocks iv = .ok (some (out, last)) ∧
      out.length = blocks.length ∧ aesCbcDecrypt ctx out iv = .ok (some (blocks, last)) := by
  induction blocks generalizing iv with
  | nil => exact ⟨[], iv, rfl, rfl, rfl⟩
  | cons b bs ih =>
    obtain ⟨c, henc, hdec⟩ := aesDecrypt_of_aesEncrypt h (xorBlocks iv b)
    obtain ⟨out, last, hrun, hlen, hback⟩ := ih c
    refine ⟨c :: out, last, ?_, congrArg Nat.succ hlen, ?_⟩
    · rw [aesCbcEncrypt, henc, ok_bind]
      dsimp only
      rw [hrun]
      rfl
    · rw [aesCbcDecrypt, hdec, ok_bind]
      dsimp only
      rw [hback, ok_bind, xorBlocks_xorBlocks]
      rfl

theorem aesCbcDecrypt_aesCbcEncrypt_two :
    ∃ out last, aesCbcEncrypt ⟨Vector.replicate kschSize 0#8, 10#8⟩
        [Vector.replicate 16 1#8, Vector.replicate 16 2#8] (Vector.replicate 16 0#8) =
          .ok (some (out, last)) ∧ out.length = 2 ∧
      aesCbcDecrypt ⟨Vector.replicate kschSize 0#8, 10#8⟩ out (Vector.replicate 16 0#8) =
        .ok (some ([Vector.replicate 16 1#8, Vector.replicate 16 2#8], last)) :=
  aesCbcDecrypt_aesCbcEncrypt ⟨by decide, by decide⟩ _ _

end DraginoFwd.Mac
