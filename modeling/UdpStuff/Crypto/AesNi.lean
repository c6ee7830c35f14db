/-
# Crypto.AesNi — the cipher of `block.h` on the AES instructions

`AES_KEY_256_LOAD`, `AES_ECB_encrypt` and `AES_ECB_decrypt`, with the instructions by
Intel's definition.  A register is four columns of four bytes, the first byte of the
first column the lowest.  A round key is a register; `expanded_key` is the list of
them.
-/
import UdpStuff.Theory.Gf256

namespace UdpStuff.Crypto.AesNi

open Theory

set_option autoImplicit false

/-- `__m128i` as the state of the cipher. -/
abbrev M128i := Column × Column × Column × Column

/-! ## The instructions -/

/-- The substitution, sixteen bytes a row, the first byte of a row on top. -/
def sBox : List (BitVec 128) :=
  [0x637c777bf26b6fc53001672bfed7ab76, 0xca82c97dfa5947f0add4a2af9ca472c0,
   0xb7fd9326363ff7cc34a5e5f171d83115, 0x04c723c31896059a071280e2eb27b275,
   0x09832c1a1b6e5aa0523bd6b329e32f84, 0x53d100ed20fcb15b6acbbe394a4c58cf,
   0xd0efaafb434d338545f9027f503c9fa8, 0x51a3408f929d38f5bcb6da2110fff3d2,
   0xcd0c13ec5f974417c4a77e3d645d1973, 0x60814fdc222a908846eeb814de5e0bdb,
   0xe0323a0a4906245cc2d3ac629195e479, 0xe7c8376d8dd54ea96c56f4ea657aae08,
   0xba78252e1ca6b4c6e8dd741f4bbd8b8a, 0x703eb5664803f60e613557b986c11d9e,
   0xe1f8981169d98e949b1e87e9ce5528df, 0x8ca1890dbfe6426841992d0fb054bb16]

def invSBox : List (BitVec 128) :=
  [0x52096ad53036a538bf40a39e81f3d7fb, 0x7ce339829b2fff87348e4344c4dee9cb,
   0x547b9432a6c2233dee4c950b42fac34e, 0x082ea16628d924b2765ba2496d8bd125,
   0x72f8f66486689816d4a45ccc5d65b692, 0x6c704850fdedb9da5e154657a78d9d84,
   0x90d8ab008cbcd30af7e45805b8b34506, 0xd02c1e8fca3f0f02c1afbd0301138a6b,
   0x3a9111414f67dcea97f2cfcef0b4e673, 0x96ac7422e7ad3585e2f937e81c75df6e,
   0x47f11a711d29c5896fb7620eaa18be1b, 0xfc563e4bc6d279209adbc0fe78cd5af4,
   0x1fdda8338807c731b11210592780ec5f, 0x60517fa919b54a0d2de57a9f93c99cef,
   0xa0e03b4dae2af5b0c8ebbb3c83539961, 0x172b047eba77d626e169146355210c7d]

/-- The entry of a table in the row and column of the byte's two digits. -/
def lookUp (table : List (BitVec 128)) (x : Gf256) : Gf256 :=
  ⟨(table.getD (x.bits.toNat / 16) 0).extractLsb' (8 * (15 - x.bits.toNat % 16)) 8⟩

def subByte : Gf256 → Gf256 := lookUp sBox

def invSubByte : Gf256 → Gf256 := lookUp invSBox

/-- A map of bytes on every byte of a column. -/
def mapColumn (f : Gf256 → Gf256) : Column → Column
  | (b0, b1, b2, b3) => (f b0, f b1, f b2, f b3)

/-- A map of columns on every column of the state. -/
def mapState (f : Column → Column) : M128i → M128i
  | (c0, c1, c2, c3) => (f c0, f c1, f c2, f c3)

def subBytes : M128i → M128i := mapState (mapColumn subByte)

def invSubBytes : M128i → M128i := mapState (mapColumn invSubByte)

def shiftRows : M128i → M128i
  | ((a0, a1, a2, a3), (b0, b1, b2, b3), (c0, c1, c2, c3), (d0, d1, d2, d3)) =>
    ((a0, b1, c2, d3), (b0, c1, d2, a3), (c0, d1, a2, b3), (d0, a1, b2, c3))

def invShiftRows : M128i → M128i
  | ((a0, a1, a2, a3), (b0, b1, b2, b3), (c0, c1, c2, c3), (d0, d1, d2, d3)) =>
    ((a0, d1, c2, b3), (b0, a1, d2, c3), (c0, b1, a2, d3), (d0, c1, b2, a3))

def mixColumn : Column → Column := .circulant ⟨0x02⟩ ⟨0x03⟩ ⟨0x01⟩ ⟨0x01⟩

def invMixColumn : Column → Column := .circulant ⟨0x0e⟩ ⟨0x0b⟩ ⟨0x0d⟩ ⟨0x09⟩

def mixColumns : M128i → M128i := mapState mixColumn

def invMixColumns : M128i → M128i := mapState invMixColumn

/-- `_mm_xor_si128` -/
def mmXor (a b : M128i) : M128i := a + b

/-- `_mm_aesenc_si128` -/
def mmAesenc (a roundKey : M128i) : M128i :=
  mmXor (mixColumns (subBytes (shiftRows a))) roundKey

/-- `_mm_aesenclast_si128` -/
def mmAesenclast (a roundKey : M128i) : M128i := mmXor (subBytes (shiftRows a)) roundKey

/-- `_mm_aesdec_si128` -/
def mmAesdec (a roundKey : M128i) : M128i :=
  mmXor (invMixColumns (invSubBytes (invShiftRows a))) roundKey

/-- `_mm_aesdeclast_si128` -/
def mmAesdeclast (a roundKey : M128i) : M128i := mmXor (invSubBytes (invShiftRows a)) roundKey

def subWord : Column → Column := mapColumn subByte

def rotWord : Column → Column
  | (b0, b1, b2, b3) => (b1, b2, b3, b0)

/-- `_mm_aeskeygenassist_si128` -/
def mmAeskeygenassist : M128i → BitVec 8 → M128i
  | (_, x1, _, x3), rcon =>
    (subWord x1, rotWord (subWord x1) + (⟨rcon⟩, 0, 0, 0),
      subWord x3, rotWord (subWord x3) + (⟨rcon⟩, 0, 0, 0))

/-- `_mm_shuffle_epi32` with `0xff`: the last column everywhere. -/
def mmShuffleFf : M128i → M128i
  | (_, _, _, c3) => (c3, c3, c3, c3)

/-- `_mm_shuffle_epi32` with `0xaa` -/
def mmShuffleAa : M128i → M128i
  | (_, _, c2, _) => (c2, c2, c2, c2)

/-- `_mm_slli_si128` by four bytes -/
def mmSlli4 : M128i → M128i
  | (c0, c1, c2, _) => (0, c0, c1, c2)

/-! ## The code -/

/-- The new `temp1`. -/
def aesKey256Assist1 (temp1 temp2 : M128i) : M128i :=
  let temp2 := mmShuffleFf temp2
  let temp4 := mmSlli4 temp1
  let temp1 := mmXor temp1 temp4
  let temp4 := mmSlli4 temp4
  let temp1 := mmXor temp1 temp4
  let temp4 := mmSlli4 temp4
  let temp1 := mmXor temp1 temp4
  mmXor temp1 temp2

/-- The new `temp3`. -/
def aesKey256Assist2 (temp1 temp3 : M128i) : M128i :=
  let temp4 := mmAeskeygenassist temp1 0x00
  let temp2 := mmShuffleAa temp4
  let temp4 := mmSlli4 temp3
  let temp3 := mmXor temp3 temp4
  let temp4 := mmSlli4 temp4
  let temp3 := mmXor temp3 temp4
  let temp4 := mmSlli4 temp4
  let temp3 := mmXor temp3 temp4
  mmXor temp3 temp2

/-- The round keys from the two halves of the user key: `temp1` and `temp3` in turn. -/
def aesKey256Load (userKey : M128i × M128i) : List M128i :=
  let key0 := userKey.1
  let key1 := userKey.2
  let key2 := aesKey256Assist1 key0 (mmAeskeygenassist key1 0x01)
  let key3 := aesKey256Assist2 key2 key1
  let key4 := aesKey256Assist1 key2 (mmAeskeygenassist key3 0x02)
  let key5 := aesKey256Assist2 key4 key3
  let key6 := aesKey256Assist1 key4 (mmAeskeygenassist key5 0x04)
  let key7 := aesKey256Assist2 key6 key5
  let key8 := aesKey256Assist1 key6 (mmAeskeygenassist key7 0x08)
  let key9 := aesKey256Assist2 key8 key7
  let key10 := aesKey256Assist1 key8 (mmAeskeygenassist key9 0x10)
  let key11 := aesKey256Assist2 key10 key9
  let key12 := aesKey256Assist1 key10 (mmAeskeygenassist key11 0x20)
  let key13 := aesKey256Assist2 key12 key11
  let key14 := aesKey256Assist1 key12 (mmAeskeygenassist key13 0x40)
  [key0, key1, key2, key3, key4, key5, key6, key7, key8, key9, key10, key11, key12, key13, key14]

/-- `expanded_key[j]` -/
def keyAt (expandedKey : List M128i) (j : Nat) : M128i := expandedKey.getD j 0

/-- The loop of `AES_ECB_encrypt`, `n` rounds from `j` on. -/
def encryptRounds (expandedKey : List M128i) : Nat → Nat → M128i → M128i
  | 0, _, tmp => tmp
  | n + 1, j, tmp => encryptRounds expandedKey n (j + 1) (mmAesenc tmp (keyAt expandedKey j))

def aesEcbEncrypt (block : M128i) (expandedKey : List M128i) (nrounds : Nat) : M128i :=
  let tmp := mmXor block (keyAt expandedKey 0)
  let tmp := encryptRounds expandedKey (nrounds - 1) 1 tmp
  -- `j` after the loop, which starts at one and may not run
  mmAesenclast tmp (keyAt expandedKey (1 + (nrounds - 1)))

/-- The example that the standard of the cipher gives for 256-bit keys. -/
example : aesEcbEncrypt
    ((⟨0x00⟩, ⟨0x11⟩, ⟨0x22⟩, ⟨0x33⟩), (⟨0x44⟩, ⟨0x55⟩, ⟨0x66⟩, ⟨0x77⟩),
     (⟨0x88⟩, ⟨0x99⟩, ⟨0xaa⟩, ⟨0xbb⟩), (⟨0xcc⟩, ⟨0xdd⟩, ⟨0xee⟩, ⟨0xff⟩))
    (aesKey256Load
      (((⟨0x00⟩, ⟨0x01⟩, ⟨0x02⟩, ⟨0x03⟩), (⟨0x04⟩, ⟨0x05⟩, ⟨0x06⟩, ⟨0x07⟩),
        (⟨0x08⟩, ⟨0x09⟩, ⟨0x0a⟩, ⟨0x0b⟩), (⟨0x0c⟩, ⟨0x0d⟩, ⟨0x0e⟩, ⟨0x0f⟩)),
        ((⟨0x10⟩, ⟨0x11⟩, ⟨0x12⟩, ⟨0x13⟩), (⟨0x14⟩, ⟨0x15⟩, ⟨0x16⟩, ⟨0x17⟩),
         (⟨0x18⟩, ⟨0x19⟩, ⟨0x1a⟩, ⟨0x1b⟩), (⟨0x1c⟩, ⟨0x1d⟩, ⟨0x1e⟩, ⟨0x1f⟩)))) 14 =
    ((⟨0x8e⟩, ⟨0xa2⟩, ⟨0xb7⟩, ⟨0xca⟩), (⟨0x51⟩, ⟨0x67⟩, ⟨0x45⟩, ⟨0xbf⟩),
     (⟨0xea⟩, ⟨0xfc⟩, ⟨0x49⟩, ⟨0x90⟩), (⟨0x4b⟩, ⟨0x49⟩, ⟨0x60⟩, ⟨0x89⟩)) := by
  decide +kernel

/-- The loop of `AES_ECB_decrypt`, `n` rounds from `j` on. -/
def decryptRounds (expandedKey : List M128i) : Nat → Nat → M128i → M128i
  | 0, _, tmp => tmp
  | n + 1, j, tmp => decryptRounds expandedKey n (j + 1) (mmAesdec tmp (keyAt expandedKey j))

def aesEcbDecrypt (block : M128i) (expandedKey : List M128i) (nrounds : Nat) : M128i :=
  let tmp := mmXor block (keyAt expandedKey 0)
  let tmp := decryptRounds expandedKey (nrounds - 1) 1 tmp
  mmAesdeclast tmp (keyAt expandedKey (1 + (nrounds - 1)))

end UdpStuff.Crypto.AesNi
