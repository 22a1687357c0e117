import Ipmitool.Lib.Bytes
import Ipmitool.Lib.Cbc

/-! # Algorithm numbers and primitives

`crypto/mac.zig`: which digest an algorithm number selects and how much of it travels. The three
length tables are distinct, as in the source: `0x03` is an authentication algorithm (HMAC-SHA256)
but no supported integrity algorithm.

The primitives themselves, HMAC and the AES-128 block cipher, belong to the standard library. They
are the fields of `Primitives`, with what the transport relies on: the lengths of the digests, and
that decrypting a block inverts encrypting it. -/

namespace Ipmitool.Crypto.Mac

open Ipmitool.Lib Ipmitool.Lib.Bytes

/-- The digests `lanplus_HMAC` knows how to select. -/
inductive Algorithm where
  | sha1
  | md5
  | sha256
  deriving DecidableEq, Repr

def Algorithm.digestLength : Algorithm → ℕ
  | .sha1 => 20
  | .md5 => 16
  | .sha256 => 32

/-- How much of the digest travels as an integrity check value. -/
def Algorithm.authcodeLength : Algorithm → ℕ
  | .sha1 => 12
  | .md5 => 16
  | .sha256 => 16

theorem Algorithm.authcodeLength_le (a : Algorithm) : a.authcodeLength ≤ a.digestLength := by
  cases a <;> decide

/-! ### Algorithm numbers, tables 13-17 to 13-19 -/

def authRakpNone : UInt8 := 0x00
def authRakpHmacSha1 : UInt8 := 0x01
def authRakpHmacMd5 : UInt8 := 0x02
def authRakpHmacSha256 : UInt8 := 0x03

def integrityNone : UInt8 := 0x00
def integrityHmacSha1 : UInt8 := 0x01
def integrityHmacMd5 : UInt8 := 0x02
def integrityMd5 : UInt8 := 0x03
def integrityHmacSha256 : UInt8 := 0x04

def cryptNone : UInt8 := 0x00
def cryptAesCbc : UInt8 := 0x01
def cryptXrc4 : UInt8 := 0x02
def cryptXrc440 : UInt8 := 0x03

/-- The `if` ladder at the top of `lanplus_HMAC`. -/
def algorithmFor (mac : UInt8) : Option Algorithm :=
  if mac = 0x01 then some .sha1
  else if mac = 0x02 then some .md5
  else if mac = 0x03 ∨ mac = 0x04 then some .sha256
  else none

/-- The switch in `lanplus_has_valid_auth_code`. -/
def integrityAuthcodeLength (integrityAlg : UInt8) : Option ℕ :=
  if integrityAlg = 0x01 then some Algorithm.sha1.authcodeLength
  else if integrityAlg = 0x02 then some Algorithm.md5.authcodeLength
  else if integrityAlg = 0x04 then some Algorithm.sha256.authcodeLength
  else none

/-- How much of a RAKP 4 authcode is compared, by authentication algorithm. -/
def rakpAuthcodeLength (authAlg : UInt8) : Option ℕ :=
  if authAlg = 0x01 then some Algorithm.sha1.authcodeLength
  else if authAlg = 0x02 then some Algorithm.md5.authcodeLength
  else if authAlg = 0x03 then some Algorithm.sha256.authcodeLength
  else none

/-- The same for the `intelplus` branch, by integrity algorithm. -/
def intelplusRakpAuthcodeLength (integrityAlg : UInt8) : Option ℕ :=
  if integrityAlg = 0x01 then some Algorithm.sha1.authcodeLength
  else if integrityAlg = 0x02 then some Algorithm.md5.authcodeLength
  else none

/-- **The primitives of the standard library.** `hmac` is any function with the digest lengths,
`aesEnc` and `aesDec` any block cipher under a key. -/
structure Primitives where
  hmac : Algorithm → List UInt8 → List UInt8 → List UInt8
  aesEnc : List UInt8 → List UInt8 → List UInt8
  aesDec : List UInt8 → List UInt8 → List UInt8
  length_hmac : ∀ a key data, (hmac a key data).length = a.digestLength
  length_aesEnc : ∀ key b, b.length = 16 → (aesEnc key b).length = 16
  aesDec_aesEnc : ∀ key b, b.length = 16 → aesDec key (aesEnc key b) = b

/-- Primitives for worked examples: the HMACs on the inputs of an example come from a table, all
others are zero, and no block is encrypted. -/
def Primitives.tabled (table : List ((Algorithm × List UInt8 × List UInt8) × List UInt8)) :
    Primitives where
  hmac a key data :=
    (((table.lookup (a, key, data)).getD []) ++ List.replicate a.digestLength 0).take
    a.digestLength
  aesEnc _ b := b
  aesDec _ b := b
  length_hmac a key data := by simp
  length_aesEnc _ _ h := h
  aesDec_aesEnc _ _ _ := rfl

/-- `IPMI_CRYPT_AES_CBC_128_BLOCK_SIZE`. -/
def blockSize : ℕ := 16

/-- The block cipher under a key is one that chaining can use. -/
theorem Primitives.lawful (K : Primitives) (key : List UInt8) :
    Cbc.Lawful xorBytes (K.aesEnc key) (K.aesDec key) blockSize where
  length_comb x y hx hy := by simp [hx, hy]
  comb_cancel x y hx hy := xorBytes_cancel (hx.trans hy.symm)
  length_enc x hx := K.length_aesEnc key x hx
  dec_enc x hx := K.aesDec_aesEnc key x hx

/-- `aes_cbc.encrypt`. -/
def Primitives.cbcEncrypt (K : Primitives) (key iv input : List UInt8) : List UInt8 :=
  Cbc.encrypt xorBytes (K.aesEnc key) blockSize (input.length / blockSize) iv input

/-- `aes_cbc.decrypt`. -/
def Primitives.cbcDecrypt (K : Primitives) (key iv input : List UInt8) : List UInt8 :=
  Cbc.decrypt xorBytes (K.aesDec key) blockSize (input.length / blockSize) iv input

theorem Primitives.length_cbcEncrypt (K : Primitives) {key iv input : List UInt8}
    (hiv : iv.length = 16) (hin : input.length % 16 = 0) :
    (K.cbcEncrypt key iv input).length = input.length := by
  have hd : input.length = input.length / blockSize * blockSize := by unfold blockSize; omega
  unfold cbcEncrypt
  rw [Cbc.length_encrypt (K.lawful key) _ hiv hd, ← hd]

theorem Primitives.cbcDecrypt_cbcEncrypt (K : Primitives) {key iv input : List UInt8}
    (hiv : iv.length = 16) (hin : input.length % 16 = 0) :
    K.cbcDecrypt key iv (K.cbcEncrypt key iv input) = input := by
  have hd : input.length = input.length / blockSize * blockSize := by unfold blockSize; omega
  unfold cbcDecrypt
  rw [K.length_cbcEncrypt hiv hin]
  exact Cbc.decrypt_encrypt (K.lawful key) _ hiv hd

end Ipmitool.Crypto.Mac
