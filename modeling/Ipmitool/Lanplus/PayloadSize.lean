import Ipmitool.Lanplus.Bridging
import Ipmitool.Lanplus.Open
import Mathlib.Data.Nat.Bitwise

/-! # Does a request of the negotiated size fit?

The BMC reports the largest payload `P` it takes in. `storePayloadSizes` subtracts the seven bytes
of the message header, the RMCP+ setter pays for the encryption of suite 3, and the getter pays for
the envelopes of a bridged request, all in 16-bit arithmetic. `budgetFits_iff` has the exact set of
`P` for which a request of the resulting size is encoded in at most `P` bytes.

An unencrypted suite needs `P ≥ 32` only. Suite 3 rounds to the block size before the header is
counted, so that a direct request fits for seven residues of `P` only, and the other encrypted
suites are not charged at all. -/

namespace Ipmitool.Lanplus.PayloadSize

open Ipmitool.Core.Types Ipmitool.Crypto.Mac Ipmitool.Crypto.Padding Ipmitool.Crypto.LanplusCrypt
open Ipmitool.Intf.Registry Ipmitool.Lanplus.Build Ipmitool.Lanplus.Bridging Ipmitool.Lanplus.Open

/-! ### The setters and getters in natural numbers -/

theorem toNat_and_not_fifteen (x : UInt16) : (x &&& ~~~15).toNat = x.toNat / 16 * 16 := by
  have h : (~~~(15 : UInt16)).toNat = (2 ^ 12 - 1) * 2 ^ 4 := by decide
  have hd : x.toNat / 16 * 16 = x.toNat / 2 ^ 4 * 2 ^ 4 := rfl
  rw [UInt16.toNat_and, h, hd]
  refine Nat.eq_of_testBit_eq fun i => ?_
  rw [Nat.testBit_and, Nat.testBit_mul_two_pow, Nat.testBit_mul_two_pow, Nat.testBit_div_two_pow,
    Nat.testBit_two_pow_sub_one]
  by_cases hi : 4 ≤ i
  · have h4 : i - 4 + 4 = i := by omega
    by_cases hlt : i < 16
    · have : i - 4 < 12 := by omega
      simp [hi, h4, this]
    · have hx : x.toNat < 2 ^ i :=
        lt_of_lt_of_le x.toNat_lt (Nat.pow_le_pow_right (by omega) (by omega))
      simp [h4, Nat.testBit_lt_two_pow hx]
  · simp [hi]

/-- The size that is stored for the reported size `P`. -/
def storedSize (suite : CipherSuiteId) (P : ℕ) : ℕ :=
  let size := (P + 65529) % 65536
  if size < 25 then 38
  else if suite = 3 then (size / 16 * 16 + 65519) % 65536
  else size

theorem storePayloadSizes_request (intf : Intf) (P Q : UInt16) :
    (storePayloadSizes (setup intf) P Q).maxRequestDataSize.toNat =
      storedSize intf.ssnParams.cipherSuiteId P.toNat := by
  have hP := P.toNat_lt
  have h7 : (P - 7).toNat = (P.toNat + 65529) % 65536 := by
    rw [UInt16.toNat_sub]; simp only [UInt16.reduceToNat]; omega
  have hstore : (storePayloadSizes (setup intf) P Q).maxRequestDataSize =
      (setMaxRequestDataSize (setup intf) (P - 7)).maxRequestDataSize := by
    unfold storePayloadSizes setMaxResponseDataSize
    split_ifs <;> rfl
  rw [hstore]
  unfold setMaxRequestDataSize storedSize
  simp only [h7, defaultPayloadSize]
  split_ifs with h1 h2
  · rfl
  · show (encryptedSize intf.ssnParams.cipherSuiteId (P - 7)).toNat = _
    rw [encryptedSize, if_pos h2, UInt16.toNat_sub, toNat_and_not_fifteen, h7]
    have : ((16 + 1 : UInt16)).toNat = 17 := by decide
    rw [this]; omega
  · show (encryptedSize intf.ssnParams.cipherSuiteId (P - 7)).toNat = _
    rw [encryptedSize, if_neg h2, h7]

theorem storePayloadSizes_level (intf : Intf) (P Q : UInt16) :
    getBridgingLevel (storePayloadSizes (setup intf) P Q) = getBridgingLevel intf := by
  unfold storePayloadSizes setMaxResponseDataSize setMaxRequestDataSize
  split_ifs <;> rfl

theorem storePayloadSizes_bridged (intf : Intf) (P Q : UInt16) (bp : Bool) :
    bridgedRequest (storePayloadSizes (setup intf) P Q) bp = bridgedRequest intf bp := by
  unfold storePayloadSizes setMaxResponseDataSize setMaxRequestDataSize
  split_ifs <;> rfl

theorem dataSize_lt (header : ℤ) (level : ℕ) (stored : UInt16) (h : header ≤ 8) :
    dataSize header level stored < 32768 := by
  unfold dataSize bridgedSize wrap defaultPayloadSize
  dsimp only
  split_ifs <;> omega

/-! ### The encoded size -/

/-- The size of a payload of `n` bytes after encryption. -/
def encodedSize (cryptAlg : UInt8) (n : ℕ) : ℕ :=
  if cryptAlg = cryptNone then n else blockSize + paddedLength n

theorem length_encryptPayload {K : Primitives} {cryptAlg : UInt8}
    (hc : cryptAlg = cryptNone ∨ cryptAlg = cryptAesCbc) (key input : List UInt8) {iv : List UInt8}
    (hiv : iv.length = 16) (hin : input.length ≤ 0xffff) :
    ∃ out len, encryptPayload K cryptAlg key input iv = .ok (out, len) ∧
      out.length = encodedSize cryptAlg input.length := by
  rcases hc with rfl | rfl
  · exact ⟨input, _, rfl, rfl⟩
  · have hne : cryptAesCbc ≠ cryptNone := by decide
    have hmod : (pad input).length % 16 = 0 := by rw [length_pad]; exact paddedLength_mod _
    have hlen : (K.cbcEncrypt (key.take 16) iv (pad input)).length = (pad input).length :=
      K.length_cbcEncrypt hiv hmod
    refine ⟨iv ++ K.cbcEncrypt (key.take 16) iv (pad input),
      UInt16.ofNat (blockSize + paddedLength input.length), ?_, ?_⟩
    · unfold encryptPayload
      rw [if_neg hne, if_neg (by simp), if_neg (by omega)]
    · rw [List.length_append, hlen, hiv, length_pad, encodedSize, if_neg hne]
      rfl

/-- **The negotiated size is safe**: it is no wrapped number, and every request with that many data
bytes is encoded in at most `P` bytes. -/
def BudgetFits (K : Primitives) (intf : Intf) (bp : Bool) (c : Ciphers) (P : UInt16) : Prop :=
  getMaxRequestDataSize intf < 32768 ∧
    ∀ (req : Request) (rqSeq currSeq : UInt8) (key iv : List UInt8),
      req.data.length = getMaxRequestDataSize intf → iv.length = 16 →
        ∃ out len, encryptPayload K c.cryptAlg key
          (getIpmiPayloadWireRep intf bp req rqSeq currSeq) iv = .ok (out, len) ∧
            out.length ≤ P.toNat

theorem budgetFits_iff_encodedSize {K : Primitives} {intf : Intf} {bp : Bool} {c : Ciphers}
    {P : UInt16} (hc : c.cryptAlg = cryptNone ∨ c.cryptAlg = cryptAesCbc) :
    BudgetFits K intf bp c P ↔ encodedSize c.cryptAlg
      (getMaxRequestDataSize intf + 7 + 8 * bridgedRequest intf bp) ≤ P.toNat := by
  have hlt : getMaxRequestDataSize intf < 32768 := dataSize_lt 8 _ _ (Int.le_refl 8)
  have hle := bridgedRequest_le intf bp
  constructor
  · rintro ⟨-, h⟩
    -- a request with that many bytes exists
    obtain ⟨req, hreq⟩ : ∃ req : Request, req.data.length = getMaxRequestDataSize intf :=
      ⟨⟨0, 0, 0, 0, List.replicate (getMaxRequestDataSize intf) 0,
        by rw [List.length_replicate]; omega⟩, by simp⟩
    have hwire := length_getIpmiPayloadWireRep intf bp req 0 0
    have hiv : (List.replicate 16 (0 : UInt8)).length = 16 := by simp
    obtain ⟨out, len, h1, h2⟩ := h req 0 0 [] _ hreq hiv
    obtain ⟨out', len', h3, h4⟩ := length_encryptPayload (K := K) hc []
      (getIpmiPayloadWireRep intf bp req 0 0) hiv (by rw [hwire]; omega)
    rw [h1] at h3
    obtain ⟨rfl, -⟩ := Prod.mk.inj (Except.ok.inj h3)
    rw [hwire, hreq] at h4
    omega
  · intro h
    refine ⟨hlt, fun req rqSeq currSeq key iv hreq hiv => ?_⟩
    have hwire := length_getIpmiPayloadWireRep intf bp req rqSeq currSeq
    obtain ⟨out, len, h1, h2⟩ := length_encryptPayload (K := K) hc key
      (getIpmiPayloadWireRep intf bp req rqSeq currSeq) hiv (by rw [hwire]; omega)
    refine ⟨out, len, h1, ?_⟩
    rw [h2, hwire, hreq]
    exact h

/-! ### The sizes that fit -/

/-- The suites whose packets the interface can build: no encryption or AES, and an integrity
algorithm with a known authcode length. -/
def Supported (c : Ciphers) : Prop :=
  (c.cryptAlg = cryptNone ∨ c.cryptAlg = cryptAesCbc) ∧
    (c.integrityAlg = integrityNone ∨ (integrityAuthcodeLength c.integrityAlg).isSome)

/-- The reported sizes `P` that leave room for a request of the negotiated size, by suite and
bridging level. -/
def SizeLeavesRoom (suite : CipherSuiteId) (encrypted : Bool) (level P : ℕ) : Prop :=
  if encrypted = false then 32 ≤ P
  else if suite = 3 then
    if level = 0 then 32 ≤ P ∧ (P % 16 < 7 ∨ 32807 ≤ P)
    else if level = 1 then (32 ≤ P ∧ P % 16 < 7) ∨ 64 ≤ P
    else (48 ≤ P ∧ P ≤ 54) ∨ (64 ≤ P ∧ P ≤ 32806) ∨ 32816 ≤ P
  else
    if level = 0 then 32775 ≤ P
    else if level = 1 then 64 ≤ P
    else (64 ≤ P ∧ P ≤ 32782) ∨ 32791 ≤ P

theorem paddedLength_eq (n : ℕ) : paddedLength n = n / 16 * 16 + 16 := by
  unfold paddedLength padLength
  dsimp only
  split_ifs <;> omega

section
variable {suite : CipherSuiteId} {cryptAlg : UInt8} {P : ℕ} {stored : UInt16}

theorem storedSize_eq (hP : P < 65536) : storedSize suite P =
    if 7 ≤ P ∧ P < 32 then 38
    else if suite = 3 then (if P < 7 then 65503 else if P < 39 then 65535
      else (P - 7) / 16 * 16 - 17)
    else if P < 7 then P + 65529 else P - 7 := by
  unfold storedSize
  dsimp only
  split_ifs <;> omega

/-- The size for a request that is not bridged: a stored size above the signed range counts as
negative. -/
theorem dataSize_direct : dataSize 8 0 stored =
    if stored.toNat = 0 then 25 else if stored.toNat < 32768 then stored.toNat else 0 := by
  have := stored.toNat_lt
  unfold dataSize bridgedSize wrap defaultPayloadSize
  simp only [ne_eq, not_true_eq_false, if_true, if_false]
  split_ifs <;> omega

theorem dataSize_bridged : dataSize 8 1 stored =
    if stored.toNat = 0 then 25
    else if stored.toNat < 32768 then min (stored.toNat - 8) 25
    else if stored.toNat < 32776 then 25 else 0 := by
  have := stored.toNat_lt
  unfold dataSize bridgedSize wrap defaultPayloadSize
  simp only [ne_eq, one_ne_zero, not_false_iff, if_true, if_false, OfNat.one_ne_ofNat]
  split_ifs <;> omega

/-- Twice bridged, a size just above the signed range wraps around twice. -/
theorem dataSize_doubleBridged : dataSize 8 2 stored =
    if stored.toNat = 0 then 17
    else if stored.toNat < 32768 then min (stored.toNat - 8) 25 - 8
    else if stored.toNat < 32776 then 17
    else if stored.toNat < 32784 then stored.toNat - 16 else 0 := by
  have := stored.toNat_lt
  unfold dataSize bridgedSize wrap defaultPayloadSize
  simp only [ne_eq, OfNat.ofNat_ne_zero, not_false_iff, if_true, if_false]
  split_ifs <;> omega

theorem encodedSize_le_iff_plain {level : ℕ} (hlevel : level ≤ 2) (hP : P < 65536)
    (hs : suite ≠ 3) (hstored : stored.toNat = storedSize suite P) :
    dataSize 8 level stored + 7 + 8 * level ≤ P ↔ 32 ≤ P := by
  rw [storedSize_eq hP, if_neg hs] at hstored
  obtain rfl | rfl | rfl : level = 0 ∨ level = 1 ∨ level = 2 := by omega
  · rw [dataSize_direct]
    split_ifs at hstored ⊢ <;> omega
  · rw [dataSize_bridged]
    split_ifs at hstored ⊢ <;> omega
  · rw [dataSize_doubleBridged]
    split_ifs at hstored ⊢ <;> omega

theorem encodedSize_le_iff_aes {level : ℕ} (hlevel : level ≤ 2) (hP : P < 65536)
    (hstored : stored.toNat = storedSize suite P) :
    blockSize + paddedLength (dataSize 8 level stored + 7 + 8 * level) ≤ P ↔
      SizeLeavesRoom suite true level P := by
  rw [storedSize_eq hP] at hstored
  rw [paddedLength_eq, blockSize, SizeLeavesRoom, if_neg (by decide)]
  by_cases hs : suite = 3
  · rw [if_pos hs] at hstored ⊢
    obtain rfl | rfl | rfl : level = 0 ∨ level = 1 ∨ level = 2 := by omega
    · rw [if_pos rfl, dataSize_direct]
      split_ifs at hstored ⊢ <;> omega
    · rw [if_neg one_ne_zero, if_pos rfl, dataSize_bridged]
      split_ifs at hstored ⊢ <;> omega
    · rw [if_neg two_ne_zero, if_neg (by decide : ¬ 2 = 1), dataSize_doubleBridged]
      split_ifs at hstored ⊢ <;> omega
  · rw [if_neg hs] at hstored ⊢
    obtain rfl | rfl | rfl : level = 0 ∨ level = 1 ∨ level = 2 := by omega
    · rw [if_pos rfl, dataSize_direct]
      split_ifs at hstored ⊢ <;> omega
    · rw [if_neg one_ne_zero, if_pos rfl, dataSize_bridged]
      split_ifs at hstored ⊢ <;> omega
    · rw [if_neg two_ne_zero, if_neg (by decide : ¬ 2 = 1), dataSize_doubleBridged]
      split_ifs at hstored ⊢ <;> omega

theorem encodedSize_le_iff {level : ℕ} (hs : suite = 3 → cryptAlg ≠ cryptNone) (hlevel : level ≤ 2)
    (hP : P < 65536) (hstored : stored.toNat = storedSize suite P) :
    encodedSize cryptAlg (dataSize 8 level stored + 7 + 8 * level) ≤ P ↔
      SizeLeavesRoom suite (cryptAlg ≠ cryptNone) level P := by
  unfold encodedSize
  by_cases hc : cryptAlg = cryptNone
  · have h3 : suite ≠ 3 := fun h => hs h hc
    simp only [hc, if_true, ne_eq, not_true_eq_false, decide_false]
    rw [encodedSize_le_iff_plain hlevel hP h3 hstored, SizeLeavesRoom, if_pos rfl]
  · simp only [hc, if_false, ne_eq, not_false_iff, decide_true]
    exact encodedSize_le_iff_aes hlevel hP hstored

end

theorem getBridgingLevel_le (intf : Intf) : getBridgingLevel intf ≤ 2 := by
  unfold getBridgingLevel
  split_ifs <;> omega

theorem suite_three_encrypted {suite : CipherSuiteId} {c : Ciphers}
    (hc : getRequestedCiphers suite = some c) (hs : suite = 3) : c.cryptAlg ≠ cryptNone := by
  subst hs
  obtain rfl : (⟨authRakpHmacSha1, integrityHmacSha1, cryptAesCbc⟩ : Ciphers) = c :=
    Option.some.inj hc
  decide

/-- **Exactly which reported sizes are safe**, for every supported suite, every reported outbound
size and every bridging level on which the wire and the budget agree. -/
theorem budgetFits_iff (K : Primitives) (intf : Intf) (bp : Bool) (c : Ciphers) (P Q : UInt16)
    (hc : getRequestedCiphers intf.ssnParams.cipherSuiteId = some c) (hsup : Supported c)
    (hlevel : bridgedRequest intf bp = getBridgingLevel intf) :
    BudgetFits K (storePayloadSizes (setup intf) P Q) bp c P ↔
      SizeLeavesRoom intf.ssnParams.cipherSuiteId (c.cryptAlg ≠ cryptNone) (getBridgingLevel intf)
        P.toNat := by
  rw [budgetFits_iff_encodedSize hsup.1, storePayloadSizes_bridged, hlevel, getMaxRequestDataSize,
    storePayloadSizes_level]
  exact encodedSize_le_iff (suite_three_encrypted hc) (getBridgingLevel_le intf) P.toNat_lt
    (storePayloadSizes_request intf P Q)

/-- An interface that talks to the BMC itself, with the given suite. -/
def directIntf (suite : CipherSuiteId) : Intf :=
  { ssnParams := { cipherSuiteId := suite }, myAddr := 0x20, targetAddr := 0x20 }

/-- Suite 3 and a BMC that takes in 64 bytes. -/
theorem budgetFits_suite_three :
    BudgetFits (Primitives.tabled []) (storePayloadSizes (setup (directIntf 3)) 64 64) true
      ⟨authRakpHmacSha1, integrityHmacSha1, cryptAesCbc⟩ 64 :=
  (budgetFits_iff _ (directIntf 3) true _ 64 64 (by decide) (by unfold Supported; decide)
    (by decide)).mpr (by unfold SizeLeavesRoom; decide)

/-- Suite 17 and a BMC that takes in 1000 bytes: the encryption is not paid for, and a request of
the negotiated 993 bytes is encoded in 1024. -/
theorem not_budgetFits_suite_seventeen :
    ¬ BudgetFits (Primitives.tabled []) (storePayloadSizes (setup (directIntf 17)) 1000 1000) true
      ⟨authRakpHmacSha256, integrityHmacSha256, cryptAesCbc⟩ 1000 := by
  rw [budgetFits_iff_encodedSize (.inr rfl)]
  decide

end Ipmitool.Lanplus.PayloadSize
