import Ipmitool.Peer.Exchange

/-! # The packet format of both parties

The transport and the controller each have their own builder and their own reader of RMCP+ packets.
A packet of either of them is a header, the payload on the wire and perhaps a trailer
(`packetWith`). `openV2_packet` says when the controller finds the payload in it, and
`openPacket_packet` when the transport does; `packetOf_inSync` and `sendV2_inSync` say that each
party writes what the other one reads, in a session whose keys both have and outside of a
session. -/

namespace Ipmitool.Peer.Packets

open Ipmitool.Lib Ipmitool.Lib.Mem Ipmitool.Lib.Bytes Ipmitool.Lib.Machine
open Ipmitool.Core.Types Ipmitool.Core.Network
open Ipmitool.Crypto.Mac Ipmitool.Crypto.Padding Ipmitool.Crypto.LanplusCrypt
open Ipmitool.Lanplus.State Ipmitool.Lanplus.Receive Ipmitool.Lanplus.Packet
open Ipmitool.Lanplus.Build (packetOf sessionHeader sessionTrailer integrityPad)
open Ipmitool.Peer.Controller

variable {K : Primitives} {b b' : Bmc} {ss : Session}

/-! ### The format -/

/-- The bytes that an authcode covers, without the pad: the session header and the payload. -/
def coveredWith (t : UInt8) (id seq : UInt32) (out : List UInt8) : List UInt8 :=
  [0x06, t] ++ le32 id ++ le32 seq ++ le16 (UInt16.ofNat out.length) ++ out

/-- A packet with the type byte `t`, the payload `out` on the wire and a trailer. -/
def packetWith (t : UInt8) (id seq : UInt32) (out trailer : List UInt8) : List UInt8 :=
  rmcpHdr ++ coveredWith t id seq out ++ trailer

/-- A trailer that ends in the authcode over everything before it. -/
def Authentic (K : Primitives) (a : Algorithm) (key covered trailer : List UInt8) : Prop :=
  ∃ pad, 2 ≤ pad.length ∧ trailer = pad ++ (K.hmac a key (covered ++ pad)).take a.authcodeLength

theorem length_coveredWith (t : UInt8) (id seq : UInt32) (out : List UInt8) :
    (coveredWith t id seq out).length = 12 + out.length := by
  simp only [coveredWith, List.length_append, List.length_cons, List.length_nil, length_le32,
    length_le16]

theorem length_packetWith (t : UInt8) (id seq : UInt32) (out trailer : List UInt8) :
    (packetWith t id seq out trailer).length = 16 + out.length + trailer.length := by
  simp only [packetWith, List.length_append, length_coveredWith, rmcpHdr, List.length_cons,
    List.length_nil]
  omega

theorem Authentic.length {a : Algorithm} {key covered trailer : List UInt8}
    (h : Authentic K a key covered trailer) :
    2 + a.authcodeLength ≤ trailer.length := by
  obtain ⟨pad, hpad, rfl⟩ := h
  have := a.authcodeLength_le
  rw [List.length_append, List.length_take, K.length_hmac]
  omega

/-! ### The controller reads -/

theorem require_true {c : Prop} [Decidable c] {v : Violation} (h : c) : require c v = pure () :=
  if_pos h

theorem checkTrailer_ok {t : UInt8} {id seq : UInt32} {out trailer : List UInt8} {a : Algorithm}
    (ha : fromIntegrityId b.v2.integrityAlg = some a)
    (h : Authentic K a (b.v2.keys.k1.take b.v2.keys.k1Len) (coveredWith t id seq out) trailer) :
    checkTrailer K (packetWith t id seq out trailer) out.length b = .ok (true, b) := by
  have hlen := h.length
  obtain ⟨pad, -, rfl⟩ := h
  set mac := (K.hmac a (b.v2.keys.k1.take b.v2.keys.k1Len) (coveredWith t id seq out ++ pad)).take
    a.authcodeLength with hmac
  have hmaclen : mac.length = a.authcodeLength := by
    rw [hmac, List.length_take, K.length_hmac]
    exact Nat.min_eq_left a.authcodeLength_le
  have hsplit : packetWith t id seq out (pad ++ mac) =
      (rmcpHdr ++ (coveredWith t id seq out ++ pad)) ++ mac := by
    simp only [packetWith, List.append_assoc]
  have hfront : (packetWith t id seq out (pad ++ mac)).length - a.authcodeLength =
      (rmcpHdr ++ (coveredWith t id seq out ++ pad)).length := by
    rw [hsplit, List.length_append, hmaclen, Nat.add_sub_cancel]
  unfold checkTrailer
  simp only [bind_ok, get_ok]
  refine ⟨b, b, ⟨rfl, rfl⟩, ?_⟩
  rw [ha]
  dsimp only
  rw [if_neg (by rw [length_packetWith]; omega), hfront, hsplit, List.drop_left, List.take_left,
    List.drop_left' (show rmcpHdr.length = 4 from rfl), require_true rfl]
  rfl

theorem decode_encrypted {iv plain : List UInt8} (hiv : iv.length = 16)
    (hlen : plain.length ≤ 1000) :
    decode K (iv ++ aesCbcEncrypt K (b.v2.keys.k2.take 16) iv (padded plain)) b =
      .ok (some plain, b) := by
  have hpadLe := padLength_le plain.length
  have hpadded : padded plain = pad plain := rfl
  have hbody : (padded plain).length = plain.length + padLength plain.length + 1 := by
    rw [hpadded, length_pad]
    rfl
  have hmod : (padded plain).length % 16 = 0 := by
    rw [hpadded, length_pad]
    exact paddedLength_mod _
  have hcipher : (aesCbcEncrypt K (b.v2.keys.k2.take 16) iv (padded plain)).length =
      (padded plain).length :=
    K.length_cbcEncrypt hiv hmod
  have hdec : aesCbcDecrypt K (b.v2.keys.k2.take 16) iv
      (aesCbcEncrypt K (b.v2.keys.k2.take 16) iv (padded plain)) =
      padded plain := K.cbcDecrypt_cbcEncrypt hiv hmod
  have hlast : ((padded plain).getLastD 0).toNat = padLength plain.length := by
    rw [hpadded, pad, List.getLastD_concat, UInt8.toNat_ofNat']
    omega
  unfold decode
  rw [if_neg (by rw [List.length_append, hcipher]; omega),
    if_neg (by rw [List.length_append, hcipher]; omega)]
  simp only [bind_ok, get_ok]
  refine ⟨b, b, ⟨rfl, rfl⟩, ?_⟩
  rw [List.take_left' hiv, List.drop_left' hiv, hdec, hlast, if_neg (by omega), if_neg (by omega)]
  have hn : (padded plain).length - 1 - padLength plain.length = plain.length := by omega
  have htake : (padded plain).take plain.length = plain := by
    rw [hpadded, pad, List.append_assoc, List.take_left]
  have hdrop : ((padded plain).drop plain.length).dropLast = padBytes (padLength plain.length) := by
    rw [hpadded, pad, List.append_assoc, List.drop_left, List.dropLast_concat]
  rw [hn, htake, hdrop, require_true ⟨rfl, rfl⟩]
  rfl

/-- **The controller finds the payload**: with an authentic trailer, if the packet claims to have
one, and a payload that decodes, if it claims to be encrypted. -/
theorem openV2_packet {t : UInt8} {id seq : UInt32} {out trailer plain : List UInt8}
    (hout : out.length < 65536)
    (htrailer : t &&& 0x40 ≠ 0 → ∃ a, fromIntegrityId b.v2.integrityAlg = some a ∧
      Authentic K a (b.v2.keys.k1.take b.v2.keys.k1Len) (coveredWith t id seq out) trailer)
    (hplain : if t &&& 0x80 ≠ 0 then decode K out b = .ok (some plain, b) else plain = out) :
    openV2 K (packetWith t id seq out trailer) b =
      .ok (some { ptype := t &&& 0x3f, sessionId := id, plain }, b) := by
  set req := packetWith t id seq out trailer with hreq
  have h5 : req.getD 5 0 = t := rfl
  have hid : ofLe32 (req.getD 6 0) (req.getD 7 0) (req.getD 8 0) (req.getD 9 0) = id :=
    ofLe32_le32 id
  have hsize : (ofLe16 (req.getD 14 0) (req.getD 15 0)).toNat = out.length := by
    have h : ofLe16 (req.getD 14 0) (req.getD 15 0) = UInt16.ofNat out.length := ofLe16_le16 _
    rw [h, UInt16.toNat_ofNat', Nat.mod_eq_of_lt hout]
  have hpayload : (req.drop 16).take out.length = out := by
    have h : req.drop 16 = out ++ trailer := rfl
    rw [h, List.take_left]
  have hlen : req.length = 16 + out.length + trailer.length := length_packetWith _ _ _ _ _
  have hcheck : checkIntegrity K req out.length b = .ok (true, b) := by
    unfold checkIntegrity
    rw [h5]
    split_ifs with hauth
    · obtain ⟨a, ha, h⟩ := htrailer hauth
      exact checkTrailer_ok ha h
    · rfl
  have hdecode : plainText K req out b = .ok (some plain, b) := by
    unfold plainText
    rw [h5]
    split_ifs at hplain ⊢ with henc
    · exact hplain
    · rw [hplain]
      rfl
  unfold openV2
  rw [if_neg (by omega), hsize, if_neg (by omega), hpayload, h5, hid]
  rw [bind_run hcheck]
  simp only [Bool.not_true, Bool.false_eq_true, if_false]
  rw [bind_run hdecode]
  rfl

/-! ### The transport reads -/

theorem readSessionData_covered {r : Response} {t : UInt8} {id seq : UInt32} {out : List UInt8}
    (h : Holds r.data 4 (coveredWith t id seq out)) :
    readSessionData r 4 = ({ r with session :=
      { authtype := authtypeRmcpPlus
        bEncrypted := t &&& 0x80 != 0
        bAuthenticated := t &&& 0x40 != 0
        payloadtype := t &&& 0x3f
        id, seq
        msglen := UInt16.ofNat out.length } }, 16) := by
  simp only [coveredWith, le32, le16, List.cons_append, List.nil_append, holds_cons] at h
  obtain ⟨h4, h5, h6, h7, h8, h9, h10, h11, h12, h13, h14, h15, -⟩ := h
  have h4 : r.data 4 = authtypeRmcpPlus := h4
  rw [readSessionData, if_pos h4, readSessionDataV2x]
  simp only [h4, h5, h6, h7, h8, h9, h10, h11, h12, h13, h14, h15, ofLe32_le32, ofLe16_le16]

/-- What the transport finds in a packet. -/
structure Found (r : Response) (ptype : UInt8) (payload : List UInt8) (r' : Response)
    (size : UInt16) : Prop where
  type : r'.session.payloadtype = ptype
  format : r'.session.authtype = authtypeRmcpPlus
  size : size.toNat = payload.length
  holds : Holds r'.data 16 payload
  ccode : r'.ccode = r.ccode
  payload : r'.payload = r.payload

theorem hasValidAuthCode_packet {r : Response} {t : UInt8} {id seq : UInt32}
    {out trailer : List UInt8}
    (hr : Holds r.data 0 (packetWith t id seq out trailer))
    (hlen : r.dataLen = ((packetWith t id seq out trailer).length : ℤ))
    (hfit : (packetWith t id seq out trailer).length ≤ bufSize)
    (hauth : ss.v2.sessionState = .active → r.session.bAuthenticated = true →
      ss.v2.integrityAlg ≠ integrityNone → ∃ a, algorithmFor ss.v2.integrityAlg = some a ∧
        integrityAuthcodeLength ss.v2.integrityAlg = some a.authcodeLength ∧
          Authentic K a (ss.v2.k1.take ss.v2.k1Len) (coveredWith t id seq out) trailer) :
    hasValidAuthCode K r ss = .ok true := by
  by_cases hskip : r.session.authtype ≠ authtypeRmcpPlus ∨ ss.v2.sessionState ≠ .active ∨
      r.session.bAuthenticated = false ∨ ss.v2.integrityAlg = integrityNone
  · exact if_pos hskip
  · simp only [not_or, not_not, Bool.not_eq_false] at hskip
    obtain ⟨-, hactive, hbit, hint⟩ := hskip
    obtain ⟨a, ha, hn, pad, -, rfl⟩ := hauth hactive hbit hint
    have hmac : ((K.hmac a (ss.v2.k1.take ss.v2.k1Len) (coveredWith t id seq out ++ pad)).take
        a.authcodeLength).length = a.authcodeLength := by
      rw [List.length_take, K.length_hmac]
      exact Nat.min_eq_left a.authcodeLength_le
    have htotal : (packetWith t id seq out (pad ++ (K.hmac a (ss.v2.k1.take ss.v2.k1Len)
        (coveredWith t id seq out ++ pad)).take a.authcodeLength)).length =
          4 + (coveredWith t id seq out ++ pad).length + a.authcodeLength := by
      rw [length_packetWith, List.length_append, hmac, List.length_append, length_coveredWith]
      omega
    rw [packetWith, List.append_assoc, holds_append] at hr
    refine hasValidAuthCode_self hn ha a.authcodeLength_le (by rw [← htotal]; exact hfit)
      (by rw [hlen, htotal]) ?_
    rw [List.append_assoc]
    exact hr.2

/-- **The transport finds the payload**: in a packet for its session, with an authentic trailer, if
the packet claims to have one, and a payload that decrypts, if it claims to be encrypted. -/
theorem openPacket_packet {r : Response} {t : UInt8} {id seq : UInt32}
    {out trailer plain : List UInt8}
    (hr : Holds r.data 0 (packetWith t id seq out trailer))
    (hlen : r.dataLen = ((packetWith t id seq out trailer).length : ℤ))
    (hfit : (packetWith t id seq out trailer).length ≤ bufSize)
    (hid : ss.v2.sessionState = .active → id = ss.v2.consoleId)
    (hauth : ss.v2.sessionState = .active → t &&& 0x40 ≠ 0 → ss.v2.integrityAlg ≠ integrityNone →
      ∃ a, algorithmFor ss.v2.integrityAlg = some a ∧
        integrityAuthcodeLength ss.v2.integrityAlg = some a.authcodeLength ∧
          Authentic K a (ss.v2.k1.take ss.v2.k1Len) (coveredWith t id seq out) trailer)
    (hplain : if ss.v2.sessionState = .active ∧ t &&& 0x80 ≠ 0 then ∃ rest size,
      decryptPayload K ss.v2.cryptAlg ss.v2.k2 out = .ok (plain ++ rest, size) ∧
        size.toNat = plain.length else plain = out) :
    ∃ r' size, openPacket K ss r = .ok (.payload r' 16 size) ∧
    Found r (t &&& 0x3f) plain r' size := by
  have hsplit := hr
  rw [packetWith, List.append_assoc, holds_append] at hsplit
  obtain ⟨hhdr, hrest⟩ := hsplit
  have hcov : Holds r.data 4 (coveredWith t id seq out) := (holds_append.mp hrest).1
  have hout : Holds r.data 16 out := by
    have h := (holds_append.mp hcov).2
    simpa using h
  have h3 : r.data 3 = rmcpClassIpmi := by
    simp only [rmcpHdr, holds_cons] at hhdr
    exact hhdr.2.2.2.1
  have hread := readSessionData_covered hcov
  have hsize : out.length < 65536 ∧ 16 + out.length ≤ bufSize := by
    rw [length_packetWith] at hfit
    unfold bufSize at hfit ⊢
    omega
  have hmsglen : (UInt16.ofNat out.length).toNat = out.length := by
    rw [UInt16.toNat_ofNat', Nat.mod_eq_of_lt hsize.1]
  set r1 : Response := { r with session :=
      { authtype := authtypeRmcpPlus
        bEncrypted := t &&& 0x80 != 0
        bAuthenticated := t &&& 0x40 != 0
        payloadtype := t &&& 0x3f
        id, seq
        msglen := UInt16.ofNat out.length } } with hr1
  have hother : ¬ otherSession ss r1 := by
    rintro ⟨hactive, -, hne⟩
    exact hne (hid hactive)
  have hvalid : hasValidAuthCode K r1 ss = .ok true := by
    refine hasValidAuthCode_packet hr hlen hfit fun hactive hbit hint => hauth hactive ?_ hint
    exact bne_iff_ne.mp hbit
  have hopened : ∃ r' size, openPayload K ss r1 16 = .ok (r', size) ∧
      Found r (t &&& 0x3f) plain r' size := by
    unfold openPayload
    by_cases henc : ss.v2.sessionState = .active ∧ t &&& 0x80 ≠ 0
    · rw [if_pos henc] at hplain
      obtain ⟨rest, size, hdec, hlen'⟩ := hplain
      rw [if_pos ⟨henc.1, rfl, bne_iff_ne.mpr henc.2⟩, if_neg (by
        change ¬ bufSize < 16 + (UInt16.ofNat out.length).toNat
        rw [hmsglen]
        exact Nat.not_lt.mpr hsize.2)]
      have hbytes : read r1.data 16 r1.session.msglen.toNat = out := by
        change read r.data 16 (UInt16.ofNat out.length).toNat = out
        rw [hmsglen]
        exact hout
      rw [hbytes, hdec]
      refine ⟨_, size, rfl, rfl, rfl, hlen', ?_, rfl, rfl⟩
      exact (holds_append.mp (holds_write r1.data 16 (plain ++ rest))).1
    · rw [if_neg henc] at hplain
      rw [if_neg fun h => henc ⟨h.1, bne_iff_ne.mp h.2.2⟩]
      exact ⟨r1, _, rfl, rfl, rfl, by rw [hplain]; exact hmsglen, by rw [hplain]; exact hout,
        rfl, rfl⟩
  obtain ⟨r', size, hopen, hfound⟩ := hopened
  refine ⟨r', size, ?_, hfound⟩
  unfold openPacket
  rw [if_neg (by rw [h3]; decide), if_neg (not_not.mpr h3), hread]
  dsimp only
  rw [if_neg hother, hvalid]
  change (openPayload K ss r1 16 >>= _) = _
  rw [hopen]
  rfl

/-! ### A session of both parties -/

/-- **The two parties share a session**: both are active, with each other's session ids, the same
algorithms and, as far as the algorithms use them, the same keys. -/
structure Secure (ss : Session) (b : Bmc) : Prop where
  console : ss.v2.sessionState = .active
  bmc : b.v2.state = .active
  bmcId : ss.v2.bmcId = b.p.bmcId
  consoleId : b.v2.consoleId = ss.v2.consoleId
  integrityAlg : b.v2.integrityAlg = ss.v2.integrityAlg
  cryptAlg : b.v2.cryptAlg = ss.v2.cryptAlg
  integrityKnown : KnownIntegrity ss.v2.integrityAlg
  cryptKnown : KnownCrypt ss.v2.cryptAlg
  k1 : ss.v2.integrityAlg ≠ integrityNone →
    b.v2.keys.k1.take b.v2.keys.k1Len = ss.v2.k1.take ss.v2.k1Len
  k2 : ss.v2.cryptAlg ≠ cryptNone → b.v2.keys.k2.take 16 = ss.v2.k2.take 16

/-- The two parties share a session or neither of them is in one. -/
def InSync (ss : Session) (b : Bmc) : Prop :=
  Secure ss b ∨ ss.v2.sessionState ≠ .active ∧ b.v2.state ≠ .active

/-- The payload types of table 13-16 that the parties use. -/
def payloadTypes : List UInt8 :=
  [ptIpmi, ptSol, ptOpenRequest, ptOpenResponse, ptRakp1, ptRakp2, ptRakp3, ptRakp4]

theorem typeByte {t : UInt8} (ht : t ∈ payloadTypes) (c i : Prop) [Decidable c] [Decidable i] :
    ((t ||| (if c then 0x80 else 0) ||| if i then 0x40 else 0) &&& 0x80 ≠ 0 ↔ c) ∧
      ((t ||| (if c then 0x80 else 0) ||| if i then 0x40 else 0) &&& 0x40 ≠ 0 ↔ i) ∧
        (t ||| (if c then 0x80 else 0) ||| if i then 0x40 else 0) &&& 0x3f = t := by
  simp only [payloadTypes, List.mem_cons, List.not_mem_nil, or_false] at ht
  by_cases hc : c <;> by_cases hi : i <;> simp only [hc, hi, if_true, if_false, iff_true, iff_false]
    <;>
    rcases ht with rfl | rfl | rfl | rfl | rfl | rfl | rfl | rfl <;> decide

theorem KnownIntegrity.algorithm {alg : UInt8} (h : KnownIntegrity alg)
    (hne : alg ≠ integrityNone) :
    ∃ a, algorithmFor alg = some a ∧ fromIntegrityId alg = some a ∧
      integrityAuthcodeLength alg = some a.authcodeLength := by
  rcases h with rfl | rfl | rfl | rfl
  · exact absurd rfl hne
  · exact ⟨.sha1, rfl, rfl, rfl⟩
  · exact ⟨.md5, rfl, rfl, rfl⟩
  · exact ⟨.sha256, rfl, rfl, rfl⟩

theorem length_encrypted {key iv plain : List UInt8} (hiv : iv.length = 16) :
    (iv ++ aesCbcEncrypt K key iv (padded plain)).length = 16 + paddedLength plain.length := by
  have hmod : (padded plain).length % 16 = 0 := by
    rw [show padded plain = pad plain from rfl, length_pad]
    exact paddedLength_mod _
  have hcipher : (aesCbcEncrypt K key iv (padded plain)).length = (padded plain).length :=
    K.length_cbcEncrypt hiv hmod
  rw [List.length_append, hcipher, hiv, show padded plain = pad plain from rfl, length_pad]

theorem paddedLength_le (n : ℕ) : paddedLength n ≤ n + 16 := by
  have := padLength_le n
  unfold paddedLength
  omega

/-- The transport decrypts what is padded and chained the way the controller does it. -/
theorem decryptPayload_encrypted {key iv plain : List UInt8} (hiv : iv.length = 16)
    (hlen : plain.length ≤ 1000) :
    decryptPayload K cryptAesCbc key (iv ++ aesCbcEncrypt K (key.take 16) iv (padded plain)) =
      .ok (plain ++ (padded plain).drop plain.length, UInt16.ofNat plain.length) := by
  have htotal := @length_encrypted K (key.take 16) iv plain hiv
  have hle := paddedLength_le plain.length
  have hmod := paddedLength_mod plain.length
  have hpos : 0 < paddedLength plain.length := by
    unfold paddedLength
    omega
  have hpad : (pad plain).length % 16 = 0 := by
    rw [length_pad]
    exact hmod
  have hdec : K.cbcDecrypt (key.take 16) iv (aesCbcEncrypt K (key.take 16) iv (padded plain)) =
      pad plain :=
    K.cbcDecrypt_cbcEncrypt hiv hpad
  have htext : plain ++ (padded plain).drop plain.length = pad plain := by
    change plain ++ (pad plain).drop plain.length = pad plain
    rw [pad, List.append_assoc, List.drop_left]
  unfold decryptPayload
  rw [if_neg (by decide), if_neg (by simp)]
  simp only [htotal, blockSize]
  rw [if_neg (by omega), if_neg (by omega), List.take_left' hiv, List.drop_left' hiv, hdec,
    payloadLength_pad (by omega), htext]

theorem Secure.of_eq {ss' : Session} (h : Secure ss b) (hv : ss'.v2 = ss.v2) (hp : b'.p = b.p)
    (hb : ∃ seq, b'.v2 = { b.v2 with seq }) : Secure ss' b' := by
  obtain ⟨seq, hb⟩ := hb
  obtain ⟨_, _, _, _, _, _, _, _, _, _⟩ := h
  constructor <;> simp only [hv, hb, hp] <;> assumption

theorem InSync.of_eq {ss' : Session} (h : InSync ss b) (hv : ss'.v2 = ss.v2) (hp : b'.p = b.p)
    (hb : ∃ seq, b'.v2 = { b.v2 with seq }) : InSync ss' b' := by
  rcases h with h | h
  · exact .inl (h.of_eq hv hp hb)
  · obtain ⟨seq, hb⟩ := hb
    exact .inr (by rw [hv, hb]; exact h)

/-- The largest payload that is certain to fit the response buffer with everything around it. -/
def maxPayload : ℕ := 950

section Secure
variable (hs : Secure ss b)
include hs

theorem encryptPayload_decodes {written iv : List UInt8} (hlen : written.length ≤ maxPayload)
    (hiv : ss.v2.cryptAlg ≠ cryptNone → iv.length = 16) :
    ∃ out, encryptPayload K ss.v2.cryptAlg ss.v2.k2 written iv =
      .ok (out, UInt16.ofNat out.length) ∧
      out.length ≤ written.length + 32 ∧
        (if ss.v2.cryptAlg ≠ cryptNone then decode K out b = .ok (some written, b)
          else written = out) := by
  unfold maxPayload at hlen
  rcases hs.cryptKnown with hc | hc
  · exact ⟨written, by rw [hc]; rfl, by omega, by rw [if_neg (not_not.mpr hc)]⟩
  · have hne : ss.v2.cryptAlg ≠ cryptNone := by
      rw [hc]
      decide
    have hiv16 := hiv hne
    have hle := paddedLength_le written.length
    refine ⟨iv ++ aesCbcEncrypt K (ss.v2.k2.take 16) iv (padded written), ?_, ?_, ?_⟩
    · rw [length_encrypted hiv16, hc]
      unfold encryptPayload
      rw [if_neg (by decide), if_neg (by simp), if_neg (by omega)]
      rfl
    · rw [length_encrypted hiv16]
      omega
    · rw [if_pos hne, ← hs.k2 hne]
      exact decode_encrypted hiv16 (by omega)

theorem sessionTrailer_authentic (intf : Intf) (covered : List UInt8)
    (hne : ss.v2.integrityAlg ≠ integrityNone) :
    ∃ trailer, sessionTrailer K intf ss covered = .ok trailer ∧ ∃ a,
      fromIntegrityId b.v2.integrityAlg = some a ∧
      Authentic K a (b.v2.keys.k1.take b.v2.keys.k1Len) covered trailer := by
  obtain ⟨a, ha, hfrom, hlength⟩ := KnownIntegrity.algorithm hs.integrityKnown hne
  obtain ⟨a', ha', -, htr⟩ := sessionTrailer_ok (K := K) intf covered hlength
  obtain rfl : a = a' := Option.some.inj (ha.symm.trans ha')
  refine ⟨_, htr, a, by rw [hs.integrityAlg]; exact hfrom, integrityPad intf covered.length, ?_, ?_⟩
  · simp [integrityPad]
  · rw [hs.k1 hne]

/-- The controller's payload on the wire, which the transport decrypts. -/
theorem wire_decrypts {payload : List UInt8} (hlen : payload.length ≤ maxPayload) :
    ∃ out, b.wire K payload = .ok out ∧ out.length ≤ payload.length + 32 ∧
      (if ss.v2.cryptAlg ≠ cryptNone then ∃ rest size,
        decryptPayload K ss.v2.cryptAlg ss.v2.k2 out =
        .ok (payload ++ rest, size) ∧ size.toNat = payload.length else payload = out) := by
  unfold maxPayload at hlen
  by_cases hne : ss.v2.cryptAlg ≠ cryptNone
  · have henc : b.encrypts := ⟨hs.bmc, by rw [hs.cryptAlg]; exact hne⟩
    have hc : ss.v2.cryptAlg = cryptAesCbc := hs.cryptKnown.resolve_left hne
    have hiv : (ivOf b.v2.seq).length = 16 := rfl
    have hle := paddedLength_le payload.length
    have hpad : (padded payload).length = paddedLength payload.length := length_pad payload
    refine ⟨ivOf b.v2.seq ++ aesCbcEncrypt K (b.v2.keys.k2.take 16) (ivOf b.v2.seq)
      (padded payload), ?_, ?_, ?_⟩
    · unfold Bmc.wire
      rw [if_pos henc, if_neg (by rw [hpad]; omega)]
    · rw [length_encrypted hiv]
      omega
    · rw [if_pos hne, hc, hs.k2 hne]
      refine ⟨_, _, decryptPayload_encrypted hiv (by omega), ?_⟩
      rw [UInt16.toNat_ofNat', Nat.mod_eq_of_lt (by omega)]
  · refine ⟨payload, ?_, by omega, by rw [if_neg hne]⟩
    unfold Bmc.wire
    rw [if_neg fun h => hne (by rw [← hs.cryptAlg]; exact h.2)]

theorem trailer_authentic (covered : List UInt8) (n : ℕ) :
    ∃ trailer, b.trailer K covered n = .ok trailer ∧
    trailer.length ≤ 21 ∧ (ss.v2.integrityAlg ≠ integrityNone → ∃ a,
      algorithmFor ss.v2.integrityAlg = some a ∧
      integrityAuthcodeLength ss.v2.integrityAlg = some a.authcodeLength ∧
        Authentic K a (ss.v2.k1.take ss.v2.k1Len) covered trailer) := by
  unfold Bmc.trailer
  by_cases hne : ss.v2.integrityAlg = integrityNone
  · rw [if_neg fun h => h.2 (by rw [hs.integrityAlg]; exact hne)]
    exact ⟨[], rfl, by decide, fun h => absurd hne h⟩
  · obtain ⟨a, ha, hfrom, hlength⟩ := KnownIntegrity.algorithm hs.integrityKnown hne
    rw [if_pos ⟨hs.bmc, by rw [hs.integrityAlg]; exact hne⟩, hs.integrityAlg, hfrom]
    have hpad : (trailerPad n).length ≤ 5 ∧ 2 ≤ (trailerPad n).length := by
      simp only [trailerPad, List.length_append, List.length_replicate, List.length_cons,
        List.length_nil]
      split_ifs <;> omega
    have hmac : a.authcodeLength ≤ 16 := by cases a <;> decide
    refine ⟨_, rfl, ?_, fun _ => ⟨a, ha, hlength, trailerPad n, hpad.2, by rw [hs.k1 hne]⟩⟩
    rw [List.length_append, List.length_take]
    omega

end Secure

/-- **What the transport writes, the controller reads.** -/
theorem packetOf_inSync (intf : Intf) {type : UInt8} {written iv : List UInt8} (hsync : InSync ss b)
    (htype : type ∈ payloadTypes) (hlen : written.length ≤ maxPayload)
    (hiv : ss.v2.sessionState = .active → ss.v2.cryptAlg ≠ cryptNone → iv.length = 16) :
    ∃ t id seq out trailer, packetOf K intf ss type written (UInt16.ofNat written.length) iv =
        .ok (packetWith t id seq out trailer) ∧
      openV2 K (packetWith t id seq out trailer) b =
        .ok (some { ptype := type, sessionId := id, plain := written }, b) ∧
      (b.v2.state = .active → id = b.p.bmcId) := by
  have htake : ∀ l : List UInt8, l.length ≤ 1000 → l.take (UInt16.ofNat l.length).toNat = l := by
    intro l hl
    rw [UInt16.toNat_ofNat', List.take_of_length_le]
    omega
  rcases hsync with hs | ⟨hss, hb⟩
  · obtain ⟨out, henc, hout, hplain⟩ := encryptPayload_decodes (K := K) hs hlen (hiv hs.console)
    unfold maxPayload at hlen
    obtain ⟨h80, h40, h3f⟩ :=
      typeByte htype (ss.v2.cryptAlg ≠ cryptNone) (ss.v2.integrityAlg ≠ integrityNone)
    set t := type ||| (if ss.v2.cryptAlg ≠ cryptNone then 0x80 else 0) |||
      (if ss.v2.integrityAlg ≠ integrityNone then 0x40 else 0) with ht
    have hcovered : sessionHeader ss type (UInt16.ofNat out.length) ++ out =
        coveredWith t ss.v2.bmcId ss.outSeq out := by
      rw [sessionHeader, if_pos hs.console]
      rfl
    obtain ⟨trailer, htr, hauth⟩ : ∃ trailer, (if ss.v2.integrityAlg = integrityNone then pure []
        else sessionTrailer K intf ss (coveredWith t ss.v2.bmcId ss.outSeq out) :
          Except Fault (List UInt8)) =
          .ok trailer ∧ (ss.v2.integrityAlg ≠ integrityNone →
            ∃ a, fromIntegrityId b.v2.integrityAlg = some a ∧
            Authentic K a (b.v2.keys.k1.take b.v2.keys.k1Len)
            (coveredWith t ss.v2.bmcId ss.outSeq out) trailer) := by
      by_cases hn : ss.v2.integrityAlg = integrityNone
      · exact ⟨[], if_pos hn, fun h => absurd hn h⟩
      · obtain ⟨trailer, htr, h⟩ := sessionTrailer_authentic (K := K) hs intf
          (coveredWith t ss.v2.bmcId ss.outSeq out) hn
        exact ⟨trailer, (if_neg hn).trans htr, fun _ => h⟩
    refine ⟨t, ss.v2.bmcId, ss.outSeq, out, trailer, ?_, ?_, fun _ => hs.bmcId⟩
    · unfold packetOf
      rw [if_pos hs.console, htake written (by omega), henc]
      by_cases hn : ss.v2.integrityAlg = integrityNone
      · rw [if_pos hn] at htr
        obtain rfl := Except.ok.inj htr
        simp only [bind, Except.bind, pure, Except.pure, hn, if_true,
          htake out (by omega), hcovered]
        rfl
      · rw [if_neg hn] at htr
        simp only [bind, Except.bind, pure, Except.pure, hn, if_false, htake out (by omega),
          hcovered, htr]
        rfl
    · have hopen : openV2 K (packetWith t ss.v2.bmcId ss.outSeq out trailer) b =
          .ok (some { ptype := t &&& 0x3f, sessionId := ss.v2.bmcId, plain := written }, b) := by
        refine openV2_packet (by omega) (fun h => hauth (h40.mp h)) ?_
        simp only [h80]
        exact hplain
      rw [h3f] at hopen
      exact hopen
  · unfold maxPayload at hlen
    obtain ⟨h80, h40, h3f⟩ := typeByte htype False False
    simp only [if_false, UInt8.or_zero, iff_false, not_not] at h80 h40 h3f
    refine ⟨type, 0, 0, written, [], ?_, ?_, fun h => absurd h hb⟩
    · unfold packetOf
      rw [if_neg hss, htake written (by omega), sessionHeader, if_neg hss]
      simp only [packetWith, coveredWith, List.append_nil, List.append_assoc]
      rfl
    · have hopen : openV2 K (packetWith type 0 0 written []) b =
          .ok (some { ptype := type &&& 0x3f, sessionId := 0, plain := written }, b) := by
        refine openV2_packet (by omega) (fun h => absurd h40 h) ?_
        rw [if_neg (not_not.mpr h80)]
      rw [h3f] at hopen
      exact hopen

/-- **What the controller writes, the transport reads.** -/
theorem sendV2_inSync {ptype : UInt8} {payload : List UInt8} (hsync : InSync ss b)
    (htype : ptype ∈ payloadTypes) (hlen : payload.length ≤ maxPayload) :
    ∃ reply seq, sendV2 K ptype payload b = .ok (reply, { b with v2 := { b.v2 with seq } }) ∧
      reply ≠ [] ∧
      reply.length < bufSize ∧ ∀ r : Response, Holds r.data 0 reply →
        r.dataLen = (reply.length : ℤ) →
        ∃ r' size, openPacket K ss r = .ok (.payload r' 16 size) ∧
        Found r ptype payload r' size := by
  rcases hsync with hs | ⟨hss, hb⟩
  · obtain ⟨out, hwire, hout, hplain⟩ := wire_decrypts (K := K) hs hlen
    unfold maxPayload at hlen
    obtain ⟨h80, h40, h3f⟩ := typeByte htype b.encrypts b.authenticates
    set t := ptype ||| (if b.encrypts then 0x80 else 0) ||| (if b.authenticates then 0x40
      else 0) with ht
    obtain ⟨trailer, htr, htrLen, hauth⟩ := trailer_authentic (K := K) hs
      (coveredWith t b.v2.consoleId b.v2.seq out) out.length
    have hcovered : b.header ptype out.length ++ out =
        coveredWith t b.v2.consoleId b.v2.seq out := by
      rw [Bmc.header, if_pos hs.bmc, if_pos hs.bmc]
      rfl
    have hreply := length_packetWith t b.v2.consoleId b.v2.seq out trailer
    have hfit : (packetWith t b.v2.consoleId b.v2.seq out trailer).length < bufSize := by
      unfold bufSize
      omega
    refine ⟨packetWith t b.v2.consoleId b.v2.seq out trailer, Controller.nextSeq b.v2.seq, ?_,
      ?_, hfit, ?_⟩
    · unfold sendV2
      simp only [bind_ok, get_ok, lift_ok]
      refine ⟨b, b, ⟨rfl, rfl⟩, out, b, ⟨hwire, rfl⟩, ?_⟩
      rw [if_neg (by omega)]
      simp only [bind_ok, lift_ok]
      refine ⟨trailer, b, ⟨by rw [hcovered]; exact htr, rfl⟩, ?_⟩
      rw [if_pos hs.bmc]
      simp only [modifyV2, bind_ok, modify_ok, pure_ok]
      exact ⟨⟨⟩, _, rfl, by rw [hcovered]; rfl, rfl⟩
    · rintro h
      rw [h, List.length_nil] at hreply
      omega
    · intro r hr hrlen
      rw [← h3f]
      refine openPacket_packet hr hrlen (Nat.le_of_lt hfit) (fun _ => hs.consoleId)
        (fun _ _ => hauth) ?_
      have henc : (ss.v2.sessionState = .active ∧ t &&& 0x80 ≠ 0) ↔ ss.v2.cryptAlg ≠ cryptNone := by
        rw [h80, Bmc.encrypts, hs.cryptAlg]
        exact ⟨fun h => h.2.2, fun h => ⟨hs.console, hs.bmc, h⟩⟩
      simp only [henc]
      exact hplain
  · unfold maxPayload at hlen
    obtain ⟨h80, h40, h3f⟩ := typeByte htype False False
    simp only [if_false, UInt8.or_zero, iff_false, not_not] at h80 h40 h3f
    have henc : ¬ b.encrypts := fun h => hb h.1
    have hau : ¬ b.authenticates := fun h => hb h.1
    have hcovered : b.header ptype payload.length ++ payload = coveredWith ptype 0 0 payload := by
      rw [Bmc.header, if_neg henc, if_neg hau, if_neg hb, if_neg hb, UInt8.or_zero, UInt8.or_zero]
      rfl
    have hreply := length_packetWith ptype 0 0 payload []
    rw [List.length_nil] at hreply
    have hfit : (packetWith ptype 0 0 payload []).length < bufSize := by
      unfold bufSize
      omega
    refine ⟨packetWith ptype 0 0 payload [], b.v2.seq, ?_, ?_, hfit, ?_⟩
    · unfold sendV2
      simp only [bind_ok, get_ok, lift_ok]
      refine ⟨b, b, ⟨rfl, rfl⟩, payload, b, ⟨if_neg henc, rfl⟩, ?_⟩
      rw [if_neg (by omega)]
      simp only [bind_ok, lift_ok]
      refine ⟨[], b, ⟨if_neg hau, rfl⟩, ?_⟩
      rw [if_neg hb]
      rw [hcovered]
      exact pure_ok.mpr ⟨rfl, rfl⟩
    · rintro h
      rw [h, List.length_nil] at hreply
      omega
    · intro r hr hrlen
      rw [← h3f]
      refine openPacket_packet hr hrlen (Nat.le_of_lt hfit) (fun h => absurd h hss)
        (fun h => absurd h hss) ?_
      rw [if_neg fun h => hss h.1]

end Ipmitool.Peer.Packets
