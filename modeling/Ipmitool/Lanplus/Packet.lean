import Ipmitool.Lanplus.Bridging

/-! # What the session layer guarantees about packets

Two results about one packet. `buildV2xMsg_roundTrip`: a packet that the builder makes in an active
session, put into the response buffer, is parsed to the type, the session id and the sequence number
it was built with, passes the authcode check and decrypts to the bytes of its payload, as long as it
fits the buffer. `pollSingle_authentic`: a datagram that claims to be authenticated is handed back
only if its authcode is the one computed under K1; one that claims not to be is not checked. -/

namespace Ipmitool.Lanplus.Packet

open Ipmitool.Lib.Mem Ipmitool.Lib.Bytes Ipmitool.Lib.Machine Ipmitool.Core.Types
open Ipmitool.Crypto.Mac Ipmitool.Crypto.Padding Ipmitool.Crypto.LanplusCrypt
open Ipmitool.Lanplus.State Ipmitool.Lanplus.Receive Ipmitool.Lanplus.Build
open Ipmitool.Lanplus.Bridging

variable {K : Primitives}

/-! ### The payload -/

/-- An IPMI or a serial-over-LAN payload. -/
def IsSessionPayload : V2Payload → Prop
  | .ipmi _ | .sol _ => True
  | _ => False

theorem wireLength_eq {intf : Intf} {bp : Bool} {seq : UInt8} {payload : V2Payload}
    (hp : IsSessionPayload payload) (hfit : (wireRep intf bp seq payload).length ≤ bufSize) :
    wireLength intf bp payload = .ok (UInt16.ofNat (wireRep intf bp seq payload).length) := by
  cases payload with
  | ipmi req =>
    have hlen : (wireRep intf bp seq (.ipmi req)).length =
        req.data.length + 7 + 8 * bridgedRequest intf bp :=
      length_getIpmiPayloadWireRep intf bp req seq seq
    unfold bufSize at hfit
    rw [wireLength, if_neg (by omega), hlen, ← UInt16.ofNat_add]
  | sol p =>
    have hlen : (wireRep intf bp seq (.sol p)).length = p.data.length + 4 := by
      simp [wireRep, getSolPayloadWireRep]
    rw [wireLength, hlen]
  | openRequest msg => exact hp.elim
  | rakp1 msg => exact hp.elim
  | rakp3 msg => exact hp.elim

/-- **Decryption inverts encryption**, on the bytes that are sent and with the length that is
sent. -/
theorem decryptPayload_encryptPayload {cryptAlg : UInt8} (key : List UInt8) {input iv : List UInt8}
    (hc : cryptAlg = cryptNone ∨ cryptAlg = cryptAesCbc)
    (hiv : cryptAlg = cryptAesCbc → iv.length = 16) (hin : input.length ≤ bufSize) :
    ∃ out len, encryptPayload K cryptAlg key input iv = .ok (out, len) ∧ len.toNat = out.length ∧
      ∃ plain size, decryptPayload K cryptAlg key out = .ok (plain, size) ∧
        plain.take size.toNat = input := by
  unfold bufSize at hin
  rcases hc with rfl | rfl
  · have hsize : (UInt16.ofNat input.length).toNat = input.length := by
      rw [UInt16.toNat_ofNat']; omega
    refine ⟨input, _, rfl, hsize, input, _, rfl, ?_⟩
    rw [hsize, List.take_length]
  · have hne : cryptAesCbc ≠ cryptNone := by decide
    have hiv := hiv rfl
    have hpl := length_pad input
    have hple : paddedLength input.length ≤ 1040 ∧ 0 < paddedLength input.length := by
      have := padLength_le input.length
      unfold paddedLength; omega
    have hmod : (pad input).length % 16 = 0 := by rw [hpl]; exact paddedLength_mod _
    have hcbc : (K.cbcEncrypt (key.take 16) iv (pad input)).length = (pad input).length :=
      K.length_cbcEncrypt hiv hmod
    have hout : (iv ++ K.cbcEncrypt (key.take 16) iv (pad input)).length =
        16 + paddedLength input.length := by
      rw [List.length_append, hcbc, hiv, hpl]
    refine ⟨iv ++ K.cbcEncrypt (key.take 16) iv (pad input),
      UInt16.ofNat (blockSize + paddedLength input.length), ?_, ?_, pad input,
      UInt16.ofNat input.length, ?_, ?_⟩
    · unfold encryptPayload
      rw [if_neg hne, if_neg (by simp), if_neg (by omega)]
    · rw [hout, UInt16.toNat_ofNat']; unfold blockSize; omega
    · unfold decryptPayload
      rw [if_neg hne, if_neg (by simp)]
      simp only [hout, blockSize]
      rw [if_neg (by omega), if_neg (by omega), List.take_left' hiv, List.drop_left' hiv,
        K.cbcDecrypt_cbcEncrypt hiv hmod, payloadLength_pad (by omega)]
    · rw [UInt16.toNat_ofNat', Nat.mod_eq_of_lt (by omega), pad, List.append_assoc]
      exact List.take_left' rfl

/-! ### The header -/

theorem headerFlags {t : UInt8} (ht : t = ptIpmi ∨ t = ptSol) (c i : Prop) [Decidable c]
    [Decidable i] :
    let b := t ||| (if c then 0x80 else 0) ||| (if i then 0x40 else 0)
    (b &&& 0x80 != 0) = decide c ∧ (b &&& 0x40 != 0) = decide i ∧ b &&& 0x3f = t := by
  rcases ht with rfl | rfl <;> by_cases hc : c <;> by_cases hi : i <;>
    simp only [hc, hi, if_true, if_false, decide_true, decide_false] <;> decide

theorem readSessionData_header {r : Response} {ss : Session} {t : UInt8} {len : UInt16}
    (hactive : ss.v2.sessionState = .active) (ht : t = ptIpmi ∨ t = ptSol)
    (h : Holds r.data 4 (sessionHeader ss t len)) :
    readSessionData r 4 = ({ r with session :=
      { authtype := authtypeRmcpPlus
        bEncrypted := decide (ss.v2.cryptAlg ≠ cryptNone)
        bAuthenticated := decide (ss.v2.integrityAlg ≠ integrityNone)
        payloadtype := t
        id := ss.v2.bmcId
        seq := ss.outSeq
        msglen := len } }, 16) := by
  rw [sessionHeader, if_pos hactive] at h
  simp only [le32, le16, List.cons_append, List.nil_append, holds_cons, holds_nil, and_true] at h
  obtain ⟨h4, h5, h6, h7, h8, h9, h10, h11, h12, h13, h14, h15⟩ := h
  obtain ⟨hf1, hf2, hf3⟩ := headerFlags ht (ss.v2.cryptAlg ≠ cryptNone)
    (ss.v2.integrityAlg ≠ integrityNone)
  rw [readSessionData, if_pos h4, readSessionDataV2x]
  simp only [h4, h5, h6, h7, h8, h9, h10, h11, h12, h13, h14, h15, ofLe32_le32, ofLe16_le16]
  rw [hf1, hf2, hf3]

/-! ### The trailer -/

/-- The trailer of a known integrity algorithm: padding and the authcode over everything before. -/
theorem sessionTrailer_ok (intf : Intf) {ss : Session} (covered : List UInt8) {n : ℕ}
    (hn : integrityAuthcodeLength ss.v2.integrityAlg = some n) :
    ∃ a, algorithmFor ss.v2.integrityAlg = some a ∧ n ≤ a.digestLength ∧
      sessionTrailer K intf ss covered = .ok (integrityPad intf covered.length ++
        (K.hmac a (ss.v2.k1.take ss.v2.k1Len)
          (covered ++ integrityPad intf covered.length)).take n) := by
  obtain ⟨a, ha, hle⟩ : ∃ a, algorithmFor ss.v2.integrityAlg = some a ∧ n ≤ a.digestLength := by
    unfold integrityAuthcodeLength at hn
    split_ifs at hn with h1 h2 h3
    · exact ⟨.sha1, by rw [h1]; rfl, by rw [← Option.some.inj hn]; decide⟩
    · exact ⟨.md5, by rw [h2]; rfl, by rw [← Option.some.inj hn]; decide⟩
    · exact ⟨.sha256, by rw [h3]; rfl, by rw [← Option.some.inj hn]; decide⟩
  refine ⟨a, ha, hle, ?_⟩
  unfold sessionTrailer keyedHash
  rw [ha, hn]
  rfl

theorem hasValidAuthCode_self {r : Response} {ss : Session} {n : ℕ} {a : Algorithm}
    {covered : List UInt8} (hn : integrityAuthcodeLength ss.v2.integrityAlg = some n)
    (ha : algorithmFor ss.v2.integrityAlg = some a) (hle : n ≤ a.digestLength)
    (hfit : 4 + covered.length + n ≤ bufSize)
    (hlen : r.dataLen = ((4 + covered.length + n : ℕ) : ℤ)) (h : Holds r.data 4
      (covered ++ (K.hmac a (ss.v2.k1.take ss.v2.k1Len) covered).take n)) :
    hasValidAuthCode K r ss = .ok true := by
  unfold hasValidAuthCode
  split_ifs with hskip
  · rfl
  · obtain ⟨h1, h2⟩ := holds_append.mp h
    have hmac : ((K.hmac a (ss.v2.k1.take ss.v2.k1Len) covered).take n).length = n := by
      rw [List.length_take, K.length_hmac]; omega
    have hd : (r.dataLen - 4 - (n : ℤ)) = (covered.length : ℤ) := by rw [hlen]; omega
    rw [hn]
    simp only [hd, Int.toNat_natCast]
    rw [if_neg (by unfold bufSize at hfit ⊢; omega)]
    have e1 : read r.data 4 covered.length = covered := h1
    have e2 : read r.data (4 + covered.length) n =
        (K.hmac a (ss.v2.k1.take ss.v2.k1Len) covered).take n := by
      have := h2
      unfold Holds at this
      rwa [hmac] at this
    simp only [keyedHash, ha, e1, e2, bind, Except.bind, pure, Except.pure, beq_self_eq_true]

/-! ### The round trip -/

/-- An integrity algorithm whose packets can be built: none, HMAC-SHA1-96, HMAC-MD5-128 or
HMAC-SHA256-128. -/
def KnownIntegrity (alg : UInt8) : Prop :=
  alg = integrityNone ∨ alg = integrityHmacSha1 ∨ alg = integrityHmacMd5 ∨ alg = integrityHmacSha256

theorem KnownIntegrity.length {alg : UInt8} (h : KnownIntegrity alg) (hne : alg ≠ integrityNone) :
    ∃ n, integrityAuthcodeLength alg = some n := by
  rcases h with rfl | rfl | rfl | rfl
  · exact absurd rfl hne
  · exact ⟨12, rfl⟩
  · exact ⟨16, rfl⟩
  · exact ⟨16, rfl⟩

/-- A confidentiality algorithm whose packets can be built. -/
def KnownCrypt (alg : UInt8) : Prop := alg = cryptNone ∨ alg = cryptAesCbc

/-- **What a packet has to give back** when it is read: the type, the session id, the sequence
number, an accepted authcode and the bytes of the payload. -/
structure ReadsBack (K : Primitives) (ss : Session) (type : UInt8) (payload : List UInt8)
    (r : Response) : Prop where
  type_eq : (readSessionData r 4).1.session.payloadtype = type
  id_eq : (readSessionData r 4).1.session.id = ss.v2.bmcId
  seq_eq : (readSessionData r 4).1.session.seq = ss.outSeq
  accepted : hasValidAuthCode K (readSessionData r 4).1 ss = .ok true
  decrypted : ∃ plain size, decryptPayload K ss.v2.cryptAlg ss.v2.k2
    (read r.data (readSessionData r 4).2 (readSessionData r 4).1.session.msglen.toNat) =
      .ok (plain, size) ∧ plain.take size.toNat = payload

theorem length_packet (covered padding : List UInt8) {authcode : List UInt8} {n : ℕ}
    (h : authcode.length = n) :
    (rmcpHdr ++ covered ++ (padding ++ authcode)).length = 4 + (covered ++ padding).length + n := by
  simp only [rmcpHdr, List.length_append, List.length_cons, List.length_nil, h]
  omega

section
variable (intf : Intf) (ss : Session) (type : UInt8) {written iv : List UInt8}

/-- The packet around written bytes, taken apart: the header, the encrypted bytes and, with an
integrity algorithm, the trailer. -/
theorem exists_packetOf (hactive : ss.v2.sessionState = .active)
    (hi : KnownIntegrity ss.v2.integrityAlg) (hc : KnownCrypt ss.v2.cryptAlg)
    (hiv : ss.v2.cryptAlg ≠ cryptNone → iv.length = 16) (hfit : written.length ≤ bufSize) :
    ∃ out len trailer,
      encryptPayload K ss.v2.cryptAlg ss.v2.k2 written iv = .ok (out, len) ∧
      len.toNat = out.length ∧
      packetOf K intf ss type written (UInt16.ofNat written.length) iv =
        .ok (rmcpHdr ++ (sessionHeader ss type len ++ out) ++ trailer) ∧
      (ss.v2.integrityAlg ≠ integrityNone →
        sessionTrailer K intf ss (sessionHeader ss type len ++ out) = .ok trailer) := by
  have hiv' : ss.v2.cryptAlg = cryptAesCbc → iv.length = 16 := by
    intro h
    exact hiv (by rw [h]; decide)
  obtain ⟨out, len, henc, hlen, -⟩ :=
    decryptPayload_encryptPayload (K := K) ss.v2.k2 hc hiv' hfit
  have htake : written.take (UInt16.ofNat written.length).toNat = written := by
    rw [UInt16.toNat_ofNat', List.take_of_length_le]
    unfold bufSize at hfit; omega
  have hout : out.take len.toNat = out := by rw [hlen, List.take_length]
  by_cases hn : ss.v2.integrityAlg = integrityNone
  · refine ⟨out, len, [], henc, hlen, ?_, fun h => absurd hn h⟩
    rw [packetOf, if_pos hactive, htake, henc]
    simp only [bind, Except.bind, pure, Except.pure, hn, if_true, hout]
  · obtain ⟨n, hlength⟩ := hi.length hn
    obtain ⟨a, ha, hle, htr⟩ :=
      sessionTrailer_ok (K := K) intf (sessionHeader ss type len ++ out) hlength
    refine ⟨out, len, _, henc, hlen, ?_, fun _ => htr⟩
    rw [packetOf, if_pos hactive, htake, henc]
    simp only [bind, Except.bind, pure, Except.pure, hn, if_false, hout, htr]

theorem readsBack_packetOf {packet : List UInt8} {r : Response}
    (hactive : ss.v2.sessionState = .active) (ht : type = ptIpmi ∨ type = ptSol)
    (hi : KnownIntegrity ss.v2.integrityAlg) (hc : KnownCrypt ss.v2.cryptAlg)
    (hiv : ss.v2.cryptAlg ≠ cryptNone → iv.length = 16) (hfit : written.length ≤ bufSize)
    (hp : packetOf K intf ss type written (UInt16.ofNat written.length) iv = .ok packet)
    (hpfit : packet.length ≤ bufSize) (hr : Holds r.data 0 packet)
    (hlen : r.dataLen = (packet.length : ℤ)) : ReadsBack K ss type written r := by
  obtain ⟨out, len, trailer, henc, hl, hpk, htr⟩ :=
    exists_packetOf (K := K) intf ss type hactive hi hc hiv hfit
  obtain rfl : _ = packet := Except.ok.inj (hpk.symm.trans hp)
  rw [List.append_assoc, holds_append] at hr
  obtain ⟨-, hr⟩ := hr
  have hhdr : (sessionHeader ss type len).length = 12 := by
    simp [sessionHeader, hactive]
  have hcov : Holds r.data 4 (sessionHeader ss type len ++ out) := (holds_append.mp hr).1
  obtain ⟨hh, ho⟩ := holds_append.mp hcov
  rw [hhdr] at ho
  have hread := readSessionData_header hactive ht hh
  refine ⟨by rw [hread], by rw [hread], by rw [hread], ?_, ?_⟩
  · rw [hread]
    by_cases hn : ss.v2.integrityAlg = integrityNone
    · unfold hasValidAuthCode
      rw [if_pos (.inr (.inr (.inr hn)))]
    · obtain ⟨n, hlength⟩ := hi.length hn
      obtain ⟨a, ha, hle, htr'⟩ :=
        sessionTrailer_ok (K := K) intf (sessionHeader ss type len ++ out) hlength
      obtain rfl : _ = trailer := Except.ok.inj (htr'.symm.trans (htr hn))
      -- the trailer is the pad, which the authcode covers, and the authcode
      have hmac : ((K.hmac a (ss.v2.k1.take ss.v2.k1Len) (sessionHeader ss type len ++ out ++
          integrityPad intf (sessionHeader ss type len ++ out).length)).take n).length = n := by
        rw [List.length_take, K.length_hmac]; omega
      rw [length_packet _ _ hmac] at hlen hpfit
      exact hasValidAuthCode_self hlength ha hle hpfit hlen (by rw [List.append_assoc]; exact hr)
  · obtain ⟨out', len', henc', -, plain, size, hdec, hplain⟩ :=
      decryptPayload_encryptPayload (K := K) ss.v2.k2 hc
        (fun h => hiv (by rw [h]; decide)) hfit
    obtain ⟨rfl, -⟩ := Prod.mk.inj (Except.ok.inj (henc'.symm.trans henc))
    refine ⟨plain, size, ?_, hplain⟩
    rw [hread]
    show decryptPayload K ss.v2.cryptAlg ss.v2.k2 (read r.data 16 len.toNat) = _
    rw [hl, show read r.data 16 out'.length = out' from ho, hdec]

end

theorem payloadType_session {payload : V2Payload} (hp : IsSessionPayload payload) :
    payloadType payload = ptIpmi ∨ payloadType payload = ptSol := by
  cases payload with
  | ipmi req => exact .inl rfl
  | sol p => exact .inr rfl
  | openRequest msg => exact hp.elim
  | rakp1 msg => exact hp.elim
  | rakp3 msg => exact hp.elim

theorem exists_built (s : St) (ss : Session) (payload : V2Payload) (seq : UInt8)
    (hss : s.intf.session = some ss) (hactive : ss.v2.sessionState = .active)
    (hp : IsSessionPayload payload) (hi : KnownIntegrity ss.v2.integrityAlg)
    (hc : KnownCrypt ss.v2.cryptAlg)
    (hfit : (wireRep s.intf s.bridgePossible seq payload).length ≤ bufSize) :
    ∃ packet s' iv, buildV2xMsg K payload seq s = .ok (packet, s') ∧
      (ss.v2.cryptAlg ≠ cryptNone → iv.length = 16) ∧
      packetOf K s.intf ss (payloadType payload) (wireRep s.intf s.bridgePossible seq payload)
        (UInt16.ofNat (wireRep s.intf s.bridgePossible seq payload).length) iv = .ok packet := by
  have hlen := wireLength_eq hp hfit
  obtain ⟨packet, s', hb⟩ := exists_buildV2xMsg (K := K) seq hss hlen fun iv hiv => by
    obtain ⟨out, len, trailer, -, -, h, -⟩ := exists_packetOf (K := K) s.intf ss
      (payloadType payload) hactive hi hc (hiv hactive) hfit
    exact ⟨_, h⟩
  obtain ⟨ss1, length, iv, entropy, hss1, hiv, hlen1, hpk, -⟩ := buildV2xMsg_ok hb
  obtain rfl : ss = ss1 := Option.some.inj (hss.symm.trans hss1)
  obtain rfl : _ = length := Except.ok.inj (hlen.symm.trans hlen1)
  exact ⟨packet, s', iv, hb, hiv hactive, hpk⟩

/-- **Round trip.** In an active session with known algorithms, a payload whose bytes fit the
response buffer is built into a packet, and if that packet fits the buffer too then any buffer that
holds it gives back the type, the session id, the sequence number and exactly the bytes of the
payload. -/
theorem buildV2xMsg_roundTrip (K : Primitives) (s : St) (ss : Session) (payload : V2Payload)
    (seq : UInt8) (hss : s.intf.session = some ss) (hactive : ss.v2.sessionState = .active)
    (hp : IsSessionPayload payload) (hi : KnownIntegrity ss.v2.integrityAlg)
    (hc : KnownCrypt ss.v2.cryptAlg)
    (hfit : (wireRep s.intf s.bridgePossible seq payload).length ≤ bufSize) :
    ∃ packet s', buildV2xMsg K payload seq s = .ok (packet, s') ∧
      (packet.length ≤ bufSize → ∀ r : Response, Holds r.data 0 packet →
        r.dataLen = (packet.length : ℤ) →
          ReadsBack K ss (payloadType payload)
            (wireRep s.intf s.bridgePossible seq payload) r) := by
  obtain ⟨packet, s', iv, hb, hiv, hpk⟩ := exists_built (K := K) s ss payload seq
    hss hactive hp hi hc hfit
  refine ⟨packet, s', hb, fun hpfit r hr hrlen => ?_⟩
  exact readsBack_packetOf _ _ _ hactive (payloadType_session hp) hi hc hiv hfit hpk hpfit hr hrlen

/-- An active session with HMAC-SHA1-96, a zero key and no encryption. -/
def sampleSession : Session :=
  { v2 := { sessionState := .active, integrityAlg := integrityHmacSha1,
            consoleId := 0xA0A2A3A4, k1Len := 20 } }

/-- The session with one request under way, Get Device ID with sequence number 1. -/
def sampleState : St where
  intf := { fd := 3, session := some sampleSession }
  reqEntries := [⟨0, ⟨netfnApp, bmcLun, 0x01, 0, [], no_data_lt⟩, 1, 0⟩]

/-- The answer of the BMC, authenticated. -/
def sampleAnswer : List UInt8 :=
  [0x06, 0x00, 0xff, 0x07, 0x06, 0x40, 0xa4, 0xa3, 0xa2, 0xa0, 0x01, 0x00, 0x00, 0x00, 0x08,
   0x00, 0x81, 0x1c, 0x63, 0x20, 0x04, 0x01, 0x00, 0xdb, 0xff, 0xff, 0x02, 0x07, 0x45, 0xb9,
   0x34, 0xb8, 0x2a, 0xa5, 0xec, 0x6e, 0x64, 0x2a, 0xfe, 0xd3]

/-- The answer without an authcode: the authenticated bit is clear. -/
def unmarkedAnswer : List UInt8 :=
  [0x06, 0x00, 0xff, 0x07, 0x06, 0x00, 0xa4, 0xa3, 0xa2, 0xa0, 0x01, 0x00, 0x00, 0x00, 0x08,
   0x00, 0x81, 0x1c, 0x63, 0x20, 0x04, 0x01, 0x00, 0xdb]

/-- The answer in the format of version 1.5. -/
def oldAnswer : List UInt8 :=
  [0x06, 0x00, 0xff, 0x07, 0x00, 0x00, 0x00, 0x00, 0x00, 0x00, 0x00, 0x00, 0x00, 0x08, 0x81,
   0x1c, 0x63, 0x20, 0x04, 0x01, 0x00, 0xdb]

/-- HMAC-SHA1 on the inputs of the examples. -/
def sampleKeys : Primitives := Primitives.tabled
  [((.sha1, List.replicate 20 0, (sampleAnswer.drop 4).take 24),
    [0x45, 0xb9, 0x34, 0xb8, 0x2a, 0xa5, 0xec, 0x6e, 0x64, 0x2a, 0xfe, 0xd3, 0x8c, 0x2f, 0xd2,
     0x6d, 0x72, 0x73, 0x3e, 0x66]),
   ((.sha1, List.replicate 20 0, (unmarkedAnswer.drop 4).take 8),
    [0xe3, 0xe9, 0xdd, 0x90, 0x72, 0x23, 0x0a, 0x1f, 0x40, 0x9b, 0x19, 0x0f, 0x9f, 0xb5, 0x38,
     0xe9, 0xfe, 0x03, 0x48, 0xf0]),
   ((.sha1, List.replicate 20 0, (oldAnswer.drop 4).take 6),
    [0x52, 0x44, 0x39, 0x00, 0xf4, 0xd8, 0x76, 0x70, 0xba, 0xe4, 0xa6, 0x33, 0xe2, 0x74, 0x4b,
     0x50, 0xbe, 0x5f, 0x14, 0xdd]),
   ((.sha1, List.replicate 20 0,
    [0x06, 0x40, 0x00, 0x00, 0x00, 0x00, 0x00, 0x00, 0x00, 0x00, 0x07, 0x00, 0x20, 0x18, 0xc8,
     0x81, 0x04, 0x01, 0x7a, 0xff, 0xff, 0xff, 0x03, 0x07]),
    [0x06, 0xd5, 0xbc, 0x65, 0xb2, 0x45, 0xc7, 0x83, 0xfd, 0x62, 0xfc, 0xc0, 0xe5, 0x8f, 0xf8,
     0xeb, 0x8f, 0x42, 0x97, 0xff])]

/-- The round trip of Get Device ID. -/
theorem buildV2xMsg_roundTrip_getDeviceId :
    ∃ packet s', buildV2xMsg (sampleKeys) (.ipmi ⟨netfnApp, bmcLun, 0x01, 0, [], no_data_lt⟩) 1
        sampleState = .ok (packet, s') ∧
      (packet.length ≤ bufSize → ∀ r : Response, Holds r.data 0 packet →
        r.dataLen = (packet.length : ℤ) → ReadsBack (sampleKeys) sampleSession ptIpmi
          [0x20, 0x18, 0xc8, 0x81, 0x04, 0x01, 0x7a] r) :=
  buildV2xMsg_roundTrip _ sampleState sampleSession (.ipmi ⟨netfnApp, bmcLun, 0x01, 0, [],
    no_data_lt⟩) 1
    rfl rfl trivial (.inr (.inl rfl)) (.inl rfl) (by decide)

theorem hasValidAuthCode_long {r : Response} {ss : Session} {n : ℕ}
    (hactive : ss.v2.sessionState = .active)
    (hn : integrityAuthcodeLength ss.v2.integrityAlg = some n)
    (htype : r.session.authtype = authtypeRmcpPlus) (hauth : r.session.bAuthenticated = true)
    (hint : ss.v2.integrityAlg ≠ integrityNone) (hlong : (bufSize : ℤ) + n < r.dataLen) :
    hasValidAuthCode K r ss = .error .outOfBounds := by
  unfold hasValidAuthCode
  rw [if_neg (by simp [htype, hactive, hauth, hint]), hn]
  dsimp only
  rw [if_pos (.inr (by omega))]

/-- A serial-over-LAN packet with 1020 characters. -/
def longSol : SolPacket where
  data := List.replicate 1020 0x41
  data_le := by rw [List.length_replicate]; decide

/-- The packet of 1020 characters is built, but it does not fit the response buffer, and no buffer
gives it back. -/
theorem not_roundTrip_long_sol :
    ∃ packet s', buildV2xMsg (sampleKeys) (.sol longSol) 0 sampleState = .ok (packet, s') ∧
      ∀ r : Response, Holds r.data 0 packet → r.dataLen = (packet.length : ℤ) →
        ¬ ReadsBack (sampleKeys) sampleSession ptSol (getSolPayloadWireRep longSol) r := by
  have hl : (getSolPayloadWireRep longSol).length = 1024 := by
    rw [getSolPayloadWireRep, List.length_append, longSol, List.length_replicate]; rfl
  have hfit : (getSolPayloadWireRep longSol).length ≤ bufSize := by rw [hl]; decide
  obtain ⟨packet, s', iv, hb, hiv, hpk⟩ := exists_built (K := sampleKeys)
    sampleState sampleSession (.sol longSol) 0 rfl rfl trivial (.inr (.inl rfl)) (.inl rfl) hfit
  refine ⟨packet, s', hb, fun r hr hrlen hback => ?_⟩
  obtain ⟨out, len, trailer, henc, -, hpk1, htr⟩ := exists_packetOf (K := sampleKeys)
    sampleState.intf sampleSession ptSol rfl (.inr (.inl rfl)) (.inl rfl) hiv hfit
  obtain rfl : _ = packet := Except.ok.inj (hpk1.symm.trans hpk)
  obtain ⟨rfl, -⟩ := Prod.mk.inj (Except.ok.inj henc)
  rw [List.append_assoc, holds_append] at hr
  have hread := readSessionData_header rfl (.inr rfl) (holds_append.mp (holds_append.mp hr.2).1).1
  have hbad := hback.accepted
  rw [hread, hasValidAuthCode_long (n := 12) rfl rfl rfl rfl (by decide)] at hbad
  · cases hbad
  · -- four bytes of RMCP header, twelve of session header and the payload are too much already
    have h12 : (sessionHeader sampleSession ptSol len).length = 12 := rfl
    have h4 : rmcpHdr.length = 4 := rfl
    show (bufSize : ℤ) + (12 : ℕ) < r.dataLen
    rw [hrlen]
    simp only [List.length_append, h12, h4, hl]
    unfold bufSize
    omega

/-! ### Authenticity -/

/-- The last bytes of the datagram are the authcode under K1 over the bytes from the session header
up to them. -/
def AuthcodeMatches (K : Primitives) (ss : Session) (d : List UInt8) : Prop :=
  ∃ n a, integrityAuthcodeLength ss.v2.integrityAlg = some n ∧
    algorithmFor ss.v2.integrityAlg = some a ∧ 4 + n ≤ d.length ∧
    d.drop (d.length - n) =
      (K.hmac a (ss.v2.k1.take ss.v2.k1Len) ((d.drop 4).take (d.length - 4 - n))).take n

theorem holds_receive (r : Response) (d : List UInt8) : Holds (Response.receive r d).data 0 d := by
  have h : Holds (write r.data 0 (d ++ [0])) 0 (d ++ [0]) := holds_write _ _ _
  exact (holds_append.mp h).1

theorem Holds.read_eq {m : Memory UInt8} {l : List UInt8} (h : Holds m 0 l) {a n : ℕ}
    (hle : a + n ≤ l.length) : read m a n = (l.drop a).take n := by
  have h1 : l = l.take a ++ ((l.drop a).take n ++ (l.drop a).drop n) := by
    rw [List.take_append_drop, List.take_append_drop]
  rw [h1, holds_append, holds_append] at h
  obtain ⟨-, h2, -⟩ := h
  have hla : (l.take a).length = a := by rw [List.length_take]; omega
  have hln : ((l.drop a).take n).length = n := by rw [List.length_take, List.length_drop]; omega
  rw [hla, Nat.zero_add] at h2
  unfold Holds at h2
  rwa [hln] at h2

theorem authcodeMatches_of_valid {ss : Session} {r : Response} {d : List UInt8}
    (hd : Holds r.data 0 d) (hlen : r.dataLen = (d.length : ℤ))
    (hactive : ss.v2.sessionState = .active) (hint : ss.v2.integrityAlg ≠ integrityNone)
    (htype : r.session.authtype = authtypeRmcpPlus) (hauth : r.session.bAuthenticated = true)
    (h : hasValidAuthCode K r ss = .ok true) : AuthcodeMatches K ss d := by
  unfold hasValidAuthCode at h
  rw [if_neg (by simp [htype, hactive, hauth, hint])] at h
  cases hn : integrityAuthcodeLength ss.v2.integrityAlg with
  | none => rw [hn] at h; cases h
  | some n =>
    rw [hn] at h
    dsimp only at h
    split_ifs at h with hb
    · rw [except_bind_ok] at h
      obtain ⟨mac, hmac, heq⟩ := h
      cases ha : algorithmFor ss.v2.integrityAlg with
      | none => simp [keyedHash, ha] at hmac
      | some a =>
        have hle : 4 + n ≤ d.length := by omega
        have hk : (r.dataLen - 4 - (n : ℤ)).toNat = d.length - 4 - n := by omega
        rw [hk] at heq hmac
        rw [Holds.read_eq hd (by omega)] at hmac
        rw [Holds.read_eq hd (by omega)] at heq
        have hsplit : 4 + (d.length - 4 - n) = d.length - n := by omega
        rw [hsplit] at heq
        have hrest : (d.drop (d.length - n)).take n = d.drop (d.length - n) := by
          rw [List.take_of_length_le]; rw [List.length_drop]; omega
        rw [hrest] at heq
        simp only [keyedHash, ha, Except.ok.injEq] at hmac
        refine ⟨n, a, hn, ha, hle, ?_⟩
        have heq' := Except.ok.inj heq
        rw [← hmac] at heq'
        exact eq_of_beq heq'

/-- **No datagram that says it is authenticated is believed unless it is.** In an active session
with an integrity algorithm, if `pollSingle` hands a response back for a datagram of class IPMI,
then the datagram is not in the RMCP+ format, or its authenticated bit is clear, or it ends in the
authcode computed under K1. -/
theorem pollSingle_authentic (K : Primitives) (s s' : St) (ss : Session) (d : List UInt8)
    (rest : List (Option (List UInt8))) (hss : s.intf.session = some ss)
    (hactive : ss.v2.sessionState = .active) (hint : ss.v2.integrityAlg ≠ integrityNone)
    (hin : s.net.inbox = some d :: rest) (h : pollSingle K s = .ok (.got, s'))
    (hclass : (Response.receive s.recvRsp d).data 3 = rmcpClassIpmi) :
    (Response.receive s.recvRsp d).data 4 ≠ authtypeRmcpPlus ∨
      (Response.receive s.recvRsp d).data 5 &&& 0x40 = 0 ∨ AuthcodeMatches K ss d := by
  by_cases htype : (Response.receive s.recvRsp d).data 4 = authtypeRmcpPlus
  · by_cases hbit : (Response.receive s.recvRsp d).data 5 &&& 0x40 = 0
    · exact .inr (.inl hbit)
    · refine .inr (.inr ?_)
      obtain ⟨ss1, hss1, hpoll⟩ := pollSingle_ok h
      obtain rfl : ss = ss1 := Option.some.inj (hss.symm.trans hss1)
      rcases hpoll with ⟨hnone, -⟩ | ⟨-, d1, rest1, entries, r, evs, hin1, -, -, hh, -⟩
      · cases hnone
      · obtain ⟨rfl, rfl⟩ : d = d1 ∧ rest = rest1 := by
          rw [hin] at hin1
          exact ⟨Option.some.inj (List.cons.inj hin1).1, (List.cons.inj hin1).2⟩
        have hnasf : (Response.receive s.recvRsp d).data 3 ≠ rmcpClassAsf := by
          rw [hclass]; decide
        have hread : readSessionData (Response.receive s.recvRsp d) 4 =
            readSessionDataV2x (Response.receive s.recvRsp d) 4 := if_pos htype
        unfold handlePacket openPacket at hh
        rw [if_neg hnasf, if_neg (not_not.mpr hclass), hread] at hh
        dsimp only at hh
        split_ifs at hh with hother
        · simp [bind, Except.bind, pure, Except.pure] at hh
        · obtain ⟨o, ho, hh⟩ := except_bind_ok.mp hh
          obtain ⟨valid, hv, ho⟩ := except_bind_ok.mp ho
          cases valid with
          | false =>
            obtain rfl : Opened.badAuthcode _ = o := Except.ok.inj ho
            simp [pure, Except.pure] at hh
          | true =>
            have hd : Holds (readSessionDataV2x (Response.receive s.recvRsp d) 4).1.data 0 d :=
              holds_receive s.recvRsp d
            refine authcodeMatches_of_valid hd rfl hactive hint htype ?_ hv
            simpa [readSessionDataV2x] using hbit
  · exact .inl htype

/-- A state that is about to receive one datagram. -/
def sampleReceives (d : List UInt8) : St := { sampleState with net := { inbox := [some d] } }

/-- The authenticated answer is handed back. -/
theorem pollSingle_authentic_answer :
    ∃ s', pollSingle sampleKeys (sampleReceives sampleAnswer) = .ok (.got, s') ∧
      ((Response.receive {} sampleAnswer).data 4 ≠ authtypeRmcpPlus ∨
        (Response.receive {} sampleAnswer).data 5 &&& 0x40 = 0 ∨
          AuthcodeMatches sampleKeys sampleSession sampleAnswer) := by
  have h : returns (pollSingle sampleKeys) (sampleReceives sampleAnswer) (fun r _ => r = .got) =
      true := by
    decide +kernel
  obtain ⟨res, s', hp, hres⟩ := exists_of_returns h
  obtain rfl : res = .got := of_decide_eq_true hres
  exact ⟨s', hp, pollSingle_authentic sampleKeys (sampleReceives sampleAnswer) s' sampleSession
    sampleAnswer [] rfl rfl (by decide) rfl hp (by decide)⟩

theorem not_authcodeMatches {ss : Session} {d : List UInt8}
    (hint : ss.v2.integrityAlg = integrityHmacSha1)
    (h : d.drop (d.length - 12) ≠
      (K.hmac .sha1 (ss.v2.k1.take ss.v2.k1Len) ((d.drop 4).take (d.length - 4 - 12))).take 12) :
    ¬ AuthcodeMatches K ss d := by
  rintro ⟨n, a, hn, ha, -, heq⟩
  rw [hint] at hn ha
  obtain rfl : 12 = n := Option.some.inj hn
  obtain rfl : Algorithm.sha1 = a := Option.some.inj ha
  exact h heq

/-- Two datagrams without a valid authcode that are handed back: one with the authenticated bit
clear, one in the format of version 1.5. -/
theorem pollSingle_believes_unauthenticated :
    (∃ s', pollSingle sampleKeys (sampleReceives unmarkedAnswer) = .ok (.got, s')) ∧
      ¬ AuthcodeMatches sampleKeys sampleSession unmarkedAnswer ∧
      (∃ s', pollSingle sampleKeys (sampleReceives oldAnswer) = .ok (.got, s')) ∧
      ¬ AuthcodeMatches sampleKeys sampleSession oldAnswer := by
  have h1 : returns (pollSingle sampleKeys) (sampleReceives unmarkedAnswer) (fun r _ => r = .got) =
      true := by decide +kernel
  have h2 : returns (pollSingle sampleKeys) (sampleReceives oldAnswer) (fun r _ => r = .got) =
      true := by decide +kernel
  refine ⟨?_, not_authcodeMatches rfl (by decide +kernel), ?_,
    not_authcodeMatches rfl (by decide +kernel)⟩
  · obtain ⟨res, s', hp, hres⟩ := exists_of_returns h1
    obtain rfl : res = .got := of_decide_eq_true hres
    exact ⟨s', hp⟩
  · obtain ⟨res, s', hp, hres⟩ := exists_of_returns h2
    obtain rfl : res = .got := of_decide_eq_true hres
    exact ⟨s', hp⟩

end Ipmitool.Lanplus.Packet
