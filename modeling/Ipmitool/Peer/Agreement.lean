import Ipmitool.Peer.Handshake

/-! # Both parties agree

The end of the handshake: the transport's key schedule is the controller's (`rakp3Authcode_agree`),
so that the two parties accept each other's authcodes. `handshakeLoop_agrees` puts the stages
together: the retry loop of `open` succeeds exactly if the controller takes part to the end, however
the datagrams that it loses are spread over the attempts. -/

namespace Ipmitool.Peer.Agreement

open Ipmitool.Lib Ipmitool.Lib.Mem Ipmitool.Lib.Bytes Ipmitool.Lib.Machine Ipmitool.Lib.Conversation
open Ipmitool.Core.Types Ipmitool.Core.Network Ipmitool.Crypto.Mac Ipmitool.Crypto.LanplusCrypt
open Ipmitool.Lanplus.State Ipmitool.Lanplus.Receive Ipmitool.Lanplus.Packet Ipmitool.Lanplus.Rounds
open Ipmitool.Lanplus.Open
open Ipmitool.Lanplus.Build (packetOf wireRep wireLength payloadType)
open Ipmitool.Lanplus.Send (isHandshake sendable sendPayload)
open Ipmitool.Peer.Controller Ipmitool.Peer.Exchange Ipmitool.Peer.Packets Ipmitool.Peer.Handshake

variable {K : Primitives} {other : List UInt8 → Bool → B (List UInt8)} {s t u s' : St}
  {ss ss' ss'' : Session} {b b' b'' : Bmc} {r : Response} {tag : UInt8} {c : Ciphers}

/-! ### RAKP 3 -/

/-- **Both parties have the same keys**, as far as they are used. -/
structure SameKeys (ss : Session) (k : Keys) : Prop where
  sik : ss.v2.sik.take ss.v2.sikLen = k.sik.take k.sikLen
  k1 : ss.v2.k1.take ss.v2.k1Len = k.k1.take k.k1Len
  k2 : ss.v2.k2.take 16 = k.k2.take 16

theorem take_digestInto (mac : List UInt8) : (digestInto mac).take mac.length = mac :=
  List.take_left

/-- The session with derived keys. -/
def withKeys (ss : Session) (sik k1 k2 : List UInt8 × ℕ) : Session :=
  { ss with v2 := { ss.v2 with
      sik := sik.1, sikLen := sik.2, k1 := k1.1, k1Len := k1.2, k2 := k2.1, k2Len := k2.2 } }

theorem generateK_ok {a : Algorithm} {mac : List UInt8}
    (halgo : algorithmFor ss.v2.authAlg = some a) (hsup : supportedAuthAlg ss.v2.authAlg = true)
    (hne : ss.v2.authAlg ≠ authRakpNone) (hsik : ss.v2.sik.take ss.v2.sikLen = mac) (const : UInt8)
    (key : List UInt8) (keyLen : ℕ) :
    generateK K ss const key keyLen =
      .ok (K.hmac a mac (List.replicate 20 const) ++ key.drop a.digestLength,
      a.digestLength) := by
  unfold generateK keyedHash
  rw [if_neg hne, halgo, hsik, hsup]
  simp only [bind, Except.bind, Bool.not_true, Bool.false_eq_true, if_false, pure, Except.pure,
    K.length_hmac]

section Derived
variable (ss) {a : Algorithm} {mac : List UInt8} (halgo : algorithmFor ss.v2.authAlg = some a)
  (hsup : supportedAuthAlg ss.v2.authAlg = true) (hne : ss.v2.authAlg ≠ authRakpNone)
  (hsik : ss.v2.sik.take ss.v2.sikLen = mac)
include halgo hsup hne hsik

theorem generateK1_ok : generateK1 K ss = .ok { ss with v2 := { ss.v2 with
    k1 := K.hmac a mac (List.replicate 20 0x01) ++ ss.v2.k1.drop a.digestLength, k1Len :=
  a.digestLength } } := by
  unfold generateK1
  rw [generateK_ok halgo hsup hne hsik]
  rfl

theorem generateK2_ok : generateK2 K ss = .ok { ss with v2 := { ss.v2 with
    k2 := K.hmac a mac (List.replicate 20 0x02) ++ ss.v2.k2.drop a.digestLength, k2Len :=
  a.digestLength } } := by
  unfold generateK2
  rw [generateK_ok halgo hsup hne hsik]
  rfl

end Derived

section Keys
variable (hm : Matched c ss b) (hsh : Shared s.intf ss b) (halg : KnownAuth c.authAlg)
  (hplus : s.intf.oemActive .intelplus = false) (hspt : s.intf.oemActive .i82571spt = false)
  (hpass : ss.authcode.take 20 = b.kuid)
  (hkg : b.kgKey = if s.intf.ssnParams.kg.headD 0 ≠ 0 then some (s.intf.ssnParams.kg.take 20) else none)
include hm hsh halg hspt hpass hkg

/-- The session after the keys are derived, when there are any. -/
theorem deriveKeys_agree {a : Algorithm} (ha : fromAuthId c.authAlg = some a) : ∃ sik k1 k2,
    deriveKeys K ss s.intf = .ok (withKeys ss sik k1 k2) ∧
      SameKeys (withKeys ss sik k1 k2) (Keys.derive K a b.rakpInputs) := by
  rw [← hm.authAlg] at ha halg
  have hnone := fromAuthId_none ha
  obtain ⟨a', ha', halgo, hsup, -⟩ := KnownAuth.algorithm halg hnone
  obtain rfl : a' = a := Option.some.inj (ha'.symm.trans ha)
  obtain ⟨-, -, -, hsik⟩ := inputs_agree hm hsh hspt true
  set mac :=
    K.hmac a' (b.rakpInputs.kg.getD b.rakpInputs.passwordKey) b.rakpInputs.sikInput with hmac
  have hlen : mac.length = a'.digestLength := K.length_hmac _ _ _
  have h16 : 16 ≤ a'.digestLength := by cases a' <;> decide
  have hkey : (if s.intf.ssnParams.kg.headD 0 ≠ 0 then s.intf.ssnParams.kg.take 20
      else ss.authcode.take 20) =
      b.rakpInputs.kg.getD b.rakpInputs.passwordKey := by
    change _ = b.kgKey.getD b.kuid
    rw [hkg, hpass]
    split_ifs <;> rfl
  have h1 : generateSik K ss s.intf =
      .ok { ss with v2 := { ss.v2 with sik := digestInto mac, sikLen := mac.length } } := by
    unfold generateSik keyedHash
    simp only [bind, Except.bind, pure, Except.pure, hnone, if_false, hsup, Bool.not_true, Bool.false_eq_true, halgo,
      hkey, hsik]
    rfl
  refine ⟨(digestInto mac, mac.length),
    (K.hmac a' mac (List.replicate 20 0x01) ++ ss.v2.k1.drop a'.digestLength, a'.digestLength),
    (K.hmac a' mac (List.replicate 20 0x02) ++ ss.v2.k2.drop a'.digestLength, a'.digestLength), ?_, ?_, ?_, ?_⟩
  · have h2 := generateK1_ok (K := K) { ss with v2 := { ss.v2 with sik := digestInto mac, sikLen := mac.length } }
      halgo hsup hnone (take_digestInto mac)
    have h3 := generateK2_ok (K := K) { ss with v2 := { ss.v2 with
      sik := digestInto mac
      sikLen := mac.length
      k1 := K.hmac a' mac (List.replicate 20 0x01) ++ ss.v2.k1.drop a'.digestLength
      k1Len := a'.digestLength } } halgo hsup hnone (take_digestInto mac)
    unfold deriveKeys
    rw [h1]
    change (generateK1 K _ >>= generateK2 K) = _
    rw [h2]
    exact h3
  · exact (take_digestInto mac).trans (take_digestInto mac).symm
  · change (K.hmac a' mac (List.replicate 20 0x01) ++ _).take a'.digestLength = _
    rw [List.take_left' (K.length_hmac _ _ _)]
    exact (take_digestInto _).symm
  · change (K.hmac a' mac (List.replicate 20 0x02) ++ _).take 16 =
      (digestInto (K.hmac a' mac (List.replicate 20 0x02))).take 16
    rw [digestInto, List.take_append_of_le_length (by rw [K.length_hmac]; exact h16),
      List.take_append_of_le_length (by rw [K.length_hmac]; exact h16)]

/-- **The transport's key schedule is the controller's.** -/
theorem rakp3Authcode_agree (hplus : s.intf.oemActive .intelplus = false)
    (h0 : ss.v2.rakp2ReturnCode = 0) :
    ∃ authcode sik k1 k2, rakp3Authcode K ss s.intf = .ok (authcode, withKeys ss sik k1 k2) ∧
      authcode.length ≤ 32 ∧
      ∀ a, fromAuthId c.authAlg = some a → authcode = K.hmac a b.kuid b.rakpInputs.rakp3Input ∧
        SameKeys (withKeys ss sik k1 k2) (Keys.derive K a b.rakpInputs) := by
  by_cases hnone : c.authAlg = authRakpNone
  · have hauth : ss.v2.authAlg = authRakpNone := hm.authAlg.trans hnone
    refine ⟨[], (List.replicate 32 0, 0), (List.replicate 20 0x01 ++ ss.v2.k1.drop 20, ss.v2.k1Len),
      (List.replicate 20 0x02 ++ ss.v2.k2.drop 20, ss.v2.k2Len), ?_, Nat.zero_le _, ?_⟩
    · unfold rakp3Authcode deriveKeys generateRakp3Authcode
      simp only [h0, if_true, generateSik, generateK1, generateK2, generateK, hauth, bind,
        Except.bind, pure, Except.pure, withKeys, ne_eq, not_true_eq_false, if_false]
    · intro a ha
      exact absurd hnone (fromAuthId_none ha)
  · obtain ⟨a, ha, halgo, hsup, -⟩ := KnownAuth.algorithm halg hnone
    obtain ⟨-, hinput, -, -⟩ := inputs_agree hm hsh hspt false
    obtain ⟨sik, k1, k2, hkeys, hsame⟩ := deriveKeys_agree (K := K) hm hsh halg hspt hpass hkg ha
    refine ⟨K.hmac a b.kuid b.rakpInputs.rakp3Input, sik, k1, k2, ?_, ?_, ?_⟩
    · have hcode : generateRakp3Authcode K ss s.intf =
          .ok (K.hmac a b.kuid b.rakpInputs.rakp3Input) := by
        unfold generateRakp3Authcode keyedHash
        simp only [bind, Except.bind, pure, Except.pure, hm.authAlg, hnone, if_false, hsup,
          Bool.not_true, Bool.false_eq_true, halgo, hplus, hspt, Bool.or_self, hinput, hpass]
      unfold rakp3Authcode
      rw [if_neg (not_not.mpr h0), hcode]
      change (deriveKeys K ss s.intf >>= _) = _
      rw [hkeys]
      rfl
    · rw [K.length_hmac]
      cases a <;> decide
    · intro a' ha'
      obtain rfl : a = a' := Option.some.inj (ha.symm.trans ha')
      exact ⟨rfl, hsame⟩

end Keys


/-! ### RAKP 4 -/

/-- The authcode at the end of a RAKP 4 message. -/
def rakp4Code (K : Primitives) (b : Bmc) : List UInt8 :=
  match fromAuthId b.v2.authAlg with
  | none => []
  | some a =>
    let mac :=
      (K.hmac a (b.v2.keys.sik.take b.v2.keys.sikLen) b.rakpInputs.rakp4Input).take a.authcodeLength
    if b.p.corruptRakp4 then corrupt (a.authcodeLength - 1) mac else mac

theorem rakp4Body_eq (b : Bmc) (tag : UInt8) :
    rakp4Body K b tag = [tag, b.p.rakp4Status, 0, 0] ++ le32 b.v2.consoleId ++ rakp4Code K b := by
  unfold rakp4Body rakp4Code
  cases fromAuthId b.v2.authAlg with
  | none => rw [List.append_nil]
  | some a => rfl

theorem length_rakp4Code {a : Algorithm} (ha : fromAuthId b.v2.authAlg = some a) :
    (rakp4Code K b).length = a.authcodeLength := by
  have hlen : ∀ key data, ((K.hmac a key data).take a.authcodeLength).length =
      a.authcodeLength := by
    intro key data
    rw [List.length_take, K.length_hmac]
    exact Nat.min_eq_left a.authcodeLength_le
  unfold rakp4Code
  rw [ha]
  dsimp only
  split_ifs
  · rw [corrupt, List.length_modify, hlen]
  · exact hlen _ _

theorem length_rakp4Body_le (b : Bmc) (tag : UInt8) : (rakp4Body K b tag).length ≤ maxPayload := by
  have hc : (rakp4Code K b).length ≤ 32 := by
    cases ha : fromAuthId b.v2.authAlg with
    | none => simp [rakp4Code, ha]
    | some a =>
      rw [length_rakp4Code ha]
      cases a <;> decide
  rw [rakp4Body_eq]
  simp only [List.length_append, List.length_cons, List.length_nil, length_le32, maxPayload]
  omega

/-- The session is active and counts from `seq`. -/
def activated (seq : UInt32) (b : Bmc) : Bmc := { b with v2 := { b.v2 with state := .active, seq } }

theorem respond_rakp3 (front : List UInt8) {authcode reply : List UInt8} (hfront : front.length = 7)
    (hauth : ∀ a, fromAuthId b.v2.authAlg = some a →
      authcode = K.hmac a b.kuid b.rakpInputs.rakp3Input)
    (hsend : sendV2 K ptRakp4 (rakp4Body K b 0) b = .ok (reply, b')) :
    respond K ptRakp3 (0 :: front ++ authcode) b =
      .ok (reply, activated b.p.outboundSeqStart b') := by
  have hdrop : (0 :: front ++ authcode).drop 8 = authcode := by
    rw [List.drop_left' (by rw [List.length_cons, hfront])]
  unfold respond
  rw [if_neg (by decide), if_neg (by decide), if_pos rfl]
  unfold rakp4
  rw [if_neg (by simp only [List.cons_append, List.length_cons, List.length_append, hfront]; omega),
    hdrop]
  have hrest : (sendV2 K ptRakp4 (rakp4Body K b 0) >>= fun reply => do
      modifyV2 fun v => { v with state := .active, seq := b.p.outboundSeqStart }
      return reply : B (List UInt8)) b = .ok (reply, activated b.p.outboundSeqStart b') := by
    rw [bind_run hsend]
    rfl
  rw [bind_run (show (get : B Bmc) b = .ok (b, b) from rfl)]
  cases ha : fromAuthId b.v2.authAlg with
  | none => exact hrest
  | some a =>
    have hright : authcode = K.hmac a b.rakpInputs.passwordKey b.rakpInputs.rakp3Input := hauth a ha
    dsimp only
    rw [require_true hright]
    exact hrest

/-- The controller confirms the session, and its authcode is right where there is one. -/
def Confirms (p : Personality) (c : Ciphers) : Prop :=
  p.rakp4Status = 0 ∧ (c.authAlg ≠ authRakpNone → p.corruptRakp4 = false)

theorem rakp4HmacMatches_agree (hm : Matched c ss b) (hsh : Shared s.intf ss b)
    (halg : KnownAuth c.authAlg) (hplus : s.intf.oemActive .intelplus = false)
    (hspt : s.intf.oemActive .i82571spt = false)
    (hkeys : c.authAlg ≠ authRakpNone → SameKeys ss b.v2.keys) {code : List UInt8}
    (hcode : ∀ a, fromAuthId c.authAlg = some a → code.take a.authcodeLength = rakp4Code K b) :
    rakp4HmacMatches K ss code s.intf =
      .ok (decide (c.authAlg ≠ authRakpNone → b.p.corruptRakp4 = false)) := by
  unfold rakp4HmacMatches rakp4Algorithm
  simp only [hplus, Bool.false_eq_true, if_false, hm.authAlg]
  by_cases hnone : c.authAlg = authRakpNone
  · rw [if_pos hnone, decide_eq_true fun h => absurd hnone h]
    rfl
  · obtain ⟨a, ha, halgo, -, hn⟩ := KnownAuth.algorithm halg hnone
    have hpos : 0 < a.authcodeLength := by cases a <;> decide
    have hcode := hcode a ha
    rw [rakp4Code, hm.bmcAuthAlg, ha] at hcode
    simp only [hnone, if_false, hn, keyedHash, halgo, (inputs_agree hm hsh hspt false).2.2.1,
      (hkeys hnone).sik, bind, Except.bind, pure, Except.pure, hcode, Except.ok.injEq]
    cases hcor : b.p.corruptRakp4 with
    | false => simp
    | true =>
      have hlen : a.authcodeLength - 1 < ((K.hmac a (b.v2.keys.sik.take b.v2.keys.sikLen)
          b.rakpInputs.rakp4Input).take a.authcodeLength).length := by
        rw [List.length_take, K.length_hmac, Nat.min_eq_left a.authcodeLength_le]
        omega
      simp [hnone, corrupt_ne hlen]

/-! ### The stage -/

/-- **Both parties agree**: each of them is in a session with the other, by the same algorithms and
with the same keys. -/
structure Agreed (c : Ciphers) (ss : Session) (b : Bmc) : Prop where
  console : ss.v2.sessionState = .active
  bmc : b.v2.state = .active
  matched : Matched c ss b
  keys : c.authAlg ≠ authRakpNone → SameKeys ss b.v2.keys

/-- The RAKP 3 message. -/
def confirming (ss : Session) (authcode : List UInt8) : V2Payload :=
  .rakp3 ([0, ss.v2.rakp2ReturnCode, 0, 0] ++ le32 ss.v2.bmcId ++ authcode)

/-- The part of `rakp3` that reads the answer. -/
def rakp3End (K : Primitives) : M Rc := do
  let s ← get
  let r := s.recvRsp
  if r.rakpReturnCode ≠ 0 then return .error
  let session ← theSession
  let good ← liftM (rakp4HmacMatches K session r.integrityCheckValue s.intf)
  if good then
    record [.rakp4Verified]
    setState .active
    modify fun s => { s with intf := { s.intf with abort := false } }
    return .done
  else return .error

theorem hears_rakp3End_error {x : Session} (ht : t.intf.session = some x)
    (h : t.recvRsp.rakpReturnCode ≠ 0 ∨
      rakp4HmacMatches K x t.recvRsp.integrityCheckValue t.intf = .ok false) :
    Hears wire (rakp3End K) t [] .error t := by
  refine .read (fun _ => rfl) ?_
  by_cases h0 : t.recvRsp.rakpReturnCode = 0
  · change Hears wire (if t.recvRsp.rakpReturnCode ≠ 0 then _ else _) _ _ _ _
    rw [if_neg (not_not.mpr h0)]
    have hbad := h.resolve_left (not_not.mpr h0)
    exact (hears_theSession ht).step ((Hears.lift hbad _).step (.pure _ _))
  · change Hears wire (if t.recvRsp.rakpReturnCode ≠ 0 then _ else _) _ _ _ _
    rw [if_pos h0]
    exact .pure _ _

theorem hears_rakp3End {x : Session} (ht : t.intf.session = some x) (h0 : t.recvRsp.rakpReturnCode = 0)
    (hgood : rakp4HmacMatches K x t.recvRsp.integrityCheckValue t.intf = .ok true) :
    ∃ v, Hears wire (rakp3End K) t [] .done v ∧
      (∃ abort, v.intf = { t.intf with
        session := some { x with v2 := { x.v2 with sessionState := .active } }, abort }) ∧
      Unmoved t v := by
  have hsess : ({ t with trace := t.trace ++ [.rakp4Verified] } : St).intf.session = some x := ht
  refine ⟨{ t with
    intf := { t.intf with session := some { x with v2 := { x.v2 with sessionState := .active } }, abort := false }
    trace := t.trace ++ [.rakp4Verified] }, .read (fun _ => rfl) ?_, ⟨false, rfl⟩, rfl,
      rfl, rfl, rfl⟩
  change Hears wire (if t.recvRsp.rakpReturnCode ≠ 0 then _ else _) _ _ _ _
  rw [if_neg (not_not.mpr h0)]
  refine (hears_theSession ht).step ((Hears.lift hgood _).step ((hears_record _).step ?_))
  exact (hears_setState _ hsess).step (Hears.step (Hears.modify fun _ => rfl) (.pure _ _))

theorem rakp3_asks {authcode : List UInt8} {keyed : Session} (hss : s.intf.session = some ss)
    (hstate : ss.v2.sessionState = .rakp2Received) (h0 : ss.v2.rakp2ReturnCode = 0)
    (hkeys : rakp3Authcode K ss s.intf = .ok (authcode, keyed)) {rc : Rc}
    (hrest : Converses wire (handle K other) (do
      let got ← sendPayload K (confirming ss authcode)
      if !got then return .timeout
      rakp3End K) (s.withSession keyed) b rc t b') :
    Converses wire (handle K other) (rakp3 K) s b rc t b' := by
  unfold rakp3
  refine .step (hears_theSession hss) rfl ?_
  rw [hstate]
  refine .step (.pure _ _) rfl (.read (fun _ => rfl) ?_)
  refine .step (Hears.lift hkeys _) rfl ?_
  refine .step (hears_modifySession hss) rfl ?_
  simp only [h0, ne_eq, not_true_eq_false, if_false]
  rw [confirming, h0] at hrest
  exact hrest

section Rakp3
variable (other) (h : Introduced s ss b) (hstate : ss.v2.sessionState = .rakp2Received)
  (h0 : ss.v2.rakp2ReturnCode = 0) (hm : Matched c ss b) (hsh : Shared s.intf ss b)
  (halg : KnownAuth c.authAlg)
include h hstate h0 hm hsh halg

theorem rakp3_dropped (hdrop : b.received + 1 ∈ b.p.drop) : ∃ t ss',
    Converses wire (handle K other) (rakp3 K) s b .timeout t b.counted ∧
    Keeps s ss b t ss' b.counted := by
  obtain ⟨authcode, sik, k1, k2, hkeys, hlen, -⟩ :=
    rakp3Authcode_agree (K := K) hm hsh halg h.i82571spt h.password h.kg h.intelplus h0
  have hfits : (message (confirming ss authcode)).length ≤ maxPayload := by
    simp only [confirming, message, List.length_append, List.length_cons, List.length_nil,
      length_le32, maxPayload]
    omega
  obtain ⟨packet, t, hconv, hex⟩ := exchange_dropped (K := K) other (confirming ss authcode) rfl
    hfits (online_withSession h.online (withKeys ss sik k1 k2)) rfl (by rw [withKeys, hstate]; rfl)
    (by rw [withKeys, hstate]; decide) h.idle h.patient hdrop
  exact ⟨t, _, rakp3_asks h.session hstate h0 hkeys (hconv.bind (.of_hears (.pure _ _) rfl)),
    keeps_exchanged hex rfl rfl rfl rfl (Exchanged.unchanged hex) ⟨rfl, rfl, rfl,
      rfl⟩ rfl rfl ⟨_, _, rfl⟩⟩

/-- **RAKP 3**: it succeeds if the controller confirms, and then both parties agree. -/
theorem rakp3_answered (hkeyed : b.v2.keys = keysOf K b) (hdrop : b.received + 1 ∉ b.p.drop) :
    ∃ rc t ss' b', Converses wire (handle K other) (rakp3 K) s b rc t b' ∧ Keeps s ss b t ss' b' ∧
      b'.received = b.received + 1 ∧
      (rc = .done ∧ Confirms b.p c ∧ Agreed c ss' b' ∨ rc = .error ∧ ¬ Confirms b.p c) := by
  obtain ⟨authcode, sik, k1, k2, hkeys, hlen, hright⟩ :=
    rakp3Authcode_agree (K := K) hm hsh halg h.i82571spt h.password h.kg h.intelplus h0
  have hfits : (message (confirming ss authcode)).length ≤ maxPayload := by
    simp only [confirming, message, List.length_append, List.length_cons, List.length_nil,
      length_le32, maxPayload]
    omega
  have halg' : b.counted.v2.authAlg = c.authAlg := hm.bmcAuthAlg
  have hcode : ∀ a, fromAuthId c.authAlg = some a →
      (rakp4Code K b.counted).length = a.authcodeLength := by
    intro a ha
    exact length_rakp4Code (by rw [halg', ha])
  have hrespond : ∀ reply b', sendV2 K ptRakp4 (rakp4Body K b.counted 0) b.counted =
      .ok (reply, b') →
      respond K (payloadType (confirming ss authcode))
        (message (confirming ss authcode)) b.counted =
        .ok (reply, activated b.p.outboundSeqStart b') := by
    intro reply b' hsent
    refine respond_rakp3 ([ss.v2.rakp2ReturnCode, 0, 0] ++ le32 ss.v2.bmcId) rfl ?_ hsent
    intro a ha
    exact (hright a (by rw [← halg', ha])).1
  obtain ⟨packet, r, t, seq, hconv, hex, hccode, hstatus, hauth⟩ :=
    exchange_answered (K := K) other (confirming ss authcode) rfl hfits
    (online_withSession h.online (withKeys ss sik k1 k2)) rfl (by rw [withKeys, hstate]; rfl)
    (by rw [withKeys, hstate]; decide) h.idle h.ccode hdrop
    (c := b.counted) (f := activated b.p.outboundSeqStart) ptRakp4 (rakp4Body K b.counted 0)
    h.idle (by decide) (length_rakp4Body_le _ _) hrespond
    (P := fun r => r.rakpReturnCode = b.p.rakp4Status ∧
      ∀ a, fromAuthId c.authAlg = some a →
      r.integrityCheckValue.take a.authcodeLength = rakp4Code K b.counted)
    (by
      intro r size htype hholds
      rw [rakp4Body_eq] at hholds
      obtain ⟨r', hread, hcc, hfields⟩ := readRakp4Message_holds halg hcode hholds
      refine ⟨r', [.rakp4], ?_, hcc, hfields⟩
      have halg'' : (sentSession (withKeys ss sik k1 k2) (confirming ss authcode)).v2.authAlg =
          c.authAlg := hm.authAlg
      unfold handlePayload
      rw [htype, halg'', hread]
      rfl)
  have ht : t.intf.session =
      some (sentSession (withKeys ss sik k1 k2) (confirming ss authcode)) := by rw [hex.intf]
  have hrsp : t.recvRsp = r := hex.rsp
  set y := sentSession (withKeys ss sik k1 k2) (confirming ss authcode) with hy
  have hmy : Matched c y b.counted :=
    ⟨hm.authAlg, hm.integrityAlg, hm.cryptAlg, hm.bmcAuthAlg, hm.bmcIntegrityAlg, hm.bmcCryptAlg,
      hm.bmcId, hm.consoleId⟩
  have hshy : Shared t.intf y b.counted := ⟨hsh.consoleRand, hsh.bmcRand, hsh.bmcGuid, hsh.role, by
    rw [hex.intf]; exact hsh.username⟩
  have hsame : c.authAlg ≠ authRakpNone → SameKeys y b.v2.keys := by
    intro hne
    obtain ⟨a, ha, -⟩ := KnownAuth.algorithm halg hne
    have hk := (hright a ha).2
    rw [hkeyed, keysOf, hm.bmcAuthAlg, ha]
    exact ⟨hk.sik, hk.k1, hk.k2⟩
  have hgood : rakp4HmacMatches K y t.recvRsp.integrityCheckValue t.intf =
      .ok (decide (c.authAlg ≠ authRakpNone → b.p.corruptRakp4 = false)) :=
    rakp4HmacMatches_agree hmy hshy halg (by rw [hex.intf]; exact h.intelplus)
      (by rw [hex.intf]; exact h.i82571spt)
      hsame (by rw [hrsp]; exact hauth)
  have hstatus' : t.recvRsp.rakpReturnCode = b.p.rakp4Status := by rw [hrsp, hstatus]
  by_cases hconf : Confirms b.p c
  · rw [decide_eq_true hconf.2] at hgood
    obtain ⟨v, hend, hintf, hv⟩ := hears_rakp3End ht (hstatus'.trans hconf.1) hgood
    refine ⟨.done, v, _, _,
      rakp3_asks h.session hstate h0 hkeys (hconv.bind (.of_hears hend (congrArg Net.sent hv.net))),
      keeps_exchanged hex rfl rfl rfl hccode hintf hv rfl rfl ⟨_, _, rfl⟩, rfl,
      .inl ⟨rfl, hconf, rfl, rfl, ?_, ?_⟩⟩
    · exact ⟨hm.authAlg, hm.integrityAlg, hm.cryptAlg, hm.bmcAuthAlg, hm.bmcIntegrityAlg,
        hm.bmcCryptAlg, hm.bmcId, hm.consoleId⟩
    · intro hne
      have hk := hsame hne
      exact ⟨hk.sik, hk.k1, hk.k2⟩
  · have hbad : t.recvRsp.rakpReturnCode ≠ 0 ∨
        rakp4HmacMatches K y t.recvRsp.integrityCheckValue t.intf = .ok false := by
      by_cases hz : b.p.rakp4Status = 0
      · rw [decide_eq_false fun hc => hconf ⟨hz, hc⟩] at hgood
        exact .inr hgood
      · exact .inl (by rw [hstatus']; exact hz)
    exact ⟨.error, t, _, _,
      rakp3_asks h.session hstate h0 hkeys
      (hconv.bind (.of_hears (hears_rakp3End_error ht hbad) rfl)),
        keeps_exchanged hex rfl rfl rfl hccode (Exchanged.unchanged hex) ⟨rfl, rfl, rfl,
          rfl⟩ rfl rfl ⟨_, _, rfl⟩,
      rfl, .inr ⟨rfl, hconf⟩⟩

end Rakp3

/-! ### The retry loop -/

/-- The controller takes part to the end. -/
def Willing (p : Personality) (c : Ciphers) : Prop := Accepts p c ∧ Vouches p c ∧ Confirms p c

instance (p : Personality) (c : Ciphers) : Decidable (Willing p c) :=
  inferInstanceAs (Decidable ((p.openSessionStatus = 0 ∧
    p.openSessionAuthAlg.getD c.authAlg = c.authAlg) ∧
    (p.rakp2Status = 0 ∧ (c.authAlg ≠ authRakpNone → p.corruptRakp2 = false)) ∧
      p.rakp4Status = 0 ∧ (c.authAlg ≠ authRakpNone → p.corruptRakp4 = false)))

/-- How many datagrams the controller is still going to lose. -/
def ahead (b : Bmc) : ℕ := (b.p.drop.filter (b.received < ·)).length

theorem ahead_le (hp : b'.p = b.p) (hle : b.received ≤ b'.received) : ahead b' ≤ ahead b := by
  unfold ahead
  rw [hp]
  refine (List.monotone_filter_right _ fun n hn => ?_).length_le
  rw [decide_eq_true_eq] at hn ⊢
  omega

theorem ahead_counted_lt (h : b.received + 1 ∈ b.p.drop) : ahead b.counted < ahead b := by
  have hfilter : b.p.drop.filter (b.received + 1 < ·) =
      (b.p.drop.filter (b.received < ·)).filter (b.received + 1 < ·) := by
    rw [List.filter_filter]
    refine List.filter_congr fun n _ => ?_
    rw [Bool.eq_iff_iff]
    simp only [decide_eq_true_eq, Bool.and_eq_true]
    omega
  change (b.p.drop.filter (b.received + 1 < ·)).length < (b.p.drop.filter (b.received < ·)).length
  rw [hfilter]
  refine List.length_filter_lt_length_iff_exists.mpr ⟨b.received + 1, ?_, by simp⟩
  exact List.mem_filter.mpr ⟨h, by simp⟩

section Attempt
variable {rc : Rc} {b1 b2 : Bmc}

/-- The transport at the first stage of an attempt. -/
def started (s : St) (ss : Session) : St :=
  { s.withSession { ss with v2 := {
    ss.v2 with sessionState := .presession } } with trace := s.trace ++ [.attempt] }

variable (hss : s.intf.session = some ss)
include hss

theorem attempt_of_openSession (hrc : rc ≠ .done)
    (h : Converses wire (handle K other) (openSession K) (started s ss) b rc t b') :
    Converses wire (handle K other) (attempt K) s b rc t b' := by
  refine .step (hears_setState _ hss) rfl (.step (hears_record _) rfl (h.bind (.of_hears ?_ rfl)))
  cases rc with
  | done => exact absurd rfl hrc
  | error | timeout => exact .pure _ _

variable (h1 : Converses wire (handle K other) (openSession K) (started s ss) b .done t b1)
include h1

theorem attempt_of_rakp1 (hrc : rc ≠ .done)
    (h : Converses wire (handle K other) (rakp1 K) t b1 rc u b') :
    Converses wire (handle K other) (attempt K) s b rc u b' := by
  refine .step (hears_setState _ hss) rfl (.step (hears_record _) rfl
    (h1.bind (h.bind (.of_hears ?_ rfl))))
  cases rc with
  | done => exact absurd rfl hrc
  | error | timeout => exact .pure _ _

theorem attempt_of_rakp3 (h2 : Converses wire (handle K other) (rakp1 K) t b1 .done u b2)
    (h : Converses wire (handle K other) (rakp3 K) u b2 rc s' b') :
    Converses wire (handle K other) (attempt K) s b rc s' b' :=
  .step (hears_setState _ hss) rfl (.step (hears_record _) rfl (h1.bind (h2.bind h)))

end Attempt

/-- **How an attempt ends**: with both parties agreed, with an error if the controller is not
willing, or with a timeout, which takes one of the losses that are ahead. -/
theorem attempt_ends (other : List UInt8 → Bool → B (List UInt8)) (h : Introduced s ss b)
    (hc : getRequestedCiphers s.intf.ssnParams.cipherSuiteId = some c) :
    ∃ rc t ss' b', Converses wire (handle K other) (attempt K) s b rc t b' ∧ Keeps s ss b t ss' b' ∧
      (rc = .done ∧ Willing b.p c ∧ Agreed c ss' b' ∨ rc = .error ∧ ¬ Willing b.p c ∨
        rc = .timeout ∧ Introduced t ss' b' ∧ ahead b' < ahead b) := by
  set ss0 : Session := { ss with v2 := { ss.v2 with sessionState := .presession } } with hss0
  have halg := getRequestedCiphers_known hc
  have hk0 : Keeps s ss b (started s ss) ss0 b :=
    ⟨⟨s.intf.abort, rfl⟩, h.online.sends, rfl, rfl, rfl, rfl, rfl, ⟨_, _, rfl⟩⟩
  have h0 : Introduced (started s ss) ss0 b := h.keeps hk0 h.idle
  by_cases hd1 : b.received + 1 ∈ b.p.drop
  · obtain ⟨t, ss1, hopen, hk⟩ := openSession_dropped (K := K) other h0 rfl hc hd1
    exact ⟨.timeout, t, ss1, b.counted, attempt_of_openSession h.session (by decide) hopen,
      hk0.trans hk, .inr (.inr ⟨rfl, h0.keeps hk h0.idle, ahead_counted_lt hd1⟩)⟩
  obtain ⟨rc, t, ss1, b1, hopen, hk1, hidle1, hr1, ⟨rfl, hacc, hstate1, hm1⟩ | ⟨rfl, hacc⟩⟩ :=
    openSession_answered (K := K) other h0 rfl hc hd1
  swap
  · exact ⟨.error, t, ss1, b1, attempt_of_openSession h.session (by decide) hopen, hk0.trans hk1,
      .inr (.inl ⟨rfl, fun hw => hacc hw.1⟩)⟩
  have h1 := h0.keeps hk1 hidle1
  by_cases hd2 : b1.received + 1 ∈ b1.p.drop
  · obtain ⟨u, ss2, hnamed, hk2⟩ := rakp1_dropped (K := K) other h1 hstate1 hd2
    refine ⟨.timeout, u, ss2, b1.counted, attempt_of_rakp1 h.session hopen (by decide) hnamed,
      (hk0.trans hk1).trans hk2, .inr (.inr ⟨rfl, h1.keeps hk2 hidle1, ?_⟩)⟩
    exact Nat.lt_of_lt_of_le (ahead_counted_lt hd2) (ahead_le hk1.p (by omega))
  obtain ⟨rc, u, ss2, b2, hnamed, hk2, hidle2, hr2,
      ⟨rfl, hvouch, hstate2, hcode2, hm2, hsh2, hkeys2⟩ | ⟨rfl, hvouch⟩⟩ :=
    rakp1_answered (K := K) other h1 hstate1 hm1 halg hd2
  swap
  · refine ⟨.error, u, ss2, b2, attempt_of_rakp1 h.session hopen (by decide) hnamed,
      (hk0.trans hk1).trans hk2, .inr (.inl ⟨rfl, fun hw => hvouch ?_⟩)⟩
    rw [hk1.p]
    exact hw.2.1
  have h2 := h1.keeps hk2 hidle2
  have hp2 : b2.p = b.p := hk2.p.trans hk1.p
  by_cases hd3 : b2.received + 1 ∈ b2.p.drop
  · obtain ⟨v, ss3, hconf, hk3⟩ := rakp3_dropped (K := K) other h2 hstate2 hcode2 hm2 hsh2 halg hd3
    refine ⟨.timeout, v, ss3, b2.counted, attempt_of_rakp3 h.session hopen hnamed hconf,
      ((hk0.trans hk1).trans hk2).trans hk3, .inr (.inr ⟨rfl, h2.keeps hk3 hidle2, ?_⟩)⟩
    exact Nat.lt_of_lt_of_le (ahead_counted_lt hd3) (ahead_le hp2 (by omega))
  obtain ⟨rc, v, ss3, b3, hconf, hk3, hr3, ⟨rfl, hconfirm, hagreed⟩ | ⟨rfl, hconfirm⟩⟩ :=
    rakp3_answered (K := K) other h2 hstate2 hcode2 hm2 hsh2 halg hkeys2 hd3
  · refine ⟨.done, v, ss3, b3, attempt_of_rakp3 h.session hopen hnamed hconf,
      ((hk0.trans hk1).trans hk2).trans hk3, .inl ⟨rfl, ⟨hacc, ?_, ?_⟩, hagreed⟩⟩
    · rw [← hk1.p]
      exact hvouch
    · rw [← hp2]
      exact hconfirm
  · refine ⟨.error, v, ss3, b3, attempt_of_rakp3 h.session hopen hnamed hconf,
      ((hk0.trans hk1).trans hk2).trans hk3, .inr (.inl ⟨rfl, fun hw => hconfirm ?_⟩)⟩
    rw [hp2]
    exact hw.2.2

/-- **How the retry loop ends**, with fewer losses ahead than there are attempts. -/
theorem handshakeLoop_ends (other : List UInt8 → Bool → B (List UInt8)) {n : ℕ}
    (h : Introduced s ss b) (hc : getRequestedCiphers s.intf.ssnParams.cipherSuiteId = some c)
    (hn : ahead b < n) :
    ∃ ok t ss' b', Converses wire (handle K other) (handshakeLoop K n) s b ok t b' ∧
      Keeps s ss b t ss' b' ∧
      (ok = true ∧ Willing b.p c ∧ Agreed c ss' b' ∨ ok = false ∧ ¬ Willing b.p c) := by
  induction n generalizing s ss b with
  | zero => exact absurd hn (Nat.not_lt_zero _)
  | succ n ih =>
    obtain ⟨rc, t, ss1, b1, hconv, hk, ⟨rfl, hw, hagreed⟩ | ⟨rfl, hw⟩ | ⟨rfl, h1, hlt⟩⟩ :=
      attempt_ends (K := K) other h hc
    · exact ⟨true, t, ss1, b1, hconv.bind (.of_hears (.pure _ _) rfl), hk, .inl ⟨rfl, hw, hagreed⟩⟩
    · exact ⟨false, t, ss1, b1, hconv.bind (.of_hears (.pure _ _) rfl), hk, .inr ⟨rfl, hw⟩⟩
    · obtain ⟨abort, ht⟩ := hk.intf
      obtain ⟨ok, u, ss2, b2, hrest, hk2, hend⟩ := ih h1 (by rw [ht]; exact hc) (by omega)
      rw [hk.p] at hend
      exact ⟨ok, u, ss2, b2, hconv.bind hrest, hk.trans hk2, hend⟩

/-- **The handshake of the two parties.** With fewer losses ahead than there are attempts, the retry
loop succeeds if the controller takes part to the end and fails if it does not. After a success both
parties agree, and the controller has changed nothing but its session and has seen no violation. -/
theorem handshakeLoop_agrees {n : ℕ} (h : Introduced s ss b)
    (hc : getRequestedCiphers s.intf.ssnParams.cipherSuiteId = some c) (hn : ahead b < n) :
    ∃ t ss' b', Converses wire (handle K other)
      (handshakeLoop K n) s b (decide (Willing b.p c)) t b' ∧
      Keeps s ss b t ss' b' ∧ (Willing b.p c → Agreed c ss' b') := by
  obtain ⟨ok, t, ss', b', hconv, hk, ⟨rfl, hw, hagreed⟩ | ⟨rfl, hw⟩⟩ :=
    handshakeLoop_ends (K := K) other h hc hn
  · rw [decide_eq_true hw]
    exact ⟨t, ss', b', hconv, hk, fun _ => hagreed⟩
  · rw [decide_eq_false hw]
    exact ⟨t, ss', b', hconv, hk, fun hw' => absurd hw' hw⟩

/-- Primitives for a worked run: a digest of the key and the data, and a cipher that depends on its
key. -/
def mixed : Primitives where
  hmac a key data := (List.range a.digestLength).map fun i =>
    (key ++ UInt8.ofNat key.length :: data).foldl (fun h x => 31 * h + x) (UInt8.ofNat i)
  aesEnc key block := block.map (· ^^^ key.foldl (fun h x => 31 * h + x) 1)
  aesDec key block := block.map (· ^^^ key.foldl (fun h x => 31 * h + x) 1)
  length_hmac a key data := by simp
  length_aesEnc _ _ h := by simpa using h
  aesDec_aesEnc key block h := by
    rw [List.map_map, List.map_congr_left (g := id) fun x _ => ?_, List.map_id]
    rw [Function.comp_apply, UInt8.xor_assoc, UInt8.xor_self, UInt8.xor_zero, id_eq]

/-- A transport in front of the handshake, with cipher suite 3. -/
def newcomer : St :=
  { intf := { fd := 3, ssnParams := { cipherSuiteId := 3, retry := 4, timeout := 1 }, session := some {} } }

/-- A controller that loses the second datagram. -/
def lossy : Bmc := { p := { drop := [2] } }

theorem introduced_lossy : Introduced newcomer {} lossy where
  online := ⟨by decide, rfl, by decide, ⟨by decide, by decide⟩⟩
  session := rfl
  idle := by decide
  ccode := by decide
  patient := by decide
  intelplus := rfl
  i82571spt := rfl
  username := rfl
  username_le := by decide
  password := by decide
  kg := by decide

/-- The first attempt is lost, and the second one succeeds. -/
theorem handshakeLoop_agrees_lossy : ∃ t ss' b',
    Converses wire (handle mixed fun _ _ => pure []) (handshakeLoop mixed lanRetry)
        newcomer lossy true t b' ∧
      Keeps newcomer {} lossy t ss' b' ∧
      (Willing lossy.p ⟨authRakpHmacSha1, integrityHmacSha1, cryptAesCbc⟩ →
        Agreed ⟨authRakpHmacSha1, integrityHmacSha1, cryptAesCbc⟩ ss' b') :=
  handshakeLoop_agrees introduced_lossy rfl (by decide)

end Ipmitool.Peer.Agreement
