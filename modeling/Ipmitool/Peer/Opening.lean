import Ipmitool.Lanplus.Establishment
import Ipmitool.Peer.Session
import Ipmitool.Peer.Discovery

/-! # Opening a session with the controller

`openConnected` against a controller that loses nothing and has no quirks: the transport asks
whether the controller speaks IPMI v2.0, which suites it has, shakes hands, raises the privilege
level and asks for sizes and the manufacturer. `openConnected_served` says when it succeeds and what
it leaves behind, and `connection_served` is about a whole connection: `open`, the commands,
`close`. -/

namespace Ipmitool.Peer.Opening

open Ipmitool.Lib.Conversation
open Ipmitool.Core.Types Ipmitool.Crypto.Mac Ipmitool.Lanplus.State
open Ipmitool.Lanplus.Build (entryBridgingLevel bridgedRequest)
open Ipmitool.Lanplus.Send (getDeviceId sendIpmiCmd)
open Ipmitool.Lanplus.Receive (ValidFd)
open Ipmitool.Lanplus.Packet (KnownIntegrity KnownCrypt)
open Ipmitool.Lanplus.Open
open Ipmitool.Lanplus.Establishment (connected)
open Ipmitool.Peer.Controller Ipmitool.Peer.Exchange Ipmitool.Peer.Packets Ipmitool.Peer.Handshake
open Ipmitool.Peer.Agreement Ipmitool.Peer.Commands Ipmitool.Peer.Turns Ipmitool.Peer.Discovery

variable {K : Primitives} (other : List UInt8 → Bool → B (List UInt8)) {s t : St} {ss : Session}
  {b b' b'' : Bmc}
  {level : ℕ} {c : Ciphers} {p : Personality} {req : Request} {a : Answer}

/-- A controller that loses nothing and treats every command alike. -/
structure Plain (p : Personality) : Prop where
  drop : p.drop = []
  dup : p.dupOnce = none
  extra : p.extra = []
  deaf : p.deaf = none
  authcap : p.authcapCcode ≠ 0xcf
  authcapV2 : p.authcapV2Ccode ≠ 0xcf
  privlvl : p.privlvlCcode ≠ 0xcf

theorem Plain.ordinary (h : Plain p) (netfn cmd : UInt8) : Ordinary p netfn cmd where
  dup := by
    rw [h.dup]
    exact fun hnone => by cases hnone
  extra := by
    rw [h.extra]
    rfl
  deaf := by
    rw [h.deaf]
    exact fun hnone => by cases hnone

theorem Plain.ahead (h : Plain b.p) : ahead b = 0 := by
  rw [Agreement.ahead, h.drop]
  rfl

theorem Plain.timely (h : Plain b.p) (n : ℕ) (clock : List ℤ) (timeout : UInt32) :
    Timely n clock timeout b :=
  fun hpos => absurd h.ahead (by omega)

theorem sendIpmiCmd_plain (hp : Plain b.p) (h : Attached level s ss b)
    (hlevel : level ≤ 1) (hcmd : req.cmd ≠ 0x34) (hrequest : req.data.length ≤ 16)
    (hanswer : a.data.length ≤ 16) (hccode : a.ccode ≠ 0xcf)
    (hserve : serve (2 - level) req b = .ok (a, b)) (hold : level = 1 → req.cmd ≠ 0x38) :
    ∃ t ss' b', Converses wire (handle K other) (sendIpmiCmd K req) s b true t b' ∧
      Queried level s ss b t ss' b' ∧
      Holding a t.recvRsp := by
  have hserved : Served b.p level req a := by
    refine ⟨hlevel, fun _ => (hp.ordinary _ _).deaf, fun _ => hp.ordinary _ _,
      fun _ => hcmd, ?_, ?_,
      fun _ => by omega, hccode⟩
    · unfold maxPayload
      omega
    · unfold maxPayload
      omega
  have hretry := h.online.retry
  obtain ⟨t, ss', b', hconv, ht, hhold, -⟩ :=
    sendIpmiCmd_queried (K := K) (n := 0) other h hserved hserve
      (fun hgoes => ⟨by by_contra hne; exact hold (by omega) hgoes.2.1, by omega, by omega⟩)
      (by rw [hp.ahead]; omega) (hp.timely _ _ _)
  exact ⟨t, ss', b', hconv, ht, hhold⟩

theorem attached_view {level' : ℕ} (h : Attached level s ss b) (hnet : t.net = s.net)
    (hentries : t.reqEntries = s.reqEntries) (hsession : t.intf.session = s.intf.session)
    (hnoanswer : t.intf.noanswer = s.intf.noanswer)
    (hretry : t.intf.ssnParams.retry = s.intf.ssnParams.retry) (hfd : t.intf.fd = s.intf.fd)
    (hbridged : bridgedRequest t.intf t.bridgePossible = level')
    (hrecorded : entryBridgingLevel t.intf t.bridgePossible = level') : Attached level' t ss b where
  online := ⟨by rw [hnet]; exact h.online.sends, by rw [hnoanswer]; exact h.online.noanswer,
    by rw [hretry]; exact h.online.retry, by rw [hfd]; exact h.online.fd⟩
  session := hsession.trans h.session
  sync := h.sync
  entries := hentries.trans h.entries
  bridged := hbridged
  recorded := hrecorded
  v15 := h.v15

/-- The controller counts its datagrams and has another session. -/
def Moved (b b' : Bmc) : Prop := ∃ received v2, b' = { b with received, v2 }

theorem Moved.trans (h : Moved b b') (h' : Moved b' b'') : Moved b b'' := by
  obtain ⟨received, v2, rfl⟩ := h
  obtain ⟨received', v2', rfl⟩ := h'
  exact ⟨received', v2', rfl⟩

theorem moved_of_asked {ss' : Session} (h : Asked s ss b b t ss' b') : Moved b b' := by
  obtain ⟨received, seq, rfl⟩ := h.bmc
  exact ⟨received, _, rfl⟩

/-! ### In front of the handshake -/

theorem bridge_eq {v : Bool} (h : s.bridgePossible = v) : { s with bridgePossible := v } = s := by
  rw [← h]

/-- The controller speaks IPMI v2.0. -/
def Offers (p : Personality) : Prop :=
  p.authcapCcode = 0 ∧ (p.authcapV2Ccode = 0 ∧ p.v20 = true ∨ p.authTypes &&& 0x80 ≠ 0)

instance (p : Personality) : Decidable (Offers p) :=
  inferInstanceAs (Decidable (_ ∧ (_ ∨ _)))

theorem serve_authCap (hp : Plain b.p) (depth : ℕ) (channel privlvl : UInt8) :
    serve depth (authCapRequest channel privlvl) b =
      .ok (authCapabilities b.p (asked 0 0 (authCapRequest channel privlvl)), b) := by
  cases depth with
  | zero => exact (dispatchWith_app (hp.ordinary _ _) rfl).trans rfl
  | succ depth => exact (dispatchWith_app (hp.ordinary _ _) rfl).trans rfl

theorem authCap_fits (hp : Plain p) (m : Message) :
    (authCapabilities p m).data.length ≤ 16 ∧ (authCapabilities p m).ccode ≠ 0xcf := by
  unfold authCapabilities
  dsimp only
  split_ifs
  · exact ⟨Nat.zero_le _, hp.authcap⟩
  · exact ⟨Nat.zero_le _, hp.authcapV2⟩
  · exact ⟨(by decide : 8 ≤ 16), (by decide : (0 : UInt8) ≠ 0xcf)⟩
  · exact ⟨(by decide : 8 ≤ 16), (by decide : (0 : UInt8) ≠ 0xcf)⟩

theorem or_flag (x : UInt8) : (x ||| 0x80) &&& 0x80 ≠ 0 := by
  intro h
  have hbit : ((x ||| 0x80) &&& 0x80).toBitVec.getLsbD 7 = true := by simp
  rw [h] at hbit
  exact absurd hbit (by decide)

/-- The answer to the request for the capabilities with the flag of version 2.0 (0x8e) or without
it. -/
def capAnswer (p : Personality) (channel privlvl : UInt8) : Answer :=
  authCapabilities p (asked 0 0 (authCapRequest channel privlvl))

/-- What the transport learns from the two requests. -/
def capability (p : Personality) (privlvl : UInt8) : Option UInt8 :=
  if (capAnswer p 0x8e privlvl).ccode = 0 then some ((capAnswer p 0x8e privlvl).data.getD 1 0)
  else if (capAnswer p 0x0e privlvl).ccode = 0 then some ((capAnswer p 0x0e privlvl).data.getD 1 0)
  else none

theorem capAnswer_v20 (p : Personality) (privlvl : UInt8) : capAnswer p 0x8e privlvl =
    if p.authcapCcode ≠ 0 then { ccode := p.authcapCcode }
    else if p.authcapV2Ccode ≠ 0 then { ccode := p.authcapV2Ccode }
    else if p.v20 then { data := [0x01, p.authTypes ||| 0x80, 0x04, 0x03, 0, 0, 0, 0] }
    else { data := [0x01, p.authTypes, 0x04, 0x01, 0, 0, 0, 0] } := by
  have hflag : (1 ≤ (asked 0 0 (authCapRequest 0x8e privlvl)).data.length ∧
      (asked 0 0 (authCapRequest 0x8e privlvl)).data.getD 0 0 &&& 0x80 ≠ 0) = True :=
    eq_true ⟨(by decide : 1 ≤ 2), (by decide : (0x8e : UInt8) &&& 0x80 ≠ 0)⟩
  unfold capAnswer authCapabilities
  simp only [hflag, true_and]

theorem capAnswer_v15 (p : Personality) (privlvl : UInt8) : capAnswer p 0x0e privlvl =
    if p.authcapCcode ≠ 0 then { ccode := p.authcapCcode }
    else { data := [0x01, p.authTypes, 0x04, 0x01, 0, 0, 0, 0] } := by
  have hflag : (1 ≤ (asked 0 0 (authCapRequest 0x0e privlvl)).data.length ∧
      (asked 0 0 (authCapRequest 0x0e privlvl)).data.getD 0 0 &&& 0x80 ≠ 0) = False :=
    eq_false fun h => absurd h.2 (by decide : ¬ (0x0e : UInt8) &&& 0x80 ≠ 0)
  unfold capAnswer authCapabilities
  simp only [hflag, false_and, if_false]

/-- The transport learns whether the controller speaks IPMI v2.0. -/
theorem capability_offers (p : Personality) (privlvl : UInt8) :
    ((capability p privlvl).elim false fun b1 => b1 &&& 0x80 != 0) = decide (Offers p) := by
  unfold capability Offers
  rw [capAnswer_v20, capAnswer_v15]
  by_cases hcap : p.authcapCcode = 0
  · by_cases hv2 : p.authcapV2Ccode = 0
    · by_cases hv20 : p.v20 = true
      · have hbit := or_flag p.authTypes
        simp [hcap, hv2, hv20, hbit]
      · simp [hcap, hv2, hv20, bne]
        rfl
    · simp [hcap, hv2, bne]
      rfl
  · simp [hcap]

theorem authCap_length {m : Message} (h : (authCapabilities p m).ccode = 0) :
    2 ≤ (authCapabilities p m).data.length := by
  unfold authCapabilities at h ⊢
  dsimp only at h ⊢
  split_ifs at h ⊢ with h1 h2
  · exact absurd h h1
  · exact absurd h h2.2
  · exact (by decide : 2 ≤ 8)
  · exact (by decide : 2 ≤ 8)

theorem data_eq_getD {r : Response} (h : Holding a r) {i : ℕ} (hi : i < a.data.length) :
    r.data i = a.data.getD i 0 := by
  have h1 := h.2.2.getElem hi
  rw [Nat.zero_add] at h1
  rw [h1, List.getD, List.getElem?_eq_getElem hi, Option.getD_some]

/-- One of the two requests for the capabilities. -/
theorem authCap_asked (hp : Plain b.p) (h : Attached 0 s ss b) (channel privlvl : UInt8) :
    ∃ t ss' b', Converses wire (handle K other)
      (sendIpmiCmd K (authCapRequest channel privlvl)) s b true t b' ∧
      Queried 0 s ss b t ss' b' ∧ Holding (capAnswer b.p channel privlvl) t.recvRsp :=
  sendIpmiCmd_plain other hp h (Nat.zero_le _) (by decide : (0x38 : UInt8) ≠ 0x34)
    (by decide : 2 ≤ 16)
    (authCap_fits hp _).1 (authCap_fits hp _).2 (serve_authCap hp 2 channel privlvl)
      (fun h => absurd h (by decide))

/-- `getAuthCapabilitiesCmd` asks a second time if the first answer is an error. -/
theorem getAuthCapabilitiesCmd_ends (hp : Plain b.p)
    (h : Attached 0 s ss b) (hbridge : s.bridgePossible = false) : ∃ t ss' b',
      Converses wire (handle K other)
        (getAuthCapabilitiesCmd K) s b (capability b.p s.intf.ssnParams.privlvl) t b' ∧
      Queried 0 s ss b t ss' b' := by
  obtain ⟨t, ss1, b1, hconv, ht, hhold⟩ :=
    authCap_asked (K := K) other hp h 0x8e s.intf.ssnParams.privlvl
  unfold getAuthCapabilitiesCmd capability
  by_cases hfirst : (capAnswer b.p 0x8e s.intf.ssnParams.privlvl).ccode = 0
  · have hgood : ¬ (¬ (true = true) ∨ t.recvRsp.ccode ≠ 0) := by
      rw [hhold.1, hfirst]
      decide
    refine ⟨t, ss1, b1, .read (fun _ => rfl) (.step (Hears.modify fun _ => rfl) rfl ?_), ht⟩
    rw [bridge_eq hbridge, if_pos hfirst]
    refine hconv.bind (.read (fun _ => rfl) ?_)
    rw [if_neg hgood]
    refine .step (.pure _ _) rfl (.read (fun _ => rfl) ?_)
    rw [if_neg hgood]
    refine .step (Hears.modify fun _ => rfl) rfl ?_
    rw [bridge_eq ht.asked.bridgePossible, ← data_eq_getD hhold (authCap_length hfirst)]
    exact .of_hears (.pure _ _) rfl
  · have hbad : ¬ (true = true) ∨ t.recvRsp.ccode ≠ 0 := .inr (by rw [hhold.1]; exact hfirst)
    have hp1 := ht.asked.p
    obtain ⟨u, ss2, b2, hconv2, hu, hhold2⟩ :=
      authCap_asked (K := K) other (hp1 ▸ hp) ht.attached 0x0e s.intf.ssnParams.privlvl
    rw [hp1] at hhold2
    refine ⟨u, ss2, b2, .read (fun _ => rfl) (.step (Hears.modify fun _ => rfl) rfl ?_),
      ht.trans hu⟩
    rw [bridge_eq hbridge, if_neg hfirst]
    refine hconv.bind (.read (fun _ => rfl) ?_)
    rw [if_pos hbad]
    refine hconv2.bind (.read (fun _ => rfl) ?_)
    by_cases hsecond : (capAnswer b.p 0x0e s.intf.ssnParams.privlvl).ccode = 0
    · have hgood : ¬ (¬ (true = true) ∨ u.recvRsp.ccode ≠ 0) := by
        rw [hhold2.1, hsecond]
        decide
      rw [if_neg hgood, if_pos hsecond]
      refine .step (Hears.modify fun _ => rfl) rfl ?_
      rw [bridge_eq (ht.trans hu).asked.bridgePossible,
        ← data_eq_getD hhold2 (authCap_length hsecond)]
      exact .of_hears (.pure _ _) rfl
    · rw [if_pos (.inr (by rw [hhold2.1]; exact hsecond)), if_neg hsecond]
      exact .of_hears (.pure _ _) rfl

theorem supportsV2_ends (hp : Plain b.p) (h : Attached 0 s ss b)
    (hbridge : s.bridgePossible = false) (hoem : s.intf.oemActive .i82571spt = false) : ∃ t ss' b',
      Converses wire (handle K other) (supportsV2 K) s b (decide (Offers b.p)) t b' ∧
      Queried 0 s ss b t ss' b' := by
  obtain ⟨t, ss1, b1, hconv, ht⟩ := getAuthCapabilitiesCmd_ends (K := K) other hp h hbridge
  refine ⟨t, ss1, b1, ?_, ht⟩
  unfold supportsV2
  refine .read (fun _ => rfl) ?_
  rw [hoem, if_neg Bool.false_ne_true]
  refine hconv.bind ?_
  rw [← capability_offers b.p s.intf.ssnParams.privlvl]
  cases capability b.p s.intf.ssnParams.privlvl with
  | none => exact .of_hears (.pure _ _) rfl
  | some b1 => exact .of_hears (.pure _ _) rfl

/-! ### Behind the handshake -/

/-- The privilege level is granted, or needs not to be asked for. -/
def Grants (intf : Intf) (p : Personality) : Prop :=
  intf.ssnParams.privlvl ≤ privUser ∨ p.privlvlCcode = 0

instance (intf : Intf) (p : Personality) : Decidable (Grants intf p) :=
  inferInstanceAs (Decidable (_ ∨ _))

theorem setSessionPrivlvlCmd_ends (hp : Plain b.p)
    (h : Attached 0 s ss b) (hbridge : s.bridgePossible = false) : ∃ t ss' b',
      Converses wire (handle K other)
        (setSessionPrivlvlCmd K) s b (decide (Grants s.intf b.p)) t b' ∧
      Attached 0 t ss' b' ∧ Asked s ss b b t ss' b' := by
  unfold setSessionPrivlvlCmd
  by_cases hlow : s.intf.ssnParams.privlvl ≤ privUser
  · refine ⟨s, ss, b, .read (fun _ => rfl) ?_, h, h.asked⟩
    rw [if_pos hlow, decide_eq_true (show Grants s.intf b.p from .inl hlow)]
    exact .of_hears (.pure _ _) rfl
  · set a : Answer :=
      if b.p.privlvlCcode ≠ 0 then { ccode := b.p.privlvlCcode }
      else { data := [s.intf.ssnParams.privlvl] } with ha
    have hserve : serve 2 (privlvlRequest s.intf.ssnParams.privlvl) b = .ok (a, b) :=
      (dispatchWith_app (hp.ordinary _ _) rfl).trans rfl
    have hfit : a.data.length ≤ 16 ∧ a.ccode ≠ 0xcf ∧ (a.ccode = 0 ↔ b.p.privlvlCcode = 0) := by
      rw [ha]
      split_ifs with hne
      · exact ⟨Nat.zero_le _, hp.privlvl, Iff.rfl⟩
      · exact ⟨(by decide : 1 ≤ 16), (by decide : (0 : UInt8) ≠ 0xcf),
          ⟨fun _ => not_not.mp hne, fun _ => rfl⟩⟩
    obtain ⟨t, ss1, b1, hconv, ht, hhold⟩ := sendIpmiCmd_plain (K := K) other hp h (Nat.zero_le _)
      (by decide : (0x3b : UInt8) ≠ 0x34)
      (show (privlvlRequest s.intf.ssnParams.privlvl).data.length ≤ 16 from
        (by decide : 1 ≤ 16)) hfit.1 hfit.2.1 hserve
      (fun h => absurd h (by decide))
    refine ⟨t, ss1, b1, .read (fun _ => rfl) ?_, ht.attached, ht.asked⟩
    rw [if_neg hlow]
    refine .step (Hears.modify fun _ => rfl) rfl ?_
    rw [bridge_eq hbridge]
    refine hconv.bind (.step (Hears.modify fun _ => rfl) rfl ?_)
    rw [bridge_eq ht.asked.bridgePossible]
    refine .read (fun _ => rfl) ?_
    have hiff : Grants s.intf b.p ↔ (true = true ∧ t.recvRsp.ccode = 0) := by
      rw [hhold.1, hfit.2.2, Grants]
      simp only [true_and, hlow, false_or]
    rw [decide_eq_decide.mpr hiff]
    exact .of_hears (.pure _ _) rfl

/-- A controller that has no LAN attachment to offer. -/
theorem detectMaxPayloadSize_ends (hp : Plain b.p)
    (h : Attached 0 s ss b) : ∃ t ss' b',
      Converses wire (handle K other) (detectMaxPayloadSize K) s b () t b' ∧
      Queried 0 s ss b t ss' b' := by
  have hserve : serve 2 lanAttachRequest b = .ok ({ ccode := 0xc1 }, b) :=
    dispatchWith_unknown (hp.ordinary _ _) (by decide) (by decide)
  obtain ⟨t, ss1, b1, hconv, ht, hhold⟩ :=
    sendIpmiCmd_plain (K := K) other hp h (Nat.zero_le _) (by decide)
      (by decide) (by decide) (by decide) hserve (fun h => absurd h (by decide))
  have hnone : lanAttachCapabilities t.recvRsp = none := by
    unfold lanAttachCapabilities
    rw [if_pos (.inl (by rw [hhold.1]; decide))]
  refine ⟨t, ss1, b1, ?_, ht⟩
  unfold detectMaxPayloadSize
  refine hconv.bind (.read (fun _ => rfl) ?_)
  rw [hnone]
  exact .of_hears (.pure _ _) rfl

/-- The manufacturer is known, or the controller is asked for it. -/
theorem getOem_ends (hp : Plain b.p) (hlevel : level ≤ 1)
    (h : Attached level s ss b) : ∃ oem t ss' b',
      Converses wire (handle K other) (getOem K) s b oem t b' ∧ Attached level t ss' b' ∧
      Asked s ss b b t ss' b' := by
  unfold getOem
  by_cases hfd : s.intf.fd = 0
  · refine ⟨s.selIana, s, ss, b, .read (fun _ => rfl) ?_, h, h.asked⟩
    rw [if_pos hfd]
    exact .of_hears (.pure _ _) rfl
  · by_cases hknown : s.intf.session.isSome ∧ s.intf.manufacturerId ≠ 0
    · refine ⟨s.intf.manufacturerId, s, ss, b, .read (fun _ => rfl) ?_, h, h.asked⟩
      rw [if_neg hfd, if_pos hknown]
      exact .of_hears (.pure _ _) rfl
    · have hserve : serve (2 - level) getDeviceId b = .ok ({ data := deviceId }, b) := by
        obtain rfl | rfl : level = 0 ∨ level = 1 := by omega
        · exact (dispatchWith_app (hp.ordinary _ _) rfl).trans rfl
        · exact (dispatchWith_app (hp.ordinary _ _) rfl).trans rfl
      obtain ⟨t, ss1, b1, hconv, ht, -⟩ :=
        sendIpmiCmd_plain (K := K) other hp h hlevel (by decide) (by decide)
          (by decide) (by decide) hserve (fun _ => by decide)
      set r := t.recvRsp
      refine ⟨if true = true ∧ r.ccode = 0 then Lib.Bytes.ofLe32 (r.data 6) (r.data 7) (r.data 8) 0
        else 0, t, ss1, b1,
        .read (fun _ => rfl) ?_, ht.attached, ht.asked⟩
      rw [if_neg hfd, if_neg hknown]
      exact hconv.bind (.read (fun _ => rfl) (.of_hears (.pure _ _) rfl))

/-! ### The whole -/

/-- **Two parties that can open a session**: the transport can send and receive, has nothing
pending, works around no defect and has not bridged yet, the controller is in no session and has no
quirks, and both know the user name, the password and the key Kg. -/
structure Strangers (s : St) (b : Bmc) : Prop where
  sends : true ∉ s.net.sendFails
  noanswer : s.intf.noanswer = false
  retry : 0 < s.intf.ssnParams.retry
  fd : ValidFd s.intf.fd
  entries : s.reqEntries = []
  bridge : s.bridgePossible = false
  patient : s.intf.ssnParams.timeout ≠ 0xffffffff
  intelplus : s.intf.oemActive .intelplus = false
  i82571spt : s.intf.oemActive .i82571spt = false
  idle : b.v2.state ≠ .active
  v15 : b.v15.active = false
  plain : Plain b.p
  table : ∀ list, b.p.cipherSuites = some list → list.length ≤ 204
  username : s.intf.ssnParams.username = b.p.username
  username_le : s.intf.ssnParams.username.length ≤ 16
  password : s.intf.ssnParams.authcodeSet.take 20 = b.kuid
  kg : b.kgKey = if s.intf.ssnParams.kg.headD 0 ≠ 0 then some (s.intf.ssnParams.kg.take 20)
    else none

/-- The state with the session that `open` starts with. -/
def starting (s : St) : St :=
  { s with intf := { s.intf with session := some (freshSession s.intf.ssnParams), abort := true } }

theorem unbridged (intf : Intf) (h : s.bridgePossible = false) :
    bridgedRequest intf s.bridgePossible = 0 ∧ entryBridgingLevel intf s.bridgePossible = 0 := by
  rw [h]
  exact ⟨if_pos (.inr rfl), if_pos (.inr rfl)⟩

theorem Strangers.attached (h : Strangers s b) : Attached 0 (starting s)
    (freshSession s.intf.ssnParams) b where
  online := ⟨h.sends, h.noanswer, h.retry, h.fd⟩
  session := rfl
  sync := .inr ⟨(by decide : SessionState.presession ≠ .active), h.idle⟩
  entries := h.entries
  bridged := (unbridged _ h.bridge).1
  recorded := (unbridged _ h.bridge).2
  v15 := h.v15

/-- The suite that the handshake asks for. -/
def chosen (s : St) (p : Personality) : CipherSuiteId :=
  if s.intf.ssnParams.cipherSuiteId = suiteReserved then bestSuite p.cipherSuites
    else s.intf.ssnParams.cipherSuiteId

/-- The transport in front of the handshake, and the controller. -/
structure Prepared (s : St) (b : Bmc) (t : St) (ss : Session) (b' : Bmc) : Prop where
  intf : t.intf = { s.intf with
    session := some ss, abort := true, ssnParams :=
      { s.intf.ssnParams with cipherSuiteId := chosen s b.p } }
  attached : Attached 0 t ss b'
  introduced : Introduced t ss b'
  bridge : t.bridgePossible = false
  p : b'.p = b.p

theorem Strangers.prepared {u : St} {suite : CipherSuiteId} (h : Strangers s b)
    (ht : Queried 0 (starting s) (freshSession s.intf.ssnParams) b t ss b')
    (hsuite : chosen s b.p = suite)
    (hu : u = { t with intf := { t.intf with ssnParams := {
      t.intf.ssnParams with cipherSuiteId := suite } } }) :
    Prepared s b u ss b' := by
  have hp := ht.asked.p
  have hintf := ht.asked.intf
  obtain ⟨received, seq, hb⟩ := ht.asked.bmc
  subst hu hsuite
  have hat : Attached 0 { t with intf := { t.intf with
      ssnParams := { t.intf.ssnParams with cipherSuiteId := chosen s b.p } } } ss b' :=
    attached_view ht.attached rfl rfl rfl rfl rfl rfl ht.attached.bridged ht.attached.recorded
  refine ⟨by rw [hintf]; rfl, hat, ?_, ht.asked.bridgePossible.trans h.bridge, hp⟩
  exact {
      online := hat.online
      session := hat.session
      idle := by rw [hb]; exact h.idle
      ccode := ht.ccode
      patient := by rw [ht.timeout]; exact h.patient
      intelplus := by rw [hintf]; exact h.intelplus
      i82571spt := by rw [hintf]; exact h.i82571spt
      username := by rw [hintf, hp]; exact h.username
      username_le := by rw [hintf]; exact h.username_le
      password := by rw [ht.asked.authcode, hb]; exact h.password
      kg := by rw [hintf, hb]; exact h.kg }

theorem openPrologue_ends (h : Strangers s b) : ∃ t ss' b',
    Converses wire (handle K other) (openPrologue K) s b (decide (Offers b.p)) t b' ∧
      Moved b b' ∧ (Offers b.p → Prepared s b t ss' b') := by
  obtain ⟨t, ss1, b1, hconv, ht⟩ :=
    supportsV2_ends (K := K) other h.plain h.attached h.bridge (s := starting s) h.i82571spt
  unfold openPrologue
  by_cases hoffers : Offers b.p
  · have hp := ht.asked.p
    have hid : t.intf.ssnParams.cipherSuiteId = s.intf.ssnParams.cipherSuiteId := by
      rw [ht.asked.intf]
      rfl
    by_cases hreserved : s.intf.ssnParams.cipherSuiteId = suiteReserved
    · have hplain : Plain b1.p := by
        rw [hp]
        exact h.plain
      have hretry := ht.attached.online.retry
      obtain ⟨u, ss2, b2, hbest, hu⟩ := findBestCipherSuite_ends (K := K) other (Nat.zero_le _)
        (hplain.ordinary _ _) (fun hlevel => by cases hlevel)
          (by rw [hp]; exact h.table) ht.attached
        (by rw [hplain.ahead]; omega) (hplain.timely _ _ _)
      refine ⟨_, ss2, b2, .step (Hears.modify fun _ => rfl) rfl (hconv.bind ?_),
        moved_of_asked (ht.trans hu).asked, fun _ =>
        h.prepared (ht.trans hu) (if_pos hreserved) rfl⟩
      rw [decide_eq_true hoffers]
      refine .read (fun _ => rfl) ?_
      rw [if_pos (hid.trans hreserved), ← hp]
      exact hbest.bind (.step (Hears.modify fun _ => rfl) rfl (.of_hears (.pure _ _) rfl))
    · refine ⟨t, ss1, b1, .step (Hears.modify fun _ => rfl) rfl (hconv.bind ?_),
        moved_of_asked ht.asked, fun _ => h.prepared ht (if_neg hreserved) (by rw [← hid])⟩
      rw [decide_eq_true hoffers]
      refine .read (fun _ => rfl) ?_
      rw [if_neg (by rw [hid]; exact hreserved)]
      exact .of_hears (.pure _ _) rfl
  · refine ⟨t, ss1, b1, .step (Hears.modify fun _ => rfl) rfl (hconv.bind ?_),
      moved_of_asked ht.asked, fun h => absurd h hoffers⟩
    rw [decide_eq_false hoffers]
    exact .of_hears (.pure _ _) rfl

theorem openEpilogue_ends (hp : Plain b.p) (h : Attached 0 s ss b)
    (hsecure : Secure ss b) (hbridge : s.bridgePossible = false) (hoem : s.intf.oemActive .i82571spt = false)
    (hlevel : level ≤ 1) (hbridged : bridgedRequest s.intf true = level)
    (hrecorded : entryBridgingLevel s.intf true = level) : ∃ t b',
      Converses wire (handle K other) (openEpilogue K) s b (decide (Grants s.intf b.p)) t b' ∧
      Moved b b' ∧ (Grants s.intf b.p → ∃ ss', Attached level t ss' b' ∧ Secure ss' b') := by
  set s1 : St := { s with trace := s.trace ++ [.opened], intf := { s.intf with abort := false } } with hs1
  have h1 : Attached 0 s1 ss b := attached_view h rfl rfl rfl rfl rfl rfl h.bridged h.recorded
  obtain ⟨t, ss1, b1, hpriv, ht, hasked⟩ := setSessionPrivlvlCmd_ends (K := K) other hp h1 hbridge
  have hp1 := hasked.p
  unfold openEpilogue
  by_cases hgrants : Grants s.intf b.p
  · obtain ⟨u, ss2, b2, hsizes, hu⟩ := detectMaxPayloadSize_ends (K := K) other (hp1 ▸ hp) ht
    have hall := hasked.trans hu.asked
    have hp2 := hall.p
    set u1 : St := { u with bridgePossible := true } with hu1
    have hat : Attached level u1 ss2 b2 := attached_view hu.attached rfl rfl rfl rfl rfl rfl
      (by rw [hu1, hall.intf]; exact hbridged) (by rw [hu1, hall.intf]; exact hrecorded)
    obtain ⟨oem, v, ss3, b3, hoemconv, hv, hasked3⟩ :=
      getOem_ends (K := K) other (by rw [hp2]; exact hp) hlevel hat
    obtain ⟨received, seq, hb2⟩ := hall.bmc
    obtain ⟨received', seq', hb3⟩ := hasked3.bmc
    set v1 : St := { v with intf := { v.intf with manufacturerId := oem } }
    have hend : Attached level v1 ss3 b3 :=
      attached_view hv rfl rfl rfl rfl rfl rfl hv.bridged hv.recorded
    refine ⟨v1, b3, .step (hears_record _) rfl
      (.step (Hears.modify fun _ => rfl) rfl (.read (fun _ => rfl) ?_)),
      (moved_of_asked hall).trans (moved_of_asked hasked3), fun _ => ⟨ss3, hend, ?_⟩⟩
    · have hoem1 : s1.intf.oemActive .i82571spt = false := hoem
      rw [if_neg (by rw [hoem1]; exact Bool.false_ne_true)]
      refine hpriv.bind ?_
      rw [decide_eq_true (show Grants s1.intf b.p from hgrants)]
      refine hsizes.bind (.step (Hears.modify fun _ => rfl) rfl (hoemconv.bind ?_))
      rw [decide_eq_true hgrants]
      exact .step (Hears.modify fun _ => rfl) rfl (.of_hears (.pure _ _) rfl)
    · exact hsecure.of_eq (hasked3.v2.trans hall.v2) (hasked3.p.trans hp2) ⟨seq', by rw [hb3, hb2]⟩
  · refine ⟨t, b1, .step (hears_record _) rfl
      (.step (Hears.modify fun _ => rfl) rfl (.read (fun _ => rfl) ?_)),
      moved_of_asked hasked, fun h => absurd h hgrants⟩
    have hoem1 : s1.intf.oemActive .i82571spt = false := hoem
    rw [if_neg (by rw [hoem1]; exact Bool.false_ne_true)]
    refine hpriv.bind ?_
    rw [decide_eq_false (show ¬ Grants s1.intf b.p from hgrants), decide_eq_false hgrants]
    exact .of_hears (.pure _ _) rfl

theorem openConnected_ends (h : Strangers s b) (hc : getRequestedCiphers (chosen s b.p) = some c)
    (hint : KnownIntegrity c.integrityAlg) (hcrypt : KnownCrypt c.cryptAlg) (hlevel : level ≤ 1)
    (hbridged : bridgedRequest s.intf true = level)
    (hrecorded : entryBridgingLevel s.intf true = level) : ∃ t b',
      Converses wire (handle K other) (openConnected K) s b
        (decide (Offers b.p ∧ Willing b.p c ∧ Grants s.intf b.p)) t b' ∧
      Moved b b' ∧
      (Offers b.p ∧ Willing b.p c ∧ Grants s.intf b.p → ∃ ss',
        Attached level t ss' b' ∧ Secure ss' b') := by
  obtain ⟨t, ss1, b1, hfirst, hmoved, hprepared⟩ := openPrologue_ends (K := K) other h
  unfold openConnected
  by_cases hoffers : Offers b.p
  swap
  · refine ⟨t, b1, hfirst.bind ?_, hmoved, fun hall => absurd hall.1 hoffers⟩
    rw [decide_eq_false hoffers, decide_eq_false fun hall => hoffers hall.1]
    exact .of_hears (.pure _ _) rfl
  obtain ⟨hintf, hattached, hintroduced, hbridge, hp⟩ := hprepared hoffers
  have hplain : Plain b1.p := hp ▸ h.plain
  obtain ⟨ok, u, ss2, b2, hshake, hkeeps, hend⟩ :=
    handshakeLoop_ends (K := K) other (n := lanRetry) hintroduced
      (by rw [hintf]; exact hc) (by rw [hplain.ahead]; decide)
  rw [hp] at hend
  rw [decide_eq_true hoffers] at hfirst
  obtain ⟨rfl, hwilling, hagreed⟩ | ⟨rfl, hunwilling⟩ := hend
  swap
  · refine ⟨u, b2, hfirst.bind (hshake.bind ?_), hmoved.trans hkeeps.bmc,
      fun hall => absurd hall.2.1 hunwilling⟩
    rw [decide_eq_false fun hall => hunwilling hall.2.1]
    exact .of_hears (.pure _ _) rfl
  have hsecure := Session.secure_of_agreed hagreed hc hint hcrypt
  obtain ⟨abort, huintf⟩ := hkeeps.intf
  rw [hintf] at huintf
  have hubridge := hkeeps.bridgePossible.trans hbridge
  have hu : Attached 0 u ss2 b2 := {
    online := hkeeps.online hattached.online
    session := by rw [huintf]
    sync := .inl hsecure
    entries := hkeeps.entries.trans hattached.entries
    bridged := (unbridged _ hubridge).1
    recorded := (unbridged _ hubridge).2
    v15 := by
      obtain ⟨_, _, rfl⟩ := hkeeps.bmc
      exact hattached.v15 }
  have hp2 : b2.p = b.p := hkeeps.p.trans hp
  have hgrantsEq : Grants u.intf b2.p ↔ Grants s.intf b.p := by
    rw [huintf, hp2]
    exact Iff.rfl
  obtain ⟨v, b3, hlast, hmoved3, hgood⟩ :=
    openEpilogue_ends (K := K) other (by rw [hp2]; exact h.plain) hu hsecure
      hubridge (by rw [huintf]; exact h.i82571spt) hlevel (by rw [huintf]; exact hbridged)
        (by rw [huintf]; exact hrecorded)
  refine ⟨v, b3, hfirst.bind (hshake.bind ?_), (hmoved.trans hkeeps.bmc).trans hmoved3, fun hall =>
    hgood (hgrantsEq.mpr hall.2.2)⟩
  have hiff : (Offers b.p ∧ Willing b.p c ∧ Grants s.intf b.p) ↔ Grants u.intf b2.p := by
    rw [hgrantsEq]
    exact ⟨fun hall => hall.2.2, fun hg => ⟨hoffers, hwilling, hg⟩⟩
  rw [decide_eq_decide.mpr hiff]
  exact hlast

/-- **Opening a session**: with a controller that loses nothing and has no quirks, `openConnected`
succeeds exactly if the controller speaks IPMI v2.0, takes part in the handshake to the end and
grants the privilege level, with the suite that was asked for or the best one of its table; and then
the two parties share a session in which requests can be bridged. -/
theorem openConnected_served (h : Strangers s b) (hc : getRequestedCiphers (chosen s b.p) = some c)
    (hint : KnownIntegrity c.integrityAlg) (hcrypt : KnownCrypt c.cryptAlg) (hlevel : level ≤ 1)
    (hbridged : bridgedRequest s.intf true = level)
    (hrecorded : entryBridgingLevel s.intf true = level) : ∃ t b',
      Converses wire (handle K other) (openConnected K) s b
        (decide (Offers b.p ∧ Willing b.p c ∧ Grants s.intf b.p)) t b' ∧
      Moved b b' ∧
      (Offers b.p ∧ Willing b.p c ∧ Grants s.intf b.p → ∃ ss',
        Attached level t ss' b' ∧ Secure ss' b') :=
  openConnected_ends other h hc hint hcrypt hlevel hbridged hrecorded

/-- A transport that asks for the best suite, for a controller behind another one. -/
def caller : St :=
  { intf :=
      { fd := 3
        ssnParams := { cipherSuiteId := suiteReserved, retry := 4, timeout := 1, privlvl := privAdmin }
        myAddr := 0x20
        targetAddr := 0x82 } }

/-- A controller with suite 17. -/
def host : Bmc := { p := { cipherSuites := some [⟨3, 1, 1, 1⟩, ⟨17, 3, 4, 1⟩] } }

theorem strangers_host : Strangers caller host where
  sends := by decide
  noanswer := rfl
  retry := by decide
  fd := ⟨by decide, by decide⟩
  entries := rfl
  bridge := rfl
  patient := by decide
  intelplus := rfl
  i82571spt := rfl
  idle := by decide
  v15 := rfl
  plain := ⟨rfl, rfl, rfl, rfl, by decide, by decide, by decide⟩
  table := fun list h => by
    cases h
    decide
  username := rfl
  username_le := by decide
  password := by decide
  kg := by decide

theorem openConnected_served_host : ∃ t b' ss',
    Converses wire (handle mixed fun _ _ => pure []) (openConnected mixed) caller host
        true t b' ∧
      Moved host b' ∧ Attached 1 t ss' b' ∧ Secure ss' b' := by
  have hall : Offers host.p ∧
      Willing host.p ⟨authRakpHmacSha256, integrityHmacSha256, cryptAesCbc⟩ ∧
        Grants caller.intf host.p := by decide
  obtain ⟨t, b', hconv, hmoved, hgood⟩ := openConnected_served (K := mixed) (fun _ _ => pure [])
    strangers_host (show getRequestedCiphers (chosen caller host.p) = _ from rfl) (.inr (.inr (.inr rfl))) (.inr rfl)
    (by decide : 1 ≤ 1) rfl rfl
  obtain ⟨ss', hat, hsecure⟩ := hgood hall
  rw [decide_eq_true hall] at hconv
  exact ⟨t, b', ss', hconv, hmoved, hat, hsecure⟩

/-! ### A whole connection -/

theorem closeSessionCmd_ends (hp : Plain b.p) (hclose : b.p.closeCcode ≠ 0xcf)
    (h : Attached level s ss b) : ∃ t b',
    Converses wire (handle K other) (closeSessionCmd K) s b () t b' ∧ Moved b b' := by
  unfold closeSessionCmd
  by_cases hactive : ss.v2.sessionState ≠ .active
  · refine ⟨s, b, .read (fun _ => rfl) ?_, b.received, b.v2, rfl⟩
    rw [h.session]
    dsimp only
    rw [if_pos hactive]
    exact .of_hears (.pure _ _) rfl
  · set s1 : St := { s with
      intf := { s.intf with targetAddr := bmcSlaveAddr.toUInt32 }
      bridgePossible := false } with hs1
    have h1 : Attached 0 s1 ss b :=
      attached_view h rfl rfl rfl rfl rfl rfl (unbridged s1.intf (s := s1) rfl).1
        (unbridged s1.intf (s := s1) rfl).2
    have hserve : serve 2 (closeRequest ss.v2.bmcId) b = .ok ({ ccode := b.p.closeCcode }, b) :=
      (dispatchWith_app (hp.ordinary _ _) rfl).trans rfl
    obtain ⟨t, ss1, b1, hconv, ht, -⟩ := sendIpmiCmd_plain (K := K) other hp h1 (Nat.zero_le _)
      (by decide : (0x3c : UInt8) ≠ 0x34)
      (show (closeRequest ss.v2.bmcId).data.length ≤ 16 from (by decide : 4 ≤ 16))
      (Nat.zero_le _) hclose hserve (fun h => absurd h (by decide))
    refine ⟨if true = true ∧ t.recvRsp.ccode = 0 then
      { t with bridgePossible := s.bridgePossible } else t, b1,
      .read (fun _ => rfl) ?_, moved_of_asked ht.asked⟩
    rw [h.session]
    dsimp only
    rw [if_neg hactive]
    refine .step (Hears.modify fun _ => rfl) rfl (hconv.bind (.read (fun _ => rfl) ?_))
    split_ifs
    · exact .of_hears (Hears.modify fun _ => rfl) rfl
    · exact .of_hears (.pure _ _) rfl

/-- The interface is closed, and nothing is pending. -/
def Closed (s : St) : Prop := s.intf.session = none ∧ s.intf.fd = -1 ∧ s.reqEntries = []

theorem close_ends (hp : Plain b.p) (hclose : b.p.closeCcode ≠ 0xcf) (h : Attached level s ss b) : ∃ t b',
    Converses wire (handle K other) (close K) s b () t b' ∧ Moved b b' ∧ Closed t := by
  unfold close
  by_cases hopen : ¬ s.intf.abort ∧ s.intf.session.isSome
  · obtain ⟨t, b1, hconv, hmoved⟩ := closeSessionCmd_ends (K := K) other hp hclose h
    refine ⟨{ t with intf := { t.intf with fd := -1, session := none, manufacturerId := 0 }, reqEntries := [] }, b1,
      .read (fun _ => rfl) ?_, hmoved, rfl, rfl, rfl⟩
    rw [if_pos hopen]
    exact hconv.bind (.of_hears (Hears.modify fun _ => rfl) rfl)
  · refine ⟨{ s with intf := { s.intf with fd := -1, session := none, manufacturerId := 0 }, reqEntries := [] }, b,
      .read (fun _ => rfl) ?_, ⟨b.received, b.v2, rfl⟩, rfl, rfl, rfl⟩
    rw [if_neg hopen]
    exact .of_hears (Hears.modify fun _ => rfl) rfl

/-- How `open` ends with a controller that lets the transport in: with a descriptor. -/
theorem open_ends {n : ℕ} (hsession : s.intf.session = none)
    (hhost : s.intf.ssnParams.hostname ≠ []) (hconnects : s.net.connects = some n)
    (h : Strangers (connected s n) b) (hc : getRequestedCiphers (chosen s b.p) = some c)
    (hint : KnownIntegrity c.integrityAlg) (hcrypt : KnownCrypt c.cryptAlg) (hlevel : level ≤ 1)
    (hbridged : bridgedRequest s.intf true = level)
    (hrecorded : entryBridgingLevel s.intf true = level)
    (hall : Offers b.p ∧ Willing b.p c ∧ Grants (connected s n).intf b.p) : ∃ t b' ss',
      Converses wire (handle K other) («open» K) s b t.intf.fd t b' ∧ Moved b b' ∧
      Attached level t ss' b' ∧
      Secure ss' b' := by
  obtain ⟨t, b', hopen, hmoved, hgood⟩ :=
    openConnected_ends (K := K) other h hc hint hcrypt hlevel hbridged hrecorded
  obtain ⟨ss', hat, hsecure⟩ := hgood hall
  rw [decide_eq_true hall] at hopen
  refine ⟨t, b', ss', ?_, hmoved, hat, hsecure⟩
  unfold «open»
  refine .read (fun _ => rfl) ?_
  rw [hsession]
  refine .step (Hears.modify fun _ => rfl) rfl ?_
  rw [if_neg hhost, hconnects]
  refine .step (Hears.modify fun _ => rfl) rfl (hopen.bind (.read (fun _ => rfl) ?_))
  exact .of_hears (.pure _ _) rfl

/-- A connection: it is opened, commands are sent, and it is closed. -/
def connection (K : Primitives) (reqs : List Request) : M (Option (List (Option Answer))) := do
  if (← «open» K) < 0 then return none
  let answers ← reqs.mapM (Session.ask K)
  close K
  return some answers

/-- **A whole connection**: with a controller that lets it in, a connection brings every command the
answer that the controller alone gives to it, in its turn, and leaves nothing open. -/
theorem connection_served {n : ℕ} {reqs : List Request} {answers : List Answer} {d : Bmc}
    (hsession : s.intf.session = none) (hhost : s.intf.ssnParams.hostname ≠ [])
    (hconnects : s.net.connects = some n) (h : Strangers (connected s n) b)
    (hc : getRequestedCiphers (chosen s b.p) = some c) (hint : KnownIntegrity c.integrityAlg)
    (hcrypt : KnownCrypt c.cryptAlg) (hlevel : level ≤ 1)
    (hbridged : bridgedRequest s.intf true = level)
    (hrecorded : entryBridgingLevel s.intf true = level) (hid : b.p.bmcId ≠ 0)
    (hclose : b.p.closeCcode ≠ 0xcf) (hall : Offers b.p ∧ Willing b.p c ∧ Grants
      (connected s n).intf b.p) (hserved : List.Forall₂ (Served b.p level) reqs answers)
    (hserve : reqs.mapM (serve (2 - level)) b = .ok (answers, d)) : ∃ t b',
      Converses wire (handle K other) (connection K reqs) s b (some (answers.map some)) t b' ∧
      Moved d b' ∧ Closed t := by
  obtain ⟨t, b1, ss1, hopen, ⟨received, v2, rfl⟩, hat, hsecure⟩ :=
    open_ends (K := K) other hsession hhost hconnects h hc hint hcrypt hlevel hbridged
      hrecorded hall
  have hplain : Plain { b with received, v2 }.p := h.plain
  have hretry := hat.online.retry
  have hready : Session.Ready level t ss1 { b with received, v2 } :=
    { hat with
      secure := hsecure
      bmcId := by rw [hsecure.bmcId]; exact hid }
  obtain ⟨u, b2, hrun, ss2, received', v2', rfl, hp, hu, -⟩ := Session.running_served (K := K) other
    ⟨ss1, received, v2, rfl, rfl, hready, by rw [hplain.ahead]; omega, hplain.timely _ _ _⟩
    hserved hserve
  have hpd : ({ d with received := received', v2 := v2' } : Bmc).p = b.p := hp
  obtain ⟨v, b3, hend, hmoved, hclosed⟩ :=
    close_ends (K := K) other (b := { d with received := received', v2 := v2' })
      (by rw [hpd]; exact h.plain) (by rw [hpd]; exact hclose) hu.toAttached
  refine ⟨v, b3, ?_, Moved.trans ⟨received', v2', rfl⟩ hmoved, hclosed⟩
  unfold connection
  refine hopen.bind ?_
  rw [if_neg (Int.not_lt.mpr hat.online.fd.1)]
  exact hrun.bind (hend.bind (.of_hears (.pure _ _) rfl))

/-- Two bridged requests in a connection of their own. -/
theorem connection_served_host : ∃ t b',
    Converses wire (handle mixed fun _ _ => pure [])
        (connection mixed Session.twoRequests)
        caller host (some [some { data := deviceId }, some { ccode := 0xc1 }]) t b' ∧
      Moved host b' ∧ Closed t := by
  have hserved : List.Forall₂ (Served host.p 1) Session.twoRequests Session.twoAnswers := by
    refine .cons ?_ (.cons ?_ .nil) <;>
      exact ⟨by decide, fun h => absurd h (by decide), fun _ => ⟨by decide, rfl, by
        decide⟩, fun _ => by decide,
        by decide, by decide, fun _ => by decide, by decide⟩
  exact connection_served (K := mixed) (fun _ _ => pure []) (rfl : caller.intf.session = none)
    (List.cons_ne_nil _ _) rfl (show Strangers (connected caller 3) host from strangers_host) (show getRequestedCiphers (chosen caller host.p) = _ from rfl)
    (.inr (.inr (.inr rfl))) (.inr rfl) (by decide : 1 ≤ 1) rfl rfl (by decide) (by decide)
      (by decide) hserved rfl

end Ipmitool.Peer.Opening
