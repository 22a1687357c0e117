import Ipmitool.Peer.Agreement
import Ipmitool.Peer.Commands

/-! # One command, asked of the controller

A round of a command in a session that the transport and the controller share, or before it in the
v1.5 format, either ends with the answer of the controller (`hears_roundAnswered`) or without one
(`hears_roundDropped`). A command is repeated until its round is answered (`sendLoop_served`,
`sendIpmiCmd_served`): the controller sees it as often as it was sent, but serves it once. -/

namespace Ipmitool.Peer.Turns

open Ipmitool.Lib.Mem Ipmitool.Lib.Bytes Ipmitool.Lib.Machine Ipmitool.Lib.Conversation
open Ipmitool.Core.Types Ipmitool.Core.Network Ipmitool.Crypto.Mac
open Ipmitool.Lanplus.State Ipmitool.Lanplus.Receive Ipmitool.Lanplus.Rounds
open Ipmitool.Lanplus.Build (entryRequest entryBridgingLevel bridgedRequest advanceSeq
  reqAddEntry packetOf
  wireRep wireLength buildV2xIpmiCmd)
open Ipmitool.Lanplus.Send (Locals pollPastDuplicates sendPayload sendIpmiCmd sendLoop transmit
  buildPayload
  await removeEntry timedOut)
open Ipmitool.Lanplus.Packet (holds_receive)
open Ipmitool.Lanplus.Poll (pollPastDuplicates_iff)
open Ipmitool.Peer.Controller Ipmitool.Peer.Exchange Ipmitool.Peer.Packets Ipmitool.Peer.Handshake
open Ipmitool.Peer.Agreement Ipmitool.Peer.Commands

variable {K : Primitives} {other : List UInt8 → Bool → B (List UInt8)} {s t u s' : St}
  {ss ss' : Session} {b b' c : Bmc} {r : Response} {req : Request} {level : ℕ} {a : Answer}
  {l : Locals}
  {e : Entry}

/-! ### A command goes out -/

/-- **The transport can ask**: it and the controller are in sync, no request is pending, and
requests travel in `level` envelopes. -/
structure Attached (level : ℕ) (s : St) (ss : Session) (b : Bmc) : Prop where
  online : Online s
  session : s.intf.session = some ss
  sync : InSync ss b
  entries : s.reqEntries = []
  bridged : bridgedRequest s.intf s.bridgePossible = level
  recorded : entryBridgingLevel s.intf s.bridgePossible = level
  v15 : b.v15.active = false

/-- A command is built: the packet, the session behind it and the entry of the command. -/
def Built (K : Primitives) (s : St) (req : Request) (isRetry : Bool) (packet : List UInt8)
    (ss : Session) (e : Entry) : Prop :=
  ∃ entropy, ∃ u : St, Hears wire (buildPayload K (.ipmi req) isRetry) (ticked s) []
    (some e.addr, packet) u ∧
    u.intf = { s.intf with session := some ss } ∧ u.net = { s.net.time.2 with entropy } ∧
    u.recvRsp = s.recvRsp ∧ u.reqEntries = s.reqEntries ++ [e] ∧ u.bridgePossible = s.bridgePossible

theorem hears_reqAddEntry (req : Request) (seq : UInt8) (level : ℕ) :
    Hears wire (reqAddEntry req seq level) s [] s.nextAddr { s with
      reqEntries := s.reqEntries ++ [⟨s.nextAddr, req, seq, level⟩]
      nextAddr := s.nextAddr + 1 } := by
  intro rest
  rw [Lanplus.Build.reqAddEntry_ok]
  exact ⟨rfl, rfl⟩

/-- The session when one more packet is built. -/
def bumped (ss : Session) : Session := { ss with outSeq := Lanplus.Build.nextSeq ss.outSeq }

/-- The entry of the next command. -/
def nextEntry (s : St) (req : Request) (isRetry : Bool) : Entry :=
  ⟨s.nextAddr, entryRequest (entryBridgingLevel s.intf s.bridgePossible) req,
    advanceSeq s.currSeq isRetry, entryBridgingLevel s.intf s.bridgePossible⟩

theorem built_v2 {isRetry : Bool} {length : UInt16} {packet : List UInt8}
    (hss : s.intf.session = some ss) (hold : ¬ GoesOld ss req)
    (hlen : wireLength s.intf s.bridgePossible (.ipmi req) = .ok length)
    (hpacket : packetOf K s.intf ss ptIpmi
      (wireRep s.intf s.bridgePossible (advanceSeq s.currSeq isRetry) (.ipmi req)) length
        (nextIv s ss) = .ok packet) :
    Built K s req isRetry packet (bumped ss) (nextEntry s req isRetry) := by
  set v := Lanplus.Build.withRequest (ticked s) req isRetry with hv
  obtain ⟨entropy, hbuild⟩ := hears_buildV2xMsg (K := K) (s := v) hss hlen (by
    change packetOf K s.intf ss ptIpmi _ length (nextIv (ticked s) ss) = _
    rw [nextIv_time]
    exact hpacket)
  have hold' : ¬ (req.netfn = netfnApp ∧ req.cmd = Lanplus.Send.getChannelAuthCap ∧
      ss.v2.bmcId = 0) := hold
  refine ⟨entropy, { v with
    intf := { s.intf with session := some (bumped ss) }
    net := { s.net.time.2 with entropy }
    trace := s.trace ++ Lanplus.Build.builtEvents (ss.v2.sessionState = .active) packet
      (advanceSeq s.currSeq isRetry) (.ipmi req) }, ?_, rfl, rfl, rfl, rfl, rfl⟩
  unfold buildPayload
  refine (hears_theSession (by exact hss)).step ?_
  dsimp only
  rw [if_neg hold']
  refine Hears.step (a := ((nextEntry s req isRetry).addr, packet)) ?_ (.pure _ _)
  unfold buildV2xIpmiCmd
  refine Hears.step (Hears.modify fun _ => rfl) (.read (fun _ => rfl) ?_)
  exact (hears_reqAddEntry _ _ _).step (hbuild.step (.pure _ _))

theorem built_v15 (isRetry : Bool) (hss : s.intf.session = some ss) (hold : GoesOld ss req)
    (hfit : req.data.length + 7 < 65536) :
    Built K s req isRetry (Lanplus.Build.v15Packet ss req) ss ⟨s.nextAddr, req, 0, 0⟩ := by
  have hold' : req.netfn = netfnApp ∧ req.cmd = Lanplus.Send.getChannelAuthCap ∧ ss.v2.bmcId = 0 :=
    hold
  set v : St := { ticked s with
    reqEntries := s.reqEntries ++ [⟨s.nextAddr, req, 0, 0⟩]
    nextAddr := s.nextAddr + 1 } with hv
  have hsession : ({ s.intf with session := some ss } : Intf) = s.intf := by
    rw [← hss]
  refine ⟨s.net.time.2.entropy, { v with
    trace := s.trace ++ [.built (ss.v2.sessionState = .active) (Lanplus.Build.v15Packet ss req)
      (some 0)] }, ?_,
    hsession.symm, rfl, rfl, rfl, rfl⟩
  unfold buildPayload
  refine (hears_theSession (by exact hss)).step ?_
  dsimp only
  rw [if_pos hold']
  refine Hears.step (a := (s.nextAddr, Lanplus.Build.v15Packet ss req)) ?_ (.pure _ _)
  unfold Lanplus.Build.buildV15IpmiCmd
  refine (hears_theSession (by exact hss)).step ((hears_reqAddEntry _ _ _).step ?_)
  rw [if_neg (Nat.not_le.mpr hfit)]
  exact (hears_record _).step (.pure _ _)

/-! ### What the controller does with a command -/

theorem advanceSeq_lt (seq : UInt8) (isRetry : Bool) : advanceSeq seq isRetry < 64 := by
  unfold advanceSeq
  dsimp only
  split_ifs with h h' h'
  · decide
  · exact UInt8.not_le.mp h'
  · decide
  · exact UInt8.not_le.mp h'

/-- **A command arrives**: it is lost, or it is served once and the transport finds the answer. `c`
is what serving the command makes of the controller. -/
def Arrives (K : Primitives) (other : List UInt8 → Bool → B (List UInt8)) (packet : List UInt8)
    (ss : Session) (e : Entry) (a : Answer) (b c : Bmc) : Prop :=
  (b.received + 1 ∈ b.p.drop → handle K other packet b = .ok (none, b.counted)) ∧
  (b.received + 1 ∉ b.p.drop → ∃ reply seq, handle K other packet b =
      .ok (some reply, { c with received := b.received + 1, v2 := { b.v2 with seq } }) ∧
    reply ≠ [] ∧ reply.length < bufSize ∧ ∀ rsp, ∃ r evs,
      handlePacket K ss [e] (Response.receive rsp reply) = .ok (.got, [], r, evs) ∧ Holding a r)

theorem arrives_v2 (other : List UInt8 → Bool → B (List UInt8)) (isRetry : Bool)
    (h : Attached level s ss b) (hold : ¬ GoesOld ss req) (hserved : Served b.p level req a)
    (hserve : serve (2 - level) req b = .ok (a, c)) :
    ∃ packet, Built K s req isRetry packet (bumped ss) (nextEntry s req isRetry) ∧
      Arrives K other packet (bumped ss) (nextEntry s req isRetry) a b c := by
  have hseq := advanceSeq_lt s.currSeq isRetry
  set seq := advanceSeq s.currSeq isRetry with hseqdef
  have hwritten : (wireRep s.intf s.bridgePossible seq (.ipmi req)).length =
      req.data.length + 7 + 8 * level := by
    rw [← h.bridged]
    exact Lanplus.Bridging.length_getIpmiPayloadWireRep s.intf s.bridgePossible req seq seq
  have hfits : (wireRep s.intf s.bridgePossible seq (.ipmi req)).length ≤ maxPayload := by
    rw [hwritten]
    exact hserved.request_le
  have hlength := @Lanplus.Packet.wireLength_eq s.intf s.bridgePossible seq (.ipmi req) trivial
    (Nat.le_trans hfits (by decide))
  have hsync : InSync ss b.counted := h.sync.of_eq rfl rfl ⟨b.v2.seq, rfl⟩
  obtain ⟨t, id, n, out, trailer, hpacket, hopen, hid⟩ := packetOf_inSync (K := K) s.intf hsync
    (show ptIpmi ∈ payloadTypes by decide) hfits fun hactive hc => length_nextIv s hactive hc
  refine ⟨_, built_v2 h.session hold hlength hpacket, handle_dropped hopen hid, fun hdrop => ?_⟩
  obtain ⟨hkept, hblind⟩ := blind_dispatch (2 - level) _ _ _ _ hserve
  obtain ⟨msg, hreplies, hrespond⟩ :=
    respond_request (K := K) (b := b.counted) h.bridged hserved hseq
      (hblind (b.received + 1) b.v2)
  have hmsg : msg.length ≤ maxPayload := by
    rw [hreplies.length]
    exact hserved.answer_le
  have hsync' : InSync (bumped ss) { c with received := b.received + 1, v2 := b.v2 } :=
    h.sync.of_eq rfl hkept.p ⟨b.v2.seq, rfl⟩
  obtain ⟨reply, n', hsend, hreply, hfit, hfound⟩ := sendV2_inSync (K := K) hsync'
    (show ptIpmi ∈ payloadTypes by decide) hmsg
  refine ⟨reply, n', handle_answered hopen hid hdrop (hrespond _ _ hsend) hreply, hreply, hfit,
    fun rsp => ?_⟩
  obtain ⟨r1, size, hopenPacket, hf⟩ := hfound (Response.receive rsp reply) (holds_receive _ _) rfl
  have hroom : 16 + msg.length ≤ bufSize := by
    have : maxPayload = 950 := rfl
    have : bufSize = 1024 := rfl
    omega
  obtain ⟨r, evs, hloop, hholding⟩ :=
    ipmiLoop_replies s.nextAddr hreplies hf.holds hf.size hroom hserved.cmd
  refine ⟨r, evs, ?_, hholding⟩
  unfold handlePacket
  rw [hopenPacket]
  change handlePayload (bumped ss) [nextEntry s req isRetry] r1 16 size = _
  unfold handlePayload nextEntry
  rw [hf.type, h.recorded]
  exact hloop

theorem parseMessage_v15 (hnetfn : req.netfn = netfnApp) :
    parseMessage ((Lanplus.Build.v15Packet ss req).drop 14) =
      some { asked bmcSlaveAddr 0 req with rsLun := 0 } := by
  have hbody : (Lanplus.Build.v15Packet ss req).drop 14 =
      Lanplus.Build.checksummed [bmcSlaveAddr, UInt8.ofNat (req.netfn.val <<< 2)]
        ([remoteSwid, 0, req.cmd] ++ req.data) := rfl
  rw [hbody, parseMessage_message, asked, hnetfn]
  rfl

section Old
variable {m : Message} (seq : UInt32) (h1 : m.csum1Ok = true) (h2 : m.csum2Ok = true)
  (hv : b.v15.active = false)
include h1 h2 hv

/-- Outside of a session of version 1.5 its counters stand still. -/
theorem answerV15_outside (drop : Bool) : answerV15 0 seq 0 m drop b =
    if drop || b.isDeaf m then .ok ([], b)
    else (do
      let r ← dispatch 2 m
      require (r.data.length ≤ 247) .longResponse
      let r := { r with data := r.data.take 247 }
      let b ← get
      modify fun b => { b with v15 := v15After b.p 0 m r b.v15 }
      return v15Reply b 0 0 m r : B (List UInt8)) b := by
  have hno : ∀ {p : Prop}, b.v15.active = true → p := by
    intro p h
    rw [hv] at h
    cases h
  have hlast : (if b.v15.active = true then seq else b.v15.lastSeq) = b.v15.lastSeq := by
    rw [hv]
    rfl
  have hmodify : (modify fun b : Bmc => { b with v15 := { b.v15 with
      lastSeq := if b.v15.active then seq else b.v15.lastSeq } } : B PUnit) b = .ok (⟨⟩, b) := by
    refine modify_ok.mpr ?_
    rw [hlast]
  unfold answerV15
  rw [require_true h1, require_true h2, pure_bind, pure_bind,
    bind_run (show (get : B Bmc) b = .ok (b, b) from rfl), require_true fun h => hno h, pure_bind,
    bind_run hmodify,
    require_true fun h => hno h, pure_bind]
  split_ifs
  · rfl
  · rfl

theorem answerV15_run (hdeaf : b.isDeaf m = false) (hcmd : m.cmd = 0x38)
    (hdispatch : dispatch 2 m b = .ok (a, c)) (hc : c.v15 = b.v15) (hanswer : a.data.length ≤ 247) :
    answerV15 0 seq 0 m false b = .ok (v15Reply c 0 0 m a, c) := by
  have hafter : v15After c.p 0 m { a with data := a.data } c.v15 = c.v15 := by
    have hopen : m.cmd ≠ 0x3a ∧ m.cmd ≠ 0x3c := by
      rw [hcmd]
      decide
    simp only [v15After, hc, hv, hopen.1, hopen.2, false_and, and_false,
      Bool.false_eq_true, if_false]
  rw [answerV15_outside seq h1 h2 hv, hdeaf, if_neg (by decide), bind_run hdispatch,
    require_true hanswer, pure_bind, List.take_of_length_le hanswer,
    bind_run (show (get : B Bmc) c = .ok (c, c) from rfl)]
  refine bind_ok.mpr ⟨⟨⟩, c, modify_ok.mpr ?_, rfl⟩
  rw [hafter]

end Old

theorem handle_v15 (other : List UInt8 → Bool → B (List UInt8)) (hnetfn : req.netfn = netfnApp)
    (hfit : req.data.length ≤ 248) {answer : List UInt8}
    (h : answerV15 0 ss.outSeq 0 { asked bmcSlaveAddr 0 req with rsLun := 0 }
      (decide (b.received + 1 ∈ b.p.drop)) b.counted = .ok (answer, c)) :
    handle K other (Lanplus.Build.v15Packet ss req) b =
      .ok (if answer = [] then none else some answer, c) := by
  have hlen : (Lanplus.Build.v15Packet ss req).length = 21 + req.data.length := by
    simp only [Lanplus.Build.v15Packet, Lanplus.Build.checksummed, rmcpHdr, List.length_append,
      List.length_cons, List.length_nil, length_le32]
    omega
  have hseq : ofLe32 ((Lanplus.Build.v15Packet ss req).getD 5 0)
      ((Lanplus.Build.v15Packet ss req).getD 6 0)
      ((Lanplus.Build.v15Packet ss req).getD 7 0) ((Lanplus.Build.v15Packet ss req).getD 8 0) =
        ss.outSeq :=
    ofLe32_le32 ss.outSeq
  have hbody : ((Lanplus.Build.v15Packet ss req).drop 14).length = 7 + req.data.length := by
    rw [List.length_drop, hlen]
    omega
  have hsize :
      ((Lanplus.Build.v15Packet ss req).getD 13 0).toNat =
        ((Lanplus.Build.v15Packet ss req).drop 14).length := by
    change (UInt8.ofNat (req.data.length + 7)).toNat = _
    rw [hbody, UInt8.toNat_ofNat', Nat.mod_eq_of_lt (by omega)]
    omega
  have hrun : handleV15 (Lanplus.Build.v15Packet ss req)
      (decide (b.received + 1 ∈ b.p.drop)) b.counted =
      .ok (answer, c) := by
    unfold handleV15
    have hauth : (Lanplus.Build.v15Packet ss req).getD 4 0 = 0 := rfl
    have hhdr : (14 + if (Lanplus.Build.v15Packet ss req).getD 4 0 ≠ 0 then 16 else 0) = 14 := by
      rw [hauth]
      rfl
    rw [hhdr, if_neg (by omega), parseMessage_v15 hnetfn]
    dsimp only
    rw [require_true hsize, pure_bind, hseq]
    exact h
  unfold handle
  simp only [bind_ok, modify_ok, get_ok]
  refine ⟨⟨⟩, _, rfl, _, _, ⟨rfl, rfl⟩, ?_⟩
  rw [if_neg (by omega), if_neg (by omega)]
  refine bind_ok.mpr ⟨answer, c, ?_, rfl⟩
  unfold handleClass
  have hclass : (Lanplus.Build.v15Packet ss req).getD 3 0 = rmcpClassIpmi := rfl
  have hauth : (Lanplus.Build.v15Packet ss req).getD 4 0 ≠ 0x06 := by
    change (0 : UInt8) ≠ 6
    decide
  rw [if_pos hclass, if_neg hauth]
  exact hrun

/-- The transport finds the answer in a packet of version 1.5. -/
theorem handlePacket_v15 {b : Bmc} {l : List UInt8} (rsp : Response)
    (hreply : Reply e.rqSeq e.req.cmd a l) (hlevel : e.bridgingLevel = 0)
    (hanswer : a.data.length ≤ 247) :
    ∃ r evs, handlePacket K ss [e]
      (Response.receive rsp (rmcpHdr ++ ([0] : List UInt8) ++ le32 b.v15.seq ++ le32 0 ++
      [UInt8.ofNat (8 + a.data.length)] ++ l)) = .ok (.got, [], r, evs) ∧ Holding a r := by
  have hlen := hreply.length
  set d := rmcpHdr ++ ([0] : List UInt8) ++ le32 b.v15.seq ++ le32 0 ++
    [UInt8.ofNat (8 + a.data.length)] ++ l with hd
  have hdata := holds_receive rsp d
  rw [hd, holds_append] at hdata
  obtain ⟨hhead, hbody⟩ := hdata
  simp only [rmcpHdr, le32, List.cons_append, List.nil_append, holds_cons] at hhead
  obtain ⟨-, -, -, h3, h4, -, -, -, -, -, -, -, -, h13, -⟩ := hhead
  set r0 := Response.receive rsp d with hr0
  have h3 : r0.data 3 = rmcpClassIpmi := h3
  have h4 : r0.data 4 = 0 := h4
  have h13 : r0.data 13 = UInt8.ofNat (8 + a.data.length) := h13
  have hbody : Holds r0.data 14 l := hbody
  set r1 : Response := { r0 with session := { r0.session with
    payloadtype := ptIpmi, authtype := 0, bEncrypted := false, bAuthenticated := false
    msglen := (UInt8.ofNat (8 + a.data.length)).toUInt16 } } with hr1
  have hread : readSessionData r0 4 = (r1, 14) := by
    rw [readSessionData, if_neg (by rw [h4]; decide), readSessionDataV15, h4, h13]
  have hopen : openPacket K ss r0 =
      .ok (.payload r1 14 (UInt8.ofNat (8 + a.data.length)).toUInt16) := by
    have hplus : (0 : UInt8) ≠ authtypeRmcpPlus := by decide
    have hother : ¬ otherSession ss r1 := fun h => hplus h.2.1
    have hvalid : Crypto.LanplusCrypt.hasValidAuthCode K r1 ss = .ok true := if_pos (.inl hplus)
    unfold openPacket
    rw [if_neg (by rw [h3]; decide), if_neg (not_not.mpr h3), hread]
    dsimp only
    rw [if_neg hother, hvalid]
    change (openPayload K ss r1 14 >>= _) = _
    unfold openPayload
    rw [if_neg fun h => hplus h.2.1]
    rfl
  have hsize : (UInt8.ofNat (8 + a.data.length)).toUInt16.toNat = l.length := by
    rw [UInt8.toNat_toUInt16, UInt8.toNat_ofNat', hlen]
    omega
  have hroom : 14 + l.length ≤ bufSize := by
    have : bufSize = 1024 := rfl
    omega
  obtain ⟨r, evs, hloop, hholding⟩ :=
    ipmiLoop_reply 0 hreply (r := r1) hbody hsize hroom rfl rfl hlevel
  refine ⟨r, evs, ?_, hholding⟩
  unfold handlePacket
  rw [hopen]
  change handlePayload ss [e] r1 14 _ = _
  unfold handlePayload
  rw [if_pos (show r1.session.payloadtype = ptIpmi from rfl),
    show rounds [e] = 0 + 1 by rw [rounds]; simp [hlevel]]
  exact hloop

theorem arrives_v15 (other : List UInt8 → Bool → B (List UInt8)) (h : Attached 0 s ss b)
    (hold : GoesOld ss req) (hserved : Served b.p 0 req a) (hserve : serve 2 req b = .ok (a, c))
    (hfit : req.data.length ≤ 248) (hanswer : a.data.length ≤ 247) :
    Arrives K other (Lanplus.Build.v15Packet ss req) ss ⟨s.nextAddr, req, 0, 0⟩ a b c := by
  obtain ⟨hnetfn, hcmd, -⟩ := hold
  set m : Message := { asked bmcSlaveAddr 0 req with rsLun := 0 } with hm
  obtain ⟨hkept, hblind⟩ := blind_dispatch 2 _ _ _ _ hserve
  have hdispatch : dispatch 2 m b.counted =
      .ok (a, { c with received := b.received + 1, v2 := b.v2 }) := by
    rw [show dispatch 2 m = dispatch 2 (asked 0 0 req) from dispatch_congr 2 rfl rfl rfl]
    exact hblind (b.received + 1) b.v2
  refine ⟨fun hdrop => ?_, fun hdrop => ?_⟩
  · have hrun := answerV15_outside (m := m) ss.outSeq rfl rfl (b := b.counted) h.v15 true
    rw [Bool.true_or, if_pos rfl] at hrun
    exact handle_v15 other hnetfn hfit (by rw [decide_eq_true hdrop]; exact hrun)
  · have hdeaf : b.counted.isDeaf m = false := beq_eq_false_iff_ne.mpr (hserved.deaf rfl)
    have hrun :=
      answerV15_run (m := m) ss.outSeq rfl rfl (b := b.counted) h.v15 hdeaf hcmd hdispatch hkept.v15
        hanswer
    have hhandle :=
      handle_v15 (K := K) other hnetfn hfit (b := b) (by rw [decide_eq_false hdrop]; exact hrun)
    have hreply : Reply 0 req.cmd a (responseMessage remoteSwid bmcSlaveAddr m a) :=
      ⟨_, _, _, _, _, _, rfl, show ((0 : UInt8) <<< 2 ||| 0) >>> 2 = 0 by decide⟩
    have hlen := hreply.length
    set reply := v15Reply { c with received := b.received + 1, v2 := b.v2 } 0 0 m a with hr
    have hsize : reply.length = 22 + a.data.length := by
      rw [hr, v15Reply, if_neg (by decide)]
      simp only [rmcpHdr, List.length_append, List.length_cons, List.length_nil, length_le32, hlen]
      omega
    have hne : reply ≠ [] := by
      intro h
      rw [h, List.length_nil] at hsize
      omega
    rw [if_neg hne] at hhandle
    have hroom : bufSize = 1024 := rfl
    refine ⟨reply, b.v2.seq, hhandle, hne, by omega, fun rsp => ?_⟩
    rw [hr, v15Reply, if_neg (by decide), List.append_nil]
    exact handlePacket_v15 rsp hreply rfl hanswer

/-- **A command arrives** in the format that it goes out in. A command of version 1.5 has no
envelope, and the answer to it has to fit the length byte. -/
theorem exists_arrives (other : List UInt8 → Bool → B (List UInt8)) (isRetry : Bool)
    (h : Attached level s ss b) (hserved : Served b.p level req a)
    (hserve : serve (2 - level) req b = .ok (a, c))
    (hold : GoesOld ss req → level = 0 ∧ req.data.length ≤ 248 ∧ a.data.length ≤ 247) :
    ∃ packet ss' e, Built K s req isRetry packet ss' e ∧ Arrives K other packet ss' e a b c ∧
      ss'.v2 = ss.v2 ∧
      ss'.authcode = ss.authcode ∧ ss'.timeout = ss.timeout := by
  by_cases hgoes : GoesOld ss req
  · obtain ⟨rfl, hfit, hanswer⟩ := hold hgoes
    exact ⟨_, ss, _, built_v15 isRetry h.session hgoes (by omega),
      arrives_v15 other h hgoes hserved hserve hfit hanswer, rfl, rfl, rfl⟩
  · obtain ⟨packet, hbuilt, harrives⟩ := arrives_v2 (K := K) other isRetry h hgoes hserved hserve
    exact ⟨packet, _, _, hbuilt, harrives, rfl, rfl, rfl⟩

/-! ### One round of a command -/

/-- What the transmission of a command does: its entry is on the list, and its packet went out. -/
structure Transmitted (s : St) (ss : Session) (packet : List UInt8) (e : Entry)
    (u : St) : Prop where
  intf : u.intf = { s.intf with session := some ss }
  rsp : u.recvRsp = s.recvRsp
  entries : u.reqEntries = s.reqEntries ++ [e]
  sent : u.net.sent = s.net.sent ++ [packet]
  sends : true ∉ u.net.sendFails
  bridgePossible : u.bridgePossible = s.bridgePossible
  clock : u.net.clock = s.net.clock.tail

/-- What a round of a command does to the transport, with `n` looks at the clock. -/
structure Turned (n : ℕ) (s : St) (ss : Session) (t : St) : Prop where
  intf : t.intf = { s.intf with session := some ss }
  entries : t.reqEntries = []
  sends : true ∉ t.net.sendFails
  bridgePossible : t.bridgePossible = s.bridgePossible
  clock : t.net.clock = s.net.clock.drop n

theorem clock_time (n : Net) : n.time.2.clock = n.clock.tail := by
  obtain ⟨_, clock, _, _, _, _, _, _⟩ := n
  cases clock <;> rfl

theorem clock_send (n : Net) (packet : List UInt8) : (n.send packet).2.clock = n.clock := by
  obtain ⟨_, _, _, sendFails, _, _, _, _⟩ := n
  cases sendFails <;> rfl

/-- The wait for the answer to a command that does not come: the entry leaves the list. -/
theorem hears_await_removed (req : Request) (hss : s.intf.session = some ss)
    (hfd : ValidFd s.intf.fd) (hentries : s.reqEntries = [e]) (hl : l.entry = some e.addr) :
    ∃ trace, Hears wire (await K (.ipmi req) l) s [none] (false, false)
      { s with reqEntries := [], trace } := by
  have hkey : Entry.hasKey e.rqSeq e.req.cmd e = true := by
    simp only [Entry.hasKey, beq_self_eq_true, Bool.and_self]
  have hremove : Hears wire (removeEntry e.addr) { s with trace := s.trace ++ [.timeout] } [] ()
      { s with reqEntries := [], trace := s.trace ++ [.timeout] ++ [.removed e] } := by
    intro rest
    refine removeEntry_ok.mpr ⟨e, ?_, ?_⟩
    · change s.reqEntries.find? (·.addr == e.addr) = some e
      rw [hentries, List.find?_cons_of_pos (p := fun x : Entry => x.addr == e.addr)
        (beq_self_eq_true e.addr)]
    · simp only [wire, hentries, List.nil_append, reqRemoveEntry, reqLookupEntry,
        List.eraseP_cons_of_pos hkey, List.find?_cons_of_pos hkey, Option.toList_some,
        List.map_cons, List.map_nil]
  refine ⟨s.trace ++ [.timeout] ++ [.removed e], fun rest => ?_⟩
  have hwait : pollPastDuplicates K ((wire.feed ([none] ++ rest) s).net.inbox.length + 1)
      (wire.feed ([none] ++ rest) s) =
        .ok (false, wire.feed rest { s with trace := s.trace ++ [.timeout] }) :=
    (pollPastDuplicates_iff (Nat.lt_succ_self _)).mpr (.missed (hears_pollSingle_none hss hfd rest))
  unfold await
  simp only [bind_ok, get_ok]
  refine ⟨_, _, ⟨rfl, rfl⟩, false, _, hwait, ?_⟩
  rw [if_neg Bool.false_ne_true, hl]
  exact bind_ok.mpr ⟨(), _, hremove rest, rfl⟩

theorem hears_timedOut {ltime : ℤ} (hss : s.intf.session = some ss)
    (hlate : (ss.timeout.toNat : ℤ) ≤ s.net.time.1 - ltime) (hmax : ss.timeout ≠ 0xffffffff) :
    Hears wire (timedOut ltime) s [] true
      ((ticked s).withSession { ss with timeout := ss.timeout + 1 }) := by
  unfold timedOut
  refine hears_time.step ((hears_theSession (by exact hss)).step ?_)
  simp only [decide_eq_true hlate, if_true, hmax, if_false]
  exact (hears_modifySession (by exact hss)).step (.pure _ _)

section Round
variable {packet : List UInt8} (hbuilt : Built K s req l.isRetry packet ss e) (hon : Online s)
  (hx : l.xmit = true)
include hbuilt hon hx

theorem hears_transmitCommand : ∃ u, Hears wire (transmit K (.ipmi req) l) s []
    (some { l with ltime := s.net.time.1, entry := some e.addr }) u ∧
    Transmitted s ss packet e u := by
  obtain ⟨entropy, v, hbuild, hintf, hnet, hrsp, hentries, hbridge⟩ := hbuilt
  have hsends : true ∉ v.net.sendFails := by
    rw [hnet]
    change true ∉ s.net.time.2.sendFails
    rw [Net.time_sendFails]
    exact hon.sends
  refine ⟨_, hears_transmit hx hbuild hsends, hintf, hrsp, hentries, ?_, ?_, hbridge, ?_⟩
  · change (v.net.send packet).2.sent = _
    rw [sent_send, hnet]
    change s.net.time.2.sent ++ _ = _
    rw [sent_time]
  · exact fun hmem => hsends ((Net.send_sendFails v.net packet).subset hmem)
  · change (v.net.send packet).2.clock = _
    rw [clock_send, hnet]
    exact clock_time s.net

variable (hentries : s.reqEntries = [])
include hentries

/-- The command goes out, its answer `d` comes, and its entry leaves the list. -/
theorem hears_roundAnswered {d : List UInt8} {evs : List Event} (n : ℕ) (hd : d ≠ [])
    (hdlen : d.length < bufSize) (hcc : r.ccode ≠ 0xcf) (hhandle : handlePacket K ss [e]
      (Response.receive s.recvRsp d) = .ok (.got, [], r, evs)) :
    ∃ t, Hears wire (sendLoop K (.ipmi req) (n + 1) l) s [some d] (some true) t ∧ Turned 1 s ss t ∧
      t.recvRsp = r ∧ t.net.sent = s.net.sent ++ [packet] := by
  obtain ⟨u, htransmit, hu⟩ := hears_transmitCommand hbuilt hon hx
  have hus : u.intf.session = some ss := by rw [hu.intf]
  have hfd : ValidFd u.intf.fd := by
    rw [hu.intf]
    exact hon.fd
  have hno : u.intf.noanswer = false := by
    rw [hu.intf]
    exact hon.noanswer
  have hpoll : Hears wire (pollSingle K) u [some d] .got
      { u with reqEntries := [], recvRsp := r, trace := u.trace ++ evs } := by
    refine hears_pollSingle hus hfd hd hdlen ?_
    rw [hu.entries, hu.rsp, hentries]
    exact hhandle
  refine ⟨{ u with reqEntries := [], recvRsp := r, trace := u.trace ++ evs }, ?_,
    ⟨hu.intf, rfl, hu.sends, hu.bridgePossible, ?_⟩, rfl, hu.sent⟩
  · unfold sendLoop
    refine htransmit.step (.read (fun _ => rfl) ?_)
    simp only [hno, Bool.false_eq_true, if_false]
    refine Hears.step (.pure _ _) ?_
    exact (hears_await (fun q hq => by cases hq) hpoll hcc).andThen (.pure _ _)
  · rw [List.drop_one]
    exact hu.clock

/-- The locals after a round that went without an answer. -/
def again (s : St) (e : Entry) : Locals :=
  { isRetry := true, xmit := true, ltime := s.net.time.1, entry := some e.addr, rsp := false }

/-- The command goes out and nothing comes until the timeout is over: the loop goes on with the next
round. -/
theorem hears_roundDropped (n : ℕ) {t0 t1 : ℤ} {rest : List ℤ}
    (hclock : s.net.clock = t0 :: t1 :: rest) (hlate : (ss.timeout.toNat : ℤ) ≤ t1 - t0)
    (hmax : ss.timeout ≠ 0xffffffff) :
    ∃ u, Turned 2 s { ss with timeout := ss.timeout + 1 } u ∧
      u.net.sent = s.net.sent ++ [packet] ∧
        ∀ heard o t, Hears wire (sendLoop K (.ipmi req) n (again s e)) u heard o t →
          Hears wire (sendLoop K (.ipmi req) (n + 1) l) s (none :: heard) o t := by
  obtain ⟨u, htransmit, hu⟩ := hears_transmitCommand hbuilt hon hx
  have hus : u.intf.session = some ss := by rw [hu.intf]
  have hfd : ValidFd u.intf.fd := by
    rw [hu.intf]
    exact hon.fd
  have hno : u.intf.noanswer = false := by
    rw [hu.intf]
    exact hon.noanswer
  have hue : u.reqEntries = [e] := by rw [hu.entries, hentries, List.nil_append]
  have hnow : u.net.time.1 = t1 := by
    unfold Net.time
    rw [hu.clock, hclock]
    rfl
  have hltime : s.net.time.1 = t0 := by
    unfold Net.time
    rw [hclock]
  obtain ⟨trace, hawait⟩ := hears_await_removed (K := K) req
    (l := { l with ltime := s.net.time.1, entry := some e.addr }) hus hfd hue rfl
  set v : St := { u with reqEntries := [], trace } with hv
  have htimed : Hears wire (timedOut s.net.time.1) v [] true
      ((ticked v).withSession { ss with timeout := ss.timeout + 1 }) := by
    refine hears_timedOut hus ?_ hmax
    change (ss.timeout.toNat : ℤ) ≤ u.net.time.1 - s.net.time.1
    rw [hnow, hltime]
    exact hlate
  refine ⟨(ticked v).withSession { ss with timeout := ss.timeout + 1 },
    ⟨?_, rfl, ?_, hu.bridgePossible, ?_⟩,
    ?_, fun heard o t ht => ?_⟩
  · change { u.intf with session := some { ss with timeout := ss.timeout + 1 } } = _
    rw [hu.intf]
  · change true ∉ u.net.time.2.sendFails
    rw [Net.time_sendFails]
    exact hu.sends
  · change u.net.time.2.clock = _
    rw [clock_time, hu.clock, hclock]
    rfl
  · change u.net.time.2.sent = _
    rw [sent_time, hu.sent]
  · unfold sendLoop
    refine htransmit.step (.read (fun _ => rfl) ?_)
    simp only [hno, Bool.false_eq_true, if_false]
    refine Hears.step (.pure _ _) ?_
    change Hears wire _ _ ([none] ++ heard) o t
    refine hawait.bind ?_
    simp only [Bool.false_eq_true, if_false, Lanplus.Send.isHandshake]
    exact htimed.step ht

end Round

/-! ### A command -/

/-- **The clock is good enough**: as long as losses are ahead, the timeout is over whenever a round
ends without an answer, and no timeout reaches the largest number. `n` commands are still to
come. -/
def Timely (n : ℕ) (clock : List ℤ) (timeout : UInt32) (b : Bmc) : Prop :=
  0 < ahead b → ∃ gap : ℕ, gap < 2 ^ 32 ∧ timeout.toNat + ahead b ≤ gap ∧
    clock.IsChain (fun t0 t1 : ℤ => t0 + gap ≤ t1) ∧ n + 2 * ahead b ≤ clock.length

theorem Timely.dropped {n : ℕ} {clock : List ℤ} {timeout : UInt32}
    (h : Timely (n + 1) clock timeout b) (hdrop : b.received + 1 ∈ b.p.drop) :
    ∃ t0 t1 rest, clock = t0 :: t1 :: rest ∧
      (timeout.toNat : ℤ) ≤ t1 - t0 ∧ timeout ≠ 0xffffffff ∧
        (timeout + 1).toNat = timeout.toNat + 1 ∧
      Timely (n + 1) rest (timeout + 1) b.counted := by
  have hlt := ahead_counted_lt hdrop
  obtain ⟨gap, hgap, hsum, hchain, hlen⟩ := h (by omega)
  obtain ⟨t0, t1, rest, rfl⟩ : ∃ t0 t1 rest, clock = t0 :: t1 :: rest := by
    rcases clock with _ | ⟨t0, _ | ⟨t1, rest⟩⟩
    · rw [List.length_nil] at hlen
      omega
    · rw [List.length_singleton] at hlen
      omega
    · exact ⟨t0, t1, rest, rfl⟩
  simp only [List.length_cons] at hlen
  obtain ⟨hstep, hchain⟩ := List.isChain_cons_cons.mp hchain
  have htimeout : (timeout + 1).toNat = timeout.toNat + 1 := by
    rw [UInt32.toNat_add]
    change (timeout.toNat + 1) % 2 ^ 32 = _
    rw [Nat.mod_eq_of_lt (by omega)]
  refine ⟨t0, t1, rest, rfl, by omega, ?_, htimeout, fun _ =>
    ⟨gap, hgap, by omega, hchain.of_cons, by omega⟩⟩
  intro hmax
  rw [hmax] at hsum
  change 4294967295 + _ ≤ gap at hsum
  omega

theorem Timely.answered {n : ℕ} {clock : List ℤ} {timeout timeout' : UInt32}
    (h : Timely (n + 1) clock timeout b) (hle : timeout'.toNat ≤ timeout.toNat)
    (hahead : ahead b' ≤ ahead b) : Timely n (clock.drop 1) timeout' b' := by
  intro hpos
  obtain ⟨gap, hgap, hsum, hchain, hlen⟩ := h (by omega)
  cases clock with
  | nil =>
    rw [List.length_nil] at hlen
    omega
  | cons t0 rest =>
    rw [List.length_cons] at hlen
    exact ⟨gap, hgap, by omega, hchain.of_cons, by rw [List.drop_one, List.tail_cons]; omega⟩

theorem Attached.turned {n : ℕ} (h : Attached level s ss b) (ht : Turned n s ss' t)
    (hv : ss'.v2 = ss.v2) (hp : b'.p = b.p) (hb : ∃ seq, b'.v2 = { b.v2 with seq })
    (hb15 : b'.v15 = b.v15) : Attached level t ss' b' where
  online :=
    ⟨ht.sends, by rw [ht.intf]; exact h.online.noanswer, by rw [ht.intf]; exact h.online.retry,
    by rw [ht.intf]; exact h.online.fd⟩
  session := by rw [ht.intf]
  sync := h.sync.of_eq hv hp hb
  entries := ht.entries
  bridged := by rw [ht.intf, ht.bridgePossible]; exact h.bridged
  recorded := by rw [ht.intf, ht.bridgePossible]; exact h.recorded
  v15 := by rw [hb15]; exact h.v15

/-- What a command does besides getting its answer: the interface has another session, which differs
in its counters only, and the controller has served the command. -/
structure Asked (s : St) (ss : Session) (b c : Bmc) (t : St) (ss' : Session) (b' : Bmc) : Prop where
  intf : t.intf = { s.intf with session := some ss' }
  bridgePossible : t.bridgePossible = s.bridgePossible
  v2 : ss'.v2 = ss.v2
  authcode : ss'.authcode = ss.authcode
  received : b.received ≤ b'.received
  bmc : ∃ received seq, b' = { c with received, v2 := { b.v2 with seq } }

theorem Asked.trans {ss'' : Session} {b'' : Bmc} (h : Asked s ss b b t ss' b')
    (h' : Asked t ss' b' b' u ss'' b'') : Asked s ss b b u ss'' b'' where
  intf := by rw [h'.intf, h.intf]
  bridgePossible := h'.bridgePossible.trans h.bridgePossible
  v2 := h'.v2.trans h.v2
  authcode := h'.authcode.trans h.authcode
  received := Nat.le_trans h.received h'.received
  bmc := by
    obtain ⟨received, seq, rfl⟩ := h.bmc
    obtain ⟨received', seq', rfl⟩ := h'.bmc
    exact ⟨received', seq', rfl⟩

theorem Asked.p (h : Asked s ss b b t ss' b') : b'.p = b.p := by
  obtain ⟨received, seq, rfl⟩ := h.bmc
  rfl

/-- **The rounds of a command**: lost ones are repeated, and the controller serves the command
once. -/
theorem sendLoop_served (other : List UInt8 → Bool → B (List UInt8)) {n tries : ℕ}
    {timeout : UInt32}
    (h : Attached level s ss b) (hx : l.xmit = true) (hserved : Served b.p level req a)
    (hserve : serve (2 - level) req b = .ok (a, c))
    (hold : GoesOld ss req → level = 0 ∧ req.data.length ≤ 248 ∧ a.data.length ≤ 247)
    (hloss : ahead b < tries) (htime : Timely (n + 1) s.net.clock ss.timeout b)
    (htimeout : timeout.toNat ≤ ss.timeout.toNat) :
    ∃ t ss' b', Converses wire (handle K other)
      (sendLoop K (.ipmi req) tries l) s b (some true) t b' ∧
      Attached level t ss' b' ∧ Asked s ss b c t ss' b' ∧ Holding a t.recvRsp ∧
      Timely n t.net.clock timeout b' := by
  have hkept := (blind_dispatch (2 - level) _ _ _ _ hserve).1
  induction tries generalizing s ss b l c with
  | zero => exact absurd hloss (Nat.not_lt_zero _)
  | succ tries ih =>
    obtain ⟨packet, ss1, e, hbuilt, ⟨hdropped, hanswered⟩, hv2, hauthcode, hsame⟩ :=
      exists_arrives (K := K) other l.isRetry h hserved hserve hold
    rw [← hsame] at htime htimeout
    by_cases hdrop : b.received + 1 ∈ b.p.drop
    · obtain ⟨t0, t1, rest, hclock, hlate, hmax, hgrow, htime'⟩ := htime.dropped hdrop
      obtain ⟨u, hu, hsent, hrest⟩ :=
        hears_roundDropped hbuilt h.online hx h.entries tries hclock hlate hmax
      have hready : Attached level u { ss1 with timeout := ss1.timeout + 1 } b.counted :=
        h.turned hu hv2 rfl ⟨b.v2.seq, rfl⟩ rfl
      have hserve' : serve (2 - level) req b.counted =
          .ok (a, { c with received := b.received + 1, v2 := b.v2 }) :=
        (blind_dispatch (2 - level) _ _ _ _ hserve).2 (b.received + 1) b.v2
      have hcrest : u.net.clock = rest := by
        rw [hu.clock, hclock]
        rfl
      have hlt := ahead_counted_lt hdrop
      have hold' : GoesOld { ss1 with timeout := ss1.timeout + 1 } req →
          level = 0 ∧ req.data.length ≤ 248 ∧ a.data.length ≤ 247 := by
        intro hg
        exact hold ⟨hg.1, hg.2.1, by rw [← hv2]; exact hg.2.2⟩
      obtain ⟨t, ss', b', hconv, ht, hasked, hhold, htimely⟩ :=
        ih (l := again s e) hready rfl hserved hserve' hold'
          (by omega) (by rw [hcrest]; exact htime') (by change _ ≤ (ss1.timeout + 1).toNat; omega)
          ⟨hkept.p, rfl, hkept.v15, rfl⟩
      refine ⟨t, ss', b', .exchangeThen (fun heard => hrest heard _ _) hsent (hdropped hdrop) hconv,
        ht, ⟨?_, hasked.bridgePossible.trans hu.bridgePossible, hasked.v2.trans hv2,
          hasked.authcode.trans hauthcode, Nat.le_trans (Nat.le_succ _) hasked.received,
          hasked.bmc⟩, hhold, htimely⟩
      rw [hasked.intf, hu.intf]
    · obtain ⟨reply, seq, hhandle, hreply, hfit, hread⟩ := hanswered hdrop
      obtain ⟨r, evs, hpoll, hhold⟩ := hread s.recvRsp
      have hcc : r.ccode ≠ 0xcf := by
        rw [hhold.1]
        exact hserved.ccode
      obtain ⟨t, hhears, ht, hr, hsent⟩ :=
        hears_roundAnswered hbuilt h.online hx h.entries tries hreply hfit hcc hpoll
      refine ⟨t, ss1, _, .exchange hhears hsent hhandle,
        h.turned ht hv2 hkept.p ⟨seq, rfl⟩ hkept.v15,
        ⟨ht.intf, ht.bridgePossible, hv2, hauthcode, Nat.le_succ _, _, seq,
          rfl⟩, by rw [hr]; exact hhold, ?_⟩
      rw [ht.clock]
      exact htime.answered htimeout (ahead_le hkept.p (Nat.le_succ _))

theorem Attached.withTimeout (h : Attached level s ss b) (timeout : UInt32) :
    Attached level (s.withSession { ss with timeout }) { ss with timeout } b where
  online := ⟨h.online.sends, h.online.noanswer, h.online.retry, h.online.fd⟩
  session := rfl
  sync := h.sync.of_eq rfl rfl ⟨b.v2.seq, rfl⟩
  entries := h.entries
  bridged := h.bridged
  recorded := h.recorded
  v15 := h.v15

/-- **One command.** -/
theorem sendIpmiCmd_served (other : List UInt8 → Bool → B (List UInt8)) {n : ℕ}
    (h : Attached level s ss b) (hserved : Served b.p level req a)
    (hserve : serve (2 - level) req b = .ok (a, c))
    (hold : GoesOld ss req → level = 0 ∧ req.data.length ≤ 248 ∧ a.data.length ≤ 247)
    (hloss : ahead b < s.intf.ssnParams.retry.toNat)
    (htime : Timely (n + 1) s.net.clock ss.timeout b) :
    ∃ t ss' b', Converses wire (handle K other) (sendIpmiCmd K req) s b true t b' ∧
      Attached level t ss' b' ∧
      Asked s ss b c t ss' b' ∧ ss'.timeout = ss.timeout ∧ Holding a t.recvRsp ∧
      Timely n t.net.clock ss.timeout b' := by
  obtain ⟨t, ss', b', hconv, ht, hasked, hhold, htimely⟩ :=
    sendLoop_served (K := K) (l := {}) other h rfl hserved hserve hold hloss htime (Nat.le_refl _)
  refine ⟨t.withSession { ss' with timeout := ss.timeout },
    { ss' with timeout := ss.timeout }, b', ?_, ht.withTimeout ss.timeout,
    ⟨?_, hasked.bridgePossible, hasked.v2, hasked.authcode, hasked.received, hasked.bmc⟩, rfl,
    hhold, htimely⟩
  · unfold sendIpmiCmd sendPayload
    refine .step (hears_theSession h.session) rfl (.read (fun _ => rfl) (hconv.bind ?_))
    exact .of_hears ((hears_modifySession ht.session).step (.pure _ _)) rfl
  · change { t.intf with session := some { ss' with timeout := ss.timeout } } = _
    rw [hasked.intf]

/-! ### Questions -/

theorem Attached.asked (h : Attached level s ss b) : Asked s ss b b s ss b :=
  ⟨by rw [← h.session], rfl, rfl, rfl, Nat.le_refl _, b.received, b.v2.seq, rfl⟩

/-- **Commands that only ask**: besides the counters of both sides nothing has changed. -/
structure Queried (level : ℕ) (s : St) (ss : Session) (b : Bmc) (t : St) (ss' : Session)
    (b' : Bmc) : Prop where
  attached : Attached level t ss' b'
  asked : Asked s ss b b t ss' b'
  timeout : ss'.timeout = ss.timeout
  ccode : t.recvRsp.ccode ≠ 0xcf

theorem Queried.trans {u : St} {ss'' : Session} {b'' : Bmc} (h : Queried level s ss b t ss' b')
    (h' : Queried level t ss' b' u ss'' b'') : Queried level s ss b u ss'' b'' :=
  ⟨h'.attached, h.asked.trans h'.asked, h'.timeout.trans h.timeout, h'.ccode⟩

theorem sendIpmiCmd_queried (other : List UInt8 → Bool → B (List UInt8)) {n : ℕ}
    (h : Attached level s ss b) (hserved : Served b.p level req a)
    (hserve : serve (2 - level) req b = .ok (a, b))
    (hold : GoesOld ss req → level = 0 ∧ req.data.length ≤ 248 ∧ a.data.length ≤ 247)
    (hloss : ahead b < s.intf.ssnParams.retry.toNat)
    (htime : Timely (n + 1) s.net.clock ss.timeout b) :
    ∃ t ss' b', Converses wire (handle K other) (sendIpmiCmd K req) s b true t b' ∧
      Queried level s ss b t ss' b' ∧
      Holding a t.recvRsp ∧ Timely n t.net.clock ss'.timeout b' := by
  obtain ⟨t, ss', b', hconv, ht, hasked, htimeout, hhold, htime'⟩ :=
    sendIpmiCmd_served (K := K) other h hserved hserve hold hloss htime
  exact ⟨t, ss', b', hconv, ⟨ht, hasked, htimeout, by rw [hhold.1]; exact hserved.ccode⟩, hhold,
    by rw [htimeout]; exact htime'⟩

end Ipmitool.Peer.Turns
