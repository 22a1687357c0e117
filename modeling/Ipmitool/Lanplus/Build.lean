import Ipmitool.Lanplus.Receive

/-! # The packet builders

`getIpmiPayloadWireRep`, `getSolPayloadWireRep`, `buildV2xMsg`, `buildV2xIpmiCmd` and
`buildV15IpmiCmd` of `intf/lanplus.zig`. A message is laid out by appending its parts. The payload
length is a 16-bit number that the source maintains beside the bytes, with wrapping additions, so it
is computed beside them here too: the bytes on the wire are the first `length` bytes of what was
written. -/

namespace Ipmitool.Lanplus.Build

open Ipmitool.Lib.Mem Ipmitool.Lib.Bytes Ipmitool.Lib.Machine Ipmitool.Core.Types
open Ipmitool.Core.Network Ipmitool.Crypto.Mac Ipmitool.Crypto.LanplusCrypt Ipmitool.Lanplus.State
open Ipmitool.Lanplus.Receive

variable (K : Primitives)

/-! ### Wire representations -/

/-- A message with its two checksums: one over the two address bytes, one over the rest. -/
def checksummed (header body : List UInt8) : List UInt8 :=
  header ++ [csum header] ++ body ++ [csum body]

/-- A Send Message request with tracking around `inner`. -/
def sendMessage (rsAddr currSeq channel : UInt8) (inner : List UInt8) : List UInt8 :=
  checksummed [rsAddr, UInt8.ofNat (netfnApp.val <<< 2)]
    ([remoteSwid, currSeq <<< 2, 0x34, 0x40 ||| channel] ++ inner)

/-- The request itself. -/
def requestMessage (rsAddr rqAddr rqSeq : UInt8) (req : Request) : List UInt8 :=
  checksummed [rsAddr, req.netfnLun] ([rqAddr, rqSeq <<< 2, req.cmd] ++ req.data)

/-- `bridged_request`: how many Send Message envelopes the request travels in. -/
def bridgedRequest (intf : Intf) (bridgePossible : Bool) : ℕ :=
  if intf.targetAddr = intf.ourAddress.toUInt32 ∨ bridgePossible = false then 0
  else if intf.transitAddr ≠ intf.ourAddress.toUInt32 ∧ intf.transitAddr ≠ 0 then 2
  else 1

/-- `getIpmiPayloadWireRep`, figure 13-4. -/
def getIpmiPayloadWireRep (intf : Intf) (bridgePossible : Bool) (req : Request)
    (rqSeq currSeq : UInt8) : List UInt8 :=
  let target := intf.targetAddr.toUInt8
  match bridgedRequest intf bridgePossible with
  | 0 => requestMessage bmcSlaveAddr remoteSwid rqSeq req
  | 1 =>
    sendMessage bmcSlaveAddr currSeq intf.targetChannel (requestMessage target remoteSwid rqSeq req)
  | _ =>
    sendMessage bmcSlaveAddr currSeq intf.transitChannel
      (sendMessage intf.transitAddr.toUInt8 currSeq intf.targetChannel
        (requestMessage target intf.myAddr.toUInt8 rqSeq req))

/-- The operation and status byte of a serial-over-LAN packet. -/
def solFlags (p : SolPacket) : UInt8 :=
  (if p.isNack then 0x40 else 0) ||| (if p.assertRingWor then 0x20 else 0) |||
    (if p.generateBreak then 0x10 else 0) ||| (if p.deassertCts then 0x08 else 0) |||
    (if p.deassertDcdDsr then 0x04 else 0) ||| (if p.flushInbound then 0x02 else 0) |||
    (if p.flushOutbound then 0x01 else 0)

/-- `getSolPayloadWireRep`. -/
def getSolPayloadWireRep (p : SolPacket) : List UInt8 :=
  [p.packetSequenceNumber, p.ackedPacketNumber, p.acceptedCharacterCount, solFlags p] ++ p.data

/-- The payload type byte. -/
def payloadType : V2Payload → UInt8
  | .ipmi _ => ptIpmi
  | .openRequest _ => ptOpenRequest
  | .rakp1 _ => ptRakp1
  | .rakp3 _ => ptRakp3
  | .sol _ => ptSol

/-- The bytes the payload is written as. -/
def wireRep (intf : Intf) (bridgePossible : Bool) (seq : UInt8) : V2Payload → List UInt8
  | .ipmi req => getIpmiPayloadWireRep intf bridgePossible req seq seq
  | .openRequest msg => msg
  | .rakp1 msg => msg
  | .rakp3 msg => msg
  | .sol p => getSolPayloadWireRep p

/-- `payload_length` after the payload is written. A request starts with its data and seven bytes, a
checked addition; each envelope adds eight, with wraparound. -/
def wireLength (intf : Intf) (bridgePossible : Bool) : V2Payload → Except Fault UInt16
  | .ipmi req =>
    if 65536 ≤ req.data.length + 7 then .error .overflow
    else .ok (UInt16.ofNat (req.data.length + 7) +
      UInt16.ofNat (8 * bridgedRequest intf bridgePossible))
  | .openRequest msg => .ok (UInt16.ofNat msg.length)
  | .rakp1 msg => .ok (UInt16.ofNat msg.length)
  | .rakp3 msg => .ok (UInt16.ofNat msg.length)
  | .sol p => .ok (UInt16.ofNat (p.data.length + 4))

/-! ### RMCP+ packets -/

/-- The twelve bytes of the session header: outside the active state the flags, the session id and
the sequence number are zero. -/
def sessionHeader (session : Session) (type : UInt8) (length : UInt16) : List UInt8 :=
  if session.v2.sessionState = .active then
    [authtypeRmcpPlus, type ||| (if session.v2.cryptAlg ≠ cryptNone then 0x80 else 0) |||
        (if session.v2.integrityAlg ≠ integrityNone then 0x40 else 0)] ++
      le32 session.v2.bmcId ++ le32 session.outSeq ++ le16 length
  else [authtypeRmcpPlus, type] ++ le32 0 ++ le32 0 ++ le16 length

/-- How many `0xff` bytes pad the covered bytes to a multiple of four; `icts` does not count the two
bytes that close the trailer. -/
def integrityPadSize (intf : Intf) (covered : ℕ) : ℕ :=
  let before := if intf.oemActive .icts then covered else covered + 2
  if before % 4 ≠ 0 then 4 - before % 4 else 0

/-- The integrity pad, its length and the next header byte. -/
def integrityPad (intf : Intf) (covered : ℕ) : List UInt8 :=
  let n := integrityPadSize intf covered
  List.replicate n 0xff ++ [UInt8.ofNat n, 0x07]

/-- The session trailer: the integrity pad and the authcode over `covered` and the pad. -/
def sessionTrailer (intf : Intf) (session : Session) (covered : List UInt8) :
    Except Fault (List UInt8) := do
  let pad := integrityPad intf covered.length
  let mac ← keyedHash K session.v2.integrityAlg (session.v2.k1.take session.v2.k1Len)
    (covered ++ pad)
  match integrityAuthcodeLength session.v2.integrityAlg with
  | none => throw .assertFailed
  | some authLength => return pad ++ mac.take authLength

/-- The packet around a written payload: encrypted and authenticated in the active state. -/
def packetOf (intf : Intf) (session : Session) (type : UInt8) (written : List UInt8)
    (length : UInt16) (iv : List UInt8) : Except Fault (List UInt8) :=
  if session.v2.sessionState = .active then do
    let (out, length) ← encryptPayload K session.v2.cryptAlg session.v2.k2
      (written.take length.toNat) iv
    let covered := sessionHeader session type length ++ out.take length.toNat
    let trailer ← if session.v2.integrityAlg = integrityNone then pure []
      else sessionTrailer K intf session covered
    return rmcpHdr ++ covered ++ trailer
  else .ok (rmcpHdr ++ sessionHeader session type length ++ written.take length.toNat)

/-- The next session sequence number: zero is skipped. -/
def nextSeq (n : UInt32) : UInt32 := if n + 1 = 0 then 1 else n + 1

/-- The initialization vector is drawn when the payload is encrypted. -/
def drawIv (session : Session) : M (List UInt8) :=
  if session.v2.sessionState = .active ∧ session.v2.cryptAlg ≠ cryptNone then do
    let b ← rand
    return b.val
  else return []

/-- The events of a built packet. -/
def builtEvents (active : Bool) (packet : List UInt8) (seq : UInt8) : V2Payload → List Event
  | .ipmi _ => [.built active packet (some seq)]
  | .sol p => [.built active packet none, .solSent p.packetSequenceNumber p.data]
  | _ => [.built active packet none]

/-- `buildV2xMsg`: build the packet and count it. -/
def buildV2xMsg (payload : V2Payload) (seq : UInt8) : M (List UInt8) := do
  let session ← theSession
  let s ← get
  let length ← liftM (wireLength s.intf s.bridgePossible payload)
  let iv ← drawIv session
  let packet ← liftM (packetOf K s.intf session (payloadType payload)
    (wireRep s.intf s.bridgePossible seq payload) length iv)
  modifySession fun session => { session with outSeq := nextSeq session.outSeq }
  record (builtEvents (session.v2.sessionState = .active) packet seq payload)
  return packet

/-! ### Requests -/

/-- `reqAddEntry`: a new entry at the end of the list. -/
def reqAddEntry (req : Request) (rqSeq : UInt8) (bridgingLevel : ℕ) : M ℕ := do
  let s ← get
  let e : Entry := { addr := s.nextAddr, req, rqSeq, bridgingLevel }
  set { s with reqEntries := s.reqEntries ++ [e], nextAddr := s.nextAddr + 1 }
  return s.nextAddr

/-- The level `buildV2xIpmiCmd` records on the entry. -/
def entryBridgingLevel (intf : Intf) (bridgePossible : Bool) : ℕ :=
  if intf.targetAddr = intf.myAddr ∨ bridgePossible = false then 0
  else if intf.transitAddr ≠ 0 ∧ intf.transitAddr ≠ intf.myAddr then 2
  else 1

/-- What the entry remembers of the request: a bridged one is known by the Send Message command. -/
def entryRequest (level : ℕ) (req : Request) : Request :=
  if level = 0 then req else { req with targetCmd := req.cmd, cmd := 0x34 }

/-- The request sequence number of the next command. -/
def advanceSeq (seq : UInt8) (isRetry : Bool) : UInt8 :=
  let seq := if isRetry then seq else seq + 1
  if 64 ≤ seq then 0 else seq

/-- `buildV2xIpmiCmd`: the entry and the packet. -/
def buildV2xIpmiCmd (req : Request) (isRetry : Bool) : M (ℕ × List UInt8) := do
  modify fun s => { s with currSeq := advanceSeq s.currSeq isRetry }
  let s ← get
  let level := entryBridgingLevel s.intf s.bridgePossible
  let entry ← reqAddEntry (entryRequest level req) s.currSeq level
  let packet ← buildV2xMsg K (.ipmi req) s.currSeq
  return (entry, packet)

/-- The packet of `buildV15IpmiCmd`: no authentication, session id zero. -/
def v15Packet (session : Session) (req : Request) : List UInt8 :=
  rmcpHdr ++ ([0x00] : List UInt8) ++ le32 session.outSeq ++ le32 0 ++
    [UInt8.ofNat (req.data.length + 7)] ++
    checksummed [bmcSlaveAddr, UInt8.ofNat (req.netfn.val <<< 2)]
      ([remoteSwid, 0, req.cmd] ++ req.data)

/-- `buildV15IpmiCmd`. -/
def buildV15IpmiCmd (req : Request) : M (ℕ × List UInt8) := do
  let session ← theSession
  let entry ← reqAddEntry req 0 0
  if 65536 ≤ req.data.length + 7 then throw .overflow
  record [.built (session.v2.sessionState = .active) (v15Packet session req) (some 0)]
  return (entry, v15Packet session req)

/-! ### What the builders do -/

section
variable {K : Primitives} {s s' : St} {payload : V2Payload} {seq : UInt8} {packet : List UInt8}

theorem drawIv_ok {session : Session} {iv : List UInt8} (h : drawIv session s = .ok (iv, s')) :
    (session.v2.sessionState = .active → session.v2.cryptAlg ≠ cryptNone → iv.length = 16) ∧
      ∃ entropy, s' = { s with net := { s.net with entropy } } := by
  unfold drawIv at h
  split at h
  · simp only [bind_ok, rand_ok, pure_ok] at h
    obtain ⟨b, t, ⟨rfl, rfl⟩, rfl, rfl⟩ := h
    refine ⟨fun _ _ => s.net.rand.1.property, ?_⟩
    unfold Net.rand
    split
    · exact ⟨s.net.entropy, rfl⟩
    · exact ⟨_, rfl⟩
  · rename_i hne
    obtain ⟨-, rfl⟩ := pure_ok.mp h
    exact ⟨fun h1 h2 => absurd ⟨h1, h2⟩ hne, s.net.entropy, rfl⟩

theorem exists_drawIv (session : Session) (s : St) : ∃ iv t, drawIv session s = .ok (iv, t) := by
  unfold drawIv
  split_ifs
  · refine ⟨s.net.rand.1.val, { s with net := s.net.rand.2 }, ?_⟩
    simp only [bind_ok, rand_ok, pure_ok]
    exact ⟨_, _, ⟨rfl, rfl⟩, rfl, rfl⟩
  · exact ⟨[], s, rfl⟩

/-- **What `buildV2xMsg` does** when it returns: it counts the packet and records it. -/
theorem buildV2xMsg_ok (h : buildV2xMsg K payload seq s = .ok (packet, s')) :
    ∃ ss length iv entropy, s.intf.session = some ss ∧
      (ss.v2.sessionState = .active → ss.v2.cryptAlg ≠ cryptNone → iv.length = 16) ∧
      wireLength s.intf s.bridgePossible payload = .ok length ∧
      packetOf K s.intf ss (payloadType payload) (wireRep s.intf s.bridgePossible seq payload)
        length iv = .ok packet ∧
      s' = { s with
        intf := { s.intf with session := some { ss with outSeq := nextSeq ss.outSeq } }
        net := { s.net with entropy }
        trace := s.trace ++ builtEvents (ss.v2.sessionState = .active) packet seq payload } := by
  unfold buildV2xMsg at h
  simp only [bind_ok, theSession_ok, get_ok, lift_ok, modifySession_ok, record_ok, pure_ok] at h
  obtain ⟨ss, t, ⟨hss, rfl⟩, _, _, ⟨rfl, rfl⟩, length, _, ⟨hlen, rfl⟩, iv, t1, hiv, _, _,
    ⟨hp, rfl⟩, _, _, ⟨ss1, hss1, rfl⟩, _, _, rfl, rfl, rfl⟩ := h
  obtain ⟨hiv16, entropy, rfl⟩ := drawIv_ok hiv
  obtain rfl : ss = ss1 := Option.some.inj (hss.symm.trans hss1)
  exact ⟨ss, length, iv, entropy, hss, hiv16, hlen, hp, rfl⟩

/-- `buildV2xMsg` returns as soon as the packet can be made for every initialization vector. -/
theorem exists_buildV2xMsg (seq : UInt8) {ss : Session} {length : UInt16}
    (hss : s.intf.session = some ss)
    (hlen : wireLength s.intf s.bridgePossible payload = .ok length)
    (hp : ∀ iv : List UInt8,
      (ss.v2.sessionState = .active → ss.v2.cryptAlg ≠ cryptNone → iv.length = 16) →
        ∃ p, packetOf K s.intf ss (payloadType payload)
          (wireRep s.intf s.bridgePossible seq payload) length iv = .ok p) :
    ∃ packet s', buildV2xMsg K payload seq s = .ok (packet, s') := by
  obtain ⟨iv, t, hdraw⟩ := exists_drawIv ss s
  obtain ⟨hiv, entropy, ht⟩ := drawIv_ok hdraw
  obtain ⟨p, hp⟩ := hp iv hiv
  have hss1 : t.intf.session = some ss := by rw [ht]; exact hss
  unfold buildV2xMsg
  simp only [bind_ok, theSession_ok, get_ok, lift_ok, modifySession_ok, record_ok, pure_ok]
  exact ⟨p, _, ss, s, ⟨hss, rfl⟩, s, s, ⟨rfl, rfl⟩, length, s, ⟨hlen, rfl⟩, iv, t, hdraw, p,
    t, ⟨hp, rfl⟩, (), _, ⟨ss, hss1, rfl⟩, (), _, rfl, rfl, rfl⟩

@[simp] theorem reqAddEntry_ok {req : Request} {level addr : ℕ} :
    reqAddEntry req seq level s = .ok (addr, s') ↔
      { s with
        reqEntries := s.reqEntries ++ [⟨s.nextAddr, req, seq, level⟩]
        nextAddr := s.nextAddr + 1 } = s' ∧ s.nextAddr = addr := by
  simp [reqAddEntry, and_comm]

/-- The state with a new request: its sequence number is drawn and its entry is on the list. -/
def withRequest (s : St) (req : Request) (isRetry : Bool) : St :=
  let level := entryBridgingLevel s.intf s.bridgePossible
  let rqSeq := advanceSeq s.currSeq isRetry
  { s with
    currSeq := rqSeq
    reqEntries := s.reqEntries ++ [⟨s.nextAddr, entryRequest level req, rqSeq, level⟩]
    nextAddr := s.nextAddr + 1 }

theorem buildV2xIpmiCmd_ok {req : Request} {isRetry : Bool} {addr : ℕ} :
    buildV2xIpmiCmd K req isRetry s = .ok ((addr, packet), s') ↔
      addr = s.nextAddr ∧ buildV2xMsg K (.ipmi req) (advanceSeq s.currSeq isRetry)
        (withRequest s req isRetry) = .ok (packet, s') := by
  unfold buildV2xIpmiCmd withRequest
  simp only [bind_ok, modify_ok, get_ok, reqAddEntry_ok, pure_ok, Prod.mk.injEq]
  constructor
  · rintro ⟨_, _, rfl, _, _, ⟨rfl, rfl⟩, _, _, ⟨rfl, rfl⟩, p, t, h, ⟨rfl, rfl⟩, rfl⟩
    exact ⟨rfl, h⟩
  · rintro ⟨rfl, h⟩
    exact ⟨(), _, rfl, _, _, ⟨rfl, rfl⟩, _, _, ⟨rfl, rfl⟩, packet, s', h, ⟨rfl, rfl⟩, rfl⟩

theorem buildV15IpmiCmd_ok {req : Request} {addr : ℕ}
    (h : buildV15IpmiCmd req s = .ok ((addr, packet), s')) :
    ∃ ss, s.intf.session = some ss ∧ addr = s.nextAddr ∧ packet = v15Packet ss req ∧
      s' = { s with
        reqEntries := s.reqEntries ++ [⟨s.nextAddr, req, 0, 0⟩]
        nextAddr := s.nextAddr + 1
        trace := s.trace ++ [.built (ss.v2.sessionState = .active) packet (some 0)] } := by
  unfold buildV15IpmiCmd at h
  simp only [bind_ok, theSession_ok, reqAddEntry_ok] at h
  obtain ⟨ss, _, ⟨hss, rfl⟩, _, _, ⟨rfl, rfl⟩, h⟩ := h
  split at h
  · simp at h
  · simp only [bind_ok, record_ok, pure_ok, Prod.mk.injEq] at h
    obtain ⟨_, _, rfl, ⟨rfl, rfl⟩, rfl⟩ := h
    exact ⟨ss, hss, rfl, rfl, rfl⟩

end

end Ipmitool.Lanplus.Build
