import Ipmitool.Lan.Receive
import Ipmitool.Lanplus.Send

/-! # The send path of the IPMI 1.5 transport

`buildCmd`, `sendCmd` and the serial-over-LAN functions of `intf/lan.zig`. The authcode algorithms
of `crypto/auth.zig` are a parameter.

`sendCmd` opens a closed interface first; `exchange` is the rest of it. `sendSolPayload` and
`recvSol` call each other in the source, as in the RMCP+ transport: the acknowledgement of a
received packet is sent until a send succeeds, and nothing is received for it (`sendAck`). -/

namespace Ipmitool.Lan.Send

open Ipmitool.Lib.Mem Ipmitool.Lib.Bytes Ipmitool.Lib.Machine Ipmitool.Core.Types
open Ipmitool.Lanplus.State Ipmitool.Lanplus.Receive Ipmitool.Lanplus.Build
open Ipmitool.Lan.Receive

/-- The authcodes of `crypto/auth.zig`. -/
structure Auth where
  md5 : Session → List UInt8 → List UInt8
  md2 : Session → List UInt8 → List UInt8
  special : Session → List UInt8

variable (A : Auth)

/-- `IPMI_SESSION_AUTHTYPE_MD2`. -/
def authtypeMd2 : UInt8 := 0x01

/-- `IPMI_SESSION_AUTHTYPE_MD5`. -/
def authtypeMd5 : UInt8 := 0x02

/-! ### Commands -/

/-- The bridging level of a command. -/
def bridgingLevel (intf : Intf) (bridgePossible : Bool) : ℕ :=
  if intf.targetAddr = intf.ourAddress.toUInt32 ∨ bridgePossible = false then 0
  else if intf.transitAddr = intf.myAddr ∨ intf.transitAddr = 0 then 1
  else 2

/-- A Send Message request with tracking around `inner`. -/
def envelope (rsAddr rqAddr rqSeq channel : UInt8) (inner : List UInt8) : List UInt8 :=
  checksummed [rsAddr, UInt8.ofNat (netfnApp.val <<< 2)]
    ([rqAddr, rqSeq <<< 2, 0x34, 0x40 ||| channel] ++ inner)

/-- The message behind the length byte. -/
def messageBody (intf : Intf) (level : ℕ) (rqSeq : UInt8) (req : Request) : List UInt8 :=
  let own := intf.myAddr.toUInt8
  match level with
  | 0 => requestMessage bmcSlaveAddr remoteSwid rqSeq req
  | 1 =>
    envelope bmcSlaveAddr remoteSwid rqSeq intf.targetChannel
      (requestMessage intf.targetAddr.toUInt8 own rqSeq req)
  | _ =>
    envelope bmcSlaveAddr remoteSwid rqSeq intf.transitChannel
      (envelope intf.transitAddr.toUInt8 own rqSeq intf.targetChannel
        (requestMessage intf.targetAddr.toUInt8 own rqSeq req))

/-- The authcode field: present in an active session with authentication. -/
def authcodeField (session : Session) (covered : List UInt8) : List UInt8 :=
  if session.active = true ∧ session.authtype ≠ 0 then
    if session.authtype = authtypeMd5 then (A.md5 session covered).take 16
    else if session.authtype = authtypeMd2 then (A.md2 session covered).take 16
    else session.authcode.take 16
  else []

/-- The packet of `buildCmd`. The length byte is cut to eight bits, and the authcode covers as many
bytes as it says. -/
def cmdPacket (intf : Intf) (session : Session) (level : ℕ) (rqSeq : UInt8) (req : Request) :
    List UInt8 :=
  let length := UInt8.ofNat (req.data.length + 7 + 8 * level)
  let body := messageBody intf level rqSeq req
  rmcpHdr ++ [if session.active then session.authtype else 0] ++ le32 session.inSeq ++
    le32 session.sessionId ++ authcodeField A session (body.take length.toNat) ++ [length] ++ body

/-- The counter after a packet: zero means that it has not been seeded. -/
def nextInSeq (n : UInt32) : UInt32 := if n = 0 then 0 else nextSeq n

/-- The entry of a command: a bridged one is known by the Send Message command. -/
def bridgeEntry (level : ℕ) (e : Entry) : Entry :=
  { e with
    bridgingLevel := level
    req := if level = 0 then e.req else { e.req with targetCmd := e.req.cmd, cmd := 0x34 } }

/-- The entry that `buildCmd` uses: the one that a lookup finds, or a new one. -/
def takeEntry (req : Request) (rqSeq : UInt8) : M Entry := do
  let s ← get
  match reqLookupEntry s.reqEntries rqSeq req.cmd with
  | some e => return e
  | none =>
    let addr ← reqAddEntry req rqSeq 0
    return { addr, req, rqSeq }

/-- `buildCmd`: the entry and the packet. -/
def buildCmd (req : Request) (isRetry : Bool) : M (ℕ × List UInt8) := do
  let session ← theSession
  modify fun s => { s with currSeq := advanceSeq s.currSeq isRetry }
  let s ← get
  let e ← takeEntry req s.currSeq
  let level := bridgingLevel s.intf s.bridgePossible
  setEntry { bridgeEntry level e with rqSeq := s.currSeq }
  let packet := cmdPacket A s.intf session level s.currSeq req
  modifySession fun session => { session with inSeq := nextInSeq session.inSeq }
  record [.built session.active packet (some s.currSeq)]
  return (e.addr, packet)

/-- `thump`: kick-start some Intel boards. -/
def thump : M Unit := do
  let _ ← sendPacket [0x74, 0x68, 0x75, 0x6d, 0x70, 0, 0, 0, 0, 0]

/-- The wait of `sendCmd` for an answer: one Duplicate Request completion code is ignored. -/
def await : M Bool := do
  let s ← get
  if s.intf.oemActive .intelwv2 then thump
  let rsp ← pollRecv
  let s ← get
  if rsp ∧ s.recvRsp.ccode = 0xcf then pollRecv else return rsp

/-- The loop of `sendCmd`, with the number of tries so far. Each round that is followed by another
one has counted a try, and only a failed send can go on when the tries are used up. -/
def sendLoop (req : Request) : ℕ → ℕ → M Bool
  | 0, _ => return false
  | fuel + 1, tries => do
    let (addr, packet) ← buildCmd A req (0 < tries)
    let sent ← sendPacket packet
    if !sent then
      -- the entry was filed under `cmd`, but it is looked for under `target_cmd`
      let e ← Ipmitool.Lanplus.Send.deref addr
      dropEntry e.rqSeq e.req.targetCmd
      sendLoop req fuel (tries + 1)
    else
      let s ← get
      if s.intf.noanswer then return false
      let rsp ← await
      if rsp then return true
      if s.intf.ssnParams.retry ≤ tries + 1 then return false
      sendLoop req fuel (tries + 1)

/-- `reqClearEntries`. -/
def reqClearEntries : M Unit := modify fun s => { s with reqEntries := [] }

/-- `sendCmd`, on an open interface. -/
def exchange (req : Request) : M Bool := do
  let s ← get
  let rsp ← sendLoop A req (s.net.sendFails.length + s.intf.ssnParams.retry.toNat + 1) 0
  reqClearEntries
  return rsp

/-! ### Serial over LAN -/

/-- The packet of `buildSolMsg`: always without authentication. -/
def solPacket (session : Session) (p : SolPacket) : List UInt8 :=
  rmcpHdr ++ ([0] : List UInt8) ++ le32 session.inSeq ++ le32 (session.sessionId + 0x10000000) ++
    [UInt8.ofNat (p.data.length + 5), p.packetSequenceNumber, p.ackedPacketNumber,
      p.acceptedCharacterCount, solFlags p, 0] ++ p.data

/-- `buildSolMsg`. -/
def buildSolMsg (p : SolPacket) : M (List UInt8) := do
  let session ← theSession
  modifySession fun session => { session with inSeq := nextSeq session.inSeq }
  record [.built session.active (solPacket session p) none,
    .solSent p.packetSequenceNumber p.data]
  return solPacket session p

/-- `sendSolPayload` of an acknowledgement: send until a send succeeds. -/
def sendAck (packet : List UInt8) : ℕ → M Unit
  | 0 => return ()
  | fuel + 1 => do
    let sent ← sendPacket packet
    if sent then return () else sendAck packet fuel

/-- `isSolPacket`, of a non-null response. -/
def isSolPacket (r : Response) : Bool := r.session.payloadtype = ptSol

/-- `ackSolPacket`. -/
def ackSolPacket : M Unit := do
  let s ← get
  let r := s.recvRsp
  if isSolPacket r ∧ r.solSeq ≠ 0 then
    let packet ← buildSolMsg { data := [], data_le := no_characters_le, ackedPacketNumber := r.solSeq,
                               acceptedCharacterCount := UInt8.ofNat (r.dataLen % 256).toNat }
    sendAck packet (s.net.sendFails.length + 1)

/-- `checkSolPacketForNewData`. -/
def checkSolPacketForNewData : M Unit := modify fun s =>
  let r := s.recvRsp
  if isSolPacket r then
    let size := r.dataLen - s.solLastReceivedByteCount.toNat
    let r' := if r.solSeq = s.solLastReceivedSequenceNumber then
      { r with
        data := if 0 < size then move r.data 0 (r.dataLen - size).toNat size.toNat else r.data
        dataLen := size } else r
    if r.solSeq ≠ 0 then
      { s with
        recvRsp := r'
        solLastReceivedSequenceNumber := r.solSeq
        solLastReceivedByteCount := UInt8.ofNat (r.dataLen % 256).toNat }
    else { s with recvRsp := r' }
  else s

/-- `recvSol`. -/
def recvSol : M Bool := do
  let got ← pollRecv
  if got then
    ackSolPacket
    checkSolPacketForNewData
  return got

/-- `solResponseAcksPacket`, of a non-null response. -/
def solResponseAcksPacket (r : Response) (p : SolPacket) : Bool :=
  isSolPacket r ∧ r.ackedPacketNumber = p.packetSequenceNumber

/-- The loop of `sendSolPayload`, with the number of tries so far and the response so far. The
packet is built once. -/
def solLoop (p : SolPacket) (packet : List UInt8) : ℕ → ℕ → Bool → M Bool
  | 0, _, rsp => return rsp
  | fuel + 1, tries, rsp => do
    let sent ← sendPacket packet
    if !sent then solLoop p packet fuel (tries + 1) rsp
    else
      let s ← get
      if s.intf.noanswer ∨ p.packetSequenceNumber = 0 then return rsp
      let rsp ← recvSol
      let s ← get
      if rsp ∧ solResponseAcksPacket s.recvRsp p then return rsp
      if rsp ∧ isSolPacket s.recvRsp ∧ s.recvRsp.dataLen ≠ 0 then solInputHandler
      if s.intf.ssnParams.retry ≤ tries + 1 then return rsp
      solLoop p packet fuel (tries + 1) rsp

/-- `sendSolPayload`, on an open interface. -/
def sendSolPayload (p : SolPacket) : M Bool := do
  let s ← get
  let packet ← buildSolMsg p
  solLoop p packet (s.net.sendFails.length + s.intf.ssnParams.retry.toNat + 1) 0 false

/-- `isSolPartialAck`: a packet of which nothing was accepted is not resent. -/
def isSolPartialAck (p : SolPacket) (r : Response) : ℕ :=
  if solResponseAcksPacket r p ∧ r.acceptedCharacterCount.toNat < p.data.length then
    if r.acceptedCharacterCount = 0 then 0 else p.data.length - r.acceptedCharacterCount.toNat
  else 0

/-- The resend loop of `sendSol`. Each resend has fewer characters. -/
def resendLoop : ℕ → SolPacket → Bool → M Bool
  | 0, _, rsp => return rsp
  | fuel + 1, p, rsp => do
    let s ← get
    let r := s.recvRsp
    if rsp ∧ isSolPartialAck p r ≠ 0 then
      if r.dataLen ≠ 0 then solInputHandler
      let p ← Ipmitool.Lanplus.Send.setSolPacketSequenceNumber
        (Ipmitool.Lanplus.Send.SolPacket.rest p r.acceptedCharacterCount.toNat)
      let rsp ← sendSolPayload p
      resendLoop fuel p rsp
    else return rsp

/-- `sendSol`. -/
def sendSol (p : SolPacket) : M Bool := do
  let p ← Ipmitool.Lanplus.Send.setSolPacketSequenceNumber
    { p with ackedPacketNumber := 0, acceptedCharacterCount := 0 }
  let rsp ← sendSolPayload p
  resendLoop (p.data.length + 1) p rsp

/-- `keepalive`: zero if the session is alive or not open, otherwise `-1`. -/
def keepalive : M ℤ := do
  let s ← get
  if s.intf.session.isNone then return 0
  let rsp ← exchange A Ipmitool.Lanplus.Send.getDeviceId
  let s ← get
  return if rsp ∧ s.recvRsp.ccode = 0 then 0 else -1

end Ipmitool.Lan.Send
