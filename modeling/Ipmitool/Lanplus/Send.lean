import Ipmitool.Lanplus.Build

/-! # The send path

`sendPayload` of `intf/lanplus.zig` and what is built on it: `sendIpmiCmd`, `sendSol`, `recvSol` and
`keepalive`.

`sendPayload` and `recvSol` call each other in the source: a received serial-over-LAN packet is
acknowledged by sending a packet with sequence number zero, and sending such a packet receives
nothing. `ackSolPacket` therefore has its own definition of that send, `sendAck`: what `sendPayload`
does with such a packet.

The pointer to the entry of the request is the entry's address; following it after the entry has
left the list is a fault. -/

namespace Ipmitool.Lanplus.Send

open Ipmitool.Lib.Mem Ipmitool.Lib.Bytes Ipmitool.Lib.Machine Ipmitool.Core.Types
open Ipmitool.Crypto.Mac Ipmitool.Lanplus.State Ipmitool.Lanplus.Receive Ipmitool.Lanplus.Build

variable (K : Primitives)

/-! ### Transmission -/

/-- The command of Get Channel Authentication Capabilities. -/
def getChannelAuthCap : UInt8 := 0x38

/-- Is this a handshake message? Those are not retried. -/
def isHandshake : V2Payload → Bool
  | .openRequest _ | .rakp1 _ | .rakp3 _ => true
  | _ => false

/-- The state each payload may be sent in. -/
def sendable (state : SessionState) : V2Payload → Bool
  | .ipmi _ => true
  | .openRequest _ => state = .presession ∨ state = .openSessionSent
  | .rakp1 _ => state = .openSessionReceived
  | .rakp3 _ => state = .rakp2Received
  | .sol _ => state = .active

/-- The locals of `sendPayload` that survive a round. -/
structure Locals where
  isRetry : Bool := false
  xmit : Bool := true
  ltime : ℤ := 0
  entry : Option ℕ := none
  rsp : Bool := false

/-- Build the packet of a payload; a request also gets its entry. -/
def buildPayload (payload : V2Payload) (isRetry : Bool) : M (Option ℕ × List UInt8) := do
  let session ← theSession
  match payload with
  | .ipmi req =>
    let (entry, packet) ←
      if req.netfn = netfnApp ∧ req.cmd = getChannelAuthCap ∧ session.v2.bmcId = 0 then
        buildV15IpmiCmd req
      else buildV2xIpmiCmd K req isRetry
    return (some entry, packet)
  | payload =>
    expect (sendable session.v2.sessionState payload)
    let packet ← buildV2xMsg K payload 0
    return (none, packet)

/-- The transmission at the top of a round; `none` if the send fails. -/
def transmit (payload : V2Payload) (l : Locals) : M (Option Locals) :=
  if l.xmit then do
    let ltime ← time
    let (entry, packet) ← buildPayload K payload l.isRetry
    let sent ← sendPacket packet
    return if sent then some { l with ltime, entry } else none
  else return some l

/-! ### Serial over LAN -/

/-- `isSolPacket`, of a non-null response. -/
def isSolPacket (r : Response) : Bool :=
  r.session.authtype = authtypeRmcpPlus ∧ r.session.payloadtype = ptSol

/-- `solResponseAcksPacket`. -/
def solResponseAcksPacket (r : Response) (p : SolPacket) : Bool :=
  isSolPacket r ∧ r.ackedPacketNumber = p.packetSequenceNumber

/-- `sendPayload` of an acknowledgement, a packet with sequence number zero: it is sent once and
nothing is received. -/
def sendAck (ack : SolPacket) : M Unit := do
  let s ← get
  if 0 < s.intf.ssnParams.retry then
    let _ ← transmit K (.sol ack) {}

/-- `ackSolPacket`. -/
def ackSolPacket : M Unit := do
  let s ← get
  let r := s.recvRsp
  if isSolPacket r ∧ r.solSeq ≠ 0 then
    sendAck K { data := [], data_le := no_characters_le, ackedPacketNumber := r.solSeq,
                acceptedCharacterCount := UInt8.ofNat (r.dataLen % 256).toNat }

/-- `checkSolPacketForNewData`: drop the bytes of a packet that were already seen. -/
def checkSolPacketForNewData : M Unit := modify fun s =>
  let r := s.recvRsp
  if isSolPacket r then
    let r' :=
      if r.solSeq = s.solLastReceivedSequenceNumber then
        let size := r.dataLen - s.solLastReceivedByteCount.toNat
        { r with
          data := if 0 < size then move r.data 0 (r.dataLen - size).toNat size.toNat else r.data
          dataLen := size }
      else r
    if r.solSeq ≠ 0 then
      { s with
        recvRsp := r'
        solLastReceivedSequenceNumber := r.solSeq
        solLastReceivedByteCount := UInt8.ofNat (r.dataLen % 256).toNat }
    else { s with recvRsp := r' }
  else s

/-- `recvSol`. -/
def recvSol : M Bool := do
  let got ← pollRecv K
  let s ← get
  if got ∧ s.recvRsp.session.authtype ≠ 0 then
    ackSolPacket K
    checkSolPacketForNewData
  return got

/-! ### The send loop -/

/-- Remember the connection state after a handshake message went out. -/
def remember : V2Payload → M Unit
  | .openRequest _ => setState .openSessionSent
  | .rakp1 _ => setState .rakp1Sent
  | .rakp3 _ => setState .rakp3Sent
  | _ => pure ()

/-- Poll until something comes that is not a Duplicate Request completion code. Each round that goes
on has consumed a receive outcome. -/
def pollPastDuplicates : ℕ → M Bool
  | 0 => return false
  | fuel + 1 => do
    let got ← pollRecv K
    let s ← get
    if got ∧ s.recvRsp.ccode = 0xcf then pollPastDuplicates fuel else return got

/-- Follow the pointer to an entry. -/
def deref (addr : ℕ) : M Entry := do
  let s ← get
  match s.reqEntries.find? (·.addr == addr) with
  | some e => return e
  | none => throw .useAfterFree

/-- `reqRemoveEntry` with the key of the entry behind a pointer. -/
def removeEntry (addr : ℕ) : M Unit := do
  let e ← deref addr
  modify fun s => { s with
    reqEntries := reqRemoveEntry s.reqEntries e.rqSeq e.req.cmd
    trace := s.trace ++ (reqLookupEntry s.reqEntries e.rqSeq e.req.cmd).toList.map Event.removed }

/-- The receive of a round: does the loop end here, and is there a response? -/
def await (payload : V2Payload) (l : Locals) : M (Bool × Bool) :=
  match payload with
  | .sol p => do
    if p.packetSequenceNumber = 0 then return (true, l.rsp)
    let rsp ← recvSol K
    let s ← get
    if ¬ (rsp ∧ isSolPacket s.recvRsp) ∨ solResponseAcksPacket s.recvRsp p then
      return (true, rsp)
    if s.recvRsp.dataLen ≠ 0 then
      -- the data of the other side ends the wait for our acknowledgement
      solInputHandler
      modify fun s => { s with recvRsp := { s.recvRsp with dataLen := 0 } }
      return (true, true)
    return (false, true)
  | payload => do
    let s ← get
    let rsp ← pollPastDuplicates K (s.net.inbox.length + 1)
    if rsp then return (true, true)
    match payload, l.entry with
    | .ipmi _, some addr => removeEntry addr
    | _, _ => pure ()
    return (false, false)

/-- Is the timeout over? If so it grows by a second. -/
def timedOut (ltime : ℤ) : M Bool := do
  let now ← time
  let session ← theSession
  let elapsed := decide ((session.timeout.toNat : ℤ) ≤ now - ltime)
  if elapsed then
    if session.timeout = 0xffffffff then throw .overflow
    modifySession fun session => { session with timeout := session.timeout + 1 }
  return elapsed

/-- The loop of `sendPayload`, with the number of tries left. The result is `none` if a send failed,
which leaves the function at once, and otherwise whether there is a response. -/
def sendLoop (payload : V2Payload) : ℕ → Locals → M (Option Bool)
  | 0, l => return some l.rsp
  | n + 1, l => do
    match ← transmit K payload l with
    | none => return none
    | some l =>
      let s ← get
      if s.intf.noanswer then return some l.rsp
      remember payload
      let (done, rsp) ← await K payload l
      if done then return some rsp
      let xmit ← timedOut l.ltime
      if isHandshake payload then return some rsp
      sendLoop payload n { l with isRetry := true, xmit, rsp }

/-- `sendPayload`: the timeout that the loop raised is restored, unless a send failed. -/
def sendPayload (payload : V2Payload) : M Bool := do
  let session ← theSession
  let s ← get
  match ← sendLoop K payload s.intf.ssnParams.retry.toNat {} with
  | none => return false
  | some rsp =>
    modifySession fun s => { s with timeout := session.timeout }
    return rsp

/-! ### The entry points -/

/-- `sendIpmiCmd`. -/
def sendIpmiCmd (req : Request) : M Bool := sendPayload K (.ipmi req)

/-- `isSolPartialAck`: how many characters have to be resent. -/
def isSolPartialAck (intf : Intf) (p : SolPacket) (r : Response) : ℕ :=
  if solResponseAcksPacket r p ∧ r.acceptedCharacterCount.toNat < p.data.length then
    if intf.oemActive .intelplus ∧ r.acceptedCharacterCount = 0 then 0
    else p.data.length - r.acceptedCharacterCount.toNat
  else 0

/-- `setSolPacketSequenceNumber`. -/
def setSolPacketSequenceNumber (p : SolPacket) : M SolPacket := do
  let session ← theSession
  let seq := if 0x0f < session.solSequenceNumber then 1 else session.solSequenceNumber
  modifySession fun session => { session with solSequenceNumber := seq + 1 }
  return { p with packetSequenceNumber := seq }

/-- The packet that carries the characters after the first `n`. -/
def SolPacket.rest (p : SolPacket) (n : ℕ) : SolPacket :=
  { p with
    data := p.data.drop n
    data_le := by have := p.data_le; simp only [List.length_drop]; omega }

/-- The resend loop of `sendSol`. Each resend has consumed a receive outcome. -/
def resendLoop : ℕ → SolPacket → Bool → M Bool
  | 0, _, rsp => return rsp
  | fuel + 1, p, rsp => do
    let s ← get
    let r := s.recvRsp
    if rsp ∧ r.transferUnavailable = 0 ∧ r.isNack = 0 ∧ isSolPartialAck s.intf p r ≠ 0 then
      if r.dataLen ≠ 0 then solInputHandler
      let p ← setSolPacketSequenceNumber (SolPacket.rest p r.acceptedCharacterCount.toNat)
      let rsp ← sendPayload K (.sol p)
      resendLoop fuel p rsp
    else return rsp

/-- `sendSol`. -/
def sendSol (p : SolPacket) : M Bool := do
  let p ← setSolPacketSequenceNumber { p with ackedPacketNumber := 0, acceptedCharacterCount := 0 }
  let s ← get
  let rsp ← sendPayload K (.sol p)
  resendLoop K (s.net.inbox.length + 1) p rsp

/-- The loop of `keepalive` over serial-over-LAN packets that came instead of the answer: `none` if
nothing more comes. -/
def keepaliveLoop : ℕ → Bool → M (Option Bool)
  | 0, rsp => return some rsp
  | fuel + 1, rsp => do
    let s ← get
    if rsp ∧ isSolPacket s.recvRsp then
      ackSolPacket K
      checkSolPacketForNewData
      let s ← get
      if s.recvRsp.dataLen ≠ 0 then solInputHandler
      let rsp ← pollRecv K
      if rsp then keepaliveLoop fuel rsp else return none
    else return some rsp

/-- The request of `keepalive`, Get Device ID. -/
def getDeviceId : Request where
  netfn := netfnApp
  lun := bmcLun
  cmd := 0x01
  data := []
  data_lt := no_data_lt

/-- `keepalive`: zero if the session is alive or not open, otherwise `-1`. -/
def keepalive : M ℤ := do
  let s ← get
  if s.intf.session.isNone then return 0
  let rsp ← sendIpmiCmd K getDeviceId
  let s ← get
  match ← keepaliveLoop K (s.net.inbox.length + 1) rsp with
  | none => return 0
  | some rsp =>
    let s ← get
    return if rsp ∧ s.recvRsp.ccode = 0 then 0 else -1

end Ipmitool.Lanplus.Send
