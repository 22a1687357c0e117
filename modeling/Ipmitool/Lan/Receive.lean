import Ipmitool.Lanplus.Receive

/-! # The receive path of the IPMI 1.5 transport

`pollRecv` of `intf/lan.zig`. The transport keeps the same kinds of variables as the RMCP+ one (its
own request list, sequence counter and static response), so it is modelled over the same type of
states; the request list operations and `recvPacket` are the same code in both.

`pollRecv` is one loop, not two as in the RMCP+ transport: a packet of another class or without an
entry is skipped by receiving the next one, and an envelope with an embedded answer is peeled off in
the buffer. `pollRound` is one round of the loop. -/

namespace Ipmitool.Lan.Receive

open Ipmitool.Lib.Mem Ipmitool.Lib.Bytes Ipmitool.Lib.Machine Ipmitool.Core.Types
open Ipmitool.Lanplus.State Ipmitool.Lanplus.Receive

/-- What a round of `pollRecv` ends with: another round on the response in the buffer, or the end of
the loop with or without a response. The response of `shifted` has its header still in front of the
data, up to the offset. -/
inductive Round where
  | again
  | null
  | whole
  | shifted (x : ℕ)
  deriving DecidableEq

/-- `rsp = recvPacket(intf); continue`. -/
def next : M Round := do
  let got ← recvPacket
  return if got then .again else .null

/-- The session header: authentication type, sequence number and session id. -/
def readSessionHeader (r : Response) : Response :=
  { r with session := { r.session with
      authtype := r.data 4
      seq := ofLe32 (r.data 5) (r.data 6) (r.data 7) (r.data 8)
      id := ofLe32 (r.data 9) (r.data 10) (r.data 11) (r.data 12) } }

/-- The payload type and the message length that follow. -/
def readPayloadHeader (r : Response) (type : UInt8) (x : ℕ) : Response :=
  { r with session := { r.session with payloadtype := type, msglen := (r.data x).toUInt16 } }

/-- Where the message length stands: an authcode comes before it in an active session. -/
def lengthOffset (session : Session) (r : Response) : ℕ :=
  if session.active ∧ (r.session.authtype ≠ 0 ∨ session.authtype ≠ 0) then 29 else 13

/-- The entry after an envelope came back, with the number of the embedded answer. -/
def peelAs (e : Entry) (rqSeq : UInt8) : Entry := { peel e with rqSeq }

/-- The buffer after the envelope that ends before offset `x` has been taken out. -/
def unwrap (r : Response) (x : ℕ) : Response :=
  let data := move r.data (x - 7) x (r.dataLen - x - 1).toNat
  { r with data := write data (x - 8) [data (x - 8) - 8], dataLen := r.dataLen - 8 }

/-- Store the response. -/
def setRsp (r : Response) : M Unit := modify fun s => { s with recvRsp := r }

/-- Store through the pointer to an entry. -/
def setEntry (e : Entry) : M Unit :=
  modify fun s => { s with reqEntries := updateEntry s.reqEntries e }

/-- `reqRemoveEntry`, with a record of the entry that left. -/
def dropEntry (seq cmd : UInt8) : M Unit := modify fun s => { s with
  reqEntries := reqRemoveEntry s.reqEntries seq cmd
  trace := s.trace ++ (reqLookupEntry s.reqEntries seq cmd).toList.map Event.removed }

/-- The bridged answer of the entry `e`, in the buffer `r`, with its header up to offset `x`. -/
def peelRound (e : Entry) (r : Response) (x : ℕ) : M Round := do
  if r.dataLen - x - 1 = 0 then
    let got ← if r.ccode = 0 then recvPacket else pure false
    setEntry (peel e)
    if !got then dropEntry (peel e).rqSeq (peel e).req.cmd
    return if got then .again else .null
  else if r.dataLen - x - 1 < 0 then throw .outOfBounds
  else
    let r := unwrap r x
    setRsp r
    setEntry (peelAs e (r.data (x - 3) >>> 2))
    return .again

/-- An IPMI 1.5 message, with its length at offset `x`. -/
def messageRound (session : Session) (r : Response) : M Round := do
  let x := lengthOffset session r
  let r := readIpmiResponse (readPayloadHeader r ptIpmi x) (x + 1)
  setRsp r
  let s ← get
  match reqLookupEntry s.reqEntries r.rqSeq r.cmd with
  | none => next
  | some e =>
    let bridged := s.intf.targetAddr ≠ s.intf.ourAddress.toUInt32 ∧ s.bridgePossible = true
    if bridged ∧ e.bridgingLevel ≠ 0 ∧ r.netfn = 7 ∧ r.cmd = 0x34 then peelRound e r (x + 8)
    else
      dropEntry r.rqSeq r.cmd
      return .shifted (x + 8)

/-- One round of the loop of `pollRecv`, on the response in the buffer. -/
def pollRound : M Round := do
  let s ← get
  let r := s.recvRsp
  if r.data 3 = rmcpClassAsf then
    record [.pong (pongSupported r)]
    return if pongSupported r then .whole else .null
  else if r.data 3 ≠ rmcpClassIpmi then next
  else
    let r := readSessionHeader r
    let session ← theSession
    if r.session.id = session.sessionId + 0x10000000 then
      let r := readSolPacket (readPayloadHeader r ptSol 13) 14
      setRsp r
      record [.solReceived r.solSeq r.ackedPacketNumber r.acceptedCharacterCount]
      return .shifted 19
    else messageRound session r

/-- Shift the response data behind offset `x` to the start of the buffer and clear the rest. -/
def shiftRsp (r : Response) (x : ℕ) : Response :=
  if (x : ℤ) < r.dataLen then
    let size := r.dataLen - x - (if r.session.payloadtype = ptIpmi then 1 else 0)
    { r with
      dataLen := size
      data := write (move r.data 0 x size.toNat) size.toNat
        (List.replicate (bufSize - size.toNat) 0) }
  else r

/-- The loop of `pollRecv`. Each round that is followed by another one has consumed a receive
outcome or a bridging level. -/
def pollLoop : ℕ → M Bool
  | 0 => return false
  | fuel + 1 => do
    match ← pollRound with
    | .again => pollLoop fuel
    | .null => return false
    | .whole => return true
    | .shifted x =>
      modify fun s => { s with recvRsp := shiftRsp s.recvRsp x }
      return true

/-- `pollRecv`: is there a response? -/
def pollRecv : M Bool := do
  let got ← recvPacket
  let s ← get
  if got then pollLoop (s.net.inbox.length + rounds s.reqEntries) else return false

end Ipmitool.Lan.Receive
