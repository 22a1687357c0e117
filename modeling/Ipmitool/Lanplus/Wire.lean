import Ipmitool.Lib.Buffer
import Ipmitool.Lanplus.Bridging

/-! # The packet builders and their buffer

`getIpmiPayloadWireRep` and `buildV2xMsg` of `intf/lanplus.zig` as they write: into a buffer of the
size that was allocated, each byte at its offset, with the offsets of the checksums saved on the way
in and used on the way out. A store outside the buffer is a fault.

* `emits_ipmiPayload`: the writer appends the bytes of `getIpmiPayloadWireRep`.
* `parseNested_wireRep`: these bytes are as many Send Message envelopes as the request is bridged,
  with the request inside, and all checksums close.
* `writeV2xMsg_eq`: the packet in the buffer is `packetOf`, for every payload length that the
  callers start from; so no store is outside. -/

namespace Ipmitool.Lanplus.Wire

open Ipmitool.Lib.Bytes Ipmitool.Lib.Machine Ipmitool.Lib.Buffer Ipmitool.Core.Types
open Ipmitool.Core.Network Ipmitool.Crypto.Mac Ipmitool.Crypto.Padding Ipmitool.Crypto.LanplusCrypt
open Ipmitool.Lanplus.Build Ipmitool.Lanplus.Bridging

/-- A program that writes a message. -/
abbrev W := Prog Fault (Cursor UInt8)

/-- `msg[len] = x; len += 1`. -/
abbrev put (x : UInt8) : W Unit := Cursor.put .outOfBounds x

/-- `@memcpy(msg[len..], xs); len += xs.len`. -/
abbrev puts (xs : List UInt8) : W Unit := Cursor.puts .outOfBounds xs

/-- `msg[len] = ipmi_csum(msg + cs, len - cs); len += 1`. -/
abbrev putCsum (cs : ℕ) : W Unit := Cursor.close .outOfBounds csum cs

/-- `cs = len`. -/
abbrev mark : W ℕ := Cursor.mark

/-! ### The writer of requests -/

/-- The responder's address and the network function, with their checksum. -/
def putHeader (rsAddr netfnLun : UInt8) : W Unit := do
  let cs ← mark
  put rsAddr
  put netfnLun
  putCsum cs

/-- The rest of a Send Message request up to its data. -/
def putTrack (rqAddr seq channel : UInt8) : W Unit := do
  put rqAddr
  put (seq <<< 2)
  put 0x34
  put (0x40 ||| channel)

/-- The request itself. -/
def putRequest (rsAddr rqAddr rqSeq : UInt8) (req : Request) : W Unit := do
  putHeader rsAddr req.netfnLun
  let cs ← mark
  put rqAddr
  put (rqSeq <<< 2)
  put req.cmd
  puts req.data
  putCsum cs

/-- `getIpmiPayloadWireRep`: write the request and add what its envelopes take to the payload
length. -/
def putIpmiPayloadWireRep (intf : Intf) (bridgePossible : Bool) (req : Request)
    (rqSeq currSeq : UInt8) (length : UInt16) : W UInt16 := do
  let target := intf.targetAddr.toUInt8
  match bridgedRequest intf bridgePossible with
  | 0 =>
    putRequest bmcSlaveAddr remoteSwid rqSeq req
    return length
  | 1 =>
    putHeader bmcSlaveAddr (UInt8.ofNat (netfnApp.val <<< 2))
    let cs2 ← mark
    putTrack remoteSwid currSeq intf.targetChannel
    putRequest target remoteSwid rqSeq req
    putCsum cs2
    return length + 7 + 1
  | _ =>
    putHeader bmcSlaveAddr (UInt8.ofNat (netfnApp.val <<< 2))
    let cs2 ← mark
    putTrack remoteSwid currSeq intf.transitChannel
    putHeader intf.transitAddr.toUInt8 (UInt8.ofNat (netfnApp.val <<< 2))
    let cs3 ← mark
    putTrack remoteSwid currSeq intf.targetChannel
    putRequest target intf.myAddr.toUInt8 rqSeq req
    putCsum cs3
    putCsum cs2
    return length + 7 + 7 + 1 + 1

theorem bridgedRequest_cases (intf : Intf) (bp : Bool) :
    bridgedRequest intf bp = 0 ∨ bridgedRequest intf bp = 1 ∨ bridgedRequest intf bp = 2 := by
  have hle := bridgedRequest_le intf bp
  omega

section
variable {t : List UInt8}

theorem emits_header (rsAddr netfnLun : UInt8) :
    Emits .outOfBounds (putHeader rsAddr netfnLun) t ()
      ([rsAddr, netfnLun] ++ [csum [rsAddr, netfnLun]]) :=
  emits_mark.bind <| (emits_put _).bind <| (emits_put _).bind <|
    emits_close csum t [rsAddr, netfnLun] (by simp)

theorem emits_track (rqAddr seq channel : UInt8) :
    Emits .outOfBounds (putTrack rqAddr seq channel) t ()
      [rqAddr, seq <<< 2, 0x34, 0x40 ||| channel] :=
  (emits_put _).bind <| (emits_put _).bind <| (emits_put _).bind <| emits_put _

theorem emits_request (rsAddr rqAddr rqSeq : UInt8) (req : Request) :
    Emits .outOfBounds (putRequest rsAddr rqAddr rqSeq req) t ()
      (requestMessage rsAddr rqAddr rqSeq req) := by
  refine Emits.of_eq ((emits_header rsAddr req.netfnLun).bind <| emits_mark.bind <|
    (emits_put rqAddr).bind <| (emits_put (rqSeq <<< 2)).bind <| (emits_put req.cmd).bind <|
      (emits_puts req.data).bind <| emits_close csum
        (t ++ ([rsAddr, req.netfnLun] ++ [csum [rsAddr, req.netfnLun]]))
        ([rqAddr, rqSeq <<< 2, req.cmd] ++ req.data) ?_) ?_
  · simp
  · simp [requestMessage, checksummed]

/-- **An envelope**: its body is closed behind what is written inside. -/
theorem emits_envelope {inner : W Unit} {xs : List UInt8} (rsAddr rqAddr seq channel : UInt8)
    (hin : ∀ t, Emits .outOfBounds inner t () xs) :
    Emits .outOfBounds (do
      putHeader rsAddr (UInt8.ofNat (netfnApp.val <<< 2))
      let cs ← mark
      putTrack rqAddr seq channel
      inner
      putCsum cs) t ()
    (checksummed [rsAddr, UInt8.ofNat (netfnApp.val <<< 2)]
      ([rqAddr, seq <<< 2, 0x34, 0x40 ||| channel] ++ xs)) := by
  let nf := UInt8.ofNat (netfnApp.val <<< 2)
  refine Emits.of_eq ((emits_header rsAddr nf).bind <| emits_mark.bind <|
    (emits_track rqAddr seq channel).bind <| (hin _).bind <| emits_close csum
      (t ++ ([rsAddr, nf] ++ [csum [rsAddr, nf]]))
      ([rqAddr, seq <<< 2, 0x34, 0x40 ||| channel] ++ xs) ?_) ?_
  · simp
  · simp [checksummed, nf]

/-- **The writer appends the wire representation**, and counts eight bytes for each envelope. -/
theorem emits_ipmiPayload (intf : Intf) (bp : Bool) (req : Request) (rqSeq currSeq : UInt8)
    (length : UInt16) :
    Emits .outOfBounds (putIpmiPayloadWireRep intf bp req rqSeq currSeq length) t
      (length + UInt16.ofNat (8 * bridgedRequest intf bp))
      (getIpmiPayloadWireRep intf bp req rqSeq currSeq) := by
  have hpure : ∀ {p : W Unit} {n n' : UInt16} {xs : List UInt8}, n = n' →
      Emits .outOfBounds p t () xs → Emits .outOfBounds (p >>= fun _ => pure n) t n' xs := by
    rintro p n _ xs rfl hp
    exact (hp.bind (emits_pure n)).of_eq (List.append_nil xs)
  let target := intf.targetAddr.toUInt8
  rcases bridgedRequest_cases intf bp with h | h | h
  · simp only [putIpmiPayloadWireRep, getIpmiPayloadWireRep, h]
    exact hpure (by simp) (emits_request _ _ _ req)
  · simp only [putIpmiPayloadWireRep, getIpmiPayloadWireRep, h]
    have henv :=
      hpure (UInt16.add_assoc length 7 1) (emits_envelope (t := t) bmcSlaveAddr remoteSwid
        currSeq intf.targetChannel fun _ => emits_request target remoteSwid rqSeq req)
    simp only [bind_assoc] at henv
    exact henv
  · simp only [putIpmiPayloadWireRep, getIpmiPayloadWireRep, h]
    have hsum : length + 7 + 7 + 1 + 1 = length + (7 + (7 + (1 + 1))) := by
      simp only [UInt16.add_assoc]
    have henv := hpure hsum (emits_envelope (t := t) bmcSlaveAddr remoteSwid currSeq
      intf.transitChannel fun _ => emits_envelope intf.transitAddr.toUInt8 remoteSwid currSeq
        intf.targetChannel fun _ => emits_request target intf.myAddr.toUInt8 rqSeq req)
    simp only [bind_assoc] at henv
    exact henv

end

/-! ### Reading nested messages -/

/-- The bytes sum to zero modulo 256. -/
def Closed (l : List UInt8) : Prop := l.foldl (· + ·) 0 = 0

instance (l : List UInt8) : Decidable (Closed l) := by unfold Closed; infer_instance

/-- A message as its receiver reads it. -/
structure Message where
  rsAddr : UInt8
  netfn : ℕ
  lun : ℕ
  rqAddr : UInt8
  rqSeqLun : UInt8
  cmd : UInt8
  data : List UInt8
  deriving DecidableEq

/-- A message is read if the header and the body are both closed by their checksums. -/
def parseMessage : List UInt8 → Option Message
  | rsAddr :: netfnLun :: c :: rqAddr :: rqSeqLun :: cmd :: rest =>
    if rest ≠ [] ∧ Closed [rsAddr, netfnLun, c] ∧ Closed (rqAddr :: rqSeqLun :: cmd :: rest) then
      some ⟨rsAddr, netfnLun.toNat / 4, netfnLun.toNat % 4, rqAddr, rqSeqLun, cmd, rest.dropLast⟩
    else none
  | _ => none

/-- What an envelope says: where it goes and on which channel its contents are forwarded. -/
structure Envelope where
  rsAddr : UInt8
  rqAddr : UInt8
  rqSeqLun : UInt8
  channel : UInt8
  deriving DecidableEq

/-- A Send Message request and the bytes it carries. -/
def unwrapSend (m : Message) : Option (Envelope × List UInt8) :=
  if m.netfn = netfnApp ∧ m.lun = 0 ∧ m.cmd = 0x34 then
    match m.data with
    | channel :: inner => some (⟨m.rsAddr, m.rqAddr, m.rqSeqLun, channel⟩, inner)
    | [] => none
  else none

/-- Read `n` envelopes and the message inside. -/
def parseNested : ℕ → List UInt8 → Option (List Envelope × Message)
  | 0, bytes => (parseMessage bytes).map ([], ·)
  | n + 1, bytes => do
    let m ← parseMessage bytes
    let (e, inner) ← unwrapSend m
    let (es, r) ← parseNested n inner
    return (e :: es, r)

theorem closed_csum (l : List UInt8) : Closed (l ++ [csum l]) := sum_csum l

theorem parseMessage_checksummed (rsAddr netfnLun rqAddr rqSeqLun cmd : UInt8) (data : List UInt8) :
    parseMessage (checksummed [rsAddr, netfnLun] ([rqAddr, rqSeqLun, cmd] ++ data)) =
      some ⟨rsAddr, netfnLun.toNat / 4, netfnLun.toNat % 4, rqAddr, rqSeqLun, cmd, data⟩ := by
  have hh := closed_csum [rsAddr, netfnLun]
  have hb := closed_csum ([rqAddr, rqSeqLun, cmd] ++ data)
  simp only [checksummed, List.cons_append, List.nil_append] at hh hb ⊢
  rw [parseMessage, if_pos ⟨by simp, hh, hb⟩, List.dropLast_concat]

theorem parseNested_envelope {n : ℕ} {inner : List UInt8} {es : List Envelope} {r : Message}
    (rsAddr rqAddr rqSeqLun channel : UInt8) (h : parseNested n inner = some (es, r)) :
    parseNested (n + 1) (checksummed [rsAddr, UInt8.ofNat (netfnApp.val <<< 2)]
      ([rqAddr, rqSeqLun, 0x34, channel] ++ inner)) =
        some (⟨rsAddr, rqAddr, rqSeqLun, channel⟩ :: es, r) := by
  have hm := parseMessage_checksummed rsAddr (UInt8.ofNat (netfnApp.val <<< 2)) rqAddr rqSeqLun 0x34
    (channel :: inner)
  have hu : unwrapSend ⟨rsAddr, (UInt8.ofNat (netfnApp.val <<< 2)).toNat / 4,
      (UInt8.ofNat (netfnApp.val <<< 2)).toNat % 4, rqAddr, rqSeqLun, 0x34, channel :: inner⟩ =
        some (⟨rsAddr, rqAddr, rqSeqLun, channel⟩, inner) := by
    rw [unwrapSend, if_pos ⟨rfl, rfl, rfl⟩]
  simp only [List.cons_append, List.nil_append] at hm ⊢
  rw [parseNested, hm]
  simp only [Option.bind_eq_bind, Option.bind_some, hu, h]
  rfl

theorem netfnLun_div (req : Request) : req.netfnLun.toNat / 4 = req.netfn.val := by
  have h : ∀ (n : Fin 64) (l : Fin 4), (UInt8.ofNat (n.val <<< 2 ||| l.val)).toNat / 4 = n.val := by
    decide +kernel
  exact h req.netfn req.lun

theorem netfnLun_mod (req : Request) : req.netfnLun.toNat % 4 = req.lun.val := by
  have h : ∀ (n : Fin 64) (l : Fin 4), (UInt8.ofNat (n.val <<< 2 ||| l.val)).toNat % 4 = l.val := by
    decide +kernel
  exact h req.netfn req.lun

/-- The request as the target reads it. -/
def received (rsAddr rqAddr rqSeq : UInt8) (req : Request) : Message :=
  ⟨rsAddr, req.netfn.val, req.lun.val, rqAddr, rqSeq <<< 2, req.cmd, req.data⟩

theorem parseNested_request (rsAddr rqAddr rqSeq : UInt8) (req : Request) :
    parseNested 0 (requestMessage rsAddr rqAddr rqSeq req) =
      some ([], received rsAddr rqAddr rqSeq req) := by
  rw [parseNested, requestMessage, parseMessage_checksummed, netfnLun_div, netfnLun_mod]
  rfl

/-- The envelopes of a request and the request inside them. -/
def nesting (intf : Intf) (bridgePossible : Bool) (req : Request) (rqSeq currSeq : UInt8) :
    List Envelope × Message :=
  let target := intf.targetAddr.toUInt8
  match bridgedRequest intf bridgePossible with
  | 0 => ([], received bmcSlaveAddr remoteSwid rqSeq req)
  | 1 =>
    ([⟨bmcSlaveAddr, remoteSwid, currSeq <<< 2, 0x40 ||| intf.targetChannel⟩],
      received target remoteSwid rqSeq req)
  | _ =>
    ([⟨bmcSlaveAddr, remoteSwid, currSeq <<< 2, 0x40 ||| intf.transitChannel⟩,
      ⟨intf.transitAddr.toUInt8, remoteSwid, currSeq <<< 2, 0x40 ||| intf.targetChannel⟩],
      received target intf.myAddr.toUInt8 rqSeq req)

theorem parseNested_wireRep (intf : Intf) (bp : Bool) (req : Request) (rqSeq currSeq : UInt8) :
    parseNested (bridgedRequest intf bp) (getIpmiPayloadWireRep intf bp req rqSeq currSeq) =
      some (nesting intf bp req rqSeq currSeq) := by
  rcases bridgedRequest_cases intf bp with h | h | h
  · simp only [getIpmiPayloadWireRep, nesting, h]
    exact parseNested_request _ _ _ _
  · simp only [getIpmiPayloadWireRep, nesting, h]
    exact parseNested_envelope _ _ _ _ (parseNested_request _ _ _ _)
  · simp only [getIpmiPayloadWireRep, nesting, h]
    exact parseNested_envelope _ _ _ _ (parseNested_envelope _ _ _ _ (parseNested_request _ _ _ _))

/-- `bytes` are the request `req` in exactly `level` Send Message envelopes, and both checksums of
every layer close. -/
def Frames (level : ℕ) (req : Request) (bytes : List UInt8) : Prop :=
  ∃ es m, parseNested level bytes = some (es, m) ∧ es.length = level ∧ m.netfn = req.netfn.val ∧
    m.lun = req.lun.val ∧ m.cmd = req.cmd ∧ m.data = req.data

theorem frames_wireRep (intf : Intf) (bp : Bool) (req : Request) (rqSeq currSeq : UInt8) :
    Frames (bridgedRequest intf bp) req (getIpmiPayloadWireRep intf bp req rqSeq currSeq) := by
  have hparse := parseNested_wireRep intf bp req rqSeq currSeq
  rcases bridgedRequest_cases intf bp with h | h | h <;> simp only [nesting, h] at hparse ⊢ <;>
    exact ⟨_, _, hparse, rfl, rfl, rfl, rfl, rfl⟩

/-! ### The packet -/

variable (K : Primitives)

def offAuthtype : ℕ := 0x04
def offPayloadType : ℕ := 0x05
def offSessionId : ℕ := 0x06
def offSequenceNum : ℕ := 0x0a
def offPayloadSize : ℕ := 0x0e
def offPayload : ℕ := 0x10

/-- `IPMI_MAX_MD_SIZE`: what is set aside for the integrity pad, and again for the authcode. -/
def maxMdSize : ℕ := 0x20

/-- The size of the buffer for a payload of `length` bytes. -/
def allocated (length : UInt16) : ℕ := 4 + 10 + 2 + length.toNat + maxMdSize + 1 + 1 + maxMdSize

/-- The size after the payload was encrypted. -/
def reallocated (length : UInt16) : ℕ :=
  offPayload + length.toNat + maxMdSize + 1 + 1 + maxMdSize

/-- The RMCP header and the session header; the payload size is still missing. -/
def writeHeader (session : Session) (type : UInt8) (msg : List UInt8) :
    Except Fault (List UInt8) := do
  let msg ← store .outOfBounds msg 0 rmcpHdr
  let msg ← store .outOfBounds msg offAuthtype [authtypeRmcpPlus]
  let msg ← store .outOfBounds msg offPayloadType [type]
  if session.v2.sessionState = .active then
    let type := type ||| (if session.v2.cryptAlg ≠ cryptNone then 0x80 else 0)
    let msg ← store .outOfBounds msg offPayloadType
      [type ||| (if session.v2.integrityAlg ≠ integrityNone then 0x40 else 0)]
    let msg ← store .outOfBounds msg offSessionId (le32 session.v2.bmcId)
    store .outOfBounds msg offSequenceNum (le32 session.outSeq)
  else return msg

/-- `getSolPayloadWireRep`. -/
def putSolPayloadWireRep (p : SolPacket) : W Unit := do
  put p.packetSequenceNumber
  put p.ackedPacketNumber
  put p.acceptedCharacterCount
  put (solFlags p)
  puts p.data

/-- A message of the handshake is copied as far as the payload length says. -/
def copyMessage (m : List UInt8) (length : UInt16) (msg : List UInt8) :
    Except Fault (List UInt8 × UInt16) := do
  let m ← load .outOfBounds m 0 length.toNat
  let msg ← store .outOfBounds msg offPayload m
  return (msg, length)

/-- The payload is written behind the header. -/
def writePayload (intf : Intf) (bridgePossible : Bool) (seq : UInt8) (payload : V2Payload)
    (length : UInt16) (msg : List UInt8) : Except Fault (List UInt8 × UInt16) :=
  match payload with
  | .ipmi req => do
    let (length, w) ← putIpmiPayloadWireRep intf bridgePossible req seq seq length ⟨msg,
        offPayload, 0⟩
    return (w.cells, length)
  | .sol p => do
    let (_, w) ← putSolPayloadWireRep p ⟨msg, offPayload, 0⟩
    return (w.cells, UInt16.ofNat (p.data.length + 4))
  | .openRequest m | .rakp1 m | .rakp3 m => copyMessage m length msg

/-- `lanplus_encrypt_payload`, with the payload as input and as output: the padded copy is made
before the initialization vector and the ciphertext are stored over it. -/
def encryptInPlace (session : Session) (iv : Block) (msg : List UInt8) (length : UInt16) :
    Except Fault (List UInt8 × UInt16) := do
  if session.v2.cryptAlg = cryptNone then return (msg, length)
  if session.v2.cryptAlg ≠ cryptAesCbc then throw .assertFailed
  let input ← load .outOfBounds msg offPayload length.toNat
  let msg ← store .outOfBounds msg offPayload iv.val
  let msg ← store .outOfBounds msg (offPayload + blockSize)
    (K.cbcEncrypt (session.v2.k2.take 16) iv.val (pad input))
  return (msg, UInt16.ofNat (blockSize + paddedLength input.length))

/-- The integrity pad, its length and the next header byte. -/
def writePad (intf : Intf) (msg : List UInt8) (length : UInt16) : Except Fault (List UInt8) := do
  let start := offPayload + length.toNat
  let n := integrityPadSize intf (12 + length.toNat)
  let msg ← store .outOfBounds msg start (List.replicate n 0xff)
  let msg ← store .outOfBounds msg (start + n) [UInt8.ofNat n]
  store .outOfBounds msg (start + n + 1) [0x07]

/-- The authcode. The whole digest is stored behind the trailer so far, and the part that travels is
counted. -/
def writeAuthcode (session : Session) (msg : List UInt8) (covered : ℕ) :
    Except Fault (List UInt8 × ℕ) := do
  let input ← load .outOfBounds msg offAuthtype covered
  let mac ← keyedHash K session.v2.integrityAlg (session.v2.k1.take session.v2.k1Len) input
  let msg ← store .outOfBounds msg (offAuthtype + covered) mac
  match integrityAuthcodeLength session.v2.integrityAlg with
  | none => throw .assertFailed
  | some authLength => return (msg, authLength)

/-- The session trailer and its length. -/
def writeTrailer (intf : Intf) (session : Session) (msg : List UInt8) (length : UInt16) :
    Except Fault (List UInt8 × ℕ) := do
  let n := integrityPadSize intf (12 + length.toNat)
  let msg ← writePad intf msg length
  let (msg, authLength) ← writeAuthcode K session msg (12 + length.toNat + n + 2)
  return (msg, n + 2 + authLength)

/-- The encryption, with the reallocation that follows if it changed the length. -/
def writeEncrypted (session : Session) (iv : Block) (junk : ℕ → UInt8) (msg : List UInt8)
    (length : UInt16) : Except Fault (List UInt8 × UInt16) := do
  if session.v2.sessionState = .active then
    let (msg, new) ← encryptInPlace K session iv msg length
    return (if new ≠ length then resize msg (reallocated new) junk else msg, new)
  else return (msg, length)

/-- The payload size and the trailer: what is left to write when the payload length is known. -/
def finishMsg (intf : Intf) (session : Session) (msg : List UInt8) (length : UInt16) :
    Except Fault (List UInt8) := do
  let msg ← store .outOfBounds msg offPayloadSize (le16 length)
  if session.v2.sessionState = .active ∧ session.v2.integrityAlg ≠ integrityNone then
    let (msg, trailerLength) ← writeTrailer K intf session msg length
    load .outOfBounds msg 0 (offPayload + length.toNat + trailerLength)
  else load .outOfBounds msg 0 (offPayload + length.toNat)

/-- `buildV2xMsg`: the message in its buffer, and the payload length that it leaves behind. `length`
is the payload length that the caller has set; `junk` is what a reallocation finds in the new
cells. -/
def writeV2xMsg (intf : Intf) (bridgePossible : Bool) (session : Session) (payload : V2Payload)
    (length : UInt16) (seq : UInt8) (iv : Block) (junk : ℕ → UInt8) :
    Except Fault (List UInt8 × UInt16) := do
  let msg ← writeHeader session (payloadType payload) (List.replicate (allocated length) 0)
  let (msg, length) ← writePayload intf bridgePossible seq payload length msg
  let (msg, length) ← writeEncrypted K session iv junk msg length
  let packet ← finishMsg K intf session msg length
  return (packet, length)

/-! ### The packet lies inside the buffer -/

/-- The session header up to the payload size. -/
def headerStart (session : Session) (type : UInt8) : List UInt8 :=
  (rmcpHdr ++ sessionHeader session type 0).take offPayloadSize

theorem header_eq (session : Session) (type : UInt8) (length : UInt16) :
    rmcpHdr ++ sessionHeader session type length = headerStart session type ++ le16 length := by
  unfold headerStart sessionHeader
  split_ifs <;> rfl

@[simp] theorem length_headerStart (session : Session) (type : UInt8) :
    (headerStart session type).length = offPayloadSize := by
  unfold headerStart sessionHeader
  split_ifs <;> rfl

section
variable {K : Primitives} {session : Session} {length : UInt16}

theorem except_ok_bind {α β : Type} (a : α) (f : α → Except Fault β) : (Except.ok a >>= f) = f a :=
  rfl

theorem writeHeader_eq (session : Session) (type : UInt8) (n : ℕ) :
    writeHeader session type (List.replicate (offPayload + n) 0) =
      .ok (headerStart session type ++ le16 0 ++ List.replicate n 0) := by
  have hbuf : List.replicate (offPayload + n) (0 : UInt8) =
      [0, 0, 0, 0, 0, 0, 0, 0, 0, 0, 0, 0, 0, 0, 0, 0] ++ List.replicate n 0 := by
    rw [List.replicate_add]
    rfl
  rw [hbuf]
  generalize List.replicate n (0 : UInt8) = rest
  unfold writeHeader headerStart sessionHeader
  by_cases ha : session.v2.sessionState = .active
  · simp [ha, store, except_ok_bind, rmcpHdr, offAuthtype, offPayloadType, offSessionId,
      offSequenceNum, offPayloadSize, le32, le16]
  · simp [ha, store, except_ok_bind, rmcpHdr, offAuthtype, offPayloadType,
      offPayloadSize, le32, le16]

/-- What the callers promise about the payload length: it is that of the request without envelopes
or that of the message, and for serial over LAN at least the number of characters. -/
def Room (payload : V2Payload) (length : UInt16) : Prop :=
  match payload with
  | .ipmi req => length.toNat = req.data.length + 7
  | .openRequest m | .rakp1 m | .rakp3 m => length = UInt16.ofNat m.length
  | .sol p => p.data.length ≤ length.toNat

theorem emits_solPayload (p : SolPacket) :
    Emits .outOfBounds (putSolPayloadWireRep p) [] () (getSolPayloadWireRep p) :=
  (emits_put _).bind <| (emits_put _).bind <| (emits_put _).bind <| (emits_put _).bind <|
    emits_puts p.data

theorem written_take (head xs rest : List UInt8) (n : ℕ) :
    head ++ xs ++ rest = head ++ xs.take n ++ (xs.drop n ++ rest) := by
  conv_lhs => rw [← List.take_append_drop n xs]
  simp only [List.append_assoc]

theorem load_prefix {e : Fault} (m : List UInt8) {n : ℕ} (hn : n ≤ m.length) :
    load e m 0 n = .ok (m.take n) := by
  rw [load, if_pos (by omega), List.drop_zero]

theorem copyMessage_eq {m : List UInt8} (hm : length = UInt16.ofNat m.length)
    {head rest : List UInt8} (hhead : head.length = offPayload)
    (hrest : rest.length = length.toNat + 66) :
    copyMessage m length (head ++ rest) =
        .ok (head ++ m.take length.toNat ++ rest.drop length.toNat, length) ∧
      (m.take length.toNat).length = length.toNat := by
  have hle : length.toNat ≤ m.length := by
    rw [hm, UInt16.toNat_ofNat']
    exact Nat.mod_le _ _
  have htake : (m.take length.toNat).length = length.toNat := List.length_take_of_le hle
  have hfit : (m.take length.toNat).length ≤ rest.length := by omega
  have hstore := store_behind Fault.outOfBounds head hfit
  rw [hhead, htake] at hstore
  refine ⟨?_, htake⟩
  rw [copyMessage, load_prefix m hle, except_ok_bind, hstore]
  rfl

/-- **The payload behind the header.** There is room for the envelopes, and at least fifty bytes are
left. -/
theorem writePayload_eq (intf : Intf) (bp : Bool) (seq : UInt8) {payload : V2Payload}
    (hroom : Room payload length) {head rest : List UInt8} (hhead : head.length = offPayload)
    (hrest : rest.length = length.toNat + 66) :
    ∃ len rest', wireLength intf bp payload = .ok len ∧
      writePayload intf bp seq payload length (head ++ rest) =
        .ok (head ++ (wireRep intf bp seq payload).take len.toNat ++ rest', len) ∧
      ((wireRep intf bp seq payload).take len.toNat).length = len.toNat ∧
      len.toNat + rest'.length = length.toNat + 66 ∧ len.toNat ≤ length.toNat + 16 := by
  have hleft : length.toNat + (rest.drop length.toNat).length = length.toNat + 66 := by
    rw [List.length_drop]
    omega
  cases payload with
  | openRequest m =>
    obtain ⟨hrun, htake⟩ := copyMessage_eq hroom hhead hrest
    exact ⟨length, _, congrArg _ hroom.symm, hrun, htake, hleft, by omega⟩
  | rakp1 m =>
    obtain ⟨hrun, htake⟩ := copyMessage_eq hroom hhead hrest
    exact ⟨length, _, congrArg _ hroom.symm, hrun, htake, hleft, by omega⟩
  | rakp3 m =>
    obtain ⟨hrun, htake⟩ := copyMessage_eq hroom hhead hrest
    exact ⟨length, _, congrArg _ hroom.symm, hrun, htake, hleft, by omega⟩
  | sol p =>
    have hp := p.data_le
    have hroom : p.data.length ≤ length.toNat := hroom
    have hlen : (getSolPayloadWireRep p).length = p.data.length + 4 := by
      simp [getSolPayloadWireRep]
    have hnum : (UInt16.ofNat (p.data.length + 4)).toNat = p.data.length + 4 := by
      rw [UInt16.toNat_ofNat', Nat.mod_eq_of_lt]
      unfold bufSize at hp
      omega
    have hrun := (emits_solPayload p).run head rest (by omega)
    have hall : (getSolPayloadWireRep p).take (p.data.length + 4) = getSolPayloadWireRep p :=
      List.take_of_length_le (by omega)
    refine ⟨_, rest.drop (getSolPayloadWireRep p).length, rfl, ?_, ?_, ?_, ?_⟩
    · rw [writePayload, ← hhead, hrun, except_ok_bind]
      simp only [wireRep, hnum, hall]
      rfl
    · simp only [wireRep, hnum, hall, hlen]
    · rw [hnum, List.length_drop]
      omega
    · rw [hnum]
      omega
  | ipmi req =>
    have hroom : length.toNat = req.data.length + 7 := hroom
    have hlt := length.toNat_lt
    have hlvl := bridgedRequest_le intf bp
    have hlen := length_getIpmiPayloadWireRep intf bp req seq seq
    have hrun := (emits_ipmiPayload (t := []) intf bp req seq seq length).run head rest
      (by omega)
    set bytes := getIpmiPayloadWireRep intf bp req seq seq
    set len := length + UInt16.ofNat (8 * bridgedRequest intf bp) with hl
    have hnum : len.toNat ≤ bytes.length := by
      rw [hl, UInt16.toNat_add, UInt16.toNat_ofNat']
      omega
    have hw : wireLength intf bp (.ipmi req) = .ok len := by
      have hof : UInt16.ofNat (req.data.length + 7) = length := by
        rw [← hroom, UInt16.ofNat_toNat]
      rw [wireLength, if_neg (by omega), hof]
    refine ⟨len, bytes.drop len.toNat ++ rest.drop bytes.length, hw, ?_, ?_, ?_, ?_⟩
    · rw [writePayload, ← hhead, hrun, except_ok_bind, written_take _ _ _ len.toNat]
      rfl
    · exact List.length_take_of_le hnum
    · rw [List.length_append, List.length_drop, List.length_drop]
      omega
    · omega

/-- The encryption of the payload, with what it leaves of the payload length. -/
theorem encryptInPlace_eq (K : Primitives) (session : Session) {head input rest : List UInt8}
    (iv : Block) (hhead : head.length = offPayload) (hinput : input.length = length.toNat)
    (hrest : 32 ≤ rest.length) :
    encryptInPlace K session iv (head ++ input ++ rest) length =
      (encryptPayload K session.v2.cryptAlg session.v2.k2 input iv.val).map fun r =>
        (head ++ r.1 ++ rest.drop (r.1.length - input.length), r.2) := by
  have hlt := length.toNat_lt
  by_cases hn : session.v2.cryptAlg = cryptNone
  · have hof : UInt16.ofNat input.length = length := by rw [hinput, UInt16.ofNat_toNat]
    rw [encryptInPlace, if_pos hn, encryptPayload, if_pos hn, hof]
    simp [Except.map, pure, Except.pure]
  · by_cases hc : session.v2.cryptAlg = cryptAesCbc
    · have hload := load_at Fault.outOfBounds head input rest
      have hiv : iv.val.length = blockSize := iv.property
      have hmod : (pad input).length % 16 = 0 := by rw [length_pad]; exact paddedLength_mod _
      set enc := K.cbcEncrypt (session.v2.k2.take 16) iv.val (pad input) with henc
      have hlen : enc.length = paddedLength input.length := by
        rw [henc, K.length_cbcEncrypt iv.property hmod, length_pad]
      have hpad := padLength_le input.length
      have hfit : (iv.val ++ enc).length ≤ (input ++ rest).length := by
        rw [List.length_append, List.length_append, hiv, hlen]
        unfold paddedLength blockSize
        omega
      have hfit1 : iv.val.length ≤ (input ++ rest).length := by
        rw [List.length_append] at hfit
        omega
      have hfit2 : enc.length ≤ ((input ++ rest).drop iv.val.length).length := by
        rw [List.length_append] at hfit
        rw [List.length_drop]
        omega
      have h1 := store_behind Fault.outOfBounds head hfit1
      have h2 := store_behind Fault.outOfBounds (head ++ iv.val) hfit2
      have hdrop : ((input ++ rest).drop iv.val.length).drop enc.length =
          rest.drop ((iv.val ++ enc).length - input.length) := by
        have hge : input.length ≤ iv.val.length + enc.length := by
          rw [hlen]
          unfold paddedLength
          omega
        rw [List.drop_drop, List.drop_append, List.drop_eq_nil_of_le hge, List.nil_append,
          List.length_append]
      rw [hhead, hinput] at hload
      rw [hhead, ← List.append_assoc] at h1
      have hoff : offPayload + blockSize = (head ++ iv.val).length := by
        rw [List.length_append, hhead, hiv]
      simp only [encryptInPlace, encryptPayload, if_neg hn, if_neg (not_not_intro hc), hload,
        except_ok_bind, h1, hoff, ← henc, h2, hdrop,
        if_neg (show ¬ 0xffff < input.length by omega), Except.map, ← List.append_assoc]
      rfl
    · rw [encryptInPlace, if_neg hn, if_pos hc, encryptPayload, if_neg hn, if_pos hc]
      rfl

theorem length_encryptPayload_le {input iv out : List UInt8} {alg : UInt8} {key : List UInt8}
    {new : UInt16} (hiv : iv.length = 16) (hinput : input.length < 65536)
    (h : encryptPayload K alg key input iv = .ok (out, new)) :
    new.toNat ≤ out.length ∧ input.length ≤ out.length ∧ out.length ≤ input.length + 32 := by
  have hp := padLength_le input.length
  unfold encryptPayload at h
  split_ifs at h
  · obtain ⟨rfl, rfl⟩ := Prod.mk.inj (Except.ok.inj h)
    rw [UInt16.toNat_ofNat', Nat.mod_eq_of_lt hinput]
    omega
  · obtain ⟨rfl, rfl⟩ := Prod.mk.inj (Except.ok.inj h)
    have hmod : (pad input).length % 16 = 0 := by rw [length_pad]; exact paddedLength_mod _
    rw [List.length_append, K.length_cbcEncrypt hiv hmod, length_pad, hiv, UInt16.toNat_ofNat']
    unfold blockSize paddedLength
    refine ⟨Nat.mod_le _ _, ?_, ?_⟩ <;> omega

/-- **The encrypted payload in its buffer**, as `encryptPayload` has it: enough is left for the
trailer, whether or not the buffer was reallocated. -/
theorem writeEncrypted_eq {head input rest out : List UInt8} {new : UInt16} (iv : Block)
    (junk : ℕ → UInt8) (hactive : session.v2.sessionState = .active)
    (hhead : head.length = offPayload) (hinput : input.length = length.toNat)
    (hrest : 50 ≤ rest.length)
    (h : encryptPayload K session.v2.cryptAlg session.v2.k2 input iv.val = .ok (out, new)) :
    ∃ rest', writeEncrypted K session iv junk (head ++ input ++ rest) length =
        .ok (head ++ out.take new.toNat ++ rest', new) ∧
      (out.take new.toNat).length = new.toNat ∧ 37 ≤ rest'.length := by
  have hlt := length.toNat_lt
  have hrun := encryptInPlace_eq K session iv hhead hinput (by omega : 32 ≤ rest.length)
  obtain ⟨hnew, hle, hout⟩ := length_encryptPayload_le iv.property (by omega) h
  have htake : (out.take new.toNat).length = new.toNat := List.length_take_of_le hnew
  rw [h] at hrun
  have hrun : encryptInPlace K session iv (head ++ input ++ rest) length =
      .ok (head ++ out ++ rest.drop (out.length - input.length), new) := hrun
  rw [written_take head out _ new.toNat] at hrun
  have hcond : writeEncrypted K session iv junk (head ++ input ++ rest) length =
      (encryptInPlace K session iv (head ++ input ++ rest) length) >>= fun r =>
        pure (if r.2 ≠ length then resize r.1 (reallocated r.2) junk else r.1, r.2) := by
    rw [writeEncrypted, if_pos hactive]
  rw [hcond, hrun, except_ok_bind]
  by_cases hne : new ≠ length
  · have hkeep : (head ++ out.take new.toNat).length ≤ reallocated new := by
      rw [List.length_append, htake, hhead]
      unfold reallocated
      omega
    obtain ⟨rest', hresize, hlen⟩ := resize_append (head ++ out.take new.toNat)
      (out.drop new.toNat ++ rest.drop (out.length - input.length)) hkeep junk
    refine ⟨rest', ?_, htake, ?_⟩
    · simp only [if_pos hne, hresize]
      rfl
    · rw [hlen, List.length_append, htake, hhead]
      unfold reallocated maxMdSize
      omega
  · refine ⟨out.drop new.toNat ++ rest.drop (out.length - input.length), ?_, htake, ?_⟩
    · simp only [if_neg hne]
      rfl
    · have heq : new.toNat = length.toNat := by rw [not_not.mp hne]
      rw [List.length_append, List.length_drop, List.length_drop]
      omega

theorem integrityPadSize_le (intf : Intf) (n : ℕ) : integrityPadSize intf n ≤ 3 := by
  unfold integrityPadSize
  dsimp only
  split_ifs <;> omega

theorem keyedHash_ok {alg : UInt8} {key data mac : List UInt8}
    (h : keyedHash K alg key data = .ok mac) :
    mac.length ≤ 32 ∧ ∀ n, integrityAuthcodeLength alg = some n → n ≤ mac.length := by
  unfold keyedHash at h
  split at h
  · rename_i a ha
    obtain rfl := Except.ok.inj h
    rw [K.length_hmac]
    unfold algorithmFor at ha
    unfold integrityAuthcodeLength
    refine ⟨by cases a <;> decide, fun n hn => ?_⟩
    split_ifs at ha hn <;> simp_all [Algorithm.authcodeLength, Algorithm.digestLength] <;> grind
  · cases h

theorem length_integrityPad (intf : Intf) (n : ℕ) :
    (integrityPad intf n).length = integrityPadSize intf n + 2 := by
  simp [integrityPad]

/-- The pad, its length and the next header are three stores side by side. -/
theorem writePad_eq (intf : Intf) {covered rest : List UInt8}
    (hcovered : covered.length = 12 + length.toNat) (hrest : 5 ≤ rest.length) :
    writePad intf (rmcpHdr ++ covered ++ rest) length =
      .ok (rmcpHdr ++ covered ++ integrityPad intf covered.length ++
        rest.drop (integrityPad intf covered.length).length) := by
  have hpad := integrityPadSize_le intf (12 + length.toNat)
  have hlen := length_integrityPad intf (12 + length.toNat)
  have hstart : offPayload + length.toNat = (rmcpHdr ++ covered).length := by
    rw [List.length_append, hcovered, ← Nat.add_assoc]
    rfl
  have hfit : (integrityPad intf (12 + length.toNat)).length ≤ rest.length := by omega
  set n := integrityPadSize intf (12 + length.toNat) with hn
  have h12 : ∀ m : List UInt8,
      (store Fault.outOfBounds m (offPayload + length.toNat + n) [UInt8.ofNat n] >>= fun m =>
        store Fault.outOfBounds m (offPayload + length.toNat + n + 1) [0x07]) =
          store Fault.outOfBounds m (offPayload + length.toNat + n) [UInt8.ofNat n, 0x07] :=
    fun m => store_store Fault.outOfBounds m _ [UInt8.ofNat n] [0x07]
  have h01 := store_store Fault.outOfBounds (rmcpHdr ++ covered ++ rest)
    (offPayload + length.toNat) (List.replicate n 0xff) [UInt8.ofNat n, 0x07]
  rw [List.length_replicate] at h01
  rw [hcovered, ← store_behind Fault.outOfBounds (rmcpHdr ++ covered) hfit, ← hstart]
  simp only [writePad, ← hn, h12]
  exact h01

/-- The digest fits behind the pad, and the buffer then starts with the packet. -/
theorem writeAuthcode_eq (K : Primitives) (session : Session) (covered : List UInt8)
    {rest : List UInt8} (hrest : 32 ≤ rest.length) :
    (writeAuthcode K session (rmcpHdr ++ covered ++ rest) covered.length >>= fun r =>
      load .outOfBounds r.1 0 (offAuthtype + covered.length + r.2)) =
    (keyedHash K session.v2.integrityAlg (session.v2.k1.take session.v2.k1Len) covered >>=
      fun mac =>
      match integrityAuthcodeLength session.v2.integrityAlg with
      | none => throw .assertFailed
      | some authLength => return rmcpHdr ++ covered ++ mac.take authLength) := by
  have hload := load_at Fault.outOfBounds rmcpHdr covered rest
  have hend : offAuthtype + covered.length = (rmcpHdr ++ covered).length := by
    rw [List.length_append]
    rfl
  have hoff : rmcpHdr.length = offAuthtype := rfl
  rw [hoff] at hload
  simp only [writeAuthcode, hload, except_ok_bind, bind_assoc]
  cases hmac : keyedHash K session.v2.integrityAlg
    (session.v2.k1.take session.v2.k1Len) covered with
  | error f => rfl
  | ok mac =>
    obtain ⟨hmac32, hauth⟩ := keyedHash_ok hmac
    have hfit : mac.length ≤ rest.length := by omega
    have hstore := store_behind Fault.outOfBounds (rmcpHdr ++ covered) hfit
    simp only [except_ok_bind, hend, hstore]
    cases hn : integrityAuthcodeLength session.v2.integrityAlg with
    | none => rfl
    | some authLength =>
      have hle := hauth authLength hn
      have hfit : (rmcpHdr ++ covered).length + authLength ≤
          (rmcpHdr ++ covered ++ (mac ++ rest.drop mac.length)).length := by
        simp only [List.length_append]
        omega
      show load Fault.outOfBounds _ 0 ((rmcpHdr ++ covered).length + authLength) = _
      rw [List.append_assoc (rmcpHdr ++ covered), load_prefix _ hfit, List.take_length_add_append,
        List.take_append_of_le_length hle]
      rfl

/-- **The trailer in its buffer.** -/
theorem writeTrailer_eq (intf : Intf) {covered rest : List UInt8}
    (hcovered : covered.length = 12 + length.toNat) (hrest : 37 ≤ rest.length) :
    (writeTrailer K intf session (rmcpHdr ++ covered ++ rest) length >>= fun r =>
      load .outOfBounds r.1 0 (offPayload + length.toNat + r.2)) =
        sessionTrailer K intf session covered >>= fun trailer =>
          pure (rmcpHdr ++ covered ++ trailer) := by
  have hpad := integrityPadSize_le intf (12 + length.toNat)
  have hlen := length_integrityPad intf (12 + length.toNat)
  rw [← hcovered] at hpad hlen
  have hsum : 12 + length.toNat + integrityPadSize intf (12 + length.toNat) + 2 =
      (covered ++ integrityPad intf covered.length).length := by
    rw [List.length_append, hlen, hcovered]
    omega
  have hroom : 32 ≤ (rest.drop (integrityPad intf covered.length).length).length := by
    rw [List.length_drop]
    omega
  have hcode := writeAuthcode_eq K session (covered ++ integrityPad intf covered.length) hroom
  have htotal : ∀ k, offPayload + length.toNat +
      (integrityPadSize intf (12 + length.toNat) + 2 + k) =
      offAuthtype + (covered ++ integrityPad intf covered.length).length + k := by
    intro k
    rw [← hsum]
    unfold offPayload offAuthtype
    omega
  simp only [writeTrailer, writePad_eq intf hcovered (by omega : 5 ≤ rest.length), except_ok_bind,
    bind_assoc, pure_bind, hsum, htotal]
  rw [← List.append_assoc] at hcode
  rw [hcode, sessionTrailer]
  simp only [bind_assoc]
  refine congrArg _ (funext fun mac => ?_)
  cases integrityAuthcodeLength session.v2.integrityAlg with
  | none => rfl
  | some authLength => simp only [pure_bind, List.append_assoc]

/-- The payload length that is left behind. -/
def lengthAfter (session : Session) (len : UInt16) : UInt16 :=
  if session.v2.sessionState = .active ∧ session.v2.cryptAlg ≠ cryptNone then
    UInt16.ofNat (blockSize + paddedLength len.toNat)
  else len

theorem encryptPayload_length {alg : UInt8} {key input iv out : List UInt8} {new : UInt16}
    (h : encryptPayload K alg key input iv = .ok (out, new)) :
    new = if alg ≠ cryptNone then UInt16.ofNat (blockSize + paddedLength input.length)
      else UInt16.ofNat input.length := by
  unfold encryptPayload at h
  split_ifs at h with h1 h2 h3
  · rw [if_neg (not_not_intro h1)]
    exact (Prod.mk.inj (Except.ok.inj h)).2.symm
  · rw [if_pos h1]
    exact (Prod.mk.inj (Except.ok.inj h)).2.symm

theorem store_payloadSize (session : Session) (type : UInt8) (len : UInt16) (rest : List UInt8) :
    store Fault.outOfBounds (headerStart session type ++ le16 0 ++ rest) offPayloadSize (le16 len) =
      .ok (rmcpHdr ++ sessionHeader session type len ++ rest) := by
  have h := store_at Fault.outOfBounds (headerStart session type) rest
    (show (le16 0).length = (le16 len).length from rfl)
  rw [length_headerStart] at h
  rw [h, header_eq]

theorem length_sessionHeader (session : Session) (type : UInt8) (len : UInt16) :
    (sessionHeader session type len).length = 12 := by
  unfold sessionHeader
  split_ifs <;> rfl

/-- The packet behind the encrypted payload. -/
def packetBehind (K : Primitives) (intf : Intf) (session : Session) (covered : List UInt8) :
    Except Fault (List UInt8) :=
  if session.v2.sessionState = .active ∧ session.v2.integrityAlg ≠ integrityNone then
    sessionTrailer K intf session covered >>= fun trailer => pure (rmcpHdr ++ covered ++ trailer)
  else pure (rmcpHdr ++ covered)

theorem finishMsg_eq (intf : Intf) (session : Session) (type : UInt8) {len : UInt16}
    {body rest : List UInt8} (hbody : body.length = len.toNat) (hrest : 37 ≤ rest.length) :
    finishMsg K intf session (headerStart session type ++ le16 0 ++ body ++ rest) len =
      packetBehind K intf session (sessionHeader session type len ++ body) := by
  have hcovered : (sessionHeader session type len ++ body).length = 12 + len.toNat := by
    rw [List.length_append, length_sessionHeader, hbody]
  have hstore := store_payloadSize session type len (body ++ rest)
  rw [← List.append_assoc, ← List.append_assoc, List.append_assoc rmcpHdr] at hstore
  rw [finishMsg, hstore, except_ok_bind, packetBehind]
  by_cases ht : session.v2.sessionState = .active ∧ session.v2.integrityAlg ≠ integrityNone
  · rw [if_pos ht, if_pos ht]
    exact writeTrailer_eq intf hcovered hrest
  · rw [if_neg ht, if_neg ht]
    have hload :=
      load_at Fault.outOfBounds [] (rmcpHdr ++ (sessionHeader session type len ++ body)) rest
    have htotal : offPayload + len.toNat =
        (rmcpHdr ++ (sessionHeader session type len ++ body)).length := by
      rw [List.length_append, hcovered, ← Nat.add_assoc]
      rfl
    rw [htotal]
    exact hload

theorem packetOf_active {intf : Intf} {session : Session} {type : UInt8} {written iv : List UInt8}
    {len : UInt16} (ha : session.v2.sessionState = .active) :
    packetOf K intf session type written len iv =
      encryptPayload K session.v2.cryptAlg session.v2.k2 (written.take len.toNat) iv >>= fun r =>
        packetBehind K intf session (sessionHeader session type r.2 ++ r.1.take r.2.toNat) := by
  rw [packetOf, if_pos ha]
  refine congrArg _ (funext fun r => ?_)
  by_cases hi : session.v2.integrityAlg = integrityNone
  · rw [packetBehind, if_neg (fun h => h.2 hi)]
    simp [hi]
  · rw [packetBehind, if_pos ⟨ha, hi⟩]
    simp [hi]

/-- **The packet in the buffer is the packet that is sent**, for every payload length that leaves
room. -/
theorem writeV2xMsg_eq (intf : Intf) (bp : Bool) (session : Session) {payload : V2Payload}
    (seq : UInt8) (iv : Block) (junk : ℕ → UInt8) (hroom : Room payload length) :
    ∃ len, wireLength intf bp payload = .ok len ∧
      writeV2xMsg K intf bp session payload length seq iv junk =
        packetOf K intf session (payloadType payload) (wireRep intf bp seq payload) len iv.val >>=
          fun packet => pure (packet, lengthAfter session len) := by
  let head := headerStart session (payloadType payload) ++ le16 0
  have hhead : head.length = offPayload := by
    rw [List.length_append, length_headerStart]
    rfl
  have halloc : allocated length = offPayload + (length.toNat + 66) := by
    unfold allocated offPayload maxMdSize
    omega
  obtain ⟨len, rest, hlen, hpay, htake, hsum, hle⟩ := writePayload_eq intf bp seq hroom hhead
    (List.length_replicate (n := length.toNat + 66) (a := (0 : UInt8)))
  refine ⟨len, hlen, ?_⟩
  have hstart : writeV2xMsg K intf bp session payload length seq iv junk =
      writeEncrypted K session iv junk
        (head ++ (wireRep intf bp seq payload).take len.toNat ++ rest) len >>= fun r =>
          finishMsg K intf session r.1 r.2 >>= fun packet => pure (packet, r.2) := by
    rw [writeV2xMsg, halloc, writeHeader_eq, except_ok_bind, hpay, except_ok_bind]
  rw [hstart]
  by_cases ha : session.v2.sessionState = .active
  · rw [packetOf_active ha]
    cases henc : encryptPayload K session.v2.cryptAlg session.v2.k2
        ((wireRep intf bp seq payload).take len.toNat) iv.val with
    | error f =>
      have hrun := encryptInPlace_eq K session iv hhead htake
        (by omega : 32 ≤ rest.length)
      rw [henc] at hrun
      rw [writeEncrypted, if_pos ha, hrun]
      rfl
    | ok r =>
      obtain ⟨out, new⟩ := r
      obtain ⟨rest', hrun, hout, hleft⟩ := writeEncrypted_eq iv junk ha hhead htake
        (by omega : 50 ≤ rest.length) henc
      have hnew : new = lengthAfter session len := by
        rw [encryptPayload_length henc, htake, UInt16.ofNat_toNat, lengthAfter]
        simp only [ha, true_and]
      rw [hrun, except_ok_bind, finishMsg_eq intf session _ hout hleft, except_ok_bind, hnew]
  · have hsame : lengthAfter session len = len := if_neg fun h => ha h.1
    rw [writeEncrypted, if_neg ha, pure_bind, finishMsg_eq intf session _ htake (by omega),
      packetOf,
      if_neg ha, packetBehind, if_neg (fun h => ha h.1), hsame, List.append_assoc]
    rfl

theorem packetOf_ne_outOfBounds (intf : Intf) (session : Session) (type : UInt8)
    (written iv : List UInt8) (len : UInt16) :
    packetOf K intf session type written len iv ≠ .error .outOfBounds := by
  have hhash : ∀ alg key data, keyedHash K alg key data ≠ .error .outOfBounds := by
    intro alg key data
    unfold keyedHash
    split <;> simp
  have htrailer : ∀ covered, sessionTrailer K intf session covered ≠ .error .outOfBounds := by
    intro covered h
    rw [sessionTrailer] at h
    rcases except_bind_error.mp h with h | ⟨mac, -, h⟩
    · exact hhash _ _ _ h
    · split at h <;> cases h
  have hbehind : ∀ covered, packetBehind K intf session covered ≠ .error .outOfBounds := by
    intro covered h
    unfold packetBehind at h
    split_ifs at h
    · rcases except_bind_error.mp h with h | ⟨trailer, -, h⟩
      · exact htrailer _ h
      · cases h
    · cases h
  intro h
  by_cases ha : session.v2.sessionState = .active
  · rw [packetOf_active ha] at h
    rcases except_bind_error.mp h with h | ⟨r, -, h⟩
    · unfold encryptPayload at h
      split_ifs at h <;> cases h
    · exact hbehind _ h
  · rw [packetOf, if_neg ha] at h
    cases h

end

/-- **The payload lengths that the callers of `buildV2xMsg` start from.** A request is built anew
for each try. A serial-over-LAN packet is not: when it is sent again, its payload length is what the
last build has left there. -/
inductive EntryLength : V2Payload → UInt16 → Prop
  | ipmi (req : Request) (h : req.data.length + 7 < 65536) :
      EntryLength (.ipmi req) (UInt16.ofNat (req.data.length + 7))
  | openRequest (m : List UInt8) : EntryLength (.openRequest m) (UInt16.ofNat m.length)
  | rakp1 (m : List UInt8) : EntryLength (.rakp1 m) (UInt16.ofNat m.length)
  | rakp3 (m : List UInt8) : EntryLength (.rakp3 m) (UInt16.ofNat m.length)
  | sol (p : SolPacket) : EntryLength (.sol p) (UInt16.ofNat p.data.length)
  | again {p : SolPacket} {length left : UInt16} {intf : Intf} {bp : Bool} {session : Session}
      {seq : UInt8} {iv : Block} {junk : ℕ → UInt8} {packet : List UInt8}
      (before : EntryLength (.sol p) length)
      (built : writeV2xMsg K intf bp session (.sol p) length seq iv junk = .ok (packet, left)) :
      EntryLength (.sol p) left

section
variable {K : Primitives} {payload : V2Payload} {length : UInt16}

theorem lengthAfter_ge (session : Session) {len : UInt16} (h : len.toNat ≤ 65000) :
    len.toNat ≤ (lengthAfter session len).toNat := by
  have hp := padLength_le len.toNat
  unfold lengthAfter
  split_ifs
  · rw [UInt16.toNat_ofNat']
    unfold paddedLength blockSize
    omega
  · exact Nat.le_refl _

theorem EntryLength.room (h : EntryLength K payload length) : Room payload length := by
  induction h with
  | ipmi req h =>
    show (UInt16.ofNat (req.data.length + 7)).toNat = req.data.length + 7
    rw [UInt16.toNat_ofNat', Nat.mod_eq_of_lt h]
  | openRequest m => rfl
  | rakp1 m => rfl
  | rakp3 m => rfl
  | sol p =>
    have hp := p.data_le
    show p.data.length ≤ (UInt16.ofNat p.data.length).toNat
    unfold bufSize at hp
    rw [UInt16.toNat_ofNat']
    omega
  | @again p length left intf bp session seq iv junk packet before built ih =>
    -- what is left is the length of the whole packet, encrypted or not
    have hp := p.data_le
    obtain ⟨len, hlen, hbuild⟩ := writeV2xMsg_eq (K := K) intf bp session seq iv junk ih
    rw [hbuild] at built
    obtain ⟨_, -, hleft⟩ := except_bind_ok.mp built
    obtain ⟨-, rfl⟩ := Prod.mk.inj (Except.ok.inj hleft)
    obtain rfl : UInt16.ofNat (p.data.length + 4) = len := Except.ok.inj hlen
    have hnum : (UInt16.ofNat (p.data.length + 4)).toNat = p.data.length + 4 := by
      unfold bufSize at hp
      rw [UInt16.toNat_ofNat']
      omega
    have hsmall : (UInt16.ofNat (p.data.length + 4)).toNat ≤ 65000 := by
      unfold bufSize at hp
      omega
    have hge := lengthAfter_ge session hsmall
    show p.data.length ≤ (lengthAfter session (UInt16.ofNat (p.data.length + 4))).toNat
    omega

/-- **No store is outside the buffer**: for every payload and every payload length that a caller
starts from, every bridging level, every pair of algorithms and every OEM setting. -/
theorem writeV2xMsg_stays_inside (h : EntryLength K payload length) (intf : Intf) (bp : Bool)
    (session : Session) (seq : UInt8) (iv : Block) (junk : ℕ → UInt8) :
    writeV2xMsg K intf bp session payload length seq iv junk ≠ .error .outOfBounds := by
  obtain ⟨len, -, hbuild⟩ := writeV2xMsg_eq (K := K) intf bp session seq iv junk h.room
  intro hfault
  rw [hbuild] at hfault
  rcases except_bind_error.mp hfault with hpacket | ⟨packet, -, hpure⟩
  · exact packetOf_ne_outOfBounds _ _ _ _ _ _ hpacket
  · cases hpure

/-- A request whose nine bytes, in two envelopes, are encrypted with the longest pad, under
HMAC-SHA256. -/
theorem writeV2xMsg_stays_inside_twice_bridged :
    let req : Request := { netfn := netfnApp, lun := bmcLun, cmd := 0x01, data := List.replicate 9 0 }
    let intf : Intf := { myAddr := 0x20, targetAddr := 0x72, transitAddr := 0x82, oem := some .icts }
    let v2 : V2Data :=
      { sessionState := .active, cryptAlg := cryptAesCbc, integrityAlg := integrityHmacSha256 }
    EntryLength (Primitives.tabled []) (.ipmi req) 16 ∧
      writeV2xMsg (Primitives.tabled []) intf true { v2 } (.ipmi req) 16 1 zeroBlock (fun _ => 0) ≠
        .error .outOfBounds := by
  intro req intf v2
  have h : EntryLength (Primitives.tabled []) (.ipmi req) 16 := .ipmi req (by decide)
  exact ⟨h, writeV2xMsg_stays_inside h intf true { v2 } 1 zeroBlock (fun _ => 0)⟩

end

end Ipmitool.Lanplus.Wire
