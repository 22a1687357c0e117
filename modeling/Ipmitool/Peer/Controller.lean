import Ipmitool.Lanplus.Packet

/-! # The model BMC

`tests/transport/Bmc.zig` and the `crypto.zig` beside it: the management controller that the RMCP+
transport is tested against. It has its own key schedule and its own packet format, written from the
specification and not from the transport, and it records a violation whenever a packet is not what
the specification asks for.

A reply is a list of bytes, an empty one for silence. The transcript is left out; what `fail` writes
into it is the list of violations. The arrays of the source that slices are cut from are modelled
where they can be too small: `plain_buf`, `decoded`, `out` and `block` have 1024 bytes, the buffer
of a response
512. The sensor of a personality is left out. -/

namespace Ipmitool.Peer.Controller

open Ipmitool.Lib Ipmitool.Lib.Bytes Ipmitool.Lib.Machine Ipmitool.Core.Types Ipmitool.Core.Network
open Ipmitool.Crypto.Mac Ipmitool.Crypto.Padding

variable (K : Primitives)

/-! ### The key schedule -/

/-- `Algorithm.fromAuthId`. -/
def fromAuthId (id : UInt8) : Option Algorithm :=
  if id = 0x01 then some .sha1
  else if id = 0x02 then some .md5
  else if id = 0x03 then some .sha256
  else none

/-- `Algorithm.fromIntegrityId`. -/
def fromIntegrityId (id : UInt8) : Option Algorithm :=
  if id = 0x01 then some .sha1
  else if id = 0x02 then some .md5
  else if id = 0x04 then some .sha256
  else none

/-- `confidentialityPadLength`. -/
def confidentialityPadLength (payloadLen : ℕ) : ℕ :=
  let mod := (payloadLen + 1) % 16
  if mod = 0 then 0 else 16 - mod

/-- `aesCbcEncrypt`. -/
def aesCbcEncrypt (key iv input : List UInt8) : List UInt8 :=
  Cbc.encrypt xorBytes (K.aesEnc key) 16 (input.length / 16) iv input

/-- `aesCbcDecrypt`. -/
def aesCbcDecrypt (key iv input : List UInt8) : List UInt8 :=
  Cbc.decrypt xorBytes (K.aesDec key) 16 (input.length / 16) iv input

/-- `Rakp`: what both sides of the exchange need. -/
structure Rakp where
  consoleId : UInt32
  bmcId : UInt32
  consoleRand : List UInt8
  bmcRand : List UInt8
  bmcGuid : List UInt8
  role : UInt8
  username : List UInt8
  passwordKey : List UInt8
  kg : Option (List UInt8)

/-- SIDm | SIDc | Rm | Rc | GUIDc | ROLEm | ULENGTHm | UNAMEm. -/
def Rakp.rakp2Input (r : Rakp) : List UInt8 :=
  le32 r.consoleId ++ le32 r.bmcId ++ r.consoleRand ++ r.bmcRand ++ r.bmcGuid ++
    [r.role, UInt8.ofNat r.username.length] ++ r.username

/-- Rc | SIDm | ROLEm | ULENGTHm | UNAMEm. -/
def Rakp.rakp3Input (r : Rakp) : List UInt8 :=
  r.bmcRand ++ le32 r.consoleId ++ [r.role, UInt8.ofNat r.username.length] ++ r.username

/-- Rm | SIDc | GUIDc. -/
def Rakp.rakp4Input (r : Rakp) : List UInt8 := r.consoleRand ++ le32 r.bmcId ++ r.bmcGuid

/-- Rm | Rc | ROLEm | ULENGTHm | UNAMEm. -/
def Rakp.sikInput (r : Rakp) : List UInt8 :=
  r.consoleRand ++ r.bmcRand ++ [r.role, UInt8.ofNat r.username.length] ++ r.username

/-- `Keys`: three arrays of 32 bytes with the lengths in use. -/
structure Keys where
  sik : List UInt8 := List.replicate 32 0
  sikLen : ℕ := 0
  k1 : List UInt8 := List.replicate 32 0
  k1Len : ℕ := 0
  k2 : List UInt8 := List.replicate 32 0
  k2Len : ℕ := 0

/-- An array of 32 zero bytes with a digest stored at its front. -/
def digestInto (mac : List UInt8) : List UInt8 := mac ++ List.replicate (32 - mac.length) 0

/-- `Keys.derive`: the SIK is keyed with Kg if there is one and with the password otherwise. -/
def Keys.derive (auth : Algorithm) (r : Rakp) : Keys :=
  let sik := K.hmac auth (r.kg.getD r.passwordKey) r.sikInput
  let k1 := K.hmac auth sik (List.replicate 20 0x01)
  let k2 := K.hmac auth sik (List.replicate 20 0x02)
  { sik := digestInto sik, sikLen := sik.length
    k1 := digestInto k1, k1Len := k1.length
    k2 := digestInto k2, k2Len := k2.length }

/-! ### The controller -/

/-- A command that gets special treatment. -/
structure Deaf where
  netfn : UInt8
  cmd : UInt8
  deriving DecidableEq

/-- One record of the cipher suite table. -/
structure Suite where
  id : UInt8
  auth : UInt8
  integrity : UInt8
  crypt : UInt8

/-- A command with a fixed answer. -/
structure Canned where
  netfn : UInt8
  cmd : UInt8
  ccode : UInt8 := 0
  data : List UInt8 := []

/-- `Personality`: everything the controller invents. -/
structure Personality where
  username : List UInt8 := []
  password : List UInt8 := []
  kg : Option (List UInt8) := none
  authTypes : UInt8 := 0x05
  v20 : Bool := true
  tempSessionId : UInt32 := 0x11223344
  sessionId : UInt32 := 0x0a0b0c0d
  inboundSeq : UInt32 := 0x51627384
  challenge : Block := zeroBlock
  bmcId : UInt32 := 0x5a6b7c8d
  bmcRand : Block := zeroBlock
  bmcGuid : Block := zeroBlock
  outboundSeqStart : UInt32 := 0x0a1b2c3d
  /-- The numbers of the datagrams that are not answered. -/
  drop : List ℕ := []
  /-- A command that is never answered. -/
  deaf : Option Deaf := none
  authcapCcode : UInt8 := 0
  authcapV2Ccode : UInt8 := 0
  challengeCcode : UInt8 := 0
  activateCcode : UInt8 := 0
  privlvlCcode : UInt8 := 0
  closeCcode : UInt8 := 0
  /-- A command that is answered once as a duplicate. -/
  dupOnce : Option Deaf := none
  openSessionStatus : UInt8 := 0
  openSessionAuthAlg : Option UInt8 := none
  rakp2Status : UInt8 := 0
  rakp4Status : UInt8 := 0
  corruptRakp2 : Bool := false
  corruptRakp4 : Bool := false
  cipherSuites : Option (List Suite) := none
  extra : List Canned := []
  fru : Option (List UInt8) := none
  solEnabled : Bool := false
  solNoAck : Bool := false
  solReplyData : List UInt8 := []

/-- Where the exchange stands. -/
inductive Stage where
  | presession
  | opened
  | rakp1
  | active
  deriving DecidableEq, Repr

/-- `V2`: the RMCP+ session. -/
structure V2 where
  state : Stage := .presession
  consoleId : UInt32 := 0
  authAlg : UInt8 := 0
  integrityAlg : UInt8 := 0
  cryptAlg : UInt8 := 0
  role : UInt8 := 0
  consoleRand : List UInt8 := List.replicate 16 0
  username : List UInt8 := []
  keys : Keys := {}
  seq : UInt32 := 0

/-- `V15`: the session of version 1.5. -/
structure V15 where
  active : Bool := false
  authtype : UInt8 := 0
  seq : UInt32 := 0
  lastSeq : UInt32 := 0

/-- What `fail` reports. -/
inductive Violation where
  | runt
  | tooShort
  | badPayloadLength
  | unknownIntegrityAlg
  | shortTrailer
  | badAuthcode
  | badCiphertextLength
  | badPadLength
  | badPadding
  | wrongSessionId
  | unsupportedPayloadType
  | unexpectedSol
  | shortOpenRequest
  | shortRakp1
  | wrongUsername
  | shortRakp3
  | badRakp3
  | shortMessage
  | badHeaderChecksum
  | badDataChecksum
  | wrongChallengeUsername
  | wrongChallenge
  | challengeNotZeroed
  | shortV15
  | wrongMessageLength
  | staleSequence
  | longResponse
  deriving DecidableEq, Repr

/-- The controller. -/
structure Bmc where
  p : Personality
  listenPort : UInt16 := 0
  received : ℕ := 0
  violations : List Violation := []
  v15 : V15 := {}
  v2 : V2 := {}
  dupFired : Bool := false
  solReplySent : Bool := false

/-- A program of the controller. -/
abbrev B := Prog Fault Bmc

/-- `fail`. -/
def fail (v : Violation) : B Unit := modify fun b => { b with violations := b.violations ++ [v] }

/-- Fail unless the condition holds. -/
def require (condition : Prop) [Decidable condition] (v : Violation) : B Unit :=
  if condition then pure () else fail v

/-- Store into the session. -/
def modifyV2 (f : V2 → V2) : B Unit := modify fun b => { b with v2 := f b.v2 }

/-- A key of twenty bytes, zero padded. -/
def keyOf (secret : List UInt8) : List UInt8 :=
  secret.take 20 ++ List.replicate (20 - secret.length) 0

/-- `kuid`. -/
def Bmc.kuid (b : Bmc) : List UInt8 := keyOf b.p.password

/-- `kgKey`. -/
def Bmc.kgKey (b : Bmc) : Option (List UInt8) := b.p.kg.map keyOf

/-- `rakpInputs`. -/
def Bmc.rakpInputs (b : Bmc) : Rakp where
  consoleId := b.v2.consoleId
  bmcId := b.p.bmcId
  consoleRand := b.v2.consoleRand
  bmcRand := b.p.bmcRand.val
  bmcGuid := b.p.bmcGuid.val
  role := b.v2.role
  username := b.v2.username
  passwordKey := b.kuid
  kg := b.kgKey

/-! ### Outbound packets -/

/-- The session encrypts what it sends. -/
def Bmc.encrypts (b : Bmc) : Prop := b.v2.state = .active ∧ b.v2.cryptAlg ≠ 0

/-- The session authenticates what it sends. -/
def Bmc.authenticates (b : Bmc) : Prop := b.v2.state = .active ∧ b.v2.integrityAlg ≠ 0

instance (b : Bmc) : Decidable b.encrypts := by unfold Bmc.encrypts; infer_instance

instance (b : Bmc) : Decidable b.authenticates := by unfold Bmc.authenticates; infer_instance

/-- The initialization vector is made of the sequence number. -/
def ivOf (seq : UInt32) : List UInt8 := le32 seq ++ List.replicate 11 0 ++ [0xa5]

/-- The payload with its pad and the pad length. -/
def padded (payload : List UInt8) : List UInt8 :=
  payload ++ padBytes (confidentialityPadLength payload.length) ++
    [UInt8.ofNat (confidentialityPadLength payload.length)]

/-- The payload as it goes on the wire. -/
def Bmc.wire (b : Bmc) (payload : List UInt8) : Except Fault (List UInt8) :=
  if b.encrypts then
    if 1024 < 16 + (padded payload).length then .error .outOfBounds
    else .ok (ivOf b.v2.seq ++ aesCbcEncrypt K (b.v2.keys.k2.take 16) (ivOf b.v2.seq)
      (padded payload))
  else .ok payload

/-- The session header: class, type and flags, session id, sequence number and payload length. -/
def Bmc.header (b : Bmc) (ptype : UInt8) (length : ℕ) : List UInt8 :=
  [0x06, ptype ||| (if b.encrypts then 0x80 else 0) ||| (if b.authenticates then 0x40 else 0)] ++
    le32 (if b.v2.state = .active then b.v2.consoleId else 0) ++
    le32 (if b.v2.state = .active then b.v2.seq else 0) ++ le16 (UInt16.ofNat length)

/-- The bytes that pad the covered ones, with their number and the next header. -/
def trailerPad (length : ℕ) : List UInt8 :=
  let before := 12 + length + 2
  let pad := if before % 4 = 0 then 0 else 4 - before % 4
  List.replicate pad 0xff ++ [UInt8.ofNat pad, 0x07]

/-- The session trailer behind the covered bytes. -/
def Bmc.trailer (b : Bmc) (covered : List UInt8) (length : ℕ) : Except Fault (List UInt8) :=
  if b.authenticates then
    match fromIntegrityId b.v2.integrityAlg with
    | none => .error .nullUnwrap
    | some alg =>
      .ok (trailerPad length ++ (K.hmac alg (b.v2.keys.k1.take b.v2.keys.k1Len)
        (covered ++ trailerPad length)).take alg.authcodeLength)
  else .ok []

/-- The next sequence number: zero is skipped. -/
def nextSeq (n : UInt32) : UInt32 := if n + 1 = 0 then n + 1 + 1 else n + 1

/-- `sendV2`. -/
def sendV2 (ptype : UInt8) (payload : List UInt8) : B (List UInt8) := do
  let b ← get
  let wire ← liftM (b.wire K payload)
  if 65536 ≤ wire.length then throw .overflow
  let covered := b.header ptype wire.length ++ wire
  let trailer ← liftM (b.trailer K covered wire.length)
  if b.v2.state = .active then modifyV2 fun v => { v with seq := nextSeq v.seq }
  return rmcpHdr ++ covered ++ trailer

/-! ### Messages -/

/-- `Message`: an IPMI message taken apart. -/
structure Message where
  rsAddr : UInt8
  netfn : UInt8
  rsLun : UInt8
  csum1Ok : Bool
  rqAddr : UInt8
  rqSeq : UInt8
  rqLun : UInt8
  cmd : UInt8
  data : List UInt8
  csum2Ok : Bool
  deriving DecidableEq

/-- `parseMessage`. -/
def parseMessage (bytes : List UInt8) : Option Message :=
  if bytes.length < 7 then none
  else some
    { rsAddr := bytes.getD 0 0
      netfn := bytes.getD 1 0 >>> 2
      rsLun := bytes.getD 1 0 &&& 3
      csum1Ok := bytes.getD 2 0 == csum (bytes.take 2)
      rqAddr := bytes.getD 3 0
      rqSeq := bytes.getD 4 0 >>> 2
      rqLun := bytes.getD 4 0 &&& 3
      cmd := bytes.getD 5 0
      data := (bytes.drop 6).dropLast
      csum2Ok := bytes.getLastD 0 == csum (bytes.drop 3).dropLast }

/-- `Response`: the completion code and the data of an answer. -/
structure Answer where
  ccode : UInt8 := 0
  data : List UInt8 := []

/-- An answer to a message as a message of its own; both checksums are appended. -/
def responseMessage (rqAddr rsAddr : UInt8) (m : Message) (r : Answer) : List UInt8 :=
  let front := [rqAddr, (m.netfn ||| 1) <<< 2 ||| m.rqLun]
  let rest := [rsAddr, m.rqSeq <<< 2 ||| m.rsLun, m.cmd, r.ccode] ++ r.data
  front ++ [csum front] ++ rest ++ [csum rest]

/-- `isDeaf`. -/
def Bmc.isDeaf (b : Bmc) (m : Message) : Bool :=
  b.p.deaf == some { netfn := m.netfn, cmd := m.cmd }

/-! ### Commands -/

/-- The records of the cipher suites. -/
def suiteRecords (list : List Suite) : List UInt8 :=
  list.flatMap fun cs => [0xc0, cs.id, cs.auth, cs.integrity, cs.crypt]

/-- The commands on the FRU image. -/
def dispatchFru (image : List UInt8) (m : Message) : Except Fault Answer :=
  if m.cmd = 0x10 then
    if 65536 ≤ image.length then .error .overflow
    else .ok { data := le16 (UInt16.ofNat image.length) ++ [0x00] }
  else if m.cmd = 0x11 then
    if m.data.length < 4 then .ok { ccode := 0xc7 }
    else
      let off := (ofLe16 (m.data.getD 1 0) (m.data.getD 2 0)).toNat
      if image.length ≤ off then .ok { ccode := 0xc9 }
      else
        let n := min (m.data.getD 3 0).toNat (image.length - off)
        .ok { data := UInt8.ofNat n :: (image.drop off).take n }
  else .ok { ccode := 0xc1 }

/-- Get Channel Authentication Capabilities. -/
def authCapabilities (p : Personality) (m : Message) : Answer :=
  let askedV20 := 1 ≤ m.data.length ∧ m.data.getD 0 0 &&& 0x80 ≠ 0
  if p.authcapCcode ≠ 0 then { ccode := p.authcapCcode }
  else if askedV20 ∧ p.authcapV2Ccode ≠ 0 then { ccode := p.authcapV2Ccode }
  else if askedV20 ∧ p.v20 then { data := [0x01, p.authTypes ||| 0x80, 0x04, 0x03, 0, 0, 0, 0] }
  else { data := [0x01, p.authTypes, 0x04, 0x01, 0, 0, 0, 0] }

/-- Get Channel Cipher Suites: sixteen bytes of the records. -/
def channelCipherSuites (p : Personality) (m : Message) : Except Fault Answer :=
  match p.cipherSuites with
  | none => .ok { ccode := 0xc1 }
  | some list =>
    if m.data.length < 3 then .ok { ccode := 0xc7 }
    else if 1024 < (suiteRecords list).length then .error .outOfBounds
    else .ok { data := (m.data.getD 0 0 &&& 0x0f) ::
      ((suiteRecords list).drop ((m.data.getD 2 0 &&& 0x3f).toNat * 16)).take 16 }

/-- Get Session Challenge. -/
def sessionChallenge (m : Message) : B Answer := do
  let b ← get
  require (17 ≤ m.data.length → ((m.data.drop 1).take 16).takeWhile (· ≠ 0) = b.p.username)
    .wrongChallengeUsername
  if b.p.challengeCcode ≠ 0 then return { ccode := b.p.challengeCcode }
  return { data := le32 b.p.tempSessionId ++ b.p.challenge.val }

/-- Activate Session. -/
def activateSession (m : Message) : B Answer := do
  let b ← get
  if b.p.activateCcode ≠ 0 then return { ccode := b.p.activateCcode }
  if m.data.length < 22 then return { ccode := 0xc7 }
  let challenge := (m.data.drop 2).take 16
  require (m.data.getD 0 0 ≠ 0x05 → challenge = b.p.challenge.val) .wrongChallenge
  require (m.data.getD 0 0 = 0x05 → challenge.all (· == 0) = true) .challengeNotZeroed
  return { data := m.data.getD 0 0 :: le32 b.p.sessionId ++ le32 b.p.inboundSeq ++ [0x04] }

/-- Activate Payload. -/
def activatePayload (b : Bmc) (m : Message) : Answer :=
  if b.p.solEnabled = false then { ccode := 0xc1 }
  else if m.data.length ≠ 6 ∨ m.data.getD 0 0 ≠ 1 ∨ m.data.getD 1 0 = 0 ∨ 15 < m.data.getD 1 0 then
    { ccode := 0xc7 }
  else { data := [0, 0, 0, 0, 64, 0, 64, 0] ++ le16 b.listenPort ++ [0, 0] }

/-- Get Device ID. -/
def deviceId : List UInt8 :=
  [0x20, 0x81, 0x02, 0x09, 0x02, 0xbf, 0x57, 0x01, 0x00, 0x0b, 0x09, 0x00, 0x00, 0x00, 0x00]

/-- Send Message: the message inside is answered by `inner`, and its answer travels in the data. -/
def sendMessage (inner : Message → B Answer) (m : Message) : B Answer := do
  if m.data.length < 8 then return { ccode := 0xc7 }
  match parseMessage (m.data.drop 1) with
  | none => return { ccode := 0xc7 }
  | some message =>
    require (message.csum1Ok = true) .badHeaderChecksum
    require (message.csum2Ok = true) .badDataChecksum
    let r ← inner message
    if 512 < 8 + r.data.length then throw .outOfBounds
    return { data := responseMessage message.rqAddr message.rsAddr message r }

/-- The commands of network function App; `nested` answers the message in a Send Message, as long as
the nesting is not too deep. -/
def dispatchApp (nested : Option (Message → B Answer)) (m : Message) : B Answer := do
  let b ← get
  if m.cmd = 0x48 then return activatePayload b m
  if m.cmd = 0x49 then return if b.p.solEnabled then {} else { ccode := 0xc1 }
  if m.cmd = 0x01 then return { data := deviceId }
  if m.cmd = 0x38 then return authCapabilities b.p m
  if m.cmd = 0x39 then return ← sessionChallenge m
  if m.cmd = 0x3a then return ← activateSession m
  if m.cmd = 0x3b then
    return if b.p.privlvlCcode ≠ 0 then { ccode := b.p.privlvlCcode }
      else { data := [m.data.headD 0x04] }
  if m.cmd = 0x54 then return ← liftM (channelCipherSuites b.p m)
  if m.cmd = 0x3c then return { ccode := b.p.closeCcode }
  if m.cmd = 0x34 then
    match nested with
    | none => return { ccode := 0xc1 }
    | some inner => return ← sendMessage inner m
  return { ccode := 0xc1 }

/-- `dispatch`, where `nested` answers the message in a Send Message. -/
def dispatchWith (nested : Option (Message → B Answer)) (m : Message) : B Answer := do
  let b ← get
  if b.p.dupOnce = some { netfn := m.netfn, cmd := m.cmd } ∧ b.dupFired = false then
    modify fun b => { b with dupFired := true }
    return { ccode := 0xcf }
  match b.p.extra.find? fun c => c.netfn == m.netfn && c.cmd == m.cmd with
  | some c => return { ccode := c.ccode, data := c.data }
  | none =>
    if m.netfn = 0x06 then dispatchApp nested m
    else
      match b.p.fru with
      | some image =>
        if m.netfn = 0x0a then liftM (dispatchFru image m) else return { ccode := 0xc1 }
      | none => return { ccode := 0xc1 }

/-- `dispatch`, with the number of Send Message envelopes that may still be opened. -/
def dispatch : ℕ → Message → B Answer
  | 0 => dispatchWith none
  | depth + 1 => dispatchWith (some (dispatch depth))

/-! ### The payloads -/

/-- The Open Session Response. -/
def openResponse (b : Bmc) (tag : UInt8) : List UInt8 :=
  [tag, b.p.openSessionStatus, 0x04, 0x00] ++ le32 b.v2.consoleId ++ le32 b.p.bmcId ++
    [0, 0, 0, 8, b.p.openSessionAuthAlg.getD b.v2.authAlg, 0, 0, 0] ++
    [1, 0, 0, 8, b.v2.integrityAlg, 0, 0, 0] ++ [2, 0, 0, 8, b.v2.cryptAlg, 0, 0, 0]

/-- `openSessionResponse`. -/
def openSessionResponse (payload : List UInt8) : B (List UInt8) := do
  if payload.length < 32 then
    fail .shortOpenRequest
    return []
  modifyV2 fun v => { v with
    consoleId := ofLe32 (payload.getD 4 0) (payload.getD 5 0) (payload.getD 6 0) (payload.getD 7 0)
    authAlg := payload.getD 12 0
    integrityAlg := payload.getD 20 0
    cryptAlg := payload.getD 28 0 }
  let b ← get
  modifyV2 fun v => { v with state := .opened }
  sendV2 K ptOpenResponse (openResponse b (payload.getD 0 0))

/-- One more in the byte at `i`. -/
def corrupt (i : ℕ) (l : List UInt8) : List UInt8 := l.modify i (· + 1)

/-- The session after a RAKP 1 message: its random number, role and user name, and the keys. -/
def rakp1Session (b : Bmc) (payload : List UInt8) : V2 :=
  { b.v2 with
    consoleRand := (payload.drop 8).take 16
    role := payload.getD 24 0
    username := (payload.drop 28).take (min (payload.getD 27 0).toNat 16) }

/-- The RAKP 2 message. -/
def rakp2Body (b : Bmc) (tag : UInt8) : List UInt8 :=
  let front := [tag, b.p.rakp2Status, 0, 0] ++ le32 b.v2.consoleId ++ b.p.bmcRand.val ++
    b.p.bmcGuid.val
  match fromAuthId b.v2.authAlg with
  | none => front
  | some a =>
    let mac := K.hmac a b.rakpInputs.passwordKey b.rakpInputs.rakp2Input
    front ++ (if b.p.corruptRakp2 then corrupt 0 mac else mac)

/-- `rakp2`. -/
def rakp2 (payload : List UInt8) : B (List UInt8) := do
  if payload.length < 28 then
    fail .shortRakp1
    return []
  modify fun b => { b with v2 := rakp1Session b payload }
  let b ← get
  require (b.v2.username = b.p.username) .wrongUsername
  modifyV2 fun v => { v with
    keys := match fromAuthId b.v2.authAlg with
      | some a => Keys.derive K a b.rakpInputs
      | none => {}
    state := .rakp1 }
  sendV2 K ptRakp2 (rakp2Body K b (payload.getD 0 0))

/-- The RAKP 4 message. -/
def rakp4Body (b : Bmc) (tag : UInt8) : List UInt8 :=
  let front := [tag, b.p.rakp4Status, 0, 0] ++ le32 b.v2.consoleId
  match fromAuthId b.v2.authAlg with
  | none => front
  | some a =>
    let mac :=
      (K.hmac a (b.v2.keys.sik.take b.v2.keys.sikLen) b.rakpInputs.rakp4Input).take a.authcodeLength
    front ++ (if b.p.corruptRakp4 then corrupt (a.authcodeLength - 1) mac else mac)

/-- `rakp4`. -/
def rakp4 (payload : List UInt8) : B (List UInt8) := do
  if payload.length < 8 then
    fail .shortRakp3
    return []
  let b ← get
  match fromAuthId b.v2.authAlg with
  | none => pure ()
  | some a =>
    require (payload.drop 8 = K.hmac a b.rakpInputs.passwordKey b.rakpInputs.rakp3Input) .badRakp3
  let reply ← sendV2 K ptRakp4 (rakp4Body K b (payload.getD 0 0))
  modifyV2 fun v => { v with state := .active, seq := b.p.outboundSeqStart }
  return reply

/-- `v2IpmiResponse`. -/
def v2IpmiResponse (payload : List UInt8) : B (List UInt8) := do
  match parseMessage payload with
  | none =>
    fail .shortMessage
    return []
  | some m =>
    require (m.csum1Ok = true) .badHeaderChecksum
    require (m.csum2Ok = true) .badDataChecksum
    let b ← get
    if b.isDeaf m then return []
    let r ← dispatch 2 m
    sendV2 K ptIpmi (responseMessage remoteSwid bmcSlaveAddr m r)

/-- `v2SolResponse`: the characters are acknowledged, at most 255 of them, and answered once. -/
def v2SolResponse (payload : List UInt8) : B (List UInt8) := do
  let b ← get
  if b.p.solEnabled = false ∨ payload.length < 4 then
    fail .unexpectedSol
    return []
  if b.p.solNoAck then return []
  if payload.getD 0 0 = 0 ∧ payload.length = 4 then return []
  let count := UInt8.ofNat (min (payload.length - 4) 255)
  let withData := b.solReplySent = false ∧ 4 < payload.length ∧ b.p.solReplyData ≠ []
  if withData then modify fun b => { b with solReplySent := true }
  sendV2 K ptSol ([if withData then 1 else 0, payload.getD 0 0 &&& 0x0f, count, 0] ++
    if withData then b.p.solReplyData else [])

/-! ### Inbound packets -/

/-- The integrity trailer of a packet: `false` ends `handleV2`. -/
def checkTrailer (req : List UInt8) (payloadLen : ℕ) : B Bool := do
  let b ← get
  match fromIntegrityId b.v2.integrityAlg with
  | none =>
    fail .unknownIntegrityAlg
    return false
  | some alg =>
    if req.length < 16 + payloadLen + 2 + alg.authcodeLength then
      fail .shortTrailer
      return false
    let split := req.length - alg.authcodeLength
    require (req.drop split = (K.hmac alg (b.v2.keys.k1.take b.v2.keys.k1Len)
      ((req.take split).drop 4)).take alg.authcodeLength) .badAuthcode
    return true

/-- The check of the integrity trailer, if there is one. -/
def checkIntegrity (req : List UInt8) (payloadLen : ℕ) : B Bool :=
  if req.getD 5 0 &&& 0x40 ≠ 0 then checkTrailer K req payloadLen else pure true

/-- The plain text of an encrypted payload; `none` ends `handleV2`. -/
def decode (payload : List UInt8) : B (Option (List UInt8)) := do
  if payload.length < 32 ∨ (payload.length - 16) % 16 ≠ 0 then
    fail .badCiphertextLength
    return none
  if 1024 < payload.length - 16 then throw .outOfBounds
  let b ← get
  let body := aesCbcDecrypt K (b.v2.keys.k2.take 16) (payload.take 16) (payload.drop 16)
  let padLen := (body.getLastD 0).toNat
  -- the addition is one of bytes
  if padLen = 255 then throw .overflow
  if body.length < padLen + 1 then
    fail .badPadLength
    return none
  let n := body.length - 1 - padLen
  require ((body.drop n).dropLast = padBytes padLen ∧
    confidentialityPadLength n = padLen) .badPadding
  return some (body.take n)

/-- The plain text of a payload that may be encrypted. -/
def plainText (req payload : List UInt8) : B (Option (List UInt8)) :=
  if req.getD 5 0 &&& 0x80 ≠ 0 then decode K payload else pure (some payload)

/-- A packet taken apart: the payload type, the session id and the plain payload. -/
structure Opened where
  ptype : UInt8
  sessionId : UInt32
  plain : List UInt8

/-- `handleV2` up to the session check; `none` ends it. -/
def openV2 (req : List UInt8) : B (Option Opened) := do
  if req.length < 16 then
    fail .tooShort
    return none
  let payloadLen := (ofLe16 (req.getD 14 0) (req.getD 15 0)).toNat
  if req.length < 16 + payloadLen then
    fail .badPayloadLength
    return none
  let go ← checkIntegrity K req payloadLen
  if !go then return none
  let plain ← plainText K req ((req.drop 16).take payloadLen)
  return plain.map fun plain =>
    { ptype := req.getD 5 0 &&& 0x3f
      sessionId := ofLe32 (req.getD 6 0) (req.getD 7 0) (req.getD 8 0) (req.getD 9 0)
      plain }

/-- The switch of `handleV2`. -/
def respond (ptype : UInt8) (plain : List UInt8) : B (List UInt8) :=
  if ptype = ptOpenRequest then openSessionResponse K plain
  else if ptype = ptRakp1 then rakp2 K plain
  else if ptype = ptRakp3 then rakp4 K plain
  else if ptype = ptIpmi then v2IpmiResponse K plain
  else if ptype = ptSol then v2SolResponse K plain
  else do
    fail .unsupportedPayloadType
    return []

/-- `handleV2`. -/
def handleV2 (req : List UInt8) (drop : Bool) : B (List UInt8) := do
  match ← openV2 K req with
  | none => return []
  | some opened =>
    let b ← get
    require (b.v2.state = .active → opened.sessionId = b.p.bmcId) .wrongSessionId
    if drop then return []
    respond K opened.ptype opened.plain

/-! ### Packets of version 1.5 -/

/-- The answer in the format of version 1.5, framed like its request. -/
def v15Reply (b : Bmc) (authtype : UInt8) (sessionId : UInt32) (m : Message) (r : Answer) :
    List UInt8 :=
  rmcpHdr ++ [authtype] ++ le32 b.v15.seq ++ le32 sessionId ++
    (if authtype ≠ 0 then List.replicate 16 0 else []) ++ [UInt8.ofNat (8 + r.data.length)] ++
    responseMessage remoteSwid bmcSlaveAddr m r

/-- What an answer does to the session of version 1.5. -/
def v15After (p : Personality) (authtype : UInt8) (m : Message) (r : Answer) (v : V15) : V15 :=
  let v := if v.active then { v with seq := nextSeq v.seq } else v
  let v := if m.netfn = 0x06 ∧ m.cmd = 0x3a ∧ r.ccode = 0 then
      { v with active := true, authtype, seq := p.outboundSeqStart } else v
  if m.netfn = 0x06 ∧ m.cmd = 0x3c ∧ r.ccode = 0 then { v with active := false } else v

/-- `handleV15`, once the message is taken out of the packet. -/
def answerV15 (authtype : UInt8) (seq sessionId : UInt32) (m : Message) (drop : Bool) :
    B (List UInt8) := do
  require (m.csum1Ok = true) .badHeaderChecksum
  require (m.csum2Ok = true) .badDataChecksum
  let b ← get
  require (b.v15.active = true → b.v15.lastSeq < seq) .staleSequence
  modify fun b => { b with v15 := { b.v15 with lastSeq := if b.v15.active then seq
    else b.v15.lastSeq } }
  require (b.v15.active = true → sessionId = b.p.sessionId) .wrongSessionId
  if drop || b.isDeaf m then return []
  let r ← dispatch 2 m
  require (r.data.length ≤ 247) .longResponse
  let r := { r with data := r.data.take 247 }
  let b ← get
  modify fun b => { b with v15 := v15After b.p authtype m r b.v15 }
  return v15Reply b authtype sessionId m r

/-- `handleV15`. -/
def handleV15 (req : List UInt8) (drop : Bool) : B (List UInt8) := do
  let authtype := req.getD 4 0
  let hdrLen := 14 + if authtype ≠ 0 then 16 else 0
  if req.length < hdrLen + 7 then
    fail .shortV15
    return []
  match parseMessage (req.drop hdrLen) with
  | none =>
    fail .shortMessage
    return []
  | some m =>
    require ((req.getD (hdrLen - 1) 0).toNat = (req.drop hdrLen).length) .wrongMessageLength
    answerV15 authtype (ofLe32 (req.getD 5 0) (req.getD 6 0) (req.getD 7 0) (req.getD 8 0))
      (ofLe32 (req.getD 9 0) (req.getD 10 0) (req.getD 11 0) (req.getD 12 0)) m drop

/-! ### Datagrams -/

/-- The controller when one more datagram has arrived. -/
def Bmc.counted (b : Bmc) : Bmc := { b with received := b.received + 1 }

/-- The switch of `handle`; `other` is what the controller does with a datagram of another RMCP
class. -/
def handleClass (other : List UInt8 → Bool → B (List UInt8)) (request : List UInt8) (drop : Bool) :
    B (List UInt8) :=
  if request.getD 3 0 = rmcpClassIpmi then
    if request.getD 4 0 = 0x06 then handleV2 K request drop else handleV15 request drop
  else other request drop

/-- `handle`. -/
def handle (other : List UInt8 → Bool → B (List UInt8)) (request : List UInt8) :
    B (Option (List UInt8)) := do
  modify Bmc.counted
  let b ← get
  let drop := decide (b.received ∈ b.p.drop)
  if request.length < 4 then
    fail .runt
    return none
  if request.getD 3 0 = rmcpClassIpmi ∧ request.length = 4 then throw .outOfBounds
  let reply ← handleClass K other request drop
  return if reply = [] then none else some reply

end Ipmitool.Peer.Controller
