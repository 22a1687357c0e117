import Ipmitool.Lanplus.Send
import Ipmitool.Intf.Registry

/-! # Session setup and teardown

`open`, `close` and the handshake of `intf/lanplus.zig`, with the commands that `open` sends before
and after the handshake: the channel cipher suites of `cmd/channel.zig`, the HPM.2 capabilities of
`cmd/hpm2.zig` and the device id of `cmd/sel.zig`.

`open` is three programs in a row, `openPrologue`, `handshakeLoop` and `openEpilogue`; a failure of
one of them closes the interface. -/

namespace Ipmitool.Lanplus.Open

open Ipmitool.Lib.Mem Ipmitool.Lib.Bytes Ipmitool.Lib.Machine Ipmitool.Core.Types
open Ipmitool.Crypto.Mac Ipmitool.Crypto.LanplusCrypt Ipmitool.Intf
open Ipmitool.Lanplus.State Ipmitool.Lanplus.Receive Ipmitool.Lanplus.Build Ipmitool.Lanplus.Send

variable (K : Primitives)

/-! ### Cipher suites -/

/-- The algorithms of a cipher suite. -/
structure Ciphers where
  authAlg : UInt8
  integrityAlg : UInt8
  cryptAlg : UInt8
  deriving DecidableEq, Repr

/-- `getRequestedCiphers`, table 22-20; `none` for an unsupported suite. -/
def getRequestedCiphers (suite : CipherSuiteId) : Option Ciphers :=
  match suite.toNat with
  | 0 => some ⟨authRakpNone, integrityNone, cryptNone⟩
  | 1 => some ⟨authRakpHmacSha1, integrityNone, cryptNone⟩
  | 2 => some ⟨authRakpHmacSha1, integrityHmacSha1, cryptNone⟩
  | 3 => some ⟨authRakpHmacSha1, integrityHmacSha1, cryptAesCbc⟩
  | 4 => some ⟨authRakpHmacSha1, integrityHmacSha1, cryptXrc4⟩
  | 5 => some ⟨authRakpHmacSha1, integrityHmacSha1, cryptXrc440⟩
  | 6 => some ⟨authRakpHmacMd5, integrityNone, cryptNone⟩
  | 7 => some ⟨authRakpHmacMd5, integrityHmacMd5, cryptNone⟩
  | 8 => some ⟨authRakpHmacMd5, integrityHmacMd5, cryptAesCbc⟩
  | 9 => some ⟨authRakpHmacMd5, integrityHmacMd5, cryptXrc4⟩
  | 10 => some ⟨authRakpHmacMd5, integrityHmacMd5, cryptXrc440⟩
  | 11 => some ⟨authRakpHmacMd5, integrityMd5, cryptNone⟩
  | 12 => some ⟨authRakpHmacMd5, integrityMd5, cryptAesCbc⟩
  | 13 => some ⟨authRakpHmacMd5, integrityMd5, cryptXrc4⟩
  | 14 => some ⟨authRakpHmacMd5, integrityMd5, cryptXrc440⟩
  | 15 => some ⟨authRakpHmacSha256, integrityNone, cryptNone⟩
  | 16 => some ⟨authRakpHmacSha256, integrityHmacSha256, cryptNone⟩
  | 17 => some ⟨authRakpHmacSha256, integrityHmacSha256, cryptAesCbc⟩
  | _ => none

/-- `parseCipherSuite`: the suite number and the size of the record at the head of `data`. -/
def parseCipherSuite (data : List UInt8) : Option (UInt8 × ℕ) :=
  if data.headD 0 = 0xc0 then
    if data.length < 5 then none else some (data.getD 1 0, 5)
  else if data.headD 0 = 0xc1 then
    if data.length < 8 then none else some (data.getD 1 0, 8)
  else none

/-- `parseChannelCipherSuiteData`: the suite numbers, for at most `capacity` suites. -/
def parseChannelCipherSuiteData : ℕ → List UInt8 → List UInt8
  | 0, _ => []
  | capacity + 1, data =>
    if data = [] then []
    else match parseCipherSuite data with
      | none => []
      | some (id, size) => id :: parseChannelCipherSuiteData capacity (data.drop size)

/-- The request for one set of cipher suite data. -/
def cipherSuiteRequest (listIndex : UInt8) : Request where
  netfn := netfnApp
  lun := bmcLun
  cmd := 0x54
  data := [0x0e, 0, 0x80 ||| listIndex]

/-- The loop of `getChannelCipherSuites`: collect the sets of sixteen bytes until a short one, at
most `0x40` of them. -/
def cipherSuiteLoop : ℕ → UInt8 → List UInt8 → M (Option (List UInt8))
  | 0, _, data => return some data
  | fuel + 1, listIndex, data => do
    let got ← sendIpmiCmd K (cipherSuiteRequest listIndex)
    let s ← get
    let r := s.recvRsp
    if ¬ got ∨ r.ccode ≠ 0 ∨ r.dataLen < 1 ∨ 17 < r.dataLen then return none
    let data := data ++ read r.data 1 (r.dataLen - 1).toNat
    if r.dataLen = 17 then cipherSuiteLoop fuel (listIndex + 1) data else return some data

/-- `findBestCipherSuite`: suite 17 if the channel has it, otherwise suite 3. -/
def findBestCipherSuite : M CipherSuiteId := do
  match ← cipherSuiteLoop K 0x40 0 [] with
  | none => return 3
  | some data => return if 17 ∈ parseChannelCipherSuiteData 204 data then 17 else 3

/-! ### Commands around the handshake -/

/-- The request of `getAuthCapabilitiesCmd`. -/
def authCapRequest (channel privlvl : UInt8) : Request where
  netfn := netfnApp
  lun := bmcLun
  cmd := getChannelAuthCap
  data := [channel, privlvl]

/-- `getAuthCapabilitiesCmd`: is the second byte of the answer to be had, and which? Bridging is
restored on success only. -/
def getAuthCapabilitiesCmd : M (Option UInt8) := do
  let s ← get
  let privlvl := s.intf.ssnParams.privlvl
  modify fun s => { s with bridgePossible := false }
  let got ← sendIpmiCmd K (authCapRequest 0x8e privlvl)
  let s1 ← get
  let got ← if ¬ got ∨ s1.recvRsp.ccode ≠ 0 then sendIpmiCmd K (authCapRequest 0x0e privlvl)
    else pure true
  let s2 ← get
  if ¬ got ∨ s2.recvRsp.ccode ≠ 0 then return none
  modify fun s' => { s' with bridgePossible := s.bridgePossible }
  return some (s2.recvRsp.data 1)

/-- The request of `setSessionPrivlvlCmd`. -/
def privlvlRequest (privlvl : UInt8) : Request where
  netfn := netfnApp
  lun := bmcLun
  cmd := 0x3b
  data := [privlvl]

/-- `setSessionPrivlvlCmd`: does it succeed? -/
def setSessionPrivlvlCmd : M Bool := do
  let s ← get
  if s.intf.ssnParams.privlvl ≤ privUser then return true
  modify fun s => { s with bridgePossible := false }
  let got ← sendIpmiCmd K (privlvlRequest s.intf.ssnParams.privlvl)
  modify fun s' => { s' with bridgePossible := s.bridgePossible }
  let s ← get
  return got ∧ s.recvRsp.ccode = 0

/-- The requests of `detectMaxPayloadSize`. -/
def lanAttachRequest : Request where
  netfn := netfnPicmg
  lun := bmcLun
  cmd := 0x3e
  data := [0, 2]

def lanChannelRequest (start : UInt8) : Request where
  netfn := netfnTransport
  lun := bmcLun
  cmd := 0x02
  data := [0x0e, start, 0, 0]

/-- `getCapabilities` of `cmd/hpm2.zig`, read off the answer: the first LAN parameter of a
controller that has a LAN channel. -/
def lanAttachCapabilities (r : Response) : Option UInt8 :=
  if r.ccode ≠ 0 ∨ r.dataLen < 8 ∨ 10 < r.dataLen ∨ r.data 1 ≠ 2 then none
  else if r.data 2 = 0 ∨ ofLe16 (r.data 3) (r.data 4) = 0 then none
  else if r.data 6 < 0xc0 ∨ r.data 7 ≠ 1 then none
  else if r.data 5 &&& 1 = 0 then some (r.data 6)
  else if r.dataLen < 10 ∨ r.data 8 < 0xc0 ∨ r.data 9 ≠ 1 then none
  else some (r.data 6)

/-- `getLanChannelCapabilities`, read off the answer: the largest inbound and outbound payload. -/
def lanChannelCapabilities (r : Response) : Option (UInt16 × UInt16) :=
  if r.ccode ≠ 0 ∨ r.dataLen ≠ 8 ∨ r.data 0 ≠ 0x11 then none
  else some (ofLe16 (r.data 4) (r.data 5), ofLe16 (r.data 6) (r.data 7))

/-- `detectMaxPayloadSize`. -/
def detectMaxPayloadSize : M Unit := do
  let got ← sendIpmiCmd K lanAttachRequest
  let s ← get
  match got, lanAttachCapabilities s.recvRsp with
  | true, some start =>
    let got ← sendIpmiCmd K (lanChannelRequest start)
    let s ← get
    match got, lanChannelCapabilities s.recvRsp with
    | true, some (inbound, outbound) =>
      modify fun s => { s with intf := Registry.storePayloadSizes s.intf inbound outbound }
    | _, _ => return ()
  | _, _ => return ()

/-- `getOem`: the manufacturer id, asked for unless it is known. -/
def getOem : M UInt32 := do
  let s ← get
  if s.intf.fd = 0 then return s.selIana
  if s.intf.session.isSome ∧ s.intf.manufacturerId ≠ 0 then return s.intf.manufacturerId
  let got ← sendIpmiCmd K getDeviceId
  let s ← get
  let r := s.recvRsp
  return if got ∧ r.ccode = 0 then ofLe32 (r.data 6) (r.data 7) (r.data 8) 0 else 0

/-! ### The handshake -/

/-- The outcome of a handshake stage: `0`, `1` or `2` in the source. -/
inductive Rc where
  | done
  | error
  | timeout
  deriving DecidableEq, Repr

/-- The session id of this side. -/
def consoleSessionId : UInt32 := 0xA0A2A3A4

/-- The privilege level of the Open Session request: the highest the algorithms support, if the
administrator's level is asked for. -/
def openPrivlvl (intf : Intf) : UInt8 :=
  if intf.oemActive .intelplus ∨ intf.ssnParams.privlvl ≠ privAdmin then intf.ssnParams.privlvl
  else 0

/-- The Open Session request. -/
def openSessionMsg (intf : Intf) (c : Ciphers) : List UInt8 :=
  [0, openPrivlvl intf, 0, 0] ++ le32 consoleSessionId ++ [0, 0, 0, 8, c.authAlg, 0, 0, 0] ++
    [1, 0, 0, 8, c.integrityAlg, 0, 0, 0] ++ [2, 0, 0, 8, c.cryptAlg, 0, 0, 0]

/-- What the session takes over from an Open Session response. -/
def acceptOpenResponse (r : Response) (session : Session) : Session :=
  { session with v2 := { session.v2 with
      maxPrivLevel := r.maxPrivLevel
      bmcId := r.bmcId
      authAlg := r.authAlg
      integrityAlg := r.integrityAlg
      cryptAlg := r.cryptAlg
      sessionState := .openSessionReceived } }

/-- `openSession`. -/
def openSession : M Rc := do
  let s ← get
  modifySession fun session =>
    { session with v2 := { session.v2 with consoleId := consoleSessionId } }
  match getRequestedCiphers s.intf.ssnParams.cipherSuiteId with
  | none => return .error
  | some c =>
    modifySession fun session => { session with v2 := { session.v2 with
      requestedAuthAlg := c.authAlg
      requestedIntegrityAlg := c.integrityAlg
      requestedCryptAlg := c.cryptAlg } }
    let got ← sendPayload K (.openRequest (openSessionMsg s.intf c))
    if !got then return .timeout
    let s ← get
    let r := s.recvRsp
    if r.rakpReturnCode ≠ 0 then return .error
    modifySession (acceptOpenResponse r)
    return if r.authAlg = c.authAlg ∧ r.integrityAlg = c.integrityAlg ∧ r.cryptAlg = c.cryptAlg
      then .done else .error

/-- The RAKP 1 message; `i82571spt` wants the whole user name field. -/
def rakp1Msg (intf : Intf) (session : Session) (rand : List UInt8) (role : UInt8) : List UInt8 :=
  let name := intf.ssnParams.username
  [0, 0, 0, 0] ++ le32 session.v2.bmcId ++ rand ++ [role, 0, 0, UInt8.ofNat name.length] ++ name ++
    (if intf.oemActive .i82571spt then List.replicate (16 - name.length) 0 else [])

/-- `rakp1`. -/
def rakp1 : M Rc := do
  let session ← theSession
  let rand ← rand
  let s ← get
  let role := s.intf.ssnParams.privlvl ||| s.intf.ssnParams.lookupbit
  modifySession fun session =>
    { session with v2 := { session.v2 with consoleRand := rand.val, requestedRole := role } }
  if 16 < s.intf.ssnParams.username.length then return .error
  let got ← sendPayload K (.rakp1 (rakp1Msg s.intf session rand.val role))
  if !got then return .timeout
  setState .rakp2Received
  let s ← get
  let r := s.recvRsp
  if r.rakpReturnCode ≠ 0 then return .error
  modifySession fun session =>
    { session with v2 := { session.v2 with bmcRand := r.bmcRand, bmcGuid := r.bmcGuid } }
  let session ← theSession
  let good ← liftM (rakp2HmacMatches K session r.keyExchangeAuthCode s.intf)
  if good then
    record [.rakp2Verified]
    modifySession fun session => { session with v2 := { session.v2 with rakp2ReturnCode := 0 } }
    return .done
  else
    modifySession fun session => { session with v2 := { session.v2 with rakp2ReturnCode := 0x0f } }
    return .error

/-- The session with its integrity key and the two keys derived from it. -/
def deriveKeys (session : Session) (intf : Intf) : Except Fault Session := do
  let session ← generateSik K session intf
  let session ← generateK1 K session
  generateK2 K session

/-- The authcode of RAKP 3 and the derivation of the session keys, unless RAKP 2 was in error. -/
def rakp3Authcode (session : Session) (intf : Intf) : Except Fault (List UInt8 × Session) := do
  if session.v2.rakp2ReturnCode ≠ 0 then return ([], session)
  let authcode ← generateRakp3Authcode K session intf
  let session ← deriveKeys K session intf
  return (authcode, session)

/-- `rakp3`. -/
def rakp3 : M Rc := do
  let session ← theSession
  expect (session.v2.sessionState = .rakp2Received)
  let s ← get
  let (authcode, keyed) ← liftM (rakp3Authcode K session s.intf)
  modifySession fun _ => keyed
  let msg := [0, session.v2.rakp2ReturnCode, 0, 0] ++ le32 session.v2.bmcId ++ authcode
  let got ← sendPayload K (.rakp3 msg)
  if session.v2.rakp2ReturnCode ≠ 0 then return .error
  if !got then return .timeout
  let s ← get
  let r := s.recvRsp
  if r.rakpReturnCode ≠ 0 then return .error
  let session ← theSession
  let good ← liftM (rakp4HmacMatches K session r.integrityCheckValue s.intf)
  if good then
    record [.rakp4Verified]
    setState .active
    modify fun s => { s with intf := { s.intf with abort := false } }
    return .done
  else return .error

/-- One attempt at the handshake. -/
def attempt : M Rc := do
  setState .presession
  record [.attempt]
  match ← openSession K with
  | .error => return .error
  | .timeout => return .timeout
  | .done =>
    match ← rakp1 K with
    | .error => return .error
    | .timeout => return .timeout
    | .done => rakp3 K

/-- `lan_retry`: the number of attempts. -/
def lanRetry : ℕ := 4

/-- The retry loop of `open`: `false` if an attempt ends in an error. An attempt that times out is
followed by the next one, and after the last one the loop ends like after a success. -/
def handshakeLoop : ℕ → M Bool
  | 0 => return true
  | n + 1 => do
    match ← attempt K with
    | .error => return false
    | .done => return true
    | .timeout => handshakeLoop n

/-! ### Open and close -/

/-- The request of `closeSessionCmd`. -/
def closeRequest (bmcId : UInt32) : Request where
  netfn := netfnApp
  lun := bmcLun
  cmd := 0x3c
  data := le32 bmcId
  data_lt := by simp

/-- `closeSessionCmd`: the target address stays overwritten, bridging is restored on success
only. -/
def closeSessionCmd : M Unit := do
  let s ← get
  match s.intf.session with
  | none => return ()
  | some session =>
    if session.v2.sessionState ≠ .active then return ()
    modify fun s => { s with
      intf := { s.intf with targetAddr := bmcSlaveAddr.toUInt32 }
      bridgePossible := false }
    let got ← sendIpmiCmd K (closeRequest session.v2.bmcId)
    let s1 ← get
    if got ∧ s1.recvRsp.ccode = 0 then
      modify fun s' => { s' with bridgePossible := s.bridgePossible }

/-- `close`. -/
def close : M Unit := do
  let s ← get
  if ¬ s.intf.abort ∧ s.intf.session.isSome then closeSessionCmd K
  modify fun s => { s with
    intf := { s.intf with fd := -1, session := none, manufacturerId := 0 }
    reqEntries := [] }

/-- The defaults `open` fills in. -/
def defaultParams (p : SessionParams) : SessionParams :=
  { p with
    privlvl := if p.privlvl = 0 then privAdmin else p.privlvl
    timeout := if p.timeout = 0 then 1 else p.timeout
    retry := if p.retry = 0 then lanRetry else p.retry }

/-- The session `open` starts with. -/
def freshSession (p : SessionParams) : Session :=
  { timeout := p.timeout, authcode := p.authcodeSet, solSequenceNumber := 1 }

/-- Does the BMC speak IPMI v2? `i82571spt` is not asked. -/
def supportsV2 : M Bool := do
  let s ← get
  if s.intf.oemActive .i82571spt then return true
  match ← getAuthCapabilitiesCmd K with
  | none => return false
  | some b1 => return b1 &&& 0x80 != 0

/-- `open` up to the retry loop, with a connected socket. -/
def openPrologue : M Bool := do
  modify fun s => { s with intf := { s.intf with
    session := some (freshSession s.intf.ssnParams), abort := true } }
  if !(← supportsV2 K) then return false
  let s ← get
  if s.intf.ssnParams.cipherSuiteId = suiteReserved then
    let suite ← findBestCipherSuite K
    modify fun s => { s with intf := { s.intf with
      ssnParams := { s.intf.ssnParams with cipherSuiteId := suite } } }
  return true

/-- `open` after the retry loop. -/
def openEpilogue : M Bool := do
  record [.opened]
  modify fun s => { s with intf := { s.intf with abort := false } }
  let s ← get
  if s.intf.oemActive .i82571spt then
    modify fun s => { s with bridgePossible := true }
    return true
  if !(← setSessionPrivlvlCmd K) then return false
  detectMaxPayloadSize K
  modify fun s => { s with bridgePossible := true }
  let oem ← getOem K
  modify fun s => { s with intf := { s.intf with manufacturerId := oem } }
  return true

/-- `open`, with a connected socket. -/
def openConnected : M Bool := do
  if !(← openPrologue K) then return false
  if !(← handshakeLoop K lanRetry) then return false
  openEpilogue K

/-- `open`: the descriptor, or `-1`. -/
def «open» : M ℤ := do
  let s ← get
  if s.intf.session.isSome then return s.intf.fd
  modify fun s => { s with intf := { s.intf with ssnParams := defaultParams s.intf.ssnParams } }
  if s.intf.ssnParams.hostname = [] then return -1
  match s.net.connects with
  | none =>
    close K
    return -1
  | some fd =>
    modify fun s => { s with intf := { s.intf with fd := fd } }
    if ← openConnected K then
      let s ← get
      return s.intf.fd
    else
      close K
      return -1

end Ipmitool.Lanplus.Open
