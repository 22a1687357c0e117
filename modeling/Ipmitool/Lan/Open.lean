import Ipmitool.Lan.Send
import Ipmitool.Lanplus.Open

/-! # Session setup and teardown of the IPMI 1.5 transport

`open`, `close` and `sendCmd` of `intf/lan.zig`, with the commands that activate a session. The
commands of `open` are sent on an interface that counts as open already, so they are `exchange`s. -/

namespace Ipmitool.Lan.Open

open Ipmitool.Lib.Mem Ipmitool.Lib.Bytes Ipmitool.Lib.Machine Ipmitool.Core.Types Ipmitool.Intf
open Ipmitool.Lanplus.State Ipmitool.Lanplus.Receive Ipmitool.Lanplus.Build
open Ipmitool.Lan.Receive Ipmitool.Lan.Send

variable (A : Auth)

/-- `lanPing`: a presence ping; whatever comes back is ignored. -/
def lanPing : M Unit := do
  let sent ← sendPacket [0x06, 0, 0xff, rmcpClassAsf, 0x00, 0x00, 0x11, 0xbe, 0x80, 0, 0, 0]
  if sent then
    let _ ← pollRecv

/-- `thumpFirst`. -/
def thumpFirst : M Unit := do
  let _ ← sendPacket [0, 0, 0, 0, 0, 0, 0, 0, 0x07, 0x20, 0x18, 0xc8, 0xc2, 0x01, 0x01, 0x3c]

/-- The authentication types in the order in which they are preferred; all but the last need a
password. -/
def authtypes : List UInt8 := [authtypeMd5, authtypeMd2, 4, 5]

/-- `authTypeBit`. -/
def authTypeBit (bits t : UInt8) : Bool := bits.toNat &&& (1 <<< (t.toNat % 32)) ≠ 0

/-- The choice of the authentication type among those that the BMC supports. -/
def chooseAuthtype (p : SessionParams) (types : UInt8) : Option UInt8 :=
  let allowed := fun t => (p.authtypeSet = 0 ∨ p.authtypeSet = t) ∧ authTypeBit types t = true
  match authtypes.find? fun t => p.password = true ∧ allowed t with
  | some t => some t
  | none => if allowed 0 then some 0 else none

/-- `getAuthCapabilitiesCmd`: does it succeed? -/
def getAuthCapabilitiesCmd : M Bool := do
  let s ← get
  let got ← exchange A (Ipmitool.Lanplus.Open.authCapRequest 0x0e s.intf.ssnParams.privlvl)
  let s ← get
  let r := s.recvRsp
  if ¬ got ∨ r.ccode ≠ 0 then return false
  modifySession fun session => { session with authstatus := r.data 2 }
  match chooseAuthtype s.intf.ssnParams (r.data 1) with
  | none => return false
  | some authtype =>
    modifySession fun session => { session with authtype }
    return true

/-- The request of `getSessionChallengeCmd`. -/
def challengeRequest (authtype : UInt8) (username : List UInt8) : Request where
  netfn := netfnApp
  lun := bmcLun
  cmd := 0x39
  data := authtype :: (username ++ List.replicate 16 0).take 16
  data_lt := by simp

/-- `getSessionChallengeCmd`. -/
def getSessionChallengeCmd : M Bool := do
  let session ← theSession
  let s ← get
  let got ← exchange A (challengeRequest session.authtype s.intf.ssnParams.username)
  let s ← get
  let r := s.recvRsp
  if ¬ got ∨ r.ccode ≠ 0 then return false
  modifySession fun session => { session with
    sessionId := ofLe32 (r.data 0) (r.data 1) (r.data 2) (r.data 3)
    challenge := read r.data 4 16 }
  return true

/-- The request of `activateSessionCmd`. -/
def activateRequest (authtype privlvl : UInt8) (challenge outbound : List UInt8) : Request where
  netfn := netfnApp
  lun := bmcLun
  cmd := 0x3a
  data := [authtype, privlvl] ++ challenge.take 16 ++ outbound.take 4
  data_lt := by simp; omega

/-- `s.in_seq` as `activateSessionCmd` seeds it: zero is replaced by one. -/
def seed (r : Response) : UInt32 :=
  let n := ofLe32 (r.data 5) (r.data 6) (r.data 7) (r.data 8)
  if n = 0 then 1 else n

/-- The authcode of `activateSessionCmd`: `supermicro` boards have one of their own. -/
def specialAuthcode (supermicro : Bool) : M Unit :=
  if supermicro then modifySession fun session => { session with
    authcode := (A.special session).take 16 ++ session.authcode.drop 16 }
  else return ()

/-- The end of `activateSessionCmd`, on an answer. -/
def activated : M Bool := do
  let s ← get
  let r := s.recvRsp
  if r.ccode ≠ 0 then return false
  modifySession fun session => { session with
    sessionId := ofLe32 (r.data 1) (r.data 2) (r.data 3) (r.data 4)
    inSeq := seed r }
  let session ← theSession
  if session.authstatus &&& 0x10 ≠ 0 then
    modifySession fun session => { session with authtype := 0 }
    return true
  return session.authtype = r.data 0 &&& 0xf

/-- `activateSessionCmd`. -/
def activateSessionCmd : M Bool := do
  let s ← get
  let supermicro := s.intf.oemActive .supermicro
  let session ← theSession
  specialAuthcode A supermicro
  let outbound ← rand
  modifySession fun session => { session with active := true }
  let challenge := if supermicro then List.replicate 16 0 else session.challenge
  let got ← exchange A
    (activateRequest session.authtype s.intf.ssnParams.privlvl challenge outbound.val)
  if got then activated
  else
    modifySession fun session => { session with active := false }
    return false

/-- `setSessionPrivlvlCmd`. -/
def setSessionPrivlvlCmd : M Bool := do
  let s ← get
  if s.intf.ssnParams.privlvl ≤ privUser then return true
  modify fun s => { s with bridgePossible := false }
  let got ← exchange A (Ipmitool.Lanplus.Open.privlvlRequest s.intf.ssnParams.privlvl)
  modify fun s' => { s' with bridgePossible := s.bridgePossible }
  let s ← get
  return got ∧ s.recvRsp.ccode = 0

/-- `closeSessionCmd`. -/
def closeSessionCmd : M Unit := do
  let session ← theSession
  if session.active then
    modify fun s => { s with
      intf := { s.intf with targetAddr := bmcSlaveAddr.toUInt32 }
      bridgePossible := false }
    let _ ← exchange A (Ipmitool.Lanplus.Open.closeRequest session.sessionId)

/-- The packets that `activateSession` sends before the first command. -/
def wake : M Unit := do
  let s ← get
  if ¬ s.intf.oemActive .supermicro then lanPing
  if s.intf.oemActive .intelwv2 then thumpFirst

/-- `activateSession`. -/
def activateSession : M Bool := do
  wake
  if !(← getAuthCapabilitiesCmd A) then return false
  if !(← getSessionChallengeCmd A) then return false
  if !(← activateSessionCmd A) then return false
  modify fun s => { s with intf := { s.intf with abort := false } }
  if !(← setSessionPrivlvlCmd A) then
    closeSessionCmd A
    return false
  return true

/-- `close`. -/
def close : M Unit := do
  let s ← get
  if ¬ s.intf.abort ∧ s.intf.session.isSome then closeSessionCmd A
  modify fun s => { s with
    intf := { s.intf with fd := -1, session := none, manufacturerId := 0 }
    reqEntries := [] }

/-- `setMaxRqDataSize` and `setMaxRpDataSize`, behind the checks of the registry. -/
def storePayloadSizes (intf : Intf) (maxInboundPldSize maxOutboundPldSize : UInt16) : Intf :=
  let rq := maxInboundPldSize - 7
  let rp := maxOutboundPldSize - 8
  let rqCap : UInt16 := if 0xff < rq.toNat + 7 then 0xff - 7 else rq
  let rpCap : UInt16 := if 0xff < rp.toNat + 8 then 0xff - 8 else rp
  { intf with
    maxRequestDataSize :=
      if rq.toNat < Registry.defaultPayloadSize then intf.maxRequestDataSize else rqCap
    maxResponseDataSize :=
      if rp.toNat < Registry.defaultPayloadSize - 1 then intf.maxResponseDataSize else rpCap }

/-- `detectMaxPayloadSize`. -/
def detectMaxPayloadSize : M Unit := do
  let got ← exchange A Ipmitool.Lanplus.Open.lanAttachRequest
  let s ← get
  match got, Ipmitool.Lanplus.Open.lanAttachCapabilities s.recvRsp with
  | true, some start =>
    let got ← exchange A (Ipmitool.Lanplus.Open.lanChannelRequest start)
    let s ← get
    match got, Ipmitool.Lanplus.Open.lanChannelCapabilities s.recvRsp with
    | true, some (inbound, outbound) =>
      modify fun s => { s with intf := storePayloadSizes s.intf inbound outbound }
    | _, _ => return ()
  | _, _ => return ()

/-- `getOem`. -/
def getOem : M UInt32 := do
  let s ← get
  if s.intf.fd = 0 then return s.selIana
  if s.intf.session.isSome ∧ s.intf.manufacturerId ≠ 0 then return s.intf.manufacturerId
  let got ← exchange A Ipmitool.Lanplus.Send.getDeviceId
  let s ← get
  let r := s.recvRsp
  return if got ∧ r.ccode = 0 then ofLe32 (r.data 6) (r.data 7) (r.data 8) 0 else 0

/-- The defaults `open` fills in. -/
def defaultParams (p : SessionParams) : SessionParams :=
  { p with
    privlvl := if p.privlvl = 0 then privAdmin else p.privlvl
    timeout := if p.timeout = 0 then 2 else p.timeout
    retry := if p.retry = 0 then 4 else p.retry }

/-- `open`: the descriptor, or `-1`. -/
def «open» : M ℤ := do
  let s ← get
  if s.intf.session.isSome then return -1
  modify fun s => { s with intf := { s.intf with ssnParams := defaultParams s.intf.ssnParams } }
  if s.intf.ssnParams.hostname = [] then return -1
  match s.net.connects with
  | none => return -1
  | some fd =>
    modify fun s => { s with intf := { s.intf with
      fd := fd
      session := some (Ipmitool.Lanplus.Open.freshSession s.intf.ssnParams)
      abort := true } }
    if ← activateSession A then
      detectMaxPayloadSize A
      let oem ← getOem A
      modify fun s => { s with
        intf := { s.intf with manufacturerId := oem }
        bridgePossible := true }
      return fd
    else
      close A
      return -1

/-- `sendCmd`: a closed interface is opened first. -/
def sendCmd (req : Request) : M Bool := do
  let s ← get
  if s.intf.session.isNone then
    let fd ← «open» A
    if fd < 0 then return false
  exchange A req

end Ipmitool.Lan.Open
