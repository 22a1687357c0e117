import Ipmitool.Core.Types
import Ipmitool.Crypto.Mac
import Ipmitool.Crypto.Padding

/-! # The RMCP+ session layer

`crypto/lanplus_crypt.zig` and the hash inputs of `crypto/rakp.zig`, for a build with SHA-256 on a
little-endian host. Allocation never fails. A failed `assert` and a slice outside its array are
faults; everything else is computed as the source does, in particular the authcode check
`hasValidAuthCode`, which accepts every packet that carries nothing to check. -/

namespace Ipmitool.Crypto.LanplusCrypt

open Ipmitool.Lib.Mem Ipmitool.Lib.Bytes Ipmitool.Core.Types Ipmitool.Crypto.Mac
open Ipmitool.Crypto.Padding

variable (K : Primitives)

/-! ### Hash inputs -/

/-- `rakp.Inputs`. -/
structure Inputs where
  consoleId : UInt32
  bmcId : UInt32
  consoleRand : List UInt8
  bmcRand : List UInt8
  bmcGuid : List UInt8
  role : UInt8
  username : List UInt8

/-- The inputs common to the key derivations; `i82571spt` clears bit 4 of the role. -/
def inputsFor (session : Session) (intf : Intf) (applyRoleQuirk : Bool) : Inputs where
  consoleId := session.v2.consoleId
  bmcId := session.v2.bmcId
  consoleRand := session.v2.consoleRand
  bmcRand := session.v2.bmcRand
  bmcGuid := session.v2.bmcGuid
  role := if applyRoleQuirk && intf.oemActive .i82571spt then session.v2.requestedRole &&& 0xef
    else session.v2.requestedRole
  username := intf.ssnParams.username

/-- SIDm | SIDc | Rm | Rc | GUIDc | ROLEm | ULENGTHm | UNAMEm. -/
def rakp2Input (i : Inputs) : List UInt8 :=
  le32 i.consoleId ++ le32 i.bmcId ++ i.consoleRand ++ i.bmcRand ++ i.bmcGuid ++
    [i.role, UInt8.ofNat i.username.length] ++ i.username

/-- Rc | SIDm | ROLEm | ULENGTHm | UNAMEm. -/
def rakp3Input (i : Inputs) : List UInt8 :=
  i.bmcRand ++ le32 i.consoleId ++ [i.role, UInt8.ofNat i.username.length] ++ i.username

/-- Rm | SIDc | GUIDc. -/
def rakp4Input (i : Inputs) : List UInt8 := i.consoleRand ++ le32 i.bmcId ++ i.bmcGuid

/-- Rm | Rc | ROLEm | ULENGTHm | UNAMEm. -/
def sikInput (i : Inputs) : List UInt8 :=
  i.consoleRand ++ i.bmcRand ++ [i.role, UInt8.ofNat i.username.length] ++ i.username

/-! ### The RAKP exchange -/

/-- `keyedHash`: an unknown algorithm number aborts. -/
def keyedHash (alg : UInt8) (key data : List UInt8) : Except Fault (List UInt8) :=
  match algorithmFor alg with
  | some a => .ok (K.hmac a key data)
  | none => .error .assertFailed

/-- `assertSupportedAuthAlg`. -/
def supportedAuthAlg (alg : UInt8) : Bool :=
  alg == authRakpHmacSha1 || alg == authRakpHmacMd5 || alg == authRakpHmacSha256

/-- `lanplus_rakp2_hmac_matches`: RAKP-none is reported as a match. -/
def rakp2HmacMatches (session : Session) (bmcMac : List UInt8) (intf : Intf) :
    Except Fault Bool := do
  if session.v2.authAlg = authRakpNone then return true
  if !supportedAuthAlg session.v2.authAlg then throw .assertFailed
  let mac ← keyedHash K session.v2.authAlg (session.authcode.take 20)
    (rakp2Input (inputsFor session intf true))
  return bmcMac.take mac.length == mac

/-- The algorithm of RAKP 4: `intelplus` keys it by the integrity algorithm. -/
def rakp4Algorithm (session : Session) (intf : Intf) : UInt8 :=
  if intf.oemActive .intelplus then session.v2.integrityAlg else session.v2.authAlg

/-- `lanplus_rakp4_hmac_matches`. -/
def rakp4HmacMatches (session : Session) (bmcMac : List UInt8) (intf : Intf) :
    Except Fault Bool := do
  let alg := rakp4Algorithm session intf
  let compareLength ← if intf.oemActive .intelplus then do
      if session.v2.integrityAlg = integrityNone then return true
      match intelplusRakpAuthcodeLength alg with
      | some n => pure n
      | none => throw .assertFailed
    else do
      if session.v2.authAlg = authRakpNone then return true
      match rakpAuthcodeLength alg with
      | some n => pure n
      | none => throw .assertFailed
  let mac ← keyedHash K alg (session.v2.sik.take session.v2.sikLen)
    (rakp4Input (inputsFor session intf false))
  return bmcMac.take compareLength == mac.take compareLength

/-- `lanplus_generate_rakp3_authcode`. -/
def generateRakp3Authcode (session : Session) (intf : Intf) : Except Fault (List UInt8) := do
  if session.v2.authAlg = authRakpNone then return []
  if !supportedAuthAlg session.v2.authAlg then throw .assertFailed
  let inputs := inputsFor session intf false
  let inputs := if intf.oemActive .intelplus || intf.oemActive .i82571spt then
    { inputs with role := intf.ssnParams.privlvl } else inputs
  keyedHash K session.v2.authAlg (session.authcode.take 20) (rakp3Input inputs)

/-- `lanplus_generate_sik`: keyed with Kg if one is configured. -/
def generateSik (session : Session) (intf : Intf) : Except Fault Session := do
  let cleared := { session with v2 := { session.v2 with sik := List.replicate 32 0, sikLen := 0 } }
  if session.v2.authAlg = authRakpNone then return cleared
  if !supportedAuthAlg session.v2.authAlg then throw .assertFailed
  let key := if intf.ssnParams.kg.headD 0 ≠ 0 then intf.ssnParams.kg.take 20
    else session.authcode.take 20
  let mac ← keyedHash K session.v2.authAlg key (sikInput (inputsFor session intf true))
  return { session with v2 := { session.v2 with
    sik := mac ++ List.replicate (32 - mac.length) 0, sikLen := mac.length } }

/-- `generateK`: the constant is hashed under the SIK; with RAKP-none it is copied unhashed and the
length field is left alone. The result is the key array and its length field. -/
def generateK (session : Session) (const : UInt8) (key : List UInt8) (keyLen : ℕ) :
    Except Fault (List UInt8 × ℕ) := do
  if session.v2.authAlg = authRakpNone then
    return (List.replicate 20 const ++ key.drop 20, keyLen)
  let mac ← keyedHash K session.v2.authAlg (session.v2.sik.take session.v2.sikLen)
    (List.replicate 20 const)
  if !supportedAuthAlg session.v2.authAlg then throw .assertFailed
  return (mac ++ key.drop mac.length, mac.length)

/-- `lanplus_generate_k1`. -/
def generateK1 (session : Session) : Except Fault Session := do
  let (k, n) ← generateK K session 0x01 session.v2.k1 session.v2.k1Len
  return { session with v2 := { session.v2 with k1 := k, k1Len := n } }

/-- `lanplus_generate_k2`. -/
def generateK2 (session : Session) : Except Fault Session := do
  let (k, n) ← generateK K session 0x02 session.v2.k2 session.v2.k2Len
  return { session with v2 := { session.v2 with k2 := k, k2Len := n } }

/-! ### Payloads -/

/-- `lanplus_encrypt_payload`: the bytes that replace the payload and the 16-bit length written
back. The initialization vector comes first. -/
def encryptPayload (cryptAlg : UInt8) (key input iv : List UInt8) :
    Except Fault (List UInt8 × UInt16) :=
  if cryptAlg = cryptNone then .ok (input, UInt16.ofNat input.length)
  else if cryptAlg ≠ cryptAesCbc then .error .assertFailed
  else if 0xffff < input.length then .error .assertFailed
  else .ok (iv ++ K.cbcEncrypt (key.take 16) iv (pad input),
    UInt16.ofNat (blockSize + paddedLength input.length))

/-- `lanplus_decrypt_payload`: the bytes written over the input and the payload size. -/
def decryptPayload (cryptAlg : UInt8) (key input : List UInt8) :
    Except Fault (List UInt8 × UInt16) :=
  if cryptAlg = cryptNone then .ok (input, UInt16.ofNat input.length)
  else if cryptAlg ≠ cryptAesCbc then .error .assertFailed
  else
    -- `input_length -% block_size` on 32 bits
    let n := (input.length + 2 ^ 32 - blockSize) % 2 ^ 32
    if n = 0 ∨ n % blockSize ≠ 0 then .error .assertFailed
    else if input.length < blockSize then .error .outOfBounds
    else
      let decrypted := K.cbcDecrypt (key.take 16) (input.take blockSize) (input.drop blockSize)
      match payloadLength decrypted with
      | some size => .ok (decrypted, UInt16.ofNat size)
      | none => .error .assertFailed

/-- `lanplus_has_valid_auth_code`. -/
def hasValidAuthCode (rs : Response) (session : Session) : Except Fault Bool :=
  if rs.session.authtype ≠ authtypeRmcpPlus ∨ session.v2.sessionState ≠ .active ∨
      rs.session.bAuthenticated = false ∨ session.v2.integrityAlg = integrityNone then
    .ok true
  else
    match integrityAuthcodeLength session.v2.integrityAlg with
    | none => .error .assertFailed
    | some authcodeLength =>
      let dataLength := rs.dataLen - 4 - authcodeLength
      if dataLength < 0 ∨ bufSize < 4 + dataLength then .error .outOfBounds
      else do
        let data := read rs.data 4 dataLength.toNat
        let bmcAuthcode := read rs.data (4 + dataLength.toNat) authcodeLength
        let generated ← keyedHash K session.v2.integrityAlg
          (session.v2.k1.take session.v2.k1Len) data
        return bmcAuthcode == generated.take authcodeLength

end Ipmitool.Crypto.LanplusCrypt
