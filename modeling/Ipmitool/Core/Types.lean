import Ipmitool.Lib.Mem
import Ipmitool.Lib.Bytes
import Mathlib.Data.Int.Notation

/-! # Requests, responses, sessions and interfaces

The types of `core/ipmi.zig` and `intf/intf.zig` that the LAN transports pass around. Byte arrays
are memories (`Lib.Mem`); the union `Response.payload` is a memory too, read through its arms at the
offsets of the C layout, so that a read through another arm than the one written sees the same
bytes.

An interface is open exactly while it has a session: `open` stores the session and sets `opened`
together, `close` clears both. The flag `opened` is therefore `Option.isSome` of the session. -/

namespace Ipmitool.Core.Types

open Ipmitool.Lib.Mem Ipmitool.Lib.Bytes

/-! ### Faults -/

/-- Why a program stops without returning: a failed `assert`, an index outside an array, a checked
addition that overflows, an unwrapped null, or an access through a pointer to a freed entry. -/
inductive Fault where
  | assertFailed
  | outOfBounds
  | overflow
  | nullUnwrap
  | useAfterFree
  deriving DecidableEq, Repr

/-! ### Constants -/

/-- `IPMI_BUF_SIZE`. -/
def bufSize : ℕ := 1024

/-- `IPMI_BMC_SLAVE_ADDR`. -/
def bmcSlaveAddr : UInt8 := 0x20

/-- `IPMI_REMOTE_SWID`. -/
def remoteSwid : UInt8 := 0x81

/-- `IPMI_NETFN_APP`. -/
def netfnApp : Fin 64 := 0x06

/-- `IPMI_NETFN_TRANSPORT`. -/
def netfnTransport : Fin 64 := 0x0c

/-- `IPMI_NETFN_PICMG`. -/
def netfnPicmg : Fin 64 := 0x2c

/-- `RMCP_CLASS_ASF`. -/
def rmcpClassAsf : UInt8 := 0x06

/-- `RMCP_CLASS_IPMI`. -/
def rmcpClassIpmi : UInt8 := 0x07

/-- `IPMI_SESSION_AUTHTYPE_RMCP_PLUS`. -/
def authtypeRmcpPlus : UInt8 := 0x06

/-- `IPMI_SESSION_PRIV_USER`. -/
def privUser : UInt8 := 0x02

/-- `IPMI_SESSION_PRIV_ADMIN`. -/
def privAdmin : UInt8 := 0x04

/-- The RMCP header of every IPMI packet: version 1, sequence 0xff, class IPMI. -/
def rmcpHdr : List UInt8 := [0x06, 0x00, 0xff, rmcpClassIpmi]

/-! ### Payload types, table 13-16 -/

def ptIpmi : UInt8 := 0x00
def ptSol : UInt8 := 0x01
def ptOpenRequest : UInt8 := 0x10
def ptOpenResponse : UInt8 := 0x11
def ptRakp1 : UInt8 := 0x12
def ptRakp2 : UInt8 := 0x13
def ptRakp3 : UInt8 := 0x14
def ptRakp4 : UInt8 := 0x15

/-! ### Requests -/

theorem bmcLun_lt : 0 < 4 := by decide

/-- The LUN that the commands of the transports go to. -/
abbrev bmcLun : Fin 4 := ⟨0, bmcLun_lt⟩

theorem no_data_lt : ([] : List UInt8).length < 65536 := by decide

/-- `struct ipmi_rq`: one outbound request. The data length is a 16-bit number. -/
structure Request where
  netfn : Fin 64
  lun : Fin 4
  cmd : UInt8
  targetCmd : UInt8 := 0
  data : List UInt8
  data_lt : data.length < 65536 := by exact Nat.le_of_ble_eq_true rfl
  deriving DecidableEq

/-- `@as(u8, netfn) << 2 | (lun & 3)`. -/
def Request.netfnLun (r : Request) : UInt8 := UInt8.ofNat (r.netfn.val <<< 2 ||| r.lun.val)

/-- `struct ipmi_rq_entry`: a request in flight. The address tells two entries with equal contents
apart, as their pointers do. -/
structure Entry where
  addr : ℕ
  req : Request
  rqSeq : UInt8
  bridgingLevel : ℕ := 0
  deriving DecidableEq

/-! ### Responses -/

/-- The session header of a response. -/
structure RspSession where
  authtype : UInt8 := 0
  seq : UInt32 := 0
  id : UInt32 := 0
  bEncrypted : Bool := false
  bAuthenticated : Bool := false
  payloadtype : UInt8 := 0
  msglen : UInt16 := 0
  deriving DecidableEq

/-- `struct ipmi_rs`: one inbound response. -/
structure Response where
  ccode : UInt8 := 0
  data : Memory UInt8 := fun _ => 0
  dataLen : ℤ := 0
  session : RspSession := {}
  payload : Memory UInt8 := fun _ => 0

/-! The arms of the payload union. -/

section Payload
variable (r : Response)

/-- `ipmi_response.netfn`. -/
def Response.netfn : UInt8 := r.payload 1
/-- `ipmi_response.rq_seq`. -/
def Response.rqSeq : UInt8 := r.payload 4
/-- `ipmi_response.cmd`. -/
def Response.cmd : UInt8 := r.payload 6

/-- `rakp_return_code`, at offset 1 in `open_session_response`, `rakp2_message` and
`rakp4_message`. -/
def Response.rakpReturnCode : UInt8 := r.payload 1
/-- `open_session_response.max_priv_level`. -/
def Response.maxPrivLevel : UInt8 := r.payload 2
/-- `open_session_response.bmc_id`. -/
def Response.bmcId : UInt32 := ofLe32 (r.payload 8) (r.payload 9) (r.payload 10) (r.payload 11)
/-- `open_session_response.auth_alg`. -/
def Response.authAlg : UInt8 := r.payload 12
/-- `open_session_response.integrity_alg`. -/
def Response.integrityAlg : UInt8 := r.payload 13
/-- `open_session_response.crypt_alg`. -/
def Response.cryptAlg : UInt8 := r.payload 14
/-- `rakp2_message.bmc_rand`. -/
def Response.bmcRand : List UInt8 := read r.payload 8 16
/-- `rakp2_message.bmc_guid`. -/
def Response.bmcGuid : List UInt8 := read r.payload 24 16
/-- `rakp2_message.key_exchange_auth_code`. -/
def Response.keyExchangeAuthCode : List UInt8 := read r.payload 40 32
/-- `rakp4_message.integrity_check_value`. -/
def Response.integrityCheckValue : List UInt8 := read r.payload 8 32

/-- `sol_packet.packet_sequence_number`. -/
def Response.solSeq : UInt8 := r.payload 0
/-- `sol_packet.acked_packet_number`. -/
def Response.ackedPacketNumber : UInt8 := r.payload 1
/-- `sol_packet.accepted_character_count`. -/
def Response.acceptedCharacterCount : UInt8 := r.payload 2
/-- `sol_packet.is_nack`. -/
def Response.isNack : UInt8 := r.payload 3
/-- `sol_packet.transfer_unavailable`. -/
def Response.transferUnavailable : UInt8 := r.payload 4
/-- `sol_packet.sol_inactive`. -/
def Response.solInactive : UInt8 := r.payload 5

end Payload

/-- The first `dataLen` bytes of the data. -/
def Response.bytes (r : Response) : List UInt8 := read r.data 0 r.dataLen.toNat

/-! ### Outbound payloads -/

theorem no_characters_le : ([] : List UInt8).length ≤ bufSize := by decide

/-- `V2Payload.sol_packet`. At most 1024 characters fit its data array. -/
structure SolPacket where
  data : List UInt8
  packetSequenceNumber : UInt8 := 0
  ackedPacketNumber : UInt8 := 0
  acceptedCharacterCount : UInt8 := 0
  isNack : Bool := false
  assertRingWor : Bool := false
  generateBreak : Bool := false
  deassertCts : Bool := false
  deassertDcdDsr : Bool := false
  flushInbound : Bool := false
  flushOutbound : Bool := false
  data_le : data.length ≤ bufSize := by exact Nat.le_of_ble_eq_true rfl
  deriving DecidableEq

/-- `struct ipmi_v2_payload`, by payload type. -/
inductive V2Payload where
  | ipmi (req : Request)
  | openRequest (msg : List UInt8)
  | rakp1 (msg : List UInt8)
  | rakp3 (msg : List UInt8)
  | sol (p : SolPacket)

/-! ### Sessions -/

/-- `enum LANPLUS_SESSION_STATE`. -/
inductive SessionState where
  | presession
  | openSessionSent
  | openSessionReceived
  | rakp1Sent
  | rakp2Received
  | rakp3Sent
  | active
  | closeSent
  deriving DecidableEq, Repr

/-- `Session.V2Data`: the RMCP+ state. -/
structure V2Data where
  sessionState : SessionState := .presession
  requestedAuthAlg : UInt8 := 0
  requestedIntegrityAlg : UInt8 := 0
  requestedCryptAlg : UInt8 := 0
  authAlg : UInt8 := 0
  integrityAlg : UInt8 := 0
  cryptAlg : UInt8 := 0
  maxPrivLevel : UInt8 := 0
  consoleId : UInt32 := 0
  bmcId : UInt32 := 0
  consoleRand : List UInt8 := List.replicate 16 0
  bmcRand : List UInt8 := List.replicate 16 0
  bmcGuid : List UInt8 := List.replicate 16 0
  requestedRole : UInt8 := 0
  rakp2ReturnCode : UInt8 := 0
  sik : List UInt8 := List.replicate 32 0
  sikLen : ℕ := 0
  k1 : List UInt8 := List.replicate 32 0
  k1Len : ℕ := 0
  k2 : List UInt8 := List.replicate 32 0
  k2Len : ℕ := 0
  deriving DecidableEq

/-- `struct ipmi_session`: `sequence_number` and the presence of `sol_input_handler` belong to its
`sol_data`. -/
structure Session where
  active : Bool := false
  sessionId : UInt32 := 0
  inSeq : UInt32 := 0
  outSeq : UInt32 := 0
  authcode : List UInt8 := List.replicate 20 0
  challenge : List UInt8 := List.replicate 16 0
  authtype : UInt8 := 0
  authstatus : UInt8 := 0
  timeout : UInt32 := 0
  v2 : V2Data := {}
  solSequenceNumber : UInt8 := 0
  solInputHandler : Bool := false
  deriving DecidableEq

/-! ### Interfaces -/

/-- `enum cipher_suite_ids`: a suite number, `0xff` when none was chosen. -/
abbrev CipherSuiteId := UInt32

/-- `IPMI_LANPLUS_CIPHER_SUITE_RESERVED`. -/
def suiteReserved : CipherSuiteId := 0xff

/-- `struct ipmi_session_params`: what the command line supplied. -/
structure SessionParams where
  hostname : List UInt8 := [0x68]
  username : List UInt8 := []
  authcodeSet : List UInt8 := List.replicate 20 0
  authtypeSet : UInt8 := 0
  privlvl : UInt8 := 0
  cipherSuiteId : CipherSuiteId := suiteReserved
  password : Bool := false
  retry : ℤ := 0
  timeout : UInt32 := 0
  kg : List UInt8 := List.replicate 20 0
  lookupbit : UInt8 := 0x10

/-- The OEM handles the LAN transports ask for by name (`ipmi_oem_active`). -/
inductive Oem where
  | icts
  | intelplus
  | intelwv2
  | i82571spt
  | supermicro
  deriving DecidableEq, Repr

/-- `struct ipmi_intf`, without its vtable. -/
structure Intf where
  fd : ℤ := -1
  abort : Bool := false
  noanswer : Bool := false
  manufacturerId : UInt32 := 0
  ssnParams : SessionParams := {}
  session : Option Session := none
  oem : Option Oem := none
  myAddr : UInt32 := 0
  targetAddr : UInt32 := 0x20
  targetChannel : UInt8 := 0
  transitAddr : UInt32 := 0
  transitChannel : UInt8 := 0
  maxRequestDataSize : UInt16 := 0
  maxResponseDataSize : UInt16 := 0

/-- `ipmi_oem_active`. -/
def Intf.oemActive (i : Intf) (o : Oem) : Bool := i.oem == some o

/-- The 8-bit address the transports answer to: the low byte of `my_addr`, or the BMC's own address
if that byte is zero. -/
def Intf.ourAddress (i : Intf) : UInt8 :=
  if i.myAddr.toUInt8 = 0 then bmcSlaveAddr else i.myAddr.toUInt8

end Ipmitool.Core.Types
