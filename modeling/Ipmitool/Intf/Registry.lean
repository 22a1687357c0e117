import Ipmitool.Core.Types

/-! # Payload sizes

The payload size negotiation of `intf/registry.zig`, with the setters the RMCP+ interface hooks into
it (`setMaxRqDataSize` and `setMaxRpDataSize` of `intf/lanplus.zig`) and the step of
`cmd/hpm2.zig` that stores what the BMC reported. The getters narrow the stored 16-bit size to a
signed one. -/

namespace Ipmitool.Intf.Registry

open Ipmitool.Core.Types

/-- `IPMI_DEFAULT_PAYLOAD_SIZE`. -/
def defaultPayloadSize : ℕ := 25

/-- The sizes `setup` of the RMCP+ interface starts with. -/
def maxRequestSize : UInt16 := 38
def maxResponseSize : UInt16 := 34

/-- `setup`, without seeding the random numbers. -/
def setup (intf : Intf) : Intf :=
  { intf with maxRequestDataSize := maxRequestSize, maxResponseDataSize := maxResponseSize }

/-- `getBridgingLevel`. -/
def getBridgingLevel (intf : Intf) : ℕ :=
  if intf.targetAddr ≠ 0 ∧ intf.targetAddr ≠ intf.myAddr then
    if intf.transitAddr ≠ 0 ∧
        (intf.transitAddr ≠ intf.targetAddr ∨ intf.transitChannel ≠ intf.targetChannel) then 2
    else 1
  else 0

/-- A result of 16-bit signed arithmetic. -/
def wrap (x : ℤ) : ℤ := (x + 32768) % 65536 - 32768

/-- The budget for a forwarded message: the Send Message request, the default size of what it
forwards, and the inner Send Message. -/
def bridgedSize (level : ℕ) (size : ℤ) : ℤ :=
  if level = 0 then size
  else
    let size := wrap (size - 8)
    let size := if (defaultPayloadSize : ℤ) < size then (defaultPayloadSize : ℤ) else size
    if level = 2 then wrap (size - 8) else size

/-- What the two getters share; `header` is the size that a forwarded message adds to the
default. -/
def dataSize (header : ℤ) (level : ℕ) (stored : UInt16) : ℕ :=
  let size := wrap stored.toNat
  let size := if size = 0 then (if level ≠ 0 then defaultPayloadSize + header
    else defaultPayloadSize)
    else size
  (bridgedSize level size).toNat

/-- `getMaxRequestDataSize`. -/
def getMaxRequestDataSize (intf : Intf) : ℕ :=
  dataSize 8 (getBridgingLevel intf) intf.maxRequestDataSize

/-- What `setMaxRqDataSize` and `setMaxRpDataSize` store: suite 3 pays for its encryption. -/
def encryptedSize (suite : CipherSuiteId) (size : UInt16) : UInt16 :=
  if suite = 3 then (size &&& ~~~15) - (16 + 1) else size

/-- `setMaxRqDataSize`. -/
def setMaxRqDataSize (intf : Intf) (size : UInt16) : Intf :=
  { intf with maxRequestDataSize := encryptedSize intf.ssnParams.cipherSuiteId size }

/-- `setMaxRpDataSize`. -/
def setMaxRpDataSize (intf : Intf) (size : UInt16) : Intf :=
  { intf with maxResponseDataSize := encryptedSize intf.ssnParams.cipherSuiteId size }

/-- `setMaxRequestDataSize`: a size below the default is refused. -/
def setMaxRequestDataSize (intf : Intf) (size : UInt16) : Intf :=
  if size.toNat < defaultPayloadSize then intf else setMaxRqDataSize intf size

/-- `setMaxResponseDataSize`. -/
def setMaxResponseDataSize (intf : Intf) (size : UInt16) : Intf :=
  if size.toNat < defaultPayloadSize - 1 then intf else setMaxRpDataSize intf size

/-- The last step of `detectMaxPayloadSize`, with the sizes the BMC reported. -/
def storePayloadSizes (intf : Intf) (maxInboundPldSize maxOutboundPldSize : UInt16) : Intf :=
  setMaxResponseDataSize (setMaxRequestDataSize intf (maxInboundPldSize - 7))
    (maxOutboundPldSize - 8)

end Ipmitool.Intf.Registry
