import Ipmitool.Core.Types
import Ipmitool.Lib.Dialogue

/-! # Commands

What the command modules see of an interface: `intf.sendrecv` takes a request and comes back with a
response or with nothing. A command module is a program that talks to a device in this sense; the
device stands for the transport and the BMC behind it. The response buffer belongs to the transport
and is longer than the response in it, so a reply gives the whole buffer and the length. -/

namespace Ipmitool.Core.Interface

open Ipmitool.Lib.Mem Ipmitool.Lib.Machine Ipmitool.Lib.Dialogue Ipmitool.Core.Types

/-- `struct ipmi_rq`, as a command module fills it in. -/
structure Command where
  netfn : UInt8
  lun : UInt8 := 0
  cmd : UInt8
  data : List UInt8 := []
  deriving DecidableEq

/-- `struct ipmi_rs`, as a command module reads it. -/
structure Reply where
  ccode : UInt8 := 0
  data : Memory UInt8 := fun _ => 0
  dataLen : ℕ := 0

/-- A reply with the completion code zero and these bytes. -/
def Reply.of (bytes : List UInt8) : Reply where
  data := fun i => bytes.getD i 0
  dataLen := bytes.length

/-- The transport and the BMC. -/
abbrev Bmc (β : Type) := Device β Command (Option Reply)

/-- The world of a command module with variables `γ`. -/
abbrev CmdWorld (γ β : Type) := World γ β Command (Option Reply)

/-- A program of a command module. -/
abbrev Cmd (γ β : Type) := Prog Fault (CmdWorld γ β)

/-- What was asked and what came back. -/
abbrev Exchange := Command × Option Reply

/-- `intf.sendrecv`. -/
abbrev sendrecv {γ β : Type} (B : Bmc β) (c : Command) : Cmd γ β (Option Reply) := ask B c

/-- The network functions the command modules use. -/
def netfnSensor : UInt8 := 0x04
def netfnAppCmd : UInt8 := 0x06
def netfnStorage : UInt8 := 0x0a
def netfnTransport : UInt8 := 0x0c
def netfnPicmg : UInt8 := 0x2c

end Ipmitool.Core.Interface
