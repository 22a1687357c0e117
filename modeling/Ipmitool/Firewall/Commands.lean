import Mathlib.Logic.Function.Basic
import Ipmitool.Core.Interface

/-! # The firmware firewall

The commands of `cmd/firewall.zig` that change the firewall: `firewall enable`, `firewall disable`
and `firewall reset`. They ask the BMC which LUN/NetFn pairs it supports and for three masks of a
pair or of a command (`gatherInfo`), and send masks back.

A bitfield is a function from places to bytes, of which the source has sixteen, 32 or four. A status
is a `Bool`; that of `gatherInfo` is dropped by its callers. Left out are the output, the flags of a
command that only `firewall info` shows, and what happens without memory. `str2int` and
`is_ipmi_channel_num` are parameters. -/

namespace Ipmitool.Firewall.Commands

open Ipmitool.Lib.Mem Ipmitool.Lib.Machine Ipmitool.Lib.Dialogue Ipmitool.Core.Types
  Ipmitool.Core.Interface

/-! ### Bitfields -/

def bitMask (index : ℕ) : UInt8 := 1 <<< UInt8.ofNat (index % 8)

def bitTest (bf : Memory UInt8) (index : ℕ) : Bool := bf (index / 8) &&& bitMask index ≠ 0

def bitSet (bf : Memory UInt8) (index : ℕ) (value : Bool) : Memory UInt8 :=
  Function.update bf (index / 8)
    (if value then bf (index / 8) ||| bitMask index else bf (index / 8) &&& ~~~bitMask index)

/-! ### Arguments -/

/-- What is not given is negative. -/
structure Params where
  channel : UInt8 := 0xe
  lun : ℤ := -1
  netfn : ℤ := -1
  command : ℤ := -1
  subfn : ℤ := -1
  force : Bool := false
  deriving DecidableEq

/-- `str2int` and `is_ipmi_channel_num`. -/
structure Helpers where
  str2int : String → Option ℤ
  isIpmiChannelNum : String → Option UInt8

/-- The loop of `parseArgs`; a keyword without a value behind it is passed over. -/
def parseLoop (H : Helpers) : List String → Params → Option Params
  | [], p => some p
  | [word], p => some (if word = "force" then { p with force := true } else p)
  | word :: value :: rest, p =>
    if word = "channel" then
      (H.isIpmiChannelNum value).bind fun channel => parseLoop H rest { p with channel := channel }
    else if word = "lun" then (H.str2int value).bind fun lun =>
      parseLoop H rest { p with lun := lun }
    else if word = "force" then parseLoop H (value :: rest) { p with force := true }
    else if word = "netfn" then (H.str2int value).bind fun netfn =>
      parseLoop H rest { p with netfn := netfn }
    else if word = "command" then
      (H.str2int value).bind fun command => parseLoop H rest { p with command := command }
    else if word = "subfn" then (H.str2int value).bind fun subfn =>
      parseLoop H rest { p with subfn := subfn }
    else parseLoop H (value :: rest) p

/-- The checks behind the loop. -/
structure InRange (p : Params) : Prop where
  subfn : p.subfn < 32
  command : p.command < 256
  netfn : p.netfn < 64
  lun : p.lun < 4
  lun_of_netfn : 0 ≤ p.netfn → 0 ≤ p.lun
  netfn_of_command : 0 ≤ p.command → 0 ≤ p.netfn
  command_of_subfn : 0 ≤ p.subfn → 0 ≤ p.command

/-- `parseArgs`. -/
def parseArgs (H : Helpers) (argv : List String) : Option Params :=
  (parseLoop H argv {}).bind fun p =>
    if p.subfn ≥ 32 then none
    else if p.command ≥ 256 then none
    else if p.netfn ≥ 64 then none
    else if p.lun ≥ 4 then none
    else if p.netfn ≥ 0 ∧ p.lun < 0 then none
    else if p.command ≥ 0 ∧ p.netfn < 0 then none
    else if p.subfn ≥ 0 ∧ p.command < 0 then none
    else some p

/-! ### What is known of the BMC -/

/-- `Command`. -/
structure CommandInfo where
  subfnSupport : Memory UInt8 := fun _ => 0
  subfnConfig : Memory UInt8 := fun _ => 0
  subfnEnable : Memory UInt8 := fun _ => 0

structure Pair where
  support : Bool := false
  command : ℕ → CommandInfo := fun _ => {}
  commandMask : Memory UInt8 := fun _ => 0
  configMask : Memory UInt8 := fun _ => 0
  enableMask : Memory UInt8 := fun _ => 0

structure Lun where
  support : UInt8 := 0
  netfn : ℕ → Pair := fun _ => {}

/-- `Bmc`. -/
structure BmcInfo where
  lun : ℕ → Lun := fun _ => {}

def BmcInfo.pair (bmc : BmcInfo) (l n : ℕ) : Pair := (bmc.lun l).netfn n

def BmcInfo.setPair (bmc : BmcInfo) (l n : ℕ) (pair : Pair) : BmcInfo where
  lun :=
    Function.update bmc.lun l { bmc.lun l with netfn := Function.update (bmc.lun l).netfn n pair }

/-! ### Requests -/

/-- `MaskKind` and `SubfnKind`. -/
inductive MaskKind where
  | support
  | config
  | enable
  deriving DecidableEq

/-- Get Command Support, Get Configurable Commands and Get Command Enables. -/
def MaskKind.command : MaskKind → UInt8
  | .support => 0x0a
  | .config => 0x0c
  | .enable => 0x61

/-- The same for the sub-functions of a command. -/
def MaskKind.subfnCommand : MaskKind → UInt8
  | .support => 0x0b
  | .config => 0x0d
  | .enable => 0x63

/-- The NetFn, with a flag for the second half of the commands. -/
def netfnByte (netfn : ℤ) (op : ℕ) : UInt8 := UInt8.ofInt netfn ||| (if op = 1 then 0x40 else 0)

def getNetfnSupportRequest (channel : UInt8) : Command := ⟨netfnAppCmd, 0, 0x09, [channel]⟩

def getCommandMaskRequest (kind : MaskKind) (p : Params) (op : ℕ) : Command :=
  ⟨netfnAppCmd, 0, kind.command, [p.channel, netfnByte p.netfn op, UInt8.ofInt p.lun]⟩

def getSubfnMaskRequest (kind : MaskKind) (p : Params) : Command :=
  ⟨netfnAppCmd, 0, kind.subfnCommand,
    [p.channel, netfnByte p.netfn 0, UInt8.ofInt p.lun, UInt8.ofInt p.command]⟩

def setCommandEnablesRequest (p : Params) (op : ℕ) (mask : Memory UInt8) : Command :=
  ⟨netfnAppCmd, 0, 0x60, [p.channel, netfnByte p.netfn op,
    UInt8.ofInt p.lun] ++ read mask (16 * op) 16⟩

def setSubfnEnablesRequest (p : Params) (mask : Memory UInt8) : Command :=
  ⟨netfnAppCmd, 0, 0x62,
    [p.channel, netfnByte p.netfn 0, UInt8.ofInt p.lun, UInt8.ofInt p.command] ++ read mask 0 4⟩

section Program
variable {γ β : Type} (B : Bmc β)

/-- A request; its answer, if the completion code is good. -/
def query (c : Command) : Cmd γ β (Option Reply) := do
  match ← sendrecv B c with
  | none => return none
  | some rsp => return if rsp.ccode ≠ 0 then none else some rsp

/-! ### Discovery -/

/-- `getNetfnSupport`: the support of the LUNs and the bits of the pairs. -/
def getNetfnSupport (channel : UInt8) : Cmd γ β (Option ((ℕ → UInt8) × Memory UInt8)) := do
  match ← query B (getNetfnSupportRequest channel) with
  | none => return none
  | some rsp =>
    return some (fun l => (rsp.data 0 >>> UInt8.ofNat (2 * l)) &&& 3, fun i => rsp.data (1 + i))

/-- Sixteen bytes of a mask. -/
def storeHalf (mask : Memory UInt8) (op : ℕ) (data : Memory UInt8) : Memory UInt8 :=
  write mask (16 * op) (read data 0 16)

/-- The mask of a kind. -/
def Pair.mask (pair : Pair) : MaskKind → Memory UInt8
  | .support => pair.commandMask
  | .config => pair.configMask
  | .enable => pair.enableMask

def Pair.storeMask (pair : Pair) (kind : MaskKind) (op : ℕ) (data : Memory UInt8) : Pair :=
  let mask := storeHalf (pair.mask kind) op data
  match kind with
  | .support => { pair with commandMask := mask }
  | .config => { pair with configMask := mask }
  | .enable => { pair with enableMask := mask }

/-- `getCommandMask`. -/
def getCommandMask (kind : MaskKind) (p : Params) (pair : Pair) : Cmd γ β (Bool × Pair) := do
  match ← query B (getCommandMaskRequest kind p 0) with
  | none => return (false, pair)
  | some rsp =>
    let pair := pair.storeMask kind 0 rsp.data
    match ← query B (getCommandMaskRequest kind p 1) with
    | none => return (false, pair)
    | some rsp => return (true, pair.storeMask kind 1 rsp.data)

def CommandInfo.mask (cmd : CommandInfo) : MaskKind → Memory UInt8
  | .support => cmd.subfnSupport
  | .config => cmd.subfnConfig
  | .enable => cmd.subfnEnable

def CommandInfo.storeMask (cmd : CommandInfo) (kind : MaskKind) (data : Memory UInt8) :
    CommandInfo :=
  let mask := write (cmd.mask kind) 0 (read data 0 4)
  match kind with
  | .support => { cmd with subfnSupport := mask }
  | .config => { cmd with subfnConfig := mask }
  | .enable => { cmd with subfnEnable := mask }

/-- `getSubfnMask`. -/
def getSubfnMask (kind : MaskKind) (p : Params) (cmd : CommandInfo) :
    Cmd γ β (Bool × CommandInfo) := do
  match ← query B (getSubfnMaskRequest kind p) with
  | none => return (false, cmd)
  | some rsp => return (true, cmd.storeMask kind rsp.data)

/-- The three masks of a pair, all of which are asked for. -/
def getCommandMasks (p : Params) (pair : Pair) : Cmd γ β (Bool × Pair) := do
  let s ← getCommandMask B .support p pair
  let c ← getCommandMask B .config p s.2
  let e ← getCommandMask B .enable p c.2
  return (s.1 && c.1 && e.1, e.2)

/-- The three masks of a command. -/
def getSubfnMasks (p : Params) (cmd : CommandInfo) : Cmd γ β (Bool × CommandInfo) := do
  let s ← getSubfnMask B .support p cmd
  let c ← getSubfnMask B .config p s.2
  let e ← getSubfnMask B .enable p c.2
  return (s.1 && c.1 && e.1, e.2)

/-- What the answer to Get NetFn Support says about a LUN, if it is not another one than the
arguments name. -/
def noteLun (p : Params) (luns : ℕ → UInt8) (netfns : Memory UInt8) (l : ℕ) (lun : Lun) : Lun :=
  if p.lun ≥ 0 ∧ p.lun ≠ l then lun
  else
    { support := luns l
      netfn := fun n =>
        if luns l ≠ 0 ∧ n < 32 then
          { lun.netfn n with support := bitTest netfns (l * 32 + n) }
        else lun.netfn n }

def noteLuns (p : Params) (luns : ℕ → UInt8) (netfns : Memory UInt8) (bmc : BmcInfo) : BmcInfo where
  lun := fun l => if l < 4 then noteLun p luns netfns l (bmc.lun l) else bmc.lun l

/-- The masks of a pair are asked for if it is supported. -/
def askPair (p : Params) (l n : ℕ) (s : Bool × BmcInfo) : Cmd γ β (Bool × BmcInfo) :=
  if (s.2.pair l n).support then do
    let r ← getCommandMasks B { p with lun := l, netfn := 2 * n } (s.2.pair l n)
    return (r.1, s.2.setPair l n r.2)
  else pure s

/-- The body of the loops over the NetFns of a LUN; the status is that of the last pair asked
for. -/
def gatherPair (p : Params) (l : ℕ) (s : Bool × BmcInfo) (n : ℕ) : Cmd γ β (Bool × BmcInfo) := do
  let s ← askPair B p l n s
  return if s.1 then s else (s.1, s.2.setPair l n { s.2.pair l n with support := false })

/-- The loop over the NetFns of a LUN. -/
def gatherLun (p : Params) (s : Bool × BmcInfo) (l : ℕ) : Cmd γ β (Bool × BmcInfo) :=
  if (s.2.lun l).support ≠ 0 then (List.range 32).foldlM (gatherPair B p l) s else pure s

/-- The branch of `gatherInfo` for a single pair. -/
def gatherOne (p : Params) (bmc : BmcInfo) : Cmd γ β BmcInfo := do
  let l := p.lun.toNat
  let n := p.netfn.toNat / 2
  if (bmc.lun l).support = 0 ∨ ¬ (bmc.pair l n).support then return bmc
  else
    let r ← getCommandMasks B p (bmc.pair l n)
    if r.1 ∧ p.command ≥ 0 then
      let c ← getSubfnMasks B p (r.2.command p.command.toNat)
      return bmc.setPair l n { r.2 with command := Function.update r.2.command p.command.toNat c.2 }
    else return bmc.setPair l n r.2

/-- `gatherInfo`. -/
def gatherInfo (p : Params) (bmc : BmcInfo) : Cmd γ β BmcInfo := do
  let support ← getNetfnSupport B p.channel
  let bmc := match support with
    | none => bmc
    | some (luns, netfns) => noteLuns p luns netfns bmc
  if p.netfn ≥ 0 then gatherOne B p bmc
  else if p.lun ≥ 0 then do
    let s ← gatherLun B p (support.isSome, bmc) p.lun.toNat
    return s.2
  else do
    let s ← (List.range 4).foldlM (gatherLun B p) (support.isSome, bmc)
    return s.2

/-! ### Changes -/

/-- The bits of what is not configurable stay as they are. -/
def merge (config enable mask : Memory UInt8) : Memory UInt8 :=
  fun i => (config i &&& mask i) ||| (~~~config i &&& enable i)

/-- `SET_COMMAND_ENABLE_BYTE` and `SET_COMMAND_ENABLE_BIT`, the place of Set Command Enables. -/
def setCommandEnableByte : ℕ := 0x60 / 8

def setCommandEnableBit : UInt8 := 0x60 % 8

/-- What `setCommandEnables` makes of a mask. -/
def Pair.enables (pair : Pair) (mask : Memory UInt8) (gun : Bool) : Memory UInt8 :=
  let merged := merge pair.configMask pair.enableMask mask
  if gun then merged
  else
    Function.update merged setCommandEnableByte
      ((pair.configMask setCommandEnableByte &&& setCommandEnableBit) |||
        (~~~pair.configMask setCommandEnableByte &&& pair.enableMask setCommandEnableByte))

/-- `setCommandEnables`. -/
def setCommandEnables (p : Params) (pair : Pair) (mask : Memory UInt8) (gun : Bool) :
    Cmd γ β Bool := do
  match ← query B (setCommandEnablesRequest p 0 (pair.enables mask gun)) with
  | none => return false
  | some _ =>
    match ← query B (setCommandEnablesRequest p 1 (pair.enables mask gun)) with
    | none => return false
    | some _ => return true

/-- `setSubfnEnables`. -/
def setSubfnEnables (p : Params) (cmd : CommandInfo) (mask : Memory UInt8) : Cmd γ β Bool := do
  match ← query B (setSubfnEnablesRequest p (merge cmd.subfnConfig cmd.subfnEnable mask)) with
  | none => return false
  | some _ => return true

/-- All bits of a mask. -/
def splat (value : Bool) : Memory UInt8 := fun _ => if value then 0xff else 0

/-- `enableDisable`, with the arguments read. -/
def change (enable : Bool) (p : Params) : Cmd γ β Bool := do
  let bmc ← gatherInfo B p {}
  let pair := bmc.pair p.lun.toNat (p.netfn.toNat / 2)
  let cmd := pair.command p.command.toNat
  if p.subfn ≥ 0 then setSubfnEnables B p cmd (bitSet cmd.subfnEnable p.subfn.toNat enable)
  else if p.command ≥ 0 then do
    let s ← setSubfnEnables B p cmd (splat enable)
    let c ← setCommandEnables B p pair (bitSet pair.enableMask p.command.toNat enable) p.force
    return s && c
  else if p.netfn ≥ 0 then setCommandEnables B p pair (splat enable) p.force
  else return true

/-- `enableDisable`. -/
def enableDisable (H : Helpers) (enable : Bool) (args : List String) : Cmd γ β Bool :=
  if args = [] ∨ args.head? = some "help" then pure true
  else
    match parseArgs H args with
    | none => pure false
    | some p => change B enable p

/-- The loop of `reset` over the commands of a pair. -/
def resetCommands (p : Params) (pair : Pair) (ret : Bool) : Cmd γ β Bool :=
  (List.range 256).foldlM
    (fun _ (command : ℕ) => setSubfnEnables B { p with command := command } (pair.command command)
      (splat true)) ret

/-- A pair. The status of what was sent before is overwritten. -/
def resetPair (p : Params) (bmc : BmcInfo) (l : ℕ) (ret : Bool) (n : ℕ) : Cmd γ β Bool := do
  let p := { p with lun := l, netfn := 2 * n }
  let _ ← resetCommands B p (bmc.pair l n) ret
  setCommandEnables B { p with command := 255 } (bmc.pair l n) (splat true) false

/-- `reset`, with the arguments read. -/
def resetAll (p : Params) : Cmd γ β Bool := do
  let bmc ← gatherInfo B p {}
  (List.range 4).foldlM (fun ret l => (List.range 32).foldlM (resetPair B p bmc l) ret) true

/-- `reset`. -/
def reset (H : Helpers) (args : List String) : Cmd γ β Bool :=
  if args = [] then pure false
  else if args.head? = some "help" then pure true
  else
    match parseArgs H args with
    | none => pure false
    | some p => resetAll B p

end Program

end Ipmitool.Firewall.Commands
