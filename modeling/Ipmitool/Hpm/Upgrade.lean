import Ipmitool.Hpm.Image

/-! # The stages of an upgrade

`upgrade` of `cmd/hpmfwupg.zig` with its stages: preparation, pre-check, upload and activation. What
is displayed is left out, and so is `cold_reset`, which only the display reads.

The loop of an upload may go on forever (a target that answers every block with a response of the
wrong length), so it has fuel; an upload that runs out of fuel counts as failed. -/

namespace Ipmitool.Hpm.Upgrade

open Ipmitool.Lib.Bytes Ipmitool.Lib.Machine Ipmitool.Lib.Dialogue Ipmitool.Core.Interface
open Ipmitool.Hpm.Agent Ipmitool.Hpm.Image

variable {β : Type} (B : Bmc β) (env : Env)

/-! ### Preparation -/

/-- The questions about the properties of the components of the image. -/
def propertiesLoop (components : UInt8) : List ℕ → (ℕ → UInt8) → Talk β (Option (ℕ → UInt8))
  | [], properties => return some properties
  | id :: ids, properties => do
    if bit components id then
      match ← getProperty B env (UInt8.ofNat id) with
      | none => return none
      | some flags => propertiesLoop components ids (Function.update properties id flags)
    else propertiesLoop components ids (Function.update properties id 0)

/-- The tests of `preparation` on the device. -/
def deviceFits (header : Header) (dev : Device) (mode : Mode) : Talk β Bool := do
  let fits ← if header.device = dev.id ∧ header.product = dev.product ∧
      header.manufacturer = dev.manufacturer then pure true
    else if mode.force ∨ mode.view then askUser else pure false
  if ¬ fits then return false
  else if dev.fw1 < header.compRevision0 ∨
      (header.compRevision0 = dev.fw1 ∧ dev.fw2 < header.compRevision1) then
    if mode.force ∨ mode.view then askUser else return false
  else return true

/-- The tests of `preparation` on the target. -/
def targetFits (header : Header) (target : Capabilities) (mode : Mode) : Talk β Bool :=
  if mode.view then return true
  else if header.components &&& target.components ≠ header.components then return false
  else if bit target.flags 7 then return false
  else if ¬ mode.compare ∧ (bit target.flags 3 ∨ bit header.flags 4) then askUser
  else return true

/-- `preparation`: none if it fails. -/
def preparation (ctx : Upgrade) (mode : Mode) : Talk β (Option Upgrade) := do
  match ← getDevice B env with
  | none => return none
  | some dev =>
    if ¬ (← deviceFits ctx.header dev mode) then return none
    else
      match ← getCapabilities B env with
      | none => return none
      | some target =>
        if ¬ (← targetFits ctx.header target mode) then return none
        else
          match ← propertiesLoop B env ctx.header.components (List.range 8) ctx.properties with
          | none => return none
          | some properties => return some { ctx with target, properties }

/-! ### Upload -/

/-- `BlockResult`. -/
inductive BlockResult where
  | ok (offset length : ℕ)
  | resize
  | retry
  | failed
  deriving DecidableEq

/-- The section that the response to a block names; a response of the wrong length counts as the
completion code 0x82. -/
def sectionOf (code : UInt8) (d : List UInt8) : UInt8 × ℕ × ℕ :=
  if (code = 0 ∨ code = 0x80) ∧ 1 < d.length then
    if d.length = 9 then
      (code, (ofLe32 (d.getD 1 0) (d.getD 2 0) (d.getD 3 0) (d.getD 4 0)).toNat,
        (ofLe32 (d.getD 5 0) (d.getD 6 0) (d.getD 7 0) (d.getD 8 0)).toNat)
    else (0x82, 0, 0)
  else (code, 0, 0)

/-- What becomes of a block with this completion code. -/
def blockResult (code : UInt8) (offset length : ℕ) : Talk β BlockResult := do
  if code = 0x80 then
    if ← waitLong B env then return .ok offset length else return .failed
  else if code = 0 then return .ok offset length
  else if ← retryable code then return .retry
  else if code = 0xc7 ∨ code = 0xc8 then return .resize
  else return .failed

/-- `uploadBlock`. -/
def uploadBlock (data : List UInt8) : Talk β BlockResult := do
  match ← send B env 0x32 data with
  | none => return .failed
  | some r =>
    if (r.ccode = 0 ∨ r.ccode = 0x80) ∧ responseData r = none then return .failed
    else
      let s := sectionOf r.ccode ((responseData r).getD [])
      blockResult B env s.1 s.2.1 s.2.2

/-- `finishUpload`. -/
def finishUpload (component sent : ℕ) (mode : Mode) : Talk β Bool := do
  match ← send B env 0x33 ([0, UInt8.ofNat component] ++ le32 (UInt32.ofNat sent)) with
  | none => return false
  | some r =>
    if r.ccode = 0x80 then waitLong B env
    else return (mode.compare ∧ r.ccode = 0x83) ∨ r.ccode = 0

/-- Where an upload stands. -/
structure Transfer where
  chunkSize : ℕ
  sizeKnown : Bool := false
  totalSent : ℕ := 0
  sectionStart : ℕ := 0
  sectionLength : ℕ
  position : ℕ := 0
  block : UInt8 := 0

/-- A smaller block; none if the size was right before, or if nothing is left of it. -/
def Transfer.shrink (t : Transfer) : Option Transfer :=
  let chunkSize := if env.lan ∧ 8 < t.chunkSize then t.chunkSize - 8 else t.chunkSize - 1
  if t.sizeKnown ∨ t.chunkSize = 0 ∨ chunkSize = 0 then none else some { t with chunkSize }

/-- After `count` bytes were taken: the transfer goes on behind them, or in the section that the
target named. -/
def Transfer.advance (t : Transfer) (size count offset length : ℕ) : Option Transfer :=
  let totalSent := t.totalSent + count
  if size < offset ∨ size - offset < length then none
  else if 3 * size < totalSent then none
  else if offset ≠ 0 then
    if length = 0 then none
    else some { t with
      sizeKnown := true, totalSent, sectionStart := offset, sectionLength := length
      position := offset, block := t.block + 1 }
  else some { t with
    sizeKnown := true, totalSent, position := t.position + count, block := t.block + 1 }

/-- The bytes of the next block. -/
def Transfer.chunk (t : Transfer) (payload : List UInt8) : List UInt8 :=
  (payload.drop t.position).take (min t.chunkSize (t.sectionStart + t.sectionLength - t.position))

/-- The loop of `uploadFirmware`: the number of bytes sent; none if it fails. -/
def uploadLoop (payload : List UInt8) : ℕ → Transfer → Talk β (Option ℕ)
  | 0, _ => return none
  | fuel + 1, t => do
    if t.position < t.sectionStart + t.sectionLength then
      match ← uploadBlock B env ([0, t.block] ++ t.chunk payload) with
      | .resize =>
        match t.shrink env with
        | none => return none
        | some t => uploadLoop payload fuel t
      | .retry => uploadLoop payload fuel t
      | .failed => return none
      | .ok offset length =>
        match t.advance payload.length (t.chunk payload).length offset length with
        | none => return none
        | some t => uploadLoop payload fuel t
    else return some t.totalSent

/-- `uploadFirmware`. -/
def uploadFirmware (fuel : ℕ) (ctx : Upgrade) (r : Record) (mode : Mode) : Talk β Bool := do
  if ¬ bit ctx.mask r.component then return true
  else if env.maxRequest.toNat ≤ 2 then return false
  else if ¬ (← action B env r.components (if mode.compare then 3 else 2)) then return false
  else
    match ← uploadLoop B env r.payload fuel
        { chunkSize := env.maxRequest.toNat - 2, sectionLength := r.payload.length } with
    | none => return false
    | some sent => finishUpload B env r.component sent mode

/-- The loop of `upgradeStage`; the context remembers the component of the last upload record. -/
def stageLoop (fuel : ℕ) (mode : Mode) : List Record → Upgrade → Talk β (Bool × Upgrade)
  | [], ctx => return (true, ctx)
  | r :: rs, ctx => do
    if r.kind = 2 then
      let ctx := { ctx with component := r.component }
      if ← uploadFirmware B env fuel ctx r mode then stageLoop fuel mode rs ctx
      else return (false, ctx)
    else if ¬ mode.compare ∧ r.components &&& ctx.mask ≠ 0 then
      if ← action B env (r.components &&& ctx.mask) r.kind then stageLoop fuel mode rs ctx
      else return (false, ctx)
    else stageLoop fuel mode rs ctx

/-- `upgradeStage`. -/
def upgradeStage (fuel : ℕ) (ctx : Upgrade) (mode : Mode) : Talk β (Bool × Upgrade) := do
  let rs := records ctx.image ctx.header
  let s ← stageLoop B env fuel mode rs.1 ctx
  return (s.1 && rs.2, s.2)

/-! ### Activation -/

/-- A self test is required. -/
def selftestRequired (ctx : Upgrade) : Bool := bit ctx.target.flags 0 ∨ bit ctx.header.flags 7

/-- `activationStage` before the question about a rollback. -/
def activated (ctx : Upgrade) : Talk β Bool := do
  if ¬ (← activate B env) then return false
  else if selftestRequired ctx then
    match ← querySelftest B env with
    | none => return false
    | some result => return result.1 = 0x55
  else return true

/-- The target rolls back by itself. -/
def rollsBack (ctx : Upgrade) : Bool :=
  bit ctx.target.flags 1 ∧ ctx.properties ctx.component &&& 3 ≠ 0

/-- `activationStage`. -/
def activationStage (ctx : Upgrade) : Talk β Bool := do
  let ok ← activated B env ctx
  if ¬ ok ∧ rollsBack ctx then rollbackStatus B env else return ok

/-! ### `upgrade` -/

/-- The stages before the activation: the context with the mask; none if they fail. -/
def prepared (fuel : ℕ) (image : List UInt8) (header : Header) (mode : Mode) (selected : ℕ)
    (versions : Versions) : Talk β (Option Upgrade) := do
  match ← preparation B env { image, header } mode with
  | none => return none
  | some ctx =>
    match precheck ctx mode selected versions with
    | none => return none
    | some ctx =>
      if mode.view then return some ctx
      else
        let s ← upgradeStage B env fuel ctx mode
        return if s.1 then some s.2 else none

/-- `upgrade` with the image that was read. -/
def upgrade (md5 : List UInt8 → List UInt8) (fuel : ℕ) (image : List UInt8) (activateAfter : Bool)
    (selected : ℕ) (mode : Mode) (versions : Versions) : Talk β ℤ := do
  match validateImage md5 image with
  | none => return -1
  | some header =>
    match ← prepared B env fuel image header mode selected versions with
    | none => return -1
    | some ctx =>
      if activateAfter ∧ ctx.mask ≠ 0 then
        return if ← activationStage B env ctx then 0 else -1
      else return 0

end Ipmitool.Hpm.Upgrade
