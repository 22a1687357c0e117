import Ipmitool.Core.Interface
import Ipmitool.Lib.Linked
import Ipmitool.Sdr.Records

/-! # Walking the repository

`getReservation`, `sdrStart`, `getHeader`, `getNextHeader` and `getRecord` of `cmd/sdr.zig`. A
record is read in pieces, whose size is remembered in `maxRead` from one record to the next.
`sdrAddFromSensors`, which fills an empty repository, is a parameter: what it does to the BMC and to
`maxRead`.

The loop of `getRecord` repeats a request for which the reservation was cancelled, without a limit;
in the model it gives up after `renewals` of them. -/

namespace Ipmitool.Sdr.Walk

open Ipmitool.Lib Ipmitool.Lib.Mem Ipmitool.Lib.Bytes Ipmitool.Lib.Machine Ipmitool.Lib.Dialogue
open Ipmitool.Core.Types hiding Entry
open Ipmitool.Core.Interface Ipmitool.Sdr.Records

/-- What the walk knows of the interface, and its limits. -/
structure Env (β : Type) where
  maxResponse : ℕ
  renewals : ℕ := 0
  addFromSensors : β → ℤ → Bool × β × ℤ

/-- `SdrIterator`. -/
structure Itr where
  reservation : UInt16
  next : UInt16
  useBuiltIn : Bool

/-- The variables of the module. -/
structure Vars where
  useBuiltIn : Bool := false
  maxRead : ℤ := 0
  listItr : Option Itr := none
  list : Linked.Chain Entry := {}

/-- A program of the module. -/
abbrev Talk (β : Type) := Cmd Vars β

variable {β : Type} (B : Bmc β) (env : Env β)

/-! ### Requests -/

/-- The network function of the repository, or of the device. -/
def sdrNetfn (useBuiltIn : Bool) : UInt8 := if useBuiltIn then netfnSensor else netfnStorage

def reserveRequest (useBuiltIn : Bool) : Command := ⟨sdrNetfn useBuiltIn, 0, 0x22, []⟩

/-- `SdrGetRq`. -/
def getRequest (itr : Itr) (id : UInt16) (offset length : UInt8) : Command :=
  ⟨sdrNetfn itr.useBuiltIn, 0, if itr.useBuiltIn then 0x21 else 0x23,
    le16 itr.reservation ++ le16 id ++ [offset, length]⟩

/-- `getReservation`. -/
def getReservation (useBuiltIn : Bool) : Talk β (Option UInt16) := do
  match ← sendrecv B (reserveRequest useBuiltIn) with
  | none => return none
  | some r => return if r.ccode ≠ 0 then none else some (ofLe16 (r.data 0) (r.data 1))

/-- An iterator at the beginning, with a reservation. -/
def reserve (useBuiltIn : Bool) : Talk β (Option Itr) := do
  return (← getReservation B useBuiltIn).map fun reservation => ⟨reservation, 0, useBuiltIn⟩

/-- An empty repository is filled. -/
def fillEmpty : Talk β Bool := do
  let w ← get
  let r := env.addFromSensors w.device w.vars.maxRead
  set { w with device := r.2.1, vars := { w.vars with maxRead := r.2.2 } }
  return r.1

/-- `sdrStart` for the repository, once it is known what the device has. -/
def openRepository : Talk β (Option Itr) := do
  match ← sendrecv B ⟨netfnStorage, 0, 0x20, []⟩ with
  | none => return none
  | some r =>
    if r.ccode ≠ 0 then return none
    else
      let filled ← if r.data 1 = 0 ∧ r.data 2 = 0 then fillEmpty env else pure true
      if filled then reserve B false else return none

/-- `sdrStart` for the records of the device. -/
def openDevice : Talk β (Option Itr) := do
  match ← sendrecv B ⟨netfnSensor, 0, 0x20, []⟩ with
  | none => return none
  | some r => if r.dataLen = 0 ∨ r.ccode ≠ 0 then return none else reserve B true

/-- `sdrStart(intf, 0)`. -/
def sdrStart : Talk β (Option Itr) := do
  match ← sendrecv B ⟨netfnAppCmd, 0, 1, []⟩ with
  | none => return none
  | some r =>
    if r.ccode ≠ 0 then return none
    else if r.data 1 &&& 0x80 ≠ 0 ∧ r.data 5 &&& 2 = 0 ∧ r.data 5 &&& 1 = 0 then return none
    else
      if r.data 1 &&& 0x80 ≠ 0 ∧ r.data 5 &&& 2 = 0 then
        modify fun w => { w with vars := { w.vars with useBuiltIn := true } }
      let w ← get
      if w.vars.useBuiltIn then openDevice B else openRepository B env

/-! ### Headers -/

/-- `SdrGetRs`. -/
structure Header where
  next : UInt16
  id : UInt16
  version : UInt8
  type : UInt8
  length : UInt8

/-- The header in a response; the identifier that was asked for is put back. -/
def headerOf (next : UInt16) (r : Reply) : Option Header :=
  if r.dataLen < 7 ∨ r.data 6 = 0 then none
  else
    let id := ofLe16 (r.data 2) (r.data 3)
    some ⟨ofLe16 (r.data 0) (r.data 1), if next ≠ 0 ∧ id ≠ next then next else id,
      r.data 4, r.data 5, r.data 6⟩

/-- The loop of `getHeader`: the response, and the iterator. -/
def headerTries : ℕ → Itr → Talk β (Option Reply × Itr)
  | 0, itr => return (none, itr)
  | tries + 1, itr => do
    match ← sendrecv B (getRequest itr itr.next 0 5) with
    | none => headerTries tries itr
    | some r =>
      if r.ccode = 0xc5 then
        match ← getReservation B itr.useBuiltIn with
        | none => return (none, itr)
        | some reservation => headerTries tries { itr with reservation }
      else if r.ccode ≠ 0 then headerTries tries itr
      else return (some r, itr)

/-- `getHeader`. -/
def getHeader (itr : Itr) : Talk β (Option Header × Itr) := do
  let r ← headerTries B 5 itr
  return (r.1.bind (headerOf itr.next), r.2)

/-- `getNextHeader`. -/
def getNextHeader (itr : Itr) : Talk β (Option Header × Itr) := do
  if itr.next = 0xffff then return (none, itr)
  else
    let r ← getHeader B itr
    match r.1 with
    | none => return (none, r.2)
    | some h => return (some h, { r.2 with next := h.next })

/-! ### Records -/

/-- `sdr_max_read_len`, which is set at first. A negative one does not fit the length of a
request. -/
def readLen : Talk β ℕ := do
  let w ← get
  if w.vars.maxRead < 0 then throw .overflow
  else if w.vars.maxRead ≠ 0 then return w.vars.maxRead.toNat
  else if env.maxResponse < 2 then throw .overflow
  else
    let size := min (env.maxResponse - 2) 0xfe
    set { w with vars := { w.vars with maxRead := size } }
    return size

def setReadLen (size : ℤ) : Talk β Unit :=
  modify fun w => { w with vars := { w.vars with maxRead := size } }

/-- The loop of `getRecord`, which has read `data` so far. -/
def recordLoop (h : Header) : ℕ → Itr → ℕ → List UInt8 → Talk β (Option (List UInt8) × Itr)
  | 0, itr, _, _ => return (none, itr)
  | fuel + 1, itr, maxRead, data => do
    if h.length.toNat ≤ data.length then return (some data, itr)
    else if 255 < data.length + 5 then throw .overflow
    else
      let length := min (h.length.toNat - data.length) maxRead
      match ← sendrecv B (getRequest itr h.id (UInt8.ofNat (data.length + 5))
        (UInt8.ofNat length)) with
      | none =>
        setReadLen ((length : ℤ) - 1)
        if length - 1 = 0 then return (none, itr) else recordLoop h fuel itr (length - 1) data
      | some r =>
        if r.ccode = 0xca then
          setReadLen ((length : ℤ) - 1)
          if length - 1 = 0 then return (none, itr) else recordLoop h fuel itr (length - 1) data
        else if r.ccode = 0xc5 then
          match ← getReservation B itr.useBuiltIn with
          | none => return (none, itr)
          | some reservation => recordLoop h fuel { itr with reservation } maxRead data
        else if r.ccode ≠ 0 ∨ r.dataLen < 2 + length then return (none, itr)
        else recordLoop h fuel itr maxRead (data ++ Mem.read r.data 2 length)

/-- `getRecord`. -/
def getRecord (h : Header) (itr : Itr) : Talk β (Option (List UInt8) × Itr) := do
  if h.length = 0 then return (none, itr)
  else
    let maxRead ← readLen env
    let r ← recordLoop B h (h.length.toNat + maxRead + env.renewals + 1) itr maxRead []
    return (r.1.filter (recordLengthValid h.type), r.2)

end Ipmitool.Sdr.Walk
