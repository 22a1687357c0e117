import Mathlib.Algebra.Group.Int.Defs
import Ipmitool.Core.Interface

/-! # The entries of the system event log

`getStdEntry` and `savelistEntries` of `cmd/sel.zig`. An entry is read with Get SEL Entry, which
also gives the id of the next one; id zero asks for the first entry and 0xffff ends the log. Id zero
is also what `getStdEntry` returns when it fails.

The union of a `SelEventRecord` is the thirteen bytes that its three views share. What the printers
of the terminal write is not modelled beyond the record they are given; what is written to the file
is. -/

namespace Ipmitool.Sel.Entries

open Ipmitool.Lib.Mem Ipmitool.Lib.Bytes Ipmitool.Lib.Machine Ipmitool.Lib.Dialogue
open Ipmitool.Core.Types Ipmitool.Core.Interface

variable {β : Type} (B : Bmc β)

/-! ### Records -/

/-- `SelEventRecord`; `selType` are the bytes of the union. -/
structure SelEventRecord where
  recordId : UInt16 := 0
  recordType : UInt8 := 0
  selType : List UInt8 := List.replicate 13 0
  deriving DecidableEq, Repr

/-- `StandardSpecSelRec`; `td` holds the event type and, in bit 7, the direction. -/
structure StandardSpecSelRec where
  timestamp : UInt32 := 0
  genId : UInt16 := 0
  evmRev : UInt8 := 0
  sensorType : UInt8 := 0
  sensorNum : UInt8 := 0
  td : UInt8 := 0
  eventData0 : UInt8 := 0
  eventData1 : UInt8 := 0
  eventData2 : UInt8 := 0

/-- The bytes of the standard view. -/
def StandardSpecSelRec.bytes (r : StandardSpecSelRec) : List UInt8 :=
  le32 r.timestamp ++ le16 r.genId ++
    [r.evmRev, r.sensorType, r.sensorNum, r.td, r.eventData0, r.eventData1, r.eventData2]

/-- `evt.sel_type.standard_type`, whatever the record is. -/
def SelEventRecord.standardType (e : SelEventRecord) : StandardSpecSelRec where
  timestamp := ofLe32 (e.selType.getD 0 0) (e.selType.getD 1 0) (e.selType.getD 2 0)
    (e.selType.getD 3 0)
  genId := ofLe16 (e.selType.getD 4 0) (e.selType.getD 5 0)
  evmRev := e.selType.getD 6 0
  sensorType := e.selType.getD 7 0
  sensorNum := e.selType.getD 8 0
  td := e.selType.getD 9 0
  eventData0 := e.selType.getD 10 0
  eventData1 := e.selType.getD 11 0
  eventData2 := e.selType.getD 12 0

/-- The first sixteen bytes of the record in memory. -/
def SelEventRecord.bytes (e : SelEventRecord) : List UInt8 :=
  le16 e.recordId ++ e.recordType :: e.selType

/-- A standard record; the others are the manufacturer's, with or without a timestamp. -/
def SelEventRecord.standard (e : SelEventRecord) : Prop := e.recordType < 0xc0

instance (e : SelEventRecord) : Decidable e.standard := inferInstanceAs (Decidable (_ < _))

/-! ### Get SEL Entry -/

def getSelInfo : Command := ⟨netfnStorage, 0, 0x40, []⟩

def getSelEntry (id : UInt16) : Command := ⟨netfnStorage, 0, 0x43, [0, 0] ++ le16 id ++ [0, 0xff]⟩

/-- The union, from the response; a manufacturer's record with a timestamp has its id reversed. -/
def unpackType (recordType : UInt8) (data : Memory UInt8) : List UInt8 :=
  if recordType < 0xc0 then
    { timestamp := ofLe32 (data 5) (data 6) (data 7) (data 8)
      genId := ofLe16 (data 9) (data 10)
      evmRev := data 11
      sensorType := data 12
      sensorNum := data 13
      td := data 14
      eventData0 := data 15
      eventData1 := data 16
      eventData2 := data 17 : StandardSpecSelRec }.bytes
  else if recordType < 0xe0 then
    le32 (ofLe32 (data 5) (data 6) (data 7) (data 8)) ++ [data 11, data 10,
      data 9] ++ read data 12 6
  else read data 5 13

/-- The record in the response. -/
def unpack (data : Memory UInt8) : SelEventRecord where
  recordId := ofLe16 (data 2) (data 3)
  recordType := data 4
  selType := unpackType (data 4) data

/-- `getStdEntry`: the id of the next entry and the record; without a usable response, zero and the
record from before. -/
def getStdEntry {γ : Type} (id : UInt16) (evt : SelEventRecord) :
    Cmd γ β (UInt16 × SelEventRecord) := do
  match ← sendrecv B (getSelEntry id) with
  | none => return (0, evt)
  | some r =>
    if r.ccode ≠ 0 ∨ r.dataLen < 18 then return (0, evt)
    else return (ofLe16 (r.data 0) (r.data 1), unpack r.data)

/-! ### Output -/

/-- What was shown, and the bytes of the save file. -/
structure Output where
  shown : List SelEventRecord := []
  file : List UInt8 := []

/-- Whether there is a save file, and of which kind. -/
inductive Save where
  | nothing
  | text
  | binary
  deriving DecidableEq

/-- The name of the sensor type and the description of the record that is shown as number `n`. -/
abbrev Strings := ℕ → SelEventRecord → List UInt8 × List UInt8

/-- A digit of `%02x`. -/
def hexDigit (n : ℕ) : UInt8 := UInt8.ofNat (if n < 10 then 0x30 + n else 0x57 + n)

/-- `0x%02x`. -/
def hexByte (b : UInt8) : List UInt8 :=
  ascii "0x" ++ [hexDigit (b.toNat / 16), hexDigit (b.toNat % 16)]

/-- The seven bytes of a record in the save file. -/
def StandardSpecSelRec.seven (r : StandardSpecSelRec) : List UInt8 :=
  [r.evmRev, r.sensorType, r.sensorNum, r.td, r.eventData0, r.eventData1, r.eventData2]

/-- `printEventFile`: the line it writes. -/
def printEventFile (name description : List UInt8) (evt : SelEventRecord) : List UInt8 :=
  evt.standardType.seven.flatMap (fun b => hexByte b ++ ascii " ") ++ ascii "# " ++ name ++
    ascii " #" ++
    hexByte evt.standardType.sensorNum ++ ascii " " ++ description ++ ascii "\n"

/-- Showing a record. -/
def emit (strings : Strings) (save : Save) (evt : SelEventRecord) (out : Output) : Output where
  shown := out.shown ++ [evt]
  file := out.file ++ match save with
    | .nothing => []
    | .text =>
      printEventFile (strings out.shown.length evt).1 (strings out.shown.length evt).2 evt
    | .binary => evt.bytes

/-! ### `savelistEntries` -/

variable (strings : Strings) (save : Save)

/-- The second attempt of a loop, with the id that the loop gives it. -/
def retry {γ : Type} (id : UInt16) (r : UInt16 × SelEventRecord) :
    Cmd γ β (UInt16 × SelEventRecord) :=
  if r.1 = 0 then getStdEntry B id r.2 else return r

/-- The loop that skips entries; the second attempt is made with the id that the first one
returned. -/
def skipLoop : ℕ → UInt16 → SelEventRecord → Cmd Output β (UInt16 × SelEventRecord)
  | 0, nextId, evt => return (nextId, evt)
  | k + 1, nextId, evt => do
    let r ← getStdEntry B nextId evt
    let r ← retry B r.1 r
    if r.1 = 0 then return r else skipLoop k r.1 r.2

/-- The loop that shows entries, as far as the fuel lasts; `n` entries have been shown before,
counted in an `int`. -/
def showLoop (count : ℤ) : ℕ → UInt16 → SelEventRecord → ℕ → Cmd Output β (Option Unit)
  | 0, _, _, _ => return none
  | fuel + 1, nextId, evt, n => do
    if nextId = 0xffff then return some ()
    else
      let currId := nextId
      let r ← getStdEntry B currId evt
      let r ← retry B currId r
      if r.1 = 0 then return some ()
      else
        modify fun w => { w with vars := emit strings save r.2 w.vars }
        if n + 1 = 2 ^ 31 then throw .overflow
        if (n + 1 : ℕ) = count then return some () else showLoop count fuel r.1 r.2 (n + 1)

/-- A usable answer to Get SEL Info. -/
def getInfo : Cmd Output β (Option Reply) := do
  match ← sendrecv B getSelInfo with
  | none => return none
  | some r => return if r.ccode ≠ 0 ∨ r.dataLen ≠ 14 then none else some r

/-- `savelistEntries`; the count is an `int` and its negative is taken. -/
def savelistEntries (fuel : ℕ) (count : ℤ) : Cmd Output β (Option ℤ) := do
  match ← getInfo B with
  | none => return some (-1)
  | some r =>
    if r.data 1 = 0 ∧ r.data 2 = 0 then return some 0
    else if count < 0 then
      match ← getInfo B with
      | none => return some (-1)
      | some r =>
        if count = -2 ^ 31 then throw .overflow
        let entries := ofLe16 (r.data 1) (r.data 2)
        let count := if -count > entries.toNat then -(entries.toNat : ℤ) else count
        let (nextId, evt) ← skipLoop B (entries.toNat + count).toNat 0 {}
        let done ← showLoop B strings save count fuel nextId evt 0
        return done.map fun _ => 0
    else
      let done ← showLoop B strings save count fuel 0 {} 0
      return done.map fun _ => 0

end Ipmitool.Sel.Entries
