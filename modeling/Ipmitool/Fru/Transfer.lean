import Ipmitool.Core.Interface

/-! # Reading and writing an inventory device

`getInfo`, `readArea`, `buildBlocks` and `writeArea` of `cmd/fru.zig`. A device is read and written
in pieces. When a piece is too large for the device, the next request is smaller; so the loops have
a measure, and their fuel is this measure: each turn makes a request smaller or gets on in the area.

The buffer that is read into is cleared before in every caller, so it is a memory of zeros at
first. -/

namespace Ipmitool.Fru.Transfer

open Ipmitool.Lib Ipmitool.Lib.Mem Ipmitool.Lib.Bytes Ipmitool.Lib.Machine Ipmitool.Lib.Dialogue
open Ipmitool.Core.Types Ipmitool.Core.Interface

/-- The sizes that the interface allows: `ipmi_intf_get_max_response_data_size` and
`ipmi_intf_get_max_request_data_size`. -/
structure Env where
  maxResponse : ℕ
  maxRequest : ℕ

/-- A program of the inventory module; it has no variables of its own. -/
abbrev Talk (β : Type) := Cmd Unit β

/-- `Info`. -/
structure Info where
  size : ℕ
  access : Bool
  maxRead : ℕ := 0
  maxWrite : ℕ := 0

/-- `ReadError`. -/
inductive ReadError where
  | outOfRange
  | invalidMaxSize
  | failed
  | shortResponse
  deriving DecidableEq

variable {β : Type} (B : Bmc β) (env : Env)

/-! ### Requests -/

/-- The request of `getInfo`. -/
def infoRequest (id : UInt8) : Command := ⟨netfnStorage, 0, 0x10, [id]⟩

/-- A response to `infoRequest`. -/
def infoOf (r : Reply) : Option Info :=
  if r.ccode ≠ 0 ∨ r.dataLen < 3 then none
  else some { size := (ofLe16 (r.data 0) (r.data 1)).toNat, access := r.data 2 &&& 1 ≠ 0 }

/-- `getInfo`. -/
def getInfo (id : UInt8) : Talk β (Option Info) := do
  match ← sendrecv B (infoRequest id) with
  | none => return none
  | some r => return infoOf r

/-- An offset on the wire: in words if the device is accessed by words. -/
def wireOffset (access : Bool) (off : ℕ) : ℕ := if access then off / 2 else off

/-- The device, and the offset on the wire as sixteen bits. -/
def addressed (id : UInt8) (access : Bool) (off : ℕ) : List UInt8 :=
  id :: le16 (UInt16.ofNat (wireOffset access off))

/-- A request for `n` bytes from the offset `off` on. -/
def readRequest (id : UInt8) (access : Bool) (off n : ℕ) : Command :=
  ⟨netfnStorage, 0, 0x11, addressed id access off ++ [UInt8.ofNat n]⟩

/-- A request to store bytes from the offset `off` on. -/
def writeRequest (id : UInt8) (access : Bool) (off : ℕ) (bytes : List UInt8) : Command :=
  ⟨netfnStorage, 0, 0x12, addressed id access off ++ bytes⟩

/-- `isTooLarge`. -/
def isTooLarge (code : UInt8) : Bool := code = 0xc7 ∨ code = 0xc8 ∨ code = 0xca

/-! ### Reading -/

/-- What a transfer leaves: an error, the buffer, and what was learnt about the device. -/
structure Read where
  error : Option ReadError := none
  dest : Memory UInt8
  info : Info

/-- The number of bytes that a response says it has. -/
def countOf (access : Bool) (r : Reply) : ℕ :=
  if access then 2 * (r.data 0).toNat else (r.data 0).toNat

/-- The size of the next request after one that was too large. -/
def smaller (maxRead : ℕ) : ℕ := maxRead - if 32 < maxRead then 8 else 1

/-- The loop of `readArea`; `base` is where the area begins and `finish` where it ends. -/
def readLoop (id : UInt8) (base finish : ℕ) : ℕ → Info → ℕ → Memory UInt8 → Talk β Read
  | 0, info, _, dest => return ⟨some .failed, dest, info⟩
  | fuel + 1, info, off, dest => do
    match ← sendrecv B (readRequest id info.access off (min (finish - off) info.maxRead)) with
    | none => return ⟨some .failed, dest, info⟩
    | some r =>
      if r.ccode ≠ 0 then
        if isTooLarge r.ccode ∧ 8 < info.maxRead then
          readLoop id base finish fuel { info with maxRead := smaller info.maxRead } off dest
        else return ⟨some .failed, dest, info⟩
      else if r.dataLen < 1 then return ⟨some .shortResponse, dest, info⟩
      else if r.dataLen - 1 < countOf info.access r ∨ finish - off < countOf info.access r then
        return ⟨some .shortResponse, dest, info⟩
      else
        let dest := write dest (off - base) (Mem.read r.data 1 (countOf info.access r))
        let off := off + countOf info.access r
        if finish ≤ off ∨ countOf info.access r = 0 then return ⟨none, dest, info⟩
        else readLoop id base finish fuel info off dest

/-- The size of the first request; none if no request has room. -/
def firstSize (info : Info) : Option ℕ :=
  if info.maxRead ≠ 0 then some info.maxRead
  else if env.maxResponse ≤ 2 then none
  else
    let size := min (env.maxResponse - 2) 255
    let size := if info.access then size / 2 * 2 else size
    if size = 0 then none else some size

/-- `readArea`: read `length` bytes from `offset` on into a cleared buffer. -/
def readArea (id : UInt8) (info : Info) (offset length : ℕ) : Talk β Read :=
  if info.size < offset then return ⟨some .outOfRange, fun _ => 0, info⟩
  else
    match firstSize env info with
    | none => return ⟨some .invalidMaxSize, fun _ => 0, info⟩
    | some maxRead =>
      let finish := min (offset + length) info.size
      readLoop B id offset finish (finish - offset + maxRead + 1) { info with maxRead } offset
        fun _ => 0

/-! ### Blocks -/

/-- `Block`, without its name. -/
structure Block where
  start : ℕ
  stop : ℕ

/-- The last block ends where the next one starts. -/
def nextBlock (size : ℕ) (blocks : List Block) (start : ℕ) : List Block :=
  (match blocks.getLast? with
    | none => []
    | some b => blocks.dropLast ++ [{ b with stop := start }]) ++ [⟨start, size⟩]

/-- The records of the multirecord area: the blocks, where the area ends, and what was learnt. -/
def recordBlocks (id : UInt8) : ℕ → Info → ℕ → List Block → Talk β (Info × ℕ × List Block)
  | 0, info, off, blocks => return (info, off, blocks)
  | fuel + 1, info, off, blocks => do
    if info.size ≤ off then return (info, off, blocks)
    else if info.access ∧ off % 2 = 1 then return (info, off + 1, blocks)
    else
      let r ← readArea B env id info off 5
      if r.error.isSome then return (r.info, off, blocks)
      else
        let blocks := nextBlock info.size blocks off
        let off := off + (r.dest 2).toNat + 5
        if csum (Mem.read r.dest 0 5) ≠ 0 ∨ r.dest 1 &&& 0x80 ≠ 0 then return (r.info, off, blocks)
        else recordBlocks id fuel r.info off blocks

/-- The blocks of the header and of the four areas with an offset in it. -/
def sectionBlocks (size : ℕ) (header : List UInt8) : List Block :=
  ((header.drop 1).take 4).foldl
    (fun blocks block => if block = 0 then blocks else nextBlock size blocks (block.toNat * 8))
    [⟨0, size⟩]

/-- The header in a response; none if it cannot be used. -/
def headerOf (r : Reply) : Option (List UInt8) :=
  let header := Mem.read r.data 1 8
  if r.ccode ≠ 0 ∨ r.dataLen < 9 ∨ csum header ≠ 0 ∨ header.getD 0 0 ≠ 1 then none else some header

/-- `buildBlocks`: the boundaries that a write keeps to. -/
def buildBlocks (id : UInt8) (info : Info) : Talk β (Info × List Block) := do
  match (← sendrecv B (readRequest id false 0 8)).bind headerOf with
  | none => return (info, [])
  | some header =>
    let blocks := sectionBlocks info.size header
    if header.getD 5 0 = 0 then return (info, blocks)
    else
      let r ← recordBlocks B env id info.size info ((header.getD 5 0).toNat * 8) blocks
      return (r.1, if r.2.1 < info.size then nextBlock info.size r.2.2 r.2.1 else r.2.2)

/-! ### Writing -/

/-- Where the block with the offset `off` ends. -/
def blockEnd (blocks : List Block) (off finish : ℕ) : ℕ :=
  match blocks.find? fun b => off < b.stop with
  | none => finish
  | some b => min b.stop finish

/-- The number of bytes of the next request. -/
def pieceLength (access : Bool) (remaining maxWrite : ℕ) : ℕ :=
  let length := min remaining maxWrite
  if access then length / 2 * 2 else length

/-- The loop of `writeArea`; a protected block is left out. -/
def writeLoop (id : UInt8) (blocks : List Block) (source : Memory UInt8) (base finish : ℕ) :
    ℕ → Info → ℕ → Talk β (Bool × Info)
  | 0, info, _ => return (false, info)
  | fuel + 1, info, off => do
    if finish ≤ off then return (true, info)
    else
      let length := pieceLength info.access (blockEnd blocks off finish - off) info.maxWrite
      if length = 0 then return (false, info)
      else
        match ← sendrecv B (writeRequest id info.access off
          (Mem.read source (off - base) length)) with
        | none => return (false, info)
        | some r =>
          if isTooLarge r.ccode ∧ 32 < info.maxWrite then
            writeLoop id blocks source base finish fuel { info with maxWrite := info.maxWrite -
              8 } off
          else if r.ccode = 0x80 then
            writeLoop id blocks source base finish fuel info (blockEnd blocks off finish)
          else if r.ccode ≠ 0 then return (false, info)
          else writeLoop id blocks source base finish fuel info (off + length)

/-- The size of the first request; none if no request has room. -/
def firstWrite (info : Info) : Option ℕ :=
  if info.maxWrite = 0 ∧ env.maxRequest ≤ 3 then none
  else
    let size := if info.maxWrite ≠ 0 then info.maxWrite else min (env.maxRequest - 3) 255
    let size := if info.access then size / 2 * 2 else size
    if size = 0 then none else some size

/-- `writeArea`: store `length` bytes of `source` from `offset` on. -/
def writeArea (id : UInt8) (info : Info) (offset : ℕ) (source : Memory UInt8) (length : ℕ) :
    Talk β (Bool × Info) := do
  if info.size < offset ∨ info.size - offset < length then return (false, info)
  else if info.access ∧ (offset % 2 = 1 ∨ length % 2 = 1) then return (false, info)
  else
    let b ← buildBlocks B env id info
    match firstWrite env b.1 with
    | none => return (false, b.1)
    | some maxWrite =>
      writeLoop B id b.2 source offset (offset + length) (length + maxWrite + 1)
        { b.1 with maxWrite } offset

end Ipmitool.Fru.Transfer
