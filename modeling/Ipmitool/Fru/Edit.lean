import Ipmitool.Fru.Transfer

/-! # Editing an inventory device

`editField` with `editFieldRebuild`, and `editMultirecord`, of `cmd/fru.zig`. Both functions first
read what they need, then compute a draft of what is to be stored, and then write it. `drafted` is
`editField` up to the write; the computation of the rebuilt image is the pure function `rebuilt`.

In the rebuild, `error none` stands for the return value -1 and `error (some f)` for a fault. -/

namespace Ipmitool.Fru.Edit

open Ipmitool.Lib Ipmitool.Lib.Mem Ipmitool.Lib.Bytes Ipmitool.Lib.Machine Ipmitool.Lib.Dialogue
open Ipmitool.Core.Types Ipmitool.Core.Interface Ipmitool.Fru.Transfer

/-! ### Fields -/

/-- The two digits of a byte in an alphabet of sixteen. -/
def twoDigits (alphabet : List UInt8) (b : UInt8) : List UInt8 :=
  [alphabet.getD (b.toNat / 16) 0, alphabet.getD (b.toNat % 16) 0]

/-- Three bytes as four characters of six bits. -/
def fourChars (a b c : UInt8) : List UInt8 :=
  let bits := a.toNat + 256 * b.toNat + 65536 * c.toNat
  [UInt8.ofNat (bits % 64 + 32), UInt8.ofNat (bits / 64 % 64 + 32),
    UInt8.ofNat (bits / 4096 % 64 + 32), UInt8.ofNat (bits / 262144 % 64 + 32)]

/-- Bytes as characters of six bits, three bytes at a time. -/
def sixBit : List UInt8 → List UInt8
  | [] => []
  | [a] => fourChars a 0 0
  | [a, b] => fourChars a b 0
  | a :: b :: c :: rest => fourChars a b c ++ sixBit rest

/-- The text of the bytes of a field, by the format in its descriptor. -/
def decode (format : UInt8) (raw : List UInt8) : List UInt8 :=
  if format = 0 then raw.flatMap (twoDigits (ascii "0123456789abcdef"))
  else if format = 1 then raw.flatMap (twoDigits (ascii "0123456789 -.:,_"))
  else if format = 2 then sixBit raw
  else raw

/-- `field`: the text of the field at `pos`, up to a zero, and where the next field begins. -/
def field (area : Memory UInt8) (len pos : ℕ) : List UInt8 × ℕ :=
  if len ≤ pos then ([], pos)
  else
    let n := (area pos &&& 0x3f).toNat
    if len - (pos + 1) < n then ([], len)
    else ((decode (area pos >>> 6) (Mem.read area (pos + 1) n)).takeWhile (· ≠ 0), pos + 1 + n)

/-- The field with this index: where it begins, its text, and where the next one begins. -/
def fieldAt (area : Memory UInt8) (len : ℕ) : ℕ → ℕ → ℕ × List UInt8 × ℕ
  | 0, pos => (pos, field area len pos)
  | index + 1, pos => fieldAt area len index (field area len pos).2

/-- Where the fields of a section begin. -/
def firstField (kind : UInt8) : ℕ := if kind = 0x62 then 6 else 3

/-- The byte of the header with the offset of a section. -/
def sectionIndex (kind : UInt8) : Option ℕ :=
  if kind = 0x63 then some 2
  else if kind = 0x62 then some 3
  else if kind = 0x70 then some 4 else none

/-- `areaChecksum`, stored in the last byte of an area. -/
def closeArea (m : Memory UInt8) (off len : ℕ) : Memory UInt8 :=
  write m (off + len - 1) [csum (Mem.read m off (len - 1))]

/-- What is to be written. -/
structure Draft where
  info : Info
  offset : ℕ
  bytes : Memory UInt8
  length : ℕ

/-! ### The rebuilt image -/

/-- What `editFieldRebuild` is called with, and the image that it read. -/
structure Rebuild where
  info : Info
  header : List UInt8
  sectionOffset : ℕ
  kind : UInt8
  index : ℕ
  text : List UInt8
  old : Memory UInt8

/-- The bytes of the rebuilt image that there is room for. -/
def Rebuild.newSize (q : Rebuild) : ℕ :=
  if 9 < q.text.length then (q.info.size + q.text.length + 7) / 8 * 8 else q.info.size

/-- The length of the section. -/
def Rebuild.original (q : Rebuild) : ℕ := (q.old (q.sectionOffset + 1)).toNat * 8

/-- The field to be replaced. -/
def Rebuild.target (q : Rebuild) : ℕ × List UInt8 × ℕ :=
  fieldAt q.old q.info.size q.index (q.sectionOffset + firstField q.kind)

/-- The zeros at the end of the section, before its checksum. -/
def Rebuild.padding (q : Rebuild) : ℕ :=
  (((List.range (q.original - 2)).map fun i =>
    q.old (q.sectionOffset + q.original - 2 - i)).takeWhile (· = 0)).length

/-- The number of zeros if the section keeps its length. -/
def Rebuild.slack (q : Rebuild) : ℤ := q.padding - (q.text.length - q.target.2.1.length)

/-- By how many blocks of eight bytes the section grows. -/
def Rebuild.blockChange (q : Rebuild) : ℤ :=
  if 8 ≤ q.slack then - (q.slack / 8) else if q.slack < 0 then 1 - (q.slack + 1).tdiv 8 else 0

/-- The areas behind the section as they are moved: the image, the header, and the end of the last
area. -/
structure Shift where
  image : Memory UInt8
  header : List UInt8
  lastBlock : UInt8 := 0
  stop : ℕ := 0

/-- The end of an area, as far as it is known. -/
def Rebuild.areaEnd (q : Rebuild) (i : ℕ) (block : UInt8) : ℕ :=
  let src := block.toNat * 8
  if i = 5 then
    if src + 5 ≤ q.info.size ∧ q.old (src + 1) &&& 0x80 ≠ 0 then src + 5 + (q.old (src + 2)).toNat
    else src
  else min q.info.size ((block.toNat + (q.old (src + 1)).toNat) * 8)

/-- An area behind the section is copied to its new place. -/
def Rebuild.moveArea (q : Rebuild) (s : Shift) (i : ℕ) (block : UInt8) :
    Except (Option Fault) Shift :=
  let src := block.toNat * 8
  if q.info.size ≤ src + (if i = 5 then 2 else 1) then .error (some .outOfBounds)
  else
    let length := if i = 5 then (q.old (src + 2)).toNat else (q.old (src + 1)).toNat * 8
    let dst : ℤ := src + q.blockChange * 8
    if dst < 0 ∨ q.newSize < dst + length ∨ q.info.size - src < length then .error none
    else
      let moved : ℤ := block.toNat + q.blockChange
      if moved < 0 ∨ 255 < moved then .error (some .overflow)
      else .ok { s with
        image := write s.image dst.toNat (Mem.read q.old src length)
        header := s.header.set i (UInt8.ofNat moved.toNat) }

/-- A turn of the loop over the areas. -/
def Rebuild.shiftArea (q : Rebuild) (s : Shift) (i : ℕ) : Except (Option Fault) Shift :=
  let block := q.header.getD i 0
  if block = 0 ∨ q.info.size ≤ block.toNat * 8 then .ok s
  else if s.lastBlock < block ∧ q.info.size ≤ block.toNat * 8 + 1 then .error (some .outOfBounds)
  else
    let s := if s.lastBlock < block then { s with lastBlock := block, stop := q.areaEnd i block } else s
    if block.toNat * 8 ≤ q.sectionOffset then .ok s else q.moveArea s i block

/-- The space that a shorter image leaves is cleared. -/
def Rebuild.erase (q : Rebuild) (s : Shift) : Memory UInt8 :=
  let start : ℤ := s.stop + q.blockChange * 8
  let length := (- q.blockChange * 8).toNat
  if q.blockChange < 0 ∧ 0 ≤ start ∧ start + length ≤ q.newSize then
    write s.image start.toNat (List.replicate length 0)
  else s.image

/-- The header with its checksum. -/
def closeHeader (header : List UInt8) : List UInt8 := header.set 7 (csum (header.take 7))

/-- The areas behind the section are moved, and the header is stored: the image and its size. -/
def Rebuild.shifted (q : Rebuild) : Except (Option Fault) (Memory UInt8 × ℕ) := do
  let image := write (fun _ => 0) 0 (Mem.read q.old 0 q.info.size)
  if q.blockChange = 0 then return (image, q.info.size)
  else
    let s ← [1, 2, 3, 4, 5].foldlM q.shiftArea { image, header := q.header }
    let size : ℤ := q.info.size + q.blockChange * 8
    if size ≤ 0 ∨ q.newSize < size then throw none
    else if 65535 < size then throw (some .overflow)
    else if q.newSize < 8 then throw (some .outOfBounds)
    else return (write (q.erase s) 0 (closeHeader s.header), size.toNat)

/-- The section with the new text, in an image whose other areas are in place. -/
def Rebuild.section (q : Rebuild) (image : Memory UInt8) : Except (Option Fault) (Memory UInt8) :=
  do
  let start := q.target.1
  let next := q.target.2.2
  let length := (q.original + q.blockChange * 8).toNat
  let pad := (q.slack + q.blockChange * 8).toNat
  let image := write image start [UInt8.ofNat (0xc0 + q.text.length)]
  if q.newSize < start + 1 + q.text.length then throw (some .outOfBounds)
  else if length < 1 + (start - q.sectionOffset + q.text.length + 1) then throw (some .overflow)
  else
    let image := write image (start + 1) q.text
    let remaining := length - 1 - (start - q.sectionOffset + q.text.length + 1)
    if q.info.size < next + remaining ∨
        q.newSize < start + 1 + q.text.length + remaining then throw none
    else if q.sectionOffset + length < 1 + pad then throw (some .overflow)
    else if q.newSize < q.sectionOffset + length then throw (some .outOfBounds)
    else
      let image := write image (start + 1 + q.text.length) (Mem.read q.old next remaining)
      let image := write image (q.sectionOffset + length - 1 - pad) (List.replicate pad 0)
      return closeArea image q.sectionOffset length

/-- `editFieldRebuild` between the read and the write. -/
def rebuilt (q : Rebuild) : Except (Option Fault) Draft := do
  if q.info.size < q.sectionOffset + 2 then throw none
  else if q.original < 2 ∨ q.info.size - q.sectionOffset < q.original then throw none
  else if q.target.2.1 = [] ∨ 63 < q.text.length then throw none
  else if q.original + q.blockChange * 8 < 0 then throw (some .overflow)
  else
    let s ← q.shifted
    let image ← q.section s.1
    return { info := { q.info with size := s.2 }, offset := 0, bytes := image, length := s.2 }

/-! ### `editField` -/

section
variable {β : Type} (B : Bmc β) (env : Env)

/-- The header in a response, as `fieldEditHeader` and `multirecordLocation` check it. -/
def editHeaderOf (r : Reply) : Option (List UInt8) :=
  if r.ccode ≠ 0 ∨ r.dataLen < 9 ∨ r.data 1 ≠ 1 then none else some (Mem.read r.data 1 8)

/-- `fieldEditHeader`. -/
def fieldEditHeader (id : UInt8) : Talk β (Option (List UInt8)) := do
  return (← sendrecv B (readRequest id false 0 8)).bind editHeaderOf

/-- `getInfo`, for a device that is not empty. -/
def getInfoNonempty (id : UInt8) : Talk β (Option Info) := do
  return (← getInfo B id).filter fun info => info.size ≠ 0

/-- The section with its area. -/
structure Located where
  info : Info
  header : List UInt8
  sectionOffset : ℕ
  area : Memory UInt8
  sectionLen : ℕ

/-- `editField` up to the area of the section. -/
def located (id kind : UInt8) : Talk β (Option Located) := do
  match ← getInfoNonempty B id with
  | none => return none
  | some info =>
    match ← fieldEditHeader B id with
    | none => return none
    | some header =>
      match sectionIndex kind with
      | none => return none
      | some i =>
        let sectionOffset := (header.getD i 0).toNat * 8
        let p ← readArea B env id info sectionOffset 3
        let sectionLen := (p.dest 1).toNat * 8
        if p.error.isSome ∨ sectionLen < 2 ∨ info.size < sectionOffset ∨
            info.size - sectionOffset < sectionLen then return none
        else
          let a ← readArea B env id p.info sectionOffset sectionLen
          if a.error.isSome then return none
          else return some ⟨a.info, header, sectionOffset, a.dest, sectionLen⟩

/-- `editFieldRebuild` up to the write. The error of the read is dropped. -/
def editFieldRebuild (id : UInt8) (q : Rebuild) : Talk β (Option Draft) := do
  let r ← readArea B env id q.info 0 q.info.size
  match rebuilt { q with info := r.info, old := r.dest } with
  | .ok d => return some d
  | .error none => return none
  | .error (some f) => throw f

/-- The text in the place of one that is as long. -/
def inPlace (s : Located) (start : ℕ) (text : List UInt8) : Draft where
  info := s.info
  offset := s.sectionOffset
  bytes := closeArea (write s.area (start + 1) text) 0 s.sectionLen
  length := s.sectionLen

/-- The draft, once the section is located. -/
def draftOf (id kind : UInt8) (index : ℕ) (text : List UInt8) (s : Located) :
    Talk β (Option Draft) :=
  let f := fieldAt s.area s.sectionLen index (firstField kind)
  if f.2.1 = [] then return none
  else if text.length ≠ f.2.1.length then
    editFieldRebuild B env id ⟨s.info, s.header, s.sectionOffset, kind, index, text, fun _ => 0⟩
  else if s.sectionLen < f.1 + 1 + text.length then throw .outOfBounds
  else return some (inPlace s f.1 text)

/-- `editField` up to the write. -/
def drafted (id kind fieldIndex : UInt8) (text : List UInt8) : Talk β (Option Draft) := do
  match ← located B env id kind with
  | none => return none
  | some s => draftOf B env id kind (fieldIndex - 0x30).toNat text s

/-- `editField`. -/
def editField (id kind fieldIndex : UInt8) (text : List UInt8) : Talk β ℤ := do
  match ← drafted B env id kind fieldIndex text with
  | none => return -1
  | some d =>
    let _ ← writeArea B env id d.info d.offset d.bytes d.length
    return 1

/-! ### `editMultirecord` -/

/-- An editor of the body of a record: whether it changed something, and the body. -/
structure Editor where
  run : List UInt8 → Bool × List UInt8
  length_run : ∀ body, (run body).2.length = body.length

/-- The arguments of `editMultirecord`: the IANA number that they name (none if they name none that
can be read), and `picmgEdit` and `kontronEdit` with what the user enters. -/
structure OemArgs where
  supplied : Option ℕ := some 12634
  picmg : Editor
  kontron : Editor

/-- The editor for an IANA number. -/
def OemArgs.edit (args : OemArgs) (iana : ℕ) (body : List UInt8) : Bool × List UInt8 :=
  if iana = 12634 then args.picmg.run body
  else if iana = 15000 then args.kontron.run body
  else (false, body)

/-- `multirecordLocation`: the offset of the multirecord area. -/
def multirecordLocation (id : UInt8) : Talk β (Option ℕ) := do
  match ← getInfoNonempty B id with
  | none => return none
  | some _ => return (← fieldEditHeader B id).map fun header => (header.getD 5 0).toNat * 8

/-- The record at `off` with another body and its two checksums. -/
def closeRecord (image : Memory UInt8) (off length : ℕ) : Memory UInt8 :=
  let image := write image (off + 3) [csum (Mem.read image (off + 5) length)]
  write image (off + 4) [csum (Mem.read image off 4)]

/-- What becomes of the record at `off`: the image, and whether the record is to be written; none if
the loop ends here. -/
def editRecord (args : OemArgs) (image : Memory UInt8) (off length : ℕ) :
    Option (Memory UInt8 × Bool) :=
  if image off = 0xc0 ∧ 5 ≤ length then
    args.supplied.map fun supplied =>
      let iana := (image (off + 5)).toNat + 256 * (image (off + 6)).toNat + 65536 *
        (image (off + 7)).toNat
      if iana = supplied then
        let e := args.edit iana (Mem.read image (off + 5) length)
        let image := write image (off + 5) e.2
        if e.1 then (closeRecord image off length, true) else (image, false)
      else (image, false)
  else some (image, false)

/-- The loop of `editMultirecord`. -/
def editRecords (id : UInt8) (args : OemArgs) : ℕ → Info → ℕ → Memory UInt8 → Talk β ℤ
  | 0, _, _, _ => return 0
  | fuel + 1, info, off, image => do
    let length := (image (off + 2)).toNat
    if info.size < off + 5 then return 0
    else if info.size < off + 5 + length then return -1
    else
      match editRecord args image off length with
      | none => return 0
      | some e =>
        let w ← if e.2 then writeArea B env id info off (fun i => e.1 (off + i)) (length + 5)
          else pure (true, info)
        if ¬ w.1 then return -1
        else if image (off + 1) &&& 0x80 ≠ 0 then return 0
        else editRecords id args fuel w.2 (off + 5 + length) e.1

/-- `editMultirecord` up to the loop: the device, the offset of the records, and the image. -/
def recordsRead (id : UInt8) : Talk β (Except ℤ (Info × ℕ × Memory UInt8)) := do
  match ← multirecordLocation B id with
  | none => return .error 0xffff
  | some offset =>
    match ← getInfo B id with
    | none => return .error (-1)
    | some info =>
      if info.size = 0 ∨ info.size ≤ offset then return .error (-1)
      else
        let r ← readArea B env id info offset (info.size - offset)
        if r.error.isSome then return .error (-1)
        else return .ok (r.info, offset, fun i => r.dest (i - offset))

/-- `editMultirecord`. -/
def editMultirecord (id : UInt8) (args : OemArgs) : Talk β ℤ := do
  match ← recordsRead B env id with
  | .error rc => return rc
  | .ok r => editRecords B env id args r.1.size r.1 r.2.1 r.2.2

end

end Ipmitool.Fru.Edit
