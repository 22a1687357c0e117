import Mathlib.Algebra.Group.Nat.Defs
import Ipmitool.Lib.Bytes

/-! # Numbers in text

`scan` of `util/integer_scan.zig` for an unsigned 64-bit result and radix zero, and `str2uchar` of
`util/helper.zig`, which is built on it. The byte classification is that of the C locale; on a host
with the GNU C library text without a digit ends where it began. A string is the list of its bytes,
without the terminating zero. -/

namespace Ipmitool.Util.Integer

open Ipmitool.Lib.Bytes

/-- `c.isspace`. -/
def isSpace (b : UInt8) : Bool := b = 0x20 ∨ (0x09 ≤ b ∧ b ≤ 0x0d)

/-- `digit`. -/
def digit (b : UInt8) : Option ℕ :=
  if 0x30 ≤ b ∧ b ≤ 0x39 then some (b.toNat - 0x30)
  else if 0x61 ≤ b ∧ b ≤ 0x7a then some (b.toNat - 0x61 + 10)
  else if 0x41 ≤ b ∧ b ≤ 0x5a then some (b.toNat - 0x41 + 10)
  else none

/-- `std.math.maxInt(c_ulong)`. -/
def limit : ℕ := 2 ^ 64 - 1

/-- The loop of `scan` over the digits: the magnitude, whether it overflowed, whether there was a
digit, and the text that is left. -/
def scanDigits (base : ℕ) : List UInt8 → ℕ → Bool → Bool → ℕ × Bool × Bool × List UInt8
  | [], magnitude, overflow, hasDigit => (magnitude, overflow, hasDigit, [])
  | b :: text, magnitude, overflow, hasDigit =>
    match digit b with
    | none => (magnitude, overflow, hasDigit, b :: text)
    | some value =>
      if base ≤ value then (magnitude, overflow, hasDigit, b :: text)
      else if overflow then scanDigits base text magnitude true true
      else if (limit - value) / base < magnitude then scanDigits base text limit true true
      else scanDigits base text (magnitude * base + value) false true

/-- The sign, and the text behind it. -/
def scanSign : List UInt8 → Bool × List UInt8
  | 0x2d :: text => (true, text)
  | 0x2b :: text => (false, text)
  | text => (false, text)

/-- The base that the text announces, and the text behind the announcement. -/
def scanBase : List UInt8 → ℕ × List UInt8
  | 0x30 :: x :: d :: text =>
    if (x = 0x78 ∨ x = 0x58) ∧ (digit d).any (· < 16) then
      (16, d :: text)
    else (8, 0x30 :: x :: d :: text)
  | 0x30 :: text => (8, 0x30 :: text)
  | text => (10, text)

/-- The result of `scan`: the value, whether all of the text was read, and whether the value is out
of range. -/
structure Scanned where
  value : ℕ
  whole : Bool
  range : Bool

/-- `scan(c_ulong, 0, …)`. A text without a digit ends where it began, so all of it was read only if
it is empty. -/
def scan (source : List UInt8) : Scanned :=
  let (negative, text) := scanSign (source.dropWhile isSpace)
  let (base, text) := scanBase text
  let (magnitude, overflow, hasDigit, rest) := scanDigits base text 0 false false
  { value := if overflow then limit else if negative then (2 ^ 64 - magnitude) % 2 ^ 64
    else magnitude
    whole := if hasDigit then rest.isEmpty else source.isEmpty
    range := overflow }

/-- `str2uchar`: none if it does not return zero. -/
def str2uchar (source : List UInt8) : Option UInt8 :=
  let r := scan source
  if ¬ r.whole ∨ r.range ∨ 255 < r.value then none else some (UInt8.ofNat r.value)

end Ipmitool.Util.Integer
