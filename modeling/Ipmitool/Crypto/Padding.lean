import Mathlib.Algebra.Group.Nat.Defs
import Mathlib.Data.List.Basic
import Mathlib.Tactic.Common

/-! # The confidentiality padding

`crypto/payload.zig`. A payload is padded with the bytes `1, 2, 3, …` and a closing pad length byte,
which itself counts towards the block. -/

namespace Ipmitool.Crypto.Padding

/-- Bytes of pad needed before the trailing pad length byte. -/
def padLength (inputLength : ℕ) : ℕ :=
  let mod := (inputLength + 1) % 16
  if mod = 0 then 0 else 16 - mod

/-- The length of a padded payload. -/
def paddedLength (inputLength : ℕ) : ℕ := inputLength + padLength inputLength + 1

/-- The ascending pad `1, 2, …, n`. -/
def padBytes (n : ℕ) : List UInt8 := (List.range n).map fun i => UInt8.ofNat (i + 1)

/-- `payload.pad`: the payload, its pad and the pad length byte. -/
def pad (input : List UInt8) : List UInt8 :=
  input ++ padBytes (padLength input.length) ++ [UInt8.ofNat (padLength input.length)]

/-- `payload.payloadLength`: the length of the payload in `decrypted`, or `none` if the pad is
malformed. The length is a 16-bit number and the subtraction wraps. -/
def payloadLength (decrypted : List UInt8) : Option ℕ :=
  let padLen := (decrypted.getLastD 0).toNat
  let size := (decrypted.length + 2 ^ 64 - padLen - 1) % 65536
  if decrypted.length < size + padLen then none
  else if (decrypted.drop size).take padLen = padBytes padLen then some size
  else none

theorem padLength_le (n : ℕ) : padLength n ≤ 15 := by
  unfold padLength
  dsimp only
  split_ifs <;> omega

@[simp] theorem length_padBytes (n : ℕ) : (padBytes n).length = n := by simp [padBytes]

theorem length_pad (l : List UInt8) : (pad l).length = paddedLength l.length := by
  simp [pad, paddedLength]; omega

theorem paddedLength_mod (n : ℕ) : paddedLength n % 16 = 0 := by
  unfold paddedLength padLength
  dsimp only
  split_ifs <;> omega

/-- **A padded payload is recognised with its own length.** -/
theorem payloadLength_pad {l : List UInt8} (hl : l.length < 65536) :
    payloadLength (pad l) = some l.length := by
  have hp := padLength_le l.length
  have hlast : ((pad l).getLastD 0).toNat = padLength l.length := by
    simp only [pad, List.getLastD_concat, UInt8.toNat_ofNat']
    omega
  have hsize : ((pad l).length + 2 ^ 64 - padLength l.length - 1) % 65536 = l.length := by
    rw [length_pad]; unfold paddedLength; omega
  have hdrop : ((pad l).drop l.length).take (padLength l.length) =
      padBytes (padLength l.length) := by
    rw [pad, List.append_assoc, List.drop_left]
    exact List.take_left' (by simp)
  unfold payloadLength
  simp only [hlast, hsize, hdrop, if_true]
  rw [if_neg]
  rw [length_pad]; unfold paddedLength; omega

end Ipmitool.Crypto.Padding
