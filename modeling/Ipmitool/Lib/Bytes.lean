import Mathlib.Algebra.Group.Nat.Defs
import Mathlib.Data.List.Basic
import Mathlib.Tactic.Common

/-! # Byte strings

Text, little-endian numbers, the exclusive or of two byte strings and the two's complement checksum
that closes a message: the checksum byte makes the sum of the bytes zero. -/

namespace Ipmitool.Lib.Bytes

/-- The bytes of a text of ASCII characters. -/
def ascii (s : String) : List UInt8 := s.toList.map fun c => UInt8.ofNat c.toNat

/-! ### Little-endian numbers -/

/-- The two bytes of a 16-bit number, least significant first. -/
def le16 (x : UInt16) : List UInt8 := [x.toUInt8, (x >>> 8).toUInt8]

/-- The four bytes of a 32-bit number, least significant first. -/
def le32 (x : UInt32) : List UInt8 :=
  [x.toUInt8, (x >>> 8).toUInt8, (x >>> 16).toUInt8, (x >>> 24).toUInt8]

/-- The 16-bit number with the bytes `a`, `b`. -/
def ofLe16 (a b : UInt8) : UInt16 := UInt16.ofNat (a.toNat + 256 * b.toNat)

/-- The 32-bit number with the bytes `a`, `b`, `c`, `d`. -/
def ofLe32 (a b c d : UInt8) : UInt32 :=
  UInt32.ofNat (a.toNat + 256 * b.toNat + 65536 * c.toNat + 16777216 * d.toNat)

@[simp] theorem length_le16 (x : UInt16) : (le16 x).length = 2 := rfl

@[simp] theorem length_le32 (x : UInt32) : (le32 x).length = 4 := rfl

theorem ofLe16_le16 (x : UInt16) :
    ofLe16 x.toUInt8 (x >>> 8).toUInt8 = x := by
  have hx := x.toNat_lt
  refine UInt16.toNat_inj.mp ?_
  simp only [ofLe16, UInt16.toNat_ofNat', UInt16.toNat_toUInt8, UInt16.toNat_shiftRight,
    UInt16.reduceToNat, Nat.reduceMod, Nat.reducePow, Nat.shiftRight_eq_div_pow] at hx ⊢
  omega

theorem ofLe32_le32 (x : UInt32) :
    ofLe32 x.toUInt8 (x >>> 8).toUInt8 (x >>> 16).toUInt8 (x >>> 24).toUInt8 = x := by
  have hx := x.toNat_lt
  refine UInt32.toNat_inj.mp ?_
  simp only [ofLe32, UInt32.toNat_ofNat', UInt32.toNat_toUInt8, UInt32.toNat_shiftRight,
    UInt32.reduceToNat, Nat.reduceMod, Nat.reducePow, Nat.shiftRight_eq_div_pow] at hx ⊢
  omega

theorem le16_ofLe16 (a b : UInt8) : le16 (ofLe16 a b) = [a, b] := by
  have ha := a.toNat_lt
  have hb := b.toNat_lt
  simp only [le16, ofLe16, List.cons.injEq, and_true]
  constructor <;> refine UInt8.toNat_inj.mp ?_ <;>
    simp only [UInt16.toNat_ofNat', UInt16.toNat_toUInt8, UInt16.toNat_shiftRight,
      UInt16.reduceToNat, Nat.reduceMod, Nat.reducePow, Nat.shiftRight_eq_div_pow] at ha hb ⊢ <;>
    omega

theorem le32_ofLe32 (a b c d : UInt8) : le32 (ofLe32 a b c d) = [a, b, c, d] := by
  have ha := a.toNat_lt
  have hb := b.toNat_lt
  have hc := c.toNat_lt
  have hd := d.toNat_lt
  simp only [le32, ofLe32, List.cons.injEq, and_true]
  refine ⟨?_, ?_, ?_, ?_⟩ <;> refine UInt8.toNat_inj.mp ?_ <;>
    simp only [UInt32.toNat_ofNat', UInt32.toNat_toUInt8, UInt32.toNat_shiftRight,
      UInt32.reduceToNat, Nat.reduceMod, Nat.reducePow,
      Nat.shiftRight_eq_div_pow] at ha hb hc hd ⊢ <;>
    omega

/-! ### Numbers put together from their bits -/

/-- Two numbers without a common bit. -/
theorem or_shiftLeft {a b i : ℕ} (h : a < 2 ^ i) : a ||| b <<< i = a + 2 ^ i * b := by
  rw [Nat.or_comm, ← Nat.shiftLeft_add_eq_or_of_lt h, Nat.shiftLeft_eq, Nat.mul_comm, Nat.add_comm]

theorem toNat_or16 (a b : UInt8) : (a.toUInt16 ||| b.toUInt16 <<< 8).toNat =
    a.toNat + 256 * b.toNat := by
  have ha := a.toNat_lt
  have hb := b.toNat_lt
  have hor : a.toNat ||| b.toNat <<< 8 = a.toNat + 256 * b.toNat := or_shiftLeft ha
  have hsmall : b.toNat <<< 8 % 2 ^ 16 = b.toNat <<< 8 := by
    rw [Nat.shiftLeft_eq]
    omega
  change a.toNat ||| b.toNat <<< 8 % 2 ^ 16 = _
  rw [hsmall, hor]

theorem toNat_or24 (a b c : UInt8) :
    (a.toUInt32 ||| b.toUInt32 <<< 8 ||| c.toUInt32 <<< 16).toNat =
      a.toNat + 256 * b.toNat + 65536 * c.toNat := by
  have ha := a.toNat_lt
  have hb := b.toNat_lt
  have hc := c.toNat_lt
  have hor : a.toNat ||| b.toNat <<< 8 = a.toNat + 256 * b.toNat := or_shiftLeft ha
  have hor' : a.toNat + 256 * b.toNat ||| c.toNat <<< 16 =
      a.toNat + 256 * b.toNat + 65536 * c.toNat :=
    or_shiftLeft (show a.toNat + 256 * b.toNat < 2 ^ 16 by omega)
  have hsmall : b.toNat <<< 8 % 2 ^ 32 = b.toNat <<< 8 := by
    rw [Nat.shiftLeft_eq]
    omega
  have hsmall' : c.toNat <<< 16 % 2 ^ 32 = c.toNat <<< 16 := by
    rw [Nat.shiftLeft_eq]
    omega
  change a.toNat ||| b.toNat <<< 8 % 2 ^ 32 ||| c.toNat <<< 16 % 2 ^ 32 = _
  rw [hsmall, hsmall', hor, hor']

/-! ### Exclusive or -/

/-- The exclusive or of two byte strings, as long as the shorter one. -/
def xorBytes (a b : List UInt8) : List UInt8 := List.zipWith (· ^^^ ·) a b

@[simp] theorem length_xorBytes (a b : List UInt8) :
    (xorBytes a b).length = min a.length b.length := by simp [xorBytes]

/-- Exclusive or with the same string twice gives the first string back. -/
theorem xorBytes_cancel : ∀ {a b : List UInt8}, a.length = b.length →
    xorBytes (xorBytes a b) b = a
  | [], [], _ => rfl
  | x :: a, y :: b, h => by
    have ih := xorBytes_cancel (a := a) (b := b) (by simpa using h)
    simp only [xorBytes, List.zipWith_cons_cons] at ih ⊢
    rw [ih, UInt8.xor_assoc, UInt8.xor_self, UInt8.xor_zero]

/-! ### Checksum -/

/-- The two's complement of the sum of the bytes. -/
def csum (l : List UInt8) : UInt8 := 0 - l.foldl (· + ·) 0

/-- With the checksum behind them, the bytes sum to zero. -/
theorem sum_csum (l : List UInt8) : (l ++ [csum l]).foldl (· + ·) 0 = 0 := by
  rw [List.foldl_append, List.foldl_cons, List.foldl_nil, csum]
  generalize l.foldl (· + ·) 0 = a
  rw [UInt8.zero_sub, UInt8.add_neg_eq_sub, UInt8.sub_self]

theorem csum_csum (l : List UInt8) : csum (l ++ [csum l]) = 0 := by
  rw [csum, sum_csum]
  rfl

end Ipmitool.Lib.Bytes
