import Mathlib.Algebra.Order.Floor.Ring
import Mathlib.Data.Rat.Floor
import Mathlib.Tactic.FieldSimp
import Mathlib.Tactic.IntervalCases
import Mathlib.Tactic.Linarith
import Mathlib.Tactic.Ring

/-! # Readings and raw values

`tos32`, `toM`, `toB`, `toRExp`, `toBExp`, `convertSensorReading` and `convertSensorValueToRaw` of
`cmd/sdr.zig`, over the rationals. The factors are fields of two words, which are read in the byte
order of the host. The curves of a sensor that is not linear are a parameter.

`Format` is what the raw values stand for, and `quotient` the exact raw value of a reading, with the
factors as the record has them. The way back adjusts nothing for one's complement, and rounds up
from a half but never down: `converts_iff` says for which raw values and which readings it is the
inverse. -/

namespace Ipmitool.Sdr.Conversion

/-! ### The code -/

/-- The byte order of the host. -/
inductive Endian
  | little
  | big

/-- What the conversions use of `FullSensor`. -/
structure FullSensor where
  analog : Fin 4
  linearization : UInt8
  mtol : BitVec 16
  bacc : BitVec 32

/-- `tos32`. -/
def tos32 (val : BitVec 32) (bits : ℕ) : BitVec 32 :=
  let signBit : BitVec 32 := 1 <<< (bits - 1)
  if val &&& signBit ≠ 0 then -(val &&& signBit) ||| val else val

/-- `bswap16`. -/
def bswap16 (v : BitVec 16) : BitVec 16 := (v >>> 8) ||| (v <<< 8)

/-- `bswap32`. -/
def bswap32 (v : BitVec 32) : BitVec 32 :=
  ((v &&& 0xff000000) >>> 24) ||| ((v &&& 0x00ff0000) >>> 8) ||| ((v &&& 0x0000ff00) <<< 8) |||
    ((v &&& 0x000000ff) <<< 24)

/-- `hostMtol`. -/
def hostMtol (e : Endian) (mtol : BitVec 16) : BitVec 32 :=
  match e with
  | .little => (bswap16 mtol).setWidth 32
  | .big => mtol.setWidth 32

/-- `hostBacc`. -/
def hostBacc (e : Endian) (bacc : BitVec 32) : BitVec 32 :=
  match e with
  | .little => bswap32 bacc
  | .big => bacc

/-- `toM`. -/
def toM (e : Endian) (mtol : BitVec 16) : ℤ :=
  let v := hostMtol e mtol
  ((tos32 (((v &&& 0xff00) >>> 8) ||| ((v &&& 0xc0) <<< 2)) 10).setWidth 16).toInt

/-- `toB`. -/
def toB (e : Endian) (bacc : BitVec 32) : ℤ :=
  let v := hostBacc e bacc
  (tos32 (((v &&& 0xff000000) >>> 24) ||| ((v &&& 0xc00000) >>> 14)) 10).toInt

/-- `toRExp`. -/
def toRExp (e : Endian) (bacc : BitVec 32) : ℤ := (tos32 ((hostBacc e bacc &&& 0xf0) >>> 4) 4).toInt

/-- `toBExp`. -/
def toBExp (e : Endian) (bacc : BitVec 32) : ℤ := (tos32 (hostBacc e bacc &&& 0xf) 4).toInt

section
variable (e : Endian) (curve : UInt8 → ℚ → ℚ) (s : FullSensor)

/-- `linearize`; the logarithms, powers and roots are `curve`. -/
def linearize (linearization : UInt8) (value : ℚ) : ℚ :=
  let l := linearization &&& 0x7f
  if l = 7 then value⁻¹
  else if l = 8 then value ^ 2
  else if l = 9 then value ^ 3
  else if 1 ≤ l ∧ l ≤ 11 then curve l value
  else value

/-- The reading of a raw value, before it is linearized. -/
def scaled (sval : ℤ) : ℚ :=
  ((toM e s.mtol * sval : ℤ) + (toB e s.bacc : ℚ) * 10 ^ toBExp e s.bacc) * 10 ^ toRExp e s.bacc

/-- `convertSensorReading`. -/
def convertSensorReading (val : UInt8) : ℚ :=
  match s.analog with
  | 0 => linearize curve s.linearization (scaled e s val.toNat)
  | 1 => linearize curve s.linearization
    (scaled e s (if val &&& 0x80 ≠ 0 then val + 1 else val).toBitVec.toInt)
  | 2 => linearize curve s.linearization (scaled e s val.toBitVec.toInt)
  | 3 => 0

/-- `narrowInt`. -/
def narrowInt (v : ℚ) : ℤ :=
  if 2147483647 ≤ v then 2147483647
  else if v ≤ -2147483648 then -2147483648
  else if 0 ≤ v then ⌊v⌋ else ⌈v⌉

/-- The low byte. -/
def lowByte (i : ℤ) : UInt8 := ⟨BitVec.ofInt 8 i⟩

/-- `narrowU8`. -/
def narrowU8 (v : ℚ) : UInt8 := lowByte (narrowInt v)

/-- `convertSensorValueToRaw`. -/
def convertSensorValueToRaw (val : ℚ) : UInt8 :=
  if s.analog.val = 3 then 0
  else if toM e s.mtol = 0 then 0
  else
    let result := (val / 10 ^ toRExp e s.bacc - toB e s.bacc * 10 ^ toBExp e s.bacc) / toM e s.mtol
    if 1 / 2 ≤ result - narrowInt result then narrowU8 ⌈result⌉ else narrowU8 result

end

/-! ### The record -/

/-- The bytes of a record with the factors: M and the tolerance, B, the accuracy and the
exponents. -/
structure Factors where
  m0 : BitVec 8
  m1 : BitVec 8
  b0 : BitVec 8
  b1 : BitVec 8
  b2 : BitVec 8
  b3 : BitVec 8

/-- A number of `n` bits in two's complement. -/
def signed (n x : ℕ) : ℤ := if x < 2 ^ (n - 1) then x else x - 2 ^ n

namespace Factors

variable (f : Factors)

def m : ℤ := signed 10 (f.m0.toNat + 256 * (f.m1.toNat / 64))

def b : ℤ := signed 10 (f.b0.toNat + 256 * (f.b1.toNat / 64))

def rExp : ℤ := signed 4 (f.b3.toNat / 16)

def bExp : ℤ := signed 4 (f.b3.toNat % 16)

/-- The words that a host reads. -/
def mtol : Endian → BitVec 16
  | .little => f.m0.setWidth 16 ||| (f.m1.setWidth 16 <<< 8)
  | .big => (f.m0.setWidth 16 <<< 8) ||| f.m1.setWidth 16

def bacc : Endian → BitVec 32
  | .little => f.b0.setWidth 32 ||| (f.b1.setWidth 32 <<< 8) ||| (f.b2.setWidth 32 <<< 16) |||
    (f.b3.setWidth 32 <<< 24)
  | .big => (f.b0.setWidth 32 <<< 24) ||| (f.b1.setWidth 32 <<< 16) ||| (f.b2.setWidth 32 <<< 8) |||
    f.b3.setWidth 32

/-- The exact raw value of a reading. -/
def quotient (v : ℚ) : ℚ := (v / 10 ^ f.rExp - f.b * 10 ^ f.bExp) / f.m

end Factors

/-- The analog formats. -/
inductive Format
  | unsigned
  | ones
  | twos
  deriving DecidableEq

namespace Format

theorem unsigned_lt : 0 < 4 := by decide
theorem ones_lt : 1 < 4 := by decide
theorem twos_lt : 2 < 4 := by decide

/-- The field of the record. -/
def analog : Format → Fin 4
  | .unsigned => ⟨0, unsigned_lt⟩
  | .ones => ⟨1, ones_lt⟩
  | .twos => ⟨2, twos_lt⟩

/-- What a raw value stands for. -/
def denotes : Format → UInt8 → ℤ
  | .unsigned, r => r.toNat
  | .ones, r => if r.toNat < 128 then r.toNat else r.toNat - 255
  | .twos, r => if r.toNat < 128 then r.toNat else r.toNat - 256

def least : Format → ℤ
  | .unsigned => 0
  | .ones => -127
  | .twos => -128

def greatest : Format → ℤ
  | .unsigned => 255
  | _ => 127

/-- No raw value stands for a number nearer to `q`. -/
def Nearest (t : Format) (q : ℚ) (r : UInt8) : Prop := ∀ r', |q - t.denotes r| ≤ |q - t.denotes r'|

end Format

/-- The sensor of a record on a host. -/
def sensorOf (e : Endian) (t : Format) (linearization : UInt8) (f : Factors) : FullSensor :=
  ⟨t.analog, linearization, f.mtol e, f.bacc e⟩

/-! ### Tables -/

/-- Ten bits are extended by their sign, also through 16 bits, and so are four. -/
theorem tos32_table : (∀ n : Fin 1024, (tos32 (BitVec.ofNat 32 n) 10).toInt = signed 10 n ∧
      ((tos32 (BitVec.ofNat 32 n) 10).setWidth 16).toInt = signed 10 n) ∧
    ∀ n : Fin 16, (tos32 (BitVec.ofNat 32 n) 4).toInt = signed 4 n := by
  decide +kernel

theorem denotes_table : (∀ n : Fin 256, Format.unsigned.denotes (lowByte n.val) = n.val) ∧
    (∀ n : Fin 256, Format.twos.denotes (lowByte (n.val - 128)) = n.val - 128) ∧
    ∀ n : Fin 128, Format.ones.denotes (lowByte n.val) = n.val ∧
      Format.ones.denotes (lowByte (-n.val - 1)) = -n.val := by
  decide +kernel

/-! ### The factors are decoded -/

theorem hostMtol_eq (e : Endian) (f : Factors) :
    hostMtol e (f.mtol e) = (f.m0.setWidth 32 <<< 8) ||| f.m1.setWidth 32 := by
  rcases e
  · simp only [hostMtol, Factors.mtol, bswap16]
    ext i hi
    interval_cases i <;> simp
  · simp only [hostMtol, Factors.mtol]
    ext i hi
    interval_cases i <;> simp

theorem hostBacc_eq (e : Endian) (f : Factors) : hostBacc e (f.bacc e) =
    (f.b0.setWidth 32 <<< 24) ||| (f.b1.setWidth 32 <<< 16) ||| (f.b2.setWidth 32 <<< 8) |||
      f.b3.setWidth 32 := by
  rcases e
  · simp only [hostBacc, Factors.bacc, bswap32]
    ext i hi
    interval_cases i <;> simp
  · rfl

/-- A byte, and the two bits above it. -/
def tenBits (lo hi : BitVec 8) : BitVec 32 := lo.setWidth 32 ||| ((hi >>> 6).setWidth 32 <<< 8)

theorem tenBits_toNat (lo hi : BitVec 8) :
    (tenBits lo hi).toNat = lo.toNat + 256 * (hi.toNat / 64) := by
  have hlo := lo.isLt
  have hhi := hi.isLt
  have hdiv : hi.toNat >>> 6 = hi.toNat / 64 := Nat.shiftRight_eq_div_pow _ _
  have hor := Nat.shiftLeft_add_eq_or_of_lt hlo (hi.toNat / 64)
  rw [Nat.shiftLeft_eq] at hor
  simp only [tenBits, BitVec.toNat_or, BitVec.toNat_setWidth, BitVec.toNat_shiftLeft,
    BitVec.toNat_ushiftRight, Nat.shiftLeft_eq, hdiv]
  rw [Nat.mod_eq_of_lt (by omega), Nat.mod_eq_of_lt (by omega), Nat.mod_eq_of_lt (by omega),
    Nat.or_comm, ← hor]
  omega

theorem tenBits_lt (lo hi : BitVec 8) : lo.toNat + 256 * (hi.toNat / 64) < 1024 := by
  have hlo := lo.isLt
  have hhi := hi.isLt
  omega

theorem tenBits_eq (lo hi : BitVec 8) :
    tenBits lo hi = BitVec.ofNat 32 (lo.toNat + 256 * (hi.toNat / 64)) := by
  refine BitVec.eq_of_toNat_eq ?_
  have hlt := tenBits_lt lo hi
  rw [tenBits_toNat, BitVec.toNat_ofNat, Nat.mod_eq_of_lt (by omega)]

theorem toM_eq (e : Endian) (f : Factors) : toM e (f.mtol e) = f.m := by
  have hfield : ((hostMtol e (f.mtol e) &&& 0xff00) >>> 8) |||
      ((hostMtol e (f.mtol e) &&& 0xc0) <<< 2) =
      tenBits f.m0 f.m1 := by
    rw [hostMtol_eq, tenBits]
    ext i hi
    interval_cases i <;> simp
  simp only [toM, hfield, tenBits_eq]
  exact (tos32_table.1 ⟨_, tenBits_lt f.m0 f.m1⟩).2

theorem toB_eq (e : Endian) (f : Factors) : toB e (f.bacc e) = f.b := by
  have hfield : ((hostBacc e (f.bacc e) &&& 0xff000000) >>> 24) |||
      ((hostBacc e (f.bacc e) &&& 0xc00000) >>> 14) =
      tenBits f.b0 f.b1 := by
    rw [hostBacc_eq, tenBits]
    ext i hi
    interval_cases i <;> simp
  simp only [toB, hfield, tenBits_eq]
  exact (tos32_table.1 ⟨_, tenBits_lt f.b0 f.b1⟩).1

theorem toRExp_eq (e : Endian) (f : Factors) : toRExp e (f.bacc e) = f.rExp := by
  have hfield : (hostBacc e (f.bacc e) &&& 0xf0) >>> 4 = (f.b3 >>> 4).setWidth 32 := by
    rw [hostBacc_eq]
    ext i hi
    interval_cases i <;> simp
  have hlt : f.b3.toNat / 16 < 16 := by
    have := f.b3.isLt
    omega
  have hnat : (f.b3 >>> 4).setWidth 32 = BitVec.ofNat 32 (f.b3.toNat / 16) := by
    refine BitVec.eq_of_toNat_eq ?_
    rw [BitVec.toNat_setWidth, BitVec.toNat_ushiftRight, BitVec.toNat_ofNat,
      Nat.shiftRight_eq_div_pow]
  rw [toRExp, hfield, hnat]
  exact tos32_table.2 ⟨_, hlt⟩

theorem toBExp_eq (e : Endian) (f : Factors) : toBExp e (f.bacc e) = f.bExp := by
  have hfield : hostBacc e (f.bacc e) &&& 0xf = (f.b3 &&& 0xf).setWidth 32 := by
    rw [hostBacc_eq]
    ext i hi
    interval_cases i <;> simp
  have hlt : f.b3.toNat % 16 < 16 := Nat.mod_lt _ (by omega)
  have hnat : (f.b3 &&& 0xf).setWidth 32 = BitVec.ofNat 32 (f.b3.toNat % 16) := by
    refine BitVec.eq_of_toNat_eq ?_
    have hand : f.b3.toNat &&& 0xf = f.b3.toNat % 16 := Nat.and_two_pow_sub_one_eq_mod _ 4
    rw [BitVec.toNat_setWidth, BitVec.toNat_and, BitVec.toNat_ofNat]
    exact congrArg (· % 2 ^ 32) hand
  rw [toBExp, hfield, hnat]
  exact tos32_table.2 ⟨_, hlt⟩

/-! ### Bytes and numbers -/

/-- A negative number in one's complement is one less than its low byte says. -/
theorem ones_negative {z : ℤ} (hlow : -127 ≤ z) (hneg : z < 0) :
    Format.ones.denotes (lowByte z) = z + 1 := by
  have htable := (denotes_table.2.2 ⟨(-z - 1).toNat, by omega⟩).2
  have hz : -(((-z - 1).toNat : ℕ) : ℤ) - 1 = z := by omega
  simp only [hz] at htable
  rw [htable]
  omega

/-- Everywhere else the low byte stands for the number. -/
theorem denotes_lowByte {t : Format} {z : ℤ} (hlow : t.least ≤ z) (hhigh : z ≤ t.greatest)
    (hones : t = .ones → 0 ≤ z) :
    t.denotes (lowByte z) = z := by
  rcases t
  · simp only [Format.least, Format.greatest] at hlow hhigh
    have htable := denotes_table.1 ⟨z.toNat, by omega⟩
    simp only [Int.toNat_of_nonneg hlow] at htable
    exact htable
  · simp only [Format.greatest] at hhigh
    have hnonneg := hones rfl
    have htable := (denotes_table.2.2 ⟨z.toNat, by omega⟩).1
    simp only [Int.toNat_of_nonneg hnonneg] at htable
    exact htable
  · simp only [Format.least, Format.greatest] at hlow hhigh
    have htable := denotes_table.2.1 ⟨(z + 128).toNat, by omega⟩
    have hz : (((z + 128).toNat : ℕ) : ℤ) - 128 = z := by omega
    simp only [hz] at htable
    exact htable

theorem exists_denotes {t : Format} {z : ℤ} (hlow : t.least ≤ z) (hhigh : z ≤ t.greatest) :
    ∃ r, t.denotes r = z := by
  by_cases hones : t = .ones → 0 ≤ z
  · exact ⟨_, denotes_lowByte hlow hhigh hones⟩
  · obtain ⟨rfl, hneg⟩ := Classical.not_imp.mp hones
    simp only [Format.least] at hlow
    by_cases hleast : z = -127
    · exact ⟨0x80, by rw [hleast]; rfl⟩
    · exact ⟨lowByte (z - 1), by rw [ones_negative (by omega) (by omega)]; omega⟩

/-! ### Rounding -/

section
variable {t : Format} {q : ℚ} {r : UInt8}

theorem nearest_of_half (h : |q - t.denotes r| ≤ 1 / 2) : t.Nearest q r := by
  intro r'
  by_cases he : t.denotes r' = t.denotes r
  · rw [he]
  · have hone : (1 : ℚ) ≤ |(t.denotes r' : ℚ) - t.denotes r| := by
      exact_mod_cast Int.one_le_abs (sub_ne_zero.mpr he)
    have htriangle := abs_sub_le (t.denotes r' : ℚ) q (t.denotes r)
    rw [abs_sub_comm (t.denotes r' : ℚ) q] at htriangle
    linarith

/-- A number is not nearest if another one is nearer. -/
theorem not_nearest {z : ℤ} (hlow : t.least ≤ z) (hhigh : z ≤ t.greatest)
    (h : |q - z| < |q - t.denotes r|) :
    ¬ t.Nearest q r := by
  intro hnearest
  obtain ⟨r', hr'⟩ := exists_denotes hlow hhigh
  have hle := hnearest r'
  rw [hr'] at hle
  linarith

/-- The integer that the code takes for a quotient. -/
def rounded (q : ℚ) : ℤ := if 0 ≤ q then (if 1 / 2 ≤ q - ⌊q⌋ then ⌈q⌉ else ⌊q⌋) else ⌈q⌉

theorem narrowInt_eq (hlow : -128 ≤ q) (hhigh : q ≤ 255) :
    narrowInt q = if 0 ≤ q then ⌊q⌋ else ⌈q⌉ := by
  unfold narrowInt
  rw [if_neg (by linarith), if_neg (by linarith)]

theorem narrowInt_intCast {z : ℤ} (hlow : -128 ≤ z) (hhigh : z ≤ 255) : narrowInt z = z := by
  have h1 : (-128 : ℚ) ≤ z := by exact_mod_cast hlow
  have h2 : (z : ℚ) ≤ 255 := by exact_mod_cast hhigh
  rw [narrowInt_eq h1 h2, Int.floor_intCast, Int.ceil_intCast, ite_self]

theorem narrowed_eq (hlow : -128 ≤ q) (hhigh : q ≤ 255) :
    (if 1 / 2 ≤ q - narrowInt q then narrowU8 ⌈q⌉ else narrowU8 q) = lowByte (rounded q) := by
  have hceil : narrowInt ⌈q⌉ = ⌈q⌉ :=
    narrowInt_intCast (Int.le_ceil_iff.mpr (by push_cast; linarith))
      (Int.ceil_le.mpr (by exact_mod_cast hhigh))
  unfold narrowU8 rounded
  rw [hceil, narrowInt_eq hlow hhigh]
  by_cases hq : 0 ≤ q
  · rw [if_pos hq, if_pos hq]
    split_ifs <;> rfl
  · rw [if_neg hq, if_neg hq, if_neg]
    have hle := Int.le_ceil q
    linarith

/-- When the code rounds to a nearest number: not below zero, unless it is at most a half above, and
in one's complement only to zero. -/
theorem rounded_nearest_iff (hlow : t.least ≤ q) (hhigh : q ≤ t.greatest) :
    t.Nearest q (lowByte (rounded q)) ↔ 0 ≤ q ∨ (⌈q⌉ - q ≤ 1 / 2 ∧ (t = .ones → ⌈q⌉ = 0)) := by
  have hfloor := Int.floor_le q
  have hfloor' := Int.lt_floor_add_one q
  have hceil := Int.le_ceil q
  have hceil' := Int.ceil_lt_add_one q
  have hgreatest : ⌈q⌉ ≤ t.greatest := Int.ceil_le.mpr hhigh
  by_cases hq : 0 ≤ q
  · refine iff_of_true ?_ (.inl hq)
    have hnonneg : 0 ≤ ⌊q⌋ := Int.floor_nonneg.mpr hq
    have hfc : ⌊q⌋ ≤ ⌈q⌉ := Int.floor_le_ceil q
    have hleast : t.least ≤ 0 := by rcases t <;> decide
    refine nearest_of_half ?_
    unfold rounded
    rw [if_pos hq]
    by_cases hup : 1 / 2 ≤ q - ⌊q⌋
    · rw [if_pos hup, denotes_lowByte (by omega) hgreatest (fun _ => by omega), abs_le]
      have hnext : (⌈q⌉ : ℚ) ≤ ⌊q⌋ + 1 := by exact_mod_cast Int.ceil_le_floor_add_one q
      constructor <;> linarith
    · rw [if_neg hup, denotes_lowByte (by omega) (by omega) (fun _ => hnonneg), abs_le]
      constructor <;> linarith
  · rw [rounded, if_neg hq, or_iff_right hq]
    have hneg : ⌈q⌉ ≤ 0 := Int.ceil_le.mpr (by push_cast; linarith)
    have hleast : t.least ≤ ⌈q⌉ := by exact_mod_cast le_trans hlow hceil
    by_cases hones : t = .ones → ⌈q⌉ = 0
    · rw [and_iff_left hones]
      have hdenotes : t.denotes (lowByte ⌈q⌉) = ⌈q⌉ :=
        denotes_lowByte hleast hgreatest fun ht => (hones ht).ge
      constructor
      · intro hnearest
        by_contra hfar
        -- the next number below is nearer, and is in the range
        have hbelow : t.least ≤ ⌈q⌉ - 1 := by
          by_contra hout
          have he : ⌈q⌉ = t.least := by omega
          rw [he] at hfar
          linarith
        refine not_nearest hbelow (by omega) ?_ hnearest
        rw [hdenotes, abs_sub_comm q (⌈q⌉ : ℚ), abs_of_nonneg (by linarith : (0 : ℚ) ≤ ⌈q⌉ - q)]
        push_cast
        rw [abs_of_nonneg (by linarith)]
        linarith
      · intro hnear
        refine nearest_of_half ?_
        rw [hdenotes, abs_le]
        constructor <;> linarith
    · refine iff_of_false ?_ fun h => hones h.2
      obtain ⟨rfl, hne⟩ := Classical.not_imp.mp hones
      simp only [Format.least] at hleast
      refine not_nearest hleast hgreatest ?_
      rw [ones_negative hleast (by omega), abs_sub_comm q (⌈q⌉ : ℚ),
        abs_of_nonneg (by linarith : (0 : ℚ) ≤ ⌈q⌉ - q), abs_sub_comm]
      push_cast
      rw [abs_of_nonneg (by linarith)]
      linarith

end

/-! ### There and back -/

/-- The number that `convertSensorReading` takes for a raw value. -/
def codeValue (t : Format) (r : UInt8) : ℤ :=
  match t with
  | .unsigned => r.toNat
  | .ones => (if r &&& 0x80 ≠ 0 then r + 1 else r).toBitVec.toInt
  | .twos => r.toBitVec.toInt

/-- Its low byte is the raw value, except for the negative ones in one's complement. -/
theorem codeValue_table : ∀ (t : Format) (n : Fin 256), -128 ≤ codeValue t (UInt8.ofNat n) ∧
    codeValue t (UInt8.ofNat n) ≤ 255 ∧
    (lowByte (codeValue t (UInt8.ofNat n)) = UInt8.ofNat n ↔
      ¬ (t = .ones ∧ 128 ≤ (UInt8.ofNat n).toNat)) := by
  rintro (_ | _ | _)
  · decide +kernel
  · decide +kernel
  · decide +kernel

theorem codeValue_spec (t : Format) (r : UInt8) : -128 ≤ codeValue t r ∧ codeValue t r ≤ 255 ∧
    (lowByte (codeValue t r) = r ↔ ¬ (t = .ones ∧ 128 ≤ r.toNat)) := by
  have htable := codeValue_table t ⟨r.toNat, r.toNat_lt⟩
  simp only [UInt8.ofNat_toNat] at htable
  exact htable

section
variable {e : Endian} {curve : UInt8 → ℚ → ℚ} {t : Format} {linearization : UInt8} {f : Factors}

theorem linearize_linear (hlin : linearization &&& 0x7f = 0) (v : ℚ) :
    linearize curve linearization v = v := by
  simp only [linearize, hlin]
  rfl

theorem reading_eq (hlin : linearization &&& 0x7f = 0) (r : UInt8) :
    convertSensorReading e curve (sensorOf e t linearization f) r =
      ((f.m * codeValue t r : ℤ) + (f.b : ℚ) * 10 ^ f.bExp) * 10 ^ f.rExp := by
  have hscaled : ∀ z, scaled e (sensorOf e t linearization f) z =
      ((f.m * z : ℤ) + (f.b : ℚ) * 10 ^ f.bExp) * 10 ^ f.rExp := by
    intro z
    simp only [scaled, sensorOf, toM_eq, toB_eq, toRExp_eq, toBExp_eq]
  rw [← hscaled]
  rcases t
  · exact linearize_linear hlin _
  · exact linearize_linear hlin _
  · exact linearize_linear hlin _

/-- The quotient of a reading is the number it came from. -/
theorem quotient_reading (hlin : linearization &&& 0x7f = 0) (hm : f.m ≠ 0) (r : UInt8) :
    f.quotient (convertSensorReading e curve (sensorOf e t linearization f) r) = codeValue t r := by
  have hm' : (f.m : ℚ) ≠ 0 := by exact_mod_cast hm
  have hpow : (10 : ℚ) ^ f.rExp ≠ 0 := zpow_ne_zero _ (by norm_num)
  rw [reading_eq hlin, Factors.quotient, mul_div_assoc, div_self hpow, mul_one,
    add_sub_cancel_right, Int.cast_mul, mul_div_cancel_left₀ _ hm']

theorem valueToRaw_eq (hm : f.m ≠ 0) {v : ℚ} (hlow : -128 ≤ f.quotient v)
    (hhigh : f.quotient v ≤ 255) :
    convertSensorValueToRaw e (sensorOf e t linearization f) v =
      lowByte (rounded (f.quotient v)) := by
  have hanalog : (sensorOf e t linearization f).analog.val ≠ 3 := by
    rcases t
    · exact (by decide : 0 ≠ 3)
    · exact (by decide : 1 ≠ 3)
    · exact (by decide : 2 ≠ 3)
  have hm' : toM e (sensorOf e t linearization f).mtol ≠ 0 := (toM_eq e f).trans_ne hm
  have hresult : (v / 10 ^ toRExp e (sensorOf e t linearization f).bacc -
      toB e (sensorOf e t linearization f).bacc *
      10 ^ toBExp e (sensorOf e t linearization f).bacc) / toM e
        (sensorOf e t linearization f).mtol = f.quotient v := by
    simp only [sensorOf, toM_eq, toB_eq, toRExp_eq, toBExp_eq, Factors.quotient]
  rw [convertSensorValueToRaw, if_neg hanalog, if_neg hm']
  simp only [hresult]
  exact narrowed_eq hlow hhigh

theorem rounded_intCast (z : ℤ) : rounded z = z := by
  unfold rounded
  rw [Int.floor_intCast, Int.ceil_intCast]
  simp

theorem valueToRaw_reading (hlin : linearization &&& 0x7f = 0) (hm : f.m ≠ 0) (r : UInt8) :
    convertSensorValueToRaw e (sensorOf e t linearization f)
      (convertSensorReading e curve (sensorOf e t linearization f) r) =
        lowByte (codeValue t r) := by
  obtain ⟨hlow, hhigh, -⟩ := codeValue_spec t r
  have hquotient : f.quotient (convertSensorReading e curve (sensorOf e t linearization f) r) =
      codeValue t r :=
    quotient_reading hlin hm r
  rw [valueToRaw_eq hm (by rw [hquotient]; exact_mod_cast hlow)
    (by rw [hquotient]; exact_mod_cast hhigh), hquotient, rounded_intCast]

end

/-- **When the way back is the inverse.** A raw value comes back unless it is negative in one's
complement; a reading becomes a nearest raw value if its quotient is not negative, or at most a half
below the integer above, which must be zero in one's complement. -/
theorem converts_iff (e : Endian) (curve : UInt8 → ℚ → ℚ) (t : Format) {linearization : UInt8}
    {f : Factors}
    (hlin : linearization &&& 0x7f = 0) (hm : f.m ≠ 0) :
    (∀ r, convertSensorValueToRaw e (sensorOf e t linearization f)
        (convertSensorReading e curve (sensorOf e t linearization f) r) = r ↔
        ¬ (t = .ones ∧ 128 ≤ r.toNat)) ∧
    ∀ v, t.least ≤ f.quotient v → f.quotient v ≤ t.greatest →
      (t.Nearest (f.quotient v) (convertSensorValueToRaw e (sensorOf e t linearization f) v) ↔
        0 ≤ f.quotient v ∨
        (⌈f.quotient v⌉ - f.quotient v ≤ 1 / 2 ∧ (t = .ones → ⌈f.quotient v⌉ = 0))) := by
  constructor
  · intro r
    rw [valueToRaw_reading hlin hm]
    exact (codeValue_spec t r).2.2
  · intro v hlow hhigh
    have hleast : (-128 : ℚ) ≤ t.least := by
      rcases t <;> norm_num [Format.least]
    have hgreatest : (t.greatest : ℚ) ≤ 255 := by
      rcases t <;> norm_num [Format.greatest]
    rw [valueToRaw_eq hm (by linarith) (by linarith)]
    exact rounded_nearest_iff hlow hhigh

/-- A sensor with the factor one. -/
def plain : Factors := ⟨1, 0, 0, 0, 0, 0⟩

theorem converts_iff_plain : plain.m ≠ 0 ∧
    ∀ r, convertSensorValueToRaw .little (sensorOf .little .twos 0 plain)
      (convertSensorReading .little (fun _ v => v) (sensorOf .little .twos 0 plain) r) = r := by
  have hm : plain.m ≠ 0 := by decide
  refine ⟨hm, fun r => ?_⟩
  exact ((converts_iff .little (fun _ v => v) .twos (by decide) hm).1 r).mpr (by simp)

/-- In one's complement the raw value of -1 comes back as that of zero; in two's complement -1.7
becomes -1. -/
theorem negative_not_inverted :
    (∀ r, Format.ones.denotes r = Format.ones.denotes 0xfe → r = 0xfe) ∧
    convertSensorValueToRaw .little (sensorOf .little .ones 0 plain)
      (convertSensorReading .little (fun _ v => v) (sensorOf .little .ones 0 plain) 0xfe) = 0xff ∧
    plain.quotient (-17 / 10) = -17 / 10 ∧
    ¬ Format.twos.Nearest (-17 / 10)
      (convertSensorValueToRaw .little (sensorOf .little .twos 0 plain) (-17 / 10)) := by
  have hm : plain.m ≠ 0 := by decide
  have hquotient : plain.quotient (-17 / 10) = -17 / 10 := by
    have h1 : plain.m = 1 := rfl
    have h2 : plain.b = 0 := rfl
    have h3 : plain.rExp = 0 := rfl
    have h4 : plain.bExp = 0 := rfl
    rw [Factors.quotient, h1, h2, h3, h4]
    norm_num
  refine ⟨?_, ?_, hquotient, ?_⟩
  · intro r hr
    have htable : ∀ n : Fin 256, Format.ones.denotes (UInt8.ofNat n) = Format.ones.denotes 0xfe →
        UInt8.ofNat n = 0xfe := by decide +kernel
    have hone := htable ⟨r.toNat, r.toNat_lt⟩
    simp only [UInt8.ofNat_toNat] at hone
    exact hone hr
  · rw [valueToRaw_reading (by decide) hm]
    decide
  · have hceil : ⌈(-17 / 10 : ℚ)⌉ = -1 := by
      rw [Int.ceil_eq_iff]
      norm_num
    rw [valueToRaw_eq hm (by rw [hquotient]; norm_num) (by rw [hquotient]; norm_num), hquotient,
      rounded_nearest_iff (by norm_num [Format.least]) (by norm_num [Format.greatest]), hceil]
    norm_num

end Ipmitool.Sdr.Conversion
