import Ipmitool.Core.Types
import Ipmitool.Lib.Bytes
import Ipmitool.Lib.Rounding

/-! # Floating-point numbers in text

`parseWithProfile` of `util/float_parse.zig` in the dialect of the GNU C library, where the long
double is not asked for, and `hexadecimal` for its hexadecimal numbers. A number is its bit pattern.
What decimal digits stand for is a parameter.

Sixteen hexadecimal digits are kept and the others only leave a mark (`Kept`); the kept digits are
rounded in units of the last place of the result. `hexadecimal_correct` says that this is the number
the format has for the constant, and that the range flag says what it should. -/

namespace Ipmitool.Util.FloatParse

open Ipmitool.Lib.Bytes Ipmitool.Lib.Rounding Ipmitool.Core.Types

/-! ### The code -/

/-- `GlibcTininess`. -/
inductive GlibcTininess where
  | beforeRounding
  | afterRounding
  deriving DecidableEq

/-- `Result`, with the bits of the value. -/
structure Result where
  value : ℕ
  endPos : ℕ := 0
  range : Bool := false
  noConversion : Bool := false
  positiveZero : Bool := false

/-- `digit`. -/
def digit (byte : UInt8) (base : ℕ) : Option ℕ :=
  let d :=
    if 0x30 ≤ byte ∧ byte ≤ 0x39 then some (byte.toNat - 0x30)
    else if 0x61 ≤ byte ∧ byte ≤ 0x66 then some (byte.toNat - 0x61 + 10)
    else if 0x41 ≤ byte ∧ byte ≤ 0x46 then some (byte.toNat - 0x41 + 10)
    else none
  d.filter fun d => d < base

def isDigit (base : ℕ) (byte : UInt8) : Bool := (digit byte base).isSome

/-- `hasDigit`, of the text at the position. -/
def hasDigit (source : List UInt8) (base : ℕ) : Bool := source.head?.any (isDigit base)

/-- The variables of the loop of `hexadecimal`. -/
structure Scan where
  leadingZeros : ℕ := 0
  kept : ℕ := 0
  mantissa : ℕ := 0
  tail : Bool := false

/-- The body of the loop, for a digit. -/
def Scan.add (s : Scan) (d : ℕ) : Scan :=
  if s.mantissa = 0 ∧ d = 0 then { s with leadingZeros := s.leadingZeros + 1 }
  else if s.kept < 16 then { s with mantissa := s.mantissa * 16 + d, kept := s.kept + 1 }
  else { s with tail := s.tail || decide (d ≠ 0) }

/-- The loop of `hexadecimal`. -/
def scan : List UInt8 → Scan → Except Fault Scan
  | [], s => .ok s
  | byte :: token, s =>
    if byte = 0x2e then scan token s
    else
      match digit byte 16 with
      | none => .error .nullUnwrap
      | some d => scan token (s.add d)

/-- The mantissa in units of `2 ^ shift`, and whether something was lost. -/
def roundShift (mantissa : ℕ) (tail : Bool) (shift : ℤ) : ℕ × Bool :=
  if 64 < shift then (0, true)
  else if 0 < shift then
    let half := 2 ^ (shift - 1).toNat
    let remainder := mantissa &&& (half ||| (half - 1))
    let rounded := if shift = 64 then 0 else mantissa >>> shift.toNat
    (if half < remainder ∨ remainder = half ∧ (tail = true ∨ rounded &&& 1 ≠ 0) then rounded + 1
      else rounded, tail || decide (remainder ≠ 0))
  else ((mantissa <<< (-shift).toNat) % 2 ^ 64, tail)

/-- `63 - @clz(mantissa)`, of a mantissa that is not zero. -/
def highestBit (mantissa : ℕ) : ℕ := Nat.log2 mantissa

/-- `belowNormalPrecisionBoundary`. -/
def belowNormalPrecisionBoundary (mantissa : ℕ) : Bool :=
  let boundary := 2 ^ 54 - 1
  let shift : ℤ := highestBit mantissa - 53
  if 0 ≤ shift then mantissa < boundary <<< shift.toNat else mantissa <<< (-shift).toNat < boundary

/-- `std.math.inf(f64)`. -/
def inf : ℕ := 0x7ff0000000000000

/-- `hexadecimal` behind the loop: the mantissa counts units of `2 ^ unit`. -/
def fromMantissa (tininess : GlibcTininess) (mantissa : ℕ) (tail : Bool) (unit : ℤ) : Result :=
  let highest := unit + highestBit mantissa
  if 1023 < highest then { value := inf, range := true }
  else
    let outputUnit := max (-1074) (highest - 52)
    let (rounded, inexact) := roundShift mantissa tail (outputUnit - unit)
    let tiny := highest < -1022 ∧ (tininess = .beforeRounding ∨ highest < -1023 ∨
      belowNormalPrecisionBoundary mantissa = true)
    if highest < -1022 then { value := rounded, range := decide tiny && inexact }
    else
      let carry := rounded = 2 ^ 53
      let fraction := if carry then rounded >>> 1 else rounded
      let exponent := if carry then highest + 1 else highest
      if 1023 < exponent then { value := inf, range := true }
      else { value := (exponent + 1023).toNat <<< 52 ||| fraction &&& 0x000fffffffffffff }

/-- `hexadecimal`. -/
def hexadecimal (tininess : GlibcTininess) (token : List UInt8) (integralDigits : ℕ)
    (exponent : ℤ) : Except Fault Result :=
  match scan token {} with
  | .error fault => .error fault
  | .ok s =>
    if s.mantissa = 0 then .ok { value := 0 }
    else .ok (fromMantissa tininess s.mantissa s.tail
      (exponent + 4 * ((integralDigits : ℤ) - s.leadingZeros - s.kept)))

/-- `std.ascii.isWhitespace`. -/
def isWhitespace (b : UInt8) : Bool := b = 0x20 ∨ (0x09 ≤ b ∧ b ≤ 0x0d)

/-- `std.ascii.toLower`. -/
def toLower (b : UInt8) : UInt8 := if 0x41 ≤ b ∧ b ≤ 0x5a then b + 0x20 else b

/-- `std.ascii.startsWithIgnoreCase`. -/
def startsWithIgnoreCase (source text : List UInt8) : Bool :=
  (source.take text.length).map toLower = text

/-- A character of the payload of a NaN. -/
def isPayload (b : UInt8) : Bool :=
  (0x30 ≤ b ∧ b ≤ 0x39) ∨ (0x61 ≤ toLower b ∧ toLower b ≤ 0x7a) ∨ b = 0x5f

/-- The loop of `nanPayload`. -/
def payloadValue (base : ℕ) : List UInt8 → ℕ → ℕ
  | [], value => value &&& 0x000fffffffffffff
  | byte :: payload, value =>
    match digit byte base with
    | none => 0
    | some d => payloadValue base payload
        (if (2 ^ 64 - 1 - d) / base < value then 2 ^ 64 - 1 else value * base + d)

/-- `nanPayload`. -/
def nanPayload (payload : List UInt8) : ℕ :=
  if payload = [] then 0
  else if payload.head? = some 0x30 then
    if 2 < payload.length ∧ (payload[1]? = some 0x78 ∨ payload[1]? = some 0x58) ∧
        (payload[2]?.any (isDigit 16)) then
      payloadValue 16 (payload.drop 2) 0
    else payloadValue 8 payload 0
  else payloadValue 10 payload 0

/-- The sign bit. -/
def signed (value : ℕ) (negative : Bool) : ℕ := if negative then value ^^^ 2 ^ 63 else value

/-- The text begins with the prefix of a hexadecimal number and one of its digits. -/
def hexPrefix : List UInt8 → Bool
  | zero :: x :: source => zero = 0x30 ∧ (x = 0x78 ∨ x = 0x58) ∧
      (hasDigit source 16 ∨ source.head? = some 0x2e ∧ hasDigit source.tail 16)
  | _ => false

/-- The digits that the text begins with. -/
def digitRun (base : ℕ) (source : List UInt8) : List UInt8 := source.takeWhile (isDigit base)

/-- The point and the digits behind it, if the text begins with a point. -/
def pointRun (base : ℕ) (source : List UInt8) : List UInt8 :=
  if source.head? = some 0x2e then 0x2e :: digitRun base source.tail else []

/-- The limit of the exponent. -/
def exponentLimit : ℤ := 2 ^ 80

/-- The exponent that the text begins with, and its length; without digits there is none. -/
def scanExponent (marker : UInt8) (source : List UInt8) : ℤ × ℕ :=
  if (source.head?.map toLower) = some marker then
    let negative := source.tail.head? = some 0x2d
    let sign := if negative ∨ source.tail.head? = some 0x2b then 1 else 0
    let run := digitRun 10 (source.tail.drop sign)
    if run = [] then (0, 0)
    else
      let exponent :=
        run.foldl (fun e byte => min exponentLimit (e * 10 + (byte.toNat - 0x30 : ℕ))) 0
      (if negative then -exponent else exponent, 1 + sign + run.length)
  else (0, 0)

/-- `parseWithProfile` in the dialect of the GNU C library; `decimal` stands for the function of
that name. -/
def parseWithProfile (decimal : List UInt8 → ℕ → ℤ → Bool → Except Fault Result)
    (tininess : GlibcTininess) (source : List UInt8) : Except Fault Result := do
  let text := source.dropWhile isWhitespace
  let blanks := source.length - text.length
  let negative := decide (text.head? = some 0x2d)
  let sign := if negative ∨ text.head? = some 0x2b then 1 else 0
  let pos := blanks + sign
  let text := text.drop sign
  if startsWithIgnoreCase text (ascii "inf") then
    let more := if startsWithIgnoreCase (text.drop 3) (ascii "inity") then 5 else 0
    return { value := signed inf negative, endPos := pos + 3 + more }
  else if startsWithIgnoreCase text (ascii "nan") then
    let name := (text.drop 4).takeWhile isPayload
    let closed := (text.drop 3).head? = some 0x28 ∧ (text.drop (4 + name.length)).head? = some 0x29
    return { value := signed (0x7ff8000000000000 ||| (if closed then nanPayload name
      else 0)) negative
             endPos := pos + 3 + (if closed then name.length + 2 else 0) }
  else
    let base := if hexPrefix text then 16 else 10
    let start := if hexPrefix text then 2 else 0
    let text := text.drop start
    let integral := digitRun base text
    let fractional := pointRun base (text.drop integral.length)
    if integral = [] ∧ fractional.length ≤ 1 then return { value := 0, noConversion := true }
    else
      let token := integral ++ fractional
      let (exponent, length) :=
        scanExponent (if base = 16 then 0x70 else 0x65) (text.drop token.length)
      let result ← if base = 16 then hexadecimal tininess token integral.length exponent
        else decimal token integral.length exponent negative
      return { result with
        value := if result.positiveZero then result.value else signed result.value negative
        endPos := pos + start + token.length + length }

/-! ### The numbers -/

theorem fraction_pos : 0 < 52 := by decide

theorem top_ge : 2 ≤ 2047 := by decide

def binary64 : Format := ⟨52, -1074, 2047, fraction_pos, top_ge⟩

/-- Below the normal numbers, in the sense of the architecture. -/
def Tiny : GlibcTininess → ℚ → Prop
  | .beforeRounding, x => x < binary64.normal
  | .afterRounding, x => binary64.RoundsBelowNormal x

/-- The bits and the range flag for the number `x`. -/
structure Correct (tininess : GlibcTininess) (x : ℚ) (bits : ℕ) (range : Bool) : Prop where
  rounds : binary64.Rounds x bits
  range : range = true ↔ bits = binary64.infinity ∨
    x ≠ 0 ∧ ¬ binary64.Representable x ∧ Tiny tininess x

/-! ### The digits -/

/-- The digits of a token. -/
def digitsOf (token : List UInt8) : List ℕ := token.filterMap fun byte => digit byte 16

/-- The number that digits stand for. -/
def number (ds : List ℕ) : ℕ := ds.foldl (fun n d => n * 16 + d) 0

theorem scan_ok : ∀ (token : List UInt8) (s : Scan),
    (∀ byte ∈ token, byte = 0x2e ∨ isDigit 16 byte = true) →
      scan token s = .ok ((digitsOf token).foldl Scan.add s)
  | [], _, _ => rfl
  | byte :: token, s, h => by
    have ih := fun s => scan_ok token s fun b hb => h b (List.mem_cons_of_mem _ hb)
    unfold scan digitsOf
    rw [List.filterMap_cons]
    split_ifs with hpoint
    · have hnone : digit byte 16 = none := by rw [hpoint]; rfl
      rw [hnone]
      exact ih s
    · obtain ⟨d, hd⟩ :=
        Option.isSome_iff_exists.mp ((h byte List.mem_cons_self).resolve_left hpoint)
      rw [hd]
      exact ih _

/-- What the loop knows of a number with `count` digits: behind the leading zeros and the digits
that were kept there are `r` digits with the number `t`. -/
def Kept (count n : ℕ) (s : Scan) : Prop :=
  ∃ r t, s.leadingZeros + s.kept + r = count ∧ n = s.mantissa * 16 ^ r + t ∧ t < 16 ^ r ∧
    (s.tail = true ↔ t ≠ 0) ∧ (s.mantissa = 0 → r = 0) ∧ (0 < r → s.kept = 16) ∧ s.kept ≤ 16 ∧
    s.mantissa < 16 ^ s.kept ∧ (0 < s.kept → 16 ^ (s.kept - 1) ≤ s.mantissa)

theorem kept_start : Kept 0 0 {} :=
  ⟨0, 0, rfl, rfl, by simp, by simp, fun _ => rfl, by simp, by simp, by simp, by simp⟩

theorem kept_add {count n d : ℕ} {s : Scan} (hd : d < 16) (h : Kept count n s) :
    Kept (count + 1) (n * 16 + d) (s.add d) := by
  obtain ⟨r, t, hcount, hn, ht, htail, hzero, hr, hkept, hlt, hge⟩ := h
  unfold Scan.add
  split_ifs with h0 h16
  · -- another leading zero
    obtain ⟨hm, rfl⟩ := h0
    obtain rfl := hzero hm
    have ht0 : t = 0 := by simpa using ht
    refine ⟨0, 0, ?_, ?_, by simp, ?_, fun _ => rfl, by simp, hkept, hlt, hge⟩
    · dsimp only
      omega
    · simp [hn, hm, ht0]
    · rw [htail, ht0]
  · -- the digit is kept, and all digits so far were
    have hr0 : r = 0 := by
      by_contra hne
      have := hr (Nat.pos_of_ne_zero hne)
      omega
    subst hr0
    have ht0 : t = 0 := by simpa using ht
    have hn' : n = s.mantissa := by rw [hn, ht0, pow_zero, Nat.mul_one, Nat.add_zero]
    refine ⟨0, 0, ?_, ?_, by simp, ?_, fun _ => rfl, by simp, h16, ?_, fun _ => ?_⟩
    · dsimp only
      omega
    · rw [hn']
      simp
    · rw [htail, ht0]
    · change s.mantissa * 16 + d < 16 ^ (s.kept + 1)
      rw [pow_succ]
      omega
    · change 16 ^ (s.kept + 1 - 1) ≤ s.mantissa * 16 + d
      rcases Nat.eq_zero_or_pos s.kept with hk | hk
      · rw [hk] at hlt ⊢
        have hm : s.mantissa = 0 := by simpa using hlt
        have : d ≠ 0 := fun hd0 => h0 ⟨hm, hd0⟩
        simp only [Nat.zero_add, Nat.sub_self, pow_zero]
        omega
      · have := hge hk
        obtain ⟨k, hk'⟩ := Nat.exists_eq_succ_of_ne_zero hk.ne'
        rw [hk'] at this ⊢
        simp only [Nat.succ_eq_add_one, Nat.add_sub_cancel] at this ⊢
        rw [pow_succ]
        omega
  · -- the digit leaves its mark
    have hm : s.mantissa ≠ 0 := by
      intro hm
      have := hge (by omega)
      rw [hm] at this
      exact absurd this (by simp)
    refine ⟨r + 1, t * 16 + d, ?_, ?_, ?_, ?_, fun h => absurd h hm, fun _ => by dsimp only; omega,
      hkept, hlt, hge⟩
    · dsimp only
      omega
    · rw [hn, pow_succ]
      ring
    · rw [pow_succ]
      omega
    · simp only [Bool.or_eq_true, decide_eq_true_eq, htail]
      omega

theorem kept_scan (ds : List ℕ) (hds : ∀ d ∈ ds, d < 16) :
    ∀ {count n : ℕ} {s : Scan}, Kept count n s →
    Kept (count + ds.length) (ds.foldl (fun n d => n * 16 + d) n) (ds.foldl Scan.add s) := by
  induction ds with
  | nil => exact fun h => h
  | cons d ds ih =>
    intro count n s h
    have hstep := kept_add (hds d List.mem_cons_self) h
    rw [List.length_cons, Nat.add_comm ds.length, ← Nat.add_assoc]
    exact ih (fun d hd => hds d (List.mem_cons_of_mem _ hd)) hstep

/-! ### Rounding -/

theorem highestBit_bounds {m : ℕ} (hm : m ≠ 0) :
    2 ^ highestBit m ≤ m ∧ m + 1 ≤ 2 ^ (highestBit m + 1) :=
  ⟨Nat.log2_self_le hm, Nat.lt_log2_self⟩

/-- A mantissa and the part `τ` of the next unit that was cut off. -/
structure Rest (m : ℕ) (tail : Bool) (τ : ℚ) : Prop where
  mantissa_pos : m ≠ 0
  mantissa_lt : m < 2 ^ 64
  nonneg : 0 ≤ τ
  lt_one : τ < 1
  tail : tail = true ↔ τ ≠ 0
  full : τ ≠ 0 → 60 ≤ highestBit m

/-- What `roundShift` should return: the nearest number of units, and whether anything is lost. -/
def RoundsTo (q : ℚ) (r : ℕ × Bool) : Prop :=
  NearestEven q r.1 ∧ (r.2 = false ↔ ∃ k : ℕ, q = k)

section
variable {m : ℕ} {tail : Bool} {τ : ℚ}

/-- Less than half a unit is nothing. -/
theorem Rest.roundsTo_zero (h : Rest m tail τ) {shift : ℤ} (hlarge : 64 < shift) :
    RoundsTo ((m + τ) / 2 ^ shift) (0, true) := by
  have hm1 : (1 : ℚ) ≤ m := by exact_mod_cast Nat.one_le_iff_ne_zero.mpr h.mantissa_pos
  have h0 := h.nonneg
  have h1 := h.lt_one
  have hsmall : (m + τ) / 2 ^ shift < 1 / 2 := by
    have hm : (m : ℚ) + 1 ≤ 2 ^ 64 := by exact_mod_cast h.mantissa_lt
    have hpow : (2 : ℚ) ^ (65 : ℤ) ≤ 2 ^ shift := zpow_le_zpow_right₀ (by norm_num) (by omega)
    rw [div_lt_iff₀ (by positivity)]
    norm_num at hpow hm ⊢
    linarith
  have hq : 0 < (m + τ) / 2 ^ shift := div_pos (by linarith) (by positivity)
  refine ⟨⟨?_, fun htie => ?_⟩, ?_⟩
  · rw [Nat.cast_zero, sub_zero, abs_of_pos hq]
    exact hsmall.le
  · rw [Nat.cast_zero, sub_zero, abs_of_pos hq] at htie
    exact absurd htie hsmall.ne
  · simp only [Bool.true_eq_false, false_iff, not_exists]
    intro k hk
    rw [hk] at hsmall hq
    have : 0 < k := by exact_mod_cast hq
    have : (1 : ℚ) ≤ k := by exact_mod_cast this
    linarith

/-- The rest is nothing, and the bits below the unit are zero, exactly if the number is one of
units. -/
theorem Rest.whole_iff (h : Rest m tail τ) (s : ℕ) :
    (τ = 0 ∧ m % 2 ^ s = 0) ↔ ∃ k : ℕ, (m + τ) / 2 ^ s = k := by
  have h0 := h.nonneg
  have h1 := h.lt_one
  constructor
  · rintro ⟨hτ, hdvd⟩
    obtain ⟨k, hk⟩ := Nat.dvd_of_mod_eq_zero hdvd
    refine ⟨k, ?_⟩
    rw [hτ, add_zero, hk, div_eq_iff (by positivity)]
    push_cast
    ring
  · rintro ⟨k, hk⟩
    rw [div_eq_iff (by positivity)] at hk
    -- the rest is an integer below one
    have hle : m ≤ k * 2 ^ s := by
      have : (m : ℚ) ≤ k * 2 ^ s := by linarith
      exact_mod_cast this
    have hlt : k * 2 ^ s < m + 1 := by
      have : (k : ℚ) * 2 ^ s < m + 1 := by linarith
      exact_mod_cast this
    have hm : m = k * 2 ^ s := by omega
    have hcast : (m : ℚ) = k * 2 ^ s := by exact_mod_cast hm
    exact ⟨by linarith, by rw [hm, Nat.mul_mod_left]⟩

/-- The bits below a unit of `2 * 2 ^ s` are compared with its half. -/
theorem Rest.roundsTo_shifted (h : Rest m tail τ) (s : ℕ) :
    RoundsTo ((m + τ) / 2 ^ (s + 1))
      (if 2 ^ s < m % 2 ^ (s + 1) ∨
          m % 2 ^ (s + 1) = 2 ^ s ∧ (tail = true ∨ m / 2 ^ (s + 1) % 2 ≠ 0) then
        m / 2 ^ (s + 1) + 1
      else m / 2 ^ (s + 1), tail || decide (m % 2 ^ (s + 1) ≠ 0)) := by
  -- the mantissa in units, with what is below them
  have hr : m % 2 ^ (s + 1) < 2 * 2 ^ s := by
    rw [← pow_succ']
    exact Nat.mod_lt _ (Nat.two_pow_pos _)
  have hm : (m : ℚ) = (m / 2 ^ (s + 1) : ℕ) * (2 * ((2 ^ s : ℕ) : ℚ)) +
      (m % 2 ^ (s + 1) : ℕ) := by
    have hdiv := Nat.div_add_mod' m (2 ^ (s + 1))
    have hcast : (m : ℚ) = ((m / 2 ^ (s + 1) * 2 ^ (s + 1) + m % 2 ^ (s + 1) : ℕ) : ℚ) := by
      rw [hdiv]
    rw [hcast]
    push_cast
    ring
  constructor
  · have hnear := nearestEven_div (a := m / 2 ^ (s + 1)) (Nat.two_pow_pos s) hr h.nonneg h.lt_one
    rw [← hm] at hnear
    simp only [h.tail]
    convert hnear using 2
    push_cast
    ring
  · rw [Bool.or_eq_false_iff, decide_eq_false_iff_not, not_not, ← Bool.not_eq_true, h.tail,
      not_not]
    exact h.whole_iff (s + 1)

/-- Units that are not larger than those of the mantissa lose nothing. -/
theorem Rest.roundsTo_exact (h : Rest m tail τ) {j : ℕ} (hj : (highestBit m : ℤ) - 52 ≤ -(j : ℤ)) :
    RoundsTo ((m + τ) / 2 ^ (-(j : ℤ))) (m * 2 ^ j % 2 ^ 64, tail) := by
  have hno : τ = 0 := by
    by_contra hne
    have := h.full hne
    omega
  have htail : tail = false := by
    rw [← Bool.not_eq_true, h.tail]
    exact not_not.mpr hno
  have hlt : m * 2 ^ j < 2 ^ 64 := by
    have hm := (highestBit_bounds h.mantissa_pos).2
    calc m * 2 ^ j < 2 ^ (highestBit m + 1) * 2 ^ j :=
      Nat.mul_lt_mul_of_pos_right hm (Nat.two_pow_pos j)
      _ = 2 ^ (highestBit m + 1 + j) := (pow_add ..).symm
      _ ≤ 2 ^ 64 := Nat.pow_le_pow_right two_pos (by omega)
  have hq : (m + τ) / 2 ^ (-(j : ℤ)) = ((m * 2 ^ j : ℕ) : ℚ) := by
    rw [hno, zpow_neg, zpow_natCast, div_inv_eq_mul]
    push_cast
    ring
  rw [Nat.mod_eq_of_lt hlt, hq]
  exact ⟨.exact, iff_of_true htail ⟨_, rfl⟩⟩

/-- The mantissa is rounded to the nearest number of units, and nothing is lost exactly if it was
such a number. -/
theorem roundShift_ok {shift : ℤ} (h : Rest m tail τ) (hshift : (highestBit m : ℤ) - 52 ≤ shift) :
    RoundsTo ((m + τ) / 2 ^ shift) (roundShift m tail shift) := by
  unfold roundShift
  by_cases hlarge : 64 < shift
  · rw [if_pos hlarge]
    exact h.roundsTo_zero hlarge
  rw [if_neg hlarge]
  by_cases hpos : 0 < shift
  · rw [if_pos hpos]
    obtain ⟨s, rfl⟩ : ∃ s : ℕ, shift = ((s + 1 : ℕ) : ℤ) := ⟨(shift - 1).toNat, by omega⟩
    have hs : (((s + 1 : ℕ) : ℤ) - 1).toNat = s := by omega
    have hmask : 2 ^ s ||| (2 ^ s - 1) = 2 ^ (s + 1) - 1 := by
      have hor := Nat.shiftLeft_add_eq_or_of_lt (b := 2 ^ s - 1) (i := s)
        (Nat.sub_lt (Nat.two_pow_pos s) one_pos) 1
      rw [Nat.one_shiftLeft] at hor
      rw [← hor, pow_succ]
      have := Nat.two_pow_pos s
      omega
    have hquot : (if ((s + 1 : ℕ) : ℤ) = 64 then 0 else m >>> ((s + 1 : ℕ) : ℤ).toNat) =
        m / 2 ^ (s + 1) := by
      split_ifs with h64
      · obtain rfl : s = 63 := by omega
        exact (Nat.div_eq_of_lt h.mantissa_lt).symm
      · rw [Int.toNat_natCast, Nat.shiftRight_eq_div_pow]
    dsimp only
    rw [hs, hmask, Nat.and_two_pow_sub_one_eq_mod, hquot, Nat.and_one_is_mod, zpow_natCast]
    exact h.roundsTo_shifted s
  · rw [if_neg hpos]
    obtain ⟨j, rfl⟩ : ∃ j : ℕ, shift = -(j : ℤ) := ⟨(-shift).toNat, by omega⟩
    rw [neg_neg, Int.toNat_natCast, Nat.shiftLeft_eq]
    exact h.roundsTo_exact hshift

end

/-- The boundary is half a unit of the last subnormal binade below the normal numbers. -/
theorem belowNormalPrecisionBoundary_iff {m : ℕ} {tail : Bool} {τ : ℚ} {unit : ℤ}
    (h : Rest m tail τ) (hhighest : unit + highestBit m = -1023) :
    belowNormalPrecisionBoundary m = true ↔
      (m + τ) * 2 ^ unit < (2 ^ 53 - 1 / 2) * 2 ^ (-1075 : ℤ) := by
  have h0 := h.nonneg
  have h1 := h.lt_one
  have hunit : (2 ^ 53 - 1 / 2) * (2 : ℚ) ^ (-1075 : ℤ) =
      ((2 ^ 54 - 1 : ℕ) : ℚ) * 2 ^ ((highestBit m : ℤ) - 53) * 2 ^ unit := by
    rw [mul_assoc, ← zpow_add₀ two_ne_zero, show (highestBit m : ℤ) - 53 + unit = -1076 by omega,
      show (-1075 : ℤ) = -1076 + 1 by rfl, zpow_add_one₀ two_ne_zero]
    generalize (2 : ℚ) ^ (-1076 : ℤ) = u
    norm_num
    ring
  rw [hunit, mul_lt_mul_iff_left₀ (by positivity)]
  unfold belowNormalPrecisionBoundary
  dsimp only
  split_ifs with hpos
  · obtain ⟨j, hj⟩ : ∃ j : ℕ, (highestBit m : ℤ) - 53 = j := ⟨_, (Int.toNat_of_nonneg hpos).symm⟩
    rw [hj, Int.toNat_natCast, Nat.shiftLeft_eq, decide_eq_true_iff, zpow_natCast]
    constructor
    · intro hlt
      have : (m : ℚ) + 1 ≤ ((2 ^ 54 - 1 : ℕ) : ℚ) * 2 ^ j := by exact_mod_cast hlt
      linarith
    · intro hlt
      have : (m : ℚ) < ((2 ^ 54 - 1 : ℕ) : ℚ) * 2 ^ j := by linarith
      exact_mod_cast this
  · obtain ⟨j, hj⟩ : ∃ j : ℕ, (highestBit m : ℤ) - 53 = -(j : ℤ) :=
      ⟨(53 - (highestBit m : ℤ)).toNat, by omega⟩
    have hτ : τ = 0 := by
      by_contra hne
      have := h.full hne
      omega
    rw [hj, neg_neg, Int.toNat_natCast, Nat.shiftLeft_eq, decide_eq_true_iff, zpow_neg,
      zpow_natCast, hτ,
      add_zero, ← div_eq_mul_inv, lt_div_iff₀ (by positivity)]
    exact_mod_cast Iff.rfl

/-! ### The result -/

theorem infinity_eq : binary64.infinity = inf := by
  norm_num [Format.infinity, binary64, inf]

theorem normal_binary64 : binary64.normal = 2 ^ (-1022 : ℤ) := by
  rw [Format.normal, binary64]
  norm_num

/-- The exponent over the fraction of a number that is not subnormal. -/
theorem pack {a f : ℕ} (h1 : 2 ^ 52 ≤ f) (h2 : f < 2 ^ 53) :
    a <<< 52 ||| f &&& 0x000fffffffffffff = a * 2 ^ 52 + (f - 2 ^ 52) := by
  have hmask : f &&& 0x000fffffffffffff = f - 2 ^ 52 := by
    rw [show 0x000fffffffffffff = 2 ^ 52 - 1 by rfl, Nat.and_two_pow_sub_one_eq_mod,
      Nat.mod_eq_sub_mod h1, Nat.mod_eq_of_lt (by omega)]
  rw [hmask, ← Nat.shiftLeft_add_eq_or_of_lt (by omega), Nat.shiftLeft_eq]

theorem tiny_iff {tininess : GlibcTininess} {m : ℕ} {tail : Bool} {τ : ℚ} {unit highest : ℤ}
    (h : Rest m tail τ) (hhighest : unit + highestBit m = highest) (hsub : highest < -1022)
    (hbelow : (m + τ) * 2 ^ unit < binary64.normal) (hhigh : (m + τ) * 2 ^ unit < 2 ^ (highest + 1))
    (hpos : 0 < (m + τ) * (2 : ℚ) ^ unit) :
    (highest < -1022 ∧ (tininess = .beforeRounding ∨ highest < -1023 ∨
        belowNormalPrecisionBoundary m = true)) ↔ Tiny tininess ((m + τ) * 2 ^ unit) := by
  rw [and_iff_right hsub]
  cases tininess with
  | beforeRounding => exact iff_of_true (.inl rfl) hbelow
  | afterRounding =>
    rw [or_iff_right (by decide), Tiny, Format.roundsBelowNormal_iff hpos hbelow]
    change _ ↔ _ < (2 ^ 53 - 1 / 2) * (2 : ℚ) ^ (-1075 : ℤ)
    by_cases hfar : highest < -1023
    · refine iff_of_true (.inl hfar) (hhigh.trans_le ?_)
      calc (2 : ℚ) ^ (highest + 1) ≤ 2 ^ (-1075 + 52 : ℤ) :=
        zpow_le_zpow_right₀ (by norm_num) (by omega)
        _ = 2 ^ 52 * 2 ^ (-1075 : ℤ) := Format.zpow_natCast_add (-1075) 52
        _ ≤ (2 ^ 53 - 1 / 2) * 2 ^ (-1075 : ℤ) :=
          mul_le_mul_of_nonneg_right (by norm_num) (by positivity)
    · rw [or_iff_right hfar]
      exact belowNormalPrecisionBoundary_iff h (by omega)

/-- The binade of the number. -/
theorem Rest.binade {m : ℕ} {tail : Bool} {τ : ℚ} (h : Rest m tail τ) (unit : ℤ) :
    (2 : ℚ) ^ (unit + highestBit m) ≤ (m + τ) * 2 ^ unit ∧
      (m + τ) * 2 ^ unit < (2 : ℚ) ^ (unit + highestBit m + 1) := by
  obtain ⟨hm, hm'⟩ := highestBit_bounds h.mantissa_pos
  have h0 := h.nonneg
  have h1 := h.lt_one
  constructor
  · have : (2 : ℚ) ^ highestBit m ≤ m := by exact_mod_cast hm
    rw [Format.zpow_natCast_add]
    exact mul_le_mul_of_nonneg_right (by linarith) (by positivity)
  · have : (m : ℚ) + 1 ≤ 2 ^ (highestBit m + 1) := by exact_mod_cast hm'
    rw [show unit + highestBit m + 1 = unit + ((highestBit m + 1 : ℕ) : ℤ) by push_cast; ring,
      Format.zpow_natCast_add]
    exact mul_lt_mul_of_pos_right (by linarith) (by positivity)

section
variable (tininess : GlibcTininess) {x : ℚ} {highest : ℤ} {n : ℕ}

theorem correct_overflow (hover : 1023 < highest) (hlow : (2 : ℚ) ^ highest ≤ x) :
    Correct tininess x inf true := by
  refine ⟨.inl ⟨?_, infinity_eq.symm⟩, by simp [infinity_eq]⟩
  calc binary64.overflow = (2 ^ 53 - 1 / 2) * 2 ^ (971 : ℤ) := by
        rw [Format.overflow, binary64]
        norm_num
    _ ≤ 2 ^ 53 * 2 ^ (971 : ℤ) := mul_le_mul_of_nonneg_right (by norm_num) (by positivity)
    _ = 2 ^ (971 + 53 : ℤ) := by rw [zpow_add₀ two_ne_zero, mul_comm]; norm_num
    _ ≤ 2 ^ highest := zpow_le_zpow_right₀ (by norm_num) (by omega)
    _ ≤ x := hlow

/-- A subnormal number, counted in the smallest units. -/
theorem correct_subnormal {inexact : Bool} {P : Prop} [Decidable P] (hpos : 0 < x)
    (hbelow : x < binary64.normal) (hrounds : binary64.Rounds x n) (hn : n ≤ 2 ^ 53)
    (hexact : inexact = false ↔ ∃ k : ℕ, x / 2 ^ (-1074 : ℤ) = k) (htiny : P ↔ Tiny tininess x) :
    Correct tininess x n (decide P && inexact) := by
  refine ⟨hrounds, ?_⟩
  have hfinite : n ≠ binary64.infinity := by
    rw [infinity_eq, inf]
    omega
  have hlost : inexact = true ↔ ¬ binary64.Representable x := by
    rw [Format.representable_iff hbelow, ← Bool.not_eq_false, hexact, not_iff_not]
    refine exists_congr fun j => ?_
    rw [div_eq_iff (by positivity)]
    norm_num [binary64]
  rw [Bool.and_eq_true, decide_eq_true_iff, htiny, hlost]
  constructor
  · rintro ⟨ht, hl⟩
    exact .inr ⟨hpos.ne', hl, ht⟩
  · rintro (hi | ⟨-, hl, ht⟩)
    · exact absurd hi hfinite
    · exact ⟨ht, hl⟩

/-- A finite number that is not below the normal ones. -/
theorem correct_normal (habove : binary64.normal ≤ x) (hrounds : binary64.Rounds x n)
    (hfinite : n ≠ inf) : Correct tininess x n false := by
  have hnottiny : ¬ Tiny tininess x := by
    cases tininess with
    | beforeRounding => exact not_lt.mpr habove
    | afterRounding => exact Format.not_roundsBelowNormal habove
  refine ⟨hrounds, iff_of_false Bool.false_ne_true ?_⟩
  rintro (hi | ⟨-, -, ht⟩)
  · exact hfinite (hi.trans infinity_eq)
  · exact hnottiny ht

/-- The units of a number in the binade of `2 ^ highest`: how many there are is within the
significand, and with the exponent of the unit they are the bits of the number. -/
theorem rounds_units {k : ℕ} (hk : max (-1074) (highest - 52) = -1074 + k) (hover : highest ≤ 1023)
    (hlow : (2 : ℚ) ^ highest ≤ x) (hhigh : x < (2 : ℚ) ^ (highest + 1))
    (hnear : NearestEven (x / 2 ^ (-1074 + k : ℤ)) n) :
    binary64.Rounds x (k * 2 ^ 52 + n) ∧ n ≤ 2 ^ 53 ∧ (-1022 ≤ highest → 2 ^ 52 ≤ n) := by
  have hunits : ∀ d : ℕ, (2 : ℚ) ^ d * 2 ^ (-1074 + k : ℤ) = 2 ^ (-1074 + k + d : ℤ) := fun d =>
    (Format.zpow_natCast_add _ d).symm
  have hmax : x < 2 ^ (52 + 1) * 2 ^ (-1074 + k : ℤ) := by
    rw [hunits]
    exact hhigh.trans_le (zpow_le_zpow_right₀ (by norm_num) (by push_cast; omega))
  have hmin : -1022 ≤ highest → 2 ^ 52 * 2 ^ (-1074 + k : ℤ) ≤ x := by
    intro hnormal
    rw [hunits]
    exact (zpow_le_zpow_right₀ (by norm_num) (by push_cast; omega)).trans hlow
  refine ⟨?_, Format.units_le hmax hnear, fun hnormal => Format.le_units (hmin hnormal) hnear⟩
  refine Format.rounds_of_nearest (F := binary64) ?_ hmax hnear (by change k + 2 ≤ 2047; omega)
  by_cases hnormal : -1022 ≤ highest
  · exact .inr (hmin hnormal)
  · exact .inl (by omega)

end

theorem fromMantissa_correct (tininess : GlibcTininess) {m : ℕ} {tail : Bool} {τ : ℚ}
    (h : Rest m tail τ) (unit : ℤ) :
    Correct tininess ((m + τ) * 2 ^ unit) (fromMantissa tininess m tail unit).value
      (fromMantissa tininess m tail unit).range := by
  obtain ⟨hlow, hhigh⟩ := h.binade unit
  set x : ℚ := (m + τ) * 2 ^ unit with hx
  unfold fromMantissa
  dsimp only
  generalize hhighest : unit + (highestBit m : ℤ) = highest at hlow hhigh ⊢
  by_cases hover : 1023 < highest
  · rw [if_pos hover]
    exact correct_overflow tininess hover hlow
  rw [if_neg hover]
  obtain ⟨k, hk⟩ : ∃ k : ℕ, max (-1074) (highest - 52) = -1074 + k :=
    ⟨(max (-1074) (highest - 52) + 1074).toNat, by omega⟩
  have hround := roundShift_ok h
    (show (highestBit m : ℤ) - 52 ≤ max (-1074) (highest - 52) - unit by omega)
  generalize roundShift m tail (max (-1074) (highest - 52) - unit) = rounded at hround ⊢
  obtain ⟨n, inexact⟩ := rounded
  obtain ⟨hnear, hexact⟩ := hround
  have hq : (m + τ) / 2 ^ (max (-1074) (highest - 52) - unit) = x / 2 ^ (-1074 + k : ℤ) := by
    rw [hk, hx, zpow_sub₀ two_ne_zero, div_div_eq_mul_div]
  rw [hq] at hnear hexact
  dsimp only at hnear hexact ⊢
  obtain ⟨hrounds, hn, hn'⟩ := rounds_units hk (not_lt.mp hover) hlow hhigh hnear
  by_cases hsub : highest < -1022
  · obtain rfl : k = 0 := by omega
    rw [if_pos hsub]
    have hpos : 0 < x := (Format.two_zpow_pos _).trans_le hlow
    have hbelow : x < binary64.normal := by
      rw [normal_binary64]
      exact hhigh.trans_le (zpow_le_zpow_right₀ (by norm_num) (by omega))
    exact correct_subnormal tininess hpos hbelow (by simpa using hrounds) hn (by simpa using hexact)
      (tiny_iff h hhighest hsub hbelow hhigh hpos)
  · rw [if_neg hsub]
    have habove : binary64.normal ≤ x := by
      rw [normal_binary64]
      exact (zpow_le_zpow_right₀ (by norm_num) (by omega)).trans hlow
    obtain ⟨a, ha⟩ : ∃ a : ℕ, highest + 1023 = a := ⟨(highest + 1023).toNat, by omega⟩
    have hfinite : ∀ b, b = k * 2 ^ 52 + n → b ≠ inf → Correct tininess x b false := by
      rintro b rfl hb
      exact correct_normal tininess habove hrounds hb
    by_cases hcarry : n = 2 ^ 53
    · rw [if_pos hcarry, if_pos hcarry]
      by_cases hinf : 1023 < highest + 1
      · rw [if_pos hinf]
        have hbits : k * 2 ^ 52 + n = inf := by
          rw [hcarry, inf]
          omega
        exact ⟨hbits ▸ hrounds, by simp [infinity_eq]⟩
      · rw [if_neg hinf]
        have hexp : (highest + 1 + 1023).toNat = a + 1 := by omega
        have hhalf : n >>> 1 = 2 ^ 52 := by rw [hcarry]; rfl
        dsimp only
        rw [hexp, hhalf, pack (Nat.le_refl _) (by norm_num)]
        refine hfinite _ ?_ ?_
        · omega
        · rw [inf]
          omega
    · rw [if_neg hcarry, if_neg hcarry, if_neg hover]
      have hexp : (highest + 1023).toNat = a := by omega
      have hn'' := hn' (by omega)
      dsimp only
      rw [hexp, pack hn'' (by omega)]
      refine hfinite _ ?_ ?_
      · omega
      · rw [inf]
        omega

theorem fromMantissa_flags (tininess : GlibcTininess) (m : ℕ) (tail : Bool) (unit : ℤ) :
    (fromMantissa tininess m tail unit).positiveZero = false ∧
      (fromMantissa tininess m tail unit).noConversion = false := by
  unfold fromMantissa
  dsimp only
  split_ifs <;> exact ⟨rfl, rfl⟩

/-- The bits that `hexadecimal` returns are those of the number. -/
theorem hexadecimal_correct (tininess : GlibcTininess) {token : List UInt8}
    (htoken : ∀ byte ∈ token, byte = 0x2e ∨ isDigit 16 byte = true) (integralDigits : ℕ)
    (exponent : ℤ) :
    ∃ r, hexadecimal tininess token integralDigits exponent = .ok r ∧ r.positiveZero = false ∧
      r.noConversion = false ∧ Correct tininess (number (digitsOf token) *
        2 ^ (exponent - 4 * ((digitsOf token).length - integralDigits : ℤ))) r.value r.range := by
  have hscan := scan_ok token {} htoken
  have hds : ∀ d ∈ digitsOf token, d < 16 := by
    intro d hd
    obtain ⟨byte, -, hbyte⟩ := List.mem_filterMap.mp hd
    exact of_decide_eq_true (Option.filter_eq_some_iff.mp hbyte).2
  have hkept := kept_scan (digitsOf token) hds kept_start
  rw [Nat.zero_add] at hkept
  change Kept _ (number (digitsOf token)) _ at hkept
  generalize (digitsOf token).foldl Scan.add {} = s at hscan hkept
  obtain ⟨r, t, hcount, hn, ht, htail, hzero, hr, hk16, hlt, hge⟩ := hkept
  unfold hexadecimal
  rw [hscan]
  dsimp only
  split_ifs with hm
  · -- no digit but zeros
    have ht0 : t = 0 := by
      rw [hzero hm] at ht
      simpa using ht
    have hnumber : number (digitsOf token) = 0 := by rw [hn, hm, ht0, Nat.zero_mul]
    refine ⟨_, rfl, rfl, rfl, ?_⟩
    rw [hnumber, Nat.cast_zero, zero_mul]
    exact ⟨Format.rounds_zero, iff_of_false Bool.false_ne_true (by simp [infinity_eq, inf])⟩
  · refine ⟨_, rfl, ?_, ?_, ?_⟩
    · exact (fromMantissa_flags ..).1
    · exact (fromMantissa_flags ..).2
    have hpow : (0 : ℚ) < 16 ^ r := by positivity
    have hrest : Rest s.mantissa s.tail (t / 16 ^ r) := by
      refine ⟨hm, ?_, by positivity, ?_, ?_, ?_⟩
      · calc s.mantissa < 16 ^ s.kept := hlt
          _ ≤ 16 ^ 16 := Nat.pow_le_pow_right (by decide) hk16
          _ = 2 ^ 64 := by norm_num
      · rw [div_lt_one hpow]
        exact_mod_cast ht
      · rw [htail, div_ne_zero_iff]
        simp
      · intro hτ
        have ht0 : t ≠ 0 := fun h => hτ (by rw [h, Nat.cast_zero, zero_div])
        have hr0 : 0 < r := by
          by_contra hr0
          obtain rfl : r = 0 := by omega
          exact ht0 (by simpa using ht)
        have hk := hr hr0
        have hge' := hge (by omega)
        rw [hk] at hge'
        exact (Nat.le_log2 hm).mpr (le_trans (by norm_num) hge')
    have hx : (number (digitsOf token) : ℚ) *
        2 ^ (exponent - 4 * ((digitsOf token).length - integralDigits : ℤ)) =
        (s.mantissa + t / 16 ^ r) *
          2 ^ (exponent + 4 * ((integralDigits : ℤ) - s.leadingZeros - s.kept)) := by
      have hexp : exponent + 4 * ((integralDigits : ℤ) - s.leadingZeros - s.kept) =
          exponent - 4 * ((digitsOf token).length - integralDigits : ℤ) + ((4 * r : ℕ) : ℤ) := by
        rw [← hcount]
        push_cast
        ring
      have h16 : (2 : ℚ) ^ (4 * r) = 16 ^ r := by
        rw [pow_mul]
        norm_num
      rw [hexp, Format.zpow_natCast_add, h16, hn, ← mul_assoc, add_mul, div_mul_cancel₀ _ hpow.ne']
      push_cast
      rfl
    rw [hx]
    exact fromMantissa_correct tininess hrest _

/-! ### Hexadecimal constants -/

/-- The exponent of a constant. -/
structure HexExponent where
  marker : UInt8
  sign : Option Bool
  digits : List UInt8
  marker_eq : toLower marker = 0x70
  digits_ne : digits ≠ []
  isDigit : ∀ byte ∈ digits, isDigit 10 byte = true

/-- The text of a sign: none, plus or minus. -/
def signText : Option Bool → List UInt8
  | none => []
  | some false => [0x2b]
  | some true => [0x2d]

/-- Another decimal digit. -/
def decimalStep (n : ℕ) (byte : UInt8) : ℕ := n * 10 + (byte.toNat - 0x30)

namespace HexExponent

/-- The magnitude of the exponent. -/
def magnitude (x : HexExponent) : ℕ := x.digits.foldl decimalStep 0

def value (x : HexExponent) : ℤ := if x.sign = some true then -x.magnitude else x.magnitude

def text (x : HexExponent) : List UInt8 := x.marker :: (signText x.sign ++ x.digits)

end HexExponent

/-- A hexadecimal floating constant. Its exponent is below the limit. -/
structure HexConstant where
  x : UInt8
  integral : List UInt8
  point : Bool
  fraction : List UInt8
  exponent : Option HexExponent
  x_eq : toLower x = 0x78
  isDigit : ∀ byte ∈ integral ++ fraction, isDigit 16 byte = true
  digits_ne : integral ++ fraction ≠ []
  point_of_fraction : fraction ≠ [] → point = true
  exponent_lt : ∀ x ∈ exponent, x.magnitude < 2 ^ 80

namespace HexConstant
variable (c : HexConstant)

/-- The digits and the point. -/
def mantissaText : List UInt8 := c.integral ++ if c.point then 0x2e :: c.fraction else []

def exponentText : List UInt8 := c.exponent.elim [] HexExponent.text

def text : List UInt8 := 0x30 :: c.x :: (c.mantissaText ++ c.exponentText)

/-- The number that the constant stands for. -/
def value : ℚ := number (digitsOf (c.integral ++ c.fraction)) *
  2 ^ (c.exponent.elim 0 HexExponent.value - 4 * c.fraction.length)

end HexConstant

theorem digitRun_append {base : ℕ} {run rest : List UInt8}
    (hrun : ∀ byte ∈ run, isDigit base byte = true)
    (hrest : ∀ byte ∈ rest.head?, isDigit base byte = false) :
    digitRun base (run ++ rest) = run := by
  unfold digitRun
  rw [List.takeWhile_append_of_pos hrun]
  rcases rest with _ | ⟨byte, rest⟩
  · simp
  · rw [List.takeWhile_cons_of_neg (by simp [hrest byte rfl]), List.append_nil]

theorem le_foldl_decimalStep : ∀ (l : List UInt8) (n : ℕ), n ≤ l.foldl decimalStep n
  | [], n => Nat.le_refl n
  | byte :: l, n => by
    have hstep : n ≤ decimalStep n byte := by
      unfold decimalStep
      omega
    exact hstep.trans (le_foldl_decimalStep l _)

theorem foldl_exponent : ∀ (l : List UInt8) (n : ℕ), l.foldl decimalStep n < 2 ^ 80 →
    l.foldl (fun e byte => min exponentLimit (e * 10 + (byte.toNat - 0x30 : ℕ))) (n : ℤ) =
      (l.foldl decimalStep n : ℕ)
  | [], _, _ => rfl
  | byte :: l, n, hn => by
    have hlt := (le_foldl_decimalStep l (decimalStep n byte)).trans_lt hn
    have hmin : min exponentLimit ((n : ℤ) * 10 + (byte.toNat - 0x30 : ℕ)) =
        (decimalStep n byte : ℕ) := by
      unfold decimalStep at hlt ⊢
      rw [min_eq_right]
      · push_cast
        rfl
      · unfold exponentLimit
        exact_mod_cast hlt.le
    rw [List.foldl_cons, List.foldl_cons, hmin]
    exact foldl_exponent l _ hn

theorem scanExponent_text (x : HexExponent) (hx : x.magnitude < 2 ^ 80) :
    scanExponent 0x70 x.text = (x.value, x.text.length) := by
  have hrun : digitRun 10 x.digits = x.digits := by
    have happend : digitRun 10 (x.digits ++ []) = x.digits := digitRun_append x.isDigit (by simp)
    rwa [List.append_nil] at happend
  have hfold := foldl_exponent x.digits 0 hx
  obtain ⟨byte, hbyte⟩ : ∃ byte, x.digits.head? = some byte :=
    ⟨_, List.head?_eq_some_head x.digits_ne⟩
  have hdigit := x.isDigit byte (List.mem_of_mem_head? hbyte)
  unfold scanExponent HexExponent.text HexExponent.value
  rw [List.head?_cons, Option.map_some, x.marker_eq, if_pos rfl, List.tail_cons]
  rcases hs : x.sign with _ | _ | _
  · have hno : ∀ b, isDigit 10 b = false → ¬ x.digits.head? = some b := by
      intro b hb h
      obtain rfl := Option.some.inj (hbyte.symm.trans h)
      rw [hdigit] at hb
      cases hb
    have hminus := hno 0x2d rfl
    have hplus := hno 0x2b rfl
    simp [signText, hminus, hplus, hrun, x.digits_ne]
    exact ⟨hfold, by omega⟩
  · simp [signText, hrun, x.digits_ne]
    exact ⟨hfold, by omega⟩
  · simp [signText, hrun, x.digits_ne]
    exact ⟨hfold, by omega⟩

section
variable (c : HexConstant)

theorem toLower_cases {b : UInt8} :
    (toLower b = 0x70 → b = 0x70 ∨ b = 0x50) ∧ (toLower b = 0x78 → b = 0x78 ∨ b = 0x58) := by
  have hall : ∀ n : Fin 256,
      (toLower (UInt8.ofNat n.val) = 0x70 → UInt8.ofNat n.val = 0x70 ∨ UInt8.ofNat n.val = 0x50) ∧
        (toLower (UInt8.ofNat n.val) = 0x78 → UInt8.ofNat n.val = 0x78 ∨
          UInt8.ofNat n.val = 0x58) := by
    decide +kernel
  simpa using hall ⟨b.toNat, b.toNat_lt⟩

/-- What follows the digits is neither a digit nor a point. -/
theorem head_exponentText {byte : UInt8} (h : byte ∈ c.exponentText.head?) :
    isDigit 16 byte = false ∧ byte ≠ 0x2e := by
  unfold HexConstant.exponentText at h
  rcases hc : c.exponent with _ | x <;> rw [hc] at h
  · cases h
  · obtain rfl : x.marker = byte := Option.some.inj h
    rcases toLower_cases.1 x.marker_eq with he | he
    · rw [he]
      decide
    · rw [he]
      decide

/-- The digits in front of the point, and the point with the digits behind it, are read as they
are. -/
theorem runs_text : digitRun 16 (c.mantissaText ++ c.exponentText) = c.integral ∧
    pointRun 16 ((c.mantissaText ++ c.exponentText).drop c.integral.length) =
      if c.point then 0x2e :: c.fraction else [] := by
  have hintegral : ∀ byte ∈ c.integral, isDigit 16 byte = true := fun byte hb =>
    c.isDigit byte (List.mem_append_left _ hb)
  have hfraction : ∀ byte ∈ c.fraction, isDigit 16 byte = true := fun byte hb =>
    c.isDigit byte (List.mem_append_right _ hb)
  rw [HexConstant.mantissaText, List.append_assoc, List.drop_left]
  cases hpoint : c.point with
  | true =>
    rw [if_pos rfl]
    refine ⟨digitRun_append hintegral fun byte hb => ?_, ?_⟩
    · obtain rfl : 0x2e = byte := Option.some.inj hb
      rfl
    · unfold pointRun
      rw [List.cons_append, List.head?_cons, if_pos rfl, List.tail_cons,
        digitRun_append hfraction fun byte hb => (head_exponentText c hb).1]
  | false =>
    rw [if_neg Bool.false_ne_true, List.nil_append]
    refine ⟨digitRun_append hintegral fun byte hb => (head_exponentText c hb).1, ?_⟩
    have hnot : ¬ c.exponentText.head? = some 0x2e := fun h =>
      (head_exponentText c (Option.mem_def.mpr h)).2 rfl
    unfold pointRun
    rw [if_neg hnot]

theorem hasDigit_append {run rest : List UInt8} (hne : run ≠ [])
    (hrun : ∀ byte ∈ run, isDigit 16 byte = true) : hasDigit (run ++ rest) 16 = true := by
  obtain ⟨byte, run, rfl⟩ := List.exists_cons_of_ne_nil hne
  exact hrun byte List.mem_cons_self

theorem hexPrefix_text : hexPrefix c.text = true := by
  have hx := toLower_cases.2 c.x_eq
  unfold hexPrefix HexConstant.text
  rw [decide_eq_true_iff]
  refine ⟨rfl, hx, ?_⟩
  unfold HexConstant.mantissaText
  by_cases hintegral : c.integral = []
  · -- no digit in front of the point
    have hfraction : c.fraction ≠ [] := fun h => c.digits_ne (by rw [hintegral, h]; rfl)
    rw [hintegral, c.point_of_fraction hfraction]
    exact .inr ⟨rfl, hasDigit_append hfraction fun byte hb =>
      c.isDigit byte (List.mem_append_right _ hb)⟩
  · rw [List.append_assoc]
    exact .inl (hasDigit_append hintegral fun byte hb => c.isDigit byte (List.mem_append_left _ hb))

theorem mantissaText_bytes : ∀ byte ∈ c.mantissaText, byte = 0x2e ∨ isDigit 16 byte = true := by
  intro byte hb
  unfold HexConstant.mantissaText at hb
  rcases List.mem_append.mp hb with hb | hb
  · exact .inr (c.isDigit byte (List.mem_append_left _ hb))
  split_ifs at hb
  · rcases List.mem_cons.mp hb with rfl | hb
    · exact .inl rfl
    · exact .inr (c.isDigit byte (List.mem_append_right _ hb))
  · cases hb

theorem digitsOf_mantissaText : digitsOf c.mantissaText = digitsOf (c.integral ++ c.fraction) := by
  unfold HexConstant.mantissaText digitsOf
  rw [List.filterMap_append, List.filterMap_append]
  by_cases hpoint : c.point = true
  · rw [if_pos hpoint, List.filterMap_cons_none rfl]
  · have hfraction : c.fraction = [] := by
      by_contra h
      exact hpoint (c.point_of_fraction h)
    rw [if_neg hpoint, hfraction]

theorem length_digitsOf {ds : List UInt8} (h : ∀ byte ∈ ds, isDigit 16 byte = true) :
    (digitsOf ds).length = ds.length :=
  List.filterMap_length_eq_length.mpr h

/-- A hexadecimal constant, with or without a sign, is read to its end, and the result is the number
that it stands for. -/
theorem parse_hexadecimal (decimal : List UInt8 → ℕ → ℤ → Bool → Except Fault Result)
    (tininess : GlibcTininess) (sign : Option Bool) : ∃ r bits,
      parseWithProfile decimal tininess (signText sign ++ c.text) = .ok r ∧
      r.endPos = (signText sign ++ c.text).length ∧ r.noConversion = false ∧
      r.value = signed bits (sign = some true) ∧ Correct tininess c.value bits r.range := by
  have hblank : (signText sign ++ c.text).dropWhile isWhitespace = signText sign ++ c.text := by
    rcases sign with _ | _ | _ <;> rfl
  have hneg : decide ((signText sign ++ c.text).head? = some 0x2d) = decide (sign = some true) := by
    rcases sign with _ | _ | _ <;> rfl
  have hsign :
      (if decide (sign = some true) = true ∨ (signText sign ++ c.text).head? = some 0x2b then 1
      else 0) = (signText sign).length := by
    rcases sign with _ | _ | _ <;> rfl
  have hinf : startsWithIgnoreCase c.text (ascii "inf") = false := decide_eq_false fun h =>
    absurd (List.cons.inj h).1 (by decide)
  have hnan : startsWithIgnoreCase c.text (ascii "nan") = false := decide_eq_false fun h =>
    absurd (List.cons.inj h).1 (by decide)
  have hdrop : c.text.drop 2 = c.mantissaText ++ c.exponentText := rfl
  obtain ⟨hrun, hpoint⟩ := runs_text c
  have hmantissa : c.integral ++ (if c.point then 0x2e :: c.fraction else []) = c.mantissaText :=
    rfl
  have hsome : ¬ (c.integral = [] ∧ (if c.point then 0x2e :: c.fraction else []).length ≤ 1) := by
    rintro ⟨hintegral, hlength⟩
    have hfraction : c.fraction ≠ [] := fun h => c.digits_ne (by rw [hintegral, h]; rfl)
    rw [if_pos (c.point_of_fraction hfraction), List.length_cons] at hlength
    exact hfraction (List.length_eq_zero_iff.mp (by omega))
  have hexponent : scanExponent 0x70 c.exponentText =
      (c.exponent.elim 0 HexExponent.value, c.exponentText.length) := by
    unfold HexConstant.exponentText
    rcases hc : c.exponent with _ | x
    · rfl
    · exact scanExponent_text x (c.exponent_lt x hc)
  obtain ⟨result, hresult, hzero, hconversion, hcorrect⟩ := hexadecimal_correct tininess
    (mantissaText_bytes c) c.integral.length (c.exponent.elim 0 HexExponent.value)
  have hvalue : (number (digitsOf c.mantissaText) : ℚ) * 2 ^ (c.exponent.elim 0 HexExponent.value -
      4 * ((digitsOf c.mantissaText).length - c.integral.length : ℤ)) = c.value := by
    rw [digitsOf_mantissaText, length_digitsOf c.isDigit, List.length_append, HexConstant.value]
    congr 3
    push_cast
    ring
  rw [hvalue] at hcorrect
  have hlength : (signText sign ++ c.text).length =
      (signText sign).length + 2 + c.mantissaText.length + c.exponentText.length := by
    unfold HexConstant.text
    simp only [List.length_append, List.length_cons]
    omega
  refine ⟨{ result with
    value := signed result.value (decide (sign = some true))
    endPos := (signText sign ++ c.text).length }, result.value, ?_, rfl, hconversion, rfl, hcorrect⟩
  unfold parseWithProfile
  simp only [hblank, hneg, hsign, List.drop_left, hinf, hnan, hexPrefix_text, Bool.false_eq_true,
    if_false, if_true, hdrop, hrun, hpoint, if_neg hsome, hmantissa, hexponent, hresult]
  rw [hlength, Nat.sub_self, Nat.zero_add]
  simp [hzero]

end

/-- `0x2.8000000000000000001p-1074`: two units and a half of the format, and a tail that is not
kept. -/
def tailed : HexConstant where
  x := 0x78
  integral := [0x32]
  point := true
  fraction := 0x38 :: (List.replicate 17 0x30 ++ [0x31])
  exponent := some {
    marker := 0x70
    sign := some true
    digits := [0x31, 0x30, 0x37, 0x34]
    marker_eq := rfl
    digits_ne := by decide
    isDigit := by decide +kernel }
  x_eq := rfl
  isDigit := by decide +kernel
  digits_ne := by decide
  point_of_fraction _ := rfl
  exponent_lt := by decide +kernel

/-- The tail makes it three units. -/
theorem parse_hexadecimal_tailed : ∃ r, r.value = 3 ∧
    parseWithProfile (fun _ _ _ _ => .error .outOfBounds) .beforeRounding tailed.text = .ok r ∧
    Correct .beforeRounding tailed.value 3 r.range := by
  obtain ⟨r, bits, hrun, -, -, hvalue, hcorrect⟩ :=
    parse_hexadecimal tailed (fun _ _ _ _ => .error .outOfBounds) .beforeRounding none
  have hthree :
      (parseWithProfile (fun _ _ _ _ => .error .outOfBounds) .beforeRounding tailed.text).map
      Result.value = .ok 3 := by rfl
  change parseWithProfile _ _ tailed.text = _ at hrun
  rw [hrun] at hthree
  obtain hr : r.value = 3 := Except.ok.inj hthree
  obtain rfl : bits = 3 := hvalue.symm.trans hr
  exact ⟨r, hr, hrun, hcorrect⟩

end Ipmitool.Util.FloatParse
