import Ipmitool.Util.CalendarFormat
import Ipmitool.Util.IntegerScan

/-! # Numbers of words

`str2int` of `util/helper.zig`, and the text that the conversion `%d` writes for a number. -/

namespace Ipmitool.Util.Numbers

open Ipmitool.Core.Types Ipmitool.Util.Integer Ipmitool.Util.IntegerScan
open Ipmitool.Util.Calendar (decimal)

/-! ### The code -/

theorem radix_zero : (0 : ℕ) = 0 ∨ 2 ≤ 0 ∧ 0 ≤ 36 := .inl rfl

/-- `str2int`: none if it does not return zero. -/
def str2int (dialect : Dialect) (source : List UInt8) : Except Fault (Option ℤ) := do
  let r ← IntegerScan.scan ⟨true, true⟩ ⟨0, radix_zero⟩ source dialect isSpace
  return if r.stop ≠ source.length ∨ r.range ∨ r.value < -2 ^ 31 ∨ 2 ^ 31 - 1 < r.value then none
    else some r.value

/-- What `%d` writes. -/
def signedDecimal (value : ℤ) : List UInt8 :=
  if value < 0 then 0x2d :: decimal (-value).toNat else decimal value.toNat

theorem str2int_range {dialect : Dialect} {source : List UInt8} {value : ℤ}
    (h : str2int dialect source = .ok (some value)) : -2 ^ 31 ≤ value ∧ value < 2 ^ 31 := by
  unfold str2int at h
  rcases hscan : IntegerScan.scan ⟨true, true⟩ ⟨0, radix_zero⟩ source dialect isSpace with e | r
  · rw [hscan] at h
    cases h
  · rw [hscan] at h
    have h : (if _ then _ else _) = some value := Except.ok.inj h
    split_ifs at h with hrange
    cases h
    omega

/-! ### Decimal numbers -/

theorem digitChar_byte : ∀ d < 10, UInt8.ofNat d.digitChar.toNat = UInt8.ofNat (0x30 + d) := by
  decide

theorem decimal_eq (n : ℕ) :
    decimal n = (if n < 10 then [] else decimal (n / 10)) ++ [UInt8.ofNat (0x30 + n % 10)] := by
  unfold decimal
  rw [Nat.toDigits_eq_if (by omega), ← digitChar_byte _ (Nat.mod_lt n (by omega))]
  split_ifs with h
  · rw [Nat.mod_eq_of_lt h]
    rfl
  · rw [List.map_append]
    rfl

theorem digit_byte : ∀ d < 10, digit (UInt8.ofNat (0x30 + d)) = some d := by decide

theorem decimal_ne_nil (n : ℕ) : decimal n ≠ [] := by
  rw [decimal_eq]
  simp

theorem isDigit_of_mem_decimal (n : ℕ) : ∀ byte ∈ decimal n, IsDigit 10 byte := by
  induction n using Nat.strongRecOn with
  | ind n ih =>
    have hlast : IsDigit 10 (UInt8.ofNat (0x30 + n % 10)) :=
      ⟨n % 10, digit_byte _ (Nat.mod_lt n (by omega)), Nat.mod_lt n (by omega)⟩
    intro byte hbyte
    rw [decimal_eq, List.mem_append, List.mem_singleton] at hbyte
    rcases hbyte with hbyte | rfl
    · split_ifs at hbyte with h
      · cases hbyte
      · exact ih _ (by omega) byte hbyte
    · exact hlast

theorem number_decimal (n : ℕ) : IntegerScan.number 10 (decimal n) = n := by
  induction n using Nat.strongRecOn with
  | ind n ih =>
    have hstep : ∀ digits, IntegerScan.number 10 (digits ++ [UInt8.ofNat (0x30 + n % 10)]) =
        IntegerScan.number 10 digits * 10 + n % 10 := by
      intro digits
      unfold IntegerScan.number numberFrom
      rw [List.foldl_append, List.foldl_cons, List.foldl_nil,
        digit_byte _ (Nat.mod_lt n (by omega))]
      rfl
    rw [decimal_eq, hstep]
    split_ifs with h
    · change 0 * 10 + _ = _
      omega
    · rw [ih _ (by omega)]
      omega

/-- A number other than zero does not begin with a zero. -/
theorem head_decimal {n : ℕ} (hn : n ≠ 0) : (decimal n).head? ≠ some 0x30 := by
  have hzero : ∀ d < 10, d ≠ 0 → UInt8.ofNat (0x30 + d) ≠ 0x30 := by decide
  induction n using Nat.strongRecOn with
  | ind n ih =>
    rw [decimal_eq]
    split_ifs with h
    · intro heq
      exact hzero (n % 10) (Nat.mod_lt n (by omega)) (by omega) (Option.some.inj heq)
    · rw [List.head?_append_of_ne_nil _ (decimal_ne_nil _)]
      exact ih _ (by omega) (by omega)

/-- A digit is neither whitespace nor a sign. -/
theorem digit_plain : ∀ byte : UInt8, (digit byte).isSome = true →
    isSpace byte = false ∧ byte ≠ 0x2d ∧ byte ≠ 0x2b := by
  intro byte h
  have hlow : 0x30 ≤ byte.toNat := by
    unfold digit at h
    split_ifs at h with h0 h1 h2
    · exact UInt8.le_iff_toNat_le.mp h0.1
    · exact le_trans (by decide) (UInt8.le_iff_toNat_le.mp h1.1)
    · exact le_trans (by decide) (UInt8.le_iff_toNat_le.mp h2.1)
    · cases h
  refine ⟨decide_eq_false ?_, ?_, ?_⟩
  · rintro (rfl | ⟨-, hhigh⟩)
    · exact absurd hlow (by decide)
    · have hhigh := UInt8.le_iff_toNat_le.mp hhigh
      rw [show (0x0d : UInt8).toNat = 13 from rfl] at hhigh
      omega
  · rintro rfl
    exact absurd hlow (by decide)
  · rintro rfl
    exact absurd hlow (by decide)

theorem numeral_decimal (n : ℕ) : ∃ base, Numeral 0 (decimal n) base (decimal n) := by
  by_cases hn : n = 0
  · subst hn
    exact ⟨8, show Numeral 0 [0x30] 8 [0x30] from .octal rfl fun _ h => absurd h List.not_mem_nil⟩
  · obtain ⟨first, digits, heq⟩ := List.exists_cons_of_ne_nil (decimal_ne_nil n)
    have hhead := head_decimal hn
    have hdigits := isDigit_of_mem_decimal n
    rw [heq] at hhead hdigits ⊢
    exact ⟨10, .decimal rfl (fun h => hhead (congr_arg some h)) hdigits⟩

theorem number_of_numeral {n base : ℕ} {digits : List UInt8}
    (h : Numeral 0 (decimal n) base digits) :
    IntegerScan.number base digits = n := by
  have hdigits := isDigit_of_mem_decimal n
  have hnumber := number_decimal n
  generalize hd : decimal n = text at h hdigits hnumber
  cases h with
  | plain hradix => exact absurd rfl hradix
  | hex _ hx =>
    obtain ⟨value, hvalue, hlt⟩ := hdigits _ (List.mem_cons_of_mem _ List.mem_cons_self)
    rcases hx with rfl | rfl <;> cases hvalue <;> omega
  | octal =>
    have hn : n = 0 := by
      by_contra hn
      exact head_decimal hn (by rw [hd]; rfl)
    subst hn
    cases hd
    rfl
  | decimal => exact hnumber

/-- A magnitude within the range is the value. -/
theorem of_converted {T : IntType} {n : ℕ} {value : ℤ} {range : Bool}
    (h : Converted T false n value range) (hn : n ≤ T.maxInt) : value = n ∧ range = false := by
  unfold Converted at h
  rw [← Bool.not_eq_true]
  by_cases hs : T.signed = true
  · have hmin := minInt_signed hs
    rw [if_pos hs] at h
    obtain ⟨rfl, hrange⟩ := h
    rw [hrange]
    simp only [Bool.false_eq_true, if_false]
    omega
  · obtain ⟨-, hbits⟩ := minInt_unsigned hs
    rw [if_neg hs] at h
    obtain ⟨hrange, hvalue⟩ := h
    rw [if_neg (by omega), if_neg Bool.false_ne_true, hbits,
      Int.emod_eq_of_lt (by omega) (by omega)] at hvalue
    exact ⟨hvalue, by rw [hrange]; omega⟩

theorem scan_decimal {T : IntType} (dialect : Dialect) {n : ℕ} (hn : n ≤ T.maxInt) :
    ∃ r, IntegerScan.scan T ⟨0, radix_zero⟩ (decimal n) dialect isSpace = .ok r ∧ r.value = n ∧
      r.stop = (decimal n).length ∧ r.range = false := by
  obtain ⟨base, hnumeral⟩ := numeral_decimal n
  obtain ⟨first, rest, hfirst, hdigit⟩ := numeral_head hnumeral
  obtain ⟨hspace, hminus, hplus⟩ := digit_plain first hdigit
  have hblanks : (decimal n).takeWhile (fun byte => byte ≠ 0 ∧ isSpace byte) = [] := by
    rw [hfirst, List.takeWhile_cons_of_neg (by simp [hspace])]
  have hexpected : Expected 0 (decimal n) := ⟨none, decimal n, base, decimal n, rfl, hnumeral⟩
  obtain ⟨r, r', hr, hr', hcontract, hvalue, hrange, hstop⟩ :=
    scan_contract T ⟨0, radix_zero⟩ (decimal n) isSpace
  -- the GNU dialect reads all of the text
  have hgnu : r.value = n ∧ r.stop = (decimal n).length ∧ r.range = false := by
    unfold Contract at hcontract
    simp only [hblanks, List.length_nil, List.drop_zero] at hcontract
    rcases hcontract with ⟨sign, numeral, b, digits, hnum, hstart, hlongest, hstop,
      hconverted⟩ | ⟨hnone, -⟩
    · have hwhole : signText sign ++ numeral = decimal n :=
        hstart.eq_of_length_le (hlongest _ hexpected List.prefix_rfl)
      have hsign : sign = none := by
        rcases sign with _ | _ | _
        · rfl
        · exact absurd (List.cons.inj (hfirst.symm.trans hwhole.symm)).1 hplus
        · exact absurd (List.cons.inj (hfirst.symm.trans hwhole.symm)).1 hminus
      subst hsign
      rw [show numeral = decimal n from hwhole] at hnum
      rw [number_of_numeral hnum] at hconverted
      rw [hwhole] at hstop
      obtain ⟨hvalue, hrange⟩ := of_converted hconverted hn
      exact ⟨hvalue, by omega, hrange⟩
    · exact absurd List.prefix_rfl (hnone _ hexpected)
  cases dialect with
  | gnu => exact ⟨r, hr, hgnu⟩
  | zig016 =>
    refine ⟨r', hr', hvalue.trans hgnu.1, ?_, hrange.trans hgnu.2.2⟩
    rw [hstop ⟨_, hexpected, ?_⟩ hgnu.2.2, hgnu.2.1]
    change _ <+: (decimal n).drop ((decimal n).takeWhile _).length
    rw [hblanks]
    exact List.prefix_rfl

/-- **What `%d` writes is read back.** -/
theorem str2int_signedDecimal (dialect : Dialect) {value : ℤ} (hpos : 0 ≤ value)
    (hlt : value < 2 ^ 31) :
    str2int dialect (signedDecimal value) = .ok (some value) := by
  have hmax : value.toNat ≤ IntType.maxInt ⟨true, true⟩ := by
    change value.toNat ≤ 2 ^ 63 - 1
    omega
  obtain ⟨r, hr, hvalue, hstop, hrange⟩ := scan_decimal dialect hmax
  unfold str2int signedDecimal
  rw [if_neg (by omega), hr]
  change Except.ok (if _ then _ else _) = _
  rw [hrange, hstop, hvalue, if_neg, Int.toNat_of_nonneg hpos]
  rw [Int.toNat_of_nonneg hpos]
  rintro (h | h | h | h)
  · exact h rfl
  · cases h
  · omega
  · omega

end Ipmitool.Util.Numbers
