import Ipmitool.Util.FloatParse
import Ipmitool.Lib.Limbs
import Mathlib.Data.List.DropRight
import Mathlib.Data.Nat.Digits.Defs
import Mathlib.Tactic.LinearCombination

/-! # Decimal numbers below the normal ones

`Decimal.scan` of `util/float_parse.zig`, which keeps the significant digits of a decimal number,
and `Decimal.equalsSubnormal`, which says whether the number is one that the format has below its
normal numbers. The comparison is exact: the digits become a number in 32-bit limbs, and the powers
of five in the denominator are divided out of it.

`equalsSubnormal_iff` says that the answer is right for every number and every exponent, and that
the eighty limbs of the array are enough. -/

namespace Ipmitool.Util.FloatDecimal

open Ipmitool.Core.Types Ipmitool.Lib.Limbs Ipmitool.Util.FloatParse

/-! ### The code -/

/-- `Decimal`; `digits` is what has been written of the array. Exponents are integers: the parser
keeps them below `2 ^ 80`, far from what its 128 bits hold. -/
structure Decimal where
  digits : List UInt8
  len : ℕ
  point : ℤ
  truncated : Bool
  fullDigits : List UInt8

/-- The variables of the loop of `scan`. -/
structure Scan where
  leadingZeros : ℕ := 0
  count : ℕ := 0
  lastNonzero : ℕ := 0
  digits : List UInt8 := []
  fullDigits : List UInt8 := []

/-- The body of the loop; `token` is the text from the byte on. -/
def Scan.step (s : Scan) (byte : UInt8) (token : List UInt8) : Scan :=
  if byte = 0x2e then s
  else if s.count = 0 ∧ byte = 0x30 then { s with leadingZeros := s.leadingZeros + 1 }
  else
    { s with
      digits := if s.count < 768 then s.digits ++ [byte] else s.digits
      fullDigits := if s.count = 0 then token else s.fullDigits
      count := s.count + 1
      lastNonzero := if byte ≠ 0x30 then s.count + 1 else s.lastNonzero }

/-- The loop. -/
def Scan.loop : List UInt8 → Scan → Scan
  | [], s => s
  | byte :: token, s => Scan.loop token (s.step byte (byte :: token))

/-- `Decimal.scan`. -/
def Decimal.scan (token : List UInt8) (integralDigits : ℕ) (exponent : ℤ) : Decimal :=
  let s := Scan.loop token {}
  let point := exponent + integralDigits - s.leadingZeros
  if 768 < s.lastNonzero then
    -- all 768 digits in front of the mark have been written
    { digits := s.digits ++ [0x31], len := 769, point, truncated := true,
      fullDigits := s.fullDigits }
  else
    { digits := s.digits, len := min s.lastNonzero 768, point, truncated := false,
      fullDigits := s.fullDigits }

/-- How many numbers a limb can be. -/
def limbBase : ℕ := 2 ^ 32

/-- The limbs there are. -/
def maxLimbs : ℕ := 80

/-- Another digit: the body of the first loop of `equalsSubnormal`, on the limbs in use. The
products are below `2 ^ 36`. -/
def appendDigit (limbs : List ℕ) (byte : UInt8) : Except Fault (List ℕ) :=
  if byte < 0x30 then .error .overflow
  else
    let (limbs, carry) := mulAdd limbBase 10 limbs (byte - 0x30).toNat
    if carry = 0 then .ok limbs
    else if maxLimbs ≤ limbs.length then .error .outOfBounds
    else if limbBase ≤ carry then .error .overflow
    else .ok (limbs ++ [carry])

/-- The second loop: the limbs divided by `5 ^ remaining`, if that leaves no remainder. -/
def divideOut (limbs : List ℕ) (remaining : ℕ) : Except Fault (Option (List ℕ)) :=
  if remaining = 0 then .ok (some limbs)
  else
    let chunk := min remaining 13
    let (limbs, carry) := divMod limbBase (5 ^ chunk) limbs
    if limbs.any (limbBase ≤ ·) then .error .overflow
    else if carry ≠ 0 then .ok none
    else divideOut (trim limbs) (remaining - chunk)
termination_by remaining

/-- The comparison with what is left, if anything is. -/
def quotientEquals (limbs : Option (List ℕ)) (exponent : ℤ) (bits : ℕ) : Bool :=
  match limbs with
  | none => false
  | some limbs =>
    if 2 < limbs.length then false
    else
      -- the limbs that are not in use are zeros
      let quotient := limbs.getD 0 0 ||| limbs.getD 1 0 <<< 32
      let shift := (exponent + 1074).toNat
      shift < 53 ∧ quotient ≤ bits >>> shift ∧ quotient <<< shift = bits

/-- `Decimal.equalsSubnormal`. -/
def Decimal.equalsSubnormal (self : Decimal) (bits : ℕ) : Except Fault Bool :=
  if self.truncated then .ok false
  else
    let exponent := self.point - self.len
    if exponent < -1074 ∨ 0 ≤ exponent then .ok false
    else do
      let limbs ← (self.digits.take self.len).foldlM appendDigit [0]
      let quotient ← divideOut limbs (-exponent).toNat
      return quotientEquals quotient exponent bits

/-! ### Decimal numbers -/

/-- A decimal number without its exponent: digits, and further digits behind the point, if there is
one. -/
structure Token where
  integral : List UInt8
  fraction : Option (List UInt8)
  integral_digits : ∀ byte ∈ integral, isDigit 10 byte = true
  fraction_digits : ∀ byte ∈ fraction.getD [], isDigit 10 byte = true

namespace Token

def text (t : Token) : List UInt8 := t.integral ++ t.fraction.elim [] (0x2e :: ·)

def digits (t : Token) : List UInt8 := t.integral ++ t.fraction.getD []

theorem isDigit_digits (t : Token) : ∀ byte ∈ t.digits, isDigit 10 byte = true :=
  fun byte h => (List.mem_append.mp h).elim (t.integral_digits byte) (t.fraction_digits byte)

end Token

def isZero (byte : UInt8) : Bool := byte = 0x30

/-- The digits without the zeros in front of them and behind them. -/
def significant (digits : List UInt8) : List UInt8 := (digits.dropWhile isZero).rdropWhile isZero

/-- The number that digits stand for. -/
def number (digits : List UInt8) : ℕ := digits.foldl (fun n byte => n * 10 + (byte.toNat - 0x30)) 0

/-- The decimal number. -/
def Token.value (t : Token) (exponent : ℤ) : ℚ :=
  number t.digits * (10 : ℚ) ^ (exponent - (t.fraction.getD []).length)

theorem isDigit_iff {byte : UInt8} : isDigit 10 byte = true ↔
    48 ≤ byte.toNat ∧ byte.toNat ≤ 57 := by
  unfold isDigit digit
  simp only [UInt8.le_iff_toNat_le, UInt8.reduceToNat, Option.isSome_filter]
  split_ifs <;> simp <;> omega

theorem isZero_iff {byte : UInt8} : isZero byte = true ↔ byte.toNat = 48 := by
  rw [isZero, decide_eq_true_iff, ← UInt8.toNat_inj]
  rfl

/-! ### The number of digits -/

theorem number_concat (digits : List UInt8) (byte : UInt8) :
    number (digits ++ [byte]) = number digits * 10 + (byte.toNat - 0x30) := List.foldl_concat ..

theorem number_append_zeros (digits : List UInt8) : ∀ n : ℕ,
    number (digits ++ List.replicate n 0x30) = number digits * 10 ^ n
  | 0 => by simp
  | n + 1 => by
    rw [List.replicate_succ', ← List.append_assoc, number_concat,
      number_append_zeros digits n, pow_succ]
    simp [Nat.mul_assoc]

theorem number_dropWhile : ∀ digits : List UInt8, number (digits.dropWhile isZero) = number digits
  | [] => rfl
  | byte :: digits => by
    by_cases h : isZero byte = true
    · have hnil : number (byte :: digits) = number digits := by
        rw [isZero_iff] at h
        simp [number, h]
      rw [List.dropWhile_cons_of_pos h, number_dropWhile digits, hnil]
    · rw [List.dropWhile_cons_of_neg h]

theorem exists_zeros (digits : List UInt8) :
    ∃ n, digits.dropWhile isZero = significant digits ++ List.replicate n 0x30 := by
  refine ⟨((digits.dropWhile isZero).rtakeWhile isZero).length, ?_⟩
  have hzeros : (digits.dropWhile isZero).rtakeWhile isZero =
      List.replicate ((digits.dropWhile isZero).rtakeWhile isZero).length 0x30 := by
    refine List.eq_replicate_of_mem fun byte h => ?_
    have hzero : isZero byte = true := List.mem_rtakeWhile_imp h
    exact of_decide_eq_true hzero
  rw [← hzeros]
  exact (List.rdropWhile_append_rtakeWhile ..).symm

theorem number_lt : ∀ {digits : List UInt8}, (∀ byte ∈ digits, isDigit 10 byte = true) →
    number digits < 10 ^ digits.length := by
  intro digits
  induction digits using List.reverseRecOn with
  | nil => simp [number]
  | append_singleton digits byte ih =>
    intro h
    have hlt := ih fun b hb => h b (List.mem_append_left _ hb)
    have hbyte := isDigit_iff.mp (h byte (by simp))
    rw [number_concat, List.length_append, List.length_singleton, pow_succ]
    omega

/-- The first digit counts for all the places behind it. -/
theorem le_number (byte : UInt8) (digits : List UInt8) :
    (byte.toNat - 0x30) * 10 ^ digits.length ≤ number (byte :: digits) := by
  induction digits using List.reverseRecOn with
  | nil => simp [number]
  | append_singleton digits b ih =>
    rw [← List.cons_append, number_concat, List.length_append, List.length_singleton, pow_succ]
    linarith [Nat.zero_le (b.toNat - 0x30), Nat.mul_le_mul_right 10 ih]

/-! ### The loop of `scan` -/

/-- What the loop knows after these digits. -/
structure Scanned (digits : List UInt8) (s : Scan) : Prop where
  length : s.leadingZeros + s.count = digits.length
  count : s.count = (digits.dropWhile isZero).length
  lastNonzero : s.lastNonzero = (significant digits).length
  digits : s.digits = (digits.dropWhile isZero).take 768

theorem scanned_start : Scanned [] {} := ⟨rfl, rfl, rfl, rfl⟩

theorem scanned_step {digits : List UInt8} {s : Scan} (h : Scanned digits s) {byte : UInt8}
    (hbyte : byte ≠ 0x2e) (token : List UInt8) : Scanned (digits ++ [byte])
      (s.step byte token) := by
  obtain ⟨hlength, hcount, hlast, hdigits⟩ := h
  unfold Scan.step
  rw [if_neg hbyte]
  by_cases hlead : s.count = 0 ∧ byte = 0x30
  · -- there have been zeros only
    obtain ⟨hzero, rfl⟩ := hlead
    have hnil : digits.dropWhile isZero = [] := List.eq_nil_of_length_eq_zero (hcount ▸ hzero)
    have hnext : (digits ++ [0x30]).dropWhile isZero = [] := by
      rw [List.dropWhile_append, hnil]; rfl
    rw [if_pos ⟨hzero, rfl⟩]
    refine ⟨?_, ?_, ?_, ?_⟩
    · simp only [List.length_append, List.length_singleton]
      omega
    · simp only [hnext, hzero, List.length_nil]
    · rw [significant, hnil] at hlast
      rw [significant, hnext]
      exact hlast
    · rw [hnil] at hdigits
      rw [hnext]
      exact hdigits
  · have hnext : (digits ++ [byte]).dropWhile isZero = digits.dropWhile isZero ++ [byte] := by
      rw [List.dropWhile_append]
      by_cases hnil : digits.dropWhile isZero = []
      · have hzero : isZero byte = false := by
          refine decide_eq_false fun h => hlead ⟨?_, h⟩
          rw [hcount, hnil, List.length_nil]
        simp [hnil, hzero]
      · rw [if_neg (by simpa using hnil)]
    rw [if_neg hlead]
    refine ⟨?_, ?_, ?_, ?_⟩
    · simp only [List.length_append, List.length_singleton]
      omega
    · simp only [hnext, hcount, List.length_append, List.length_singleton]
    · rw [significant, hnext]
      by_cases hzero : byte = 0x30
      · have hpos : isZero byte = true := decide_eq_true hzero
        rw [List.rdropWhile_concat_pos _ _ _ hpos]
        simpa [hzero, significant] using hlast
      · have hne : ¬ isZero byte = true := fun h => hzero (of_decide_eq_true h)
        rw [List.rdropWhile_concat_neg _ _ _ hne]
        simp [hzero, hcount]
    · rw [hnext]
      dsimp only
      split_ifs with hroom
      · rw [hdigits, List.take_of_length_le (by omega), List.take_of_length_le (by simp; omega)]
      · rw [hdigits, List.take_append_of_le_length (by omega)]

theorem scanned_loop : ∀ (token : List UInt8) {digits : List UInt8} {s : Scan}, Scanned digits s →
    Scanned (digits ++ token.filter fun byte => byte ≠ 0x2e) (Scan.loop token s)
  | [], digits, s, h => by simpa [Scan.loop] using h
  | byte :: token, digits, s, h => by
    rw [Scan.loop]
    by_cases hbyte : byte = 0x2e
    · have hstep : s.step byte (byte :: token) = s := if_pos hbyte
      rw [hstep, List.filter_cons_of_neg (by simp [hbyte])]
      exact scanned_loop token h
    · rw [List.filter_cons_of_pos (by simpa using hbyte), List.append_cons]
      exact scanned_loop token (scanned_step h hbyte _)

theorem Token.filter_text (t : Token) : (t.text.filter fun byte => byte ≠ 0x2e) = t.digits := by
  have hdigits : ∀ byte, isDigit 10 byte = true → decide (byte ≠ 0x2e) = true := by
    intro byte h
    refine decide_eq_true fun hpoint => ?_
    subst hpoint
    exact absurd h (by decide)
  rw [Token.text, Token.digits, List.filter_append,
    List.filter_eq_self.mpr fun byte h => hdigits byte (t.integral_digits byte h)]
  congr 1
  have hfraction := t.fraction_digits
  cases ht : t.fraction with
  | none => rfl
  | some ds =>
    rw [ht] at hfraction
    rw [Option.elim_some, List.filter_cons_of_neg (by simp), Option.getD_some]
    exact List.filter_eq_self.mpr fun byte h => hdigits byte (hfraction byte h)

theorem Token.scanned (t : Token) : Scanned t.digits (Scan.loop t.text {}) := by
  have h := scanned_loop t.text scanned_start
  rwa [List.nil_append, t.filter_text] at h

theorem Token.point_eq (t : Token) (exponent : ℤ) :
    (Decimal.scan t.text t.integral.length exponent).point =
    exponent + t.integral.length - (Scan.loop t.text {}).leadingZeros := by
  rw [Decimal.scan]
  split_ifs <;> rfl

/-- **The scanned number**: the significant digits, in the place that the scan gives them. -/
theorem Token.value_eq (t : Token) (exponent : ℤ) :
    t.value exponent = number (significant t.digits) *
      (10 : ℚ) ^ ((Decimal.scan t.text t.integral.length exponent).point -
        (significant t.digits).length) := by
  obtain ⟨n, hn⟩ := exists_zeros t.digits
  obtain ⟨hlength, hcount, -, -⟩ := t.scanned
  have hplaces : (Decimal.scan t.text t.integral.length exponent).point -
      (significant t.digits).length =
      (n : ℤ) + (exponent - (t.fraction.getD []).length) := by
    have hdigits : t.digits.length = t.integral.length + (t.fraction.getD []).length :=
      List.length_append
    rw [hn, List.length_append, List.length_replicate] at hcount
    rw [t.point_eq]
    omega
  have hnumber : number t.digits = number (significant t.digits) * 10 ^ n := by
    rw [← number_dropWhile, hn, number_append_zeros]
  rw [Token.value, hplaces, hnumber, zpow_add₀ (by norm_num), zpow_natCast]
  push_cast
  ring

theorem Token.truncated_of_lt (t : Token) (exponent : ℤ) (h : 768 < (significant t.digits).length) :
    (Decimal.scan t.text t.integral.length exponent).truncated = true := by
  rw [← t.scanned.lastNonzero] at h
  rw [Decimal.scan, if_pos h]

theorem Token.scan_of_le (t : Token) (exponent : ℤ) (h : (significant t.digits).length ≤ 768) :
    (Decimal.scan t.text t.integral.length exponent).truncated = false ∧
      (Decimal.scan t.text t.integral.length exponent).len = (significant t.digits).length ∧
      (Decimal.scan t.text t.integral.length exponent).digits.take (significant t.digits).length =
        significant t.digits := by
  obtain ⟨n, hn⟩ := exists_zeros t.digits
  obtain ⟨-, -, hlast, hdigits⟩ := t.scanned
  rw [Decimal.scan, if_neg (by rw [hlast]; omega)]
  refine ⟨rfl, ?_, ?_⟩
  · simp only [hlast]
    omega
  · rw [hdigits, hn, List.take_take, Nat.min_eq_left h, List.take_left]

theorem Token.significant_of_len (t : Token) {exponent : ℤ}
    (h : 0 < (Decimal.scan t.text t.integral.length exponent).len) : significant t.digits ≠ [] := by
  intro hnil
  rw [(t.scan_of_le exponent (by rw [hnil]; exact Nat.zero_le _)).2.1, hnil] at h
  exact Nat.lt_irrefl 0 h

/-! ### Significant digits -/

section Significant

variable {digits : List UInt8} (hdigits : ∀ byte ∈ digits, isDigit 10 byte = true)

include hdigits in
theorem isDigit_significant : ∀ byte ∈ significant digits, isDigit 10 byte = true := fun byte h =>
  hdigits byte ((List.dropWhile_suffix _).subset ((List.rdropWhile_prefix ..).subset h))

include hdigits in
theorem not_ten_dvd (hne : significant digits ≠ []) : ¬ 10 ∣ number (significant digits) := by
  have hlast : ¬ isZero ((significant digits).getLast hne) = true :=
    List.rdropWhile_last_not _ _ hne
  have hbyte := isDigit_iff.mp (isDigit_significant hdigits _ (List.getLast_mem hne))
  rw [isZero_iff] at hlast
  rw [← List.dropLast_concat_getLast hne, number_concat]
  omega

include hdigits in
theorem pow_le_number (hne : significant digits ≠ []) :
    10 ^ ((significant digits).length - 1) ≤ number (significant digits) := by
  have hrest : digits.dropWhile isZero ≠ [] := fun h => hne (by rw [significant, h]; rfl)
  obtain ⟨byte, rest, hcons⟩ := List.exists_cons_of_ne_nil hne
  have hfirst : ¬ isZero byte = true := by
    have hhead := List.head_dropWhile_not isZero hrest
    obtain ⟨tail, htail⟩ : significant digits <+: digits.dropWhile isZero :=
      List.rdropWhile_prefix ..
    rw [hcons, List.cons_append] at htail
    simpa [← htail] using hhead
  have hbyte :=
    isDigit_iff.mp (isDigit_significant hdigits byte (by rw [hcons]; exact List.mem_cons_self))
  rw [isZero_iff] at hfirst
  rw [hcons, List.length_cons, Nat.add_sub_cancel]
  refine le_trans ?_ (le_number byte rest)
  exact Nat.le_mul_of_pos_left _ (by omega)

end Significant

/-! ### The limbs -/

theorem limbBase_pos : 0 < limbBase := by decide

theorem ten_lt_limbBase : 10 < limbBase := by decide

theorem ten_pow_lt : 10 ^ 768 < limbBase ^ maxLimbs := by decide +kernel

/-- **Another digit**: there is room for it as long as the number is below what the limbs can
hold. -/
theorem appendDigit_ok {limbs : List ℕ} {byte : UInt8} (hbyte : isDigit 10 byte = true)
    (hfit : Fit limbBase limbs)
    (hroom : Nat.ofDigits limbBase limbs * 10 + (byte.toNat - 0x30) < limbBase ^ maxLimbs) :
    ∃ limbs', appendDigit limbs byte = .ok limbs' ∧ Fit limbBase limbs' ∧
      Nat.ofDigits limbBase limbs' = Nat.ofDigits limbBase limbs * 10 + (byte.toNat - 0x30) := by
  obtain ⟨hlow, hhigh⟩ := isDigit_iff.mp hbyte
  have hdigit : (byte - 0x30).toNat = byte.toNat - 0x30 :=
    UInt8.toNat_sub_of_le _ _ (UInt8.le_iff_toNat_le.mpr hlow)
  have hnot : ¬ byte < 0x30 := UInt8.not_lt.mpr (UInt8.le_iff_toNat_le.mpr hlow)
  have hvalue := value_mulAdd limbBase 10 limbs (byte.toNat - 0x30)
  have hfit' := fit_mulAdd limbBase_pos 10 limbs (byte.toNat - 0x30)
  have hlength := length_mulAdd limbBase 10 limbs (byte.toNat - 0x30)
  have hcarry : (mulAdd limbBase 10 limbs (byte.toNat - 0x30)).2 < 10 :=
    carry_mulAdd hfit (by omega)
  unfold appendDigit
  rw [if_neg hnot, hdigit]
  generalize mulAdd limbBase 10 limbs (byte.toNat - 0x30) = product at *
  obtain ⟨limbs', carry⟩ := product
  dsimp only at *
  by_cases hzero : carry = 0
  · refine ⟨limbs', if_pos hzero, hfit', ?_⟩
    rw [← hvalue, hzero, Nat.mul_zero, Nat.add_zero]
  · have hused : limbs.length < maxLimbs := by
      by_contra hfull
      have hpow : limbBase ^ maxLimbs ≤ limbBase ^ limbs.length :=
        Nat.pow_le_pow_right limbBase_pos (Nat.le_of_not_lt hfull)
      have hmul : limbBase ^ limbs.length ≤ limbBase ^ limbs.length * carry :=
        Nat.le_mul_of_pos_right _ (Nat.pos_of_ne_zero hzero)
      omega
    refine ⟨limbs' ++ [carry], ?_, ?_, ?_⟩
    · rw [if_neg hzero, if_neg (by omega), if_neg (Nat.not_le.mpr (hcarry.trans ten_lt_limbBase))]
    · exact List.forall_mem_append.mpr ⟨hfit',
        List.forall_mem_singleton.mpr (hcarry.trans ten_lt_limbBase)⟩
    · rw [Nat.ofDigits_append, Nat.ofDigits_singleton, hlength, hvalue]

theorem le_foldl (digits : List UInt8) (n : ℕ) :
    n ≤ digits.foldl (fun n byte => n * 10 + (byte.toNat - 0x30)) n := by
  induction digits generalizing n with
  | nil => exact Nat.le_refl n
  | cons byte digits ih =>
    have hstep : n ≤ n * 10 + (byte.toNat - 0x30) := by omega
    exact hstep.trans (ih _)

theorem foldlM_appendDigit : ∀ {digits : List UInt8} {limbs : List ℕ},
    (∀ byte ∈ digits, isDigit 10 byte = true) → Fit limbBase limbs →
    digits.foldl (fun n byte => n * 10 + (byte.toNat - 0x30))
      (Nat.ofDigits limbBase limbs) < limbBase ^ maxLimbs →
    ∃ limbs', digits.foldlM appendDigit limbs = .ok limbs' ∧ Fit limbBase limbs' ∧
      Nat.ofDigits limbBase limbs' =
      digits.foldl (fun n byte => n * 10 + (byte.toNat - 0x30)) (Nat.ofDigits limbBase limbs)
  | [], limbs, _, hfit, _ => ⟨limbs, rfl, hfit, rfl⟩
  | byte :: digits, limbs, hdigits, hfit, hroom => by
    obtain ⟨hbyte, hrest⟩ := List.forall_mem_cons.mp hdigits
    obtain ⟨next, hok, hfit', hvalue⟩ :=
      appendDigit_ok hbyte hfit (lt_of_le_of_lt (le_foldl digits _) hroom)
    rw [List.foldl_cons, ← hvalue] at hroom ⊢
    obtain ⟨limbs', hrun, hlimbs'⟩ := foldlM_appendDigit hrest hfit' hroom
    refine ⟨limbs', ?_, hlimbs'⟩
    rw [List.foldlM_cons, hok]
    exact hrun

/-- **The second loop**: it finds the quotient, or that there is a remainder. -/
theorem divideOut_ok (limbs : List ℕ) (n : ℕ) (hfit : Fit limbBase limbs) :
    (divideOut limbs n = .ok none ∧ ¬ 5 ^ n ∣ Nat.ofDigits limbBase limbs) ∨
    ∃ limbs', divideOut limbs n = .ok (some limbs') ∧ Fit limbBase limbs' ∧
      Nat.ofDigits limbBase limbs = 5 ^ n * Nat.ofDigits limbBase limbs' ∧
      (n ≠ 0 ∨ Tight limbBase limbs → Tight limbBase limbs') := by
  fun_induction divideOut limbs n with
  | case1 limbs =>
    exact .inr ⟨limbs, rfl, hfit, by simp, fun h => h.resolve_left fun hne => hne rfl⟩
  | case2 limbs n hn chunk quotient carry hdiv hany =>
    -- the quotient of a limb fits, since the remainder before it is below the divisor
    have hquotient : Fit limbBase (divMod limbBase (5 ^ chunk) limbs).1 :=
      fit_divMod (pow_pos (by decide) chunk) hfit
    rw [hdiv] at hquotient
    obtain ⟨limb, hmem, hle⟩ := List.any_eq_true.mp hany
    exact absurd (of_decide_eq_true hle) (Nat.not_le.mpr (hquotient limb hmem))
  | case3 limbs n hn chunk quotient carry hdiv hany hcarry =>
    refine .inl ⟨rfl, fun hdvd => hcarry ?_⟩
    have hvalue := value_divMod limbBase (5 ^ chunk) limbs
    have hlt : (divMod limbBase (5 ^ chunk) limbs).2 < 5 ^ chunk :=
      remainder_lt (pow_pos (by decide) chunk) limbs
    rw [hdiv] at hvalue hlt
    have hchunk : 5 ^ chunk ∣ Nat.ofDigits limbBase limbs :=
      (pow_dvd_pow 5 (Nat.min_le_left n 13)).trans hdvd
    rw [← hvalue, Nat.dvd_add_right (Nat.dvd_mul_right ..)] at hchunk
    exact Nat.eq_zero_of_dvd_of_lt hchunk hlt
  | case4 limbs n hn chunk quotient carry hdiv hany hcarry ih =>
    have hfit' : Fit limbBase (divMod limbBase (5 ^ chunk) limbs).1 :=
      fit_divMod (pow_pos (by decide) chunk) hfit
    have hvalue := value_divMod limbBase (5 ^ chunk) limbs
    have hpow : 5 ^ n = 5 ^ chunk * 5 ^ (n - chunk) := by
      rw [← pow_add, Nat.add_sub_cancel' (Nat.min_le_left n 13)]
    rw [hdiv] at hfit' hvalue
    rw [Decidable.not_not.mp hcarry, Nat.add_zero, ← value_trim quotient] at hvalue
    rw [← hvalue, hpow]
    obtain ⟨hrun, hnot⟩ | ⟨limbs', hrun, hlimbs', hquotient, htight⟩ := ih (fit_trim hfit')
    · exact .inl ⟨hrun,
        fun hdvd => hnot (Nat.dvd_of_mul_dvd_mul_left (pow_pos (by decide) chunk) hdvd)⟩
    · refine .inr ⟨limbs', hrun, hlimbs', ?_, fun _ => htight (.inr (tight_trim quotient))⟩
      rw [hquotient, Nat.mul_assoc]

/-! ### The comparison -/

theorem quotient_eq : ∀ {limbs : List ℕ}, Fit limbBase limbs → limbs.length ≤ 2 →
    limbs.getD 0 0 ||| limbs.getD 1 0 <<< 32 = Nat.ofDigits limbBase limbs
  | [], _, _ => rfl
  | [low], _, _ => by simp
  | [low, high], hfit, _ => by
    have hlow : low < 2 ^ 32 := hfit low List.mem_cons_self
    have hor := Nat.shiftLeft_add_eq_or_of_lt hlow high
    rw [Nat.shiftLeft_eq] at hor
    simp only [List.getD_cons_zero, List.getD_cons_succ, Nat.ofDigits_cons,
      Nat.ofDigits_nil, limbBase]
    rw [Nat.or_comm, Nat.shiftLeft_eq, ← hor]
    simp
    ring
  | _ :: _ :: _ :: _, _, h => absurd h (by simp)

/-- The comparison of the code, for a number of the format. -/
theorem shifted_iff {q b shift : ℕ} (hq : 0 < q) (hb : b < 2 ^ 52) :
    shift < 53 ∧ q ≤ b >>> shift ∧ q <<< shift = b ↔ q * 2 ^ shift = b := by
  rw [Nat.shiftLeft_eq, Nat.shiftRight_eq_div_pow]
  refine ⟨fun h => h.2.2, fun h => ⟨?_, ?_, h⟩⟩
  · have hpow : 2 ^ shift < 2 ^ 52 := lt_of_le_of_lt (h ▸ Nat.le_mul_of_pos_left _ hq) hb
    have := (Nat.pow_lt_pow_iff_right (by decide)).mp hpow
    omega
  · rw [← h, Nat.mul_div_cancel _ (Nat.two_pow_pos shift)]

section Equation

variable {D b k j : ℕ}

theorem scaled_iff (m n : ℕ) : (D : ℚ) * 10 ^ (-(m : ℤ)) = b * 2 ^ (-(n : ℤ)) ↔
    D * 2 ^ n = b * 10 ^ m := by
  rw [zpow_neg, zpow_natCast, zpow_neg, zpow_natCast, ← div_eq_mul_inv, ← div_eq_mul_inv,
    div_eq_div_iff (by positivity) (by positivity)]
  exact_mod_cast Iff.rfl

theorem ten_pow (k : ℕ) : 10 ^ k = 2 ^ k * 5 ^ k := by rw [← Nat.mul_pow]

/-- A denominator that is not too large: the powers of two cancel. -/
theorem scaled_within : D * 2 ^ (k + j) = b * 10 ^ k ↔ D * 2 ^ j = b * 5 ^ k := by
  have hleft : D * 2 ^ (k + j) = 2 ^ k * (D * 2 ^ j) := by rw [pow_add]; ring
  have hright : b * 10 ^ k = 2 ^ k * (b * 5 ^ k) := by rw [ten_pow]; ring
  rw [hleft, hright, Nat.mul_right_inj (Nat.two_pow_pos k).ne']

/-- A larger one leaves a zero at the end of the digits. -/
theorem ten_dvd_of_scaled (h : D * 2 ^ k = b * 10 ^ (k + (j + 1))) : 10 ∣ D := by
  have hright : b * 10 ^ (k + (j + 1)) = 2 ^ k * (10 * (b * 5 ^ k * 10 ^ j)) := by
    rw [pow_add, ten_pow k]
    ring
  rw [hright, Nat.mul_comm, Nat.mul_right_inj (Nat.two_pow_pos k).ne'] at h
  exact ⟨_, h⟩

theorem divided_iff : D * 2 ^ j = b * 5 ^ k ↔ ∃ q, D = 5 ^ k * q ∧ q * 2 ^ j = b := by
  constructor
  · intro h
    have hcoprime : Nat.Coprime (5 ^ k) (2 ^ j) := Nat.Coprime.pow k j (by decide)
    obtain ⟨q, rfl⟩ : 5 ^ k ∣ D := hcoprime.dvd_of_dvd_mul_right (h ▸ Nat.dvd_mul_left ..)
    refine ⟨q, rfl, ?_⟩
    rw [Nat.mul_assoc, Nat.mul_comm b, Nat.mul_right_inj (pow_pos (by decide) k).ne'] at h
    exact h
  · rintro ⟨q, rfl, rfl⟩
    ring

end Equation

/-- `D * 10 ^ e` is `b` units of the last place: `e` is the exponent of a denominator that is not
too large, and the powers of five in it cancel. -/
def Cancels (D b : ℕ) (e : ℤ) : Prop :=
  ∃ k j q : ℕ, k + j = 1074 ∧ 0 < k ∧ e = -(k : ℤ) ∧ D = 5 ^ k * q ∧ q * 2 ^ j = b

/-- **The numbers below the normal ones**, in their decimal digits. -/
theorem equal_iff {D b : ℕ} (e : ℤ) (hD : ¬ 10 ∣ D) (hb : b < 2 ^ 52) :
    (D : ℚ) * 10 ^ e = b * 2 ^ (-1074 : ℤ) ↔ Cancels D b e := by
  constructor
  · intro h
    rcases lt_or_ge e 0 with hneg | hpos
    · obtain ⟨k, rfl⟩ : ∃ k : ℕ, e = -(k : ℤ) := ⟨e.natAbs, by omega⟩
      rw [show (-1074 : ℤ) = -((1074 : ℕ) : ℤ) from rfl, scaled_iff] at h
      rcases Nat.lt_or_ge 1074 k with hlarge | hle
      · -- there would be a zero at the end
        obtain ⟨j, rfl⟩ := Nat.exists_eq_add_of_lt hlarge
        exact absurd (ten_dvd_of_scaled h) hD
      · obtain ⟨j, hj⟩ := Nat.exists_eq_add_of_le hle
        rw [hj, scaled_within] at h
        obtain ⟨q, hq⟩ := divided_iff.mp h
        exact ⟨k, j, q, hj.symm, by omega, rfl, hq⟩
    · -- the number would be at least one
      obtain ⟨n, rfl⟩ := Int.eq_ofNat_of_zero_le hpos
      have hone : (1 : ℚ) ≤ D * 10 ^ (n : ℤ) := by
        have hD1 : (1 : ℚ) ≤ D := by
          have : D ≠ 0 := fun h0 => hD (h0 ▸ Nat.dvd_zero 10)
          exact_mod_cast Nat.pos_of_ne_zero this
        exact one_le_mul_of_one_le_of_one_le hD1
          (by rw [zpow_natCast]; exact one_le_pow₀ (by norm_num))
      have hlt : (b : ℚ) * 2 ^ (-1074 : ℤ) < 1 := by
        have hb' : (b : ℚ) < 2 ^ (1074 : ℕ) := by
          exact_mod_cast hb.trans (Nat.pow_lt_pow_right (by decide) (by decide))
        rw [show (-1074 : ℤ) = -((1074 : ℕ) : ℤ) from rfl, zpow_neg, zpow_natCast, ← div_eq_mul_inv,
          div_lt_one (by positivity)]
        exact hb'
      linarith
  · rintro ⟨k, j, q, hkj, -, rfl, hq⟩
    rw [show (-1074 : ℤ) = -((1074 : ℕ) : ℤ) from rfl, scaled_iff, ← hkj, scaled_within]
    exact divided_iff.mpr ⟨q, hq⟩

/-- Such a number has at most 768 significant digits. -/
theorem subnormal_lt : 2 ^ 52 * 5 ^ 1074 < 10 ^ 768 := by decide +kernel

theorem lt_of_cancels {D b : ℕ} {e : ℤ} (hb : b < 2 ^ 52) (h : Cancels D b e) : D < 10 ^ 768 := by
  obtain ⟨k, j, q, hkj, -, -, rfl, rfl⟩ := h
  have hq : q ≤ q * 2 ^ j := Nat.le_mul_of_pos_right _ (Nat.two_pow_pos j)
  have hk : ∀ n, k ≤ n → 5 ^ k ≤ 5 ^ n := fun _ hkn => Nat.pow_le_pow_right (by decide) hkn
  calc 5 ^ k * q ≤ 5 ^ 1074 * 2 ^ 52 := Nat.mul_le_mul (hk 1074 (by omega)) (hq.trans hb.le)
    _ = 2 ^ 52 * 5 ^ 1074 := Nat.mul_comm ..
    _ < 10 ^ 768 := subnormal_lt

/-- The quotient is compared, whatever the number of its limbs. -/
theorem quotientEquals_some {limbs : List ℕ} {b j : ℕ} (hfit : Fit limbBase limbs)
    (htight : Tight limbBase limbs) (hpos : 0 < Nat.ofDigits limbBase limbs) (hb : b < 2 ^ 52)
    {e : ℤ} (he : (e + 1074).toNat = j) :
    quotientEquals (some limbs) e b = true ↔ Nat.ofDigits limbBase limbs * 2 ^ j = b := by
  rw [quotientEquals]
  split_ifs with hlong
  · -- three limbs are more than any number of the format has
    have hpow : limbBase ^ 2 ≤ Nat.ofDigits limbBase limbs :=
      (Nat.pow_le_pow_right limbBase_pos (by omega)).trans (htight (by omega))
    have hle : Nat.ofDigits limbBase limbs ≤ Nat.ofDigits limbBase limbs * 2 ^ j :=
      Nat.le_mul_of_pos_right _ (Nat.two_pow_pos j)
    have hbase : 2 ^ 52 < limbBase ^ 2 := by decide
    exact iff_of_false id (by omega)
  · rw [decide_eq_true_iff, quotient_eq hfit (by omega), he]
    exact shifted_iff hpos hb

theorem divideOut_equals {b k : ℕ} {limbs : List ℕ} (hk : 0 < k) (hk' : k ≤ 1074)
    (hfit : Fit limbBase limbs) (hpos : 0 < Nat.ofDigits limbBase limbs) (hb : b < 2 ^ 52) :
    ∃ quotient, divideOut limbs k = .ok quotient ∧
      (quotientEquals quotient (-k) b = true ↔ Cancels (Nat.ofDigits limbBase limbs) b (-k)) := by
  obtain ⟨j, hj⟩ := Nat.exists_eq_add_of_le hk'
  have hshift : (-(k : ℤ) + 1074).toNat = j := by omega
  have hcancels : Cancels (Nat.ofDigits limbBase limbs) b (-k) ↔
      ∃ q, Nat.ofDigits limbBase limbs = 5 ^ k * q ∧ q * 2 ^ j = b := by
    constructor
    · rintro ⟨k', j', q, hsum, -, hexp, hq⟩
      obtain rfl : k' = k := by omega
      obtain rfl : j' = j := by omega
      exact ⟨q, hq⟩
    · rintro ⟨q, hq⟩
      exact ⟨k, j, q, hj.symm, hk, rfl, hq⟩
  rw [hcancels]
  obtain ⟨hrun, hnot⟩ | ⟨quotient, hrun, hfit', hvalue, htight⟩ := divideOut_ok limbs k hfit
  · refine ⟨none, hrun, iff_of_false (by simp [quotientEquals]) ?_⟩
    rintro ⟨q, hq, -⟩
    exact hnot ⟨q, hq⟩
  · have hquotient : 0 < Nat.ofDigits limbBase quotient := by
      rw [hvalue] at hpos
      exact Nat.pos_of_mul_pos_left hpos
    refine ⟨some quotient, hrun, ?_⟩
    rw [quotientEquals_some hfit' (htight (.inl hk.ne')) hquotient hb hshift]
    constructor
    · exact fun h => ⟨_, hvalue, h⟩
    · rintro ⟨q, hq, h⟩
      obtain rfl : Nat.ofDigits limbBase quotient = q :=
        (Nat.mul_right_inj (pow_pos (by decide) k).ne').mp (hvalue.symm.trans hq)
      exact h

/-- **The comparison**: for a number of any length and any exponent the answer says whether it is
the number that the format has, no matter how many digits are kept, and the limbs of the array are
enough. -/
theorem equalsSubnormal_iff (t : Token) (exponent : ℤ) {b : ℕ}
    (hlen : (Decimal.scan t.text t.integral.length exponent).len ≠ 0) (hb : b < 2 ^ 52) :
    ∃ answer, (Decimal.scan t.text t.integral.length exponent).equalsSubnormal b = .ok answer ∧
      (answer = true ↔ t.value exponent = b * (2 : ℚ) ^ (-1074 : ℤ)) ∧
      (768 < (significant t.digits).length → answer = false) := by
  have hne := t.significant_of_len (Nat.pos_of_ne_zero hlen)
  have hD := not_ten_dvd t.isDigit_digits hne
  rw [t.value_eq, equal_iff _ hD hb]
  rcases Nat.lt_or_ge 768 (significant t.digits).length with hlong | hshort
  · refine ⟨false, if_pos (t.truncated_of_lt exponent hlong), ?_, fun _ => rfl⟩
    have hlast : 768 ≤ (significant t.digits).length - 1 := by omega
    have hlarge : ∀ n, n ≤ (significant t.digits).length - 1 →
        10 ^ n ≤ number (significant t.digits) :=
      fun _ hn => (Nat.pow_le_pow_right (by decide) hn).trans (pow_le_number t.isDigit_digits hne)
    exact iff_of_false Bool.false_ne_true fun h =>
      Nat.not_lt.mpr (hlarge 768 hlast) (lt_of_cancels hb h)
  · obtain ⟨htruncated, hlen', hdigits⟩ := t.scan_of_le exponent hshort
    have hnot : ¬ 768 < (significant t.digits).length := Nat.not_lt.mpr hshort
    simp only [hnot, false_implies, and_true]
    rw [Decimal.equalsSubnormal, htruncated, hlen', hdigits]
    generalize (Decimal.scan t.text t.integral.length exponent).point -
        (significant t.digits).length = e
    dsimp only
    rw [if_neg Bool.false_ne_true]
    by_cases hrange : e < -1074 ∨ 0 ≤ e
    · refine ⟨false, if_pos hrange, ?_⟩
      refine iff_of_false Bool.false_ne_true ?_
      rintro ⟨k, j, q, hsum, hk, he, -⟩
      omega
    · obtain ⟨k, rfl⟩ : ∃ k : ℕ, e = -(k : ℤ) := ⟨e.natAbs, by omega⟩
      have hpow : ∀ n, (significant t.digits).length ≤ n →
          10 ^ (significant t.digits).length ≤ 10 ^ n :=
        fun _ hn => Nat.pow_le_pow_right (by decide) hn
      have hroom : number (significant t.digits) < limbBase ^ maxLimbs :=
        ((number_lt (isDigit_significant t.isDigit_digits)).trans_le
          (hpow 768 hshort)).trans ten_pow_lt
      have hstart : Fit limbBase [0] := List.forall_mem_singleton.mpr limbBase_pos
      obtain ⟨limbs, hloop, hfit, hvalue⟩ :=
        foldlM_appendDigit (isDigit_significant t.isDigit_digits) hstart hroom
      have hpos : 0 < Nat.ofDigits limbBase limbs := by
        refine Nat.pos_of_ne_zero fun hzero => hD ?_
        rw [hzero] at hvalue
        exact ⟨0, hvalue.symm⟩
      obtain ⟨quotient, hrun, hanswer⟩ :=
        divideOut_equals (k := k) (by omega) (by omega) hfit hpos hb
      refine ⟨quotientEquals quotient (-k) b, ?_, ?_⟩
      · rw [if_neg hrange, hloop, show (-(-(k : ℤ))).toNat = k by omega]
        change (divideOut limbs k).bind _ = _
        rw [hrun]
        rfl
      · rw [hanswer, hvalue]
        exact Iff.rfl

theorem isDigit_five : ∀ byte ∈ [(0x35 : UInt8)], isDigit 10 byte = true :=
  List.forall_mem_singleton.mpr (by rfl)

/-- The five of `5e-324`, which lies next to the smallest number of the format. -/
def five : Token := ⟨[0x35], none, isDigit_five, List.forall_mem_nil _⟩

theorem equalsSubnormal_iff_five :
    ∃ answer, (Decimal.scan five.text five.integral.length (-324)).equalsSubnormal 1 = .ok answer ∧
      (answer = true ↔ five.value (-324) = (1 : ℕ) * (2 : ℚ) ^ (-1074 : ℤ)) ∧
      (768 < (significant five.digits).length → answer = false) :=
  equalsSubnormal_iff five (-324) (by decide) (by decide)

end Ipmitool.Util.FloatDecimal
