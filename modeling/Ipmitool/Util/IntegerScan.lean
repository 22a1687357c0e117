import Ipmitool.Core.Types
import Ipmitool.Util.Integer
import Mathlib.Algebra.Group.Int.Defs
import Mathlib.Data.List.TakeWhile
import Mathlib.Order.Lattice

/-! # Numbers in text, for each width and radix

`scan` of `util/integer_scan.zig` in both dialects, and the contract of the C standard for `strtol`
and `strtoul`. The contract speaks of the subject sequence: the longest beginning of the text behind
the whitespace that has the expected form, an optional sign and a numeral. A zero byte ends a string
and is no whitespace. -/

namespace Ipmitool.Util.IntegerScan

open Ipmitool.Core.Types Ipmitool.Util.Integer

/-! ### The code -/

inductive Dialect where
  | gnu
  | zig016
  deriving DecidableEq

/-- The integer types: signed or unsigned, of 32 or 64 bits. -/
structure IntType where
  signed : Bool
  wide : Bool

namespace IntType
variable (T : IntType)

def bits : ℕ := if T.wide then 64 else 32

/-- `std.math.maxInt`. -/
def maxInt : ℕ := if T.signed then 2 ^ (T.bits - 1) - 1 else 2 ^ T.bits - 1

/-- `std.math.minInt`. -/
def minInt : ℤ := if T.signed then -2 ^ (T.bits - 1) else 0

/-- `@intCast`. -/
def intCast (v : ℤ) : Except Fault ℤ :=
  if T.minInt ≤ v ∧ v ≤ T.maxInt then .ok v else .error .overflow

end IntType

/-- A radix: zero, or 2 to 36. -/
structure Radix where
  val : ℕ
  range : val = 0 ∨ 2 ≤ val ∧ val ≤ 36

structure Result where
  value : ℤ
  stop : ℕ
  range : Bool

/-- A hexadecimal prefix with a digit behind it. -/
def hexPrefix : List UInt8 → Bool
  | zero :: x :: d :: _ => zero = 0x30 ∧ (x = 0x78 ∨ x = 0x58) ∧ (digit d).any (· < 16)
  | _ => false

/-- The base, the length of what is skipped, and whether a digit is in it. -/
def scanPrefix (radix : Radix) (dialect : Dialect) (text : List UInt8) : ℕ × ℕ × Bool :=
  if text.head? = some 0x30 then
    if (radix.val = 0 ∨ radix.val = 16) ∧ hexPrefix text then (16, 2, false)
    else
      let base := if radix.val = 0 then 8 else radix.val
      if dialect = .zig016 then (base, 1, true) else (base, 0, false)
  else (if radix.val = 0 then 10 else radix.val, 0, false)

/-- The variables of the loop; `read` is how far it has come. -/
structure Digits where
  magnitude : ℕ := 0
  overflow : Bool := false
  hasDigit : Bool
  read : ℕ := 0

/-- The loop over the digits. -/
def scanDigits (dialect : Dialect) (limit base : ℕ) : List UInt8 → Digits → Except Fault Digits
  | [], s => .ok s
  | byte :: text, s =>
    match digit byte with
    | none => .ok s
    | some value =>
      if base ≤ value then .ok s
      else if s.overflow then scanDigits dialect limit base text { s with hasDigit := true, read := s.read + 1 }
      else if limit < value then .error .overflow
      else if (limit - value) / base < s.magnitude then
        let s := { s with magnitude := limit, overflow := true, hasDigit := true, read := s.read + 1 }
        if dialect = .zig016 then .ok s else scanDigits dialect limit base text s
      else if 2 ^ 64 ≤ s.magnitude * base + value then .error .overflow
      else scanDigits dialect limit base text
        { s with magnitude := s.magnitude * base + value, hasDigit := true, read := s.read + 1 }

/-- The value of the type for a magnitude. -/
def toValue (T : IntType) (negative overflow : Bool) (magnitude : ℕ) : Except Fault ℤ :=
  if overflow then .ok (if T.signed && negative then T.minInt else T.maxInt)
  else if T.signed then
    if negative && magnitude = T.maxInt + 1 then .ok T.minInt
    else if negative then return -(← T.intCast magnitude)
    else T.intCast magnitude
  else if negative then return (-(← T.intCast magnitude)) % 2 ^ T.bits
  else T.intCast magnitude

/-- `scan`. -/
def scan (T : IntType) (radix : Radix) (source : List UInt8) (dialect : Dialect)
    (isSpace : UInt8 → Bool) :
    Except Fault Result := do
  let blanks := (source.takeWhile fun byte => byte ≠ 0 ∧ isSpace byte).length
  let text := source.drop blanks
  let negative := decide (text.head? = some 0x2d)
  let sign := if negative ∨ text.head? = some 0x2b then 1 else 0
  let text := text.drop sign
  let (base, skipped, hasDigit) := scanPrefix radix dialect text
  let limit := if T.signed then T.maxInt + (if negative then 1 else 0) else T.maxInt
  let s ← scanDigits dialect limit base (text.drop skipped) { hasDigit := hasDigit }
  let value ← toValue T negative s.overflow s.magnitude
  return { value := value
           stop := if dialect = .gnu ∧ ¬ s.hasDigit then 0 else blanks + sign + skipped + s.read
           range := s.overflow }

/-! ### The contract -/

/-- A digit of the base. -/
def IsDigit (base : ℕ) (byte : UInt8) : Prop := ∃ value ∈ digit byte, value < base

instance (base : ℕ) (byte : UInt8) : Decidable (IsDigit base byte) := by
  unfold IsDigit; infer_instance

/-- The number with further digits. -/
def numberFrom (base : ℕ) (n : ℕ) (digits : List UInt8) : ℕ :=
  digits.foldl (fun n byte => n * base + (digit byte).getD 0) n

/-- The number that digits stand for. -/
def number (base : ℕ) (digits : List UInt8) : ℕ := numberFrom base 0 digits

/-- The numerals of a radix: their text, the base and the digits. -/
inductive Numeral (radix : ℕ) : List UInt8 → ℕ → List UInt8 → Prop
  | plain {digits : List UInt8} (hradix : radix ≠ 0) (hne : digits ≠ [])
      (h : ∀ byte ∈ digits, IsDigit radix byte) : Numeral radix digits radix digits
  | hex {x : UInt8} {digits : List UInt8} (hradix : radix = 0 ∨ radix = 16)
    (hx : x = 0x78 ∨ x = 0x58)
      (hne : digits ≠ []) (h : ∀ byte ∈ digits, IsDigit 16 byte) :
      Numeral radix (0x30 :: x :: digits) 16 digits
  | octal {digits : List UInt8} (hradix : radix = 0) (h : ∀ byte ∈ digits, IsDigit 8 byte) :
      Numeral radix (0x30 :: digits) 8 (0x30 :: digits)
  | decimal {first : UInt8} {digits : List UInt8} (hradix : radix = 0) (hfirst : first ≠ 0x30)
      (h : ∀ byte ∈ first :: digits, IsDigit 10 byte) :
      Numeral radix (first :: digits) 10 (first :: digits)

/-- The text of a sign: none, plus or minus. -/
def signText : Option Bool → List UInt8
  | none => []
  | some false => [0x2b]
  | some true => [0x2d]

/-- A text of the expected form: an optional sign and a numeral. -/
def Expected (radix : ℕ) (text : List UInt8) : Prop :=
  ∃ sign numeral base digits, text = signText sign ++ numeral ∧ Numeral radix numeral base digits

/-- What the standard says of a subject sequence with this sign and magnitude. -/
def Converted (T : IntType) (negative : Bool) (magnitude : ℕ) (value : ℤ) (range : Bool) : Prop :=
  if T.signed then
    value = max T.minInt (min T.maxInt (if negative then -magnitude else magnitude)) ∧
      (range = true ↔ (if negative then -(magnitude : ℤ) else magnitude) < T.minInt ∨
        T.maxInt < (if negative then -(magnitude : ℤ) else magnitude))
  else
    (range = true ↔ T.maxInt < magnitude) ∧
      (if T.maxInt < magnitude then value = T.maxInt
      else value = (if negative then -(magnitude : ℤ) else magnitude) % 2 ^ T.bits)

/-- The C contract. -/
def Contract (T : IntType) (radix : ℕ) (isSpace : UInt8 → Bool) (source : List UInt8)
    (r : Result) : Prop :=
  let blanks := source.takeWhile fun byte => byte ≠ 0 ∧ isSpace byte
  let text := source.drop blanks.length
  (∃ sign numeral base digits, Numeral radix numeral base digits ∧
    signText sign ++ numeral <+: text ∧
    (∀ other, Expected radix other → other <+: text →
      other.length ≤ (signText sign ++ numeral).length) ∧
    r.stop = blanks.length + (signText sign ++ numeral).length ∧
    Converted T (sign = some true) (number base digits) r.value r.range) ∨
  (∀ other, Expected radix other → ¬ other <+: text) ∧ r.value = 0 ∧ r.stop = 0 ∧ r.range = false

/-! ### The digits -/

/-- The digits that a text begins with. -/
def run (base : ℕ) (text : List UInt8) : List UInt8 := text.takeWhile fun byte => IsDigit base byte

section
variable {base : ℕ} {byte : UInt8} {text : List UInt8}

theorem run_cons_digit {value : ℕ} (hd : digit byte = some value) (hlt : value < base) :
    run base (byte :: text) = byte :: run base text := by
  unfold run
  rw [List.takeWhile_cons_of_pos]
  exact decide_eq_true ⟨value, hd, hlt⟩

theorem run_cons_other (h : ¬ IsDigit base byte) : run base (byte :: text) = [] := by
  unfold run
  rw [List.takeWhile_cons_of_neg]
  simpa using h

theorem le_numberFrom (hbase : 1 ≤ base) : ∀ (digits : List UInt8)
    (n : ℕ), n ≤ numberFrom base n digits
  | [], n => Nat.le_refl n
  | byte :: digits, n => by
    have hstep : n ≤ n * base + (digit byte).getD 0 := by
      have := Nat.le_mul_of_pos_right n hbase
      omega
    exact hstep.trans (le_numberFrom hbase digits _)

theorem isDigit_of_mem_run (h : byte ∈ run base text) : IsDigit base byte := by
  simpa using List.mem_takeWhile_imp h

end

section
variable (dialect : Dialect) {limit base : ℕ}

theorem scanDigits_overflow : ∀ (text : List UInt8) (s : Digits), s.overflow = true →
    scanDigits dialect limit base text s = .ok
      { s with hasDigit := s.hasDigit || !(run base text).isEmpty, read := s.read + (run base text).length }
  | [], s, _ => by
    unfold scanDigits
    simp [run]
  | byte :: text, s, h => by
    unfold scanDigits
    rcases hd : digit byte with _ | value
    · have hno : ¬ IsDigit base byte := by
        rintro ⟨v, hv, -⟩
        rw [hd] at hv
        cases hv
      simp [run_cons_other hno]
    · dsimp only
      by_cases hvalue : base ≤ value
      · have hno : ¬ IsDigit base byte := by
          rintro ⟨v, hv, hlt⟩
          obtain rfl := Option.some.inj (hd.symm.trans hv)
          omega
        rw [if_pos hvalue, run_cons_other hno]
        simp
      · have ih := scanDigits_overflow text { s with hasDigit := true, read := s.read + 1 } h
        rw [if_neg hvalue, if_pos h, run_cons_digit hd (by omega), ih]
        simp only [Bool.true_or, List.isEmpty_cons, Bool.not_false, Bool.or_true, List.length_cons]
        congr 2
        omega

/-- **The loop.** It adds the digits to the magnitude until the limit is exceeded. -/
theorem scanDigits_ok (hbase : 2 ≤ base) (hbase' : base ≤ 36) (hlimit : 36 ≤ limit) (hlimit' : limit < 2 ^ 64) :
    ∀ (text : List UInt8) (s : Digits), s.overflow = false → s.magnitude ≤ limit → ∃ s',
      scanDigits dialect limit base text s = .ok s' ∧
      s'.overflow = decide (limit < numberFrom base s.magnitude (run base text)) ∧
      s'.magnitude = min limit (numberFrom base s.magnitude (run base text)) ∧
      s'.hasDigit = (s.hasDigit || !(run base text).isEmpty) ∧
      (dialect = .gnu ∨ numberFrom base s.magnitude (run base text) ≤ limit →
        s'.read = s.read + (run base text).length)
  | [], s, ho, hm => by
    exact ⟨s, by unfold scanDigits; rfl, ho.trans (decide_eq_false (Nat.not_lt.mpr hm)).symm,
      (min_eq_right hm).symm, by simp [run], fun _ => rfl⟩
  | byte :: text, s, ho, hm => by
    unfold scanDigits
    rcases hd : digit byte with _ | value
    · have hno : ¬ IsDigit base byte := by
        rintro ⟨v, hv, -⟩
        rw [hd] at hv
        cases hv
      rw [run_cons_other hno]
      exact ⟨s, rfl, ho.trans (decide_eq_false (Nat.not_lt.mpr hm)).symm,
        (min_eq_right hm).symm, by simp,
        fun _ => rfl⟩
    dsimp only
    by_cases hvalue : base ≤ value
    · have hno : ¬ IsDigit base byte := by
        rintro ⟨v, hv, hlt⟩
        obtain rfl := Option.some.inj (hd.symm.trans hv)
        omega
      rw [if_pos hvalue, run_cons_other hno]
      exact ⟨s, rfl, ho.trans (decide_eq_false (Nat.not_lt.mpr hm)).symm, (min_eq_right hm).symm, by simp,
        fun _ => rfl⟩
    have hrun : run base (byte :: text) = byte :: run base text := run_cons_digit hd (by omega)
    have hnext : numberFrom base s.magnitude (byte :: run base text) =
        numberFrom base (s.magnitude * base + value) (run base text) := by
      unfold numberFrom
      rw [List.foldl_cons, hd]
      rfl
    rw [if_neg hvalue, ho, if_neg Bool.false_ne_true, if_neg (by omega), hrun, hnext]
    have hdiv : (limit - value) / base < s.magnitude ↔ limit < s.magnitude * base + value := by
      rw [Nat.div_lt_iff_lt_mul (by omega)]
      omega
    by_cases hover : (limit - value) / base < s.magnitude
    · have hgrows := le_numberFrom (by omega : 1 ≤ base) (run base text) (s.magnitude * base + value)
      have hgt := (hdiv.mp hover).trans_le hgrows
      rw [if_pos hover]
      split_ifs with hdialect
      · refine ⟨_, rfl, ?_, ?_, ?_, ?_⟩
        · exact (decide_eq_true hgt).symm
        · exact (min_eq_left hgt.le).symm
        · simp
        · rintro (hg | hle)
          · rw [hdialect] at hg
            cases hg
          · omega
      · rw [scanDigits_overflow dialect _ _ rfl]
        refine ⟨_, rfl, ?_, ?_, ?_, fun _ => ?_⟩
        · exact (decide_eq_true hgt).symm
        · exact (min_eq_left hgt.le).symm
        · simp
        · dsimp only
          rw [List.length_cons]
          omega
    · have hle : s.magnitude * base + value ≤ limit := by omega
      rw [if_neg hover, if_neg (by omega)]
      obtain ⟨s', hs', h1, h2, h3, h4⟩ := scanDigits_ok hbase hbase' hlimit hlimit' text
        { s with magnitude := s.magnitude * base + value, overflow := false, hasDigit := true,
                 read := s.read + 1 } rfl hle
      refine ⟨s', hs', h1, h2, ?_, fun h => ?_⟩
      · rw [h3]
        simp
      · rw [h4 h, List.length_cons]
        dsimp only
        omega

end

/-! ### The subject sequence -/

theorem run_starts (base : ℕ) (text : List UInt8) : run base text <+: text :=
  List.takeWhile_prefix _

theorem length_le_run {base : ℕ} {digits text : List UInt8} (h : ∀ byte ∈ digits, IsDigit base byte)
    (hstart : digits <+: text) : digits.length ≤ (run base text).length := by
  obtain ⟨rest, rfl⟩ := hstart
  unfold run
  rw [List.takeWhile_append_of_pos fun byte hb => decide_eq_true (h byte hb), List.length_append]
  exact Nat.le_add_right _ _

theorem numeral_head {radix base : ℕ} {numeral digits : List UInt8}
    (h : Numeral radix numeral base digits) :
    ∃ byte rest, numeral = byte :: rest ∧ (digit byte).isSome = true := by
  have hdigit : ∀ {base : ℕ} {byte : UInt8}, IsDigit base byte → (digit byte).isSome = true := by
    rintro base byte ⟨value, hvalue, -⟩
    exact Option.isSome_iff_exists.mpr ⟨value, hvalue⟩
  cases h with
  | plain _ hne h =>
    obtain ⟨byte, rest, rfl⟩ := List.exists_cons_of_ne_nil hne
    exact ⟨byte, rest, rfl, hdigit (h byte List.mem_cons_self)⟩
  | hex => exact ⟨_, _, rfl, rfl⟩
  | octal => exact ⟨_, _, rfl, rfl⟩
  | decimal _ _ h => exact ⟨_, _, rfl, hdigit (h _ List.mem_cons_self)⟩

theorem hexPrefix_iff {text : List UInt8} : hexPrefix text = true ↔
    ∃ x d rest, text = 0x30 :: x :: d :: rest ∧ (x = 0x78 ∨ x = 0x58) ∧ IsDigit 16 d := by
  have hdigit : ∀ d, (digit d).any (· < 16) = true ↔ IsDigit 16 d := by
    intro d
    unfold IsDigit
    rcases digit d with _ | value <;> simp
  constructor
  · intro h
    unfold hexPrefix at h
    split at h
    · rename_i zero x d rest
      obtain ⟨rfl, hx, hd⟩ := of_decide_eq_true h
      exact ⟨x, d, rest, rfl, hx, (hdigit d).mp hd⟩
    · cases h
  · rintro ⟨x, d, rest, rfl, hx, hd⟩
    exact decide_eq_true ⟨rfl, hx, (hdigit d).mpr hd⟩

/-- A hexadecimal numeral at the beginning shows itself in the first three bytes. -/
theorem hexPrefix_of_hex {x : UInt8} {digits text : List UInt8} (hx : x = 0x78 ∨ x = 0x58)
    (hne : digits ≠ []) (h : ∀ byte ∈ digits, IsDigit 16 byte)
    (hstart : 0x30 :: x :: digits <+: text) : hexPrefix text = true := by
  obtain ⟨d, digits, rfl⟩ := List.exists_cons_of_ne_nil hne
  obtain ⟨rest, rfl⟩ := hstart
  exact hexPrefix_iff.mpr ⟨x, d, digits ++ rest, rfl, hx, h d List.mem_cons_self⟩

/-- What the scan reads behind the sign: the base, what is skipped and the digits. -/
structure Scanned (radix : ℕ) (text : List UInt8) (base skipped : ℕ) : Prop where
  base_range : 2 ≤ base ∧ base ≤ 36
  numeral : run base (text.drop skipped) ≠ [] →
    Numeral radix (text.take (skipped + (run base (text.drop skipped)).length)) base
      (run base (text.drop skipped))
  longest : ∀ other b ds, Numeral radix other b ds → other <+: text →
    run base (text.drop skipped) ≠ [] ∧
      other.length ≤ skipped + (run base (text.drop skipped)).length

theorem scanned_of_length {radix base : ℕ} {text : List UInt8} (hbase : 2 ≤ base ∧ base ≤ 36)
    (hnumeral : run base text ≠ [] → Numeral radix (run base text) base (run base text))
    (hlongest : ∀ other b ds, Numeral radix other b ds → other <+: text →
      other.length ≤ (run base text).length) : Scanned radix text base 0 := by
  refine ⟨hbase, ?_, fun other b ds h hstart => ?_⟩
  · rw [List.drop_zero, Nat.zero_add, ← List.prefix_iff_eq_take.mp (run_starts base text)]
    exact hnumeral
  · rw [List.drop_zero, Nat.zero_add]
    have hle := hlongest other b ds h hstart
    obtain ⟨byte, rest, rfl, -⟩ := numeral_head h
    refine ⟨fun hnil => ?_, hle⟩
    rw [hnil] at hle
    simp at hle

section
variable {radix : ℕ} {text : List UInt8}

theorem not_isDigit_x {x : UInt8} (hx : x = 0x78 ∨ x = 0x58) : ¬ IsDigit 16 x ∧ ¬ IsDigit 8 x := by
  rcases hx with rfl | rfl <;> decide

theorem isDigit_zero : IsDigit 16 0x30 ∧ IsDigit 8 0x30 := by decide

theorem scanned_hex (hradix : radix = 0 ∨ radix = 16) (htext : hexPrefix text = true) :
    Scanned radix text 16 2 := by
  obtain ⟨x, d, rest, rfl, hx, hd⟩ := hexPrefix_iff.mp htext
  have hrun : run 16 (d :: rest) ≠ [] := by
    obtain ⟨value, hvalue, hlt⟩ := hd
    rw [run_cons_digit hvalue hlt]
    exact List.cons_ne_nil _ _
  have hdrop : (0x30 :: x :: d :: rest).drop 2 = d :: rest := rfl
  refine ⟨by decide, fun hne => ?_, fun other b ds h hstart => ?_⟩
  · rw [hdrop, Nat.add_comm, List.take_succ_cons, List.take_succ_cons,
      ← List.prefix_iff_eq_take.mp (run_starts 16 (d :: rest))]
    exact .hex hradix hx hrun fun byte hb => isDigit_of_mem_run hb
  · rw [hdrop]
    refine ⟨hrun, ?_⟩
    -- a numeral of another form ends before the x
    have hone : ∀ {base : ℕ}, IsDigit base 0x30 → ¬ IsDigit base x →
        (run base (0x30 :: x :: d :: rest)).length = 1 := by
      rintro base ⟨value, hvalue, hlt⟩ hno
      rw [run_cons_digit hvalue hlt, run_cons_other hno]
      rfl
    cases h with
    | plain hplain _ h =>
      have h16 : radix = 16 := by omega
      rw [h16] at h
      have hle := length_le_run h hstart
      rw [hone isDigit_zero.1 (not_isDigit_x hx).1] at hle
      omega
    | hex _ _ _ h =>
      rw [List.cons_prefix_cons, List.cons_prefix_cons] at hstart
      have hle := length_le_run h hstart.2.2
      simp only [List.length_cons]
      omega
    | octal _ h =>
      have hle := length_le_run (List.forall_mem_cons.mpr ⟨isDigit_zero.2, h⟩) hstart
      rw [hone isDigit_zero.2 (not_isDigit_x hx).2] at hle
      omega
    | decimal _ hfirst _ =>
      rw [List.cons_prefix_cons] at hstart
      exact absurd hstart.1 hfirst

theorem scanned_plain (hradix : 2 ≤ radix ∧ radix ≤ 36)
    (htext : ¬ (radix = 16 ∧ hexPrefix text = true)) :
    Scanned radix text radix 0 := by
  have hne0 : radix ≠ 0 := by omega
  refine scanned_of_length hradix (fun hne => .plain hne0 hne fun byte hb => isDigit_of_mem_run hb)
    fun other b ds h hstart => ?_
  cases h with
  | plain _ _ h => exact length_le_run h hstart
  | hex h16 hx hne h => exact absurd ⟨by omega, hexPrefix_of_hex hx hne h hstart⟩ htext
  | octal h0 _ => exact absurd h0 hne0
  | decimal h0 _ _ => exact absurd h0 hne0

theorem scanned_octal (hhead : text.head? = some 0x30) (htext : ¬ hexPrefix text = true) :
    Scanned 0 text 8 0 := by
  obtain ⟨rest, rfl⟩ : ∃ rest, text = 0x30 :: rest := ⟨text.tail, List.eq_cons_of_mem_head? hhead⟩
  refine scanned_of_length (by decide) (fun _ => ?_) fun other b ds h hstart => ?_
  · rw [run_cons_digit rfl (by decide)]
    exact .octal rfl fun byte hb => isDigit_of_mem_run hb
  · cases h with
    | plain h0 _ _ => exact absurd rfl h0
    | hex _ hx hne h => exact absurd (hexPrefix_of_hex hx hne h hstart) htext
    | octal _ h => exact length_le_run (List.forall_mem_cons.mpr ⟨isDigit_zero.2, h⟩) hstart
    | decimal _ hfirst _ =>
      rw [List.cons_prefix_cons] at hstart
      exact absurd hstart.1 hfirst

theorem scanned_decimal (hhead : text.head? ≠ some 0x30) : Scanned 0 text 10 0 := by
  refine scanned_of_length (by decide) (fun hne => ?_) fun other b ds h hstart => ?_
  · obtain ⟨byte, digits, hrun⟩ := List.exists_cons_of_ne_nil hne
    have hdigits : ∀ b ∈ byte :: digits, IsDigit 10 b := fun b hb => isDigit_of_mem_run (hrun ▸ hb)
    have hstart := run_starts 10 text
    rw [hrun] at hstart ⊢
    obtain ⟨rest, rfl⟩ := hstart
    exact .decimal rfl (fun hzero => hhead (by rw [hzero]; rfl)) hdigits
  · cases h with
    | plain h0 _ _ => exact absurd rfl h0
    | hex _ _ _ _ =>
      obtain ⟨rest, rfl⟩ := hstart
      exact absurd rfl hhead
    | octal _ _ =>
      obtain ⟨rest, rfl⟩ := hstart
      exact absurd rfl hhead
    | decimal _ _ h => exact length_le_run h hstart

end

/-- **The prefix.** The scan begins where the longest numeral has its digits. -/
theorem scanPrefix_ok (radix : Radix) (text : List UInt8) :
    Scanned radix.val text (scanPrefix radix .gnu text).1 (scanPrefix radix .gnu text).2.1 := by
  have hrange := radix.range
  unfold scanPrefix
  by_cases hhead : text.head? = some 0x30
  · rw [if_pos hhead]
    by_cases hhex : (radix.val = 0 ∨ radix.val = 16) ∧ hexPrefix text
    · rw [if_pos hhex]
      exact scanned_hex hhex.1 hhex.2
    · rw [if_neg hhex]
      by_cases h0 : radix.val = 0
      · simp only [h0, if_true]
        exact scanned_octal hhead fun h => hhex ⟨.inl h0, h⟩
      · simp only [if_neg h0]
        exact scanned_plain (by omega) fun h => hhex ⟨.inr h.1, h.2⟩
  · rw [if_neg hhead]
    by_cases h0 : radix.val = 0
    · simp only [h0, if_true]
      exact scanned_decimal hhead
    · simp only [if_neg h0]
      refine scanned_plain (by omega) fun h => hhead ?_
      obtain ⟨x, d, rest, rfl, -⟩ := hexPrefix_iff.mp h.2
      rfl

/-! ### The value -/

/-- The largest magnitude. -/
def limit (T : IntType) (negative : Bool) : ℕ :=
  if T.signed then T.maxInt + (if negative then 1 else 0) else T.maxInt

theorem limit_range (T : IntType) (negative : Bool) :
    36 ≤ limit T negative ∧ limit T negative < 2 ^ 64 := by
  unfold limit IntType.maxInt IntType.bits
  split_ifs <;> decide

theorem minInt_signed {T : IntType} (h : T.signed = true) : T.minInt = -(T.maxInt + 1 : ℕ) := by
  unfold IntType.minInt IntType.maxInt IntType.bits
  rw [if_pos h, if_pos h]
  split_ifs <;> decide

theorem minInt_unsigned {T : IntType} (h : ¬ T.signed = true) :
    T.minInt = 0 ∧ (2 : ℤ) ^ T.bits = (T.maxInt + 1 : ℕ) := by
  unfold IntType.minInt IntType.maxInt IntType.bits
  rw [if_neg h, if_neg h]
  split_ifs <;> decide

theorem intCast_ok {T : IntType} {v : ℤ} (h1 : T.minInt ≤ v) (h2 : v ≤ T.maxInt) :
    T.intCast v = .ok v :=
  if_pos ⟨h1, h2⟩

theorem toValue_signed {T : IntType} (hs : T.signed = true) (negative : Bool) (n : ℕ) : ∃ value,
    toValue T negative (decide (limit T negative < n)) (min (limit T negative) n) = .ok value ∧
      Converted T negative n value (decide (limit T negative < n)) := by
  have hmin := minInt_signed hs
  unfold toValue Converted limit
  simp only [hs, if_true, Bool.true_and, decide_eq_true_eq]
  cases negative with
  | true =>
    simp only [if_true]
    by_cases hover : T.maxInt + 1 < n
    · rw [if_pos hover]
      refine ⟨_, rfl, ?_, ?_⟩ <;> omega
    · rw [if_neg hover, min_eq_right (Nat.not_lt.mp hover)]
      simp only [Bool.true_and, decide_eq_true_eq]
      by_cases hlast : n = T.maxInt + 1
      · rw [if_pos hlast]
        refine ⟨_, rfl, ?_, ?_⟩ <;> omega
      · rw [if_neg hlast, intCast_ok (by omega) (by omega)]
        refine ⟨_, rfl, ?_, ?_⟩ <;> omega
  | false =>
    simp only [Bool.false_eq_true, if_false, Nat.add_zero, Bool.false_and]
    by_cases hover : T.maxInt < n
    · rw [if_pos hover]
      refine ⟨_, rfl, ?_, ?_⟩ <;> omega
    · rw [if_neg hover, min_eq_right (Nat.not_lt.mp hover), intCast_ok (by omega) (by omega)]
      refine ⟨_, rfl, ?_, ?_⟩ <;> omega

theorem toValue_unsigned {T : IntType} (hs : ¬ T.signed = true) (negative : Bool) (n : ℕ) : ∃ value,
    toValue T negative (decide (limit T negative < n)) (min (limit T negative) n) = .ok value ∧
      Converted T negative n value (decide (limit T negative < n)) := by
  obtain ⟨hmin, hbits⟩ := minInt_unsigned hs
  unfold toValue Converted limit
  simp only [hs, if_false, Bool.false_and, decide_eq_true_eq, Bool.false_eq_true]
  by_cases hover : T.maxInt < n
  · rw [if_pos hover]
    exact ⟨_, rfl, trivial, by rw [if_pos hover]⟩
  · have hsmall : (n : ℤ) % (T.maxInt + 1 : ℕ) = n := Int.emod_eq_of_lt (by omega) (by omega)
    rw [if_neg hover, min_eq_right (Nat.not_lt.mp hover), intCast_ok (by omega) (by omega)]
    cases negative with
    | true => exact ⟨_, rfl, trivial, by rw [if_neg hover]; rfl⟩
    | false =>
      refine ⟨_, rfl, trivial, ?_⟩
      rw [if_neg hover, hbits, if_neg Bool.false_ne_true, hsmall]

/-- **The value** of a magnitude is the one of the standard. -/
theorem toValue_ok (T : IntType) (negative : Bool) (n : ℕ) : ∃ value,
    toValue T negative (decide (limit T negative < n)) (min (limit T negative) n) = .ok value ∧
      Converted T negative n value (decide (limit T negative < n)) := by
  by_cases hs : T.signed = true
  · exact toValue_signed hs negative n
  · exact toValue_unsigned hs negative n

/-! ### The whole scan -/

/-- In the other dialect a leading zero is skipped, which changes neither the base nor the
number. -/
theorem scanPrefix_zig (radix : Radix) (text : List UInt8) :
    (scanPrefix radix .zig016 text).1 = (scanPrefix radix .gnu text).1 ∧
      (scanPrefix radix .zig016 text = scanPrefix radix .gnu text ∨
        (scanPrefix radix .gnu text).2.1 = 0 ∧ (scanPrefix radix .zig016 text).2 = (1, true) ∧
          text.head? = some 0x30) := by
  unfold scanPrefix
  simp only [if_true, if_neg (by decide : ¬ Dialect.gnu = .zig016)]
  by_cases hhead : text.head? = some 0x30
  · simp only [if_pos hhead]
    by_cases hhex : (radix.val = 0 ∨ radix.val = 16) ∧ hexPrefix text
    · simp only [if_pos hhex]
      exact ⟨trivial, .inl trivial⟩
    · simp only [if_neg hhex]
      exact ⟨trivial, .inr ⟨trivial, trivial, hhead⟩⟩
  · simp only [if_neg hhead]
    exact ⟨trivial, .inl trivial⟩

theorem scanPrefix_gnu (radix : Radix) (text : List UInt8) :
    (scanPrefix radix .gnu text).2.2 = false := by
  unfold scanPrefix
  simp only [if_neg (by decide : ¬ Dialect.gnu = .zig016)]
  split_ifs <;> rfl

section
variable (source : List UInt8) (isSpace : UInt8 → Bool)

/-- The whitespace at the beginning. -/
def blanks : List UInt8 := source.takeWhile fun byte => byte ≠ 0 ∧ isSpace byte

/-- The sign of a text. -/
def signOf (text : List UInt8) : Option Bool :=
  if text.head? = some 0x2d then some true else if text.head? = some 0x2b then some false else none

/-- The text behind the whitespace and the sign. -/
def behindSign : List UInt8 :=
  (source.drop (blanks source isSpace).length).drop
    (signText (signOf (source.drop (blanks source isSpace).length))).length

theorem signText_append (text : List UInt8) :
    signText (signOf text) ++ text.drop (signText (signOf text)).length = text := by
  unfold signOf
  split_ifs with hminus hplus
  · rw [List.eq_cons_of_mem_head? hminus]
    rfl
  · rw [List.eq_cons_of_mem_head? hplus]
    rfl
  · rfl

/-- A text of the expected form at the beginning has the sign of the text. -/
theorem expected_start {radix : ℕ} {other text : List UInt8} (h : Expected radix other)
    (hstart : other <+: text) :
    ∃ numeral base digits, Numeral radix numeral base digits ∧
      other = signText (signOf text) ++ numeral ∧
      numeral <+: text.drop (signText (signOf text)).length := by
  obtain ⟨sign, numeral, base, digits, rfl, hnumeral⟩ := h
  obtain ⟨byte, rest, rfl, hbyte⟩ := numeral_head hnumeral
  obtain ⟨behind, rfl⟩ := hstart
  have hsign : signOf (signText sign ++ byte :: rest ++ behind) = sign := by
    rcases sign with _ | _ | _
    · have hminus : byte ≠ 0x2d := by
        rintro rfl
        cases hbyte
      have hplus : byte ≠ 0x2b := by
        rintro rfl
        cases hbyte
      simp [signOf, signText, hminus, hplus]
    · rfl
    · rfl
  rw [hsign]
  refine ⟨_, base, digits, hnumeral, rfl, ?_⟩
  rw [List.append_assoc, List.drop_left]
  exact List.prefix_append _ _

end

section
variable (T : IntType) (radix : Radix) (source : List UInt8) (isSpace : UInt8 → Bool)
  (dialect : Dialect)

/-- The digits that the scan reads. -/
def digitsRead : List UInt8 :=
  run (scanPrefix radix dialect (behindSign source isSpace)).1
    ((behindSign source isSpace).drop (scanPrefix radix dialect (behindSign source isSpace)).2.1)

/-- Their number. -/
def numberRead : ℕ := number (scanPrefix radix dialect (behindSign source isSpace)).1
  (digitsRead radix source isSpace dialect)

/-- A minus sign stands in front of the digits. -/
def isNegative : Bool := signOf (source.drop (blanks source isSpace).length) = some true

theorem scan_eq : scan T radix source dialect isSpace = (do
    let s ← scanDigits dialect (limit T (isNegative source isSpace))
      (scanPrefix radix dialect (behindSign source isSpace)).1
      ((behindSign source isSpace).drop (scanPrefix radix dialect (behindSign source isSpace)).2.1)
      { hasDigit := (scanPrefix radix dialect (behindSign source isSpace)).2.2 }
    let value ← toValue T (isNegative source isSpace) s.overflow s.magnitude
    return { value := value
             stop := if dialect = .gnu ∧ ¬ s.hasDigit then 0
               else (blanks source isSpace).length +
                 (signText (signOf (source.drop (blanks source isSpace).length))).length +
                 (scanPrefix radix dialect (behindSign source isSpace)).2.1 + s.read
             range := s.overflow }) := by
  have hnegative : ∀ text : List UInt8, decide (text.head? = some 0x2d) =
      decide (signOf text = some true) := by
    intro text
    unfold signOf
    split_ifs with hminus <;> simp [hminus]
  have hsign : ∀ text : List UInt8, (if decide (signOf text = some true) = true ∨
      text.head? = some 0x2b
      then 1 else 0) = (signText (signOf text)).length := by
    intro text
    unfold signOf
    split_ifs <;> simp_all [signText]
  unfold scan
  simp only [hnegative, hsign]
  rfl

/-- **What the scan returns,** in terms of the digits that it reads. -/
theorem scan_run : ∃ r, scan T radix source dialect isSpace = .ok r ∧
    toValue T (isNegative source isSpace) (decide (limit T (isNegative source isSpace) <
      numberRead radix source isSpace dialect)) (min (limit T (isNegative source isSpace))
        (numberRead radix source isSpace dialect)) = .ok r.value ∧
    r.range = decide (limit T (isNegative source isSpace) <
      numberRead radix source isSpace dialect) ∧
    (dialect = .gnu ∨
      numberRead radix source isSpace dialect ≤ limit T (isNegative source isSpace) →
      r.stop = if dialect = .gnu ∧ digitsRead radix source isSpace dialect = [] then 0
        else (blanks source isSpace).length +
          (signText (signOf (source.drop (blanks source isSpace).length))).length +
          (scanPrefix radix dialect (behindSign source isSpace)).2.1 +
          (digitsRead radix source isSpace dialect).length) := by
  have hbase : 2 ≤ (scanPrefix radix dialect (behindSign source isSpace)).1 ∧
      (scanPrefix radix dialect (behindSign source isSpace)).1 ≤ 36 := by
    have hgnu := (scanPrefix_ok radix (behindSign source isSpace)).base_range
    cases dialect with
    | gnu => exact hgnu
    | zig016 =>
      rw [(scanPrefix_zig radix _).1]
      exact hgnu
  obtain ⟨hlimit, hlimit'⟩ := limit_range T (isNegative source isSpace)
  obtain ⟨s, hs, hover, hmag, hdigit, hread⟩ := scanDigits_ok dialect hbase.1 hbase.2 hlimit hlimit'
    ((behindSign source isSpace).drop (scanPrefix radix dialect (behindSign source isSpace)).2.1)
    { hasDigit := (scanPrefix radix dialect (behindSign source isSpace)).2.2 } rfl (Nat.zero_le _)
  change s.overflow = decide (_ < numberRead radix source isSpace dialect) at hover
  change s.magnitude = min _ (numberRead radix source isSpace dialect) at hmag
  change dialect = .gnu ∨ numberRead radix source isSpace dialect ≤ _ →
    s.read = 0 + (digitsRead radix source isSpace dialect).length at hread
  change s.hasDigit = (_ || !(digitsRead radix source isSpace dialect).isEmpty) at hdigit
  obtain ⟨value, hvalue, -⟩ :=
    toValue_ok T (isNegative source isSpace) (numberRead radix source isSpace dialect)
  rw [scan_eq, hs]
  change ∃ r, (toValue T _ s.overflow s.magnitude >>= _) = _ ∧ _
  rw [hover, hmag, hvalue]
  refine ⟨_, rfl, rfl, rfl, fun h => ?_⟩
  dsimp only
  rw [hread h, hdigit, Nat.zero_add]
  cases dialect with
  | gnu =>
    rw [scanPrefix_gnu]
    simp
  | zig016 => simp

/-- Both dialects read the same number; without an overflow they read as far. -/
theorem numberRead_zig :
    numberRead radix source isSpace .zig016 = numberRead radix source isSpace .gnu ∧
      (digitsRead radix source isSpace .gnu ≠ [] →
        (scanPrefix radix .zig016 (behindSign source isSpace)).2.1 +
            (digitsRead radix source isSpace .zig016).length =
          (scanPrefix radix .gnu (behindSign source isSpace)).2.1 +
            (digitsRead radix source isSpace .gnu).length) := by
  have hrange := (scanPrefix_ok radix (behindSign source isSpace)).base_range
  obtain ⟨hbase, hsame | ⟨hzero, hone, hhead⟩⟩ := scanPrefix_zig radix (behindSign source isSpace)
  · unfold numberRead digitsRead
    rw [hsame]
    exact ⟨rfl, fun _ => rfl⟩
  · obtain ⟨rest, hrest⟩ : ∃ rest, behindSign source isSpace = 0x30 :: rest :=
      ⟨_, List.eq_cons_of_mem_head? hhead⟩
    have hrun : digitsRead radix source isSpace .gnu =
        0x30 :: digitsRead radix source isSpace .zig016 := by
      unfold digitsRead
      rw [hbase, hone, hzero, List.drop_zero, hrest]
      rw [hrest] at hrange
      exact run_cons_digit (show digit 0x30 = some 0 from rfl) (by omega)
    unfold numberRead
    rw [hrun, hbase, hone, hzero]
    refine ⟨?_, fun _ => ?_⟩
    · unfold number numberFrom
      rw [List.foldl_cons, Nat.zero_mul]
      rfl
    · rw [List.length_cons]
      omega

theorem converted_zero {negative : Bool} {value : ℤ} (h : Converted T negative 0 value false) :
    value = 0 := by
  unfold Converted at h
  by_cases hs : T.signed = true
  · have hmin := minInt_signed hs
    rw [if_pos hs] at h
    obtain ⟨rfl, -⟩ := h
    cases negative <;> simp only [Bool.false_eq_true, if_false, if_true] <;> omega
  · rw [if_neg hs] at h
    obtain ⟨-, h⟩ := h
    rw [if_neg (Nat.not_lt_zero _)] at h
    rw [h]
    cases negative <;> simp

/-- **The C contract.** The scan in the GNU dialect returns what the standard says; the other
dialect returns the same value and the same fault, and stops at the same place if there is a digit
and no overflow. -/
theorem scan_contract : ∃ r r', scan T radix source .gnu isSpace = .ok r ∧
    scan T radix source .zig016 isSpace = .ok r' ∧ Contract T radix.val isSpace source r ∧
    r'.value = r.value ∧ r'.range = r.range ∧
    ((∃ other, Expected radix.val other ∧ other <+: source.drop (blanks source isSpace).length) →
      r.range = false → r'.stop = r.stop) := by
  obtain ⟨r, hr, hvalue, hover, hstop⟩ := scan_run T radix source isSpace .gnu
  obtain ⟨r', hr', hvalue', hover', hstop'⟩ := scan_run T radix source isSpace .zig016
  obtain ⟨hnumber, hlength⟩ := numberRead_zig radix source isSpace
  rw [hnumber] at hvalue' hover' hstop'
  obtain ⟨value, hconv, hconverted⟩ := toValue_ok T (isNegative source isSpace)
    (numberRead radix source isSpace .gnu)
  obtain rfl := Except.ok.inj (hconv.symm.trans hvalue)
  rw [← hover] at hconverted
  have hscanned := scanPrefix_ok radix (behindSign source isSpace)
  have hsplit := signText_append (source.drop (blanks source isSpace).length)
  -- an expected text at the beginning has digits, and is no longer than what was read
  have hlongest : ∀ other, Expected radix.val other →
      other <+: source.drop (blanks source isSpace).length →
      digitsRead radix source isSpace .gnu ≠ [] ∧ other.length ≤
        (signText (signOf (source.drop (blanks source isSpace).length))).length +
        ((scanPrefix radix .gnu (behindSign source isSpace)).2.1 +
          (digitsRead radix source isSpace .gnu).length) := by
    intro other hexpected hstart
    obtain ⟨numeral, base, digits, hnumeral, rfl, hbegin⟩ := expected_start hexpected hstart
    obtain ⟨hne, hle⟩ := hscanned.longest numeral base digits hnumeral hbegin
    exact ⟨hne, by rw [List.length_append]; exact Nat.add_le_add_left hle _⟩
  have hfits : r.range = false →
      numberRead radix source isSpace .gnu ≤ limit T (isNegative source isSpace) := by
    intro hrange
    exact Nat.not_lt.mp (of_decide_eq_false (hover.symm.trans hrange))
  refine ⟨r, r', hr, hr', ?_, ?_, by rw [hover, hover'], fun hexpected hrange => ?_⟩
  · by_cases hne : digitsRead radix source isSpace .gnu = []
    · have hzero : numberRead radix source isSpace .gnu = 0 := by
        unfold numberRead
        rw [hne]
        rfl
      have hrange : r.range = false := by
        rw [hover, hzero]
        rfl
      rw [hzero, hrange] at hconverted
      refine .inr ⟨fun other hexpected hstart => (hlongest other hexpected hstart).1 hne,
        converted_zero T hconverted, ?_, hrange⟩
      rw [hstop (.inl rfl), if_pos ⟨rfl, hne⟩]
    · have hnumeral := hscanned.numeral hne
      have hdrop : (behindSign source isSpace).take
          ((scanPrefix radix .gnu (behindSign source isSpace)).2.1 +
          (digitsRead radix source isSpace .gnu).length) <+:
          behindSign source isSpace := List.take_prefix _ _
      have hlen : ((behindSign source isSpace).take
          ((scanPrefix radix .gnu (behindSign source isSpace)).2.1 +
          (digitsRead radix source isSpace .gnu).length)).length =
            (scanPrefix radix .gnu (behindSign source isSpace)).2.1 +
              (digitsRead radix source isSpace .gnu).length := by
        have hle := (run_starts (scanPrefix radix .gnu (behindSign source isSpace)).1
          ((behindSign source isSpace).drop
            (scanPrefix radix .gnu (behindSign source isSpace)).2.1)).length_le
        have hpos := List.length_pos_iff.mpr hne
        change (digitsRead radix source isSpace .gnu).length ≤ _ at hle
        rw [List.length_drop] at hle
        rw [List.length_take]
        omega
      refine .inl ⟨signOf (source.drop (blanks source isSpace).length), _, _, _, hnumeral, ?_,
        fun other hexpected hstart => ?_, ?_, hconverted⟩
      · obtain ⟨rest, hrest⟩ := hdrop
        refine ⟨rest, ?_⟩
        rw [List.append_assoc]
        exact (congrArg (signText _ ++ ·) hrest).trans hsplit
      · rw [List.length_append]
        exact (hlongest other hexpected hstart).2.trans (Nat.add_le_add_left hlen.ge _)
      · rw [hstop (.inl rfl), if_neg fun h => hne h.2, List.length_append]
        have hlen' := hlen
        unfold digitsRead at hlen' ⊢
        rw [hlen']
        change (blanks source isSpace).length + _ + _ + _ = (blanks source isSpace).length + _
        omega
  · exact Except.ok.inj (hvalue'.symm.trans hvalue)
  · obtain ⟨other, hexpected, hstart⟩ := hexpected
    have hne := (hlongest other hexpected hstart).1
    have hlength' := hlength hne
    rw [hstop (.inl rfl), hstop' (.inr (hfits hrange)), if_neg fun h => absurd h.1 (by decide),
      if_neg fun h => hne h.2]
    omega

end

end Ipmitool.Util.IntegerScan
