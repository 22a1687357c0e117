import Mathlib.Algebra.Order.Field.Power
import Mathlib.Algebra.Order.Floor.Ring
import Mathlib.Data.Int.Log
import Mathlib.Data.Rat.Floor
import Mathlib.Tactic.FieldSimp
import Mathlib.Tactic.Linarith
import Mathlib.Tactic.Positivity
import Mathlib.Tactic.Ring

/-! # Rounding to binary floating-point numbers

The numbers of a binary format without a sign. A bit pattern has a biased exponent over a fraction
of `fraction` bits; the patterns with the biased exponent zero are the subnormal numbers, multiples
of `2 ^ least`, and the pattern with the biased exponent `top` and the fraction zero is infinity.

`Format.Rounds x b` says that `b` is the number nearest to `x`, the even one of two; from
`Format.overflow` on it is infinity. `Format.rounds_of_nearest` reduces this to the nearest integer
in units of the last place: a pattern is the number of units, counted from the start of its
binade. -/

namespace Ipmitool.Lib.Rounding

/-! ### The nearest integer -/

/-- `n` is the nearest integer to `q`, the even one of two. -/
structure NearestEven (q : ℚ) (n : ℕ) : Prop where
  near : |q - n| ≤ 1 / 2
  even : |q - n| = 1 / 2 → Even n

section
variable {q t : ℚ} {n k : ℕ}

theorem abs_natCast_sub (h : n ≠ k) : (1 : ℚ) ≤ |(n : ℚ) - k| := by
  have hint : (1 : ℤ) ≤ |(n : ℤ) - k| := Int.one_le_abs (sub_ne_zero.mpr (by exact_mod_cast h))
  exact_mod_cast hint

theorem NearestEven.le_abs (h : NearestEven q n) (k : ℕ) : |q - n| ≤ |q - k| := by
  by_cases hk : n = k
  · rw [hk]
  · have htri := abs_sub_abs_le_abs_sub ((n : ℚ) - k) (n - q)
    have hone := abs_natCast_sub hk
    have hnear := h.near
    rw [abs_sub_comm] at hnear
    rw [show (n : ℚ) - k - (n - q) = q - k by ring] at htri
    rw [abs_sub_comm q n]
    linarith

theorem NearestEven.even_of_tie (h : NearestEven q n) (hk : n ≠ k) (htie : |q - n| = |q - k|) :
    Even n := by
  refine h.even (le_antisymm h.near ?_)
  have htri := abs_sub_abs_le_abs_sub ((n : ℚ) - k) (n - q)
  have hone := abs_natCast_sub hk
  rw [show (n : ℚ) - k - (n - q) = q - k by ring, abs_sub_comm (n : ℚ) q] at htri
  linarith

theorem NearestEven.exact : NearestEven (n : ℚ) n := by
  refine ⟨by simp, fun h => ?_⟩
  rw [sub_self, abs_zero] at h
  norm_num at h

theorem nearestEven_div {a r half : ℕ} (hhalf : 0 < half) (hr : r < 2 * half) (ht0 : 0 ≤ t)
    (ht1 : t < 1) :
    NearestEven ((a * (2 * half) + r + t) / (2 * half))
      (if half < r ∨ r = half ∧ (t ≠ 0 ∨ a % 2 ≠ 0) then a + 1 else a) := by
  have hpos : (0 : ℚ) < half := by exact_mod_cast hhalf
  have hq : ((a * (2 * half) + r + t) / (2 * half) : ℚ) = a + (r + t) / (2 * half) := by
    field_simp
    ring
  rw [hq]
  split_ifs with hup
  · -- the rest is at least a half
    have hge : (half : ℚ) ≤ r := by
      rcases hup with h | ⟨h, -⟩
      · exact_mod_cast h.le
      · exact_mod_cast h.ge
    have hlt : (r : ℚ) + 1 ≤ 2 * half := by exact_mod_cast hr
    have hle1 : (r + t) / (2 * half) ≤ 1 := by
      rw [div_le_one (by positivity)]
      linarith
    have hge1 : 1 / 2 ≤ (r + t) / (2 * half) := by
      rw [le_div_iff₀ (by positivity)]
      linarith
    have hneg : (a : ℚ) + (r + t) / (2 * half) - ((a + 1 : ℕ) : ℚ) ≤ 0 := by
      push_cast
      linarith
    refine ⟨?_, fun htie => ?_⟩
    · rw [abs_of_nonpos hneg]
      push_cast
      linarith
    · rw [abs_of_nonpos hneg] at htie
      push_cast at htie
      have heq : (r + t) / (2 * half) = 1 / 2 := by linarith
      rw [div_eq_iff (by positivity)] at heq
      rcases hup with h | ⟨h, h0 | hodd⟩
      · have : (half : ℚ) + 1 ≤ r := by exact_mod_cast h
        linarith
      · have : (r : ℚ) = half := by exact_mod_cast h
        exact absurd (by linarith) h0
      · exact Nat.even_add_one.mpr (by rwa [Nat.even_iff])
  · rw [not_or, not_lt] at hup
    have hle : (r : ℚ) ≤ half := by exact_mod_cast hup.1
    have hnonneg : 0 ≤ (a : ℚ) + (r + t) / (2 * half) - a := by
      have : 0 ≤ (r + t) / (2 * half) := by positivity
      linarith
    have hrt : r + t ≤ half := by
      by_cases h : r = half
      · have h0 : t = 0 := by
          by_contra h0
          exact hup.2 ⟨h, .inl h0⟩
        rw [h, h0, add_zero]
      · have : (r : ℚ) + 1 ≤ half := by exact_mod_cast lt_of_le_of_ne hup.1 h
        linarith
    refine ⟨?_, fun htie => ?_⟩
    · rw [abs_of_nonneg hnonneg, add_sub_cancel_left, div_le_iff₀ (by positivity)]
      linarith
    · rw [abs_of_nonneg hnonneg, add_sub_cancel_left, div_eq_iff (by positivity)] at htie
      have hr : r = half := by
        by_contra h
        have : (r : ℚ) + 1 ≤ half := by exact_mod_cast lt_of_le_of_ne hup.1 h
        linarith
      rw [Nat.even_iff]
      by_contra hodd
      exact hup.2 ⟨hr, .inr hodd⟩

theorem exists_nearestEven (hq : 0 ≤ q) : ∃ n, NearestEven q n := by
  have hfloor := Nat.floor_le hq
  have hlt := Nat.lt_floor_add_one q
  -- half a unit is the remainder, and what is left is the rest
  by_cases h : q - ⌊q⌋₊ < 1 / 2
  · have := nearestEven_div (a := ⌊q⌋₊) (r := 0) (t := 2 * (q - ⌊q⌋₊)) Nat.one_pos two_pos
      (by linarith) (by linarith)
    exact ⟨_, by convert this using 1; push_cast; ring⟩
  · have := nearestEven_div (a := ⌊q⌋₊) (r := 1) (t := 2 * (q - ⌊q⌋₊) - 1) Nat.one_pos
      (by decide) (by linarith) (by linarith)
    exact ⟨_, by convert this using 1; push_cast; ring⟩

end

/-! ### Formats -/

/-- A binary format: the bits of the fraction, the exponent of the smallest number, and the biased
exponent of infinity. -/
structure Format where
  fraction : ℕ
  least : ℤ
  top : ℕ
  fraction_pos : 0 < fraction
  top_ge : 2 ≤ top

namespace Format
variable (F : Format)

/-- The number of a pattern; that of infinity is the next power of two. -/
def value (b : ℕ) : ℚ :=
  if b < 2 ^ F.fraction then b * 2 ^ F.least
  else (2 ^ F.fraction + (b % 2 ^ F.fraction : ℕ)) * 2 ^ (F.least + (b / 2 ^ F.fraction : ℕ) - 1)

def infinity : ℕ := F.top * 2 ^ F.fraction

/-- From here on a number is rounded to infinity: half a unit below the next power of two. -/
def overflow : ℚ := (2 ^ (F.fraction + 1) - 1 / 2) * 2 ^ (F.least + F.top - 2)

/-- The smallest number that is not subnormal. -/
def normal : ℚ := 2 ^ (F.least + F.fraction)

/-- `b` is `x`, rounded to nearest and to the even one of two. -/
def Rounds (x : ℚ) (b : ℕ) : Prop :=
  F.overflow ≤ x ∧ b = F.infinity ∨
    x < F.overflow ∧ b < F.infinity ∧ ∀ b' < F.infinity, |x - F.value b| ≤ |x - F.value b'| ∧
      (F.value b' ≠ F.value b → |x - F.value b| = |x - F.value b'| → Even b)

/-- The format has the number `x`. -/
def Representable (x : ℚ) : Prop := ∃ b < F.infinity, F.value b = x

/-- `x` is rounded below the normal numbers even if there is no smallest exponent. -/
def RoundsBelowNormal (x : ℚ) : Prop :=
  ∃ (e : ℤ) (n : ℕ), 2 ^ (e + F.fraction) ≤ x ∧ x < 2 ^ (e + F.fraction + 1) ∧
    NearestEven (x / 2 ^ e) n ∧ n * 2 ^ e < F.normal

variable {F} {x : ℚ} {k n b : ℕ}

/-! ### Units -/

theorem two_zpow_pos (e : ℤ) : (0 : ℚ) < 2 ^ e := by positivity

theorem zpow_natCast_add (e : ℤ) (m : ℕ) : (2 : ℚ) ^ (e + m) = 2 ^ m * 2 ^ e := by
  rw [zpow_add₀ two_ne_zero, zpow_natCast, mul_comm]

theorem value_units (hn : n ≤ 2 ^ (F.fraction + 1)) (hk : k = 0 ∨ 2 ^ F.fraction ≤ n) :
    F.value (k * 2 ^ F.fraction + n) = n * 2 ^ (F.least + k) := by
  have hpos : 0 < 2 ^ F.fraction := Nat.two_pow_pos _
  rw [pow_succ] at hn
  unfold value
  by_cases hlow : n < 2 ^ F.fraction
  · obtain rfl : k = 0 := hk.resolve_right (by omega)
    rw [if_pos (by omega)]
    simp
  rw [if_neg (by nlinarith [Nat.zero_le (k * 2 ^ F.fraction)])]
  rcases Nat.lt_or_ge n (2 * 2 ^ F.fraction) with h | h
  · have hsplit : k * 2 ^ F.fraction + n = (n - 2 ^ F.fraction) + 2 ^ F.fraction * (k + 1) := by
      rw [Nat.mul_succ, Nat.mul_comm]
      omega
    have hfrac : n - 2 ^ F.fraction < 2 ^ F.fraction := by omega
    rw [hsplit, Nat.add_mul_mod_self_left, Nat.mod_eq_of_lt hfrac, Nat.add_mul_div_left _ _ hpos,
      Nat.div_eq_of_lt hfrac, Nat.zero_add, Nat.cast_sub (by omega)]
    have hexp : F.least + ((k + 1 : ℕ) : ℤ) - 1 = F.least + k := by
      push_cast
      ring
    rw [hexp]
    push_cast
    ring
  · have hsplit : k * 2 ^ F.fraction + n = 2 ^ F.fraction * (k + 2) := by
      rw [Nat.mul_add, Nat.mul_comm]
      omega
    have hn' : n = 2 ^ F.fraction * 2 := by omega
    rw [hsplit, Nat.mul_mod_right, Nat.mul_div_cancel_left _ hpos, hn']
    have hexp : F.least + ((k + 2 : ℕ) : ℤ) - 1 = F.least + k + 1 := by
      push_cast
      ring
    rw [hexp, zpow_add_one₀ two_ne_zero]
    push_cast
    ring

theorem exists_units (b : ℕ) : ∃ k n, b = k * 2 ^ F.fraction + n ∧ n < 2 ^ (F.fraction + 1) ∧
    (k = 0 ∨ 2 ^ F.fraction ≤ n) ∧ F.value b = n * 2 ^ (F.least + k) := by
  have hpos : 0 < 2 ^ F.fraction := Nat.two_pow_pos _
  have hmod := Nat.mod_lt b hpos
  have hdiv := Nat.div_add_mod b (2 ^ F.fraction)
  obtain ⟨k, n, hb, hn, hk⟩ : ∃ k n, b = k * 2 ^ F.fraction + n ∧ n < 2 ^ (F.fraction + 1) ∧
      (k = 0 ∨ 2 ^ F.fraction ≤ n) := by
    rw [pow_succ]
    rcases hq : b / 2 ^ F.fraction with _ | k
    · refine ⟨0, b, by omega, ?_, .inl rfl⟩
      rw [hq] at hdiv
      omega
    · refine ⟨k, b % 2 ^ F.fraction + 2 ^ F.fraction, ?_, by omega, .inr (by omega)⟩
      rw [hq, Nat.mul_succ, Nat.mul_comm] at hdiv
      omega
  exact ⟨k, n, hb, hn, hk, by rw [hb, value_units hn.le hk]⟩

/-- Seen from a binade, a number is a multiple of its unit or lies below it. -/
theorem value_cases (k b : ℕ) : (∃ m : ℕ, F.value b = m * 2 ^ (F.least + k)) ∨
    0 < k ∧ F.value b < 2 ^ F.fraction * 2 ^ (F.least + k) := by
  obtain ⟨j, n, -, hn, -, hvalue⟩ := F.exists_units b
  rcases Nat.lt_or_ge j k with h | h
  · obtain ⟨d, rfl⟩ := Nat.exists_eq_add_of_lt h
    refine .inr ⟨by omega, ?_⟩
    have hn' : (n : ℚ) < 2 ^ F.fraction * 2 := by
      rw [← pow_succ]
      exact_mod_cast hn
    have hexp : F.least + ((j + d + 1 : ℕ) : ℤ) = F.least + j + ((d + 1 : ℕ) : ℤ) := by
      push_cast
      ring
    have hone : (1 : ℚ) ≤ 2 ^ d := one_le_pow₀ (by norm_num)
    rw [hvalue, hexp, zpow_natCast_add (F.least + j) (d + 1), pow_succ, ← mul_assoc]
    refine mul_lt_mul_of_pos_right ?_ (two_zpow_pos _)
    have hpos : (0 : ℚ) < 2 ^ F.fraction := by positivity
    nlinarith
  · obtain ⟨d, rfl⟩ := Nat.exists_eq_add_of_le h
    refine .inl ⟨n * 2 ^ d, ?_⟩
    have hexp : F.least + ((k + d : ℕ) : ℤ) = F.least + k + (d : ℤ) := by
      push_cast
      ring
    rw [hvalue, hexp, zpow_natCast_add (F.least + k) d]
    push_cast
    ring

/-! ### Rounding in units -/

/-- The number of units stays in the binade, or reaches the next one. -/
theorem units_le {e : ℤ} {f : ℕ} (hhigh : x < 2 ^ f * 2 ^ e) (hn : NearestEven (x / 2 ^ e) n) :
    n ≤ 2 ^ f := by
  have hq : x / 2 ^ e < 2 ^ f := (div_lt_iff₀ (two_zpow_pos e)).mpr hhigh
  obtain ⟨h1, h2⟩ := abs_le.mp hn.near
  have hlt : (n : ℚ) < ((2 ^ f + 1 : ℕ) : ℚ) := by
    push_cast
    linarith
  have := Nat.cast_lt.mp hlt
  omega

theorem le_units {e : ℤ} {f : ℕ} (hlow : 2 ^ f * 2 ^ e ≤ x) (hn : NearestEven (x / 2 ^ e) n) :
    2 ^ f ≤ n := by
  have hq : 2 ^ f ≤ x / 2 ^ e := (le_div_iff₀ (two_zpow_pos e)).mpr hlow
  obtain ⟨h1, h2⟩ := abs_le.mp hn.near
  have hlt : ((2 ^ f : ℕ) : ℚ) < ((n + 1 : ℕ) : ℚ) := by
    push_cast
    linarith
  have := Nat.cast_lt.mp hlt
  omega

theorem units_nearest (hlow : k = 0 ∨ 2 ^ F.fraction * 2 ^ (F.least + k) ≤ x)
    (hn : NearestEven (x / 2 ^ (F.least + k)) n) (b : ℕ) :
    |x - n * 2 ^ (F.least + k)| ≤ |x - F.value b| ∧
      (F.value b ≠ n * 2 ^ (F.least + k) → |x - n * 2 ^ (F.least + k)| = |x -
        F.value b| → Even n) := by
  have hu := two_zpow_pos (F.least + k)
  have hscale : ∀ m : ℕ, |x - m * 2 ^ (F.least + k)| =
      |x / 2 ^ (F.least + k) - m| * 2 ^ (F.least + k) := by
    intro m
    rw [← abs_of_pos hu, ← abs_mul, abs_of_pos hu, sub_mul, div_mul_cancel₀ _ hu.ne']
  rcases F.value_cases k b with ⟨m, hm⟩ | ⟨hk, hlt⟩
  · rw [hm, hscale, hscale]
    refine ⟨mul_le_mul_of_nonneg_right (hn.le_abs m) hu.le, fun hne htie => ?_⟩
    exact hn.even_of_tie (fun h => hne (by rw [h])) (mul_right_cancel₀ hu.ne' htie)
  · -- below the binade: its start is nearer
    have hx := hlow.resolve_left (by omega)
    have hstart := mul_le_mul_of_nonneg_right (hn.le_abs (2 ^ F.fraction)) hu.le
    rw [← hscale, ← hscale] at hstart
    push_cast at hstart
    rw [abs_of_nonneg (by linarith : 0 ≤ x - 2 ^ F.fraction * 2 ^ (F.least + k))] at hstart
    have hfar : |x - n * 2 ^ (F.least + k)| < |x - F.value b| := by
      rw [abs_of_pos (by linarith : 0 < x - F.value b)]
      linarith
    exact ⟨hfar.le, fun _ htie => absurd htie hfar.ne⟩

/-- The pattern with the nearest number of units is the rounded number. -/
theorem rounds_of_nearest (hlow : k = 0 ∨ 2 ^ F.fraction * 2 ^ (F.least + k) ≤ x)
    (hhigh : x < 2 ^ (F.fraction + 1) * 2 ^ (F.least + k))
    (hn : NearestEven (x / 2 ^ (F.least + k)) n) (hk : k + 2 ≤ F.top) :
    F.Rounds x (k * 2 ^ F.fraction + n) := by
  have hu := two_zpow_pos (F.least + k)
  have hmax := units_le hhigh hn
  have hmin := hlow.imp_right fun h => le_units h hn
  have hpos : 0 < 2 ^ F.fraction := Nat.two_pow_pos _
  have htop : F.top * 2 ^ F.fraction = (F.top - (k + 2)) * 2 ^ F.fraction +
      (k * 2 ^ F.fraction + 2 * 2 ^ F.fraction) := by
    rw [← Nat.add_mul, ← Nat.add_mul]
    congr 1
    omega
  have hunit : x = x / 2 ^ (F.least + k) * 2 ^ (F.least + k) := (div_mul_cancel₀ _ hu.ne').symm
  obtain ⟨h1, h2⟩ := abs_le.mp hn.near
  by_cases hinf : k + 2 = F.top ∧ n = 2 ^ (F.fraction + 1)
  · obtain ⟨htop', rfl⟩ := hinf
    refine .inl ⟨?_, ?_⟩
    · have hexp : F.least + F.top - 2 = F.least + (k : ℤ) := by
        rw [← htop']
        push_cast
        ring
      push_cast at h1 h2
      rw [overflow, hexp, hunit]
      refine mul_le_mul_of_nonneg_right ?_ hu.le
      linarith
    · rw [infinity, htop, ← htop', Nat.sub_self, pow_succ]
      ring
  · refine .inr ⟨?_, ?_, fun b' _ => ?_⟩
    · rw [overflow]
      rcases Nat.eq_or_lt_of_le hk with h | h
      · -- the last binade: the number of units is below the next power of two
        have hlt : n + 1 ≤ 2 ^ (F.fraction + 1) :=
          lt_of_le_of_ne hmax fun h' => hinf ⟨h, h'⟩
        have hlt' : (n : ℚ) + 1 ≤ 2 ^ (F.fraction + 1) := by exact_mod_cast hlt
        have hexp : F.least + F.top - 2 = F.least + (k : ℤ) := by
          rw [← h]
          push_cast
          ring
        rw [hexp]
        nth_rewrite 1 [hunit]
        refine mul_lt_mul_of_pos_right (lt_of_le_of_ne (by linarith) fun heq => ?_) hu
        have hle : n + 1 = 2 ^ (F.fraction + 1) := by
          have : (2 : ℚ) ^ (F.fraction + 1) ≤ n + 1 := by linarith
          exact le_antisymm hlt (by exact_mod_cast this)
        have hhalf : |x / 2 ^ (F.least + k) - n| = 1 / 2 := by
          have hle' : (n : ℚ) + 1 = 2 ^ (F.fraction + 1) := by exact_mod_cast hle
          rw [heq, ← hle', abs_of_nonneg (by linarith)]
          ring
        have heven := hn.even hhalf
        rw [Nat.even_iff] at heven
        rw [pow_succ] at hle
        omega
      · obtain ⟨d, hd⟩ := Nat.exists_eq_add_of_lt h
        have hexp : F.least + F.top - 2 = F.least + k + ((d + 1 : ℕ) : ℤ) := by
          rw [hd]
          push_cast
          ring
        rw [hexp, zpow_natCast_add (F.least + k) (d + 1), ← mul_assoc]
        refine hhigh.trans_le (mul_le_mul_of_nonneg_right ?_ hu.le)
        have hone : (1 : ℚ) ≤ 2 ^ d := one_le_pow₀ (by norm_num)
        have htwo : (1 : ℚ) ≤ 2 ^ (F.fraction + 1) := one_le_pow₀ (by norm_num)
        rw [pow_succ 2 d]
        nlinarith
    · rw [infinity, htop]
      rw [pow_succ] at hmax hinf
      rcases Nat.eq_or_lt_of_le hk with h | h
      · have : n ≠ 2 ^ F.fraction * 2 := fun h' => hinf ⟨h, h'⟩
        omega
      · have : 1 * 2 ^ F.fraction ≤ (F.top - (k + 2)) * 2 ^ F.fraction :=
          Nat.mul_le_mul_right _ (by omega)
        omega
    · rw [value_units hmax hmin]
      obtain ⟨hle, htie⟩ := units_nearest hlow hn b'
      refine ⟨hle, fun hne h => ?_⟩
      refine Even.add (Even.mul_left ?_ _) (htie hne h)
      exact (Nat.even_pow.mpr ⟨even_two, F.fraction_pos.ne'⟩)

/-! ### Below the normal numbers -/

theorem normal_eq : F.normal = 2 ^ F.fraction * 2 ^ F.least := zpow_natCast_add _ _

/-- Below the normal numbers the format has the multiples of its smallest number. -/
theorem representable_iff (hx : x < F.normal) : F.Representable x ↔ ∃ m :
    ℕ, x = m * 2 ^ F.least := by
  constructor
  · rintro ⟨b, -, rfl⟩
    rcases F.value_cases 0 b with ⟨m, hm⟩ | ⟨h, -⟩
    · exact ⟨m, by simpa using hm⟩
    · exact absurd h (lt_irrefl 0)
  · rintro ⟨m, rfl⟩
    rw [normal_eq] at hx
    have hm : m < 2 ^ F.fraction := by exact_mod_cast lt_of_mul_lt_mul_right hx (two_zpow_pos _).le
    refine ⟨m, ?_, if_pos hm⟩
    have := Nat.mul_le_mul_right (2 ^ F.fraction) F.top_ge
    rw [infinity]
    omega

/-- A number stays below the normal numbers if it is more than half a unit of the last subnormal
binade below them. -/
theorem roundsBelowNormal_iff (hx : 0 < x) (hlt : x < F.normal) :
    F.RoundsBelowNormal x ↔ x < (2 ^ (F.fraction + 1) - 1 / 2) * 2 ^ (F.least - 1) := by
  have hu := two_zpow_pos (F.least - 1)
  have hnormal : F.normal = 2 ^ (F.fraction + 1) * 2 ^ (F.least - 1) := by
    rw [normal_eq, pow_succ, mul_assoc, ← zpow_one_add₀ two_ne_zero]
    congr 2
    ring
  have hhalf : (1 : ℚ) ≤ 2 ^ F.fraction := one_le_pow₀ (by norm_num)
  -- the unit of a number below the normal ones
  have hunit : ∀ e : ℤ, (2 : ℚ) ^ (e + F.fraction) ≤ x → e = F.least - 1 ∨ e + 2 ≤ F.least := by
    intro e he
    have hlt' : (2 : ℚ) ^ (e + F.fraction) < 2 ^ (F.least + F.fraction) := he.trans_lt hlt
    have := (zpow_lt_zpow_iff_right₀ (by norm_num : (1 : ℚ) < 2)).mp hlt'
    omega
  have hsmall : ∀ e : ℤ, e + 2 ≤ F.least →
      (2 : ℚ) ^ (e + F.fraction + 1) ≤ 2 ^ F.fraction * 2 ^ (F.least - 1) := by
    intro e he
    rw [← zpow_natCast_add]
    exact zpow_le_zpow_right₀ (by norm_num) (by omega)
  constructor
  · rintro ⟨e, n, h1, h2, hn, hbelow⟩
    rcases hunit e h1 with rfl | he
    · rw [hnormal] at hbelow
      have hn' : n + 1 ≤ 2 ^ (F.fraction + 1) := by
        exact_mod_cast lt_of_mul_lt_mul_right hbelow hu.le
      have hn'' : (n : ℚ) + 1 ≤ 2 ^ (F.fraction + 1) := by exact_mod_cast hn'
      obtain ⟨h3, h4⟩ := abs_le.mp hn.near
      refine (div_lt_iff₀ hu).mp (lt_of_le_of_ne (by linarith) fun heq => ?_)
      -- a tie would be rounded to an even number
      have htop : n + 1 = 2 ^ (F.fraction + 1) := by
        have : (2 : ℚ) ^ (F.fraction + 1) ≤ n + 1 := by linarith
        exact le_antisymm hn' (by exact_mod_cast this)
      have hcast : (n : ℚ) + 1 = 2 ^ (F.fraction + 1) := by exact_mod_cast htop
      have heven := hn.even (by rw [heq, ← hcast, abs_of_nonneg (by linarith)]; ring)
      rw [Nat.even_iff] at heven
      rw [pow_succ] at htop
      omega
    · refine h2.trans_le ((hsmall e he).trans (mul_le_mul_of_nonneg_right ?_ hu.le))
      rw [pow_succ]
      linarith
  · intro hbelow
    have hlog : (2 : ℚ) ^ Int.log 2 x ≤ x := by exact_mod_cast Int.zpow_log_le_self one_lt_two hx
    have hlog' : x < (2 : ℚ) ^ (Int.log 2 x + 1) := by
      exact_mod_cast Int.lt_zpow_succ_log_self one_lt_two x
    obtain ⟨e, he⟩ : ∃ e : ℤ, e + F.fraction = Int.log 2 x := ⟨Int.log 2 x - F.fraction, by ring⟩
    have hue := two_zpow_pos e
    obtain ⟨n, hn⟩ := exists_nearestEven (div_nonneg hx.le hue.le)
    rw [← he] at hlog hlog'
    refine ⟨e, n, hlog, hlog', hn, ?_⟩
    obtain ⟨h3, h4⟩ := abs_le.mp hn.near
    rcases hunit e hlog with rfl | he'
    · have hq := (div_lt_iff₀ hu).mpr hbelow
      rw [hnormal]
      exact mul_lt_mul_of_pos_right (by linarith) hu
    · have hq : x / 2 ^ e < 2 ^ (F.fraction + 1) := by
        rw [div_lt_iff₀ hue, ← zpow_natCast_add]
        push_cast
        rwa [← add_assoc]
      have hn' : (n : ℚ) ≤ 2 ^ (F.fraction + 1) := by
        exact_mod_cast units_le ((div_lt_iff₀ hue).mp hq) hn
      calc (n : ℚ) * 2 ^ e ≤ 2 ^ (F.fraction + 1) * 2 ^ e := mul_le_mul_of_nonneg_right hn' hue.le
        _ = 2 ^ (e + F.fraction + 1) := by
          rw [← zpow_natCast_add]
          push_cast
          rw [← add_assoc]
        _ ≤ 2 ^ F.fraction * 2 ^ (F.least - 1) := hsmall e he'
        _ < F.normal := by
          rw [hnormal, pow_succ]
          nlinarith

theorem not_roundsBelowNormal (hx : F.normal ≤ x) : ¬ F.RoundsBelowNormal x := by
  rintro ⟨e, n, hlow, hhigh, hn, hbelow⟩
  rw [zpow_natCast_add] at hlow
  have hmin : ((2 ^ F.fraction : ℕ) : ℚ) ≤ n := Nat.cast_le.mpr (le_units hlow hn)
  have hlt : (2 : ℚ) ^ (F.least + F.fraction) < 2 ^ (e + F.fraction + 1) := hx.trans_lt hhigh
  have he := (zpow_lt_zpow_iff_right₀ (by norm_num : (1 : ℚ) < 2)).mp hlt
  have hle : (2 : ℚ) ^ F.least ≤ 2 ^ e := zpow_le_zpow_right₀ (by norm_num) (by omega)
  refine absurd hbelow (not_lt.mpr ?_)
  rw [normal_eq]
  push_cast at hmin
  exact mul_le_mul hmin hle (two_zpow_pos _).le (Nat.cast_nonneg n)

theorem rounds_zero : F.Rounds 0 0 := by
  have hinf : 0 < F.infinity := Nat.mul_pos (by have := F.top_ge; omega) (Nat.two_pow_pos _)
  have hzero : F.value 0 = 0 := by simp [value]
  have hone : (1 : ℚ) ≤ 2 ^ (F.fraction + 1) := one_le_pow₀ (by norm_num)
  refine .inr ⟨mul_pos (by linarith) (two_zpow_pos _), hinf, fun b' _ => ?_⟩
  rw [hzero, sub_self, abs_zero]
  refine ⟨abs_nonneg _, fun hne htie => absurd ?_ hne⟩
  rw [zero_sub, abs_neg] at htie
  exact abs_eq_zero.mp htie.symm

end Format

end Ipmitool.Lib.Rounding
