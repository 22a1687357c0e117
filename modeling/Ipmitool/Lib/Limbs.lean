import Mathlib.Data.Nat.Digits.Defs
import Mathlib.Tactic.Linarith
import Mathlib.Tactic.Ring

/-! # Numbers in limbs

A number in a base is the list of its limbs, the lowest first, with the value that `Nat.ofDigits`
gives it. `mulAdd` multiplies by a factor and adds, from the lowest limb on, and hands on what does
not fit; `divMod` divides from the highest limb on. `trimmed` is how many limbs there are without
zeros at the top. -/

namespace Ipmitool.Lib.Limbs

variable {base : ℕ}

/-- Every limb fits. -/
def Fit (base : ℕ) (limbs : List ℕ) : Prop := ∀ limb ∈ limbs, limb < base

/-! ### Multiplication -/

/-- The limbs times a factor, plus a carry: the same number of limbs, and a carry. -/
def mulAdd (base factor : ℕ) : List ℕ → ℕ → List ℕ × ℕ
  | [], carry => ([], carry)
  | limb :: limbs, carry =>
    let rest := mulAdd base factor limbs ((limb * factor + carry) / base)
    ((limb * factor + carry) % base :: rest.1, rest.2)

theorem length_mulAdd (base factor : ℕ) : ∀ (limbs : List ℕ) (carry : ℕ),
    (mulAdd base factor limbs carry).1.length = limbs.length
  | [], _ => rfl
  | _ :: limbs, _ => congrArg Nat.succ (length_mulAdd base factor limbs _)

theorem fit_mulAdd (hbase : 0 < base) (factor : ℕ) : ∀ (limbs : List ℕ) (carry : ℕ),
    Fit base (mulAdd base factor limbs carry).1
  | [], _ => List.forall_mem_nil _
  | _ :: limbs, _ => List.forall_mem_cons.mpr ⟨Nat.mod_lt _ hbase, fit_mulAdd hbase factor limbs _⟩

/-- **Multiplication**: the limbs and the carry above them are the product. -/
theorem value_mulAdd (base factor : ℕ) : ∀ (limbs : List ℕ) (carry : ℕ),
    Nat.ofDigits base (mulAdd base factor limbs carry).1 + base ^ limbs.length *
      (mulAdd base factor limbs carry).2 =
      Nat.ofDigits base limbs * factor + carry
  | [], carry => by simp [mulAdd]
  | limb :: limbs, carry => by
    have ih := value_mulAdd base factor limbs ((limb * factor + carry) / base)
    have hdiv := Nat.mod_add_div (limb * factor + carry) base
    simp only [mulAdd, Nat.ofDigits_cons, List.length_cons, pow_succ]
    calc _ = (limb * factor + carry) % base + base * (Nat.ofDigits base (mulAdd base factor limbs
            ((limb * factor + carry) / base)).1 + base ^ limbs.length *
            (mulAdd base factor limbs ((limb * factor + carry) / base)).2) := by ring
      _ = (limb * factor + carry) % base + base * ((limb * factor + carry) / base) +
            base * (Nat.ofDigits base limbs * factor) := by rw [ih]; ring
      _ = _ := by rw [hdiv]; ring

/-- What is handed on is less than the factor. -/
theorem carry_mulAdd {factor : ℕ} : ∀ {limbs : List ℕ} {carry : ℕ}, Fit base limbs →
    carry < factor →
    (mulAdd base factor limbs carry).2 < factor
  | [], _, _, h => h
  | limb :: limbs, carry, hfit, h => by
    obtain ⟨hlimb, hlimbs⟩ := List.forall_mem_cons.mp hfit
    rw [mulAdd]
    refine carry_mulAdd hlimbs (Nat.div_lt_of_lt_mul ?_)
    have hle : (limb + 1) * factor ≤ base * factor := Nat.mul_le_mul_right factor hlimb
    linarith

/-! ### Division -/

/-- The limbs divided by a divisor, and the remainder. -/
def divMod (base divisor : ℕ) : List ℕ → List ℕ × ℕ
  | [] => ([], 0)
  | limb :: limbs =>
    let rest := divMod base divisor limbs
    ((rest.2 * base + limb) / divisor :: rest.1, (rest.2 * base + limb) % divisor)

theorem remainder_lt {divisor : ℕ} (h : 0 < divisor) :
    ∀ limbs, (divMod base divisor limbs).2 < divisor
  | [] => h
  | _ :: _ => Nat.mod_lt _ h

theorem fit_divMod {divisor : ℕ} (h : 0 < divisor) : ∀ {limbs : List ℕ}, Fit base limbs →
    Fit base (divMod base divisor limbs).1
  | [], _ => List.forall_mem_nil _
  | limb :: limbs, hfit => by
    obtain ⟨hlimb, hlimbs⟩ := List.forall_mem_cons.mp hfit
    refine List.forall_mem_cons.mpr ⟨Nat.div_lt_of_lt_mul ?_, fit_divMod h hlimbs⟩
    have hle : ((divMod base divisor limbs).2 + 1) * base ≤ divisor * base :=
      Nat.mul_le_mul_right base (remainder_lt h limbs)
    linarith

/-- **Division**: quotient and remainder make up the number. -/
theorem value_divMod (base divisor : ℕ) : ∀ limbs,
    divisor * Nat.ofDigits base (divMod base divisor limbs).1 + (divMod base divisor limbs).2 =
      Nat.ofDigits base limbs
  | [] => by simp [divMod]
  | limb :: limbs => by
    have ih := value_divMod base divisor limbs
    have hdiv := Nat.div_add_mod ((divMod base divisor limbs).2 * base + limb) divisor
    simp only [divMod, Nat.ofDigits_cons]
    calc _ = divisor * (((divMod base divisor limbs).2 * base + limb) / divisor) +
            ((divMod base divisor limbs).2 * base + limb) % divisor +
            base * (divisor * Nat.ofDigits base (divMod base divisor limbs).1) := by ring
      _ = limb + base * (divisor * Nat.ofDigits base (divMod base divisor limbs).1 +
            (divMod base divisor limbs).2) := by rw [hdiv]; ring
      _ = _ := by rw [ih]

/-! ### Zeros at the top -/

/-- How many of the first limbs are left without zeros at the top; the lowest one stays. -/
def trimmed (limbs : List ℕ) : ℕ → ℕ
  | n + 2 => if limbs.getD (n + 1) 0 = 0 then trimmed limbs (n + 1) else n + 2
  | n => n

/-- The limbs without zeros at the top. -/
def trim (limbs : List ℕ) : List ℕ := limbs.take (trimmed limbs limbs.length)

theorem trimmed_le (limbs : List ℕ) : ∀ n, trimmed limbs n ≤ n
  | 0 => Nat.le_refl 0
  | 1 => Nat.le_refl 1
  | n + 2 => by
    rw [trimmed]
    split
    · exact (trimmed_le limbs (n + 1)).trans (Nat.le_succ _)
    · exact Nat.le_refl _

theorem fit_trim {limbs : List ℕ} (h : Fit base limbs) : Fit base (trim limbs) :=
  fun limb hmem => h limb (List.mem_of_mem_take hmem)

theorem value_trimmed (limbs : List ℕ) : ∀ n ≤ limbs.length,
    Nat.ofDigits base (limbs.take (trimmed limbs n)) = Nat.ofDigits base (limbs.take n)
  | 0, _ => rfl
  | 1, _ => rfl
  | n + 2, h => by
    rw [trimmed]
    split
    next hzero =>
      rw [value_trimmed limbs (n + 1) (by omega), List.take_add_one (i := n + 1),
        List.getElem?_eq_getElem (by omega)]
      rw [List.getD_eq_getElem?_getD, List.getElem?_eq_getElem (by omega),
        Option.getD_some] at hzero
      rw [hzero, Nat.ofDigits_append]
      simp
    · rfl

theorem value_trim (limbs : List ℕ) : Nat.ofDigits base (trim limbs) = Nat.ofDigits base limbs := by
  rw [trim, value_trimmed limbs _ (Nat.le_refl _), List.take_length]

/-- Above the lowest limb the top one is not zero. -/
theorem trimmed_top (limbs : List ℕ) : ∀ n, 2 ≤ trimmed limbs n →
    limbs.getD (trimmed limbs n - 1) 0 ≠ 0
  | 0, h => absurd h (Nat.not_succ_le_zero 1)
  | 1, h => absurd h (Nat.not_succ_le_self 1)
  | n + 2, h => by
    rw [trimmed] at h ⊢
    by_cases hzero : limbs.getD (n + 1) 0 = 0
    · rw [if_pos hzero] at h ⊢
      exact trimmed_top limbs (n + 1) h
    · rw [if_neg hzero]
      exact hzero

theorem length_trim (limbs : List ℕ) : (trim limbs).length = trimmed limbs limbs.length := by
  rw [trim, List.length_take, Nat.min_eq_left (trimmed_le limbs _)]

/-- There are no more limbs than the size of the number takes. -/
def Tight (base : ℕ) (limbs : List ℕ) : Prop :=
  2 ≤ limbs.length → base ^ (limbs.length - 1) ≤ Nat.ofDigits base limbs

theorem tight_trim (limbs : List ℕ) : Tight base (trim limbs) := by
  intro h
  rw [length_trim] at h
  have htop := trimmed_top limbs _ h
  have hlt : trimmed limbs limbs.length - 1 < (trim limbs).length := by rw [length_trim]; omega
  obtain ⟨init, top, hsplit⟩ : ∃ init top, trim limbs = init ++ [top] :=
    ⟨_, _, (List.dropLast_concat_getLast (List.ne_nil_of_length_pos (Nat.zero_lt_of_lt hlt))).symm⟩
  have hlength : init.length = trimmed limbs limbs.length - 1 := by
    have := length_trim limbs
    rw [hsplit, List.length_append, List.length_singleton] at this
    omega
  have hne : top ≠ 0 := by
    intro hzero
    refine htop ?_
    have hget : (trim limbs).getD init.length 0 = top := by rw [hsplit]; simp
    rw [trim, List.getD_eq_getElem?_getD, List.getElem?_take_of_lt (by omega),
      ← List.getD_eq_getElem?_getD, hlength] at hget
    rw [hget, hzero]
  rw [hsplit, List.length_append, List.length_singleton, Nat.add_sub_cancel, Nat.ofDigits_append,
    Nat.ofDigits_singleton]
  exact (Nat.le_mul_of_pos_right _ (Nat.pos_of_ne_zero hne)).trans (Nat.le_add_left _ _)

end Ipmitool.Lib.Limbs
