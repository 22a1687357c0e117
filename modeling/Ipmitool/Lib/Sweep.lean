import Mathlib.Algebra.Order.Ring.Int
import Mathlib.Data.Nat.Find

/-! # Counting up to the first failure

A counter starts at a number and goes up by one as long as a test is passed; a counter that is not
open stays at its number. `Passed` are the values that pass, and `Swept` says how many they are, so
that they are `values` of the start and their number.

* `exists_swept`: an open counter that fails somewhere passes a number of times.
* `passed_iff`: the values that pass are the listed ones. -/

namespace Ipmitool.Lib.Sweep

variable {isOpen : Bool} {start : ℤ} {ok : ℤ → Bool} {n : ℕ}

/-- The values that a counter passes. -/
def Passed (isOpen : Bool) (start : ℤ) (ok : ℤ → Bool) (v : ℤ) : Prop :=
  if isOpen then start ≤ v ∧ ∀ u, start ≤ u → u ≤ v → ok u = true else v = start ∧ ok v = true

/-- How often a counter passes. -/
structure Swept (isOpen : Bool) (start : ℤ) (ok : ℤ → Bool) (n : ℕ) : Prop where
  pass : ∀ k < n, ok (start + k) = true
  stop : isOpen = true ∨ n = 0 → ok (start + n) = false
  single : isOpen = false → n ≤ 1

/-- The numbers from a start. -/
def values (start : ℤ) (n : ℕ) : List ℤ := (List.range n).map fun k : ℕ => start + k

theorem mem_values {v : ℤ} : v ∈ values start n ↔ start ≤ v ∧ v < start + n := by
  unfold values
  rw [List.mem_map]
  constructor
  · rintro ⟨k, hk, rfl⟩
    have := List.mem_range.mp hk
    omega
  · rintro ⟨hle, hlt⟩
    exact ⟨(v - start).toNat, List.mem_range.mpr (by omega), by omega⟩

theorem values_succ (start : ℤ) (n : ℕ) : values start (n + 1) = start :: values (start + 1) n := by
  unfold values
  rw [List.range_succ_eq_map, List.map_cons, List.map_map]
  refine congr_arg₂ _ (by simp) (List.map_congr_left fun k _ => ?_)
  dsimp only [Function.comp]
  omega

theorem values_pairwise (start : ℤ) (n : ℕ) : (values start n).Pairwise (· < ·) := by
  unfold values
  refine List.Pairwise.map _ (fun a b h => ?_) List.pairwise_lt_range
  omega

theorem Swept.next (h : Swept true start ok (n + 1)) : Swept true (start + 1) ok n where
  pass k hk := by
    have := h.pass (k + 1) (by omega)
    rwa [show start + ((k + 1 : ℕ) : ℤ) = start + 1 + k by omega] at this
  stop _ := by
    have := h.stop (.inl rfl)
    rwa [show start + ((n + 1 : ℕ) : ℤ) = start + 1 + n by omega] at this
  single h := absurd h (by decide)

theorem Swept.pos_iff (h : Swept isOpen start ok n) : 0 < n ↔ ok start = true := by
  constructor
  · intro hpos
    have := h.pass 0 hpos
    simpa using this
  · intro hok
    by_contra hn
    obtain rfl : n = 0 := by omega
    have := h.stop (.inr rfl)
    simp [hok] at this

/-- **The values that pass are the listed ones.** -/
theorem passed_iff (h : Swept isOpen start ok n) (v : ℤ) : Passed isOpen start ok v ↔
    v ∈ values start n := by
  rw [mem_values]
  unfold Passed
  rcases isOpen with _ | _
  · have hle := h.single rfl
    rw [if_neg Bool.false_ne_true]
    constructor
    · rintro ⟨rfl, hok⟩
      have hn : n ≠ 0 := by
        rintro rfl
        have := h.stop (.inr rfl)
        rw [Nat.cast_zero, add_zero, hok] at this
        cases this
      omega
    · rintro ⟨hle', hlt⟩
      obtain rfl : v = start := by omega
      have := h.pass 0 (by omega)
      rw [Nat.cast_zero, add_zero] at this
      exact ⟨rfl, this⟩
  · rw [if_pos rfl]
    have hstop := h.stop (.inl rfl)
    constructor
    · rintro ⟨hle, hall⟩
      refine ⟨hle, ?_⟩
      by_contra hge
      rw [hall (start + n) (by omega) (by omega)] at hstop
      cases hstop
    · rintro ⟨hle, hlt⟩
      refine ⟨hle, fun u hu huv => ?_⟩
      have := h.pass (u - start).toNat (by omega)
      rwa [show start + ((u - start).toNat : ℤ) = u by omega] at this

theorem exists_swept_fixed (start : ℤ) (ok : ℤ → Bool) : ∃ n, Swept false start ok n := by
  by_cases hok : ok start = true
  · refine ⟨1, fun k hk => ?_, fun h => ?_, fun _ => le_rfl⟩
    · obtain rfl : k = 0 := by omega
      simpa using hok
    · rcases h with h | h <;> cases h
  · refine ⟨0, fun k hk => absurd hk (Nat.not_lt_zero k), fun _ => ?_, fun _ => Nat.zero_le 1⟩
    simpa using hok

/-- **An open counter** fails for the first time, at the latest where it is known to fail. -/
theorem exists_swept {last : ℤ} (hle : start ≤ last) (hfail : ok last = false) :
    ∃ n : ℕ, Swept true start ok n ∧ start + n ≤ last := by
  have hex : ∃ k : ℕ, ok (start + k) = false :=
    ⟨(last - start).toNat, by rwa [show start + ((last - start).toNat : ℤ) = last by omega]⟩
  refine ⟨Nat.find hex, ⟨fun k hk => ?_, fun _ => Nat.find_spec hex, fun h => absurd h (by decide)⟩,
    ?_⟩
  · have := Nat.find_min hex hk
    simpa using this
  · have hmin : Nat.find hex ≤ (last - start).toNat :=
      Nat.find_min' hex (by rwa [show start + ((last - start).toNat : ℤ) = last by omega])
    omega

end Ipmitool.Lib.Sweep
