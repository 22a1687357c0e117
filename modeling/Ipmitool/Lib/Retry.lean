import Ipmitool.Lib.Machine

/-! # Loops that try again

A try fails, is made in vain, or ends the loop with a result. A loop that retries (`Retries`) goes
on after a try in vain as long as the limit allows another one, but after a failed try in any case.
`outcomes` are the outcomes of the first tries, whatever the loop makes of them.

* The last allowed try does not fail: no further try is made, and the last one made gives the result
  (`Retries.within`).
* The last allowed try fails: the loop goes beyond the limit (`Retries.beyond`). -/

namespace Ipmitool.Lib.Retry

open Ipmitool.Lib.Machine

variable {ε σ ρ : Type}

/-- How a try ends; a try in vain has a result as well, for the case that it is the last one. -/
inductive Outcome (ρ : Type) where
  | failed
  | vain (r : ρ)
  | done (r : ρ)
  deriving DecidableEq

/-- The outcomes of at most `k` tries, the first of them with the number `n`. -/
def outcomes (attempt : ℕ → Prog ε σ (Outcome ρ)) : ℕ → ℕ → σ → List (Outcome ρ)
  | 0, _, _ => []
  | k + 1, n, s =>
    match attempt n s with
    | .error _ => []
    | .ok (.done r, _) => [.done r]
    | .ok (o, t) => o :: outcomes attempt k (n + 1) t

/-- What is left of a loop after a try with the number `n`: `loop fuel n r` has made `n` tries and
returns `r` if it makes no other one. -/
def After (inv : ρ → σ → Prop) (limit : ℕ) (loop : ℕ → ℕ → ρ → Prog ε σ ρ) (fuel n : ℕ) (r : ρ)
    (t : σ) (r' : ρ) (s' : σ) : Outcome ρ → Prop
  | .failed => inv r t ∧ loop fuel (n + 1) r t = .ok (r', s')
  | .vain q =>
    if limit ≤ n + 1 then q = r' ∧ t = s' else inv q t ∧ loop fuel (n + 1) q t = .ok (r', s')
  | .done q => q = r' ∧ t = s'

/-- A loop that retries, on the states with the invariant. -/
structure Retries (inv : ρ → σ → Prop) (limit : ℕ) (attempt : ℕ → Prog ε σ (Outcome ρ))
    (loop : ℕ → ℕ → ρ → Prog ε σ ρ) : Prop where
  stop : ∀ {n : ℕ} {r r' : ρ} {s s' : σ}, loop 0 n r s = .ok (r', s') → s' = s
  step : ∀ {fuel n : ℕ} {r r' : ρ} {s s' : σ}, inv r s → loop (fuel + 1) n r s = .ok (r', s') →
    ∃ o t, attempt n s = .ok (o, t) ∧ After inv limit loop fuel n r t r' s' o

section
variable {attempt : ℕ → Prog ε σ (Outcome ρ)} {k n : ℕ} {s t : σ}

theorem outcomes_done {q : ρ} (h : attempt n s = .ok (.done q, t)) :
    outcomes attempt (k + 1) n s = [.done q] := by
  simp only [outcomes, h]

theorem outcomes_failed (h : attempt n s = .ok (.failed, t)) :
    outcomes attempt (k + 1) n s = .failed :: outcomes attempt k (n + 1) t := by
  simp only [outcomes, h]

theorem outcomes_vain {q : ρ} (h : attempt n s = .ok (.vain q, t)) :
    outcomes attempt (k + 1) n s = .vain q :: outcomes attempt k (n + 1) t := by
  simp only [outcomes, h]

theorem length_outcomes_le : ∀ (k n : ℕ) (s : σ), (outcomes attempt k n s).length ≤ k
  | 0, _, _ => Nat.le_refl _
  | k + 1, n, s => by
    rcases h : attempt n s with e | ⟨_ | q | q, t⟩
    · simp only [outcomes, h]
      exact Nat.zero_le _
    · rw [outcomes_failed h]
      exact Nat.succ_le_succ (length_outcomes_le k (n + 1) t)
    · rw [outcomes_vain h]
      exact Nat.succ_le_succ (length_outcomes_le k (n + 1) t)
    · rw [outcomes_done h]
      exact Nat.succ_le_succ (Nat.zero_le _)

end

section
variable {inv : ρ → σ → Prop} {limit : ℕ} {attempt : ℕ → Prog ε σ (Outcome ρ)}
variable {loop : ℕ → ℕ → ρ → Prog ε σ ρ} {count : σ → ℕ} {k fuel : ℕ} {r r' : ρ} {s s' : σ}

/-- **Within the limit.** The number of tries is the number of outcomes, and the last one gives the
result. -/
theorem Retries.within (h : Retries inv limit attempt loop)
    (hcount : ∀ n s o t, attempt n s = .ok (o, t) → count t = count s + 1) :
    ∀ {k fuel n : ℕ} {r r' : ρ} {s s' : σ}, n + (k + 1) = limit → k < fuel → inv r s →
      (outcomes attempt (k + 1) n s)[k]? ≠ some .failed → loop fuel n r s = .ok (r', s') →
      ∃ os o m u, outcomes attempt (k + 1) n s = os ++ [o] ∧ count s' = count s + (os.length + 1) ∧
        attempt m u = .ok (o, s') ∧ (o = .vain r' ∧ os.length = k ∨ o = .done r')
  | k, 0, n, r, r', s, s', _, hfuel, _, _, _ => absurd hfuel (Nat.not_lt_zero k)
  | k, fuel + 1, n, r, r', s, s', hlimit, hfuel, hinv, hlast, hl => by
    obtain ⟨o, t, hat, hafter⟩ := h.step hinv hl
    have hone := hcount n s _ t hat
    -- a try that is followed by another one
    have hrest : ∀ {k' : ℕ} {q : ρ}, k = k' + 1 → outcomes attempt (k + 1) n s =
        o :: outcomes attempt k (n + 1) t → inv q t → loop fuel (n + 1) q t = .ok (r', s') →
        ∃ os o m u, outcomes attempt (k + 1) n s = os ++ [o] ∧
          count s' = count s + (os.length + 1) ∧
          attempt m u = .ok (o, s') ∧ (o = .vain r' ∧ os.length = k ∨ o = .done r') := by
      intro k' q hk hos hq hl'
      subst hk
      rw [hos, List.getElem?_cons_succ] at hlast
      obtain ⟨os, o', m, u, hos', hc, hat', hend⟩ :=
        h.within hcount (by omega) (by omega) hq hlast hl'
      refine ⟨o :: os, o', m, u, by rw [hos, hos', List.cons_append], ?_, hat', ?_⟩
      · rw [hc, hone, List.length_cons]
        omega
      · rcases hend with ⟨hend, hlen⟩ | hend
        · exact .inl ⟨hend, by rw [List.length_cons, hlen]⟩
        · exact .inr hend
    cases o with
    | failed =>
      rcases k with _ | k
      · rw [outcomes_failed hat] at hlast
        exact absurd rfl hlast
      · exact hrest rfl (outcomes_failed hat) hafter.1 hafter.2
    | vain q =>
      rcases k with _ | k
      · obtain ⟨rfl, rfl⟩ : q = r' ∧ t = s' := by
          rwa [After, if_pos (by omega)] at hafter
        exact ⟨[], _, n, s, outcomes_vain hat, hone, hat, .inl ⟨rfl, rfl⟩⟩
      · rw [After, if_neg (by omega)] at hafter
        exact hrest rfl (outcomes_vain hat) hafter.1 hafter.2
    | done q =>
      obtain ⟨rfl, rfl⟩ := hafter
      exact ⟨[], _, n, s, outcomes_done hat, hone, hat, .inr rfl⟩

theorem Retries.one_more (h : Retries inv limit attempt loop)
    (hcount : ∀ n s o t, attempt n s = .ok (o, t) → count t = count s + 1) :
    ∀ {fuel n : ℕ} {r r' : ρ} {s s' : σ}, inv r s → loop fuel n r s = .ok (r', s') →
      count s ≤ count s' ∧ (0 < fuel → count s < count s')
  | 0, n, r, r', s, s', _, hl => by
    rw [h.stop hl]
    exact ⟨Nat.le_refl _, fun h0 => absurd h0 (Nat.lt_irrefl 0)⟩
  | fuel + 1, n, r, r', s, s', hinv, hl => by
    obtain ⟨o, t, hat, hafter⟩ := h.step hinv hl
    have hone := hcount n s _ t hat
    have hle : count t ≤ count s' := by
      cases o with
      | failed => exact (h.one_more hcount hafter.1 hafter.2).1
      | vain q =>
        by_cases hlim : limit ≤ n + 1
        · rw [After, if_pos hlim] at hafter
          exact Nat.le_of_eq (congrArg count hafter.2)
        · rw [After, if_neg hlim] at hafter
          exact (h.one_more hcount hafter.1 hafter.2).1
      | done q => exact Nat.le_of_eq (congrArg count hafter.2)
    exact ⟨by omega, fun _ => by omega⟩

/-- **Beyond the limit.** -/
theorem Retries.beyond (h : Retries inv limit attempt loop)
    (hcount : ∀ n s o t, attempt n s = .ok (o, t) → count t = count s + 1) :
    ∀ {k fuel n : ℕ} {r r' : ρ} {s s' : σ}, n + (k + 1) = limit → k + 1 < fuel → inv r s →
      (outcomes attempt (k + 1) n s)[k]? = some .failed → loop fuel n r s = .ok (r', s') →
      count s + limit < count s' + n
  | k, 0, n, r, r', s, s', _, hfuel, _, _, _ => absurd hfuel (Nat.not_lt_zero _)
  | k, fuel + 1, n, r, r', s, s', hlimit, hfuel, hinv, hlast, hl => by
    obtain ⟨o, t, hat, hafter⟩ := h.step hinv hl
    have hone := hcount n s _ t hat
    have hrest : ∀ {k' : ℕ} {q : ρ}, k = k' + 1 → outcomes attempt (k + 1) n s =
        o :: outcomes attempt k (n + 1) t → inv q t → loop fuel (n + 1) q t = .ok (r', s') →
        count s + limit < count s' + n := by
      intro k' q hk hos hq hl'
      subst hk
      rw [hos, List.getElem?_cons_succ] at hlast
      have := h.beyond hcount (by omega) (by omega) hq hlast hl'
      omega
    cases o with
    | failed =>
      rcases k with _ | k
      · have := (h.one_more hcount hafter.1 hafter.2).2 (by omega)
        omega
      · exact hrest rfl (outcomes_failed hat) hafter.1 hafter.2
    | vain q =>
      rcases k with _ | k
      · rw [outcomes_vain hat] at hlast
        cases hlast
      · rw [After, if_neg (by omega)] at hafter
        exact hrest rfl (outcomes_vain hat) hafter.1 hafter.2
    | done q =>
      rw [outcomes_done hat] at hlast
      rcases k with _ | k
      · cases hlast
      · cases hlast

/-- **The limit is kept** exactly if the last try that it allows does not fail. -/
theorem Retries.count_le_iff (h : Retries inv (k + 1) attempt loop)
    (hcount : ∀ n s o t, attempt n s = .ok (o, t) → count t = count s + 1) (hfuel : k + 1 < fuel)
    (hinv : inv r s) (hl : loop fuel 0 r s = .ok (r', s')) :
    count s' ≤ count s + (k + 1) ↔ (outcomes attempt (k + 1) 0 s)[k]? ≠ some .failed := by
  constructor
  · intro hle hlast
    have := h.beyond hcount (by omega) hfuel hinv hlast hl
    omega
  · intro hlast
    obtain ⟨os, o, m, u, hos, hc, -⟩ := h.within hcount (by omega) (by omega) hinv hlast hl
    have hlen : (outcomes attempt (k + 1) 0 s).length ≤ k + 1 := length_outcomes_le (k + 1) 0 s
    rw [hos, List.length_append, List.length_singleton] at hlen
    omega

end

end Ipmitool.Lib.Retry
