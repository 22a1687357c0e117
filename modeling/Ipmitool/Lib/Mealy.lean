import Mathlib.Data.List.Basic
import Mathlib.Tactic.Common

/-! # Machines that are fed one symbol at a time

A machine with states `σ` takes a symbol and gives a new state and an output. `after` and `outputs`
run it over a list of symbols; both take a list apart where it is appended. -/

namespace Ipmitool.Lib.Mealy

variable {σ ι ο : Type} (step : σ → ι → σ × ο)

/-- The state after a list of symbols. -/
def after (s : σ) : List ι → σ
  | [] => s
  | i :: is => after (step s i).1 is

/-- The outputs for a list of symbols. -/
def outputs (s : σ) : List ι → List ο
  | [] => []
  | i :: is => (step s i).2 :: outputs (step s i).1 is

@[simp] theorem after_nil (s : σ) : after step s [] = s := rfl

@[simp] theorem after_cons (s : σ) (i : ι) (is : List ι) :
    after step s (i :: is) = after step (step s i).1 is := rfl

@[simp] theorem outputs_nil (s : σ) : outputs step s [] = [] := rfl

@[simp] theorem outputs_cons (s : σ) (i : ι) (is : List ι) :
    outputs step s (i :: is) = (step s i).2 :: outputs step (step s i).1 is := rfl

theorem after_append (s : σ) (is js : List ι) :
    after step s (is ++ js) = after step (after step s is) js := by
  induction is generalizing s with
  | nil => rfl
  | cons i is ih => exact ih _

theorem outputs_append (s : σ) (is js : List ι) :
    outputs step s (is ++ js) = outputs step s is ++ outputs step (after step s is) js := by
  induction is generalizing s with
  | nil => rfl
  | cons i is ih =>
    rw [List.cons_append, outputs_cons, outputs_cons, after_cons, ih, List.cons_append]

/-- Symbols that change nothing and give the same output. -/
theorem run_idle {s : σ} {o : ο} (is : List ι) (h : ∀ i ∈ is, step s i = (s, o)) :
    after step s is = s ∧ outputs step s is = List.replicate is.length o := by
  induction is with
  | nil => exact ⟨rfl, rfl⟩
  | cons i is ih =>
    obtain ⟨hafter, hout⟩ := ih fun j hj => h j (List.mem_cons_of_mem _ hj)
    rw [after_cons, outputs_cons, h i List.mem_cons_self]
    exact ⟨hafter, by rw [hout]; rfl⟩

end Ipmitool.Lib.Mealy
