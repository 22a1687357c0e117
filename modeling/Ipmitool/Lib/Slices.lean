import Mathlib.Data.List.Basic
import Mathlib.Tactic.Common

/-! # Reads with bounds

A read of one element or of a run of elements of a list, that fails if it leaves the list. A parser
that moves an offset through a list reads what is behind the offset: with `data.drop offset` for
that, `get_add` and `slice_add` turn its reads into reads at fixed places of what is left, where
they compute. -/

namespace Ipmitool.Lib.Slices

/-- A read outside of the list. -/
inductive Fault where
  | range
  deriving DecidableEq

variable {α β : Type}

/-- One element. -/
def get (data : List α) (i : ℕ) : Except Fault α := (data[i]?).elim (.error .range) .ok

/-- A run of elements. -/
def slice (data : List α) (start n : ℕ) : Except Fault (List α) :=
  if start + n ≤ data.length then .ok ((data.drop start).take n) else .error .range

@[simp] theorem get_zero (a : α) (l : List α) : get (a :: l) 0 = .ok a := rfl

@[simp] theorem get_succ (a : α) (l : List α) (i : ℕ) : get (a :: l) (i + 1) = get l i := rfl

theorem get_eq_ok {data : List α} {i : ℕ} (h : i < data.length) : get data i = .ok data[i] := by
  rw [get, List.getElem?_eq_getElem h]
  rfl

theorem get_add {data l : List α} {offset : ℕ} (h : data.drop offset = l) (i : ℕ) :
    get data (offset + i) = get l i := by
  rw [get, get, ← h, List.getElem?_drop]

theorem slice_eq_ok {data : List α} {start n : ℕ} (h : start + n ≤ data.length) :
    slice data start n = .ok ((data.drop start).take n) := if_pos h

theorem slice_add {data l : List α} {offset : ℕ} (h : data.drop offset = l) {i n : ℕ}
    (hle : i + n ≤ l.length) (hoff : offset ≤ data.length) :
    slice data (offset + i) n = .ok ((l.drop i).take n) := by
  have hlen : data.length - offset = l.length := by rw [← h, List.length_drop]
  rw [slice_eq_ok (by omega), ← h, List.drop_drop]

/-- What is left is not more than the list. -/
theorem le_length_of_drop {data l : List α} {offset : ℕ} (h : data.drop offset = l) (hl : l ≠ []) :
    offset + l.length = data.length := by
  have hpos := List.length_pos_of_ne_nil hl
  have hlen : data.length - offset = l.length := by rw [← h, List.length_drop]
  omega

/-- What is left behind a part. -/
theorem drop_of_append {data l rest : List α} {offset : ℕ} (h : data.drop offset = l ++ rest) :
    data.drop (offset + l.length) = rest := by
  rw [← List.drop_drop, h, List.drop_left]

theorem ok_bind (a : α) (f : α → Except Fault β) : (Except.ok a >>= f) = f a := rfl

end Ipmitool.Lib.Slices
