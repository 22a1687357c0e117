import Mathlib.Data.List.Basic
import Mathlib.Tactic.Common

/-! # Flat memory

A memory is a function from addresses to cells. `read` copies a run of cells out, `write` stores a
list of cells at an address and leaves every other cell alone, `move` copies a run of cells inside
one memory. The lemmas say what a read sees after a write, in the three cases that occur: the cell
is inside the written run, outside it, or a whole run is read back. -/

namespace Ipmitool.Lib.Mem

variable {α : Type*}

/-- A memory of cells `α`. -/
abbrev Memory (α : Type*) := ℕ → α

/-- The `n` cells from `off` on. -/
def read (m : Memory α) (off n : ℕ) : List α := (List.range n).map fun i => m (off + i)

/-- Store the list `l` from `off` on. -/
def write (m : Memory α) (off : ℕ) (l : List α) : Memory α := fun i =>
  if off ≤ i then (l[i - off]?).getD (m i) else m i

/-- Copy the `n` cells from `src` on to `dst`. -/
def move (m : Memory α) (dst src n : ℕ) : Memory α := write m dst (read m src n)

@[simp] theorem length_read (m : Memory α) (off n : ℕ) : (read m off n).length = n := by simp [read]

theorem getElem_read (m : Memory α) (off n : ℕ) {i : ℕ} (h : i < (read m off n).length) :
    (read m off n)[i] = m (off + i) := by simp [read]

theorem write_inside (m : Memory α) (off : ℕ) (l : List α) {i : ℕ} (h : i < l.length) :
    write m off l (off + i) = l[i] := by
  simp [write, List.getElem?_eq_getElem h]

theorem write_below (m : Memory α) {off : ℕ} (l : List α) {i : ℕ} (h : i < off) :
    write m off l i = m i := by
  simp [write, Nat.not_le.mpr h]

theorem write_above (m : Memory α) {off : ℕ} (l : List α) {i : ℕ} (h : off + l.length ≤ i) :
    write m off l i = m i := by
  unfold write
  split_ifs with h1
  · rw [List.getElem?_eq_none (by omega), Option.getD_none]
  · rfl

theorem read_write (m : Memory α) (off : ℕ) (l : List α) :
    read (write m off l) off l.length = l := by
  refine List.ext_getElem (by simp) fun i h1 h2 => ?_
  rw [getElem_read, write_inside m off l h2]

/-- Two runs of cells that agree give equal lists. -/
theorem read_eq_read {m m' : Memory α} {off off' n : ℕ} (h : ∀ i < n, m (off + i) = m' (off' + i)) :
    read m off n = read m' off' n := by
  refine List.ext_getElem (by simp) fun i h1 _ => ?_
  rw [getElem_read, getElem_read, h i (by simpa using h1)]

/-- A read of cells that agree gives equal lists. -/
theorem read_congr {m m' : Memory α} {off n : ℕ} (h : ∀ i < n, m (off + i) = m' (off + i)) :
    read m off n = read m' off n := read_eq_read h

theorem read_add (m : Memory α) (off a b : ℕ) :
    read m off (a + b) = read m off a ++ read m (off + a) b := by
  unfold read
  rw [List.range_add, List.map_append, List.map_map]
  congr 1
  refine List.map_congr_left fun i _ => ?_
  simp [Nat.add_assoc]

/-- A memory that holds `l` at `off`: every cell of `l` is in its place. -/
def Holds (m : Memory α) (off : ℕ) (l : List α) : Prop := read m off l.length = l

theorem holds_write (m : Memory α) (off : ℕ) (l : List α) : Holds (write m off l) off l :=
  read_write m off l

theorem Holds.getElem {m : Memory α} {off : ℕ} {l : List α} (h : Holds m off l) {i : ℕ}
    (hi : i < l.length) : m (off + i) = l[i] := by
  have h1 : (read m off l.length)[i]? = l[i]? := by rw [h]
  rw [List.getElem?_eq_getElem (by simpa using hi), List.getElem?_eq_getElem hi, getElem_read] at h1
  exact Option.some.inj h1

theorem holds_append {m : Memory α} {off : ℕ} {l l' : List α} :
    Holds m off (l ++ l') ↔ Holds m off l ∧ Holds m (off + l.length) l' := by
  unfold Holds
  rw [List.length_append, read_add]
  constructor
  · intro h
    exact List.append_inj h (by simp)
  · rintro ⟨h1, h2⟩
    rw [h1, h2]

@[simp] theorem holds_nil (m : Memory α) (off : ℕ) : Holds m off [] := rfl

theorem holds_cons {m : Memory α} {off : ℕ} {a : α} {l : List α} :
    Holds m off (a :: l) ↔ m off = a ∧ Holds m (off + 1) l := by
  have h1 : Holds m off [a] ↔ m off = a := by simp [Holds, read]
  rw [← List.singleton_append, holds_append, h1, List.length_singleton]

/-- A write behind a run leaves it alone. -/
theorem Holds.write_behind {m : Memory α} {off : ℕ} {l : List α} (h : Holds m off l) {off' : ℕ}
    (hle : off + l.length ≤ off') (xs : List α) : Holds (write m off' xs) off l := by
  refine Eq.trans (read_congr fun i hi => ?_) h
  exact write_below m xs (by omega)

/-- A write in front of a run leaves it alone. -/
theorem Holds.write_before {m : Memory α} {off : ℕ} {l : List α} (h : Holds m off l) {off' : ℕ}
    {xs : List α} (hle : off' + xs.length ≤ off) : Holds (write m off' xs) off l := by
  refine Eq.trans (read_congr fun i _ => ?_) h
  exact write_above m xs (by omega)

end Ipmitool.Lib.Mem
