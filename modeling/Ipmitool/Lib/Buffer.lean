import Ipmitool.Lib.Machine

/-! # Buffers of a fixed size

A buffer is a list of cells whose length is the size that was allocated. `store` and `load` reach a
run of cells and stop with a fault if one of them is outside; `resize` is a reallocation, whose new
cells hold anything.

A cursor writes a buffer from `base` on, one run behind the other, and remembers how much it has
written. A closing cell (a checksum, say) is computed from the cells behind an offset that was
marked earlier (`Cursor.close`).

* `store_at`: a store replaces the run it covers.
* `Emits e p t b xs`: behind the cells `t` that are already written, the program `p` appends `xs`
  and returns `b` if `xs` fits, and stops with the fault `e` if it does not. The rules take a
  program apart into its steps (`Emits.bind`). -/

namespace Ipmitool.Lib.Buffer

open Ipmitool.Lib.Machine

variable {ε α β γ : Type}

/-! ### Runs of cells -/

/-- Store `xs` from `off` on. -/
def store (e : ε) (cells : List α) (off : ℕ) (xs : List α) : Except ε (List α) :=
  if off + xs.length ≤ cells.length then
    .ok (cells.take off ++ xs ++ cells.drop (off + xs.length))
  else .error e

/-- The `n` cells from `off` on. -/
def load (e : ε) (cells : List α) (off n : ℕ) : Except ε (List α) :=
  if off + n ≤ cells.length then .ok ((cells.drop off).take n) else .error e

/-- The buffer with `n` cells; those that are new are not initialised. -/
def resize (cells : List α) (n : ℕ) (junk : ℕ → α) : List α :=
  cells.take n ++ (List.range (n - cells.length)).map junk

/-- A store replaces the run it covers. -/
theorem store_at (e : ε) (a b : List α) {ys zs : List α} (h : zs.length = ys.length) :
    store e (a ++ zs ++ b) a.length ys = .ok (a ++ ys ++ b) := by
  have hfit : a.length + ys.length ≤ (a ++ zs ++ b).length := by simp [h]
  have hdrop : (a ++ zs ++ b).drop (a.length + ys.length) = b := by
    rw [← h, ← List.length_append, List.drop_left]
  have htake : (a ++ zs ++ b).take a.length = a := by rw [List.append_assoc, List.take_left]
  rw [store, if_pos hfit, hdrop, htake]

theorem store_behind (e : ε) (a : List α) {ys rest : List α} (h : ys.length ≤ rest.length) :
    store e (a ++ rest) a.length ys = .ok (a ++ ys ++ rest.drop ys.length) := by
  have hsplit : a ++ rest = a ++ rest.take ys.length ++ rest.drop ys.length := by
    rw [List.append_assoc, List.take_append_drop]
  rw [hsplit, store_at e a _ (by rw [List.length_take]; omega)]

theorem store_store (e : ε) (cells : List α) (off : ℕ) (xs ys : List α) :
    (store e cells off xs >>= fun c => store e c (off + xs.length) ys) =
      store e cells off (xs ++ ys) := by
  by_cases hx : off + xs.length ≤ cells.length
  · obtain ⟨a, rest, rfl, rfl⟩ : ∃ a rest, cells = a ++ rest ∧ off = a.length :=
      ⟨cells.take off, cells.drop off, (List.take_append_drop off cells).symm,
        (List.length_take_of_le (by omega)).symm⟩
    rw [store_behind e a (by rw [List.length_append] at hx; omega)]
    show store e _ _ _ = _
    rw [← List.length_append]
    by_cases hy : ys.length ≤ (rest.drop xs.length).length
    · have hboth : (xs ++ ys).length ≤ rest.length := by
        simp only [List.length_append, List.length_drop] at hx hy ⊢
        omega
      rw [store_behind e (a ++ xs) hy, store_behind e a hboth]
      simp only [List.append_assoc, List.drop_drop, List.length_append]
    · have h1 : ¬ (a ++ xs).length + ys.length ≤ (a ++ xs ++ rest.drop xs.length).length := by
        simp only [List.length_append] at hy ⊢
        omega
      have h2 : ¬ a.length + (xs ++ ys).length ≤ (a ++ rest).length := by
        simp only [List.length_append, List.length_drop] at hx hy ⊢
        omega
      rw [store, if_neg h1, store, if_neg h2]
  · have hboth : ¬ off + (xs ++ ys).length ≤ cells.length := by
      rw [List.length_append]
      omega
    rw [store, if_neg hx, store, if_neg hboth]
    rfl

theorem load_at (e : ε) (a xs b : List α) :
    load e (a ++ xs ++ b) a.length xs.length = .ok xs := by
  rw [load, if_pos (by simp), List.append_assoc, List.drop_left, List.take_left]

/-- What lies inside both the old and the new size survives. -/
theorem resize_append (a b : List α) {n : ℕ} (h : a.length ≤ n) (junk : ℕ → α) :
    ∃ b', resize (a ++ b) n junk = a ++ b' ∧ b'.length = n - a.length := by
  refine ⟨b.take (n - a.length) ++ (List.range (n - (a ++ b).length)).map junk, ?_, ?_⟩
  · rw [resize, List.take_append, List.take_of_length_le h, List.append_assoc]
  · simp only [List.length_append, List.length_take, List.length_map, List.length_range]
    omega

/-! ### Cursors -/

/-- A cursor in a buffer: `len` cells are written from `base` on. -/
structure Cursor (α : Type) where
  cells : List α
  base : ℕ
  len : ℕ

namespace Cursor

/-- What has been written. -/
def text (w : Cursor α) : List α := (w.cells.drop w.base).take w.len

/-- Append a run of cells. -/
def puts (e : ε) (xs : List α) : Prog ε (Cursor α) Unit := do
  let w ← get
  let cells ← liftM (store e w.cells (w.base + w.len) xs)
  set { w with cells, len := w.len + xs.length }

/-- Append one cell. -/
def put (e : ε) (x : α) : Prog ε (Cursor α) Unit := puts e [x]

/-- The offset of the cell that is written next. -/
def mark : Prog ε (Cursor α) ℕ := do
  let w ← get
  return w.len

/-- Append a cell computed from those behind the offset `cs`. -/
def close (e : ε) (c : List α → α) (cs : ℕ) : Prog ε (Cursor α) Unit := do
  let w ← get
  put e (c (w.text.drop cs))

/-- Overwrite cells at an offset. -/
def patch (e : ε) (off : ℕ) (xs : List α) : Prog ε (Cursor α) Unit := do
  let w ← get
  let cells ← liftM (store e w.cells (w.base + off) xs)
  set { w with cells }

/-- Read cells back. -/
def peek (e : ε) (off n : ℕ) : Prog ε (Cursor α) (List α) := do
  let w ← get
  liftM (load e w.cells (w.base + off) n)

/-- One cell. -/
def cell (e : ε) (off : ℕ) : Prog ε (Cursor α) α := do
  let w ← get
  match w.cells[w.base + off]? with
  | some x => return x
  | none => throw e

theorem peek_ok {e : ε} {w : Cursor α} {off n : ℕ} {xs : List α}
    (h : load e w.cells (w.base + off) n = .ok xs) : peek e off n w = .ok (xs, w) :=
  bind_ok.mpr ⟨w, w, rfl, lift_ok.mpr ⟨h, rfl⟩⟩

theorem patch_ok {e : ε} {w : Cursor α} {off : ℕ} {xs cells : List α}
    (h : store e w.cells (w.base + off) xs = .ok cells) :
    patch e off xs w = .ok ((), { w with cells }) :=
  bind_ok.mpr ⟨w, w, rfl, bind_ok.mpr ⟨cells, w, lift_ok.mpr ⟨h, rfl⟩, rfl⟩⟩

end Cursor

/-- **What a program appends**: behind `t`, with `a` below the base. -/
def Emits (e : ε) (p : Prog ε (Cursor α) β) (t : List α) (b : β) (xs : List α) : Prop :=
  ∀ a rest : List α, p ⟨a ++ t ++ rest, a.length, t.length⟩ =
    if xs.length ≤ rest.length then
      .ok (b, ⟨a ++ (t ++ xs) ++ rest.drop xs.length, a.length, (t ++ xs).length⟩)
    else .error e

section Emits
variable {e : ε} {p : Prog ε (Cursor α) β} {q : β → Prog ε (Cursor α) γ} {t xs ys : List α}
  {b : β} {c : γ}

@[simp] theorem text_cursor (a t rest : List α) :
    (⟨a ++ t ++ rest, a.length, t.length⟩ : Cursor α).text = t := by
  rw [Cursor.text, List.append_assoc, List.drop_left, List.take_left]

theorem emits_pure (b : β) : Emits e (pure b : Prog ε (Cursor α) β) t b [] := by
  intro a rest
  rw [List.length_nil, if_pos (Nat.zero_le _), List.append_nil]
  rfl

theorem emits_puts (xs : List α) : Emits e (Cursor.puts e xs) t () xs := by
  intro a rest
  have hoff : a.length + t.length = (a ++ t).length := by rw [List.length_append]
  have hrun : Cursor.puts e xs ⟨a ++ t ++ rest, a.length, t.length⟩ =
      (store e (a ++ t ++ rest) (a.length + t.length) xs).map
        fun cells => ((), ⟨cells, a.length, t.length + xs.length⟩) := by
    show ((StateT.lift (store e (a ++ t ++ rest) (a.length + t.length) xs) : Prog ε
        (Cursor α) _) >>=
      fun cells => set (⟨cells, a.length, t.length + xs.length⟩ : Cursor α))
        ⟨a ++ t ++ rest, a.length, t.length⟩ = _
    rcases store e (a ++ t ++ rest) (a.length + t.length) xs with f | cells
    · rfl
    · rfl
  rw [hrun, hoff]
  by_cases hfit : xs.length ≤ rest.length
  · rw [if_pos hfit, store_behind e (a ++ t) hfit]
    simp only [Except.map, List.append_assoc, List.length_append]
  · have hno : ¬ (a ++ t).length + xs.length ≤ (a ++ t ++ rest).length := by
      simp only [List.length_append]
      omega
    rw [if_neg hfit, store, if_neg hno]
    rfl

theorem emits_put (x : α) : Emits e (Cursor.put e x) t () [x] := emits_puts [x]

theorem emits_mark : Emits e Cursor.mark t t.length [] := by
  intro a rest
  rw [List.length_nil, if_pos (Nat.zero_le _), List.append_nil]
  rfl

/-- The closing cell is computed from what was written since the mark. -/
theorem emits_close (f : List α → α) (t xs : List α) {u : List α} (hu : u = t ++ xs) :
    Emits e (Cursor.close e f t.length) u () [f xs] := by
  subst hu
  intro a rest
  have hrun : Cursor.close e f t.length ⟨a ++ (t ++ xs) ++ rest, a.length, (t ++ xs).length⟩ =
      Cursor.put e (f xs) ⟨a ++ (t ++ xs) ++ rest, a.length, (t ++ xs).length⟩ := by
    have htext := text_cursor a (t ++ xs) rest
    have hdrop : (t ++ xs).drop t.length = xs := List.drop_left
    show Cursor.put e (f ((Cursor.text _).drop t.length)) _ = _
    rw [htext, hdrop]
  rw [hrun]
  exact emits_put (f xs) a rest

theorem Emits.bind (hp : Emits e p t b xs) (hq : Emits e (q b) (t ++ xs) c ys) :
    Emits e (p >>= q) t c (xs ++ ys) := by
  intro a rest
  have hrun : (p >>= q) ⟨a ++ t ++ rest, a.length, t.length⟩ =
      (p ⟨a ++ t ++ rest, a.length, t.length⟩).bind fun r => q r.1 r.2 := rfl
  rw [hrun, hp a rest]
  by_cases hx : xs.length ≤ rest.length
  · rw [if_pos hx]
    show q b ⟨a ++ (t ++ xs) ++ rest.drop xs.length, a.length, (t ++ xs).length⟩ = _
    rw [hq a (rest.drop xs.length)]
    have hiff : ys.length ≤ (rest.drop xs.length).length ↔ (xs ++ ys).length ≤ rest.length := by
      rw [List.length_drop, List.length_append]
      omega
    simp only [hiff, List.drop_drop, List.length_append, List.append_assoc]
  · have hno : ¬ (xs ++ ys).length ≤ rest.length := by
      rw [List.length_append]
      omega
    rw [if_neg hx, if_neg hno]
    rfl

/-- The same program appends the same cells. -/
theorem Emits.of_eq (h : Emits e p t b xs) (hxs : xs = ys) : Emits e p t b ys := hxs ▸ h

/-- The same program returns the same value. -/
theorem Emits.of_value {b' : β} (h : Emits e p t b xs) (hb : b = b') : Emits e p t b' xs := hb ▸ h

/-- A program that appends cells for which there is room. -/
theorem Emits.run (h : Emits e p [] b xs) (a rest : List α)
    (hfit : xs.length ≤ rest.length) :
    p ⟨a ++ rest, a.length, 0⟩ =
      .ok (b, ⟨a ++ xs ++ rest.drop xs.length, a.length, xs.length⟩) := by
  have hrun := h a rest
  rw [if_pos hfit] at hrun
  simpa using hrun

end Emits

/-! ### Patches

A program that also overwrites what it has written: `Writes` says what the whole text becomes. -/

/-- **What a program makes of the text** `t`, if there is room behind it. -/
def Writes (p : Prog ε (Cursor α) β) (t : List α) (b : β) (u : List α) : Prop :=
  t.length ≤ u.length ∧ ∀ a rest : List α, u.length ≤ t.length + rest.length →
    p ⟨a ++ t ++ rest, a.length, t.length⟩ =
      .ok (b, ⟨a ++ u ++ rest.drop (u.length - t.length), a.length, u.length⟩)

section Writes
variable {e : ε} {p : Prog ε (Cursor α) β} {q : β → Prog ε (Cursor α) γ} {t u v xs : List α}
  {b : β} {c : γ}

theorem Emits.writes (h : Emits e p t b xs) : Writes p t b (t ++ xs) := by
  have hlen : (t ++ xs).length = t.length + xs.length := List.length_append
  refine ⟨by omega, fun a rest hfit => ?_⟩
  have hroom : xs.length ≤ rest.length := by omega
  have hdrop : (t ++ xs).length - t.length = xs.length := by omega
  rw [h a rest, if_pos hroom, hdrop]

theorem Writes.bind (hp : Writes p t b u) (hq : Writes (q b) u c v) : Writes (p >>= q) t c v := by
  obtain ⟨htu, hp⟩ := hp
  obtain ⟨huv, hq⟩ := hq
  refine ⟨by omega, fun a rest hfit => ?_⟩
  have hleft : v.length ≤ u.length + (rest.drop (u.length - t.length)).length := by
    rw [List.length_drop]
    omega
  have hdrop : u.length - t.length + (v.length - u.length) = v.length - t.length := by omega
  rw [bind_run (hp a rest (by omega)), hq a _ hleft, List.drop_drop, hdrop]

theorem writes_pure (b : β) : Writes (pure b : Prog ε (Cursor α) β) t b t := by
  refine ⟨Nat.le_refl _, fun a rest _ => ?_⟩
  rw [Nat.sub_self, List.drop_zero]
  rfl

theorem writes_mark : Writes (Cursor.mark : Prog ε (Cursor α) ℕ) t t.length t := by
  refine ⟨Nat.le_refl _, fun a rest _ => ?_⟩
  rw [Nat.sub_self, List.drop_zero]
  rfl

theorem writes_patch (x : List α) {ys zs : List α} (y : List α) (h : zs.length = ys.length) :
    Writes (Cursor.patch e x.length ys) (x ++ zs ++ y) () (x ++ ys ++ y) := by
  have hlen : (x ++ ys ++ y).length = (x ++ zs ++ y).length := by simp [h]
  refine ⟨Nat.le_of_eq hlen.symm, fun a rest _ => ?_⟩
  have hstore := store_at e (a ++ x) (y ++ rest) h
  rw [List.length_append] at hstore
  have hcells : a ++ (x ++ zs ++ y) ++ rest = a ++ x ++ zs ++ (y ++ rest) := by
    simp only [List.append_assoc]
  rw [hlen, Nat.sub_self, List.drop_zero]
  have hpatched : store e (a ++ (x ++ zs ++ y) ++ rest) (a.length + x.length) ys =
      .ok (a ++ x ++ ys ++ (y ++ rest)) := by
    rw [hcells, hstore]
  refine (Cursor.patch_ok hpatched).trans ?_
  simp only [List.append_assoc]

theorem writes_cell {x : α} {off : ℕ} (h : t[off]? = some x) :
    Writes (Cursor.cell e off) t x t := by
  refine ⟨Nat.le_refl _, fun a rest _ => ?_⟩
  obtain ⟨hlt, hx⟩ := List.getElem?_eq_some_iff.mp h
  have hcell : (a ++ t ++ rest)[a.length + off]? = some x := by
    rw [List.append_assoc, List.getElem?_append_right (Nat.le_add_right _ _),
      Nat.add_sub_cancel_left, List.getElem?_append_left hlt, h]
  rw [Nat.sub_self, List.drop_zero]
  have hrun : Cursor.cell e off ⟨a ++ t ++ rest, a.length, t.length⟩ =
      (match (a ++ t ++ rest)[a.length + off]? with
        | some x => pure x
        | none => throw e : Prog ε (Cursor α) α) ⟨a ++ t ++ rest, a.length, t.length⟩ := rfl
  rw [hrun, hcell]
  rfl

theorem writes_peek (x y z : List α) :
    Writes (Cursor.peek e x.length y.length) (x ++ y ++ z) y (x ++ y ++ z) := by
  refine ⟨Nat.le_refl _, fun a rest _ => ?_⟩
  have hload := load_at e (a ++ x) y (z ++ rest)
  have hcells : a ++ (x ++ y ++ z) ++ rest = a ++ x ++ y ++ (z ++ rest) := by
    simp only [List.append_assoc]
  rw [List.length_append, ← hcells] at hload
  rw [Nat.sub_self, List.drop_zero]
  exact Cursor.peek_ok hload

end Writes

end Ipmitool.Lib.Buffer
