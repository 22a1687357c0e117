import Mathlib.Data.List.Nodup
import Mathlib.Logic.Function.Basic
import Mathlib.Tactic.Common

/-! # Singly linked lists in a heap of cells

A heap is a partial function from addresses to cells; an address that is freed has no cell and may
be used again. `Seg h p l q` says that from the pointer `p` the cells with the addresses and
elements of `l` lead to the pointer `q`. `Holds h head tail l` says that the list of `l` hangs at
`head`, ends in null, has `tail` as its last cell, and is all there is in the heap.

* `Holds.push`: a new cell behind the tail.
* `Holds.unlink`: the cell in front takes over the pointer of the cell that is freed. -/

namespace Ipmitool.Lib.Pointers

variable {α : Type}

structure Cell (α : Type) where
  val : α
  next : Option ℕ

abbrev Heap (α : Type) := ℕ → Option (Cell α)

/-- From `p` the cells of `l` lead to `q`. -/
inductive Seg (h : Heap α) : Option ℕ → List (ℕ × α) → Option ℕ → Prop
  | nil {p : Option ℕ} : Seg h p [] p
  | cons {i : ℕ} {a : α} {next : Option ℕ} {l : List (ℕ × α)} {q : Option ℕ} :
      h i = some ⟨a, next⟩ → Seg h next l q → Seg h (some i) ((i, a) :: l) q

/-- The addresses of a list. -/
def addresses (l : List (ℕ × α)) : List ℕ := l.map Prod.fst

@[simp] theorem addresses_append (l l' : List (ℕ × α)) :
    addresses (l ++ l') = addresses l ++ addresses l' :=
  List.map_append

@[simp] theorem addresses_cons (c : ℕ × α) (l : List (ℕ × α)) :
    addresses (c :: l) = c.1 :: addresses l := rfl

@[simp] theorem addresses_nil : addresses ([] : List (ℕ × α)) = [] := rfl

section
variable {h h' : Heap α} {p q m : Option ℕ} {l l' : List (ℕ × α)}

theorem Seg.append (hl : Seg h p l m) (hl' : Seg h m l' q) : Seg h p (l ++ l') q := by
  induction hl with
  | nil => exact hl'
  | cons hi _ ih => exact .cons hi (ih hl')

theorem Seg.split : ∀ {l : List (ℕ × α)} {p : Option ℕ}, Seg h p (l ++ l') q →
    ∃ m, Seg h p l m ∧ Seg h m l' q
  | [], p, hl => ⟨p, .nil, hl⟩
  | _ :: _, _, .cons hi hl => by
    obtain ⟨m, h1, h2⟩ := hl.split
    exact ⟨m, .cons hi h1, h2⟩

/-- The list hangs at its first cell. -/
theorem Seg.head_eq (hl : Seg h p l none) : p = (addresses l).head? := by
  cases hl <;> rfl

/-- Cells of other addresses do not matter. -/
theorem Seg.congr (hl : Seg h p l q) (hsame : ∀ i ∈ addresses l, h' i = h i) : Seg h' p l q := by
  induction hl with
  | nil => exact .nil
  | cons hi _ ih =>
    exact .cons ((hsame _ List.mem_cons_self).trans hi)
      (ih fun j hj => hsame j (List.mem_cons_of_mem _ hj))

end

/-- The list of `l`, and nothing else. -/
structure Holds (h : Heap α) (head tail : Option ℕ) (l : List (ℕ × α)) : Prop where
  nodup : (addresses l).Nodup
  seg : Seg h head l none
  tail : tail = (addresses l).getLast?
  live : ∀ i, (h i).isSome = true ↔ i ∈ addresses l

theorem holds_empty : Holds (fun _ => none : Heap α) none none [] :=
  ⟨List.nodup_nil, .nil, rfl, fun i => by simp⟩

section
variable {h : Heap α} {head tail : Option ℕ} {l : List (ℕ × α)}

theorem Holds.pushFirst (hl : Holds h head tail []) (e : ℕ) (a : α) :
    Holds (Function.update h e (some ⟨a, none⟩)) (some e) (some e) [(e, a)] := by
  refine ⟨List.nodup_singleton e, .cons (Function.update_self ..) .nil, rfl, fun i => ?_⟩
  have hi := hl.live i
  by_cases hie : i = e
  · rw [hie, Function.update_self]
    simp
  · rw [Function.update_of_ne hie, hi]
    simp [hie]

theorem Holds.push {t : ℕ} {b : α} (hl : Holds h head tail (l ++ [(t, b)])) {e : ℕ}
    (he : h e = none) (a : α) :
    Function.update h e (some ⟨a, none⟩) t = some ⟨b, none⟩ ∧
      Holds (Function.update (Function.update h e (some ⟨a, none⟩)) t (some ⟨b, some e⟩)) head
        (some e) (l ++ [(t, b)] ++ [(e, a)]) := by
  have hfresh : e ∉ addresses (l ++ [(t, b)]) := fun hmem => by
    have := (hl.live e).mpr hmem
    rw [he] at this
    cases this
  have hnodup := hl.nodup
  obtain ⟨m, hfront, hlast⟩ := hl.seg.split
  obtain ⟨rfl, hcell⟩ : m = some t ∧ h t = some ⟨b, none⟩ := by
    cases hlast with
    | cons hi hnil =>
      cases hnil
      exact ⟨rfl, hi⟩
  have het : t ≠ e := by
    rintro rfl
    rw [he] at hcell
    cases hcell
  have ht : t ∉ addresses l := by
    rw [addresses_append, List.nodup_append] at hnodup
    exact fun hmem => hnodup.2.2 t hmem t (by simp) rfl
  refine ⟨(Function.update_of_ne het ..).trans hcell, ?_, ?_, ?_, fun i => ?_⟩
  · rw [addresses_append, List.nodup_append]
    refine ⟨hnodup, List.nodup_singleton e, ?_⟩
    rintro x hx y hy rfl
    obtain rfl : x = e := List.mem_singleton.mp hy
    exact hfresh hx
  · have hfront' : Seg (Function.update (Function.update h e (some ⟨a, none⟩)) t (some ⟨b,
        some e⟩)) head l
        (some t) := by
      refine hfront.congr fun i hi => ?_
      have hit : i ≠ t := fun heq => ht (heq ▸ hi)
      have hie : i ≠ e := by
        rintro rfl
        exact hfresh (by simp [hi])
      rw [Function.update_of_ne hit, Function.update_of_ne hie]
    refine (hfront'.append (.cons (Function.update_self ..) .nil)).append (.cons ?_ .nil)
    rw [Function.update_of_ne het.symm, Function.update_self]
  · simp
  · have hi := hl.live i
    by_cases hit : i = t
    · rw [hit, Function.update_self]
      simp
    · rw [Function.update_of_ne hit]
      by_cases hie : i = e
      · rw [hie, Function.update_self]
        simp
      · rw [Function.update_of_ne hie, hi]
        simp [hie]

theorem Holds.unlinkFirst {i : ℕ} {a : α} (hl : Holds h head tail ((i, a) :: l))
    (c : Option (Cell α)) :
    ∃ next, h i = some ⟨a, next⟩ ∧ head = some i ∧
      Holds (Function.update (Function.update h i c) i none) next (addresses l).getLast? l := by
  obtain ⟨hnot, hnodup⟩ := List.nodup_cons.mp hl.nodup
  obtain ⟨next, hcell, rfl, hrest⟩ : ∃ next, h i = some ⟨a, next⟩ ∧ head = some i ∧
      Seg h next l none := by
    cases hl.seg with
    | cons hi hrest => exact ⟨_, hi, rfl, hrest⟩
  refine ⟨next, hcell, rfl, hnodup, hrest.congr fun j hj => ?_, rfl, fun j => ?_⟩
  · have hji : j ≠ i := fun heq => hnot (heq ▸ hj)
    rw [Function.update_of_ne hji, Function.update_of_ne hji]
  · have hj := hl.live j
    by_cases hji : j = i
    · rw [hji, Function.update_self]
      exact iff_of_false Bool.false_ne_true hnot
    · rw [Function.update_of_ne hji, Function.update_of_ne hji, hj]
      simp [hji]

/-- A cell behind another one is freed. -/
theorem Holds.unlink {l' : List (ℕ × α)} {p i : ℕ} {b a : α}
    (hl : Holds h head tail (l ++ (p, b) :: (i, a) :: l')) :
    ∃ next, h p = some ⟨b, some i⟩ ∧ h i = some ⟨a, next⟩ ∧ i ≠ p ∧ next ≠ some i ∧
      Holds (Function.update (Function.update h p (some ⟨b, next⟩)) i none) head
        (addresses (l ++ (p, b) :: l')).getLast? (l ++ (p, b) :: l') := by
  obtain ⟨m, hfront, hbehind⟩ := hl.seg.split
  obtain ⟨next, rfl, hp, hi, hrest⟩ : ∃ next, m = some p ∧ h p = some ⟨b, some i⟩ ∧
      h i = some ⟨a, next⟩ ∧
      Seg h next l' none := by
    cases hbehind with
    | cons hp hbehind =>
      cases hbehind with
      | cons hi hrest => exact ⟨_, rfl, hp, hi, hrest⟩
  have hnodup := hl.nodup
  simp only [addresses_append, addresses_cons, List.nodup_append, List.nodup_cons, List.mem_cons,
    not_or] at hnodup
  obtain ⟨hfrontNodup, ⟨⟨hpi, hp'⟩, hi', hbehindNodup⟩, hapart⟩ := hnodup
  have hlp : ∀ j ∈ addresses l, j ≠ p := fun j hj => hapart j hj p (.inl rfl)
  have hli : ∀ j ∈ addresses l, j ≠ i := fun j hj => hapart j hj i (.inr (.inl rfl))
  have hll : ∀ j ∈ addresses l, ∀ k ∈ addresses l', j ≠ k :=
    fun j hj k hk => hapart j hj k (.inr (.inr hk))
  have hnext : next ≠ some i := by
    rintro rfl
    cases hrest with
    | cons => exact hi' (by simp)
  refine ⟨next, hp, hi, Ne.symm hpi, hnext, ?_, ?_, rfl, fun j => ?_⟩
  · simp only [addresses_append, addresses_cons, List.nodup_append, List.nodup_cons, List.mem_cons]
    refine ⟨hfrontNodup, ⟨hp', hbehindNodup⟩, ?_⟩
    rintro j hj k (rfl | hk)
    · exact hlp j hj
    · exact hll j hj k hk
  · refine (hfront.congr fun j hj => ?_).append (.cons ?_ (hrest.congr fun j hj => ?_))
    · rw [Function.update_of_ne (hli j hj), Function.update_of_ne (hlp j hj)]
    · rw [Function.update_of_ne hpi, Function.update_self]
    · have hji : j ≠ i := fun heq => hi' (heq ▸ hj)
      have hjp : j ≠ p := fun heq => hp' (heq ▸ hj)
      rw [Function.update_of_ne hji, Function.update_of_ne hjp]
  · have hj := hl.live j
    by_cases hji : j = i
    · have hnot : i ∉ addresses (l ++ (p, b) :: l') := by
        simp only [addresses_append, addresses_cons, List.mem_append, List.mem_cons, not_or]
        exact ⟨fun hmem => hli i hmem rfl, Ne.symm hpi, hi'⟩
      rw [hji, Function.update_self]
      exact iff_of_false Bool.false_ne_true hnot
    · rw [Function.update_of_ne hji]
      by_cases hjp : j = p
      · rw [hjp, Function.update_self]
        simp
      · rw [Function.update_of_ne hjp, hj]
        simp [hji]

end

end Ipmitool.Lib.Pointers
