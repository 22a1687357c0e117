import Mathlib.Data.List.Nodup
import Mathlib.Data.Finset.Card
import Mathlib.Tactic.Common

/-! # Singly linked lists with a tail pointer

The nodes live in a heap, their address is their place in it. `push` appends an element behind the
tail; it fails if there is a head but no tail. `Holds c l` says that the nodes that are reached from
the head hold the elements of `l`, and that the tail is the last of them. `push` keeps this
(`Holds.push`), and `toList`, which follows the pointers, gives `l` (`Holds.toList_eq`). -/

namespace Ipmitool.Lib.Linked

variable {α : Type}

structure Node (α : Type) where
  val : α
  next : Option ℕ := none

structure Chain (α : Type) where
  heap : List (Node α) := []
  head : Option ℕ := none
  tail : Option ℕ := none

/-- The elements from a node on, at most `fuel`. -/
def follow (heap : List (Node α)) : ℕ → Option ℕ → List α
  | 0, _ => []
  | _ + 1, none => []
  | fuel + 1, some i =>
    match heap[i]? with
    | none => []
    | some n => n.val :: follow heap fuel n.next

def Chain.toList (c : Chain α) : List α := follow c.heap c.heap.length c.head

/-- Append an element. -/
def Chain.push (c : Chain α) (a : α) : Option (Chain α) :=
  match c.head, c.tail with
  | none, _ => some ⟨c.heap ++ [⟨a, none⟩], some c.heap.length, some c.heap.length⟩
  | some _, none => none
  | some h, some t => some
      ⟨(c.heap.modify t fun n => { n with next := some c.heap.length }) ++ [⟨a, none⟩], some h,
        some c.heap.length⟩

/-- Drop all elements. -/
def Chain.clear (c : Chain α) : Chain α := { c with head := none, tail := none }

/-- From a pointer on, the nodes at the addresses `path` hold the elements of a list. -/
inductive Links (heap : List (Node α)) : Option ℕ → List ℕ → List α → Prop
  | nil : Links heap none [] []
  | cons {i : ℕ} {a : α} {next : Option ℕ} {path : List ℕ} {l : List α} :
      heap[i]? = some ⟨a, next⟩ → Links heap next path l → Links heap (some i) (i :: path) (a :: l)

/-- A chain that holds the elements of `l`, with the tail at the last of them. -/
def Holds (c : Chain α) (l : List α) : Prop :=
  ∃ path : List ℕ, path.Nodup ∧ Links c.heap c.head path l ∧ c.tail = path.getLast?

section Links
variable {heap : List (Node α)} {p : Option ℕ} {path : List ℕ} {l : List α}

theorem Links.lt_length (h : Links heap p path l) : ∀ i ∈ path, i < heap.length := by
  induction h with
  | nil => simp
  | cons hi _ ih =>
    intro j hj
    rcases List.mem_cons.mp hj with rfl | hj
    · exact (List.getElem?_eq_some_iff.mp hi).1
    · exact ih j hj

theorem Links.follow_eq (h : Links heap p path l) {fuel : ℕ} (hfuel : path.length ≤ fuel) :
    follow heap fuel p = l := by
  induction h generalizing fuel with
  | nil => cases fuel <;> rfl
  | cons hi _ ih =>
    obtain _ | fuel := fuel
    · simp at hfuel
    · rw [follow, hi]
      simp only [List.cons.injEq, true_and]
      exact ih (by simpa using hfuel)

theorem Links.length_le (h : Links heap p path l) (hnodup : path.Nodup) :
    path.length ≤ heap.length := by
  have hsub : path.toFinset ⊆ Finset.range heap.length := fun i hi =>
    Finset.mem_range.mpr (h.lt_length i (List.mem_toFinset.mp hi))
  have hcard := Finset.card_le_card hsub
  rwa [List.toFinset_card_of_nodup hnodup, Finset.card_range] at hcard

theorem Links.push (h : Links heap p path l) (hnodup : path.Nodup) {t : ℕ}
    (ht : path.getLast? = some t) (a : α) :
    Links ((heap.modify t fun n => { n with next := some heap.length }) ++ [⟨a, none⟩]) p
      (path ++ [heap.length]) (l ++ [a]) := by
  have hlast : ((heap.modify t fun n => { n with next := some heap.length }) ++
      [⟨a, none⟩])[heap.length]? =
      some ⟨a, none⟩ := by simp
  induction h with
  | nil => simp at ht
  | @cons i b next path l hi hrest ih =>
    have hlt : i < heap.length := (List.getElem?_eq_some_iff.mp hi).1
    obtain ⟨hnot, hnodup⟩ := List.nodup_cons.mp hnodup
    rcases path with _ | ⟨j, path⟩
    · obtain rfl : i = t := by simpa using ht
      cases hrest
      have hnode : ((heap.modify i fun n => { n with next := some heap.length }) ++
          [⟨a, none⟩])[i]? =
          some ⟨b, some heap.length⟩ := by
        rw [List.getElem?_append_left (by simpa using hlt), List.getElem?_modify]
        simp [hi]
      exact .cons hnode (.cons hlast .nil)
    · have ht' : (j :: path).getLast? = some t := by simpa using ht
      have hne : t ≠ i := fun h => hnot (h ▸ List.mem_of_getLast? ht')
      have hnode : ((heap.modify t fun n => { n with next := some heap.length }) ++
          [⟨a, none⟩])[i]? =
          some ⟨b, next⟩ := by
        rw [List.getElem?_append_left (by simpa using hlt), List.getElem?_modify]
        simp [hi, hne]
      exact .cons hnode (ih hnodup ht')

end Links

theorem holds_empty : Holds ({} : Chain α) [] := ⟨[], List.nodup_nil, .nil, rfl⟩

theorem Holds.clear (c : Chain α) : Holds c.clear [] := ⟨[], List.nodup_nil, .nil, rfl⟩

theorem Holds.toList_eq {c : Chain α} {l : List α} (h : Holds c l) : c.toList = l := by
  obtain ⟨path, hnodup, hlinks, -⟩ := h
  exact hlinks.follow_eq (hlinks.length_le hnodup)

/-- Appending never fails, and appends. -/
theorem Holds.push {c : Chain α} {l : List α} (h : Holds c l) (a : α) :
    ∃ c', c.push a = some c' ∧ Holds c' (l ++ [a]) := by
  obtain ⟨path, hnodup, hlinks, htail⟩ := h
  unfold Chain.push
  rcases hhead : c.head with _ | i
  · rw [hhead] at hlinks
    cases hlinks
    refine ⟨_, rfl, [c.heap.length], List.nodup_singleton _, ?_, rfl⟩
    have hnode : (c.heap ++ [⟨a, none⟩])[c.heap.length]? = some ⟨a, none⟩ := by simp
    exact .cons hnode .nil
  · have hne : path ≠ [] := by
      rintro rfl
      rw [hhead] at hlinks
      cases hlinks
    have ht : path.getLast? = some (path.getLast hne) := List.getLast?_eq_some_getLast hne
    rw [htail, ht]
    refine ⟨_, rfl, path ++ [c.heap.length], ?_, ?_, by simp⟩
    · refine List.nodup_append.mpr ⟨hnodup, List.nodup_singleton _, fun j hj k hk => ?_⟩
      have := hlinks.lt_length j hj
      rw [List.mem_singleton.mp hk]
      omega
    · rw [← hhead]
      exact hlinks.push hnodup ht a

end Ipmitool.Lib.Linked
