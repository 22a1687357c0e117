import Mathlib.Data.List.Basic
import Mathlib.Tactic.Common

/-! # Prefix codes

A code whose words are not empty and of which no word is a proper prefix of another. A text starts
with the words of at most one message of each length, so there is a longest one, and it is what a
parser that takes one word after the other finds. -/

namespace Ipmitool.Lib.PrefixCode

variable {ρ α : Type}

/-- A prefix code. -/
structure Code (ρ α : Type) where
  word : ρ → List α
  word_ne_nil : ∀ r, word r ≠ []
  eq_of_word_prefix : ∀ r r', word r <+: word r' → r = r'

variable (C : Code ρ α)

/-- The text of a message. -/
def Code.encode (rs : List ρ) : List α := rs.flatMap C.word

/-- The longest message whose text the text `l` starts with. -/
def Code.Longest (rs : List ρ) (l : List α) : Prop :=
  C.encode rs <+: l ∧ ∀ rs', C.encode rs' <+: l → rs' <+: rs

variable {C} {r r' : ρ} {rs rs' : List ρ} {l : List α}

@[simp] theorem encode_nil : C.encode [] = [] := rfl

@[simp] theorem encode_cons : C.encode (r :: rs) = C.word r ++ C.encode rs := List.flatMap_cons

/-- Two words at the front of one text are the same word. -/
theorem eq_of_prefix (h : C.word r <+: l) (h' : C.word r' <+: l) : r = r' := by
  rcases List.prefix_or_prefix_of_prefix h h' with hp | hp
  · exact C.eq_of_word_prefix r r' hp
  · exact (C.eq_of_word_prefix r' r hp).symm

theorem longest_nil (h : ∀ r, ¬ C.word r <+: l) : C.Longest [] l := by
  refine ⟨List.nil_prefix, fun rs' hrs => ?_⟩
  cases rs' with
  | nil => exact List.prefix_rfl
  | cons r rs =>
    rw [encode_cons] at hrs
    exact absurd ((List.prefix_append _ _).trans hrs) (h r)

theorem longest_cons (h : C.Longest rs l) : C.Longest (r :: rs) (C.word r ++ l) := by
  refine ⟨by rw [encode_cons]; exact (List.prefix_append_right_inj _).mpr h.1, fun rs' hrs => ?_⟩
  cases rs' with
  | nil => exact List.nil_prefix
  | cons r' rs' =>
    rw [encode_cons] at hrs
    obtain rfl :=
      eq_of_prefix ((List.prefix_append _ _).trans hrs) (List.prefix_append (C.word r) l)
    exact List.cons_prefix_cons.mpr ⟨rfl, h.2 rs' ((List.prefix_append_right_inj _).mp hrs)⟩

theorem longest_encode (rs : List ρ) : C.Longest rs (C.encode rs) := by
  induction rs with
  | nil => exact longest_nil fun r hr => C.word_ne_nil r (List.prefix_nil.mp hr)
  | cons r rs ih => exact encode_cons (C := C) ▸ longest_cons ih

theorem Code.Longest.unique (h : C.Longest rs l) (h' : C.Longest rs' l) : rs = rs' :=
  List.IsPrefix.eq_of_length_le (h'.2 rs h.1) (h.2 rs' h'.1).length_le

theorem Code.Longest.tail (h : C.Longest (r :: rs) l) :
    ∃ t, l = C.word r ++ t ∧ C.Longest rs t := by
  obtain ⟨t, rfl⟩ := h.1
  rw [encode_cons, List.append_assoc]
  refine ⟨C.encode rs ++ t, rfl, List.prefix_append _ _, fun rs' hrs => ?_⟩
  have hcons := h.2 (r :: rs')
  rw [encode_cons, encode_cons, List.append_assoc, List.prefix_append_right_inj] at hcons
  exact (List.cons_prefix_cons.mp (hcons hrs)).2

/-- No word stands at the front of a text without message. -/
theorem Code.Longest.not_prefix (h : C.Longest [] l) (r : ρ) : ¬ C.word r <+: l := fun hr => by
  have hnil := h.2 [r] (by rwa [encode_cons, encode_nil, List.append_nil])
  exact absurd (List.prefix_nil.mp hnil) (List.cons_ne_nil r [])

theorem exists_longest (l : List α) : ∃ rs, C.Longest rs l := by
  induction hn : l.length using Nat.strongRecOn generalizing l with
  | ind n ih =>
    by_cases h : ∃ r, C.word r <+: l
    · obtain ⟨r, t, rfl⟩ := h
      have hpos := List.length_pos_of_ne_nil (C.word_ne_nil r)
      obtain ⟨rs, hrs⟩ := ih t.length (by rw [← hn, List.length_append]; omega) t rfl
      exact ⟨r :: rs, longest_cons hrs⟩
    · exact ⟨[], longest_nil fun r hr => h ⟨r, hr⟩⟩

end Ipmitool.Lib.PrefixCode
