import Mathlib.Data.List.Basic
import Mathlib.Tactic.Common

/-! # Text in UTF-8

Bytes that are the encodings of characters one after the other. A text may be cut in front of a
character and nowhere else (`Valid.of_append`), and the bytes behind the first of a character are
recognised by their two upper bits (`encode_cons`). -/

namespace Ipmitool.Lib.Utf8

/-- The text is made of whole characters. -/
def Valid (text : List UInt8) : Prop := ∃ cs : List Char, text = cs.flatMap String.utf8EncodeChar

/-- A byte that is not the first of its character. -/
def isContinuation (b : UInt8) : Bool := b &&& 0xc0 = 0x80

theorem valid_nil : Valid [] := ⟨[], rfl⟩

theorem valid_char (c : Char) : Valid (String.utf8EncodeChar c) := ⟨[c], by simp⟩

theorem Valid.append {a b : List UInt8} (ha : Valid a) (hb : Valid b) : Valid (a ++ b) := by
  obtain ⟨cs, rfl⟩ := ha
  obtain ⟨ds, rfl⟩ := hb
  exact ⟨cs ++ ds, List.flatMap_append.symm⟩

theorem Valid.cons_cases {text : List UInt8} (h : Valid text) :
    text = [] ∨ ∃ c rest, text = String.utf8EncodeChar c ++ rest ∧ Valid rest := by
  obtain ⟨_ | ⟨c, cs⟩, rfl⟩ := h
  · exact .inl rfl
  · exact .inr ⟨c, _, List.flatMap_cons, cs, rfl⟩

theorem Valid.snoc_cases {text : List UInt8} (h : Valid text) :
    text = [] ∨ ∃ before c, text = before ++ String.utf8EncodeChar c ∧ Valid before := by
  obtain ⟨cs, rfl⟩ := h
  rcases List.eq_nil_or_concat cs with rfl | ⟨ds, c, rfl⟩
  · exact .inl rfl
  · exact .inr ⟨_, c, by simp, ds, rfl⟩

theorem encode_inj {c d : Char} {x y : List UInt8}
    (h : String.utf8EncodeChar c ++ x = String.utf8EncodeChar d ++ y) : c = d ∧ x = y := by
  have hdecode : ∀ (c : Char) (x : List UInt8),
      (String.utf8EncodeChar c ++ x).toByteArray.utf8DecodeChar? 0 = some c := by
    intro c x
    rw [List.toByteArray_append]
    exact ByteArray.utf8DecodeChar?_utf8EncodeChar_append
  have hc := hdecode c x
  rw [h, hdecode d y] at hc
  obtain rfl := Option.some.inj hc
  exact ⟨rfl, List.append_cancel_left h⟩

/-- **A text is cut only in front of a character.** -/
theorem Valid.of_append {a x : List UInt8} (ha : Valid a) (h : Valid (a ++ x)) : Valid x := by
  obtain ⟨cs, rfl⟩ := ha
  induction cs with
  | nil => exact h
  | cons c cs ih =>
    rw [List.flatMap_cons, List.append_assoc] at h
    rcases h.cons_cases with hnil | ⟨d, rest, hsplit, hrest⟩
    · have hempty := (List.append_eq_nil_iff.mp hnil).1
      exact absurd hempty String.utf8EncodeChar_ne_nil
    · obtain ⟨-, hsame⟩ := encode_inj hsplit
      rw [← hsame] at hrest
      exact ih hrest

theorem upper_bits (b mask mark : UInt8) :
    (b &&& mask ||| mark) &&& 0xc0 = (b &&& (mask &&& 0xc0)) ||| (mark &&& 0xc0) := by
  have hor : ∀ x y z : UInt8, (x ||| y) &&& z = (x &&& z) ||| (y &&& z) := fun x y z =>
    UInt8.toBitVec_inj.mp BitVec.and_or_distrib_right
  rw [hor, UInt8.and_assoc]

theorem isContinuation_tail (b : UInt8) : isContinuation (b &&& 0x3f ||| 0x80) = true := by
  have h0 : (0x3f : UInt8) &&& 0xc0 = 0 := by decide
  have h1 : (0x80 : UInt8) &&& 0xc0 = 0x80 := by decide
  rw [isContinuation, upper_bits, h0, h1, UInt8.and_zero, UInt8.zero_or]
  rfl

/-- The marks of the first byte of a longer character have both upper bits. -/
theorem first_byte {mask mark : UInt8} (b : UInt8) (hmask : mask &&& 0xc0 = 0)
    (hmark : mark &&& 0xc0 = 0xc0) :
    isContinuation (b &&& mask ||| mark) = false ∧ 128 ≤ (b &&& mask ||| mark).toNat := by
  have hbits : (b &&& mask ||| mark) &&& 0xc0 = 0xc0 := by
    rw [upper_bits, hmask, hmark, UInt8.and_zero, UInt8.zero_or]
  refine ⟨?_, ?_⟩
  · rw [isContinuation, hbits]
    rfl
  · have hle : ((b &&& mask ||| mark) &&& 0xc0).toNat ≤ (b &&& mask ||| mark).toNat := by
      rw [UInt8.toNat_and]
      exact Nat.and_le_left
    rw [hbits] at hle
    exact Nat.le_trans (by decide) hle

theorem isContinuation_ascii {b : UInt8} (h : b.toNat < 128) : isContinuation b = false := by
  have hall : ∀ n < 128, isContinuation (UInt8.ofNat n) = false := by decide
  have hb := hall b.toNat h
  rwa [UInt8.ofNat_toNat] at hb

theorem encode_ascii {c : Char} (h : c.val ≤ 0x7f) :
    String.utf8EncodeChar c = [c.val.toUInt8] ∧ c.val.toUInt8.toNat = c.val.toNat ∧
    c.val.toNat < 128 := by
  have hlt : c.val.toNat < 128 := Nat.lt_succ_of_le (UInt32.le_iff_toNat_le.mp h)
  refine ⟨?_, ?_, hlt⟩
  · rw [String.utf8EncodeChar_eq_utf8EncodeCharFast]
    exact if_pos h
  · rw [UInt32.toNat_toUInt8]
    exact Nat.mod_eq_of_lt (by omega)

/-- **A character** is a first byte and continuation bytes; from 128 on there is at least one of
them, and the first byte shows it. -/
theorem encode_cons (c : Char) : ∃ b rest, String.utf8EncodeChar c = b :: rest ∧
    isContinuation b = false ∧ (∀ x ∈ rest, isContinuation x = true) ∧
      (b.toNat < 128 ∧ rest = [] ∨ 128 ≤ b.toNat ∧ rest ≠ []) := by
  by_cases h1 : c.val ≤ 0x7f
  · obtain ⟨hbytes, hnat, hlt⟩ := encode_ascii h1
    have hb : c.val.toUInt8.toNat < 128 := by omega
    rw [hbytes]
    exact ⟨_, [], rfl, isContinuation_ascii hb, fun _ hx => absurd hx List.not_mem_nil,
      .inl ⟨hb, rfl⟩⟩
  have hlong : ∀ (mask mark : UInt8) {b : UInt8} {rest : List UInt8}, mask &&& 0xc0 = 0 →
      mark &&& 0xc0 = 0xc0 →
      rest ≠ [] → isContinuation (b &&& mask ||| mark) = false ∧
        ((b &&& mask ||| mark).toNat < 128 ∧ rest = [] ∨ 128 ≤ (b &&& mask ||| mark).toNat ∧
          rest ≠ []) := by
    intro mask mark b rest hmask hmark hrest
    obtain ⟨hfirst, hlarge⟩ := first_byte b hmask hmark
    exact ⟨hfirst, .inr ⟨hlarge, hrest⟩⟩
  rw [String.utf8EncodeChar_eq_utf8EncodeCharFast, String.utf8EncodeCharFast, if_neg h1]
  split_ifs with h2 h3
  · obtain ⟨hfirst, hlarge⟩ := hlong 0x1f 0xc0 (by decide) (by decide)
      (List.cons_ne_nil _ _)
    exact ⟨_, _, rfl, hfirst, by simp [isContinuation_tail], hlarge⟩
  · obtain ⟨hfirst, hlarge⟩ := hlong 0x0f 0xe0 (by decide) (by decide)
      (List.cons_ne_nil _ _)
    exact ⟨_, _, rfl, hfirst, by simp [isContinuation_tail], hlarge⟩
  · obtain ⟨hfirst, hlarge⟩ := hlong 0x07 0xf0 (by decide) (by decide)
      (List.cons_ne_nil _ _)
    exact ⟨_, _, rfl, hfirst, by simp [isContinuation_tail], hlarge⟩

theorem not_valid_continuation {b : UInt8} {rest : List UInt8} (h : isContinuation b = true) :
    ¬ Valid (b :: rest) := by
  intro hvalid
  rcases hvalid.cons_cases with hnil | ⟨c, more, hsplit, -⟩
  · simp at hnil
  · obtain ⟨first, tail, hc, hfirst, -⟩ := encode_cons c
    rw [hc] at hsplit
    rw [(List.cons.inj hsplit).1, hfirst] at h
    exact Bool.false_ne_true h

end Ipmitool.Lib.Utf8
