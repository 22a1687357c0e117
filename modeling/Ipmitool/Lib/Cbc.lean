import Mathlib.Data.List.Basic
import Mathlib.Tactic.Common

/-! # Cipher block chaining

A block cipher works on blocks, which are here lists of a fixed length `b` over any type of cells.
Encryption combines a plain block with the previous cipher block and encrypts the combination;
decryption decrypts a cipher block and combines the result with the previous cipher block. If the
decryption of a block inverts its encryption, and combining twice with one block is the identity,
then decrypting a chain gives the plain text back (`decrypt_encrypt`). -/

namespace Ipmitool.Lib.Cbc

variable {α : Type*}

/-- `n` blocks of length `b` encrypted by `E`, chained from `chain`. -/
def encrypt (comb : List α → List α → List α) (E : List α → List α) (b : ℕ) :
    ℕ → List α → List α → List α
  | 0, _, _ => []
  | n + 1, chain, input =>
    let c := E (comb (input.take b) chain)
    c ++ encrypt comb E b n c (input.drop b)

/-- `n` blocks of length `b` decrypted by `D`, chained from `chain`. -/
def decrypt (comb : List α → List α → List α) (D : List α → List α) (b : ℕ) :
    ℕ → List α → List α → List α
  | 0, _, _ => []
  | n + 1, chain, input =>
    comb (D (input.take b)) chain ++ decrypt comb D b n (input.take b) (input.drop b)

/-- **What chaining needs of a cipher** on blocks of length `b`: combining and encrypting keep the
length, combining twice with one block does nothing, and decryption inverts encryption. -/
structure Lawful (comb : List α → List α → List α) (E D : List α → List α) (b : ℕ) : Prop where
  length_comb : ∀ x y, x.length = b → y.length = b → (comb x y).length = b
  comb_cancel : ∀ x y, x.length = b → y.length = b → comb (comb x y) y = x
  length_enc : ∀ x, x.length = b → (E x).length = b
  dec_enc : ∀ x, x.length = b → D (E x) = x

section Lawful
variable {comb : List α → List α → List α} {E D : List α → List α} {b : ℕ}
  (h : Lawful comb E D b)
include h

theorem length_encrypt : ∀ (n : ℕ) {chain input : List α}, chain.length = b →
    input.length = n * b → (encrypt comb E b n chain input).length = n * b
  | 0, _, _, _, _ => by simp [encrypt]
  | n + 1, chain, input, hc, hi => by
    have hb : b ≤ input.length := by rw [hi, Nat.add_mul]; omega
    have ht : (input.take b).length = b := List.length_take_of_le hb
    have he : (E (comb (input.take b) chain)).length = b :=
      h.length_enc _ (h.length_comb _ _ ht hc)
    have hd : (input.drop b).length = n * b := by
      rw [List.length_drop, hi, Nat.add_mul]; omega
    have ih := length_encrypt n he hd
    simp only [encrypt, List.length_append, he, ih, Nat.add_mul]
    omega

/-- **Decrypting an encrypted chain gives the plain text.** -/
theorem decrypt_encrypt : ∀ (n : ℕ) {chain input : List α}, chain.length = b →
    input.length = n * b →
      decrypt comb D b n chain (encrypt comb E b n chain input) = input
  | 0, _, input, _, hi => by
    have : input = [] := List.eq_nil_of_length_eq_zero (by simpa using hi)
    simp [decrypt, this]
  | n + 1, chain, input, hc, hi => by
    have hb : b ≤ input.length := by rw [hi, Nat.add_mul]; omega
    have ht : (input.take b).length = b := List.length_take_of_le hb
    have hl := h.length_comb _ _ ht hc
    have he : (E (comb (input.take b) chain)).length = b := h.length_enc _ hl
    have hd : (input.drop b).length = n * b := by
      rw [List.length_drop, hi, Nat.add_mul]; omega
    have ih := decrypt_encrypt n he hd
    simp only [encrypt, decrypt]
    rw [List.take_left' he, List.drop_left' he, ih, h.dec_enc _ hl, h.comb_cancel _ _ ht hc,
      List.take_append_drop]

end Lawful

end Ipmitool.Lib.Cbc
