import Ipmitool.Core.Types
import Ipmitool.Crypto.Padding
import Ipmitool.Lib.Buffer

/-! # Padding in a buffer

`pad` and `payloadLength` of `crypto/payload.zig` with their checks: an index outside a slice, a
failed assertion and a checked addition that overflows are faults. Where they return, they agree
with the functions of `Padding`; what is accepted is exactly what `pad` could have written, for some
pad length. -/

namespace Ipmitool.Crypto.Payload

open Ipmitool.Core.Types Ipmitool.Crypto.Padding Ipmitool.Lib.Buffer

/-! ### The code -/

/-- A slice of `n` bytes from `off` on. -/
def slice (bytes : List UInt8) (off n : ℕ) : Except Fault (List UInt8) :=
  load .outOfBounds bytes off n

/-- `pad`. The length of `input` is a number of 32 bits, and so is the one of the result. -/
def padInto (input out : List UInt8) : Except Fault (List UInt8) := do
  if 2 ^ 32 ≤ paddedLength input.length then throw .overflow
  if out.length ≠ paddedLength input.length then throw .assertFailed
  let out ← store .outOfBounds out 0 input
  let out ← store .outOfBounds out input.length (padBytes (padLength input.length))
  store .outOfBounds out (input.length + padLength input.length) [UInt8.ofNat
    (padLength input.length)]

/-- Are the bytes `i + 1, i + 2, …`? -/
def ascending : List UInt8 → ℕ → Bool
  | [], _ => true
  | b :: bytes, i => if b.toNat ≠ i + 1 then false else ascending bytes (i + 1)

/-- The length without the pad and its length byte, in 64 bits and then in 16 bits. -/
def truncatedSize (length padLength : ℕ) : ℕ := (length + 2 ^ 64 - padLength - 1) % 2 ^ 16

/-- `payloadLength`. -/
def payloadLengthOf (decrypted : List UInt8) : Except Fault (Option ℕ) := do
  if decrypted.length = 0 then throw .assertFailed
  let padLength ← match decrypted[decrypted.length - 1]? with
    | some b => pure b.toNat
    | none => throw .outOfBounds
  let size := truncatedSize decrypted.length padLength
  if decrypted.length < size + padLength then return none
  let behind ← slice decrypted size (decrypted.length - size)
  let bytes ← slice behind 0 padLength
  return if ascending bytes 0 then some size else none

/-! ### What is accepted -/

theorem ascending_iff : ∀ (bytes : List UInt8) (i : ℕ), i + bytes.length ≤ 255 →
    (ascending bytes i = true ↔ bytes = (List.range' i bytes.length).map fun k => UInt8.ofNat
      (k + 1))
  | [], _, _ => by simp [ascending]
  | b :: bytes, i, h => by
    rw [List.length_cons] at h
    have hb : b.toNat = i + 1 ↔ b = UInt8.ofNat (i + 1) := by
      rw [← UInt8.toNat_inj, UInt8.toNat_ofNat', Nat.mod_eq_of_lt (by omega)]
    rw [ascending, List.length_cons, List.range'_succ, List.map_cons, List.cons.injEq, ← hb,
      ← ascending_iff bytes (i + 1) (by omega)]
    split_ifs with hne
    · simp [hne]
    · simp [not_not.mp hne]

theorem ascending_padBytes {bytes : List UInt8} (h : bytes.length ≤ 255) :
    ascending bytes 0 = true ↔ bytes = padBytes bytes.length := by
  rw [ascending_iff bytes 0 (by omega), padBytes, List.range_eq_range']

/-- Reading stays within the bytes, and what is accepted is a payload, a pad and its length. -/
theorem payloadLengthOf_ok {decrypted : List UInt8} (hne : decrypted ≠ [])
    (hlen : decrypted.length ≤ 65535) :
    ∃ r, payloadLengthOf decrypted = .ok r ∧ ∀ n, r = some n ↔
      ∃ (x : List UInt8) (p : UInt8), decrypted = x ++ padBytes p.toNat ++ [p] ∧ x.length = n := by
  obtain ⟨front, p, rfl⟩ : ∃ front p, decrypted = front ++ [p] :=
    ⟨decrypted.dropLast, decrypted.getLast hne, (List.dropLast_append_getLast hne).symm⟩
  have hp := p.toNat_lt
  rw [List.length_append, List.length_singleton] at hlen
  have hlast : (front ++ [p])[(front ++ [p]).length - 1]? = some p := by simp
  have hshape : ∀ (x : List UInt8) (q : UInt8), front ++ [p] = x ++ padBytes q.toNat ++ [q] ↔
      q = p ∧ front = x ++ padBytes p.toNat := by
    intro x q
    rw [List.append_singleton_inj]
    constructor
    · rintro ⟨h, rfl⟩
      exact ⟨rfl, h⟩
    · rintro ⟨rfl, h⟩
      exact ⟨h, rfl⟩
  simp only [hshape]
  unfold payloadLengthOf
  rw [hlast, if_neg (by simp)]
  simp only [pure_bind]
  rw [List.length_append, List.length_singleton]
  by_cases hfits : p.toNat ≤ front.length
  · have hsize : truncatedSize (front.length + 1) p.toNat = front.length - p.toNat := by
      unfold truncatedSize
      omega
    have hbehind : slice (front ++ [p]) (front.length - p.toNat)
        (front.length + 1 - (front.length - p.toNat)) =
          .ok (front.drop (front.length - p.toNat) ++ [p]) := by
      unfold slice load
      rw [if_pos (by simp; omega), List.drop_append_of_le_length (by omega), List.take_of_length_le]
      simp only [List.length_append, List.length_drop, List.length_singleton]
      omega
    have hbytes : slice (front.drop (front.length - p.toNat) ++ [p]) 0 p.toNat =
        .ok (front.drop (front.length - p.toNat)) := by
      unfold slice load
      rw [if_pos (by simp; omega), List.drop_zero,
        List.take_left' (by rw [List.length_drop]; omega)]
    have hlen' : (front.drop (front.length - p.toNat)).length = p.toNat := by
      rw [List.length_drop]
      omega
    rw [hsize, if_neg (by omega), hbehind]
    change ∃ r, (slice _ 0 p.toNat >>= _) = _ ∧ _
    rw [hbytes]
    refine ⟨_, rfl, fun n => ?_⟩
    have hshort : (front.drop (front.length - p.toNat)).length ≤ 255 := by omega
    have hasc := ascending_padBytes hshort
    rw [hlen'] at hasc
    constructor
    · intro h
      split_ifs at h with hyes
      refine ⟨front.take (front.length - p.toNat), p, ⟨rfl, ?_⟩, ?_⟩
      · rw [← hasc.mp hyes, List.take_append_drop]
      · rw [List.length_take]
        have := Option.some.inj h
        omega
    · rintro ⟨x, q, ⟨-, hfront⟩, rfl⟩
      have hx : front.length - p.toNat = x.length := by
        rw [hfront, List.length_append, length_padBytes]
        omega
      rw [if_pos (hasc.mpr ?_), hx]
      rw [hx, hfront, List.drop_left]
  · have hsize : truncatedSize (front.length + 1) p.toNat = 65536 + front.length - p.toNat := by
      unfold truncatedSize
      omega
    rw [hsize, if_pos (by omega)]
    refine ⟨none, rfl, fun n => ⟨nofun, ?_⟩⟩
    rintro ⟨x, q, ⟨-, hfront⟩, -⟩
    have hle := congrArg List.length hfront
    rw [List.length_append, length_padBytes] at hle
    omega

/-! ### Padding -/

theorem padInto_ok {input out : List UInt8} (hlen : input.length ≤ 65000)
    (hout : out.length = paddedLength input.length) : padInto input out = .ok (pad input) := by
  have hpad := padLength_le input.length
  have hout' : out.length = input.length + padLength input.length + 1 := hout
  -- the cells of the payload, of the pad and of its length
  obtain ⟨a, b, c, rfl, ha, hb, hc⟩ : ∃ a b c, out = a ++ b ++ c ∧ a.length = input.length ∧
      b.length = (padBytes (padLength input.length)).length ∧ c.length = 1 := by
    refine ⟨out.take input.length, (out.drop input.length).take (padLength input.length),
      out.drop (input.length + padLength input.length), ?_, ?_, ?_, ?_⟩
    · rw [List.append_assoc, ← List.drop_drop, List.take_append_drop, List.take_append_drop]
    · rw [List.length_take]
      omega
    · rw [List.length_take, List.length_drop, length_padBytes]
      omega
    · rw [List.length_drop]
      omega
  have h1 := store_at Fault.outOfBounds [] (b ++ c) ha
  have h2 := store_at Fault.outOfBounds input c hb
  have h3 : store Fault.outOfBounds (input ++ padBytes (padLength input.length) ++ c ++ [])
      (input ++ padBytes (padLength input.length)).length [UInt8.ofNat (padLength input.length)] =
        _ :=
    store_at Fault.outOfBounds (input ++ padBytes (padLength input.length)) [] hc
  rw [List.nil_append, List.length_nil, List.nil_append, ← List.append_assoc,
    ← List.append_assoc] at h1
  rw [List.append_nil, List.append_nil, List.length_append, length_padBytes] at h3
  unfold padInto
  rw [if_neg (by rw [← hout]; omega), if_neg (not_not.mpr hout)]
  change (store Fault.outOfBounds (a ++ b ++ c) 0 input >>= _) = _
  rw [h1]
  change (store Fault.outOfBounds (input ++ b ++ c) input.length _ >>= _) = _
  rw [h2]
  exact h3

/-- **The padding is recognised exactly.** A payload, the bytes 1, 2, … up to the pad length and the
pad length are accepted with the length of the payload, and nothing else is; no index is out of
range. What `pad` writes fills its blocks, begins with the payload, and is recognised with its
length. -/
theorem payload_exact :
    (∀ decrypted : List UInt8, decrypted ≠ [] → decrypted.length ≤ 65535 → ∃ r,
      payloadLengthOf decrypted = .ok r ∧ ∀ n, r = some n ↔
        ∃ (x : List UInt8) (p : UInt8), decrypted = x ++ padBytes p.toNat ++ [p] ∧ x.length = n) ∧
    (∀ input out : List UInt8, input.length ≤
      65000 → out.length = paddedLength input.length → ∃ padded, padInto input out = .ok padded ∧
        padded.length % 16 = 0 ∧ input <+: padded ∧
        payloadLengthOf padded = .ok (some input.length)) := by
  refine ⟨fun decrypted => payloadLengthOf_ok, fun input out hlen hout => ?_⟩
  have hpad := padLength_le input.length
  have hlength := length_pad input
  have hne : pad input ≠ [] := by
    intro h
    rw [h] at hlength
    unfold paddedLength at hlength
    simp at hlength
  refine ⟨pad input, padInto_ok hlen hout, ?_, ?_, ?_⟩
  · rw [hlength]
    exact paddedLength_mod _
  · unfold pad
    rw [List.append_assoc]
    exact List.prefix_append _ _
  · obtain ⟨r, hrun, hiff⟩ := payloadLengthOf_ok hne (by rw [hlength, paddedLength]; omega)
    have hp : (UInt8.ofNat (padLength input.length)).toNat = padLength input.length := by
      rw [UInt8.toNat_ofNat', Nat.mod_eq_of_lt (by omega)]
    have hsome : r = some input.length :=
      (hiff _).mpr ⟨input, UInt8.ofNat (padLength input.length), by rw [hp]; rfl, rfl⟩
    rw [hrun, hsome]

/-- A payload of three bytes, and a pad that is too long. -/
theorem payload_exact_three :
    (∃ padded, padInto [0x61, 0x62, 0x63] (List.replicate 16 0) = .ok padded ∧
      padded.length % 16 = 0 ∧
      [0x61, 0x62, 0x63] <+: padded ∧ payloadLengthOf padded = .ok (some 3)) ∧
    ∃ r, payloadLengthOf [1, 3] = .ok r ∧ ∀ n, r = some n ↔
      ∃ (x : List UInt8) (p : UInt8), [1, 3] = x ++ padBytes p.toNat ++ [p] ∧ x.length = n :=
  ⟨payload_exact.2 [0x61, 0x62, 0x63] (List.replicate 16 0) (by decide) (by decide),
    payload_exact.1 [1, 3] (by decide) (by decide)⟩

end Ipmitool.Crypto.Payload
