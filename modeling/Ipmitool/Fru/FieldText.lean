import Ipmitool.Fru.Edit
import Mathlib.Data.List.TakeWhile

/-! # The text of a field

`field` of `cmd/fru.zig` turns one field of an area into text, in a storage of 128 bytes. Here the
accesses to the area and to the storage are checked: an access outside of them is a fault.
`field_ok` says that there is none, and that the result is `Edit.field` of the area.

A field with the format 2 has characters of six bits. `packed` packs a text of the characters from
20 to 5f hexadecimal, the least significant bits first; it is read back with spaces behind it, as
the bytes are taken three at a time. -/

namespace Ipmitool.Fru.FieldText

open Ipmitool.Lib Ipmitool.Lib.Mem Ipmitool.Lib.Bytes
open Ipmitool.Fru.Edit (twoDigits fourChars sixBit decode)

/-! ### The function -/

/-- An access outside of the area or of the storage, or a format that does not exist. -/
inductive Fault where
  | area
  | storage
  | format
  deriving DecidableEq

/-- A byte of the area. -/
def load (area : List UInt8) (i : ℕ) : Except Fault UInt8 := (area[i]?).elim (.error .area) .ok

/-- Some bytes of the area. -/
def slice (area : List UInt8) (start n : ℕ) : Except Fault (List UInt8) :=
  if start + n ≤ area.length then .ok ((area.drop start).take n) else .error .area

/-- The storage, and `output_len`. -/
structure Out where
  storage : Memory UInt8
  len : ℕ

/-- Store a byte. -/
def put (b : UInt8) (o : Out) : Except Fault Out :=
  if o.len < 128 then .ok ⟨write o.storage o.len [b], o.len + 1⟩ else .error .storage

/-- The two digits of a byte. -/
def putDigits (alphabet : List UInt8) (o : Out) (b : UInt8) : Except Fault Out := do
  let o ← put (alphabet.getD (b >>> 4).toNat 0) o
  put (alphabet.getD (b &&& 0xf).toNat 0) o

/-- The bits of some bytes. -/
def groupBits (group : List UInt8) : UInt32 :=
  group.zipIdx.foldl (fun bits x => bits ||| x.1.toUInt32 <<< UInt32.ofNat (x.2 * 8)) 0

/-- Characters of six bits. -/
def putSix : ℕ → UInt32 → Out → Except Fault Out
  | 0, _, o => .ok o
  | n + 1, bits, o => do
    let o ← put ((bits &&& 0x3f).toUInt8 + 0x20) o
    putSix n (bits >>> 6) o

theorem group_lt {size at' : ℕ} (h : at' < size) : size - (at' + 3) < size - at' := by
  omega

/-- The bytes from `at'` on, three at a time. -/
def putGroups (raw : List UInt8) (at' : ℕ) (o : Out) : Except Fault Out :=
  if _h : at' < raw.length then do
    let o ← putSix 4 (groupBits ((raw.drop at').take 3)) o
    putGroups raw (at' + 3) o
  else .ok o
termination_by raw.length - at'
decreasing_by exact group_lt _h

/-- The bytes as they are. -/
def putRaw (raw : List UInt8) (o : Out) : Except Fault Out :=
  if raw.length ≤ 128 then .ok ⟨write o.storage 0 raw, raw.length⟩ else .error .storage

/-- The bytes of a field as text. -/
def putField (format : UInt8) (raw : List UInt8) (o : Out) : Except Fault Out :=
  if format = 0 then raw.foldlM (putDigits (ascii "0123456789abcdef")) o
  else if format = 1 then raw.foldlM (putDigits (ascii "0123456789 -.:,_")) o
  else if format = 2 then putGroups raw 0 o
  else if format = 3 then putRaw raw o
  else .error .format

/-- The text in the storage, up to a zero. -/
def text (o : Out) : Except Fault (List UInt8) :=
  if o.len ≤ 128 then .ok ((read o.storage 0 o.len).takeWhile (· ≠ 0)) else .error .storage

/-- `field`: the text, the cursor and the storage. -/
def field (area : List UInt8) (pos : ℕ) (storage : Memory UInt8) :
    Except Fault (List UInt8 × ℕ × Memory UInt8) := do
  if area.length ≤ pos then return ([], pos, storage)
  let descriptor ← load area pos
  let len := (descriptor &&& 0x3f).toNat
  if area.length - (pos + 1) < len then return ([], area.length, storage)
  let raw ← slice area (pos + 1) len
  let o ← putField (descriptor >>> 6) raw ⟨storage, 0⟩
  let value ← text o
  return (value, pos + 1 + len, o.storage)

/-! ### No fault -/

/-- `l` is in the storage. -/
structure Wrote (o : Out) (l : List UInt8) : Prop where
  len : o.len = l.length
  holds : Holds o.storage 0 l

theorem put_ok {o : Out} {l : List UInt8} (h : Wrote o l) (hlen : l.length < 128) (b : UInt8) :
    ∃ o', put b o = .ok o' ∧ Wrote o' (l ++ [b]) := by
  have hlt : o.len < 128 := by
    rw [h.len]
    exact hlen
  refine ⟨_, if_pos hlt, ?_, holds_append.mpr ⟨h.holds.write_behind (by rw [h.len]; omega) _, ?_⟩⟩
  · rw [List.length_append, h.len, List.length_singleton]
  · rw [Nat.zero_add, h.len]
    exact holds_write _ _ _

theorem putDigits_ok {o : Out} {l : List UInt8} (h : Wrote o l) (hlen : l.length + 2 ≤ 128)
    (alphabet : List UInt8) (b : UInt8) :
    ∃ o', putDigits alphabet o b = .ok o' ∧ Wrote o' (l ++ twoDigits alphabet b) := by
  have hhigh : (b >>> 4).toNat = b.toNat / 16 := by
    rw [UInt8.toNat_shiftRight, Nat.shiftRight_eq_div_pow]
    rfl
  have hlow : (b &&& 0xf).toNat = b.toNat % 16 := by
    rw [UInt8.toNat_and]
    exact Nat.and_two_pow_sub_one_eq_mod _ 4
  unfold putDigits
  rw [hhigh, hlow]
  obtain ⟨o1, h1, hw1⟩ := put_ok h (by omega) (alphabet.getD (b.toNat / 16) 0)
  obtain ⟨o2, h2, hw2⟩ := put_ok hw1 (by rw [List.length_append, List.length_singleton]; omega)
    (alphabet.getD (b.toNat % 16) 0)
  rw [List.append_assoc] at hw2
  refine ⟨o2, ?_, hw2⟩
  rw [h1]
  exact h2

theorem putAll_ok (alphabet : List UInt8) : ∀ (raw : List UInt8) {o : Out}
    {l : List UInt8}, Wrote o l →
    l.length + 2 * raw.length ≤ 128 → ∃ o', raw.foldlM (putDigits alphabet) o = .ok o' ∧
      Wrote o' (l ++ raw.flatMap (twoDigits alphabet))
  | [], o, l, h, _ => ⟨o, rfl, by rwa [List.flatMap_nil, List.append_nil]⟩
  | b :: raw, o, l, h, hlen => by
    rw [List.length_cons] at hlen
    obtain ⟨o1, h1, hw1⟩ := putDigits_ok h (by omega) alphabet b
    obtain ⟨o2, h2, hw2⟩ := putAll_ok alphabet raw hw1 (by simp [twoDigits]; omega)
    refine ⟨o2, ?_, ?_⟩
    · rw [List.foldlM_cons, h1]
      exact h2
    · rwa [List.flatMap_cons, ← List.append_assoc]

/-- A number in characters of six bits, the least significant first. -/
def chars : ℕ → ℕ → List UInt8
  | 0, _ => []
  | n + 1, x => UInt8.ofNat (x % 64 + 32) :: chars n (x / 64)

@[simp] theorem length_chars : ∀ n x, (chars n x).length = n
  | 0, _ => rfl
  | n + 1, x => congrArg (· + 1) (length_chars n (x / 64))

theorem putSix_ok : ∀ (n : ℕ) (bits : UInt32) {o : Out} {l : List UInt8}, Wrote o l →
    l.length + n ≤ 128 →
    ∃ o', putSix n bits o = .ok o' ∧ Wrote o' (l ++ chars n bits.toNat)
  | 0, _, o, l, h, _ => ⟨o, rfl, by rwa [chars, List.append_nil]⟩
  | n + 1, bits, o, l, h, hlen => by
    have hchar : (bits &&& 0x3f).toUInt8 + 0x20 = UInt8.ofNat (bits.toNat % 64 + 32) := by
      refine UInt8.toNat_inj.mp ?_
      have hand : (bits &&& 0x3f).toNat = bits.toNat % 64 := by
        rw [UInt32.toNat_and]
        exact Nat.and_two_pow_sub_one_eq_mod _ 6
      rw [UInt8.toNat_add, UInt32.toNat_toUInt8, hand, UInt8.toNat_ofNat']
      rw [show (0x20 : UInt8).toNat = 32 from rfl]
      omega
    have hrest : (bits >>> 6).toNat = bits.toNat / 64 := by
      rw [UInt32.toNat_shiftRight, Nat.shiftRight_eq_div_pow]
      rfl
    obtain ⟨o1, h1, hw1⟩ := put_ok h (by omega) ((bits &&& 0x3f).toUInt8 + 0x20)
    obtain ⟨o2, h2, hw2⟩ :=
      putSix_ok n (bits >>> 6) hw1 (by rw [List.length_append, List.length_singleton]; omega)
    refine ⟨o2, ?_, ?_⟩
    · rw [putSix, h1]
      exact h2
    · rw [hrest, hchar, List.append_assoc] at hw2
      exact hw2

theorem groupBits_one (a : UInt8) : (groupBits [a]).toNat = a.toNat := by
  simp [groupBits]

theorem groupBits_two (a b : UInt8) : (groupBits [a, b]).toNat = a.toNat + 256 * b.toNat := by
  have h := toNat_or24 a b 0
  simpa [groupBits] using h

theorem groupBits_three (a b c : UInt8) :
    (groupBits [a, b, c]).toNat = a.toNat + 256 * b.toNat + 65536 * c.toNat := by
  have h := toNat_or24 a b c
  simpa [groupBits] using h

theorem fourChars_eq (a b c : UInt8) :
    fourChars a b c = chars 4 (a.toNat + 256 * b.toNat + 65536 * c.toNat) := by
  simp only [fourChars, chars, Nat.div_div_eq_div_mul, Nat.reduceMul]

theorem sixBit_group : ∀ {raw : List UInt8}, raw ≠ [] →
    sixBit raw = chars 4 (groupBits (raw.take 3)).toNat ++ sixBit (raw.drop 3)
  | [a], _ => by
    rw [show [a].take 3 = [a] from rfl, show [a].drop 3 = [] from rfl, groupBits_one]
    simp [sixBit, fourChars_eq]
  | [a, b], _ => by
    rw [show [a, b].take 3 = [a, b] from rfl, show [a, b].drop 3 = [] from rfl, groupBits_two]
    simp [sixBit, fourChars_eq]
  | a :: b :: c :: rest, _ => by
    rw [show (a :: b :: c :: rest).take 3 = [a, b, c] from rfl,
      show (a :: b :: c :: rest).drop 3 = rest from rfl, groupBits_three, sixBit, fourChars_eq]

theorem length_sixBit : ∀ raw : List UInt8, (sixBit raw).length = 4 * ((raw.length + 2) / 3)
  | [] => rfl
  | [_] => by simp [sixBit, fourChars]
  | [_, _] => by simp [sixBit, fourChars]
  | a :: b :: c :: rest => by
    have ih := length_sixBit rest
    rw [sixBit, List.length_append, ih]
    simp only [fourChars, List.length_cons, List.length_nil]
    omega

theorem putGroups_ok (raw : List UInt8) (at' : ℕ) {o : Out} {l : List UInt8} (h : Wrote o l)
    (hlen : l.length + (sixBit (raw.drop at')).length ≤ 128) :
    ∃ o', putGroups raw at' o = .ok o' ∧ Wrote o' (l ++ sixBit (raw.drop at')) := by
  rw [putGroups]
  split_ifs with hat
  · have hne : raw.drop at' ≠ [] := List.ne_nil_of_length_pos (by rw [List.length_drop]; omega)
    rw [sixBit_group hne, List.drop_drop] at hlen ⊢
    rw [List.length_append, length_chars] at hlen
    obtain ⟨o1, h1, hw1⟩ := putSix_ok 4 (groupBits ((raw.drop at').take 3)) h (by omega)
    obtain ⟨o2, h2, hw2⟩ :=
      putGroups_ok raw (at' + 3) hw1 (by rw [List.length_append, length_chars]; omega)
    refine ⟨o2, ?_, by rwa [← List.append_assoc]⟩
    rw [h1]
    exact h2
  · rw [List.drop_eq_nil_of_le (by omega), sixBit, List.append_nil]
    exact ⟨o, rfl, h⟩
termination_by raw.length - at'

theorem putField_ok {format : UInt8} (hformat : format < 4) (raw : List UInt8)
    (hraw : raw.length ≤ 63) (storage : Memory UInt8) :
    ∃ o, putField format raw ⟨storage, 0⟩ = .ok o ∧ Wrote o (decode format raw) := by
  have hempty : Wrote ⟨storage, 0⟩ [] := ⟨rfl, holds_nil _ _⟩
  unfold putField decode
  split_ifs with h0 h1 h2 h3
  · exact putAll_ok _ raw hempty (by simp; omega)
  · exact putAll_ok _ raw hempty (by simp; omega)
  · have hlen := length_sixBit raw
    exact putGroups_ok raw 0 hempty (by rw [List.drop_zero, List.length_nil]; omega)
  · exact ⟨_, if_pos (by omega), rfl, holds_write storage 0 raw⟩
  · have hlt : format.toNat < 4 := hformat
    have hcases : format.toNat = 0 ∨ format.toNat = 1 ∨ format.toNat = 2 ∨ format.toNat = 3 := by
      omega
    rcases hcases with h | h | h | h
    · exact absurd (UInt8.toNat_inj.mp h) h0
    · exact absurd (UInt8.toNat_inj.mp h) h1
    · exact absurd (UInt8.toNat_inj.mp h) h2
    · exact absurd (UInt8.toNat_inj.mp h) h3

/-- The cells of an area. -/
def cells (area : List UInt8) : Memory UInt8 := fun i => area.getD i 0

theorem load_ok {area : List UInt8} {i : ℕ} (h : i < area.length) :
    load area i = .ok (cells area i) := by
  simp [load, cells, h]

theorem slice_ok {area : List UInt8} {start n : ℕ} (h : start + n ≤ area.length) :
    slice area start n = .ok (read (cells area) start n) := by
  rw [slice, if_pos h]
  refine congrArg _ (List.ext_getElem ?_ fun i h1 h2 => ?_)
  · rw [List.length_take, List.length_drop, length_read]
    omega
  · rw [length_read] at h2
    rw [List.getElem_take, List.getElem_drop, getElem_read]
    simp [cells, List.getElem?_eq_getElem (show start + i < area.length by omega)]

theorem text_ok {o : Out} {l : List UInt8} (h : Wrote o l) (hlen : l.length ≤ 128) :
    text o = .ok (l.takeWhile (· ≠ 0)) := by
  rw [text, if_pos (by rw [h.len]; exact hlen), h.len]
  exact congrArg _ (congrArg _ h.holds)

theorem length_decode {format : UInt8} {raw : List UInt8} (h : raw.length ≤ 63) :
    (decode format raw).length ≤ 128 := by
  have hsix := length_sixBit raw
  unfold decode
  split_ifs
  · simp [twoDigits]
    omega
  · simp [twoDigits]
    omega
  · omega
  · omega

theorem descriptor_lt (b : UInt8) : b >>> 6 < 4 ∧ (b &&& 0x3f).toNat ≤ 63 := by
  constructor
  · rw [UInt8.lt_iff_toNat_lt, UInt8.toNat_shiftRight, Nat.shiftRight_eq_div_pow]
    have := b.toNat_lt
    exact Nat.div_lt_of_lt_mul this
  · rw [UInt8.toNat_and]
    exact Nat.and_le_right

/-- No access is outside of the area or of the storage, and the result is the one of
`Edit.field`. -/
theorem field_ok (area : List UInt8) (pos : ℕ) (storage : Memory UInt8) : ∃ storage',
    field area pos storage = .ok ((Edit.field (cells area) area.length pos).1,
      (Edit.field (cells area) area.length pos).2, storage') := by
  unfold field Edit.field
  by_cases hpos : area.length ≤ pos
  · rw [if_pos hpos, if_pos hpos]
    exact ⟨storage, rfl⟩
  rw [if_neg hpos, if_neg hpos, load_ok (Nat.lt_of_not_le hpos)]
  obtain ⟨hformat, hshort⟩ := descriptor_lt (cells area pos)
  by_cases hlen : area.length - (pos + 1) < (cells area pos &&& 0x3f).toNat
  · dsimp only
    rw [if_pos hlen]
    refine ⟨storage, ?_⟩
    change (if _ then _ else _) = _
    rw [if_pos hlen]
    rfl
  · obtain ⟨o, ho, hw⟩ := putField_ok hformat
      (read (cells area) (pos + 1) (cells area pos &&& 0x3f).toNat)
        (by rw [length_read]; exact hshort) storage
    have htext := text_ok hw (length_decode (by rw [length_read]; exact hshort))
    dsimp only
    rw [if_neg hlen]
    refine ⟨o.storage, ?_⟩
    change (if _ then _ else _) = _
    rw [if_neg hlen, slice_ok (by omega)]
    change (putField _ _ _ >>= _) = _
    rw [ho]
    change (text o >>= _) = _
    rw [htext]
    rfl

/-! ### Characters of six bits -/

/-- The bytes of a number, the least significant first. -/
def leBytes : ℕ → ℕ → List UInt8
  | 0, _ => []
  | n + 1, x => UInt8.ofNat (x % 256) :: leBytes n (x / 256)

/-- A text as a number, with six bits for each character. -/
def number : List UInt8 → ℕ
  | [] => 0
  | c :: s => (c.toNat - 32) + 64 * number s

/-- A text in as few bytes as possible. -/
def packed (s : List UInt8) : List UInt8 := leBytes ((6 * s.length + 7) / 8) (number s)

/-- The characters that have six bits. -/
def Six (s : List UInt8) : Prop := ∀ c ∈ s, 0x20 ≤ c ∧ c ≤ 0x5f

theorem number_lt : ∀ {s : List UInt8}, Six s → number s < 64 ^ s.length
  | [], _ => Nat.one_pos
  | c :: s, h => by
    obtain ⟨⟨-, hc⟩, hs⟩ := List.forall_mem_cons.mp h
    have hle : c.toNat ≤ 95 := hc
    have ih := number_lt hs
    rw [number, List.length_cons, Nat.pow_succ]
    omega

/-- The characters of a number, from those of its remainder and of its quotient. -/
theorem chars_add_four (n x : ℕ) : chars (n + 4) x =
    chars 4 (x % 16777216) ++ chars n (x / 16777216) := by
  have h0 : x % 16777216 % 64 = x % 64 := by omega
  have h1 : x % 16777216 / 64 % 64 = x / 64 % 64 := by omega
  have h2 : x % 16777216 / 4096 % 64 = x / 4096 % 64 := by omega
  have h3 : x % 16777216 / 262144 % 64 = x / 262144 % 64 := by omega
  simp only [chars, Nat.div_div_eq_div_mul, Nat.reduceMul, List.cons_append, List.nil_append,
    h0, h1, h2, h3]

theorem toNat_byte (x : ℕ) : (UInt8.ofNat (x % 256)).toNat = x % 256 := by
  rw [UInt8.toNat_ofNat']
  omega

/-- The characters of the bytes of a number are those of the number. -/
theorem sixBit_leBytes : ∀ {n x : ℕ}, x < 256 ^ n →
    sixBit (leBytes n x) = chars (4 * ((n + 2) / 3)) x
  | 0, x, h => rfl
  | 1, x, h => by
    have hx : x % 256 + 256 * 0 + 65536 * 0 = x := by omega
    simp only [leBytes, sixBit, fourChars_eq, toNat_byte, UInt8.toNat_zero, hx]
    rfl
  | 2, x, h => by
    have hx : x % 256 + 256 * (x / 256 % 256) + 65536 * 0 = x := by omega
    simp only [leBytes, sixBit, fourChars_eq, toNat_byte, UInt8.toNat_zero, hx]
  | n + 3, x, h => by
    have hx : x % 256 + 256 * (x / 256 % 256) + 65536 * (x / 65536 % 256) = x % 16777216 := by omega
    have hlt : x / 16777216 < 256 ^ n := by
      refine Nat.div_lt_of_lt_mul (lt_of_lt_of_eq h ?_)
      rw [Nat.pow_add, Nat.mul_comm]
    have hcount : 4 * ((n + 3 + 2) / 3) = 4 * ((n + 2) / 3) + 4 := by omega
    simp only [leBytes, sixBit, fourChars_eq, toNat_byte, Nat.div_div_eq_div_mul, Nat.reduceMul, hx]
    rw [sixBit_leBytes hlt, hcount, chars_add_four (4 * ((n + 2) / 3)) x]

/-- The characters of the number of a text are the text, and spaces. -/
theorem chars_number (k : ℕ) : ∀ {s : List UInt8}, Six s →
    chars (s.length + k) (number s) = s ++ List.replicate k 0x20
  | [], _ => by
    rw [List.length_nil, Nat.zero_add, List.nil_append, number]
    induction k with
    | zero => rfl
    | succ k ih =>
      rw [chars, List.replicate_succ, Nat.zero_div, ih]
      rfl
  | c :: s, h => by
    obtain ⟨⟨hlow, hc⟩, hs⟩ := List.forall_mem_cons.mp h
    have hge : 32 ≤ c.toNat := hlow
    have hle : c.toNat ≤ 95 := hc
    have hmod : ((c.toNat - 32) + 64 * number s) % 64 + 32 = c.toNat := by omega
    have hdiv : ((c.toNat - 32) + 64 * number s) / 64 = number s := by omega
    rw [List.length_cons, Nat.add_right_comm, chars, number, hmod, hdiv, chars_number k hs,
      UInt8.ofNat_toNat, List.cons_append]

/-- A packed text is read back with spaces behind it, up to a multiple of four characters. -/
theorem sixBit_packed {s : List UInt8} (h : Six s) :
    ∃ k < 4, 4 ∣ s.length + k ∧ sixBit (packed s) = s ++ List.replicate k 0x20 := by
  have hlt : number s < 256 ^ ((6 * s.length + 7) / 8) := by
    refine (number_lt h).trans_le ?_
    rw [show 64 = 2 ^ 6 from rfl, show 256 = 2 ^ 8 from rfl, ← Nat.pow_mul, ← Nat.pow_mul]
    exact Nat.pow_le_pow_right Nat.two_pos (by omega)
  obtain ⟨k, hk⟩ : ∃ k, 4 * (((6 * s.length + 7) / 8 + 2) / 3) = s.length + k :=
    ⟨4 * (((6 * s.length + 7) / 8 + 2) / 3) - s.length, by omega⟩
  refine ⟨k, by omega, by omega, ?_⟩
  rw [packed, sixBit_leBytes hlt, hk, chars_number k h]

/-! ### What a text says -/

/-- The text that the bytes of a field have, by their format. -/
structure Decodes (format : UInt8) (raw text : List UInt8) : Prop where
  binary : format = 0 → text = raw.flatMap (twoDigits (ascii "0123456789abcdef"))
  bcdPlus : format = 1 → text = raw.flatMap (twoDigits (ascii "0123456789 -.:,_"))
  sixBit : format = 2 → ∀ s, Six s → raw = packed s →
    ∃ k < 4, 4 ∣ s.length + k ∧ text = s ++ List.replicate k 0x20
  eightBit : format = 3 → text = raw.takeWhile (· ≠ 0)

theorem takeWhile_digits {alphabet : List UInt8} (h : ∀ i < 16, alphabet.getD i 0 ≠ 0)
    (raw : List UInt8) :
    (raw.flatMap (twoDigits alphabet)).takeWhile (· ≠ 0) = raw.flatMap (twoDigits alphabet) := by
  refine List.takeWhile_eq_self_iff.mpr fun c hc => ?_
  obtain ⟨b, -, hb⟩ := List.mem_flatMap.mp hc
  have hlt := b.toNat_lt
  have hhigh := h (b.toNat / 16) (by omega)
  have hlow := h (b.toNat % 16) (by omega)
  simp only [twoDigits, List.mem_cons, List.not_mem_nil, or_false] at hb
  rcases hb with rfl | rfl
  · exact decide_eq_true hhigh
  · exact decide_eq_true hlow

theorem decodes (format : UInt8) (raw : List UInt8) :
    Decodes format raw ((decode format raw).takeWhile (· ≠ 0)) where
  binary h := by
    rw [h]
    exact takeWhile_digits (by decide) raw
  bcdPlus h := by
    rw [h]
    exact takeWhile_digits (by decide) raw
  sixBit h s hs hraw := by
    obtain ⟨k, hk, hdvd, htext⟩ := sixBit_packed hs
    refine ⟨k, hk, hdvd, ?_⟩
    rw [h, hraw]
    change (Edit.sixBit (packed s)).takeWhile _ = _
    rw [htext]
    refine List.takeWhile_eq_self_iff.mpr fun c hc => decide_eq_true ?_
    rintro rfl
    rcases List.mem_append.mp hc with hc | hc
    · exact absurd (hs 0 hc).1 (by decide)
    · exact absurd (List.eq_of_mem_replicate hc) (by decide)
  eightBit h := by
    rw [h]
    rfl

/-- `field` makes no access outside of the area or of its storage. Its text is what the bytes of the
field say, and the cursor is behind the field, or at the end of the area if the area has less than
the field. At the end of the area and behind it there is no field, and the cursor stays. -/
theorem field_spec (area : List UInt8) (pos : ℕ) (storage : Memory UInt8) : ∃ value pos' storage',
    field area pos storage = .ok (value, pos', storage') ∧
      (area.length ≤ pos → value = [] ∧ pos' = pos) ∧
      ∀ b, area[pos]? = some b →
        (area.length < pos + 1 + (b &&& 0x3f).toNat → value = [] ∧ pos' = area.length) ∧
        (pos + 1 + (b &&& 0x3f).toNat ≤ area.length → pos' = pos + 1 + (b &&& 0x3f).toNat ∧
          Decodes (b >>> 6) ((area.drop (pos + 1)).take (b &&& 0x3f).toNat) value) := by
  obtain ⟨storage', h⟩ := field_ok area pos storage
  refine ⟨_, _, storage', h, fun hpos => ?_, fun b hb => ?_⟩
  · unfold Edit.field
    rw [if_pos hpos]
    exact ⟨rfl, rfl⟩
  · obtain ⟨hlt, hcell⟩ := List.getElem?_eq_some_iff.mp hb
    have hcells : cells area pos = b := by
      simp [cells, hb]
    unfold Edit.field
    rw [if_neg (Nat.not_le.mpr hlt), hcells]
    dsimp only
    constructor
    · intro hlen
      rw [if_pos (by omega)]
      exact ⟨rfl, rfl⟩
    · intro hlen
      have hraw := slice_ok hlen
      rw [slice, if_pos hlen] at hraw
      rw [if_neg (by omega), Except.ok.inj hraw]
      exact ⟨rfl, decodes _ _⟩

/-- Four characters in three bytes. -/
theorem field_spec_packed : ∃ storage',
    field [0x83, 0x29, 0xdc, 0xa6] 0 (fun _ => 0) = .ok (ascii "IPMI", 4, storage') := by
  obtain ⟨value, pos', storage', h, -, hfield⟩ := field_spec [0x83, 0x29, 0xdc, 0xa6] 0 fun _ => 0
  obtain ⟨hpos, htext⟩ := (hfield 0x83 rfl).2 (by decide)
  obtain ⟨k, hk, hdvd, hvalue⟩ := htext.sixBit rfl (ascii "IPMI") (by unfold Six; decide +kernel)
    (by decide +kernel)
  have hlen : (ascii "IPMI").length = 4 := by decide +kernel
  obtain rfl : k = 0 := by omega
  rw [List.replicate_zero, List.append_nil] at hvalue
  exact ⟨storage', by rw [h, hpos, hvalue]; rfl⟩

/-- A cursor behind the end of the area stays there. -/
theorem field_behind : ¬ ∀ area pos storage value pos' storage', field area pos storage =
    .ok (value, pos', storage') →
    (∃ n, pos' = pos + 1 + n) ∨ pos' = area.length := by
  intro h
  rcases h [] 1 (fun _ => 0) [] 1 (fun _ => 0) rfl with ⟨n, hn⟩ | hn
  · omega
  · cases hn

end Ipmitool.Fru.FieldText
