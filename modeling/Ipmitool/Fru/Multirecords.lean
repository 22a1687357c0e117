import Mathlib.Data.List.Basic
import Mathlib.Tactic.Common

/-! # Chains of multirecords

The multirecord area of an inventory device is a chain of records: five bytes of header, the third
of which is the length of the body, and the body. The bytes of a header sum to zero, and a bit of
its second byte ends the list. `adjustMultirecordSize` of `cmd/fru.zig` follows a chain by the
lengths that it finds in the data, and says how long it is. -/

namespace Ipmitool.Fru.Multirecords

theorem next_lt {size offset : ℕ} (b : UInt8) (h : offset + 5 ≤ size) :
    size - (offset + (b.toNat + 5)) < size - offset := by
  omega

/-- The loop of `adjustMultirecordSize` from an offset on. -/
def adjustFrom (data : List UInt8) (offset : ℕ) : Option ℕ :=
  if h : offset + 5 ≤ data.length then
    let header := (data.drop offset).take 5
    let checksum := header.foldl (· + ·) 0
    let length := (header.getD 2 0).toNat + 5
    if data.length - offset < length then none
    else if checksum ≠ 0 then none
    else if header.getD 1 0 &&& 0x80 ≠ 0 then some (offset + length)
    else adjustFrom data (offset + length)
  else none
termination_by data.length - offset
decreasing_by exact next_lt _ h

/-- `adjustMultirecordSize`. -/
def adjustMultirecordSize (data : List UInt8) : Option ℕ := adjustFrom data 0

/-! ### Records -/

/-- A complete record. -/
structure Record where
  kind : UInt8
  flags : UInt8
  bodySum : UInt8
  headerSum : UInt8
  body : List UInt8
  length_lt : body.length < 256
  sum : kind + flags + UInt8.ofNat body.length + bodySum + headerSum = 0

namespace Record

/-- The record as it is stored. -/
def bytes (r : Record) : List UInt8 :=
  r.kind :: r.flags :: UInt8.ofNat r.body.length :: r.bodySum :: r.headerSum :: r.body

/-- Does the record end the list? -/
def final (r : Record) : Prop := r.flags &&& 0x80 ≠ 0

instance (r : Record) : Decidable r.final := inferInstanceAs (Decidable (r.flags &&& 0x80 ≠ 0))

theorem length_bytes (r : Record) : r.bytes.length = r.body.length + 5 := rfl

theorem toNat_length (r : Record) : (UInt8.ofNat r.body.length).toNat = r.body.length := by
  rw [UInt8.toNat_ofNat']
  exact Nat.mod_eq_of_lt r.length_lt

end Record

/-- A chain: only its last record has the bit that ends the list. -/
structure Chain where
  init : List Record
  last : Record
  goes : ∀ r ∈ init, ¬ r.final
  ends : last.final

/-- The chain as it is stored. -/
def Chain.bytes (c : Chain) : List UInt8 := c.init.flatMap Record.bytes ++ c.last.bytes

/-! ### Following a chain -/

/-- What the loop finds at the beginning of the rest of the data. -/
theorem split_record {s : List UInt8} (h5 : 5 ≤ s.length)
    (hlen : ((s.take 5).getD 2 0).toNat + 5 ≤ s.length) (hsum : (s.take 5).foldl (· + ·) 0 = 0) :
    ∃ (r : Record) (rest : List UInt8), s = r.bytes ++ rest ∧
      r.flags = (s.take 5).getD 1 0 ∧ r.body.length = ((s.take 5).getD 2 0).toNat := by
  obtain ⟨kind, flags, length, bodySum, headerSum, t, rfl⟩ : ∃ a b c d e t,
      s = a :: b :: c :: d :: e :: t := by
    rcases s with _ | ⟨a, _ | ⟨b, _ | ⟨c, _ | ⟨d, _ | ⟨e, t⟩⟩⟩⟩⟩
    all_goals first | exact ⟨_, _, _, _, _, _, rfl⟩ | (simp at h5)
  simp only [List.take_succ_cons, List.take_zero, List.getD_cons_succ, List.getD_cons_zero,
    List.length_cons, List.foldl_cons, List.foldl_nil, UInt8.zero_add] at hlen hsum ⊢
  have hbody : (t.take length.toNat).length = length.toNat := by
    rw [List.length_take]
    omega
  have hbyte : UInt8.ofNat (t.take length.toNat).length = length := by
    rw [hbody, UInt8.ofNat_toNat]
  refine ⟨⟨kind, flags, bodySum, headerSum, t.take length.toNat, ?_, ?_⟩, t.drop length.toNat,
    ?_, rfl, hbody⟩
  · rw [hbody]
    exact length.toNat_lt
  · rw [hbyte]
    exact hsum
  · simp only [Record.bytes, hbyte, List.cons_append, List.take_append_drop]

theorem adjustFrom_record {data : List UInt8} {offset : ℕ} {r : Record} {rest : List UInt8}
    (h : data.drop offset = r.bytes ++ rest) : adjustFrom data offset =
      if r.final then some (offset + r.bytes.length)
        else adjustFrom data (offset + r.bytes.length) := by
  have hlength : data.length - offset = r.body.length + 5 + rest.length := by
    rw [← List.length_drop, h, List.length_append, r.length_bytes]
  have hheader : (data.drop offset).take 5 =
      [r.kind, r.flags, UInt8.ofNat r.body.length, r.bodySum, r.headerSum] := by
    rw [h]
    rfl
  have hsum : ((data.drop offset).take 5).foldl (· + ·) 0 = 0 := by
    rw [hheader]
    simpa using r.sum
  rw [hheader] at hsum
  rw [adjustFrom, dif_pos (by omega)]
  simp only [hheader, hsum, List.getD_cons_succ, List.getD_cons_zero, r.toNat_length, ne_eq,
    not_true_eq_false, if_false]
  rw [if_neg (by omega), r.length_bytes]
  rfl

theorem adjustFrom_eq_none {data : List UInt8} {offset : ℕ}
    (h : ∀ (r : Record) (rest : List UInt8), data.drop offset ≠ r.bytes ++ rest) :
    adjustFrom data offset = none := by
  rw [adjustFrom]
  split_ifs with h5
  · dsimp only
    split_ifs with hlen hsum
    · rfl
    · rfl
    all_goals
      have hdrop := List.length_drop (i := offset) (l := data)
      obtain ⟨r, rest, hr, -⟩ := split_record (s := data.drop offset) (by omega) (by omega)
        (not_not.mp hsum)
      exact absurd hr (h r rest)
  · rfl

theorem adjustFrom_some_iff {data : List UInt8} {offset n : ℕ} : adjustFrom data offset = some n ↔
    ∃ (c : Chain) (rest : List UInt8), data.drop offset = c.bytes ++ rest ∧
    n = offset + c.bytes.length := by
  constructor
  · intro h
    obtain ⟨m, hm⟩ : ∃ m, m = data.length - offset := ⟨_, rfl⟩
    induction m using Nat.strongRecOn generalizing offset with
    | ind m ih =>
    by_cases hrec : ∃ (r : Record) (rest : List UInt8), data.drop offset = r.bytes ++ rest
    · obtain ⟨r, rest, hr⟩ := hrec
      rw [adjustFrom_record hr] at h
      split_ifs at h with hfinal
      · exact ⟨⟨[], r, nofun, hfinal⟩, rest, hr, (Option.some.inj h).symm⟩
      · have hlength : data.length - offset = r.body.length + 5 + rest.length := by
          rw [← List.length_drop, hr, List.length_append, r.length_bytes]
        obtain ⟨c, rest', hc, hn⟩ := ih _ (by rw [r.length_bytes]; omega) h rfl
        have hrest : data.drop (offset + r.bytes.length) = rest := by
          rw [← List.drop_drop, hr, List.drop_left]
        refine ⟨⟨r :: c.init, c.last, List.forall_mem_cons.mpr ⟨hfinal, c.goes⟩, c.ends⟩,
          rest', ?_, ?_⟩
        · rw [hr, ← hrest, hc]
          simp [Chain.bytes]
        · rw [hn]
          simp [Chain.bytes, Nat.add_assoc]
    · simp only [not_exists] at hrec
      rw [adjustFrom_eq_none hrec] at h
      cases h
  · rintro ⟨⟨init, last, goes, ends⟩, rest, hdata, rfl⟩
    induction init generalizing offset with
    | nil =>
      rw [adjustFrom_record (r := last) hdata, if_pos ends]
      rfl
    | cons r init ih =>
      obtain ⟨hr, hinit⟩ := List.forall_mem_cons.mp goes
      simp only [Chain.bytes, List.flatMap_cons, List.append_assoc] at hdata
      have hrest : data.drop (offset + r.bytes.length) =
          init.flatMap Record.bytes ++ (last.bytes ++ rest) := by
        rw [← List.drop_drop, hdata, List.drop_left]
      rw [adjustFrom_record hdata, if_neg hr, ih hinit (by rw [hrest]; simp [Chain.bytes])]
      simp [Chain.bytes, Nat.add_assoc]

/-- The size of a multirecord area is the length of the chain that it begins with, and there is none
if it begins with no chain. -/
theorem adjustMultirecordSize_some_iff (data : List UInt8) (n : ℕ) :
    adjustMultirecordSize data = some n ↔
    ∃ (c : Chain) (rest : List UInt8), data = c.bytes ++ rest ∧ n = c.bytes.length := by
  rw [adjustMultirecordSize, adjustFrom_some_iff]
  simp

end Ipmitool.Fru.Multirecords
