import Ipmitool.Lib.Slices

/-! # Records for electronic keying

Three parsers of `cmd/ekanalyzer.zig`. `parseRecords` follows the chain of multirecords of an
inventory file, `resources` takes the body of a carrier record apart, `parseAmc` the body of a
module record. Their counts and lengths come from the data. All reads are checked, and allocations
succeed. -/

namespace Ipmitool.Ekanalyzer.Records

open Ipmitool.Lib.Slices

/-! ### Multirecords -/

/-- `Record`. -/
structure Record where
  typ : UInt8
  format : UInt8
  checksum : UInt8
  headerChecksum : UInt8
  data : List UInt8
  deriving DecidableEq

theorem next_lt {size offset : ℕ} (n : ℕ) (h : ¬ (size < offset ∨ size - offset < 5)) :
    size - (offset + (5 + n)) < size - offset := by
  omega

/-- The loop of `parseRecords`. -/
def parseFrom (data : List UInt8) (offset : ℕ) (records : List Record) :
    Except Fault (Option (List Record)) :=
  if _h : data.length < offset ∨ data.length - offset < 5 then .ok none
  else do
    let len ← get data (offset + 2)
    if len = 0 ∨ data.length - offset - 5 < len.toNat then return none
    let typ ← get data offset
    let format ← get data (offset + 1)
    let checksum ← get data (offset + 3)
    let headerChecksum ← get data (offset + 4)
    let body ← slice data (offset + 5) len.toNat
    let item : Record := ⟨typ, format, checksum, headerChecksum, body⟩
    if format &&& 0x80 ≠ 0 then return some (records ++ [item])
    parseFrom data (offset + (5 + len.toNat)) (records ++ [item])
termination_by data.length - offset
decreasing_by exact next_lt _ _h

/-- `parseRecords`. -/
def parseRecords (data : List UInt8) : Except Fault (Option (List Record)) := do
  if data.length ≤ 5 then return none
  let start ← get data 5
  if start = 0 then return none
  parseFrom data (start.toNat * 8) []

/-- The record as it is stored. -/
def Record.bytes (r : Record) : List UInt8 :=
  r.typ :: r.format :: UInt8.ofNat r.data.length :: r.checksum :: r.headerChecksum :: r.data

/-- The body has as many bytes as its length byte can say, and at least one. -/
def Record.Fits (r : Record) : Prop := 1 ≤ r.data.length ∧ r.data.length ≤ 255

/-- Does the record end the list? -/
def Record.Final (r : Record) : Prop := r.format &&& 0x80 ≠ 0

instance (r : Record) : Decidable r.Final := inferInstanceAs (Decidable (r.format &&& 0x80 ≠ 0))

/-- Complete records, of which the last one ends the list and no other does. -/
def Chain (records : List Record) : Prop :=
  ∃ init last, records = init ++ [last] ∧ (∀ r ∈ init, r.Fits ∧ ¬ r.Final) ∧ last.Fits ∧ last.Final

theorem Record.length_bytes (r : Record) : r.bytes.length = 5 + r.data.length := by
  simp [bytes]
  omega

theorem parseFrom_record {data rest : List UInt8} {offset : ℕ} {r : Record} (hr : r.Fits)
    (h : data.drop offset = r.bytes ++ rest) (records : List Record) :
    parseFrom data offset records =
      if r.Final then .ok (some (records ++ [r])) else parseFrom data (offset + r.bytes.length)
        (records ++ [r]) := by
  obtain ⟨hpos, hle⟩ := hr
  have hlen : offset + (r.bytes ++ rest).length = data.length :=
    le_length_of_drop h (by simp [Record.bytes])
  rw [List.length_append, r.length_bytes] at hlen
  have hbyte : (UInt8.ofNat r.data.length).toNat = r.data.length := by
    rw [UInt8.toNat_ofNat']
    omega
  have hne : UInt8.ofNat r.data.length ≠ 0 := by
    intro h0
    rw [h0] at hbyte
    exact absurd hbyte.symm (by rw [UInt8.toNat_zero]; omega)
  have hbody : slice data (offset + 5) r.data.length = .ok r.data := by
    rw [slice_add h (by rw [List.length_append, r.length_bytes]; omega) (by omega)]
    simp [Record.bytes]
  rw [parseFrom, dif_neg (by omega), get_add h, get_add h, get_add h, get_add h,
    ← Nat.add_zero offset, get_add h, Nat.add_zero]
  simp only [Record.bytes, List.cons_append, get_succ, get_zero, ok_bind, hbyte, hbody]
  rw [if_neg (not_or.mpr ⟨hne, by omega⟩)]
  simp only [List.length_cons, Nat.add_comm 5]
  rfl

theorem exists_five {α : Type} {l : List α} (h : 5 ≤ l.length) :
    ∃ a b c d e t, l = a :: b :: c :: d :: e :: t := by
  rcases l with _ | ⟨a, _ | ⟨b, _ | ⟨c, _ | ⟨d, _ | ⟨e, t⟩⟩⟩⟩⟩
  all_goals first | exact ⟨_, _, _, _, _, _, rfl⟩ | (simp at h)

theorem parseFrom_none {data : List UInt8} {offset : ℕ}
    (h : ∀ (r : Record) (rest : List UInt8), r.Fits → data.drop offset ≠ r.bytes ++ rest)
    (records : List Record) :
    parseFrom data offset records = .ok none := by
  rw [parseFrom]
  by_cases hend : data.length < offset ∨ data.length - offset < 5
  · rw [dif_pos hend]
  have hlen := List.length_drop (i := offset) (l := data)
  obtain ⟨typ, format, len, checksum, headerChecksum, t, hdrop⟩ :=
    exists_five (l := data.drop offset) (by omega)
  rw [hdrop, List.length_cons, List.length_cons, List.length_cons, List.length_cons,
    List.length_cons] at hlen
  rw [dif_neg hend, get_add hdrop]
  simp only [get_succ, get_zero, ok_bind]
  by_cases hshort : len = 0 ∨ data.length - offset - 5 < len.toNat
  · rw [if_pos hshort]
    rfl
  · obtain ⟨hne, hle⟩ := not_or.mp hshort
    have hpos : len.toNat ≠ 0 := fun h0 => hne (UInt8.toNat_inj.mp h0)
    have hlt := len.toNat_lt
    have hbody : (t.take len.toNat).length = len.toNat := by
      rw [List.length_take]
      omega
    refine absurd ?_ (h ⟨typ, format, checksum, headerChecksum, t.take len.toNat⟩ (t.drop len.toNat)
      ⟨by dsimp only; omega, by dsimp only; omega⟩)
    rw [hdrop]
    simp only [Record.bytes, hbody, UInt8.ofNat_toNat, List.cons_append, List.take_append_drop]

theorem Record.Fits.toNat_length {r : Record} (h : r.Fits) :
    (UInt8.ofNat r.data.length).toNat = r.data.length := by
  have hle := h.2
  rw [UInt8.toNat_ofNat']
  omega

theorem bytes_inj {r s : Record} {t u : List UInt8} (hr : r.Fits) (hs : s.Fits)
    (h : r.bytes ++ t = s.bytes ++ u) :
    r = s ∧ t = u := by
  obtain ⟨typ, format, checksum, headerChecksum, data⟩ := r
  obtain ⟨typ', format', checksum', headerChecksum', data'⟩ := s
  simp only [Record.bytes, List.cons_append, List.cons.injEq] at h
  obtain ⟨rfl, rfl, hlen, rfl, rfl, happ⟩ := h
  have hlength : data.length = data'.length := by
    rw [← hr.toNat_length, ← hs.toNat_length, hlen]
  obtain ⟨rfl, rfl⟩ := List.append_inj happ hlength
  exact ⟨rfl, rfl⟩

theorem chain_singleton {r : Record} (hr : r.Fits) (hfinal : r.Final) : Chain [r] :=
  ⟨[], r, rfl, nofun, hr, hfinal⟩

theorem Chain.cons {r : Record} {chain : List Record} (hr : r.Fits) (hgoes : ¬ r.Final)
    (h : Chain chain) :
    Chain (r :: chain) := by
  obtain ⟨init, last, rfl, hinit, hlast⟩ := h
  exact ⟨r :: init, last, rfl, List.forall_mem_cons.mpr ⟨⟨hr, hgoes⟩, hinit⟩, hlast⟩

/-- A chain begins with a record, behind which is a chain or nothing. -/
theorem Chain.exists_cons {chain : List Record} (h : Chain chain) :
    ∃ r more, chain = r :: more ∧ r.Fits ∧
    ((r.Final ∧ more = []) ∨ (¬ r.Final ∧ Chain more)) := by
  obtain ⟨init, last, rfl, hinit, hlast, hfinal⟩ := h
  rcases init with _ | ⟨r, init⟩
  · exact ⟨last, [], rfl, hlast, .inl ⟨hfinal, rfl⟩⟩
  · obtain ⟨⟨hr, hgoes⟩, hinit⟩ := List.forall_mem_cons.mp hinit
    exact ⟨r, init ++ [last], rfl, hr, .inr ⟨hgoes, init, last, rfl, hinit, hlast, hfinal⟩⟩

/-- From an offset on the loop follows a chain, and makes no read outside of the data. -/
theorem parseFrom_ok (data : List UInt8) (offset : ℕ) (records : List Record) :
    ∃ result, parseFrom data offset records = .ok result ∧
      ∀ out, result = some out ↔ ∃ chain rest, Chain chain ∧ out = records ++ chain ∧
        data.drop offset = chain.flatMap Record.bytes ++ rest := by
  obtain ⟨m, hm⟩ : ∃ m, m = data.length - offset := ⟨_, rfl⟩
  induction m using Nat.strongRecOn generalizing offset records with
  | ind m ih =>
  by_cases hrec : ∃ (r : Record) (rest : List UInt8), r.Fits ∧ data.drop offset = r.bytes ++ rest
  · obtain ⟨r, rest, hfits, hr⟩ := hrec
    rw [parseFrom_record hfits hr]
    have hfirst : ∀ {s more rest'}, Record.Fits s →
        data.drop offset = (s :: more).flatMap Record.bytes ++ rest' →
        r = s ∧ rest = more.flatMap Record.bytes ++ rest' := by
      intro s more rest' hs hd
      rw [List.flatMap_cons, List.append_assoc] at hd
      exact bytes_inj hfits hs (hr.symm.trans hd)
    by_cases hfinal : r.Final
    · rw [if_pos hfinal]
      refine ⟨_, rfl, fun out => ⟨fun hout => ?_, ?_⟩⟩
      · refine ⟨[r], rest, chain_singleton hfits hfinal, (Option.some.inj hout).symm, ?_⟩
        rw [hr, List.flatMap_singleton]
      · rintro ⟨chain, rest', hchain, rfl, hd⟩
        obtain ⟨s, more, rfl, hs, ⟨-, rfl⟩ | ⟨hgoes, -⟩⟩ := hchain.exists_cons
        · rw [(hfirst hs hd).1]
        · exact absurd ((hfirst hs hd).1 ▸ hfinal) hgoes
    · rw [if_neg hfinal]
      have hlen := le_length_of_drop hr (by simp [Record.bytes])
      rw [List.length_append, r.length_bytes] at hlen
      obtain ⟨result, hresult, hiff⟩ := ih (data.length - (offset + r.bytes.length))
        (by rw [r.length_bytes]; omega) (offset + r.bytes.length) (records ++ [r]) rfl
      refine ⟨result, hresult, fun out => ?_⟩
      rw [hiff, drop_of_append hr]
      constructor
      · rintro ⟨chain, rest', hchain, rfl, hrest⟩
        refine ⟨r :: chain, rest', hchain.cons hfits hfinal, by rw [List.append_assoc]; rfl, ?_⟩
        rw [hr, hrest, List.flatMap_cons, List.append_assoc]
      · rintro ⟨chain, rest', hchain, rfl, hd⟩
        obtain ⟨s, more, rfl, hs, ⟨hends, -⟩ | ⟨-, hmore⟩⟩ := hchain.exists_cons
        · exact absurd ((hfirst hs hd).1 ▸ hends) hfinal
        · obtain ⟨rfl, hrest⟩ := hfirst hs hd
          exact ⟨more, rest', hmore, by rw [List.append_assoc]; rfl, hrest⟩
  · have hnone : ∀ (r : Record) (rest : List UInt8), r.Fits → data.drop offset ≠ r.bytes ++ rest :=
      fun r rest hfits h => hrec ⟨r, rest, hfits, h⟩
    refine ⟨none, parseFrom_none hnone records, fun out => ⟨nofun, ?_⟩⟩
    rintro ⟨chain, rest, hchain, -, hdrop⟩
    obtain ⟨s, more, rfl, hs, -⟩ := hchain.exists_cons
    rw [List.flatMap_cons, List.append_assoc] at hdrop
    exact absurd hdrop (hnone s _ hs)

/-- The records of a file are the chain at the offset in its sixth byte, in units of eight. -/
theorem parseRecords_ok (data : List UInt8) : ∃ result, parseRecords data = .ok result ∧
    ∀ records, result = some records ↔ Chain records ∧ ∃ start rest,
      data[5]? = some start ∧ start ≠ 0 ∧
      data.drop (start.toNat * 8) = records.flatMap Record.bytes ++ rest := by
  unfold parseRecords
  by_cases hlen : data.length ≤ 5
  · rw [if_pos hlen]
    refine ⟨none, rfl, fun records => ⟨nofun, ?_⟩⟩
    rintro ⟨-, start, rest, hstart, -⟩
    rw [List.getElem?_eq_none hlen] at hstart
    cases hstart
  have hlt : 5 < data.length := Nat.lt_of_not_le hlen
  rw [if_neg hlen, get_eq_ok hlt, ok_bind, List.getElem?_eq_getElem hlt]
  by_cases hzero : data[5] = 0
  · rw [if_pos hzero]
    refine ⟨none, rfl, fun records => ⟨nofun, ?_⟩⟩
    rintro ⟨-, start, rest, hstart, hne, -⟩
    exact absurd ((Option.some.inj hstart).symm.trans hzero) hne
  · rw [if_neg hzero]
    obtain ⟨result, hresult, hiff⟩ := parseFrom_ok data (data[5].toNat * 8) []
    refine ⟨result, hresult, fun records => ?_⟩
    rw [hiff]
    constructor
    · rintro ⟨chain, rest, hchain, rfl, hd⟩
      exact ⟨hchain, data[5], rest, rfl, hzero, hd⟩
    · rintro ⟨hchain, start, rest, hstart, -, hd⟩
      exact ⟨records, rest, hchain, rfl, by rw [Option.some.inj hstart]; exact hd⟩

end Ipmitool.Ekanalyzer.Records
