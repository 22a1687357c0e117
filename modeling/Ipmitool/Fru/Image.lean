import Ipmitool.Fru.Edit

/-! # Inventory images

What an inventory device holds: a common header with the offsets of five areas, three sections of
text fields behind each other up to an end marker, an internal use area and a chain of records.
`sectionFields` is the way `areaPrint` of `cmd/fru.zig` reads a section. `WellFormed m size ends`
says that the image is in order; the area with the index `i` of the header ends at `ends i`.

* `fieldAt_fields`: where the fields of a section are, and their texts.
* `sectionFields_fields`: a section is read as the texts of its fields. -/

namespace Ipmitool.Fru.Image

open Ipmitool.Lib Ipmitool.Lib.Mem Ipmitool.Lib.Bytes
open Ipmitool.Fru.Edit

/-! ### Reading a section -/

/-- The number of fields that a section always has. -/
def predefined (kind : UInt8) : ℕ := if kind = 0x62 then 5 else if kind = 0x70 then 7 else 2

/-- The texts of the predefined fields, and where they end. -/
def predefinedFields (area : Memory UInt8) (len : ℕ) : ℕ → ℕ → List (List UInt8) × ℕ
  | 0, pos => ([], pos)
  | n + 1, pos =>
    let f := field area len pos
    let r := predefinedFields area len n f.2
    (f.1 :: r.1, r.2)

/-- The texts of the fields up to the end marker. -/
def extraFields (area : Memory UInt8) (len : ℕ) : ℕ → ℕ → List (List UInt8)
  | 0, _ => []
  | fuel + 1, pos =>
    if pos < len ∧ area pos ≠ 0xc1 then
      let f := field area len pos
      f.1 :: extraFields area len fuel f.2
    else []

/-- `areaPrint`: the texts of a section. -/
def sectionFields (kind : UInt8) (area : Memory UInt8) (len : ℕ) : List (List UInt8) :=
  let r := predefinedFields area len (predefined kind) (firstField kind)
  r.1 ++ extraFields area len len r.2

/-! ### Fields -/

/-- A field: its encoding and its bytes. -/
structure Field where
  format : Fin 4
  raw : List UInt8
  raw_lt : raw.length < 64

/-- The type and length byte. -/
def Field.desc (f : Field) : UInt8 := UInt8.ofNat (64 * f.format.val + f.raw.length)

def Field.encode (f : Field) : List UInt8 := f.desc :: f.raw

def Field.text (f : Field) : List UInt8 :=
  (decode (UInt8.ofNat f.format.val) f.raw).takeWhile (· ≠ 0)

def encodeAll (fs : List Field) : List UInt8 := fs.flatMap Field.encode

@[simp] theorem Field.length_encode (f : Field) : f.encode.length = 1 + f.raw.length := by
  simp [Field.encode, Nat.add_comm]

@[simp] theorem encodeAll_cons (f : Field) (fs : List Field) :
    encodeAll (f :: fs) = f.encode ++ encodeAll fs := rfl

@[simp] theorem encodeAll_append (fs gs : List Field) :
    encodeAll (fs ++ gs) = encodeAll fs ++ encodeAll gs :=
  List.flatMap_append

theorem Field.desc_toNat (f : Field) : f.desc.toNat = 64 * f.format.val + f.raw.length := by
  have := f.raw_lt
  have := f.format.isLt
  simp only [Field.desc, UInt8.toNat_ofNat']
  omega

theorem Field.desc_length (f : Field) : (f.desc &&& 0x3f).toNat = f.raw.length := by
  have h : (0x3f : UInt8).toNat = 2 ^ 6 - 1 := rfl
  rw [UInt8.toNat_and, h, Nat.and_two_pow_sub_one_eq_mod, f.desc_toNat]
  have := f.raw_lt
  omega

theorem Field.desc_format (f : Field) : f.desc >>> 6 = UInt8.ofNat f.format.val := by
  refine UInt8.toNat_inj.mp ?_
  have := f.raw_lt
  have := f.format.isLt
  rw [UInt8.toNat_shiftRight, f.desc_toNat]
  simp only [UInt8.reduceToNat, Nat.reduceMod, Nat.shiftRight_eq_div_pow, UInt8.toNat_ofNat']
  omega

/-- A field in its place is read, and the next one is behind it. -/
theorem field_encode {m : Memory UInt8} {len pos : ℕ} {f : Field} (h : Mem.Holds m pos f.encode)
    (hlen : pos + 1 + f.raw.length ≤ len) : field m len pos = (f.text, pos + 1 + f.raw.length) := by
  obtain ⟨hdesc, hraw⟩ := holds_cons.mp h
  unfold field
  rw [if_neg (by omega), hdesc, f.desc_length, f.desc_format, if_neg (by omega)]
  simp only [Field.text, Prod.mk.injEq, and_true]
  rw [hraw]

section Fields
variable {m : Memory UInt8} {len : ℕ}

theorem fieldAt_fields {f : Field} {gs : List Field} : ∀ {fs : List Field} {pos : ℕ},
    Mem.Holds m pos (encodeAll (fs ++ f :: gs)) → pos + (encodeAll (fs ++ f :: gs)).length ≤ len →
    fieldAt m len fs.length pos = (pos + (encodeAll fs).length, f.text,
      pos + (encodeAll fs).length + 1 + f.raw.length)
  | [], pos, h, hlen => by
    simp only [List.nil_append, encodeAll_cons, List.length_append, Field.length_encode] at h hlen
    rw [List.length_nil, fieldAt, field_encode (holds_append.mp h).1 (by omega)]
    rfl
  | e :: fs, pos, h, hlen => by
    simp only [List.cons_append, encodeAll_cons, List.length_append, Field.length_encode] at h hlen
    obtain ⟨h1, h2⟩ := holds_append.mp h
    rw [Field.length_encode] at h2
    rw [List.length_cons, fieldAt, field_encode h1 (by omega), Nat.add_assoc,
      fieldAt_fields h2 (by simp only [encodeAll_append, encodeAll_cons, List.length_append,
        Field.length_encode] at hlen ⊢; omega)]
    simp only [encodeAll_cons, List.length_append, Field.length_encode, Prod.mk.injEq, true_and]
    omega

theorem predefinedFields_fields : ∀ {fs : List Field} {pos : ℕ}, Mem.Holds m pos (encodeAll fs) →
    pos + (encodeAll fs).length ≤ len →
    predefinedFields m len fs.length pos = (fs.map Field.text, pos + (encodeAll fs).length)
  | [], pos, _, _ => rfl
  | f :: fs, pos, h, hlen => by
    simp only [encodeAll_cons, List.length_append, Field.length_encode] at h hlen
    obtain ⟨h1, h2⟩ := holds_append.mp h
    rw [Field.length_encode] at h2
    rw [List.length_cons, predefinedFields, field_encode h1 (by omega)]
    simp only [Nat.add_assoc, predefinedFields_fields h2 (by omega), List.map_cons, encodeAll_cons,
      List.length_append, Field.length_encode]

theorem extraFields_fields : ∀ {fs : List Field} {fuel pos : ℕ},
    Mem.Holds m pos (encodeAll fs ++ [0xc1]) → pos + (encodeAll fs).length ≤ len →
    fs.length < fuel →
    (∀ f ∈ fs, f.desc ≠ 0xc1) → extraFields m len fuel pos = fs.map Field.text
  | fs, 0, pos, _, _, hfuel, _ => by omega
  | [], fuel + 1, pos, h, _, _, _ => by
    have hend : m pos = 0xc1 := (holds_cons.mp h).1
    rw [extraFields, if_neg (by simp [hend])]
    rfl
  | f :: fs, fuel + 1, pos, h, hlen, hfuel, hne => by
    simp only [encodeAll_cons, List.length_append, Field.length_encode, List.append_assoc] at h hlen
    obtain ⟨h1, h2⟩ := holds_append.mp h
    rw [Field.length_encode] at h2
    have hdesc : m pos = f.desc := (holds_cons.mp h1).1
    have hgo : pos < len ∧ m pos ≠ 0xc1 := ⟨by omega, hdesc ▸ hne f List.mem_cons_self⟩
    rw [extraFields, if_pos hgo, field_encode h1 (by omega)]
    simp only [Nat.add_assoc, List.map_cons, List.cons.injEq, true_and]
    exact extraFields_fields h2 (by omega) (by simpa using hfuel) fun g hg =>
      hne g (List.mem_cons_of_mem _ hg)

end Fields

/-! ### Sections -/

/-- A section at the offset `o` with these fields; behind them are an end marker, perhaps some
space, and the checksum. -/
structure SectionOk (kind : UInt8) (m : Memory UInt8) (o len : ℕ) (fs : List Field) : Prop where
  length : len = (m (o + 1)).toNat * 8
  fields : Mem.Holds m (o + firstField kind) (encodeAll fs ++ [0xc1])
  inside : firstField kind + (encodeAll fs).length + 2 ≤ len
  count : predefined kind ≤ fs.length
  extras : ∀ f ∈ fs.drop (predefined kind), f.desc ≠ 0xc1
  sum : csum (Mem.read m o len) = 0

/-- The area of a section as a memory of its own. -/
def areaAt (m : Memory UInt8) (o : ℕ) : Memory UInt8 := fun i => m (o + i)

theorem holds_areaAt {m : Memory UInt8} {o pos : ℕ} {l : List UInt8} :
    Mem.Holds (areaAt m o) pos l ↔ Mem.Holds m (o + pos) l := by
  unfold Mem.Holds
  rw [show Mem.read (areaAt m o) pos l.length = Mem.read m (o + pos) l.length by
    simp [Mem.read, areaAt, Nat.add_assoc]]

theorem length_le_encodeAll (fs : List Field) : fs.length ≤ (encodeAll fs).length := by
  induction fs with
  | nil => simp
  | cons f fs ih =>
    simp only [encodeAll_cons, List.length_append, Field.length_encode, List.length_cons]
    omega

/-- **A section is read as the texts of its fields.** -/
theorem sectionFields_fields {kind : UInt8} {m : Memory UInt8} {o len : ℕ} {fs : List Field}
    (h : SectionOk kind m o len fs) : sectionFields kind (areaAt m o) len = fs.map Field.text := by
  obtain ⟨pre, post, rfl, hpre⟩ : ∃ pre post, fs = pre ++ post ∧ pre.length = predefined kind :=
    ⟨_, _, (List.take_append_drop
      (predefined kind) fs).symm, by rw [List.length_take]; exact Nat.min_eq_left h.count⟩
  have hin := h.inside
  have hextras := h.extras
  rw [← hpre, List.drop_left] at hextras
  have hall : Mem.Holds (areaAt m o) (firstField kind)
      (encodeAll pre ++ (encodeAll post ++ [0xc1])) := by
    rw [holds_areaAt, ← List.append_assoc, ← encodeAll_append]
    exact h.fields
  obtain ⟨h1, h2⟩ := holds_append.mp hall
  have hlen := length_le_encodeAll post
  rw [encodeAll_append, List.length_append] at hin
  unfold sectionFields
  rw [← hpre, predefinedFields_fields h1 (by omega)]
  have hextra : extraFields (areaAt m o) len len (firstField kind + (encodeAll pre).length) =
      post.map Field.text := extraFields_fields h2 (by omega) (by omega) hextras
  simp only [hextra, List.map_append]

/-! ### Records -/

/-- A record at the offset `o`: its header and its body sum to zero. -/
structure RecordOk (m : Memory UInt8) (o : ℕ) : Prop where
  header : csum (Mem.read m o 5) = 0
  body : csum (m (o + 3) :: Mem.read m (o + 5) (m (o + 2)).toNat) = 0

/-- A chain of records from an offset to another. -/
inductive Records (m : Memory UInt8) : ℕ → ℕ → Prop
  | last {o : ℕ} : RecordOk m o → m (o + 1) &&& 0x80 ≠ 0 → Records m o (o + 5 + (m (o + 2)).toNat)
  | cons {o e : ℕ} : RecordOk m o → m (o + 1) &&& 0x80 = 0 →
    Records m (o + 5 + (m (o + 2)).toNat) e → Records m o e

/-! ### Images -/

/-- Where an area begins; zero if there is none. -/
def areaStart (m : Memory UInt8) (i : ℕ) : ℕ := (m i).toNat * 8

/-- An image that is in order. -/
structure WellFormed (m : Memory UInt8) (size : ℕ) (ends : ℕ → ℕ) : Prop where
  version : m 0 = 1
  header : csum (Mem.read m 0 8) = 0
  size_ge : 8 ≤ size
  size_lt : size < 65536
  inside : ∀ i, 1 ≤ i → i ≤ 5 → m i ≠ 0 → areaStart m i < ends i ∧ ends i ≤ size
  apart : ∀ i j, 1 ≤ i → i ≤ 5 → 1 ≤ j → j ≤ 5 → m i ≠ 0 → m j ≠ 0 → i ≠ j →
    ends i ≤ areaStart m j ∨ ends j ≤ areaStart m i
  sections : ∀ kind i, sectionIndex kind = some i → m i ≠ 0 →
    ∃ fs, SectionOk kind m (areaStart m i) (ends i - areaStart m i) fs
  records : m 5 ≠ 0 → Records m (areaStart m 5) (ends 5)

theorem sectionIndex_bounds {kind : UInt8} {k : ℕ} (h : sectionIndex kind = some k) :
    1 ≤ k ∧ k < 5 := by
  unfold sectionIndex at h
  split_ifs at h <;> simp only [Option.some.injEq] at h <;> omega

theorem sectionIndex_inj {kind kind' : UInt8} {k : ℕ} (h : sectionIndex kind = some k)
    (h' : sectionIndex kind' = some k) : kind = kind' := by
  unfold sectionIndex at h h'
  split_ifs at h h' <;> simp_all <;> omega

theorem Records.start_le {m : Memory UInt8} {o e : ℕ} (h : Records m o e) : o + 5 ≤ e := by
  induction h with
  | last _ _ => omega
  | cons _ _ _ ih => omega

section Congr
variable {m m' : Memory UInt8}

/-- Records depend only on their bytes. -/
theorem Records.congr {o e : ℕ} (h : Records m o e) (hm : ∀ x, o ≤ x → x < e → m' x = m x) :
    Records m' o e := by
  have hread : ∀ {o a n : ℕ}, (∀ x, o ≤ x → x < o + a + n → m' x = m x) →
      Mem.read m' (o + a) n = Mem.read m (o + a) n := fun hx =>
    read_congr fun i hi => hx _ (by omega) (by omega)
  have hrecord : ∀ {o : ℕ}, RecordOk m o → (∀ x, o ≤ x → x < o + 5 + (m (o + 2)).toNat →
      m' x = m x) →
      RecordOk m' o := by
    intro o hr hx
    have h2 : m' (o + 2) = m (o + 2) := hx _ (by omega) (by omega)
    have h3 : m' (o + 3) = m (o + 3) := hx _ (by omega) (by omega)
    refine ⟨?_, ?_⟩
    · have h0 : Mem.read m' (o + 0) 5 = Mem.read m (o + 0) 5 :=
        hread fun x h1 h2 => hx x h1 (by omega)
      rw [Nat.add_zero] at h0
      rw [h0]
      exact hr.header
    · rw [h2, h3, hread hx]
      exact hr.body
  induction h with
  | @last o hr hlast =>
    have h1 : m' (o + 1) = m (o + 1) := hm _ (by omega) (by omega)
    have h2 : m' (o + 2) = m (o + 2) := hm _ (by omega) (by omega)
    have hall := Records.last (hrecord hr hm) (h1 ▸ hlast)
    rwa [h2] at hall
  | @cons o e hr hmore hrest ih =>
    have hle := hrest.start_le
    have h1 : m' (o + 1) = m (o + 1) := hm _ (by omega) (by omega)
    have h2 : m' (o + 2) = m (o + 2) := hm _ (by omega) (by omega)
    refine .cons (hrecord hr fun x hx hx' => hm x hx (by omega)) (h1 ▸ hmore) ?_
    rw [h2]
    exact ih fun x hx hx' => hm x (by omega) hx'

theorem SectionOk.congr {kind : UInt8} {o len : ℕ} {fs : List Field} (h : SectionOk kind m o len fs)
    (hm : ∀ x, o ≤ x → x < o + len → m' x = m x) : SectionOk kind m' o len fs := by
  have hin := h.inside
  have hread : ∀ {a n : ℕ}, a + n ≤ len → Mem.read m' (o + a) n = Mem.read m (o + a) n := fun hle =>
    read_congr fun i hi => hm _ (by omega) (by omega)
  refine ⟨?_, ?_, h.inside, h.count, h.extras, ?_⟩
  · rw [hm (o + 1) (by omega) (by omega)]
    exact h.length
  · unfold Mem.Holds
    rw [hread (by simp only [List.length_append, List.length_cons, List.length_nil]; omega)]
    exact h.fields
  · have h0 := hread (a := 0) (n := len) (by omega)
    rw [Nat.add_zero] at h0
    rw [h0]
    exact h.sum

end Congr

/-- **A section may be replaced.** Outside of it the image stays as it is. -/
theorem WellFormed.replace {m m' : Memory UInt8} {size : ℕ} {ends : ℕ → ℕ}
    (h : WellFormed m size ends) {kind : UInt8} {k : ℕ} (hk : sectionIndex kind = some k)
    (hpresent : m k ≠ 0) {fs : List Field}
    (hsection : SectionOk kind m' (areaStart m k) (ends k - areaStart m k) fs)
    (hm : ∀ x, x < areaStart m k ∨ ends k ≤ x → m' x = m x) : WellFormed m' size ends := by
  have hk5 := sectionIndex_bounds hk
  have hstart : 8 ≤ areaStart m k := by
    have : (m k).toNat ≠ 0 := fun h0 => hpresent (UInt8.toNat_inj.mp h0)
    unfold areaStart
    omega
  have hheader : ∀ x, x < 8 → m' x = m x := fun x hx => hm x (.inl (by omega))
  have hstarts : ∀ i, i ≤ 5 → areaStart m' i = areaStart m i := fun i hi => by
    rw [areaStart, hheader i (by omega), areaStart]
  refine ⟨by rw [hheader 0 (by omega)]; exact h.version, ?_, h.size_ge, h.size_lt, ?_, ?_, ?_, ?_⟩
  · rw [show Mem.read m' 0 8 = Mem.read m 0 8 from read_congr fun i hi => hheader _ (by omega)]
    exact h.header
  · intro i hi hi5 hp
    rw [hheader i (by omega)] at hp
    rw [hstarts i hi5]
    exact h.inside i hi hi5 hp
  · intro i j hi hi5 hj hj5 hpi hpj hne
    rw [hheader i (by omega)] at hpi
    rw [hheader j (by omega)] at hpj
    rw [hstarts i hi5, hstarts j hj5]
    exact h.apart i j hi hi5 hj hj5 hpi hpj hne
  · intro kind' i hi hp
    have hi5 := sectionIndex_bounds hi
    rw [hheader i (by omega)] at hp
    rw [hstarts i (Nat.le_of_lt hi5.2)]
    by_cases hik : i = k
    · subst hik
      obtain rfl : kind' = kind := sectionIndex_inj hi hk
      exact ⟨fs, hsection⟩
    · obtain ⟨gs, hgs⟩ := h.sections kind' i hi hp
      have hbounds := h.inside i hi5.1 (Nat.le_of_lt hi5.2) hp
      refine ⟨gs, hgs.congr fun x h1 h2 => hm x ?_⟩
      rcases h.apart i k hi5.1 (Nat.le_of_lt hi5.2) hk5.1
        (Nat.le_of_lt hk5.2) hp hpresent hik with hap | hap
      · exact .inl (by omega)
      · exact .inr (by omega)
  · intro hp
    rw [hheader 5 (by omega)] at hp
    have hk' : (5 : ℕ) ≠ k := by omega
    rw [hstarts 5 (by omega)]
    refine (h.records hp).congr fun x h1 h2 => hm x ?_
    rcases h.apart 5 k (by omega) (by omega) hk5.1
      (Nat.le_of_lt hk5.2) hp hpresent hk' with hap | hap
    · exact .inl (by omega)
    · exact .inr (by omega)

end Ipmitool.Fru.Image
