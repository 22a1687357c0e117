import Ipmitool.Fru.Image
import Ipmitool.Fru.Storage

/-! # Editing one field

`Edited` says what an edit of a field should leave: an image in order with the new text in the
field, with the other fields of the section and the other areas as they were.

`edit_changes_field` proves it for a field of eight-bit characters whose section keeps its number of
blocks. Otherwise it fails: the length of a section that grows or shrinks is not stored
(`length_not_stored`), the length of the text of a field is taken for the length of its bytes, and a
field with one character looks like the end of the section. -/

namespace Ipmitool.Fru.FieldEdit

open Ipmitool.Lib Ipmitool.Lib.Mem Ipmitool.Lib.Bytes Ipmitool.Lib.Machine Ipmitool.Lib.Dialogue
open Ipmitool.Core.Types Ipmitool.Core.Interface Ipmitool.Fru.Transfer Ipmitool.Fru.Edit
  Ipmitool.Fru.Image
open Ipmitool.Fru.Storage

/-! ### What an edit should leave -/

/-- The image `m'` is the image `m` with another text in the field `i` of the section in the place
`k` of the header. -/
structure Edited (m : Memory UInt8) (ends : ℕ → ℕ) (kind : UInt8) (k i : ℕ) (text : List UInt8)
    (m' : Memory UInt8) (size' : ℕ) (ends' : ℕ → ℕ) : Prop where
  wellFormed : WellFormed m' size' ends'
  present : ∀ j, 1 ≤ j → j ≤ 5 → (m' j = 0 ↔ m j = 0)
  fields : sectionFields kind (areaAt m' (areaStart m' k)) (ends' k - areaStart m' k) =
    (sectionFields kind (areaAt m (areaStart m k)) (ends k - areaStart m k)).set i text
  others : ∀ j, 1 ≤ j → j ≤ 5 → j ≠ k → m j ≠ 0 →
    ends' j - areaStart m' j = ends j - areaStart m j ∧
    Mem.read m' (areaStart m' j) (ends j - areaStart m j) =
      Mem.read m (areaStart m j) (ends j - areaStart m j)

/-- The zeros in front of the checksum of an area. -/
def endPadding (m : Memory UInt8) (o len : ℕ) : ℕ :=
  (((List.range (len - 2)).map fun i => m (o + len - 2 - i)).takeWhile (· = 0)).length

/-- The field is in eight-bit characters, and the text is as long as the old one, or the section
keeps its number of blocks and the new field is not taken for the end of the section. -/
def Suits (kind : UInt8) (f : Field) (i padding : ℕ) (text : List UInt8) : Prop :=
  f.format = 3 ∧ (text.length = f.text.length ∨
    (2 ≤ text.length ∨ i < predefined kind) ∧ text.length ≤ f.text.length + padding ∧
      f.text.length + padding < text.length + 8)

/-! ### A section with another field -/

section Section
variable {kind : UInt8} {m m' : Memory UInt8} {o len : ℕ} {pre post : List Field} {f f' : Field}

theorem section_withField (h : SectionOk kind m o len (pre ++ f :: post))
    (hlength : m' (o + 1) = m (o + 1))
    (hfields : Mem.Holds m' (o + firstField kind) (encodeAll (pre ++ f' :: post) ++ [0xc1]))
    (hinside : firstField kind + (encodeAll (pre ++ f' :: post)).length + 2 ≤ len)
    (hextra : predefined kind ≤ pre.length → f'.desc ≠ 0xc1) (hsum : csum (Mem.read m' o len) = 0) :
    SectionOk kind m' o len (pre ++ f' :: post) := by
  refine ⟨by rw [hlength]; exact h.length, hfields, hinside, by
    simpa using h.count, fun g hg => ?_, hsum⟩
  have hextras := h.extras
  by_cases hpre : predefined kind ≤ pre.length
  · rw [List.drop_append_of_le_length hpre] at hg hextras
    rcases List.mem_append.mp hg with hg | hg
    · exact hextras g (List.mem_append_left _ hg)
    rcases List.mem_cons.mp hg with rfl | hg
    · exact hextra hpre
    · exact hextras g (List.mem_append_right _ (List.mem_cons_of_mem _ hg))
  · obtain ⟨n, hn⟩ : ∃ n, predefined kind - pre.length = n + 1 :=
      ⟨predefined kind - pre.length - 1, by omega⟩
    rw [List.drop_append, List.drop_eq_nil_of_le (by omega), List.nil_append, hn,
      List.drop_succ_cons] at hg hextras
    exact hextras g hg

theorem fieldAt_section (h : SectionOk kind m o len (pre ++ f :: post)) {area : Memory UInt8}
    {base size : ℕ}
    (harea : ∀ x < len, area (base + x) = m (o + x)) (hsize : base + len ≤ size) :
    fieldAt area size pre.length (base + firstField kind) =
      (base + firstField kind + (encodeAll pre).length, f.text,
      base + firstField kind + (encodeAll pre).length + 1 + f.raw.length) := by
  have hin := h.inside
  obtain ⟨hfields, -⟩ := holds_append.mp h.fields
  have harea' : Mem.Holds area (base + firstField kind) (encodeAll (pre ++ f :: post)) := by
    refine Eq.trans (read_eq_read fun i hi => ?_) hfields
    rw [Nat.add_assoc, Nat.add_assoc, harea _ (by omega)]
  exact fieldAt_fields harea' (by omega)

theorem csum_closeArea (m : Memory UInt8) (o : ℕ) {len : ℕ} (hlen : 0 < len) :
    csum (Mem.read (closeArea m o len) o len) = 0 := by
  obtain ⟨n, rfl⟩ : ∃ n, len = n + 1 := ⟨len - 1, by omega⟩
  have hfront : Mem.read (closeArea m o (n + 1)) o n = Mem.read m o n :=
    read_congr fun i hi => write_below _ _ (by omega)
  have hlast : Mem.read (closeArea m o (n + 1)) (o + n) 1 = [csum (Mem.read m o n)] :=
    read_write m (o + n) [csum (Mem.read m o n)]
  rw [read_add, hfront, hlast]
  exact csum_csum _

/-- A zero in front of the checksum is behind every other byte that is not. -/
theorem endPadding_le {e : ℕ} (h : m (o + e) ≠ 0) (he : 0 < e) (hlen : e + 2 ≤ len) :
    endPadding m o len ≤ len - 2 - e := by
  unfold endPadding
  generalize hl : (List.range (len - 2)).map (fun i => m (o + len - 2 - i)) = l
  by_contra hc
  have hlt : len - 2 - e < (l.takeWhile (· = 0)).length := by omega
  have hpos : len - 2 - e < l.length := by
    rw [← hl, List.length_map, List.length_range]
    omega
  have hall : ∀ x ∈ l.takeWhile (· = 0), decide (x = 0) = true :=
    List.all_eq_true.mp List.all_takeWhile
  have hzero := hall _ (List.getElem_mem hlt)
  rw [( List.takeWhile_prefix _).getElem hlt] at hzero
  have hget : l[len - 2 - e] = m (o + e) := by
    subst hl
    rw [List.getElem_map, List.getElem_range]
    congr 1
    omega
  rw [hget] at hzero
  exact h (of_decide_eq_true hzero)

end Section

/-! ### The new field -/

/-- A field in eight-bit characters. -/
def plain (text : List UInt8) (h : text.length < 64) : Field := ⟨3, text, h⟩

theorem takeWhile_text {text rest : List UInt8} (h : (0 : UInt8) ∉ text)
    (hrest : ∀ x ∈ rest.head?, x = 0) :
    (text ++ rest).takeWhile (· ≠ 0) = text := by
  have hall : ∀ x ∈ text, decide (x ≠ 0) = true := by
    intro x hx
    refine decide_eq_true fun h0 => h ?_
    rwa [h0] at hx
  rw [List.takeWhile_append_of_pos hall]
  rcases rest with _ | ⟨x, rest⟩
  · rw [List.takeWhile_nil, List.append_nil]
  · have hx : x = 0 := hrest x rfl
    rw [List.takeWhile_cons, if_neg (by simp [hx]), List.append_nil]

theorem plain_text {text : List UInt8} {h : text.length < 64} (hzero : (0 : UInt8) ∉ text) :
    (plain text h).text = text := by
  have htext : (text ++ []).takeWhile (· ≠ 0) = text := takeWhile_text hzero (by simp)
  rw [List.append_nil] at htext
  exact htext

theorem plain_desc {text : List UInt8} {h : text.length < 64} :
    (plain text h).desc = UInt8.ofNat (0xc0 + text.length) := rfl

/-- The text of a field in eight-bit characters, and what is behind it. -/
theorem raw_split {f : Field} (h : f.format = 3) :
    ∃ rest, f.raw = f.text ++ rest ∧ ∀ x ∈ rest.head?, x = 0 := by
  have htext : f.text = f.raw.takeWhile (· ≠ 0) := by
    rw [Field.text, h]
    rfl
  refine ⟨f.raw.dropWhile (· ≠ 0), ?_, fun x hx => ?_⟩
  · rw [htext, List.takeWhile_append_dropWhile]
  · have hhead := List.head?_dropWhile_not (fun x : UInt8 => decide (x ≠ 0)) f.raw
    rw [hx] at hhead
    simpa using hhead

/-- The text in the place of one that is as long. -/
def overwritten (f : Field) (text : List UInt8) (h : text.length = f.text.length)
    (h3 : f.format = 3) : Field where
  format := f.format
  raw := text ++ f.raw.drop text.length
  raw_lt := by
    obtain ⟨rest, hrest, -⟩ := raw_split h3
    have hlt := f.raw_lt
    rw [List.length_append, List.length_drop]
    rw [hrest, List.length_append] at hlt ⊢
    omega

section Overwritten
variable {f : Field} {text : List UInt8} {h : text.length = f.text.length} {h3 : f.format = 3}

theorem overwritten_text (hzero : (0 : UInt8) ∉ text) : (overwritten f text h h3).text = text := by
  obtain ⟨rest, hrest, hhead⟩ := raw_split h3
  have htext : (overwritten f text h h3).text =
      (text ++ f.raw.drop text.length).takeWhile (· ≠ 0) := by
    rw [Field.text, overwritten, h3]
    rfl
  rw [htext, hrest, h, List.drop_left]
  exact takeWhile_text hzero hhead

theorem length_text_le (h3 : f.format = 3) : f.text.length ≤ f.raw.length := by
  obtain ⟨rest, hrest, -⟩ := raw_split h3
  rw [hrest, List.length_append]
  omega

theorem overwritten_length : (overwritten f text h h3).raw.length = f.raw.length := by
  have hle := length_text_le h3
  show (text ++ f.raw.drop text.length).length = _
  rw [List.length_append, List.length_drop]
  omega

theorem overwritten_desc : (overwritten f text h h3).desc = f.desc := by
  rw [Field.desc, overwritten_length]
  rfl

end Overwritten

/-! ### In place -/

/-- An area in its place in an image. -/
def placed (area : Memory UInt8) (o : ℕ) : Memory UInt8 := fun x => area (x - o)

theorem areaAt_placed (area : Memory UInt8) (o : ℕ) : areaAt (placed area o) o = area := by
  funext x
  show area (o + x - o) = area x
  rw [Nat.add_sub_cancel_left]

section Drafts
variable {kind : UInt8} {m : Memory UInt8} {o len : ℕ} {pre post : List Field} {f : Field}
  {text : List UInt8}

/-- The text is written over one that is as long. -/
theorem inPlace_section (hs : SectionOk kind m o len (pre ++ f :: post)) {area : Memory UInt8}
    (harea : ∀ x < len, area x = m (o + x)) (h : text.length = f.text.length) (h3 : f.format = 3) :
    SectionOk kind (placed
      (closeArea (write area (firstField kind + (encodeAll pre).length + 1) text) 0 len) o) o len
      (pre ++ overwritten f text h h3 :: post) := by
  have hin := hs.inside
  have hle := length_text_le h3
  have hF : 3 ≤ firstField kind := by
    unfold firstField
    split_ifs <;> omega
  simp only [encodeAll_append, encodeAll_cons, List.length_append, Field.length_encode] at hin
  have hold : Mem.Holds area (firstField kind) (encodeAll (pre ++ f :: post) ++ [0xc1]) := by
    refine Eq.trans (read_eq_read fun i hi => ?_) hs.fields
    simp only [encodeAll_append, encodeAll_cons, List.length_append, Field.length_encode,
      List.length_singleton] at hi
    rw [harea _ (by omega), Nat.add_assoc]
  rw [encodeAll_append, encodeAll_cons, Field.encode,
    ← List.take_append_drop text.length f.raw] at hold
  simp only [List.append_assoc, List.cons_append] at hold
  obtain ⟨hpre, hold⟩ := holds_append.mp hold
  obtain ⟨hdesc, hold⟩ := holds_cons.mp hold
  obtain ⟨-, hold⟩ := holds_append.mp hold
  rw [List.length_take, Nat.min_eq_left (by omega)] at hold
  have hdesc' : Mem.Holds area (firstField kind + (encodeAll pre).length) [f.desc] :=
    holds_cons.mpr ⟨hdesc, holds_nil _ _⟩
  have hnew : Mem.Holds (write area (firstField kind + (encodeAll pre).length + 1) text)
      (firstField kind)
      (encodeAll (pre ++ overwritten f text h h3 :: post) ++ [0xc1]) := by
    rw [encodeAll_append, encodeAll_cons, Field.encode, overwritten_desc]
    simp only [List.append_assoc, List.cons_append]
    refine holds_append.mpr ⟨hpre.write_behind (by omega) text, holds_cons.mpr ⟨?_, ?_⟩⟩
    · exact (holds_cons.mp (hdesc'.write_behind (by simp) text)).1
    · show Mem.Holds _ _ ((text ++ f.raw.drop text.length) ++ (encodeAll post ++ [0xc1]))
      rw [List.append_assoc]
      exact holds_append.mpr ⟨holds_write _ _ _, hold.write_before (Nat.le_refl _)⟩
  have hlength : (encodeAll (pre ++ overwritten f text h h3 :: post)).length =
      (encodeAll pre).length + (1 + f.raw.length + (encodeAll post).length) := by
    simp only [encodeAll_append, encodeAll_cons, List.length_append, Field.length_encode,
      overwritten_length]
  refine section_withField hs ?_ ?_ (by omega) (fun hextra => ?_) ?_
  · show closeArea _ 0 len (o + 1 - o) = m (o + 1)
    rw [Nat.add_sub_cancel_left, closeArea, write_below _ _ (by omega), write_below _ _ (by omega),
      harea 1 (by omega)]
  · rw [← holds_areaAt, areaAt_placed]
    exact hnew.write_behind (by rw [List.length_append, hlength, List.length_singleton]; omega) _
  · rw [overwritten_desc]
    refine hs.extras f ?_
    rw [List.drop_append_of_le_length hextra]
    exact List.mem_append_right _ List.mem_cons_self
  · have hread : Mem.read (placed (closeArea
        (write area (firstField kind + (encodeAll pre).length + 1) text) 0 len) o) o len =
        Mem.read (closeArea (write area (firstField kind + (encodeAll pre).length + 1) text) 0 len)
          0 len := by
      refine read_eq_read fun i _ => ?_
      rw [placed, Nat.add_sub_cancel_left, Nat.zero_add]
    rw [hread]
    exact csum_closeArea _ 0 (by omega)

/-! ### Rebuilt -/

theorem firstField_ge (kind : UInt8) : 3 ≤ firstField kind := by
  unfold firstField
  split_ifs <;> omega

/-- What is known of the image that is rebuilt: the section keeps its blocks. -/
structure Steady (q : Rebuild) (len : ℕ) (pre : List Field) (f : Field)
    (post : List Field) : Prop where
  inOrder : SectionOk q.kind q.old q.sectionOffset len (pre ++ f :: post)
  size : q.sectionOffset + len ≤ q.info.size
  index : q.index = pre.length
  format : f.format = 3
  small : q.text.length < 64
  low : q.text.length ≤ f.text.length + endPadding q.old q.sectionOffset len
  high : f.text.length + endPadding q.old q.sectionOffset len < q.text.length + 8

section Rebuilt
variable {q : Rebuild}

theorem Steady.original (h : Steady q len pre f post) : q.original = len := h.inOrder.length.symm

theorem Steady.padding (h : Steady q len pre f post) :
    q.padding = endPadding q.old q.sectionOffset len := by
  rw [Rebuild.padding, h.original]
  rfl

theorem Steady.target (h : Steady q len pre f post) : q.target =
    (q.sectionOffset + firstField q.kind + (encodeAll pre).length, f.text,
      q.sectionOffset + firstField q.kind + (encodeAll pre).length + 1 + f.raw.length) := by
  rw [Rebuild.target, h.index]
  exact fieldAt_section h.inOrder (fun _ _ => rfl) h.size

theorem Steady.slack (h : Steady q len pre f post) :
    q.slack = (f.text.length + endPadding q.old q.sectionOffset len - q.text.length : ℕ) := by
  have hlow := h.low
  rw [Rebuild.slack, h.padding, h.target]
  dsimp only
  omega

theorem Steady.blockChange (h : Steady q len pre f post) : q.blockChange = 0 := by
  have hlow := h.low
  have hhigh := h.high
  rw [Rebuild.blockChange, h.slack, if_neg (by omega), if_neg (by omega)]

theorem Steady.room (h : Steady q len pre f post) :
    firstField q.kind + (encodeAll pre).length + 1 + f.raw.length + (encodeAll post).length + 2 +
      endPadding q.old q.sectionOffset len ≤ len := by
  have hin := h.inOrder.inside
  have hF := firstField_ge q.kind
  have hmarker := (holds_cons.mp (holds_append.mp h.inOrder.fields).2).1
  simp only [encodeAll_append, encodeAll_cons, List.length_append,
    Field.length_encode] at hin hmarker
  rw [Nat.add_assoc q.sectionOffset] at hmarker
  have hle := endPadding_le (m := q.old) (by rw [hmarker]; decide) (by omega)
    (show _ + 2 ≤ len by omega)
  omega

/-- The image in which the other areas are in place. -/
theorem Steady.shifted (h : Steady q len pre f post) :
    q.shifted = .ok (write (fun _ => 0) 0 (Mem.read q.old 0 q.info.size), q.info.size) := by
  rw [Rebuild.shifted, if_pos h.blockChange]
  rfl

theorem Steady.rebuilt (h : Steady q len pre f post) {d : Draft} (hd : rebuilt q = .ok d) :
    ∃ bytes, q.section (write (fun _ => 0) 0 (Mem.read q.old 0 q.info.size)) = .ok bytes ∧
      d = ⟨q.info, 0, bytes, q.info.size⟩ := by
  unfold Edit.rebuilt at hd
  split_ifs at hd
  rw [h.shifted] at hd
  obtain ⟨s, hs, hd⟩ := except_bind_ok.mp hd
  obtain rfl := Except.ok.inj hs
  obtain ⟨bytes, hbytes, hd⟩ := except_bind_ok.mp hd
  exact ⟨bytes, hbytes, (Except.ok.inj hd).symm⟩

/-- The writes of `Rebuild.section`, one behind the other. -/
def sectionWrites (q : Rebuild) (start next len pad : ℕ) (image : Memory UInt8) : Memory UInt8 :=
  let image := write image start [UInt8.ofNat (0xc0 + q.text.length)]
  let image := write image (start + 1) q.text
  let image := write image (start + 1 + q.text.length)
    (Mem.read q.old next (len - 1 - (start - q.sectionOffset + q.text.length + 1)))
  let image := write image (q.sectionOffset + len - 1 - pad) (List.replicate pad 0)
  closeArea image q.sectionOffset len

theorem Steady.section (h : Steady q len pre f post) {image bytes : Memory UInt8}
    (hb : q.section image = .ok bytes) :
    bytes = sectionWrites q (q.sectionOffset + firstField q.kind + (encodeAll pre).length)
      (q.sectionOffset + firstField q.kind + (encodeAll pre).length + 1 + f.raw.length) len
      (f.text.length + endPadding q.old q.sectionOffset len - q.text.length) image := by
  unfold Rebuild.section at hb
  dsimp only at hb
  rw [h.target, h.original, h.blockChange, h.slack] at hb
  split_ifs at hb
  have hlength : ((len : ℤ) + 0 * 8).toNat = len := by omega
  have hpad : (((f.text.length + endPadding q.old q.sectionOffset len - q.text.length : ℕ) : ℤ) +
      0 * 8).toNat =
      f.text.length + endPadding q.old q.sectionOffset len - q.text.length := by omega
  rw [hlength, hpad] at hb
  exact (Except.ok.inj hb).symm

theorem sectionWrites_outside {start next len pad x : ℕ} {image : Memory UInt8}
    (hstart : q.sectionOffset ≤ start)
    (hroom : start - q.sectionOffset + q.text.length + 2 + pad ≤ len)
    (hx : x < start ∨ q.sectionOffset + len ≤ x) :
    sectionWrites q start next len pad image x = image x := by
  have hwrite : ∀ {m : Memory UInt8} {off : ℕ} {l : List UInt8}, start ≤ off →
      off + l.length ≤ q.sectionOffset + len →
      write m off l x = m x := by
    intro m off l hlow hhigh
    rcases hx with hx | hx
    · exact write_below _ _ (by omega)
    · exact write_above _ _ (by omega)
  unfold sectionWrites closeArea
  rw [hwrite (by omega) (by simp only [List.length_singleton]; omega),
    hwrite (by omega) (by rw [List.length_replicate]; omega),
    hwrite (by omega) (by rw [length_read]; omega),
    hwrite (by omega) (by omega),
    hwrite (Nat.le_refl _) (by simp only [List.length_singleton]; omega)]

/-- **The rebuilt section.** -/
theorem Steady.sectionOk (h : Steady q len pre f post)
    (hextra : 2 ≤ q.text.length ∨ pre.length < predefined q.kind) {image : Memory UInt8}
    (himage : ∀ x < q.info.size, image x = q.old x) :
    SectionOk q.kind (sectionWrites q (q.sectionOffset + firstField q.kind + (encodeAll pre).length)
      (q.sectionOffset + firstField q.kind + (encodeAll pre).length + 1 + f.raw.length) len
      (f.text.length + endPadding q.old q.sectionOffset len -
        q.text.length) image) q.sectionOffset len
      (pre ++ plain q.text h.small :: post) := by
  have hroom := h.room
  have hsize := h.size
  have hlow := h.low
  have hF := firstField_ge q.kind
  have hle := length_text_le h.format
  obtain ⟨hpre, hrest⟩ :=
    holds_append.mp (show Mem.Holds q.old (q.sectionOffset + firstField q.kind)
      (encodeAll pre ++ (f.encode ++ (encodeAll post ++ [0xc1]))) by
        have hfields := h.inOrder.fields
        rwa [encodeAll_append, encodeAll_cons, List.append_assoc, List.append_assoc] at hfields)
  obtain ⟨-, hpost⟩ := holds_append.mp hrest
  rw [Field.length_encode] at hpost
  generalize hstart : q.sectionOffset + firstField q.kind + (encodeAll pre).length = start at *
  generalize hpad : f.text.length + endPadding q.old q.sectionOffset len - q.text.length = pad
  have hn : start - q.sectionOffset + q.text.length + (encodeAll post).length + 3 + pad ≤ len := by
    omega
  have houtside : ∀ x, x < start →
      sectionWrites q start (start + 1 + f.raw.length) len pad image x = q.old x := by
    intro x hx
    rw [sectionWrites_outside (by omega) (by omega) (.inl hx), himage x (by omega)]
  -- what is behind the field comes from the old image
  have hbehind : Mem.read q.old (start + 1 + f.raw.length)
      (len - 1 - (start - q.sectionOffset + q.text.length + 1)) =
      (encodeAll post ++ [0xc1]) ++ Mem.read q.old
        (start + 1 + f.raw.length + (encodeAll post ++ [0xc1]).length)
        (len - 1 - (start - q.sectionOffset + q.text.length + 1) -
          (encodeAll post ++ [0xc1]).length) := by
    have hlength : len - 1 - (start - q.sectionOffset + q.text.length + 1) =
        (encodeAll post ++ [0xc1]).length +
        (len - 1 - (start - q.sectionOffset + q.text.length + 1) -
          (encodeAll post ++ [0xc1]).length) := by
      rw [List.length_append, List.length_singleton]
      omega
    rw [← Nat.add_assoc] at hpost
    nth_rewrite 1 [hlength]
    rw [read_add, hpost]
  have hfields : Mem.Holds (sectionWrites q start (start + 1 + f.raw.length) len pad image)
      (q.sectionOffset + firstField q.kind) (encodeAll pre ++
        ([UInt8.ofNat (0xc0 + q.text.length)] ++
        (q.text ++ (encodeAll post ++ [0xc1])))) := by
    have hlength : (encodeAll post ++ [0xc1]).length = (encodeAll post).length + 1 := by simp
    refine holds_append.mpr ⟨?_, ?_⟩
    · exact Eq.trans (read_congr fun i hi => houtside _ (by omega)) hpre
    rw [hstart]
    unfold sectionWrites closeArea
    refine holds_append.mpr ⟨?_, holds_append.mpr ⟨?_, ?_⟩⟩
    · exact ((((holds_write _ _ _).write_behind (by simp) _).write_behind (by simp) _).write_behind
        (by simp only [List.length_singleton]; omega) _).write_behind
          (by simp only [List.length_singleton]; omega) _
    · rw [List.length_singleton]
      exact (((holds_write _ _ _).write_behind (Nat.le_refl _) _).write_behind
        (by omega) _).write_behind (by omega) _
    · have hold := holds_write (write (write image start [UInt8.ofNat (0xc0 + q.text.length)])
        (start + 1) q.text)
        (start + 1 + q.text.length) (Mem.read q.old (start + 1 + f.raw.length)
          (len - 1 - (start - q.sectionOffset + q.text.length + 1)))
      rw [hbehind] at hold ⊢
      have hpost' := (holds_append.mp hold).1
      rw [List.length_singleton]
      exact (hpost'.write_behind (by omega) _).write_behind (by omega) _
  refine section_withField h.inOrder (houtside _ (by omega)) ?_ ?_ (fun hpred => ?_)
    (csum_closeArea _ _ (by omega))
  · rw [encodeAll_append, encodeAll_cons, List.append_assoc, List.append_assoc]
    exact hfields
  · simp only [encodeAll_append, encodeAll_cons, List.length_append, Field.length_encode]
    show firstField q.kind + ((encodeAll pre).length +
        (1 + q.text.length + (encodeAll post).length)) + 2 ≤ len
    omega
  · intro hc
    have htoNat := congrArg UInt8.toNat hc
    rw [plain_desc, UInt8.toNat_ofNat'] at htoNat
    have hsmall := h.small
    have htwo : (0xc0 + q.text.length) % 2 ^ 8 = 0xc1 := htoNat
    omega

end Rebuilt

end Drafts

/-! ### Reading before the edit -/

section Device
variable {β : Type} {B : Bmc β} {env : Env} {id : UInt8} {size : ℕ} {access : Bool}
  {image : β → Memory UInt8}
  {ends : ℕ → ℕ} {kind : UInt8} {k : ℕ} {w w' : CmdWorld Unit β}

theorem unit_dvd_eight (access : Bool) (n : ℕ) : unit access ∣ n * 8 := by
  cases access with
  | false => exact Nat.one_dvd _
  | true => exact Nat.dvd_mul_left_of_dvd (show 2 ∣ 8 by decide) n

/-- Two multiples of the unit are at least a unit apart. -/
theorem le_of_dvd {access : Bool} {a stop : ℕ} (ha : unit access ∣ a) (hstop : unit access ∣ stop)
    (hlt : a < stop + unit access) : a ≤ stop := by
  by_contra hc
  have hzero := Nat.eq_zero_of_dvd_of_lt (Nat.dvd_sub ha hstop) (by omega)
  omega

/-- What `located` found. -/
structure Found (size : ℕ) (access : Bool) (m : Memory UInt8) (o len : ℕ) (s : Located) : Prop where
  info : Fits size access s.info
  offset : s.sectionOffset = o
  length : s.sectionLen = len
  area : ∀ x < len, s.area x = m (o + x)

theorem readRequest_zero (id : UInt8) (access : Bool) (n : ℕ) :
    readRequest id access 0 n = readRequest id false 0 n := by
  cases access <;> rfl

/-- The byte of the header with the place of the section. -/
theorem header_byte (hB : Stores B id size access image) (hsize : 0 < size) {header : List UInt8}
    (h : fieldEditHeader B id w = .ok (some header, w')) {i : ℕ} (hi : i < 8) :
    header.getD i 0 = image w.device i ∧ image w'.device = image w.device := by
  obtain ⟨o, t, hask, h⟩ := bind_ok.mp h
  obtain ⟨hheader, rfl⟩ := pure_ok.mp h
  obtain ⟨ho, rfl⟩ := ask_ok.mp hask
  have hquiet := hB.quiet w.device (readRequest id false 0 8) (show (0x11 : UInt8) ≠ 0x12 by decide)
  refine ⟨?_, hquiet⟩
  obtain ⟨r, rfl, hr⟩ := Option.bind_eq_some_iff.mp hheader
  obtain ⟨r', hr', hanswer⟩ := hB.read w.device 0 8 hsize (by decide) (Nat.dvd_zero _)
  rw [readRequest_zero] at hr'
  obtain rfl := Option.some.inj (ho.symm.trans hr')
  rcases hanswer with ⟨-, hlarge⟩ | hserves
  · omega
  unfold editHeaderOf at hr
  split_ifs at hr with hbad
  obtain rfl := Option.some.inj hr
  have hlength : i < (Mem.read r.data 1 8).length := by rwa [length_read]
  rw [List.getD_eq_getElem?_getD, List.getElem?_eq_getElem hlength, Option.getD_some, getElem_read,
    hserves.bytes i (by omega), Nat.zero_add]

theorem getInfo_learnt (hB : Stores B id size access image) {info : Info}
    (h : getInfoNonempty B id w = .ok (some info, w')) :
    image w'.device = image w.device ∧ Learnt size access info := by
  obtain ⟨oi, t, hget, h⟩ := bind_ok.mp h
  obtain ⟨hinfo, rfl⟩ := pure_ok.mp h
  obtain ⟨rfl, -⟩ := Option.filter_eq_some_iff.mp hinfo
  obtain ⟨o, t', hask, hget⟩ := bind_ok.mp hget
  obtain ⟨ho, rfl⟩ := ask_ok.mp hask
  have hquiet := hB.quiet w.device (infoRequest id) (show (0x10 : UInt8) ≠ 0x12 by decide)
  rcases o with _ | r
  · cases (pure_ok.mp hget).1
  obtain ⟨hr, rfl⟩ := pure_ok.mp hget
  obtain ⟨hsize, haccess⟩ := hB.info w.device r info ho hr
  refine ⟨hquiet, hsize, haccess, .inl ?_⟩
  unfold infoOf at hr
  split_ifs at hr
  rw [← Option.some.inj hr]

theorem located_found (hB : Stores B id size access image)
    (hm : WellFormed (image w.device) size ends) (hk : sectionIndex kind = some k)
    (hpresent : image w.device k ≠ 0) {s : Located}
    (h : located B env id kind w = .ok (some s, w')) : image w'.device = image w.device ∧
      Found size access (image w.device) (areaStart (image w.device) k)
        (ends k - areaStart (image w.device) k) s := by
  have hkb := sectionIndex_bounds hk
  obtain ⟨fs, hs⟩ := hm.sections kind k hk hpresent
  have hin := hs.inside
  have hF := firstField_ge kind
  have hlen := hs.length
  have hbounds := hm.inside k hkb.1 (Nat.le_of_lt hkb.2) hpresent
  have hstart : unit access ∣ areaStart (image w.device) k := unit_dvd_eight access _
  generalize hm' : image w.device = m at *
  generalize ho : areaStart m k = o at *
  obtain ⟨oi, w1, hinfo, h⟩ := bind_ok.mp h
  rcases oi with _ | info
  · cases (pure_ok.mp h).1
  obtain ⟨himage1, hlearnt⟩ := getInfo_learnt hB hinfo
  rw [hm'] at himage1
  obtain ⟨oh, w2, hheader, h⟩ := bind_ok.mp h
  rcases oh with _ | header
  · cases (pure_ok.mp h).1
  obtain ⟨hbyte, himage2⟩ := header_byte hB (by omega) hheader (show k < 8 by omega)
  rw [himage1] at hbyte himage2
  rw [hk] at h
  dsimp only at h
  rw [hbyte, show (m k).toNat * 8 = o from ho] at h
  obtain ⟨p, w3, hthree, h⟩ := bind_ok.mp h
  have hsize := hlearnt.1
  split_ifs at h with hbad
  · cases (pure_ok.mp h).1
  obtain ⟨a, w4, harea, h⟩ := bind_ok.mp h
  split_ifs at h with herror
  · cases (pure_ok.mp h).1
  obtain ⟨hs', rfl⟩ := pure_ok.mp h
  obtain rfl := Option.some.inj hs'
  -- the length of the section is in the three bytes that are read first
  have hnone : p.error = none := by
    rcases hp : p.error with _ | e
    · rfl
    · exact absurd (.inl (by rw [hp]; rfl)) hbad
  obtain ⟨himage3, hgot⟩ :=
    readArea_stored hB hlearnt (by omega) (by omega) hstart hthree (.inl hnone)
  rw [himage2] at himage3 hgot
  have hone : p.dest 1 = m (o + 1) := by
    obtain ⟨stop, -, -, hlt, -, hcopied⟩ := hgot.bytes
    have hunit := unit_le access
    exact hcopied 1 (by omega)
  rw [hone, ← hlen] at harea ⊢
  have hnone' : a.error = none := by
    rcases ha : a.error with _ | e
    · rfl
    · exact absurd (by rw [ha]; rfl) herror
  have hlearnt' : Learnt size access p.info := ⟨hgot.info.sized, hgot.info.accessed, .inr hgot.info⟩
  obtain ⟨himage4, hgot'⟩ :=
    readArea_stored hB hlearnt' (by omega) (by omega) hstart harea (.inl hnone')
  rw [himage3] at himage4 hgot'
  refine ⟨himage4, hgot'.info, rfl, rfl, fun x hx => ?_⟩
  refine hgot'.all ?_ x (by omega)
  rw [Nat.min_eq_left (by omega), Nat.add_sub_cancel_left, hlen]
  exact unit_dvd_eight access _

/-- `editField` writes its draft, and all of the write succeeds. -/
def Completes (B : Bmc β) (env : Env) (id kind fieldIndex : UInt8) (text : List UInt8)
    (w w' : CmdWorld Unit β) : Prop :=
  ∃ d w1 info, drafted B env id kind fieldIndex text w = .ok (some d, w1) ∧
    writeArea B env id d.info d.offset d.bytes d.length w1 = .ok ((true, info), w')

/-- The section is replaced, and what is outside of it stays. -/
theorem edited_of_section {m m' : Memory UInt8} (hm : WellFormed m size ends)
    (hk : sectionIndex kind = some k) (hpresent : m k ≠ 0) {pre post : List Field} {f f' : Field}
    {text : List UInt8}
    (hs : SectionOk kind m (areaStart m k) (ends k - areaStart m k) (pre ++ f :: post))
    (htext : f'.text = text)
    (hs' : SectionOk kind m' (areaStart m k) (ends k - areaStart m k) (pre ++ f' :: post))
    (houtside : ∀ x, x < areaStart m k ∨ ends k ≤ x → m' x = m x) :
    Edited m ends kind k pre.length text m' size ends := by
  have hkb := sectionIndex_bounds hk
  have hstart : 8 ≤ areaStart m k := by
    have hne : (m k).toNat ≠ 0 := fun h0 => hpresent (UInt8.toNat_inj.mp h0)
    unfold areaStart
    omega
  have hheader : ∀ j, j ≤ 5 → m' j = m j := fun j hj => houtside j (.inl (by omega))
  have hstarts : ∀ j, j ≤ 5 → areaStart m' j = areaStart m j :=
    fun j hj => by rw [areaStart, hheader j hj, areaStart]
  refine ⟨hm.replace hk hpresent hs' houtside,
    fun j _ hj => by rw [hheader j hj], ?_, fun j hj1 hj hjk hjp => ?_⟩
  · rw [hstarts k (Nat.le_of_lt hkb.2), sectionFields_fields hs, sectionFields_fields hs',
      List.map_append, List.map_append, List.map_cons, List.map_cons, htext,
      List.set_append_right _ _ (Nat.le_of_eq (List.length_map _)), List.length_map, Nat.sub_self,
      List.set_cons_zero]
  · rw [hstarts j hj]
    refine ⟨rfl, read_congr fun i hi => houtside _ ?_⟩
    rcases hm.apart j k hj1 hj hkb.1 (Nat.le_of_lt hkb.2) hjp hpresent hjk with hap | hap
    · exact .inl (by omega)
    · exact .inr (by omega)

section Cases
variable {pre post : List Field} {f : Field} {text : List UInt8} {s : Located} {info : Info}
  (hB : Stores B id size access image) (hm : WellFormed (image w.device) size ends)
  (hk : sectionIndex kind = some k) (hpresent : image w.device k ≠ 0)
  (hs : SectionOk kind (image w.device) (areaStart (image w.device) k)
    (ends k - areaStart (image w.device) k)
    (pre ++ f :: post))
  (hfound : Found size access (image w.device) (areaStart (image w.device) k)
    (ends k - areaStart (image w.device) k) s)
  (hzero : (0 : UInt8) ∉ text) (h3 : f.format = 3)
include hB hm hk hpresent hs hfound hzero h3

theorem inPlace_edited (hlength : text.length = f.text.length)
    (hwrite : writeArea B env id (inPlace s (firstField kind + (encodeAll pre).length) text).info
      (inPlace s (firstField kind + (encodeAll pre).length) text).offset
      (inPlace s (firstField kind + (encodeAll pre).length) text).bytes
      (inPlace s (firstField kind + (encodeAll pre).length) text).length w =
        .ok ((true, info), w')) :
    Edited (image w.device) ends kind k pre.length text (image w'.device) size ends := by
  have hkb := sectionIndex_bounds hk
  have hbounds := hm.inside k hkb.1 (Nat.le_of_lt hkb.2) hpresent
  have hsize : s.info.size < 65536 := by
    rw [hfound.info.sized]
    exact hm.size_lt
  obtain ⟨-, -, himage⟩ := writeArea_stored hB hfound.info.accessed hsize hwrite
  simp only [inPlace, hfound.offset, hfound.length] at himage
  have hsection := inPlace_section hs hfound.area hlength h3
  refine edited_of_section hm hk hpresent hs (overwritten_text hzero)
    (hsection.congr fun x hlow hhigh => ?_) fun x hx => ?_
  · rw [himage, stored, if_pos ⟨hlow, hhigh⟩]
    rfl
  · rw [himage, stored, if_neg (by omega)]

theorem rebuilt_edited (hsmall : text.length ≤ 63)
    (hextra : 2 ≤ text.length ∨ pre.length < predefined kind) (hlow : text.length ≤ f.text.length +
      endPadding (image w.device) (areaStart (image w.device) k)
        (ends k - areaStart (image w.device) k))
    (hhigh : f.text.length +
      endPadding (image w.device) (areaStart (image w.device) k)
        (ends k - areaStart (image w.device) k) < text.length + 8)
    {d : Draft} {w1 : CmdWorld Unit β}
    (hdraft : editFieldRebuild B env id ⟨s.info, s.header, s.sectionOffset, kind, pre.length, text,
      fun _ => 0⟩ w =
      .ok (some d, w1))
    (hwrite : writeArea B env id d.info d.offset d.bytes d.length w1 = .ok ((true, info), w')) :
    Edited (image w.device) ends kind k pre.length text (image w'.device) size ends := by
  have hkb := sectionIndex_bounds hk
  have hbounds := hm.inside k hkb.1 (Nat.le_of_lt hkb.2) hpresent
  have hsize := hm.size_lt
  have hlearnt : Learnt size access s.info :=
    ⟨hfound.info.sized, hfound.info.accessed, .inr hfound.info⟩
  have hread : s.info.maxRead ≠ 0 := by
    have hroom := hfound.info.room
    have hunit := unit_pos access
    omega
  obtain ⟨r, t, harea, hdraft⟩ := bind_ok.mp hdraft
  have hsized := hfound.info.sized
  obtain ⟨himage, hgot⟩ :=
    readArea_stored hB hlearnt (show 0 < size by omega) (show 0 < s.info.size by omega)
      (Nat.dvd_zero _) harea (.inr hread)
  obtain ⟨stop, -, -, hstop, hdvd, hcopied⟩ := hgot.bytes
  simp only [Nat.zero_add, hsized, Nat.min_self, Nat.sub_zero] at hstop hdvd
  simp only [Copied, Nat.zero_add] at hcopied
  have hlen := hs.length
  have hstart : areaStart (image w.device) k = (image w.device k).toNat * 8 := rfl
  have hends : ends k ≤ stop := by
    refine le_of_dvd ?_ hdvd (by omega)
    rw [show ends k = ((image w.device k).toNat +
      (image w.device (areaStart (image w.device) k + 1)).toNat) * 8 by omega]
    exact unit_dvd_eight access _
  have hsection := hs.congr fun x (_ : areaStart (image w.device) k ≤ x) hx => hcopied x (by omega)
  have hpadding : endPadding r.dest (areaStart (image w.device) k)
      (ends k - areaStart (image w.device) k) =
      endPadding (image w.device) (areaStart (image w.device) k)
        (ends k - areaStart (image w.device) k) := by
    unfold endPadding
    congr 2
    exact List.map_congr_left fun i hi => hcopied _ (by omega)
  rw [hfound.offset] at hdraft
  rcases hrebuilt : rebuilt ⟨r.info, s.header, areaStart (image w.device) k, kind, pre.length, text,
    r.dest⟩ with e | d'
  · simp only [hrebuilt] at hdraft
    rcases e with _ | e
    · cases (pure_ok.mp hdraft).1
    · exact (throw_ok.mp hdraft).elim
  simp only [hrebuilt] at hdraft
  obtain ⟨hd, rfl⟩ := pure_ok.mp hdraft
  obtain rfl := Option.some.inj hd
  have hsteady : Steady ⟨r.info, s.header, areaStart (image w.device) k, kind, pre.length,
      text, r.dest⟩
      (ends k - areaStart (image w.device) k) pre f post := by
    refine ⟨hsection, ?_, rfl, h3,
      Nat.lt_succ_of_le hsmall, by rw [hpadding]; exact hlow, by rw [hpadding]; exact hhigh⟩
    show areaStart (image w.device) k + (ends k - areaStart (image w.device) k) ≤ r.info.size
    rw [hgot.info.sized]
    omega
  obtain ⟨bytes, hbytes, rfl⟩ := hsteady.rebuilt hrebuilt
  have hfresh : ∀ x < r.info.size, write (fun _ => 0) 0 (Mem.read r.dest 0 r.info.size) x =
      r.dest x := by
    intro x hx
    have hin := write_inside (fun _ => (0 : UInt8)) 0 (Mem.read r.dest 0 r.info.size)
      (show x < _ by rwa [length_read])
    rw [Nat.zero_add] at hin
    rw [hin, getElem_read, Nat.zero_add]
  have hok := hsteady.sectionOk hextra hfresh
  rw [← hsteady.section hbytes] at hok
  obtain ⟨-, hunit, hstored⟩ :=
    writeArea_stored hB hgot.info.accessed (by rw [hgot.info.sized]; exact hsize) hwrite
  simp only [hgot.info.sized, Nat.zero_add, himage] at hunit hstored
  have hall := le_of_dvd hunit hdvd hstop
  refine edited_of_section hm hk hpresent hs (plain_text hzero)
    (hok.congr fun x _ hx => ?_) fun x hx => ?_
  · have hx' : x < areaStart (image w.device) k + (ends k - areaStart (image w.device) k) := hx
    rw [hstored, stored, if_pos (by omega), Nat.sub_zero]
  · rw [hstored, stored]
    by_cases hin : x < size
    · have hroom := hsteady.room
      have hplace : x < areaStart (image w.device) k + firstField kind + (encodeAll pre).length ∨
          areaStart (image w.device) k + (ends k - areaStart (image w.device) k) ≤ x := by omega
      have hroom' : areaStart (image w.device) k + firstField kind + (encodeAll pre).length -
          areaStart (image w.device) k +
          text.length + 2 + (f.text.length + endPadding r.dest (areaStart (image w.device) k)
            (ends k - areaStart (image w.device) k) - text.length) ≤ ends k -
              areaStart (image w.device) k := by
        have hle := length_text_le h3
        dsimp only at hroom
        omega
      rw [if_pos (by omega), Nat.sub_zero, hsteady.section hbytes,
        sectionWrites_outside (Nat.le_trans (Nat.le_add_right _ _)
          (Nat.le_add_right _ _)) hroom' hplace,
        hfresh x (by rw [hgot.info.sized]; exact hin), hcopied x (by omega)]
    · exact if_neg (by omega)

end Cases

/-- **An edit changes only its field.** -/
theorem edit_changes_field (hB : Stores B id size access image)
    (hm : WellFormed (image w.device) size ends) (hk : sectionIndex kind = some k)
    (hpresent : image w.device k ≠ 0) {fs : List Field}
    (hs : SectionOk kind (image w.device) (areaStart (image w.device) k)
      (ends k - areaStart (image w.device) k) fs)
    {fieldIndex : UInt8} {f : Field} (hf : fs[(fieldIndex - 0x30).toNat]? = some f)
    (hne : f.text ≠ []) {text : List UInt8} (hsmall : text.length ≤ 63) (hzero : (0 : UInt8) ∉ text)
    (hsuits : Suits kind f (fieldIndex - 0x30).toNat
      (endPadding (image w.device) (areaStart (image w.device) k)
        (ends k - areaStart (image w.device) k)) text)
    (h : Completes B env id kind fieldIndex text w w') :
    Edited (image w.device) ends kind k (fieldIndex - 0x30).toNat text
      (image w'.device) size ends := by
  obtain ⟨hi, hget⟩ := List.getElem?_eq_some_iff.mp hf
  obtain ⟨pre, post, rfl, hpre⟩ : ∃ pre post, fs = pre ++ f :: post ∧
      pre.length = (fieldIndex - 0x30).toNat := by
    refine ⟨fs.take (fieldIndex - 0x30).toNat, fs.drop ((fieldIndex - 0x30).toNat + 1), ?_, ?_⟩
    · rw [← hget, ← List.drop_eq_getElem_cons hi, List.take_append_drop]
    · rw [List.length_take]
      omega
  rw [← hpre] at hsuits ⊢
  obtain ⟨d, w1, info, hdrafted, hwrite⟩ := h
  obtain ⟨ol, w0, hlocated, hdraft⟩ := bind_ok.mp hdrafted
  rcases ol with _ | s
  · cases (pure_ok.mp hdraft).1
  obtain ⟨himage, hfound⟩ := located_found hB hm hk hpresent hlocated
  obtain ⟨h3, hsuits⟩ := hsuits
  have hfield : fieldAt s.area s.sectionLen pre.length (0 + firstField kind) =
      (0 + firstField kind + (encodeAll pre).length,
      f.text, 0 + firstField kind + (encodeAll pre).length + 1 + f.raw.length) := by
    refine fieldAt_section hs (fun x hx => ?_) (Nat.le_of_eq (by rw [hfound.length, Nat.zero_add]))
    rw [Nat.zero_add]
    exact hfound.area x hx
  rw [Nat.zero_add] at hfield
  dsimp only at hdraft
  rw [← hpre, draftOf] at hdraft
  simp only [hfield] at hdraft
  rw [if_neg hne] at hdraft
  rw [← himage] at hm hpresent hs hfound hsuits ⊢
  by_cases hlength : text.length = f.text.length
  · rw [if_neg (by simpa using hlength)] at hdraft
    split_ifs at hdraft with hroom
    · exact absurd hdraft (by simp)
    obtain ⟨hd, rfl⟩ := pure_ok.mp hdraft
    obtain rfl := Option.some.inj hd
    exact inPlace_edited hB hm hk hpresent hs hfound hzero h3 hlength hwrite
  · rw [if_pos hlength] at hdraft
    obtain ⟨hextra, hlow, hhigh⟩ := hsuits.resolve_left hlength
    exact rebuilt_edited hB hm hk hpresent hs hfound hzero h3 hsmall hextra hlow hhigh hdraft hwrite

end Device

/-! ### Examples -/

/-- A device with byte access that stores what it is told. -/
def chip (size : UInt16) : Bmc (Memory UInt8) := fun m c =>
  let off := (ofLe16 (c.data.getD 1 0) (c.data.getD 2 0)).toNat
  let n := c.data.getD 3 0
  if c.cmd = 0x10 then (some (Reply.of (le16 size ++ [0])), m)
  else if c.cmd = 0x11 then (some (Reply.of (n :: Mem.read m off n.toNat)), m)
  else if c.cmd = 0x12 then (some (Reply.of [UInt8.ofNat (c.data.length - 3)]),
    write m off (c.data.drop 3))
  else (some { ccode := 0xc1 }, m)

theorem stores_chip (id : UInt8) (size : UInt16) :
    Stores (chip size) id size.toNat false fun m => m := by
  have hoff : ∀ off : ℕ, off < 65536 →
      (ofLe16 (UInt16.ofNat off).toUInt8 (UInt16.ofNat off >>> 8).toUInt8).toNat = off := by
    intro off h
    rw [ofLe16_le16, UInt16.toNat_ofNat']
    exact Nat.mod_eq_of_lt h
  refine ⟨fun m c hc => ?_, fun m r i hr hi => ?_, fun m off n hoff' hn _ => ?_,
    fun m off bytes r h1 h2 _ hr => ?_⟩
  · unfold chip
    dsimp only
    rw [if_neg hc]
    split_ifs <;> rfl
  · have hreply : r = Reply.of (le16 size ++ [0]) := (Option.some.inj hr).symm
    subst hreply
    have hinfo : infoOf (Reply.of (le16 size ++ [0])) =
        some { size := (ofLe16 size.toUInt8 (size >>> 8).toUInt8).toNat, access := false } := by
      simp [infoOf, Reply.of, le16]
    rw [hinfo, ofLe16_le16] at hi
    rw [← Option.some.inj hi]
    exact ⟨rfl, rfl⟩
  · have hlt := size.toNat_lt
    have hbyte : (UInt8.ofNat n).toNat = n := by
      rw [UInt8.toNat_ofNat']
      omega
    have hanswer : (chip size m (readRequest id false off n)).1 = some (Reply.of (UInt8.ofNat n ::
        Mem.read m (ofLe16 (UInt16.ofNat off).toUInt8 (UInt16.ofNat off >>> 8).toUInt8).toNat
          (UInt8.ofNat n).toNat)) := rfl
    rw [hoff off (by omega), hbyte] at hanswer
    have hcount : countOf false (Reply.of (UInt8.ofNat n :: Mem.read m off n)) = n := hbyte
    have hlen : (Reply.of (UInt8.ofNat n :: Mem.read m off n)).dataLen = n + 1 := by
      show (UInt8.ofNat n :: Mem.read m off n).length = n + 1
      rw [List.length_cons, length_read]
    refine ⟨_, hanswer, .inr ⟨rfl, Nat.le_of_eq hcount, by omega, fun hpos => ?_, fun i hi => ?_⟩⟩
    · rw [hcount]
      exact hpos
    · rw [hlen] at hi
      have hi' : i < (Mem.read m off n).length := by
        rw [length_read]
        omega
      show (UInt8.ofNat n :: Mem.read m off n).getD (1 + i) 0 = m (off + i)
      rw [Nat.add_comm 1 i, List.getD_cons_succ, List.getD_eq_getElem?_getD,
        List.getElem?_eq_getElem hi', Option.getD_some, getElem_read]
  · have hreply : r = Reply.of [UInt8.ofNat ((writeRequest id false off bytes).data.length - 3)] :=
      (Option.some.inj hr).symm
    have hstate : (chip size m (writeRequest id false off bytes)).2 =
        write m (ofLe16 (UInt16.ofNat off).toUInt8 (UInt16.ofNat off >>> 8).toUInt8).toNat bytes :=
          rfl
    rw [hoff off h1] at hstate
    subst hreply
    exact ⟨show (0 : UInt8) ≠ 0x80 by decide, hstate⟩

/-- A chassis section with the part number `ABCDEFGHIJ` and the serial number `CD`, and an internal
use area. -/
def sampleImage : Memory UInt8 := fun i =>
  ([1, 4, 1, 0, 0, 0, 0, 0xfa] ++ [1, 3, 0x17, 0xca] ++ ascii "ABCDEFGHIJ" ++ [0xc2] ++
    ascii "CD" ++
    [0xc1, 0, 0, 0, 0, 0, 0x5a] ++ [1, 1, 2, 3, 4, 5, 6, 7]).getD i 0

def sampleEnds (i : ℕ) : ℕ := if i = 1 then 40 else 32

def sampleFields : List Field := [⟨3, ascii "ABCDEFGHIJ", by decide⟩, ⟨3, ascii "CD", by decide⟩]

theorem sampleSection : SectionOk 0x63 sampleImage 8 24 sampleFields := by
  have hfields : Mem.read sampleImage 11 15 = encodeAll sampleFields ++ [0xc1] := by decide +kernel
  exact ⟨by decide, hfields, by decide +kernel, by decide, by decide +kernel, by decide +kernel⟩

theorem wellFormed_sample : WellFormed sampleImage 64 sampleEnds := by
  have hpresent : ∀ i, 1 ≤ i → i ≤ 5 → sampleImage i ≠ 0 → i = 1 ∨ i = 2 := by
    intro i h1 h5 hne
    have hall : ∀ i < 6, sampleImage i ≠ 0 → i = 0 ∨ i = 1 ∨ i = 2 := by decide +kernel
    have hi := hall i (by omega) hne
    omega
  refine ⟨by decide, by decide +kernel, by decide, by
    decide, fun i h1 h5 hne => ?_, fun i j h1 h5 g1 g5 hne gne hij => ?_,
    fun kind i hi hne => ?_, fun hne => absurd rfl hne⟩
  · rcases hpresent i h1 h5 hne with rfl | rfl <;> decide +kernel
  · rcases hpresent i h1 h5 hne with rfl | rfl <;> rcases hpresent j g1 g5 gne with rfl | rfl
    · exact absurd rfl hij
    · exact .inr (by decide +kernel)
    · exact .inl (by decide +kernel)
    · exact absurd rfl hij
  have hb := sectionIndex_bounds hi
  obtain rfl : i = 2 := by
    unfold sectionIndex at hi
    split_ifs at hi <;> simp only [Option.some.injEq] at hi
    · exact hi.symm
    all_goals
      have hcases := hpresent i hb.1 (Nat.le_of_lt hb.2) hne
      omega
  obtain rfl : kind = 0x63 := sectionIndex_inj hi rfl
  exact ⟨sampleFields, sampleSection⟩

/-- The part number is shortened by eight characters. The section becomes a block shorter, but says
that it has its old length, and the internal use area is in the part that it has lost. -/
theorem length_not_stored : ∃ w', Completes (chip 64) ⟨34, 34⟩ 0 0x63 0x30 (ascii "AB") ⟨(),
    sampleImage, []⟩ w' ∧
    ¬ ∃ size' ends', Edited sampleImage sampleEnds 0x63 2 0 (ascii "AB") w'.device size' ends' := by
  obtain ⟨od, w1, hdrafted, hp⟩ :=
    exists_of_returns (x := drafted (chip 64) ⟨34, 34⟩ 0 0x63 0x30 (ascii "AB"))
      (s := ⟨(), sampleImage, []⟩) (p := fun o w1 => o.any fun d =>
        returns (writeArea (chip 64) ⟨34, 34⟩ 0 d.info d.offset d.bytes d.length) w1 fun r w' =>
          r.1 && w'.device 2 = 1 && w'.device 9 =
            3 && csum (Mem.read w'.device 8 24) ≠ 0) (by decide +kernel)
  obtain ⟨d, rfl, hd⟩ := (Option.any_eq_true _ _).mp hp
  obtain ⟨⟨ok, info⟩, w', hwrite, hp'⟩ := exists_of_returns hd
  simp only [Bool.and_eq_true, decide_eq_true_eq] at hp'
  obtain ⟨⟨⟨rfl, hoffset⟩, hlength⟩, hsum⟩ := hp'
  refine ⟨w', ⟨d, w1, info, hdrafted, hwrite⟩, ?_⟩
  rintro ⟨size', ends', hedited⟩
  have hstart : areaStart w'.device 2 = 8 := by
    rw [areaStart, hoffset]
    rfl
  obtain ⟨fs, hs⟩ := hedited.wellFormed.sections 0x63 2 rfl (by rw [hoffset]; decide)
  rw [hstart] at hs
  have hlen := hs.length
  rw [hlength] at hlen
  have hzero := hs.sum
  rw [hlen] at hzero
  exact hsum hzero

/-- The serial number becomes a character longer. -/
theorem edit_changes_field_longer :
    ∃ w', Completes (chip 64) ⟨34, 34⟩ 0 0x63 0x31 (ascii "XYZ") ⟨(), sampleImage, []⟩ w' ∧
    Edited sampleImage sampleEnds 0x63 2 1 (ascii "XYZ") w'.device 64 sampleEnds := by
  obtain ⟨od, w1, hdrafted, hp⟩ :=
    exists_of_returns (x := drafted (chip 64) ⟨34, 34⟩ 0 0x63 0x31 (ascii "XYZ"))
      (s := ⟨(), sampleImage, []⟩) (p := fun o w1 => o.any fun d =>
        returns (writeArea (chip 64) ⟨34, 34⟩ 0 d.info d.offset d.bytes d.length) w1 fun r w' =>
          r.1) (by decide +kernel)
  obtain ⟨d, rfl, hd⟩ := (Option.any_eq_true _ _).mp hp
  obtain ⟨⟨ok, info⟩, w', hwrite, rfl⟩ := exists_of_returns hd
  have hcompletes : Completes (chip 64) ⟨34, 34⟩ 0 0x63 0x31 (ascii "XYZ") ⟨(),
      sampleImage, []⟩ w' :=
    ⟨d, w1, info, hdrafted, hwrite⟩
  refine ⟨w', hcompletes, ?_⟩
  exact edit_changes_field (stores_chip 0 64) wellFormed_sample rfl (by decide) sampleSection rfl
    (by decide +kernel)
    (by decide) (by decide +kernel) ⟨rfl,
      .inr ⟨.inl (by decide), by decide +kernel, by decide +kernel⟩⟩ hcompletes

end Ipmitool.Fru.FieldEdit
