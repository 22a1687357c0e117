import Ipmitool.Core.Types
import Mathlib.Data.List.Forall2
import Mathlib.Data.List.TakeDrop

/-! # The range list of `sdr fill range`

`hexToDec` and `parseRangeList` of `cmd/sdr.zig`. The text is the memory that holds the C string,
and a pointer is a place in it: `parseRangeList` cuts the string in place, at its commas and at the
dash of a range, and looks for the next comma from the start of the string again. The bytes it
stores are a list of places and values, as the list behind the pointer has no length of its own.

`Listed` is the documented grammar. What the code does with an item depends on its text alone
(`codeItem`), and what it does with a list only on the first item and the text behind the first
comma (`parseRangeList_single`, `parseRangeList_cons`), since after the first cut the search for a
comma stops there. -/

namespace Ipmitool.Sdr.RangeList

def comma : UInt8 := 0x2c

def dash : UInt8 := 0x2d

/-! ### The code -/

/-- The C string at a place. -/
def cstr (text : List UInt8) (i : ℕ) : List UInt8 := (text.drop i).takeWhile (· ≠ 0)

/-- `strstr` of a single character. -/
def strstr (text : List UInt8) (i : ℕ) (ch : UInt8) : Option ℕ :=
  ((cstr text i).idxOf? ch).map (i + ·)

/-- The value of a character of `hexToDec`. -/
def digitValue (ch : UInt8) : Option UInt8 :=
  if 0x30 ≤ ch ∧ ch ≤ 0x39 then some (ch - 0x30)
  else if 0x61 ≤ ch ∧ ch ≤ 0x66 then some (ch - 0x61 + 10)
  else if 0x41 ≤ ch ∧ ch ≤ 0x46 then some (ch - 0x41 + 10)
  else none

/-- `hexToDec`. -/
def hexToDec (s : List UInt8) : Option UInt8 :=
  match s with
  | [a, b, c, d] =>
    if a = 0x30 ∧ b = 0x78 then
      match digitValue c, digitValue d with
      | some hi, some lo => some (hi * 16 + lo)
      | _, _ => none
    else none
  | _ => none

/-- The state of `parseRangeList`. -/
structure Parse where
  text : List UInt8
  listOffset : UInt8 := 0
  stores : List (UInt8 × UInt8) := []
  log : List String := []

/-- `p_hex_list[list_offset] = v; list_offset +%= 1`. -/
def Parse.put (p : Parse) (v : UInt8) : Parse :=
  { p with stores := p.stores ++ [(p.listOffset, v)], listOffset := p.listOffset + 1 }

def Parse.say (p : Parse) (message : String) : Parse := { p with log := p.log ++ [message] }

def hexError : String := "Must be Hex value of 4 characters (Ex.: 0x24)"

def oddError : String := "I2C address provided value must be even."

/-- The loop over a range: the test comes after the store and the step. Two even values are at most
128 steps apart. -/
def rangeLoop (endValue : UInt8) : ℕ → UInt8 → Parse → Parse
  | 0, _, p => p
  | fuel + 1, startValue, p =>
    if startValue + 2 = endValue then p.put startValue
    else rangeLoop endValue fuel (startValue + 2) (p.put startValue)

/-- The entry or range at a place: is `rc` zero? -/
def parseItem (p : Parse) (i : ℕ) : Bool × Parse :=
  match strstr p.text i dash with
  | none =>
    match hexToDec (cstr p.text i) with
    | none => (false, p.say hexError)
    | some v => (true, if v % 2 = 0 then p.put v else p.say oddError)
  | some j =>
    let p := { p with text := p.text.set j 0 }
    match hexToDec (cstr p.text i) with
    | none => (false, p.say hexError)
    | some startValue =>
      match hexToDec (cstr p.text (j + 1)) with
      | none => (false, p.say hexError)
      | some endValue =>
        (true, if startValue % 2 = 0 ∧ endValue % 2 = 0 then
            (rangeLoop endValue 128 startValue p).put endValue
          else p.say oddError)

/-- The loop over the list, with the place of the item and that of the next comma. Each round that
is followed by another one has cut a comma. -/
def parseLoop : ℕ → Parse → ℕ → Option ℕ → Bool × Parse
  | 0, p, _, _ => (true, p)
  | _ + 1, p, i, none => parseItem p i
  | fuel + 1, p, i, some j =>
    let (ok, p) := parseItem { p with text := p.text.set j 0 } i
    if ok then parseLoop fuel p (j + 1) (strstr p.text 0 comma) else (false, p)

/-- `parseRangeList`: is the result zero? -/
def parseRangeList (text : List UInt8) : Bool × Parse :=
  if cstr text 0 = [] then (false, { text })
  else if strstr text 0 comma = some 0 then (false, { text })
  else parseLoop text.length { text } 0 (strstr text 0 comma)

/-! ### The documented grammar -/

/-- The character of a digit, in lower case and in upper case. -/
def lowerDigit (n : Fin 16) : UInt8 :=
  if n.val < 10 then 0x30 + UInt8.ofNat n.val else 0x57 + UInt8.ofNat n.val

def upperDigit (n : Fin 16) : UInt8 :=
  if n.val < 10 then 0x30 + UInt8.ofNat n.val else 0x37 + UInt8.ofNat n.val

/-- The text `0xHH` of an address. -/
def Address (x : List UInt8) (v : UInt8) : Prop :=
  ∃ (hi lo : Fin 16) (c d : UInt8), x = [0x30, 0x78, c, d] ∧
    (c = lowerDigit hi ∨ c = upperDigit hi) ∧
    (d = lowerDigit lo ∨ d = upperDigit lo) ∧ v = UInt8.ofNat (16 * hi.val + lo.val)

/-- The addresses from `a` to `b`. -/
def steps (a b : UInt8) : List UInt8 :=
  (List.range ((b.toNat - a.toNat) / 2 + 1)).map fun i => a + 2 * UInt8.ofNat i

/-- An item and its addresses. -/
inductive Item : List UInt8 → List UInt8 → Prop
  | entry {x : List UInt8} {v : UInt8} (hx : Address x v) (hv : v % 2 = 0) : Item x [v]
  | range {x y : List UInt8} {a b : UInt8} (hx : Address x a) (hy : Address y b) (ha : a % 2 = 0)
      (hb : b % 2 = 0) (hab : a ≤ b) : Item (x ++ dash :: y) (steps a b)

/-- The items between the commas. -/
def items : List UInt8 → List (List UInt8)
  | [] => [[]]
  | c :: w =>
    if c = comma then [] :: items w
    else
      match items w with
      | [] => [[c]]
      | x :: xs => (c :: x) :: xs

/-- **The grammar**: a comma-separated list of items, and their addresses in order. -/
def Listed (w out : List UInt8) : Prop :=
  ∃ outs, List.Forall₂ Item (items w) outs ∧ out = outs.flatten

/-- The stores of a list of addresses, from the first place on. -/
def listing (out : List UInt8) : List (UInt8 × UInt8) := out.mapIdx fun i v => (UInt8.ofNat i, v)

/-! ### Addresses -/

theorem digitValue_iff (c v : UInt8) : digitValue c = some v ↔
    ∃ n : Fin 16, (c = lowerDigit n ∨ c = upperDigit n) ∧ v = UInt8.ofNat n.val := by
  constructor
  · have hall : ∀ k : Fin 256, (digitValue (UInt8.ofNat k.val)).all (fun v => decide (∃ n : Fin 16,
        (UInt8.ofNat k.val = lowerDigit n ∨ UInt8.ofNat k.val = upperDigit n) ∧
          v = UInt8.ofNat n.val)) = true := by decide +kernel
    intro h
    have hdigit := hall ⟨c.toNat, c.toNat_lt⟩
    rw [UInt8.ofNat_toNat, h] at hdigit
    exact of_decide_eq_true hdigit
  · have hall : ∀ n : Fin 16, digitValue (lowerDigit n) = some (UInt8.ofNat n.val) ∧
        digitValue (upperDigit n) = some (UInt8.ofNat n.val) := by decide
    rintro ⟨n, rfl | rfl, rfl⟩
    · exact (hall n).1
    · exact (hall n).2

theorem hexToDec_iff {x : List UInt8} {v : UInt8} : hexToDec x = some v ↔ Address x v := by
  constructor
  · intro h
    unfold hexToDec at h
    split at h
    · rename_i a b c d
      split_ifs at h with hab
      split at h
      · rename_i hi lo hhi hlo
        obtain ⟨n, hc, rfl⟩ := (digitValue_iff c hi).mp hhi
        obtain ⟨m, hd, rfl⟩ := (digitValue_iff d lo).mp hlo
        refine ⟨n, m, c, d, by rw [hab.1, hab.2], hc, hd, ?_⟩
        rw [← Option.some.inj h]
        simp [Nat.mul_comm]
      · cases h
    · cases h
  · rintro ⟨n, m, c, d, rfl, hc, hd, rfl⟩
    have hhi := (digitValue_iff c _).mpr ⟨n, hc, rfl⟩
    have hlo := (digitValue_iff d _).mpr ⟨m, hd, rfl⟩
    simp only [hexToDec, and_self, if_true, hhi, hlo]
    simp [Nat.mul_comm]

theorem Address.not_mem {x : List UInt8} {v : UInt8} (h : Address x v) : dash ∉ x ∧ comma ∉ x := by
  obtain ⟨n, m, c, d, rfl, hc, hd, -⟩ := h
  have hdigit : ∀ (k : Fin 16) {e : UInt8}, e = lowerDigit k ∨ e = upperDigit k →
      dash ≠ e ∧ comma ≠ e := by
    have hall : ∀ k : Fin 16, (dash ≠ lowerDigit k ∧ comma ≠ lowerDigit k) ∧
        dash ≠ upperDigit k ∧ comma ≠ upperDigit k := by decide
    rintro k e (rfl | rfl)
    · exact (hall k).1
    · exact (hall k).2
  obtain ⟨hc1, hc2⟩ := hdigit n hc
  obtain ⟨hd1, hd2⟩ := hdigit m hd
  have h0 : dash ≠ 0x30 ∧ dash ≠ 0x78 ∧ comma ≠ 0x30 ∧ comma ≠ 0x78 := by decide
  simp [h0, hc1, hc2, hd1, hd2]

/-! ### One item -/

/-- The values that the loop over a range stores. -/
def climb (b : UInt8) : ℕ → UInt8 → List UInt8
  | 0, _ => []
  | fuel + 1, a => a :: if a + 2 = b then [] else climb b fuel (a + 2)

/-- What the code makes of the text of an item: the values it stores, or `none` if it is refused. -/
def codeItem (x : List UInt8) : Option (List UInt8) :=
  match x.idxOf? dash with
  | none => (hexToDec x).map fun v => if v % 2 = 0 then [v] else []
  | some i =>
    match hexToDec (x.take i), hexToDec (x.drop (i + 1)) with
    | some a, some b => some (if a % 2 = 0 ∧ b % 2 = 0 then climb b 128 a ++ [b] else [])
    | _, _ => none

/-- The stores so far are those of a list of values. -/
structure Stored (p : Parse) (out : List UInt8) : Prop where
  stores : p.stores = listing out
  offset : p.listOffset = UInt8.ofNat out.length

theorem Stored.put {p : Parse} {out : List UInt8} (h : Stored p out) (v : UInt8) :
    Stored (p.put v) (out ++ [v]) where
  stores := by
    simp [Parse.put, h.stores, h.offset, listing, List.mapIdx_append]
  offset := by
    simp [Parse.put, h.offset]

theorem Stored.rangeLoop {b : UInt8} : ∀ {fuel : ℕ} {a : UInt8} {p : Parse} {out : List UInt8},
    Stored p out → Stored (rangeLoop b fuel a p) (out ++ climb b fuel a)
  | 0, a, p, out, h => by
    rw [climb, List.append_nil]
    exact h
  | fuel + 1, a, p, out, h => by
    rw [RangeList.rangeLoop, climb]
    split_ifs with hb
    · exact h.put a
    · rw [List.append_cons]
      exact (h.put a).rangeLoop

theorem rangeLoop_text {b : UInt8} : ∀ {fuel : ℕ} {a : UInt8} {p : Parse},
    (rangeLoop b fuel a p).text = p.text
  | 0, a, p => rfl
  | fuel + 1, a, p => by
    rw [rangeLoop]
    split_ifs
    · rfl
    · rw [rangeLoop_text]
      rfl

/-- A text with a string in it: the string stands behind `front`, up to the zero. -/
theorem cstr_eq (front : List UInt8) {x rest : List UInt8} (hx : 0 ∉ x) :
    cstr (front ++ (x ++ 0 :: rest)) front.length = x := by
  rw [cstr, List.drop_left, List.takeWhile_append_of_pos]
  · simp
  · intro a ha
    exact decide_eq_true fun h0 => hx (h0 ▸ ha)

theorem parseItem_eq {p : Parse} (front : List UInt8) {x rest out : List UInt8} (hx : 0 ∉ x)
    (ht : p.text = front ++ (x ++ 0 :: rest)) (hs : Stored p out) :
    ∃ ok p' x', parseItem p front.length = (ok, p') ∧ p'.text = front ++ (x' ++ 0 :: rest) ∧
      x'.length = x.length ∧ (comma ∉ x → comma ∉ x') ∧
      match codeItem x with
      | none => ok = false ∧ Stored p' out
      | some l => ok = true ∧ Stored p' (out ++ l) := by
  have hc : cstr p.text front.length = x := by rw [ht]; exact cstr_eq front hx
  rcases hi : x.idxOf? dash with _ | i
  · have hcode : codeItem x = (hexToDec x).map fun v => if v % 2 = 0 then [v] else [] := by
      rw [codeItem, hi]
    have hitem : parseItem p front.length = match hexToDec x with
        | none => (false, p.say hexError)
        | some v => (true, if v % 2 = 0 then p.put v else p.say oddError) := by
      rw [parseItem, strstr, hc, hi]
      rfl
    rw [hitem, hcode]
    rcases hexToDec x with _ | v
    · exact ⟨false, _, x, rfl, ht, rfl, id, rfl, ⟨hs.stores, hs.offset⟩⟩
    · refine ⟨true, _, x, rfl, ?_, rfl, id, rfl, ?_⟩
      · split_ifs
        · exact ht
        · exact ht
      · show Stored _ (out ++ if v % 2 = 0 then [v] else [])
        split_ifs
        · exact hs.put v
        · rw [List.append_nil]
          exact ⟨hs.stores, hs.offset⟩
  · obtain ⟨y, z, rfl, rfl⟩ : ∃ y z, x = y ++ dash :: z ∧ i = y.length := by
      obtain ⟨hlt, hdash, -⟩ := List.idxOf?_eq_some_iff.mp hi
      refine ⟨x.take i, x.drop (i + 1), ?_, by rw [List.length_take]; omega⟩
      rw [← hdash, List.getElem_cons_drop, List.take_append_drop]
    have hy : 0 ∉ y := fun h0 => hx (List.mem_append_left _ h0)
    have hz : 0 ∉ z := fun h0 => hx (List.mem_append_right _ (List.mem_cons_of_mem _ h0))
    set p1 : Parse := { p with text := p.text.set (front.length + y.length) 0 } with hp1
    have ht1 : p1.text = front ++ (y ++ 0 :: (z ++ 0 :: rest)) := by
      rw [hp1]
      dsimp only
      rw [ht]
      simp
    have hs1 : Stored p1 out := ⟨hs.stores, hs.offset⟩
    have hcy : cstr p1.text front.length = y := by rw [ht1]; exact cstr_eq front hy
    have hcz : cstr p1.text (front.length + y.length + 1) = z := by
      have hbehind : cstr ((front ++ (y ++ [0])) ++ (z ++ 0 :: rest)) (front ++ (y ++ [0])).length =
          z :=
        cstr_eq _ hz
      rw [ht1]
      simpa [Nat.add_assoc] using hbehind
    have hcode : codeItem (y ++ dash :: z) = match hexToDec y, hexToDec z with
        | some a, some b => some (if a % 2 = 0 ∧ b % 2 = 0 then climb b 128 a ++ [b] else [])
        | _, _ => none := by
      rw [codeItem, hi]
      simp
    have hitem : parseItem p front.length = match hexToDec y with
        | none => (false, p1.say hexError)
        | some a =>
          match hexToDec z with
          | none => (false, p1.say hexError)
          | some b => (true, if a % 2 = 0 ∧ b % 2 = 0 then (rangeLoop b 128 a p1).put b
              else p1.say oddError) := by
      rw [parseItem, strstr, hc, hi]
      simp only [Option.map_some,
        show p.text.set (front.length + y.length) 0 = p1.text from rfl, hcy, hcz]
      rfl
    have hcut : comma ∉ y ++ dash :: z → comma ∉ y ++ 0 :: z := by
      intro h
      simp only [List.mem_append, List.mem_cons, not_or] at h ⊢
      exact ⟨h.1, by decide, h.2.2⟩
    have hfail : Stored (p1.say hexError) out := ⟨hs1.stores, hs1.offset⟩
    have htext : p1.text = front ++ (y ++ 0 :: z ++ 0 :: rest) := by simpa using ht1
    rw [hitem, hcode]
    rcases hexToDec y with _ | a
    · exact ⟨false, _, y ++ 0 :: z, rfl, htext, by simp, hcut, rfl, hfail⟩
    · rcases hexToDec z with _ | b
      · exact ⟨false, _, y ++ 0 :: z, rfl, htext, by simp, hcut, rfl, hfail⟩
      · refine ⟨true, _, y ++ 0 :: z, rfl, ?_, by simp, hcut, rfl, ?_⟩
        · split_ifs
          · show (rangeLoop b 128 a p1).text = _
            rw [rangeLoop_text]
            exact htext
          · exact htext
        · split_ifs
          · rw [← List.append_assoc]
            exact hs1.rangeLoop.put b
          · rw [List.append_nil]
            exact ⟨hs1.stores, hs1.offset⟩

/-! ### The list -/

theorem strstr_none {text : List UInt8} {ch : UInt8} (h : ch ∉ cstr text 0) :
    strstr text 0 ch = none := by
  rw [strstr, List.idxOf?_eq_none_iff.mpr h]
  rfl

theorem codeItem_nil : codeItem [] = none := rfl

/-- **What `parseRangeList` does** with a string without a comma. -/
theorem parseRangeList_single {w : List UInt8} (rest : List UInt8) (hw : 0 ∉ w) (hc : comma ∉ w) :
    ∃ p, parseRangeList (w ++ 0 :: rest) = ((codeItem w).isSome, p) ∧
    Stored p ((codeItem w).getD []) := by
  have hcstr : cstr (w ++ 0 :: rest) 0 = w := cstr_eq [] hw
  rw [parseRangeList, hcstr]
  by_cases hempty : w = []
  · rw [if_pos hempty, hempty, codeItem_nil]
    exact ⟨_, rfl, rfl, rfl⟩
  · have hlen : (w ++ 0 :: rest).length = w.length + rest.length + 1 := by simp; omega
    rw [if_neg hempty, strstr_none (by rw [hcstr]; exact hc), if_neg (by simp), hlen]
    have hstart : Stored { text := w ++ 0 :: rest } [] := ⟨rfl, rfl⟩
    obtain ⟨ok, p, x', hitem, -, -, -, hcode⟩ := parseItem_eq [] hw rfl hstart
    refine ⟨p, ?_, ?_⟩
    · show parseItem _ 0 = _
      rw [show (0 : ℕ) = ([] : List UInt8).length from rfl, hitem]
      rcases hx : codeItem w with _ | l
      · rw [hx] at hcode
        rw [hcode.1]
        rfl
      · rw [hx] at hcode
        rw [hcode.1]
        rfl
    · rcases hx : codeItem w with _ | l
      · rw [hx] at hcode
        exact hcode.2
      · rw [hx] at hcode
        exact hcode.2

/-- **What `parseRangeList` does** with a string that has its first comma behind `x`: the text
behind it is taken as one item, whatever it is. -/
theorem parseRangeList_cons {x r : List UInt8} (rest : List UInt8) (hx : 0 ∉ x) (hr : 0 ∉ r)
    (hc : comma ∉ x) :
    ∃ p, parseRangeList (x ++ comma :: r ++ 0 :: rest) =
        (((codeItem x).bind fun _ => codeItem r).isSome, p) ∧
      Stored p ((codeItem x).getD [] ++ (((codeItem x).bind fun _ => codeItem r).getD [])) := by
  have h0 : (0 : UInt8) ∉ x ++ comma :: r := by
    intro h
    rcases List.mem_append.mp h with h | h
    · exact hx h
    · rcases List.mem_cons.mp h with h | h
      · exact absurd h (by decide)
      · exact hr h
  have hcstr : cstr (x ++ comma :: r ++ 0 :: rest) 0 = x ++ comma :: r := cstr_eq [] h0
  have hfind : strstr (x ++ comma :: r ++ 0 :: rest) 0 comma = some x.length := by
    have hi : (x ++ comma :: r).idxOf? comma = some x.length := by
      refine List.idxOf?_eq_some_iff.mpr ⟨by simp, by simp, fun j hj hj' => hc ?_⟩
      rw [List.getElem_append_left hj] at hj'
      rw [← hj']
      exact List.getElem_mem hj
    rw [strstr, hcstr, hi]
    simp
  have hne : x ++ comma :: r ≠ [] := by simp
  rw [parseRangeList, hcstr, if_neg hne, hfind]
  by_cases hempty : x = []
  · subst hempty
    rw [codeItem_nil]
    exact ⟨_, rfl, rfl, rfl⟩
  · have hpos : x.length ≠ 0 := fun h => hempty (List.length_eq_zero_iff.mp h)
    have hlen : (x ++ comma :: r ++ 0 :: rest).length =
        (x.length + r.length + rest.length) + 1 + 1 := by
      simp
      omega
    have hset : (x ++ comma :: r ++ 0 :: rest).set x.length 0 =
        [] ++ (x ++ 0 :: (r ++ 0 :: rest)) := by
      simp
    have hstart : Stored { text := (x ++ comma :: r ++ 0 :: rest).set x.length 0 } [] := ⟨rfl, rfl⟩
    obtain ⟨ok, p, x', hitem, htext, hlen', hcomma, hcode⟩ :=
      parseItem_eq [] hx hset hstart
    rw [List.length_nil] at hitem
    rw [if_neg (by simpa using hpos), hlen, parseLoop]
    simp only [hitem]
    rcases hcx : codeItem x with _ | l
    · rw [hcx] at hcode
      obtain ⟨rfl, hs⟩ := hcode
      exact ⟨p, rfl, hs⟩
    · rw [hcx] at hcode
      obtain ⟨rfl, hs⟩ := hcode
      -- the string has been cut, so that the search for a comma ends at once
      have hno : strstr p.text 0 comma = none := by
        refine strstr_none fun h => hcomma hc ?_
        have hsub : cstr p.text 0 = x'.takeWhile (· ≠ 0) := by
          rw [htext, cstr, List.nil_append, List.drop_zero, List.takeWhile_append]
          split_ifs with hall
          · rw [List.takeWhile_cons_of_neg (by simp), List.append_nil]
            exact (( List.takeWhile_prefix _).eq_of_length hall).symm
          · rfl
        rw [hsub] at h
        exact ( List.takeWhile_prefix _).subset h
      have htext' : p.text = (x' ++ [0]) ++ (r ++ 0 :: rest) := by simpa using htext
      obtain ⟨ok', p', x'', hitem', -, -, -, hcode'⟩ := parseItem_eq (x' ++ [0]) hr htext' hs
      have hplace : (x' ++ [0]).length = x.length + 1 := by simp [hlen']
      rw [hplace] at hitem'
      rw [hno, if_pos rfl, parseLoop, hitem']
      rcases hcr : codeItem r with _ | l'
      · rw [hcr] at hcode'
        obtain ⟨rfl, hs'⟩ := hcode'
        exact ⟨p', by simp, by simpa [hcr] using hs'⟩
      · rw [hcr] at hcode'
        obtain ⟨rfl, hs'⟩ := hcode'
        exact ⟨p', by simp, by simpa [hcr] using hs'⟩

/-! ### Items of the grammar and items of the code -/

theorem codeItem_entry {x : List UInt8} {v : UInt8} (hx : Address x v) :
    codeItem x = some (if v % 2 = 0 then [v] else []) := by
  rw [codeItem, List.idxOf?_eq_none_iff.mpr hx.not_mem.1, hexToDec_iff.mpr hx]
  rfl

theorem idxOf?_append_cons {y z : List UInt8} (hy : dash ∉ y) :
    (y ++ dash :: z).idxOf? dash = some y.length := by
  refine List.idxOf?_eq_some_iff.mpr ⟨by simp, by simp, fun j hj hj' => hy ?_⟩
  rw [List.getElem_append_left hj] at hj'
  rw [← hj']
  exact List.getElem_mem hj

theorem codeItem_range {y z : List UInt8} {a b : UInt8} (hy : Address y a) (hz : Address z b) :
    codeItem (y ++ dash :: z) =
      some (if a % 2 = 0 ∧ b % 2 = 0 then climb b 128 a ++ [b] else []) := by
  rw [codeItem, idxOf?_append_cons hy.not_mem.1]
  simp [hexToDec_iff.mpr hy, hexToDec_iff.mpr hz]

theorem codeItem_cases {x l : List UInt8} (h : codeItem x = some l) :
    (∃ v, Address x v ∧ l = if v % 2 = 0 then [v] else []) ∨
      ∃ y z a b, x = y ++ dash :: z ∧ Address y a ∧ Address z b ∧
        l = if a % 2 = 0 ∧ b % 2 = 0 then climb b 128 a ++ [b] else [] := by
  unfold codeItem at h
  split at h
  · obtain ⟨v, hv, rfl⟩ := Option.map_eq_some_iff.mp h
    exact .inl ⟨v, hexToDec_iff.mp hv, rfl⟩
  · rename_i i hi
    split at h
    · rename_i a b ha hb
      obtain ⟨hlt, hdash, -⟩ := List.idxOf?_eq_some_iff.mp hi
      refine .inr ⟨x.take i, x.drop (i + 1), a, b, ?_, hexToDec_iff.mp ha, hexToDec_iff.mp hb, ?_⟩
      · rw [← hdash, List.getElem_cons_drop, List.take_append_drop]
      · exact (Option.some.inj h).symm
    · cases h

theorem add_two_mul (a : UInt8) (i : ℕ) :
    a + 2 * UInt8.ofNat (i + 1) = a + 2 + 2 * UInt8.ofNat i := by
  have h : UInt8.ofNat (i + 1) = UInt8.ofNat i + 1 := UInt8.ofNat_add i 1
  rw [h, UInt8.mul_add, UInt8.add_assoc a 2, UInt8.add_comm 2]
  rfl

theorem toNat_step (a : UInt8) (i : ℕ) : (a + 2 * UInt8.ofNat i).toNat =
    (a.toNat + 2 * i) % 256 := by
  rw [UInt8.toNat_add, UInt8.toNat_mul, UInt8.toNat_ofNat', show (2 : UInt8).toNat = 2 from rfl]
  omega

/-- The loop over a range stores the values up to the end, which it meets after `k + 1` steps. -/
theorem climb_eq : ∀ {k fuel : ℕ} {a b : UInt8}, k < fuel → k < 128 →
    b = a + 2 * UInt8.ofNat (k + 1) →
    climb b fuel a = (List.range (k + 1)).map fun i => a + 2 * UInt8.ofNat i
  | k, 0, a, b, hfuel, _, _ => absurd hfuel (Nat.not_lt_zero k)
  | 0, fuel + 1, a, b, _, _, hb => by
    rw [climb, if_pos (by rw [hb]; rfl)]
    simp
  | k + 1, fuel + 1, a, b, hfuel, hk, hb => by
    have hne : a + 2 ≠ b := by
      intro h
      have h1 := toNat_step a (k + 1 + 1)
      have h2 := toNat_step a 1
      rw [← hb, ← h] at h1
      rw [show a + 2 * UInt8.ofNat 1 = a + 2 from rfl, h1] at h2
      omega
    have hrest : climb b fuel (a + 2) = (List.range (k + 1)).map fun i =>
        a + 2 + 2 * UInt8.ofNat i :=
      climb_eq (by omega) (by omega) (by rw [hb, add_two_mul])
    have hhead : a + 2 * UInt8.ofNat 0 = a := by simp
    have hrange : List.range (k + 1 + 1) = 0 :: (List.range (k + 1)).map Nat.succ :=
      List.range_succ_eq_map
    rw [climb, if_neg hne, hrest, hrange, List.map_cons, List.map_map, hhead]
    congr 1
    refine List.map_congr_left fun i _ => ?_
    exact (add_two_mul a i).symm

/-- The values of a range in the code, with the number of steps to its end. -/
theorem climb_append {a b : UInt8} {k : ℕ} (hk : k < 128) (hb : b = a + 2 * UInt8.ofNat (k + 1)) :
    climb b 128 a ++ [b] = (List.range (k + 2)).map fun i => a + 2 * UInt8.ofNat i := by
  have hrange : List.range (k + 2) = List.range (k + 1) ++ [k + 1] := List.range_succ
  rw [climb_eq hk hk hb, hrange, List.map_append, List.map_singleton, ← hb]

theorem even_iff (a : UInt8) : a % 2 = 0 ↔ a.toNat % 2 = 0 := by
  rw [← UInt8.toNat_inj, UInt8.toNat_mod]
  rfl

theorem climb_steps {a b : UInt8} (ha : a % 2 = 0) (hb : b % 2 = 0) (hab : a < b) :
    climb b 128 a ++ [b] = steps a b := by
  rw [even_iff] at ha hb
  have hlt := UInt8.lt_iff_toNat_lt.mp hab
  have hb256 := b.toNat_lt
  have hk : (b.toNat - a.toNat) / 2 - 1 + 2 = (b.toNat - a.toNat) / 2 + 1 := by omega
  have hend : b = a + 2 * UInt8.ofNat ((b.toNat - a.toNat) / 2 - 1 + 1) := by
    rw [← UInt8.toNat_inj, toNat_step]
    omega
  rw [climb_append (by omega) hend, steps, hk]

/-- The number of values of a range in the code: a range of one address goes around once. -/
theorem climb_length {a b : UInt8} (ha : a % 2 = 0) (hb : b % 2 = 0) :
    (climb b 128 a ++ [b]).length = 129 ∧ a = b ∨ (climb b 128 a ++ [b]).length ≤ 128 ∧ a ≠ b := by
  rw [even_iff] at ha hb
  have ha256 := a.toNat_lt
  have hb256 := b.toNat_lt
  by_cases hab : a = b
  · refine .inl ⟨?_, hab⟩
    rw [climb_append (show 127 < 128 by decide) (by rw [hab, ← UInt8.toNat_inj, toNat_step]; omega)]
    simp
  · have hne : a.toNat ≠ b.toNat := fun h => hab (UInt8.toNat_inj.mp h)
    refine .inr ⟨?_, hab⟩
    have hend : b = a + 2 * UInt8.ofNat ((256 + b.toNat - a.toNat) % 256 / 2 - 1 + 1) := by
      rw [← UInt8.toNat_inj, toNat_step]
      omega
    rw [climb_append (by omega) hend]
    simp only [List.length_map, List.length_range]
    omega

/-- The text of an address or of two, even or not and in any order. -/
def Formed (x : List UInt8) : Prop :=
  (∃ v, Address x v) ∨ ∃ y z a b, x = y ++ dash :: z ∧ Address y a ∧ Address z b

/-- A range of one even address. -/
def OneAddress (x : List UInt8) : Prop :=
  ∃ y z a, x = y ++ dash :: z ∧ Address y a ∧ Address z a ∧ a % 2 = 0

/-- The text is an item of the grammar. -/
def Good (x : List UInt8) : Prop := ∃ out, Item x out

theorem Good.formed {x : List UInt8} (h : Good x) : Formed x := by
  obtain ⟨out, hx | ⟨hx, hy, -, -, -⟩⟩ := h
  · exact .inl ⟨_, hx⟩
  · exact .inr ⟨_, _, _, _, rfl, hx, hy⟩

theorem OneAddress.formed {x : List UInt8} (h : OneAddress x) : Formed x := by
  obtain ⟨y, z, a, rfl, hy, hz, -⟩ := h
  exact .inr ⟨y, z, a, a, rfl, hy, hz⟩

theorem codeItem_isSome {x : List UInt8} : (codeItem x).isSome = true ↔ Formed x := by
  constructor
  · intro h
    obtain ⟨l, hl⟩ := Option.isSome_iff_exists.mp h
    rcases codeItem_cases hl with ⟨v, hv, -⟩ | ⟨y, z, a, b, rfl, hy, hz, -⟩
    · exact .inl ⟨v, hv⟩
    · exact .inr ⟨y, z, a, b, rfl, hy, hz⟩
  · rintro (⟨v, hv⟩ | ⟨y, z, a, b, rfl, hy, hz⟩)
    · rw [codeItem_entry hv]
      rfl
    · rw [codeItem_range hy hz]
      rfl

theorem Formed.no_comma {x : List UInt8} (h : Formed x) : comma ∉ x := by
  rcases h with ⟨v, hv⟩ | ⟨y, z, a, b, rfl, hy, hz⟩
  · exact hv.not_mem.2
  · intro hc
    rcases List.mem_append.mp hc with hc | hc
    · exact hy.not_mem.2 hc
    · rcases List.mem_cons.mp hc with hc | hc
      · exact absurd hc (by decide)
      · exact hz.not_mem.2 hc

/-- **An item of the grammar in the code**, unless it is a range of one address. -/
theorem Item.codeItem_eq {x out : List UInt8} (h : Item x out) (hone : ¬ OneAddress x) :
    codeItem x = some out := by
  cases h with
  | entry hx hv => rw [codeItem_entry hx, if_pos hv]
  | range hx hy ha hb hab =>
    rename_i y z a b
    have hne : a ≠ b := by
      rintro rfl
      exact hone ⟨y, z, a, rfl, hx, hy, ha⟩
    rw [codeItem_range hx hy, if_pos ⟨ha, hb⟩, climb_steps ha hb (UInt8.lt_of_le_of_ne hab hne)]

/-- **A range of one address in the code** is more than the list can hold. -/
theorem OneAddress.codeItem_length {x : List UInt8} (h : OneAddress x) :
    ((codeItem x).getD []).length = 129 := by
  obtain ⟨y, z, a, rfl, hy, hz, ha⟩ := h
  rw [codeItem_range hy hz, if_pos ⟨ha, ha⟩, Option.getD_some]
  rcases climb_length ha ha with ⟨hlen, -⟩ | ⟨-, hne⟩
  · exact hlen
  · exact absurd rfl hne

theorem codeItem_length_le {x : List UInt8} (hone : ¬ OneAddress x) :
    ((codeItem x).getD []).length ≤ 128 := by
  rcases hx : codeItem x with _ | l
  · simp
  · rw [Option.getD_some]
    rcases codeItem_cases hx with ⟨v, -, rfl⟩ | ⟨y, z, a, b, rfl, hy, hz, rfl⟩
    · split_ifs
      · simp
      · simp
    · split_ifs with heven
      · rcases climb_length heven.1 heven.2 with ⟨-, rfl⟩ | ⟨hlen, -⟩
        · exact absurd ⟨y, z, a, rfl, hy, hz, heven.1⟩ hone
        · exact hlen
      · simp

/-! ### Lists of the grammar -/

theorem items_single : ∀ {w : List UInt8}, comma ∉ w → items w = [w]
  | [], _ => rfl
  | c :: w, h => by
    have hc : c ≠ comma := fun hc => h (List.mem_cons.mpr (.inl hc.symm))
    rw [items, if_neg hc, items_single fun hw => h (List.mem_cons_of_mem _ hw)]

theorem items_cons : ∀ {x r : List UInt8}, comma ∉ x → items (x ++ comma :: r) = x :: items r
  | [], r, _ => by
    rw [List.nil_append, items, if_pos rfl]
  | c :: x, r, h => by
    have hc : c ≠ comma := fun hc => h (List.mem_cons.mpr (.inl hc.symm))
    rw [List.cons_append, items, if_neg hc, items_cons fun hx => h (List.mem_cons_of_mem _ hx)]

theorem first_comma (w : List UInt8) : comma ∉ w ∨ ∃ x r, comma ∉ x ∧ w = x ++ comma :: r := by
  by_cases h : comma ∈ w
  · obtain ⟨x, r, rfl, hx⟩ := List.eq_append_cons_of_mem h
    exact .inr ⟨x, r, hx, rfl⟩
  · exact .inl h

theorem listed_single {w out : List UInt8} (hc : comma ∉ w) : Listed w out ↔ Item w out := by
  rw [Listed, items_single hc]
  constructor
  · rintro ⟨outs, h, rfl⟩
    obtain ⟨o, outs, ho, hrest, rfl⟩ := List.forall₂_cons_left_iff.mp h
    rw [List.forall₂_nil_left_iff.mp hrest]
    simpa using ho
  · intro h
    exact ⟨[out], .cons h .nil, by simp⟩

theorem listed_cons {x r out : List UInt8} (hc : comma ∉ x) :
    Listed (x ++ comma :: r) out ↔ ∃ o o', Item x o ∧ Listed r o' ∧ out = o ++ o' := by
  rw [Listed, items_cons hc]
  constructor
  · rintro ⟨outs, h, rfl⟩
    obtain ⟨o, outs, ho, hrest, rfl⟩ := List.forall₂_cons_left_iff.mp h
    exact ⟨o, outs.flatten, ho, ⟨outs, hrest, rfl⟩, rfl⟩
  · rintro ⟨o, o', ho, ⟨outs, hrest, rfl⟩, rfl⟩
    exact ⟨o :: outs, .cons ho hrest, rfl⟩

theorem exists_forall₂_iff : ∀ {xs : List (List UInt8)},
    (∃ outs, List.Forall₂ Item xs outs) ↔ ∀ x ∈ xs, Good x
  | [] => by
    constructor
    · intro _ x hx
      cases hx
    · intro _
      exact ⟨[], .nil⟩
  | x :: xs => by
    rw [List.forall_mem_cons, ← exists_forall₂_iff]
    constructor
    · rintro ⟨outs, h⟩
      obtain ⟨o, outs, ho, hrest, rfl⟩ := List.forall₂_cons_left_iff.mp h
      exact ⟨⟨o, ho⟩, outs, hrest⟩
    · rintro ⟨⟨o, ho⟩, outs, hrest⟩
      exact ⟨o :: outs, .cons ho hrest⟩

theorem exists_listed_iff (w : List UInt8) : (∃ out, Listed w out) ↔ ∀ x ∈ items w, Good x := by
  rw [← exists_forall₂_iff]
  constructor
  · rintro ⟨out, outs, h, -⟩
    exact ⟨outs, h⟩
  · rintro ⟨outs, h⟩
    exact ⟨outs.flatten, outs, h, rfl⟩

/-! ### The stores -/

theorem listing_injective {l l' : List UInt8} (h : listing l = listing l') : l = l' := by
  have hsnd : ∀ l : List UInt8, (listing l).map Prod.snd = l := by
    intro l
    refine List.ext_getElem? fun i => ?_
    rcases h : l[i]? with _ | v
    · simp [listing, h]
    · simp [listing, h]
  rw [← hsnd l, h, hsnd]

/-- The stores of a list stay within the bytes of the caller exactly if it is not longer. -/
theorem listing_within (l : List UInt8) : (∀ s ∈ listing l, s.1.toNat < 128) ↔ l.length ≤ 128 := by
  constructor
  · intro h
    by_contra hlen
    have hlt : 128 < (listing l).length := by simp [listing]; omega
    have h128 := h _ (List.getElem_mem hlt)
    simp [listing] at h128
  · intro hlen s hs
    obtain ⟨i, hi, rfl⟩ := List.getElem_of_mem hs
    have hi' : i < l.length := by simpa [listing] using hi
    simp only [listing, List.getElem_mapIdx, UInt8.toNat_ofNat']
    omega

/-! ### The list parser against the grammar -/

/-- What the parser is to do with the string `w`: succeed exactly on the lists of the grammar, store
their addresses in order, and stay within the 128 bytes of the caller. -/
structure Meets (w : List UInt8) (r : Bool × Parse) : Prop where
  accepts : r.1 = true ↔ ∃ out, Listed w out
  stores : ∀ out, Listed w out → r.2.stores = listing out
  within : ∀ s ∈ r.2.stores, s.1.toNat < 128

/-- The lists for which the parser does so: it takes a text that is formed without being an item of
the grammar, it goes around for a range of one address, and it knows at most two items. -/
def Handled (w : List UInt8) : Prop :=
  match items w with
  | [] => True
  | [x] => (Formed x → Good x) ∧ ¬ OneAddress x
  | [x, y] => ¬ OneAddress x ∧ (Formed x → Formed y →
      Good x ∧ Good y ∧ ¬ OneAddress y ∧ ∀ out, Listed w out → out.length ≤ 128)
  | x :: xs => ¬ OneAddress x ∧ ∃ y ∈ x :: xs, ¬ Good y

theorem meets_iff {w l : List UInt8} {r : Bool × Parse} (hs : Stored r.2 l) :
    Meets w r ↔ (r.1 = true ↔ ∃ out, Listed w out) ∧ (∀ out, Listed w out → l = out) ∧
    l.length ≤ 128 := by
  constructor
  · rintro ⟨h1, h2, h3⟩
    refine ⟨h1, fun out hout => listing_injective ?_, (listing_within l).mp ?_⟩
    · rw [← hs.stores]
      exact h2 out hout
    · rw [← hs.stores]
      exact h3
  · rintro ⟨h1, h2, h3⟩
    refine ⟨h1, fun out hout => by rw [hs.stores, h2 out hout], ?_⟩
    rw [hs.stores]
    exact (listing_within l).mpr h3

theorem handled_single {w rest : List UInt8} (hw : 0 ∉ w) (hc : comma ∉ w) :
    Meets w (parseRangeList (w ++ 0 :: rest)) ↔ (Formed w → Good w) ∧ ¬ OneAddress w := by
  obtain ⟨p, hp, hs⟩ := parseRangeList_single rest hw hc
  rw [hp, meets_iff hs]
  simp only [listed_single hc, codeItem_isSome]
  constructor
  · rintro ⟨hiff, -, hlen⟩
    refine ⟨fun hf => hiff.mp hf, fun hone => ?_⟩
    rw [hone.codeItem_length] at hlen
    omega
  · rintro ⟨hgood, hone⟩
    refine ⟨⟨hgood, Good.formed⟩, fun out hout => ?_, codeItem_length_le hone⟩
    rw [hout.codeItem_eq hone, Option.getD_some]

theorem handled_pair {x y rest : List UInt8} (hx : 0 ∉ x) (hy : 0 ∉ y) (hcx : comma ∉ x)
    (hcy : comma ∉ y) :
    Meets (x ++ comma :: y) (parseRangeList (x ++ comma :: y ++ 0 :: rest)) ↔
      ¬ OneAddress x ∧ (Formed x → Formed y → Good x ∧ Good y ∧ ¬ OneAddress y ∧
        ∀ out, Listed (x ++ comma :: y) out → out.length ≤ 128) := by
  obtain ⟨p, hp, hs⟩ := parseRangeList_cons rest hx hy hcx
  have hlisted : ∀ {out}, Listed (x ++ comma :: y) out ↔
      ∃ o o', Item x o ∧ Item y o' ∧ out = o ++ o' := by
    intro out
    simp only [listed_cons hcx, listed_single hcy]
  have hgood : (∃ out, Listed (x ++ comma :: y) out) → Good x ∧ Good y := by
    rintro ⟨out, hout⟩
    obtain ⟨o, o', ho, ho', -⟩ := hlisted.mp hout
    exact ⟨⟨o, ho⟩, ⟨o', ho'⟩⟩
  have hformed : (codeItem x).isSome = true ↔ Formed x := codeItem_isSome
  have hformed' : (codeItem y).isSome = true ↔ Formed y := codeItem_isSome
  have hone : OneAddress x → 128 < ((codeItem x).getD []).length := by
    intro h
    rw [h.codeItem_length]
    omega
  have hone' : OneAddress y → 128 < ((codeItem y).getD []).length := by
    intro h
    rw [h.codeItem_length]
    omega
  rw [hp, meets_iff hs]
  rcases hl : codeItem x with _ | l
  · have hnot : ¬ Formed x := by
      rw [← hformed, hl]
      simp
    have hno : ¬ ∃ out, Listed (x ++ comma :: y) out := fun h => hnot (hgood h).1.formed
    constructor
    · exact fun _ => ⟨fun h => hnot h.formed, fun h => absurd h hnot⟩
    · exact fun _ => ⟨⟨fun h => absurd h (by simp), fun h => absurd h hno⟩,
        fun out hout => absurd ⟨out, hout⟩ hno, by simp⟩
  · rw [hl, Option.getD_some] at hone
    rcases hl' : codeItem y with _ | l'
    · have hnot : ¬ Formed y := by
        rw [← hformed', hl']
        simp
      have hno : ¬ ∃ out, Listed (x ++ comma :: y) out := fun h => hnot (hgood h).2.formed
      constructor
      · rintro ⟨-, -, hlen⟩
        rw [Option.getD_some, Option.bind_some, Option.getD_none, List.append_nil] at hlen
        refine ⟨fun h => ?_, fun _ h => absurd h hnot⟩
        have := hone h
        omega
      · rintro ⟨h1, -⟩
        have hlen := codeItem_length_le h1
        rw [hl, Option.getD_some] at hlen
        refine ⟨⟨fun h => absurd h (by simp), fun h => absurd h hno⟩,
          fun out hout => absurd ⟨out, hout⟩ hno, ?_⟩
        rw [Option.getD_some, Option.bind_some, Option.getD_none, List.append_nil]
        exact hlen
    · rw [hl', Option.getD_some] at hone'
      have hx' : Formed x := hformed.mp (by rw [hl]; rfl)
      have hy' : Formed y := hformed'.mp (by rw [hl']; rfl)
      simp only [Option.getD_some, Option.bind_some, Option.isSome_some, true_iff,
        List.length_append]
      constructor
      · rintro ⟨hex, hout, hlen⟩
        refine ⟨fun h => ?_, fun _ _ => ⟨(hgood hex).1, (hgood hex).2, fun h => ?_,
          fun out ho => ?_⟩⟩
        · have := hone h
          omega
        · have := hone' h
          omega
        · rw [← hout out ho, List.length_append]
          exact hlen
      · rintro ⟨h1, hrest⟩
        obtain ⟨⟨o, ho⟩, ⟨o', ho'⟩, h2, hsmall⟩ := hrest hx' hy'
        -- the grammar has one list of addresses for each item
        have hunique : ∀ out, Listed (x ++ comma :: y) out → l ++ l' = out := by
          intro out hout
          obtain ⟨o, o', ho, ho', rfl⟩ := hlisted.mp hout
          have e1 := ho.codeItem_eq h1
          have e2 := ho'.codeItem_eq h2
          rw [hl, Option.some.injEq] at e1
          rw [hl', Option.some.injEq] at e2
          rw [e1, e2]
        have hboth : Listed (x ++ comma :: y) (o ++ o') := hlisted.mpr ⟨o, o', ho, ho', rfl⟩
        refine ⟨⟨_, hboth⟩, hunique, ?_⟩
        have hlen := hsmall _ hboth
        rw [← hunique _ hboth, List.length_append] at hlen
        exact hlen

theorem handled_longer {x r rest : List UInt8} (hx : 0 ∉ x) (hr : 0 ∉ r) (hcx : comma ∉ x)
    (hcr : comma ∈ r) :
    Meets (x ++ comma :: r) (parseRangeList (x ++ comma :: r ++ 0 :: rest)) ↔
      ¬ OneAddress x ∧ ∃ y ∈ x :: items r, ¬ Good y := by
  obtain ⟨p, hp, hs⟩ := parseRangeList_cons rest hx hr hcx
  have hrefused : codeItem r = none := by
    rw [← Option.not_isSome_iff_eq_none, codeItem_isSome]
    exact fun hf => hf.no_comma hcr
  have hnone : (codeItem x).bind (fun _ => codeItem r) = none := by
    rw [hrefused]
    cases codeItem x <;> rfl
  rw [hnone, Option.getD_none, List.append_nil] at hs
  rw [hp, hnone, meets_iff hs]
  have hlisted : (∃ out, Listed (x ++ comma :: r) out) ↔ ∀ y ∈ x :: items r, Good y := by
    rw [exists_listed_iff, items_cons hcx]
  constructor
  · rintro ⟨hiff, -, hlen⟩
    refine ⟨fun hone => ?_, ?_⟩
    · rw [hone.codeItem_length] at hlen
      omega
    · by_contra hall
      have hgood : ∀ y ∈ x :: items r, Good y := by
        intro y hy
        by_contra hbad
        exact hall ⟨y, hy, hbad⟩
      exact absurd (hiff.mpr (hlisted.mpr hgood)) (by simp)
  · rintro ⟨hone, y, hy, hbad⟩
    have hnot : ¬ ∃ out, Listed (x ++ comma :: r) out := fun h => hbad (hlisted.mp h y hy)
    refine ⟨⟨fun h => by simp at h, fun h => absurd h hnot⟩, fun out hout => ?_,
      codeItem_length_le hone⟩
    exact absurd ⟨out, hout⟩ hnot

/-- **The range list parser meets its grammar** on the lists that it handles and on no others. -/
theorem meets_iff_handled (w rest : List UInt8) (hw : 0 ∉ w) :
    Meets w (parseRangeList (w ++ 0 :: rest)) ↔ Handled w := by
  rcases first_comma w with hc | ⟨x, r, hcx, rfl⟩
  · rw [handled_single hw hc, Handled, items_single hc]
  · have hx : 0 ∉ x := fun h => hw (List.mem_append_left _ h)
    have hr : 0 ∉ r := fun h => hw (List.mem_append_right _ (List.mem_cons_of_mem _ h))
    rcases first_comma r with hcr | ⟨y, r', hcy, rfl⟩
    · rw [handled_pair hx hr hcx hcr, Handled, items_cons hcx, items_single hcr]
    · rw [handled_longer hx hr hcx (by simp), Handled, items_cons hcx, items_cons hcy]
      obtain ⟨z, zs, hz⟩ : ∃ z zs, items r' = z :: zs := by
        rcases first_comma r' with h | ⟨u, v, hu, rfl⟩
        · exact ⟨_, _, items_single h⟩
        · exact ⟨_, _, items_cons hu⟩
      rw [hz]

/-- The text of the usage, `0x28,0x32,0x40-0x44`. -/
def usageExample : List UInt8 :=
  [0x30, 0x78, 0x32, 0x38, 0x2c, 0x30, 0x78, 0x33, 0x32, 0x2c, 0x30, 0x78, 0x34, 0x30, 0x2d,
    0x30, 0x78, 0x34, 0x34]

/-- The list `0x40-0x44,0x28`. -/
def shortList : List UInt8 :=
  [0x30, 0x78, 0x34, 0x30, 0x2d, 0x30, 0x78, 0x34, 0x34] ++ comma :: [0x30, 0x78, 0x32, 0x38]

/-- A list of a range and an entry is handled. -/
theorem meets_iff_handled_short : Meets shortList (parseRangeList (shortList ++ [0])) := by
  have hrange : Item [0x30, 0x78, 0x34, 0x30, 0x2d, 0x30, 0x78, 0x34, 0x34] [0x40, 0x42, 0x44] :=
    .range (hexToDec_iff.mp (by decide : hexToDec [0x30, 0x78, 0x34, 0x30] = some 0x40))
      (hexToDec_iff.mp (by decide : hexToDec [0x30, 0x78, 0x34, 0x34] = some 0x44))
        (by decide) (by decide)
      (by decide)
  have hentry : Item [0x30, 0x78, 0x32, 0x38] [0x28] :=
    .entry (hexToDec_iff.mp (by decide : hexToDec [0x30, 0x78, 0x32, 0x38] = some 0x28)) (by decide)
  have hone : ∀ {x}, ((codeItem x).getD []).length ≤ 3 → ¬ OneAddress x := by
    intro x hlen h
    rw [h.codeItem_length] at hlen
    omega
  have h1 := hone
    (show ((codeItem [0x30, 0x78, 0x34, 0x30, 0x2d, 0x30, 0x78, 0x34, 0x34]).getD []).length ≤ 3
    by decide)
  have h2 := hone (show ((codeItem [0x30, 0x78, 0x32, 0x38]).getD []).length ≤ 3 by decide)
  refine (meets_iff_handled shortList [] (by decide)).mpr ?_
  refine ⟨h1, fun _ _ => ⟨⟨_, hrange⟩, ⟨_, hentry⟩, h2, fun out hout => ?_⟩⟩
  obtain ⟨o, o', ho, ho', rfl⟩ := (listed_cons (by decide)).mp hout
  have e1 := (ho.codeItem_eq h1).symm.trans (hrange.codeItem_eq h1)
  have e2 := (((listed_single (by decide)).mp ho').codeItem_eq h2).symm.trans
    (hentry.codeItem_eq h2)
  rw [Option.some.injEq] at e1 e2
  rw [e1, e2]
  decide

/-- **The example of the usage is refused**, although it is a list of the grammar. -/
theorem usage_example_refused :
    Listed usageExample [0x28, 0x32, 0x40, 0x42, 0x44] ∧
      (parseRangeList (usageExample ++ [0])).1 = false := by
  have hentry : ∀ {c d v : UInt8}, hexToDec [0x30, 0x78, c, d] = some v → v % 2 = 0 →
      Item [0x30, 0x78, c, d] [v] := fun h hv => .entry (hexToDec_iff.mp h) hv
  have hrange : Item [0x30, 0x78, 0x34, 0x30, 0x2d, 0x30, 0x78, 0x34, 0x34] [0x40, 0x42, 0x44] :=
    .range (hexToDec_iff.mp (by decide : hexToDec [0x30, 0x78, 0x34, 0x30] = some 0x40))
      (hexToDec_iff.mp (by decide : hexToDec [0x30, 0x78, 0x34, 0x34] = some 0x44))
        (by decide) (by decide)
      (by decide)
  refine ⟨⟨[[0x28], [0x32], [0x40, 0x42, 0x44]], ?_, rfl⟩, by decide⟩
  exact .cons (hentry (by decide) (by decide))
    (.cons (hentry (by decide) (by decide)) (.cons hrange .nil))

end Ipmitool.Sdr.RangeList
