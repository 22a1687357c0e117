import Ipmitool.Lib.Bytes
import Ipmitool.Util.Calendar

/-! # Dates in text

The formatting of `util/time_calendar.zig`. A writer takes bytes one piece after the other; a
program over it may fail, and what has been written by then stays. `render` is the same program for
each writer: the one that counts, the one that fills a buffer, and the one that keeps everything.

The format is read three times, by `validateFormat` and by `render` for the first two writers. For a
format that has passed, `render` writes the same pieces whatever the writer (`render_pieces`), so
that the count tells whether the text fits. -/

namespace Ipmitool.Util.Calendar

open Ipmitool.Core.Types Ipmitool.Lib.Bytes Ipmitool.Lib.Gregorian

/-! ### Writers -/

/-- A program over a writer with the state `σ`. -/
abbrev Out (σ α : Type) := ExceptT Error (StateM σ) α

/-- A writer that never fails and counts. -/
def discarding (bytes : List UInt8) : Out ℕ Unit := modify (· + bytes.length)

/-- A writer that keeps what is written. -/
def collecting (bytes : List UInt8) : Out (List UInt8) Unit := modify (· ++ bytes)

/-- A buffer whose first `stop` bytes are written. -/
structure Fixed where
  buffer : List UInt8
  stop : ℕ

/-- The bytes replace those from the mark on. -/
def Fixed.put (w : Fixed) (bytes : List UInt8) : Fixed :=
  ⟨w.buffer.take w.stop ++ bytes ++ w.buffer.drop (w.stop + bytes.length), w.stop + bytes.length⟩

/-- The writer `std.Io.Writer.fixed` for the first `capacity` bytes of a buffer. When they are full
it fails. -/
def fixed (capacity : ℕ) (bytes : List UInt8) : Out Fixed Unit := do
  let w ← get
  set (w.put (bytes.take (capacity - w.stop)))
  if capacity < w.stop + bytes.length then throw .writeFailed

/-! ### The code -/

structure Zone where
  abbreviation : List UInt8
  offsetSeconds : Int32 := 0

inductive Flavor where
  | gnu
  | musl
  deriving DecidableEq

structure FormatOptions where
  zone : Zone := ⟨ascii "GMT", 0⟩
  flavor : Flavor := .gnu

def percent : UInt8 := 0x25

def shortDays : List (List UInt8) := ["Sun", "Mon", "Tue", "Wed", "Thu", "Fri", "Sat"].map ascii

def longDays : List (List UInt8) :=
  ["Sunday", "Monday", "Tuesday", "Wednesday", "Thursday", "Friday", "Saturday"].map ascii

def shortMonths : List (List UInt8) :=
  ["Jan", "Feb", "Mar", "Apr", "May", "Jun", "Jul", "Aug", "Sep", "Oct", "Nov", "Dec"].map ascii

def longMonths : List (List UInt8) :=
  ["January", "February", "March", "April", "May", "June", "July", "August", "September", "October",
    "November", "December"].map ascii

/-- The conversions that `validateFormat` lets pass. -/
def conversions : List UInt8 := ascii "%aAbBcdeHjmMSxXyYZzwuFTnt"

def validateFormat : List UInt8 → Except Error Unit
  | [] => .ok ()
  | byte :: format =>
    if byte = 0 then .error .invalidFormat
    else if byte ≠ percent then validateFormat format
    else
      match format with
      | [] => .error .invalidFormat
      | conversion :: format =>
        if conversion ∈ conversions then validateFormat format else .error .invalidFormat

/-- The decimal digits of a number. -/
def decimal (value : ℕ) : List UInt8 := (Nat.toDigits 10 value).map fun c => UInt8.ofNat c.toNat

/-- `number`. The digits are printed into 20 bytes. -/
def number (value width : ℕ) (pad : UInt8) : Except Error (List (List UInt8)) :=
  let digits := decimal value
  if 20 < digits.length then .error (.fault .assertFailed)
  else if digits.length < width then .ok [List.replicate (width - digits.length) pad, digits]
  else .ok [digits]

/-- `yearNumber`. -/
def yearNumber (year : ℤ) : Flavor → Except Error (List (List UInt8))
  | .gnu =>
    let displayed := Int.bmod year (2 ^ 32)
    .ok [(if displayed < 0 then ascii "-" else []) ++ decimal displayed.natAbs]
  | .musl =>
    if year < 0 then do
      let digits ← number year.natAbs 3 0x30
      return ascii "-" :: digits
    else do
      let digits ← number year.toNat 4 0x30
      return (if 10000 ≤ year then [ascii "+"] else []) ++ digits

/-- A name from a table. -/
def name (names : List (List UInt8)) (index : ℕ) : Except Error (List (List UInt8)) :=
  match names[index]? with
  | some text => .ok [text]
  | none => .error (.fault .outOfBounds)

/-- The format that a conversion stands for, of those that `render` expands. -/
def composite (conversion : UInt8) : Option (List UInt8) :=
  match Char.ofNat conversion.toNat with
  | 'c' => some (ascii "%a %b %e %H:%M:%S %Y")
  | 'x' => some (ascii "%m/%d/%y")
  | 'X' | 'T' => some (ascii "%H:%M:%S")
  | 'F' => some (ascii "%Y-%m-%d")
  | _ => none

/-- What `render` writes for each of the other conversions, piece by piece. -/
def simple (date : Civil) (options : FormatOptions) (conversion : UInt8) :
    Except Error (List (List UInt8)) :=
  match Char.ofNat conversion.toNat with
  | '%' => .ok [[percent]]
  | 'a' => do name shortDays (← date.weekday)
  | 'A' => do name longDays (← date.weekday)
  | 'b' => name shortMonths (date.month - 1)
  | 'B' => name longMonths (date.month - 1)
  | 'd' => number date.day 2 0x30
  | 'e' => number date.day 2 0x20
  | 'H' => number date.hour 2 0x30
  | 'j' => do number ((← date.dayOfYear) + 1) 3 0x30
  | 'm' => number date.month 2 0x30
  | 'M' => number date.minute 2 0x30
  | 'S' => number date.second 2 0x30
  | 'y' =>
    let short := match options.flavor with
      | .gnu => (date.year % 100).toNat
      | .musl => (date.year.tmod 100).natAbs
    number short 2 0x30
  | 'Y' => yearNumber date.year options.flavor
  | 'Z' => .ok [options.zone.abbreviation]
  | 'z' => do
    let offset := options.zone.offsetSeconds.toInt
    let hours ← number (offset.natAbs / 3600) 2 0x30
    let minutes ← number (offset.natAbs / 60 % 60) 2 0x30
    return (if offset < 0 then ascii "-" else ascii "+") :: (hours ++ minutes)
  | 'w' => do number (← date.weekday) 1 0x30
  | 'u' => do
    let weekday ← date.weekday
    number (if weekday = 0 then 7 else weekday) 1 0x30
  | 'n' => .ok [[0x0a]]
  | 't' => .ok [[0x09]]
  | _ => .error (.fault .assertFailed)

/-- The length of a format, in which a conversion that is expanded counts more than what it stands
for. -/
def weight (format : List UInt8) : ℕ :=
  (format.map fun byte => if (composite byte).isSome then 30 else 1).sum

theorem weight_composite {conversion : UInt8} {expansion : List UInt8}
    (h : composite conversion = some expansion) : weight expansion ≤ 20 := by
  unfold composite at h
  split at h <;> cases h <;> decide

theorem weight_cons (byte : UInt8) (format : List UInt8) :
    weight format < weight (byte :: format) := by
  unfold weight
  rw [List.map_cons, List.sum_cons]
  split_ifs <;> omega

theorem weight_expanded {conversion : UInt8} {expansion : List UInt8} (byte : UInt8)
    (format : List UInt8) (h : composite conversion = some expansion) :
    weight expansion < weight (byte :: conversion :: format) := by
  have hle := weight_composite h
  have hlt := weight_cons byte (conversion :: format)
  unfold weight at hle hlt ⊢
  rw [List.map_cons, List.map_cons, List.sum_cons, List.sum_cons, h] at *
  simp only [Option.isSome_some, if_true] at *
  omega

/-- `render`. -/
def render {σ : Type} (put : List UInt8 → Out σ Unit) (date : Civil) (options : FormatOptions) :
    List UInt8 → Out σ Unit
  | [] => pure ()
  | byte :: format =>
    if byte ≠ percent then do
      put [byte]
      render put date options format
    else
      match format with
      | [] => throw (.fault .outOfBounds)
      | conversion :: format =>
        match _h : composite conversion with
        | some expansion => do
          render put date options expansion
          render put date options format
        | none => do
          let pieces ← liftM (simple date options conversion)
          pieces.forM put
          render put date options format
termination_by format => weight format
decreasing_by
  · exact weight_cons _ _
  · exact weight_expanded _ _ _h
  · exact (weight_cons _ _).trans (weight_cons _ _)
  · exact (weight_cons _ _).trans (weight_cons _ _)

/-- `write`. -/
def write {σ : Type} (put : List UInt8 → Out σ Unit) (format : List UInt8) (date : Civil)
    (options : FormatOptions) : Out σ Unit := do
  liftM date.validate
  discard <| liftM date.tmYear
  liftM (validateFormat format)
  if 0 ∈ options.zone.abbreviation then throw .invalidZone
  render put date options format

/-- `formatZ`: what it returns, and the buffer it leaves. -/
def formatZ (buffer format : List UInt8) (date : Civil) (options : FormatOptions) :
    Except Error ℕ × List UInt8 :=
  match (write discarding format date options).run.run 0 with
  | (.error e, _) => (.error e, buffer)
  | (.ok (), count) =>
    if buffer.length ≤ count then (.ok 0, buffer)
    else
      match (render (fixed (buffer.length - 1)) date options format).run.run ⟨buffer, 0⟩ with
      | (.error e, w) => (.error e, w.buffer)
      | (.ok (), w) => (.ok w.stop, w.buffer.set w.stop 0)

/-! ### What is refused -/

/-- A format whose conversions are all supported. -/
inductive Supported : List UInt8 → Prop
  | nil : Supported []
  | plain {byte : UInt8} {format : List UInt8} (hbyte : byte ≠ percent) (h : Supported format) :
      Supported (byte :: format)
  | conversion {conversion : UInt8} {format : List UInt8} (hmem : conversion ∈ conversions)
      (h : Supported format) : Supported (percent :: conversion :: format)

/-- What `formatZ` does not format. -/
def Refused (format : List UInt8) (date : Civil) (options : FormatOptions) : Prop :=
  0 ∈ format ∨ ¬ Supported format ∨ ¬ date.Valid ∨
    ¬ (-2 ^ 31 ≤ date.year - 1900 ∧ date.year - 1900 < 2 ^ 31) ∨ 0 ∈ options.zone.abbreviation

theorem zero_notMem_conversions : (0 : UInt8) ∉ conversions := by decide

/-- The validator accepts the supported formats without a zero byte. -/
theorem validateFormat_cases : ∀ format : List UInt8,
    (validateFormat format = .ok () ∧ 0 ∉ format ∧ Supported format) ∨
      validateFormat format = .error .invalidFormat ∧ (0 ∈ format ∨ ¬ Supported format)
  | [] => .inl ⟨rfl, by simp, .nil⟩
  | byte :: format => by
    rw [validateFormat.eq_def]
    dsimp only
    by_cases hzero : byte = 0
    · rw [if_pos hzero]
      exact .inr ⟨rfl, .inl (by simp [hzero])⟩
    rw [if_neg hzero]
    by_cases hplain : byte ≠ percent
    · rw [if_pos hplain]
      rcases validateFormat_cases format with ⟨hrun, hnul, hsup⟩ | ⟨hrun, hbad⟩
      · exact .inl ⟨hrun, by simp [Ne.symm hzero, hnul], .plain hplain hsup⟩
      · refine .inr ⟨hrun, hbad.imp (List.mem_cons_of_mem _) fun hno hsup => ?_⟩
        cases hsup with
        | plain _ h => exact hno h
        | conversion _ _ => exact hplain rfl
    · obtain rfl := not_not.mp hplain
      rw [if_neg hplain]
      cases format with
      | nil =>
        refine .inr ⟨rfl, .inr fun hsup => ?_⟩
        cases hsup with
        | plain h _ => exact h rfl
      | cons c format =>
        dsimp only
        by_cases hmem : c ∈ conversions
        · rw [if_pos hmem]
          have hc : (0 : UInt8) ≠ c := fun h => zero_notMem_conversions (h ▸ hmem)
          rcases validateFormat_cases format with ⟨hrun, hnul, hsup⟩ | ⟨hrun, hbad⟩
          · exact .inl ⟨hrun, by simp [Ne.symm hzero, hc, hnul], .conversion hmem hsup⟩
          · refine .inr ⟨hrun, hbad.imp (fun h => List.mem_cons_of_mem _ (List.mem_cons_of_mem _ h))
              fun hno hsup => ?_⟩
            cases hsup with
            | plain h _ => exact h rfl
            | conversion _ h => exact hno h
        · rw [if_neg hmem]
          refine .inr ⟨rfl, .inr fun hsup => ?_⟩
          cases hsup with
          | plain h _ => exact h rfl
          | conversion h _ => exact hmem h

theorem supported_composite {conversion : UInt8} {expansion : List UInt8}
    (h : composite conversion = some expansion) : Supported expansion := by
  have hvalid : validateFormat expansion = .ok () := by
    unfold composite at h
    split at h <;> cases h <;> decide +kernel
  rcases validateFormat_cases expansion with ⟨-, -, hsup⟩ | ⟨hrun, -⟩
  · exact hsup
  · rw [hvalid] at hrun
    cases hrun

/-! ### What is written -/

theorem number_ok {value : ℕ} (width : ℕ) (pad : UInt8) (h : value < 2 ^ 64) :
    ∃ pieces, number value width pad = .ok pieces := by
  have hdigits : (decimal value).length ≤ 20 := by
    unfold decimal
    rw [List.length_map, Nat.length_toDigits_le_iff (by decide) (by decide)]
    omega
  unfold number
  dsimp only
  rw [if_neg (by omega)]
  split_ifs <;> exact ⟨_, rfl⟩

theorem yearNumber_ok {year : ℤ} (h : -2 ^ 63 ≤ year ∧ year < 2 ^ 63) (flavor : Flavor) :
    ∃ pieces, yearNumber year flavor = .ok pieces := by
  cases flavor with
  | gnu => exact ⟨_, rfl⟩
  | musl =>
    by_cases hneg : year < 0
    · obtain ⟨digits, hdigits⟩ := number_ok 3 0x30 (by omega : year.natAbs < 2 ^ 64)
      exact ⟨_, by rw [yearNumber, if_pos hneg, hdigits, ok_bind]; rfl⟩
    · obtain ⟨digits, hdigits⟩ := number_ok 4 0x30 (by omega : year.toNat < 2 ^ 64)
      exact ⟨_, by rw [yearNumber, if_neg hneg, hdigits, ok_bind]; rfl⟩

theorem name_ok {names : List (List UInt8)} {index : ℕ} (h : index < names.length) :
    ∃ pieces, name names index = .ok pieces := by
  unfold name
  rw [List.getElem?_eq_getElem h]
  exact ⟨_, rfl⟩

/-- **No unreachable branch.** Each conversion of the validator is expanded or written. -/
theorem simple_ok {date : Civil} (hdate : date.Valid)
    (hyear : -2 ^ 63 ≤ date.year ∧ date.year < 2 ^ 63) (options : FormatOptions)
    {conversion : UInt8} (hmem : conversion ∈ conversions)
    (hcomposite : composite conversion = none) :
    ∃ pieces, simple date options conversion = .ok pieces := by
  have hweekday := Civil.weekday_ok hdate
  have hw : ((date.date.dayCount + 4) % 7).toNat < 7 := by omega
  generalize ((date.date.dayCount + 4) % 7).toNat = w at hweekday hw
  have hday := Civil.dayOfYear_ok hdate
  have hlt := hdate.date.dayOfYear_lt
  have hlength : yearLength date.date.year ≤ 366 := by
    unfold yearLength
    split_ifs <;> omega
  have h12 : date.month ≤ 12 := hdate.date.month_le
  have h31 : date.day ≤ 31 := hdate.date.day_le.trans (monthLength_pos _ _).2
  have h23 := hdate.hour_le
  have h59 := hdate.minute_le
  have hs59 := hdate.second_le
  have hoffset : options.zone.offsetSeconds.toInt.natAbs ≤ 2 ^ 31 := by
    have h1 := options.zone.offsetSeconds.le_toInt
    have h2 := options.zone.offsetSeconds.toInt_lt
    omega
  have hcases : conversion ∈ conversions.filter fun c => (composite c).isNone :=
    List.mem_filter.mpr ⟨hmem, by rw [hcomposite]; rfl⟩
  have hlist : (conversions.filter fun c => (composite c).isNone) =
      [0x25, 0x61, 0x41, 0x62, 0x42, 0x64, 0x65,
      0x48, 0x6a, 0x6d, 0x4d, 0x53, 0x79, 0x59, 0x5a, 0x7a, 0x77, 0x75, 0x6e,
      0x74] := by decide +kernel
  rw [hlist] at hcases
  simp only [List.mem_cons, List.not_mem_nil, or_false] at hcases
  rcases hcases with rfl | rfl | rfl | rfl | rfl | rfl | rfl | rfl | rfl | rfl | rfl | rfl | rfl | rfl |
    rfl | rfl | rfl | rfl | rfl | rfl
  · exact ⟨_, rfl⟩
  · change ∃ pieces, (date.weekday >>= fun w => name shortDays w) = .ok pieces
    rw [hweekday, ok_bind]
    exact name_ok hw
  · change ∃ pieces, (date.weekday >>= fun w => name longDays w) = .ok pieces
    rw [hweekday, ok_bind]
    exact name_ok hw
  · exact name_ok (show date.month - 1 < 12 by omega)
  · exact name_ok (show date.month - 1 < 12 by omega)
  · exact number_ok 2 0x30 (by omega)
  · exact number_ok 2 0x20 (by omega)
  · exact number_ok 2 0x30 (by omega)
  · change ∃ pieces, (date.dayOfYear >>= fun day => number (day + 1) 3 0x30) = .ok pieces
    rw [hday, ok_bind]
    exact number_ok 3 0x30 (by omega)
  · exact number_ok 2 0x30 (by omega)
  · exact number_ok 2 0x30 (by omega)
  · exact number_ok 2 0x30 (by omega)
  · have hrem : (date.year.tmod 100).natAbs < 2 ^ 64 := by
      rw [Int.natAbs_tmod]
      change date.year.natAbs % 100 < 2 ^ 64
      omega
    refine number_ok 2 0x30 ?_
    cases options.flavor <;> dsimp only <;> omega
  · exact yearNumber_ok hyear _
  · exact ⟨_, rfl⟩
  · obtain ⟨hours, hhours⟩ := number_ok 2 0x30
      (by omega : options.zone.offsetSeconds.toInt.natAbs / 3600 < 2 ^ 64)
    obtain ⟨minutes, hminutes⟩ := number_ok 2 0x30
      (by omega : options.zone.offsetSeconds.toInt.natAbs / 60 % 60 < 2 ^ 64)
    refine ⟨(if options.zone.offsetSeconds.toInt < 0 then ascii "-"
      else ascii "+") :: (hours ++ minutes), ?_⟩
    change (number (options.zone.offsetSeconds.toInt.natAbs / 3600) 2 0x30 >>= fun hours =>
      number (options.zone.offsetSeconds.toInt.natAbs / 60 % 60) 2 0x30 >>= fun minutes =>
        pure ((if options.zone.offsetSeconds.toInt < 0 then ascii "-" else ascii "+") ::
          (hours ++ minutes))) = _
    rw [hhours, ok_bind, hminutes, ok_bind]
    rfl
  · change ∃ pieces, (date.weekday >>= fun w => number w 1 0x30) = .ok pieces
    rw [hweekday, ok_bind]
    exact number_ok 1 0x30 (by omega)
  · change ∃ pieces, (date.weekday >>= fun w => number (if w = 0 then 7 else w) 1 0x30) = .ok pieces
    rw [hweekday, ok_bind]
    refine number_ok 1 0x30 ?_
    split_ifs <;> omega
  · exact ⟨_, rfl⟩
  · exact ⟨_, rfl⟩

theorem liftM_ok_bind {σ α β : Type} (a : α) (f : α → Out σ β) :
    ((liftM (Except.ok a : Except Error α) : Out σ α) >>= f) = f a := rfl

theorem forM_append {σ : Type} (put : List UInt8 → Out σ Unit) (a b : List (List UInt8)) :
    (a ++ b).forM put = (a.forM put >>= fun _ => b.forM put) := List.forM_append

/-- **The pieces** of a supported format are the same for every writer. -/
theorem render_pieces {date : Civil} (hdate : date.Valid)
    (hyear : -2 ^ 63 ≤ date.year ∧ date.year < 2 ^ 63) (options : FormatOptions) :
    ∀ {format : List UInt8}, Supported format → ∃ pieces : List (List UInt8),
      ∀ {σ : Type} (put : List UInt8 → Out σ Unit), render put date options format = pieces.forM put
  | [], _ => ⟨[], fun put => by rw [render]; rfl⟩
  | byte :: format, h => by
    by_cases hplain : byte ≠ percent
    · have hrest : Supported format := by
        cases h with
        | plain _ h => exact h
        | conversion _ _ => exact absurd rfl hplain
      have hlt := weight_cons byte format
      obtain ⟨pieces, hpieces⟩ := render_pieces hdate hyear options hrest
      refine ⟨[byte] :: pieces, fun put => ?_⟩
      rw [render.eq_def]
      dsimp only
      rw [if_pos hplain, hpieces put]
      rfl
    · cases h with
      | plain hbyte _ => exact absurd hbyte hplain
      | @conversion c format hmem hrest =>
        have hlt : weight format < weight (percent :: c :: format) :=
          (weight_cons c format).trans (weight_cons percent _)
        obtain ⟨pieces, hpieces⟩ := render_pieces hdate hyear options hrest
        rcases hc : composite c with _ | expansion
        · obtain ⟨first, hfirst⟩ := simple_ok hdate hyear options hmem hc
          refine ⟨first ++ pieces, fun put => ?_⟩
          rw [render.eq_def]
          dsimp only
          rw [if_neg hplain]
          split
          · rename_i hsome
            rw [hc] at hsome
            cases hsome
          · rw [hfirst, liftM_ok_bind, hpieces put, forM_append]
        · have hlt' := weight_expanded percent format hc
          obtain ⟨first, hfirst⟩ := render_pieces hdate hyear options (supported_composite hc)
          refine ⟨first ++ pieces, fun put => ?_⟩
          rw [render.eq_def]
          dsimp only
          rw [if_neg hplain]
          split
          · rename_i hsome
            obtain rfl := Option.some.inj (hc.symm.trans hsome)
            rw [hfirst put, hpieces put, forM_append]
          · rename_i hnone
            rw [hc] at hnone
            cases hnone
termination_by format => weight format

/-! ### The writers -/

theorem bind_run {σ α β : Type} {x : Out σ α} {f : α → Out σ β} {s t : σ} {a : α}
    (h : x.run.run s = (.ok a, t)) : (x >>= f).run.run s = (f a).run.run t := by
  rw [ExceptT.run_bind, StateT.run_bind, h]
  rfl

theorem discarding_pieces : ∀ (pieces : List (List UInt8)) (n : ℕ),
    (pieces.forM discarding).run.run n = (.ok (), n + pieces.flatten.length)
  | [], _ => rfl
  | piece :: pieces, n => by
    have ih := discarding_pieces pieces (n + piece.length)
    rw [List.flatten_cons, List.length_append, ← Nat.add_assoc]
    exact ih

theorem collecting_pieces : ∀ (pieces : List (List UInt8)) (s : List UInt8),
    (pieces.forM collecting).run.run s = (.ok (), s ++ pieces.flatten)
  | [], s => by rw [List.flatten_nil, List.append_nil]; rfl
  | piece :: pieces, s => by
    have ih := collecting_pieces pieces (s ++ piece)
    rw [List.flatten_cons, ← List.append_assoc]
    exact ih

theorem put_put (w : Fixed) (a b : List UInt8) (h : w.stop + a.length ≤ w.buffer.length) :
    (w.put a).put b = w.put (a ++ b) := by
  have hlen : (w.buffer.take w.stop ++ a).length = w.stop + a.length := by
    rw [List.length_append, List.length_take_of_le (by omega)]
  have htake : (w.put a).buffer.take (w.stop + a.length) = w.buffer.take w.stop ++ a := by
    unfold Fixed.put
    rw [← hlen, List.take_left]
  have hdrop : (w.put a).buffer.drop (w.stop + a.length + b.length) =
      w.buffer.drop (w.stop + (a ++ b).length) := by
    unfold Fixed.put
    rw [← hlen, List.drop_length_add_append, List.drop_drop, hlen, List.length_append,
      Nat.add_assoc]
  unfold Fixed.put at htake hdrop ⊢
  dsimp only at htake hdrop ⊢
  rw [htake, hdrop, List.append_assoc _ a b, List.length_append, Nat.add_assoc]

theorem fixed_pieces {capacity : ℕ} : ∀ (pieces : List (List UInt8)) (w : Fixed),
    w.stop + pieces.flatten.length ≤ capacity → capacity ≤ w.buffer.length →
      (pieces.forM (fixed capacity)).run.run w = (.ok (), w.put pieces.flatten)
  | [], w, _, _ => by
    have hput : w.put [] = w := by simp [Fixed.put]
    rw [List.flatten_nil, hput]
    rfl
  | piece :: pieces, w, h, hcap => by
    rw [List.flatten_cons, List.length_append] at h
    have hlen : (w.put piece).buffer.length = w.buffer.length := by
      simp only [Fixed.put, List.length_append, List.length_take, List.length_drop]
      omega
    have hstop : (w.put piece).stop + pieces.flatten.length ≤ capacity := by
      change w.stop + piece.length + _ ≤ _
      omega
    have ih := fixed_pieces pieces (w.put piece) hstop (by rw [hlen]; exact hcap)
    have htake : piece.take (capacity - w.stop) = piece := List.take_of_length_le (by omega)
    have hroom : ¬ capacity < w.stop + piece.length := by omega
    have hstep : (fixed capacity piece).run.run w = (.ok (), w.put piece) := by
      unfold fixed
      rw [bind_run (rfl : (get : Out Fixed Fixed).run.run w = (.ok w, w)), htake,
        bind_run (rfl : (set (w.put piece) : Out Fixed PUnit).run.run w = (.ok ⟨⟩, w.put piece)),
        if_neg hroom]
      rfl
    rw [put_put w piece _ (by omega), ← List.flatten_cons] at ih
    exact (bind_run hstep).trans ih

/-! ### The whole of it -/

variable {format : List UInt8} {date : Civil} {options : FormatOptions}

theorem Civil.tmYear_cases (date : Civil) :
    ((-2 ^ 31 ≤ date.year - 1900 ∧ date.year - 1900 < 2 ^ 31) ∧ date.tmYear = .ok
      (date.year - 1900)) ∨
      ¬ (-2 ^ 31 ≤ date.year - 1900 ∧ date.year - 1900 < 2 ^ 31) ∧
        date.tmYear = .error .yearOutOfRange := by
  unfold tmYear
  dsimp only
  split_ifs with h
  · exact .inr ⟨by omega, rfl⟩
  · exact .inl ⟨by omega, rfl⟩

theorem write_eq_render (h : ¬ Refused format date options) {σ : Type}
    (put : List UInt8 → Out σ Unit) :
    write put format date options = render put date options format := by
  unfold Refused at h
  simp only [not_or, not_not] at h
  obtain ⟨hzero, hsup, hdate, hyear, hzone⟩ := h
  rcases Civil.tmYear_cases date with ⟨-, htm⟩ | ⟨hno, -⟩
  · rcases validateFormat_cases format with ⟨hformat, -, -⟩ | ⟨-, hbad⟩
    · unfold write
      rw [Civil.validate_ok hdate, htm, hformat, if_neg hzone]
      rfl
    · exact absurd hbad (by simp [hzero, hsup])
  · exact absurd hyear hno

/-- What is refused is refused before anything is written. -/
theorem write_refused (h : Refused format date options) : ∃ e, (∀ f, e ≠ .fault f) ∧
    ∀ {σ : Type} (put : List UInt8 → Out σ Unit) (s : σ),
      (write put format date options).run.run s = (.error e, s) := by
  by_cases hdate : date.Valid
  · rcases Civil.tmYear_cases date with ⟨hyear, htm⟩ | ⟨-, htm⟩
    · rcases validateFormat_cases format with ⟨hformat, hzero, hsup⟩ | ⟨hformat, -⟩
      · have hzone : 0 ∈ options.zone.abbreviation := by
          rcases h with h | h | h | h | h
          · exact absurd h hzero
          · exact absurd hsup h
          · exact absurd hdate h
          · exact absurd hyear h
          · exact h
        refine ⟨.invalidZone, nofun, fun put s => ?_⟩
        unfold write
        rw [Civil.validate_ok hdate, htm, hformat, if_pos hzone]
        rfl
      · refine ⟨.invalidFormat, nofun, fun put s => ?_⟩
        unfold write
        rw [Civil.validate_ok hdate, htm, hformat]
        rfl
    · refine ⟨.yearOutOfRange, nofun, fun put s => ?_⟩
      unfold write
      rw [Civil.validate_ok hdate, htm]
      rfl
  · refine ⟨.invalidDate, nofun, fun put s => ?_⟩
    unfold write
    rw [Civil.validate_invalid hdate]
    rfl

/-- **All or nothing.** What is refused leaves the buffer alone; the text of everything else is
stored with a zero byte behind it if there is room for both, and the buffer is left alone if there
is not. -/
theorem formatZ_whole (buffer format : List UInt8) (date : Civil) (options : FormatOptions) :
    (Refused format date options → ∃ e, (∀ f, e ≠ .fault f) ∧
      formatZ buffer format date options = (.error e, buffer)) ∧
    (¬ Refused format date options → ∃ text,
      (write collecting format date options).run.run [] = (.ok (), text) ∧
      formatZ buffer format date options =
        if text.length < buffer.length then (.ok text.length, text ++ 0 ::
          buffer.drop (text.length + 1))
        else (.ok 0, buffer)) := by
  constructor
  · intro h
    obtain ⟨e, hreal, hrun⟩ := write_refused h
    refine ⟨e, hreal, ?_⟩
    unfold formatZ
    rw [hrun]
  · intro h
    have hwrite := @write_eq_render format date options h
    unfold Refused at h
    simp only [not_or, not_not] at h
    obtain ⟨-, hsup, hdate, hyear, -⟩ := h
    obtain ⟨pieces, hpieces⟩ := render_pieces hdate (by omega) options hsup
    refine ⟨pieces.flatten, ?_, ?_⟩
    · rw [hwrite, hpieces, collecting_pieces]
      rfl
    · unfold formatZ
      rw [hwrite, hpieces, discarding_pieces, Nat.zero_add, hpieces]
      dsimp only
      by_cases hroom : pieces.flatten.length < buffer.length
      · rw [if_neg (by omega), if_pos hroom,
          fixed_pieces pieces _ (by dsimp only; omega) (by dsimp only; omega)]
        have hrest : buffer.drop pieces.flatten.length =
            buffer[pieces.flatten.length] :: buffer.drop (pieces.flatten.length + 1) :=
          List.drop_eq_getElem_cons hroom
        simp only [Fixed.put, Nat.zero_add, List.take_zero, List.nil_append]
        rw [hrest, List.set_append_right _ _ (Nat.le_refl _), Nat.sub_self, List.set_cons_zero]
      · rw [if_pos (by omega), if_neg hroom]

/-- A date in a buffer of eight bytes, and a format that is not supported. -/
theorem formatZ_whole_year :
    formatZ (List.replicate 8 0xa5) (ascii "%H:%M") ⟨1970, 1, 1, 0, 0, 0⟩ {} =
      (.ok 5, ascii "00:00" ++ [0, 0xa5, 0xa5]) ∧
    ∃ e, formatZ [0xa5] (ascii "%Q") ⟨1970, 1, 1, 0, 0, 0⟩ {} = (.error e, [0xa5]) := by
  have hformat : validateFormat (ascii "%H:%M") = .ok () := by decide +kernel
  have hrefused : ¬ Refused (ascii "%H:%M") ⟨1970, 1, 1, 0, 0, 0⟩ {} := by
    rcases validateFormat_cases (ascii "%H:%M") with ⟨-, hzero, hsup⟩ | ⟨hno, -⟩
    · rintro (h | h | h | h | h)
      · exact hzero h
      · exact h hsup
      · exact h ⟨⟨by decide, by decide, by decide, by decide⟩, by decide, by decide, by decide⟩
      · exact h (by decide)
      · exact absurd h (by decide +kernel)
    · rw [hformat] at hno
      cases hno
  have hinvalid : validateFormat (ascii "%Q") ≠ .ok () := by decide +kernel
  have hother : Refused (ascii "%Q") ⟨1970, 1, 1, 0, 0, 0⟩ {} := by
    rcases validateFormat_cases (ascii "%Q") with ⟨hok, -⟩ | ⟨-, hzero | hsup⟩
    · exact absurd hok hinvalid
    · exact .inl hzero
    · exact .inr (.inl hsup)
  constructor
  · obtain ⟨text, hwrite, hrun⟩ := (formatZ_whole (List.replicate 8 0xa5) _ _ _).2 hrefused
    have htext : ((write collecting (ascii "%H:%M") ⟨1970, 1, 1, 0, 0, 0⟩ {}).run.run []).2 =
        ascii "00:00" := by decide +kernel
    rw [hwrite] at htext
    obtain rfl : text = ascii "00:00" := htext
    rw [hrun]
    decide +kernel
  · obtain ⟨e, -, hrun⟩ := (formatZ_whole [0xa5] _ _ _).1 hother
    exact ⟨e, hrun⟩

end Ipmitool.Util.Calendar
