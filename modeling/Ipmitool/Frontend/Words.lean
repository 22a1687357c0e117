import Ipmitool.Serial.Terminal
import Mathlib.Data.List.TakeWhile

/-! # Shell words

`parse` of `frontend/ipmishell.zig`: a line is split into words at whitespace, quoted text stays
within its word, and a comment ends the line.

`parse_words` has both sides: quoted words come back, and a line is refused exactly if a quote is
left open or there are too many words. The second is about the machine `scan`, which reads the line
one byte at a time and only knows where it is. -/

namespace Ipmitool.Frontend.Words

open Ipmitool.Lib.Mealy Ipmitool.Serial Ipmitool.Serial.Terminal

/-- `max_args`. -/
def maxArgs : ℕ := 64

/-- The comment sign and the two quotes. -/
def hash : UInt8 := 0x23
def apostrophe : UInt8 := 0x27
def quotation : UInt8 := 0x22

def IsQuote (ch : UInt8) : Prop := ch = apostrophe ∨ ch = quotation

instance (ch : UInt8) : Decidable (IsQuote ch) := by
  unfold IsQuote
  infer_instance

/-- The errors of `parse`. -/
inductive ParseError where
  | tooManyArguments
  | unterminatedQuote
  deriving DecidableEq

/-- Where a word ends outside quotes. -/
def Separates (comments : Bool) (ch : UInt8) : Prop :=
  (comments = true ∧ ch = hash) ∨ isWhitespace ch = true

instance (comments : Bool) (ch : UInt8) : Decidable (Separates comments ch) := by
  unfold Separates
  infer_instance

/-- The inner loop of `parse`, from `text` with the open quote (0 if there is none) and the word so
far: the word, the quote and the text that is left. -/
def readWord (comments : Bool) : List UInt8 → UInt8 → List UInt8 → List UInt8 × UInt8 × List UInt8
  | [], quote, word => (word, quote, [])
  | ch :: text, quote, word =>
    if quote = 0 ∧ Separates comments ch then (word, quote, ch :: text)
    else if IsQuote ch then
      if quote = 0 then readWord comments text ch word
      else if quote = ch then readWord comments text 0 word
      else readWord comments text quote (word ++ [ch])
    else readWord comments text quote (word ++ [ch])

theorem length_readWord_le (comments : Bool) : ∀ (text : List UInt8) (quote : UInt8)
    (word : List UInt8),
    (readWord comments text quote word).2.2.length ≤ text.length
  | [], _, _ => Nat.le_refl _
  | ch :: text, quote, word => by
    have ih := fun quote word => Nat.le_succ_of_le (length_readWord_le comments text quote word)
    unfold readWord
    rw [List.length_cons]
    split_ifs
    · exact Nat.le_refl _
    · exact ih _ _
    · exact ih _ _
    · exact ih _ _
    · exact ih _ _

theorem length_readWord_lt {comments : Bool} {ch : UInt8} (h : ¬ Separates comments ch)
    (text : List UInt8) :
    (readWord comments (ch :: text) 0 []).2.2.length < (ch :: text).length := by
  have hle := fun quote word => Nat.lt_succ_of_le (length_readWord_le comments text quote word)
  rw [readWord, if_neg fun hsep => h hsep.2, if_pos rfl, List.length_cons]
  split_ifs
  · exact hle _ _
  · exact hle _ _

theorem not_isWhitespace_of_dropWhile {text rest : List UInt8} {ch : UInt8}
    (h : text.dropWhile isWhitespace = ch :: rest) : isWhitespace ch = false := by
  have hhead := List.head?_dropWhile_not isWhitespace text
  rw [h] at hhead
  exact hhead

theorem not_separates {comments : Bool} {text rest : List UInt8} {ch : UInt8}
    (h : text.dropWhile isWhitespace = ch :: rest) (hcomment : ¬ (comments = true ∧ ch = hash)) :
    ¬ Separates comments ch := by
  rintro (hbad | hspace)
  · exact hcomment hbad
  · rw [not_isWhitespace_of_dropWhile h] at hspace
    exact Bool.false_ne_true hspace

/-- What a caller reads of an argument, which ends with a zero. -/
def argument (word : List UInt8) : List UInt8 := word.takeWhile (· ≠ 0)

/-- The outer loop of `parse`. -/
def parseLoop (comments : Bool) (text : List UInt8) (args : List (List UInt8)) :
    Except ParseError (List (List UInt8)) :=
  match _htext : text.dropWhile isWhitespace with
  | [] => .ok args
  | ch :: rest =>
    if _hcomment : comments = true ∧ ch = hash then .ok args
    else if args.length = maxArgs then .error .tooManyArguments
    else
      let r := readWord comments (ch :: rest) 0 []
      if r.2.1 ≠ 0 then .error .unterminatedQuote
      else parseLoop comments r.2.2 (args ++ [argument r.1])
termination_by text.length
decreasing_by
  have hlt := length_readWord_lt (not_separates _htext _hcomment) rest
  have hle := (List.dropWhile_suffix isWhitespace (l := text)).length_le
  rw [_htext] at hle
  exact Nat.lt_of_lt_of_le hlt hle

/-- `parse`. -/
def parse (text : List UInt8) (comments : Bool) : Except ParseError (List (List UInt8)) :=
  parseLoop comments text []

theorem parseLoop_end {comments : Bool} {text : List UInt8} (args : List (List UInt8))
    (h : text.dropWhile isWhitespace = [] ∨
      ∃ rest, comments = true ∧ text.dropWhile isWhitespace = hash :: rest) :
    parseLoop comments text args = .ok args := by
  rw [parseLoop]
  rcases h with h | ⟨rest, hcomments, h⟩
  · split
    · rfl
    · rename_i h'
      rw [h] at h'
      simp at h'
  · split
    · rfl
    · rename_i h'
      rw [h] at h'
      rw [dif_pos ⟨hcomments, (List.cons.inj h').1.symm⟩]

theorem parseLoop_word {comments : Bool} {text rest : List UInt8} {ch : UInt8}
    (args : List (List UInt8)) (h : text.dropWhile isWhitespace = ch :: rest)
    (hsep : ¬ Separates comments ch) :
    parseLoop comments text args =
      if args.length = maxArgs then .error .tooManyArguments
      else if (readWord comments (ch :: rest) 0 []).2.1 ≠ 0 then .error .unterminatedQuote
      else parseLoop comments (readWord comments (ch :: rest) 0 []).2.2
        (args ++ [argument (readWord comments (ch :: rest) 0 []).1]) := by
  rw [parseLoop]
  split
  · rename_i h'
    rw [h] at h'
    simp at h'
  · rename_i ch' rest' h'
    rw [h] at h'
    obtain ⟨rfl, rfl⟩ := List.cons.inj h'
    rw [dif_neg fun hcomment => hsep (.inl hcomment)]

/-! ### Where a line is refused -/

/-- Where the reading of a line is: between words, in a word outside quotes, inside a quote, or in a
comment. -/
inductive Place where
  | blank
  | word
  | quoted (quote : UInt8)
  | comment
  deriving DecidableEq

/-- The place after one more byte, outside quotes. -/
def Place.next (comments : Bool) (ch : UInt8) : Place :=
  if isWhitespace ch then .blank
  else if comments = true ∧ ch = hash then .comment
  else if IsQuote ch then .quoted ch
  else .word

/-- **Reading a line**: one byte, and whether a word begins with it. -/
def scan (comments : Bool) : Place → UInt8 → Place × Bool
  | .comment, _ => (.comment, false)
  | .quoted quote, ch => (if ch = quote then .word else .quoted quote, false)
  | .word, ch => (Place.next comments ch, false)
  | .blank, ch => (Place.next comments ch, decide ¬ Separates comments ch)

/-- The words that begin in a line outside its comment. -/
def wordsBegun (comments : Bool) (text : List UInt8) : ℕ :=
  (outputs (scan comments) .blank text).count true

/-- A quote is open at the end of the line. -/
def OpenQuote (comments : Bool) (text : List UInt8) : Prop :=
  ∃ quote, after (scan comments) .blank text = .quoted quote

/-- The place inside a word, as the loop has it. -/
def inWord (quote : UInt8) : Place := if quote = 0 then .word else .quoted quote

theorem inWord_zero : inWord 0 = .word := rfl

/-- A text that ends a word begins with a separator. -/
def EndsWord (comments : Bool) (text : List UInt8) : Prop :=
  ∀ ch ∈ text.head?, Separates comments ch

/-- The open quote after one more byte of a word. -/
def nextQuote (quote ch : UInt8) : UInt8 :=
  if IsQuote ch then (if quote = 0 then ch else if quote = ch then 0 else quote) else quote

theorem nextQuote_isQuote {quote : UInt8} (ch : UInt8) (h : quote = 0 ∨ IsQuote quote) :
    nextQuote quote ch = 0 ∨ IsQuote (nextQuote quote ch) := by
  unfold nextQuote
  split_ifs with hch hzero hsame
  · exact .inr hch
  · exact .inl rfl
  · exact h
  · exact h

theorem ne_zero_of_isQuote {ch : UInt8} (h : IsQuote ch) : ch ≠ 0 := by
  rcases h with rfl | rfl
  · decide
  · decide

theorem readWord_step {comments : Bool} {quote ch : UInt8}
    (h : ¬ (quote = 0 ∧ Separates comments ch)) (text word : List UInt8) :
    ∃ word', readWord comments (ch :: text) quote word =
      readWord comments text (nextQuote quote ch) word' := by
  rw [readWord, if_neg h]
  unfold nextQuote
  split_ifs
  · exact ⟨_, rfl⟩
  · exact ⟨_, rfl⟩
  · exact ⟨_, rfl⟩
  · exact ⟨_, rfl⟩

theorem scan_step {comments : Bool} {quote ch : UInt8} (h : ¬ (quote = 0 ∧ Separates comments ch))
    (hquote : quote = 0 ∨ IsQuote quote) :
    scan comments (inWord quote) ch = (inWord (nextQuote quote ch), false) := by
  by_cases hzero : quote = 0
  · subst hzero
    have hsep : ¬ Separates comments ch := fun hs => h ⟨rfl, hs⟩
    have hspace : ¬ isWhitespace ch = true := fun hs => hsep (.inr hs)
    have hcomment : ¬ (comments = true ∧ ch = hash) := fun hc => hsep (.inl hc)
    rw [inWord_zero, scan, Place.next, if_neg hspace, if_neg hcomment]
    unfold nextQuote inWord
    by_cases hch : IsQuote ch
    · rw [if_pos hch, if_pos hch, if_pos rfl, if_neg (ne_zero_of_isQuote hch)]
    · rw [if_neg hch, if_neg hch, if_pos rfl]
  · have hq : IsQuote quote := hquote.resolve_left hzero
    have hplace : inWord quote = .quoted quote := if_neg hzero
    rw [hplace, scan]
    unfold nextQuote
    by_cases hsame : ch = quote
    · subst hsame
      rw [if_pos rfl, if_pos hq, if_neg hzero, if_pos rfl, inWord_zero]
    · have hother : ¬ quote = ch := fun he => hsame he.symm
      rw [if_neg hsame, if_neg hzero, if_neg hother, ite_self, hplace]

/-- What the inner loop took from `text` follows the machine to the end of the word. -/
structure Follows (comments : Bool) (quote : UInt8) (text : List UInt8)
    (r : List UInt8 × UInt8 × List UInt8) (taken : List UInt8) : Prop where
  text : text = taken ++ r.2.2
  place : after (scan comments) (inWord quote) taken = inWord r.2.1
  begins : (outputs (scan comments) (inWord quote) taken).count true = 0
  ends : EndsWord comments r.2.2
  closed : r.2.2 ≠ [] → r.2.1 = 0
  quote : r.2.1 = 0 ∨ IsQuote r.2.1

theorem Follows.cons {comments : Bool} {quote quote' ch : UInt8} {text taken : List UInt8}
    {r : List UInt8 × UInt8 × List UInt8} (h : Follows comments quote' text r taken)
    (hscan : scan comments (inWord quote) ch = (inWord quote', false)) :
    Follows comments quote (ch :: text) r (ch :: taken) where
  text := by rw [List.cons_append, ← h.text]
  place := by
    rw [after_cons, hscan]
    exact h.place
  begins := by
    rw [outputs_cons, hscan, List.count_cons, h.begins]
    rfl
  ends := h.ends
  closed := h.closed
  quote := h.quote

/-- **The inner loop follows the machine** to the end of a word. -/
theorem readWord_follows (comments : Bool) : ∀ (text : List UInt8) {quote : UInt8}
    (word : List UInt8),
    quote = 0 ∨ IsQuote quote → ∃ taken,
    Follows comments quote text (readWord comments text quote word) taken
  | [], _, _, hquote =>
    ⟨[], rfl, rfl, rfl, fun ch hch => by simp [readWord] at hch,
      fun h => absurd rfl h, hquote⟩
  | ch :: text, quote, word, hquote => by
    by_cases hend : quote = 0 ∧ Separates comments ch
    · rw [readWord, if_pos hend]
      refine ⟨[], rfl, rfl, rfl, fun c hc => ?_, fun _ => hend.1, hquote⟩
      obtain rfl := Option.some.inj hc
      exact hend.2
    · obtain ⟨word', hstep⟩ := readWord_step hend text word
      obtain ⟨taken, hfollows⟩ := readWord_follows comments text word' (nextQuote_isQuote ch hquote)
      rw [hstep]
      exact ⟨ch :: taken, hfollows.cons (scan_step hend hquote)⟩

theorem scan_blanks (comments : Bool) (text : List UInt8) :
    after (scan comments) .blank (text.takeWhile isWhitespace) = .blank ∧
      (outputs (scan comments) .blank (text.takeWhile isWhitespace)).count true = 0 := by
  have hidle : ∀ ch ∈ text.takeWhile isWhitespace, scan comments .blank ch = (.blank, false) := by
    intro ch hch
    have hspace := List.all_eq_true.mp List.all_takeWhile ch hch
    have hsep : Separates comments ch := .inr hspace
    rw [scan, Place.next, if_pos hspace, decide_eq_false (not_not.mpr hsep)]
  obtain ⟨hafter, hout⟩ := run_idle (scan comments) _ hidle
  refine ⟨hafter, ?_⟩
  rw [hout, List.count_replicate]
  rfl

theorem wordsBegun_dropWhile (comments : Bool) (text : List UInt8) :
    wordsBegun comments (text.dropWhile isWhitespace) = wordsBegun comments text ∧
      (OpenQuote comments (text.dropWhile isWhitespace) ↔ OpenQuote comments text) := by
  obtain ⟨hafter, hcount⟩ := scan_blanks comments text
  have hsplit := List.takeWhile_append_dropWhile (p := isWhitespace) (l := text)
  constructor
  · unfold wordsBegun
    conv_rhs => rw [← hsplit, outputs_append, hafter, List.count_append, hcount, Nat.zero_add]
  · unfold OpenQuote
    conv_rhs => rw [← hsplit, after_append, hafter]

theorem scan_comment (comments : Bool) (text : List UInt8) :
    after (scan comments) .comment text = .comment ∧
      (outputs (scan comments) .comment text).count true = 0 := by
  obtain ⟨hafter, hout⟩ := run_idle (scan comments) (s := .comment) (o := false) text fun _ _ => rfl
  refine ⟨hafter, ?_⟩
  rw [hout, List.count_replicate]
  rfl

/-- Where a separator follows, the end of a word is no other place than between words. -/
theorem scan_word_end {comments : Bool} {ch : UInt8} (h : Separates comments ch) :
    scan comments .word ch = scan comments .blank ch := by
  rw [scan, scan, decide_eq_false (not_not.mpr h)]

theorem scan_rest {comments : Bool} {quote : UInt8} {text : List UInt8}
    (hends : EndsWord comments text) (hclosed : text ≠ [] → quote = 0) :
    (outputs (scan comments) (inWord quote) text).count true = wordsBegun comments text ∧
      ((∃ q, after (scan comments) (inWord quote) text = .quoted q) ↔
        quote ≠ 0 ∨ OpenQuote comments text) := by
  cases text with
  | nil =>
    refine ⟨rfl, ?_⟩
    by_cases hzero : quote = 0
    · simp [hzero, inWord, OpenQuote]
    · simp [hzero, inWord]
  | cons ch text =>
    have hsame := scan_word_end (hends ch rfl)
    rw [hclosed (List.cons_ne_nil _ _), inWord_zero, outputs_cons, after_cons, hsame]
    exact ⟨rfl, fun h => .inr h, fun h => h.resolve_left (not_not.mpr rfl)⟩

/-- What the machine says about a line that begins with a word. -/
theorem scan_of_word {comments : Bool} {ch : UInt8} {rest taken : List UInt8}
    {r : List UInt8 × UInt8 × List UInt8} (hsep : ¬ Separates comments ch)
    (h : Follows comments 0 (ch :: rest) r taken) (hlt : r.2.2.length < (ch :: rest).length) :
    wordsBegun comments (ch :: rest) = 1 + wordsBegun comments r.2.2 ∧
      (OpenQuote comments (ch :: rest) ↔ r.2.1 ≠ 0 ∨ OpenQuote comments r.2.2) := by
  obtain _ | ⟨ch', taken⟩ := taken
  · have htext := congrArg List.length h.text
    rw [List.nil_append] at htext
    omega
  obtain rfl : ch = ch' := (List.cons.inj h.text).1
  have hrest : rest = taken ++ r.2.2 := (List.cons.inj h.text).2
  have hfirst : scan comments .blank ch = ((scan comments .word ch).1, true) := by
    rw [scan, scan, decide_eq_true hsep]
  have hplace := h.place
  have hbegins := h.begins
  rw [inWord_zero, after_cons] at hplace
  rw [inWord_zero, outputs_cons, List.count_cons] at hbegins
  have hcount : (outputs (scan comments) (scan comments .word ch).1 taken).count true = 0 := by
    omega
  obtain ⟨hbegun, hopen⟩ := scan_rest h.ends h.closed
  constructor
  · rw [wordsBegun, outputs_cons, hfirst, List.count_cons_self, hrest, outputs_append, hplace,
      List.count_append, hcount, hbegun]
    omega
  · rw [OpenQuote, after_cons, hfirst, hrest, after_append, hplace]
    exact hopen

/-- Behind the last word no quote is open and no word begins. -/
structure Ended (comments : Bool) (text : List UInt8) : Prop where
  closed : ¬ OpenQuote comments text
  none : wordsBegun comments text = 0

theorem ended_nil (comments : Bool) : Ended comments [] where
  closed := by
    rintro ⟨quote, h⟩
    exact Place.noConfusion h
  none := rfl

theorem ended_comment (rest : List UInt8) : Ended true (hash :: rest) := by
  have hfirst : scan true .blank hash = (.comment, false) := by decide
  obtain ⟨hafter, hcount⟩ := scan_comment true rest
  constructor
  · rintro ⟨quote, h⟩
    rw [after_cons, hfirst, hafter] at h
    exact Place.noConfusion h
  · rw [wordsBegun, outputs_cons, hfirst, List.count_cons, hcount]
    rfl

/-- The line is refused: a quote is left open, or there are too many words. -/
def Refused (comments : Bool) (args : List (List UInt8)) (text : List UInt8) : Prop :=
  OpenQuote comments text ∨ maxArgs < args.length + wordsBegun comments text

theorem Ended.not_refused {comments : Bool} {text : List UInt8} (h : Ended comments text)
    {args : List (List UInt8)} (hargs : args.length ≤ maxArgs) : ¬ Refused comments args text := by
  rintro (hopen | hmany)
  · exact h.closed hopen
  · rw [h.none] at hmany
    omega

theorem ok_iff {α : Type} {a : α} {P : Prop} (h : ¬ P) :
    (∃ e : ParseError, Except.ok a = .error e) ↔ P :=
  ⟨fun he => he.elim fun _ h' => by simp at h', fun hp => absurd hp h⟩

theorem error_iff {α : Type} {e : ParseError} {P : Prop} (h : P) :
    (∃ e', (Except.error e : Except ParseError α) = .error e') ↔ P :=
  ⟨fun _ => h, fun _ => ⟨e, rfl⟩⟩

/-- **What the outer loop refuses**, from a line and the words before it. -/
theorem parseLoop_refuses (comments : Bool) (n : ℕ) {text : List UInt8} {args : List (List UInt8)}
    (hn : text.length ≤ n) (hargs : args.length ≤ maxArgs) :
    (∃ e, parseLoop comments text args = .error e) ↔ Refused comments args text := by
  -- the induction follows the loop, which shortens the text by a word in each round
  induction n generalizing text args with
  | zero =>
    obtain rfl := List.length_eq_zero_iff.mp (Nat.le_zero.mp hn)
    rw [parseLoop_end args (.inl rfl)]
    exact ok_iff ((ended_nil comments).not_refused hargs)
  | succ n ih =>
    obtain ⟨hbegun, hopen⟩ := wordsBegun_dropWhile comments text
    have hle := (List.dropWhile_suffix isWhitespace (l := text)).length_le
    rw [Refused, ← hbegun, ← hopen]
    rcases htext : text.dropWhile isWhitespace with _ | ⟨ch, rest⟩
    · rw [parseLoop_end args (.inl htext)]
      exact ok_iff ((ended_nil comments).not_refused hargs)
    rw [htext] at hle
    by_cases hcomment : comments = true ∧ ch = hash
    · obtain ⟨rfl, rfl⟩ := hcomment
      rw [parseLoop_end args (.inr ⟨rest, rfl, htext⟩)]
      exact ok_iff ((ended_comment rest).not_refused hargs)
    · have hsep := not_separates htext hcomment
      obtain ⟨taken, hfollows⟩ := readWord_follows comments (ch :: rest) [] (.inl rfl)
      have hlt := length_readWord_lt hsep rest
      obtain ⟨hbegun', hopen'⟩ := scan_of_word hsep hfollows hlt
      rw [parseLoop_word args htext hsep, hbegun', hopen']
      by_cases hfull : args.length = maxArgs
      · rw [if_pos hfull]
        exact error_iff (.inr (by omega))
      rw [if_neg hfull]
      by_cases hquote : (readWord comments (ch :: rest) 0 []).2.1 ≠ 0
      · rw [if_pos hquote]
        exact error_iff (.inl (.inl hquote))
      · have hargs' : (args ++ [argument (readWord comments (ch :: rest) 0 []).1]).length =
            args.length + 1 := by
          rw [List.length_append, List.length_singleton]
        rw [if_neg hquote, ih (by omega) (by omega), Refused, hargs', or_iff_right hquote,
          Nat.add_assoc]

theorem parse_refuses (text : List UInt8) (comments : Bool) :
    (∃ e, parse text comments = .error e) ↔
      OpenQuote comments text ∨ maxArgs < wordsBegun comments text := by
  have h : _ ↔ Refused comments [] text :=
    parseLoop_refuses comments text.length (Nat.le_refl _) (Nat.zero_le _)
  rw [Refused, List.length_nil, Nat.zero_add] at h
  exact h

/-! ### Quoted words -/

/-- A line of quoted arguments: each between two quotes that it does not contain, with whitespace in
between, and possibly before the first and behind the last. -/
inductive Line : List (List UInt8) → List UInt8 → Prop
  | nil {gap : List UInt8} (hgap : ∀ ch ∈ gap, isWhitespace ch = true) : Line [] gap
  | cons {gap arg rest : List UInt8} {args : List (List UInt8)} {quote : UInt8}
      (hgap : ∀ ch ∈ gap, isWhitespace ch = true) (hquote : IsQuote quote) (harg : quote ∉ arg)
      (h : Line args rest) (hnext : args ≠ [] → ∃ ch ∈ rest.head?, isWhitespace ch = true) :
      Line (arg :: args) (gap ++ quote :: (arg ++ quote :: rest))

/-- Inside a quote everything up to its end belongs to the word. -/
theorem readWord_quoted (comments : Bool) {quote : UInt8} (hquote : quote ≠ 0) (rest : List UInt8) :
    ∀ (arg word : List UInt8), quote ∉ arg → IsQuote quote →
      readWord comments (arg ++ quote :: rest) quote word = readWord comments rest 0 (word ++ arg)
  | [], word, _, hq => by
    rw [List.nil_append, List.append_nil, readWord, if_neg fun h => hquote h.1, if_pos hq,
      if_neg hquote, if_pos rfl]
  | ch :: arg, word, hmem, hq => by
    have hne : ¬ quote = ch := fun he => hmem (he ▸ List.mem_cons_self)
    have ih := readWord_quoted comments hquote rest arg (word ++ [ch])
      (fun h => hmem (List.mem_cons_of_mem _ h)) hq
    rw [List.append_assoc, List.singleton_append] at ih
    rw [List.cons_append, readWord, if_neg fun h => hquote h.1, if_neg hquote, if_neg hne, ite_self]
    exact ih

/-- The end of a word, where there is nothing more or whitespace. -/
theorem readWord_end (comments : Bool) {rest : List UInt8} (word : List UInt8)
    (h : rest = [] ∨ ∃ ch ∈ rest.head?, isWhitespace ch = true) :
    readWord comments rest 0 word = (word, 0, rest) := by
  rcases h with rfl | ⟨ch, hch, hspace⟩
  · rfl
  · rcases rest with _ | ⟨c, rest⟩
    · simp at hch
    · obtain rfl := Option.some.inj hch
      rw [readWord, if_pos ⟨rfl, .inr hspace⟩]

theorem readWord_quote (comments : Bool) {quote : UInt8} (hquote : IsQuote quote)
    {arg rest : List UInt8}
    (harg : quote ∉ arg) (hrest : rest = [] ∨ ∃ ch ∈ rest.head?, isWhitespace ch = true) :
    ¬ Separates comments quote ∧
      readWord comments (quote :: (arg ++ quote :: rest)) 0 [] = (arg, 0, rest) := by
  have hsep : ¬ Separates comments quote := by
    rcases hquote with rfl | rfl
    · cases comments <;> decide
    · cases comments <;> decide
  refine ⟨hsep, ?_⟩
  rw [readWord, if_neg fun h => hsep h.2, if_pos hquote, if_pos rfl,
    readWord_quoted comments (ne_zero_of_isQuote hquote) rest arg [] harg hquote, List.nil_append,
    readWord_end comments arg hrest]

theorem Line.next {args : List (List UInt8)} {rest : List UInt8} (h : Line args rest)
    (hnext : args ≠ [] → ∃ ch ∈ rest.head?, isWhitespace ch = true) :
    rest = [] ∨ ∃ ch ∈ rest.head?, isWhitespace ch = true := by
  cases h with
  | nil hgap =>
    rcases rest with _ | ⟨ch, gap⟩
    · exact .inl rfl
    · exact .inr ⟨ch, rfl, hgap ch List.mem_cons_self⟩
  | cons => exact .inr (hnext (List.cons_ne_nil _ _))

theorem parseLoop_line (comments : Bool) {args : List (List UInt8)} {line : List UInt8}
    (h : Line args line) : ∀ {before : List (List UInt8)}, before.length + args.length ≤ maxArgs →
      (∀ arg ∈ args, 0 ∉ arg) → parseLoop comments line before = .ok (before ++ args) := by
  induction h with
  | @nil gap hgap =>
    intro before _ _
    have hblank : gap.dropWhile isWhitespace = [] := List.dropWhile_eq_nil_iff.mpr hgap
    rw [parseLoop_end before (.inl hblank), List.append_nil]
  | @cons gap arg rest args quote hgap hquote harg hline hnext ih =>
    intro before hlen hzero
    obtain ⟨hsep, hword⟩ := readWord_quote comments hquote harg (hline.next hnext)
    have hspace : ¬ isWhitespace quote = true := fun hs => hsep (.inr hs)
    have htext : (gap ++ quote :: (arg ++ quote :: rest)).dropWhile isWhitespace =
        quote :: (arg ++ quote :: rest) := by
      rw [List.dropWhile_append_of_pos hgap, List.dropWhile_cons_of_neg hspace]
    have hargument : argument arg = arg := by
      refine List.takeWhile_eq_self_iff.mpr fun ch hch => decide_eq_true ?_
      rintro rfl
      exact hzero arg List.mem_cons_self hch
    have hroom : ¬ before.length = maxArgs := by
      rw [List.length_cons] at hlen
      omega
    rw [parseLoop_word before htext hsep, if_neg hroom, hword, if_neg (not_not.mpr rfl), hargument,
      ih (by rw [List.length_append, List.length_singleton]; rw [List.length_cons] at hlen; omega)
        fun a ha => hzero a (List.mem_cons_of_mem _ ha), List.append_assoc, List.singleton_append]

theorem Line.space {args : List (List UInt8)} {line : List UInt8} (h : Line args line) :
    Line args (Terminal.space :: line) := by
  have hspaced : ∀ {gap : List UInt8}, (∀ ch ∈ gap, isWhitespace ch = true) →
      ∀ ch ∈ Terminal.space :: gap, isWhitespace ch = true := by
    intro gap hgap ch hch
    rcases List.mem_cons.mp hch with rfl | hch
    · decide
    · exact hgap ch hch
  cases h with
  | nil hgap => exact .nil (hspaced hgap)
  | cons hgap hquote harg hrest hnext => exact .cons (hspaced hgap) hquote harg hrest hnext

/-- Arguments that have no more than one of the quotes can be quoted. -/
theorem exists_line : ∀ {args : List (List UInt8)},
    (∀ arg ∈ args, apostrophe ∉ arg ∨ quotation ∉ arg) → ∃ line, Line args line
  | [], _ => ⟨[], .nil fun _ h => absurd h List.not_mem_nil⟩
  | arg :: args, h => by
    obtain ⟨line, hline⟩ := exists_line fun a ha => h a (List.mem_cons_of_mem _ ha)
    obtain ⟨quote, hquote, harg⟩ : ∃ quote, IsQuote quote ∧ quote ∉ arg := by
      rcases h arg List.mem_cons_self with harg | harg
      · exact ⟨apostrophe, .inl rfl, harg⟩
      · exact ⟨quotation, .inr rfl, harg⟩
    exact ⟨[] ++ _, .cons (fun _ hch => absurd hch List.not_mem_nil) hquote harg hline.space
      fun _ => ⟨space, rfl, rfl⟩⟩

/-- **Shell words.** Arguments without both quotes can be quoted; quoted arguments come back as they
were, with comments or without; and any line is refused exactly if a quote is open at its end or
more words than allowed begin before its comment. -/
theorem parse_words :
    (∀ args : List (List UInt8), (∀ arg ∈ args, apostrophe ∉ arg ∨ quotation ∉ arg) →
      ∃ line, Line args line) ∧
    (∀ (args : List (List UInt8)) (line : List UInt8) (comments : Bool), args.length ≤ maxArgs →
      (∀ arg ∈ args, 0 ∉ arg) → Line args line → parse line comments = .ok args) ∧
    (∀ (text : List UInt8) (comments : Bool), (∃ e, parse text comments = .error e) ↔
      OpenQuote comments text ∨ maxArgs < wordsBegun comments text) := by
  refine ⟨fun args => exists_line, fun args line comments hlen hzero hline => ?_, parse_refuses⟩
  have hlen' : ([] : List (List UInt8)).length + args.length ≤ maxArgs := by
    rw [List.length_nil, Nat.zero_add]
    exact hlen
  exact parseLoop_line comments hline hlen' hzero

/-- Two words, one of them empty, with a comment behind; a quote that is left open. -/
theorem parse_words_line : parse [space, quotation, 0x61, apostrophe, hash, quotation,
    space, apostrophe,
      apostrophe] true = .ok [[0x61, apostrophe, hash], []] ∧
    ∃ e, parse [0x61, quotation] false = .error e := by
  refine ⟨parse_words.2.1 _ _ true (by decide) (by decide) ?_,
    (parse_words.2.2 _ false).mpr (.inl ?_)⟩
  · have hsecond : Line [[]] ([space] ++ apostrophe :: ([] ++ [apostrophe])) :=
      .cons (List.all_eq_true.mp rfl) (.inl rfl) (by decide) (.nil (List.all_eq_true.mp rfl))
        fun h => absurd rfl h
    have hboth : Line [[0x61, apostrophe, hash], []] ([space] ++ quotation ::
        ([0x61, apostrophe, hash] ++ quotation ::
          ([space] ++ apostrophe :: ([] ++ [apostrophe])))) :=
      .cons (List.all_eq_true.mp rfl) (.inr rfl) (by decide) hsecond fun _ => ⟨space, rfl, rfl⟩
    exact hboth
  · exact ⟨quotation, rfl⟩

end Ipmitool.Frontend.Words
