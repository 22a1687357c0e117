import Ipmitool.Sel.Listing
import Ipmitool.Util.Integer

/-! # Saving the log and adding it again

`selAddEntriesFromStream` and `parseSelAddLine` of `cmd/sel.zig`. A line of the file has seven
numbers and a comment; each becomes an Add SEL Entry request. `savelistEntries` writes such a line
for every entry it shows, through the standard view, whatever kind of entry it is (`file_emitAll`),
and every line is read back (`parseSelAddLine_line`). So the log is reproduced exactly if it has
standard entries only (`save_add_iff`). -/

namespace Ipmitool.Sel.Save

open Ipmitool.Lib.Bytes Ipmitool.Lib.Machine Ipmitool.Lib.Dialogue Ipmitool.Core.Interface
open Ipmitool.Util.Integer Ipmitool.Sel.Entries Ipmitool.Sel.Listing

variable {β : Type} (B : Bmc β)

/-! ### One line -/

/-- `trimSelAddLine`: the text before the comment, without the space around it; none if nothing is
left. -/
def trimSelAddLine (line : List UInt8) : Option (List UInt8) :=
  let text := (line.takeWhile (· ≠ 0)).takeWhile (· ≠ 0x23)
  let text := (text.reverse.dropWhile isSpace).reverse.dropWhile isSpace
  if text = [] then none else some text

/-- `nextSelAddToken`: the next token and the text behind the blank that ends it. -/
def nextSelAddToken (text : List UInt8) : Option (List UInt8 × List UInt8) :=
  let text := text.dropWhile (· = 0x20)
  if text = [] then none
  else some (text.takeWhile (· ≠ 0x20), (text.dropWhile (· ≠ 0x20)).drop 1)

/-- The loop of `parseSelAddLine` over the tokens, with the number of bytes that are missing. -/
def parseTokens : ℕ → List UInt8 → Option (List UInt8)
  | 0, _ => some []
  | k + 1, text =>
    match nextSelAddToken text with
    | none => none
    | some (token, text) =>
      match str2uchar token with
      | none => none
      | some b => (parseTokens k text).map (b :: ·)

/-- `selAddEntry`. -/
def selAddEntry (rec : SelEventRecord) : Cmd Unit β ℤ := do
  match ← sendrecv B ⟨netfnStorage, 0, 0x44, rec.bytes⟩ with
  | none => return -1
  | some r => return if r.ccode ≠ 0 then -1 else 0

/-- The record of `parseSelAddLine`: software is its generator. -/
def addedRecord (rqdata : List UInt8) : SelEventRecord where
  recordId := 0
  recordType := 0x02
  selType := { genId := 0x41
               evmRev := rqdata.getD 0 0
               sensorType := rqdata.getD 1 0
               sensorNum := rqdata.getD 2 0
               td := rqdata.getD 3 0
               eventData0 := rqdata.getD 4 0
               eventData1 := rqdata.getD 5 0
               eventData2 := rqdata.getD 6 0 : StandardSpecSelRec }.bytes

/-- `parseSelAddLine`: a line that is not an event is passed over. -/
def parseSelAddLine (line : List UInt8) : Cmd Unit β ℤ :=
  match trimSelAddLine line with
  | none => return 0
  | some text =>
    match parseTokens 7 text with
    | none => return 0
    | some rqdata => selAddEntry B (addedRecord rqdata)

/-! ### The stream -/

/-- The loop of `readSelAddLine` with room for `k` more bytes: the line, the text behind it, and
whether the end of the stream was met. -/
def readLoop : ℕ → List UInt8 → List UInt8 × List UInt8 × Bool
  | 0, text => ([], text, false)
  | _ + 1, [] => ([], [], true)
  | k + 1, b :: text =>
    if b = 0x0a then ([b], text, false)
    else ((b :: (readLoop k text).1), (readLoop k text).2.1, (readLoop k text).2.2)

/-- `SelAddLineResult`. -/
inductive SelAddLineResult where
  | line (line rest : List UInt8)
  | eof
  | readError

/-- `readSelAddLine`; `fails` says that the stream ends with a read error. -/
def readSelAddLine (fails : Bool) (text : List UInt8) : SelAddLineResult :=
  let r := readLoop 1023 text
  if r.2.2 ∧ fails then .readError
  else if r.2.2 ∧ r.1 = [] then .eof
  else .line r.1 r.2.1

theorem readLoop_append : ∀ (k : ℕ) (text : List UInt8),
    (readLoop k text).1 ++ (readLoop k text).2.1 = text
  | 0, text => rfl
  | _ + 1, [] => rfl
  | k + 1, b :: text => by
    rw [readLoop]
    split_ifs
    · rfl
    · exact congrArg (b :: ·) (readLoop_append k text)

theorem readSelAddLine_length {fails : Bool} {text line rest : List UInt8}
    (h : readSelAddLine fails text = .line line rest) : rest.length < text.length := by
  have happ := readLoop_append 1023 text
  have hne : (readLoop 1023 text).1 = [] → (readLoop 1023 text).2.2 = true := by
    rcases text with _ | ⟨b, text⟩
    · intro _
      rfl
    · rw [readLoop]
      split_ifs <;> simp
  unfold readSelAddLine at h
  dsimp only at h
  split_ifs at h with h1 h2
  obtain ⟨rfl, rfl⟩ := SelAddLineResult.line.inj h
  have hlen := congrArg List.length happ
  rw [List.length_append] at hlen
  have : 0 < (readLoop 1023 text).1.length := by
    refine List.length_pos_iff.mpr fun h0 => h2 ⟨hne h0, h0⟩
  omega

/-- `selAddEntriesFromStream` with `parseSelAddLine`. -/
def selAddEntriesFromStream (fails : Bool) (text : List UInt8) : Cmd Unit β ℤ :=
  match h : readSelAddLine fails text with
  | .eof => return 0
  | .readError => return -1
  | .line line rest => do
    let rc ← parseSelAddLine B line
    if rc < 0 then return rc else selAddEntriesFromStream fails rest
termination_by text.length
decreasing_by exact readSelAddLine_length h

theorem selAddEntriesFromStream_line {fails : Bool} {text line rest : List UInt8}
    (h : readSelAddLine fails text = .line line rest) :
    selAddEntriesFromStream B fails text = (do
      let rc ← parseSelAddLine B line
      if rc < 0 then return rc else selAddEntriesFromStream B fails rest) := by
  rw [selAddEntriesFromStream]
  split
  · rename_i h'
    rw [h] at h'
    cases h'
  · rename_i h'
    rw [h] at h'
    cases h'
  · rename_i line' rest' h'
    obtain ⟨rfl, rfl⟩ := SelAddLineResult.line.inj (h.symm.trans h')
    rfl

/-! ### A number is read back -/

theorem str2uchar_hexByte (b : UInt8) : str2uchar (hexByte b) = some b := by
  have h : ∀ n < 256, str2uchar (hexByte (UInt8.ofNat n)) = some (UInt8.ofNat n) := by
    decide +kernel
  have := h b.toNat b.toNat_lt
  rwa [UInt8.ofNat_toNat] at this

/-- The characters of a number: no blank, no comment sign, nothing that ends a string. -/
theorem mem_hexByte (b : UInt8) :
    ∀ ch ∈ hexByte b, ch ≠ 0 ∧ ch ≠ 0x23 ∧ ch ≠ 0x0a ∧ isSpace ch = false := by
  have h : ∀ n < 256, ((hexByte (UInt8.ofNat n)).all fun ch =>
      decide (ch ≠ 0 ∧ ch ≠ 0x23 ∧ ch ≠ 0x0a ∧ isSpace ch = false)) = true := by decide +kernel
  have hall := h b.toNat b.toNat_lt
  rw [UInt8.ofNat_toNat, List.all_eq_true] at hall
  exact fun ch hch => of_decide_eq_true (hall ch hch)

theorem ne_blank_of_not_isSpace {ch : UInt8} (h : isSpace ch = false) : ch ≠ 0x20 := by
  rintro rfl
  cases h

theorem nextSelAddToken_of_ne {token : List UInt8} (h : ∀ ch ∈ token, ch ≠ 0x20) (hne : token ≠ [])
    (text : List UInt8) : nextSelAddToken (token ++ text) =
      some (token ++ text.takeWhile (· ≠ 0x20), (text.dropWhile (· ≠ 0x20)).drop 1) := by
  have hall : ∀ ch ∈ token, decide (ch ≠ 0x20) = true := by simpa using h
  obtain ⟨a, rest, rfl⟩ := List.exists_cons_of_ne_nil hne
  have hskip : (a :: rest ++ text).dropWhile (· = 0x20) = a :: rest ++ text := by
    rw [List.cons_append, List.dropWhile_cons_of_neg (by simpa using h a)]
  rw [nextSelAddToken, hskip, if_neg (by simp), List.takeWhile_append_of_pos hall,
    List.dropWhile_append_of_pos hall]

/-- The first token of a text that begins with a number and a blank. -/
theorem nextSelAddToken_hexByte (b : UInt8) (text : List UInt8) :
    nextSelAddToken (hexByte b ++ 0x20 :: text) = some (hexByte b, text) := by
  rw [nextSelAddToken_of_ne (fun ch h => ne_blank_of_not_isSpace (mem_hexByte b ch h).2.2.2)
    (by simp [hexByte])]
  simp

theorem nextSelAddToken_last (b : UInt8) : nextSelAddToken (hexByte b) = some (hexByte b, []) := by
  have := nextSelAddToken_of_ne (fun ch h => ne_blank_of_not_isSpace (mem_hexByte b ch h).2.2.2)
    (by simp [hexByte]) []
  simpa using this

/-- The numbers of a line, each with a blank behind it. -/
def numbers (l : List UInt8) : List UInt8 := l.flatMap fun b => hexByte b ++ ascii " "

theorem parseTokens_numbers : ∀ (l : List UInt8) (b : UInt8),
    parseTokens (l.length + 1) (numbers l ++ hexByte b) = some (l ++ [b])
  | [], b => by
    simp [numbers, parseTokens, nextSelAddToken_last, str2uchar_hexByte]
  | a :: l, b => by
    have htext : numbers (a :: l) ++ hexByte b = hexByte a ++ 0x20 :: (numbers l ++ hexByte b) := by
      simp [numbers, ascii]
    rw [htext, List.length_cons, parseTokens, nextSelAddToken_hexByte]
    simp only [str2uchar_hexByte, parseTokens_numbers l b, Option.map_some, List.cons_append]

theorem mem_numbers {l : List UInt8} {ch : UInt8} (h : ch ∈ numbers l) :
    ch ≠ 0 ∧ ch ≠ 0x23 ∧ ch ≠ 0x0a := by
  obtain ⟨b, -, hb⟩ := List.mem_flatMap.mp h
  rcases List.mem_append.mp hb with hb | hb
  · obtain ⟨h0, h1, h2, -⟩ := mem_hexByte b ch hb
    exact ⟨h0, h1, h2⟩
  · obtain rfl : ch = 0x20 := by simpa [ascii] using hb
    decide

/-- The text that is left of a line with numbers and a comment. -/
theorem trimSelAddLine_numbers (l : List UInt8) (b : UInt8) (comment : List UInt8) :
    trimSelAddLine (numbers (l ++ [b]) ++ 0x23 :: comment) = some (numbers l ++ hexByte b) := by
  have hzero : (numbers (l ++ [b]) ++ 0x23 :: comment).takeWhile (· ≠ 0) =
      numbers (l ++ [b]) ++ 0x23 :: comment.takeWhile (· ≠ 0) := by
    rw [List.takeWhile_append_of_pos fun ch h => by simpa using (mem_numbers h).1]
    simp
  have hhash : (numbers (l ++ [b]) ++ 0x23 :: comment.takeWhile (· ≠ 0)).takeWhile (· ≠ 0x23) =
      numbers (l ++ [b]) := by
    rw [List.takeWhile_append_of_pos fun ch h => by simpa using (mem_numbers h).2.1]
    simp
  have hend : ((numbers (l ++ [b])).reverse.dropWhile isSpace).reverse =
      numbers l ++ hexByte b := by
    have hlast := (mem_hexByte b (hexDigit (b.toNat % 16)) (by simp [hexByte])).2.2.2
    have hsplit : (numbers (l ++ [b])).reverse = 0x20 :: (numbers l ++ hexByte b).reverse := by
      simp [numbers, ascii]
    rw [hsplit, List.dropWhile_cons_of_pos (by decide), ← List.reverse_inj, List.reverse_reverse]
    simp [hexByte, hlast]
  have hstart : (numbers l ++ hexByte b).dropWhile isSpace = numbers l ++ hexByte b := by
    have hfirst : ∃ text, numbers l ++ hexByte b = 0x30 :: text := by
      rcases l with _ | ⟨a, l⟩
      · exact ⟨_, rfl⟩
      · exact ⟨_, rfl⟩
    obtain ⟨text, htext⟩ := hfirst
    rw [htext, List.dropWhile_cons_of_neg (by decide)]
  unfold trimSelAddLine
  dsimp only
  rw [hzero, hhash, hend, hstart, if_neg (by simp [hexByte])]

/-! ### A line is read back -/

/-- The comment of a line. -/
def comment (name description : List UInt8) (evt : SelEventRecord) : List UInt8 :=
  ascii " " ++ name ++ ascii " #" ++ hexByte evt.standardType.sensorNum ++ ascii " " ++ description

theorem printEventFile_eq (name description : List UInt8) (evt : SelEventRecord) :
    printEventFile name description evt =
      numbers evt.standardType.seven ++ 0x23 :: comment name description evt ++ [0x0a] := by
  simp [printEventFile, numbers, comment, ascii]

/-- A string that a line may contain. -/
def Clean (text : List UInt8) : Prop := ∀ ch ∈ text, ch ≠ 0 ∧ ch ≠ 0x0a

theorem clean_comment {name description : List UInt8} (evt : SelEventRecord) (hn : Clean name)
    (hd : Clean description) : Clean (comment name description evt) := by
  intro ch h
  simp only [comment, List.mem_append] at h
  obtain ((((h | h) | h) | h) | h) | h := h
  · obtain rfl : ch = 0x20 := by simpa [ascii] using h
    decide
  · exact hn ch h
  · obtain rfl | rfl : ch = 0x20 ∨ ch = 0x23 := by simpa [ascii] using h
    · decide
    · decide
  · exact ⟨(mem_hexByte _ ch h).1, (mem_hexByte _ ch h).2.2.1⟩
  · obtain rfl : ch = 0x20 := by simpa [ascii] using h
    decide
  · exact hd ch h

theorem readLoop_line : ∀ (k : ℕ) (line rest : List UInt8), (∀ ch ∈ line, ch ≠ 0x0a) →
    line.length < k →
    readLoop k (line ++ 0x0a :: rest) = (line ++ [0x0a], rest, false)
  | 0, _, _, _, h => absurd h (Nat.not_lt_zero _)
  | k + 1, [], rest, _, _ => by simp [readLoop]
  | k + 1, b :: line, rest, hline, h => by
    have ih := readLoop_line k line rest (fun ch hch => hline ch (List.mem_cons_of_mem _ hch))
      (by simpa using h)
    rw [List.cons_append, readLoop, if_neg (hline b List.mem_cons_self), ih, List.cons_append]

/-- The request that adds an entry with these seven bytes. -/
def addRequest (seven : List UInt8) : Command :=
  ⟨netfnStorage, 0, 0x44, [0, 0, 2, 0, 0, 0, 0, 0x41, 0] ++ seven⟩

theorem addedRecord_seven (r : StandardSpecSelRec) :
    (⟨netfnStorage, 0, 0x44, (addedRecord r.seven).bytes⟩ : Command) = addRequest r.seven := by
  have htime : le32 0 = [0, 0, 0, 0] := by decide
  have hid : le16 0 = [0, 0] := by decide
  have hgen : le16 0x41 = [0x41, 0] := by decide
  simp [addedRecord, addRequest, SelEventRecord.bytes, StandardSpecSelRec.bytes,
    StandardSpecSelRec.seven, htime, hid, hgen]

theorem parseSelAddLine_line (name description : List UInt8) (evt : SelEventRecord) :
    parseSelAddLine B (printEventFile name description evt) =
      selAddEntry B (addedRecord evt.standardType.seven) := by
  obtain ⟨l, b, hl⟩ : ∃ l b, evt.standardType.seven = l ++ [b] ∧ l.length = 6 :=
    ⟨_, _, (List.dropLast_append_getLast (by simp [StandardSpecSelRec.seven])).symm,
      by simp [StandardSpecSelRec.seven]⟩
  rw [parseSelAddLine, printEventFile_eq, hl.1, List.append_assoc, List.cons_append,
    trimSelAddLine_numbers]
  dsimp only
  have := parseTokens_numbers l b
  rw [hl.2] at this
  rw [this]

/-! ### The file -/

/-- The lines for entries of which `n` were shown before. -/
def lines (strings : Strings) : ℕ → List Entry → List UInt8
  | _, [] => []
  | n, e :: l =>
    printEventFile (strings n e.record).1 (strings n e.record).2 e.record ++ lines strings (n + 1) l

theorem file_emitAll (strings : Strings) (l : List Entry) (out : Output) :
    (emitAll strings .text out l).file = out.file ++ lines strings out.shown.length l := by
  induction l generalizing out with
  | nil => simp [emitAll, lines]
  | cons e l ih =>
    have := ih (emit strings .text e.record out)
    simp only [emitAll, emit, List.foldl_cons, List.length_append, List.length_singleton] at this ⊢
    rw [this, lines, List.append_assoc]

/-- The strings leave room for the line. -/
def Fitting (strings : Strings) : Prop := ∀ n e, Clean (strings n e).1 ∧ Clean (strings n e).2 ∧
  (printEventFile (strings n e).1 (strings n e).2 e).length < 1024

/-- A BMC that accepts every entry. -/
def Accepts (B : Bmc β) : Prop :=
  ∀ b seven, ∃ r, (B b (addRequest seven)).1 = some r ∧ r.ccode = 0

section
variable {B} {strings : Strings}

theorem readSelAddLine_lines (hs : Fitting strings) (n : ℕ) (e : Entry) (rest : List UInt8) :
    readSelAddLine false (printEventFile (strings n e.record).1
      (strings n e.record).2 e.record ++ rest) =
      .line (printEventFile (strings n e.record).1 (strings n e.record).2 e.record) rest := by
  obtain ⟨hname, hdesc, hlen⟩ := hs n e.record
  rw [printEventFile_eq] at hlen ⊢
  have hno : ∀ ch ∈ numbers e.record.standardType.seven ++
      0x23 :: comment (strings n e.record).1 (strings n e.record).2 e.record, ch ≠ 0x0a := by
    intro ch h
    rcases List.mem_append.mp h with h | h
    · exact (mem_numbers h).2.2
    · rcases List.mem_cons.mp h with rfl | h
      · decide
      · exact (clean_comment e.record hname hdesc ch h).2
  rw [List.append_assoc, List.singleton_append, readSelAddLine]
  rw [List.length_append, List.length_singleton] at hlen
  rw [readLoop_line 1023 _ rest hno (by omega)]
  rfl

theorem selAdd_lines (hB : Accepts B) (hs : Fitting strings) (l : List Entry) (n : ℕ)
    (w : CmdWorld Unit β) : ∃ w' evs,
      selAddEntriesFromStream B false (lines strings n l) w = .ok (0, w') ∧ w'.log = w.log ++ evs ∧
      evs.map Prod.fst = l.map fun e => addRequest e.record.standardType.seven := by
  induction l generalizing n w with
  | nil =>
    refine ⟨w, [], ?_, by simp, rfl⟩
    rw [lines, selAddEntriesFromStream]
    rfl
  | cons e l ih =>
    obtain ⟨r, hr, hcc⟩ := hB w.device e.record.standardType.seven
    obtain ⟨w1, hw1⟩ : ∃ w1, w1 = w.asked B (addRequest e.record.standardType.seven) := ⟨_, rfl⟩
    have hlog : w1.log = w.log ++ [(addRequest e.record.standardType.seven, some r)] := by
      rw [hw1, World.asked_log, hr]
    have hadd : selAddEntry B (addedRecord e.record.standardType.seven) w = .ok (0, w1) := by
      rw [selAddEntry, addedRecord_seven]
      refine bind_ok.mpr ⟨some r, w1, ask_ok.mpr ⟨hr, hw1.symm⟩, ?_⟩
      dsimp only
      rw [if_neg (not_not.mpr hcc)]
      rfl
    obtain ⟨w', evs, hw', hlog', hevs⟩ := ih (n + 1) w1
    refine ⟨w', (addRequest e.record.standardType.seven, some r) :: evs, ?_, ?_, ?_⟩
    · rw [lines, selAddEntriesFromStream_line B (readSelAddLine_lines hs n e _),
        parseSelAddLine_line]
      refine bind_ok.mpr ⟨0, w1, hadd, ?_⟩
      rw [if_neg (Int.lt_irrefl 0)]
      exact hw'
    · rw [hlog', hlog, List.append_assoc, List.singleton_append]
    · rw [List.map_cons, hevs, List.map_cons]

end

/-- One Add SEL Entry request for each standard entry, in order, with its seven bytes, and nothing
else. -/
def Reproduces (l : List Entry) (evs : List Exchange) : Prop :=
  evs.map (fun x => (x.1.netfn, x.1.cmd, x.1.data.drop 9)) =
    (l.filter fun e => e.record.standard).map fun e =>
      (netfnStorage, 0x44, e.record.standardType.seven)

/-- The requests for a log that was saved: one for each entry. -/
theorem save_add_requests {L : Log} {I : Reply} {S : ℕ → Option Log.Hiccup} {T : Strings}
    {n : ℕ} {b : β} (hinfo : L.Counts I) (hfuel : L.entries.length < n)
    (hs : Fitting T) (hB : Accepts B) : ∃ saved added : _ × _,
      savelistEntries (serve L I S) T .text n 0 ⟨{}, {}, []⟩ = .ok saved ∧
      selAddEntriesFromStream B false saved.2.vars.file ⟨(), b, []⟩ = .ok added ∧
      saved.1 = some 0 ∧ added.1 = 0 ∧
      added.2.log.map (fun x => (x.1.netfn, x.1.cmd, x.1.data.drop 9)) =
        L.entries.map fun e => (netfnStorage, 0x44, e.record.standardType.seven) := by
  obtain ⟨w1, h1, hvars⟩ := savelistEntries_front (S := S) (T := T)
    (V := .text) hinfo hfuel (Int.le_refl 0) ⟨{}, {}, []⟩
  have hfile : w1.vars.file = lines T 0 L.entries := by
    rw [hvars, file_emitAll]
    rfl
  obtain ⟨w2, evs, h2, hlog, hevs⟩ := selAdd_lines hB hs L.entries 0 ⟨(), b, []⟩
  refine ⟨(some 0, w1), (0, w2), h1, by rw [hfile]; exact h2, rfl, rfl, ?_⟩
  have := congrArg (List.map fun c : Command => (c.netfn, c.cmd, c.data.drop 9)) hevs
  rw [List.map_map, List.map_map] at this
  rw [hlog]
  exact this

/-- The log that was saved is reproduced exactly if all its entries are standard ones. -/
theorem save_add_iff (L : Log) (info : Reply) (schedule : ℕ → Option Log.Hiccup) (strings : Strings)
    (fuel : ℕ) (b : β) (hinfo : L.Counts info) (hfuel : L.entries.length < fuel)
    (hs : Fitting strings) (hB : Accepts B) : ∃ saved added : _ × _,
      savelistEntries (serve L info schedule) strings .text fuel 0 ⟨{}, {}, []⟩ = .ok saved ∧
      selAddEntriesFromStream B false saved.2.vars.file ⟨(), b, []⟩ = .ok added ∧
      saved.1 = some 0 ∧ added.1 = 0 ∧
      (Reproduces L.entries added.2.log ↔ ∀ e ∈ L.entries, e.type < 0xc0) := by
  obtain ⟨saved, added, h1, h2, hsaved, hadded, hview⟩ :=
    save_add_requests (S := schedule) (b := b) B hinfo hfuel hs hB
  refine ⟨saved, added, h1, h2, hsaved, hadded, ?_⟩
  unfold Reproduces
  rw [hview]
  constructor
  · intro h
    -- as many lines as standard entries: no other entry is in the log
    have hlen := congrArg List.length h
    rw [List.length_map, List.length_map] at hlen
    have := List.filter_eq_self.mp (List.filter_sublist.eq_of_length hlen.symm)
    exact fun e he => of_decide_eq_true (this e he)
  · intro h
    have hall : (L.entries.filter fun e => e.record.standard) = L.entries :=
      List.filter_eq_self.mpr fun e he => decide_eq_true (h e he)
    rw [hall]

theorem fitting_empty : Fitting fun _ _ => ([], []) := by
  intro n e
  refine ⟨by simp [Clean], by simp [Clean], ?_⟩
  simp [printEventFile, StandardSpecSelRec.seven, hexByte, ascii]

/-- A BMC that has nothing to say against anything. -/
def accepting : Bmc Unit := fun _ _ => (some {}, ())

theorem accepts_accepting : Accepts accepting := fun _ _ => ⟨{}, rfl, rfl⟩

/-- A log with one entry of the manufacturer's. -/
def oemEntry : Log where
  entries := [⟨1, 0xc0, List.replicate 13 0, blank_length⟩]
  nonempty := by simp
  nodup := by decide
  proper := by decide
  few := by decide

/-- The entry of the manufacturer's is added as a standard one. -/
theorem save_add_oem : ∃ saved added : _ × _,
    savelistEntries (serve oemEntry (Reply.of [0x51, 1, 0, 0, 0, 0, 0, 0, 0, 0, 0, 0, 0,
      0]) fun _ => none) (fun _ _ => ([], [])) .text 2 0 ⟨{}, {}, []⟩ = .ok saved ∧
    selAddEntriesFromStream accepting false saved.2.vars.file ⟨(), (), []⟩ = .ok added ∧
    ¬ Reproduces oemEntry.entries added.2.log := by
  obtain ⟨saved, added, h1, h2, -, -, hview⟩ := save_add_requests (L := oemEntry)
    (I := Reply.of [0x51, 1, 0, 0, 0, 0, 0, 0, 0, 0, 0, 0, 0, 0]) (S := fun _ => none)
    (n := 2) (b := ()) accepting ⟨rfl, rfl, rfl⟩ (by decide) fitting_empty accepts_accepting
  refine ⟨saved, added, h1, h2, fun h => ?_⟩
  have := congrArg List.length (hview.symm.trans h)
  revert this
  decide

/-- A log of standard entries, with an answer that fails to come while it is saved. -/
theorem save_add_iff_three : ∃ saved added : _ × _,
    savelistEntries (serve threeEntries threeInfo secondSilent) (fun _ _ => ([], [])) .text 4 0
      ⟨{}, {}, []⟩ = .ok saved ∧
    selAddEntriesFromStream accepting false saved.2.vars.file ⟨(), (), []⟩ = .ok added ∧
    Reproduces threeEntries.entries added.2.log := by
  obtain ⟨saved, added, h1, h2, -, -, hiff⟩ :=
    save_add_iff accepting threeEntries threeInfo secondSilent
      (fun _ _ => ([], [])) 4 () ⟨rfl, rfl, rfl⟩ (by decide) fitting_empty accepts_accepting
  exact ⟨saved, added, h1, h2, hiff.mpr (by decide)⟩

end Ipmitool.Sel.Save
