import Ipmitool.Lib.Utf8

/-! # The line editor

`Editor` and the keys of `readLine` in `frontend/ipmishell.zig`: the line is a list of bytes with a
cursor, and a key is a byte or an escape sequence. The prompt, the drawing of the line, signals and
the wait for input are not modelled.

A line is `Whole` if it is valid UTF-8 and the cursor is in front of a character. Every key keeps it
whole but one: `delete` removes a single byte (`whole_delete_iff`). `editing_iff` says so for whole
runs. -/

namespace Ipmitool.Frontend.LineEditor

open Ipmitool.Lib.Utf8

/-- `Editor`. -/
structure Editor where
  line : List UInt8 := []
  cursor : ℕ := 0
  historyPos : ℕ
  saved : List UInt8 := []

/-- `replace`. -/
def Editor.replace (e : Editor) (text : List UInt8) : Editor :=
  { e with line := text, cursor := text.length }

/-- `previous`. -/
def Editor.previous (history : List (List UInt8)) (e : Editor) : Editor :=
  if e.historyPos = 0 then e
  else
    let e := if e.historyPos = history.length then { e with saved := e.line } else e
    let e := { e with historyPos := e.historyPos - 1 }
    e.replace (history.getD e.historyPos [])

/-- `next`. -/
def Editor.next (history : List (List UInt8)) (e : Editor) : Editor :=
  if e.historyPos = history.length then e
  else
    let e := { e with historyPos := e.historyPos + 1 }
    e.replace (if e.historyPos = history.length then e.saved else history.getD e.historyPos [])

/-- `insert`. -/
def Editor.insert (e : Editor) (byte : UInt8) : Editor :=
  { e with line := e.line.insertIdx e.cursor byte, cursor := e.cursor + 1 }

/-- `delete`. -/
def Editor.delete (e : Editor) : Editor :=
  if e.cursor < e.line.length then { e with line := e.line.eraseIdx e.cursor } else e

/-- The cursor after it went back over continuation bytes. -/
def retreat (line : List UInt8) : ℕ → ℕ
  | 0 => 0
  | n + 1 => if isContinuation (line.getD (n + 1) 0) then retreat line n else n + 1

/-- `left`. -/
def Editor.left (e : Editor) : Editor :=
  if e.cursor = 0 then e else { e with cursor := retreat e.line (e.cursor - 1) }

/-- Deleting as long as there is a continuation byte at the cursor, at most as often as there are
bytes. -/
def Editor.deleteContinuations : ℕ → Editor → Editor
  | 0, e => e
  | n + 1, e =>
    if e.cursor < e.line.length ∧ isContinuation (e.line.getD e.cursor 0) then
      Editor.deleteContinuations n e.delete
    else e

/-- `backspace`. -/
def Editor.backspace (e : Editor) : Editor :=
  if e.cursor = 0 then e
  else
    let e := { e with cursor := retreat e.line (e.cursor - 1) }
    Editor.deleteContinuations e.line.length e.delete

/-- The cursor after it went on over continuation bytes, at most as often as there are bytes. -/
def advance (line : List UInt8) : ℕ → ℕ → ℕ
  | 0, cursor => cursor
  | n + 1, cursor =>
    if cursor < line.length ∧ isContinuation (line.getD cursor 0) then advance line n (cursor + 1)
      else cursor

/-- `right`. -/
def Editor.right (e : Editor) : Editor :=
  if e.cursor = e.line.length then e
    else { e with cursor := advance e.line e.line.length (e.cursor + 1) }

/-- The start and the end of the line. -/
def Editor.home (e : Editor) : Editor := { e with cursor := 0 }
def Editor.toEnd (e : Editor) : Editor := { e with cursor := e.line.length }

/-- `line.shrinkRetainingCapacity(cursor)`. -/
def Editor.killToEnd (e : Editor) : Editor := { e with line := e.line.take e.cursor }

/-- The line without the bytes in front of the cursor. -/
def Editor.killToStart (e : Editor) : Editor := { e with line := e.line.drop e.cursor, cursor := 0 }

/-! ### Keys -/

/-- `escape`: no sequence, after escape, in a sequence. -/
inductive Escape where
  | none
  | start
  | sequence
  deriving DecidableEq

/-- What `readLine` keeps between two bytes. -/
structure Reader where
  editor : Editor
  escape : Escape := .none
  csiNumber : ℕ := 0

/-- What `readLine` does after a byte: go on, or return. -/
inductive Outcome where
  | reading (r : Reader)
  | line (text : List UInt8)
  | eof
  | cancelled

/-- The end of an escape sequence. -/
def Editor.sequence (history : List (List UInt8)) (e : Editor) (byte : UInt8)
    (csiNumber : ℕ) : Editor :=
  match byte with
  | 0x41 => e.previous history
  | 0x42 => e.next history
  | 0x43 => e.right
  | 0x44 => e.left
  | 0x48 => e.home
  | 0x46 => e.toEnd
  | 0x7e =>
    if csiNumber = 1 ∨ csiNumber = 7 then e.home
    else if csiNumber = 3 then e.delete
    else if csiNumber = 4 ∨ csiNumber = 8 then e.toEnd
    else e
  | _ => e

/-- An edit that only a terminal asks for. -/
def Reader.edit (r : Reader) (interactive : Bool) (f : Editor → Editor) : Outcome :=
  .reading (if interactive then { r with editor := f r.editor } else r)

/-- A byte that is not in an escape sequence. -/
def Reader.plain (r : Reader) (interactive : Bool) (byte : UInt8) : Outcome :=
  match byte with
  | 0x0d => .line r.editor.line
  | 0x0a => .line r.editor.line
  | 0x03 => if interactive then .cancelled else .reading r
  | 0x04 => if r.editor.line = [] then .eof else r.edit interactive Editor.delete
  | 0x01 => r.edit interactive Editor.home
  | 0x05 => r.edit interactive Editor.toEnd
  | 0x0b => r.edit interactive Editor.killToEnd
  | 0x15 => r.edit interactive Editor.killToStart
  | 0x08 => r.edit interactive Editor.backspace
  | 0x7f => r.edit interactive Editor.backspace
  | byte =>
    if 0x20 ≤ byte ∨ byte = 0x09 then .reading { r with editor := r.editor.insert byte }
    else .reading r

/-- A byte that `readLine` reads. -/
def feed (interactive : Bool) (history : List (List UInt8)) (r : Reader) (byte : UInt8) : Outcome :=
  if interactive ∧ r.escape = .start then
    .reading { r with
      escape := if byte = 0x5b ∨ byte = 0x4f then .sequence else .none
      csiNumber := 0 }
  else if interactive ∧ r.escape = .sequence then
    if 0x30 ≤ byte ∧ byte ≤ 0x39 then
      .reading { r with csiNumber := min (r.csiNumber * 10 + (byte - 0x30).toNat) 1000 }
    else .reading { r with escape := .none, editor := r.editor.sequence history byte r.csiNumber }
  else if interactive ∧ byte = 0x1b then .reading { r with escape := .start }
  else r.plain interactive byte

/-- The bytes that come while the line is being read. -/
def feedAll (interactive : Bool) (history : List (List UInt8)) : Reader → List UInt8 → Outcome
  | r, [] => .reading r
  | r, byte :: bytes =>
    match feed interactive history r byte with
    | .reading r => feedAll interactive history r bytes
    | outcome => outcome

/-- `readLine` before the first byte. -/
def start (history : List (List UInt8)) : Reader := { editor := { historyPos := history.length } }

/-- A character that the editor inserts. -/
def Typed (c : Char) : Prop := c.val = 9 ∨ (32 ≤ c.val ∧ c.val ≠ 127)

/-- The keys of a line. -/
inductive Key where
  | char (c : Char) (typed : Typed c)
  | left
  | right
  | home
  | toEnd
  | backspace
  | delete
  | killToStart
  | killToEnd
  | previous
  | next

/-- The escape sequences with the letter `b`, and with the number `d` and a tilde. -/
def letter (b : UInt8) : List (List UInt8) := [[0x1b, 0x5b, b], [0x1b, 0x4f, b]]
def tilde (d : UInt8) : List (List UInt8) := [[0x1b, 0x5b, d, 0x7e], [0x1b, 0x4f, d, 0x7e]]

/-- The bytes that a key can be sent as. -/
def Key.codes : Key → List (List UInt8)
  | .char c _ => [String.utf8EncodeChar c]
  | .left => letter 0x44
  | .right => letter 0x43
  | .home => [0x01] :: (letter 0x48 ++ tilde 0x31 ++ tilde 0x37)
  | .toEnd => [0x05] :: (letter 0x46 ++ tilde 0x34 ++ tilde 0x38)
  | .backspace => [[0x08], [0x7f]]
  | .delete => [0x04] :: tilde 0x33
  | .killToStart => [[0x15]]
  | .killToEnd => [[0x0b]]
  | .previous => letter 0x41
  | .next => letter 0x42

/-- What a key does. -/
def Key.apply (history : List (List UInt8)) : Key → Editor → Editor
  | .char c _, e => (String.utf8EncodeChar c).foldl Editor.insert e
  | .left, e => e.left
  | .right, e => e.right
  | .home, e => e.home
  | .toEnd, e => e.toEnd
  | .backspace, e => e.backspace
  | .delete, e => e.delete
  | .killToStart, e => e.killToStart
  | .killToEnd, e => e.killToEnd
  | .previous, e => e.previous history
  | .next, e => e.next history

/-- A key and the bytes it is sent as. -/
structure Press where
  key : Key
  code : List UInt8
  mem : code ∈ key.codes

/-- The editor while the line is being read, after each of a sequence of keys. -/
inductive Run (history : List (List UInt8)) : List Press → Reader → Prop
  | start : Run history [] (start history)
  | press {ps : List Press} {p : Press} {r r' : Reader} (h : Run history ps r)
      (hfeed : feedAll true history r p.code = .reading r') : Run history (ps ++ [p]) r'

/-! ### Whole lines -/

/-- The line is UTF-8, and the cursor is in front of a character or at the end. -/
structure Whole (e : Editor) : Prop where
  cursor_le : e.cursor ≤ e.line.length
  boundary : Valid (e.line.take e.cursor)
  line : Valid e.line

/-- The text in front of the cursor and behind it. -/
structure Split (e : Editor) (before behind : List UInt8) : Prop where
  line : e.line = before ++ behind
  cursor : e.cursor = before.length

theorem Whole.split {e : Editor} (h : Whole e) :
    ∃ before behind, Split e before behind ∧ Valid before ∧ Valid behind := by
  have hline := List.take_append_drop e.cursor e.line
  refine ⟨e.line.take e.cursor, e.line.drop e.cursor, ⟨hline.symm, ?_⟩, h.boundary, ?_⟩
  · rw [List.length_take]
    exact (Nat.min_eq_left h.cursor_le).symm
  · have hvalid := h.line
    rw [← hline] at hvalid
    exact h.boundary.of_append hvalid

theorem Split.whole {e : Editor} {before behind : List UInt8} (h : Split e before behind)
    (hbefore : Valid before) (hbehind : Valid behind) : Whole e where
  cursor_le := by
    rw [h.line, h.cursor, List.length_append]
    exact Nat.le_add_right _ _
  boundary := by
    rw [h.line, h.cursor, List.take_left]
    exact hbefore
  line := by
    rw [h.line]
    exact hbefore.append hbehind

/-! ### What the edits do -/

theorem insertIdx_length (byte : UInt8) (behind : List UInt8) : ∀ before : List UInt8,
    (before ++ behind).insertIdx before.length byte = before ++ byte :: behind
  | [] => rfl
  | b :: before => congrArg (b :: ·) (insertIdx_length byte behind before)

section Edits
variable {e : Editor} {before behind : List UInt8} (h : Split e before behind)
include h

theorem Split.cursor_lt_iff : e.cursor < e.line.length ↔ behind ≠ [] := by
  rw [h.line, h.cursor, List.length_append, ← List.length_pos_iff]
  omega

theorem Split.getD_cursor : e.line.getD e.cursor 0 = behind.getD 0 0 := by
  rw [h.line, h.cursor]
  cases behind with
  | nil => simp
  | cons b behind => simp

theorem Split.insert (byte : UInt8) : Split (e.insert byte) (before ++ [byte]) behind where
  line := by
    show e.line.insertIdx e.cursor byte = _
    rw [h.line, h.cursor, insertIdx_length, List.append_assoc, List.singleton_append]
  cursor := by
    show e.cursor + 1 = _
    rw [h.cursor, List.length_append, List.length_singleton]

theorem Split.delete : Split e.delete before behind.tail := by
  unfold Editor.delete
  by_cases hlt : e.cursor < e.line.length
  · rw [if_pos hlt]
    refine ⟨?_, h.cursor⟩
    show e.line.eraseIdx e.cursor = _
    rw [h.line, h.cursor, List.eraseIdx_append_of_length_le (Nat.le_refl _), Nat.sub_self,
      List.eraseIdx_zero]
  · rw [if_neg hlt]
    have hnil : behind = [] := by
      by_contra hne
      exact hlt (h.cursor_lt_iff.mpr hne)
    subst hnil
    exact h

theorem Split.home : Split e.home [] (before ++ behind) := ⟨h.line, rfl⟩

theorem Split.toEnd : Split e.toEnd (before ++ behind) [] :=
  ⟨h.line.trans (List.append_nil _).symm, congrArg List.length h.line⟩

theorem Split.killToEnd : Split e.killToEnd before [] := by
  refine ⟨?_, h.cursor⟩
  show e.line.take e.cursor = _
  rw [h.line, h.cursor, List.take_left, List.append_nil]

theorem Split.killToStart : Split e.killToStart [] behind := by
  refine ⟨?_, rfl⟩
  show e.line.drop e.cursor = _
  rw [h.line, h.cursor, List.drop_left, List.nil_append]

end Edits

theorem Split.insertAll : ∀ (bytes : List UInt8) {e : Editor} {before behind : List UInt8},
    Split e before behind → Split (bytes.foldl Editor.insert e) (before ++ bytes) behind
  | [], _, _, _, h => by
    rw [List.append_nil]
    exact h
  | b :: bytes, _, before, _, h => by
    have hrest := Split.insertAll bytes (h.insert b)
    rw [List.append_assoc, List.singleton_append] at hrest
    exact hrest

/-- Back over the continuation bytes of a character to its first byte. -/
theorem retreat_char {before tail : List UInt8} {b : UInt8} (behind : List UInt8)
    (hb : isContinuation b = false) (htail : ∀ x ∈ tail, isContinuation x = true) :
    ∀ k ≤ tail.length,
      retreat (before ++ (b :: tail ++ behind)) (before.length + k) = before.length
  | 0, _ => by
    rcases hn : before.length with _ | n
    · rfl
    · have hbyte : (before ++ (b :: tail ++ behind)).getD (n + 1) 0 = b := by
        rw [← hn]
        simp
      rw [Nat.add_zero, retreat, hbyte, hb, if_neg Bool.false_ne_true]
  | k + 1, hk => by
    have hlt : k < tail.length := by omega
    have hbyte : (before ++ (b :: tail ++ behind)).getD (before.length + k + 1) 0 = tail[k] := by
      rw [Nat.add_assoc]
      simp [List.getElem?_append_right, List.getElem?_append_left hlt, List.getElem?_eq_getElem hlt]
    rw [← Nat.add_assoc, retreat, hbyte, htail _ (List.getElem_mem hlt), if_pos rfl]
    exact retreat_char behind hb htail k (by omega)

/-- On over continuation bytes to the next character. -/
theorem advance_char {before tail behind : List UInt8} (htail : ∀ x ∈ tail, isContinuation x = true)
    (hbehind : Valid behind) (fuel : ℕ) (hfuel : tail.length ≤ fuel) :
    advance (before ++ (tail ++ behind)) fuel before.length = (before ++ tail).length := by
  induction tail generalizing before fuel with
  | nil =>
    rw [List.append_nil, List.nil_append]
    cases fuel with
    | zero => rfl
    | succ fuel =>
      have hstop : ¬ (before.length < (before ++ behind).length ∧
          isContinuation ((before ++ behind).getD before.length 0) = true) := by
        rintro ⟨hlt, hcont⟩
        rcases behind with _ | ⟨b, behind⟩
        · rw [List.append_nil] at hlt
          omega
        · rw [show (before ++ b :: behind).getD before.length 0 = b by simp] at hcont
          exact not_valid_continuation hcont hbehind
      rw [advance, if_neg hstop]
  | cons x tail ih =>
    rw [List.length_cons] at hfuel
    obtain ⟨fuel, rfl⟩ : ∃ n, fuel = n + 1 := ⟨fuel - 1, by omega⟩
    have hgo : before.length < (before ++ (x :: tail ++ behind)).length ∧
        isContinuation ((before ++ (x :: tail ++ behind)).getD before.length 0) = true := by
      refine ⟨?_, ?_⟩
      · simp only [List.length_append, List.length_cons]
        omega
      · rw [show (before ++ (x :: tail ++ behind)).getD before.length 0 = x by simp]
        exact htail x List.mem_cons_self
    have hrest :=
      @ih (before ++ [x]) (fun y hy => htail y (List.mem_cons_of_mem _ hy)) fuel (by omega)
    rw [advance, if_pos hgo]
    simp only [List.append_assoc, List.length_append, List.cons_append, List.nil_append,
      List.length_cons, List.length_nil, Nat.zero_add] at hrest ⊢
    rw [hrest]

/-- Deleting takes the continuation bytes at the cursor. -/
theorem Split.deleteContinuations {before tail behind : List UInt8}
    (htail : ∀ x ∈ tail, isContinuation x = true) (hbehind : Valid behind) :
    ∀ {fuel : ℕ} {e : Editor}, Split e before (tail ++ behind) → tail.length ≤ fuel →
      Split (Editor.deleteContinuations fuel e) before behind := by
  induction tail with
  | nil =>
    intro fuel e h _
    rw [List.nil_append] at h
    cases fuel with
    | zero => exact h
    | succ fuel =>
      have hstop : ¬ (e.cursor < e.line.length ∧
          isContinuation (e.line.getD e.cursor 0) = true) := by
        rintro ⟨hlt, hcont⟩
        rw [h.getD_cursor] at hcont
        rcases behind with _ | ⟨b, behind⟩
        · exact h.cursor_lt_iff.mp hlt rfl
        · exact not_valid_continuation hcont hbehind
      rw [Editor.deleteContinuations, if_neg hstop]
      exact h
  | cons x tail ih =>
    intro fuel e h hfuel
    rw [List.length_cons] at hfuel
    obtain ⟨fuel, rfl⟩ : ∃ n, fuel = n + 1 := ⟨fuel - 1, by omega⟩
    have hgo : e.cursor < e.line.length ∧ isContinuation (e.line.getD e.cursor 0) = true := by
      refine ⟨h.cursor_lt_iff.mpr (by simp), ?_⟩
      rw [h.getD_cursor]
      exact htail x List.mem_cons_self
    rw [Editor.deleteContinuations, if_pos hgo]
    exact ih (fun y hy => htail y (List.mem_cons_of_mem _ hy)) h.delete (by omega)

/-- The cursor goes back over one character. -/
theorem Split.retreat {e : Editor} {before behind : List UInt8} (c : Char)
    (h : Split e (before ++ String.utf8EncodeChar c) behind) :
    e.cursor ≠ 0 ∧ Split { e with cursor := LineEditor.retreat e.line (e.cursor - 1) } before
      (String.utf8EncodeChar c ++ behind) := by
  obtain ⟨b, tail, hc, hb, htail, -⟩ := encode_cons c
  have hline := h.line
  have hcursor := h.cursor
  rw [hc, List.append_assoc] at hline
  rw [hc, List.length_append, List.length_cons] at hcursor
  have hback : e.cursor - 1 = before.length + tail.length := by omega
  refine ⟨by omega, ?_, ?_⟩
  · rw [hc]
    exact hline
  · show LineEditor.retreat e.line (e.cursor - 1) = before.length
    rw [hline, hback]
    exact retreat_char behind hb htail _ (Nat.le_refl _)

theorem whole_left {e : Editor} (h : Whole e) : Whole e.left := by
  obtain ⟨before, behind, hsplit, hbefore, hbehind⟩ := h.split
  unfold Editor.left
  rcases hbefore.snoc_cases with rfl | ⟨text, c, rfl, htext⟩
  · have hzero : e.cursor = 0 := hsplit.cursor
    rw [if_pos hzero]
    exact h
  · obtain ⟨hne, hback⟩ := hsplit.retreat c
    rw [if_neg hne]
    exact hback.whole htext ((valid_char c).append hbehind)

theorem whole_backspace {e : Editor} (h : Whole e) : Whole e.backspace := by
  obtain ⟨before, behind, hsplit, hbefore, hbehind⟩ := h.split
  unfold Editor.backspace
  rcases hbefore.snoc_cases with rfl | ⟨text, c, rfl, htext⟩
  · have hzero : e.cursor = 0 := hsplit.cursor
    rw [if_pos hzero]
    exact h
  · obtain ⟨hne, hback⟩ := hsplit.retreat c
    obtain ⟨b, tail, hc, -, htail, -⟩ := encode_cons c
    have hfuel : tail.length ≤ e.line.length := by
      rw [hsplit.line, hc]
      simp only [List.length_append, List.length_cons]
      omega
    have hdelete := hback.delete
    rw [hc, List.cons_append, List.tail_cons] at hdelete
    rw [if_neg hne]
    exact (Split.deleteContinuations htail hbehind hdelete hfuel).whole htext hbehind

theorem whole_right {e : Editor} (h : Whole e) : Whole e.right := by
  obtain ⟨before, behind, hsplit, hbefore, hbehind⟩ := h.split
  unfold Editor.right
  by_cases hend : e.cursor = e.line.length
  · rw [if_pos hend]
    exact h
  rw [if_neg hend]
  rcases hbehind.cons_cases with rfl | ⟨c, rest, rfl, hrest⟩
  · refine absurd ?_ hend
    rw [hsplit.cursor, hsplit.line, List.append_nil]
  · obtain ⟨b, tail, hc, -, htail, -⟩ := encode_cons c
    have hline : e.line = (before ++ [b]) ++ (tail ++ rest) := by
      rw [hsplit.line, hc]
      simp
    have hcursor : e.cursor + 1 = (before ++ [b]).length := by
      rw [hsplit.cursor, List.length_append, List.length_singleton]
    have hfuel : tail.length ≤ e.line.length := by
      rw [hline]
      simp only [List.length_append]
      omega
    have hforward : Split { e with cursor := advance e.line e.line.length (e.cursor + 1) }
        (before ++ String.utf8EncodeChar c) rest := by
      refine ⟨by rw [hc, hline]; simp, ?_⟩
      show advance e.line e.line.length (e.cursor + 1) = _
      rw [hcursor, hline, advance_char htail hrest _ (by rw [← hline]; exact hfuel), hc]
      simp
    exact hforward.whole (hbefore.append (valid_char c)) hrest

theorem whole_char {e : Editor} (h : Whole e) (c : Char) :
    Whole ((String.utf8EncodeChar c).foldl Editor.insert e) := by
  obtain ⟨before, behind, hsplit, hbefore, hbehind⟩ := h.split
  exact (Split.insertAll _ hsplit).whole (hbefore.append (valid_char c)) hbehind

theorem whole_home {e : Editor} (h : Whole e) : Whole e.home := by
  obtain ⟨before, behind, hsplit, hbefore, hbehind⟩ := h.split
  exact hsplit.home.whole valid_nil (hbefore.append hbehind)

theorem whole_toEnd {e : Editor} (h : Whole e) : Whole e.toEnd := by
  obtain ⟨before, behind, hsplit, hbefore, hbehind⟩ := h.split
  exact hsplit.toEnd.whole (hbefore.append hbehind) valid_nil

theorem whole_killToEnd {e : Editor} (h : Whole e) : Whole e.killToEnd := by
  obtain ⟨before, behind, hsplit, hbefore, -⟩ := h.split
  exact hsplit.killToEnd.whole hbefore valid_nil

theorem whole_killToStart {e : Editor} (h : Whole e) : Whole e.killToStart := by
  obtain ⟨before, behind, hsplit, -, hbehind⟩ := h.split
  exact hsplit.killToStart.whole valid_nil hbehind

/-- The cursor is at the end of the line or in front of a character of one byte. -/
def AtSingleByte (e : Editor) : Prop := (e.line.getD e.cursor 0).toNat < 128

/-- **`delete` keeps a line whole exactly if the character is a single byte.** -/
theorem whole_delete_iff {e : Editor} (h : Whole e) : Whole e.delete ↔ AtSingleByte e := by
  obtain ⟨before, behind, hsplit, hbefore, hbehind⟩ := h.split
  have hdelete := hsplit.delete
  rw [AtSingleByte, hsplit.getD_cursor]
  rcases hbehind.cons_cases with rfl | ⟨c, rest, rfl, hrest⟩
  · exact ⟨fun _ => Nat.le_of_ble_eq_true rfl, fun _ => hdelete.whole hbefore valid_nil⟩
  · obtain ⟨b, tail, hc, -, htail, hsize⟩ := encode_cons c
    rw [hc, List.cons_append, List.tail_cons] at hdelete
    rw [hc, List.cons_append, List.getD_cons_zero]
    rcases hsize with ⟨hsmall, rfl⟩ | ⟨hlarge, hlong⟩
    · exact ⟨fun _ => hsmall, fun _ => hdelete.whole hbefore hrest⟩
    · refine ⟨fun hwhole => ?_, fun hsmall => absurd hsmall (by omega)⟩
      -- what is left begins with a continuation byte
      obtain ⟨x, tail, rfl⟩ := List.exists_cons_of_ne_nil hlong
      have hvalid := hwhole.line
      rw [hdelete.line] at hvalid
      exact absurd (hbefore.of_append hvalid) (not_valid_continuation (htail x List.mem_cons_self))

/-! ### The cursor -/

theorem retreat_le (line : List UInt8) : ∀ n, retreat line n ≤ n
  | 0 => Nat.le_refl _
  | n + 1 => by
    unfold retreat
    split_ifs
    · exact Nat.le_succ_of_le (retreat_le line n)
    · exact Nat.le_refl _

theorem advance_le (line : List UInt8) : ∀ (fuel : ℕ) {cursor : ℕ}, cursor ≤ line.length →
    advance line fuel cursor ≤ line.length
  | 0, _, h => h
  | fuel + 1, cursor, h => by
    unfold advance
    split_ifs with hgo
    · exact advance_le line fuel hgo.1
    · exact h

/-- The cursor is in the line or behind its last byte. -/
def Inside (e : Editor) : Prop := e.cursor ≤ e.line.length

theorem Split.inside {e : Editor} {before behind : List UInt8} (h : Split e before behind) :
    Inside e := by
  rw [Inside, h.line, h.cursor, List.length_append]
  exact Nat.le_add_right _ _

theorem Inside.split {e : Editor} (h : Inside e) : Split e (e.line.take e.cursor)
    (e.line.drop e.cursor) where
  line := (List.take_append_drop _ _).symm
  cursor := by
    rw [List.length_take]
    exact (Nat.min_eq_left h).symm

theorem inside_deleteContinuations : ∀ (fuel : ℕ) {e : Editor}, Inside e →
    Inside (Editor.deleteContinuations fuel e)
  | 0, _, h => h
  | fuel + 1, e, h => by
    unfold Editor.deleteContinuations
    split_ifs
    · exact inside_deleteContinuations fuel h.split.delete.inside
    · exact h

theorem inside_replace (e : Editor) (text : List UInt8) : Inside (e.replace text) := Nat.le_refl _

theorem inside_apply (history : List (List UInt8)) (key : Key) {e : Editor} (h : Inside e) :
    Inside (key.apply history e) := by
  have hback : Inside { e with cursor := retreat e.line (e.cursor - 1) } :=
    Nat.le_trans (retreat_le _ _) (Nat.le_trans (Nat.sub_le _ _) h)
  cases key with
  | char c => exact (Split.insertAll _ h.split).inside
  | left =>
    show Inside e.left
    unfold Editor.left
    split_ifs
    · exact h
    · exact hback
  | right =>
    show Inside e.right
    unfold Editor.right
    split_ifs with hend
    · exact h
    · have hlt : e.cursor + 1 ≤ e.line.length := by
        unfold Inside at h
        omega
      exact advance_le _ _ hlt
  | home => exact h.split.home.inside
  | toEnd => exact h.split.toEnd.inside
  | backspace =>
    show Inside e.backspace
    unfold Editor.backspace
    split_ifs
    · exact h
    · exact inside_deleteContinuations _ hback.split.delete.inside
  | delete => exact h.split.delete.inside
  | killToStart => exact h.split.killToStart.inside
  | killToEnd => exact h.split.killToEnd.inside
  | previous =>
    show Inside (e.previous history)
    unfold Editor.previous
    split_ifs
    · exact h
    · exact inside_replace _ _
    · exact inside_replace _ _
  | next =>
    show Inside (e.next history)
    unfold Editor.next
    split_ifs
    · exact h
    · exact inside_replace _ _

/-! ### What the keys are read as -/

/-- A byte that is inserted. -/
def Inserted (b : UInt8) : Prop := b = 0x09 ∨ (0x20 ≤ b ∧ b ≠ 0x7f)

theorem plain_inserted (r : Reader) {b : UInt8} (h : Inserted b) :
    r.plain true b = .reading { r with editor := r.editor.insert b } := by
  have hkey : 0x20 ≤ b ∨ b = 0x09 := h.symm.imp_left And.left
  unfold Reader.plain
  split
  all_goals first
    | exact if_pos hkey
    | exact absurd h (by unfold Inserted; decide)

theorem inserted_of_typed {c : Char} (h : Typed c) : ∀ b ∈ String.utf8EncodeChar c, Inserted b := by
  have hlarge : ∀ b : UInt8, 128 ≤ b.toNat → Inserted b := by
    intro b hb
    refine .inr ⟨UInt8.le_iff_toNat_le.mpr (Nat.le_trans (by decide) hb), ?_⟩
    rintro rfl
    exact absurd hb (by decide)
  intro b hb
  by_cases hsmall : c.val ≤ 0x7f
  · obtain ⟨hbytes, hnat, -⟩ := encode_ascii hsmall
    rw [hbytes] at hb
    obtain rfl := List.mem_singleton.mp hb
    rcases h with h | ⟨hle, hne⟩
    · exact .inl (by rw [h]; rfl)
    · refine .inr ⟨?_, ?_⟩
      · rw [UInt8.le_iff_toNat_le, hnat]
        exact UInt32.le_iff_toNat_le.mp hle
      · intro heq
        rw [heq] at hnat
        exact hne (UInt32.toNat_inj.mp hnat.symm)
  · obtain ⟨first, tail, hc, -, htail, hsize⟩ := encode_cons c
    have hlong : tail ≠ [] := by
      rintro rfl
      have hlength := String.length_utf8EncodeChar c
      rw [hc] at hlength
      exact hsmall (Char.utf8Size_eq_one_iff.mp hlength.symm)
    rw [hc] at hb
    rcases List.mem_cons.mp hb with rfl | hb
    · exact hlarge _ ((hsize.resolve_left fun hs => hlong hs.2).1)
    · refine hlarge _ (Nat.le_of_not_lt fun hlt => ?_)
      have hcont := htail b hb
      rw [isContinuation_ascii hlt] at hcont
      exact Bool.false_ne_true hcont

theorem ne_escape_of_inserted {b : UInt8} (h : Inserted b) : b ≠ 0x1b := by
  rintro rfl
  exact absurd h (by unfold Inserted; decide)

section Feed
variable (history : List (List UInt8)) {r : Reader} (hr : r.escape = .none)
include hr

theorem feed_plain {b : UInt8} (h : b ≠ 0x1b) : feed true history r b = r.plain true b := by
  rw [feed, hr, if_neg (by decide), if_neg (by decide), if_neg fun hb => h hb.2]

/-- One byte that edits. -/
theorem feedAll_byte {b : UInt8} {f : Editor → Editor} (h : b ≠ 0x1b)
    (hb : r.plain true b = r.edit true f) :
    feedAll true history r [b] = .reading { r with editor := f r.editor } := by
  rw [feedAll, feed_plain history hr h, hb]
  rfl

theorem feedAll_letter {b : UInt8} (hdigit : ¬ (0x30 ≤ b ∧ b ≤ 0x39)) {code : List UInt8}
    (h : code ∈ letter b) : feedAll true history r code =
      .reading { editor := r.editor.sequence history b 0, escape := .none, csiNumber := 0 } := by
  rcases List.mem_cons.mp h with rfl | h
  · simp [feedAll, feed, hr, hdigit]
  · obtain rfl := List.mem_singleton.mp h
    simp [feedAll, feed, hr, hdigit]

theorem feedAll_tilde {d : UInt8} (hdigit : 0x30 ≤ d ∧ d ≤ 0x39) {code : List UInt8}
    (h : code ∈ tilde d) : ∃ n, feedAll true history r code =
      .reading { editor := r.editor.sequence history 0x7e (d - 0x30).toNat, escape := .none, csiNumber := n } := by
  have hnumber : min (d.toNat - 48) 1000 = d.toNat - 48 := by
    have := d.toNat_lt
    omega
  rcases List.mem_cons.mp h with rfl | h
  · refine ⟨(d - 0x30).toNat, ?_⟩
    simp only [feedAll, feed, hr]
    simp [hdigit, hnumber]
  · obtain rfl := List.mem_singleton.mp h
    refine ⟨(d - 0x30).toNat, ?_⟩
    simp only [feedAll, feed, hr]
    simp [hdigit, hnumber]

end Feed

theorem feedAll_inserted (history : List (List UInt8)) : ∀ (bytes : List UInt8) {r : Reader},
    r.escape = .none → (∀ b ∈ bytes, Inserted b) →
      feedAll true history r bytes =
        .reading { r with editor := bytes.foldl Editor.insert r.editor }
  | [], _, _, _ => rfl
  | b :: bytes, r, hr, h => by
    have hb := h b List.mem_cons_self
    rw [feedAll, feed_plain history hr (ne_escape_of_inserted hb), plain_inserted r hb]
    exact feedAll_inserted history bytes hr fun x hx => h x (List.mem_cons_of_mem _ hx)

/-- **A key is read as what it does**, unless the line is empty and the byte ends the input. -/
theorem feedAll_press (history : List (List UInt8)) (p : Press) {r : Reader}
    (hr : r.escape = .none) :
    (∃ n, feedAll true history r p.code =
      .reading { editor := p.key.apply history r.editor, escape := .none, csiNumber := n }) ∨
    p.key = .delete ∧ r.editor.line = [] ∧ feedAll true history r p.code = .eof := by
  obtain ⟨key, code, hmem⟩ := p
  obtain ⟨e, esc, n⟩ := r
  obtain rfl : esc = .none := hr
  have hbyte : ∀ {b : UInt8} {f : Editor → Editor}, b ≠ 0x1b →
      Reader.plain ⟨e, .none, n⟩ true b = Reader.edit ⟨e, .none, n⟩ true f → ∃ n',
        feedAll true history ⟨e, .none, n⟩ [b] = .reading ⟨f e, .none, n'⟩ := fun hne hb =>
    ⟨n, feedAll_byte history rfl hne hb⟩
  have hletter : ∀ {b : UInt8}, ¬ (0x30 ≤ b ∧ b ≤ 0x39) → code ∈ letter b → ∃ n',
      feedAll true history ⟨e, .none, n⟩ code = .reading ⟨e.sequence history b 0, .none, n'⟩ :=
    fun hdigit h => ⟨0, feedAll_letter history rfl hdigit h⟩
  have htilde : ∀ {d : UInt8}, 0x30 ≤ d ∧ d ≤ 0x39 → code ∈ tilde d → ∃ n', feedAll true history
      ⟨e, .none, n⟩ code = .reading ⟨e.sequence history 0x7e (d - 0x30).toNat, .none, n'⟩ :=
    fun hdigit h => feedAll_tilde history rfl hdigit h
  cases key with
  | char c typed =>
    obtain rfl := List.mem_singleton.mp hmem
    exact .inl ⟨n, feedAll_inserted history _ rfl (inserted_of_typed typed)⟩
  | left => exact .inl (hletter (by decide) hmem)
  | right => exact .inl (hletter (by decide) hmem)
  | home =>
    refine .inl ?_
    rcases List.mem_cons.mp hmem with rfl | hmem
    · exact hbyte (by decide) rfl
    rcases List.mem_append.mp hmem with hmem | hmem
    · rcases List.mem_append.mp hmem with hmem | hmem
      · exact hletter (by decide) hmem
      · exact htilde (by decide) hmem
    · exact htilde (by decide) hmem
  | toEnd =>
    refine .inl ?_
    rcases List.mem_cons.mp hmem with rfl | hmem
    · exact hbyte (by decide) rfl
    rcases List.mem_append.mp hmem with hmem | hmem
    · rcases List.mem_append.mp hmem with hmem | hmem
      · exact hletter (by decide) hmem
      · exact htilde (by decide) hmem
    · exact htilde (by decide) hmem
  | backspace =>
    refine .inl ?_
    rcases List.mem_cons.mp hmem with rfl | hmem
    · exact hbyte (by decide) rfl
    · obtain rfl := List.mem_singleton.mp hmem
      exact hbyte (by decide) rfl
  | delete =>
    rcases List.mem_cons.mp hmem with rfl | hmem
    · by_cases hempty : e.line = []
      · refine .inr ⟨rfl, hempty, ?_⟩
        rw [feedAll, feed_plain history rfl (by decide)]
        simp [Reader.plain, hempty]
      · refine .inl (hbyte (by decide) ?_)
        exact if_neg hempty
    · exact .inl (htilde (by decide) hmem)
  | killToStart =>
    obtain rfl := List.mem_singleton.mp hmem
    exact .inl (hbyte (by decide) rfl)
  | killToEnd =>
    obtain rfl := List.mem_singleton.mp hmem
    exact .inl (hbyte (by decide) rfl)
  | previous => exact .inl (hletter (by decide) hmem)
  | next => exact .inl (hletter (by decide) hmem)

/-! ### Runs -/

/-- What a key must find so that it keeps a line whole: a delete a single byte, a recall an entry
that is UTF-8. -/
def Harmless (history : List (List UInt8)) : Key → Editor → Prop
  | .delete, e => AtSingleByte e
  | .previous, e => e.historyPos ≠ 0 → Valid (history.getD (e.historyPos - 1) [])
  | .next, e => e.historyPos + 1 < history.length → Valid (history.getD (e.historyPos + 1) [])
  | _, _ => True

/-- A whole line, with a line put aside that is UTF-8. -/
structure Sound (history : List (List UInt8)) (e : Editor) : Prop where
  whole : Whole e
  saved : Valid e.saved
  position : e.historyPos ≤ history.length

/-- The keys that do not go through the history leave its position and the line put aside alone. -/
def Kept (e e' : Editor) : Prop := e'.saved = e.saved ∧ e'.historyPos = e.historyPos

theorem kept_delete (e : Editor) : Kept e e.delete := by
  unfold Editor.delete
  split_ifs
  · exact ⟨rfl, rfl⟩
  · exact ⟨rfl, rfl⟩

theorem kept_deleteContinuations : ∀ (fuel : ℕ) (e : Editor),
    Kept e (Editor.deleteContinuations fuel e)
  | 0, _ => ⟨rfl, rfl⟩
  | fuel + 1, e => by
    obtain ⟨hsaved, hpos⟩ := kept_deleteContinuations fuel e.delete
    obtain ⟨hsaved', hpos'⟩ := kept_delete e
    unfold Editor.deleteContinuations
    split_ifs
    · exact ⟨hsaved.trans hsaved', hpos.trans hpos'⟩
    · exact ⟨rfl, rfl⟩

theorem kept_insertAll : ∀ (bytes : List UInt8) (e : Editor), Kept e (bytes.foldl Editor.insert e)
  | [], _ => ⟨rfl, rfl⟩
  | b :: bytes, e => kept_insertAll bytes (e.insert b)

theorem kept_backspace (e : Editor) : Kept e e.backspace := by
  have hback := kept_deleteContinuations
  unfold Editor.backspace
  split_ifs
  · exact ⟨rfl, rfl⟩
  · obtain ⟨hsaved, hpos⟩ := hback _ _
    obtain ⟨hsaved', hpos'⟩ := kept_delete { e with cursor := retreat e.line (e.cursor - 1) }
    exact ⟨hsaved.trans hsaved', hpos.trans hpos'⟩

theorem whole_replace (e : Editor) {text : List UInt8} (h : Valid text) :
    Whole (e.replace text) where
  cursor_le := Nat.le_refl _
  boundary := by
    show Valid (text.take text.length)
    rw [List.take_length]
    exact h
  line := h

theorem whole_replace_iff (e : Editor) (text : List UInt8) : Whole (e.replace text) ↔ Valid text :=
  ⟨fun h => h.line, whole_replace e⟩

theorem sound_start (history : List (List UInt8)) : Sound history (start history).editor where
  whole := ⟨Nat.le_refl _, valid_nil, valid_nil⟩
  saved := valid_nil
  position := Nat.le_refl _

/-- **A key keeps a line whole exactly if it finds what it must**, and then the line put aside is
UTF-8 as well. -/
theorem sound_apply_iff (history : List (List UInt8)) (key : Key) {e : Editor}
    (h : Sound history e) :
    (Whole (key.apply history e) ↔ Harmless history key e) ∧
      (Harmless history key e → Sound history (key.apply history e)) := by
  have hkept : ∀ {e' : Editor}, Kept e e' → (Whole e' ↔ Harmless history key e) →
      (Whole e' ↔ Harmless history key e) ∧ (Harmless history key e → Sound history e') := by
    rintro e' ⟨hsaved, hpos⟩ hiff
    exact ⟨hiff, fun hok => ⟨hiff.mpr hok, hsaved ▸ h.saved, hpos ▸ h.position⟩⟩
  cases key with
  | char c => exact hkept (kept_insertAll _ e) ⟨fun _ => trivial, fun _ => whole_char h.whole c⟩
  | left =>
    refine hkept ?_ ⟨fun _ => trivial, fun _ => whole_left h.whole⟩
    show Kept e e.left
    unfold Editor.left
    split_ifs
    · exact ⟨rfl, rfl⟩
    · exact ⟨rfl, rfl⟩
  | right =>
    refine hkept ?_ ⟨fun _ => trivial, fun _ => whole_right h.whole⟩
    show Kept e e.right
    unfold Editor.right
    split_ifs
    · exact ⟨rfl, rfl⟩
    · exact ⟨rfl, rfl⟩
  | home => exact hkept ⟨rfl, rfl⟩ ⟨fun _ => trivial, fun _ => whole_home h.whole⟩
  | toEnd => exact hkept ⟨rfl, rfl⟩ ⟨fun _ => trivial, fun _ => whole_toEnd h.whole⟩
  | backspace => exact hkept (kept_backspace e) ⟨fun _ => trivial, fun _ => whole_backspace h.whole⟩
  | delete => exact hkept (kept_delete e) (whole_delete_iff h.whole)
  | killToStart => exact hkept ⟨rfl, rfl⟩ ⟨fun _ => trivial, fun _ => whole_killToStart h.whole⟩
  | killToEnd => exact hkept ⟨rfl, rfl⟩ ⟨fun _ => trivial, fun _ => whole_killToEnd h.whole⟩
  | previous =>
    have hpos := h.position
    show (Whole (e.previous history) ↔ _) ∧ (_ → Sound history (e.previous history))
    unfold Editor.previous
    by_cases hfirst : e.historyPos = 0
    · rw [if_pos hfirst]
      exact ⟨⟨fun _ hne => absurd hfirst hne, fun _ => h.whole⟩, fun _ => h⟩
    · rw [if_neg hfirst]
      have hiff : (e.historyPos ≠ 0 → Valid (history.getD (e.historyPos - 1) [])) ↔
          Valid (history.getD (e.historyPos - 1) []) := ⟨fun hok => hok hfirst, fun hok _ => hok⟩
      by_cases hlast : e.historyPos = history.length
      · rw [if_pos hlast]
        refine ⟨(whole_replace_iff _ _).trans hiff.symm,
          fun hok => ⟨whole_replace _ (hiff.mp hok), ?_, ?_⟩⟩
        · exact h.whole.line
        · exact Nat.le_trans (Nat.sub_le _ _) hpos
      · rw [if_neg hlast]
        refine ⟨(whole_replace_iff _ _).trans hiff.symm,
          fun hok => ⟨whole_replace _ (hiff.mp hok), ?_, ?_⟩⟩
        · exact h.saved
        · exact Nat.le_trans (Nat.sub_le _ _) hpos
  | next =>
    have hpos := h.position
    show (Whole (e.next history) ↔ _) ∧ (_ → Sound history (e.next history))
    unfold Editor.next
    by_cases hlast : e.historyPos = history.length
    · rw [if_pos hlast]
      have hok : Harmless history .next e := fun hlt => absurd hlt (by omega)
      exact ⟨⟨fun _ => hok, fun _ => h.whole⟩, fun _ => h⟩
    · rw [if_neg hlast]
      by_cases hback : e.historyPos + 1 = history.length
      · have hok : Harmless history .next e := fun hlt => absurd hlt (by omega)
        simp only [if_pos hback]
        exact ⟨⟨fun _ => hok, fun _ => whole_replace _ h.saved⟩,
          fun _ => ⟨whole_replace _ h.saved, h.saved, Nat.le_of_eq hback⟩⟩
      · simp only [if_neg hback]
        have hlt : e.historyPos + 1 < history.length := by omega
        have hiff : (e.historyPos + 1 < history.length →
            Valid (history.getD (e.historyPos + 1) [])) ↔
            Valid (history.getD (e.historyPos + 1) []) := ⟨fun hok => hok hlt, fun hok _ => hok⟩
        exact ⟨(whole_replace_iff _ _).trans hiff.symm,
          fun hok => ⟨whole_replace _ (hiff.mp hok), h.saved, Nat.le_of_lt hlt⟩⟩

/-- What a key comes to while the line is being read. -/
theorem press_cases {history : List (List UInt8)} {p : Press} {r r' : Reader}
    (hr : r.escape = .none) (h : feedAll true history r p.code = .reading r') :
    r'.editor = p.key.apply history r.editor ∧ r'.escape = .none := by
  rcases feedAll_press history p hr with ⟨n, hread⟩ | ⟨-, -, heof⟩
  · rw [hread] at h
    obtain rfl := Outcome.reading.inj h
    exact ⟨rfl, rfl⟩
  · rw [heof] at h
    exact absurd h (by simp)

theorem run_inside {history : List (List UInt8)} {ps : List Press} {r : Reader}
    (h : Run history ps r) :
    r.escape = .none ∧ Inside r.editor := by
  induction h with
  | start => exact ⟨rfl, Nat.le_refl _⟩
  | press _ hfeed ih =>
    obtain ⟨heditor, hescape⟩ := press_cases ih.1 hfeed
    refine ⟨hescape, ?_⟩
    rw [heditor]
    exact inside_apply history _ ih.2

theorem run_sound {history : List (List UInt8)} {ps : List Press} {r : Reader}
    (h : Run history ps r)
    (hok : ∀ qs p, qs ++ [p] <+: ps → ∀ r, Run history qs r → Harmless history p.key r.editor) :
    Sound history r.editor := by
  induction h with
  | start => exact sound_start history
  | @press qs p r r' hrun hfeed ih =>
    have hbefore := ih fun qs' p' hstart => hok qs' p' (hstart.trans (List.prefix_append _ _))
    obtain ⟨heditor, -⟩ := press_cases (run_inside hrun).1 hfeed
    rw [heditor]
    exact (sound_apply_iff history p.key hbefore).2 (hok qs p (List.prefix_refl _) r hrun)

/-- **The line editor.** In every run the cursor stays in the line. And in a run the line is UTF-8
after every key, with the cursor in front of a character, exactly if each delete is at a single byte
or the end, and each entry recalled from the history is UTF-8. -/
theorem editing_iff (history : List (List UInt8)) (ps : List Press) :
    (∀ qs r, Run history qs r → r.editor.cursor ≤ r.editor.line.length) ∧
    ((∀ qs, qs <+: ps → ∀ r, Run history qs r → Whole r.editor) ↔
      ∀ qs p, qs ++ [p] <+: ps → ∀ r, Run history qs r → Harmless history p.key r.editor) := by
  refine ⟨fun qs r h => (run_inside h).2, fun hwhole => ?_, fun hok => ?_⟩
  · -- by induction on the keys before: they were harmless, so the line was sound
    suffices H : ∀ n qs p, qs.length = n → qs ++ [p] <+: ps → ∀ r, Run history qs r →
        Harmless history p.key r.editor from fun qs p => H qs.length qs p rfl
    intro n
    induction n using Nat.strongRecOn with
    | ind n ih =>
      intro qs p hlen hstart r hrun
      have hsound : Sound history r.editor := by
        refine run_sound hrun fun qs' p' hstart' r' hrun' => ?_
        have hshort := hstart'.length_le
        rw [List.length_append, List.length_singleton] at hshort
        exact ih qs'.length (by omega) qs' p' rfl
          (hstart'.trans ((List.prefix_append _ _).trans hstart)) r' hrun'
      refine (sound_apply_iff history p.key hsound).1.mp ?_
      rcases feedAll_press history p (run_inside hrun).1 with ⟨n, hread⟩ | ⟨hdelete, hempty, -⟩
      · exact hwhole (qs ++ [p]) hstart _ (.press hrun hread)
      · rw [hdelete]
        refine (whole_delete_iff hsound.whole).mpr ?_
        rw [AtSingleByte, hempty]
        exact Nat.le_of_ble_eq_true rfl
  · intro qs hstart r hrun
    exact (run_sound hrun fun qs' p hstart' => hok qs' p (hstart'.trans hstart)).whole

/-- The character é. -/
def eAcute : Char := Char.ofNat 0xe9

theorem typed_eAcute : Typed eAcute := by
  unfold Typed
  decide

theorem home_code : [0x01] ∈ Key.home.codes := List.mem_cons_self

theorem delete_code : [0x04] ∈ Key.delete.codes := List.mem_cons_self

/-- A delete in front of a longer character leaves a line that is not UTF-8. -/
theorem delete_breaks : ¬ ∀ (history : List (List UInt8)), (∀ text ∈ history, Valid text) →
    ∀ ps r, Run history ps r → Whole r.editor := by
  intro h
  have htyped : Run [] ([] ++ [⟨.char eAcute typed_eAcute, _, List.mem_singleton_self _⟩])
      { editor := { line := [0xc3, 0xa9], cursor := 2, historyPos := 0 } } := .press .start rfl
  have hhome : Run [] (_ ++ [⟨.home, [0x01], home_code⟩])
      { editor := { line := [0xc3, 0xa9], cursor := 0, historyPos := 0 } } := .press htyped rfl
  have hdelete : Run [] (_ ++ [⟨.delete, [0x04], delete_code⟩])
      { editor := { line := [0xa9], cursor := 0, historyPos := 0 } } := .press hhome rfl
  exact not_valid_continuation (by decide)
    (h [] (fun _ hmem => absurd hmem List.not_mem_nil) _ _ hdelete).line

end Ipmitool.Frontend.LineEditor
