import Mathlib.Data.List.Nodup
import Mathlib.Data.Vector.Defs
import Ipmitool.Sel.Entries

/-! # Watching the system event log

The SEL event interface of `front/ipmievd.zig`: `selSetup` looks for the end of the log, and every
poll asks how many entries there are and, if there are more than before, logs those behind the last
one it knows. Between two polls only the number of entries and the id of the last one are
remembered.

Two loops walk along the log; `walk` is both of them. Only the events that are logged are kept of
what the program writes; how full the log is and whether it has overflowed only leads to
warnings. -/

namespace Ipmitool.Evd.Watch

open Ipmitool.Lib.Mem Ipmitool.Lib.Bytes Ipmitool.Lib.Machine Ipmitool.Lib.Dialogue
open Ipmitool.Core.Types Ipmitool.Core.Interface Ipmitool.Sel.Entries

/-! ### The program -/

/-- The sixteen bytes of a record, the id in front. -/
structure Event where
  recordId : UInt16
  body : List UInt8
  length_body : body.length = 14
  deriving DecidableEq

/-- The static variables, and the events logged so far. -/
structure Vars where
  count : UInt16 := 0
  lastid : UInt16 := 0
  logged : List Event := []

/-- SIGTERM arrives before the request with this number, if at all. -/
abbrev Signal := Option ℕ

section Program
variable {β : Type} (B : Bmc β) (sig : Signal)

/-- `stopped`. -/
def isStopped (w : CmdWorld Vars β) : Bool := sig.any fun n => decide (n ≤ w.log.length)

/-- `selInfo`, the number of entries. -/
def selInfo : Cmd Vars β (Option UInt16) := do
  match ← sendrecv B getSelInfo with
  | none => return none
  | some r =>
    return if r.ccode ≠ 0 ∨ r.dataLen < 14 then none else some (ofLe16 (r.data 1) (r.data 2))

/-- The record in a response. -/
def eventOf (data : Memory UInt8) : Event where
  recordId := ofLe16 (data 2) (data 3)
  body := read data 4 14
  length_body := by simp

/-- `selEntry`: the id of the next entry, and the event. -/
def selEntry (id : UInt16) : Cmd Vars β (Option (UInt16 × Event)) := do
  match ← sendrecv B (getSelEntry id) with
  | none => return none
  | some r =>
    return if r.ccode ≠ 0 ∨ r.dataLen < 18 then none
      else some (ofLe16 (r.data 0) (r.data 1), eventOf r.data)

/-- An entry with the next id zero is asked for once more. -/
def entry (requested : UInt16) : Cmd Vars β (Option (UInt16 × Event)) := do
  match ← selEntry B requested with
  | none => return none
  | some r => if r.1 = 0 then selEntry B requested else return some r

/-- The loop of `lastId` and `selRead`, as far as the fuel lasts: did all requests succeed, and what
is the id of the last entry? -/
def walk (visit : UInt16 → Event → Vars → Vars) : ℕ → UInt16 → UInt16 →
    Cmd Vars β (Option (Bool × UInt16))
  | 0, _, _ => return none
  | fuel + 1, next, last => do
    let w ← get
    if next = 0xffff ∨ isStopped sig w then return some (true, last)
    else
      match ← entry B next with
      | none => return some (false, last)
      | some r =>
        if r.1 = 0 then return some (true, last)
        else
          modify fun w => { w with vars := visit next r.2 w.vars }
          if r.1 = next then return some (true, r.2.recordId) else walk visit fuel r.1 r.2.recordId

/-- `lastId`. -/
def lastId (fuel : ℕ) : Cmd Vars β (Option (Option UInt16)) := do
  let w ← get
  if w.vars.count = 0 then return some (some 0)
  else
    match ← walk B sig (fun _ _ v => v) fuel 0 0 with
    | none => return none
    | some (ok, last) => return some (if ok then some last else none)

/-- `selSetup`: does it succeed? -/
def selSetup (fuel : ℕ) : Cmd Vars β (Option Bool) := do
  match ← selInfo B with
  | none => return some false
  | some entries =>
    modify fun w => { w with vars.count := entries }
    match ← lastId B sig fuel with
    | none => return none
    | some none => return some false
    | some (some last) =>
      modify fun w => { w with vars.lastid := last }
      return some true

/-- `selCheck`: are there more entries than before? -/
def selCheck (fuel : ℕ) : Cmd Vars β (Option (Option Bool)) := do
  let old := (← get).vars.count
  match ← selInfo B with
  | none => return some none
  | some entries =>
    modify fun w => { w with vars.count := entries }
    if entries = 0 then
      modify fun w => { w with vars.lastid := 0 }
      return some (some (decide (old < entries)))
    else if entries < old then
      match ← lastId B sig fuel with
      | none => return none
      | some none => return some none
      | some (some last) =>
        modify fun w => { w with vars.lastid := last }
        return some (some (decide (old < entries)))
    else return some (some (decide (old < entries)))

/-- The entry is logged, unless it is the last one known. -/
def logNew (requested : UInt16) (evt : Event) (v : Vars) : Vars :=
  if evt.recordId ≠ v.lastid ∨ requested = 0 then { v with logged := v.logged ++ [evt] } else v

/-- `selRead`: does it succeed? -/
def selRead (fuel : ℕ) : Cmd Vars β (Option Bool) := do
  let w ← get
  if w.vars.count = 0 then return some false
  else
    match ← walk B sig logNew fuel w.vars.lastid w.vars.lastid with
    | none => return none
    | some (ok, last) =>
      modify fun w => { w with vars.lastid := last }
      return some ok

/-- One round of `selWait`: was there a change, if all goes well? -/
def poll (fuel : ℕ) : Cmd Vars β (Option (Option Bool)) := do
  match ← selCheck B sig fuel with
  | none => return none
  | some none => return some none
  | some (some changed) =>
    if changed then
      match ← selRead B sig fuel with
      | none => return none
      | some ok => return some (if ok then some true else none)
    else return some (some false)

end Program

/-! ### A BMC whose log changes -/

/-- A log: a chain of records with different ids, none of which is reserved. -/
structure Sel where
  records : List Event
  nodup : (records.map Event.recordId).Nodup
  proper : ∀ e ∈ records, e.recordId ≠ 0 ∧ e.recordId ≠ 0xffff

/-- The empty log. -/
def Sel.empty : Sel := ⟨[], List.nodup_nil, by simp⟩

/-- A record is appended, if its id is free. -/
def Sel.append (s : Sel) (e : Event) : Sel :=
  if h : e.recordId ∉ s.records.map Event.recordId ∧ e.recordId ≠ 0 ∧ e.recordId ≠ 0xffff then
    { records := s.records ++ [e]
      nodup := by
        rw [List.map_append, List.map_cons, List.map_nil]
        exact List.nodup_append.mpr ⟨s.nodup, List.nodup_singleton _, fun a ha b hb => by
          rw [List.mem_singleton.mp hb]
          rintro rfl
          exact h.1 ha⟩
      proper := by
        intro x hx
        rcases List.mem_append.mp hx with hx | hx
        · exact s.proper x hx
        · rw [List.mem_singleton.mp hx]
          exact h.2 }
  else s

/-- The record with the id that is asked for and those behind it; id zero asks for the first
record. -/
def Sel.tailFrom (s : Sel) (id : UInt16) : List Event :=
  if id = 0 then s.records else s.records.dropWhile fun e => e.recordId ≠ id

/-- The id that a response gives as the next one. -/
def nextId (rest : List Event) : UInt16 := (rest.head?).elim 0xffff Event.recordId

/-- The log is cleared, or a record is appended to it. -/
inductive Change where
  | clear
  | append (e : Event)

/-- What happens before a request is answered, whether the answer may have the next id zero, and the
bytes behind the number of entries. -/
structure Moment where
  changes : List Change := []
  transient : Bool := false
  info : List.Vector UInt8 11 := List.Vector.replicate 11 0

/-- The log, the number of times it was cleared, the number of requests answered, and the id of the
last request if its answer had the next id zero. -/
structure Board where
  sel : Sel := .empty
  clears : ℕ := 0
  time : ℕ := 0
  excused : Option UInt16 := none

/-- A change of the log. -/
def Board.change (b : Board) : Change → Board
  | .clear => { b with sel := .empty, clears := b.clears + 1 }
  | .append e => { b with sel := b.sel.append e }

/-- The bytes of a record. -/
def Event.wire (e : Event) : List UInt8 := le16 e.recordId ++ e.body

/-- The log at the time of an answer. -/
def Board.now (sched : ℕ → Moment) (b : Board) : Board :=
  (sched b.time).changes.foldl Board.change { b with time := b.time + 1 }

/-- The answer to Get SEL Entry. It may have the next id zero, but not if the request is the
repetition of one whose answer had. -/
def Board.answerEntry (b : Board) (m : Moment) (id : UInt16) : Option Reply × Board :=
  match b.sel.tailFrom id with
  | [] => (some { ccode := 0xcb }, { b with excused := none })
  | e :: rest =>
    if m.transient ∧ b.excused ≠ some id then
      (some (Reply.of (le16 0 ++ e.wire)), { b with excused := some id })
    else (some (Reply.of (le16 (nextId rest) ++ e.wire)), { b with excused := none })

/-- A BMC whose log changes before its answers. -/
def board (sched : ℕ → Moment) : Bmc Board := fun b c =>
  let m := sched b.time
  let b := b.now sched
  if c = getSelInfo then
    (some (Reply.of (0x51 :: le16 (UInt16.ofNat b.sel.records.length) ++ m.info.toList)), b)
  else b.answerEntry m (ofLe16 (c.data.getD 2 0) (c.data.getD 3 0))

end Ipmitool.Evd.Watch
