import Ipmitool.Sdr.Walk

/-! # The cache of records

The global list of `cmd/sdr.zig` and everything that appends to it or reads it: the five lookups,
`listCache`, `listCacheFromfile`, `printSdr`, `dumpBin` and `sdrListEmpty`. The lookups are two
loops with different matchers: `findFirst` stops at a match, `findAll` collects them.

A repository may have a chain without an end; a walk takes at most `turns` turns. -/

namespace Ipmitool.Sdr.Cache

open Ipmitool.Lib Ipmitool.Lib.Bytes Ipmitool.Lib.Machine Ipmitool.Lib.Dialogue
open Ipmitool.Core.Types hiding Entry
open Ipmitool.Core.Interface Ipmitool.Sdr.Records Ipmitool.Sdr.Walk

variable {β : Type} (B : Bmc β) (env : Env β)

/-! ### The list -/

/-- The entries of the list. -/
def entries : Talk β (List Entry) := do
  return (← get).vars.list.toList

/-- `cacheAppend`. -/
def cacheAppend (e : Entry) : Talk β Unit := do
  let w ← get
  match w.vars.list.push e with
  | none => throw .nullUnwrap
  | some list => set { w with vars := { w.vars with list } }

/-- Appending to a list that is linked up never fails. -/
theorem cacheAppend_ok (e : Entry) {w : CmdWorld Vars β} {l : List Entry}
    (hl : Linked.Holds w.vars.list l) :
    ∃ c, cacheAppend e w = .ok ((), { w with vars := { w.vars with list := c } }) ∧
      Linked.Holds c (l ++ [e]) := by
  obtain ⟨c, hpush, hc⟩ := hl.push e
  refine ⟨c, bind_ok.mpr ⟨w, w, rfl, ?_⟩, hc⟩
  rw [hpush]
  rfl

/-- `sdrListEmpty`. -/
def sdrListEmpty : Talk β Unit :=
  modify fun w => { w with vars := { w.vars with list := w.vars.list.clear, listItr := none } }

/-- `ensureIterator`. -/
def ensureIterator : Talk β Bool := do
  if (← get).vars.listItr.isSome then return true
  else
    let itr ← sdrStart B env
    modify fun w => { w with vars := { w.vars with listItr := itr } }
    return itr.isSome

def setItr (itr : Itr) : Talk β Unit :=
  modify fun w => { w with vars := { w.vars with listItr := some itr } }

/-! ### The walk of the lookups -/

/-- A turn of a walk: none at the end of the repository, some none for a record that cannot be read
or is not cached. -/
def turn (itr : Itr) : Talk β (Option (Option Entry) × Itr) := do
  let h ← getNextHeader B itr
  match h.1 with
  | none => return (none, h.2)
  | some header =>
    let r ← getRecord B env header h.2
    return (some ((r.1.filter fun _ => isCachedRecordType header.type).map fun record =>
      { id := header.id, type := header.type, record := some record }), r.2)

/-- A turn with the iterator of the list. -/
def listTurn : Talk β (Option (Option Entry)) := do
  match (← get).vars.listItr with
  | none => throw .nullUnwrap
  | some itr =>
    let r ← turn B env itr
    setItr r.2
    return r.1

/-- The walk, which ends early at an entry that `stop` accepts: this entry, and the entries that
`keep` accepts. -/
def walk (stop keep : Matcher) : ℕ → Talk β (Option Entry × List Entry)
  | 0 => return (none, [])
  | turns + 1 => do
    match ← listTurn B env with
    | none => return (none, [])
    | some none => walk stop keep turns
    | some (some e) =>
      let found ← liftM (stop e)
      let kept ← liftM (keep e)
      cacheAppend e
      if found then return (some e, [])
      else
        let r ← walk stop keep turns
        return (r.1, if kept then e :: r.2 else r.2)

/-- The first entry that a matcher accepts. -/
def firstMatch (m : Matcher) : List Entry → Except Fault (Option Entry)
  | [] => .ok none
  | e :: es => do
    if ← m e then return some e else firstMatch m es

/-- The entries that a matcher accepts. -/
def allMatches (m : Matcher) : List Entry → Except Fault (List Entry)
  | [] => .ok []
  | e :: es => do
    let kept ← m e
    let rest ← allMatches m es
    return if kept then e :: rest else rest

/-- A matcher that accepts nothing. -/
def never : Matcher := fun _ => .ok false

/-- The entry passes the test. -/
def accepts (m : Matcher) (e : Entry) : Bool :=
  match m e with
  | .ok b => b
  | .error _ => false

theorem total_never : Total never := fun _ _ => ⟨false, rfl⟩

theorem eq_accepts {m : Matcher} (hm : Total m) {e : Entry} (he : Cached e) :
    m e = .ok (accepts m e) := by
  obtain ⟨b, hb⟩ := hm e he
  rw [accepts, hb]

theorem firstMatch_eq {m : Matcher} (hm : Total m) {es : List Entry} (hes : ∀ e ∈ es, Cached e) :
    firstMatch m es = .ok (es.find? (accepts m)) := by
  induction es with
  | nil => rfl
  | cons e es ih =>
    rw [firstMatch, eq_accepts hm (hes e List.mem_cons_self), List.find?_cons]
    rcases accepts m e
    · exact ih fun x hx => hes x (List.mem_cons_of_mem _ hx)
    · rfl

theorem allMatches_eq {m : Matcher} (hm : Total m) {es : List Entry} (hes : ∀ e ∈ es, Cached e) :
    allMatches m es = .ok (es.filter (accepts m)) := by
  induction es with
  | nil => rfl
  | cons e es ih =>
    rw [allMatches, eq_accepts hm (hes e List.mem_cons_self),
      ih fun x hx => hes x (List.mem_cons_of_mem _ hx), List.filter_cons]
    rfl

/-- A lookup of one entry. -/
def findFirst (turns : ℕ) (cached fresh : Matcher) : Talk β (Option Entry) := do
  if ¬ (← ensureIterator B env) then return none
  else
    match ← liftM (firstMatch cached (← entries)) with
    | some e => return some e
    | none =>
      let r ← walk B env fresh never turns
      return r.1

/-- A lookup of all entries: none if the repository cannot be opened. -/
def findAll (turns : ℕ) (cached fresh : Matcher) : Talk β (Option (List Entry)) := do
  if ¬ (← ensureIterator B env) then return none
  else
    let old ← liftM (allMatches cached (← entries))
    let r ← walk B env never fresh turns
    return some (old ++ r.2)

/-- `findSdrBynumtype`. -/
def findSdrBynumtype (turns : ℕ) (genId : UInt16) (num rtype : UInt8) : Talk β (Option Entry) :=
  findFirst B env turns (matchNumtype genId num rtype) (matchNumtype genId num rtype)

/-- `findSdrBysensortype`. -/
def findSdrBysensortype (turns : ℕ) (rtype : UInt8) : Talk β (Option (List Entry)) :=
  findAll B env turns (matchSensortype rtype) (matchSensortype rtype)

/-- `findSdrByentity`. -/
def findSdrByentity (turns : ℕ) (entity : EntityId) : Talk β (Option (List Entry)) :=
  findAll B env turns (matchEntityCached entity) (matchEntityFresh entity)

/-- `findSdrBytype`. -/
def findSdrBytype (turns : ℕ) (rtype : UInt8) : Talk β (Option (List Entry)) :=
  findAll B env turns (matchType rtype) (matchType rtype)

/-- `findSdrByid`. -/
def findSdrByid (turns : ℕ) (num : ℤ) (id : List UInt8) : Talk β (Option Entry) :=
  findFirst B env turns (matchIdCached num id) (matchIdFresh num id)

/-- `listCache`. -/
def listCache (turns : ℕ) : Talk β ℤ := do
  if ¬ (← ensureIterator B env) then return -1
  else
    let _ ← walk B env never never turns
    return 0

/-! ### Printing -/

/-- What printing a record does to the BMC, and whether it succeeds. -/
abbrev Printer (β : Type) := Entry → β → Bool × β

/-- The record type is asked for. -/
def printed (rtype type : UInt8) : Bool :=
  rtype = type ∨ rtype = 0xff ∨ (rtype = 0xfe ∧ (type = 0x01 ∨ type = 0x02))

/-- The accessors that `printListentry` uses. -/
def accessed (e : Entry) : Except Fault Unit :=
  match kindOf e.type with
  | some .assoc => .ok ()
  | some _ => do let _ ← e.typed
  | none => if e.type = 0xc0 then do let _ ← e.typed else .ok ()

/-- A record is printed. -/
def printRecord (show_ : Printer β) (e : Entry) : Talk β Bool := do
  let w ← get
  set { w with device := (show_ e w.device).2 }
  return (show_ e w.device).1

/-- `printListentry`. -/
def printListentry (show_ : Printer β) (e : Entry) : Talk β Bool := do
  liftM (accessed e)
  printRecord show_ e

/-- The entries of the list are printed. -/
def printEntries (show_ : Printer β) : List Entry → Talk β Bool
  | [] => return true
  | e :: es => do
    let ok ← printListentry show_ e
    let rest ← printEntries show_ es
    return ok && rest

/-- The walk of `printSdr`. -/
def printWalk (show_ : Printer β) (rtype : UInt8) : ℕ → Talk β Bool
  | 0 => return true
  | turns + 1 => do
    match ← listTurn B env with
    | none => return true
    | some none => printWalk show_ rtype turns
    | some (some e) =>
      let ok ← if printed rtype e.type then printRecord show_ e else pure true
      cacheAppend e
      let rest ← printWalk show_ rtype turns
      return ok && rest

/-- `printSdr`; that a record could not be read only shows in the return value. -/
def printSdr (turns : ℕ) (show_ : Printer β) (rtype : UInt8) : Talk β Bool := do
  if ¬ (← ensureIterator B env) then return false
  else
    let ok ← printEntries show_ ((← entries).filter fun e => printed rtype e.type)
    let rest ← printWalk B env show_ rtype turns
    return ok && rest

/-- `printType` and `printEntity`: the entries that were found are printed. -/
def printFound (show_ : Printer β) (found : Option (List Entry)) : Talk β Bool :=
  printEntries show_ (found.getD [])

/-! ### Files -/

/-- The five bytes before a record in a file. -/
def fileHeader (e : Entry) : List UInt8 := le16 e.id ++ [e.version, e.type, e.length]

/-- The records of a cache file and the return value; `fuel` is the length of the file. -/
def cacheFile : ℕ → List UInt8 → List Entry × Bool
  | 0, _ => ([], true)
  | fuel + 1, bytes =>
    if bytes = [] then ([], true)
    else if bytes.length < 5 then ([], false)
    else
      let id := ofLe16 (bytes.getD 0 0) (bytes.getD 1 0)
      let type := bytes.getD 3 0
      let length := (bytes.getD 4 0).toNat
      let data := (bytes.drop 5).take length
      let rest := bytes.drop (5 + length)
      if length = 0 then cacheFile fuel rest
      else if bytes.getD 2 0 ≠ 0x51 ∧ bytes.getD 2 0 ≠ 0x01 ∧ bytes.getD 2 0 ≠ 0x02 then ([], false)
      else if data.length < length then ([], false)
      else if ¬ recordLengthValid type data then ((cacheFile fuel rest).1, false)
      else if ¬ isCachedRecordType type then cacheFile fuel rest
      else ({ id, type, record := some data } :: (cacheFile fuel rest).1, (cacheFile fuel rest).2)

/-- Entries are appended one after another. -/
def appendAll : List Entry → Talk β Unit
  | [] => return ()
  | e :: es => do
    cacheAppend e
    appendAll es

/-- `listCacheFromfile`; none if the file cannot be opened. -/
def listCacheFromfile (file : Option (List UInt8)) : Talk β Bool := do
  match file with
  | none => return false
  | some bytes =>
    let r := cacheFile bytes.length bytes
    appendAll r.1
    modify fun w => { w with vars := { w.vars with
      listItr := some (w.vars.listItr.getD ⟨0, 0xffff, false⟩) } }
    return r.2

/-- The walk of `dumpBin`, with an iterator of its own. -/
def dumpWalk : ℕ → Itr → Talk β Bool
  | 0, _ => return true
  | turns + 1, itr => do
    let h ← getNextHeader B itr
    match h.1 with
    | none => return true
    | some header =>
      let r ← getRecord B env header h.2
      match r.1 with
      | none => return false
      | some raw =>
        cacheAppend
          { id := header.id, version := header.version, type := header.type,
            length := header.length, raw := some raw }
        dumpWalk turns r.2

/-- What `dumpBin` writes, and whether every entry has its data. -/
def dumpFile : List Entry → List UInt8 × Bool
  | [] => ([], true)
  | e :: es =>
    match e.raw with
    | none => (fileHeader e, false)
    | some raw => (fileHeader e ++ raw.take e.length.toNat ++ (dumpFile es).1, (dumpFile es).2)

/-- `dumpBin`: whether it succeeds, and the file. `opens` says whether the file can be opened. -/
def dumpBin (turns : ℕ) (opens : Bool) : Talk β (Bool × List UInt8) := do
  match ← sdrStart B env with
  | none => return (false, [])
  | some itr =>
    if ¬ (← dumpWalk B env turns itr) then return (false, [])
    else if ¬ opens then return (false, [])
    else
      let file := dumpFile (← entries)
      return (file.2, file.1)

end Ipmitool.Sdr.Cache
