import Ipmitool.Core.Types

/-! # Sensor data records

The records of `cmd/sdr.zig` as far as the lookups read them: a record is the list of the bytes
behind its header, and a field is read at the offset of the C layout. `Entry` is `SdrRecordList`; an
entry of the cache has its record in `record`, and the typed accessors unwrap it. The matchers say
whether an entry is looked for: `findSdrBy…` has one for the entries of the cache and one for the
entries that were just read. -/

namespace Ipmitool.Sdr.Records

open Ipmitool.Lib.Bytes Ipmitool.Core.Types

/-- The types of the records that are cached. -/
inductive Kind where
  | full
  | compact
  | eventonly
  | assoc
  | generic
  | fru
  | mc
  deriving DecidableEq

def kindOf (type : UInt8) : Option Kind :=
  if type = 0x01 then some .full
  else if type = 0x02 then some .compact
  else if type = 0x03 then some .eventonly
  else if type = 0x08 then some .assoc
  else if type = 0x10 then some .generic
  else if type = 0x11 then some .fru
  else if type = 0x12 then some .mc
  else none

/-- `isCachedRecordType`. -/
def isCachedRecordType (type : UInt8) : Bool := (kindOf type).isSome

/-- Where the length of the name stands; the name follows. An association has no name. -/
def codeOffset : Kind → Option ℕ
  | .full => some 42
  | .compact => some 26
  | .eventonly => some 11
  | .generic | .fru | .mc => some 10
  | .assoc => none

/-- Where the entity stands. -/
def entityOffset : Kind → ℕ
  | .full | .compact | .eventonly => 3
  | .generic | .fru | .mc => 7
  | .assoc => 0

/-- Where the type of the sensor stands. -/
def sensorTypeOffset : Kind → Option ℕ
  | .full | .compact => some 7
  | .eventonly => some 5
  | _ => none

/-- `namedRecordLengthValid`. -/
def namedRecordLengthValid (code : ℕ) (data : List UInt8) : Bool :=
  let nameLen := (data.getD code 0 &&& 0x1f).toNat
  code + 1 ≤ data.length ∧ nameLen ≤ 16 ∧ nameLen ≤ data.length - (code + 1)

/-- `recordLengthValid`. -/
def recordLengthValid (type : UInt8) (data : List UInt8) : Bool :=
  match kindOf type with
  | none => true
  | some k =>
    match codeOffset k with
    | none => 11 ≤ data.length
    | some code => namedRecordLengthValid code data

/-- `SdrRecordList` without its link. -/
structure Entry where
  id : UInt16
  version : UInt8 := 0
  type : UInt8
  length : UInt8 := 0
  raw : Option (List UInt8) := none
  record : Option (List UInt8) := none
  deriving DecidableEq

/-- The typed accessors: the record pointer is unwrapped. -/
def Entry.typed (e : Entry) : Except Fault (List UInt8) :=
  match e.record with
  | none => .error .nullUnwrap
  | some r => .ok r

/-! ### Matchers -/

/-- A test of an entry. -/
abbrev Matcher := Entry → Except Fault Bool

/-- `findSdrBynumtype`: the keys and the type of a sensor. -/
def matchNumtype (genId : UInt16) (num rtype : UInt8) : Matcher := fun e =>
  match (kindOf e.type).bind sensorTypeOffset with
  | none => .ok false
  | some off => do
    let r ← e.typed
    return r.getD 2 0 = num ∧ (r.getD 0 0).toNat = genId.toNat % 256 ∧
      (r.getD 1 0 &&& 3).toNat = genId.toNat / 256 % 4 ∧ r.getD off 0 = rtype

/-- `findSdrBysensortype`. -/
def matchSensortype (rtype : UInt8) : Matcher := fun e =>
  match (kindOf e.type).bind sensorTypeOffset with
  | none => .ok false
  | some off => do
    let r ← e.typed
    return r.getD off 0 = rtype

/-- `EntityId`. -/
structure EntityId where
  id : UInt8
  inst : UInt8

/-- `entityOfEntry`. -/
def entityOfEntry (e : Entry) : Except Fault (Option EntityId) :=
  match kindOf e.type with
  | none => .ok none
  | some k => do
    let r ← e.typed
    return some ⟨r.getD (entityOffset k) 0, r.getD (entityOffset k + 1) 0 &&& 0x7f⟩

/-- An entity is asked for, or any instance of it. -/
def sameEntity (wanted found : EntityId) : Bool :=
  found.id = wanted.id ∧ (wanted.inst = 0x7f ∨ found.inst = wanted.inst)

/-- `findSdrByentity`, for an entry of the cache. -/
def matchEntityCached (entity : EntityId) : Matcher := fun e => do
  match ← entityOfEntry e with
  | none => return false
  | some ent => return sameEntity entity ent

/-- `findSdrByentity`, for an entry that was just read. -/
def matchEntityFresh (entity : EntityId) : Matcher := fun e => do
  match ← entityOfEntry e with
  | none => throw .nullUnwrap
  | some ent => return sameEntity entity ent

/-- `findSdrBytype`. -/
def matchType (rtype : UInt8) : Matcher := fun e => .ok (e.type = rtype)

/-- `strncmp` is zero, for a text in a record, which ends with a zero. -/
def sameName (r : List UInt8) (code : ℕ) (id : List UInt8) : Bool :=
  let n := max (r.getD code 0 &&& 0x1f).toNat id.length
  ((r.drop (code + 1)).takeWhile (· ≠ 0)).take n = id.take n

/-- The sensor number in a record; -1 if it has none. -/
def sensorNumber (k : Kind) (r : List UInt8) : ℤ :=
  match sensorTypeOffset k with
  | none => -1
  | some _ => (r.getD 2 0).toNat

/-- `findSdrByid`, for an entry of the cache: an association is skipped. `num` is the number that
the text stands for, -1 if it is none. -/
def matchIdCached (num : ℤ) (id : List UInt8) : Matcher := fun e =>
  match kindOf e.type with
  | none => .ok false
  | some k =>
    match codeOffset k with
    | none => .ok false
    | some code => do
      let r ← e.typed
      return (num ≠ -1 ∧ num = sensorNumber k r) ∨ sameName r code id

/-- `findSdrByid`, for an entry that was just read: an association has no name and no number. -/
def matchIdFresh (num : ℤ) (id : List UInt8) : Matcher := fun e =>
  match kindOf e.type with
  | none => .ok (num ≠ -1 ∧ num = -1)
  | some k =>
    match codeOffset k with
    | none => .ok (num ≠ -1 ∧ num = -1)
    | some code => do
      let r ← e.typed
      return (num ≠ -1 ∧ num = sensorNumber k r) ∨ sameName r code id

/-! ### Entries with their records -/

/-- The entry has a record, of a type that is cached and with a length that is right for it. -/
structure Cached (e : Entry) : Prop where
  kind : isCachedRecordType e.type = true
  record : ∃ r, e.record = some r ∧ recordLengthValid e.type r = true

/-- The two matchers of `findSdrByentity` agree on entries of the types that are cached. -/
theorem matchEntity_agree (entity : EntityId) {e : Entry} (h : isCachedRecordType e.type = true) :
    matchEntityFresh entity e = matchEntityCached entity e := by
  obtain ⟨k, hk⟩ := Option.isSome_iff_exists.mp h
  unfold matchEntityFresh matchEntityCached entityOfEntry
  rw [hk]
  rcases e.typed with f | r <;> rfl

theorem matchId_agree (num : ℤ) (id : List UInt8) (e : Entry) :
    matchIdFresh num id e = matchIdCached num id e := by
  have hnone : ¬ (num ≠ -1 ∧ num = -1) := fun h => h.1 h.2
  unfold matchIdFresh matchIdCached
  rcases kindOf e.type with _ | k
  · simp [hnone]
  · rcases h : codeOffset k with _ | code
    · simp [h, hnone]
    · simp [h]

theorem Cached.typed {e : Entry} (h : Cached e) : ∃ r, e.typed = .ok r := by
  obtain ⟨r, hr, -⟩ := h.record
  exact ⟨r, by rw [Entry.typed, hr]⟩

/-- The matchers never unwrap a null on an entry with its record. -/
def Total (m : Matcher) : Prop := ∀ e, Cached e → ∃ b, m e = .ok b

theorem total_numtype (genId : UInt16) (num rtype : UInt8) :
    Total (matchNumtype genId num rtype) := by
  intro e he
  obtain ⟨r, hr⟩ := he.typed
  unfold matchNumtype
  rcases (kindOf e.type).bind sensorTypeOffset with _ | off
  · exact ⟨_, rfl⟩
  · exact ⟨_, by rw [hr]; rfl⟩

theorem total_sensortype (rtype : UInt8) : Total (matchSensortype rtype) := by
  intro e he
  obtain ⟨r, hr⟩ := he.typed
  unfold matchSensortype
  rcases (kindOf e.type).bind sensorTypeOffset with _ | off
  · exact ⟨_, rfl⟩
  · exact ⟨_, by rw [hr]; rfl⟩

theorem total_entity (entity : EntityId) : Total (matchEntityCached entity) := by
  intro e he
  obtain ⟨r, hr⟩ := he.typed
  obtain ⟨k, hk⟩ := Option.isSome_iff_exists.mp he.kind
  unfold matchEntityCached entityOfEntry
  rw [hk, hr]
  exact ⟨_, rfl⟩

theorem total_id (num : ℤ) (id : List UInt8) : Total (matchIdCached num id) := by
  intro e he
  obtain ⟨r, hr⟩ := he.typed
  unfold matchIdCached
  rcases kindOf e.type with _ | k
  · exact ⟨_, rfl⟩
  · rcases h : codeOffset k with _ | code
    · simp only [h]
      exact ⟨_, rfl⟩
    · simp only [h]
      exact ⟨_, by rw [hr]; rfl⟩

end Ipmitool.Sdr.Records
