import Ipmitool.Core.Types
import Ipmitool.Lib.Buffer
import Ipmitool.Lib.Dialogue
import Ipmitool.Lib.PrefixCode

/-! # The cipher suites of a channel

`getChannelCipherSuites` of `cmd/channel.zig` with the parser of what it receives. The list is asked
for in pages of sixteen bytes that are put into one buffer; a page that is not full ends it, and so
does the 64th. The buffer holds records of two sizes behind each other (`Record`), and the parser
takes one after the other up to the first that is not one: what it finds is the longest message of a
prefix code (`suiteCode`).

The device answers with a reply or with none. An access outside of an array, a counter that leaves
its byte, a null pointer that is followed and a loop that goes on are stops. -/

namespace Ipmitool.Cmd.Channel

open Ipmitool.Core.Types Ipmitool.Lib.Bytes Ipmitool.Lib.Machine Ipmitool.Lib.Dialogue
  Ipmitool.Lib.PrefixCode

variable {β : Type}

/-! ### The code -/

/-- Why a function does not return. -/
inductive Stop where
  | outOfBounds
  | overflow
  | nullUnwrap
  | fuel
  deriving DecidableEq

def standardCipherSuite : UInt8 := 0xc0
def oemCipherSuite : UInt8 := 0xc1
def cipherAlgMask : UInt8 := 0x3f
def stdRecordSize : ℕ := 5
def oemRecordSize : ℕ := 8
def maxCipherSuiteRecordOffset : ℕ := 0x40
def maxCipherSuiteDataLen : ℕ := 0x10
def listAlgorithmsByCipherSuite : UInt8 := 0x80
def cmdGetChannelCipherSuites : UInt8 := 0x54
def ipmiAuthRakpNone : UInt8 := 0x00
def ipmiIntegrityNone : UInt8 := 0x00
def ipmiCryptNone : UInt8 := 0x00

/-- `struct cipher_suite_info`. -/
structure CipherSuiteInfo where
  cipherSuiteId : UInt32 := 0
  authAlg : UInt8 := 0
  integrityAlg : UInt8 := 0
  cryptAlg : UInt8 := 0
  iana : UInt32 := 0
  deriving DecidableEq

/-- An element that all bytes of are zero. -/
def noSuite : CipherSuiteInfo := {}

/-- An element of an array. -/
def elem {α : Type} (array : List α) (i : ℕ) : Except Stop α :=
  (array[i]?).elim (.error .outOfBounds) .ok

/-- `parseCipherSuite`: the size of the record, or 0, and the suite. -/
def parseCipherSuite (data : List UInt8) (suite : CipherSuiteInfo) :
    Except Stop (ℕ × CipherSuiteInfo) := do
  let start ← elem data 0
  if start = standardCipherSuite then
    if data.length < stdRecordSize then return (0, suite)
    return (stdRecordSize,
      { suite with
        cipherSuiteId := (← elem data 1).toUInt32
        authAlg := cipherAlgMask &&& (← elem data 2)
        integrityAlg := cipherAlgMask &&& (← elem data 3)
        cryptAlg := cipherAlgMask &&& (← elem data 4) })
  if start = oemCipherSuite then
    if data.length < oemRecordSize then return (0, suite)
    let iana := (← elem data 2).toUInt32 ||| (← elem data 3).toUInt32 <<< 8 |||
      (← elem data 4).toUInt32 <<< 16
    return (oemRecordSize,
      { suite with
        iana := iana
        cipherSuiteId := (← elem data 1).toUInt32
        authAlg := cipherAlgMask &&& (← elem data 5)
        integrityAlg := cipherAlgMask &&& (← elem data 6)
        cryptAlg := cipherAlgMask &&& (← elem data 7) })
  return (0, suite)

/-- The loop of `parseChannelCipherSuiteData`. -/
def parseLoop (data : List UInt8) : ℕ → ℕ → ℕ → List CipherSuiteInfo →
    Except Stop (ℕ × List CipherSuiteInfo)
  | 0, _, _, _ => .error .fuel
  | fuel + 1, offset, count, suites =>
    if offset < data.length ∧ count < suites.length then do
      let suite := { (← elem suites count) with
        authAlg := ipmiAuthRakpNone, integrityAlg := ipmiIntegrityNone, cryptAlg := ipmiCryptNone }
      let (suiteSize, suite) ← parseCipherSuite (data.drop offset) suite
      if suiteSize = 0 then return (count, suites.set count suite)
      else parseLoop data fuel (offset + suiteSize) (count + 1) (suites.set count suite)
    else return (count, suites)

/-- `parseChannelCipherSuiteData`. -/
def parseChannelCipherSuiteData (data : List UInt8) (suites : List CipherSuiteInfo) :
    Except Stop (ℕ × List CipherSuiteInfo) :=
  parseLoop data (suites.length + 1) 0 0 (List.replicate suites.length noSuite)

/-- The variables of `getChannelCipherSuites`. -/
structure Vars where
  cipherSuiteData : List UInt8 :=
    List.replicate (maxCipherSuiteRecordOffset * maxCipherSuiteDataLen) 0
  offset : ℕ := 0
  listIndex : UInt8 := 0

/-- The variables, the device and what was asked and answered. -/
abbrev Comm (β : Type) := World Vars β Request (Option Response)

theorem three_lt (a b c : UInt8) : [a, b, c].length < 65536 := Nat.le_of_ble_eq_true rfl

/-- The request for a page. -/
def pageRequest (channel payload listIndex : UInt8) : Request where
  netfn := netfnApp
  lun := bmcLun
  cmd := cmdGetChannelCipherSuites
  data := [channel, payload, listAlgorithmsByCipherSuite ||| listIndex]
  data_lt := three_lt _ _ _

/-- `isIpmiPayload`. -/
def isIpmiPayload (payloadType : List UInt8) : Bool := payloadType = ascii "ipmi"

/-- The loop of `getChannelCipherSuites`: whether the list was received. -/
def getPages (D : Device β Request (Option Response)) (channel payload : UInt8) :
    ℕ → Prog Stop (Comm β) Bool
  | 0 => throw .fuel
  | fuel + 1 => do
    let v := (← get).vars
    match ← ask D (pageRequest channel payload v.listIndex) with
    | none => return false
    | some rsp =>
      if rsp.ccode ≠ 0 ∨ rsp.dataLen < 1 ∨ rsp.dataLen > 1 + maxCipherSuiteDataLen then return false
      let chunk := (rsp.dataLen - 1).toNat
      if bufSize < 1 + chunk then throw .outOfBounds
      let cells ← Lib.Buffer.store Stop.outOfBounds v.cipherSuiteData v.offset
          (Lib.Mem.read rsp.data 1 chunk)
      if v.listIndex = 255 then throw .overflow
      modify fun w =>
        { w with vars := { cipherSuiteData := cells, offset := v.offset + chunk, listIndex := v.listIndex + 1 } }
      if rsp.dataLen = 1 + maxCipherSuiteDataLen ∧
        (v.listIndex + 1).toNat < maxCipherSuiteRecordOffset then
        getPages D channel payload fuel
      else return true

/-- What the caller has when the function returned. -/
structure Result where
  rc : ℤ
  count : Option ℕ
  suites : Option (List CipherSuiteInfo)
  deriving DecidableEq

/-- `getChannelCipherSuites`. -/
def getChannelCipherSuites (D : Device β Request (Option Response))
    (payloadType : Option (List UInt8)) (channel : UInt8) (suites : Option (List CipherSuiteInfo))
    (count : Option ℕ) : Prog Stop (Comm β) Result :=
  match count, suites with
  | none, _ | some _, none => return ⟨-1, count, suites⟩
  | some nrSuites, some array => do
    if nrSuites = 0 then return ⟨-1, count, suites⟩
    let payload := if isIpmiPayload (← payloadType.elim (throw .nullUnwrap) pure) then 0 else 1
    modify fun w => { w with vars := {} }
    if ← getPages D channel payload maxCipherSuiteRecordOffset then
      let v := (← get).vars
      let data ← Lib.Buffer.load Stop.outOfBounds v.cipherSuiteData 0 v.offset
      let window ← Lib.Buffer.load Stop.outOfBounds array 0 nrSuites
      let (found, window) ← parseChannelCipherSuiteData data window
      let array ← Lib.Buffer.store Stop.outOfBounds array 0 window
      return ⟨0, some found, some array⟩
    else return ⟨-1, some 0, some array⟩

/-! ### Records -/

/-- A record of the list. The numbers of the algorithms have a tag in their upper two bits. -/
inductive Record where
  | standard (id auth integrity crypt : UInt8)
  | oem (id iana0 iana1 iana2 auth integrity crypt : UInt8)
  deriving DecidableEq

/-- The record as it is listed. -/
def Record.bytes : Record → List UInt8
  | .standard id auth integrity crypt => [standardCipherSuite, id, auth, integrity, crypt]
  | .oem id iana0 iana1 iana2 auth integrity crypt =>
    [oemCipherSuite, id, iana0, iana1, iana2, auth, integrity, crypt]

/-- What the record says. -/
def Record.info : Record → CipherSuiteInfo
  | .standard id auth integrity crypt =>
    { cipherSuiteId := id.toUInt32
      authAlg := auth &&& cipherAlgMask
      integrityAlg := integrity &&& cipherAlgMask
      cryptAlg := crypt &&& cipherAlgMask
      iana := 0 }
  | .oem id iana0 iana1 iana2 auth integrity crypt =>
    { cipherSuiteId := id.toUInt32
      authAlg := auth &&& cipherAlgMask
      integrityAlg := integrity &&& cipherAlgMask
      cryptAlg := crypt &&& cipherAlgMask
      iana := UInt32.ofNat (iana0.toNat + 256 * iana1.toNat + 65536 * iana2.toNat) }

theorem Record.bytes_ne_nil (r : Record) : r.bytes ≠ [] := by cases r <;> exact List.cons_ne_nil _ _

theorem Record.eq_of_prefix (r r' : Record) (h : r.bytes <+: r'.bytes) : r = r' := by
  cases r <;> cases r' <;> simp_all [Record.bytes, standardCipherSuite, oemCipherSuite]

/-- The records are a prefix code. -/
def suiteCode : Code Record UInt8 := ⟨Record.bytes, Record.bytes_ne_nil, Record.eq_of_prefix⟩

@[simp] theorem suiteCode_word (r : Record) : suiteCode.word r = r.bytes := rfl

/-! ### The parser -/

theorem iana_eq (a b c : UInt8) :
    a.toUInt32 ||| b.toUInt32 <<< 8 ||| c.toUInt32 <<< 16 =
      UInt32.ofNat (a.toNat + 256 * b.toNat + 65536 * c.toNat) := by
  refine UInt32.toNat_inj.mp ?_
  rw [toNat_or24, UInt32.toNat_ofNat_of_lt']
  have ha := a.toNat_lt
  have hb := b.toNat_lt
  have hc := c.toNat_lt
  rw [show UInt32.size = 4294967296 from rfl]
  omega

theorem parseCipherSuite_record (r : Record) (rest : List UInt8) :
    parseCipherSuite (r.bytes ++ rest) noSuite = .ok (r.bytes.length, r.info) := by
  cases r with
  | standard id auth integrity crypt =>
    simp [parseCipherSuite, noSuite, Record.bytes, Record.info, elem, stdRecordSize, UInt8.and_comm,
      bind, Except.bind, pure, Except.pure]
  | oem id iana0 iana1 iana2 auth integrity crypt =>
    simp [parseCipherSuite, noSuite, Record.bytes, Record.info, elem, oemRecordSize, UInt8.and_comm,
      bind, Except.bind, pure, Except.pure, iana_eq, standardCipherSuite, oemCipherSuite]

theorem parseCipherSuite_other {data : List UInt8} (hne : data ≠ [])
    (h : ∀ r : Record, ¬ r.bytes <+: data) (suite : CipherSuiteInfo) :
    parseCipherSuite data suite = .ok (0, suite) := by
  obtain ⟨start, rest, rfl⟩ := List.exists_cons_of_ne_nil hne
  have hstd : start = standardCipherSuite → (start :: rest).length < stdRecordSize := by
    rintro rfl
    by_contra hlong
    match rest with
    | id :: a :: i :: c :: tail => exact h (.standard id a i c) ⟨tail, rfl⟩
    | [] | [_] | [_, _] | [_, _, _] => exact hlong (by simp [stdRecordSize])
  have hoem : start = oemCipherSuite → (start :: rest).length < oemRecordSize := by
    rintro rfl
    by_contra hlong
    match rest with
    | id :: n0 :: n1 :: n2 :: a :: i :: c :: tail => exact h (.oem id n0 n1 n2 a i c) ⟨tail, rfl⟩
    | [] | [_] | [_, _] | [_, _, _] | [_, _, _, _] | [_, _, _, _, _] | [_, _, _, _, _, _] =>
      exact hlong (by simp [oemRecordSize])
  have helem : elem (start :: rest) 0 = .ok start := rfl
  rw [parseCipherSuite, helem]
  simp only [bind, Except.bind]
  by_cases h1 : start = standardCipherSuite
  · rw [if_pos h1, if_pos (hstd h1)]
    rfl
  · rw [if_neg h1]
    by_cases h2 : start = oemCipherSuite
    · rw [if_pos h2, if_pos (hoem h2)]
      rfl
    · rw [if_neg h2]
      rfl

theorem parseLoop_step {data : List UInt8} {fuel offset room size : ℕ} {done : List CipherSuiteInfo}
    {suite : CipherSuiteInfo} (hne : data.drop offset ≠ [])
    (hparse : parseCipherSuite (data.drop offset) noSuite = .ok (size, suite)) :
    parseLoop data (fuel + 1) offset done.length (done ++ List.replicate (room + 1) noSuite) =
      if size = 0 then .ok (done.length, done ++ suite :: List.replicate room noSuite)
      else parseLoop data fuel (offset + size) (done.length + 1)
        (done ++ suite :: List.replicate room noSuite) := by
  have hmore : offset < data.length ∧
      done.length < (done ++ List.replicate (room + 1) noSuite).length :=
    ⟨by simpa using hne, by simp⟩
  have hzero : elem (done ++ List.replicate (room + 1) noSuite) done.length = .ok noSuite := by
    simp [elem, List.replicate_succ]
  have hset : (done ++ List.replicate (room + 1) noSuite).set done.length suite =
      done ++ suite :: List.replicate room noSuite := by
    rw [List.set_append_right _ _ (Nat.le_refl _), Nat.sub_self, List.replicate_succ,
      List.set_cons_zero]
  rw [parseLoop, if_pos hmore, hzero]
  change (parseCipherSuite (data.drop offset) noSuite >>= _) = _
  rw [hparse]
  simp only [bind, Except.bind, hset]
  rfl

theorem parseLoop_stop {data : List UInt8} {fuel offset count : ℕ} {suites : List CipherSuiteInfo}
    (h : ¬ (offset < data.length ∧ count < suites.length)) :
    parseLoop data (fuel + 1) offset count suites = .ok (count, suites) := by
  rw [parseLoop, if_neg h]
  rfl

/-- The loop takes the longest message of what is left, as far as there is room. The induction is on
the message; the elements behind `done` are zero. -/
theorem parseLoop_ok {data : List UInt8} {rs : List Record} :
    ∀ (fuel offset room : ℕ) (done : List CipherSuiteInfo),
      suiteCode.Longest rs (data.drop offset) → room < fuel →
      parseLoop data fuel offset done.length (done ++ List.replicate room noSuite) =
        .ok (done.length + min rs.length room,
          done ++ (rs.take room).map Record.info ++ List.replicate (room - rs.length) noSuite) := by
  induction rs with
  | nil =>
    intro fuel offset room done hlong hfuel
    obtain ⟨fuel, rfl⟩ : ∃ n, fuel = n + 1 := ⟨fuel - 1, by omega⟩
    by_cases h : data.drop offset ≠ [] ∧ 0 < room
    · obtain ⟨room, rfl⟩ : ∃ n, room = n + 1 := ⟨room - 1, by omega⟩
      rw [parseLoop_step h.1 (parseCipherSuite_other h.1 hlong.not_prefix noSuite), if_pos rfl]
      simp [List.replicate_succ]
    · rw [parseLoop_stop]
      · simp
      · rintro ⟨hoff, hroom⟩
        exact h ⟨by simpa using hoff, by simpa using hroom⟩
  | cons r rs ih =>
    intro fuel offset room done hlong hfuel
    obtain ⟨fuel, rfl⟩ : ∃ n, fuel = n + 1 := ⟨fuel - 1, by omega⟩
    obtain ⟨rest, hdrop, hrest⟩ := hlong.tail
    rw [suiteCode_word] at hdrop
    cases room with
    | zero => rw [parseLoop_stop (by simp)]; simp
    | succ room =>
      have hne : data.drop offset ≠ [] := by simp [hdrop, r.bytes_ne_nil]
      have hsize : r.bytes.length ≠ 0 := List.length_eq_zero_iff.not.mpr r.bytes_ne_nil
      have hnext : data.drop (offset + r.bytes.length) = rest := by
        rw [← List.drop_drop, hdrop, List.drop_left]
      have hrec := ih fuel (offset + r.bytes.length) room (done ++ [r.info]) (hnext ▸ hrest)
        (Nat.lt_of_succ_lt_succ hfuel)
      rw [parseLoop_step hne (hdrop ▸ parseCipherSuite_record r rest), if_neg hsize]
      simp only [List.length_append, List.length_singleton, List.append_assoc,
        List.singleton_append] at hrec
      rw [hrec]
      simp [Nat.add_assoc, Nat.add_comm 1]

theorem parseChannelCipherSuiteData_ok {data : List UInt8} {rs : List Record}
    (h : suiteCode.Longest rs data) (suites : List CipherSuiteInfo) :
    parseChannelCipherSuiteData data suites =
      .ok (min rs.length suites.length,
        (rs.take suites.length).map Record.info ++ List.replicate
          (suites.length - rs.length) noSuite) := by
  have hloop := parseLoop_ok (suites.length + 1) 0 suites.length [] h (Nat.lt_succ_self _)
  simpa [parseChannelCipherSuiteData] using hloop

/-! ### The pages -/

/-- A reply that the loop takes. -/
def accepted (r : Option Response) : Bool :=
  r.elim false fun rsp => decide (rsp.ccode = 0 ∧ 1 ≤ rsp.dataLen ∧
    rsp.dataLen ≤ 1 + (maxCipherSuiteDataLen : ℤ))

/-- What a reply adds to the list. -/
def page (r : Option Response) : List UInt8 :=
  r.elim [] fun rsp => Lib.Mem.read rsp.data 1 (rsp.dataLen - 1).toNat

/-- The bytes of the replies. -/
def received (evs : List (Request × Option Response)) : List UInt8 := evs.flatMap fun e => page e.2

/-- The pages from the one with the number `k` on, and whether the list was received. -/
inductive Paged (channel payload : UInt8) : ℕ → List (Request × Option Response) → Bool → Prop
  | refused {k : ℕ} {r : Option Response} (h : accepted r = false) :
    Paged channel payload k [(pageRequest channel payload (UInt8.ofNat k), r)] false
  | last {k : ℕ} {r : Option Response} (h : accepted r = true)
    (hend : (page r).length < maxCipherSuiteDataLen ∨ maxCipherSuiteRecordOffset ≤ k + 1) :
    Paged channel payload k [(pageRequest channel payload (UInt8.ofNat k), r)] true
  | more {k : ℕ} {r : Option Response} {evs : List (Request × Option Response)} {ok : Bool}
    (h : accepted r = true) (hfull : (page r).length = maxCipherSuiteDataLen)
    (hk : k + 1 < maxCipherSuiteRecordOffset) (hrest : Paged channel payload (k + 1) evs ok) :
    Paged channel payload k ((pageRequest channel payload (UInt8.ofNat k), r) :: evs) ok

section
variable {channel payload : UInt8} {k : ℕ} {evs : List (Request × Option Response)} {ok : Bool}

theorem length_page_le {r : Option Response} (h : accepted r = true) :
    (page r).length ≤ maxCipherSuiteDataLen := by
  cases r with
  | none => cases h
  | some rsp =>
    obtain ⟨-, -, hle⟩ := of_decide_eq_true h
    rw [page, Option.elim, Lib.Mem.length_read]
    omega

theorem Paged.ok_iff (h : Paged channel payload k evs ok) :
    ok = true ↔ ∀ e ∈ evs, accepted e.2 = true := by
  induction h with
  | refused h => simp [h]
  | last h hend => simp [h]
  | more h hfull hk hrest ih => simp [h, ih]

theorem Paged.length_le (h : Paged channel payload k evs ok) (hk : k < maxCipherSuiteRecordOffset) :
    evs.length ≤ maxCipherSuiteRecordOffset - k := by
  induction h with
  | refused h => exact Nat.le_sub_of_add_le (by rw [List.length_singleton]; omega)
  | last h hend => exact Nat.le_sub_of_add_le (by rw [List.length_singleton]; omega)
  | more h hfull hk' hrest ih =>
    have hle := ih hk'
    rw [List.length_cons]
    omega

theorem Paged.request (h : Paged channel payload k evs ok) {i : ℕ} {e : Request × Option Response}
    (he : evs[i]? = some e) : e.1 = pageRequest channel payload (UInt8.ofNat (k + i)) := by
  induction h generalizing i with
  | refused h | last h hend =>
    cases i with
    | zero => rw [← Option.some.inj he]; rfl
    | succ i => cases he
  | more h hfull hk' hrest ih =>
    cases i with
    | zero => rw [← Option.some.inj he]; rfl
    | succ i => rw [ih (by simpa using he), Nat.add_assoc, Nat.add_comm 1]

/-- A reply that is a page of a listing. -/
def ServesPage (listing : List UInt8) (i : ℕ) (r : Option Response) : Prop :=
  accepted r = true ∧ page r = (listing.drop (maxCipherSuiteDataLen * i)).take maxCipherSuiteDataLen

theorem Paged.received_eq (h : Paged channel payload k evs ok) {listing : List UInt8}
    (hlen : listing.length ≤ maxCipherSuiteRecordOffset * maxCipherSuiteDataLen)
    (hserves : ∀ i e, evs[i]? = some e → ServesPage listing (k + i) e.2) :
    ok = true ∧ received evs = listing.drop (maxCipherSuiteDataLen * k) := by
  induction h with
  | refused h =>
    have haccepted := (hserves 0 _ rfl).1
    rw [h] at haccepted
    cases haccepted
  | @last k r h hend =>
    have hpage : page r = (listing.drop (maxCipherSuiteDataLen * k)).take maxCipherSuiteDataLen :=
      (hserves 0 _ rfl).2
    have hshort : (listing.drop (maxCipherSuiteDataLen * k)).length ≤ maxCipherSuiteDataLen := by
      rw [hpage, List.length_take, List.length_drop] at hend
      rw [List.length_drop]
      unfold maxCipherSuiteDataLen maxCipherSuiteRecordOffset at *
      omega
    rw [received, List.flatMap_singleton, hpage, List.take_of_length_le hshort]
    exact ⟨rfl, rfl⟩
  | @more k r evs ok h hfull hk hrest ih =>
    have hpage : page r = (listing.drop (maxCipherSuiteDataLen * k)).take maxCipherSuiteDataLen :=
      (hserves 0 _ rfl).2
    obtain ⟨hok, heq⟩ := ih fun i e he => by
      have hnext := hserves (i + 1) e he
      rwa [← Nat.add_assoc, Nat.add_right_comm] at hnext
    refine ⟨hok, ?_⟩
    rw [received, List.flatMap_cons, ← received, heq, hpage, Nat.mul_add, Nat.mul_one,
      ← List.drop_drop, List.take_append_drop]

end

/-! ### The loop -/

/-- The variables behind a page. -/
def Vars.next (v : Vars) (cells : List UInt8) (chunk : ℕ) : Vars :=
  { cipherSuiteData := cells, offset := v.offset + chunk, listIndex := v.listIndex + 1 }

/-- What holds of the variables in front of the page with the number `k`. -/
structure Vars.At (v : Vars) (k : ℕ) : Prop where
  listIndex : v.listIndex = UInt8.ofNat k
  lt : k < maxCipherSuiteRecordOffset
  offset : v.offset ≤ maxCipherSuiteDataLen * k
  cells : v.cipherSuiteData.length = maxCipherSuiteRecordOffset * maxCipherSuiteDataLen

theorem ofNat_succ (k : ℕ) : UInt8.ofNat k + 1 = UInt8.ofNat (k + 1) := (UInt8.ofNat_add k 1).symm

theorem Vars.At.toNat {v : Vars} {k : ℕ} (h : v.At k) : v.listIndex.toNat = k := by
  have hlt := h.lt
  unfold maxCipherSuiteRecordOffset at hlt
  rw [h.listIndex, UInt8.toNat_ofNat_of_lt' (by rw [show UInt8.size = 256 from rfl]; omega)]

theorem Vars.At.store {v : Vars} {k : ℕ} (hv : v.At k) {r : Option Response}
    (h : accepted r = true) :
    ∃ cells, Lib.Buffer.store Stop.outOfBounds v.cipherSuiteData v.offset (page r) = .ok cells ∧
      cells.take (v.offset + (page r).length) = v.cipherSuiteData.take v.offset ++ page r ∧
      v.offset + (page r).length ≤ cells.length ∧
      (k + 1 < maxCipherSuiteRecordOffset → (v.next cells (page r).length).At (k + 1)) := by
  have hpage := length_page_le h
  have hoffset := hv.offset
  have hlt := hv.lt
  have hcells := hv.cells
  have hfit : v.offset + (page r).length ≤ v.cipherSuiteData.length := by
    unfold maxCipherSuiteDataLen maxCipherSuiteRecordOffset at *
    omega
  have hlen : (v.cipherSuiteData.take v.offset ++ page r).length = v.offset + (page r).length := by
    rw [List.length_append, List.length_take_of_le (by omega)]
  have hall : (v.cipherSuiteData.take v.offset ++ page r ++
      v.cipherSuiteData.drop (v.offset + (page r).length)).length = v.cipherSuiteData.length := by
    rw [List.length_append, hlen, List.length_drop]
    omega
  refine ⟨_, if_pos hfit, ?_, hall ▸ hfit, fun hk => ⟨?_, hk, ?_, hall.trans hcells⟩⟩
  · rw [← hlen, List.take_left]
  · rw [Vars.next, hv.listIndex, ofNat_succ]
  · change v.offset + (page r).length ≤ _
    rw [Nat.mul_succ]
    omega

section
variable (D : Device β Request (Option Response)) (channel payload : UInt8) (fuel : ℕ) {w : Comm β} {k : ℕ}

theorem get_run (w : Comm β) : (get : Prog Stop (Comm β) (Comm β)) w = .ok (w, w) := rfl

theorem ask_run (q : Request) (w : Comm β) :
    (ask D q : Prog Stop (Comm β) (Option Response)) w = .ok ((D w.device q).1, w.asked D q) := rfl

theorem getPages_refused (hv : w.vars.At k)
    (h : accepted (D w.device (pageRequest channel payload (UInt8.ofNat k))).1 = false) :
    getPages D channel payload (fuel + 1) w =
      .ok (false, w.asked D (pageRequest channel payload (UInt8.ofNat k))) := by
  rw [getPages, bind_run (get_run w), bind_run (ask_run D _ w), hv.listIndex]
  cases hr : (D w.device (pageRequest channel payload (UInt8.ofNat k))).1 with
  | none => rfl
  | some rsp =>
    rw [hr] at h
    have hbad : rsp.ccode ≠ 0 ∨ rsp.dataLen < 1 ∨ rsp.dataLen > 1 + maxCipherSuiteDataLen := by
      by_contra hnot
      rw [not_or, not_or, not_not, Int.not_lt, Int.not_lt] at hnot
      exact of_decide_eq_false h hnot
    simp only [if_pos hbad]
    rfl

/-- A reply that is taken is put into the buffer; the loop goes on behind a full page. -/
theorem getPages_accepted {r : Option Response} {cells : List UInt8} (hv : w.vars.At k)
    (hr : (D w.device (pageRequest channel payload (UInt8.ofNat k))).1 = r) (h : accepted r = true)
    (hstore : Lib.Buffer.store Stop.outOfBounds w.vars.cipherSuiteData w.vars.offset (page r) = .ok cells) :
    getPages D channel payload (fuel + 1) w =
      let w' := { w.asked D (pageRequest channel payload (UInt8.ofNat k)) with
        vars := w.vars.next cells (page r).length }
      if (page r).length = maxCipherSuiteDataLen ∧ k + 1 < maxCipherSuiteRecordOffset then
        getPages D channel payload fuel w'
      else .ok (true, w') := by
  cases r with
  | none => cases h
  | some rsp =>
    obtain ⟨hcode, hlow, hhigh⟩ := of_decide_eq_true h
    have hgood : ¬ (rsp.ccode ≠ 0 ∨ rsp.dataLen < 1 ∨ rsp.dataLen > 1 + maxCipherSuiteDataLen) := by
      rw [not_or, not_or, not_not, Int.not_lt, Int.not_lt]
      exact ⟨hcode, hlow, hhigh⟩
    have hlen : (page (some rsp)).length = (rsp.dataLen - 1).toNat := Lib.Mem.length_read _ _ _
    have hfit : ¬ bufSize < 1 + (rsp.dataLen - 1).toNat := by
      unfold bufSize
      unfold maxCipherSuiteDataLen at hhigh
      omega
    have hlt := hv.lt
    have hindex : ¬ w.vars.listIndex = 255 := fun h255 => by
      have htoNat := hv.toNat
      rw [h255] at htoNat
      exact absurd (htoNat ▸ hlt) (by decide)
    have hsucc : (w.vars.listIndex + 1).toNat < maxCipherSuiteRecordOffset ↔ k + 1 < maxCipherSuiteRecordOffset := by
      unfold maxCipherSuiteRecordOffset at hlt ⊢
      rw [hv.listIndex, ofNat_succ, UInt8.toNat_ofNat_of_lt' (by rw [show UInt8.size = 256 from rfl]; omega)]
    have hfull : rsp.dataLen = 1 + maxCipherSuiteDataLen ↔ (rsp.dataLen - 1).toNat = maxCipherSuiteDataLen := by
      omega
    have hvars : w.vars.next cells (rsp.dataLen - 1).toNat = ⟨cells, w.vars.offset + (rsp.dataLen - 1).toNat,
        UInt8.ofNat k + 1⟩ := by rw [Vars.next, hv.listIndex]
    rw [getPages, bind_run (get_run w), bind_run (ask_run D _ w), hv.listIndex, hr]
    rw [hv.listIndex] at hindex hsucc
    simp only [if_neg hgood, if_neg hfit, if_neg hindex]
    change ((liftM (Lib.Buffer.store Stop.outOfBounds w.vars.cipherSuiteData w.vars.offset (page (some rsp))) :
      Prog Stop (Comm β) (List UInt8)) >>= _) _ = _
    rw [hstore]
    simp only [hfull, hsucc, hlen, hvars]
    split_ifs with hmore <;> rfl

/-- The loop asks page for page and appends what it takes. The induction is on the fuel, which the
pages that are left use up; a page moves the offset by at most sixteen. -/
theorem getPages_ok : ∀ (fuel k : ℕ) (w : Comm β), k + fuel = maxCipherSuiteRecordOffset →
    w.vars.At k →
    ∃ ok w' evs, getPages D channel payload fuel w = .ok (ok, w') ∧ w'.log = w.log ++ evs ∧
      Paged channel payload k evs ok ∧
      (ok = true → w'.vars.offset ≤ w'.vars.cipherSuiteData.length ∧
        w'.vars.cipherSuiteData.take w'.vars.offset =
          w.vars.cipherSuiteData.take w.vars.offset ++ received evs) := by
  intro fuel
  induction fuel with
  | zero =>
    intro k w hk hv
    exact absurd hv.lt (by omega)
  | succ fuel ih =>
    intro k w hk hv
    cases h : accepted (D w.device (pageRequest channel payload (UInt8.ofNat k))).1 with
    | false =>
      exact ⟨false, _, _, getPages_refused D channel payload fuel hv h, rfl, .refused h,
        fun h => absurd h Bool.false_ne_true⟩
    | true =>
      obtain ⟨cells, hstore, htake, hle, hnext⟩ := hv.store h
      have hrun := getPages_accepted D channel payload fuel hv rfl h hstore
      by_cases hmore : (page (D w.device (pageRequest channel payload (UInt8.ofNat k))).1).length =
          maxCipherSuiteDataLen ∧ k + 1 < maxCipherSuiteRecordOffset
      · obtain ⟨ok, w', evs, hgo, hlog, hpaged, hdata⟩ :=
          ih (k + 1) { w.asked D _ with vars := _ } (by omega)
            (hnext hmore.2)
        refine ⟨ok, w', _, hrun.trans ((if_pos hmore).trans hgo), ?_,
          .more h hmore.1 hmore.2 hpaged, fun hok => ?_⟩
        · rw [hlog, World.asked_log, List.append_assoc]
          rfl
        · obtain ⟨hfit, hcells⟩ := hdata hok
          refine ⟨hfit, hcells.trans ?_⟩
          change cells.take (w.vars.offset + _) ++ _ = _
          rw [htake, List.append_assoc]
          rfl
      · have hpage := length_page_le h
        refine ⟨true, _, _, hrun.trans (if_neg hmore), rfl, .last h (by omega), fun _ => ⟨hle, ?_⟩⟩
        rw [received, List.flatMap_singleton]
        exact htake

end

/-! ### Discovery -/

/-- The result for a list of records: as many as there is room for, and zeros behind them. -/
def listed (rs : List Record) (nr : ℕ) (array : List CipherSuiteInfo) : Result where
  rc := 0
  count := some (min rs.length nr)
  suites :=
    some ((rs.take nr).map Record.info ++ List.replicate (nr - rs.length) noSuite ++ array.drop nr)

/-- What a call has done, when it returns with room for `nr` suites in the array and the exchanges
`evs`. -/
structure Lists (channel payload : UInt8) (nr : ℕ) (array : List CipherSuiteInfo)
    (evs : List (Request × Option Response)) (res : Result) : Prop where
  /-- It asks for at most 64 pages, one after the other. -/
  length : evs.length ≤ maxCipherSuiteRecordOffset
  request : ∀ i e, evs[i]? = some e → e.1 = pageRequest channel payload (UInt8.ofNat i)
  /-- A list of records that is served in pages is returned. -/
  served : 0 < nr → ∀ rs, (suiteCode.encode rs).length ≤ maxCipherSuiteRecordOffset *
    maxCipherSuiteDataLen →
    (∀ i e, evs[i]? = some e → ServesPage (suiteCode.encode rs) i e.2) → res = listed rs nr array
  /-- Of whatever is received, if every reply is taken, the longest message is returned. -/
  received : 0 < nr → (∀ e ∈ evs, accepted e.2 = true) → ∀ rs, suiteCode.Longest rs (received evs) →
    res = listed rs nr array
  /-- A reply that is not taken, or none, fails the call, and nothing is returned. -/
  refused : nr = 0 ∨ (∃ e ∈ evs, accepted e.2 = false) → res = ⟨-1, some 0, some array⟩

theorem lift_run {α : Type} {x : Except Stop α} {a : α} (h : x = .ok a) (w : Comm β) :
    (liftM x : Prog Stop (Comm β) α) w = .ok (a, w) := by rw [h]; rfl

/-- With the pages in front of it, the parser gets what was received and the array the records. -/
theorem getChannelCipherSuites_eq (D : Device β Request (Option Response))
    {payloadType : List UInt8} {channel : UInt8}
    {array : List CipherSuiteInfo} {nr : ℕ} (hnr : nr ≤ array.length) (hpos : nr ≠ 0)
    {w w' : Comm β} {ok : Bool}
    (hpages : getPages D channel (if isIpmiPayload payloadType then 0
      else 1) maxCipherSuiteRecordOffset
      { w with vars := {} } = .ok (ok, w')) (hfit :
      ok = true → w'.vars.offset ≤ w'.vars.cipherSuiteData.length)
    {rs : List Record} (hrs : suiteCode.Longest rs (w'.vars.cipherSuiteData.take w'.vars.offset)) :
    getChannelCipherSuites D (some payloadType) channel (some array) (some nr) w =
      .ok (if ok then listed rs nr array else ⟨-1, some 0, some array⟩, w') := by
  rw [getChannelCipherSuites]
  simp only [if_neg hpos]
  have htype : ((some payloadType).elim (throw Stop.nullUnwrap) pure : Prog Stop (Comm β)
      (List UInt8)) w =
      .ok (payloadType, w) := rfl
  have hinit : (modify fun w => { w with vars := {} } : Prog Stop (Comm β) PUnit) w =
      .ok (⟨⟩, { w with vars := {} }) := rfl
  rw [bind_run htype, bind_run hinit, bind_run hpages]
  cases ok with
  | false => rfl
  | true =>
    have hdata : Lib.Buffer.load Stop.outOfBounds w'.vars.cipherSuiteData 0 w'.vars.offset =
        .ok (w'.vars.cipherSuiteData.take w'.vars.offset) :=
          if_pos (by rw [Nat.zero_add]; exact hfit rfl)
    have hwindow : Lib.Buffer.load Stop.outOfBounds array 0 nr = .ok (array.take nr) :=
      if_pos (by rwa [Nat.zero_add])
    have hlen : (array.take nr).length = nr := List.length_take_of_le hnr
    have hparse := parseChannelCipherSuiteData_ok hrs (array.take nr)
    rw [hlen] at hparse
    have hstored :
        ((rs.take nr).map Record.info ++ List.replicate (nr - rs.length) noSuite).length = nr := by
      rw [List.length_append, List.length_map, List.length_take, List.length_replicate]
      omega
    have hstore : Lib.Buffer.store Stop.outOfBounds array 0
        ((rs.take nr).map Record.info ++ List.replicate (nr - rs.length) noSuite) =
        .ok ((rs.take nr).map Record.info ++ List.replicate (nr - rs.length) noSuite ++
          array.drop nr) := by
      have hbehind :=
        Lib.Buffer.store_behind Stop.outOfBounds [] (Nat.le_trans (Nat.le_of_eq hstored) hnr)
      rwa [hstored] at hbehind
    simp only [if_true]
    rw [bind_run (show (get : Prog Stop (Comm β) (Comm β)) w' = .ok (w', w') from rfl),
      bind_run (lift_run hdata w'), bind_run (lift_run hwindow w'), bind_run (lift_run hparse w')]
    exact (bind_run (lift_run hstore w')).trans rfl

/-- The suites of a channel are read as they are listed, with room for `nr` of them; the array has
that room. -/
theorem getChannelCipherSuites_lists (D : Device β Request (Option Response))
    (payloadType : List UInt8) (channel : UInt8) (array : List CipherSuiteInfo) (nr : ℕ)
    (hnr : nr ≤ array.length) (w : Comm β) :
    ∃ res w' evs, getChannelCipherSuites D (some payloadType) channel (some array)
      (some nr) w = .ok (res, w') ∧
      w'.log = w.log ++ evs ∧
      Lists channel (if isIpmiPayload payloadType then 0 else 1) nr array evs res := by
  rcases Nat.eq_zero_or_pos nr with rfl | hpos
  · exact ⟨⟨-1, some 0, some array⟩, w, [], rfl, (List.append_nil _).symm,
      Nat.zero_le _, by simp, by simp, by simp,
      fun _ => rfl⟩
  obtain ⟨ok, w', evs, hpages, hlog, hpaged, hdata⟩ :=
    getPages_ok D channel (if isIpmiPayload payloadType then 0 else 1) maxCipherSuiteRecordOffset 0
      { w with vars := {} } rfl ⟨rfl, by decide, Nat.zero_le _, List.length_replicate⟩
  obtain ⟨rs, hrs⟩ := exists_longest (C := suiteCode) (w'.vars.cipherSuiteData.take w'.vars.offset)
  have hrun :=
    getChannelCipherSuites_eq D hnr (Nat.ne_of_gt hpos) hpages (fun hok => (hdata hok).1) hrs
  have hlisted : ∀ rs', ok = true → suiteCode.Longest rs' (received evs) →
      (if ok then listed rs nr array else ⟨-1, some 0, some array⟩) = listed rs' nr array := by
    rintro rs' rfl hrs'
    rw [(hdata rfl).2] at hrs
    rw [if_pos rfl, hrs.unique hrs']
  refine ⟨_, w', evs, hrun, hlog, hpaged.length_le (by decide), fun i e he => ?_,
    fun _ rs' hlen hserves => ?_,
    fun _ hall rs' hrs' => hlisted rs' (hpaged.ok_iff.mpr hall) hrs', ?_⟩
  · rw [hpaged.request he, Nat.zero_add]
  · obtain ⟨hok, heq⟩ := hpaged.received_eq hlen fun i e he => by
      rw [Nat.zero_add]; exact hserves i e he
    refine hlisted rs' hok ?_
    rw [heq, Nat.mul_zero, List.drop_zero]
    exact longest_encode rs'
  · rintro (hzero | ⟨e, he, hrefused⟩)
    · omega
    · have hok : ok = false := by
        refine Bool.eq_false_iff.mpr fun hok => ?_
        rw [hpaged.ok_iff.mp hok e he] at hrefused
        cases hrefused
      rw [hok]
      rfl

/-! ### A list that breaks off -/

/-- A reply with the bytes of a page. -/
def pageReply (channel : UInt8) (bytes : List UInt8) : Response where
  data i := ((channel :: bytes)[i]?).getD 0
  dataLen := (1 + bytes.length : ℕ)

/-- A device that serves a listing in pages, up to one page that it has no answer for. -/
def serving (listing : List UInt8) (missing : ℕ) : Device Unit Request (Option Response) :=
  fun _ q =>
  let i := ((q.data[2]?).getD 0 &&& 0x3f).toNat
  (if i = missing then none
    else some (pageReply ((q.data[0]?).getD 0)
      ((listing.drop (maxCipherSuiteDataLen * i)).take maxCipherSuiteDataLen)),
    ())

/-- Three records of the standard and one of a manufacturer. -/
def fourSuites : List Record :=
  [.standard 1 1 0 0, .standard 2 0x01 0x41 0, .standard 3 1 0x41 0x81,
    .oem 0x80 0x57 0x01 0 1 0x41 0x81]

/-- The longest message of what is received is returned, as far as there is room. -/
def ReturnsReceived (D : Device β Request (Option Response)) (payloadType : List UInt8)
    (channel : UInt8) (array : List CipherSuiteInfo) (nr : ℕ) (w : Comm β) : Prop :=
  ∃ res w' evs, getChannelCipherSuites D (some payloadType) channel (some array) (some nr) w =
    .ok (res, w') ∧
    w'.log = w.log ++ evs ∧ ∃ rs, suiteCode.Longest rs (received evs) ∧
      res.count = (listed rs nr array).count ∧ res.suites = (listed rs nr array).suites

/-- The second page does not come, and the three records of the first are lost. -/
theorem fourSuites_lost :
    ¬ ReturnsReceived (serving (suiteCode.encode fourSuites) 1) (ascii "ipmi") 0x0e
      (List.replicate 4 noSuite) 4 ⟨{}, (), []⟩ := by
  rintro ⟨res, w', evs, hrun, hlog, rs, hrs, hcount, -⟩
  have heval : returns (getChannelCipherSuites (serving (suiteCode.encode fourSuites) 1)
      (some (ascii "ipmi")) 0x0e
      (some (List.replicate 4 noSuite)) (some 4)) ⟨{}, (), []⟩
      (fun res w => res.count = some 0 ∧ received w.log = (suiteCode.encode fourSuites).take 16) = true := by
    decide +kernel
  obtain ⟨res1, w1, hrun1, hend⟩ := exists_of_returns heval
  obtain ⟨rfl, rfl⟩ := Prod.mk.inj (Except.ok.inj (hrun1.symm.trans hrun))
  obtain ⟨hnone, hreceived⟩ := of_decide_eq_true hend
  rw [hlog, List.nil_append] at hreceived
  have hthree : fourSuites.take 3 <+: rs := hrs.2 _ (by rw [hreceived]; decide +kernel)
  have hlen : 3 ≤ rs.length := hthree.length_le
  rw [hnone] at hcount
  have hzero : 0 = min rs.length 4 := Option.some.inj hcount
  omega

/-- With room for three, the first three are returned. -/
theorem getChannelCipherSuites_lists_four :
    ∃ res w' evs, getChannelCipherSuites (serving (suiteCode.encode fourSuites) 64)
      (some (ascii "ipmi")) 0x0e
        (some (List.replicate 3 noSuite)) (some 3) ⟨{}, (), []⟩ = .ok (res, w') ∧
        w'.log = [] ++ evs ∧
      Lists 0x0e (if isIpmiPayload (ascii "ipmi") then 0
        else 1) 3 (List.replicate 3 noSuite) evs res :=
  getChannelCipherSuites_lists _ _ _ _ 3 (by decide) _

end Ipmitool.Cmd.Channel
