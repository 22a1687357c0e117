import Ipmitool.Core.Interface
import Mathlib.Tactic.IntervalCases

/-! # EEPROM images

`readFile` and `writeFile` of `cmd/gendev.zig`, which copy the image of an EEPROM to a file and
back, and `masterWriteRead` of `cmd/raw.zig`, which they use. A locator of the repository says which
EEPROM it is and at which address of which bus; `eepromInfo` knows its size. The image is
transferred in pieces, each with three attempts.

`addressing` is what holds of the addresses of an EEPROM that `addressRangeValid` accepts, and
`copyLoop_ok` says what is asked in a run against any device, with files of which every operation
may fail. -/

namespace Ipmitool.Cmd.Gendev

open Ipmitool.Core.Types Ipmitool.Core.Interface Ipmitool.Lib.Machine Ipmitool.Lib.Dialogue

variable {β γ : Type}

/-! ### The code -/

def maxTransfer : ℕ := 16
def retryCount : ℕ := 3
def i2cMasterMaxSize : ℕ := 0x40

/-- `GenLocator`. -/
structure GenLocator where
  slave : UInt8
  flags : UInt8
  spanFlags : UInt8
  deviceType : UInt8
  deriving DecidableEq

def GenLocator.channel (dev : GenLocator) : UInt8 := dev.flags >>> 5

def GenLocator.bus (dev : GenLocator) : UInt8 := dev.flags &&& 7

def GenLocator.span (dev : GenLocator) : UInt8 := dev.spanFlags >>> 5

/-- `Eeprom`. -/
structure Eeprom where
  size : ℕ
  pageSize : ℕ
  addressLength : ℕ
  span : UInt8
  deriving DecidableEq

/-- The size, the size of a page and the number of address bytes of a type of EEPROM. -/
def eepromSpec (deviceType : ℕ) : Option (ℕ × ℕ × ℕ) :=
  match deviceType with
  | 0x08 => some (128, 8, 1)
  | 0x09 => some (256, 8, 1)
  | 0x0a => some (512, 8, 2)
  | 0x0b => some (1024, 8, 2)
  | 0x0c => some (2048, 256, 2)
  | 0x0d => some (2048, 256, 2)
  | 0x0e => some (4096, 8, 2)
  | 0x0f => some (8192, 32, 2)
  | 0xc0 => some (16384, 64, 2)
  | 0xc1 => some (32748, 64, 2)
  | 0xc2 => some (65536, 128, 2)
  | 0xc3 => some (131072, 128, 2)
  | _ => none

/-- `eepromInfo`. -/
def eepromInfo (dev : GenLocator) : Option Eeprom :=
  (eepromSpec dev.deviceType.toNat).map fun spec => ⟨spec.1, spec.2.1, spec.2.2, dev.span⟩

/-- `busByte`. -/
def busByte (dev : GenLocator) : UInt8 := dev.channel <<< 4 ||| dev.bus <<< 1 ||| 1

/-- `addressRangeValid`. -/
def addressRangeValid (dev : GenLocator) (info : Eeprom) : Bool :=
  let addressable := 1 <<< (info.addressLength * 8)
  if info.size ≤ addressable then true
  else
    let banks := info.span.toNat + 1
    ¬ (banks ≤ 1 ∨ info.size % banks ≠ 0 ∨ info.size / banks > addressable ∨
      dev.slave.toNat + info.span.toNat * 2 > 255)

/-- `bank_size`, of an EEPROM that is larger than its offsets. -/
def bankSize (info : Eeprom) : ℕ := info.size / (info.span.toNat + 1)

/-- `deviceAddress`; an address that is no byte is a fault. -/
def deviceAddress (dev : GenLocator) (info : Eeprom) (offset : ℕ) : Except Fault UInt8 :=
  if info.size ≤ 65536 then .ok dev.slave
  else
    let address := dev.slave.toNat + 2 * (offset / bankSize info)
    if address ≤ 255 then .ok (UInt8.ofNat address) else .error .overflow

/-- `memoryOffset`. -/
def memoryOffset (info : Eeprom) (offset : ℕ) : ℕ :=
  if info.size ≤ 65536 then offset else offset % bankSize info

/-- `transferSize`. -/
def transferSize (info : Eeprom) (offset : ℕ) : ℕ :=
  min (info.size - offset) (min info.pageSize maxTransfer)

/-- The bytes of an offset, as `readFile` and `writeFile` put them in front of the data: the low
byte first. -/
def addressBytes (info : Eeprom) (address : ℕ) : List UInt8 :=
  if info.addressLength = 2 then [UInt8.ofNat address, UInt8.ofNat (address >>> 8)]
    else [UInt8.ofNat address]

/-- The request of `masterWriteRead`. -/
def masterRequest (bus addr : UInt8) (wdata : List UInt8) (rsize : ℕ) : Command where
  netfn := netfnAppCmd
  cmd := 0x52
  data := [bus, addr, UInt8.ofNat rsize] ++ wdata

/-- A reply that is an answer for `masterWriteRead`. -/
def answer (r : Option Reply) : Option Reply := r.filter fun rsp => rsp.ccode = 0

/-- `masterWriteRead`. -/
def masterWriteRead (B : Bmc β) (bus addr : UInt8) (wdata : List UInt8) (rsize : ℕ) :
    Cmd γ β (Option Reply) := do
  if rsize > i2cMasterMaxSize ∨ wdata.length > i2cMasterMaxSize then return none
  return answer (← sendrecv B (masterRequest bus addr wdata rsize))

/-- The attempts of `transfer`. -/
def attempts (B : Bmc β) (bus addr : UInt8) (wr : List UInt8) (readLen : ℕ) :
    ℕ → Cmd γ β (Option Reply)
  | 0 => return none
  | n + 1 => do
    match ← masterWriteRead B bus addr wr readLen with
    | some rsp => return some rsp
    | none => attempts B bus addr wr readLen n

/-- `transfer`. -/
def transfer (B : Bmc β) (dev : GenLocator) (info : Eeprom) (offset : ℕ) (wr : List UInt8)
    (readLen : ℕ) :
    Cmd γ β (Option Reply) := do
  let addr ← deviceAddress dev info offset
  attempts B (busByte dev) addr wr readLen retryCount

/-- The C library: the file that is read, and which operations succeed, at which offset or with
which text. -/
structure Files where
  opens : Bool
  seeksEnd : Bool
  seeksSet : Bool
  content : List UInt8
  reads : ℕ → Bool
  writes : ℕ → Bool
  prints : ℕ → Bool
  finishes : Bool → ℕ → Bool
  closes : Bool

/-- How the loop over an image ended. -/
structure Ended where
  counter : ℕ
  percent : ℕ
  rc : ℤ
  outputFailed : Bool

/-- The loop over an image, as far as the fuel lasts; `step` transfers a piece. -/
def copyLoop (info : Eeprom) (files : Files) (step : ℕ → ℕ → Cmd γ β Bool) :
    ℕ → ℕ → ℕ → ℕ → Cmd γ β (Option Ended)
  | 0, _, _, _ => return none
  | fuel + 1, counter, previous, percent => do
    if counter < info.size then
      let chunk := transferSize info counter
      if ← step counter chunk then
        -- `progress`
        let percent := counter * 100 / info.size
        if percent ≠ previous ∧ files.prints percent = false then
          return some ⟨counter, percent, -1, true⟩
        else copyLoop info files step fuel (counter + chunk) percent percent
      else return some ⟨counter, percent, -1, false⟩
    else return some ⟨counter, percent, 0, false⟩

/-- The end of `readFile` and `writeFile`. -/
def finish (info : Eeprom) (files : Files) (e : Ended) : ℤ :=
  let rc :=
    if e.outputFailed = false ∧ files.finishes (e.counter = info.size) e.percent = false then -1
    else e.rc
  if files.closes then rc else -1

/-- A piece of `readFile`. A write that fails leaves the file as it is. -/
def readStep (B : Bmc β) (dev : GenLocator) (info : Eeprom) (files : Files) (counter chunk : ℕ) :
    Cmd (List UInt8) β Bool := do
  match ← transfer B dev info counter (addressBytes info (memoryOffset info counter)) chunk with
  | none => return false
  | some rsp =>
    if rsp.dataLen < chunk then return false
    if bufSize < chunk then throw .outOfBounds
    if files.writes counter = false then return false
    modify fun w => { w with vars := w.vars ++ Lib.Mem.read rsp.data 0 chunk }
    return true

/-- `readFile`; the variable is the file that is written. -/
def readFile (B : Bmc β) (dev : GenLocator) (files : Files) : Cmd (List UInt8) β (Option ℤ) :=
  match eepromInfo dev with
  | none => return some (-1)
  | some info => do
    if addressRangeValid dev info = false ∨ files.opens = false then return some (-1)
    modify fun w => { w with vars := [] }
    return (← copyLoop info files (readStep B dev info files) (info.size + 1) 0 101 0).map
      (finish info files)

/-- A piece of `writeFile`. -/
def writeStep (B : Bmc β) (dev : GenLocator) (info : Eeprom) (files : Files) (counter chunk : ℕ) :
    Cmd (List UInt8) β Bool := do
  let data := (files.content.drop counter).take chunk
  if files.reads counter = false ∨ data.length ≠ chunk then return false
  return (← transfer B dev info counter (addressBytes info (memoryOffset info counter) ++
    data) 0).isSome

/-- `writeFile`. -/
def writeFile (B : Bmc β) (dev : GenLocator) (files : Files) : Cmd (List UInt8) β (Option ℤ) :=
  match eepromInfo dev with
  | none => return some (-1)
  | some info => do
    if addressRangeValid dev info = false ∨ files.opens = false ∨ files.seeksEnd = false ∨
        files.content.length ≠ info.size ∨ files.seeksSet = false then
      return some (-1)
    return (← copyLoop info files (writeStep B dev info files) (info.size + 1) 0 101 0).map
      (finish info files)

/-! ### Addresses -/

/-- The largest piece. -/
def pieceSize (info : Eeprom) : ℕ := min info.pageSize maxTransfer

/-- What is used of the table and of the check of the address range: pieces divide pages and banks,
offsets fit into their bytes, and the addresses of the banks are bytes. -/
structure Geometry (dev : GenLocator) (info : Eeprom) : Prop where
  length : info.addressLength = 1 ∨ info.addressLength = 2
  piece_pos : 0 < pieceSize info
  piece_page : pieceSize info ∣ info.pageSize
  small : info.size ≤ 65536 → info.size ≤ 256 ^ info.addressLength
  bank_pos : 65536 < info.size → 0 < bankSize info
  piece_bank : 65536 < info.size → pieceSize info ∣ bankSize info
  bank_le : 65536 < info.size → bankSize info ≤ 256 ^ info.addressLength
  banks : 65536 < info.size → info.size = bankSize info * (info.span.toNat + 1)
  addresses : 65536 < info.size → dev.slave.toNat + 2 * info.span.toNat ≤ 255

theorem span_le (dev : GenLocator) : dev.span.toNat ≤ 7 := by
  have hlt := dev.spanFlags.toNat_lt
  rw [GenLocator.span, UInt8.toNat_shiftRight, Nat.shiftRight_eq_div_pow]
  change dev.spanFlags.toNat / 2 ^ 5 ≤ 7
  omega

theorem eepromSpec_small {n size page len : ℕ} (h : eepromSpec n = some (size, page, len)) :
    (size, page, len) = (131072, 128, 2) ∨
      size ≤ 65536 ∧ (len = 1 ∨ len = 2) ∧ size ≤ 256 ^ len ∧ 0 < min page maxTransfer ∧
      min page maxTransfer ∣ page := by
  unfold eepromSpec at h
  split at h <;> cases h <;> decide

/-- The only type with banks has two, four or eight of them. -/
theorem geometry_large {dev : GenLocator} {info : Eeprom} (hsize : info.size = 131072)
    (hpage : info.pageSize = 128) (hlen : info.addressLength = 2) (hspan : info.span = dev.span)
    (hvalid : addressRangeValid dev info = true) :
    Geometry dev info := by
  have hle := span_le dev
  rw [← hspan] at hle
  have hpiece : pieceSize info = 16 := by rw [pieceSize, hpage]; rfl
  have hbanks : ¬ (info.span.toNat + 1 ≤ 1 ∨ 131072 % (info.span.toNat + 1) ≠ 0 ∨
      131072 / (info.span.toNat + 1) > 65536 ∨ dev.slave.toNat + info.span.toNat * 2 > 255) := by
    simpa [addressRangeValid, hsize, hlen] using hvalid
  obtain ⟨hone, hmod, hbank, haddr⟩ : ¬ info.span.toNat + 1 ≤ 1 ∧
      ¬ 131072 % (info.span.toNat + 1) ≠ 0 ∧
      ¬ 131072 / (info.span.toNat + 1) > 65536 ∧ ¬ dev.slave.toNat + info.span.toNat * 2 > 255 := by
    simpa only [not_or] using hbanks
  have hspans : info.span.toNat = 1 ∨ info.span.toNat = 3 ∨ info.span.toNat = 7 := by
    generalize info.span.toNat = n at hle hone hmod
    interval_cases n <;> omega
  have hsixteen : 16 ∣ bankSize info ∧ 0 < bankSize info ∧ bankSize info ≤ 65536 ∧
      131072 = bankSize info * (info.span.toNat + 1) := by
    rw [bankSize, hsize]
    rcases hspans with h | h | h <;> rw [h] <;> decide
  refine ⟨.inr hlen,
    hpiece ▸ by decide, ?_, fun h => absurd h (by
      omega), fun _ => hsixteen.2.1, fun _ => hpiece ▸ hsixteen.1,
    fun _ => ?_, fun _ => hsize.trans hsixteen.2.2.2, fun _ => by omega⟩
  · rw [hpiece, hpage]
    decide
  · rw [hlen]
    exact hsixteen.2.2.1

theorem geometry {dev : GenLocator} {info : Eeprom} (hinfo : eepromInfo dev = some info)
    (hvalid : addressRangeValid dev info = true) : Geometry dev info := by
  obtain ⟨⟨size, page, len⟩, hspec, rfl⟩ := Option.map_eq_some_iff.mp hinfo
  rcases eepromSpec_small hspec with h | ⟨hsmall, hlen, hfits, hpos, hdvd⟩
  · obtain ⟨rfl, rfl, rfl⟩ : size = 131072 ∧ page = 128 ∧ len = 2 := by simpa using h
    exact geometry_large rfl rfl rfl rfl hvalid
  · have hnot : ∀ {p : Prop}, 65536 < size → p := fun h => absurd hsmall (Nat.not_le.mpr h)
    exact ⟨hlen, hpos, hdvd, fun _ => hfits, hnot, hnot, hnot, hnot, hnot⟩

/-- Adding less than a divisor does not leave the multiple. -/
theorem div_add_lt {d m n i : ℕ} (hm : d ∣ m) (hn : d ∣ n) (hi : i < d) : (m + i) / n = m / n := by
  obtain ⟨x, rfl⟩ := hm
  obtain ⟨y, rfl⟩ := hn
  have hpos : 0 < d := Nat.zero_lt_of_lt hi
  rw [← Nat.div_div_eq_div_mul, ← Nat.div_div_eq_div_mul, Nat.mul_add_div hpos, Nat.div_eq_of_lt hi, Nat.add_zero,
    Nat.mul_div_cancel_left _ hpos]

section
variable {dev : GenLocator} {info : Eeprom} (G : Geometry dev info) {o o' : ℕ}

include G

/-- Every offset has an address, and the offset in the bank fits into the address bytes. -/
theorem Geometry.address (ho : o < info.size) :
    (∃ a, deviceAddress dev info o = .ok a) ∧ memoryOffset info o < 256 ^ info.addressLength := by
  by_cases hsmall : info.size ≤ 65536
  · exact ⟨⟨dev.slave, if_pos hsmall⟩, by rw [memoryOffset, if_pos hsmall]; exact ho.trans_le (G.small hsmall)⟩
  · have hlarge := Nat.not_le.mp hsmall
    have hbank : o / bankSize info ≤ info.span.toNat := by
      rw [G.banks hlarge] at ho
      exact Nat.le_of_lt_succ (Nat.div_lt_of_lt_mul ho)
    have haddr := G.addresses hlarge
    refine ⟨⟨UInt8.ofNat (dev.slave.toNat + 2 * (o / bankSize info)), ?_⟩, ?_⟩
    · rw [deviceAddress, if_neg hsmall]
      exact if_pos (by omega)
    · rw [memoryOffset, if_neg hsmall]
      exact (Nat.mod_lt _ (G.bank_pos hlarge)).trans_le (G.bank_le hlarge)

theorem Geometry.injective (ho : o < info.size) (ho' : o' < info.size)
    (haddr : deviceAddress dev info o = deviceAddress dev info o')
    (hmem : memoryOffset info o = memoryOffset info o') : o = o' := by
  by_cases hsmall : info.size ≤ 65536
  · rwa [memoryOffset, memoryOffset, if_pos hsmall, if_pos hsmall] at hmem
  · have hlarge := Nat.not_le.mp hsmall
    have hbank : ∀ {o}, o < info.size → dev.slave.toNat + 2 * (o / bankSize info) ≤ 255 := by
      intro o ho
      rw [G.banks hlarge] at ho
      have hle := Nat.le_of_lt_succ (Nat.div_lt_of_lt_mul ho)
      have haddr := G.addresses hlarge
      omega
    rw [deviceAddress, deviceAddress, if_neg hsmall, if_neg hsmall] at haddr
    simp only [if_pos (hbank ho), if_pos (hbank ho'), Except.ok.injEq] at haddr
    rw [memoryOffset, memoryOffset, if_neg hsmall, if_neg hsmall] at hmem
    have hnat := congrArg UInt8.toNat haddr
    rw [UInt8.toNat_ofNat_of_lt' (Nat.lt_succ_of_le (hbank ho)),
      UInt8.toNat_ofNat_of_lt' (Nat.lt_succ_of_le (hbank ho'))] at hnat
    have hdiv : o / bankSize info = o' / bankSize info := by omega
    rw [← Nat.div_add_mod o (bankSize info), hdiv, hmem, Nat.div_add_mod]

theorem Geometry.within (hpiece : pieceSize info ∣ o) {i : ℕ} (hi : i < transferSize info o) :
    memoryOffset info (o + i) / info.pageSize = memoryOffset info o / info.pageSize ∧
      deviceAddress dev info (o + i) = deviceAddress dev info o ∧
      memoryOffset info (o + i) = memoryOffset info o + i := by
  have hlt : i < pieceSize info := hi.trans_le (Nat.min_le_right _ _)
  by_cases hsmall : info.size ≤ 65536
  · simp only [memoryOffset, deviceAddress, if_pos hsmall]
    exact ⟨div_add_lt hpiece G.piece_page hlt, trivial, trivial⟩
  · have hlarge := Nat.not_le.mp hsmall
    have hdiv := div_add_lt hpiece (G.piece_bank hlarge) hlt
    have hmod : (o + i) % bankSize info = o % bankSize info + i := by
      have h1 := Nat.div_add_mod (o + i) (bankSize info)
      have h2 := Nat.div_add_mod o (bankSize info)
      rw [hdiv] at h1
      omega
    have hdvd : pieceSize info ∣ o % bankSize info :=
      (Nat.dvd_mod_iff (G.piece_bank hlarge)).mpr hpiece
    simp only [memoryOffset, deviceAddress, if_neg hsmall, hdiv, hmod]
    exact ⟨div_add_lt hdvd G.piece_page hlt, trivial, trivial⟩

end

theorem addressBytes_ofNat {info : Eeprom} (hlen : info.addressLength = 1 ∨ info.addressLength = 2)
    {m : ℕ}
    (hm : m < 256 ^ info.addressLength) :
    (addressBytes info m).length = info.addressLength ∧
      (addressBytes info m).foldr (fun b n => b.toNat + 256 * n) 0 = m := by
  have hlow : (UInt8.ofNat m).toNat = m % 256 := rfl
  have hhigh : (UInt8.ofNat (m >>> 8)).toNat = m / 256 % 256 := by
    rw [Nat.shiftRight_eq_div_pow]
    rfl
  rcases hlen with h | h
  · rw [h] at hm
    simp only [addressBytes, h, if_neg (show ¬ 1 = 2 by decide), List.length_singleton,
      List.foldr_cons, List.foldr_nil, hlow, true_and]
    omega
  · rw [h] at hm
    simp only [addressBytes, h, if_pos, List.length_cons, List.length_nil, List.foldr_cons,
      List.foldr_nil, hlow, hhigh, true_and]
    omega

/-! ### Pieces -/

/-- What the pieces are transferred for. -/
inductive Direction where
  | read
  | write (content : List UInt8)

/-- The data behind the address bytes. -/
def Direction.payload (offset chunk : ℕ) : Direction → List UInt8
  | .read => []
  | .write content => (content.drop offset).take chunk

/-- The number of bytes to read. -/
def Direction.readLen (chunk : ℕ) : Direction → ℕ
  | .read => chunk
  | .write _ => 0

/-- The request for the piece at an offset. -/
def pieceRequest (dev : GenLocator) (info : Eeprom) (d : Direction) (addr : UInt8)
    (offset : ℕ) : Command :=
  masterRequest (busByte dev) addr
    (addressBytes info (memoryOffset info offset) ++ d.payload offset (transferSize info offset))
    (d.readLen (transferSize info offset))

/-- Attempts with one request, until there is an answer. -/
inductive Tried (c : Command) : ℕ → List Exchange → Option Reply → Prop
  | gaveUp : Tried c 0 [] none
  | answered {n : ℕ} {r : Option Reply} {rsp : Reply} (h : answer r = some rsp) :
    Tried c (n + 1) [(c, r)] (some rsp)
  | again {n : ℕ} {r rsp : Option Reply} {evs : List Exchange} (h : answer r = none)
    (hrest : Tried c n evs rsp) :
    Tried c (n + 1) ((c, r) :: evs) rsp

/-- A piece that was transferred, or tried. -/
structure Piece where
  offset : ℕ
  exchanges : List Exchange
  reply : Option Reply

/-- The piece was asked for at its place. -/
def Piece.Placed (dev : GenLocator) (info : Eeprom) (d : Direction) (p : Piece) : Prop :=
  ∃ addr, deviceAddress dev info p.offset = .ok addr ∧
    Tried (pieceRequest dev info d addr p.offset) retryCount p.exchanges p.reply

/-- Pieces from `o` on, each where the one in front of it ends. -/
def Contiguous (info : Eeprom) : ℕ → List Piece → Prop
  | _, [] => True
  | o, p :: ps => p.offset = o ∧ o < info.size ∧ Contiguous info (o + transferSize info o) ps

/-- The pieces reach from `o` to the end, and all have an answer, which is as expected. -/
def Whole (info : Eeprom) (E : ℕ → Reply → Prop) (o : ℕ) (ps : List Piece) : Prop :=
  o + (ps.map fun p => transferSize info p.offset).sum = info.size ∧
    ∀ p ∈ ps, ∃ rsp, p.reply = some rsp ∧ E p.offset rsp

/-- What a piece adds to the file. -/
def Direction.gain (info : Eeprom) (p : Piece) : Direction → List UInt8
  | .read => p.reply.elim [] fun rsp => Lib.Mem.read rsp.data 0 (transferSize info p.offset)
  | .write _ => []

/-- The device keeps `I` with every request for a piece, `I` is what holds in front of a piece, and
an answer is as expected. -/
def Serves (B : Bmc β) (dev : GenLocator) (info : Eeprom) (d : Direction) (I : ℕ → β → Prop)
    (E : ℕ → Reply → Prop) : Prop :=
  ∀ o addr s, o < info.size → pieceSize info ∣ o → deviceAddress dev info o = .ok addr → I o s →
    I o (B s (pieceRequest dev info d addr o)).2 ∧
      ∀ rsp, answer (B s (pieceRequest dev info d addr o)).1 = some rsp →
        E o rsp ∧ I (o + transferSize info o) (B s (pieceRequest dev info d addr o)).2

theorem serves_any (B : Bmc β) (dev : GenLocator) (info : Eeprom) (d : Direction) :
    Serves B dev info d (fun _ _ => True) (fun _ _ => True) :=
  fun _ _ _ _ _ _ _ => ⟨trivial, fun _ _ => ⟨trivial, trivial⟩⟩

/-- What a step of the loop does: one piece, or nothing. -/
def StepOk (dev : GenLocator) (info : Eeprom) (d : Direction) (I : ℕ → β → Prop)
    (E : ℕ → Reply → Prop) (step : ℕ → ℕ → Cmd (List UInt8) β Bool) : Prop :=
  ∀ o w, o < info.size → pieceSize info ∣ o → I o w.device →
    ∃ ok w' ps, step o (transferSize info o) w = .ok (ok, w') ∧
      w'.log = w.log ++ ps.flatMap Piece.exchanges ∧
      Contiguous info o ps ∧ (∀ p ∈ ps, p.Placed dev info d) ∧
      (ok = true → ∃ p rsp, ps = [p] ∧ p.reply = some rsp ∧ E o rsp ∧
        w'.vars = w.vars ++ d.gain info p ∧
        I (o + transferSize info o) w'.device)

section
variable {dev : GenLocator} {info : Eeprom} {B : Bmc β} {I : ℕ → β → Prop} {E : ℕ → Reply → Prop}

theorem attempts_ok (bus addr : UInt8) (wr : List UInt8) (readLen : ℕ)
    (hwr : wr.length ≤ i2cMasterMaxSize) (hread : readLen ≤ i2cMasterMaxSize) {J : β → Prop}
    {K : Reply → β → Prop}
    (hkeep : ∀ s, J s → J (B s (masterRequest bus addr wr readLen)).2)
    (hanswer : ∀ s rsp, J s → answer (B s (masterRequest bus addr wr readLen)).1 = some rsp →
      K rsp (B s (masterRequest bus addr wr readLen)).2) :
    ∀ (n : ℕ) (w : CmdWorld γ β), J w.device → ∃ rsp w' evs,
      attempts B bus addr wr readLen n w = .ok (rsp, w') ∧ w'.log = w.log ++ evs ∧
      w'.vars = w.vars ∧
      Tried (masterRequest bus addr wr readLen) n evs rsp ∧ ∀ r, rsp = some r → K r w'.device := by
  intro n
  induction n with
  | zero => exact fun w _ => ⟨none, w, [], rfl, (List.append_nil _).symm, rfl, .gaveUp,
    fun r h => nomatch h⟩
  | succ n ih =>
    intro w hJ
    have hsmall : ¬ (readLen > i2cMasterMaxSize ∨ wr.length > i2cMasterMaxSize) := by
      rw [not_or]
      exact ⟨Nat.not_lt.mpr hread, Nat.not_lt.mpr hwr⟩
    have hone : (masterWriteRead B bus addr wr readLen : Cmd γ β (Option Reply)) w =
        .ok (answer (B w.device (masterRequest bus addr wr readLen)).1,
          w.asked B (masterRequest bus addr wr readLen)) := by
      rw [masterWriteRead, if_neg hsmall]
      rfl
    rw [attempts, bind_run hone]
    cases h : answer (B w.device (masterRequest bus addr wr readLen)).1 with
    | some rsp =>
      refine ⟨some rsp, _, _, rfl, rfl, rfl, .answered h, fun r hr => ?_⟩
      exact Option.some.inj hr ▸ hanswer w.device rsp hJ h
    | none =>
      obtain ⟨rsp, w', evs, hrun, hlog, hvars, htried, hK⟩ :=
        ih (w.asked B (masterRequest bus addr wr readLen)) (hkeep _ hJ)
      refine ⟨rsp, w', _, hrun, ?_, hvars, .again h htried, hK⟩
      rw [hlog, World.asked_log, List.append_assoc]
      rfl

theorem pieceSize_le (info : Eeprom) : pieceSize info ≤ maxTransfer := Nat.min_le_right _ _

theorem transferSize_le (info : Eeprom) (o : ℕ) : transferSize info o ≤ maxTransfer :=
  (Nat.min_le_right _ _).trans (pieceSize_le info)

theorem length_addressBytes_le (info : Eeprom) (m : ℕ) : (addressBytes info m).length ≤ 2 := by
  unfold addressBytes
  split <;> simp

/-- A piece is transferred, with the attempts it takes. -/
theorem transfer_ok (G : Geometry dev info) {d : Direction}
    (hserves : Serves B dev info d I E) {o : ℕ}
    (w : CmdWorld γ β) (ho : o < info.size) (hpiece : pieceSize info ∣ o) (hI : I o w.device) :
    ∃ (p : Piece) (w' : CmdWorld γ β), transfer B dev info o
        (addressBytes info (memoryOffset info o) ++ d.payload o (transferSize info o))
        (d.readLen (transferSize info o)) w = .ok (p.reply, w') ∧
      w'.log = w.log ++ p.exchanges ∧ w'.vars = w.vars ∧ p.offset = o ∧ p.Placed dev info d ∧
      ∀ rsp, p.reply = some rsp → E o rsp ∧ I (o + transferSize info o) w'.device := by
  obtain ⟨⟨addr, haddr⟩, -⟩ := G.address ho
  have hbytes := length_addressBytes_le info (memoryOffset info o)
  have hsize := transferSize_le info o
  have hpayload : (d.payload o (transferSize info o)).length ≤ maxTransfer := by
    cases d with
    | read => exact Nat.zero_le _
    | write content => exact (List.length_take_le _ _).trans hsize
  have hread : d.readLen (transferSize info o) ≤ i2cMasterMaxSize := by
    unfold i2cMasterMaxSize
    unfold maxTransfer at hsize
    cases d with
    | read => exact hsize.trans (by decide)
    | write content => exact Nat.zero_le _
  have hwr : (addressBytes info (memoryOffset info o) ++ d.payload o (transferSize info o)).length ≤
      i2cMasterMaxSize := by
    rw [List.length_append]
    unfold i2cMasterMaxSize
    unfold maxTransfer at hpayload
    omega
  obtain ⟨rsp, w', evs, hrun, hlog, hvars, htried, hanswer⟩ :=
    attempts_ok (busByte dev) addr _ _ hwr hread (J := I o)
      (K := fun rsp s => E o rsp ∧ I (o + transferSize info o) s)
      (fun s hs => (hserves o addr s ho hpiece haddr hs).1)
      (fun s rsp hs hrsp => (hserves o addr s ho hpiece haddr hs).2 rsp hrsp) retryCount w hI
  refine ⟨⟨o, evs, rsp⟩, w', ?_, hlog, hvars, rfl, ⟨addr, haddr, htried⟩, hanswer⟩
  rw [transfer, haddr]
  exact hrun

theorem contiguous_one {p : Piece} {o : ℕ} (hp : p.offset = o) (ho : o < info.size) :
    Contiguous info o [p] :=
  ⟨hp, ho, trivial⟩

theorem readStep_ok (G : Geometry dev info) (files : Files)
    (hserves : Serves B dev info .read I E) :
    StepOk dev info .read I (fun o rsp => E o rsp ∧ transferSize info o ≤ rsp.dataLen)
      (readStep B dev info files) := by
  intro o w ho hpiece hI
  obtain ⟨p, w1, hrun, hlog, hvars, hoff, hplaced, hanswer⟩ := transfer_ok G hserves w ho hpiece hI
  have hps : w1.log = w.log ++ [p].flatMap Piece.exchanges := by rw [hlog, List.flatMap_singleton]
  have hall : ∀ q ∈ [p], q.Placed dev info .read := fun q hq => List.mem_singleton.mp hq ▸ hplaced
  change transfer B dev info o (addressBytes info (memoryOffset info o) ++ [])
    (transferSize info o) w = _ at hrun
  rw [List.append_nil] at hrun
  rw [readStep, bind_run hrun]
  cases hr : p.reply with
  | none => exact ⟨false, w1, [p], rfl, hps, contiguous_one hoff ho, hall, fun h => nomatch h⟩
  | some rsp =>
    by_cases hshort : rsp.dataLen < transferSize info o
    · refine ⟨false, w1, [p], ?_, hps, contiguous_one hoff ho, hall, fun h => nomatch h⟩
      simp only [if_pos hshort]
      rfl
    · have hfit : ¬ bufSize < transferSize info o := by
        have hle := transferSize_le info o
        unfold bufSize
        unfold maxTransfer at hle
        omega
      simp only [if_neg hshort, if_neg hfit]
      cases hwrites : files.writes o with
      | false => exact ⟨false, w1, [p], rfl, hps, contiguous_one hoff ho, hall, fun h => nomatch h⟩
      | true =>
        refine ⟨true, _, [p], rfl, hps, contiguous_one hoff ho, hall,
          fun _ => ⟨p, rsp, rfl, hr, ?_, ?_, ?_⟩⟩
        · exact ⟨(hanswer rsp hr).1, Nat.not_lt.mp hshort⟩
        · change w1.vars ++ _ = _
          rw [hvars, Direction.gain, hr, hoff]
          rfl
        · exact (hanswer rsp hr).2

theorem writeStep_ok (G : Geometry dev info) (files : Files)
    (hserves : Serves B dev info (.write files.content) I E) :
    StepOk dev info (.write files.content) I E (writeStep B dev info files) := by
  intro o w ho hpiece hI
  obtain ⟨p, w1, hrun, hlog, hvars, hoff, hplaced, hanswer⟩ := transfer_ok G hserves w ho hpiece hI
  rw [writeStep]
  split_ifs with hbad
  · exact ⟨false, w, [], rfl, (List.append_nil _).symm, trivial, List.forall_mem_nil _,
      fun h => nomatch h⟩
  · change transfer B dev info o (addressBytes info (memoryOffset info o) ++
      (files.content.drop o).take (transferSize info o)) 0 w = _ at hrun
    rw [bind_run hrun]
    refine ⟨_, w1, [p], rfl, by rw [hlog, List.flatMap_singleton], contiguous_one hoff ho,
      fun q hq => List.mem_singleton.mp hq ▸ hplaced, fun hok => ?_⟩
    obtain ⟨rsp, hr⟩ := Option.isSome_iff_exists.mp hok
    exact ⟨p, rsp, rfl, hr, (hanswer rsp hr).1, hvars.trans (List.append_nil _).symm,
      (hanswer rsp hr).2⟩

/-! ### Runs -/

/-- What a run from `o` on has done. -/
structure Copies (dev : GenLocator) (info : Eeprom) (d : Direction) (I : ℕ → β → Prop)
    (E : ℕ → Reply → Prop) (o : ℕ) (w w' : CmdWorld (List UInt8) β) (ps : List Piece)
    (rc : ℤ) : Prop where
  log : w'.log = w.log ++ ps.flatMap Piece.exchanges
  contiguous : Contiguous info o ps
  placed : ∀ p ∈ ps, p.Placed dev info d
  whole : rc = 0 → Whole info E o ps ∧ w'.vars = w.vars ++ ps.flatMap (d.gain info ·) ∧
    I info.size w'.device

theorem minus_one : (-1 : ℤ) ≠ 0 := by decide

theorem piece_dvd {o : ℕ} (h : o + transferSize info o < info.size) :
    pieceSize info ∣ transferSize info o := by
  have hfull : transferSize info o = pieceSize info := by
    unfold transferSize pieceSize at *
    omega
  rw [hfull]

/-- The loop copies the pieces one after the other. -/
theorem copyLoop_ok (G : Geometry dev info) (files : Files) {d : Direction}
    {step : ℕ → ℕ → Cmd (List UInt8) β Bool}
    (hstep : StepOk dev info d I E step) : ∀ (fuel o previous percent : ℕ)
    (w : CmdWorld (List UInt8) β),
    info.size < o + fuel → o ≤ info.size → (o < info.size → pieceSize info ∣ o) → I o w.device →
    ∃ e w' ps, copyLoop info files step fuel o previous percent w = .ok (some e, w') ∧
      Copies dev info d I E o w w' ps e.rc := by
  intro fuel
  induction fuel with
  | zero =>
    intro o previous percent w hfuel hle
    omega
  | succ fuel ih =>
    intro o previous percent w hfuel hle hpiece hI
    rw [copyLoop]
    split_ifs with ho
    · obtain ⟨ok, w1, ps, hrun, hlog, hcontiguous, hplaced, hok⟩ := hstep o w ho (hpiece ho) hI
      rw [bind_run hrun]
      cases ok with
      | false =>
        exact ⟨⟨o, percent, -1, false⟩, w1, ps, rfl, hlog, hcontiguous, hplaced,
          fun h => absurd h minus_one⟩
      | true =>
        obtain ⟨p, rsp, rfl, hr, hE, hvars, hI1⟩ := hok rfl
        obtain ⟨hoff, -, -⟩ := hcontiguous
        simp only [if_true]
        split_ifs with hprint
        · exact ⟨_, w1, [p], rfl, hlog, contiguous_one hoff ho, hplaced,
            fun h => absurd h minus_one⟩
        · have hpos : 0 < transferSize info o := Nat.lt_min.mpr ⟨Nat.sub_pos_of_lt ho, G.piece_pos⟩
          have hnext : o + transferSize info o ≤ info.size := by
            have hle := Nat.min_le_left (info.size - o) (min info.pageSize maxTransfer)
            rw [transferSize]
            omega
          obtain ⟨e, w', qs, hgo, hcopies⟩ :=
            ih (o + transferSize info o) (o * 100 / info.size) (o * 100 / info.size)
            w1 (by omega) hnext (fun hlt => (Nat.dvd_add_right (hpiece ho)).mpr (piece_dvd hlt)) hI1
          refine ⟨e, w', p :: qs, hgo, ?_, ⟨hoff, ho, hcopies.contiguous⟩, ?_, fun hrc => ?_⟩
          · rw [hcopies.log, hlog, List.append_assoc, List.flatMap_singleton, List.flatMap_cons]
          · exact List.forall_mem_cons.mpr ⟨hplaced p (List.mem_singleton_self p), hcopies.placed⟩
          · obtain ⟨⟨hsum, hall⟩, hfile, hend⟩ := hcopies.whole hrc
            refine ⟨⟨?_, List.forall_mem_cons.mpr ⟨⟨rsp, hr, hoff ▸ hE⟩, hall⟩⟩, ?_, hend⟩
            · rw [List.map_cons, List.sum_cons, hoff, ← Nat.add_assoc]
              exact hsum
            · rw [hfile, hvars, List.append_assoc, List.flatMap_cons]
    · refine ⟨⟨o, percent, 0, false⟩, w, [], rfl, (List.append_nil _).symm, trivial,
        List.forall_mem_nil _, fun _ => ?_⟩
      have hend : o = info.size := by omega
      exact ⟨⟨hend, List.forall_mem_nil _⟩, (List.append_nil _).symm, hend ▸ hI⟩

theorem finish_eq_zero {files : Files} {e : Ended} (h : finish info files e = 0) : e.rc = 0 := by
  unfold finish at h
  split_ifs at h with hoff hcloses hcloses
  · exact absurd h minus_one
  · exact absurd h minus_one
  · exact h
  · exact absurd h minus_one

/-- `readFile` asks for the image piece by piece. -/
theorem readFile_ok (hinfo : eepromInfo dev = some info)
    (hvalid : addressRangeValid dev info = true) (files : Files)
    (hserves : Serves B dev info .read I E) (w : CmdWorld (List UInt8) β) (hI : I 0 w.device) :
    ∃ rc w' ps, readFile B dev files w = .ok (some rc, w') ∧
      Copies dev info .read I (fun o rsp => E o rsp ∧
        transferSize info o ≤ rsp.dataLen) 0 { w with vars := [] } w' ps
        rc := by
  rw [readFile, hinfo]
  simp only [hvalid, Bool.true_eq_false, false_or]
  cases hopens : files.opens with
  | false =>
    exact ⟨-1, w, [], rfl, (List.append_nil _).symm, trivial, List.forall_mem_nil _,
      fun h => absurd h minus_one⟩
  | true =>
    have G := geometry hinfo hvalid
    obtain ⟨e, w', ps, hrun, hcopies⟩ :=
      copyLoop_ok G files (readStep_ok G files hserves) (info.size + 1) 0 101 0
        { w with vars := [] } (by omega) (Nat.zero_le _) (fun _ => Nat.dvd_zero _) hI
    refine ⟨finish info files e, w', ps, ?_, hcopies.log, hcopies.contiguous, hcopies.placed,
      fun h => hcopies.whole (finish_eq_zero h)⟩
    rw [if_neg (by decide),
      bind_run (show (modify fun w => { w with vars := [] } : Cmd (List UInt8) β PUnit) w =
      .ok (⟨⟩, { w with vars := [] }) from rfl), bind_run hrun]
    rfl

theorem writeFile_ok (hinfo : eepromInfo dev = some info)
    (hvalid : addressRangeValid dev info = true) (files : Files)
    (hserves : Serves B dev info (.write files.content) I E) (w : CmdWorld (List UInt8) β)
    (hI : I 0 w.device) :
    ∃ rc w' ps, writeFile B dev files w = .ok (some rc, w') ∧
      Copies dev info (.write files.content) I E 0 w w' ps rc := by
  rw [writeFile, hinfo]
  simp only [hvalid, Bool.true_eq_false, false_or]
  split_ifs with hbad
  · exact ⟨-1, w, [], rfl, (List.append_nil _).symm, trivial, List.forall_mem_nil _,
      fun h => absurd h minus_one⟩
  · have G := geometry hinfo hvalid
    obtain ⟨e, w', ps, hrun, hcopies⟩ :=
      copyLoop_ok G files (writeStep_ok G files hserves) (info.size + 1) 0 101 0
        w (by omega) (Nat.zero_le _) (fun _ => Nat.dvd_zero _) hI
    refine ⟨finish info files e, w', ps, ?_, hcopies.log, hcopies.contiguous, hcopies.placed,
      fun h => hcopies.whole (finish_eq_zero h)⟩
    rw [bind_run hrun]
    rfl

end

end Ipmitool.Cmd.Gendev
