import Ipmitool.Chassis.BootOptions
import Ipmitool.Util.Numbers

/-! # Writing the boot mailbox

`chassisSetBootmailbox` of `cmd/chassis.zig`, and `args2buf` of `util/helper.zig`. The data is a
text with its terminator or a list of bytes, and goes to blocks of sixteen bytes, of which block 0
has only thirteen, behind the number of the manufacturer. Without a block the whole mailbox is
written, from block 0; with one, that block alone.

The mailbox that comes of a successful command is stated by `Blocks`. `setBootmailbox_complete` is
about data that fits what is written: one block takes no more than its size, and what is left over
is not reported. Whether the completion is announced depends on whether the announcement of the
change was accepted. -/

namespace Ipmitool.Chassis.Mailbox

open Ipmitool.Lib.Bytes Ipmitool.Lib.Machine Ipmitool.Lib.Dialogue Ipmitool.Core.Types
  Ipmitool.Core.Interface
open Ipmitool.Util.Integer Ipmitool.Util.IntegerScan Ipmitool.Util.Numbers
  Ipmitool.Chassis.BootOptions

variable {β : Type}

/-! ### The code -/

def mboxIanaSize : ℕ := 3
def mboxBlockSize : ℕ := 16
def mboxBlock0Size : ℕ := mboxBlockSize - mboxIanaSize
def mboxMaxBlocks : ℕ := 256

/-- `htoipmi24`, of the bits of a signed number. -/
def htoipmi24 (number : ℤ) : List UInt8 :=
  let h : UInt32 := UInt32.ofInt number
  [h.toUInt8, (h >>> 8).toUInt8, (h >>> 16).toUInt8]

/-- `args2buf`: what stands in an empty buffer of this length afterwards. -/
def args2buf : ℕ → List (List UInt8) → List UInt8
  | 0, _ => []
  | n + 1, [] => List.replicate (n + 1) 0
  | n + 1, arg :: argv =>
    match str2uchar arg with
    | none => List.replicate (n + 1) 0
    | some byte => byte :: args2buf n argv

/-- The variables of the loop over the blocks. -/
structure Cursor where
  block : Int16
  argv : List (List UInt8)
  stringOffset : ℕ := 0
  datasize : ℕ

/-- The bytes of a block. -/
def Cursor.content (m : Cursor) (useText : Bool) (blocksize : ℕ) : List UInt8 :=
  if useText then ((m.argv.headD [] ++ [0]).drop m.stringOffset).take blocksize
    else args2buf blocksize m.argv

/-- The variables for the next block. -/
def Cursor.next (m : Cursor) (useText : Bool) (blocksize : ℕ) : Cursor where
  block := m.block + 1
  argv := if useText then m.argv else m.argv.drop blocksize
  stringOffset := if useText then m.stringOffset + blocksize else m.stringOffset
  datasize := m.datasize - blocksize

/-- The loop of `chassisSetBootmailbox` over the blocks that are left: the status of the block that
failed. -/
def writeBlocks (B : Bmc β) (iana : ℤ) (useText : Bool) : ℕ → Cursor → Talk β (Option ℤ)
  | 0, _ => return none
  | left + 1, m => do
    if m.datasize = 0 then return none
    let maxblocksize := if m.block = 0 then mboxBlock0Size else mboxBlockSize
    let blocksize := if m.datasize > maxblocksize then maxblocksize else m.datasize
    let pen := if m.block = 0 then htoipmi24 iana else []
    let rc ← chassisSetBootparam B paramInitMbox
      (m.block.toUInt16.toUInt8 :: (pen ++ m.content useText blocksize))
    if rc ≠ 0 then return some rc
    writeBlocks B iana useText left (m.next useText blocksize)

/-- What follows the loop, unless a block failed. -/
def commit (B : Bmc β) : Option ℤ → Talk β ℤ
  | some rc => return rc
  | none => do
    chassisBootparamSetInProgress B commitWrite
    chassisBootparamClearAck B (biosPostAck ||| osLoaderAck)

/-- `chassisSetBootmailbox` from the first request on. -/
def writeMailbox (B : Bmc β) (iana : ℤ) (useText : Bool) (blocks : ℕ) (m : Cursor) : Talk β ℤ := do
  chassisBootparamSetInProgress B setInProgress
  let failed ← writeBlocks B iana useText blocks m
  let rc ← commit B failed
  chassisBootparamSetInProgress B setComplete
  return rc

/-- How much data there is. -/
def datasizeOf (useText : Bool) (argv : List (List UInt8)) : ℕ :=
  if useText then (argv.headD []).length + 1 else argv.length

/-- How many blocks are written. -/
def blocksOf (block : Int16) (datasize : ℕ) : ℕ :=
  if 0 ≤ block then 1 else (mboxIanaSize + datasize + (mboxBlockSize - 1)) / mboxBlockSize

/-- `chassisSetBootmailbox`, behind the number of the manufacturer. -/
def writeData (B : Bmc β) (block : Int16) (useText : Bool) (argv : List (List UInt8)) :
    Option ℤ → Talk β ℤ
  | none => return -1
  | some iana =>
    if argv.isEmpty then return -1
    else if blocksOf block (datasizeOf useText argv) > mboxMaxBlocks then return -1
    -- all bytes are looked at before the first request
    else if ¬ useText ∧ argv.any fun arg => (str2uchar arg).isNone then return -1
    else writeMailbox B iana useText (blocksOf block (datasizeOf useText argv))
      { block := if 0 ≤ block then block else 0, argv := argv, datasize := datasizeOf useText argv }

/-- `chassisSetBootmailbox`. -/
def chassisSetBootmailbox (B : Bmc β) (dialect : Dialect) (block : Int16) (useText : Bool) :
    List (List UInt8) → Talk β ℤ
  | [] => return -1
  | pen :: argv => do
    let iana ← liftM (str2int dialect pen)
    writeData B block useText argv iana

/-! ### The mailbox -/

/-- The data that the arguments give. -/
def Given (useText : Bool) (argv : List (List UInt8)) (data : List UInt8) : Prop :=
  if useText then data = argv.headD [] ++ [0] else argv.map str2uchar = data.map some

/-- The number of the first block. -/
def firstBlock (block : Int16) : ℕ := block.toNatClampNeg

/-- What is written for a block: its number, the manufacturer in block 0, and the content. -/
def blockOf (iana : ℤ) (number : ℕ) (content : List UInt8) : List UInt8 :=
  UInt8.ofNat number :: ((if number = 0 then htoipmi24 iana else []) ++ content)

/-- The blocks make up the data, and have the numbers from the first one on. -/
def Blocks (first : ℕ) (iana : ℤ) (data : List UInt8) (blocks : List (List UInt8)) : Prop :=
  ∃ contents : List (List UInt8), blocks =
    contents.mapIdx (fun i content => blockOf iana (first + i) content) ∧
    first + contents.length ≤ mboxMaxBlocks ∧ contents.flatten = data

/-- How much fits into a block. -/
def room (number : ℕ) : ℕ := if number = 0 then mboxBlock0Size else mboxBlockSize

/-- If one block is to be written, it is one of the mailbox, and the data fits it. -/
def Fits (block : Int16) (useText : Bool) (argv : List (List UInt8)) : Prop :=
  0 ≤ block → firstBlock block < mboxMaxBlocks ∧
    datasizeOf useText argv.tail ≤ room (firstBlock block)

/-! ### One block -/

section
variable {useText : Bool}

/-- What is left to write. -/
structure Remains (useText : Bool) (m : Cursor) (rest : List UInt8) : Prop where
  size : m.datasize = rest.length
  given : if useText then rest = (m.argv.headD [] ++ [0]).drop m.stringOffset
    else m.argv.map str2uchar = rest.map some

theorem args2buf_eq {argv : List (List UInt8)} {rest : List UInt8}
    (h : argv.map str2uchar = rest.map some) :
    ∀ n ≤ rest.length, args2buf n argv = rest.take n := by
  induction argv generalizing rest with
  | nil =>
    obtain rfl := List.map_eq_nil_iff.mp h.symm
    intro n hn
    obtain rfl : n = 0 := by simpa using hn
    rfl
  | cons arg argv ih =>
    rcases rest with _ | ⟨byte, rest⟩
    · cases h
    · obtain ⟨harg, hargv⟩ := List.cons.inj h
      rintro (_ | n) hn
      · rfl
      · rw [args2buf, harg, List.take_succ_cons, ih hargv n (by simpa using hn)]

theorem Remains.content {m : Cursor} {rest : List UInt8} (h : Remains useText m rest) {n : ℕ}
    (hn : n ≤ rest.length) : m.content useText n = rest.take n := by
  have hgiven := h.given
  unfold Cursor.content
  cases useText with
  | false => exact args2buf_eq hgiven n hn
  | true => exact congrArg (List.take n) hgiven.symm

theorem Remains.next {m : Cursor} {rest : List UInt8} (h : Remains useText m rest) (n : ℕ) :
    Remains useText (m.next useText n) (rest.drop n) := by
  have hgiven := h.given
  refine ⟨by rw [Cursor.next, h.size, List.length_drop], ?_⟩
  cases useText with
  | false => exact (List.map_drop.trans (congrArg (List.drop n) hgiven)).trans List.map_drop.symm
  | true => exact (congrArg (List.drop n) hgiven).trans List.drop_drop

theorem firstBlock_of_neg {block : Int16} (h : ¬ 0 ≤ block) : firstBlock block = 0 := by
  rw [Int16.le_iff_toInt_le, Int16.toInt_zero] at h
  change block.toInt.toNat = 0
  omega

theorem block_eq_zero_iff {number : ℕ} (h : number < mboxMaxBlocks) : Int16.ofNat number = 0 ↔
    number = 0 := by
  have hlt : number < 256 := h
  rw [← Int16.toInt_inj, Int16.toInt_ofNat_of_lt (by omega)]
  exact Int.natCast_eq_zero

theorem ofNat_firstBlock (block : Int16) : Int16.ofNat (firstBlock block) = if 0 ≤ block then block
    else 0 := by
  split
  next h => exact Int16.ofNat_toNatClampNeg block h
  next h => rw [firstBlock_of_neg h]; rfl

theorem selector_ofNat (number : ℕ) : (Int16.ofNat number).toUInt16.toUInt8 =
    UInt8.ofNat number := by simp

theorem writeBlocks_step (B : Bmc β) (w : CmdWorld Vars β) (iana : ℤ) (left : ℕ) {number : ℕ}
    {m : Cursor}
    {rest : List UInt8}
    (hblock : m.block = Int16.ofNat number) (hnumber : number < mboxMaxBlocks)
    (hrest : Remains useText m rest) (hne : rest ≠ []) :
    ∃ c, c = setBootOptions paramInitMbox (blockOf iana number (rest.take (room number))) ∧
      writeBlocks B iana useText (left + 1) m w =
        if status (B w.device c).1 ≠ 0 then .ok (some (status (B w.device c).1), w.asked B c)
        else writeBlocks B iana useText left (m.next useText (min (room number) rest.length))
          (w.asked B c) := by
  refine ⟨_, rfl, ?_⟩
  have hsize : ¬ m.datasize = 0 := by
    rw [hrest.size]
    exact fun h => hne (List.eq_nil_of_length_eq_zero h)
  have hmax : (if m.block = 0 then mboxBlock0Size else mboxBlockSize) = room number := by
    simp only [room, hblock, block_eq_zero_iff hnumber]
  have hmin : (if m.datasize > room number then room number else m.datasize) =
      min (room number) rest.length := by
    rw [hrest.size]
    split <;> omega
  have hbytes : m.block.toUInt16.toUInt8 ::
      ((if m.block = 0 then htoipmi24 iana else []) ++
        m.content useText (min (room number) rest.length)) =
      blockOf iana number (rest.take (room number)) := by
    rw [hrest.content (Nat.min_le_right _ _), ← List.take_eq_take_min]
    simp only [blockOf, hblock, block_eq_zero_iff hnumber, selector_ofNat]
  rw [writeBlocks, if_neg hsize]
  simp only [hmax, hmin, hbytes]
  rw [bind_run (chassisSetBootparam_run _ _)]
  by_cases hrc : status (B w.device (setBootOptions paramInitMbox
    (blockOf iana number (rest.take (room number))))).1 ≠ 0
  · rw [if_pos hrc, if_pos hrc]
    rfl
  · rw [if_neg hrc, if_neg hrc]

/-! ### The loop -/

/-- How much fits into blocks from a number on. -/
def capacity (number : ℕ) : ℕ → ℕ
  | 0 => 0
  | left + 1 => room number + capacity (number + 1) left

theorem capacity_succ (number left : ℕ) : capacity (number + 1) left = mboxBlockSize * left := by
  induction left generalizing number with
  | zero => rfl
  | succ left ih =>
    rw [capacity, ih, room, if_neg (Nat.succ_ne_zero number), Nat.mul_succ, Nat.add_comm]

theorem writeBlocks_failed {B : Bmc β} {iana : ℤ} {left : ℕ} :
    ∀ {m : Cursor} {w w' : CmdWorld Vars β} {rc : ℤ},
    writeBlocks B iana useText left m w = .ok (some rc, w') → rc ≠ 0 := by
  induction left with
  | zero =>
    intro m w w' rc h
    cases h
  | succ left ih =>
    intro m w w' rc h
    rw [writeBlocks] at h
    by_cases hsize : m.datasize = 0
    · rw [if_pos hsize] at h
      cases h
    · rw [if_neg hsize] at h
      obtain ⟨rc', w1, -, h⟩ := bind_ok.mp h
      by_cases hrc : rc' ≠ 0
      · rw [if_pos hrc] at h
        cases h
        exact hrc
      · rw [if_neg hrc] at h
        exact ih h

theorem writeBlocks_ok {B : Bmc β} {iana : ℤ} {left : ℕ} :
    ∀ {number : ℕ} {m : Cursor} {rest : List UInt8}
    {w w' : CmdWorld Vars β}, m.block = Int16.ofNat number → number + left ≤ mboxMaxBlocks →
    Remains useText m rest →
    rest.length ≤ capacity number left → writeBlocks B iana useText left m w = .ok (none, w') →
    ∃ contents : List (List UInt8), contents.flatten = rest ∧ contents.length ≤ left ∧
      w'.vars = w.vars ∧
      Asks w w' ((contents.mapIdx fun i content => blockOf iana (number + i) content).map
        (setBootOptions paramInitMbox)) := by
  induction left with
  | zero =>
    intro number m rest w w' _ _ _ hfits h
    cases h
    exact ⟨[], (List.eq_nil_of_length_eq_zero (Nat.le_zero.mp hfits)).symm, Nat.le_refl 0,
      rfl, .refl w⟩
  | succ left ih =>
    intro number m rest w w' hblock hnumber hrest hfits h
    by_cases hne : rest = []
    · rw [writeBlocks, if_pos (hrest.size.trans (List.length_eq_zero_iff.mpr hne))] at h
      cases h
      exact ⟨[], hne.symm, Nat.zero_le _, rfl, .refl w⟩
    · obtain ⟨c, hc, hstep⟩ := writeBlocks_step B w iana left hblock (by omega) hrest hne
      rw [hstep] at h
      split at h
      · cases h
      · have hnext : (m.next useText (min (room number) rest.length)).block =
            Int16.ofNat (number + 1) := by
          rw [Int16.ofNat_add, ← hblock]
          rfl
        rw [capacity] at hfits
        obtain ⟨contents, hdata, hlength, hvars, hasks⟩ :=
          ih hnext (by omega) (hrest.next _) (by rw [List.length_drop]; omega) h
        refine ⟨rest.take (room number) :: contents, ?_, Nat.succ_le_succ hlength, hvars, ?_⟩
        · rw [List.flatten_cons, hdata, ← List.drop_eq_drop_min]
          exact List.take_append_drop _ _
        · rw [List.mapIdx_cons, List.map_cons]
          have hasked := (asks_asked B w c).trans hasks
          simpa only [hc, Nat.add_zero, Nat.add_assoc, Nat.add_comm 1,
            List.singleton_append] using hasked

end

/-! ### The command -/

section
variable {B : Bmc β} {dialect : Dialect} {block : Int16} {useText : Bool} {args : List (List UInt8)}
  {w w' : CmdWorld Vars β}

/-- A mailbox that is written: the change is announced, the blocks are written, the change is
committed, the acknowledgments are cleared, and the completion is announced. -/
theorem writeMailbox_ok {iana : ℤ} {blocks : ℕ} {m : Cursor}
    (h : writeMailbox B iana useText blocks m w = .ok (0, w')) :
    ∃ w1 ack, writeBlocks B iana useText blocks m (progressed B setInProgress w) = .ok (none, w1) ∧
      w' = progressed B setComplete ((progressed B commitWrite w1).asked B
        (setBootOptions paramInfoAck ack)) := by
  unfold writeMailbox at h
  rw [bind_run (chassisBootparamSetInProgress_run _)] at h
  obtain ⟨failed, w1, hblocks, h⟩ := bind_ok.mp h
  obtain ⟨rc, w2, hcommit, h⟩ := bind_ok.mp h
  rw [bind_run (chassisBootparamSetInProgress_run _)] at h
  obtain ⟨rfl, rfl⟩ := Prod.mk.inj (Except.ok.inj h)
  rcases failed with _ | rc
  · rw [commit, bind_run (chassisBootparamSetInProgress_run _)] at hcommit
    obtain ⟨-, rfl⟩ := Prod.mk.inj (Except.ok.inj hcommit)
    exact ⟨w1, _, hblocks, rfl⟩
  · cases hcommit
    exact absurd rfl (writeBlocks_failed hblocks)

theorem chassisSetBootmailbox_ok (h : chassisSetBootmailbox B dialect block useText args w =
    .ok (0, w')) :
    ∃ pen argv iana, args = pen :: argv ∧ str2int dialect pen = .ok (some iana) ∧ argv ≠ [] ∧
      blocksOf block (datasizeOf useText argv) ≤ mboxMaxBlocks ∧
      (useText = true ∨ ∀ arg ∈ argv, (str2uchar arg).isSome = true) ∧
      writeMailbox B iana useText (blocksOf block (datasizeOf useText argv))
        { block := if 0 ≤ block then block else 0, argv := argv,
          datasize := datasizeOf useText argv } w = .ok (0, w') := by
  rcases args with _ | ⟨pen, argv⟩
  · cases h
  · unfold chassisSetBootmailbox at h
    obtain ⟨found, w1, hfound, h⟩ := bind_ok.mp h
    obtain ⟨hpen, rfl⟩ := lift_ok.mp hfound
    rcases found with _ | iana
    · cases h
    · rw [writeData] at h
      by_cases hempty : argv.isEmpty = true
      · rw [if_pos hempty] at h
        cases h
      rw [if_neg hempty] at h
      by_cases hblocks : blocksOf block (datasizeOf useText argv) > mboxMaxBlocks
      · rw [if_pos hblocks] at h
        cases h
      rw [if_neg hblocks] at h
      by_cases hbytes : ¬ useText = true ∧ (argv.any fun arg => (str2uchar arg).isNone) = true
      · rw [if_pos hbytes] at h
        cases h
      rw [if_neg hbytes] at h
      refine ⟨pen, argv, iana, rfl, hpen, fun he => hempty (List.isEmpty_iff.mpr he),
        Nat.le_of_not_lt hblocks, ?_, h⟩
      by_cases htext : useText = true
      · exact .inl htext
      · refine .inr fun arg harg => Option.isSome_iff_ne_none.mpr fun hnone => hbytes ⟨htext, ?_⟩
        exact List.any_eq_true.mpr ⟨arg, harg, Option.isNone_iff_eq_none.mpr hnone⟩

theorem exists_given {argv : List (List UInt8)}
    (h : useText = true ∨ ∀ arg ∈ argv, (str2uchar arg).isSome = true) :
    ∃ data, Given useText argv data := by
  cases useText with
  | true => exact ⟨_, rfl⟩
  | false =>
    have hbytes : ∀ arg ∈ argv, (str2uchar arg).isSome = true := h.resolve_left Bool.false_ne_true
    refine ⟨argv.filterMap str2uchar, ?_⟩
    change argv.map str2uchar = (argv.filterMap str2uchar).map some
    clear h
    induction argv with
    | nil => rfl
    | cons arg argv ih =>
      obtain ⟨byte, hbyte⟩ := Option.isSome_iff_exists.mp (hbytes arg List.mem_cons_self)
      rw [List.map_cons, List.filterMap_cons_some hbyte, List.map_cons, hbyte,
        ih fun a ha => hbytes a (List.mem_cons_of_mem _ ha)]

theorem Given.remains {argv : List (List UInt8)} {data : List UInt8} (h : Given useText argv data)
    (first : Int16) :
    Remains useText { block := first, argv := argv, datasize := datasizeOf useText argv } data := by
  cases useText with
  | true => exact ⟨by rw [h]; simp [datasizeOf], h⟩
  | false => exact ⟨by simpa [datasizeOf] using congrArg List.length h, h⟩

theorem datasizeOf_pos (useText : Bool) {argv : List (List UInt8)} (h : argv ≠ []) :
    0 < datasizeOf useText argv := by
  unfold datasizeOf
  split
  · exact Nat.succ_pos _
  · exact List.length_pos_iff.mpr h

theorem le_capacity {datasize : ℕ} (hfits : 0 ≤ block → datasize ≤ room (firstBlock block))
    (hpos : 0 < datasize) :
    datasize ≤ capacity (firstBlock block) (blocksOf block datasize) := by
  unfold blocksOf
  by_cases hblock : 0 ≤ block
  · rw [if_pos hblock]
    exact hfits hblock
  · rw [if_neg hblock, firstBlock_of_neg hblock]
    obtain ⟨n, hn⟩ : ∃ n, (mboxIanaSize + datasize + (mboxBlockSize - 1)) / mboxBlockSize = n + 1 :=
      Nat.exists_eq_succ_of_ne_zero (by unfold mboxIanaSize mboxBlockSize; omega)
    rw [hn, capacity, capacity_succ]
    unfold room mboxBlock0Size mboxIanaSize mboxBlockSize at *
    rw [if_pos rfl]
    omega

theorem add_blocksOf_le {datasize : ℕ} (hfits : 0 ≤ block → firstBlock block < mboxMaxBlocks)
    (hblocks : blocksOf block datasize ≤ mboxMaxBlocks) :
    firstBlock block + blocksOf block datasize ≤ mboxMaxBlocks := by
  by_cases hblock : 0 ≤ block
  · rw [blocksOf, if_pos hblock]
    exact hfits hblock
  · rw [firstBlock_of_neg hblock, Nat.zero_add]
    exact hblocks

/-- What is requested for the parameters, of the requests of a mailbox that is written. -/
theorem written_mailbox {announced committed completed blocks : List (List UInt8)}
    {ack : List UInt8} {evs : List Exchange}
    (h : evs.map Prod.fst = announced.map (setBootOptions paramSetInProgress) ++
      blocks.map (setBootOptions paramInitMbox) ++ committed.map
        (setBootOptions paramSetInProgress) ++
      [setBootOptions paramInfoAck ack] ++ completed.map (setBootOptions paramSetInProgress)) :
    written paramInitMbox evs = blocks ∧
      written paramSetInProgress evs = announced ++ committed ++ completed := by
  have hack : ∀ param, param ≠ paramInfoAck →
      [setBootOptions paramInfoAck ack].filterMap (contents param) = [] := by
    intro param hparam
    exact (filterMap_contents param paramInfoAck [ack]).trans (if_neg fun hc => hparam hc.symm)
  simp only [written_eq, h, List.filterMap_append, filterMap_contents]
  rw [hack _ (by decide), hack _ (by decide)]
  have hmbox : (7 : UInt8) &&& 0x7f = 7 := rfl
  exact ⟨by simp [paramInitMbox, paramSetInProgress, hmbox],
    by simp [paramInitMbox, paramSetInProgress, hmbox]⟩

/-- **A mailbox that is written completely.** The blocks have consecutive numbers from the one that
is asked for, the manufacturer comes first in block 0, and the contents make up the data. If the
announcement of the change was accepted, the last progress request announces the completion. -/
theorem setBootmailbox_complete (h : chassisSetBootmailbox B dialect block useText args w =
    .ok (0, w')) (hfits : Fits block useText args) :
    ∃ pen argv iana data evs, args = pen :: argv ∧ str2int dialect pen = .ok (some iana) ∧
      Given useText argv data ∧
      w'.log = w.log ++ evs ∧ Blocks (firstBlock block) iana data (written paramInitMbox evs) ∧
      (Announced B w → (written paramSetInProgress evs).getLast? = some [setComplete]) ∧
      (¬ Announced B w →
        written paramSetInProgress evs = if w.vars.useProgress then [[setInProgress]] else []) := by
  obtain ⟨pen, argv, iana, rfl, hpen, hempty, hblocks, hbytes, h⟩ := chassisSetBootmailbox_ok h
  obtain ⟨data, hdata⟩ := exists_given hbytes
  obtain ⟨w1, ack, hrun, rfl⟩ := writeMailbox_ok h
  have hremains := hdata.remains (if 0 ≤ block then block else 0)
  have hroom : data.length ≤ capacity (firstBlock block)
      (blocksOf block (datasizeOf useText argv)) :=
    (Nat.le_of_eq hremains.size.symm).trans
      (le_capacity (fun hb => (hfits hb).2) (datasizeOf_pos useText hempty))
  have hnumbers := add_blocksOf_le (fun hb => (hfits hb).1) hblocks
  obtain ⟨contents, hflat, hlength, hvars, hasks⟩ :=
    writeBlocks_ok (ofNat_firstBlock block).symm hnumbers hremains hroom hrun
  -- the requests, in their order
  have hcommit : (progressed B commitWrite w1).vars = w1.vars :=
    useProgress_progressed (by decide) B w1
  obtain ⟨evs, hlog, hevs⟩ := ((((asks_progressed B setInProgress w).trans hasks).trans
    (asks_progressed B commitWrite w1)).trans (asks_asked B _
      (setBootOptions paramInfoAck ack))).trans
    (asks_progressed B setComplete _)
  rw [World.asked_vars, hcommit, hvars] at hevs
  obtain ⟨hblocks', hprogress⟩ := written_mailbox hevs
  refine ⟨pen, argv, iana, data, evs, rfl, hpen, hdata, hlog, ?_, fun hann => ?_, fun hann => ?_⟩
  · exact hblocks' ▸ ⟨contents, rfl, by omega, hflat⟩
  · have huse := (useProgress_announce B w).mpr hann
    rw [hprogress, if_pos huse, if_pos huse]
    exact List.getLast?_concat
  · have huse := fun hc => hann ((useProgress_announce B w).mp hc)
    rw [hprogress, if_neg huse, if_neg huse, List.append_nil, List.append_nil]

end

/-! ### Mailboxes that are not written completely -/

/-- A device that accepts everything. -/
def accepting : Bmc β := fun s _ => (some {}, s)

/-- A device that knows no progress requests. -/
def withoutProgress : Bmc Unit := fun s c =>
  (some { ccode := if (contents paramSetInProgress c).isSome then 0x80 else 0 }, s)

/-- The start. -/
def start : CmdWorld Vars Unit := { vars := ⟨true⟩, device := () }

/-- Thirteen letters, which leave no place for their terminator in block 0. -/
def thirteen : List UInt8 := List.replicate 13 0x61

/-- The data of an entire text, written to block 0 and on. -/
theorem setBootmailbox_complete_text :
    ∃ w', chassisSetBootmailbox accepting .gnu (-1) true [ascii "343", thirteen] start =
      .ok (0, w') ∧ ∃ pen argv iana data evs, [ascii "343", thirteen] = pen :: argv ∧
      str2int .gnu pen = .ok (some iana) ∧ Given true argv data ∧ w'.log = start.log ++ evs ∧
      Blocks (firstBlock (-1)) iana data (written paramInitMbox evs) ∧
      (Announced accepting start → (written paramSetInProgress evs).getLast? = some [setComplete]) ∧
      (¬ Announced accepting start →
        written paramSetInProgress evs = if start.vars.useProgress then [[setInProgress]]
          else []) :=
  ⟨_, rfl, setBootmailbox_complete rfl fun h => absurd h (by decide)⟩

/-- All of the data in blocks with their numbers, and the completion announced last. -/
def WrittenCompletely (dialect : Dialect) (block : Int16) (useText : Bool)
    (args : List (List UInt8)) (evs : List Exchange) : Prop :=
  ∃ pen argv iana data, args = pen :: argv ∧ str2int dialect pen = .ok (some iana) ∧
    Given useText argv data ∧
    Blocks (firstBlock block) iana data (written paramInitMbox evs) ∧
    (written paramSetInProgress evs).getLast? = some [setComplete]

theorem Blocks.length {first : ℕ} {iana : ℤ} {data : List UInt8} {blocks : List (List UInt8)}
    (h : Blocks first iana data blocks) : first + blocks.length ≤ mboxMaxBlocks := by
  obtain ⟨contents, rfl, hle, -⟩ := h
  rw [List.length_mapIdx]
  exact hle

/-- Of one block that is block 0 the data is what stands behind its number and the manufacturer. -/
theorem Blocks.single {iana : ℤ} {data block : List UInt8} (h : Blocks 0 iana data [block]) :
    block.length = data.length + 4 := by
  obtain ⟨contents, hblocks, -, rfl⟩ := h
  have hlength := congrArg List.length hblocks
  rw [List.length_mapIdx] at hlength
  obtain ⟨content, rfl⟩ := List.length_eq_one_iff.mp hlength.symm
  obtain rfl := (List.cons.inj hblocks).1
  simp [blockOf, htoipmi24]

/-- The command returns zero, but a device without progress requests is never told of a completion,
a block takes no more than fits it, and the number of block 256 becomes that of block 0. -/
theorem setBootmailbox_incomplete :
    (∃ w', chassisSetBootmailbox withoutProgress .gnu (-1) false [ascii "343",
      ascii "1"] start = .ok (0, w') ∧
      ¬ WrittenCompletely .gnu (-1) false [ascii "343", ascii "1"] w'.log) ∧
    (∃ w', chassisSetBootmailbox accepting .gnu 0 true [ascii "343", thirteen] start = .ok (0, w') ∧
      ¬ WrittenCompletely .gnu 0 true [ascii "343", thirteen] w'.log) ∧
    ∃ w', chassisSetBootmailbox accepting .gnu 256 false [ascii "343", ascii "1"] start =
      .ok (0, w') ∧
      ¬ WrittenCompletely .gnu 256 false [ascii "343", ascii "1"] w'.log := by
  refine ⟨⟨_, rfl, ?_⟩, ⟨_, rfl, ?_⟩, ⟨_, rfl, ?_⟩⟩
  · rintro ⟨pen, argv, iana, data, -, -, -, -, hlast⟩
    exact absurd hlast (by decide)
  · rintro ⟨pen, argv, iana, data, hargs, -, hdata, hblocks, -⟩
    obtain ⟨rfl, rfl⟩ := List.cons.inj hargs
    obtain rfl : data = thirteen ++ [0] := hdata
    exact absurd (Blocks.single hblocks) (by decide)
  · rintro ⟨pen, argv, iana, data, -, -, -, hblocks, -⟩
    exact absurd hblocks.length (by decide)

end Ipmitool.Chassis.Mailbox
