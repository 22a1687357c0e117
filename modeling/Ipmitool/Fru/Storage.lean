import Ipmitool.Fru.ReadFirst

/-! # A device that stores an image

`Stores` says what an inventory device has to do: it answers a read with bytes of its image, at
least one if there is room for one, or says that the piece is too large; it tells its size
truthfully; a write that it accepts changes exactly the bytes that are written, and no block is
protected.

* `readArea_stored`: from such a device an area is read as it is, but for an odd byte at the end if
  the device is accessed by words.
* `writeArea_stored`: a write that is completed stores the area and nothing else. -/

namespace Ipmitool.Fru.Storage

open Ipmitool.Lib Ipmitool.Lib.Mem Ipmitool.Lib.Bytes Ipmitool.Lib.Machine Ipmitool.Lib.Dialogue
open Ipmitool.Core.Types Ipmitool.Core.Interface Ipmitool.Fru.Transfer Ipmitool.Fru.ReadFirst

/-- The number of bytes that are accessed at once. -/
def unit (access : Bool) : ℕ := if access then 2 else 1

theorem unit_pos (access : Bool) : 0 < unit access := by
  cases access <;> decide

theorem unit_le (access : Bool) : unit access ≤ 2 := by
  cases access <;> decide

theorem unit_dvd_countOf (access : Bool) (r : Reply) : unit access ∣ countOf access r := by
  cases access with
  | false => exact Nat.one_dvd _
  | true => exact Nat.dvd_mul_right 2 _

/-- The answer has bytes of the memory from `off` on. -/
structure Serves (access : Bool) (m : Memory UInt8) (off n : ℕ) (r : Reply) : Prop where
  ccode : r.ccode = 0
  count : countOf access r ≤ n
  room : countOf access r < r.dataLen
  some : unit access ≤ n → 0 < countOf access r
  bytes : ∀ i, i + 1 < r.dataLen → r.data (1 + i) = m (off + i)

/-- The device has `size` bytes, the image `image b` in the state `b`. -/
structure Stores {β : Type} (B : Bmc β) (id : UInt8) (size : ℕ) (access : Bool)
    (image : β → Memory UInt8) : Prop where
  quiet : ∀ b c, c.cmd ≠ 0x12 → image (B b c).2 = image b
  info : ∀ b r i, (B b (infoRequest id)).1 = some r → infoOf r = some i →
    i.size = size ∧ i.access = access
  read : ∀ b off n, off < size → n ≤ 255 → unit access ∣ off → ∃ r,
    (B b (readRequest id access off n)).1 = some r ∧
      (isTooLarge r.ccode = true ∧ 8 < n ∨ Serves access (image b) off n r)
  write : ∀ b off bytes r, off < 65536 → off + bytes.length ≤ 65536 → unit access ∣ off →
    (B b (writeRequest id access off bytes)).1 = some r → r.ccode ≠ 0x80 ∧
      image (B b (writeRequest id access off bytes)).2 =
        if r.ccode = 0 then write (image b) off bytes else image b

section
variable {β : Type} {B : Bmc β} {env : Env} {id : UInt8} {size : ℕ} {access : Bool}
  {image : β → Memory UInt8}

/-! ### Reading -/

/-- What is known of the device is right, and its pieces have room for one access. -/
structure Fits (size : ℕ) (access : Bool) (info : Info) : Prop where
  sized : info.size = size
  accessed : info.access = access
  room : unit access ≤ info.maxRead
  small : info.maxRead ≤ 255

/-- The destination has the bytes of `m` from `base` on up to `stop`. -/
def Copied (m dest : Memory UInt8) (base stop : ℕ) : Prop :=
  ∀ i, base + i < stop → dest i = m (base + i)

/-- What a transfer leaves: the bytes from `base` on, as far as they can be accessed. -/
structure Got (size : ℕ) (access : Bool) (m : Memory UInt8) (base finish : ℕ)
    (r : Read) : Prop where
  error : r.error = none
  info : Fits size access r.info
  bytes : ∃ stop, base ≤ stop ∧ stop ≤ finish ∧ finish < stop + unit access ∧
    unit access ∣ stop - base ∧
    Copied m r.dest base stop

/-- All of an area whose length can be accessed is read. -/
theorem Got.all {m : Memory UInt8} {base finish : ℕ} {r : Read}
    (h : Got size access m base finish r) (hunit : unit access ∣ finish - base) :
    Copied m r.dest base finish := by
  obtain ⟨stop, hle, hstop, hlt, hdvd, hcopied⟩ := h.bytes
  have hrest : unit access ∣ finish - stop := by
    have hsub := Nat.dvd_sub hunit hdvd
    rwa [show finish - base - (stop - base) = finish - stop by omega] at hsub
  have hzero : finish - stop = 0 := Nat.eq_zero_of_dvd_of_lt hrest (by omega)
  obtain rfl : stop = finish := by omega
  exact hcopied

theorem Copied.write {m dest : Memory UInt8} {base off n : ℕ} {data : Memory UInt8}
    (h : Copied m dest base off) (hbase : base ≤ off)
    (hdata : ∀ i < n, data (1 + i) = m (off + i)) :
    Copied m (write dest (off - base) (Mem.read data 1 n)) base (off + n) := by
  intro i hi
  by_cases hlt : base + i < off
  · rw [write_below _ _ (by omega)]
    exact h i hlt
  · obtain ⟨j, rfl⟩ : ∃ j, i = off - base + j := ⟨i - (off - base), by omega⟩
    have hj : j < n := by omega
    rw [write_inside _ _ _ (by rwa [length_read]), getElem_read, hdata j hj]
    congr 1
    omega

/-- **A transfer from a device that stores an image.** -/
theorem readLoop_stored (hB : Stores B id size access image) {base finish : ℕ}
    (hfinish : finish ≤ size) :
    ∀ (fuel : ℕ) (info : Info) (off : ℕ) (dest : Memory UInt8) (w : CmdWorld Unit β),
    Fits size access info → base ≤ off → off < finish → unit access ∣ base → unit access ∣ off →
    finish - off + info.maxRead < fuel → Copied (image w.device) dest base off →
    ∃ r w', readLoop B id base finish fuel info off dest w = .ok (r, w') ∧
      image w'.device = image w.device ∧ Got size access (image w.device) base finish r
  | 0, info, off, dest, w, _, _, _, _, _, hfuel, _ => by omega
  | fuel + 1, info, off, dest, w, hfits, hle, hlt, hbase, hoff, hfuel, hcopied => by
    have hroom := hfits.room
    have hsmall := hfits.small
    have hunit := unit_pos access
    have hunit2 := unit_le access
    obtain ⟨r, hr, hanswer⟩ :=
      hB.read w.device off (min (finish - off) info.maxRead) (by omega) (by omega) hoff
    have hquiet :
        image (w.asked B (readRequest id access off (min (finish - off) info.maxRead))).device =
        image w.device := hB.quiet _ _ (show (0x11 : UInt8) ≠ 0x12 by decide)
    have hrequest : readRequest id info.access off = readRequest id access off := by
      rw [hfits.accessed]
    have hcountOf : countOf info.access r = countOf access r := by rw [hfits.accessed]
    rw [readLoop, hrequest, bind_run (ask_ok.mpr ⟨hr, rfl⟩)]
    simp only [hcountOf]
    rcases hanswer with ⟨hlarge, hn⟩ | hserves
    · -- the piece is too large
      have hccode : r.ccode ≠ 0 := by
        intro h0
        rw [h0] at hlarge
        exact absurd hlarge (by decide)
      have hsmaller : smaller info.maxRead < info.maxRead ∧ 2 ≤ smaller info.maxRead := by
        unfold smaller
        split_ifs <;> omega
      have hfits' : Fits size access { info with maxRead := smaller info.maxRead } :=
        ⟨hfits.sized, hfits.accessed, Nat.le_trans hunit2 hsmaller.2,
          Nat.le_trans (Nat.le_of_lt hsmaller.1) hsmall⟩
      have hnext := readLoop_stored hB hfinish fuel _ off dest
        (w.asked B (readRequest id access off (min (finish - off) info.maxRead))) hfits' hle
          hlt hbase hoff
        (by dsimp only; omega) (by rw [hquiet]; exact hcopied)
      rw [hquiet] at hnext
      rw [if_pos hccode, if_pos ⟨hlarge, by omega⟩]
      exact hnext
    · have hcount := hserves.count
      have hdata := hserves.room
      have hpiece := hcopied.write hle fun i (hi : i < countOf access r) =>
        hserves.bytes i (by omega)
      have hoff' : unit access ∣ off + countOf access r :=
        Nat.dvd_add hoff (unit_dvd_countOf access r)
      rw [if_neg (by simp [hserves.ccode]), if_neg (by omega), if_neg (by omega)]
      by_cases hdone : finish ≤ off + countOf access r ∨ countOf access r = 0
      · rw [if_pos hdone]
        refine ⟨_, _, rfl, hquiet, rfl, hfits, off + countOf access r, by omega, by omega, ?_,
          Nat.dvd_sub hoff' hbase, hpiece⟩
        rcases hdone with hdone | hdone
        · omega
        · -- nothing was delivered, so there was no room for one access
          have hnot : ¬ unit access ≤ min (finish - off) info.maxRead := fun hc =>
            absurd (hserves.some hc) (by omega)
          omega
      · have hnext := readLoop_stored hB hfinish fuel info (off + countOf access r) _
          (w.asked B (readRequest id access off (min (finish - off) info.maxRead))) hfits (by omega)
            (by omega) hbase
          hoff' (by omega) (by rw [hquiet]; exact hpiece)
        rw [hquiet] at hnext
        rw [if_neg hdone]
        exact hnext

/-- What is known of the device before and after a first read. -/
def Learnt (size : ℕ) (access : Bool) (info : Info) : Prop :=
  info.size = size ∧ info.access = access ∧ (info.maxRead = 0 ∨ Fits size access info)

theorem firstSize_fits {info : Info} {maxRead : ℕ} (h : Learnt size access info)
    (hfirst : firstSize env info = some maxRead) : Fits size access { info with maxRead } := by
  obtain ⟨hsize, haccess, hmax⟩ := h
  unfold firstSize at hfirst
  by_cases h0 : info.maxRead = 0
  · rw [if_neg (by simpa using h0)] at hfirst
    rw [haccess] at hfirst
    by_cases henv : env.maxResponse ≤ 2
    · rw [if_pos henv] at hfirst
      cases hfirst
    rw [if_neg henv] at hfirst
    cases access with
    | false =>
      simp only [Bool.false_eq_true, if_false] at hfirst
      split_ifs at hfirst with hzero
      obtain rfl := Option.some.inj hfirst
      refine ⟨hsize, haccess, ?_, ?_⟩
      · show 1 ≤ min (env.maxResponse - 2) 255
        omega
      · show min (env.maxResponse - 2) 255 ≤ 255
        omega
    | true =>
      simp only [if_true] at hfirst
      split_ifs at hfirst with hzero
      obtain rfl := Option.some.inj hfirst
      refine ⟨hsize, haccess, ?_, ?_⟩
      · show 2 ≤ min (env.maxResponse - 2) 255 / 2 * 2
        omega
      · show min (env.maxResponse - 2) 255 / 2 * 2 ≤ 255
        omega
  · rw [if_pos h0] at hfirst
    obtain rfl := Option.some.inj hfirst
    exact hmax.resolve_left h0

/-- **An area is read as it is.** -/
theorem readArea_stored (hB : Stores B id size access image) {info : Info}
    (hinfo : Learnt size access info) {offset length : ℕ} (hoffset : offset < size)
    (hlength : 0 < length) (hunit : unit access ∣ offset) {w w' : CmdWorld Unit β} {r : Read}
    (h : readArea B env id info offset length w = .ok (r, w'))
    (hfirst : r.error = none ∨ info.maxRead ≠ 0) :
    image w'.device = image w.device ∧
    Got size access (image w.device) offset (min (offset + length) size) r := by
  have hsize := hinfo.1
  unfold readArea at h
  rw [if_neg (by omega)] at h
  rcases hmax : firstSize env info with _ | maxRead
  · rw [hmax] at h
    obtain ⟨rfl, -⟩ := pure_ok.mp h
    rcases hfirst with hfirst | hfirst
    · cases hfirst
    · unfold firstSize at hmax
      rw [if_pos hfirst] at hmax
      cases hmax
  · rw [hmax] at h
    have hle : min (offset + length) info.size ≤ size := hsize ▸ Nat.min_le_right _ _
    obtain ⟨r', w₁, hrun, himage, hgot⟩ :=
      readLoop_stored hB hle _ _ offset (fun _ => 0) w (firstSize_fits hinfo hmax)
        (Nat.le_refl offset) (by omega) hunit hunit (Nat.lt_succ_self _) fun i hi => by omega
    obtain ⟨rfl, rfl⟩ := Prod.mk.inj (Except.ok.inj (hrun.symm.trans h))
    rw [hsize] at hgot
    exact ⟨himage, hgot⟩

/-! ### Only writes change the image -/

/-- The image stays as it is. -/
def still (image : β → Memory UInt8) : Frame (CmdWorld Unit β) := .same fun w => image w.device

theorem moves_sendrecv (hB : Stores B id size access image) {c : Command} (hc : c.cmd ≠ 0x12) :
    Moves (still image) (sendrecv B c) := by
  intro w o w' h
  obtain ⟨-, rfl⟩ := ask_ok.mp h
  exact hB.quiet w.device c hc

theorem moves_readLoop (hB : Stores B id size access image) (id' : UInt8) (base finish : ℕ) :
    ∀ (fuel : ℕ) (info : Info) (off : ℕ) (dest : Memory UInt8),
    Moves (still image) (readLoop B id' base finish fuel info off dest)
  | 0, info, off, dest => .pure _
  | fuel + 1, info, off, dest => by
    refine .bind (moves_sendrecv hB (show (0x11 : UInt8) ≠ 0x12 by decide)) fun o => ?_
    rcases o with _ | r
    · exact .pure _
    · exact .ite (fun _ => .ite (fun _ => moves_readLoop hB id' base finish fuel _ _ _)
      fun _ => .pure _)
        fun _ => .ite (fun _ => .pure _) fun _ => .ite (fun _ => .pure _) fun _ =>
          .ite (fun _ => .pure _) fun _ => moves_readLoop hB id' base finish fuel _ _ _

theorem moves_readArea (hB : Stores B id size access image) (info : Info) (offset length : ℕ) :
    Moves (still image) (readArea B env id info offset length) := by
  refine .ite (fun _ => .pure _) fun _ => ?_
  rcases firstSize env info with _ | maxRead
  · exact .pure _
  · exact moves_readLoop hB id _ _ _ _ _ _

theorem moves_recordBlocks (hB : Stores B id size access image) :
    ∀ (fuel : ℕ) (info : Info) (off : ℕ) (blocks : List Block), Moves (still image)
      (recordBlocks B env id fuel info off blocks)
  | 0, info, off, blocks => .pure _
  | fuel + 1, info, off, blocks => by
    refine .ite (fun _ => .pure _) fun _ => .ite (fun _ => .pure _) fun _ =>
      .bind (moves_readArea hB info off 5) fun r => .ite (fun _ => .pure _) fun _ =>
        .ite (fun _ => .pure _) fun _ => moves_recordBlocks hB fuel _ _ _

theorem moves_buildBlocks (hB : Stores B id size access image) (info : Info) :
    Moves (still image) (buildBlocks B env id info) := by
  refine .bind (moves_sendrecv hB (show (0x11 : UInt8) ≠ 0x12 by decide)) fun o => ?_
  rcases o.bind headerOf with _ | header
  · exact .pure _
  · exact .ite (fun _ => .pure _) fun _ => .bind (moves_recordBlocks hB _ _ _ _) fun r => .pure _

theorem recordBlocks_access : ∀ (fuel : ℕ) (info : Info) (off : ℕ) (blocks : List Block),
    Gives (fun r => r.1.access = info.access) (recordBlocks B env id fuel info off blocks)
  | 0, info, off, blocks => .pure rfl
  | fuel + 1, info, off, blocks => by
    refine .ite (fun _ => .pure rfl) fun _ => .ite (fun _ => .pure rfl) fun _ => ?_
    intro w a w' h
    obtain ⟨r, t, hread, h⟩ := bind_ok.mp h
    have haccess := (readArea_tells hread).1
    split_ifs at h with herror hlast
    · obtain ⟨rfl, -⟩ := pure_ok.mp h
      exact haccess
    · obtain ⟨rfl, -⟩ := pure_ok.mp h
      exact haccess
    · exact (recordBlocks_access fuel _ _ _ t a w' h).trans haccess

theorem buildBlocks_access (info : Info) :
    Gives (fun r => r.1.access = info.access) (buildBlocks B env id info) := by
  refine .bind fun o => ?_
  rcases o.bind headerOf with _ | header
  · exact .pure rfl
  · refine .ite (fun _ => .pure rfl) fun _ => ?_
    intro w a w' h
    obtain ⟨r, t, hrecords, h⟩ := bind_ok.mp h
    obtain ⟨rfl, -⟩ := pure_ok.mp h
    exact recordBlocks_access _ _ _ _ w r t hrecords

/-! ### Writing -/

/-- The memory with the bytes of `source` from `off` up to `finish`; `source` begins at `base`. -/
def stored (m source : Memory UInt8) (base off finish : ℕ) : Memory UInt8 := fun x =>
  if off ≤ x ∧ x < finish then source (x - base) else m x

theorem stored_nil {m source : Memory UInt8} {base off finish : ℕ} (h : finish ≤ off) :
    stored m source base off finish = m := by
  funext x
  exact if_neg (by omega)

theorem stored_write {m source : Memory UInt8} {base off n finish : ℕ} (hbase : base ≤ off)
    (hn : off + n ≤ finish) :
    stored (write m off (Mem.read source (off - base) n)) source base (off + n) finish =
      stored m source base off finish := by
  funext x
  unfold stored
  by_cases hlow : x < off
  · rw [if_neg (by omega), if_neg (by omega), write_below _ _ hlow]
  by_cases hpiece : x < off + n
  · obtain ⟨i, rfl⟩ : ∃ i, x = off + i := ⟨x - off, by omega⟩
    rw [if_neg (by omega), if_pos (by omega), write_inside _ _ _ (by rw [length_read]; omega),
      getElem_read]
    congr 1
    omega
  · rw [write_above _ _ (by rw [length_read]; omega)]
    by_cases hin : x < finish
    · rw [if_pos (by omega), if_pos (by omega)]
    · rw [if_neg (by omega), if_neg (by omega)]

theorem blockEnd_le (blocks : List Block) (off finish : ℕ) :
    blockEnd blocks off finish ≤ finish := by
  unfold blockEnd
  split
  · exact Nat.le_refl _
  · exact Nat.min_le_right _ _

theorem pieceLength_le (access : Bool) (remaining maxWrite : ℕ) :
    pieceLength access remaining maxWrite ≤ remaining := by
  unfold pieceLength
  dsimp only
  split_ifs <;> omega

theorem unit_dvd_pieceLength (access : Bool) (remaining maxWrite : ℕ) :
    unit access ∣ pieceLength access remaining maxWrite := by
  cases access with
  | false => exact Nat.one_dvd _
  | true => exact Nat.dvd_mul_left _ _

/-- **A write that is completed**, from any place on. -/
theorem writeLoop_stored (hB : Stores B id size access image) {blocks : List Block}
    {source : Memory UInt8}
    {base finish : ℕ} (hfinish : finish ≤ 65536) : ∀ (fuel : ℕ) (info : Info) (off : ℕ)
    (w : CmdWorld Unit β) (info' : Info) (w' : CmdWorld Unit β), info.access = access → base ≤ off →
    unit access ∣ off →
    writeLoop B id blocks source base finish fuel info off w = .ok ((true, info'), w') →
    image w'.device = stored (image w.device) source base off finish
  | 0, info, off, w, info', w', _, _, _, h => by
    obtain ⟨hout, -⟩ := pure_ok.mp h
    exact absurd (Prod.mk.inj hout).1 (by decide)
  | fuel + 1, info, off, w, info', w', haccess, hle, hoff, h => by
    have hfalse : ∀ {t : CmdWorld Unit β}, (Pure.pure (false, info) : Talk β (Bool × Info)) t =
        .ok ((true, info'), w') →
        False := fun h => absurd (Prod.mk.inj (pure_ok.mp h).1).1 (by decide)
    rw [writeLoop] at h
    by_cases hdone : finish ≤ off
    · rw [if_pos hdone] at h
      obtain ⟨-, rfl⟩ := pure_ok.mp h
      exact (stored_nil hdone).symm
    rw [if_neg hdone] at h
    have hend := blockEnd_le blocks off finish
    generalize hn :
      pieceLength info.access (blockEnd blocks off finish - off) info.maxWrite = n at h
    have hle' : n ≤ finish - off := by
      have hp := pieceLength_le info.access (blockEnd blocks off finish - off) info.maxWrite
      omega
    have hoff' : unit access ∣ off + n := by
      rw [← hn, haccess]
      exact Nat.dvd_add hoff (unit_dvd_pieceLength _ _ _)
    by_cases h0 : n = 0
    · rw [if_pos h0] at h
      exact (hfalse h).elim
    rw [if_neg h0] at h
    obtain ⟨o, t, hask, h⟩ := bind_ok.mp h
    obtain ⟨ho, rfl⟩ := ask_ok.mp hask
    rcases o with _ | r
    · exact (hfalse h).elim
    rw [haccess] at ho
    obtain ⟨hprotected, himage⟩ := hB.write w.device off (Mem.read source (off - base) n) r
      (by omega) (by rw [length_read]; omega) hoff ho
    have hafter : image (w.asked B (writeRequest id info.access off
        (Mem.read source (off - base) n))).device =
        if r.ccode = 0 then write (image w.device) off (Mem.read source (off - base) n)
          else image w.device := by
      rw [haccess]
      exact himage
    dsimp only at h
    by_cases hlarge : isTooLarge r.ccode = true ∧ 32 < info.maxWrite
    · have hccode : r.ccode ≠ 0 := by
        intro hz
        rw [hz] at hlarge
        exact absurd hlarge.1 (by decide)
      rw [if_neg hccode] at hafter
      rw [if_pos hlarge] at h
      rw [writeLoop_stored hB hfinish fuel { info with maxWrite := info.maxWrite -
        8 } off _ info' w' haccess hle hoff h, hafter]
    rw [if_neg hlarge, if_neg hprotected] at h
    by_cases hccode : r.ccode = 0
    · rw [if_pos hccode] at hafter
      rw [if_neg (by simpa using hccode)] at h
      rw [writeLoop_stored hB hfinish fuel info (off + n) _ info' w' haccess (by omega) hoff' h,
        hafter]
      exact stored_write hle (by omega)
    · rw [if_pos (by simpa using hccode)] at h
      exact (hfalse h).elim

/-- **A completed write stores the area** and nothing else. -/
theorem writeArea_stored (hB : Stores B id size access image) {info : Info}
    (haccess : info.access = access) (hsize : info.size < 65536) {offset length : ℕ}
    {source : Memory UInt8} {w w' : CmdWorld Unit β} {info' : Info}
    (h : writeArea B env id info offset source length w = .ok ((true, info'), w')) :
    unit access ∣ offset ∧ unit access ∣ length ∧
      image w'.device = stored (image w.device) source offset offset (offset + length) := by
  have hfalse : ∀ {i : Info} {t : CmdWorld Unit β},
      (Pure.pure (false, i) : Talk β (Bool × Info)) t = .ok ((true, info'), w') →
      False := fun h => absurd (Prod.mk.inj (pure_ok.mp h).1).1 (by decide)
  rw [writeArea] at h
  by_cases hrange : info.size < offset ∨ info.size - offset < length
  · rw [if_pos hrange] at h
    exact (hfalse h).elim
  rw [if_neg hrange] at h
  by_cases hodd : info.access = true ∧ (offset % 2 = 1 ∨ length % 2 = 1)
  · rw [if_pos hodd] at h
    exact (hfalse h).elim
  rw [if_neg hodd] at h
  have heven : unit access ∣ offset ∧ unit access ∣ length := by
    rw [haccess] at hodd
    cases access with
    | false => exact ⟨Nat.one_dvd _, Nat.one_dvd _⟩
    | true =>
      have hnot : ¬ (offset % 2 = 1 ∨ length % 2 = 1) := fun hc => hodd ⟨rfl, hc⟩
      show 2 ∣ offset ∧ 2 ∣ length
      omega
  obtain ⟨b, t, hblocks, h⟩ := bind_ok.mp h
  have himage : image t.device = image w.device := (moves_buildBlocks hB info).rel hblocks
  have hb : b.1.access = access := (buildBlocks_access info w b t hblocks).trans haccess
  rcases hfirst : firstWrite env b.1 with _ | maxWrite
  · rw [hfirst] at h
    exact (hfalse h).elim
  · rw [hfirst] at h
    rw [← himage]
    exact ⟨heven.1, heven.2,
      writeLoop_stored hB (by omega) _ { b.1 with maxWrite } offset t info' w' hb (Nat.le_refl _)
      heven.1 h⟩

end

end Ipmitool.Fru.Storage
