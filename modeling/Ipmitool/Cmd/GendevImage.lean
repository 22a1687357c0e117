import Ipmitool.Cmd.Gendev

/-! # An EEPROM keeps an image

A device that stores what it is sent: at each address of the bus there is a memory, and a request
names an address, an offset in it, and bytes to write or a number of bytes to read. Inside the chip
a write goes round at the end of a page, and a read at the end of the memory. Requests and replies
may be lost, at any time.

What `writeFile` has written, `readFile` reads again (`eeprom_survives`). The invariant of the first
is that the bytes up to the counter are at their places; it is kept by every attempt, as no two
offsets have the same place and no piece leaves its page. -/

namespace Ipmitool.Cmd.Gendev

open Ipmitool.Core.Types Ipmitool.Core.Interface Ipmitool.Lib.Machine Ipmitool.Lib.Dialogue

/-! ### The device -/

/-- What becomes of a request. -/
inductive Fate where
  | answered
  | replyLost
  | requestLost

/-- The memories at the addresses of a bus. -/
abbrev Chips := UInt8 → ℕ → UInt8

/-- The cells of a memory. -/
def capacity (info : Eeprom) : ℕ := if info.size ≤ 65536 then info.size else bankSize info

/-- The cell that the byte `i` of a write at `off` goes to. -/
def cell (info : Eeprom) (off i : ℕ) : ℕ :=
  off / info.pageSize * info.pageSize + (off % info.pageSize + i) % info.pageSize

/-- A write of bytes at `off`, from the byte `i` on. -/
def burn (info : Eeprom) (off : ℕ) : ℕ → List UInt8 → (ℕ → UInt8) → ℕ → UInt8
  | _, [], m => m
  | i, b :: bs, m => burn info off (i + 1) bs (Function.update m (cell info off i) b)

/-- A read of `n` bytes at `off`. -/
def fetch (info : Eeprom) (off n : ℕ) (m : ℕ → UInt8) : List UInt8 :=
  (List.range n).map fun i => m ((off + i) % capacity info)

/-- The number that bytes say, the low byte first. -/
def offsetOf (bytes : List UInt8) : ℕ := bytes.foldr (fun b n => b.toNat + 256 * n) 0

/-- Master Write-Read. -/
def execute (info : Eeprom) (c : Command) (m : Chips) : Reply × Chips :=
  match c.data with
  | _ :: addr :: rsize :: wdata =>
    let off := offsetOf (wdata.take info.addressLength)
    let m' := Function.update m addr (burn info off 0 (wdata.drop info.addressLength) (m addr))
    (Reply.of (fetch info off rsize.toNat (m' addr)), m')
  | _ => ({ ccode := 0xc7 }, m)

/-- The state of the device: the number of requests so far, and the memories. -/
structure Store where
  time : ℕ
  chips : Chips

/-- The device, with what becomes of the requests. -/
def eeprom (info : Eeprom) (fates : ℕ → Fate) : Bmc Store := fun s c =>
  match fates s.time with
  | .answered => (some (execute info c s.chips).1, ⟨s.time + 1, (execute info c s.chips).2⟩)
  | .replyLost => (none, ⟨s.time + 1, (execute info c s.chips).2⟩)
  | .requestLost => (none, ⟨s.time + 1, s.chips⟩)

/-! ### Reads and writes of a piece -/

theorem execute_piece {dev : GenLocator} {info : Eeprom} (G : Geometry dev info)
    {d : Direction} {o : ℕ}
    (ho : o < info.size) (addr : UInt8) (m : Chips) :
    execute info (pieceRequest dev info d addr o) m =
      let m' := Function.update m addr
        (burn info (memoryOffset info o) 0 (d.payload o (transferSize info o)) (m addr))
      (Reply.of (fetch info (memoryOffset info o) (d.readLen (transferSize info o)) (m' addr)),
        m') := by
  obtain ⟨hlen, hoff⟩ := addressBytes_ofNat G.length (G.address ho).2
  have htake : ∀ l, (addressBytes info (memoryOffset info o) ++ l).take info.addressLength =
      addressBytes info (memoryOffset info o) := fun l => hlen ▸ List.take_left
  have hdrop : ∀ l, (addressBytes info (memoryOffset info o) ++ l).drop info.addressLength = l :=
    fun l => hlen ▸ List.drop_left
  have hread : (UInt8.ofNat (d.readLen (transferSize info o))).toNat =
      d.readLen (transferSize info o) := by
    have hle := transferSize_le info o
    unfold maxTransfer at hle
    refine UInt8.toNat_ofNat_of_lt' ?_
    cases d with
    | read => exact Nat.lt_of_le_of_lt hle (by decide)
    | write content => exact Nat.zero_lt_succ _
  simp only [execute, pieceRequest, masterRequest, List.cons_append, List.nil_append, htake,
    hdrop, hread]
  rw [offsetOf, hoff]

section
variable {dev : GenLocator} {info : Eeprom} {o : ℕ}

/-- A byte of a piece goes where its offset says: the piece does not leave its page. -/
theorem Geometry.cell_eq (G : Geometry dev info) (hpiece : pieceSize info ∣ o) {i : ℕ}
    (hi : i < transferSize info o) : cell info (memoryOffset info o) i =
      memoryOffset info o + i := by
  obtain ⟨hpage, -, hmem⟩ := G.within hpiece hi
  rw [hmem] at hpage
  rw [cell, Nat.mod_add_mod, ← hpage, Nat.div_add_mod']

/-- A write that does not go round writes its bytes one behind the other. -/
theorem burn_piece (off : ℕ) : ∀ (bytes : List UInt8) (i : ℕ) (m : ℕ → UInt8),
    (∀ j, i ≤ j → j < i + bytes.length → cell info off j = off + j) →
    (∀ j < bytes.length, burn info off i bytes m (off + i + j) = bytes.getD j 0) ∧
      ∀ a, (a < off + i ∨ off + i + bytes.length ≤ a) → burn info off i bytes m a = m a := by
  intro bytes
  induction bytes with
  | nil => exact fun i m _ => ⟨fun j hj => absurd hj (Nat.not_lt_zero j), fun a _ => rfl⟩
  | cons b bs ih =>
    intro i m hcell
    rw [List.length_cons] at hcell ⊢
    have hhere : cell info off i = off + i := hcell i (Nat.le_refl i) (by omega)
    obtain ⟨hin, hout⟩ := ih (i + 1) (Function.update m (cell info off i) b)
      fun j hj hlt => hcell j (by omega) (by omega)
    rw [hhere] at hin hout
    refine ⟨fun j hj => ?_, fun a ha => ?_⟩
    · rw [burn, hhere]
      cases j with
      | zero =>
        rw [hout _ (.inl (by omega)), Nat.add_zero, Function.update_self]
        rfl
      | succ j =>
        rw [show off + i + (j + 1) = off + (i + 1) + j by omega, hin j (by omega)]
        rfl
    · rw [burn, hhere, hout a (by omega), Function.update_of_ne (by omega)]

theorem memoryOffset_lt_capacity (G : Geometry dev info) (ho : o < info.size) :
    memoryOffset info o < capacity info := by
  rw [memoryOffset, capacity]
  split_ifs with hsmall
  · exact ho
  · exact Nat.mod_lt _ (G.bank_pos (Nat.not_le.mp hsmall))

/-! ### The image -/

/-- The bytes of an image up to `o` are at their places. -/
def Holds (dev : GenLocator) (info : Eeprom) (image : List UInt8) (o : ℕ) (chips : Chips) : Prop :=
  ∀ j < o, ∀ addr, deviceAddress dev info j = .ok addr →
    chips addr (memoryOffset info j) = image.getD j 0

theorem Holds.of_le {image : List UInt8} {o o' : ℕ} {chips : Chips}
    (h : Holds dev info image o chips) (hle : o' ≤ o) : Holds dev info image o' chips :=
  fun j hj => h j (by omega)

theorem add_transferSize_le (ho : o < info.size) : o + transferSize info o ≤ info.size := by
  have hle := Nat.min_le_left (info.size - o) (min info.pageSize maxTransfer)
  rw [transferSize]
  omega

theorem getD_slice {image : List UInt8} {o n i : ℕ} (hi : i < n) :
    ((image.drop o).take n).getD i 0 = image.getD (o + i) 0 := by
  rw [List.getD_eq_getElem?_getD, List.getD_eq_getElem?_getD, List.getElem?_take_of_lt hi,
    List.getElem?_drop]

/-- A write of a piece of an image puts its bytes in their places and leaves the others. -/
theorem Holds.write (G : Geometry dev info) {image : List UInt8} (hlen : image.length = info.size)
    (ho : o < info.size) (hpiece : pieceSize info ∣ o) {addr : UInt8}
    (haddr : deviceAddress dev info o = .ok addr) {chips : Chips}
    (h : Holds dev info image o chips) :
    Holds dev info image (o + transferSize info o)
      (execute info (pieceRequest dev info (.write image) addr o) chips).2 := by
  have hend := add_transferSize_le ho
  have hpayload : ((image.drop o).take (transferSize info o)).length = transferSize info o := by
    rw [List.length_take, List.length_drop, hlen]
    omega
  obtain ⟨hin, hout⟩ :=
    burn_piece (memoryOffset info o) ((image.drop o).take (transferSize info o)) 0 (chips addr)
      fun j _ hj => G.cell_eq hpiece (by omega)
  rw [hpayload] at hin hout
  rw [execute_piece G ho]
  intro j hj a ha
  change Function.update chips addr
    (burn info _ 0 ((image.drop o).take (transferSize info o)) _) a _ = _
  by_cases hjo : j < o
  · rcases eq_or_ne a addr with rfl | hne
    · have hother : memoryOffset info j < memoryOffset info o + 0 ∨
          memoryOffset info o + 0 + transferSize info o ≤ memoryOffset info j := by
        by_contra hnot
        have hi : memoryOffset info j - memoryOffset info o < transferSize info o := by omega
        obtain ⟨-, hbank, hmem⟩ := G.within hpiece hi
        have heq := G.injective (show j < info.size by omega)
          (show o + (memoryOffset info j - memoryOffset info o) < info.size by omega)
            (by rw [ha, hbank, haddr])
          (by rw [hmem]; omega)
        omega
      rw [Function.update_self, hout _ hother, h j hjo a ha]
    · rw [Function.update_of_ne hne, h j hjo a ha]
  · obtain ⟨i, rfl⟩ : ∃ i, j = o + i := ⟨j - o, by omega⟩
    obtain ⟨-, hbank, hmem⟩ := G.within hpiece (show i < transferSize info o by omega)
    obtain rfl : addr = a := Except.ok.inj (haddr.symm.trans (hbank.symm.trans ha))
    have hbyte := hin i (by omega)
    rw [Function.update_self, hmem]
    rw [Nat.add_zero] at hbyte
    rw [hbyte, getD_slice (show i < transferSize info o by omega)]

theorem Holds.read (G : Geometry dev info) {image : List UInt8} (hlen : image.length = info.size)
    (ho : o < info.size) (hpiece : pieceSize info ∣ o) {addr : UInt8}
    (haddr : deviceAddress dev info o = .ok addr) {chips : Chips}
    (h : Holds dev info image info.size chips) :
    execute info (pieceRequest dev info .read addr o) chips =
      (Reply.of ((image.drop o).take (transferSize info o)), chips) := by
  have hend := add_transferSize_le ho
  have hfetch : fetch info (memoryOffset info o) (transferSize info o) (chips addr) =
      (image.drop o).take (transferSize info o) := by
    refine List.ext_getElem ?_ fun i hi hi' => ?_
    · rw [fetch, List.length_map, List.length_range, List.length_take, List.length_drop, hlen]
      omega
    · have hlt : i < transferSize info o := by simpa [fetch] using hi
      obtain ⟨-, hbank, hmem⟩ := G.within hpiece hlt
      have hcap := memoryOffset_lt_capacity G (show o + i < info.size by omega)
      have hbyte := h (o + i) (by omega) addr (hbank.trans haddr)
      rw [hmem] at hcap hbyte
      rw [← getD_slice hlt, List.getD_eq_getElem?_getD, List.getElem?_eq_getElem hi',
        Option.getD_some] at hbyte
      rw [← hbyte]
      simp only [fetch, List.getElem_map, List.getElem_range, Nat.mod_eq_of_lt hcap]
  rw [execute_piece G ho]
  simp only [Direction.payload, Direction.readLen, burn, Function.update_eq_self, hfetch]

/-! ### Runs -/

theorem eeprom_chips {P : Chips → Prop} {fates : ℕ → Fate} {s : Store} {c : Command}
    (hold : P s.chips) (hnew : P (execute info c s.chips).2) :
    P (eeprom info fates s c).2.chips := by
  unfold eeprom
  cases fates s.time with
  | answered => exact hnew
  | replyLost => exact hnew
  | requestLost => exact hold

theorem eeprom_answer {fates : ℕ → Fate} {s : Store} {c : Command} {rsp : Reply}
    (h : answer (eeprom info fates s c).1 = some rsp) :
    rsp = (execute info c s.chips).1 ∧
      (eeprom info fates s c).2.chips = (execute info c s.chips).2 := by
  unfold eeprom at h ⊢
  cases hfate : fates s.time with
  | answered =>
    rw [hfate] at h
    exact ⟨(Option.some.inj (Option.eq_some_of_filter_eq_some h)).symm, rfl⟩
  | replyLost =>
    rw [hfate] at h
    cases h
  | requestLost =>
    rw [hfate] at h
    cases h

theorem serves_write (G : Geometry dev info) {image : List UInt8} (hlen : image.length = info.size)
    (fates : ℕ → Fate) :
    Serves (eeprom info fates) dev info (.write image) (fun o s => Holds dev info image o s.chips)
      (fun _ _ => True) := by
  intro o addr s ho hpiece haddr hI
  have hnew := hI.write G hlen ho hpiece haddr
  refine ⟨eeprom_chips (P := fun m => Holds dev info image o m) hI
    (hnew.of_le (Nat.le_add_right _ _)), fun rsp hrsp => ?_⟩
  change _ ∧ Holds dev info image _ _
  rw [(eeprom_answer hrsp).2]
  exact ⟨trivial, hnew⟩

theorem serves_read (G : Geometry dev info) {image : List UInt8} (hlen : image.length = info.size)
    (fates : ℕ → Fate) :
    Serves (eeprom info fates) dev info .read (fun _ s => Holds dev info image info.size s.chips)
      (fun o rsp => rsp = Reply.of ((image.drop o).take (transferSize info o))) := by
  intro o addr s ho hpiece haddr hI
  have hread := hI.read G hlen ho hpiece haddr
  have hsame : Holds dev info image info.size
      (eeprom info fates s (pieceRequest dev info .read addr o)).2.chips :=
    eeprom_chips (P := fun m => Holds dev info image info.size m) hI (by rw [hread]; exact hI)
  refine ⟨hsame, fun rsp hrsp => ⟨?_, hsame⟩⟩
  rw [(eeprom_answer hrsp).1, hread]

theorem read_of (bytes : List UInt8) :
    Lib.Mem.read (Reply.of bytes).data 0 bytes.length = bytes := by
  refine List.ext_getElem (by simp) fun i hi hi' => ?_
  rw [Lib.Mem.getElem_read, Nat.zero_add]
  change bytes.getD i 0 = _
  rw [List.getD_eq_getElem?_getD, List.getElem?_eq_getElem hi', Option.getD_some]

theorem gain_image {image : List UInt8} (hlen : image.length = info.size) :
    ∀ {ps : List Piece} {o : ℕ},
    Contiguous info o ps →
      Whole info (fun o rsp => rsp = Reply.of ((image.drop o).take (transferSize info o)) ∧
      transferSize info o ≤ rsp.dataLen) o ps →
        ps.flatMap (Direction.read.gain info ·) = image.drop o := by
  intro ps
  induction ps with
  | nil =>
    rintro o - ⟨hend, -⟩
    rw [List.flatMap_nil, List.drop_of_length_le]
    exact Nat.le_of_eq (hlen.trans hend.symm)
  | cons p ps ih =>
    rintro o ⟨hoff, ho, hrest⟩ ⟨hend, hall⟩
    obtain ⟨⟨rsp, hr, hrsp, -⟩, hothers⟩ := List.forall_mem_cons.mp hall
    have hslice : ((image.drop o).take (transferSize info o)).length = transferSize info o := by
      have hle := add_transferSize_le ho
      rw [List.length_take, List.length_drop, hlen]
      omega
    have hgain : Direction.read.gain info p = (image.drop o).take (transferSize info o) := by
      rw [Direction.gain, hr, Option.elim, hrsp, hoff]
      exact (congrArg _ hslice.symm).trans (read_of _)
    rw [List.map_cons, List.sum_cons, hoff, ← Nat.add_assoc] at hend
    rw [List.flatMap_cons, ih hrest ⟨hend, hothers⟩, hgain, ← List.drop_drop, List.take_append_drop]

/-- A piece stays in its page and in its bank: its bytes are behind each other in one memory. -/
def Piece.Within (dev : GenLocator) (info : Eeprom) (p : Piece) : Prop :=
  ∀ i < transferSize info p.offset,
    memoryOffset info (p.offset + i) / info.pageSize = memoryOffset info p.offset / info.pageSize ∧
      deviceAddress dev info (p.offset + i) = deviceAddress dev info p.offset ∧
      memoryOffset info (p.offset + i) = memoryOffset info p.offset + i

theorem Contiguous.within (G : Geometry dev info) : ∀ {ps : List Piece} {o : ℕ},
    (o < info.size → pieceSize info ∣ o) → Contiguous info o ps → ∀ p ∈ ps, p.Within dev info := by
  intro ps
  induction ps with
  | nil => exact fun _ _ => List.forall_mem_nil _
  | cons p ps ih =>
    rintro o hpiece ⟨hoff, ho, hrest⟩
    refine List.forall_mem_cons.mpr ⟨fun i hi => ?_, ih (fun hlt => ?_) hrest⟩
    · rw [hoff] at hi ⊢
      exact G.within (hpiece ho) hi
    · exact (Nat.dvd_add_right (hpiece ho)).mpr (piece_dvd hlt)

end

/-- What holds of the EEPROM of a locator. -/
structure Survives (dev : GenLocator) (info : Eeprom) : Prop where
  /-- Every offset has a place, which the address bytes say, -/
  place : ∀ o < info.size, (∃ addr, deviceAddress dev info o = .ok addr) ∧
    (addressBytes info (memoryOffset info o)).length = info.addressLength ∧
    offsetOf (addressBytes info (memoryOffset info o)) = memoryOffset info o
  /-- and no two have the same one. -/
  injective : ∀ o < info.size, ∀ o' < info.size, deviceAddress dev info o =
    deviceAddress dev info o' →
    memoryOffset info o = memoryOffset info o' → o = o'
  /-- A run of either function, with any device and any files, returns. It transfers pieces from 0
  on, each where the one in front of it ends and in one page and bank; it returns 0 only if they
  reach the end. -/
  write : ∀ (β : Type) (B : Bmc β) (files : Files) (w : CmdWorld (List UInt8) β), ∃ rc w' ps,
    writeFile B dev files w = .ok (some rc, w') ∧ (∀ p ∈ ps, p.Within dev info) ∧
      Copies dev info (.write files.content) (fun _ _ => True) (fun _ _ => True) 0 w w' ps rc
  read : ∀ (β : Type) (B : Bmc β) (files : Files) (w : CmdWorld (List UInt8) β), ∃ rc w' ps,
    readFile B dev files w = .ok (some rc, w') ∧ (∀ p ∈ ps, p.Within dev info) ∧
      Copies dev info .read (fun _ _ => True) (fun o rsp => True ∧
        transferSize info o ≤ rsp.dataLen) 0
        { w with vars := [] } w' ps rc
  /-- What was written to the device is read from it, whatever requests and replies are lost. -/
  image : ∀ (fates fates' : ℕ →
    Fate) (files files' : Files) (w w1 w2 w3 : CmdWorld (List UInt8) Store),
    files.content.length = info.size →
    writeFile (eeprom info fates) dev files w = .ok (some 0, w1) →
      w2.device.chips = w1.device.chips →
    readFile (eeprom info fates') dev files' w2 = .ok (some 0, w3) → w3.vars = files.content

theorem eeprom_survives {dev : GenLocator} {info : Eeprom} (hinfo : eepromInfo dev = some info)
    (hvalid : addressRangeValid dev info = true) : Survives dev info where
  place o ho := by
    have G := geometry hinfo hvalid
    obtain ⟨haddr, hlt⟩ := G.address ho
    exact ⟨haddr, addressBytes_ofNat G.length hlt⟩
  injective o ho o' ho' := (geometry hinfo hvalid).injective ho ho'
  write β B files w := by
    obtain ⟨rc, w', ps, hrun, hcopies⟩ :=
      writeFile_ok hinfo hvalid files (serves_any B dev info _) w trivial
    exact ⟨rc, w', ps, hrun, hcopies.contiguous.within (geometry hinfo hvalid) fun _ =>
      Nat.dvd_zero _, hcopies⟩
  read β B files w := by
    obtain ⟨rc, w', ps, hrun, hcopies⟩ :=
      readFile_ok hinfo hvalid files (serves_any B dev info _) w trivial
    exact ⟨rc, w', ps, hrun, hcopies.contiguous.within (geometry hinfo hvalid) fun _ =>
      Nat.dvd_zero _, hcopies⟩
  image fates fates' files files' w w1 w2 w3 hlen hwrite hsame hread := by
    have G := geometry hinfo hvalid
    obtain ⟨rc, w', ps, hrun, hcopies⟩ :=
      writeFile_ok hinfo hvalid files (serves_write G hlen fates) w
        fun j hj => absurd hj (Nat.not_lt_zero j)
    obtain ⟨hrc, rfl⟩ := Prod.mk.inj (Except.ok.inj (hrun.symm.trans hwrite))
    obtain ⟨-, -, hheld⟩ := hcopies.whole (Option.some.inj hrc)
    obtain ⟨rc', w'', qs, hrun', hcopies'⟩ :=
      readFile_ok hinfo hvalid files' (serves_read G hlen fates') w2
        (hsame ▸ hheld)
    obtain ⟨hrc', rfl⟩ := Prod.mk.inj (Except.ok.inj (hrun'.symm.trans hread))
    obtain ⟨hwhole, hfile, -⟩ := hcopies'.whole (Option.some.inj hrc')
    rw [hfile, gain_image hlen hcopies'.contiguous hwhole]
    rfl

/-! ### A small EEPROM -/

/-- An EEPROM of 128 bytes. -/
def smallLocator : GenLocator := ⟨0xa0, 0, 0, 0x08⟩

/-- Every third request is lost, and the reply to the one behind it. -/
def lossy (n : ℕ) : Fate := if n % 3 = 1 then .requestLost else if n % 3 = 2 then .replyLost
    else .answered

/-- Files without failures. -/
def goodFiles (content : List UInt8) : Files where
  opens := true
  seeksEnd := true
  seeksSet := true
  content := content
  reads _ := true
  writes _ := true
  prints _ := true
  finishes _ _ := true
  closes := true

/-- The bytes 0 to 127. -/
def smallImage : List UInt8 := (List.range 128).map UInt8.ofNat

/-- It is written and read with losses. -/
theorem eeprom_survives_small : Survives smallLocator ⟨128, 8, 1, 0⟩ ∧ ∃ w1 w3,
    writeFile (eeprom ⟨128, 8, 1, 0⟩ lossy) smallLocator (goodFiles smallImage) ⟨[],
      ⟨0, fun _ _ => 0xff⟩, []⟩ =
      .ok (some 0, w1) ∧
    readFile (eeprom ⟨128, 8, 1, 0⟩ lossy) smallLocator (goodFiles []) w1 = .ok (some 0, w3) ∧
    w3.vars = smallImage := by
  have h : Survives smallLocator ⟨128, 8, 1, 0⟩ := eeprom_survives rfl rfl
  have heval : returns (do
      let rc ← writeFile (eeprom ⟨128, 8, 1, 0⟩ lossy) smallLocator (goodFiles smallImage)
      let rc' ← readFile (eeprom ⟨128, 8, 1, 0⟩ lossy) smallLocator (goodFiles [])
      return (rc, rc')) (⟨[], ⟨0, fun _ _ => 0xff⟩, []⟩ : CmdWorld (List UInt8) Store)
      (fun rcs _ => rcs = (some 0, some 0)) = true := by decide +kernel
  obtain ⟨rcs, w, hrun, hrcs⟩ := exists_of_returns heval
  obtain ⟨rc, w1, hwrite, hrun⟩ := bind_ok.mp hrun
  obtain ⟨rc', w3, hread, hrun⟩ := bind_ok.mp hrun
  obtain ⟨rfl, rfl⟩ := pure_ok.mp hrun
  obtain ⟨rfl, rfl⟩ := Prod.mk.inj (of_decide_eq_true hrcs)
  exact ⟨h, w1, w3, hwrite, hread,
    h.image lossy lossy (goodFiles smallImage) (goodFiles []) _ w1 w1 w3 rfl hwrite rfl hread⟩

end Ipmitool.Cmd.Gendev
