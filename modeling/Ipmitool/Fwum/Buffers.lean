import Ipmitool.Core.Types
import Ipmitool.Lib.Mem

/-! # The firmware buffer

`setupBuffers` of `cmd/fwum.zig`. The file is the list of its bytes, and `fread` gives what is asked
for as long as the file lasts. Whether a line of progress can be printed is a parameter.

The number of turns comes of a formula that is sixteen times too large, so the reads come to the end
of every file. They only count as a success if one of them is full, which takes a file of 16 KiB
(`setupBuffers_loads_iff`). -/

namespace Ipmitool.Fwum.Buffers

open Ipmitool.Lib.Mem Ipmitool.Core.Types

/-! ### The code -/

def imageLimit : ℕ := 524288
def bufferSize : ℕ := 16384
def metadataMinSize : ℕ := 0x5a0 + 20

/-- The buffer, what is left of the file, and whether a read was full. -/
structure Loading where
  firmBuf : Memory UInt8 := fun _ => 0
  left : List UInt8
  success : Bool := false

/-- `fread` to a place of the buffer. -/
def fread (m : Loading) (start n : ℕ) : Loading where
  firmBuf := write m.firmBuf start (m.left.take n)
  left := m.left.drop n
  success := m.success || decide (n ≤ m.left.length)

/-- A turn of the loop. -/
def loadChunk (fileSize : ℕ) (m : Loading) (chunk : ℕ) : Loading :=
  if chunk * bufferSize ≤ imageLimit - bufferSize ∧ chunk * bufferSize < fileSize then
    fread m (chunk * bufferSize) bufferSize
  else m

/-- The loop over the chunks; none if a line of progress cannot be printed. -/
def loadChunks (shown : ℕ → ℕ → Bool) (fileSize count : ℕ) : ℕ → Loading → Option Loading
  | 0, m => some m
  | chunks + 1, m => do
    let m ← loadChunks shown fileSize count chunks m
    if shown chunks count then return loadChunk fileSize m chunks else none

/-- The read of what is behind the chunks. -/
def loadRest (count modulus : ℕ) (m : Loading) : Loading :=
  if 0 < modulus ∧ count * bufferSize < imageLimit ∧ modulus ≤ imageLimit - count * bufferSize then
    fread m (count * bufferSize) modulus
  else m

def chunkCount (fileSize : ℕ) : ℕ := fileSize / 1024 * 16
def chunkModulus (fileSize : ℕ) : ℕ := fileSize % 1024 * 16

/-- `setupBuffers`, with the file that is opened: the buffer, if zero is returned. -/
def setupBuffers (shown : ℕ → ℕ → Bool) (file : Option (List UInt8)) (fileSize : ℕ) :
    Option (Memory UInt8) := do
  if imageLimit < fileSize then none
  let bytes ← file
  let m ← loadChunks shown fileSize (chunkCount fileSize) (chunkCount fileSize) { left := bytes }
  let m := loadRest (chunkCount fileSize) (chunkModulus fileSize) m
  if m.success ∧ shown 100 100 then return m.firmBuf else none

/-! ### What is loaded -/

/-- The buffer that holds a file, and zeros behind it. -/
def loaded (bytes : List UInt8) : Memory UInt8 := write (fun _ => 0) 0 bytes

theorem loaded_apply (bytes : List UInt8) (i : ℕ) : loaded bytes i = (bytes[i]?).getD 0 := by
  simp [loaded, write]

section
variable {file : List UInt8}

theorem write_loaded (file : List UInt8) (pos n : ℕ) :
    write (loaded (file.take pos)) pos ((file.drop pos).take n) = loaded (file.take (pos + n)) := by
  funext i
  unfold write
  rw [loaded_apply, loaded_apply]
  by_cases hi : pos ≤ i
  · rw [if_pos hi, List.getElem?_take_eq_none hi]
    by_cases hn : i < pos + n
    · rw [List.getElem?_take_of_lt (by omega), List.getElem?_take_of_lt hn, List.getElem?_drop,
        Nat.add_sub_cancel' hi]
      rfl
    · rw [List.getElem?_take_eq_none (by omega), List.getElem?_take_eq_none (by omega)]
      rfl
  · rw [if_neg hi, List.getElem?_take_of_lt (by omega), List.getElem?_take_of_lt (by omega)]

/-- The file has been read up to a place, in full reads if there were any. -/
def Read (file : List UInt8) (m : Loading) (pos : ℕ) : Prop :=
  m.firmBuf = loaded (file.take pos) ∧ m.left = file.drop pos ∧
    (m.success = true ↔ bufferSize ≤ file.length ∧ 0 < pos)

theorem Read.chunk {m : Loading} {chunks : ℕ} (h : Read file m (chunks * bufferSize))
    (hlimit : file.length ≤ imageLimit) :
    Read file (loadChunk file.length m chunks) ((chunks + 1) * bufferSize) := by
  obtain ⟨hbuf, hleft, hsuccess⟩ := h
  unfold loadChunk Read bufferSize imageLimit at *
  by_cases hin : chunks * 16384 < file.length
  · rw [if_pos ⟨by omega, hin⟩, Nat.succ_mul]
    refine ⟨?_, ?_, ?_⟩
    · rw [fread, hbuf, hleft, write_loaded]
    · rw [fread, hleft, List.drop_drop]
    · simp only [fread, Bool.or_eq_true, decide_eq_true_eq, hsuccess, hleft, List.length_drop]
      omega
  · rw [if_neg fun hc => hin hc.2, Nat.succ_mul]
    refine ⟨?_, ?_, ?_⟩
    · rw [hbuf, List.take_of_length_le (by omega), List.take_of_length_le (by omega)]
    · rw [hleft, List.drop_of_length_le (by omega), List.drop_of_length_le (by omega)]
    · rw [hsuccess]
      omega

/-- The chunks that are read as far as their progress can be printed. -/
def chunksRead (file : List UInt8) : ℕ → Loading
  | 0 => { left := file }
  | chunks + 1 => loadChunk file.length (chunksRead file chunks) chunks

theorem read_chunksRead (hlimit : file.length ≤ imageLimit) :
    ∀ chunks, Read file (chunksRead file chunks) (chunks * bufferSize)
  | 0 => ⟨by rw [Nat.zero_mul]; rfl, by rw [Nat.zero_mul]; rfl, by simp [chunksRead]⟩
  | chunks + 1 => (read_chunksRead hlimit chunks).chunk hlimit

/-- The loop reads the file chunk by chunk, as long as its progress can be printed. -/
theorem loadChunks_eq {shown : ℕ → ℕ → Bool} {count : ℕ} (chunks : ℕ) :
    loadChunks shown file.length count chunks { left := file } =
      if ∀ chunk < chunks, shown chunk count = true then some (chunksRead file chunks)
        else none := by
  induction chunks with
  | zero => rfl
  | succ chunks ih =>
    rw [loadChunks, ih]
    by_cases hbefore : ∀ chunk < chunks, shown chunk count = true
    · rw [if_pos hbefore]
      change (if shown chunks count = true then _ else _) = _
      by_cases hnow : shown chunks count = true
      · rw [if_pos hnow, if_pos fun chunk hlt => (Nat.lt_succ_iff_lt_or_eq.mp hlt).elim
          (hbefore chunk) (· ▸ hnow)]
        rfl
      · rw [if_neg hnow, if_neg fun hall => hnow (hall chunks (Nat.lt_succ_self chunks))]
    · rw [if_neg hbefore, if_neg fun hall => hbefore fun chunk hlt =>
        hall chunk (Nat.lt_succ_of_lt hlt)]
      rfl

theorem length_le_chunks (hne : chunkCount file.length ≠ 0) :
    file.length ≤ chunkCount file.length * bufferSize := by
  unfold chunkCount bufferSize at *
  omega

theorem success_loadRest (hpos : 0 < file.length) (hlimit : file.length ≤ imageLimit) {m : Loading}
    (h : Read file m (chunkCount file.length * bufferSize)) :
    (loadRest (chunkCount file.length) (chunkModulus file.length) m).success = true ↔
    bufferSize ≤ file.length := by
  obtain ⟨-, hleft, hsuccess⟩ := h
  unfold loadRest
  split
  next hread =>
    simp only [fread, Bool.or_eq_true, decide_eq_true_eq, hsuccess, hleft, List.length_drop]
    unfold chunkCount chunkModulus bufferSize imageLimit at *
    omega
  · rw [hsuccess]
    unfold chunkCount bufferSize
    omega

theorem firmBuf_loadRest (hfull : bufferSize ≤ file.length) {m : Loading}
    (h : Read file m (chunkCount file.length * bufferSize)) :
    (loadRest (chunkCount file.length) (chunkModulus file.length) m).firmBuf = loaded file := by
  unfold loadRest
  rw [if_neg, h.1, List.take_of_length_le]
  · exact length_le_chunks (by unfold chunkCount bufferSize at *; omega)
  · unfold chunkCount bufferSize imageLimit at *
    omega

end

theorem setupBuffers_eq (shown : ℕ → ℕ → Bool) {file : List UInt8} (hpos : 0 < file.length)
    (hlimit : file.length ≤ imageLimit) :
    setupBuffers shown (some file) file.length =
      if bufferSize ≤ file.length ∧
        (∀ chunk < chunkCount file.length, shown chunk (chunkCount file.length) = true) ∧
        shown 100 100 = true then some (loaded file) else none := by
  have hread := read_chunksRead hlimit (chunkCount file.length)
  have hsuccess := success_loadRest hpos hlimit hread
  unfold setupBuffers
  rw [if_neg (Nat.not_lt.mpr hlimit)]
  change (loadChunks shown file.length (chunkCount file.length)
    (chunkCount file.length) { left := file }).bind _ = _
  rw [loadChunks_eq]
  by_cases hshown : ∀ chunk < chunkCount file.length, shown chunk (chunkCount file.length) = true
  · rw [if_pos hshown, Option.bind_some]
    by_cases hdone : (loadRest (chunkCount file.length) (chunkModulus file.length)
        (chunksRead file (chunkCount file.length))).success = true ∧ shown 100 100 = true
    · have hfull := hsuccess.mp hdone.1
      rw [if_pos hdone, if_pos ⟨hfull, hshown, hdone.2⟩, firmBuf_loadRest hfull hread]
      rfl
    · rw [if_neg hdone, if_neg fun h => hdone ⟨hsuccess.mpr h.1, h.2.2⟩]
  · rw [if_neg hshown, if_neg fun h => hshown h.2.1]
    rfl

/-- **A file is loaded** exactly if it has at least 16 KiB and the progress can be printed. -/
theorem setupBuffers_loads_iff (shown : ℕ → ℕ → Bool) (file : List UInt8) (hpos : 0 < file.length)
    (hlimit : file.length ≤ imageLimit) :
    setupBuffers shown (some file) file.length = some (loaded file) ↔
      bufferSize ≤ file.length ∧
        (∀ chunk < chunkCount file.length, shown chunk (chunkCount file.length) = true) ∧
        shown 100 100 = true := by
  rw [setupBuffers_eq shown hpos hlimit]
  split
  next h => exact iff_of_true rfl h
  next h => exact iff_of_false (fun hnone => nomatch hnone) h

theorem length_ones (n : ℕ) : (List.replicate n (1 : UInt8)).length = n := List.length_replicate

/-- A file of 16 KiB. -/
theorem setupBuffers_loads_iff_full :
    setupBuffers (fun _ _ => true) (some (List.replicate bufferSize 1))
      (List.replicate bufferSize (1 : UInt8)).length =
        some (loaded (List.replicate bufferSize 1)) ↔
      bufferSize ≤ (List.replicate bufferSize (1 : UInt8)).length ∧
        (∀ chunk < chunkCount (List.replicate bufferSize (1 : UInt8)).length, true = true) ∧
        true = true :=
  setupBuffers_loads_iff (fun _ _ => true) (List.replicate bufferSize 1)
    (by rw [length_ones]; decide)
    (by rw [length_ones]; decide)

/-- A file of 2000 bytes, which is long enough for its metadata, is not loaded. -/
theorem setupBuffers_refuses : metadataMinSize ≤ (List.replicate 2000 (1 : UInt8)).length ∧
    setupBuffers (fun _ _ => true) (some (List.replicate 2000 1))
      (List.replicate 2000 (1 : UInt8)).length = none := by
  have hlength := length_ones 2000
  refine ⟨by rw [hlength]; decide, ?_⟩
  rw [setupBuffers_eq _ (by rw [hlength]; decide) (by rw [hlength]; decide), if_neg]
  rw [hlength]
  exact fun h => absurd h.1 (by decide)

end Ipmitool.Fwum.Buffers
