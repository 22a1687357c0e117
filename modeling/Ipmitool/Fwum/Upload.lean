import Ipmitool.Core.Interface
import Ipmitool.Fwum.Buffers

/-! # Uploading a firmware image

`saveImage` and `upload` of `cmd/fwum.zig`. An image goes to the target block by block; a block is
sent up to 32 times, with fewer bytes if the target wants that. If it is given up nevertheless,
`upload` goes back to the block before it, but the sequence number goes on, and as soon as that
block is accepted again all retries are back. So the loop may go on forever, and has fuel. Whether a
line of progress can be printed is a parameter.

`turn_ok` says what a turn of `upload` does: its blocks lie in the image and in a page, at most one
of them is accepted, and the progress is behind it, or back at the block before. -/

namespace Ipmitool.Fwum.Upload

open Ipmitool.Lib.Machine Ipmitool.Lib.Dialogue Ipmitool.Core.Types Ipmitool.Core.Interface
open Ipmitool.Fwum.Buffers (imageLimit)

variable {β : Type}

/-! ### The code -/

def maxRetry : ℕ := 6
def netfnFirmware : UInt8 := 0x08
def cmdSaveImage : UInt8 := 0x0b

/-- `KFWUM_DOWNLOAD_TYPE_…`. -/
inductive DownloadType where
  | address
  | sequence
  deriving DecidableEq

/-- What is known of the target and the interface, and whether a line of progress can be printed. -/
structure Env where
  downloadType : DownloadType
  overheadSize : ℕ
  lan : Bool
  shown : ℕ → ℕ → Bool

/-- `save_fw_nfo.bufferSize`. -/
structure Vars where
  bufferSize : ℕ

/-- A program of the module. -/
abbrev Talk (β : Type) := Cmd Vars β

/-- A block as it is sent. -/
structure Block where
  sequence : UInt8
  address : ℕ
  content : List UInt8

/-- What comes before the content of a block. -/
def blockHeader (env : Env) (b : Block) : List UInt8 :=
  match env.downloadType with
  | .address =>
    [UInt8.ofNat b.address, UInt8.ofNat (b.address / 2 ^ 8), UInt8.ofNat (b.address / 2 ^ 16),
      UInt8.ofNat b.content.length]
  | .sequence => [b.sequence]

/-- Save Firmware Image. -/
def request (env : Env) (b : Block) : Command where
  netfn := netfnFirmware
  cmd := cmdSaveImage
  data := blockHeader env b ++ b.content

/-- The variables of the loop of `saveImage`. -/
structure Saving where
  length : ℕ
  retry : Bool := false
  noResponse : ℕ := 0

/-- What comes of a reply: the block is saved, is sent once more, or is given up with a length. -/
inductive Verdict where
  | saved
  | again (s : Saving)
  | failed (length : ℕ)

/-- A block that is to become shorter. -/
def shorten (s : Saving) : Verdict :=
  if s.length ≤ 1 then .failed 0 else .again { s with length := s.length - 1, retry := true }

/-- A block that may be sent once more. -/
def onceMore (s : Saving) : Verdict :=
  if s.retry then .failed s.length else .again { s with retry := true }

/-- The body of the loop of `saveImage`. -/
def verdict (env : Env) (sequence : UInt8) (s : Saving) : Option Reply → Verdict
  | none =>
    if env.lan then
      if s.noResponse + 1 < 6 ∧ 1 < s.length then
        .again { s with length := s.length - 1, noResponse := s.noResponse + 1 }
      else .failed 0
    else .again s
  | some r =>
    if r.ccode = 0 ∨ r.ccode = 0x82 then .saved
    else if r.ccode = 0xc0 then .again s
    else if r.ccode = 0xc7 then shorten s
    else if r.ccode = 0xc3 then if sequence = 0 then shorten s else onceMore s
    else if r.ccode = 0x83 then onceMore s
    else if r.ccode = 0xcf then .again { s with retry := true }
    else .failed s.length

/-- The loop of `saveImage`: whether the block is saved, and its length. -/
def saveAttempts (B : Bmc β) (env : Env) (sequence : UInt8) (address : ℕ) (buffer : List UInt8) :
    ℕ → Saving → Talk β (Bool × ℕ)
  | 0, s => return (false, s.length)
  | attempts + 1, s => do
    let rsp ← sendrecv B (request env ⟨sequence, address, buffer.take s.length⟩)
    match verdict env sequence s rsp with
    | .saved => return (true, s.length)
    | .again s => saveAttempts B env sequence address buffer attempts s
    | .failed length => return (false, length)

/-- `saveImage`. -/
def saveImage (B : Bmc β) (env : Env) (sequence : UInt8) (address : ℕ) (buffer : List UInt8)
    (length : ℕ) : Talk β (Bool × ℕ) :=
  if 28 < length then return (false, length)
  else saveAttempts B env sequence address buffer 32 { length := length }

/-- The variables of the loop of `upload`. -/
structure Progress where
  address : ℕ := 0
  lastAddress : ℕ := 0
  sequence : UInt8 := 0
  retry : ℕ := maxRetry

/-- The size of the next block. -/
def sizeAt (room total address : ℕ) : ℕ := min (min room (total - address)) (256 - address % 256)

/-- The progress after a block, unless the upload is given up. -/
def advance (p : Progress) (saved : Bool) (size : ℕ) : Option Progress :=
  if ¬ saved ∧ 0 < p.retry then
    some { p with address := p.lastAddress, sequence := p.sequence + 1, retry := p.retry - 1 }
  else if ¬ saved ∨ size = 0 then none
  else some { address := p.address + size, lastAddress := p.address, sequence := p.sequence + 1 }

/-- What is left of the buffer size after a block. -/
def adjusted (saved : Bool) (oldSize size bufferSize : ℕ) : ℕ :=
  if saved then bufferSize - (oldSize - size) else bufferSize

/-- A turn of the loop of `upload`: none if it returns −1. -/
def turn (B : Bmc β) (env : Env) (image : List UInt8) (p : Progress) : Talk β (Option Progress) :=
  do
  let w ← get
  if w.vars.bufferSize ≤ env.overheadSize then return none
  let size := sizeAt (w.vars.bufferSize - env.overheadSize) image.length p.address
  let result ← saveImage B env p.sequence p.address (image.drop p.address) size
  modify fun w => { w with vars := ⟨adjusted result.1 size result.2 w.vars.bufferSize⟩ }
  return (advance p result.1 result.2).filter fun p =>
    p.address % 1024 ≠ 0 ∨ env.shown p.address image.length

/-- The loop of `upload`, with fuel: the status that is returned. -/
def uploadLoop (B : Bmc β) (env : Env) (image : List UInt8) : ℕ → Progress → Talk β (Option ℤ)
  | 0, _ => return none
  | fuel + 1, p => do
    if image.length ≤ p.address then return some (if env.shown 100 100 then 0 else -1)
    match ← turn B env image p with
    | none => return some (-1)
    | some p => uploadLoop B env image fuel p

/-- `upload`, with fuel. -/
def upload (B : Bmc β) (env : Env) (image : List UInt8) (fuel : ℕ) : Talk β (Option ℤ) :=
  if image = [] ∨ imageLimit < image.length then return some (-1)
    else uploadLoop B env image fuel {}

/-! ### What is accepted -/

/-- The target has taken the block. -/
def taken (rsp : Option Reply) : Bool := rsp.any fun r => r.ccode = 0 ∨ r.ccode = 0x82

/-- The requests with the blocks that were accepted. -/
def accepted (evs : List Exchange) : List Command := (evs.filter fun e => taken e.2).map Prod.fst

/-- A block of the image that does not cross a page. -/
structure Inside (image : List UInt8) (b : Block) : Prop where
  nonempty : b.content ≠ []
  image : b.content <+: image.drop b.address
  page : b.address % 256 + b.content.length ≤ 256

theorem Inside.le {image : List UInt8} {b : Block} (h : Inside image b) :
    b.address + b.content.length ≤ image.length := by
  have hpos := List.length_pos_iff.mpr h.nonempty
  have hle := h.image.length_le
  rw [List.length_drop] at hle
  omega

theorem accepted_append (a b : List Exchange) : accepted (a ++ b) = accepted a ++ accepted b := by
  simp [accepted]

/-! ### One block -/

section
variable {B : Bmc β} {env : Env} {sequence : UInt8} {address : ℕ} {buffer image : List UInt8}
  {w w' : CmdWorld Vars β} {s : Saving} {rsp : Option Reply}

/-- What a verdict says of the reply, and of the length of the block. -/
def Verdict.Sound (s : Saving) (rsp : Option Reply) : Verdict → Prop
  | .saved => taken rsp = true
  | .again s' => taken rsp = false ∧ s'.length ≤ s.length ∧ (0 < s.length → 0 < s'.length)
  | .failed _ => taken rsp = false

theorem shorten_sound (h : taken rsp = false) : (shorten s).Sound s rsp := by
  unfold shorten
  split_ifs with hlen
  · exact h
  · exact ⟨h, Nat.sub_le _ _, fun _ => by dsimp only; omega⟩

theorem onceMore_sound (h : taken rsp = false) : (onceMore s).Sound s rsp := by
  unfold onceMore
  split_ifs
  · exact h
  · exact ⟨h, Nat.le_refl _, id⟩

theorem verdict_sound : (verdict env sequence s rsp).Sound s rsp := by
  rcases rsp with _ | r
  · unfold verdict
    dsimp only
    split_ifs with hlan hmore
    · exact ⟨rfl, Nat.sub_le _ _, fun _ => by dsimp only; omega⟩
    · rfl
    · exact ⟨rfl, Nat.le_refl _, id⟩
  · unfold verdict
    dsimp only
    by_cases h0 : r.ccode = 0 ∨ r.ccode = 0x82
    · rw [if_pos h0]
      simpa [Verdict.Sound, taken] using h0
    have hnot : taken (some r) = false := by simpa [taken] using h0
    rw [if_neg h0]
    split_ifs
    · exact ⟨hnot, Nat.le_refl _, id⟩
    · exact shorten_sound hnot
    · exact shorten_sound hnot
    · exact onceMore_sound hnot
    · exact onceMore_sound hnot
    · exact ⟨hnot, Nat.le_refl _, id⟩
    · exact hnot

/-- What the attempts for a block say. -/
structure Attempts (env : Env) (sequence : UInt8) (address : ℕ) (buffer : List UInt8) (length : ℕ)
    (evs : List Exchange) (result : Bool × ℕ) : Prop where
  request : ∀ x ∈ evs, ∃ n, 0 < n ∧ n ≤ length ∧
    x.1 = request env ⟨sequence, address, buffer.take n⟩
  saved : result.1 = true → 0 < result.2 ∧ result.2 ≤ length ∧
    accepted evs = [Upload.request env ⟨sequence, address, buffer.take result.2⟩]
  failed : result.1 = false → accepted evs = []

/-- The attempts for a block: at most one of them is accepted, and then it is the last. -/
theorem saveAttempts_ok : ∀ {attempts : ℕ} {s : Saving} {w : CmdWorld Vars β} {result : Bool × ℕ},
    0 < s.length → saveAttempts B env sequence address buffer attempts s w = .ok (result, w') →
    ∃ evs, w'.log = w.log ++ evs ∧ evs.length ≤ attempts ∧ w'.vars = w.vars ∧
      Attempts env sequence address buffer s.length evs result
  | 0, s, w, result, _, h => by
    obtain ⟨rfl, rfl⟩ := pure_ok.mp h
    exact ⟨[], by simp, Nat.le_refl _, rfl, by simp, nofun, fun _ => rfl⟩
  | attempts + 1, s, w, result, hpos, h => by
    obtain ⟨rsp, w1, hask, h⟩ := bind_ok.mp h
    obtain ⟨hlog, hvars⟩ := ask_log hask
    have hsound : (verdict env sequence s rsp).Sound s rsp := verdict_sound
    rcases hverdict : verdict env sequence s rsp with _ | s' | length <;> rw [hverdict] at h hsound
    · obtain ⟨rfl, rfl⟩ := pure_ok.mp h
      refine ⟨_, hlog, by simp, hvars, fun x hx => ?_, fun _ => ⟨hpos, Nat.le_refl _, ?_⟩, nofun⟩
      · rw [List.mem_singleton.mp hx]
        exact ⟨s.length, hpos, Nat.le_refl _, rfl⟩
      · simp only [Verdict.Sound] at hsound
        simp [accepted, hsound]
    · obtain ⟨hnot, hle, hpos'⟩ := hsound
      obtain ⟨evs, hevs, hcount, hsame, hreq, hsaved, hfailed⟩ := saveAttempts_ok (hpos' hpos) h
      have hacc : accepted ([(request env ⟨sequence, address, buffer.take s.length⟩, rsp)] ++ evs) =
          accepted evs := by
        rw [accepted_append]
        simp [accepted, hnot]
      refine ⟨_, by rw [hevs, hlog, List.append_assoc], by simp; omega, hsame.trans hvars,
        ?_, ?_, ?_⟩
      · intro x hx
        rcases List.mem_append.mp hx with hx | hx
        · rw [List.mem_singleton.mp hx]
          exact ⟨s.length, hpos, Nat.le_refl _, rfl⟩
        · obtain ⟨n, hn, hle', hx⟩ := hreq x hx
          exact ⟨n, hn, Nat.le_trans hle' hle, hx⟩
      · intro hok
        rw [hacc]
        obtain ⟨hn, hle', heq⟩ := hsaved hok
        exact ⟨hn, Nat.le_trans hle' hle, heq⟩
      · rw [hacc]
        exact hfailed
    · obtain ⟨rfl, rfl⟩ := pure_ok.mp h
      refine ⟨_, hlog, by simp, hvars, fun x hx => ?_, nofun, fun _ => ?_⟩
      · rw [List.mem_singleton.mp hx]
        exact ⟨s.length, hpos, Nat.le_refl _, rfl⟩
      · simp only [Verdict.Sound] at hsound
        simp [accepted, hsound]

theorem saveImage_ok {length : ℕ} {result : Bool × ℕ} (hpos : 0 < length)
    (h : saveImage B env sequence address buffer length w = .ok (result, w')) :
    ∃ evs, w'.log = w.log ++ evs ∧ evs.length ≤ 32 ∧ w'.vars = w.vars ∧
      Attempts env sequence address buffer length evs result := by
  unfold saveImage at h
  split_ifs at h with hlong
  · obtain ⟨rfl, rfl⟩ := pure_ok.mp h
    exact ⟨[], by simp, Nat.zero_le _, rfl, by simp, nofun, fun _ => rfl⟩
  · exact saveAttempts_ok hpos h

/-! ### One turn -/

/-- The progress after a block was given up. -/
def setBack (p : Progress) : Progress :=
  { p with address := p.lastAddress, sequence := p.sequence + 1, retry := p.retry - 1 }

/-- The progress after a block of this size was accepted. -/
def passed (p : Progress) (size : ℕ) : Progress :=
  { address := p.address + size, lastAddress := p.address, sequence := p.sequence + 1 }

/-- The beginnings of what fits are blocks of the image. -/
theorem inside_take {room n : ℕ} (sequence : UInt8) (hopen : address < image.length) (hpos : 0 < n)
    (hn : n ≤ sizeAt room image.length address) :
    Inside image ⟨sequence, address, (image.drop address).take n⟩ := by
  unfold sizeAt at hn
  refine ⟨?_, List.take_prefix _ _, ?_⟩
  · rw [← List.length_pos_iff, List.length_take, List.length_drop]
    omega
  · dsimp only
    rw [List.length_take, List.length_drop]
    omega

theorem advance_failed {p p' : Progress} {size : ℕ} (h : advance p false size = some p') :
    0 < p.retry ∧ p' = setBack p := by
  by_cases hretry : 0 < p.retry
  · rw [advance, if_pos ⟨by decide, hretry⟩] at h
    exact ⟨hretry, (Option.some.inj h).symm⟩
  · rw [advance, if_neg fun h => hretry h.2, if_pos (.inl (by decide))] at h
    cases h

theorem advance_saved {p p' : Progress} {size : ℕ} (h : advance p true size = some p') :
    p' = passed p size := by
  rw [advance, if_neg fun h => h.1 rfl] at h
  split_ifs at h
  exact (Option.some.inj h).symm

/-- What a turn does: a block is given up, or it is accepted. -/
structure TurnSaid (env : Env) (image : List UInt8) (p : Progress) (evs : List Exchange)
    (next : Option Progress) : Prop where
  few : evs.length ≤ 32
  inside : ∀ x ∈ evs, ∃ b, x.1 = request env b ∧ Inside image b
  cases : (accepted evs = [] ∧ ∀ p' ∈ next, 0 < p.retry ∧ p' = setBack p) ∨
    ∃ b, Inside image b ∧ b.address = p.address ∧ b.sequence = p.sequence ∧
      accepted evs = [request env b] ∧ ∀ p' ∈ next, p' = passed p b.content.length

theorem turn_ok {p : Progress} {next : Option Progress} (hopen : p.address < image.length)
    (h : turn B env image p w = .ok (next, w')) :
    ∃ evs, w'.log = w.log ++ evs ∧ TurnSaid env image p evs next := by
  obtain ⟨w1, w2, hget, h⟩ := bind_ok.mp h
  obtain ⟨rfl, rfl⟩ := get_ok.mp hget
  split_ifs at h with hroom
  · obtain ⟨rfl, rfl⟩ := pure_ok.mp h
    exact ⟨[], by simp, by simp, by simp, .inl ⟨rfl, by simp⟩⟩
  have hsize : 0 < sizeAt (w.vars.bufferSize - env.overheadSize) image.length p.address := by
    unfold sizeAt
    omega
  obtain ⟨⟨ok, length⟩, w3, hsave, h⟩ := bind_ok.mp h
  obtain ⟨evs, hlog, hfew, -, hreq, hsaved, hfailed⟩ := saveImage_ok hsize hsave
  obtain ⟨u, w4, hset, h⟩ := bind_ok.mp h
  obtain rfl := modify_ok.mp hset
  obtain ⟨rfl, rfl⟩ := pure_ok.mp h
  refine ⟨evs, hlog, hfew, fun x hx => ?_, ?_⟩
  · obtain ⟨n, hn, hle, hx⟩ := hreq x hx
    exact ⟨_, hx, inside_take p.sequence hopen hn hle⟩
  rcases ok with _ | _
  · refine .inl ⟨hfailed rfl, fun p' hp' => ?_⟩
    exact advance_failed (Option.mem_filter_iff.mp hp').1
  · obtain ⟨hpos, hle, hacc⟩ := hsaved rfl
    have hinside := inside_take p.sequence hopen hpos hle
    refine .inr ⟨_, hinside, rfl, rfl, hacc, fun p' hp' => ?_⟩
    have hlen : ((image.drop p.address).take length).length = length := by
      unfold sizeAt at hle
      rw [List.length_take, List.length_drop]
      omega
    rw [advance_saved (Option.mem_filter_iff.mp hp').1]
    exact congrArg (passed p) hlen.symm

end

end Ipmitool.Fwum.Upload
