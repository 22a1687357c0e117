import Ipmitool.Fru.Writes
import Ipmitool.Fru.Multirecords

/-! # Upgrading the keying records

`upgradeEkey` of `cmd/fru.zig` takes the multirecord area from a file and writes it where the device
has its own. `writeArea` says whether it came to its end, but `upgradeEkey` takes the answer for an
error: it returns zero where a write has failed, and −1 where all of them were accepted.

`upgradeEkey_honest_iff`: the status is right if the command gives up before the first write, or if
the device protects a block and takes all the others; and in no other run. -/

namespace Ipmitool.Fru.Upgrade

open Ipmitool.Lib Ipmitool.Lib.Mem Ipmitool.Lib.Bytes Ipmitool.Lib.Machine Ipmitool.Lib.Dialogue
open Ipmitool.Core.Types Ipmitool.Core.Interface Ipmitool.Fru.Transfer Ipmitool.Fru.ReadFirst
  Ipmitool.Fru.Storage
open Ipmitool.Fru.Edit Ipmitool.Fru.Writes Ipmitool.Fru.Multirecords

/-! ### The code -/

section
variable {β : Type} (B : Bmc β) (env : Env)

/-- `multirecordLocation`, with what is known of the device. -/
def location (id : UInt8) : Talk β (Option (Info × ℕ)) := do
  match ← getInfoNonempty B id with
  | none => return none
  | some info =>
    return (← fieldEditHeader B id).map fun header => (info, (header.getD 5 0).toNat * 8)

/-- The multirecord area of a file, up to its end; none if the file cannot be opened, or is no
inventory image, or has nothing where the area is. -/
def fileArea (file : Option (List UInt8)) : Option (List UInt8) :=
  file.bind fun bytes =>
    let header := bytes.take 8
    let fileOffset := (header.getD 5 0).toNat * 8
    if header.length ≠ 8 ∨ header.getD 0 0 ≠ 1 ∨ bytes.length < fileOffset then none
    else if bytes.drop fileOffset = [] then none
    else some (bytes.drop fileOffset)

/-- The area of a file, and the size of the records that it begins with. -/
def fileRecords (file : Option (List UInt8)) : Option (List UInt8 × ℕ) :=
  (fileArea file).bind fun data => (adjustMultirecordSize data).map fun used => (data, used)

/-- Bytes as a source of `writeArea`. -/
def sourceOf (data : List UInt8) : Memory UInt8 := fun i => data.getD i 0

/-- `upgradeEkey`. -/
def upgradeEkey (id : UInt8) (file : Option (List UInt8)) : Talk β ℤ := do
  match ← location B id with
  | none => return -1
  | some (info, offset) =>
    match fileRecords file with
    | none => return -1
    | some (data, used) =>
      let w ← writeArea B env id info offset (sourceOf data) used
      return if w.1 then -1 else 0

end

/-! ### What is written -/

/-- The device has accepted the byte for this place. -/
def Accepted (access : Bool) (evs : List Exchange) (a : ℕ) (byte : UInt8) : Prop :=
  ∃ x ∈ evs, isWrite x = true ∧ (∃ r, x.2 = some r ∧ r.ccode = 0) ∧ address access x ≤ a ∧
    (payload x)[a - address access x]? = some byte

/-- All bytes of an area are accepted. -/
def Written (access : Bool) (evs : List Exchange) (source : Memory UInt8)
    (base finish : ℕ) : Prop :=
  ∀ a, base ≤ a → a < finish → Accepted access evs a (source (a - base))

/-- A block was protected. -/
def Refused (evs : List Exchange) : Prop :=
  ∃ x ∈ evs, isWrite x = true ∧ ∃ r, x.2 = some r ∧ r.ccode = 0x80

theorem not_write_append {xs ys : List Exchange} (h : ∀ x ∈ xs, isWrite x = false) {access : Bool}
    {a : ℕ} {byte : UInt8} :
    Accepted access (xs ++ ys) a byte ↔ Accepted access ys a byte := by
  constructor
  · rintro ⟨x, hx, hwrite, hx'⟩
    rcases List.mem_append.mp hx with hx | hx
    · exact absurd ((h x hx).symm.trans hwrite) Bool.false_ne_true
    · exact ⟨x, hx, hwrite, hx'⟩
  · rintro ⟨x, hx, hx'⟩
    exact ⟨x, List.mem_append_right _ hx, hx'⟩

/-! ### The loop -/

section Loop

variable {β : Type} {B : Bmc β} (id : UInt8) {blocks : List Block} {source : Memory UInt8}
  {base finish off : ℕ}
  {access : Bool} {evs : List Exchange} {info : Info}

/-- The device took the write. -/
def Taken (x : Exchange) : Prop := ∃ r, x.2 = some r ∧ r.ccode = 0

/-- The state of the loop. What was accepted ends in front of `off`; either all of it was, or a
place was left out that no later write comes back to. -/
structure Passed (source : Memory UInt8) (base finish : ℕ) (access : Bool) (off : ℕ)
    (evs : List Exchange) : Prop where
  low : base ≤ off
  high : off ≤ finish
  behind : ∀ x ∈ evs, Taken x → address access x + (payload x).length ≤ off
  either : (¬ Refused evs ∧ unit access ∣ off ∧ Written access evs source base off) ∨
    (Refused evs ∧ ∃ p, base ≤ p ∧ p + unit access ≤ off ∧
      ∀ x ∈ evs, Taken x → address access x ≤ p → address access x + (payload x).length ≤ p)

theorem isWrite_nextWrite (o : Option Reply) :
    isWrite (nextWrite id blocks source base finish info off, o) = true := by
  simp [isWrite, nextWrite, writeRequest]

theorem address_nextWrite (haccess : info.access = access) (h : off < 65536) (o : Option Reply) :
    address access (nextWrite id blocks source base finish info off, o) =
      off / unit access * unit access := by
  rw [nextWrite, haccess, address_writeRequest id access h]

theorem refused_append {xs ys : List Exchange} : Refused (xs ++ ys) ↔ Refused xs ∨ Refused ys := by
  simp only [Refused, List.mem_append, or_and_right, exists_or]

theorem Written.append {xs ys : List Exchange} {stop : ℕ} (h : Written access xs source base stop) :
    Written access (xs ++ ys) source base stop := by
  intro a hlow hhigh
  obtain ⟨x, hx, hrest⟩ := h a hlow hhigh
  exact ⟨x, List.mem_append_left _ hx, hrest⟩

theorem not_written {p : ℕ} (hlow : base ≤ p) (hhigh : p < finish)
    (h : ∀ x ∈ evs, Taken x → address access x ≤ p → address access x + (payload x).length ≤ p) :
    ¬ Written access evs source base finish := by
  intro hwritten
  obtain ⟨x, hx, -, htaken, hle, hget⟩ := hwritten p hlow hhigh
  obtain ⟨hlt, -⟩ := List.getElem?_eq_some_iff.mp hget
  have hend := h x hx htaken hle
  omega

theorem Passed.other {x : Exchange} (h : Passed source base finish access off evs)
    (htaken : ¬ Taken x) (hrefused : ∀ r, x.2 = some r → r.ccode ≠ 0x80) :
    Passed source base finish access off (evs ++ [x]) := by
  have hnot : ¬ Refused [x] := by
    rintro ⟨y, hy, -, r, hr, hcode⟩
    rw [List.mem_singleton.mp hy] at hr
    exact hrefused r hr hcode
  have hall : ∀ y ∈ evs ++ [x], Taken y → y ∈ evs := by
    intro y hy hy'
    rcases List.mem_append.mp hy with hy | hy
    · exact hy
    · rw [List.mem_singleton.mp hy] at hy'
      exact absurd hy' htaken
  refine ⟨h.low, h.high, fun y hy hy' => h.behind y (hall y hy hy') hy', ?_⟩
  rw [refused_append, or_iff_left hnot]
  rcases h.either with ⟨hno, hdvd, hwritten⟩ | ⟨hyes, p, hlow, hp, hskip⟩
  · exact .inl ⟨hno, hdvd, hwritten.append⟩
  · exact .inr ⟨hyes, p, hlow, hp, fun y hy hy' => hskip y (hall y hy hy') hy'⟩

/-- **One turn.** -/
theorem Passed.step (h : Passed source base finish access off evs) (hoff : off < finish)
    (hfinish : finish < 65536) (haccess : info.access = access)
    (hpiece : piece blocks finish info off ≠ 0) {r : Reply} {info' : Info} {off' : ℕ}
    (hr : proceed blocks finish info off r = some (info', off')) : info'.access = access ∧
      Passed source base finish access off'
        (evs ++ [(nextWrite id blocks source base finish info off, some r)]) := by
  have haddress : address access (nextWrite id blocks source base finish info off, some r) =
      off / unit access * unit access := address_nextWrite id haccess (by omega) _
  have hpayload : payload (nextWrite id blocks source base finish info off, some r) =
      Mem.read source (off - base) (piece blocks finish info off) := rfl
  have hlength := length_read source (off - base) (piece blocks finish info off)
  have hle := piece_le blocks finish info off
  have hend := blockEnd_le blocks off finish
  have hlt := lt_blockEnd blocks hoff
  have hdvd := unit_dvd_piece blocks finish info off
  have hunit : unit access ≤ piece blocks finish info off := by
    rw [haccess] at hdvd
    exact Nat.le_of_dvd (Nat.pos_of_ne_zero hpiece) hdvd
  unfold proceed at hr
  split_ifs at hr with hlarge hprotected hfailed
  · obtain ⟨rfl, rfl⟩ := Prod.mk.inj (Option.some.inj hr)
    have hne : r.ccode ≠ 0 ∧ r.ccode ≠ 0x80 := by
      constructor <;> intro hc <;> rw [hc] at hlarge <;> exact absurd hlarge.1 (by decide)
    refine ⟨haccess, h.other ?_ ?_⟩
    · rintro ⟨r', hr', hcode⟩
      rw [← Option.some.inj hr'] at hcode
      exact hne.1 hcode
    · intro r' hr'
      rw [← Option.some.inj hr']
      exact hne.2
  · -- the block is left out, and no later write comes back to its first place
    obtain ⟨rfl, rfl⟩ := Prod.mk.inj (Option.some.inj hr)
    have hcode : ¬ Taken (nextWrite id blocks source base finish info off, some r) := by
      rintro ⟨r', hr', hzero⟩
      rw [← Option.some.inj hr', hprotected] at hzero
      exact absurd hzero (by decide)
    have hall : ∀ x ∈ evs ++ [(nextWrite id blocks source base finish info off, some r)], Taken x →
        x ∈ evs := by
      intro x hx hx'
      rcases List.mem_append.mp hx with hx | hx
      · exact hx
      · rw [List.mem_singleton.mp hx] at hx'
        exact absurd hx' hcode
    have hrefused : Refused (evs ++ [(nextWrite id blocks source base finish info off, some r)]) :=
      ⟨_, List.mem_append_right _ (List.mem_singleton_self _), isWrite_nextWrite id _, r,
        rfl, hprotected⟩
    refine ⟨haccess, Nat.le_trans h.low (Nat.le_of_lt hlt), hend, fun x hx hx' =>
      Nat.le_trans (h.behind x (hall x hx hx') hx') (Nat.le_of_lt hlt), .inr ⟨hrefused, ?_⟩⟩
    rcases h.either with - | ⟨-, p, hlow, hp, hskip⟩
    · exact ⟨off, h.low, by omega, fun x hx hx' _ => h.behind x (hall x hx hx') hx'⟩
    · exact ⟨p, hlow, Nat.le_trans hp (Nat.le_of_lt hlt),
        fun x hx hx' => hskip x (hall x hx hx') hx'⟩
  · -- the piece is accepted
    obtain ⟨rfl, rfl⟩ := Prod.mk.inj (Option.some.inj hr)
    have hzero : r.ccode = 0 := by simpa using hfailed
    have hfloor : off / unit access * unit access ≤ off := Nat.div_mul_le_self _ _
    have hnot : ¬ Refused [(nextWrite id blocks source base finish info off, some r)] := by
      rintro ⟨x, hx, -, r', hr', hcode⟩
      rw [List.mem_singleton.mp hx] at hr'
      rw [← Option.some.inj hr', hzero] at hcode
      exact absurd hcode (by decide)
    refine ⟨haccess, Nat.le_trans h.low (Nat.le_add_right _ _), by omega, fun x hx hx' => ?_, ?_⟩
    · rcases List.mem_append.mp hx with hx | hx
      · exact Nat.le_trans (h.behind x hx hx') (Nat.le_add_right _ _)
      · rw [List.mem_singleton.mp hx, haddress, hpayload, hlength]
        omega
    rw [refused_append, or_iff_left hnot]
    rcases h.either with ⟨hno, heven, hwritten⟩ | ⟨hyes, p, hlow, hp, hskip⟩
    · rw [Nat.div_mul_cancel heven] at haddress
      refine .inl ⟨hno, Nat.dvd_add heven (haccess ▸ hdvd), fun a hbase ha => ?_⟩
      by_cases hold : a < off
      · exact hwritten.append a hbase hold
      · have hbound : a - off < (Mem.read source (off - base)
            (piece blocks finish info off)).length := by omega
        refine ⟨_, List.mem_append_right _ (List.mem_singleton_self _), isWrite_nextWrite id _,
          ⟨r, rfl, hzero⟩, ?_, ?_⟩
        · rw [haddress]
          omega
        · have hlow := h.low
          have hplace : off - base + (a - off) = a - base := by omega
          rw [haddress, hpayload, List.getElem?_eq_getElem hbound, getElem_read, hplace]
    · refine .inr ⟨hyes, p, hlow, Nat.le_trans hp (Nat.le_add_right _ _), fun x hx hx' hle => ?_⟩
      rcases List.mem_append.mp hx with hx | hx
      · exact hskip x hx hx' hle
      · rw [List.mem_singleton.mp hx, haddress] at hle
        have hfloor' := Nat.lt_div_mul_add (unit_pos access) (a := off)
        omega

/-- **All turns**: the area is written exactly if the loop comes to its end and nothing was
protected. -/
theorem writeLoop_written (hfinish : finish < 65536) : ∀ (fuel : ℕ) (info : Info) (off : ℕ)
    (evs : List Exchange) (w w' : CmdWorld Unit β) (ok : Bool)
    (info' : Info), Passed source base finish access off evs →
    info.access = access → base < finish → finish - off + info.maxWrite < fuel →
    writeLoop B id blocks source base finish fuel info off w = .ok ((ok, info'), w') →
    ∃ more, w'.log = w.log ++ more ∧
      (Written access (evs ++ more) source base finish ↔ ok = true ∧ ¬ Refused (evs ++ more))
  | 0, info, off, evs, w, w', ok, info', _, _, _, hfuel, _ => by omega
  | fuel + 1, info, off, evs, w, w', ok, info', hp, haccess, hbase, hfuel, h => by
    have hstopped : ∀ evs', Passed source base finish access off evs' → off < finish →
        (Written access evs' source base finish ↔ false = true ∧ ¬ Refused evs') := by
      intro evs' hp' hoff
      refine iff_of_false ?_ (by simp)
      refine not_written (Nat.le_sub_one_of_lt hbase) (Nat.sub_one_lt_of_lt hbase) fun x hx hx' _ =>
        ?_
      have hend := hp'.behind x hx hx'
      omega
    rw [writeLoop_succ] at h
    by_cases hdone : finish ≤ off
    · rw [if_pos hdone] at h
      obtain ⟨hout, rfl⟩ := pure_ok.mp h
      obtain ⟨rfl, -⟩ := Prod.mk.inj hout
      refine ⟨[], (List.append_nil _).symm, ?_⟩
      rw [List.append_nil]
      obtain rfl : off = finish := Nat.le_antisymm hp.high hdone
      rcases hp.either with ⟨hno, -, hwritten⟩ | ⟨hyes, p, hlow, hp', hskip⟩
      · exact iff_of_true hwritten ⟨rfl, hno⟩
      · have hunit := unit_pos access
        exact iff_of_false (not_written hlow (by omega) hskip) fun hc => hc.2 hyes
    rw [if_neg hdone] at h
    have hoff : off < finish := Nat.lt_of_not_le hdone
    by_cases hzero : piece blocks finish info off = 0
    · rw [if_pos hzero] at h
      obtain ⟨hout, rfl⟩ := pure_ok.mp h
      obtain ⟨rfl, -⟩ := Prod.mk.inj hout
      refine ⟨[], (List.append_nil _).symm, ?_⟩
      rw [List.append_nil]
      exact hstopped evs hp hoff
    rw [if_neg hzero] at h
    obtain ⟨o, t, hask, h⟩ := bind_ok.mp h
    obtain ⟨-, rfl⟩ := ask_ok.mp hask
    obtain ⟨hlog, -⟩ := ask_log hask
    rcases hnext : o.bind (proceed blocks finish info off) with _ | p
    · -- the loop ends with this answer
      rw [hnext] at h
      obtain ⟨hout, rfl⟩ := pure_ok.mp h
      obtain ⟨rfl, -⟩ := Prod.mk.inj hout
      have hanswer : ∀ r, o = some r → r.ccode ≠ 0 ∧ r.ccode ≠ 0x80 := by
        rintro r rfl
        have hstop : proceed blocks finish info off r = none := hnext
        unfold proceed at hstop
        split_ifs at hstop with hlarge hprotected hfailed
        exact ⟨hfailed, hprotected⟩
      refine ⟨_, hlog, hstopped _ (hp.other ?_ fun r hr => (hanswer r hr).2) hoff⟩
      rintro ⟨r, hr, hcode⟩
      exact (hanswer r hr).1 hcode
    · rw [hnext] at h
      obtain ⟨r, rfl, hr⟩ := Option.bind_eq_some_iff.mp hnext
      obtain ⟨haccess', hp'⟩ := hp.step id hoff hfinish haccess hzero hr
      have hlt := proceed_lt hoff hzero hr
      obtain ⟨more, hmore, hiff⟩ :=
        writeLoop_written hfinish fuel p.1 p.2 _ _ w' ok info' hp' haccess' hbase (by omega) h
      refine ⟨_ :: more, by rw [hmore, hlog, List.append_assoc]; rfl, ?_⟩
      rw [List.append_assoc] at hiff
      exact hiff

/-- The answers carry the loop from `off` to its end: each of them accepts a piece, protects a
block, or asks for a smaller piece while there is one. -/
def Carries (blocks : List Block) (finish : ℕ) : Info → ℕ → List (Option Reply) → Prop
  | _, off, [] => finish ≤ off
  | info, off, o :: rest => off < finish ∧ piece blocks finish info off ≠ 0 ∧
      ∃ p, o.bind (proceed blocks finish info off) = some p ∧ Carries blocks finish p.1 p.2 rest

/-- **The loop comes to its end** exactly if the answers carry it there. -/
theorem writeLoop_carries : ∀ (fuel : ℕ) (info : Info) (off : ℕ) (w w' : CmdWorld Unit β)
    (ok : Bool) (info' : Info),
    finish - off + info.maxWrite < fuel →
    writeLoop B id blocks source base finish fuel info off w = .ok ((ok, info'), w') →
    ∃ more, w'.log = w.log ++ more ∧
    (ok = true ↔ Carries blocks finish info off (more.map Prod.snd))
  | 0, info, off, w, w', ok, info', hfuel, _ => by omega
  | fuel + 1, info, off, w, w', ok, info', hfuel, h => by
    rw [writeLoop_succ] at h
    by_cases hdone : finish ≤ off
    · rw [if_pos hdone] at h
      obtain ⟨hout, rfl⟩ := pure_ok.mp h
      obtain ⟨rfl, -⟩ := Prod.mk.inj hout
      exact ⟨[], (List.append_nil _).symm, iff_of_true rfl hdone⟩
    rw [if_neg hdone] at h
    have hoff : off < finish := Nat.lt_of_not_le hdone
    by_cases hzero : piece blocks finish info off = 0
    · rw [if_pos hzero] at h
      obtain ⟨hout, rfl⟩ := pure_ok.mp h
      obtain ⟨rfl, -⟩ := Prod.mk.inj hout
      exact ⟨[], (List.append_nil _).symm, iff_of_false (by decide) hdone⟩
    rw [if_neg hzero] at h
    obtain ⟨o, t, hask, h⟩ := bind_ok.mp h
    obtain ⟨hlog, -⟩ := ask_log hask
    rcases hnext : o.bind (proceed blocks finish info off) with _ | p
    · rw [hnext] at h
      obtain ⟨hout, rfl⟩ := pure_ok.mp h
      obtain ⟨rfl, -⟩ := Prod.mk.inj hout
      refine ⟨_, hlog, iff_of_false (by decide) ?_⟩
      rintro ⟨-, -, p, hp, -⟩
      exact absurd (hnext.symm.trans hp) (by simp)
    · rw [hnext] at h
      obtain ⟨r, rfl, hr⟩ := Option.bind_eq_some_iff.mp hnext
      have hlt := proceed_lt hoff hzero hr
      obtain ⟨more, hmore, hiff⟩ := writeLoop_carries fuel p.1 p.2 t w' ok info' (by omega) h
      refine ⟨_ :: more, by rw [hmore, hlog, List.append_assoc]; rfl, hiff.trans ?_⟩
      constructor
      · exact fun hrest => ⟨hoff, hzero, p, hnext, hrest⟩
      · rintro ⟨-, -, p', hp', hrest⟩
        rwa [Option.some.inj (hnext.symm.trans hp')]

theorem passed_start (h : base ≤ finish) (heven : unit access ∣ base) :
    Passed source base finish access base [] := by
  refine ⟨Nat.le_refl _, h, fun x hx => absurd hx List.not_mem_nil,
    .inl ⟨?_, heven, fun a hlow hhigh => by omega⟩⟩
  rintro ⟨x, hx, -⟩
  exact List.not_mem_nil hx

end Loop

/-! ### The command -/

section Total

variable {β : Type} {B : Bmc β} {env : Env} {e : Fault}

theorem never_readLoop (id : UInt8) (base finish : ℕ) : ∀ (fuel : ℕ) (info : Info) (off : ℕ)
    (dest : Memory UInt8),
    Never e (readLoop B id base finish fuel info off dest)
  | 0, _, _, _ => .pure _
  | fuel + 1, info, off, dest => by
    refine .bind never_ask fun o => ?_
    rcases o with _ | r
    · exact .pure _
    · exact .ite (fun _ => .ite (fun _ => never_readLoop id base finish fuel _ _ _) fun _ =>
      .pure _) fun _ =>
        .ite (fun _ => .pure _) fun _ => .ite (fun _ => .pure _) fun _ =>
          .ite (fun _ => .pure _) fun _ =>
          never_readLoop id base finish fuel _ _ _

theorem never_readArea (id : UInt8) (info : Info) (offset length : ℕ) :
    Never e (readArea B env id info offset length) := by
  unfold readArea
  refine .ite (fun _ => .pure _) fun _ => ?_
  split
  · exact .pure _
  · exact never_readLoop id _ _ _ _ _ _

theorem never_recordBlocks (id : UInt8) : ∀ (fuel : ℕ) (info : Info) (off : ℕ)
    (blocks : List Block),
    Never e (recordBlocks B env id fuel info off blocks)
  | 0, _, _, _ => .pure _
  | fuel + 1, _, _, _ =>
    .ite (fun _ => .pure _) fun _ => .ite (fun _ => .pure _) fun _ =>
      .bind (never_readArea id _ _ _) fun _ =>
      .ite (fun _ => .pure _) fun _ => .ite (fun _ => .pure _) fun _ =>
        never_recordBlocks id fuel _ _ _

theorem never_buildBlocks (id : UInt8) (info : Info) : Never e (buildBlocks B env id info) := by
  refine .bind never_ask fun o => ?_
  rcases o.bind headerOf with _ | header
  · exact .pure _
  · exact .ite (fun _ => .pure _) fun _ => .bind (never_recordBlocks id _ _ _ _) fun _ => .pure _

theorem never_writeLoop (id : UInt8) (blocks : List Block) (source : Memory UInt8)
    (base finish fuel : ℕ) (info : Info) (off : ℕ) :
    Never e (writeLoop B id blocks source base finish fuel info off) :=
  .of_ok fun w => by
    obtain ⟨out, w', -, h, -⟩ := writeLoop_returns B id blocks source base finish fuel info off w
    exact ⟨out, w', h⟩

theorem never_writeArea (id : UInt8) (info : Info) (offset : ℕ) (source : Memory UInt8)
    (length : ℕ) :
    Never e (writeArea B env id info offset source length) := by
  refine .ite (fun _ => .pure _) fun _ => .ite (fun _ => .pure _) fun _ =>
    .bind (never_buildBlocks id info) fun b => ?_
  rcases firstWrite env b.1 with _ | maxWrite
  · exact .pure _
  · exact never_writeLoop id _ _ _ _ _ _ _

theorem never_location (id : UInt8) : Never e (location B id) := by
  have hinfo : Never e (getInfoNonempty B id) := by
    refine .bind (.bind never_ask fun o => ?_) fun _ => .pure _
    rcases o with _ | r
    · exact .pure _
    · exact .pure _
  refine .bind hinfo fun o => ?_
  rcases o with _ | info
  · exact .pure _
  · exact .bind (.bind never_ask fun _ => .pure _) fun _ => .pure _

end Total

section Write

variable {β : Type} {B : Bmc β} {env : Env} {id : UInt8}

theorem refused_of_silent {xs ys : List Exchange} (h : ∀ x ∈ xs, isWrite x = false) :
    Refused (xs ++ ys) ↔ Refused ys := by
  rw [refused_append, or_iff_right]
  rintro ⟨x, hx, hwrite, -⟩
  exact Bool.false_ne_true ((h x hx).symm.trans hwrite)

theorem written_of_silent {xs ys : List Exchange} (h : ∀ x ∈ xs, isWrite x = false) {access : Bool}
    {source : Memory UInt8} {base finish : ℕ} :
    Written access (xs ++ ys) source base finish ↔ Written access ys source base finish :=
  forall_congr' fun _ => forall_congr' fun _ => forall_congr' fun _ => not_write_append h

/-- **`writeArea`**: it says whether it came to its end, and then the area is written unless
something was protected. -/
theorem writeArea_written {info info' : Info} (hsize : info.size < 65536) {offset length : ℕ}
    (hlength : 0 < length) {source : Memory UInt8} {ok : Bool} {w w' : CmdWorld Unit β}
    (h : writeArea B env id info offset source length w = .ok ((ok, info'), w')) :
    ∃ evs, w'.log = w.log ++ evs ∧
      (Written info.access evs source offset (offset + length) ↔ ok = true ∧ ¬ Refused evs) := by
  rcases writeArea_runs hsize h with ⟨rfl, evs, hlog, hsilent⟩ | ⟨b, maxWrite, t, hblocks,
    ⟨evs, hlog, hsilent⟩, hguard, hloop, -⟩
  · refine ⟨evs, hlog, iff_of_false (fun hwritten => ?_) (by simp)⟩
    obtain ⟨x, hx, hwrite, -⟩ := hwritten offset (Nat.le_refl _) (by omega)
    exact Bool.false_ne_true ((hsilent x hx).symm.trans hwrite)
  · have haccess : ({ b.1 with maxWrite } : Info).access = info.access :=
      buildBlocks_access info w b t hblocks
    have hfuel : offset + length - offset + maxWrite < offset + length - offset + maxWrite + 1 :=
      Nat.lt_succ_self _
    obtain ⟨more, hmore, hiff⟩ := writeLoop_written id hguard.small _ _ _ [] t w' ok info'
      (passed_start hguard.ordered hguard.even.1) haccess (by omega) hfuel hloop
    rw [List.nil_append] at hiff
    refine ⟨evs ++ more, by rw [hmore, hlog, List.append_assoc], ?_⟩
    rw [written_of_silent hsilent, refused_of_silent hsilent]
    exact hiff

theorem silent_location : Moves silent (location B id) := by
  refine .bind (.bind (.bind (Says.ask fun _ => rfl) fun o => ?_) fun _ => .pure _) fun o => ?_
  · rcases o with _ | r
    · exact .pure _
    · exact .pure _
  · rcases o with _ | info
    · exact .pure _
    · exact .bind (.bind (Says.ask fun _ => rfl) fun _ => .pure _) fun _ => .pure _

theorem location_size {place : Info × ℕ} {w t : CmdWorld Unit β}
    (h : location B id w = .ok (some place, t)) :
    place.1.size < 65536 := by
  obtain ⟨o, t', hinfo, h⟩ := bind_ok.mp h
  obtain ⟨o', t'', hget, hfilter⟩ := bind_ok.mp hinfo
  obtain ⟨r, t₃, -, hreply⟩ := bind_ok.mp hget
  have hsize : ∀ info, o' = some info → info.size < 65536 := by
    rintro info rfl
    rcases r with _ | r
    · cases (pure_ok.mp hreply).1
    · have hof : infoOf r = some info := (pure_ok.mp hreply).1
      unfold infoOf at hof
      split_ifs at hof
      rw [← Option.some.inj hof]
      exact UInt16.toNat_lt _
  have ho : o'.filter (fun info => info.size ≠ 0) = o := (pure_ok.mp hfilter).1
  rcases o with _ | info
  · cases (pure_ok.mp h).1
  · obtain ⟨header, t₄, -, h⟩ := bind_ok.mp h
    have hplace : (header.map fun header => (info, (header.getD 5 0).toNat * 8)) = some place :=
      (pure_ok.mp h).1
    obtain ⟨bytes, -, rfl⟩ := Option.map_eq_some_iff.mp hplace
    exact hsize info (Option.filter_eq_some_iff.mp ho).1

theorem fileRecords_pos {file : Option (List UInt8)} {data : List UInt8 × ℕ}
    (h : fileRecords file = some data) :
    0 < data.2 := by
  obtain ⟨area, -, h⟩ := Option.bind_eq_some_iff.mp h
  obtain ⟨used, hused, rfl⟩ := Option.map_eq_some_iff.mp h
  obtain ⟨c, rest, -, rfl⟩ := (adjustMultirecordSize_some_iff area used).mp hused
  rw [Chain.bytes, List.length_append, c.last.length_bytes]
  omega

end Write

section Command

variable {β : Type} (B : Bmc β) (env : Env) (id : UInt8) (file : Option (List UInt8))
  (w : CmdWorld Unit β)

/-- The records of the file have been written where the device has its multirecord area. -/
def Upgraded (evs : List Exchange) : Prop := ∃ place data t, location B id w = .ok (some place, t) ∧
  fileRecords file = some data ∧
  Written place.1.access evs (sourceOf data.1) place.2 (place.2 + data.2)

/-- The status of the command is right. -/
def Honest : Prop := ∃ rc w' evs, upgradeEkey B env id file w = .ok (rc, w') ∧
    w'.log = w.log ++ evs ∧
  (rc = 0 ↔ Upgraded B id file w evs)

/-- The command does not come to the write: the device does not say where the area is, or the file
has no records. -/
def GivesUp : Prop := ∀ place t, location B id w = .ok (some place, t) → fileRecords file = none

/-- The device protects a block, and takes all the others: its answers behind `buildBlocks` carry
the writes to the end of the area, and one of them protects a block. -/
def Skips : Prop := ∃ place data t b u maxWrite rc w' more, location B id w = .ok (some place, t) ∧
  fileRecords file = some data ∧ buildBlocks B env id place.1 t = .ok (b, u) ∧
    firstWrite env b.1 = some maxWrite ∧
  upgradeEkey B env id file w = .ok (rc, w') ∧ w'.log = u.log ++ more ∧
  Carries b.2 (place.2 + data.2) { b.1 with maxWrite } place.2 (more.map Prod.snd) ∧ Refused more

variable {B env id file w}

theorem honest_of_givesUp (h : GivesUp B id file w) : Honest B env id file w := by
  obtain ⟨o, t, hlocation⟩ := returns_of_never (fun _ => never_location id) w
  obtain ⟨evs, hlog, -⟩ := silent_location w o t hlocation
  refine ⟨-1, t, evs, ?_, hlog, iff_of_false (by decide) ?_⟩
  · rw [upgradeEkey, bind_run hlocation]
    rcases o with _ | place
    · rfl
    · rw [h place t hlocation]
      rfl
  · rintro ⟨place, data, t', hplace, hdata, -⟩
    rw [h place t' hplace] at hdata
    cases hdata

variable {place : Info × ℕ} {data : List UInt8 × ℕ} {t t' : CmdWorld Unit β} {ok : Bool}
  {info' : Info}
  {more : List Exchange}

theorem upgradeEkey_run (hlocation : location B id w = .ok (some place, t))
    (hfile : fileRecords file = some data) (hwrite : writeArea B env id place.1 place.2
      (sourceOf data.1) data.2 t = .ok ((ok, info'), t')) :
    upgradeEkey B env id file w = .ok (if ok then -1 else 0, t') := by
  rw [upgradeEkey, bind_run hlocation]
  dsimp only
  rw [hfile]
  dsimp only
  rw [bind_run hwrite]
  rfl

/-- With a write the status is right only if the write came to its end, and something was
protected. -/
theorem honest_iff_refused (hlocation : location B id w = .ok (some place, t))
    (hfile : fileRecords file = some data)
    (hwrite : writeArea B env id place.1 place.2 (sourceOf data.1) data.2 t = .ok ((ok, info'), t'))
    (hlog : t'.log = t.log ++ more) : Honest B env id file w ↔ ok = true ∧ Refused more := by
  obtain ⟨evs, hsays, hsilent⟩ := silent_location w _ t hlocation
  obtain ⟨more', hmore, hwritten⟩ :=
    writeArea_written (location_size hlocation) (fileRecords_pos hfile) hwrite
  obtain rfl : more' = more := List.append_cancel_left (hmore.symm.trans hlog)
  have hrun := upgradeEkey_run hlocation hfile hwrite
  have hupgraded : Upgraded B id file w (evs ++ more') ↔ ok = true ∧ ¬ Refused more' := by
    rw [← hwritten, ← written_of_silent hsilent]
    constructor
    · rintro ⟨place', data', t'', hplace, hdata, h⟩
      obtain ⟨hsame, -⟩ := Prod.mk.inj (Except.ok.inj (hlocation.symm.trans hplace))
      obtain rfl := Option.some.inj hsame
      obtain rfl := Option.some.inj (hfile.symm.trans hdata)
      exact h
    · exact fun h => ⟨place, data, t, hlocation, hfile, h⟩
  have hstatus : (if ok = true then (-1 : ℤ) else 0) = 0 ↔ ok = false := by cases ok <;> decide
  have hhonest : Honest B env id file w ↔ ((if ok = true then (-1 : ℤ) else 0) = 0 ↔
      Upgraded B id file w (evs ++ more')) := by
    constructor
    · rintro ⟨rc, w', evs', hrc, hlog', h⟩
      obtain ⟨rfl, rfl⟩ := Prod.mk.inj (Except.ok.inj (hrun.symm.trans hrc))
      obtain rfl : evs' = evs ++ more' := by
        rw [hmore, hsays, List.append_assoc] at hlog'
        exact (List.append_cancel_left hlog').symm
      exact h
    · exact fun h => ⟨_, t', evs ++ more', hrun, by rw [hmore, hsays, List.append_assoc], h⟩
  rw [hhonest, hupgraded, hstatus]
  cases ok <;> simp

/-- The write came to its end with something protected exactly if the answers say so. -/
theorem skips_iff (hlocation : location B id w = .ok (some place, t))
    (hfile : fileRecords file = some data)
    (hwrite : writeArea B env id place.1 place.2 (sourceOf data.1) data.2 t = .ok ((ok, info'), t'))
    (hlog : t'.log = t.log ++ more) : Skips B env id file w ↔ ok = true ∧ Refused more := by
  have hrun := upgradeEkey_run hlocation hfile hwrite
  -- what `Skips` says of this run
  have hskips : Skips B env id file w ↔
      ∃ b u maxWrite more', buildBlocks B env id place.1 t = .ok (b, u) ∧
      firstWrite env b.1 = some maxWrite ∧ t'.log = u.log ++ more' ∧
      Carries b.2 (place.2 + data.2) { b.1 with maxWrite } place.2 (more'.map Prod.snd) ∧
        Refused more' := by
    constructor
    · rintro ⟨place', data', t₁, b, u, maxWrite, rc, w', more', hlocation', hfile', hblocks, hfirst,
        hrun', hend⟩
      obtain ⟨hsame, rfl⟩ := Prod.mk.inj (Except.ok.inj (hlocation.symm.trans hlocation'))
      obtain rfl := Option.some.inj hsame
      obtain rfl := Option.some.inj (hfile.symm.trans hfile')
      obtain ⟨-, rfl⟩ := Prod.mk.inj (Except.ok.inj (hrun.symm.trans hrun'))
      exact ⟨b, u, maxWrite, more', hblocks, hfirst, hend⟩
    · rintro ⟨b, u, maxWrite, more', hblocks, hfirst, hend⟩
      exact ⟨place, data, t, b, u, maxWrite, _, t', more', hlocation, hfile, hblocks,
        hfirst, hrun, hend⟩
  rw [hskips]
  rcases writeArea_runs (location_size hlocation) hwrite with ⟨rfl, evs, hevs, hsilent⟩ |
    ⟨b, maxWrite, u, hblocks, ⟨evs, hevs, hsilent⟩, -, hloop, hfirst⟩
  · refine iff_of_false ?_ (by simp)
    rintro ⟨b, u, -, more', hblocks, -, hmore, -, x, hx, hwritten, -⟩
    obtain ⟨before, hbefore, -⟩ := (silent_buildBlocks place.1).rel hblocks
    rw [hevs, hbefore, List.append_assoc] at hmore
    have hmem : x ∈ evs := List.append_cancel_left hmore ▸ List.mem_append_right _ hx
    exact Bool.false_ne_true ((hsilent x hmem).symm.trans hwritten)
  · obtain ⟨more', hmore, hcarries⟩ :=
      writeLoop_carries id _ _ _ u t' ok info' (Nat.lt_succ_self _) hloop
    have hsplit : more = evs ++ more' := by
      rw [hmore, hevs, List.append_assoc] at hlog
      exact (List.append_cancel_left hlog).symm
    rw [hcarries, hsplit, refused_of_silent hsilent]
    constructor
    · rintro ⟨b', u', maxWrite', more₁, hblocks', hfirst', hmore₁, hend⟩
      obtain ⟨rfl, rfl⟩ := Prod.mk.inj (Except.ok.inj (hblocks.symm.trans hblocks'))
      obtain rfl := Option.some.inj (hfirst.symm.trans hfirst')
      obtain rfl := List.append_cancel_left (hmore.symm.trans hmore₁)
      exact hend
    · exact fun hend => ⟨b, u, maxWrite, more', hblocks, hfirst, hmore, hend⟩

/-- **The status of `upgradeEkey`** is right if the command does not come to the write, or if the
device protects a block and takes all the others; in no other run. -/
theorem upgradeEkey_honest_iff (B : Bmc β) (env : Env) (id : UInt8) (file : Option (List UInt8))
    (w : CmdWorld Unit β) :
    Honest B env id file w ↔ GivesUp B id file w ∨ Skips B env id file w := by
  by_cases hup : GivesUp B id file w
  · exact iff_of_true (honest_of_givesUp hup) (.inl hup)
  rw [or_iff_right hup]
  obtain ⟨place, t, hlocation, hsome⟩ : ∃ place t, location B id w = .ok (some place, t) ∧
      fileRecords file ≠ none := by
    simpa [GivesUp] using hup
  obtain ⟨data, hfile⟩ := Option.ne_none_iff_exists'.mp hsome
  have hnever : ∀ e, Never e (writeArea B env id place.1 place.2 (sourceOf data.1) data.2) :=
    fun _ =>
      never_writeArea id _ _ _ _
  obtain ⟨⟨ok, info'⟩, t', hwrite⟩ := returns_of_never hnever t
  obtain ⟨more, hlog, -⟩ :=
    writeArea_written (location_size hlocation) (fileRecords_pos hfile) hwrite
  rw [honest_iff_refused hlocation hfile hwrite hlog, skips_iff hlocation hfile hwrite hlog]

end Command

/-! ### An upgrade that is reported as a failure -/

/-- A device with 16 bytes that takes every write. -/
def taking : Bmc Unit := fun _ c =>
  (some (if c.cmd = 0x10 then Reply.of [16, 0, 0]
    else if c.cmd = 0x11 then Reply.of [8, 1, 0, 0, 0, 0, 1, 0, 0xfe] else Reply.of [5]), ())

/-- An image with one empty record. -/
def oneRecord : List UInt8 := [1, 0, 0, 0, 0, 1, 0, 0xfe, 0xc0, 0x82, 0, 0, 0xbe]

/-- Behind the two requests of `location`. -/
def behindLocation : CmdWorld Unit Unit :=
  (World.asked ⟨(), (), []⟩ taking (infoRequest 0)).asked taking (readRequest 0 false 0 8)

theorem location_taking : location taking 0 ⟨(), (), []⟩ =
    .ok (some (⟨16, false, 0, 0⟩, 8), behindLocation) := rfl

theorem fileRecords_oneRecord : fileRecords (some oneRecord) =
    some ([0xc0, 0x82, 0, 0, 0xbe], 5) := by decide +kernel

/-- The device takes all five bytes, and the status is −1. -/
theorem not_honest_taking : ¬ Honest taking ⟨34, 34⟩ 0 (some oneRecord) ⟨(), (), []⟩ := by
  obtain ⟨⟨ok, info'⟩, t', hwrite, hp⟩ := exists_of_returns
    (x := writeArea taking ⟨34, 34⟩ 0 ⟨16, false, 0, 0⟩ 8 (sourceOf [0xc0, 0x82, 0, 0, 0xbe]) 5)
      (s := behindLocation)
    (p := fun _ w => w.log.all fun x => x.2.all fun r => r.ccode ≠ 0x80) (by decide +kernel)
  obtain ⟨more, hlog, -⟩ := writeArea_written (by decide) (by decide) hwrite
  rw [honest_iff_refused location_taking fileRecords_oneRecord hwrite hlog]
  rintro ⟨-, x, hx, -, r, hr, hcode⟩
  have hall := List.all_eq_true.mp hp x (hlog ▸ List.mem_append_right _ hx)
  rw [hr] at hall
  exact absurd hcode (of_decide_eq_true hall)

end Ipmitool.Fru.Upgrade
