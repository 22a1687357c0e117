import Mathlib.Logic.Relation
import Ipmitool.Fru.Storage

/-! # What is written where

`Right` looks at a write as the device sees it: the bytes that it carries have to be those of the
source for the place that it names, inside of the area and inside of the block. `Done` says that
every byte of the area was acknowledged or skipped with its block.

`writes_right_iff`: for a list of blocks, all writes of all runs are right, and they report success
exactly if all is done, if and only if no block that the loop can jump to starts at an odd place of
a device that is accessed by words. The place on the wire is cut down to a word, so a write there is
a byte too low (`written_too_low`). -/

namespace Ipmitool.Fru.Writes

open Ipmitool.Lib Ipmitool.Lib.Mem Ipmitool.Lib.Bytes Ipmitool.Lib.Machine Ipmitool.Lib.Dialogue
open Ipmitool.Core.Types Ipmitool.Core.Interface Ipmitool.Fru.Transfer Ipmitool.Fru.ReadFirst
  Ipmitool.Fru.Storage

/-! ### Writes -/

/-- The place that a request names, in bytes. -/
def address (access : Bool) (x : Exchange) : ℕ := unit access * (place x).toNat

/-- The bytes that a write carries. -/
def payload (x : Exchange) : List UInt8 := x.1.data.drop 3

/-- The write stays in the area from `base` to `finish`, carries the bytes of the source for its
place, and ends with the block that it starts in. -/
structure Right (blocks : List Block) (source : Memory UInt8) (base finish : ℕ) (access : Bool)
    (x : Exchange) : Prop where
  low : base ≤ address access x
  high : address access x + (payload x).length ≤ finish
  bytes : payload x = Mem.read source (address access x - base) (payload x).length
  block : ∀ b, blocks.find? (fun b => address access x < b.stop) = some b →
    address access x + (payload x).length ≤ b.stop

/-- The byte was acknowledged, or its block answered that it is protected. -/
def Settled (blocks : List Block) (finish : ℕ) (access : Bool) (evs : List Exchange)
    (a : ℕ) : Prop :=
  ∃ x ∈ evs, ∃ r, x.2 = some r ∧ address access x ≤ a ∧
    (r.ccode = 0 ∧ a < address access x + (payload x).length ∨
      r.ccode = 0x80 ∧ a < blockEnd blocks (address access x) finish)

/-- Every byte of the area is settled. -/
def Done (blocks : List Block) (base finish : ℕ) (access : Bool) (evs : List Exchange) : Prop :=
  ∀ a, base ≤ a → a < finish → Settled blocks finish access evs a

/-- What `writeArea` has made sure of before its loop. -/
structure Guarded (access : Bool) (base finish maxWrite : ℕ) : Prop where
  ordered : base ≤ finish
  small : finish < 65536
  even : unit access ∣ base ∧ unit access ∣ finish
  room : unit access ∣ maxWrite
  positive : 0 < maxWrite

/-- All writes of all runs are right, and they report success exactly if all is done. -/
def Correct (id : UInt8) (blocks : List Block) (base finish : ℕ) (access : Bool)
    (maxWrite : ℕ) : Prop :=
  ∀ (source : Memory UInt8) {β : Type} (B : Bmc β) (info : Info) (w w' : CmdWorld Unit β) (ok :
    Bool) (info' : Info),
    info.access = access → info.maxWrite = maxWrite →
    writeLoop B id blocks source base finish (finish - base + maxWrite + 1) info base w =
      .ok ((ok, info'), w') →
    ∃ evs, w'.log = w.log ++ evs ∧ (∀ x ∈ evs, Right blocks source base finish access x) ∧
      (ok = true ↔ Done blocks base finish access evs)

/-- A jump from block to block: there is room for a word in the block. -/
def Jump (blocks : List Block) (finish e e' : ℕ) : Prop :=
  e < finish ∧ e + 2 ≤ blockEnd blocks e finish ∧ e' = blockEnd blocks e finish

/-- On a device that is accessed by words, the loop does not jump to an odd place where it could
write. -/
def Aligned (blocks : List Block) (base finish : ℕ) (access : Bool) : Prop :=
  access = true → ∀ e, Relation.ReflTransGen (Jump blocks finish) base e → e < finish →
    e + 2 ≤ blockEnd blocks e finish → e % 2 = 0

/-! ### Blocks -/

section
variable {blocks : List Block} {finish : ℕ}

theorem blockEnd_none {off : ℕ} (h : blocks.find? (fun b => off < b.stop) = none) :
    blockEnd blocks off finish = finish := by
  rw [blockEnd, h]

theorem blockEnd_some {off : ℕ} {b : Block} (h : blocks.find? (fun b => off < b.stop) = some b) :
    blockEnd blocks off finish = min b.stop finish := by
  rw [blockEnd, h]

theorem lt_blockEnd (blocks : List Block) {off : ℕ} (h : off < finish) :
    off < blockEnd blocks off finish := by
  rcases hfind : blocks.find? (fun b => off < b.stop) with _ | b
  · rw [blockEnd_none hfind]
    exact h
  · have hb : off < b.stop := by simpa using List.find?_some hfind
    rw [blockEnd_some hfind]
    exact Nat.lt_min.mpr ⟨hb, h⟩

theorem blockEnd_eq {off off' : ℕ} (hle : off ≤ off') (hlt : off' < blockEnd blocks off finish) :
    blockEnd blocks off' finish = blockEnd blocks off finish := by
  have hfind : (blocks.find? fun b => off' < b.stop) = blocks.find? fun b => off < b.stop := by
    induction blocks with
    | nil => rfl
    | cons b bs ih =>
      rw [List.find?_cons, List.find?_cons]
      by_cases hb : off < b.stop
      · have hfirst : (b :: bs).find? (fun b => off < b.stop) = some b := by
          rw [List.find?_cons, decide_eq_true hb]
        rw [blockEnd_some hfirst] at hlt
        rw [decide_eq_true hb, decide_eq_true (Nat.lt_min.mp hlt).1]
      · have hskip : blockEnd (b :: bs) off finish = blockEnd bs off finish := by
          rw [blockEnd, List.find?_cons, decide_eq_false hb]
          rfl
        rw [hskip] at hlt
        rw [decide_eq_false hb, decide_eq_false (by omega)]
        exact ih hlt
  rw [blockEnd, hfind]
  rfl

theorem blockEnd_le_stop (finish : ℕ) {off : ℕ} {b : Block}
    (h : blocks.find? (fun b => off < b.stop) = some b) :
    blockEnd blocks off finish ≤ b.stop := by
  rw [blockEnd_some h]
  exact Nat.min_le_left _ _

end

/-! ### Requests -/

theorem address_writeRequest (id : UInt8) (access : Bool) {off : ℕ} (h : off < 65536)
    (bytes : List UInt8) (o : Option Reply) : address access (writeRequest id access off bytes, o) =
      off / unit access * unit access := by
  have hplace : place (writeRequest id access off bytes, o) =
      UInt16.ofNat (wireOffset access off) := by
    simp only [place, writeRequest, addressed, le16, List.cons_append, List.nil_append,
      List.getD_cons_succ, List.getD_cons_zero]
    exact ofLe16_le16 _
  have hwire : wireOffset access off = off / unit access := by
    cases access with
    | false => exact (Nat.div_one off).symm
    | true => rfl
  have hle : off / unit access ≤ off := Nat.div_le_self _ _
  rw [address, hplace, hwire, UInt16.toNat_ofNat', Nat.mod_eq_of_lt (by omega), Nat.mul_comm]

section
variable {β : Type} {B : Bmc β} {id : UInt8} {blocks : List Block} {source : Memory UInt8}
  {base finish : ℕ}

/-! ### A turn of the loop -/

/-- The length of the next write. -/
def piece (blocks : List Block) (finish : ℕ) (info : Info) (off : ℕ) : ℕ :=
  pieceLength info.access (blockEnd blocks off finish - off) info.maxWrite

/-- The next write. -/
def nextWrite (id : UInt8) (blocks : List Block) (source : Memory UInt8) (base finish : ℕ)
    (info : Info) (off : ℕ) : Command :=
  writeRequest id info.access off (Mem.read source (off - base) (piece blocks finish info off))

/-- Where the loop goes on after an answer, and with which limit; none if it ends. -/
def proceed (blocks : List Block) (finish : ℕ) (info : Info) (off : ℕ) (r : Reply) :
    Option (Info × ℕ) :=
  if isTooLarge r.ccode ∧ 32 < info.maxWrite then some
    ({ info with maxWrite := info.maxWrite - 8 }, off)
  else if r.ccode = 0x80 then some (info, blockEnd blocks off finish)
  else if r.ccode ≠ 0 then none
  else some (info, off + piece blocks finish info off)

theorem writeLoop_succ (B : Bmc β) (id : UInt8) (blocks : List Block) (source : Memory UInt8)
    (base finish fuel : ℕ) (info : Info) (off : ℕ) :
    writeLoop B id blocks source base finish (fuel + 1) info off =
      if finish ≤ off then pure (true, info)
      else if piece blocks finish info off = 0 then pure (false, info)
      else sendrecv B (nextWrite id blocks source base finish info off) >>= fun o =>
        (match o.bind (proceed blocks finish info off) with
        | none => pure (false, info)
        | some p => writeLoop B id blocks source base finish fuel p.1 p.2) := by
  rw [writeLoop]
  split_ifs with hdone hzero
  · rfl
  · exact if_pos hzero
  · refine (if_neg hzero).trans ?_
    refine bind_congr fun o => ?_
    rcases o with _ | r
    · rfl
    · show _ = match proceed blocks finish info off r with | none => _ | some p => _
      unfold proceed
      dsimp only
      split_ifs <;> rfl

theorem proceed_lt {info info' : Info} {off off' : ℕ} {r : Reply} (hoff : off < finish)
    (hpiece : piece blocks finish info off ≠ 0)
    (h : proceed blocks finish info off r = some (info', off')) :
    finish - off' + info'.maxWrite < finish - off + info.maxWrite := by
  have hend := lt_blockEnd blocks hoff
  have hle := blockEnd_le blocks off finish
  unfold proceed at h
  split_ifs at h with h1 h2 h3
  · obtain ⟨rfl, rfl⟩ := Prod.mk.inj (Option.some.inj h)
    dsimp only
    omega
  · obtain ⟨rfl, rfl⟩ := Prod.mk.inj (Option.some.inj h)
    omega
  · obtain ⟨rfl, rfl⟩ := Prod.mk.inj (Option.some.inj h)
    omega

/-- **The loop ends**: fuel beyond the measure makes no difference. -/
theorem writeLoop_ends (B : Bmc β) (id : UInt8) (blocks : List Block) (source : Memory UInt8)
    (base finish more : ℕ) :
    ∀ (fuel : ℕ) (info : Info) (off : ℕ), finish - off + info.maxWrite < fuel →
    writeLoop B id blocks source base finish (fuel + more) info off =
      writeLoop B id blocks source base finish fuel info off
  | 0, info, off, h => by omega
  | fuel + 1, info, off, h => by
    rw [Nat.add_right_comm, writeLoop_succ, writeLoop_succ]
    split_ifs with hdone hzero
    · rfl
    · rfl
    · refine bind_congr fun o => ?_
      rcases hnext : o.bind (proceed blocks finish info off) with _ | p
      · rfl
      · obtain ⟨r, rfl, hr⟩ := Option.bind_eq_some_iff.mp hnext
        have hlt := proceed_lt (Nat.lt_of_not_le hdone) hzero hr
        exact writeLoop_ends B id blocks source base finish more fuel p.1 p.2 (by omega)

theorem writeLoop_returns (B : Bmc β) (id : UInt8) (blocks : List Block) (source : Memory UInt8)
    (base finish : ℕ) :
    ∀ (fuel : ℕ) (info : Info) (off : ℕ) (w : CmdWorld Unit β), ∃ out w' evs,
    writeLoop B id blocks source base finish fuel info off w = .ok (out, w') ∧ w'.log = w.log ++ evs
  | 0, info, off, w => ⟨_, w, [], rfl, (List.append_nil _).symm⟩
  | fuel + 1, info, off, w => by
    rw [writeLoop_succ]
    split_ifs with hdone hzero
    · exact ⟨_, w, [], rfl, (List.append_nil _).symm⟩
    · exact ⟨_, w, [], rfl, (List.append_nil _).symm⟩
    · rw [bind_run (ask_ok.mpr ⟨rfl, rfl⟩)]
      rcases (B w.device (nextWrite id blocks source base finish info off)).1.bind
        (proceed blocks finish info off) with
        _ | p
      · exact ⟨_, _, _, rfl, rfl⟩
      · obtain ⟨out, w', evs, hrun, hlog⟩ :=
  writeLoop_returns B id blocks source base finish fuel p.1 p.2
          (w.asked B (nextWrite id blocks source base finish info off))
        exact ⟨out, w', _, hrun, by rw [hlog, World.asked_log, List.append_assoc]⟩

/-! ### Every run -/

variable {access : Bool} {evs : List Exchange}

/-- The state of the loop: everything before `off` is settled, nothing behind it is, and the loop
has come here by jumps and by whole words. -/
structure Position (blocks : List Block) (source : Memory UInt8) (base finish : ℕ)
    (access : Bool) (off : ℕ) (evs : List Exchange) : Prop where
  low : base ≤ off
  right : ∀ x ∈ evs, Right blocks source base finish access x
  before : ∀ a, base ≤ a → a < off → a < finish → Settled blocks finish access evs a
  behind : ∀ a, off ≤ a → ¬ Settled blocks finish access evs a
  reached : access = true → off < finish → ∃ e, Relation.ReflTransGen (Jump blocks finish) base e ∧
    e ≤ off ∧
    off < blockEnd blocks e finish ∧ off % 2 = e % 2

theorem settled_append {evs' : List Exchange} {a : ℕ} :
    Settled blocks finish access (evs ++ evs') a ↔
    Settled blocks finish access evs a ∨ Settled blocks finish access evs' a := by
  constructor
  · rintro ⟨x, hx, h⟩
    rcases List.mem_append.mp hx with hx | hx
    · exact .inl ⟨x, hx, h⟩
    · exact .inr ⟨x, hx, h⟩
  · rintro (⟨x, hx, h⟩ | ⟨x, hx, h⟩)
    · exact ⟨x, List.mem_append_left _ hx, h⟩
    · exact ⟨x, List.mem_append_right _ hx, h⟩

theorem unit_dvd_piece (blocks : List Block) (finish : ℕ) (info : Info) (off : ℕ) :
    unit info.access ∣ piece blocks finish info off :=
  unit_dvd_pieceLength _ _ _

theorem piece_le (blocks : List Block) (finish : ℕ) (info : Info) (off : ℕ) :
    piece blocks finish info off ≤ blockEnd blocks off finish - off := pieceLength_le _ _ _

theorem word_le_piece {info : Info} {off : ℕ} (h : piece blocks finish info off ≠ 0)
    (haccess : info.access = true) :
    2 ≤ piece blocks finish info off := by
  have hdvd := unit_dvd_piece blocks finish info off
  rw [haccess] at hdvd
  exact Nat.le_of_dvd (Nat.pos_of_ne_zero h) hdvd

theorem Position.even {off : ℕ} (h : Position blocks source base finish access off evs)
    (ha : Aligned blocks base finish access) (hoff : off < finish) {info : Info}
    (haccess : info.access = access) (hpiece : piece blocks finish info off ≠ 0) :
    unit access ∣ off := by
  cases access with
  | false => exact Nat.one_dvd _
  | true =>
    obtain ⟨e, hreach, hle, hlt, hmod⟩ := h.reached rfl hoff
    have hend := blockEnd_eq hle hlt
    have htwo := word_le_piece hpiece haccess
    have hroom := piece_le blocks finish info off
    have heven := ha rfl e hreach (by omega) (by omega)
    show 2 ∣ off
    omega

theorem Position.nextRight (id : UInt8) {off : ℕ}
    (h : Position blocks source base finish access off evs) (hoff : off < finish)
    (hfinish : finish < 65536) {info : Info} (haccess : info.access = access)
    (heven : unit access ∣ off) (o : Option Reply) :
    address access (nextWrite id blocks source base finish info off, o) = off ∧
      (payload (nextWrite id blocks source base finish info off, o)).length =
        piece blocks finish info off ∧
      Right blocks source base finish access
        (nextWrite id blocks source base finish info off, o) := by
  have haddress : address access (nextWrite id blocks source base finish info off, o) = off := by
    rw [nextWrite, haccess, address_writeRequest id access (by omega)]
    exact Nat.div_mul_cancel heven
  have hpayload : payload (nextWrite id blocks source base finish info off, o) =
      Mem.read source (off - base) (piece blocks finish info off) := rfl
  have hlength : (payload (nextWrite id blocks source base finish info off, o)).length =
      piece blocks finish info off := by
    rw [hpayload, length_read]
  have hle := piece_le blocks finish info off
  have hend := blockEnd_le blocks off finish
  have hlt := lt_blockEnd blocks hoff
  refine ⟨haddress, hlength, ?_, ?_, ?_, fun b hb => ?_⟩
  · rw [haddress]
    exact h.low
  · rw [haddress, hlength]
    omega
  · rw [haddress, hlength]
    exact hpayload
  · rw [haddress] at hb
    have hstop := blockEnd_le_stop finish hb
    rw [haddress, hlength]
    omega

/-- **One turn**: the write is right, and the loop goes on in such a state. -/
theorem Position.step (id : UInt8) {off : ℕ} (h : Position blocks source base finish access off evs)
    (hoff : off < finish) (hfinish : finish < 65536) {info : Info} (haccess : info.access = access)
    (heven : unit access ∣ off) (hpiece : piece blocks finish info off ≠ 0) {r : Reply}
    {info' : Info} {off' : ℕ}
    (hr : proceed blocks finish info off r = some (info', off')) :
    info'.access = access ∧ Position blocks source base finish access off'
      (evs ++ [(nextWrite id blocks source base finish info off, some r)]) := by
  obtain ⟨haddress, hlength, hright⟩ := h.nextRight id hoff hfinish haccess heven (some r)
  have hle := piece_le blocks finish info off
  have hend := blockEnd_le blocks off finish
  have hlt := lt_blockEnd blocks hoff
  have hall : ∀ x ∈ evs ++ [(nextWrite id blocks source base finish info off, some r)],
      Right blocks source base finish access x := by
    intro x hx
    rcases List.mem_append.mp hx with hx | hx
    · exact h.right x hx
    · rw [List.mem_singleton.mp hx]
      exact hright
  have hone : ∀ a,
      Settled blocks finish access [(nextWrite id blocks source base finish info off, some r)] a ↔
      off ≤ a ∧ (r.ccode = 0 ∧ a < off + piece blocks finish info off ∨
        r.ccode = 0x80 ∧ a < blockEnd blocks off finish) := by
    intro a
    constructor
    · rintro ⟨x, hx, r', hr', hlow, hcover⟩
      obtain rfl := List.mem_singleton.mp hx
      obtain rfl := Option.some.inj hr'
      rw [haddress] at hlow hcover
      rw [hlength] at hcover
      exact ⟨hlow, hcover⟩
    · rintro ⟨hlow, hcover⟩
      refine ⟨_, List.mem_singleton.mpr rfl, r, rfl, ?_⟩
      rw [haddress, hlength]
      exact ⟨hlow, hcover⟩
  -- the loop goes on behind what is settled now
  have hgo : ∀ stop, off < stop → stop ≤ blockEnd blocks off finish →
      (access = true → stop % 2 = off % 2 ∨ stop = blockEnd blocks off finish) →
      (∀ a, off ≤ a →
        (Settled blocks finish access [(nextWrite id blocks source base finish info off, some r)]
          a ↔ a < stop)) →
      Position blocks source base finish access stop
        (evs ++ [(nextWrite id blocks source base finish info off, some r)]) := by
    intro stop hstop hstop' hparity hsettled
    refine ⟨Nat.le_trans h.low (Nat.le_of_lt hstop), hall, fun a hbase ha hfin => ?_,
      fun a ha hc => ?_, fun ht hfin => ?_⟩
    · rw [settled_append]
      by_cases hlow : a < off
      · exact .inl (h.before a hbase hlow hfin)
      · exact .inr ((hsettled a (by omega)).mpr ha)
    · rcases settled_append.mp hc with hc | hc
      · exact h.behind a (by omega) hc
      · exact absurd ((hsettled a (by omega)).mp hc) (by omega)
    · obtain ⟨e, hreach, hele, helt, hmod⟩ := h.reached ht hoff
      have hsame := blockEnd_eq hele helt
      have htwo := word_le_piece hpiece (haccess.trans ht)
      rcases Nat.lt_or_ge stop (blockEnd blocks off finish) with hinside | houtside
      · have hp := (hparity ht).resolve_right (by omega)
        exact ⟨e, hreach, by omega, by omega, by omega⟩
      · have hjump : Jump blocks finish e stop := ⟨by omega, by omega, by omega⟩
        exact ⟨stop, hreach.tail hjump, Nat.le_refl _, lt_blockEnd blocks hfin, rfl⟩
  unfold proceed at hr
  split_ifs at hr with hlarge hprotected hfailed
  · obtain ⟨rfl, rfl⟩ := Prod.mk.inj (Option.some.inj hr)
    have hne : r.ccode ≠ 0 ∧ r.ccode ≠ 0x80 := by
      constructor <;> intro hc <;> rw [hc] at hlarge <;> exact absurd hlarge.1 (by decide)
    refine ⟨haccess, h.low, hall, fun a hbase ha hfin =>
      settled_append.mpr (.inl (h.before a hbase ha hfin)),
      fun a ha hc => ?_, h.reached⟩
    rcases settled_append.mp hc with hc | hc
    · exact h.behind a ha hc
    · rcases ((hone a).mp hc).2 with hc | hc
      · exact hne.1 hc.1
      · exact hne.2 hc.1
  · obtain ⟨rfl, rfl⟩ := Prod.mk.inj (Option.some.inj hr)
    refine ⟨haccess, hgo _ hlt (Nat.le_refl _) (fun _ => .inr rfl) fun a ha => ?_⟩
    rw [hone]
    constructor
    · rintro ⟨-, hc | hc⟩
      · exact absurd (hc.1.symm.trans hprotected) (by decide)
      · exact hc.2
    · exact fun hc => ⟨ha, .inr ⟨hprotected, hc⟩⟩
  · obtain ⟨rfl, rfl⟩ := Prod.mk.inj (Option.some.inj hr)
    have hzero : r.ccode = 0 := by simpa using hfailed
    refine ⟨haccess, hgo _ (by omega) (by omega) (fun ht => .inl ?_) fun a ha => ?_⟩
    · have hdvd := unit_dvd_piece blocks finish info off
      rw [haccess, ht] at hdvd
      have hmod : piece blocks finish info off % 2 = 0 := Nat.mod_eq_zero_of_dvd hdvd
      omega
    · rw [hone]
      constructor
      · rintro ⟨-, hc | hc⟩
        · exact hc.2
        · exact absurd (hc.1.symm.trans hzero) (by decide)
      · exact fun hc => ⟨ha, .inl ⟨hzero, hc⟩⟩

theorem Position.not_done {off : ℕ} (h : Position blocks source base finish access off evs)
    (hoff : off < finish) :
    ¬ Done blocks base finish access evs := fun hd => h.behind off (Nat.le_refl _)
      (hd off h.low hoff)

/-- **All turns**, from any such state. -/
theorem writeLoop_right (ha : Aligned blocks base finish access) (hfinish : finish < 65536) :
    ∀ (fuel : ℕ) (info : Info) (off : ℕ) (evs : List Exchange) (w w' : CmdWorld Unit β) (ok : Bool)
    (info' : Info),
    Position blocks source base finish access off evs → info.access = access →
    finish - off + info.maxWrite < fuel →
    writeLoop B id blocks source base finish fuel info off w = .ok ((ok, info'), w') →
    ∃ more, w'.log = w.log ++ more ∧ (∀ x ∈ evs ++ more, Right blocks source base finish access x) ∧
      (ok = true ↔ Done blocks base finish access (evs ++ more))
  | 0, info, off, evs, w, w', ok, info', _, _, hfuel, _ => by omega
  | fuel + 1, info, off, evs, w, w', ok, info', hp, haccess, hfuel, h => by
    rw [writeLoop_succ] at h
    by_cases hdone : finish ≤ off
    · rw [if_pos hdone] at h
      obtain ⟨hout, rfl⟩ := pure_ok.mp h
      obtain ⟨rfl, -⟩ := Prod.mk.inj hout
      refine ⟨[], (List.append_nil _).symm, ?_, iff_of_true rfl fun a hlow hhigh => ?_⟩
      · rw [List.append_nil]
        exact hp.right
      · rw [List.append_nil]
        exact hp.before a hlow (by omega) hhigh
    rw [if_neg hdone] at h
    have hoff : off < finish := Nat.lt_of_not_le hdone
    by_cases hzero : piece blocks finish info off = 0
    · rw [if_pos hzero] at h
      obtain ⟨hout, rfl⟩ := pure_ok.mp h
      obtain ⟨rfl, -⟩ := Prod.mk.inj hout
      refine ⟨[], (List.append_nil _).symm, ?_, iff_of_false (by decide) ?_⟩
      · rw [List.append_nil]
        exact hp.right
      · rw [List.append_nil]
        exact hp.not_done hoff
    rw [if_neg hzero] at h
    have heven := hp.even ha hoff haccess hzero
    obtain ⟨o, t, hask, h⟩ := bind_ok.mp h
    obtain ⟨-, rfl⟩ := ask_ok.mp hask
    obtain ⟨hlog, -⟩ := ask_log hask
    rcases hnext : o.bind (proceed blocks finish info off) with _ | p
    · -- the loop ends with this answer
      rw [hnext] at h
      obtain ⟨hout, rfl⟩ := pure_ok.mp h
      obtain ⟨rfl, -⟩ := Prod.mk.inj hout
      obtain ⟨-, -, hright⟩ := hp.nextRight id hoff hfinish haccess heven o
      refine ⟨_, hlog, fun x hx => ?_, iff_of_false (by decide) fun hd => ?_⟩
      · rcases List.mem_append.mp hx with hx | hx
        · exact hp.right x hx
        · rw [List.mem_singleton.mp hx]
          exact hright
      · rcases settled_append.mp (hd off hp.low hoff) with hc | ⟨x, hx, r, hr, -, hcover⟩
        · exact hp.behind off (Nat.le_refl _) hc
        · obtain rfl := List.mem_singleton.mp hx
          obtain rfl : o = some r := hr
          have hstop : proceed blocks finish info off r = none := hnext
          unfold proceed at hstop
          split_ifs at hstop with hlarge hprotected hfailed
          rcases hcover with hc | hc
          · exact hfailed hc.1
          · exact hprotected hc.1
    · rw [hnext] at h
      obtain ⟨r, rfl, hr⟩ := Option.bind_eq_some_iff.mp hnext
      obtain ⟨haccess', hp'⟩ := hp.step id hoff hfinish haccess heven hzero hr
      have hlt := proceed_lt hoff hzero hr
      obtain ⟨more, hmore, hright, hiff⟩ :=
        writeLoop_right ha hfinish fuel p.1 p.2 _ _ w' ok info' hp' haccess' (by omega) h
      refine ⟨_ :: more, by rw [hmore, hlog, List.append_assoc]; rfl, ?_, ?_⟩
      · rw [List.append_assoc] at hright
        exact hright
      · rw [List.append_assoc] at hiff
        exact hiff

theorem position_start : Position blocks source base finish access base [] := by
  refine ⟨Nat.le_refl _, by simp, fun a hlow hhigh => by omega, fun a _ hc => ?_, fun _ hlt => ?_⟩
  · obtain ⟨x, hx, -⟩ := hc
    exact absurd hx List.not_mem_nil
  · exact ⟨base, .refl, Nat.le_refl _, lt_blockEnd blocks hlt, rfl⟩

/-! ### A run that is not right -/

/-- A device that is protected. -/
def protecting : Bmc Unit := fun _ _ => (some { ccode := 0x80 }, ())

theorem protecting_step (id : UInt8) (source : Memory UInt8) (base fuel : ℕ) {info : Info}
    (haccess : info.access = true) (hroom : 2 ≤ info.maxWrite) {off : ℕ} (hoff : off < finish)
    (hword : off + 2 ≤ blockEnd blocks off finish) (w : CmdWorld Unit Unit) :
    writeLoop protecting id blocks source base finish (fuel + 1) info off w =
      writeLoop protecting id blocks source base finish fuel info (blockEnd blocks off finish)
        (w.asked protecting (nextWrite id blocks source base finish info off)) := by
  have hpiece : piece blocks finish info off ≠ 0 := by
    rw [piece, haccess]
    show min (blockEnd blocks off finish - off) info.maxWrite / 2 * 2 ≠ 0
    omega
  rw [writeLoop_succ, if_neg (Nat.not_le_of_lt hoff), if_neg hpiece,
    bind_run (ask_ok.mpr ⟨rfl, rfl⟩)]
  rfl

theorem protecting_writes (id : UInt8) (source : Memory UInt8) (base : ℕ) {info : Info}
    (haccess : info.access = true) (hroom : 2 ≤ info.maxWrite) {e : ℕ} (he : e < finish)
    (hword : e + 2 ≤ blockEnd blocks e finish) {off : ℕ}
    (h : Relation.ReflTransGen (Jump blocks finish) off e) :
    ∀ (fuel : ℕ) (w : CmdWorld Unit Unit), finish - off + info.maxWrite < fuel → ∃ out w' evs,
      writeLoop protecting id blocks source base finish fuel info off w = .ok (out, w') ∧
      w'.log = w.log ++ evs ∧
      ∃ o, (nextWrite id blocks source base finish info e, o) ∈ evs := by
  induction h using Relation.ReflTransGen.head_induction_on with
  | refl =>
    intro fuel w hfuel
    obtain ⟨fuel, rfl⟩ : ∃ f, fuel = f + 1 := ⟨fuel - 1, by omega⟩
    obtain ⟨out, w', evs, hrun, hlog⟩ :=
      writeLoop_returns protecting id blocks source base finish fuel info
        (blockEnd blocks e finish) (w.asked protecting
          (nextWrite id blocks source base finish info e))
    rw [protecting_step id source base fuel haccess hroom he hword]
    exact ⟨out, w', _, hrun, by rw [hlog, World.asked_log, List.append_assoc], _, List.mem_append_left _ List.mem_cons_self⟩
  | head hjump _ ih =>
    intro fuel w hfuel
    obtain ⟨hoff, hstep, rfl⟩ := hjump
    obtain ⟨fuel, rfl⟩ : ∃ f, fuel = f + 1 := ⟨fuel - 1, by omega⟩
    rw [protecting_step id source base fuel haccess hroom hoff hstep]
    obtain ⟨out, w', evs, hrun, hlog, o, ho⟩ := ih fuel _ (by omega)
    exact ⟨out, w', _ :: evs, hrun, by rw [hlog, World.asked_log, List.append_assoc]; rfl, o, List.mem_cons_of_mem _ ho⟩

theorem odd_not_right (id : UInt8) {info : Info} (haccess : info.access = true) {e : ℕ}
    (hodd : e % 2 = 1) (hlow : base < e) (he : e < finish) (hfinish : finish < 65536)
    (hroom : 2 ≤ info.maxWrite) (hword : e + 2 ≤ blockEnd blocks e finish) (o : Option Reply) :
    ¬ Right blocks (fun i => UInt8.ofNat i) base finish true
      (nextWrite id blocks (fun i => UInt8.ofNat i) base finish info e, o) := by
  intro h
  have haddress : address true (nextWrite id blocks (fun i => UInt8.ofNat i) base finish info e,
      o) = e - 1 := by
    rw [nextWrite, haccess, address_writeRequest id true (by omega)]
    show e / 2 * 2 = e - 1
    omega
  have hpiece : 0 < piece blocks finish info e := by
    rw [piece, haccess]
    show 0 < min (blockEnd blocks e finish - e) info.maxWrite / 2 * 2
    omega
  have hbytes := h.bytes
  rw [haddress] at hbytes
  have hpayload : payload (nextWrite id blocks (fun i => UInt8.ofNat i) base finish info e, o) =
      Mem.read (fun i => UInt8.ofNat i) (e - base) (piece blocks finish info e) := rfl
  rw [hpayload, length_read] at hbytes
  have hfirst : (Mem.read (fun i => UInt8.ofNat i) (e - base) (piece blocks finish info e))[0]? =
      (Mem.read (fun i => UInt8.ofNat i) (e - 1 - base) (piece blocks finish info e))[0]? := by
        rw [hbytes]
  rw [List.getElem?_eq_getElem (by rwa [length_read]),
    List.getElem?_eq_getElem (by rwa [length_read]), getElem_read, getElem_read] at hfirst
  have hmod := congrArg UInt8.toNat (Option.some.inj hfirst)
  simp only [UInt8.toNat_ofNat'] at hmod
  omega

/-! ### The whole -/

/-- **All writes are right** exactly if the loop cannot jump to an odd place of a device with
words. -/
theorem correct_iff (id : UInt8) {maxWrite : ℕ} (hg : Guarded access base finish maxWrite)
    (blocks : List Block) :
    Correct id blocks base finish access maxWrite ↔ Aligned blocks base finish access := by
  constructor
  · intro hc ht e hreach he hword
    subst ht
    have hbase : base % 2 = 0 := Nat.mod_eq_zero_of_dvd hg.even.1
    have hroom : 2 ≤ maxWrite := Nat.le_of_dvd hg.positive hg.room
    by_contra hodd
    have hlow : base ≤ e := by
      clear hodd hword he
      induction hreach with
      | refl => exact Nat.le_refl _
      | tail _ hjump ih =>
        obtain ⟨hlt, -, rfl⟩ := hjump
        exact Nat.le_trans ih (Nat.le_of_lt (lt_blockEnd blocks hlt))
    obtain ⟨out, w', evs, hrun, hlog, o, ho⟩ := protecting_writes id (fun i => UInt8.ofNat i) base
      (show (⟨finish, true, 0, maxWrite⟩ : Info).access = true from rfl) hroom he hword hreach
        (finish - base + maxWrite + 1)
      ⟨(), (), []⟩ (Nat.lt_succ_self _)
    obtain ⟨evs', hlog', hright, -⟩ :=
      hc (fun i => UInt8.ofNat i) protecting ⟨finish, true, 0, maxWrite⟩ _ w' out.1 out.2
        rfl rfl hrun
    obtain rfl : evs = evs' := List.append_cancel_left (hlog.symm.trans hlog')
    exact odd_not_right id rfl (by omega) (by omega) he hg.small hroom hword o (hright _ ho)
  · intro ha source β B info w w' ok info' haccess hmax h
    obtain ⟨more, hlog, hright, hiff⟩ :=
      writeLoop_right ha hg.small _ info base [] w w' ok info' position_start haccess
        (by rw [hmax]; exact Nat.lt_succ_self _) h
    exact ⟨more, hlog, hright, hiff⟩

/-! ### `writeArea` -/

/-- Nothing is written. -/
def silent : Frame (CmdWorld Unit β) := Says fun x => isWrite x = false

theorem silent_recordBlocks {env : Env} : ∀ (fuel : ℕ) (info : Info) (off : ℕ)
    (blocks : List Block),
    Moves silent (recordBlocks B env id fuel info off blocks)
  | 0, info, off, blocks => .pure _
  | fuel + 1, info, off, blocks => by
    refine .ite (fun _ => .pure _) fun _ => .ite (fun _ => .pure _) fun _ => .bind ?_ fun r =>
      .ite (fun _ => .pure _) fun _ => .ite (fun _ => .pure _) fun _ =>
        silent_recordBlocks fuel _ _ _
    intro w r w' h
    obtain ⟨-, -, evs, hlog, -, hnone, -⟩ := readArea_tells h
    exact ⟨evs, hlog, hnone⟩

theorem silent_buildBlocks {env : Env} (info : Info) :
    Moves silent (buildBlocks B env id info) := by
  refine .bind (Says.ask fun _ => rfl) fun o => ?_
  rcases o.bind headerOf with _ | header
  · exact .pure _
  · exact .ite (fun _ => .pure _) fun _ => .bind (silent_recordBlocks _ _ _ _) fun r => .pure _

theorem firstWrite_room {env : Env} {info : Info} {maxWrite : ℕ}
    (h : firstWrite env info = some maxWrite) :
    unit info.access ∣ maxWrite ∧ 0 < maxWrite := by
  have hbytes : info.access = false → unit info.access ∣ maxWrite := fun ha => by
    rw [ha]
    exact Nat.one_dvd _
  have hwords : ∀ n, info.access = true → unit info.access ∣ n / 2 * 2 := fun n ha => by
    rw [ha]
    exact Nat.dvd_mul_left _ _
  unfold firstWrite at h
  dsimp only at h
  by_cases hnone : info.maxWrite = 0 ∧ env.maxRequest ≤ 3
  · rw [if_pos hnone] at h
    cases h
  rw [if_neg hnone] at h
  generalize (if info.maxWrite ≠ 0 then info.maxWrite else min (env.maxRequest - 3) 255) = size at h
  by_cases haccess : info.access = true
  · rw [if_pos haccess] at h
    split_ifs at h with hzero
    obtain rfl := Option.some.inj h
    exact ⟨hwords _ haccess, Nat.pos_of_ne_zero hzero⟩
  · rw [if_neg haccess] at h
    split_ifs at h with hzero
    obtain rfl := Option.some.inj h
    exact ⟨hbytes (by simpa using haccess), Nat.pos_of_ne_zero hzero⟩

/-- **`writeArea`** refuses without a write, or runs the loop behind its guards. -/
theorem writeArea_runs {env : Env} {info info' : Info} (hsize : info.size < 65536)
    {offset length : ℕ} {ok : Bool}
    {w w' : CmdWorld Unit β}
    (h : writeArea B env id info offset source length w = .ok ((ok, info'), w')) :
    ok = false ∧ silent.rel w w' ∨ ∃ b maxWrite t, buildBlocks B env id info w = .ok (b, t) ∧
      silent.rel w t ∧
      Guarded info.access offset (offset + length) maxWrite ∧
      writeLoop B id b.2 source offset (offset + length) (offset + length - offset + maxWrite + 1)
        { b.1 with maxWrite } offset t =
        .ok ((ok, info'), w') ∧ firstWrite env b.1 = some maxWrite := by
  rw [writeArea] at h
  by_cases hrange : info.size < offset ∨ info.size - offset < length
  · rw [if_pos hrange] at h
    obtain ⟨hout, rfl⟩ := pure_ok.mp h
    exact .inl ⟨(Prod.mk.inj hout).1.symm, silent.refl _⟩
  rw [if_neg hrange] at h
  by_cases hodd : info.access = true ∧ (offset % 2 = 1 ∨ length % 2 = 1)
  · rw [if_pos hodd] at h
    obtain ⟨hout, rfl⟩ := pure_ok.mp h
    exact .inl ⟨(Prod.mk.inj hout).1.symm, silent.refl _⟩
  rw [if_neg hodd] at h
  obtain ⟨b, t, hblocks, h⟩ := bind_ok.mp h
  have hsilent := (silent_buildBlocks info).rel hblocks
  have haccess := buildBlocks_access info w b t hblocks
  rcases hfirst : firstWrite env b.1 with _ | maxWrite
  · rw [hfirst] at h
    obtain ⟨hout, rfl⟩ := pure_ok.mp h
    exact .inl ⟨(Prod.mk.inj hout).1.symm, hsilent⟩
  · rw [hfirst] at h
    obtain ⟨hroom, hpos⟩ := firstWrite_room hfirst
    rw [haccess] at hroom
    refine .inr ⟨b, maxWrite, t, hblocks, hsilent,
      ⟨Nat.le_add_right _ _, by omega, ?_, hroom, hpos⟩, ?_, hfirst⟩
    · cases ha : info.access with
      | false => exact ⟨Nat.one_dvd _, Nat.one_dvd _⟩
      | true =>
        have hnot : ¬ (offset % 2 = 1 ∨ length % 2 = 1) := fun hc => hodd ⟨ha, hc⟩
        show 2 ∣ offset ∧ 2 ∣ offset + length
        omega
    · rw [Nat.add_sub_cancel_left]
      exact h

end

/-- **Writes are right**: for every list of blocks exactly if the loop cannot jump to an odd place
of a device with words; the loop ends for all answers; and `writeArea` refuses or runs this loop. -/
theorem writes_right_iff (id : UInt8) :
    (∀ {access : Bool} {base finish maxWrite : ℕ}, Guarded access base finish maxWrite →
      ∀ blocks, Correct id blocks base finish access maxWrite ↔ Aligned blocks base finish access) ∧
    (∀ {β : Type} (B : Bmc β) blocks source base finish more fuel info off, finish - off +
      info.maxWrite < fuel →
      writeLoop B id blocks source base finish (fuel + more) info off =
        writeLoop B id blocks source base finish fuel info off) ∧
    ∀ {β : Type} (B : Bmc β) env info source offset length ok info' (w w' : CmdWorld Unit β),
      info.size < 65536 →
      writeArea B env id info offset source length w = .ok ((ok, info'), w') →
      ok = false ∧ silent.rel w w' ∨ ∃ b maxWrite t, buildBlocks B env id info w = .ok (b, t) ∧
        silent.rel w t ∧
        Guarded info.access offset (offset + length) maxWrite ∧
        writeLoop B id b.2 source offset (offset + length) (offset + length - offset + maxWrite + 1)
          { b.1 with maxWrite }
          offset t = .ok ((ok, info'), w') := by
  refine ⟨fun hg blocks => correct_iff id hg blocks,
    fun B blocks source base finish more fuel info off h =>
    writeLoop_ends B id blocks source base finish more fuel info off h, ?_⟩
  intro β B env info source offset length ok info' w w' hsize h
  rcases writeArea_runs hsize h with hrefused | ⟨b, maxWrite, t, hblocks, hsilent, hguard, hloop, -⟩
  · exact .inl hrefused
  · exact .inr ⟨b, maxWrite, t, hblocks, hsilent, hguard, hloop⟩

/-- A device with words. Its only record ends at the odd place 15 and is protected. -/
def wordDevice : Bmc Unit := fun _ c =>
  (some (if c.cmd = 0x11 then
      if c.data = [0, 0, 0, 8] then Reply.of [8, 1, 0, 0, 0, 0, 1, 0, 0xfe]
      else if c.data.getD 1 0 = 4 then Reply.of [2, 0xc0, 0x82, 2, 0] else Reply.of [0]
    else if c.data.getD 1 0 = 4 then { ccode := 0x80 } else Reply.of []), ())

/-- The bytes from 15 on are written at 14. -/
theorem written_too_low : ∃ info' w', writeArea wordDevice ⟨34, 34⟩ 0 ⟨32, true, 0,
    0⟩ 0 (fun i => UInt8.ofNat i) 32
      ⟨(), (), []⟩ = .ok ((false, info'), w') ∧
    ∃ x ∈ w'.log, isWrite x = true ∧ address true x = 14 ∧
      payload x = Mem.read (fun i => UInt8.ofNat i) 15 16 ∧
      ¬ Right [⟨0, 8⟩, ⟨8, 15⟩, ⟨15, 32⟩] (fun i => UInt8.ofNat i) 0 32 true x := by
  obtain ⟨⟨ok, info'⟩, w', h, hp⟩ :=
    exists_of_returns (x := writeArea wordDevice ⟨34, 34⟩ 0 ⟨32, true, 0, 0⟩ 0
      (fun i => UInt8.ofNat i) 32) (s := ⟨(), (), []⟩) (p := fun r w' => r.1 = false &&
        w'.log.any fun x => isWrite x && address true x = 14 && payload x =
          Mem.read (fun i => UInt8.ofNat i) 15 16)
      (by decide +kernel)
  simp only [Bool.and_eq_true, decide_eq_true_eq] at hp
  obtain ⟨rfl, hany⟩ := hp
  obtain ⟨x, hx, hq⟩ := List.any_eq_true.mp hany
  simp only [Bool.and_eq_true, decide_eq_true_eq] at hq
  obtain ⟨⟨hwrite, haddress⟩, hpayload⟩ := hq
  refine ⟨info', w', h, x, hx, hwrite, haddress, hpayload, fun hright => ?_⟩
  have hbytes := hright.bytes
  rw [haddress, hpayload, length_read] at hbytes
  exact absurd hbytes (by decide +kernel)

/-- On a device with bytes all writes are right. -/
theorem writes_right_iff_bytes : Correct 0 [⟨0, 8⟩, ⟨8, 15⟩, ⟨15, 32⟩] 0 32 false 30 :=
  ((writes_right_iff 0).1 ⟨by decide, by decide, ⟨Nat.one_dvd _,
    Nat.one_dvd _⟩, Nat.one_dvd _, by decide⟩ _).mpr
    fun h => absurd h (by decide)

end Ipmitool.Fru.Writes
