import Mathlib.Data.List.Nodup
import Ipmitool.Firewall.Commands

/-! # What discovery finds

The bits of the masks (`bitTest_enables` is the spec of `setCommandEnables`), what the checks of the
arguments promise, and what is known after `gatherInfo` of a BMC that answers every question with
the masks it reports. -/

namespace Ipmitool.Firewall.Discovery

open Ipmitool.Lib.Mem Ipmitool.Lib.Machine Ipmitool.Lib.Dialogue Ipmitool.Core.Types
  Ipmitool.Core.Interface
open Ipmitool.Firewall.Commands

/-! ### Bits -/

/-- The bit of a byte. -/
def bit (b : UInt8) (k : ℕ) : Bool := b.toBitVec.getLsbD k

theorem bit_of_mask : ∀ b : Fin 256, ∀ k : Fin 8,
    decide (UInt8.ofNat b.val &&& 1 <<< UInt8.ofNat k.val ≠ 0) = bit (UInt8.ofNat b.val) k := by
  decide +kernel

theorem bit_mask : ∀ i k : Fin 8, bit (1 <<< UInt8.ofNat i.val) k = decide (k = i) := by
  decide +kernel

theorem bitTest_eq (bf : Memory UInt8) (i : ℕ) : bitTest bf i = bit (bf (i / 8)) (i % 8) := by
  have hbyte : UInt8.ofNat (bf (i / 8)).toNat = bf (i / 8) := UInt8.ofNat_toNat
  have h := bit_of_mask ⟨(bf (i / 8)).toNat, (bf (i / 8)).toNat_lt⟩ ⟨i % 8,
    Nat.mod_lt _ (by decide)⟩
  rw [hbyte] at h
  exact h

@[simp] theorem bit_and (a b : UInt8) (k : ℕ) : bit (a &&& b) k = (bit a k && bit b k) := by
  simp [bit]

@[simp] theorem bit_or (a b : UInt8) (k : ℕ) : bit (a ||| b) k = (bit a k || bit b k) := by
  simp [bit]

theorem bit_not (a : UInt8) {k : ℕ} (hk : k < 8) : bit (~~~a) k = !bit a k := by
  simp [bit, hk]

theorem bitTest_bitSet (bf : Memory UInt8) (i j : ℕ) (value : Bool) :
    bitTest (bitSet bf i value) j = if j = i then value else bitTest bf j := by
  have hi : i % 8 < 8 := Nat.mod_lt _ (by decide)
  have hj : j % 8 < 8 := Nat.mod_lt _ (by decide)
  have hmask : bit (bitMask i) (j % 8) = decide (j % 8 = i % 8) := by
    have := bit_mask ⟨i % 8, hi⟩ ⟨j % 8, hj⟩
    simpa [bitMask] using this
  rw [bitTest_eq, bitTest_eq]
  unfold bitSet
  by_cases hbyte : j / 8 = i / 8
  · rw [hbyte, Function.update_self]
    have hji : j = i ↔ j % 8 = i % 8 := by omega
    by_cases h : j % 8 = i % 8
    · have hm : bit (bitMask i) (j % 8) = true := hmask.trans (decide_eq_true h)
      rw [if_pos (hji.mpr h)]
      cases value <;> simp [hm, bit_not _ hj]
    · have hm : bit (bitMask i) (j % 8) = false := hmask.trans (decide_eq_false h)
      rw [if_neg (mt hji.mp h)]
      cases value <;> simp [hm, bit_not _ hj]
  · have hji : j ≠ i := fun h => hbyte (by rw [h])
    rw [Function.update_of_ne hbyte, if_neg hji]

theorem bitTest_splat (value : Bool) (j : ℕ) : bitTest (splat value) j = value := by
  have hj : j % 8 < 8 := Nat.mod_lt _ (by decide)
  have hones : ∀ k : Fin 8, bit 0xff k = true := by decide
  rw [bitTest_eq]
  cases value with
  | true => exact hones ⟨j % 8, hj⟩
  | false => simp [bit, splat]

theorem bitTest_merge (config enable mask : Memory UInt8) (j : ℕ) :
    bitTest (merge config enable mask) j = if bitTest config j then bitTest mask j
      else bitTest enable j := by
  have hj : j % 8 < 8 := Nat.mod_lt _ (by decide)
  rw [bitTest_eq, bitTest_eq, bitTest_eq, bitTest_eq, merge, bit_or, bit_and, bit_and, bit_not _ hj]
  cases bit (config (j / 8)) (j % 8) <;> simp

/-- Without force the bits of all configurable commands from 60h to 67h are cleared; else those of
the configurable commands are as in the mask. The bits of the others do not change. -/
theorem bitTest_enables (pair : Pair) (mask : Memory UInt8) (gun : Bool) (j : ℕ) :
    bitTest (pair.enables mask gun) j =
      if bitTest pair.configMask j then (bitTest mask j && (gun || decide (j / 8 ≠ 12)))
      else bitTest pair.enableMask j := by
  have hj : j % 8 < 8 := Nat.mod_lt _ (by decide)
  unfold Pair.enables
  cases gun with
  | true => rw [if_pos rfl, bitTest_merge, Bool.true_or, Bool.and_true]
  | false =>
    rw [if_neg Bool.false_ne_true]
    by_cases hbyte : j / 8 = setCommandEnableByte
    · have hzero : ∀ k : Fin 8, bit setCommandEnableBit k = false := by decide
      have hz : bit setCommandEnableBit (j % 8) = false := hzero ⟨j % 8, hj⟩
      have h12 : j / 8 = 12 := hbyte
      rw [bitTest_eq, bitTest_eq pair.configMask, bitTest_eq pair.enableMask, h12,
        show setCommandEnableByte = 12 from rfl, Function.update_self, bit_or, bit_and, bit_and,
            bit_not _ hj, hz]
      cases bit (pair.configMask 12) (j % 8) <;> simp
    · have h12 : j / 8 ≠ 12 := hbyte
      rw [bitTest_eq, Function.update_of_ne hbyte, ← bitTest_eq, bitTest_merge]
      simp [h12]

/-- A bit depends on its byte. -/
theorem bitTest_congr {bf bf' : Memory UInt8} {j : ℕ} (h : bf (j / 8) = bf' (j / 8)) :
    bitTest bf j = bitTest bf' j := by
  rw [bitTest_eq, bitTest_eq, h]

/-! ### Arguments -/

variable {H : Helpers}

theorem parseArgs_inRange {argv : List String} {p : Params} (h : parseArgs H argv = some p) :
    InRange p := by
  obtain ⟨q, -, hq⟩ := Option.bind_eq_some_iff.mp h
  split_ifs at hq
  cases hq
  constructor <;> omega

/-! ### What the BMC reports -/

/-- The answers of a BMC to discovery: the two bits of every LUN, the bits of the pairs, the masks
of the pair `n` of a LUN, and those of its commands. -/
structure Reports where
  luns : UInt8 := 0
  netfns : Memory UInt8 := fun _ => 0
  mask : MaskKind → ℕ → ℕ → Memory UInt8 := fun _ _ _ _ => 0
  subfn : MaskKind → ℕ → ℕ → ℕ → Memory UInt8 := fun _ _ _ _ _ => 0

def Reports.lun (R : Reports) (l : ℕ) : UInt8 := (R.luns >>> UInt8.ofNat (2 * l)) &&& 3

/-- The LUN and the pair are supported. -/
def Reports.Supported (R : Reports) (l n : ℕ) : Prop :=
  R.lun l ≠ 0 ∧ bitTest R.netfns (l * 32 + n) = true

def Reports.configurable (R : Reports) (l n c : ℕ) : Bool := bitTest (R.mask .config l n) c

def Reports.enabled (R : Reports) (l n c : ℕ) : Bool := bitTest (R.mask .enable l n) c

def Reports.configurableSubfn (R : Reports) (l n c s : ℕ) : Bool :=
  bitTest (R.subfn .config l n c) s

def Reports.enabledSubfn (R : Reports) (l n c s : ℕ) : Bool := bitTest (R.subfn .enable l n c) s

theorem netfnByte_toNat {netfn : ℤ} (h0 : 0 ≤ netfn) (h64 : netfn < 64) {op : ℕ} (hop : op < 2) :
    (netfnByte netfn op).toNat = netfn.toNat + 64 * op := by
  have hall : ∀ n : Fin 64, ∀ op : Fin 2, (netfnByte (n.val : ℤ) op.val).toNat =
      n.val + 64 * op.val := by
    decide +kernel
  have h := hall ⟨netfn.toNat, by omega⟩ ⟨op, hop⟩
  rwa [show ((netfn.toNat : ℕ) : ℤ) = netfn by omega] at h

theorem ofInt_toNat {x : ℤ} (h0 : 0 ≤ x) (h256 : x < 256) : (UInt8.ofInt x).toNat = x.toNat := by
  have hall : ∀ n : Fin 256, (UInt8.ofInt (n.val : ℤ)).toNat = n.val := by decide +kernel
  have h := hall ⟨x.toNat, by omega⟩
  rwa [show ((x.toNat : ℕ) : ℤ) = x by omega] at h

/-- A good answer. -/
def Good (P : Memory UInt8 → Prop) (a : Option Reply) : Prop :=
  ∃ rsp, a = some rsp ∧ rsp.ccode = 0 ∧ P rsp.data

/-- Parameters for which masks are asked. -/
structure Asking (channel : UInt8) (p : Params) : Prop where
  channel : p.channel = channel
  lun : 0 ≤ p.lun ∧ p.lun < 4
  netfn : 0 ≤ p.netfn ∧ p.netfn < 64

/-- A BMC that answers all of discovery with `R`, in every state. -/
structure Answers {β : Type} (B : Bmc β) (channel : UInt8) (R : Reports) : Prop where
  netfnSupport : ∀ b, Good (fun data => data 0 = R.luns ∧ ∀ i < 16, data (1 + i) = R.netfns i)
    (B b (getNetfnSupportRequest channel)).1
  mask : ∀ b kind p, Asking channel p → ∀ op < 2,
    Good (fun data => ∀ i < 16, data i = R.mask kind p.lun.toNat (p.netfn.toNat / 2) (16 * op + i))
      (B b (getCommandMaskRequest kind p op)).1
  subfn : ∀ b kind p, Asking channel p → 0 ≤ p.command → p.command < 256 →
    Good (fun data => ∀ i < 4, data i =
      R.subfn kind p.lun.toNat (p.netfn.toNat / 2) p.command.toNat i)
      (B b (getSubfnMaskRequest kind p)).1

/-- The bytes of the answer to a request of discovery. -/
def Reports.bytes (R : Reports) (c : Command) : Memory UInt8 :=
  let netfn := (c.data.getD 1 0).toNat
  let lun := (c.data.getD 2 0).toNat
  let command := (c.data.getD 3 0).toNat
  if c.cmd = 0x09 then fun i => if i = 0 then R.luns else R.netfns (i - 1)
  else if c.cmd = 0x0a then fun i => R.mask .support lun (netfn % 64 / 2) (16 * (netfn / 64) + i)
  else if c.cmd = 0x0c then fun i => R.mask .config lun (netfn % 64 / 2) (16 * (netfn / 64) + i)
  else if c.cmd = 0x61 then fun i => R.mask .enable lun (netfn % 64 / 2) (16 * (netfn / 64) + i)
  else if c.cmd = 0x0b then R.subfn .support lun (netfn % 64 / 2) command
  else if c.cmd = 0x0d then R.subfn .config lun (netfn % 64 / 2) command
  else R.subfn .enable lun (netfn % 64 / 2) command

/-- A BMC that reports `R` and accepts everything. -/
def reporting (R : Reports) : Bmc Unit := fun b c => (some { data := R.bytes c, dataLen := 17 }, b)

theorem answers_reporting (channel : UInt8) (R : Reports) : Answers (reporting R) channel R := by
  refine ⟨fun b => ⟨_, rfl, rfl, rfl, fun i _ => ?_⟩,
    fun b kind p hp op hop => ⟨_, rfl, rfl, fun i _ => ?_⟩,
    fun b kind p hp h0 h256 => ⟨_, rfl, rfl, fun i _ => ?_⟩⟩
  · change (if 1 + i = 0 then R.luns else R.netfns (1 + i - 1)) = R.netfns i
    rw [if_neg (by omega), Nat.add_sub_cancel_left]
  · have hnetfn := netfnByte_toNat hp.netfn.1 hp.netfn.2 hop
    have hlun := ofInt_toNat hp.lun.1 (by have := hp.lun.2; omega)
    have hlt := hp.netfn.2
    have hpair : (netfnByte p.netfn op).toNat % 64 / 2 = p.netfn.toNat / 2 := by omega
    have hhalf : (netfnByte p.netfn op).toNat / 64 = op := by omega
    have hbytes : (R.bytes (getCommandMaskRequest kind p op)) i =
        R.mask kind (UInt8.ofInt p.lun).toNat ((netfnByte p.netfn op).toNat % 64 / 2)
          (16 * ((netfnByte p.netfn op).toNat / 64) + i) := by
      cases kind <;> rfl
    rw [hpair, hhalf, hlun] at hbytes
    exact hbytes
  · have hnetfn := netfnByte_toNat hp.netfn.1 hp.netfn.2 (show 0 < 2 by decide)
    have hlun := ofInt_toNat hp.lun.1 (by have := hp.lun.2; omega)
    have hcommand := ofInt_toNat h0 h256
    have hlt := hp.netfn.2
    have hpair : (netfnByte p.netfn 0).toNat % 64 / 2 = p.netfn.toNat / 2 := by omega
    have hbytes : (R.bytes (getSubfnMaskRequest kind p)) i =
        R.subfn kind (UInt8.ofInt p.lun).toNat ((netfnByte p.netfn 0).toNat % 64 / 2)
          (UInt8.ofInt p.command).toNat
          i := by
      cases kind <;> rfl
    rw [hpair, hlun, hcommand] at hbytes
    exact hbytes

section Discovery
variable {γ β : Type} {B : Bmc β} {channel : UInt8} {R : Reports} {p : Params} {w : CmdWorld γ β}

theorem query_good {c : Command} {P : Memory UInt8 → Prop} (h : Good P (B w.device c).1) : ∃ rsp,
    (query B c : Cmd γ β _) w = .ok (some rsp, w.asked B c) ∧ P rsp.data := by
  obtain ⟨rsp, hrsp, hcc, hP⟩ := h
  refine ⟨rsp, bind_ok.mpr ⟨some rsp, w.asked B c, ask_ok.mpr ⟨hrsp, rfl⟩, ?_⟩, hP⟩
  dsimp only
  rw [if_neg (not_not.mpr hcc)]
  rfl

theorem storeHalf_both (mask d0 d1 : Memory UInt8) {i : ℕ} (hi : i < 32) :
    storeHalf (storeHalf mask 0 d0) 1 d1 i = if i < 16 then d0 i else d1 (i - 16) := by
  unfold storeHalf
  split_ifs with h
  · have h0 := write_inside mask (16 * 0) (read d0 0 16) (i := i) (by simpa using h)
    rw [write_below _ _ (by omega), show i = 16 * 0 + i by omega, h0, getElem_read]
  · obtain ⟨k, rfl⟩ := Nat.exists_eq_add_of_le (Nat.le_of_not_lt h)
    have h1 := write_inside (write mask (16 * 0) (read d0 0 16)) (16 * 1) (read d1 0 16) (i := k)
      (by rw [length_read]; omega)
    rw [show 16 + k = 16 * 1 + k by omega, h1, getElem_read]
    congr 1
    omega

@[simp] theorem storeMask_self (pair : Pair) (kind : MaskKind) (op : ℕ) (data : Memory UInt8) :
    (pair.storeMask kind op data).mask kind = storeHalf (pair.mask kind) op data := by
  cases kind <;> rfl

theorem storeMask_other (pair : Pair) {kind kind' : MaskKind} (h : kind' ≠ kind) (op : ℕ)
    (data : Memory UInt8) :
    (pair.storeMask kind op data).mask kind' = pair.mask kind' := by
  cases kind <;> cases kind' <;> first | rfl | exact absurd rfl h

@[simp] theorem storeMask_command (pair : Pair) (kind : MaskKind) (op : ℕ) (data : Memory UInt8) :
    (pair.storeMask kind op data).command = pair.command := by
  cases kind <;> rfl

@[simp] theorem storeMask_support (pair : Pair) (kind : MaskKind) (op : ℕ) (data : Memory UInt8) :
    (pair.storeMask kind op data).support = pair.support := by
  cases kind <;> rfl

/-- Both halves of a mask are answered. -/
theorem getCommandMask_answers (hB : Answers B channel R) (hp : Asking channel p) (kind : MaskKind)
    (pair : Pair) (w : CmdWorld γ β) : ∃ pair' w', getCommandMask B kind p pair w =
      .ok ((true, pair'), w') ∧
      (∀ i < 32, pair'.mask kind i = R.mask kind p.lun.toNat (p.netfn.toNat / 2) i) ∧
      (∀ kind' ≠ kind, pair'.mask kind' = pair.mask kind') ∧
      pair'.command = pair.command ∧ pair'.support = pair.support := by
  obtain ⟨r0, h0, hd0⟩ := query_good (w := w) (hB.mask w.device kind p hp 0 (by decide))
  obtain ⟨r1, h1, hd1⟩ := query_good (w := w.asked B (getCommandMaskRequest kind p 0))
    (hB.mask _ kind p hp 1 (by decide))
  refine ⟨(pair.storeMask kind 0 r0.data).storeMask kind 1 r1.data, _,
    bind_ok.mpr ⟨_, _, h0, bind_ok.mpr ⟨_, _, h1, rfl⟩⟩, fun i hi => ?_, fun kind' h =>
    ?_, by simp, by simp⟩
  · rw [storeMask_self, storeMask_self, storeHalf_both _ _ _ hi]
    split_ifs with h
    · rw [hd0 i h, Nat.mul_zero, Nat.zero_add]
    · rw [hd1 (i - 16) (by omega), show 16 * 1 + (i - 16) = i by omega]
  · rw [storeMask_other _ h, storeMask_other _ h]

/-- The masks of the pair are the reported ones. -/
def Known (R : Reports) (l n : ℕ) (pair : Pair) : Prop :=
  ∀ kind, ∀ i < 32, pair.mask kind i = R.mask kind l n i

theorem getCommandMasks_answers (hB : Answers B channel R) (hp : Asking channel p) (pair : Pair)
    (w : CmdWorld γ β) : ∃ pair' w', getCommandMasks B p pair w = .ok ((true, pair'), w') ∧
      Known R p.lun.toNat (p.netfn.toNat / 2) pair' ∧ pair'.command = pair.command ∧
      pair'.support = pair.support := by
  obtain ⟨pair1, w1, h1, hs1, -, hc1, hsup1⟩ := getCommandMask_answers hB hp .support pair w
  obtain ⟨pair2, w2, h2, hs2, ho2, hc2, hsup2⟩ := getCommandMask_answers hB hp .config pair1 w1
  obtain ⟨pair3, w3, h3, hs3, ho3, hc3, hsup3⟩ := getCommandMask_answers hB hp .enable pair2 w2
  refine ⟨pair3, w3, bind_ok.mpr ⟨_, _, h1, bind_ok.mpr ⟨_, _, h2, bind_ok.mpr ⟨_, _, h3, rfl⟩⟩⟩,
    ?_, hc3.trans (hc2.trans hc1), hsup3.trans (hsup2.trans hsup1)⟩
  intro kind i hi
  cases kind with
  | support => rw [ho3 .support (by decide), ho2 .support (by decide), hs1 i hi]
  | config => rw [ho3 .config (by decide), hs2 i hi]
  | enable => exact hs3 i hi

/-! ### The masks of a command -/

theorem getSubfnMask_answers (hB : Answers B channel R) (hp : Asking channel p) (hc : 0 ≤ p.command)
    (hc' : p.command < 256) (kind : MaskKind) (cmd : CommandInfo) (w : CmdWorld γ β) : ∃ cmd' w',
      getSubfnMask B kind p cmd w = .ok ((true, cmd'), w') ∧
      (∀ i < 4, cmd'.mask kind i = R.subfn kind p.lun.toNat (p.netfn.toNat / 2) p.command.toNat i) ∧
      ∀ kind' ≠ kind, cmd'.mask kind' = cmd.mask kind' := by
  obtain ⟨rsp, h, hd⟩ := query_good (w := w) (hB.subfn w.device kind p hp hc hc')
  have hself : (cmd.storeMask kind rsp.data).mask kind =
      write (cmd.mask kind) 0 (read rsp.data 0 4) := by
    cases kind <;> rfl
  refine ⟨cmd.storeMask kind rsp.data, _, bind_ok.mpr ⟨_, _, h, rfl⟩, fun i hi => ?_,
    fun kind' hne => ?_⟩
  · have hw := write_inside (cmd.mask kind) 0 (read rsp.data 0 4) (i := i) (by simpa using hi)
    rw [Nat.zero_add, getElem_read, Nat.zero_add] at hw
    rw [hself, hw, hd i hi]
  · cases kind <;> cases kind' <;> first | rfl | exact absurd rfl hne

def KnownSubfn (R : Reports) (l n c : ℕ) (cmd : CommandInfo) : Prop :=
  ∀ kind, ∀ i < 4, cmd.mask kind i = R.subfn kind l n c i

theorem getSubfnMasks_answers (hB : Answers B channel R) (hp : Asking channel p)
    (hc : 0 ≤ p.command) (hc' : p.command < 256) (cmd : CommandInfo) (w : CmdWorld γ β) : ∃ cmd' w',
      getSubfnMasks B p cmd w = .ok ((true, cmd'), w') ∧
      KnownSubfn R p.lun.toNat (p.netfn.toNat / 2) p.command.toNat cmd' := by
  obtain ⟨cmd1, w1, h1, hs1, -⟩ := getSubfnMask_answers hB hp hc hc' .support cmd w
  obtain ⟨cmd2, w2, h2, hs2, ho2⟩ := getSubfnMask_answers hB hp hc hc' .config cmd1 w1
  obtain ⟨cmd3, w3, h3, hs3, ho3⟩ := getSubfnMask_answers hB hp hc hc' .enable cmd2 w2
  refine ⟨cmd3, w3, bind_ok.mpr ⟨_, _, h1, bind_ok.mpr ⟨_, _, h2, bind_ok.mpr ⟨_, _, h3, rfl⟩⟩⟩, ?_⟩
  intro kind i hi
  cases kind with
  | support => rw [ho3 .support (by decide), ho2 .support (by decide), hs1 i hi]
  | config => rw [ho3 .config (by decide), hs2 i hi]
  | enable => exact hs3 i hi

/-! ### All of it -/

/-- Nothing is known. -/
def Blank (pair : Pair) : Prop := ∀ kind i, pair.mask kind i = 0

def BlankSubfn (cmd : CommandInfo) : Prop := ∀ kind i, cmd.mask kind i = 0

/-- The masks of the pair are asked for. -/
def Gathered (R : Reports) (p : Params) (l n : ℕ) : Prop :=
  R.Supported l n ∧ (0 ≤ p.lun → p.lun.toNat = l) ∧ (0 ≤ p.netfn → p.netfn.toNat / 2 = n)

/-- So are those of the command. -/
def GatheredSubfn (R : Reports) (p : Params) (l n c : ℕ) : Prop :=
  Gathered R p l n ∧ 0 ≤ p.command ∧ p.command.toNat = c

/-- What was asked for is known, and nothing else. -/
structure Finds (R : Reports) (p : Params) (bmc : BmcInfo) : Prop where
  known : ∀ l < 4, ∀ n < 32, Gathered R p l n → Known R l n (bmc.pair l n)
  blank : ∀ l < 4, ∀ n < 32, ¬ Gathered R p l n → Blank (bmc.pair l n)
  knownSubfn : ∀ l < 4, ∀ n < 32, ∀ c, GatheredSubfn R p l n c →
    KnownSubfn R l n c ((bmc.pair l n).command c)
  blankSubfn : ∀ l < 4, ∀ n < 32, ∀ c, ¬ GatheredSubfn R p l n c → BlankSubfn ((bmc.pair l n).command c)

theorem pair_setPair (bmc : BmcInfo) (l n l' n' : ℕ) (pair : Pair) :
    (bmc.setPair l n pair).pair l' n' = if l' = l ∧ n' = n then pair else bmc.pair l' n' := by
  change ((Function.update bmc.lun l { bmc.lun l with netfn := Function.update (bmc.lun l).netfn n pair }) l').netfn n' =
    if l' = l ∧ n' = n then pair else (bmc.lun l').netfn n'
  by_cases hl : l' = l
  · rw [hl, Function.update_self]
    change Function.update (bmc.lun l).netfn n pair n' = _
    by_cases hn : n' = n
    · rw [if_pos ⟨rfl, hn⟩, hn, Function.update_self]
    · rw [if_neg fun h => hn h.2, Function.update_of_ne hn]
  · rw [if_neg fun h => hl h.1, Function.update_of_ne hl]

theorem support_setPair (bmc : BmcInfo) (l n l' : ℕ) (pair : Pair) :
    ((bmc.setPair l n pair).lun l').support = (bmc.lun l').support := by
  change ((Function.update bmc.lun l { bmc.lun l with netfn := Function.update (bmc.lun l).netfn n pair }) l').support =
    (bmc.lun l').support
  by_cases hl : l' = l
  · rw [hl, Function.update_self]
  · rw [Function.update_of_ne hl]

/-- The LUN is one that the arguments allow. -/
def Params.Allows (p : Params) (l : ℕ) : Prop := 0 ≤ p.lun → p.lun.toNat = l

/-- Get NetFn Support was answered, and the masks of the pairs in `done` were asked for if they are
supported. -/
structure Progress (R : Reports) (p : Params) (done : ℕ → ℕ → Prop) (bmc : BmcInfo) : Prop where
  lun : ∀ l < 4, Params.Allows p l → (bmc.lun l).support = R.lun l
  support : ∀ l < 4, ∀ n < 32, Params.Allows p l → ¬ done l n →
    ((R.lun l ≠ 0 ∧ (bmc.pair l n).support = true) ↔ R.Supported l n)
  known : ∀ l n, done l n → R.Supported l n → Known R l n (bmc.pair l n)
  blank : ∀ l n, ¬ (done l n ∧ R.Supported l n) → Blank (bmc.pair l n)
  blankSubfn : ∀ l n c, BlankSubfn ((bmc.pair l n).command c)

theorem noteLuns_pair (p : Params) (luns : ℕ → UInt8) (netfns : Memory UInt8) (l n : ℕ) :
    ∃ s, (noteLuns p luns netfns {}).pair l n = { support := s } := by
  unfold noteLuns noteLun BmcInfo.pair
  dsimp only
  by_cases hl : l < 4
  · rw [if_pos hl]
    by_cases ha : p.lun ≥ 0 ∧ p.lun ≠ l
    · rw [if_pos ha]
      exact ⟨false, rfl⟩
    · rw [if_neg ha]
      dsimp only
      by_cases h : luns l ≠ 0 ∧ n < 32
      · exact ⟨_, if_pos h⟩
      · exact ⟨_, if_neg h⟩
  · rw [if_neg hl]
    exact ⟨false, rfl⟩

theorem noteLuns_progress {netfns : Memory UInt8} (hnetfns : ∀ i < 16, netfns i = R.netfns i)
    (p : Params) :
    Progress R p (fun _ _ => False) (noteLuns p R.lun netfns {}) := by
  have hhere : ∀ l : ℕ, Params.Allows p l → ¬ (p.lun ≥ 0 ∧ p.lun ≠ l) := by
    rintro l h ⟨hge, hne⟩
    have := h hge
    omega
  refine ⟨fun l hl h => ?_, fun l hl n hn h _ => ?_, fun l n h => h.elim, fun l n _ kind i => ?_,
    fun l n c kind i => ?_⟩
  · unfold noteLuns noteLun
    dsimp only
    rw [if_pos hl, if_neg (hhere l h)]
  · have hbit : bitTest netfns (l * 32 + n) = bitTest R.netfns (l * 32 + n) :=
      bitTest_congr (hnetfns _ (by omega))
    unfold noteLuns noteLun BmcInfo.pair Reports.Supported
    dsimp only
    rw [if_pos hl, if_neg (hhere l h), ← hbit]
    refine and_congr_right fun hne => ?_
    dsimp only
    rw [if_pos ⟨hne, hn⟩]
  · obtain ⟨s, hs⟩ := noteLuns_pair p R.lun netfns l n
    rw [hs]
    cases kind <;> rfl
  · obtain ⟨s, hs⟩ := noteLuns_pair p R.lun netfns l n
    rw [hs]
    cases kind <;> rfl

/-- The masks of one more pair, if it is supported. -/
theorem Progress.store {done : ℕ → ℕ → Prop} {bmc : BmcInfo} (h : Progress R p done bmc) {l n : ℕ}
    {pair : Pair}
    (hsup : R.Supported l n) (hknown : Known R l n pair)
    (hcommand : pair.command = (bmc.pair l n).command) :
    Progress R p (fun l' n' => done l' n' ∨ (l' = l ∧ n' = n)) (bmc.setPair l n pair) := by
  refine ⟨fun l' hl' ha => ?_, fun l' hl' n' hn' ha hdone => ?_, fun l' n' hdone hs => ?_,
    fun l' n' hno => ?_,
    fun l' n' c => ?_⟩
  · rw [support_setPair]
    exact h.lun l' hl' ha
  · rw [pair_setPair, if_neg fun heq => hdone (.inr heq)]
    exact h.support l' hl' n' hn' ha fun hd => hdone (.inl hd)
  · rw [pair_setPair]
    split_ifs with heq
    · rw [heq.1, heq.2]
      exact hknown
    · exact h.known l' n' (hdone.resolve_right heq) hs
  · have heq : ¬ (l' = l ∧ n' = n) := by
      rintro ⟨rfl, rfl⟩
      exact hno ⟨.inr ⟨rfl, rfl⟩, hsup⟩
    rw [pair_setPair, if_neg heq]
    exact h.blank l' n' fun hd => hno ⟨.inl hd.1, hd.2⟩
  · rw [pair_setPair]
    split_ifs with heq
    · rw [hcommand]
      exact h.blankSubfn l n c
    · exact h.blankSubfn l' n' c

/-- Pairs that are not supported count as done. -/
theorem Progress.skip {done more : ℕ → ℕ → Prop} {bmc : BmcInfo} (h : Progress R p done bmc)
    (hmore : ∀ l n, more l n → ¬ R.Supported l n) :
    Progress R p (fun l n => done l n ∨ more l n) bmc := by
  refine ⟨h.lun, fun l hl n hn ha hdone => h.support l hl n hn ha fun hd => hdone (.inl hd),
    fun l n hdone hs => ?_,
    fun l n hno => ?_, h.blankSubfn⟩
  · exact h.known l n (hdone.resolve_right fun hm => hmore l n hm hs) hs
  · exact h.blank l n fun hd => hno ⟨.inl hd.1, hd.2⟩

theorem Progress.congr {done done' : ℕ → ℕ → Prop} {bmc : BmcInfo} (h : Progress R p done bmc)
    (heq : ∀ l n, done l n ↔ done' l n) : Progress R p done' bmc := by
  have : done = done' := funext fun l => funext fun n => propext (heq l n)
  exact this ▸ h

/-- One turn of the loop over the pairs of a LUN. -/
theorem gatherPair_progress (hB : Answers B channel R) (hch : p.channel = channel) {l n : ℕ}
    (hl : l < 4) (hn : n < 32) (ha : Params.Allows p l) (hlun : R.lun l ≠ 0) {done : ℕ → ℕ → Prop}
    (hdone : ¬ done l n) {bmc : BmcInfo} (h : Progress R p done bmc) (w : CmdWorld γ β) : ∃ bmc' w',
      gatherPair B p l (true, bmc) n w = .ok ((true, bmc'), w') ∧
      Progress R p (fun l' n' => done l' n' ∨ (l' = l ∧ n' = n)) bmc' := by
  have hsupport := h.support l hl n hn ha hdone
  unfold gatherPair
  by_cases hsup : (bmc.pair l n).support = true
  · have hs : R.Supported l n := hsupport.mp ⟨hlun, hsup⟩
    have hasking : Asking channel { p with lun := (l : ℤ), netfn := 2 * (n : ℤ) } :=
      ⟨hch, ⟨by dsimp only; omega, by dsimp only; omega⟩,
        ⟨by dsimp only; omega, by dsimp only; omega⟩⟩
    obtain ⟨pair, w1, h1, hknown, hcommand, -⟩ :=
      getCommandMasks_answers hB hasking (bmc.pair l n) w
    have hpair : (2 * (n : ℤ)).toNat / 2 = n := by omega
    have hlun' : ((l : ℤ)).toNat = l := Int.toNat_natCast l
    dsimp only at hknown
    rw [hpair, hlun'] at hknown
    refine ⟨bmc.setPair l n pair, w1, ?_, h.store hs hknown hcommand⟩
    refine bind_ok.mpr ⟨(true, bmc.setPair l n pair), w1, ?_, rfl⟩
    unfold askPair
    rw [if_pos hsup]
    exact bind_ok.mpr ⟨_, _, h1, rfl⟩
  · refine ⟨bmc, w, bind_ok.mpr ⟨(true, bmc), w, ?_, rfl⟩, h.skip fun l' n' heq hs => ?_⟩
    · unfold askPair
      rw [if_neg hsup]
      rfl
    · rw [heq.1, heq.2] at hs
      exact hsup (hsupport.mpr hs).2

/-- The loop over the pairs of a LUN. -/
theorem gatherLun_progress (hB : Answers B channel R) (hch : p.channel = channel) {l : ℕ}
    (hl : l < 4) (ha : Params.Allows p l) {done : ℕ → ℕ → Prop} (hdone : ∀ n, ¬ done l n)
    {bmc : BmcInfo}
    (h : Progress R p done bmc) (w : CmdWorld γ β) : ∃ bmc' w',
      gatherLun B p (true, bmc) l w = .ok ((true, bmc'), w') ∧
      Progress R p (fun l' n' => done l' n' ∨ (l' = l ∧ n' < 32)) bmc' := by
  have hsupport := h.lun l hl ha
  unfold gatherLun
  by_cases hlun : R.lun l = 0
  · refine ⟨bmc, w, ?_, h.skip fun l' n' heq hs => ?_⟩
    · dsimp only
      rw [hsupport, if_neg (not_not.mpr hlun)]
      rfl
    · rw [heq.1] at hs
      exact hs.1 hlun
  · dsimp only
    rw [hsupport, if_pos hlun]
    obtain ⟨⟨ok, bmc'⟩, w', hrun, rfl, hprogress⟩ := foldlM_range_ok (f := gatherPair B p l)
      (I := fun k s _ => s.1 = true ∧ Progress R p (fun l' n' => done l' n' ∨
        (l' = l ∧ n' < k)) s.2) (n := 32)
      (a := (true, bmc)) (s := w) (by
        rintro k hk ⟨ok, bmc1⟩ w1 ⟨rfl, h1⟩
        obtain ⟨bmc2, w2, h2, hp2⟩ := gatherPair_progress hB hch hl hk ha hlun
          (by rintro (hd | hd)
              · exact hdone k hd
              · exact Nat.lt_irrefl k hd.2) h1 w1
        refine ⟨(true, bmc2), w2, h2, rfl, hp2.congr fun l' n' => ?_⟩
        rw [or_assoc, ← and_or_left, Nat.lt_succ_iff_lt_or_eq])
      ⟨rfl, h.congr fun l' n' => by simp⟩
    exact ⟨bmc', w', hrun, hprogress⟩

/-- Without a NetFn all the masks of the LUNs are asked for. -/
theorem Progress.finds {bmc : BmcInfo}
    (h : Progress R p (fun l n => Params.Allows p l ∧ l < 4 ∧ n < 32) bmc) (hnetfn : p.netfn < 0)
    (hcommand : p.command < 0) : Finds R p bmc := by
  have hgathered : ∀ l n, Gathered R p l n ↔ R.Supported l n ∧ Params.Allows p l := by
    intro l n
    unfold Gathered Params.Allows
    constructor
    · exact fun hg => ⟨hg.1, hg.2.1⟩
    · exact fun hg => ⟨hg.1, hg.2, fun hge => by omega⟩
  refine ⟨fun l hl n hn hg => ?_, fun l hl n hn hg => ?_, fun l _ n _ c hg => ?_,
    fun l _ n _ c _ => h.blankSubfn l n c⟩
  · rw [hgathered] at hg
    exact h.known l n ⟨hg.2, hl, hn⟩ hg.1
  · rw [hgathered] at hg
    exact h.blank l n fun hd => hg ⟨hd.2, hd.1.1⟩
  · exact absurd hg.2.1 (by omega)

/-- The branch for a single pair. -/
theorem gatherOne_finds (hB : Answers B channel R) (hch : p.channel = channel) (hr : InRange p) (hnetfn : 0 ≤ p.netfn)
    {bmc : BmcInfo} (h : Progress R p (fun _ _ => False) bmc) (w : CmdWorld γ β) : ∃ bmc' w',
      gatherOne B p bmc w = .ok (bmc', w') ∧ Finds R p bmc' := by
  have hlun := hr.lun_of_netfn hnetfn
  have hlt := hr.lun
  have hlt' := hr.netfn
  obtain ⟨l, hl⟩ : ∃ l, l = p.lun.toNat := ⟨_, rfl⟩
  obtain ⟨n, hn⟩ : ∃ n, n = p.netfn.toNat / 2 := ⟨_, rfl⟩
  have ha : Params.Allows p l := fun _ => hl.symm
  have hsupport := h.support l (by omega) n (by omega) ha not_false
  have hsup := h.lun l (by omega) ha
  have hgathered : ∀ l' n', Gathered R p l' n' ↔ R.Supported l n ∧ l' = l ∧ n' = n := by
    intro l' n'
    unfold Gathered
    constructor
    · rintro ⟨hs, h1, h2⟩
      have h1 := h1 hlun
      have h2 := h2 hnetfn
      rw [← hl] at h1
      rw [← hn] at h2
      rw [h1, h2]
      exact ⟨hs, rfl, rfl⟩
    · rintro ⟨hs, rfl, rfl⟩
      exact ⟨hs, fun _ => hl.symm, fun _ => hn.symm⟩
  unfold gatherOne
  dsimp only
  rw [← hl, ← hn, hsup]
  by_cases hs : R.Supported l n
  · have hs' := hsupport.mpr hs
    have hgo : ¬ (R.lun l = 0 ∨ ¬ (bmc.pair l n).support = true) := by
      rw [not_or, not_not]
      exact hs'
    rw [if_neg hgo]
    have hasking : Asking channel p := ⟨hch, ⟨hlun, hlt⟩, ⟨hnetfn, hlt'⟩⟩
    obtain ⟨pair, w1, h1, hknown, hcommand, -⟩ := getCommandMasks_answers hB hasking (bmc.pair l n) w
    rw [← hl, ← hn] at hknown
    have hpair := h.store hs hknown hcommand
    by_cases hc : 0 ≤ p.command
    · obtain ⟨cmd, w2, h2, hcmd⟩ := getSubfnMasks_answers hB hasking hc hr.command
        (pair.command p.command.toNat) w1
      rw [← hl, ← hn] at hcmd
      refine ⟨bmc.setPair l n { pair with command := Function.update pair.command p.command.toNat cmd }, w2,
        bind_ok.mpr ⟨_, _, h1, ?_⟩, ?_⟩
      · dsimp only
        rw [if_pos ⟨rfl, hc⟩]
        exact bind_ok.mpr ⟨_, _, h2, rfl⟩
      · refine ⟨fun l' _ n' _ hg => ?_, fun l' _ n' _ hg => ?_, fun l' _ n' _ c hg => ?_,
          fun l' _ n' _ c hg => ?_⟩
        · obtain ⟨-, rfl, rfl⟩ := (hgathered l' n').mp hg
          rw [pair_setPair, if_pos ⟨rfl, rfl⟩]
          intro kind i hi
          rw [← hknown kind i hi]
          cases kind <;> rfl
        · rw [hgathered] at hg
          rw [pair_setPair, if_neg fun heq => hg ⟨hs, heq⟩]
          exact h.blank l' n' fun hd => hd.1
        · obtain ⟨hg, -, hcc⟩ := hg
          obtain ⟨-, rfl, rfl⟩ := (hgathered l' n').mp hg
          rw [pair_setPair, if_pos ⟨rfl, rfl⟩, ← hcc]
          dsimp only
          rw [Function.update_self]
          exact hcmd
        · rw [pair_setPair]
          split_ifs with heq
          · have hcc : c ≠ p.command.toNat := fun heq' =>
              hg ⟨(hgathered l' n').mpr ⟨hs, heq⟩, hc, heq'.symm⟩
            dsimp only
            rw [Function.update_of_ne hcc, hcommand]
            exact h.blankSubfn l n c
          · exact h.blankSubfn l' n' c
    · refine ⟨bmc.setPair l n pair, w1, bind_ok.mpr ⟨_, _, h1, ?_⟩, ?_⟩
      · dsimp only
        rw [if_neg fun hd => hc hd.2]
        rfl
      · refine ⟨fun l' _ n' _ hg => ?_, fun l' _ n' _ hg => ?_,
          fun l' _ n' _ c hg => absurd hg.2.1 hc,
          fun l' _ n' _ c _ => hpair.blankSubfn l' n' c⟩
        · obtain ⟨-, heq⟩ := (hgathered l' n').mp hg
          exact hpair.known l' n' (.inr heq) hg.1
        · rw [hgathered] at hg
          exact hpair.blank l' n' fun hd => hg ⟨hs, hd.1.resolve_left id⟩
  · have hgo : R.lun l = 0 ∨ ¬ (bmc.pair l n).support = true := by
      by_contra hd
      rw [not_or, not_not] at hd
      exact hs (hsupport.mp hd)
    rw [if_pos hgo]
    refine ⟨bmc, w, rfl, fun l' _ n' _ hg => absurd ((hgathered l' n').mp hg).1 hs,
      fun l' _ n' _ _ => h.blank l' n' fun hd => hd.1, fun l' _ n' _ c hg =>
      absurd ((hgathered l' n').mp hg.1).1 hs,
      fun l' _ n' _ c _ => h.blankSubfn l' n' c⟩

/-- What `gatherInfo` finds out about a BMC that answers. -/
theorem gatherInfo_finds (hB : Answers B channel R) (hch : p.channel = channel) (hr : InRange p)
    (w : CmdWorld γ β) :
    ∃ bmc w', gatherInfo B p {} w = .ok (bmc, w') ∧ Finds R p bmc := by
  obtain ⟨rsp, h0, hluns, hnetfns⟩ := query_good (w := w) (hB.netfnSupport w.device)
  obtain ⟨w0, hw0⟩ : ∃ w0, w0 = w.asked B (getNetfnSupportRequest channel) := ⟨_, rfl⟩
  rw [← hw0] at h0
  have hget : getNetfnSupport B p.channel w =
      .ok (some (R.lun, fun i => rsp.data (1 + i)), w0) := by
    rw [hch]
    refine bind_ok.mpr ⟨_, _, h0, ?_⟩
    rw [show R.lun = fun l => (rsp.data 0 >>> UInt8.ofNat (2 * l)) &&& 3 from by rw [hluns]; rfl]
    rfl
  have hnoted : Progress R p (fun _ _ => False) (noteLuns p R.lun (fun i => rsp.data (1 + i)) {}) :=
    noteLuns_progress hnetfns p
  unfold gatherInfo
  rw [bind_run hget]
  dsimp only
  by_cases hnetfn : 0 ≤ p.netfn
  · rw [if_pos hnetfn]
    exact gatherOne_finds hB hch hr hnetfn hnoted w0
  · rw [if_neg hnetfn]
    have hcommand : p.command < 0 := by
      by_contra hc
      exact hnetfn (hr.netfn_of_command (by omega))
    have hlt := hr.lun
    by_cases hlun : 0 ≤ p.lun
    · rw [if_pos hlun]
      have ha : Params.Allows p p.lun.toNat := fun _ => rfl
      obtain ⟨bmc, w1, h1, hp⟩ := gatherLun_progress hB hch (by omega) ha (fun _ => id) hnoted w0
      refine ⟨bmc, w1, bind_ok.mpr ⟨_, _, h1, rfl⟩,
        (hp.congr fun l n => ?_).finds (by omega) hcommand⟩
      unfold Params.Allows
      rw [false_or]
      constructor
      · rintro ⟨rfl, hn⟩
        exact ⟨fun _ => rfl, by omega, hn⟩
      · rintro ⟨ha, -, hn⟩
        exact ⟨(ha hlun).symm, hn⟩
    · rw [if_neg hlun]
      have ha : ∀ l, Params.Allows p l := fun l h => absurd h hlun
      obtain ⟨⟨ok, bmc⟩, w1, h1, rfl, hp⟩ := foldlM_range_ok (f := gatherLun B p)
        (I := fun k s _ => s.1 = true ∧ Progress R p (fun l n => l < k ∧ n < 32) s.2) (n := 4)
        (a := (true, noteLuns p R.lun (fun i => rsp.data (1 + i)) {})) (s := w0) (by
          rintro k hk ⟨ok, bmc1⟩ w1 ⟨rfl, h1⟩
          obtain ⟨bmc2, w2, h2, hp2⟩ := gatherLun_progress hB hch hk (ha k)
            (fun n hd => Nat.lt_irrefl k hd.1) h1 w1
          refine ⟨(true, bmc2), w2, h2, rfl, hp2.congr fun l n => ?_⟩
          rw [← or_and_right, ← Nat.lt_succ_iff_lt_or_eq])
        ⟨rfl, hnoted.congr fun l n => by simp⟩
      refine ⟨bmc, w1, bind_ok.mpr ⟨_, _, h1, rfl⟩,
        (hp.congr fun l n => ?_).finds (by omega) hcommand⟩
      exact ⟨fun h => ⟨ha l, h⟩, fun h => h.2⟩

/-! ### Discovery changes nothing -/

/-- Set Command Enables and Set Command Sub-function Enables. -/
def IsSet (c : Command) : Prop := c.cmd = 0x60 ∨ c.cmd = 0x62

instance (c : Command) : Decidable (IsSet c) := inferInstanceAs (Decidable (_ ∨ _))

/-- What is said in discovery. -/
abbrev Asks : Frame (CmdWorld γ β) := Says fun e : Exchange => ¬ IsSet e.1

theorem runs_query {P : Exchange → Prop} {c : Command} (h : ∀ a, P (c, a)) :
    Runs (Says P) (query B c : Cmd γ β _) := by
  refine .bind (Says.runs_ask h) fun a => ?_
  cases a with
  | none => exact .pure _
  | some rsp => exact .pure _

theorem runs_getNetfnSupport : Runs Asks (getNetfnSupport B channel : Cmd γ β _) := by
  refine .bind (runs_query fun a => ?_) fun a => ?_
  · change ¬ ((0x09 : UInt8) = 0x60 ∨ (0x09 : UInt8) = 0x62)
    decide
  · cases a with
    | none => exact .pure _
    | some rsp => exact .pure _

theorem not_isSet_mask (kind : MaskKind) (p : Params) (op : ℕ) :
    ¬ IsSet (getCommandMaskRequest kind p op) := by
  change ¬ (kind.command = 0x60 ∨ kind.command = 0x62)
  cases kind <;> decide

theorem not_isSet_subfn (kind : MaskKind) (p : Params) : ¬ IsSet (getSubfnMaskRequest kind p) := by
  change ¬ (kind.subfnCommand = 0x60 ∨ kind.subfnCommand = 0x62)
  cases kind <;> decide

theorem runs_getCommandMask (kind : MaskKind) (p : Params) (pair : Pair) :
    Runs Asks (getCommandMask B kind p pair : Cmd γ β _) := by
  refine .bind (runs_query fun _ => not_isSet_mask kind p 0) fun a => ?_
  cases a with
  | none => exact .pure _
  | some rsp =>
    refine .bind (runs_query fun _ => not_isSet_mask kind p 1) fun a => ?_
    cases a with
    | none => exact .pure _
    | some rsp => exact .pure _

theorem runs_getSubfnMask (kind : MaskKind) (p : Params) (cmd : CommandInfo) :
    Runs Asks (getSubfnMask B kind p cmd : Cmd γ β _) := by
  refine .bind (runs_query fun _ => not_isSet_subfn kind p) fun a => ?_
  cases a with
  | none => exact .pure _
  | some rsp => exact .pure _

theorem runs_getCommandMasks (p : Params) (pair : Pair) :
    Runs Asks (getCommandMasks B p pair : Cmd γ β _) :=
  .bind (runs_getCommandMask .support p pair) fun s =>
    .bind (runs_getCommandMask .config p s.2) fun c =>
      .bind (runs_getCommandMask .enable p c.2) fun _ => .pure _

theorem runs_getSubfnMasks (p : Params) (cmd : CommandInfo) :
    Runs Asks (getSubfnMasks B p cmd : Cmd γ β _) :=
  .bind (runs_getSubfnMask .support p cmd) fun s =>
    .bind (runs_getSubfnMask .config p s.2) fun c =>
      .bind (runs_getSubfnMask .enable p c.2) fun _ => .pure _

theorem runs_gatherPair (p : Params) (l : ℕ) (s : Bool × BmcInfo) (n : ℕ) :
    Runs Asks (gatherPair B p l s n : Cmd γ β _) := by
  refine .bind ?_ fun _ => .pure _
  exact .ite (fun _ => .bind (runs_getCommandMasks _ _) fun _ => .pure _) fun _ => .pure _

theorem runs_gatherLun (p : Params) (s : Bool × BmcInfo) (l : ℕ) :
    Runs Asks (gatherLun B p s l : Cmd γ β _) :=
  .ite (fun _ => .foldlM (runs_gatherPair p l) _ _) fun _ => .pure _

theorem runs_gatherInfo (p : Params) (bmc : BmcInfo) :
    Runs Asks (gatherInfo B p bmc : Cmd γ β _) := by
  refine .bind runs_getNetfnSupport fun a => .ite (fun _ => ?_) fun _ =>
    .ite (fun _ => ?_) fun _ => ?_
  · refine .ite (fun _ => .pure _) fun _ => .bind (runs_getCommandMasks _ _) fun r =>
      .ite (fun _ => ?_) fun _ => .pure _
    exact .bind (runs_getSubfnMasks _ _) fun _ => .pure _
  · exact .bind (runs_gatherLun p _ _) fun _ => .pure _
  · exact .bind (.foldlM (runs_gatherLun p) _ _) fun _ => .pure _

end Discovery

end Ipmitool.Firewall.Discovery
