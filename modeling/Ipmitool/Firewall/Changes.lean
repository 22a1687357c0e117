import Ipmitool.Firewall.Discovery

/-! # Enabling and disabling

What `setCommandEnables` and `setSubfnEnables` send (`setCommandEnables_run`,
`setSubfnEnables_run`), and from it what `firewall enable` and `firewall disable` do to the commands
that were not named, and what they send when discovery has failed. -/

namespace Ipmitool.Firewall.Changes

open Ipmitool.Lib.Mem Ipmitool.Lib.Machine Ipmitool.Lib.Dialogue Ipmitool.Core.Types
  Ipmitool.Core.Interface
open Ipmitool.Firewall.Commands Ipmitool.Firewall.Discovery

/-! ### What is sent -/

/-- A response with the completion code zero. -/
def good (a : Option Reply) : Bool := a.any fun rsp => rsp.ccode = 0

section
variable {γ β : Type} {B : Bmc β} {p : Params} {w : CmdWorld γ β}

theorem query_run (c : Command) (w : CmdWorld γ β) :
    (query B c : Cmd γ β _) w =
      .ok (if good (B w.device c).1 then (B w.device c).1 else none, w.asked B c) := by
  have hask : (sendrecv B c : Cmd γ β _) w = .ok ((B w.device c).1, w.asked B c) :=
    ask_ok.mpr ⟨rfl, rfl⟩
  unfold query
  rw [bind_run hask]
  rcases (B w.device c).1 with _ | rsp
  · rfl
  · by_cases hcc : rsp.ccode = 0
    · have hgood : good (some rsp) = true := decide_eq_true hcc
      dsimp only
      rw [if_neg (not_not.mpr hcc), hgood]
      rfl
    · have hbad : good (some rsp) = false := decide_eq_false hcc
      dsimp only
      rw [if_pos hcc, hbad]
      rfl

theorem query_cases (c : Command) (w : CmdWorld γ β) : ∃ a,
    ((query B c : Cmd γ β _) w = .ok (none, w.asked B c) ∧ good a = false ∨
      ∃ rsp, (query B c : Cmd γ β _) w = .ok (some rsp, w.asked B c) ∧ good a = true) ∧
    (w.asked B c).log = w.log ++ [(c, a)] := by
  refine ⟨(B w.device c).1, ?_, rfl⟩
  have hrun := query_run (B := B) c w
  rcases ha : (B w.device c).1 with _ | rsp
  · rw [ha] at hrun
    exact .inl ⟨hrun, rfl⟩
  · rw [ha] at hrun
    by_cases hgood : good (some rsp) = true
    · rw [if_pos hgood] at hrun
      exact .inr ⟨rsp, hrun, hgood⟩
    · rw [if_neg hgood] at hrun
      exact .inl ⟨hrun, Bool.eq_false_iff.mpr hgood⟩

theorem setSubfnEnables_run (p : Params) (cmd : CommandInfo) (mask : Memory UInt8)
    (w : CmdWorld γ β) : ∃ a w',
    setSubfnEnables B p cmd mask w = .ok (good a, w') ∧
    w'.log =
      w.log ++ [(setSubfnEnablesRequest p (merge cmd.subfnConfig cmd.subfnEnable mask), a)] := by
  obtain ⟨a, ⟨hrun, ha⟩ | ⟨rsp, hrun, ha⟩, hlog⟩ := query_cases (B := B)
    (setSubfnEnablesRequest p (merge cmd.subfnConfig cmd.subfnEnable mask)) w
  · exact ⟨a, _, bind_ok.mpr ⟨_, _, hrun, by rw [ha]; rfl⟩, hlog⟩
  · exact ⟨a, _, bind_ok.mpr ⟨_, _, hrun, by rw [ha]; rfl⟩, hlog⟩

/-- What `setCommandEnables` sends: one half of the mask, and the other half if that was
accepted. -/
def Halves (p : Params) (mask : Memory UInt8) (ret : Bool) (evs : List Exchange) : Prop :=
  (∃ a, good a = false ∧ ret = false ∧ evs = [(setCommandEnablesRequest p 0 mask, a)]) ∨
    ∃ a b, good a = true ∧ ret = good b ∧
      evs = [(setCommandEnablesRequest p 0 mask, a), (setCommandEnablesRequest p 1 mask, b)]

theorem setCommandEnables_run (p : Params) (pair : Pair) (mask : Memory UInt8) (gun : Bool)
    (w : CmdWorld γ β) :
    ∃ ret w' evs, setCommandEnables B p pair mask gun w = .ok (ret, w') ∧ w'.log = w.log ++ evs ∧
      Halves p (pair.enables mask gun) ret evs := by
  obtain ⟨a, ⟨hrun, ha⟩ | ⟨rsp, hrun, ha⟩, hlog⟩ := query_cases (B := B)
    (setCommandEnablesRequest p 0 (pair.enables mask gun)) w
  · exact ⟨false, _, _, bind_ok.mpr ⟨_, _, hrun, rfl⟩, hlog, .inl ⟨a, ha, rfl, rfl⟩⟩
  · obtain ⟨b, hrun', hlog'⟩ := query_cases (B := B)
      (setCommandEnablesRequest p 1 (pair.enables mask gun))
      (w.asked B (setCommandEnablesRequest p 0 (pair.enables mask gun)))
    rw [hlog, List.append_assoc] at hlog'
    rcases hrun' with ⟨hrun', hb⟩ | ⟨rsp', hrun', hb⟩
    · exact ⟨false, _, _, bind_ok.mpr ⟨_, _, hrun, bind_ok.mpr ⟨_, _, hrun', rfl⟩⟩, hlog',
        .inr ⟨a, b, ha, hb.symm, rfl⟩⟩
    · exact ⟨true, _, _, bind_ok.mpr ⟨_, _, hrun, bind_ok.mpr ⟨_, _, hrun', rfl⟩⟩, hlog',
        .inr ⟨a, b, ha, hb.symm, rfl⟩⟩

theorem Halves.first {mask : Memory UInt8} {ret : Bool} {evs : List Exchange}
    (h : Halves p mask ret evs) :
    ∃ a, (setCommandEnablesRequest p 0 mask, a) ∈ evs := by
  rcases h with ⟨a, -, -, rfl⟩ | ⟨a, b, -, -, rfl⟩
  · exact ⟨a, List.mem_cons_self⟩
  · exact ⟨a, List.mem_cons_self⟩

theorem Halves.mem {mask : Memory UInt8} {ret : Bool} {evs : List Exchange}
    (h : Halves p mask ret evs) {e : Exchange} (he : e ∈ evs) :
    ∃ op < 2, e.1 = setCommandEnablesRequest p op mask := by
  rcases h with ⟨a, -, -, rfl⟩ | ⟨a, b, -, -, rfl⟩
  · rw [List.mem_singleton.mp he]
    exact ⟨0, by decide, rfl⟩
  · rcases List.mem_cons.mp he with rfl | he
    · exact ⟨0, by decide, rfl⟩
    · rw [List.mem_singleton.mp he]
      exact ⟨1, by decide, rfl⟩

theorem isSet_setCommandEnables (p : Params) (op : ℕ) (mask : Memory UInt8) :
    IsSet (setCommandEnablesRequest p op mask) := .inl rfl

theorem isSet_setSubfnEnables (p : Params) (mask : Memory UInt8) :
    IsSet (setSubfnEnablesRequest p mask) := .inr rfl

end

/-! ### Requests and their bytes -/

theorem cells_of_read {m m' : Memory UInt8} {off n : ℕ} (h : read m off n = read m' off n) {i : ℕ}
    (hi : i < n) :
    m (off + i) = m' (off + i) := by
  unfold Lib.Mem.read at h
  have hget := congrArg (fun l => l[i]?) h
  simpa [hi] using hget

theorem setCommandEnablesRequest_inj {p : Params} (h0 : 0 ≤ p.netfn) (h64 : p.netfn < 64)
    {op op' : ℕ} (hop : op < 2) (hop' : op' < 2) {mask mask' : Memory UInt8}
    (h : setCommandEnablesRequest p op mask = setCommandEnablesRequest p op' mask') :
    op = op' ∧ ∀ k < 128, bitTest mask (128 * op + k) = bitTest mask' (128 * op + k) := by
  have hdata := congrArg Command.data h
  change [p.channel, netfnByte p.netfn op, UInt8.ofInt p.lun] ++ read mask (16 * op) 16 =
    [p.channel, netfnByte p.netfn op', UInt8.ofInt p.lun] ++ read mask' (16 * op') 16 at hdata
  obtain ⟨hhead, hread⟩ := List.append_inj hdata rfl
  have hbyte : netfnByte p.netfn op = netfnByte p.netfn op' := by
    simpa using hhead
  have hnat := congrArg UInt8.toNat hbyte
  rw [netfnByte_toNat h0 h64 hop, netfnByte_toNat h0 h64 hop'] at hnat
  obtain rfl : op = op' := by omega
  refine ⟨rfl, fun k hk => bitTest_congr ?_⟩
  rw [show (128 * op + k) / 8 = 16 * op + k / 8 by omega]
  exact cells_of_read hread (by omega)

/-! ### A single command -/

/-- The arguments of `enable` or `disable` name a command of a supported pair, and no
sub-function. -/
structure NamesCommand (H : Helpers) (R : Reports) (args : List String) (p : Params) : Prop where
  notHelp : args.head? ≠ some "help"
  parsed : parseArgs H args = some p
  command : 0 ≤ p.command
  subfn : p.subfn < 0
  supported : R.Supported p.lun.toNat (p.netfn.toNat / 2)

/-- What is sent to Set Command Enables is for the pair and keeps the bits of the other commands;
without force it does not disable Set Command Enables itself. -/
structure TouchesOnly (R : Reports) (p : Params) (evs : List Exchange) : Prop where
  pair : ∀ e ∈ evs, e.1.cmd = 0x60 → ∃ op < 2, ∃ mask, e.1 = setCommandEnablesRequest p op mask
  others : ∀ op < 2, ∀ mask a, (setCommandEnablesRequest p op mask, a) ∈ evs → ∀ k < 128,
    128 * op + k ≠ p.command.toNat →
      bitTest mask (128 * op + k) = R.enabled p.lun.toNat (p.netfn.toNat / 2) (128 * op + k)
  lockout : p.force = false → R.configurable p.lun.toNat (p.netfn.toNat / 2) 0x60 = true →
    R.enabled p.lun.toNat (p.netfn.toNat / 2) 0x60 = true →
      ∀ mask a, (setCommandEnablesRequest p 0 mask, a) ∈ evs → bitTest mask 0x60 = true

/-- No command from 60h to 67h that is to keep its bit is configurable and enabled, or `force` is
given. -/
def Spared (R : Reports) (p : Params) : Prop :=
  p.force = true ∨ ∀ j, 0x60 ≤ j → j < 0x68 → (j ≠ p.command.toNat ∨ j = 0x60) →
    ¬ (R.configurable p.lun.toNat (p.netfn.toNat / 2) j = true ∧
      R.enabled p.lun.toNat (p.netfn.toNat / 2) j = true)

section
variable {γ β : Type} {B : Bmc β} {R : Reports} {p : Params}

theorem bitTest_sent {l n : ℕ} {pair : Pair} (hknown : Known R l n pair) (c : ℕ)
    (enable gun : Bool) {j : ℕ}
    (hj : j < 256) (hc : j ≠ c) :
    bitTest (pair.enables (bitSet pair.enableMask c enable) gun) j =
      (R.enabled l n j && !(R.configurable l n j && !gun && decide (j / 8 = 12))) := by
  have hconfig : bitTest pair.configMask j = R.configurable l n j :=
    bitTest_congr (hknown .config (j / 8) (by omega))
  have henable : bitTest pair.enableMask j = R.enabled l n j :=
    bitTest_congr (hknown .enable (j / 8) (by omega))
  rw [bitTest_enables, bitTest_bitSet, if_neg hc, hconfig, henable]
  cases R.configurable l n j <;> cases gun <;> simp

/-- Without force the bit of a configurable command from 60h to 67h is cleared, also of the one that
was named. -/
theorem bitTest_cleared {l n : ℕ} {pair : Pair} (hknown : Known R l n pair)
    (mask : Memory UInt8) {j : ℕ}
    (hj : j / 8 = 12) (hconfig : R.configurable l n j = true) :
    bitTest (pair.enables mask false) j = false := by
  have hconfig' : bitTest pair.configMask j = true :=
    (bitTest_congr (hknown .config (j / 8) (by omega))).trans hconfig
  rw [bitTest_enables, if_pos hconfig', hj]
  simp

/-- What is said in a run for a command: discovery, the sub-functions, and the halves of this
mask. -/
structure CommandRun (p : Params) (mask : Memory UInt8) (evs : List Exchange) : Prop where
  split : ∃ evs1 sub a evs2 ret, evs = evs1 ++ (setSubfnEnablesRequest p sub, a) :: evs2 ∧
    (∀ e ∈ evs1, ¬ IsSet e.1) ∧ Halves p mask ret evs2

section
variable {mask : Memory UInt8} {evs : List Exchange}

theorem CommandRun.first (h : CommandRun p mask evs) :
    ∃ b, (setCommandEnablesRequest p 0 mask, b) ∈ evs := by
  obtain ⟨evs1, sub, a, evs2, ret, rfl, -, hhalves⟩ := h
  obtain ⟨b, hb⟩ := hhalves.first
  exact ⟨b, List.mem_append_right _ (List.mem_cons_of_mem _ hb)⟩

theorem CommandRun.pair (h : CommandRun p mask evs) {e : Exchange} (he : e ∈ evs)
    (hcmd : e.1.cmd = 0x60) :
    ∃ op < 2, e.1 = setCommandEnablesRequest p op mask := by
  obtain ⟨evs1, sub, a, evs2, ret, rfl, hasks, hhalves⟩ := h
  rcases List.mem_append.mp he with he | he
  · exact absurd (.inl hcmd) (hasks e he)
  · rcases List.mem_cons.mp he with rfl | he
    · cases hcmd
    · exact hhalves.mem he

theorem CommandRun.sent (h : CommandRun p mask evs) (h0 : 0 ≤ p.netfn) (h64 : p.netfn < 64) {op : ℕ}
    (hop : op < 2) {mask' : Memory UInt8} {b : Option Reply}
    (he : (setCommandEnablesRequest p op mask', b) ∈ evs) {k : ℕ}
    (hk : k < 128) : bitTest mask' (128 * op + k) = bitTest mask (128 * op + k) := by
  obtain ⟨op', hop', heq⟩ := h.pair he rfl
  obtain ⟨rfl, hbits⟩ := setCommandEnablesRequest_inj h0 h64 hop hop' heq
  exact hbits k hk

end

theorem change_command (enable : Bool) (hB : Answers B p.channel R) (hr : InRange p)
    (hcommand : 0 ≤ p.command) (hsubfn : p.subfn < 0)
    (hsup : R.Supported p.lun.toNat (p.netfn.toNat / 2)) (w : CmdWorld γ β) :
    ∃ ret w' evs pair, change B enable p w = .ok (ret, w') ∧ w'.log = w.log ++ evs ∧
      Known R p.lun.toNat (p.netfn.toNat / 2) pair ∧
      CommandRun p (pair.enables (bitSet pair.enableMask p.command.toNat enable) p.force) evs := by
  obtain ⟨bmc, w1, h1, hfinds⟩ := gatherInfo_finds hB rfl hr w
  obtain ⟨evs1, hlog1, hasks⟩ := (runs_gatherInfo p {}).rel h1
  have hnetfn := hr.netfn_of_command hcommand
  have hlun := hr.lun_of_netfn hnetfn
  have hlt := hr.lun
  have hlt' := hr.netfn
  obtain ⟨pair, hpair⟩ : ∃ pair, pair = bmc.pair p.lun.toNat (p.netfn.toNat / 2) := ⟨_, rfl⟩
  have hknown : Known R p.lun.toNat (p.netfn.toNat / 2) pair :=
    hpair ▸ hfinds.known _ (by omega) _ (by omega) ⟨hsup, fun _ => rfl, fun _ => rfl⟩
  obtain ⟨a, w2, h2, hlog2⟩ :=
    setSubfnEnables_run (B := B) p (pair.command p.command.toNat) (splat enable) w1
  obtain ⟨sub, hsub⟩ : ∃ sub, sub = merge (pair.command p.command.toNat).subfnConfig
      (pair.command p.command.toNat).subfnEnable (splat enable) := ⟨_, rfl⟩
  rw [← hsub] at hlog2
  obtain ⟨ret, w3, evs3, h3, hlog3, hhalves⟩ := setCommandEnables_run (B := B) p pair
    (bitSet pair.enableMask p.command.toNat enable) p.force w2
  refine ⟨good a && ret, w3, evs1 ++ (setSubfnEnablesRequest p sub, a) :: evs3, pair,
    ?_, ?_, hknown, ⟨evs1, sub, a, evs3, ret, rfl, hasks, hhalves⟩⟩
  · unfold change
    rw [bind_run h1, ← hpair, if_neg (by omega), if_pos hcommand]
    exact bind_ok.mpr ⟨_, _, h2, bind_ok.mpr ⟨_, _, h3, rfl⟩⟩
  · rw [hlog3, hlog2, hlog1]
    simp

theorem touchesOnly_iff {pair : Pair} {enable : Bool} {evs : List Exchange} (hr : InRange p)
    (hcommand : 0 ≤ p.command) (hknown : Known R p.lun.toNat (p.netfn.toNat / 2) pair)
    (hrun : CommandRun p (pair.enables (bitSet pair.enableMask p.command.toNat enable) p.force)
      evs) :
    TouchesOnly R p evs ↔ Spared R p := by
  have h0 := hr.netfn_of_command hcommand
  have h64 := hr.netfn
  constructor
  · intro h
    obtain ⟨b, hfirst⟩ := hrun.first
    rcases hforce : p.force with _ | _
    · refine .inr fun j hj hj' hkeep hboth => ?_
      have hcleared := bitTest_cleared hknown (bitSet pair.enableMask p.command.toNat enable)
        (show j / 8 = 12 by omega) hboth.1
      rw [hforce] at hfirst
      rcases hkeep with hne | rfl
      · have hkept := h.others 0 (by decide) _ b hfirst j (by omega) (by simpa using hne)
        rw [Nat.mul_zero, Nat.zero_add, hboth.2, hcleared] at hkept
        cases hkept
      · have hkept := h.lockout hforce hboth.1 hboth.2 _ b hfirst
        rw [hcleared] at hkept
        cases hkept
    · exact .inl hforce
  · intro h
    refine ⟨fun e he hcmd => ?_, fun op hop mask a he k hk hne => ?_,
      fun hforce hc he60 mask a he => ?_⟩
    · obtain ⟨op, hop, heq⟩ := hrun.pair he hcmd
      exact ⟨op, hop, _, heq⟩
    · rw [hrun.sent h0 h64 hop he hk, bitTest_sent hknown _ _ _ (by omega) hne]
      by_cases hbyte : (128 * op + k) / 8 = 12
      · rcases h with hforce | h
        · rw [hforce]
          simp
        · have hboth := h (128 * op + k) (by omega) (by omega) (.inl hne)
          revert hboth
          cases R.configurable p.lun.toNat (p.netfn.toNat / 2) (128 * op + k) <;>
            cases R.enabled p.lun.toNat (p.netfn.toNat / 2) (128 * op + k) <;> simp
      · simp [hbyte]
    · rcases h with h | h
      · rw [hforce] at h
        cases h
      · exact absurd ⟨hc, he60⟩ (h 0x60 (Nat.le_refl _) (by decide) (.inr rfl))

theorem enableDisable_run {H : Helpers} {enable : Bool} {args : List String}
    (hhelp : args.head? ≠ some "help") (hparsed : parseArgs H args = some p)
    (hnetfn : 0 ≤ p.netfn) :
    (enableDisable B H enable args : Cmd γ β Bool) = change B enable p := by
  have hne : args ≠ [] := by
    rintro rfl
    cases hparsed
    exact absurd hnetfn (by decide)
  unfold enableDisable
  rw [if_neg fun h => h.elim hne hhelp, hparsed]

end

/-- `firewall enable` and `firewall disable` of a command touch only what was asked for exactly if
the commands from 60h to 67h are spared. -/
theorem enableDisable_touchesOnly_iff {γ β : Type} (B : Bmc β) (H : Helpers) (R : Reports)
    (enable : Bool) (args : List String) (p : Params) (hargs : NamesCommand H R args p)
    (hB : Answers B p.channel R) (w : CmdWorld γ β) :
    ∃ ret w' evs, enableDisable B H enable args w = .ok (ret, w') ∧ w'.log = w.log ++ evs ∧
      (TouchesOnly R p evs ↔ Spared R p) := by
  have hr := parseArgs_inRange hargs.parsed
  obtain ⟨ret, w', evs, pair, hrun, hlog, hknown, hcommandRun⟩ :=
    change_command enable hB hr hargs.command hargs.subfn hargs.supported w
  rw [enableDisable_run hargs.notHelp hargs.parsed (hr.netfn_of_command hargs.command)]
  exact ⟨ret, w', evs, hrun, hlog, touchesOnly_iff hr hargs.command hknown hcommandRun⟩

/-- A BMC with the one pair NetFn 6 of LUN 0, all of whose commands are configurable and enabled. -/
def allEnabled : Reports where
  luns := 1
  netfns := fun i => if i = 0 then 8 else 0
  mask := fun kind _ _ _ => if kind = .support then 0 else 0xff

/-- The numbers in the arguments below. -/
def digits : Helpers where
  str2int := fun s =>
    if s = "0" then some 0 else if s = "1" then some 1 else if s = "6" then some 6 else none
  isIpmiChannelNum := fun _ => none

theorem allEnabled_supported : allEnabled.Supported 0 3 := by
  constructor <;> decide

theorem names_command :
    NamesCommand digits allEnabled ["lun", "0", "netfn", "6", "command", "1"]
      { lun := 0, netfn := 6, command := 1 } :=
  ⟨by simp, by simp [parseArgs, parseLoop, digits], by decide, by decide, allEnabled_supported⟩

theorem names_command_force :
    NamesCommand digits allEnabled ["lun", "0", "netfn", "6", "command", "1", "force"]
      { lun := 0, netfn := 6, command := 1, force := true } :=
  ⟨by simp, by simp [parseArgs, parseLoop, digits], by decide, by decide, allEnabled_supported⟩

/-- `firewall disable lun 0 netfn 6 command 1` disables 60h to 67h, too. -/
theorem disable_touches_others :
    NamesCommand digits allEnabled ["lun", "0", "netfn", "6", "command", "1"]
      { lun := 0, netfn := 6, command := 1 } ∧
    Answers (reporting allEnabled) 0xe allEnabled ∧
    ∃ ret w' evs, enableDisable (reporting allEnabled) digits false ["lun", "0", "netfn", "6",
      "command", "1"]
        (⟨(), (), []⟩ : CmdWorld Unit Unit) = .ok (ret, w') ∧ w'.log = evs ∧
      ¬ TouchesOnly allEnabled { lun := 0, netfn := 6, command := 1 } evs := by
  have hnames := names_command
  have hr := parseArgs_inRange hnames.parsed
  obtain ⟨ret, w', evs, pair, hrun, hlog, hknown, hcommandRun⟩ :=
    change_command (w := (⟨(), (), []⟩ : CmdWorld Unit Unit)) false
      (answers_reporting 0xe allEnabled) hr
      hnames.command hnames.subfn hnames.supported
  refine ⟨hnames, answers_reporting 0xe allEnabled, ret, w', evs, ?_, hlog, fun h => ?_⟩
  · rw [enableDisable_run (p := { lun := 0, netfn := 6, command := 1 }) hnames.notHelp hnames.parsed
      (by decide)]
    exact hrun
  · rcases (touchesOnly_iff hr hnames.command hknown hcommandRun).mp h with h | h
    · cases h
    · exact h 0x61 (by decide) (by decide) (.inl (by decide)) (by decide)

/-- With force they keep their bits. -/
theorem enableDisable_touchesOnly_iff_force : ∃ ret w' evs,
    enableDisable (reporting allEnabled) digits false ["lun", "0", "netfn", "6", "command",
      "1", "force"]
      (⟨(), (), []⟩ : CmdWorld Unit Unit) = .ok (ret, w') ∧ w'.log = evs ∧
    TouchesOnly allEnabled { lun := 0, netfn := 6, command := 1, force := true } evs := by
  obtain ⟨ret, w', evs, hrun, hlog, hiff⟩ :=
    enableDisable_touchesOnly_iff (reporting allEnabled) digits allEnabled
      false _ _ names_command_force (answers_reporting 0xe allEnabled)
        (⟨(), (), []⟩ : CmdWorld Unit Unit)
  exact ⟨ret, w', evs, hrun, hlog, hiff.mpr (.inl rfl)⟩

/-! ### Discovery that failed -/

/-- The answer to Get NetFn Support says that the pair is not supported. -/
def Unsupported (p : Params) (a : Option Reply) : Prop :=
  ∃ rsp, a = some rsp ∧ ((rsp.data 0 >>> UInt8.ofNat (2 * p.lun.toNat)) &&& 3 = 0 ∨
    bitTest (fun i => rsp.data (1 + i)) (p.lun.toNat * 32 + p.netfn.toNat / 2) = false)

/-- A request of discovery was not answered or refused, or the pair is not supported. -/
def Incomplete (p : Params) (evs : List Exchange) : Prop :=
  ∃ e ∈ evs, ¬ IsSet e.1 ∧ (good e.2 = false ∨ e.1 = getNetfnSupportRequest p.channel ∧
    Unsupported p e.2)

/-- The arguments of `enable` or `disable` name a pair, and maybe more. -/
structure NamesPair (H : Helpers) (args : List String) (p : Params) : Prop where
  notHelp : args.head? ≠ some "help"
  parsed : parseArgs H args = some p
  netfn : 0 ≤ p.netfn

/-- Whatever was found, something is written if a pair is named, and nothing else. -/
theorem change_writes {γ β : Type} {B : Bmc β} {p : Params} (hr : InRange p) (enable : Bool)
    (w : CmdWorld γ β) :
    ∃ ret w' evs, change B enable p w = .ok (ret, w') ∧ w'.log = w.log ++ evs ∧
      ((∃ e ∈ evs, IsSet e.1) ↔ 0 ≤ p.netfn) := by
  obtain ⟨bmc, w1, h1, evs1, hlog1, hasks⟩ := runs_gatherInfo (B := B) p {} w
  obtain ⟨pair, hpair⟩ : ∃ pair, pair = bmc.pair p.lun.toNat (p.netfn.toNat / 2) := ⟨_, rfl⟩
  unfold change
  rw [bind_run h1, ← hpair]
  by_cases hsubfn : 0 ≤ p.subfn
  · have hnetfn := hr.netfn_of_command (hr.command_of_subfn hsubfn)
    obtain ⟨a, w2, h2, hlog2⟩ := setSubfnEnables_run (B := B) p (pair.command p.command.toNat)
      (bitSet (pair.command p.command.toNat).subfnEnable p.subfn.toNat enable) w1
    rw [hlog1, List.append_assoc] at hlog2
    rw [if_pos hsubfn]
    refine ⟨_, w2, _, h2, hlog2, iff_of_true ⟨_,
      List.mem_append_right _ (List.mem_singleton_self _), ?_⟩ hnetfn⟩
    exact isSet_setSubfnEnables p _
  rw [if_neg hsubfn]
  by_cases hcommand : 0 ≤ p.command
  · have hnetfn := hr.netfn_of_command hcommand
    obtain ⟨a, w2, h2, hlog2⟩ :=
      setSubfnEnables_run (B := B) p (pair.command p.command.toNat) (splat enable) w1
    obtain ⟨ret, w3, evs3, h3, hlog3, -⟩ := setCommandEnables_run (B := B) p pair
      (bitSet pair.enableMask p.command.toNat enable) p.force w2
    rw [hlog2, hlog1, List.append_assoc, List.append_assoc] at hlog3
    rw [if_pos hcommand]
    refine ⟨_, w3, _, bind_ok.mpr ⟨_, _, h2, bind_ok.mpr ⟨_, _, h3, rfl⟩⟩, hlog3, iff_of_true ⟨_,
      List.mem_append_right _ (List.mem_append_left _ (List.mem_singleton_self _)), ?_⟩ hnetfn⟩
    exact isSet_setSubfnEnables p _
  rw [if_neg hcommand]
  by_cases hnetfn : 0 ≤ p.netfn
  · obtain ⟨ret, w2, evs2, h2, hlog2, hhalves⟩ :=
      setCommandEnables_run (B := B) p pair (splat enable) p.force w1
    obtain ⟨a, hfirst⟩ := hhalves.first
    rw [hlog1, List.append_assoc] at hlog2
    rw [if_pos hnetfn]
    refine ⟨_, w2, _, h2, hlog2, iff_of_true ⟨_, List.mem_append_right _ hfirst, ?_⟩ hnetfn⟩
    exact isSet_setCommandEnables p 0 _
  · rw [if_neg hnetfn]
    exact ⟨_, w1, evs1, rfl, hlog1, iff_of_false (fun ⟨e, he, hset⟩ => hasks e he hset) hnetfn⟩

/-- `firewall enable` and `firewall disable` write nothing on incomplete knowledge exactly if the
knowledge is complete whenever the arguments name a pair. -/
theorem enableDisable_incomplete_iff {γ β : Type} (B : Bmc β) (H : Helpers) (enable : Bool)
    (args : List String) (w : CmdWorld γ β) : ∃ ret w' evs, enableDisable B H enable args w =
      .ok (ret, w') ∧ w'.log = w.log ++ evs ∧
      ((∀ p, parseArgs H args = some p → Incomplete p evs → ∀ e ∈ evs, ¬ IsSet e.1) ↔
        ∀ p, NamesPair H args p → ¬ Incomplete p evs) := by
  have hsilent : ∀ p, ¬ Incomplete p [] := fun p ⟨e, he, _⟩ => List.not_mem_nil he
  unfold enableDisable
  by_cases hhelp : args = [] ∨ args.head? = some "help"
  · rw [if_pos hhelp]
    refine ⟨true, w, [], rfl, (List.append_nil _).symm,
      iff_of_true (fun p _ _ e he => absurd he List.not_mem_nil)
      fun p _ => hsilent p⟩
  rw [if_neg hhelp]
  rcases hparsed : parseArgs H args with _ | p
  · refine ⟨false, w, [], rfl, (List.append_nil _).symm,
      iff_of_true (fun p h => ?_) fun p _ => hsilent p⟩
    cases h
  · obtain ⟨ret, w', evs, hrun, hlog, hwrites⟩ :=
      change_writes (B := B) (parseArgs_inRange hparsed) enable w
    refine ⟨ret, w', evs, hrun, hlog, ?_⟩
    by_cases hnetfn : 0 ≤ p.netfn
    · obtain ⟨e, he, hset⟩ := hwrites.mpr hnetfn
      constructor
      · intro h q hq hinc
        obtain rfl : p = q := Option.some.inj (hparsed.symm.trans hq.parsed)
        exact h p rfl hinc e he hset
      · intro h q hq hinc
        cases hq
        exact absurd hinc (h p ⟨fun hd => hhelp (.inr hd), hparsed, hnetfn⟩)
    · refine iff_of_true (fun q _ _ e he hset => hnetfn (hwrites.mp ⟨e, he, hset⟩)) fun q hq => ?_
      obtain rfl : p = q := Option.some.inj (hparsed.symm.trans hq.parsed)
      exact absurd hq.netfn hnetfn

/-- A BMC that does not answer. -/
def silent : Bmc Unit := fun b _ => (none, b)

/-- After a single request without an answer, `firewall disable lun 0 netfn 6 command 1` writes two
masks of zeros. -/
theorem disable_writes_unknown : ∃ ret w', enableDisable silent digits false
      ["lun", "0", "netfn", "6", "command", "1"] (⟨(), (), []⟩ : CmdWorld Unit Unit) =
        .ok (ret, w') ∧
    Incomplete { lun := 0, netfn := 6, command := 1 } w'.log ∧
    w'.log.map Prod.fst = [⟨netfnAppCmd, 0, 0x09, [0xe]⟩,
      ⟨netfnAppCmd, 0, 0x62, [0xe, 6, 0, 1] ++ List.replicate 4 0⟩,
      ⟨netfnAppCmd, 0, 0x60, [0xe, 6, 0] ++ List.replicate 16 0⟩] ∧ ∃ e ∈ w'.log, IsSet e.1 := by
  have hparsed := names_command.parsed
  rw [enableDisable_run (p := { lun := 0, netfn := 6, command := 1 }) names_command.notHelp hparsed
    (by decide)]
  refine ⟨_, _, rfl, ⟨(getNetfnSupportRequest 0xe, none), List.mem_cons_self, ?_, .inl rfl⟩, rfl,
    ?_⟩
  · decide
  · exact ⟨_, List.mem_cons_of_mem _ List.mem_cons_self, .inr rfl⟩

end Ipmitool.Firewall.Changes
