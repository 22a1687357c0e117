import Ipmitool.Core.Interface

/-! # Setting the boot options

The requests of `cmd/chassis.zig` that change the boot options: `chassisSetBootparam`,
`chassisBootparamSetInProgress` and `chassisBootparamClearAck`. The memory for a request is always
found.

The commands that change the boot options send one request for each parameter, between requests that
say that a change is in progress, to be committed, complete. `written` are the requests for one
parameter; `Quiet` programs send none for the parameters that make up the boot options. -/

namespace Ipmitool.Chassis.BootOptions

open Ipmitool.Lib.Machine Ipmitool.Lib.Dialogue Ipmitool.Core.Types Ipmitool.Core.Interface

variable {β α : Type}

def netfnChassis : UInt8 := 0x00
def cmdSetBootOptions : UInt8 := 0x08
def cmdGetBootOptions : UInt8 := 0x09

/-- The parameters: `IPMI_CHASSIS_BOOTPARAM_…`. -/
def paramSetInProgress : UInt8 := 0
def paramFlagValid : UInt8 := 3
def paramInfoAck : UInt8 := 4
def paramBootFlags : UInt8 := 5
def paramInitMbox : UInt8 := 7

/-- `progress_t`. -/
def setComplete : UInt8 := 0
def setInProgress : UInt8 := 1
def commitWrite : UInt8 := 2

/-- `bootinfo_ack_t`. -/
def biosPostAck : UInt8 := 1
def osLoaderAck : UInt8 := 2
def reservedAckMask : UInt8 := 0xe0

/-- `use_progress`. -/
structure Vars where
  useProgress : Bool

/-- The commands of the module that change the boot options. -/
abbrev Talk (β : Type) := Cmd Vars β

/-- Set System Boot Options. -/
def setBootOptions (param : UInt8) (data : List UInt8) : Command where
  netfn := netfnChassis
  cmd := cmdSetBootOptions
  data := (param &&& 0x7f) :: data

/-- The completion code, or −1 without an answer. -/
def status : Option Reply → ℤ
  | none => -1
  | some r => r.ccode.toNat

/-- `chassisSetBootparam`. -/
def chassisSetBootparam (B : Bmc β) (param : UInt8) (data : List UInt8) : Talk β ℤ := do
  let rsp ← sendrecv B (setBootOptions param data)
  return status rsp

/-- `chassisBootparamSetInProgress`. -/
def chassisBootparamSetInProgress (B : Bmc β) (progress : UInt8) : Talk β Unit := do
  let w ← get
  if w.vars.useProgress then
    let rc ← chassisSetBootparam B paramSetInProgress [progress]
    if rc ≠ 0 ∧ progress = setInProgress then
      modify fun w => { w with vars := { useProgress := false } }

/-- `chassisBootparamClearAck`. -/
def chassisBootparamClearAck (B : Bmc β) (flag : UInt8) : Talk β ℤ :=
  chassisSetBootparam B paramInfoAck [flag &&& ~~~reservedAckMask, flag &&& ~~~reservedAckMask]

/-! ### What the requests do -/

section
variable {B : Bmc β} {w : CmdWorld Vars β}

/-- Whether a change of the boot options is announced, and the announcement accepted. -/
def Announced (B : Bmc β) (w : CmdWorld Vars β) : Prop :=
  w.vars.useProgress = true ∧
    status (B w.device (setBootOptions paramSetInProgress [setInProgress])).1 = 0

/-- The world after a progress request. -/
def progressed (B : Bmc β) (progress : UInt8) (w : CmdWorld Vars β) : CmdWorld Vars β :=
  if w.vars.useProgress then
    if status (B w.device (setBootOptions paramSetInProgress [progress])).1 ≠ 0 ∧
      progress = setInProgress then
      { w.asked B (setBootOptions paramSetInProgress [progress]) with vars := ⟨false⟩ }
    else w.asked B (setBootOptions paramSetInProgress [progress])
  else w

theorem chassisSetBootparam_run (param : UInt8) (data : List UInt8) :
    chassisSetBootparam B param data w =
      .ok (status (B w.device (setBootOptions param data)).1,
        w.asked B (setBootOptions param data)) := rfl

theorem chassisBootparamClearAck_run (flag : UInt8) : ∃ data, chassisBootparamClearAck B flag w =
    .ok (status (B w.device (setBootOptions paramInfoAck data)).1,
      w.asked B (setBootOptions paramInfoAck data)) :=
  ⟨_, rfl⟩

theorem chassisBootparamSetInProgress_run (progress : UInt8) :
    chassisBootparamSetInProgress B progress w = .ok ((), progressed B progress w) := by
  unfold chassisBootparamSetInProgress progressed
  rw [bind_run (show (get : Talk β _) w = .ok (w, w) from rfl)]
  by_cases huse : w.vars.useProgress = true
  · rw [if_pos huse, if_pos huse, bind_run (chassisSetBootparam_run _ _)]
    by_cases hrc : status (B w.device (setBootOptions paramSetInProgress [progress])).1 ≠ 0 ∧
      progress = setInProgress
    · rw [if_pos hrc, if_pos hrc]
      rfl
    · rw [if_neg hrc, if_neg hrc]
      rfl
  · rw [if_neg huse, if_neg huse]
    rfl

end

/-! ### What is asked -/

/-- The requests between two worlds. -/
def Asks (w w' : CmdWorld Vars β) (cs : List Command) : Prop :=
  ∃ evs, w'.log = w.log ++ evs ∧ evs.map Prod.fst = cs

theorem Asks.refl (w : CmdWorld Vars β) : Asks w w [] := ⟨[], (List.append_nil _).symm, rfl⟩

theorem Asks.trans {w w1 w2 : CmdWorld Vars β} {cs cs' : List Command} (h : Asks w w1 cs)
    (h' : Asks w1 w2 cs') :
    Asks w w2 (cs ++ cs') := by
  obtain ⟨evs, hlog, rfl⟩ := h
  obtain ⟨evs', hlog', rfl⟩ := h'
  exact ⟨evs ++ evs', by rw [hlog', hlog, List.append_assoc], List.map_append⟩

theorem asks_asked (B : Bmc β) (w : CmdWorld Vars β) (c : Command) : Asks w (w.asked B c) [c] :=
  ⟨_, rfl, rfl⟩

theorem asks_progressed (B : Bmc β) (progress : UInt8) (w : CmdWorld Vars β) :
    Asks w (progressed B progress w)
      ((if w.vars.useProgress then [[progress]]
        else []).map (setBootOptions paramSetInProgress)) := by
  unfold progressed
  by_cases huse : w.vars.useProgress = true
  · rw [if_pos huse, if_pos huse]
    split <;> exact asks_asked B w _
  · rw [if_neg huse, if_neg huse]
    exact .refl w

/-- Whether later progress requests are sent is decided when the change is announced. -/
theorem useProgress_announce (B : Bmc β) (w : CmdWorld Vars β) :
    (progressed B setInProgress w).vars.useProgress = true ↔ Announced B w := by
  unfold progressed Announced
  by_cases huse : w.vars.useProgress = true
  · rw [if_pos huse]
    by_cases hrc : status (B w.device (setBootOptions paramSetInProgress [setInProgress])).1 = 0
    · rw [if_neg fun h => h.1 hrc]
      exact iff_of_true huse ⟨huse, hrc⟩
    · rw [if_pos ⟨hrc, rfl⟩]
      exact iff_of_false Bool.false_ne_true fun h => hrc h.2
  · rw [if_neg huse]
    exact iff_of_false huse fun h => huse h.1

theorem useProgress_progressed {progress : UInt8} (hp : progress ≠ setInProgress) (B : Bmc β)
    (w : CmdWorld Vars β) : (progressed B progress w).vars = w.vars := by
  unfold progressed
  split
  · rw [if_neg fun h => hp h.2]
    rfl
  · rfl

/-! ### The requests for a parameter -/

/-- The data of a Set System Boot Options request for a parameter. -/
def contents (param : UInt8) (c : Command) : Option (List UInt8) :=
  if c.netfn = netfnChassis ∧ c.cmd = cmdSetBootOptions ∧ c.data.head? = some param then
    some c.data.tail
  else none

/-- What was requested for a parameter. -/
def written (param : UInt8) (evs : List Exchange) : List (List UInt8) :=
  evs.filterMap fun e => contents param e.1

/-- The parameters that make up the boot options. -/
def bootParams : List UInt8 := [paramBootFlags, paramFlagValid, paramInitMbox]

/-- An exchange that does not change the boot options. -/
def Harmless (e : Exchange) : Prop := ∀ param ∈ bootParams, contents param e.1 = none

theorem contents_setBootOptions (param p : UInt8) (data : List UInt8) :
    contents param (setBootOptions p data) = if p &&& 0x7f = param then some data else none := by
  by_cases h : p &&& 0x7f = param <;> simp [contents, setBootOptions, h]

theorem filterMap_contents (param p : UInt8) (datas : List (List UInt8)) :
    (datas.map (setBootOptions p)).filterMap (contents param) = if p &&& 0x7f = param then datas
      else [] := by
  induction datas with
  | nil => exact (ite_self _).symm
  | cons data datas ih =>
    rw [List.map_cons, List.filterMap_cons, contents_setBootOptions, ih]
    by_cases h : p &&& 0x7f = param
    · rw [if_pos h, if_pos h, if_pos h]
    · rw [if_neg h, if_neg h, if_neg h]

/-- The requests for a parameter, from what was asked. -/
theorem written_eq (param : UInt8) (evs : List Exchange) :
    written param evs = (evs.map Prod.fst).filterMap (contents param) := by
  rw [written, List.filterMap_map]
  rfl

/-- A program that sends no request that changes the boot options, whatever it is answered. -/
def Quiet (x : Talk β α) : Prop := Moves (Says Harmless) x

/-! ### Programs that change nothing -/

section
variable {P : Exchange → Prop} {B : Bmc β}

theorem runs_chassisSetBootparam {param : UInt8} {data : List UInt8}
    (h : ∀ r, P (setBootOptions param data, r)) : Runs (Says P)
      (chassisSetBootparam B param data) :=
  .bind (Says.runs_ask h) fun _ => .pure _

theorem runs_setInProgress {progress : UInt8}
    (h : ∀ r, P (setBootOptions paramSetInProgress [progress], r)) :
    Runs (Says P) (chassisBootparamSetInProgress B progress) := by
  refine .bind (fun w => ⟨w, w, rfl, (Says P).refl w⟩) fun w => .ite (fun _ => ?_) fun _ => .pure _
  refine .bind (runs_chassisSetBootparam h) fun rc =>
    .ite (fun _ w => ⟨_, _, rfl, ?_⟩) fun _ => .pure _
  exact ⟨[], (List.append_nil _).symm, List.forall_mem_nil _⟩

/-- Requests for other parameters change nothing. -/
theorem harmless_setBootOptions {p : UInt8} {data : List UInt8} (h : p &&& 0x7f ∉ bootParams)
    (r : Option Reply) :
    Harmless (setBootOptions p data, r) := by
  intro param hparam
  rw [contents_setBootOptions, if_neg]
  rintro rfl
  exact h hparam

theorem harmless_setInProgress (progress : UInt8) : Runs (Says Harmless)
    (chassisBootparamSetInProgress B progress) :=
  runs_setInProgress (harmless_setBootOptions (by decide))

theorem harmless_clearAck (flag : UInt8) : Runs (Says Harmless) (chassisBootparamClearAck B flag) :=
  runs_chassisSetBootparam (harmless_setBootOptions (by decide))

theorem quiet_of_runs {x : Talk β α} (h : Runs (Says Harmless) x) : Quiet x :=
  fun _ _ _ hx => h.rel hx

theorem Quiet.pure (a : α) : Quiet (Pure.pure a : Talk β α) := Moves.pure a

/-- A program that has sent such a request is not quiet. -/
theorem not_quiet {x : Talk β α} {w w' : CmdWorld Vars β} {a : α} {e : Exchange} {param : UInt8}
    (h : x w = .ok (a, w')) (hlog : w.log = []) (he : e ∈ w'.log) (hparam : param ∈ bootParams)
    (hsome : contents param e.1 ≠ none) : ¬ Quiet x := by
  intro hquiet
  obtain ⟨evs, hevs, hharmless⟩ := hquiet w a w' h
  rw [hlog, List.nil_append] at hevs
  exact hsome (hharmless e (hevs ▸ he) param hparam)

end

end Ipmitool.Chassis.BootOptions
