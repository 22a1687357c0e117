import Ipmitool.Chassis.Mailbox

/-! # The commands that change the boot options

The branches `bootparam`, `bootdev` and `bootmbox` of `chassisMain` of `cmd/chassis.zig`, with the
parsers of their options (`getBootparamOptions`, `bootdevParseOptions` over `CommaTokens`) and the
functions that send what was parsed. The other branches, and those that only read, are a parameter,
and so is whether the acknowledgment can be printed.

`bootmbox set` looks at all bytes before it sends anything. `bootdev` does so with the option list,
but not with an argument that is none, and with the device only after the first two requests;
`bootparam set bootflag` goes on with what it understood of the options. `invalid_quiet_iff` says
for which invalid arguments nothing changes. -/

namespace Ipmitool.Chassis.BootCommands

open Ipmitool.Lib.Bytes Ipmitool.Lib.Machine Ipmitool.Lib.Dialogue Ipmitool.Core.Types
  Ipmitool.Core.Interface
open Ipmitool.Util.Integer Ipmitool.Util.IntegerScan Ipmitool.Util.Numbers
open Ipmitool.Chassis.BootOptions Ipmitool.Chassis.Mailbox

variable {β : Type}

/-! ### Tokens -/

def comma : UInt8 := 0x2c

/-- `CommaTokens.next`: the token, and what remains. -/
def nextToken (remaining : List UInt8) : Option (List UInt8 × List UInt8) :=
  match remaining.dropWhile (· = comma) with
  | [] => none
  | byte :: cursor =>
    some ((byte :: cursor).takeWhile (· ≠ comma), ((byte :: cursor).dropWhile (· ≠ comma)).tail)

theorem nextToken_lt {remaining token rest : List UInt8}
    (h : nextToken remaining = some (token, rest)) :
    rest.length < remaining.length := by
  unfold nextToken at h
  rcases hcursor : remaining.dropWhile (· = comma) with _ | ⟨byte, cursor⟩
  · rw [hcursor] at h
    cases h
  · rw [hcursor] at h
    obtain ⟨-, rfl⟩ := Prod.mk.inj (Option.some.inj h)
    have hle := (List.dropWhile_sublist (· = comma) (l := remaining)).length_le
    have hle' := (List.dropWhile_sublist (· ≠ comma) (l := byte :: cursor)).length_le
    rw [hcursor] at hle
    rw [List.length_tail]
    simp only [List.length_cons] at hle hle'
    omega

/-- All tokens, one after the other. -/
def tokens (remaining : List UInt8) : List (List UInt8) :=
  match _h : nextToken remaining with
  | none => []
  | some (token, rest) => token :: tokens rest
termination_by remaining.length
decreasing_by exact nextToken_lt _h

def help : List UInt8 := ascii "help"
def optkw : List UInt8 := ascii "options="
def noPrefix : List UInt8 := ascii "no-"

/-! ### `options=` of `bootparam set bootflag` -/

/-- `bootparam_options`. -/
def bootparamOptions : List (List UInt8 × UInt8) :=
  [(ascii "PEF", 0x10), (ascii "timeout", 0x08), (ascii "watchdog", 0x04), (ascii "reset", 0x02),
   (ascii "power", 0x01)]

/-- What `getBootparamOptions` gives: whether it succeeds, the bits to set and the bits to clear. -/
structure FlagOptions where
  ok : Bool := true
  setFlag : UInt8 := 0
  clrFlag : UInt8 := 0
  deriving DecidableEq

/-- The value of an option, with or without `no-`. -/
def flagValue (token : List UInt8) : Option UInt8 :=
  bootparamOptions.lookup (if noPrefix.isPrefixOf token then token.drop 3 else token)

/-- The loop of `getBootparamOptions` over the tokens. -/
def flagLoop : List (List UInt8) → FlagOptions → FlagOptions
  | [], o => o
  | token :: rest, o =>
    if token = help then { o with ok := false }
    else
      match flagValue token with
      | none => flagLoop rest { o with ok := false }
      | some value =>
        if noPrefix.isPrefixOf token then flagLoop rest { o with setFlag := o.setFlag ||| value }
        else flagLoop rest { o with clrFlag := o.clrFlag ||| value }

/-- `getBootparamOptions`. -/
def getBootparamOptions (optstring : List UInt8) : FlagOptions :=
  if optkw.isPrefixOf optstring then flagLoop (tokens (optstring.drop 8)) {} else { ok := false }

/-! ### `options=` of `bootdev` -/

/-- `BootdevOption`. -/
structure BootdevOption where
  name : List UInt8
  offset : ℕ
  mask : UInt8
  value : UInt8

/-- `bootdev_options`. -/
def bootdevOptions : List BootdevOption :=
  [⟨ascii "valid", 0, 0x80, 0x80⟩, ⟨ascii "persistent", 0, 0x40, 0x40⟩,
    ⟨ascii "efiboot", 0, 0x20, 0x20⟩,
   ⟨ascii "clear-cmos", 1, 0x80, 0x80⟩, ⟨ascii "lockkbd", 1, 0x40, 0x40⟩,
   ⟨ascii "screenblank", 1, 0x02, 0x02⟩, ⟨ascii "lockoutreset", 1, 0x01, 0x01⟩,
   ⟨ascii "lockout_power", 2, 0x80, 0x80⟩, ⟨ascii "verbose=default", 2, 0x60, 0x00⟩,
   ⟨ascii "verbose=no", 2, 0x60, 0x20⟩, ⟨ascii "verbose=yes", 2, 0x60, 0x40⟩,
   ⟨ascii "force_pet", 2, 0x10, 0x10⟩, ⟨ascii "upw_bypass", 2, 0x08, 0x08⟩,
   ⟨ascii "lockout_sleep", 2, 0x04, 0x04⟩, ⟨ascii "cons_redirect=default", 2, 0x03, 0x00⟩,
   ⟨ascii "cons_redirect=skip", 2, 0x03, 0x01⟩, ⟨ascii "cons_redirect=enable", 2, 0x03, 0x02⟩]

/-- An option of `bootdev`. -/
def findOption (token : List UInt8) : Option BootdevOption :=
  bootdevOptions.find? fun op => op.name = token

/-- The loop of `bootdevParseOptions` over the tokens: whether there was no error, and the flags. -/
def optionLoop : List (List UInt8) → Bool × List UInt8 → Bool × List UInt8
  | [], s => s
  | token :: rest, (ok, flags) =>
    if token = help then (false, flags)
    else
      match findOption token with
      | none => optionLoop rest (false, flags)
      | some op =>
        optionLoop rest (ok, flags.modify op.offset fun byte => byte &&& ~~~op.mask ||| op.value)

/-- The flags before any option. -/
def noFlags : List UInt8 := [0, 0, 0, 0, 0]

/-- `bootdevParseOptions`: whether it succeeds, and the flags. -/
def bootdevParseOptions (optstring : List UInt8) : Bool × List UInt8 :=
  optionLoop (tokens optstring) (true, noFlags)

/-! ### Boot device and flag-valid bits -/

/-- The names of the devices in `chassisSetBootdevTo`. -/
def bootDevices : List (List UInt8 × UInt8) :=
  [(ascii "none", 0x00), (ascii "pxe", 0x04), (ascii "force_pxe", 0x04), (ascii "disk", 0x08),
   (ascii "force_disk", 0x08), (ascii "safe", 0x0c), (ascii "force_safe", 0x0c),
   (ascii "diag", 0x10), (ascii "force_diag", 0x10), (ascii "cdrom", 0x14),
   (ascii "force_cdrom", 0x14), (ascii "remotecd", 0x20), (ascii "force_remotecd", 0x20),
   (ascii "floppy", 0x3c), (ascii "force_floppy", 0x3c), (ascii "bios", 0x18),
   (ascii "force_bios", 0x18)]

/-- The bits of a device, no argument being none of the devices. -/
def deviceBits : Option (List UInt8) → Option UInt8
  | none => some 0x00
  | some arg => bootDevices.lookup arg

/-- The boot flags with a device, marked as valid. -/
def flagsFor (bits : UInt8) (iflags : Option (List UInt8)) : List UInt8 :=
  ((iflags.getD noFlags).modify 1 (· ||| bits)).modify 0 (· ||| 0x80)

/-- What `chassisSetBootdevTo` and `chassisSetBootvalid` have in common: a change is announced, the
acknowledgment of the BIOS is cleared, and whatever comes of it, the completion is announced. -/
def bracketed (B : Bmc β) (change : ℤ → Talk β ℤ) : Talk β ℤ := do
  chassisBootparamSetInProgress B setInProgress
  let acked ← chassisBootparamClearAck B biosPostAck
  let rc ← change acked
  chassisBootparamSetInProgress B setComplete
  return rc

/-- The request for the boot flags, and what follows it. -/
def sendBootFlags (B : Bmc β) (stdout : Bool) (flags : List UInt8) : Talk β ℤ := do
  let rc ← chassisSetBootparam B paramBootFlags flags
  if rc = 0 then
    chassisBootparamSetInProgress B commitWrite
    return if stdout then rc else -1
  else return rc

/-- `chassisSetBootdevTo` behind the acknowledgment. -/
def setDevice (B : Bmc β) (stdout : Bool) (arg : Option (List UInt8))
    (iflags : Option (List UInt8)) (rc : ℤ) : Talk β ℤ :=
  if 0 ≤ rc then
    match deviceBits arg with
    | none => return -1
    | some bits => sendBootFlags B stdout (flagsFor bits iflags)
  else return rc

/-- `chassisSetBootdev`, which returns −1 if the acknowledgment cannot be printed. -/
def chassisSetBootdev (B : Bmc β) (stdout : Bool) (arg : Option (List UInt8))
    (iflags : Option (List UInt8)) : Talk β ℤ :=
  bracketed B (setDevice B stdout arg iflags)

/-- `chassisGetBootvalid`: none stands for −1. -/
def chassisGetBootvalid (B : Bmc β) : Talk β (Option UInt8) := do
  let rsp ← sendrecv B { netfn := netfnChassis, cmd := cmdGetBootOptions, data := [paramFlagValid &&& 0x7f, 0, 0] }
  return rsp.bind fun r => if r.ccode ≠ 0 then none else some (r.data 2)

/-- The request for the flag-valid bits, and what follows it. -/
def sendValid (B : Bmc β) (setFlag clrFlag : UInt8) : Option UInt8 → Talk β ℤ
  | none => return -1
  | some bootvalid => do
    let rc ← chassisSetBootparam B paramFlagValid [bootvalid &&& ~~~clrFlag ||| setFlag]
    if rc = 0 then
      chassisBootparamSetInProgress B commitWrite
      return rc
    else return rc

/-- `chassisSetBootvalid` behind the acknowledgment. -/
def setValid (B : Bmc β) (setFlag clrFlag : UInt8) (rc : ℤ) : Talk β ℤ :=
  if rc = 0 then do
    let bootvalid ← chassisGetBootvalid B
    sendValid B setFlag clrFlag bootvalid
  else return rc

/-- `chassisSetBootvalid`. -/
def chassisSetBootvalid (B : Bmc β) (setFlag clrFlag : UInt8) : Talk β ℤ :=
  bracketed B (setValid B setFlag clrFlag)

/-! ### The commands -/

/-- The rest of the program: whether standard output takes the acknowledgment, how the C library
reads numbers, and the branches that are not about changing the boot options. -/
structure Env (β : Type) where
  stdout : Bool
  dialect : Dialect
  others : List (List UInt8) → Talk β ℤ

/-- `bootparam set bootflag`, with the device and what stands behind it. -/
def setBootflag (B : Bmc β) (stdout : Bool) (device : List UInt8) (rest : List (List UInt8)) :
    Talk β ℤ := do
  let options := if rest.length = 1 then getBootparamOptions (rest.headD []) else {}
  let rc ← chassisSetBootdev B stdout (some device) none
  if rest.length = 1 ∧ (options.setFlag ≠ 0 ∨ options.clrFlag ≠ 0) then
    chassisSetBootvalid B options.setFlag options.clrFlag
  else return rc

/-- The options of `bootdev`, from the argument behind the device. -/
def bootdevOptstr : List (List UInt8) → Option (List UInt8)
  | [] => none
  | arg :: _ =>
    if arg = ascii "clear-cmos=yes" then some (ascii "clear-cmos")
    else if optkw.isPrefixOf arg then some (arg.drop 8)
    else none

/-- `bootdev`, with the device and what stands behind it. -/
def bootdev (B : Bmc β) (stdout : Bool) (device : List UInt8)
    (rest : List (List UInt8)) : Talk β ℤ :=
  match bootdevOptstr rest with
  | none => chassisSetBootdev B stdout (some device) none
  | some optstr =>
    if (bootdevParseOptions optstr).1 then
      chassisSetBootdev B stdout (some device) (some (bootdevParseOptions optstr).2)
    else return -1

/-- `str2short`: none if it does not return zero. -/
def str2short (dialect : Dialect) (source : List UInt8) : Except Fault (Option Int16) := do
  let r ← Util.IntegerScan.scan ⟨true, true⟩ ⟨0, radix_zero⟩ source dialect isSpace
  return if r.stop ≠ source.length ∨ r.range ∨ r.value < -2 ^ 15 ∨ 2 ^ 15 - 1 < r.value then none
    else some (Int16.ofInt r.value)

/-- The arguments of `bootmbox set` behind the word `text`. -/
def textArgs : List (List UInt8) → Bool × List (List UInt8)
  | [] => (false, [])
  | arg :: argv => if arg = ascii "text" then (true, argv) else (false, arg :: argv)

/-- `bootmbox set` from the block on. -/
def setMailbox (B : Bmc β) (dialect : Dialect) (useText : Bool) : List (List UInt8) → Talk β ℤ
  | [] => chassisSetBootmailbox B dialect (-1) useText []
  | arg :: argv =>
    if arg = ascii "block" then
      match argv with
      | [] => return 0xff
      | number :: argv => do
        match ← liftM (str2short dialect number) with
        | none => return 0xff
        | some block => chassisSetBootmailbox B dialect block useText argv
    else chassisSetBootmailbox B dialect (-1) useText (arg :: argv)

/-- The branches of `chassisMain` that change the boot options. -/
def chassisMain (B : Bmc β) (env : Env β) (argv : List (List UInt8)) : Talk β ℤ :=
  match argv with
  | [] => env.others argv
  | word :: args =>
    if word = ascii "bootparam" then
      match args with
      | what :: option :: more =>
        if what = help then return -1
        else if what = ascii "get" then env.others argv
        else if what = ascii "set" then
          match more with
          | [] => return -1
          | device :: rest =>
            if option = help ∨ option ≠ ascii "bootflag" then return -1
            else setBootflag B env.stdout device rest
        else return -1
      | _ => return -1
    else if word = ascii "bootdev" then
      match args with
      | [] => return -1
      | device :: rest => if device = help then return -1 else bootdev B env.stdout device rest
    else if word = ascii "bootmbox" then
      match args with
      | [] => return 0xff
      | what :: args =>
        if what = help then return 0xff
        else if what = ascii "get" then env.others argv
        else if what = ascii "set" then setMailbox B env.dialect (textArgs args).1 (textArgs args).2
        else return 0xff
    else env.others argv

/-! ### Arguments -/

/-- The arguments of a command that changes the boot options. -/
inductive Invocation where
  | bootflag (device : List UInt8) (rest : List (List UInt8))
  | bootdev (device : List UInt8) (rest : List (List UInt8))
  | bootmboxSet (args : List (List UInt8))

/-- The argument vector of `chassisMain`. -/
def Invocation.argv : Invocation → List (List UInt8)
  | .bootflag device rest => ascii "bootparam" :: ascii "set" :: ascii "bootflag" :: device :: rest
  | .bootdev device rest => ascii "bootdev" :: device :: rest
  | .bootmboxSet args => ascii "bootmbox" :: ascii "set" :: args

/-- The name of a boot device. -/
def IsDevice (arg : List UInt8) : Prop := (deviceBits (some arg)).isSome = true

instance (arg : List UInt8) : Decidable (IsDevice arg) := inferInstanceAs (Decidable (_ = true))

/-- An options argument of `bootparam set bootflag` with legal options only. -/
def LegalFlags (arg : List UInt8) : Prop :=
  optkw.isPrefixOf arg = true ∧ ∀ token ∈ tokens (arg.drop 8), token = help ∨
    (flagValue token).isSome = true

/-- An argument of `bootdev` behind the device, with legal options only. -/
def LegalOptions (arg : List UInt8) : Prop :=
  arg = ascii "clear-cmos=yes" ∨ arg = ascii "clear-cmos=no" ∨
    optkw.isPrefixOf arg = true ∧ ∀ token ∈ tokens (arg.drop 8), token = help ∨
      (findOption token).isSome = true

/-- What stands behind the block and the manufacturer. -/
def behindPen : List (List UInt8) → List (List UInt8)
  | [] => []
  | arg :: argv => if arg = ascii "block" then argv.drop 2 else argv

/-- The arguments of `bootmbox set` that are to be bytes, unless there is a text. -/
def byteArgs (args : List (List UInt8)) : List (List UInt8) :=
  if (textArgs args).1 then [] else behindPen (textArgs args).2

/-- **Invalid arguments**: a device, an option or a byte that is none. -/
def Invocation.Invalid : Invocation → Prop
  | .bootflag device rest => ¬ IsDevice device ∨ ∃ arg ∈ rest, ¬ LegalFlags arg
  | .bootdev device rest => ¬ IsDevice device ∨ ∃ arg ∈ rest, ¬ LegalOptions arg
  | .bootmboxSet args => ∃ arg ∈ byteArgs args, str2uchar arg = none

/-- The tokens of an options argument before a `help`. -/
def beforeHelp (arg : List UInt8) : List (List UInt8) :=
  if optkw.isPrefixOf arg then (tokens (arg.drop 8)).takeWhile (· ≠ help) else []

/-- The arguments for which the commands find what is invalid before they change anything. -/
def Invocation.Checked : Invocation → Prop
  | .bootflag device rest =>
    ¬ IsDevice device ∧ ∀ arg, rest = [arg] → ∀ token ∈ beforeHelp arg, flagValue token = none
  | .bootdev device rest =>
    ¬ IsDevice device ∨ ∃ arg, rest.head? = some arg ∧ optkw.isPrefixOf arg = true ∧
      ∃ token ∈ tokens (arg.drop 8), token = help ∨ findOption token = none
  | .bootmboxSet _ => True

/-! ### The parsers -/

/-- There are bits to change. -/
def FlagOptions.Any (o : FlagOptions) : Prop := o.setFlag ≠ 0 ∨ o.clrFlag ≠ 0

instance (o : FlagOptions) : Decidable o.Any := inferInstanceAs (Decidable (_ ∨ _))

theorem flagValue_ne_zero {token : List UInt8} {value : UInt8} (h : flagValue token = some value) :
    value ≠ 0 := by
  have hall : ∀ option ∈ bootparamOptions, option.2 ≠ 0 := by decide
  unfold flagValue at h
  rw [List.lookup_eq_some_iff] at h
  obtain ⟨pre, post, hoptions, -⟩ := h
  exact hall _ (hoptions ▸ List.mem_append_right _ List.mem_cons_self)

/-- Any option before a `help` gives bits, be there errors or not. -/
theorem flagLoop_any (ts : List (List UInt8)) : ∀ o : FlagOptions, (flagLoop ts o).Any ↔
    o.Any ∨ ∃ token ∈ ts.takeWhile (· ≠ help), flagValue token ≠ none := by
  induction ts with
  | nil => simp [flagLoop]
  | cons token ts ih =>
    intro o
    rw [flagLoop]
    by_cases hhelp : token = help
    · simp [hhelp, FlagOptions.Any]
    · rw [if_neg hhelp, List.takeWhile_cons_of_pos (by simpa using hhelp)]
      rcases hvalue : flagValue token with _ | value
      · change (flagLoop ts { o with ok := false }).Any ↔ _
        rw [ih]
        simp [hvalue, FlagOptions.Any]
      · have hne := flagValue_ne_zero hvalue
        change (if noPrefix.isPrefixOf token = true then flagLoop ts _ else flagLoop ts _).Any ↔ _
        by_cases hno : noPrefix.isPrefixOf token = true
        · rw [if_pos hno, ih]
          simp [hvalue, FlagOptions.Any, hne]
        · rw [if_neg hno, ih]
          simp [hvalue, FlagOptions.Any, hne]

/-- The options that are understood are those before a `help`. -/
theorem getBootparamOptions_any (arg : List UInt8) :
    (getBootparamOptions arg).Any ↔ ∃ token ∈ beforeHelp arg, flagValue token ≠ none := by
  unfold getBootparamOptions beforeHelp
  by_cases hkw : optkw.isPrefixOf arg = true
  · rw [if_pos hkw, if_pos hkw, flagLoop_any]
    simp [FlagOptions.Any]
  · rw [if_neg hkw, if_neg hkw]
    simp [FlagOptions.Any]

/-- An option list of `bootdev` is accepted if there is no error in it, and no `help`. -/
theorem optionLoop_ok (ts : List (List UInt8)) : ∀ ok flags, (optionLoop ts (ok, flags)).1 = true ↔
    ok = true ∧ ∀ token ∈ ts, token ≠ help ∧ findOption token ≠ none := by
  induction ts with
  | nil => simp [optionLoop]
  | cons token ts ih =>
    intro ok flags
    rw [optionLoop]
    by_cases hhelp : token = help
    · simp [hhelp]
    · rw [if_neg hhelp]
      rcases hop : findOption token with _ | op
      · simp [ih, hop]
      · simp [ih, hop, hhelp]

/-! ### What stays sent -/

/-- A program that ends, whatever it is answered. -/
def Ends {α : Type} (x : Talk β α) : Prop := Runs (Says fun _ => True) x

/-- From every world a program sends a request that is accepted by a device that accepts
everything. -/
def Sends {α : Type} (x : Talk β α) (param : UInt8) : Prop :=
  ∀ w, ∃ a w' e, x w = .ok (a, w') ∧ e ∈ w'.log ∧ contents param e.1 ≠ none

section
variable {α : Type} {B : Bmc β} {param : UInt8}

theorem Ends.keeps {x : Talk β α} (h : Ends x) (w : CmdWorld Vars β) :
    ∃ a w', x w = .ok (a, w') ∧ ∀ e ∈ w.log, e ∈ w'.log := by
  obtain ⟨a, w', hx, evs, hlog, -⟩ := h w
  exact ⟨a, w', hx, fun e he => hlog ▸ List.mem_append_left _ he⟩

theorem Sends.bind_left {γ : Type} {x : Talk β α} {f : α → Talk β γ} (h : Sends x param)
    (hf : ∀ a, Ends (f a)) :
    Sends (x >>= f) param := by
  intro w
  obtain ⟨a, w1, e, hx, he, hcontents⟩ := h w
  obtain ⟨c, w2, hfa, hkeep⟩ := (hf a).keeps w1
  exact ⟨c, w2, e, (bind_run hx).trans hfa, hkeep e he, hcontents⟩

theorem ends_setBootparam (param : UInt8) (data : List UInt8) :
    Ends (chassisSetBootparam B param data) :=
  runs_chassisSetBootparam fun _ => trivial

theorem ends_setInProgress (progress : UInt8) : Ends (chassisBootparamSetInProgress B progress) :=
  runs_setInProgress fun _ => trivial

theorem ends_bracketed {change : ℤ → Talk β ℤ} (h : ∀ rc, Ends (change rc)) :
    Ends (bracketed B change) :=
  .bind (ends_setInProgress _) fun _ => .bind (ends_setBootparam _ _) fun acked =>
    .bind (h acked) fun _ => .bind (ends_setInProgress _) fun _ => .pure _

theorem harmless_bracketed {change : ℤ → Talk β ℤ} (h : ∀ rc, Runs (Says Harmless) (change rc)) :
    Runs (Says Harmless) (bracketed B change) :=
  .bind (harmless_setInProgress _) fun _ => .bind (harmless_clearAck _) fun acked =>
    .bind (h acked) fun _ => .bind (harmless_setInProgress _) fun _ => .pure _

/-- A change that follows an accepted acknowledgment is sent. -/
theorem sends_bracketed {change : ℤ → Talk β ℤ} (h : Sends (change 0) param) :
    Sends (bracketed accepting change) param := by
  intro w
  have hsends := h.bind_left fun rc =>
    Runs.bind (ends_setInProgress (B := accepting) setComplete) fun _ => .pure rc
  obtain ⟨data, hack⟩ :=
    chassisBootparamClearAck_run (B := accepting) (w := progressed accepting setInProgress w)
      biosPostAck
  obtain ⟨rc, w', e, hrun, he⟩ := hsends ((progressed accepting setInProgress w).asked accepting
    (setBootOptions paramInfoAck data))
  refine ⟨rc, w', e, ?_, he⟩
  unfold bracketed
  rw [bind_run (chassisBootparamSetInProgress_run _), bind_run hack]
  exact hrun

theorem sends_setBootparam {data : List UInt8} (h : param &&& 0x7f = param) :
    Sends (chassisSetBootparam B param data) param := by
  intro w
  refine ⟨_, _, _, chassisSetBootparam_run param data,
    List.mem_append_right _ (List.mem_singleton_self _), ?_⟩
  change contents param (setBootOptions param data) ≠ none
  rw [contents_setBootOptions, if_pos h]
  exact Option.some_ne_none _

theorem ends_sendBootFlags (stdout : Bool) (flags : List UInt8) :
    Ends (sendBootFlags B stdout flags) :=
  .bind (ends_setBootparam _ _) fun _ =>
    .ite (fun _ => .bind (ends_setInProgress _) fun _ => .pure _) fun _ => .pure _

theorem ends_chassisSetBootvalid (setFlag clrFlag : UInt8) : Ends (chassisSetBootvalid B setFlag clrFlag) := by
  refine ends_bracketed fun rc => .ite (fun _ => ?_) fun _ => .pure _
  refine .bind (.bind (Says.runs_ask fun _ => trivial) fun rsp => .pure _) fun bootvalid => ?_
  rcases bootvalid with _ | bootvalid
  · exact .pure _
  · exact .bind (ends_setBootparam _ _) fun rc => .ite
      (fun _ => .bind (ends_setInProgress _) fun _ => .pure _) fun _ => .pure _

theorem ends_chassisSetBootdev (stdout : Bool) (arg iflags : Option (List UInt8)) :
    Ends (chassisSetBootdev B stdout arg iflags) := by
  refine ends_bracketed fun rc => .ite (fun _ => ?_) fun _ => .pure _
  rcases deviceBits arg with _ | bits
  · exact .pure _
  · exact ends_sendBootFlags stdout _

theorem harmless_setBootdev {stdout : Bool} {arg iflags : Option (List UInt8)}
    (h : deviceBits arg = none) :
    Runs (Says Harmless) (chassisSetBootdev B stdout arg iflags) := by
  refine harmless_bracketed fun rc => ?_
  unfold setDevice
  rw [h]
  exact .ite (fun _ => .pure _) fun _ => .pure _

theorem sends_setBootdev {stdout : Bool} {arg iflags : Option (List UInt8)} {bits : UInt8}
    (h : deviceBits arg = some bits) :
    Sends (chassisSetBootdev (accepting : Bmc β) stdout arg iflags) paramBootFlags := by
  refine sends_bracketed ?_
  unfold setDevice
  rw [if_pos (le_refl 0), h]
  exact (sends_setBootparam (by decide)).bind_left fun rc => .ite
    (fun _ => .bind (ends_setInProgress _) fun _ => .pure _) fun _ => .pure _

theorem sends_setBootvalid (setFlag clrFlag : UInt8) :
    Sends (chassisSetBootvalid (accepting : Bmc β) setFlag clrFlag) paramFlagValid := by
  refine sends_bracketed ?_
  unfold setValid
  rw [if_pos rfl]
  have hsends (bootvalid : UInt8) : Sends (sendValid (accepting : Bmc β) setFlag clrFlag (some bootvalid)) paramFlagValid :=
    (sends_setBootparam (by decide)).bind_left fun rc => .ite
      (fun _ => .bind (ends_setInProgress _) fun _ => .pure _) fun _ => .pure _
  intro w
  obtain ⟨rc, w', e, hrun, he⟩ := hsends 0 (w.asked accepting
    { netfn := netfnChassis, cmd := cmdGetBootOptions, data := [paramFlagValid &&& 0x7f, 0, 0] })
  exact ⟨rc, w', e, hrun, he⟩

theorem Sends.bind_right {γ : Type} {x : Talk β α} {f : α → Talk β γ} (hx : Ends x)
    (h : ∀ a, Sends (f a) param) :
    Sends (x >>= f) param := by
  intro w
  obtain ⟨a, w1, hrun, -⟩ := hx.keeps w
  obtain ⟨c, w2, e, hfa, he⟩ := h a w1
  exact ⟨c, w2, e, (bind_run hrun).trans hfa, he⟩

theorem mem_bootFlags : paramBootFlags ∈ bootParams := by decide

theorem mem_flagValid : paramFlagValid ∈ bootParams := by decide

theorem Sends.not_quiet [Nonempty β] {x : Talk β α} (hparam : param ∈ bootParams)
    (h : Sends x param) : ¬ Quiet x := by
  obtain ⟨a, w', e, hrun, he, hcontents⟩ := h { vars := ⟨true⟩, device := Classical.arbitrary β }
  exact BootOptions.not_quiet hrun rfl he hparam hcontents

end

/-! ### The three commands -/

section
variable {B : Bmc β} {stdout : Bool} {device : List UInt8} {rest : List (List UInt8)}

/-- `bootparam set bootflag` changes nothing if the device is none and no option is understood. -/
theorem quiet_setBootflag_iff [Nonempty β] :
    (∀ B : Bmc β, Quiet (setBootflag B stdout device rest)) ↔
    ¬ IsDevice device ∧ ∀ arg, rest = [arg] → ∀ token ∈ beforeHelp arg, flagValue token = none := by
  constructor
  · intro hquiet
    refine ⟨fun hdevice => ?_, ?_⟩
    · obtain ⟨bits, hbits⟩ := Option.isSome_iff_exists.mp hdevice
      refine absurd (hquiet accepting) (Sends.not_quiet mem_bootFlags ?_)
      exact (sends_setBootdev hbits).bind_left fun rc =>
        .ite (fun _ => ends_chassisSetBootvalid _ _) fun _ => .pure _
    · rintro arg rfl token htoken
      by_contra hvalue
      have hany := (getBootparamOptions_any arg).mpr ⟨token, htoken, hvalue⟩
      refine absurd (hquiet accepting)
        (Sends.not_quiet mem_flagValid (.bind_right (ends_chassisSetBootdev _ _ _) fun rc => ?_))
      rw [if_pos ⟨rfl, hany⟩]
      exact sends_setBootvalid _ _
  · rintro ⟨hdevice, hoptions⟩ B
    refine .bind (quiet_of_runs (harmless_setBootdev (Option.not_isSome_iff_eq_none.mp hdevice)))
      fun rc => ?_
    refine .ite (fun hany => ?_) fun _ => .pure _
    obtain ⟨arg, rfl⟩ := List.length_eq_one_iff.mp hany.1
    obtain ⟨token, htoken, hvalue⟩ := (getBootparamOptions_any arg).mp hany.2
    exact absurd (hoptions arg rfl token htoken) hvalue

theorem quiet_chassisSetBootdev_iff [Nonempty β] {iflags : Option (List UInt8)} :
    (∀ B : Bmc β, Quiet (chassisSetBootdev B stdout (some device) iflags)) ↔ ¬ IsDevice device := by
  refine ⟨fun hquiet hdevice => ?_, fun hdevice B =>
    quiet_of_runs (harmless_setBootdev (Option.not_isSome_iff_eq_none.mp hdevice))⟩
  obtain ⟨bits, hbits⟩ := Option.isSome_iff_exists.mp hdevice
  exact Sends.not_quiet mem_bootFlags (sends_setBootdev hbits) (hquiet accepting)

theorem bootdevParseOptions_ok (optstr : List UInt8) : (bootdevParseOptions optstr).1 = true ↔
    ∀ token ∈ tokens optstr, token ≠ help ∧ findOption token ≠ none := by
  rw [bootdevParseOptions, optionLoop_ok]
  exact and_iff_right rfl

/-- `bootdev` changes nothing if the device is none or the option list is refused. -/
theorem quiet_bootdev_iff [Nonempty β] : (∀ B : Bmc β, Quiet (bootdev B stdout device rest)) ↔
    ¬ IsDevice device ∨ ∃ optstr, bootdevOptstr rest = some optstr ∧
    ¬ (bootdevParseOptions optstr).1 = true := by
  unfold bootdev
  rcases bootdevOptstr rest with _ | optstr
  · refine quiet_chassisSetBootdev_iff.trans (or_iff_left ?_).symm
    rintro ⟨optstr, h, -⟩
    cases h
  · by_cases hok : (bootdevParseOptions optstr).1 = true
    · simp only [if_pos hok]
      refine quiet_chassisSetBootdev_iff.trans (or_iff_left ?_).symm
      rintro ⟨optstr', h, hrefused⟩
      exact hrefused (Option.some.inj h ▸ hok)
    · simp only [if_neg hok]
      exact iff_of_true (fun _ => .pure _) (.inr ⟨optstr, rfl, hok⟩)

theorem nextToken_plain {text : List UInt8} (hne : text ≠ []) (h : ∀ byte ∈ text, byte ≠ comma) :
    nextToken text = some (text, []) := by
  have hall : ∀ byte ∈ text, decide (byte ≠ comma) = true :=
    fun byte hb => decide_eq_true (h byte hb)
  rcases text with _ | ⟨byte, text⟩
  · exact absurd rfl hne
  · have hhead : ¬ decide (byte = comma) = true :=
      fun hc => h byte List.mem_cons_self (of_decide_eq_true hc)
    have hdrop : (byte :: text).dropWhile (· = comma) = byte :: text :=
      List.dropWhile_cons_of_neg hhead
    unfold nextToken
    rw [hdrop]
    change some (_, _) = _
    rw [List.takeWhile_eq_self_iff.mpr hall, List.dropWhile_eq_nil_iff.mpr hall]
    rfl

theorem tokens_plain {text : List UInt8} (hne : text ≠ []) (h : ∀ byte ∈ text, byte ≠ comma) :
    tokens text = [text] := by
  rw [tokens]
  split
  next hnone =>
    rw [nextToken_plain hne h] at hnone
    cases hnone
  next token rest hsome =>
    rw [nextToken_plain hne h] at hsome
    obtain ⟨rfl, rfl⟩ := Prod.mk.inj (Option.some.inj hsome)
    rw [tokens]
    rfl

/-- An option list is refused for an option that is none, and for `help`. -/
theorem refused_iff :
    (∃ optstr, bootdevOptstr rest = some optstr ∧ ¬ (bootdevParseOptions optstr).1 = true) ↔
    ∃ arg, rest.head? = some arg ∧ optkw.isPrefixOf arg = true ∧
      ∃ token ∈ tokens (arg.drop 8), token = help ∨ findOption token = none := by
  rcases rest with _ | ⟨arg, rest⟩
  · simp [bootdevOptstr]
  · simp only [bootdevOptstr, bootdevParseOptions_ok, List.head?_cons, Option.some.injEq]
    by_cases hclear : arg = ascii "clear-cmos=yes"
    · have hplain : tokens (ascii "clear-cmos") = [ascii "clear-cmos"] :=
        tokens_plain (by decide +kernel) (by decide +kernel)
      refine iff_of_false ?_ ?_
      · rintro ⟨optstr, h, hrefused⟩
        rw [if_pos hclear, Option.some.injEq] at h
        refine hrefused fun token htoken => ?_
        rw [← h, hplain, List.mem_singleton] at htoken
        subst htoken
        decide
      · rintro ⟨_, rfl, hkw, -⟩
        rw [hclear] at hkw
        exact absurd hkw (by decide)
    · rw [if_neg hclear]
      by_cases hkw : optkw.isPrefixOf arg = true
      · simp only [hkw, if_true, true_and, Option.some.injEq, exists_eq_left', not_forall,
          exists_prop, Classical.not_and_iff_not_or_not, not_not, ne_eq]
      · simp [hkw]

theorem quiet_chassisSetBootmailbox {dialect : Dialect} {block : Int16} {args : List (List UInt8)}
    (h : ∃ arg ∈ args.tail, str2uchar arg = none) :
    Quiet (chassisSetBootmailbox B dialect block false args) := by
  rcases args with _ | ⟨pen, argv⟩
  · exact .pure _
  · refine .bind (.lift _) fun iana => ?_
    rcases iana with _ | iana
    · exact .pure _
    · refine .ite (fun _ => .pure _) fun _ => .ite (fun _ => .pure _) fun _ =>
        .ite (fun _ => .pure _) fun hbytes => ?_
      obtain ⟨arg, harg, hnone⟩ := h
      refine absurd ⟨Bool.false_ne_true, ?_⟩ hbytes
      exact List.any_eq_true.mpr ⟨arg, harg, Option.isNone_iff_eq_none.mpr hnone⟩

theorem quiet_setMailbox {dialect : Dialect} {args : List (List UInt8)}
    (h : ∃ arg ∈ byteArgs args, str2uchar arg = none) :
    Quiet (setMailbox B dialect (textArgs args).1 (textArgs args).2) := by
  unfold byteArgs at h
  generalize textArgs args = parsed at h ⊢
  obtain ⟨useText, argv⟩ := parsed
  by_cases htext : useText = true
  · rw [if_pos htext] at h
    obtain ⟨arg, harg, -⟩ := h
    cases harg
  · rw [if_neg htext] at h
    obtain rfl := Bool.eq_false_of_not_eq_true htext
    rcases argv with _ | ⟨word, argv⟩
    · exact .pure _
    · change Quiet (if word = ascii "block" then _ else _)
      change ∃ arg ∈ behindPen (word :: argv), str2uchar arg = none at h
      by_cases hblock : word = ascii "block"
      · rw [behindPen, if_pos hblock] at h
        rw [if_pos hblock]
        rcases argv with _ | ⟨number, argv⟩
        · exact .pure _
        · refine .bind (.lift _) fun block => ?_
          rcases block with _ | block
          · exact .pure _
          · exact quiet_chassisSetBootmailbox (List.drop_one ▸ h)
      · rw [behindPen, if_neg hblock] at h
        rw [if_neg hblock]
        exact quiet_chassisSetBootmailbox h

end

/-! ### Invalid arguments -/

/-- The rest of the program, if it does nothing. -/
def silent : Env Unit := { stdout := true, dialect := .gnu, others := fun _ => return -1 }

theorem chassisMain_bootflag (B : Bmc β) (env : Env β) (device : List UInt8)
    (rest : List (List UInt8)) :
    chassisMain B env (Invocation.bootflag device rest).argv =
      setBootflag B env.stdout device rest := rfl

theorem chassisMain_bootdev (B : Bmc β) (env : Env β) (device : List UInt8)
    (rest : List (List UInt8)) :
    chassisMain B env (Invocation.bootdev device rest).argv =
      if device = help then pure (-1) else bootdev B env.stdout device rest := rfl

theorem chassisMain_bootmboxSet (B : Bmc β) (env : Env β) (args : List (List UInt8)) :
    chassisMain B env (Invocation.bootmboxSet args).argv =
      setMailbox B env.dialect (textArgs args).1 (textArgs args).2 := rfl

/-- **Invalid arguments change nothing** exactly if the command finds what is invalid before it
changes anything: `bootmbox set` always, `bootdev` unless the device is one and the argument behind
it is no option list with an error or a `help`, and `bootparam set bootflag` if the device is none
and nothing is understood of the only argument behind it. -/
theorem invalid_quiet_iff [Nonempty β] (env : Env β) (inv : Invocation) (h : inv.Invalid) :
    (∀ B : Bmc β, Quiet (chassisMain B env inv.argv)) ↔ inv.Checked := by
  cases inv with
  | bootflag device rest =>
    simp only [chassisMain_bootflag]
    exact quiet_setBootflag_iff
  | bootdev device rest =>
    simp only [chassisMain_bootdev]
    by_cases hhelp : device = help
    · simp only [if_pos hhelp]
      refine iff_of_true (fun _ => .pure _) (.inl ?_)
      rw [hhelp]
      decide
    · simp only [if_neg hhelp]
      exact quiet_bootdev_iff.trans (or_congr_right refused_iff)
  | bootmboxSet args =>
    simp only [chassisMain_bootmboxSet]
    exact iff_of_true (fun _ => quiet_setMailbox h) trivial

/-- A device name with a slip, and no options: the boot flags stay as they are. -/
theorem invalid_quiet_iff_misspelt :
    (∀ B : Bmc Unit, Quiet (chassisMain B silent (Invocation.bootflag (ascii "flopy") []).argv)) ↔
      (Invocation.bootflag (ascii "flopy") []).Checked :=
  invalid_quiet_iff silent (.bootflag (ascii "flopy") []) (.inl (by decide))

/-- `bootparam set bootflag` ignores an option that is none, and `bootdev` an argument that is none;
and a device that is none does not keep `bootparam set bootflag` from setting the flag-valid
bits. -/
theorem invalid_changes :
    ((Invocation.bootflag (ascii "pxe") [ascii "options=bogus"]).Invalid ∧
      ¬ ∀ B : Bmc Unit, Quiet (chassisMain B silent
        (Invocation.bootflag (ascii "pxe") [ascii "options=bogus"]).argv)) ∧
    ((Invocation.bootdev (ascii "pxe") [ascii "bogus"]).Invalid ∧
      ¬ ∀ B : Bmc Unit,
      Quiet (chassisMain B silent (Invocation.bootdev (ascii "pxe") [ascii "bogus"]).argv)) ∧
    (Invocation.bootflag (ascii "flopy") [ascii "options=PEF"]).Invalid ∧
      ¬ ∀ B : Bmc Unit, Quiet (chassisMain B silent
        (Invocation.bootflag (ascii "flopy") [ascii "options=PEF"]).argv) := by
  have hbogus : tokens ((ascii "options=bogus").drop 8) = [ascii "bogus"] :=
    tokens_plain (by decide +kernel) (by decide +kernel)
  have hpef : tokens ((ascii "options=PEF").drop 8) = [ascii "PEF"] :=
    tokens_plain (by decide +kernel) (by decide +kernel)
  refine ⟨⟨.inr ⟨_, List.mem_singleton_self _, fun hlegal => ?_⟩, fun hquiet => ?_⟩,
    ⟨.inr ⟨_, List.mem_singleton_self _, fun hlegal => ?_⟩, fun hquiet => ?_⟩, .inl (by decide),
    fun hquiet => ?_⟩
  · have htoken := hlegal.2
    rw [hbogus] at htoken
    exact absurd (htoken _ (List.mem_singleton_self _)) (by decide)
  · exact (quiet_setBootflag_iff.mp hquiet).1 (by decide)
  · rcases hlegal with h | h | h
    · exact absurd h (by decide)
    · exact absurd h (by decide)
    · exact absurd h.1 (by decide)
  · have hbootdev : ∀ B : Bmc Unit, Quiet (bootdev B true (ascii "pxe") [ascii "bogus"]) := hquiet
    rcases quiet_bootdev_iff.mp hbootdev with h | ⟨optstr, h, -⟩
    · exact h (by decide)
    · have hnone : bootdevOptstr [ascii "bogus"] = none := by decide
      rw [hnone] at h
      cases h
  · have hpefFlag := (quiet_setBootflag_iff.mp hquiet).2 _ rfl (ascii "PEF")
    rw [beforeHelp, if_pos (by decide), hpef] at hpefFlag
    exact absurd (hpefFlag (by decide)) (by decide)

end Ipmitool.Chassis.BootCommands
