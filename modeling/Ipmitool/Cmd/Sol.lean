import Ipmitool.Core.Interface
import Ipmitool.Util.Integer

/-! # SOL configuration

`setParam` of `cmd/sol.zig` with the functions it calls. A guarded change takes the configuration
lock of the BMC (set-in-progress), writes the parameter, commits and releases the lock
(set-complete).

`setParam_ok` lists the requests that follow the lock. `setParam_releases_iff` says when the lock is
released: exactly if the request after the accepted lock was answered. -/

namespace Ipmitool.Cmd.Sol

open Ipmitool.Lib.Mem Ipmitool.Lib.Bytes Ipmitool.Lib.Machine Ipmitool.Lib.Dialogue
open Ipmitool.Core.Types Ipmitool.Core.Interface Ipmitool.Util.Integer

variable {β : Type} (B : Bmc β)

/-- Set SOL Configuration Parameters. -/
def setRequest (data : List UInt8) : Command := ⟨netfnTransport, 0, 0x21, data⟩

/-- Get SOL Configuration Parameters. -/
def getRequest (channel i : UInt8) : Command := ⟨netfnTransport, 0, 0x22, [channel, i, 0, 0]⟩

/-! ### The configuration -/

/-- `Config`. -/
structure Config where
  setInProgress : UInt8 := 0
  enabled : UInt8 := 0
  forceEncryption : Bool := false
  forceAuthentication : Bool := false
  privilegeLevel : UInt8 := 0
  characterAccumulateLevel : UInt8 := 0
  characterSendThreshold : UInt8 := 0
  retryCount : UInt8 := 0
  retryInterval : UInt8 := 0
  nonVolatileBitRate : UInt8 := 0
  volatileBitRate : UInt8 := 0
  payloadChannel : UInt8 := 0
  payloadPort : UInt16 := 0

/-- The parameter `i` of the configuration, from its response. -/
def storeParam (p : Config) (r : Reply) : ℕ → Config
  | 0 => { p with setInProgress := r.data 1 }
  | 1 => { p with enabled := r.data 1 }
  | 2 => { p with
      forceEncryption := r.data 1 &&& 0x80 ≠ 0
      forceAuthentication := r.data 1 &&& 0x40 ≠ 0
      privilegeLevel := r.data 1 &&& 0x0f }
  | 3 => { p with characterAccumulateLevel := r.data 1, characterSendThreshold := r.data 2 }
  | 4 => { p with retryCount := r.data 1, retryInterval := r.data 2 }
  | 5 => { p with nonVolatileBitRate := r.data 1 &&& 0x0f }
  | 6 => { p with volatileBitRate := r.data 1 &&& 0x0f }
  | 7 => { p with payloadChannel := r.data 1 }
  | _ => { p with payloadPort := ofLe16 (r.data 1) (r.data 2) }

/-- The length of the response for parameter `i`. -/
def expectedLen (i : ℕ) : ℕ := if i = 3 ∨ i = 4 ∨ i = 8 then 3 else 2

/-- The loop of `getSolInfo`, over the parameters that are left; `port` is the port of the session,
if there is one. -/
def getSolInfoLoop (channel : UInt8) (port : Option UInt16) :
    List ℕ → Config → Cmd Unit β (Option Config)
  | [], p => return some p
  | i :: is, p => do
    match ← sendrecv B (getRequest channel (UInt8.ofNat i)) with
    | none => return none
    | some r =>
      if r.ccode = 0 then
        getSolInfoLoop channel port is (if r.dataLen = expectedLen i then storeParam p r i else p)
      else if r.ccode = 0x80 then
        if i = 7 then getSolInfoLoop channel port is { p with payloadChannel := channel }
        else if i = 8 then
          match port with
          | none => return none
          | some payloadPort => getSolInfoLoop channel port is { p with payloadPort }
        else getSolInfoLoop channel port is p
      else return none

/-- `getSolInfo`. -/
def getSolInfo (channel : UInt8) (port : Option UInt16) : Cmd Unit β (Option Config) :=
  getSolInfoLoop B channel port (List.range 9) {}

/-! ### Settings -/

/-- `Settings`: `len` says how many of the four bytes are sent. -/
structure Settings where
  selector : UInt8
  data0 : UInt8 := 0
  data1 : UInt8 := 0
  len : ℕ := 3
  guarded : Bool

/-- A value from a list of names. -/
def named (names : List (List UInt8 × UInt8)) (value : List UInt8) : Option UInt8 :=
  names.lookup value

/-- The names of truth values, with the byte for true. -/
def truth (t : UInt8) : List (List UInt8 × UInt8) := [(ascii "true", t), (ascii "false", 0)]

def progressNames : List (List UInt8 × UInt8) :=
  [(ascii "set-complete", 0), (ascii "set-in-progress", 1), (ascii "commit-write", 2)]

def privilegeNames : List (List UInt8 × UInt8) :=
  [(ascii "user", 2), (ascii "operator", 3), (ascii "admin", 4), (ascii "oem", 5)]

def bitRateNames : List (List UInt8 × UInt8) :=
  [(ascii "serial", 0), (ascii "9.6", 6), (ascii "19.2", 7), (ascii "38.4", 8), (ascii "57.6", 9),
    (ascii "115.2", 10)]

/-- `isValidU8`. -/
def isValidU8 (value : List UInt8) (min max : UInt8) : Option UInt8 :=
  match str2uchar value with
  | some n => if n < min ∨ max < n then none else some n
  | none => none

/-- The parameters that share a byte with another one. -/
inductive Shared where
  | forceEncryption
  | forceAuthentication
  | privilegeLevel
  deriving DecidableEq

/-- The byte of selector 2: the new value and what the old configuration says of the rest. -/
def authByte (which : Shared) (new : UInt8) (old : Config) : UInt8 :=
  let b := if which ≠ .forceEncryption ∧ old.forceEncryption then new ||| 0x80 else new
  let b := if which ≠ .forceAuthentication ∧ old.forceAuthentication then b ||| 0x40 else b
  if which ≠ .privilegeLevel then b ||| old.privilegeLevel else b

/-- A setting of selector 2. -/
def authSetting (channel : UInt8) (port : Option UInt16) (guarded : Bool) (which : Shared)
    (names : List (List UInt8 × UInt8)) (value : List UInt8) : Cmd Unit β (Option Settings) :=
  match named names value with
  | none => return none
  | some new => do
    match ← getSolInfo B channel port with
    | none => return none
    | some old => return some { selector := 2, data0 := authByte which new old, guarded }

/-- A setting of two bytes of which `first` says which one is new; the other is kept. -/
def pairSetting (channel : UInt8) (port : Option UInt16) (guarded : Bool) (selector min max : UInt8)
    (first : Bool) (other : Config → UInt8) (value : List UInt8) : Cmd Unit β (Option Settings) :=
  match isValidU8 value min max with
  | none => return none
  | some new => do
    match ← getSolInfo B channel port with
    | none => return none
    | some old =>
      let data0 := if first then new else other old
      let data1 := if first then other old else new
      return some { selector, data0, data1, len := 4, guarded }

/-- A setting that needs nothing of the old configuration. -/
def plainSetting (guarded : Bool) (selector : UInt8) (names : List (List UInt8 × UInt8))
    (value : List UInt8) : Option Settings :=
  (named names value).map fun data0 => { selector, data0, guarded }

/-- The first half of `setParam`: what is to be set. The lock itself is set without the lock. -/
def settings (channel : UInt8) (port : Option UInt16) (param value : List UInt8) (guarded : Bool) :
    Cmd Unit β (Option Settings) :=
  if param = ascii "set-in-progress" then return plainSetting false 0 progressNames value
  else if param = ascii "enabled" then return plainSetting guarded 1 (truth 1) value
  else if param = ascii "force-encryption" then
    authSetting B channel port guarded .forceEncryption (truth 0x80) value
  else if param = ascii "force-authentication" then
    authSetting B channel port guarded .forceAuthentication (truth 0x40) value
  else if param = ascii "privilege-level" then
    authSetting B channel port guarded .privilegeLevel privilegeNames value
  else if param = ascii "character-accumulate-level" then
    pairSetting B channel port guarded 3 1 255 true Config.characterSendThreshold value
  else if param = ascii "character-send-threshold" then
    pairSetting B channel port guarded 3 0 255 false Config.characterAccumulateLevel value
  else if param = ascii "retry-count" then
    pairSetting B channel port guarded 4 0 7 true Config.retryInterval value
  else if param = ascii "retry-interval" then
    pairSetting B channel port guarded 4 0 255 false Config.retryCount value
  else if param = ascii "non-volatile-bit-rate" then
    return plainSetting guarded 5 bitRateNames value
  else if param = ascii "volatile-bit-rate" then
    return plainSetting guarded 6 bitRateNames value
  else return none

/-! ### `setParam` -/

/-- The request of `setInProgress`. -/
def progressRequest (channel code : UInt8) : Command := setRequest [channel, 0, code]

/-- `setInProgress`: the answer to a commit is ignored. -/
def setInProgress (channel code : UInt8) : Cmd Unit β ℤ := do
  match ← sendrecv B (progressRequest channel code) with
  | none => return -1
  | some r => return if code = 2 ∨ r.ccode = 0 then 0 else -1

/-- The request that sets the parameter. -/
def paramRequest (channel : UInt8) (s : Settings) : Command :=
  setRequest ([channel, s.selector, s.data0, s.data1].take s.len)

/-- `setParam` behind the lock. -/
def setLocked (channel : UInt8) (s : Settings) : Cmd Unit β ℤ := do
  match ← sendrecv B (paramRequest channel s) with
  | none => return -1
  | some r =>
    if ¬ (s.selector = 0 ∧ s.data0 = 2) ∧ r.ccode ≠ 0 then
      if s.guarded then
        let _ ← setInProgress B channel 0
      return -1
    else if s.guarded then
      let _ ← setInProgress B channel 2
      setInProgress B channel 0
    else return 0

/-- `setParam`. -/
def setParam (channel : UInt8) (port : Option UInt16) (param value : List UInt8) (guarded : Bool) :
    Cmd Unit β ℤ := do
  match ← settings B channel port param value guarded with
  | none => return -1
  | some s =>
    if s.guarded then
      let locked ← setInProgress B channel 1
      if locked ≠ 0 then return -1 else setLocked B channel s
    else setLocked B channel s

/-! ### What is said -/

/-- A request that reads a parameter. -/
def reads (x : Exchange) : Prop := x.1.cmd = 0x22

section
variable {B}

theorem moves_getSolInfoLoop (channel : UInt8) (port : Option UInt16) :
    ∀ (is : List ℕ) (p : Config),
    Moves (Says reads) (getSolInfoLoop B channel port is p)
  | [], p => .pure _
  | i :: is, p => by
    have ih := moves_getSolInfoLoop channel port is
    refine .bind (Says.ask fun _ => rfl) fun o => ?_
    rcases o with _ | r
    · exact .pure _
    refine .ite (fun _ => ih _) fun _ => .ite (fun _ => ?_) fun _ => .pure _
    refine .ite (fun _ => ih _) fun _ => .ite (fun _ => ?_) fun _ => ih _
    rcases port with _ | payloadPort
    · exact .pure _
    · exact ih _

variable {channel : UInt8} {port : Option UInt16} {param value : List UInt8} {guarded : Bool}
  {w w' : CmdWorld Unit β}

theorem moves_authSetting (which : Shared) (names : List (List UInt8 × UInt8)) :
    Moves (Says reads) (authSetting B channel port guarded which names value) := by
  unfold authSetting
  rcases named names value with _ | new
  · exact .pure _
  refine .bind (moves_getSolInfoLoop _ _ _ _) fun o => ?_
  rcases o with _ | old
  · exact .pure _
  · exact .pure _

theorem moves_pairSetting (selector min max : UInt8) (first : Bool) (other : Config → UInt8) :
    Moves (Says reads) (pairSetting B channel port guarded selector min max first other value) := by
  unfold pairSetting
  rcases isValidU8 value min max with _ | new
  · exact .pure _
  refine .bind (moves_getSolInfoLoop _ _ _ _) fun o => ?_
  rcases o with _ | old
  · exact .pure _
  · exact .pure _

/-- Finding out what to set only reads. -/
theorem moves_settings : Moves (Says reads) (settings B channel port param value guarded) := by
  unfold settings
  repeat' apply Moves.ite <;> intro _
  all_goals first
    | exact .pure _
    | exact moves_authSetting _ _
    | exact moves_pairSetting _ _ _ _ _

/-- A setting that is made behind the lock is not the lock itself. -/
def Settings.Proper (o : Option Settings) : Prop :=
  ∀ s ∈ o, s.guarded = true → s.selector ≠ 0 ∧ 2 ≤ s.len

theorem proper_plainSetting {selector : UInt8} {names : List (List UInt8 × UInt8)}
    (h : guarded = true → selector ≠ 0) :
    Settings.Proper (plainSetting guarded selector names value) := by
  intro s hs hg
  obtain ⟨data0, -, rfl⟩ := Option.map_eq_some_iff.mp hs
  exact ⟨h hg, by simp⟩

theorem gives_authSetting (which : Shared) (names : List (List UInt8 × UInt8)) :
    Gives Settings.Proper (authSetting B channel port guarded which names value) := by
  unfold authSetting
  rcases named names value with _ | new
  · exact .pure (by simp [Settings.Proper])
  refine .bind fun o => ?_
  rcases o with _ | old
  · exact .pure (by simp [Settings.Proper])
  · exact .pure (by simp [Settings.Proper])

theorem gives_pairSetting {selector : UInt8} (min max : UInt8) (first : Bool)
    (other : Config → UInt8) (h : selector ≠ 0) : Gives Settings.Proper
      (pairSetting B channel port guarded selector min max first other value) := by
  unfold pairSetting
  rcases isValidU8 value min max with _ | new
  · exact .pure (by simp [Settings.Proper])
  refine .bind fun o => ?_
  rcases o with _ | old
  · exact .pure (by simp [Settings.Proper])
  · exact .pure (by simp [Settings.Proper, h])

theorem gives_settings : Gives Settings.Proper (settings B channel port param value guarded) := by
  unfold settings
  repeat' apply Gives.ite <;> intro _
  · exact .pure (proper_plainSetting (by decide))
  all_goals first
    | exact .pure (proper_plainSetting fun _ => by decide)
    | exact gives_authSetting _ _
    | exact gives_pairSetting _ _ _ _ (by decide)
    | exact .pure (by simp [Settings.Proper])

/-! ### The lock -/

/-- The BMC granted the lock. -/
def lockTaken (channel : UInt8) (x : Exchange) : Prop :=
  x.1 = progressRequest channel 1 ∧ ∃ r, x.2 = some r ∧ r.ccode = 0

/-- The lock was given back. -/
def completes (channel : UInt8) (x : Exchange) : Prop := x.1 = progressRequest channel 0

/-- Whenever the lock was taken, it was given back afterwards. -/
def Released (channel : UInt8) : List Exchange → Prop :=
  Afterwards (lockTaken channel) fun rest => ∃ x ∈ rest, completes channel x

/-- Whenever the lock was taken, the next request was answered. -/
def Answered (channel : UInt8) : List Exchange → Prop :=
  Afterwards (lockTaken channel) fun rest => ∃ x ∈ rest.head?, x.2.isSome

theorem not_lockTaken_of_ne {x : Exchange} (h : x.1 ≠ progressRequest channel 1) :
    ¬ lockTaken channel x := fun hx => h hx.1

theorem progressRequest_ne {code code' : UInt8} (h : code ≠ code') :
    progressRequest channel code ≠ progressRequest channel code' := by
  intro he
  simp only [progressRequest, setRequest, Command.mk.injEq, List.cons.injEq, true_and,
    and_true] at he
  exact h he

theorem paramRequest_ne {s : Settings} (h : s.selector ≠ 0) (hlen : 2 ≤ s.len) (code : UInt8) :
    paramRequest channel s ≠ progressRequest channel code := by
  intro he
  obtain ⟨n, hn⟩ : ∃ n, s.len = n + 2 := ⟨s.len - 2, by omega⟩
  simp only [paramRequest, progressRequest, setRequest, hn, List.take_succ_cons, Command.mk.injEq,
    List.cons.injEq, true_and] at he
  exact h he.1

theorem setInProgress_ok {code : UInt8} {rc : ℤ}
    (h : setInProgress B channel code w = .ok (rc, w')) :
    ∃ o, w'.log = w.log ++ [(progressRequest channel code, o)] ∧
      (code ≠ 2 → (rc = 0 ↔ ∃ r, o = some r ∧ r.ccode = 0)) := by
  obtain ⟨o, t, ht, h⟩ := bind_ok.mp h
  have hlog := (ask_log ht).1
  rcases o with _ | r
  · obtain ⟨rfl, rfl⟩ := pure_ok.mp h
    exact ⟨none, hlog, by simp⟩
  · obtain ⟨rfl, rfl⟩ := pure_ok.mp h
    exact ⟨some r, hlog, fun hcode => by simp [hcode]⟩

/-- What follows the lock: the parameter, and if it was answered, the lock is given back. -/
theorem setLocked_ok {s : Settings} {rc : ℤ} (h : setLocked B channel s w = .ok (rc, w')) :
    ∃ o rest, w'.log = w.log ++ (paramRequest channel s, o) :: rest ∧
      (∀ x ∈ rest, ¬ lockTaken channel x) ∧
      ((∃ x ∈ rest, completes channel x) ↔ s.guarded = true ∧ o.isSome) ∧
      (s.guarded = false → rest = []) := by
  obtain ⟨o, t, ht, h⟩ := bind_ok.mp h
  have hlog := (ask_log ht).1
  rcases o with _ | r
  · obtain ⟨-, rfl⟩ := pure_ok.mp h
    exact ⟨none, [], hlog, by simp, by simp, fun _ => rfl⟩
  refine ⟨some r, ?_⟩
  have h0 : ∀ o, ¬ lockTaken channel (progressRequest channel 0, o) := fun o =>
    not_lockTaken_of_ne (progressRequest_ne (by decide))
  have h2 : ∀ o, ¬ lockTaken channel (progressRequest channel 2, o) := fun o =>
    not_lockTaken_of_ne (progressRequest_ne (by decide))
  cases hg : s.guarded with
  | false =>
    refine ⟨[], ?_, by simp, by simp, fun _ => rfl⟩
    simp only [hg, Bool.false_eq_true, if_false] at h
    split_ifs at h with hc
    · obtain ⟨-, rfl⟩ := pure_ok.mp h
      exact hlog
    · obtain ⟨-, rfl⟩ := pure_ok.mp h
      exact hlog
  | true =>
    simp only [hg, if_true] at h
    split_ifs at h with hc
    · -- the parameter was refused: the lock is given back at once
      obtain ⟨rc', t, ht, h⟩ := bind_ok.mp h
      obtain ⟨-, rfl⟩ := pure_ok.mp h
      obtain ⟨o, ho, -⟩ := setInProgress_ok ht
      refine ⟨[(progressRequest channel 0, o)], ?_, by simpa using h0 o, by simp [completes],
        by simp⟩
      rw [ho, hlog, List.append_assoc, List.singleton_append]
    · -- the parameter is committed first
      obtain ⟨rc', t, ht, h⟩ := bind_ok.mp h
      obtain ⟨o2, ho2, -⟩ := setInProgress_ok ht
      obtain ⟨o, ho, -⟩ := setInProgress_ok h
      refine ⟨[(progressRequest channel 2, o2), (progressRequest channel 0, o)], ?_, ?_,
        by simp [completes], by simp⟩
      · rw [ho, ho2, hlog]
        simp
      · simpa using ⟨h2 o2, h0 o⟩

/-- Behind the requests that read: nothing, a parameter without the lock, a lock that was not
granted, or a granted lock with what follows it. -/
theorem setParam_ok {rc : ℤ} (h : setParam B channel port param value guarded w = .ok (rc, w')) :
    ∃ evs tail, w'.log = w.log ++ (evs ++ tail) ∧ (∀ x ∈ evs, reads x) ∧
      (tail = [] ∨ (∃ x, tail = [x]) ∨
        ∃ s : Settings, s.selector ≠ 0 ∧ 2 ≤ s.len ∧ ∃ lock o rest,
          tail = (progressRequest channel 1, lock) :: (paramRequest channel s, o) :: rest ∧
          (∀ x ∈ rest, ¬ lockTaken channel x) ∧
          ((∃ x ∈ rest, completes channel x) ↔ o.isSome)) := by
  obtain ⟨os, t, ht, h⟩ := bind_ok.mp h
  obtain ⟨evs, hlog, hevs⟩ := moves_settings _ _ _ ht
  have hproper := gives_settings _ _ _ ht
  rcases os with _ | s
  · obtain ⟨-, rfl⟩ := pure_ok.mp h
    exact ⟨evs, [], by rw [List.append_nil, hlog], hevs, .inl rfl⟩
  cases hg : s.guarded with
  | false =>
    simp only [hg, Bool.false_eq_true, if_false] at h
    obtain ⟨o, rest, hrest, -, -, hnil⟩ := setLocked_ok h
    refine ⟨evs, [(paramRequest channel s, o)], ?_, hevs, .inr (.inl ⟨_, rfl⟩)⟩
    rw [hrest, hnil hg, hlog, List.append_assoc]
  | true =>
    simp only [hg, if_true] at h
    obtain ⟨locked, t', ht', h⟩ := bind_ok.mp h
    obtain ⟨lock, hlock, -⟩ := setInProgress_ok ht'
    split_ifs at h with hl
    · obtain ⟨-, rfl⟩ := pure_ok.mp h
      refine ⟨evs, [(progressRequest channel 1, lock)], ?_, hevs, .inr (.inl ⟨_, rfl⟩)⟩
      rw [hlock, hlog, List.append_assoc]
    · obtain ⟨o, rest, hrest, hlocks, hcompletes, -⟩ := setLocked_ok h
      obtain ⟨hsel, hlen⟩ := hproper s rfl hg
      refine ⟨evs, _, ?_, hevs, .inr (.inr ⟨s, hsel, hlen, lock, o, rest, rfl, hlocks, ?_⟩)⟩
      · rw [hrest, hlock, hlog]
        simp
      · rw [hcompletes, hg]
        simp

/-! ### No faults -/

theorem never_getSolInfoLoop {e : Fault} (channel : UInt8) (port : Option UInt16) :
    ∀ (is : List ℕ) (p : Config), Never e (getSolInfoLoop B channel port is p)
  | [], p => .pure _
  | i :: is, p => by
    have ih := never_getSolInfoLoop (e := e) channel port is
    refine .bind never_ask fun o => ?_
    rcases o with _ | r
    · exact .pure _
    refine .ite (fun _ => ih _) fun _ => .ite (fun _ => ?_) fun _ => .pure _
    refine .ite (fun _ => ih _) fun _ => .ite (fun _ => ?_) fun _ => ih _
    rcases port with _ | payloadPort
    · exact .pure _
    · exact ih _

theorem never_settings {e : Fault} : Never e (settings B channel port param value guarded) := by
  have hauth : ∀ which names, Never e (authSetting B channel port guarded which names value) := by
    intro which names
    unfold authSetting
    rcases named names value with _ | new
    · exact .pure _
    refine .bind (never_getSolInfoLoop _ _ _ _) fun o => ?_
    rcases o with _ | old <;> exact .pure _
  have hpair : ∀ selector min max first other, Never e
      (pairSetting B channel port guarded selector min max first other value) := by
    intro selector min max first other
    unfold pairSetting
    rcases isValidU8 value min max with _ | new
    · exact .pure _
    refine .bind (never_getSolInfoLoop _ _ _ _) fun o => ?_
    rcases o with _ | old <;> exact .pure _
  unfold settings
  repeat' apply Never.ite <;> intro _
  all_goals first
    | exact .pure _
    | exact hauth _ _
    | exact hpair _ _ _ _ _

theorem never_setInProgress {e : Fault} {code : UInt8} :
    Never e (setInProgress B channel code) := by
  refine .bind never_ask fun o => ?_
  rcases o with _ | r <;> exact .pure _

theorem never_setLocked {e : Fault} {s : Settings} : Never e (setLocked B channel s) := by
  refine .bind never_ask fun o => ?_
  rcases o with _ | r
  · exact .pure _
  refine .ite (fun _ => .ite (fun _ => ?_) fun _ => .pure _) fun _ =>
    .ite (fun _ => ?_) fun _ => .pure _
  · exact .bind never_setInProgress fun _ => .pure _
  · exact .bind never_setInProgress fun _ => never_setInProgress

theorem never_setParam {e : Fault} : Never e (setParam B channel port param value guarded) := by
  refine .bind never_settings fun os => ?_
  rcases os with _ | s
  · exact .pure _
  refine .ite (fun _ => ?_) fun _ => never_setLocked
  exact .bind never_setInProgress fun _ => .ite (fun _ => .pure _) fun _ => never_setLocked

end

/-- The lock is given back exactly if the request that follows it was answered. -/
theorem setParam_releases_iff (channel : UInt8) (port : Option UInt16) (param value : List UInt8)
    (w : CmdWorld Unit β) : ∃ rc w' evs,
      setParam B channel port param value true w = .ok (rc, w') ∧ w'.log = w.log ++ evs ∧
      (Released channel evs ↔ Answered channel evs) := by
  obtain ⟨rc, w', h⟩ := returns_of_never (fun _ => never_setParam) w
  obtain ⟨pre, tail, hlog, hpre, hcases⟩ := setParam_ok h
  refine ⟨rc, w', pre ++ tail, h, hlog, ?_⟩
  have hreads : ∀ x ∈ pre, ¬ lockTaken channel x := by
    intro x hx hl
    have := hpre x hx
    rw [reads, hl.1] at this
    cases this
  unfold Released Answered
  rw [afterwards_append hreads, afterwards_append hreads]
  obtain rfl | ⟨x, rfl⟩ | ⟨s, hsel, hlen, lock, o, rest, rfl, hlocks, hcompletes⟩ := hcases
  · simp
  · -- one request: neither an answer nor a release comes after it
    simp
  · have hparam : ∀ code, paramRequest channel s ≠ progressRequest channel code :=
      paramRequest_ne hsel hlen
    have hrest : ∀ q, Afterwards (lockTaken channel) q rest := by
      intro q
      have := (afterwards_append (q := q) hlocks).mpr afterwards_nil
      rwa [List.append_nil] at this
    have hno : ¬ lockTaken channel (paramRequest channel s, o) := not_lockTaken_of_ne (hparam 1)
    have hfirst : ¬ completes channel (paramRequest channel s, o) := hparam 0
    have hlast : (∃ x ∈ (paramRequest channel s, o) :: rest, completes channel x) ↔ o.isSome := by
      rw [List.exists_mem_cons_iff, hcompletes]
      exact or_iff_right hfirst
    simp only [afterwards_cons, hno, hrest, hlast, false_imp_iff, and_true, List.head?_cons,
      Option.mem_some_iff, exists_eq_left']

/-- A BMC that answers the first `n` requests with the completion code zero, and no request after
them. -/
def silentAfter (n : ℕ) : Bmc ℕ := fun k _ => (if k < n then some {} else none, k + 1)

/-- The lock is taken, the request for the parameter gets no answer, and `setParam` is done. -/
theorem setParam_leaves_lock : ∃ rc w',
    setParam (silentAfter 1) 1 none (ascii "enabled")
      (ascii "true") true ⟨(), 0, []⟩ = .ok (rc, w') ∧
      ¬ Released 1 w'.log := by
  refine ⟨-1, _, rfl, ?_⟩
  rintro ⟨hlock, -⟩
  obtain ⟨x, hx, hc⟩ := hlock ⟨rfl, {}, rfl, rfl⟩
  rw [List.mem_singleton.mp hx] at hc
  revert hc
  unfold completes
  decide

end Ipmitool.Cmd.Sol
