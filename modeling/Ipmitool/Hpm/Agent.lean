import Ipmitool.Core.Interface

/-! # The commands of the HPM.1 upgrade agent

The requests of `cmd/hpmfwupg.zig` and the loops that repeat them. A request is repeated while the
target is inaccessible or busy, and a long command is waited for, until some time is over. Time is
modelled by what it decides: `patience` says of each loop in turn how often it goes on before its
time is over. So a statement for every list of numbers is a statement for every course of time. -/

namespace Ipmitool.Hpm.Agent

open Ipmitool.Lib Ipmitool.Lib.Bytes Ipmitool.Lib.Machine Ipmitool.Lib.Dialogue
open Ipmitool.Core.Types Ipmitool.Core.Interface

/-- What the agent knows of the interface: whether it is a lan interface, whether the target is the
BMC at its end, and `ipmi_intf_get_max_request_data_size`. -/
structure Env where
  lan : Bool
  here : Bool
  maxRequest : UInt16

/-- The variables of the module, the patience of the loops that are to come, and what the user will
answer. -/
structure Vars where
  errorCount : ℕ := 0
  validUploadSize : Bool := false
  lanSizeErrors : ℕ := 0
  patience : List ℕ := []
  answers : List Bool := []

/-- A program of the agent. -/
abbrev Talk (β : Type) := Cmd Vars β

variable {β : Type} (B : Bmc β) (env : Env)

/-! ### Requests -/

/-- The patience of the next loop. -/
def nextPatience : Talk β ℕ := do
  let w ← get
  set { w with vars := { w.vars with patience := w.vars.patience.tail } }
  return w.vars.patience.headD 0

/-- A loop whose turns say whether it should go on; it stops after `n` more turns at the latest. -/
def goOn {α : Type} (turn : Talk β (Bool × α)) : ℕ → Talk β α
  | 0 => do
    let r ← turn
    return r.2
  | n + 1 => do
    let r ← turn
    if r.1 then goOn turn n else return r.2

/-- A loop, with the patience that it has. -/
def patiently {α : Type} (turn : Talk β (Bool × α)) : Talk β α := do
  let n ← nextPatience
  goOn turn n

/-- `ask`: the answer of the user. -/
def askUser : Talk β Bool := do
  let w ← get
  set { w with vars := { w.vars with answers := w.vars.answers.tail } }
  return w.vars.answers.headD false

/-- `retryable`. -/
def retryable (code : UInt8) : Talk β Bool := do
  if code ≠ 0x83 ∧ code ≠ 0x82 ∧ code ≠ 0x80 then return false
  else
    let w ← get
    set { w with vars := { w.vars with errorCount := w.vars.errorCount + 1 } }
    return w.vars.errorCount < 3

/-- What stands for a missing response on a lan interface. -/
def substitute (c : Command) (v : Vars) : Option Reply × Vars :=
  if ¬ env.lan then (none, v)
  else if c.cmd = 0x32 ∧ v.lanSizeErrors < 6 ∧ ¬ v.validUploadSize then
    (some { ccode := 0xc7 }, { v with lanSizeErrors := v.lanSizeErrors + 1 })
  else if c.cmd = 0x35 ∨ c.cmd = 0x38 then (some { ccode := 0x80 }, v)
  else if (c.cmd = 0x37 ∨ c.cmd = 0x34 ∨ c.cmd = 0x36) ∧ env.here then (some { ccode := 0xc3 }, v)
  else (none, v)

/-- The response, or what stands for it. -/
def response (c : Command) (o : Option Reply) (v : Vars) : Option Reply × Vars :=
  match o with
  | some r => (some r, v)
  | none => substitute env c v

/-- The target is inaccessible or busy. -/
def unready : Option Reply → Bool
  | none => true
  | some r => r.ccode = 0xff ∨ r.ccode = 0xc3 ∨ r.ccode = 0xd3 ∨ r.ccode = 0xc0

/-- What the loop of `sendCmd` remembers of the response it returns. -/
def noted (c : Command) (o : Option Reply) (v : Vars) : Vars :=
  let v := if (o.map Reply.ccode) = some 0 then { v with errorCount := 0 } else v
  if c.cmd = 0x32 ∧ ¬ v.validUploadSize then { v with validUploadSize := true } else v

/-- A turn of the loop of `sendCmd`. -/
def attempt (c : Command) : Talk β (Bool × Option Reply) := do
  let o ← sendrecv B c
  let w ← get
  let r := response env c o w.vars
  if unready r.1 then
    set { w with vars := r.2 }
    return (true, r.1)
  else
    set { w with vars := noted c r.1 r.2 }
    return (false, r.1)

/-- `sendCmd`. -/
def sendCmd (c : Command) : Talk β (Option Reply) := patiently (attempt B env c)

/-- The request of `send`. -/
def hpmCommand (cmd : UInt8) (bytes : List UInt8) : Command := ⟨netfnPicmg, 0, cmd, bytes⟩

/-- `send`. -/
def send (cmd : UInt8) (bytes : List UInt8) : Talk β (Option Reply) :=
  if 65535 < bytes.length then return none else sendCmd B env (hpmCommand cmd bytes)

/-- `responseData`. -/
def responseData (r : Reply) : Option (List UInt8) :=
  if bufSize < r.dataLen then none else some (Mem.read r.data 0 r.dataLen)

/-! ### Questions -/

/-- `Device`, as far as it is used. -/
structure Device where
  id : UInt8
  fw1 : UInt8
  fw2 : UInt8
  manufacturer : List UInt8
  product : List UInt8

/-- `getDevice`. -/
def getDevice : Talk β (Option Device) := do
  match ← sendCmd B env ⟨netfnAppCmd, 0, 1, []⟩ with
  | none => return none
  | some r =>
    if r.ccode ≠ 0 then return none
    else
      match responseData r with
      | none => return none
      | some d =>
        if d.length < 11 then return none
        else return some ⟨d.getD 0 0, d.getD 2 0, d.getD 3 0, (d.drop 6).take 3, (d.drop 9).take 2⟩

/-- `Capabilities`; the timeouts only decide how long is waited. -/
structure Capabilities where
  flags : UInt8 := 0
  components : UInt8 := 0

/-- `getCapabilities`. -/
def getCapabilities : Talk β (Option Capabilities) := do
  match ← send B env 0x2e [0] with
  | none => return none
  | some r =>
    if r.ccode ≠ 0 then return none
    else
      match responseData r with
      | none => return none
      | some d => if d.length < 8 then return none else return some ⟨d.getD 2 0, d.getD 7 0⟩

/-- `getProperty` with selector zero: the flags of a component. -/
def getProperty (id : UInt8) : Talk β (Option UInt8) := do
  match ← send B env 0x2f [0, id, 0] with
  | none => return none
  | some r =>
    if r.ccode ≠ 0 then return none
    else
      match responseData r with
      | none => return none
      | some d => if d.length < 2 then return none else return some (d.getD 1 0)

/-- The completion code in a status; an error that passes counts as a command in progress. -/
def statusOf (r : Reply) : Talk β (Option UInt8) :=
  if r.ccode = 0 then
    match responseData r with
    | none => return none
    | some d => if d.length < 3 then return none else return some (d.getD 2 0)
  else do
    if ← retryable r.ccode then return some 0x80 else return none

/-- `getStatus`: the completion code of the last command. -/
def getStatus : Talk β (Option UInt8) := do
  match ← send B env 0x34 [0] with
  | none => return none
  | some r => statusOf r

/-- The loop of `waitLong`. -/
def waitLoop : ℕ → UInt8 → Talk β Bool
  | 0, code => return code = 0
  | n + 1, code =>
    if code = 0x80 ∨ code = 0xd5 then do
      match ← getStatus B env with
      | none => return false
      | some code => waitLoop n code
    else return code = 0

/-- `waitLong` with a context. -/
def waitLong : Talk β Bool := do
  let n ← nextPatience
  match ← getStatus B env with
  | none => return false
  | some code => waitLoop B env n code

/-- The end of a request that may take long. -/
def finishLong (o : Option Reply) : Talk β Bool :=
  match o with
  | none => return false
  | some r => if r.ccode = 0x80 then waitLong B env else return r.ccode = 0

/-- `action`. -/
def action (mask kind : UInt8) : Talk β Bool := do
  finishLong B env (← send B env 0x31 [0, mask, kind])

/-- `activate` without the override. -/
def activate : Talk β Bool := do
  finishLong B env (← send B env 0x35 [0])

/-- A turn of the loop of `querySelftest`. -/
def selftestTurn : Talk β (Bool × Option (UInt8 × UInt8)) := do
  match ← send B env 0x36 [0] with
  | none => return (false, none)
  | some r =>
    let again ← retryable r.ccode
    if r.ccode ≠ 0 then return (again || r.ccode = 0x80, none)
    else
      match responseData r with
      | none => return (false, none)
      | some d => return (false, if d.length < 3 then none else some (d.getD 1 0, d.getD 2 0))

/-- `querySelftest`. -/
def querySelftest : Talk β (Option (UInt8 × UInt8)) := patiently (selftestTurn B env)

/-- A turn of the loop of `rollbackStatus`. -/
def rollbackTurn : Talk β (Bool × Bool) := do
  match ← send B env 0x37 [0] with
  | none => return (false, false)
  | some r =>
    let again ← retryable r.ccode
    let code : UInt8 := if again then 0x80 else r.ccode
    if code = 0x80 ∨ code = 0xc3 then return (true, false)
    else if code = 0 then return (false, (responseData r).any fun d => 2 ≤ d.length)
    else return (false, false)

/-- `rollbackStatus`. -/
def rollbackStatus : Talk β Bool := patiently (rollbackTurn B env)

/-! ### What is said -/

section
variable {B} {env} {P : Exchange → Prop} {α : Type} {F : Frame (CmdWorld Vars β)}

theorem nextPatience_log {w w' : CmdWorld Vars β} {n : ℕ} (h : nextPatience w = .ok (n, w')) :
    w'.log = w.log := by
  obtain ⟨s, t, ht, h⟩ := bind_ok.mp h
  obtain ⟨rfl, rfl⟩ := get_ok.mp ht
  obtain ⟨u, t', ht', h⟩ := bind_ok.mp h
  obtain ⟨-, rfl⟩ := pure_ok.mp h
  rw [← set_ok.mp ht']

theorem askUser_log {w w' : CmdWorld Vars β} {b : Bool} (h : askUser w = .ok (b, w')) :
    w'.log = w.log := by
  obtain ⟨s, t, ht, h⟩ := bind_ok.mp h
  obtain ⟨rfl, rfl⟩ := get_ok.mp ht
  obtain ⟨u, t', ht', h⟩ := bind_ok.mp h
  obtain ⟨-, rfl⟩ := pure_ok.mp h
  rw [← set_ok.mp ht']

theorem retryable_log {w w' : CmdWorld Vars β} {code : UInt8} {b : Bool}
    (h : retryable code w = .ok (b, w')) : w'.log = w.log := by
  unfold retryable at h
  split_ifs at h with hc
  · obtain ⟨-, rfl⟩ := pure_ok.mp h
    rfl
  · obtain ⟨s, t, ht, h⟩ := bind_ok.mp h
    obtain ⟨rfl, rfl⟩ := get_ok.mp ht
    obtain ⟨u, t', ht', h⟩ := bind_ok.mp h
    obtain ⟨-, rfl⟩ := pure_ok.mp h
    rw [← set_ok.mp ht']

/-- A program that leaves the log alone says nothing. -/
theorem says_of_log {x : Talk β α} (h : ∀ {w a w'}, x w = .ok (a, w') → w'.log = w.log) :
    Moves (Says P) x :=
  fun _ _ _ hx => ⟨[], by rw [h hx, List.append_nil], by simp⟩

theorem attempt_ok {c : Command} {w w' : CmdWorld Vars β} {a : Bool × Option Reply}
    (h : attempt B env c w = .ok (a, w')) : ∃ o,
    w'.log = w.log ++ [(c, o)] ∧
      a = (unready (response env c o w.vars).1, (response env c o w.vars).1) ∧
      w'.vars = if unready (response env c o w.vars).1 then (response env c o w.vars).2
        else noted c (response env c o w.vars).1 (response env c o w.vars).2 := by
  obtain ⟨o, t, ht, h⟩ := bind_ok.mp h
  obtain ⟨hlog, hvars⟩ := ask_log ht
  obtain ⟨s, t', ht', h⟩ := bind_ok.mp h
  obtain ⟨rfl, rfl⟩ := get_ok.mp ht'
  rw [hvars] at h
  refine ⟨o, ?_⟩
  split_ifs at h with hu
  · obtain ⟨u, t1, ht1, h⟩ := bind_ok.mp h
    obtain ⟨rfl, rfl⟩ := pure_ok.mp h
    rw [← set_ok.mp ht1]
    exact ⟨hlog, by rw [hu], by rw [if_pos hu]⟩
  · obtain ⟨u, t1, ht1, h⟩ := bind_ok.mp h
    obtain ⟨rfl, rfl⟩ := pure_ok.mp h
    rw [← set_ok.mp ht1]
    exact ⟨hlog, by rw [Bool.eq_false_iff.mpr hu], by rw [if_neg hu]⟩

theorem attempt_log {c : Command} {w w' : CmdWorld Vars β} {a : Bool × Option Reply}
    (h : attempt B env c w = .ok (a, w')) : ∃ o, w'.log = w.log ++ [(c, o)] ∧
      ((unready (response env c o w.vars).1 = true ∧ a = (true, (response env c o w.vars).1)) ∨
        unready (response env c o w.vars).1 = false ∧
          a = (false, (response env c o w.vars).1)) := by
  obtain ⟨o, hlog, ha, -⟩ := attempt_ok h
  refine ⟨o, hlog, ?_⟩
  rw [ha]
  rcases unready (response env c o w.vars).1 with _ | _
  · exact .inr ⟨rfl, rfl⟩
  · exact .inl ⟨rfl, rfl⟩

/-- A loop: some turns that want to go on, and a last one. -/
theorem goOn_ok {turn : Talk β (Bool × α)} : ∀ {n : ℕ} {w w' : CmdWorld Vars β} {a : α},
    goOn turn n w = .ok (a, w') → ∃ b w1, Relation.ReflTransGen
      (fun s t => ∃ a', turn s = .ok ((true, a'), t)) w w1 ∧ turn w1 = .ok ((b, a), w')
  | 0, w, w', a, h => by
    obtain ⟨r, t, ht, h⟩ := bind_ok.mp h
    obtain ⟨rfl, rfl⟩ := pure_ok.mp h
    exact ⟨r.1, w, .refl, ht⟩
  | n + 1, w, w', a, h => by
    obtain ⟨r, t, ht, h⟩ := bind_ok.mp h
    obtain ⟨b, a'⟩ := r
    rcases b with _ | _
    · obtain ⟨rfl, rfl⟩ := pure_ok.mp h
      exact ⟨false, w, .refl, ht⟩
    · obtain ⟨b, w1, hsteps, hlast⟩ := goOn_ok h
      exact ⟨b, w1, .head ⟨a', ht⟩ hsteps, hlast⟩

theorem goOn_keeps {turn : Talk β (Bool × α)} {I : CmdWorld Vars β → Prop}
    (hturn : ∀ {s a t}, turn s = .ok (a, t) → I s → I t) :
    ∀ {n : ℕ} {s t : CmdWorld Vars β} {a : α},
    goOn turn n s = .ok (a, t) → I s → I t
  | 0, s, t, a, h, hs => by
    obtain ⟨r, s', hr, h⟩ := bind_ok.mp h
    obtain ⟨-, rfl⟩ := pure_ok.mp h
    exact hturn hr hs
  | n + 1, s, t, a, h, hs => by
    obtain ⟨r, s', hr, h⟩ := bind_ok.mp h
    split_ifs at h with hgo
    · exact goOn_keeps hturn h (hturn hr hs)
    · obtain ⟨-, rfl⟩ := pure_ok.mp h
      exact hturn hr hs

theorem moves_goOn {turn : Talk β (Bool × α)} (h : Moves F turn) (n : ℕ) :
    Moves F (goOn turn n) := by
  induction n with
  | zero => exact .bind h fun _ => .pure _
  | succ n ih => exact .bind h fun r => .ite (fun _ => ih) fun _ => .pure _

theorem says_patiently {turn : Talk β (Bool × α)} (h : Moves (Says P) turn) :
    Moves (Says P) (patiently turn) :=
  .bind (says_of_log nextPatience_log) fun n => moves_goOn h n

theorem says_sendCmd {c : Command} (hP : ∀ o, P (c, o)) : Moves (Says P) (sendCmd B env c) := by
  refine says_patiently ?_
  intro w a w' h
  obtain ⟨o, hlog, -⟩ := attempt_log h
  refine ⟨_, hlog, fun x hx => ?_⟩
  rw [List.mem_singleton.mp hx]
  exact hP o

/-- A response that says that the target was not ready. -/
theorem unready_response {c : Command} {o : Option Reply} {v : Vars}
    (h : unready (response env c o v).1 = true) : ∀ r ∈ o, r.ccode ≠ 0 ∧ r.ccode ≠ 0x80 := by
  rintro r rfl
  simp only [response, unready, decide_eq_true_eq] at h
  rcases h with h | h | h | h <;> rw [h] <;> decide

/-- `sendCmd` sends its request until the target is ready, and what it returns stands for the last
response. -/
theorem sendCmd_log {c : Command} {w w' : CmdWorld Vars β} {o : Option Reply}
    (h : sendCmd B env c w = .ok (o, w')) : ∃ evs last v, w'.log = w.log ++ (evs ++ [(c, last)]) ∧
      (∀ x ∈ evs, x.1 = c ∧ ∀ r ∈ x.2, r.ccode ≠ 0 ∧ r.ccode ≠ 0x80) ∧
      o = (response env c last v).1 := by
  obtain ⟨n, t, ht, h⟩ := bind_ok.mp h
  obtain ⟨b, w1, hsteps, hlast⟩ := goOn_ok h
  obtain ⟨last, hlog, hcases⟩ := attempt_log hlast
  have hevs : ∃ evs, w1.log = t.log ++ evs ∧
      ∀ x ∈ evs, x.1 = c ∧ ∀ r ∈ x.2, r.ccode ≠ 0 ∧ r.ccode ≠ 0x80 := by
    clear hlast hlog hcases
    induction hsteps with
    | refl => exact ⟨[], by simp, by simp⟩
    | tail _ hstep ih =>
      obtain ⟨evs, hevs, hall⟩ := ih
      obtain ⟨a', ha'⟩ := hstep
      obtain ⟨o', ho', hready⟩ := attempt_log ha'
      have hunready := (hready.resolve_right fun h => absurd (Prod.mk.inj h.2).1 (by simp)).1
      refine ⟨evs ++ [(c, o')], by rw [ho', hevs, List.append_assoc], fun x hx => ?_⟩
      rcases List.mem_append.mp hx with hx | hx
      · exact hall x hx
      · rw [List.mem_singleton.mp hx]
        exact ⟨rfl, unready_response hunready⟩
  obtain ⟨evs, hevs, hall⟩ := hevs
  refine ⟨evs, last, w1.vars, by rw [hlog, hevs, nextPatience_log ht, List.append_assoc], hall, ?_⟩
  rcases hcases with ⟨-, ha⟩ | ⟨-, ha⟩
  · exact (Prod.mk.inj ha).2
  · exact (Prod.mk.inj ha).2

theorem says_send {cmd : UInt8} {bytes : List UInt8} (hP : ∀ o, P (hpmCommand cmd bytes, o)) :
    Moves (Says P) (send B env cmd bytes) :=
  .ite (fun _ => .pure _) fun _ => says_sendCmd hP

theorem says_statusOf (r : Reply) : Moves (Says P) (statusOf r : Talk β (Option UInt8)) := by
  refine .ite (fun _ => ?_) fun _ => .bind (says_of_log retryable_log) fun b =>
    .ite (fun _ => .pure _)
    fun _ => .pure _
  rcases responseData r with _ | d
  · exact .pure _
  · exact .ite (fun _ => .pure _) fun _ => .pure _

theorem says_getStatus (hP : ∀ o, P (hpmCommand 0x34 [0], o)) :
    Moves (Says P) (getStatus B env) := by
  refine .bind (says_send hP) fun o => ?_
  rcases o with _ | r
  · exact .pure _
  · exact says_statusOf r

theorem says_waitLong (hP : ∀ o, P (hpmCommand 0x34 [0], o)) : Moves (Says P) (waitLong B env) := by
  have hloop : ∀ n code, Moves (Says P) (waitLoop B env n code) := by
    intro n
    induction n with
    | zero => exact fun code => .pure _
    | succ n ih =>
      refine fun code => .ite (fun _ => .bind (says_getStatus hP) fun o => ?_) fun _ => .pure _
      rcases o with _ | code
      · exact .pure _
      · exact ih code
  refine .bind (says_of_log nextPatience_log) fun n => .bind (says_getStatus hP) fun o => ?_
  rcases o with _ | code
  · exact .pure _
  · exact hloop n code

theorem says_finishLong (hP : ∀ o, P (hpmCommand 0x34 [0], o)) (o : Option Reply) :
    Moves (Says P) (finishLong B env o) := by
  rcases o with _ | r
  · exact .pure _
  · exact .ite (fun _ => says_waitLong hP) fun _ => .pure _

end

end Ipmitool.Hpm.Agent
