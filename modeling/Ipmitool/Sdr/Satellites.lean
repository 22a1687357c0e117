import Ipmitool.Sdr.Fill
import Ipmitool.Sdr.RangeList

/-! # Filling the repository from satellites

`sdrRepoClear`, `sdrrGetRecords`, `sdrCopyToSdrr`, `sdrAddFromSensors` and `sdrAddFromList` of
`cmd/sdr.zig`. The records of several controllers are copied to the repository of one: for each of
them the target address of the interface is changed, its records are read, and the address is
changed back before they are added.

A request goes to the controller at the target address. The world behind the interface is a `Bus`:
the address, the state of all controllers, and what each of them has received; so the programs of
`Walk` and `Fill` are used as they are.

An empty repository is filled when it is opened. For a satellite this means that its repository is
cleared, and a satellite that cannot be opened leaves the interface behind at its address:
`restores_iff` says when neither happens. -/

namespace Ipmitool.Sdr.Satellites

open Ipmitool.Lib Ipmitool.Lib.Mem Ipmitool.Lib.Bytes Ipmitool.Lib.Machine Ipmitool.Lib.Dialogue
open Ipmitool.Core.Types hiding Entry
open Ipmitool.Core.Interface Ipmitool.Sdr.Records Ipmitool.Sdr.Walk Ipmitool.Sdr.Served
  Ipmitool.Sdr.Fill

/-! ### Controllers behind an interface -/

/-- The controllers: the one at an address answers a request. -/
abbrev Network (β : Type) := β → ℕ → Command → Option Reply × β

/-- `intf.target_addr`, the controllers, and what was sent to which address. -/
structure Bus (β : Type) where
  target : ℕ
  state : β
  received : List (ℕ × Command) := []

/-- The interface: a request goes to the target address. -/
def onBus {β : Type} (N : Network β) : Bmc (Bus β) := fun b c =>
  ((N b.state b.target c).1,
    { b with state := (N b.state b.target c).2, received := b.received ++ [(b.target, c)] })

/-- The limit of the transport for a target, and the limits of the loops. -/
structure Setup where
  maxResponse : ℕ → ℕ
  renewals : ℕ := 0
  turns : ℕ

section
variable {β : Type} (N : Network β) (S : Setup)

def target : Talk (Bus β) ℕ := return (← get).device.target

def setTarget (a : ℕ) : Talk (Bus β) Unit :=
  modify fun w => { w with device := { w.device with target := a } }

/-! ### Opening -/

/-- What is found at the beginning of `sdrStart`. -/
inductive Finding
  | nothing
  | device
  | empty
  | records
  deriving DecidableEq

/-- The first requests of `sdrStart(intf, 0)`. -/
def inspect {γ : Type} (B : Bmc γ) : Talk γ Finding := do
  match ← sendrecv B ⟨netfnAppCmd, 0, 1, []⟩ with
  | none => return .nothing
  | some r =>
    if r.ccode ≠ 0 then return .nothing
    else if r.data 1 &&& 0x80 ≠ 0 ∧ r.data 5 &&& 2 = 0 ∧ r.data 5 &&& 1 = 0 then return .nothing
    else
      if r.data 1 &&& 0x80 ≠ 0 ∧ r.data 5 &&& 2 = 0 then
        modify fun w => { w with vars := { w.vars with useBuiltIn := true } }
      let w ← get
      if w.vars.useBuiltIn then return .device
      else
        match ← sendrecv B ⟨netfnStorage, 0, 0x20, []⟩ with
        | none => return .nothing
        | some r =>
          if r.ccode ≠ 0 then return .nothing
          else return if r.data 1 = 0 ∧ r.data 2 = 0 then .empty else .records

/-- `sdrStart(intf, 0)`, with the program that fills an empty repository. -/
def startRepository {γ : Type} (B : Bmc γ) (fill : Talk γ Bool) : Talk γ (Option Itr) := do
  match ← inspect B with
  | .nothing => return none
  | .device => openDevice B
  | .empty => if ← fill then reserve B false else return none
  | .records => reserve B false

/-- `sdrStart(intf, 1)`. -/
def startBuiltIn {γ : Type} (B : Bmc γ) : Talk γ (Option Itr) := do
  match ← sendrecv B ⟨netfnAppCmd, 0, 1, []⟩ with
  | none => return none
  | some r => if r.ccode ≠ 0 then return none else openDevice B

/-! ### Copying -/

/-- The request to clear a repository; the operation is to begin, or to ask. -/
def clearRequest (reservation : UInt16) (operation : UInt8) : Command :=
  ⟨netfnStorage, 0, 0x27, le16 reservation ++ [0x43, 0x4c, 0x52, operation]⟩

/-- The loop of `sdrRepoClear`. -/
def clearLoop (reservation : UInt16) : ℕ → UInt8 → Talk (Bus β) ℤ
  | 0, _ => return -1
  | attempts + 1, operation => do
    match ← sendrecv (onBus N) (clearRequest reservation operation) with
    | none => return -1
    | some r =>
      if r.ccode ≠ 0 then return -1
      else if r.data 0 &&& 1 = 1 then return 0
      else clearLoop reservation attempts 0

/-- `sdrRepoClear`. -/
def sdrRepoClear : Talk (Bus β) ℤ := do
  match ← getReservation (onBus N) false with
  | none => return -1
  | some reservation => clearLoop N reservation 5 0xaa

/-- `printNameFromRawentry` looks into the record of a sensor or controller. -/
def printNameFromRawentry (type : UInt8) (raw : Option (List UInt8)) : Except Fault Unit :=
  if (type = 0x01 ∨ type = 0x02 ∨ type = 0x03 ∨ type = 0x12) ∧ raw = none then .error .nullUnwrap
  else .ok ()

/-- The limits of the walk at the present target; the program that fills is not used there. -/
def Setup.env (a : ℕ) : Env (Bus β) := ⟨S.maxResponse a, S.renewals, fun b n => (true, b, n)⟩

/-- The loop of `sdrrGetRecords`. -/
def getRecords : ℕ → Itr → Talk (Bus β) (List Entry)
  | 0, _ => return []
  | turns + 1, itr => do
    let h ← getNextHeader (onBus N) itr
    match h.1 with
    | none => return []
    | some header =>
      let r ← getRecord (onBus N) (S.env (← target)) header h.2
      liftM (printNameFromRawentry header.type r.1)
      let queue ← getRecords turns r.2
      return { id := header.id, version := header.version, type := header.type, length := header.length,
               raw := r.1 } :: queue

/-- `sdrrGetRecords`. -/
def sdrrGetRecords (itr : Itr) : Talk (Bus β) (List Entry) := getRecords N S S.turns itr

/-- The records of the queue are added; `rc` is -1 if one cannot be added. -/
def addQueue : List Entry → ℤ → Talk (Bus β) ℤ
  | [], rc => return rc
  | e :: queue, rc => do
    let added ← sdrAddRecord (onBus N) e
    addQueue queue (if added < 0 then -1 else rc)

/-- `sdrCopyToSdrr`, with the `sdrStart` it uses. -/
def copyWith (start : Talk (Bus β) (Option Itr)) (fromAddr toAddr : ℕ) : Talk (Bus β) ℤ := do
  setTarget fromAddr
  match ← start with
  | none => return 0
  | some itr =>
    let queue ← sdrrGetRecords N S itr
    setTarget toAddr
    addQueue N queue 0

/-- `sdrAddFromSensors(intf, 0)`, as `sdrStart` calls it: was it successful? -/
def fillEmptyRepository : Talk (Bus β) Bool := do
  let myaddr ← target
  if (← sdrRepoClear N) ≠ 0 then return false
  else return (← copyWith N S (startBuiltIn (onBus N)) myaddr myaddr) = 0

/-- `sdrStart`. -/
def start (useBuiltin : Bool) : Talk (Bus β) (Option Itr) :=
  if useBuiltin then startBuiltIn (onBus N) else startRepository (onBus N) (fillEmptyRepository N S)

/-- `sdrCopyToSdrr`. -/
def sdrCopyToSdrr (useBuiltin : Bool) (fromAddr toAddr : ℕ) : Talk (Bus β) ℤ :=
  copyWith N S (start N S useBuiltin) fromAddr toAddr

/-- The satellites are copied one after the other; the careful loop ends when `rc` is not zero. -/
def scan (careful : Bool) (myaddr : ℕ) : List ℕ → ℤ → Talk (Bus β) ℤ
  | [], rc => return rc
  | a :: rest, rc => do
    if careful ∧ rc ≠ 0 then return rc
    else
      let copied ← sdrCopyToSdrr N S false a myaddr
      scan careful myaddr rest (if copied < 0 then -1 else rc)

/-- The addresses of the slots, with a hole at `0xc2`. -/
def slots : ℕ → ℕ → List ℕ
  | 0, _ => []
  | n + 1, a => if a = 0xc2 then (a + 2) :: slots n (a + 4) else a :: slots n (a + 2)

/-- `list_value` has 128 places; `parseRangeList` stores into it. -/
def listValue (stores : List (UInt8 × UInt8)) : Except Fault (List UInt8) :=
  if stores.any fun x => 128 ≤ x.1 then .error .outOfBounds
  else .ok (stores.foldl (fun list x => list.set x.1.toNat x.2) (List.replicate 128 0))

/-- The addresses in `list_value` up to a zero, which must be there. -/
def listed (list : List UInt8) : Except Fault (List ℕ) :=
  if (0 : UInt8) ∈ list then .ok ((list.takeWhile (· ≠ 0)).map UInt8.toNat) else .error .outOfBounds

/-- What both functions do: the repository is cleared, and filled with the records of the controller
itself and of its satellites. -/
def refill (careful : Bool) (addrs : List ℕ) : Talk (Bus β) ℤ := do
  let myaddr ← target
  if (← sdrRepoClear N) ≠ 0 then return -1
  else
    let rc ← sdrCopyToSdrr N S true myaddr myaddr
    scan N S careful myaddr addrs rc

/-- `sdrAddFromSensors`. -/
def sdrAddFromSensors (maxslot : ℕ) : Talk (Bus β) ℤ := refill N S false (slots maxslot 0xb0)

/-- `sdrAddFromList`. -/
def sdrAddFromList (rangeList : List UInt8) : Talk (Bus β) ℤ := do
  let parsed := RangeList.parseRangeList rangeList
  let list ← liftM (listValue parsed.2.stores)
  if ¬ parsed.1 then return -1
  else refill N S true (← liftM (listed list))

end

/-- **The two models of `sdrStart` agree**: in `Walk` the program that fills an empty repository is
a parameter. -/
theorem sdrStart_eq {γ : Type} (B : Bmc γ) (env : Env γ) (w : CmdWorld Vars γ) :
    sdrStart B env w = startRepository B (fillEmpty env) w := by
  unfold sdrStart startRepository inspect
  rw [bind_assoc]
  refine bind_eq_bind rfl fun o w1 _ => ?_
  rcases o with _ | r
  · rfl
  have hopen : ∀ w2 : CmdWorld Vars γ, (do
      let w ← get
      if w.vars.useBuiltIn then openDevice B else openRepository B env :
        Talk γ (Option Itr)) w2 = (do
      match ← (do
        let w ← get
        if w.vars.useBuiltIn then return .device
        else
          match ← sendrecv B ⟨netfnStorage, 0, 0x20, []⟩ with
          | none => return .nothing
          | some r =>
            if r.ccode ≠ 0 then return .nothing
            else return if r.data 1 = 0 ∧ r.data 2 = 0 then .empty else .records :
              Talk γ Finding) with
      | .nothing => return none
      | .device => openDevice B
      | .empty => if ← fillEmpty env then reserve B false else return none
      | .records => reserve B false : Talk γ (Option Itr)) w2 := by
    intro w2
    rw [bind_assoc]
    refine bind_eq_bind rfl fun v w3 _ => ?_
    by_cases hb : v.vars.useBuiltIn = true
    · simp only [if_pos hb]
      rfl
    simp only [if_neg hb]
    unfold openRepository
    rw [bind_assoc]
    refine bind_eq_bind rfl fun o w4 _ => ?_
    rcases o with _ | r
    · rfl
    by_cases hc : r.ccode ≠ 0
    · simp only [if_pos hc]
      rfl
    by_cases hempty : r.data 1 = 0 ∧ r.data 2 = 0
    · simp only [if_neg hc, if_pos hempty]
      rfl
    · simp only [if_neg hc, if_neg hempty]
      rfl
  by_cases hc : r.ccode ≠ 0
  · simp only [if_pos hc]
    rfl
  by_cases hnone : r.data 1 &&& 0x80 ≠ 0 ∧ r.data 5 &&& 2 = 0 ∧ r.data 5 &&& 1 = 0
  · simp only [if_neg hc, if_pos hnone]
    rfl
  simp only [if_neg hc, if_neg hnone]
  by_cases hdevice : r.data 1 &&& 0x80 ≠ 0 ∧ r.data 5 &&& 2 = 0
  · simp only [if_pos hdevice]
    rw [bind_assoc]
    exact bind_eq_bind rfl fun _ w2 _ => hopen w2
  · simp only [if_neg hdevice]
    exact hopen w1

/-- **The two models of the filling agree**: `sdrStart` fills as `sdrAddFromSensors` does without
slots. -/
theorem fillEmptyRepository_eq {β : Type} (N : Network β) (S : Setup) (w : CmdWorld Vars (Bus β)) :
    fillEmptyRepository N S w =
      (do return (← sdrAddFromSensors N S 0) = 0 : Talk (Bus β) Bool) w := by
  unfold fillEmptyRepository sdrAddFromSensors refill
  rw [bind_assoc]
  refine bind_eq_bind rfl fun myaddr w1 _ => ?_
  rw [bind_assoc]
  refine bind_eq_bind rfl fun rc w2 _ => ?_
  by_cases hrc : rc ≠ 0
  · simp only [if_pos hrc]
    rfl
  · simp only [if_neg hrc, bind_assoc]
    rfl

/-! ### What is sent where -/

def isClear (c : Command) : Bool := c.netfn = netfnStorage ∧ c.cmd = 0x27

/-- The requests go to the target address, which stays the same, and satisfy `P`. -/
def Sends {β : Type} (P : Command → Prop) : Frame (CmdWorld Vars (Bus β)) where
  rel w w' := w'.device.target = w.device.target ∧
    ∃ evs, w'.device.received = w.device.received ++ evs ∧ ∀ x ∈ evs, x.1 = w.device.target ∧ P x.2
  refl w := ⟨rfl, [], by simp, by simp⟩
  trans := by
    rintro w w1 w2 ⟨ht1, evs1, h1, hp1⟩ ⟨ht2, evs2, h2, hp2⟩
    refine ⟨ht2.trans ht1, evs1 ++ evs2, by rw [h2, h1, List.append_assoc], fun x hx => ?_⟩
    rcases List.mem_append.mp hx with hx | hx
    · exact hp1 x hx
    · exact ht1 ▸ hp2 x hx

/-- Nothing is cleared. -/
abbrev Still {β : Type} : Frame (CmdWorld Vars (Bus β)) := Sends fun c => isClear c = false

section Still
variable {β : Type} {N : Network β} {S : Setup}

theorem sends_sendrecv {P : Command → Prop} {c : Command} (hc : P c) :
    Moves (Sends P) (sendrecv (onBus N) c : Talk (Bus β) (Option Reply)) := by
  intro w r w' h
  obtain ⟨-, rfl⟩ := ask_ok.mp h
  refine ⟨rfl, [(w.device.target, c)], rfl, fun x hx => ?_⟩
  rw [List.mem_singleton.mp hx]
  exact ⟨rfl, hc⟩

theorem not_isClear_of_isWalk {c : Command} (h : isWalk c = true) : isClear c = false := by
  by_contra hclear
  obtain ⟨hnetfn, hcmd⟩ : c.netfn = netfnStorage ∧ c.cmd = 0x27 := by simpa [isClear] using hclear
  simp [isWalk, hnetfn, hcmd, netfnStorage, netfnAppCmd] at h

theorem still_of_quiet {α : Type} {x : Talk (Bus β) α}
    (h : ∀ I : Bus β → Prop, (∀ b c, isWalk c = true → I b → I (onBus N b c).2) → Moves
      (Quiet I) x) :
    Moves Still x := by
  intro w a w' hx
  let I : Bus β → Prop := fun b => b.target = w.device.target ∧
    ∃ evs, b.received = w.device.received ++ evs ∧ ∀ x ∈ evs, x.1 = w.device.target ∧
      isClear x.2 = false
  have hkeeps : ∀ b c, isWalk c = true → I b → I (onBus N b c).2 := by
    rintro b c hc ⟨ht, evs, hevs, hall⟩
    refine ⟨ht, evs ++ [(b.target, c)], ?_, fun x hx => ?_⟩
    · rw [← List.append_assoc, ← hevs]
      rfl
    · rcases List.mem_append.mp hx with hx | hx
      · exact hall x hx
      · rw [List.mem_singleton.mp hx]
        exact ⟨ht, not_isClear_of_isWalk hc⟩
  exact (h I hkeeps w a w' hx).2.2 ⟨rfl, [], by simp, by simp⟩

theorem still_reserve (b : Bool) : Moves Still (reserve (onBus N) b) :=
  still_of_quiet (N := N) fun _ hkeeps => quiet_reserve hkeeps b

theorem still_openDevice : Moves Still (openDevice (onBus N)) := by
  refine .bind (sends_sendrecv rfl) fun o => ?_
  rcases o with _ | r
  · exact .pure _
  · exact .ite (fun _ => .pure _) fun _ => still_reserve true

theorem still_startBuiltIn : Moves Still (startBuiltIn (onBus N)) := by
  refine .bind (sends_sendrecv rfl) fun o => ?_
  rcases o with _ | r
  · exact .pure _
  · exact .ite (fun _ => .pure _) fun _ => still_openDevice

theorem still_inspect : Moves Still (inspect (onBus N)) := by
  have hrest : Moves Still (do
      let w ← get
      if w.vars.useBuiltIn then return .device
      else
        match ← sendrecv (onBus N) ⟨netfnStorage, 0, 0x20, []⟩ with
        | none => return .nothing
        | some r =>
          if r.ccode ≠ 0 then return .nothing
          else return if r.data 1 = 0 ∧ r.data 2 = 0 then .empty else .records :
            Talk (Bus β) Finding) := by
    refine .bind .get fun w => .ite (fun _ => .pure _) fun _ => .bind (sends_sendrecv rfl) fun o => ?_
    rcases o with _ | r
    · exact .pure _
    · exact .ite (fun _ => .pure _) fun _ => .pure _
  refine .bind (sends_sendrecv rfl) fun o => ?_
  rcases o with _ | r
  · exact .pure _
  · exact .ite (fun _ => .pure _) fun _ => .ite (fun _ => .pure _) fun _ => .ite
      (fun _ => .bind (.modify fun w => ⟨rfl, [], by simp, by simp⟩) fun _ => hrest) fun _ => hrest

theorem still_getRecords : ∀ (turns : ℕ) (itr : Itr), Moves Still (getRecords N S turns itr)
  | 0, itr => .pure _
  | turns + 1, itr => by
    refine .bind (still_of_quiet (N := N) fun _ hkeeps => quiet_getNextHeader hkeeps itr) fun h =>
      ?_
    rcases h with ⟨_ | header, itr1⟩
    · exact .pure _
    · exact .bind (.bind .get fun _ => .pure _) fun a =>
        .bind (still_of_quiet (N := N) fun _ hkeeps => quiet_getRecord hkeeps header itr1) fun r =>
          .bind (.lift _) fun _ => .bind (still_getRecords turns r.2) fun _ => .pure _

theorem still_partialSend (reservation id : UInt16) (offset inProgress : UInt8)
    (data : List UInt8) :
    Moves Still (partialSend (onBus N) (addRequest reservation id offset inProgress data)) := by
  refine .bind (sends_sendrecv rfl) fun o => ?_
  rcases o with _ | r
  · exact .pure _
  · exact .pure _

theorem still_addLoop (reservation : UInt16) (raw : List UInt8) (len : ℕ) :
    ∀ (fuel : ℕ) (id : UInt16) (i : ℕ),
    Moves Still (addLoop (onBus N) reservation raw len fuel id i)
  | 0, id, i => .pure _
  | fuel + 1, id, i => by
    refine .ite (fun _ => .pure _) fun _ => .bind (still_partialSend _ _ _ _ _) fun o => ?_
    rcases o with _ | id'
    · exact .pure _
    · exact still_addLoop reservation raw len fuel id' _

theorem still_sdrAddRecord (e : Entry) : Moves Still (sdrAddRecord (onBus N) e) := by
  unfold sdrAddRecord
  rcases e.raw with _ | raw
  · exact .pure _
  · refine .ite (fun _ => .pure _) fun _ =>
      .bind (still_of_quiet (N := N) fun _ hkeeps => quiet_getReservation hkeeps false) fun o => ?_
    rcases o with _ | reservation
    · exact .pure _
    · refine .bind (still_partialSend _ _ _ _ _) fun o => ?_
      rcases o with _ | id
      · exact .pure _
      · exact still_addLoop _ _ _ _ _ _

theorem still_addQueue : ∀ (queue : List Entry) (rc : ℤ), Moves Still (addQueue N queue rc)
  | [], _ => .pure _
  | e :: queue, _ => .bind (still_sdrAddRecord e) fun _ => still_addQueue queue _

end Still

/-! ### Satellites that are opened, and that are cleared -/

section
variable {β : Type} (N : Network β) (S : Setup)

/-- The world with another target address. -/
def aimedAt (a : ℕ) (w : CmdWorld Vars (Bus β)) : CmdWorld Vars (Bus β) :=
  { w with device := { w.device with target := a } }

/-- The controller at `a` can be opened. -/
def Opens (useBuiltin : Bool) (a : ℕ) (w : CmdWorld Vars (Bus β)) : Prop :=
  ∃ itr w', start N S useBuiltin (aimedAt a w) = .ok (some itr, w')

/-- The controller at `a` has an empty repository, and grants a reservation for it. -/
def Empty (a : ℕ) (w : CmdWorld Vars (Bus β)) : Prop :=
  ∃ w1 reservation w2, inspect (onBus N) (aimedAt a w) = .ok (.empty, w1) ∧
    getReservation (onBus N) false w1 = .ok (some reservation, w2)

/-- The target address is `my`, and nothing was cleared since `w` except at this address. -/
structure Kept (my : ℕ) (w w' : CmdWorld Vars (Bus β)) : Prop where
  target : w'.device.target = my
  cleared : ∃ evs, w'.device.received = w.device.received ++ evs ∧ ∀ x ∈ evs,
    isClear x.2 = true → x.1 = my

end

section
variable {β : Type} {N : Network β} {S : Setup} {w w' : CmdWorld Vars (Bus β)}

theorem clearLoop_sends {reservation : UInt16} : ∀ (attempts : ℕ) (operation : UInt8),
    Moves (Sends fun c => isClear c = true) (clearLoop N reservation attempts operation)
  | 0, _ => .pure _
  | attempts + 1, operation => by
    refine .bind (sends_sendrecv rfl) fun o => ?_
    rcases o with _ | r
    · exact .pure _
    · exact .ite (fun _ => .pure _) fun _ => .ite (fun _ => .pure _) fun _ =>
      clearLoop_sends attempts 0

theorem clearLoop_clears {reservation : UInt16} {attempts : ℕ} {operation : UInt8} {rc : ℤ}
    (h : clearLoop N reservation (attempts + 1) operation w = .ok (rc, w')) :
    ∃ evs, w'.device.received = w.device.received ++
      (w.device.target, clearRequest reservation operation) :: evs := by
  obtain ⟨o, w1, ho, h⟩ := bind_ok.mp h
  obtain ⟨-, rfl⟩ := ask_ok.mp ho
  obtain ⟨-, evs, hevs, -⟩ : (Sends fun c => isClear c = true).rel
      (w.asked (onBus N) (clearRequest reservation operation)) w' := by
    rcases o with _ | r
    · exact (Moves.pure _).rel h
    · simp only at h
      exact (Moves.ite (fun _ => .pure _) fun _ => .ite (fun _ => .pure _) fun _ =>
        clearLoop_sends attempts 0).rel h
  refine ⟨evs, ?_⟩
  rw [hevs, List.append_cons]
  rfl

/-- The requests went to the target address, and the repository there was cleared exactly if `C`. -/
structure Clears (C : Prop) (w w' : CmdWorld Vars (Bus β)) : Prop where
  target : w'.device.target = w.device.target
  sent : ∃ evs, w'.device.received = w.device.received ++ evs ∧ (∀ x ∈ evs, x.1 = w.device.target) ∧
    ((∃ x ∈ evs, isClear x.2 = true) ↔ C)

theorem Clears.of_still (h : Still.rel w w') : Clears False w w' := by
  obtain ⟨ht, evs, hevs, hall⟩ := h
  refine ⟨ht, evs, hevs, fun x hx => (hall x hx).1, ?_⟩
  simp only [iff_false]
  rintro ⟨x, hx, hclear⟩
  rw [(hall x hx).2] at hclear
  cases hclear

theorem Clears.iff {C D : Prop} (h : Clears C w w') (hCD : C ↔ D) : Clears D w w' :=
  ⟨h.target, by rw [← propext hCD]; exact h.sent⟩

theorem Clears.trans {C D : Prop} {w1 : CmdWorld Vars (Bus β)} (h1 : Clears C w w1)
    (h2 : Clears D w1 w') :
    Clears (C ∨ D) w w' := by
  obtain ⟨ht1, evs1, hevs1, hall1, hiff1⟩ := h1
  obtain ⟨ht2, evs2, hevs2, hall2, hiff2⟩ := h2
  refine ⟨ht2.trans ht1, evs1 ++ evs2, by rw [hevs2, hevs1, List.append_assoc], fun x hx => ?_, ?_⟩
  · rcases List.mem_append.mp hx with hx | hx
    · exact hall1 x hx
    · exact (hall2 x hx).trans ht1
  · rw [← hiff1, ← hiff2]
    simp only [List.mem_append, or_and_right, exists_or]

theorem sdrRepoClear_clears {rc : ℤ} (h : sdrRepoClear N w = .ok (rc, w')) :
    Clears (∃ reservation w1, getReservation (onBus N) false w = .ok
      (some reservation, w1)) w w' := by
  obtain ⟨o, w1, ho, h⟩ := bind_ok.mp h
  have hreserve : Clears False w w1 :=
    .of_still ((still_of_quiet (N := N) fun _ hkeeps => quiet_getReservation hkeeps false).rel ho)
  rcases o with _ | reservation
  · obtain ⟨-, rfl⟩ := pure_ok.mp h
    refine hreserve.iff (false_iff _ |>.mpr ?_)
    rintro ⟨reservation, w2, h2⟩
    rw [ho] at h2
    cases h2
  · obtain ⟨ht, evs, hevs, hall⟩ := (clearLoop_sends 5 0xaa).rel h
    obtain ⟨rest, hrest⟩ := clearLoop_clears h
    obtain rfl : evs = (w1.device.target, clearRequest reservation 0xaa) :: rest :=
      List.append_cancel_left (hevs.symm.trans hrest)
    have hloop : Clears True w1 w' := by
      refine ⟨ht, _, hevs, fun x hx => (hall x hx).1, iff_true _ |>.mpr ?_⟩
      exact ⟨_, List.mem_cons_self, rfl⟩
    refine (hreserve.trans hloop).iff ?_
    simp only [false_or, true_iff]
    exact ⟨reservation, w1, ho⟩

theorem target_ok {a : ℕ} (h : target w = .ok (a, w')) : w.device.target = a ∧ w = w' := by
  obtain ⟨_, _, hget, h⟩ := bind_ok.mp h
  obtain ⟨rfl, rfl⟩ := get_ok.mp hget
  obtain ⟨rfl, rfl⟩ := pure_ok.mp h
  exact ⟨rfl, rfl⟩

/-- A copy: nothing but the start can clear, and the target is the destination if the source is
opened. -/
theorem copyWith_spec {start : Talk (Bus β) (Option Itr)} {a t : ℕ} {rc : ℤ}
    (h : copyWith N S start a t w = .ok (rc, w')) :
    ∃ o w1, start (aimedAt a w) = .ok (o, w1) ∧ (o = none → rc = 0 ∧ w' = w1) ∧
      (o ≠ none → w'.device.target = t ∧
      ∃ evs, w'.device.received = w1.device.received ++ evs ∧
        ∀ x ∈ evs, (x.1 = w1.device.target ∨ x.1 = t) ∧ isClear x.2 = false) := by
  obtain ⟨_, w0, hset, h⟩ := bind_ok.mp h
  obtain rfl := modify_ok.mp hset
  obtain ⟨o, w1, ho, h⟩ := bind_ok.mp h
  refine ⟨o, w1, ho, ?_⟩
  rcases o with _ | itr
  · obtain ⟨rfl, rfl⟩ := pure_ok.mp h
    simp
  · obtain ⟨queue, w2, hqueue, h⟩ := bind_ok.mp h
    obtain ⟨_, w3, hset, h⟩ := bind_ok.mp h
    obtain rfl := modify_ok.mp hset
    obtain ⟨-, evs1, hevs1, hall1⟩ := (still_getRecords S.turns itr).rel hqueue
    obtain ⟨ht2, evs2, hevs2, hall2⟩ := (still_addQueue queue 0).rel h
    refine ⟨by simp, fun _ => ⟨ht2, evs1 ++ evs2,
      by rw [hevs2, ← List.append_assoc, ← hevs1], fun x hx => ?_⟩⟩
    rcases List.mem_append.mp hx with hx | hx
    · exact ⟨.inl (hall1 x hx).1, (hall1 x hx).2⟩
    · exact ⟨.inr (hall2 x hx).1, (hall2 x hx).2⟩

theorem copyBuiltIn_still {rc : ℤ}
    (h : copyWith N S (startBuiltIn (onBus N)) w.device.target w.device.target w = .ok (rc, w')) :
    Still.rel w w' := by
  obtain ⟨o, w1, hstart, hnone, hsome⟩ := copyWith_spec h
  obtain ⟨ht, evs, hevs, hall⟩ := still_startBuiltIn.rel hstart
  by_cases ho : o = none
  · obtain ⟨-, rfl⟩ := hnone ho
    exact ⟨ht, evs, hevs, hall⟩
  · obtain ⟨ht2, evs2, hevs2, hall2⟩ := hsome ho
    refine ⟨ht2, evs ++ evs2, by rw [hevs2, hevs, List.append_assoc]; rfl, fun x hx => ?_⟩
    rcases List.mem_append.mp hx with hx | hx
    · exact hall x hx
    · obtain ⟨hx1 | hx1, hclear⟩ := hall2 x hx
      · exact ⟨hx1.trans ht, hclear⟩
      · exact ⟨hx1, hclear⟩

theorem fillEmptyRepository_clears {filled : Bool}
    (h : fillEmptyRepository N S w = .ok (filled, w')) :
    Clears (∃ reservation w1, getReservation (onBus N) false w = .ok
      (some reservation, w1)) w w' := by
  obtain ⟨myaddr, _, htarget, h⟩ := bind_ok.mp h
  obtain ⟨rfl, rfl⟩ := target_ok htarget
  obtain ⟨rc, w1, hclear, h⟩ := bind_ok.mp h
  have hclears := sdrRepoClear_clears hclear
  by_cases hrc : rc ≠ 0
  · rw [if_pos hrc] at h
    obtain ⟨-, rfl⟩ := pure_ok.mp h
    exact hclears
  · rw [if_neg hrc] at h
    obtain ⟨rc2, w2, hcopy, h⟩ := bind_ok.mp h
    obtain ⟨-, rfl⟩ := pure_ok.mp h
    rw [← hclears.target] at hcopy
    exact (hclears.trans (.of_still (copyBuiltIn_still hcopy))).iff (or_iff_left not_false)

theorem start_clears {useBuiltin : Bool} {o : Option Itr} {a : ℕ}
    (h : start N S useBuiltin (aimedAt a w) = .ok (o, w')) :
    Clears (useBuiltin = false ∧ Empty N a w) (aimedAt a w) w' := by
  rcases useBuiltin
  · obtain ⟨found, w1, hinspect, h⟩ := bind_ok.mp h
    have hstill := Clears.of_still (still_inspect.rel hinspect)
    have hnot : found ≠ .empty → ¬ (false = false ∧ Empty N a w) := by
      rintro hne ⟨-, w2, -, -, hempty, -⟩
      rw [hinspect] at hempty
      exact hne (Prod.mk.inj (Except.ok.inj hempty)).1
    have hrest : found ≠ .empty → Still.rel w1 w' →
        Clears (false = false ∧ Empty N a w) (aimedAt a w) w' := by
      intro hne hw1
      refine (hstill.trans (.of_still hw1)).iff ?_
      rw [or_self, false_iff]
      exact hnot hne
    rcases found
    · exact hrest (by decide) ((Moves.pure _).rel h)
    · exact hrest (by decide) (still_openDevice.rel h)
    · obtain ⟨filled, w2, hfill, h⟩ := bind_ok.mp h
      have hreserve : Still.rel w2 w' :=
        (Moves.ite (fun _ => still_reserve false) fun _ => .pure _).rel h
      refine ((hstill.trans (fillEmptyRepository_clears hfill)).trans (.of_still hreserve)).iff ?_
      simp only [false_or, or_false, true_and]
      constructor
      · rintro ⟨reservation, w3, h3⟩
        exact ⟨w1, reservation, w3, hinspect, h3⟩
      · rintro ⟨w1', reservation, w3, hinspect', h3⟩
        rw [hinspect] at hinspect'
        obtain ⟨-, rfl⟩ := Prod.mk.inj (Except.ok.inj hinspect')
        exact ⟨reservation, w3, h3⟩
    · exact hrest (by decide) ((still_reserve false).rel h)
  · refine (Clears.of_still (still_startBuiltIn.rel h)).iff ?_
    simp

theorem sdrCopyToSdrr_spec {useBuiltin : Bool} {a t : ℕ} {rc : ℤ}
    (h : sdrCopyToSdrr N S useBuiltin a t w = .ok (rc, w')) :
    (Opens N S useBuiltin a w → w'.device.target = t) ∧
    (¬ Opens N S useBuiltin a w → w'.device.target = a ∧ rc = 0) ∧
    ∃ evs, w'.device.received = w.device.received ++ evs ∧ ∀ my,
      (∀ x ∈ evs, isClear x.2 = true → x.1 = my) ↔
      (a ≠ my → ¬ (useBuiltin = false ∧ Empty N a w)) := by
  obtain ⟨o, w1, hstart, hnone, hsome⟩ := copyWith_spec h
  obtain ⟨ht, evs, hevs, hall, hiff⟩ := start_clears hstart
  have hforeign : ∀ my, (∀ x ∈ evs, isClear x.2 = true → x.1 = my) ↔
      (a ≠ my → ¬ (useBuiltin = false ∧ Empty N a w)) := by
    intro my
    rw [← hiff]
    constructor
    · rintro hmy hne ⟨x, hx, hclear⟩
      exact hne ((hall x hx).symm.trans (hmy x hx hclear))
    · intro hmy x hx hclear
      by_contra hne
      exact hmy (fun he => hne ((hall x hx).trans he)) ⟨x, hx, hclear⟩
  by_cases ho : o = none
  · obtain ⟨rfl, rfl⟩ := hnone ho
    refine ⟨?_, fun _ => ⟨ht, rfl⟩, evs, hevs, hforeign⟩
    rintro ⟨itr, w2, hopen⟩
    rw [hstart, ho] at hopen
    cases hopen
  · obtain ⟨ht2, evs2, hevs2, hall2⟩ := hsome ho
    refine ⟨fun _ => ht2, fun hclosed => ?_, evs ++ evs2, by rw [hevs2, hevs, List.append_assoc]; rfl, fun my => ?_⟩
    · obtain ⟨itr, rfl⟩ := Option.ne_none_iff_exists'.mp ho
      exact (hclosed ⟨itr, w1, hstart⟩).elim
    · rw [← hforeign my]
      constructor
      · intro hmy x hx
        exact hmy x (List.mem_append_left _ hx)
      · intro hmy x hx hclear
        rcases List.mem_append.mp hx with hx | hx
        · exact hmy x hx hclear
        · rw [(hall2 x hx).2] at hclear
          cases hclear

end

/-! ### Runs over satellites -/

section
variable {β : Type} (N : Network β) (S : Setup)

/-- No satellite of the scan has an empty repository that it lets be cleared, and the last one can
be opened. -/
def Sound (careful : Bool) (my : ℕ) : List ℕ → ℤ → CmdWorld Vars (Bus β) → Prop
  | [], _, _ => True
  | a :: rest, rc, w => (careful = true ∧ rc ≠ 0) ∨
    ((a ≠ my → ¬ Empty N a w) ∧ (rest = [] → a = my ∨ Opens N S false a w) ∧
      ∀ copied w', sdrCopyToSdrr N S false a my w = .ok (copied, w') →
        Sound careful my rest (if copied < 0 then -1 else rc) w')

/-- A call of one of the three functions. -/
inductive Call
  | copy (useBuiltin : Bool) (fromAddr toAddr : ℕ)
  | fromSensors (maxslot : ℕ)
  | fromList (rangeList : List UInt8)

def Call.run : Call → Talk (Bus β) ℤ
  | .copy useBuiltin fromAddr toAddr => sdrCopyToSdrr N S useBuiltin fromAddr toAddr
  | .fromSensors maxslot => sdrAddFromSensors N S maxslot
  | .fromList rangeList => sdrAddFromList N S rangeList

/-- The scan of satellites, if the repository is cleared, is sound. -/
def SoundRefill (careful : Bool) (addrs : List ℕ) (w : CmdWorld Vars (Bus β)) : Prop :=
  ∀ w1, sdrRepoClear N w = .ok (0, w1) → ∀ rc w2,
    sdrCopyToSdrr N S true w.device.target w.device.target w1 = .ok (rc, w2) →
    Sound N S careful w.device.target addrs rc w2

/-- The condition for a call. -/
def Call.Sound : Call → CmdWorld Vars (Bus β) → Prop
  | .copy useBuiltin fromAddr toAddr, w =>
    (fromAddr ≠ w.device.target → ¬ (useBuiltin = false ∧ Empty N fromAddr w)) ∧
    (Opens N S useBuiltin fromAddr w → toAddr = w.device.target) ∧
    (¬ Opens N S useBuiltin fromAddr w → fromAddr = w.device.target)
  | .fromSensors maxslot, w => SoundRefill N S false (slots maxslot 0xb0) w
  | .fromList rangeList, w => (RangeList.parseRangeList rangeList).1 = true →
    ∀ list addrs, listValue (RangeList.parseRangeList rangeList).2.stores = .ok list →
      listed list = .ok addrs →
      SoundRefill N S true addrs w

end

section
variable {β : Type} {N : Network β} {S : Setup} {careful : Bool} {my : ℕ}

theorem kept_append {w w1 w' : CmdWorld Vars (Bus β)} {evs : List (ℕ × Command)}
    (h1 : w1.device.received = w.device.received ++ evs)
    (h2 : ∃ evs2, w'.device.received = w1.device.received ++ evs2) :
    Kept my w w' ↔ (∀ x ∈ evs, isClear x.2 = true → x.1 = my) ∧ Kept my w1 w' := by
  obtain ⟨evs2, hevs2⟩ := h2
  have hall : w'.device.received = w.device.received ++ (evs ++ evs2) := by
    rw [hevs2, h1, List.append_assoc]
  constructor
  · rintro ⟨ht, evs', hevs', hmy⟩
    obtain rfl : evs' = evs ++ evs2 := List.append_cancel_left (hevs'.symm.trans hall)
    exact ⟨fun x hx => hmy x (List.mem_append_left _ hx), ht, evs2, hevs2,
      fun x hx => hmy x (List.mem_append_right _ hx)⟩
  · rintro ⟨hmy, ht, evs', hevs', hmy'⟩
    obtain rfl : evs' = evs2 := List.append_cancel_left (hevs'.symm.trans hevs2)
    refine ⟨ht, evs ++ evs', hall, fun x hx => ?_⟩
    rcases List.mem_append.mp hx with hx | hx
    · exact hmy x hx
    · exact hmy' x hx

/-- The scan keeps the target address and the other repositories exactly if it is sound. -/
theorem scan_kept_iff {rc' : ℤ} {w' : CmdWorld Vars (Bus β)} :
    ∀ {addrs : List ℕ} {rc : ℤ} {w : CmdWorld Vars (Bus β)},
    scan N S careful my addrs rc w = .ok (rc', w') →
    ((addrs = [] ∨ careful = true ∧ rc ≠ 0) → w.device.target = my) →
    (∃ evs, w'.device.received = w.device.received ++ evs) ∧
    (Kept my w w' ↔ Sound N S careful my addrs rc w)
  | [], rc, w, h, hmy => by
    obtain ⟨-, rfl⟩ := pure_ok.mp h
    exact ⟨⟨[], by simp⟩, iff_of_true ⟨hmy (.inl rfl), [], by simp, by simp⟩ trivial⟩
  | a :: rest, rc, w, h, hmy => by
    rw [scan] at h
    by_cases hstop : careful = true ∧ rc ≠ 0
    · rw [if_pos hstop] at h
      obtain ⟨-, rfl⟩ := pure_ok.mp h
      exact ⟨⟨[], by simp⟩, iff_of_true ⟨hmy (.inr hstop), [], by simp, by simp⟩ (.inl hstop)⟩
    rw [if_neg hstop] at h
    obtain ⟨copied, w1, hcopy, h⟩ := bind_ok.mp h
    obtain ⟨hopened, hclosed, evs, hevs, hforeign⟩ := sdrCopyToSdrr_spec hcopy
    simp only [true_and] at hforeign
    have hsound : Sound N S careful my (a :: rest) rc w ↔ (a ≠ my → ¬ Empty N a w) ∧
        (rest = [] → a = my ∨ Opens N S false a w) ∧
          Sound N S careful my rest (if copied < 0 then -1 else rc) w1 := by
      rw [Sound, or_iff_right hstop]
      refine and_congr_right fun _ => and_congr_right fun _ =>
        ⟨fun hall => hall _ _ hcopy, fun hw1 c v hv => ?_⟩
      rw [hcopy] at hv
      obtain ⟨rfl, rfl⟩ := Prod.mk.inj (Except.ok.inj hv)
      exact hw1
    by_cases hlast : rest = []
    · subst hlast
      obtain ⟨-, rfl⟩ := pure_ok.mp h
      refine ⟨⟨evs, hevs⟩, ?_⟩
      rw [hsound, kept_append hevs ⟨[], by simp⟩, hforeign my]
      refine and_congr_right fun _ => ?_
      have hself : Kept my w1 w1 ↔ w1.device.target = my :=
        ⟨Kept.target, fun ht => ⟨ht, [], by simp, by simp⟩⟩
      rw [hself]
      simp only [true_imp_iff, Sound, and_true]
      by_cases hopen : Opens N S false a w
      · exact iff_of_true (hopened hopen) (.inr hopen)
      · rw [(hclosed hopen).1, or_iff_left hopen]
    · obtain ⟨hgrows, hiff⟩ := scan_kept_iff h (fun hcase => by
        obtain ⟨hcareful, hrc⟩ := hcase.resolve_left hlast
        refine hopened ?_
        by_contra hopen
        obtain ⟨-, rfl⟩ := hclosed hopen
        exact hstop ⟨hcareful, hrc⟩)
      obtain ⟨evs2, hevs2⟩ := hgrows
      refine ⟨⟨evs ++ evs2, by rw [hevs2, hevs, List.append_assoc]⟩, ?_⟩
      rw [hsound, kept_append hevs ⟨evs2, hevs2⟩, hforeign my, hiff]
      exact and_congr_right fun _ => (and_iff_right fun h => (hlast h).elim).symm

/-- The controller itself is cleared and filled, and its satellites decide the rest. -/
theorem refill_kept_iff {addrs : List ℕ} {rc : ℤ} {w w' : CmdWorld Vars (Bus β)}
    (h : refill N S careful addrs w = .ok (rc, w')) :
    Kept w.device.target w w' ↔ SoundRefill N S careful addrs w := by
  obtain ⟨myaddr, _, htarget, h⟩ := bind_ok.mp h
  obtain ⟨rfl, rfl⟩ := target_ok htarget
  obtain ⟨cleared, w1, hclear, h⟩ := bind_ok.mp h
  obtain ⟨ht1, evs1, hevs1, hall1, -⟩ := sdrRepoClear_clears hclear
  by_cases hrc : cleared ≠ 0
  · rw [if_pos hrc] at h
    obtain ⟨-, rfl⟩ := pure_ok.mp h
    refine iff_of_true ⟨ht1, evs1, hevs1, fun x hx _ => hall1 x hx⟩ fun w2 h2 => ?_
    rw [hclear] at h2
    exact (hrc (Prod.mk.inj (Except.ok.inj h2)).1).elim
  rw [if_neg hrc] at h
  obtain ⟨rc2, w2, hcopy, h⟩ := bind_ok.mp h
  have hcopy' : copyWith N S (startBuiltIn (onBus N)) w1.device.target w1.device.target w1 =
      .ok (rc2, w2) := by
    rw [ht1]
    exact hcopy
  obtain ⟨ht2, evs2, hevs2, hall2⟩ := copyBuiltIn_still hcopy'
  obtain ⟨⟨evs3, hevs3⟩, hiff⟩ := scan_kept_iff h fun _ => ht2.trans ht1
  have hsound : SoundRefill N S careful addrs w ↔
      Sound N S careful w.device.target addrs rc2 w2 := by
    obtain rfl : cleared = 0 := not_not.mp hrc
    constructor
    · intro hall
      exact hall w1 hclear rc2 w2 hcopy
    · intro hw2 v1 hv1 c v2 hv2
      rw [hclear] at hv1
      obtain ⟨-, rfl⟩ := Prod.mk.inj (Except.ok.inj hv1)
      rw [hcopy] at hv2
      obtain ⟨rfl, rfl⟩ := Prod.mk.inj (Except.ok.inj hv2)
      exact hw2
  have hevs : w2.device.received = w.device.received ++ (evs1 ++ evs2) := by
    rw [hevs2, hevs1, List.append_assoc]
  rw [hsound, ← hiff, kept_append hevs ⟨evs3, hevs3⟩]
  refine and_iff_right fun x hx hclears => ?_
  rcases List.mem_append.mp hx with hx | hx
  · exact hall1 x hx
  · rw [(hall2 x hx).2] at hclears
    cases hclears

/-- **After a call that returns, the target address is the one from before and no other repository
was cleared, exactly if the satellite that is scanned last can be opened and none has an empty
repository.** -/
theorem restores_iff {k : Call} {rc : ℤ} {w w' : CmdWorld Vars (Bus β)}
    (h : k.run N S w = .ok (rc, w')) :
    Kept w.device.target w w' ↔ k.Sound N S w := by
  rcases k with ⟨useBuiltin, fromAddr, toAddr⟩ | maxslot | rangeList
  · obtain ⟨hopened, hclosed, evs, hevs, hforeign⟩ := sdrCopyToSdrr_spec h
    have hkept : Kept w.device.target w w' ↔
        (∀ x ∈ evs, isClear x.2 = true → x.1 = w.device.target) ∧
        w'.device.target = w.device.target := by
      rw [kept_append hevs ⟨[], by simp⟩]
      exact and_congr_right fun _ => ⟨Kept.target, fun ht => ⟨ht, [], by simp, by simp⟩⟩
    rw [hkept, hforeign]
    refine and_congr_right fun _ => ?_
    by_cases hopen : Opens N S useBuiltin fromAddr w
    · rw [hopened hopen]
      exact ⟨fun ht => ⟨fun _ => ht, fun hc => (hc hopen).elim⟩, fun hs => hs.1 hopen⟩
    · rw [(hclosed hopen).1]
      exact ⟨fun ht => ⟨fun ho => (hopen ho).elim, fun _ => ht⟩, fun hs => hs.2 hopen⟩
  · exact refill_kept_iff h
  · obtain ⟨list, _, hlift, h⟩ := bind_ok.mp h
    obtain ⟨hlist, rfl⟩ := lift_ok.mp hlift
    by_cases hparsed : (RangeList.parseRangeList rangeList).1 = true
    · rw [if_neg (not_not.mpr hparsed)] at h
      obtain ⟨addrs, _, hlift, h⟩ := bind_ok.mp h
      obtain ⟨haddrs, rfl⟩ := lift_ok.mp hlift
      rw [refill_kept_iff h]
      constructor
      · intro hsound _ list' addrs' hlist' haddrs'
        obtain rfl := Except.ok.inj (hlist.symm.trans hlist')
        obtain rfl := Except.ok.inj (haddrs.symm.trans haddrs')
        exact hsound
      · intro hsound
        exact hsound hparsed list addrs hlist haddrs
    · rw [if_pos hparsed] at h
      obtain ⟨-, rfl⟩ := pure_ok.mp h
      exact iff_of_true ⟨rfl, [], by simp, by simp⟩ fun hp => (hparsed hp).elim

end

/-! ### Two chassis -/

/-- Controllers without records: the one at `0x20` has a repository, the one at `0xb0` is as
`satellite` says. -/
def chassis (satellite : Command → Option Reply) : Network Unit := fun _ a c =>
  (if a ≠ 0x20 then satellite c
   else if c.netfn = netfnAppCmd then some (.of [0x20, 0, 0, 0, 0x02, 0x02])
   else if c.cmd = 0x20 then some (.of [0x51, 1, 0])
   else if c.cmd = 0x22 ∨ c.cmd = 0x27 then some (.of [1, 0])
   else some { ccode := 0xcb }, ())

/-- A satellite with an empty repository. -/
def emptySatellite (c : Command) : Option Reply :=
  if c.netfn = netfnAppCmd then some (.of [0x20, 0, 0, 0, 0x02, 0x02])
  else if c.cmd = 0x20 then some (.of [0x51, 0, 0])
  else if c.cmd = 0x22 ∨ c.cmd = 0x27 then some (.of [1, 0])
  else some { ccode := 0xcb }

def oneSlot : Setup := ⟨fun _ => 34, 0, 2⟩

/-- A satellite with records that is opened. -/
theorem restores_iff_chassis :
    ∃ rc w', (Call.fromSensors 1).run (chassis fun c => (chassis (fun _ => none) () 0x20 c).1)
      oneSlot { vars := {}, device := { target := 0x20, state := () } } = .ok (rc, w') ∧
    (Kept 0x20 { vars := {}, device := { target := 0x20, state := () } } w' ↔
      (Call.fromSensors 1).Sound (chassis fun c => (chassis (fun _ => none) () 0x20 c).1) oneSlot
        { vars := {}, device := { target := 0x20, state := () } }) := by
  obtain ⟨rc, w', h, -⟩ := exists_of_returns
    (x := (Call.fromSensors 1).run (chassis fun c => (chassis (fun _ => none) () 0x20 c).1) oneSlot)
    (s := { vars := {}, device := { target := 0x20, state := () } }) (p := fun _ _ => true)
      (by decide +kernel)
  exact ⟨rc, w', h, restores_iff h⟩

/-- The satellite in the only slot does not answer, or has an empty repository. -/
theorem satellite_left_behind :
    (∃ rc w', (Call.fromSensors 1).run (chassis fun _ => none) oneSlot
      { vars := {}, device := { target := 0x20, state := () } } = .ok (rc, w') ∧
      w'.device.target ≠ 0x20) ∧
    ∃ rc w', (Call.fromSensors 1).run (chassis emptySatellite) oneSlot
      { vars := {}, device := { target := 0x20, state := () } } = .ok (rc, w') ∧
      ∃ x ∈ w'.device.received, isClear x.2 = true ∧ x.1 ≠ 0x20 := by
  constructor
  · obtain ⟨rc, w', h, ht⟩ :=
      exists_of_returns (x := (Call.fromSensors 1).run (chassis fun _ => none) oneSlot)
        (s := { vars := {}, device := { target := 0x20, state := () } })
          (p := fun _ w' => w'.device.target ≠ 0x20)
        (by decide +kernel)
    exact ⟨rc, w', h, of_decide_eq_true ht⟩
  · obtain ⟨rc, w', h, hx⟩ :=
      exists_of_returns (x := (Call.fromSensors 1).run (chassis emptySatellite) oneSlot)
        (s := { vars := {}, device := { target := 0x20, state := () } })
        (p := fun _ w' => w'.device.received.any fun x => isClear x.2 && decide (x.1 ≠ 0x20))
          (by decide +kernel)
    obtain ⟨x, hx, hclear⟩ := List.any_eq_true.mp hx
    obtain ⟨hclear, hne⟩ := (Bool.and_eq_true _ _).mp hclear
    exact ⟨rc, w', h, x, hx, hclear, of_decide_eq_true hne⟩

end Ipmitool.Sdr.Satellites
