import Ipmitool.Lanplus.Unwrap
import Ipmitool.Lanplus.Wire

/-! # Bridging through the OpenIPMI driver

`sendrecv` of `intf/open.zig`, on an open interface. A request for a target behind a transit
controller is put into a Send Message request, and the answer is taken out of the answer to that.

The two ends decide differently: the request is encapsulated if there is a target and a transit
address, the answer is decapsulated if there is a transit address (`encapsulates`, `decapsulates`).
The answer of a target that refuses the request is not shifted over its completion code.
`symmetric_iff` has the exact condition under which neither matters. -/

namespace Ipmitool.OpenIpmi.Sendrecv

open Ipmitool.Lib.Mem Ipmitool.Lib.Bytes Ipmitool.Lib.Machine Ipmitool.Lib.Buffer
open Ipmitool.Core.Types Ipmitool.Lanplus.Build Ipmitool.Lanplus.Receive Ipmitool.Lanplus.Unwrap
open Ipmitool.Lanplus.Wire

/-! ### The driver -/

/-- `FD_SETSIZE`. -/
def fdSetsize : ℤ := 1024

/-- A message that the driver hands over. It fits the response buffer: a receive that succeeds is
not truncated. -/
structure DriverMsg where
  msgid : ℤ
  data : List UInt8
  fits : data.length ≤ bufSize

/-- `struct ipmi_ipmb_addr` and `struct ipmi_system_interface_addr`. -/
inductive Addr where
  | ipmb (channel slaveAddr : UInt8) (lun : Fin 4)
  | systemInterface (lun : Fin 4)
  deriving DecidableEq

/-- `struct ipmi_req`, the payload of `IPMICTL_SEND_COMMAND`. -/
structure Req where
  addr : Addr
  msgid : ℤ
  netfn : Fin 64
  cmd : UInt8
  data : List UInt8
  deriving DecidableEq

/-- The two steps that the debug log reports. -/
inductive Log where
  | encapsulating
  | decapsulating
  deriving DecidableEq

/-- The interface, the static variables of `sendrecv` and the driver: the messages still to come,
and whether it takes the next command. -/
structure St where
  intf : Intf := {}
  rsp : Response := {}
  currSeq : Int32 := 0
  inbox : List DriverMsg := []
  refuses : Bool := false
  sent : List Req := []
  log : List Log := []

/-- A program of the transport. A fault carries the state in which it happened, with what the log
has so far. -/
abbrev M := Prog (Fault × St) St

/-- A step that may fail in the current state. -/
def attempt {α : Type} (x : Except Fault α) : M α := do
  let s ← get
  match x with
  | .ok a => return a
  | .error f => throw (f, s)

/-! ### The request -/

/-- The request goes to a target on the bus. -/
def Targets (intf : Intf) : Prop := intf.targetAddr ≠ 0 ∧ intf.targetAddr ≠ intf.myAddr

/-- There is a transit controller. -/
def Transits (intf : Intf) : Prop := intf.transitAddr ≠ 0 ∧ intf.transitAddr ≠ intf.myAddr

instance (intf : Intf) : Decidable (Targets intf) := by unfold Targets; infer_instance

instance (intf : Intf) : Decidable (Transits intf) := by unfold Transits; infer_instance

/-- The data of the Send Message request around `req`. The running index is an 8-bit number. -/
def encapsulate (intf : Intf) (req : Request) : Except Fault (List UInt8) := do
  let n := req.data.length
  let buf := List.replicate (n + 8) 0
  let buf ← store .outOfBounds buf 0 [0x40 ||| intf.targetChannel, intf.targetAddr.toUInt8,
      req.netfnLun]
  let header ← load .outOfBounds buf 1 2
  let buf ← store .outOfBounds buf 3 [csum header]
  let buf ← store .outOfBounds buf 4 [0xff, 0, req.cmd]
  let buf ← store .outOfBounds buf 7 req.data
  let body ← load .outOfBounds buf 4 (n + 3)
  store .outOfBounds buf ((7 + n) % 256) [csum body]

/-- The address that the request goes to. -/
def addrOf (intf : Intf) (req : Request) : Addr :=
  if Targets intf then
    if Transits intf then .ipmb intf.transitChannel intf.transitAddr.toUInt8 req.lun
    else .ipmb (intf.targetChannel &&& 0x0f) intf.targetAddr.toUInt8 req.lun
  else .systemInterface req.lun

/-- The command that is sent, without its id. -/
def command (intf : Intf) (req : Request) (msgid : ℤ) : Except Fault (Req × List Log) :=
  if Targets intf ∧ Transits intf then do
    let data ← encapsulate intf req
    return (⟨addrOf intf req, msgid, netfnApp, 0x34, data⟩, [.encapsulating])
  else return (⟨addrOf intf req, msgid, req.netfn, req.cmd, req.data⟩, [])

/-! ### The answer -/

/-- The receive loop: messages with another id are dropped, but they have been in the response
buffer. `select` finds no data when there are no more messages. -/
def receiveLoop (msgid : ℤ) : List DriverMsg → Response → Option UInt16 × Response × List DriverMsg
  | [], r => (none, r, [])
  | m :: rest, r =>
    let r := { r with data := write r.data 0 m.data }
    if m.msgid = msgid then (some (UInt16.ofNat m.data.length), r, rest)
    else receiveLoop msgid rest r

/-- The answer to a Send Message request is taken out, if it succeeded. The move takes one byte more
than the length counts, and a message that is too short makes its length negative. -/
def decapsulate (r : Response) (dataLen : UInt16) : Except Fault (Response × UInt16) :=
  if r.data 0 = 0 then
    if dataLen.toNat < 7 then .error .outOfBounds
    else .ok ({ r with data := move r.data 0 7 (dataLen.toNat - 7) }, dataLen - 8)
  else .ok (r, dataLen)

/-- The completion code and the data are separated; those of a refused request are not. -/
def finish (r : Response) (dataLen : UInt16) : Except Fault Response :=
  let r := { r with ccode := r.data 0, dataLen := (dataLen.toNat : ℤ) - 1 }
  if r.ccode = 0 ∧ 0 < r.dataLen then
    let n := r.dataLen.toNat
    if bufSize < 1 + n then .error .outOfBounds
    else .ok { r with data := write (move r.data 0 1 n) n [0] }
  else .ok r

/-- The accepted message becomes the response. -/
def conclude (dataLen : UInt16) : M Bool := do
  let s ← get
  let (r, dataLen) ← if Transits s.intf then do
      set { s with log := s.log ++ [Log.decapsulating] }
      attempt (decapsulate s.rsp dataLen)
    else pure (s.rsp, dataLen)
  let r ← attempt (finish r dataLen)
  modify fun s => { s with rsp := r }
  return true

/-- `sendrecv`, on an open interface: is there a response? -/
def sendrecv (req : Request) : M Bool := do
  let s ← get
  let (cmd, log) ← attempt (command s.intf req s.currSeq.toInt)
  set { s with currSeq := s.currSeq + 1, log := s.log ++ log, sent := s.sent ++ [cmd] }
  if s.refuses ∨ s.intf.noanswer ∨ ¬ (0 ≤ s.intf.fd ∧ s.intf.fd < fdSetsize) then return false
  let (len, r, rest) := receiveLoop cmd.msgid s.inbox s.rsp
  modify fun s => { s with rsp := r, inbox := rest }
  match len with
  | none => return false
  | some dataLen => conclude dataLen

/-! ### The request on the wire -/

/-- The encapsulated request is a channel byte and a message with its two checksums. -/
theorem encapsulate_eq (intf : Intf) {req : Request} (h : req.data.length ≤ 248) :
    encapsulate intf req = .ok ((0x40 ||| intf.targetChannel) ::
      checksummed [intf.targetAddr.toUInt8, req.netfnLun] ([0xff, 0, req.cmd] ++ req.data)) := by
  let ch := 0x40 ||| intf.targetChannel
  let t := intf.targetAddr.toUInt8
  let c := csum [t, req.netfnLun]
  let body := [0xff, 0, req.cmd] ++ req.data
  let zeros := List.replicate req.data.length (0 : UInt8)
  have hbuf : List.replicate (req.data.length + 8) (0 : UInt8) =
      [] ++ [0, 0, 0] ++ ([0, 0, 0, 0] ++ zeros ++ [0]) := by
    rw [show req.data.length + 8 = 3 + (4 + req.data.length + 1) by omega, List.replicate_add,
      List.replicate_add, List.replicate_add]
    rfl
  have h0 := store_at Fault.outOfBounds [] ([0, 0, 0, 0] ++ zeros ++ [0])
    (show [(0 : UInt8), 0, 0].length = [ch, t, req.netfnLun].length from rfl)
  have hload := load_at Fault.outOfBounds [ch] [t, req.netfnLun] ([0, 0, 0, 0] ++ zeros ++ [0])
  have h3 := store_at Fault.outOfBounds [ch, t, req.netfnLun] ([0, 0, 0] ++ zeros ++ [0])
    (show [(0 : UInt8)].length = [c].length from rfl)
  have h4 := store_at Fault.outOfBounds [ch, t, req.netfnLun, c] (zeros ++ [0])
    (show [(0 : UInt8), 0, 0].length = [0xff, 0, req.cmd].length from rfl)
  have h7 := store_at Fault.outOfBounds [ch, t, req.netfnLun, c, 0xff, 0, req.cmd] [0]
    (show zeros.length = req.data.length by simp [zeros])
  have hbody := load_at Fault.outOfBounds [ch, t, req.netfnLun, c] body [0]
  have hlast := store_at Fault.outOfBounds ([ch, t, req.netfnLun, c] ++ body) []
    (show [(0 : UInt8)].length = [csum body].length from rfl)
  have hindex : (7 + req.data.length) % 256 = ([ch, t, req.netfnLun, c] ++ body).length := by
    simp only [body, List.length_append, List.length_cons, List.length_nil]
    omega
  simp only [List.cons_append, List.nil_append, List.length_cons, List.length_nil, List.append_nil,
    Nat.zero_add, Nat.reduceAdd, ch, t, c, body] at hbuf h0 hload h3 h4 h7 hbody hlast hindex
  unfold encapsulate
  simp only [hbuf, h0, except_ok_bind, hload, h3, h4, h7, hindex, hbody, hlast]
  simp [checksummed]

/-- The request that `sendrecv` hands to the driver. -/
def handed (intf : Intf) (req : Request) (msgid : ℤ) : Req :=
  if Targets intf ∧ Transits intf then
    ⟨addrOf intf req, msgid, netfnApp, 0x34, (0x40 ||| intf.targetChannel) ::
      checksummed [intf.targetAddr.toUInt8, req.netfnLun] ([0xff, 0, req.cmd] ++ req.data)⟩
  else ⟨addrOf intf req, msgid, req.netfn, req.cmd, req.data⟩

/-- What the log says of the request. -/
def encapsulates (intf : Intf) : List Log :=
  if Targets intf ∧ Transits intf then [.encapsulating] else []

/-- What the log says of the answer. -/
def decapsulates (intf : Intf) : List Log := if Transits intf then [.decapsulating] else []

theorem command_eq (intf : Intf) {req : Request} (h : req.data.length ≤ 248) (msgid : ℤ) :
    command intf req msgid = .ok (handed intf req msgid, encapsulates intf) := by
  unfold command handed encapsulates
  by_cases hb : Targets intf ∧ Transits intf
  · rw [if_pos hb, if_pos hb, if_pos hb, encapsulate_eq intf h]
    rfl
  · rw [if_neg hb, if_neg hb, if_neg hb]
    rfl

/-! ### The accepted message -/

/-- The driver takes the request, and there is a wait for its answer. -/
def Waits (s : St) : Prop :=
  s.refuses = false ∧ s.intf.noanswer = false ∧ 0 ≤ s.intf.fd ∧ s.intf.fd < fdSetsize

/-- The driver hands over `m`, the first message with the id of the request. -/
structure Accepts (s : St) (m : DriverMsg) : Prop where
  waits : Waits s
  first : ∃ pre rest, s.inbox = pre ++ m :: rest ∧ (∀ x ∈ pre, x.msgid ≠ s.currSeq.toInt) ∧
    m.msgid = s.currSeq.toInt

theorem receiveLoop_accepts {msgid : ℤ} {m : DriverMsg} (hm : m.msgid = msgid)
    (rest : List DriverMsg) :
    ∀ (pre : List DriverMsg) (r : Response), (∀ x ∈ pre, x.msgid ≠ msgid) → ∃ mem,
      receiveLoop msgid (pre ++ m :: rest) r =
        (some (UInt16.ofNat m.data.length), { r with data := mem }, rest) ∧ Holds mem 0 m.data
  | [], r, _ => by
    refine ⟨write r.data 0 m.data, ?_, holds_write _ _ _⟩
    rw [List.nil_append, receiveLoop, if_pos hm]
  | x :: pre, r, h => by
    obtain ⟨mem, hloop, hholds⟩ :=
  receiveLoop_accepts hm rest pre { r with data := write r.data 0 x.data }
      fun y hy => h y (List.mem_cons_of_mem _ hy)
    refine ⟨mem, ?_, hholds⟩
    rw [List.cons_append, receiveLoop, if_neg (h x List.mem_cons_self), hloop]

/-- The state behind the request, with the response buffer `r` and the messages `rest` left. -/
def behind (s : St) (req : Request) (r : Response) (rest : List DriverMsg) : St :=
  { s with rsp := r, inbox := rest, currSeq := s.currSeq + 1, log := s.log ++ encapsulates s.intf,
           sent := s.sent ++ [handed s.intf req s.currSeq.toInt] }

theorem handed_msgid (intf : Intf) (req : Request) (msgid : ℤ) :
    (handed intf req msgid).msgid = msgid := by
  unfold handed
  split_ifs <;> rfl

theorem sendrecv_not_waits {s : St} {req : Request} (hreq : req.data.length ≤ 248) (h : ¬ Waits s) :
    sendrecv req s = .ok (false, behind s req s.rsp s.inbox) := by
  have hcmd := command_eq s.intf hreq s.currSeq.toInt
  have hstop : s.refuses = true ∨ s.intf.noanswer = true ∨
      ¬ (0 ≤ s.intf.fd ∧ s.intf.fd < fdSetsize) := by
    by_contra hc
    push Not at hc
    exact h ⟨by simpa using hc.1, by simpa using hc.2.1, hc.2.2⟩
  simp only [sendrecv, attempt, hcmd, bind, StateT.bind, get, getThe, MonadStateOf.get, StateT.get,
    pure, pure_run, Except.pure, Except.bind, set, set_run, if_pos hstop, behind]

theorem sendrecv_waits {s : St} {req : Request} (hreq : req.data.length ≤ 248) (h : Waits s) :
    sendrecv req s = match receiveLoop s.currSeq.toInt s.inbox s.rsp with
      | (none, r, rest) => .ok (false, behind s req r rest)
      | (some dataLen, r, rest) => conclude dataLen (behind s req r rest) := by
  have hcmd := command_eq s.intf hreq s.currSeq.toInt
  have hgo : ¬ (s.refuses = true ∨ s.intf.noanswer = true ∨
      ¬ (0 ≤ s.intf.fd ∧ s.intf.fd < fdSetsize)) := by
    simp [h.1, h.2.1, h.2.2]
  simp only [sendrecv, attempt, hcmd, bind, StateT.bind, get, getThe, MonadStateOf.get, StateT.get,
    pure, pure_run, Except.pure, Except.bind, set, set_run, handed_msgid, if_neg hgo, modify,
    modifyGet, MonadStateOf.modifyGet, StateT.modifyGet]
  obtain ⟨len, r, rest⟩ := receiveLoop s.currSeq.toInt s.inbox s.rsp
  cases len <;> rfl

/-- The request is sent, and then there is no response or the accepted message is concluded. -/
theorem sendrecv_cases (s : St) {req : Request} (hreq : req.data.length ≤ 248) :
    ∃ r rest, sendrecv req s = .ok (false, behind s req r rest) ∨
      ∃ len, sendrecv req s = conclude len (behind s req r rest) := by
  by_cases h : Waits s
  · obtain ⟨len, r, rest, hloop⟩ : ∃ len r rest,
        receiveLoop s.currSeq.toInt s.inbox s.rsp = (len, r, rest) := ⟨_, _, _, rfl⟩
    have hrun := sendrecv_waits hreq h
    rw [hloop] at hrun
    refine ⟨r, rest, ?_⟩
    cases len with
    | none => exact .inl hrun
    | some dataLen => exact .inr ⟨dataLen, hrun⟩
  · exact ⟨s.rsp, s.inbox, .inl (sendrecv_not_waits hreq h)⟩

theorem sendrecv_accepts {s : St} {req : Request} {m : DriverMsg} (hreq : req.data.length ≤ 248)
    (h : Accepts s m) : ∃ r rest, Holds r.data 0 m.data ∧
      sendrecv req s = conclude (UInt16.ofNat m.data.length) (behind s req r rest) := by
  obtain ⟨pre, rest, hin, hpre, hid⟩ := h.first
  obtain ⟨mem, hloop, hholds⟩ := receiveLoop_accepts hid rest pre s.rsp hpre
  have hrun := sendrecv_waits hreq h.waits
  rw [hin, hloop] at hrun
  exact ⟨_, rest, hholds, hrun⟩

/-- The response that is made of the message in the buffer. -/
def respond (intf : Intf) (r : Response) (dataLen : UInt16) : Except Fault Response :=
  if Transits intf then decapsulate r dataLen >>= fun p => finish p.1 p.2 else finish r dataLen

theorem conclude_eq (len : UInt16) (t : St) : conclude len t =
    match respond t.intf t.rsp len with
    | .ok r => .ok (true, { t with rsp := r, log := t.log ++ decapsulates t.intf })
    | .error f => .error (f, { t with log := t.log ++ decapsulates t.intf }) := by
  simp only [conclude, respond, decapsulates, attempt, bind, StateT.bind, get, getThe,
    MonadStateOf.get, StateT.get, set, pure, Except.pure, Except.bind]
  by_cases ht : Transits t.intf
  · simp only [if_pos ht]
    cases decapsulate t.rsp len with
    | error f => rfl
    | ok p =>
      simp only [StateT.bind, StateT.get, pure_run, set_run, bind, Except.bind, pure, Except.pure]
      cases finish p.1 p.2 <;> rfl
  · simp only [if_neg ht, List.append_nil]
    simp only [StateT.bind, StateT.get, pure_run, bind, Except.bind, pure, Except.pure]
    cases finish t.rsp len <;> rfl

/-- The state in which a run ends, also if it ends with a fault. -/
def ending (r : Except (Fault × St) (Bool × St)) : St :=
  match r with
  | .ok (_, s) => s
  | .error (_, s) => s

theorem conclude_log (len : UInt16) (t : St) :
    (ending (conclude len t)).log = t.log ++ decapsulates t.intf := by
  rw [conclude_eq]
  cases respond t.intf t.rsp len <;> rfl

theorem conclude_sent (len : UInt16) (t : St) : (ending (conclude len t)).sent = t.sent := by
  rw [conclude_eq]
  cases respond t.intf t.rsp len <;> rfl

/-! ### What is delivered -/

/-- What the response buffer begins with: the data, or the completion code of a refused request and
the data without its last byte. -/
def delivered (ccode : UInt8) (data : List UInt8) : List UInt8 :=
  if ccode = 0 then data else (ccode :: data).take data.length

theorem finish_holds {r : Response} {ccode : UInt8} {data : List UInt8} {len : UInt16}
    (h : Holds r.data 0 (ccode :: data)) (hlen : len.toNat = data.length + 1)
    (hfit : data.length < bufSize) : ∃ mem, finish r len =
      .ok { r with ccode := ccode, dataLen := data.length, data := mem } ∧
        Holds mem 0 (delivered ccode data) := by
  obtain ⟨hcc, hdata⟩ := holds_cons.mp h
  have hlen' : (len.toNat : ℤ) - 1 = data.length := by omega
  unfold finish delivered
  simp only [hcc, hlen']
  by_cases hz : ccode = 0
  · by_cases hne : 0 < (data.length : ℤ)
    · have hroom : ¬ bufSize < 1 + data.length := by omega
      rw [if_pos ⟨hz, hne⟩, if_pos hz, Int.toNat_natCast, if_neg hroom]
      refine ⟨_, rfl, Holds.write_behind ?_ (by omega) _⟩
      have hmove : move r.data 0 1 data.length = write r.data 0 data := congrArg _ hdata
      rw [hmove]
      exact holds_write _ _ _
    · have hnil : data = [] := List.length_eq_zero_iff.mp (by omega)
      subst hnil
      rw [if_neg fun hc => hne hc.2, if_pos hz]
      exact ⟨r.data, rfl, holds_nil _ _⟩
  · rw [if_neg fun hc => hz hc.1, if_neg hz]
    refine ⟨r.data, rfl, ?_⟩
    have hsplit := List.take_append_drop data.length (ccode :: data)
    rw [← hsplit, holds_append] at h
    exact h.1

theorem decapsulate_holds {r : Response} {a : Answer} {len : UInt16}
    (h : Holds r.data 0 (0 :: a.bytes)) (hlen : len.toNat = a.data.length + 9) : ∃ mem,
      decapsulate r len = .ok ({ r with data := mem }, len - 8) ∧
      Holds mem 0 (a.ccode :: a.data) := by
  obtain ⟨h0, hbytes⟩ := holds_cons.mp h
  have hbody : Holds r.data 7 (a.ccode :: a.data ++ [a.bodyCsum]) := by
    simp only [Answer.bytes, List.cons_append, List.nil_append, holds_cons,
      Nat.reduceAdd] at hbytes ⊢
    exact hbytes.2.2.2.2.2.2
  have hmove : move r.data 0 7 (len.toNat - 7) =
      write r.data 0 (a.ccode :: a.data ++ [a.bodyCsum]) := by
    have hn : len.toNat - 7 = (a.ccode :: a.data ++ [a.bodyCsum]).length := by
      simp only [List.length_append, List.length_cons, List.length_nil]
      omega
    rw [hn]
    exact congrArg _ hbody
  unfold decapsulate
  rw [if_pos h0, if_neg (by omega), hmove]
  exact ⟨_, rfl, (holds_append.mp (holds_write _ _ _)).1⟩

/-- An answer to the request `req`, with checksums that close. -/
structure Answers (req : Request) (a : Answer) : Prop where
  netfn : a.netfnLun.toNat / 4 = req.netfn.val + 1
  cmd : a.cmd = req.cmd
  header : Closed [a.rqAddr, a.netfnLun, a.headerCsum]
  body : Closed ([a.rsAddr, a.seqLun, a.cmd, a.ccode] ++ a.data ++ [a.bodyCsum])

/-- The message is the target's answer: inside the answer to the Send Message request if the request
was encapsulated, directly otherwise. -/
def Reply (intf : Intf) (req : Request) (m : List UInt8) (ccode : UInt8)
    (data : List UInt8) : Prop :=
  if Targets intf ∧ Transits intf then
    ∃ a : Answer, Answers req a ∧ a.ccode = ccode ∧ a.data = data ∧ m = 0 :: a.bytes
  else m = ccode :: data

/-- With the target's answer in the buffer, the response is what `delivered` says of it, provided
that both ends agree. -/
theorem respond_reply {intf : Intf} {req : Request} {m : DriverMsg} {ccode : UInt8}
    {data : List UInt8}
    (hagree : Transits intf → Targets intf) (h : Reply intf req m.data ccode data) {r : Response}
    (hr : Holds r.data 0 m.data) : ∃ mem, respond intf r (UInt16.ofNat m.data.length) =
      .ok { r with ccode := ccode, dataLen := data.length, data := mem } ∧
        Holds mem 0 (delivered ccode data) := by
  have hfits := m.fits
  unfold respond
  unfold Reply at h
  by_cases ht : Transits intf
  · rw [if_pos ⟨hagree ht, ht⟩] at h
    obtain ⟨a, -, rfl, rfl, hm⟩ := h
    rw [hm] at hr hfits ⊢
    have hlen : (0 :: a.bytes).length = a.data.length + 9 := by
      rw [List.length_cons, length_bytes]
    rw [hlen] at hfits ⊢
    have hnat : (UInt16.ofNat (a.data.length + 9)).toNat = a.data.length + 9 := by
      rw [UInt16.toNat_ofNat', Nat.mod_eq_of_lt (by unfold bufSize at hfits; omega)]
    obtain ⟨mem, hd, hmem⟩ := decapsulate_holds hr hnat
    have hless : (UInt16.ofNat (a.data.length + 9) - 8).toNat = a.data.length + 1 := by
      rw [UInt16.toNat_sub_of_le _ _ (by rw [UInt16.le_iff_toNat_le, hnat]; simp), hnat]
      simp
    obtain ⟨mem', hf, hmem'⟩ := finish_holds (r := { r with data := mem }) hmem hless (by omega)
    rw [if_pos ht, hd]
    exact ⟨mem', hf, hmem'⟩
  · rw [if_neg fun hc => ht hc.2] at h
    rw [h, List.length_cons] at hfits
    have hnat : (UInt16.ofNat (data.length + 1)).toNat = data.length + 1 := by
      rw [UInt16.toNat_ofNat', Nat.mod_eq_of_lt (by unfold bufSize at hfits; omega)]
    rw [h] at hr ⊢
    rw [if_neg ht, List.length_cons]
    exact finish_holds hr hnat hfits

theorem take_cons_eq_self {α : Type} (c : α) :
    ∀ l : List α, (c :: l).take l.length = l ↔ ∀ x ∈ l, x = c
  | [] => by simp
  | b :: l => by
    have ih := take_cons_eq_self b l
    rw [List.length_cons, List.take_succ_cons, List.cons.injEq, ih, List.forall_mem_cons]
    constructor
    · rintro ⟨rfl, h⟩
      exact ⟨rfl, h⟩
    · rintro ⟨rfl, h⟩
      exact ⟨rfl, h⟩

theorem delivered_eq_iff (ccode : UInt8) (data : List UInt8) :
    delivered ccode data = data ↔ ccode = 0 ∨ ∀ x ∈ data, x = ccode := by
  unfold delivered
  by_cases hz : ccode = 0
  · simp [hz]
  · rw [if_neg hz, take_cons_eq_self]
    simp [hz]

/-! ### Symmetry -/

/-- Did the transport report this step between two states? -/
def Logged (x : Log) (s s' : St) : Prop := ∃ new, s'.log = s.log ++ new ∧ x ∈ new

/-- The request in the driver is a Send Message request that carries `req` between two checksums. -/
def Carries (intf : Intf) (req : Request) (q : Req) : Prop :=
  q.netfn = netfnApp ∧ q.cmd = 0x34 ∧ ∃ bytes, q.data = (0x40 ||| intf.targetChannel) :: bytes ∧
    parseMessage bytes =
      some ⟨intf.targetAddr.toUInt8, req.netfn.val, req.lun.val, 0xff, 0, req.cmd, req.data⟩

/-- The response is the target's answer `ccode`, `data`, from the message with the id of the request
that was sent. -/
def Delivers (s : St) (req : Request) (m : DriverMsg) (ccode : UInt8) (data : List UInt8) : Prop :=
  ∃ s' q, sendrecv req s = .ok (true, s') ∧ s'.sent = s.sent ++ [q] ∧ q.msgid = m.msgid ∧
    s'.rsp.ccode = ccode ∧ s'.rsp.dataLen = data.length ∧ Holds s'.rsp.data 0 data

/-- **Bridging is symmetric** in the state `s`. -/
structure Symmetric (s : St) (req : Request) : Prop where
  agree : ∀ m, Accepts s m → (Logged .decapsulating s (ending (sendrecv req s)) ↔
    Logged .encapsulating s (ending (sendrecv req s)))
  carries : Logged .encapsulating s (ending (sendrecv req s)) →
    ∃ q, (ending (sendrecv req s)).sent = s.sent ++ [q] ∧ Carries s.intf req q
  delivers : ∀ m ccode data, Accepts s m → Reply s.intf req m.data ccode data →
    Delivers s req m ccode data

/-- The two ends agree, and what a refused request comes with looks as if it had been shifted. -/
def Agrees (s : St) (req : Request) : Prop :=
  ∀ m, Accepts s m → (Transits s.intf → Targets s.intf) ∧
    ∀ ccode data, Reply s.intf req m.data ccode data → ccode = 0 ∨ ∀ x ∈ data, x = ccode

theorem sent_ending (s : St) {req : Request} (hreq : req.data.length ≤ 248) :
    (ending (sendrecv req s)).sent = s.sent ++ [handed s.intf req s.currSeq.toInt] := by
  obtain ⟨r, rest, hrun | ⟨len, hrun⟩⟩ := sendrecv_cases s hreq
  · rw [hrun]
    rfl
  · rw [hrun, conclude_sent]
    rfl

theorem logged_encapsulating_iff (s : St) {req : Request} (hreq : req.data.length ≤ 248) :
    Logged .encapsulating s (ending (sendrecv req s)) ↔ Targets s.intf ∧ Transits s.intf := by
  obtain ⟨more, hlog, hmore⟩ : ∃ more, (ending (sendrecv req s)).log =
      s.log ++ (encapsulates s.intf ++ more) ∧ Log.encapsulating ∉ more := by
    obtain ⟨r, rest, hrun | ⟨len, hrun⟩⟩ := sendrecv_cases s hreq
    · exact ⟨[], by rw [hrun, List.append_nil]; rfl, by simp⟩
    · refine ⟨decapsulates s.intf, ?_, ?_⟩
      · rw [hrun, conclude_log, ← List.append_assoc]
        rfl
      · unfold decapsulates
        split_ifs <;> simp
  unfold Logged
  rw [hlog]
  constructor
  · rintro ⟨new, hnew, hmem⟩
    rw [← List.append_cancel_left hnew, List.mem_append, or_iff_left hmore, encapsulates] at hmem
    by_contra hc
    rw [if_neg hc] at hmem
    exact List.not_mem_nil hmem
  · intro hb
    refine ⟨_, rfl, List.mem_append_left _ ?_⟩
    rw [encapsulates, if_pos hb]
    exact List.mem_singleton_self _

theorem logged_decapsulating_iff {s : St} {req : Request} {m : DriverMsg}
    (hreq : req.data.length ≤ 248) (h : Accepts s m) :
    Logged .decapsulating s (ending (sendrecv req s)) ↔ Transits s.intf := by
  obtain ⟨r, rest, -, hrun⟩ := sendrecv_accepts hreq h
  have hlog : (ending (sendrecv req s)).log =
      s.log ++ (encapsulates s.intf ++ decapsulates s.intf) := by
    rw [hrun, conclude_log, ← List.append_assoc]
    rfl
  have henc : Log.decapsulating ∉ encapsulates s.intf := by
    unfold encapsulates
    split_ifs <;> simp
  unfold Logged
  rw [hlog]
  constructor
  · rintro ⟨new, hnew, hmem⟩
    rw [← List.append_cancel_left hnew, List.mem_append, or_iff_right henc, decapsulates] at hmem
    by_contra hc
    rw [if_neg hc] at hmem
    exact List.not_mem_nil hmem
  · intro ht
    refine ⟨_, rfl, List.mem_append_right _ ?_⟩
    rw [decapsulates, if_pos ht]
    exact List.mem_singleton_self _

theorem carries_handed {intf : Intf} (h : Targets intf ∧ Transits intf) (req : Request)
    (msgid : ℤ) :
    Carries intf req (handed intf req msgid) := by
  rw [handed, if_pos h]
  refine ⟨rfl, rfl, _, rfl, ?_⟩
  rw [parseMessage_checksummed, netfnLun_div, netfnLun_mod]

/-- What is delivered of a reply when the two ends agree. -/
theorem sendrecv_reply {s : St} {req : Request} {m : DriverMsg} {ccode : UInt8} {data : List UInt8}
    (hreq : req.data.length ≤ 248) (h : Accepts s m) (hagree : Transits s.intf → Targets s.intf)
    (hreply : Reply s.intf req m.data ccode data) :
    ∃ s', sendrecv req s = .ok (true, s') ∧ s'.rsp.ccode = ccode ∧ s'.rsp.dataLen = data.length ∧
      Holds s'.rsp.data 0 (delivered ccode data) := by
  obtain ⟨r, rest, hholds, hrun⟩ := sendrecv_accepts hreq h
  obtain ⟨mem, hresp, hmem⟩ := respond_reply hagree hreply hholds
  rw [conclude_eq] at hrun
  simp only [behind] at hrun
  rw [hresp] at hrun
  exact ⟨_, hrun, rfl, rfl, hmem⟩

/-- **Bridging is symmetric exactly if the two ends agree** on the accepted message, and it is no
refusal with data. -/
theorem symmetric_iff (s : St) (req : Request) (hreq : req.data.length ≤ 38) :
    Symmetric s req ↔ Agrees s req := by
  have hroom : req.data.length ≤ 248 := by omega
  constructor
  · intro h m hm
    have hagree : Transits s.intf → Targets s.intf := by
      intro ht
      have hdec := (logged_decapsulating_iff hroom hm).mpr ht
      exact ((logged_encapsulating_iff s hroom).mp ((h.agree m hm).mp hdec)).1
    refine ⟨hagree, fun ccode data hreply => ?_⟩
    obtain ⟨s', -, hrun, -, -, -, -, hholds⟩ := h.delivers m ccode data hm hreply
    obtain ⟨s'', hrun', -, -, hholds'⟩ := sendrecv_reply hroom hm hagree hreply
    obtain rfl : s' = s'' := by
      rw [hrun] at hrun'
      exact (Prod.mk.inj (Except.ok.inj hrun')).2
    rw [← delivered_eq_iff]
    have hlen : (delivered ccode data).length = data.length := by
      unfold delivered
      split_ifs <;> simp
    rw [Holds, hlen] at hholds'
    rw [← hholds', hholds]
  · intro h
    refine ⟨fun m hm => ?_, fun henc => ?_, fun m ccode data hm hreply => ?_⟩
    · rw [logged_decapsulating_iff hroom hm, logged_encapsulating_iff s hroom]
      exact ⟨fun ht => ⟨(h m hm).1 ht, ht⟩, fun hb => hb.2⟩
    · have hb := (logged_encapsulating_iff s hroom).mp henc
      exact ⟨_, sent_ending s hroom, carries_handed hb req _⟩
    · obtain ⟨hagree, hdata⟩ := h m hm
      obtain ⟨s', hrun, hcc, hlen, hholds⟩ := sendrecv_reply hroom hm hagree hreply
      rw [(delivered_eq_iff ccode data).mpr (hdata ccode data hreply)] at hholds
      have hsent := sent_ending s hroom
      rw [hrun] at hsent
      obtain ⟨pre, rest, -, -, hid⟩ := hm.first
      exact ⟨s', _, hrun, hsent, by rw [handed_msgid, hid], hcc, hlen, hholds⟩

/-- The transport before its first request, with one message in the driver. -/
def waiting (targetAddr transitAddr : UInt32) (m : DriverMsg) : St where
  intf := { fd := 3, myAddr := 0x20, targetAddr, transitAddr }
  inbox := [m]

theorem accepts_waiting {targetAddr transitAddr : UInt32} {m : DriverMsg} (hm : m.msgid = 0) :
    Accepts (waiting targetAddr transitAddr m) m :=
  ⟨⟨rfl, rfl, show (0 : ℤ) ≤ 3 by decide, show (3 : ℤ) < 1024 by decide⟩, [], [], rfl, by simp, hm⟩

theorem eq_of_accepts_waiting {targetAddr transitAddr : UInt32} {m m' : DriverMsg}
    (h : Accepts (waiting targetAddr transitAddr m) m') : m' = m := by
  obtain ⟨pre, rest, hin, -, -⟩ := h.first
  have hmem : m' ∈ [m] := by
    rw [show [m] = pre ++ m' :: rest from hin]
    simp
  exact List.mem_singleton.mp hmem

/-- A Get Device ID request. -/
def deviceIdRequest : Request :=
  { netfn := netfnApp, lun := bmcLun, cmd := 1, data := [], data_lt := no_data_lt }

/-- The answer to a Get Device ID request through a transit controller. -/
def bridgedReply : DriverMsg := ⟨0, 0 :: deviceIdAnswer.bytes, by decide⟩

/-- The answer to a Get Device ID request, from the controller itself. -/
def directReply : DriverMsg := ⟨0, [0, 0x20, 0x01, 0x02, 0x10, 0x02, 0xbf, 0x57, 0x01], by decide⟩

theorem symmetric_iff_bridged :
    deviceIdRequest.data.length ≤ 38 ∧
    Symmetric (waiting 0x72 0x82 bridgedReply) deviceIdRequest := by
  refine ⟨by decide, (symmetric_iff _ _ (by decide)).mpr fun m hm => ⟨fun _ => by decide, ?_⟩⟩
  intro ccode data hreply
  rw [eq_of_accepts_waiting hm, Reply, if_pos (by decide)] at hreply
  obtain ⟨a, -, rfl, -, ha⟩ := hreply
  left
  have hccode : (0 :: deviceIdAnswer.bytes)[7]? = (0 :: a.bytes)[7]? := congrArg (·[7]?) ha
  exact (Option.some.inj hccode).symm

/-- With a transit address and no target behind it, the answer to a request that was not
encapsulated is decapsulated. -/
theorem direct_answer_decapsulated :
    ¬ Symmetric (waiting 0x20 0x82 directReply) deviceIdRequest := by
  intro h
  have haccepts : Accepts (waiting 0x20 0x82 directReply) directReply := accepts_waiting rfl
  have hagree := h.agree directReply haccepts
  rw [logged_decapsulating_iff (by decide) haccepts,
    logged_encapsulating_iff _ (by decide)] at hagree
  exact absurd (hagree.mp (by decide)).1 (by decide)

end Ipmitool.OpenIpmi.Sendrecv
