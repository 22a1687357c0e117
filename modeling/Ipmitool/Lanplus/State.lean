import Ipmitool.Core.Network
import Ipmitool.Lib.Machine

/-! # The state of the RMCP+ transport

`intf/lanplus.zig` keeps its state in the interface it is handed and in module variables: the
request list, the sequence counter, the flag that allows bridging, the one static response that
every receive overwrites and the two counters of the serial-over-LAN receiver. A non-null response
pointer is a pointer to that static response, so a function that returns one returns a `Bool` here,
and the response is `recvRsp` of the state.

`trace` is a history of what the transport did and saw, for the statements about whole runs; no
function reads it. -/

namespace Ipmitool.Lanplus.State

open Ipmitool.Lib.Mem Ipmitool.Lib.Machine Ipmitool.Core.Types Ipmitool.Core.Network

/-- An event of a run. -/
inductive Event where
  /-- A packet was built, in the active state or not, with this request sequence number if it
  carries a request. -/
  | built (active : Bool) (packet : List UInt8) (rqSeq : Option UInt8)
  /-- A receive came back with nothing. -/
  | timeout
  | pong (supported : Bool)
  | badAuthcode
  /-- An entry left the request list. -/
  | removed (e : Entry)
  /-- An attempt at the handshake began. -/
  | attempt
  | openResponse
  | rakp2
  | rakp2Verified
  | rakp4
  | rakp4Verified
  /-- The retry loop of the handshake ended. -/
  | opened
  | solSent (seq : UInt8) (data : List UInt8)
  | solReceived (seq acked accepted : UInt8)
  deriving DecidableEq

/-- The state of the transport. -/
structure St where
  intf : Intf := {}
  net : Net := {}
  reqEntries : List Entry := []
  nextAddr : ℕ := 0
  bridgePossible : Bool := false
  currSeq : UInt8 := 0
  recvRsp : Response := {}
  solLastReceivedSequenceNumber : UInt8 := 0
  solLastReceivedByteCount : UInt8 := 0
  selIana : UInt32 := 0
  trace : List Event := []

/-- A program of the transport. -/
abbrev M := Prog Fault St

/-- Record events. -/
def record (es : List Event) : M Unit := modify fun s => { s with trace := s.trace ++ es }

/-- `intf.session.?`. -/
def theSession : M Session := do
  match (← get).intf.session with
  | some session => pure session
  | none => throw .nullUnwrap

/-- The state with another session. -/
def St.withSession (s : St) (session : Session) : St :=
  { s with intf := { s.intf with session := some session } }

/-- A store through the session pointer. -/
def modifySession (f : Session → Session) : M Unit := do
  let session ← theSession
  modify fun s => s.withSession (f session)

/-- `session.v2_data.session_state = …`. -/
def setState (state : SessionState) : M Unit :=
  modifySession fun session => { session with v2 := { session.v2 with sessionState := state } }

/-- `assert(condition)`. -/
def expect (condition : Bool) : M Unit := if condition then pure () else throw .assertFailed

/-- `time(NULL)`. -/
def time : M ℤ := do
  let s ← get
  set { s with net := s.net.time.2 }
  pure s.net.time.1

/-- `lanplus_rand`. -/
def rand : M Block := do
  let s ← get
  set { s with net := s.net.rand.2 }
  pure s.net.rand.1

/-- `sendPacket`: `false` if `send` fails. -/
def sendPacket (packet : List UInt8) : M Bool := do
  let s ← get
  set { s with net := (s.net.send packet).2 }
  pure (s.net.send packet).1

/-- The response buffer after a datagram arrived in it: the byte after the datagram is cleared. -/
def Response.receive (r : Response) (d : List UInt8) : Response :=
  { r with data := write r.data 0 (d ++ [0]), dataLen := d.length }

/-- `recvPacket`: `false` for a timeout, a socket error or an empty datagram. A datagram is cut at
the size of the buffer; one that fills it makes the store behind it fail. -/
def recvPacket : M Bool := do
  let s ← get
  if s.intf.fd < 0 ∨ 1024 ≤ s.intf.fd then return false
  set { s with net := s.net.recv.2 }
  match s.net.recv.1 with
  | none => return false
  | some d =>
    if d = [] then return false
    if bufSize ≤ d.length then throw .outOfBounds
    modify fun s => { s with recvRsp := Response.receive s.recvRsp d }
    return true

/-- `sol_input_handler.?(rsp)`: hand the response data to the handler. -/
def solInputHandler : M Unit := do
  let session ← theSession
  if !session.solInputHandler then throw .nullUnwrap
  modify fun s => { s with net := { s.net with output := s.net.output ++ [s.recvRsp.bytes] } }

/-! ### What the primitives do -/

section
variable {s s' : St}

@[simp] theorem record_ok {es : List Event} {u : Unit} :
    record es s = .ok (u, s') ↔ { s with trace := s.trace ++ es } = s' := by
  simp [record]

@[simp] theorem theSession_ok {ss : Session} :
    theSession s = .ok (ss, s') ↔ s.intf.session = some ss ∧ s = s' := by
  unfold theSession
  cases h : s.intf.session with
  | none => simp [h]
  | some x => simp [h]

@[simp] theorem modifySession_ok {f : Session → Session} {u : Unit} :
    modifySession f s = .ok (u, s') ↔
      ∃ ss, s.intf.session = some ss ∧ s.withSession (f ss) = s' := by
  unfold modifySession
  simp

@[simp] theorem setState_ok {state : SessionState} {u : Unit} :
    setState state s = .ok (u, s') ↔ ∃ ss, s.intf.session = some ss ∧
      s.withSession { ss with v2 := { ss.v2 with sessionState := state } } = s' := by
  simp [setState]

@[simp] theorem expect_ok {c : Bool} {u : Unit} :
    expect c s = .ok (u, s') ↔ c = true ∧ s = s' := by
  cases c <;> simp [expect]

@[simp] theorem time_ok {t : ℤ} :
    time s = .ok (t, s') ↔ { s with net := s.net.time.2 } = s' ∧ s.net.time.1 = t := by
  simp [time, and_comm]

@[simp] theorem rand_ok {b : Block} :
    rand s = .ok (b, s') ↔ { s with net := s.net.rand.2 } = s' ∧ s.net.rand.1 = b := by
  simp [rand, and_comm]

@[simp] theorem sendPacket_ok {packet : List UInt8} {b : Bool} :
    sendPacket packet s = .ok (b, s') ↔
      { s with net := (s.net.send packet).2 } = s' ∧ (s.net.send packet).1 = b := by
  simp [sendPacket, and_comm]

end

end Ipmitool.Lanplus.State
