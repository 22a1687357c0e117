import Mathlib.Algebra.GroupWithZero.Nat
import Ipmitool.Lanplus.State
import Ipmitool.Crypto.LanplusCrypt

/-! # The receive path

The message parsers, the request list and `pollSingle` of `intf/lanplus.zig`. `handlePacket` is the
part of `pollSingle` after the datagram has arrived: a function of the session, the request list and
the response buffer. It first opens the packet (`openPacket`: class, session, authcode, decryption)
and then acts on the payload (`handlePayload`). -/

namespace Ipmitool.Lanplus.Receive

open Ipmitool.Lib.Mem Ipmitool.Lib.Bytes Ipmitool.Lib.Machine Ipmitool.Core.Types
open Ipmitool.Core.Network Ipmitool.Crypto.Mac Ipmitool.Crypto.LanplusCrypt Ipmitool.Lanplus.State

variable (K : Primitives)

/-! ### The request list -/

/-- The key an entry is looked up by. -/
def Entry.hasKey (seq cmd : UInt8) (e : Entry) : Bool := e.rqSeq == seq && e.req.cmd == cmd

/-- `reqLookupEntry`: the first entry with the key. -/
def reqLookupEntry (l : List Entry) (seq cmd : UInt8) : Option Entry :=
  l.find? (Entry.hasKey seq cmd)

/-- `reqRemoveEntry`: the first entry with the key leaves the list and is freed. -/
def reqRemoveEntry (l : List Entry) (seq cmd : UInt8) : List Entry :=
  l.eraseP (Entry.hasKey seq cmd)

/-- Store through a pointer to an entry of the list. -/
def updateEntry (l : List Entry) (e : Entry) : List Entry :=
  l.map fun x => if x.addr = e.addr then e else x

/-! ### Response parsing -/

/-- `readOpenSessionResponse`. -/
def readOpenSessionResponse (r : Response) (o : ℕ) : Response :=
  let p := write r.payload 0 (List.replicate 16 0)
  let p := write p 0 [r.data o, r.data (o + 1), r.data (o + 2)]
  let p := write p 4 (read r.data (o + 4) 4)
  if r.data (o + 1) ≠ 0 then { r with payload := p }
  else
    let p := write p 8 (read r.data (o + 8) 4)
    { r with payload := write p 12 [r.data (o + 16), r.data (o + 24), r.data (o + 32)] }

/-- The part `readRakp2Message` and `readRakp4Message` share: tag, status and console id. -/
def readRakpHeader (r : Response) (o : ℕ) : Memory UInt8 :=
  write (write r.payload 0 [r.data o, r.data (o + 1)]) 4 (read r.data (o + 4) 4)

/-- `readRakp2Message`. -/
def readRakp2Message (r : Response) (o : ℕ) (authAlg : UInt8) : Except Fault Response :=
  let p := write (readRakpHeader r o) 8 (read r.data (o + 8) 32)
  if authAlg = authRakpNone then .ok { r with payload := p }
  else if authAlg = authRakpHmacSha1 then
    .ok { r with payload := write p 40 (read r.data (o + 40) 20) }
  else if authAlg = authRakpHmacMd5 then
    .ok { r with payload := write p 40 (read r.data (o + 40) 16) }
  else if authAlg = authRakpHmacSha256 then
    .ok { r with payload := write p 40 (read r.data (o + 40) 32) }
  else .error .assertFailed

/-- `readRakp4Message`. -/
def readRakp4Message (r : Response) (o : ℕ) (authAlg : UInt8) : Except Fault Response :=
  let p := readRakpHeader r o
  if authAlg = authRakpNone then .ok { r with payload := p }
  else if authAlg = authRakpHmacSha1 then
    .ok { r with payload := write p 8 (read r.data (o + 8) 12) }
  else if authAlg = authRakpHmacMd5 then
    .ok { r with payload := write p 8 (read r.data (o + 8) 16) }
  else if authAlg = authRakpHmacSha256 then
    .ok { r with payload := write p 8 (read r.data (o + 8) 16) }
  else .error .assertFailed

/-- `readSessionDataV2x`, from offset `o`. -/
def readSessionDataV2x (r : Response) (o : ℕ) : Response × ℕ :=
  ({ r with session :=
      { authtype := r.data o
        bEncrypted := r.data (o + 1) &&& 0x80 != 0
        bAuthenticated := r.data (o + 1) &&& 0x40 != 0
        payloadtype := r.data (o + 1) &&& 0x3f
        id := ofLe32 (r.data (o + 2)) (r.data (o + 3)) (r.data (o + 4)) (r.data (o + 5))
        seq := ofLe32 (r.data (o + 6)) (r.data (o + 7)) (r.data (o + 8)) (r.data (o + 9))
        msglen := ofLe16 (r.data (o + 10)) (r.data (o + 11)) } }, o + 12)

/-- `readSessionDataV15`: the session id and sequence number are skipped, not read. -/
def readSessionDataV15 (r : Response) (o : ℕ) : Response × ℕ :=
  ({ r with session :=
      { r.session with
        payloadtype := ptIpmi
        authtype := r.data o
        bEncrypted := false
        bAuthenticated := false
        msglen := (r.data (o + 9)).toUInt16 } }, o + 10)

/-- `readSessionData`. -/
def readSessionData (r : Response) (o : ℕ) : Response × ℕ :=
  if r.data o = authtypeRmcpPlus then readSessionDataV2x r o else readSessionDataV15 r o

/-- `readIpmiResponse`: seven bytes from offset `o`. -/
def readIpmiResponse (r : Response) (o : ℕ) : Response :=
  { r with
    payload := write r.payload 0 [r.data o, r.data (o + 1) >>> 2, r.data (o + 1) &&& 0x3,
      r.data (o + 3), r.data (o + 4) >>> 2, r.data (o + 4) &&& 0x3, r.data (o + 5)]
    ccode := r.data (o + 6) }

/-- `readSolPacket`: four bytes from offset `o`. -/
def readSolPacket (r : Response) (o : ℕ) : Response :=
  let f := r.data (o + 3)
  { r with payload := write r.payload 0 [r.data o &&& 0x0f, r.data (o + 1) &&& 0x0f, r.data (o + 2),
      f &&& 0x40, f &&& 0x20, f &&& 0x10, f &&& 0x08, f &&& 0x04] }

/-- Shift the response data behind offset `o` to the start of the buffer. -/
def shiftData (r : Response) (o : ℕ) (extra : ℤ) : Except Fault Response :=
  if 0 < extra then
    if (bufSize : ℤ) < o + extra then .error .outOfBounds
    else .ok { r with dataLen := extra, data := move r.data 0 o extra.toNat }
  else .ok { r with dataLen := 0 }

/-! ### One packet -/

/-- What `pollSingle` tells its caller: nothing came, read one more packet, or a response is in the
buffer. -/
inductive PollResult where
  | none
  | again
  | got
  deriving DecidableEq, Repr

/-- What one packet does: the verdict, the request list, the response buffer and the events. -/
abbrev Handled := PollResult × List Entry × Response × List Event

/-- The entry after a Send Message envelope has been peeled off its response. -/
def peel (e : Entry) : Entry :=
  let level := e.bridgingLevel - 1
  { e with
    bridgingLevel := level
    req := if level = 0 then { e.req with cmd := e.req.targetCmd } else e.req }

/-- The loop of `pollSingle` over an IPMI message and the messages nested in it. A round that peels
an envelope with an embedded response is followed by another one; each such round takes one bridging
level off an entry, so the sum of the levels and one bounds the number of rounds. -/
def ipmiLoop : ℕ → Response → List Entry → ℕ → ℕ → UInt16 → Except Fault Handled
  | 0, r, entries, _, _, _ => .ok (.got, entries, r, [])
  | fuel + 1, r, entries, offset, payloadStart, payloadSize =>
    let r := readIpmiResponse r offset
    let offset := offset + 7
    match reqLookupEntry entries r.rqSeq r.cmd with
    | none => .ok (.again, entries, r, [])
    | some entry =>
      let peeled := entry.bridgingLevel ≠ 0 ∧ r.ccode = 0
      let entries := if peeled then updateEntry entries (peel entry) else entries
      if peeled ∧ ¬ 8 < payloadSize then .ok (.again, entries, r, [])
      else do
        let gone := (reqLookupEntry entries r.rqSeq r.cmd).toList.map Event.removed
        let entries := reqRemoveEntry entries r.rqSeq r.cmd
        let extra : ℤ := payloadSize.toNat - (offset - payloadStart : ℤ) - 1
        let r ← shiftData r offset extra
        if ¬ peeled then return (.got, entries, r, gone)
        let next := if 0 < extra then (0, 0, UInt16.ofNat extra.toNat)
          else (offset, payloadStart, payloadSize)
        let (res, entries, r, evs) ← ipmiLoop fuel r entries next.1 next.2.1 next.2.2
        return (res, entries, r, gone ++ evs)

/-- The number of rounds that `ipmiLoop` can take. -/
def rounds (entries : List Entry) : ℕ := (entries.map Entry.bridgingLevel).sum + 1

/-- Decrypt the payload in place, if the session is active and the packet says it is encrypted. The
result is the buffer and the payload size. -/
def openPayload (session : Session) (r : Response) (offset : ℕ) :
    Except Fault (Response × UInt16) :=
  if session.v2.sessionState = .active ∧ r.session.authtype = authtypeRmcpPlus ∧
      r.session.bEncrypted = true then
    if bufSize < offset + r.session.msglen.toNat then .error .outOfBounds
    else do
      let (out, size) ← decryptPayload K session.v2.cryptAlg session.v2.k2
        (read r.data offset r.session.msglen.toNat)
      return ({ r with data := write r.data offset out }, size)
  else .ok (r, r.session.msglen)

/-- `handlePong`: the pong says whether IPMI is supported. -/
def pongSupported (r : Response) : Bool := r.data 20 &&& 0x80 != 0

/-- The packet is for another session. -/
def otherSession (session : Session) (r : Response) : Prop :=
  session.v2.sessionState = .active ∧ r.session.authtype = authtypeRmcpPlus ∧
    r.session.id ≠ session.v2.consoleId

instance (session : Session) (r : Response) : Decidable (otherSession session r) := by
  unfold otherSession; infer_instance

/-- What a packet is before its payload is looked at. -/
inductive Opened where
  | pong (supported : Bool)
  /-- Of another class, or for another session. -/
  | foreign (r : Response)
  | badAuthcode (r : Response)
  | payload (r : Response) (offset : ℕ) (payloadSize : UInt16)

/-- The checks of `pollSingle` and the decryption. -/
def openPacket (session : Session) (r : Response) : Except Fault Opened :=
  if r.data 3 = rmcpClassAsf then .ok (.pong (pongSupported r))
  else if r.data 3 ≠ rmcpClassIpmi then .ok (.foreign r)
  else
    let (r, offset) := readSessionData r 4
    if otherSession session r then .ok (.foreign r)
    else do
      let valid ← hasValidAuthCode K r session
      if !valid then return .badAuthcode r
      let (r, payloadSize) ← openPayload K session r offset
      return .payload r offset payloadSize

/-- The payload of a packet that passed the checks. -/
def handlePayload (session : Session) (entries : List Entry) (r : Response) (offset : ℕ)
    (payloadSize : UInt16) : Except Fault Handled :=
  let t := r.session.payloadtype
  let state := session.v2.sessionState
  if t = ptIpmi then ipmiLoop (rounds entries) r entries offset offset payloadSize
  else if t = ptOpenResponse then
    if state ≠ .openSessionSent then .ok (.again, entries, r, [])
    else .ok (.got, entries, readOpenSessionResponse r offset, [.openResponse])
  else if t = ptRakp2 then
    if state ≠ .rakp1Sent then .ok (.again, entries, r, [])
    else do
      let r ← readRakp2Message r offset session.v2.authAlg
      return (.got, entries, r, [.rakp2])
  else if t = ptRakp4 then
    if state ≠ .rakp3Sent then .ok (.again, entries, r, [])
    else do
      let r ← readRakp4Message r offset session.v2.authAlg
      return (.got, entries, r, [.rakp4])
  else if t = ptSol then
    if state ≠ .active then .ok (.again, entries, r, [])
    else do
      let r := readSolPacket r offset
      let r ← shiftData r (offset + 4) (payloadSize.toNat - 4)
      return (.got, entries, r,
        [.solReceived r.solSeq r.ackedPacketNumber r.acceptedCharacterCount])
  else .ok (.again, entries, r, [])

/-- `pollSingle`, once a datagram is in the buffer. -/
def handlePacket (session : Session) (entries : List Entry) (r : Response) :
    Except Fault Handled := do
  match ← openPacket K session r with
  | .pong supported =>
    return (if supported then .got else .none, entries, r, [.pong supported])
  | .foreign r => return (.again, entries, r, [])
  | .badAuthcode r => return (.none, entries, r, [.badAuthcode])
  | .payload r offset payloadSize => handlePayload session entries r offset payloadSize

/-- `pollSingle`. -/
def pollSingle : M PollResult := do
  let session ← theSession
  let got ← recvPacket
  if got then
    let s ← get
    let (res, entries, r, evs) ← liftM (handlePacket K session s.reqEntries s.recvRsp)
    set { s with reqEntries := entries, recvRsp := r, trace := s.trace ++ evs }
    return res
  else
    record [.timeout]
    return .none

/-- The loop of `pollRecv`; each round that asks for another one has consumed a receive outcome. -/
def pollLoop : ℕ → M Bool
  | 0 => return false
  | fuel + 1 => do
    match ← pollSingle K with
    | .again => pollLoop fuel
    | .none => return false
    | .got => return true

/-- `pollRecv`. -/
def pollRecv : M Bool := do
  let s ← get
  pollLoop K (s.net.inbox.length + 1)

/-! ### What a poll does -/

section
variable {K} {s s' : St} {res : PollResult}

/-- The descriptor can be waited on. -/
def ValidFd (fd : ℤ) : Prop := 0 ≤ fd ∧ fd < 1024

/-- The state after a datagram has been handled. -/
def handled (s : St) (rest : List (Option (List UInt8))) (entries : List Entry) (r : Response)
    (evs : List Event) : St :=
  { s with
    net := { s.net with inbox := rest }
    reqEntries := entries
    recvRsp := r
    trace := s.trace ++ evs }

/-- The state after a receive that came back with nothing. -/
def missed (s : St) (rest : List (Option (List UInt8))) : St :=
  { s with net := { s.net with inbox := rest }, trace := s.trace ++ [.timeout] }

theorem recvPacket_ok {got : Bool} (h : recvPacket s = .ok (got, s')) :
    (got = false ∧ ∃ rest, rest <:+ s.net.inbox ∧
      s' = { s with net := { s.net with inbox := rest } }) ∨
    (got = true ∧ ValidFd s.intf.fd ∧ ∃ d rest, s.net.inbox = some d :: rest ∧ d ≠ [] ∧
      d.length < bufSize ∧ s' = { s with
        net := { s.net with inbox := rest }
        recvRsp := Response.receive s.recvRsp d }) := by
  unfold recvPacket at h
  simp only [bind_ok, get_ok] at h
  obtain ⟨_, _, ⟨rfl, rfl⟩, h⟩ := h
  split at h
  · obtain ⟨rfl, rfl⟩ := pure_ok.mp h
    exact .inl ⟨rfl, s.net.inbox, List.suffix_rfl, rfl⟩
  · rename_i hfd
    simp only [bind_ok, set_ok] at h
    obtain ⟨_, _, rfl, h⟩ := h
    unfold Net.recv at h
    rcases hin : s.net.inbox with _ | ⟨o, rest⟩
    · rw [hin] at h
      obtain ⟨rfl, rfl⟩ := pure_ok.mp h
      exact .inl ⟨rfl, [], List.suffix_rfl, by simp [← hin]⟩
    · rw [hin] at h
      rcases o with _ | d
      · obtain ⟨rfl, rfl⟩ := pure_ok.mp h
        exact .inl ⟨rfl, rest, List.suffix_cons _ _, rfl⟩
      · by_cases hd : d = []
        · simp only [hd, if_true, pure_ok] at h
          obtain ⟨rfl, rfl⟩ := h
          exact .inl ⟨rfl, rest, List.suffix_cons _ _, rfl⟩
        · by_cases hl : bufSize ≤ d.length
          · simp only [hd, hl, if_true, if_false, bind_ok, throw_ok, false_and, exists_false] at h
          · simp only [hd, hl, if_false, bind_ok, modify_ok, pure_ok] at h
            obtain ⟨_, _, rfl, rfl, rfl⟩ := h
            exact .inr ⟨rfl, ⟨by omega, by omega⟩, d, rest, rfl, hd, by omega, rfl⟩

/-- **What `pollSingle` does**: nothing came, or a datagram was handled. -/
theorem pollSingle_ok (h : pollSingle K s = .ok (res, s')) :
    ∃ ss, s.intf.session = some ss ∧
      ((res = .none ∧ ∃ rest, rest <:+ s.net.inbox ∧ s' = missed s rest) ∨
        (ValidFd s.intf.fd ∧ ∃ d rest entries r evs, s.net.inbox = some d :: rest ∧ d ≠ [] ∧
          d.length < bufSize ∧
          handlePacket K ss s.reqEntries (Response.receive s.recvRsp d) =
            .ok (res, entries, r, evs) ∧
          s' = handled s rest entries r evs)) := by
  unfold pollSingle at h
  simp only [bind_ok, theSession_ok] at h
  obtain ⟨ss, _, ⟨hss, rfl⟩, got, t, hrecv, h⟩ := h
  refine ⟨ss, hss, ?_⟩
  rcases recvPacket_ok hrecv with ⟨rfl, rest, hrest, rfl⟩ | ⟨rfl, hfd, d, rest, hin, hd, hl, rfl⟩
  · simp only [Bool.false_eq_true, if_false, bind_ok, record_ok, pure_ok] at h
    obtain ⟨_, _, rfl, rfl, rfl⟩ := h
    exact .inl ⟨rfl, rest, hrest, rfl⟩
  · simp only [if_true, bind_ok, get_ok, lift_ok, set_ok, pure_ok] at h
    obtain ⟨_, _, ⟨rfl, rfl⟩, ⟨res', entries, r, evs⟩, _, ⟨hh, rfl⟩, _, _, rfl, rfl, rfl⟩ := h
    exact .inr ⟨hfd, d, rest, entries, r, evs, hin, hd, hl, hh, rfl⟩

end

end Ipmitool.Lanplus.Receive
