import Ipmitool.Lanplus.Rounds
import Ipmitool.Lanplus.Open

/-! # The steps of a run

Everything the transport does outside the handshake is a sequence of a few kinds of steps (`Step`):
a packet is built, a datagram or a timeout is received, or something changes that neither a packet
nor the session data depend on (`Quiet`). The lemmas `moves_*` say so of each function of the send
path, so that an invariant of whole runs is proved once for a step.

`Kept` is what all steps keep: the parameters, the RMCP+ data of the session, and a history that
grows by the events of the transport only. The functions that send no request take no step that
files one (`RunOf K false`), so they leave an empty request list empty. -/

namespace Ipmitool.Lanplus.Steps

open Ipmitool.Lib.Mem Ipmitool.Lib.Machine Ipmitool.Core.Types Ipmitool.Core.Network
open Ipmitool.Crypto.Mac Ipmitool.Lanplus.State Ipmitool.Lanplus.Receive Ipmitool.Lanplus.Build
open Ipmitool.Lanplus.Send Ipmitool.Lanplus.Poll Ipmitool.Lanplus.Rounds Ipmitool.Lanplus.Open

variable {K : Primitives} {s s' t u : St} {cmds : Bool}

/-! ### Histories -/

/-- The history of `s'` is that of `s` and events with `p`. -/
def Since (p : Event → Prop) (s s' : St) : Prop :=
  ∃ evs, s'.trace = s.trace ++ evs ∧ ∀ e ∈ evs, p e

section
variable {p : Event → Prop}

theorem Since.of_events {evs : List Event} (h : Since p s s') (htr : s'.trace = s.trace ++ evs)
    {e : Event} (he : e ∈ evs) : p e := by
  obtain ⟨evs', htr', hevs⟩ := h
  rw [htr] at htr'
  obtain rfl := List.append_cancel_left htr'
  exact hevs e he

theorem Since.split (h : Since p s s') (h1 : s.trace <+: t.trace) (h2 : t.trace <+: s'.trace) :
    Since p s t ∧ Since p t s' := by
  obtain ⟨evs1, htr1⟩ := h1
  obtain ⟨evs2, htr2⟩ := h2
  have htr : s'.trace = s.trace ++ (evs1 ++ evs2) := by
    rw [← htr2, ← htr1, List.append_assoc]
  exact ⟨⟨evs1, htr1.symm, fun e he => h.of_events htr (List.mem_append_left _ he)⟩,
    evs2, htr2.symm, fun e he => h.of_events htr (List.mem_append_right _ he)⟩

end

/-- The packets of a history in the order in which they were built; was the session active? -/
def packets (trace : List Event) : List (Bool × List UInt8) :=
  trace.filterMap fun e => match e with
    | .built active packet _ => some (active, packet)
    | _ => none

@[simp] theorem packets_append (tr tr' : List Event) :
    packets (tr ++ tr') = packets tr ++ packets tr' :=
  List.filterMap_append

/-! ### Steps -/

/-- A change of the session that leaves its counters alone and does not make it active. -/
structure Uncounted (ss ss' : Session) : Prop where
  number : ss'.solSequenceNumber = ss.solSequenceNumber := by rfl
  outSeq : ss'.outSeq = ss.outSeq := by rfl
  inSeq : ss'.inSeq = ss.inSeq := by rfl
  active : ss'.active = ss.active := by rfl
  state : ss'.v2.sessionState = .active → ss.v2.sessionState = .active := by
    first | exact id | (intro h; cases h)

/-- Nothing changes that a packet carries; entries may leave the request list. -/
structure Quiet (s t : St) : Prop where
  params : t.intf.ssnParams = s.intf.ssnParams := by rfl
  noanswer : t.intf.noanswer = s.intf.noanswer := by rfl
  fd : t.intf.fd = s.intf.fd := by rfl
  v2 : t.intf.session.map Session.v2 = s.intf.session.map Session.v2 := by rfl
  outSeq : t.intf.session.map Session.outSeq = s.intf.session.map Session.outSeq := by rfl
  currSeq : t.currSeq = s.currSeq := by rfl
  sendFails : t.net.sendFails <:+ s.net.sendFails := by exact List.suffix_rfl
  entries : s.reqEntries = [] → t.reqEntries = [] := by exact id
  trace : ∃ gone : List Entry, t.trace = s.trace ++ gone.map .removed := by
    exact ⟨[], (List.append_nil _).symm⟩

/-- One step, with or without requests. -/
inductive Step (K : Primitives) (cmds : Bool) : St → St → Prop
  | quiet {s t : St} (h : Quiet s t) : Step K cmds s t
  | poll {s t : St} {res : PollResult} (h : pollSingle K s = .ok (res, t)) : Step K cmds s t
  | message {s t : St} {payload : V2Payload} {packet : List UInt8} (hp : IsMessage payload)
      (h : buildV2xMsg K payload 0 s = .ok (packet, t)) : Step K cmds s t
  | command {s t : St} {req : Request} {isRetry : Bool} {x : ℕ × List UInt8} (hc : cmds = true)
      (h : buildV2xIpmiCmd K req isRetry s = .ok (x, t)) : Step K cmds s t
  | oldCommand {s t : St} {req : Request} {x : ℕ × List UInt8} (hc : cmds = true)
      (h : buildV15IpmiCmd req s = .ok (x, t)) : Step K cmds s t

/-- Any number of steps. -/
abbrev RunOf (K : Primitives) (cmds : Bool) : Frame St := Frame.steps (Step K cmds)

/-- Any number of steps, with requests. -/
abbrev Run (K : Primitives) : Frame St := RunOf K true

theorem steps_quiet (h : Quiet s t) : (RunOf K cmds).rel s t := .single (.quiet h)

/-- A quiet step that leaves the number of the next serial-over-LAN packet alone and puts nothing
into the inbox. -/
structure Still (s t : St) : Prop extends Quiet s t where
  number : t.intf.session.map Session.solSequenceNumber =
    s.intf.session.map Session.solSequenceNumber := by rfl
  inbox : t.net.inbox = s.net.inbox := by rfl

/-- Neither the interface nor the request list nor the history changes. -/
theorem Still.of_eq (hi : t.intf = s.intf) (hq : t.currSeq = s.currSeq)
    (he : t.reqEntries = s.reqEntries) (ht : t.trace = s.trace)
    (hf : t.net.sendFails <:+ s.net.sendFails) (hn : t.net.inbox = s.net.inbox) : Still s t where
  params := by rw [hi]
  noanswer := by rw [hi]
  fd := by rw [hi]
  v2 := by rw [hi]
  outSeq := by rw [hi]
  currSeq := hq
  sendFails := hf
  entries h := he.trans h
  trace := ⟨[], ht.trans (List.append_nil _).symm⟩
  number := by rw [hi]
  inbox := hn

/-- The session changes in nothing that a packet carries. -/
theorem Quiet.of_session {ss ss' : Session} (hss : s.intf.session = some ss) (hv : ss'.v2 = ss.v2)
    (ho : ss'.outSeq = ss.outSeq) : Quiet s (s.withSession ss') :=
  ⟨rfl, rfl, rfl, by simp [St.withSession, hss, hv], by simp [St.withSession, hss, ho], rfl,
    List.suffix_rfl, id, [], (List.append_nil _).symm⟩

/-- A frame that holds of everything the functions of an open interface do. -/
structure Tame (K : Primitives) (cmds : Bool) (F : Frame St) : Prop where
  still : ∀ {s t}, Still s t → F.rel s t
  poll : ∀ {s res t}, pollSingle K s = .ok (res, t) → F.rel s t
  message : ∀ {payload s packet t}, IsMessage payload →
    buildV2xMsg K payload 0 s = .ok (packet, t) → F.rel s t
  command : ∀ {req isRetry s x t}, cmds = true →
    buildV2xIpmiCmd K req isRetry s = .ok (x, t) → F.rel s t
  oldCommand : ∀ {req s x t}, cmds = true → buildV15IpmiCmd req s = .ok (x, t) → F.rel s t
  number : ∀ p, Moves F (setSolPacketSequenceNumber p)

theorem moves_theSession {F : Frame St} : Moves F theSession := by
  intro s ss s' h
  obtain ⟨-, rfl⟩ := theSession_ok.mp h
  exact F.refl s

theorem tame_runOf : Tame K cmds (RunOf K cmds) where
  still h := steps_quiet h.toQuiet
  poll h := .single (.poll h)
  message hp h := .single (.message hp h)
  command hc h := .single (.command hc h)
  oldCommand hc h := .single (.oldCommand hc h)
  number p := by
    refine .bind moves_theSession fun ss => .bind ?_ fun _ => .pure _
    intro s u s' h
    obtain ⟨ss', hss, rfl⟩ := modifySession_ok.mp h
    exact steps_quiet (.of_session hss rfl rfl)

theorem tame_run : Tame K true (Run K) := tame_runOf

section
variable {F G : Frame St} {payload : V2Payload}

theorem Tame.mono (hF : Tame K cmds F) (h : ∀ {s t}, F.rel s t → G.rel s t) : Tame K cmds G where
  still hs := h (hF.still hs)
  poll hp := h (hF.poll hp)
  message hp hb := h (hF.message hp hb)
  command hc hb := h (hF.command hc hb)
  oldCommand hc hb := h (hF.oldCommand hc hb)
  number p := (hF.number p).mono h

theorem moves_still (hF : Tame K cmds F) {f : St → St} (h : ∀ s, Still s (f s)) :
    Moves F (modify f : M PUnit) := Moves.modify fun s => hF.still (h s)

/-! ### The surroundings -/

theorem still_time (s : St) : Still s { s with net := s.net.time.2 } :=
  .of_eq rfl rfl rfl rfl (by simp only [Net.time_sendFails, List.suffix_rfl]) (Net.time_inbox s.net)

theorem still_send (s : St) (p : List UInt8) : Still s { s with net := (s.net.send p).2 } :=
  .of_eq rfl rfl rfl rfl (Net.send_sendFails s.net p) (Net.send_inbox s.net p)

theorem still_rsp (s : St) (r : Response) : Still s { s with recvRsp := r } :=
  .of_eq rfl rfl rfl rfl List.suffix_rfl rfl

theorem still_output (s : St) (o : List (List UInt8)) :
    Still s { s with net := { s.net with output := o } } :=
  .of_eq rfl rfl rfl rfl List.suffix_rfl rfl

theorem moves_solInputHandler (hF : Tame K cmds F) : Moves F solInputHandler := by
  unfold solInputHandler
  refine .bind moves_theSession fun ss => ?_
  refine .ite (fun _ => ?_) fun _ => ?_
  · exact .bind (.throw _) fun _ => moves_still hF fun s => still_output s _
  · exact moves_still hF fun s => still_output s _

/-! ### The parts of a round -/

theorem buildPayload_rel (hF : Tame K cmds F) {isRetry : Bool} {x : Option ℕ × List UInt8}
    (hc : cmds = true ∨ IsMessage payload) (h : buildPayload K payload isRetry s = .ok (x, t)) :
    F.rel s t := by
  obtain ⟨entry, packet⟩ := x
  by_cases hp : IsMessage payload
  · obtain ⟨ss, -, -, -, hb⟩ := buildPayload_message_ok hp h
    exact hF.message hp hb
  · cases payload with
    | ipmi req =>
      obtain ⟨ss, addr, -, -, ⟨-, hb⟩ | ⟨-, hb⟩⟩ := buildPayload_ipmi_ok h
      · exact hF.oldCommand (hc.resolve_right hp) hb
      · exact hF.command (hc.resolve_right hp) hb
    | openRequest msg | rakp1 msg | rakp3 msg | sol p => exact absurd trivial hp

theorem moves_transmit (hF : Tame K cmds F) (hc : cmds = true ∨ IsMessage payload) (l : Locals) :
    Moves F (transmit K payload l) := by
  intro s o s' h
  rcases transmit_ok h with ⟨-, -, rfl⟩ | ⟨-, entry, packet, u, hb, rfl, -⟩
  · exact F.refl _
  · exact F.trans (F.trans (hF.still (still_time s)) (buildPayload_rel hF hc hb))
      (hF.still (still_send u packet))

theorem Polls.rel {res : PollResult} (hF : Tame K cmds F) (h : Polls K s res s') : F.rel s s' := by
  induction h with
  | last h _ => exact hF.poll h
  | skip h _ ih => exact F.trans (hF.poll h) ih

theorem moves_pollRecv (hF : Tame K cmds F) : Moves F (pollRecv K) := by
  intro s b s' h
  obtain ⟨res, hp, -⟩ := pollRecv_iff.mp h
  exact Polls.rel hF hp

theorem moves_pollPastDuplicates (hF : Tame K cmds F) : ∀ fuel, Moves F (pollPastDuplicates K fuel)
  | 0 => .pure _
  | fuel + 1 =>
    .bind (moves_pollRecv hF) fun _ => .bind .get fun _ =>
      .ite (fun _ => moves_pollPastDuplicates hF fuel) fun _ => .pure _

theorem moves_removeEntry (hF : Tame K cmds F) (addr : ℕ) : Moves F (removeEntry addr) := by
  intro s u s' h
  obtain ⟨e, -, rfl⟩ := removeEntry_ok.mp h
  exact hF.still {
    entries := fun h => by simp [h, reqRemoveEntry]
    trace := ⟨_, rfl⟩ }

theorem moves_timedOut (hF : Tame K cmds F) (ltime : ℤ) : Moves F (timedOut ltime) := by
  intro s elapsed s' h
  obtain ⟨ss, timeout, hss, -, rfl⟩ := timedOut_ok h
  exact hF.still {
    v2 := by simp [hss]
    outSeq := by simp [hss]
    sendFails := by simp only [Net.time_sendFails, List.suffix_rfl]
    number := by simp [hss]
    inbox := Net.time_inbox s.net }

/-! ### Serial over LAN -/

theorem moves_ackSolPacket (hF : Tame K cmds F) : Moves F (ackSolPacket K) := by
  unfold ackSolPacket sendAck
  refine .bind .get fun s => .ite (fun _ => ?_) fun _ => .pure _
  refine .bind .get fun s => .ite (fun _ => ?_) fun _ => .pure _
  exact .bind (moves_transmit hF (.inr (show IsMessage (.sol _) from trivial)) _) fun _ => .pure _

theorem moves_checkSolPacketForNewData (hF : Tame K cmds F) : Moves F checkSolPacketForNewData := by
  refine moves_still hF fun s => ?_
  dsimp only
  split_ifs <;> exact .of_eq rfl rfl rfl rfl List.suffix_rfl rfl

theorem moves_recvSol (hF : Tame K cmds F) : Moves F (recvSol K) := by
  unfold recvSol
  refine .bind (moves_pollRecv hF) fun got => .bind .get fun s =>
    .ite (fun _ => ?_) fun _ => .pure _
  exact .bind (moves_ackSolPacket hF) fun _ => .bind (moves_checkSolPacketForNewData hF) fun _ =>
    .pure _

theorem moves_await (hF : Tame K cmds F) (payload : V2Payload) (l : Locals) :
    Moves F (await K payload l) := by
  cases payload with
  | sol p =>
    refine .ite (fun _ => .pure _) fun _ => ?_
    refine .bind (moves_recvSol hF) fun rsp => .bind .get fun s =>
      .ite (fun _ => .pure _) fun _ => ?_
    refine .ite (fun _ => ?_) fun _ => .pure _
    exact .bind (moves_solInputHandler hF) fun _ =>
      .bind (moves_still hF fun s => still_rsp s _) fun _ => .pure _
  | ipmi req =>
    refine .bind .get fun s => .bind (moves_pollPastDuplicates hF _) fun rsp => ?_
    refine .ite (fun _ => .pure _) fun _ => ?_
    cases l.entry with
    | none => exact .bind (.pure _) fun _ => .pure _
    | some addr => exact .bind (moves_removeEntry hF addr) fun _ => .pure _
  | openRequest msg | rakp1 msg | rakp3 msg =>
    refine .bind .get fun s => .bind (moves_pollPastDuplicates hF _) fun rsp => ?_
    exact .ite (fun _ => .pure _) fun _ => .bind (.pure _) fun _ => .pure _

/-! ### The entry points -/

/-- The loop takes steps, besides what it remembers of the payload. -/
theorem moves_sendLoop (hF : Tame K cmds F) (hc : cmds = true ∨ IsMessage payload)
    (hremember : Moves F (remember payload)) : ∀ n l, Moves F (sendLoop K payload n l)
  | 0, l => .pure _
  | n + 1, l => by
    rw [sendLoop]
    refine .bind (moves_transmit hF hc l) fun o => ?_
    cases o with
    | none => exact .pure _
    | some l =>
      refine .bind .get fun s => .ite (fun _ => .pure _) fun _ => .bind hremember fun _ => ?_
      refine .bind (moves_await hF payload l) fun r => ?_
      obtain ⟨done, rsp⟩ := r
      refine .ite (fun _ => .pure _) fun _ => .bind (moves_timedOut hF _) fun xmit => ?_
      exact .ite (fun _ => .pure _) fun _ => moves_sendLoop hF hc hremember n _

theorem moves_sendPayload (hF : Tame K cmds F) (hc : cmds = true ∨ IsMessage payload)
    (hremember : Moves F (remember payload)) : Moves F (sendPayload K payload) := by
  refine .bind moves_theSession fun ss => .bind .get fun s => ?_
  refine .bind (moves_sendLoop hF hc hremember _ _) fun o => ?_
  cases o with
  | none => exact .pure _
  | some rsp =>
    refine .bind (fun s u s' h => ?_) fun _ => .pure _
    obtain ⟨ss', hss, rfl⟩ := modifySession_ok.mp h
    exact hF.still ⟨.of_session hss rfl rfl, by simp [St.withSession, hss], rfl⟩

theorem moves_sendPayload_sol (hF : Tame K cmds F) (p : SolPacket) :
    Moves F (sendPayload K (.sol p)) :=
  moves_sendPayload hF (.inr trivial) (.pure _)

theorem moves_sendIpmiCmd (hF : Tame K true F) (req : Request) : Moves F (sendIpmiCmd K req) :=
  moves_sendPayload hF (.inl rfl) (.pure _)

theorem moves_resendLoop (hF : Tame K cmds F) : ∀ fuel p rsp, Moves F (resendLoop K fuel p rsp)
  | 0, p, rsp => .pure _
  | fuel + 1, p, rsp => by
    rw [resendLoop]
    refine .bind .get fun s => .ite (fun _ => ?_) fun _ => .pure _
    have hrest : Moves F (do
        let p ← setSolPacketSequenceNumber (SolPacket.rest p s.recvRsp.acceptedCharacterCount.toNat)
        let rsp ← sendPayload K (.sol p)
        resendLoop K fuel p rsp) :=
      .bind (hF.number _) fun p => .bind (moves_sendPayload_sol hF _) fun rsp =>
        moves_resendLoop hF fuel p rsp
    exact .ite (fun _ => .bind (moves_solInputHandler hF) fun _ => hrest) fun _ => hrest

theorem moves_sendSol (hF : Tame K cmds F) (p : SolPacket) : Moves F (sendSol K p) :=
  .bind (hF.number _) fun _ => .bind .get fun _ =>
    .bind (moves_sendPayload_sol hF _) fun _ => moves_resendLoop hF _ _ _

theorem moves_keepaliveLoop (hF : Tame K cmds F) : ∀ fuel rsp, Moves F (keepaliveLoop K fuel rsp)
  | 0, rsp => .pure _
  | fuel + 1, rsp => by
    rw [keepaliveLoop]
    refine .bind .get fun s => .ite (fun _ => ?_) fun _ => .pure _
    refine .bind (moves_ackSolPacket hF) fun _ => ?_
    refine .bind (moves_checkSolPacketForNewData hF) fun _ => ?_
    have hrest : Moves F (do
        let rsp ← pollRecv K
        if rsp then keepaliveLoop K fuel rsp else return none) :=
      .bind (moves_pollRecv hF) fun rsp =>
        .ite (fun _ => moves_keepaliveLoop hF fuel rsp) fun _ => .pure _
    exact .bind .get fun s =>
      .ite (fun _ => .bind (moves_solInputHandler hF) fun _ => hrest) fun _ => hrest

theorem moves_keepalive (hF : Tame K true F) : Moves F (keepalive K) := by
  refine .bind .get fun s => .ite (fun _ => .pure _) fun _ => ?_
  refine .bind (moves_sendIpmiCmd hF _) fun rsp => .bind .get fun s => ?_
  refine .bind (moves_keepaliveLoop hF _ _) fun o => ?_
  cases o with
  | none => exact .pure _
  | some rsp => exact .bind .get fun s => .pure _

end

/-! ### What all steps keep -/

/-- The events that a step can record: no event of the handshake's own. -/
inductive Ordinary (state : Option SessionState) : Event → Prop
  | built (active : Bool) (packet : List UInt8) (rqSeq : Option UInt8) :
      Ordinary state (.built active packet rqSeq)
  | solSent (seq : UInt8) (data : List UInt8) : Ordinary state (.solSent seq data)
  | timeout : Ordinary state .timeout
  | pong (supported : Bool) : Ordinary state (.pong supported)
  | badAuthcode : Ordinary state .badAuthcode
  | removed (e : Entry) : Ordinary state (.removed e)
  | spoken {st : SessionState} {e : Event} (hst : state = some st) (h : Spoken st e) :
      Ordinary state e

/-- The state of the session, if there is one. -/
def stateOf (s : St) : Option SessionState := s.intf.session.map fun ss => ss.v2.sessionState

/-- What all steps keep. -/
structure Kept (s t : St) : Prop where
  params : t.intf.ssnParams = s.intf.ssnParams
  noanswer : t.intf.noanswer = s.intf.noanswer
  fd : t.intf.fd = s.intf.fd
  v2 : t.intf.session.map Session.v2 = s.intf.session.map Session.v2
  sendFails : t.net.sendFails <:+ s.net.sendFails
  trace : Since (Ordinary (stateOf s)) s t

theorem Kept.refl (s : St) : Kept s s :=
  ⟨rfl, rfl, rfl, rfl, List.suffix_rfl, [], by simp, by simp⟩

theorem Kept.grows (h : Kept s t) : s.trace <+: t.trace := by
  obtain ⟨evs, htr, -⟩ := h.trace
  exact ⟨evs, htr.symm⟩

theorem Kept.stateOf (h : Kept s t) : stateOf t = stateOf s := by
  have := congrArg (Option.map V2Data.sessionState) h.v2
  simp only [Option.map_map] at this
  exact this

theorem Kept.trans (h1 : Kept s t) (h2 : Kept t u) : Kept s u := by
  refine ⟨h2.params.trans h1.params, h2.noanswer.trans h1.noanswer, h2.fd.trans h1.fd,
    h2.v2.trans h1.v2, h2.sendFails.trans h1.sendFails, ?_⟩
  obtain ⟨evs1, ht1, ho1⟩ := h1.trace
  obtain ⟨evs2, ht2, ho2⟩ := h2.trace
  refine ⟨evs1 ++ evs2, by rw [ht2, ht1, List.append_assoc], fun e he => ?_⟩
  rcases List.mem_append.mp he with he | he
  · exact ho1 e he
  · rw [← h1.stateOf]
    exact ho2 e he

theorem Quiet.kept (h : Quiet s t) : Kept s t := by
  obtain ⟨gone, hgone⟩ := h.trace
  refine ⟨h.params, h.noanswer, h.fd, h.v2, h.sendFails, gone.map .removed, hgone, fun e he => ?_⟩
  obtain ⟨x, -, rfl⟩ := List.mem_map.mp he
  exact .removed x

/-- A request or its answer ends no wait with nothing, and records which entries left the list. -/
theorem ipmiLoop_events : ∀ {fuel : ℕ} {l l' : List Entry} {r r' : Response} {o b : ℕ}
    {size : UInt16} {res : PollResult} {evs : List Event},
      ipmiLoop fuel r l o b size = .ok (res, l', r', evs) →
        res ≠ .none ∧ ∃ gone : List Entry, evs = gone.map .removed
  | 0, _, _, _, _, _, _, _, _, _, h => by
    simp only [ipmiLoop, Except.ok.injEq, Prod.mk.injEq] at h
    exact ⟨by simp [← h.1], [], h.2.2.2.symm⟩
  | fuel + 1, l, l', r, r', o, b, size, res, evs, h => by
    unfold ipmiLoop at h
    dsimp only at h
    split at h
    · simp only [Except.ok.injEq, Prod.mk.injEq] at h
      exact ⟨by simp [← h.1], [], h.2.2.2.symm⟩
    · rename_i entry _
      by_cases hpeel : entry.bridgingLevel ≠ 0 ∧ (readIpmiResponse r o).ccode = 0
      · by_cases h8 : 8 < size
        · simp only [hpeel, h8, and_self, if_true, not_true_eq_false, and_false, if_false, ne_eq,
            not_false_iff] at h
          obtain ⟨r2, -, h⟩ := except_bind_ok.mp h
          obtain ⟨⟨res2, l2, r3, evs2⟩, hloop, h⟩ := except_bind_ok.mp h
          simp only [pure, Except.pure, Except.ok.injEq, Prod.mk.injEq] at h
          obtain ⟨hres, gone, rfl⟩ := ipmiLoop_events hloop
          exact ⟨h.1 ▸ hres, _ ++ gone, by rw [List.map_append]; exact h.2.2.2.symm⟩
        · simp only [hpeel, h8, and_self, if_true, not_false_iff, ne_eq, Except.ok.injEq,
            Prod.mk.injEq] at h
          exact ⟨by simp [← h.1], [], h.2.2.2.symm⟩
      · simp only [hpeel, false_and, if_false] at h
        obtain ⟨r2, -, h⟩ := except_bind_ok.mp h
        simp only [not_false_iff, if_true, pure, Except.pure, Except.ok.injEq, Prod.mk.injEq] at h
        exact ⟨by simp [← h.1], _, h.2.2.2.symm⟩

theorem pollSingle_kept {res : PollResult} (h : pollSingle K s = .ok (res, t)) : Kept s t := by
  obtain ⟨ss, hss, ⟨-, rest, -, rfl⟩ | ⟨-, d, rest, l, r, evs, -, -, -, hh, rfl⟩⟩ := pollSingle_ok h
  · refine ⟨rfl, rfl, rfl, rfl, List.suffix_rfl, [.timeout], rfl, fun e he => ?_⟩
    rw [List.mem_singleton.mp he]
    exact .timeout
  · refine ⟨rfl, rfl, rfl, rfl, List.suffix_rfl, evs, rfl, fun e he => ?_⟩
    rcases handlePacket_cases hh with ⟨b, -, -, -, rfl⟩ | ⟨-, -, rfl⟩ | ⟨-, -, rfl⟩ |
      ⟨r1, o, n, -, -, hloop⟩ | ⟨x, -, -, rfl, hx⟩
    · rw [List.mem_singleton.mp he]
      exact .pong b
    · cases he
    · rw [List.mem_singleton.mp he]
      exact .badAuthcode
    · obtain ⟨-, gone, rfl⟩ := ipmiLoop_events hloop
      obtain ⟨g, -, rfl⟩ := List.mem_map.mp he
      exact .removed g
    · rw [List.mem_singleton.mp he]
      exact .spoken (by simp [stateOf, hss]) hx

theorem buildV2xMsg_kept {payload : V2Payload} {seq : UInt8} {packet : List UInt8}
    (h : buildV2xMsg K payload seq s = .ok (packet, t)) : Kept s t := by
  obtain ⟨ss, length, iv, entropy, hss, -, -, -, rfl⟩ := buildV2xMsg_ok h
  refine ⟨rfl, rfl, rfl, by simp [hss], List.suffix_rfl, _, rfl, fun e he => ?_⟩
  cases payload with
  | ipmi req | openRequest msg | rakp1 msg | rakp3 msg =>
    rw [List.mem_singleton.mp he]
    exact .built _ _ _
  | sol p =>
    rcases List.mem_cons.mp he with rfl | he
    · exact .built _ _ _
    · rw [List.mem_singleton.mp he]
      exact .solSent _ _

theorem Step.kept (h : Step K cmds s t) : Kept s t := by
  cases h with
  | quiet h => exact h.kept
  | poll h => exact pollSingle_kept h
  | message hp h => exact buildV2xMsg_kept h
  | @command req isRetry x _ h =>
    obtain ⟨-, hb⟩ := buildV2xIpmiCmd_ok.mp h
    have h1 : Kept s (withRequest s req isRetry) :=
      ⟨rfl, rfl, rfl, rfl, List.suffix_rfl, [], by simp [withRequest], by simp⟩
    exact h1.trans (buildV2xMsg_kept hb)
  | oldCommand _ h =>
    obtain ⟨ss, -, -, -, rfl⟩ := buildV15IpmiCmd_ok h
    refine ⟨rfl, rfl, rfl, rfl, List.suffix_rfl, _, rfl, fun e he => ?_⟩
    rw [List.mem_singleton.mp he]
    exact .built _ _ _

/-- **What a run keeps.** -/
theorem RunOf.kept (h : (RunOf K cmds).rel s t) : Kept s t := by
  induction h with
  | refl => exact .refl s
  | tail _ hstep ih => exact ih.trans hstep.kept

theorem Run.kept (h : (Run K).rel s t) : Kept s t := RunOf.kept h

/-! ### The request list -/

theorem pollSingle_entries {res : PollResult} (h : pollSingle K s = .ok (res, t))
    (hl : s.reqEntries = []) : t.reqEntries = [] := by
  obtain ⟨ss, hss, ⟨-, rest, -, rfl⟩ | ⟨-, d, rest, l, r, evs, -, -, -, hh, rfl⟩⟩ := pollSingle_ok h
  · exact hl
  · rw [hl] at hh
    rcases handlePacket_cases hh with ⟨b, -, rfl, -, -⟩ | ⟨-, rfl, -⟩ | ⟨-, rfl, -⟩ |
      ⟨r1, o, n, -, -, hloop⟩ | ⟨x, -, rfl, -, -⟩
    · rfl
    · rfl
    · rfl
    · exact (ipmiLoop_nil hloop).2.1
    · rfl

/-- Without requests, an empty request list stays empty. -/
theorem RunOf.entries (h : (RunOf K false).rel s t) (hs : s.reqEntries = []) :
    t.reqEntries = [] := by
  induction h with
  | refl => exact hs
  | tail _ hstep ih =>
    cases hstep with
    | quiet h => exact h.entries ih
    | poll h => exact pollSingle_entries h ih
    | message hp h =>
      obtain ⟨ss, length, iv, entropy, -, -, -, -, rfl⟩ := buildV2xMsg_ok h
      exact ih
    | command hc _ | oldCommand hc _ => cases hc

end Ipmitool.Lanplus.Steps
