import Ipmitool.Lan.Open
import Ipmitool.Lanplus.Steps

/-! # The steps of the IPMI 1.5 transport

As in the RMCP+ transport, everything that happens on an open interface is a sequence of steps: a
command or a serial-over-LAN packet is built, or something happens that changes neither the inbound
sequence number of the session nor the number of the last request (`Quiet`). The functions that send
no command take no step that files one, so they leave an empty request list empty
(`RunOf.entries`). -/

namespace Ipmitool.Lan.Steps

open Ipmitool.Lib.Mem Ipmitool.Lib.Machine Ipmitool.Core.Types Ipmitool.Core.Network
open Ipmitool.Lanplus.State Ipmitool.Lanplus.Receive Ipmitool.Lanplus.Build Ipmitool.Lanplus.Steps
open Ipmitool.Lan.Receive Ipmitool.Lan.Send Ipmitool.Lan.Open

variable {A : Auth} {s s' t : St} {cmds : Bool}

/-- The events that do not build a packet. -/
def isBuilt : Event → Bool
  | .built _ _ _ => true
  | _ => false

/-- No packet is built, and the counters stay. -/
structure Quiet (s t : St) : Prop where
  inSeq : t.intf.session.map Session.inSeq = s.intf.session.map Session.inSeq := by rfl
  active : t.intf.session.map Session.active = s.intf.session.map Session.active := by rfl
  abort : t.intf.abort = s.intf.abort := by rfl
  currSeq : t.currSeq = s.currSeq := by rfl
  entries : s.reqEntries = [] → t.reqEntries = [] := by exact id
  trace : Since (fun e => isBuilt e = false) s t := by exact ⟨[], (List.append_nil _).symm, by simp⟩

/-- One step on an open interface, with or without commands. -/
inductive Step (cmds : Bool) : St → St → Prop
  | quiet {s t : St} (h : Quiet s t) : Step cmds s t
  | command {A : Auth} {s t : St} {req : Request} {isRetry : Bool} {x : ℕ × List UInt8}
      (hc : cmds = true) (h : buildCmd A req isRetry s = .ok (x, t)) : Step cmds s t
  | sol {s t : St} {p : SolPacket} {packet : List UInt8} (h : buildSolMsg p s = .ok (packet, t)) :
      Step cmds s t

/-- Any number of steps. -/
abbrev RunOf (cmds : Bool) : Frame St := Frame.steps (Step cmds)

/-- Any number of steps, with commands. -/
abbrev Run : Frame St := RunOf true

theorem steps_quiet (h : Quiet s t) : (RunOf cmds).rel s t := .single (.quiet h)

/-- A quiet step that leaves the number of the next serial-over-LAN packet alone. -/
structure Still (s t : St) : Prop extends Quiet s t where
  number : t.intf.session.map Session.solSequenceNumber =
    s.intf.session.map Session.solSequenceNumber := by rfl

/-- The interface does not change. -/
theorem Still.of_intf (hi : t.intf = s.intf) (hq : t.currSeq = s.currSeq)
    (he : s.reqEntries = [] → t.reqEntries = []) (ht : Since (fun e => isBuilt e = false) s t) :
    Still s t :=
  ⟨⟨by rw [hi], by rw [hi], by rw [hi], hq, he, ht⟩, by rw [hi]⟩

theorem Still.of_eq (hi : t.intf = s.intf) (hq : t.currSeq = s.currSeq)
    (he : t.reqEntries = s.reqEntries) (ht : t.trace = s.trace) : Still s t :=
  .of_intf hi hq (fun h => he.trans h) ⟨[], ht.trans (List.append_nil _).symm,
    List.forall_mem_nil _⟩

/-- What receiving does: a still step that leaves the interface and the packets sent as they are,
and files no entry. -/
structure Received (s t : St) : Prop extends Still s t where
  intf : t.intf = s.intf := by rfl
  bridge : t.bridgePossible = s.bridgePossible := by rfl
  sent : t.net.sent = s.net.sent := by rfl
  fewer : t.reqEntries.length ≤ s.reqEntries.length := by exact Nat.le_refl _

theorem Received.of_eq (hi : t.intf = s.intf) (hq : t.currSeq = s.currSeq)
    (he : t.reqEntries = s.reqEntries) (ht : t.trace = s.trace)
    (hb : t.bridgePossible = s.bridgePossible) (hs : t.net.sent = s.net.sent) : Received s t :=
  ⟨.of_eq hi hq he ht, hi, hb, hs, he.symm ▸ Nat.le_refl _⟩

theorem received_rsp (s : St) (r : Response) : Received s { s with recvRsp := r } :=
  .of_eq rfl rfl rfl rfl rfl rfl

/-- A frame that holds of everything the receive path does. -/
structure Receiving (F : Frame St) : Prop where
  received : ∀ {s t}, Received s t → F.rel s t

/-- A frame that holds of what builds no packet. -/
structure Staying (F : Frame St) : Prop where
  still : ∀ {s t}, Still s t → F.rel s t

/-- A frame that holds of what the exchange of a request does. -/
structure Commanding (A : Auth) (req : Request) (F : Frame St) : Prop extends Staying F where
  command : ∀ {isRetry s x t}, buildCmd A req isRetry s = .ok (x, t) → F.rel s t

/-- A frame that holds of everything the functions of an open interface do. -/
structure Tame (cmds : Bool) (F : Frame St) : Prop extends Staying F where
  command : ∀ {A req isRetry s x t}, cmds = true → buildCmd A req isRetry s = .ok (x, t) → F.rel s t
  sol : ∀ {p s packet t}, buildSolMsg p s = .ok (packet, t) → F.rel s t
  number : ∀ p, Moves F (Ipmitool.Lanplus.Send.setSolPacketSequenceNumber p)

theorem tame_runOf : Tame cmds (RunOf cmds) where
  still h := steps_quiet h.toQuiet
  command hc h := .single (.command hc h)
  sol h := .single (.sol h)
  number p := by
    refine .bind moves_theSession fun ss => .bind ?_ fun _ => .pure _
    intro s u s' h
    obtain ⟨ss', hss, rfl⟩ := modifySession_ok.mp h
    exact steps_quiet ⟨by simp [St.withSession, hss], by simp [St.withSession, hss], rfl, rfl, id,
      [], (List.append_nil _).symm, List.forall_mem_nil _⟩

theorem tame_run : Tame true Run := tame_runOf

section
variable {F : Frame St}

theorem moves_still (hF : Staying F) {f : St → St} (h : ∀ s, Still s (f s)) :
    Moves F (modify f : M PUnit) := .modify fun s => hF.still (h s)

/-! ### Receiving -/

theorem Staying.receiving (hF : Staying F) : Receiving F := ⟨fun h => hF.still h.toStill⟩

theorem moves_received (hF : Receiving F) {f : St → St} (h : ∀ s, Received s (f s)) :
    Moves F (modify f : M PUnit) := .modify fun s => hF.received (h s)

theorem moves_recvPacket (hF : Receiving F) : Moves F recvPacket := by
  intro s got s' h
  rcases recvPacket_ok h with ⟨-, rest, -, rfl⟩ | ⟨-, -, d, rest, -, -, -, rfl⟩
  · exact hF.received (.of_eq rfl rfl rfl rfl rfl rfl)
  · exact hF.received (.of_eq rfl rfl rfl rfl rfl rfl)

theorem moves_record (hF : Receiving F) {es : List Event} (hes : ∀ e ∈ es, isBuilt e = false) :
    Moves F (record es) :=
  moves_received hF fun _ => ⟨.of_intf rfl rfl id ⟨es, rfl, hes⟩, rfl, rfl, rfl, Nat.le_refl _⟩

theorem moves_dropEntry (hF : Receiving F) (seq cmd : UInt8) : Moves F (dropEntry seq cmd) :=
  moves_received hF fun _ =>
    ⟨.of_intf rfl rfl (fun h => by simp [h, reqRemoveEntry]) ⟨_, rfl, by simp [isBuilt]⟩,
      rfl, rfl, rfl, List.length_eraseP_le⟩

theorem moves_setEntry (hF : Receiving F) (e : Entry) : Moves F (setEntry e) :=
  moves_received hF fun _ =>
    ⟨.of_intf rfl rfl (fun h => by simp [h, updateEntry])
      ⟨[], (List.append_nil _).symm, List.forall_mem_nil _⟩, rfl, rfl, rfl, by simp [updateEntry]⟩

theorem moves_next (hF : Receiving F) : Moves F next := .bind (moves_recvPacket hF) fun _ => .pure _

theorem moves_peelRound (hF : Receiving F) (e : Entry) (r : Response) (x : ℕ) :
    Moves F (peelRound e r x) := by
  have hend : ∀ got : Bool, Moves F (do
      setEntry (peel e)
      if !got then dropEntry (peel e).rqSeq (peel e).req.cmd
      return if got then .again else .null : M Round) := fun got =>
    .bind (moves_setEntry hF _) fun _ =>
      .ite (fun _ => .bind (moves_dropEntry hF _ _) fun _ => .pure _) fun _ => .pure _
  refine .ite (fun _ => ?_) fun _ => .ite (fun _ => .throw _) fun _ => ?_
  · exact .ite (fun _ => .bind (moves_recvPacket hF) hend) fun _ => .bind (.pure _) hend
  · exact .bind (moves_received hF fun s => received_rsp s _) fun _ =>
      .bind (moves_setEntry hF _) fun _ => .pure _

theorem moves_messageRound (hF : Receiving F) (session : Session) (r : Response) :
    Moves F (messageRound session r) := by
  refine .bind (moves_received hF fun s => received_rsp s _) fun _ => .bind .get fun s => ?_
  cases reqLookupEntry s.reqEntries _ _ with
  | none => exact moves_next hF
  | some e =>
    refine .ite (fun _ => moves_peelRound hF e _ _) fun _ => ?_
    exact .bind (moves_dropEntry hF _ _) fun _ => .pure _

theorem moves_pollRound (hF : Receiving F) : Moves F pollRound := by
  refine .bind .get fun s => .ite (fun _ => ?_) fun _ => ?_
  · exact .bind (moves_record hF (by simp [isBuilt])) fun _ => .pure _
  · refine .ite (fun _ => moves_next hF) fun _ => .bind moves_theSession fun session => ?_
    refine .ite (fun _ => ?_) fun _ => moves_messageRound hF session _
    refine .bind (moves_received hF fun s => received_rsp s _) fun _ => ?_
    exact .bind (moves_record hF (by simp [isBuilt])) fun _ => .pure _

/-- A frame that holds of a round of `pollRecv` holds of the whole of it. -/
structure Polls (F : Frame St) : Prop where
  recv : Moves F recvPacket
  round : Moves F pollRound
  rsp : ∀ (s : St) (r : Response), F.rel s { s with recvRsp := r }

theorem Receiving.polls (hF : Receiving F) : Polls F :=
  ⟨moves_recvPacket hF, moves_pollRound hF, fun s r => hF.received (received_rsp s r)⟩

theorem Polls.pollLoop (hF : Polls F) : ∀ fuel, Moves F (pollLoop fuel)
  | 0 => .pure _
  | fuel + 1 => by
    refine .bind hF.round fun v => ?_
    cases v with
    | again => exact hF.pollLoop fuel
    | null => exact .pure _
    | whole => exact .pure _
    | shifted x => exact .bind (.modify fun s => hF.rsp s _) fun _ => .pure _

theorem Polls.pollRecv (hF : Polls F) : Moves F pollRecv :=
  .bind hF.recv fun _ => .bind .get fun _ => .ite (fun _ => hF.pollLoop _) fun _ => .pure _

theorem Polls.await (hF : Polls F) (hsend : Moves F thump) : Moves F Send.await := by
  have hend : Moves F (do
      let rsp ← Receive.pollRecv
      let s ← get
      if rsp ∧ s.recvRsp.ccode = 0xcf then Receive.pollRecv else return rsp : M Bool) :=
    .bind hF.pollRecv fun rsp => .bind .get fun s => .ite (fun _ => hF.pollRecv) fun _ => .pure _
  exact .bind .get fun s => .ite (fun _ => .bind hsend fun _ => hend) fun _ => hend

theorem moves_pollLoop (hF : Receiving F) (fuel : ℕ) : Moves F (pollLoop fuel) :=
  hF.polls.pollLoop fuel

theorem moves_pollRecv (hF : Receiving F) : Moves F pollRecv := hF.polls.pollRecv

/-! ### Sending -/

theorem moves_sendPacket (hF : Staying F) (packet : List UInt8) : Moves F (sendPacket packet) := by
  intro s b s' h
  obtain ⟨rfl, -⟩ := sendPacket_ok.mp h
  exact hF.still (.of_eq rfl rfl rfl rfl)

theorem moves_deref {F : Frame St} (addr : ℕ) : Moves F (Ipmitool.Lanplus.Send.deref addr) := by
  intro s e s' h
  obtain ⟨-, rfl⟩ := Ipmitool.Lanplus.Rounds.deref_ok.mp h
  exact F.refl s

theorem moves_await (hF : Staying F) : Moves F Send.await :=
  hF.receiving.polls.await (.bind (moves_sendPacket hF _) fun _ => .pure _)

theorem moves_buildCmd (hF : Tame true F) (req : Request) (isRetry : Bool) :
    Moves F (buildCmd A req isRetry) := fun _ _ _ h => hF.command rfl h

/-- The rest of a round, behind the packet, and the rounds that follow. -/
theorem moves_round (hF : Staying F) {req : Request} {fuel tries : ℕ}
    (hloop : Moves F (sendLoop A req fuel (tries + 1))) (addr : ℕ)
    (packet : List UInt8) : Moves F (do
      let sent ← sendPacket packet
      if !sent then
        let e ← Ipmitool.Lanplus.Send.deref addr
        dropEntry e.rqSeq e.req.targetCmd
        sendLoop A req fuel (tries + 1)
      else
        let s ← get
        if s.intf.noanswer then return false
        let rsp ← Send.await
        if rsp then return true
        if s.intf.ssnParams.retry ≤ tries + 1 then return false
        sendLoop A req fuel (tries + 1) : M Bool) := by
  refine .bind (moves_sendPacket hF packet) fun sent => .ite (fun _ => ?_) fun _ => ?_
  · exact .bind (moves_deref addr) fun e => .bind (moves_dropEntry hF.receiving _ _) fun _ => hloop
  · refine .bind .get fun s => .ite (fun _ => .pure _) fun _ => .bind (moves_await hF) fun rsp => ?_
    exact .ite (fun _ => .pure _) fun _ => .ite (fun _ => .pure _) fun _ => hloop

theorem Commanding.sendLoop {req : Request} (hF : Commanding A req F) :
    ∀ fuel tries, Moves F (sendLoop A req fuel tries)
  | 0, _ => .pure _
  | fuel + 1, tries => by
    refine .bind (fun _ _ _ h => hF.command h) fun x => ?_
    obtain ⟨addr, packet⟩ := x
    exact moves_round hF.toStaying (hF.sendLoop fuel (tries + 1)) addr packet

theorem still_cleared : Still s { s with reqEntries := [] } :=
  .of_intf rfl rfl (fun _ => rfl) ⟨[], (List.append_nil _).symm, List.forall_mem_nil _⟩

theorem Commanding.exchange {req : Request} (hF : Commanding A req F) : Moves F (exchange A req) :=
  .bind .get fun _ => .bind (hF.sendLoop _ _) fun _ =>
    .bind (moves_still hF.toStaying fun _ => still_cleared) fun _ => .pure _

/-- An exchange begins with a packet. -/
theorem exchange_builds {req : Request} {b : Bool} (h : exchange A req s = .ok (b, t)) :
    ∃ x u, buildCmd A req false s = .ok (x, u) ∧ ∀ {F : Frame St}, Commanding A req F →
    F.rel u t := by
  unfold Send.exchange at h
  obtain ⟨_, _, hget, h⟩ := bind_ok.mp h
  obtain ⟨rfl, rfl⟩ := get_ok.mp hget
  obtain ⟨rsp, v, hloop, hend⟩ := bind_ok.mp h
  rw [Send.sendLoop] at hloop
  obtain ⟨⟨addr, packet⟩, u, hbuild, hloop⟩ := bind_ok.mp hloop
  refine ⟨_, u, hbuild, fun {F} hF => ?_⟩
  have hstart : F.rel u v :=
    Moves.rel (moves_round hF.toStaying (hF.sendLoop _ _) addr packet) hloop
  refine F.trans hstart (Moves.rel ?_ hend)
  exact .bind (moves_still hF.toStaying fun _ => still_cleared) fun _ => .pure _

theorem Tame.commanding (hF : Tame true F) (req : Request) : Commanding A req F where
  still := hF.still
  command h := hF.command rfl h

theorem moves_sendLoop (hF : Tame true F) (req : Request) (fuel tries : ℕ) :
    Moves F (sendLoop A req fuel tries) := (hF.commanding req).sendLoop fuel tries

theorem moves_exchange (hF : Tame true F) (req : Request) : Moves F (exchange A req) :=
  (hF.commanding req).exchange

/-! ### Serial over LAN -/

theorem moves_sendAck (hF : Tame cmds F) (packet : List UInt8) :
    ∀ fuel, Moves F (sendAck packet fuel)
  | 0 => .pure _
  | fuel + 1 => .bind (moves_sendPacket hF.toStaying packet) fun _ =>
    .ite (fun _ => .pure _) fun _ => moves_sendAck hF packet fuel

theorem moves_recvSol (hF : Tame cmds F) : Moves F recvSol := by
  have hack : Moves F ackSolPacket := by
    refine .bind .get fun s => .ite (fun _ => ?_) fun _ => .pure _
    exact .bind (fun _ _ _ h => hF.sol h) fun packet => moves_sendAck hF packet _
  have hcheck : Moves F checkSolPacketForNewData := by
    refine moves_still hF.toStaying fun s => ?_
    dsimp only
    split_ifs <;> exact .of_eq rfl rfl rfl rfl
  refine .bind (moves_pollRecv hF.receiving) fun got => .ite (fun _ => ?_) fun _ => .pure _
  exact .bind hack fun _ => .bind hcheck fun _ => .pure _

theorem moves_solInputHandler (hF : Tame cmds F) : Moves F solInputHandler := by
  refine .bind moves_theSession fun ss => .ite (fun _ => ?_) fun _ =>
    moves_still hF.toStaying fun _ => .of_eq rfl rfl rfl rfl
  exact .bind (.throw _) fun _ => moves_still hF.toStaying fun _ => .of_eq rfl rfl rfl rfl

theorem moves_solLoop (hF : Tame cmds F) (p : SolPacket) (packet : List UInt8) :
    ∀ fuel tries rsp, Moves F (solLoop p packet fuel tries rsp)
  | 0, _, _ => .pure _
  | fuel + 1, tries, rsp => by
    refine .bind (moves_sendPacket hF.toStaying packet) fun sent => .ite (fun _ => ?_) fun _ => ?_
    · exact moves_solLoop hF p packet fuel _ _
    · refine .bind .get fun s => .ite (fun _ => .pure _) fun _ =>
      .bind (moves_recvSol hF) fun rsp => ?_
      have hend : ∀ s : St, Moves F (do
          if s.intf.ssnParams.retry ≤ tries + 1 then return rsp
          solLoop p packet fuel (tries + 1) rsp : M Bool) := fun s =>
        .ite (fun _ => .pure _) fun _ => moves_solLoop hF p packet fuel _ _
      refine .bind .get fun s => .ite (fun _ => .pure _) fun _ => .ite (fun _ => ?_) fun _ => hend s
      exact .bind (moves_solInputHandler hF) fun _ => hend s

theorem moves_sendSolPayload (hF : Tame cmds F) (p : SolPacket) : Moves F (sendSolPayload p) :=
  .bind .get fun _ => .bind (fun _ _ _ h => hF.sol h) fun _ => moves_solLoop hF p _ _ _ _

theorem moves_resendLoop (hF : Tame cmds F) : ∀ fuel p rsp, Moves F (resendLoop fuel p rsp)
  | 0, _, _ => .pure _
  | fuel + 1, p, rsp => by
    rw [resendLoop]
    refine .bind .get fun s => .ite (fun _ => ?_) fun _ => .pure _
    have hrest : Moves F (do
        let p ← Ipmitool.Lanplus.Send.setSolPacketSequenceNumber
          (Ipmitool.Lanplus.Send.SolPacket.rest p s.recvRsp.acceptedCharacterCount.toNat)
        let rsp ← sendSolPayload p
        resendLoop fuel p rsp) :=
      .bind (hF.number _) fun p => .bind (moves_sendSolPayload hF p) fun rsp =>
        moves_resendLoop hF fuel p rsp
    exact .ite (fun _ => .bind (moves_solInputHandler hF) fun _ => hrest) fun _ => hrest

theorem moves_sendSol (hF : Tame cmds F) (p : SolPacket) : Moves F (sendSol p) :=
  .bind (hF.number _) fun _ => .bind (moves_sendSolPayload hF _) fun _ => moves_resendLoop hF _ _ _

theorem moves_keepalive (hF : Tame true F) : Moves F (keepalive A) :=
  .bind .get fun _ => .ite (fun _ => .pure _) fun _ => .bind (moves_exchange hF _) fun _ =>
    .bind .get fun _ => .pure _

end

/-! ### Opening and closing -/

/-- A frame that holds of what the commands before the activation do. -/
structure Talking (A : Auth) (F : Frame St) : Prop where
  exchange : ∀ req, Moves F (exchange A req)
  pollRecv : Moves F pollRecv
  sendPacket : ∀ packet, Moves F (sendPacket packet)
  session : ∀ {s ss ss'}, s.intf.session = some ss → Uncounted ss ss' → F.rel s (s.withSession ss')

/-- A frame that holds of what `open` and `close` do with a session. -/
structure Exchanging (A : Auth) (F : Frame St) : Prop extends Talking A F where
  other : ∀ {s t}, t.intf.session = s.intf.session → t.reqEntries = s.reqEntries →
    t.currSeq = s.currSeq → t.trace = s.trace → F.rel s t

/-- A frame that holds of everything `open` and `close` do besides their commands: the activation
changes the counter and the active state of the session. -/
structure Opening (A : Auth) (F : Frame St) : Prop extends Exchanging A F where
  activation : ∀ {s ss ss'}, s.intf.session = some ss →
    ss'.solSequenceNumber = ss.solSequenceNumber → F.rel s (s.withSession ss')
  fresh : ∀ {s t p}, t.intf.session = some (Ipmitool.Lanplus.Open.freshSession p) →
    t.reqEntries = s.reqEntries → F.rel s t
  closed : ∀ {s t}, t.intf.session = none → t.reqEntries = [] → F.rel s t

section
variable {F : Frame St}

theorem Exchanging.modify (hF : Exchanging A F) {f : St → St}
    (hs : ∀ s, (f s).intf.session = s.intf.session) (he : ∀ s, (f s).reqEntries = s.reqEntries)
    (hq : ∀ s, (f s).currSeq = s.currSeq) (ht : ∀ s, (f s).trace = s.trace) :
    Moves F (modify f : M PUnit) := .modify fun s => hF.other (hs s) (he s) (hq s) (ht s)

theorem Talking.modifySession (hF : Talking A F) {f : Session → Session}
    (h : ∀ ss, Uncounted ss (f ss)) : Moves F (modifySession f) := by
  intro s u s' hm
  obtain ⟨ss, hss, rfl⟩ := modifySession_ok.mp hm
  exact hF.session hss (h ss)

theorem Opening.modifySession (hF : Opening A F) {f : Session → Session}
    (h : ∀ ss, (f ss).solSequenceNumber = ss.solSequenceNumber) : Moves F (modifySession f) := by
  intro s u s' hm
  obtain ⟨ss, hss, rfl⟩ := modifySession_ok.mp hm
  exact hF.activation hss (h ss)

theorem moves_sendPacket_of {F : Frame St} (hother : ∀ {s t : St}, t.intf.session = s.intf.session →
    t.reqEntries = s.reqEntries → t.currSeq = s.currSeq → t.trace = s.trace → F.rel s t)
    (packet : List UInt8) : Moves F (sendPacket packet) := by
  intro s b s' h
  obtain ⟨rfl, -⟩ := sendPacket_ok.mp h
  exact hother rfl rfl rfl rfl

theorem moves_getAuthCapabilitiesCmd (hF : Talking A F) : Moves F (getAuthCapabilitiesCmd A) := by
  refine .bind .get fun s => .bind (hF.exchange _) fun got => .bind .get fun s => ?_
  refine .ite (fun _ => .pure _) fun _ =>
    .bind (hF.modifySession fun _ => ⟨rfl, rfl, rfl, rfl, id⟩) fun _ => ?_
  cases chooseAuthtype s.intf.ssnParams (s.recvRsp.data 1) with
  | none => exact .pure _
  | some authtype =>
    exact .bind (hF.modifySession fun _ => ⟨rfl, rfl, rfl, rfl, id⟩) fun _ => .pure _

theorem moves_getSessionChallengeCmd (hF : Talking A F) : Moves F (getSessionChallengeCmd A) := by
  refine .bind moves_theSession fun ss => .bind .get fun s => .bind (hF.exchange _) fun got => ?_
  refine .bind .get fun s => .ite (fun _ => .pure _) fun _ => ?_
  exact .bind (hF.modifySession fun _ => ⟨rfl, rfl, rfl, rfl, id⟩) fun _ => .pure _

theorem moves_activated (hF : Opening A F) : Moves F activated := by
  refine .bind .get fun s => .ite (fun _ => .pure _) fun _ => ?_
  refine .bind (hF.modifySession fun _ => rfl) fun _ => ?_
  refine .bind moves_theSession fun ss => .ite (fun _ => ?_) fun _ => .pure _
  exact .bind (hF.modifySession fun _ => rfl) fun _ => .pure _

theorem moves_activateSessionCmd (hF : Opening A F) : Moves F (activateSessionCmd A) := by
  have hrand : Moves F rand := by
    intro s b s' h
    obtain ⟨rfl, -⟩ := rand_ok.mp h
    exact hF.other rfl rfl rfl rfl
  refine .bind .get fun s => .bind moves_theSession fun ss => .bind ?_ fun _ => ?_
  · exact .ite (fun _ => hF.modifySession fun _ => rfl) fun _ => .pure _
  · refine .bind hrand fun outbound => .bind (hF.modifySession fun _ => rfl) fun _ => ?_
    refine .bind (hF.exchange _) fun got => .ite (fun _ => moves_activated hF) fun _ => ?_
    exact .bind (hF.modifySession fun _ => rfl) fun _ => .pure _

theorem moves_setSessionPrivlvlCmd (hF : Exchanging A F) : Moves F (setSessionPrivlvlCmd A) := by
  have hbridge : ∀ f : St → Bool,
      Moves F (modify fun s => { s with bridgePossible := f s } : M PUnit) :=
    fun f => hF.modify (fun _ => rfl) (fun _ => rfl) (fun _ => rfl) fun _ => rfl
  refine .bind .get fun s => .ite (fun _ => .pure _) fun _ => ?_
  refine .bind (hbridge _) fun _ => .bind (hF.exchange _) fun got => ?_
  exact .bind (hbridge _) fun _ => .bind .get fun s => .pure _

theorem moves_closeSessionCmd (hF : Exchanging A F) : Moves F (closeSessionCmd A) := by
  refine .bind moves_theSession fun ss => .ite (fun _ => ?_) fun _ => .pure _
  refine .bind (hF.modify (fun _ => rfl) (fun _ => rfl) (fun _ => rfl) fun _ => rfl) fun _ => ?_
  exact .bind (hF.exchange _) fun _ => .pure _

theorem moves_wake (hF : Talking A F) : Moves F wake := by
  have hthump : Moves F thumpFirst := .bind (hF.sendPacket _) fun _ => .pure _
  have hping : Moves F lanPing := .bind (hF.sendPacket _) fun _ =>
    .ite (fun _ => .bind hF.pollRecv fun _ => .pure _) fun _ => .pure _
  refine .bind .get fun s => .ite (fun _ => ?_) fun _ => ?_
  · exact .bind hping fun _ => .ite (fun _ => hthump) fun _ => .pure _
  · exact .ite (fun _ => hthump) fun _ => .pure _

theorem moves_activateSession (hF : Opening A F) : Moves F (activateSession A) := by
  refine .bind (moves_wake hF.toTalking) fun _ => ?_
  refine .bind (moves_getAuthCapabilitiesCmd hF.toTalking) fun _ =>
    .ite (fun _ => .pure _) fun _ => ?_
  refine .bind (moves_getSessionChallengeCmd hF.toTalking) fun _ =>
    .ite (fun _ => .pure _) fun _ => ?_
  refine .bind (moves_activateSessionCmd hF) fun _ => .ite (fun _ => .pure _) fun _ => ?_
  refine .bind (hF.modify (fun _ => rfl) (fun _ => rfl) (fun _ => rfl) fun _ => rfl) fun _ => ?_
  refine .bind (moves_setSessionPrivlvlCmd hF.toExchanging) fun _ =>
    .ite (fun _ => ?_) fun _ => .pure _
  exact .bind (moves_closeSessionCmd hF.toExchanging) fun _ => .pure _

theorem moves_detectMaxPayloadSize (hF : Exchanging A F) : Moves F (detectMaxPayloadSize A) := by
  refine .bind (hF.exchange _) fun got => .bind .get fun s => ?_
  split
  · refine .bind (hF.exchange _) fun got => .bind .get fun s => ?_
    split
    · exact hF.modify (fun _ => rfl) (fun _ => rfl) (fun _ => rfl) fun _ => rfl
    · exact .pure _
  · exact .pure _

theorem moves_getOem (hF : Exchanging A F) : Moves F (getOem A) :=
  .bind .get fun _ => .ite (fun _ => .pure _) fun _ => .ite (fun _ => .pure _) fun _ =>
    .bind (hF.exchange _) fun _ => .bind .get fun _ => .pure _

theorem moves_close (hF : Exchanging A F)
    (hclosed : ∀ {s t : St}, t.intf.session = none → t.reqEntries = [] → F.rel s t) :
    Moves F (close A) := by
  have hend : Moves F (modify fun s => { s with
      intf := { s.intf with fd := -1, session := none, manufacturerId := 0 }
      reqEntries := [] } : M PUnit) := .modify fun s => hclosed rfl rfl
  exact .bind .get fun s => .ite (fun _ => .bind (moves_closeSessionCmd hF) fun _ => hend) fun _ =>
    hend

theorem Opening.moves_close (hF : Opening A F) : Moves F (close A) :=
  Steps.moves_close hF.toExchanging hF.closed

theorem moves_open (hF : Opening A F) : Moves F («open» A) := by
  refine .bind .get fun s => .ite (fun _ => .pure _) fun _ => ?_
  refine .bind (hF.modify (fun _ => rfl) (fun _ => rfl) (fun _ => rfl) fun _ => rfl) fun _ => ?_
  refine .ite (fun _ => .pure _) fun _ => ?_
  cases s.net.connects with
  | none => exact .pure _
  | some fd =>
    refine .bind (.modify fun s => hF.fresh rfl rfl) fun _ => ?_
    refine .bind (moves_activateSession hF) fun good => .ite (fun _ => ?_) fun _ => ?_
    · refine .bind (moves_detectMaxPayloadSize hF.toExchanging) fun _ =>
        .bind (moves_getOem hF.toExchanging) fun oem => ?_
      exact .bind (hF.modify (fun _ => rfl) (fun _ => rfl) (fun _ => rfl) fun _ => rfl) fun _ =>
        .pure _
    · exact .bind hF.moves_close fun _ => .pure _

theorem moves_sendCmd (hF : Opening A F) (req : Request) : Moves F (sendCmd A req) := by
  refine .bind .get fun s => .ite (fun _ => ?_) fun _ => hF.exchange req
  exact .bind (moves_open hF) fun fd => .ite (fun _ => .pure _) fun _ => hF.exchange req

end

/-! ### What the builders do -/

theorem takeEntry_ok {req : Request} {seq : UInt8} {e : Entry}
    (h : takeEntry req seq s = .ok (e, t)) :
    (reqLookupEntry s.reqEntries seq req.cmd = some e ∧ t = s) ∨
      (reqLookupEntry s.reqEntries seq req.cmd = none ∧ e = ⟨s.nextAddr, req, seq, 0⟩ ∧
        t = { s with reqEntries := s.reqEntries ++ [e], nextAddr := s.nextAddr + 1 }) := by
  unfold takeEntry at h
  simp only [bind_ok, get_ok] at h
  obtain ⟨_, _, ⟨rfl, rfl⟩, h⟩ := h
  rcases hf : reqLookupEntry s.reqEntries seq req.cmd with _ | x
  · rw [hf] at h
    simp only [bind_ok, reqAddEntry_ok, pure_ok] at h
    obtain ⟨_, _, ⟨rfl, rfl⟩, rfl, rfl⟩ := h
    exact .inr ⟨rfl, rfl, rfl⟩
  · rw [hf] at h
    obtain ⟨rfl, rfl⟩ := pure_ok.mp h
    exact .inl ⟨rfl, rfl⟩

/-- **What `buildCmd` does** when it returns. -/
theorem buildCmd_ok {req : Request} {isRetry : Bool} {addr : ℕ} {packet : List UInt8}
    (h : buildCmd A req isRetry s = .ok ((addr, packet), t)) :
    ∃ ss e u seq level, s.intf.session = some ss ∧ seq = advanceSeq s.currSeq isRetry ∧
      level = bridgingLevel s.intf s.bridgePossible ∧
      takeEntry req seq { s with currSeq := seq } = .ok (e, u) ∧ addr = e.addr ∧
      packet = cmdPacket A s.intf ss level seq req ∧ t = { u with
        reqEntries := updateEntry u.reqEntries { bridgeEntry level e with rqSeq := seq }
        intf := { s.intf with session := some { ss with inSeq := nextInSeq ss.inSeq } }
        trace := s.trace ++ [.built ss.active packet (some seq)] } := by
  unfold buildCmd at h
  simp only [bind_ok, theSession_ok, modify_ok, get_ok, setEntry, modifySession_ok, record_ok,
    pure_ok, Prod.mk.injEq] at h
  obtain ⟨ss, _, ⟨hss, rfl⟩, _, _, rfl, _, _, ⟨rfl, rfl⟩, e, u, htake, _, _, rfl, _, _,
    ⟨ss', hss', rfl⟩, _, _, rfl, ⟨rfl, rfl⟩, rfl⟩ := h
  refine ⟨ss, e, u, _, _, hss, rfl, rfl, htake, rfl, rfl, ?_⟩
  rcases takeEntry_ok htake with ⟨-, rfl⟩ | ⟨-, -, rfl⟩
  · obtain rfl : ss = ss' := Option.some.inj (hss.symm.trans hss')
    rfl
  · obtain rfl : ss = ss' := Option.some.inj (hss.symm.trans hss')
    rfl

theorem buildSolMsg_ok {p : SolPacket} {packet : List UInt8}
    (h : buildSolMsg p s = .ok (packet, t)) :
    ∃ ss, s.intf.session = some ss ∧ packet = solPacket ss p ∧ t = { s with
      intf := { s.intf with session := some { ss with inSeq := nextSeq ss.inSeq } }
      trace := s.trace ++ [.built ss.active packet none,
        .solSent p.packetSequenceNumber p.data] } := by
  unfold buildSolMsg at h
  simp only [bind_ok, theSession_ok, modifySession_ok, record_ok, pure_ok] at h
  obtain ⟨ss, _, ⟨hss, rfl⟩, _, _, ⟨ss', hss', rfl⟩, _, _, rfl, rfl, rfl⟩ := h
  obtain rfl : ss = ss' := Option.some.inj (hss.symm.trans hss')
  exact ⟨ss, hss, rfl, rfl⟩

/-! ### What all steps keep -/

theorem Step.grows (h : Step cmds s t) : s.trace <+: t.trace := by
  cases h with
  | quiet h =>
    obtain ⟨evs, htr, -⟩ := h.trace
    exact ⟨evs, htr.symm⟩
  | command _ h =>
    rename_i x
    obtain ⟨addr, packet⟩ := x
    obtain ⟨ss, e, u, seq, level, -, -, -, -, -, -, rfl⟩ := buildCmd_ok h
    exact List.prefix_append _ _
  | sol h =>
    obtain ⟨ss, -, -, rfl⟩ := buildSolMsg_ok h
    exact List.prefix_append _ _

theorem RunOf.grows (h : (RunOf cmds).rel s t) : s.trace <+: t.trace := by
  induction h with
  | refl => exact List.prefix_rfl
  | tail _ hstep ih => exact ih.trans hstep.grows

theorem Run.grows (h : Run.rel s t) : s.trace <+: t.trace := RunOf.grows h

/-- Without commands, an empty request list stays empty. -/
theorem RunOf.entries (h : (RunOf false).rel s t) (hs : s.reqEntries = []) : t.reqEntries = [] := by
  induction h with
  | refl => exact hs
  | tail _ hstep ih =>
    cases hstep with
    | quiet h => exact h.entries ih
    | command hc _ => cases hc
    | sol h =>
      obtain ⟨ss, -, -, rfl⟩ := buildSolMsg_ok h
      exact ih

end Ipmitool.Lan.Steps
