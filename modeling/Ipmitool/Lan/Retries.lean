import Ipmitool.Lan.Steps
import Ipmitool.Lib.Retry

/-! # The number of transmissions

The loops of `sendCmd` and `sendSolPayload` count their tries and compare the count with
`ssn_params.retry`, but not on the branch of a failed send, which goes on in any case. `cmdTry` and
`solTry` are one try of each loop, and both loops retry in the sense of `Lib.Retry`
(`sendLoop_retries`, `solLoop_retries`). So the request is transmitted at most `retry` times exactly
if the send of the last of these tries does not fail. -/

namespace Ipmitool.Lan.Retries

open Ipmitool.Lib.Machine Ipmitool.Lib.Bytes Ipmitool.Lib.Retry Ipmitool.Core.Types
  Ipmitool.Core.Network
open Ipmitool.Lanplus.State Ipmitool.Lanplus.Receive Ipmitool.Lanplus.Build
open Ipmitool.Lanplus.Steps (moves_theSession)
open Ipmitool.Lan.Receive Ipmitool.Lan.Send Ipmitool.Lan.Steps

variable {A : Auth} {s s' t : St} {req : Request} {p : SolPacket} {packet : List UInt8}

/-! ### One try -/

/-- A try of `sendCmd` after the command has been built: `done false` on an interface that waits for
no answer. -/
def cmdRest (addr : ℕ) (packet : List UInt8) : M (Outcome Bool) := do
  let sent ← sendPacket packet
  if !sent then
    let e ← Ipmitool.Lanplus.Send.deref addr
    dropEntry e.rqSeq e.req.targetCmd
    return .failed
  else
    let s ← get
    if s.intf.noanswer then return .done false
    let rsp ← await
    return if rsp then .done true else .vain false

/-- One try of `sendCmd`. -/
def cmdTry (A : Auth) (req : Request) (tries : ℕ) : M (Outcome Bool) := do
  let (addr, packet) ← buildCmd A req (0 < tries)
  cmdRest addr packet

/-- One try of `sendSolPayload`: what is received without being the acknowledgement is a result in
vain. -/
def solTry (p : SolPacket) (packet : List UInt8) : M (Outcome Bool) := do
  let sent ← sendPacket packet
  if !sent then return .failed
  else
    let s ← get
    if s.intf.noanswer ∨ p.packetSequenceNumber = 0 then return .done false
    let rsp ← recvSol
    let s ← get
    if rsp ∧ solResponseAcksPacket s.recvRsp p then return .done true
    if rsp ∧ isSolPacket s.recvRsp ∧ s.recvRsp.dataLen ≠ 0 then solInputHandler
    return .vain rsp

/-- The packets with the RMCP header of class IPMI, as the commands have it. -/
def isCommand (d : List UInt8) : Bool := d.take 4 = rmcpHdr

/-- The number of packets of a kind sent so far. -/
def transmitted (q : List UInt8 → Bool) (s : St) : ℕ := (s.net.sent.filter q).length

/-! ### What stays during a try -/

/-- The parameters stay, and no packet of a kind is sent. -/
def quietly (q : List UInt8 → Bool) : Frame St :=
  Frame.same fun s => (s.intf.ssnParams, s.intf.noanswer, s.net.sent.filter q)

section
variable {q : List UInt8 → Bool}

theorem receiving_quietly : Receiving (quietly q) := ⟨fun h => by
  show (_, _, _) = (_, _, _)
  rw [h.intf, h.sent]⟩

theorem send_sent (n : Net) (d : List UInt8) : (n.send d).2.sent = n.sent ++ [d] := by
  unfold Net.send
  split <;> rfl

theorem quietly_sendPacket {d : List UInt8} (hq : q d = false) :
    Moves (quietly q) (sendPacket d) := by
  intro s b s' h
  obtain ⟨rfl, -⟩ := sendPacket_ok.mp h
  show (_, _, _) = (_, _, _)
  rw [send_sent, List.filter_append]
  simp [hq]

theorem transmitted_sendPacket {d : List UInt8} {b : Bool} (h : sendPacket d s = .ok (b, t))
    (hq : q d = true) : transmitted q t = transmitted q s + 1 ∧
      t.intf.ssnParams = s.intf.ssnParams ∧ t.intf.noanswer = s.intf.noanswer := by
  obtain ⟨rfl, -⟩ := sendPacket_ok.mp h
  refine ⟨?_, rfl, rfl⟩
  simp [transmitted, send_sent, hq]

theorem quietly_rel (h : (quietly q).rel s t) : transmitted q t = transmitted q s ∧
    t.intf.ssnParams = s.intf.ssnParams ∧ t.intf.noanswer = s.intf.noanswer := by
  simp only [quietly, Frame.same, Prod.mk.injEq] at h
  exact ⟨by rw [transmitted, transmitted, h.2.2], h.1, h.2.1⟩

theorem quietly_buildCmd {isRetry : Bool} : Moves (quietly q) (buildCmd A req isRetry) := by
  intro s ⟨addr, packet⟩ s' h
  obtain ⟨ss, e, u, seq, level, -, -, -, htake, -, -, rfl⟩ := buildCmd_ok h
  rcases takeEntry_ok htake with ⟨-, rfl⟩ | ⟨-, -, rfl⟩
  · rfl
  · rfl

theorem quietly_solInputHandler : Moves (quietly q) solInputHandler := by
  refine .bind moves_theSession fun ss => .ite (fun _ => ?_) fun _ => .modify fun _ => rfl
  exact .bind (.throw _) fun _ => .modify fun _ => rfl

end

theorem quietly_await : Moves (quietly isCommand) Send.await :=
  receiving_quietly.polls.await (.bind (quietly_sendPacket (by decide)) fun _ => .pure _)

theorem solPacket_seq (ss : Session) (p : SolPacket) :
    (solPacket ss p)[14]? = some p.packetSequenceNumber := by
  simp [solPacket, rmcpHdr, le32]

/-- The acknowledgements that `recvSol` sends are not the packet of `sendSolPayload`. -/
theorem quietly_recvSol (hpacket : packet[14]? = some p.packetSequenceNumber)
    (hp : p.packetSequenceNumber ≠ 0) : Moves (quietly (· = packet)) recvSol := by
  have hack : Moves (quietly (· = packet)) ackSolPacket := by
    refine .bind .get fun s => .ite (fun _ => ?_) fun _ => .pure _
    intro v u v' h
    obtain ⟨d, w, hb, h⟩ := bind_ok.mp h
    obtain ⟨ss, -, hd, rfl⟩ := buildSolMsg_ok hb
    have hne : decide (d = packet) = false := by
      refine decide_eq_false fun heq => hp ?_
      rw [← heq, hd, solPacket_seq] at hpacket
      exact (Option.some.inj hpacket).symm
    have hloop : ∀ fuel, Moves (quietly (· = packet)) (sendAck d fuel) := by
      intro fuel
      induction fuel with
      | zero => exact .pure _
      | succ fuel ih =>
        exact .bind (quietly_sendPacket hne) fun _ => .ite (fun _ => .pure _) fun _ => ih
    have hrest := (hloop _).rel h
    exact hrest
  refine .bind (moves_pollRecv receiving_quietly) fun got =>
    .ite (fun _ => .bind hack fun _ => .bind (.modify fun s => ?_) fun _ => .pure _) fun _ =>
      .pure _
  dsimp only
  split_ifs <;> rfl

/-! ### Both loops retry -/

theorem moves_cmdRest {F : Frame St} {addr : ℕ} (hsend : Moves F (sendPacket packet))
    (hdrop : ∀ seq cmd, Moves F (dropEntry seq cmd)) (hawait : Moves F Send.await) :
    Moves F (cmdRest addr packet) := by
  refine .bind hsend fun sent => .ite (fun _ => ?_) fun _ => ?_
  · exact .bind (moves_deref addr) fun e => .bind (hdrop _ _) fun _ => .pure _
  · exact .bind .get fun s => .ite (fun _ => .pure _) fun _ => .bind hawait fun _ => .pure _

theorem cmdTry_counts {n : ℕ} {o : Outcome Bool} (h : cmdTry A req n s = .ok (o, t)) :
    transmitted isCommand t = transmitted isCommand s + 1 ∧
      t.intf.ssnParams = s.intf.ssnParams ∧ t.intf.noanswer = s.intf.noanswer := by
  obtain ⟨⟨addr, packet⟩, u, hb, h⟩ := bind_ok.mp h
  obtain ⟨sent, v, hs, h⟩ := bind_ok.mp h
  have hcmd : isCommand packet = true := by
    obtain ⟨ss, e, w, seq, level, -, -, -, -, -, rfl, -⟩ := buildCmd_ok hb
    simp [isCommand, cmdPacket, rmcpHdr]
  have hrest : (quietly isCommand).rel v t := by
    refine Moves.rel ?_ h
    refine .ite (fun _ => ?_) fun _ => ?_
    · exact .bind (moves_deref addr) fun e =>
        .bind (moves_dropEntry receiving_quietly _ _) fun _ => .pure _
    · exact .bind .get fun s => .ite (fun _ => .pure _) fun _ =>
        .bind quietly_await fun _ => .pure _
  obtain ⟨h1, h2, h3⟩ := quietly_rel (quietly_buildCmd.rel hb : (quietly isCommand).rel s u)
  obtain ⟨h4, h5, h6⟩ := transmitted_sendPacket hs hcmd
  obtain ⟨h7, h8, h9⟩ := quietly_rel hrest
  exact ⟨by omega, h8.trans (h5.trans h2), h9.trans (h6.trans h3)⟩

theorem solTry_counts {o : Outcome Bool} (hpacket : packet[14]? = some p.packetSequenceNumber)
    (h : solTry p packet s = .ok (o, t)) :
    transmitted (· = packet) t = transmitted (· = packet) s + 1 ∧
      t.intf.ssnParams = s.intf.ssnParams ∧ t.intf.noanswer = s.intf.noanswer := by
  obtain ⟨sent, v, hs, h⟩ := bind_ok.mp h
  have hrest : (quietly (· = packet)).rel v t := by
    refine Moves.rel ?_ h
    refine .ite (fun _ => .pure _) fun _ => .bind .get fun s =>
      .ite (fun _ => .pure _) fun hask => ?_
    refine .bind (quietly_recvSol hpacket fun h0 => hask (.inr h0)) fun rsp =>
      .bind .get fun s => ?_
    refine .ite (fun _ => .pure _) fun _ => .ite (fun _ => ?_) fun _ => .pure _
    exact .bind quietly_solInputHandler fun _ => .pure _
  obtain ⟨h4, h5, h6⟩ := transmitted_sendPacket (q := (· = packet)) hs (by simp)
  obtain ⟨h7, h8, h9⟩ := quietly_rel hrest
  exact ⟨by omega, h8.trans h5, h9.trans h6⟩

/-- **The loop of `sendCmd` retries.** -/
theorem sendLoop_retries (A : Auth) (req : Request) (retry : ℤ) :
    Retries (fun r s => s.intf.ssnParams.retry = retry ∧ r = false) retry.toNat (cmdTry A req)
      fun fuel n _ => sendLoop A req fuel n := by
  refine ⟨fun h => (pure_ok.mp h).2.symm, ?_⟩
  rintro fuel n r r' s s' ⟨hretry, rfl⟩ h
  obtain ⟨⟨addr, packet⟩, u, hb, h⟩ := bind_ok.mp h
  obtain ⟨sent, v, hs, h⟩ := bind_ok.mp h
  -- the try with the same first steps
  have htry : ∀ {o t}, (if !sent then do
        let e ← Ipmitool.Lanplus.Send.deref addr
        dropEntry e.rqSeq e.req.targetCmd
        return .failed
      else do
        let s ← get
        if s.intf.noanswer then return .done false
        let rsp ← Send.await
        return if rsp then .done true else .vain false : M (Outcome Bool)) v = .ok (o, t) →
      cmdTry A req n s = .ok (o, t) := fun ho =>
    bind_ok.mpr ⟨(addr, packet), u, hb, bind_ok.mpr ⟨sent, v, hs, ho⟩⟩
  cases sent with
  | false =>
    obtain ⟨e, w, hd, h⟩ := bind_ok.mp h
    obtain ⟨_, x, hdrop, h⟩ := bind_ok.mp h
    have hat := htry (bind_ok.mpr ⟨e, w, hd, bind_ok.mpr ⟨⟨⟩, x, hdrop, pure_ok.mpr ⟨rfl, rfl⟩⟩⟩)
    exact ⟨.failed, x, hat, ⟨by rw [(cmdTry_counts hat).2.1, hretry], rfl⟩, h⟩
  | true =>
    obtain ⟨_, _, hg, h⟩ := bind_ok.mp h
    obtain ⟨rfl, rfl⟩ := get_ok.mp hg
    by_cases hno : v.intf.noanswer = true
    · rw [if_pos hno] at h
      obtain ⟨rfl, rfl⟩ := pure_ok.mp h
      refine ⟨.done false, v, htry ?_, rfl, rfl⟩
      exact bind_ok.mpr ⟨v, v, get_ok.mpr ⟨rfl, rfl⟩, by rw [if_pos hno]; rfl⟩
    · rw [if_neg hno] at h
      obtain ⟨rsp, w, ha, h⟩ := bind_ok.mp h
      have hat : cmdTry A req n s = .ok (if rsp then .done true else .vain false, w) := by
        refine htry (bind_ok.mpr ⟨v, v, get_ok.mpr ⟨rfl, rfl⟩, ?_⟩)
        rw [if_neg hno]
        exact bind_ok.mpr ⟨rsp, w, ha, rfl⟩
      refine ⟨_, w, hat, ?_⟩
      cases rsp with
      | true =>
        obtain ⟨rfl, rfl⟩ := pure_ok.mp h
        exact ⟨rfl, rfl⟩
      | false =>
        have hv : v.intf.ssnParams.retry = retry := by
          have hu := (quietly_rel (quietly_buildCmd.rel hb : (quietly isCommand).rel s u)).2.1
          obtain ⟨rfl, -⟩ := sendPacket_ok.mp hs
          rw [← hretry, ← hu]
        simp only [Bool.false_eq_true, if_false, hv] at h ⊢
        by_cases hlast : retry ≤ n + 1
        · rw [if_pos hlast] at h
          obtain ⟨rfl, rfl⟩ := pure_ok.mp h
          rw [After, if_pos (by omega)]
          exact ⟨rfl, rfl⟩
        · rw [if_neg hlast] at h
          rw [After, if_neg (by omega)]
          exact ⟨⟨by rw [(cmdTry_counts hat).2.1, hretry], rfl⟩, h⟩

/-- Nothing has been received by a loop that does not wait. -/
def Waiting (retry : ℤ) (p : SolPacket) (r : Bool) (s : St) : Prop :=
  s.intf.ssnParams.retry = retry ∧ (s.intf.noanswer = true ∨ p.packetSequenceNumber = 0 → r = false)

theorem Waiting.next {retry : ℤ} {r : Bool} {o : Outcome Bool}
    (hpacket : packet[14]? = some p.packetSequenceNumber) (hat : solTry p packet s = .ok (o, t))
    (hw : Waiting retry p r s) : Waiting retry p r t := by
  obtain ⟨-, h1, h2⟩ := solTry_counts hpacket hat
  exact ⟨by rw [h1, hw.1], by rw [h2]; exact hw.2⟩

/-- **The loop of `sendSolPayload` retries.** -/
theorem solLoop_retries (retry : ℤ) (hpacket : packet[14]? = some p.packetSequenceNumber) :
    Retries (Waiting retry p) retry.toNat (fun _ => solTry p packet) (solLoop p packet) := by
  refine ⟨fun h => (pure_ok.mp h).2.symm, ?_⟩
  intro fuel n r r' s s' hw h
  obtain ⟨sent, v, hs, h⟩ := bind_ok.mp h
  have hv : v.intf = s.intf := by
    obtain ⟨rfl, -⟩ := sendPacket_ok.mp hs
    rfl
  cases sent with
  | false =>
    have hat : solTry p packet s = .ok (.failed, v) := bind_ok.mpr ⟨false, v, hs, rfl⟩
    exact ⟨.failed, v, hat, hw.next hpacket hat, h⟩
  | true =>
    obtain ⟨_, _, hg, h⟩ := bind_ok.mp h
    obtain ⟨rfl, rfl⟩ := get_ok.mp hg
    by_cases hask : v.intf.noanswer = true ∨ p.packetSequenceNumber = 0
    · rw [if_pos hask] at h
      obtain ⟨rfl, rfl⟩ := pure_ok.mp h
      have hat : solTry p packet s = .ok (.done false, v) := by
        refine bind_ok.mpr ⟨true, v, hs, bind_ok.mpr ⟨v, v, get_ok.mpr ⟨rfl, rfl⟩, ?_⟩⟩
        rw [if_pos hask]
        rfl
      rw [hv] at hask
      exact ⟨_, v, hat, (hw.2 hask).symm, rfl⟩
    · rw [if_neg hask] at h
      obtain ⟨rsp, w, hr, h⟩ := bind_ok.mp h
      obtain ⟨_, _, hg, h⟩ := bind_ok.mp h
      obtain ⟨rfl, rfl⟩ := get_ok.mp hg
      have htry : ∀ {o t}, (if rsp ∧ solResponseAcksPacket w.recvRsp p then return .done true
          else do
            if rsp ∧ isSolPacket w.recvRsp ∧ w.recvRsp.dataLen ≠ 0 then solInputHandler
            return .vain rsp : M (Outcome Bool)) w = .ok (o, t) →
          solTry p packet s = .ok (o, t) := by
        intro o t ho
        refine bind_ok.mpr ⟨true, v, hs, bind_ok.mpr ⟨v, v, get_ok.mpr ⟨rfl, rfl⟩, ?_⟩⟩
        rw [if_neg hask]
        exact bind_ok.mpr ⟨rsp, w, hr, bind_ok.mpr ⟨w, w, get_ok.mpr ⟨rfl, rfl⟩, ho⟩⟩
      -- a response in vain: the rest of the round, after the input handler
      have hvain : ∀ {x : St}, x.intf = w.intf → solTry p packet s = .ok (.vain rsp, x) →
          (if w.intf.ssnParams.retry ≤ n + 1 then return rsp
            else solLoop p packet fuel (n + 1) rsp : M Bool) x = .ok (r', s') →
          After (Waiting retry p) retry.toNat (solLoop p packet) fuel n r x r' s' (.vain rsp) := by
        intro x hx hat h
        have hwx := hw.next hpacket hat
        have hretry : w.intf.ssnParams.retry = retry := by rw [← hx]; exact hwx.1
        rw [hretry] at h
        by_cases hlast : retry ≤ n + 1
        · rw [if_pos hlast] at h
          obtain ⟨rfl, rfl⟩ := pure_ok.mp h
          rw [After, if_pos (by omega)]
          exact ⟨rfl, rfl⟩
        · rw [if_neg hlast] at h
          rw [After, if_neg (by omega)]
          refine ⟨⟨hwx.1, fun h0 => absurd ?_ hask⟩, h⟩
          rw [hv, ← (solTry_counts hpacket hat).2.2]
          exact h0
      by_cases hack : rsp = true ∧ solResponseAcksPacket w.recvRsp p = true
      · rw [if_pos hack] at h
        obtain ⟨rfl, rfl⟩ := pure_ok.mp h
        refine ⟨.done true, w, htry ?_, hack.1.symm, rfl⟩
        rw [if_pos hack]
        rfl
      · rw [if_neg hack] at h
        by_cases hdata : rsp = true ∧ isSolPacket w.recvRsp = true ∧ w.recvRsp.dataLen ≠ 0
        · rw [if_pos hdata] at h
          obtain ⟨_, x, hh, h⟩ := bind_ok.mp h
          have hat : solTry p packet s = .ok (.vain rsp, x) := by
            refine htry ?_
            rw [if_neg hack, if_pos hdata]
            exact bind_ok.mpr ⟨⟨⟩, x, hh, rfl⟩
          refine ⟨_, x, hat, hvain ?_ hat h⟩
          simp only [solInputHandler, bind_ok, theSession_ok] at hh
          obtain ⟨ss, _, ⟨-, rfl⟩, hh⟩ := hh
          split_ifs at hh
          · exact (throw_ok.mp (bind_ok.mp hh).choose_spec.choose_spec.1).elim
          · rw [← modify_ok.mp hh]
        · rw [if_neg hdata] at h
          have hat : solTry p packet s = .ok (.vain rsp, w) := by
            refine htry ?_
            rw [if_neg hack, if_neg hdata]
            rfl
          exact ⟨_, w, hat, hvain rfl hat h⟩

/-- What `sendSolPayload` received last: a result in vain is not the acknowledgement. -/
theorem solTry_result {o : Outcome Bool} {r : Bool} (h : solTry p packet s = .ok (o, t)) :
    (o = .vain true → solResponseAcksPacket t.recvRsp p = false) ∧
      (o = .done r → r = true → solResponseAcksPacket t.recvRsp p = true) := by
  obtain ⟨sent, v, -, h⟩ := bind_ok.mp h
  cases sent with
  | false =>
    obtain ⟨rfl, -⟩ := pure_ok.mp h
    simp
  | true =>
    obtain ⟨_, _, hg, h⟩ := bind_ok.mp h
    obtain ⟨rfl, rfl⟩ := get_ok.mp hg
    by_cases hask : v.intf.noanswer = true ∨ p.packetSequenceNumber = 0
    · rw [if_pos hask] at h
      obtain ⟨rfl, -⟩ := pure_ok.mp h
      refine ⟨by simp, fun hr h1 => ?_⟩
      cases hr
      cases h1
    · rw [if_neg hask] at h
      obtain ⟨rsp, w, -, h⟩ := bind_ok.mp h
      obtain ⟨_, _, hg, h⟩ := bind_ok.mp h
      obtain ⟨rfl, rfl⟩ := get_ok.mp hg
      by_cases hack : rsp = true ∧ solResponseAcksPacket w.recvRsp p = true
      · rw [if_pos hack] at h
        obtain ⟨rfl, rfl⟩ := pure_ok.mp h
        exact ⟨by simp, fun _ _ => hack.2⟩
      · rw [if_neg hack] at h
        have hrsp : o = .vain rsp ∧ t.recvRsp = w.recvRsp := by
          split_ifs at h
          · obtain ⟨_, x, hh, h⟩ := bind_ok.mp h
            obtain ⟨rfl, rfl⟩ := pure_ok.mp h
            simp only [solInputHandler, bind_ok, theSession_ok] at hh
            obtain ⟨ss, _, ⟨-, rfl⟩, hh⟩ := hh
            split_ifs at hh
            · exact (throw_ok.mp (bind_ok.mp hh).choose_spec.choose_spec.1).elim
            · exact ⟨rfl, by rw [← modify_ok.mp hh]⟩
          · obtain ⟨rfl, rfl⟩ := pure_ok.mp h
            exact ⟨rfl, rfl⟩
        obtain ⟨rfl, hsame⟩ := hrsp
        refine ⟨fun hv => ?_, fun hd => by cases hd⟩
        have hgot : rsp = true := by injection hv
        rw [hsame]
        exact Bool.eq_false_iff.mpr fun h1 => hack ⟨hgot, h1⟩

/-! ### The bound -/

/-- The outcomes of the first `retry` tries of `sendCmd`. -/
def cmdOutcomes (A : Auth) (req : Request) (s : St) : List (Outcome Bool) :=
  outcomes (cmdTry A req) s.intf.ssnParams.retry.toNat 0 s

/-- The outcomes of the first `retry` tries of `sendSolPayload`, with the packet it has built. -/
def solOutcomes (p : SolPacket) (packet : List UInt8) (s : St) : List (Outcome Bool) :=
  outcomes (fun _ => solTry p packet) s.intf.ssnParams.retry.toNat 0 s

/-- The outcome of the last of the first `retry` tries, if they come so far. -/
def lastOutcome (s : St) (os : List (Outcome Bool)) : Option (Outcome Bool) :=
  os[s.intf.ssnParams.retry.toNat - 1]?

theorem cmdTry_ne_vain {n : ℕ} : cmdTry A req n s ≠ .ok (.vain true, t) := by
  intro h
  obtain ⟨⟨addr, packet⟩, u, -, h⟩ := bind_ok.mp h
  obtain ⟨sent, v, -, h⟩ := bind_ok.mp h
  cases sent with
  | false =>
    obtain ⟨e, w, -, h⟩ := bind_ok.mp h
    obtain ⟨_, x, -, h⟩ := bind_ok.mp h
    cases (pure_ok.mp h).1
  | true =>
    obtain ⟨_, _, -, h⟩ := bind_ok.mp h
    split_ifs at h
    · cases (pure_ok.mp h).1
    · obtain ⟨rsp, w, -, h⟩ := bind_ok.mp h
      have hv := (pure_ok.mp h).1
      cases rsp with
      | true => simp at hv
      | false => simp at hv

/-- **The loop of `sendCmd`**, however much longer than `retry` it may run. -/
theorem sendLoop_bounded_iff {fuel : ℕ} {b : Bool} (hfuel : s.intf.ssnParams.retry.toNat < fuel)
    (h : sendLoop A req fuel 0 s = .ok (b, t)) :
    ((transmitted isCommand t : ℤ) ≤ transmitted isCommand s + s.intf.ssnParams.retry ∧
        (b = true → .done true ∈ cmdOutcomes A req s)) ↔
      0 < s.intf.ssnParams.retry ∧ lastOutcome s (cmdOutcomes A req s) ≠ some .failed := by
  have hR := sendLoop_retries A req s.intf.ssnParams.retry
  have hcount : ∀ n s o t, cmdTry A req n s = .ok (o, t) →
      transmitted isCommand t = transmitted isCommand s + 1 :=
        fun _ _ _ _ hat => (cmdTry_counts hat).1
  have hmore := (hR.one_more hcount (r := false) ⟨rfl, rfl⟩ h).2 (by omega)
  by_cases hpos : 0 < s.intf.ssnParams.retry
  · obtain ⟨k, hk⟩ : ∃ k, s.intf.ssnParams.retry.toNat = k + 1 :=
      ⟨s.intf.ssnParams.retry.toNat - 1, by omega⟩
    simp only [lastOutcome, cmdOutcomes, hk, Nat.add_sub_cancel, hpos, true_and]
    rw [hk] at hR
    have hiff := hR.count_le_iff hcount (r := false) (by omega) ⟨rfl, rfl⟩ h
    refine ⟨fun hb => hiff.mp (by omega), fun hlast => ⟨by have := hiff.mpr hlast; omega, ?_⟩⟩
    rintro rfl
    obtain ⟨os, o, m, u, hos, -, hat, hend⟩ :=
      hR.within hcount (r := false) (by omega) (by omega) ⟨rfl, rfl⟩ hlast h
    rcases hend with ⟨rfl, -⟩ | rfl
    · exact absurd hat cmdTry_ne_vain
    · rw [hos]
      exact List.mem_append_right _ (List.mem_singleton.mpr rfl)
  · exact ⟨fun hb => by omega, fun hb => absurd hb.1 hpos⟩

/-- **The loop of `sendSolPayload`**, however much longer than `retry` it may run. -/
theorem solLoop_bounded_iff {fuel : ℕ} {b : Bool} (hfuel : s.intf.ssnParams.retry.toNat < fuel)
    (hpacket : packet[14]? = some p.packetSequenceNumber)
    (h : solLoop p packet fuel 0 false s = .ok (b, t)) :
    ((transmitted (· = packet) t : ℤ) ≤ transmitted (· = packet) s + s.intf.ssnParams.retry ∧
        (b = true → solResponseAcksPacket t.recvRsp p = true)) ↔
      0 < s.intf.ssnParams.retry ∧ lastOutcome s (solOutcomes p packet s) ≠ some .failed ∧
        lastOutcome s (solOutcomes p packet s) ≠ some (.vain true) := by
  have hR := solLoop_retries s.intf.ssnParams.retry hpacket
  have hcount : ∀ (_ : ℕ) s o t, solTry p packet s = .ok (o, t) →
      transmitted (· = packet) t = transmitted (· = packet) s + 1 :=
    fun _ _ _ _ hat => (solTry_counts hpacket hat).1
  have hinv : Waiting s.intf.ssnParams.retry p false s := ⟨rfl, fun _ => rfl⟩
  have hmore := (hR.one_more hcount hinv h).2 (by omega)
  by_cases hpos : 0 < s.intf.ssnParams.retry
  · obtain ⟨k, hk⟩ : ∃ k, s.intf.ssnParams.retry.toNat = k + 1 :=
      ⟨s.intf.ssnParams.retry.toNat - 1, by omega⟩
    simp only [lastOutcome, solOutcomes, hk, Nat.add_sub_cancel, hpos, true_and]
    rw [hk] at hR
    have hiff := hR.count_le_iff hcount (by omega) hinv h
    -- the last outcome, if the limit is kept
    have hlast : (outcomes (fun _ => solTry p packet) (k + 1) 0 s)[k]? ≠ some .failed →
        ((b = true → solResponseAcksPacket t.recvRsp p = true) ↔
          (outcomes (fun _ => solTry p packet) (k + 1) 0 s)[k]? ≠ some (.vain true)) := by
      intro hne
      obtain ⟨os, o, m, u, hos, -, hat, hend⟩ := hR.within hcount (by omega) (by omega) hinv hne h
      obtain ⟨hvain, hdone⟩ := solTry_result (r := b) hat
      rw [hos]
      rcases hend with ⟨rfl, rfl⟩ | rfl
      · rw [List.getElem?_concat_length]
        constructor
        · intro hb heq
          have hbt : b = true := by simpa using heq
          rw [hvain (by rw [hbt])] at hb
          exact absurd (hb hbt) (by simp)
        · intro hne' hb
          exact absurd (by rw [hb]) hne'
      · refine ⟨fun _ heq => ?_, fun _ => hdone rfl⟩
        have hlen : (outcomes (fun _ => solTry p packet) (k + 1) 0 s).length ≤ k + 1 :=
          length_outcomes_le (k + 1) 0 s
        rw [hos, List.length_append, List.length_singleton] at hlen
        have hk' : k = os.length := by
          have := (List.getElem?_eq_some_iff.mp heq).1
          rw [List.length_append, List.length_singleton] at this
          omega
        rw [hk', List.getElem?_concat_length] at heq
        cases heq
    constructor
    · rintro ⟨hle, hres⟩
      have hne := hiff.mp (by omega)
      exact ⟨hne, (hlast hne).mp hres⟩
    · rintro ⟨hne, hvain⟩
      have hle := hiff.mpr hne
      exact ⟨by omega, (hlast hne).mpr hvain⟩
  · exact ⟨fun hb => by omega, fun hb => absurd hb.1 hpos⟩

/-- **The number of transmissions.** `sendCmd` transmits the command at most `retry` times and hands
a response back only if one of these tries was answered, exactly if there is a try and the send of
the last one does not fail. `sendSolPayload` transmits its packet at most `retry` times and hands a
response back only if it is the acknowledgement, exactly if moreover the last try does not receive
anything else. -/
theorem transmissions_bounded_iff (A : Auth) (req : Request) (p : SolPacket) (s : St) :
    (∀ b t, exchange A req s = .ok (b, t) →
      (((transmitted isCommand t : ℤ) ≤ transmitted isCommand s + s.intf.ssnParams.retry ∧
          (b = true → .done true ∈ cmdOutcomes A req s)) ↔
        0 < s.intf.ssnParams.retry ∧ lastOutcome s (cmdOutcomes A req s) ≠ some .failed)) ∧
    (∀ packet u b t, buildSolMsg p s = .ok (packet, u) → sendSolPayload p s = .ok (b, t) →
      (((transmitted (· = packet) t : ℤ) ≤ transmitted (· = packet) s + s.intf.ssnParams.retry ∧
          (b = true → solResponseAcksPacket t.recvRsp p = true)) ↔
        0 < s.intf.ssnParams.retry ∧ lastOutcome s (solOutcomes p packet u) ≠ some .failed ∧
          lastOutcome s (solOutcomes p packet u) ≠ some (.vain true))) := by
  constructor
  · intro b t h
    obtain ⟨_, _, hg, h⟩ := bind_ok.mp h
    obtain ⟨rfl, rfl⟩ := get_ok.mp hg
    obtain ⟨rsp, u, hl, h⟩ := bind_ok.mp h
    obtain ⟨_, v, hc, h⟩ := bind_ok.mp h
    obtain ⟨rfl, rfl⟩ := pure_ok.mp h
    rw [← modify_ok.mp hc]
    have hfuel : s.intf.ssnParams.retry.toNat <
        s.net.sendFails.length + s.intf.ssnParams.retry.toNat + 1 := by omega
    have hbound := sendLoop_bounded_iff hfuel hl
    exact hbound
  · intro packet u b t hb h
    obtain ⟨_, _, hg, h⟩ := bind_ok.mp h
    obtain ⟨rfl, rfl⟩ := get_ok.mp hg
    obtain ⟨packet', u', hb', h⟩ := bind_ok.mp h
    obtain ⟨rfl, rfl⟩ : packet = packet' ∧ u = u' := by
      rw [hb, Except.ok.injEq, Prod.mk.injEq] at hb'
      exact hb'
    obtain ⟨ss, -, rfl, rfl⟩ := buildSolMsg_ok hb
    exact solLoop_bounded_iff (show _ < _ by dsimp only; omega) (solPacket_seq ss p) h

/-- An open interface with an active session that allows two tries, and the outcomes of its
sends. -/
def sending (sendFails : List Bool) (inbox : List (Option (List UInt8))) : St where
  intf := { fd := 3, ssnParams := { retry := 2 }, session := some { active := true, sessionId := 1 } }
  net := { sendFails, inbox }

/-- A packet with one character for the serial console. -/
def keystroke : SolPacket := { data := [0x61], packetSequenceNumber := 1 }

/-- No authcodes. -/
def noAuth : Auth := ⟨fun _ _ => [], fun _ _ => [], fun _ => []⟩

/-- The first send fails and nothing is received: at most two transmissions, and no response. -/
theorem transmissions_bounded_iff_silent :
    (∃ t, exchange noAuth Ipmitool.Lanplus.Send.getDeviceId (sending [true] []) = .ok (false, t) ∧
      (transmitted isCommand t : ℤ) ≤ transmitted isCommand (sending [true] []) + 2) ∧
    ∃ packet t, sendSolPayload keystroke (sending [true] []) = .ok (false, t) ∧
      (transmitted (· = packet) t : ℤ) ≤ transmitted (· = packet) (sending [true] []) + 2 := by
  have h1 : returns (exchange noAuth Ipmitool.Lanplus.Send.getDeviceId) (sending [true] [])
      (fun b _ => !b) = true := by decide +kernel
  have h2 : returns (buildSolMsg keystroke) (sending [true] []) (fun packet u =>
      lastOutcome (sending [true] []) (solOutcomes keystroke packet u) == some (.vain false)) = true := by
    decide +kernel
  have h3 : returns (sendSolPayload keystroke) (sending [true] []) (fun b _ => !b) = true := by
    decide +kernel
  constructor
  · obtain ⟨b, t, hrun, hb⟩ := exists_of_returns h1
    obtain rfl : b = false := by simpa using hb
    have hiff := (transmissions_bounded_iff noAuth Ipmitool.Lanplus.Send.getDeviceId keystroke
      (sending [true] [])).1 false t hrun
    exact ⟨t, hrun, (hiff.mpr ⟨by decide, by decide +kernel⟩).1⟩
  · obtain ⟨packet, u, hbuild, hlast⟩ := exists_of_returns h2
    obtain ⟨b, t, hrun, hb⟩ := exists_of_returns h3
    obtain rfl : b = false := by simpa using hb
    have hiff := (transmissions_bounded_iff noAuth Ipmitool.Lanplus.Send.getDeviceId keystroke
      (sending [true] [])).2 packet u false t hbuild hrun
    rw [beq_iff_eq] at hlast
    exact ⟨packet, t, hrun, (hiff.mpr ⟨by decide, by rw [hlast]; decide, by rw [hlast]; decide⟩).1⟩

/-- **Failed sends are not counted.** Three sends in a row fail: the command and the packet are
transmitted four times where two are allowed. -/
theorem failed_sends_uncounted :
    ∃ t, exchange noAuth Ipmitool.Lanplus.Send.getDeviceId (sending [true, true, true] []) =
      .ok (false, t) ∧ transmitted isCommand t = 4 := by
  have h : returns (exchange noAuth Ipmitool.Lanplus.Send.getDeviceId) (sending [true, true, true] [])
      (fun b t => !b && transmitted isCommand t == 4) = true := by decide +kernel
  obtain ⟨b, t, hrun, htest⟩ := exists_of_returns h
  simp only [Bool.and_eq_true, Bool.not_eq_true', beq_iff_eq] at htest
  obtain ⟨rfl, hcount⟩ := htest
  exact ⟨t, hrun, hcount⟩

end Ipmitool.Lan.Retries
