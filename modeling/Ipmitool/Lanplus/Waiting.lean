import Ipmitool.Lanplus.Correlation
import Ipmitool.Lanplus.Packet

/-! # The wait for an answer, turn by turn

`sendPayload` creates the entry of a request, `pollSingle` looks it up and removes it, and the loop
around them removes it through its own pointer when a wait ends with nothing. `Turn` is one turn of
that loop: a transmission, a poll that is skipped, a duplicate, a poll that ends the wait, or the
removal of the entry.

A turn is `Orderly` if the datagram it meets lets it do what the loop relies on: in a wait that goes
on it does not take the entry off the list (`Takes`), and a wait ends with nothing only because
nothing comes after the timeout. In a run of orderly turns the entry stays on the list for as long
as the loop holds a pointer to it (`turns_listed`). `turns_result` says that the turns are what
`sendPayload` does, and `sendIpmiCmd_useAfterFree` that its only way to follow a dangling pointer is
such a removal. -/

namespace Ipmitool.Lanplus.Waiting

open Ipmitool.Lib.Mem Ipmitool.Lib.Machine Ipmitool.Core.Types Ipmitool.Core.Network
open Ipmitool.Crypto.Mac Ipmitool.Crypto.LanplusCrypt Ipmitool.Crypto.Padding
open Ipmitool.Lanplus.State Ipmitool.Lanplus.Receive Ipmitool.Lanplus.Build Ipmitool.Lanplus.Send
open Ipmitool.Lanplus.Poll Ipmitool.Lanplus.Rounds Ipmitool.Lanplus.Steps
open Ipmitool.Lanplus.Correlation

variable {K : Primitives} {s s' t : St} {req : Request}

/-! ### Only the removal follows a pointer -/

theorem safe_theSession : Never .useAfterFree theSession := by
  refine .bind .get fun s => ?_
  cases s.intf.session with
  | none => exact .throw (by decide)
  | some ss => exact .pure _

theorem safe_modifySession (f : Session → Session) : Never .useAfterFree (modifySession f) :=
  .bind safe_theSession fun _ => .modify _

theorem safe_record (es : List Event) : Never .useAfterFree (record es) := .modify _

theorem safe_time : Never .useAfterFree time := .bind .get fun _ => .bind (.set _) fun _ => .pure _

theorem safe_rand : Never .useAfterFree rand := .bind .get fun _ => .bind (.set _) fun _ => .pure _

theorem safe_sendPacket (packet : List UInt8) : Never .useAfterFree (sendPacket packet) :=
  .bind .get fun _ => .bind (.set _) fun _ => .pure _

theorem safe_recvPacket : Never .useAfterFree recvPacket := by
  refine .bind .get fun s => .ite (fun _ => .pure _) fun _ => .bind (.set _) fun _ => ?_
  cases s.net.recv.1 with
  | none => exact .pure _
  | some d =>
    refine .ite (fun _ => .pure _) fun _ => .ite (fun _ => ?_) fun _ => ?_
    · exact .bind (.throw (by decide)) fun _ => .bind (.modify _) fun _ => .pure _
    · exact .bind (.modify _) fun _ => .pure _

theorem safe_keyedHash (alg : UInt8) (key data : List UInt8) :
    keyedHash K alg key data ≠ .error .useAfterFree := by
  unfold keyedHash
  split <;> simp

theorem safe_hasValidAuthCode (r : Response) (ss : Session) :
    hasValidAuthCode K r ss ≠ .error .useAfterFree := by
  unfold hasValidAuthCode
  split_ifs
  · simp
  · cases integrityAuthcodeLength ss.v2.integrityAlg with
    | none => simp
    | some n =>
      dsimp only
      split_ifs
      · simp
      · exact except_bind_ne (safe_keyedHash _ _ _) fun _ => by simp [pure, Except.pure]

theorem safe_decryptPayload (alg : UInt8) (key input : List UInt8) :
    decryptPayload K alg key input ≠ .error .useAfterFree := by
  unfold decryptPayload
  dsimp only
  split_ifs
  · simp
  · simp
  · simp
  · simp
  · split <;> simp

theorem safe_openPacket (ss : Session) (r : Response) :
    openPacket K ss r ≠ .error .useAfterFree := by
  have hpayload : ∀ r1 o, openPayload K ss r1 o ≠ .error .useAfterFree := by
    intro r1 o
    unfold openPayload
    split_ifs
    · simp
    · exact except_bind_ne (safe_decryptPayload _ _ _) fun _ => by simp [pure, Except.pure]
    · simp
  unfold openPacket
  dsimp only
  split_ifs
  · simp
  · simp
  · simp
  · refine except_bind_ne (safe_hasValidAuthCode _ _) fun valid => ?_
    cases valid with
    | false => simp [pure, Except.pure]
    | true => exact except_bind_ne (hpayload _ _) fun _ => by simp [pure, Except.pure]

theorem safe_shiftData (r : Response) (o : ℕ) (extra : ℤ) :
    shiftData r o extra ≠ .error .useAfterFree := by
  unfold shiftData
  split_ifs <;> simp

theorem safe_ipmiLoop : ∀ (fuel : ℕ) (r : Response) (l : List Entry) (o b : ℕ) (size : UInt16),
    ipmiLoop fuel r l o b size ≠ .error .useAfterFree
  | 0, _, _, _, _, _ => by simp [ipmiLoop]
  | fuel + 1, r, l, o, b, size => by
    rw [ipmiLoop]
    cases reqLookupEntry l (readIpmiResponse r o).rqSeq (readIpmiResponse r o).cmd with
    | none => simp
    | some e =>
      dsimp only
      by_cases hstop : (e.bridgingLevel ≠ 0 ∧ (readIpmiResponse r o).ccode = 0) ∧ ¬ 8 < size
      · rw [if_pos hstop]
        simp
      · rw [if_neg hstop]
        refine except_bind_ne (safe_shiftData _ _ _) fun r2 => ?_
        by_cases hpeel : ¬ (e.bridgingLevel ≠ 0 ∧ (readIpmiResponse r o).ccode = 0)
        · rw [if_pos hpeel]
          simp [pure, Except.pure]
        · rw [if_neg hpeel]
          exact except_bind_ne (safe_ipmiLoop _ _ _ _ _ _) fun _ => by simp [pure, Except.pure]

theorem safe_handlePacket (ss : Session) (l : List Entry) (r : Response) :
    handlePacket K ss l r ≠ .error .useAfterFree := by
  have hrakp2 : ∀ r1 o alg, readRakp2Message r1 o alg ≠ .error .useAfterFree := by
    intro r1 o alg
    unfold readRakp2Message
    dsimp only
    split_ifs <;> simp
  have hrakp4 : ∀ r1 o alg, readRakp4Message r1 o alg ≠ .error .useAfterFree := by
    intro r1 o alg
    unfold readRakp4Message
    dsimp only
    split_ifs <;> simp
  refine except_bind_ne (safe_openPacket ss r) fun o => ?_
  cases o with
  | pong b => simp [pure, Except.pure]
  | foreign r1 => simp [pure, Except.pure]
  | badAuthcode r1 => simp [pure, Except.pure]
  | payload r1 offset size =>
    dsimp only
    unfold handlePayload
    dsimp only
    split_ifs
    · exact safe_ipmiLoop _ _ _ _ _ _
    · simp
    · simp
    · simp
    · exact except_bind_ne (hrakp2 _ _ _) fun _ => by simp [pure, Except.pure]
    · simp
    · exact except_bind_ne (hrakp4 _ _ _) fun _ => by simp [pure, Except.pure]
    · simp
    · exact except_bind_ne (safe_shiftData _ _ _) fun _ => by simp [pure, Except.pure]
    · simp

theorem safe_pollSingle : Never .useAfterFree (pollSingle K) := by
  refine .bind safe_theSession fun ss => .bind safe_recvPacket fun got =>
    .ite (fun _ => ?_) fun _ => ?_
  · refine .bind .get fun s => .bind (.lift (safe_handlePacket _ _ _)) fun _ => ?_
    exact .bind (.set _) fun _ => .pure _
  · exact .bind (safe_record _) fun _ => .pure _

theorem safe_pollPastDuplicates : ∀ fuel, Never .useAfterFree (pollPastDuplicates K fuel)
  | 0 => .pure _
  | fuel + 1 => by
    have hloop : ∀ n, Never .useAfterFree (pollLoop K n) := by
      intro n
      induction n with
      | zero => exact .pure _
      | succ n ih =>
        refine .bind safe_pollSingle fun res => ?_
        cases res with
        | none | got => exact .pure _
        | again => exact ih
    refine .bind (.bind .get fun s => hloop _) fun got => .bind .get fun s => ?_
    exact .ite (fun _ => safe_pollPastDuplicates fuel) fun _ => .pure _

theorem safe_packetOf (intf : Intf) (ss : Session) (type : UInt8) (written : List UInt8)
    (length : UInt16) (iv : List UInt8) :
    packetOf K intf ss type written length iv ≠ .error .useAfterFree := by
  have hencrypt : ∀ alg key input, encryptPayload K alg key input iv ≠ .error .useAfterFree := by
    intro alg key input
    unfold encryptPayload
    split_ifs <;> simp
  have htrailer : ∀ covered, sessionTrailer K intf ss covered ≠ .error .useAfterFree := by
    intro covered
    refine except_bind_ne (safe_keyedHash _ _ _) fun mac => ?_
    cases integrityAuthcodeLength ss.v2.integrityAlg with
    | none => simp [throw, throwThe, MonadExceptOf.throw]
    | some n => simp [pure, Except.pure]
  unfold packetOf
  split_ifs
  · refine except_bind_ne (hencrypt _ _ _) fun ⟨out, len⟩ => ?_
    exact except_bind_ne (by simp [pure, Except.pure]) fun _ => by simp [pure, Except.pure]
  · refine except_bind_ne (hencrypt _ _ _) fun ⟨out, len⟩ => ?_
    exact except_bind_ne (htrailer _) fun _ => by simp [pure, Except.pure]
  · simp

theorem safe_buildV2xMsg (payload : V2Payload) (seq : UInt8) :
    Never .useAfterFree (buildV2xMsg K payload seq) := by
  have hlength : ∀ intf bridge, wireLength intf bridge payload ≠ .error .useAfterFree := by
    intro intf bridge
    cases payload with
    | ipmi req =>
      simp only [wireLength]
      split_ifs <;> simp
    | openRequest msg | rakp1 msg | rakp3 msg | sol p => simp [wireLength]
  have hdraw : ∀ ss, Never .useAfterFree (drawIv ss) := fun ss =>
    .ite (fun _ => .bind safe_rand fun _ => .pure _) fun _ => .pure _
  refine .bind safe_theSession fun ss => .bind .get fun s =>
    .bind (.lift (hlength _ _)) fun len => ?_
  refine .bind (hdraw ss) fun iv => .bind (.lift (safe_packetOf _ _ _ _ _ _)) fun packet => ?_
  exact .bind (safe_modifySession _) fun _ => .bind (safe_record _) fun _ => .pure _

theorem safe_transmit (l : Locals) : Never .useAfterFree (transmit K (.ipmi req) l) := by
  have hadd : ∀ req seq level, Never .useAfterFree (reqAddEntry req seq level) := fun _ _ _ =>
    .bind .get fun _ => .bind (.set _) fun _ => .pure _
  have hold : Never .useAfterFree (buildV15IpmiCmd req) := by
    refine .bind safe_theSession fun ss => .bind (hadd _ _ _) fun addr =>
      .ite (fun _ => ?_) fun _ => ?_
    · exact .bind (.throw (by decide)) fun _ => .bind (safe_record _) fun _ => .pure _
    · exact .bind (safe_record _) fun _ => .pure _
  have hnew : Never .useAfterFree (buildV2xIpmiCmd K req l.isRetry) :=
    .bind (.modify _) fun _ => .bind .get fun s => .bind (hadd _ _ _) fun _ =>
      .bind (safe_buildV2xMsg _ _) fun _ => .pure _
  have hbuild : Never .useAfterFree (buildPayload K (.ipmi req) l.isRetry) := by
    refine .bind safe_theSession fun ss => .ite (fun _ => ?_) fun _ => ?_
    · exact .bind hold fun _ => .pure _
    · exact .bind hnew fun _ => .pure _
  refine .ite (fun _ => ?_) fun _ => .pure _
  exact .bind safe_time fun _ => .bind hbuild fun _ => .bind (safe_sendPacket _) fun _ => .pure _

theorem safe_timedOut (ltime : ℤ) : Never .useAfterFree (timedOut ltime) := by
  refine .bind safe_time fun now => .bind safe_theSession fun ss =>
    .ite (fun _ => ?_) fun _ => .pure _
  refine .ite (fun _ => .bind (.throw (by decide)) fun _ => ?_) fun _ => ?_
  · exact .bind (safe_modifySession _) fun _ => .pure _
  · exact .bind (safe_modifySession _) fun _ => .pure _

/-! ### Turns -/

/-- Where the loop stands: before a round, in the wait, or behind a wait that ended with nothing. -/
inductive Phase where
  | sending
  | polling
  | missed
  deriving DecidableEq

/-- The loop of `sendPayload` for a request: the tries after the running one, its locals and the
state of the transport. -/
structure Conf where
  phase : Phase
  tries : ℕ
  locals : Locals
  state : St

/-- The locals of the next round. -/
def nextLocals (l : Locals) (xmit : Bool) : Locals := { l with isRetry := true, xmit, rsp := false }

/-- One turn of the loop. -/
inductive Turn (K : Primitives) (req : Request) : Conf → Conf → Prop
  | send {n : ℕ} {l l' : Locals} {s t : St} (ht : transmit K (.ipmi req) l s = .ok (some l', t))
      (hno : t.intf.noanswer = false) : Turn K req ⟨.sending, n + 1, l, s⟩ ⟨.polling, n, l', t⟩
  | skip {n : ℕ} {l : Locals} {s t : St} (hp : pollSingle K s = .ok (.again, t)) :
      Turn K req ⟨.polling, n, l, s⟩ ⟨.polling, n, l, t⟩
  | duplicate {n : ℕ} {l : Locals} {s t : St} (hp : pollSingle K s = .ok (.got, t))
      (hcc : t.recvRsp.ccode = 0xcf) : Turn K req ⟨.polling, n, l, s⟩ ⟨.polling, n, l, t⟩
  | miss {n : ℕ} {l : Locals} {s t : St} (hp : pollSingle K s = .ok (.none, t)) :
      Turn K req ⟨.polling, n, l, s⟩ ⟨.missed, n, l, t⟩
  | retire {n : ℕ} {l : Locals} {s t u : St} {addr : ℕ} {x : Bool} (he : l.entry = some addr)
      (hr : removeEntry addr s = .ok ((), t)) (hx : timedOut l.ltime t = .ok (x, u)) :
      Turn K req ⟨.missed, n, l, s⟩ ⟨.sending, n, nextLocals l x, u⟩

/-- The loop at its start. -/
def start (s : St) : Conf := ⟨.sending, s.intf.ssnParams.retry.toNat, {}, s⟩

/-- The loop gets to `c`. -/
abbrev Reached (K : Primitives) (req : Request) (s : St) (c : Conf) : Prop :=
  Relation.ReflTransGen (Turn K req) (start s) c

/-- The timeout of the session is over since the last transmission. -/
def Over (l : Locals) (s : St) : Prop :=
  ∃ ss, s.intf.session = some ss ∧ (ss.timeout.toNat : ℤ) ≤ s.net.time.1 - l.ltime

/-- The message embedded in the envelope at `offset`, as the loop over the messages reads it:
shifted to the start of the buffer. -/
def embedded (r : Response) (offset : ℕ) (size : UInt16) : Response :=
  readIpmiResponse { r with data := move r.data 0 (offset + 7) (size.toNat - 8) } 0

/-- The message says that the request of `e` was a duplicate. -/
def Duplicates (e : Entry) (m : Response) : Prop :=
  Entry.hasKey m.rqSeq m.cmd e = true ∧ m.ccode = 0xcf

/-- The message is the answer to an envelope of `e`, and the answer to what the envelope holds is
embedded in it. -/
def Unwraps (e : Entry) (m : Response) (size : UInt16) : Prop :=
  Entry.hasKey m.rqSeq m.cmd e = true ∧ e.bridgingLevel ≠ 0 ∧ m.ccode = 0 ∧ 8 < size

/-- A payload that takes `e` off the list although the wait goes on: a Duplicate Request answer,
plain or embedded, or an envelope with an embedded answer after which `e` still has the key of the
envelope, as it does at bridging level two. -/
def Takes (e : Entry) (r : Response) (offset : ℕ) (size : UInt16) : Prop :=
  Duplicates e (readIpmiResponse r offset) ∨
    Unwraps e (readIpmiResponse r offset) size ∧
      (Entry.hasKey (readIpmiResponse r offset).rqSeq (readIpmiResponse r offset).cmd (peel e) =
        true ∨
        Duplicates (peel e) (embedded r offset size))

instance (e : Entry) (r : Response) (offset : ℕ) (size : UInt16) :
    Decidable (Takes e r offset size) := by
  unfold Takes Duplicates Unwraps
  infer_instance

/-- The next datagram passes the checks, and its payload takes the entry of the list. -/
def Strips (K : Primitives) (s : St) : Prop :=
  ∃ e ss d rest r offset size, s.reqEntries = [e] ∧ s.intf.session = some ss ∧
    s.net.inbox = some d :: rest ∧
    openPacket K ss (Response.receive s.recvRsp d) = .ok (.payload r offset size) ∧
    r.session.payloadtype = ptIpmi ∧ Takes e r offset size

/-- The next receive brings no datagram. -/
def Quiet (s : St) : Prop :=
  ∀ d rest, ValidFd s.intf.fd → s.net.inbox = some d :: rest → d = []

/-- A turn that does what the loop relies on: a wait ends with nothing only because a receive comes
back empty after the timeout, and the datagrams of a wait that goes on do not take the entry off the
list. -/
def Orderly (K : Primitives) (c c' : Conf) : Prop :=
  match c.phase, c'.phase with
  | .polling, .polling => ¬ Strips K c.state
  | .polling, .missed => Quiet c.state ∧ Over c.locals c.state
  | _, _ => True

/-! ### The entry stays on the list -/

/-- The loop holds a pointer to an entry of the request, and the entry is on the list; between the
rounds there is none, and the next round transmits. -/
def Listed (req : Request) (c : Conf) : Prop :=
  if c.phase = .sending then c.state.reqEntries = [] ∧ c.locals.xmit = true
  else (∃ e e', Asks req e ∧ Peels e e' ∧ c.state.reqEntries = [e'] ∧
    c.locals.entry = some e'.addr) ∧
    (c.phase = .missed → Over c.locals c.state)

theorem readIpmiResponse_key (r : Response) (o : ℕ) :
    (readIpmiResponse r o).rqSeq = r.data (o + 4) >>> 2 ∧
      (readIpmiResponse r o).cmd = r.data (o + 5) ∧
      (readIpmiResponse r o).ccode = r.data (o + 6) :=
  ⟨rfl, rfl, rfl⟩

/-- An envelope that takes the key of `e` with it was the last one. -/
theorem peel_level {e : Entry} {seq cmd : UInt8} (h : Entry.hasKey seq cmd e = true)
    (h' : ¬ Entry.hasKey seq cmd (peel e) = true) : (peel e).bridgingLevel = 0 := by
  by_contra hlevel
  have hreq : (peel e).req = e.req := if_neg hlevel
  refine h' ?_
  rw [Entry.hasKey, hreq]
  exact h

/-- The last message of a payload, for an entry whose envelopes are off. -/
theorem ipmiLoop_last {fuel : ℕ} {e : Entry} {r r' : Response} {o b : ℕ} {size : UInt16}
    {res : PollResult} {l : List Entry} {evs : List Event} (hlevel : e.bridgingLevel = 0)
    (hd : ¬ Duplicates e (readIpmiResponse r o))
    (h : ipmiLoop (fuel + 1) r [e] o b size = .ok (res, l, r', evs))
    (hon : res = .again ∨ r'.ccode = 0xcf) : l = [e] := by
  unfold ipmiLoop at h
  dsimp only at h
  rw [lookup_single] at h
  by_cases hkey : Entry.hasKey (readIpmiResponse r o).rqSeq (readIpmiResponse r o).cmd e = true
  · have hplain : ¬ (e.bridgingLevel ≠ 0 ∧ (readIpmiResponse r o).ccode = 0) :=
      fun hc => hc.1 hlevel
    rw [if_pos hkey] at h
    simp only [hplain, if_false, false_and] at h
    obtain ⟨r2, hshift, h⟩ := except_bind_ok.mp h
    simp only [not_false_iff, if_true, pure, Except.pure, Except.ok.injEq, Prod.mk.injEq] at h
    obtain ⟨rfl, -, rfl, -⟩ := h
    rcases hon with hon | hon
    · exact absurd hon (by decide)
    · rw [(shiftData_ok hshift).2.1] at hon
      exact absurd ⟨hkey, hon⟩ hd
  · rw [if_neg hkey] at h
    simp only [Except.ok.injEq, Prod.mk.injEq] at h
    exact h.2.1.symm

/-- **A payload that does not take the entry**: in a wait that goes on the entry stays, perhaps with
an envelope less. -/
theorem ipmiLoop_keeps {fuel : ℕ} {e : Entry} {r r' : Response} {o : ℕ} {size : UInt16}
    {res : PollResult} {l : List Entry} {evs : List Event} (hd : ¬ Takes e r o size)
    (h : ipmiLoop (fuel + 1) r [e] o o size = .ok (res, l, r', evs))
    (hfuel : e.bridgingLevel ≤ fuel) (hon : res = .again ∨ r'.ccode = 0xcf) :
    ∃ e', Peels e e' ∧ l = [e'] := by
  by_cases hkey : Entry.hasKey (readIpmiResponse r o).rqSeq (readIpmiResponse r o).cmd e = true
  · by_cases hpeel : e.bridgingLevel ≠ 0 ∧ (readIpmiResponse r o).ccode = 0
    · unfold ipmiLoop at h
      dsimp only at h
      have hupd : updateEntry [e] (peel e) = [peel e] := by simp [updateEntry, peel]
      rw [lookup_single, if_pos hkey] at h
      simp only [hpeel, hupd, if_true, true_and, and_self, ne_eq, not_false_iff] at h
      by_cases h8 : 8 < size
      · simp only [h8, not_true_eq_false, if_false] at h
        obtain ⟨r2, hshift, h⟩ := except_bind_ok.mp h
        have hunwraps : Unwraps e (readIpmiResponse r o) size := ⟨hkey, hpeel.1, hpeel.2, h8⟩
        have hgone : ¬ Entry.hasKey (readIpmiResponse r o).rqSeq (readIpmiResponse r o).cmd
            (peel e) = true :=
          fun hk => hd (.inr ⟨hunwraps, .inl hk⟩)
        have hsize : 8 < size.toNat := UInt16.lt_iff_toNat_lt.mp h8
        have hextra : (size.toNat : ℤ) - ((o + 7 : ℕ) - (o : ℤ)) - 1 =
            ((size.toNat - 8 : ℕ) : ℤ) := by
          push_cast [Nat.le_of_lt hsize]
          omega
        have hpos : 0 < ((size.toNat - 8 : ℕ) : ℤ) := by omega
        rw [remove_single, if_neg hgone, hextra, if_pos hpos] at h
        obtain ⟨⟨res2, l2, r3, evs2⟩, hloop, h⟩ := except_bind_ok.mp h
        simp only [pure, Except.pure, Except.ok.injEq, Prod.mk.injEq] at h
        obtain ⟨rfl, rfl, rfl, -⟩ := h
        obtain ⟨fuel, rfl⟩ : ∃ n, fuel = n + 1 := ⟨fuel - 1, by omega⟩
        -- the message that is left is the embedded one
        have hdata : r2.data = move r.data 0 (o + 7) (size.toNat - 8) := by
          rw [hextra] at hshift
          unfold shiftData at hshift
          rw [if_pos hpos] at hshift
          split_ifs at hshift
          obtain rfl := Except.ok.inj hshift
          rfl
        have hinner : ¬ Duplicates (peel e) (readIpmiResponse r2 0) := by
          intro hdup
          refine hd (.inr ⟨hunwraps, .inr ?_⟩)
          obtain ⟨hseq, hcmd, hcc⟩ := readIpmiResponse_key r2 0
          obtain ⟨hseq', hcmd', hcc'⟩ := readIpmiResponse_key
            { r with data := move r.data 0 (o + 7) (size.toNat - 8) } 0
          unfold Duplicates at hdup ⊢
          unfold embedded
          rw [hseq, hcmd, hcc, hdata] at hdup
          rw [hseq', hcmd', hcc']
          exact hdup
        exact ⟨peel e, .peel (.refl _), ipmiLoop_last (peel_level hkey hgone) hinner hloop hon⟩
      · simp only [h8, not_false_iff, if_true, Except.ok.injEq, Prod.mk.injEq] at h
        exact ⟨peel e, .peel (.refl _), h.2.1.symm⟩
    · -- the entry is answered
      unfold ipmiLoop at h
      dsimp only at h
      rw [lookup_single, if_pos hkey] at h
      simp only [hpeel, if_false, false_and] at h
      obtain ⟨r2, hshift, h⟩ := except_bind_ok.mp h
      simp only [not_false_iff, if_true, pure, Except.pure, Except.ok.injEq, Prod.mk.injEq] at h
      obtain ⟨rfl, -, rfl, -⟩ := h
      rcases hon with hon | hon
      · exact absurd hon (by decide)
      · rw [(shiftData_ok hshift).2.1] at hon
        exact absurd (.inl ⟨hkey, hon⟩) hd
  · unfold ipmiLoop at h
    dsimp only at h
    rw [lookup_single, if_neg hkey] at h
    simp only [Except.ok.injEq, Prod.mk.injEq] at h
    exact ⟨e, .refl e, h.2.1.symm⟩

/-- **A poll of a wait that goes on** keeps the entry, unless the datagram takes it. -/
theorem pollSingle_keeps {e : Entry} {res : PollResult} (h : pollSingle K s = .ok (res, t))
    (hl : s.reqEntries = [e]) (hs : ¬ Strips K s) (hne : res ≠ .none)
    (hon : res = .again ∨ t.recvRsp.ccode = 0xcf) : ∃ e', Peels e e' ∧ t.reqEntries = [e'] := by
  obtain ⟨ss, hss, ⟨hnone, -, -, -⟩ | ⟨-, d, rest, l, r, evs, hin, -, -, hh, rfl⟩⟩ :=
    pollSingle_ok h
  · exact absurd hnone hne
  · rw [hl] at hh
    have hstay : l = [e] → ∃ e', Peels e e' ∧ (handled s rest l r evs).reqEntries = [e'] :=
      fun hl' =>
        ⟨e, .refl e, hl'⟩
    rcases handlePacket_cases hh with ⟨b, -, hl', -, -⟩ | ⟨-, hl', -⟩ | ⟨hnone, -, -⟩ |
      ⟨r1, o, n, hopen, htype, hloop⟩ | ⟨x, -, hl', -, -⟩
    · exact hstay hl'
    · exact hstay hl'
    · exact absurd hnone hne
    · have hnot : ¬ Takes e r1 o n :=
        fun ht => hs ⟨e, ss, d, rest, r1, o, n, hl, hss, hin, hopen, htype, ht⟩
      exact ipmiLoop_keeps hnot hloop (by simp) hon
    · exact hstay hl'

theorem pollSingle_quiet {res : PollResult} (h : pollSingle K s = .ok (res, t)) (hq : Quiet s) :
    ∃ rest, t = missed s rest := by
  obtain ⟨-, -, ⟨-, rest, -, rfl⟩ | ⟨hfd, d, rest, -, -, -, hin, hne, -, -, -⟩⟩ := pollSingle_ok h
  · exact ⟨rest, rfl⟩
  · exact absurd (hq d rest hfd hin) hne

theorem Over.missed {l : Locals} (h : Over l s) (rest : List (Option (List UInt8))) :
    Over l (missed s rest) := by
  obtain ⟨ss, hss, hle⟩ := h
  have htime : (Receive.missed s rest).net.time.1 = s.net.time.1 := by
    unfold Receive.missed Net.time
    cases s.net.clock <;> rfl
  exact ⟨ss, hss, by rw [htime]; exact hle⟩

/-- **One orderly turn** keeps the entry listed. -/
theorem Turn.listed {c c' : Conf} (h : Turn K req c c') (ho : Orderly K c c') (hc : Listed req c) :
    Listed req c' := by
  cases h with
  | send ht hno =>
    obtain ⟨hl, hx⟩ := hc
    obtain ⟨e, hasks, -, hentry, -, hlist, -, -⟩ := transmit_request ht hx
    refine ⟨⟨e, e, hasks, .refl e, ?_, hentry⟩, by simp⟩
    rw [hlist, hl]
    rfl
  | skip hp =>
    obtain ⟨⟨e, e', hasks, hpeel, hl, hentry⟩, -⟩ := hc
    obtain ⟨e'', hpeel', hl'⟩ := pollSingle_keeps hp hl ho (by decide) (.inl rfl)
    refine ⟨⟨e, e'', hasks, hpeel.trans hpeel', hl', ?_⟩, by simp⟩
    rw [hpeel'.addr_eq]
    exact hentry
  | duplicate hp hcc =>
    obtain ⟨⟨e, e', hasks, hpeel, hl, hentry⟩, -⟩ := hc
    obtain ⟨e'', hpeel', hl'⟩ := pollSingle_keeps hp hl ho (by decide) (.inr hcc)
    refine ⟨⟨e, e'', hasks, hpeel.trans hpeel', hl', ?_⟩, by simp⟩
    rw [hpeel'.addr_eq]
    exact hentry
  | miss hp =>
    obtain ⟨⟨e, e', hasks, hpeel, hl, hentry⟩, -⟩ := hc
    obtain ⟨hquiet, hover⟩ := ho
    obtain ⟨rest, rfl⟩ := pollSingle_quiet hp hquiet
    exact ⟨⟨e, e', hasks, hpeel, hl, hentry⟩, fun _ => hover.missed rest⟩
  | @retire n l s t u addr x he hr hx =>
    obtain ⟨⟨e, e', -, -, hl, hentry⟩, hover⟩ := hc
    obtain ⟨y, hy, rfl⟩ := removeEntry_ok.mp hr
    obtain ⟨ss, timeout, hss, rfl, rfl⟩ := timedOut_ok hx
    obtain ⟨ss', hss', hle⟩ := hover rfl
    obtain rfl : ss = ss' := Option.some.inj (hss.symm.trans hss')
    refine ⟨?_, decide_eq_true hle⟩
    have hye : y = e' := by
      have := List.mem_of_find?_eq_some hy
      rw [show s.reqEntries = [e'] from hl] at this
      exact List.mem_singleton.mp this
    have hkey : Entry.hasKey e'.rqSeq e'.req.cmd e' = true := by simp [Entry.hasKey]
    simp [show s.reqEntries = [e'] from hl, reqRemoveEntry, hye, hkey]

/-- **A run of orderly turns** keeps the entry listed. -/
theorem turns_listed {c : Conf} (hl : s.reqEntries = [])
    (ho : ∀ c c', Reached K req s c → Turn K req c c' → Orderly K c c') (h : Reached K req s c) :
    Listed req c := by
  induction h with
  | refl => exact ⟨hl, rfl⟩
  | tail hrun hturn ih => exact hturn.listed (ho _ _ hrun hturn) ih

/-! ### The turns are what the loop does -/

/-- The rest of the loop behind a wait that ended with nothing. -/
def Rest (K : Primitives) (req : Request) (n : ℕ) (l : Locals) (s : St)
    (o : Option Bool) (s' : St) : Prop :=
  ∃ addr x t u, l.entry = some addr ∧ removeEntry addr s = .ok ((), t) ∧
    timedOut l.ltime t = .ok (x, u) ∧ IpmiRounds K req n (nextLocals l x) u o s'

/-- What the loop comes to from a configuration. -/
def Result (K : Primitives) (req : Request) (c : Conf) (o : Option Bool) (s' : St) : Prop :=
  match c.phase with
  | .sending => IpmiRounds K req c.tries c.locals c.state o s'
  | .polling => (o = some true ∧ Awaits K c.state true s') ∨
      ∃ u, Awaits K c.state false u ∧ Rest K req c.tries c.locals u o s'
  | .missed => Rest K req c.tries c.locals c.state o s'

theorem Turn.result {c c' : Conf} {o : Option Bool} (h : Turn K req c c')
    (hr : Result K req c' o s') : Result K req c o s' := by
  cases h with
  | send ht hno =>
    rcases hr with ⟨rfl, ha⟩ | ⟨u, ha, addr, x, v, w, he, hrem, hx, hrest⟩
    · exact .answered ht hno ha
    · exact .retried ht hno ha he hrem hx hrest
  | skip hp =>
    rcases hr with ⟨rfl, ha⟩ | ⟨u, ha, hrest⟩
    · exact .inl ⟨rfl, .skip hp ha⟩
    · exact .inr ⟨u, .skip hp ha, hrest⟩
  | duplicate hp hcc =>
    rcases hr with ⟨rfl, ha⟩ | ⟨u, ha, hrest⟩
    · exact .inl ⟨rfl, .duplicate hp hcc ha⟩
    · exact .inr ⟨u, .duplicate hp hcc ha, hrest⟩
  | miss hp => exact .inr ⟨_, .missed hp, hr⟩
  | retire he hrem hx => exact ⟨_, _, _, _, he, hrem, hx, hr⟩

theorem turns_result {c c' : Conf} {o : Option Bool} (h : Relation.ReflTransGen (Turn K req) c c')
    (hr : Result K req c' o s') : Result K req c o s' := by
  induction h using Relation.ReflTransGen.head_induction_on with
  | refl => exact hr
  | head hturn _ ih => exact hturn.result ih

theorem IpmiRounds.sendLoop {n : ℕ} {l : Locals} {o : Option Bool}
    (h : IpmiRounds K req n l s o s') : sendLoop K (.ipmi req) n l s = .ok (o, s') := by
  induction h with
  | exhausted l s => rfl
  | sendFailed ht =>
    simp only [Send.sendLoop, bind_ok]
    exact ⟨none, _, ht, rfl⟩
  | @noanswer n l l' s t ht hno =>
    simp only [Send.sendLoop, bind_ok]
    refine ⟨some l', t, ht, ?_⟩
    simp only [bind_ok, get_ok]
    exact ⟨t, t, ⟨rfl, rfl⟩, by rw [hno, if_pos rfl]; rfl⟩
  | @answered n l l' s t u ht hno ha =>
    simp only [Send.sendLoop, bind_ok]
    refine ⟨some l', t, ht, ?_⟩
    simp only [bind_ok, get_ok]
    refine ⟨t, t, ⟨rfl, rfl⟩, ?_⟩
    rw [hno]
    simp only [Bool.false_eq_true, if_false, bind_ok, remember, pure_ok]
    refine ⟨(), t, ⟨trivial, rfl⟩, (true, true), u, ?_, rfl⟩
    simp only [Send.await, bind_ok, get_ok]
    exact ⟨t, t, ⟨rfl, rfl⟩, true, u, (pollPastDuplicates_iff (Nat.lt_succ_self _)).mpr ha, rfl⟩
  | @retried n l l' s t u v w s' addr x o ht hno ha hentry hr hx _ ih =>
    simp only [Send.sendLoop, bind_ok]
    refine ⟨some l', t, ht, ?_⟩
    simp only [bind_ok, get_ok]
    refine ⟨t, t, ⟨rfl, rfl⟩, ?_⟩
    rw [hno]
    simp only [Bool.false_eq_true, if_false, bind_ok, remember, pure_ok]
    refine ⟨(), t, ⟨trivial, rfl⟩, (false, false), v, ?_, ?_⟩
    · simp only [Send.await, bind_ok, get_ok]
      refine ⟨t, t, ⟨rfl, rfl⟩, false, u, (pollPastDuplicates_iff (Nat.lt_succ_self _)).mpr ha, ?_⟩
      rw [hentry]
      simp only [Bool.false_eq_true, if_false, bind_ok]
      exact ⟨(), v, hr, rfl⟩
    · simp only [Bool.false_eq_true, if_false, bind_ok, isHandshake]
      exact ⟨x, w, hx, ih⟩

theorem Turn.kept {c c' : Conf} (h : Turn K req c c') : Kept c.state c'.state := by
  cases h with
  | send ht _ => exact Run.kept (moves_transmit tame_run (.inl rfl) _ _ _ _ ht)
  | skip hp | duplicate hp _ | miss hp => exact pollSingle_kept hp
  | retire _ hr hx =>
    exact (Run.kept (moves_removeEntry (K := K) tame_run _ _ _ _ hr)).trans
      (Run.kept (moves_timedOut (K := K) tame_run _ _ _ _ hx))

theorem turns_kept {c c' : Conf} (h : Relation.ReflTransGen (Turn K req) c c') :
    Kept c.state c'.state := by
  induction h with
  | refl => exact .refl _
  | tail _ hturn ih => exact ih.trans hturn.kept

/-- **An answer that is polled is the answer of `sendPayload`**: the state it leaves is the one
after the poll, up to the timeout of the session. -/
theorem reached_answers {c : Conf} {u : St} (h : Reached K req s c) (hphase : c.phase = .polling)
    (hp : pollSingle K c.state = .ok (.got, u)) (hcc : u.recvRsp.ccode ≠ 0xcf) :
    ∃ ss timeout, u.intf.session = some ss ∧
      sendIpmiCmd K req s = .ok (true, u.withSession { ss with timeout }) := by
  have hend : Result K req c (some true) u := by
    rw [Result, hphase]
    exact .inl ⟨rfl, .got hp hcc⟩
  have hloop := IpmiRounds.sendLoop (turns_result h hend)
  obtain ⟨ss1, hss1, -⟩ := pollSingle_ok hp
  have hkept := (pollSingle_kept hp).v2
  rw [hss1] at hkept
  obtain ⟨ss2, hss2, -⟩ := Option.map_eq_some_iff.mp hkept
  have hkept' := (turns_kept h).v2
  rw [hss1] at hkept'
  obtain ⟨ss, hss', -⟩ := Option.map_eq_some_iff.mp hkept'.symm
  refine ⟨ss2, ss.timeout, hss2, ?_⟩
  simp only [sendIpmiCmd, sendPayload, bind_ok, theSession_ok, get_ok]
  refine ⟨ss, s, ⟨hss', rfl⟩, s, s, ⟨rfl, rfl⟩, some true, u, hloop, ?_⟩
  simp only [bind_ok, modifySession_ok, pure_ok]
  exact ⟨(), _, ⟨ss2, hss2, rfl⟩, trivial, rfl⟩

/-! ### Dangling pointers -/

theorem Awaits.turns {n : ℕ} {l : Locals} {b : Bool} (h : Awaits K s b s') (hb : b = false) :
    Relation.ReflTransGen (Turn K req) ⟨.polling, n, l, s⟩ ⟨.missed, n, l, s'⟩ := by
  induction h with
  | missed h => exact .single (.miss h)
  | got h _ => cases hb
  | skip h _ ih => exact .head (.skip h) (ih hb)
  | duplicate h hcc _ ih => exact .head (.duplicate h hcc) (ih hb)

/-- The loop is behind a wait that ended with nothing, and its pointer dangles. -/
def Dangling (c : Conf) : Prop :=
  c.phase = .missed ∧ ∃ addr, c.locals.entry = some addr ∧
    c.state.reqEntries.find? (·.addr == addr) = none

theorem removeEntry_error {addr : ℕ} (h : removeEntry addr s = .error .useAfterFree) :
    s.reqEntries.find? (·.addr == addr) = none := by
  rcases bind_error.mp h with h | ⟨e, t, -, h⟩
  · unfold deref at h
    rcases bind_error.mp h with h | ⟨_, _, hget, h⟩
    · exact absurd h (Never.get s)
    · obtain ⟨rfl, rfl⟩ := get_ok.mp hget
      rcases hf : s.reqEntries.find? (·.addr == addr) with _ | e
      · exact hf
      · rw [hf] at h
        exact absurd h (Never.pure e s)
  · exact absurd h (Never.modify _ t)

/-- **A fault of the loop** is a removal through a dangling pointer. -/
theorem sendLoop_useAfterFree : ∀ {n : ℕ} {l : Locals} {s : St},
    (l.xmit = true ∨ l.entry.isSome) → sendLoop K (.ipmi req) n l s = .error .useAfterFree →
      ∃ c, Relation.ReflTransGen (Turn K req) ⟨.sending, n, l, s⟩ c ∧ Dangling c
  | 0, _, s, _, h => absurd h (Never.pure _ s)
  | n + 1, l, s, hl, h => by
    simp only [Send.sendLoop] at h
    rcases bind_error.mp h with h | ⟨o, t, ht, h⟩
    · exact absurd h (safe_transmit l s)
    cases o with
    | none => exact absurd h (Never.pure _ t)
    | some l' =>
      rcases bind_error.mp h with h | ⟨_, _, hget, h⟩
      · exact absurd h (Never.get t)
      obtain ⟨rfl, rfl⟩ := get_ok.mp hget
      cases hno : t.intf.noanswer with
      | true =>
        rw [hno, if_pos rfl] at h
        exact absurd h (Never.pure _ t)
      | false =>
        have hsend : Turn K req ⟨.sending, n + 1, l, s⟩ ⟨.polling, n, l', t⟩ := .send ht hno
        obtain ⟨addr, haddr⟩ := transmit_entry hl ht
        rw [hno] at h
        simp only [Bool.false_eq_true, if_false, remember] at h
        rcases bind_error.mp h with h | ⟨_, _, hrem, h⟩
        · exact absurd h (Never.pure _ t)
        obtain ⟨-, rfl⟩ := pure_ok.mp hrem
        rcases bind_error.mp h with h | ⟨⟨done, rsp⟩, u, haw, h⟩
        · -- the fault is in the wait: the polls do not follow pointers, so it is in the removal
          simp only [Send.await] at h
          rcases bind_error.mp h with h | ⟨_, _, hget, h⟩
          · exact absurd h (Never.get t)
          obtain ⟨rfl, rfl⟩ := get_ok.mp hget
          rcases bind_error.mp h with h | ⟨got, v, hpoll, h⟩
          · exact absurd h (safe_pollPastDuplicates _ t)
          cases got with
          | true => exact absurd h (Never.pure _ v)
          | false =>
            rw [pollPastDuplicates_iff (Nat.lt_succ_self _)] at hpoll
            rw [haddr] at h
            simp only [Bool.false_eq_true, if_false] at h
            rcases bind_error.mp h with h | ⟨_, w, -, h⟩
            · refine ⟨⟨.missed, n, l', v⟩, .head hsend (Awaits.turns hpoll rfl), rfl,
                addr, haddr, ?_⟩
              exact removeEntry_error h
            · exact absurd h (Never.pure _ w)
        · rcases await_ipmi_ok haddr haw with ⟨hx, -⟩ | ⟨hx, v, hwait, hr⟩
          · obtain ⟨rfl, rfl⟩ := Prod.mk.inj hx
            exact absurd h (Never.pure _ u)
          · obtain ⟨rfl, rfl⟩ := Prod.mk.inj hx
            simp only [Bool.false_eq_true, if_false, isHandshake] at h
            rcases bind_error.mp h with h | ⟨x, w, hx, h⟩
            · exact absurd h (safe_timedOut _ u)
            have hentry : (nextLocals l' x).entry.isSome :=
              Option.isSome_iff_exists.mpr ⟨addr, haddr⟩
            obtain ⟨c, hturns, hc⟩ := sendLoop_useAfterFree (.inr hentry) h
            refine ⟨c, .head hsend ((Awaits.turns hwait rfl).trans (.head ?_ hturns)), hc⟩
            exact .retire haddr hr hx

theorem sendIpmiCmd_useAfterFree (h : sendIpmiCmd K req s = .error .useAfterFree) :
    ∃ c, Reached K req s c ∧ Dangling c := by
  simp only [sendIpmiCmd, sendPayload] at h
  rcases bind_error.mp h with h | ⟨ss, _, hss, h⟩
  · exact absurd h (safe_theSession s)
  obtain ⟨-, rfl⟩ := theSession_ok.mp hss
  rcases bind_error.mp h with h | ⟨_, _, hget, h⟩
  · exact absurd h (Never.get s)
  obtain ⟨rfl, rfl⟩ := get_ok.mp hget
  rcases bind_error.mp h with h | ⟨o, t, -, h⟩
  · exact sendLoop_useAfterFree (.inl rfl) h
  cases o with
  | none => exact absurd h (Never.pure _ t)
  | some rsp =>
    rcases bind_error.mp h with h | ⟨_, u, -, h⟩
    · exact absurd h (safe_modifySession _ t)
    · exact absurd h (Never.pure _ u)

/-! ### Transparency -/

/-- The next receive of `s` is the datagram `d`, and for the entry `e` it is an answer that leaves
the response `r`, which does not say that the request was a duplicate. -/
structure Genuine (K : Primitives) (e : Entry) (s : St) (d : List UInt8) (r : Response) : Prop where
  fd : ValidFd s.intf.fd
  arrives : ∃ rest, s.net.inbox = some d :: rest
  length : d ≠ [] ∧ d.length < bufSize
  answers : ∃ ss l evs, s.intf.session = some ss ∧
    handlePacket K ss [e] (Response.receive s.recvRsp d) = .ok (.got, l, r, evs)
  ccode : r.ccode ≠ 0xcf

theorem Genuine.polled {e : Entry} {d : List UInt8} {r : Response} (h : Genuine K e s d r)
    (hl : s.reqEntries = [e]) : ∃ u, pollSingle K s = .ok (.got, u) ∧ u.recvRsp = r := by
  obtain ⟨rest, hin⟩ := h.arrives
  obtain ⟨ss, l, evs, hss, hh⟩ := h.answers
  have hfd : ¬ (s.intf.fd < 0 ∨ 1024 ≤ s.intf.fd) := by
    have := h.fd.1
    have := h.fd.2
    omega
  have hrecv : recvPacket s = .ok (true, { s with
      net := { s.net with inbox := rest }, recvRsp := Response.receive s.recvRsp d }) := by
    unfold recvPacket
    simp only [bind_ok, get_ok]
    refine ⟨s, s, ⟨rfl, rfl⟩, ?_⟩
    rw [if_neg hfd]
    simp only [bind_ok, set_ok]
    refine ⟨(), _, rfl, ?_⟩
    simp only [Net.recv, hin]
    rw [if_neg h.length.1, if_neg (by have := h.length.2; omega)]
    simp only [bind_ok, modify_ok, pure_ok]
    exact ⟨(), _, rfl, trivial, rfl⟩
  refine ⟨handled s rest l r evs, ?_, rfl⟩
  unfold pollSingle
  simp only [bind_ok, theSession_ok]
  refine ⟨ss, s, ⟨hss, rfl⟩, true, _, hrecv, ?_⟩
  simp only [if_true, bind_ok, get_ok, lift_ok, set_ok, pure_ok]
  refine ⟨_, _, ⟨rfl, rfl⟩, (.got, l, r, evs), _, ⟨?_, rfl⟩, (), _, rfl, rfl, rfl⟩
  rw [hl]
  exact hh

/-- **Discarded datagrams are transparent** in a run of orderly turns: the entry of the request is
on the list for as long as the loop waits, a genuine answer that arrives is the response of
`sendPayload`, and no entry is used after it left the list. -/
theorem discarded_transparent (K : Primitives) (req : Request) (s : St) (hl : s.reqEntries = [])
    (ho : ∀ c c', Reached K req s c → Turn K req c c' → Orderly K c c') :
    (∀ c, Reached K req s c → c.phase ≠ .sending → ∃ e e', Asks req e ∧ Peels e e' ∧
      c.state.reqEntries = [e'] ∧ c.locals.entry = some e'.addr) ∧
    (∀ c, Reached K req s c → c.phase = .polling → ∀ e d r, c.state.reqEntries = [e] →
      Genuine K e c.state d r → ∃ s', sendIpmiCmd K req s = .ok (true, s') ∧ s'.recvRsp = r) ∧
    sendIpmiCmd K req s ≠ .error .useAfterFree := by
  have hlisted : ∀ c, Reached K req s c → c.phase ≠ .sending → ∃ e e', Asks req e ∧ Peels e e' ∧
      c.state.reqEntries = [e'] ∧ c.locals.entry = some e'.addr := by
    intro c hc hphase
    have := turns_listed hl ho hc
    rw [Listed, if_neg hphase] at this
    exact this.1
  refine ⟨hlisted, fun c hc hphase e d r hle hgen => ?_, fun hfault => ?_⟩
  · obtain ⟨u, hp, rfl⟩ := hgen.polled hle
    obtain ⟨ss, timeout, -, hsend⟩ := reached_answers hc hphase hp hgen.ccode
    exact ⟨_, hsend, rfl⟩
  · obtain ⟨c, hc, hmissed, addr, hentry, hnone⟩ := sendIpmiCmd_useAfterFree hfault
    obtain ⟨e, e', -, -, hle, hentry'⟩ := hlisted c hc (by rw [hmissed]; decide)
    rw [hentry] at hentry'
    obtain rfl := Option.some.inj hentry'
    rw [hle, List.find?_cons] at hnone
    simp at hnone

/-! ### A wait with one datagram that is skipped -/

theorem Turn.of_sending {c c' : Conf} (h : Turn K req c c') (hphase : c.phase = .sending) :
    c'.phase = .polling ∧
      ∃ l, transmit K (.ipmi req) c.locals c.state = .ok (some l, c'.state) := by
  cases h with
  | send ht _ => exact ⟨rfl, _, ht⟩
  | skip _ | miss _ | duplicate _ _ | retire _ _ _ => cases hphase

/-- The first round from `s`: it transmits, the first poll skips a datagram, and the second one
hands a response back. -/
structure TwoPolls (K : Primitives) (req : Request) (s t u v : St) : Prop where
  sent : ∃ l, transmit K (.ipmi req) {} s = .ok (some l, t)
  first : pollSingle K t = .ok (.again, u)
  second : pollSingle K u = .ok (.got, v)
  ccode : v.recvRsp.ccode ≠ 0xcf

section
variable {u v : St} {c c' : Conf} (h : TwoPolls K req s t u v)
include h

/-- From the first poll the loop goes on to the second one. -/
theorem TwoPolls.skipped (hphase : c.phase = .polling) (hstate : c.state = t)
    (hturn : Turn K req c c') : c'.phase = .polling ∧ c'.state = u := by
  subst hstate
  cases hturn with
  | send _ _ | retire _ _ _ => cases hphase
  | skip hp =>
    rw [h.first] at hp
    exact ⟨rfl, (Prod.mk.inj (Except.ok.inj hp)).2.symm⟩
  | miss hp | duplicate hp _ =>
    rw [h.first] at hp
    cases hp

/-- The second poll ends the loop. -/
theorem TwoPolls.ends (hphase : c.phase = .polling) (hstate : c.state = u) : ¬ Turn K req c c' := by
  subst hstate
  intro hturn
  cases hturn with
  | send _ _ | retire _ _ _ => cases hphase
  | skip hp | miss hp =>
    rw [h.second] at hp
    cases hp
  | duplicate hp hdup =>
    rw [h.second] at hp
    obtain rfl := (Prod.mk.inj (Except.ok.inj hp)).2
    exact absurd hdup h.ccode

theorem TwoPolls.reached (hc : Reached K req s c) :
    c = start s ∨ c.phase = .polling ∧ (c.state = t ∨ c.state = u) := by
  obtain ⟨l, ht⟩ := h.sent
  induction hc with
  | refl => exact .inl rfl
  | tail _ hturn ih =>
    rcases ih with rfl | ⟨hphase, hstate | hstate⟩
    · obtain ⟨hphase, l', ht'⟩ := hturn.of_sending rfl
      exact .inr ⟨hphase, .inl (Prod.mk.inj (Except.ok.inj (ht'.symm.trans ht))).2⟩
    · obtain ⟨hphase', hstate'⟩ := h.skipped hphase hstate hturn
      exact .inr ⟨hphase', .inr hstate'⟩
    · exact absurd hturn (h.ends hphase hstate)

/-- The turns are orderly if the datagram that is skipped does not take the entry. -/
theorem TwoPolls.orderly (hskips : ¬ Strips K t) (hc : Reached K req s c)
    (hturn : Turn K req c c') : Orderly K c c' := by
  rcases h.reached hc with rfl | ⟨hphase, hstate | hstate⟩
  · trivial
  · have hphase' := (h.skipped hphase hstate hturn).1
    rw [Orderly, hphase, hphase', hstate]
    exact hskips
  · exact absurd hturn (h.ends hphase hstate)

end

/-- The session of the packet examples with a timeout of a second, nothing outstanding and three
tries. -/
def expecting (inbox : List (Option (List UInt8))) : St where
  intf := { fd := 3, ssnParams := { retry := 3 },
            session := some { Packet.sampleSession with timeout := 1 } }
  net := { inbox }

/-- The answer to another request. -/
def staleAnswer : List UInt8 :=
  [0x06, 0x00, 0xff, 0x07, 0x06, 0x00, 0xa4, 0xa3, 0xa2, 0xa0, 0x01, 0x00, 0x00, 0x00, 0x08,
   0x00, 0x81, 0x1c, 0x63, 0x20, 0x08, 0x01, 0x00, 0xd7]

/-- One request is under way, and the next datagram does not take it. -/
def skipsNext (K : Primitives) (s : St) : Bool :=
  match s.intf.session, s.net.inbox, s.reqEntries with
  | some ss, some d :: _, [e] =>
    match openPacket K ss (Response.receive s.recvRsp d) with
    | .ok (.payload r offset size) => decide (¬ Takes e r offset size)
    | _ => true
  | _, _, _ => false

theorem not_strips (h : skipsNext K s = true) : ¬ Strips K s := by
  rintro ⟨e, ss, d, rest, r, offset, size, hl, hss, hin, hopen, -, htakes⟩
  simp only [skipsNext, hl, hss, hin, hopen, decide_eq_true_eq] at h
  exact h htakes

/-- The first round: a transmission, a poll and another poll. -/
def firstRound (K : Primitives) (req : Request) :
    M (Option Locals × Bool × PollResult × PollResult) := do
  let o ← transmit K (.ipmi req) {}
  let s ← get
  let first ← pollSingle K
  let second ← pollSingle K
  return (o, skipsNext K s, first, second)

/-- A check of the first round: one datagram is skipped, and the second poll hands a response
back. -/
def skipsOne (x : Option Locals × Bool × PollResult × PollResult) (u : St) : Bool :=
  x.1.isSome && x.2.1 && x.2.2.1 = .again && x.2.2.2 = .got && u.recvRsp.ccode =
    0 && u.recvRsp.rqSeq = 1

/-- The answer to another request arrives before the answer: it is skipped, and the answer is handed
back. -/
theorem discarded_transparent_stale : ∃ s', sendIpmiCmd Packet.sampleKeys getDeviceId
    (expecting [some staleAnswer, some Packet.sampleAnswer]) = .ok (true, s') ∧
      s'.recvRsp.rqSeq = 1 ∧ s'.recvRsp.ccode = 0 := by
  have hrun : returns (firstRound Packet.sampleKeys getDeviceId)
      (expecting [some staleAnswer, some Packet.sampleAnswer]) skipsOne = true := by
    decide +kernel
  obtain ⟨⟨o, skips, first, second⟩, w, hx, htest⟩ := exists_of_returns hrun
  simp only [firstRound, bind_ok, get_ok, pure_ok] at hx
  obtain ⟨_, t, ht, _, _, ⟨rfl, rfl⟩, _, u, hfirst, _, v, hsecond, h, rfl⟩ := hx
  simp only [Prod.mk.injEq] at h
  obtain ⟨rfl, rfl, rfl, rfl⟩ := h
  simp only [skipsOne, Bool.and_eq_true, decide_eq_true_eq] at htest
  obtain ⟨⟨⟨⟨⟨hsome, hskips⟩, rfl⟩, rfl⟩, hcc⟩, hseq⟩ := htest
  obtain ⟨l, rfl⟩ := Option.isSome_iff_exists.mp hsome
  have hccode : v.recvRsp.ccode ≠ 0xcf := by
    rw [hcc]
    decide
  have hpolls : TwoPolls Packet.sampleKeys getDeviceId
      (expecting [some staleAnswer, some Packet.sampleAnswer]) t u v :=
    ⟨⟨l, ht⟩, hfirst, hsecond, hccode⟩
  obtain ⟨hlisted, hanswered, -⟩ := discarded_transparent Packet.sampleKeys getDeviceId
    (expecting [some staleAnswer, some Packet.sampleAnswer]) rfl
    fun _ _ hc hturn => hpolls.orderly (not_strips hskips) hc hturn
  -- the loop is at the second poll, and what it polls there is the genuine answer
  have hnoanswer : t.intf.noanswer = false :=
    (Run.kept (moves_transmit tame_run (.inl rfl) _ _ _ _ ht)).noanswer
  have hsecondPoll : Reached Packet.sampleKeys getDeviceId
      (expecting [some staleAnswer, some Packet.sampleAnswer]) ⟨.polling, 2, l, u⟩ :=
    .tail (.single (.send ht hnoanswer)) (.skip hfirst)
  obtain ⟨e, e', -, -, hentries, -⟩ :=
    hlisted _ hsecondPoll (show Phase.polling ≠ .sending by decide)
  obtain ⟨ss, hss, ⟨hnone, -, -, -⟩ | ⟨hfd, d, rest, entries, r, evs, hin, hne, hlen, hh, rfl⟩⟩ :=
    pollSingle_ok hsecond
  · exact absurd hnone (by decide)
  · rw [show u.reqEntries = [e'] from hentries] at hh
    obtain ⟨s', hsend, hr⟩ := hanswered _ hsecondPoll rfl e' d r hentries
      ⟨hfd, ⟨rest, hin⟩, ⟨hne, hlen⟩, ⟨ss, entries, evs, hss, hh⟩, hccode⟩
    refine ⟨s', hsend, ?_⟩
    rw [hr]
    exact ⟨hseq, hcc⟩

/-- The answer with the last byte of its authcode changed. -/
def tamperedAnswer : List UInt8 := Packet.sampleAnswer.dropLast ++ [0x00]

/-- **A packet with a bad authcode before the answer**: without it the answer is handed back, with
it the entry is removed, nothing is sent again, the answer is skipped and the entry is removed
twice. -/
theorem sendIpmiCmd_tampered :
    (∃ s', sendIpmiCmd Packet.sampleKeys getDeviceId (expecting [some Packet.sampleAnswer]) =
      .ok (true, s')) ∧
    sendIpmiCmd Packet.sampleKeys getDeviceId
      (expecting [some tamperedAnswer, some Packet.sampleAnswer]) = .error .useAfterFree := by
  have hgood : returns (sendIpmiCmd Packet.sampleKeys getDeviceId)
      (expecting [some Packet.sampleAnswer]) (fun b _ => b) = true := by
    decide +kernel
  have hbad : faults (sendIpmiCmd Packet.sampleKeys getDeviceId)
      (expecting [some tamperedAnswer, some Packet.sampleAnswer]) = some .useAfterFree := by
    decide +kernel
  obtain ⟨b, s', hcmd, rfl⟩ := exists_of_returns hgood
  exact ⟨⟨s', hcmd⟩, error_of_faults hbad⟩

end Ipmitool.Lanplus.Waiting
