import Ipmitool.Sol.Resend

/-! # Serial over LAN: what has been delivered

`sendSol` of the RMCP+ transport resends what was not accepted as long as it gets acknowledgements.
But `sendPayload` also comes back when the BMC sends data of its own first, or other packets without
data until all tries are over. The packet that it returns then does not acknowledge ours, so nothing
is resent, and the caller takes it for an answer.

`Misled` follows the rounds of a wait to such a packet (`misled_or_takes`), and `sendSol_honest_iff`
is the result: a response that is no refusal means that every character was acknowledged, if and
only if no wait of the call is misled. -/

namespace Ipmitool.Sol.Delivery

open Ipmitool.Lib.Machine Ipmitool.Core.Types Ipmitool.Crypto.Mac Ipmitool.Lanplus.State
open Ipmitool.Lanplus.Build Ipmitool.Lanplus.Send Ipmitool.Lanplus.Steps Ipmitool.Lanplus.Rounds
open Ipmitool.Sol.Resend

variable {K : Primitives} {p₀ p : SolPacket} {s₀ s t u v : St} {acc : List (List UInt8)} {b : Bool}

/-! ### What is claimed -/

/-- A nack, or a status that says that the transfer is unavailable or deactivated. -/
def Refuses (r : Response) : Prop := r.isNack ≠ 0 ∨ r.transferUnavailable ≠ 0 ∨ r.solInactive ≠ 0

instance (r : Response) : Decidable (Refuses r) :=
  inferInstanceAs (Decidable (r.isNack ≠ 0 ∨ r.transferUnavailable ≠ 0 ∨ r.solInactive ≠ 0))

/-- The characters of a packet that a response acknowledges. -/
def acknowledged (p : SolPacket) (r : Response) : List UInt8 :=
  if solResponseAcksPacket r p then p.data.take r.acceptedCharacterCount.toNat else []

/-- A packet of the call, with the characters that were accepted before it, and the state in which
the wait for its acknowledgement ended with a response. -/
def Waited (K : Primitives) (p₀ : SolPacket) (s₀ : St) (acc : List (List UInt8))
    (p : SolPacket) (t : St) :
    Prop := ∃ u, Sends (lanplus K) p₀ s₀ acc p u ∧ sendPayload K (.sol p) u = .ok (true, t)

/-- The last packet of the call. -/
def Last (K : Primitives) (p₀ : SolPacket) (s₀ : St) (acc : List (List UInt8))
    (p : SolPacket) (t : St) :
    Prop := Waited K p₀ s₀ acc p t ∧ (lanplus K).again p t = false

/-- If the call returns a serial-over-LAN response that is no refusal, every character was
acknowledged. -/
def Honest (K : Primitives) (p₀ : SolPacket) (s₀ : St) : Prop :=
  ∀ t, sendSol K p₀ s₀ = .ok (true, t) →
  isSolPacket t.recvRsp = true → ¬ Refuses t.recvRsp →
    (∃ acc p, Last K p₀ s₀ acc p t) ∧
      ∀ acc p, Last K p₀ s₀ acc p t → acc.flatten ++ acknowledged p t.recvRsp = p₀.data

/-- A round of a wait receives a serial-over-LAN packet. -/
def Hears (K : Primitives) (p : SolPacket) (l : Locals) (s : St) (l' : Locals) (u : St) : Prop :=
  ∃ t, transmit K (.sol p) l s = .ok (some l', t) ∧ t.intf.noanswer = false ∧
    recvSol K t = .ok (true, u) ∧ isSolPacket u.recvRsp = true

/-- The wait for an acknowledgement ends with a packet that accepts nothing: the acknowledgement
does not and `intelplus` is active, data of the BMC come first, or the last try hears another packet
without data. -/
inductive Misled (K : Primitives) (p : SolPacket) : ℕ → Locals → St → St → Prop
  | empty {n : ℕ} {l l' : Locals} {s u : St} (h : Hears K p l s l' u)
      (hack : solResponseAcksPacket u.recvRsp p = true) (hoem : u.intf.oemActive .intelplus = true)
      (hzero : u.recvRsp.acceptedCharacterCount = 0) : Misled K p (n + 1) l s u
  | data {n : ℕ} {l l' : Locals} {s u v : St} (h : Hears K p l s l' u)
      (hack : ¬ solResponseAcksPacket u.recvRsp p = true) (hdata : u.recvRsp.dataLen ≠ 0)
      (hin : solInputHandler u = .ok ((), v)) :
      Misled K p (n + 1) l s { v with recvRsp := { v.recvRsp with dataLen := 0 } }
  | last {l l' : Locals} {s u v : St} {x : Bool} (h : Hears K p l s l' u)
      (hack : ¬ solResponseAcksPacket u.recvRsp p = true) (hdata : u.recvRsp.dataLen = 0)
      (hx : timedOut l'.ltime u = .ok (x, v)) : Misled K p 1 l s v
  | later {n : ℕ} {l l' : Locals} {s t u v : St} {x : Bool} (h : Hears K p l s l' u)
      (hack : ¬ solResponseAcksPacket u.recvRsp p = true) (hdata : u.recvRsp.dataLen = 0)
      (hx : timedOut l'.ltime u = .ok (x, v))
      (hrest : Misled K p n { l' with isRetry := true, xmit := x, rsp := true } v t) :
      Misled K p (n + 1) l s t

/-- No wait of the call is misled, but by a refusal. -/
def Prompt (K : Primitives) (p₀ : SolPacket) (s₀ : St) : Prop := ∀ acc p u v,
  Sends (lanplus K) p₀ s₀ acc p u → Misled K p u.intf.ssnParams.retry.toNat {} u v →
    Refuses v.recvRsp

/-! ### The loop -/

theorem partial_of_again (h : (lanplus K).again p s = true) : s.recvRsp.transferUnavailable = 0 ∧
    s.recvRsp.isNack = 0 ∧ isSolPartialAck s.intf p s.recvRsp ≠ 0 := of_decide_eq_true h

theorem lt_of_partial {intf : Intf} {r : Response} (h : isSolPartialAck intf p r ≠ 0) :
    r.acceptedCharacterCount.toNat < p.data.length := by
  unfold isSolPartialAck at h
  split_ifs at h with hack
  · exact absurd rfl h
  · exact hack.2
  · exact absurd rfl h

theorem Sends.ne_nil (h : Sends (lanplus K) p₀ s₀ acc p u) (hne : p₀.data ≠ []) : p.data ≠ [] := by
  cases h with
  | first h => rwa [(setSolPacketSequenceNumber_ok h).1]
  | again _ _ hagain hnext =>
    rw [hnext.ok.1, ← List.length_pos_iff, List.length_drop]
    have hlt := lt_of_partial (partial_of_again hagain).2.2
    omega

theorem resendLoop_again {fuel : ℕ} {p' : SolPacket} {rsp : Bool} {s' : St}
    (hagain : (lanplus K).again p t = true) (hnext : Next p t p' s)
    (hsend : sendPayload K (.sol p') s = .ok (rsp, s')) :
    resendLoop K (fuel + 1) p true t = resendLoop K fuel p' rsp s' := by
  obtain ⟨v, hv, hset⟩ := hnext
  have hcond : (true = true) ∧ t.recvRsp.transferUnavailable = 0 ∧ t.recvRsp.isNack = 0 ∧
      isSolPartialAck t.intf p t.recvRsp ≠ 0 := ⟨rfl, partial_of_again hagain⟩
  rw [resendLoop, bind_run (get_ok.mpr ⟨rfl, rfl⟩)]
  dsimp only
  rw [if_pos hcond]
  rcases hv with ⟨hdata, hin⟩ | ⟨hdata, rfl⟩
  · rw [if_pos hdata, bind_run hin, bind_run hset, bind_run hsend]
  · rw [if_neg (not_not.mpr hdata), bind_run hset, bind_run hsend]

theorem sendSol_of_sends (hs : Numbered s₀) (h : Sends (lanplus K) p₀ s₀ acc p u) :
    ∃ fuel, u.net.inbox.length < fuel ∧ ∀ rsp t, sendPayload K (.sol p) u = .ok (rsp, t) →
      sendSol K p₀ s₀ = resendLoop K fuel p rsp t := by
  induction h with
  | @first p u h =>
    refine ⟨u.net.inbox.length + 1, Nat.lt_succ_self _, fun rsp t hsend => ?_⟩
    unfold first at h
    rw [sendSol, bind_run h, bind_run (get_ok.mpr ⟨rfl, rfl⟩), bind_run hsend]
  | @again acc p p' u t s' hsends hsend hagain hnext ih =>
    obtain ⟨fuel, hfuel, hcall⟩ := ih
    have hseq := (hsends.exact moves_send_lanplus hs).2.1
    have hless := sendPayload_sol_inbox (by rintro h0; rw [h0] at hseq; revert hseq; decide) hsend
    have hnot := hnext.inbox
    obtain ⟨n, rfl⟩ := Nat.exists_eq_succ_of_ne_zero (show fuel ≠ 0 by omega)
    refine ⟨n, by omega, fun rsp v hsend' => ?_⟩
    rw [hcall true t hsend, resendLoop_again hagain hnext hsend']

theorem Last.returns (hs : Numbered s₀) (h : Last K p₀ s₀ acc p t) :
    sendSol K p₀ s₀ = .ok (true, t) := by
  obtain ⟨⟨u, hsends, hsend⟩, hstop⟩ := h
  obtain ⟨fuel, hfuel, hcall⟩ := sendSol_of_sends hs hsends
  obtain ⟨n, rfl⟩ := Nat.exists_eq_succ_of_ne_zero (show fuel ≠ 0 by omega)
  have hcond : ¬ ((true = true) ∧ t.recvRsp.transferUnavailable = 0 ∧ t.recvRsp.isNack = 0 ∧
      isSolPartialAck t.intf p t.recvRsp ≠ 0) := fun hc => of_decide_eq_false hstop hc.2
  rw [hcall true t hsend, resendLoop, bind_run (get_ok.mpr ⟨rfl, rfl⟩)]
  dsimp only
  rw [if_neg hcond]
  rfl

/-! ### The wait -/

theorem await_sol {got done rsp : Bool} {l : Locals} (hp : p.packetSequenceNumber ≠ 0)
    (hrecv : recvSol K s = .ok (got, u)) (h : SolWait p got u done rsp v) :
    await K (.sol p) l s = .ok ((done, rsp), v) := by
  unfold await
  dsimp only
  rw [if_neg hp, bind_run hrecv, bind_run (get_ok.mpr ⟨rfl, rfl⟩)]
  cases h with
  | ended h => rw [if_pos h]; rfl
  | data hgot hsol hack hdata hin =>
    rw [if_neg (not_or.mpr ⟨not_not.mpr ⟨hgot, hsol⟩, hack⟩), if_pos hdata, bind_run hin]
    rfl
  | other hgot hsol hack hdata =>
    rw [if_neg (not_or.mpr ⟨not_not.mpr ⟨hgot, hsol⟩, hack⟩), if_neg (not_not.mpr hdata)]
    rfl

theorem sendLoop_round {n : ℕ} {l l' : Locals} (ht : transmit K (.sol p) l s = .ok (some l', t))
    (hno : t.intf.noanswer = false) : sendLoop K (.sol p) (n + 1) l s = (do
      let (done, rsp) ← await K (.sol p) l'
      if done then return some rsp
      let xmit ← timedOut l'.ltime
      sendLoop K (.sol p) n { l' with isRetry := true, xmit, rsp } : M (Option Bool)) t := by
  rw [sendLoop, bind_run ht]
  dsimp only
  rw [bind_run (get_ok.mpr ⟨rfl, rfl⟩), hno]
  rfl

theorem Misled.loop {n : ℕ} {l : Locals} (hp : p.packetSequenceNumber ≠ 0)
    (h : Misled K p n l s v) :
    sendLoop K (.sol p) n l s = .ok (some true, v) := by
  have hround : ∀ {n l l' s u done w}, Hears K p l s l' u → SolWait p true u done true w →
      sendLoop K (.sol p) (n + 1) l s = (do
        if done then return some true
        let xmit ← timedOut l'.ltime
        sendLoop K (.sol p) n { l' with isRetry := true, xmit, rsp := true } :
          M (Option Bool)) w := by
    intro n l l' s u done w h hw
    obtain ⟨t, ht, hno, hrecv, -⟩ := h
    rw [sendLoop_round ht hno, bind_run (await_sol hp hrecv hw)]
  induction h with
  | empty h hack hoem hzero => rw [hround h (.ended (.inr hack))]; rfl
  | data h hack hdata hin => rw [hround h (.data rfl h.choose_spec.2.2.2 hack hdata hin)]; rfl
  | last h hack hdata hx =>
    rw [hround h (.other rfl h.choose_spec.2.2.2 hack hdata), if_neg Bool.false_ne_true,
      bind_run hx]
    rfl
  | later h hack hdata hx _ ih =>
    rw [hround h (.other rfl h.choose_spec.2.2.2 hack hdata), if_neg Bool.false_ne_true,
      bind_run hx]
    exact ih

theorem timedOut_recvRsp {ltime : ℤ} {x : Bool} (h : timedOut ltime s = .ok (x, t)) :
    t.recvRsp = s.recvRsp := by
  obtain ⟨ss, timeout, -, -, rfl⟩ := timedOut_ok h
  rfl

/-- What it comes back with is a serial-over-LAN packet that asks for nothing, and nothing is
accepted. -/
theorem Misled.accepts {n : ℕ} {l : Locals} (h : Misled K p n l s v) :
    isSolPacket v.recvRsp = true ∧
    acknowledged p v.recvRsp = [] ∧ isSolPartialAck v.intf p v.recvRsp = 0 := by
  have hother : ∀ {intf : Intf} {r : Response}, ¬ solResponseAcksPacket r p = true →
      acknowledged p r = [] ∧ isSolPartialAck intf p r = 0 := fun hack =>
    ⟨if_neg hack, if_neg fun h => hack h.1⟩
  induction h with
  | empty h hack hoem hzero =>
    obtain ⟨t, -, -, -, hsol⟩ := h
    refine ⟨hsol, ?_, ?_⟩
    · rw [acknowledged, if_pos hack, hzero]
      rfl
    · unfold isSolPartialAck
      split_ifs with h1 h2
      · rfl
      · exact absurd ⟨hoem, hzero⟩ h2
      · rfl
  | data h hack hdata hin =>
    obtain ⟨t, -, -, -, hsol⟩ := h
    rw [solInputHandler_ok hin]
    exact ⟨hsol, hother hack⟩
  | last h hack hdata hx =>
    obtain ⟨t, -, -, -, hsol⟩ := h
    rw [timedOut_recvRsp hx]
    exact ⟨hsol, hother hack⟩
  | later _ _ _ _ _ ih => exact ih

/-- The characters that a packet accepts, if it acknowledges ours; with the OEM option `intelplus`,
one at least. -/
def Takes (intf : Intf) (p : SolPacket) (r : Response) : Prop := solResponseAcksPacket r p = true ∧
  ¬ (intf.oemActive .intelplus = true ∧ r.acceptedCharacterCount = 0)

/-- A wait that comes back with a serial-over-LAN packet comes back with the acknowledgement, or it
is misled. The response so far is that of an earlier round, or the interface expects answers. -/
theorem misled_or_takes {n : ℕ} {l : Locals} {o : Option Bool} (h : SolRounds K p n l s o v)
    (ho : o = some true) (hsol : isSolPacket v.recvRsp = true)
    (hl : l.rsp = false ∨ (n ≠ 0 ∧ s.intf.noanswer = false)) :
    Misled K p n l s v ∨ Takes v.intf p v.recvRsp := by
  have hkept : ∀ {l l' : Locals} {s t : St}, transmit K (.sol p) l s = .ok (some l', t) →
      t.intf.noanswer = s.intf.noanswer := fun ht =>
    (Run.kept (moves_transmit tame_run (.inr (show IsMessage (.sol p) from trivial)) _ _ _ _
      ht)).noanswer
  induction h with
  | exhausted l s =>
    rcases hl with hl | hl
    · rw [hl] at ho
      cases ho
    · exact absurd rfl hl.1
  | sendFailed ht => cases ho
  | noanswer ht hno =>
    rcases hl with hl | hl
    · rw [transmit_rsp ht, hl] at ho
      cases ho
    · rw [hkept ht, hl.2] at hno
      cases hno
  | @ended n l l' s t u v got rsp ht hno hrecv hw =>
    obtain rfl := Option.some.inj ho
    cases hw with
    | ended hover =>
      have hack := hover.resolve_left (not_not.mpr ⟨rfl, hsol⟩)
      by_cases hzero : u.intf.oemActive .intelplus = true ∧ u.recvRsp.acceptedCharacterCount = 0
      · exact .inl (.empty ⟨t, ht, hno, hrecv, hsol⟩ hack hzero.1 hzero.2)
      · exact .inr ⟨hack, hzero⟩
    | data hgot hu hack hdata hin =>
      subst hgot
      exact .inl (.data ⟨t, ht, hno, hrecv, hu⟩ hack hdata hin)
  | @retried n l l' s t u v s' got rsp x o ht hno hrecv hw hx hrest ih =>
    cases hw with
    | other hgot hu hack hdata =>
      subst hgot
      have hears : Hears K p l s l' u := ⟨t, ht, hno, hrecv, hu⟩
      cases n with
      | zero =>
        cases hrest with
        | exhausted => exact .inl (.last hears hack hdata hx)
      | succ n =>
        have h1 := (Run.kept (moves_recvSol tame_run _ _ _ hrecv)).noanswer
        have h2 := (Run.kept (moves_timedOut (tame_run (K := K)) _ _ _ _ hx)).noanswer
        rcases ih ho hsol (.inr ⟨Nat.succ_ne_zero n, h2.trans (h1.trans hno)⟩) with hm | hm
        · exact .inl (.later hears hack hdata hx hm)
        · exact .inr hm

theorem Sends.number_ne (hs : Numbered s₀) (h : Sends (lanplus K) p₀ s₀ acc p u) :
    p.packetSequenceNumber ≠ 0 := by
  have hseq := (h.exact moves_send_lanplus hs).2.1
  intro h0
  rw [h0] at hseq
  revert hseq
  decide

theorem session_of_number {p' : SolPacket} (h : setSolPacketSequenceNumber p s = .ok (p', t)) :
    ∃ ss, t.intf.session = some ss := by
  unfold setSolPacketSequenceNumber at h
  simp only [bind_ok, theSession_ok, modifySession_ok, pure_ok] at h
  obtain ⟨ss, _, ⟨-, rfl⟩, _, _, ⟨ss', -, rfl⟩, -, rfl⟩ := h
  exact ⟨_, rfl⟩

theorem Waited.misled_or_takes (hs : Numbered s₀) (h : Waited K p₀ s₀ acc p t)
    (hsol : isSolPacket t.recvRsp = true) :
    (∃ u v, Sends (lanplus K) p₀ s₀ acc p u ∧ Misled K p u.intf.ssnParams.retry.toNat {} u v ∧
      v.recvRsp = t.recvRsp) ∨ Takes t.intf p t.recvRsp := by
  obtain ⟨u, hsends, hsend⟩ := h
  obtain ⟨o, v, hrounds, ⟨-, hb, -⟩ | ⟨ho, ss, timeout, -, rfl⟩⟩ :=
    sendPayload_sol_ok (Sends.number_ne hs hsends) hsend
  · cases hb
  · rcases Delivery.misled_or_takes hrounds ho hsol (.inl rfl) with hm | hm
    · exact .inl ⟨u, v, hsends, hm, rfl⟩
    · exact .inr hm

theorem Misled.waited (hs : Numbered s₀) (hsends : Sends (lanplus K) p₀ s₀ acc p u)
    (h : Misled K p u.intf.ssnParams.retry.toNat {} u v) :
    ∃ t, Waited K p₀ s₀ acc p t ∧ t.recvRsp = v.recvRsp ∧ (lanplus K).again p t = false := by
  have hp := Sends.number_ne hs hsends
  have hloop := h.loop hp
  obtain ⟨ss, hss⟩ : ∃ ss, u.intf.session = some ss := by
    cases hsends with
    | first h => exact session_of_number h
    | again _ _ _ hnext =>
      obtain ⟨w, -, hset⟩ := hnext
      exact session_of_number hset
  have hkept := Run.kept (moves_sendLoop tame_run (.inl rfl) (.pure _) _ _ _ _ _ hloop)
  obtain ⟨ss', hss', -⟩ : ∃ ss', v.intf.session = some ss' ∧ ss'.v2 = ss.v2 := by
    have hv2 := hkept.v2
    rw [hss] at hv2
    exact Option.map_eq_some_iff.mp hv2
  refine ⟨v.withSession { ss' with timeout := ss.timeout }, ⟨u, hsends, ?_⟩, rfl, ?_⟩
  · have hrestore : modifySession (fun s => { s with timeout := ss.timeout }) v =
        .ok ((), v.withSession { ss' with timeout := ss.timeout }) :=
          modifySession_ok.mpr ⟨ss', hss', rfl⟩
    unfold sendPayload
    rw [bind_run (theSession_ok.mpr ⟨hss, rfl⟩), bind_run (get_ok.mpr ⟨rfl, rfl⟩), bind_run hloop]
    dsimp only
    rw [bind_run hrestore]
    rfl
  · exact decide_eq_false fun hc => hc.2.2 h.accepts.2.2

/-! ### The result -/

theorem Last.unacknowledged (hs : Numbered s₀) (hne : p₀.data ≠ []) (h : Waited K p₀ s₀ acc p t)
    (hnone : acknowledged p t.recvRsp = []) :
    acc.flatten ++ acknowledged p t.recvRsp ≠ p₀.data := by
  obtain ⟨u, hsends, -⟩ := h
  have hexact := (hsends.exact moves_send_lanplus hs).1
  intro heq
  rw [hnone, ← hexact] at heq
  exact Sends.ne_nil hsends hne (List.append_cancel_left heq).symm

/-- The packet that ends a call acknowledges all that it was sent, if it takes characters. -/
theorem Last.acknowledges (h : Last K p₀ s₀ acc p t) (hr : ¬ Refuses t.recvRsp)
    (ht : Takes t.intf p t.recvRsp) : acknowledged p t.recvRsp = p.data := by
  obtain ⟨hnack, hunavail⟩ := not_or.mp hr
  have hall : p.data.length ≤ t.recvRsp.acceptedCharacterCount.toNat := by
    by_contra hlt
    have hpartial : isSolPartialAck t.intf p t.recvRsp ≠ 0 := by
      unfold isSolPartialAck
      rw [if_pos ⟨ht.1, Nat.lt_of_not_le hlt⟩, if_neg ht.2]
      omega
    have hagain : (lanplus K).again p t = true :=
      decide_eq_true ⟨not_not.mp (not_or.mp hunavail).1, not_not.mp hnack, hpartial⟩
    rw [h.2] at hagain
    cases hagain
  rw [acknowledged, if_pos ht.1, List.take_of_length_le hall]

theorem numbered_of_happens (hclosed : s.intf.session = none)
    (hrun : Relation.ReflTransGen (Happens (Use K)) s s₀) : Numbered s₀ := by
  induction hrun with
  | refl =>
    intro ss hss
    rw [hclosed] at hss
    cases hss
  | tail _ hstep ih =>
    cases hstep with
    | use h => exact h.numbered ih
    | @handler ss b hss =>
      intro ss' hss'
      obtain rfl := Option.some.inj hss'
      have hnumber := ih ss hss
      exact hnumber

/-- **What a call returns is honest** if and only if no wait of it is misled, in any state that a
closed interface comes to. -/
theorem sendSol_honest_iff (K : Primitives) (p₀ : SolPacket) (s s₀ : St)
    (hclosed : s.intf.session = none) (hrun : Relation.ReflTransGen (Happens (Use K)) s s₀) :
    Honest K p₀ s₀ ↔ p₀.data = [] ∨ Prompt K p₀ s₀ := by
  have hs : Numbered s₀ := numbered_of_happens hclosed hrun
  constructor
  · intro hhonest
    by_contra hcon
    obtain ⟨hne, hmisled⟩ := not_or.mp hcon
    refine hmisled fun acc p u v hsends h => ?_
    by_contra hr
    obtain ⟨t, hw, hrsp, hstop⟩ := h.waited hs hsends
    obtain ⟨hsol, hnone, -⟩ := h.accepts
    rw [← hrsp] at hsol hnone hr
    have hlast : Last K p₀ s₀ acc p t := ⟨hw, hstop⟩
    exact Last.unacknowledged hs hne hw hnone ((hhonest t (hlast.returns hs) hsol hr).2 acc p hlast)
  · intro hprompt t hcall hsol hr
    constructor
    · obtain ⟨acc, p, u, hsends, hsend, hstop⟩ := sendSol_lanplus_ends hcall hs
      exact ⟨acc, p, ⟨u, hsends, hsend⟩, Bool.eq_false_iff.mpr fun h => hstop ⟨rfl, h⟩⟩
    · intro acc p hlast
      obtain ⟨u, hsends, -⟩ := hlast.1
      have hexact := (hsends.exact moves_send_lanplus hs).1
      have hdata : acknowledged p t.recvRsp = p.data := by
        rcases hprompt with hnil | hprompt
        · rw [hnil] at hexact
          have hp := (List.append_eq_nil_iff.mp hexact).2
          rw [acknowledged, hp, List.take_nil, ite_self]
        · exact hlast.acknowledges hr ((hlast.1.misled_or_takes hs hsol).resolve_left
            fun ⟨u, v, hsends, h, hrsp⟩ => hr (hrsp ▸ hprompt acc p u v hsends h))
      rw [hdata, hexact]

open Ipmitool.Lanplus.Establishment in
theorem sendSol_honest_iff_typed : ∃ fd s₀, Ipmitool.Lanplus.Open.«open» (Primitives.tabled [])
      (openingState 0 (suiteZeroAnswers ++ [some partialAck])) = .ok (fd, s₀) ∧
    (Honest (Primitives.tabled []) { data := [1, 2, 3, 4] } s₀ ↔
      [1, 2, 3, 4] = ([] : List UInt8) ∨ Prompt (Primitives.tabled [])
        { data := [1, 2, 3, 4] } s₀) := by
  have hrun : returns (Ipmitool.Lanplus.Open.«open» (Primitives.tabled []))
      (openingState 0 (suiteZeroAnswers ++ [some partialAck])) (fun fd _ => decide (0 ≤ fd)) =
        true := by
    decide +kernel
  obtain ⟨fd, s₀, hopen, -⟩ := exists_of_returns hrun
  exact ⟨fd, s₀, hopen, sendSol_honest_iff _ _ _ s₀ rfl (.single (.use (.open hopen)))⟩

/-- A character of the BMC, in a packet that acknowledges nothing. -/
def bmcData : List UInt8 :=
  rmcpHdr ++ [authtypeRmcpPlus, ptSol, 0xa4, 0xa3, 0xa2, 0xa0, 0, 0, 0, 0, 5, 0, 1, 0, 0, 0, 0x78]

/-- The response to four characters: no refusal, and no acknowledgement of a packet. -/
def strays (b : Bool) (t : St) : Bool := b ∧ isSolPacket t.recvRsp = true ∧ ¬ Refuses t.recvRsp ∧
  t.recvRsp.ackedPacketNumber = 0

open Ipmitool.Lanplus.Establishment in
/-- The BMC sends a character of its own before it acknowledges the four. -/
theorem not_honest_data : ∃ s s₀, s.intf.session = none ∧
    Relation.ReflTransGen (Happens (Use (Primitives.tabled []))) s s₀ ∧
    ¬ Honest (Primitives.tabled []) { data := [1, 2, 3, 4] } s₀ := by
  have hrun : returns (Ipmitool.Lanplus.Open.«open» (Primitives.tabled []))
      (openingState 0 (suiteZeroAnswers ++ [some bmcData])) (fun _ s =>
        returns (modifySession fun ss => { ss with solInputHandler := true }) s fun _ s =>
          returns (sendSol (Primitives.tabled []) { data := [1, 2, 3, 4] }) s strays) = true := by
    decide +kernel
  obtain ⟨fd, s, hopen, hrun⟩ := exists_of_returns hrun
  obtain ⟨_, s₀, hset, hrun⟩ := exists_of_returns hrun
  obtain ⟨b, t, hcall, hstray⟩ := exists_of_returns hrun
  obtain ⟨rfl, hsol, hr, hack⟩ := of_decide_eq_true hstray
  obtain ⟨ss, hss, rfl⟩ := modifySession_ok.mp hset
  have hsteps : Relation.ReflTransGen (Happens (Use (Primitives.tabled [])))
      (openingState 0 (suiteZeroAnswers ++ [some bmcData]))
        (s.withSession { ss with solInputHandler := true }) :=
    .tail (.single (.use (.open hopen))) (.handler true hss)
  refine ⟨_, _, rfl, hsteps, fun hhonest => ?_⟩
  have hs := numbered_of_happens rfl hsteps
  obtain ⟨⟨acc, p, hlast⟩, hall⟩ := hhonest t hcall hsol hr
  obtain ⟨u, hsends, -⟩ := hlast.1
  have hnone : acknowledged p t.recvRsp = [] := by
    refine if_neg fun h => Sends.number_ne hs hsends ?_
    rw [← (of_decide_eq_true h).2, hack]
  exact Last.unacknowledged hs (List.cons_ne_nil _ _) hlast.1 hnone (hall acc p hlast)

end Ipmitool.Sol.Delivery
