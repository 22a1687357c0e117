import Ipmitool.Lanplus.Poll

/-! # What a round of `sendPayload` does

One inversion lemma for each part of a round: the transmission (`transmit_ok`,
`buildPayload_ipmi_ok`), the removal of an entry (`removeEntry_ok`), the timeout (`timedOut_ok`).
`IpmiRounds` is the loop of `sendPayload` for a request, round by round, and `sendPayload_ipmi_ok`
takes a returned call apart into it; `SolRounds` and `sendPayload_sol_ok` do the same for a
serial-over-LAN packet, and `sendPayload_handshake_ok` for the single round of a handshake
message. -/

namespace Ipmitool.Lanplus.Rounds

open Ipmitool.Lib.Mem Ipmitool.Lib.Machine Ipmitool.Core.Types Ipmitool.Core.Network
open Ipmitool.Crypto.Mac Ipmitool.Lanplus.State Ipmitool.Lanplus.Receive Ipmitool.Lanplus.Build
open Ipmitool.Lanplus.Send Ipmitool.Lanplus.Poll

variable {K : Primitives} {s s' t : St} {payload : V2Payload}

/-! ### Transmission -/

/-- The request goes out in the format of version 1.5. -/
def GoesOld (ss : Session) (req : Request) : Prop :=
  req.netfn = netfnApp ∧ req.cmd = getChannelAuthCap ∧ ss.v2.bmcId = 0

instance (ss : Session) (req : Request) : Decidable (GoesOld ss req) := by
  unfold GoesOld; infer_instance

theorem buildPayload_ipmi_ok {req : Request} {isRetry : Bool} {entry : Option ℕ}
    {packet : List UInt8} (h : buildPayload K (.ipmi req) isRetry s = .ok ((entry, packet), s')) :
    ∃ ss addr, s.intf.session = some ss ∧ entry = some addr ∧
      ((GoesOld ss req ∧ buildV15IpmiCmd req s = .ok ((addr, packet), s')) ∨
        (¬ GoesOld ss req ∧ buildV2xIpmiCmd K req isRetry s = .ok ((addr, packet), s'))) := by
  unfold buildPayload at h
  simp only [bind_ok, theSession_ok] at h
  obtain ⟨ss, _, ⟨hss, rfl⟩, h⟩ := h
  split_ifs at h with hold
  · simp only [bind_ok, pure_ok, Prod.mk.injEq] at h
    obtain ⟨⟨addr, p⟩, t, hb, ⟨rfl, rfl⟩, rfl⟩ := h
    exact ⟨ss, addr, hss, rfl, .inl ⟨hold, hb⟩⟩
  · simp only [bind_ok, pure_ok, Prod.mk.injEq] at h
    obtain ⟨⟨addr, p⟩, t, hb, ⟨rfl, rfl⟩, rfl⟩ := h
    exact ⟨ss, addr, hss, rfl, .inr ⟨hold, hb⟩⟩

/-- A payload other than a request. -/
def IsMessage : V2Payload → Prop
  | .ipmi _ => False
  | _ => True

theorem buildPayload_message_ok {isRetry : Bool} {entry : Option ℕ} {packet : List UInt8}
    (hp : IsMessage payload) (h : buildPayload K payload isRetry s = .ok ((entry, packet), s')) :
    ∃ ss, s.intf.session = some ss ∧ entry = none ∧ sendable ss.v2.sessionState payload = true ∧
      buildV2xMsg K payload 0 s = .ok (packet, s') := by
  unfold buildPayload at h
  simp only [bind_ok, theSession_ok] at h
  obtain ⟨ss, _, ⟨hss, rfl⟩, h⟩ := h
  cases payload with
  | ipmi req => exact hp.elim
  | openRequest msg | rakp1 msg | rakp3 msg | sol p =>
    simp only [bind_ok, expect_ok, pure_ok, Prod.mk.injEq] at h
    obtain ⟨_, _, ⟨hsend, rfl⟩, p, t, hb, ⟨rfl, rfl⟩, rfl⟩ := h
    exact ⟨ss, hss, rfl, hsend, hb⟩

theorem transmit_ok {l : Locals} {o : Option Locals} (h : transmit K payload l s = .ok (o, s')) :
    (l.xmit = false ∧ o = some l ∧ s' = s) ∨
    (l.xmit = true ∧ ∃ entry packet u,
      buildPayload K payload l.isRetry { s with net := s.net.time.2 } = .ok ((entry, packet), u) ∧
      s' = { u with net := (u.net.send packet).2 } ∧
      o = if (u.net.send packet).1 then some { l with ltime := s.net.time.1, entry } else none) := by
  unfold transmit at h
  split_ifs at h with hx
  · simp only [bind_ok, time_ok, sendPacket_ok, pure_ok] at h
    obtain ⟨_, _, ⟨rfl, rfl⟩, ⟨entry, packet⟩, u, hb, _, _, ⟨rfl, rfl⟩, rfl, rfl⟩ := h
    exact .inr ⟨hx, entry, packet, u, hb, rfl, rfl⟩
  · obtain ⟨rfl, rfl⟩ := pure_ok.mp h
    exact .inl ⟨by simpa using hx, rfl, rfl⟩

theorem transmit_rsp {l l' : Locals} (h : transmit K payload l s = .ok (some l', s')) : l'.rsp = l.rsp := by
  rcases transmit_ok h with ⟨-, ho, -⟩ | ⟨-, entry, packet, u, -, -, ho⟩
  · rw [Option.some.inj ho]
  · split_ifs at ho
    rw [Option.some.inj ho]

/-! ### The end of a round -/

theorem deref_ok {addr : ℕ} {e : Entry} :
    deref addr s = .ok (e, s') ↔ s.reqEntries.find? (·.addr == addr) = some e ∧ s = s' := by
  unfold deref
  simp only [bind_ok, get_ok]
  constructor
  · rintro ⟨_, _, ⟨rfl, rfl⟩, h⟩
    rcases hf : s.reqEntries.find? (·.addr == addr) with _ | e'
    · rw [hf] at h
      exact (throw_ok.mp h).elim
    · rw [hf] at h
      obtain ⟨rfl, rfl⟩ := pure_ok.mp h
      exact ⟨hf, rfl⟩
  · rintro ⟨h, rfl⟩
    refine ⟨s, s, ⟨rfl, rfl⟩, ?_⟩
    rw [h]
    rfl

/-- The removal through a pointer: the entry has to be on the list. -/
theorem removeEntry_ok {addr : ℕ} {u : Unit} :
    removeEntry addr s = .ok (u, s') ↔ ∃ e, s.reqEntries.find? (·.addr == addr) = some e ∧
      { s with
        reqEntries := reqRemoveEntry s.reqEntries e.rqSeq e.req.cmd
        trace := s.trace ++
          (reqLookupEntry s.reqEntries e.rqSeq e.req.cmd).toList.map Event.removed } = s' := by
  unfold removeEntry
  simp only [bind_ok, deref_ok, modify_ok]
  constructor
  · rintro ⟨e, _, ⟨he, rfl⟩, h⟩
    exact ⟨e, he, h⟩
  · rintro ⟨e, he, h⟩
    exact ⟨e, s, ⟨he, rfl⟩, h⟩

/-- The timeout after a round: the clock is read, and the timeout of the session may grow. -/
theorem timedOut_ok {ltime : ℤ} {elapsed : Bool} (h : timedOut ltime s = .ok (elapsed, s')) :
    ∃ ss timeout, s.intf.session = some ss ∧
      elapsed = decide ((ss.timeout.toNat : ℤ) ≤ s.net.time.1 - ltime) ∧
      s' = { s with
        intf := { s.intf with session := some { ss with timeout } }
        net := s.net.time.2 } := by
  unfold timedOut at h
  simp only [bind_ok, time_ok, theSession_ok] at h
  obtain ⟨_, _, ⟨rfl, rfl⟩, ss, _, ⟨hss, rfl⟩, h⟩ := h
  refine ⟨ss, ?_⟩
  by_cases hover : (ss.timeout.toNat : ℤ) ≤ s.net.time.1 - ltime
  · simp only [hover, decide_true, if_true] at h
    split_ifs at h with hmax
    · simp only [bind_ok, throw_ok, false_and, exists_false] at h
    · simp only [bind_ok, modifySession_ok, pure_ok] at h
      obtain ⟨_, _, ⟨ss1, hss1, rfl⟩, rfl, rfl⟩ := h
      obtain rfl : ss = ss1 := Option.some.inj (hss.symm.trans hss1)
      exact ⟨ss.timeout + 1, hss, by simp [hover], rfl⟩
  · simp only [hover, decide_false, Bool.false_eq_true, if_false] at h
    obtain ⟨rfl, rfl⟩ := pure_ok.mp h
    refine ⟨ss.timeout, hss, by simp [hover], ?_⟩
    have : s.intf.session = some ss := hss
    cases s with | mk intf => cases intf; simp_all

/-! ### The loop for a request -/

/-- The loop of `sendPayload` for a request, round by round, with the number of tries left. -/
inductive IpmiRounds (K : Primitives) (req : Request) : ℕ → Locals → St → Option Bool → St → Prop
  | exhausted (l : Locals) (s : St) : IpmiRounds K req 0 l s (some l.rsp) s
  | sendFailed {n : ℕ} {l : Locals} {s t : St} (ht : transmit K (.ipmi req) l s = .ok (none, t)) :
      IpmiRounds K req (n + 1) l s none t
  | noanswer {n : ℕ} {l l' : Locals} {s t : St} (ht : transmit K (.ipmi req) l s = .ok (some l', t))
      (hno : t.intf.noanswer = true) : IpmiRounds K req (n + 1) l s (some l'.rsp) t
  | answered {n : ℕ} {l l' : Locals} {s t u : St}
      (ht : transmit K (.ipmi req) l s = .ok (some l', t)) (hno : t.intf.noanswer = false)
      (ha : Awaits K t true u) : IpmiRounds K req (n + 1) l s (some true) u
  | retried {n : ℕ} {l l' : Locals} {s t u v w s' : St} {addr : ℕ} {x : Bool} {o : Option Bool}
      (ht : transmit K (.ipmi req) l s = .ok (some l', t)) (hno : t.intf.noanswer = false)
      (ha : Awaits K t false u) (hentry : l'.entry = some addr)
      (hr : removeEntry addr u = .ok ((), v)) (hx : timedOut l'.ltime v = .ok (x, w))
      (hrest : IpmiRounds K req n { l' with isRetry := true, xmit := x, rsp := false } w o s') :
      IpmiRounds K req (n + 1) l s o s'

theorem transmit_entry {req : Request} {l l' : Locals} (hl : l.xmit = true ∨ l.entry.isSome)
    (h : transmit K (.ipmi req) l s = .ok (some l', s')) : ∃ addr, l'.entry = some addr := by
  rcases transmit_ok h with ⟨hx, ho, -⟩ | ⟨-, entry, packet, u, hb, -, ho⟩
  · obtain rfl := Option.some.inj ho
    rcases hl with hl | hl
    · rw [hx] at hl; cases hl
    · exact Option.isSome_iff_exists.mp hl
  · obtain ⟨ss, addr, -, rfl, -⟩ := buildPayload_ipmi_ok hb
    split_ifs at ho
    · obtain rfl := Option.some.inj ho
      exact ⟨addr, rfl⟩

theorem await_ipmi_ok {req : Request} {l : Locals} {addr : ℕ} {x : Bool × Bool}
    (hl : l.entry = some addr) (h : await K (.ipmi req) l s = .ok (x, s')) :
    (x = (true, true) ∧ Awaits K s true s') ∨
      (x = (false, false) ∧ ∃ u, Awaits K s false u ∧ removeEntry addr u = .ok ((), s')) := by
  unfold await at h
  simp only [bind_ok, get_ok] at h
  obtain ⟨_, _, ⟨rfl, rfl⟩, got, t, hw, h⟩ := h
  rw [pollPastDuplicates_iff (Nat.lt_succ_self _)] at hw
  cases got with
  | true =>
    obtain ⟨rfl, rfl⟩ := pure_ok.mp h
    exact .inl ⟨rfl, hw⟩
  | false =>
    rw [hl] at h
    simp only [Bool.false_eq_true, if_false, bind_ok, pure_ok] at h
    obtain ⟨_, u, hr, rfl, rfl⟩ := h
    exact .inr ⟨rfl, t, hw, hr⟩

theorem sendLoop_ipmi_ok {req : Request} : ∀ {n : ℕ} {l : Locals} {s s' : St} {o : Option Bool},
    (l.xmit = true ∨ l.entry.isSome) → sendLoop K (.ipmi req) n l s = .ok (o, s') →
      IpmiRounds K req n l s o s'
  | 0, l, s, s', o, _, h => by
    obtain ⟨rfl, rfl⟩ := pure_ok.mp h
    exact .exhausted l s
  | n + 1, l, s, s', o, hl, h => by
    simp only [sendLoop, bind_ok] at h
    obtain ⟨ol, t, ht, h⟩ := h
    cases ol with
    | none =>
      obtain ⟨rfl, rfl⟩ := pure_ok.mp h
      exact .sendFailed ht
    | some l' =>
      simp only [bind_ok, get_ok] at h
      obtain ⟨_, _, ⟨rfl, rfl⟩, h⟩ := h
      cases hno : t.intf.noanswer with
      | true =>
        rw [hno, if_pos rfl] at h
        obtain ⟨rfl, rfl⟩ := pure_ok.mp h
        exact .noanswer ht hno
      | false =>
        obtain ⟨addr, haddr⟩ := transmit_entry hl ht
        rw [hno] at h
        simp only [Bool.false_eq_true, if_false, bind_ok, remember, pure_ok] at h
        obtain ⟨_, _, ⟨-, rfl⟩, x, u, haw, h⟩ := h
        rcases await_ipmi_ok haddr haw with ⟨rfl, hw⟩ | ⟨rfl, v, hw, hr⟩
        · obtain ⟨rfl, rfl⟩ := pure_ok.mp h
          exact .answered ht hno hw
        · simp only [Bool.false_eq_true, if_false, bind_ok, isHandshake] at h
          obtain ⟨xm, w, hx, h⟩ := h
          refine .retried ht hno hw haddr hr hx (sendLoop_ipmi_ok (.inr ?_) h)
          exact Option.isSome_iff_exists.mpr ⟨addr, haddr⟩

/-- What `sendPayload` does after its loop: the timeout is put back, unless a send failed. -/
def Restores (o : Option Bool) (t : St) (b : Bool) (s' : St) : Prop :=
  (o = none ∧ b = false ∧ s' = t) ∨
    (o = some b ∧ ∃ ss timeout, t.intf.session = some ss ∧ s' = t.withSession { ss with timeout })

theorem sendPayload_ok {b : Bool} (h : sendPayload K payload s = .ok (b, s')) :
    ∃ o t, sendLoop K payload s.intf.ssnParams.retry.toNat {} s = .ok (o, t) ∧
    Restores o t b s' := by
  unfold sendPayload at h
  simp only [bind_ok, theSession_ok, get_ok] at h
  obtain ⟨ss, _, ⟨hss, rfl⟩, _, _, ⟨rfl, rfl⟩, o, t, hloop, h⟩ := h
  refine ⟨o, t, hloop, ?_⟩
  cases o with
  | none =>
    obtain ⟨rfl, rfl⟩ := pure_ok.mp h
    exact .inl ⟨rfl, rfl, rfl⟩
  | some rsp =>
    simp only [bind_ok, modifySession_ok, pure_ok] at h
    obtain ⟨_, _, ⟨ss1, hss1, rfl⟩, rfl, rfl⟩ := h
    exact .inr ⟨rfl, ss1, ss.timeout, hss1, rfl⟩

/-- **`sendPayload` of a request**: its rounds, and then the timeout is put back. -/
theorem sendPayload_ipmi_ok {req : Request} {b : Bool}
    (h : sendPayload K (.ipmi req) s = .ok (b, s')) :
    ∃ o t, IpmiRounds K req s.intf.ssnParams.retry.toNat {} s o t ∧ Restores o t b s' := by
  obtain ⟨o, t, hloop, hrest⟩ := sendPayload_ok h
  exact ⟨o, t, sendLoop_ipmi_ok (.inl rfl) hloop, hrest⟩

/-! ### The loop for a serial-over-LAN packet -/

theorem solInputHandler_ok {x : Unit} (h : solInputHandler s = .ok (x, t)) :
    t = { s with net := { s.net with output := s.net.output ++ [s.recvRsp.bytes] } } := by
  unfold solInputHandler at h
  obtain ⟨ss, _, hss, h⟩ := bind_ok.mp h
  obtain ⟨-, rfl⟩ := theSession_ok.mp hss
  by_cases hin : (!ss.solInputHandler) = true
  · rw [if_pos hin] at h
    obtain ⟨_, _, hthrow, -⟩ := bind_ok.mp h
    exact (throw_ok.mp hthrow).elim
  · rw [if_neg hin] at h
    exact (modify_ok.mp h).symm

/-- How the receive of a round ends for a serial-over-LAN packet, given what `recvSol` left: without
a packet or with the acknowledgement it ends the loop, data of the other side is handed over and
ends the loop too, and another packet without data is followed by the next round. -/
inductive SolWait (p : SolPacket) (got : Bool) (u : St) : Bool → Bool → St → Prop
  | ended (h : ¬ (got = true ∧ isSolPacket u.recvRsp = true) ∨
    solResponseAcksPacket u.recvRsp p = true) :
      SolWait p got u true got u
  | data {v : St} (hgot : got = true) (hsol : isSolPacket u.recvRsp = true)
      (hack : ¬ solResponseAcksPacket u.recvRsp p = true) (hdata : u.recvRsp.dataLen ≠ 0)
      (hin : solInputHandler u = .ok ((), v)) :
      SolWait p got u true true { v with recvRsp := { v.recvRsp with dataLen := 0 } }
  | other (hgot : got = true) (hsol : isSolPacket u.recvRsp = true)
      (hack : ¬ solResponseAcksPacket u.recvRsp p = true) (hdata : u.recvRsp.dataLen = 0) :
      SolWait p got u false true u

theorem await_sol_ok {p : SolPacket} {l : Locals} {done rsp : Bool}
    (hp : p.packetSequenceNumber ≠ 0) (h : await K (.sol p) l s = .ok ((done, rsp), s')) :
    ∃ got u, recvSol K s = .ok (got, u) ∧ SolWait p got u done rsp s' := by
  unfold await at h
  dsimp only at h
  rw [if_neg hp] at h
  obtain ⟨got, u, hrecv, h⟩ := bind_ok.mp h
  obtain ⟨_, _, hget, h⟩ := bind_ok.mp h
  obtain ⟨rfl, rfl⟩ := get_ok.mp hget
  refine ⟨got, u, hrecv, ?_⟩
  by_cases hover : ¬ (got = true ∧ isSolPacket u.recvRsp = true) ∨
      solResponseAcksPacket u.recvRsp p = true
  · rw [if_pos hover] at h
    obtain ⟨hx, rfl⟩ := pure_ok.mp h
    obtain ⟨rfl, rfl⟩ := Prod.mk.inj hx
    exact .ended hover
  · rw [if_neg hover] at h
    obtain ⟨hsol, hack⟩ := not_or.mp hover
    obtain ⟨hgot, hsol⟩ := not_not.mp hsol
    by_cases hdata : u.recvRsp.dataLen ≠ 0
    · rw [if_pos hdata] at h
      simp only [bind_ok, modify_ok, pure_ok, Prod.mk.injEq] at h
      obtain ⟨_, v, hin, _, _, rfl, ⟨rfl, rfl⟩, rfl⟩ := h
      exact .data hgot hsol hack hdata hin
    · rw [if_neg hdata] at h
      obtain ⟨hx, rfl⟩ := pure_ok.mp h
      obtain ⟨rfl, rfl⟩ := Prod.mk.inj hx
      exact .other hgot hsol hack (not_not.mp hdata)

/-- The loop of `sendPayload` for a serial-over-LAN packet with a number, round by round. -/
inductive SolRounds (K : Primitives) (p : SolPacket) : ℕ → Locals → St → Option Bool → St → Prop
  | exhausted (l : Locals) (s : St) : SolRounds K p 0 l s (some l.rsp) s
  | sendFailed {n : ℕ} {l : Locals} {s t : St} (ht : transmit K (.sol p) l s = .ok (none, t)) :
      SolRounds K p (n + 1) l s none t
  | noanswer {n : ℕ} {l l' : Locals} {s t : St} (ht : transmit K (.sol p) l s = .ok (some l', t))
      (hno : t.intf.noanswer = true) : SolRounds K p (n + 1) l s (some l'.rsp) t
  | ended {n : ℕ} {l l' : Locals} {s t u v : St} {got rsp : Bool}
      (ht : transmit K (.sol p) l s = .ok (some l', t)) (hno : t.intf.noanswer = false)
      (hrecv : recvSol K t = .ok (got, u)) (hw : SolWait p got u true rsp v) :
      SolRounds K p (n + 1) l s (some rsp) v
  | retried {n : ℕ} {l l' : Locals} {s t u v s' : St} {got rsp x : Bool} {o : Option Bool}
      (ht : transmit K (.sol p) l s = .ok (some l', t)) (hno : t.intf.noanswer = false)
      (hrecv : recvSol K t = .ok (got, u)) (hw : SolWait p got u false rsp u)
      (hx : timedOut l'.ltime u = .ok (x, v))
      (hrest : SolRounds K p n { l' with isRetry := true, xmit := x, rsp } v o s') :
      SolRounds K p (n + 1) l s o s'

theorem sendLoop_sol_ok {p : SolPacket} (hp : p.packetSequenceNumber ≠ 0) :
    ∀ {n : ℕ} {l : Locals} {s s' : St} {o : Option Bool}, sendLoop K (.sol p) n l s = .ok (o, s') →
      SolRounds K p n l s o s'
  | 0, l, s, s', o, h => by
    obtain ⟨rfl, rfl⟩ := pure_ok.mp h
    exact .exhausted l s
  | n + 1, l, s, s', o, h => by
    simp only [sendLoop, bind_ok] at h
    obtain ⟨ol, t, ht, h⟩ := h
    cases ol with
    | none =>
      obtain ⟨rfl, rfl⟩ := pure_ok.mp h
      exact .sendFailed ht
    | some l' =>
      simp only [bind_ok, get_ok] at h
      obtain ⟨_, _, ⟨rfl, rfl⟩, h⟩ := h
      cases hno : t.intf.noanswer with
      | true =>
        rw [hno, if_pos rfl] at h
        obtain ⟨rfl, rfl⟩ := pure_ok.mp h
        exact .noanswer ht hno
      | false =>
        rw [hno] at h
        simp only [Bool.false_eq_true, if_false, bind_ok, remember, pure_ok] at h
        obtain ⟨_, _, ⟨-, rfl⟩, ⟨done, rsp⟩, v, haw, h⟩ := h
        obtain ⟨got, u, hrecv, hw⟩ := await_sol_ok hp haw
        cases done with
        | true =>
          obtain ⟨rfl, rfl⟩ := pure_ok.mp h
          exact .ended ht hno hrecv hw
        | false =>
          simp only [Bool.false_eq_true, if_false, bind_ok, isHandshake] at h
          obtain ⟨x, w, hx, h⟩ := h
          obtain rfl : v = u := by cases hw; rfl
          exact .retried ht hno hrecv hw hx (sendLoop_sol_ok hp h)

/-- **`sendPayload` of a serial-over-LAN packet**: its rounds, and then the timeout is put back. -/
theorem sendPayload_sol_ok {p : SolPacket} {b : Bool} (hp : p.packetSequenceNumber ≠ 0)
    (h : sendPayload K (.sol p) s = .ok (b, s')) :
    ∃ o t, SolRounds K p s.intf.ssnParams.retry.toNat {} s o t ∧ Restores o t b s' := by
  obtain ⟨o, t, hloop, hrest⟩ := sendPayload_ok h
  exact ⟨o, t, sendLoop_sol_ok hp hloop, hrest⟩

/-! ### The single round of a handshake message -/

/-- The state that is remembered after a handshake message. -/
def sentState : V2Payload → SessionState
  | .rakp1 _ => .rakp1Sent
  | .rakp3 _ => .rakp3Sent
  | _ => .openSessionSent

theorem remember_handshake (hp : isHandshake payload = true) :
    remember payload = setState (sentState payload) := by
  cases payload with
  | ipmi req => cases hp
  | sol p => cases hp
  | openRequest msg | rakp1 msg | rakp3 msg => rfl

theorem await_handshake_ok {l : Locals} {x : Bool × Bool} (hp : isHandshake payload = true)
    (h : await K payload l s = .ok (x, s')) : ∃ got, x = (got, got) ∧ Awaits K s got s' := by
  have hwait : (do
      let s ← get
      let rsp ← pollPastDuplicates K (s.net.inbox.length + 1)
      if rsp then return (true, true)
      return (false, false) : M (Bool × Bool)) s = .ok (x, s') := by
    cases payload with
    | ipmi req => cases hp
    | sol p => cases hp
    | openRequest msg | rakp1 msg | rakp3 msg => exact h
  simp only [bind_ok, get_ok] at hwait
  obtain ⟨_, _, ⟨rfl, rfl⟩, got, t, hw, hwait⟩ := hwait
  rw [pollPastDuplicates_iff (Nat.lt_succ_self _)] at hw
  cases got with
  | true =>
    obtain ⟨rfl, rfl⟩ := pure_ok.mp hwait
    exact ⟨true, rfl, hw⟩
  | false =>
    obtain ⟨rfl, rfl⟩ := pure_ok.mp hwait
    exact ⟨false, rfl, hw⟩

/-- The single round of a handshake message: no try is made, the send fails, no answer is waited
for, or one is. -/
inductive HandshakeRound (K : Primitives) (payload : V2Payload) (s : St) : Bool → St → Prop
  | untried (hretry : s.intf.ssnParams.retry ≤ 0) : HandshakeRound K payload s false s
  | sendFailed {t : St} (hretry : 0 < s.intf.ssnParams.retry)
      (ht : transmit K payload {} s = .ok (none, t)) : HandshakeRound K payload s false t
  | noanswer {l : Locals} {t : St} (ht : transmit K payload {} s = .ok (some l, t))
      (hno : t.intf.noanswer = true) : HandshakeRound K payload s false t
  | waited {l : Locals} {t u : St} {ss : Session} {b : Bool} (hretry : 0 < s.intf.ssnParams.retry)
      (ht : transmit K payload {} s = .ok (some l, t)) (hno : t.intf.noanswer = false)
      (hss : t.intf.session = some ss)
      (ha : Awaits K (t.withSession { ss with v2 := { ss.v2 with
        sessionState := sentState payload } }) b u) : HandshakeRound K payload s b u

/-- The state after the clock was read and the timeout of the session was set. -/
def Timed (s s' : St) : Prop :=
  ∃ ss timeout net, s.intf.session = some ss ∧ net.inbox = s.net.inbox ∧
    net.sendFails = s.net.sendFails ∧
    s' = { s with intf := { s.intf with session := some { ss with timeout } }, net }

/-- **`sendPayload` of a handshake message**: one round, and then the timeout is put back, unless
the send failed. -/
theorem sendPayload_handshake_ok {b : Bool} (hp : isHandshake payload = true)
    (h : sendPayload K payload s = .ok (b, s')) :
    ∃ u, HandshakeRound K payload s b u ∧ ((b = false ∧ s' = u) ∨ Timed u s') := by
  unfold sendPayload at h
  simp only [bind_ok, theSession_ok, get_ok] at h
  obtain ⟨ss, _, ⟨hss, rfl⟩, _, _, ⟨rfl, rfl⟩, o, t, hloop, h⟩ := h
  rcases hn : s.intf.ssnParams.retry.toNat with _ | n
  · rw [hn] at hloop
    obtain ⟨rfl, rfl⟩ := pure_ok.mp hloop
    simp only [bind_ok, modifySession_ok, pure_ok] at h
    obtain ⟨_, _, ⟨ss1, hss1, rfl⟩, rfl, rfl⟩ := h
    exact ⟨s, .untried (by omega), .inr ⟨ss1, ss.timeout, s.net, hss1, rfl, rfl, rfl⟩⟩
  have hretry : 0 < s.intf.ssnParams.retry := by omega
  rw [hn] at hloop
  simp only [sendLoop, bind_ok] at hloop
  obtain ⟨ol, t1, ht, hloop⟩ := hloop
  cases ol with
  | none =>
    obtain ⟨rfl, rfl⟩ := pure_ok.mp hloop
    obtain ⟨rfl, rfl⟩ := pure_ok.mp h
    exact ⟨t1, .sendFailed hretry ht, .inl ⟨rfl, rfl⟩⟩
  | some l =>
    simp only [bind_ok, get_ok] at hloop
    obtain ⟨_, _, ⟨rfl, rfl⟩, hloop⟩ := hloop
    cases hno : t1.intf.noanswer with
    | true =>
      rw [hno, if_pos rfl] at hloop
      obtain ⟨rfl, rfl⟩ := pure_ok.mp hloop
      simp only [bind_ok, modifySession_ok, pure_ok] at h
      obtain ⟨_, _, ⟨ss1, hss1, rfl⟩, rfl, rfl⟩ := h
      rw [transmit_rsp ht]
      exact ⟨t1, .noanswer ht hno, .inr ⟨ss1, ss.timeout, t1.net, hss1, rfl, rfl, rfl⟩⟩
    | false =>
      rw [hno, remember_handshake hp] at hloop
      simp only [Bool.false_eq_true, if_false, bind_ok, setState_ok] at hloop
      obtain ⟨_, _, ⟨ss1, hss1, rfl⟩, x, u, haw, hloop⟩ := hloop
      obtain ⟨got, rfl, hw⟩ := await_handshake_ok hp haw
      cases got with
      | true =>
        obtain ⟨rfl, rfl⟩ := pure_ok.mp hloop
        simp only [bind_ok, modifySession_ok, pure_ok] at h
        obtain ⟨_, _, ⟨ss2, hss2, rfl⟩, rfl, rfl⟩ := h
        exact ⟨u, .waited hretry ht hno hss1 hw, .inr ⟨ss2, ss.timeout, u.net, hss2, rfl, rfl, rfl⟩⟩
      | false =>
        simp only [Bool.false_eq_true, if_false, bind_ok, hp, if_true, pure_ok] at hloop
        obtain ⟨xm, w, hx, rfl, rfl⟩ := hloop
        obtain ⟨ss2, timeout, hss2, -, rfl⟩ := timedOut_ok hx
        simp only [bind_ok, modifySession_ok, pure_ok] at h
        obtain ⟨_, _, ⟨ss3, hss3, rfl⟩, rfl, rfl⟩ := h
        obtain rfl := Option.some.inj hss3
        exact ⟨u, .waited hretry ht hno hss1 hw, .inr ⟨ss2, ss.timeout, u.net.time.2, hss2,
          Net.time_inbox _, Net.time_sendFails _, rfl⟩⟩

end Ipmitool.Lanplus.Rounds
