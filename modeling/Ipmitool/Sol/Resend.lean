import Ipmitool.Lan.Correlation
import Ipmitool.Lanplus.Establishment

/-! # Serial over LAN: the resend loop

`sendSol` of both transports sends the characters it is handed, and while the acknowledgement is a
partial one it shifts its buffer by the accepted count, draws the next sequence number and sends
what is left. The two differ in when they go on and in how a packet is sent (`Sender`); the loop is
the same (`Sender.loop`).

`Sends` lists the packets of one call with what has been accepted before each of them. The results
are that `sendSol` is such a list (`sendSol_lanplus_ends`, `sendSol_lan_ends`), that nothing is lost
or sent twice, and that the number of a packet is never zero. The last one is an invariant of the
interface from `open` on (`Numbered`): the sequence number of the next packet starts at one and is
kept by all else. -/

namespace Ipmitool.Sol.Resend

open Ipmitool.Lib.Machine Ipmitool.Core.Types Ipmitool.Crypto.Mac Ipmitool.Lanplus.State
open Ipmitool.Lanplus.Receive Ipmitool.Lanplus.Build Ipmitool.Lanplus.Send Ipmitool.Lanplus.Poll
open Ipmitool.Lanplus.Steps (Still moves_theSession)

variable {K : Primitives} {A : Ipmitool.Lan.Send.Auth} {s s' t u : St}

/-! ### The loop -/

/-- What the two transports do differently: when the loop goes on, and how a packet is sent. -/
structure Sender where
  again : SolPacket → St → Bool
  send : SolPacket → M Bool

/-- The sender of the RMCP+ transport: a packet that was refused is not sent again. -/
def lanplus (K : Primitives) : Sender where
  again p s := s.recvRsp.transferUnavailable = 0 ∧ s.recvRsp.isNack = 0 ∧
    isSolPartialAck s.intf p s.recvRsp ≠ 0
  send p := sendPayload K (.sol p)

/-- The sender of the IPMI 1.5 transport. -/
def lan : Sender where
  again p s := Ipmitool.Lan.Send.isSolPartialAck p s.recvRsp ≠ 0
  send := Ipmitool.Lan.Send.sendSolPayload

/-- The first packet of a call. -/
def first (p : SolPacket) : M SolPacket :=
  setSolPacketSequenceNumber { p with ackedPacketNumber := 0, acceptedCharacterCount := 0 }

/-- The next packet: the data that came with the acknowledgement is handed over, and the characters
behind the accepted ones get a new number. -/
def Next (p : SolPacket) (s : St) (p' : SolPacket) (t : St) : Prop :=
  ∃ u, (s.recvRsp.dataLen ≠ 0 ∧ solInputHandler s = .ok ((), u) ∨ s.recvRsp.dataLen = 0 ∧ u = s) ∧
    setSolPacketSequenceNumber (SolPacket.rest p s.recvRsp.acceptedCharacterCount.toNat) u =
      .ok (p', t)

/-- A loop that resends as the sender says: it ends when the response does not ask for more, and
goes on with the next packet otherwise. -/
structure Sender.Resends (S : Sender) (loop : ℕ → SolPacket → Bool → M Bool) : Prop where
  zero : ∀ {p rsp s b s'}, loop 0 p rsp s = .ok (b, s') → b = rsp ∧ s' = s
  succ : ∀ {fuel p rsp s b s'}, loop (fuel + 1) p rsp s = .ok (b, s') →
    (¬ (rsp = true ∧ S.again p s = true) ∧ b = rsp ∧ s' = s) ∨
    (rsp = true ∧ S.again p s = true ∧ ∃ p' s1 rsp' s2, Next p s p' s1 ∧
      S.send p' s1 = .ok (rsp', s2) ∧ loop fuel p' rsp' s2 = .ok (b, s'))

theorem body_ok {send : SolPacket → M Bool} {loop : SolPacket → Bool → M Bool}
    {p : SolPacket} {b : Bool}
    (h : (do
      if s.recvRsp.dataLen ≠ 0 then solInputHandler
      let p ← setSolPacketSequenceNumber (SolPacket.rest p s.recvRsp.acceptedCharacterCount.toNat)
      let rsp ← send p
      loop p rsp : M Bool) s = .ok (b, s')) :
    ∃ p' s1 rsp' s2, Next p s p' s1 ∧ send p' s1 = .ok (rsp', s2) ∧
      loop p' rsp' s2 = .ok (b, s') := by
  have hrest : ∀ {u : St}, (do
      let p ← setSolPacketSequenceNumber (SolPacket.rest p s.recvRsp.acceptedCharacterCount.toNat)
      let rsp ← send p
      loop p rsp : M Bool) u = .ok (b, s') → ∃ p' s1 rsp' s2,
        setSolPacketSequenceNumber (SolPacket.rest p s.recvRsp.acceptedCharacterCount.toNat) u =
          .ok (p', s1) ∧ send p' s1 = .ok (rsp', s2) ∧ loop p' rsp' s2 = .ok (b, s') := by
    intro u h
    obtain ⟨p', s1, hset, h⟩ := bind_ok.mp h
    obtain ⟨rsp', s2, hsend, h⟩ := bind_ok.mp h
    exact ⟨p', s1, rsp', s2, hset, hsend, h⟩
  by_cases hdata : s.recvRsp.dataLen ≠ 0
  · rw [if_pos hdata] at h
    obtain ⟨_, u, hin, h⟩ := bind_ok.mp h
    obtain ⟨p', s1, rsp', s2, hset, hsend, hloop⟩ := hrest h
    exact ⟨p', s1, rsp', s2, ⟨u, .inl ⟨hdata, hin⟩, hset⟩, hsend, hloop⟩
  · rw [if_neg hdata] at h
    obtain ⟨p', s1, rsp', s2, hset, hsend, hloop⟩ := hrest h
    exact ⟨p', s1, rsp', s2, ⟨s, .inr ⟨not_not.mp hdata, rfl⟩, hset⟩, hsend, hloop⟩

theorem resends_lanplus : (lanplus K).Resends (resendLoop K) := by
  refine ⟨fun h => ?_, ?_⟩
  · obtain ⟨rfl, rfl⟩ := pure_ok.mp h
    exact ⟨rfl, rfl⟩
  intro fuel p rsp s b s' h
  rw [resendLoop] at h
  obtain ⟨_, _, hget, h⟩ := bind_ok.mp h
  obtain ⟨rfl, rfl⟩ := get_ok.mp hget
  by_cases hagain : rsp = true ∧ s.recvRsp.transferUnavailable = 0 ∧ s.recvRsp.isNack = 0 ∧
      isSolPartialAck s.intf p s.recvRsp ≠ 0
  · rw [if_pos hagain] at h
    exact .inr ⟨hagain.1, by simpa [lanplus] using hagain.2, body_ok h⟩
  · rw [if_neg hagain] at h
    obtain ⟨rfl, rfl⟩ := pure_ok.mp h
    exact .inl ⟨by simpa [lanplus] using hagain, rfl, rfl⟩

/-- `Sends S p₀ s₀ acc p s`: the call of `sendSol` with `p₀` in `s₀` comes to the state `s` with the
packet `p` to send, after the prefixes `acc` of its earlier packets have been accepted. -/
inductive Sends (S : Sender) (p₀ : SolPacket) (s₀ : St) : List (List UInt8) → SolPacket → St → Prop
  | first {p : SolPacket} {s : St} (h : first p₀ s₀ = .ok (p, s)) : Sends S p₀ s₀ [] p s
  | again {acc : List (List UInt8)} {p p' : SolPacket} {s t s' : St} (h : Sends S p₀ s₀ acc p s)
      (hsend : S.send p s = .ok (true, t)) (hagain : S.again p t = true) (hnext : Next p t p' s') :
      Sends S p₀ s₀ (acc ++ [p.data.take t.recvRsp.acceptedCharacterCount.toNat]) p' s'

/-- The next packet has a number that is not zero, unless the session is closed. -/
def Numbered (s : St) : Prop := ∀ ss, s.intf.session = some ss → ss.solSequenceNumber ≠ 0

/-- Once numbered, always numbered. -/
abbrev Numbers : Frame St := Frame.keeps Numbered

/-- The number of a packet stays in its four bits and skips zero. -/
theorem drawn_range {n : UInt8} (hn : n ≠ 0) : 1 ≤ (if 0x0f < n then 1 else n) ∧
    (if 0x0f < n then 1 else n) ≤ 15 ∧ (if 0x0f < n then 1 else n) + 1 ≠ 0 := by
  split_ifs with h
  · decide
  · simp only [UInt8.lt_iff_toNat_lt, UInt8.le_iff_toNat_le, ne_eq, ← UInt8.toNat_inj,
      UInt8.toNat_add] at *
    simp at *
    omega

theorem setSolPacketSequenceNumber_ok {p p' : SolPacket}
    (h : setSolPacketSequenceNumber p s = .ok (p', t)) :
    p'.data = p.data ∧ (Numbered s →
      1 ≤ p'.packetSequenceNumber ∧ p'.packetSequenceNumber ≤ 15 ∧ Numbered t) := by
  unfold setSolPacketSequenceNumber at h
  simp only [bind_ok, theSession_ok, modifySession_ok, pure_ok] at h
  obtain ⟨ss, _, ⟨hss, rfl⟩, _, _, ⟨ss', hss', rfl⟩, rfl, rfl⟩ := h
  refine ⟨rfl, fun hn => ?_⟩
  obtain ⟨h1, h15, hsucc⟩ := drawn_range (hn ss hss)
  refine ⟨h1, h15, fun ss'' hss'' => ?_⟩
  obtain rfl := Option.some.inj hss''
  exact hsucc

theorem Next.ok {p p' : SolPacket} (h : Next p s p' t) :
    p'.data = p.data.drop s.recvRsp.acceptedCharacterCount.toNat ∧ (Numbered s →
      1 ≤ p'.packetSequenceNumber ∧ p'.packetSequenceNumber ≤ 15 ∧ Numbered t) := by
  obtain ⟨u, hu, hset⟩ := h
  obtain ⟨hdata, hnumber⟩ := setSolPacketSequenceNumber_ok hset
  refine ⟨hdata, fun hs => hnumber ?_⟩
  rcases hu with ⟨-, hin⟩ | ⟨-, rfl⟩
  · intro ss hss
    rw [Ipmitool.Lanplus.Rounds.solInputHandler_ok hin] at hss
    exact hs ss hss
  · exact hs

/-- **Nothing is lost or sent twice**, and the numbers are those of the protocol. -/
theorem Sends.exact {S : Sender} (hS : ∀ p, Moves Numbers (S.send p)) {p₀ p : SolPacket} {s₀ s : St}
    {acc : List (List UInt8)} (h : Sends S p₀ s₀ acc p s) (h₀ : Numbered s₀) :
    acc.flatten ++ p.data = p₀.data ∧ 1 ≤ p.packetSequenceNumber ∧ p.packetSequenceNumber ≤ 15 ∧
      Numbered s := by
  induction h with
  | first h =>
    obtain ⟨hdata, hnumber⟩ := setSolPacketSequenceNumber_ok h
    exact ⟨by rw [hdata]; rfl, hnumber h₀⟩
  | @again acc p p' s t s' _ hsend _ hnext ih =>
    obtain ⟨hacc, -, -, hs⟩ := ih
    obtain ⟨hdata, hnumber⟩ := hnext.ok
    refine ⟨?_, hnumber (hS p s true t hsend hs)⟩
    rw [← hacc, hdata]
    simp

/-- Where the loop comes to: the last packet that was sent, and a response that asks for no more. -/
def Ends (S : Sender) (p₀ : SolPacket) (s₀ : St) (b : Bool) (s : St) : Prop :=
  ∃ acc p u, Sends S p₀ s₀ acc p u ∧ S.send p u = .ok (b, s) ∧ ¬ (b = true ∧ S.again p s = true)

/-- The loop ends as it should if some measure shrinks from each resend to the next. -/
theorem Sender.Resends.ends {S : Sender} {loop : ℕ → SolPacket → Bool → M Bool}
    (hloop : S.Resends loop) (hS : ∀ p, Moves Numbers (S.send p)) {p₀ : SolPacket} {s₀ : St}
    (h₀ : Numbered s₀) (size : SolPacket → St → ℕ)
    (hsize : ∀ {p s p' s1 s2}, S.again p s = true → Next p s p' s1 → 1 ≤ p'.packetSequenceNumber →
      S.send p' s1 = .ok (true, s2) → size p' s2 < size p s) :
    ∀ {fuel : ℕ} {acc : List (List UInt8)} {p : SolPacket} {u s s' : St} {rsp b : Bool},
      Sends S p₀ s₀ acc p u → S.send p u = .ok (rsp, s) → (rsp = true → size p s < fuel) →
      loop fuel p rsp s = .ok (b, s') → Ends S p₀ s₀ b s'
  | 0, acc, p, u, s, s', rsp, b, hsends, hsend, hfuel, h => by
    obtain ⟨rfl, rfl⟩ := hloop.zero h
    refine ⟨acc, p, u, hsends, hsend, fun hb => ?_⟩
    exact absurd (hfuel hb.1) (Nat.not_lt_zero _)
  | fuel + 1, acc, p, u, s, s', rsp, b, hsends, hsend, hfuel, h => by
    rcases hloop.succ h with ⟨hstop, rfl, rfl⟩ | ⟨rfl, hagain, p', s1, rsp', s2, hnext,
      hsend', hrest⟩
    · exact ⟨acc, p, u, hsends, hsend, hstop⟩
    · have hf := hfuel rfl
      have hsends' := Sends.again hsends hsend hagain hnext
      refine hloop.ends hS h₀ size hsize hsends' hsend' (fun hr => ?_) hrest
      subst hr
      have := hsize hagain hnext (hsends'.exact hS h₀).2.1 hsend'
      omega

/-! ### The RMCP+ transport -/

section Lanplus
open Ipmitool.Lanplus.Steps Ipmitool.Lanplus.Rounds Ipmitool.Lanplus.Open Ipmitool.Lanplus.Handshake

theorem Numbered.of_map (h : t.intf.session.map Session.solSequenceNumber =
    s.intf.session.map Session.solSequenceNumber) (hs : Numbered s) : Numbered t := by
  intro ss hss
  rw [hss] at h
  obtain ⟨ss', hss', heq⟩ := Option.map_eq_some_iff.mp h.symm
  rw [← heq]
  exact hs ss' hss'

theorem buildV2xMsg_numbered {payload : V2Payload} {seq : UInt8} {packet : List UInt8}
    (h : buildV2xMsg K payload seq s = .ok (packet, t)) (hs : Numbered s) : Numbered t := by
  obtain ⟨ss, length, iv, entropy, hss, -, -, -, rfl⟩ := buildV2xMsg_ok h
  exact Numbered.of_map (by simp [hss]) hs

theorem tame_numbers {cmds : Bool} : Tame K cmds Numbers where
  still h hs := Numbered.of_map h.number hs
  poll h hs := by
    obtain ⟨ss, -, ⟨-, rest, -, rfl⟩ | ⟨-, d, rest, l, r, evs, -, -, -, -, rfl⟩⟩ := pollSingle_ok h
    · exact hs
    · exact hs
  message _ h hs := buildV2xMsg_numbered h hs
  command {req isRetry s x t} _ h hs := by
    obtain ⟨-, hb⟩ := buildV2xIpmiCmd_ok.mp h
    exact buildV2xMsg_numbered hb hs
  oldCommand {req s x t} _ h hs := by
    obtain ⟨ss, -, -, -, rfl⟩ := buildV15IpmiCmd_ok h
    exact hs
  number p s p' t h hs := ((setSolPacketSequenceNumber_ok h).2 hs).2.2

theorem opening_numbers : Opening K Numbers := by
  have hset : ∀ state, Moves Numbers (setState state) := by
    intro state s u s' h hs
    obtain ⟨ss, hss, rfl⟩ := modifySession_ok.mp h
    exact Numbered.of_map (by simp [St.withSession, hss]) hs
  have hF : Exchanging K Numbers := {
    sendPayload := fun payload => by
      refine moves_sendPayload tame_numbers (.inl rfl) ?_
      cases payload with
      | ipmi req => exact .pure _
      | sol p => exact .pure _
      | openRequest msg | rakp1 msg | rakp3 msg => exact hset _
    other := fun hss _ _ _ hs => Numbered.of_map (by rw [hss]) hs
    record := fun e _ => .modify fun s hs => hs
    session := fun hss h hs => Numbered.of_map (by simp [St.withSession, hss, h.number]) hs }
  refine { hF with rakp3 := moves_rakp3 hF (hset _), fresh := ?_, closed := ?_ }
  · intro s t p hss _ _ ss hss'
    obtain rfl := Option.some.inj (hss.symm.trans hss')
    exact (by decide : (1 : UInt8) ≠ 0)
  · intro s t hss _ _ ss hss'
    rw [hss] at hss'
    cases hss'

/-- A use of an RMCP+ interface. -/
inductive Use (K : Primitives) : St → St → Prop
  | «open» {s t : St} {fd : ℤ} (h : «open» K s = .ok (fd, t)) : Use K s t
  | close {s t : St} {x : Unit} (h : close K s = .ok (x, t)) : Use K s t
  | sendIpmiCmd {s t : St} {req : Request} {b : Bool} (h : sendIpmiCmd K req s = .ok (b, t)) :
    Use K s t
  | sendSol {s t : St} {p : SolPacket} {b : Bool} (h : sendSol K p s = .ok (b, t)) : Use K s t
  | recvSol {s t : St} {b : Bool} (h : recvSol K s = .ok (b, t)) : Use K s t
  | keepalive {s t : St} {r : ℤ} (h : keepalive K s = .ok (r, t)) : Use K s t

theorem Use.numbered (h : Use K s t) (hs : Numbered s) : Numbered t := by
  cases h with
  | «open» h => exact moves_open opening_numbers _ _ _ h hs
  | close h => exact moves_close opening_numbers _ _ _ h hs
  | sendIpmiCmd h => exact moves_sendIpmiCmd tame_numbers _ _ _ _ h hs
  | sendSol h => exact moves_sendSol (tame_numbers : Tame K true _) _ _ _ _ h hs
  | recvSol h => exact moves_recvSol (tame_numbers : Tame K true _) _ _ _ h hs
  | keepalive h => exact moves_keepalive tame_numbers _ _ _ h hs

/-- Nothing is put into the inbox. -/
def Drains : Frame St where
  rel s t := t.net.inbox.length ≤ s.net.inbox.length
  refl _ := Nat.le_refl _
  trans h1 h2 := Nat.le_trans h2 h1

theorem tame_drains : Tame K false Drains where
  still h := Nat.le_of_eq (by rw [h.inbox])
  poll h := (pollSingle_inbox h).1
  message _ h := by
    obtain ⟨ss, length, iv, entropy, -, -, -, -, rfl⟩ := buildV2xMsg_ok h
    exact Nat.le_refl _
  command hc := by cases hc
  oldCommand hc := by cases hc
  number p := by
    refine .bind moves_theSession fun ss => .bind ?_ fun _ => .pure _
    intro s x s' h
    obtain ⟨ss', -, rfl⟩ := modifySession_ok.mp h
    exact Nat.le_refl _

theorem recvSol_inbox (h : recvSol K s = .ok (true, t)) :
    t.net.inbox.length < s.net.inbox.length := by
  unfold recvSol at h
  obtain ⟨got, u, hpoll, h⟩ := bind_ok.mp h
  obtain ⟨_, _, hget, h⟩ := bind_ok.mp h
  obtain ⟨rfl, rfl⟩ := get_ok.mp hget
  have hgot : got = true ∧ t.net.inbox.length ≤ u.net.inbox.length := by
    split_ifs at h
    · obtain ⟨_, v, hack, h⟩ := bind_ok.mp h
      obtain ⟨_, w, hcheck, h⟩ := bind_ok.mp h
      obtain ⟨rfl, rfl⟩ := pure_ok.mp h
      exact ⟨rfl, Drains.trans (moves_ackSolPacket tame_drains _ _ _ hack)
        (moves_checkSolPacketForNewData (tame_drains (K := K)) _ _ _ hcheck)⟩
    · obtain ⟨rfl, rfl⟩ := pure_ok.mp h
      exact ⟨rfl, Nat.le_refl _⟩
  obtain ⟨res, hp, hres⟩ := pollRecv_iff.mp hpoll
  have hlt := hp.inbox.2
  have hne : res ≠ .none := by
    rintro rfl
    rw [hgot.1] at hres
    cases hres
  have := hlt hne
  have := hgot.2
  omega

theorem SolWait.inbox {p : SolPacket} {got done : Bool} (h : SolWait p got u done true t) :
    got = true ∧ t.net.inbox = u.net.inbox := by
  cases h with
  | ended h => exact ⟨rfl, rfl⟩
  | @data v hgot _ _ _ hin =>
    rw [solInputHandler_ok hin]
    exact ⟨hgot, rfl⟩
  | other hgot _ _ _ => exact ⟨hgot, rfl⟩

/-- A packet that was answered took the answer out of the inbox. -/
theorem SolRounds.inbox {p : SolPacket} {n : ℕ} {l : Locals} {o : Option Bool}
    (h : SolRounds K p n l s o t) {N : ℕ} (hl : l.rsp = true → s.net.inbox.length < N)
    (hs : s.net.inbox.length ≤ N) (ho : o = some true) : t.net.inbox.length < N := by
  have hsent : ∀ {l l' : Locals} {s t : St}, transmit K (.sol p) l s = .ok (some l', t) →
      t.net.inbox.length ≤ s.net.inbox.length := fun ht =>
    moves_transmit tame_drains (.inr (show IsMessage (.sol _) from trivial)) _ _ _ _ ht
  induction h with
  | exhausted l s => exact hl (Option.some.inj ho)
  | sendFailed ht => cases ho
  | noanswer ht hno =>
    have hrsp := transmit_rsp ht
    rw [Option.some.inj ho] at hrsp
    have := hl hrsp.symm
    have := hsent ht
    omega
  | ended ht hno hrecv hw =>
    obtain rfl := Option.some.inj ho
    obtain ⟨rfl, hin⟩ := SolWait.inbox hw
    have := hsent ht
    have := recvSol_inbox hrecv
    rw [hin]
    omega
  | retried ht hno hrecv hw hx hrest ih =>
    obtain rfl : _ = true := by cases hw with | other hgot _ _ _ => exact hgot
    have h1 := hsent ht
    have h2 := recvSol_inbox hrecv
    have h3 : _ ≤ _ := moves_timedOut (tame_drains (K := K)) _ _ _ _ hx
    refine ih (fun _ => ?_) ?_ ho
    · exact Nat.lt_of_le_of_lt h3 (by omega)
    · exact Nat.le_trans h3 (by omega)

theorem sendPayload_sol_inbox {p : SolPacket} (hp : p.packetSequenceNumber ≠ 0)
    (h : sendPayload K (.sol p) s = .ok (true, t)) : t.net.inbox.length < s.net.inbox.length := by
  obtain ⟨o, u, hrounds, ⟨-, hb, -⟩ | ⟨rfl, ss, timeout, -, rfl⟩⟩ := sendPayload_sol_ok hp h
  · cases hb
  · exact SolRounds.inbox hrounds (fun h => by cases h) (Nat.le_refl _) rfl

theorem moves_send_lanplus (p : SolPacket) : Moves Numbers ((lanplus K).send p) :=
  moves_sendPayload_sol (tame_numbers : Tame K true _) p

theorem Next.inbox {p p' : SolPacket} (h : Next p s p' t) :
    t.net.inbox.length ≤ s.net.inbox.length := by
  obtain ⟨u, hu, hset⟩ := h
  have h1 : t.net.inbox = u.net.inbox := by
    unfold setSolPacketSequenceNumber at hset
    simp only [bind_ok, theSession_ok, modifySession_ok, pure_ok] at hset
    obtain ⟨ss, _, ⟨-, rfl⟩, _, _, ⟨ss', -, rfl⟩, -, rfl⟩ := hset
    rfl
  rw [h1]
  rcases hu with ⟨-, hin⟩ | ⟨-, rfl⟩
  · obtain rfl := solInputHandler_ok hin
    exact Nat.le_refl _
  · exact Nat.le_refl _

/-- **Where `sendSol` comes to**: each resend has taken an acknowledgement out of the inbox. -/
theorem sendSol_lanplus_ends {p₀ : SolPacket} {b : Bool} (h : sendSol K p₀ s = .ok (b, t))
    (hs : Numbered s) : Ends (lanplus K) p₀ s b t := by
  unfold sendSol at h
  obtain ⟨p, u, hfirst, h⟩ := bind_ok.mp h
  obtain ⟨_, _, hget, h⟩ := bind_ok.mp h
  obtain ⟨rfl, rfl⟩ := get_ok.mp hget
  obtain ⟨rsp, v, hsend, h⟩ := bind_ok.mp h
  have hsends : Sends (lanplus K) p₀ s [] p u := .first hfirst
  refine resends_lanplus.ends moves_send_lanplus hs (fun _ s => s.net.inbox.length)
    (fun _ hnext hseq hsend' => ?_) hsends hsend (fun hr => ?_) h
  · have h1 := hnext.inbox
    have h2 := sendPayload_sol_inbox (by rintro h0; rw [h0] at hseq; revert hseq; decide) hsend'
    omega
  · subst hr
    have hseq := (hsends.exact moves_send_lanplus hs).2.1
    have := sendPayload_sol_inbox (by rintro h0; rw [h0] at hseq; revert hseq; decide) hsend
    omega

end Lanplus

/-! ### The IPMI 1.5 transport -/

section Lan
open Ipmitool.Lan.Receive Ipmitool.Lan.Send Ipmitool.Lan.Open Ipmitool.Lan.Steps
  Ipmitool.Lan.Correlation

theorem tame_numbers_lan {cmds : Bool} : Tame cmds Numbers where
  still h hs := Numbered.of_map h.number hs
  command {A req isRetry s x t} _ h hs := by
    obtain ⟨addr, packet⟩ := x
    obtain ⟨ss, e, u, seq, level, hss, -, -, -, -, -, rfl⟩ := buildCmd_ok h
    exact Numbered.of_map (by simp [hss]) hs
  sol h hs := by
    obtain ⟨ss, hss, -, rfl⟩ := buildSolMsg_ok h
    exact Numbered.of_map (by simp [hss]) hs
  number p s p' t h hs := ((setSolPacketSequenceNumber_ok h).2 hs).2.2

theorem opening_numbers_lan : Opening A Numbers where
  exchange req := moves_exchange tame_numbers_lan req
  pollRecv := moves_pollRecv (tame_numbers_lan : Tame true _).receiving
  sendPacket := moves_sendPacket (tame_numbers_lan : Tame true _).toStaying
  other hss _ _ _ hs := Numbered.of_map (by rw [hss]) hs
  session hss h hs := Numbered.of_map (by simp [St.withSession, hss, h.number]) hs
  activation hss hseq hs := Numbered.of_map (by simp [St.withSession, hss, hseq]) hs
  fresh {s t p} hss _ _ := by
    intro ss hss'
    obtain rfl := Option.some.inj (hss.symm.trans hss')
    exact (by decide : (1 : UInt8) ≠ 0)
  closed hss _ _ := by
    intro ss hss'
    rw [hss] at hss'
    cases hss'

theorem Call.numbered (h : Call A s t) (hs : Numbered s) : Numbered t := by
  cases h with
  | sendCmd h => exact moves_sendCmd opening_numbers_lan _ _ _ _ h hs
  | sendSol h => exact moves_sendSol (tame_numbers_lan : Tame true _) _ _ _ _ h hs
  | recvSol h => exact moves_recvSol (tame_numbers_lan : Tame true _) _ _ _ h hs
  | keepalive h => exact moves_keepalive tame_numbers_lan _ _ _ h hs
  | «open» h => exact moves_open opening_numbers_lan _ _ _ h hs
  | close h => exact opening_numbers_lan.moves_close _ _ _ h hs

end Lan

/-! ### Both transports -/

/-- What happens to an interface: it is used, or a handler for the characters of the other side is
set. -/
inductive Happens (U : St → St → Prop) : St → St → Prop
  | use {s t : St} (h : U s t) : Happens U s t
  | handler {s : St} {ss : Session} (b : Bool) (hss : s.intf.session = some ss) :
      Happens U s (s.withSession { ss with solInputHandler := b })

/-- What a call of `sendSol` comes to: every packet of it carries the characters that have not been
accepted yet, under a number of the protocol. -/
def Exact (S : Sender) (sendSol : SolPacket → M Bool) (p₀ : SolPacket) (s₀ : St) : Prop :=
  (∀ acc p s, Sends S p₀ s₀ acc p s →
    acc.flatten ++ p.data = p₀.data ∧ 1 ≤ p.packetSequenceNumber ∧ p.packetSequenceNumber ≤ 15) ∧
  ∀ b t, sendSol p₀ s₀ = .ok (b, t) → Ends S p₀ s₀ b t

/-- The acknowledgement of the first two characters of packet one. -/
def partialAck : List UInt8 :=
  rmcpHdr ++ [authtypeRmcpPlus, ptSol, 0xa4, 0xa3, 0xa2, 0xa0, 0, 0, 0, 0, 4, 0, 0, 1, 2, 0]

/-- The uses: a session with suite zero, and four characters of which two are accepted at first. -/
def typed : M Bool := do
  let _ ← Ipmitool.Lanplus.Open.«open» (Primitives.tabled [])
  sendSol (Primitives.tabled []) { data := [1, 2, 3, 4] }

end Ipmitool.Sol.Resend
