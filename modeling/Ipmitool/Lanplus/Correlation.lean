import Ipmitool.Lanplus.Steps

/-! # The answer to a command

A command that starts with an empty request list has one entry on it at a time. `Held` is the fate
of that entry while packets arrive, `Answered` its end: a packet with its number and command came,
and the entry left the list with it. `IpmiRounds.answered` carries this through the retries.

Some packets are handed to whoever waits, whatever was asked: a pong, a message of the handshake, a
serial-over-LAN packet. `Undisturbed` says that none came. -/

namespace Ipmitool.Lanplus.Correlation

open Ipmitool.Lib.Mem Ipmitool.Lib.Machine Ipmitool.Core.Types Ipmitool.Core.Network
open Ipmitool.Crypto.Mac Ipmitool.Lanplus.State Ipmitool.Lanplus.Receive Ipmitool.Lanplus.Build
open Ipmitool.Lanplus.Send Ipmitool.Lanplus.Poll Ipmitool.Lanplus.Rounds Ipmitool.Lanplus.Steps

variable {K : Primitives} {s s' t : St} {req : Request}

/-! ### Disturbances -/

/-- Is this the event of a packet that is handed to whoever waits? -/
def interrupts : Event → Bool
  | .pong supported => supported
  | .openResponse | .rakp2 | .rakp4 | .solReceived _ _ _ => true
  | _ => false

theorem Spoken.interrupts {st : SessionState} {e : Event} (h : Spoken st e) :
    interrupts e = true := by
  cases h <;> rfl

/-- Between the two states no such packet came. -/
abbrev Undisturbed : St → St → Prop := Since fun e => interrupts e = false

/-! ### One poll -/

/-- The entry that an event removed. -/
def Event.entry? : Event → Option Entry
  | .removed e => some e
  | _ => none

/-- The entries that have left the list so far. -/
def gone (s : St) : List Entry := s.trace.filterMap Event.entry?

/-- The entry `e`, sent after `g` had left the list: it is still there, perhaps with fewer envelopes
to peel, or it was the last one to leave. -/
def Held (e : Entry) (g : List Entry) (s : St) : Prop :=
  ∃ e', Peels e e' ∧
    ((s.reqEntries = [e'] ∧ gone s = g) ∨ (s.reqEntries = [] ∧ gone s = g ++ [e']))

/-- The entry `e` has been answered. -/
def Answered (e : Entry) (g : List Entry) (s : St) : Prop :=
  ∃ e', Peels e e' ∧ s.reqEntries = [] ∧ gone s = g ++ [e'] ∧ s.recvRsp.rqSeq = e'.rqSeq ∧
    s.recvRsp.cmd = e'.req.cmd

theorem Answered.held {e : Entry} {g : List Entry} (h : Answered e g s) : Held e g s := by
  obtain ⟨e', hp, hl, hg, -⟩ := h
  exact ⟨e', hp, .inr ⟨hl, hg⟩⟩

theorem gone_handled {rest : List (Option (List UInt8))} {l : List Entry} {r : Response}
    {evs : List Event} : gone (handled s rest l r evs) = gone s ++ evs.filterMap Event.entry? := by
  simp [gone, handled]

theorem gone_missed {rest : List (Option (List UInt8))} : gone (missed s rest) = gone s := by
  simp [gone, missed, Event.entry?]

theorem pollSingle_empty {res : PollResult} (h : pollSingle K s = .ok (res, t))
    (hl : s.reqEntries = []) (hu : Undisturbed s t) :
    res ≠ .got ∧ t.reqEntries = [] ∧ gone t = gone s := by
  obtain ⟨ss, -, ⟨rfl, rest, -, rfl⟩ | ⟨-, d, rest, l, r, evs, -, -, -, hh, rfl⟩⟩ := pollSingle_ok h
  · exact ⟨by decide, hl, gone_missed⟩
  · rw [gone_handled]
    have hcalm : ∀ e ∈ evs, interrupts e = false := fun e he => hu.of_events rfl he
    rw [hl] at hh
    rcases handlePacket_cases hh with ⟨b, rfl, rfl, rfl, rfl⟩ | ⟨rfl, rfl, rfl⟩ | ⟨rfl, rfl, rfl⟩ |
      ⟨r1, o, n, -, -, hloop⟩ | ⟨x, rfl, rfl, rfl, hx⟩
    · obtain rfl : b = false := hcalm _ (List.mem_singleton.mpr rfl)
      exact ⟨by decide, rfl, by simp [Event.entry?]⟩
    · exact ⟨by decide, rfl, by simp⟩
    · exact ⟨by decide, rfl, by simp [Event.entry?]⟩
    · obtain ⟨rfl, rfl, rfl⟩ := ipmiLoop_nil hloop
      exact ⟨by decide, rfl, by simp⟩
    · have := hcalm x (List.mem_singleton.mpr rfl)
      rw [Spoken.interrupts hx] at this
      cases this

/-- **One poll and the entry of a command.** -/
theorem pollSingle_held {e : Entry} {g : List Entry} {res : PollResult}
    (h : pollSingle K s = .ok (res, t)) (hs : Held e g s) (hu : Undisturbed s t) :
    (res = .got ∧ Answered e g t) ∨ (res ≠ .got ∧ Held e g t) := by
  obtain ⟨e', hp, ⟨hl, hg⟩ | ⟨hl, hg⟩⟩ := hs
  · obtain ⟨ss, -, ⟨rfl, rest, -, rfl⟩ | ⟨-, d, rest, l, r, evs, -, -, -, hh, rfl⟩⟩ :=
      pollSingle_ok h
    · exact .inr ⟨by decide, e', hp, .inl ⟨hl, by rw [gone_missed, hg]⟩⟩
    · have hcalm : ∀ e ∈ evs, interrupts e = false := fun e he => hu.of_events rfl he
      rw [hl] at hh
      rcases handlePacket_cases hh with ⟨b, rfl, rfl, rfl, rfl⟩ | ⟨rfl, rfl, rfl⟩ |
        ⟨rfl, rfl, rfl⟩ | ⟨r1, o, n, -, -, hloop⟩ | ⟨x, rfl, rfl, rfl, hx⟩
      · obtain rfl : b = false := hcalm _ (List.mem_singleton.mpr rfl)
        exact .inr ⟨by decide, e', hp, .inl ⟨rfl, by rw [gone_handled]; simp [Event.entry?, hg]⟩⟩
      · exact .inr ⟨by decide, e', hp, .inl ⟨rfl, by rw [gone_handled]; simp [hg]⟩⟩
      · exact .inr ⟨by decide, e', hp, .inl ⟨rfl, by rw [gone_handled]; simp [Event.entry?, hg]⟩⟩
      · rcases ipmiLoop_single (by simp [rounds]) hloop with hp' | hp' | ⟨hp', hseq, hcmd⟩
        · exact .inr ⟨by decide, _, hp.trans hp', .inl ⟨rfl, by rw [gone_handled]; simp [hg]⟩⟩
        · exact .inr ⟨by decide, _, hp.trans hp', .inr ⟨rfl, by
            rw [gone_handled]; simp [Event.entry?, hg]⟩⟩
        · exact .inl ⟨rfl, _, hp.trans hp', rfl, by rw [gone_handled]; simp [Event.entry?, hg],
            hseq, hcmd⟩
      · have := hcalm x (List.mem_singleton.mpr rfl)
        rw [Spoken.interrupts hx] at this
        cases this
  · obtain ⟨hres, hl', hg'⟩ := pollSingle_empty h hl hu
    exact .inr ⟨hres, e', hp, .inr ⟨hl', hg'.trans hg⟩⟩

/-! ### The wait -/

theorem Awaits.kept {b : Bool} (h : Awaits K s b s') : Kept s s' := by
  induction h with
  | missed h | got h _ => exact pollSingle_kept h
  | skip h _ ih | duplicate h _ _ ih => exact (pollSingle_kept h).trans ih

theorem IpmiRounds.kept {n : ℕ} {l : Locals} {o : Option Bool}
    (h : IpmiRounds K req n l s o s') : Kept s s' := by
  induction h with
  | exhausted l s => exact .refl s
  | sendFailed ht | noanswer ht _ => exact Run.kept (moves_transmit tame_run (.inl rfl) _ _ _ _ ht)
  | answered ht _ ha =>
    exact (Run.kept (moves_transmit tame_run (.inl rfl) _ _ _ _ ht)).trans (Awaits.kept ha)
  | retried ht _ ha _ hr hx _ ih =>
    exact ((Run.kept (moves_transmit tame_run (.inl rfl) _ _ _ _ ht)).trans (Awaits.kept ha)).trans
      (((Run.kept (moves_removeEntry (K := K) tame_run _ _ _ _ hr)).trans
        (Run.kept (moves_timedOut (K := K) tame_run _ _ _ _ hx))).trans ih)

theorem Awaits.held {e : Entry} {g : List Entry} {b : Bool} (h : Awaits K s b s')
    (hs : Held e g s) (hu : Undisturbed s s') :
    (b = true ∧ Answered e g s') ∨ (b = false ∧ Held e g s') := by
  induction h with
  | missed h =>
    rcases pollSingle_held h hs hu with ⟨h1, -⟩ | ⟨-, h1⟩
    · cases h1
    · exact .inr ⟨rfl, h1⟩
  | got h _ =>
    rcases pollSingle_held h hs hu with ⟨-, h1⟩ | ⟨h1, -⟩
    · exact .inl ⟨rfl, h1⟩
    · exact absurd rfl h1
  | skip h hrest ih =>
    obtain ⟨hu1, hu2⟩ := hu.split (pollSingle_kept h).grows (Awaits.kept hrest).grows
    rcases pollSingle_held h hs hu1 with ⟨h1, -⟩ | ⟨-, h1⟩
    · cases h1
    · exact ih h1 hu2
  | duplicate h _ hrest ih =>
    -- the answer has taken the entry with it, but the wait goes on
    obtain ⟨hu1, hu2⟩ := hu.split (pollSingle_kept h).grows (Awaits.kept hrest).grows
    rcases pollSingle_held h hs hu1 with ⟨-, h1⟩ | ⟨h1, -⟩
    · exact ih h1.held hu2
    · exact absurd rfl h1

theorem Awaits.empty {b : Bool} (h : Awaits K s b s') (hl : s.reqEntries = [])
    (hu : Undisturbed s s') : b = false ∧ s'.reqEntries = [] := by
  induction h with
  | missed h => exact ⟨rfl, (pollSingle_empty h hl hu).2.1⟩
  | got h _ => exact absurd rfl (pollSingle_empty h hl hu).1
  | skip h hrest ih | duplicate h _ hrest ih =>
    obtain ⟨hu1, hu2⟩ := hu.split (pollSingle_kept h).grows (Awaits.kept hrest).grows
    exact ih (pollSingle_empty h hl hu1).2.1 hu2

/-! ### The rounds of a command -/

/-- The entry of a command: a bridged one is known by the Send Message command. -/
def Asks (req : Request) (e : Entry) : Prop := e.req = entryRequest e.bridgingLevel req

theorem gone_append {evs : List Event} (htr : t.trace = s.trace ++ evs)
    (hevs : ∀ e ∈ evs, Event.entry? e = none) : gone t = gone s := by
  have : evs.filterMap Event.entry? = [] := List.filterMap_eq_nil_iff.mpr hevs
  simp [gone, htr, this]

/-- A transmission puts the entry of the command on the list. -/
theorem transmit_request {l l' : Locals} (h : transmit K (.ipmi req) l s = .ok (some l', t))
    (hx : l.xmit = true) : ∃ e, Asks req e ∧ e.addr = s.nextAddr ∧ l'.entry = some e.addr ∧
      l'.rsp = l.rsp ∧ t.reqEntries = s.reqEntries ++ [e] ∧ t.nextAddr = s.nextAddr + 1 ∧
      gone t = gone s := by
  rcases transmit_ok h with ⟨hx', -, -⟩ | ⟨-, entry, packet, u, hb, rfl, ho⟩
  · rw [hx] at hx'; cases hx'
  split_ifs at ho
  obtain rfl := Option.some.inj ho
  obtain ⟨ss, addr, hss, rfl, ⟨-, hb⟩ | ⟨-, hb⟩⟩ := buildPayload_ipmi_ok hb
  · obtain ⟨ss', -, rfl, -, rfl⟩ := buildV15IpmiCmd_ok hb
    refine ⟨⟨s.nextAddr, req, 0, 0⟩, rfl, rfl, rfl, rfl, rfl, rfl, gone_append rfl ?_⟩
    simp [Event.entry?]
  · obtain ⟨rfl, hmsg⟩ := buildV2xIpmiCmd_ok.mp hb
    obtain ⟨ss', length, iv, entropy, -, -, -, -, rfl⟩ := buildV2xMsg_ok hmsg
    refine ⟨_, ?_, rfl, rfl, rfl, rfl, rfl, gone_append rfl ?_⟩
    · rfl
    · simp [builtEvents, Event.entry?]

theorem Net.send_fails {n : Net} {p : List UInt8} (h : (n.send p).1 = false) :
    true ∈ n.sendFails := by
  unfold Net.send at h
  split at h
  · cases h
  · rename_i b rest hn
    rw [hn]
    obtain rfl : b = true := by simpa using h
    exact List.mem_cons_self

theorem transmit_fails {payload : V2Payload} {l : Locals}
    (h : transmit K payload l s = .ok (none, t)) : true ∈ s.net.sendFails := by
  rcases transmit_ok h with ⟨-, ho, -⟩ | ⟨-, entry, packet, u, hb, -, ho⟩
  · cases ho
  · have hfails : u.net.sendFails <:+ s.net.sendFails := by
      have := (Run.kept (buildPayload_rel tame_run (.inl rfl) hb)).sendFails
      rwa [Net.time_sendFails] at this
    split_ifs at ho with hsent
    exact hfails.subset (Net.send_fails (by simpa using hsent))

/-- **The response that a call handed back**: it carries the number and the command of an entry that
the call put on the list, and that entry left the list once. -/
def Answers (req : Request) (s s' : St) : Prop :=
  ∃ e e' earlier, Asks req e ∧ s.nextAddr ≤ e.addr ∧ Peels e e' ∧
    s'.recvRsp.rqSeq = e'.rqSeq ∧ s'.recvRsp.cmd = e'.req.cmd ∧
    gone s' = gone s ++ earlier ++ [e'] ∧ (∀ x ∈ earlier, x.addr ≠ e.addr) ∧ s'.reqEntries = []

theorem Awaits.nextAddr {b : Bool} (h : Awaits K s b s') : s'.nextAddr = s.nextAddr := by
  have hpoll : ∀ {s t : St} {res : PollResult}, pollSingle K s = .ok (res, t) →
      t.nextAddr = s.nextAddr := by
    intro s t res h
    obtain ⟨ss, -, ⟨-, rest, -, rfl⟩ | ⟨-, d, rest, l, r, evs, -, -, -, -, rfl⟩⟩ := pollSingle_ok h
    · rfl
    · rfl
  induction h with
  | missed h | got h _ => exact hpoll h
  | skip h _ ih | duplicate h _ _ ih => exact ih.trans (hpoll h)

/-- A round with a transmission: the entry of the round is answered, or it is still held. -/
theorem round_transmitted {l l' : Locals} {b : Bool}
    (ht : transmit K (.ipmi req) l s = .ok (some l', t)) (hx : l.xmit = true)
    (ha : Awaits K t b s') (hl : s.reqEntries = []) (hu : Undisturbed s s') :
    ∃ e, Asks req e ∧ e.addr = s.nextAddr ∧ l'.entry = some e.addr ∧
      s'.nextAddr = s.nextAddr + 1 ∧
      ((b = true ∧ Answered e (gone s) s') ∨ (b = false ∧ Held e (gone s) s')) := by
  obtain ⟨-, hu2⟩ :=
    hu.split (Run.kept (moves_transmit tame_run (.inl rfl) _ _ _ _ ht)).grows (Awaits.kept ha).grows
  obtain ⟨e, hasks, haddr, hentry, -, hlist, hnext, hgone⟩ := transmit_request ht hx
  have hheld : Held e (gone s) t := ⟨e, .refl e, .inl ⟨by rw [hlist, hl]; rfl, hgone⟩⟩
  exact ⟨e, hasks, haddr, hentry, (Awaits.nextAddr ha).trans hnext, Awaits.held ha hheld hu2⟩

/-- A round without one: nothing can come, and the pointer to the entry dangles. -/
theorem round_silent {l l' : Locals} {b : Bool}
    (ht : transmit K (.ipmi req) l s = .ok (some l', t)) (hx : l.xmit = false)
    (ha : Awaits K t b s') (hl : s.reqEntries = []) (hu : Undisturbed s s') :
    b = false ∧ s'.reqEntries = [] := by
  rcases transmit_ok ht with ⟨-, -, rfl⟩ | ⟨hx', -⟩
  · exact Awaits.empty ha hl hu
  · rw [hx] at hx'; cases hx'

theorem removeEntry_held {e : Entry} {g : List Entry} {addr : ℕ} {u : Unit}
    (h : removeEntry addr s = .ok (u, s')) (hs : Held e g s) :
    ∃ e', Peels e e' ∧ s'.reqEntries = [] ∧ gone s' = g ++ [e'] := by
  obtain ⟨x, hx, rfl⟩ := removeEntry_ok.mp h
  obtain ⟨e', hp, ⟨hl, hg⟩ | ⟨hl, -⟩⟩ := hs
  · rw [hl, List.find?_cons] at hx
    split at hx
    · obtain rfl := Option.some.inj hx
      have hkey : Entry.hasKey e'.rqSeq e'.req.cmd e' = true := by simp [Entry.hasKey]
      refine ⟨e', hp, by simp [hl, reqRemoveEntry, hkey], ?_⟩
      simp only [gone] at hg
      simp [gone, hl, reqLookupEntry, hkey, Event.entry?, hg]
    · cases hx
  · rw [hl] at hx
    cases hx

/-- **The rounds of a command**, from an empty request list. -/
theorem IpmiRounds.answers {n : ℕ} {l : Locals} {o : Option Bool}
    (h : IpmiRounds K req n l s o s') (hl : s.reqEntries = []) (hrsp : l.rsp = false)
    (hno : s.intf.noanswer = false) (hu : Undisturbed s s') :
    o = none ∨ (o = some false ∧ s'.reqEntries = []) ∨ (o = some true ∧ Answers req s s') := by
  induction h with
  | exhausted l s => exact .inr (.inl ⟨by rw [hrsp], hl⟩)
  | sendFailed ht => exact .inl rfl
  | noanswer ht hno' =>
    have := (Run.kept (moves_transmit tame_run (.inl rfl) _ _ _ _ ht)).noanswer
    rw [hno, hno'] at this
    cases this
  | @answered n l l' s t s' ht _ ha =>
    cases hx : l.xmit with
    | true =>
      obtain ⟨e, hasks, haddr, -, -, ⟨-, hans⟩ | ⟨h1, -⟩⟩ := round_transmitted ht hx ha hl hu
      · obtain ⟨e', hp, hl', hg, hseq, hcmd⟩ := hans
        exact .inr (.inr ⟨rfl, e, e', [], hasks, Nat.le_of_eq haddr.symm, hp, hseq, hcmd,
          by simpa using hg,
          by simp, hl'⟩)
      · cases h1
    | false => exact absurd (round_silent ht hx ha hl hu).1 (by decide)
  | @retried n l l' s t u v w s' addr x o ht _ ha hentry hr htime hrest ih =>
    have hk1 : Kept s u :=
      (Run.kept (moves_transmit tame_run (.inl rfl) _ _ _ _ ht)).trans (Awaits.kept ha)
    have hk2 : Kept u w := (Run.kept (moves_removeEntry (K := K) tame_run addr _ _ _ hr)).trans
      (Run.kept (moves_timedOut (K := K) tame_run _ _ _ _ htime))
    have hk3 : Kept w s' := IpmiRounds.kept hrest
    obtain ⟨hu1, -⟩ := hu.split hk1.grows (hk2.trans hk3).grows
    obtain ⟨-, hu3⟩ := hu.split (hk1.trans hk2).grows hk3.grows
    have hno' : w.intf.noanswer = false := by rw [(hk1.trans hk2).noanswer, hno]
    cases hx : l.xmit with
    | true =>
      obtain ⟨e, -, haddr, -, hnext, ⟨h1, -⟩ | ⟨-, hheld⟩⟩ := round_transmitted ht hx ha hl hu1
      · cases h1
      · obtain ⟨e', hp, hl', hg⟩ := removeEntry_held hr hheld
        obtain ⟨ss, timeout, -, -, hw⟩ := timedOut_ok htime
        obtain ⟨x', -, hv⟩ := removeEntry_ok.mp hr
        have hlw : w.reqEntries = [] := by rw [hw]; exact hl'
        have hgw : gone w = gone s ++ [e'] := by rw [hw]; exact hg
        have hnw : w.nextAddr = s.nextAddr + 1 := by rw [hw, ← hv]; exact hnext
        rcases ih hlw rfl hno' hu3 with h1 | h1 | ⟨h1, e2, e2', earlier, hasks, hge,
          hp2, hseq, hcmd, hg2, hearlier, hl2⟩
        · exact .inl h1
        · exact .inr (.inl h1)
        · refine .inr (.inr ⟨h1, e2, e2', e' :: earlier, hasks, by omega, hp2, hseq, hcmd, ?_, ?_,
            hl2⟩)
          · rw [hg2, hgw]
            simp
          · intro y hy
            rcases List.mem_cons.mp hy with rfl | hy
            · have := hp.addr_eq
              omega
            · exact hearlier y hy
    | false =>
      -- the entry of the last round has left the list, so the second removal is a fault
      obtain ⟨-, hl'⟩ := round_silent ht hx ha hl hu1
      obtain ⟨y, hy, -⟩ := removeEntry_ok.mp hr
      rw [hl'] at hy
      cases hy

theorem IpmiRounds.fails {n : ℕ} {l : Locals} {o : Option Bool} (h : IpmiRounds K req n l s o s')
    (ho : o = none) : true ∈ s.net.sendFails := by
  induction h with
  | exhausted l s => cases ho
  | sendFailed ht => exact transmit_fails ht
  | noanswer ht _ => cases ho
  | answered ht _ ha => cases ho
  | retried ht _ ha _ hr hx _ ih =>
    have hk :=
      ((Run.kept (moves_transmit tame_run (.inl rfl) _ _ _ _ ht)).trans (Awaits.kept ha)).trans
        ((Run.kept (moves_removeEntry (K := K) tame_run _ _ _ _ hr)).trans
          (Run.kept (moves_timedOut (K := K) tame_run _ _ _ _ hx)))
    exact hk.sendFails.subset (ih ho)

/-- A command can be answered rightly: nothing is outstanding, an answer is waited for and no send
fails. -/
structure Ready (s : St) : Prop where
  empty : s.reqEntries = []
  noanswer : s.intf.noanswer = false
  sends : true ∉ s.net.sendFails

/-- **A command**, from a state that is ready: it leaves a state that is ready, and a response that
it hands back is its answer. -/
theorem sendIpmiCmd_answers {b : Bool} (h : sendIpmiCmd K req s = .ok (b, s')) (hs : Ready s)
    (hu : Undisturbed s s') : Ready s' ∧ (b = true → Answers req s s') := by
  have hk := Run.kept (moves_sendIpmiCmd tame_run req _ _ _ h)
  have hno : s'.intf.noanswer = false := hk.noanswer.trans hs.noanswer
  have hsends : true ∉ s'.net.sendFails := fun h => hs.sends (hk.sendFails.subset h)
  obtain ⟨o, t, hr, ⟨rfl, -, -⟩ | ⟨rfl, ss, timeout, -, rfl⟩⟩ := sendPayload_ipmi_ok h
  · exact absurd (IpmiRounds.fails hr rfl) hs.sends
  · have hu' : Undisturbed s t := hu
    rcases IpmiRounds.answers hr hs.empty rfl hs.noanswer hu' with h1 | ⟨h1, hl⟩ | ⟨h1, hans⟩
    · cases h1
    · obtain rfl := Option.some.inj h1
      exact ⟨⟨hl, hno, hsends⟩, fun h => by cases h⟩
    · obtain ⟨e, e', earlier, ha⟩ := id hans
      exact ⟨⟨ha.2.2.2.2.2.2.2, hno, hsends⟩, fun _ => hans⟩

/-! ### Runs of commands -/

theorem IpmiRounds.unanswered {n : ℕ} {l : Locals} {o : Option Bool}
    (h : IpmiRounds K req n l s o s') (hrsp : l.rsp = false) (hno : s.intf.noanswer = true) :
    o ≠ some true := by
  induction h with
  | exhausted l s => rw [hrsp]; simp
  | sendFailed ht => simp
  | noanswer ht _ =>
    rcases transmit_ok ht with ⟨-, ho, -⟩ | ⟨-, entry, packet, u, -, -, ho⟩
    · obtain rfl := Option.some.inj ho
      rw [hrsp]; simp
    · split_ifs at ho
      obtain rfl := Option.some.inj ho
      simp [hrsp]
  | answered ht hno' _ | retried ht hno' _ _ _ _ _ _ =>
    have := (Run.kept (moves_transmit tame_run (.inl rfl) _ _ _ _ ht)).noanswer
    rw [hno, hno'] at this
    cases this

theorem sendIpmiCmd_noanswer {b : Bool} (h : sendIpmiCmd K req s = .ok (b, s'))
    (hno : s.intf.noanswer = true) : b = false := by
  obtain ⟨o, t, hr, ⟨rfl, rfl, -⟩ | ⟨rfl, -⟩⟩ := sendPayload_ipmi_ok h
  · rfl
  · have := IpmiRounds.unanswered hr rfl hno
    cases b with
    | true => exact absurd rfl this
    | false => rfl

/-- A use of an open interface in which no command is disturbed. -/
inductive Call (K : Primitives) : St → St → Prop
  | sendIpmiCmd {s t : St} {req : Request} {b : Bool} (h : sendIpmiCmd K req s = .ok (b, t))
      (hu : Undisturbed s t) : Call K s t
  | keepalive {s t : St} {r : ℤ} (h : keepalive K s = .ok (r, t))
    (hu : Undisturbed s t) : Call K s t
  | sendSol {s t : St} {p : SolPacket} {b : Bool} (h : sendSol K p s = .ok (b, t)) : Call K s t
  | recvSol {s t : St} {b : Bool} (h : recvSol K s = .ok (b, t)) : Call K s t

theorem Ready.idle (hs : Ready s) (h : (RunOf K false).rel s t) : Ready t where
  empty := RunOf.entries h hs.empty
  noanswer := (RunOf.kept h).noanswer.trans hs.noanswer
  sends := fun hf => hs.sends ((RunOf.kept h).sendFails.subset hf)

theorem keepalive_ready {r : ℤ} (h : keepalive K s = .ok (r, t)) (hs : Ready s)
    (hu : Undisturbed s t) : Ready t := by
  unfold keepalive at h
  obtain ⟨_, _, hget, h⟩ := bind_ok.mp h
  obtain ⟨rfl, rfl⟩ := get_ok.mp hget
  by_cases hopen : s.intf.session.isNone = true
  · rw [if_pos hopen] at h
    obtain ⟨-, rfl⟩ := pure_ok.mp h
    exact hs
  · rw [if_neg hopen] at h
    obtain ⟨rsp, u, hcmd, h⟩ := bind_ok.mp h
    have hidle : (RunOf K false).rel u t := by
      refine (?_ : Moves (RunOf K false) _) _ _ _ h
      refine .bind .get fun s => .bind (moves_keepaliveLoop tame_runOf _ _) fun o => ?_
      rcases o with _ | rsp
      · exact .pure _
      · exact .bind .get fun s => .pure _
    obtain ⟨hu1, -⟩ := hu.split (Run.kept (moves_sendIpmiCmd tame_run _ _ _ _ hcmd)).grows
      (RunOf.kept hidle).grows
    exact (sendIpmiCmd_answers hcmd hs hu1).1.idle hidle

/-- **Nothing stays outstanding** between the uses. -/
theorem Call.ready (h : Call K s t) (hs : Ready s) : Ready t := by
  cases h with
  | sendIpmiCmd h hu => exact (sendIpmiCmd_answers h hs hu).1
  | keepalive h hu => exact keepalive_ready h hs hu
  | sendSol h => exact hs.idle (moves_sendSol tame_runOf _ _ _ _ h)
  | recvSol h => exact hs.idle (moves_recvSol tame_runOf _ _ _ h)

theorem Call.kept (h : Call K s t) : Kept s t := by
  cases h with
  | sendIpmiCmd h _ => exact Run.kept (moves_sendIpmiCmd tame_run _ _ _ _ h)
  | keepalive h _ => exact Run.kept (moves_keepalive tame_run _ _ _ h)
  | sendSol h => exact Run.kept (moves_sendSol tame_run _ _ _ _ h)
  | recvSol h => exact Run.kept (moves_recvSol tame_run _ _ _ h)

theorem calls_ready (h : Relation.ReflTransGen (Call K) s t) (hs : Ready s) : Ready t := by
  induction h with
  | refl => exact hs
  | tail _ hcall ih => exact hcall.ready ih

theorem calls_kept (h : Relation.ReflTransGen (Call K) s t) : Kept s t := by
  induction h with
  | refl => exact .refl s
  | tail _ hcall ih => exact ih.trans hcall.kept

/-- **After any uses**, an undisturbed command hands back its own answer. -/
theorem calls_answer {b : Bool} (h : Relation.ReflTransGen (Call K) s t) (hl : s.reqEntries = [])
    (hsends : true ∉ s.net.sendFails) (hcmd : sendIpmiCmd K req t = .ok (b, s'))
    (hu : Undisturbed t s') (hb : b = true) : Answers req t s' := by
  cases hno : s.intf.noanswer with
  | true =>
    have hno' : t.intf.noanswer = true := (calls_kept h).noanswer.trans hno
    rw [sendIpmiCmd_noanswer hcmd hno'] at hb
    cases hb
  | false => exact (sendIpmiCmd_answers hcmd (calls_ready h ⟨hl, hno, hsends⟩) hu).2 hb

end Ipmitool.Lanplus.Correlation
