import Ipmitool.Lanplus.Handshake
import Mathlib.Data.List.Chain
import Mathlib.Data.List.GetD

/-! # The sequence numbers of a run

The counter of a session numbers the packets that are built while it is active. A step either leaves
the counter alone and builds nothing, or it builds one packet with the number of the counter and
moves it on (`Beat`). So in whatever order a run builds its packets, each is followed by the next
number (`Lawful`), and the counter is the number that is due (`Sound`).

The RMCP+ transport has one exception: a packet in IPMI 1.5 format carries the counter without
moving it. -/

namespace Ipmitool.Lanplus.Counting

open Ipmitool.Lib.Mem Ipmitool.Lib.Bytes Ipmitool.Lib.Machine Ipmitool.Core.Types
  Ipmitool.Core.Network
open Ipmitool.Crypto.Mac Ipmitool.Lanplus.State Ipmitool.Lanplus.Receive Ipmitool.Lanplus.Build
open Ipmitool.Lanplus.Send Ipmitool.Lanplus.Poll Ipmitool.Lanplus.Rounds Ipmitool.Lanplus.Steps
open Ipmitool.Lanplus.Open Ipmitool.Lanplus.Handshake

variable {K : Primitives} {s s' t u : St}

/-! ### Numbered packets -/

/-- How a transport numbers its packets: the sessions whose packets are numbered, their counter,
where a packet has its number, and which number may follow it. A session that is active has `proper`
packets, another one has `idle` packets, and outside `open` a session is `ready`. -/
structure Numbering where
  live : Session → Prop
  ready : Session → Prop
  counter : Session → UInt32
  number : List UInt8 → UInt32
  follows : List UInt8 → UInt32 → Prop
  proper : List UInt8 → Prop
  idle : List UInt8 → Prop

variable {N : Numbering}

/-- **The law of a history**: the packets of active sessions are proper and the others idle, each
packet of an active session that comes directly behind another has a number that may follow, and the
request sequence numbers have six bits. -/
structure Lawful (N : Numbering) (trace : List Event) : Prop where
  proper : ∀ packet, (true, packet) ∈ packets trace → N.proper packet
  idle : ∀ packet, (false, packet) ∈ packets trace → N.idle packet
  chain : (packets trace).IsChain fun x y => x.1 = true → y.1 = true → N.follows x.2 (N.number y.2)
  rqSeq : ∀ active packet seq, Event.built active packet (some seq) ∈ trace → seq < 64

theorem lawful_nil : Lawful N [] :=
  ⟨fun _ h => absurd h List.not_mem_nil, fun _ h => absurd h List.not_mem_nil, .nil,
    fun _ _ _ h => absurd h List.not_mem_nil⟩

theorem packets_removed (gone : List Entry) : packets (gone.map .removed) = [] := by
  refine List.filterMap_eq_nil_iff.mpr fun e he => ?_
  obtain ⟨x, -, rfl⟩ := List.mem_map.mp he
  rfl

/-- The counter of an active session is the number that is due. -/
def Due (N : Numbering) (s : St) : Prop := ∀ ss, s.intf.session = some ss → N.live ss →
  N.counter ss ≠ 0 ∧ ∀ packet, (packets s.trace).getLast? = some (true, packet) →
    N.follows packet (N.counter ss)

/-- The invariant of a run. -/
structure Sound (N : Numbering) (s : St) : Prop where
  lawful : Lawful N s.trace
  ready : ∀ ss, s.intf.session = some ss → N.ready ss
  due : Due N s

theorem built_not_mem {evs : List Event} (h : packets evs = []) {active : Bool}
    {packet : List UInt8}
    {seq : Option UInt8} : Event.built active packet seq ∉ evs := by
  intro hmem
  exact absurd (List.filterMap_eq_nil_iff.mp h _ hmem) (Option.some_ne_none _)

/-- A step builds nothing. -/
structure Silent (N : Numbering) (s t : St) : Prop where
  counter : t.intf.session.map N.counter = s.intf.session.map N.counter
  live : ∀ ss', t.intf.session = some ss' → N.live ss' → ∀ ss, s.intf.session = some ss → N.live ss
  ready : ∀ ss', t.intf.session = some ss' → ∀ ss, s.intf.session = some ss →
    N.ready ss → N.ready ss'
  trace : ∃ evs, t.trace = s.trace ++ evs ∧ packets evs = []

/-- A step builds a packet with the number of the counter, if the session is active. -/
structure Counts (N : Numbering) (s t : St) (ss ss' : Session) (active : Bool) (packet : List UInt8)
    (seq : Option UInt8) : Prop where
  before : s.intf.session = some ss
  after : t.intf.session = some ss'
  activity : active = true ↔ N.live ss
  live : N.live ss' → N.live ss
  ready : N.ready ss → N.ready ss'
  idle : active = false → N.ready ss → N.idle packet
  number : active = true → N.number packet = N.counter ss
  proper : active = true → N.counter ss ≠ 0 → N.proper packet
  follows : active = true → N.counter ss ≠ 0 → N.follows packet (N.counter ss')
  counter : N.counter ss ≠ 0 → N.counter ss' ≠ 0
  rqSeq : ∀ n, seq = some n → n < 64
  trace : ∃ evs, t.trace = s.trace ++ .built active packet seq :: evs ∧ packets evs = []

/-- **What a step does to the counter.** -/
inductive Beat (N : Numbering) (s t : St) : Prop
  | silent (h : Silent N s t)
  | counts {ss ss' : Session} {active : Bool} {packet : List UInt8} {seq : Option UInt8}
      (h : Counts N s t ss ss' active packet seq)

theorem Lawful.silent {evs : List Event} (h : Lawful N s.trace) (htr : t.trace = s.trace ++ evs)
    (hevs : packets evs = []) : Lawful N t.trace ∧ packets t.trace = packets s.trace := by
  have hpackets : packets t.trace = packets s.trace := by
    rw [htr, packets_append, hevs, List.append_nil]
  refine ⟨⟨?_, ?_, ?_, fun a p n hmem => ?_⟩, hpackets⟩
  · rw [hpackets]
    exact h.proper
  · rw [hpackets]
    exact h.idle
  · rw [hpackets]
    exact h.chain
  · rw [htr] at hmem
    exact h.rqSeq a p n ((List.mem_append.mp hmem).resolve_right (built_not_mem hevs))

theorem Lawful.built {trace evs : List Event} {active : Bool} {packet : List UInt8}
    {seq : Option UInt8}
    (h : Lawful N trace) (hevs : packets evs = []) (hproper : active = true → N.proper packet)
    (hidle : active = false → N.idle packet)
    (hlast : active = true → ∀ p, (packets trace).getLast? = some (true, p) → N.follows p
      (N.number packet))
    (hseq : ∀ n, seq = some n → n < 64) :
    Lawful N (trace ++ .built active packet seq :: evs) ∧
      packets (trace ++ .built active packet seq :: evs) = packets trace ++ [(active, packet)] := by
  have hpackets : packets (trace ++ .built active packet seq :: evs) =
      packets trace ++ [(active, packet)] := by
    rw [packets_append]
    exact congrArg (fun l => packets trace ++ (active, packet) :: l) hevs
  refine ⟨⟨fun p hp => ?_, fun p hp => ?_, ?_, fun a p n hmem => ?_⟩, hpackets⟩
  · rw [hpackets] at hp
    rcases List.mem_append.mp hp with hp | hp
    · exact h.proper p hp
    · obtain ⟨ha, rfl⟩ := Prod.mk.inj (List.mem_singleton.mp hp)
      exact hproper ha.symm
  · rw [hpackets] at hp
    rcases List.mem_append.mp hp with hp | hp
    · exact h.idle p hp
    · obtain ⟨ha, rfl⟩ := Prod.mk.inj (List.mem_singleton.mp hp)
      exact hidle ha.symm
  · rw [hpackets, List.isChain_append]
    refine ⟨h.chain, .singleton _, fun x hx y hy hxa hya => ?_⟩
    obtain rfl := Option.some.inj hy
    obtain ⟨b, p⟩ := x
    obtain rfl : b = true := hxa
    exact hlast hya p hx
  · rcases List.mem_append.mp hmem with hmem | hmem
    · exact h.rqSeq a p n hmem
    · rcases List.mem_cons.mp hmem with heq | hmem
      · exact hseq n (Event.built.inj heq).2.2.symm
      · exact absurd hmem (built_not_mem hevs)

theorem Beat.sound (h : Beat N s t) (hs : Sound N s) : Sound N t := by
  cases h with
  | silent h =>
    obtain ⟨evs, htr, hevs⟩ := h.trace
    obtain ⟨hlawful, hpackets⟩ := hs.lawful.silent htr hevs
    have hbefore : ∀ ss', t.intf.session = some ss' →
        ∃ ss, s.intf.session = some ss ∧ N.counter ss = N.counter ss' := by
      intro ss' hss'
      have hcounter := h.counter
      rw [hss'] at hcounter
      exact Option.map_eq_some_iff.mp hcounter.symm
    refine ⟨hlawful, fun ss' hss' => ?_, fun ss' hss' hlive => ?_⟩
    · obtain ⟨ss, hss, -⟩ := hbefore ss' hss'
      exact h.ready ss' hss' ss hss (hs.ready ss hss)
    · obtain ⟨ss, hss, heq⟩ := hbefore ss' hss'
      rw [← heq, hpackets]
      exact hs.due ss hss (h.live ss' hss' hlive ss hss)
  | @counts ss ss' active packet seq h =>
    obtain ⟨evs, htr, hevs⟩ := h.trace
    have hdue := fun ha => hs.due ss h.before (h.activity.mp ha)
    have hready := hs.ready ss h.before
    obtain ⟨hlawful, hpackets⟩ := hs.lawful.built hevs (fun ha => h.proper ha (hdue ha).1)
      (fun ha => h.idle ha hready)
        (fun ha p hp => by rw [h.number ha]; exact (hdue ha).2 p hp) h.rqSeq
    rw [← htr] at hlawful hpackets
    refine ⟨hlawful, fun ss1 hss1 => ?_, fun ss1 hss1 hlive => ?_⟩
    · obtain rfl := Option.some.inj (h.after.symm.trans hss1)
      exact h.ready hready
    obtain rfl := Option.some.inj (h.after.symm.trans hss1)
    have hnz := (hs.due ss h.before (h.live hlive)).1
    refine ⟨h.counter hnz, fun p hp => ?_⟩
    rw [hpackets, List.getLast?_append] at hp
    obtain ⟨ha, rfl⟩ := Prod.mk.inj (Option.some.inj hp)
    exact h.follows ha hnz

/-! ### The RMCP+ transport -/

/-- Four bytes of a packet, the least significant first. -/
def field (packet : List UInt8) (i : ℕ) : UInt32 :=
  ofLe32 (packet.getD i 0) (packet.getD (i + 1) 0) (packet.getD (i + 2) 0) (packet.getD (i + 3) 0)

theorem field_le32 (l rest : List UInt8) (n : UInt32) :
    field (l ++ (le32 n ++ rest)) l.length = n := by
  have hget : ∀ i, (l ++ (le32 n ++ rest)).getD (l.length + i) 0 = (le32 n ++ rest).getD i 0 := by
    intro i
    rw [List.getD_append_right _ _ _ _ (Nat.le_add_right _ _), Nat.add_sub_cancel_left]
  have h0 := hget 0
  rw [Nat.add_zero] at h0
  rw [field, h0, hget 1, hget 2, hget 3]
  exact ofLe32_le32 n

/-- Is a packet in IPMI 1.5 format? -/
def isV15 (packet : List UInt8) : Bool := packet.getD 4 0 ≠ authtypeRmcpPlus

/-- The session sequence number of a packet. -/
def sequenceNumber (packet : List UInt8) : UInt32 :=
  if isV15 packet then field packet 5 else field packet 10

/-- The number that is due behind a packet. -/
def numberAfter (packet : List UInt8) : UInt32 :=
  if isV15 packet then sequenceNumber packet else nextSeq (sequenceNumber packet)

/-- The packets of the active state carry the outbound sequence number. -/
def lanplus : Numbering where
  live ss := ss.v2.sessionState = .active
  ready _ := True
  counter := Session.outSeq
  number := sequenceNumber
  follows packet n := n = numberAfter packet
  proper packet := sequenceNumber packet ≠ 0
  idle _ := True

theorem nextSeq_ne (n : UInt32) : nextSeq n ≠ 0 := by
  unfold nextSeq
  split_ifs with h
  · decide
  · exact h

theorem packetOf_active {intf : Intf} {ss : Session} {type : UInt8} {written iv packet : List UInt8}
    {length : UInt16} (hss : ss.v2.sessionState = .active)
    (h : packetOf K intf ss type written length iv = .ok packet) :
    isV15 packet = false ∧ sequenceNumber packet = ss.outSeq := by
  have hpacket : ∃ x rest, packet = rmcpHdr ++ ([authtypeRmcpPlus, x] ++ le32 ss.v2.bmcId) ++
      (le32 ss.outSeq ++ rest) := by
    unfold packetOf at h
    rw [if_pos hss] at h
    obtain ⟨⟨out, n⟩, -, h⟩ := except_bind_ok.mp h
    have htrailer : ∃ trailer, packet =
        rmcpHdr ++ (sessionHeader ss type n ++ out.take n.toNat) ++ trailer := by
      dsimp only at h
      split_ifs at h
      · exact ⟨_, (Except.ok.inj h).symm⟩
      · obtain ⟨trailer, -, h⟩ := except_bind_ok.mp h
        exact ⟨trailer, (Except.ok.inj h).symm⟩
    obtain ⟨trailer, rfl⟩ := htrailer
    unfold sessionHeader
    rw [if_pos hss]
    exact ⟨_, _, by simp only [List.append_assoc]; rfl⟩
  obtain ⟨x, rest, rfl⟩ := hpacket
  have hv15 : isV15 (rmcpHdr ++ ([authtypeRmcpPlus, x] ++ le32 ss.v2.bmcId) ++
      (le32 ss.outSeq ++ rest)) = false := rfl
  refine ⟨hv15, ?_⟩
  rw [sequenceNumber, hv15]
  exact field_le32 (rmcpHdr ++ ([authtypeRmcpPlus, x] ++ le32 ss.v2.bmcId)) rest ss.outSeq

theorem v15Packet_number (ss : Session) (req : Request) :
    isV15 (v15Packet ss req) = true ∧ sequenceNumber (v15Packet ss req) = ss.outSeq := by
  have hpacket : ∃ rest, v15Packet ss req = rmcpHdr ++ [0x00] ++ (le32 ss.outSeq ++ rest) :=
    ⟨_, by unfold v15Packet; simp only [List.append_assoc]; rfl⟩
  obtain ⟨rest, hpacket⟩ := hpacket
  have hv15 : isV15 (v15Packet ss req) = true := by rw [hpacket]; rfl
  refine ⟨hv15, ?_⟩
  rw [sequenceNumber, hv15, hpacket]
  exact field_le32 (rmcpHdr ++ [0x00]) rest ss.outSeq

theorem advanceSeq_lt (seq : UInt8) (isRetry : Bool) : advanceSeq seq isRetry < 64 := by
  unfold advanceSeq
  by_cases h : 64 ≤ if isRetry then seq else seq + 1
  · rw [if_pos h]
    decide
  · rw [if_neg h]
    exact UInt8.not_le.mp h

/-! ### What a step does -/

theorem pollSingle_packets {res : PollResult} (h : pollSingle K s = .ok (res, t)) :
    t.intf = s.intf ∧ ∃ evs, t.trace = s.trace ++ evs ∧ packets evs = [] := by
  obtain ⟨ss, -, ⟨-, rest, -, rfl⟩ | ⟨-, d, rest, l, r, evs, -, -, -, hh, rfl⟩⟩ := pollSingle_ok h
  · exact ⟨rfl, [.timeout], rfl, rfl⟩
  · refine ⟨rfl, evs, rfl, ?_⟩
    rcases handlePacket_cases hh with ⟨b, -, -, -, rfl⟩ | ⟨-, -, rfl⟩ | ⟨-, -, rfl⟩ |
      ⟨r1, o, n, -, -, hloop⟩ | ⟨x, -, -, rfl, hx⟩
    · rfl
    · rfl
    · rfl
    · obtain ⟨-, gone, rfl⟩ := ipmiLoop_events hloop
      exact packets_removed gone
    · generalize ss.v2.sessionState = state at hx
      cases hx <;> rfl

/-- What leaves the interface and the packets alone is silent. -/
theorem Silent.of_intf (h : t.intf.session = s.intf.session)
    (htr : ∃ evs, t.trace = s.trace ++ evs ∧ packets evs = []) : Silent N s t where
  counter := by rw [h]
  live ss' hss' hlive ss hss := by
    rw [h, hss] at hss'
    obtain rfl := Option.some.inj hss'
    exact hlive
  ready ss' hss' ss hss hready := by
    rw [h, hss] at hss'
    obtain rfl := Option.some.inj hss'
    exact hready
  trace := htr

theorem silent_quiet (h : Quiet s t) : Silent lanplus s t where
  counter := h.outSeq
  live ss' hss' hlive ss hss := by
    have hv2 := h.v2
    rw [hss, hss'] at hv2
    have hlive' : ss.v2.sessionState = .active := by
      rw [← Option.some.inj hv2]
      exact hlive
    exact hlive'
  ready _ _ _ _ _ := trivial
  trace := by
    obtain ⟨gone, htr⟩ := h.trace
    exact ⟨_, htr, packets_removed gone⟩

/-- A packet in RMCP+ format moves the counter on. -/
theorem counts_message {payload : V2Payload} {seq : UInt8} {packet : List UInt8} (hseq : seq < 64)
    (h : buildV2xMsg K payload seq s = .ok (packet, t)) : ∃ ss q, Counts lanplus s t ss
      { ss with outSeq := nextSeq ss.outSeq } (decide (ss.v2.sessionState = .active)) packet q := by
  obtain ⟨ss, length, iv, entropy, hss, -, -, hpacket, rfl⟩ := buildV2xMsg_ok h
  obtain ⟨q, evs, hevents, hevs, hq⟩ : ∃ q evs,
      builtEvents (ss.v2.sessionState = .active) packet seq payload =
        .built (ss.v2.sessionState = .active) packet q :: evs ∧ packets evs = [] ∧
      ∀ n, q = some n → n < 64 := by
    cases payload with
    | ipmi req =>
      refine ⟨some seq, [], rfl, rfl, fun n hn => ?_⟩
      rw [← Option.some.inj hn]
      exact hseq
    | sol p => exact ⟨none, _, rfl, rfl, fun n hn => by cases hn⟩
    | openRequest msg | rakp1 msg | rakp3 msg => exact ⟨none, [], rfl, rfl, fun n hn => by cases hn⟩
  have hheader := fun ha : decide (ss.v2.sessionState = .active) = true =>
    packetOf_active (of_decide_eq_true ha) hpacket
  refine ⟨ss, q, {
    before := hss
    after := rfl
    activity := ⟨of_decide_eq_true, fun ha => decide_eq_true ha⟩
    live := id
    ready := id
    idle := fun _ _ => trivial
    number := fun ha => (hheader ha).2
    proper := fun ha hnz => ?_
    follows := fun ha _ => ?_
    counter := fun _ => nextSeq_ne _
    rqSeq := hq
    trace := ⟨evs, congrArg (s.trace ++ ·) hevents, hevs⟩ }⟩
  · change sequenceNumber packet ≠ 0
    rw [(hheader ha).2]
    exact hnz
  · change nextSeq ss.outSeq = numberAfter packet
    rw [numberAfter, (hheader ha).1, (hheader ha).2]
    rfl

theorem beat_message {payload : V2Payload} {seq : UInt8} {packet : List UInt8} (hseq : seq < 64)
    (h : buildV2xMsg K payload seq s = .ok (packet, t)) : Beat lanplus s t := by
  obtain ⟨ss, q, hcounts⟩ := counts_message hseq h
  exact .counts hcounts

theorem beat_oldCommand {req : Request} {x : ℕ × List UInt8}
    (h : buildV15IpmiCmd req s = .ok (x, t)) :
    Beat lanplus s t := by
  obtain ⟨addr, packet⟩ := x
  obtain ⟨ss, hss, -, rfl, rfl⟩ := buildV15IpmiCmd_ok h
  obtain ⟨hv15, hnumber⟩ := v15Packet_number ss req
  refine @Beat.counts lanplus s _ ss ss (decide (ss.v2.sessionState = .active))
    (v15Packet ss req) (some 0) {
      before := hss
      after := hss
      activity := ⟨of_decide_eq_true, fun ha => decide_eq_true ha⟩
      live := id
      ready := id
      idle := fun _ _ => trivial
      number := fun _ => hnumber
      proper := fun _ hnz => ?_
      follows := fun _ _ => ?_
      counter := id
      rqSeq := fun n hn => ?_
      trace := ⟨[], rfl, rfl⟩ }
  · change sequenceNumber (v15Packet ss req) ≠ 0
    rw [hnumber]
    exact hnz
  · change ss.outSeq = numberAfter (v15Packet ss req)
    rw [numberAfter, hv15, hnumber]
    rfl
  · obtain rfl := Option.some.inj hn
    decide

/-- A frame that holds of every beat holds of everything an open interface does. -/
theorem tame_of_beats {F : Frame St} (hF : ∀ {s t}, Beat lanplus s t → F.rel s t) :
    Tame K true F where
  still h := hF (.silent (silent_quiet h.toQuiet))
  poll h := by
    obtain ⟨hintf, htr⟩ := pollSingle_packets h
    exact hF (.silent (.of_intf (by rw [hintf]) htr))
  message _ h := hF (beat_message (by decide) h)
  command {req isRetry s x t} _ h := by
    obtain ⟨-, hb⟩ := buildV2xIpmiCmd_ok.mp h
    have h1 : Silent lanplus s (withRequest s req isRetry) :=
      .of_intf rfl ⟨[], (List.append_nil _).symm, rfl⟩
    exact F.trans (hF (.silent h1)) (hF (beat_message (advanceSeq_lt _ _) hb))
  oldCommand _ h := hF (beat_oldCommand h)
  number p := by
    refine .bind moves_theSession fun ss => .bind ?_ fun _ => .pure _
    intro s u s' h
    obtain ⟨ss', hss, rfl⟩ := modifySession_ok.mp h
    refine hF (.silent ⟨by simp [St.withSession, hss, lanplus], fun ss1 hss1 hlive ss2 hss2 => ?_,
      fun _ _ _ _ _ => trivial, [], ?_, rfl⟩)
    · obtain rfl := Option.some.inj hss1
      obtain rfl := Option.some.inj (hss.symm.trans hss2)
      exact hlive
    · exact (List.append_nil _).symm

/-! ### The handshake -/

/-- A change of the session that its counter does not depend on is silent. -/
theorem silent_session {ss ss' : Session} (hss : s.intf.session = some ss)
    (hcounter : N.counter ss' = N.counter ss) (hlive : N.live ss' → N.live ss)
    (hready : N.ready ss → N.ready ss') : Silent N s (s.withSession ss') where
  counter := by simp [St.withSession, hss, hcounter]
  live ss1 hss1 hlive1 ss2 hss2 := by
    obtain rfl := Option.some.inj hss1
    obtain rfl := Option.some.inj (hss.symm.trans hss2)
    exact hlive hlive1
  ready ss1 hss1 ss2 hss2 hready2 := by
    obtain rfl := Option.some.inj hss1
    obtain rfl := Option.some.inj (hss.symm.trans hss2)
    exact hready hready2
  trace := ⟨[], (List.append_nil _).symm, rfl⟩

theorem moves_setState {F : Frame St} (hF : ∀ {s t}, Beat lanplus s t → F.rel s t)
    {state : SessionState}
    (hstate : state ≠ .active) : Moves F (setState state) := by
  intro s x s' h
  obtain ⟨ss, hss, rfl⟩ := modifySession_ok.mp h
  exact hF (.silent (silent_session hss rfl (fun hlive => absurd hlive hstate) id))

/-- A frame that holds of every beat holds of what `open` and `close` do with a session. -/
theorem exchanging_of_beats {F : Frame St} (hF : ∀ {s t}, Beat lanplus s t → F.rel s t) :
    Exchanging K F where
  sendPayload payload := by
    refine moves_sendPayload (tame_of_beats hF) (.inl rfl) ?_
    cases payload with
    | ipmi req => exact .pure _
    | sol p => exact .pure _
    | openRequest msg | rakp1 msg | rakp3 msg => exact moves_setState hF (by decide)
  other hss _ _ ht := hF (.silent (.of_intf hss ⟨[], by rw [ht, List.append_nil], rfl⟩))
  record e he := .modify fun s => hF (.silent (.of_intf rfl ⟨[e], rfl, he⟩))
  session hss h := hF (.silent (silent_session hss h.outSeq h.state id))

/-- The session is not active yet, but its counter has been moved by the last packet. -/
structure Primed (s : St) : Prop where
  lawful : Lawful lanplus s.trace
  session : ∃ ss, s.intf.session = some ss ∧ ss.v2.sessionState ≠ .active ∧ ss.outSeq ≠ 0
  last : ∃ packet, (packets s.trace).getLast? = some (false, packet)

/-- A packet outside the active state primes the session. -/
theorem Counts.primed {ss ss' : Session} {active : Bool} {packet : List UInt8} {seq : Option UInt8}
    (h : Counts lanplus s t ss ss' active packet seq) (hs : Lawful lanplus s.trace)
    (hstate : ss.v2.sessionState ≠ .active) (hcounter : ss'.outSeq ≠ 0) : Primed t := by
  have hnot : active ≠ true := fun ha => hstate (h.activity.mp ha)
  obtain ⟨evs, htr, hevs⟩ := h.trace
  obtain ⟨hlawful, hpackets⟩ := hs.built hevs (fun ha => absurd ha hnot) (fun _ => trivial)
    (fun ha => absurd ha hnot) h.rqSeq
  rw [← htr] at hlawful hpackets
  refine ⟨hlawful, ⟨ss', h.after, fun hlive => hstate (h.live hlive), hcounter⟩, packet, ?_⟩
  rw [hpackets, List.getLast?_append, Bool.eq_false_iff.mpr hnot]
  rfl

theorem Beat.primed (h : Beat lanplus s t) (hs : Primed s) : Primed t := by
  obtain ⟨ss, hss, hstate, hcounter⟩ := hs.session
  cases h with
  | silent h =>
    obtain ⟨evs, htr, hevs⟩ := h.trace
    obtain ⟨hlawful, hpackets⟩ := hs.lawful.silent htr hevs
    have hmap := h.counter
    rw [hss] at hmap
    obtain ⟨ss', hss', heq⟩ := Option.map_eq_some_iff.mp hmap
    refine ⟨hlawful, ⟨ss', hss', fun hlive => hstate (h.live ss' hss' hlive ss hss), ?_⟩, ?_⟩
    · have heq' : ss'.outSeq = ss.outSeq := heq
      rw [heq']
      exact hcounter
    · rw [hpackets]
      exact hs.last
  | counts h =>
    obtain rfl := Option.some.inj (hss.symm.trans h.before)
    exact h.primed hs.lawful hstate (h.counter hcounter)

theorem Primed.sound (hs : Primed s) : Sound lanplus s := by
  refine ⟨hs.lawful, fun _ _ => trivial, fun ss hss hlive => ?_⟩
  obtain ⟨ss', hss', hstate, -⟩ := hs.session
  obtain rfl := Option.some.inj (hss.symm.trans hss')
  exact absurd hlive hstate

theorem Primed.activate {x : Unit} (hs : Primed s) (h : setState .active s = .ok (x, t)) :
    Sound lanplus t := by
  obtain ⟨ss, hss, rfl⟩ := modifySession_ok.mp h
  refine ⟨hs.lawful, fun _ _ => trivial, fun ss' hss' _ => ?_⟩
  obtain rfl := Option.some.inj hss'
  obtain ⟨ss1, hss1, -, hcounter⟩ := hs.session
  obtain rfl := Option.some.inj (hss.symm.trans hss1)
  refine ⟨hcounter, fun packet hlast => ?_⟩
  obtain ⟨packet', hlast'⟩ := hs.last
  have heq : some (false, packet') = some (true, packet) := hlast'.symm.trans hlast
  cases heq

/-- A session that is primed stays so in every state but the active one. -/
theorem Primed.remember {ss : Session} {state : SessionState} (hs : Primed s)
    (hss : s.intf.session = some ss) (hstate : state ≠ .active) :
    Primed (s.withSession { ss with v2 := { ss.v2 with sessionState := state } }) :=
  Beat.primed (.silent (silent_session hss rfl (fun hlive => absurd hlive hstate) id)) hs

theorem awaits_rel {F : Frame St} {b : Bool} (hF : Tame K true F) (h : Awaits K s b s') :
    F.rel s s' := by
  induction h with
  | missed h => exact hF.poll h
  | got h _ => exact hF.poll h
  | skip h _ ih => exact F.trans (hF.poll h) ih
  | duplicate h _ _ ih => exact F.trans (hF.poll h) ih

/-- A handshake message that is answered primes the session. -/
theorem sendPayload_primed {payload : V2Payload} (hp : isHandshake payload = true)
    (h : sendPayload K payload s = .ok (true, t)) (hs : Lawful lanplus s.trace)
    (hstate : ∀ ss, s.intf.session = some ss → ss.v2.sessionState ≠ .active) : Primed t := by
  obtain ⟨u, hround, hend⟩ := sendPayload_handshake_ok hp h
  obtain ⟨ss', timeout, net, hss', -, -, rfl⟩ := hend.resolve_left (by simp)
  obtain ⟨-, -⟩ | ⟨-, -⟩ | ⟨-, -⟩ | ⟨-, ht, -, hss, hw⟩ := hround
  have hmessage : IsMessage payload := by
    cases payload with
    | ipmi req => cases hp
    | sol p | openRequest msg | rakp1 msg | rakp3 msg => trivial
  rcases transmit_ok ht with ⟨hx, -, -⟩ | ⟨-, entry, packet, v, hb, rfl, -⟩
  · cases hx
  obtain ⟨ss0, hss0, -, -, hbuild⟩ := buildPayload_message_ok hmessage hb
  obtain ⟨ss1, q, hcounts⟩ := counts_message (by decide) hbuild
  have hprimed : Primed v := hcounts.primed hs (hstate ss1 hcounts.before) (nextSeq_ne _)
  have hsent : Primed { v with net := (v.net.send packet).2 } :=
    Beat.primed (s := v) (.silent (.of_intf rfl ⟨[], (List.append_nil _).symm, rfl⟩)) hprimed
  have hnot : sentState payload ≠ .active := by
    intro h
    cases payload <;> cases h
  have hbeat : ∀ {s t}, Beat lanplus s t → (Frame.keeps Primed).rel s t := fun h hs => h.primed hs
  have hwait : Primed u := awaits_rel (tame_of_beats hbeat) hw (hsent.remember hss hnot)
  refine Beat.primed (s := u)
    (.silent ⟨?_, fun ss2 hss2 hlive ss3 hss3 => ?_, fun _ _ _ _ _ => trivial, [],
      (List.append_nil _).symm, rfl⟩) hwait
  · rw [hss']
    rfl
  · obtain rfl := Option.some.inj hss2
    obtain rfl := Option.some.inj (hss'.symm.trans hss3)
    exact hlive

/-- Every step keeps the invariant, as a frame. -/
abbrev Sounds : Frame St := Frame.keeps (Sound lanplus)

theorem moves_rakp3_sounds : Moves Sounds (rakp3 K) := by
  intro s rc s' h hs
  have hF : Exchanging K Sounds := exchanging_of_beats fun h hs => h.sound hs
  have hG : Exchanging K (Frame.keeps Primed) := exchanging_of_beats fun h hs => h.primed hs
  unfold rakp3 at h
  obtain ⟨ss, _, hget, h⟩ := bind_ok.mp h
  obtain ⟨hss, rfl⟩ := theSession_ok.mp hget
  obtain ⟨_, _, hexpect, h⟩ := bind_ok.mp h
  obtain ⟨hstate, rfl⟩ := expect_ok.mp hexpect
  obtain ⟨_, _, hget, h⟩ := bind_ok.mp h
  obtain ⟨rfl, rfl⟩ := get_ok.mp hget
  obtain ⟨⟨authcode, keyed⟩, _, hlift, h⟩ := bind_ok.mp h
  obtain ⟨hkeys, rfl⟩ := lift_ok.mp hlift
  obtain ⟨_, _, hkeyed, h⟩ := bind_ok.mp h
  obtain ⟨ss1, hss1, rfl⟩ := modifySession_ok.mp hkeyed
  obtain rfl : ss = ss1 := Option.some.inj (hss.symm.trans hss1)
  obtain ⟨sik, sikLen, k1, k1Len, k2, k2Len, rfl⟩ := keyedSession_eq hkeys
  obtain ⟨got, u, hsend, h⟩ := bind_ok.mp h
  have hu : Sound lanplus u := hF.sendPayload _ _ _ _ hsend (hF.session hss {} hs)
  by_cases hcode : ss.v2.rakp2ReturnCode ≠ 0
  · rw [if_pos hcode] at h
    obtain ⟨-, rfl⟩ := pure_ok.mp h
    exact hu
  rw [if_neg hcode] at h
  cases got with
  | false =>
    obtain ⟨-, rfl⟩ := pure_ok.mp h
    exact hu
  | true =>
    have hprimed : Primed u := by
      refine sendPayload_primed rfl hsend hs.lawful fun ss' hss' => ?_
      obtain rfl := Option.some.inj hss'
      have hnot : ss.v2.sessionState ≠ .active := by
        rw [of_decide_eq_true hstate]
        decide
      exact hnot
    rw [if_neg (by decide)] at h
    obtain ⟨_, _, hget, h⟩ := bind_ok.mp h
    obtain ⟨rfl, rfl⟩ := get_ok.mp hget
    by_cases hrsp : u.recvRsp.rakpReturnCode ≠ 0
    · rw [if_pos hrsp] at h
      obtain ⟨-, rfl⟩ := pure_ok.mp h
      exact hu
    rw [if_neg hrsp] at h
    obtain ⟨ss2, _, hget, h⟩ := bind_ok.mp h
    obtain ⟨-, rfl⟩ := theSession_ok.mp hget
    obtain ⟨good, _, hlift, h⟩ := bind_ok.mp h
    obtain ⟨-, rfl⟩ := lift_ok.mp hlift
    cases good with
    | false =>
      obtain ⟨-, rfl⟩ := pure_ok.mp h
      exact hu
    | true =>
      rw [if_pos rfl] at h
      obtain ⟨_, v, hrecord, h⟩ := bind_ok.mp h
      obtain ⟨_, w, hactive, h⟩ := bind_ok.mp h
      have hw : Sound lanplus w := (hG.record _ rfl _ _ _ hrecord hprimed).activate hactive
      obtain ⟨_, _, habort, h⟩ := bind_ok.mp h
      obtain rfl := modify_ok.mp habort
      obtain ⟨-, rfl⟩ := pure_ok.mp h
      exact hF.other (s := w) rfl rfl rfl rfl hw

theorem opening_sounds : Opening K Sounds := by
  have hF : Exchanging K Sounds := exchanging_of_beats fun h hs => h.sound hs
  refine { hF with rakp3 := moves_rakp3_sounds, fresh := ?_, closed := ?_ }
  · intro s t p hss htr hs
    refine ⟨by rw [htr]; exact hs.lawful, fun _ _ => trivial, fun ss hss' hlive => ?_⟩
    obtain rfl := Option.some.inj (hss.symm.trans hss')
    have hstate : SessionState.presession = .active := hlive
    cases hstate
  · intro s t hss htr hs
    refine ⟨by rw [htr]; exact hs.lawful, fun _ _ => trivial, fun ss hss' _ => ?_⟩
    rw [hss] at hss'
    cases hss'

end Ipmitool.Lanplus.Counting
