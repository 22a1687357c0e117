import Ipmitool.Lan.Steps
import Ipmitool.Lanplus.Counting

/-! # The sequence numbers of a run of the IPMI 1.5 transport

The inbound sequence number of a session is zero until the answer to Activate Session seeds it, and
every packet before that carries zero. The session is active from the request on, so the only
packets of an active session with number zero are requests to activate it; behind any other packet
comes the next number.

`open` goes through three phases: a new session that is not active yet (`Unseeded`), the session
that asks for its number (`Asking`), and the seeded one, which keeps the invariant of all runs
(`Sound`). An `open` that fails before that (`Failed`) closes the session without sending
anything. -/

namespace Ipmitool.Lan.Counting

open Ipmitool.Lib.Mem Ipmitool.Lib.Bytes Ipmitool.Lib.Machine Ipmitool.Core.Types
  Ipmitool.Core.Network
open Ipmitool.Lanplus.State Ipmitool.Lanplus.Receive Ipmitool.Lanplus.Build
  Ipmitool.Lanplus.Counting
open Ipmitool.Lanplus.Steps (packets moves_theSession Uncounted)
open Ipmitool.Lan.Receive Ipmitool.Lan.Send Ipmitool.Lan.Open Ipmitool.Lan.Steps

variable {A : Auth} {s t u : St}

/-! ### Numbered packets -/

/-- A packet is a request to activate the session. -/
def Asks (packet : List UInt8) : Prop := ∃ (A : Auth) (intf : Intf) (ss : Session) (level : ℕ)
  (seq authtype privlvl : UInt8) (challenge outbound : List UInt8),
  packet = cmdPacket A intf ss level seq (activateRequest authtype privlvl challenge outbound)

/-- The session sequence number of a packet. -/
def sequenceNumber (packet : List UInt8) : UInt32 := field packet 5

/-- The packets of an active session carry the inbound sequence number; zero is not followed up. -/
def lan : Numbering where
  live ss := ss.active = true
  ready ss := ss.active = true
  counter := Session.inSeq
  number := sequenceNumber
  follows packet n := sequenceNumber packet ≠ 0 → n = nextSeq (sequenceNumber packet)
  proper packet := sequenceNumber packet = 0 → Asks packet
  idle packet := sequenceNumber packet = 0

theorem cmdPacket_number (intf : Intf) (ss : Session) (level : ℕ) (seq : UInt8) (req : Request) :
    sequenceNumber (cmdPacket A intf ss level seq req) = ss.inSeq := by
  have hpacket : ∃ x rest, cmdPacket A intf ss level seq req =
      rmcpHdr ++ [x] ++ (le32 ss.inSeq ++ rest) :=
    ⟨_, _, by unfold cmdPacket; simp only [List.append_assoc]; rfl⟩
  obtain ⟨x, rest, hpacket⟩ := hpacket
  rw [hpacket]
  exact field_le32 (rmcpHdr ++ [x]) rest ss.inSeq

theorem solPacket_number (ss : Session) (p : SolPacket) :
    sequenceNumber (solPacket ss p) = ss.inSeq := by
  have hpacket : ∃ rest, solPacket ss p = rmcpHdr ++ [0] ++ (le32 ss.inSeq ++ rest) :=
    ⟨_, by unfold solPacket; simp only [List.append_assoc]; rfl⟩
  obtain ⟨rest, hpacket⟩ := hpacket
  rw [hpacket]
  exact field_le32 (rmcpHdr ++ [0]) rest ss.inSeq

theorem nextInSeq_of_ne {n : UInt32} (hn : n ≠ 0) : nextInSeq n = nextSeq n := if_neg hn

/-! ### What a step does -/

theorem packets_of_not_built {evs : List Event} (h : ∀ e ∈ evs, isBuilt e = false) :
    packets evs = [] := by
  refine List.filterMap_eq_nil_iff.mpr fun e he => ?_
  have hnot := h e he
  cases e <;> first | rfl | cases hnot

/-- A quiet step is silent. -/
theorem silent_quiet (h : Quiet s t) : Silent lan s t where
  counter := h.inSeq
  live ss' hss' hlive ss hss := by
    have hactive := h.active
    rw [hss, hss'] at hactive
    exact (Option.some.inj hactive).symm.trans hlive
  ready ss' hss' ss hss hready := by
    have hactive := h.active
    rw [hss, hss'] at hactive
    exact (Option.some.inj hactive).trans hready
  trace := by
    obtain ⟨evs, htr, hevs⟩ := h.trace
    exact ⟨evs, htr, packets_of_not_built hevs⟩

theorem beat_command {req : Request} {isRetry : Bool} {x : ℕ × List UInt8}
    (h : buildCmd A req isRetry s = .ok (x, t)) : Beat lan s t := by
  obtain ⟨addr, packet⟩ := x
  obtain ⟨ss, e, u, seq, level, hss, rfl, -, -, -, rfl, rfl⟩ := buildCmd_ok h
  have hnumber := cmdPacket_number (A := A) s.intf ss level (advanceSeq s.currSeq isRetry) req
  have hnext : ss.inSeq ≠ 0 → nextInSeq ss.inSeq = nextSeq ss.inSeq := nextInSeq_of_ne
  refine @Beat.counts lan s _ ss { ss with inSeq := nextInSeq ss.inSeq } ss.active
    (cmdPacket A s.intf ss level (advanceSeq s.currSeq isRetry) req)
      (some (advanceSeq s.currSeq isRetry)) {
      before := hss
      after := rfl
      activity := Iff.rfl
      live := id
      ready := id
      idle := fun ha hready => Bool.noConfusion (ha.symm.trans hready)
      number := fun _ => hnumber
      proper := fun _ hnz hzero => absurd (hnumber.symm.trans hzero) hnz
      follows := fun _ hnz _ => ?_
      counter := fun hnz => ?_
      rqSeq := fun n hn => ?_
      trace := ⟨[], rfl, rfl⟩ }
  · rw [hnumber]
    exact hnext hnz
  · change nextInSeq ss.inSeq ≠ 0
    rw [hnext hnz]
    exact nextSeq_ne _
  · rw [← Option.some.inj hn]
    exact advanceSeq_lt _ _

theorem beat_sol {p : SolPacket} {packet : List UInt8} (h : buildSolMsg p s = .ok (packet, t)) :
    Beat lan s t := by
  obtain ⟨ss, hss, rfl, rfl⟩ := buildSolMsg_ok h
  have hnumber := solPacket_number ss p
  exact @Beat.counts lan s _ ss { ss with inSeq := nextSeq ss.inSeq } ss.active
    (solPacket ss p) none {
    before := hss
    after := rfl
    activity := Iff.rfl
    live := id
    ready := id
    idle := fun ha hready => Bool.noConfusion (ha.symm.trans hready)
    number := fun _ => hnumber
    proper := fun _ hnz hzero => absurd (hnumber.symm.trans hzero) hnz
    follows := fun _ _ _ => by rw [hnumber]; rfl
    counter := fun _ => nextSeq_ne _
    rqSeq := fun n hn => by cases hn
    trace := ⟨_, rfl, rfl⟩ }

/-- The invariant of all runs, as a frame. -/
abbrev Sounds : Frame St := Frame.keeps (Sound lan)

theorem tame_sounds : Tame true Sounds where
  still h hs := (Beat.silent (silent_quiet h.toQuiet)).sound hs
  command _ h hs := (beat_command h).sound hs
  sol h hs := (beat_sol h).sound hs
  number p := by
    refine .bind moves_theSession fun ss => .bind ?_ fun _ => .pure _
    intro s x s' h hs
    obtain ⟨ss', hss, rfl⟩ := modifySession_ok.mp h
    exact Beat.sound (.silent (silent_session hss rfl id id)) hs

theorem sounds_session {ss ss' : Session} (hss : s.intf.session = some ss) (h : Uncounted ss ss') :
    Sounds.rel s (s.withSession ss') := fun hs =>
  Beat.sound (.silent (silent_session hss h.inSeq (fun hlive => h.active.symm.trans hlive)
    fun hready => h.active.trans hready)) hs

theorem moves_modifySession {f : Session → Session} (h : ∀ ss, Uncounted ss (f ss)) :
    Moves Sounds (modifySession f) := by
  intro s x s' hm
  obtain ⟨ss, hss, rfl⟩ := modifySession_ok.mp hm
  exact sounds_session hss (h ss)

theorem exchanging_sounds : Exchanging A Sounds where
  exchange req := moves_exchange tame_sounds req
  pollRecv := moves_pollRecv tame_sounds.toStaying.receiving
  sendPacket := moves_sendPacket tame_sounds.toStaying
  other hss _ _ ht hs :=
    (Beat.silent (.of_intf hss ⟨[], by rw [ht, List.append_nil], rfl⟩)).sound hs
  session := sounds_session

/-! ### The phases of `open` -/

/-- The session has not got its number yet. -/
structure Unseeded (active : Bool) (s : St) : Prop where
  lawful : Lawful lan s.trace
  session : ∃ ss, s.intf.session = some ss ∧ ss.active = active ∧ ss.inSeq = 0
  abort : s.intf.abort = true

/-- The last packet, if it was one of an active session, has number zero. -/
def Zeroed (s : St) : Prop :=
  ∀ packet, (packets s.trace).getLast? = some (true, packet) → sequenceNumber packet = 0

/-- The session is not active, and a packet has been built since it was made. -/
abbrev Waiting (s : St) : Prop := Unseeded false s ∧ Zeroed s

/-- The session asks for its number. -/
abbrev Asking (s : St) : Prop := Unseeded true s ∧ Zeroed s

theorem Unseeded.still {active : Bool} (h : Still s t) (hs : Unseeded active s) :
    Unseeded active t ∧ packets t.trace = packets s.trace := by
  obtain ⟨evs, htr, hevs⟩ := h.trace
  obtain ⟨hlawful, hpackets⟩ := hs.lawful.silent htr (packets_of_not_built hevs)
  obtain ⟨ss, hss, hactive, hzero⟩ := hs.session
  have hinSeq := h.inSeq
  have hflag := h.active
  rw [hss] at hinSeq hflag
  obtain ⟨ss', hss', heq⟩ := Option.map_eq_some_iff.mp hinSeq
  rw [hss'] at hflag
  exact ⟨⟨hlawful, ⟨ss', hss', (Option.some.inj hflag).trans hactive, heq.trans hzero⟩,
    h.abort.trans hs.abort⟩, hpackets⟩

theorem Zeroed.of_packets (h : packets t.trace = packets s.trace) (hs : Zeroed s) : Zeroed t := by
  intro packet hlast
  rw [h] at hlast
  exact hs packet hlast

/-- A command of a session without a number: if the session is active, it is a request to activate
it. -/
theorem Unseeded.command {active isRetry : Bool} {req : Request} {x : ℕ × List UInt8}
    (hs : Unseeded active s) (hzeroed : active = true → Zeroed s)
    (hasks : active = true → ∀ intf ss level seq, Asks (cmdPacket A intf ss level seq req))
    (h : buildCmd A req isRetry s = .ok (x, t)) : Unseeded active t ∧ Zeroed t := by
  obtain ⟨addr, packet⟩ := x
  obtain ⟨ss, e, u, seq, level, hss, rfl, -, -, -, rfl, rfl⟩ := buildCmd_ok h
  obtain ⟨ss', hss', rfl, hzero⟩ := hs.session
  obtain rfl := Option.some.inj (hss.symm.trans hss')
  obtain ⟨hlawful, hpackets⟩ := @Lawful.built lan s.trace [] ss.active
    (cmdPacket A s.intf ss level (advanceSeq s.currSeq isRetry) req)
      (some (advanceSeq s.currSeq isRetry))
    hs.lawful rfl (fun ha _ => hasks ha _ _ _ _) (fun _ => (cmdPacket_number _ _ _ _ _).trans hzero)
    (fun ha p hp hne => absurd (hzeroed ha p hp) hne)
    fun n hn => by rw [← Option.some.inj hn]; exact advanceSeq_lt _ _
  refine ⟨⟨hlawful, ⟨_, rfl, rfl, ?_⟩, hs.abort⟩, fun p hlast => ?_⟩
  · change nextInSeq ss.inSeq = 0
    rw [hzero]
    rfl
  · rw [hpackets, List.getLast?_append] at hlast
    obtain ⟨-, rfl⟩ := Prod.mk.inj (Option.some.inj hlast)
    rw [cmdPacket_number, hzero]

theorem staying_unseeded {active : Bool} : Staying (Frame.keeps (Unseeded active)) where
  still h hs := (hs.still h).1

theorem staying_zeroed {active : Bool} :
    Staying (Frame.keeps fun s => Unseeded active s ∧ Zeroed s) where
  still h hs := ⟨(hs.1.still h).1, hs.2.of_packets (hs.1.still h).2⟩

theorem commanding_unseeded (req : Request) : Commanding A req (Frame.keeps (Unseeded false)) where
  toStaying := staying_unseeded
  command h hs := (hs.command (fun hf => by cases hf) (fun hf => by cases hf) h).1

theorem commanding_waiting (req : Request) : Commanding A req (Frame.keeps Waiting) where
  toStaying := staying_zeroed
  command h hs := hs.1.command (fun hf => by cases hf) (fun hf => by cases hf) h

theorem commanding_asking (authtype privlvl : UInt8) (challenge outbound : List UInt8) :
    Commanding A (activateRequest authtype privlvl challenge outbound) (Frame.keeps Asking) where
  toStaying := staying_zeroed
  command h hs := hs.1.command (fun _ => hs.2)
    (fun _ intf ss level seq => ⟨_, intf, ss, level, seq, _, _, _, _, rfl⟩) h

theorem Unseeded.session_change {active : Bool} {ss ss' : Session} (hs : Unseeded active s)
    (hss : s.intf.session = some ss) (h : Uncounted ss ss') :
    Unseeded active (s.withSession ss') := by
  obtain ⟨ss1, hss1, hactive, hzero⟩ := hs.session
  obtain rfl := Option.some.inj (hss.symm.trans hss1)
  exact ⟨hs.lawful, ⟨ss', rfl, h.active.trans hactive, h.inSeq.trans hzero⟩, hs.abort⟩

theorem talking_unseeded : Talking A (Frame.keeps (Unseeded false)) where
  exchange req := (commanding_unseeded req).exchange
  pollRecv := moves_pollRecv staying_unseeded.receiving
  sendPacket := moves_sendPacket staying_unseeded
  session hss h hs := hs.session_change hss h

theorem talking_waiting : Talking A (Frame.keeps Waiting) where
  exchange req := (commanding_waiting req).exchange
  pollRecv := moves_pollRecv staying_zeroed.receiving
  sendPacket := moves_sendPacket staying_zeroed
  session hss h hs := ⟨hs.1.session_change hss h, hs.2⟩

/-- Behind the first command the last packet was built before the activation. -/
theorem getAuthCapabilitiesCmd_waiting {b : Bool} (h : getAuthCapabilitiesCmd A s = .ok (b, t))
    (hs : Unseeded false s) : Waiting t := by
  unfold getAuthCapabilitiesCmd at h
  obtain ⟨_, _, hget, h⟩ := bind_ok.mp h
  obtain ⟨rfl, rfl⟩ := get_ok.mp hget
  obtain ⟨got, u, hexchange, h⟩ := bind_ok.mp h
  obtain ⟨x, v, hbuild, hrest⟩ := exchange_builds hexchange
  have hv : Waiting v := hs.command (fun hf => by cases hf) (fun hf => by cases hf) hbuild
  have hu : Waiting u := hrest (commanding_waiting _) hv
  obtain ⟨_, _, hget, h⟩ := bind_ok.mp h
  obtain ⟨rfl, rfl⟩ := get_ok.mp hget
  refine Moves.rel (F := Frame.keeps Waiting) ?_ h hu
  refine .ite (fun _ => .pure _) fun _ => .bind (talking_waiting (A := A).modifySession fun _ => ⟨rfl, rfl, rfl, rfl, id⟩) fun _ => ?_
  cases chooseAuthtype u.intf.ssnParams (u.recvRsp.data 1) with
  | none => exact .pure _
  | some authtype => exact .bind (talking_waiting (A := A).modifySession fun _ => ⟨rfl, rfl, rfl, rfl, id⟩) fun _ => .pure _

/-- `open` gives up before the session has a number. -/
structure Failed (s : St) : Prop where
  lawful : Lawful lan s.trace
  abort : s.intf.abort = true

theorem Unseeded.failed {active : Bool} (hs : Unseeded active s) : Failed s := ⟨hs.lawful, hs.abort⟩

theorem seed_ne (r : Response) : seed r ≠ 0 := by
  unfold seed
  dsimp only
  split_ifs with h
  · decide
  · exact h

/-- The answer seeds the counter. -/
theorem activated_ok {b : Bool} (h : activated s = .ok (b, t)) (hs : Asking s) :
    Sound lan t ∨ b = false ∧ Failed t := by
  unfold activated at h
  obtain ⟨_, _, hget, h⟩ := bind_ok.mp h
  obtain ⟨rfl, rfl⟩ := get_ok.mp hget
  by_cases hcode : s.recvRsp.ccode ≠ 0
  · rw [if_pos hcode] at h
    obtain ⟨rfl, rfl⟩ := pure_ok.mp h
    exact .inr ⟨rfl, hs.1.failed⟩
  rw [if_neg hcode] at h
  obtain ⟨_, u, hseed, h⟩ := bind_ok.mp h
  obtain ⟨ss, hss, rfl⟩ := modifySession_ok.mp hseed
  left
  refine Moves.rel (F := Sounds) ?_ h ⟨hs.1.lawful, fun ss' hss' => ?_, fun ss' hss' _ => ?_⟩
  · refine .bind moves_theSession fun ss => .ite (fun _ => ?_) fun _ => .pure _
    exact .bind (moves_modifySession fun _ => ⟨rfl, rfl, rfl, rfl, id⟩) fun _ => .pure _
  · obtain rfl := Option.some.inj hss'
    obtain ⟨ss1, hss1, hactive, -⟩ := hs.1.session
    obtain rfl := Option.some.inj (hss.symm.trans hss1)
    exact hactive
  · obtain rfl := Option.some.inj hss'
    exact ⟨seed_ne _, fun packet hlast hne => absurd (hs.2 packet hlast) hne⟩

/-- A session that has its own packets behind it becomes active. -/
theorem Unseeded.activate {ss : Session} (hs : Waiting s) (hss : s.intf.session = some ss) :
    Asking (s.withSession { ss with active := true }) := by
  obtain ⟨ss', hss', -, hzero⟩ := hs.1.session
  obtain rfl := Option.some.inj (hss.symm.trans hss')
  exact ⟨⟨hs.1.lawful, ⟨_, rfl, rfl, hzero⟩, hs.1.abort⟩, hs.2⟩

theorem activateSessionCmd_ok {b : Bool} (h : activateSessionCmd A s = .ok (b, t))
    (hs : Waiting s) :
    Sound lan t ∨ b = false ∧ Failed t := by
  unfold activateSessionCmd at h
  obtain ⟨_, _, hget, h⟩ := bind_ok.mp h
  obtain ⟨rfl, rfl⟩ := get_ok.mp hget
  dsimp only at h
  obtain ⟨ss, _, hget, h⟩ := bind_ok.mp h
  obtain ⟨-, rfl⟩ := theSession_ok.mp hget
  obtain ⟨_, u, hspecial, h⟩ := bind_ok.mp h
  have hu : Waiting u := by
    refine Moves.rel (F := Frame.keeps Waiting) ?_ hspecial hs
    exact .ite (fun _ => (talking_waiting (A := A)).modifySession fun _ => ⟨rfl, rfl, rfl, rfl,
      id⟩) fun _ => .pure _
  obtain ⟨outbound, v, hrand, h⟩ := bind_ok.mp h
  obtain ⟨rfl, -⟩ := rand_ok.mp hrand
  obtain ⟨_, w, hactive, h⟩ := bind_ok.mp h
  obtain ⟨ss1, hss1, rfl⟩ := modifySession_ok.mp hactive
  have hasking := Unseeded.activate (staying_zeroed.still (s := u) {} hu) hss1
  obtain ⟨got, x, hexchange, h⟩ := bind_ok.mp h
  have hx : Asking x := (commanding_asking _ _ _ _).exchange _ _ _ hexchange hasking
  cases got with
  | true =>
    rw [if_pos rfl] at h
    exact activated_ok h hx
  | false =>
    rw [if_neg (by decide)] at h
    obtain ⟨_, y, hmod, h⟩ := bind_ok.mp h
    obtain ⟨ss2, -, rfl⟩ := modifySession_ok.mp hmod
    obtain ⟨rfl, rfl⟩ := pure_ok.mp h
    exact .inr ⟨rfl, hx.1.lawful, hx.1.abort⟩

/-- **The activation of a new session** leaves it seeded, or it fails before. -/
theorem activateSession_ok {b : Bool} (h : activateSession A s = .ok (b, t))
    (hs : Unseeded false s) :
    Sound lan t ∨ b = false ∧ Failed t := by
  unfold activateSession at h
  obtain ⟨_, u, hwake, h⟩ := bind_ok.mp h
  have hu : Unseeded false u := moves_wake (talking_unseeded (A := A)) _ _ _ hwake hs
  obtain ⟨good, v, hcap, h⟩ := bind_ok.mp h
  have hv : Waiting v := getAuthCapabilitiesCmd_waiting hcap hu
  cases good with
  | false =>
    obtain ⟨rfl, rfl⟩ := pure_ok.mp h
    exact .inr ⟨rfl, hv.1.failed⟩
  | true =>
    rw [if_neg (by decide)] at h
    obtain ⟨good, w, hchallenge, h⟩ := bind_ok.mp h
    have hw : Waiting w := moves_getSessionChallengeCmd talking_waiting _ _ _ hchallenge hv
    cases good with
    | false =>
      obtain ⟨rfl, rfl⟩ := pure_ok.mp h
      exact .inr ⟨rfl, hw.1.failed⟩
    | true =>
      rw [if_neg (by decide)] at h
      obtain ⟨good, x, hcmd, h⟩ := bind_ok.mp h
      have hx := activateSessionCmd_ok hcmd hw
      cases good with
      | false =>
        obtain ⟨rfl, rfl⟩ := pure_ok.mp h
        exact hx.imp_right fun hf => ⟨rfl, hf.2⟩
      | true =>
        have hsound : Sound lan x := hx.resolve_right fun hf => by cases hf.1
        rw [if_neg (by decide)] at h
        left
        refine Moves.rel (F := Sounds) ?_ h hsound
        have hF : Exchanging A Sounds := exchanging_sounds
        refine .bind (hF.modify (fun _ => rfl) (fun _ => rfl) (fun _ => rfl) fun _ => rfl) fun _ =>
          ?_
        refine .bind (moves_setSessionPrivlvlCmd hF) fun _ => .ite (fun _ => ?_) fun _ => .pure _
        exact .bind (moves_closeSessionCmd hF) fun _ => .pure _

/-! ### Runs -/

theorem sounds_closed (h : t.intf.session = none) (hlawful : Lawful lan t.trace) : Sound lan t := by
  have hnone : ∀ ss, t.intf.session ≠ some ss := by
    intro ss hss
    rw [h] at hss
    cases hss
  exact ⟨hlawful, fun ss hss => absurd hss (hnone ss), fun ss hss _ => absurd hss (hnone ss)⟩

/-- A session that is seeded, or that failed before, is closed soundly. -/
theorem close_sound {x : Unit} (h : close A s = .ok (x, t)) (hs : Sound lan s ∨ Failed s) :
    Sound lan t := by
  have hend : ∀ {u t : St} {x : Unit}, Lawful lan u.trace → (modify fun s => { s with
      intf := { s.intf with fd := -1, session := none, manufacturerId := 0 }
      reqEntries := [] } : M PUnit) u = .ok (x, t) → Sound lan t := by
    intro u t x hlawful hm
    obtain rfl := modify_ok.mp hm
    exact sounds_closed rfl hlawful
  unfold close at h
  obtain ⟨_, _, hget, h⟩ := bind_ok.mp h
  obtain ⟨rfl, rfl⟩ := get_ok.mp hget
  by_cases hopen : ¬ s.intf.abort ∧ s.intf.session.isSome
  · rw [if_pos hopen] at h
    obtain ⟨_, u, hcmd, h⟩ := bind_ok.mp h
    have hsound : Sound lan s := hs.resolve_right fun hf => hopen.1 hf.abort
    have hu : Sound lan u := moves_closeSessionCmd exchanging_sounds _ _ _ hcmd hsound
    exact hend hu.lawful h
  · rw [if_neg hopen] at h
    exact hend (hs.elim Sound.lawful Failed.lawful) h

theorem open_sound {fd : ℤ} (h : «open» A s = .ok (fd, t)) (hs : Sound lan s) : Sound lan t := by
  have hF : Exchanging A Sounds := exchanging_sounds
  unfold «open» at h
  obtain ⟨_, _, hget, h⟩ := bind_ok.mp h
  obtain ⟨rfl, rfl⟩ := get_ok.mp hget
  by_cases hopen : s.intf.session.isSome
  · rw [if_pos hopen] at h
    obtain ⟨-, rfl⟩ := pure_ok.mp h
    exact hs
  rw [if_neg hopen] at h
  obtain ⟨_, u, hparams, h⟩ := bind_ok.mp h
  obtain rfl := modify_ok.mp hparams
  by_cases hhost : s.intf.ssnParams.hostname = []
  · rw [if_pos hhost] at h
    obtain ⟨-, rfl⟩ := pure_ok.mp h
    exact hF.other (s := s) rfl rfl rfl rfl hs
  rw [if_neg hhost] at h
  cases hconnect : s.net.connects with
  | none =>
    rw [hconnect] at h
    obtain ⟨-, rfl⟩ := pure_ok.mp h
    exact hF.other (s := s) rfl rfl rfl rfl hs
  | some fd =>
    rw [hconnect] at h
    obtain ⟨_, v, hfresh, h⟩ := bind_ok.mp h
    obtain rfl := modify_ok.mp hfresh
    obtain ⟨good, w, hactivate, h⟩ := bind_ok.mp h
    have hw := activateSession_ok hactivate ⟨hs.lawful, ⟨_, rfl, rfl, rfl⟩, rfl⟩
    cases good with
    | false =>
      obtain ⟨_, x, hclose, h⟩ := bind_ok.mp h
      obtain ⟨-, rfl⟩ := pure_ok.mp h
      exact close_sound hclose (hw.imp_right And.right)
    | true =>
      have hsound : Sound lan w := hw.resolve_right fun hf => by cases hf.1
      refine Moves.rel (F := Sounds) ?_ h hsound
      refine .bind (moves_detectMaxPayloadSize hF) fun _ => .bind (moves_getOem hF) fun oem => ?_
      exact .bind (hF.modify (fun _ => rfl) (fun _ => rfl) (fun _ => rfl) fun _ => rfl) fun _ =>
        .pure _

theorem sendCmd_sound {req : Request} {b : Bool} (h : sendCmd A req s = .ok (b, t))
    (hs : Sound lan s) :
    Sound lan t := by
  refine Moves.rel (F := Sounds) ?_ h hs
  refine .bind .get fun s => .ite (fun _ => ?_) fun _ => moves_exchange tame_sounds req
  refine .bind (fun _ _ _ h => open_sound h) fun fd => ?_
  exact .ite (fun _ => .pure _) fun _ => moves_exchange tame_sounds req

end Ipmitool.Lan.Counting
