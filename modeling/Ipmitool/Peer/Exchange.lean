import Ipmitool.Lib.Conversation
import Ipmitool.Peer.Controller
import Ipmitool.Lanplus.Rounds

/-! # One exchange of the transport

What the transport does with the datagrams at the head of its inbox, program by program up to
`sendPayload`. -/

namespace Ipmitool.Peer.Exchange

open Ipmitool.Lib.Mem Ipmitool.Lib.Bytes Ipmitool.Lib.Machine Ipmitool.Lib.Conversation
open Ipmitool.Core.Types Ipmitool.Core.Network Ipmitool.Crypto.Mac
open Ipmitool.Lanplus.State Ipmitool.Lanplus.Receive Ipmitool.Lanplus.Build Ipmitool.Lanplus.Send
open Ipmitool.Lanplus.Poll Ipmitool.Lanplus.Rounds

variable {K : Primitives} {s t s' : St} {ss : Session} {α β : Type}

/-- The inbox and the sent packets of the transport. -/
def wire : Channel St (Option (List UInt8)) (List UInt8) where
  feed inbox s := { s with net := { s.net with inbox } }
  sent s := s.net.sent

/-! ### Programs that leave the inbox alone -/

theorem feed_time (n : Net) (inbox : List (Option (List UInt8))) :
    ({ n with inbox } : Net).time = (n.time.1, { n.time.2 with inbox }) := by
  obtain ⟨_, clock, _, sendFails, entropy, _, _, _⟩ := n
  cases clock <;> rfl

theorem feed_rand (n : Net) (inbox : List (Option (List UInt8))) :
    ({ n with inbox } : Net).rand = (n.rand.1, { n.rand.2 with inbox }) := by
  obtain ⟨_, clock, _, sendFails, entropy, _, _, _⟩ := n
  cases entropy <;> rfl

theorem feed_send (n : Net) (inbox : List (Option (List UInt8))) (packet : List UInt8) :
    ({ n with inbox } : Net).send packet =
      ((n.send packet).1, { (n.send packet).2 with inbox }) := by
  obtain ⟨_, clock, _, sendFails, entropy, _, _, _⟩ := n
  cases sendFails <;> rfl

theorem hears_theSession (h : s.intf.session = some ss) : Hears wire theSession s [] ss s := by
  intro rest
  rw [theSession_ok]
  exact ⟨h, rfl⟩

theorem hears_modifySession {f : Session → Session} (h : s.intf.session = some ss) :
    Hears wire (modifySession f) s [] () (s.withSession (f ss)) := by
  intro rest
  rw [modifySession_ok]
  exact ⟨ss, h, rfl⟩

theorem hears_setState (state : SessionState) (h : s.intf.session = some ss) :
    Hears wire (setState state) s [] ()
      (s.withSession { ss with v2 := { ss.v2 with sessionState := state } }) :=
  hears_modifySession h

theorem hears_record (es : List Event) :
    Hears wire (record es) s [] () { s with trace := s.trace ++ es } :=
  .modify fun _ => rfl

/-- The state after the clock was read. -/
def ticked (s : St) : St := { s with net := s.net.time.2 }

theorem hears_time : Hears wire time s [] s.net.time.1 (ticked s) := by
  intro rest
  rw [time_ok]
  simp only [wire, ticked, List.nil_append, feed_time, and_self]

/-- The state after a random number was drawn. -/
def drawn (s : St) : St := { s with net := s.net.rand.2 }

theorem hears_rand : Hears wire rand s [] s.net.rand.1 (drawn s) := by
  intro rest
  rw [rand_ok]
  simp only [wire, drawn, List.nil_append, feed_rand, and_self]

theorem rand_net (n : Net) : ∃ entropy, n.rand.2 = { n with entropy } := by
  unfold Net.rand
  cases n.entropy
  · exact ⟨n.entropy, rfl⟩
  · exact ⟨_, rfl⟩

theorem hears_sendPacket (packet : List UInt8) (h : true ∉ s.net.sendFails) :
    Hears wire (sendPacket packet) s [] true { s with net := (s.net.send packet).2 } := by
  intro rest
  have hsent : (s.net.send packet).1 = true := by
    unfold Net.send
    rcases hf : s.net.sendFails with _ | ⟨b, bs⟩
    · rfl
    · rw [hf] at h
      cases b
      · rfl
      · exact absurd List.mem_cons_self h
  rw [sendPacket_ok]
  simp only [wire, List.nil_append, feed_send, hsent, and_self]

/-! ### Building and sending -/

/-- The initialization vector that the next packet is encrypted with. -/
def nextIv (s : St) (ss : Session) : List UInt8 :=
  if ss.v2.sessionState = .active ∧ ss.v2.cryptAlg ≠ cryptNone then s.net.rand.1.val else []

theorem length_nextIv (s : St) {ss : Session} (hactive : ss.v2.sessionState = .active)
    (hcrypt : ss.v2.cryptAlg ≠ cryptNone) : (nextIv s ss).length = 16 := by
  rw [nextIv, if_pos ⟨hactive, hcrypt⟩]
  exact s.net.rand.1.property

theorem hears_drawIv (s : St) (ss : Session) :
    ∃ entropy, Hears wire (drawIv ss) s [] (nextIv s ss)
      { s with net := { s.net with entropy } } := by
  unfold drawIv nextIv
  split_ifs
  · obtain ⟨entropy, hnet⟩ := rand_net s.net
    refine ⟨entropy, ?_⟩
    rw [← hnet]
    exact Hears.step hears_rand (.pure _ _)
  · exact ⟨s.net.entropy, .pure _ _⟩

theorem hears_buildV2xMsg {payload : V2Payload} {seq : UInt8} {length : UInt16}
    {packet : List UInt8}
    (hss : s.intf.session = some ss)
    (hlen : wireLength s.intf s.bridgePossible payload = .ok length)
    (hpacket : packetOf K s.intf ss (payloadType payload)
      (wireRep s.intf s.bridgePossible seq payload)
      length (nextIv s ss) = .ok packet) :
    ∃ entropy, Hears wire (buildV2xMsg K payload seq) s [] packet { s with
      intf := { s.intf with session := some { ss with outSeq := nextSeq ss.outSeq } }
      net := { s.net with entropy }
      trace := s.trace ++ builtEvents (ss.v2.sessionState = .active) packet seq payload } := by
  obtain ⟨entropy, hdraw⟩ := hears_drawIv s ss
  refine ⟨entropy, ?_⟩
  unfold buildV2xMsg
  refine (hears_theSession hss).step (.read (fun _ => rfl) ?_)
  refine (Hears.lift hlen s).step (hdraw.step ((Hears.lift hpacket _).step ?_))
  refine Hears.step (hears_modifySession (by exact hss)) ?_
  exact (hears_record _).step (.pure _ _)

theorem sent_send (n : Net) (packet : List UInt8) :
    (n.send packet).2.sent = n.sent ++ [packet] := by
  obtain ⟨_, _, _, sendFails, _, _, _, _⟩ := n
  cases sendFails <;> rfl

theorem sent_time (n : Net) : n.time.2.sent = n.sent := by
  obtain ⟨_, clock, _, _, _, _, _, _⟩ := n
  cases clock <;> rfl

theorem nextIv_time (s : St) (ss : Session) : nextIv (ticked s) ss = nextIv s ss := by
  have h : s.net.time.2.rand.1 = s.net.rand.1 := by
    obtain ⟨_, clock, _, _, entropy, _, _, _⟩ := s.net
    cases clock <;> cases entropy <;> rfl
  unfold nextIv ticked
  rw [h]

/-- The transmission of a payload, once its packet is built. -/
theorem hears_transmit {payload : V2Payload} {l : Locals} {entry : Option ℕ}
    {packet : List UInt8} {u : St}
    (hx : l.xmit = true)
    (hbuild : Hears wire (buildPayload K payload l.isRetry) (ticked s) [] (entry, packet) u)
    (hsends : true ∉ u.net.sendFails) :
    Hears wire (transmit K payload l) s [] (some { l with ltime := s.net.time.1, entry })
      { u with net := (u.net.send packet).2 } := by
  unfold transmit
  rw [if_pos hx]
  refine hears_time.step (hbuild.step ((hears_sendPacket packet hsends).step ?_))
  exact .pure _ _

theorem hears_buildPayload {payload : V2Payload} {length : UInt16} {packet : List UInt8}
    (hp : isHandshake payload = true) (hss : s.intf.session = some ss)
    (hstate : sendable ss.v2.sessionState payload = true)
    (hlen : wireLength s.intf s.bridgePossible payload = .ok length)
    (hpacket : packetOf K s.intf ss (payloadType payload)
      (wireRep s.intf s.bridgePossible 0 payload)
      length (nextIv s ss) = .ok packet) :
    ∃ entropy trace, Hears wire (buildPayload K payload false) s [] (none, packet) { s with
      intf := { s.intf with session := some { ss with outSeq := nextSeq ss.outSeq } }
      net := { s.net with entropy }
      trace } := by
  obtain ⟨entropy, hbuild⟩ := hears_buildV2xMsg hss hlen hpacket
  refine ⟨entropy, s.trace ++ builtEvents (ss.v2.sessionState = .active) packet 0 payload, ?_⟩
  have hexpect : Hears wire (expect (sendable ss.v2.sessionState payload)) s [] () s := by
    rw [hstate]
    exact .pure _ _
  unfold buildPayload
  refine (hears_theSession hss).step ?_
  cases payload with
  | ipmi req => cases hp
  | sol p => cases hp
  | openRequest msg | rakp1 msg | rakp3 msg => exact hexpect.step (hbuild.step (.pure _ _))

/-! ### Receiving -/

theorem hears_recvPacket {d : List UInt8} (hfd : ValidFd s.intf.fd) (hd : d ≠ [])
    (hlen : d.length < bufSize) :
    Hears wire recvPacket s [some d] true { s with recvRsp := Response.receive s.recvRsp d } := by
  intro rest
  obtain ⟨h0, h1⟩ := hfd
  have hfd : ¬ ((wire.feed ([some d] ++ rest) s).intf.fd < 0 ∨
      1024 ≤ (wire.feed ([some d] ++ rest) s).intf.fd) := by
    change ¬ (s.intf.fd < 0 ∨ 1024 ≤ s.intf.fd)
    omega
  have hrecv : (wire.feed ([some d] ++ rest) s).net.recv.1 = some d := rfl
  unfold recvPacket
  simp only [bind_ok, get_ok]
  refine ⟨_, _, ⟨rfl, rfl⟩, ?_⟩
  rw [if_neg hfd]
  simp only [bind_ok, set_ok, hrecv, if_neg hd, if_neg (Nat.not_le.mpr hlen), modify_ok]
  exact ⟨⟨⟩, _, rfl, ⟨⟩, _, rfl, rfl⟩

theorem hears_recvPacket_none (hfd : ValidFd s.intf.fd) :
    Hears wire recvPacket s [none] false s := by
  intro rest
  obtain ⟨h0, h1⟩ := hfd
  have hfd : ¬ ((wire.feed ([none] ++ rest) s).intf.fd < 0 ∨
      1024 ≤ (wire.feed ([none] ++ rest) s).intf.fd) := by
    change ¬ (s.intf.fd < 0 ∨ 1024 ≤ s.intf.fd)
    omega
  unfold recvPacket
  simp only [bind_ok, get_ok]
  refine ⟨_, _, ⟨rfl, rfl⟩, ?_⟩
  rw [if_neg hfd]
  simp only [bind_ok, set_ok]
  exact ⟨⟨⟩, _, rfl, rfl⟩

/-- A poll that finds a datagram. -/
theorem hears_pollSingle {d : List UInt8} {res : PollResult} {entries : List Entry} {r : Response}
    {evs : List Event} (hss : s.intf.session = some ss) (hfd : ValidFd s.intf.fd) (hd : d ≠ [])
    (hlen : d.length < bufSize)
    (hpacket : handlePacket K ss s.reqEntries (Response.receive s.recvRsp d) = .ok
      (res, entries, r, evs)) :
    Hears wire (pollSingle K) s [some d] res
      { s with reqEntries := entries, recvRsp := r, trace := s.trace ++ evs } := by
  unfold pollSingle
  refine (hears_theSession hss).step ((hears_recvPacket hfd hd hlen).andThen ?_)
  intro rest
  rw [if_pos rfl]
  simp only [bind_ok, get_ok, lift_ok, set_ok, pure_ok]
  exact ⟨_, _, ⟨rfl, rfl⟩, (res, entries, r, evs), _, ⟨hpacket, rfl⟩, ⟨⟩, _, rfl, rfl, rfl⟩

theorem hears_pollSingle_none (hss : s.intf.session = some ss) (hfd : ValidFd s.intf.fd) :
    Hears wire (pollSingle K) s [none] .none { s with trace := s.trace ++ [.timeout] } := by
  unfold pollSingle
  refine (hears_theSession hss).step ((hears_recvPacket_none hfd).andThen ?_)
  exact (hears_record _).step (.pure _ _)

/-- The wait for an answer that comes at once. -/
theorem hears_await {payload : V2Payload} {l : Locals} {d : List UInt8} (hp : ∀ p, payload ≠ .sol p)
    (h : Hears wire (pollSingle K) s [some d] .got t) (hcc : t.recvRsp.ccode ≠ 0xcf) :
    Hears wire (await K payload l) s [some d] (true, true) t := by
  intro rest
  have hwait : pollPastDuplicates K ((wire.feed ([some d] ++ rest) s).net.inbox.length + 1)
      (wire.feed ([some d] ++ rest) s) = .ok (true, wire.feed rest t) :=
    (pollPastDuplicates_iff (Nat.lt_succ_self _)).mpr (.got (h rest) hcc)
  cases payload with
  | sol p => exact absurd rfl (hp p)
  | ipmi req | openRequest msg | rakp1 msg | rakp3 msg =>
    unfold await
    simp only [bind_ok, get_ok]
    exact ⟨_, _, ⟨rfl, rfl⟩, true, _, hwait, rfl⟩

/-- The wait for the answer to a handshake message that does not come. -/
theorem hears_await_none {payload : V2Payload} {l : Locals} (hp : isHandshake payload = true)
    (h : Hears wire (pollSingle K) s [none] .none t) :
    Hears wire (await K payload l) s [none] (false, false) t := by
  intro rest
  have hwait : pollPastDuplicates K ((wire.feed ([none] ++ rest) s).net.inbox.length + 1)
      (wire.feed ([none] ++ rest) s) = .ok (false, wire.feed rest t) :=
    (pollPastDuplicates_iff (Nat.lt_succ_self _)).mpr (.missed (h rest))
  cases payload with
  | sol p => cases hp
  | ipmi req => cases hp
  | openRequest msg | rakp1 msg | rakp3 msg =>
    unfold await
    simp only [bind_ok, get_ok]
    exact ⟨_, _, ⟨rfl, rfl⟩, false, _, hwait, rfl⟩

/-! ### Handshake messages -/

/-- What an exchange needs: no send fails, answers are waited for, at least one try is made and the
descriptor can be waited on. -/
structure Online (s : St) : Prop where
  sends : true ∉ s.net.sendFails
  noanswer : s.intf.noanswer = false
  retry : 0 < s.intf.ssnParams.retry
  fd : ValidFd s.intf.fd

/-- The session after a handshake message went out. -/
def sentSession (ss : Session) (payload : V2Payload) : Session :=
  { ss with outSeq := nextSeq ss.outSeq, v2 := { ss.v2 with sessionState := sentState payload } }

/-- **What an exchange does**: one packet went out, and the response buffer holds `r`. -/
structure Exchanged (s : St) (ss : Session) (packet : List UInt8) (r : Response)
    (t : St) : Prop where
  intf : t.intf = { s.intf with session := some ss }
  rsp : t.recvRsp = r
  entries : t.reqEntries = s.reqEntries
  sent : t.net.sent = s.net.sent ++ [packet]
  sends : true ∉ t.net.sendFails
  bridgePossible : t.bridgePossible = s.bridgePossible

theorem Exchanged.online {packet : List UInt8} {r : Response} (h : Exchanged s ss packet r t)
    (hs : Online s) : Online t where
  sends := h.sends
  noanswer := by rw [h.intf]; exact hs.noanswer
  retry := by rw [h.intf]; exact hs.retry
  fd := by rw [h.intf]; exact hs.fd

section Handshake
variable {payload : V2Payload} {length : UInt16} {packet : List UInt8}
  (hp : isHandshake payload = true) (hon : Online s) (hss : s.intf.session = some ss)
  (hstate : sendable ss.v2.sessionState payload = true)
  (hlen : wireLength s.intf s.bridgePossible payload = .ok length)
  (hpacket : packetOf K s.intf ss (payloadType payload) (wireRep s.intf s.bridgePossible 0 payload)
    length (nextIv s ss) = .ok packet)
include hp hon hss hstate hlen hpacket

/-- A handshake message goes out, and the session remembers it. -/
theorem hears_sends : ∃ l t, Hears wire (transmit K payload {}) s [] (some l) t ∧
    t.intf = { s.intf with session := some { ss with outSeq := nextSeq ss.outSeq } } ∧
    t.recvRsp = s.recvRsp ∧ t.reqEntries = s.reqEntries ∧ t.net.sent = s.net.sent ++ [packet] ∧
    true ∉ t.net.sendFails ∧ t.bridgePossible = s.bridgePossible := by
  obtain ⟨entropy, trace, hbuild⟩ : ∃ entropy trace,
      Hears wire (buildPayload K payload false) (ticked s) []
      (none, packet) { ticked s with
        intf := { s.intf with session := some { ss with outSeq := nextSeq ss.outSeq } }
        net := { s.net.time.2 with entropy }
        trace } :=
    hears_buildPayload hp hss hstate hlen (by rw [nextIv_time]; exact hpacket)
  have hsends : true ∉ s.net.time.2.sendFails := by
    rw [Net.time_sendFails]
    exact hon.sends
  refine ⟨_, _, hears_transmit rfl hbuild hsends, rfl, rfl, rfl, ?_, ?_, rfl⟩
  · change (Net.send _ packet).2.sent = _
    rw [sent_send]
    change s.net.time.2.sent ++ _ = _
    rw [sent_time]
  · intro hmem
    exact hsends ((Net.send_sendFails { s.net.time.2 with entropy } packet).subset hmem)

/-- The message goes out and its answer `d` comes. -/
theorem hears_sendPayload {d : List UInt8} {r : Response} {evs : List Event} (hd : d ≠ [])
    (hdlen : d.length < bufSize) (hcc : r.ccode ≠ 0xcf)
    (hhandle : handlePacket K (sentSession ss payload) s.reqEntries (Response.receive s.recvRsp d) =
      .ok (.got, s.reqEntries, r, evs)) :
    ∃ t, Hears wire (sendPayload K payload) s [some d] true t ∧
      Exchanged s (sentSession ss payload) packet r t := by
  obtain ⟨l, t, htransmit, hintf, hrsp, hentries, hsent, hsends, hbridge⟩ :=
    hears_sends hp hon hss hstate hlen hpacket
  obtain ⟨n, hn⟩ : ∃ n, s.intf.ssnParams.retry.toNat = n + 1 := by
    have := hon.retry
    exact ⟨s.intf.ssnParams.retry.toNat - 1, by omega⟩
  have hts : t.intf.session = some { ss with outSeq := nextSeq ss.outSeq } := by rw [hintf]
  set u : St := t.withSession (sentSession ss payload) with hu
  have hpoll : Hears wire (pollSingle K) u [some d] .got
      { u with reqEntries := s.reqEntries, recvRsp := r, trace := u.trace ++ evs } := by
    refine hears_pollSingle rfl ?_ hd hdlen ?_
    · rw [hu]
      change ValidFd t.intf.fd
      rw [hintf]
      exact hon.fd
    · change handlePacket K _ t.reqEntries (Response.receive t.recvRsp d) = _
      rw [hentries, hrsp]
      exact hhandle
  refine ⟨{ u with reqEntries := s.reqEntries, recvRsp := r, trace := u.trace ++ evs }, ?_, ?_⟩
  · unfold sendPayload
    refine (hears_theSession hss).step (.read (fun _ => rfl) ?_)
    rw [hn]
    have hloop : Hears wire (sendLoop K payload (n + 1) {}) s [some d] (some true)
        { u with reqEntries := s.reqEntries, recvRsp := r, trace := u.trace ++ evs } := by
      unfold sendLoop
      refine htransmit.step (.read (fun _ => rfl) ?_)
      have hno : t.intf.noanswer = false := by
        rw [hintf]
        exact hon.noanswer
      simp only [hno, Bool.false_eq_true, if_false]
      rw [remember_handshake hp]
      refine (hears_setState (sentState payload) hts).step ?_
      exact (hears_await (fun q hq => by rw [hq] at hp; cases hp) hpoll hcc).andThen (.pure _ _)
    refine hloop.andThen ?_
    exact (hears_modifySession rfl).step (.pure _ _)
  · refine ⟨?_, rfl, rfl, hsent, hsends, hbridge⟩
    change { t.intf with session := some (sentSession ss payload) } = _
    rw [hintf]

/-- The message goes out and nothing comes. -/
theorem hears_sendPayload_none (htimeout : ss.timeout ≠ 0xffffffff) :
    ∃ t, Hears wire (sendPayload K payload) s [none] false t ∧
      Exchanged s (sentSession ss payload) packet s.recvRsp t := by
  obtain ⟨l, t, htransmit, hintf, hrsp, hentries, hsent, hsends, hbridge⟩ :=
    hears_sends hp hon hss hstate hlen hpacket
  obtain ⟨n, hn⟩ : ∃ n, s.intf.ssnParams.retry.toNat = n + 1 := by
    have := hon.retry
    exact ⟨s.intf.ssnParams.retry.toNat - 1, by omega⟩
  have hts : t.intf.session = some { ss with outSeq := nextSeq ss.outSeq } := by rw [hintf]
  have hfd : ValidFd t.intf.fd := by
    rw [hintf]
    exact hon.fd
  set u : St :=
    { t.withSession (sentSession ss payload) with trace := t.trace ++ [.timeout] } with hu
  have hpoll : Hears wire (pollSingle K) (t.withSession (sentSession ss payload)) [none] .none u :=
    hears_pollSingle_none rfl hfd
  -- the timeout may grow here, but it is put back
  obtain ⟨elapsed, v, htimed, hv⟩ : ∃ elapsed v, Hears wire (timedOut l.ltime) u [] elapsed v ∧
      ∃ timeout, v = (ticked u).withSession { sentSession ss payload with timeout } := by
    unfold timedOut
    by_cases he : (ss.timeout.toNat : ℤ) ≤ u.net.time.1 - l.ltime
    · refine ⟨true,
        (ticked u).withSession { sentSession ss payload with timeout := ss.timeout + 1 }, ?_, _,
        rfl⟩
      refine hears_time.step ((hears_theSession rfl).step ?_)
      have he' : decide (((sentSession ss payload).timeout.toNat : ℤ) ≤ u.net.time.1 - l.ltime) =
          true :=
        decide_eq_true he
      have hne : (sentSession ss payload).timeout ≠ 0xffffffff := htimeout
      simp only [he', if_true, hne, if_false]
      exact (hears_modifySession rfl).step (.pure _ _)
    · refine ⟨false, ticked u, ?_, ss.timeout, rfl⟩
      refine hears_time.step ((hears_theSession rfl).step ?_)
      have he' : decide (((sentSession ss payload).timeout.toNat : ℤ) ≤ u.net.time.1 - l.ltime) =
          false :=
        decide_eq_false he
      simp only [he', Bool.false_eq_true, if_false]
      exact .pure _ _
  obtain ⟨timeout, rfl⟩ := hv
  refine ⟨(ticked u).withSession (sentSession ss payload), ?_, ?_⟩
  · unfold sendPayload
    refine (hears_theSession hss).step (.read (fun _ => rfl) ?_)
    rw [hn]
    have hloop : Hears wire (sendLoop K payload (n + 1) {}) s [none] (some false)
        ((ticked u).withSession { sentSession ss payload with timeout }) := by
      unfold sendLoop
      refine htransmit.step (.read (fun _ => rfl) ?_)
      have hno : t.intf.noanswer = false := by
        rw [hintf]
        exact hon.noanswer
      simp only [hno, Bool.false_eq_true, if_false]
      rw [remember_handshake hp]
      refine (hears_setState (sentState payload) hts).step ?_
      refine (hears_await_none hp hpoll).andThen ?_
      simp only [Bool.false_eq_true, if_false, hp, if_true]
      exact htimed.step (.pure _ _)
    refine hloop.andThen ?_
    exact (hears_modifySession rfl).step (.pure _ _)
  · refine ⟨?_, hrsp, hentries, ?_, ?_, hbridge⟩
    · change { t.intf with session := some (sentSession ss payload) } = _
      rw [hintf]
    · change t.net.time.2.sent = _
      rw [sent_time, hsent]
    · change true ∉ t.net.time.2.sendFails
      rw [Net.time_sendFails]
      exact hsends

end Handshake

end Ipmitool.Peer.Exchange
