import Ipmitool.Peer.Turns

/-! # Commands in a session

From one command to a list of them (`requests_served`) the two parties are compared with the
controller alone, and `handshakeThen_served` puts the handshake in front. -/

namespace Ipmitool.Peer.Session

open Ipmitool.Lib.Conversation
open Ipmitool.Core.Types Ipmitool.Crypto.Mac
open Ipmitool.Lanplus.State
open Ipmitool.Lanplus.Build (entryBridgingLevel bridgedRequest)
open Ipmitool.Lanplus.Send (getDeviceId sendIpmiCmd)
open Ipmitool.Lanplus.Packet (KnownIntegrity KnownCrypt)
open Ipmitool.Lanplus.Open (Ciphers getRequestedCiphers handshakeLoop lanRetry lanAttachRequest)
open Ipmitool.Peer.Controller Ipmitool.Peer.Exchange Ipmitool.Peer.Packets Ipmitool.Peer.Handshake
open Ipmitool.Peer.Agreement Ipmitool.Peer.Commands Ipmitool.Peer.Turns

variable {K : Primitives} {other : List UInt8 → Bool → B (List UInt8)} {s : St} {ss : Session}
  {b c : Bmc} {level : ℕ}

/-! ### A run of commands -/

/-- A command as its caller sees it: the completion code and the data of the response, if there is
one. -/
def ask (K : Primitives) (req : Request) : M (Option Answer) := do
  let got ← sendIpmiCmd K req
  let s ← get
  return if got then some { ccode := s.recvRsp.ccode, data := s.recvRsp.bytes } else none

/-- **The two parties are in a session**, and the transport can ask. -/
structure Ready (level : ℕ) (s : St) (ss : Session) (b : Bmc) :
    Prop extends Attached level s ss b where
  secure : Secure ss b
  bmcId : ss.v2.bmcId ≠ 0

/-- While `n` commands are still to come: the transport can ask, and the controller differs from
`q`, which serves the requests alone, in the counters of its session only. -/
def Running (level : ℕ) (p : Personality) (n : ℕ) (s : St) (b q : Bmc) : Prop :=
  ∃ ss received v2, b = { q with received, v2 } ∧ q.p = p ∧ Ready level s ss b ∧
    ahead b < s.intf.ssnParams.retry.toNat ∧ Timely n s.net.clock ss.timeout b

theorem running_served (other : List UInt8 → Bool → B (List UInt8)) {p : Personality}
    {reqs : List Request}
    {answers : List Answer} {q : Bmc} (h : Running level p reqs.length s b q)
    (hserved : List.Forall₂ (Served p level) reqs answers)
    (hserve : reqs.mapM (serve (2 - level)) q = .ok (answers, c)) :
    ∃ t b', Converses wire (handle K other) (reqs.mapM (ask K)) s b (answers.map some) t b' ∧
      Running level p 0 t b' c := by
  refine Converses.mapM (ask K) (serve (2 - level)) some (Running level p) ?_ hserved h hserve
  rintro n req a s b' q q' hserved ⟨ss, received, v2, rfl, hp, hready, hloss, htime⟩ hserve
  obtain ⟨hkept, hblind⟩ := blind_dispatch (2 - level) _ _ _ _ hserve
  obtain ⟨t, ss', b', hconv, ht, hasked, hsame, hhold, htime'⟩ := sendIpmiCmd_served (K := K) other
    hready.toAttached (by rw [hp]; exact hserved) (hblind received v2)
      (fun hold => absurd hold.2.2 hready.bmcId)
    hloss htime
  obtain ⟨received', seq, rfl⟩ := hasked.bmc
  have hanswer : a = { ccode := t.recvRsp.ccode, data := t.recvRsp.bytes } := by
    rw [hhold.1, hhold.bytes]
  refine ⟨t, _, ?_, ss', received', _, rfl, hkept.p.trans hp,
    ⟨ht, hready.secure.of_eq hasked.v2 hkept.p ⟨seq, rfl⟩,
    by rw [hasked.v2]; exact hready.bmcId⟩, ?_, by rw [hsame]; exact htime'⟩
  · rw [hanswer]
    exact hconv.bind (.read (fun _ => rfl) (.of_hears (.pure _ _) rfl))
  · rw [hasked.intf]
    exact Nat.lt_of_le_of_lt (ahead_le (b := { q with received, v2 }) hkept.p hasked.received) hloss

/-- **The session is a transparent channel.** A list of requests gets the answers that the
controller gives to them one by one, each request is served once and in its turn, and the session is
still there. The controller is in the state that the requests alone lead to, apart from the counters
of its session: with every datagram that is lost a request is repeated, as long as there are fewer
losses ahead than tries. -/
theorem requests_served {reqs : List Request} {answers : List Answer} (h : Ready level s ss b)
    (hloss : ahead b < s.intf.ssnParams.retry.toNat)
    (htime : Timely reqs.length s.net.clock ss.timeout b)
    (hserved : List.Forall₂ (Served b.p level) reqs answers)
    (hserve : reqs.mapM (serve (2 - level)) b = .ok (answers, c)) :
    ∃ t ss' received v2,
      Converses wire (handle K other)
        (reqs.mapM (ask K)) s b (answers.map some) t { c with received, v2 } ∧
      Ready level t ss' { c with received, v2 } := by
  obtain ⟨t, b', hconv, ss', received, v2, rfl, -, hready, -⟩ := running_served (K := K) other
    ⟨ss, b.received, b.v2, rfl, rfl, h, hloss, htime⟩ hserved hserve
  exact ⟨t, ss', received, v2, hconv, hready⟩

/-- The keys of a session. -/
def sessionKeys : Keys :=
  { k1 := (List.range 32).map UInt8.ofNat
    k1Len := 20
    k2 := (List.range 32).map fun i => UInt8.ofNat (7 * i + 5)
    k2Len := 20 }

/-- The session of the transport with these keys. -/
def keyed : Session :=
  { timeout := 1
    v2 :=
      { sessionState := .active
        integrityAlg := integrityHmacSha1
        cryptAlg := cryptAesCbc
        bmcId := 0x5a6b7c8d
        consoleId := 0xa0a2a3a4
        k1 := sessionKeys.k1
        k1Len := sessionKeys.k1Len
        k2 := sessionKeys.k2
        k2Len := sessionKeys.k2Len } }

/-- A transport in that session with a controller behind another one. -/
def bridging : St :=
  { intf :=
      { fd := 3
        ssnParams := { retry := 4, timeout := 1 }
        session := some keyed
        myAddr := 0x20
        targetAddr := 0x82 }
    net := { clock := [0, 5, 10, 15, 20, 25] }
    bridgePossible := true }

/-- Its controller, which loses the second datagram. -/
def forgetful : Bmc :=
  { p := { drop := [2] }
    v2 :=
      { state := .active
        integrityAlg := integrityHmacSha1
        cryptAlg := cryptAesCbc
        consoleId := 0xa0a2a3a4
        keys := sessionKeys } }

/-- Get Device ID and a command that the controller does not know. -/
def twoRequests : List Request := [getDeviceId, lanAttachRequest]

/-- What comes back. -/
def twoAnswers : List Answer := [{ data := deviceId }, { ccode := 0xc1 }]

theorem secure_keyed : Secure keyed forgetful where
  console := rfl
  bmc := rfl
  bmcId := rfl
  consoleId := rfl
  integrityAlg := rfl
  cryptAlg := rfl
  integrityKnown := .inr (.inl rfl)
  cryptKnown := .inr rfl
  k1 := fun _ => rfl
  k2 := fun _ => rfl

theorem ready_bridging : Ready 1 bridging keyed forgetful where
  online := ⟨by decide, rfl, by decide, ⟨by decide, by decide⟩⟩
  session := rfl
  sync := .inl secure_keyed
  entries := rfl
  bridged := rfl
  recorded := rfl
  v15 := rfl
  secure := secure_keyed
  bmcId := by decide

theorem served_twoRequests : List.Forall₂ (Served forgetful.p 1) twoRequests twoAnswers := by
  have hforwards : Forwards forgetful.p := ⟨by decide, rfl, by decide⟩
  refine .cons ?_ (.cons ?_ .nil) <;>
    exact ⟨by decide, fun h => absurd h (by decide), fun _ => hforwards, fun _ => by decide, by
      decide, by decide,
      fun _ => by decide, by decide⟩

/-- Two bridged requests, of which the second one has to be repeated. -/
theorem requests_served_bridging : ∃ t ss' received v2,
    Converses wire (handle mixed fun _ _ => pure []) (twoRequests.mapM (ask mixed))
        bridging forgetful [some { data := deviceId },
          some { ccode := 0xc1 }] t { forgetful with received, v2 } ∧
      Ready 1 t ss' { forgetful with received, v2 } :=
  requests_served ready_bridging (by decide) (fun _ =>
    ⟨5, by decide, by decide, by decide, by decide⟩)
    served_twoRequests rfl

/-! ### The handshake and the commands -/

theorem getRequestedCiphers_none {suite : CipherSuiteId} {x : Ciphers}
    (h : getRequestedCiphers suite = some x) (hnone : x.authAlg = authRakpNone) :
    x.integrityAlg = integrityNone ∧ x.cryptAlg = cryptNone := by
  unfold getRequestedCiphers at h
  split at h <;> cases h <;> first | exact ⟨rfl, rfl⟩ | exact absurd hnone (by decide)

theorem secure_of_agreed {suite : CipherSuiteId} {x : Ciphers} (h : Agreed x ss b)
    (hx : getRequestedCiphers suite = some x) (hint : KnownIntegrity x.integrityAlg)
    (hcrypt : KnownCrypt x.cryptAlg) : Secure ss b where
  console := h.console
  bmc := h.bmc
  bmcId := h.matched.bmcId
  consoleId := h.matched.consoleId
  integrityAlg := h.matched.bmcIntegrityAlg.trans h.matched.integrityAlg.symm
  cryptAlg := h.matched.bmcCryptAlg.trans h.matched.cryptAlg.symm
  integrityKnown := by rw [h.matched.integrityAlg]; exact hint
  cryptKnown := by rw [h.matched.cryptAlg]; exact hcrypt
  k1 hne := by
    rw [h.matched.integrityAlg] at hne
    exact (h.keys fun hnone => hne (getRequestedCiphers_none hx hnone).1).k1.symm
  k2 hne := by
    rw [h.matched.cryptAlg] at hne
    exact (h.keys fun hnone => hne (getRequestedCiphers_none hx hnone).2).k2.symm

/-- The handshake and then a list of commands. -/
def handshakeThen (K : Primitives) (n : ℕ) (reqs : List Request) :
    M (Option (List (Option Answer))) := do
  if ← handshakeLoop K n then return some (← reqs.mapM (ask K)) else return none

/-- **From the first packet to the last answer**: on a network that loses nothing, a controller that
takes part to the end gets into a session by the handshake, and every command gets the controller's
answer. -/
theorem handshakeThen_served {n : ℕ} {x : Ciphers} {reqs : List Request} {answers : List Answer}
    (h : Introduced s ss b) (hx : getRequestedCiphers s.intf.ssnParams.cipherSuiteId = some x)
    (hwilling : Willing b.p x) (hint : KnownIntegrity x.integrityAlg)
    (hcrypt : KnownCrypt x.cryptAlg) (hid : b.p.bmcId ≠ 0) (hentries : s.reqEntries = [])
    (hbridged : bridgedRequest s.intf s.bridgePossible = level)
    (hrecorded : entryBridgingLevel s.intf s.bridgePossible = level) (hv15 : b.v15.active = false)
    (hn : 0 < n) (hdrop : b.p.drop = []) (hserved : List.Forall₂ (Served b.p level) reqs answers)
    (hserve : reqs.mapM (serve (2 - level)) b = .ok (answers, c)) :
    ∃ t ss' received v2,
      Converses wire (handle K other) (handshakeThen K n reqs) s b (some (answers.map some)) t
        { c with received, v2 } ∧
      Ready level t ss' { c with received, v2 } := by
  have hnoloss : ∀ b' : Bmc, b'.p = b.p → ahead b' = 0 := by
    intro b' hp
    rw [ahead, hp, hdrop]
    rfl
  obtain ⟨ok, t, ss1, b1, hshake, hkeeps, ⟨rfl, -, hagreed⟩ | ⟨-, hunwilling⟩⟩ :=
    handshakeLoop_ends (K := K) other h hx (by rw [hnoloss b rfl]; exact hn)
  swap
  · exact absurd hwilling hunwilling
  have hsecure := secure_of_agreed hagreed hx hint hcrypt
  obtain ⟨abort, hintf⟩ := hkeeps.intf
  have hready : Ready level t ss1 b1 := {
    online := hkeeps.online h.online
    session := by rw [hintf]
    sync := .inl hsecure
    entries := by rw [hkeeps.entries]; exact hentries
    bridged := by rw [hintf, hkeeps.bridgePossible]; exact hbridged
    recorded := by rw [hintf, hkeeps.bridgePossible]; exact hrecorded
    v15 := by
      obtain ⟨_, _, rfl⟩ := hkeeps.bmc
      exact hv15
    secure := hsecure
    bmcId := by rw [hsecure.bmcId, hkeeps.p]; exact hid }
  have hnoloss1 := hnoloss b1 hkeeps.p
  have hretry := hready.online.retry
  obtain ⟨received, v2, rfl⟩ := hkeeps.bmc
  obtain ⟨u, b', hrun, ss2, received', v2', rfl, -, hu, -⟩ := running_served (K := K) other
    ⟨ss1, received, v2, rfl, rfl, hready, by rw [hnoloss1]; omega, fun hpos => by omega⟩
    hserved hserve
  refine ⟨u, ss2, received', v2', ?_, hu⟩
  exact hshake.bind (hrun.bind (.of_hears (.pure _ _) rfl))

/-- A controller that loses nothing. -/
def careful : Bmc := { p := {} }

theorem handshakeThen_served_careful : ∃ t ss' received v2,
    Converses wire (handle mixed fun _ _ => pure [])
        (handshakeThen mixed lanRetry twoRequests) newcomer careful
        (some [some { data := deviceId }, some { ccode := 0xc1 }]) t { careful with received, v2 } ∧
      Ready 0 t ss' { careful with received, v2 } := by
  have hintroduced : Introduced newcomer {} careful :=
    ⟨⟨by decide, rfl, by decide, by decide, by decide⟩,
      rfl, by decide, by decide, by decide, rfl, rfl, rfl,
      by decide, by decide, by decide⟩
  have hserved : List.Forall₂ (Served careful.p 0) twoRequests twoAnswers := by
    refine .cons ?_ (.cons ?_ .nil) <;>
      exact ⟨by decide, fun _ => by decide, fun h => absurd h (by decide), fun h => absurd h (by
        decide), by decide,
        by decide, fun h => absurd h (by decide), by decide⟩
  exact handshakeThen_served hintroduced rfl (by decide) (.inr (.inl rfl)) (.inr rfl)
    (by decide) rfl rfl rfl
    rfl (by decide) rfl hserved rfl

end Ipmitool.Peer.Session
