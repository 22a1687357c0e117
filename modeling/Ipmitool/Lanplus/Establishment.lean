import Ipmitool.Lanplus.Handshake

/-! # `open` establishes a session

The commands before and after the handshake keep what the retry loop needs and what it achieved
(`commanding_kept`). The retry loop of `open` ends in the same way after a success and after its
fourth timeout, so a successful `open` stands for an established session exactly if the loop
`Completes`: fewer messages than attempts are lost, and no wait of the last attempt ends with a
packet that is not its answer (`open_established_iff`). With a silent BMC all four attempts time out
and `open` still succeeds. -/

namespace Ipmitool.Lanplus.Establishment

open Ipmitool.Lib.Mem Ipmitool.Lib.Machine Ipmitool.Core.Types Ipmitool.Core.Network
open Ipmitool.Crypto.Mac Ipmitool.Intf Ipmitool.Lanplus.State Ipmitool.Lanplus.Receive
open Ipmitool.Lanplus.Send Ipmitool.Lanplus.Steps Ipmitool.Lanplus.Correlation
open Ipmitool.Lanplus.Open Ipmitool.Lanplus.Handshake

variable {K : Primitives} {s s' t u : St}

/-! ### Around the handshake -/

/-- What all steps keep, as a frame. -/
def kept : Frame St := ⟨Kept, Kept.refl, Kept.trans⟩

theorem commanding_kept : Commanding K kept where
  sendIpmiCmd req _ _ _ h := Run.kept (moves_sendIpmiCmd tame_run req _ _ _ h)
  alike h :=
    ⟨h.params, h.noanswer, h.fd, by rw [h.session], by simp [h.net], [], by simp [h.trace],
      by simp⟩

/-- The state with the session that `open` starts with. -/
def fresh (s : St) : St :=
  { s with intf := { s.intf with session := some (freshSession s.intf.ssnParams), abort := true } }

/-- **Before the handshake** no session is opened, and the number of tries stays. -/
theorem openPrologue_ok {b : Bool} (h : openPrologue K s = .ok (b, s')) :
    s'.intf.ssnParams.retry = s.intf.ssnParams.retry ∧ s'.intf.noanswer = s.intf.noanswer ∧
      stateOf s' = some .presession := by
  unfold openPrologue at h
  simp only [bind_ok, modify_ok] at h
  obtain ⟨_, _, rfl, good, t, hv2, h⟩ := h
  have h1 : Kept (fresh s) t := moves_supportsV2 commanding_kept _ _ _ hv2
  have hstart : t.intf.ssnParams.retry = s.intf.ssnParams.retry ∧
      t.intf.noanswer = s.intf.noanswer ∧
      stateOf t = some .presession := ⟨by rw [h1.params]; rfl, h1.noanswer, h1.stateOf⟩
  cases good with
  | false =>
    obtain ⟨-, rfl⟩ := pure_ok.mp h
    exact hstart
  | true =>
    simp only [Bool.not_true, Bool.false_eq_true, if_false, bind_ok, get_ok] at h
    obtain ⟨_, _, ⟨rfl, rfl⟩, h⟩ := h
    by_cases hsuite : t.intf.ssnParams.cipherSuiteId = suiteReserved
    · rw [if_pos hsuite] at h
      simp only [bind_ok, modify_ok, pure_ok] at h
      obtain ⟨suite, u, hbest, _, _, rfl, -, rfl⟩ := h
      have h2 : Kept t u := moves_findBestCipherSuite commanding_kept _ _ _ hbest
      exact ⟨by rw [← hstart.1, ← h2.params], h2.noanswer.trans hstart.2.1,
        h2.stateOf.trans hstart.2.2⟩
    · rw [if_neg hsuite] at h
      obtain ⟨-, rfl⟩ := pure_ok.mp h
      exact hstart

/-- **After the handshake** the session is left alone. -/
theorem openEpilogue_kept {b : Bool} (h : openEpilogue K s = .ok (b, s')) :
    Kept { s with trace := s.trace ++ [.opened] } s' :=
  openEpilogue_rel commanding_kept h

theorem Ordinary.active {e : Event} (h : Ordinary (some .active) e) :
    e ≠ .attempt ∧ e ∉ exchanged := by
  cases h with
  | spoken hst h =>
    obtain rfl := Option.some.inj hst
    cases h
    simp [exchanged]
  | built | solSent | timeout | pong | badAuthcode | removed => simp [exchanged]

theorem exchanged_append_iff {last post : List Event} (hpost : ∀ e ∈ post, e ∉ exchanged) :
    exchanged.Sublist (last ++ post) ↔ exchanged.Sublist last := by
  constructor
  · intro h
    obtain ⟨l1, l2, heq, h1, h2⟩ := List.sublist_append_iff.mp h
    have hnil : l2 = [] := by
      refine List.eq_nil_iff_forall_not_mem.mpr fun e he => hpost e (h2.subset he) ?_
      rw [heq]
      exact List.mem_append_right _ he
    rwa [heq, hnil, List.append_nil]
  · exact fun h => h.trans (List.sublist_append_left _ _)

theorem Agreed.kept (h : Agreed s) (hk : Kept s t) : Agreed t := by
  obtain ⟨ss, c, hss, hc, h1, h2, h3⟩ := h
  have hv2 := hk.v2
  rw [hss] at hv2
  obtain ⟨ss', hss', hv⟩ := Option.map_eq_some_iff.mp hv2
  exact ⟨ss', c, hss', by rw [hk.params, hc], by rw [hv, h1], by rw [hv, h2], by rw [hv, h3]⟩

/-! ### `open` -/

/-- The events of a call. -/
def eventsOf (s s' : St) : List Event := s'.trace.drop s.trace.length

/-- The interface with a connected socket. -/
def connected (s : St) (fd : ℕ) : St :=
  { s with intf := { s.intf with ssnParams := defaultParams s.intf.ssnParams, fd := fd } }

theorem open_ok {fd : ℤ} (h : «open» K s = .ok (fd, s')) (hfd : 0 ≤ fd) :
    (s.intf.session.isSome ∧ s' = s) ∨
      (s.intf.session = none ∧ ∃ n, s.net.connects = some n ∧
        openConnected K (connected s n) = .ok (true, s')) := by
  unfold «open» at h
  simp only [bind_ok, get_ok] at h
  obtain ⟨_, _, ⟨rfl, rfl⟩, h⟩ := h
  cases hss : s.intf.session with
  | some ss =>
    simp only [hss, Option.isSome_some, if_true, pure_ok] at h
    exact .inl ⟨rfl, h.2.symm⟩
  | none =>
    refine .inr ⟨rfl, ?_⟩
    simp only [hss, Option.isSome_none, Bool.false_eq_true, if_false, bind_ok, modify_ok] at h
    obtain ⟨_, _, rfl, h⟩ := h
    by_cases hhost : s.intf.ssnParams.hostname = []
    · rw [if_pos hhost] at h
      obtain ⟨rfl, -⟩ := pure_ok.mp h
      omega
    · rw [if_neg hhost] at h
      rcases hcon : s.net.connects with _ | n
      · rw [hcon] at h
        simp only [bind_ok, pure_ok] at h
        obtain ⟨_, _, -, rfl, -⟩ := h
        omega
      · rw [hcon] at h
        simp only [bind_ok, modify_ok] at h
        obtain ⟨_, _, rfl, good, t, hrun, h⟩ := h
        cases good with
        | true =>
          simp only [if_true, bind_ok, get_ok, pure_ok] at h
          obtain ⟨_, _, ⟨rfl, rfl⟩, -, rfl⟩ := h
          exact ⟨n, rfl, by simpa [connected, hss] using hrun⟩
        | false =>
          simp only [Bool.false_eq_true, if_false, bind_ok, pure_ok] at h
          obtain ⟨_, _, -, rfl, -⟩ := h
          omega

/-- The retry loop of a successful `open`, from `t` to `u`. -/
structure RetryLoop (K : Primitives) (s t u s' : St) : Prop where
  prologue : ∃ fd, s.net.connects = some fd ∧ openPrologue K (connected s fd) = .ok (true, t)
  loop : handshakeLoop K lanRetry t = .ok (true, u)
  epilogue : openEpilogue K u = .ok (true, s')

theorem openConnected_ok {fd : ℕ} (hfd : s.net.connects = some fd)
    (h : openConnected K (connected s fd) = .ok (true, s')) :
    ∃ t u, RetryLoop K s t u s' := by
  unfold openConnected at h
  simp only [bind_ok] at h
  obtain ⟨good, t, h1, h⟩ := h
  cases good with
  | false =>
    obtain ⟨h, -⟩ := pure_ok.mp h
    cases h
  | true =>
    simp only [Bool.not_true, Bool.false_eq_true, if_false, bind_ok] at h
    obtain ⟨good, u, h2, h⟩ := h
    cases good with
    | false =>
      obtain ⟨h, -⟩ := pure_ok.mp h
      cases h
    | true => exact ⟨t, u, ⟨fd, hfd, h1⟩, h2, h⟩

theorem RetryLoop.presession (h : RetryLoop K s t u s') : stateOf t = some .presession := by
  obtain ⟨fd, -, h1⟩ := h.prologue
  exact (openPrologue_ok h1).2.2

/-- The loop waits for answers exactly if the interface does; a retry count of zero stands for the
default. -/
theorem RetryLoop.sends_iff (h : RetryLoop K s t u s') :
    Sends t ↔ s.intf.noanswer = false ∧ 0 ≤ s.intf.ssnParams.retry := by
  obtain ⟨fd, -, h1⟩ := h.prologue
  obtain ⟨hretry, hno, -⟩ := openPrologue_ok h1
  have hdefault : (0 < t.intf.ssnParams.retry ↔ 0 ≤ s.intf.ssnParams.retry) := by
    rw [hretry]
    simp only [connected, defaultParams, lanRetry]
    split_ifs <;> omega
  exact ⟨fun h => ⟨hno ▸ h.noanswer, hdefault.mp h.retry⟩, fun h => ⟨hno ▸ h.1, hdefault.mpr h.2⟩⟩

/-- How many messages were lost: a wait for the answer ended with nothing, or the send failed. -/
def lost (t u : St) : ℕ := (eventsOf t u).countP missing + (fails t - fails u)

/-- When the retry loop from `t` to `u` ends with a session: an answer is waited for, fewer messages
than attempts are lost, and no wait of the last attempt is diverted from its answer. -/
structure Completes (s t u : St) : Prop where
  noanswer : s.intf.noanswer = false
  retry : 0 ≤ s.intf.ssnParams.retry
  lost_lt : lost t u < lanRetry
  undiverted : ∀ w ∈ waits (lastAttempt (eventsOf t u)), diverted w = false

theorem lost_eq {n : ℕ} {evs : List Event} (h : Stage n t u) (hs : Sends t)
    (htr : u.trace = t.trace ++ evs) : lost t u = n := by
  have hloses := h.loses hs
  have hle := h.fails_le
  simp only [Loses, misses, htr, List.countP_append] at hloses
  simp only [lost, eventsOf, htr, List.drop_left]
  omega

/-- **A successful `open`**: an interface that was open stays as it is; otherwise the session is
established exactly if the retry loop completes. -/
theorem open_established_iff {fd : ℤ} (h : «open» K s = .ok (fd, s')) (hfd : 0 ≤ fd) :
    (s.intf.session.isSome → (Established s' ↔ Established s)) ∧
      (s.intf.session = none → ∃ t u, RetryLoop K s t u s' ∧
        (Established s' ↔ Completes s t u)) := by
  rcases open_ok h hfd with ⟨hsome, rfl⟩ | ⟨hnone, n, hn, hcon⟩
  · exact ⟨fun _ => Iff.rfl, fun hnone => absurd (hnone ▸ hsome) (by decide)⟩
  refine ⟨fun hsome => absurd (hnone ▸ hsome) (by decide), fun _ => ?_⟩
  obtain ⟨t, u, hloop⟩ := openConnected_ok hn hcon
  refine ⟨t, u, hloop, ?_⟩
  have hsends := hloop.sends_iff
  have hk := openEpilogue_kept hloop.epilogue
  obtain ⟨evs, htr⟩ := moves_handshakeLoop opening_grows _ _ _ _ hloop.loop
  rcases handshakeLoop_ok hloop.loop (by simp [hloop.presession]) with
    ⟨m, hm, hstage, hsent, hagreed, hactive, before, last, htr', hconv⟩ | ⟨hstage, hinactive⟩
  · -- the last attempt got something for every message
    have hevs : eventsOf t u = before ++ .attempt :: last := by simp [eventsOf, htr']
    obtain ⟨post, hpost, hord⟩ := hk.trace
    have hquiet : ∀ e ∈ Event.opened :: post, e ≠ .attempt ∧ e ∉ exchanged := by
      intro e he
      rcases List.mem_cons.mp he with rfl | he
      · simp [exchanged]
      · have hstate : stateOf { u with trace := u.trace ++ [.opened] } = some .active := hactive
        exact Ordinary.active (hstate ▸ hord e he)
    have hattempt : .attempt ∉ last ++ .opened :: post := by
      intro hmem
      rcases List.mem_append.mp hmem with hmem | hmem
      · exact hconv.attempt_notMem hmem
      · exact (hquiet _ hmem).1 rfl
    have htr'' : s'.trace = (t.trace ++ before) ++ .attempt :: (last ++ .opened :: post) := by
      rw [hpost, htr']
      simp
    rw [established_iff htr'' hattempt, exchanged_append_iff fun e he => (hquiet e he).2,
      hconv.exchanged_iff]
    have hlast : lastAttempt (eventsOf t u) = last := by
      rw [hevs, lastAttempt_eq hconv.attempt_notMem]
    have hagreed' : Agreed s' :=
      Agreed.kept (t := s') (s := { u with trace := u.trace ++ [.opened] })
        hagreed hk
    have hactive' : stateOf s' = some .active := hk.stateOf.trans hactive
    constructor
    · rintro ⟨hwaits, -⟩
      refine ⟨(hsends.mp hsent).1, (hsends.mp hsent).2, ?_, hlast ▸ hwaits⟩
      rw [lost_eq hstage hsent htr']
      exact hm
    · exact fun hc => ⟨hlast ▸ hc.undiverted, hagreed', hactive'⟩
  · -- every attempt lost a message
    refine ⟨fun hest => ?_, fun hc => ?_⟩
    · obtain ⟨-, -, -, -, -, -, hactive⟩ := hest
      exact absurd (hk.stateOf.symm.trans hactive) hinactive
    · have hlost := hc.lost_lt
      rw [lost_eq hstage (hsends.mpr ⟨hc.noanswer, hc.retry⟩) htr.symm] at hlost
      exact absurd hlost (Nat.lt_irrefl _)

/-- An interface that is opened with a cipher suite, and the datagrams that the BMC will send. -/
def openingState (suite : CipherSuiteId) (inbox : List (Option (List UInt8))) : St where
  intf := { oem := some .i82571spt, ssnParams := { cipherSuiteId := suite } }
  net := { inbox }

/-- A handshake packet with a payload of less than 256 bytes. -/
def handshakePacket (type : UInt8) (payload : List UInt8) : List UInt8 :=
  rmcpHdr ++ [authtypeRmcpPlus, type] ++ List.replicate 8 0 ++ [UInt8.ofNat payload.length,
    0] ++ payload

/-- The answers of a BMC that speaks suite zero. -/
def suiteZeroAnswers : List (Option (List UInt8)) :=
  [some (handshakePacket ptOpenResponse ([0, 0, 0, 0, 1, 0, 0, 0, 1, 0, 0,
    0] ++ List.replicate 24 0)), some (handshakePacket ptRakp2 (List.replicate 40 0)),
    some (handshakePacket ptRakp4 (List.replicate 8 0))]

instance (s t u : St) : Decidable (Completes s t u) :=
  decidable_of_iff (s.intf.noanswer = false ∧ 0 ≤ s.intf.ssnParams.retry ∧ lost t u < lanRetry ∧
    ∀ w ∈ waits (lastAttempt (eventsOf t u)), diverted w = false)
    ⟨fun h => ⟨h.1, h.2.1, h.2.2.1, h.2.2.2⟩, fun h => ⟨h.1, h.2, h.3, h.4⟩⟩

/-- `open` up to the end of its retry loop, and the states before and after the loop. -/
def openLoop (K : Primitives) : M (St × St) := do
  let _ ← openPrologue K
  let t ← get
  let _ ← handshakeLoop K lanRetry
  return (t, ← get)

/-- The first send fails, and the second attempt is answered. -/
def resendingState : St :=
  { openingState 0 suiteZeroAnswers with net := { inbox := suiteZeroAnswers, sendFails := [true] } }

theorem open_established_resent :
    ∃ fd s', «open» (Primitives.tabled []) resendingState = .ok (fd, s') ∧ 0 ≤ fd ∧
    Established s' := by
  have hrun : returns («open» (Primitives.tabled [])) resendingState (fun fd _ => decide (0 ≤ fd)) =
      true := by
    decide +kernel
  have hloop : returns (openLoop (Primitives.tabled [])) (connected resendingState 3) (fun x _ =>
      decide (Completes resendingState x.1 x.2)) = true := by
    decide +kernel
  obtain ⟨fd, s', hopen, hfd⟩ := exists_of_returns hrun
  have hfd := of_decide_eq_true hfd
  obtain ⟨t, u, ⟨⟨fd', hconnects, hprologue⟩, hshake, -⟩, hiff⟩ :=
    (open_established_iff hopen hfd).2 rfl
  obtain rfl := Option.some.inj hconnects
  obtain ⟨x, v, hx, htest⟩ := exists_of_returns hloop
  have hx' : openLoop (Primitives.tabled []) (connected resendingState 3) = .ok ((t, u), u) := by
    unfold openLoop
    rw [bind_run hprologue, bind_run (get_ok.mpr ⟨rfl, rfl⟩), bind_run hshake]
    rfl
  obtain ⟨rfl, -⟩ := Prod.mk.inj (Except.ok.inj (hx'.symm.trans hx))
  exact ⟨fd, s', hopen, hfd, hiff.mpr (of_decide_eq_true htest)⟩

/-- **A silent BMC**: `open` succeeds after four timeouts, with no session. -/
theorem open_succeeds_silent : ∃ fd s', «open» (Primitives.tabled [])
    (openingState 3 []) = .ok (fd, s') ∧
    0 ≤ fd ∧ stateOf s' = some .openSessionSent ∧ ¬ Established s' := by
  have hrun : returns («open» (Primitives.tabled [])) (openingState 3 [])
      (fun fd s' => decide (0 ≤ fd ∧ stateOf s' = some .openSessionSent)) = true := by
    decide +kernel
  obtain ⟨fd, s', hopen, htest⟩ := exists_of_returns hrun
  obtain ⟨hfd, hstate⟩ := of_decide_eq_true htest
  refine ⟨fd, s', hopen, hfd, hstate, ?_⟩
  rintro ⟨-, -, -, -, -, -, hactive⟩
  rw [hstate] at hactive
  cases hactive

end Ipmitool.Lanplus.Establishment
