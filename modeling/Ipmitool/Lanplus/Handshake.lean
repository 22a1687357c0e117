import Mathlib.Data.List.DropRight
import Ipmitool.Lanplus.Correlation

/-! # Session establishment

`Established` is what a successful `open` stands for: the session is active with the algorithms of
the cipher suite, and the last attempt saw an Open Session response, a verified RAKP 2 and a
verified RAKP 4 in this order.

The retry loop of `open` ends in the same way after a success and after its fourth timeout.
`handshakeLoop_ok` tells the two apart: either every attempt has lost a message, its send failing or
its wait ending with nothing (`Loses`), or the last attempt got something for each of its messages
(`Conversed`), which were the messages of the handshake if no wait was `diverted`. `Stage` is what
one of its three exchanges does with the surroundings; the stages of an attempt compose. -/

namespace Ipmitool.Lanplus.Handshake

open Ipmitool.Lib.Mem Ipmitool.Lib.Machine Ipmitool.Core.Types Ipmitool.Core.Network
open Ipmitool.Crypto.Mac Ipmitool.Crypto.LanplusCrypt Ipmitool.Intf Ipmitool.Lanplus.State
open Ipmitool.Lanplus.Receive Ipmitool.Lanplus.Build Ipmitool.Lanplus.Send Ipmitool.Lanplus.Poll
open Ipmitool.Lanplus.Rounds Ipmitool.Lanplus.Steps Ipmitool.Lanplus.Correlation
open Ipmitool.Lanplus.Open

variable {K : Primitives} {s s' t u : St} {payload : V2Payload}

/-! ### Histories of a handshake -/

/-- Does the event end a wait with nothing? -/
def missing : Event → Bool
  | .timeout | .pong false | .badAuthcode => true
  | _ => false

/-- Is it a message of the handshake? -/
def message : Event → Bool
  | .openResponse | .rakp2 | .rakp4 => true
  | _ => false

/-- Does a packet go out? -/
def sending : Event → Bool
  | .built _ _ _ => true
  | _ => false

/-- Can the event occur while a message of the handshake is waited for? -/
def received : Event → Bool
  | .timeout | .pong _ | .badAuthcode | .removed _ | .openResponse | .rakp2 | .rakp4 => true
  | _ => false

/-- The waits of a history: what came after each packet. -/
def waits : List Event → List (List Event)
  | [] => []
  | e :: evs => if sending e then evs.takeWhile received :: waits evs else waits evs

/-- The wait did not end with nothing, and no message of the handshake came in it: a pong that
claims support ended it, or the answer to a request that was still on the list. -/
def diverted (w : List Event) : Bool := w.all fun e => !missing e && !message e

/-- What comes while `a` is waited for, when `n` of the events end the wait with nothing. -/
structure Hears (a : Event) (n : ℕ) (w : List Event) : Prop where
  received : ∀ e ∈ w, received e = true
  message : ∀ e ∈ w, message e = true → e = a
  misses : w.countP missing = n

theorem Hears.append {a : Event} {n : ℕ} {w w' : List Event} (h : Hears a 0 w) (h' : Hears a n w') :
    Hears a n (w ++ w') where
  received e he := (List.mem_append.mp he).elim (h.received e) (h'.received e)
  message e he := (List.mem_append.mp he).elim (h.message e) (h'.message e)
  misses := by rw [List.countP_append, h.misses, h'.misses, Nat.zero_add]

theorem not_diverted_iff {a : Event} {w : List Event} (ha : message a = true) (h : Hears a 0 w) :
    diverted w = false ↔ a ∈ w := by
  have hm := List.countP_eq_zero.mp h.misses
  rw [diverted, List.all_eq_false]
  constructor
  · rintro ⟨e, he, hne⟩
    have hme : message e = true := by
      cases hmes : message e with
      | true => rfl
      | false => exact absurd (by simp [hmes, hm e he]) hne
    exact h.message e he hme ▸ he
  · intro hmem
    exact ⟨a, hmem, by simp [ha]⟩

/-- One exchange of a history: a packet goes out, `a` is waited for, and `after` is recorded. -/
def Exchange (a : Event) (after w evs : List Event) : Prop :=
  Hears a 0 w ∧ ∃ b, sending b = true ∧ evs = b :: (w ++ after)

section
variable {a e : Event} {after w evs rest : List Event}

theorem Exchange.mem (h : Exchange a after w evs) (hafter : ∀ e ∈ after, message e = false)
    (he : e ∈ evs) (hm : message e = true) : e = a ∧ e ∈ w := by
  obtain ⟨hw, b, hb, rfl⟩ := h
  rcases List.mem_cons.mp he with rfl | he
  · cases e <;> simp [sending, message] at hb hm
  rcases List.mem_append.mp he with he | he
  · exact ⟨hw.message e he hm, he⟩
  · rw [hafter e he] at hm
    cases hm

theorem Exchange.sublist (h : Exchange a after w evs) (ha : a ∈ w) : (a :: after).Sublist evs := by
  obtain ⟨-, b, -, rfl⟩ := h
  exact ((List.singleton_sublist.mpr ha).append_right after).cons b

/-- The exchange is one wait, if the history does not go on with what came in it. -/
theorem Exchange.waits_append (h : Exchange a after w evs)
    (hafter : ∀ e ∈ after, sending e = false ∧ received e = false)
    (hrest : (after ++ rest).takeWhile received = []) : waits (evs ++ rest) = w :: waits rest := by
  obtain ⟨hw, b, hb, rfl⟩ := h
  have hskip : ∀ l : List Event, (∀ e ∈ l, sending e = false) → waits (l ++ rest) = waits rest := by
    intro l hl
    induction l with
    | nil => rfl
    | cons e l ih =>
      rw [List.cons_append, waits, hl e List.mem_cons_self]
      exact ih fun e he => hl e (List.mem_cons_of_mem _ he)
  have hsilent : ∀ e ∈ w ++ after, sending e = false := by
    intro e he
    rcases List.mem_append.mp he with he | he
    · have := hw.received e he
      cases e <;> simp [Handshake.received, sending] at this ⊢
    · exact (hafter e he).1
  rw [List.cons_append, waits, if_pos hb, hskip _ hsilent, List.append_assoc,
    List.takeWhile_append_of_pos hw.received, hrest, List.append_nil]

theorem Exchange.begins (h : Exchange a after w evs) : (evs ++ rest).takeWhile received = [] := by
  obtain ⟨-, b, hb, rfl⟩ := h
  rw [List.cons_append, List.takeWhile_cons_of_neg]
  cases b <;> simp [sending, received] at hb ⊢

end

/-- The messages of an attempt that succeeds. -/
def exchanged : List Event := [.openResponse, .rakp2, .rakp2Verified, .rakp4, .rakp4Verified]

/-- The history of an attempt in which no message was lost and none was refused. -/
def Conversed (evs : List Event) : Prop :=
  ∃ w1 w2 w3 evs1 evs2 evs3, Exchange .openResponse [] w1 evs1 ∧
    Exchange .rakp2 [.rakp2Verified] w2 evs2 ∧ Exchange .rakp4 [.rakp4Verified] w3 evs3 ∧
    evs = evs1 ++ (evs2 ++ evs3)

/-- **The messages came in order** exactly if none of the three waits was diverted. -/
theorem Conversed.exchanged_iff {evs : List Event} (h : Conversed evs) :
    exchanged.Sublist evs ↔ ∀ w ∈ waits evs, diverted w = false := by
  obtain ⟨w1, w2, w3, evs1, evs2, evs3, h1, h2, h3, rfl⟩ := h
  have hwaits : waits (evs1 ++ (evs2 ++ evs3)) = [w1, w2, w3] := by
    have h3' : waits (evs3 ++ []) = w3 :: waits [] :=
      h3.waits_append (by simp [sending, received]) (by simp [received])
    rw [List.append_nil] at h3'
    rw [h1.waits_append (by simp) (by simpa using h2.begins),
      h2.waits_append (by simp [sending, received]) (by simp [received]), h3']
    rfl
  have hmem : ∀ e, message e = true → e ∈ evs1 ++ (evs2 ++ evs3) →
      e = .openResponse ∧ e ∈ w1 ∨ e = .rakp2 ∧ e ∈ w2 ∨ e = .rakp4 ∧ e ∈ w3 := by
    intro e he hmem
    rcases List.mem_append.mp hmem with hmem | hmem
    · exact .inl (h1.mem (by simp) hmem he)
    rcases List.mem_append.mp hmem with hmem | hmem
    · exact .inr (.inl (h2.mem (by simp [message]) hmem he))
    · exact .inr (.inr (h3.mem (by simp [message]) hmem he))
  have hheard : (∀ w ∈ waits (evs1 ++ (evs2 ++ evs3)), diverted w = false) ↔
      .openResponse ∈ w1 ∧ .rakp2 ∈ w2 ∧ .rakp4 ∈ w3 := by
    simp [hwaits, not_diverted_iff rfl h1.1, not_diverted_iff rfl h2.1, not_diverted_iff rfl h3.1]
  rw [hheard]
  constructor
  · intro hsub
    have ho := hmem .openResponse rfl (hsub.subset (by simp [exchanged]))
    have h2 := hmem .rakp2 rfl (hsub.subset (by simp [exchanged]))
    have h4 := hmem .rakp4 rfl (hsub.subset (by simp [exchanged]))
    simp only [reduceCtorEq, true_and, false_and, or_false, false_or] at ho h2 h4
    exact ⟨ho, h2, h4⟩
  · rintro ⟨ho, h2', h4⟩
    exact (h1.sublist ho).append ((h2.sublist h2').append (h3.sublist h4))

theorem Conversed.attempt_notMem {evs : List Event} (h : Conversed evs) : .attempt ∉ evs := by
  obtain ⟨w1, w2, w3, evs1, evs2, evs3, h1, h2, h3, rfl⟩ := h
  have hpart : ∀ {a after w evs}, Exchange a after w evs → .attempt ∉ after → .attempt ∉ evs := by
    rintro a after w evs ⟨hw, b, hb, rfl⟩ hafter hmem
    rcases List.mem_cons.mp hmem with rfl | hmem
    · cases hb
    rcases List.mem_append.mp hmem with hmem | hmem
    · cases hw.received _ hmem
    · exact hafter hmem
  simp [hpart h1, hpart h2, hpart h3]

/-! ### Lost messages -/

/-- How many waits have ended with nothing. -/
def misses (s : St) : ℕ := s.trace.countP missing

/-- How many of the sends to come will fail. -/
def fails (s : St) : ℕ := s.net.sendFails.count true

/-- From `s` to `s'` there were `n` messages whose send failed or whose wait ended with nothing. -/
def Loses (n : ℕ) (s s' : St) : Prop := misses s' + fails s = misses s + fails s' + n

/-- A message goes out, and its answer is waited for. -/
structure Sends (s : St) : Prop where
  noanswer : s.intf.noanswer = false
  retry : 0 < s.intf.ssnParams.retry

/-- What the exchanges do with the surroundings when `n` messages are lost. -/
structure Stage (n : ℕ) (s s' : St) : Prop where
  params : s'.intf.ssnParams = s.intf.ssnParams
  noanswer : s'.intf.noanswer = s.intf.noanswer
  fails_le : fails s' ≤ fails s
  loses : Sends s → Loses n s s'

theorem Stage.sends {n : ℕ} (h : Stage n s s') : Sends s' ↔ Sends s := by
  constructor
  · rintro ⟨hno, hretry⟩
    exact ⟨h.noanswer ▸ hno, h.params ▸ hretry⟩
  · rintro ⟨hno, hretry⟩
    exact ⟨h.noanswer.trans hno, h.params ▸ hretry⟩

theorem Stage.trans {m n : ℕ} (h1 : Stage m s t) (h2 : Stage n t s') : Stage (m + n) s s' where
  params := h2.params.trans h1.params
  noanswer := h2.noanswer.trans h1.noanswer
  fails_le := Nat.le_trans h2.fails_le h1.fails_le
  loses hs := by
    have hl1 := h1.loses hs
    have hl2 := h2.loses (h1.sends.mpr hs)
    unfold Loses at hl1 hl2 ⊢
    omega

/-- A step that loses nothing: what it records does not end a wait. -/
theorem Stage.still (evs : List Event) (hp : t.intf.ssnParams = s.intf.ssnParams)
    (hno : t.intf.noanswer = s.intf.noanswer) (hf : t.net.sendFails = s.net.sendFails)
    (htr : t.trace = s.trace ++ evs) (hevs : evs.countP missing = 0) : Stage 0 s t where
  params := hp
  noanswer := hno
  fails_le := by simp [fails, hf]
  loses _ := by simp [Loses, misses, fails, hf, htr, hevs]

theorem Stage.store (h : t.intf.ssnParams = s.intf.ssnParams)
    (hno : t.intf.noanswer = s.intf.noanswer) (hf : t.net.sendFails = s.net.sendFails)
    (htr : t.trace = s.trace) : Stage 0 s t :=
  .still [] h hno hf (htr.trans (List.append_nil _).symm) rfl

theorem Stage.withSession (s : St) (ss : Session) : Stage 0 s (s.withSession ss) :=
  .store rfl rfl rfl rfl

/-! ### What `open` and `close` keep -/

theorem keyedSession_eq {session keyed : Session} {intf : Intf} {authcode : List UInt8}
    (h : rakp3Authcode K session intf = .ok (authcode, keyed)) :
    ∃ sik sikLen k1 k1Len k2 k2Len, keyed = { session with v2 :=
      { session.v2 with sik, sikLen, k1, k1Len, k2, k2Len } } := by
  unfold rakp3Authcode at h
  split_ifs at h with hcode
  · simp only [pure, Except.pure, Except.ok.injEq, Prod.mk.injEq] at h
    exact ⟨_, _, _, _, _, _, h.2.symm⟩
  obtain ⟨ac, -, h⟩ := except_bind_ok.mp h
  obtain ⟨x, hx, h⟩ := except_bind_ok.mp h
  simp only [pure, Except.pure, Except.ok.injEq, Prod.mk.injEq] at h
  obtain ⟨-, rfl⟩ := h
  unfold deriveKeys at hx
  obtain ⟨x1, hsik, hx⟩ := except_bind_ok.mp hx
  obtain ⟨x2, hk1, hk2⟩ := except_bind_ok.mp hx
  obtain ⟨⟨k1, n1⟩, -, hk1⟩ := except_bind_ok.mp hk1
  obtain ⟨⟨k2, n2⟩, -, hk2⟩ := except_bind_ok.mp hk2
  have hsik' : ∃ sik sikLen, x1 = { session with v2 := { session.v2 with sik, sikLen } } := by
    unfold generateSik at hsik
    dsimp only at hsik
    by_cases hnone : session.v2.authAlg = authRakpNone
    · rw [if_pos hnone] at hsik
      exact ⟨_, _, (Except.ok.inj hsik).symm⟩
    · rw [if_neg hnone] at hsik
      by_cases hsup : (!supportedAuthAlg session.v2.authAlg) = true
      · rw [if_pos hsup] at hsik
        cases hsik
      · rw [if_neg hsup] at hsik
        obtain ⟨mac, -, hsik⟩ := except_bind_ok.mp hsik
        exact ⟨_, _, (Except.ok.inj hsik).symm⟩
  obtain ⟨sik, sikLen, rfl⟩ := hsik'
  obtain rfl := Except.ok.inj hk1
  obtain rfl := Except.ok.inj hk2
  exact ⟨sik, sikLen, k1, n1, k2, n2, rfl⟩

/-- The states do not differ in what the transport works with. -/
structure Alike (s t : St) : Prop where
  session : t.intf.session = s.intf.session
  params : t.intf.ssnParams = s.intf.ssnParams
  noanswer : t.intf.noanswer = s.intf.noanswer
  fd : t.intf.fd = s.intf.fd
  net : t.net = s.net
  entries : t.reqEntries = s.reqEntries
  currSeq : t.currSeq = s.currSeq
  trace : t.trace = s.trace

/-- A frame that holds of the commands before and after the handshake. -/
structure Commanding (K : Primitives) (F : Frame St) : Prop where
  sendIpmiCmd : ∀ req, Moves F (sendIpmiCmd K req)
  alike : ∀ {s t}, Alike s t → F.rel s t

/-- A frame that holds of what `open` and `close` do with a session. -/
structure Exchanging (K : Primitives) (F : Frame St) : Prop where
  sendPayload : ∀ payload, Moves F (sendPayload K payload)
  other : ∀ {s t}, t.intf.session = s.intf.session → t.reqEntries = s.reqEntries →
    t.currSeq = s.currSeq → t.trace = s.trace → F.rel s t
  record : ∀ e, packets [e] = [] → Moves F (record [e])
  session : ∀ {s ss ss'}, s.intf.session = some ss → Uncounted ss ss' → F.rel s (s.withSession ss')

/-- A frame that holds of everything `open` and `close` do. -/
structure Opening (K : Primitives) (F : Frame St) : Prop extends Exchanging K F where
  rakp3 : Moves F (rakp3 K)
  fresh : ∀ {s t p}, t.intf.session = some (freshSession p) → t.trace = s.trace → F.rel s t
  closed : ∀ {s t}, t.intf.session = none → t.trace = s.trace → F.rel s t

section Opening
variable {F : Frame St}

theorem Exchanging.commanding (hF : Exchanging K F) : Commanding K F where
  sendIpmiCmd _ := hF.sendPayload _
  alike h := hF.other h.session h.entries h.currSeq h.trace

theorem Commanding.moves_modify (hF : Commanding K F) {f : St → St} (h : ∀ s, Alike s (f s)) :
    Moves F (modify f : M PUnit) := .modify fun s => hF.alike (h s)

theorem Exchanging.moves_modify (hF : Exchanging K F) {f : St → St}
    (hs : ∀ s, (f s).intf.session = s.intf.session) (he : ∀ s, (f s).reqEntries = s.reqEntries)
    (hq : ∀ s, (f s).currSeq = s.currSeq) (ht : ∀ s, (f s).trace = s.trace) :
    Moves F (modify f : M PUnit) := .modify fun s => hF.other (hs s) (he s) (hq s) (ht s)

theorem Exchanging.modifySession (hF : Exchanging K F) {f : Session → Session}
    (h : ∀ ss, Uncounted ss (f ss)) : Moves F (modifySession f) := by
  intro s u s' hm
  obtain ⟨ss, hss, rfl⟩ := modifySession_ok.mp hm
  exact hF.session hss (h ss)

theorem moves_openSession (hF : Exchanging K F) : Moves F (openSession K) := by
  refine .bind .get fun s => .bind (hF.modifySession fun _ => ⟨rfl, rfl, rfl, rfl, id⟩) fun _ => ?_
  cases getRequestedCiphers s.intf.ssnParams.cipherSuiteId with
  | none => exact .pure _
  | some c =>
    refine .bind (hF.modifySession fun _ => ⟨rfl, rfl, rfl, rfl, id⟩) fun _ =>
      .bind (hF.sendPayload _) fun got => ?_
    refine .ite (fun _ => .pure _) fun _ => .bind .get fun s => .ite (fun _ => .pure _) fun _ => ?_
    exact .bind (hF.modifySession fun _ => ⟨rfl, rfl, rfl, rfl, nofun⟩) fun _ => .pure _

theorem moves_rakp1 (hF : Exchanging K F) : Moves F (rakp1 K) := by
  have hrand : Moves F rand := by
    intro s b s' h
    obtain ⟨rfl, -⟩ := rand_ok.mp h
    exact hF.other rfl rfl rfl rfl
  refine .bind moves_theSession fun ss => .bind hrand fun b => ?_
  refine .bind .get fun s => .bind (hF.modifySession fun _ => ⟨rfl, rfl, rfl, rfl, id⟩) fun _ => ?_
  refine .ite (fun _ => .pure _) fun _ => .bind (hF.sendPayload _) fun got => ?_
  refine .ite (fun _ => .pure _) fun _ =>
    .bind (hF.modifySession fun _ => ⟨rfl, rfl, rfl, rfl, nofun⟩) fun _ => ?_
  refine .bind .get fun s => .ite (fun _ => .pure _) fun _ => ?_
  refine .bind (hF.modifySession fun _ => ⟨rfl, rfl, rfl, rfl, id⟩) fun _ =>
    .bind moves_theSession fun ss => ?_
  refine .bind (.lift _) fun good => .ite (fun _ => ?_) fun _ => ?_
  · exact .bind (hF.record _ rfl) fun _ =>
      .bind (hF.modifySession fun _ => ⟨rfl, rfl, rfl, rfl, id⟩) fun _ => .pure _
  · exact .bind (hF.modifySession fun _ => ⟨rfl, rfl, rfl, rfl, id⟩) fun _ => .pure _

theorem moves_rakp3 (hF : Exchanging K F) (hactive : Moves F (setState .active)) :
    Moves F (rakp3 K) := by
  intro s rc s' h
  unfold rakp3 at h
  obtain ⟨ss, _, hget, h⟩ := bind_ok.mp h
  obtain ⟨hss, rfl⟩ := theSession_ok.mp hget
  obtain ⟨_, _, hexpect, h⟩ := bind_ok.mp h
  obtain ⟨-, rfl⟩ := expect_ok.mp hexpect
  obtain ⟨_, _, hget, h⟩ := bind_ok.mp h
  obtain ⟨rfl, rfl⟩ := get_ok.mp hget
  obtain ⟨⟨authcode, keyed⟩, _, hlift, h⟩ := bind_ok.mp h
  obtain ⟨hkeys, rfl⟩ := lift_ok.mp hlift
  obtain ⟨_, _, hkeyed, h⟩ := bind_ok.mp h
  obtain ⟨ss1, hss1, rfl⟩ := modifySession_ok.mp hkeyed
  obtain rfl : ss = ss1 := Option.some.inj (hss.symm.trans hss1)
  obtain ⟨sik, sikLen, k1, k1Len, k2, k2Len, rfl⟩ := keyedSession_eq hkeys
  refine F.trans (hF.session hss {}) (Moves.rel ?_ h)
  refine .bind (hF.sendPayload _) fun got => ?_
  refine .ite (fun _ => .pure _) fun _ => .ite (fun _ => .pure _) fun _ => .bind .get fun s => ?_
  refine .ite (fun _ => .pure _) fun _ => .bind moves_theSession fun ss => ?_
  refine .bind (.lift _) fun good => .ite (fun _ => ?_) fun _ => .pure _
  refine .bind (hF.record _ rfl) fun _ => .bind hactive fun _ => ?_
  exact .bind (hF.moves_modify (fun _ => rfl) (fun _ => rfl) (fun _ => rfl) fun _ => rfl) fun _ =>
    .pure _

theorem moves_attempt (hF : Opening K F) : Moves F (attempt K) := by
  refine .bind (hF.modifySession fun _ => ⟨rfl, rfl, rfl, rfl, nofun⟩) fun _ =>
    .bind (hF.record _ rfl) fun _ => ?_
  refine .bind (moves_openSession hF.toExchanging) fun rc => ?_
  cases rc with
  | error => exact .pure _
  | timeout => exact .pure _
  | done =>
    refine .bind (moves_rakp1 hF.toExchanging) fun rc => ?_
    cases rc with
    | error => exact .pure _
    | timeout => exact .pure _
    | done => exact hF.rakp3

theorem moves_handshakeLoop (hF : Opening K F) : ∀ n, Moves F (handshakeLoop K n)
  | 0 => .pure _
  | n + 1 => by
    refine .bind (moves_attempt hF) fun rc => ?_
    cases rc with
    | error => exact .pure _
    | done => exact .pure _
    | timeout => exact moves_handshakeLoop hF n

theorem Commanding.bridge (hF : Commanding K F) (f : St → Bool) :
    Moves F (modify fun s => { s with bridgePossible := f s } : M PUnit) :=
  hF.moves_modify fun _ => ⟨rfl, rfl, rfl, rfl, rfl, rfl, rfl, rfl⟩

theorem moves_supportsV2 (hF : Commanding K F) : Moves F (supportsV2 K) := by
  have hcap : Moves F (getAuthCapabilitiesCmd K) := by
    refine .bind .get fun s => .bind (hF.bridge _) fun _ => .bind (hF.sendIpmiCmd _) fun got => ?_
    have hend : ∀ got : Bool, Moves F (do
        let s2 ← get
        if ¬ got ∨ s2.recvRsp.ccode ≠ 0 then return none
        modify fun s' => { s' with bridgePossible := s.bridgePossible }
        return some (s2.recvRsp.data 1) : M (Option UInt8)) := fun got =>
      .bind .get fun s2 => .ite (fun _ => .pure _) fun _ => .bind (hF.bridge _) fun _ => .pure _
    refine .bind .get fun s1 => .ite (fun _ => ?_) fun _ => .bind (.pure _) hend
    exact .bind (hF.sendIpmiCmd _) hend
  refine .bind .get fun s => .ite (fun _ => .pure _) fun _ => .bind hcap fun o => ?_
  cases o with
  | none => exact .pure _
  | some b1 => exact .pure _

theorem moves_cipherSuiteLoop (hF : Commanding K F) :
    ∀ fuel i data, Moves F (cipherSuiteLoop K fuel i data)
  | 0, _, _ => .pure _
  | fuel + 1, i, data => by
    refine .bind (hF.sendIpmiCmd _) fun got => .bind .get fun s =>
      .ite (fun _ => .pure _) fun _ => ?_
    exact .ite (fun _ => moves_cipherSuiteLoop hF fuel _ _) fun _ => .pure _

theorem moves_findBestCipherSuite (hF : Commanding K F) : Moves F (findBestCipherSuite K) := by
  refine .bind (moves_cipherSuiteLoop hF _ _ _) fun o => ?_
  cases o with
  | none => exact .pure _
  | some data => exact .pure _

theorem moves_openPrologue (hF : Opening K F) : Moves F (openPrologue K) := by
  have hC := hF.toExchanging.commanding
  refine .bind (.modify fun s => hF.fresh rfl rfl) fun _ =>
    .bind (moves_supportsV2 hC) fun good => ?_
  refine .ite (fun _ => .pure _) fun _ => .bind .get fun s => .ite (fun _ => ?_) fun _ => .pure _
  refine .bind (moves_findBestCipherSuite hC) fun suite => .bind ?_ fun _ => .pure _
  exact hF.moves_modify (fun _ => rfl) (fun _ => rfl) (fun _ => rfl) fun _ => rfl

theorem alike_storePayloadSizes (s : St) (inbound outbound : UInt16) :
    Alike s { s with intf := Registry.storePayloadSizes s.intf inbound outbound } := by
  unfold Registry.storePayloadSizes Registry.setMaxResponseDataSize Registry.setMaxRequestDataSize
  split_ifs <;> exact ⟨rfl, rfl, rfl, rfl, rfl, rfl, rfl, rfl⟩

/-- **The epilogue**: it records the end of the retry loop, and the rest of it are commands. -/
theorem openEpilogue_rel {b : Bool} (hF : Commanding K F) (h : openEpilogue K s = .ok (b, s')) :
    F.rel { s with trace := s.trace ++ [.opened] } s' := by
  have hlevel : Moves F (setSessionPrivlvlCmd K) := by
    refine .bind .get fun s => .ite (fun _ => .pure _) fun _ => .bind (hF.bridge _) fun _ => ?_
    exact .bind (hF.sendIpmiCmd _) fun got => .bind (hF.bridge _) fun _ =>
      .bind .get fun s => .pure _
  have hsize : Moves F (detectMaxPayloadSize K) := by
    refine .bind (hF.sendIpmiCmd _) fun got => .bind .get fun s => ?_
    split
    · refine .bind (hF.sendIpmiCmd _) fun got => .bind .get fun s => ?_
      split
      · exact hF.moves_modify fun s => alike_storePayloadSizes s _ _
      · exact .pure _
    · exact .pure _
  have hoem : Moves F (getOem K) :=
    .bind .get fun _ => .ite (fun _ => .pure _) fun _ => .ite (fun _ => .pure _) fun _ =>
      .bind (hF.sendIpmiCmd _) fun _ => .bind .get fun _ => .pure _
  obtain ⟨_, t, hrec, h⟩ := bind_ok.mp h
  obtain rfl := record_ok.mp hrec
  refine Moves.rel ?_ h
  refine .bind (hF.moves_modify fun _ => ⟨rfl, rfl, rfl, rfl, rfl, rfl, rfl, rfl⟩) fun _ => ?_
  refine .bind .get fun s => .ite (fun _ => .bind (hF.bridge _) fun _ => .pure _) fun _ => ?_
  refine .bind hlevel fun good => .ite (fun _ => .pure _) fun _ => .bind hsize fun _ => ?_
  refine .bind (hF.bridge _) fun _ => .bind hoem fun oem => ?_
  exact .bind (hF.moves_modify fun _ => ⟨rfl, rfl, rfl, rfl, rfl, rfl, rfl, rfl⟩) fun _ => .pure _

theorem moves_openEpilogue (hF : Exchanging K F) : Moves F (openEpilogue K) := by
  intro s b s' h
  have hrec : F.rel s { s with trace := s.trace ++ [.opened] } :=
    hF.record .opened rfl s () _ (record_ok.mpr rfl)
  exact F.trans hrec (openEpilogue_rel hF.commanding h)

theorem moves_close (hF : Opening K F) : Moves F (close K) := by
  have hend : Moves F (modify fun s => { s with
      intf := { s.intf with fd := -1, session := none, manufacturerId := 0 }
      reqEntries := [] } : M PUnit) := .modify fun s => hF.closed rfl rfl
  have hcmd : Moves F (closeSessionCmd K) := by
    refine .bind .get fun s => ?_
    cases s.intf.session with
    | none => exact .pure _
    | some ss =>
      refine .ite (fun _ => .pure _) fun _ => ?_
      refine .bind (hF.moves_modify (fun _ => rfl) (fun _ => rfl) (fun _ => rfl) fun _ =>
        rfl) fun _ => ?_
      refine .bind (hF.sendPayload _) fun got => .bind .get fun s1 =>
        .ite (fun _ => ?_) fun _ => .pure _
      exact hF.commanding.bridge _
  exact .bind .get fun s => .ite (fun _ => .bind hcmd fun _ => hend) fun _ => hend

theorem moves_open (hF : Opening K F) : Moves F («open» K) := by
  have hconnected : Moves F (openConnected K) := by
    refine .bind (moves_openPrologue hF) fun good => .ite (fun _ => .pure _) fun _ => ?_
    refine .bind (moves_handshakeLoop hF _) fun good => .ite (fun _ => .pure _) fun _ => ?_
    exact moves_openEpilogue hF.toExchanging
  refine .bind .get fun s => .ite (fun _ => .pure _) fun _ => ?_
  refine .bind (hF.moves_modify (fun _ => rfl) (fun _ => rfl) (fun _ => rfl) fun _ => rfl) fun _ =>
    ?_
  refine .ite (fun _ => .pure _) fun _ => ?_
  cases s.net.connects with
  | none => exact .bind (moves_close hF) fun _ => .pure _
  | some fd =>
    refine .bind (hF.moves_modify (fun _ => rfl) (fun _ => rfl) (fun _ => rfl) fun _ =>
      rfl) fun _ => ?_
    refine .bind hconnected fun good => .ite (fun _ => .bind .get fun s => .pure _) fun _ => ?_
    exact .bind (moves_close hF) fun _ => .pure _

end Opening

theorem opening_grows : Opening K (Frame.grows St.trace) := by
  have hset : ∀ f, Moves (Frame.grows St.trace) (modifySession f) := by
    intro f s u s' h
    obtain ⟨ss, -, rfl⟩ := modifySession_ok.mp h
    exact List.prefix_rfl
  have hF : Exchanging K (Frame.grows St.trace) := {
    sendPayload := fun payload => by
      refine moves_sendPayload (tame_run.mono fun h => (Run.kept h).grows) (.inl rfl) ?_
      cases payload with
      | ipmi req => exact .pure _
      | sol p => exact .pure _
      | openRequest msg | rakp1 msg | rakp3 msg => exact hset _
    other := fun _ _ _ ht => ⟨[], by rw [ht, List.append_nil]⟩
    record := fun e _ => .modify fun _ => List.prefix_append _ _
    session := fun _ _ => List.prefix_rfl }
  exact {
    hF with
    rakp3 := moves_rakp3 hF (hset _)
    fresh := fun _ ht => ⟨[], by rw [ht, List.append_nil]⟩
    closed := fun _ ht => ⟨[], by rw [ht, List.append_nil]⟩ }

/-! ### The wait for a handshake message -/

/-- The event of the answer to a handshake message. -/
def answerTo : V2Payload → Event
  | .rakp1 _ => .rakp2
  | .rakp3 _ => .rakp4
  | _ => .openResponse

theorem Spoken.eq_answerTo {e : Event} (hp : isHandshake payload = true)
    (h : Spoken (sentState payload) e) : e = answerTo payload := by
  cases payload with
  | ipmi req => cases hp
  | sol p => cases hp
  | openRequest msg | rakp1 msg | rakp3 msg => cases h; rfl

theorem answerTo_cases (payload : V2Payload) : received (answerTo payload) = true ∧
    message (answerTo payload) = true ∧ missing (answerTo payload) = false := by
  cases payload <;> exact ⟨rfl, rfl, rfl⟩

/-- One poll while a handshake message is waited for. -/
theorem pollSingle_hears {res : PollResult} (hp : isHandshake payload = true)
    (h : pollSingle K s = .ok (res, t)) (hst : stateOf s = some (sentState payload)) :
    t.net.sendFails = s.net.sendFails ∧ ∃ w, t.trace = s.trace ++ w ∧
      Hears (answerTo payload) (if res = .none then 1 else 0) w := by
  obtain ⟨ss, hss, ⟨rfl, rest, -, rfl⟩ | ⟨-, d, rest, l, r, evs, -, -, -, hh, rfl⟩⟩ :=
    pollSingle_ok h
  · exact ⟨rfl, [.timeout], rfl, by simp [received], by simp [message], rfl⟩
  refine ⟨rfl, evs, rfl, ?_⟩
  rcases handlePacket_cases hh with ⟨b, rfl, -, -, rfl⟩ | ⟨rfl, -, rfl⟩ | ⟨rfl, -, rfl⟩ |
    ⟨r1, o, n, -, -, hloop⟩ | ⟨x, rfl, -, rfl, hx⟩
  · exact ⟨by simp [received], by simp [message], by cases b <;> simp [missing]⟩
  · exact ⟨by simp, by simp, rfl⟩
  · exact ⟨by simp [received], by simp [message], rfl⟩
  · obtain ⟨hres, gone, rfl⟩ := ipmiLoop_events hloop
    rw [if_neg hres]
    exact ⟨by simp [received], by simp [message], List.countP_eq_zero.mpr (by simp [missing])⟩
  · have hstate : ss.v2.sessionState = sentState payload := by
      simpa [stateOf, hss] using hst
    rw [hstate] at hx
    obtain rfl := Spoken.eq_answerTo hp hx
    obtain ⟨h1, -, h3⟩ := answerTo_cases payload
    exact ⟨by simpa using h1, by simp, by simp [h3]⟩

/-- **The wait for an answer.** -/
theorem Awaits.hears {b : Bool} (hp : isHandshake payload = true) (h : Awaits K s b s')
    (hst : stateOf s = some (sentState payload)) :
    s'.net.sendFails = s.net.sendFails ∧ ∃ w, s'.trace = s.trace ++ w ∧
      Hears (answerTo payload) (if b = true then 0 else 1) w := by
  induction h with
  | missed h | got h _ => simpa using pollSingle_hears hp h hst
  | skip h hrest ih | duplicate h _ hrest ih =>
    obtain ⟨hf1, w1, htr1, hw1⟩ := pollSingle_hears hp h hst
    obtain ⟨hf2, w2, htr2, hw2⟩ := ih ((pollSingle_kept h).stateOf.trans hst)
    rw [if_neg (by decide)] at hw1
    exact ⟨hf2.trans hf1, w1 ++ w2, by rw [htr2, htr1, List.append_assoc], hw1.append hw2⟩

/-! ### One exchange -/

theorem Net.send_count (n : Net) (p : List UInt8) :
    (n.send p).2.sendFails.count true + (if (n.send p).1 then 0 else 1) =
      n.sendFails.count true := by
  unfold Net.send
  split
  · rename_i h
    simp [h]
  · rename_i b rest h
    cases b <;> simp [h]

/-- The transmission of a handshake message: its packet is recorded, and the send may fail. -/
theorem transmit_handshake {o : Option Locals} (hp : isHandshake payload = true)
    (h : transmit K payload {} s = .ok (o, t)) : Stage (if o.isSome then 0 else 1) s t ∧
      t.intf.session.map Session.v2 = s.intf.session.map Session.v2 ∧
      ∃ b, sending b = true ∧ t.trace = s.trace ++ [b] := by
  rcases transmit_ok h with ⟨hx, -, -⟩ | ⟨-, entry, packet, u, hb, rfl, rfl⟩
  · cases hx
  have hmsg : IsMessage payload := by cases payload <;> trivial
  obtain ⟨ss, -, -, -, hb⟩ := buildPayload_message_ok hmsg hb
  obtain ⟨ss', length, iv, entropy, hss, -, -, -, rfl⟩ := buildV2xMsg_ok hb
  have hbuilt : ∃ b, sending b = true ∧ missing b = false ∧
      builtEvents (decide (ss'.v2.sessionState = .active)) packet 0 payload = [b] := by
    cases payload with
    | ipmi req => cases hp
    | sol p => cases hp
    | openRequest msg | rakp1 msg | rakp3 msg => exact ⟨_, rfl, rfl, rfl⟩
  obtain ⟨b, hsending, hmiss, hbuilt⟩ := hbuilt
  have hcount := Net.send_count { s.net.time.2 with entropy } packet
  have hfails : ({ s.net.time.2 with entropy } : Net).sendFails = s.net.sendFails :=
    Net.time_sendFails _
  rw [hfails] at hcount
  simp only [hbuilt]
  generalize Net.send { s.net.time.2 with entropy } packet = sent at hcount ⊢
  obtain ⟨ok, net⟩ := sent
  dsimp only at hcount
  refine ⟨⟨rfl, rfl, ?_, fun _ => ?_⟩, ?_, b, hsending, rfl⟩
  · simp only [fails]
    omega
  · simp only [Loses, misses, fails, List.countP_append, List.countP_singleton, hmiss]
    cases ok <;> simp at hcount ⊢ <;> omega
  · have hss : s.intf.session = some ss' := hss
    rw [hss]
    rfl

/-- The clock and the timeout of the session do not matter. -/
theorem Timed.stage (h : Timed s t) : Stage 0 s t ∧
    t.intf.session.map Session.v2 = s.intf.session.map Session.v2 := by
  obtain ⟨ss, timeout, net, hss, -, hf, rfl⟩ := h
  exact ⟨.store rfl rfl hf rfl, by rw [hss]; rfl⟩

/-- **One exchange**: it gets something, or one message is lost. -/
theorem sendPayload_stage {b : Bool} (hp : isHandshake payload = true)
    (h : sendPayload K payload s = .ok (b, s')) : Stage (if b = true then 0 else 1) s s' ∧
      (stateOf s ≠ some .active → stateOf s' ≠ some .active) := by
  obtain ⟨u, hround, hend⟩ := sendPayload_handshake_ok hp h
  have hstate {t t' : St} (h : t'.intf.session.map Session.v2 = t.intf.session.map Session.v2) :
      stateOf t' = stateOf t := by
    have := congrArg (Option.map V2Data.sessionState) h
    simp only [Option.map_map] at this
    exact this
  -- what comes after the round is the same for all rounds
  suffices hu : Stage (if b = true then 0 else 1) s u ∧
      (stateOf s ≠ some .active → stateOf u ≠ some .active) by
    rcases hend with ⟨-, rfl⟩ | htimed
    · exact hu
    · obtain ⟨hstage, hv2⟩ := Timed.stage htimed
      exact ⟨hu.1.trans hstage, fun hs => by rw [hstate hv2]; exact hu.2 hs⟩
  cases hround with
  | untried hretry =>
    exact ⟨⟨rfl, rfl, Nat.le_refl _, fun hs => absurd hs.retry (by omega)⟩, id⟩
  | sendFailed hretry ht =>
    obtain ⟨hstage, hv2, -⟩ := transmit_handshake hp ht
    exact ⟨hstage, fun hs => by rw [hstate hv2]; exact hs⟩
  | noanswer ht hno =>
    obtain ⟨hstage, hv2, -⟩ := transmit_handshake hp ht
    refine ⟨⟨hstage.params, hstage.noanswer, hstage.fails_le, fun hs => ?_⟩,
      fun hs => by rw [hstate hv2]; exact hs⟩
    rw [hstage.noanswer, hs.noanswer] at hno
    cases hno
  | waited hretry ht hno hss ha =>
    obtain ⟨hstage, -, -⟩ := transmit_handshake hp ht
    have hk := Awaits.kept ha
    obtain ⟨hf, w, htr, hw⟩ := Awaits.hears hp ha rfl
    have hwait : Stage (if b = true then 0 else 1) _ u :=
      ⟨hk.params, hk.noanswer, by simp [fails, hf], fun _ => by
        simp only [Loses, misses, fails, hf, htr, List.countP_append, hw.misses]
        omega⟩
    refine ⟨?_, fun _ => ?_⟩
    · simpa using hstage.trans ((Stage.withSession _ _).trans hwait)
    · rw [hk.stateOf]
      cases payload <;> simp [stateOf, St.withSession, sentState]

/-- From `s` to `s'` the history grew by an exchange. -/
def Exchanges (a : Event) (after : List Event) (s s' : St) : Prop :=
  ∃ w evs, s'.trace = s.trace ++ evs ∧ Exchange a after w evs

theorem Exchanges.append {a : Event} (after : List Event) (h : Exchanges a [] s t)
    (htr : u.trace = t.trace ++ after) : Exchanges a after s u := by
  obtain ⟨w, evs, htr', hw, b, hb, rfl⟩ := h
  exact ⟨w, b :: (w ++ after), by rw [htr, htr']; simp, hw, b, hb, rfl⟩

/-- An exchange that got something: what was recorded, and what it left of the session. -/
theorem sendPayload_got (hp : isHandshake payload = true)
    (h : sendPayload K payload s = .ok (true, s')) :
    Sends s ∧ Exchanges (answerTo payload) [] s s' ∧
      ∃ ss ss', s.intf.session = some ss ∧ s'.intf.session = some ss' ∧
        ss'.v2 = { ss.v2 with sessionState := sentState payload } := by
  obtain ⟨u, hround, hend⟩ := sendPayload_handshake_ok hp h
  obtain ⟨ss', timeout, net, hss', -, -, rfl⟩ := hend.resolve_left (by simp)
  obtain ⟨-, -⟩ | ⟨-, -⟩ | ⟨-, -⟩ | ⟨hretry, ht, hno, hss, ha⟩ := hround
  obtain ⟨hstage, hv1, b, hb, htr1⟩ := transmit_handshake hp ht
  obtain ⟨-, w, htr2, hw⟩ := Awaits.hears hp ha rfl
  have hv2 := (Awaits.kept ha).v2
  rw [hss'] at hv2
  rw [hss] at hv1
  obtain ⟨ss0, hss0, hv0⟩ := Option.map_eq_some_iff.mp hv1.symm
  refine ⟨⟨hstage.noanswer ▸ hno, hretry⟩, ⟨w, b :: (w ++ []), ?_, hw, b, hb, rfl⟩,
    ss0, { ss' with timeout }, hss0, rfl, ?_⟩
  · show u.trace = _
    rw [htr2]
    simp [St.withSession, htr1]
  · rw [hv0]
    exact Option.some.inj hv2

/-! ### The three stages -/

/-- How many messages a stage has lost. -/
def lostBy : Rc → ℕ
  | .timeout => 1
  | _ => 0

/-- The algorithms of the session are those of the cipher suite. -/
def Agreed (s : St) : Prop :=
  ∃ ss c, s.intf.session = some ss ∧
    getRequestedCiphers s.intf.ssnParams.cipherSuiteId = some c ∧
    ss.v2.authAlg = c.authAlg ∧ ss.v2.integrityAlg = c.integrityAlg ∧ ss.v2.cryptAlg = c.cryptAlg

/-- The algorithms stay agreed while the parameters and the algorithms stay. -/
theorem Agreed.of_eq {ss ss' : Session} (h : Agreed s) (hss : s.intf.session = some ss)
    (hss' : t.intf.session = some ss') (hp : t.intf.ssnParams = s.intf.ssnParams)
    (hauth : ss'.v2.authAlg = ss.v2.authAlg) (hint : ss'.v2.integrityAlg = ss.v2.integrityAlg)
    (hcrypt : ss'.v2.cryptAlg = ss.v2.cryptAlg) : Agreed t := by
  obtain ⟨x, c, hx, hc, h1, h2, h3⟩ := h
  obtain rfl := Option.some.inj (hss.symm.trans hx)
  exact ⟨ss', c, hss', by rw [hp, hc], hauth.trans h1, hint.trans h2, hcrypt.trans h3⟩

theorem openSession_stage {rc : Rc} (h : openSession K s = .ok (rc, s')) (hrc : rc ≠ .error)
    (hst : stateOf s ≠ some .active) : Stage (lostBy rc) s s' ∧ stateOf s' ≠ some .active ∧
      (rc = .done → Sends s ∧ Exchanges .openResponse [] s s' ∧ Agreed s') := by
  unfold openSession at h
  simp only [bind_ok, get_ok, modifySession_ok] at h
  obtain ⟨_, _, ⟨rfl, rfl⟩, _, _, ⟨ss, hss, rfl⟩, h⟩ := h
  rcases hc : getRequestedCiphers s.intf.ssnParams.cipherSuiteId with _ | c
  · rw [hc] at h
    exact absurd (pure_ok.mp h).1.symm hrc
  rw [hc] at h
  simp only [bind_ok, modifySession_ok] at h
  obtain ⟨_, _, ⟨ss1, hss1, rfl⟩, got, t, hsend, h⟩ := h
  obtain rfl := Option.some.inj hss1
  obtain ⟨hstage, hstate⟩ := sendPayload_stage rfl hsend
  have hstage' := ((Stage.withSession s _).trans (Stage.withSession _ _)).trans hstage
  have hst' : stateOf t ≠ some .active := by
    apply hstate
    simpa [stateOf, St.withSession, hss] using hst
  cases got with
  | false =>
    obtain ⟨rfl, rfl⟩ := pure_ok.mp h
    exact ⟨hstage', hst', by simp⟩
  | true =>
    simp only [Bool.not_true, Bool.false_eq_true, if_false, bind_ok, get_ok] at h
    obtain ⟨_, _, ⟨rfl, rfl⟩, h⟩ := h
    split_ifs at h with hcode hagree
    · exact absurd (pure_ok.mp h).1.symm hrc
    all_goals
      simp only [bind_ok, modifySession_ok, pure_ok] at h
      obtain ⟨_, _, ⟨ss2, hss2, rfl⟩, rfl, rfl⟩ := h
    · obtain ⟨hsends, hexchange, -⟩ := sendPayload_got rfl hsend
      refine ⟨hstage'.trans (Stage.withSession t _), by simp [stateOf, St.withSession,
        acceptOpenResponse],
        fun _ => ⟨⟨hsends.noanswer, hsends.retry⟩, hexchange, _, c, rfl, ?_, hagree⟩⟩
      rw [← hc]
      exact congrArg (fun p => getRequestedCiphers p.cipherSuiteId) hstage'.params
    · exact absurd rfl hrc

theorem rakp1_stage {rc : Rc} (h : rakp1 K s = .ok (rc, s')) (hrc : rc ≠ .error)
    (hst : stateOf s ≠ some .active) : Stage (lostBy rc) s s' ∧
      (rc = .timeout → stateOf s' ≠ some .active) ∧
      (rc = .done → Exchanges .rakp2 [.rakp2Verified] s s' ∧ (Agreed s → Agreed s')) := by
  unfold rakp1 at h
  simp only [bind_ok, theSession_ok, rand_ok, get_ok, modifySession_ok] at h
  obtain ⟨ss, _, ⟨hss, rfl⟩, rand, _, ⟨rfl, rfl⟩, _, _, ⟨rfl, rfl⟩, _, _, ⟨ss1, hss1, rfl⟩, h⟩ := h
  obtain rfl : ss = ss1 := Option.some.inj (hss.symm.trans hss1)
  split_ifs at h with hname
  · exact absurd (pure_ok.mp h).1.symm hrc
  simp only [bind_ok] at h
  obtain ⟨got, t, hsend, h⟩ := h
  obtain ⟨hstage, hstate⟩ := sendPayload_stage rfl hsend
  have hdraw : Stage 0 s { s with net := s.net.rand.2 } := .store rfl rfl (Net.rand_sendFails _) rfl
  have hstage' := (hdraw.trans (Stage.withSession _ _)).trans hstage
  cases got with
  | false =>
    obtain ⟨rfl, rfl⟩ := pure_ok.mp h
    refine ⟨hstage', fun _ => hstate ?_, by simp⟩
    simpa [stateOf, St.withSession, hss] using hst
  | true =>
    simp only [Bool.not_true, Bool.false_eq_true, if_false, bind_ok, setState_ok, get_ok] at h
    obtain ⟨_, _, ⟨ss2, hss2, rfl⟩, _, _, ⟨rfl, rfl⟩, h⟩ := h
    split_ifs at h with hcode
    · exact absurd (pure_ok.mp h).1.symm hrc
    simp only [bind_ok, modifySession_ok, theSession_ok, lift_ok] at h
    obtain ⟨_, _, ⟨ss3, hss3, rfl⟩, ss4, _, ⟨hss4, rfl⟩, good, _, ⟨-, rfl⟩, h⟩ := h
    cases good with
    | false =>
      simp only [Bool.false_eq_true, if_false, bind_ok, modifySession_ok, pure_ok] at h
      obtain ⟨_, _, -, rfl, -⟩ := h
      exact absurd rfl hrc
    | true =>
      simp only [if_true, bind_ok, record_ok, modifySession_ok, pure_ok] at h
      obtain ⟨_, _, rfl, _, _, ⟨ss5, hss5, rfl⟩, rfl, rfl⟩ := h
      obtain rfl := Option.some.inj hss3
      obtain rfl := Option.some.inj hss5
      obtain ⟨-, hexchange, ss6, ss7, hss6, hss7, hv⟩ := sendPayload_got rfl hsend
      obtain rfl := Option.some.inj (hss2.symm.trans hss7)
      obtain rfl := Option.some.inj hss6
      have hauth : ss2.v2.authAlg = ss.v2.authAlg := by rw [hv]
      have hint : ss2.v2.integrityAlg = ss.v2.integrityAlg := by rw [hv]
      have hcrypt : ss2.v2.cryptAlg = ss.v2.cryptAlg := by rw [hv]
      refine ⟨hstage'.trans (n := 0)
        (.still [.rakp2Verified] rfl rfl rfl rfl rfl), by simp, fun _ =>
        ⟨hexchange.append _ rfl,
          fun hagreed => hagreed.of_eq hss rfl hstage'.params hauth hint hcrypt⟩⟩

theorem rakp3_stage {rc : Rc} (h : rakp3 K s = .ok (rc, s')) (hrc : rc ≠ .error) :
    Stage (lostBy rc) s s' ∧ (rc = .timeout → stateOf s' ≠ some .active) ∧
      (rc = .done → Exchanges .rakp4 [.rakp4Verified] s s' ∧ (Agreed s → Agreed s') ∧
        stateOf s' = some .active) := by
  unfold rakp3 at h
  simp only [bind_ok, theSession_ok, expect_ok, get_ok, lift_ok, modifySession_ok] at h
  obtain ⟨ss, _, ⟨hss, rfl⟩, _, _, ⟨hexpect, rfl⟩, _, _, ⟨rfl, rfl⟩, ⟨authcode, keyed⟩, _,
    ⟨hkeys, rfl⟩, h⟩ := h
  obtain ⟨sik, sikLen, k1, k1Len, k2, k2Len, rfl⟩ := keyedSession_eq hkeys
  obtain ⟨_, _, ⟨ss1, -, rfl⟩, got, t, hsend, h⟩ := h
  by_cases hcode : ss.v2.rakp2ReturnCode ≠ 0
  · rw [if_pos hcode] at h
    exact absurd (pure_ok.mp h).1.symm hrc
  rw [if_neg hcode] at h
  obtain ⟨hstage, hstate⟩ := sendPayload_stage rfl hsend
  have hstage' := (Stage.withSession s _).trans hstage
  cases got with
  | false =>
    obtain ⟨rfl, rfl⟩ := pure_ok.mp h
    refine ⟨hstage', fun _ => hstate ?_, by simp⟩
    simp [stateOf, St.withSession, of_decide_eq_true hexpect]
  | true =>
    simp only [Bool.not_true, Bool.false_eq_true, if_false, bind_ok, get_ok] at h
    obtain ⟨_, _, ⟨rfl, rfl⟩, h⟩ := h
    split_ifs at h with hcode
    · exact absurd (pure_ok.mp h).1.symm hrc
    simp only [bind_ok, theSession_ok, lift_ok] at h
    obtain ⟨ss2, _, ⟨hss2, rfl⟩, good, _, ⟨-, rfl⟩, h⟩ := h
    cases good with
    | false => exact absurd (pure_ok.mp h).1.symm hrc
    | true =>
      simp only [if_true, bind_ok, record_ok, setState_ok, modify_ok, pure_ok] at h
      obtain ⟨_, _, rfl, _, _, ⟨ss3, hss3, rfl⟩, _, _, rfl, rfl, rfl⟩ := h
      obtain rfl := Option.some.inj (hss2.symm.trans hss3)
      obtain ⟨-, hexchange, ss4, ss5, hss4, hss5, hv⟩ := sendPayload_got rfl hsend
      obtain rfl := Option.some.inj (hss2.symm.trans hss5)
      obtain rfl := Option.some.inj hss4
      have hauth : ss2.v2.authAlg = ss.v2.authAlg := by rw [hv]
      have hint : ss2.v2.integrityAlg = ss.v2.integrityAlg := by rw [hv]
      have hcrypt : ss2.v2.cryptAlg = ss.v2.cryptAlg := by rw [hv]
      exact ⟨hstage'.trans (n := 0)
        (.still [.rakp4Verified] rfl rfl rfl rfl rfl), by simp, fun _ => ⟨hexchange.append _ rfl,
        fun hagreed => hagreed.of_eq hss rfl hstage'.params hauth hint hcrypt, rfl⟩⟩

/-! ### The attempts -/

/-- **One attempt.** -/
theorem attempt_stage {rc : Rc} (h : attempt K s = .ok (rc, s')) (hrc : rc ≠ .error) :
    Stage (lostBy rc) s s' ∧ (rc = .timeout → stateOf s' ≠ some .active) ∧
      (rc = .done → Sends s ∧ Agreed s' ∧ stateOf s' = some .active ∧
        ∃ evs, s'.trace = s.trace ++ .attempt :: evs ∧ Conversed evs) := by
  unfold attempt at h
  simp only [bind_ok, setState_ok, record_ok] at h
  obtain ⟨_, _, ⟨ss, hss, rfl⟩, _, _, rfl, rc1, t1, h1, h⟩ := h
  have hbegin : Stage 0 s { s.withSession { ss with v2 := { ss.v2 with
      sessionState := .presession } } with trace := s.trace ++ [.attempt] } :=
    .still [.attempt] rfl rfl rfl rfl rfl
  have hstage1 := openSession_stage h1
  cases rc1 with
  | error => exact absurd (pure_ok.mp h).1.symm hrc
  | timeout =>
    obtain ⟨rfl, rfl⟩ := pure_ok.mp h
    obtain ⟨hstage1, hstate, -⟩ := hstage1 (by decide) (by simp [stateOf, St.withSession])
    exact ⟨hbegin.trans hstage1, fun _ => hstate, by simp⟩
  | done =>
    obtain ⟨hstage1, hstate1, hdone1⟩ := hstage1 (by decide) (by simp [stateOf, St.withSession])
    obtain ⟨hsends, ⟨w1, evs1, htr1, hex1⟩, hagreed1⟩ := hdone1 rfl
    simp only [bind_ok] at h
    obtain ⟨rc2, t2, h2, h⟩ := h
    cases rc2 with
    | error => exact absurd (pure_ok.mp h).1.symm hrc
    | timeout =>
      obtain ⟨rfl, rfl⟩ := pure_ok.mp h
      obtain ⟨hstage2, hstate2, -⟩ := rakp1_stage h2 (by decide) hstate1
      exact ⟨(hbegin.trans hstage1).trans hstage2, hstate2, by simp⟩
    | done =>
      obtain ⟨hstage2, -, hdone2⟩ := rakp1_stage h2 (by decide) hstate1
      obtain ⟨⟨w2, evs2, htr2, hex2⟩, hagreed2⟩ := hdone2 rfl
      obtain ⟨hstage3, hstate3, hdone3⟩ := rakp3_stage h hrc
      have hstage := ((hbegin.trans hstage1).trans hstage2).trans hstage3
      simp only [lostBy, Nat.zero_add] at hstage
      refine ⟨hstage, hstate3, fun hdone => ?_⟩
      obtain ⟨⟨w3, evs3, htr3, hex3⟩, hagreed3, hactive⟩ := hdone3 hdone
      refine ⟨hbegin.sends.mp hsends, hagreed3 (hagreed2 hagreed1), hactive,
        evs1 ++ (evs2 ++ evs3), ?_, w1, w2, w3, evs1, evs2, evs3, hex1, hex2, hex3, rfl⟩
      rw [htr3, htr2, htr1]
      simp [St.withSession]

/-- The history of the last attempt. -/
def lastAttempt (evs : List Event) : List Event := evs.rtakeWhile (· ≠ .attempt)

theorem lastAttempt_eq {before last : List Event} (h : .attempt ∉ last) :
    lastAttempt (before ++ .attempt :: last) = last := by
  have hpos : ∀ e ∈ last.reverse, decide (e ≠ .attempt) = true := by
    intro e he
    rw [decide_eq_true_iff]
    rintro rfl
    exact h (List.mem_reverse.mp he)
  rw [lastAttempt, List.rtakeWhile, List.reverse_append, List.reverse_cons, List.append_assoc,
    List.takeWhile_append_of_pos hpos]
  simp

/-- **A successful establishment.** -/
def Established (s : St) : Prop :=
  ∃ before last, s.trace = before ++ .attempt :: last ∧ .attempt ∉ last ∧ exchanged.Sublist last ∧
    Agreed s ∧ stateOf s = some .active

/-- Where the last attempt begins does not matter. -/
theorem established_iff {before last : List Event} (htr : s.trace = before ++ .attempt :: last)
    (hlast : .attempt ∉ last) :
    Established s ↔ exchanged.Sublist last ∧ Agreed s ∧ stateOf s = some .active := by
  constructor
  · rintro ⟨before', last', htr', hlast', hend⟩
    have := congrArg lastAttempt (htr.symm.trans htr')
    rw [lastAttempt_eq hlast, lastAttempt_eq hlast'] at this
    rw [this]
    exact hend
  · exact fun hend => ⟨before, last, htr, hlast, hend⟩

/-- The retry loop ended with an attempt that got something for every message. -/
structure Concluded (s s' : St) : Prop where
  sends : Sends s
  agreed : Agreed s'
  active : stateOf s' = some .active
  history : ∃ before last, s'.trace = s.trace ++ (before ++ .attempt :: last) ∧ Conversed last

/-- **The retry loop**, when it does not end in an error: fewer messages than attempts were lost and
the loop was concluded, or as many were lost and the session is not active. -/
theorem handshakeLoop_ok : ∀ {n : ℕ} {s s' : St}, handshakeLoop K n s = .ok (true, s') →
    stateOf s ≠ some .active →
      (∃ m < n, Stage m s s' ∧ Concluded s s') ∨ (Stage n s s' ∧ stateOf s' ≠ some .active) := by
  intro n
  induction n with
  | zero =>
    intro s s' h hst
    obtain ⟨-, rfl⟩ := pure_ok.mp h
    exact .inr ⟨.store rfl rfl rfl rfl, hst⟩
  | succ n ih =>
    intro s s' h hst
    rw [handshakeLoop, bind_ok] at h
    obtain ⟨rc, t, ha, h⟩ := h
    cases rc with
    | error =>
      obtain ⟨h, -⟩ := pure_ok.mp h
      cases h
    | done =>
      obtain ⟨-, rfl⟩ := pure_ok.mp h
      obtain ⟨hstage, -, hdone⟩ := attempt_stage ha (by decide)
      obtain ⟨hsends, hagreed, hactive, evs, htr, hconv⟩ := hdone rfl
      exact .inl ⟨0, Nat.succ_pos n, hstage, hsends, hagreed, hactive, [], evs, htr, hconv⟩
    | timeout =>
      obtain ⟨hstage, hstate, -⟩ := attempt_stage ha (by decide)
      obtain ⟨evs, htr⟩ := moves_attempt opening_grows _ _ _ ha
      rcases ih h (hstate rfl) with ⟨m, hm, hrest, hend⟩ | ⟨hrest, hend⟩
      · obtain ⟨hsends, hagreed, hactive, before, last, htr', hconv⟩ := hend
        exact .inl ⟨1 + m, by omega, hstage.trans hrest, hstage.sends.mp hsends, hagreed, hactive,
          evs ++ before, last, by rw [htr', ← htr]; simp, hconv⟩
      · exact .inr ⟨Nat.add_comm 1 n ▸ hstage.trans hrest, hend⟩

end Ipmitool.Lanplus.Handshake
