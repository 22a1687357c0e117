import Ipmitool.Lanplus.Send

/-! # What the receive loops can do

`handlePacket_cases` says everything that one packet can do to the request list, the response buffer
and the history. `Awaits` is the wait of `sendPayload` for an answer, one poll after the other;
`pollPastDuplicates_iff` says that it is what the nested loops of the source compute, and
`pollRecv_iff` does the same for a single `pollRecv` (`Polls`).

For a request list with at most one entry, `ipmiLoop_single` follows the entry through the envelopes
of a bridged answer: it is answered, or it stays on the list, or it is lost with an answer that two
envelopes surround. -/

namespace Ipmitool.Lanplus.Poll

open Ipmitool.Lib.Mem Ipmitool.Lib.Machine Ipmitool.Core.Types Ipmitool.Crypto.Mac
open Ipmitool.Crypto.LanplusCrypt Ipmitool.Lanplus.State Ipmitool.Lanplus.Receive
open Ipmitool.Lanplus.Send

variable {K : Primitives} {s s' t : St}

/-! ### One packet -/

/-- The events of the handshake and of serial over LAN, in the state each can occur in. -/
inductive Spoken : SessionState → Event → Prop
  | openResponse : Spoken .openSessionSent .openResponse
  | rakp2 : Spoken .rakp1Sent .rakp2
  | rakp4 : Spoken .rakp3Sent .rakp4
  | sol (seq acked accepted : UInt8) : Spoken .active (.solReceived seq acked accepted)

/-- **What one packet can do.** -/
theorem handlePacket_cases {ss : Session} {l l' : List Entry} {r r' : Response} {res : PollResult}
    {evs : List Event} (h : handlePacket K ss l r = .ok (res, l', r', evs)) :
    (∃ b, res = (if b then .got else .none) ∧ l' = l ∧ r' = r ∧ evs = [.pong b]) ∨
    (res = .again ∧ l' = l ∧ evs = []) ∨
    (res = .none ∧ l' = l ∧ evs = [.badAuthcode]) ∨
    (∃ r1 offset size, openPacket K ss r = .ok (.payload r1 offset size) ∧
      r1.session.payloadtype = ptIpmi ∧
      ipmiLoop (rounds l) r1 l offset offset size = .ok (res, l', r', evs)) ∨
    (∃ e, res = .got ∧ l' = l ∧ evs = [e] ∧ Spoken ss.v2.sessionState e) := by
  unfold handlePacket at h
  obtain ⟨o, ho, h⟩ := except_bind_ok.mp h
  cases o with
  | pong b =>
    simp only [pure, Except.pure, Except.ok.injEq, Prod.mk.injEq] at h
    obtain ⟨rfl, rfl, rfl, rfl⟩ := h
    exact .inl ⟨b, rfl, rfl, rfl, rfl⟩
  | foreign r1 =>
    simp only [pure, Except.pure, Except.ok.injEq, Prod.mk.injEq] at h
    obtain ⟨rfl, rfl, rfl, rfl⟩ := h
    exact .inr (.inl ⟨rfl, rfl, rfl⟩)
  | badAuthcode r1 =>
    simp only [pure, Except.pure, Except.ok.injEq, Prod.mk.injEq] at h
    obtain ⟨rfl, rfl, rfl, rfl⟩ := h
    exact .inr (.inr (.inl ⟨rfl, rfl, rfl⟩))
  | payload r1 offset size =>
    dsimp only at h
    unfold handlePayload at h
    dsimp only at h
    by_cases h0 : r1.session.payloadtype = ptIpmi
    · rw [if_pos h0] at h
      exact .inr (.inr (.inr (.inl ⟨r1, offset, size, ho, h0, h⟩)))
    · rw [if_neg h0] at h
      -- every other payload is answered in one state and skipped in all others
      split_ifs at h with h1 hs h2 hs h3 hs h4 hs
      all_goals first
        | (simp only [Except.ok.injEq, Prod.mk.injEq] at h
           obtain ⟨rfl, rfl, rfl, rfl⟩ := h
           exact .inr (.inl ⟨rfl, rfl, rfl⟩))
        | skip
      · simp only [Except.ok.injEq, Prod.mk.injEq] at h
        obtain ⟨rfl, rfl, rfl, rfl⟩ := h
        exact .inr (.inr (.inr (.inr
          ⟨_, rfl, rfl, rfl, by rw [not_not.mp hs]; exact .openResponse⟩)))
      · obtain ⟨r2, -, h⟩ := except_bind_ok.mp h
        simp only [pure, Except.pure, Except.ok.injEq, Prod.mk.injEq] at h
        obtain ⟨rfl, rfl, rfl, rfl⟩ := h
        exact .inr (.inr (.inr (.inr ⟨_, rfl, rfl, rfl, by rw [not_not.mp hs]; exact .rakp2⟩)))
      · obtain ⟨r2, -, h⟩ := except_bind_ok.mp h
        simp only [pure, Except.pure, Except.ok.injEq, Prod.mk.injEq] at h
        obtain ⟨rfl, rfl, rfl, rfl⟩ := h
        exact .inr (.inr (.inr (.inr ⟨_, rfl, rfl, rfl, by rw [not_not.mp hs]; exact .rakp4⟩)))
      · obtain ⟨r2, -, h⟩ := except_bind_ok.mp h
        simp only [pure, Except.pure, Except.ok.injEq, Prod.mk.injEq] at h
        obtain ⟨rfl, rfl, rfl, rfl⟩ := h
        exact .inr (.inr (.inr (.inr ⟨_, rfl, rfl, rfl, by rw [not_not.mp hs]; exact .sol _ _ _⟩)))

/-! ### A request list with one entry -/

/-- `Peels e e'`: the entry `e'` is `e` after some envelopes have been peeled off. -/
inductive Peels : Entry → Entry → Prop
  | refl (e : Entry) : Peels e e
  | peel {e e' : Entry} (h : Peels (peel e) e') : Peels e e'

theorem Peels.trans {e e' e'' : Entry} (h : Peels e e') (h' : Peels e' e'') : Peels e e'' := by
  induction h with
  | refl e => exact h'
  | peel h ih => exact .peel (ih h')

theorem Peels.addr_eq {e e' : Entry} (h : Peels e e') : e'.addr = e.addr := by
  induction h with
  | refl e => rfl
  | peel h ih => exact ih

theorem shiftData_ok {r r' : Response} {o : ℕ} {extra : ℤ} (h : shiftData r o extra = .ok r') :
    r'.payload = r.payload ∧ r'.ccode = r.ccode ∧ r'.session = r.session := by
  unfold shiftData at h
  split_ifs at h
  · obtain rfl := Except.ok.inj h; exact ⟨rfl, rfl, rfl⟩
  · obtain rfl := Except.ok.inj h; exact ⟨rfl, rfl, rfl⟩

theorem lookup_single (e : Entry) (seq cmd : UInt8) :
    reqLookupEntry [e] seq cmd = if Entry.hasKey seq cmd e then some e else none := by
  simp only [reqLookupEntry, List.find?_cons, List.find?_nil]
  split <;> simp_all

theorem remove_single (e : Entry) (seq cmd : UInt8) :
    reqRemoveEntry [e] seq cmd = if Entry.hasKey seq cmd e then [] else [e] := by
  simp only [reqRemoveEntry, List.eraseP_cons, List.eraseP_nil]
  split <;> simp_all

theorem ipmiLoop_nil {fuel : ℕ} {r r' : Response} {o b : ℕ} {size : UInt16} {res : PollResult}
    {l' : List Entry} {evs : List Event}
    (h : ipmiLoop (fuel + 1) r [] o b size = .ok (res, l', r', evs)) :
    res = .again ∧ l' = [] ∧ evs = [] := by
  simp only [ipmiLoop, reqLookupEntry, List.find?_nil, Except.ok.injEq, Prod.mk.injEq] at h
  exact ⟨h.1.symm, h.2.1.symm, h.2.2.2.symm⟩

/-- The outcomes of a packet for a list that holds one entry. -/
inductive SingleOutcome (e : Entry) : PollResult → List Entry → Response → List Event → Prop
  /-- The packet is skipped; the entry stays, perhaps with fewer envelopes to peel. -/
  | skipped {e' : Entry} {r : Response} (hp : Peels e e') : SingleOutcome e .again [e'] r []
  /-- The entry leaves the list with an envelope although its answer is not there yet. -/
  | lost {e' : Entry} {r : Response} (hp : Peels e e') : SingleOutcome e .again [] r [.removed e']
  /-- The packet answers the entry. -/
  | answered {e' : Entry} {r : Response} (hp : Peels e e') (hseq : r.rqSeq = e'.rqSeq)
      (hcmd : r.cmd = e'.req.cmd) : SingleOutcome e .got [] r [.removed e']

theorem SingleOutcome.of_peel {e : Entry} {res : PollResult} {l : List Entry} {r : Response}
    {evs : List Event} (h : SingleOutcome (peel e) res l r evs) : SingleOutcome e res l r evs := by
  cases h with
  | skipped hp => exact .skipped hp.peel
  | lost hp => exact .lost hp.peel
  | answered hp hseq hcmd => exact .answered hp.peel hseq hcmd

/-- **One packet and one entry.** -/
theorem ipmiLoop_single : ∀ {fuel : ℕ} {e : Entry} {r r' : Response} {o b : ℕ} {size : UInt16}
    {res : PollResult} {l' : List Entry} {evs : List Event}, e.bridgingLevel < fuel →
      ipmiLoop fuel r [e] o b size = .ok (res, l', r', evs) → SingleOutcome e res l' r' evs
  | 0, _, _, _, _, _, _, _, _, _, hf, _ => absurd hf (Nat.not_lt_zero _)
  | fuel + 1, e, r, r', o, b, size, res, l', evs, hf, h => by
    unfold ipmiLoop at h
    dsimp only at h
    set r1 := readIpmiResponse r o with hr1
    rw [lookup_single] at h
    by_cases hkey : Entry.hasKey r1.rqSeq r1.cmd e = true
    · rw [if_pos hkey] at h
      dsimp only at h
      have hupd : updateEntry [e] (peel e) = [peel e] := by simp [updateEntry, peel]
      by_cases hpeel : e.bridgingLevel ≠ 0 ∧ r1.ccode = 0
      · simp only [hpeel, hupd, if_true, true_and, and_self, ne_eq, not_false_iff] at h
        by_cases h8 : 8 < size
        · simp only [h8, not_true_eq_false, if_false] at h
          obtain ⟨r2, hshift, h⟩ := except_bind_ok.mp h
          rw [lookup_single, remove_single] at h
          have hf1 : (peel e).bridgingLevel < fuel := by
            have := hpeel.1
            simp only [peel]
            omega
          obtain ⟨fuel, rfl⟩ : ∃ n, fuel = n + 1 := ⟨fuel - 1, by omega⟩
          by_cases hk' : Entry.hasKey r1.rqSeq r1.cmd (peel e) = true
          · -- the entry still has the key of the envelope: it is removed with it
            simp only [hk', if_true] at h
            obtain ⟨⟨res2, l2, r3, evs2⟩, hloop, h⟩ := except_bind_ok.mp h
            simp only [pure, Except.pure, Except.ok.injEq, Prod.mk.injEq] at h
            obtain ⟨rfl, rfl, rfl, rfl⟩ := h
            obtain ⟨rfl, rfl, rfl⟩ := ipmiLoop_nil hloop
            exact .lost (.peel (.refl _))
          · simp only [hk', if_false, Bool.false_eq_true] at h
            obtain ⟨⟨res2, l2, r3, evs2⟩, hloop, h⟩ := except_bind_ok.mp h
            simp only [pure, Except.pure, Except.ok.injEq, Prod.mk.injEq] at h
            obtain ⟨rfl, rfl, rfl, rfl⟩ := h
            exact SingleOutcome.of_peel (ipmiLoop_single hf1 hloop)
        · simp only [h8, not_false_iff, if_true, Except.ok.injEq, Prod.mk.injEq] at h
          obtain ⟨rfl, rfl, rfl, rfl⟩ := h
          exact .skipped (.peel (.refl _))
      · simp only [hpeel, if_false, false_and] at h
        obtain ⟨r2, hshift, h⟩ := except_bind_ok.mp h
        rw [lookup_single, remove_single, if_pos hkey, if_pos hkey] at h
        simp only [not_false_iff, if_true, pure, Except.pure, Except.ok.injEq, Prod.mk.injEq] at h
        obtain ⟨rfl, rfl, rfl, rfl⟩ := h
        obtain ⟨hpay, -, -⟩ := shiftData_ok hshift
        simp only [Entry.hasKey, Bool.and_eq_true, beq_iff_eq] at hkey
        refine .answered (.refl e) ?_ ?_
        · rw [Response.rqSeq, hpay]; exact hkey.1.symm
        · rw [Response.cmd, hpay]; exact hkey.2.symm
    · rw [if_neg hkey] at h
      simp only [Except.ok.injEq, Prod.mk.injEq] at h
      obtain ⟨rfl, rfl, rfl, rfl⟩ := h
      exact .skipped (Peels.refl e)

/-! ### The loops over packets -/

/-- `pollRecv`, poll by poll: packets are skipped until one is not. -/
inductive Polls (K : Primitives) : St → PollResult → St → Prop
  | last {s s' : St} {res : PollResult} (h : pollSingle K s = .ok (res, s')) (hres : res ≠ .again) :
      Polls K s res s'
  | skip {s t s' : St} {res : PollResult} (h : pollSingle K s = .ok (.again, t))
      (hrest : Polls K t res s') : Polls K s res s'

theorem pollSingle_inbox {res : PollResult} (h : pollSingle K s = .ok (res, s')) :
    s'.net.inbox.length ≤ s.net.inbox.length ∧
      (res ≠ .none → s'.net.inbox.length < s.net.inbox.length) := by
  obtain ⟨ss, -, ⟨rfl, rest, hrest, rfl⟩ | ⟨-, d, rest, l, r, evs, hin, -, -, -, rfl⟩⟩ :=
    pollSingle_ok h
  · exact ⟨hrest.length_le, fun h => absurd rfl h⟩
  · simp only [handled, hin, List.length_cons]
    omega

theorem Polls.inbox {res : PollResult} (h : Polls K s res s') :
    s'.net.inbox.length ≤ s.net.inbox.length ∧
      (res ≠ .none → s'.net.inbox.length < s.net.inbox.length) := by
  induction h with
  | last h hres => exact pollSingle_inbox h
  | skip h hrest ih =>
    have h1 := (pollSingle_inbox h).2 (by decide)
    exact ⟨by omega, fun h => by have := ih.2 h; omega⟩

theorem pollLoop_iff : ∀ {fuel : ℕ} {s s' : St} {b : Bool}, s.net.inbox.length < fuel →
    (pollLoop K fuel s = .ok (b, s') ↔ ∃ res, Polls K s res s' ∧ b = decide (res = .got))
  | 0, _, _, _, hf => absurd hf (Nat.not_lt_zero _)
  | fuel + 1, s, s', b, hf => by
    have hih : ∀ {t : St}, pollSingle K s = .ok (.again, t) →
        (pollLoop K fuel t = .ok (b, s') ↔ ∃ res, Polls K t res s' ∧ b = decide (res = .got)) := by
      intro t ht
      have := (pollSingle_inbox ht).2 (by decide)
      exact pollLoop_iff (by omega)
    unfold pollLoop
    rw [bind_ok]
    constructor
    · rintro ⟨res, t, h1, h2⟩
      cases res with
      | again =>
        obtain ⟨res, hp, hb⟩ := (hih h1).mp h2
        exact ⟨res, .skip h1 hp, hb⟩
      | none =>
        obtain ⟨rfl, rfl⟩ := pure_ok.mp h2
        exact ⟨.none, .last h1 (by decide), rfl⟩
      | got =>
        obtain ⟨rfl, rfl⟩ := pure_ok.mp h2
        exact ⟨.got, .last h1 (by decide), rfl⟩
    · rintro ⟨res, hp, rfl⟩
      cases hp with
      | last h hres =>
        refine ⟨res, s', h, ?_⟩
        cases res with
        | again => exact absurd rfl hres
        | none => rfl
        | got => rfl
      | skip h hrest => exact ⟨.again, _, h, (hih h).mpr ⟨res, hrest, rfl⟩⟩

/-- **`pollRecv` is its polls.** -/
theorem pollRecv_iff {b : Bool} :
    pollRecv K s = .ok (b, s') ↔ ∃ res, Polls K s res s' ∧ b = decide (res = .got) := by
  unfold pollRecv
  simp only [bind_ok, get_ok]
  constructor
  · rintro ⟨_, _, ⟨rfl, rfl⟩, h⟩
    exact (pollLoop_iff (Nat.lt_succ_self _)).mp h
  · intro h
    exact ⟨s, s, ⟨rfl, rfl⟩, (pollLoop_iff (Nat.lt_succ_self _)).mpr h⟩

/-- The wait of `sendPayload` for an answer, poll by poll: packets are skipped, answers with the
completion code of a duplicate are ignored, and the first other answer or the first receive that
comes back with nothing ends it. -/
inductive Awaits (K : Primitives) : St → Bool → St → Prop
  | missed {s s' : St} (h : pollSingle K s = .ok (.none, s')) : Awaits K s false s'
  | got {s s' : St} (h : pollSingle K s = .ok (.got, s')) (hcc : s'.recvRsp.ccode ≠ 0xcf) :
      Awaits K s true s'
  | skip {s t s' : St} {b : Bool} (h : pollSingle K s = .ok (.again, t)) (hrest : Awaits K t b s') :
      Awaits K s b s'
  | duplicate {s t s' : St} {b : Bool} (h : pollSingle K s = .ok (.got, t))
      (hcc : t.recvRsp.ccode = 0xcf) (hrest : Awaits K t b s') : Awaits K s b s'

theorem Awaits.of_polls {res : PollResult} (h : Polls K s res s')
    (hcc : res = .got → s'.recvRsp.ccode ≠ 0xcf) : Awaits K s (decide (res = .got)) s' := by
  induction h with
  | last h hres =>
    rename_i res
    cases res with
    | again => exact absurd rfl hres
    | none => exact .missed h
    | got => exact .got h (hcc rfl)
  | skip h hrest ih => exact .skip h (ih hcc)

theorem Awaits.of_duplicate {b : Bool} (h : Polls K s .got t) (hcc : t.recvRsp.ccode = 0xcf)
    (hrest : Awaits K t b s') : Awaits K s b s' := by
  generalize hres : PollResult.got = res at h
  induction h with
  | last h _ => subst hres; exact .duplicate h hcc hrest
  | skip h hp ih => exact .skip h (ih hcc hrest hres)

/-- **The two nested loops are one wait.** -/
theorem pollPastDuplicates_iff : ∀ {fuel : ℕ} {s s' : St} {b : Bool}, s.net.inbox.length < fuel →
    (pollPastDuplicates K fuel s = .ok (b, s') ↔ Awaits K s b s')
  | 0, _, _, _, hf => absurd hf (Nat.not_lt_zero _)
  | fuel + 1, s, s', b, hf => by
    have hunfold : pollPastDuplicates K (fuel + 1) s = .ok (b, s') ↔
        ∃ res t, Polls K s res t ∧ (if res = .got ∧ t.recvRsp.ccode = 0xcf then
          pollPastDuplicates K fuel t = .ok (b, s') else b = decide (res = .got) ∧ t = s') := by
      simp only [pollPastDuplicates, bind_ok, get_ok, pollRecv_iff]
      constructor
      · rintro ⟨got, t, ⟨res, hp, rfl⟩, _, _, ⟨rfl, rfl⟩, h⟩
        refine ⟨res, t, hp, ?_⟩
        simp only [decide_eq_true_eq] at h
        split_ifs at h ⊢ with hc
        · exact h
        · obtain ⟨h1, h2⟩ := pure_ok.mp h
          exact ⟨h1.symm, h2⟩
      · rintro ⟨res, t, hp, h⟩
        refine ⟨_, t, ⟨res, hp, rfl⟩, t, t, ⟨rfl, rfl⟩, ?_⟩
        simp only [decide_eq_true_eq]
        split_ifs at h ⊢ with hc
        · exact h
        · exact pure_ok.mpr ⟨h.1.symm, h.2⟩
    rw [hunfold]
    constructor
    · rintro ⟨res, t, hp, h⟩
      split_ifs at h with hc
      · obtain ⟨rfl, hcc⟩ := hc
        have := hp.inbox.2 (by decide)
        exact .of_duplicate hp hcc ((pollPastDuplicates_iff (by omega)).mp h)
      · obtain ⟨rfl, rfl⟩ := h
        exact .of_polls hp fun h1 h2 => hc ⟨h1, h2⟩
    · intro h
      -- by induction on the wait, which the packets that are skipped only put off
      clear hunfold
      induction h with
      | missed h => exact ⟨.none, _, .last h (by decide), by simp⟩
      | got h hcc => exact ⟨.got, _, .last h (by decide), by simp [hcc]⟩
      | skip h hrest ih =>
        have := (pollSingle_inbox h).2 (by decide)
        obtain ⟨res, u, hp, h1⟩ := ih (by omega)
        exact ⟨res, u, .skip h hp, h1⟩
      | duplicate h hcc hrest ih =>
        have := (pollSingle_inbox h).2 (by decide)
        refine ⟨.got, _, .last h (by decide), ?_⟩
        rw [if_pos ⟨rfl, hcc⟩]
        exact (pollPastDuplicates_iff (by omega)).mpr hrest

end Ipmitool.Lanplus.Poll
