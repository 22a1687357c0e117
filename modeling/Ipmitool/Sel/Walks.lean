import Mathlib.Data.Nat.Count
import Ipmitool.Evd.Watch

/-! # Where the walks along the log end

The loops of `savelistEntries`, `lastId` and `selRead` follow the ids that the BMC gives. Against a
BMC that may give any answers one after the other, they return exactly if one of the answers ends
them.

* `Ends`: the id ffff, or two answers in a row without an id. The listing also has to come there
  before its counter overflows (`showLoop_returns_iff`).
* `WalkEnds`: in the daemon a failed request and the id that was just asked for end the walk as well
  (`walk_returns_iff`), so only there a chain may come back to an entry, and only to the one it is
  at. -/

namespace Ipmitool.Sel.Walks

open Ipmitool.Lib.Mem Ipmitool.Lib.Bytes Ipmitool.Lib.Machine Ipmitool.Lib.Dialogue
open Ipmitool.Core.Types Ipmitool.Core.Interface Ipmitool.Sel.Entries Ipmitool.Evd.Watch

/-- A BMC that gives these answers, whatever it is asked. -/
def answers (r : ℕ → Option Reply) : Bmc ℕ := fun k _ => (r k, k + 1)

/-- The next id in a usable answer to Get SEL Entry. -/
def nextOf (a : Option Reply) : Option UInt16 :=
  a.bind fun r => if r.ccode ≠ 0 ∨ r.dataLen < 18 then none else some (ofLe16 (r.data 0) (r.data 1))

/-- The next ids; zero stands for a failed request, too. -/
def ids (r : ℕ → Option Reply) (k : ℕ) : UInt16 := (nextOf (r k)).getD 0

/-- With enough fuel the program returns. -/
def Returns {γ α : Type} (x : ℕ → Cmd γ ℕ (Option α)) (w : CmdWorld γ ℕ) : Prop :=
  ∃ fuel a w', x fuel w = .ok (some a, w')

/-! ### Sequences of ids -/

section
variable (s : ℕ → UInt16) (start : UInt16)

/-- The answer number `k` ends every walk. -/
def Ends (k : ℕ) : Prop := s k = 0xffff ∨ s k = 0 ∧ s (k + 1) = 0

/-- What one turn of a walk learns from the answers from number `p` on, and the number behind
them. -/
def value (p : ℕ) : UInt16 := if s p = 0 then s (p + 1) else s p

def turn (p : ℕ) : ℕ := if s p = 0 then p + 2 else p + 1

/-- The id that the request number `k` asks for. -/
def asked : ℕ → UInt16
  | 0 => start
  | k + 1 => if s k = 0 then asked k else s k

/-- The number of answers with an id, before number `k`. -/
def found (k : ℕ) : ℕ := Nat.count (fun j => s j ≠ 0) k

end

section
variable {s : ℕ → UInt16} {start : UInt16} {p k : ℕ}

theorem lt_turn : p < turn s p := by
  unfold turn
  split_ifs <;> omega

theorem both_zero (h : value s p = 0) : s p = 0 ∧ s (p + 1) = 0 := by
  unfold value at h
  split_ifs at h with h0
  · exact ⟨h0, h⟩
  · exact absurd h h0

theorem found_turn (h : value s p ≠ 0) : found s (turn s p) = found s p + 1 := by
  unfold value at h
  unfold turn found
  split_ifs at h ⊢ with h0
  · rw [Nat.count_succ, Nat.count_succ, if_neg (not_not.mpr h0), if_pos h]
  · rw [Nat.count_succ, if_pos h0]

theorem asked_turn (h : value s p ≠ 0) : asked s start (turn s p) = value s p := by
  unfold value at h ⊢
  unfold turn
  split_ifs at h ⊢ with h0
  · rw [asked, if_neg h]
  · rw [asked, if_neg h0]

theorem ends_in_turn (h : value s p ≠ 0) (hp : p ≤ k) (hk : k < turn s p) (he : Ends s k) :
    k + 1 = turn s p ∧ value s p = 0xffff := by
  unfold value at h ⊢
  unfold turn at hk ⊢
  split_ifs at h hk ⊢ with h0
  · rcases Nat.lt_or_ge p k with hlt | hle
    · obtain rfl : k = p + 1 := by omega
      exact ⟨rfl, he.resolve_right fun hc => h hc.1⟩
    · obtain rfl : k = p := by omega
      rcases he with he | he
      · rw [h0] at he
        cases he
      · exact absurd he.2 h
  · obtain rfl : k = p := by omega
    exact ⟨rfl, he.resolve_right fun hc => h hc.1⟩

theorem exists_end_of_value (h : value s p = 0xffff) :
    ∃ k, p ≤ k ∧ k + 1 = turn s p ∧ Ends s k := by
  unfold value at h
  unfold turn
  split_ifs at h ⊢ with h0
  · exact ⟨p + 1, Nat.le_succ p, rfl, .inl h⟩
  · exact ⟨p, Nat.le_refl p, rfl, .inl h⟩

end

/-! ### The listing -/

section
variable {r : ℕ → Option Reply} {strings : Strings} {save : Save}

theorem getStdEntry_answers {γ : Type} (id : UInt16) (evt : SelEventRecord)
    (w : CmdWorld γ ℕ) : ∃ evt' w',
    getStdEntry (answers r) id evt w = .ok ((ids r w.device, evt'), w') ∧
    w'.device = w.device + 1 := by
  have hask : (sendrecv (answers r) (getSelEntry id) : Cmd γ ℕ _) w =
      .ok (r w.device, w.asked (answers r) (getSelEntry id)) := ask_ok.mpr ⟨rfl, rfl⟩
  unfold ids nextOf
  rcases hr : r w.device with _ | a
  · exact ⟨evt, w.asked (answers r) (getSelEntry id),
      bind_ok.mpr ⟨_, _, hask, by rw [hr]; rfl⟩, rfl⟩
  by_cases hbad : a.ccode ≠ 0 ∨ a.dataLen < 18
  · refine ⟨evt, w.asked (answers r) (getSelEntry id), bind_ok.mpr ⟨_, _, hask, ?_⟩, rfl⟩
    rw [hr]
    dsimp only
    rw [if_pos hbad, Option.bind_some, if_pos hbad]
    rfl
  · refine ⟨unpack a.data, w.asked (answers r) (getSelEntry id), bind_ok.mpr ⟨_, _, hask, ?_⟩, rfl⟩
    rw [hr]
    dsimp only
    rw [if_neg hbad, Option.bind_some, if_neg hbad]
    rfl

theorem retry_answers {γ : Type} (id : UInt16) (evt : SelEventRecord) (w : CmdWorld γ ℕ) :
    ∃ x w1 evt' w2,
    getStdEntry (answers r) id evt w = .ok (x, w1) ∧
    retry (answers r) id x w1 = .ok ((value (ids r) w.device, evt'), w2) ∧
    w2.device = turn (ids r) w.device := by
  obtain ⟨evt1, w1, h1, hdev1⟩ := getStdEntry_answers (r := r) id evt w
  unfold value turn retry
  split_ifs with h0
  · obtain ⟨evt2, w2, h2, hdev2⟩ := getStdEntry_answers (r := r) id evt1 w1
    rw [hdev1] at h2 hdev2
    exact ⟨_, w1, evt2, w2, h1, by rw [if_pos h0]; exact h2, hdev2⟩
  · exact ⟨_, w1, evt1, w1, h1, by rw [if_neg h0]; rfl, hdev1⟩

variable (strings save) in
theorem showLoop_turn {next : UInt16} (hnext : next ≠ 0xffff) (evt : SelEventRecord) (n : ℕ)
    (w : CmdWorld Output ℕ) : ∃ evt' w', w'.device = turn (ids r) w.device ∧ ∀ fuel,
      (value (ids r) w.device = 0 →
        ∃ w'', showLoop (answers r) strings save 0 (fuel + 1) next evt n w = .ok (some (), w'')) ∧
      (value (ids r) w.device ≠ 0 → n + 1 = 2 ^ 31 → ∀ w'',
        showLoop (answers r) strings save 0 (fuel + 1) next evt n w ≠ .ok (some (), w'')) ∧
      (value (ids r) w.device ≠ 0 → n + 1 ≠ 2 ^ 31 →
        showLoop (answers r) strings save 0 (fuel + 1) next evt n w =
          showLoop (answers r) strings save 0 fuel (value (ids r) w.device) evt' (n + 1) w') := by
  obtain ⟨x, w1, evt', w2, h1, h2, hdev⟩ := retry_answers (r := r) next evt w
  refine ⟨evt', { w2 with vars := emit strings save evt' w2.vars }, hdev, fun fuel => ⟨fun h0 => ?_,
    fun h0 hn w'' => ?_, fun h0 hn => ?_⟩⟩
  all_goals
    rw [showLoop, if_neg hnext, bind_run h1, bind_run h2]
    dsimp only
  · rw [if_pos h0]
    exact ⟨w2, rfl⟩
  · rw [if_neg h0, bind_run (a := ⟨⟩) (modify_ok.mpr rfl), if_pos hn]
    exact fun h => throw_ok.mp (bind_ok.mp h).choose_spec.choose_spec.1
  · have hcount : ((n + 1 : ℕ) : ℤ) ≠ 0 := by omega
    rw [if_neg h0, bind_run (a := ⟨⟩) (modify_ok.mpr rfl), if_neg hn, if_neg hcount]

/-- The loop ends exactly if an answer ends it and the entries up to there can be counted. -/
theorem showLoop_returns_iff {next : UInt16} (hnext : next ≠ 0xffff) (evt : SelEventRecord) {n : ℕ}
    (hn : n < 2 ^ 31) (w : CmdWorld Output ℕ) :
    (∃ fuel w', showLoop (answers r) strings save 0 fuel next evt n w = .ok (some (), w')) ↔
      ∃ k, w.device ≤ k ∧ Ends (ids r) k ∧ n + found (ids r)
        (k + 1) < 2 ^ 31 + found (ids r) w.device := by
  constructor
  · rintro ⟨fuel, w', h⟩
    induction fuel generalizing next evt n w with
    | zero => cases h
    | succ fuel ih =>
      obtain ⟨evt', w1, hdev, hturn⟩ := showLoop_turn (r := r) strings save hnext evt n w
      obtain ⟨-, hover, hgo⟩ := hturn fuel
      by_cases h0 : value (ids r) w.device = 0
      · refine ⟨w.device, Nat.le_refl _, .inr (both_zero h0), ?_⟩
        rw [found, Nat.count_succ, if_neg (not_not.mpr (both_zero h0).1)]
        exact Nat.add_lt_add_right hn _
      · by_cases hint : n + 1 = 2 ^ 31
        · exact absurd h (hover h0 hint w')
        rw [hgo h0 hint] at h
        have hfound := found_turn h0
        by_cases hend : value (ids r) w.device = 0xffff
        · obtain ⟨k, hk, hk1, he⟩ := exists_end_of_value hend
          refine ⟨k, hk, he, ?_⟩
          rw [hk1, hfound]
          omega
        · obtain ⟨k, hk, he, hlt⟩ := ih hend evt' (by omega) w1 h
          rw [hdev] at hk hlt
          exact ⟨k, lt_turn.le.trans hk, he, by omega⟩
  · rintro ⟨k, hk, he, hlt⟩
    -- the walk takes at most one turn per answer
    obtain ⟨m, hm⟩ : ∃ m, m = k - w.device := ⟨_, rfl⟩
    induction m using Nat.strong_induction_on generalizing next evt n w with
    | _ m ih =>
    obtain ⟨evt', w1, hdev, hturn⟩ := showLoop_turn (r := r) strings save hnext evt n w
    by_cases h0 : value (ids r) w.device = 0
    · obtain ⟨w', h⟩ := (hturn 0).1 h0
      exact ⟨1, w', h⟩
    have hfound := found_turn h0
    rcases Nat.lt_or_ge k (turn (ids r) w.device) with hin | hbehind
    · obtain ⟨hk1, hend⟩ := ends_in_turn h0 hk hin he
      rw [hk1, hfound] at hlt
      refine ⟨2, w1, ?_⟩
      rw [(hturn 1).2.2 h0 (by omega), showLoop, if_pos hend]
      rfl
    · have hmono : found (ids r) (turn (ids r) w.device) ≤ found (ids r) (k + 1) :=
        Nat.count_monotone _ (Nat.le_succ_of_le hbehind)
      have hint : n + 1 ≠ 2 ^ 31 := by omega
      by_cases hend : value (ids r) w.device = 0xffff
      · refine ⟨2, w1, ?_⟩
        rw [(hturn 1).2.2 h0 hint, showLoop, if_pos hend]
        rfl
      have hlt' := lt_turn (s := ids r) (p := w.device)
      obtain ⟨fuel, w', h⟩ :=
        ih (k - w1.device) (by rw [hdev]; omega) hend evt' (n := n + 1) (by omega) w1
          (by rw [hdev]; exact hbehind) (by rw [hdev]; omega) rfl
      exact ⟨fuel + 1, w', ((hturn fuel).2.2 h0 hint).trans h⟩

/-- Get SEL Info is answered well, and there are entries. -/
def HasEntries (a : Option Reply) : Prop :=
  ∃ i, a = some i ∧ i.ccode = 0 ∧ i.dataLen = 14 ∧ ¬ (i.data 1 = 0 ∧ i.data 2 = 0)

/-- What ends the listing: the answer to Get SEL Info, or one of the answers `k` behind it, if fewer
than 2 ^ 31 of them have an id up to there. -/
def ListEnds (r : ℕ → Option Reply) : Prop :=
  ¬ HasEntries (r 0) ∨ ∃ k, Ends (fun j => ids r (1 + j)) k ∧
    found (fun j => ids r (1 + j)) (k + 1) < 2 ^ 31

theorem savelistEntries_returns_iff (out : Output) (log : List Exchange) :
    Returns (fun fuel => savelistEntries (answers r) strings save fuel 0) ⟨out, 0, log⟩ ↔
    ListEnds r := by
  obtain ⟨w1, hw1⟩ : ∃ w1 : CmdWorld Output ℕ, w1 =
      World.asked ⟨out, 0, log⟩ (answers r) getSelInfo := ⟨_, rfl⟩
  have hask : (sendrecv (answers r) getSelInfo : Cmd Output ℕ _) ⟨out, 0, log⟩ = .ok (r 0, w1) :=
    ask_ok.mpr ⟨rfl, hw1.symm⟩
  have hdev : w1.device = 1 := congrArg World.device hw1
  by_cases hinfo : HasEntries (r 0)
  · obtain ⟨i, hi, hcc, hlen, hcount⟩ := hinfo
    have hinfo' : HasEntries (r 0) := ⟨i, hi, hcc, hlen, hcount⟩
    have hget : getInfo (answers r) ⟨out, 0, log⟩ = .ok (some i, w1) := by
      unfold getInfo
      rw [bind_run hask, hi]
      dsimp only
      rw [if_neg (by simp [hcc, hlen])]
      rfl
    have hrun : Returns (fun fuel => savelistEntries (answers r) strings save fuel 0) ⟨out, 0,
        log⟩ ↔
        ∃ fuel w', showLoop (answers r) strings save 0 fuel 0 {} 0 w1 = .ok (some (), w') := by
      have hstep : ∀ fuel, savelistEntries (answers r) strings save fuel 0 ⟨out, 0, log⟩ =
          (showLoop (answers r) strings save 0 fuel 0 {} 0 >>= fun done =>
            pure (done.map fun _ => (0 : ℤ))) w1 := by
        intro fuel
        rw [savelistEntries, bind_run hget]
        dsimp only
        rw [if_neg hcount, if_neg (by decide)]
      constructor
      · rintro ⟨fuel, a, w', h⟩
        obtain ⟨done, w2, h2, h⟩ := bind_ok.mp ((hstep fuel).symm.trans h)
        obtain ⟨hdone, rfl⟩ := pure_ok.mp h
        cases done with
        | none => cases hdone
        | some u => exact ⟨fuel, w2, h2⟩
      · rintro ⟨fuel, w', h⟩
        exact ⟨fuel, 0, w', (hstep fuel).trans (bind_ok.mpr ⟨_, _, h, rfl⟩)⟩
    have hshift : ∀ k, found (ids r) (1 + k) = found (ids r) 1 + found (fun j => ids r (1 + j)) k :=
      fun k =>
        Nat.count_add _ 1 k
    rw [hrun, showLoop_returns_iff (by decide) {} (by decide) w1, hdev, ListEnds,
      or_iff_right (not_not.mpr hinfo')]
    constructor
    · rintro ⟨k, hk, he, hlt⟩
      obtain ⟨k, rfl⟩ := Nat.exists_eq_add_of_le hk
      have := hshift (k + 1)
      exact ⟨k, he, by rw [show 1 + k + 1 = 1 + (k + 1) from rfl] at hlt; omega⟩
    · rintro ⟨k, he, hlt⟩
      have := hshift (k + 1)
      exact ⟨1 + k, Nat.le_add_right 1 k, he, by rw [show 1 + k + 1 = 1 + (k + 1) from rfl]; omega⟩
  · refine iff_of_true ?_ (.inl hinfo)
    have hget : ∃ a w', savelistEntries (answers r) strings save 0 0 ⟨out, 0, log⟩ =
        .ok (some a, w') := by
      unfold savelistEntries getInfo
      rcases hi : r 0 with _ | i
      · refine ⟨-1, w1, bind_ok.mpr ⟨none, w1, bind_ok.mpr ⟨none, w1, hi ▸ hask, rfl⟩, rfl⟩⟩
      by_cases hbad : i.ccode ≠ 0 ∨ i.dataLen ≠ 14
      · refine ⟨-1, w1, bind_ok.mpr ⟨none, w1, bind_ok.mpr ⟨some i, w1, hi ▸ hask, ?_⟩, rfl⟩⟩
        dsimp only
        rw [if_pos hbad]
        rfl
      · rw [not_or, not_not, not_not] at hbad
        have hzero : i.data 1 = 0 ∧ i.data 2 = 0 := by
          by_contra hc
          exact hinfo ⟨i, hi, hbad.1, hbad.2, hc⟩
        refine ⟨0, w1, bind_ok.mpr ⟨some i, w1, bind_ok.mpr ⟨some i, w1, hi ▸ hask, ?_⟩, ?_⟩⟩
        · dsimp only
          rw [if_neg (by simp [hbad])]
          rfl
        · dsimp only
          rw [if_pos hzero]
          rfl
    obtain ⟨a, w', h⟩ := hget
    exact ⟨0, a, w', h⟩

end

/-! ### The daemon -/

/-- What ends a walk of the daemon that starts with the id `start`: a failed request, what ends
every walk, or the id that was asked for. -/
def WalkEnds (start : UInt16) (r : ℕ → Option Reply) (k : ℕ) : Prop :=
  nextOf (r k) = none ∨ Ends (ids r) k ∨ (ids r k ≠ 0 ∧ ids r k = asked (ids r) start k)

section
variable {r : ℕ → Option Reply} {sig : Signal} {visit : UInt16 → Event → Vars → Vars}
  {start next last : UInt16}

theorem ids_of_some {k : ℕ} {n : UInt16} (h : nextOf (r k) = some n) : ids r k = n := by
  rw [ids, h]
  rfl

theorem selEntry_answers (id : UInt16) (w : CmdWorld Vars ℕ) : ∃ e,
    selEntry (answers r) id w =
      .ok ((nextOf (r w.device)).map fun n => (n, e), w.asked (answers r) (getSelEntry id)) := by
  have hask : (sendrecv (answers r) (getSelEntry id) : Cmd Vars ℕ _) w =
      .ok (r w.device, w.asked (answers r) (getSelEntry id)) := ask_ok.mpr ⟨rfl, rfl⟩
  unfold nextOf selEntry
  rw [bind_run hask]
  rcases r w.device with _ | a
  · exact ⟨eventOf fun _ => 0, rfl⟩
  refine ⟨eventOf a.data, ?_⟩
  dsimp only
  rw [Option.bind_some]
  split_ifs <;> rfl

/-- One or two requests of a turn: one fails, or they give an id. -/
theorem entry_answers (id : UInt16) (w : CmdWorld Vars ℕ) :
    ∃ out w', entry (answers r) id w = .ok (out, w') ∧ w.log.length < w'.log.length ∧
      ((out = none ∧ ∃ k, w.device ≤ k ∧ nextOf (r k) = none) ∨
        ∃ e, out = some (value (ids r) w.device, e) ∧ w'.device = turn (ids r) w.device ∧
          ∀ k, w.device ≤ k → k < turn (ids r) w.device → nextOf (r k) ≠ none) := by
  obtain ⟨e1, h1⟩ := selEntry_answers (r := r) id w
  unfold entry
  rw [bind_run h1]
  rcases hn : nextOf (r w.device) with _ | n
  · exact ⟨none, _, rfl, by simp, .inl ⟨rfl, w.device, Nat.le_refl _, hn⟩⟩
  have hid := ids_of_some hn
  by_cases h0 : n = 0
  · obtain ⟨e2, h2⟩ := selEntry_answers (r := r) id (w.asked (answers r) (getSelEntry id))
    have hrun : (if n = 0 then selEntry (answers r) id else pure (some (n, e1)))
        (w.asked (answers r) (getSelEntry id)) =
          .ok ((nextOf (r (w.device + 1))).map fun n => (n, e2),
          (w.asked (answers r) (getSelEntry id)).asked (answers r) (getSelEntry id)) := by
      rw [if_pos h0]
      exact h2
    refine ⟨_, _, hrun, by simp, ?_⟩
    rcases hn2 : nextOf (r (w.device + 1)) with _ | n2
    · exact .inl ⟨rfl, w.device + 1, Nat.le_succ _, hn2⟩
    · refine .inr ⟨e2, ?_, ?_, fun k hk hlt => ?_⟩
      · rw [value, hid, if_pos h0, ids_of_some hn2]
        rfl
      · rw [turn, hid, if_pos h0]
        rfl
      · rw [turn, hid, if_pos h0] at hlt
        obtain rfl | rfl : k = w.device ∨ k = w.device + 1 := by omega
        · exact hn ▸ Option.some_ne_none n
        · exact hn2 ▸ Option.some_ne_none n2
  · refine ⟨some (n, e1), w.asked (answers r) (getSelEntry id), ?_, by simp,
      .inr ⟨e1, ?_, ?_, fun k hk hlt => ?_⟩⟩
    · change (if n = 0 then _ else pure (some (n, e1)) : Cmd Vars ℕ _) _ = _
      rw [if_neg h0]
      rfl
    · rw [value, hid, if_neg h0]
    · rw [turn, hid, if_neg h0]
      rfl
    · rw [turn, hid, if_neg h0] at hlt
      obtain rfl : k = w.device := by omega
      exact hn ▸ Option.some_ne_none n

variable (visit) in
/-- One turn of the walk: it returns because of an answer, or it goes on and no answer but the last
one of the turn, with ffff, ends it. -/
theorem walk_turn (w : CmdWorld Vars ℕ) (hnext : ¬ (next = 0xffff ∨ isStopped sig w = true))
    (hasked : asked (ids r) start w.device = next) (last : UInt16) :
    (∃ k, w.device ≤ k ∧ WalkEnds start r k ∧ ∃ out w', ∀ fuel,
      walk (answers r) sig visit (fuel + 1) next last w = .ok (some out, w')) ∨
    ∃ last' w', w'.device = turn (ids r) w.device ∧ w.log.length < w'.log.length ∧
      value (ids r) w.device ≠ 0 ∧
      (∀ k, w.device ≤ k → k < turn (ids r) w.device → WalkEnds start r k → value
        (ids r) w.device = 0xffff) ∧
      ∀ fuel, walk (answers r) sig visit (fuel + 1) next last w =
        walk (answers r) sig visit fuel (value (ids r) w.device) last' w' := by
  obtain ⟨out, w1, hrun, hlog, ⟨rfl, k, hk, hfail⟩ | ⟨e, rfl, hdev, hgood⟩⟩ :=
    entry_answers (r := r) next w
  · refine .inl ⟨k, hk, .inl hfail, (false, last), w1, fun fuel => ?_⟩
    rw [walk, bind_run (show (get : Cmd Vars ℕ _) w = .ok (w, w) from rfl), if_neg hnext,
      bind_run hrun]
    rfl
  have hwalk : ∀ fuel, walk (answers r) sig visit (fuel + 1) next last w =
      (if value (ids r) w.device = 0 then pure (some (true, last))
      else do
        modify fun w => { w with vars := visit next e w.vars }
        if value (ids r) w.device = next then return some (true, e.recordId)
        else walk (answers r) sig visit fuel (value (ids r) w.device) e.recordId :
          Cmd Vars ℕ _) w1 := by
    intro fuel
    rw [walk, bind_run (show (get : Cmd Vars ℕ _) w = .ok (w, w) from rfl), if_neg hnext,
      bind_run hrun]
  by_cases h0 : value (ids r) w.device = 0
  · refine .inl ⟨w.device, Nat.le_refl _, .inr (.inl (.inr (both_zero h0))), (true, last), w1,
      fun fuel => ?_⟩
    rw [hwalk, if_pos h0]
    rfl
  obtain ⟨w2, hw2⟩ : ∃ w2 : CmdWorld Vars ℕ, w2 = { w1 with vars := visit next e w1.vars } :=
    ⟨_, rfl⟩
  by_cases hself : value (ids r) w.device = next
  · refine .inl ⟨turn (ids r) w.device - 1, by have := lt_turn (s := ids r) (p := w.device); omega,
      .inr (.inr ?_), (true, e.recordId), w2, fun fuel => ?_⟩
    · have hlast : ids r (turn (ids r) w.device - 1) = value (ids r) w.device ∧
          asked (ids r) start (turn (ids r) w.device - 1) = next := by
        unfold turn value
        split_ifs with hz
        · exact ⟨rfl, by rw [show w.device + 2 - 1 = w.device + 1 from rfl, asked,
            if_pos hz, hasked]⟩
        · exact ⟨rfl, hasked⟩
      rw [hlast.1, hlast.2]
      exact ⟨h0, hself⟩
    · rw [hwalk, if_neg h0, bind_run (a := ⟨⟩) (modify_ok.mpr hw2.symm), if_pos hself]
      rfl
  · refine .inr ⟨e.recordId, w2, by rw [hw2]; exact hdev, by rw [hw2]; exact hlog, h0,
      fun k hk hlt he => ?_,
      fun fuel => ?_⟩
    · rcases he with he | he | ⟨hk0, he⟩
      · exact absurd he (hgood k hk hlt)
      · exact (ends_in_turn h0 hk hlt he).2
      · -- the id of the turn is not the one that was asked for
        exfalso
        apply hself
        unfold turn at hlt
        unfold value
        split_ifs at hlt ⊢ with hz
        · obtain rfl | rfl : k = w.device ∨ k = w.device + 1 := by omega
          · exact absurd hz hk0
          · rw [he, asked, if_pos hz, hasked]
        · obtain rfl : k = w.device := by omega
          rw [he, hasked]
    · rw [hwalk, if_neg h0, bind_run (a := ⟨⟩) (modify_ok.mpr hw2.symm), if_neg hself]

theorem walk_signal {n : ℕ} (hsig : sig = some n) : ∀ (m : ℕ) (w : CmdWorld Vars ℕ)
    (next last : UInt16),
    n ≤ w.log.length + m → asked (ids r) start w.device = next → ∃ fuel out w',
      walk (answers r) sig visit fuel next last w = .ok (some out, w') := by
  intro m
  induction m with
  | zero =>
    intro w next last hm _
    have hstop : next = 0xffff ∨ isStopped sig w = true := by
      refine .inr ?_
      rw [isStopped, hsig]
      exact decide_eq_true hm
    refine ⟨1, (true, last), w, ?_⟩
    rw [walk, bind_run (show (get : Cmd Vars ℕ _) w = .ok (w, w) from rfl), if_pos hstop]
    rfl
  | succ m ih =>
    intro w next last hm hasked
    by_cases hstop : next = 0xffff ∨ isStopped sig w = true
    · refine ⟨1, (true, last), w, ?_⟩
      rw [walk, bind_run (show (get : Cmd Vars ℕ _) w = .ok (w, w) from rfl), if_pos hstop]
      rfl
    rcases walk_turn (r := r) visit w hstop hasked last with
      ⟨k, -, -, out, w', h⟩ | ⟨last', w1, hdev, hlog, h0, -, h⟩
    · exact ⟨1, out, w', h 0⟩
    · have hasked' : asked (ids r) start w1.device = value (ids r) w.device := by
        rw [hdev]
        exact asked_turn h0
      obtain ⟨fuel, out, w', h'⟩ := ih w1 _ last' (by omega) hasked'
      exact ⟨fuel + 1, out, w', (h fuel).trans h'⟩

/-- The walk returns exactly if there is nothing to read, or a signal, or an answer ends it. -/
theorem walk_returns_iff (w : CmdWorld Vars ℕ) (hasked : asked (ids r) start w.device = next)
    (last : UInt16) :
    (∃ fuel out w', walk (answers r) sig visit fuel next last w = .ok (some out, w')) ↔
      next = 0xffff ∨ sig.isSome = true ∨ ∃ k, w.device ≤ k ∧ WalkEnds start r k := by
  rcases hsig : sig with _ | n
  · constructor
    · rintro ⟨fuel, out, w', h⟩
      induction fuel generalizing next last w with
      | zero => cases h
      | succ fuel ih =>
        by_cases hend : next = 0xffff
        · exact .inl hend
        have hgo : ¬ (next = 0xffff ∨ isStopped none w = true) :=
          fun h => h.elim hend Bool.false_ne_true
        refine .inr (.inr ?_)
        rcases walk_turn (r := r) visit w hgo hasked last with
          ⟨k, hk, he, -⟩ | ⟨last', w1, hdev, -, h0, -, hstep⟩
        · exact ⟨k, hk, he⟩
        · have hasked' : asked (ids r) start w1.device = value (ids r) w.device := by
            rw [hdev]
            exact asked_turn h0
          rcases ih w1 hasked' last' ((hstep fuel).symm.trans h) with hffff | hc | ⟨k, hk, he⟩
          · obtain ⟨k, hk, -, he⟩ := exists_end_of_value hffff
            exact ⟨k, hk, .inr (.inl he)⟩
          · cases hc
          · rw [hdev] at hk
            exact ⟨k, lt_turn.le.trans hk, he⟩
    · intro h
      by_cases hend : next = 0xffff
      · refine ⟨1, (true, last), w, ?_⟩
        rw [walk, bind_run (show (get : Cmd Vars ℕ _) w = .ok (w, w) from rfl), if_pos (.inl hend)]
        rfl
      obtain ⟨k, hk, he⟩ := (h.resolve_left hend).resolve_left Bool.false_ne_true
      obtain ⟨m, hm⟩ : ∃ m, m = k - w.device := ⟨_, rfl⟩
      clear h
      induction m using Nat.strong_induction_on generalizing next last w with
      | _ m ih =>
      have hgo : ¬ (next = 0xffff ∨ isStopped none w = true) :=
        fun h => h.elim hend Bool.false_ne_true
      rcases walk_turn (r := r) visit w hgo hasked last with
        ⟨-, -, -, out, w', h⟩ | ⟨last', w1, hdev, -, h0, hin, hstep⟩
      · exact ⟨1, out, w', h 0⟩
      by_cases hffff : value (ids r) w.device = 0xffff
      · refine ⟨2, (true, last'), w1, ?_⟩
        rw [hstep, walk, bind_run (show (get : Cmd Vars ℕ _) w1 = .ok (w1, w1) from rfl),
          if_pos (.inl hffff)]
        rfl
      have hbehind : turn (ids r) w.device ≤ k :=
        Nat.le_of_not_lt fun hlt => hffff (hin k hk hlt he)
      have hlt' := lt_turn (s := ids r) (p := w.device)
      have hasked' : asked (ids r) start w1.device = value (ids r) w.device := by
        rw [hdev]
        exact asked_turn h0
      obtain ⟨fuel, out, w', h⟩ := ih (k - w1.device) (by rw [hdev]; omega) w1 hasked' last' hffff
        (by rw [hdev]; exact hbehind) rfl
      exact ⟨fuel + 1, out, w', (hstep fuel).trans h⟩
  · refine iff_of_true ?_ (.inr (.inl rfl))
    exact walk_signal rfl n w next last (Nat.le_add_left ..) hasked

theorem lastId_returns_iff (v : Vars) (log : List Exchange) :
    Returns (lastId (answers r) sig) ⟨v, 0, log⟩ ↔ v.count = 0 ∨ sig.isSome = true ∨ ∃ k,
    WalkEnds 0 r k := by
  obtain ⟨w, hw⟩ : ∃ w : CmdWorld Vars ℕ, w = ⟨v, 0, log⟩ := ⟨_, rfl⟩
  have hget : (get : Cmd Vars ℕ (CmdWorld Vars ℕ)) w = .ok (w, w) := rfl
  have hv : w.vars = v := congrArg World.vars hw
  rw [← hw]
  by_cases h0 : v.count = 0
  · refine iff_of_true ⟨0, some 0, w, ?_⟩ (.inl h0)
    rw [lastId, bind_run hget, hv, if_pos h0]
    rfl
  have hrun : Returns (lastId (answers r) sig) w ↔
      ∃ fuel out w', walk (answers r) sig (fun _ _ v => v) fuel 0 0 w = .ok (some out, w') := by
    constructor
    · rintro ⟨fuel, a, w', h⟩
      rw [lastId, bind_run hget, hv, if_neg h0] at h
      obtain ⟨out, w1, h1, h⟩ := bind_ok.mp h
      cases out with
      | none => cases (pure_ok.mp h).1
      | some out => exact ⟨fuel, out, w1, h1⟩
    · rintro ⟨fuel, out, w', h⟩
      refine ⟨fuel, if out.1 then some out.2 else none, w', ?_⟩
      rw [lastId, bind_run hget, hv, if_neg h0]
      exact bind_ok.mpr ⟨_, _, h, rfl⟩
  have hdev : w.device = 0 := congrArg World.device hw
  have hasked : asked (ids r) 0 w.device = 0 := by rw [hdev]; rfl
  rw [hrun, walk_returns_iff w hasked 0, hdev, or_iff_right h0, or_iff_right (by decide)]
  simp only [Nat.zero_le, true_and]

theorem selRead_returns_iff (v : Vars) (log : List Exchange) :
    Returns (selRead (answers r) sig) ⟨v, 0, log⟩ ↔
      v.count = 0 ∨ v.lastid = 0xffff ∨ sig.isSome = true ∨ ∃ k, WalkEnds v.lastid r k := by
  obtain ⟨w, hw⟩ : ∃ w : CmdWorld Vars ℕ, w = ⟨v, 0, log⟩ := ⟨_, rfl⟩
  have hget : (get : Cmd Vars ℕ (CmdWorld Vars ℕ)) w = .ok (w, w) := rfl
  have hv : w.vars = v := congrArg World.vars hw
  rw [← hw]
  by_cases h0 : v.count = 0
  · refine iff_of_true ⟨0, false, w, ?_⟩ (.inl h0)
    rw [selRead, bind_run hget, hv, if_pos h0]
    rfl
  have hrun : Returns (selRead (answers r) sig) w ↔
      ∃ fuel out w', walk (answers r) sig logNew fuel v.lastid v.lastid w = .ok (some out, w') := by
    constructor
    · rintro ⟨fuel, a, w', h⟩
      rw [selRead, bind_run hget, hv, if_neg h0] at h
      obtain ⟨out, w1, h1, h⟩ := bind_ok.mp h
      cases out with
      | none => cases (pure_ok.mp h).1
      | some out => exact ⟨fuel, out, w1, h1⟩
    · rintro ⟨fuel, out, w', h⟩
      refine ⟨fuel, out.1, { w' with vars.lastid := out.2 }, ?_⟩
      rw [selRead, bind_run hget, hv, if_neg h0]
      exact bind_ok.mpr ⟨_, _, h, rfl⟩
  have hdev : w.device = 0 := congrArg World.device hw
  have hasked : asked (ids r) v.lastid w.device = v.lastid := by rw [hdev]; rfl
  rw [hrun, walk_returns_iff w hasked v.lastid, hdev, or_iff_right h0]
  simp only [Nat.zero_le, true_and]

end

/-! ### All three -/

/-- The three walks return exactly if, before 2 ^ 31 entries are listed, an answer ends them. -/
theorem walks_return_iff (r : ℕ → Option Reply) (strings : Strings) (save : Save) (sig : Signal)
    (out : Output) (v : Vars) (log : List Exchange) :
    (Returns (fun fuel => savelistEntries (answers r) strings save fuel 0) ⟨out, 0,
      log⟩ ↔ ListEnds r) ∧
    (Returns (lastId (answers r) sig) ⟨v, 0, log⟩ ↔
      v.count = 0 ∨ sig.isSome = true ∨ ∃ k, WalkEnds 0 r k) ∧
    (Returns (selRead (answers r) sig) ⟨v, 0, log⟩ ↔
      v.count = 0 ∨ v.lastid = 0xffff ∨ sig.isSome = true ∨ ∃ k, WalkEnds v.lastid r k) :=
  ⟨savelistEntries_returns_iff out log, lastId_returns_iff v log, selRead_returns_iff v log⟩

/-- An answer to Get SEL Entry with this next id. -/
def entryBefore (next : UInt16) : Option Reply := some (Reply.of (le16 next ++ List.replicate 16 0))

/-- A log whose second entry is followed by the first one again. -/
def twoEntries (k : ℕ) : Option Reply := entryBefore (if k % 2 = 0 then 2 else 1)

def twoEntriesInfo : ℕ → Option Reply
  | 0 => some (Reply.of [0x51, 2, 0, 0, 0, 0, 0, 0, 0, 0, 0, 0, 0, 0])
  | k + 1 => twoEntries k

theorem ids_twoEntries (k : ℕ) :
    k % 2 = 0 ∧ ids twoEntries k = 2 ∨ (k + 1) % 2 = 0 ∧ ids twoEntries k = 1 := by
  unfold ids twoEntries
  rcases Nat.mod_two_eq_zero_or_one k with hk | hk
  · exact .inl ⟨hk, by rw [if_pos hk]; rfl⟩
  · exact .inr ⟨by omega, by rw [if_neg (by omega)]; rfl⟩

theorem twoEntries_never (k : ℕ) : ¬ Ends (ids twoEntries) k := by
  rintro (h | ⟨h, -⟩) <;> rcases ids_twoEntries k with ⟨-, hk⟩ | ⟨-, hk⟩
    <;> rw [hk] at h <;> cases h

/-- The chain 0, 2, 1, 2, 1, … is walked forever, by all three. -/
theorem walks_forever :
    ¬ Returns (fun fuel => savelistEntries (answers twoEntriesInfo)
      (fun _ _ => ([], [])) .nothing fuel 0)
      ⟨{}, 0, []⟩ ∧
    ¬ Returns (lastId (answers twoEntries) none) ⟨{ count := 2 }, 0, []⟩ ∧
    ¬ Returns (selRead (answers twoEntries) none) ⟨{ count := 2 }, 0, []⟩ := by
  have hwalk : ¬ ∃ k, WalkEnds 0 twoEntries k := by
    rintro ⟨k, h | h | ⟨-, h⟩⟩
    · unfold twoEntries at h
      split_ifs at h <;> cases h
    · exact twoEntries_never k h
    · cases k with
      | zero => cases h
      | succ k =>
        rcases ids_twoEntries k with ⟨hk, hid⟩ | ⟨hk, hid⟩ <;>
          rcases ids_twoEntries (k + 1) with ⟨hk', hid'⟩ | ⟨hk', hid'⟩
        · omega
        · rw [asked, hid, hid'] at h
          cases h
        · rw [asked, hid, hid'] at h
          cases h
        · omega
  rw [savelistEntries_returns_iff, lastId_returns_iff, selRead_returns_iff]
  refine ⟨?_, ?_, ?_⟩
  · rintro (h | ⟨k, h, -⟩)
    · exact h ⟨_, rfl, rfl, rfl, by decide⟩
    · have hids : (fun j => ids twoEntriesInfo (1 + j)) = ids twoEntries := by
        funext j
        rw [Nat.add_comm]
        rfl
      rw [hids] at h
      exact twoEntries_never k h
  · rintro (h | h | h)
    · cases h
    · cases h
    · exact hwalk h
  · rintro (h | h | h | h)
    · cases h
    · cases h
    · cases h
    · exact hwalk h

end Ipmitool.Sel.Walks
