import Ipmitool.Fwum.Upload
import Mathlib.Data.List.Destutter

/-! # Setbacks of an upload

A block behind an accepted one that is given up sets `upload` back: the block before it is sent
again, under a new sequence number. As soon as it is accepted again, all retries are back, so the
loop may go on forever; and in sequence mode the target has got the block twice.

`upload_correct_iff`: an upload is correct if and only if it is set back only finitely often, and in
sequence mode not at all if it comes to its end. -/

namespace Ipmitool.Fwum.Setbacks

open Ipmitool.Lib.Machine Ipmitool.Lib.Dialogue Ipmitool.Core.Types Ipmitool.Core.Interface
open Ipmitool.Fwum.Buffers (imageLimit)
open Ipmitool.Fwum.Upload

variable {β : Type}

/-! ### What is claimed -/

/-- The contents of blocks in sequence mode. -/
def contents (cs : List Command) : List UInt8 := cs.flatMap fun c => c.data.drop 1

/-- Two requests have different sequence numbers. -/
def Differ (c c' : Command) : Prop := c.data.head? ≠ c'.data.head?

instance : DecidableRel Differ :=
  fun c c' => inferInstanceAs (Decidable (c.data.head? ≠ c'.data.head?))

/-- The target has got the image. -/
def Delivered (env : Env) (image : List UInt8) (cs : List Command) : Prop :=
  match env.downloadType with
  -- every byte was accepted at its own address
  | .address => ∀ i < image.length, ∃ b, Inside image b ∧ request env b ∈ cs ∧ b.address ≤ i ∧
      i < b.address + b.content.length
  -- the contents, once for every sequence number, are the image
  | .sequence => contents (cs.destutter Differ) = image

/-- An upload is correct: it returns, its blocks lie in the image and in a page, and if it returns
zero the target has got the image. -/
structure Correct (B : Bmc β) (env : Env) (image : List UInt8) (w : CmdWorld Vars β) : Prop where
  ends : ∃ fuel rc w', upload B env image fuel w = .ok (some rc, w')
  inside : ∀ fuel rc w', upload B env image fuel w = .ok (rc, w') → ∃ evs, w'.log = w.log ++ evs ∧
    ∀ x ∈ evs, ∃ b, x.1 = request env b ∧ Inside image b
  delivers : ∀ fuel w', upload B env image fuel w = .ok (some 0, w') →
    ∃ evs, w'.log = w.log ++ evs ∧
    Delivered env image (accepted evs)

/-! ### Runs of the loop -/

/-- A turn goes back. -/
def isSetback (p p' : Progress) : ℕ := if p'.address < p.address then 1 else 0

/-- `n` turns of the loop with `k` setbacks; none if −1 is returned. -/
inductive Turns (B : Bmc β) (env : Env) (image : List UInt8) :
    Progress → CmdWorld Vars β → ℕ → ℕ → Option Progress → CmdWorld Vars β → Prop
  | nil (p : Progress) (w : CmdWorld Vars β) : Turns B env image p w 0 0 (some p) w
  | last {p : Progress} {w w1 : CmdWorld Vars β} (isOpen : p.address < image.length)
      (ends : turn B env image p w = .ok (none, w1)) : Turns B env image p w 1 0 none w1
  | cons {p p1 : Progress} {w w1 w2 : CmdWorld Vars β} {n k : ℕ} {e : Option Progress}
      (isOpen : p.address < image.length) (goes : turn B env image p w = .ok (some p1, w1))
      (rest : Turns B env image p1 w1 n k e w2) :
      Turns B env image p w (n + 1) (k + isSetback p p1) e w2

/-- A run of an upload, from its start. -/
def Run (B : Bmc β) (env : Env) (image : List UInt8) (w : CmdWorld Vars β) (n k : ℕ)
    (e : Option Progress) (w' : CmdWorld Vars β) : Prop :=
  image.length ≤ imageLimit ∧ Turns B env image {} w n k e w'

/-- An upload is set back only finitely often. -/
def FewSetbacks (B : Bmc β) (env : Env) (image : List UInt8) (w : CmdWorld Vars β) : Prop :=
  ∃ m, ∀ n k e w', Run B env image w n k e w' → k ≤ m

/-- A run that comes to the end of the image, so that zero is returned. -/
def Finishes (B : Bmc β) (env : Env) (image : List UInt8) (w : CmdWorld Vars β) (k : ℕ) : Prop :=
  env.shown 100 100 = true ∧ image ≠ [] ∧ ∃ n p w', Run B env image w n k (some p) w' ∧
    image.length ≤ p.address

section
variable {B : Bmc β} {env : Env} {image : List UInt8} {p p' : Progress}
  {w w' : CmdWorld Vars β} {n k : ℕ}
  {e : Option Progress}

theorem uploadLoop_turns : ∀ {fuel : ℕ} {p : Progress} {w : CmdWorld Vars β} {o : Option ℤ},
    uploadLoop B env image fuel p w = .ok (o, w') → ∃ n k e, Turns B env image p w n k e w' ∧
      (o = none → n = fuel) ∧
      (o = some 0 → env.shown 100 100 = true ∧ ∃ p' ∈ e, image.length ≤ p'.address)
  | 0, p, w, o, h => by
    obtain ⟨rfl, rfl⟩ := pure_ok.mp h
    exact ⟨0, 0, some p, .nil p w, fun _ => rfl, nofun⟩
  | fuel + 1, p, w, o, h => by
    rw [uploadLoop] at h
    by_cases hopen : image.length ≤ p.address
    · rw [if_pos hopen] at h
      obtain ⟨rfl, rfl⟩ := pure_ok.mp h
      refine ⟨0, 0, some p, .nil p w, nofun, fun hzero => ⟨?_, p, rfl, hopen⟩⟩
      by_contra hshown
      rw [if_neg hshown] at hzero
      exact absurd hzero (by decide)
    rw [if_neg hopen] at h
    obtain ⟨next, w1, hturn, h⟩ := bind_ok.mp h
    rcases next with _ | p1
    · obtain ⟨rfl, rfl⟩ := pure_ok.mp h
      exact ⟨1, 0, none, .last (by omega) hturn, nofun, nofun⟩
    · obtain ⟨n, k, e, hrun, hnone, hzero⟩ := uploadLoop_turns h
      exact ⟨n + 1, _, e, .cons (by omega) hturn hrun, fun ho => by rw [hnone ho], hzero⟩

theorem Turns.le_fuel (h : Turns B env image p w n k e w') :
    ∀ {fuel : ℕ} {rc : ℤ} {w1 : CmdWorld Vars β},
    uploadLoop B env image fuel p w = .ok (some rc, w1) → n ≤ fuel := by
  induction h with
  | nil p w => exact fun _ => Nat.zero_le _
  | last _ _ =>
    rintro (_ | fuel) rc w1 hloop
    · obtain ⟨hnone, -⟩ := pure_ok.mp hloop
      cases hnone
    · omega
  | cons isOpen goes _ ih =>
    rintro (_ | fuel) rc w1 hloop
    · obtain ⟨hnone, -⟩ := pure_ok.mp hloop
      cases hnone
    · rw [uploadLoop, if_neg (by omega)] at hloop
      obtain ⟨next, w2, hturn, hloop⟩ := bind_ok.mp hloop
      obtain ⟨rfl, rfl⟩ := Prod.mk.inj (Except.ok.inj (goes.symm.trans hturn))
      exact Nat.succ_le_succ (ih hloop)

theorem Turns.setbacks_le (h : Turns B env image p w n k e w') : k ≤ n := by
  induction h with
  | nil p w => exact Nat.le_refl _
  | last _ _ => exact Nat.zero_le _
  | cons _ _ _ ih =>
    unfold isSetback
    split_ifs <;> omega

theorem never_uploadLoop (err : Fault) (fuel : ℕ) :
    ∀ p, Never err (uploadLoop B env image fuel p) := by
  have hattempts : ∀ sequence address buffer attempts s,
      Never err (saveAttempts B env sequence address buffer attempts s) := by
    intro sequence address buffer attempts
    induction attempts with
    | zero => exact fun s => .pure _
    | succ attempts ih =>
      refine fun s => .bind never_ask fun rsp => ?_
      rcases verdict env sequence s rsp with _ | s' | length
      · exact .pure _
      · exact ih s'
      · exact .pure _
  have hturn : ∀ p, Never err (turn B env image p) := fun p =>
    .bind .get fun w => .ite (fun _ => .pure _) fun _ =>
      .bind (.ite (fun _ => .pure _) fun _ => hattempts _ _ _ _ _) fun _ =>
        .bind (.modify _) fun _ => .pure _
  induction fuel with
  | zero => exact fun p => .pure _
  | succ fuel ih =>
    refine fun p => .ite (fun _ => .pure _) fun _ => .bind (hturn p) fun next => ?_
    rcases next with _ | p1
    · exact .pure _
    · exact ih p1

/-! ### The end -/

/-- What holds of the progress at every moment. -/
structure Sound (image : List UInt8) (p : Progress) : Prop where
  inside : p.address ≤ image.length
  back : p.lastAddress ≤ p.address
  retry : p.retry ≤ maxRetry

theorem sound_start : Sound image {} := ⟨Nat.zero_le _, Nat.le_refl _, Nat.le_refl _⟩

theorem Sound.setBack (h : Sound image p) : Sound image (setBack p) :=
  ⟨h.back.trans h.inside, Nat.le_refl _, (Nat.sub_le _ _).trans h.retry⟩

theorem Sound.passed {b : Block} (hb : Inside image b) (hp : b.address = p.address) :
    Sound image (passed p b.content.length) :=
  ⟨by rw [Upload.passed, ← hp]; exact hb.le, Nat.le_add_right _ _, Nat.le_refl _⟩

theorem Sound.turn (h : Sound image p) (hopen : p.address < image.length)
    (hturn : turn B env image p w = .ok (some p', w')) : Sound image p' := by
  obtain ⟨evs, -, hsaid⟩ := turn_ok hopen hturn
  rcases hsaid.cases with ⟨-, hnext⟩ | ⟨b, hb, hp, -, -, hnext⟩
  · rw [(hnext p' rfl).2]
    exact h.setBack
  · rw [hnext p' rfl]
    exact .passed hb hp

/-- What is left: every byte counts for all retries, and one more. -/
def potential (image : List UInt8) (p : Progress) : ℕ :=
  (maxRetry + 1) * (image.length - p.address) + p.retry

theorem turn_spends (h : Sound image p) (hopen : p.address < image.length)
    (hturn : turn B env image p w = .ok (some p', w')) :
    potential image p' + 1 ≤ potential image p + (potential image {} + 1) * isSetback p p' := by
  obtain ⟨evs, -, hsaid⟩ := turn_ok hopen hturn
  have hretry := h.retry
  unfold potential isSetback
  rcases hsaid.cases with ⟨-, hnext⟩ | ⟨b, hb, hp, -, -, hnext⟩
  · obtain ⟨hpos, rfl⟩ := hnext p' rfl
    unfold Upload.setBack
    dsimp only
    split_ifs with hback
    · rw [Nat.sub_zero]
      have hless := Nat.mul_le_mul_left (maxRetry + 1) (Nat.sub_le image.length p.lastAddress)
      omega
    · have hsame : p.lastAddress = p.address := Nat.le_antisymm h.back (Nat.not_lt.mp hback)
      rw [hsame]
      omega
  · rw [hnext p' rfl]
    have hlen := List.length_pos_iff.mpr hb.nonempty
    have hle := hb.le
    rw [hp] at hle
    unfold Upload.passed maxRetry
    unfold maxRetry at hretry
    dsimp only
    split_ifs with hback <;> omega

/-- What a run does: all but its last turn use up something, or are setbacks. -/
theorem Turns.length_le (h : Turns B env image p w n k e w') : Sound image p →
    n ≤ potential image p + (potential image {} + 1) * k + 1 := by
  induction h with
  | nil p w => exact fun _ => Nat.zero_le _
  | last _ _ =>
    intro _
    omega
  | cons isOpen goes _ ih =>
    intro hsound
    have hspent := turn_spends hsound isOpen goes
    have hrest := ih (hsound.turn isOpen goes)
    rw [Nat.mul_add]
    omega

/-- An upload that is set back only finitely often returns. -/
theorem returns_of_few (h : FewSetbacks B env image w) :
    ∃ fuel rc w', upload B env image fuel w = .ok (some rc, w') := by
  by_cases hbad : image = [] ∨ imageLimit < image.length
  · exact ⟨0, -1, w, by rw [upload, if_pos hbad]; rfl⟩
  obtain ⟨m, hm⟩ := h
  rw [not_or, Nat.not_lt] at hbad
  have hfuel : ∃ o w', uploadLoop B env image (potential image {} + (potential image {} + 1) *
      m + 2) {} w =
      .ok (o, w') := returns_of_never (fun err => never_uploadLoop err _ _) w
  obtain ⟨o, w', ho⟩ := hfuel
  obtain ⟨n, k, e, hrun, hnone, -⟩ := uploadLoop_turns ho
  rcases o with _ | rc
  · have hn := hrun.length_le sound_start
    have hk := Nat.mul_le_mul_left (potential image {} + 1) (hm n k e w' ⟨hbad.2, hrun⟩)
    have heq := hnone rfl
    omega
  · exact ⟨_, rc, w', by rw [upload, if_neg (by rw [not_or, Nat.not_lt]; exact hbad)]; exact ho⟩

/-- An upload that returns is set back only finitely often. -/
theorem few_of_returns {fuel : ℕ} {rc : ℤ} (h : upload B env image fuel w = .ok (some rc, w')) :
    FewSetbacks B env image w := by
  unfold upload at h
  by_cases hbad : image = [] ∨ imageLimit < image.length
  · refine ⟨0, fun n k e w1 hrun => ?_⟩
    obtain ⟨hlimit, hrun⟩ := hrun
    obtain rfl := hbad.resolve_right (by omega)
    have hclosed : ¬ (({} : Progress).address < ([] : List UInt8).length) := by simp
    cases hrun with
    | nil _ _ => exact Nat.le_refl _
    | last isOpen _ => exact absurd isOpen hclosed
    | cons isOpen _ _ => exact absurd isOpen hclosed
  · rw [if_neg hbad] at h
    exact ⟨fuel, fun n k e w1 hrun => hrun.2.setbacks_le.trans (hrun.2.le_fuel h)⟩

/-! ### What the target has got -/

theorem Turns.inside (h : Turns B env image p w n k e w') : ∃ evs, w'.log = w.log ++ evs ∧
    ∀ x ∈ evs, ∃ b, x.1 = request env b ∧ Inside image b := by
  induction h with
  | nil p w => exact ⟨[], by simp, by simp⟩
  | last isOpen ends =>
    obtain ⟨evs, hlog, hsaid⟩ := turn_ok isOpen ends
    exact ⟨evs, hlog, hsaid.inside⟩
  | cons isOpen goes _ ih =>
    obtain ⟨evs, hlog, hsaid⟩ := turn_ok isOpen goes
    obtain ⟨evs', hlog', hinside⟩ := ih
    refine ⟨evs ++ evs', by rw [hlog', hlog, List.append_assoc], fun x hx => ?_⟩
    exact (List.mem_append.mp hx).elim (hsaid.inside x) (hinside x)

/-- These bytes were accepted at their own addresses. -/
def Covered (env : Env) (image : List UInt8) (bound : ℕ) (cs : List Command) : Prop :=
  ∀ i < bound, ∃ b, Inside image b ∧ request env b ∈ cs ∧ b.address ≤ i ∧
    i < b.address + b.content.length

/-- All that stands before the progress of a run is covered, in whatever order the blocks came. -/
theorem Turns.covered (h : Turns B env image p w n k e w') : ∀ {cs : List Command}, Sound image p →
    Covered env image p.address cs →
    ∃ evs, w'.log = w.log ++ evs ∧ ∀ p' ∈ e, Covered env image p'.address (cs ++ accepted evs) := by
  induction h with
  | nil p w =>
    intro cs _ hcs
    refine ⟨[], by simp, fun p' hp' => ?_⟩
    rw [← Option.mem_some_iff.mp hp']
    simpa [accepted] using hcs
  | last isOpen ends =>
    intro cs _ _
    obtain ⟨evs, hlog, -⟩ := turn_ok isOpen ends
    exact ⟨evs, hlog, fun _ hp => absurd hp (Option.not_mem_none _)⟩
  | @cons p p1 w w1 w2 n k e isOpen goes _ ih =>
    intro cs hsound hcs
    obtain ⟨evs, hlog, hsaid⟩ := turn_ok isOpen goes
    have hstep : Covered env image p1.address (cs ++ accepted evs) := by
      intro i hi
      rcases hsaid.cases with ⟨hnone, hnext⟩ | ⟨b, hb, hp, -, hacc, hnext⟩
      · rw [(hnext p1 rfl).2] at hi
        rw [hnone, List.append_nil]
        exact hcs i (Nat.lt_of_lt_of_le hi hsound.back)
      · rw [hnext p1 rfl] at hi
        rcases Nat.lt_or_ge i p.address with hless | hge
        · obtain ⟨b', hb', hmem, hrange⟩ := hcs i hless
          exact ⟨b', hb', List.mem_append_left _ hmem, hrange⟩
        · refine ⟨b, hb, ?_, by rw [hp]; exact hge, by rw [hp]; exact hi⟩
          rw [hacc]
          exact List.mem_append_right _ List.mem_cons_self
    obtain ⟨evs', hlog', hrest⟩ := ih (hsound.turn isOpen goes) hstep
    refine ⟨evs ++ evs', by rw [hlog', hlog, List.append_assoc], fun p' hp' => ?_⟩
    rw [accepted_append, ← List.append_assoc]
    exact hrest p' hp'

/-- In sequence mode: two blocks that are accepted in a row have different sequence numbers; without
a setback the contents are what stands before the progress, and with one they are longer. -/
structure InSequence (image : List UInt8) (p : Progress) (k : ℕ) (cs : List Command) : Prop where
  sound : Sound image p
  chain : cs.IsChain Differ
  last : ∀ c ∈ cs.getLast?, ∃ s, c.data.head? = some s ∧
    p.sequence = s + UInt8.ofNat (maxRetry + 1 - p.retry)
  straight : k = 0 → contents cs = image.take p.address
  longer : 0 < k → p.address < (contents cs).length

theorem inSequence_start : InSequence image {} 0 [] :=
  ⟨sound_start, .nil, nofun, fun _ => rfl, nofun⟩

theorem contents_append (a b : List Command) : contents (a ++ b) = contents a ++ contents b := by
  simp [contents]

theorem InSequence.length_le {cs : List Command} (h : InSequence image p k cs) :
    p.address ≤ (contents cs).length := by
  rcases Nat.eq_zero_or_pos k with hk | hk
  · rw [h.straight hk, List.length_take, Nat.min_eq_left h.sound.inside]
  · exact Nat.le_of_lt (h.longer hk)

theorem ne_add_ofNat {s : UInt8} {d : ℕ} (hpos : 0 < d) (hlt : d < 256) :
    s ≠ s + UInt8.ofNat d := by
  intro h
  have hnat := congrArg UInt8.toNat h
  rw [UInt8.toNat_add, UInt8.toNat_ofNat_of_lt' hlt] at hnat
  have hless := s.toNat_lt
  omega

theorem InSequence.setBack {cs : List Command} (h : InSequence image p k cs) (hpos : 0 < p.retry) :
    InSequence image (setBack p) (k + isSetback p (setBack p)) cs := by
  have hretry := h.sound.retry
  refine ⟨h.sound.setBack, h.chain, fun c hc => ?_, fun hk => ?_, fun hk => ?_⟩
  · obtain ⟨s, hs, hseq⟩ := h.last c hc
    refine ⟨s, hs, ?_⟩
    have hsucc : maxRetry + 1 - (p.retry - 1) = maxRetry + 1 - p.retry + 1 := by omega
    change p.sequence + 1 = s + UInt8.ofNat (maxRetry + 1 - (p.retry - 1))
    rw [hsucc, UInt8.ofNat_add, hseq, UInt8.add_assoc]
    rfl
  · have hsame : p.lastAddress = p.address := by
      have hback := h.sound.back
      by_contra hne
      have hless : (Upload.setBack p).address < p.address := by
        change p.lastAddress < p.address
        omega
      rw [isSetback, if_pos hless] at hk
      omega
    rw [h.straight (by omega)]
    exact congrArg image.take hsame.symm
  · have hle := h.length_le
    have hback := h.sound.back
    change p.lastAddress < (contents cs).length
    rcases Nat.eq_zero_or_pos k with hk0 | hk0
    · unfold isSetback at hk
      split_ifs at hk with hless
      · exact Nat.lt_of_lt_of_le hless hle
      · omega
    · exact Nat.lt_of_le_of_lt hback (h.longer hk0)

theorem InSequence.passed {cs : List Command} {b : Block} (h : InSequence image p k cs)
    (henv : env.downloadType = .sequence) (hb : Inside image b) (hp : b.address = p.address)
    (hs : b.sequence = p.sequence) :
    InSequence image (passed p b.content.length) (k + isSetback p (passed p b.content.length))
      (cs ++ [request env b]) := by
  have hdata : (request env b).data = b.sequence :: b.content := by
    simp [request, blockHeader, henv]
  have hcontents : contents (cs ++ [request env b]) = contents cs ++ b.content := by
    rw [contents_append]
    simp [contents, hdata]
  have hk : k + isSetback p (Upload.passed p b.content.length) = k := by
    rw [isSetback, if_neg (by rw [Upload.passed]; dsimp only; omega), Nat.add_zero]
  rw [hk]
  refine ⟨.passed hb hp, h.chain.append (.singleton _) fun c hc c' hc' => ?_, fun c hc => ?_,
    fun hk => ?_,
    fun hk => ?_⟩
  · obtain ⟨s, hhead, hseq⟩ := h.last c hc
    obtain rfl : request env b = c' := by simpa using hc'
    rw [Differ, hhead, hdata, List.head?_cons, hs, hseq, ne_eq, Option.some.injEq]
    refine ne_add_ofNat ?_ ?_ <;>
    · have hretry := h.sound.retry
      unfold maxRetry at hretry ⊢
      omega
  · obtain rfl : request env b = c := by simpa using hc
    refine ⟨b.sequence, by rw [hdata]; rfl, ?_⟩
    rw [hs]
    rfl
  · rw [hcontents, h.straight hk]
    obtain ⟨t, ht⟩ := hb.image
    change image.take p.address ++ b.content = image.take (p.address + b.content.length)
    rw [hp] at ht
    rw [List.take_add, ← ht, List.take_left]
  · rw [hcontents, List.length_append]
    exact Nat.add_lt_add_right (h.longer hk) _

theorem Turns.inSequence (henv : env.downloadType = .sequence)
    (h : Turns B env image p w n k e w') :
    ∀ {done : ℕ} {cs : List Command}, InSequence image p done cs → ∃ evs, w'.log = w.log ++ evs ∧
      ∀ p' ∈ e, InSequence image p' (done + k) (cs ++ accepted evs) := by
  induction h with
  | nil p w =>
    intro done cs hcs
    refine ⟨[], by simp, fun p' hp' => ?_⟩
    rw [← Option.mem_some_iff.mp hp']
    simpa [accepted] using hcs
  | last isOpen ends =>
    intro done cs _
    obtain ⟨evs, hlog, -⟩ := turn_ok isOpen ends
    exact ⟨evs, hlog, fun _ hp => absurd hp (Option.not_mem_none _)⟩
  | @cons p p1 w w1 w2 n k e isOpen goes _ ih =>
    intro done cs hcs
    obtain ⟨evs, hlog, hsaid⟩ := turn_ok isOpen goes
    have hstep : InSequence image p1 (done + isSetback p p1) (cs ++ accepted evs) := by
      rcases hsaid.cases with ⟨hnone, hnext⟩ | ⟨b, hb, hp, hs, hacc, hnext⟩
      · obtain ⟨hpos, rfl⟩ := hnext p1 rfl
        rw [hnone, List.append_nil]
        exact hcs.setBack hpos
      · rw [hnext p1 rfl, hacc]
        exact hcs.passed henv hb hp hs
    obtain ⟨evs', hlog', hrest⟩ := ih hstep
    refine ⟨evs ++ evs', by rw [hlog', hlog, List.append_assoc], fun p' hp' => ?_⟩
    have hend := hrest p' hp'
    rwa [List.append_assoc, ← accepted_append, Nat.add_assoc, Nat.add_comm (isSetback p p1)] at hend

/-! ### The upload -/

theorem Turns.returns (h : Turns B env image p w n k e w') : ∀ p' ∈ e, image.length ≤ p'.address →
    uploadLoop B env image (n + 1) p w = .ok (some (if env.shown 100 100 then 0 else -1), w') := by
  induction h with
  | nil p w =>
    intro p' hp' hend
    obtain rfl := Option.mem_some_iff.mp hp'
    rw [uploadLoop, if_pos hend]
    rfl
  | last _ _ => exact nofun
  | cons isOpen goes _ ih =>
    intro p' hp' hend
    rw [uploadLoop, if_neg (by omega), bind_run goes]
    exact ih p' hp' hend

/-- In sequence mode a target that has got the image was never sent a block twice. -/
theorem no_setback (henv : env.downloadType = .sequence) (hcorrect : Correct B env image w)
    (hfin : Finishes B env image w k) : k = 0 := by
  obtain ⟨hshown, hne, n, p, w', ⟨hlimit, hrun⟩, hend⟩ := hfin
  have hupload : upload B env image (n + 1) w = .ok (some 0, w') := by
    rw [upload, if_neg (by rw [not_or, Nat.not_lt]; exact ⟨hne, hlimit⟩), hrun.returns p rfl hend,
      if_pos hshown]
  obtain ⟨evs, hlog, hdelivered⟩ := hcorrect.delivers _ _ hupload
  obtain ⟨evs', hlog', hinv⟩ := hrun.inSequence henv inSequence_start
  obtain rfl := List.append_cancel_left (hlog.symm.trans hlog')
  have hinv := hinv p rfl
  rw [List.nil_append, Nat.zero_add] at hinv
  by_contra hk
  have hlonger := hinv.longer (Nat.pos_of_ne_zero hk)
  rw [Delivered, henv] at hdelivered
  dsimp only at hdelivered
  rw [List.destutter_of_isChain _ _ hinv.chain] at hdelivered
  rw [hdelivered] at hlonger
  omega

/-- An upload that returns zero without a setback in sequence mode has delivered the image. -/
theorem delivered_of_run (hend : image.length ≤ p.address)
    (hrun : Turns B env image {} w n k (some p) w')
    (hstraight : env.downloadType = .sequence → k = 0) :
    ∃ evs, w'.log = w.log ++ evs ∧ Delivered env image (accepted evs) := by
  rcases hmode : env.downloadType with _ | _
  · have hnone : Covered env image ({} : Progress).address [] :=
      fun i hi => absurd hi (Nat.not_lt_zero i)
    obtain ⟨evs, hlog, hcovered⟩ := hrun.covered sound_start hnone
    refine ⟨evs, hlog, ?_⟩
    rw [Delivered, hmode]
    exact fun i hi => hcovered p rfl i (Nat.lt_of_lt_of_le hi hend)
  · obtain ⟨evs, hlog, hinv⟩ := hrun.inSequence hmode inSequence_start
    have hinv := hinv p rfl
    rw [List.nil_append, Nat.zero_add] at hinv
    refine ⟨evs, hlog, ?_⟩
    rw [Delivered, hmode]
    dsimp only
    rw [List.destutter_of_isChain _ _ hinv.chain, hinv.straight (hstraight hmode),
      List.take_of_length_le hend]

theorem upload_inside {fuel : ℕ} {rc : Option ℤ} (h : upload B env image fuel w = .ok (rc, w')) :
    ∃ evs, w'.log = w.log ++ evs ∧ ∀ x ∈ evs, ∃ b, x.1 = request env b ∧ Inside image b := by
  unfold upload at h
  split_ifs at h with hbad
  · obtain ⟨-, rfl⟩ := pure_ok.mp h
    exact ⟨[], by simp, by simp⟩
  · obtain ⟨n, k, e, hrun, -⟩ := uploadLoop_turns h
    exact hrun.inside

/-- An upload is correct if and only if it is set back only finitely often, and in sequence mode not
at all if it comes to the end of the image. -/
theorem upload_correct_iff : Correct B env image w ↔ FewSetbacks B env image w ∧
    (env.downloadType = .sequence → ∀ k, Finishes B env image w k → k = 0) := by
  constructor
  · intro h
    obtain ⟨fuel, rc, w', hreturns⟩ := h.ends
    exact ⟨few_of_returns hreturns, fun henv k hfin => no_setback henv h hfin⟩
  · rintro ⟨hfew, hstraight⟩
    refine ⟨returns_of_few hfew, fun fuel rc w' h => upload_inside h, fun fuel w' h => ?_⟩
    unfold upload at h
    by_cases hbad : image = [] ∨ imageLimit < image.length
    · rw [if_pos hbad] at h
      obtain ⟨hrc, -⟩ := pure_ok.mp h
      exact absurd (Option.some.inj hrc) (by decide)
    rw [if_neg hbad] at h
    rw [not_or, Nat.not_lt] at hbad
    obtain ⟨n, k, e, hrun, -, hzero⟩ := uploadLoop_turns h
    obtain ⟨hshown, p, hp, hend⟩ := hzero rfl
    obtain rfl : e = some p := hp
    exact delivered_of_run hend hrun fun henv =>
      hstraight henv k ⟨hshown, hbad.1, n, p, w', ⟨hbad.2, hrun⟩, hend⟩

end

/-! ### A target that takes full blocks only -/

/-- A target that takes blocks of 28 bytes and refuses all others. -/
def fullOnly : Bmc Unit := fun _ c => (some { ccode := if c.data.length = 29 then 0 else 0xff }, ())

/-- Sequence mode with four bytes of overhead. -/
def inSequence : Env := ⟨.sequence, 4, true, fun _ _ => true⟩

/-- An image with one byte more than a block. -/
def oneMore : List UInt8 := List.replicate 29 0xa5

/-- The world with a buffer for blocks of 28 bytes. -/
def room (log : List Exchange) : CmdWorld Vars Unit := { vars := ⟨32⟩, device := (), log }

theorem turn_first (sequence : UInt8) (retry : ℕ) (log : List Exchange) : ∃ log',
    turn fullOnly inSequence oneMore ⟨0, 0, sequence, retry⟩ (room log) =
      .ok (some ⟨28, 0, sequence + 1, 6⟩, room log') := ⟨_, rfl⟩

theorem turn_second (sequence : UInt8) (log : List Exchange) : ∃ log',
    turn fullOnly inSequence oneMore ⟨28, 0, sequence, 6⟩ (room log) =
      .ok (some ⟨0, 0, sequence + 1, 5⟩, room log') := ⟨_, rfl⟩

theorem turns_fullOnly : ∀ (k : ℕ) (sequence : UInt8) (retry : ℕ) (log : List Exchange), ∃ p log',
    Turns fullOnly inSequence oneMore ⟨0, 0, sequence, retry⟩ (room log)
      (k + k) k (some p) (room log')
  | 0, sequence, retry, log => ⟨_, log, .nil _ _⟩
  | k + 1, sequence, retry, log => by
    obtain ⟨log1, hfirst⟩ := turn_first sequence retry log
    obtain ⟨log2, hsecond⟩ := turn_second (sequence + 1) log1
    obtain ⟨p, log3, hrest⟩ := turns_fullOnly k (sequence + 1 + 1) 5 log2
    refine ⟨p, log3, ?_⟩
    have hopen : ∀ address, address ≤ 28 → address < oneMore.length := by
      intro address haddress
      rw [oneMore, List.length_replicate]
      omega
    have hrun := Turns.cons (hopen 0 (by omega)) hfirst (.cons (hopen 28 (by omega)) hsecond hrest)
    rwa [show k + k + 1 + 1 = k + 1 + (k + 1) by omega] at hrun

/-- The upload to this target never returns. -/
theorem not_correct_fullOnly : ¬ Correct fullOnly inSequence oneMore (room []) := by
  intro h
  obtain ⟨fuel, rc, w', hreturns⟩ := h.ends
  obtain ⟨m, hm⟩ := few_of_returns hreturns
  obtain ⟨p, log', hrun⟩ := turns_fullOnly (m + 1) 0 6 []
  have hle := hm _ _ _ _ ⟨by decide, hrun⟩
  omega

end Ipmitool.Fwum.Setbacks
