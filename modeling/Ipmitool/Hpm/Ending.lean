import Mathlib.Algebra.GroupWithZero.Nat
import Ipmitool.Hpm.Delivery

/-! # The end of an upload

What the loop of `uploadFirmware` has left is in three places: the bytes up to the transfer limit,
the size of a block, and the retries. Every turn uses up some of it (`potential`), with one
exception: a response with the completion code zero resets the retries, and if its length is wrong,
the block is retried nevertheless (`misfit`). `ends_iff`: an upload ends if and only if there are
only finitely many such responses. -/

namespace Ipmitool.Hpm.Ending

open Ipmitool.Lib Ipmitool.Lib.Machine Ipmitool.Lib.Dialogue Ipmitool.Core.Types
open Ipmitool.Core.Interface Ipmitool.Hpm.Agent Ipmitool.Hpm.Image Ipmitool.Hpm.Upgrade
open Ipmitool.Hpm.Honesty Ipmitool.Hpm.Delivery

/-- A block is answered with the completion code zero, in a response of the wrong length. -/
def misfit (x : Exchange) : Bool := x.1.cmd = 0x32 ∧ x.2.any fun r => r.ccode = 0 ∧ ¬ wellFormed r

/-- How many responses to these blocks were misfits. -/
def misfits (ss : List Sent) : ℕ := (ss.map fun s => s.said.countP misfit).sum

variable {β : Type} (B : Bmc β) (env : Env) (payload : List UInt8) (t : Transfer)
  (w : CmdWorld Vars β)

/-- The loop sends only finitely many blocks. -/
def Ends : Prop := ∃ n, ∀ ss e w', Sends B env payload t w ss e w' → ss.length ≤ n

/-- There are only finitely many misfits. -/
def FewMisfits : Prop := ∃ n, ∀ ss e w', Sends B env payload t w ss e w' → misfits ss ≤ n

variable {B} {env} {payload} {t} {w} {w' : CmdWorld Vars β} {t' : Transfer} {c : Command}

/-! ### The retries -/

theorem response_errors (o : Option Reply) (v : Vars) :
    (response env c o v).2.errorCount = v.errorCount := by
  rcases o with _ | r
  · simp only [response, substitute]
    split_ifs <;> rfl
  · rfl

theorem noted_errors (o : Option Reply) (v : Vars) :
    (noted c o v).errorCount = if o.map Reply.ccode = some 0 then 0 else v.errorCount := by
  unfold noted
  dsimp only
  split_ifs <;> rfl

theorem ccode_of_unready {o : Option Reply} (h : unready o = true) :
    o.map Reply.ccode ≠ some 0 := by
  rcases o with _ | r
  · simp
  · simp only [unready, decide_eq_true_eq] at h
    rw [Option.map_some, ne_eq, Option.some.injEq]
    rcases h with h | h | h | h <;> rw [h] <;> decide

/-- A turn of `sendCmd` resets the errors if its response is the completion code zero. -/
theorem attempt_errors {a : Bool × Option Reply} (h : attempt B env c w = .ok (a, w')) :
    w'.vars.errorCount = if a.2.map Reply.ccode = some 0 then 0 else w.vars.errorCount := by
  obtain ⟨o, -, rfl, hvars⟩ := attempt_ok h
  rw [hvars]
  dsimp only
  split_ifs with hu hc hc
  · exact absurd hc (ccode_of_unready hu)
  · exact response_errors o w.vars
  · rw [noted_errors, if_pos hc]
  · rw [noted_errors, if_neg hc, response_errors]

theorem nextPatience_errors {n : ℕ} (h : nextPatience w = .ok (n, w')) :
    w'.vars.errorCount = w.vars.errorCount := by
  obtain ⟨s, t, ht, h⟩ := bind_ok.mp h
  obtain ⟨rfl, rfl⟩ := get_ok.mp ht
  obtain ⟨u, t', ht', h⟩ := bind_ok.mp h
  obtain ⟨-, rfl⟩ := pure_ok.mp h
  rw [← set_ok.mp ht']

theorem sendCmd_errors {o : Option Reply} (h : sendCmd B env c w = .ok (o, w')) :
    w'.vars.errorCount = if o.map Reply.ccode = some 0 then 0 else w.vars.errorCount := by
  obtain ⟨n, s, hs, h⟩ := bind_ok.mp h
  obtain ⟨b, w1, hsteps, hlast⟩ := goOn_ok h
  have hsame : w1.vars.errorCount = s.vars.errorCount := by
    clear hlast
    induction hsteps with
    | refl => rfl
    | tail _ hstep ih =>
      obtain ⟨a, ha⟩ := hstep
      obtain ⟨o', -, heq, -⟩ := attempt_ok ha
      obtain ⟨hu, hres⟩ := Prod.mk.inj heq
      rw [attempt_errors ha, if_neg (by rw [hres]; exact ccode_of_unready hu.symm), ih]
  rw [attempt_errors hlast, hsame, nextPatience_errors hs]

theorem retryable_ok {code : UInt8} {b : Bool} (h : retryable code w = .ok (b, w')) :
    (b = true → w.vars.errorCount < 3 ∧ w'.vars.errorCount = w.vars.errorCount + 1) ∧
      (code = 0xc7 ∨ code = 0xc8 → b = false ∧ w' = w) := by
  unfold retryable at h
  split_ifs at h with hc
  · obtain ⟨rfl, rfl⟩ := pure_ok.mp h
    exact ⟨fun h => absurd h (by decide), fun _ => ⟨rfl, rfl⟩⟩
  · obtain ⟨s, t, ht, h⟩ := bind_ok.mp h
    obtain ⟨rfl, rfl⟩ := get_ok.mp ht
    obtain ⟨u, t', ht', h⟩ := bind_ok.mp h
    obtain ⟨rfl, rfl⟩ := pure_ok.mp h
    rw [← set_ok.mp ht']
    refine ⟨fun h => ⟨of_decide_eq_true h, rfl⟩, fun hcode => absurd ?_ hc⟩
    rcases hcode with rfl | rfl <;> decide

theorem blockResult_errors {code : UInt8} {offset length : ℕ} {res : BlockResult}
    (h : blockResult B env code offset length w = .ok (res, w')) :
    (res = .retry → code ≠ 0 ∧ w.vars.errorCount < 3 ∧ w'.vars.errorCount = w.vars.errorCount + 1) ∧
      (res = .resize → (code = 0xc7 ∨ code = 0xc8) ∧ w' = w) := by
  rw [blockResult] at h
  by_cases h80 : code = 0x80
  · rw [if_pos h80] at h
    obtain ⟨b, s, hs, h⟩ := bind_ok.mp h
    rcases b with _ | _ <;> obtain ⟨rfl, -⟩ := pure_ok.mp h <;>
      exact ⟨by simp, by simp⟩
  rw [if_neg h80] at h
  by_cases h0 : code = 0
  · rw [if_pos h0] at h
    obtain ⟨rfl, -⟩ := pure_ok.mp h
    exact ⟨by simp, by simp⟩
  rw [if_neg h0] at h
  obtain ⟨b, s, hs, h⟩ := bind_ok.mp h
  obtain ⟨hretry, hkeep⟩ := retryable_ok hs
  rcases b with _ | _
  · rw [if_neg (by simp)] at h
    split_ifs at h with hc
    · obtain ⟨rfl, rfl⟩ := pure_ok.mp h
      exact ⟨by simp, fun _ => ⟨hc, (hkeep hc).2⟩⟩
    · obtain ⟨rfl, -⟩ := pure_ok.mp h
      exact ⟨by simp, by simp⟩
  · rw [if_pos rfl] at h
    obtain ⟨rfl, rfl⟩ := pure_ok.mp h
    exact ⟨fun _ => ⟨h0, hretry rfl⟩, by simp⟩

theorem quiet_blockResult (code : UInt8) (offset length : ℕ) :
    Moves (Says fun x => x.1.cmd ≠ 0x32) (blockResult B env code offset length) := by
  have hstatus : ∀ o, ((hpmCommand 0x34 [0], o) : Exchange).1.cmd ≠ 0x32 :=
    fun _ => show (0x34 : UInt8) ≠ 0x32 by decide
  refine .ite (fun _ => .bind (says_waitLong hstatus) fun b => ?_) fun _ =>
    .ite (fun _ => .pure _) fun _ => .bind (says_of_log retryable_log) fun b => ?_
  · exact .ite (fun _ => .pure _) fun _ => .pure _
  · exact .ite (fun _ => .pure _) fun _ => .ite (fun _ => .pure _) fun _ => .pure _

theorem countP_quiet {evs : List Exchange} (h : ∀ x ∈ evs, x.1.cmd ≠ 0x32) :
    evs.countP misfit = 0 :=
  List.countP_eq_zero.mpr fun x hx => by simp [misfit, h x hx]

theorem countP_attempts {evs : List Exchange}
    (h : ∀ x ∈ evs, x.1 = c ∧ ∀ r ∈ x.2, r.ccode ≠ 0 ∧ r.ccode ≠ 0x80) : evs.countP misfit = 0 := by
  refine List.countP_eq_zero.mpr fun x hx hmisfit => ?_
  obtain ⟨-, r, hr, hcode, -⟩ := by simpa [misfit, Option.any_eq_true] using hmisfit
  exact ((h x hx).2 r hr).1 hcode

theorem sectionOf_code (code : UInt8) (d : List UInt8) :
    (sectionOf code d).1 = code ∨ (sectionOf code d).1 = 0x82 := by
  unfold sectionOf
  split_ifs
  · exact .inl rfl
  · exact .inr rfl
  · exact .inl rfl

/-- What a block uses up: there is at most one misfit, and without it a retry is counted. -/
theorem uploadBlock_spends {data : List UInt8} {said : List Exchange} {res : BlockResult}
    (h : uploadBlock B env data w = .ok (res, w')) (hsaid : w'.log = w.log ++ said) :
    said.countP misfit ≤ 1 ∧
      (res = .retry → said.countP misfit = 1 ∨
        (w.vars.errorCount < 3 ∧ w'.vars.errorCount = w.vars.errorCount + 1)) ∧
      (res = .resize → w'.vars.errorCount = w.vars.errorCount) := by
  obtain ⟨o, s, hs, h⟩ := bind_ok.mp h
  unfold send at hs
  split_ifs at hs with hlong
  · obtain ⟨rfl, rfl⟩ := pure_ok.mp hs
    obtain ⟨rfl, rfl⟩ := pure_ok.mp h
    rw [List.append_right_eq_self.mp hsaid.symm]
    exact ⟨Nat.zero_le _, nofun, nofun⟩
  obtain ⟨evs, last, v, hlog, hevs, ho⟩ := sendCmd_log hs
  have herrors := sendCmd_errors hs
  have hcount : ∀ post, w'.log = s.log ++ post → (∀ x ∈ post, x.1.cmd ≠ 0x32) →
      said.countP misfit = if misfit (hpmCommand 0x32 data, last) then 1 else 0 := by
    intro post hpost hquiet
    rw [hpost, hlog, List.append_assoc] at hsaid
    rw [← List.append_cancel_left hsaid, List.countP_append, List.countP_append,
      countP_attempts hevs, countP_quiet hquiet, List.countP_singleton, Nat.zero_add, Nat.add_zero]
  rcases o with _ | r
  · obtain ⟨rfl, rfl⟩ := pure_ok.mp h
    refine ⟨?_, nofun, nofun⟩
    rw [hcount [] (by simp) (by simp)]
    split_ifs <;> simp
  dsimp only at h
  by_cases hnone : (r.ccode = 0 ∨ r.ccode = 0x80) ∧ responseData r = none
  · rw [if_pos hnone] at h
    obtain ⟨rfl, rfl⟩ := pure_ok.mp h
    refine ⟨?_, nofun, nofun⟩
    rw [hcount [] (by simp) (by simp)]
    split_ifs <;> simp
  rw [if_neg hnone] at h
  obtain ⟨post, hpost, hquiet⟩ := quiet_blockResult _ _ _ _ _ _ h
  rw [hcount post hpost hquiet]
  obtain ⟨hretry, hresize⟩ := blockResult_errors h
  refine ⟨by split_ifs <;> simp, fun hres => ?_, fun hres => ?_⟩
  · obtain ⟨hcode, hless, hmore⟩ := hretry hres
    by_cases hzero : r.ccode = 0
    · -- the response takes the block, but its length is wrong
      left
      obtain rfl := (response_some ho).resolve_right fun hr => hr.2.1 hzero
      rcases sectionOf_cases r hnone with ⟨-, -, hsame, -⟩ | ⟨-, -, hanswers, -⟩
      · exact absurd (hsame.trans hzero) hcode
      · rw [if_pos]
        simpa [misfit, hpmCommand, answers, hzero] using hanswers
    · right
      rw [if_neg (by simpa using hzero)] at herrors
      exact ⟨herrors ▸ hless, by rw [hmore, herrors]⟩
  · obtain ⟨hcode, rfl⟩ := hresize hres
    have hne : r.ccode ≠ 0 := by
      rcases sectionOf_code r.ccode ((responseData r).getD []) with hsame | hsame
        <;> rw [hsame] at hcode
      · rcases hcode with hc | hc <;> rw [hc] <;> decide
      · exact absurd hcode (by decide)
    rw [herrors, if_neg (by simpa using hne)]

/-! ### What is left -/

/-- What an upload has left: the bytes up to the limit, the size of a block, and the retries. A
block that is taken gives the retries back, so each of the bytes counts for four. -/
def potential (payload : List UInt8) (t : Transfer) (v : Vars) : ℕ :=
  4 * (3 * payload.length - t.totalSent) + t.chunkSize + (3 - v.errorCount)

/-- The transfer stands within the payload, and a block has some bytes. -/
structure Sound (payload : List UInt8) (t : Transfer) : Prop where
  fits : Fits t payload
  chunk : 0 < t.chunkSize

theorem shrink_less (h : t.shrink env = some t') :
    0 < t'.chunkSize ∧ t'.chunkSize < t.chunkSize ∧ t'.totalSent = t.totalSent ∧
      t'.position = t.position ∧ t'.sectionStart = t.sectionStart ∧
        t'.sectionLength = t.sectionLength := by
  unfold Transfer.shrink at h
  dsimp only at h
  split_ifs at h with hlan hstop hstop
  · obtain rfl := Option.some.inj h
    refine ⟨?_, ?_, rfl, rfl, rfl, rfl⟩ <;> dsimp only <;> omega
  · obtain rfl := Option.some.inj h
    refine ⟨?_, ?_, rfl, rfl, rfl, rfl⟩ <;> dsimp only <;> omega

theorem advance_more {size count offset length : ℕ}
    (h : t.advance size count offset length = some t') :
    t'.totalSent = t.totalSent + count ∧ t'.totalSent ≤ 3 * size ∧ t'.chunkSize = t.chunkSize := by
  unfold Transfer.advance at h
  dsimp only at h
  split_ifs at h with h1 h2 h3 h4
  all_goals
    obtain rfl := Option.some.inj h
    exact ⟨rfl, by dsimp only; omega, rfl⟩

/-- What a turn does: it keeps the transfer sound and uses up something, or has a misfit. -/
theorem spends {s : Sent} (hturn : Turn B env payload t w s w') (hsound : Sound payload t)
    (hnext : next env payload t s.result = some t') : Sound payload t' ∧
      potential payload t' w'.vars + 1 ≤ potential payload t w.vars + 4 * s.said.countP misfit := by
  obtain ⟨hmisfits, hretry, hresize⟩ := uploadBlock_spends hturn.sent hturn.log
  have hopen := hturn.isOpen
  have hchunk := hsound.chunk
  unfold potential
  rcases hres : s.result with ⟨offset, length⟩ | _ | _ | _ <;> rw [hres] at hnext
  · -- the block was taken
    obtain ⟨hmore, hlimit, hsize⟩ := advance_more hnext
    have hcount := length_chunk hsound.fits
    have hpos : 0 < (t.chunk payload).length := by
      unfold Open at hopen
      omega
    refine ⟨⟨?_, by rwa [hsize]⟩, by rw [hsize]; omega⟩
    by_cases h0 : offset = 0
    · subst h0
      exact (advance_same hsound.fits hnext).1
    · exact (advance_section h0 hnext).1
  · -- a smaller block
    obtain ⟨hpos, hless, htotal, hposition, hstart, hlength⟩ := shrink_less hnext
    refine ⟨⟨?_, hpos⟩, by rw [hresize hres, htotal]; omega⟩
    unfold Fits
    rw [hposition, hstart, hlength]
    exact hsound.fits
  · obtain rfl := Option.some.inj hnext
    refine ⟨hsound, ?_⟩
    rcases hretry hres with hmisfit | ⟨hless, hmore⟩
    · omega
    · rw [hmore]
      omega
  · cases hnext

/-- What a run does: all but its last block use up something, or have a misfit. -/
theorem length_le {ss : List Sent} {e : Option Transfer} (h : Sends B env payload t w ss e w') :
    Sound payload t → ss.length ≤ potential payload t w.vars + 4 * misfits ss + 1 := by
  induction h with
  | nil t w => exact fun _ => Nat.zero_le _
  | last turn _ =>
    intro _
    rw [List.length_singleton]
    omega
  | cons turn goes _ ih =>
    intro hsound
    obtain ⟨hsound', hspent⟩ := spends turn hsound goes
    have hrest := ih hsound'
    rw [List.length_cons, misfits, List.map_cons, List.sum_cons]
    rw [misfits] at hrest
    omega

theorem misfits_le {ss : List Sent} {e : Option Transfer} (h : Sends B env payload t w ss e w') :
    misfits ss ≤ ss.length := by
  unfold misfits
  induction h with
  | nil t w => exact Nat.le_refl _
  | last turn _ => simpa using (uploadBlock_spends turn.sent turn.log).1
  | cons turn _ _ ih =>
    have hone := (uploadBlock_spends turn.sent turn.log).1
    rw [List.map_cons, List.sum_cons, List.length_cons]
    omega

/-! ### The end -/

theorem sound_initial (h : 2 < env.maxRequest.toNat) : Sound payload (initial env payload) :=
  ⟨⟨Nat.zero_le _, by simp [initial]⟩, Nat.sub_pos_of_lt h⟩

/-- The upload of a payload ends if and only if there are only finitely many misfits. -/
theorem ends_iff (h : 2 < env.maxRequest.toNat) :
    Ends B env payload (initial env payload) w ↔
    FewMisfits B env payload (initial env payload) w := by
  constructor
  · rintro ⟨n, hn⟩
    exact ⟨n, fun ss e w' hss => Nat.le_trans (misfits_le hss) (hn ss e w' hss)⟩
  · rintro ⟨n, hn⟩
    refine ⟨potential payload (initial env payload) w.vars + 4 * n + 1, fun ss e w' hss => ?_⟩
    have hlength := length_le hss (sound_initial h)
    have hfew := hn ss e w' hss
    omega

/-- If the loop sends at most `n` blocks, the fuel `n + 1` is enough for it: with more it does the
same. -/
theorem enough_fuel (n : ℕ) {t : Transfer} {w : CmdWorld Vars β}
    (hn : ∀ ss e w', Sends B env payload t w ss e w' → ss.length ≤ n) (more : ℕ) :
    uploadLoop B env payload (n + 1 + more) t w = uploadLoop B env payload (n + 1) t w := by
  induction n generalizing t w with
  | zero =>
    rw [Nat.add_right_comm, uploadLoop_succ, uploadLoop_succ]
    split_ifs with hopen
    · refine bind_eq_bind rfl fun res w1 hres => ?_
      obtain ⟨said, hturn⟩ := uploadBlock_turn hopen hres
      rcases hnext : next env payload t res with _ | t1
      · rfl
      · exact absurd (hn _ _ _ (.cons hturn hnext (.nil t1 w1))) (by simp)
    · rfl
  | succ n ih =>
    rw [Nat.add_right_comm, uploadLoop_succ, uploadLoop_succ]
    split_ifs with hopen
    · refine bind_eq_bind rfl fun res w1 hres => ?_
      obtain ⟨said, hturn⟩ := uploadBlock_turn hopen hres
      rcases hnext : next env payload t res with _ | t1
      · rfl
      · refine ih fun ss e w' hss => ?_
        have hmore := hn _ _ _ (.cons hturn hnext hss)
        rw [List.length_cons] at hmore
        omega
    · rfl

theorem Ends.fuel (h : Ends B env payload t w) :
    ∃ n, ∀ m ≥ n, uploadLoop B env payload m t w = uploadLoop B env payload n t w := by
  obtain ⟨n, hn⟩ := h
  refine ⟨n + 1, fun m hm => ?_⟩
  obtain ⟨more, rfl⟩ := Nat.exists_eq_add_of_le hm
  exact enough_fuel n hn more

/-! ### A target that never takes the first block -/

/-- A target that answers everything with the completion code zero and two bytes. -/
def wordy : Bmc Unit := fun _ _ => (some (Reply.of [0, 0]), ())

/-- A lan interface with the BMC at its end. -/
def lan : Env := ⟨true, true, 32⟩

/-- The start of the program. -/
def start : CmdWorld Vars Unit := { vars := {}, device := () }

theorem uploadBlock_wordy {w : CmdWorld Vars Unit} (hw : w.vars.patience = []) :
    ∃ w', uploadBlock wordy lan (request [7] (initial lan [7])) w = .ok (.retry, w') ∧
      w'.vars.patience = [] := by
  obtain ⟨⟨errors, valid, sizes, patience, answers⟩, device, log⟩ := w
  obtain rfl : patience = [] := hw
  rcases valid with _ | _
  · exact ⟨_, rfl, rfl⟩
  · exact ⟨_, rfl, rfl⟩

theorem sends_wordy : ∀ (n : ℕ) {w : CmdWorld Vars Unit}, w.vars.patience = [] →
    ∃ ss w', Sends wordy lan [7] (initial lan [7]) w ss (some (initial lan [7])) w' ∧ ss.length = n
  | 0, w, _ => ⟨[], w, .nil _ w, rfl⟩
  | n + 1, w, hw => by
    obtain ⟨w1, hblock, hw1⟩ := uploadBlock_wordy hw
    obtain ⟨said, hturn⟩ := uploadBlock_turn (by decide) hblock
    obtain ⟨ss, w', hss, hlen⟩ := sends_wordy n hw1
    exact ⟨_ :: ss, w', .cons hturn rfl hss, by rw [List.length_cons, hlen]⟩

/-- The upload of a single byte to this target never ends. -/
theorem not_ends_wordy : ¬ Ends wordy lan [7] (initial lan [7]) start := by
  rintro ⟨n, hn⟩
  obtain ⟨ss, w', hss, hlen⟩ := sends_wordy (n + 1) (w := start) rfl
  have := hn ss _ w' hss
  omega

theorem ends_iff_wordy : ¬ FewMisfits wordy lan [7] (initial lan [7]) start := by
  rw [← ends_iff (show 2 < lan.maxRequest.toNat by decide)]
  rintro ⟨n, hn⟩
  obtain ⟨ss, w', hss, hlen⟩ := sends_wordy (n + 1) (w := start) rfl
  have := hn ss _ w' hss
  omega

end Ipmitool.Hpm.Ending
