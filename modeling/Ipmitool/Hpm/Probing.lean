import Mathlib.Algebra.GroupWithZero.Nat
import Ipmitool.Hpm.Agent

/-! # Probing for the size of a block

A block that is too long may get no reply at all on a lan interface. `sendCmd` then makes up a reply
with a length error, so that the caller tries a shorter block, for the first six missing replies and
as long as the size does not count as valid.

The reply that was made up goes on through the code for real replies, and the end of `sendCmd`
counts the size as valid. So only the first missing reply becomes a length error, and the size is
valid before the target has said a word. `probing_iff`: a run of calls is as it should be if and
only if no reply is missing before the target has answered a block. -/

namespace Ipmitool.Hpm.Probing

open Ipmitool.Lib.Machine Ipmitool.Lib.Dialogue Ipmitool.Core.Types Ipmitool.Core.Interface
open Ipmitool.Hpm.Agent

/-! ### Calls -/

/-- A call of `sendCmd`: the request, the replies to it turn by turn, what was returned, and whether
the size counts as valid afterwards. -/
structure Call where
  request : Command
  replies : List (Option Reply)
  result : Option Reply
  valid : Bool

/-- A call with an Upload Firmware Block request. -/
def Call.IsBlock (k : Call) : Prop := k.request.cmd = 0x32

/-- The target has said nothing to a block. -/
def Unanswered (ks : List Call) : Prop := ∀ k ∈ ks, k.IsBlock → ∀ o ∈ k.replies, o = none

instance (k : Call) : Decidable k.IsBlock := inferInstanceAs (Decidable (k.request.cmd = 0x32))

/-- How many replies to blocks were missing. -/
def missing (ks : List Call) : ℕ :=
  ((ks.filter fun k => k.IsBlock).map fun k => k.replies.countP Option.isNone).sum

/-- The calls probe for the size: each of the first six missing replies ends its call with a length
error, and the size is valid only after the target has answered a block. -/
structure Probes (ks : List Call) : Prop where
  shrinks : ∀ pre k post, ks = pre ++ k :: post → k.IsBlock → Unanswered pre → missing pre < 6 →
    k.replies.head? = some none → k.replies = [none] ∧ k.result.map Reply.ccode = some 0xc7
  answered : ∀ pre k post, ks = pre ++ k :: post → k.valid = true → ¬ Unanswered (pre ++ [k])

/-- No reply is missing before the target has answered a block. -/
def Heard (ks : List Call) : Prop := ∀ pre k post, ks = pre ++ k :: post → k.IsBlock →
    Unanswered pre →
  k.replies.head? ≠ some none

variable {β : Type} (B : Bmc β) (env : Env)

/-- Nothing but `sendCmd` writes the variables that decide about the size. -/
def Between (w w' : CmdWorld Vars β) : Prop :=
  w'.vars.validUploadSize = w.vars.validUploadSize ∧ w'.vars.lanSizeErrors = w.vars.lanSizeErrors

/-- A call, from the world that the call before it left behind. -/
def Step (w : CmdWorld Vars β) (k : Call) (w' : CmdWorld Vars β) : Prop := ∃ w1, Between w w1 ∧
  sendCmd B env k.request w1 = .ok (k.result, w') ∧
  w'.log = w1.log ++ k.replies.map (fun o => (k.request, o)) ∧ k.valid = w'.vars.validUploadSize

/-- A run of calls. -/
def Run : CmdWorld Vars β → List Call → CmdWorld Vars β → Prop
  | w, [], w' => w' = w
  | w, k :: ks, w' => ∃ w1, Step B env w k w1 ∧ Run w1 ks w'

/-- The variables when the program starts. -/
def Fresh (v : Vars) : Prop := v.validUploadSize = false ∧ v.lanSizeErrors = 0

/-! ### A turn -/

variable {B} {env} {w w' : CmdWorld Vars β} {c : Command}

/-- Nothing is counted as long as the size is not valid: a missing reply that is counted makes the
size valid too. -/
def Uncounted (v : Vars) : Prop := v.validUploadSize = false → v.lanSizeErrors = 0

theorem response_missing {v : Vars} (hlan : env.lan = true) (hc : c.cmd = 0x32) (hv : Fresh v) :
    response env c none v = (some { ccode := 0xc7 }, { v with lanSizeErrors := 1 }) := by
  simp [response, substitute, hlan, hc, hv.1, hv.2]

theorem unready_length : unready (some { ccode := 0xc7 }) = false := by decide

/-- A reply either leaves the variables alone or stands for a missing reply to a block. -/
theorem response_vars (o : Option Reply) (v : Vars) : (response env c o v).2 = v ∨
    (c.cmd = 0x32 ∧ unready (response env c o v).1 = false) := by
  rcases o with _ | r
  · by_cases hsize : env.lan = true ∧ c.cmd = 0x32 ∧ v.lanSizeErrors < 6 ∧ ¬ v.validUploadSize
    · refine .inr ⟨hsize.2.1, ?_⟩
      simp only [response, substitute, hsize.1, not_true, if_false, if_pos hsize.2, unready]
      decide
    · refine .inl ?_
      simp only [response, substitute]
      split_ifs with hlan hblock
      · exact absurd ⟨hlan, hblock⟩ hsize
      all_goals rfl
  · exact .inl rfl

theorem noted_of_ne {o : Option Reply} {v : Vars} (hc : c.cmd ≠ 0x32) :
    (noted c o v).validUploadSize = v.validUploadSize ∧
      (noted c o v).lanSizeErrors = v.lanSizeErrors := by
  unfold noted
  split_ifs <;> simp_all

theorem noted_block {o : Option Reply} {v : Vars} (hc : c.cmd = 0x32) :
    (noted c o v).validUploadSize = true := by
  simp only [noted, hc, true_and]
  split_ifs with h1 h2 h2
  · exact h2
  · rfl
  · exact h2
  · rfl

theorem attempt_between {a : Bool × Option Reply} (hc : c.cmd ≠ 0x32)
    (h : attempt B env c w = .ok (a, w')) : Between w w' := by
  obtain ⟨o, -, -, hvars⟩ := attempt_ok h
  have hr : (response env c o w.vars).2 = w.vars :=
    (response_vars o w.vars).resolve_right fun h => hc h.1
  unfold Between
  rw [hvars, hr]
  split_ifs
  · exact ⟨rfl, rfl⟩
  · exact noted_of_ne hc

theorem attempt_uncounted {a : Bool × Option Reply} (h : attempt B env c w = .ok (a, w'))
    (hw : Uncounted w.vars) : Uncounted w'.vars := by
  by_cases hc : c.cmd = 0x32
  · obtain ⟨o, -, -, hvars⟩ := attempt_ok h
    rw [hvars]
    split_ifs with hu
    · have hr : (response env c o w.vars).2 = w.vars :=
        (response_vars o w.vars).resolve_right fun hr => absurd hu (by rw [hr.2]; decide)
      rwa [hr]
    · exact fun hv => absurd (noted_block hc) (by rw [hv]; decide)
  · obtain ⟨hvalid, herrors⟩ := attempt_between hc h
    unfold Uncounted
    rwa [hvalid, herrors]

/-! ### A call -/

theorem nextPatience_ok {n : ℕ} (h : nextPatience w = .ok (n, w')) :
    w'.log = w.log ∧ Between w w' := by
  obtain ⟨s, t, ht, h⟩ := bind_ok.mp h
  obtain ⟨rfl, rfl⟩ := get_ok.mp ht
  obtain ⟨u, t', ht', h⟩ := bind_ok.mp h
  obtain ⟨-, rfl⟩ := pure_ok.mp h
  rw [← set_ok.mp ht']
  exact ⟨rfl, rfl, rfl⟩

/-- A call begins with a turn, and ends with it if the turn does not want to go on. -/
theorem sendCmd_first {o : Option Reply} (h : sendCmd B env c w = .ok (o, w')) : ∃ t a t' rest,
    t.log = w.log ∧ Between w t ∧ attempt B env c t = .ok (a, t') ∧ w'.log = t'.log ++ rest ∧
      (a.1 = false → w' = t' ∧ o = a.2) := by
  obtain ⟨n, t, ht, h⟩ := bind_ok.mp h
  obtain ⟨hlog, hbetween⟩ := nextPatience_ok ht
  rcases n with _ | n
  · obtain ⟨r, s', hr, h⟩ := bind_ok.mp h
    obtain ⟨rfl, rfl⟩ := pure_ok.mp h
    exact ⟨t, r, s', [], hlog, hbetween, hr, (List.append_nil _).symm, fun _ => ⟨rfl, rfl⟩⟩
  · obtain ⟨r, s', hr, h⟩ := bind_ok.mp h
    split_ifs at h with hgo
    · have hrest : ∃ rest, w'.log = s'.log ++ rest :=
        goOn_keeps (I := fun s => ∃ rest, s.log = s'.log ++ rest) (fun {s a t} hs hI => by
          obtain ⟨rest, hI⟩ := hI
          obtain ⟨o, ho, -⟩ := attempt_ok hs
          exact ⟨rest ++ [(c, o)], by rw [ho, hI, List.append_assoc]⟩) h ⟨[],
            (List.append_nil _).symm⟩
      obtain ⟨rest, hrest⟩ := hrest
      exact ⟨t, r, s', rest, hlog, hbetween, hr, hrest,
        fun hstop => absurd hgo (by rw [hstop]; decide)⟩
    · obtain ⟨rfl, rfl⟩ := pure_ok.mp h
      exact ⟨t, r, s', [], hlog, hbetween, hr, (List.append_nil _).symm, fun _ => ⟨rfl, rfl⟩⟩

variable {k : Call} {ks pre post : List Call}

theorem Between.uncounted (h : Between w w') (hw : Uncounted w.vars) : Uncounted w'.vars := by
  unfold Uncounted
  rwa [h.1, h.2]

theorem Between.fresh (h : Between w w') (hw : Fresh w.vars) : Fresh w'.vars :=
  ⟨h.1.trans hw.1, h.2.trans hw.2⟩

/-- A call keeps the count at zero until the size is valid. -/
theorem Step.uncounted (h : Step B env w k w') (hw : Uncounted w.vars) : Uncounted w'.vars := by
  obtain ⟨w1, hbetween, hcall, -⟩ := h
  obtain ⟨n, t, ht, hloop⟩ := bind_ok.mp hcall
  exact goOn_keeps (I := fun s => Uncounted s.vars) (fun hs => attempt_uncounted hs) hloop
    ((nextPatience_ok ht).2.uncounted (hbetween.uncounted hw))

theorem Step.other (h : Step B env w k w') (hk : ¬ k.IsBlock) :
    w'.vars.validUploadSize = w.vars.validUploadSize := by
  obtain ⟨w1, hbetween, hcall, -⟩ := h
  obtain ⟨n, t, ht, hloop⟩ := bind_ok.mp hcall
  refine goOn_keeps (I := fun s => s.vars.validUploadSize = w.vars.validUploadSize)
    (fun hs hI => (attempt_between hk hs).1.trans hI) hloop ?_
  rw [(nextPatience_ok ht).2.1, hbetween.1]

theorem Step.replies_ne_nil (h : Step B env w k w') : k.replies ≠ [] := by
  obtain ⟨w1, -, hcall, hlog, -⟩ := h
  obtain ⟨t, a, t', rest, ht, -, hfirst, hrest, -⟩ := sendCmd_first hcall
  obtain ⟨o, ho, -⟩ := attempt_ok hfirst
  rintro hnil
  have hlen := congrArg List.length hlog
  rw [hrest, ho, ht, hnil] at hlen
  simp only [List.append_assoc, List.length_append, List.length_cons, List.length_nil,
    List.map_nil] at hlen
  omega

/-- The first missing reply to a block: the call ends with a length error, and the size counts as
valid. -/
theorem Step.missing (hlan : env.lan = true) (h : Step B env w k w') (hw : Fresh w.vars)
    (hk : k.IsBlock) (hmissing : k.replies.head? = some none) :
    k.replies = [none] ∧ k.result.map Reply.ccode = some 0xc7 ∧ k.valid = true := by
  obtain ⟨w1, hbetween, hcall, hlog, hvalid⟩ := h
  obtain ⟨t, a, t', rest, ht, hbetween', hfirst, hrest, hstop⟩ := sendCmd_first hcall
  obtain ⟨o, ho, ha, hvars⟩ := attempt_ok hfirst
  obtain ⟨os, hos⟩ := List.head?_eq_some_iff.mp hmissing
  rw [hrest, ho, ht, hos, List.append_assoc] at hlog
  have hcons := List.append_cancel_left hlog
  obtain ⟨hhead, htail⟩ := List.cons.inj hcons
  obtain rfl := (Prod.mk.inj hhead).2
  have hfresh := hbetween'.fresh (hbetween.fresh hw)
  rw [response_missing hlan hk hfresh] at ha hvars
  obtain ⟨rfl, hresult⟩ := hstop (by rw [ha]; exact unready_length)
  have hnil : rest = [] := List.append_right_eq_self.mp hrest.symm
  rw [hnil] at htail
  refine ⟨by rw [hos, List.map_eq_nil_iff.mp htail.symm], by rw [hresult, ha]; rfl, ?_⟩
  rw [hvalid, hvars, if_neg (by rw [unready_length]; decide)]
  exact noted_block hk

/-! ### Runs -/

theorem run_append : ∀ {pre : List Call} {w : CmdWorld Vars β}, Run B env w (pre ++ post) w' ↔
    ∃ w1, Run B env w pre w1 ∧ Run B env w1 post w'
  | [], w => by simp [Run]
  | k :: pre, w => by
    simp only [List.cons_append, Run, @run_append pre]
    constructor
    · rintro ⟨w1, hstep, w2, hpre, hpost⟩
      exact ⟨w2, ⟨w1, hstep, hpre⟩, hpost⟩
    · rintro ⟨w2, ⟨w1, hstep, hpre⟩, hpost⟩
      exact ⟨w1, hstep, w2, hpre, hpost⟩

theorem Run.split (h : Run B env w ks w') (hks : ks = pre ++ k :: post) :
    ∃ w1 w2, Run B env w pre w1 ∧ Step B env w1 k w2 := by
  rw [hks, run_append] at h
  obtain ⟨w1, hpre, w2, hstep, -⟩ := h
  exact ⟨w1, w2, hpre, hstep⟩

theorem Run.uncounted : ∀ {ks : List Call} {w : CmdWorld Vars β}, Run B env w ks w' →
    Uncounted w.vars → Uncounted w'.vars
  | [], w, h, hw => by rwa [show w' = w from h]
  | k :: ks, w, ⟨w1, hstep, hrun⟩, hw => Run.uncounted hrun (hstep.uncounted hw)

theorem Run.quiet : ∀ {ks : List Call} {w : CmdWorld Vars β}, Run B env w ks w' →
    (∀ k ∈ ks, ¬ k.IsBlock) → w'.vars.validUploadSize = w.vars.validUploadSize
  | [], w, h, hks => by rw [show w' = w from h]
  | k :: ks, w, ⟨w1, hstep, hrun⟩, hks => by
    rw [Run.quiet hrun fun k' hk' => hks k' (List.mem_cons_of_mem _ hk'),
      hstep.other (hks k List.mem_cons_self)]

theorem Run.last_valid (h : Run B env w (pre ++ [k]) w') : k.valid = w'.vars.validUploadSize := by
  obtain ⟨w1, -, w2, ⟨w3, -, -, -, hvalid⟩, hnil⟩ := run_append.mp h
  rw [hvalid, show w' = w2 from hnil]

theorem unanswered_append : Unanswered (pre ++ [k]) ↔
    Unanswered pre ∧ (k.IsBlock → ∀ o ∈ k.replies, o = none) := by
  simp only [Unanswered, List.mem_append, List.mem_singleton]
  constructor
  · exact fun h => ⟨fun k' hk' => h k' (.inl hk'), h k (.inr rfl)⟩
  · rintro ⟨hpre, hk⟩ k' (hk' | rfl)
    · exact hpre k' hk'
    · exact hk

/-- As long as no reply is missing, an unanswered run has no blocks. -/
theorem Heard.no_block (hheard : Heard ks) (hrun : Run B env w ks w') (hks : ks = pre ++ post)
    (hpre : Unanswered pre) : ∀ k ∈ pre, ¬ k.IsBlock := by
  intro k hk hblock
  obtain ⟨before, after, rfl⟩ := List.append_of_mem hk
  have hsplit : ks = before ++ k :: (after ++ post) := by
    rw [hks, List.append_assoc, List.cons_append]
  obtain ⟨w1, w2, -, hstep⟩ := hrun.split hsplit
  obtain ⟨o, os, hos⟩ := List.exists_cons_of_ne_nil hstep.replies_ne_nil
  have ho : o = none := hpre k hk hblock o (by rw [hos]; exact List.mem_cons_self)
  refine hheard before k (after ++ post) hsplit hblock
    (fun k' hk' => hpre k' (List.mem_append_left _ hk')) ?_
  rw [hos, ho]
  rfl

/-- A run of calls from the start of the program probes for the size as it should if and only if no
reply is missing before the target has answered a block. -/
theorem probing_iff (hlan : env.lan = true) (hw : Fresh w.vars) (hrun : Run B env w ks w') :
    Probes ks ↔ Heard ks := by
  constructor
  · intro hprobing pre k post hks hblock hpre hmissing
    obtain ⟨w1, w2, hrun1, hstep⟩ := hrun.split hks
    by_cases hvalid : w1.vars.validUploadSize = true
    · -- the size was counted as valid by the call before
      rcases List.eq_nil_or_concat pre with rfl | ⟨ini, last, rfl⟩
      · rw [show w1 = w from hrun1, hw.1] at hvalid
        cases hvalid
      · rw [List.concat_eq_append] at hks hpre hrun1
        refine hprobing.answered ini last (k :: post) (by rw [hks, List.append_assoc]; rfl) ?_ hpre
        rw [hrun1.last_valid, hvalid]
    · -- this reply is the first that is missing
      have hfresh : Fresh w1.vars := by
        have hfalse := Bool.eq_false_iff.mpr hvalid
        exact ⟨hfalse, hrun1.uncounted (fun _ => hw.2) hfalse⟩
      obtain ⟨hreplies, -, hk⟩ := hstep.missing hlan hfresh hblock hmissing
      refine hprobing.answered pre k post hks hk (unanswered_append.mpr ⟨hpre, fun _ o ho => ?_⟩)
      rw [hreplies] at ho
      exact List.mem_singleton.mp ho
  · intro hheard
    refine ⟨fun pre k post hks hblock hpre _ hmissing =>
      absurd hmissing (hheard pre k post hks hblock hpre), fun pre k post hks hvalid hun => ?_⟩
    have hks' : ks = (pre ++ [k]) ++ post := by rw [hks, List.append_assoc]; rfl
    have hnone := hheard.no_block hrun hks' hun
    rw [hks', run_append] at hrun
    obtain ⟨w1, hrun1, -⟩ := hrun
    rw [hrun1.last_valid, hrun1.quiet hnone, hw.1] at hvalid
    cases hvalid

/-! ### A silent target -/

/-- A target that never says anything. -/
def silent : Bmc Unit := fun _ _ => (none, ())

/-- A lan interface with the BMC at its end. -/
def lanplus : Env := ⟨true, true, 32⟩

/-- The start of the program. -/
def start : CmdWorld Vars Unit := { vars := {}, device := () }

/-- A block of one byte. -/
def oneByte : Command := hpmCommand 0x32 [0, 0, 0xa5]

/-- The first missing reply to a block is a length error. -/
def firstTry : Call := ⟨oneByte, [none], some { ccode := 0xc7 }, true⟩

/-- The second one is none. -/
def secondTry : Call := ⟨oneByte, [none], none, true⟩

/-- What the silent target leaves behind after two blocks. -/
def afterTwo : CmdWorld Vars Unit where
  vars := { validUploadSize := true, lanSizeErrors := 1 }
  device := ()
  log := [(oneByte, none), (oneByte, none)]

theorem run_silent : Run silent lanplus start [firstTry, secondTry] afterTwo :=
  ⟨{ afterTwo with log := [(oneByte, none)] }, ⟨start, ⟨rfl, rfl⟩, rfl, rfl, rfl⟩,
    afterTwo, ⟨_, ⟨rfl, rfl⟩, rfl, rfl, rfl⟩, rfl⟩

/-- Of two missing replies only the first is reported as a length error. -/
theorem not_probing_silent :
    ∃ ks w', Run silent lanplus start ks w' ∧ Fresh start.vars ∧ ¬ Probes ks := by
  refine ⟨_, _, run_silent, ⟨rfl, rfl⟩, fun hprobing => ?_⟩
  have hshrinks := hprobing.shrinks [firstTry] secondTry [] rfl rfl
    (fun k hk _ o ho => by
      obtain rfl := List.mem_singleton.mp hk
      exact List.mem_singleton.mp ho) (by decide) rfl
  exact absurd hshrinks.2 (by simp [secondTry])

theorem probing_iff_silent : ¬ Probes [firstTry, secondTry] := by
  rw [probing_iff (w := start) rfl ⟨rfl, rfl⟩ run_silent]
  exact fun hheard => hheard [] firstTry [secondTry] rfl rfl (fun k hk => absurd hk (by simp)) rfl

end Ipmitool.Hpm.Probing
