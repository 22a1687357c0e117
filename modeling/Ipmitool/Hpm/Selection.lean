import Ipmitool.Hpm.Upgrade

/-! # What an upgrade touches

The pre-check computes a mask of components. Back-up and preparation are requested for the
components of a record that are in the mask; an upload is requested for all the components of the
record as soon as the highest of them is in the mask. So the upgrade stage keeps to the mask,
whatever the target answers, exactly if no record that is uploaded names a component outside of it
(`upgradeStage_respects_iff`). In view mode nothing is requested (`says_upgrade_view`). -/

namespace Ipmitool.Hpm.Selection

open Ipmitool.Lib.Machine Ipmitool.Lib.Dialogue Ipmitool.Core.Interface
open Ipmitool.Hpm.Agent Ipmitool.Hpm.Image Ipmitool.Hpm.Upgrade

/-! ### Keeping to a mask -/

/-- The components `m` are in the mask. -/
def within (m mask : UInt8) : Prop := m &&& ~~~ mask = 0

instance (m mask : UInt8) : Decidable (within m mask) := inferInstanceAs (Decidable (_ = _))

theorem within_and (m mask : UInt8) : within (m &&& mask) mask := by
  unfold within
  rw [UInt8.and_assoc, UInt8.and_not_self, UInt8.and_zero]

/-- Initiate Upgrade Action. -/
def isAction (x : Exchange) : Prop := x.1.netfn = netfnPicmg ∧ x.1.cmd = 0x31

/-- Upload Firmware Block. -/
def isBlock (x : Exchange) : Prop := x.1.netfn = netfnPicmg ∧ x.1.cmd = 0x32

instance (x : Exchange) : Decidable (isAction x) := inferInstanceAs (Decidable (_ ∧ _))
instance (x : Exchange) : Decidable (isBlock x) := inferInstanceAs (Decidable (_ ∧ _))

/-- An action request names only components of the mask. -/
def inMask (mask : UInt8) (x : Exchange) : Prop := isAction x → within (x.1.data.getD 1 0) mask

/-- No block comes before the first action. -/
def Led : List Exchange → Prop
  | [] => True
  | x :: xs => isAction x ∨ (¬ isBlock x ∧ Led xs)

/-- All action requests name components of the mask only, and every block belongs to an action. -/
def Respects (mask : UInt8) (evs : List Exchange) : Prop := (∀ x ∈ evs, inMask mask x) ∧ Led evs

theorem led_append {a b : List Exchange} (ha : Led a) (hb : Led b) : Led (a ++ b) := by
  induction a with
  | nil => exact hb
  | cons x a ih =>
    rcases ha with h | ⟨h, ha⟩
    · exact .inl h
    · exact .inr ⟨h, ih ha⟩

/-- Behind an action anything may come. -/
theorem led_of_actions {a : List Exchange} {x : Exchange} (ha : ∀ y ∈ a, isAction y)
    (hx : isAction x) (b : List Exchange) : Led (a ++ x :: b) := by
  rcases a with _ | ⟨y, a⟩
  · exact .inl hx
  · exact .inl (ha y List.mem_cons_self)

/-- The exchanges since a world keep to the mask. -/
def Keeps {β : Type} (mask : UInt8) : Frame (CmdWorld Vars β) where
  rel w w' := ∃ evs, w'.log = w.log ++ evs ∧ Respects mask evs
  refl w := ⟨[], by simp, by simp, trivial⟩
  trans := by
    rintro w w1 w2 ⟨evs1, h1, hin1, hled1⟩ ⟨evs2, h2, hin2, hled2⟩
    refine ⟨evs1 ++ evs2, by rw [h2, h1, List.append_assoc], fun x hx => ?_, led_append hled1 hled2⟩
    rcases List.mem_append.mp hx with hx | hx
    · exact hin1 x hx
    · exact hin2 x hx

section
variable {β : Type} {B : Bmc β} {env : Env} {mask : UInt8}

theorem not_action_of_cmd {cmd : UInt8} {bytes : List UInt8} (h : cmd ≠ 0x31) (o : Option Reply) :
    ¬ isAction (hpmCommand cmd bytes, o) := fun hx => h hx.2

theorem not_block_of_cmd {cmd : UInt8} {bytes : List UInt8} (h : cmd ≠ 0x32) (o : Option Reply) :
    ¬ isBlock (hpmCommand cmd bytes, o) := fun hx => h hx.2

theorem inMask_of_cmd {cmd : UInt8} {bytes : List UInt8} (h : cmd ≠ 0x31) (o : Option Reply) :
    inMask mask (hpmCommand cmd bytes, o) := fun hx => (h hx.2).elim

/-! ### The parts of an upload -/

theorem says_uploadBlock (data : List UInt8) : Moves (Says (inMask mask))
    (uploadBlock B env data) := by
  refine .bind (says_send (inMask_of_cmd (by decide))) fun o => ?_
  rcases o with _ | r
  · exact .pure _
  refine .ite (fun _ => .pure _) fun _ => ?_
  refine .ite (fun _ => .bind (says_waitLong (inMask_of_cmd (by decide))) fun b => ?_) fun _ =>
    .ite (fun _ => .pure _) fun _ => .bind (says_of_log retryable_log) fun b => ?_
  · exact .ite (fun _ => .pure _) fun _ => .pure _
  · exact .ite (fun _ => .pure _) fun _ => .ite (fun _ => .pure _) fun _ => .pure _

theorem says_uploadLoop (payload : List UInt8) : ∀ (fuel : ℕ) (t : Transfer),
    Moves (Says (inMask mask)) (uploadLoop B env payload fuel t)
  | 0, _ => .pure _
  | fuel + 1, t => by
    refine .ite (fun _ => .bind (says_uploadBlock _) fun res => ?_) fun _ => .pure _
    rcases res with ⟨offset, length⟩ | _ | _ | _
    · dsimp only
      rcases t.advance payload.length (t.chunk payload).length offset length with _ | t'
      · exact .pure _
      · exact says_uploadLoop payload fuel t'
    · dsimp only
      rcases t.shrink env with _ | t'
      · exact .pure _
      · exact says_uploadLoop payload fuel t'
    · exact says_uploadLoop payload fuel t
    · exact .pure _

theorem says_finishUpload (component sent : ℕ) (mode : Mode) :
    Moves (Says (inMask mask)) (finishUpload B env component sent mode) := by
  refine .bind (says_send (inMask_of_cmd (by decide))) fun o => ?_
  rcases o with _ | r
  · exact .pure _
  · exact .ite (fun _ => says_waitLong (inMask_of_cmd (by decide))) fun _ => .pure _

/-- An action: its request, sent at least once, and questions about the status. -/
theorem action_log {m kind : UInt8} {b : Bool} {w w' : CmdWorld Vars β}
    (h : action B env m kind w = .ok (b, w')) : ∃ evs last post,
      w'.log = w.log ++ (evs ++ (hpmCommand 0x31 [0, m, kind], last) :: post) ∧
      (∀ x ∈ evs, x.1 = hpmCommand 0x31 [0, m, kind]) ∧ ∀ x ∈ post, ¬ isAction x ∧ ¬ isBlock x := by
  obtain ⟨o, t, ht, h⟩ := bind_ok.mp h
  obtain ⟨evs, last, v, hlog, hevs, -⟩ := sendCmd_log ht
  obtain ⟨post, hpost, hall⟩ := says_finishLong (P := fun x => ¬ isAction x ∧ ¬ isBlock x)
    (fun o => ⟨not_action_of_cmd (by decide) o, not_block_of_cmd (by decide) o⟩) o t b w' h
  exact ⟨evs, last, post, by rw [hpost, hlog]; simp, fun x hx => (hevs x hx).1, hall⟩

/-- The exchanges of an action for components of the mask, and of anything behind it that requests
no other action. -/
theorem respects_action {m kind : UInt8} {evs post : List Exchange} {last : Option Reply}
    (hm : within m mask) (hevs : ∀ x ∈ evs, x.1 = hpmCommand 0x31 [0, m, kind])
    (hpost : ∀ x ∈ post, inMask mask x) :
    Respects mask (evs ++ (hpmCommand 0x31 [0, m, kind], last) :: post) := by
  have hact : ∀ y ∈ evs, isAction y := fun y hy => by rw [isAction, hevs y hy]; exact ⟨rfl, rfl⟩
  refine ⟨fun x hx => ?_, led_of_actions hact ⟨rfl, rfl⟩ post⟩
  rcases List.mem_append.mp hx with hx | hx
  · intro _
    rw [hevs x hx]
    exact hm
  · rcases List.mem_cons.mp hx with rfl | hx
    · exact fun _ => hm
    · exact hpost x hx

theorem keeps_action {m kind : UInt8} (hm : within m mask) :
    Moves (Keeps mask) (action B env m kind) := by
  intro w b w' h
  obtain ⟨evs, last, post, hlog, hevs, hpost⟩ := action_log h
  exact ⟨_, hlog, respects_action hm hevs fun x hx hact => ((hpost x hx).1 hact).elim⟩

/-- An upload of a record that keeps to the mask. -/
theorem keeps_uploadFirmware {fuel : ℕ} {ctx : Upgrade} {r : Record} {mode : Mode}
    (hr : env.maxRequest.toNat ≤ 2 ∨ (bit mask r.component → within r.components mask))
    (hctx : ctx.mask = mask) : Moves (Keeps mask) (uploadFirmware B env fuel ctx r mode) := by
  refine .ite (fun _ => .pure _) fun hbit => .ite (fun _ => .pure _) fun hmax => ?_
  have hm : within r.components mask := by
    refine hr.resolve_left hmax ?_
    rw [← hctx]
    simpa using hbit
  intro w b w' h
  obtain ⟨ok, t, ht, h⟩ := bind_ok.mp h
  obtain ⟨evs, last, post, hlog, hevs, hpost⟩ := action_log ht
  have hrest : ∃ more, w'.log = t.log ++ more ∧ ∀ x ∈ more, inMask mask x := by
    refine Moves.ite (F := Says (inMask mask)) (fun _ => .pure _)
      (fun _ => .bind (says_uploadLoop _ _ _) fun o => ?_)
      t b w' h
    rcases o with _ | sent
    · exact .pure _
    · exact says_finishUpload _ _ _
  obtain ⟨more, hmore, hin⟩ := hrest
  refine ⟨evs ++ (_, last) :: (post ++ more), ?_, respects_action hm hevs fun x hx => ?_⟩
  · rw [hmore, hlog]
    simp
  · rcases List.mem_append.mp hx with hx | hx
    · exact fun hact => ((hpost x hx).1 hact).elim
    · exact hin x hx

/-! ### The stage -/

theorem keeps_stageLoop {fuel : ℕ} {mode : Mode} : ∀ {rs : List Record} {ctx : Upgrade},
    ctx.mask = mask → (env.maxRequest.toNat ≤ 2 ∨
      ∀ r ∈ rs, r.kind = 2 → bit mask r.component → within r.components mask) →
    Moves (Keeps mask) (stageLoop B env fuel mode rs ctx)
  | [], ctx, _, _ => .pure _
  | r :: rs, ctx, hctx, hrs => by
    have htail : ∀ {ctx : Upgrade}, ctx.mask = mask →
        Moves (Keeps mask) (stageLoop B env fuel mode rs ctx) := fun h =>
      keeps_stageLoop h (hrs.imp_right fun hrs r hr => hrs r (List.mem_cons_of_mem _ hr))
    rw [stageLoop]
    refine .ite (fun hkind => .bind (keeps_uploadFirmware ?_ hctx) fun b => ?_) fun _ =>
      .ite (fun _ => .bind (keeps_action ?_) fun b => ?_) fun _ => htail hctx
    · exact hrs.imp_right fun hrs => hrs r List.mem_cons_self hkind
    · exact .ite (fun _ => htail hctx) fun _ => .pure _
    · rw [hctx]
      exact within_and _ _
    · exact .ite (fun _ => htail hctx) fun _ => .pure _

/-! ### A target that agrees to everything -/

/-- Every request is answered with the completion code zero and no data. -/
def agreeable : Bmc Unit := fun _ _ => (some (Reply.of []), ())

end

section
variable (env : Env)

theorem attempt_agreeable (c : Command) (w : CmdWorld Vars Unit) : ∃ w',
    attempt agreeable env c w = .ok ((false, some (Reply.of [])), w') ∧
    w'.log = w.log ++ [(c, some (Reply.of []))] := by
  refine ⟨{ w.asked agreeable c with vars := noted c (some (Reply.of [])) w.vars }, ?_, rfl⟩
  refine bind_ok.mpr ⟨some (Reply.of []), w.asked agreeable c, ask_ok.mpr ⟨rfl, rfl⟩, ?_⟩
  refine bind_ok.mpr ⟨_, _, get_ok.mpr ⟨rfl, rfl⟩, ?_⟩
  exact bind_ok.mpr ⟨⟨⟩, _, set_ok.mpr rfl, rfl⟩

theorem sendCmd_agreeable (c : Command) (w : CmdWorld Vars Unit) : ∃ w',
    sendCmd agreeable env c w = .ok (some (Reply.of []), w') ∧
    w'.log = w.log ++ [(c, some (Reply.of []))] := by
  obtain ⟨n, w1, h1⟩ : ∃ n w1, (nextPatience : Talk Unit ℕ) w = .ok (n, w1) := ⟨_, _, rfl⟩
  obtain ⟨w', hw', hlog⟩ := attempt_agreeable env c w1
  rw [nextPatience_log h1] at hlog
  refine ⟨w', bind_ok.mpr ⟨n, w1, h1, ?_⟩, hlog⟩
  rcases n with _ | n
  · exact bind_ok.mpr ⟨_, w', hw', rfl⟩
  · exact bind_ok.mpr ⟨_, w', hw', rfl⟩

theorem send_agreeable (cmd : UInt8) (bytes : List UInt8) (h : bytes.length ≤ 65535)
    (w : CmdWorld Vars Unit) : ∃ w', send agreeable env cmd bytes w = .ok (some (Reply.of []), w') ∧
      w'.log = w.log ++ [(hpmCommand cmd bytes, some (Reply.of []))] := by
  rw [send, if_neg (by omega)]
  exact sendCmd_agreeable env _ w

theorem action_agreeable (m kind : UInt8) (w : CmdWorld Vars Unit) : ∃ w',
    action agreeable env m kind w = .ok (true, w') ∧
    w'.log = w.log ++ [(hpmCommand 0x31 [0, m, kind], some (Reply.of []))] := by
  obtain ⟨w', hw', hlog⟩ := send_agreeable env 0x31 [0, m, kind] (by simp) w
  exact ⟨w', bind_ok.mpr ⟨_, w', hw', rfl⟩, hlog⟩

theorem uploadBlock_agreeable (data : List UInt8) (h : data.length ≤ 65535)
    (w : CmdWorld Vars Unit) :
    ∃ w' evs, uploadBlock agreeable env data w = .ok (.ok 0 0, w') ∧ w'.log = w.log ++ evs := by
  obtain ⟨w', hw', hlog⟩ := send_agreeable env 0x32 data h w
  exact ⟨w', _, bind_ok.mpr ⟨_, w', hw', rfl⟩, hlog⟩

theorem uploadLoop_agreeable (payload : List UInt8) : ∀ (fuel : ℕ) (t : Transfer)
    (w : CmdWorld Vars Unit), payload.length - t.position < fuel → 0 < t.chunkSize →
    t.chunkSize + 2 ≤ 65535 → t.sectionStart = 0 → t.sectionLength = payload.length →
    t.totalSent = t.position → ∃ sent w' evs,
      uploadLoop agreeable env payload fuel t w = .ok (some sent, w') ∧ w'.log = w.log ++ evs
  | 0, _, _, h, _, _, _, _, _ => absurd h (Nat.not_lt_zero _)
  | fuel + 1, t, w, hfuel, hpos, hmax, hstart, hlen, hsent => by
    rw [uploadLoop, hstart, hlen]
    by_cases hend : t.position < 0 + payload.length
    · have hchunk : (t.chunk payload).length = min t.chunkSize (payload.length - t.position) := by
        rw [Transfer.chunk, hstart, hlen, List.length_take, List.length_drop]
        omega
      obtain ⟨w1, evs1, h1, hlog1⟩ := uploadBlock_agreeable env
        ([0, t.block] ++ t.chunk payload) (by simp [hchunk]; omega) w
      obtain ⟨t', ht'⟩ : ∃ t' : Transfer, t' = { t with
          sizeKnown := true, totalSent := t.totalSent + (t.chunk payload).length
          position := t.position + (t.chunk payload).length, block := t.block + 1 } := ⟨_, rfl⟩
      have hadv : t.advance payload.length (t.chunk payload).length 0 0 = some t' := by
        rw [Transfer.advance, if_neg (by omega), if_neg (by omega), if_neg (by simp), ht']
      obtain ⟨sent, w2, evs2, h2, hlog2⟩ := uploadLoop_agreeable payload fuel t' w1
        (by rw [ht']; simp only; omega) (by rw [ht']; exact hpos) (by rw [ht']; exact hmax)
        (by rw [ht']; exact hstart) (by rw [ht']; exact hlen) (by rw [ht']; simp only; omega)
      refine ⟨sent, w2, evs1 ++ evs2, ?_, by rw [hlog2, hlog1, List.append_assoc]⟩
      rw [if_pos hend]
      refine bind_ok.mpr ⟨_, w1, h1, ?_⟩
      dsimp only
      rw [hadv]
      exact h2
    · rw [if_neg hend]
      exact ⟨t.totalSent, w, [], rfl, by simp⟩

/-- The uploads of these records were requested. -/
def Requested (mask : UInt8) (rs : List Record) (evs : List Exchange) : Prop :=
  ∀ r ∈ rs, r.kind = 2 → bit mask r.component → ∃ kind,
    (hpmCommand 0x31 [0, r.components, kind], some (Reply.of [])) ∈ evs

theorem Requested.cons {mask : UInt8} {r : Record} {rs : List Record} {evs1 evs2 : List Exchange}
    (h1 : Requested mask [r] evs1) (h2 : Requested mask rs evs2) :
    Requested mask (r :: rs) (evs1 ++ evs2) := by
  intro r' hr' hk hb
  rcases List.mem_cons.mp hr' with rfl | hr'
  · obtain ⟨kind, hmem⟩ := h1 r' List.mem_cons_self hk hb
    exact ⟨kind, List.mem_append_left _ hmem⟩
  · obtain ⟨kind, hmem⟩ := h2 r' hr' hk hb
    exact ⟨kind, List.mem_append_right _ hmem⟩

/-- The upload of a record succeeds, and its action was requested. -/
theorem uploadFirmware_agreeable (fuel : ℕ) (ctx : Upgrade) (r : Record) (mode : Mode)
    (hmax : 2 < env.maxRequest.toNat) (hfuel : r.payload.length < fuel) (w : CmdWorld Vars Unit) :
    ∃ w' evs, uploadFirmware agreeable env fuel ctx r mode w = .ok (true, w') ∧
      w'.log = w.log ++ evs ∧ Requested ctx.mask [r] evs := by
  by_cases hbit : bit ctx.mask r.component = true
  · have hlt := env.maxRequest.toNat_lt
    obtain ⟨w1, h1, hlog1⟩ := action_agreeable env r.components (if mode.compare then 3 else 2) w
    obtain ⟨sent, w2, evs2, h2, hlog2⟩ := uploadLoop_agreeable env r.payload fuel
      { chunkSize := env.maxRequest.toNat - 2, sectionLength := r.payload.length } w1
      (by simp only; omega) (by simp only; omega) (by simp only; omega) rfl rfl rfl
    obtain ⟨w3, h3, hlog3⟩ := send_agreeable env 0x33
      ([0, UInt8.ofNat r.component] ++ Lib.Bytes.le32 (UInt32.ofNat sent)) (by simp) w2
    refine ⟨w3, _, ?_, by rw [hlog3, hlog2, hlog1, List.append_assoc, List.append_assoc], ?_⟩
    · rw [uploadFirmware, if_neg (by simp [hbit]), if_neg (by omega)]
      refine bind_ok.mpr ⟨true, w1, h1, ?_⟩
      rw [if_neg (by simp)]
      refine bind_ok.mpr ⟨some sent, w2, h2, ?_⟩
      refine bind_ok.mpr ⟨_, w3, h3, ?_⟩
      rcases mode with ⟨_, _, _ | _⟩ <;> rfl
    · intro r' hr' _ _
      rw [List.mem_singleton.mp hr']
      exact ⟨if mode.compare then 3 else 2, by simp⟩
  · refine ⟨w, [], ?_, by simp, ?_⟩
    · rw [uploadFirmware, if_pos (by simpa using hbit)]
      rfl
    · intro r' hr' _ hb
      rw [List.mem_singleton.mp hr'] at hb
      exact (hbit hb).elim

/-- All records are gone through. -/
theorem stageLoop_agreeable (fuel : ℕ) (mode : Mode) (hmax : 2 < env.maxRequest.toNat) :
    ∀ (rs : List Record) (ctx : Upgrade) (w : CmdWorld Vars Unit),
      (∀ r ∈ rs, r.payload.length < fuel) → ∃ ctx' w' evs,
        stageLoop agreeable env fuel mode rs ctx w = .ok ((true, ctx'), w') ∧
        w'.log = w.log ++ evs ∧
        Requested ctx.mask rs evs
  | [], ctx, w, _ => ⟨ctx, w, [], rfl, by simp, by simp [Requested]⟩
  | r :: rs, ctx, w, hfuel => by
    have htail := fun c w => stageLoop_agreeable fuel mode hmax rs c w
      fun r' hr' => hfuel r' (List.mem_cons_of_mem _ hr')
    by_cases hkind : r.kind = 2
    · obtain ⟨w1, evs1, h1, hlog1, hreq1⟩ := uploadFirmware_agreeable env fuel
        { ctx with component := r.component } r mode hmax (hfuel r List.mem_cons_self) w
      obtain ⟨ctx', w2, evs2, h2, hlog2, hreq2⟩ := htail { ctx with component := r.component } w1
      refine ⟨ctx', w2, evs1 ++ evs2, ?_, by rw [hlog2, hlog1, List.append_assoc], hreq1.cons hreq2⟩
      rw [stageLoop, if_pos hkind]
      refine bind_ok.mpr ⟨true, w1, h1, ?_⟩
      rw [if_pos rfl]
      exact h2
    · have hnone : ∀ evs, Requested ctx.mask [r] evs := by
        intro evs r' hr' hk
        rw [List.mem_singleton.mp hr'] at hk
        exact (hkind hk).elim
      by_cases hact : ¬ mode.compare ∧ r.components &&& ctx.mask ≠ 0
      · obtain ⟨w1, h1, hlog1⟩ := action_agreeable env (r.components &&& ctx.mask) r.kind w
        obtain ⟨ctx', w2, evs2, h2, hlog2, hreq2⟩ := htail ctx w1
        refine ⟨ctx', w2, [_] ++ evs2, ?_, by rw [hlog2, hlog1, List.append_assoc],
          (hnone _).cons hreq2⟩
        rw [stageLoop, if_neg hkind, if_pos hact]
        refine bind_ok.mpr ⟨true, w1, h1, ?_⟩
        rw [if_pos rfl]
        exact h2
      · obtain ⟨ctx', w2, evs2, h2, hlog2, hreq2⟩ := htail ctx w
        refine ⟨ctx', w2, [] ++ evs2, ?_, by rw [hlog2, List.nil_append], (hnone []).cons hreq2⟩
        rw [stageLoop, if_neg hkind, if_neg hact]
        exact h2

end

/-! ### View mode -/

/-- Neither an action nor a block. -/
def harmless (x : Exchange) : Prop := ¬ isAction x ∧ ¬ isBlock x

section
variable {β : Type} {B : Bmc β} {env : Env}

theorem harmless_of_cmd {cmd : UInt8} {bytes : List UInt8} (h1 : cmd ≠ 0x31) (h2 : cmd ≠ 0x32)
    (o : Option Reply) : harmless (hpmCommand cmd bytes, o) :=
  ⟨not_action_of_cmd h1 o, not_block_of_cmd h2 o⟩

theorem says_propertiesLoop (components : UInt8) : ∀ (ids : List ℕ) (properties : ℕ → UInt8),
    Moves (Says harmless) (propertiesLoop B env components ids properties)
  | [], _ => .pure _
  | id :: ids, properties => by
    refine .ite (fun _ => .bind ?_ fun o => ?_) fun _ => says_propertiesLoop components ids _
    · refine .bind (says_send (harmless_of_cmd (by decide) (by decide))) fun o => ?_
      rcases o with _ | r
      · exact .pure _
      refine .ite (fun _ => .pure _) fun _ => ?_
      rcases responseData r with _ | d
      · exact .pure _
      · exact .ite (fun _ => .pure _) fun _ => .pure _
    · rcases o with _ | flags
      · exact .pure _
      · exact says_propertiesLoop components ids _

theorem says_getDevice : Moves (Says harmless) (getDevice B env) := by
  refine .bind (says_sendCmd fun o => ⟨fun h => absurd h.1 (by simp [netfnAppCmd, netfnPicmg]),
    fun h => absurd h.1 (by simp [netfnAppCmd, netfnPicmg])⟩) fun o => ?_
  rcases o with _ | r
  · exact .pure _
  refine .ite (fun _ => .pure _) fun _ => ?_
  rcases responseData r with _ | d
  · exact .pure _
  · exact .ite (fun _ => .pure _) fun _ => .pure _

theorem says_getCapabilities : Moves (Says harmless) (getCapabilities B env) := by
  refine .bind (says_send (harmless_of_cmd (by decide) (by decide))) fun o => ?_
  rcases o with _ | r
  · exact .pure _
  refine .ite (fun _ => .pure _) fun _ => ?_
  rcases responseData r with _ | d
  · exact .pure _
  · exact .ite (fun _ => .pure _) fun _ => .pure _

theorem says_deviceFits (header : Header) (dev : Device) (mode : Mode) :
    Moves (Says harmless) (deviceFits header dev mode : Talk β Bool) := by
  have hask : Moves (Says harmless) (askUser : Talk β Bool) := says_of_log askUser_log
  have hrest : ∀ fits : Bool, Moves (Says harmless) (if ¬ fits then return false
      else if dev.fw1 < header.compRevision0 ∨
        (header.compRevision0 = dev.fw1 ∧ dev.fw2 < header.compRevision1) then
        if mode.force ∨ mode.view then askUser else return false
      else return true : Talk β Bool) := fun fits =>
    .ite (fun _ => .pure _) fun _ => .ite (fun _ => .ite (fun _ => hask) fun _ => .pure _) fun _ =>
      .pure _
  refine .ite (fun _ => .bind (.pure _) hrest) fun _ => .ite (fun _ => .bind hask hrest) fun _ =>
    .bind (.pure _) hrest

theorem says_targetFits (header : Header) (target : Capabilities) (mode : Mode) :
    Moves (Says harmless) (targetFits header target mode : Talk β Bool) :=
  .ite (fun _ => .pure _) fun _ => .ite (fun _ => .pure _) fun _ => .ite (fun _ => .pure _) fun _ =>
    .ite (fun _ => says_of_log askUser_log) fun _ => .pure _

theorem says_preparation (ctx : Upgrade) (mode : Mode) :
    Moves (Says harmless) (preparation B env ctx mode) := by
  refine .bind says_getDevice fun o => ?_
  rcases o with _ | dev
  · exact .pure _
  refine .bind (says_deviceFits _ _ _) fun fits => .ite (fun _ => .pure _) fun _ =>
    .bind says_getCapabilities fun o => ?_
  rcases o with _ | target
  · exact .pure _
  refine .bind (says_targetFits _ _ _) fun fits => .ite (fun _ => .pure _) fun _ =>
    .bind (says_propertiesLoop _ _ _) fun o => ?_
  rcases o with _ | properties <;> exact .pure _

theorem says_selftestTurn : Moves (Says harmless) (selftestTurn B env) := by
  refine .bind (says_send (harmless_of_cmd (by decide) (by decide))) fun o => ?_
  rcases o with _ | r
  · exact .pure _
  refine .bind (says_of_log retryable_log) fun again => .ite (fun _ => .pure _) fun _ => ?_
  rcases responseData r with _ | d <;> exact .pure _

theorem says_rollbackTurn : Moves (Says harmless) (rollbackTurn B env) := by
  refine .bind (says_send (harmless_of_cmd (by decide) (by decide))) fun o => ?_
  rcases o with _ | r
  · exact .pure _
  exact .bind (says_of_log retryable_log) fun again => .ite (fun _ => .pure _) fun _ =>
    .ite (fun _ => .pure _) fun _ => .pure _

theorem says_activated (ctx : Upgrade) : Moves (Says harmless) (activated B env ctx) := by
  have hactivate : Moves (Says harmless) (activate B env) :=
    .bind (says_send (harmless_of_cmd (by decide) (by decide))) fun o =>
      says_finishLong (harmless_of_cmd (by decide) (by decide)) o
  refine .bind hactivate fun ok => .ite (fun _ => .pure _) fun _ =>
    .ite (fun _ => .bind (says_patiently says_selftestTurn) fun o => ?_) fun _ => .pure _
  rcases o with _ | result <;> exact .pure _

theorem says_activationStage (ctx : Upgrade) : Moves (Says harmless) (activationStage B env ctx) :=
  .bind (says_activated ctx) fun _ => .ite (fun _ => says_patiently says_rollbackTurn) fun _ =>
    .pure _

/-- In view mode an upgrade only asks questions, and activates if it is told to. -/
theorem says_upgrade_view (md5 : List UInt8 → List UInt8) (fuel : ℕ) (image : List UInt8)
    (activateAfter : Bool) (selected : ℕ) {mode : Mode} (hview : mode.view = true)
    (versions : Versions) : Moves (Says harmless)
      (upgrade B env md5 fuel image activateAfter selected mode versions) := by
  unfold upgrade
  rcases validateImage md5 image with _ | header
  · exact .pure _
  have hprepared : Moves (Says harmless)
      (prepared B env fuel image header mode selected versions) := by
    refine .bind (says_preparation _ _) fun o => ?_
    rcases o with _ | ctx
    · exact .pure _
    dsimp only
    rcases precheck ctx mode selected versions with _ | ctx
    · exact .pure _
    dsimp only
    rw [if_pos hview]
    exact .pure _
  refine .bind hprepared fun o => ?_
  rcases o with _ | ctx
  · exact .pure _
  exact .ite (fun _ => .bind (says_activationStage _) fun ok => .pure _) fun _ => .pure _

end

/-! ### The selection is respected -/

/-- Whatever the target answers, the upgrade stage keeps to the mask. -/
def StageRespects (env : Env) (ctx : Upgrade) (mode : Mode) : Prop :=
  ∀ (β : Type) (B : Bmc β) (fuel : ℕ) (w w' : CmdWorld Vars β) (s : Bool ×
    Upgrade) (evs : List Exchange),
    upgradeStage B env fuel ctx mode w = .ok (s, w') → w'.log = w.log ++ evs → Respects ctx.mask evs

/-- In view mode no action and no block is requested. -/
def ViewHarmless (env : Env) (md5 : List UInt8 → List UInt8) (image : List UInt8) (selected : ℕ)
    (mode : Mode) (versions : Versions) : Prop :=
  mode.view = true → ∀ (β : Type) (B : Bmc β) (fuel : ℕ) (activateAfter : Bool)
    (w w' : CmdWorld Vars β) (rc : ℤ) (evs : List Exchange),
    upgrade B env md5 fuel image activateAfter selected mode versions w = .ok (rc, w') →
    w'.log = w.log ++ evs → ∀ x ∈ evs, harmless x

/-- The mask that the pre-check computes is respected exactly if every record that is uploaded names
components of the mask only; where no block can be sent at all, nothing is uploaded. -/
theorem upgradeStage_respects_iff (env : Env) (md5 : List UInt8 → List UInt8) (selected : ℕ)
    (mode : Mode) (versions : Versions) (ctx₀ ctx : Upgrade)
    (h : precheck ctx₀ mode selected versions = some ctx) :
    (StageRespects env ctx mode ∧ ViewHarmless env md5 ctx₀.image selected mode versions) ↔
      (env.maxRequest.toNat ≤ 2 ∨ ∀ r ∈ (records ctx₀.image ctx₀.header).1, r.kind = 2 →
        bit ctx.mask r.component → within r.components ctx.mask) := by
  have hkeeps := precheck_keeps h
  rw [show ctx₀.image = ctx.image by rw [hkeeps], show ctx₀.header = ctx.header by rw [hkeeps]]
  constructor
  · rintro ⟨hstage, -⟩
    by_cases hmax : env.maxRequest.toNat ≤ 2
    · exact .inl hmax
    refine .inr fun r hr hkind hbit => ?_
    obtain ⟨fuel, hfuel⟩ : ∃ fuel, ∀ r ∈ (records ctx.image ctx.header).1,
        r.payload.length < fuel := by
      induction (records ctx.image ctx.header).1 with
      | nil => exact ⟨0, by simp⟩
      | cons r rs ih =>
        obtain ⟨n, hn⟩ := ih
        refine ⟨max n (r.payload.length + 1), fun r' hr' => ?_⟩
        rcases List.mem_cons.mp hr' with rfl | hr'
        · omega
        · have := hn r' hr'
          omega
    obtain ⟨ctx', w', evs, hrun, hlog, hreq⟩ := stageLoop_agreeable env fuel mode (by omega)
      (records ctx.image ctx.header).1 ctx ⟨{}, (), []⟩ hfuel
    obtain ⟨kind, hmem⟩ := hreq r hr hkind hbit
    have hresp := hstage Unit agreeable fuel ⟨{}, (), []⟩ w' _ evs
      (bind_ok.mpr ⟨_, w', hrun, pure_ok.mpr ⟨rfl, rfl⟩⟩) hlog
    exact hresp.1 _ hmem ⟨rfl, rfl⟩
  · intro hcond
    refine ⟨?_, ?_⟩
    · intro β B fuel w w' s evs hrun hlog
      have hmoves : Moves (Keeps ctx.mask) (upgradeStage B env fuel ctx mode) :=
        .bind (keeps_stageLoop rfl hcond) fun _ => .pure _
      obtain ⟨evs', hlog', hresp⟩ := hmoves w s w' hrun
      rwa [List.append_cancel_left (hlog.symm.trans hlog')]
    · intro hview β B fuel activateAfter w w' rc evs hrun hlog
      obtain ⟨evs', hlog', hall⟩ :=
        says_upgrade_view md5 fuel ctx.image activateAfter selected hview versions w rc w' hrun
      rwa [List.append_cancel_left (hlog.symm.trans hlog')]

/-! ### Examples -/

/-- An image for two components with one record, which uploads a byte to the components of `mask`;
`sum` and `digest` are its checksum and its hash. -/
def sampleImage (mask sum : UInt8) (digest : List UInt8) : List UInt8 :=
  Lib.Bytes.ascii "PICMGFWU" ++ [0, 0x20] ++ List.replicate 10 0 ++ [3] ++
    List.replicate 13 0 ++ [0x7b] ++
    [2, mask, sum, 1] ++ List.replicate 26 0 ++ [1, 0, 0, 0, 0xaa] ++ digest

/-- The hash of the image whose record names both components. -/
def digestBoth : List UInt8 :=
  [0xe5, 0x83, 0x06, 0x94, 0x4f, 0xba, 0x5d, 0x6f, 0xf0, 0xda, 0x7e, 0xab, 0x6b, 0x0a, 0x7f, 0x93]

/-- The hash of the image whose record names the second component. -/
def digestSecond : List UInt8 :=
  [0xb3, 0x31, 0x63, 0xa5, 0xed, 0x43, 0x6f, 0x4d, 0x46, 0x23, 0xaf, 0xcf, 0xc4, 0x37, 0x66, 0x8b]

def sampleHeader : Header := { device := 0x20, components := 3, firstRecord := 35 }

/-- The only record of the image. -/
def sampleRecord (mask : UInt8) : Record :=
  { kind := 2, components := mask, component := 1, version := [1, 0, 0, 0, 0, 0],
    payload := [0xaa] }

/-- A target with both components; `update` is the mask so far. -/
def sampleUpgrade (image : List UInt8) (update : UInt8) : Upgrade where
  image
  header := sampleHeader
  target := { components := 3 }
  mask := update

/-- The image whose record names both components. -/
def imageBoth : List UInt8 := sampleImage 3 0xfb digestBoth

/-- The image whose record names the second component. -/
def imageSecond : List UInt8 := sampleImage 2 0xfc digestSecond

theorem records_both : records imageBoth sampleHeader = ([sampleRecord 3], true) := by
  decide +kernel

theorem records_second : records imageSecond sampleHeader = ([sampleRecord 2], true) := by
  decide +kernel

/-- The second component is to be updated. -/
theorem precheck_sample {image : List UInt8} {mask : UInt8} (hm : mask = 2 ∨ mask = 3)
    (h : records image sampleHeader = ([sampleRecord mask], true)) :
    precheck (sampleUpgrade image 0) {} 2 (fun _ => {}) = some (sampleUpgrade image 2) := by
  have hrecords : records (sampleUpgrade image 0).image (sampleUpgrade image 0).header =
    ([sampleRecord mask], true) := h
  rw [precheck, hrecords]
  have hbit : (1 : UInt8) <<< 1 = 2 := by decide
  rcases hm with rfl | rfl <;>
    simp [precheckLoop, sampleRecord, sampleUpgrade, upgradable, hbit]

/-- The user names the second component only, and the upload is requested for both. -/
theorem upgradeStage_exceeds :
    validateImage (fun _ => digestBoth) imageBoth = some sampleHeader ∧
    precheck (sampleUpgrade imageBoth 0) {} 2 (fun _ => {}) = some (sampleUpgrade imageBoth 2) ∧
    ¬ StageRespects ⟨false, true, 40⟩ (sampleUpgrade imageBoth 2) {} := by
  refine ⟨by decide +kernel, precheck_sample (.inr rfl) records_both, fun h => ?_⟩
  obtain ⟨ctx', w', evs, hrun, hlog, hreq⟩ := stageLoop_agreeable ⟨false, true, 40⟩ 2 {} (by decide)
    [sampleRecord 3] (sampleUpgrade imageBoth 2) ⟨{}, (), []⟩ (by decide)
  obtain ⟨kind, hmem⟩ := hreq _ List.mem_cons_self rfl (by decide)
  have hrecords : records (sampleUpgrade imageBoth 2).image (sampleUpgrade imageBoth 2).header =
    ([sampleRecord 3], true) := records_both
  have hresp := h Unit agreeable 2 ⟨{}, (), []⟩ w' _ evs
    (bind_ok.mpr ⟨_, w', by rw [hrecords]; exact hrun, pure_ok.mpr ⟨rfl, rfl⟩⟩) hlog
  have hwithin : within 3 2 := hresp.1 _ hmem ⟨rfl, rfl⟩
  revert hwithin
  decide

/-- An image whose record names the second component only. -/
theorem upgradeStage_respects_iff_second :
    precheck (sampleUpgrade imageSecond 0) {} 2 (fun _ => {}) = some (sampleUpgrade imageSecond 2) ∧
    StageRespects ⟨false, true, 40⟩ (sampleUpgrade imageSecond 2) {} := by
  have hpre := precheck_sample (.inl rfl) records_second
  refine ⟨hpre, ((upgradeStage_respects_iff ⟨false, true,
    40⟩ (fun _ => digestSecond) 2 {} (fun _ => {})
    _ _ hpre).mpr (.inr fun r hr _ _ => ?_)).1⟩
  have hrecords : records (sampleUpgrade imageSecond 0).image (sampleUpgrade imageSecond 0).header =
    ([sampleRecord 2], true) := records_second
  rw [hrecords] at hr
  rw [List.mem_singleton.mp hr]
  decide

end Ipmitool.Hpm.Selection
