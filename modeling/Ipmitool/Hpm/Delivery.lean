import Ipmitool.Hpm.Honesty

/-! # The blocks of an upload

The loop of `uploadFirmware` as a run: `Sends` lists the blocks that were sent, with where the
transfer stood and what became of each, for a loop that has not come to its end as well.

As long as the target names no section, the transfer stands behind the bytes that were acknowledged
(`Stands`). So the acknowledged bytes are a beginning of the payload at every moment, a block that
was not taken is sent again from the same place with the same number, and the end of the upload is
announced only for the whole payload. -/

namespace Ipmitool.Hpm.Delivery

open Ipmitool.Lib.Bytes Ipmitool.Lib.Machine Ipmitool.Lib.Dialogue
open Ipmitool.Core.Types Ipmitool.Core.Interface Ipmitool.Hpm.Agent Ipmitool.Hpm.Image
open Ipmitool.Hpm.Upgrade Ipmitool.Hpm.Honesty

/-! ### Runs of the loop -/

/-- A block that was sent: where the transfer stood, what was said, and what became of the block. -/
structure Sent where
  transfer : Transfer
  said : List Exchange
  result : BlockResult

/-- The bytes of the request for the next block. -/
def request (payload : List UInt8) (t : Transfer) : List UInt8 := [0, t.block] ++ t.chunk payload

/-- Something of the section is left. -/
def Open (t : Transfer) : Prop := t.position < t.sectionStart + t.sectionLength

instance (t : Transfer) : Decidable (Open t) :=
  inferInstanceAs (Decidable (t.position < t.sectionStart + t.sectionLength))

variable {β : Type} (B : Bmc β) (env : Env)

/-- Where the transfer stands after a block; none if the upload fails. -/
def next (payload : List UInt8) (t : Transfer) : BlockResult → Option Transfer
  | .ok offset length => t.advance payload.length (t.chunk payload).length offset length
  | .resize => t.shrink env
  | .retry => some t
  | .failed => none

/-- A turn of the loop that sends a block. -/
structure Turn (payload : List UInt8) (t : Transfer) (w : CmdWorld Vars β) (s : Sent)
    (w' : CmdWorld Vars β) : Prop where
  isOpen : Open t
  here : s.transfer = t
  sent : uploadBlock B env (request payload t) w = .ok (s.result, w')
  log : w'.log = w.log ++ s.said

/-- The loop sends these blocks, and then the transfer stands there (none if the upload has
failed). -/
inductive Sends (payload : List UInt8) :
    Transfer → CmdWorld Vars β → List Sent → Option Transfer → CmdWorld Vars β → Prop
  | nil (t : Transfer) (w : CmdWorld Vars β) : Sends payload t w [] (some t) w
  | last {t : Transfer} {w w1 : CmdWorld Vars β} {s : Sent} (turn : Turn B env payload t w s w1)
      (ends : next env payload t s.result = none) : Sends payload t w [s] none w1
  | cons {t t1 : Transfer} {w w1 w2 : CmdWorld Vars β} {s : Sent} {ss : List Sent}
    {e : Option Transfer}
      (turn : Turn B env payload t w s w1) (goes : next env payload t s.result = some t1)
      (rest : Sends payload t1 w1 ss e w2) : Sends payload t w (s :: ss) e w2

variable {B} {env} {payload : List UInt8} {t t' : Transfer} {w w' : CmdWorld Vars β}
  {ss : List Sent}
  {e : Option Transfer}

theorem uploadLoop_succ (fuel : ℕ) : uploadLoop B env payload (fuel + 1) t =
    if Open t then do
      let res ← uploadBlock B env (request payload t)
      (next env payload t res).elim (pure none) (uploadLoop B env payload fuel)
    else pure (some t.totalSent) := by
  rw [uploadLoop]
  refine if_congr Iff.rfl ?_ rfl
  refine congrArg (bind (uploadBlock B env (request payload t))) (funext fun res => ?_)
  rcases res with ⟨offset, length⟩ | _ | _ | _
  · dsimp only [next]
    rcases t.advance payload.length (t.chunk payload).length offset length with _ | t' <;> rfl
  · dsimp only [next]
    rcases t.shrink env with _ | t' <;> rfl
  · rfl
  · rfl

theorem uploadBlock_turn {res : BlockResult} (hopen : Open t)
    (h : uploadBlock B env (request payload t) w = .ok (res, w')) :
    ∃ said, Turn B env payload t w ⟨t, said, res⟩ w' := by
  obtain ⟨said, hlog, -⟩ := uploadBlock_ok h
  exact ⟨said, hopen, rfl, h, hlog⟩

/-- What the loop does is such a run, and it has the number of bytes sent if the transfer has come
to the end of its section. -/
theorem uploadLoop_sends : ∀ {fuel : ℕ} {t : Transfer} {w : CmdWorld Vars β} {o : Option ℕ},
    uploadLoop B env payload fuel t w = .ok (o, w') → ∃ ss e, Sends B env payload t w ss e w' ∧
      ∀ sent ∈ o, ∃ t' ∈ e, ¬ Open t' ∧ sent = t'.totalSent
  | 0, t, w, o, h => by
    obtain ⟨rfl, rfl⟩ := pure_ok.mp h
    exact ⟨[], some t, .nil t w, by simp⟩
  | fuel + 1, t, w, o, h => by
    rw [uploadLoop_succ] at h
    split_ifs at h with hopen
    · obtain ⟨res, w1, hres, h⟩ := bind_ok.mp h
      obtain ⟨said, hturn⟩ := uploadBlock_turn hopen hres
      rcases hnext : next env payload t res with _ | t1 <;> rw [hnext] at h
      · obtain ⟨rfl, rfl⟩ := pure_ok.mp h
        exact ⟨[⟨t, said, res⟩], none, .last hturn hnext, by simp⟩
      · obtain ⟨ss, e, hss, hend⟩ := uploadLoop_sends h
        exact ⟨⟨t, said, res⟩ :: ss, e, .cons hturn hnext hss, hend⟩
    · obtain ⟨rfl, rfl⟩ := pure_ok.mp h
      refine ⟨[], some t, .nil t w, fun sent hsent => ⟨t, rfl, hopen, ?_⟩⟩
      exact (Option.mem_some_iff.mp hsent).symm

theorem Sends.split : ∀ {pre : List Sent} {t : Transfer} {w : CmdWorld Vars β} {s : Sent}
    {post : List Sent}, Sends B env payload t w (pre ++ s :: post) e w' → ∃ w1,
      Sends B env payload t w pre (some s.transfer) w1 ∧
        Sends B env payload s.transfer w1 (s :: post) e w'
  | [], t, w, s, post, h => by
    have hhere : s.transfer = t := by
      cases h with
      | last turn _ => exact turn.here
      | cons turn _ _ => exact turn.here
    rw [hhere]
    exact ⟨w, .nil t w, h⟩
  | p :: pre, t, w, s, post, h => by
    rw [List.cons_append] at h
    generalize hss : pre ++ s :: post = ss at h
    cases h with
    | last _ _ => simp at hss
    | cons turn goes rest =>
      subst hss
      obtain ⟨w1, hpre, hpost⟩ := Sends.split rest
      exact ⟨w1, .cons turn goes hpre, hpost⟩

/-- Of two blocks in a row, the second is sent where the first one led to. -/
theorem Sends.consecutive {pre post : List Sent} {a b : Sent}
    (h : Sends B env payload t w (pre ++ a :: b :: post) e w') :
    next env payload a.transfer a.result = some b.transfer := by
  obtain ⟨w1, -, h⟩ := Sends.split h
  cases h with
  | cons turn goes rest =>
    cases rest with
    | last turn _ => rwa [turn.here]
    | cons turn _ _ => rwa [turn.here]

theorem Sends.log (h : Sends B env payload t w ss e w') :
    w'.log = w.log ++ (ss.map Sent.said).flatten := by
  induction h with
  | nil t w => simp
  | last turn _ => simpa using turn.log
  | cons turn _ _ ih => rw [ih, turn.log, List.append_assoc, List.map_cons, List.flatten_cons]

theorem Sends.turn (h : Sends B env payload t w ss e w') :
    ∀ s ∈ ss, ∃ w1 w2, Turn B env payload s.transfer w1 s w2 := by
  induction h with
  | nil t w => simp
  | last turn _ =>
    intro s hs
    rw [List.mem_singleton.mp hs, turn.here]
    exact ⟨_, _, turn⟩
  | cons turn _ _ ih =>
    intro s hs
    rcases List.mem_cons.mp hs with rfl | hs
    · rw [turn.here]
      exact ⟨_, _, turn⟩
    · exact ih s hs

/-- For a block its request is sent, and the status is asked for. -/
def ForBlock (data : List UInt8) (x : Exchange) : Prop :=
  x.1 = blockRequest data ∨ x.1 = statusRequest

theorem says_forBlock (data : List UInt8) : Moves (Says (ForBlock data))
    (uploadBlock B env data) := by
  have hstatus : ∀ o, ForBlock data (hpmCommand 0x34 [0], o) := fun o => .inr rfl
  refine .bind (says_send fun o => .inl rfl) fun o => ?_
  rcases o with _ | r
  · exact .pure _
  refine .ite (fun _ => .pure _) fun _ => ?_
  refine .ite (fun _ => .bind (says_waitLong hstatus) fun b => ?_) fun _ =>
    .ite (fun _ => .pure _) fun _ => .bind (says_of_log retryable_log) fun b => ?_
  · exact .ite (fun _ => .pure _) fun _ => .pure _
  · exact .ite (fun _ => .pure _) fun _ => .ite (fun _ => .pure _) fun _ => .pure _

theorem Sends.said (h : Sends B env payload t w ss e w') :
    ∀ s ∈ ss, ∀ x ∈ s.said, ForBlock (request payload s.transfer) x := by
  intro s hs
  obtain ⟨w1, w2, hturn⟩ := h.turn s hs
  obtain ⟨evs, hevs, hall⟩ := says_forBlock _ _ _ _ hturn.sent
  rwa [List.append_cancel_left (hturn.log.symm.trans hevs)]

/-! ### Without sections -/

/-- The block was not taken, and the upload goes on. -/
def Sent.Again (s : Sent) : Prop := s.result = .retry ∨ s.result = .resize

/-- The target does not name a section. -/
def Sent.Direct (s : Sent) : Prop := ∀ offset length, s.result = .ok offset length → offset = 0

/-- The result says that the block was taken. -/
def isOk : BlockResult → Bool
  | .ok _ _ => true
  | _ => false

/-- The bytes of the blocks that were taken, in order. -/
def taken (payload : List UInt8) (ss : List Sent) : List UInt8 :=
  (ss.filter fun s => isOk s.result).flatMap fun s => s.transfer.chunk payload

/-- How many blocks were taken. -/
def oks (ss : List Sent) : ℕ := ss.countP fun s => isOk s.result

theorem taken_append (a b : List Sent) : taken payload (a ++ b) =
    taken payload a ++ taken payload b := by
  simp [taken]

theorem taken_single (s : Sent) :
    taken payload [s] = if isOk s.result then s.transfer.chunk payload else [] := by
  unfold taken
  split_ifs with h <;> simp [h]

/-- Where the transfer stands when these blocks were sent and no section was named. -/
structure Stands (payload : List UInt8) (ss : List Sent) (t : Transfer) : Prop where
  start : t.sectionStart = 0
  length : t.sectionLength = payload.length
  inside : t.position ≤ payload.length
  taken : taken payload ss = payload.take t.position
  total : t.totalSent = t.position
  block : t.block = UInt8.ofNat (oks ss)

theorem Stands.fits (h : Stands payload ss t) : Fits t payload := by
  unfold Fits
  rw [h.start, h.length, Nat.zero_add]
  exact ⟨h.inside, Nat.le_refl _⟩

/-- The next block has the bytes behind those that were acknowledged. -/
theorem Stands.chunk (h : Stands payload ss t) :
    payload.take t.position ++ t.chunk payload =
      payload.take (t.position + (t.chunk payload).length) := by
  rw [length_chunk h.fits, h.start, h.length, Nat.zero_add, Transfer.chunk, h.start, h.length,
    Nat.zero_add, ← List.take_add]

theorem shrink_eq (h : t.shrink env = some t') : ∃ size, t' = { t with chunkSize := size } := by
  unfold Transfer.shrink at h
  generalize (if env.lan ∧ 8 < t.chunkSize then t.chunkSize - 8 else t.chunkSize - 1) = size at h
  dsimp only at h
  split_ifs at h
  exact ⟨size, (Option.some.inj h).symm⟩

theorem advance_eq {size count length : ℕ} (h : t.advance size count 0 length = some t') :
    t' = { t with
      sizeKnown := true, totalSent := t.totalSent + count, position := t.position + count
      block := t.block + 1 } := by
  unfold Transfer.advance at h
  dsimp only at h
  split_ifs at h with h1 h2 h3
  · exact (h3 rfl).elim
  · exact (Option.some.inj h).symm

/-- A block that was not taken changes nothing but perhaps the size of the next block. -/
theorem next_again {s : Sent} (hs : s.Again) (h : next env payload s.transfer s.result = some t') :
    ∃ size, t' = { s.transfer with chunkSize := size } := by
  rcases hs with hs | hs <;> rw [hs] at h
  · exact ⟨s.transfer.chunkSize, (Option.some.inj h).symm⟩
  · exact shrink_eq h

/-- Behind a block that was taken the transfer stands behind its bytes. -/
theorem Stands.take {s : Sent} {length : ℕ} (h : Stands payload ss s.transfer)
    (hres : s.result = .ok 0 length) (hnext : next env payload s.transfer s.result = some t') :
    Stands payload (ss ++ [s]) t' := by
  have hok : isOk s.result = true := by rw [hres]; rfl
  rw [hres] at hnext
  have hlen := length_chunk h.fits
  rw [h.start, h.length] at hlen
  have hinside := h.inside
  obtain rfl := advance_eq hnext
  refine ⟨h.start, h.length, ?_, ?_, by rw [h.total], ?_⟩
  · dsimp only
    omega
  · rw [taken_append, h.taken, taken_single, if_pos hok, h.chunk]
  · rw [oks, List.countP_append, List.countP_singleton, if_pos hok, h.block]
    exact UInt8.ofNat_add .. |>.symm

theorem Stands.again {s : Sent} (h : Stands payload ss s.transfer) (hs : s.Again)
    (hnext : next env payload s.transfer s.result = some t') : Stands payload (ss ++ [s]) t' := by
  have hok : ¬ isOk s.result = true := by rcases hs with hs | hs <;> rw [hs] <;> decide
  obtain ⟨size, rfl⟩ := next_again hs hnext
  refine ⟨h.start, h.length, h.inside, ?_, h.total, ?_⟩
  · rw [taken_append, h.taken, taken_single, if_neg hok, List.append_nil]
  · rw [oks, List.countP_append, List.countP_singleton, if_neg hok, h.block]
    rfl

/-- What a turn does: the transfer stands behind what was acknowledged again. -/
theorem Stands.step {s : Sent} (h : Stands payload ss s.transfer) (hdirect : s.Direct)
    (hnext : next env payload s.transfer s.result = some t') : Stands payload (ss ++ [s]) t' := by
  rcases hres : s.result with ⟨offset, length⟩ | _ | _ | _
  · obtain rfl := hdirect offset length hres
    exact h.take hres hnext
  · exact h.again (.inr hres) hnext
  · exact h.again (.inl hres) hnext
  · rw [hres] at hnext
    cases hnext

theorem Sends.stands (h : Sends B env payload t w ss e w') : ∀ {done : List Sent},
    Stands payload done t → (∀ s ∈ ss, s.Direct) → ∀ t' ∈ e, Stands payload (done ++ ss) t' := by
  induction h with
  | nil t w =>
    intro done ht _ t' ht'
    rw [List.append_nil, ← Option.mem_some_iff.mp ht']
    exact ht
  | last _ _ => exact fun _ _ _ ht' => absurd ht' (Option.not_mem_none _)
  | @cons t t1 w w1 w2 s ss e turn goes _ ih =>
    intro done ht hdirect t' ht'
    have hstep : Stands payload (done ++ [s]) t1 := by
      rw [← turn.here] at ht goes
      exact ht.step (hdirect s List.mem_cons_self) goes
    have hrun := ih hstep (fun s' hs' => hdirect s' (List.mem_cons_of_mem _ hs')) t' ht'
    rwa [List.append_assoc] at hrun

/-! ### The payload -/

/-- The blocks deliver the payload: what was taken is a beginning of it at every moment, every block
has the number of blocks that were taken before it, and a block that was not taken is sent again
from the same place with the same number. -/
structure Delivers (payload : List UInt8) (ss : List Sent) : Prop where
  beginning : ∀ pre, pre <+: ss → taken payload pre <+: payload
  numbered : ∀ pre s post, ss = pre ++ s :: post → s.transfer.block = UInt8.ofNat (oks pre)
  resent : ∀ pre a b post, ss = pre ++ a :: b :: post → a.Again →
    b.transfer.position = a.transfer.position ∧ b.transfer.block = a.transfer.block

/-- Where an upload begins. -/
def initial (env : Env) (payload : List UInt8) : Transfer :=
  { chunkSize := env.maxRequest.toNat - 2, sectionLength := payload.length }

theorem stands_initial (env : Env) (payload : List UInt8) :
    Stands payload [] (initial env payload) :=
  ⟨rfl, rfl, Nat.zero_le _, rfl, rfl, rfl⟩

theorem Sends.stands_before {pre post : List Sent} {s : Sent}
    (h : Sends B env payload (initial env payload) w ss e w') (hdirect : ∀ s ∈ ss, s.Direct)
    (hss : ss = pre ++ s :: post) : Stands payload pre s.transfer := by
  subst hss
  obtain ⟨w1, hpre, -⟩ := h.split
  exact hpre.stands (stands_initial env payload) (fun s' hs' =>
    hdirect s' (List.mem_append_left _ hs')) _ rfl

theorem Sends.delivers (h : Sends B env payload (initial env payload) w ss e w')
    (hdirect : ∀ s ∈ ss, s.Direct) : Delivers payload ss := by
  refine ⟨?_, fun pre s post hss => (h.stands_before hdirect hss).block, ?_⟩
  · rintro pre ⟨post, hss⟩
    rcases List.eq_nil_or_concat pre with rfl | ⟨ini, s, rfl⟩
    · exact List.nil_prefix
    · rw [List.concat_eq_append] at hss ⊢
      have hstands : Stands payload ini s.transfer :=
        h.stands_before hdirect (by rw [← hss, List.append_assoc]; rfl)
      rw [taken_append, hstands.taken, taken_single]
      split_ifs
      · rw [hstands.chunk]
        exact List.take_prefix _ _
      · rw [List.append_nil]
        exact List.take_prefix _ _
  · rintro pre a b post hss ha
    subst hss
    obtain ⟨size, hb⟩ := next_again ha h.consecutive
    rw [hb]
    exact ⟨rfl, rfl⟩

/-- A transfer that has come to its end has delivered the whole payload. -/
theorem Sends.whole (h : Sends B env payload (initial env payload) w ss e w')
    (hdirect : ∀ s ∈ ss, s.Direct) (ht' : t' ∈ e) (hend : ¬ Open t') :
    taken payload ss = payload ∧ t'.totalSent = payload.length := by
  have hstands := h.stands (stands_initial env payload) hdirect t' ht'
  have hpos : t'.position = payload.length := by
    have := hstands.inside
    unfold Open at hend
    rw [hstands.start, hstands.length] at hend
    omega
  refine ⟨?_, hstands.total.trans hpos⟩
  have htaken := hstands.taken
  rwa [List.nil_append, hpos, List.take_length] at htaken

/-! ### The upload of a record -/

/-- Nothing is sent, and no end is announced. -/
def Elsewhere (x : Exchange) : Prop := x.1.cmd ≠ 0x32 ∧ x.1.cmd ≠ 0x33

/-- At the end of an upload its end is announced, and the status is asked for. -/
def ForFinish (component sent : ℕ) (x : Exchange) : Prop :=
  x.1 = finishRequest component sent ∨ x.1 = statusRequest

theorem elsewhere_of_cmd {cmd : UInt8} {bytes : List UInt8} {o : Option Reply} (hblock : cmd ≠ 0x32)
    (hfinish : cmd ≠ 0x33) : Elsewhere (hpmCommand cmd bytes, o) := ⟨hblock, hfinish⟩

theorem says_elsewhere (mask kind : UInt8) : Moves (Says Elsewhere) (action B env mask kind) :=
  .bind (says_send fun _ => elsewhere_of_cmd (by decide) (by decide)) fun o =>
    says_finishLong (fun _ => elsewhere_of_cmd (by decide) (by decide)) o

theorem says_forFinish (component sent : ℕ) (mode : Mode) :
    Moves (Says (ForFinish component sent)) (finishUpload B env component sent mode) := by
  refine .bind (says_send fun o => .inl rfl) fun o => ?_
  rcases o with _ | r
  · exact .pure _
  · exact .ite (fun _ => says_waitLong fun _ => .inr rfl) fun _ => .pure _

/-- The exchanges of the upload of a record: what comes first, the blocks, and what comes last. As
long as no section is named, the blocks deliver the payload, and the end of the upload is announced
only if all of the payload was taken, with its length. -/
def Exact (B : Bmc β) (env : Env) (r : Record) (evs : List Exchange) : Prop :=
  ∃ start ss finish w1 e w2, evs = start ++ (ss.map Sent.said).flatten ++ finish ∧
    (∀ x ∈ start, Elsewhere x) ∧ Sends B env r.payload (initial env r.payload) w1 ss e w2 ∧
    (∀ s ∈ ss, ∀ x ∈ s.said, ForBlock (request r.payload s.transfer) x) ∧
    (∀ x ∈ finish, x.1.cmd ≠ 0x32) ∧
    ((∀ s ∈ ss, s.Direct) → Delivers r.payload ss ∧ ∀ x ∈ finish, x.1.cmd = 0x33 →
      x.1 = finishRequest r.component r.payload.length ∧ taken r.payload ss = r.payload)

theorem exact_of_elsewhere {r : Record} {evs : List Exchange} (w : CmdWorld Vars β)
    (h : ∀ x ∈ evs, Elsewhere x) : Exact B env r evs :=
  ⟨evs, [], [], w, some (initial env r.payload), w, by simp, h, .nil _ _, by simp, by simp,
    fun hdirect => ⟨(Sends.nil (B := B) (initial env r.payload) w).delivers hdirect, by simp⟩⟩

/-- The upload of a record is exact. -/
theorem uploadFirmware_exact {fuel : ℕ} {ctx : Upgrade} {r : Record} {mode : Mode} {b : Bool}
    (h : uploadFirmware B env fuel ctx r mode w = .ok (b, w')) :
    ∃ evs, w'.log = w.log ++ evs ∧ Exact B env r evs := by
  unfold uploadFirmware at h
  by_cases hbit : ¬ bit ctx.mask r.component
  · rw [if_pos hbit] at h
    obtain ⟨-, rfl⟩ := pure_ok.mp h
    exact ⟨[], by simp, exact_of_elsewhere w (by simp)⟩
  rw [if_neg hbit] at h
  by_cases hmax : env.maxRequest.toNat ≤ 2
  · rw [if_pos hmax] at h
    obtain ⟨-, rfl⟩ := pure_ok.mp h
    exact ⟨[], by simp, exact_of_elsewhere w (by simp)⟩
  rw [if_neg hmax] at h
  obtain ⟨began, w1, hw1, h⟩ := bind_ok.mp h
  obtain ⟨start, hstart, helse⟩ := says_elsewhere _ _ _ _ _ hw1
  rcases began with _ | _
  · obtain ⟨-, rfl⟩ := pure_ok.mp h
    exact ⟨start, hstart, exact_of_elsewhere w helse⟩
  obtain ⟨o, w2, hw2, h⟩ := bind_ok.mp h
  obtain ⟨ss, e, hss, hend⟩ := uploadLoop_sends hw2
  rcases o with _ | sent
  · obtain ⟨-, rfl⟩ := pure_ok.mp h
    exact ⟨_, by rw [hss.log, hstart, List.append_assoc], start, ss, [], w1, e, w2, by simp,
      helse, hss,
      hss.said, by simp, fun hdirect => ⟨hss.delivers hdirect, by simp⟩⟩
  · obtain ⟨finish, hfinish, hasked⟩ := says_forFinish _ _ _ _ _ _ h
    refine ⟨_, by rw [hfinish, hss.log, hstart, List.append_assoc, List.append_assoc], start, ss,
      finish,
      w1, e, w2, by simp, helse, hss, hss.said, fun x hx => ?_, fun hdirect =>
      ⟨hss.delivers hdirect, fun x hx hcmd => ?_⟩⟩
    · rcases hasked x hx with hx | hx <;> rw [hx]
      · exact show (0x33 : UInt8) ≠ 0x32 by decide
      · exact show (0x34 : UInt8) ≠ 0x32 by decide
    · obtain ⟨t', ht', hclosed, rfl⟩ := hend sent rfl
      obtain ⟨hwhole, htotal⟩ := hss.whole hdirect ht' hclosed
      rcases hasked x hx with hx | hx
      · exact ⟨by rw [hx, htotal], hwhole⟩
      · rw [hx] at hcmd
        exact absurd hcmd (by decide)

/-- A record with three bytes for the first component. -/
def threeBytes : Record := { kind := 2, components := 1, payload := [7, 8, 9] }

/-- The exchanges of its upload with blocks of two bytes. -/
def threeBytesSent : List Exchange :=
  [(hpmCommand 0x31 [0, 1, 2], some (Reply.of [])), (blockRequest [0, 0, 7, 8], some (Reply.of [])),
    (blockRequest [0, 1, 9], some (Reply.of [])), (finishRequest 0 3, some (Reply.of []))]

theorem uploadFirmware_exact_three :
    ∃ evs, threeBytesSent = [] ++ evs ∧ Exact Selection.agreeable ⟨true, true,
      4⟩ threeBytes evs := by
  have hrun : uploadFirmware Selection.agreeable ⟨true, true, 4⟩ 3
      { image := [], header := {}, mask := 1 } threeBytes {} { vars := {}, device := () } =
      .ok (true, { vars := { validUploadSize := true }, device := (), log := threeBytesSent }) :=
        rfl
  exact uploadFirmware_exact hrun

end Ipmitool.Hpm.Delivery
