import Ipmitool.Hpm.Selection
import Ipmitool.Lib.Mealy

/-! # What a successful upgrade says

What the target acknowledged is read off the exchanges: a block is acknowledged by the completion
code zero, or by the code for a command in progress and a later status with the code zero.
`acknowledged` collects the bytes of these blocks.

A target may answer a block with a section of the payload that it wants next; then the bytes in
between are never sent. `upgrade_honest` says what is behind a return value of zero: of every record
that was to be uploaded, all bytes were acknowledged, or all bytes of the section that the target
asked for last, and its end was accepted; and if there was no question about a rollback, the
activation was accepted and the self test passed. -/

namespace Ipmitool.Hpm.Honesty

open Ipmitool.Lib Ipmitool.Lib.Bytes Ipmitool.Lib.Machine Ipmitool.Lib.Dialogue
open Ipmitool.Core.Types Ipmitool.Core.Interface Ipmitool.Hpm.Agent Ipmitool.Hpm.Image
open Ipmitool.Hpm.Upgrade Ipmitool.Hpm.Selection

/-! ### Acknowledgements -/

/-- The question about the status of the last command. -/
def statusRequest : Command := hpmCommand 0x34 [0]

/-- The status of the last command is the completion code zero. -/
def confirms : Option Reply → Bool
  | none => false
  | some r => r.ccode = 0 ∧ 3 ≤ r.dataLen ∧ r.dataLen ≤ bufSize ∧ r.data 2 = 0

/-- A response to a block is long enough for a section or names none. -/
def wellFormed (r : Reply) : Bool := r.dataLen ≤ 1 ∨ r.dataLen = 9

/-- The response to a block with this completion code. -/
def answers (code : UInt8) : Option Reply → Bool
  | none => false
  | some r => r.ccode = code ∧ wellFormed r

/-- One exchange: the bytes of the block in progress, and the bytes that are acknowledged. -/
def ackStep (pending : List UInt8) (x : Exchange) : List UInt8 × List UInt8 :=
  if x.1.cmd = 0x32 then
    if answers 0 x.2 then ([], x.1.data.drop 2)
    else if answers 0x80 x.2 then (x.1.data.drop 2, [])
    else ([], [])
  else if x.1 = statusRequest then
    if confirms x.2 then ([], pending) else (pending, [])
  else ([], [])

/-- The bytes that were acknowledged. -/
def acknowledged (evs : List Exchange) : List UInt8 := (Mealy.outputs ackStep [] evs).flatten

/-- The response to a block names a section of the payload that is to come next. -/
def Names (r : Reply) (start length : ℕ) : Prop :=
  (r.ccode = 0 ∨ r.ccode = 0x80) ∧ r.dataLen = 9 ∧ start ≠ 0 ∧
    start = (ofLe32 (r.data 1) (r.data 2) (r.data 3) (r.data 4)).toNat ∧
    length = (ofLe32 (r.data 5) (r.data 6) (r.data 7) (r.data 8)).toNat

/-- The target asks for a section of the payload. -/
def Asks (x : Exchange) (start length : ℕ) : Prop :=
  x.1.cmd = 0x32 ∧ ∃ r, x.2 = some r ∧ Names r start length

/-- The target asks for no section. -/
def Straight (evs : List Exchange) : Prop := ∀ x ∈ evs, ∀ start length, ¬ Asks x start length

/-- From the last section that the target asked for, all bytes were acknowledged. -/
def Resumed (payload : List UInt8) (evs : List Exchange) : Prop :=
  ∃ before x after start length, evs = before ++ x :: after ∧ Asks x start length ∧ Straight after ∧
    start + length ≤ payload.length ∧ acknowledged after = (payload.drop start).take length

/-- The payload was acknowledged: all of it, or all of the section that the target asked for
last. -/
def Uploaded (payload : List UInt8) (evs : List Exchange) : Prop :=
  (Straight evs ∧ acknowledged evs = payload) ∨ Resumed payload evs

/-- A request was accepted: at once, or it was in progress (or its response was lost) and then the
status was the completion code zero. -/
def Accepted (c : Command) (evs : List Exchange) : Prop := ∃ pre last post,
  evs = pre ++ (c, last) :: post ∧ ((∃ r, last = some r ∧ r.ccode = 0) ∨
    (∀ r ∈ last, r.ccode = 0x80) ∧ ∃ polls x rest, post = polls ++ x :: rest ∧
      (∀ y ∈ polls, y.1 = statusRequest) ∧ x.1 = statusRequest ∧ confirms x.2 = true)

/-! ### Waiting -/

section
variable {β : Type} {B : Bmc β} {env : Env} {w w' : CmdWorld Vars β}

theorem responseData_some {r : Reply} {d : List UInt8} (h : responseData r = some d) :
    r.dataLen ≤ bufSize ∧ d.length = r.dataLen ∧ ∀ i < r.dataLen, d.getD i 0 = r.data i := by
  unfold responseData at h
  split_ifs at h with hlen
  obtain rfl := Option.some.inj h
  refine ⟨by omega, by simp, fun i hi => ?_⟩
  simp [Mem.read, hi]

/-- What is returned for a request is its last response, or a response that stands for a missing
one. -/
theorem response_some {c : Command} {last : Option Reply} {v : Vars} {r : Reply}
    (h : some r = (response env c last v).1) : last = some r ∨ (last = none ∧ r.ccode ≠ 0 ∧
      (r.ccode = 0x80 → c.cmd = 0x35 ∨ c.cmd = 0x38)) := by
  rcases last with _ | r'
  · refine .inr ⟨rfl, ?_⟩
    simp only [response, substitute] at h
    split_ifs at h with h1 h2 h3 h4
    · obtain rfl := Option.some.inj h
      exact ⟨by simp, fun h => absurd h (by simp)⟩
    · obtain rfl := Option.some.inj h
      exact ⟨by simp, fun _ => h3⟩
    · obtain rfl := Option.some.inj h
      exact ⟨by simp, fun h => absurd h (by simp)⟩
  · exact .inl h.symm

theorem confirms_eq_false {o : Option Reply} (h : ∀ r ∈ o, r.ccode ≠ 0) : confirms o = false := by
  rcases o with _ | r
  · rfl
  · simp [confirms, h r rfl]

theorem says_nothing {α : Type} {x : Talk β α} {a : α} (hx : Moves (Says fun _ => False) x)
    (h : x w = .ok (a, w')) : w'.log = w.log := by
  obtain ⟨evs, hlog, hnone⟩ := hx w a w' h
  rw [hlog, List.eq_nil_iff_forall_not_mem.mpr fun x hx => hnone x hx, List.append_nil]

theorem statusOf_ok {r : Reply} {code : UInt8} (h : statusOf r w = .ok (some code, w')) :
    w'.log = w.log ∧ (code = 0 ↔ confirms (some r) = true) := by
  refine ⟨says_nothing (says_statusOf r) h, ?_⟩
  unfold statusOf at h
  split_ifs at h with hcc
  · rcases hd : responseData r with _ | d
    · rw [hd] at h
      obtain ⟨h, -⟩ := pure_ok.mp h
      cases h
    obtain ⟨hbuf, hlen, hget⟩ := responseData_some hd
    rw [hd] at h
    dsimp only at h
    split_ifs at h with hshort
    · obtain ⟨h, -⟩ := pure_ok.mp h
      cases h
    · obtain ⟨h, -⟩ := pure_ok.mp h
      rw [← Option.some.inj h, hget 2 (by omega)]
      simp only [confirms, hcc, decide_eq_true_eq, true_and]
      exact ⟨fun h => ⟨by omega, hbuf, h⟩, fun h => h.2.2⟩
  · -- an error that passes
    obtain ⟨b, t, hb, h⟩ := bind_ok.mp h
    split_ifs at h with hr
    · obtain ⟨h, -⟩ := pure_ok.mp h
      obtain rfl := Option.some.inj h
      simp [confirms, hcc]
    · obtain ⟨h, -⟩ := pure_ok.mp h
      cases h

/-- `getStatus` asks, and its last answer says whether the code is zero. -/
theorem getStatus_ok {code : UInt8} (h : getStatus B env w = .ok (some code, w')) : ∃ polls last,
    w'.log = w.log ++ (polls ++ [(statusRequest, last)]) ∧
    (∀ y ∈ polls, y.1 = statusRequest ∧ confirms y.2 = false) ∧
    (code = 0 ↔ confirms last = true) := by
  obtain ⟨o, t, ht, h⟩ := bind_ok.mp h
  obtain ⟨polls, last, v, hlog, hpolls, ho⟩ := sendCmd_log ht
  rcases o with _ | r
  · obtain ⟨h, -⟩ := pure_ok.mp h
    cases h
  obtain ⟨hlog', hcode⟩ := statusOf_ok h
  refine ⟨polls, last, by rw [hlog', hlog]; rfl, fun y hy => ⟨(hpolls y hy).1,
    confirms_eq_false fun r hr => ((hpolls y hy).2 r hr).1⟩, hcode.trans ?_⟩
  rcases response_some ho with rfl | ⟨rfl, hcc, -⟩
  · exact Iff.rfl
  · rw [confirms_eq_false fun r' hr' => by rwa [← Option.mem_some_iff.mp hr']]
    rfl

/-- Polls: questions about the status, of which only the last is answered with the code zero. -/
def Polls (evs : List Exchange) : Prop := ∃ polls last, evs = polls ++ [(statusRequest, last)] ∧
  (∀ y ∈ polls, y.1 = statusRequest ∧ confirms y.2 = false) ∧ confirms last = true

theorem Polls.cons {polls evs : List Exchange} {last : Option Reply} (h : Polls evs)
    (hpolls : ∀ y ∈ polls, y.1 = statusRequest ∧ confirms y.2 = false)
    (hlast : confirms last = false) :
    Polls (polls ++ [(statusRequest, last)] ++ evs) := by
  obtain ⟨polls', last', rfl, hpolls', hlast'⟩ := h
  refine ⟨polls ++ [(statusRequest, last)] ++ polls', last', by simp, fun y hy => ?_, hlast'⟩
  rcases List.mem_append.mp hy with hy | hy
  · rcases List.mem_append.mp hy with hy | hy
    · exact hpolls y hy
    · rw [List.mem_singleton.mp hy]
      exact ⟨rfl, hlast⟩
  · exact hpolls' y hy

theorem waitLoop_ok : ∀ {n : ℕ} {code : UInt8} {w w' : CmdWorld Vars β},
    waitLoop B env n code w = .ok (true, w') →
    (code = 0 ∧ w'.log = w.log) ∨ (code ≠ 0 ∧ ∃ evs, w'.log = w.log ++ evs ∧ Polls evs)
  | 0, code, w, w', h => by
    obtain ⟨hcode, hw⟩ := pure_ok.mp h
    exact .inl ⟨of_decide_eq_true hcode, by rw [hw]⟩
  | n + 1, code, w, w', h => by
    rw [waitLoop] at h
    split_ifs at h with hc
    · have hne : code ≠ 0 := by rcases hc with rfl | rfl <;> decide
      obtain ⟨o, t, ht, h⟩ := bind_ok.mp h
      rcases o with _ | code'
      · obtain ⟨h, -⟩ := pure_ok.mp h
        cases h
      obtain ⟨polls, last, hlog, hpolls, hlast⟩ := getStatus_ok ht
      refine .inr ⟨hne, ?_⟩
      rcases waitLoop_ok h with ⟨h0, hlog'⟩ | ⟨h0, evs, hlog', hevs⟩
      · exact ⟨_, by rw [hlog', hlog], polls, last, rfl, hpolls, hlast.mp h0⟩
      · exact ⟨_, by rw [hlog', hlog, List.append_assoc],
          hevs.cons hpolls (by simpa using fun hl => h0 (hlast.mpr hl))⟩
    · obtain ⟨hcode, hw⟩ := pure_ok.mp h
      exact .inl ⟨of_decide_eq_true hcode, by rw [hw]⟩

theorem waitLong_ok (h : waitLong B env w = .ok (true, w')) :
    ∃ evs, w'.log = w.log ++ evs ∧ Polls evs := by
  obtain ⟨n, t, ht, h⟩ := bind_ok.mp h
  obtain ⟨o, t', ht', h⟩ := bind_ok.mp h
  rcases o with _ | code
  · obtain ⟨h, -⟩ := pure_ok.mp h
    cases h
  obtain ⟨polls, last, hlog, hpolls, hlast⟩ := getStatus_ok ht'
  rw [nextPatience_log ht] at hlog
  rcases waitLoop_ok h with ⟨h0, hlog'⟩ | ⟨h0, evs, hlog', hevs⟩
  · exact ⟨_, by rw [hlog', hlog], polls, last, rfl, hpolls, hlast.mp h0⟩
  · exact ⟨_, by rw [hlog', hlog, List.append_assoc],
      hevs.cons hpolls (by simpa using fun hl => h0 (hlast.mpr hl))⟩

theorem accepted_polls {c : Command} {pre evs : List Exchange} {last : Option Reply}
    (hlast : ∀ r ∈ last, r.ccode = 0x80) (h : Polls evs) :
    Accepted c (pre ++ [(c, last)] ++ evs) := by
  obtain ⟨polls, x, rfl, hpolls, hx⟩ := h
  exact ⟨pre, last, _, by simp, .inr ⟨hlast, polls, (statusRequest, x), [], rfl,
    fun y hy => (hpolls y hy).1, rfl, hx⟩⟩

theorem accepted_at_once {c : Command} {pre : List Exchange} {r : Reply} (h : r.ccode = 0) :
    Accepted c (pre ++ [(c, some r)]) := ⟨pre, some r, [], rfl, .inl ⟨r, rfl, h⟩⟩

theorem finishLong_ok {c : Command} {o : Option Reply} {t : CmdWorld Vars β}
    (hsend : sendCmd B env c w = .ok (o, t)) (h : finishLong B env o t = .ok (true, w')) :
    ∃ evs, w'.log = w.log ++ evs ∧ Accepted c evs := by
  obtain ⟨pre, last, v, hlog, -, ho⟩ := sendCmd_log hsend
  rcases o with _ | r
  · obtain ⟨h, -⟩ := pure_ok.mp h
    cases h
  unfold finishLong at h
  dsimp only at h
  split_ifs at h with hcc
  · obtain ⟨evs, hlog', hevs⟩ := waitLong_ok h
    refine ⟨_, by rw [hlog', hlog, List.append_assoc], accepted_polls ?_ hevs⟩
    rcases response_some ho with rfl | ⟨rfl, -⟩
    · intro r' hr'
      rwa [← Option.mem_some_iff.mp hr']
    · simp
  · obtain ⟨hzero, rfl⟩ := pure_ok.mp h
    have hzero := of_decide_eq_true hzero
    obtain rfl := (response_some ho).resolve_right fun hr => hr.2.1 hzero
    exact ⟨_, hlog, accepted_at_once hzero⟩

end

/-! ### Blocks -/

/-- With `pending` in progress, the exchanges acknowledge these bytes, and nothing is in progress
afterwards. -/
def Acks (pending : List UInt8) (evs : List Exchange) (bytes : List UInt8) : Prop :=
  Mealy.after ackStep pending evs = [] ∧ (Mealy.outputs ackStep pending evs).flatten = bytes

theorem Acks.append {p : List UInt8} {a b : List Exchange} {x y : List UInt8} (ha : Acks p a x)
    (hb : Acks [] b y) : Acks p (a ++ b) (x ++ y) := by
  unfold Acks
  rw [Mealy.after_append, Mealy.outputs_append, ha.1, List.flatten_append, ha.2, hb.1, hb.2]
  exact ⟨rfl, rfl⟩

theorem acks_idle {p : List UInt8} {evs : List Exchange} (h : ∀ x ∈ evs, ackStep p x = (p, [])) :
    Mealy.after ackStep p evs = p ∧ (Mealy.outputs ackStep p evs).flatten = [] := by
  obtain ⟨hafter, hout⟩ := Mealy.run_idle ackStep evs h
  exact ⟨hafter, by rw [hout]; simp⟩

theorem Polls.acks {evs : List Exchange} (h : Polls evs) (p : List UInt8) : Acks p evs p := by
  obtain ⟨polls, last, rfl, hpolls, hlast⟩ := h
  have hne : statusRequest.cmd ≠ 0x32 := by decide
  obtain ⟨hafter, hout⟩ := acks_idle (p := p) fun x hx => by
    obtain ⟨hx1, hx2⟩ := hpolls x hx
    rw [ackStep, hx1, if_neg hne, if_pos rfl, hx2]
    rfl
  unfold Acks
  rw [Mealy.after_append, Mealy.outputs_append, hafter, List.flatten_append, hout]
  simp [ackStep, hne, hlast]

/-- A request for a block. -/
def blockRequest (data : List UInt8) : Command := hpmCommand 0x32 data

theorem ackStep_block (p data : List UInt8) (o : Option Reply) : ackStep p (blockRequest data, o) =
    if answers 0 o then ([], data.drop 2) else if answers 0x80 o then (data.drop 2, [])
      else ([], []) := by
  have hcmd : (blockRequest data, o).1.cmd = 0x32 := rfl
  rw [ackStep, if_pos hcmd]
  rfl

theorem answers_eq_false {code : UInt8} {o : Option Reply} (h : ∀ r ∈ o, r.ccode ≠ code) :
    answers code o = false := by
  rcases o with _ | r
  · rfl
  · simp [answers, h r rfl]

theorem acks_block {data : List UInt8} {evs : List Exchange} {last : Option Reply}
    (hevs : ∀ x ∈ evs, x.1 = blockRequest data ∧ ∀ r ∈ x.2, r.ccode ≠ 0 ∧ r.ccode ≠ 0x80) :
    Mealy.after ackStep [] (evs ++ [(blockRequest data, last)]) =
        (ackStep [] (blockRequest data, last)).1 ∧
      (Mealy.outputs ackStep [] (evs ++ [(blockRequest data, last)])).flatten =
        (ackStep [] (blockRequest data, last)).2 := by
  obtain ⟨hafter, hout⟩ := acks_idle (p := []) fun x hx => by
    obtain ⟨hx1, hx2⟩ := hevs x hx
    rw [show x = (blockRequest data, x.2) by rw [← hx1], ackStep_block,
      answers_eq_false fun r hr => (hx2 r hr).1, answers_eq_false fun r hr => (hx2 r hr).2]
    rfl
  rw [Mealy.after_append, Mealy.outputs_append, hafter, List.flatten_append, hout]
  simp

/-- Exchanges without blocks acknowledge nothing. -/
def Quiet (evs : List Exchange) : Prop := ∀ x ∈ evs, x.1.cmd ≠ 0x32

theorem Quiet.acks {evs : List Exchange} (h : Quiet evs) : Acks [] evs [] := by
  refine acks_idle fun x hx => ?_
  rw [ackStep, if_neg (h x hx)]
  split_ifs <;> rfl

theorem Quiet.straight {evs : List Exchange} (h : Quiet evs) : Straight evs :=
  fun x hx _ _ hasks => h x hx hasks.1

theorem Polls.quiet {evs : List Exchange} (h : Polls evs) : Quiet evs := by
  obtain ⟨polls, last, rfl, hpolls, -⟩ := h
  intro x hx
  rcases List.mem_append.mp hx with hx | hx
  · rw [(hpolls x hx).1]
    decide
  · rw [List.mem_singleton.mp hx]
    exact show statusRequest.cmd ≠ 0x32 by decide

theorem Straight.append {a b : List Exchange} (ha : Straight a) (hb : Straight b) :
    Straight (a ++ b) :=
  fun x hx => (List.mem_append.mp hx).elim (ha x) (hb x)

/-- What the exchanges of a block acknowledge, and what section they ask for. -/
def BlockAcks (data : List UInt8) (evs : List Exchange) : BlockResult → Prop
  | .ok offset length => Acks [] evs (data.drop 2) ∧
      if offset = 0 then Straight evs
      else ∃ before x after, evs = before ++ x :: after ∧ Asks x offset length ∧ Quiet after
  | .resize | .retry => Acks [] evs [] ∧ Straight evs
  | .failed => True

/-- The section in a response is that of a well formed response that takes the block, or the block
is not taken. -/
theorem sectionOf_cases (r : Reply)
    (hd : ¬ ((r.ccode = 0 ∨ r.ccode = 0x80) ∧ responseData r = none)) :
    (wellFormed r = true ∧ (r.ccode = 0 ∨ r.ccode = 0x80) ∧
      (sectionOf r.ccode ((responseData r).getD [])).1 = r.ccode ∧
      if (sectionOf r.ccode ((responseData r).getD [])).2.1 = 0 then ∀ a b, ¬ Names r a b
      else Names r (sectionOf r.ccode ((responseData r).getD [])).2.1
        (sectionOf r.ccode ((responseData r).getD [])).2.2) ∨
    ((sectionOf r.ccode ((responseData r).getD [])).1 ≠ 0 ∧
      (sectionOf r.ccode ((responseData r).getD [])).1 ≠ 0x80 ∧
      answers 0 (some r) = false ∧ answers 0x80 (some r) = false ∧ ∀ a b, ¬ Names r a b) := by
  by_cases hcode : r.ccode = 0 ∨ r.ccode = 0x80
  · obtain ⟨d, hd⟩ := Option.ne_none_iff_exists'.mp fun h => hd ⟨hcode, h⟩
    obtain ⟨-, hlen, hget⟩ := responseData_some hd
    rw [hd, Option.getD_some]
    by_cases hshort : 1 < d.length
    · by_cases hnine : d.length = 9
      · left
        rw [sectionOf, if_pos ⟨hcode, hshort⟩, if_pos hnine]
        simp only [hget 1 (by omega), hget 2 (by omega), hget 3 (by omega), hget 4 (by omega),
          hget 5 (by omega), hget 6 (by omega), hget 7 (by omega), hget 8 (by omega)]
        refine ⟨by simp [wellFormed]; omega, hcode, trivial, ?_⟩
        split_ifs with h0
        · rintro a b ⟨-, -, ha, rfl, -⟩
          exact ha h0
        · exact ⟨hcode, by omega, h0, rfl, rfl⟩
      · right
        rw [sectionOf, if_pos ⟨hcode, hshort⟩, if_neg hnine]
        have hbad : wellFormed r = false := by simp [wellFormed]; omega
        exact ⟨by simp, by simp, by simp [answers, hbad], by simp [answers, hbad],
          fun a b h => hnine (hlen.trans h.2.1)⟩
    · left
      rw [sectionOf, if_neg fun h => hshort h.2]
      refine ⟨by simp [wellFormed]; omega, hcode, rfl, ?_⟩
      rw [if_pos rfl]
      intro a b h
      have := h.2.1
      omega
  · right
    rw [sectionOf, if_neg fun h => hcode h.1]
    rw [not_or] at hcode
    exact ⟨hcode.1, hcode.2, by simp [answers, hcode.1], by simp [answers, hcode.2],
      fun a b h => h.1.elim hcode.1 hcode.2⟩

section
variable {β : Type} {B : Bmc β} {env : Env} {w w' : CmdWorld Vars β}

/-- A block that the target has to wait for, or that it takes or refuses at once. -/
theorem blockResult_ok {code : UInt8} {offset length : ℕ} {res : BlockResult}
    (h : blockResult B env code offset length w = .ok (res, w')) :
    (res = .failed ∧ ∃ evs, w'.log = w.log ++ evs) ∨
    (code = 0x80 ∧ res = .ok offset length ∧ ∃ evs, w'.log = w.log ++ evs ∧ Polls evs) ∨
    (code = 0 ∧ res = .ok offset length ∧ w'.log = w.log) ∨
    (code ≠ 0 ∧ code ≠ 0x80 ∧ (res = .retry ∨ res = .resize) ∧ w'.log = w.log) := by
  rw [blockResult] at h
  by_cases h80 : code = 0x80
  · rw [if_pos h80] at h
    obtain ⟨b, t, ht, h⟩ := bind_ok.mp h
    rcases b with _ | _
    · obtain ⟨rfl, rfl⟩ := pure_ok.mp h
      obtain ⟨evs, hlog, -⟩ := says_waitLong (P := fun _ => True) (fun _ => trivial) _ _ _ ht
      exact .inl ⟨rfl, evs, hlog⟩
    · obtain ⟨rfl, rfl⟩ := pure_ok.mp h
      exact .inr (.inl ⟨h80, rfl, waitLong_ok ht⟩)
  rw [if_neg h80] at h
  by_cases h0 : code = 0
  · rw [if_pos h0] at h
    obtain ⟨rfl, rfl⟩ := pure_ok.mp h
    exact .inr (.inr (.inl ⟨h0, rfl, rfl⟩))
  rw [if_neg h0] at h
  obtain ⟨b, t, ht, h⟩ := bind_ok.mp h
  have hlog := retryable_log ht
  rcases b with _ | _
  · rw [if_neg (by simp)] at h
    split_ifs at h with hc
    · obtain ⟨rfl, rfl⟩ := pure_ok.mp h
      exact .inr (.inr (.inr ⟨h0, h80, .inr rfl, hlog⟩))
    · obtain ⟨rfl, rfl⟩ := pure_ok.mp h
      exact .inl ⟨rfl, [], by rw [hlog, List.append_nil]⟩
  · rw [if_pos rfl] at h
    obtain ⟨rfl, rfl⟩ := pure_ok.mp h
    exact .inr (.inr (.inr ⟨h0, h80, .inl rfl, hlog⟩))

theorem straight_attempts {c : Command} {evs : List Exchange}
    (h : ∀ x ∈ evs, x.1 = c ∧ ∀ r ∈ x.2, r.ccode ≠ 0 ∧ r.ccode ≠ 0x80) : Straight evs := by
  rintro x hx a b ⟨-, r, hr, hcode, -⟩
  exact hcode.elim ((h x hx).2 r hr).1 ((h x hx).2 r hr).2

theorem straight_single {c : Command} {o : Option Reply} (h : ∀ r ∈ o, ∀ a b, ¬ Names r a b) :
    Straight [(c, o)] := by
  intro x hx a b hasks
  rw [List.mem_singleton.mp hx] at hasks
  obtain ⟨-, r, hr, hnames⟩ := hasks
  exact h r hr a b hnames

/-- A response that does not take the block: nothing is acknowledged. -/
theorem acks_refused {data : List UInt8} {evs : List Exchange} {last : Option Reply}
    (hevs : ∀ x ∈ evs, x.1 = blockRequest data ∧ ∀ r ∈ x.2, r.ccode ≠ 0 ∧ r.ccode ≠ 0x80)
    (h0 : answers 0 last = false) (h80 : answers 0x80 last = false)
    (hnames : ∀ r ∈ last, ∀ a b, ¬ Names r a b) :
    Acks [] (evs ++ [(blockRequest data, last)]) [] ∧
      Straight (evs ++ [(blockRequest data, last)]) := by
  obtain ⟨hafter, hout⟩ := acks_block hevs
  rw [ackStep_block, h0, h80] at hafter hout
  exact ⟨⟨hafter, hout⟩, (straight_attempts hevs).append (straight_single hnames)⟩

/-- A response that takes the block: it is acknowledged, at once or by the polls. -/
theorem acks_taken {data : List UInt8} {evs polls : List Exchange} {r : Reply}
    (hevs : ∀ x ∈ evs, x.1 = blockRequest data ∧ ∀ r ∈ x.2, r.ccode ≠ 0 ∧ r.ccode ≠ 0x80)
    (hr : wellFormed r = true)
    (hpolls : (r.ccode = 0x80 ∧ Polls polls) ∨ (r.ccode = 0 ∧ polls = [])) :
    Acks [] (evs ++ [(blockRequest data, some r)] ++ polls) (data.drop 2) := by
  obtain ⟨hafter, hout⟩ := acks_block hevs
  rw [ackStep_block] at hafter hout
  rcases hpolls with ⟨hcode, hpolls⟩ | ⟨hcode, rfl⟩
  · have h0 : answers 0 (some r) = false := by simp [answers, hcode]
    have h80 : answers 0x80 (some r) = true := by simp [answers, hcode, hr]
    rw [h0, h80] at hafter hout
    obtain ⟨hafter', hout'⟩ := hpolls.acks (data.drop 2)
    unfold Acks
    rw [Mealy.after_append, Mealy.outputs_append, hafter, List.flatten_append, hout]
    exact ⟨hafter', hout'⟩
  · have h0 : answers 0 (some r) = true := by simp [answers, hcode, hr]
    rw [h0] at hafter hout
    rw [List.append_nil]
    exact ⟨hafter, hout⟩

theorem uploadBlock_ok {data : List UInt8} {res : BlockResult}
    (h : uploadBlock B env data w = .ok (res, w')) :
    ∃ evs, w'.log = w.log ++ evs ∧ BlockAcks data evs res := by
  obtain ⟨o, t, ht, h⟩ := bind_ok.mp h
  unfold send at ht
  split_ifs at ht with hlong
  · obtain ⟨rfl, rfl⟩ := pure_ok.mp ht
    obtain ⟨rfl, rfl⟩ := pure_ok.mp h
    exact ⟨[], by simp, trivial⟩
  obtain ⟨evs, last, v, hlog, hevs, ho⟩ := sendCmd_log ht
  rw [show hpmCommand 0x32 data = blockRequest data from rfl] at hlog hevs
  rcases o with _ | r
  · obtain ⟨rfl, rfl⟩ := pure_ok.mp h
    exact ⟨_, hlog, trivial⟩
  dsimp only at h
  by_cases hnone : (r.ccode = 0 ∨ r.ccode = 0x80) ∧ responseData r = none
  · rw [if_pos hnone] at h
    obtain ⟨rfl, rfl⟩ := pure_ok.mp h
    exact ⟨_, hlog, trivial⟩
  rw [if_neg hnone] at h
  rcases sectionOf_cases r hnone with ⟨hform, hcode, hsame, hsection⟩ | ⟨h0, h80, ha0, ha80, hnames⟩
  · obtain rfl : last = some r := (response_some ho).resolve_right fun hr => by
      rcases hcode with hc | hc
      · exact hr.2.1 hc
      · have hne : ∀ cmd : UInt8, (hpmCommand cmd data).cmd = cmd := fun _ => rfl
        rcases hr.2.2 hc with hc' | hc' <;> rw [hne] at hc' <;> exact absurd hc' (by decide)
    have htaken : ∀ polls, Quiet polls →
        ((r.ccode = 0x80 ∧ Polls polls) ∨ (r.ccode = 0 ∧ polls = [])) →
        BlockAcks data (evs ++ [(blockRequest data, some r)] ++ polls)
          (.ok (sectionOf r.ccode ((responseData r).getD [])).2.1
            (sectionOf r.ccode ((responseData r).getD [])).2.2) := by
      intro polls hquiet hpolls
      refine ⟨acks_taken hevs hform hpolls, ?_⟩
      split_ifs at hsection ⊢ with hz
      · refine .append (.append (straight_attempts hevs) (straight_single fun r' hr' => ?_))
          hquiet.straight
        rwa [← Option.mem_some_iff.mp hr']
      · exact ⟨evs, (blockRequest data, some r), polls, by simp, ⟨rfl, r, rfl, hsection⟩, hquiet⟩
    rw [hsame] at h
    rcases blockResult_ok h with ⟨rfl, evs', hlog'⟩ | ⟨hc, rfl, polls, hlog', hpolls⟩ |
      ⟨hc, rfl, hlog'⟩ | ⟨hc0, hc80, -⟩
    · exact ⟨_, by rw [hlog', hlog, List.append_assoc], trivial⟩
    · exact ⟨_, by rw [hlog', hlog, List.append_assoc], htaken polls hpolls.quiet (.inl ⟨hc,
        hpolls⟩)⟩
    · exact ⟨_, by rw [hlog', hlog, List.append_nil], htaken [] (by simp [Quiet]) (.inr ⟨hc, rfl⟩)⟩
    · exact (hcode.elim hc0 hc80).elim
  · have hrefused : Acks [] (evs ++ [(blockRequest data, last)]) [] ∧
        Straight (evs ++ [(blockRequest data, last)]) := by
      rcases response_some ho with rfl | ⟨rfl, -⟩
      · refine acks_refused hevs ha0 ha80 fun r' hr' => ?_
        rwa [← Option.mem_some_iff.mp hr']
      · exact acks_refused hevs rfl rfl (by simp)
    rcases blockResult_ok h with ⟨rfl, evs', hlog'⟩ | ⟨hc, -⟩ | ⟨hc, -⟩ | ⟨-, -, hres, hlog'⟩
    · exact ⟨_, by rw [hlog', hlog, List.append_assoc], trivial⟩
    · exact (h80 hc).elim
    · exact (h0 hc).elim
    · refine ⟨_, by rw [hlog', hlog], ?_⟩
      rcases hres with rfl | rfl <;> exact hrefused

/-! ### Records -/

/-- The bytes of the section that are still to be sent. -/
def rest (t : Transfer) (payload : List UInt8) : List UInt8 :=
  (payload.drop t.position).take (t.sectionStart + t.sectionLength - t.position)

/-- The transfer stands within its section, and the section lies within the payload. -/
def Fits (t : Transfer) (payload : List UInt8) : Prop :=
  t.position ≤ t.sectionStart + t.sectionLength ∧ t.sectionStart + t.sectionLength ≤ payload.length

theorem shrink_same {t t' : Transfer} (h : t.shrink env = some t') :
    t'.position = t.position ∧ t'.sectionStart = t.sectionStart ∧
      t'.sectionLength = t.sectionLength := by
  unfold Transfer.shrink at h
  generalize (if env.lan ∧ 8 < t.chunkSize then t.chunkSize - 8 else t.chunkSize - 1) = size at h
  dsimp only at h
  split_ifs at h
  obtain rfl := Option.some.inj h
  exact ⟨rfl, rfl, rfl⟩

theorem length_chunk {t : Transfer} {payload : List UInt8} (h : Fits t payload) :
    (t.chunk payload).length = min t.chunkSize (t.sectionStart + t.sectionLength - t.position) := by
  obtain ⟨h1, h2⟩ := h
  rw [Transfer.chunk, List.length_take, List.length_drop]
  omega

/-- Behind a block in the same section, the rest is what comes after the block. -/
theorem advance_same {t t' : Transfer} {payload : List UInt8} {length : ℕ} (hfits : Fits t payload)
    (h : t.advance payload.length (t.chunk payload).length 0 length = some t') :
    Fits t' payload ∧ t.chunk payload ++ rest t' payload = rest t payload := by
  have hlen := length_chunk hfits
  unfold Transfer.advance at h
  dsimp only at h
  split_ifs at h with h1 h2 h3
  · exact (h3 rfl).elim
  obtain rfl := Option.some.inj h
  refine ⟨⟨?_, hfits.2⟩, ?_⟩
  · have := hfits.1
    dsimp only
    omega
  · unfold rest
    dsimp only
    rw [hlen, Transfer.chunk, ← List.drop_drop, ← List.take_add]
    congr 1
    omega

/-- In a section that the target asked for, the rest is the section. -/
theorem advance_section {t t' : Transfer} {payload : List UInt8} {count offset length : ℕ}
    (hne : offset ≠ 0) (h : t.advance payload.length count offset length = some t') :
    Fits t' payload ∧ offset + length ≤ payload.length ∧
      rest t' payload = (payload.drop offset).take length := by
  unfold Transfer.advance at h
  dsimp only at h
  split_ifs at h with h1 h2 h3
  obtain rfl := Option.some.inj h
  refine ⟨⟨?_, ?_⟩, ?_, ?_⟩
  · dsimp only
    omega
  · dsimp only
    omega
  · omega
  · unfold rest
    dsimp only
    rw [Nat.add_sub_cancel_left]

/-- What the exchanges of an upload that stands at `t` acknowledge. -/
def Continues (payload : List UInt8) (t : Transfer) (evs : List Exchange) : Prop :=
  (Straight evs ∧ Acks [] evs (rest t payload)) ∨ Resumed payload evs

theorem Resumed.append {payload : List UInt8} {evs : List Exchange} (h : Resumed payload evs)
    (front : List Exchange) : Resumed payload (front ++ evs) := by
  obtain ⟨before, x, after, start, length, rfl, hrest⟩ := h
  exact ⟨front ++ before, x, after, start, length, by simp, hrest⟩

theorem Continues.skip {payload : List UInt8} {t t' : Transfer} {a b : List Exchange}
    (hb : Continues payload t' b) (hrest : rest t' payload = rest t payload)
    (ha : Acks [] a [] ∧ Straight a) : Continues payload t (a ++ b) := by
  rcases hb with ⟨hstraight, hacks⟩ | hb
  · rw [hrest] at hacks
    exact .inl ⟨ha.2.append hstraight, ha.1.append hacks⟩
  · exact .inr (hb.append a)

theorem Continues.take {payload : List UInt8} {t t' : Transfer} {a b : List Exchange}
    {offset length : ℕ} (hb : Continues payload t' b) (hfits : Fits t payload)
    (ht' : t.advance payload.length (t.chunk payload).length offset length = some t')
    (ha : BlockAcks ([0, t.block] ++ t.chunk payload) a (.ok offset length)) :
    Continues payload t (a ++ b) := by
  rcases hb with ⟨hstraight, hacks⟩ | hb
  · obtain ⟨hacked, hasked⟩ := ha
    split_ifs at hasked with h0
    · subst h0
      refine .inl ⟨hasked.append hstraight, ?_⟩
      rw [← (advance_same hfits ht').2]
      exact hacked.append hacks
    · obtain ⟨before, x, after, rfl, hx, hquiet⟩ := hasked
      obtain ⟨-, hle, hrest⟩ := advance_section h0 ht'
      rw [hrest] at hacks
      exact .inr ⟨before, x, after ++ b, offset, length, by simp, hx,
        hquiet.straight.append hstraight, hle, (hquiet.acks.append hacks).2⟩
  · exact .inr (hb.append a)

theorem uploadLoop_ok {payload : List UInt8} : ∀ {fuel : ℕ} {t : Transfer} {w w' : CmdWorld Vars β}
    {sent : ℕ}, Fits t payload → uploadLoop B env payload fuel t w = .ok (some sent, w') →
    ∃ evs, w'.log = w.log ++ evs ∧ Continues payload t evs
  | 0, t, w, w', sent, _, h => by
    obtain ⟨h, -⟩ := pure_ok.mp h
    cases h
  | fuel + 1, t, w, w', sent, hfits, h => by
    rw [uploadLoop] at h
    split_ifs at h with hpos
    · obtain ⟨res, s, hs, h⟩ := bind_ok.mp h
      obtain ⟨evs, hlog, hacks⟩ := uploadBlock_ok hs
      rcases res with ⟨offset, length⟩ | _ | _ | _ <;> dsimp only at h
      · rcases ht' : t.advance payload.length (t.chunk payload).length offset length with _ | t'
        · rw [ht'] at h
          obtain ⟨h, -⟩ := pure_ok.mp h
          cases h
        rw [ht'] at h
        have hfits' : Fits t' payload := by
          by_cases h0 : offset = 0
          · subst h0
            exact (advance_same hfits ht').1
          · exact (advance_section h0 ht').1
        obtain ⟨evs', hlog', hrest⟩ := uploadLoop_ok hfits' h
        exact ⟨evs ++ evs', by rw [hlog', hlog, List.append_assoc], hrest.take hfits ht' hacks⟩
      · rcases ht' : t.shrink env with _ | t'
        · rw [ht'] at h
          obtain ⟨h, -⟩ := pure_ok.mp h
          cases h
        rw [ht'] at h
        obtain ⟨hp, hs, hl⟩ := shrink_same ht'
        obtain ⟨evs', hlog', hrest⟩ :=
          uploadLoop_ok (by unfold Fits; rw [hp, hs, hl]; exact hfits) h
        exact ⟨evs ++ evs', by rw [hlog', hlog, List.append_assoc],
          hrest.skip (by unfold rest; rw [hp, hs, hl]) hacks⟩
      · obtain ⟨evs', hlog', hrest⟩ := uploadLoop_ok hfits h
        exact ⟨evs ++ evs', by rw [hlog', hlog, List.append_assoc], hrest.skip rfl hacks⟩
      · obtain ⟨h, -⟩ := pure_ok.mp h
        cases h
    · obtain ⟨-, rfl⟩ := pure_ok.mp h
      refine ⟨[], by simp, .inl ⟨by simp [Straight], rfl, ?_⟩⟩
      unfold rest
      rw [Nat.sub_eq_zero_of_le (by omega)]
      simp

theorem accepted_send {cmd : UInt8} {bytes : List UInt8} {o : Option Reply} {t : CmdWorld Vars β}
    (hbytes : bytes.length ≤ 65535) (hsend : send B env cmd bytes w = .ok (o, t))
    (h : finishLong B env o t = .ok (true, w')) :
    ∃ evs, w'.log = w.log ++ evs ∧ Accepted (hpmCommand cmd bytes) evs := by
  rw [send, if_neg (by omega)] at hsend
  exact finishLong_ok hsend h

theorem action_ok {mask kind : UInt8} (h : action B env mask kind w = .ok (true, w')) :
    ∃ evs, w'.log = w.log ++ evs ∧ Accepted (hpmCommand 0x31 [0, mask, kind]) evs := by
  obtain ⟨o, t, ht, h⟩ := bind_ok.mp h
  exact accepted_send (by simp) ht h

/-- The request that ends an upload. -/
def finishRequest (component sent : ℕ) : Command :=
  hpmCommand 0x33 ([0, UInt8.ofNat component] ++ le32 (UInt32.ofNat sent))

theorem finishUpload_ok {component sent : ℕ} {mode : Mode} (hmode : mode.compare = false)
    (h : finishUpload B env component sent mode w = .ok (true, w')) :
    ∃ evs, w'.log = w.log ++ evs ∧ Accepted (finishRequest component sent) evs := by
  obtain ⟨o, t, ht, h⟩ := bind_ok.mp h
  refine accepted_send (by simp [le32]) ht ?_
  rcases o with _ | r
  · obtain ⟨h, -⟩ := pure_ok.mp h
    cases h
  simpa [finishLong, hmode] using h

/-- The exchanges of the upload of a record: it is announced, its payload is acknowledged, and its
end is accepted. -/
def RecordUploaded (r : Record) (evs : List Exchange) : Prop :=
  ∃ start blocks finish sent, evs = start ++ blocks ++ finish ∧
    Accepted (hpmCommand 0x31 [0, r.components, 2]) start ∧ Uploaded r.payload blocks ∧
    Accepted (finishRequest r.component sent) finish

theorem uploadFirmware_ok {fuel : ℕ} {ctx : Upgrade} {r : Record} {mode : Mode}
    (hmode : mode.compare = false) (h : uploadFirmware B env fuel ctx r mode w = .ok (true, w')) :
    ∃ evs, w'.log = w.log ++ evs ∧ (bit ctx.mask r.component = true → RecordUploaded r evs) := by
  unfold uploadFirmware at h
  by_cases hbit : bit ctx.mask r.component = true
  · rw [if_neg (by simpa using hbit)] at h
    by_cases hmax : env.maxRequest.toNat ≤ 2
    · rw [if_pos hmax] at h
      obtain ⟨h, -⟩ := pure_ok.mp h
      cases h
    rw [if_neg hmax, hmode] at h
    obtain ⟨b, t, ht, h⟩ := bind_ok.mp h
    rcases b with _ | _
    · obtain ⟨h, -⟩ := pure_ok.mp h
      cases h
    obtain ⟨start, hstart, haccepted⟩ := action_ok ht
    obtain ⟨o, t1, ht1, h⟩ := bind_ok.mp h
    rcases o with _ | sent
    · obtain ⟨h, -⟩ := pure_ok.mp h
      cases h
    obtain ⟨blocks, hblocks, hcont⟩ := uploadLoop_ok ⟨Nat.zero_le _, by simp⟩ ht1
    obtain ⟨finish, hfinish, hfinished⟩ := finishUpload_ok hmode h
    refine ⟨start ++ blocks ++ finish, by rw [hfinish, hblocks, hstart]; simp, fun _ =>
      ⟨start, blocks, finish, sent, rfl, haccepted, hcont.imp_left fun hc => ⟨hc.1, ?_⟩, hfinished⟩⟩
    rw [acknowledged, hc.2.2]
    simp [rest]
  · rw [if_pos (by simpa using hbit)] at h
    obtain ⟨-, rfl⟩ := pure_ok.mp h
    exact ⟨[], by simp, fun h => (hbit h).elim⟩

/-! ### The stages -/

/-- Each record of the components of the mask was uploaded, one after another. -/
def AllUploaded (mask : UInt8) (rs : List Record) (evs : List Exchange) : Prop :=
  ∃ parts : List (List Exchange), evs = parts.flatten ∧
    List.Forall₂ (fun r part => r.kind = 2 → bit mask r.component = true →
      RecordUploaded r part) rs parts

theorem AllUploaded.cons {mask : UInt8} {r : Record} {rs : List Record} {a b : List Exchange}
    (ha : r.kind = 2 → bit mask r.component = true → RecordUploaded r a)
    (hb : AllUploaded mask rs b) :
    AllUploaded mask (r :: rs) (a ++ b) := by
  obtain ⟨parts, rfl, hparts⟩ := hb
  exact ⟨a :: parts, rfl, .cons ha hparts⟩

theorem stageLoop_ok {fuel : ℕ} {mode : Mode} (hmode : mode.compare = false) :
    ∀ {rs : List Record} {ctx ctx' : Upgrade} {w w' : CmdWorld Vars β},
    stageLoop B env fuel mode rs ctx w = .ok ((true, ctx'), w') →
    ctx' = { ctx with component := ctx'.component } ∧
      ∃ evs, w'.log = w.log ++ evs ∧ AllUploaded ctx.mask rs evs
  | [], ctx, ctx', w, w', h => by
    obtain ⟨hres, rfl⟩ := pure_ok.mp h
    obtain ⟨-, rfl⟩ := Prod.mk.inj hres
    exact ⟨rfl, [], by simp, [], rfl, .nil⟩
  | r :: rs, ctx, ctx', w, w', h => by
    rw [stageLoop] at h
    by_cases hkind : r.kind = 2
    · rw [if_pos hkind] at h
      obtain ⟨b, t, ht, h⟩ := bind_ok.mp h
      rcases b with _ | _
      · obtain ⟨h, -⟩ := pure_ok.mp h
        cases h
      obtain ⟨a, hlog, ha⟩ := uploadFirmware_ok hmode ht
      obtain ⟨hctx, b, hlog', hb⟩ := stageLoop_ok hmode h
      exact ⟨by rw [hctx], a ++ b, by rw [hlog', hlog, List.append_assoc], hb.cons fun _ => ha⟩
    rw [if_neg hkind] at h
    by_cases hact : ¬ mode.compare ∧ r.components &&& ctx.mask ≠ 0
    · rw [if_pos hact] at h
      obtain ⟨b, t, ht, h⟩ := bind_ok.mp h
      rcases b with _ | _
      · obtain ⟨h, -⟩ := pure_ok.mp h
        cases h
      obtain ⟨a, hlog, -⟩ := action_ok ht
      obtain ⟨hctx, b, hlog', hb⟩ := stageLoop_ok hmode h
      exact ⟨hctx, a ++ b, by rw [hlog', hlog, List.append_assoc], hb.cons fun h => (hkind h).elim⟩
    · rw [if_neg hact] at h
      obtain ⟨hctx, b, hlog', hb⟩ := stageLoop_ok hmode h
      exact ⟨hctx, b, hlog', hb.cons (a := []) fun h => (hkind h).elim⟩

/-- A self test that was passed. -/
def Passed (x : Exchange) : Prop := x.1 = hpmCommand 0x36 [0] ∧ ∃ r, x.2 = some r ∧ r.ccode = 0 ∧
  3 ≤ r.dataLen ∧ r.dataLen ≤ bufSize ∧ r.data 1 = 0x55

/-- The activation was accepted, and then the self test was passed, if one is required. -/
def Activated (ctx : Upgrade) (evs : List Exchange) : Prop :=
  ∃ accepted tests, evs = accepted ++ tests ∧ Accepted (hpmCommand 0x35 [0]) accepted ∧
    (selftestRequired ctx = true → ∃ before x, tests = before ++ [x] ∧ Passed x)

theorem selftestTurn_ok {again : Bool} {result : UInt8 × UInt8}
    (h : selftestTurn B env w = .ok ((again, some result), w')) : ∃ before x,
      w'.log = w.log ++ (before ++ [x]) ∧ (result.1 = 0x55 → Passed x) := by
  obtain ⟨o, t, ht, h⟩ := bind_ok.mp h
  obtain ⟨evs, last, v, hlog, -, ho⟩ := sendCmd_log ht
  rcases o with _ | r
  · obtain ⟨h, -⟩ := pure_ok.mp h
    cases h
  obtain ⟨b, t1, ht1, h⟩ := bind_ok.mp h
  have hlog1 := retryable_log ht1
  by_cases hcc : r.ccode = 0
  · rw [if_neg (by simpa using hcc)] at h
    obtain rfl := (response_some ho).resolve_right fun hr => hr.2.1 hcc
    rcases hd : responseData r with _ | d
    · rw [hd] at h
      obtain ⟨h, -⟩ := pure_ok.mp h
      cases h
    rw [hd] at h
    obtain ⟨hpair, rfl⟩ := pure_ok.mp h
    obtain ⟨hbuf, hlen, hget⟩ := responseData_some hd
    have h2 := (Prod.mk.inj hpair).2
    split_ifs at h2 with hshort
    refine ⟨evs, _, by rw [hlog1, hlog], fun hres => ⟨rfl, r, rfl, hcc, by omega, hbuf, ?_⟩⟩
    rw [← Option.some.inj h2] at hres
    rwa [← hget 1 (by omega)]
  · rw [if_pos (by simpa using hcc)] at h
    obtain ⟨h, -⟩ := pure_ok.mp h
    cases (Prod.mk.inj h).2

/-- A loop ends with a turn, and what comes before it says something. -/
theorem patiently_ok {α : Type} {turn : Talk β (Bool × α)} {a : α} {P : Exchange → Prop}
    (hturn : Moves (Says P) turn) (h : patiently turn w = .ok (a, w')) :
    ∃ b w1 evs, w1.log = w.log ++ evs ∧ turn w1 = .ok ((b, a), w') := by
  obtain ⟨n, t, ht, h⟩ := bind_ok.mp h
  obtain ⟨b, w1, hsteps, hlast⟩ := goOn_ok h
  have hevs : ∃ evs, w1.log = t.log ++ evs := by
    clear hlast
    induction hsteps with
    | refl => exact ⟨[], by simp⟩
    | tail _ hstep ih =>
      obtain ⟨evs, hevs⟩ := ih
      obtain ⟨a', ha'⟩ := hstep
      obtain ⟨more, hmore, -⟩ := hturn _ _ _ ha'
      exact ⟨evs ++ more, by rw [hmore, hevs, List.append_assoc]⟩
  obtain ⟨evs, hevs⟩ := hevs
  exact ⟨b, w1, evs, by rw [hevs, nextPatience_log ht], hlast⟩

theorem querySelftest_ok {result : UInt8 × UInt8}
    (h : querySelftest B env w = .ok (some result, w')) :
    ∃ before x, w'.log = w.log ++ (before ++ [x]) ∧ (result.1 = 0x55 → Passed x) := by
  obtain ⟨b, w1, evs, hevs, hlast⟩ := patiently_ok says_selftestTurn h
  obtain ⟨before, x, hlog, hx⟩ := selftestTurn_ok hlast
  exact ⟨evs ++ before, x, by rw [hlog, hevs]; simp, hx⟩

theorem rollbackStatus_asks {b : Bool} (h : rollbackStatus B env w = .ok (b, w')) :
    ∃ evs, w'.log = w.log ++ evs ∧ ∃ x ∈ evs, x.1.cmd = 0x37 := by
  obtain ⟨b', w1, evs, hevs, hlast⟩ := patiently_ok says_rollbackTurn h
  obtain ⟨o, t, ht, h⟩ := bind_ok.mp hlast
  obtain ⟨asked, last, v, hlog, -, -⟩ := sendCmd_log ht
  have hend : w'.log = t.log := by
    rcases o with _ | r
    · obtain ⟨-, rfl⟩ := pure_ok.mp h
      rfl
    obtain ⟨again, t1, ht1, h⟩ := bind_ok.mp h
    rw [← retryable_log ht1]
    split_ifs at h <;> obtain ⟨-, rfl⟩ := pure_ok.mp h <;> rfl
  exact ⟨evs ++ (asked ++ [(hpmCommand 0x37 [0], last)]), by rw [hend, hlog, hevs]; simp,
    (hpmCommand 0x37 [0], last), by simp, rfl⟩

theorem activated_ok {ctx : Upgrade} (h : activated B env ctx w = .ok (true, w')) :
    ∃ evs, w'.log = w.log ++ evs ∧ Activated ctx evs := by
  obtain ⟨b, t, ht, h⟩ := bind_ok.mp h
  rcases b with _ | _
  · obtain ⟨h, -⟩ := pure_ok.mp h
    cases h
  obtain ⟨o, t1, ht1, hfinish⟩ := bind_ok.mp ht
  obtain ⟨accepted, hlog, haccepted⟩ := accepted_send (by simp) ht1 hfinish
  rw [if_neg (by simp)] at h
  by_cases hreq : selftestRequired ctx = true
  · rw [if_pos hreq] at h
    obtain ⟨o, t2, ht2, h⟩ := bind_ok.mp h
    rcases o with _ | result
    · obtain ⟨h, -⟩ := pure_ok.mp h
      cases h
    obtain ⟨before, x, hlog', hx⟩ := querySelftest_ok ht2
    obtain ⟨hres, rfl⟩ := pure_ok.mp h
    exact ⟨accepted ++ (before ++ [x]), by rw [hlog', hlog, List.append_assoc], accepted,
      before ++ [x],
      rfl, haccepted, fun _ => ⟨before, x, rfl, hx (of_decide_eq_true hres)⟩⟩
  · rw [if_neg hreq] at h
    obtain ⟨-, rfl⟩ := pure_ok.mp h
    exact ⟨accepted, hlog, accepted, [], by simp, haccepted, fun h => (hreq h).elim⟩

/-- The activation stage succeeds after an activation, or after a question about a rollback. -/
theorem activationStage_ok {ctx : Upgrade} (h : activationStage B env ctx w = .ok (true, w')) :
    ∃ evs, w'.log = w.log ++ evs ∧ ((∀ x ∈ evs, x.1.cmd ≠ 0x37) → Activated ctx evs) := by
  obtain ⟨ok, t, ht, h⟩ := bind_ok.mp h
  rcases ok with _ | _
  · by_cases hroll : rollsBack ctx = true
    · rw [if_pos ⟨by simp, hroll⟩] at h
      obtain ⟨evs', hlog', x, hx, hcmd⟩ := rollbackStatus_asks h
      obtain ⟨evs, hlog, -⟩ := says_activated ctx _ _ _ ht
      exact ⟨evs ++ evs', by rw [hlog', hlog, List.append_assoc], fun hnone =>
        (hnone x (List.mem_append_right _ hx) hcmd).elim⟩
    · rw [if_neg fun h => hroll h.2] at h
      obtain ⟨h, -⟩ := pure_ok.mp h
      cases h
  · rw [if_neg fun h => h.1 rfl] at h
    obtain ⟨-, rfl⟩ := pure_ok.mp h
    obtain ⟨evs, hlog, hact⟩ := activated_ok ht
    exact ⟨evs, hlog, fun _ => hact⟩

end

/-! ### The upgrade -/

/-- What is behind a successful upgrade: the context that preparation and pre-check left, and the
exchanges of the upload and of the activation. -/
structure Honest {β : Type} (B : Bmc β) (env : Env) (md5 : List UInt8 → List UInt8)
    (image : List UInt8) (selected : ℕ) (mode : Mode) (versions : Versions) (w w' : CmdWorld Vars β)
    (ctx : Upgrade) (prep stage act : List Exchange) : Prop where
  valid : validateImage md5 image = some ctx.header
  same : ctx.image = image
  prepared : ∃ ctx₀ w₁, preparation B env { image, header := ctx.header } mode w =
    .ok (some ctx₀, w₁) ∧
    precheck ctx₀ mode selected versions = some ctx ∧ w₁.log = w.log ++ prep
  log : w'.log = w.log ++ (prep ++ stage ++ act)
  whole : (records ctx.image ctx.header).2 = true
  uploaded : AllUploaded ctx.mask (records ctx.image ctx.header).1 stage
  activated : ctx.mask ≠ 0 → (∀ x ∈ act, x.1.cmd ≠ 0x37) → Activated ctx act

section
variable {β : Type} {B : Bmc β} {env : Env} {w w' : CmdWorld Vars β}

theorem preparation_keeps {ctx ctx' : Upgrade} {mode : Mode}
    (h : preparation B env ctx mode w = .ok (some ctx', w')) :
    ctx'.image = ctx.image ∧ ctx'.header = ctx.header := by
  obtain ⟨o, t, -, h⟩ := bind_ok.mp h
  rcases o with _ | dev
  · obtain ⟨h, -⟩ := pure_ok.mp h
    cases h
  obtain ⟨fits, t1, -, h⟩ := bind_ok.mp h
  rcases fits with _ | _
  · obtain ⟨h, -⟩ := pure_ok.mp h
    cases h
  obtain ⟨o, t2, -, h⟩ := bind_ok.mp h
  rcases o with _ | target
  · obtain ⟨h, -⟩ := pure_ok.mp h
    cases h
  obtain ⟨fits, t3, -, h⟩ := bind_ok.mp h
  rcases fits with _ | _
  · obtain ⟨h, -⟩ := pure_ok.mp h
    cases h
  obtain ⟨o, t4, -, h⟩ := bind_ok.mp h
  rcases o with _ | properties
  · obtain ⟨h, -⟩ := pure_ok.mp h
    cases h
  obtain ⟨hctx, -⟩ := pure_ok.mp h
  rw [← Option.some.inj hctx]
  exact ⟨rfl, rfl⟩

/-- The upload stage succeeds if all of the image was read and each record was uploaded. -/
theorem upgradeStage_ok {fuel : ℕ} {ctx ctx' : Upgrade} {mode : Mode} (hmode : mode.compare = false)
    (h : upgradeStage B env fuel ctx mode w = .ok ((true, ctx'), w')) :
    ctx' = { ctx with component := ctx'.component } ∧ (records ctx.image ctx.header).2 = true ∧
      ∃ evs, w'.log = w.log ++ evs ∧ AllUploaded ctx.mask (records ctx.image ctx.header).1 evs := by
  obtain ⟨⟨ok, ctx''⟩, t, ht, h⟩ := bind_ok.mp h
  obtain ⟨hpair, rfl⟩ := pure_ok.mp h
  obtain ⟨hok, rfl⟩ := Prod.mk.inj hpair
  obtain ⟨rfl, hwhole⟩ := (Bool.and_eq_true _ _).mp hok
  obtain ⟨hctx, hevs⟩ := stageLoop_ok hmode ht
  exact ⟨hctx, hwhole, hevs⟩

theorem prepared_ok {fuel : ℕ} {image : List UInt8} {header : Header} {force : Bool} {selected : ℕ}
    {versions : Versions} {ctx' : Upgrade}
    (h : prepared B env fuel image header { force } selected versions w = .ok (some ctx', w')) :
    ∃ ctx ctx₀ w₁ prep stage, preparation B env { image, header } { force } w =
      .ok (some ctx₀, w₁) ∧
      precheck ctx₀ { force } selected versions = some ctx ∧ ctx.image = image ∧
      ctx.header = header ∧
      ctx' = { ctx with component := ctx'.component } ∧ w₁.log = w.log ++ prep ∧
      w'.log = w.log ++ (prep ++ stage) ∧ (records ctx.image ctx.header).2 = true ∧
      AllUploaded ctx.mask (records ctx.image ctx.header).1 stage := by
  obtain ⟨o, w₁, hprep, hrest⟩ := bind_ok.mp h
  rcases o with _ | ctx₀
  · obtain ⟨h, -⟩ := pure_ok.mp hrest
    cases h
  obtain ⟨prep, hlog₁, -⟩ := says_preparation _ _ _ _ _ hprep
  obtain ⟨himage, hheader⟩ := preparation_keeps hprep
  dsimp only at hrest himage hheader
  rcases hpre : precheck ctx₀ { force } selected versions with _ | ctx
  · rw [hpre] at hrest
    obtain ⟨h, -⟩ := pure_ok.mp hrest
    cases h
  rw [hpre] at hrest
  have hkeeps := precheck_keeps hpre
  obtain ⟨⟨ok, ctx''⟩, t, ht, hend⟩ := bind_ok.mp hrest
  obtain ⟨hctx, rfl⟩ := pure_ok.mp hend
  rcases ok with _ | _
  · cases hctx
  obtain rfl := Option.some.inj hctx
  obtain ⟨hcomp, hwhole, stage, hlog, huploaded⟩ := upgradeStage_ok rfl ht
  exact ⟨ctx, ctx₀, w₁, prep, stage, hprep, hpre, by rw [hkeeps]; exact himage,
    by rw [hkeeps]; exact hheader, hcomp, hlog₁, by rw [hlog, hlog₁, List.append_assoc], hwhole,
    huploaded⟩

end

/-- **An upgrade that says that it was successful.** An upgrade with activation that returns zero
has uploaded every record of the selected components, and activated them if the target was not asked
about a rollback. -/
theorem upgrade_honest {β : Type} (B : Bmc β) (env : Env) (md5 : List UInt8 → List UInt8) (fuel : ℕ)
    (image : List UInt8) (selected : ℕ) (force : Bool) (versions : Versions)
    (w w' : CmdWorld Vars β)
    (h : upgrade B env md5 fuel image true selected { force } versions w = .ok (0, w')) :
    ∃ ctx prep stage act,
      Honest B env md5 image selected { force } versions w w' ctx prep stage act := by
  unfold upgrade at h
  rcases hvalid : validateImage md5 image with _ | header
  · rw [hvalid] at h
    obtain ⟨h, -⟩ := pure_ok.mp h
    exact absurd h (by decide)
  rw [hvalid] at h
  obtain ⟨o, t, ht, hact⟩ := bind_ok.mp h
  rcases o with _ | ctx'
  · obtain ⟨h, -⟩ := pure_ok.mp hact
    exact absurd h (by decide)
  obtain ⟨ctx, ctx₀, w₁, prep, stage, hprep, hpre, himage, rfl, hcomp, hlog₁, hlog, hwhole,
    huploaded⟩ := prepared_ok ht
  dsimp only at hact
  by_cases hmask : ctx'.mask = 0
  · rw [if_neg fun h => h.2 hmask] at hact
    obtain ⟨-, rfl⟩ := pure_ok.mp hact
    rw [hcomp] at hmask
    exact ⟨ctx, prep, stage, [], hvalid, himage, ⟨ctx₀, w₁, hprep, hpre, hlog₁⟩, by rw [hlog]; simp,
      hwhole, huploaded, fun hne => (hne hmask).elim⟩
  · rw [if_pos ⟨rfl, hmask⟩] at hact
    obtain ⟨ok, t', ht', hend⟩ := bind_ok.mp hact
    obtain ⟨hrc, rfl⟩ := pure_ok.mp hend
    rcases ok with _ | _
    · exact absurd hrc (by decide)
    obtain ⟨act, hlog', hactivated⟩ := activationStage_ok ht'
    rw [hcomp] at hactivated
    exact ⟨ctx, prep, stage, act, hvalid, himage, ⟨ctx₀, w₁, hprep, hpre, hlog₁⟩,
      by rw [hlog', hlog]; simp, hwhole, huploaded, fun _ h => hactivated h⟩

/-! ### Examples -/

/-- A target with two components that takes everything and passes its self test; `answer` is what it
answers to its blocks. -/
def willing (answer : ℕ → List UInt8) : Bmc ℕ := fun n c =>
  if c.cmd = 0x01 then (some (Reply.of ([0x20] ++ List.replicate 10 0)), n)
  else if c.cmd = 0x2e then (some (Reply.of [0, 0, 1, 0, 0, 0, 0, 3]), n)
  else if c.cmd = 0x2f then (some (Reply.of [0, 0]), n)
  else if c.cmd = 0x32 then (some (Reply.of (answer n)), n + 1)
  else if c.cmd = 0x36 then (some (Reply.of [0, 0x55, 0]), n)
  else (some (Reply.of [0]), n)

/-- A target that takes all blocks, one after another. -/
theorem upgrade_honest_second : ∃ w', upgrade (willing fun _ => [0]) ⟨false, true, 40⟩
      (fun _ => digestSecond) 3 imageSecond true 2 { force := false } (fun _ => {}) ⟨{}, 0, []⟩ =
        .ok (0, w') ∧
    ∃ ctx prep stage act, Honest (willing fun _ => [0]) ⟨false, true, 40⟩ (fun _ => digestSecond)
      imageSecond 2 { force := false } (fun _ => {}) ⟨{}, 0, []⟩ w' ctx prep stage act := by
  obtain ⟨rc, w', h, hrc⟩ :=
    exists_of_returns (x := upgrade (willing fun _ => [0]) ⟨false, true, 40⟩
      (fun _ => digestSecond) 3 imageSecond true 2 { force := false } (fun _ => {})) (s :=
        ⟨{}, 0, []⟩)
      (p := fun rc _ => rc = 0) (by decide +kernel)
  obtain rfl : rc = 0 := of_decide_eq_true hrc
  exact ⟨w', h, upgrade_honest _ _ _ _ _ _ _ _ _ _ h⟩

/-- The hash of `imageLong`. -/
def digestLong : List UInt8 :=
  [0x76, 0xf3, 0x71, 0xd2, 0xdf, 0xec, 0xca, 0x31, 0x26, 0x55, 0x8e, 0x37, 0x84, 0x3a, 0xb0, 0x31]

/-- An image for the second component with a payload of forty bytes. -/
def imageLong : List UInt8 :=
  Lib.Bytes.ascii "PICMGFWU" ++ [0, 0x20] ++ List.replicate 10 0 ++ [3] ++
    List.replicate 13 0 ++ [0x7b] ++
    [2, 2, 0xfc, 1] ++ List.replicate 26 0 ++ [40, 0, 0, 0] ++ List.replicate 40 0xaa ++ digestLong

/-- The only record of the image. -/
def longRecord : Record := { sampleRecord 2 with payload := List.replicate 40 0xaa }

/-- After the first block, the target asks for the last byte. -/
def skips (n : ℕ) : List UInt8 := if n = 0 then [0, 39, 0, 0, 0, 1, 0, 0, 0] else [0]

/-- The upgrade is successful, and one byte of the payload was never sent. -/
theorem upgrade_skips :
    (∃ ctx₀ w₁ ctx, preparation (willing skips) ⟨false, true, 40⟩
        { image := imageLong, header := sampleHeader } {} ⟨{}, 0, []⟩ = .ok (some ctx₀, w₁) ∧
      precheck ctx₀ {} 2 (fun _ => {}) = some ctx ∧ bit ctx.mask longRecord.component = true) ∧
    records imageLong sampleHeader = ([longRecord], true) ∧
    ∃ w', upgrade (willing skips) ⟨false, true, 40⟩ (fun _ => digestLong) 4 imageLong true 2 {}
        (fun _ => {}) ⟨{}, 0, []⟩ = .ok (0, w') ∧
      (acknowledged w'.log).length < longRecord.payload.length := by
  refine ⟨?_, by decide +kernel, ?_⟩
  · obtain ⟨o, w₁, h, ho⟩ := exists_of_returns (x := preparation (willing skips) ⟨false, true, 40⟩
      { image := imageLong, header := sampleHeader } {}) (s := ⟨{}, 0, []⟩) (p := fun o _ =>
        o.any fun ctx => (precheck ctx {} 2 fun _ => {}).any fun ctx =>
          bit ctx.mask 1) (by decide +kernel)
    obtain ⟨ctx₀, rfl, hctx⟩ := (Option.any_eq_true _ _).mp ho
    obtain ⟨ctx, hpre, hbit⟩ := (Option.any_eq_true _ _).mp hctx
    exact ⟨ctx₀, w₁, ctx, h, hpre, hbit⟩
  · obtain ⟨rc, w', h, hrc⟩ := exists_of_returns (x := upgrade (willing skips) ⟨false, true, 40⟩
      (fun _ => digestLong) 4 imageLong true 2 {} (fun _ => {})) (s := ⟨{}, 0, []⟩)
      (p := fun rc w' => rc = 0 ∧ (acknowledged w'.log).length < 40) (by decide +kernel)
    obtain ⟨rfl, hlt⟩ := of_decide_eq_true hrc
    exact ⟨w', h, by simpa [longRecord] using hlt⟩

end Ipmitool.Hpm.Honesty
