import Ipmitool.Sdr.Cache
import Ipmitool.Sdr.Served
import Mathlib.Algebra.BigOperators.Group.Finset.Piecewise
import Mathlib.Algebra.Group.Action.Defs
import Mathlib.Algebra.Order.BigOperators.Group.Finset

/-! # Walks that end

Every walk through the repository is one loop around `getNextHeader`, with the loop of `getRecord`
inside (`Walker.loop`): the lookups and `listCache`, `printSdr` and `dumpBin` only differ in what
they do with a record. The header names the next record, and a cancelled reservation is renewed;
neither loop counts. `Step` takes a walk apart into headers and rounds, without any limit, and
`Finishes` says that the walk makes finitely many requests, and that the model with enough turns and
renewals has its result.

A walk finishes exactly if the BMC cancels finitely often and sends the header of no record without
end (`finishes_iff`). -/

namespace Ipmitool.Sdr.Ending

open Ipmitool.Lib Ipmitool.Lib.Mem Ipmitool.Lib.Bytes Ipmitool.Lib.Machine Ipmitool.Lib.Dialogue
open Ipmitool.Core.Types hiding Entry
open Ipmitool.Core.Interface Ipmitool.Sdr.Records Ipmitool.Sdr.Walk Ipmitool.Sdr.Cache
  Ipmitool.Sdr.Rounds
open Ipmitool.Sdr.Served

/-! ### Walks -/

/-- The requests and the length of the reads are unchanged. -/
def Silent {β : Type} : Frame (CmdWorld Vars β) := Frame.same fun w => (w.log, w.vars.maxRead)

/-- What a walk with the result `α` does with a record, or without one that could not be read: it
ends, or goes on and adds to the result. It sends nothing itself. -/
structure Walker (β α : Type) where
  finish : Itr → Talk β α
  visit : Header → Option (List UInt8) → Itr → Talk β (α ⊕ (α → α))
  last : α
  silent : ∀ h o itr, Moves Silent (visit h o itr)

section
variable {β α : Type} (B : Bmc β) (env : Env β) (V : Walker β α)

/-- The loop around `getNextHeader`. -/
def Walker.loop : ℕ → Itr → Talk β α
  | 0, _ => return V.last
  | turns + 1, itr => do
    let h ← getNextHeader B itr
    match h.1 with
    | none => V.finish h.2
    | some header =>
      let r ← getRecord B env header h.2
      match ← V.visit header r.1 r.2 with
      | .inl a => return a
      | .inr f =>
        let rest ← Walker.loop turns r.2
        return f rest

/-- A walk is about to read a header, or the body of a record. -/
inductive Place (β : Type)
  | header (itr : Itr) (w : CmdWorld Vars β)
  | body (h : Header) (s : Loop β)

def Place.log : Place β → List Exchange
  | .header _ w => w.log
  | .body _ s => s.world.log

/-- A walk goes on. -/
inductive Step : Place β → Place β → Prop
  | header {itr itr' : Itr} {w w1 w2 : CmdWorld Vars β} {h : Header} {limit : ℕ} :
    getNextHeader B itr w = .ok ((some h, itr'), w1) → readLen env w1 = .ok (limit, w2) →
    Step (.header itr w) (.body h ⟨itr', limit, [], w2⟩)
  | round {h : Header} {s s' : Loop β} : s.data.length < h.length.toNat → s.data.length ≤ 250 →
    Round B h s s' →
    Step (.body h s) (.body h s')
  | done {h : Header} {s : Loop β} {f : α → α} {w' : CmdWorld Vars β} :
    h.length.toNat ≤ s.data.length →
    V.visit h ((some s.data).filter (recordLengthValid h.type)) s.itr s.world = .ok (.inr f, w') →
    Step (.body h s) (.header s.itr w')
  | stopped {h : Header} {s : Loop β} {w1 w' : CmdWorld Vars β} {f : α → α} :
    s.data.length < h.length.toNat →
    s.data.length ≤ 250 → Stops B h s w1 → V.visit h none s.itr w1 = .ok (.inr f, w') →
    Step (.body h s) (.header s.itr w')

/-- A walk gets from one place to another. -/
def Reaches : Place β → Place β → Prop := Relation.ReflTransGen (Step B env V)

/-- The walk makes at most `n` requests, and so many turns and renewals are enough for its
result. -/
structure FinishesIn (itr : Itr) (w : CmdWorld Vars β) (n : ℕ) : Prop where
  requests : ∀ p, Reaches B env V (.header itr w) p → p.log.length ≤ w.log.length + n
  result : ∀ turns renewals, n < turns → n ≤ renewals →
    V.loop B { env with renewals } turns itr w = V.loop B { env with renewals := n } (n + 1) itr w

/-- The walk makes finitely many requests. -/
def Finishes (itr : Itr) (w : CmdWorld Vars β) : Prop := ∃ n, FinishesIn B env V itr w n

end

/-! ### What the BMC does -/

/-- A request for a record. -/
def isGet (c : Command) : Bool := c.cmd = 0x23 ∨ c.cmd = 0x21

/-- The record that is asked for. -/
def idOf (c : Command) : UInt16 := ofLe16 (c.data.getD 2 0) (c.data.getD 3 0)

/-- The BMC sent the header of a record. -/
def sentHeader (x : Exchange) : Bool :=
  isGet x.1 ∧ x.1.data.getD 4 0 = 0 ∧ x.2.any fun r => r.ccode = 0

/-- The BMC cancelled the reservation. -/
def cancelled (x : Exchange) : Bool := isGet x.1 ∧ x.2.any fun r => r.ccode = 0xc5

/-- The BMC sent nothing, as it was asked. -/
def sentNothing (x : Exchange) : Bool :=
  isGet x.1 ∧ x.1.data.getD 5 0 = 0 ∧ x.2.any fun r => r.ccode = 0

/-- At most `k` times a reservation was cancelled, nothing was sent, and the header of any one
record was sent. -/
structure Tame (k : ℕ) (log : List Exchange) : Prop where
  cancels : log.countP cancelled ≤ k
  empties : log.countP sentNothing ≤ k
  headers : ∀ id, log.countP (fun x => sentHeader x ∧ idOf x.1 = id) ≤ k

theorem countP_le_keys {τ : Type} {p : τ → Bool} {key : τ → ℕ} {keys k : ℕ} {l : List τ}
    (hkey : ∀ x, key x < keys) (h : ∀ j < keys, l.countP (fun x => p x ∧ key x = j) ≤ k) :
    l.countP p ≤ keys * k := by
  have hsum : l.countP p = ∑ j ∈ Finset.range keys, l.countP (fun x => p x ∧ key x = j) := by
    clear h
    induction l with
    | nil => simp
    | cons x l ih =>
      simp only [List.countP_cons, Finset.sum_add_distrib, ← ih]
      rcases hp : p x
      · simp
      · have hone : ∑ j ∈ Finset.range keys, (if key x = j then 1 else 0) = 1 := by
          rw [Finset.sum_ite_eq, if_pos (Finset.mem_range.mpr (hkey x))]
        simpa using hone.symm
  rw [hsum]
  have hle := Finset.sum_le_card_nsmul (Finset.range keys) _ k fun j hj =>
    h j (Finset.mem_range.mp hj)
  rwa [Finset.card_range, smul_eq_mul] at hle

theorem Tame.sentHeader_le {k : ℕ} {log : List Exchange} (h : Tame k log) :
    log.countP sentHeader ≤ 65536 * k := by
  have hkey : ∀ x : Exchange, (idOf x.1).toNat < 65536 := fun x => (idOf x.1).toNat_lt
  refine countP_le_keys hkey fun j hj => ?_
  have hid := h.headers (UInt16.ofNat j)
  refine le_trans (List.countP_mono_left fun x _ hx => ?_) hid
  obtain ⟨hsent, hkey⟩ := of_decide_eq_true hx
  refine decide_eq_true ⟨hsent, ?_⟩
  rw [← hkey, UInt16.ofNat_toNat]

/-! ### The requests of a step -/

/-- What the BMC has to pay for: every header pays for a record of 255 bytes. -/
def spending (limit : ℕ) (log : List Exchange) : ℕ :=
  (522 + 2 * limit) * log.countP sentHeader + 2 * log.countP cancelled + 2 * log.countP sentNothing

theorem spending_append (limit : ℕ) (xs ys : List Exchange) :
    spending limit (xs ++ ys) = spending limit xs + spending limit ys := by
  unfold spending
  simp only [List.countP_append, Nat.mul_add]
  omega

theorem Tame.spending_le {k : ℕ} {log : List Exchange} (h : Tame k log) (limit : ℕ) :
    spending limit log ≤ (522 + 2 * limit) * (65536 * k) + 4 * k := by
  have hheaders := Nat.mul_le_mul_left (522 + 2 * limit) h.sentHeader_le
  have hcancels := h.cancels
  have hempties := h.empties
  unfold spending
  omega

section
variable {β : Type} {B : Bmc β} {env : Env β}

theorem headerTries_log : ∀ {tries : ℕ} {itr itr' : Itr} {r : Reply} {w w' : CmdWorld Vars β},
    headerTries B tries itr w = .ok ((some r, itr'), w') →
    ∃ evs, w'.log = w.log ++ evs ∧ evs.length ≤ 2 * tries ∧ 1 ≤ evs.countP sentHeader
  | 0, itr, itr', r, w, w', h => by
    obtain ⟨he, -⟩ := pure_ok.mp h
    cases he
  | tries + 1, itr, itr', r, w, w', h => by
    obtain ⟨o, w1, ho, h⟩ := bind_ok.mp h
    obtain ⟨hlog1, -⟩ := ask_log ho
    -- the exchanges of a try that failed stand before those of the tries that follow
    have hmore : ∀ (front : List Exchange) {itr1 : Itr} {w2 : CmdWorld Vars β}, front.length ≤ 2 →
        w2.log = w.log ++ front → headerTries B tries itr1 w2 = .ok ((some r, itr'), w') →
        ∃ evs, w'.log = w.log ++ evs ∧ evs.length ≤ 2 * (tries + 1) ∧
          1 ≤ evs.countP sentHeader := by
      intro front itr1 w2 hfront hlog2 h
      obtain ⟨evs, hlog, hlen, hsent⟩ := headerTries_log h
      refine ⟨front ++ evs, by rw [hlog, hlog2, List.append_assoc], ?_, ?_⟩
      · rw [List.length_append]
        omega
      · rw [List.countP_append]
        omega
    rcases o with _ | r0
    · exact hmore _ (by simp) hlog1 h
    · simp only at h
      by_cases hc5 : r0.ccode = 0xc5
      · rw [if_pos hc5] at h
        obtain ⟨o2, w2, h2, h⟩ := bind_ok.mp h
        obtain ⟨o3, ho3⟩ := getReservation_eq (B := B) itr.useBuiltIn w1
        rw [ho3] at h2
        obtain ⟨rfl, rfl⟩ := Prod.mk.inj (Except.ok.inj h2)
        rcases o3 with _ | reservation
        · obtain ⟨he, -⟩ := pure_ok.mp h
          cases he
        · refine hmore _ ?_ (by rw [World.asked_log, hlog1, List.append_assoc]) h
          simp
      · rw [if_neg hc5] at h
        by_cases hc : r0.ccode = 0
        · rw [if_neg (not_not.mpr hc)] at h
          obtain ⟨-, rfl⟩ := pure_ok.mp h
          refine ⟨_, hlog1, by simp; omega, ?_⟩
          have hsent : sentHeader (getRequest itr itr.next 0 5, some r0) = true := by
            rcases hb : itr.useBuiltIn <;> simp [sentHeader, isGet, getRequest, le16, hb, hc]
          simp [hsent]
        · rw [if_pos hc] at h
          exact hmore _ (by simp) hlog1 h

/-- A header that is read: what it takes, and that it stands for a body. -/
theorem getNextHeader_log {itr itr' : Itr} {h : Header} {w w' : CmdWorld Vars β}
    (h1 : getNextHeader B itr w = .ok ((some h, itr'), w')) :
    h.length ≠ 0 ∧ ∃ evs, w'.log = w.log ++ evs ∧ evs.length ≤ 10 ∧ 1 ≤ evs.countP sentHeader := by
  unfold getNextHeader at h1
  by_cases hend : itr.next = 0xffff
  · rw [if_pos hend] at h1
    obtain ⟨he, -⟩ := pure_ok.mp h1
    cases he
  · rw [if_neg hend] at h1
    obtain ⟨r, w1, hr, h1⟩ := bind_ok.mp h1
    obtain ⟨⟨o, itr2⟩, w2, htries, hr⟩ := bind_ok.mp hr
    obtain ⟨rfl, rfl⟩ := pure_ok.mp hr
    rcases o with _ | reply
    · obtain ⟨he, -⟩ := pure_ok.mp h1
      cases he
    · simp only [Option.bind_some] at h1
      rcases hheader : headerOf itr.next reply with _ | h0
      · rw [hheader] at h1
        obtain ⟨he, -⟩ := pure_ok.mp h1
        cases he
      · rw [hheader] at h1
        obtain ⟨he, rfl⟩ := pure_ok.mp h1
        obtain ⟨he, -⟩ := Prod.mk.inj he
        obtain rfl := Option.some.inj he
        refine ⟨?_, headerTries_log htries⟩
        unfold headerOf at hheader
        by_cases hshort : reply.dataLen < 7 ∨ reply.data 6 = 0
        · rw [if_pos hshort] at hheader
          cases hheader
        · rw [if_neg hshort] at hheader
          obtain rfl := Option.some.inj hheader
          exact (not_or.mp hshort).2

/-- What is left to be asked for: each byte, and each length of the reads, at most once. -/
def left (h : Header) (s : Loop β) : ℕ := (h.length.toNat - s.data.length) + s.maxRead + 1

theorem round_log {h : Header} {s s' : Loop β} (limit : ℕ) (hlt : s.data.length < h.length.toNat)
    (hround : Round B h s s') :
    ∃ evs, s'.world.log = s.world.log ++ evs ∧ 1 ≤ evs.length ∧
      evs.length + 2 * left h s' ≤ 2 * left h s + spending limit evs := by
  have hle := s.count_le (h := h)
  have hrest := s.count_le_rest (h := h)
  have hget : isGet (s.request h) = true := by
    rcases hb : s.itr.useBuiltIn <;> simp [isGet, Loop.request, getRequest, hb]
  rcases hround with ⟨-, hmore⟩ | ⟨hr, hc, hnew⟩ | ⟨hr, hc, -⟩
  · refine ⟨[(s.request h, s.reply B h)], rfl, le_rfl, ?_⟩
    simp only [left, List.length_singleton]
    omega
  · obtain ⟨o, ho⟩ := getReservation_eq (B := B) s.itr.useBuiltIn (s.asked B h)
    rw [ho] at hnew
    obtain ⟨-, rfl⟩ := Prod.mk.inj (Except.ok.inj hnew)
    refine ⟨(s.request h, s.reply B h) :: [_], by rw [World.asked_log, Loop.asked, World.asked_log, List.append_assoc]; rfl,
      by simp, ?_⟩
    have hcancel : cancelled (s.request h, s.reply B h) = true := by simp [cancelled, hget, hr, hc]
    simp only [left, List.length_cons, List.length_nil, spending, List.countP_cons, hcancel, if_true]
    omega
  · refine ⟨[(s.request h, s.reply B h)], rfl, le_rfl, ?_⟩
    by_cases hzero : s.count h = 0
    · have hempty : sentNothing (s.request h, s.reply B h) = true := by
        have hlen : (s.request h).data.getD 5 0 = UInt8.ofNat (s.count h) := rfl
        simp only [sentNothing, hget, hlen, hzero, hr, hc, Option.any_some, decide_true]
        rfl
      simp only [left, List.length_singleton, List.length_append, length_read, hzero, spending, List.countP_cons,
        hempty, if_true]
      omega
    · simp only [left, List.length_singleton, List.length_append, length_read]
      omega

theorem stops_log {h : Header} {s : Loop β} {w' : CmdWorld Vars β} (hstop : Stops B h s w') :
    ∃ evs, w'.log = s.world.log ++ evs ∧ 1 ≤ evs.length ∧ evs.length ≤ 2 := by
  rcases hstop with ⟨-, -⟩ | ⟨-, -, hnew⟩ | ⟨-, -, -, -⟩
  · exact ⟨[(s.request h, s.reply B h)], rfl, le_rfl, by simp⟩
  · obtain ⟨o, ho⟩ := getReservation_eq (B := B) s.itr.useBuiltIn (s.asked B h)
    rw [ho] at hnew
    obtain ⟨-, rfl⟩ := Prod.mk.inj (Except.ok.inj hnew)
    refine ⟨(s.request h, s.reply B h) :: [_], by rw [World.asked_log, Loop.asked, World.asked_log, List.append_assoc]; rfl,
      by simp, by simp⟩
  · exact ⟨[(s.request h, s.reply B h)], rfl, le_rfl, by simp⟩

/-- The length of the reads stays below its first value, or 254. -/
theorem readLen_le {n limit : ℕ} {w w' : CmdWorld Vars β} (h : readLen env w = .ok (n, w'))
    (hlimit : 254 ≤ limit) (hw : w.vars.maxRead.toNat ≤ limit) :
    n ≤ limit ∧ w'.vars.maxRead.toNat ≤ limit ∧ w'.log = w.log := by
  unfold readLen at h
  rw [bind_run (a := w) (t := w) rfl] at h
  split_ifs at h
  · exact (throw_ok.mp h).elim
  · obtain ⟨rfl, rfl⟩ := pure_ok.mp h
    exact ⟨hw, hw, rfl⟩
  · exact (throw_ok.mp h).elim
  · obtain ⟨_, w1, hset, h⟩ := bind_ok.mp h
    obtain rfl := set_ok.mp hset
    obtain ⟨rfl, rfl⟩ := pure_ok.mp h
    refine ⟨by omega, ?_, rfl⟩
    change (((min (env.maxResponse - 2) 0xfe : ℕ) : ℤ)).toNat ≤ limit
    omega

/-! ### What a walk costs -/

/-- The lengths of the reads that may still come. -/
def Place.limits (limit : ℕ) : Place β → Prop
  | .header _ w => w.vars.maxRead.toNat ≤ limit
  | .body _ s => s.maxRead ≤ limit ∧ s.world.vars.maxRead.toNat ≤ limit

def Place.left : Place β → ℕ
  | .header _ _ => 0
  | .body h s => Ending.left h s

/-- All requests but the first `n` are paid for. -/
structure Paid (n limit : ℕ) (p : Place β) : Prop where
  limits : p.limits limit
  log : p.log.length + 2 * p.left ≤ n + spending limit p.log

end

section
variable {β α : Type} {B : Bmc β} {env : Env β} {V : Walker β α}

theorem Walker.visit_silent {h : Header} {o : Option (List UInt8)} {itr : Itr}
    {w w' : CmdWorld Vars β}
    {a : α ⊕ (α → α)} (hvisit : V.visit h o itr w = .ok (a, w')) :
    w'.log = w.log ∧ w'.vars.maxRead = w.vars.maxRead :=
  Prod.mk.inj ((V.silent h o itr).rel hvisit)

theorem round_limits {h : Header} {s s' : Loop β} {limit : ℕ} (hround : Round B h s s')
    (hs : s.maxRead ≤ limit ∧ s.world.vars.maxRead.toNat ≤ limit) :
    s'.maxRead ≤ limit ∧ s'.world.vars.maxRead.toNat ≤ limit := by
  have hle := s.count_le (h := h)
  rcases hround with ⟨-, -⟩ | ⟨-, -, hnew⟩ | ⟨-, -, -⟩
  · refine ⟨by change s.count h - 1 ≤ limit; omega, ?_⟩
    change ((s.count h : ℤ) - 1).toNat ≤ limit
    omega
  · obtain ⟨o, ho⟩ := getReservation_eq (B := B) s.itr.useBuiltIn (s.asked B h)
    rw [ho] at hnew
    obtain ⟨-, rfl⟩ := Prod.mk.inj (Except.ok.inj hnew)
    exact hs
  · exact hs

theorem stops_limits {h : Header} {s : Loop β} {w' : CmdWorld Vars β} {limit : ℕ}
    (hstop : Stops B h s w') (hs : s.maxRead ≤ limit ∧ s.world.vars.maxRead.toNat ≤ limit) :
    w'.vars.maxRead.toNat ≤ limit := by
  have hle := s.count_le (h := h)
  rcases hstop with ⟨-, -⟩ | ⟨-, -, hnew⟩ | ⟨-, -, -, -⟩
  · change ((s.count h : ℤ) - 1).toNat ≤ limit
    omega
  · obtain ⟨o, ho⟩ := getReservation_eq (B := B) s.itr.useBuiltIn (s.asked B h)
    rw [ho] at hnew
    obtain ⟨-, rfl⟩ := Prod.mk.inj (Except.ok.inj hnew)
    exact hs.2
  · exact hs.2

theorem step_paid {n limit : ℕ} (hlimit : 254 ≤ limit) {p q : Place β} (hp : Paid n limit p)
    (hstep : Step B env V p q) : Paid n limit q := by
  obtain ⟨hlimits, hlog⟩ := hp
  rcases hstep with ⟨hheader, hlen⟩ | ⟨hlt, hle, hround⟩ | ⟨hdone, hvisit⟩ | ⟨hlt, hle,
    hstop, hvisit⟩
  · rename_i itr itr' w w1 w2 h m
    obtain ⟨-, evs, hlog1, hevs, hsent⟩ := getNextHeader_log hheader
    have hvars : w1.vars = w.vars := (vars_getNextHeader itr).rel hheader
    obtain ⟨hm, hmax, hlog2⟩ := readLen_le hlen hlimit (by rw [hvars]; exact hlimits)
    refine ⟨⟨hm, hmax⟩, ?_⟩
    have hpays : 522 + 2 * limit ≤ spending limit evs := by
      have := Nat.le_mul_of_pos_right (522 + 2 * limit) hsent
      unfold spending
      omega
    have hlength := h.length.toNat_lt
    simp only [Place.log, Place.left, Ending.left, hlog2, hlog1, spending_append,
      List.length_append, List.length_nil] at hlog ⊢
    omega
  · obtain ⟨evs, hlog1, -, hpays⟩ := round_log limit hlt hround
    refine ⟨round_limits hround hlimits, ?_⟩
    simp only [Place.log, Place.left, hlog1, spending_append, List.length_append] at hlog ⊢
    omega
  · obtain ⟨hlog1, hmax⟩ := Walker.visit_silent hvisit
    refine ⟨by simp only [Place.limits, hmax]; exact hlimits.2, ?_⟩
    simp only [Place.log, Place.left, hlog1] at hlog ⊢
    omega
  · obtain ⟨evs, hlog1, -, hevs⟩ := stops_log hstop
    obtain ⟨hlog2, hmax⟩ := Walker.visit_silent hvisit
    refine ⟨by simp only [Place.limits, hmax]; exact stops_limits hstop hlimits, ?_⟩
    simp only [Place.log, Place.left, Ending.left, hlog2, hlog1, spending_append,
      List.length_append] at hlog ⊢
    omega

theorem requests_le {itr : Itr} {w : CmdWorld Vars β} {k : ℕ}
    (htame : ∀ p, Reaches B env V (.header itr w) p → Tame k p.log) :
    ∃ n, ∀ p, Reaches B env V (.header itr w) p → p.log.length ≤ w.log.length + n := by
  set limit := max w.vars.maxRead.toNat 254 with hlimit
  refine ⟨(522 + 2 * limit) * (65536 * k) + 4 * k, fun p hp => ?_⟩
  have hstart : Paid w.log.length limit (.header itr w) :=
    ⟨by simp only [Place.limits]; omega, by simp only [Place.log, Place.left]; omega⟩
  have hpaid : Paid w.log.length limit p := by
    induction hp with
    | refl => exact hstart
    | tail _ hstep ih => exact step_paid (by omega) ih hstep
  have hspent := (htame p hp).spending_le limit
  have hlog := hpaid.log
  omega

theorem reaches_grows {p q : Place β} (h : Reaches B env V p q) : p.log.length ≤ q.log.length := by
  induction h with
  | refl => exact le_rfl
  | tail _ hstep ih =>
    refine ih.trans ?_
    rcases hstep with ⟨hheader, hlen⟩ | ⟨hlt, -, hround⟩ | ⟨-, hvisit⟩ | ⟨-, -, hstop, hvisit⟩
    · obtain ⟨-, evs, hlog1, -, -⟩ := getNextHeader_log hheader
      have hlog2 := (readLen_le hlen (Nat.le_max_right _ 254) (Nat.le_max_left _ _)).2.2
      simp [Place.log, hlog2, hlog1]
    · obtain ⟨evs, hlog1, -, -⟩ := round_log 0 hlt hround
      simp [Place.log, hlog1]
    · obtain ⟨hlog1, -⟩ := Walker.visit_silent hvisit
      simp [Place.log, hlog1]
    · obtain ⟨evs, hlog1, -, -⟩ := stops_log hstop
      obtain ⟨hlog2, -⟩ := Walker.visit_silent hvisit
      simp [Place.log, hlog2, hlog1]

/-! ### The loops with enough fuel -/

/-- A record whose requests are bounded takes no more rounds than requests. -/
theorem run_settles {h : Header} {n : ℕ} : ∀ {fuel fuel' : ℕ} {s : Loop β},
    (∀ p, Reaches B env V (.body h s) p → p.log.length ≤ n) → n < s.world.log.length + fuel →
    n < s.world.log.length + fuel' → s.run B h fuel = s.run B h fuel'
  | 0, _, s, hn, hfuel, _ => absurd (hn _ .refl) (by simp only [Place.log]; omega)
  | _, 0, s, hn, _, hfuel => absurd (hn _ .refl) (by simp only [Place.log]; omega)
  | fuel + 1, fuel' + 1, s, hn, hfuel, hfuel' => by
    rcases recordLoop_stages B h s with ⟨-, he⟩ | ⟨-, -, he⟩ | ⟨hlt, hle,
      ⟨w1, -, he⟩ | ⟨s', hround, he⟩⟩
    · rw [he, he]
    · rw [he, he]
    · rw [he, he]
    · obtain ⟨evs, hlog, hevs, -⟩ := round_log 0 hlt hround
      have hgrows : s'.world.log.length = s.world.log.length + evs.length := by
        rw [hlog, List.length_append]
      rw [he, he]
      exact run_settles (fun p hp => hn p (.head (.round hlt hle hround) hp)) (by omega) (by omega)

/-- Where the record is returned or given up, the walk goes on as its visitor says. -/
theorem run_reaches {h : Header} {n : ℕ} {o : Option (List UInt8)} {itr' : Itr}
    {w1 w' : CmdWorld Vars β} {f : α → α}
    (hvisit : V.visit h (o.filter (recordLengthValid h.type)) itr' w1 = .ok (.inr f, w')) :
    ∀ {fuel : ℕ} {s : Loop β}, (∀ p, Reaches B env V (.body h s) p → p.log.length ≤ n) →
    n < s.world.log.length + fuel → s.run B h fuel = .ok ((o, itr'), w1) →
    Reaches B env V (.body h s) (.header itr' w')
  | 0, s, hn, hfuel, _ => absurd (hn _ .refl) (by simp only [Place.log]; omega)
  | fuel + 1, s, hn, hfuel, hrun => by
    rcases recordLoop_stages B h s with ⟨hdone, he⟩ | ⟨-, -, he⟩ |
      ⟨hlt, hle, ⟨w2, hstop, he⟩ | ⟨s', hround, he⟩⟩
    · rw [he] at hrun
      obtain ⟨hpair, rfl⟩ := Prod.mk.inj (Except.ok.inj hrun)
      obtain ⟨rfl, rfl⟩ := Prod.mk.inj hpair
      exact .single (.done hdone hvisit)
    · rw [he] at hrun
      cases hrun
    · rw [he] at hrun
      obtain ⟨hpair, rfl⟩ := Prod.mk.inj (Except.ok.inj hrun)
      obtain ⟨rfl, rfl⟩ := Prod.mk.inj hpair
      exact .single (.stopped hlt hle hstop hvisit)
    · obtain ⟨evs, hlog, hevs, -⟩ := round_log 0 hlt hround
      have hgrows : s'.world.log.length = s.world.log.length + evs.length := by
        rw [hlog, List.length_append]
      rw [he] at hrun
      exact .head (.round hlt hle hround)
        (run_reaches hvisit (fun p hp => hn p (.head (.round hlt hle hround) hp)) (by omega) hrun)

/-- A walk whose requests are bounded has one result, as soon as there are enough turns and
renewals. -/
theorem loop_settles {n r r' : ℕ} : ∀ {turns turns' : ℕ} {itr : Itr} {w : CmdWorld Vars β},
    (∀ p, Reaches B env V (.header itr w) p → p.log.length ≤ n) → n < w.log.length + turns →
    n < w.log.length + turns' → n ≤ w.log.length + r → n ≤ w.log.length + r' →
    V.loop B { env with renewals := r } turns itr w =
      V.loop B { env with renewals := r' } turns' itr w
  | 0, _, itr, w, hn, hturns, _, _, _ => absurd (hn _ .refl) (by simp only [Place.log]; omega)
  | _, 0, itr, w, hn, _, hturns, _, _ => absurd (hn _ .refl) (by simp only [Place.log]; omega)
  | turns + 1, turns' + 1, itr, w, hn, hturns, hturns', hr, hr' => by
    rw [Walker.loop, Walker.loop]
    refine bind_eq_bind rfl ?_
    rintro ⟨o, itr1⟩ w1 hheader
    rcases o with _ | h
    · rfl
    obtain ⟨hne, evs, hlog1, -, hsent⟩ := getNextHeader_log hheader
    have hevs : 1 ≤ evs.length := le_trans hsent List.countP_le_length
    -- the fuel of the loop for the record does not matter
    rcases hlen : readLen env w1 with e | ⟨limit, w2⟩
    · have herror : ∀ k, getRecord B { env with renewals := k } h itr1 w1 = .error e := by
        intro k
        unfold getRecord
        rw [if_neg hne]
        exact bind_error.mpr (.inl hlen)
      refine bind_eq_bind ((herror r).trans (herror r').symm) fun a t ha => ?_
      rw [herror] at ha
      cases ha
    · have hlog2 : w2.log = w1.log :=
        (readLen_le hlen (Nat.le_max_right _ 254) (Nat.le_max_left _ _)).2.2
      have hbody : ∀ p, Reaches B env V (.body h ⟨itr1, limit, [], w2⟩) p → p.log.length ≤ n :=
        fun p hp =>
          hn p (.head (.header hheader hlen) hp)
      have hgrows : w2.log.length = w.log.length + evs.length := by
        rw [hlog2, hlog1, List.length_append]
      have hrun : ∀ k, getRecord B { env with renewals := k } h itr1 w1 =
          ((Loop.mk itr1 limit [] w2).run B h (h.length.toNat + limit + k + 1)).bind fun r =>
            .ok ((r.1.1.filter (recordLengthValid h.type), r.1.2), r.2) := by
        intro k
        have hlen' : readLen { env with renewals := k } w1 = .ok (limit, w2) := hlen
        exact getRecord_eq hne hlen' itr1
      refine bind_eq_bind ?_ ?_
      · have hsame : (Loop.mk itr1 limit [] w2).run B h (h.length.toNat + limit + r + 1) =
            (Loop.mk itr1 limit [] w2).run B h (h.length.toNat + limit + r' + 1) :=
          run_settles hbody (by simp only; omega) (by simp only; omega)
        rw [hrun, hrun, hsame]
      rintro ⟨o2, itr2⟩ w3 hrecord
      refine bind_eq_bind rfl ?_
      rintro a w4 hvisit
      rcases a with a | f
      · rfl
      rw [hrun] at hrecord
      rcases hloop : (Loop.mk itr1 limit [] w2).run B h
        (h.length.toNat + limit + r + 1) with e | ⟨⟨o3, itr3⟩, w5⟩
      · rw [hloop] at hrecord
        cases hrecord
      rw [hloop] at hrecord
      obtain ⟨hpair, rfl⟩ := Prod.mk.inj (Except.ok.inj hrecord)
      obtain ⟨rfl, rfl⟩ := Prod.mk.inj hpair
      have hreaches := run_reaches hvisit hbody (by simp only; omega) hloop
      have hnext : ∀ p, Reaches B env V (.header itr3 w4) p → p.log.length ≤ n := fun p hp =>
        hbody p (hreaches.trans hp)
      have hlonger : w2.log.length ≤ w4.log.length := reaches_grows hreaches
      exact bind_eq_bind (loop_settles hnext (by omega) (by omega) (by omega)
        (by omega)) fun _ _ _ => rfl

end

/-- **A walk makes finitely many requests exactly if the BMC cancels finitely often, and sends
nothing, or the header of any one record, finitely often.** -/
theorem finishes_iff {β α : Type} (B : Bmc β) (env : Env β) (V : Walker β α) (itr : Itr)
    (w : CmdWorld Vars β) :
    Finishes B env V itr w ↔ ∃ k, ∀ p, Reaches B env V (.header itr w) p → Tame k p.log := by
  constructor
  · rintro ⟨n, hn⟩
    refine ⟨w.log.length + n, fun p hp => ?_⟩
    have hlog := hn.requests p hp
    exact ⟨le_trans List.countP_le_length hlog, le_trans List.countP_le_length hlog,
      fun id => le_trans List.countP_le_length hlog⟩
  · rintro ⟨k, htame⟩
    obtain ⟨n, hn⟩ := requests_le htame
    refine ⟨n, hn, fun turns renewals hturns hrenewals => ?_⟩
    exact loop_settles hn (by omega) (by omega) (by omega) (by omega)

/-! ### The walks of the program -/

section
variable {β : Type}

theorem silent_setItr (itr : Itr) : Moves Silent (setItr itr : Talk β Unit) := .modify fun _ => rfl

theorem silent_cacheAppend (e : Entry) : Moves Silent (cacheAppend e : Talk β Unit) := by
  intro w r w' h
  obtain ⟨_, _, hget, h⟩ := bind_ok.mp h
  obtain ⟨rfl, rfl⟩ := get_ok.mp hget
  rcases hpush : w.vars.list.push e with _ | list
  · rw [hpush] at h
    exact (throw_ok.mp h).elim
  · rw [hpush] at h
    obtain rfl := set_ok.mp h
    rfl

/-- The entry for a record that is cached. -/
def entryOf (h : Header) (o : Option (List UInt8)) : Option Entry :=
  (o.filter fun _ => isCachedRecordType h.type).map fun record =>
    { id := h.id, type := h.type, record := some record }

/-- The lookups, and `listCache`. -/
def lookups (stop keep : Matcher) : Walker β (Option Entry × List Entry) where
  last := (none, [])
  finish itr := do
    setItr itr
    return (none, [])
  visit h o itr := do
    setItr itr
    match entryOf h o with
    | none => return .inr id
    | some e =>
      let found ← liftM (stop e)
      let kept ← liftM (keep e)
      cacheAppend e
      if found then return .inl (some e, [])
      else return .inr fun r => (r.1, if kept then e :: r.2 else r.2)
  silent h o itr := by
    refine .bind (silent_setItr itr) fun _ => ?_
    rcases entryOf h o with _ | e
    · exact .pure _
    · exact .bind (.lift _) fun _ => .bind (.lift _) fun _ => .bind (silent_cacheAppend e) fun _ =>
        .ite (fun _ => .pure _) fun _ => .pure _

/-- `printSdr`, when the entries of the list are printed. -/
def prints (show_ : Printer β) (rtype : UInt8) : Walker β Bool where
  last := true
  finish itr := do
    setItr itr
    return true
  visit h o itr := do
    setItr itr
    match entryOf h o with
    | none => return .inr id
    | some e =>
      let ok ← if printed rtype e.type then printRecord show_ e else pure true
      cacheAppend e
      return .inr fun rest => ok && rest
  silent h o itr := by
    refine .bind (silent_setItr itr) fun _ => ?_
    rcases entryOf h o with _ | e
    · exact .pure _
    · have hprint : Moves Silent (printRecord show_ e) := by
        intro w r w' hx
        obtain ⟨_, _, hget, hx⟩ := bind_ok.mp hx
        obtain ⟨rfl, rfl⟩ := get_ok.mp hget
        obtain ⟨_, _, hset, hx⟩ := bind_ok.mp hx
        obtain rfl := set_ok.mp hset
        obtain ⟨-, rfl⟩ := pure_ok.mp hx
        rfl
      exact .ite (fun _ => .bind hprint fun _ => .bind (silent_cacheAppend e) fun _ =>
        .pure _) fun _ =>
        .bind (.pure _) fun _ => .bind (silent_cacheAppend e) fun _ => .pure _

/-- `dumpBin`. -/
def dumps : Walker β Bool where
  last := true
  finish _ := return true
  visit h o _ := do
    match o with
    | none => return .inl false
    | some raw =>
      cacheAppend { id := h.id, version := h.version, type := h.type, length := h.length, raw := some raw }
      return .inr id
  silent h o itr := by
    rcases o with _ | raw
    · exact .pure _
    · exact .bind (silent_cacheAppend _) fun _ => .pure _

variable {B : Bmc β} {env : Env β}

theorem listTurn_eq {itr : Itr} {w : CmdWorld Vars β} (hitr : w.vars.listItr = some itr) :
    listTurn B env w = (do
      let h ← getNextHeader B itr
      match h.1 with
      | none => do
        setItr h.2
        return none
      | some header =>
        let r ← getRecord B env header h.2
        setItr r.2
        return some (entryOf header r.1) : Talk β _) w := by
  unfold listTurn turn
  rw [bind_run (a := w) (t := w) rfl, hitr]
  simp only [bind_assoc]
  refine bind_eq_bind rfl ?_
  rintro ⟨o, itr1⟩ w1 -
  rcases o with _ | h
  · rfl
  · simp only [bind_assoc]
    rfl

theorem cacheAppend_listItr {e : Entry} {w w' : CmdWorld Vars β}
    (h : cacheAppend e w = .ok ((), w')) :
    w'.vars.listItr = w.vars.listItr := by
  obtain ⟨_, _, hget, h⟩ := bind_ok.mp h
  obtain ⟨rfl, rfl⟩ := get_ok.mp hget
  rcases hpush : w.vars.list.push e with _ | list
  · rw [hpush] at h
    exact (throw_ok.mp h).elim
  · rw [hpush] at h
    obtain rfl := set_ok.mp h
    rfl

/-- **The lookups are loops of a walker**, and so are `printSdr` and `dumpBin` (`printWalk_eq`,
`dumpWalk_eq`). -/
theorem walk_eq {stop keep : Matcher} : ∀ {turns : ℕ} {itr : Itr} {w : CmdWorld Vars β},
    w.vars.listItr = some itr →
    walk B env stop keep turns w = (lookups stop keep : Walker β _).loop B env turns itr w
  | 0, itr, w, _ => rfl
  | turns + 1, itr, w, hitr => by
    rw [walk, Walker.loop]
    refine (bind_eq_bind (listTurn_eq hitr) fun _ _ _ => rfl).trans ?_
    rw [bind_assoc]
    refine bind_eq_bind rfl ?_
    rintro ⟨o, itr1⟩ w1 -
    rcases o with _ | h
    · rfl
    simp only [bind_assoc, pure_bind]
    refine bind_eq_bind rfl ?_
    rintro ⟨o2, itr2⟩ w2 -
    simp only [lookups, bind_assoc]
    refine bind_eq_bind rfl fun _ w3 hset => ?_
    obtain rfl := modify_ok.mp hset
    rcases entryOf h o2 with _ | e
    · simp only [pure_bind, id, bind_pure]
      exact walk_eq rfl
    simp only [bind_assoc]
    refine bind_eq_bind rfl fun found w4 hfound => bind_eq_bind rfl fun kept w5 hkept =>
      bind_eq_bind rfl fun _ w6 happend => ?_
    obtain ⟨-, rfl⟩ := lift_ok.mp hfound
    obtain ⟨-, rfl⟩ := lift_ok.mp hkept
    have hitr6 := cacheAppend_listItr happend
    rcases found
    · simp only [if_false, Bool.false_eq_true, pure_bind]
      exact bind_eq_bind (walk_eq hitr6) fun _ _ _ => rfl
    · rfl

theorem printWalk_eq {show_ : Printer β} {rtype : UInt8} :
    ∀ {turns : ℕ} {itr : Itr} {w : CmdWorld Vars β},
    w.vars.listItr = some itr →
    printWalk B env show_ rtype turns w = (prints show_ rtype).loop B env turns itr w
  | 0, itr, w, _ => rfl
  | turns + 1, itr, w, hitr => by
    rw [printWalk, Walker.loop]
    refine (bind_eq_bind (listTurn_eq hitr) fun _ _ _ => rfl).trans ?_
    rw [bind_assoc]
    refine bind_eq_bind rfl ?_
    rintro ⟨o, itr1⟩ w1 -
    rcases o with _ | h
    · rfl
    simp only [bind_assoc, pure_bind]
    refine bind_eq_bind rfl ?_
    rintro ⟨o2, itr2⟩ w2 -
    simp only [prints, bind_assoc]
    refine bind_eq_bind rfl fun _ w3 hset => ?_
    obtain rfl := modify_ok.mp hset
    rcases entryOf h o2 with _ | e
    · simp only [pure_bind, id, bind_pure]
      exact printWalk_eq rfl
    have hrest : ∀ (ok : Bool) (w4 : CmdWorld Vars β), w4.vars.listItr = some itr2 →
        (do cacheAppend e
            let rest ← printWalk B env show_ rtype turns
            return ok && rest : Talk β Bool) w4 =
          (do cacheAppend e
              let rest ← (prints show_ rtype).loop B env turns itr2
              return ok && rest : Talk β Bool) w4 := by
      intro ok w4 hitr4
      refine bind_eq_bind rfl fun _ w5 happend => ?_
      have hitr5 := (cacheAppend_listItr happend).trans hitr4
      exact bind_eq_bind (printWalk_eq hitr5) fun _ _ _ => rfl
    by_cases hprinted : printed rtype e.type = true
    · simp only [hprinted, if_true, bind_assoc, pure_bind]
      refine bind_eq_bind rfl fun ok w4 hprint => hrest ok w4 ?_
      obtain ⟨_, _, hget, hprint⟩ := bind_ok.mp hprint
      obtain ⟨rfl, rfl⟩ := get_ok.mp hget
      obtain ⟨_, _, hset, hprint⟩ := bind_ok.mp hprint
      obtain rfl := set_ok.mp hset
      obtain ⟨-, rfl⟩ := pure_ok.mp hprint
      rfl
    · simp only [hprinted, if_false, Bool.false_eq_true, bind_assoc, pure_bind]
      exact hrest true _ rfl

theorem dumpWalk_eq : ∀ (turns : ℕ) (itr : Itr) (w : CmdWorld Vars β),
    dumpWalk B env turns itr w = (dumps : Walker β Bool).loop B env turns itr w
  | 0, itr, w => rfl
  | turns + 1, itr, w => by
    rw [dumpWalk, Walker.loop]
    refine bind_eq_bind rfl ?_
    rintro ⟨o, itr1⟩ w1 -
    rcases o with _ | h
    · rfl
    refine bind_eq_bind rfl ?_
    rintro ⟨o2, itr2⟩ w2 -
    rcases o2 with _ | raw
    · rfl
    simp only [dumps, bind_assoc, pure_bind, id, bind_pure]
    exact bind_eq_bind rfl fun _ w3 _ => dumpWalk_eq turns itr2 w3

end

/-! ### A chain without an end -/

/-- A BMC whose record 1 is followed by itself. -/
def circular : Bmc Unit := fun _ _ => (some (.of [1, 0, 1, 0, 0x51, 0xc0, 1]), ())

def circularEnv : Env Unit := ⟨34, 0, fun b n => (true, b, n)⟩

/-- The walk is between two turns. -/
structure Between (itr : Itr) (w : CmdWorld Vars Unit) : Prop where
  place : itr.next ≠ 0xffff
  size : w.vars.maxRead = 0 ∨ w.vars.maxRead = 32

theorem circular_turn {itr : Itr} {w : CmdWorld Vars Unit} (hb : Between itr w) :
    ∃ itr' w', Reaches circular circularEnv (lookups never never) (.header itr w)
      (.header itr' w') ∧
      w.log.length < w'.log.length ∧ Between itr' w' := by
  set r : Reply := .of [1, 0, 1, 0, 0x51, 0xc0, 1] with hr
  set w1 := w.asked circular (getRequest itr itr.next 0 5) with hw1
  -- the header of the record
  have htries : headerTries circular 5 itr w = .ok ((some r, itr), w1) :=
    bind_ok.mpr ⟨_, _, ask_ok.mpr ⟨rfl, rfl⟩, rfl⟩
  obtain ⟨h, hh, hnext, hlength, htype⟩ :
      ∃ h, headerOf itr.next r = some h ∧ h.next = 1 ∧ h.length = 1 ∧ h.type = 0xc0 :=
        ⟨_, rfl, rfl, rfl, rfl⟩
  have hheader : getNextHeader circular itr w =
      .ok ((some h, { itr with next := h.next }), w1) := by
    unfold getNextHeader
    rw [if_neg hb.place]
    exact bind_ok.mpr ⟨_, _, bind_ok.mpr ⟨_, _, htries,
      pure_ok.mpr ⟨by rw [Option.bind_some, hh], rfl⟩⟩, rfl⟩
  obtain ⟨w2, hlen, hsize, hlog2⟩ : ∃ w2, readLen circularEnv w1 = .ok (32, w2) ∧
      w2.vars.maxRead = 32 ∧
      w2.log = w1.log := by
    have hw : w1.vars.maxRead = w.vars.maxRead := rfl
    unfold readLen
    rw [bind_run (a := w1) (t := w1) rfl, hw]
    rcases hb.size with h0 | h32
    · rw [h0]
      exact ⟨_, rfl, rfl, rfl⟩
    · rw [h32]
      exact ⟨w1, rfl, hw.trans h32, rfl⟩
  -- its only byte
  set s : Loop Unit := ⟨{ itr with next := h.next }, 32, [], w2⟩ with hs
  have hlength' : h.length.toNat = 1 := by rw [hlength]; rfl
  have hcount : s.count h = 1 := by
    simp only [Loop.count, hlength', hs, List.length_nil]
    rfl
  have hround : Round circular h s ⟨s.itr, s.maxRead, s.data ++ Mem.read r.data 2 (s.count h),
      s.asked circular h⟩ :=
    .read rfl rfl (by rw [hcount]; decide)
  -- a record that is not cached
  set w3 := s.asked circular h with hw3
  have hvisit : (lookups never never : Walker Unit _).visit h
      ((some (s.data ++ Mem.read r.data 2 (s.count h))).filter
        (recordLengthValid h.type)) s.itr w3 =
        .ok (.inr id, { w3 with vars := { w3.vars with listItr := some s.itr } }) := by
    have hnone : ∀ o, entryOf h o = none := by
      intro o
      have huncached : isCachedRecordType h.type = false := by rw [htype]; rfl
      rcases o with _ | data <;> simp [entryOf, huncached]
    simp only [lookups, hnone]
    rfl
  refine ⟨s.itr, _, .head (.header hheader hlen)
    (.head (.round ?_ ?_ hround) (.single (.done ?_ hvisit))), ?_, ?_⟩
  · rw [hlength']
    exact Nat.zero_lt_one
  · exact Nat.zero_le _
  · rw [hlength', List.length_append, length_read, hcount]
    exact Nat.le_add_left _ _
  · change w.log.length < (s.asked circular h).log.length
    simp only [Loop.asked, World.asked_log, List.length_append, hs, hlog2, hw1,
      List.length_singleton]
    omega
  · refine ⟨?_, .inr hsize⟩
    change h.next ≠ 0xffff
    rw [hnext]
    decide

/-- `listCache` goes around for ever. -/
theorem circular_never_finishes :
    ¬ Finishes circular circularEnv (lookups never never) ⟨0, 0, false⟩
    { vars := { listItr := some ⟨0, 0, false⟩ }, device := () } := by
  rintro ⟨n, hn⟩
  have hfar : ∀ m, ∃ itr w, Reaches circular circularEnv (lookups never never)
      (.header ⟨0, 0, false⟩ { vars := { listItr := some ⟨0, 0, false⟩ }, device := () })
        (.header itr w) ∧
      m ≤ w.log.length ∧ Between itr w := by
    intro m
    induction m with
    | zero => exact ⟨_, _, .refl, Nat.zero_le _, by decide, .inl rfl⟩
    | succ m ih =>
      obtain ⟨itr, w, hreaches, hlong, hb⟩ := ih
      obtain ⟨itr', w', hturn, hgrows, hb'⟩ := circular_turn hb
      exact ⟨itr', w', hreaches.trans hturn, by omega, hb'⟩
  obtain ⟨itr, w, hreaches, hlong, -⟩ := hfar (n + 1)
  have hle := hn.requests _ hreaches
  simp only [Place.log, List.length_nil] at hle
  omega

end Ipmitool.Sdr.Ending
