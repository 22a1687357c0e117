import Mathlib.Data.List.Basic
import Mathlib.Logic.Function.Basic
import Mathlib.Logic.Relation
import Mathlib.Tactic.Common

/-! # Processes that share a device

A process is a dialogue: it ends with a value, or asks the device a question and goes on with the
answer (`Talk`). Several processes share one device, whose answers need not be determined by its
state; a step is one question of one process and its answer (`Step`), and a run interleaves the
questions in any order.

What one process does is described by a monitor, which has a state of its own and follows the
questions and answers. `Monitor.Along` says of every sequence of answers that the questions are
allowed and that the value at the end fits the state reached. It is proved of a program by the rules
for its parts (`Along.bind`, `Along.ask`), and `Along.mono` weakens it when the state of the monitor
grows. -/

namespace Ipmitool.Lib.Interleave

variable {Q R S α β δ ι : Type}

/-- A dialogue with questions `Q` and answers `R`. -/
inductive Talk (Q R α : Type) where
  | done (a : α)
  | ask (q : Q) (k : R → Talk Q R α)

namespace Talk

/-- One dialogue behind the other. -/
def bind : Talk Q R α → (α → Talk Q R β) → Talk Q R β
  | .done a, f => f a
  | .ask q k, f => .ask q fun r => bind (k r) f

instance : Monad (Talk Q R) where
  pure := .done
  bind := bind

/-- A single question. -/
def query (q : Q) : Talk Q R R := .ask q .done

/-- The value of a dialogue that has ended. -/
def result : Talk Q R α → Option α
  | .done a => some a
  | .ask _ _ => none

end Talk

/-! ### Monitors -/

/-- A monitor: the answers it expects, how an exchange changes its state, and the questions it
allows. -/
structure Monitor (Q R S : Type) where
  may : Q → R → Prop
  next : S → Q → R → S
  allows : S → Q → Prop

namespace Monitor

variable (M : Monitor Q R S)

/-- Whatever is answered, the questions of a dialogue are allowed, and its value fits. -/
def Along (post : S → α → Prop) : Talk Q R α → S → Prop
  | .done a, s => post s a
  | .ask q k, s => M.allows s q ∧ ∀ r, M.may q r → Along post (k r) (M.next s q r)

variable {M} {post : S → α → Prop} {s : S}

theorem Along.pure {a : α} (h : post s a) : M.Along post (pure a) s := h

theorem Along.query {post : S → R → Prop} {q : Q} (hq : M.allows s q)
    (h : ∀ r, M.may q r → post (M.next s q r) r) : M.Along post (Talk.query q) s :=
  ⟨hq, h⟩

/-- The second part starts where the first one ends. -/
theorem Along.bind {post' : S → β → Prop} {f : α → Talk Q R β} :
    ∀ {t : Talk Q R α} {s : S}, M.Along (fun s a => M.Along post' (f a) s) t s →
      M.Along post' (t >>= f) s
  | .done _, _, h => h
  | .ask _ _, _, h => ⟨h.1, fun r hr => Along.bind (h.2 r hr)⟩

/-- A value that fits in a stronger sense fits. -/
theorem Along.weaken {post' : S → α → Prop} (hpost : ∀ s a, post s a → post' s a) :
    ∀ {t : Talk Q R α} {s : S}, M.Along post t s → M.Along post' t s
  | .done _, _, h => hpost _ _ h
  | .ask _ _, _, h => ⟨h.1, fun r hr => Along.weaken hpost (h.2 r hr)⟩

theorem Along.mono {r : S → S → Prop}
    (hnext : ∀ {s s'} q a, r s s' → r (M.next s q a) (M.next s' q a))
    (hallows : ∀ {s s'} q, r s s' → M.allows s q → M.allows s' q)
    (hpost : ∀ {s s'} a, r s s' → post s a → post s' a) :
    ∀ {t : Talk Q R α} {s s' : S}, r s s' → M.Along post t s → M.Along post t s'
  | .done a, _, _, hs, h => hpost a hs h
  | .ask q _, _, _, hs, h =>
    ⟨hallows q hs h.1, fun a ha => Along.mono hnext hallows hpost (hnext q a hs) (h.2 a ha)⟩

end Monitor

/-! ### Whole runs -/

/-- The exchanges of a whole run of a dialogue, and the value at its end. -/
inductive Run : Talk Q R α → List (Q × R) → α → Prop
  | done {a : α} : Run (.done a) [] a
  | ask {q : Q} {k : R → Talk Q R α} {r : R} {xs : List (Q × R)} {a : α} (h : Run (k r) xs a) :
      Run (.ask q k) ((q, r) :: xs) a

/-- A run of two parts is a run of the first and a run of the second. -/
theorem Run.of_bind {f : α → Talk Q R β} {b : β} : ∀ {t : Talk Q R α} {xs : List (Q × R)},
    Run (t >>= f) xs b → ∃ ys zs a, xs = ys ++ zs ∧ Run t ys a ∧ Run (f a) zs b
  | .done a, xs, h => ⟨[], xs, a, rfl, .done, h⟩
  | .ask q k, _, .ask h => by
    obtain ⟨ys, zs, a, rfl, hys, hzs⟩ := Run.of_bind h
    exact ⟨_ :: ys, zs, a, rfl, .ask hys, hzs⟩

theorem exists_run (answer : Q → R) : ∀ t : Talk Q R α, ∃ xs a, Run t xs a
  | .done a => ⟨[], a, .done⟩
  | .ask q k => by
    obtain ⟨xs, a, h⟩ := exists_run answer (k (answer q))
    exact ⟨(q, answer q) :: xs, a, .ask h⟩

/-- Whatever is answered, all questions of a dialogue are in `P`. -/
def Only (P : Q → Prop) : Talk Q R α → Prop
  | .done _ => True
  | .ask q k => P q ∧ ∀ r, Only P (k r)

theorem Only.pure {P : Q → Prop} (a : α) : Only P (pure a : Talk Q R α) := trivial

theorem Only.query {P : Q → Prop} {q : Q} (hq : P q) : Only P (Talk.query q : Talk Q R R) :=
  ⟨hq, fun _ => trivial⟩

theorem Only.bind {P : Q → Prop} {f : α → Talk Q R β} (hf : ∀ a, Only P (f a)) :
    ∀ {t : Talk Q R α}, Only P t → Only P (t >>= f)
  | .done a, _ => hf a
  | .ask _ _, h => ⟨h.1, fun r => Only.bind hf (h.2 r)⟩

theorem Run.only {P : Q → Prop} : ∀ {t : Talk Q R α} {xs : List (Q × R)} {a : α}, Run t xs a →
    Only P t → ∀ x ∈ xs, P x.1
  | _, _, _, .done, _ => nofun
  | _, _, _, .ask (r := r) h, hp => by
    intro x hx
    rcases List.mem_cons.mp hx with rfl | hx
    · exact hp.1
    · exact h.only (hp.2 r) x hx

/-! ### Several processes -/

/-- The device and what is left of every process. -/
structure System (ι δ Q R α : Type) where
  device : δ
  talks : ι → Talk Q R α

section System
variable [DecidableEq ι] (D : δ → Q → R → δ → Prop)

/-- The process `i` asks `q` and gets the answer `r`. -/
structure Asks (s : System ι δ Q R α) (i : ι) (q : Q) (r : R) (s' : System ι δ Q R α) : Prop where
  answered : D s.device q r s'.device
  talks : ∃ k, s.talks i = .ask q k ∧ s'.talks = Function.update s.talks i (k r)

/-- One question and its answer. -/
def Step (s s' : System ι δ Q R α) : Prop := ∃ i q r, Asks D s i q r s'

variable (serve : δ → Q → R × δ)

/-- The process `i` takes its turn, on a device that computes its answers. -/
def turn (s : System ι δ Q R α) (i : ι) : System ι δ Q R α :=
  match s.talks i with
  | .done _ => s
  | .ask q k => ⟨(serve s.device q).2, Function.update s.talks i (k (serve s.device q).1)⟩

/-- Do all turns pass a check? -/
def passes (check : System ι δ Q R α → ι → Bool) : List ι → System ι δ Q R α → Bool
  | [], _ => true
  | i :: is, s => check s i && passes check is (turn serve s i)

variable {D serve}

theorem asks_turn (h : ∀ d q, D d q (serve d q).1 (serve d q).2) {s : System ι δ Q R α}
    {i : ι} {q : Q}
    {k : R → Talk Q R α} (hk : s.talks i = .ask q k) :
    Asks D s i q (serve s.device q).1 (turn serve s i) := by
  have hturn : turn serve s i =
      ⟨(serve s.device q).2, Function.update s.talks i (k (serve s.device q).1)⟩ := by
    rw [turn, hk]
  rw [hturn]
  exact ⟨h s.device q, k, hk, rfl⟩

theorem reaches_turns {T : System ι δ Q R α → System ι δ Q R α → Prop}
    {c : System ι δ Q R α → ι → Bool} (h : ∀ s i q k, s.talks i = .ask q k → c s i = true →
      T s (turn serve s i)) :
    ∀ (is : List ι) (s : System ι δ Q R α), passes serve c is s = true →
      Relation.ReflTransGen T s (is.foldl (turn serve) s)
  | [], s, _ => .refl
  | i :: is, s, hp => by
    obtain ⟨hi, hrest⟩ := Bool.and_eq_true_iff.mp hp
    have ih := reaches_turns h is (turn serve s i) hrest
    rw [List.foldl_cons]
    cases hk : s.talks i with
    | done a =>
      have hturn : turn serve s i = s := by
        rw [turn, hk]
      rw [hturn] at ih ⊢
      exact ih
    | ask q k => exact .head (h s i q k hk hi) ih

end System

end Ipmitool.Lib.Interleave
