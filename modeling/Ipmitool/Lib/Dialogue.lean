import Ipmitool.Lib.Machine

/-! # Programs that talk to a device

A device with states `β` answers a question of type `Q` with an answer of type `R`. A program asks
it questions and has variables `γ` of its own; everything asked and answered is logged. A statement
about every device is a statement about every sequence of answers, whatever they depend on.

`Says P` is the frame of programs that only log exchanges with `P`. `Afterwards p q evs` says that
wherever an exchange with `p` stands in `evs`, the exchanges behind it satisfy `q`. -/

namespace Ipmitool.Lib.Dialogue

open Ipmitool.Lib.Machine

variable {ε γ β Q R α : Type}

/-- A device answers and changes its state. -/
abbrev Device (β Q R : Type) := β → Q → R × β

/-- The variables of the program, the state of the device and what was said. -/
structure World (γ β Q R : Type) where
  vars : γ
  device : β
  log : List (Q × R) := []

/-- The world after a question. -/
def World.asked (w : World γ β Q R) (D : Device β Q R) (q : Q) : World γ β Q R :=
  { w with device := (D w.device q).2, log := w.log ++ [(q, (D w.device q).1)] }

/-- Ask the device. -/
def ask (D : Device β Q R) (q : Q) : Prog ε (World γ β Q R) R := do
  let w ← get
  set (w.asked D q)
  return (D w.device q).1

section
variable {D : Device β Q R} {w w' : World γ β Q R} {q : Q} {r : R}

@[simp] theorem ask_ok : (ask D q : Prog ε (World γ β Q R) R) w = .ok (r, w') ↔
    (D w.device q).1 = r ∧ w.asked D q = w' := by
  simp [ask, and_comm]

/-- What a question does to the world. -/
theorem ask_log (h : (ask D q : Prog ε (World γ β Q R) R) w = .ok (r, w')) :
    w'.log = w.log ++ [(q, r)] ∧ w'.vars = w.vars := by
  obtain ⟨rfl, rfl⟩ := ask_ok.mp h
  exact ⟨rfl, rfl⟩

/-- A question is always answered, be it with the answer that stands for none. -/
theorem never_ask {e : ε} : Never e (ask D q : Prog ε (World γ β Q R) R) :=
  .of_ok fun w => ⟨(D w.device q).1, w.asked D q, ask_ok.mpr ⟨rfl, rfl⟩⟩

@[simp] theorem World.asked_vars : (w.asked D q).vars = w.vars := rfl

@[simp] theorem World.asked_log : (w.asked D q).log = w.log ++ [(q, (D w.device q).1)] := rfl

end

/-! ### What is said -/

/-- The exchanges since a world satisfy `P`. -/
def Says (P : Q × R → Prop) : Frame (World γ β Q R) where
  rel w w' := ∃ evs, w'.log = w.log ++ evs ∧ ∀ x ∈ evs, P x
  refl w := ⟨[], by simp, by simp⟩
  trans := by
    rintro w w1 w2 ⟨evs1, h1, hp1⟩ ⟨evs2, h2, hp2⟩
    refine ⟨evs1 ++ evs2, by rw [h2, h1, List.append_assoc], fun x hx => ?_⟩
    rcases List.mem_append.mp hx with hx | hx
    · exact hp1 x hx
    · exact hp2 x hx

section
variable {P : Q × R → Prop} {D : Device β Q R}

theorem Says.ask {q : Q} (h : ∀ r, P (q, r)) :
    Moves (Says P) (ask D q : Prog ε (World γ β Q R) R) := by
  intro w r w' hx
  obtain ⟨rfl, rfl⟩ := ask_ok.mp hx
  refine ⟨[(q, (D w.device q).1)], rfl, fun x hx => ?_⟩
  rw [List.mem_singleton.mp hx]
  exact h _

theorem Says.runs_ask {q : Q} (h : ∀ r, P (q, r)) :
    Runs (Says P) (Dialogue.ask D q : Prog ε (World γ β Q R) R) := fun w =>
  ⟨_, _, ask_ok.mpr ⟨rfl, rfl⟩,
    (Says.ask h : Moves _ (Dialogue.ask D q : Prog ε (World γ β Q R) R)) w _ _
    (ask_ok.mpr ⟨rfl, rfl⟩)⟩

end

/-! ### What is said afterwards -/

/-- After every exchange with `p`, the rest satisfies `q`. -/
def Afterwards {τ : Type} (p : τ → Prop) (q : List τ → Prop) : List τ → Prop
  | [] => True
  | x :: xs => (p x → q xs) ∧ Afterwards p q xs

section
variable {τ : Type} {p : τ → Prop} {q : List τ → Prop}

@[simp] theorem afterwards_nil : Afterwards p q [] := trivial

@[simp] theorem afterwards_cons {x : τ} {xs : List τ} :
    Afterwards p q (x :: xs) ↔ (p x → q xs) ∧ Afterwards p q xs := Iff.rfl

/-- Exchanges without `p` at the front do not matter. -/
theorem afterwards_append {xs ys : List τ} (h : ∀ x ∈ xs, ¬ p x) :
    Afterwards p q (xs ++ ys) ↔ Afterwards p q ys := by
  induction xs with
  | nil => rfl
  | cons x xs ih =>
    rw [List.cons_append, afterwards_cons, ih fun y hy => h y (List.mem_cons_of_mem _ hy)]
    exact and_iff_right fun hx => (h x List.mem_cons_self hx).elim

end

end Ipmitool.Lib.Dialogue
