import Mathlib.Data.List.Basic
import Mathlib.Logic.Relation
import Mathlib.Tactic.Common

/-! # Programs over a state that may stop with a fault

A program over the state `σ` either returns a value and a new state or stops with a fault of type
`ε`; nothing is observed of the state after a fault. `bind_ok` takes a sequence apart: it returns
exactly if its parts do, and `bind_error` does the same for a fault.

Four kinds of statements are made about programs.

* `Never e x`: the program never stops with the fault `e`.
* `Moves F x`: whenever `x` returns, the states before and after are related by the frame `F`, a
  reflexive and transitive relation such as "this component is unchanged" (`Frame.same`) or "this
  list only grows" (`Frame.grows`). A program moves within a frame as soon as its parts do
  (`Moves.bind`, `Moves.ite`). `Runs F x` says besides that `x` returns.
* `Gives P x`: whatever `x` returns satisfies `P`.
* `Triple e P x Q`: from a state with `P`, `x` does not stop with the fault `e`, and when it returns
  `Q` holds of the value and the new state. -/

namespace Ipmitool.Lib.Machine

variable {ε σ α β : Type}

/-- A program over the state `σ` with faults `ε`. -/
abbrev Prog (ε σ α : Type) := StateT σ (Except ε) α

/-! ### Taking programs apart -/

@[simp] theorem bind_ok {x : Prog ε σ α} {f : α → Prog ε σ β} {s s' : σ} {b : β} :
    (x >>= f) s = .ok (b, s') ↔ ∃ a t, x s = .ok (a, t) ∧ f a t = .ok (b, s') := by
  cases hx : x s with
  | error e => simp [bind, StateT.bind, hx, Except.bind]
  | ok r =>
    simp only [bind, StateT.bind, hx, Except.bind, Except.ok.injEq]
    constructor
    · intro h; exact ⟨r.1, r.2, rfl, h⟩
    · rintro ⟨a, t, rfl, h⟩; exact h

/-- A sequence goes on where its first part ends. -/
theorem bind_run {x : Prog ε σ α} {f : α → Prog ε σ β} {s t : σ} {a : α} (h : x s = .ok (a, t)) :
    (x >>= f) s = f a t := by
  simp [bind, StateT.bind, h, Except.bind]

/-- Two sequences agree if their parts do. -/
theorem bind_eq_bind {x y : Prog ε σ α} {f g : α → Prog ε σ β} {s : σ} (hxy : x s = y s)
    (hfg : ∀ a t, x s = .ok (a, t) → f a t = g a t) : (x >>= f) s = (y >>= g) s := by
  rcases hx : x s with e | ⟨a, t⟩
  · simp [bind, StateT.bind, ← hxy, hx, Except.bind]
  · rw [bind_run hx, bind_run (hxy.symm.trans hx)]
    exact hfg a t hx

@[simp] theorem map_ok {x : Prog ε σ α} {f : α → β} {s s' : σ} {b : β} :
    (f <$> x) s = .ok (b, s') ↔ ∃ a, x s = .ok (a, s') ∧ f a = b := by
  cases hx : x s with
  | error e => simp [Functor.map, StateT.map, hx, bind, Except.bind]
  | ok r =>
    simp only [Functor.map, StateT.map, hx, bind, Except.bind, pure, Except.pure, Except.ok.injEq,
      Prod.mk.injEq]
    constructor
    · rintro ⟨h1, h2⟩; exact ⟨r.1, by rw [← h2], h1⟩
    · rintro ⟨a, rfl, h⟩; exact ⟨h, rfl⟩

@[simp] theorem pure_ok {a b : α} {s s' : σ} :
    (pure a : Prog ε σ α) s = .ok (b, s') ↔ a = b ∧ s = s' := by
  show Except.ok (a, s) = .ok (b, s') ↔ _
  simp

theorem pure_run (a : α) (s : σ) : (StateT.pure a : Prog ε σ α) s = .ok (a, s) := rfl

theorem set_run (t s : σ) : (StateT.set t : Prog ε σ PUnit) s = .ok (⟨⟩, t) := rfl

@[simp] theorem get_ok {s a s' : σ} : (get : Prog ε σ σ) s = .ok (a, s') ↔ s = a ∧ s = s' := by
  simp [get, getThe, MonadStateOf.get, StateT.get, pure, Except.pure]

@[simp] theorem set_ok {s t s' : σ} {u : PUnit} :
    (set t : Prog ε σ PUnit) s = .ok (u, s') ↔ t = s' := by
  show Except.ok (PUnit.unit, t) = .ok (u, s') ↔ _
  simp

@[simp] theorem modify_ok {f : σ → σ} {s s' : σ} {u : PUnit} :
    (modify f : Prog ε σ PUnit) s = .ok (u, s') ↔ f s = s' := by
  simp [modify, modifyGet, MonadStateOf.modifyGet, StateT.modifyGet, pure, Except.pure]

@[simp] theorem throw_ok {e : ε} {a : α} {s s' : σ} :
    (throw e : Prog ε σ α) s = .ok (a, s') ↔ False := by
  simp [throw, throwThe, MonadExceptOf.throw, StateT.lift, bind, Except.bind]

@[simp] theorem lift_ok {x : Except ε α} {a : α} {s s' : σ} :
    (liftM x : Prog ε σ α) s = .ok (a, s') ↔ x = .ok a ∧ s = s' := by
  cases x with
  | error e => simp [liftM, monadLift, MonadLift.monadLift, StateT.lift, bind, Except.bind]
  | ok b =>
    simp [liftM, monadLift, MonadLift.monadLift, StateT.lift, bind, Except.bind, pure, Except.pure]

theorem except_bind_ok {x : Except ε α} {f : α → Except ε β} {b : β} :
    (x >>= f) = .ok b ↔ ∃ a, x = .ok a ∧ f a = .ok b := by
  cases x <;> simp [bind, Except.bind]

theorem except_bind_error {x : Except ε α} {f : α → Except ε β} {e : ε} :
    (x >>= f) = .error e ↔ x = .error e ∨ ∃ a, x = .ok a ∧ f a = .error e := by
  cases x <;> simp [bind, Except.bind]

/-- Does `x` return with a value and a state that pass the test `p`? -/
def returns (x : Prog ε σ α) (s : σ) (p : α → σ → Bool) : Bool :=
  match x s with
  | .ok (a, s') => p a s'
  | .error _ => false

theorem exists_of_returns {x : Prog ε σ α} {s : σ} {p : α → σ → Bool} (h : returns x s p = true) :
    ∃ a s', x s = .ok (a, s') ∧ p a s' = true := by
  unfold returns at h
  split at h
  · rename_i a s' hx
    exact ⟨a, s', hx, h⟩
  · cases h

/-! ### Faults -/

/-- The fault that `x` stops with, if any. -/
def faults (x : Prog ε σ α) (s : σ) : Option ε :=
  match x s with
  | .ok _ => none
  | .error e => some e

theorem error_of_faults {x : Prog ε σ α} {s : σ} {e : ε} (h : faults x s = some e) :
    x s = .error e := by
  unfold faults at h
  split at h
  · cases h
  · rename_i e' hx
    rw [hx, Option.some.inj h]

theorem bind_error {x : Prog ε σ α} {f : α → Prog ε σ β} {s : σ} {e : ε} :
    (x >>= f) s = .error e ↔ x s = .error e ∨ ∃ a t, x s = .ok (a, t) ∧ f a t = .error e := by
  cases hx : x s with
  | error e' => simp [bind, StateT.bind, hx, Except.bind]
  | ok r =>
    simp only [bind, StateT.bind, hx, Except.bind, Except.ok.injEq, reduceCtorEq, false_or]
    constructor
    · intro h; exact ⟨r.1, r.2, rfl, h⟩
    · rintro ⟨a, t, rfl, h⟩; exact h

/-- `x` never stops with the fault `e`. -/
def Never (e : ε) (x : Prog ε σ α) : Prop := ∀ s, x s ≠ .error e

section Never
variable {e : ε}

theorem Never.of_ok {x : Prog ε σ α} (h : ∀ s, ∃ a t, x s = .ok (a, t)) : Never e x := by
  intro s hs
  obtain ⟨a, t, ht⟩ := h s
  rw [ht] at hs
  cases hs

theorem Never.pure (a : α) : Never e (Pure.pure a : Prog ε σ α) :=
  .of_ok fun s => ⟨a, s, rfl⟩

theorem Never.get : Never e (get : Prog ε σ σ) := .of_ok fun s => ⟨s, s, rfl⟩

theorem Never.set (t : σ) : Never e (set t : Prog ε σ PUnit) := .of_ok fun _ => ⟨⟨⟩, t, rfl⟩

theorem Never.modify (f : σ → σ) : Never e (modify f : Prog ε σ PUnit) :=
  .of_ok fun s => ⟨⟨⟩, f s, rfl⟩

theorem Never.bind {x : Prog ε σ α} {f : α → Prog ε σ β} (hx : Never e x)
    (hf : ∀ a, Never e (f a)) :
    Never e (x >>= f) := by
  intro s h
  rcases bind_error.mp h with h | ⟨a, t, -, h⟩
  · exact hx s h
  · exact hf a t h

theorem Never.throw {e' : ε} (h : e' ≠ e) : Never e (throw e' : Prog ε σ α) :=
  fun _ hs => h (Except.error.inj hs)

theorem Never.lift {x : Except ε α} (h : x ≠ .error e) : Never e (liftM x : Prog ε σ α) := by
  intro s hs
  cases x with
  | error e' => exact h (congrArg Except.error (Except.error.inj hs))
  | ok a => cases hs

theorem Never.ite {c : Prop} [Decidable c] {x y : Prog ε σ α} (hx : c → Never e x)
    (hy : ¬ c → Never e y) : Never e (if c then x else y) := by
  split_ifs with h
  · exact hx h
  · exact hy h

/-- A program without faults returns. -/
theorem returns_of_never {x : Prog ε σ α} (h : ∀ e, Never e x) (s : σ) :
    ∃ a s', x s = .ok (a, s') := by
  cases hx : x s with
  | error e => exact (h e s hx).elim
  | ok r => exact ⟨r.1, r.2, rfl⟩

theorem except_bind_ne {x : Except ε α} {f : α → Except ε β} (hx : x ≠ .error e)
    (hf : ∀ a, f a ≠ .error e) : (x >>= f) ≠ .error e := by
  cases x with
  | error e' =>
    intro h
    exact hx (congrArg Except.error (Except.error.inj h))
  | ok a => exact hf a

end Never

/-! ### Frames -/

/-- A reflexive and transitive relation between the states before and after a program. -/
structure Frame (σ : Type) where
  rel : σ → σ → Prop
  refl : ∀ s, rel s s
  trans : ∀ {s t u}, rel s t → rel t u → rel s u

/-- A component of the state is unchanged. -/
def Frame.same {τ : Type} (f : σ → τ) : Frame σ where
  rel s t := f t = f s
  refl _ := rfl
  trans h1 h2 := h2.trans h1

/-- A list in the state only grows at its end. -/
def Frame.grows {τ : Type} (f : σ → List τ) : Frame σ where
  rel s t := f s <+: f t
  refl _ := List.prefix_rfl
  trans h1 h2 := h1.trans h2

/-- A property of states that, once true, stays true. -/
def Frame.keeps (P : σ → Prop) : Frame σ where
  rel s t := P s → P t
  refl _ := id
  trans h1 h2 := h2 ∘ h1

/-- The states are related by any number of steps. -/
def Frame.steps (step : σ → σ → Prop) : Frame σ where
  rel := Relation.ReflTransGen step
  refl _ := .refl
  trans h1 h2 := h1.trans h2

/-- Whenever `x` returns, the states before and after are related by `F`. -/
def Moves (F : Frame σ) (x : Prog ε σ α) : Prop :=
  ∀ s a s', x s = .ok (a, s') → F.rel s s'

section Moves
variable {F : Frame σ}

theorem Moves.rel {x : Prog ε σ α} {s s' : σ} {a : α} (hx : Moves F x) (h : x s = .ok (a, s')) :
    F.rel s s' := hx s a s' h

theorem Moves.pure (a : α) : Moves F (Pure.pure a : Prog ε σ α) := by
  intro s b s' h
  obtain ⟨-, rfl⟩ := pure_ok.mp h
  exact F.refl s

theorem Moves.bind {x : Prog ε σ α} {f : α → Prog ε σ β} (hx : Moves F x)
    (hf : ∀ a, Moves F (f a)) : Moves F (x >>= f) := by
  intro s b s' h
  obtain ⟨a, t, h1, h2⟩ := bind_ok.mp h
  exact F.trans (hx s a t h1) (hf a t b s' h2)

theorem Moves.mono {G : Frame σ} {x : Prog ε σ α} (h : Moves F x)
    (hFG : ∀ {s t}, F.rel s t → G.rel s t) : Moves G x :=
  fun s a s' hx => hFG (h s a s' hx)

theorem Moves.get : Moves F (get : Prog ε σ σ) := by
  intro s a s' h
  obtain ⟨-, rfl⟩ := get_ok.mp h
  exact F.refl s

theorem Moves.modify {f : σ → σ} (h : ∀ s, F.rel s (f s)) :
    Moves F (modify f : Prog ε σ PUnit) := by
  intro s a s' hx
  rw [← modify_ok.mp hx]
  exact h s

theorem Moves.throw (e : ε) : Moves F (throw e : Prog ε σ α) :=
  fun _ _ _ h => (throw_ok.mp h).elim

theorem Moves.lift (x : Except ε α) : Moves F (liftM x : Prog ε σ α) := by
  intro s a s' h
  rw [← (lift_ok.mp h).2]
  exact F.refl s

theorem Moves.ite {c : Prop} [Decidable c] {x y : Prog ε σ α} (hx : c → Moves F x)
    (hy : ¬ c → Moves F y) : Moves F (if c then x else y) := by
  split_ifs with h
  · exact hx h
  · exact hy h

end Moves

/-- From every state `x` returns, and it moves within `F`. -/
def Runs (F : Frame σ) (x : Prog ε σ α) : Prop := ∀ s, ∃ a s', x s = .ok (a, s') ∧ F.rel s s'

section Runs
variable {F : Frame σ}

theorem Runs.pure (a : α) : Runs F (Pure.pure a : Prog ε σ α) := fun s => ⟨a, s, rfl, F.refl s⟩

theorem Runs.bind {x : Prog ε σ α} {f : α → Prog ε σ β} (hx : Runs F x) (hf : ∀ a, Runs F (f a)) :
    Runs F (x >>= f) := by
  intro s
  obtain ⟨a, t, h1, hF1⟩ := hx s
  obtain ⟨b, s', h2, hF2⟩ := hf a t
  exact ⟨b, s', bind_ok.mpr ⟨a, t, h1, h2⟩, F.trans hF1 hF2⟩

theorem Runs.ite {c : Prop} [Decidable c] {x y : Prog ε σ α} (hx : c → Runs F x)
    (hy : ¬ c → Runs F y) :
    Runs F (if c then x else y) := by
  split_ifs with h
  · exact hx h
  · exact hy h

theorem Runs.foldlM {f : α → β → Prog ε σ α} (hf : ∀ a b, Runs F (f a b)) :
    ∀ (l : List β) (a : α), Runs F (l.foldlM f a)
  | [], a => .pure a
  | b :: l, a => .bind (hf a b) fun a => Runs.foldlM hf l a

theorem Runs.rel {x : Prog ε σ α} {s s' : σ} {a : α} (hx : Runs F x) (h : x s = .ok (a, s')) :
    F.rel s s' := by
  obtain ⟨b, t, hx, hF⟩ := hx s
  obtain ⟨-, rfl⟩ := Prod.mk.inj (Except.ok.inj (h.symm.trans hx))
  exact hF

end Runs

/-! ### Loops -/

/-- A loop over numbers keeps an invariant that counts its turns. -/
theorem foldlM_range_ok {f : α → ℕ → Prog ε σ α} {I : ℕ → α → σ → Prop} {n : ℕ}
    (hstep : ∀ k < n, ∀ a s, I k a s → ∃ a' s', f a k s = .ok (a', s') ∧ I (k + 1) a' s')
    {a : α} {s : σ}
    (h : I 0 a s) : ∃ a' s', (List.range n).foldlM f a s = .ok (a', s') ∧ I n a' s' := by
  induction n with
  | zero => exact ⟨a, s, rfl, h⟩
  | succ n ih =>
    obtain ⟨a1, s1, h1, hI⟩ := ih fun k hk => hstep k (Nat.lt_succ_of_lt hk)
    obtain ⟨a2, s2, h2, hI'⟩ := hstep n (Nat.lt_succ_self n) a1 s1 hI
    refine ⟨a2, s2, ?_, hI'⟩
    rw [List.range_succ, List.foldlM_append]
    exact bind_ok.mpr ⟨a1, s1, h1, bind_ok.mpr ⟨a2, s2, h2, rfl⟩⟩

/-! ### Results -/

/-- Whatever `x` returns satisfies `P`. -/
def Gives (P : α → Prop) (x : Prog ε σ α) : Prop := ∀ s a s', x s = .ok (a, s') → P a

section Gives
variable {P : α → Prop}

theorem Gives.pure {a : α} (h : P a) : Gives P (Pure.pure a : Prog ε σ α) := by
  intro s b s' hb
  obtain ⟨rfl, -⟩ := pure_ok.mp hb
  exact h

theorem Gives.bind {x : Prog ε σ β} {f : β → Prog ε σ α} (hf : ∀ b, Gives P (f b)) :
    Gives P (x >>= f) := by
  intro s a s' h
  obtain ⟨b, t, -, h⟩ := bind_ok.mp h
  exact hf b t a s' h

theorem Gives.ite {c : Prop} [Decidable c] {x y : Prog ε σ α} (hx : c → Gives P x)
    (hy : ¬ c → Gives P y) : Gives P (if c then x else y) := by
  split_ifs with h
  · exact hx h
  · exact hy h

end Gives

/-! ### Preconditions and postconditions -/

/-- From a state with `P`, `x` does not stop with `e`, and returns with `Q`. -/
def Triple (e : ε) (P : σ → Prop) (x : Prog ε σ α) (Q : α → σ → Prop) : Prop :=
  ∀ s, P s → x s ≠ .error e ∧ ∀ a s', x s = .ok (a, s') → Q a s'

section Triple
variable {e : ε} {P : σ → Prop} {Q : α → σ → Prop}

theorem Triple.pure {a : α} (h : ∀ s, P s → Q a s) : Triple e P (Pure.pure a) Q := by
  refine fun s hs => ⟨Never.pure a s, fun b s' hb => ?_⟩
  obtain ⟨rfl, rfl⟩ := pure_ok.mp hb
  exact h s hs

theorem Triple.bind {x : Prog ε σ β} {f : β → Prog ε σ α} {M : β → σ → Prop} (hx : Triple e P x M)
    (hf : ∀ b, Triple e (M b) (f b) Q) : Triple e P (x >>= f) Q := by
  refine fun s hs => ⟨fun h => ?_, fun a s' h => ?_⟩
  · rcases bind_error.mp h with h | ⟨b, t, hb, h⟩
    · exact (hx s hs).1 h
    · exact (hf b t ((hx s hs).2 b t hb)).1 h
  · obtain ⟨b, t, hb, h⟩ := bind_ok.mp h
    exact (hf b t ((hx s hs).2 b t hb)).2 a s' h

theorem Triple.mono {P' : σ → Prop} {Q' : α → σ → Prop} {x : Prog ε σ α} (h : Triple e P x Q)
    (hP : ∀ s, P' s → P s) (hQ : ∀ a s, Q a s → Q' a s) : Triple e P' x Q' :=
  fun s hs => ⟨(h s (hP s hs)).1, fun a s' ha => hQ a s' ((h s (hP s hs)).2 a s' ha)⟩

theorem Triple.get {Q : σ → σ → Prop} (h : ∀ s, P s → Q s s) : Triple e P (get : Prog ε σ σ) Q := by
  refine fun s hs => ⟨Never.get s, fun a s' ha => ?_⟩
  obtain ⟨rfl, rfl⟩ := get_ok.mp ha
  exact h _ hs

theorem Triple.set {t : σ} {Q : PUnit → σ → Prop} (h : ∀ s, P s → Q ⟨⟩ t) :
    Triple e P (set t : Prog ε σ PUnit) Q := by
  refine fun s hs => ⟨Never.set t s, fun a s' ha => ?_⟩
  rw [← set_ok.mp ha]
  exact h s hs

theorem Triple.modify {f : σ → σ} {Q : PUnit → σ → Prop} (h : ∀ s, P s → Q ⟨⟩ (f s)) :
    Triple e P (modify f : Prog ε σ PUnit) Q := by
  refine fun s hs => ⟨Never.modify f s, fun a s' ha => ?_⟩
  rw [← modify_ok.mp ha]
  exact h s hs

theorem Triple.ite {c : Prop} [Decidable c] {x y : Prog ε σ α} (hx : c → Triple e P x Q)
    (hy : ¬ c → Triple e P y Q) : Triple e P (if c then x else y) Q := by
  split_ifs with h
  · exact hx h
  · exact hy h

theorem Triple.lift {x : Except ε α} (hx : ∀ s, P s → x ≠ .error e)
    (h : ∀ s a, P s → x = .ok a → Q a s) : Triple e P (liftM x : Prog ε σ α) Q := by
  refine fun s hs => ⟨Never.lift (hx s hs) s, fun a s' hok => ?_⟩
  obtain ⟨ha, rfl⟩ := lift_ok.mp hok
  exact h s a hs ha

/-- A part of the precondition that does not speak of the state. -/
theorem Triple.and_right {c : Prop} {x : Prog ε σ α} (h : c → Triple e P x Q) :
    Triple e (fun s => P s ∧ c) x Q :=
  fun s hs => h hs.2 s hs.1

end Triple

end Ipmitool.Lib.Machine
