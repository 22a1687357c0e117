import Ipmitool.Lib.Machine

/-! # A program and its peer

A program reads messages from a queue in its state and keeps a log of what it sends. Its peer is a
program of its own, which is handed each message that was sent and answers it with one message for
the queue. The two converse (`Converses`) if the program runs when the queue holds exactly the
answers that the peer gives to the messages of that run.

`Hears` is one side of it: what a program does with the messages at the head of the queue, whatever
comes behind them. Both notions are closed under sequencing, so that a conversation is put together
from its exchanges (`Converses.exchange`, `Converses.bind`), and a list of programs converses as a
specification says if each of them does (`Converses.mapM`). -/

namespace Ipmitool.Lib.Conversation

open Ipmitool.Lib.Machine

variable {ε σ τ ι ο α β γ : Type}

/-- The queue and the log of a state: `feed` sets the queue. -/
structure Channel (σ ι ο : Type) where
  feed : List ι → σ → σ
  sent : σ → List ο

section Hears
variable (C : Channel σ ι ο)

/-- With the messages `heard` at the head of its queue, `x` returns, and those messages are gone. -/
def Hears (x : Prog ε σ α) (s : σ) (heard : List ι) (a : α) (s' : σ) : Prop :=
  ∀ rest, x (C.feed (heard ++ rest) s) = .ok (a, C.feed rest s')

variable {C} {s t s' : σ} {heard heard' : List ι}

theorem Hears.pure (a : α) (s : σ) : Hears C (Pure.pure a : Prog ε σ α) s [] a s := fun _ => rfl

theorem Hears.bind {x : Prog ε σ α} {f : α → Prog ε σ β} {a : α} {b : β}
    (hx : Hears C x s heard a t) (hf : Hears C (f a) t heard' b s') :
    Hears C (x >>= f) s (heard ++ heard') b s' := by
  intro rest
  have h := hx (heard' ++ rest)
  rw [← List.append_assoc] at h
  rw [bind_run h]
  exact hf rest

theorem Hears.step {x : Prog ε σ α} {f : α → Prog ε σ β} {a : α} {b : β} (hx : Hears C x s [] a t)
    (hf : Hears C (f a) t heard b s') : Hears C (x >>= f) s heard b s' := by
  simpa using hx.bind hf

theorem Hears.andThen {x : Prog ε σ α} {f : α → Prog ε σ β} {a : α} {b : β}
    (hx : Hears C x s heard a t) (hf : Hears C (f a) t [] b s') :
    Hears C (x >>= f) s heard b s' := by
  simpa using hx.bind hf

/-- A program that looks at its state, but not at the queue. -/
theorem Hears.read {f : σ → Prog ε σ β} {b : β} (hf : ∀ q, f (C.feed q s) = f s)
    (hy : Hears C (f s) s heard b s') : Hears C (get >>= f) s heard b s' := by
  intro rest
  have h : (get : Prog ε σ σ) (C.feed (heard ++ rest) s) = .ok (C.feed (heard ++ rest) s, _) := rfl
  rw [bind_run h, hf]
  exact hy rest

theorem Hears.modify {f : σ → σ} (hf : ∀ q, f (C.feed q s) = C.feed q (f s)) :
    Hears C (modify f : Prog ε σ PUnit) s [] ⟨⟩ (f s) := by
  intro rest
  show Except.ok (PUnit.unit, f (C.feed rest s)) = _
  rw [hf]

theorem Hears.lift {x : Except ε α} {a : α} (h : x = .ok a) (s : σ) :
    Hears C (liftM x : Prog ε σ α) s [] a s := by
  subst h
  exact fun _ => rfl

end Hears

section Converses
variable (C : Channel σ ι ο) (handle : ο → Prog ε τ ι)

/-- `x` runs from `s` to `s'` while the peer answers what it sends and goes from `b` to `b'`. -/
def Converses (x : Prog ε σ α) (s : σ) (b : τ) (a : α) (s' : σ) (b' : τ) : Prop :=
  ∃ messages answers, C.sent s' = C.sent s ++ messages ∧
    messages.mapM handle b = .ok (answers, b') ∧ Hears C x s answers a s'

variable {C handle} {s t s' : σ} {b c b' : τ}

theorem Converses.of_hears {x : Prog ε σ α} {a : α} (h : Hears C x s [] a s')
    (hsent : C.sent s' = C.sent s) : Converses C handle x s b a s' b :=
  ⟨[], [], by rw [hsent, List.append_nil], rfl, h⟩

theorem Converses.exchange {x : Prog ε σ α} {a : α} {m : ο} {r : ι} (h : Hears C x s [r] a s')
    (hsent : C.sent s' = C.sent s ++ [m]) (hr : handle m b = .ok (r, b')) :
    Converses C handle x s b a s' b' := by
  refine ⟨[m], [r], hsent, ?_, h⟩
  rw [List.mapM_cons, bind_run hr]
  rfl

theorem mapM_append_run {xs ys : List ο} {as bs : List ι} (hx : xs.mapM handle b = .ok (as, c))
    (hy : ys.mapM handle c = .ok (bs, b')) : (xs ++ ys).mapM handle b = .ok (as ++ bs, b') := by
  rw [List.mapM_append, bind_run hx, bind_run hy]
  rfl

theorem Converses.bind {x : Prog ε σ α} {f : α → Prog ε σ β} {a : α} {r : β}
    (hx : Converses C handle x s b a t c) (hf : Converses C handle (f a) t c r s' b') :
    Converses C handle (x >>= f) s b r s' b' := by
  obtain ⟨ms, as, hms, has, hx⟩ := hx
  obtain ⟨ns, bs, hns, hbs, hf⟩ := hf
  exact ⟨ms ++ ns, as ++ bs, by rw [hns, hms, List.append_assoc], mapM_append_run has hbs,
    hx.bind hf⟩

theorem Converses.step {x : Prog ε σ α} {f : α → Prog ε σ β} {a : α} {r : β}
    (hx : Hears C x s [] a t) (hsent : C.sent t = C.sent s)
    (hf : Converses C handle (f a) t b r s' b') :
    Converses C handle (x >>= f) s b r s' b' :=
  (Converses.of_hears hx hsent).bind hf

/-- A program that looks at its state, but not at the queue. -/
theorem Converses.read {f : σ → Prog ε σ β} {r : β} (hf : ∀ q, f (C.feed q s) = f s)
    (hy : Converses C handle (f s) s b r s' b') : Converses C handle (get >>= f) s b r s' b' := by
  obtain ⟨ms, as, hms, has, hy⟩ := hy
  exact ⟨ms, as, hms, has, hy.read hf⟩

/-- One message is sent and its answer is received, and a second conversation follows. -/
theorem Converses.exchangeThen {x y : Prog ε σ α} {a : α} {m : ο} {r : ι}
    (h : ∀ heard, Hears C y t heard a s' → Hears C x s (r :: heard) a s')
    (hsent : C.sent t = C.sent s ++ [m]) (hr : handle m b = .ok (r, c))
    (hy : Converses C handle y t c a s' b') : Converses C handle x s b a s' b' := by
  obtain ⟨ms, as, hms, has, hy⟩ := hy
  refine ⟨m :: ms, r :: as,
    by rw [hms, hsent, List.append_assoc, List.singleton_append], ?_, h as hy⟩
  rw [List.mapM_cons, bind_run hr, bind_run has]
  rfl

/-- **A list of programs simulates a specification.** `I n` relates the two parties and the state of
the specification while `n` programs are left. If every program converses from related states, gives
the result that belongs to the one of the specification and leads to related states, then so does
the list. -/
theorem Converses.mapM {ρ δ : Type} (f : γ → Prog ε σ α) (g : γ → Prog ε ρ δ) (out : δ → α)
    (I : ℕ → σ → τ → ρ → Prop) {P : γ → δ → Prop}
    (hstep : ∀ n x d s b q q', P x d → I (n + 1) s b q → g x q = .ok (d, q') →
      ∃ s' b', Converses C handle (f x) s b (out d) s' b' ∧ I n s' b' q')
    {xs : List γ} {ds : List δ} {q q' : ρ} (hxs : List.Forall₂ P xs ds) (h : I xs.length s b q)
    (hg : xs.mapM g q = .ok (ds, q')) :
    ∃ s' b', Converses C handle (xs.mapM f) s b (ds.map out) s' b' ∧ I 0 s' b' q' := by
  induction hxs generalizing s b q with
  | nil =>
    obtain ⟨-, rfl⟩ := pure_ok.mp hg
    exact ⟨s, b, .of_hears (.pure _ _) rfl, h⟩
  | cons hx _ ih =>
    rw [List.mapM_cons] at hg
    obtain ⟨d, q1, hd, hg⟩ := bind_ok.mp hg
    obtain ⟨ds', q2, hds, hg⟩ := bind_ok.mp hg
    obtain ⟨hcons, rfl⟩ := pure_ok.mp hg
    obtain ⟨rfl, rfl⟩ := List.cons.inj hcons
    obtain ⟨t, c, hfirst, ht⟩ := hstep _ _ _ _ _ _ _ hx h hd
    obtain ⟨s', b', hrest, hs'⟩ := ih ht hds
    refine ⟨s', b', ?_, hs'⟩
    rw [List.mapM_cons]
    exact hfirst.bind (hrest.bind (.of_hears (.pure _ _) rfl))

end Converses

end Ipmitool.Lib.Conversation
