import Ipmitool.Cmd.Lanp
import Mathlib.Data.BitVec
import Mathlib.Tactic.Ring

/-! # Lost updates of LAN parameters

Two processes change parameters of one channel. A change of a parameter overwrites some of its bits
with constants (`Mask`), so a change made twice is made once, and the first of two changes is not
seen behind the second (`change_change`, `change_absorb`).

A command reads the value before it takes the lock, so the value may be out of date when it is
written (`lost_update`). `both_applied` says that this is all that can go wrong: as long as every
write that takes effect writes what the change makes of the value that is stored at that moment, two
commands that both report success have both been applied, one behind the other. -/

namespace Ipmitool.Cmd.Updates

open Ipmitool.Lib.Interleave Ipmitool.Cmd.Lanp

/-! ### Overwriting bits -/

/-- For every byte, the bits that are kept and the bits that are put in. -/
abbrev Mask := ℕ → UInt8 × UInt8

/-- One byte is overwritten. -/
def masked (m : UInt8 × UInt8) (b : UInt8) : UInt8 := b &&& m.1 ||| m.2

/-- All bytes are overwritten. -/
def Mask.apply (m : Mask) (v : List UInt8) : List UInt8 := v.mapIdx fun i b => masked (m i) b

/-- Bytes are equal if they have the same bits, and a bit that is overwritten is kept or
constant. -/
theorem masked_absorb (m m' : UInt8 × UInt8) (b : UInt8) :
    masked m (masked m' (masked m b)) = masked m (masked m' b) := by
  apply UInt8.toBitVec_inj.mp
  ext i hi
  simp only [masked, UInt8.toBitVec_or, UInt8.toBitVec_and, BitVec.getElem_or, BitVec.getElem_and]
  cases m.1.toBitVec[i] <;> cases m.2.toBitVec[i] <;> simp

theorem masked_masked (m : UInt8 × UInt8) (b : UInt8) : masked m (masked m b) = masked m b := by
  apply UInt8.toBitVec_inj.mp
  ext i hi
  simp only [masked, UInt8.toBitVec_or, UInt8.toBitVec_and, BitVec.getElem_or, BitVec.getElem_and]
  cases m.1.toBitVec[i] <;> cases m.2.toBitVec[i] <;> simp

theorem masked_comp (m m' : UInt8 × UInt8) (b : UInt8) :
    masked m (masked m' b) = masked (m'.1 &&& m.1, m'.2 &&& m.1 ||| m.2) b := by
  apply UInt8.toBitVec_inj.mp
  ext i hi
  simp only [masked, UInt8.toBitVec_or, UInt8.toBitVec_and, BitVec.getElem_or, BitVec.getElem_and]
  cases m.1.toBitVec[i] <;> simp [Bool.or_assoc]

theorem apply_absorb (m m' : Mask) (v : List UInt8) :
    m.apply (m'.apply (m.apply v)) = m.apply (m'.apply v) := by
  simp [Mask.apply, List.mapIdx_mapIdx, Function.comp_def, masked_absorb]

theorem apply_apply (m : Mask) (v : List UInt8) : m.apply (m.apply v) = m.apply v := by
  simp [Mask.apply, List.mapIdx_mapIdx, Function.comp_def, masked_masked]

/-- A byte that is kept. -/
def keep : UInt8 × UInt8 := (-1, 0)

theorem masked_keep (b : UInt8) : masked keep b = b := by simp [masked, keep]

theorem masked_put (x b : UInt8) : masked (0, x) b = x := by simp [masked]

theorem getElem?_apply (m : Mask) (v : List UInt8) (i : ℕ) :
    (m.apply v)[i]? = (v[i]?).map (masked (m i)) := by
  simp [Mask.apply]

/-- A change of the byte `n` alone. -/
def Mask.single (n : ℕ) (m : UInt8 × UInt8) : Mask := fun i => if i = n then m else keep

theorem modify_eq_apply {f : UInt8 → UInt8} {m : UInt8 × UInt8} (h : ∀ b, f b = masked m b) (n : ℕ)
    (v : List UInt8) : v.modify n f = (Mask.single n m).apply v := by
  refine List.ext_getElem? fun i => ?_
  rw [List.getElem?_modify, getElem?_apply, Mask.single]
  by_cases hi : n = i
  · rw [if_pos hi.symm]
    simp [hi, h]
  · rw [if_neg (Ne.symm hi)]
    cases v[i]? <;> simp [hi, masked_keep]

theorem set_eq_apply (n : ℕ) (x : UInt8) (v : List UInt8) :
    v.set n x = (Mask.single n (0, x)).apply v := by
  rw [← modify_eq_apply (fun b => (masked_put x b).symm), List.set_eq_modify]

/-- A change of the bytes from `off` on. -/
def Mask.run (off : ℕ) (bytes : List UInt8) : Mask := fun i =>
  if off ≤ i then (bytes[i - off]?).elim keep fun x => (0, x) else keep

theorem copyOver_eq_apply (off : ℕ) (bytes v : List UInt8) :
    copyOver v off bytes = (Mask.run off bytes).apply v := by
  have h : ∀ i b, (if off ≤ i then (bytes[i - off]?).getD b else b) =
      masked (Mask.run off bytes i) b := by
    intro i b
    unfold Mask.run
    split_ifs
    · cases bytes[i - off]? with
      | none => exact (masked_keep b).symm
      | some x => exact (masked_put x b).symm
    · exact (masked_keep b).symm
  simp only [copyOver, Mask.apply, h]

/-- A function that overwrites bits with constants. -/
def Overwrites (f : List UInt8 → List UInt8) : Prop := ∃ m : Mask, ∀ v, f v = m.apply v

theorem overwrites_id : Overwrites id :=
  ⟨fun _ => keep, fun v => List.ext_getElem? fun i => by
    rw [getElem?_apply, id]
    cases v[i]? <;> simp [masked_keep]⟩

theorem Overwrites.comp {f g : List UInt8 → List UInt8} (hf : Overwrites f) (hg : Overwrites g) :
    Overwrites (f ∘ g) := by
  obtain ⟨m, hm⟩ := hf
  obtain ⟨m', hm'⟩ := hg
  refine ⟨fun i => ((m' i).1 &&& (m i).1, (m' i).2 &&& (m i).1 ||| (m i).2), fun v => ?_⟩
  rw [Function.comp_apply, hm, hm']
  simp [Mask.apply, List.mapIdx_mapIdx, Function.comp_def, masked_comp]

/-! ### Changes -/

/-- Bytes that the command throws away. -/
def trim : Param → List UInt8 → List UInt8
  | .arp, v => v.take 1
  | .authEnable, v => v.take 5
  | _, v => v

theorem trim_apply (p : Param) (m : Mask) (v : List UInt8) :
    trim p (m.apply v) = m.apply (trim p v) := by
  have htake : ∀ n, (m.apply v).take n = m.apply (v.take n) := by
    intro n
    refine List.ext_getElem? fun i => ?_
    rw [getElem?_apply, List.getElem?_take, List.getElem?_take, getElem?_apply]
    split_ifs <;> rfl
  cases p <;> simp [trim, htake]

theorem trim_trim (p : Param) (v : List UInt8) : trim p (trim p v) = trim p v := by
  cases p <;> simp [trim]

/-- An entry of the parameter table: a parameter and, if it has several entries, its selector. -/
abbrev Slot := Param × UInt8

/-- The entry that a command changes. -/
def slot : Command → Slot
  | .arp _ _ => (.arp, 0)
  | .auth _ _ => (.authEnable, 0)
  | .alert dest o => (o.param, dest)

/-- What a command makes of the value of its parameter. -/
def change : Command → List UInt8 → List UInt8
  | .arp generate on, v => (v.take 1).map (arpFlags generate on)
  | .auth level types, v => authData level types (v.take 5)
  | .alert _ o, v => o.edit v

theorem arpFlags_eq_masked (generate on : Bool) :
    ∃ m, ∀ b, arpFlags generate on b = masked m b := by
  cases on with
  | true => exact ⟨(-1, if generate then 1 else 2), fun b => by simp [arpFlags, masked]⟩
  | false => exact ⟨(~~~(if generate then 1 else 2), 0), fun b => by simp [arpFlags, masked]⟩

theorem overwrites_authData (level types : List Char) : Overwrites (authData level types) := by
  have h : ∀ (levels : List ℕ), Overwrites fun data =>
      levels.foldl (fun data i => data.set i (authBits types)) data := by
    intro levels
    induction levels with
    | nil => exact overwrites_id
    | cons i levels ih => exact ih.comp ⟨_, set_eq_apply i (authBits types)⟩
  exact h (authLevels level)

theorem overwrites_edit (o : AlertOption) : Overwrites fun v => o.edit v := by
  have hset : ∀ b : UInt8, b ||| 0x80 = masked (-1, 0x80) b := by simp [masked]
  have hclear : ∀ b x : UInt8, b &&& x = masked (x, 0) b := by simp [masked]
  have hoem1 : ∀ b : UInt8, b &&& ~~~7 ||| 6 = masked (~~~7, 6) b := fun _ => rfl
  have hoem2 : ∀ b : UInt8, b ||| 7 = masked (-1, 7) b := by simp [masked]
  rcases o with ip | mac | backup | on | (_ | _ | _) | seconds | number
  · exact ⟨_, copyOver_eq_apply 3 ip.toList⟩
  · exact ⟨_, copyOver_eq_apply 7 mac.toList⟩
  · exact ⟨_, set_eq_apply 2 _⟩
  · cases on with
    | true => exact ⟨_, modify_eq_apply hset 1⟩
    | false => exact ⟨_, modify_eq_apply (fun b => hclear b _) 1⟩
  · exact ⟨_, modify_eq_apply (fun b => hclear b _) 1⟩
  · exact ⟨_, modify_eq_apply hoem1 1⟩
  · exact ⟨_, modify_eq_apply hoem2 1⟩
  · exact ⟨_, set_eq_apply 2 _⟩
  · exact ⟨_, set_eq_apply 3 _⟩

/-- A change overwrites what is left of the value. -/
theorem change_eq_apply (c : Command) : ∃ m :
    Mask, ∀ v, change c v = m.apply (trim (slot c).1 v) := by
  cases c with
  | arp generate on =>
    obtain ⟨m, hm⟩ := arpFlags_eq_masked generate on
    refine ⟨fun _ => m, fun v => ?_⟩
    rcases v with _ | ⟨b, v⟩
    · rfl
    · simp [change, slot, trim, Mask.apply, hm]
  | auth level types =>
    obtain ⟨m, hm⟩ := overwrites_authData level types
    exact ⟨m, fun v => hm _⟩
  | alert dest o =>
    obtain ⟨m, hm⟩ := overwrites_edit o
    refine ⟨m, fun v => ?_⟩
    have htrim : trim o.param v = v := by
      unfold AlertOption.param
      split_ifs <;> rfl
    simp only [change, slot, htrim]
    exact hm v

/-- A change made twice is made once. -/
theorem change_change (c : Command) (v : List UInt8) : change c (change c v) = change c v := by
  obtain ⟨m, hm⟩ := change_eq_apply c
  rw [hm, hm, trim_apply, trim_trim, apply_apply]

/-- A change is not seen behind a second one that it had been made behind already. -/
theorem change_absorb {c d : Command} (h : (slot c).1 = (slot d).1) (v : List UInt8) :
    change c (change d (change c v)) = change c (change d v) := by
  obtain ⟨m, hm⟩ := change_eq_apply c
  obtain ⟨m', hm'⟩ := change_eq_apply d
  simp only [hm, hm', ← h, trim_apply, trim_trim, apply_absorb]

/-! ### The BMC -/

/-- Has the parameter an entry for each selector? -/
def selected : Param → Bool
  | .destType | .destAddr => true
  | _ => false

/-- The entry that a Get request names. -/
def slotRead (p : Param) (selector : UInt8) : Slot := if selected p then (p, selector) else (p, 0)

/-- The entry that a Set request names: the selector is the first byte of the value. -/
def slotWritten (p : Param) (value : List UInt8) : Slot :=
  if selected p then (p, value.headD 0) else (p, 0)

/-- A BMC that stores the parameters of a channel. Every entry of a parameter with several begins
with its selector. -/
structure Bmc where
  progress : UInt8
  store : Slot → List UInt8
  selector : ∀ p d, selected p = true → ∀ x ∈ (store (p, d)).head?, x = d

/-- The BMC after a write. -/
def Bmc.write (b : Bmc) (p : Param) (value : List UInt8) : Bmc where
  progress := b.progress
  store := Function.update b.store (slotWritten p value) value
  selector := by
    intro q d hq x hx
    by_cases hs : (q, d) = slotWritten p value
    · rw [hs, Function.update_self] at hx
      unfold slotWritten at hs
      split_ifs at hs with hp
      · obtain ⟨-, rfl⟩ := Prod.mk.inj hs
        simp [List.headD_eq_head?_getD, Option.mem_def.mp hx]
      · obtain ⟨rfl, -⟩ := Prod.mk.inj hs
        exact absurd hq hp
    · rw [Function.update_of_ne hs] at hx
      exact b.selector q d hq x hx

/-- The value that a Get request asks for. -/
def Bmc.value (b : Bmc) (p : Param) (selector : UInt8) : List UInt8 :=
  if p = .progress then [b.progress] else b.store (slotRead p selector)

/-- A response that reports success. -/
def Succeeds (r : Reply) : Prop := ∃ data, r = some ⟨0, data⟩

/-- What the BMC may do with a request. It may refuse, or not answer at all, and then nothing has
changed unless it was a write; a write that is reported as successful has been made. A second
set-in-progress is refused. -/
inductive Answers : Bmc → Query → Reply → Bmc → Prop
  | read (b : Bmc) (p : Param) (selector revision : UInt8) :
    Answers b (.get p selector) (some ⟨0, revision :: b.value p selector⟩) b
  | refuse (b : Bmc) (q : Query) {r : Reply} (h : ¬ Succeeds r) : Answers b q r b
  | write (b : Bmc) {p : Param} (h : p ≠ .progress) (value : List UInt8) (r : Reply) :
    Answers b (.set p value) r (b.write p value)
  | lock (b : Bmc) {x : UInt8} (h : x = 1 → b.progress ≠ 1) (r : Reply) :
    Answers b (.set .progress [x]) r { b with progress := x }

/-! ### One process

A command is applied when its write succeeds, or when it reads a value that it would not change:
whatever the BMC has stored by then, making the change once more would make no difference. -/

/-- The exchange shows that the command has been applied. -/
def Applies (c : Command) (r : Reply) : Query → Prop
  | .get p selector => slotRead p selector = slot c ∧ p ≠ .progress ∧
      ∃ revision v, r = some ⟨0, revision :: v⟩ ∧ change c v = v
  | .set p _ => p ≠ .progress ∧ Succeeds r

/-- A write is to the entry of the command, and a second application would not change the value. -/
def Writes (c : Command) : Query → Prop
  | .get _ _ => True
  | .set p value => p ≠ .progress → slotWritten p value = slot c ∧ change c value = value

/-- What a truthful BMC may answer. -/
def Truthful (q : Query) (r : Reply) : Prop :=
  ∀ p selector revision v, q = .get p selector → r = some ⟨0, revision :: v⟩ → selected p = true →
    ∀ x ∈ v.head?, x = selector

/-- The monitor remembers if the command has been applied. -/
def watch (c : Command) : Monitor Query Reply Prop where
  may := Truthful
  next applied q r := applied ∨ Applies c r q
  allows _ q := Writes c q

/-- The state of the monitor only grows. -/
theorem along_mono {c : Command} {α : Type} {post : Prop → α → Prop} {t : M α} {a a' : Prop}
    (hpost : ∀ {a a' : Prop} x, (a → a') → post a x → post a' x) (hle : a → a')
    (h : (watch c).Along post t a) : (watch c).Along post t a' := by
  exact Monitor.Along.mono (r := fun a a' => a → a') (fun q r h => Or.imp_left h) (fun q _ h => h)
    hpost hle h

section
variable {c : Command} {a : Prop}

theorem valueOf_ok {r : Reply} {x : List UInt8} (h : valueOf r = .ok (some x)) :
    ∃ revision, r = some ⟨0, revision :: x⟩ := by
  rcases r with _ | ⟨ccode, data⟩
  · cases h
  · by_cases hc : ccode = 0
    · subst hc
      rcases data with _ | ⟨revision, v⟩
      · cases h
      · exact ⟨revision, by simp [valueOf] at h; rw [h]⟩
    · rw [valueOf, if_pos hc] at h
      split_ifs at h
      cases h

/-- A parameter is read. -/
theorem along_get (p : Param) (selector : UInt8) :
    (watch c).Along (fun a' v => (a → a') ∧ ∀ x, v = .ok (some x) →
      (selected p = true → ∀ y ∈ x.head?, y = selector) ∧
        (slotRead p selector = slot c → p ≠ .progress → change c x = x → a'))
          (get p selector) a := by
  refine Monitor.Along.bind (Monitor.Along.query trivial fun r hr => ?_)
  refine Monitor.Along.pure ⟨Or.inl, fun x hx => ?_⟩
  obtain ⟨revision, rfl⟩ := valueOf_ok hx
  exact ⟨fun hs => hr p selector revision x rfl rfl hs, fun hslot hp hfix =>
    .inr ⟨hslot, hp, revision, x, rfl, hfix⟩⟩

/-- The lock is no parameter that a command changes. -/
theorem writes_progress (value : List UInt8) : Writes c (.set .progress value) :=
  fun h => absurd rfl h

/-- Nothing is lost, and a success shows that the command has been applied. -/
def Shows (p : Param) (a a' : Prop) (ok : Bool) : Prop :=
  (a → a') ∧ (ok = true → p ≠ .progress → a')

theorem along_retry {p : Param} {value : List UInt8} (hw : Writes c (.set p value)) :
    ∀ (n : ℕ) {a : Prop}, (watch c).Along (Shows p a) (retry p value n) a
  | 0, _ => Monitor.Along.pure ⟨id, nofun⟩
  | n + 1, a => by
    refine Monitor.Along.bind (Monitor.Along.query hw fun r _ => ?_)
    have hagain : (watch c).Along (Shows p a) (retry p value n)
        ((watch c).next a (.set p value) r) :=
      (along_retry hw n).weaken fun _ _ h => ⟨fun ha => h.1 (.inl ha), h.2⟩
    rcases r with _ | ⟨ccode, data⟩
    · exact hagain
    · show (watch c).Along _ (if ccode = 0 then _ else _) _
      by_cases hc : ccode = 0
      · rw [if_pos hc]
        exact Monitor.Along.pure ⟨Or.inl, fun _ hp => .inr ⟨hp, data, by rw [hc]⟩⟩
      · rw [if_neg hc]
        exact hagain

theorem along_verify {p : Param} {value : List UInt8} (hslot : slotRead p 0 = slot c)
    (hw : Writes c (.set p value)) :
    ∀ (n : ℕ) {a : Prop}, (watch c).Along (Shows p a) (verify p value n) a
  | 0, _ => Monitor.Along.pure ⟨id, nofun⟩
  | n + 1, a => by
    refine Monitor.Along.bind ((along_get p 0).weaken fun a1 check h1 => ?_)
    by_cases hc : check = .ok (some value)
    · rw [if_pos hc]
      exact Monitor.Along.pure ⟨h1.1, fun _ hp => (h1.2 value hc).2 hslot hp (hw hp).2⟩
    · rw [if_neg hc]
      exact (along_verify hslot hw n).weaken fun _ _ h => ⟨fun ha => h.1 (h1.1 ha), h.2⟩

theorem along_settle {p : Param} {value : List UInt8} (hw : Writes c (.set p value))
    (ccode : UInt8) :
    (watch c).Along (fun a' _ => a → a') (settle p value ccode) a := by
  unfold settle
  split_ifs
  · exact Monitor.Along.pure id
  · exact (along_retry hw 10).weaken fun _ _ h => h.1
  · exact Monitor.Along.pure id

/-- A write that returns without an error has been applied. -/
theorem along_rawSet {p : Param} {value : List UInt8} (hw : Writes c (.set p value)) (wait : Bool)
    (hslot : wait = true → slotRead p 0 = slot c) :
    (watch c).Along (fun a' v => Shows p a a' (v matches .ok ())) (rawSet p value wait) a := by
  unfold rawSet
  by_cases hlen : 30 < value.length
  · rw [if_pos hlen]
    exact Monitor.Along.pure ⟨id, nofun⟩
  rw [if_neg hlen]
  refine Monitor.Along.bind (Monitor.Along.query hw fun r _ => ?_)
  rcases r with _ | ⟨ccode, data⟩
  · exact Monitor.Along.pure ⟨Or.inl, nofun⟩
  cases wait with
  | false =>
    show (watch c).Along _ (if ccode ≠ 0 then _ else _) _
    by_cases hc : ccode = 0
    · rw [if_neg (not_not.mpr hc), hc]
      exact Monitor.Along.pure ⟨Or.inl, fun _ hp => .inr ⟨hp, data, rfl⟩⟩
    · rw [if_pos hc]
      exact Monitor.Along.pure ⟨Or.inl, nofun⟩
  | true =>
    refine Monitor.Along.bind ((along_settle hw ccode).weaken fun a1 sent h1 => ?_)
    cases sent with
    | false => exact Monitor.Along.pure ⟨fun ha => h1 (.inl ha), nofun⟩
    | true =>
      refine Monitor.Along.bind ((along_verify (hslot rfl) hw 11).weaken fun a2 seen h2 => ?_)
      cases seen with
      | false => exact Monitor.Along.pure ⟨fun ha => h2.1 (h1 (.inl ha)), nofun⟩
      | true => exact Monitor.Along.pure ⟨fun ha => h2.1 (h1 (.inl ha)), fun _ hp => h2.2 rfl hp⟩

theorem along_progress (value : List UInt8) :
    (watch c).Along (fun a' _ => a → a') (rawSet .progress value false) a :=
  (along_rawSet (writes_progress value) false nofun).weaken fun _ _ h => h.1

theorem along_unlocked : (watch c).Along (fun a' _ => a → a') unlocked a := by
  refine Monitor.Along.bind ((along_get .progress 0).weaken fun a1 state h1 => ?_)
  split
  · exact Monitor.Along.pure h1.1
  · exact Monitor.Along.pure h1.1

theorem along_lockLoop : ∀ (n : ℕ) {a : Prop}, (watch c).Along (fun a' _ => a → a') (lockLoop n) a
  | 0, a => by
    refine Monitor.Along.bind (along_unlocked.weaken fun a1 _ h1 => ?_)
    exact Monitor.Along.pure h1
  | n + 1, a => by
    refine Monitor.Along.bind (along_unlocked.weaken fun a1 free h1 => ?_)
    cases free with
    | false => exact Monitor.Along.pure h1
    | true =>
      refine Monitor.Along.bind ((along_progress [1]).weaken fun a2 _ h2 => ?_)
      exact (along_lockLoop n).weaken fun _ _ h3 ha => h3 (h2 (h1 ha))

/-- A command that reports success has been applied. -/
def Reports (a : Prop) (ok : Bool) : Prop := ok = true → a

theorem along_set {p : Param} {value : List UInt8} (hp : p ≠ .progress)
    (hw : Writes c (.set p value)) (wait : Bool) (hslot : wait = true → slotRead p 0 = slot c) :
    (watch c).Along Reports (set p value wait) a := by
  refine Monitor.Along.bind ((along_lockLoop 3).weaken fun a1 _ _ => ?_)
  refine Monitor.Along.bind ((along_rawSet hw wait hslot).weaken fun a2 result h2 => ?_)
  refine Monitor.Along.bind ((along_progress [2]).weaken fun a3 _ h3 => ?_)
  refine Monitor.Along.bind ((along_progress [0]).weaken fun a4 _ h4 => ?_)
  exact Monitor.Along.pure fun hok => h4 (h3 (h2.2 hok hp))

theorem along_current (p : Param) (selector : UInt8) (len : ℕ) :
    (watch c).Along (fun a' _ => a → a') (current p selector len) a := by
  refine Monitor.Along.bind ((along_get p selector).weaken fun a1 v h1 => ?_)
  exact Monitor.Along.pure h1.1

/-- What a command writes is what it makes of some value. -/
theorem writes_change {p : Param} {value old : List UInt8} (hslot : slotWritten p value = slot c)
    (hvalue : value = change c old) : Writes c (.set p value) := by
  intro _
  rw [hvalue, change_change, ← hvalue]
  exact ⟨hslot, rfl⟩

end

theorem head?_edit (o : AlertOption) (v : List UInt8) : (o.edit v).head? = v.head? := by
  rcases v with _ | ⟨x, v⟩
  · rcases o with ip | mac | backup | on | (_ | _ | _) | seconds | number <;> rfl
  · rcases o with ip | mac | backup | on | (_ | _ | _) | seconds | number <;>
      simp [AlertOption.edit, copyOver]

theorem selected_param (o : AlertOption) : selected o.param = true := by
  unfold AlertOption.param
  split_ifs <;> rfl

/-- The entry that is written back is the one that was read. -/
theorem slotWritten_edit {dest : UInt8} (o : AlertOption) {old : List UInt8} (hlen : old ≠ [])
    (hhead : ∀ x ∈ old.head?, x = dest) : slotWritten o.param (o.edit old) = (o.param, dest) := by
  obtain ⟨x, rest, rfl⟩ := List.exists_cons_of_ne_nil hlen
  rw [slotWritten, if_pos (selected_param o), List.headD_eq_head?_getD, head?_edit]
  exact congrArg (Prod.mk o.param) (hhead x rfl)

theorem along_setDestination (dest : UInt8) (o : AlertOption) (a : Prop) :
    (watch (.alert dest o)).Along Reports (setDestination dest o) a := by
  have hp : o.param ≠ .progress := by
    intro hc
    have hs := selected_param o
    rw [hc] at hs
    exact absurd hs (by decide)
  refine Monitor.Along.bind ((along_get o.param dest).weaken fun a1 v h1 => ?_)
  split
  · rename_i old
    by_cases hlen : old.length < (if o.address then 13 else 4) ∨ 30 < old.length
    · rw [if_pos hlen]
      exact Monitor.Along.pure nofun
    · have hne : old ≠ [] := by
        rintro rfl
        refine hlen (.inl ?_)
        rw [List.length_nil]
        cases o.address <;> decide
      have hslot := slotWritten_edit o hne ((h1.2 old rfl).1 (selected_param o))
      have hw : Writes (.alert dest o) (.set o.param (o.edit old)) :=
        writes_change hslot (show _ = change (.alert dest o) old from rfl)
      rw [if_neg hlen]
      exact along_set hp hw false nofun
  · exact Monitor.Along.pure nofun

/-- A command that reports success has been applied, and it only writes what it makes of some
value. -/
theorem along_run (c : Command) (a : Prop) : (watch c).Along Reports c.run a := by
  cases c with
  | arp generate on =>
    refine Monitor.Along.bind ((along_current .arp 0 1).weaken fun a1 v _ => ?_)
    split
    · rename_i b rest
      have hw : Writes (.arp generate on) (.set .arp [arpFlags generate on b]) :=
        writes_change rfl (show _ = change (.arp generate on) (b :: rest) by simp [change])
      exact along_set (by decide) hw true fun _ => rfl
    · exact Monitor.Along.pure nofun
  | auth level types =>
    refine Monitor.Along.bind ((along_current .authEnable 0 5).weaken fun a1 v _ => ?_)
    split
    · rename_i b
      have hw : Writes (.auth level types) (.set .authEnable (authData level types (b.take 5))) :=
        writes_change rfl (show _ = change (.auth level types) b from rfl)
      exact along_set (by decide) hw true fun _ => rfl
    · exact Monitor.Along.pure nofun
  | alert dest o =>
    refine Monitor.Along.bind (Monitor.Along.bind
      ((along_current .destinations 0 1).weaken fun a1 v _ => ?_))
    have hrest : ∀ valid : Bool, (watch (.alert dest o)).Along Reports
        (if ¬ valid then pure false else setDestination dest o) a1 := by
      intro valid
      cases valid with
      | false => exact Monitor.Along.pure nofun
      | true => exact along_setDestination dest o a1
    split
    · exact Monitor.Along.pure (hrest _)
    · exact Monitor.Along.pure (hrest _)

/-! ### Two processes -/

/-- The two processes. -/
inductive Process where
  | first
  | second
  deriving DecidableEq

/-- What is left of the two commands, and the BMC. -/
abbrev Sys := System Process Bmc Query Reply Bool

/-- Both processes begin. -/
def start (cmd : Process → Command) (b : Bmc) : Sys := ⟨b, fun i => (cmd i).run⟩

/-- A command, as a change of all parameters. -/
def act (c : Command) (st : Slot → List UInt8) : Slot → List UInt8 :=
  Function.update st (slot c) (change c (st (slot c)))

/-- Both commands report success, and then the parameters are those that they make of `st` in some
order. -/
def BothApplied (cmd : Process → Command) (st : Slot → List UInt8) (s : Sys) : Prop :=
  (∀ i, (s.talks i).result = some true) →
    s.device.store = act (cmd .first) (act (cmd .second) st) ∨
    s.device.store = act (cmd .second) (act (cmd .first) st)

/-- A step in which a write that takes effect writes what the change makes of the value stored
then. -/
def Timely (cmd : Process → Command) (s s' : Sys) : Prop :=
  ∃ i q r, Asks Answers s i q r s' ∧ ∀ p value, q = .set p value →
    s'.device.store ≠ s.device.store → value = change (cmd i) (s.device.store (slotWritten p value))

theorem act_act (c : Command) (st : Slot → List UInt8) : act c (act c st) = act c st := by
  unfold act
  rw [Function.update_self, Function.update_idem, change_change]

theorem act_absorb (c d : Command) (st : Slot → List UInt8) :
    act c (act d (act c st)) = act c (act d st) := by
  unfold act
  by_cases h : slot c = slot d
  · simp only [← h, Function.update_self, Function.update_idem]
    rw [change_absorb (congrArg Prod.fst h)]
  · have h' := Ne.symm h
    simp only [Function.update_self, Function.update_of_ne h, Function.update_of_ne h',
      change_change]
    rw [Function.update_comm h, Function.update_idem]

/-- Nothing changes where the command would change nothing. -/
theorem act_eq_self {c : Command} {st : Slot → List UInt8}
    (h : change c (st (slot c)) = st (slot c)) :
    act c st = st := by
  rw [act, h, Function.update_eq_self]

/-- The parameters after a list of applications, the last one first. -/
def applied (cmd : Process → Command) (st : Slot → List UInt8) (word : List Process) :
    Slot → List UInt8 :=
  word.foldr (fun i => act (cmd i)) st

/-- The other process. -/
def Process.other : Process → Process
  | .first => .second
  | .second => .first

/-- Only the last application of each command is seen. -/
theorem applied_cons (cmd : Process → Command) (st : Slot → List UInt8) (i : Process) :
    ∀ word, applied cmd st (i :: word) =
      if i.other ∈ word then act (cmd i) (act (cmd i.other) st) else act (cmd i) st
  | [] => by simp [applied]
  | j :: word => by
    have ih := applied_cons cmd st j word
    have hstep : applied cmd st (i :: j :: word) = act (cmd i) (applied cmd st (j :: word)) := rfl
    rw [hstep, ih]
    by_cases hj : j = i
    · subst hj
      have hmem : j.other ∈ j :: word ↔ j.other ∈ word := by
        cases j <;> simp [Process.other]
      simp only [hmem]
      split_ifs <;> simp only [act_act]
    · obtain rfl : j = i.other := by
        cases i <;> cases j <;> simp_all [Process.other]
      have hback : i.other.other = i := by
        cases i <;> rfl
      rw [if_pos List.mem_cons_self, hback]
      split_ifs
      · exact act_absorb _ _ _
      · rfl

/-- What holds in every state: the parameters come from applications, and each process whose command
is not among them will only report success when it is. -/
def Tracked (cmd : Process → Command) (st : Slot → List UInt8) (s : Sys) : Prop :=
  ∃ word, s.device.store = applied cmd st word ∧
    ∀ i, (watch (cmd i)).Along Reports (s.talks i) (i ∈ word)

theorem Answers.truthful {b b' : Bmc} {q : Query} {r : Reply} (h : Answers b q r b') :
    Truthful q r := by
  intro p selector revision v hq hr hp x hx
  cases h with
  | read p' selector' revision' =>
    obtain ⟨rfl, rfl⟩ := Query.get.inj hq
    have hv : b.value p' selector' = v := by
      simpa using congrArg (fun r => (Option.getD r ⟨0, []⟩).data.tail) hr
    have hne : p' ≠ .progress := by
      rintro rfl
      exact absurd hp (by decide)
    rw [← hv, Bmc.value, if_neg hne, slotRead, if_pos hp] at hx
    exact b.selector p' selector' hp x hx
  | refuse _ hno => exact absurd ⟨_, hr⟩ hno
  | write hne value => cases hq
  | lock hfree => cases hq

/-- What an answer does to the parameters: nothing, and then it does not show that the command has
been applied, or the change of the command. -/
theorem Answers.store_cases {c : Command} {b b' : Bmc} {q : Query} {r : Reply}
    (h : Answers b q r b') (hw : Writes c q)
    (htimely : ∀ p value, q = .set p value → b'.store ≠ b.store →
      value = change c (b.store (slotWritten p value))) :
    (b'.store = b.store ∧ ¬ Applies c r q) ∨ b'.store = act c b.store := by
  cases h with
  | read p selector revision =>
    by_cases ha : Applies c (some ⟨0, revision :: b.value p selector⟩) (.get p selector)
    · obtain ⟨hslot, hp, revision', v, hr, hfix⟩ := ha
      have hv : b.store (slot c) = v := by
        have hvalue : b.value p selector = v := by
          simpa using congrArg (fun r => (Option.getD r ⟨0, []⟩).data.tail) hr
        rw [← hvalue, Bmc.value, if_neg hp, hslot]
      right
      rw [act_eq_self (by rw [hv, hfix])]
    · exact .inl ⟨rfl, ha⟩
  | refuse _ hno =>
    refine .inl ⟨rfl, fun ha => hno ?_⟩
    cases q with
    | get p selector =>
      obtain ⟨-, -, revision, v, hr, -⟩ := ha
      exact ⟨_, hr⟩
    | set p value => exact ha.2
  | write hne value =>
    rename_i p
    obtain ⟨hslot, hfix⟩ := hw hne
    right
    by_cases hsame : (b.write p value).store = b.store
    · have hv : b.store (slot c) = value := by
        rw [← hsame, ← hslot]
        exact Function.update_self _ _ _
      rw [hsame, act_eq_self (by rw [hv, hfix])]
    · have hvalue := htimely p value rfl hsame
      rw [hslot] at hvalue
      rw [act, ← hvalue, ← hslot]
      rfl
  | lock hfree => exact .inl ⟨rfl, fun ha => ha.1 rfl⟩

theorem tracked_start (cmd : Process → Command) (b : Bmc) : Tracked cmd b.store (start cmd b) :=
  ⟨[], rfl, fun i => along_run (cmd i) _⟩

theorem Tracked.step {cmd : Process → Command} {st : Slot → List UInt8} {s s' : Sys}
    (h : Tracked cmd st s) (hstep : Timely cmd s s') : Tracked cmd st s' := by
  obtain ⟨word, hstore, halong⟩ := h
  obtain ⟨i, q, r, ⟨hans, k, hk, htalks⟩, htimely⟩ := hstep
  have hi := halong i
  rw [hk] at hi
  have hnext : (watch (cmd i)).Along Reports (k r) (i ∈ word ∨ Applies (cmd i) r q) :=
    hi.2 r hans.truthful
  have hpost : ∀ {a a' : Prop} (x : Bool), (a → a') → Reports a x → Reports a' x :=
    fun x ha h hx => ha (h hx)
  rcases hans.store_cases hi.1 htimely with ⟨hsame, hno⟩ | hact
  · -- nothing has changed, and the process has learned nothing
    refine ⟨word, hsame.trans hstore, fun j => ?_⟩
    rw [htalks]
    by_cases hj : j = i
    · subst hj
      rw [Function.update_self]
      exact along_mono hpost (Or.resolve_right · hno) hnext
    · rw [Function.update_of_ne hj]
      exact halong j
  · refine ⟨i :: word, by rw [hact, hstore]; rfl, fun j => ?_⟩
    rw [htalks]
    by_cases hj : j = i
    · subst hj
      rw [Function.update_self]
      exact along_mono hpost (fun _ => List.mem_cons_self) hnext
    · rw [Function.update_of_ne hj]
      exact along_mono hpost (List.mem_cons_of_mem i) (halong j)

theorem Tracked.bothApplied {cmd : Process → Command} {st : Slot → List UInt8} {s : Sys}
    (h : Tracked cmd st s) : BothApplied cmd st s := by
  obtain ⟨word, hstore, halong⟩ := h
  intro hdone
  have hmem : ∀ i, i ∈ word := by
    intro i
    have hi := halong i
    have hr := hdone i
    cases ht : s.talks i with
    | done a =>
      rw [ht] at hi hr
      exact hi (Option.some.inj hr)
    | ask q k =>
      rw [ht] at hr
      cases hr
  obtain ⟨i, rest, rfl⟩ := List.exists_cons_of_ne_nil (List.ne_nil_of_mem (hmem .first))
  have hother : i.other ∈ rest := by
    have hm := hmem i.other
    cases i <;> simpa [Process.other] using hm
  rw [hstore, applied_cons, if_pos hother]
  cases i with
  | first => exact .inl rfl
  | second => exact .inr rfl

/-- **No update is lost as long as every write is timely**, in every run of two commands. -/
theorem both_applied (cmd : Process → Command) (b : Bmc) {s : Sys}
    (h : Relation.ReflTransGen (Timely cmd) (start cmd b) s) : BothApplied cmd b.store s := by
  have htracked : Tracked cmd b.store s := by
    induction h with
    | refl => exact tracked_start cmd b
    | tail _ hstep ih => exact ih.step hstep
  exact htracked.bothApplied

/-! ### A BMC that computes its answers -/

/-- A BMC that takes parameters only while a set is in progress. -/
def serve (b : Bmc) : Query → Reply × Bmc
  | .get p selector => (some ⟨0, 0x11 :: b.value p selector⟩, b)
  | .set .progress [x] =>
    if x = 1 ∧ b.progress = 1 then (some ⟨0x81, []⟩, b)
      else (some ⟨0, []⟩, { b with progress := x })
  | .set .progress _ => (some ⟨0xc7, []⟩, b)
  | .set p value => if b.progress = 1 then (some ⟨0, []⟩, b.write p value) else (some ⟨0xd5, []⟩, b)

theorem not_succeeds {ccode : UInt8} (h : ccode ≠ 0) (data : List UInt8) :
    ¬ Succeeds (some ⟨ccode, data⟩) := by
  rintro ⟨data', hc⟩
  exact h (congrArg Answer.ccode (Option.some.inj hc))

theorem answers_serve (b : Bmc) (q : Query) : Answers b q (serve b q).1 (serve b q).2 := by
  fun_cases serve b q with
  | case1 p selector => exact .read b p selector 0x11
  | case2 x h => exact .refuse b _ (not_succeeds (by decide) _)
  | case3 x h => exact .lock b (fun hx hp => h ⟨hx, hp⟩) _
  | case4 value h => exact .refuse b _ (not_succeeds (by decide) _)
  | case5 p value h1 h2 hp => exact .write b (fun hc => h2 hc) value _
  | case6 p value h1 h2 hp => exact .refuse b _ (not_succeeds (by decide) _)

/-- ARP control is zero, and nothing else is stored. -/
def quiet : Bmc where
  progress := 0
  store s := if s = (.arp, 0) then [0] else []
  selector := by
    intro p d hp x hx
    have hne : (p, d) ≠ (Param.arp, 0) := by
      intro hc
      rw [(Prod.mk.inj hc).1] at hp
      exact absurd hp (by decide)
    rw [if_neg hne] at hx
    cases hx

/-- One process turns the generated ARPs on, the other one the ARP responses. -/
def arpOn : Process → Command
  | .first => .arp true true
  | .second => .arp false true

/-- Would the turn of a process be timely? -/
def timely (cmd : Process → Command) (s : Sys) (i : Process) : Bool :=
  match s.talks i with
  | .ask (.set p value) _ =>
    decide (p = .progress ∨ value = change (cmd i) (s.device.store (slotWritten p value)))
  | _ => true

theorem Answers.store_progress {b b' : Bmc} {value : List UInt8} {r : Reply}
    (h : Answers b (.set .progress value) r b') : b'.store = b.store := by
  cases h with
  | refuse => rfl
  | write hne => exact absurd rfl hne
  | lock => rfl

theorem timely_turn (cmd : Process → Command) (s : Sys) (i : Process) (q : Query)
    (k : Reply → M Bool) (hk : s.talks i = .ask q k) (h : timely cmd s i = true) :
    Timely cmd s (turn serve s i) := by
  have hasks := asks_turn answers_serve hk
  refine ⟨i, q, _, hasks, ?_⟩
  rintro p value rfl hne
  rw [timely, hk] at h
  rcases of_decide_eq_true h with rfl | h
  · exact absurd hasks.answered.store_progress hne
  · exact h

/-- The first process ends before the second begins. -/
def inTurn : List Process := List.replicate 8 .first ++ List.replicate 8 .second

theorem both_applied_in_turn :
    Relation.ReflTransGen (Timely arpOn) (start arpOn quiet)
      (inTurn.foldl (turn serve) (start arpOn quiet)) ∧
      (inTurn.foldl (turn serve) (start arpOn quiet)).device.store (.arp, 0) = [3] := by
  have hrun := reaches_turns (timely_turn arpOn) inTurn (start arpOn quiet) (by decide +kernel)
  refine ⟨hrun, ?_⟩
  have hdone : ∀ i, ((inTurn.foldl (turn serve) (start arpOn quiet)).talks i).result =
      some true := by
    intro i
    cases i <;> decide +kernel
  rcases both_applied arpOn quiet hrun hdone with h | h
  · rw [h]
    decide +kernel
  · rw [h]
    decide +kernel

/-- Both processes read, then the first one writes, then the second. -/
def overlapping : List Process :=
  [.first, .second] ++ List.replicate 7 .first ++ List.replicate 7 .second

theorem lost_update : ¬ ∀ s, Relation.ReflTransGen (Step Answers) (start arpOn quiet) s →
    BothApplied arpOn quiet.store s := by
  intro h
  have hrun := reaches_turns (T := Step Answers) (c := fun _ _ => true)
    (fun s i q k hk _ => ⟨i, q, _, asks_turn answers_serve hk⟩) overlapping (start arpOn quiet)
    (by decide +kernel)
  have hdone : ∀ i, ((overlapping.foldl (turn serve) (start arpOn quiet)).talks i).result =
      some true := by
    intro i
    cases i <;> decide +kernel
  have hstore : (overlapping.foldl (turn serve) (start arpOn quiet)).device.store (.arp, 0) =
      [2] := by
    decide +kernel
  rcases h _ hrun hdone with hs | hs
  · rw [hs] at hstore
    exact absurd hstore (by decide +kernel)
  · rw [hs] at hstore
    exact absurd hstore (by decide +kernel)

end Ipmitool.Cmd.Updates
