import Ipmitool.Core.Types
import Ipmitool.Lib.Pointers

/-! # The request lists, cell by cell

`reqAddEntry`, `reqLookupEntry`, `reqRemoveEntry` and `reqClearEntries` of `intf/lan.zig` and
`intf/lanplus.zig`, on a heap. The first, the third and what they do with the pointers are the same
in both files; the lookups and the loops of the last differ. A loop follows pointers as long as it
has fuel. Of an entry the key and the pointer to the next entry are read here; the rest is a
parameter.

What the operations mean is said by lists in the order of insertion (`specStep`), where `List.find?`
and `List.eraseP` take the first entry with the key. -/

namespace Ipmitool.Core.Requests

open Ipmitool.Core.Types Ipmitool.Lib.Pointers

variable {α : Type}

/-! ### The code -/

/-- Why an operation does not return. -/
inductive Stop where
  | fault (f : Fault)
  | fuel
  deriving DecidableEq

structure Entry (α : Type) where
  rqSeq : UInt8
  cmd : UInt8
  rest : α
  deriving DecidableEq

def Entry.hasKey (seq cmd : UInt8) (e : Entry α) : Bool := e.rqSeq = seq ∧ e.cmd = cmd

/-- `req_entries` and `req_entries_tail`, and the heap. -/
structure Vars (α : Type) where
  heap : Heap (Entry α) := fun _ => none
  reqEntries : Option ℕ := none
  reqEntriesTail : Option ℕ := none

/-- `malloc`: null, or an address that is not in use. -/
structure Malloc where
  pick : (ℕ → Bool) → Option ℕ
  fresh : ∀ live a, pick live = some a → live a = false

/-- The cell behind a pointer. -/
def deref (heap : Heap (Entry α)) (p : ℕ) : Except Stop (Cell (Entry α)) :=
  match heap p with
  | some c => .ok c
  | none => .error (.fault .useAfterFree)

/-- A pointer that the code asserts not to be null. -/
def unwrap (p : Option ℕ) : Except Stop ℕ :=
  match p with
  | some a => .ok a
  | none => .error (.fault .nullUnwrap)

/-- `reqAddEntry` of both files. -/
def addEntry (malloc : Malloc) (x : Entry α) (s : Vars α) : Except Stop (Option ℕ × Vars α) :=
  match malloc.pick fun a => (s.heap a).isSome with
  | none => .ok (none, s)
  | some e => do
    let heap := Function.update s.heap e (some ⟨x, none⟩)
    if s.reqEntries = none then
      return (some e, ⟨heap, some e, some e⟩)
    else
      let tail ← unwrap s.reqEntriesTail
      let c ← deref heap tail
      return (some e, ⟨Function.update heap tail (some { c with next := some e }),
        s.reqEntries, some e⟩)

/-- The loop of `reqRemoveEntry`: the entry with the key and the entry in front of it. -/
def findEntry (seq cmd : UInt8) (heap : Heap (Entry α)) :
    ℕ → Option ℕ → Option ℕ → Except Stop (Option ℕ × Option ℕ)
  | 0, _, _ => .error .fuel
  | _ + 1, p, none => .ok (p, none)
  | fuel + 1, p, some cur => do
    let c ← deref heap cur
    if c.val.hasKey seq cmd then return (p, some cur)
    else findEntry seq cmd heap fuel (some cur) c.next

/-- `reqRemoveEntry` of both files. -/
def removeEntry (fuel : ℕ) (seq cmd : UInt8) (s : Vars α) : Except Stop (Vars α) := do
  let (p, e) ← findEntry seq cmd s.heap fuel s.reqEntries s.reqEntries
  match e with
  | none => return s
  | some cur =>
    let c ← deref s.heap cur
    let savedNextEntry := c.next
    let prev ← unwrap p
    let d ← deref s.heap prev
    let heap := Function.update s.heap prev (some { d with next := if d.next = c.next then none
      else c.next })
    let reqEntries := if s.reqEntries = some cur then (if s.reqEntries ≠ p then p
      else savedNextEntry)
      else s.reqEntries
    let reqEntriesTail :=
      if s.reqEntriesTail = some cur then (if s.reqEntriesTail ≠ p then p else none)
        else s.reqEntriesTail
    return ⟨Function.update heap cur none, reqEntries, reqEntriesTail⟩

namespace Lanplus

/-- `reqLookupEntry` of `intf/lanplus.zig`. -/
def reqLookupEntry (seq cmd : UInt8) (heap : Heap (Entry α)) : ℕ → Option ℕ → Except Stop (Option ℕ)
  | 0, _ => .error .fuel
  | _ + 1, none => .ok none
  | fuel + 1, some cur => do
    let c ← deref heap cur
    if c.val.hasKey seq cmd then return some cur
    else if c.next = some cur then return none
    else reqLookupEntry seq cmd heap fuel c.next

/-- The loop of `reqClearEntries` of `intf/lanplus.zig`. -/
def clearLoop : ℕ → Option ℕ → Heap (Entry α) → Except Stop (Heap (Entry α))
  | 0, _, _ => .error .fuel
  | _ + 1, none, heap => .ok heap
  | fuel + 1, some cur, heap => do
    let c ← deref heap cur
    clearLoop fuel c.next (Function.update heap cur none)

end Lanplus

namespace Lan

/-- `reqLookupEntry` of `intf/lan.zig`. -/
def reqLookupEntry (seq cmd : UInt8) (heap : Heap (Entry α)) : ℕ → Option ℕ → Except Stop (Option ℕ)
  | 0, _ => .error .fuel
  | _ + 1, none => .ok none
  | fuel + 1, some cur => do
    let c ← deref heap cur
    if c.val.hasKey seq cmd then return some cur
    else
      match c.next with
      | none => return none
      | some next =>
        if next = cur then return none
        else reqLookupEntry seq cmd heap fuel (some next)

/-- The loop of `reqClearEntries` of `intf/lan.zig`. -/
def clearLoop : ℕ → Option ℕ → Heap (Entry α) → Except Stop (Heap (Entry α))
  | 0, _, _ => .error .fuel
  | _ + 1, none, heap => .ok heap
  | fuel + 1, some cur, heap => do
    let c ← deref heap cur
    match c.next with
    | some next => clearLoop fuel (some next) (Function.update heap cur none)
    | none => return Function.update heap cur none

end Lan

/-- The functions of one of the files. -/
structure Functions (α : Type) where
  reqAddEntry : Malloc → Entry α → Vars α → Except Stop (Option ℕ × Vars α)
  lookupLoop : UInt8 → UInt8 → Heap (Entry α) → ℕ → Option ℕ → Except Stop (Option ℕ)
  reqRemoveEntry : ℕ → UInt8 → UInt8 → Vars α → Except Stop (Vars α)
  clearLoop : ℕ → Option ℕ → Heap (Entry α) → Except Stop (Heap (Entry α))

def lanplus : Functions α := ⟨addEntry, Lanplus.reqLookupEntry, removeEntry, Lanplus.clearLoop⟩

def lan : Functions α := ⟨addEntry, Lan.reqLookupEntry, removeEntry, Lan.clearLoop⟩

/-! ### Runs -/

inductive Op (α : Type) where
  | add (malloc : Malloc) (x : Entry α)
  | lookup (seq cmd : UInt8)
  | remove (seq cmd : UInt8)
  | clear

/-- An operation: the pointer that it returns, and the new state. -/
def step (F : Functions α) (fuel : ℕ) (s : Vars α) : Op α → Except Stop (Option ℕ × Vars α)
  | .add malloc x => F.reqAddEntry malloc x s
  | .lookup seq cmd => do
    let e ← F.lookupLoop seq cmd s.heap fuel s.reqEntries
    return (e, s)
  | .remove seq cmd => do
    let s ← F.reqRemoveEntry fuel seq cmd s
    return (none, s)
  | .clear => do
    let heap ← F.clearLoop fuel s.reqEntries s.heap
    return (none, ⟨heap, none, none⟩)

def run (F : Functions α) (fuel : ℕ) : List (Op α) → Vars α → Except Stop (List (Option ℕ) × Vars α)
  | [], s => .ok ([], s)
  | op :: ops, s => do
    let (out, s) ← step F fuel s op
    let (outs, s) ← run F fuel ops s
    return (out :: outs, s)

/-! ### The meaning -/

/-- Does the entry at an address have the key? -/
def isKey (seq cmd : UInt8) (c : ℕ × Entry α) : Bool := c.2.hasKey seq cmd

/-- A new entry is the last one. -/
def specAdd (malloc : Malloc) (x : Entry α) (l : List (ℕ × Entry α)) :
    Option ℕ × List (ℕ × Entry α) :=
  match malloc.pick fun a => decide (a ∈ addresses l) with
  | none => (none, l)
  | some e => (some e, l ++ [(e, x)])

/-- What an operation means for the entries in the order of insertion, with their addresses. -/
def specStep (l : List (ℕ × Entry α)) : Op α → Option ℕ × List (ℕ × Entry α)
  | .add malloc x => specAdd malloc x l
  | .lookup seq cmd => ((l.find? (isKey seq cmd)).map Prod.fst, l)
  | .remove seq cmd => (none, l.eraseP (isKey seq cmd))
  | .clear => (none, [])

def specRun : List (Op α) → List (ℕ × Entry α) → List (Option ℕ) × List (ℕ × Entry α)
  | [], l => ([], l)
  | op :: ops, l =>
    let (out, l) := specStep l op
    let (outs, l) := specRun ops l
    (out :: outs, l)

/-! ### The operations -/

/-- The list of both variables. -/
def IsList (s : Vars α) (l : List (ℕ × Entry α)) : Prop :=
  Holds s.heap s.reqEntries s.reqEntriesTail l

theorem addEntry_ok {s : Vars α} {l : List (ℕ × Entry α)} (hl : IsList s l) (malloc : Malloc)
    (x : Entry α) :
    ∃ s', addEntry malloc x s = .ok ((specAdd malloc x l).1, s') ∧
    IsList s' (specAdd malloc x l).2 := by
  have hlive : (fun a => (s.heap a).isSome) = fun a => decide (a ∈ addresses l) := by
    funext a
    rw [Bool.eq_iff_iff, decide_eq_true_iff]
    exact hl.live a
  unfold addEntry specAdd
  rw [hlive]
  rcases hpick : malloc.pick fun a => decide (a ∈ addresses l) with _ | e
  · exact ⟨s, rfl, hl⟩
  have he : s.heap e = none := by
    have hnot : e ∉ addresses l := of_decide_eq_false (malloc.fresh _ _ hpick)
    rw [← hl.live] at hnot
    exact Option.isNone_iff_eq_none.mp (by simpa using hnot)
  rcases List.eq_nil_or_concat' l with rfl | ⟨front, ⟨t, b⟩, rfl⟩
  · have hhead : s.reqEntries = none := hl.seg.head_eq
    dsimp only
    rw [if_pos hhead]
    exact ⟨_, rfl, hl.pushFirst e x⟩
  · have hhead : s.reqEntries ≠ none := by
      rw [hl.seg.head_eq]
      simp
    have htail : s.reqEntriesTail = some t := by
      rw [hl.tail]
      simp
    obtain ⟨hcell, hholds⟩ := hl.push he x
    dsimp only
    rw [if_neg hhead, htail]
    refine ⟨⟨_, _, _⟩, ?_, hholds⟩
    change (deref _ t >>= _) = _
    unfold deref
    rw [hcell]
    rfl

theorem deref_ok {heap : Heap (Entry α)} {p : ℕ} {c : Cell (Entry α)} (h : heap p = some c) :
    deref heap p = .ok c := by
  unfold deref
  rw [h]

theorem lookup_ok (seq cmd : UInt8) {heap : Heap (Entry α)} :
    ∀ {l : List (ℕ × Entry α)} {e : Option ℕ} {fuel : ℕ},
    (addresses l).Nodup → Seg heap e l none → l.length < fuel →
      Lanplus.reqLookupEntry seq cmd heap fuel e = .ok ((l.find? (isKey seq cmd)).map Prod.fst) ∧
      Lan.reqLookupEntry seq cmd heap fuel e = .ok ((l.find? (isKey seq cmd)).map Prod.fst)
  | _, _, 0, _, _, h => absurd h (Nat.not_lt_zero _)
  | [], _, fuel + 1, _, .nil, _ => ⟨rfl, rfl⟩
  | (i, a) :: l, _, fuel + 1, hnodup, @Seg.cons _ _ _ _ next _ _ hi hrest, h => by
    obtain ⟨hnot, hnodup⟩ := List.nodup_cons.mp hnodup
    obtain ⟨hplus, hlan⟩ := lookup_ok seq cmd hnodup hrest (Nat.lt_of_succ_lt_succ h)
    rw [Lanplus.reqLookupEntry, Lan.reqLookupEntry, deref_ok hi]
    by_cases hkey : a.hasKey seq cmd = true
    · have hfind : ((i, a) :: l).find? (isKey seq cmd) = some (i, a) := List.find?_cons_of_pos hkey
      rw [hfind]
      change (if a.hasKey seq cmd = true then _ else _) = _ ∧
        (if a.hasKey seq cmd = true then _ else _) = _
      rw [if_pos hkey, if_pos hkey]
      exact ⟨rfl, rfl⟩
    · have hfind : ((i, a) :: l).find? (isKey seq cmd) = l.find? (isKey seq cmd) :=
        List.find?_cons_of_neg hkey
      rw [hfind]
      change (if a.hasKey seq cmd = true then _ else if next = some i then _ else _) = _ ∧
        (if a.hasKey seq cmd = true then _ else _) = _
      rw [if_neg hkey, if_neg hkey]
      cases hrest with
      | nil => exact ⟨hplus, rfl⟩
      | @cons j b _ l hj hrest =>
        have hne : ¬ j = i := fun heq => hnot (heq ▸ List.mem_cons_self)
        have hne' : ¬ some j = some i := fun heq => hne (Option.some.inj heq)
        dsimp only
        rw [if_neg hne', if_neg hne]
        exact ⟨hplus, hlan⟩

theorem findEntry_none (seq cmd : UInt8) {heap : Heap (Entry α)} :
    ∀ {l : List (ℕ × Entry α)} {p e : Option ℕ}
    {fuel : ℕ}, (∀ c ∈ l, ¬ isKey seq cmd c = true) → Seg heap e l none → l.length < fuel → ∃ p',
      findEntry seq cmd heap fuel p e = .ok (p', none)
  | _, _, _, 0, _, _, h => absurd h (Nat.not_lt_zero _)
  | [], p, _, fuel + 1, _, .nil, _ => ⟨p, rfl⟩
  | (i, a) :: l, _, _, fuel + 1, hno, .cons hi hrest, h => by
    have hkey : ¬ a.hasKey seq cmd = true := hno _ List.mem_cons_self
    obtain ⟨p', hp'⟩ :=
      findEntry_none seq cmd (p := some i) (fun c hc => hno c (List.mem_cons_of_mem _ hc)) hrest
        (Nat.lt_of_succ_lt_succ h)
    refine ⟨p', ?_⟩
    rw [findEntry, deref_ok hi]
    change (if a.hasKey seq cmd = true then _ else _) = _
    rw [if_neg hkey]
    exact hp'

theorem findEntry_some (seq cmd : UInt8) {heap : Heap (Entry α)} {i : ℕ} {a : Entry α}
    {l' : List (ℕ × Entry α)}
    (hkey : a.hasKey seq cmd = true) : ∀ {l : List (ℕ × Entry α)} {p e : Option ℕ} {fuel : ℕ},
      (∀ c ∈ l, ¬ isKey seq cmd c = true) → Seg heap e (l ++ (i, a) :: l') none → l.length < fuel →
        findEntry seq cmd heap fuel p e = .ok ((addresses l).getLast?.or p, some i)
  | _, _, _, 0, _, _, h => absurd h (Nat.not_lt_zero _)
  | [], p, _, fuel + 1, _, .cons hi _, _ => by
    rw [findEntry, deref_ok hi]
    change (if a.hasKey seq cmd = true then _ else _) = _
    rw [if_pos hkey]
    rfl
  | (j, b) :: l, p, _, fuel + 1, hno, .cons hj hrest, h => by
    have hb : ¬ b.hasKey seq cmd = true := hno _ List.mem_cons_self
    have ih := findEntry_some seq cmd hkey (p := some j)
      (fun c hc => hno c (List.mem_cons_of_mem _ hc)) hrest
      (Nat.lt_of_succ_lt_succ h)
    have hlast : (addresses ((j, b) :: l)).getLast?.or p = (addresses l).getLast?.or (some j) := by
      rw [addresses_cons, List.getLast?_cons]
      rcases (addresses l).getLast? with _ | k <;> rfl
    rw [findEntry, deref_ok hj, hlast]
    change (if b.hasKey seq cmd = true then _ else _) = _
    rw [if_neg hb]
    exact ih

/-- What the removal makes of the tail pointer, by the pointer that it keeps behind the entry. -/
theorem tail_removed {i : ℕ} {a : Entry α} {l : List (ℕ × Entry α)} {t p : Option ℕ}
    (htail : t = (addresses ((i, a) :: l)).getLast?) (hnodup : (addresses ((i, a) :: l)).Nodup) :
    (if t = some i then (if t ≠ p then p else none) else t) =
      (addresses l).getLast?.or (if p = some i then none else p) := by
  obtain ⟨hnot, -⟩ := List.nodup_cons.mp hnodup
  rw [addresses_cons, List.getLast?_cons] at htail
  rcases hlast : (addresses l).getLast? with _ | k
  · rw [hlast] at htail
    change t = some i at htail
    rw [if_pos htail, htail]
    by_cases hp : p = some i
    · rw [if_pos hp, hp, if_neg (not_not.mpr rfl)]
      rfl
    · rw [if_neg hp, if_pos (Ne.symm hp)]
      rfl
  · rw [hlast] at htail
    have hki : some k ≠ some i := fun heq => hnot (Option.some.inj heq ▸ List.mem_of_getLast? hlast)
    rw [if_neg (htail.trans_ne hki)]
    exact htail

theorem removeEntry_ok {s : Vars α} {l : List (ℕ × Entry α)} (hl : IsList s l) {fuel : ℕ}
    (hfuel : l.length < fuel) (seq cmd : UInt8) :
    ∃ s', removeEntry fuel seq cmd s = .ok s' ∧ IsList s' (l.eraseP (isKey seq cmd)) := by
  unfold removeEntry
  rcases List.exists_or_eq_self_of_eraseP (isKey seq cmd) l with hsame | ⟨⟨i, a⟩, l1, l2, hno, hkey,
    rfl, herase⟩
  · obtain ⟨p', hp'⟩ :=
      findEntry_none seq cmd (p := s.reqEntries) (List.eraseP_eq_self_iff.mp hsame) hl.seg hfuel
    rw [hp', hsame]
    exact ⟨s, rfl, hl⟩
  have hlen : l1.length < fuel := by
    rw [List.length_append] at hfuel
    omega
  have hhead := hl.seg.head_eq
  have htail := hl.tail
  have hnodup := hl.nodup
  rw [herase, findEntry_some seq cmd hkey hno hl.seg hlen]
  change ∃ s', (deref s.heap i >>= fun c => unwrap ((addresses l1).getLast?.or s.reqEntries) >>=
    fun prev =>
    deref s.heap prev >>= fun d => Except.ok (Vars.mk _ _ _)) = _ ∧ _
  rcases List.eq_nil_or_concat' l1 with rfl | ⟨front, ⟨q, b⟩, rfl⟩
  · -- the first entry: the pointer behind it is the entry itself
    obtain ⟨next, hcell, -, hholds⟩ := hl.unlinkFirst (some ⟨a, none⟩)
    have hp : (addresses ([] : List (ℕ × Entry α))).getLast?.or s.reqEntries = some i := hhead
    rw [hp, deref_ok hcell]
    change ∃ s', (deref s.heap i >>= fun d => Except.ok (Vars.mk _ _ _)) = _ ∧ _
    rw [deref_ok hcell]
    refine ⟨_, rfl, ?_⟩
    have hhead' : s.reqEntries = some i := hhead
    have htail' : (if s.reqEntriesTail = some i then
        (if s.reqEntriesTail ≠ some i then some i else none) else s.reqEntriesTail) =
          (addresses l2).getLast? := by
      have hlast := tail_removed (p := some i) htail hnodup
      rw [if_pos rfl, Option.or_none] at hlast
      exact hlast
    unfold IsList
    dsimp only
    rw [if_pos rfl, hhead', if_pos rfl, if_neg (not_not.mpr rfl), htail']
    exact hholds
  · have hassoc : front ++ [(q, b)] ++ (i, a) :: l2 = front ++ (q, b) :: (i, a) :: l2 :=
      List.append_assoc ..
    unfold IsList at hl
    rw [hassoc] at hl hhead htail hnodup
    obtain ⟨next, hq, hi, hne, hnext, hholds⟩ := hl.unlink
    have hp : (addresses (front ++ [(q, b)])).getLast?.or s.reqEntries = some q := by
      rw [addresses_append, addresses_cons, addresses_nil, List.getLast?_concat]
      rfl
    rw [hp, deref_ok hi]
    change ∃ s', (deref s.heap q >>= fun d => Except.ok (Vars.mk _ _ _)) = _ ∧ _
    rw [deref_ok hq]
    refine ⟨_, rfl, ?_⟩
    have hhead' : s.reqEntries ≠ some i := by
      rw [hhead]
      rcases front with _ | ⟨c, front⟩
      · exact fun heq => hne (Option.some.inj heq).symm
      · intro heq
        obtain ⟨hnot, -⟩ := List.nodup_cons.mp hnodup
        exact hnot (by simp [show c.1 = i from Option.some.inj heq])
    have htail' : (if s.reqEntriesTail = some i then
        (if s.reqEntriesTail ≠ some q then some q else none) else s.reqEntriesTail) =
          (addresses (front ++ (q, b) :: l2)).getLast? := by
      have hbehind : (addresses ((i, a) :: l2)).Nodup := by
        simp only [addresses_append, addresses_cons, List.nodup_append, List.nodup_cons] at hnodup ⊢
        exact hnodup.2.1.2
      have hlastTail : s.reqEntriesTail = (addresses ((i, a) :: l2)).getLast? := by
        rw [htail, addresses_append, addresses_cons, addresses_cons, List.getLast?_append_cons,
          List.getLast?_cons_cons, ← addresses_cons]
      have hlast := tail_removed (p := some q) hlastTail hbehind
      rw [if_neg fun heq => hne (Option.some.inj heq).symm] at hlast
      rw [hlast, addresses_append, addresses_cons, List.getLast?_append_cons, List.getLast?_cons]
      rcases (addresses l2).getLast? with _ | k <;> rfl
    unfold IsList
    dsimp only
    rw [if_neg hhead', if_neg (Ne.symm hnext), htail', List.append_assoc]
    exact hholds

/-- The heap without the cells of a list. -/
def cleared (heap : Heap (Entry α)) (l : List (ℕ × Entry α)) : Heap (Entry α) :=
  fun j => if j ∈ addresses l then none else heap j

theorem cleared_cons {heap : Heap (Entry α)} {i : ℕ} {a : Entry α} {l : List (ℕ × Entry α)} :
    cleared (Function.update heap i none) l = cleared heap ((i, a) :: l) := by
  funext j
  unfold cleared
  rw [addresses_cons]
  by_cases hj : j ∈ addresses l
  · rw [if_pos hj, if_pos (List.mem_cons_of_mem _ hj)]
  · by_cases hji : j = i
    · rw [if_neg hj, hji, Function.update_self, if_pos List.mem_cons_self]
    · rw [if_neg hj, Function.update_of_ne hji, if_neg (List.not_mem_cons_of_ne_of_not_mem hji hj)]

theorem clear_ok : ∀ {l : List (ℕ × Entry α)} {heap : Heap (Entry α)} {e : Option ℕ} {fuel : ℕ},
    (addresses l).Nodup → Seg heap e l none → l.length < fuel →
      Lanplus.clearLoop fuel e heap = .ok (cleared heap l) ∧
        Lan.clearLoop fuel e heap = .ok (cleared heap l)
  | _, _, _, 0, _, _, h => absurd h (Nat.not_lt_zero _)
  | [], heap, _, fuel + 1, _, .nil, _ => by
    have hsame : cleared heap [] = heap := rfl
    exact ⟨by rw [hsame]; rfl, by rw [hsame]; rfl⟩
  | (i, a) :: l, heap, _, fuel + 1, hnodup, @Seg.cons _ _ _ _ next _ _ hi hrest, h => by
    obtain ⟨hnot, hnodup⟩ := List.nodup_cons.mp hnodup
    have hrest' : Seg (Function.update heap i none) next l none := hrest.congr fun j hj => by
      have hji : j ≠ i := fun heq => hnot (heq ▸ hj : i ∈ addresses l)
      exact Function.update_of_ne hji ..
    obtain ⟨hplus, hlan⟩ := clear_ok hnodup hrest' (Nat.lt_of_succ_lt_succ h)
    rw [Lanplus.clearLoop, Lan.clearLoop, deref_ok hi, ← cleared_cons]
    refine ⟨hplus, ?_⟩
    cases hrest with
    | nil => rfl
    | cons hj hrest => exact hlan

theorem step_ok {s : Vars α} {l : List (ℕ × Entry α)} (hl : IsList s l) {fuel : ℕ}
    (hfuel : l.length < fuel) (op : Op α) :
    ∃ s', step lanplus fuel s op = .ok ((specStep l op).1, s') ∧
      step lan fuel s op = .ok ((specStep l op).1, s') ∧ IsList s' (specStep l op).2 := by
  cases op with
  | add malloc x =>
    obtain ⟨s', hadd, hl'⟩ := addEntry_ok hl malloc x
    exact ⟨s', hadd, hadd, hl'⟩
  | lookup seq cmd =>
    obtain ⟨hplus, hlan⟩ := lookup_ok seq cmd hl.nodup hl.seg hfuel
    refine ⟨s, ?_, ?_, hl⟩
    · change (Lanplus.reqLookupEntry seq cmd s.heap fuel s.reqEntries >>= _) = _
      rw [hplus]
      rfl
    · change (Lan.reqLookupEntry seq cmd s.heap fuel s.reqEntries >>= _) = _
      rw [hlan]
      rfl
  | remove seq cmd =>
    obtain ⟨s', hremove, hl'⟩ := removeEntry_ok hl hfuel seq cmd
    have hstep : (removeEntry fuel seq cmd s >>= fun s => Except.ok ((none : Option ℕ), s)) =
        .ok (none, s') := by
      rw [hremove]
      rfl
    exact ⟨s', hstep, hstep, hl'⟩
  | clear =>
    obtain ⟨hplus, hlan⟩ := clear_ok hl.nodup hl.seg hfuel
    have hempty : cleared s.heap l = fun _ => none := by
      funext j
      unfold cleared
      split
      · rfl
      · next hj => simpa using mt (hl.live j).mp hj
    refine ⟨⟨fun _ => none, none, none⟩, ?_, ?_, holds_empty⟩
    · change (Lanplus.clearLoop fuel s.reqEntries s.heap >>= _) = _
      rw [hplus, hempty]
      rfl
    · change (Lan.clearLoop fuel s.reqEntries s.heap >>= _) = _
      rw [hlan, hempty]
      rfl

theorem specStep_length (l : List (ℕ × Entry α)) (op : Op α) :
    (specStep l op).2.length ≤ l.length + 1 := by
  cases op with
  | add malloc x =>
    change (specAdd malloc x l).2.length ≤ _
    unfold specAdd
    rcases malloc.pick fun a => decide (a ∈ addresses l) with _ | e
    · exact Nat.le_succ _
    · simp
  | lookup seq cmd => exact Nat.le_succ _
  | remove seq cmd =>
    have hle : (l.eraseP (isKey seq cmd)).length ≤ l.length := List.length_eraseP_le
    exact Nat.le_succ_of_le hle
  | clear => exact Nat.zero_le _

theorem run_ok : ∀ (ops : List (Op α)) (fuel : ℕ) {s : Vars α}
    {l : List (ℕ × Entry α)}, IsList s l →
    l.length + ops.length < fuel + 1 → ∃ s', run lanplus fuel ops s = .ok ((specRun ops l).1, s') ∧
      run lan fuel ops s = .ok ((specRun ops l).1, s') ∧ IsList s' (specRun ops l).2
  | [], _, s, l, hl, _ => ⟨s, rfl, rfl, hl⟩
  | op :: ops, fuel, s, l, hl, h => by
    rw [List.length_cons] at h
    have hlen := specStep_length l op
    obtain ⟨s', hplus, hlan, hl'⟩ := step_ok hl (show l.length < fuel by omega) op
    obtain ⟨s'', hplus', hlan', hl''⟩ := run_ok ops fuel hl' (by omega)
    refine ⟨s'', ?_, ?_, hl''⟩
    · rw [run, hplus]
      change (run lanplus fuel ops s' >>= _) = _
      rw [hplus']
      rfl
    · rw [run, hlan]
      change (run lan fuel ops s' >>= _) = _
      rw [hlan']
      rfl

/-- Every run on empty lists: in either file the operations do what they mean for the entries in the
order of insertion, the entries hang in this order at `req_entries` up to a null pointer, and
`req_entries_tail` is the last of them. -/
theorem requests_discipline (ops : List (Op α)) (fuel : ℕ) (hfuel : ops.length < fuel) :
    ∃ s, run lanplus fuel ops {} = .ok ((specRun ops []).1, s) ∧
      run lan fuel ops {} = .ok ((specRun ops []).1, s) ∧
      IsList s (specRun ops []).2 ∧
      (s.reqEntries = none ↔ (specRun ops []).2 = []) ∧
      (s.reqEntriesTail = none ↔ (specRun ops []).2 = []) := by
  have hempty : IsList ({} : Vars α) [] := holds_empty
  obtain ⟨s, hplus, hlan, hl⟩ := run_ok ops fuel hempty (by simp; omega)
  refine ⟨s, hplus, hlan, hl, ?_, ?_⟩
  · rw [hl.seg.head_eq, List.head?_eq_none_iff]
    exact List.map_eq_nil_iff
  · rw [hl.tail, List.getLast?_eq_none_iff]
    exact List.map_eq_nil_iff

/-- Two entries with one key and a third one: the lookup returns the older of the two, the removal
unlinks it, and the third is removed at the tail. -/
theorem requests_discipline_duplicate : let malloc : Malloc :=
  ⟨fun live => if live 0 then (if live 1 then (if live 2 then none else some 2) else some 1)
      else some 0, fun live a h => by grind⟩
    let ops : List (Op Unit) :=
      [.add malloc ⟨1, 2, ()⟩, .add malloc ⟨1, 2, ()⟩, .add malloc ⟨3, 4, ()⟩, .lookup 1 2,
        .remove 1 2, .lookup 1 2, .remove 3 4, .add malloc ⟨5, 6, ()⟩, .lookup 5 6]
    ops.length < 10 ∧ ∃ s, run lanplus 10 ops {} =
        .ok ([some 0, some 1, some 2, some 0, none, some 1, none, some 0, some 0], s) ∧
      IsList s [(1, ⟨1, 2, ()⟩), (0, ⟨5, 6, ()⟩)] := by
  intro malloc ops
  obtain ⟨s, hplus, -, hl, -⟩ := requests_discipline ops 10 (by decide)
  exact ⟨by decide, s, hplus, hl⟩

end Ipmitool.Core.Requests
