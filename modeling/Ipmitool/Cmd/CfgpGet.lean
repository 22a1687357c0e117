import Ipmitool.Cmd.Cfgp
import Ipmitool.Lib.Sweep

/-! # Which values are read

`get` of `cmd/cfgp.zig` counts sets and blocks up to the first failure. `Wanted` are the values that
it ought to read for a parameter, in terms of `Lib.Sweep`, and `Enumerates` says that it returns
with these and no others, in order, behind the values that are on the list already.

* `getParam_spec`: a parameter that is not endless is read so.
* `setLoop_endless`: a parameter without blocks whose first block is one is read without end once a
  value has been read or the messages are off, if its set selector is open. -/

namespace Ipmitool.Cmd.Cfgp

open Ipmitool.Core.Types Ipmitool.Util.IntegerScan Ipmitool.Util.Numbers Ipmitool.Lib.Sweep

/-! ### What is to be read -/

/-- The order by parameter, set and block. -/
def Sel.Before (a b : Sel) : Prop :=
  a.param < b.param ∨ a.param = b.param ∧ (a.set < b.set ∨ a.set = b.set ∧ a.block < b.block)

section
variable (p : Descriptor) (sel : Sel)

/-- The sets are counted. -/
def setOpen : Bool := sel.set = -1 ∧ p.isSet

/-- The set that is read first. -/
def startSet : ℤ := if sel.set = -1 then (if p.isSet then p.firstSet else 0) else sel.set

/-- The blocks are counted. -/
def blockOpen : Bool := sel.block = -1 ∧ p.hasBlocks

/-- The block that is read first. -/
def startBlock : ℤ := if sel.block = -1 then (if p.hasBlocks then p.firstBlock else 0)
    else sel.block

end

/-- The values of a parameter that are to be read: all sets up to the first one whose first block
fails, or the one set, and of a set all blocks up to the first failure, or the one block. -/
structure Wanted (get : ℕ → ℤ → ℤ → Option (List UInt8)) (p : Descriptor) (index : ℕ) (sel : Sel)
    (node : Node) : Prop where
  param : node.sel.param = index
  set : Passed (setOpen p sel) (startSet p sel) (fun s =>
      (get index s (startBlock p sel)).isSome) node.sel.set
  block : Passed (blockOpen p sel) (startBlock p sel)
    (fun b => (get index node.sel.set b).isSome) node.sel.block
  data : get index node.sel.set node.sel.block = some node.data

/-- The parameters of a list that are read: those that can be, up to one without a size, which ends
the reading. -/
def readable (entries : List (Descriptor × ℕ)) : List (Descriptor × ℕ) :=
  (entries.filter fun entry => entry.1.access ≠ wronly).takeWhile fun entry => entry.1.size ≠ 0

/-- The parameters that are read: all that can be, or the one that is selected. -/
def visited (table : List Descriptor) (sel : Sel) : List (Descriptor × ℕ) :=
  if sel.param = -1 then readable table.zipIdx
  else ((table[sel.param.toNat]?).filter (·.size ≠ 0)).toList.map fun p => (p, sel.param.toNat)

/-- The reading returns, given enough rounds. -/
def Returns (ctx : Context) (sel : Sel) (r : Bool × List Node) : Prop :=
  ∃ least, ∀ rounds, least ≤ rounds → get ctx rounds sel = some r

/-- The reading returns, and it has put the wanted values behind the list, in order. -/
def Enumerates (ctx : Context) (sel : Sel) : Prop :=
  ∃ result added, Returns ctx sel (result, ctx.v ++ added) ∧
    added.Pairwise (fun a b => a.sel.Before b.sel) ∧
    ∀ node, node ∈ added ↔ ∃ entry ∈ visited ctx.set sel,
      Wanted ctx.handler.get entry.1 entry.2 sel node

/-- The handler succeeds finitely often: before a `c_int` ends, it fails for a block of each set,
and, for each block, for a set. -/
def FinitelyOften (get : ℕ → ℤ → ℤ → Option (List UInt8)) (table : List Descriptor) : Prop :=
  ∀ p index, table[index]? = some p →
    (∀ set, ∃ block, p.firstBlock ≤ block ∧ block < 2 ^ 31 ∧ get index set block = none) ∧
    ∀ block, ∃ set, p.firstSet ≤ set ∧ set < 2 ^ 31 ∧ get index set block = none

/-- Sets of a parameter without blocks are counted, and its first block is one. -/
def Endless (get : ℕ → ℤ → ℤ → Option (List UInt8)) (p : Descriptor) (index : ℕ)
    (sel : Sel) : Prop :=
  p.isSet = true ∧ p.hasBlocks = false ∧ p.firstBlock ≠ 0 ∧ sel.set = -1 ∧
    (sel.param = -1 ∨ (get index p.firstSet 0).isSome = true)

/-! ### Selectors -/

theorem flags_le (p : Descriptor) (shift : UInt32) : (p.flags shift 1).toNat ≤ 1 := by
  unfold Descriptor.flags
  rw [UInt32.toNat_and]
  exact Nat.and_le_right

theorem firstSet_range (p : Descriptor) : 0 ≤ p.firstSet ∧ p.firstSet ≤ 1 := by
  have := flags_le p 3
  unfold Descriptor.firstSet
  omega

theorem firstBlock_range (p : Descriptor) : 0 ≤ p.firstBlock ∧ p.firstBlock ≤ 1 := by
  have := flags_le p 5
  unfold Descriptor.firstBlock
  omega

theorem parseNumber_range {dialect : Dialect} {first value : ℤ} {word : List UInt8}
    (hfirst : first ≤ 1) (h : parseNumber dialect first word = .ok (some value)) :
    0 ≤ value ∧ first ≤ value ∧ value < 2 ^ 31 := by
  unfold parseNumber at h
  rcases hword : str2int dialect word with e | _ | read
  · rw [hword] at h
    cases h
  · rw [hword] at h
    cases h
  · have hrange := str2int_range hword
    rw [hword] at h
    have h : (if _ then _ else _) = some value := Except.ok.inj h
    split_ifs at h with hneg
    cases h
    omega

/-- The selectors that `parseSel` returns. -/
inductive Selects (table : List Descriptor) : Sel → Prop
  | all : Selects table ⟨-1, -1, -1⟩
  | one {p : Descriptor} {index : ℕ} {set block : ℤ} (hp : table[index]? = some p)
      (hset : if p.isSet then set = -1 ∨ 0 ≤ set ∧ p.firstSet ≤ set ∧ set < 2 ^ 31 else set = 0)
      (hblock : if p.hasBlocks then block = -1 ∨ 0 ≤ block ∧ p.firstBlock ≤ block ∧ block < 2 ^ 31
        else block = 0)
      (hopen : p.isSet = true → set = -1 → p.hasBlocks = true → block = -1) :
      Selects table ⟨index, set, block⟩

theorem parseFound_selects {table : List Descriptor} {dialect : Dialect} {p : Descriptor}
    {index n : ℕ} {sel : Sel}
    (hp : table[index]? = some p) (args : List (List UInt8))
    (h : parseFound dialect p index args = .ok (some (n, sel))) : Selects table sel := by
  have hset := firstSet_range p
  have hblock := firstBlock_range p
  rcases args with _ | ⟨setWord, args⟩
  · cases h
    exact .one hp (by split_ifs <;> simp) (by split_ifs <;> simp) (fun _ _ hb => if_pos hb)
  unfold parseFound at h
  dsimp only at h
  by_cases hs : p.isSet = true
  · rw [if_neg (by simpa using hs)] at h
    rcases hset' : parseNumber dialect p.firstSet setWord with e | _ | set
    · rw [hset'] at h
      cases h
    · rw [hset'] at h
      cases h
    have hrange := parseNumber_range hset.2 hset'
    rw [hset'] at h
    rcases args with _ | ⟨blockWord, args⟩
    · cases h
      exact .one hp (by rw [if_pos hs]; exact .inr hrange) (by split_ifs <;> simp)
        (fun _ _ hb => if_pos hb)
    change (if _ then _ else _) = _ at h
    by_cases hb : p.hasBlocks = true
    · rw [if_neg (by simpa using hb)] at h
      rcases hblock' : parseNumber dialect p.firstBlock blockWord with e | _ | block
      · rw [hblock'] at h
        cases h
      · rw [hblock'] at h
        cases h
      have hrange' := parseNumber_range hblock.2 hblock'
      rw [hblock'] at h
      cases h
      exact .one hp (by rw [if_pos hs]; exact .inr hrange) (by rw [if_pos hb]; exact .inr hrange')
        (fun _ hset => by omega)
    · rw [if_pos (by simpa using hb)] at h
      cases h
      exact .one hp (by rw [if_pos hs]; exact .inr hrange) (by rw [if_neg hb, if_neg hb])
        (fun _ _ hb => if_pos hb)
  · rw [if_pos (by simpa using hs)] at h
    cases h
    exact .one hp (by rw [if_neg hs, if_neg hs]) (by split_ifs <;> simp) (fun h => absurd h hs)

theorem parseSel_selects {ctx : Context} {words : List (List UInt8)} {n : ℕ} {sel : Sel}
    (h : parseSel ctx words = .ok (some (n, sel))) : Selects ctx.set sel := by
  rcases words with _ | ⟨word, args⟩
  · cases h
    exact .all
  · unfold parseSel at h
    rcases hfind : findParam ctx.set word with _ | ⟨p, index⟩
    · simp only [hfind] at h
      cases h
    · simp only [hfind] at h
      exact parseFound_selects (List.mem_zipIdx_iff_getElem?.mp
        (List.mem_of_find?_eq_some hfind)) args h

/-- What a selector says of a parameter that it is used for. -/
structure Applies (p : Descriptor) (sel : Sel) : Prop where
  set : sel.set = -1 ∨ 0 ≤ sel.set ∧ sel.set < 2 ^ 31
  block : sel.block = -1 ∨ 0 ≤ sel.block ∧ sel.block < 2 ^ 31
  single : p.isSet = false → sel.set = -1 ∨ sel.set = 0
  none : p.hasBlocks = false → sel.block = -1 ∨ sel.block = 0
  counted : p.isSet = true → sel.set = -1 → p.hasBlocks = true → sel.block = -1

theorem applies_all (p : Descriptor) : Applies p ⟨-1, -1, -1⟩ :=
  ⟨.inl rfl, .inl rfl, fun _ => .inl rfl, fun _ => .inl rfl, fun _ _ _ => rfl⟩

/-- A selector is either all open, or for one parameter, which it fits. -/
theorem Selects.cases_param {table : List Descriptor} {sel : Sel} (h : Selects table sel) :
    sel = ⟨-1, -1, -1⟩ ∨ 0 ≤ sel.param ∧ ∃ p, table[sel.param.toNat]? = some p ∧ Applies p sel := by
  cases h with
  | all => exact .inl rfl
  | @one p index set block hp hset hblock hopen =>
    refine .inr ⟨Int.natCast_nonneg index, p, hp, ?_, ?_, ?_, ?_, hopen⟩
    · dsimp only
      split_ifs at hset <;> omega
    · dsimp only
      split_ifs at hblock <;> omega
    · intro hs
      rw [if_neg (by simp [hs])] at hset
      exact .inr hset
    · intro hb
      rw [if_neg (by simp [hb])] at hblock
      exact .inr hblock

theorem set_of_getParam (p : Descriptor) (sel : Sel) :
    decide ((if sel.set = -1 ∧ ¬ p.isSet = true then 0 else sel.set) = -1) = setOpen p sel ∧
      (if (if sel.set = -1 ∧ ¬ p.isSet = true then 0 else sel.set) = -1 then p.firstSet
        else if sel.set = -1 ∧ ¬ p.isSet = true then 0 else sel.set) = startSet p sel := by
  unfold setOpen startSet
  by_cases hset : sel.set = -1 <;> by_cases his : p.isSet = true <;> simp [hset, his]

theorem block_of_getParam (p : Descriptor) (sel : Sel) :
    decide ((if sel.block = -1 ∧ ¬ p.hasBlocks = true then 0 else sel.block) = -1) =
      blockOpen p sel ∧
      (if (if sel.block = -1 ∧ ¬ p.hasBlocks = true then 0 else sel.block) = -1 then p.firstBlock
        else if sel.block = -1 ∧ ¬ p.hasBlocks = true then 0 else sel.block) =
          startBlock p sel := by
  unfold blockOpen startBlock
  by_cases hblock : sel.block = -1 <;> by_cases has : p.hasBlocks = true <;> simp [hblock, has]

/-! ### The blocks of a set -/

section
variable {get : ℕ → ℤ → ℤ → Option (List UInt8)} {p : Descriptor} {index : ℕ}

/-- The values of the blocks of a set. -/
def blockNodes (get : ℕ → ℤ → ℤ → Option (List UInt8)) (index : ℕ) (set start : ℤ) (n : ℕ) :
    List Node :=
  (values start n).filterMap fun b => (get index set b).map (Node.mk ⟨index, set, b⟩)

theorem mem_blockNodes {set start : ℤ} {n : ℕ} {node : Node} :
    node ∈ blockNodes get index set start n ↔
    node.sel.param = index ∧ node.sel.set = set ∧ node.sel.block ∈ values start n ∧
      get index set node.sel.block = some node.data := by
  unfold blockNodes
  rw [List.mem_filterMap]
  constructor
  · rintro ⟨b, hb, hnode⟩
    obtain ⟨data, hdata, rfl⟩ := Option.map_eq_some_iff.mp hnode
    exact ⟨rfl, rfl, hb, hdata⟩
  · obtain ⟨⟨param, s, b⟩, data⟩ := node
    rintro ⟨rfl, rfl, hb, hdata⟩
    exact ⟨b, hb, Option.map_eq_some_iff.mpr ⟨data, hdata, rfl⟩⟩

theorem blockNodes_succ {set start : ℤ} {data : List UInt8}
    (h : get index set start = some data) (n : ℕ) :
    blockNodes get index set start (n + 1) =
      ⟨⟨index, set, start⟩, data⟩ :: blockNodes get index set (start + 1) n := by
  unfold blockNodes
  rw [values_succ, List.filterMap_cons_some (by rw [h]; rfl)]

theorem next_eq {v : ℤ} (h : v + 1 < 2 ^ 31) : next v = v + 1 := if_neg (by omega)

theorem blockLoop_open {set : ℤ} : ∀ (n : ℕ) {start : ℤ} {rounds : ℕ} (quiet : Bool)
    (v : List Node),
    Swept true start (fun b => (get index set b).isSome) n → start + n < 2 ^ 31 → n < rounds →
    blockLoop get index true set rounds start quiet v =
      some (if n = 0 ∧ quiet = false then .returned v
        else .left true (start + n) (v ++ blockNodes get index set start n)) := by
  intro n
  induction n with
  | zero =>
    intro start rounds quiet v h _ hrounds
    obtain ⟨rounds, rfl⟩ := Nat.exists_eq_add_of_lt hrounds
    have hnone : get index set start = none := by
      have := h.stop (.inl rfl)
      simpa using this
    rw [Nat.zero_add]
    unfold blockLoop
    rw [hnone]
    cases quiet
    · rfl
    · simp [blockNodes, values]
  | succ n ih =>
    intro start rounds quiet v h hlt hrounds
    obtain ⟨rounds, rfl⟩ : ∃ k, rounds = k + 1 := ⟨rounds - 1, by omega⟩
    obtain ⟨data, hdata⟩ : ∃ data, get index set start = some data := by
      have := h.pass 0 (by omega)
      rw [Int.natCast_zero, Int.add_zero] at this
      exact Option.isSome_iff_exists.mp this
    unfold blockLoop
    rw [hdata, blockNodes_succ hdata]
    dsimp only
    rw [if_pos rfl, next_eq (by omega), ih true _ h.next (by omega) (by omega), if_neg (by simp),
      if_neg (by simp), List.append_assoc]
    congr 2
    omega

theorem blockLoop_fixed {set start : ℤ} {n rounds : ℕ} (quiet : Bool) (v : List Node)
    (h : Swept false start (fun b => (get index set b).isSome) n) (hrounds : 0 < rounds) :
    blockLoop get index false set rounds start quiet v =
      some (if n = 0 ∧ quiet = false then .returned v
        else .left (n = 0) (if n = 0 then start else next start)
          (v ++ blockNodes get index set start n)) := by
  obtain ⟨rounds, rfl⟩ : ∃ k, rounds = k + 1 := ⟨rounds - 1, by omega⟩
  have hle := h.single rfl
  unfold blockLoop
  rcases n with _ | n
  · have hnone : get index set start = none := by
      have := h.stop (.inr rfl)
      simpa using this
    rw [hnone]
    cases quiet
    · rfl
    · simp [blockNodes, values]
  · obtain rfl : n = 0 := by omega
    obtain ⟨data, hdata⟩ : ∃ data, get index set start = some data := by
      have := h.pass 0 (by omega)
      rw [Int.natCast_zero, Int.add_zero] at this
      exact Option.isSome_iff_exists.mp this
    rw [hdata, blockNodes_succ hdata]
    simp [blockNodes, values]

/-- **The inner loop.** It puts the blocks of a set behind the list. If it ends with a failure, the
block is the one behind them. -/
theorem blockLoop_spec {isOpen : Bool} {set start : ℤ} {n rounds : ℕ} (quiet : Bool) (v : List Node)
    (h : Swept isOpen start (fun b => (get index set b).isSome) n)
    (hlt : isOpen = true → start + n < 2 ^ 31) (hrounds : n < rounds) :
    ∃ current, blockLoop get index isOpen set rounds start quiet v =
      some (if n = 0 ∧ quiet = false then .returned v
        else .left (isOpen || n = 0) current (v ++ blockNodes get index set start n)) ∧
      ((isOpen || n = 0) = true → current = start + n) := by
  cases isOpen with
  | true => exact ⟨start + n, blockLoop_open n quiet v h (hlt rfl) hrounds, fun _ => rfl⟩
  | false =>
    refine ⟨_, blockLoop_fixed quiet v h (by omega), fun hn => ?_⟩
    have hn : n = 0 := by simpa using hn
    rw [if_pos hn, hn]
    simp

/-! ### The sets of a parameter -/

/-- The values of a parameter, by the number of blocks of each set. -/
def setNodes (get : ℕ → ℤ → ℤ → Option (List UInt8)) (index : ℕ) (start block : ℤ) (m : ℕ)
    (blocks : ℤ → ℕ) : List Node :=
  (values start m).flatMap fun s => blockNodes get index s block (blocks s)

theorem setNodes_succ (start block : ℤ) (m : ℕ) (blocks : ℤ → ℕ) :
    setNodes get index start block (m + 1) blocks =
      blockNodes get index start block (blocks start) ++
        setNodes get index (start + 1) block m blocks := by
  unfold setNodes
  rw [values_succ, List.flatMap_cons]

/-- **The outer loop.** It puts the sets behind the list, if the comparison of the current block
with the first one tells whether the set was empty. -/
theorem setLoop_spec {isOpen : Bool} (block : ℤ) (rounds : ℕ) {blocks : ℤ → ℕ}
    (hblocks : ∀ s, Swept (block = -1) (if block = -1 then p.firstBlock else block)
      (fun b => (get index s b).isSome) (blocks s))
    (hlt : ∀ s, block = -1 → p.firstBlock + blocks s < 2 ^ 31) (hrounds : ∀ s, blocks s < rounds) :
    ∀ (m : ℕ) {start : ℤ} {left : ℕ} (quiet : Bool) (v : List Node),
    (isOpen = true → quiet = true ∨ 0 < m → (if block = -1 then p.firstBlock
      else block) = p.firstBlock) →
    Swept isOpen start (fun s => (get index s (if block = -1 then p.firstBlock
      else block)).isSome) m →
    (isOpen = true → start + m < 2 ^ 31) → m < left →
    setLoop get p index rounds isOpen block left start quiet v =
      some (quiet || 0 < m, v ++ setNodes get index start (if block = -1 then p.firstBlock
        else block) m blocks) := by
  intro m
  induction m with
  | zero =>
    intro start left quiet v hfirst h hend hleft
    obtain ⟨left, rfl⟩ : ∃ k, left = k + 1 := ⟨left - 1, by omega⟩
    have hzero : blocks start = 0 := by
      have := h.pos_iff.trans (hblocks start).pos_iff.symm
      omega
    obtain ⟨current, hloop, hcurrent⟩ := blockLoop_spec quiet v (hblocks start)
      (fun hb => by rw [if_pos (of_decide_eq_true hb)]; exact hlt start (of_decide_eq_true hb))
        (hrounds start)
    have hempty : ∀ s b, blockNodes get index s b 0 = [] := fun _ _ => rfl
    unfold setLoop
    rw [hloop, hzero, hempty, List.append_nil]
    rw [hzero] at hcurrent
    have hnil : setNodes get index start (if block = -1 then p.firstBlock else block) 0 blocks =
        [] := rfl
    rw [hnil, List.append_nil]
    cases quiet with
    | false => rfl
    | true =>
      rw [if_neg (by simp)]
      cases isOpen with
      | true =>
        have hcurrent := hcurrent (by simp)
        rw [hfirst rfl (.inl rfl), Int.natCast_zero, Int.add_zero] at hcurrent
        simp [hcurrent]
      | false => simp
  | succ m ih =>
    intro start left quiet v hfirst h hend hleft
    obtain ⟨left, rfl⟩ : ∃ k, left = k + 1 := ⟨left - 1, by omega⟩
    have hpos : 0 < blocks start := (hblocks start).pos_iff.mpr (h.pos_iff.mp (by omega))
    obtain ⟨current, hloop, hcurrent⟩ := blockLoop_spec quiet v (hblocks start)
      (fun hb => by rw [if_pos (of_decide_eq_true hb)]; exact hlt start (of_decide_eq_true hb))
        (hrounds start)
    unfold setLoop
    rw [hloop, if_neg (by omega), setNodes_succ]
    cases isOpen with
    | true =>
      -- a set that had a block is not the last one
      have hmore : ¬ ((decide (block = -1) || decide (blocks start = 0)) = true ∧
          current = p.firstBlock) := by
        rintro ⟨hfailed, heq⟩
        have := hcurrent hfailed
        rw [hfirst rfl (.inr (by omega))] at this
        omega
      have hstart := hend rfl
      dsimp only
      rw [if_neg hmore, if_pos rfl, next_eq (by omega),
        ih true _ (fun _ _ => hfirst rfl (.inr (by omega))) h.next
          (fun _ => by omega) (by omega), List.append_assoc]
      simp
    | false =>
      have hle := h.single rfl
      obtain rfl : m = 0 := by omega
      have hnil : setNodes get index (start + 1) (if block = -1 then p.firstBlock
          else block) 0 blocks = [] := rfl
      rw [hnil, List.append_nil]
      simp

/-! ### A parameter -/

theorem before_of_block {index : ℕ} {set start : ℤ} (n : ℕ) :
    (blockNodes get index set start n).Pairwise fun a b => a.sel.Before b.sel := by
  unfold blockNodes
  refine (values_pairwise start n).filterMap _ fun b b' hlt node hnode node' hnode' => ?_
  obtain ⟨data, -, rfl⟩ := Option.map_eq_some_iff.mp hnode
  obtain ⟨data', -, rfl⟩ := Option.map_eq_some_iff.mp hnode'
  exact .inr ⟨rfl, .inr ⟨rfl, hlt⟩⟩

theorem before_of_set {index : ℕ} {start block : ℤ} (m : ℕ) (blocks : ℤ → ℕ) :
    (setNodes get index start block m blocks).Pairwise fun a b => a.sel.Before b.sel := by
  unfold setNodes
  refine List.pairwise_flatMap.mpr ⟨fun s _ => before_of_block _, ?_⟩
  refine (values_pairwise start m).imp fun hlt node hnode node' hnode' => ?_
  obtain ⟨hparam, hset, -⟩ := mem_blockNodes.mp hnode
  obtain ⟨hparam', hset', -⟩ := mem_blockNodes.mp hnode'
  exact .inr ⟨by rw [hparam, hparam'], .inl (by rwa [hset, hset'])⟩

theorem mem_setNodes {sel : Sel} {m : ℕ} {blocks : ℤ → ℕ}
    (hset : Swept (setOpen p sel) (startSet p sel)
      (fun s => (get index s (startBlock p sel)).isSome) m)
    (hblock : ∀ s, Swept (blockOpen p sel) (startBlock p sel)
      (fun b => (get index s b).isSome) (blocks s))
    (node : Node) :
    node ∈ setNodes get index (startSet p sel) (startBlock p sel) m blocks ↔
    Wanted get p index sel node := by
  unfold setNodes
  rw [List.mem_flatMap]
  constructor
  · rintro ⟨s, hs, hnode⟩
    obtain ⟨hparam, rfl, hb, hdata⟩ := mem_blockNodes.mp hnode
    exact ⟨hparam, (passed_iff hset _).mpr hs, (passed_iff (hblock _) _).mpr hb, hdata⟩
  · rintro ⟨hparam, hs, hb, hdata⟩
    exact ⟨_, (passed_iff hset _).mp hs,
      mem_blockNodes.mpr ⟨hparam, rfl, (passed_iff (hblock _) _).mp hb, hdata⟩⟩

theorem exists_count {isOpen : Bool} {start first : ℤ} {ok : ℤ → Bool}
    (hstart : isOpen = true → start = first) (hpos : 0 ≤ first)
    (hfail : ∃ v, first ≤ v ∧ v < 2 ^ 31 ∧ ok v = false) :
    ∃ n : ℕ, Swept isOpen start ok n ∧ (isOpen = true → start + n < 2 ^ 31) ∧ n < 2 ^ 31 := by
  cases isOpen with
  | true =>
    obtain ⟨last, hle, hlt, hlast⟩ := hfail
    obtain rfl := hstart rfl
    obtain ⟨n, hn, hend⟩ := exists_swept hle hlast
    exact ⟨n, hn, fun _ => by omega, by omega⟩
  | false =>
    obtain ⟨n, hn⟩ := exists_swept_fixed start ok
    have := hn.single rfl
    exact ⟨n, hn, fun h => absurd h Bool.false_ne_true, by omega⟩

/-- **A parameter.** One that is not endless is read exactly. -/
theorem getParam_spec {table : List Descriptor} {sel : Sel} (hp : table[index]? = some p)
    (hfin : FinitelyOften get table) (hsize : p.size ≠ 0) (ha : Applies p sel)
    (hend : ¬ Endless get p index sel) :
    ∃ result added, added.Pairwise (fun a b => a.sel.Before b.sel) ∧
      (∀ node, node ∈ added ↔ Wanted get p index sel node) ∧ (sel.param = -1 → result = true) ∧
      ∀ rounds, 2 ^ 31 ≤ rounds → ∀ v,
        getParam get p index rounds sel.set sel.block (sel.param = -1) v =
          some (result, v ++ added) := by
  obtain ⟨hblocks, hsets⟩ := hfin p index hp
  have hisNone : ∀ {s b}, get index s b = none → (get index s b).isSome = false := by
    intro s b h
    rw [h]
    rfl
  have hcount : ∀ s, ∃ n : ℕ, Swept (blockOpen p sel) (startBlock p sel)
      (fun b => (get index s b).isSome) n ∧
      (blockOpen p sel = true → startBlock p sel + n < 2 ^ 31) ∧ n < 2 ^ 31 := by
    intro s
    obtain ⟨b, hle, hlt, hb⟩ := hblocks s
    refine exists_count (fun h => ?_) (firstBlock_range p).1 ⟨b, hle, hlt, hisNone hb⟩
    obtain ⟨h, hhas⟩ := of_decide_eq_true h
    rw [startBlock, if_pos h, if_pos hhas]
  choose blocks hswept hblockEnd hblockLt using hcount
  obtain ⟨m, hm, hsetEnd, hsetLt⟩ : ∃ m : ℕ, Swept (setOpen p sel) (startSet p sel)
      (fun s => (get index s (startBlock p sel)).isSome) m ∧
      (setOpen p sel = true → startSet p sel + m < 2 ^ 31) ∧ m < 2 ^ 31 := by
    obtain ⟨s, hle, hlt, hs⟩ := hsets (startBlock p sel)
    refine exists_count (fun h => ?_) (firstSet_range p).1 ⟨s, hle, hlt, hisNone hs⟩
    obtain ⟨h, his⟩ := of_decide_eq_true h
    rw [startSet, if_pos h, if_pos his]
  refine ⟨decide (sel.param = -1) || decide (0 < m),
    setNodes get index (startSet p sel) (startBlock p sel) m blocks,
    before_of_set m blocks, mem_setNodes hm hswept,
    fun h => by simp [h], fun rounds hrounds v => ?_⟩
  obtain ⟨hset, hstart⟩ := set_of_getParam p sel
  obtain ⟨hblock, hfirst⟩ := block_of_getParam p sel
  -- the comparison with the first block fails to tell only for an endless parameter
  have htells : setOpen p sel = true → decide (sel.param = -1) = true ∨ 0 < m →
      startBlock p sel = p.firstBlock := by
    intro hopen hread
    obtain ⟨hopen, his⟩ := of_decide_eq_true hopen
    by_cases has : p.hasBlocks = true
    · rw [startBlock, if_pos (ha.counted his hopen has), if_pos has]
    · have has := Bool.eq_false_of_not_eq_true has
      by_contra hne
      have hzero : startBlock p sel = 0 := by
        rcases ha.none has with h | h <;> simp [startBlock, h, has]
      refine hend ⟨his, has, fun h => ?_, hopen, ?_⟩
      · exact hne (hzero.trans h.symm)
      · refine hread.imp of_decide_eq_true fun hpos => ?_
        have := hm.pos_iff.mp hpos
        rwa [hzero, startSet, if_pos hopen, if_pos his] at this
  have hloop := setLoop_spec (p := p) (if sel.block = -1 ∧ ¬ p.hasBlocks = true then 0
    else sel.block) rounds
    (by rw [hblock, hfirst]; exact hswept)
    (fun s hopen => by
      have hopen' := hblock.symm.trans (decide_eq_true hopen)
      rw [if_pos hopen] at hfirst
      rw [hfirst]
      exact hblockEnd s hopen')
    (fun s => (hblockLt s).trans_le hrounds) m (decide (sel.param = -1)) v
    (by rw [hfirst]; exact htells) (by rw [hfirst]; exact hm) hsetEnd (hsetLt.trans_le hrounds)
  unfold getParam
  rw [if_neg hsize]
  dsimp only
  rw [hset, hstart, hloop, hfirst]

/-- **The endless loop.** The current block is never the first one, so no failure ends the loop. -/
theorem setLoop_endless (hfirst : p.firstBlock ≠ 0) (rounds : ℕ) :
    ∀ (left : ℕ) (set : ℤ) (v : List Node), setLoop get p index rounds true 0 left set true v =
      none := by
  intro left
  induction left with
  | zero => exact fun _ _ => rfl
  | succ left ih =>
    intro set v
    unfold setLoop
    rw [if_neg (by decide)]
    obtain ⟨n, hn⟩ := exists_swept_fixed 0 (fun b => (get index set b).isSome)
    rcases Nat.eq_zero_or_pos rounds with rfl | hrounds
    · rfl
    have hloop := blockLoop_fixed true v hn hrounds
    rw [show decide ((0 : ℤ) = -1) = false from rfl, hloop, if_neg (by simp)]
    dsimp only
    rw [if_neg, if_pos rfl, ih]
    rintro ⟨hfailed, hcurrent⟩
    rw [if_pos (of_decide_eq_true hfailed)] at hcurrent
    exact hfirst hcurrent.symm

theorem getParam_endless {sel : Sel} (h : Endless get p index sel) (ha : Applies p sel)
    (hsize : p.size ≠ 0) (rounds : ℕ) (v : List Node) :
    getParam get p index rounds sel.set sel.block (sel.param = -1) v = none := by
  obtain ⟨his, has, hfirst, hset, hread⟩ := h
  have hblock : (if sel.block = -1 ∧ ¬ p.hasBlocks = true then 0 else sel.block) = 0 := by
    rcases ha.none has with h | h <;> simp [h, has]
  unfold getParam
  rw [if_neg hsize]
  dsimp only
  rw [hblock, if_neg (by simp [his]), hset]
  by_cases hparam : sel.param = -1
  · rw [decide_eq_true hparam]
    exact setLoop_endless hfirst rounds rounds _ v
  · have hok := hread.resolve_left hparam
    obtain ⟨data, hdata⟩ := Option.isSome_iff_exists.mp hok
    rw [decide_eq_false hparam]
    rcases rounds with _ | rounds
    · rfl
    · have hloop : blockLoop get index false p.firstSet (rounds + 1) 0 false v =
          some (.left false (next 0) (v ++ [⟨⟨index, p.firstSet, 0⟩, data⟩])) := by
        unfold blockLoop
        rw [hdata]
        rfl
      change setLoop get p index (rounds + 1) true 0 (rounds + 1) p.firstSet false v = none
      unfold setLoop
      rw [show decide ((0 : ℤ) = -1) = false from rfl, if_neg (by decide : ¬ (0 : ℤ) = -1), hloop]
      dsimp only
      rw [if_neg (by simp), if_pos rfl]
      exact setLoop_endless hfirst (rounds + 1) rounds _ _

/-! ### All parameters -/

theorem readable_cons (entry : Descriptor × ℕ) (entries : List (Descriptor × ℕ)) :
    readable (entry :: entries) =
      if entry.1.access = wronly then readable entries
      else if entry.1.size = 0 then [] else entry :: readable entries := by
  unfold readable
  by_cases hread : entry.1.access = wronly
  · rw [if_pos hread, List.filter_cons_of_neg (by simpa using hread)]
  · rw [if_neg hread, List.filter_cons_of_pos (by simpa using hread)]
    by_cases hsize : entry.1.size = 0
    · rw [if_pos hsize, List.takeWhile_cons_of_neg (by simpa using hsize)]
    · rw [if_neg hsize, List.takeWhile_cons_of_pos (by simpa using hsize)]

theorem mem_of_readable {entries : List (Descriptor × ℕ)} {entry : Descriptor × ℕ}
    (h : entry ∈ readable entries) :
    entry ∈ entries ∧ entry.1.size ≠ 0 :=
  ⟨(List.mem_filter.mp ((List.takeWhile_prefix _).subset h)).1, by
    simpa using List.mem_takeWhile_imp h⟩

/-- **All parameters.** Without an endless one they are read exactly. -/
theorem getAll_spec {table : List Descriptor} (hfin : FinitelyOften get table) :
    ∀ (entries : List (Descriptor × ℕ)), (∀ entry ∈ entries, table[entry.2]? = some entry.1) →
    entries.Pairwise (fun a b => a.2 < b.2) →
    (∀ entry ∈ readable entries, ¬ Endless get entry.1 entry.2 ⟨-1, -1, -1⟩) →
    ∃ result added, added.Pairwise (fun a b => a.sel.Before b.sel) ∧
      (∀ node, node ∈ added ↔ ∃ entry ∈ readable entries, Wanted get entry.1 entry.2 ⟨-1,
        -1, -1⟩ node) ∧
      ∀ rounds, 2 ^ 31 ≤ rounds → ∀ v, getAll get rounds (-1)
        (-1) entries v = some (result, v ++ added)
  | [], _, _, _ =>
    ⟨true, [], .nil, by simp [readable], fun rounds _ v => by rw [List.append_nil]; rfl⟩
  | (p, index) :: entries, htable, hsorted, hend => by
    obtain ⟨hfirst, hsorted⟩ := List.pairwise_cons.mp hsorted
    have htable' := fun entry h => htable entry (List.mem_cons_of_mem _ h)
    rw [readable_cons] at hend ⊢
    by_cases hread : p.access = wronly
    · rw [if_pos hread] at hend ⊢
      obtain ⟨result, added, hbefore, hmem, hget⟩ := getAll_spec hfin entries htable' hsorted hend
      refine ⟨result, added, hbefore, hmem, fun rounds hrounds v => ?_⟩
      unfold getAll
      rw [if_pos hread]
      exact hget rounds hrounds v
    rw [if_neg hread] at hend ⊢
    by_cases hsize : p.size = 0
    · rw [if_pos hsize]
      refine ⟨false, [], .nil, by simp, fun rounds _ v => ?_⟩
      unfold getAll getParam
      rw [if_neg hread, if_pos hsize, List.append_nil]
    rw [if_neg hsize] at hend ⊢
    obtain ⟨result, added, hbefore, hmem, hresult, hget⟩ :=
      getParam_spec (htable _ List.mem_cons_self) hfin hsize
        (applies_all p) (hend _ List.mem_cons_self)
    obtain rfl := hresult rfl
    obtain ⟨result, rest, hbefore', hmem', hget'⟩ := getAll_spec hfin entries htable' hsorted
      fun entry h => hend entry (List.mem_cons_of_mem _ h)
    refine ⟨result, added ++ rest, List.pairwise_append.mpr ⟨hbefore, hbefore', ?_⟩, fun node => ?_,
      fun rounds hrounds v => ?_⟩
    · intro a ha b hb
      obtain ⟨entry, hentry, hb⟩ := (hmem' b).mp hb
      refine .inl ?_
      rw [((hmem a).mp ha).param, hb.param]
      exact Int.ofNat_lt.mpr (hfirst entry (mem_of_readable hentry).1)
    · rw [List.mem_append, hmem, hmem']
      simp
    · unfold getAll
      rw [if_neg hread,
        show getParam get p index rounds (-1) (-1) true v = _ from hget rounds hrounds v]
      dsimp only
      rw [hget' rounds hrounds, List.append_assoc]

/-- With an endless one the reading does not return. -/
theorem getAll_endless {table : List Descriptor} (hfin : FinitelyOften get table) {rounds : ℕ}
    (hrounds : 2 ^ 31 ≤ rounds) :
    ∀ (entries : List (Descriptor × ℕ)), (∀ entry ∈ entries, table[entry.2]? = some entry.1) →
    (∃ entry ∈ readable entries, Endless get entry.1 entry.2 ⟨-1, -1, -1⟩) →
    ∀ v, getAll get rounds (-1) (-1) entries v = none
  | [], _, h, _ => by
    obtain ⟨entry, hentry, -⟩ := h
    cases hentry
  | (p, index) :: entries, htable, h, v => by
    have htable' := fun entry h => htable entry (List.mem_cons_of_mem _ h)
    rw [readable_cons] at h
    unfold getAll
    by_cases hread : p.access = wronly
    · rw [if_pos hread] at h ⊢
      exact getAll_endless hfin hrounds entries htable' h v
    rw [if_neg hread] at h ⊢
    by_cases hsize : p.size = 0
    · rw [if_pos hsize] at h
      obtain ⟨entry, hentry, -⟩ := h
      cases hentry
    rw [if_neg hsize] at h
    by_cases hone : Endless get p index ⟨-1, -1, -1⟩
    · rw [show getParam get p index rounds (-1) (-1) true v = none from
        getParam_endless hone (applies_all p) hsize rounds v]
    · obtain ⟨result, added, -, -, hresult, hget⟩ :=
        getParam_spec (htable _ List.mem_cons_self) hfin hsize
          (applies_all p) hone
      obtain rfl := hresult rfl
      rw [show getParam get p index rounds (-1) (-1) true v = _ from hget rounds hrounds v]
      refine getAll_endless hfin hrounds entries htable' ?_ _
      obtain ⟨entry, hentry, hendless⟩ := h
      rcases List.mem_cons.mp hentry with rfl | hentry
      · exact absurd hendless hone
      · exact ⟨entry, hentry, hendless⟩

end

theorem zipIdx_pairwise {α : Type} (l : List α) : l.zipIdx.Pairwise fun a b => a.2 < b.2 := by
  have h : (l.zipIdx.map Prod.snd).Pairwise (· < ·) := by
    rw [List.zipIdx_map_snd]
    exact List.pairwise_lt_range'
  exact List.pairwise_map.mp h

theorem not_enumerates_of_none {ctx : Context} {sel : Sel}
    (h : ∀ rounds, 2 ^ 31 ≤ rounds → get ctx rounds sel = none) : ¬ Enumerates ctx sel := by
  rintro ⟨result, added, ⟨least, hleast⟩, -⟩
  have := hleast (max least (2 ^ 31)) (le_max_left _ _)
  rw [h _ (le_max_right _ _)] at this
  cases this

/-- **The reading is exact** for a selector of the command line and a handler that succeeds finitely
often if and only if no parameter that is read is endless. -/
theorem enumerates_iff {ctx : Context} {words : List (List UInt8)} {n : ℕ} {sel : Sel}
    (hsel : parseSel ctx words = .ok (some (n, sel)))
    (hfin : FinitelyOften ctx.handler.get ctx.set) :
    Enumerates ctx sel ↔ ∀ entry ∈ visited ctx.set sel,
    ¬ Endless ctx.handler.get entry.1 entry.2 sel := by
  have htable : ∀ entry ∈ ctx.set.zipIdx, ctx.set[entry.2]? = some entry.1 :=
    fun entry h => List.mem_zipIdx_iff_getElem?.mp h
  rcases (parseSel_selects hsel).cases_param with rfl | ⟨hparam, p, hp, ha⟩
  · unfold visited
    rw [if_pos rfl]
    constructor
    · intro h
      by_contra hone
      push Not at hone
      refine not_enumerates_of_none (fun rounds hrounds => ?_) h
      unfold get
      rw [if_neg (by simp)]
      exact getAll_endless hfin hrounds _ htable hone _
    · intro hend
      obtain ⟨result, added, hbefore, hmem, hget⟩ :=
        getAll_spec hfin _ htable (zipIdx_pairwise _) hend
      refine ⟨result, added, ⟨2 ^ 31, fun rounds hrounds => ?_⟩, hbefore, fun node => ?_⟩
      · unfold get
        rw [if_neg (by simp)]
        exact hget rounds hrounds _
      · rw [hmem, visited, if_pos rfl]
  · have hne : sel.param ≠ -1 := by omega
    have hindex : ((sel.param.toNat : ℕ) : ℤ) = sel.param := by omega
    have hget : ∀ rounds, get ctx rounds sel =
        getParam ctx.handler.get p sel.param.toNat rounds sel.set sel.block (sel.param =
          -1) ctx.v := by
      intro rounds
      unfold get
      rw [if_pos hne, if_neg (by omega), hp, decide_eq_false hne]
    by_cases hsize : p.size = 0
    · have hnone : visited ctx.set sel = [] := by
        rw [visited, if_neg hne, hp, Option.filter_some_neg (by simpa using hsize)]
        rfl
      rw [hnone]
      refine ⟨fun _ entry h => (List.not_mem_nil h).elim,
        fun _ => ⟨false, [], ⟨0, fun rounds _ => ?_⟩, .nil, ?_⟩⟩
      · rw [hget, getParam, if_pos hsize, List.append_nil]
      · simp [hnone]
    have hone : visited ctx.set sel = [(p, sel.param.toNat)] := by
      rw [visited, if_neg hne, hp, Option.filter_some_pos (by simpa using hsize)]
      rfl
    rw [hone]
    constructor
    · intro h entry hentry hendless
      obtain rfl := List.mem_singleton.mp hentry
      refine not_enumerates_of_none (fun rounds _ => ?_) h
      rw [hget]
      exact getParam_endless hendless ha hsize rounds ctx.v
    · intro hend
      obtain ⟨result, added, hbefore, hmem, -, hadded⟩ :=
        getParam_spec hp hfin hsize ha (hend _ List.mem_cons_self)
      refine ⟨result, added, ⟨2 ^ 31, fun rounds hrounds => ?_⟩, hbefore, fun node => ?_⟩
      · rw [hget]
        exact hadded rounds hrounds ctx.v
      · rw [hmem, hone]
        simp

/-- A handler with two sets of three blocks for each parameter. -/
def sixBlocks (_ : ℕ) (set block : ℤ) : Option (List UInt8) :=
  if set < 2 ∧ block < 3 then some [UInt8.ofNat set.toNat, UInt8.ofNat block.toNat] else none

theorem finitelyOften_sixBlocks (table : List Descriptor) : FinitelyOften sixBlocks table := by
  intro p index _
  have hset := firstSet_range p
  have hblock := firstBlock_range p
  exact ⟨fun set => ⟨3, by omega, by decide, if_neg (by omega)⟩,
    fun block => ⟨2, by omega, by decide, if_neg (by omega)⟩⟩

/-- A parameter that is a set and has blocks, the first of them one, and a parameter of one
value. -/
def sixContext : Context :=
  { set := [⟨some [0x73], 2, 0x34⟩, ⟨some [0x76], 1, 0⟩]
    dialect := .gnu
    handler := ⟨sixBlocks, fun _ _ _ _ => none, fun _ _ _ data => (data, true)⟩
    cmdname := [0x6c] }

theorem sixContext_parse : parseSel sixContext [] = .ok (some (0, ⟨-1, -1, -1⟩)) := rfl

theorem enumerates_iff_sixContext : Enumerates sixContext ⟨-1, -1, -1⟩ :=
  (enumerates_iff sixContext_parse (finitelyOften_sixBlocks _)).mpr (by
    intro entry hentry hendless
    have hnone : ∀ entry ∈ visited sixContext.set ⟨-1, -1, -1⟩,
        entry.1.isSet = true → entry.1.hasBlocks = false → entry.1.firstBlock = 0 := by decide
    exact hendless.2.2.1 (hnone entry hentry hendless.1 hendless.2.1))

/-- A parameter without blocks, that is a set and whose first block is one. -/
def endlessContext : Context := { sixContext with set := [⟨some [0x73], 2, 0x24⟩] }

/-- Without a failure of the first block being seen, the reading does not return. -/
theorem endlessContext_reads : parseSel endlessContext [] = .ok (some (0, ⟨-1, -1, -1⟩)) ∧
    FinitelyOften endlessContext.handler.get endlessContext.set ∧
    ¬ Enumerates endlessContext ⟨-1, -1, -1⟩ := by
  refine ⟨rfl, finitelyOften_sixBlocks _, not_enumerates_of_none fun rounds hrounds => ?_⟩
  refine getAll_endless (finitelyOften_sixBlocks endlessContext.set) hrounds _
    (fun entry h => List.mem_zipIdx_iff_getElem?.mp h) ?_ _
  have hread : (⟨some [0x73], 2, 0x24⟩, 0) ∈ readable endlessContext.set.zipIdx := by decide
  exact ⟨_, hread, by decide, by decide, by decide, rfl, .inl rfl⟩

end Ipmitool.Cmd.Cfgp
