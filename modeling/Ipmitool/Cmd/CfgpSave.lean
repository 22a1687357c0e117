import Ipmitool.Cmd.CfgpGet

/-! # Saved selectors

The words that `save` of `cmd/cfgp.zig` writes for the selector of a value, and what `parseSel`
makes of them. The line of a value is split at whitespace.

* `get_adds`: what is known of a value that `get` has read, whatever the handler does.
* `parseSel_words`: the words of a selector are parsed as the selector.
* `save_lines`: each value that is selected and can be written has a line. -/

namespace Ipmitool.Cmd.Cfgp

open Ipmitool.Core.Types Ipmitool.Util.IntegerScan Ipmitool.Util.Numbers
open Ipmitool.Util.Integer (isSpace)
open Ipmitool.Util.Calendar (decimal)

/-! ### The values that are read -/

/-- A `c_int`. -/
def IsInt (v : ℤ) : Prop := -2 ^ 31 ≤ v ∧ v < 2 ^ 31

theorem isInt_next {v : ℤ} (h : IsInt v) : IsInt (next v) := by
  obtain ⟨hlow, hhigh⟩ := h
  unfold next IsInt
  split_ifs <;> omega

/-- What is known of a value that was read. -/
structure Came (table : List Descriptor) (sel : Sel) (p : Descriptor) : Prop where
  param : 0 ≤ sel.param
  at_param : table[sel.param.toNat]? = some p
  size : p.size ≠ 0
  set : IsInt sel.set
  block : IsInt sel.block
  single : p.isSet = false → sel.set = 0
  none : p.hasBlocks = false → sel.block = 0

/-- The list at the end of the inner loop. -/
def Ended.v : Ended → List Node
  | .returned v => v
  | .left _ _ v => v

section
variable {get : ℕ → ℤ → ℤ → Option (List UInt8)} {p : Descriptor} {index : ℕ}

theorem blockLoop_adds {isOpen : Bool} {set start : ℤ} : ∀ (rounds : ℕ) {block : ℤ} {quiet : Bool}
    {v : List Node}
    {e : Ended}, IsInt block → (isOpen = false → block = start) →
    blockLoop get index isOpen set rounds block quiet v = some e → ∃ added, e.v = v ++ added ∧
      ∀ node ∈ added, node.sel.param = index ∧ node.sel.set = set ∧ IsInt node.sel.block ∧
        (isOpen = false → node.sel.block = start)
  | 0, _, _, _, _, _, _, h => by cases h
  | rounds + 1, block, quiet, v, e, hint, hfixed, h => by
    unfold blockLoop at h
    rcases hget : get index set block with _ | data
    · rw [hget] at h
      dsimp only at h
      refine ⟨[], ?_, by simp⟩
      split_ifs at h <;> cases h <;> exact (List.append_nil _).symm
    · rw [hget] at h
      dsimp only at h
      cases isOpen with
      | false =>
        cases h
        exact ⟨_, rfl, fun node hnode => by
          obtain rfl := List.mem_singleton.mp hnode
          exact ⟨rfl, rfl, hint, hfixed⟩⟩
      | true =>
        rw [if_pos rfl] at h
        obtain ⟨added, hv, hadded⟩ :=
          blockLoop_adds rounds (isInt_next hint) (fun h => absurd h (by decide)) h
        refine ⟨_ :: added, by rw [hv, List.append_assoc]; rfl, fun node hnode => ?_⟩
        rcases List.mem_cons.mp hnode with rfl | hnode
        · exact ⟨rfl, rfl, hint, hfixed⟩
        · exact hadded node hnode

theorem setLoop_adds {isOpen : Bool} {block start : ℤ} {rounds : ℕ}
    (hblock : IsInt (if block = -1 then p.firstBlock else block)) :
    ∀ (left : ℕ) {set : ℤ} {quiet : Bool} {v : List Node} {r : Bool × List Node}, IsInt set →
    (isOpen = false → set = start) →
      setLoop get p index rounds isOpen block left set quiet v = some r →
    ∃ added, r.2 = v ++ added ∧ ∀ node ∈ added, node.sel.param = index ∧ IsInt node.sel.set ∧
      (isOpen = false → node.sel.set = start) ∧ IsInt node.sel.block ∧
      (block ≠ -1 → node.sel.block = block)
  | 0, _, _, _, _, _, _, h => by cases h
  | left + 1, set, quiet, v, r, hint, hfixed, h => by
    unfold setLoop at h
    rcases hloop : blockLoop get index (block = -1) set rounds (if block = -1 then p.firstBlock
      else block) quiet v
      with _ | e
    · rw [hloop] at h
      cases h
    obtain ⟨added, hv, hadded⟩ := blockLoop_adds rounds hblock (fun _ => rfl) hloop
    have hnodes : ∀ node ∈ added, node.sel.param = index ∧ IsInt node.sel.set ∧
        (isOpen = false → node.sel.set = start) ∧ IsInt node.sel.block ∧
          (block ≠ -1 → node.sel.block = block) := by
      intro node hnode
      obtain ⟨hparam, hset, hb, hstart⟩ := hadded node hnode
      refine ⟨hparam, hset ▸ hint, fun h => hset ▸ hfixed h, hb, fun hne => ?_⟩
      rw [hstart (decide_eq_false hne), if_neg hne]
    rw [hloop] at h
    rcases e with v' | ⟨failed, current, v'⟩
    · cases h
      exact ⟨added, hv, hnodes⟩
    · dsimp only at h
      split_ifs at h with hstop hopen
      · cases h
        exact ⟨added, hv, hnodes⟩
      · obtain ⟨rest, hr, hrest⟩ :=
          setLoop_adds hblock left (isInt_next hint) (fun h => by simp [hopen] at h) h
        refine ⟨added ++ rest,
          by rw [hr, show v' = v ++ added from hv, List.append_assoc], fun node hnode => ?_⟩
        exact (List.mem_append.mp hnode).elim (hnodes node) (hrest node)
      · cases h
        exact ⟨added, hv, hnodes⟩

theorem getParam_adds {table : List Descriptor} {sel : Sel} (hp : table[index]? = some p)
    (ha : Applies p sel) {rounds : ℕ} {quiet : Bool} {v : List Node} {r : Bool × List Node}
    (h : getParam get p index rounds sel.set sel.block quiet v = some r) :
    ∃ added, r.2 = v ++ added ∧ ∀ node ∈ added, Came table node.sel p := by
  have hset := firstSet_range p
  have hblock := firstBlock_range p
  have hstart : IsInt (startSet p sel) := by
    unfold startSet IsInt
    have := ha.set
    split_ifs <;> omega
  have hfirst : IsInt (startBlock p sel) := by
    unfold startBlock IsInt
    have := ha.block
    split_ifs <;> omega
  obtain ⟨hset1, hset2⟩ := set_of_getParam p sel
  obtain ⟨-, hblock2⟩ := block_of_getParam p sel
  unfold getParam at h
  by_cases hsize : p.size = 0
  · rw [if_pos hsize] at h
    cases h
    exact ⟨[], (List.append_nil v).symm, by simp⟩
  rw [if_neg hsize] at h
  dsimp only at h
  rw [hset1, hset2] at h
  obtain ⟨added, hr, hadded⟩ := setLoop_adds (by rwa [hblock2]) rounds hstart (fun _ => rfl) h
  refine ⟨added, hr, fun node hnode => ?_⟩
  obtain ⟨hparam, hint, hfixed, hint', hfixed'⟩ := hadded node hnode
  have hindex : node.sel.param.toNat = index := by omega
  refine ⟨by omega, by rwa [hindex], hsize, hint, hint', fun his => ?_, fun has => ?_⟩
  · rw [hfixed (by simp [setOpen, his])]
    rcases ha.single his with h | h <;> simp [startSet, h, his]
  · have hzero : (if sel.block = -1 ∧ ¬ p.hasBlocks = true then 0 else sel.block) = 0 := by
      rcases ha.none has with h | h <;> simp [h, has]
    rw [hfixed' (by rw [hzero]; decide), hzero]

theorem getAll_adds {table : List Descriptor} {rounds : ℕ} : ∀ (entries : List (Descriptor × ℕ)),
    (∀ entry ∈ entries, table[entry.2]? = some entry.1) → ∀ {v : List Node} {r : Bool × List Node},
    getAll get rounds (-1) (-1) entries v = some r →
    ∃ added, r.2 = v ++ added ∧ ∀ node ∈ added, ∃ p, Came table node.sel p
  | [], _, v, r, h => by
    cases h
    exact ⟨[], (List.append_nil v).symm, by simp⟩
  | (p, index) :: entries, htable, v, r, h => by
    have htable' := fun entry h => htable entry (List.mem_cons_of_mem _ h)
    unfold getAll at h
    split_ifs at h with hread
    · exact getAll_adds entries htable' h
    rcases hone : getParam get p index rounds (-1) (-1) true v with _ | ⟨_ | _, v'⟩
    · rw [hone] at h
      cases h
    · obtain ⟨added, hv, hadded⟩ := getParam_adds (htable _ List.mem_cons_self) (applies_all p) hone
      rw [hone] at h
      cases h
      exact ⟨added, hv, fun node hnode => ⟨p, hadded node hnode⟩⟩
    · obtain ⟨added, hv, hadded⟩ := getParam_adds (htable _ List.mem_cons_self) (applies_all p) hone
      rw [hone] at h
      obtain ⟨rest, hr, hrest⟩ := getAll_adds entries htable' h
      refine ⟨added ++ rest,
        by rw [hr, show v' = v ++ added from hv, List.append_assoc], fun node hnode => ?_⟩
      rcases List.mem_append.mp hnode with hnode | hnode
      · exact ⟨p, hadded node hnode⟩
      · exact hrest node hnode

end

/-- **What is known of the values** that are read with a selector of the command line. -/
theorem get_adds {ctx : Context} {words : List (List UInt8)} {n rounds : ℕ} {sel : Sel}
    {r : Bool × List Node}
    (hsel : parseSel ctx words = .ok (some (n, sel))) (h : get ctx rounds sel = some r) :
    ∃ added, r.2 = ctx.v ++ added ∧ ∀ node ∈ added, ∃ p, Came ctx.set node.sel p := by
  unfold get at h
  rcases (parseSel_selects hsel).cases_param with rfl | ⟨hparam, p, hp, ha⟩
  · rw [if_neg (by simp)] at h
    exact getAll_adds _ (fun entry h => List.mem_zipIdx_iff_getElem?.mp h) h
  · rw [if_pos (by omega), if_neg (by omega), hp] at h
    obtain ⟨added, hr, hadded⟩ := getParam_adds hp ha h
    exact ⟨added, hr, fun node hnode => ⟨p, hadded node hnode⟩⟩

/-! ### The words of a selector -/

/-- The words of a line. -/
def words (text : List UInt8) : List (List UInt8) := (text.splitOnP isSpace).filter (· ≠ [])

theorem words_cons {word : List UInt8} (hne : word ≠ [])
    (hplain : ∀ byte ∈ word, isSpace byte = false) (text : List UInt8) :
    words (word ++ 0x20 :: text) = word :: words text := by
  unfold words
  rw [List.splitOnP_append_cons_of_forall_mem hplain _ rfl,
    List.filter_cons_of_pos (by simpa using hne)]

/-- What `%d` writes is a word. -/
theorem words_signedDecimal (value : ℤ) (text : List UInt8) :
    words (signedDecimal value ++ 0x20 :: text) = signedDecimal value :: words text := by
  have hdigits : ∀ n, ∀ byte ∈ decimal n, isSpace byte = false := by
    intro n byte hbyte
    obtain ⟨d, hd, -⟩ := isDigit_of_mem_decimal n byte hbyte
    exact (digit_plain byte (by rw [hd]; rfl)).1
  unfold signedDecimal
  split_ifs
  · refine words_cons (List.cons_ne_nil _ _) (fun byte hbyte => ?_) text
    rcases List.mem_cons.mp hbyte with rfl | hbyte
    · rfl
    · exact hdigits _ byte hbyte
  · exact words_cons (decimal_ne_nil _) (hdigits _) text

theorem words_nil : words [] = [] := by
  unfold words
  rw [List.splitOnP_nil]
  rfl

/-- The words that are written for a selector. -/
def selectorWords (name : List UInt8) (p : Descriptor) (sel : Sel) : List (List UInt8) :=
  name :: ((if p.isSet then [signedDecimal sel.set]
    else []) ++ if p.hasBlocks then [signedDecimal sel.block] else [])

theorem words_selectorText {p : Descriptor} {name : List UInt8} (hname : p.name = some name)
    (hne : name ≠ []) (hplain : ∀ byte ∈ name, isSpace byte = false) (sel : Sel) :
    ∃ text, selectorText p sel = .ok text ∧ words text = selectorWords name p sel := by
  unfold selectorText nameText selectorWords
  rw [hname]
  refine ⟨_, rfl, ?_⟩
  rw [List.append_assoc, List.append_assoc, List.singleton_append, words_cons hne hplain]
  by_cases his : p.isSet = true
  · rw [if_pos his, if_pos his, List.append_assoc, List.singleton_append, words_signedDecimal]
    by_cases has : p.hasBlocks = true
    · rw [if_pos has, if_pos has, words_signedDecimal, words_nil]
      rfl
    · rw [if_neg has, if_neg has, words_nil]
      rfl
  · rw [if_neg his, if_neg his, List.nil_append]
    by_cases has : p.hasBlocks = true
    · rw [if_pos has, if_pos has, words_signedDecimal, words_nil]
      rfl
    · rw [if_neg has, if_neg has, words_nil]
      rfl

/-! ### Parsing them back -/

/-- Names that tell the parameters apart. -/
structure Named (table : List Descriptor) : Prop where
  name : ∀ p ∈ table, ∃ name, p.name = some name ∧ name ≠ [] ∧ ∀ byte ∈ name, isSpace byte = false
  distinct : table.Pairwise fun p q => ∀ a ∈ p.name, ∀ b ∈ q.name, sameName a b = false

theorem findParam_name {table : List Descriptor} (h : Named table) {p : Descriptor} {index : ℕ}
    (hp : table[index]? = some p) {name : List UInt8} (hname : p.name = some name) :
    findParam table name = some (p, index) := by
  have hmatch : p.name.any (sameName · name) = true := by
    rw [hname]
    exact decide_eq_true rfl
  have hmem : (p, index) ∈ table.zipIdx := List.mem_zipIdx_iff_getElem?.mpr hp
  obtain ⟨⟨q, k⟩, hfind⟩ : ∃ entry, findParam table name = some entry :=
    Option.isSome_iff_exists.mp (List.find?_isSome.mpr ⟨_, hmem, hmatch⟩)
  have hq : table[k]? = some q := List.mem_zipIdx_iff_getElem?.mp (List.mem_of_find?_eq_some hfind)
  obtain ⟨other, hother, hsame⟩ : ∃ other, q.name = some other ∧ sameName other name = true := by
    have hany :=
      List.find?_some (p := fun entry : Descriptor × ℕ => entry.1.name.any (sameName · name)) hfind
    dsimp only at hany
    rcases hother : q.name with _ | other
    · rw [hother] at hany
      cases hany
    · rw [hother] at hany
      exact ⟨other, rfl, hany⟩
  obtain ⟨hindex, rfl⟩ := List.getElem?_eq_some_iff.mp hp
  obtain ⟨hk, rfl⟩ := List.getElem?_eq_some_iff.mp hq
  have hdistinct := List.pairwise_iff_getElem.mp h.distinct
  rw [hfind]
  -- another parameter of this name would not be told apart
  rcases Nat.lt_trichotomy k index with hlt | rfl | hlt
  · rw [hdistinct k index hk hindex hlt other hother name hname] at hsame
    cases hsame
  · rfl
  · have := hdistinct index k hindex hk hlt name hname other hother
    rw [sameName, decide_eq_false_iff_not] at this
    exact absurd (of_decide_eq_true hsame).symm this

theorem parseNumber_signedDecimal (dialect : Dialect) {first value : ℤ} (hfirst : 0 ≤ first)
    (hle : first ≤ value) (hlt : value < 2 ^ 31) :
    parseNumber dialect first (signedDecimal value) = .ok (some value) := by
  unfold parseNumber
  rw [str2int_signedDecimal dialect (by omega) hlt]
  change Except.ok (if _ then _ else _) = _
  rw [if_neg (by omega)]

section
variable {p : Descriptor} {dialect : Dialect} {word : List UInt8} {set : ℤ}

theorem parseFound_single (his : ¬ p.isSet = true) (dialect : Dialect) (index : ℕ)
    (args : List (List UInt8)) :
    parseFound dialect p index args =
      .ok (some (1, ⟨index, 0, if p.hasBlocks then -1 else 0⟩)) := by
  unfold parseFound
  rcases args with _ | ⟨word, args⟩
  · rw [if_neg his]
    rfl
  · dsimp only
    rw [if_pos his, if_neg his]
    rfl

theorem parseFound_set (his : p.isSet = true) (has : ¬ p.hasBlocks = true)
    (hset : parseNumber dialect p.firstSet word = .ok (some set)) (index : ℕ)
    (args : List (List UInt8)) :
    parseFound dialect p index (word :: args) = .ok (some (2, ⟨index, set, 0⟩)) := by
  unfold parseFound
  dsimp only
  rw [if_neg (not_not_intro his), hset, if_neg has]
  rcases args with _ | ⟨word, args⟩
  · rfl
  · change (if _ then _ else _) = _
    rw [if_pos has]
    rfl

theorem parseFound_block (his : p.isSet = true) (has : p.hasBlocks = true)
    {blockWord : List UInt8} {block : ℤ}
    (hset : parseNumber dialect p.firstSet word = .ok (some set))
    (hblock : parseNumber dialect p.firstBlock blockWord = .ok (some block)) (index : ℕ)
    (args : List (List UInt8)) :
    parseFound dialect p index (word :: blockWord :: args) =
      .ok (some (3, ⟨index, set, block⟩)) := by
  unfold parseFound
  dsimp only
  rw [if_neg (not_not_intro his), hset]
  change (if _ then _ else _) = _
  rw [if_neg (not_not_intro has), hblock]
  rfl

end

/-- The selector words can be told apart, and the numbers in them can be selected. -/
def Restorable (p : Descriptor) (sel : Sel) : Prop :=
  (p.hasBlocks = true → p.isSet = true) ∧ (p.isSet = true → p.firstSet ≤ sel.set) ∧
    (p.hasBlocks = true → p.firstBlock ≤ sel.block)

/-- **The words of a selector** are parsed as the selector, whatever is behind them. -/
theorem parseSel_words {ctx : Context} (h : Named ctx.set) {sel : Sel} {p : Descriptor}
    (hcame : Came ctx.set sel p) {name : List UInt8} (hname : p.name = some name)
    (hrest : Restorable p sel) (data : List (List UInt8)) :
    parseSel ctx (selectorWords name p sel ++ data) =
      .ok (some ((selectorWords name p sel).length, sel)) := by
  obtain ⟨⟨param, set, block⟩, hnamed⟩ : ∃ s, s = sel := ⟨sel, rfl⟩
  subst hnamed
  obtain ⟨hboth, hset, hblock⟩ := hrest
  obtain ⟨hpos, hat, -, ⟨-, hset'⟩, ⟨-, hblock'⟩, hsingle, hnone⟩ := hcame
  obtain ⟨index, rfl⟩ : ∃ index : ℕ, param = index := ⟨param.toNat, (Int.toNat_of_nonneg hpos).symm⟩
  unfold parseSel selectorWords
  rw [List.cons_append]
  dsimp only at hset hblock hset' hblock' hsingle hnone ⊢
  rw [findParam_name h hat hname]
  dsimp only
  by_cases his : p.isSet = true
  · have hnumber := parseNumber_signedDecimal ctx.dialect (firstSet_range p).1 (hset his) hset'
    rw [if_pos his]
    by_cases has : p.hasBlocks = true
    · have hnumber' :=
        parseNumber_signedDecimal ctx.dialect (firstBlock_range p).1 (hblock has) hblock'
      rw [if_pos has]
      exact parseFound_block his has hnumber hnumber' _ data
    · rw [if_neg has, hnone (Bool.eq_false_of_not_eq_true has)]
      exact parseFound_set his has hnumber _ data
  · have has : ¬ p.hasBlocks = true := fun has => his (hboth has)
    rw [if_neg his, if_neg has, parseFound_single his, if_neg has,
      hsingle (Bool.eq_false_of_not_eq_true his), hnone (Bool.eq_false_of_not_eq_true has)]
    rfl

/-- A selector that the words are parsed as, and that is accepted, can be restored. -/
theorem restorable_of_parseSel {ctx : Context} (h : Named ctx.set) {sel : Sel} {p : Descriptor}
    (hcame : Came ctx.set sel p) {name : List UInt8} (hname : p.name = some name)
    {data : List (List UInt8)}
    (hparse : parseSel ctx (selectorWords name p sel ++ data) = .ok
      (some ((selectorWords name p sel).length, sel)))
    (haccepted : (accepted ctx sel).isSome) : Restorable p sel := by
  have hselects := parseSel_selects hparse
  obtain ⟨taken, haccepted⟩ := Option.isSome_iff_exists.mp haccepted
  unfold accepted at haccepted
  split_ifs at haccepted with hrange hopen
  cases hselects with
  | all => exact absurd (.inl rfl) hopen
  | @one q index set block hq hset hblock _ =>
    have hqp : q = p := Option.some.inj (hq.symm.trans hcame.at_param)
    subst hqp
    have hne : set ≠ -1 ∧ block ≠ -1 := not_or.mp hopen
    refine ⟨fun has => ?_, fun his => ?_, fun has => ?_⟩
    · by_contra his
      -- one word is used, and two are written
      unfold parseSel selectorWords at hparse
      rw [if_neg his, if_pos has, List.cons_append] at hparse
      dsimp only at hparse
      rw [findParam_name h hq hname] at hparse
      dsimp only at hparse
      rw [parseFound_single his] at hparse
      cases hparse
    · rw [if_pos his] at hset
      exact (hset.resolve_left hne.1).2.1
    · rw [if_pos has] at hblock
      exact (hblock.resolve_left hne.2).2.1

/-! ### The saved lines -/

/-- The parameter of a value can be written. -/
def writable (ctx : Context) (item : Node) : Bool :=
  (ctx.set[item.sel.param.toNat]?).any fun p => p.access ≠ rdonly

/-- The line of a value: the command, the selector and the data. -/
def Line (ctx : Context) (item : Node) (line : List UInt8) : Prop :=
  ∃ p ∈ ctx.set[item.sel.param.toNat]?, ∃ selector, selectorText p item.sel = .ok selector ∧
    line = ctx.cmdname ++ [0x20] ++ selector ++
      (ctx.handler.save item.sel.param.toNat item.sel.set item.sel.block item.data).1 ++ [0x0a]

theorem save_lines {ctx : Context} {sel : Sel} : ∀ (v : List Node) {text : List UInt8},
    save ctx sel v = .ok (true, text) → ∃ lines, text = lines.flatten ∧
      List.Forall₂ (Line ctx) (v.filter fun item => sel.selects item.sel && writable ctx item) lines
  | [], text, h => by
    cases h
    exact ⟨[], rfl, .nil⟩
  | item :: rest, text, h => by
    unfold save at h
    by_cases hselects : sel.selects item.sel = true
    swap
    · rw [if_pos hselects] at h
      rw [List.filter_cons_of_neg (by simp [hselects])]
      exact save_lines rest h
    rw [if_neg (not_not_intro hselects)] at h
    by_cases hparam : item.sel.param < 0
    · rw [if_pos hparam] at h
      cases h
    rw [if_neg hparam] at h
    rcases hp : ctx.set[item.sel.param.toNat]? with _ | p
    · rw [hp] at h
      cases h
    rw [hp] at h
    dsimp only at h
    by_cases hread : p.access = rdonly
    · rw [if_pos hread] at h
      rw [List.filter_cons_of_neg (by simp [writable, hp, hread])]
      exact save_lines rest h
    rw [if_neg hread] at h
    rcases hselector : selectorText p item.sel with e | selector
    · rw [hselector] at h
      cases h
    rw [hselector] at h
    rw [List.filter_cons_of_pos (by simpa [writable, hp, hread] using hselects)]
    change (if _ then _ else _) = _ at h
    split_ifs at h with hok
    · rcases hrest : save ctx sel rest with e | ⟨result, lines⟩
      · rw [hrest] at h
        cases h
      · rw [hrest] at h
        cases h
        obtain ⟨lines', rfl, hlines⟩ := save_lines rest hrest
        exact ⟨_ :: lines', rfl, .cons ⟨p, hp, selector, hselector, rfl⟩ hlines⟩
    · cases h

/-- `parseData` accepts the selector: it hands the data to the handler, whatever that makes of them,
and appends the value. -/
def Delivers (ctx : Context) (sel : Sel) (data : List (List UInt8)) : Prop :=
  ∀ handler : Handler, parseData { ctx with handler } sel data =
    (handler.parse sel.param.toNat sel.set sel.block data).map fun value =>
      { ctx with handler, v := ctx.v ++ [⟨sel, value⟩] }

theorem delivers_iff {ctx : Context} {sel : Sel} {data : List (List UInt8)} :
    Delivers ctx sel data ↔ (accepted ctx sel).isSome := by
  constructor
  · intro h
    have htaking := h { ctx.handler with parse := fun _ _ _ _ => some [] }
    change (accepted ctx sel).bind _ = _ at htaking
    rcases haccepted : accepted ctx sel with _ | p
    · rw [haccepted] at htaking
      cases htaking
    · rfl
  · intro h handler
    obtain ⟨p, hp⟩ := Option.isSome_iff_exists.mp h
    change (accepted ctx sel).bind _ = _
    rw [hp]
    rfl

/-- The selector words of a value, in front of its data, are parsed as its selector, no word more or
less, and `parseData` accepts it for the words that are left. -/
def ParsesBack (ctx : Context) (item : Node) (data : List (List UInt8)) : Prop :=
  ∃ p ∈ ctx.set[item.sel.param.toNat]?, ∃ selector, selectorText p item.sel = .ok selector ∧
    parseSel ctx (words selector ++ data) = .ok (some ((words selector).length, item.sel)) ∧
    Delivers ctx item.sel ((words selector ++ data).drop (words selector).length)

/-- **A saved selector is parsed back** if and only if its parameter is a set or has no blocks, and
the numbers in it have not run over. -/
theorem parsesBack_iff {ctx : Context} {args : List (List UInt8)} {n rounds : ℕ} {sel : Sel}
    {result : Bool}
    {added : List Node} (hsel : parseSel ctx args = .ok (some (n, sel)))
    (hget : get ctx rounds sel = some (result, ctx.v ++ added)) (hnamed : Named ctx.set)
    {item : Node}
    (hitem : item ∈ added) (data : List (List UInt8)) :
    ParsesBack ctx item data ↔ ∀ p ∈ ctx.set[item.sel.param.toNat]?, Restorable p item.sel := by
  obtain ⟨added', hadded, hcame⟩ := get_adds hsel hget
  obtain rfl := List.append_cancel_left hadded
  obtain ⟨p, hp⟩ := hcame item hitem
  obtain ⟨name, hname, hne, hplain⟩ := hnamed.name p (List.mem_of_getElem? hp.at_param)
  obtain ⟨text, htext, hwords⟩ := words_selectorText hname hne hplain item.sel
  constructor
  · rintro ⟨q, hq, selector, hselector, hparse, haccepted⟩ r hr
    obtain rfl := Option.some.inj (hp.at_param.symm.trans hq)
    obtain rfl := Option.some.inj (hp.at_param.symm.trans hr)
    obtain rfl := Except.ok.inj (htext.symm.trans hselector)
    rw [hwords] at hparse
    exact restorable_of_parseSel hnamed hp hname hparse (delivers_iff.mp haccepted)
  · intro hrest
    have hrest := hrest p hp.at_param
    refine ⟨p, hp.at_param, text, htext, ?_, ?_⟩
    · rw [hwords]
      exact parseSel_words hnamed hp hname hrest data
    · obtain ⟨hlt, -⟩ := List.getElem?_eq_some_iff.mp hp.at_param
      have hset := (firstSet_range p).1
      have hblock := (firstBlock_range p).1
      have hset' : item.sel.set ≠ -1 := by
        by_cases his : p.isSet = true
        · have := hrest.2.1 his
          omega
        · rw [hp.single (Bool.eq_false_of_not_eq_true his)]
          decide
      have hblock' : item.sel.block ≠ -1 := by
        by_cases has : p.hasBlocks = true
        · have := hrest.2.2 has
          omega
        · rw [hp.none (Bool.eq_false_of_not_eq_true has)]
          decide
      have := hp.param
      rw [delivers_iff, accepted, if_neg (by omega), if_neg (by tauto), hp.at_param,
        Option.filter_some_pos (by simpa using hp.size)]
      rfl

theorem named_sixContext : Named sixContext.set where
  name p hp := by
    have hname : ∀ p ∈ sixContext.set, ∃ name ∈ p.name, name ≠ [] ∧ ∀ byte ∈ name,
        isSpace byte = false := by
      decide +kernel
    exact hname p hp
  distinct := by decide

theorem sixContext_get : get sixContext 5 ⟨-1, -1, -1⟩ =
    some (true, [⟨⟨0, 0, 1⟩, [0, 1]⟩, ⟨⟨0, 0, 2⟩, [0, 2]⟩,
    ⟨⟨0, 1, 1⟩, [1, 1]⟩, ⟨⟨0, 1, 2⟩, [1, 2]⟩, ⟨⟨1, 0, 0⟩, [0, 0]⟩]) := by decide +kernel

theorem parsesBack_iff_sixContext : ParsesBack sixContext ⟨⟨0, 1, 2⟩, [1, 2]⟩ [[0x61]] :=
  (parsesBack_iff sixContext_parse sixContext_get named_sixContext (by decide) [[0x61]]).mpr
    fun p hp => by
    cases hp
    exact ⟨by decide, by decide, by decide⟩

/-- A parameter with blocks that is no set. -/
def blocksContext : Context := { sixContext with set := [⟨some [0x62], 1, 0x10⟩] }

/-- Its block is written, but not parsed. -/
theorem blocksContext_saved : Named blocksContext.set ∧
    parseSel blocksContext [] = .ok (some (0, ⟨-1, -1, -1⟩)) ∧
    get blocksContext 5 ⟨-1, -1, -1⟩ =
      some (true, [⟨⟨0, 0, 0⟩, [0, 0]⟩, ⟨⟨0, 0, 1⟩, [0, 1]⟩, ⟨⟨0, 0, 2⟩, [0, 2]⟩]) ∧
    ¬ ParsesBack blocksContext ⟨⟨0, 0, 1⟩, [0, 1]⟩ [[0x61]] := by
  refine ⟨⟨?_, by decide⟩, rfl, by decide +kernel, ?_⟩
  · have hname : ∀ p ∈ blocksContext.set, ∃ name ∈ p.name, name ≠ [] ∧ ∀ byte ∈ name,
        isSpace byte = false := by
      decide +kernel
    exact hname
  · rintro ⟨p, hp, selector, hselector, hparse, -⟩
    cases hp
    cases hselector
    revert hparse
    decide +kernel

end Ipmitool.Cmd.Cfgp
