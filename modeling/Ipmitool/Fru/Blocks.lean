import Ipmitool.Fru.ReadFirst

/-! # The blocks of an inventory device

`buildBlocks` appends the blocks in the order of the header and lets each one end where the next one
starts. So its list is given by the places where the blocks start (`blocksOf`,
`buildBlocks_starts`).

`partition_iff`: the list is a partition of the device that respects all sections and records
exactly if the sections stand in the device in the order of the header. Nothing checks this
(`sections_reversed`). -/

namespace Ipmitool.Fru.Blocks

open Ipmitool.Lib Ipmitool.Lib.Mem Ipmitool.Lib.Bytes Ipmitool.Lib.Machine Ipmitool.Lib.Dialogue
open Ipmitool.Core.Types Ipmitool.Core.Interface Ipmitool.Fru.Transfer

/-! ### Partitions -/

/-- The blocks are behind each other, from zero to the size of the device. -/
structure Partition (size : ℕ) (blocks : List Block) : Prop where
  first : ∃ b rest, blocks = b :: rest ∧ b.start = 0
  last : ∀ b ∈ blocks.getLast?, b.stop = size
  adjacent : blocks.IsChain fun b c => b.stop = c.start
  ordered : ∀ b ∈ blocks, b.start ≤ b.stop

/-- A block starts or ends here. -/
def Boundary (blocks : List Block) (x : ℕ) : Prop := ∃ b ∈ blocks, b.start = x ∨ b.stop = x

/-- The blocks that start at these places. -/
def blocksOf (size : ℕ) : List ℕ → List Block
  | [] => []
  | [s] => [⟨s, size⟩]
  | s :: t :: rest => ⟨s, t⟩ :: blocksOf size (t :: rest)

section
variable {size : ℕ}

theorem blocksOf_ne_nil (s : ℕ) (starts : List ℕ) : blocksOf size (s :: starts) ≠ [] := by
  rcases starts with _ | ⟨t, rest⟩ <;> simp [blocksOf]

theorem nextBlock_blocksOf (s : ℕ) (starts : List ℕ) (t : ℕ) :
    nextBlock size (blocksOf size (s :: starts)) t = blocksOf size (s :: (starts ++ [t])) := by
  induction starts generalizing s with
  | nil => rfl
  | cons u rest ih =>
    have hih := ih u
    have hne : blocksOf size (u :: rest) ≠ [] := blocksOf_ne_nil u rest
    rw [List.cons_append, blocksOf, blocksOf, ← hih]
    obtain ⟨b, bs, hb⟩ := List.exists_cons_of_ne_nil hne
    rw [hb]
    unfold nextBlock
    rw [List.getLast?_cons_cons]
    rcases hlast : (b :: bs).getLast? with _ | c
    · exact absurd (List.getLast?_eq_none_iff.mp hlast) (by simp)
    · simp only [List.dropLast_cons_cons, List.cons_append, List.append_assoc]

theorem foldl_nextBlock (s : ℕ) (starts more : List ℕ) :
    more.foldl (nextBlock size) (blocksOf size (s :: starts)) =
      blocksOf size (s :: (starts ++ more)) := by
  induction more generalizing starts with
  | nil => rw [List.append_nil]; rfl
  | cons t more ih =>
    rw [List.foldl_cons, nextBlock_blocksOf, ih, List.append_assoc]
    rfl

theorem boundary_blocksOf (s : ℕ) (starts : List ℕ) (x : ℕ) :
    Boundary (blocksOf size (s :: starts)) x ↔ x ∈ s :: (starts ++ [size]) := by
  induction starts generalizing s with
  | nil => simp [Boundary, blocksOf, eq_comm]
  | cons t rest ih =>
    have hih := ih t
    rw [List.cons_append, List.mem_cons, ← hih]
    unfold Boundary
    rw [blocksOf]
    constructor
    · rintro ⟨b, hb, hx⟩
      rcases List.mem_cons.mp hb with rfl | hb
      · rcases hx with rfl | rfl
        · exact .inl rfl
        · exact .inr (hih.mpr List.mem_cons_self)
      · exact .inr ⟨b, hb, hx⟩
    · rintro (rfl | ⟨b, hb, hx⟩)
      · exact ⟨_, List.mem_cons_self, .inl rfl⟩
      · exact ⟨b, List.mem_cons_of_mem _ hb, hx⟩

theorem ordered_blocksOf (s : ℕ) (starts : List ℕ) :
    (∀ b ∈ blocksOf size (s :: starts), b.start ≤ b.stop) ↔
    (s :: (starts ++ [size])).Pairwise (· ≤ ·) := by
  induction starts generalizing s with
  | nil => simp [blocksOf]
  | cons t rest ih =>
    have hih := ih t
    rw [blocksOf, List.forall_mem_cons, hih, List.cons_append, List.pairwise_cons (a := s)]
    refine and_congr_left fun hrest => ?_
    constructor
    · intro hle x hx
      rcases List.mem_cons.mp hx with rfl | hx
      · exact hle
      · exact Nat.le_trans hle ((List.pairwise_cons.mp hrest).1 x hx)
    · intro hall
      exact hall t List.mem_cons_self

theorem adjacent_blocksOf (s : ℕ) (starts : List ℕ) :
    (blocksOf size (s :: starts)).IsChain (fun b c => b.stop = c.start) ∧
      (∃ b rest, blocksOf size (s :: starts) = b :: rest ∧ b.start = s) ∧
      ∀ b ∈ (blocksOf size (s :: starts)).getLast?, b.stop = size := by
  induction starts generalizing s with
  | nil =>
    refine ⟨.singleton _, ⟨_, _, rfl, rfl⟩, fun b hb => ?_⟩
    rw [← Option.some.inj hb]
    rfl
  | cons t rest ih =>
    obtain ⟨hchain, ⟨b, bs, hb, hstart⟩, hlast⟩ := ih t
    rw [blocksOf]
    rw [hb] at hchain hlast ⊢
    refine ⟨.cons_cons hstart.symm hchain, ⟨_, _, rfl, rfl⟩, fun c hc => ?_⟩
    rw [List.getLast?_cons_cons] at hc
    exact hlast c hc

/-- The blocks are a partition exactly if their starts are in order. -/
theorem partition_blocksOf (starts : List ℕ) :
    Partition size (blocksOf size (0 :: starts)) ↔ (starts ++ [size]).Pairwise (· ≤ ·) := by
  obtain ⟨hchain, hfirst, hlast⟩ := @adjacent_blocksOf size 0 starts
  constructor
  · intro h
    exact (List.pairwise_cons.mp ((ordered_blocksOf 0 starts).mp h.ordered)).2
  · intro h
    refine ⟨hfirst, hlast, hchain,
      (ordered_blocksOf 0 starts).mpr (List.pairwise_cons.mpr ⟨fun x _ => Nat.zero_le x, h⟩)⟩

end

theorem stop_le_start : ∀ {b : Block} {blocks : List Block},
    (b :: blocks).IsChain (fun b c => b.stop = c.start) →
    (∀ c ∈ blocks, c.start ≤ c.stop) → ∀ c ∈ blocks, b.stop ≤ c.start
  | b, [], _, _, c, hc => absurd hc List.not_mem_nil
  | b, d :: rest, hchain, hordered, c, hc => by
    obtain ⟨hnext, hrest⟩ := List.isChain_cons_cons.mp hchain
    rcases List.mem_cons.mp hc with rfl | hc
    · exact Nat.le_of_eq hnext
    · have hle := stop_le_start hrest (fun c hc => hordered c (List.mem_cons_of_mem _ hc)) c hc
      have hd := hordered d List.mem_cons_self
      omega

/-- In a partition, the first block that ends behind a place is the one that the place is in. -/
theorem Partition.find {size : ℕ} {blocks : List Block} (h : Partition size blocks) {b : Block}
    (hb : b ∈ blocks) {a : ℕ}
    (hlow : b.start ≤ a) (hhigh : a < b.stop) : blocks.find? (fun c => a < c.stop) = some b := by
  have hchain := h.adjacent
  have hordered := h.ordered
  clear h
  induction blocks with
  | nil => exact absurd hb List.not_mem_nil
  | cons c rest ih =>
    have hordered' : ∀ d ∈ rest, d.start ≤ d.stop :=
      fun d hd => hordered d (List.mem_cons_of_mem _ hd)
    by_cases hc : a < c.stop
    · rcases List.mem_cons.mp hb with rfl | hb
      · rw [List.find?_cons, decide_eq_true hc]
      · have hle := stop_le_start hchain hordered' b hb
        omega
    · rw [List.find?_cons, decide_eq_false hc]
      rcases List.mem_cons.mp hb with rfl | hb
      · exact absurd hhigh hc
      · exact ih hb (List.isChain_of_isChain_cons hchain) hordered'

/-! ### The program -/

/-- The places that the header names, in its order. -/
def sectionStarts (header : List UInt8) : List ℕ :=
  (((header.drop 1).take 5).filter (· ≠ 0)).map fun block => block.toNat * 8

section Program
variable {β : Type} (B : Bmc β) (env : Env) (id : UInt8)

/-- The places at which the loop over the records reads one. -/
def visitedRecords : ℕ → Info → ℕ → Talk β (List ℕ)
  | 0, _, _ => return []
  | fuel + 1, info, off => do
    if info.size ≤ off ∨ info.access ∧ off % 2 = 1 then return []
    else
      let r ← readArea B env id info off 5
      if r.error.isSome then return []
      else if csum (Mem.read r.dest 0 5) ≠ 0 ∨ r.dest 1 &&& 0x80 ≠ 0 then return [off]
      else return off :: (← visitedRecords fuel r.info (off + (r.dest 2).toNat + 5))

/-- A record is read at this place after the header. -/
def Visited (info : Info) (header : List UInt8) (w : CmdWorld Unit β) (x : ℕ) : Prop :=
  header.getD 5 0 ≠ 0 ∧ ∃ starts w',
    visitedRecords B env id info.size info ((header.getD 5 0).toNat * 8)
    (w.asked B (readRequest id false 0 8)) = .ok (starts, w') ∧ x ∈ starts

variable {B env id}

theorem sectionBlocks_starts (size : ℕ) (header : List UInt8) : sectionBlocks size header =
    blocksOf size (0 :: ((((header.drop 1).take 4).filter (· ≠ 0)).map fun block => block.toNat *
      8)) := by
  have hfold : ∀ (l : List UInt8) (starts : List ℕ), l.foldl
      (fun blocks block => if block = 0 then blocks else nextBlock size blocks (block.toNat * 8))
        (blocksOf size (0 :: starts)) =
      blocksOf size (0 :: (starts ++ (l.filter (· ≠ 0)).map fun block => block.toNat * 8)) := by
    intro l
    induction l with
    | nil => intro starts; simp
    | cons x l ih =>
      intro starts
      by_cases hx : x = 0
      · simp only [List.foldl_cons, hx, if_true, ih]
        simp
      · simp only [List.foldl_cons, if_neg hx, nextBlock_blocksOf, ih]
        simp [hx]
  exact hfold _ []

/-- What the loop over the records does: it starts a block at every record that it reads. The
records are behind each other, and `next` is behind them. -/
structure Walked (size off : ℕ) (starts : List ℕ) (next : ℕ) : Prop where
  ordered : (starts ++ [next]).Pairwise (· ≤ ·)
  inside : ∀ x ∈ starts, off ≤ x ∧ x < size
  le : off ≤ next
  head : off % 2 = 0 → off < size → off ∈ starts ∨ next = off
  outside : size ≤ off → starts = [] ∧ next = off

theorem walked_nil {size off next : ℕ} (hle : off ≤ next)
    (hnext : off % 2 = 0 ∨ size ≤ off → next = off) : Walked size off [] next :=
  ⟨by simp, by simp, hle, fun heven _ => .inr (hnext (.inl heven)), fun h => ⟨rfl, hnext (.inr h)⟩⟩

theorem Walked.cons {size off off' next : ℕ} {starts : List ℕ} (h : Walked size off' starts next)
    (hoff : off < size) (hlt : off ≤ off') : Walked size off (off :: starts) next := by
  refine ⟨List.pairwise_cons.mpr ⟨fun x hx => ?_, h.ordered⟩, fun x hx => ?_, Nat.le_trans hlt h.le,
    fun _ _ => .inl List.mem_cons_self, fun hsize => by omega⟩
  · rcases List.mem_append.mp hx with hx | hx
    · exact Nat.le_trans hlt (h.inside x hx).1
    · rw [List.mem_singleton.mp hx]
      exact Nat.le_trans hlt h.le
  · rcases List.mem_cons.mp hx with rfl | hx
    · exact ⟨Nat.le_refl _, hoff⟩
    · exact ⟨Nat.le_trans hlt (h.inside x hx).1, (h.inside x hx).2⟩

section Filled

variable {size off next : ℕ} {starts tail : List ℕ} (h : Walked size off starts next)
  (htail : tail = if next < size then [next] else [])
include h htail

theorem Walked.filled_inside : ∀ x ∈ starts ++ tail, off ≤ x ∧ x < size := by
  intro x hx
  rcases List.mem_append.mp hx with hx | hx
  · exact h.inside x hx
  · rw [htail] at hx
    split_ifs at hx with hlt
    · obtain rfl := List.mem_singleton.mp hx
      exact ⟨h.le, hlt⟩
    · exact absurd hx List.not_mem_nil

theorem Walked.mem_filled (heven : off % 2 = 0) (hlt : off < size) : off ∈ starts ++ tail := by
  rcases h.head heven hlt with hx | rfl
  · exact List.mem_append_left _ hx
  · rw [htail, if_pos hlt]
    simp

/-- The records, the space behind them and the end of the region are in order. -/
theorem Walked.pairwise_filled : (starts ++ tail ++ [size]).Pairwise (· ≤ ·) := by
  rw [List.append_assoc]
  obtain ⟨hstarts, -, hnext⟩ := List.pairwise_append.mp h.ordered
  refine List.pairwise_append.mpr ⟨hstarts, ?_, fun x hx y hy => ?_⟩
  · rw [htail]
    split_ifs with hlt
    · exact List.pairwise_cons.mpr ⟨fun y hy => by rw [List.mem_singleton.mp hy]; omega, by simp⟩
    · simp
  · rcases List.mem_append.mp hy with hy | hy
    · rw [htail] at hy
      split_ifs at hy
      · exact hnext x hx y hy
      · exact absurd hy List.not_mem_nil
    · rw [List.mem_singleton.mp hy]
      exact Nat.le_of_lt (h.inside x hx).2

end Filled

theorem recordBlocks_walked : ∀ (fuel : ℕ) (info : Info) (off : ℕ) (blocks : List Block)
    (w w' : CmdWorld Unit β) (info' : Info) (next : ℕ) (blocks' : List Block),
    recordBlocks B env id fuel info off blocks w = .ok ((info', next, blocks'), w') →
    ∃ starts, visitedRecords B env id fuel info off w = .ok (starts, w') ∧
      blocks' = starts.foldl (nextBlock info.size) blocks ∧ Walked info.size off starts next
  | 0, info, off, blocks, w, w', info', next, blocks', h => by
    obtain ⟨hout, rfl⟩ := pure_ok.mp h
    obtain ⟨-, rfl, rfl⟩ : info = info' ∧ off = next ∧ blocks = blocks' := by simpa using hout
    exact ⟨[], rfl, rfl, walked_nil (Nat.le_refl _) fun _ => rfl⟩
  | fuel + 1, info, off, blocks, w, w', info', next, blocks', h => by
    rw [recordBlocks] at h
    by_cases hsize : info.size ≤ off
    · rw [if_pos hsize] at h
      obtain ⟨hout, rfl⟩ := pure_ok.mp h
      obtain ⟨-, rfl, rfl⟩ : info = info' ∧ off = next ∧ blocks = blocks' := by simpa using hout
      refine ⟨[], ?_, rfl, walked_nil (Nat.le_refl _) fun _ => rfl⟩
      rw [visitedRecords, if_pos (.inl hsize)]
      rfl
    rw [if_neg hsize] at h
    by_cases hodd : info.access = true ∧ off % 2 = 1
    · rw [if_pos hodd] at h
      obtain ⟨hout, rfl⟩ := pure_ok.mp h
      obtain ⟨-, rfl, rfl⟩ : info = info' ∧ off + 1 = next ∧ blocks = blocks' := by simpa using hout
      refine ⟨[], ?_, rfl, walked_nil (by omega) fun h => by omega⟩
      rw [visitedRecords, if_pos (.inr hodd)]
      rfl
    rw [if_neg hodd] at h
    have hgo : ¬ (info.size ≤ off ∨ info.access = true ∧ off % 2 = 1) := by
      rintro (hc | hc)
      · exact hsize hc
      · exact hodd hc
    rw [visitedRecords, if_neg hgo]
    obtain ⟨r, t, hread, h⟩ := bind_ok.mp h
    rw [bind_run hread]
    by_cases herror : r.error.isSome = true
    · rw [if_pos herror] at h ⊢
      obtain ⟨hout, rfl⟩ := pure_ok.mp h
      obtain ⟨-, rfl, rfl⟩ : r.info = info' ∧ off = next ∧ blocks = blocks' := by simpa using hout
      exact ⟨[], rfl, rfl, walked_nil (Nat.le_refl _) fun _ => rfl⟩
    rw [if_neg herror] at h ⊢
    by_cases hlast : csum (Mem.read r.dest 0 5) ≠ 0 ∨ r.dest 1 &&& 0x80 ≠ 0
    · rw [if_pos hlast] at h ⊢
      obtain ⟨hout, rfl⟩ := pure_ok.mp h
      obtain ⟨-, rfl, rfl⟩ : r.info = info' ∧ off + (r.dest 2).toNat + 5 = next ∧
        nextBlock info.size blocks off = blocks' := by simpa using hout
      have hnil : Walked info.size (off + (r.dest 2).toNat + 5) [] (off + (r.dest 2).toNat + 5) :=
        walked_nil (Nat.le_refl _) fun _ => rfl
      exact ⟨[off], rfl, rfl, hnil.cons (by omega) (by omega)⟩
    rw [if_neg hlast] at h ⊢
    obtain ⟨starts, hvisited, hblocks, hwalked⟩ := recordBlocks_walked fuel _ _ _ _ _ _ _ _ h
    rw [(ReadFirst.readArea_tells hread).2.1] at hblocks hwalked
    exact ⟨off :: starts, bind_ok.mpr ⟨starts, w', hvisited, rfl⟩, hblocks,
      hwalked.cons (by omega) (by omega)⟩

theorem length_headerOf {r : Reply} {header : List UInt8} (h : headerOf r = some header) :
    header.length = 8 := by
  unfold headerOf at h
  dsimp only at h
  split_ifs at h
  rw [← Option.some.inj h, length_read]

theorem sectionStarts_split {header : List UInt8} (h : header.length = 8) : sectionStarts header =
    (((header.drop 1).take 4).filter (· ≠ 0)).map (fun block => block.toNat * 8) ++
      if header.getD 5 0 = 0 then [] else [(header.getD 5 0).toNat * 8] := by
  have hlast : (header.drop 1).take 5 = (header.drop 1).take 4 ++ [header.getD 5 0] := by
    rw [List.take_add_one, List.getElem?_drop, List.getD_eq_getElem?_getD,
      List.getElem?_eq_getElem (by omega)]
    rfl
  rw [sectionStarts, hlast, List.filter_append, List.map_append]
  congr 1
  by_cases h0 : header.getD 5 0 = 0
  · rw [if_pos h0, h0]
    rfl
  · rw [if_neg h0, List.filter_cons_of_pos (by simpa using h0)]
    rfl

/-- Where the blocks start: at zero, at the sections, at the records and at the space behind
them. -/
structure Starts (B : Bmc β) (env : Env) (id : UInt8) (info : Info) (header : List UInt8)
    (w : CmdWorld Unit β) (blocks : List Block) (sections starts tail : List ℕ) : Prop where
  named : sectionStarts header = sections ++ (if header.getD 5 0 = 0 then []
    else [(header.getD 5 0).toNat * 8])
  blocks : blocks = blocksOf info.size (0 :: (sections ++ (starts ++ tail)))
  visited : ∀ x, Visited B env id info header w x ↔ x ∈ starts
  none : header.getD 5 0 = 0 → starts = [] ∧ tail = []
  walked : header.getD 5 0 ≠ 0 → ∃ next,
    Walked info.size ((header.getD 5 0).toNat * 8) starts next ∧
    tail = if next < info.size then [next] else []

theorem buildBlocks_starts {info info' : Info} {header : List UInt8} {blocks : List Block}
    {w w' : CmdWorld Unit β}
    (hheader : (B w.device (readRequest id false 0 8)).1.bind headerOf = some header)
    (h : buildBlocks B env id info w = .ok ((info', blocks), w')) :
    ∃ sections starts tail, Starts B env id info header w blocks sections starts tail := by
  obtain ⟨r, hr, hhead⟩ := Option.bind_eq_some_iff.mp hheader
  have hnamed := sectionStarts_split (length_headerOf hhead)
  have hsections := sectionBlocks_starts info.size header
  rw [buildBlocks, bind_run (ask_ok.mpr ⟨rfl, rfl⟩), hheader] at h
  dsimp only at h
  by_cases h0 : header.getD 5 0 = 0
  · rw [if_pos h0] at h
    obtain ⟨hout, -⟩ := pure_ok.mp h
    refine ⟨_, [], [], hnamed, ?_, fun x => ⟨fun hx => absurd h0 hx.1,
      fun hx => absurd hx List.not_mem_nil⟩,
      fun _ => ⟨rfl, rfl⟩, fun hne => absurd h0 hne⟩
    rw [← (Prod.mk.inj hout).2, hsections, List.append_nil, List.append_nil]
  · rw [if_neg h0] at h
    obtain ⟨⟨info'', next, blocks'⟩, t, hrecords, h⟩ := bind_ok.mp h
    obtain ⟨hout, -⟩ := pure_ok.mp h
    obtain ⟨starts, hvisited, hblocks, hwalked⟩ := recordBlocks_walked _ _ _ _ _ _ _ _ _ hrecords
    rw [hsections, foldl_nextBlock] at hblocks
    refine ⟨_, starts, if next < info.size then [next] else [], hnamed, ?_, fun x => ?_,
      fun hz => absurd hz h0,
      fun _ => ⟨next, hwalked, rfl⟩⟩
    · rw [← (Prod.mk.inj hout).2]
      by_cases hnext : next < info.size
      · simp only [if_pos hnext, hblocks]
        rw [nextBlock_blocksOf, List.append_assoc]
      · simp only [if_neg hnext, hblocks, List.append_nil]
    · constructor
      · rintro ⟨-, starts', w1, hstarts, hx⟩
        obtain ⟨rfl, -⟩ := Prod.mk.inj (Except.ok.inj (hvisited.symm.trans hstarts))
        exact hx
      · exact fun hx => ⟨h0, starts, t, hvisited, hx⟩

/-- **The blocks are a partition that respects the sections and the records** exactly if the
sections stand in the order of the header and none of them is behind the end. -/
theorem partition_iff {info info' : Info} {header : List UInt8} {blocks : List Block}
    {w w' : CmdWorld Unit β}
    (hheader : (B w.device (readRequest id false 0 8)).1.bind headerOf = some header)
    (h : buildBlocks B env id info w = .ok ((info', blocks), w')) :
    (Partition info.size blocks ∧ (∀ x ∈ sectionStarts header, Boundary blocks x) ∧
      ∀ x, Visited B env id info header w x → Boundary blocks x) ↔
    (sectionStarts header).Pairwise (· ≤ ·) ∧ ∀ x ∈ sectionStarts header, x ≤ info.size := by
  obtain ⟨sections, starts, tail, hs⟩ := buildBlocks_starts hheader h
  have hboundary : ∀ x, Boundary blocks x ↔
      x ∈ 0 :: (sections ++ (starts ++ tail) ++ [info.size]) := by
    intro x
    rw [hs.blocks]
    exact boundary_blocksOf 0 _ x
  have hvisited : ∀ x, Visited B env id info header w x → Boundary blocks x := by
    intro x hx
    rw [hboundary]
    have hmem := (hs.visited x).mp hx
    simp [hmem]
  have hsections : ∀ x ∈ sections, Boundary blocks x := by
    intro x hx
    rw [hboundary]
    simp [hx]
  have hpartition : Partition info.size blocks ↔
      (sections ++ (starts ++ tail) ++ [info.size]).Pairwise (· ≤ ·) := by
    rw [hs.blocks]
    exact partition_blocksOf _
  rw [hs.named, hpartition, List.append_assoc, List.pairwise_append]
  by_cases h0 : header.getD 5 0 = 0
  · obtain ⟨rfl, rfl⟩ := hs.none h0
    rw [if_pos h0, List.append_nil sections]
    constructor
    · rintro ⟨⟨hordered, -, hle⟩, -, -⟩
      exact ⟨hordered, fun x hx => hle x hx _ (by simp)⟩
    · rintro ⟨hordered, hle⟩
      refine ⟨⟨hordered, by simp, fun x hx y hy => ?_⟩, hsections, hvisited⟩
      obtain rfl : y = info.size := by simpa using hy
      exact hle x hx
  · obtain ⟨next, hwalked, htail⟩ := hs.walked h0
    rw [if_neg h0]
    generalize hplace : (header.getD 5 0).toNat * 8 = place at *
    have heven : place % 2 = 0 := by omega
    have hinside := hwalked.filled_inside htail
    constructor
    · rintro ⟨⟨hordered, -, hle⟩, hall, -⟩
      have hsize : ∀ x ∈ sections, x ≤ info.size := fun x hx => hle x hx _ (by simp)
      have hlast : place ≤ info.size := by
        have hb := (hboundary place).mp (hall place (by simp))
        simp only [List.mem_cons, List.mem_append, List.not_mem_nil, or_false] at hb
        rcases hb with hb | (hb | hb) | hb
        · omega
        · exact hsize place hb
        · exact Nat.le_of_lt (hinside place (List.mem_append.mpr hb)).2
        · exact Nat.le_of_eq hb
      refine ⟨List.pairwise_append.mpr ⟨hordered, by simp, fun x hx y hy => ?_⟩, fun x hx => ?_⟩
      · obtain rfl := List.mem_singleton.mp hy
        by_cases hlt : y < info.size
        · exact hle x hx y (List.mem_append_left _ (hwalked.mem_filled htail heven hlt))
        · exact Nat.le_trans (hsize x hx) (Nat.le_of_not_lt hlt)
      · rcases List.mem_append.mp hx with hx | hx
        · exact hsize x hx
        · rw [List.mem_singleton.mp hx]
          exact hlast
    · rintro ⟨hordered, hle⟩
      obtain ⟨hordered, -, hbefore⟩ := List.pairwise_append.mp hordered
      have hlast : place ≤ info.size := hle place (by simp)
      refine ⟨⟨hordered, hwalked.pairwise_filled htail, fun x hx y hy => ?_⟩, fun x hx => ?_,
        hvisited⟩
      · rcases List.mem_append.mp hy with hy | hy
        · exact Nat.le_trans (hbefore x hx place (by simp)) (hinside y hy).1
        · rw [List.mem_singleton.mp hy]
          exact hle x (List.mem_append_left _ hx)
      · rcases List.mem_append.mp hx with hx | hx
        · exact hsections x hx
        · rw [List.mem_singleton.mp hx, hboundary]
          by_cases hlt : place < info.size
          · exact List.mem_cons_of_mem _ (List.mem_append_left _
              (List.mem_append_right _ (hwalked.mem_filled htail heven hlt)))
          · rw [show place = info.size by omega]
            simp

end Program

/-- A device that always answers with these bytes. -/
def answering (bytes : List UInt8) : Bmc Unit := fun _ _ => (some (Reply.of bytes), ())

/-- The internal use area is at 40, the chassis section at 24: the block of the internal use area
starts at 40 and ends at 24. -/
theorem sections_reversed : ∃ header info' blocks w',
    headerOf (Reply.of [8, 1, 5, 3, 0, 0, 0, 0, 0xf7]) = some header ∧
    buildBlocks (answering [8, 1, 5, 3, 0, 0, 0, 0, 0xf7]) ⟨34, 34⟩ 0 ⟨64, false, 0,
      0⟩ ⟨(), (), []⟩ =
      .ok ((info', blocks), w') ∧ ⟨40, 24⟩ ∈ blocks ∧ ¬ Partition 64 blocks := by
  obtain ⟨⟨info', blocks⟩, w', h, hp⟩ :=
    exists_of_returns (x := buildBlocks (answering [8, 1, 5, 3, 0, 0, 0, 0, 0xf7])
      ⟨34, 34⟩ 0 ⟨64, false, 0, 0⟩) (s := ⟨(), (), []⟩)
      (p := fun r _ => r.2.any fun b => b.start = 40 && b.stop = 24) (by decide +kernel)
  obtain ⟨⟨start, stop⟩, hb, heq⟩ := List.any_eq_true.mp hp
  simp only [Bool.and_eq_true, decide_eq_true_eq] at heq
  obtain ⟨rfl, rfl⟩ := heq
  refine ⟨[1, 5, 3, 0, 0, 0, 0, 0xf7], info', blocks, w', rfl, h, hb, fun hpartition => ?_⟩
  exact absurd (hpartition.ordered _ hb) (by decide)

/-- In the right order there is a partition. -/
theorem partition_iff_in_order : ∃ info' blocks w',
    buildBlocks (answering [8, 1, 3, 5, 0, 0, 0, 0, 0xf7]) ⟨34, 34⟩ 0 ⟨64, false, 0,
      0⟩ ⟨(), (), []⟩ =
      .ok ((info', blocks), w') ∧ Partition 64 blocks ∧ Boundary blocks 24 ∧
      Boundary blocks 40 := by
  obtain ⟨⟨info', blocks⟩, w', h, -⟩ :=
    exists_of_returns (x := buildBlocks (answering [8, 1, 3, 5, 0, 0, 0, 0, 0xf7])
      ⟨34, 34⟩ 0 ⟨64, false, 0, 0⟩) (s := ⟨(), (), []⟩) (p := fun _ _ => true) (by decide +kernel)
  have hheader : (answering [8, 1, 3, 5, 0, 0, 0, 0,
      0xf7] () (readRequest 0 false 0 8)).1.bind headerOf =
      some [1, 3, 5, 0, 0, 0, 0, 0xf7] := rfl
  obtain ⟨hpartition, hsections, -⟩ :=
    (partition_iff (w := ⟨(), (), []⟩) hheader h).mpr ⟨by decide, by decide⟩
  exact ⟨info', blocks, w', h, hpartition, hsections 24 (by decide), hsections 40 (by decide)⟩

end Ipmitool.Fru.Blocks
