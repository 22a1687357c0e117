import Ipmitool.Ekanalyzer.Bodies
import Mathlib.Data.List.GetD

/-! # Keying matches

`matchingLink` and `physical` of `cmd/ekanalyzer.zig` say whether two links can be connected, and
`compareAmc` reports what the links of two modules have to do with each other: pairs, and links
without a partner. Memory is taken to be there.

A report is a list of entries. The links of the first module are all listed as unmatched, those in
pairs too, so that the two lists of the report are a partition of the links only where there is no
pair at all (`compareAmc_partitioned_iff`). -/

namespace Ipmitool.Ekanalyzer.Matching

open Ipmitool.Ekanalyzer.Bodies Ipmitool.Lib.Slices

/-! ### The code -/

/-- The option of the command, as far as the reports go. -/
inductive SummaryOption where
  | default
  | matched
  | unmatch
  | all
  deriving DecidableEq

/-- `@popCount` of the flags. -/
def popCount (flags : BitVec 4) : ℕ := (List.range 4).countP fun i => flags.getLsbD i

/-- The identifiers of 16 bytes. -/
def guidsOf (guids : List UInt8) : List (List UInt8) :=
  (List.range (guids.length / 16)).map fun i => (guids.drop (16 * i)).take 16

/-- A type for which the identifiers count. -/
def isOem (typ : UInt8) : Bool := 0xf0 ≤ typ ∧ typ ≤ 0xfe

/-- `matchingLink`. -/
def matchingLink (a : Amc) (l : Link) (b : Amc) (r : Link) : Bool :=
  if l.typ ≠ r.typ ∨ l.ext ≠ r.ext ∨ popCount l.flags ≠ popCount r.flags ∨
      (l.asym ≠ 0 ∧ r.asym ≠ 0 ∧ l.asym &&& r.asym ≠ 0) then false
  else if isOem l.typ ∧ (a.guids ≠ [] ∨ b.guids ≠ []) then
    (guidsOf a.guids).any fun guid => (guidsOf b.guids).any fun other => guid = other
  else true

/-- The port of a lane. -/
def lane (channel : Channel) (i : ℕ) : UInt8 := channel.lanes.toList.getD i 0

/-- The loop over the lanes, with the lanes that are left: every lane in use has its port. -/
def lanesFit (ports : List Port) (start : ℕ) (firstAmc : Bool) (l r : Channel) : ℕ → ℕ → Bool
  | 0, _ => false
  | left + 1, i =>
    if lane l i = 31 then false
    else
      match ports[start + i]? with
      | none => false
      | some p =>
        if lane l i ≠ (if firstAmc then p.localPort else p.remote) ∨
            lane r i ≠ (if firstAmc then p.remote else p.localPort) then false
        else if i = 3 ∨ lane l (i + 1) = 31 then true
        else lanesFit ports start firstAmc l r left (i + 1)

/-- The body of the loops of `physical`, for a port: whether it connects the channels, and whether
that is worth a line. -/
def connectionAt (siteA siteB : UInt8) (l r : Channel) (resource : Resource) (port : Port)
    (start : ℕ) : Option Bool :=
  if (resource.id = siteA ∧ port.resource = siteB) ∨
    (resource.id = siteB ∧ port.resource = siteA) then
    if lane l 0 = 31 then some false
    else if lanesFit resource.ports start (resource.id &&& 0x80 ≠ 0) l r 4 0 then some true
    else none
  else none

/-- The site of a module: on the carrier it is the resource of the second module. -/
def site (kind : UInt8) (b : Amc) : UInt8 := if kind = 9 then b.resource else 0x80 ||| kind

/-- The loops of `physical`: the first connection. -/
def connection (carrier : List UInt8) (a : Amc) (ia : ℕ) (b : Amc) (ib : ℕ) (kindA kindB : UInt8) :
    Except Fault (Option Bool) :=
  match a.channels[ia]?, b.channels[ib]? with
  | some l, some r => do
    let resources ← resources carrier
    return (resources.getD []).findSome? fun resource =>
      resource.ports.zipIdx.findSome? fun port =>
        connectionAt (site kindA b) (site kindB b) l r resource port.1 port.2
  | _, _ => .ok none

inductive Side where
  | a
  | b
  deriving DecidableEq

inductive Label where
  | source
  | target
  | none
  deriving DecidableEq

/-- What `showLink` shows, and `showGuids` behind it. -/
structure Shown where
  side : Side
  index : ℕ
  kind : UInt8
  resource : UInt8
  label : Label
  link : Link
  guids : Option (List UInt8)
  deriving DecidableEq

/-- `showLink`, for a link of a module. -/
def showLink (side : Side) (kind : UInt8) (amc : Amc) (label : Label) (index : ℕ)
    (link : Link) : Shown where
  side := side
  index := index
  kind := kind
  resource := amc.resource
  label := label
  link := link
  guids := if isOem link.typ then some amc.guids else none

/-- An entry of a report. -/
inductive Entry where
  | noCarrier
  | route (kindA portA kindB portB : UInt8)
  | matching (grouped : Bool) (source target : Shown)
  | unmatching
  | link (shown : Shown)
  deriving DecidableEq

/-- `physical`; the carrier is the body of its record. -/
def physical (carrier : Option (List UInt8)) (a : Amc) (ia : ℕ) (b : Amc) (ib : ℕ)
    (kindA kindB : UInt8) (option : SummaryOption) : Except Fault (Bool × List Entry) :=
  match carrier with
  | none => .ok (false, [.noCarrier])
  | some body => do
    match ← connection body a ia b ib kindA kindB with
    | none => return (false, [])
    | some shown =>
      let l := (a.channels[ia]?.map (lane · 0)).getD 0
      let r := (b.channels[ib]?.map (lane · 0)).getD 0
      return (true, if shown ∧ option ≠ .unmatch then [.route kindA l kindB r] else [])

section Compare

variable (carrier : Option (List UInt8)) (a b : Amc) (kindB kindA : UInt8) (option : SummaryOption)

/-- The index of the channel of a link: from the channel of the first link on. -/
def channelIndex (links : List Link) (link : Link) : ℕ :=
  link.channel.toNat - (links.head?.map fun first => first.channel.toNat).getD 0

/-- Both links are in groups, or both are not. -/
def sameGrouping (left right : Link) : Bool :=
  (left.group = 0 ∧ right.group = 0) ∨ (left.group ≠ 0 ∧ right.group ≠ 0)

/-- The inner loop of `compareAmc`: the first partner of a link, and what is reported. -/
def findPartner (left : Link) (i : ℕ) : List Link → ℕ → Except Fault (Option ℕ × List Entry)
  | [], _ => .ok (none, [])
  | right :: rest, j =>
    if ¬ sameGrouping left right then findPartner left i rest (j + 1)
    else if ¬ matchingLink a left b right then findPartner left i rest (j + 1)
    else do
      let (connected, entries) ← physical carrier a (channelIndex a.links left) b
        (channelIndex b.links right)
        kindA kindB option
      if connected then
        return (some j, entries ++ if option = .unmatch then [] else
          [.matching (left.group ≠ 0) (showLink .b kindB b .source j right)
            (showLink .a kindA a .target i left)])
      else
        let (partner, more) ← findPartner left i rest (j + 1)
        return (partner, entries ++ more)

/-- The outer loop, with `matched`. -/
def pairLinks : List Link → ℕ → List Bool → Except Fault (List Bool × List Entry)
  | [], _, matched => .ok (matched, [])
  | left :: rest, i, matched => do
    let (partner, entries) ← findPartner carrier a b kindB kindA option left i b.links 0
    let (result, more) ← pairLinks rest (i + 1) (partner.elim matched fun j => matched.set j true)
    return (result, entries ++ more)

/-- The lists at the end of the report. -/
def unmatchedEntries (matched : List Bool) : List Entry :=
  a.links.zipIdx.map (fun p => .link (showLink .a kindA a .none p.2 p.1)) ++
    (b.links.zipIdx.filter fun p => ¬ matched.getD p.2 false).map
      fun p => .link (showLink .b kindB b .none p.2 p.1)

/-- `compareAmc`. -/
def compareAmc : Except Fault (List Entry) := do
  let (matched, entries) ← pairLinks carrier a b kindB kindA option a.links 0
      (List.replicate b.links.length false)
  if option = .all ∨ option = .unmatch then
    return entries ++ .unmatching :: unmatchedEntries a b kindB kindA matched
  else return entries

end Compare

/-! ### What a report says -/

/-- The pair of an entry: its link of the first module and its link of the second. -/
def Entry.pair : Entry → Option (ℕ × ℕ)
  | .matching _ source target => some (target.index, source.index)
  | _ => none

/-- The link that an entry lists as unmatched. -/
def Entry.listed : Entry → Option (Side × ℕ)
  | .link shown => some (shown.side, shown.index)
  | _ => none

def pairs (report : List Entry) : List (ℕ × ℕ) := report.filterMap Entry.pair

def listed (report : List Entry) : List (Side × ℕ) := report.filterMap Entry.listed

theorem pairs_append (r s : List Entry) : pairs (r ++ s) = pairs r ++ pairs s :=
  List.filterMap_append

theorem listed_append (r s : List Entry) : listed (r ++ s) = listed r ++ listed s :=
  List.filterMap_append

/-- The end of a pair. -/
def endOn : Side → ℕ × ℕ → ℕ
  | .a => Prod.fst
  | .b => Prod.snd

/-- The links of a module that are in pairs. -/
def paired (report : List Entry) (side : Side) : List ℕ := (pairs report).map (endOn side)

def linksOf (a b : Amc) : Side → List Link
  | .a => a.links
  | .b => b.links

/-- The reports with their options are a partition of the links. -/
structure Partition (a b : Amc) (all matched unmatch : List Entry) : Prop where
  exactlyOne : ∀ side, ∀ index < (linksOf a b side).length,
    Xor (index ∈ paired all side) ((side, index) ∈ listed all)
  once : ∀ side, (paired all side).Nodup
  complement : ∀ side index, (side, index) ∈ listed unmatch ↔
    index < (linksOf a b side).length ∧ index ∉ paired matched side

section Compare

variable (carrier : Option (List UInt8)) (a b : Amc) (kindB kindA : UInt8)

/-- `compareAmc` reports a partition. -/
def Partitioned : Prop := ∃ all matched unmatch, compareAmc carrier a b kindB kindA .all = .ok all ∧
  compareAmc carrier a b kindB kindA .matched = .ok matched ∧
  compareAmc carrier a b kindB kindA .unmatch = .ok unmatch ∧ Partition a b all matched unmatch

/-- The carrier connects the channels of two links. -/
def Connected (left right : Link) : Prop := ∃ body shown, carrier = some body ∧
  connection body a (channelIndex a.links left) b (channelIndex b.links right) kindA kindB =
    .ok (some shown)

/-- Two links can be a pair. -/
def Compatible (left right : Link) : Prop :=
  sameGrouping left right = true ∧ matchingLink a left b right = true ∧
    Connected carrier a b kindB kindA left right

theorem connection_ok (body : List UInt8) (a : Amc) (ia : ℕ) (b : Amc) (ib : ℕ)
    (kindA kindB : UInt8) :
    ∃ out, connection body a ia b ib kindA kindB = .ok out := by
  obtain ⟨resources, hresources, -⟩ := resources_ok body
  unfold connection
  split
  · rw [hresources]
    exact ⟨_, rfl⟩
  · exact ⟨_, rfl⟩

theorem physical_ok (option : SummaryOption) (left right : Link) :
    ∃ connected entries, physical carrier a (channelIndex a.links left) b
      (channelIndex b.links right) kindA kindB
      option = .ok (connected, entries) ∧ pairs entries = [] ∧ listed entries = [] ∧
      (connected = true ↔ Connected carrier a b kindB kindA left right) := by
  cases carrier with
  | none =>
    refine ⟨false, [.noCarrier], rfl, rfl, rfl, iff_of_false Bool.false_ne_true ?_⟩
    rintro ⟨body, shown, hbody, -⟩
    cases hbody
  | some body =>
    obtain ⟨out, hout⟩ :=
      connection_ok body a (channelIndex a.links left) b (channelIndex b.links right) kindA kindB
    rw [physical, hout]
    cases out with
    | none =>
      refine ⟨false, [], rfl, rfl, rfl, iff_of_false Bool.false_ne_true ?_⟩
      rintro ⟨body', shown, hbody, hshown⟩
      cases hbody
      rw [hout] at hshown
      cases hshown
    | some shown =>
      refine ⟨true, _, rfl, ?_, ?_, iff_of_true rfl ⟨body, shown, rfl, hout⟩⟩
      · split_ifs <;> rfl
      · split_ifs <;> rfl

variable (option : SummaryOption) (left : Link) (i : ℕ)

/-- What the inner loop finds for a link, and what it reports. -/
def Found (links : List Link) (partner : Option ℕ) (entries : List Entry) : Prop :=
  listed entries = [] ∧
    ((partner = none ∧ pairs entries = [] ∧ ∀ right ∈ links,
      ¬ Compatible carrier a b kindB kindA left right) ∨
      ∃ k, partner = some k ∧ (option ≠ .unmatch → pairs entries = [(i, k)]) ∧
        ∃ right ∈ links, Compatible carrier a b kindB kindA left right)

variable {carrier a b kindB kindA option left i}

theorem Found.skip {rest : List Link} {partner : Option ℕ} {more : List Entry} {right : Link}
    (h : Found carrier a b kindB kindA option left i rest partner more) {entries : List Entry}
    (hpairs : pairs entries = []) (hlisted : listed entries = [])
    (hnot : ¬ Compatible carrier a b kindB kindA left right) :
    Found carrier a b kindB kindA option left i (right :: rest) partner (entries ++ more) := by
  obtain ⟨hmore, hpartner⟩ := h
  rw [Found, listed_append, pairs_append, hpairs, hlisted, List.nil_append, List.nil_append]
  refine ⟨hmore, ?_⟩
  rcases hpartner with ⟨hnone, hno, hall⟩ | ⟨k, hk, hpair, right', hmem, hfits⟩
  · exact .inl ⟨hnone, hno, List.forall_mem_cons.mpr ⟨hnot, hall⟩⟩
  · exact .inr ⟨k, hk, hpair, right', List.mem_cons_of_mem _ hmem, hfits⟩

variable (carrier a b kindB kindA option left i) in
/-- **The inner loop**: it pairs the link with one of the others, if there is one that fits. -/
theorem findPartner_ok : ∀ (links : List Link) (j : ℕ), ∃ partner entries,
    findPartner carrier a b kindB kindA option left i links j = .ok (partner, entries) ∧
      Found carrier a b kindB kindA option left i links partner entries
  | [], j => ⟨none, [], rfl, rfl, .inl ⟨rfl, rfl, List.forall_mem_nil _⟩⟩
  | right :: rest, j => by
    obtain ⟨partner, more, hrest, hfound⟩ := findPartner_ok rest (j + 1)
    obtain ⟨connected, entries, hphysical, hpairs, hlisted, hconnected⟩ :=
      physical_ok carrier a b kindB kindA option left right
    have hskip : ¬ Compatible carrier a b kindB kindA left right →
        Found carrier a b kindB kindA option left i (right :: rest) partner ([] ++ more) :=
      hfound.skip rfl rfl
    rw [findPartner]
    by_cases hgroup : sameGrouping left right = true
    · by_cases hmatch : matchingLink a left b right = true
      · rw [if_neg (not_not.mpr hgroup), if_neg (not_not.mpr hmatch), hphysical, ok_bind, hrest]
        dsimp only
        cases connected with
        | true =>
          refine ⟨some j, _, rfl, ?_, .inr ⟨j, rfl, fun hoption => ?_, right, List.mem_cons_self,
            hgroup, hmatch, hconnected.mp rfl⟩⟩
          · rw [listed_append, hlisted]
            split_ifs <;> rfl
          · rw [pairs_append, hpairs, if_neg hoption]
            rfl
        | false =>
          have hnot : ¬ Compatible carrier a b kindB kindA left right := fun h =>
            Bool.false_ne_true (hconnected.mpr h.2.2)
          exact ⟨partner, entries ++ more, rfl, hfound.skip hpairs hlisted hnot⟩
      · rw [if_neg (not_not.mpr hgroup), if_pos hmatch, hrest]
        exact ⟨partner, more, rfl, hskip fun h => hmatch h.2.1⟩
    · rw [if_pos hgroup, hrest]
      exact ⟨partner, more, rfl, hskip fun h => hgroup h.1⟩

variable (carrier a b kindB kindA option) in
/-- **The outer loop**: without links that fit nothing is paired, and any link that fits another
is. -/
theorem pairLinks_ok : ∀ (links : List Link) (i : ℕ) (matched : List Bool), ∃ result entries,
    pairLinks carrier a b kindB kindA option links i matched = .ok (result, entries) ∧
      listed entries = [] ∧
      ((∀ left ∈ links, ∀ right ∈ b.links, ¬ Compatible carrier a b kindB kindA left right) →
        result = matched ∧ pairs entries = []) ∧
      (option ≠ .unmatch → ∀ n left, links[n]? = some left → ∀ right ∈ b.links,
        Compatible carrier a b kindB kindA left right → ∃ k, (i + n, k) ∈ pairs entries)
  | [], i, matched => ⟨matched, [], rfl, rfl, fun _ => ⟨rfl, rfl⟩, fun _ n left h => by simp at h⟩
  | left :: rest, i, matched => by
    obtain ⟨partner, entries, hfind, hlisted, hpartner⟩ :=
  findPartner_ok carrier a b kindB kindA option left i b.links 0
    obtain ⟨result, more, hrest, hmore, hnone, hsome⟩ :=
      pairLinks_ok rest (i + 1) (partner.elim matched fun j => matched.set j true)
    refine ⟨result, entries ++ more, ?_, ?_, fun hall => ?_,
      fun hoption n left' hget right hmem hfits => ?_⟩
    · rw [pairLinks, hfind, ok_bind]
      dsimp only
      rw [hrest]
      rfl
    · rw [listed_append, hlisted, hmore, List.nil_append]
    · obtain ⟨hleft, hall⟩ := List.forall_mem_cons.mp hall
      obtain ⟨hresult, hpairs⟩ := hnone hall
      rcases hpartner with ⟨rfl, hno, -⟩ | ⟨k, -, -, right, hmem, hfits⟩
      · exact ⟨hresult, by rw [pairs_append, hno, hpairs, List.nil_append]⟩
      · exact absurd hfits (hleft right hmem)
    · rw [pairs_append]
      cases n with
      | zero =>
        obtain rfl : left = left' := Option.some.inj hget
        rcases hpartner with ⟨-, -, hall⟩ | ⟨k, -, hpair, -⟩
        · exact absurd hfits (hall right hmem)
        · exact ⟨k, List.mem_append_left _ (by rw [hpair hoption]; exact List.mem_cons_self)⟩
      | succ n =>
        obtain ⟨k, hk⟩ := hsome hoption n left' hget right hmem hfits
        refine ⟨k, List.mem_append_right _ ?_⟩
        rwa [← Nat.add_assoc, Nat.add_right_comm]

theorem listed_links (side : Side) (kind : UInt8) (amc : Amc) (links : List (Link × ℕ)) :
    listed (links.map fun p => .link (showLink side kind amc .none p.2 p.1)) = links.map fun p =>
      (side, p.2) := by
  rw [listed, List.filterMap_map]
  exact List.filterMap_eq_map_iff_forall_eq_some.mpr fun _ _ => rfl

theorem mem_indices {links : List (Link × ℕ)} {side side' : Side} {index : ℕ} :
    (side, index) ∈ links.map (fun p => (side', p.2)) ↔
    side = side' ∧ ∃ link, (link, index) ∈ links := by
  simp only [List.mem_map, Prod.mk.injEq, Prod.exists]
  constructor
  · rintro ⟨link, _, hmem, rfl, rfl⟩
    exact ⟨rfl, link, hmem⟩
  · rintro ⟨rfl, link, hmem⟩
    exact ⟨link, index, hmem, rfl, rfl⟩

theorem exists_mem_zipIdx {links : List Link} {index : ℕ} :
    (∃ link, (link, index) ∈ links.zipIdx) ↔ index < links.length := by
  simp only [List.mk_mem_zipIdx_iff_getElem?, List.getElem?_eq_some_iff]
  constructor
  · rintro ⟨_, h, -⟩
    exact h
  · exact fun h => ⟨_, h, rfl⟩

variable (a b kindB kindA) in
theorem mem_unmatchedEntries (matched : List Bool) (side : Side) (index : ℕ) :
    (side, index) ∈ listed (.unmatching :: unmatchedEntries a b kindB kindA matched) ↔
      index < (linksOf a b side).length ∧ (side = .b → matched.getD index false = false) := by
  have hlisted : listed (.unmatching :: unmatchedEntries a b kindB kindA matched) =
      a.links.zipIdx.map (fun p => (Side.a, p.2)) ++
        (b.links.zipIdx.filter fun p => ¬ matched.getD p.2 false).map fun p => (Side.b, p.2) := by
    rw [← listed_links .a kindA a, ← listed_links .b kindB b, ← listed_append]
    rfl
  have hfilter : (∃ link, (link, index) ∈ b.links.zipIdx.filter fun p => ¬ matched.getD p.2 false) ↔
      index < b.links.length ∧ matched.getD index false = false := by
    simp only [List.mem_filter, exists_and_right, exists_mem_zipIdx, decide_eq_true_iff,
      Bool.not_eq_true]
  rw [hlisted, List.mem_append, mem_indices, mem_indices, exists_mem_zipIdx, hfilter]
  cases side <;> simp [linksOf]

variable (a b kindB kindA) in
theorem pairs_unmatchedEntries (matched : List Bool) :
    pairs (.unmatching :: unmatchedEntries a b kindB kindA matched) = [] := by
  refine List.filterMap_eq_nil_iff.mpr fun entry h => ?_
  rcases List.mem_cons.mp h with rfl | h
  · rfl
  · rcases List.mem_append.mp h with h | h
    · obtain ⟨_, -, rfl⟩ := List.mem_map.mp h
      rfl
    · obtain ⟨_, -, rfl⟩ := List.mem_map.mp h
      rfl

theorem not_partitioned {left right : Link} (hleft : left ∈ a.links) (hright : right ∈ b.links)
    (hfits : Compatible carrier a b kindB kindA left right) :
    ¬ Partitioned carrier a b kindB kindA := by
  rintro ⟨all, _, _, hall, -, -, hpartition⟩
  obtain ⟨n, hn, hget⟩ := List.getElem_of_mem hleft
  obtain ⟨result, entries, hpairs, -, -, hpaired⟩ :=
    pairLinks_ok carrier a b kindB kindA .all a.links 0 (List.replicate b.links.length false)
  rw [compareAmc, hpairs] at hall
  obtain rfl : entries ++ .unmatching :: unmatchedEntries a b kindB kindA result = all :=
    Except.ok.inj hall
  have hlisted : (Side.a, n) ∈ listed (entries ++ .unmatching ::
      unmatchedEntries a b kindB kindA result) := by
    rw [listed_append]
    exact List.mem_append_right _ ((mem_unmatchedEntries a b kindB kindA result .a n).mpr ⟨hn,
      fun h => nomatch h⟩)
  have hpair : n ∈ paired (entries ++ .unmatching ::
      unmatchedEntries a b kindB kindA result) .a := by
    obtain ⟨k, hk⟩ :=
      hpaired (by decide) n left (List.getElem?_eq_some_iff.mpr ⟨hn, hget⟩) right hright hfits
    rw [Nat.zero_add] at hk
    rw [paired, pairs_append]
    exact List.mem_map.mpr ⟨(n, k), List.mem_append_left _ hk, rfl⟩
  rcases hpartition.exactlyOne .a n hn with ⟨-, hnot⟩ | ⟨-, hnot⟩
  · exact hnot hlisted
  · exact hnot hpair

/-- Without a pair every link is listed as unmatched, and no pair is shown. -/
theorem partitioned_of_incompatible
    (h : ∀ left ∈ a.links, ∀ right ∈ b.links, ¬ Compatible carrier a b kindB kindA left right) :
    Partitioned carrier a b kindB kindA := by
  have hrun : ∀ option, ∃ entries, pairs entries = [] ∧ listed entries = [] ∧
      compareAmc carrier a b kindB kindA option = .ok (if option = .all ∨ option = .unmatch then
        entries ++ .unmatching :: unmatchedEntries a b kindB kindA
          (List.replicate b.links.length false)
      else entries) := by
    intro option
    obtain ⟨result, entries, hpairs, hlisted, hnone, -⟩ :=
      pairLinks_ok carrier a b kindB kindA option a.links 0 (List.replicate b.links.length false)
    obtain ⟨rfl, hno⟩ := hnone h
    refine ⟨entries, hno, hlisted, ?_⟩
    rw [compareAmc, hpairs, ok_bind]
    dsimp only
    split_ifs <;> rfl
  obtain ⟨all, hpairs, hlisted, hall⟩ := hrun .all
  obtain ⟨matched, hmatched, -, hmatch⟩ := hrun .matched
  obtain ⟨unmatch, -, hunmatch, hlast⟩ := hrun .unmatch
  have hnone : ∀ index, (List.replicate b.links.length false).getD index false = false := by
    intro index
    rw [List.getD_eq_getElem?_getD, List.getElem?_getD_replicate_default_eq]
  have hlist : ∀ entries, listed entries = [] → ∀ side index, (side, index) ∈ listed (entries ++
      .unmatching :: unmatchedEntries a b kindB kindA (List.replicate b.links.length false)) ↔
      index < (linksOf a b side).length := by
    intro entries hentries side index
    rw [listed_append, hentries, List.nil_append, mem_unmatchedEntries]
    exact and_iff_left fun _ => hnone index
  have hpaired : ∀ entries, pairs entries = [] → ∀ side, paired (entries ++
      .unmatching :: unmatchedEntries a b kindB kindA (List.replicate b.links.length false)) side =
      [] := by
    intro entries hentries side
    rw [paired, pairs_append, hentries, List.nil_append, pairs_unmatchedEntries, List.map_nil]
  refine ⟨_, _, _, hall, hmatch, hlast, ⟨?_, ?_, ?_⟩⟩
  · intro side index hindex
    rw [if_pos (.inl rfl), hpaired all hpairs]
    exact .inr ⟨(hlist all hlisted side index).mpr hindex, List.not_mem_nil⟩
  · intro side
    rw [if_pos (.inl rfl), hpaired all hpairs]
    exact List.nodup_nil
  · intro side index
    rw [if_pos (.inr rfl), if_neg (by decide), hlist unmatch hunmatch, paired, hmatched]
    exact (and_iff_left List.not_mem_nil).symm

/-- **The reports**: they are a partition of the links where no link fits another, and only
there. -/
theorem compareAmc_partitioned_iff (carrier : Option (List UInt8)) (a b : Amc)
    (kindB kindA : UInt8) :
    Partitioned carrier a b kindB kindA ↔
      ∀ left ∈ a.links, ∀ right ∈ b.links, ¬ Compatible carrier a b kindB kindA left right :=
  ⟨fun h _ hleft _ hright hfits => not_partitioned hleft hright hfits h,
    partitioned_of_incompatible⟩

end Compare

/-! ### A link in both lists -/

/-- A carrier that connects the first slot with resource 0, by port 0 on both sides. -/
def slotCarrier : List UInt8 := [0x5a, 0x31, 0x00, 0x18, 0x00, 0x81, 1, 0, 0, 0]

/-- A module with one link, on port 0. -/
def oneLink (resource : UInt8) : Amc where
  resource := resource
  guids := []
  channels := [.of 0 31 31 31]
  links := [⟨0, 1, 2, 0, 0, 0⟩]

theorem oneLink_compatible :
    Compatible (some slotCarrier) (oneLink 0x81)
      (oneLink 0) 9 1 ⟨0, 1, 2, 0, 0, 0⟩ ⟨0, 1, 2, 0, 0, 0⟩ := by
  refine ⟨by decide, by decide, slotCarrier, true, rfl, ?_⟩
  decide +kernel

theorem not_partitioned_oneLink : ¬ Partitioned (some slotCarrier) (oneLink 0x81) (oneLink 0) 9 1 :=
  not_partitioned List.mem_cons_self List.mem_cons_self oneLink_compatible

end Ipmitool.Ekanalyzer.Matching
