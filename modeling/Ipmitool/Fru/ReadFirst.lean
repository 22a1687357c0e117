import Ipmitool.Fru.Edit

/-! # A failed read and the write after it

What a read delivered is seen in the exchanges. A request that delivers less than it asks for is
made up for if the next request asks for the bytes that are missing; this is how `readArea` goes on.
The exchanges are `intact` if every such request is made up for.

`edit_reads_first`: if the answers are `Regular`, and the read of the whole image in
`editFieldRebuild` is answered, then nothing is written unless the reads before are intact. -/

namespace Ipmitool.Fru.ReadFirst

open Ipmitool.Lib Ipmitool.Lib.Mem Ipmitool.Lib.Bytes Ipmitool.Lib.Machine Ipmitool.Lib.Dialogue
open Ipmitool.Core.Types Ipmitool.Core.Interface Ipmitool.Fru.Transfer Ipmitool.Fru.Edit

/-! ### What was delivered -/

def isRead (x : Exchange) : Bool := x.1.netfn = netfnStorage ∧ x.1.cmd = 0x11

def isWrite (x : Exchange) : Bool := x.1.netfn = netfnStorage ∧ x.1.cmd = 0x12

/-- How the device is accessed, after an exchange: by words if its last answer about itself says
so. -/
def accessOf (a : Bool) (x : Exchange) : Bool :=
  if x.1.cmd = 0x10 then ((x.2.bind infoOf).map Info.access).getD a else a

/-- The number of bytes that a read asks for. -/
def requested (x : Exchange) : ℕ := (x.1.data.getD 3 0).toNat

/-- Where a read begins, on the wire. -/
def place (x : Exchange) : UInt16 := ofLe16 (x.1.data.getD 1 0) (x.1.data.getD 2 0)

/-- The response has the bytes that it says it has. -/
def carries (a : Bool) (r : Reply) : Bool := r.ccode = 0 ∧ countOf a r < r.dataLen

/-- What a response delivers, in the units of the wire. -/
def units (a : Bool) (o : Option Reply) : ℕ :=
  match o with
  | none => 0
  | some r => if carries a r then (r.data 0).toNat else 0

/-- The number of bytes that a response delivers. -/
def delivered (a : Bool) (o : Option Reply) : ℕ := if a then 2 * units a o else units a o

/-- A read that delivers less than it asks for. -/
def short (a : Bool) (x : Exchange) : Bool := isRead x ∧ delivered a x.2 < requested x

/-- The next request asks for what is missing. -/
def followed (a : Bool) (x : Exchange) (rest : List Exchange) : Bool :=
  rest.head?.any fun y => isRead y ∧ place y = place x + UInt16.ofNat (units a x.2)

/-- Every read delivers what it asks for, or is made up for. -/
def intact : Bool → List Exchange → Bool
  | _, [] => true
  | a, x :: rest => (!short a x || followed a x rest) && intact (accessOf a x) rest

/-! ### Answers -/

/-- A successful answer is not empty if bytes were asked for, and an answer that is long enough for
the header says that it has the header. -/
def regular (a : Bool) (x : Exchange) : Prop := isRead x = true → ∀ r, x.2 = some r → r.ccode = 0 →
  (1 ≤ r.dataLen → 0 < requested x → r.data 0 ≠ 0) ∧
  (place x = 0 → requested x = 8 → 9 ≤ r.dataLen → 8 ≤ countOf a r ∧ countOf a r < r.dataLen)

/-- All answers are regular. -/
def Regular : Bool → List Exchange → Prop
  | _, [] => True
  | a, x :: rest => regular a x ∧ Regular (accessOf a x) rest

/-- A read is answered: with bytes, or because it asks for more than eight bytes and these are too
many. -/
def answered (a : Bool) (x : Exchange) : Prop := ∃ r, x.2 = some r ∧
  (carries a r = true ∨ (isTooLarge r.ccode = true ∧ 8 < requested x))

theorem regular_append {a : Bool} {xs ys : List Exchange} :
    Regular a (xs ++ ys) ↔ Regular a xs ∧ Regular (xs.foldl accessOf a) ys := by
  induction xs generalizing a with
  | nil => simp [Regular]
  | cons x xs ih => simp [Regular, ih, and_assoc]

theorem followed_append {a : Bool} {x : Exchange} {rest : List Exchange}
    (h : followed a x rest = true) (more : List Exchange) : followed a x (rest ++ more) = true := by
  rcases rest with _ | ⟨y, rest⟩
  · cases h
  · exact h

theorem intact_append {a : Bool} {xs ys : List Exchange} (hx : intact a xs = true)
    (hy : intact (xs.foldl accessOf a) ys = true) : intact a (xs ++ ys) = true := by
  induction xs generalizing a with
  | nil => exact hy
  | cons x xs ih =>
    obtain ⟨hfirst, hrest⟩ := (Bool.and_eq_true _ _).mp hx
    refine (Bool.and_eq_true _ _).mpr ⟨?_, ih hrest hy⟩
    rcases (Bool.or_eq_true _ _).mp hfirst with h | h
    · exact (Bool.or_eq_true _ _).mpr (.inl h)
    · exact (Bool.or_eq_true _ _).mpr (.inr (followed_append h ys))

/-! ### A transfer -/

theorem delivered_carries {a : Bool} {r : Reply} (h : carries a r = true) :
    delivered a (some r) = countOf a r := by
  simp [delivered, units, countOf, h]

theorem units_not_carries {a : Bool} {o : Option Reply} (h : ∀ r ∈ o, carries a r = false) :
    units a o = 0 := by
  rcases o with _ | r
  · rfl
  · simp [units, h r rfl]

section
variable {β : Type} {B : Bmc β} {env : Env} {w w' : CmdWorld Unit β}

theorem requested_readRequest (id : UInt8) (a : Bool) (off n : ℕ) (o : Option Reply) :
    requested (readRequest id a off n, o) ≤ n := by
  simp only [requested, readRequest, addressed, le16, List.cons_append, List.nil_append,
    List.getD_cons_succ, List.getD_cons_zero, UInt8.toNat_ofNat']
  exact Nat.mod_le _ _

theorem place_readRequest (id : UInt8) (a : Bool) (off n : ℕ) (o : Option Reply) :
    place (readRequest id a off n, o) = UInt16.ofNat (wireOffset a off) := by
  simp only [place, readRequest, addressed, le16, List.cons_append, List.nil_append,
    List.getD_cons_succ, List.getD_cons_zero]
  exact ofLe16_le16 _

theorem accessOf_readRequest (id : UInt8) (b a : Bool) (off n : ℕ) (o : Option Reply) :
    accessOf b (readRequest id a off n, o) = b := by
  rw [accessOf, if_neg (by simp [readRequest])]

theorem wireOffset_add (a : Bool) (off : ℕ) (r : Reply) :
    UInt16.ofNat (wireOffset a (off + countOf a r)) =
    UInt16.ofNat (wireOffset a off) + UInt16.ofNat (r.data 0).toNat := by
  rw [← UInt16.ofNat_add]
  congr 1
  rcases a with _ | _
  · simp [wireOffset, countOf]
  · simp only [wireOffset, countOf, if_true]
    omega

/-- What a transfer says: reads, of which the first is at the place where it begins. -/
def Reads (a : Bool) (off : ℕ) (evs : List Exchange) : Prop :=
  (∀ x ∈ evs, isRead x = true ∧ ∀ b, accessOf b x = b) ∧
    ∀ x ∈ evs.head?, place x = UInt16.ofNat (wireOffset a off)

theorem Reads.cons {a : Bool} {next : ℕ} {evs : List Exchange} (h : Reads a next evs) (id : UInt8)
    (off n : ℕ) (o : Option Reply) : Reads a off ((readRequest id a off n, o) :: evs) := by
  refine ⟨fun x hx => ?_, fun x hx => ?_⟩
  · rcases List.mem_cons.mp hx with rfl | hx
    · exact ⟨rfl, fun b => accessOf_readRequest id b a off n o⟩
    · exact h.1 x hx
  · rw [← Option.mem_some_iff.mp hx]
    exact place_readRequest id a off n o

theorem reads_nil (a : Bool) (off : ℕ) : Reads a off [] := ⟨by simp, by simp⟩

theorem Reads.foldl {a : Bool} {off : ℕ} {evs : List Exchange} (h : Reads a off evs) (b : Bool) :
    evs.foldl accessOf b = b := by
  have hall := h.1
  clear h
  induction evs with
  | nil => rfl
  | cons x xs ih =>
    rw [List.foldl_cons, (hall x List.mem_cons_self).2]
    exact ih fun y hy => hall y (List.mem_cons_of_mem _ hy)

/-- The rest of a transfer makes up for a request, if it says anything. -/
theorem followed_of_reads {a : Bool} {id : UInt8} {off n next : ℕ} {o : Option Reply}
    {evs : List Exchange} (h : Reads a next evs) (hne : evs ≠ [])
    (hnext : UInt16.ofNat (wireOffset a next) =
      UInt16.ofNat (wireOffset a off) + UInt16.ofNat (units a o)) :
    followed a (readRequest id a off n, o) evs = true := by
  rcases evs with _ | ⟨y, evs⟩
  · exact (hne rfl).elim
  · have hy := h.2 y rfl
    rw [hnext, ← place_readRequest id a off n o] at hy
    simp only [followed, List.head?_cons, Option.any_some, decide_eq_true_eq]
    exact ⟨(h.1 y List.mem_cons_self).1, hy⟩

/-- A request that is made up for, or that needs no making up for, and the rest of the transfer. -/
theorem intact_cons {a : Bool} {id : UInt8} {off n : ℕ} {o : Option Reply} {evs : List Exchange}
    (h : intact a evs = true)
    (hx : short a (readRequest id a off n, o) = false ∨
      followed a (readRequest id a off n, o) evs = true) :
    intact a ((readRequest id a off n, o) :: evs) = true := by
  rw [intact, accessOf_readRequest, h, Bool.and_true]
  rcases hx with hx | hx <;> rw [hx] <;> simp

theorem not_short {a : Bool} {id : UInt8} {off n : ℕ} {o : Option Reply} (h : n ≤ delivered a o) :
    short a (readRequest id a off n, o) = false := by
  have := requested_readRequest id a off n o
  simp only [short, decide_eq_false_iff_not, not_and]
  intro _
  omega

/-- The ways in which a turn of `readLoop` ends the loop: with an error, or when all was read or
nothing was delivered. -/
def Stops (info : Info) (left : ℕ) (o : Option Reply) (e : Option ReadError) : Prop :=
  (e ≠ none ∧ ∀ r ∈ o, (carries info.access r = true → left < countOf info.access r) ∧
    (isTooLarge r.ccode = true → info.maxRead ≤ 8)) ∨
  (e = none ∧ ∃ r, o = some r ∧ carries info.access r = true ∧
    (left ≤ countOf info.access r ∨ countOf info.access r = 0))

/-- A turn of `readLoop`: the loop stops, or a smaller piece is asked for, or the next one. -/
theorem readLoop_cases {id : UInt8} {base finish fuel : ℕ} {info : Info} {off : ℕ}
    {dest : Memory UInt8} {r : Read}
    (h : readLoop B id base finish (fuel + 1) info off dest w = .ok (r, w')) : ∃ o t,
      t.log = w.log ++ [(readRequest id info.access off (min (finish - off) info.maxRead), o)] ∧
      ((w' = t ∧ r.info = info ∧ Stops info (finish - off) o r.error) ∨
        ((∀ r ∈ o, carries info.access r = false) ∧ 8 < info.maxRead ∧
          readLoop B id base finish fuel { info with maxRead := smaller info.maxRead } off dest t =
            .ok (r, w')) ∨
        ∃ r' dest', o = some r' ∧ carries info.access r' = true ∧
          0 < countOf info.access r' ∧ off + countOf info.access r' < finish ∧
          readLoop B id base finish fuel info (off + countOf info.access r') dest' t =
            .ok (r, w')) := by
  obtain ⟨o, t, ht, h⟩ := bind_ok.mp h
  refine ⟨o, t, (ask_log ht).1, ?_⟩
  rcases o with _ | r'
  · obtain ⟨rfl, rfl⟩ := pure_ok.mp h
    exact .inl ⟨rfl, rfl, .inl ⟨by simp, by simp⟩⟩
  dsimp only at h
  by_cases hcc : r'.ccode = 0
  · have hlarge : isTooLarge r'.ccode = false := by rw [hcc]; decide
    rw [if_neg (by simpa using hcc)] at h
    by_cases hlen : r'.dataLen < 1
    · rw [if_pos hlen] at h
      obtain ⟨rfl, rfl⟩ := pure_ok.mp h
      refine .inl ⟨rfl, rfl, .inl ⟨by simp, fun r hr => ?_⟩⟩
      obtain rfl := Option.mem_some_iff.mp hr
      exact ⟨fun hc => by simp [carries] at hc; omega, fun hl => by rw [hlarge] at hl; cases hl⟩
    rw [if_neg hlen] at h
    by_cases hshort : r'.dataLen - 1 < countOf info.access r' ∨
      finish - off < countOf info.access r'
    · rw [if_pos hshort] at h
      obtain ⟨rfl, rfl⟩ := pure_ok.mp h
      refine .inl ⟨rfl, rfl, .inl ⟨by simp, fun r hr => ?_⟩⟩
      obtain rfl := Option.mem_some_iff.mp hr
      exact ⟨fun hc => by simp [carries] at hc; omega, fun hl => by rw [hlarge] at hl; cases hl⟩
    rw [if_neg hshort] at h
    have hcarries : carries info.access r' = true := by simp [carries, hcc]; omega
    by_cases hdone : finish ≤ off + countOf info.access r' ∨ countOf info.access r' = 0
    · rw [if_pos hdone] at h
      obtain ⟨rfl, rfl⟩ := pure_ok.mp h
      exact .inl ⟨rfl, rfl, .inr ⟨rfl, r', rfl, hcarries, by omega⟩⟩
    · rw [if_neg hdone] at h
      exact .inr (.inr ⟨r', _, rfl, hcarries, by omega, by omega, h⟩)
  · rw [if_pos (by simpa using hcc)] at h
    have hnot : ∀ r ∈ some r', carries info.access r = false := by
      intro r hr
      obtain rfl := Option.mem_some_iff.mp hr
      simp [carries, hcc]
    by_cases hretry : isTooLarge r'.ccode = true ∧ 8 < info.maxRead
    · rw [if_pos hretry] at h
      exact .inr (.inl ⟨hnot, hretry.2, h⟩)
    · rw [if_neg hretry] at h
      obtain ⟨rfl, rfl⟩ := pure_ok.mp h
      refine .inl ⟨rfl, rfl, .inl ⟨by simp, fun r hr => ⟨fun hc => ?_, fun hl => ?_⟩⟩⟩
      · rw [hnot r hr] at hc
        cases hc
      · obtain rfl := Option.mem_some_iff.mp hr
        exact Nat.not_lt.mp fun hm => hretry ⟨hl, hm⟩

/-- What is known of the exchanges of a transfer: they are reads; if it ended without an error, or
if all of it was answered and its fuel was enough, then it is intact. -/
def Transferred (finish fuel : ℕ) (info : Info) (off : ℕ) (r : Read) (evs : List Exchange) : Prop :=
  (r.info.access = info.access ∧ r.info.size = info.size) ∧ Reads info.access off evs ∧
    ((∀ x ∈ evs, regular info.access x) → (r.error = none ∨
      (finish - off + info.maxRead < fuel ∧ ∀ x ∈ evs, answered info.access x)) →
      evs ≠ [] ∧ intact info.access evs = true)

theorem transferred_last {id : UInt8} {finish fuel : ℕ} {info : Info} {off : ℕ} {r : Read}
    {o : Option Reply} (hinfo : r.info = info) (h : Stops info (finish - off) o r.error) :
    Transferred finish fuel info off r
      [(readRequest id info.access off (min (finish - off) info.maxRead), o)] := by
  have hreq := requested_readRequest id info.access off (min (finish - off) info.maxRead) o
  refine ⟨by rw [hinfo]; exact ⟨rfl, rfl⟩, (reads_nil _ 0).cons id off _ o, fun hreg hgood =>
    ⟨by simp, intact_cons rfl (.inl ?_)⟩⟩
  rcases h with ⟨herr, hbad⟩ | ⟨-, r', rfl, hcarries, hdone⟩
  · -- an error: by what was answered, the response has more than was left
    obtain ⟨-, hans⟩ := hgood.resolve_left herr
    obtain ⟨r', hr', hcarries | ⟨hlarge, height⟩⟩ := hans _ (List.mem_singleton.mpr rfl)
    · obtain rfl : o = some r' := hr'
      have := (hbad r' rfl).1 hcarries
      refine not_short ?_
      rw [delivered_carries hcarries]
      omega
    · have := (hbad r' hr').2 hlarge
      omega
  · rw [short, decide_eq_false_iff_not]
    rintro ⟨hread, hlt⟩
    rw [delivered_carries hcarries] at hlt
    have hcc : r'.ccode = 0 ∧ countOf info.access r' < r'.dataLen := of_decide_eq_true hcarries
    have hne := ((hreg _ (List.mem_singleton.mpr rfl)) hread r' rfl hcc.1).1 (by omega) (by omega)
    have hpos : 0 < countOf info.access r' := by
      have : (r'.data 0).toNat ≠ 0 := fun h0 => hne (UInt8.toNat_inj.mp h0)
      unfold countOf
      split_ifs <;> omega
    omega

theorem Transferred.cons {finish fuel : ℕ} {info info' : Info} {off off' n : ℕ} {r : Read}
    {evs : List Exchange} (h : Transferred finish fuel info' off' r evs) (id : UInt8)
    (o : Option Reply) (hinfo : info'.access = info.access ∧ info'.size = info.size)
    (hfuel : finish - off + info.maxRead < fuel + 1 → finish - off' + info'.maxRead < fuel)
    (hnext : UInt16.ofNat (wireOffset info.access off') =
      UInt16.ofNat (wireOffset info.access off) + UInt16.ofNat (units info.access o)) :
    Transferred finish (fuel + 1) info off r ((readRequest id info.access off n, o) :: evs) := by
  obtain ⟨hsame, hreads, hintact⟩ := h
  rw [hinfo.1] at hsame hreads hintact
  rw [hinfo.2] at hsame
  refine ⟨hsame, hreads.cons id off n o, fun hreg hgood => ⟨by simp, ?_⟩⟩
  obtain ⟨hne, hall⟩ := hintact (fun x hx => hreg x (List.mem_cons_of_mem _ hx))
    (hgood.imp_right fun hg => ⟨hfuel hg.1, fun x hx => hg.2 x (List.mem_cons_of_mem _ hx)⟩)
  exact intact_cons hall (.inr (followed_of_reads hreads hne hnext))

/-- **What a transfer says.** -/
theorem readLoop_says {id : UInt8} {base finish : ℕ} : ∀ {fuel : ℕ} {info : Info} {off : ℕ}
    {dest : Memory UInt8} {w w' : CmdWorld Unit β} {r : Read},
    readLoop B id base finish fuel info off dest w = .ok (r, w') →
    ∃ evs, w'.log = w.log ++ evs ∧ Transferred finish fuel info off r evs
  | 0, info, off, dest, w, w', r, h => by
    obtain ⟨rfl, rfl⟩ := pure_ok.mp h
    refine ⟨[], by simp, ⟨rfl, rfl⟩, reads_nil _ _, fun _ hgood => ?_⟩
    rcases hgood with hgood | hgood
    · cases hgood
    · omega
  | fuel + 1, info, off, dest, w, w', r, h => by
    obtain ⟨o, t, hlog, hcases⟩ := readLoop_cases h
    rcases hcases with ⟨rfl, hinfo, hstops⟩ | ⟨hnot, hmax, hrest⟩ |
      ⟨r', dest', rfl, hcarries, hpos, hlt, hrest⟩
    · exact ⟨_, hlog, transferred_last hinfo hstops⟩
    · obtain ⟨evs, hlog', hevs⟩ := readLoop_says hrest
      refine ⟨_ :: evs, by rw [hlog', hlog, List.append_assoc]; rfl, hevs.cons id o ⟨rfl,
        rfl⟩ ?_ ?_⟩
      · intro hfuel
        have : smaller info.maxRead < info.maxRead := by unfold smaller; split_ifs <;> omega
        dsimp only
        omega
      · rw [units_not_carries hnot]
        simp
    · obtain ⟨evs, hlog', hevs⟩ := readLoop_says hrest
      refine ⟨_ :: evs, by rw [hlog', hlog, List.append_assoc]; rfl,
        hevs.cons id (some r') ⟨rfl, rfl⟩ (by omega) ?_⟩
      rw [wireOffset_add]
      simp [units, hcarries]

/-! ### The stages -/

/-- Exchanges that are intact if their answers are regular, and that store nothing. -/
structure Sound (a : Bool) (evs : List Exchange) : Prop where
  intact : Regular a evs → intact a evs = true
  reads : ∀ x ∈ evs, isWrite x = false

theorem sound_nil (a : Bool) : Sound a [] := ⟨fun _ => rfl, by simp⟩

theorem Sound.append {a : Bool} {xs ys : List Exchange} (hx : Sound a xs)
    (hy : Sound (xs.foldl accessOf a) ys) : Sound a (xs ++ ys) := by
  refine ⟨fun h => ?_, fun x hmem => ?_⟩
  · obtain ⟨h1, h2⟩ := regular_append.mp h
    exact intact_append (hx.intact h1) (hy.intact h2)
  · rcases List.mem_append.mp hmem with h | h
    · exact hx.reads x h
    · exact hy.reads x h

theorem not_write_of_read {x : Exchange} (h : isRead x = true) : isWrite x = false := by
  have hread : x.1.netfn = netfnStorage ∧ x.1.cmd = 0x11 := of_decide_eq_true h
  simp [isWrite, hread.2]

theorem Reads.regular {a : Bool} {off : ℕ} {evs : List Exchange} (h : Reads a off evs)
    (hreg : Regular a evs) : ∀ x ∈ evs, regular a x := by
  have hall := h.1
  clear h
  induction evs with
  | nil => simp
  | cons y ys ih =>
    obtain ⟨hy, hys⟩ := hreg
    rw [(hall y List.mem_cons_self).2] at hys
    intro x hx
    rcases List.mem_cons.mp hx with rfl | hx
    · exact hy
    · exact ih hys (fun z hz => hall z (List.mem_cons_of_mem _ hz)) x hx

/-- `readArea`: without an error, or with all of it answered, it is intact. -/
theorem readArea_tells {id : UInt8} {info : Info} {offset length : ℕ} {r : Read}
    (h : readArea B env id info offset length w = .ok (r, w')) :
    r.info.access = info.access ∧ r.info.size = info.size ∧ ∃ evs, w'.log = w.log ++ evs ∧
      evs.foldl accessOf info.access = info.access ∧ (∀ x ∈ evs, isWrite x = false) ∧
      ((r.error = none ∨ ∀ x ∈ evs, answered info.access x) → Sound info.access evs) := by
  unfold readArea at h
  split_ifs at h with hsize
  · obtain ⟨rfl, rfl⟩ := pure_ok.mp h
    exact ⟨rfl, rfl, [], by simp, rfl, by simp, fun _ => sound_nil _⟩
  rcases hfirst : firstSize env info with _ | maxRead
  · rw [hfirst] at h
    obtain ⟨rfl, rfl⟩ := pure_ok.mp h
    exact ⟨rfl, rfl, [], by simp, rfl, by simp, fun _ => sound_nil _⟩
  rw [hfirst] at h
  obtain ⟨evs, hlog, hsame, hreads, hintact⟩ := readLoop_says h
  have hnone : ∀ x ∈ evs, isWrite x = false := fun x hx => not_write_of_read (hreads.1 x hx).1
  refine ⟨hsame.1, hsame.2, evs, hlog, hreads.foldl _, hnone, fun hgood => ⟨fun hreg => ?_, hnone⟩⟩
  exact (hintact (hreads.regular hreg) (hgood.imp_right fun hans => ⟨by dsimp only; omega, hans⟩)).2

theorem sound_info {id : UInt8} (a : Bool) (o : Option Reply) : Sound a [(infoRequest id, o)] := by
  refine ⟨fun _ => ?_, fun x hx => ?_⟩
  · simp [intact, short, isRead, infoRequest]
  · rw [List.mem_singleton.mp hx]
    rfl

theorem getInfo_says {id : UInt8} {o : Option Info} (h : getInfo B id w = .ok (o, w')) (a : Bool) :
    ∃ evs, w'.log = w.log ++ evs ∧ Sound a evs ∧ ∀ info ∈ o,
    evs.foldl accessOf a = info.access := by
  obtain ⟨r, t, ht, h⟩ := bind_ok.mp h
  refine ⟨[(infoRequest id, r)], ?_, sound_info a r, fun info hinfo => ?_⟩
  · rcases r with _ | r <;> obtain ⟨-, rfl⟩ := pure_ok.mp h <;> exact (ask_log ht).1
  · rcases r with _ | r
    · obtain ⟨rfl, -⟩ := pure_ok.mp h
      cases hinfo
    · obtain ⟨rfl, -⟩ := pure_ok.mp h
      have hbind : (some r : Option Reply).bind infoOf = some info := hinfo
      simp [accessOf, infoRequest, hbind]

theorem getInfoNonempty_says {id : UInt8} {o : Option Info}
    (h : getInfoNonempty B id w = .ok (o, w')) (a : Bool) :
    ∃ evs, w'.log = w.log ++ evs ∧ Sound a evs ∧ ∀ info ∈ o,
    evs.foldl accessOf a = info.access := by
  obtain ⟨o', t, ht, h⟩ := bind_ok.mp h
  obtain ⟨rfl, rfl⟩ := pure_ok.mp h
  obtain ⟨evs, hlog, hsound, hinfo⟩ := getInfo_says ht a
  exact ⟨evs, hlog, hsound, fun info hmem => hinfo info (Option.filter_eq_some_iff.mp hmem).1⟩

/-- The header: if it is used, then by a regular answer all of it was delivered. -/
theorem fieldEditHeader_says {id : UInt8} {o : Option (List UInt8)}
    (h : fieldEditHeader B id w = .ok (o, w')) (a : Bool) : ∃ evs, w'.log = w.log ++ evs ∧
      evs.foldl accessOf a = a ∧ (∀ x ∈ evs, isWrite x = false) ∧ (o ≠ none → Sound a evs) := by
  obtain ⟨r, t, ht, h⟩ := bind_ok.mp h
  obtain ⟨rfl, rfl⟩ := pure_ok.mp h
  have hnone : ∀ x ∈ [(readRequest id false 0 8, r)], isWrite x = false := by
    intro x hx
    rw [List.mem_singleton.mp hx]
    rfl
  refine ⟨[(readRequest id false 0 8, r)], (ask_log ht).1,
    accessOf_readRequest id a false 0 8 r, hnone,
    fun hsome => ⟨fun hreg => ?_, hnone⟩⟩
  rcases r with _ | r
  · exact (hsome rfl).elim
  obtain ⟨hreg, -⟩ := hreg
  have hcc : ¬ (r.ccode ≠ 0 ∨ r.dataLen < 9 ∨ r.data 1 ≠ 1) := by
    intro hbad
    exact hsome (if_pos hbad)
  have hcount := (hreg rfl r rfl (by tauto)).2 rfl rfl (by omega)
  have hcarries : carries a r = true := by
    simp only [carries, decide_eq_true_eq]
    tauto
  have hshort : short a (readRequest id false 0 8, some r) = false := by
    simp only [short, delivered_carries hcarries, decide_eq_false_iff_not, not_and]
    intro _
    have : requested (readRequest id false 0 8, some r) = 8 := rfl
    omega
  rw [intact, hshort]
  rfl

theorem located_says {id kind : UInt8} {o : Option Located}
    (h : located B env id kind w = .ok (o, w')) : ∃ evs, w'.log = w.log ++ evs ∧
      (∀ x ∈ evs, isWrite x = false) ∧
      ∀ s ∈ o, Sound false evs ∧ evs.foldl accessOf false = s.info.access := by
  obtain ⟨o, t, ht, h⟩ := bind_ok.mp h
  obtain ⟨evs, hlog, hsound, hinfo⟩ := getInfoNonempty_says ht false
  rcases o with _ | info
  · obtain ⟨rfl, rfl⟩ := pure_ok.mp h
    exact ⟨evs, hlog, hsound.reads, by simp⟩
  specialize hinfo info rfl
  obtain ⟨o, t1, ht1, h⟩ := bind_ok.mp h
  obtain ⟨evs1, hlog1, haccess1, hnone1, hsound1⟩ := fieldEditHeader_says ht1 info.access
  have hlog01 : t1.log = w.log ++ (evs ++ evs1) := by rw [hlog1, hlog, List.append_assoc]
  have hnone01 : ∀ x ∈ evs ++ evs1, isWrite x = false := fun x hx =>
    (List.mem_append.mp hx).elim (hsound.reads x) (hnone1 x)
  rcases o with _ | header
  · obtain ⟨rfl, rfl⟩ := pure_ok.mp h
    exact ⟨evs ++ evs1, hlog01, hnone01, by simp⟩
  have hsound01 : Sound false (evs ++ evs1) :=
    hsound.append (by rw [hinfo]; exact hsound1 (by simp))
  have haccess01 : (evs ++ evs1).foldl accessOf false = info.access := by
    rw [List.foldl_append, hinfo, haccess1]
  dsimp only at h
  rcases hi : sectionIndex kind with _ | i
  · rw [hi] at h
    obtain ⟨rfl, rfl⟩ := pure_ok.mp h
    exact ⟨evs ++ evs1, hlog01, hnone01, by simp⟩
  rw [hi] at h
  obtain ⟨p, t2, ht2, h⟩ := bind_ok.mp h
  obtain ⟨hp, -, evs2, hlog2, haccess2, hnone2, hsound2⟩ := readArea_tells ht2
  have hlog02 : t2.log = w.log ++ (evs ++ evs1 ++ evs2) := by rw [hlog2, hlog01, List.append_assoc]
  have hnone02 : ∀ x ∈ evs ++ evs1 ++ evs2, isWrite x = false := fun x hx =>
    (List.mem_append.mp hx).elim (hnone01 x) (hnone2 x)
  split_ifs at h with hbad
  · obtain ⟨rfl, rfl⟩ := pure_ok.mp h
    exact ⟨_, hlog02, hnone02, by simp⟩
  have hsound02 : Sound false (evs ++ evs1 ++ evs2) := by
    refine hsound01.append ?_
    rw [haccess01]
    exact hsound2 (.inl (Option.not_isSome_iff_eq_none.mp fun h => hbad (.inl h)))
  obtain ⟨a, t3, ht3, h⟩ := bind_ok.mp h
  obtain ⟨ha, -, evs3, hlog3, haccess3, hnone3, hsound3⟩ := readArea_tells ht3
  rw [hp] at ha haccess3 hsound3
  refine ⟨evs ++ evs1 ++ evs2 ++ evs3, ?_,
    fun x hx => (List.mem_append.mp hx).elim (hnone02 x) (hnone3 x),
    fun s hs => ?_⟩
  · split_ifs at h <;> obtain ⟨-, rfl⟩ := pure_ok.mp h <;> rw [hlog3, hlog02, List.append_assoc]
  · split_ifs at h with herr
    · obtain ⟨rfl, -⟩ := pure_ok.mp h
      cases hs
    · obtain ⟨rfl, -⟩ := pure_ok.mp h
      obtain rfl := Option.mem_some_iff.mp hs
      have haccess02 : (evs ++ evs1 ++ evs2).foldl accessOf false = info.access := by
        rw [List.foldl_append, haccess01, haccess2]
      refine ⟨hsound02.append ?_, ?_⟩
      · rw [haccess02]
        exact hsound3 (.inl (Option.not_isSome_iff_eq_none.mp herr))
      · rw [List.foldl_append, haccess02, haccess3, ha]

/-- The draft: if the whole image has to be read, and this is answered, then it is intact. -/
theorem draftOf_says {id kind : UInt8} {index : ℕ} {text : List UInt8} {s : Located}
    {o : Option Draft}
    (h : draftOf B env id kind index text s w = .ok (o, w')) : ∃ evs, w'.log = w.log ++ evs ∧
      (∀ x ∈ evs, isWrite x = false) ∧
      ((∀ x ∈ evs, answered s.info.access x) → Sound s.info.access evs) := by
  have hnothing : w' = w → ∃ evs, w'.log = w.log ++ evs ∧ (∀ x ∈ evs, isWrite x = false) ∧
      ((∀ x ∈ evs, answered s.info.access x) → Sound s.info.access evs) := by
    rintro rfl
    exact ⟨[], by simp, by simp, fun _ => sound_nil _⟩
  unfold draftOf at h
  split_ifs at h with hempty hlen hbound
  · obtain ⟨-, rfl⟩ := pure_ok.mp h
    exact hnothing rfl
  · obtain ⟨r, t, ht, h⟩ := bind_ok.mp h
    obtain ⟨-, -, evs, hlog, -, hnone, hsound⟩ := readArea_tells ht
    have hend : w' = t := by
      generalize rebuilt _ = res at h
      rcases res with (_ | f) | d
      · obtain ⟨-, rfl⟩ := pure_ok.mp h
        rfl
      · exact (throw_ok.mp h).elim
      · obtain ⟨-, rfl⟩ := pure_ok.mp h
        rfl
    exact ⟨evs, by rw [hend, hlog], hnone, fun hans => hsound (.inr hans)⟩
  · exact (throw_ok.mp h).elim
  · obtain ⟨-, rfl⟩ := pure_ok.mp h
    exact hnothing rfl

theorem recordsRead_says {id : UInt8} {o : Except ℤ (Info × ℕ × Memory UInt8)}
    (h : recordsRead B env id w = .ok (o, w')) : ∃ evs, w'.log = w.log ++ evs ∧
      (∀ x ∈ evs, isWrite x = false) ∧ ((∃ r, o = .ok r) → Sound false evs) := by
  obtain ⟨loc, t1, ht1, h⟩ := bind_ok.mp h
  obtain ⟨o', t, ht, hloc⟩ := bind_ok.mp ht1
  obtain ⟨evs, hlog, hsound, hinfo⟩ := getInfoNonempty_says ht false
  rcases o' with _ | info
  · obtain ⟨rfl, rfl⟩ := pure_ok.mp hloc
    obtain ⟨rfl, rfl⟩ := pure_ok.mp h
    exact ⟨evs, hlog, hsound.reads, by simp⟩
  specialize hinfo info rfl
  obtain ⟨hd, t2, ht2, hloc⟩ := bind_ok.mp hloc
  obtain ⟨rfl, rfl⟩ := pure_ok.mp hloc
  obtain ⟨evs1, hlog1, haccess1, hnone1, hsound1⟩ := fieldEditHeader_says ht2 info.access
  have hlog01 : t2.log = w.log ++ (evs ++ evs1) := by rw [hlog1, hlog, List.append_assoc]
  have hnone01 : ∀ x ∈ evs ++ evs1, isWrite x = false := fun x hx =>
    (List.mem_append.mp hx).elim (hsound.reads x) (hnone1 x)
  rcases hd with _ | header
  · obtain ⟨rfl, rfl⟩ := pure_ok.mp h
    exact ⟨evs ++ evs1, hlog01, hnone01, by simp⟩
  have hsound01 : Sound false (evs ++ evs1) :=
    hsound.append (by rw [hinfo]; exact hsound1 (by simp))
  obtain ⟨o2, t3, ht3, h⟩ := bind_ok.mp h
  obtain ⟨evs2, hlog2, hsound2, hinfo2⟩ := getInfo_says ht3 ((evs ++ evs1).foldl accessOf false)
  have hlog02 : t3.log = w.log ++ (evs ++ evs1 ++ evs2) := by rw [hlog2, hlog01, List.append_assoc]
  have hsound02 : Sound false (evs ++ evs1 ++ evs2) := hsound01.append hsound2
  rcases o2 with _ | info2
  · obtain ⟨rfl, rfl⟩ := pure_ok.mp h
    exact ⟨_, hlog02, hsound02.reads, by simp⟩
  specialize hinfo2 info2 rfl
  dsimp only at h
  split_ifs at h with hsize
  · obtain ⟨rfl, rfl⟩ := pure_ok.mp h
    exact ⟨_, hlog02, hsound02.reads, by simp⟩
  obtain ⟨r, t4, ht4, h⟩ := bind_ok.mp h
  obtain ⟨-, -, evs3, hlog3, -, hnone3, hsound3⟩ := readArea_tells ht4
  refine ⟨evs ++ evs1 ++ evs2 ++ evs3, ?_,
    fun x hx => (List.mem_append.mp hx).elim (hsound02.reads x) (hnone3 x), fun hok => ?_⟩
  · split_ifs at h <;> obtain ⟨-, rfl⟩ := pure_ok.mp h <;> rw [hlog3, hlog02, List.append_assoc]
  · split_ifs at h with herr
    · obtain ⟨rfl, -⟩ := pure_ok.mp h
      obtain ⟨r, hr⟩ := hok
      cases hr
    · refine hsound02.append ?_
      rw [List.foldl_append, hinfo2]
      exact hsound3 (.inl (Option.not_isSome_iff_eq_none.mp herr))

/-! ### Writing -/

/-- The log grows. -/
abbrev Grows : Frame (CmdWorld Unit β) := Says fun _ => True

theorem grows_readArea (id : UInt8) (info : Info) (offset length : ℕ) :
    Moves Grows (readArea B env id info offset length) := by
  intro w r w' h
  obtain ⟨-, -, evs, hlog, -⟩ := readArea_tells h
  exact ⟨evs, hlog, fun _ _ => trivial⟩

theorem grows_recordBlocks (id : UInt8) : ∀ (fuel : ℕ) (info : Info) (off : ℕ)
    (blocks : List Block),
    Moves Grows (recordBlocks B env id fuel info off blocks)
  | 0, _, _, _ => .pure _
  | fuel + 1, _, _, _ => .ite (fun _ => .pure _) fun _ => .ite (fun _ => .pure _) fun _ =>
      .bind (grows_readArea _ _ _ _) fun _ => .ite (fun _ => .pure _) fun _ =>
        .ite (fun _ => .pure _) fun _ => grows_recordBlocks id fuel _ _ _

theorem grows_buildBlocks (id : UInt8) (info : Info) : Moves Grows (buildBlocks B env id info) := by
  refine .bind (Says.ask fun _ => trivial) fun o => ?_
  rcases o.bind headerOf with _ | header
  · exact .pure _
  · exact .ite (fun _ => .pure _) fun _ => .bind (grows_recordBlocks _ _ _ _ _) fun _ => .pure _

theorem grows_writeLoop (id : UInt8) (blocks : List Block) (source : Memory UInt8)
    (base finish : ℕ) :
    ∀ (fuel : ℕ) (info : Info) (off : ℕ),
      Moves Grows (writeLoop B id blocks source base finish fuel info off)
  | 0, _, _ => .pure _
  | fuel + 1, info, off => by
    refine .ite (fun _ => .pure _) fun _ => .ite (fun _ => .pure _) fun _ =>
      .bind (Says.ask fun _ => trivial) fun o => ?_
    rcases o with _ | r
    · exact .pure _
    · exact .ite (fun _ => grows_writeLoop id blocks source base finish fuel _ _) fun _ =>
        .ite (fun _ => grows_writeLoop id blocks source base finish fuel _ _) fun _ =>
          .ite (fun _ => .pure _) fun _ => grows_writeLoop id blocks source base finish fuel _ _

theorem grows_writeArea (id : UInt8) (info : Info) (offset : ℕ) (source : Memory UInt8)
    (length : ℕ) :
    Moves Grows (writeArea B env id info offset source length) := by
  refine .ite (fun _ => .pure _) fun _ => .ite (fun _ => .pure _) fun _ =>
    .bind (grows_buildBlocks _ _) fun b => ?_
  rcases firstWrite env b.1 with _ | maxWrite
  · exact .pure _
  · exact grows_writeLoop _ _ _ _ _ _ _ _

theorem grows_editRecords (id : UInt8) (args : OemArgs) : ∀ (fuel : ℕ) (info : Info) (off : ℕ)
    (image : Memory UInt8), Moves Grows (editRecords B env id args fuel info off image)
  | 0, _, _, _ => .pure _
  | fuel + 1, info, off, image => by
    rw [editRecords]
    dsimp only
    refine .ite (fun _ => .pure _) fun _ => .ite (fun _ => .pure _) fun _ => ?_
    rcases editRecord args image off _ with _ | e
    · exact .pure _
    · refine .ite (fun _ => .bind (grows_writeArea _ _ _ _ _) fun w => ?_)
        fun _ => .bind (.pure _) fun w => ?_ <;>
      exact .ite (fun _ => .pure _) fun _ => .ite (fun _ => .pure _) fun _ =>
        grows_editRecords id args fuel _ _ _

end

/-! ### Editing -/

/-- The reads of `editField`: those that locate the section, and the read of the whole image. -/
def EditReads {β : Type} (B : Bmc β) (env : Env) (id kind fieldIndex : UInt8) (text : List UInt8)
    (w : CmdWorld Unit β) (first whole : List Exchange) : Prop :=
  ∃ o w₁, located B env id kind w = .ok (o, w₁) ∧ w₁.log = w.log ++ first ∧
    ((o = none ∧ whole = []) ∨ ∃ s d w₂, o = some s ∧
      draftOf B env id kind (fieldIndex - 0x30).toNat text s w₁ = .ok (d, w₂) ∧
      w₂.log = w₁.log ++ whole)

/-- The reads of `editMultirecord`. -/
def RecordReads {β : Type} (B : Bmc β) (env : Env) (id : UInt8) (w : CmdWorld Unit β)
    (reads : List Exchange) : Prop :=
  ∃ o w₁, recordsRead B env id w = .ok (o, w₁) ∧ w₁.log = w.log ++ reads

/-- **Nothing is written after a read that failed.** In every run of `editField` and
`editMultirecord` whose answers are regular, and in which the read of the whole image is answered,
nothing is written if a read was not made up for. -/
theorem edit_reads_first {β : Type} (B : Bmc β) (env : Env) (id : UInt8) (w w' : CmdWorld Unit β) (rc : ℤ) :
    (∀ kind fieldIndex text, editField B env id kind fieldIndex text w = .ok (rc, w') →
      ∃ first whole rest, EditReads B env id kind fieldIndex text w first whole ∧
        w'.log = w.log ++ (first ++ whole ++ rest) ∧
        (Regular false (first ++ whole) → (∀ x ∈ whole, answered (first.foldl accessOf false) x) →
          intact false (first ++ whole) = false →
          ∀ x ∈ first ++ whole ++ rest, isWrite x = false)) ∧
    ∀ args, editMultirecord B env id args w = .ok (rc, w') →
      ∃ reads rest, RecordReads B env id w reads ∧ w'.log = w.log ++ (reads ++ rest) ∧
        (Regular false reads → intact false reads = false →
          ∀ x ∈ reads ++ rest, isWrite x = false) := by
  refine ⟨fun kind fieldIndex text h => ?_, fun args h => ?_⟩
  · obtain ⟨d, w₂, hd, hwrite⟩ := bind_ok.mp h
    obtain ⟨o, w₁, hlocated, hdraft⟩ := bind_ok.mp hd
    obtain ⟨first, hfirst, hnone, hsound⟩ := located_says hlocated
    rcases o with _ | s
    · obtain ⟨rfl, rfl⟩ := pure_ok.mp hdraft
      obtain ⟨-, rfl⟩ := pure_ok.mp hwrite
      refine ⟨first, [], [], ⟨none, w₁, hlocated, hfirst, .inl ⟨rfl, rfl⟩⟩, by simp [hfirst],
        fun _ _ _ x hx => hnone x (by simpa using hx)⟩
    obtain ⟨hsound, haccess⟩ := hsound s rfl
    obtain ⟨whole, hwhole, hnone', hsound'⟩ := draftOf_says hdraft
    have hreads : EditReads B env id kind fieldIndex text w first whole :=
      ⟨some s, w₁, hlocated, hfirst, .inr ⟨s, d, w₂, rfl, hdraft, hwhole⟩⟩
    have hall : ∀ x ∈ first ++ whole, isWrite x = false := fun x hx =>
      (List.mem_append.mp hx).elim (hnone x) (hnone' x)
    rcases d with _ | d
    · obtain ⟨-, rfl⟩ := pure_ok.mp hwrite
      exact ⟨first, whole, [], hreads, by rw [hwhole, hfirst]; simp,
        fun _ _ _ x hx => hall x (by simpa using hx)⟩
    · obtain ⟨b, t, ht, hend⟩ := bind_ok.mp hwrite
      obtain ⟨-, rfl⟩ := pure_ok.mp hend
      obtain ⟨rest, hrest, -⟩ := grows_writeArea _ _ _ _ _ _ _ _ ht
      refine ⟨first, whole, rest, hreads, by rw [hrest, hwhole, hfirst]; simp, fun hreg hans hbroken => ?_⟩
      rw [haccess] at hans
      have hboth : Sound false (first ++ whole) := hsound.append (by rw [haccess]; exact hsound' hans)
      rw [hboth.intact hreg] at hbroken
      cases hbroken
  · obtain ⟨o, w₁, ho, hrest⟩ := bind_ok.mp h
    obtain ⟨reads, hreads, hnone, hsound⟩ := recordsRead_says ho
    rcases o with rc' | r
    · obtain ⟨-, rfl⟩ := pure_ok.mp hrest
      exact ⟨reads, [],
        ⟨_, w₁, ho, hreads⟩, by simp [hreads], fun _ _ x hx => hnone x (by simpa using hx)⟩
    · obtain ⟨rest, hlog, -⟩ := grows_editRecords _ _ _ _ _ _ _ _ _ hrest
      refine ⟨reads, rest, ⟨_, w₁, ho, hreads⟩, by rw [hlog, hreads]; simp, fun hreg hbroken => ?_⟩
      rw [(hsound ⟨r, rfl⟩).intact hreg] at hbroken
      cases hbroken

/-! ### Examples -/

/-- A device that is accessed by bytes and holds `image`. It does not answer the request `lost`,
counted from zero. -/
def holding (image : List UInt8) (lost : ℕ) : Bmc ℕ := fun n c =>
  (if n = lost then none
    else if c.cmd = 0x10 then some (Reply.of (le16 (UInt16.ofNat image.length) ++ [0]))
    else if c.cmd = 0x11 then
      let bytes :=
        (image.drop (ofLe16 (c.data.getD 1 0) (c.data.getD 2 0)).toNat).take (c.data.getD 3 0).toNat
      some (Reply.of (UInt8.ofNat bytes.length :: bytes))
    else some (Reply.of []), n + 1)

/-- A chassis area with one field, and a product area behind it. -/
def sampleFru : List UInt8 :=
  [1, 0, 1, 0, 3, 0, 0, 0xfb] ++ [1, 2, 0x17, 0xc4] ++ ascii "ABCD" ++ [0xc1, 0, 0, 0, 0,
    0, 0, 0x57] ++
    [1, 5, 0, 0xc4] ++ ascii "EFGH" ++ [0xc1] ++ List.replicate 30 0 ++ [0x5b]

/-- The header is lost: the run ends with an error and stores nothing. -/
theorem edit_reads_first_lost : ∃ w', editField (holding sampleFru 1) ⟨34,
    34⟩ 0 0x63 0x30 (ascii "ABCDE")
      ⟨(), 0, []⟩ = .ok (-1, w') ∧ ∀ x ∈ w'.log, isWrite x = false := by
  obtain ⟨rc, w', h, hrc⟩ :=
    exists_of_returns (x := editField (holding sampleFru 1) ⟨34, 34⟩ 0 0x63 0x30
      (ascii "ABCDE")) (s := ⟨(), 0, []⟩) (p := fun rc _ => rc = -1) (by decide +kernel)
  obtain rfl : rc = -1 := of_decide_eq_true hrc
  obtain ⟨first, whole, rest, ⟨o, w₁, hlocated, hfirst, hwhole⟩, hlog, hnone⟩ :=
    (edit_reads_first _ _ _ _ _ _).1 _ _ _ h
  have hrun : located (holding sampleFru 1) ⟨34, 34⟩ 0 0x63 ⟨(), 0, []⟩ = .ok (none, ⟨(), 2,
      [(infoRequest 0, some (Reply.of [64, 0, 0])), (readRequest 0 false 0 8, none)]⟩) := rfl
  obtain ⟨rfl, rfl⟩ := Prod.mk.inj (Except.ok.inj (hrun.symm.trans hlocated))
  obtain ⟨-, rfl⟩ := hwhole.resolve_right fun ⟨s, _, _, hs, _⟩ => by cases hs
  obtain rfl : first = _ := hfirst.symm
  refine ⟨w', h, ?_⟩
  rw [hlog, List.nil_append]
  refine hnone ⟨fun hread => ?_, fun _ r hr => ?_, trivial⟩ (by simp) (by decide)
  · exact absurd hread (by decide)
  · cases hr

/-- The second piece of the whole image is lost, and what was read of it is written all the same. -/
theorem editField_writes_after_loss :
    (∃ w', editField (holding sampleFru 5) ⟨34, 34⟩ 0 0x63 0x30 (ascii "ABCDE") ⟨(), 0,
      []⟩ = .ok (1, w') ∧
      ∃ x ∈ w'.log, isWrite x = true) ∧
    ∃ first whole, EditReads (holding sampleFru 5) ⟨34, 34⟩ 0 0x63 0x30 (ascii "ABCDE") ⟨(), 0, []⟩
      first whole ∧ intact false (first ++ whole) = false := by
  refine ⟨?_, ?_⟩
  · obtain ⟨rc, w', h, hp⟩ :=
      exists_of_returns (x := editField (holding sampleFru 5) ⟨34, 34⟩ 0 0x63 0x30
        (ascii "ABCDE")) (s := ⟨(), 0, []⟩) (p := fun rc w' => rc = 1 && w'.log.any isWrite)
        (by decide +kernel)
    obtain ⟨hrc, hany⟩ := (Bool.and_eq_true _ _).mp hp
    obtain rfl : rc = 1 := of_decide_eq_true hrc
    exact ⟨w', h, List.any_eq_true.mp hany⟩
  · obtain ⟨o, w₁, hlocated, hp⟩ :=
      exists_of_returns (x := located (holding sampleFru 5) ⟨34, 34⟩ 0 0x63)
        (s := ⟨(), 0, []⟩) (p := fun o w₁ => o.any fun s =>
          returns (draftOf (holding sampleFru 5) ⟨34, 34⟩ 0 0x63 0 (ascii "ABCDE") s) w₁
            fun _ w₂ => !intact false w₂.log) (by decide +kernel)
    obtain ⟨s, rfl, hs⟩ := (Option.any_eq_true _ _).mp hp
    obtain ⟨d, w₂, hdraft, hbroken⟩ := exists_of_returns hs
    obtain ⟨first, hfirst, -⟩ := located_says hlocated
    obtain ⟨whole, hwhole, -⟩ := draftOf_says hdraft
    refine ⟨first, whole, ⟨some s, w₁, hlocated, hfirst, .inr ⟨s, d, w₂, rfl, hdraft, hwhole⟩⟩, ?_⟩
    rw [hwhole, hfirst, List.nil_append] at hbroken
    simpa using hbroken

end Ipmitool.Fru.ReadFirst
