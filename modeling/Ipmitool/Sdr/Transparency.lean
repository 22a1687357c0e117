import Ipmitool.Sdr.Fill
import Ipmitool.Sdr.Invariant
import Mathlib.Data.List.Find

/-! # The cache is transparent

A BMC that serves a repository steadily: every header is read, and every record is always read or
never (`Steady`). The lookups then depend on the repository alone. The list has the records of a
part `pre` of the chain and the iterator stands at the rest (`Sits`); a lookup looks through the
first part on the list, through the second part by the BMC, and so gives what it gives for the whole
chain (`ask_placed`), whatever was looked up before. -/

namespace Ipmitool.Sdr.Transparency

open Ipmitool.Lib Ipmitool.Lib.Bytes Ipmitool.Lib.Machine Ipmitool.Lib.Dialogue
open Ipmitool.Core.Types hiding Entry
open Ipmitool.Core.Interface Ipmitool.Sdr.Records Ipmitool.Sdr.Walk Ipmitool.Sdr.Cache
  Ipmitool.Sdr.Served
open Ipmitool.Sdr.Fill Ipmitool.Sdr.Invariant

/-! ### Lookups -/

inductive Query where
  | numtype (genId : UInt16) (num rtype : UInt8)
  | sensortype (rtype : UInt8)
  | entity (entity : EntityId)
  | type (rtype : UInt8)
  | id (num : ℤ) (text : List UInt8)
  | cache

/-- What a lookup returns. -/
inductive Answer where
  | first (e : Option Entry)
  | all (es : Option (List Entry))
  | status (rc : ℤ)

section
variable {β : Type} (B : Bmc β) (env : Env β) (turns : ℕ)

def ask : Query → Talk β Answer
  | .numtype genId num rtype => do return .first (← findSdrBynumtype B env turns genId num rtype)
  | .sensortype rtype => do return .all (← findSdrBysensortype B env turns rtype)
  | .entity entity => do return .all (← findSdrByentity B env turns entity)
  | .type rtype => do return .all (← findSdrBytype B env turns rtype)
  | .id num text => do return .first (← findSdrByid B env turns num text)
  | .cache => do return .status (← listCache B env turns)

/-- Lookups one after another. -/
def askAll : List Query → Talk β Unit
  | [] => return ()
  | q :: qs => do
    let _ ← ask B env turns q
    askAll qs

end

/-! ### The repository as the lookups see it -/

/-- The entry for a record on the list. -/
def entryFor (r : Record) : Entry where
  id := r.id
  type := r.type
  record := some r.body

/-- The record is read and cached. -/
def cacheable (reads : Record → Bool) (r : Record) : Bool := reads r && isCachedRecordType r.type

/-- The entries for the records of a part of the chain. -/
def cachedOf (reads : Record → Bool) (rs : List Record) : List Entry :=
  (rs.filter (cacheable reads)).map entryFor

/-- What a lookup returns if the entries are those of `l`. -/
def answer (l : List Entry) : Query → Answer
  | .numtype genId num rtype => .first (l.find? (accepts (matchNumtype genId num rtype)))
  | .sensortype rtype => .all (some (l.filter (accepts (matchSensortype rtype))))
  | .entity entity => .all (some (l.filter (accepts (matchEntityCached entity))))
  | .type rtype => .all (some (l.filter (accepts (matchType rtype))))
  | .id num text => .first (l.find? (accepts (matchIdCached num text)))
  | .cache => .status 0

section
variable {β : Type} (J : β → ℤ → Prop) (B : Bmc β) (env : Env β) (R : Repository)
  (reads : Record → Bool)

/-- The BMC, and the size of the reads, are in a state that is served. -/
def Served (w : CmdWorld Vars β) : Prop := J w.device w.vars.maxRead

/-- The repository can always be opened, its headers are read, and a record is read always or
never. -/
structure Steady : Prop where
  opens : ∀ w : CmdWorld Vars β, Served J w → ∃ itr w',
    sdrStart B env w = .ok (some itr, w') ∧ Served J w'
  headers : ∀ (w : CmdWorld Vars β) itr, Served J w → ∃ o itr' w',
    getNextHeader B itr w = .ok ((o, itr'), w') ∧
    o.isSome = (R.find itr.next).isSome ∧ Served J w'
  records : ∀ (w : CmdWorld Vars β) itr p, Served J w → R.find p.1.id = some p →
    ∃ o itr' w', getRecord B env (headerFor p) itr w = .ok ((o, itr'), w') ∧
      o.isSome = reads p.1 ∧ Served J w'

/-- The list has the entries of `l`, and the iterator stands at `post`. -/
structure Sits (l : List Entry) (post : List Record) (w : CmdWorld Vars β) : Prop where
  holds : Linked.Holds w.vars.list l
  itr : ∃ itr, w.vars.listItr = some itr ∧ R.find itr.next = front post
  served : Served J w

/-- The list has the cacheable records of the part of the chain that was walked. -/
def Placed (w : CmdWorld Vars β) : Prop :=
  ∃ pre post, R.records = pre ++ post ∧ Sits J R (cachedOf reads pre) post w

/-- Nothing was looked up yet. -/
structure Unopened (w : CmdWorld Vars β) : Prop where
  list : Linked.Holds w.vars.list []
  itr : w.vars.listItr = none
  served : Served J w

end

@[simp] theorem cachedOf_nil (reads : Record → Bool) : cachedOf reads [] = [] := rfl

@[simp] theorem cachedOf_append (reads : Record → Bool) (xs ys : List Record) :
    cachedOf reads (xs ++ ys) = cachedOf reads xs ++ cachedOf reads ys := by simp [cachedOf]

theorem cachedOf_cons (reads : Record → Bool) (r : Record) (rs : List Record) :
    cachedOf reads (r :: rs) =
    if cacheable reads r then entryFor r :: cachedOf reads rs else cachedOf reads rs := by
  unfold cachedOf
  rw [List.filter_cons]
  split_ifs <;> rfl

section Steady
variable {β : Type} {J : β → ℤ → Prop} {B : Bmc β} {env : Env β} {R : Repository}
  {reads : Record → Bool}
  (hS : Serves (fun b => ∃ n, J b n) B R) (hsteady : Steady J B env R reads)
include hS hsteady

theorem cached_entryFor {w : CmdWorld Vars β} (hw : Served J w) {r : Record} (hr : r ∈ R.records)
    (hc : cacheable reads r = true) : Cached (entryFor r) := by
  obtain ⟨hreads, hkind⟩ := (Bool.and_eq_true _ _).mp hc
  obtain ⟨pre, post, hR⟩ := List.append_of_mem hr
  have hfind : R.find r.id = some (r, nextId post) := find_append hR
  obtain ⟨o, itr', w', h, ho, -⟩ := hsteady.records w ⟨0, 0, false⟩ (r, nextId post) hw hfind
  obtain ⟨data, rfl⟩ := Option.isSome_iff_exists.mp (ho.trans hreads)
  obtain ⟨rfl, -⟩ := getRecord_serves hS hfind h ⟨_, hw⟩
  exact ⟨hkind, r.body, rfl, getRecord_valid h⟩

theorem cached_cachedOf {w : CmdWorld Vars β} (hw : Served J w) {rs : List Record}
    (hsub : rs ⊆ R.records) :
    ∀ e ∈ cachedOf reads rs, Cached e := by
  intro e he
  obtain ⟨r, hr, rfl⟩ := List.mem_map.mp he
  obtain ⟨hmem, hc⟩ := List.mem_filter.mp hr
  exact cached_entryFor hS hsteady hw (hsub hmem) hc

theorem turn_record {pre rs : List Record} {r : Record}
    (hR : R.records = pre ++ r :: rs) {itr : Itr}
    {w : CmdWorld Vars β} (hw : Served J w) (hitr : R.find itr.next = front (r :: rs)) :
    ∃ itr' w', turn B env itr w =
      .ok ((some (if cacheable reads r then some (entryFor r) else none), itr'), w') ∧
      R.find itr'.next = front rs ∧ w'.vars.list = w.vars.list ∧ Served J w' := by
  have hkeeps := hS.keeps
  obtain ⟨o, itr1, w1, h1, ho, hw1⟩ := hsteady.headers w itr hw
  rw [hitr] at ho
  obtain ⟨h, rfl⟩ := Option.isSome_iff_exists.mp ho
  obtain ⟨p, hp, rfl, hnext⟩ := getNextHeader_serves hS h1 ⟨_, hw⟩
  obtain rfl : (r, nextId rs) = p := Option.some.inj (hitr.symm.trans hp)
  have hfind : R.find r.id = some (r, nextId rs) := find_append hR
  obtain ⟨o, itr2, w2, h2, ho, hw2⟩ := hsteady.records w1 itr1 (r, nextId rs) hw1 hfind
  have hnext2 := getRecord_next h2
  have hR' : R.records = (pre ++ [r]) ++ rs := by rw [hR]; simp
  refine ⟨itr2, w2, bind_ok.mpr ⟨_, _, h1, bind_ok.mpr ⟨_, _, h2, pure_ok.mpr ⟨?_, rfl⟩⟩⟩,
    ?_, ?_, hw2⟩
  · have hentry : (o.filter fun _ => isCachedRecordType (headerFor (r, nextId rs)).type).map
        (fun record =>
        ({ id := (headerFor (r, nextId rs)).id, type := (headerFor (r, nextId rs)).type,
           record := some record } : Entry)) = if cacheable reads r then some (entryFor r)
           else none := by
      rw [cacheable, ← ho]
      rcases o with _ | data
      · rfl
      · obtain ⟨rfl, -⟩ := getRecord_serves hS hfind h2 ⟨_, hw1⟩
        rw [Option.filter_some]
        rcases hc : isCachedRecordType (headerFor (r, nextId rs)).type
        · simp only [headerFor] at hc
          simp [hc]
        · simp only [headerFor] at hc
          simp [hc, entryFor, headerFor]
    rw [hentry]
  · rw [hnext2, hnext]
    exact find_nextId hR'
  · rw [(quiet_getRecord hkeeps _ _ _ _ _ h2).1, (quiet_getNextHeader hkeeps _ _ _ _ h1).1]

theorem turn_end {itr : Itr} {w : CmdWorld Vars β} (hw : Served J w)
    (hitr : R.find itr.next = none) :
    ∃ itr' w', turn B env itr w = .ok ((none, itr'), w') ∧ itr'.next = itr.next ∧
      w'.vars.list = w.vars.list ∧ Served J w' := by
  obtain ⟨o, itr1, w1, h1, ho, hw1⟩ := hsteady.headers w itr hw
  rw [hitr] at ho
  rcases o with _ | h
  · exact ⟨itr1, w1, bind_ok.mpr ⟨_, _, h1, rfl⟩, getNextHeader_none h1,
      (quiet_getNextHeader hS.keeps _ _ _ _ h1).1, hw1⟩
  · cases ho

omit hS hsteady in
theorem listTurn_ok {itr itr' : Itr} {o : Option (Option Entry)} {w w' : CmdWorld Vars β}
    (hitr : w.vars.listItr = some itr) (h : turn B env itr w = .ok ((o, itr'), w')) :
    listTurn B env w = .ok (o, { w' with vars := { w'.vars with listItr := some itr' } }) := by
  refine bind_ok.mpr ⟨w, w, rfl, ?_⟩
  rw [hitr]
  exact bind_ok.mpr ⟨_, _, h, rfl⟩

theorem listTurn_record {pre rs : List Record} {r : Record} (hR : R.records = pre ++ r :: rs)
    {l : List Entry}
    {w : CmdWorld Vars β} (h : Sits J R l (r :: rs) w) :
    ∃ w', listTurn B env w = .ok (some (if cacheable reads r then some (entryFor r)
      else none), w') ∧
      Sits J R l rs w' := by
  obtain ⟨itr, hitr, hfind⟩ := h.itr
  obtain ⟨itr', w', hturn, hfind', hlist, hw'⟩ := turn_record hS hsteady hR h.served hfind
  exact ⟨_, listTurn_ok hitr hturn, hlist ▸ h.holds, ⟨itr', rfl, hfind'⟩, hw'⟩

theorem listTurn_end {l : List Entry} {w : CmdWorld Vars β} (h : Sits J R l [] w) :
    ∃ w', listTurn B env w = .ok (none, w') ∧ Sits J R l [] w' := by
  obtain ⟨itr, hitr, hfind⟩ := h.itr
  obtain ⟨itr', w', hturn, hnext, hlist, hw'⟩ := turn_end hS hsteady h.served hfind
  exact ⟨_, listTurn_ok hitr hturn, hlist ▸ h.holds, ⟨itr', rfl, hnext ▸ hfind⟩, hw'⟩

omit hS hsteady in
theorem cacheAppend_sits (e : Entry) {l : List Entry} {post : List Record} {w : CmdWorld Vars β}
    (h : Sits J R l post w) : ∃ w', cacheAppend e w = .ok ((), w') ∧
    Sits J R (l ++ [e]) post w' := by
  obtain ⟨c, happend, hc⟩ := cacheAppend_ok e h.holds
  exact ⟨_, happend, hc, h.itr, h.served⟩

/-- **The walk.** It finds the first entry ahead that `stop` accepts; if there is none, it goes to
the end and has the entries that `keep` accepts. The list has what was walked. -/
theorem walk_sits {stop keep : Matcher} (hstop : Total stop) (hkeep : Total keep) :
    ∀ {post pre : List Record} {l : List Entry} {turns : ℕ}
    {w : CmdWorld Vars β}, R.records = pre ++ post →
    post.length < turns → Sits J R l post w →
    ∃ r w' mid rest, walk B env stop keep turns w = .ok (r, w') ∧ post = mid ++ rest ∧
      Sits J R (l ++ cachedOf reads mid) rest w' ∧
        r.1 = (cachedOf reads post).find? (accepts stop) ∧
      (r.1 = none → r.2 = (cachedOf reads post).filter (accepts keep))
  | post, pre, l, 0, w, _, hturns, _ => by omega
  | [], pre, l, turns + 1, w, _, _, h => by
    obtain ⟨w', hturn, hsits⟩ := listTurn_end hS hsteady h
    exact ⟨(none, []), w', [], [], bind_ok.mpr ⟨_, _, hturn, rfl⟩, rfl,
      by simpa using hsits, rfl, fun _ => rfl⟩
  | r :: rs, pre, l, turns + 1, w, hR, hturns, h => by
    obtain ⟨w1, hturn, hsits⟩ := listTurn_record hS hsteady hR h
    have hR' : R.records = (pre ++ [r]) ++ rs := by rw [hR]; simp
    have hturns' : rs.length < turns := by simpa using hturns
    by_cases hc : cacheable reads r = true
    · rw [if_pos hc] at hturn
      have hcached := cached_entryFor hS hsteady hsits.served (by rw [hR]; simp) hc
      obtain ⟨w2, happend, hsits⟩ := cacheAppend_sits (entryFor r) hsits
      have hentries : cachedOf reads (r :: rs) = entryFor r :: cachedOf reads rs := by
        rw [cachedOf_cons, if_pos hc]
      have hmid : ∀ mid, l ++ cachedOf reads (r :: mid) =
          l ++ [entryFor r] ++ cachedOf reads mid := by
        intro mid
        rw [cachedOf_cons, if_pos hc]
        simp
      -- the walk after the matchers have been asked
      have hwalk : ∀ {x : (Option Entry × List Entry) × CmdWorld Vars β},
          (if accepts stop (entryFor r) = true then pure (some (entryFor r), [])
            else do
              let r' ← walk B env stop keep turns
              pure (r'.1, if accepts keep (entryFor r) = true then entryFor r :: r'.2 else r'.2) :
                Talk β _) w2 =
            .ok x → walk B env stop keep (turns + 1) w = .ok x := by
        intro x hx
        refine bind_ok.mpr ⟨_, _, hturn, ?_⟩
        refine bind_ok.mpr ⟨_, _, lift_ok.mpr ⟨eq_accepts hstop hcached, rfl⟩, ?_⟩
        refine bind_ok.mpr ⟨_, _, lift_ok.mpr ⟨eq_accepts hkeep hcached, rfl⟩, ?_⟩
        exact bind_ok.mpr ⟨_, _, happend, hx⟩
      by_cases hfound : accepts stop (entryFor r) = true
      · refine ⟨(some (entryFor r), []), w2, [r], rs, hwalk (by rw [if_pos hfound]; rfl), rfl, ?_,
          ?_, by simp⟩
        · rw [hmid]
          simpa using hsits
        · rw [hentries, List.find?_cons_of_pos hfound]
      · obtain ⟨r', w', mid, rest, hrest, hsplit, hsits', hfirst, hkept⟩ :=
          walk_sits hstop hkeep hR' hturns' hsits
        refine ⟨(r'.1, if accepts keep (entryFor r) = true then entryFor r :: r'.2 else r'.2), w',
          r :: mid, rest,
          hwalk ?_, by rw [hsplit]; rfl, ?_, ?_, fun hnone => ?_⟩
        · rw [if_neg hfound]
          exact bind_ok.mpr ⟨_, _, hrest, rfl⟩
        · rw [hmid]
          exact hsits'
        · rw [hentries, List.find?_cons_of_neg hfound]
          exact hfirst
        · rw [hentries, List.filter_cons, ← hkept hnone]
    · rw [if_neg hc] at hturn
      have hentries : ∀ mid, cachedOf reads (r :: mid) = cachedOf reads mid := by
        intro mid
        rw [cachedOf_cons, if_neg hc]
      obtain ⟨r', w', mid, rest, hrest, hsplit, hsits', hfirst, hkept⟩ :=
        walk_sits hstop hkeep hR' hturns' hsits
      refine ⟨r', w', r :: mid, rest, bind_ok.mpr ⟨_, _, hturn, hrest⟩, by rw [hsplit]; rfl,
        ?_, ?_, ?_⟩
      · rw [hentries]
        exact hsits'
      · rw [hentries]
        exact hfirst
      · rw [hentries]
        exact hkept

/-! ### Lookups depend on the repository alone -/

omit hS in
theorem ensureIterator_placed {w : CmdWorld Vars β} (h : Placed J R reads w ∨ Unopened J w) :
    ∃ w', ensureIterator B env w = .ok (true, w') ∧ Placed J R reads w' := by
  rcases h with ⟨pre, post, hR, hsits⟩ | h
  · obtain ⟨itr, hitr, -⟩ := hsits.itr
    refine ⟨w, bind_ok.mpr ⟨w, w, rfl, ?_⟩, pre, post, hR, hsits⟩
    rw [if_pos (by rw [hitr]; rfl)]
    rfl
  · obtain ⟨itr, w1, hstart, hw1⟩ := hsteady.opens w h.served
    have hlist : w1.vars.list = w.vars.list :=
      (quiet_sdrStart (I := fun _ => True) (fun _ _ _ => id) (fun _ _ => id) _ _ _ hstart).1
    have hnext : itr.next = 0 := gives_sdrStart _ _ _ hstart itr rfl
    refine ⟨{ w1 with vars := { w1.vars with listItr := some itr } }, bind_ok.mpr ⟨w, w, rfl, ?_⟩,
      [], R.records, rfl, hlist ▸ h.list, ⟨itr, rfl, ?_⟩, hw1⟩
    · rw [if_neg (by rw [h.itr]; simp)]
      exact bind_ok.mpr ⟨_, _, hstart, rfl⟩
    · rw [hnext]
      exact find_first R

theorem findFirst_placed {cached fresh : Matcher} (hcached : Total cached) (hfresh : Total fresh)
    (hagree : ∀ e, Cached e → accepts fresh e = accepts cached e) {turns : ℕ}
    (hturns : R.records.length < turns) {w : CmdWorld Vars β}
    (h : Placed J R reads w ∨ Unopened J w) :
    ∃ w', findFirst B env turns cached fresh w =
      .ok ((cachedOf reads R.records).find? (accepts cached), w') ∧ Placed J R reads w' := by
  obtain ⟨w1, hensure, pre, post, hR, hsits⟩ := ensureIterator_placed hsteady h
  have hall := cached_cachedOf hS hsteady hsits.served (List.Subset.refl R.records)
  rw [hR, cachedOf_append] at hall ⊢
  have hpre : ∀ e ∈ cachedOf reads pre, Cached e := fun e he => hall e (List.mem_append_left _ he)
  have hentries : entries w1 = .ok (cachedOf reads pre, w1) :=
    bind_ok.mpr ⟨w1, w1, rfl, pure_ok.mpr ⟨hsits.holds.toList_eq, rfl⟩⟩
  rcases hold : (cachedOf reads pre).find? (accepts cached) with _ | e
  · have hlen : post.length < turns := by
      rw [hR, List.length_append] at hturns
      omega
    obtain ⟨r, w2, mid, rest, hwalk, rfl, hsits', hfirst, -⟩ :=
      walk_sits hS hsteady hfresh total_never hR hlen hsits
    refine ⟨w2, bind_ok.mpr ⟨_, _, hensure, ?_⟩, pre ++ mid, rest, by rw [hR]; simp,
      by simpa using hsits'⟩
    simp only [not_true_eq_false, if_false]
    refine bind_ok.mpr ⟨_, _, hentries, ?_⟩
    refine bind_ok.mpr ⟨none, w1, lift_ok.mpr ⟨by rw [firstMatch_eq hcached hpre, hold], rfl⟩, ?_⟩
    refine bind_ok.mpr ⟨_, _, hwalk, pure_ok.mpr ⟨?_, rfl⟩⟩
    rw [hfirst, List.find?_append, hold, Option.none_or]
    exact List.find?_congr fun e he => hagree e (hall e (List.mem_append_right _ he))
  · refine ⟨w1, bind_ok.mpr ⟨_, _, hensure, ?_⟩, pre, post, hR, hsits⟩
    simp only [not_true_eq_false, if_false]
    refine bind_ok.mpr ⟨_, _, hentries, ?_⟩
    refine bind_ok.mpr ⟨some e, w1, lift_ok.mpr ⟨by rw [firstMatch_eq hcached hpre, hold], rfl⟩, ?_⟩
    rw [List.find?_append, hold]
    rfl

theorem findAll_placed {cached fresh : Matcher} (hcached : Total cached) (hfresh : Total fresh)
    (hagree : ∀ e, Cached e → accepts fresh e = accepts cached e) {turns : ℕ}
    (hturns : R.records.length < turns) {w : CmdWorld Vars β}
    (h : Placed J R reads w ∨ Unopened J w) :
    ∃ w', findAll B env turns cached fresh w =
      .ok (some ((cachedOf reads R.records).filter (accepts cached)), w') ∧
      Placed J R reads w' := by
  obtain ⟨w1, hensure, pre, post, hR, hsits⟩ := ensureIterator_placed hsteady h
  have hall := cached_cachedOf hS hsteady hsits.served (List.Subset.refl R.records)
  rw [hR, cachedOf_append] at hall ⊢
  have hpre : ∀ e ∈ cachedOf reads pre, Cached e := fun e he => hall e (List.mem_append_left _ he)
  have hentries : entries w1 = .ok (cachedOf reads pre, w1) :=
    bind_ok.mpr ⟨w1, w1, rfl, pure_ok.mpr ⟨hsits.holds.toList_eq, rfl⟩⟩
  have hlen : post.length < turns := by
    rw [hR, List.length_append] at hturns
    omega
  obtain ⟨r, w2, mid, rest, hwalk, rfl, hsits', hfirst, hkept⟩ :=
    walk_sits hS hsteady total_never hfresh hR hlen hsits
  have hnone : r.1 = none := by
    rw [hfirst, List.find?_eq_none]
    simp [accepts, never]
  have hsame : (cachedOf reads (mid ++ rest)).filter (accepts fresh) =
      (cachedOf reads (mid ++ rest)).filter (accepts cached) :=
    List.filter_congr fun e he => hagree e (hall e (List.mem_append_right _ he))
  refine ⟨w2, ?_, pre ++ mid, rest, by rw [hR]; simp, by simpa using hsits'⟩
  refine bind_ok.mpr ⟨_, _, hensure, ?_⟩
  simp only [not_true_eq_false, if_false]
  refine bind_ok.mpr ⟨_, _, hentries, ?_⟩
  refine bind_ok.mpr ⟨_, _, lift_ok.mpr ⟨allMatches_eq hcached hpre, rfl⟩, ?_⟩
  refine bind_ok.mpr ⟨_, _, hwalk, pure_ok.mpr ⟨?_, rfl⟩⟩
  rw [hkept hnone, hsame, List.filter_append]

theorem listCache_placed {turns : ℕ} (hturns : R.records.length < turns) {w : CmdWorld Vars β}
    (h : Placed J R reads w ∨ Unopened J w) :
    ∃ w', listCache B env turns w = .ok (0, w') ∧ Placed J R reads w' := by
  obtain ⟨w1, hensure, pre, post, hR, hsits⟩ := ensureIterator_placed hsteady h
  have hlen : post.length < turns := by
    rw [hR, List.length_append] at hturns
    omega
  obtain ⟨r, w2, mid, rest, hwalk, rfl, hsits', -⟩ :=
    walk_sits hS hsteady total_never total_never hR hlen hsits
  refine ⟨w2, ?_, pre ++ mid, rest, by rw [hR]; simp, by simpa using hsits'⟩
  refine bind_ok.mpr ⟨_, _, hensure, ?_⟩
  simp only [not_true_eq_false, if_false]
  exact bind_ok.mpr ⟨_, _, hwalk, rfl⟩

/-- **A lookup gives what the whole repository gives**, wherever the iterator stands. -/
theorem ask_placed {turns : ℕ} (hturns : R.records.length < turns) {w : CmdWorld Vars β}
    (h : Placed J R reads w ∨ Unopened J w) (q : Query) :
    ∃ w', ask B env turns q w = .ok (answer (cachedOf reads R.records) q, w') ∧
    Placed J R reads w' := by
  cases q with
  | numtype genId num rtype =>
    obtain ⟨w', hfind, hplaced⟩ := findFirst_placed hS hsteady (total_numtype genId num rtype)
      (total_numtype genId num rtype) (fun _ _ => rfl) hturns h
    exact ⟨w', bind_ok.mpr ⟨_, _, hfind, rfl⟩, hplaced⟩
  | sensortype rtype =>
    obtain ⟨w', hfind, hplaced⟩ := findAll_placed hS hsteady (total_sensortype rtype)
      (total_sensortype rtype) (fun _ _ => rfl) hturns h
    exact ⟨w', bind_ok.mpr ⟨_, _, hfind, rfl⟩, hplaced⟩
  | entity entity =>
    have hagree : ∀ e, Cached e →
        accepts (matchEntityFresh entity) e = accepts (matchEntityCached entity) e := by
      intro e he
      rw [accepts, matchEntity_agree entity he.kind, accepts]
    obtain ⟨w', hfind, hplaced⟩ := findAll_placed hS hsteady (total_entity entity)
      (total_entityFresh entity) hagree hturns h
    exact ⟨w', bind_ok.mpr ⟨_, _, hfind, rfl⟩, hplaced⟩
  | type rtype =>
    obtain ⟨w', hfind, hplaced⟩ := findAll_placed hS hsteady (total_type rtype) (total_type rtype)
      (fun _ _ => rfl) hturns h
    exact ⟨w', bind_ok.mpr ⟨_, _, hfind, rfl⟩, hplaced⟩
  | id num text =>
    have hagree : ∀ e, Cached e →
        accepts (matchIdFresh num text) e = accepts (matchIdCached num text) e := by
      intro e _
      rw [accepts, matchId_agree, accepts]
    obtain ⟨w', hfind, hplaced⟩ := findFirst_placed hS hsteady (total_id num text)
      (total_idFresh num text) hagree hturns h
    exact ⟨w', bind_ok.mpr ⟨_, _, hfind, rfl⟩, hplaced⟩
  | cache =>
    obtain ⟨w', hlist, hplaced⟩ := listCache_placed hS hsteady hturns h
    exact ⟨w', bind_ok.mpr ⟨_, _, hlist, rfl⟩, hplaced⟩

/-- After any lookups, the list has the records that were walked. -/
theorem askAll_placed {turns : ℕ} (hturns : R.records.length < turns) : ∀ (qs : List Query)
    {w : CmdWorld Vars β}, Placed J R reads w ∨ Unopened J w →
    ∃ w', askAll B env turns qs w = .ok ((), w') ∧ (Placed J R reads w' ∨ Unopened J w')
  | [], w, h => ⟨w, rfl, h⟩
  | q :: qs, w, h => by
    obtain ⟨w1, h1, hplaced⟩ := ask_placed hS hsteady hturns h q
    obtain ⟨w', h', hw'⟩ := askAll_placed hturns qs (.inl hplaced)
    exact ⟨w', bind_ok.mpr ⟨_, _, h1, h'⟩, hw'⟩

end Steady

/-- **The cache is transparent.** After any lookups from an empty cache, a lookup returns what it
returns on the empty cache, and the list has the cacheable records of the part of the chain that was
walked. -/
theorem lookup_transparent {β : Type} {J : β → ℤ → Prop} {B : Bmc β} {env : Env β} {R : Repository}
    {reads : Record → Bool} (hS : Serves (fun b => ∃ n, J b n) B R)
    (hsteady : Steady J B env R reads) {turns : ℕ}
    (hturns : R.records.length < turns) {w : CmdWorld Vars β} (hw : Unopened J w) (qs : List Query)
    (q : Query) :
    ∃ a w1 w2 w3, askAll B env turns qs w = .ok ((), w1) ∧ ask B env turns q w1 = .ok (a, w2) ∧
      ask B env turns q w = .ok (a, w3) ∧
      ∃ pre post itr, R.records = pre ++ post ∧ w2.vars.listItr = some itr ∧
        R.find itr.next = front post ∧
        Linked.Holds w2.vars.list ((pre.filter (cacheable reads)).map entryFor) := by
  obtain ⟨w1, h1, hw1⟩ := askAll_placed hS hsteady hturns qs (.inr hw)
  obtain ⟨w2, h2, pre, post, hR, hsits⟩ := ask_placed hS hsteady hturns hw1 q
  obtain ⟨w3, h3, -⟩ := ask_placed hS hsteady hturns (.inr hw) q
  obtain ⟨itr, hitr, hfind⟩ := hsits.itr
  exact ⟨_, w1, w2, w3, h1, h2, h3, pre, post, itr, hR, hitr, hfind, hsits.holds⟩

/-! ### A BMC that serves steadily -/

theorem sdrStart_serving {R : Repository} {env : Env Unit} (hne : UInt8.ofNat R.records.length ≠ 0)
    (w : CmdWorld Vars Unit) :
    ∃ itr w', sdrStart (serving R) env w = .ok (some itr, w') ∧
      w'.vars.maxRead = w.vars.maxRead := by
  have hnotempty : ¬ (UInt8.ofNat R.records.length = 0 ∧ (0 : UInt8) = 0) := fun h => hne h.1
  have happ : (serving R w.device ⟨netfnAppCmd, 0, 1, []⟩).1 =
      some (.of [0x20, 0, 0, 0, 0x02, 0x02]) := rfl
  set w1 := w.asked (serving R) ⟨netfnAppCmd, 0, 1, []⟩
  have hreserve : ∀ (b : Bool) (v : CmdWorld Vars Unit),
      ∃ itr v', reserve (serving R) b v = .ok (some itr, v') ∧ v'.vars = v.vars := by
    intro b v
    have hreply : (serving R v.device (reserveRequest b)).1 = some (.of [1, 0]) := by
      rcases b <;> rfl
    have hgranted : getReservation (serving R) b v =
        .ok (some 1, v.asked (serving R) (reserveRequest b)) :=
      bind_ok.mpr ⟨_, _, ask_ok.mpr ⟨hreply, rfl⟩, rfl⟩
    exact ⟨⟨1, 0, b⟩, _, bind_ok.mpr ⟨_, _, hgranted, rfl⟩, rfl⟩
  have hopen : ∃ itr w', (if w1.vars.useBuiltIn then openDevice (serving R)
      else openRepository (serving R) env :
      Talk Unit (Option Itr)) w1 = .ok (some itr, w') ∧ w'.vars = w1.vars := by
    split_ifs
    · obtain ⟨itr, w', h, hvars⟩ := hreserve true (w1.asked (serving R) ⟨netfnSensor, 0, 0x20, []⟩)
      exact ⟨itr, w', bind_ok.mpr ⟨_, _, ask_ok.mpr ⟨rfl, rfl⟩, h⟩, hvars⟩
    · obtain ⟨itr, w', h, hvars⟩ :=
        hreserve false (w1.asked (serving R) ⟨netfnStorage, 0, 0x20, []⟩)
      refine ⟨itr, w', bind_ok.mpr ⟨some (.of [0x51, UInt8.ofNat R.records.length, 0]), _,
        ask_ok.mpr ⟨rfl, rfl⟩, ?_⟩, hvars⟩
      change (if UInt8.ofNat R.records.length = 0 ∧ (0 : UInt8) = 0 then _
        else _ : Talk Unit (Option Itr)) _ = _
      rw [if_neg hnotempty]
      exact bind_ok.mpr ⟨true, _, rfl, h⟩
  obtain ⟨itr, w', h, hvars⟩ := hopen
  refine ⟨itr, w', bind_ok.mpr ⟨_, _, ask_ok.mpr ⟨happ, rfl⟩, ?_⟩, by rw [hvars]; rfl⟩
  exact bind_ok.mpr ⟨w1, w1, rfl, h⟩

theorem steady_serving {R : Repository} {env : Env Unit} (henv : 2 < env.maxResponse)
    (hne : UInt8.ofNat R.records.length ≠ 0)
    (hrecords : ∀ r ∈ R.records, r.body.length ≤ 250 ∧ recordLengthValid r.type r.body = true) :
    Steady (fun _ n => 0 ≤ n) (serving R) env R fun _ => true where
  opens w hw := by
    obtain ⟨itr, w', h, hmax⟩ := sdrStart_serving hne w
    exact ⟨itr, w', h, le_of_le_of_eq hw hmax.symm⟩
  headers w itr hw := by
    have hmax : ∀ {r w'}, getNextHeader (serving R) itr w = .ok (r, w') →
        Served (fun _ n => 0 ≤ n) w' := by
      intro r w' h
      have hvars : w'.vars = w.vars := (vars_getNextHeader itr).rel h
      exact le_of_le_of_eq hw (congrArg Vars.maxRead hvars).symm
    rcases hfind : R.find itr.next with _ | p
    · obtain ⟨⟨o, itr'⟩, w', h⟩ := returns_of_never (fun e => never_getNextHeader itr) w
      refine ⟨o, itr', w', h, ?_, hmax h⟩
      rcases o with _ | header
      · rfl
      · obtain ⟨p, hp, -⟩ := getNextHeader_serves (serves_serving R) h trivial
        rw [hfind] at hp
        cases hp
    · obtain ⟨h, itr', w', hh⟩ :=
        getNextHeader_readable (readable_serving henv hrecords) trivial hfind
      exact ⟨some h, itr', w', hh, rfl, hmax hh⟩
  records w itr p hw hp := by
    obtain ⟨data, itr', w', h⟩ := (readable_serving henv hrecords).record w itr p trivial hw hp
    exact ⟨some data, itr', w', h, rfl, getRecord_nonneg h⟩

/-- A controller, an OEM record that is not cached, and a FRU. -/
def threeRecords : Repository where
  records := [Invariant.controllerRecord,
    ⟨2, 0x51, 0xc0, [1, 2, 3], by decide, by decide⟩,
    ⟨4, 0x51, 0x11, [0x20, 0, 0, 0, 0, 0, 0, 7, 1, 0, 0xc1, 0x46], by decide, by decide⟩]
  nodup := by decide
  ne_zero := by decide
  ne_end := by decide

/-- The name of the FRU was looked up before its type. -/
theorem lookup_transparent_three : ∃ a w1 w2 w3,
    askAll (serving threeRecords) plainEnv 4 [.id (-1) [0x46]]
      { vars := {}, device := () } = .ok ((), w1) ∧
    ask (serving threeRecords) plainEnv 4 (.type 0x11) w1 = .ok (a, w2) ∧
    ask (serving threeRecords) plainEnv 4 (.type 0x11)
      { vars := {}, device := () } = .ok (a, w3) := by
  have hserves : Serves (fun _ : Unit => ∃ n : ℤ, 0 ≤ n) (serving threeRecords) threeRecords :=
    ⟨fun _ _ _ _ => ⟨0, le_rfl⟩, fun b itr id off len r _ =>
      (serves_serving threeRecords).answers b itr id off len r trivial⟩
  have hsteady : Steady (fun _ n => 0 ≤ n) (serving threeRecords) plainEnv threeRecords fun _ =>
      true :=
    steady_serving (by decide) (by decide) (by decide)
  obtain ⟨a, w1, w2, w3, h1, h2, h3, -⟩ := lookup_transparent hserves hsteady
    (by decide : threeRecords.records.length < 4) (w := { vars := {}, device := () })
    ⟨Linked.holds_empty, rfl, le_rfl⟩ [.id (-1) [0x46]] (.type 0x11)
  exact ⟨a, w1, w2, w3, h1, h2, h3⟩

end Ipmitool.Sdr.Transparency
