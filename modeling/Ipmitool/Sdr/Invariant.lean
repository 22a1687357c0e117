import Ipmitool.Sdr.Cache
import Ipmitool.Sdr.Served

/-! # The representation of the cache

The operations of a process on the list of records, in any order. `Rep K` is the invariant: the list
is linked up with its tail at the end, every entry has a record of its type, and `K` holds of the
BMC, the iterator and the entries. `Kept K` says what `K` has to stand, so that every operation
keeps `Rep K` and unwraps no null (`perform_rep`); `K` is either trivial, or says that no record of
the repository is twice on the list or ahead of the iterator (`Once`).

A dump breaks it: it appends entries with `raw` in the place of `record`. -/

namespace Ipmitool.Sdr.Invariant

open Ipmitool.Lib Ipmitool.Lib.Bytes Ipmitool.Lib.Machine Ipmitool.Lib.Dialogue
open Ipmitool.Core.Types hiding Entry
open Ipmitool.Core.Interface Ipmitool.Sdr.Records Ipmitool.Sdr.Walk Ipmitool.Sdr.Cache
  Ipmitool.Sdr.Served

/-! ### Operations -/

/-- What a shell can do with the list. -/
inductive Op where
  | numtype (genId : UInt16) (num rtype : UInt8)
  | sensortype (rtype : UInt8)
  | entity (entity : EntityId)
  | type (rtype : UInt8)
  | id (num : ℤ) (text : List UInt8)
  | cache
  | print (rtype : UInt8)
  | printType (rtype : UInt8)
  | printEntity (entity : EntityId)
  | printId (num : ℤ) (text : List UInt8)
  | dump (opens : Bool)
  | fromFile (file : Option (List UInt8))
  | empty

section
variable {β : Type} (B : Bmc β) (env : Env β) (show_ : Printer β) (turns : ℕ)

/-- An operation, without its result. -/
def perform : Op → Talk β Unit
  | .numtype genId num rtype => do let _ ← findSdrBynumtype B env turns genId num rtype
  | .sensortype rtype => do let _ ← findSdrBysensortype B env turns rtype
  | .entity entity => do let _ ← findSdrByentity B env turns entity
  | .type rtype => do let _ ← findSdrBytype B env turns rtype
  | .id num text => do let _ ← findSdrByid B env turns num text
  | .cache => do let _ ← listCache B env turns
  | .print rtype => do let _ ← printSdr B env turns show_ rtype
  | .printType rtype => do
    let found ← findSdrBysensortype B env turns rtype
    let _ ← printFound show_ found
  | .printEntity entity => do
    let found ← findSdrByentity B env turns entity
    let _ ← printFound show_ found
  | .printId num text => do
    let found ← findSdrByid B env turns num text
    let _ ← printFound show_ (found.map fun e => [e])
  | .dump opens => do let _ ← dumpBin B env turns opens
  | .fromFile file => do let _ ← listCacheFromfile file
  | .empty => sdrListEmpty

end

/-! ### The invariant -/

/-- A property of the BMC, the iterator and the entries. -/
abbrev Extra (β : Type) := β → Option Itr → List Entry → Prop

/-- The list is linked up and its entries have their records. -/
def Rep {β : Type} (K : Extra β) (w : CmdWorld Vars β) : Prop :=
  ∃ l, Linked.Holds w.vars.list l ∧ (∀ e ∈ l, Cached e) ∧ K w.device w.vars.listItr l

/-- What is required of `K`. -/
structure Kept {β : Type} (B : Bmc β) (env : Env β) (show_ : Printer β) (K : Extra β) : Prop where
  walks : ∀ {b c itr l}, isWalk c = true → K b itr l → K (B b c).2 itr l
  fills : ∀ {b n itr l}, K b itr l → K (env.addFromSensors b n).2.1 itr l
  shows : ∀ {e b itr l}, K b itr l → K (show_ e b).2 itr l
  opens : ∀ {b itr l}, K b none l → itr.next = 0 → K b (some itr) l
  moves : ∀ {b itr l} (itr' : Itr), K b (some itr) l → itr'.next = itr.next → K b (some itr') l
  clears : ∀ {b itr l}, K b itr l → K b none []
  reads : ∀ {w w' : CmdWorld Vars β} {itr itr' : Itr} {h : Header} {l : List Entry},
    getNextHeader B itr w = .ok ((some h, itr'), w') → K w.device (some itr) l →
    K w.device (some itr') l ∧ ∀ e, e.id = h.id → K w.device (some itr') (l ++ [e])

/-- The repository is open, too. -/
def Open {β : Type} (K : Extra β) (w : CmdWorld Vars β) : Prop := Rep K w ∧ w.vars.listItr.isSome

/-- An entry may be appended. -/
def Ready {β : Type} (K : Extra β) (e : Entry) (w : CmdWorld Vars β) : Prop :=
  Cached e ∧ w.vars.listItr.isSome ∧ ∃ l, Linked.Holds w.vars.list l ∧ (∀ x ∈ l, Cached x) ∧
    K w.device w.vars.listItr (l ++ [e])

/-! ### The walk keeps the invariant -/

/-- What does not touch the cache keeps the invariant. -/
theorem Rep.quiet {β : Type} {K : Extra β} {w w' : CmdWorld Vars β} (h : Rep K w)
    (hq : ∀ l, (Quiet fun b => K b w.vars.listItr l).rel w w') : Rep K w' := by
  obtain ⟨l, hl, hc, hk⟩ := h
  obtain ⟨hlist, hitr, hkeep⟩ := hq l
  exact ⟨l, hlist ▸ hl, hc, hitr ▸ hkeep hk⟩

theorem cacheAppend_rep {β : Type} {K : Extra β} (e : Entry) :
    Triple .nullUnwrap (Ready K e) (cacheAppend e) fun _ w => Open K w ∧ Cached e := by
  rintro w ⟨hcached, hsome, l, hl, hc, hk⟩
  obtain ⟨c, happend, hholds⟩ := cacheAppend_ok e hl
  rw [happend]
  refine ⟨by simp, fun a w' h => ?_⟩
  obtain ⟨-, rfl⟩ := Prod.mk.inj (Except.ok.inj h)
  refine ⟨⟨⟨l ++ [e], hholds, fun x hx => ?_, hk⟩, hsome⟩, hcached⟩
  rcases List.mem_append.mp hx with hx | hx
  · exact hc x hx
  · rw [List.mem_singleton.mp hx]
    exact hcached

section Turn
variable {β : Type} {B : Bmc β} {env : Env β} {itr itr' : Itr} {w w' : CmdWorld Vars β}

theorem never_turn : Never .nullUnwrap (turn B env itr) := by
  refine .bind (never_getNextHeader itr) fun r => ?_
  rcases r with ⟨_ | h, itr1⟩
  · exact .pure _
  · exact .bind (never_getRecord h itr1) fun _ => .pure _

/-- What a turn may do: there is no further header, or a header and perhaps a record are read. -/
theorem turn_cases {o : Option (Option Entry)} (h : turn B env itr w = .ok ((o, itr'), w')) :
    (o = none ∧ getNextHeader B itr w = .ok ((none, itr'), w')) ∨
    ∃ header itr1 w1 r, getNextHeader B itr w = .ok ((some header, itr1), w1) ∧
      getRecord B env header itr1 w1 = .ok ((r, itr'), w') ∧
      o = some ((r.filter fun _ => isCachedRecordType header.type).map fun record =>
        { id := header.id, type := header.type, record := some record }) := by
  obtain ⟨⟨header, itr1⟩, w1, h1, h⟩ := bind_ok.mp h
  rcases header with _ | header
  · obtain ⟨he, rfl⟩ := pure_ok.mp h
    obtain ⟨rfl, rfl⟩ := Prod.mk.inj he
    exact .inl ⟨rfl, h1⟩
  · obtain ⟨⟨r, itr2⟩, w2, h2, h⟩ := bind_ok.mp h
    obtain ⟨he, rfl⟩ := pure_ok.mp h
    obtain ⟨rfl, rfl⟩ := Prod.mk.inj he
    exact .inr ⟨header, itr1, w1, r, h1, h2, rfl⟩

theorem cached_of_record {header : Header} {itr1 : Itr} {w1 : CmdWorld Vars β}
    {r : Option (List UInt8)}
    (h : getRecord B env header itr1 w1 = .ok ((r, itr'), w')) {e : Entry}
    (he : (r.filter fun _ => isCachedRecordType header.type).map (fun record =>
      ({ id := header.id, type := header.type, record := some record } : Entry)) = some e) :
    Cached e ∧ e.id = header.id := by
  obtain ⟨record, hr, rfl⟩ := Option.map_eq_some_iff.mp he
  obtain ⟨rfl, hkind⟩ := Option.filter_eq_some_iff.mp hr
  exact ⟨⟨hkind, record, rfl, getRecord_valid h⟩, rfl⟩

end Turn

/-! ### Matchers -/

theorem total_type (rtype : UInt8) : Total (matchType rtype) := fun _ _ => ⟨_, rfl⟩

theorem total_entityFresh (entity : EntityId) : Total (matchEntityFresh entity) := by
  intro e he
  rw [matchEntity_agree entity he.kind]
  exact total_entity entity e he

theorem total_idFresh (num : ℤ) (id : List UInt8) : Total (matchIdFresh num id) := by
  intro e he
  rw [matchId_agree]
  exact total_id num id e he

theorem accessed_cached {e : Entry} (h : Cached e) : accessed e ≠ .error .nullUnwrap := by
  obtain ⟨r, hr⟩ := h.typed
  unfold accessed
  rcases kindOf e.type with _ | k
  · simp only
    split_ifs
    · rw [hr]
      exact fun h => by cases h
    · exact fun h => by cases h
  · rcases k <;> simp only [hr] <;> exact fun h => by cases h

section Keep
variable {β : Type} {B : Bmc β} {env : Env β} {show_ : Printer β} {K : Extra β}
  (hK : Kept B env show_ K)
include hK

theorem ensureIterator_rep :
    Triple .nullUnwrap (Rep K) (ensureIterator B env) fun b w =>
      Rep K w ∧ (b = true → w.vars.listItr.isSome) := by
  refine .bind (M := fun a w => Rep K w ∧ a = w) (.get fun w h => ⟨h, rfl⟩) fun w0 =>
    .ite ?_ fun hnone => ?_
  · intro hsome
    exact .pure fun w h => ⟨h.1, fun _ => h.2 ▸ hsome⟩
  · intro w hw
    obtain ⟨hrep, rfl⟩ := hw
    have hitr : w0.vars.listItr = none := by simpa using hnone
    refine ⟨fun h => ?_, fun b w' h => ?_⟩
    · rcases bind_error.mp h with h | ⟨itr, w1, -, h⟩
      · exact never_sdrStart _ h
      · exact (Never.modify _).bind (fun _ => .pure _) w1 h
    · obtain ⟨itr, w1, hstart, h⟩ := bind_ok.mp h
      obtain ⟨_, w2, hset, h⟩ := bind_ok.mp h
      obtain rfl := modify_ok.mp hset
      obtain ⟨rfl, rfl⟩ := pure_ok.mp h
      have hrep1 : Rep K w1 := hrep.quiet fun l =>
        quiet_sdrStart (fun _ _ hc => hK.walks hc) (fun _ _ => hK.fills) _ _ _ hstart
      have hitr1 : w1.vars.listItr = none :=
        (quiet_sdrStart (I := fun _ => True) (fun _ _ _ => id)
          (fun _ _ => id) _ _ _ hstart).2.1.trans hitr
      obtain ⟨l, hl, hc, hk⟩ := hrep1
      rw [hitr1] at hk
      refine ⟨⟨l, hl, hc, ?_⟩, id⟩
      rcases itr with _ | itr
      · exact hk
      · exact hK.opens hk (gives_sdrStart _ _ _ hstart itr rfl)

/-- A turn gives an entry with its record that may be appended. -/
theorem listTurn_rep : Triple .nullUnwrap (Open K) (listTurn B env) fun o w =>
    match o with
    | some (some e) => Ready K e w
    | _ => Open K w := by
  rintro w ⟨⟨l, hl, hc, hk⟩, hsome⟩
  obtain ⟨itr, hitr⟩ := Option.isSome_iff_exists.mp hsome
  rw [hitr] at hk
  have hturn : listTurn B env w = (do
      let r ← turn B env itr
      setItr r.2
      return r.1 : Talk β _) w := by
    unfold listTurn
    simp only [bind, StateT.bind, get, getThe, MonadStateOf.get, StateT.get, pure, Except.pure,
      Except.bind, hitr]
  rw [hturn]
  refine ⟨fun h => ?_, fun o w' h => ?_⟩
  · rcases bind_error.mp h with h | ⟨r, w1, -, h⟩
    · exact never_turn _ h
    · exact (Never.modify _).bind (fun _ => .pure _) w1 h
  · obtain ⟨⟨o', itr'⟩, w1, hw1, h⟩ := bind_ok.mp h
    obtain ⟨_, w2, hset, h⟩ := bind_ok.mp h
    obtain rfl := modify_ok.mp hset
    obtain ⟨rfl, rfl⟩ := pure_ok.mp h
    have hwalks : ∀ (i : Option Itr) (l : List Entry) b c, isWalk c = true → K b i l →
        K (B b c).2 i l :=
      fun _ _ _ _ hc => hK.walks hc
    rcases turn_cases hw1 with ⟨rfl, h1⟩ | ⟨header, itr1, w0, r, h1, h2, rfl⟩
    · obtain ⟨hlist, -, hkeep⟩ := quiet_getNextHeader (hwalks (some itr) l) itr _ _ _ h1
      exact ⟨⟨l, hlist ▸ hl, hc, hK.moves itr' (hkeep hk) (getNextHeader_none h1)⟩, rfl⟩
    · obtain ⟨hk1, happend⟩ := hK.reads h1 hk
      -- what holds after the header holds after the record
      have hafter : ∀ l', K w.device (some itr1) l' →
          w1.vars.list = w.vars.list ∧ K w1.device (some itr') l' := by
        intro l' hk'
        obtain ⟨hlist1, -, hkeep1⟩ := quiet_getNextHeader (hwalks (some itr1) l') itr _ _ _ h1
        obtain ⟨hlist2, -, hkeep2⟩ := quiet_getRecord (hwalks (some itr1) l') header itr1 _ _ _ h2
        exact ⟨hlist2.trans hlist1, hK.moves itr' (hkeep2 (hkeep1 hk')) (getRecord_next h2)⟩
      have hlist := (hafter l hk1).1
      rcases he : (r.filter fun _ => isCachedRecordType header.type).map (fun record =>
          ({ id := header.id, type := header.type, record := some record } : Entry)) with _ | e
      · exact ⟨⟨l, hlist ▸ hl, hc, (hafter l hk1).2⟩, rfl⟩
      · obtain ⟨hcached, hid⟩ := cached_of_record h2 he
        exact ⟨hcached, rfl, l, hlist ▸ hl, hc, (hafter _ (happend e hid)).2⟩

theorem walk_rep {stop keep : Matcher} (hstop : Total stop) (hkeep : Total keep) : ∀ turns,
    Triple .nullUnwrap (Open K) (walk B env stop keep turns) fun r w =>
      Open K w ∧ (∀ e ∈ r.1, Cached e) ∧ ∀ e ∈ r.2, Cached e
  | 0 => .pure fun w h => ⟨h, by simp, by simp⟩
  | turns + 1 => by
    refine .bind (listTurn_rep hK) fun o => ?_
    rcases o with _ | _ | e
    · exact .pure fun w h => ⟨h, by simp, by simp⟩
    · exact walk_rep hstop hkeep turns
    · have hlift : ∀ {m : Matcher}, Total m → Triple .nullUnwrap (Ready K e)
          (liftM (m e) : Talk β Bool) fun _ => Ready K e := by
        intro m hm
        refine .lift (fun w h => ?_) fun w b h _ => h
        obtain ⟨b, hb⟩ := hm e h.1
        rw [hb]
        exact fun h => by cases h
      refine .bind (hlift hstop) fun found => .bind (hlift hkeep) fun kept =>
        .bind (cacheAppend_rep e) fun _ => .ite (fun _ => ?_) fun _ => ?_
      · refine .pure fun w h => ⟨h.1, fun x hx => ?_, by simp⟩
        rw [← Option.some.inj hx]
        exact h.2
      · refine .and_right fun hcached => .bind (walk_rep hstop hkeep turns) fun r =>
          .pure fun w h => ?_
        refine ⟨h.1, h.2.1, fun x hx => ?_⟩
        by_cases hkept : kept = true
        · rw [if_pos hkept] at hx
          rcases List.mem_cons.mp hx with rfl | hx
          · exact hcached
          · exact h.2.2 x hx
        · rw [if_neg hkept] at hx
          exact h.2.2 x hx

/-! ### Lookups and printing -/

omit hK in
theorem entries_rep : Triple .nullUnwrap (Open K) (entries : Talk β (List Entry))
    fun es w => Open K w ∧ ∀ e ∈ es, Cached e := by
  refine .bind (M := fun a w => Open K w ∧ a = w) (.get fun w h => ⟨h, rfl⟩) fun w0 =>
    .pure fun w h => ?_
  obtain ⟨hopen, rfl⟩ := h
  obtain ⟨l, hl, hc, -⟩ := hopen.1
  rw [hl.toList_eq]
  exact ⟨hopen, hc⟩

theorem findFirst_rep {cached fresh : Matcher} (hcached : Total cached) (hfresh : Total fresh)
    (turns : ℕ) :
    Triple .nullUnwrap (Rep K) (findFirst B env turns cached fresh) fun o w => Rep K w ∧ ∀ e ∈ o,
    Cached e := by
  refine .bind (ensureIterator_rep hK) fun b => .ite (fun _ => ?_) fun hb => ?_
  · exact .pure fun w h => ⟨h.1, by simp⟩
  · refine .bind (M := fun es w => Open K w ∧ ∀ e ∈ es, Cached e) ?_ fun es => ?_
    · exact entries_rep.mono (fun w h => ⟨h.1, h.2 (not_not.mp hb)⟩) fun _ _ => id
    · refine .and_right fun hes => .bind (M := fun o w => Open K w ∧ ∀ e ∈ o, Cached e) ?_ fun o =>
        ?_
      · rw [firstMatch_eq hcached hes]
        refine .lift (fun w _ => by simp) fun w o h ho => ⟨h, fun e he => ?_⟩
        rw [← Except.ok.inj ho] at he
        exact hes e (List.mem_of_find?_eq_some he)
      · rcases o with _ | e
        · exact .bind (M := fun r w => Open K w ∧ (∀ e ∈ r.1, Cached e) ∧ ∀ e ∈ r.2, Cached e)
            ((walk_rep hK hfresh total_never turns).mono (fun w h => h.1) fun _ _ => id)
            fun r => .pure fun w h => ⟨h.1.1, h.2.1⟩
        · exact .pure fun w h => ⟨h.1.1, h.2⟩

theorem findAll_rep {cached fresh : Matcher} (hcached : Total cached) (hfresh : Total fresh)
    (turns : ℕ) :
    Triple .nullUnwrap (Rep K) (findAll B env turns cached fresh)
      fun o w => Rep K w ∧ ∀ es ∈ o, ∀ e ∈ es, Cached e := by
  refine .bind (ensureIterator_rep hK) fun b => .ite (fun _ => ?_) fun hb => ?_
  · exact .pure fun w h => ⟨h.1, by simp⟩
  · refine .bind (M := fun es w => Open K w ∧ ∀ e ∈ es, Cached e) ?_ fun es => ?_
    · exact entries_rep.mono (fun w h => ⟨h.1, h.2 (not_not.mp hb)⟩) fun _ _ => id
    · refine .and_right fun hes => .bind (M := fun old w => Open K w ∧
        ∀ e ∈ old, Cached e) ?_ fun old => ?_
      · rw [allMatches_eq hcached hes]
        refine .lift (fun w _ => by simp) fun w o h ho => ⟨h, fun e he => ?_⟩
        rw [← Except.ok.inj ho] at he
        exact hes e (List.mem_of_mem_filter he)
      · refine .and_right fun hold => .bind (walk_rep hK total_never hfresh turns) fun r =>
          .pure fun w h => ?_
        refine ⟨h.1.1, fun l hl e he => ?_⟩
        rw [← Option.some.inj hl] at he
        rcases List.mem_append.mp he with he | he
        · exact hold e he
        · exact h.2.2 e he

theorem listCache_rep (turns : ℕ) : Triple .nullUnwrap (Rep K)
    (listCache B env turns) fun _ => Rep K := by
  refine .bind (ensureIterator_rep hK) fun b => .ite (fun _ => ?_) fun hb => ?_
  · exact .pure fun w h => h.1
  · refine .bind (M := fun _ w => Open K w) ?_ fun _ => .pure fun w h => h.1
    exact (walk_rep hK total_never total_never turns).mono (fun w h => ⟨h.1, h.2 (not_not.mp hb)⟩)
      fun _ _ h => h.1

omit hK in
theorem printRecord_rep {P : CmdWorld Vars β → Prop}
    (hP : ∀ e (w : CmdWorld Vars β), P w → P { w with device := (show_ e w.device).2 })
    (e : Entry) :
    Triple .nullUnwrap P (printRecord show_ e) fun _ => P := by
  refine .bind (M := fun a w => P w ∧ a = w) (.get fun w h => ⟨h, rfl⟩) fun w0 =>
    .bind (M := fun _ => P) (.set fun w h => ?_) fun _ => .pure fun w h => h
  obtain ⟨h, rfl⟩ := h
  exact hP e _ h

theorem Rep.shown (e : Entry) {w : CmdWorld Vars β} (h : Rep K w) :
    Rep K { w with device := (show_ e w.device).2 } := by
  obtain ⟨l, hl, hc, hk⟩ := h
  exact ⟨l, hl, hc, hK.shows hk⟩

omit hK in
theorem printEntries_rep {P : CmdWorld Vars β → Prop}
    (hP : ∀ e (w : CmdWorld Vars β), P w → P { w with device := (show_ e w.device).2 }) :
    ∀ {es : List Entry}, (∀ e ∈ es, Cached e) →
    Triple .nullUnwrap P (printEntries show_ es) fun _ => P
  | [], _ => .pure fun w h => h
  | e :: es, hes => by
    refine .bind (M := fun _ => P) (.bind (M := fun _ => P) ?_ fun _ => ?_) fun ok =>
      .bind (printEntries_rep hP fun x hx => hes x (List.mem_cons_of_mem _ hx)) fun rest =>
        .pure fun w h => h
    · exact .lift (fun w _ => accessed_cached (hes e List.mem_cons_self)) fun w a h _ => h
    · exact printRecord_rep hP e

theorem printWalk_rep (rtype : UInt8) : ∀ turns,
    Triple .nullUnwrap (Open K) (printWalk B env show_ rtype turns) fun _ => Open K
  | 0 => .pure fun w h => h
  | turns + 1 => by
    refine .bind (listTurn_rep hK) fun o => ?_
    rcases o with _ | _ | e
    · exact .pure fun w h => h
    · exact printWalk_rep rtype turns
    · have hshown : ∀ x (w : CmdWorld Vars β), Ready K e w →
    Ready K e { w with device := (show_ x w.device).2 } := by
        rintro x w ⟨hcached, hsome, l, hl, hc, hk⟩
        exact ⟨hcached, hsome, l, hl, hc, hK.shows hk⟩
      have hrest : ∀ ok : Bool, Triple .nullUnwrap (Ready K e) (do
          cacheAppend e
          let rest ← printWalk B env show_ rtype turns
          return ok && rest : Talk β Bool) fun _ => Open K := fun ok =>
        .bind (cacheAppend_rep e) fun _ => .and_right fun _ =>
          .bind (printWalk_rep rtype turns) fun rest =>
          .pure fun w h => h
      exact .ite (fun _ => .bind (printRecord_rep hshown e) hrest) fun _ =>
        .bind (.pure fun w h => h) hrest

theorem printSdr_rep (rtype : UInt8) (turns : ℕ) :
    Triple .nullUnwrap (Rep K) (printSdr B env turns show_ rtype) fun _ => Rep K := by
  refine .bind (ensureIterator_rep hK) fun b => .ite (fun _ => ?_) fun hb => ?_
  · exact .pure fun w h => h.1
  · refine .bind (M := fun es w => Open K w ∧ ∀ e ∈ es, Cached e) ?_ fun es =>
      .and_right fun hes => ?_
    · exact entries_rep.mono (fun w h => ⟨h.1, h.2 (not_not.mp hb)⟩) fun _ _ => id
    · refine .bind (printEntries_rep (fun e w h => ⟨Rep.shown hK e h.1, h.2⟩)
        fun e he => hes e (List.mem_of_mem_filter he)) fun ok =>
          .bind (printWalk_rep hK rtype turns) fun rest => .pure fun w h => h.1

theorem printFound_rep {found : Option (List Entry)} (hfound : ∀ es ∈ found, ∀ e ∈ es, Cached e) :
    Triple .nullUnwrap (Rep K) (printFound show_ found) fun _ => Rep K := by
  refine printEntries_rep (fun e w h => Rep.shown hK e h) fun e he => ?_
  rcases found with _ | es
  · simp at he
  · exact hfound es rfl e he

/-! ### Files -/

omit hK in
theorem cacheFile_cached : ∀ (fuel : ℕ) (bytes : List UInt8),
    ∀ e ∈ (cacheFile fuel bytes).1, Cached e
  | 0, bytes, e, he => by simp [cacheFile] at he
  | fuel + 1, bytes, e, he => by
    rw [cacheFile] at he
    simp only at he
    set data := (bytes.drop 5).take (bytes.getD 4 0).toNat
    split_ifs at he with h1 h2 h3 h4 h5 h6 h7
    · simp at he
    · simp at he
    · exact cacheFile_cached fuel _ e he
    · simp at he
    · simp at he
    · rcases List.mem_cons.mp he with rfl | he
      · exact ⟨h7, data, rfl, h6⟩
      · exact cacheFile_cached fuel _ e he
    · exact cacheFile_cached fuel _ e he
    · exact cacheFile_cached fuel _ e he

omit hK in
theorem appendAll_ok : ∀ (es : List Entry) {w : CmdWorld Vars β}
    {l : List Entry}, Linked.Holds w.vars.list l →
    ∃ c, appendAll es w = .ok ((), { w with vars := { w.vars with list := c } }) ∧
    Linked.Holds c (l ++ es)
  | [], w, l, hl => ⟨w.vars.list, rfl, by simpa using hl⟩
  | e :: es, w, l, hl => by
    obtain ⟨c, hfirst, hc⟩ := cacheAppend_ok e hl
    obtain ⟨c', happend, hc'⟩ :=
      appendAll_ok es (w := { w with vars := { w.vars with list := c } }) hc
    exact ⟨c', bind_ok.mpr ⟨_, _, hfirst, happend⟩, by simpa using hc'⟩

/-- What a file leaves in the iterator. -/
def fileItr (itr : Option Itr) : Itr := itr.getD ⟨0, 0xffff, false⟩

omit hK in
theorem listCacheFromfile_rep (file : Option (List UInt8)) :
    Triple .nullUnwrap (fun w => Rep K w ∧ ∀ bytes ∈ file, ∀ l, Linked.Holds w.vars.list l →
      K w.device w.vars.listItr l →
      K w.device (some (fileItr w.vars.listItr)) (l ++ (cacheFile bytes.length bytes).1))
      (listCacheFromfile file) fun _ => Rep K := by
  rcases file with _ | bytes
  · exact .pure fun w h => h.1
  · rintro w ⟨⟨l, hl, hc, hk⟩, hfile⟩
    obtain ⟨c, happend, hholds⟩ := appendAll_ok (cacheFile bytes.length bytes).1 hl
    refine ⟨fun h => ?_, fun b w' h => ?_⟩
    · rcases bind_error.mp h with h | ⟨_, w1, -, h⟩
      · rw [happend] at h
        cases h
      · exact (Never.modify _).bind (fun _ => .pure _) w1 h
    · obtain ⟨_, w1, h1, h⟩ := bind_ok.mp h
      obtain ⟨-, rfl⟩ := Prod.mk.inj (Except.ok.inj (happend.symm.trans h1))
      obtain ⟨_, w2, hset, h⟩ := bind_ok.mp h
      obtain rfl := modify_ok.mp hset
      obtain ⟨-, rfl⟩ := pure_ok.mp h
      refine ⟨_, hholds, fun e he => ?_, hfile bytes rfl l hl hk⟩
      rcases List.mem_append.mp he with he | he
      · exact hc e he
      · exact cacheFile_cached _ _ e he

theorem sdrListEmpty_rep : Triple .nullUnwrap (Rep K) sdrListEmpty fun _ => Rep K := by
  refine .modify ?_
  rintro w ⟨l, -, -, hk⟩
  exact ⟨[], .clear _, by simp, hK.clears hk⟩

/-! ### Dumps -/

/-- The dump reads a record. -/
def DumpReads (B : Bmc β) (env : Env β) (w : CmdWorld Vars β) : Prop :=
  ∃ itr w1 h itr1 w2 raw itr2 w3, sdrStart B env w = .ok (some itr, w1) ∧
    getNextHeader B itr w1 = .ok ((some h, itr1), w2) ∧
      getRecord B env h itr1 w2 = .ok ((some raw, itr2), w3)

omit hK in
theorem dumpWalk_linked : ∀ (turns : ℕ) (itr : Itr),
    Triple .nullUnwrap (fun w : CmdWorld Vars β => ∃ l, Linked.Holds w.vars.list l)
      (dumpWalk B env turns itr)
      fun _ w => ∃ l, Linked.Holds w.vars.list l
  | 0, itr => .pure fun w h => h
  | turns + 1, itr => by
    have hheader : Triple .nullUnwrap (fun w : CmdWorld Vars β => ∃ l, Linked.Holds w.vars.list l)
        (getNextHeader B itr) fun _ w => ∃ l, Linked.Holds w.vars.list l := by
      rintro w ⟨l, hl⟩
      refine ⟨never_getNextHeader itr w, fun r w' h => ⟨l, ?_⟩⟩
      rw [(quiet_getNextHeader (I := fun _ => True) (fun _ _ _ => id) itr _ _ _ h).1]
      exact hl
    have hrecord : ∀ h itr, Triple .nullUnwrap (fun w : CmdWorld Vars β =>
        ∃ l, Linked.Holds w.vars.list l)
        (getRecord B env h itr) fun _ w => ∃ l, Linked.Holds w.vars.list l := by
      rintro h itr w ⟨l, hl⟩
      refine ⟨never_getRecord h itr w, fun r w' hr => ⟨l, ?_⟩⟩
      rw [(quiet_getRecord (I := fun _ => True) (fun _ _ _ => id) h itr _ _ _ hr).1]
      exact hl
    refine .bind hheader fun r => ?_
    rcases r with ⟨_ | h, itr1⟩
    · exact .pure fun w h => h
    · refine .bind (hrecord h itr1) fun r => ?_
      rcases r with ⟨_ | raw, itr2⟩
      · exact .pure fun w h => h
      · refine .bind (M := fun _ w => ∃ l, Linked.Holds w.vars.list l) ?_ fun _ =>
          dumpWalk_linked turns itr2
        rintro w ⟨l, hl⟩
        obtain ⟨c, happend, hc⟩ := cacheAppend_ok
          { id := h.id, version := h.version, type := h.type, length := h.length,
            raw := some raw } hl
        rw [happend]
        refine ⟨by simp, fun a w' h => ?_⟩
        obtain ⟨-, rfl⟩ := Prod.mk.inj (Except.ok.inj h)
        exact ⟨_, hc⟩

omit hK in
theorem dumpBin_linked (turns : ℕ) (opens : Bool) :
    Triple .nullUnwrap (fun w : CmdWorld Vars β => ∃ l, Linked.Holds w.vars.list l)
      (dumpBin B env turns opens)
      fun _ _ => True := by
  have hstart : Triple .nullUnwrap (fun w : CmdWorld Vars β => ∃ l, Linked.Holds w.vars.list l)
      (sdrStart B env) fun _ w => ∃ l, Linked.Holds w.vars.list l := by
    rintro w ⟨l, hl⟩
    refine ⟨never_sdrStart w, fun r w' h => ⟨l, ?_⟩⟩
    rw [(quiet_sdrStart (I := fun _ => True) (fun _ _ _ => id) (fun _ _ => id) _ _ _ h).1]
    exact hl
  refine .bind hstart fun o => ?_
  rcases o with _ | itr
  · exact .pure fun _ _ => trivial
  · refine .bind (dumpWalk_linked turns itr) fun ok =>
      .ite (fun _ => .pure fun _ _ => trivial) fun _ =>
      .ite (fun _ => .pure fun _ _ => trivial) fun _ => .bind (M := fun _ _ => True)
        (.bind (M := fun _ _ => True) (.get fun _ _ => trivial) fun _ => .pure fun _ _ => trivial)
        fun _ => .pure fun _ _ => trivial

/-- A dump that reads no record keeps the invariant. -/
theorem dumpBin_rep {turns : ℕ} {opens : Bool} {w w' : CmdWorld Vars β} {r : Bool × List UInt8}
    (hrep : Rep K w) (hreads : ¬ DumpReads B env w)
    (h : dumpBin B env turns opens w = .ok (r, w')) : Rep K w' := by
  have hwalks : ∀ l b c, isWalk c = true → K b w.vars.listItr l → K (B b c).2 w.vars.listItr l :=
    fun _ _ _ hc => hK.walks hc
  obtain ⟨o, w1, h1, h⟩ := bind_ok.mp h
  have hq1 : ∀ l, (Quiet fun b => K b w.vars.listItr l).rel w w1 := fun l =>
    quiet_sdrStart (hwalks l) (fun _ _ => hK.fills) _ _ _ h1
  rcases o with _ | itr
  · obtain ⟨-, rfl⟩ := pure_ok.mp h
    exact hrep.quiet hq1
  · obtain ⟨ok, w2, h2, h⟩ := bind_ok.mp h
    have hq2 : ∀ l, (Quiet fun b => K b w.vars.listItr l).rel w w2 := by
      intro l
      rcases turns with _ | turns
      · obtain ⟨-, rfl⟩ := pure_ok.mp h2
        exact hq1 l
      · obtain ⟨⟨o, itr1⟩, w3, h3, h2⟩ := bind_ok.mp h2
        have hq3 := (Quiet _).trans (hq1 l) (quiet_getNextHeader (hwalks l) itr _ _ _ h3)
        rcases o with _ | header
        · obtain ⟨-, rfl⟩ := pure_ok.mp h2
          exact hq3
        · obtain ⟨⟨o, itr2⟩, w4, h4, h2⟩ := bind_ok.mp h2
          have hq4 := (Quiet _).trans hq3 (quiet_getRecord (hwalks l) header itr1 _ _ _ h4)
          rcases o with _ | raw
          · obtain ⟨-, rfl⟩ := pure_ok.mp h2
            exact hq4
          · exact (hreads ⟨_, _, _, _, _, _, _, _, h1, h3, h4⟩).elim
    have hsame : w2 = w' := by
      split_ifs at h
      · obtain ⟨es, w3, hes, h⟩ := bind_ok.mp h
        obtain ⟨_, w4, hget, hes⟩ := bind_ok.mp hes
        obtain ⟨rfl, rfl⟩ := get_ok.mp hget
        obtain ⟨-, rfl⟩ := pure_ok.mp hes
        exact (pure_ok.mp h).2
      · exact (pure_ok.mp h).2
      · exact (pure_ok.mp h).2
    rw [← hsame]
    exact hrep.quiet hq2

/-! ### Operations -/

/-- The step does not dump a record, and what a file brings is compatible with `K`. -/
def Admits (B : Bmc β) (env : Env β) (K : Extra β) (op : Op) (w : CmdWorld Vars β) : Prop :=
  match op with
  | .dump _ => ¬ DumpReads B env w
  | .fromFile file =>
    ∀ bytes ∈ file, ∀ l, Linked.Holds w.vars.list l → K w.device w.vars.listItr l →
      K w.device (some (fileItr w.vars.listItr)) (l ++ (cacheFile bytes.length bytes).1)
  | _ => True

/-- **Every operation that is admitted keeps the invariant**, and unwraps no null. -/
theorem perform_rep (turns : ℕ) (op : Op) :
    Triple .nullUnwrap (fun w => Rep K w ∧ Admits B env K op w) (perform B env show_ turns op)
      fun _ => Rep K := by
  have hfirst : ∀ {cached fresh : Matcher}, Total cached → Total fresh →
      Triple .nullUnwrap (fun w => Rep K w ∧ True) (do let _ ← findFirst B env turns cached fresh)
        fun _ => Rep K := fun hcached hfresh =>
    .bind ((findFirst_rep hK hcached hfresh turns).mono (fun w h => h.1) fun _ _ h => h.1)
      fun _ => .pure fun w h => h
  have hall : ∀ {cached fresh : Matcher}, Total cached → Total fresh →
      Triple .nullUnwrap (fun w => Rep K w ∧ True) (do let _ ← findAll B env turns cached fresh)
        fun _ => Rep K := fun hcached hfresh =>
    .bind ((findAll_rep hK hcached hfresh turns).mono (fun w h => h.1) fun _ _ h => h.1)
      fun _ => .pure fun w h => h
  have hprint : ∀ {cached fresh : Matcher}, Total cached → Total fresh →
      Triple .nullUnwrap (fun w => Rep K w ∧ True) (do
        let found ← findAll B env turns cached fresh
        let _ ← printFound show_ found) fun _ => Rep K := fun hcached hfresh =>
    .bind ((findAll_rep hK hcached hfresh turns).mono (fun w h => h.1) fun _ _ h => h) fun _ =>
      .and_right fun hfound => .bind (printFound_rep hK hfound) fun _ => .pure fun w h => h
  cases op with
  | numtype genId num rtype => exact hfirst (total_numtype _ _ _) (total_numtype _ _ _)
  | sensortype rtype => exact hall (total_sensortype _) (total_sensortype _)
  | entity entity => exact hall (total_entity _) (total_entityFresh _)
  | type rtype => exact hall (total_type _) (total_type _)
  | id num text => exact hfirst (total_id _ _) (total_idFresh _ _)
  | cache => exact .bind ((listCache_rep hK turns).mono (fun w h => h.1) fun _ _ => id) fun _ => .pure fun w h => h
  | print rtype =>
    exact .bind ((printSdr_rep hK rtype turns).mono (fun w h => h.1) fun _ _ => id) fun _ => .pure fun w h => h
  | printType rtype => exact hprint (total_sensortype _) (total_sensortype _)
  | printEntity entity => exact hprint (total_entity _) (total_entityFresh _)
  | printId num text =>
    refine .bind ((findFirst_rep hK (total_id num text) (total_idFresh num text) turns).mono
      (fun w h => h.1)
      fun _ _ h => h) fun o => .and_right fun hfound => .bind (printFound_rep hK ?_) fun _ =>
        .pure fun w h => h
    intro es hes e he
    obtain ⟨x, hx, rfl⟩ := Option.map_eq_some_iff.mp hes
    rw [List.mem_singleton.mp he]
    exact hfound x hx
  | dump opens =>
    rintro w ⟨hrep, hreads⟩
    obtain ⟨l, hl, -⟩ := id hrep
    refine ⟨fun h => ?_, fun _ w' h => ?_⟩
    · rcases bind_error.mp h with h | ⟨r, w1, -, h⟩
      · exact (dumpBin_linked turns opens w ⟨l, hl⟩).1 h
      · cases h
    · obtain ⟨r, w1, h1, h⟩ := bind_ok.mp h
      obtain ⟨-, rfl⟩ := pure_ok.mp h
      exact dumpBin_rep hK hrep hreads h1
  | fromFile file => exact .bind (listCacheFromfile_rep file) fun _ => .pure fun w h => h
  | empty => exact (sdrListEmpty_rep hK).mono (fun w h => h.1) fun _ _ => id

end Keep

/-! ### Runs -/

section Runs
variable {β : Type} (B : Bmc β) (env : Env β) (show_ : Printer β) (turns : ℕ)

/-- Operations one after another, each in a world that meets a condition. -/
def Steps (cond : Op → CmdWorld Vars β → Prop) : CmdWorld Vars β → CmdWorld Vars β → Prop :=
  Relation.ReflTransGen fun w w' => ∃ op, cond op w ∧ perform B env show_ turns op w = .ok ((), w')

/-- The step does not dump a record. -/
def Harmless (op : Op) (w : CmdWorld Vars β) : Prop :=
  ∀ opens, op = .dump opens → ¬ DumpReads B env w

theorem kept_trivial : Kept B env show_ fun _ _ _ => True where
  walks _ _ := trivial
  fills _ := trivial
  shows _ := trivial
  opens _ _ := trivial
  moves _ _ _ := trivial
  clears _ := trivial
  reads _ _ := ⟨trivial, fun _ _ => trivial⟩

variable {B env show_ turns}

/-- No operation unwraps a null, be it a dump. -/
theorem perform_never {w : CmdWorld Vars β} (hrep : Rep (fun _ _ _ => True) w) (op : Op) :
    perform B env show_ turns op w ≠ .error .nullUnwrap := by
  have hadmitted : Admits B env (fun _ _ _ => True) op w →
      perform B env show_ turns op w ≠ .error .nullUnwrap := fun h =>
    (perform_rep (kept_trivial B env show_) turns op w ⟨hrep, h⟩).1
  cases op with
  | dump opens =>
    obtain ⟨l, hl, -⟩ := hrep
    intro h
    rcases bind_error.mp h with h | ⟨r, w1, -, h⟩
    · exact (dumpBin_linked turns opens w ⟨l, hl⟩).1 h
    · cases h
  | fromFile file => exact hadmitted fun _ _ _ _ _ => trivial
  | _ => exact hadmitted trivial

/-- The invariant in every world that is reached. -/
theorem steps_rep {K : Extra β} (hK : Kept B env show_ K) {cond : Op → CmdWorld Vars β → Prop}
    (hcond : ∀ op w, Rep K w → cond op w → Admits B env K op w) {w w' : CmdWorld Vars β}
    (hw : Rep K w) (h : Steps B env show_ turns cond w w') : Rep K w' := by
  induction h with
  | refl => exact hw
  | tail _ hstep ih =>
    obtain ⟨op, hop, hstep⟩ := hstep
    exact (perform_rep hK turns op _ ⟨ih, hcond op _ ih hop⟩).2 _ _ hstep

end Runs

/-! ### No record twice -/

/-- The records from an identifier on. -/
def fromId (id : UInt16) : List Record → List Record
  | [] => []
  | r :: rs => if r.id = id then r :: rs else fromId id rs

/-- The records that the walk still has before it. -/
def ahead (R : Repository) : Option Itr → List Record
  | none => []
  | some itr => if itr.next = 0 then R.records else fromId itr.next R.records

theorem fromId_append {pre post : List Record} {r : Record}
    (h : ((pre ++ r :: post).map Record.id).Nodup) :
    fromId r.id (pre ++ r :: post) = r :: post := by
  induction pre with
  | nil => simp [fromId]
  | cons q pre ih =>
    obtain ⟨hq, hnodup⟩ := List.nodup_cons.mp h
    have hne : q.id ≠ r.id := fun he => hq (by rw [he]; simp)
    rw [List.cons_append, fromId, if_neg hne]
    exact ih hnodup

theorem fromId_absent {id : UInt16} {rs : List Record} (h : ∀ r ∈ rs, r.id ≠ id) :
    fromId id rs = [] := by
  induction rs with
  | nil => rfl
  | cons r rs ih =>
    rw [fromId, if_neg (h r List.mem_cons_self)]
    exact ih fun q hq => h q (List.mem_cons_of_mem _ hq)

section Ahead
variable {R : Repository}

theorem ahead_suffix {pre post : List Record} (hR : R.records = pre ++ post)
    (hpre : pre ≠ []) {itr : Itr}
    (hnext : itr.next = nextId post) : ahead R (some itr) = post := by
  rcases post with _ | ⟨r, rs⟩
  · have hne : itr.next ≠ 0 := by
      rw [hnext]
      decide
    rw [ahead, if_neg hne, hnext]
    exact fromId_absent R.ne_end
  · obtain ⟨q, pre, rfl⟩ := List.exists_cons_of_ne_nil hpre
    have hne : itr.next ≠ 0 := by
      rw [hnext]
      exact R.ne_zero r (by rw [hR]; simp)
    have hnodup := R.nodup
    rw [hR] at hnodup
    rw [ahead, if_neg hne, hnext, hR]
    exact fromId_append hnodup

/-- A header that is read is the first of those that were ahead. -/
theorem ahead_find {itr itr' : Itr} {p : Record × UInt16} (h : R.find itr.next = some p)
    (hnext : itr'.next = p.2) : ahead R (some itr) = p.1 :: ahead R (some itr') := by
  obtain ⟨pre, post, hR, hp, hid⟩ := find_some h
  have hR' : R.records = (pre ++ [p.1]) ++ post := by rw [hR]; simp
  rw [ahead_suffix hR' (by simp) (hnext.trans hp)]
  by_cases hzero : itr.next = 0
  · have hpre : pre = [] := by
      rcases hid with hid | ⟨-, hpre⟩
      · rcases pre with _ | ⟨q, pre⟩
        · rfl
        · exact (R.ne_zero p.1 (by rw [hR]; simp) (hid.trans hzero)).elim
      · exact hpre
    rw [ahead, if_pos hzero, hR, hpre, List.nil_append]
  · have hid' : p.1.id = itr.next := by
      rcases hid with hid | ⟨hid, -⟩
      · exact hid
      · exact (hzero hid).elim
    have hnodup := R.nodup
    rw [hR] at hnodup
    rw [ahead, if_neg hzero, ← hid', hR]
    exact fromId_append hnodup

theorem ahead_congr {itr itr' : Itr} (h : itr'.next = itr.next) :
    ahead R (some itr') = ahead R (some itr) := by
  rw [ahead, ahead, h]

end Ahead

/-- No record is twice on the list or still ahead; without an iterator the list is empty. -/
def Once {β : Type} (I : β → Prop) (R : Repository) : Extra β := fun b itr l =>
  I b ∧ (itr = none → l = []) ∧ (l.map Entry.id ++ (ahead R itr).map Record.id).Nodup

theorem kept_once {β : Type} {B : Bmc β} {env : Env β} {show_ : Printer β} {I : β → Prop}
    {R : Repository}
    (hS : Serves I B R) (hfill : ∀ b n, I b → I (env.addFromSensors b n).2.1)
    (hshow : ∀ e b, I b → I (show_ e b).2) : Kept B env show_ (Once I R) where
  walks hc h := ⟨hS.keeps _ _ hc h.1, h.2⟩
  fills h := ⟨hfill _ _ h.1, h.2⟩
  shows h := ⟨hshow _ _ h.1, h.2⟩
  opens {b itr l} h hnext := by
    obtain rfl := h.2.1 rfl
    refine ⟨h.1, by simp, ?_⟩
    rw [ahead, if_pos hnext]
    exact R.nodup
  moves itr' h hnext := ⟨h.1, by simp, by rw [ahead_congr hnext]; exact h.2.2⟩
  clears h := ⟨h.1, fun _ => rfl, List.nodup_nil⟩
  reads {w w' itr itr' header l} h1 h := by
    obtain ⟨hI, -, hnodup⟩ := h
    obtain ⟨p, hp, rfl, hnext⟩ := getNextHeader_serves hS h1 hI
    rw [ahead_find hp hnext, List.map_cons] at hnodup
    refine ⟨⟨hI, by simp, ?_⟩, fun e he => ⟨hI, by simp, ?_⟩⟩
    · exact hnodup.sublist ((List.Sublist.refl _).append (List.sublist_cons_self _ _))
    · have hid : e.id = p.1.id := he
      simpa [hid] using hnodup

/-- The records of the file are all different, and neither on the list nor ahead. -/
def Fresh (R : Repository) {β : Type} (op : Op) (w : CmdWorld Vars β) : Prop :=
  ∀ bytes, op = .fromFile (some bytes) → ((cacheFile bytes.length bytes).1.map Entry.id ++
    (w.vars.list.toList.map Entry.id ++ (ahead R w.vars.listItr).map Record.id)).Nodup

theorem admits_of_fresh {β : Type} {B : Bmc β} {env : Env β} {I : β → Prop}
    {R : Repository} {op : Op}
    {w : CmdWorld Vars β} (hharmless : Harmless B env op w) (hfresh : Fresh R op w) :
    Admits B env (Once I R) op w := by
  cases op with
  | dump opens => exact hharmless opens rfl
  | fromFile file =>
    intro bytes hfile l hl hk
    have hnodup := hfresh bytes (by rw [Option.mem_def.mp hfile])
    rw [hl.toList_eq] at hnodup
    have hahead : ahead R (some (fileItr w.vars.listItr)) = ahead R w.vars.listItr := by
      rcases w.vars.listItr with _ | itr
      · exact fromId_absent R.ne_end
      · rfl
    refine ⟨hk.1, by simp, ?_⟩
    rw [hahead, List.map_append]
    refine List.Perm.nodup ?_ hnodup
    rw [← List.append_assoc]
    exact List.perm_append_comm.append_right _
  | _ => trivial

/-- **The representation of the cache.** In every run without a dump that reads a record, the list
is linked up with its tail at the end and every entry has a record of its type, so that no operation
unwraps a null. If the BMC serves a repository and no file brings a record a second time, no record
is twice on the list. -/
theorem cache_represented {β : Type} {B : Bmc β} {env : Env β} {show_ : Printer β} {turns : ℕ}
    {w w' : CmdWorld Vars β} (hlist : w.vars.list = {}) (hitr : w.vars.listItr = none)
    (hsteps : Steps B env show_ turns (Harmless B env) w w') :
    (∃ l, Linked.Holds w'.vars.list l ∧ ∀ e ∈ l, Cached e) ∧
      (∀ op, perform B env show_ turns op w' ≠ .error .nullUnwrap) ∧
      ∀ (I : β → Prop) (R : Repository), Serves I B R →
        (∀ b n, I b → I (env.addFromSensors b n).2.1) →
        (∀ e b, I b → I (show_ e b).2) → I w.device →
        Steps B env show_ turns (fun op v => Harmless B env op v ∧ Fresh R op v) w w' →
        (w'.vars.list.toList.map Entry.id).Nodup := by
  have hempty : Linked.Holds w.vars.list [] := hlist ▸ Linked.holds_empty
  have hrep : Rep (fun _ _ _ => True) w' := by
    refine steps_rep (kept_trivial B env show_) (fun op v _ hop => ?_) ⟨[],
      hempty, by simp, trivial⟩ hsteps
    cases op with
    | dump opens => exact hop opens rfl
    | fromFile file => exact fun _ _ _ _ _ => trivial
    | _ => trivial
  refine ⟨?_, fun op => ?_, fun I R hS hfill hshow hI hfresh => ?_⟩
  · obtain ⟨l, hl, hc, -⟩ := hrep
    exact ⟨l, hl, hc⟩
  · exact perform_never hrep op
  · have honce : Rep (Once I R) w' := by
      refine steps_rep (kept_once hS hfill hshow) (fun op v _ hop => admits_of_fresh hop.1 hop.2)
        ⟨[], hempty, by simp, hI, fun _ => rfl, ?_⟩ hfresh
      rw [hitr]
      exact List.nodup_nil
    obtain ⟨l, hl, -, -, -, hnodup⟩ := honce
    rw [hl.toList_eq]
    exact hnodup.sublist (List.sublist_append_left _ _)

/-! ### A management controller -/

/-- A record of a management controller. -/
def controllerRecord : Record :=
  ⟨1, 0x51, 0x12, [0x20, 0, 0, 0, 0, 0, 0, 7, 1, 0, 0xc0], by decide, by decide⟩

/-- A repository with one record, of a management controller without a name. -/
def controller : Repository where
  records := [controllerRecord]
  nodup := by decide
  ne_zero := by decide
  ne_end := by decide

/-- The limits of an interface; printing and filling do nothing. -/
def plainEnv : Env Unit := ⟨34, 0, fun b n => (true, b, n)⟩

def plainShow : Printer Unit := fun _ b => (true, b)

/-- After the record was cached, the list is represented and has it once. -/
theorem cache_represented_controller :
    ∃ w', perform (serving controller) plainEnv plainShow 3 .cache
      { vars := {}, device := () } = .ok ((), w') ∧
    (∃ l, Linked.Holds w'.vars.list l ∧ ∀ e ∈ l, Cached e) ∧ w'.vars.list.toList.length = 1 ∧
    (w'.vars.list.toList.map Entry.id).Nodup := by
  obtain ⟨_, w', hw', hlen⟩ :=
    exists_of_returns (x := perform (serving controller) plainEnv plainShow 3 .cache)
      (s := { vars := {}, device := () }) (p := fun _ w => w.vars.list.toList.length =
        1) (by decide +kernel)
  have hharmless : ∀ w, Harmless (serving controller) plainEnv .cache w :=
    fun w opens h => by cases h
  have hfresh : ∀ w : CmdWorld Vars Unit, Fresh controller .cache w := fun w bytes h => by cases h
  obtain ⟨hrep, -, hnodup⟩ := cache_represented (w := { vars := {}, device := () }) rfl rfl
    (Relation.ReflTransGen.single ⟨.cache, hharmless _, hw'⟩)
  refine ⟨w', hw', hrep, of_decide_eq_true hlen, ?_⟩
  exact hnodup (fun _ => True) controller (serves_serving controller) (fun _ _ => id)
    (fun _ _ => id) trivial
    (Relation.ReflTransGen.single ⟨.cache, ⟨hharmless _, hfresh _⟩, hw'⟩)

/-- A dump leaves an entry without a record on the list, and printing the list unwraps a null. -/
theorem dump_then_print : ∃ w', perform (serving controller) plainEnv plainShow 3 (.dump true)
      { vars := {}, device := () } = .ok ((), w') ∧ (∃ e ∈ w'.vars.list.toList, e.record = none) ∧
    perform (serving controller) plainEnv plainShow 3 (.print 0xff) w' = .error .nullUnwrap := by
  obtain ⟨_, w', hw', hp⟩ :=
    exists_of_returns (x := perform (serving controller) plainEnv plainShow 3 (.dump true))
      (s := { vars := {}, device := () }) (p := fun _ w =>
        w.vars.list.toList.any (fun e => e.record = none) ∧
        faults (perform (serving controller) plainEnv plainShow 3 (.print 0xff)) w =
        some .nullUnwrap) (by decide +kernel)
  obtain ⟨hany, hfault⟩ := of_decide_eq_true hp
  obtain ⟨e, he, hnone⟩ := List.any_eq_true.mp hany
  exact ⟨w', hw', ⟨e, he, of_decide_eq_true hnone⟩, error_of_faults hfault⟩

end Ipmitool.Sdr.Invariant
