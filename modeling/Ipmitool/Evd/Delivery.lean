import Mathlib.Data.List.Perm.Subperm
import Ipmitool.Evd.Watch

/-! # What the watcher logs

The log of the BMC grows as long as it is not cleared (`Grows`), so a walk along it that all
requests succeed in visits a run of records without a gap, up to the last one (`walk_visits`).

A watcher whose last id belongs to the end of a known part of the log logs exactly what is behind
that part (`poll_step`). From a log that is never cleared, every new record is logged once and in
order (`reports_once`). -/

namespace Ipmitool.Evd.Delivery

open Ipmitool.Lib.Mem Ipmitool.Lib.Bytes Ipmitool.Lib.Machine Ipmitool.Lib.Dialogue
open Ipmitool.Core.Types Ipmitool.Core.Interface Ipmitool.Sel.Entries Ipmitool.Evd.Watch

/-! ### Logs -/

section Sel
variable (s : Sel)

theorem tailFrom_split {q : UInt16} {e : Event} {rest : List Event} (h : s.tailFrom q = e :: rest) :
    ∃ a, s.records = a ++ e :: rest ∧ (q = 0 ∧ a = [] ∨ e.recordId = q) := by
  unfold Sel.tailFrom at h
  by_cases hq : q = 0
  · rw [if_pos hq] at h
    exact ⟨[], h, .inl ⟨hq, rfl⟩⟩
  · rw [if_neg hq] at h
    refine ⟨s.records.takeWhile fun e => e.recordId ≠ q, ?_, .inr ?_⟩
    · rw [← h, List.takeWhile_append_dropWhile]
    · have hhead := List.head?_dropWhile_not (fun e : Event => decide (e.recordId ≠ q)) s.records
      rw [h] at hhead
      simpa using hhead

theorem tailFrom_eq {a rest : List Event} {e : Event} (h : s.records = a ++ e :: rest) :
    s.tailFrom e.recordId = e :: rest := by
  have hproper := s.proper e (by rw [h]; simp)
  have hnodup := s.nodup
  rw [h, List.map_append, List.nodup_append] at hnodup
  have hpass : ∀ x ∈ a, decide (x.recordId ≠ e.recordId) = true := by
    intro x hx
    exact decide_eq_true (hnodup.2.2 _ (List.mem_map_of_mem hx) _ (by simp))
  rw [Sel.tailFrom, if_neg hproper.1, h, List.dropWhile_append_of_pos hpass]
  simp

theorem split_unique {a a' rest rest' : List Event} {e e' : Event} (h : s.records = a ++ e :: rest)
    (h' : s.records = a' ++ e' :: rest') (he : e.recordId = e'.recordId) :
    a = a' ∧ e = e' ∧ rest = rest' := by
  have htail := tailFrom_eq s h
  rw [he, tailFrom_eq s h'] at htail
  obtain ⟨rfl, rfl⟩ := List.cons.inj htail
  exact ⟨List.append_cancel_right (h.symm.trans h'), rfl, rfl⟩

theorem nextId_ne_zero {a rest : List Event} (h : s.records = a ++ rest) : nextId rest ≠ 0 := by
  rcases rest with _ | ⟨e, rest⟩
  · decide
  · exact (s.proper e (by rw [h]; simp)).1

theorem nextId_eq_end {a rest : List Event} (h : s.records = a ++ rest)
    (he : nextId rest = 0xffff) :
    rest = [] := by
  rcases rest with _ | ⟨e, rest⟩
  · rfl
  · exact absurd he (s.proper e (by rw [h]; simp)).2

theorem nextId_ne_self {a rest : List Event} {e : Event} (h : s.records = a ++ e :: rest) :
    nextId rest ≠ e.recordId := by
  rcases rest with _ | ⟨e', rest⟩
  · exact (s.proper e (by rw [h]; simp)).2.symm
  · intro hc
    have h' : s.records = (a ++ [e]) ++ e' :: rest := by rw [h]; simp
    have hlen := congrArg List.length (split_unique s h h' hc.symm).1
    simp at hlen

theorem length_lt : s.records.length < 65536 := by
  have hnodup : ((0 :: s.records.map Event.recordId).map UInt16.toNat).Nodup := by
    refine List.Nodup.map (fun a b h => UInt16.toNat_inj.mp h) (List.nodup_cons.mpr ⟨?_, s.nodup⟩)
    intro hc
    obtain ⟨e, he, h0⟩ := List.mem_map.mp hc
    exact (s.proper e he).1 h0
  have hsub : (0 :: s.records.map Event.recordId).map UInt16.toNat ⊆ List.range 65536 := by
    intro n hn
    obtain ⟨x, -, rfl⟩ := List.mem_map.mp hn
    exact List.mem_range.mpr x.toNat_lt
  have hle := (List.subperm_of_subset hnodup hsub).length_le
  simp only [List.length_map, List.length_cons, List.length_range] at hle
  omega

end Sel

/-! ### Boards -/

/-- The log may have been cleared in between; if not, it has only grown. -/
structure Grows (b b' : Board) : Prop where
  clears : b.clears ≤ b'.clears
  records : b'.clears = b.clears → b.sel.records <+: b'.sel.records

theorem Grows.refl (b : Board) : Grows b b := ⟨Nat.le_refl _, fun _ => List.prefix_rfl⟩

theorem Grows.trans {b b' b'' : Board} (h : Grows b b') (h' : Grows b' b'') : Grows b b'' := by
  refine ⟨Nat.le_trans h.clears h'.clears, fun he => ?_⟩
  have hc := h.clears
  have hc' := h'.clears
  exact (h.records (by omega)).trans (h'.records (by omega))

theorem grows_change (b : Board) (c : Change) : Grows b (b.change c) := by
  cases c with
  | clear => exact ⟨Nat.le_succ _, fun h => absurd h (Nat.succ_ne_self _)⟩
  | append e =>
    refine ⟨Nat.le_refl _, fun _ => ?_⟩
    show b.sel.records <+: (b.sel.append e).records
    unfold Sel.append
    split_ifs
    · exact List.prefix_append _ _
    · exact List.prefix_rfl

theorem grows_changes (cs : List Change) (b : Board) : Grows b (cs.foldl Board.change b) := by
  induction cs generalizing b with
  | nil => exact .refl b
  | cons c cs ih => exact (grows_change b c).trans (ih _)

variable (sched : ℕ → Moment)

theorem grows_now (b : Board) : Grows b (b.now sched) := by
  have hchanges := grows_changes (sched b.time).changes { b with time := b.time + 1 }
  exact ⟨hchanges.clears, hchanges.records⟩

theorem board_getSelEntry (b : Board) (id : UInt16) :
    board sched b (getSelEntry id) = (b.now sched).answerEntry (sched b.time) id := by
  have hne : getSelEntry id ≠ getSelInfo := by
    intro hc
    exact absurd (congrArg Command.cmd hc) (show ¬ (0x43 : UInt8) = 0x40 by decide)
  have hid : ofLe16 ((getSelEntry id).data.getD 2 0) ((getSelEntry id).data.getD 3 0) = id :=
    ofLe16_le16 id
  rw [board, if_neg hne, hid]

theorem board_sel (b : Board) (c : Command) :
    (board sched b c).2.sel = (b.now sched).sel ∧
      (board sched b c).2.clears = (b.now sched).clears := by
  rw [board]
  by_cases hc : c = getSelInfo
  · rw [if_pos hc]
    exact ⟨rfl, rfl⟩
  · rw [if_neg hc, Board.answerEntry]
    split
    · exact ⟨rfl, rfl⟩
    · split <;> exact ⟨rfl, rfl⟩

theorem grows_board (b : Board) (c : Command) : Grows b (board sched b c).2 := by
  obtain ⟨hsel, hclears⟩ := board_sel sched b c
  have hnow := grows_now sched b
  refine ⟨by rw [hclears]; exact hnow.clears, fun h => ?_⟩
  rw [hsel]
  exact hnow.records (by rw [← hclears, h])

/-- The world of the watcher. -/
abbrev W := CmdWorld Vars Board

/-- The log is never cleared. -/
def NeverCleared : Prop := ∀ t, Change.clear ∉ (sched t).changes

theorem now_clears (h : NeverCleared sched) (b : Board) : (b.now sched).clears = b.clears := by
  have hfold : ∀ (cs : List Change) (b : Board), Change.clear ∉ cs →
      (cs.foldl Board.change b).clears = b.clears := by
    intro cs
    induction cs with
    | nil => exact fun _ _ => rfl
    | cons c cs ih =>
      intro b hcs
      rw [List.foldl_cons, ih _ fun hc => hcs (List.mem_cons_of_mem _ hc)]
      cases c with
      | clear => exact absurd List.mem_cons_self hcs
      | append e => rfl
  exact hfold _ _ (h _)

/-- Time passes: the log of the BMC grows or is cleared, and requests are made. -/
def passing : Frame W where
  rel w w' := Grows w.device w'.device ∧ w.log.length ≤ w'.log.length ∧
    (NeverCleared sched → w'.device.clears = w.device.clears)
  refl _ := ⟨.refl _, Nat.le_refl _, fun _ => rfl⟩
  trans h h' := ⟨h.1.trans h'.1, Nat.le_trans h.2.1 h'.2.1, fun hn => (h'.2.2 hn).trans (h.2.2 hn)⟩

theorem passing_stopped {sig : Signal} {w w' : W} (h : (passing sched).rel w w')
    (hs : isStopped sig w = true) :
    isStopped sig w' = true := by
  unfold isStopped at hs ⊢
  cases sig with
  | none => cases hs
  | some n =>
    simp only [Option.any_some, decide_eq_true_eq] at hs ⊢
    exact Nat.le_trans hs h.2.1

/-! ### Requests -/

section Requests

theorem passing_asked (w : W) (c : Command) : (passing sched).rel w (w.asked (board sched) c) := by
  refine ⟨grows_board sched w.device c, ?_, fun h => ?_⟩
  · rw [World.asked_log, List.length_append]
    exact Nat.le_add_right _ _
  · exact (board_sel sched w.device c).2.trans (now_clears sched h w.device)

/-- The number of entries, when they are counted in the state `w`. -/
def counted (sched : ℕ → Moment) (w : W) : ℕ := (w.device.now sched).sel.records.length

theorem selInfo_eq (w : W) : selInfo (board sched) w =
    .ok (some (UInt16.ofNat (counted sched w)), w.asked (board sched) getSelInfo) := by
  obtain ⟨r, hr, hcode, hlen, h1, h2⟩ : ∃ r, (board sched w.device getSelInfo).1 = some r ∧
      r.ccode = 0 ∧
      14 ≤ r.dataLen ∧
      r.data 1 = (UInt16.ofNat (counted sched w)).toUInt8 ∧
      r.data 2 = (UInt16.ofNat (counted sched w) >>> 8).toUInt8 := by
    refine ⟨_, by rw [board, if_pos rfl], rfl, ?_, rfl, rfl⟩
    simp [Reply.of, le16]
  refine bind_ok.mpr ⟨some r, _, ask_ok.mpr ⟨hr, rfl⟩, ?_⟩
  have hgood : ¬ (r.ccode ≠ 0 ∨ r.dataLen < 14) := by
    rintro (h | h)
    · exact h hcode
    · omega
  show (pure _ : Cmd Vars Board _) _ = _
  rw [if_neg hgood, h1, h2, ofLe16_le16]
  rfl

theorem reads_event (n : UInt16) (e : Event) :
    ofLe16 ((Reply.of (le16 n ++ e.wire)).data 0) ((Reply.of (le16 n ++ e.wire)).data 1) = n ∧
      eventOf (Reply.of (le16 n ++ e.wire)).data = e := by
  obtain ⟨id, body, hbody⟩ := e
  refine ⟨ofLe16_le16 n, ?_⟩
  have hread : read (Reply.of (le16 n ++ (Event.mk id body hbody).wire)).data 4 14 = body := by
    refine List.ext_getElem (by simp [hbody]) fun i h1 h2 => ?_
    rw [getElem_read]
    show (le16 n ++ (le16 id ++ body)).getD (4 + i) 0 = _
    rw [List.getD_eq_getElem?_getD, ← List.append_assoc,
      List.getElem?_append_right (by simp [le16])]
    simp [le16, List.getElem?_eq_getElem h2]
  simp only [eventOf, hread]
  congr 1
  exact ofLe16_le16 id

theorem now_excused (b : Board) : (b.now sched).excused = b.excused := by
  have h : ∀ (cs : List Change) (b : Board), (cs.foldl Board.change b).excused = b.excused := by
    intro cs
    induction cs with
    | nil => exact fun _ => rfl
    | cons c cs ih =>
      intro b
      rw [List.foldl_cons, ih]
      cases c <;> rfl
  exact h _ _

/-- What the BMC answers to a request for an entry. -/
theorem board_entry (b : Board) (id : UInt16) :
    ((b.now sched).sel.tailFrom id = [] ∧
      (board sched b (getSelEntry id)).1 = some { ccode := 0xcb }) ∨
    ∃ e rest n, (b.now sched).sel.tailFrom id = e :: rest ∧
      (board sched b (getSelEntry id)).1 = some (Reply.of (le16 n ++ e.wire)) ∧
      (n = nextId rest ∨ n = 0 ∧ b.excused ≠ some id ∧
        (board sched b (getSelEntry id)).2.excused = some id) := by
  rw [board_getSelEntry, Board.answerEntry]
  cases htail : (b.now sched).sel.tailFrom id with
  | nil => exact .inl ⟨rfl, rfl⟩
  | cons e rest =>
    right
    by_cases ht : (sched b.time).transient ∧ (b.now sched).excused ≠ some id
    · refine ⟨e, rest, 0, rfl, ?_, .inr ⟨rfl, ?_, ?_⟩⟩
      · simp only [if_pos ht]
      · rw [← now_excused sched b]
        exact ht.2
      · simp only [if_pos ht]
    · refine ⟨e, rest, nextId rest, rfl, ?_, .inl rfl⟩
      simp only [if_neg ht]

variable {sched}

theorem selEntry_of_none {w : W} {id : UInt16}
    (h : (board sched w.device (getSelEntry id)).1 = some { ccode := 0xcb }) :
    selEntry (board sched) id w = .ok (none, w.asked (board sched) (getSelEntry id)) :=
  bind_ok.mpr ⟨_, _, ask_ok.mpr ⟨h, rfl⟩, rfl⟩

theorem selEntry_of_some {w : W} {id n : UInt16} {e : Event}
    (h : (board sched w.device (getSelEntry id)).1 = some (Reply.of (le16 n ++ e.wire))) :
    selEntry (board sched) id w = .ok (some (n, e), w.asked (board sched) (getSelEntry id)) := by
  refine bind_ok.mpr ⟨_, _, ask_ok.mpr ⟨h, rfl⟩, ?_⟩
  obtain ⟨hn, he⟩ := reads_event n e
  have hlen : (Reply.of (le16 n ++ e.wire)).dataLen = 18 := by
    simp [Reply.of, Event.wire, e.length_body]
  have hgood : ¬ ((Reply.of (le16 n ++ e.wire)).ccode ≠ 0 ∨
      (Reply.of (le16 n ++ e.wire)).dataLen < 18) := by
    rintro (h | h)
    · exact h rfl
    · omega
  show (pure _ : Cmd Vars Board _) _ = _
  rw [if_neg hgood, hn, he]
  rfl

/-- What is known when an entry was asked for: it is found in the log of the last answer, or it was
missing at some time. -/
def Found (q : UInt16) (w : W) (out : Option (UInt16 × Event)) (w' : W) : Prop :=
  (out = none ∧ ∃ b, Grows w.device b ∧ Grows b w'.device ∧ b.sel.tailFrom q = []) ∨
    ∃ e rest, out = some (nextId rest, e) ∧ w'.device.sel.tailFrom q = e :: rest

/-- One request, whose answer is not transient if it is a repetition. -/
theorem selEntry_found (q : UInt16) (w : W) : ∃ out, selEntry (board sched) q w =
    .ok (out, w.asked (board sched) (getSelEntry q)) ∧
      (Found q w out (w.asked (board sched) (getSelEntry q)) ∨
        ∃ e, out = some (0, e) ∧ w.device.excused ≠ some q ∧
          (w.asked (board sched) (getSelEntry q)).device.excused = some q) := by
  have hsel := (board_sel sched w.device (getSelEntry q)).1
  have hpass := (passing_asked sched w (getSelEntry q)).1
  rcases board_entry sched w.device q with ⟨hnone, hr⟩ | ⟨e, rest, n, htail, hr, hn⟩
  · refine ⟨none, selEntry_of_none hr, .inl (.inl ⟨rfl, _, hpass, .refl _, ?_⟩)⟩
    exact (congrArg (fun s => Sel.tailFrom s q) hsel).trans hnone
  · refine ⟨some (n, e), selEntry_of_some hr, ?_⟩
    rcases hn with rfl | ⟨rfl, hex, hex'⟩
    · exact .inl (.inr ⟨e, rest, rfl, (congrArg (fun s => Sel.tailFrom s q) hsel).trans htail⟩)
    · exact .inr ⟨e, rfl, hex, hex'⟩

theorem entry_found (q : UInt16) (w : W) : ∃ out w', entry (board sched) q w = .ok (out, w') ∧
    w'.vars = w.vars ∧ (passing sched).rel w w' ∧ Found q w out w' := by
  obtain ⟨out, hrun, hfound⟩ := selEntry_found q w
  have hpass := passing_asked sched w (getSelEntry q)
  rcases hfound with hfound | ⟨e, rfl, -, hex⟩
  · refine ⟨out, w.asked (board sched) (getSelEntry q), bind_ok.mpr ⟨_, _, hrun, ?_⟩, rfl,
      hpass, hfound⟩
    rcases hfound with ⟨rfl, -⟩ | ⟨e, rest, rfl, htail⟩
    · rfl
    · obtain ⟨a, hsplit, -⟩ := tailFrom_split _ htail
      have hnext : nextId rest ≠ 0 :=
        nextId_ne_zero _ (show _ = (a ++ [e]) ++ rest by rw [hsplit]; simp)
      show (if nextId rest = 0 then _ else pure (some (nextId rest, e)) : Cmd Vars Board _) _ = _
      rw [if_neg hnext]
      rfl
  · -- the answer was transient, and the request is repeated
    obtain ⟨out, hrun', hfound'⟩ := selEntry_found q (w.asked (board sched) (getSelEntry q))
    have hpass' := passing_asked sched (w.asked (board sched) (getSelEntry q)) (getSelEntry q)
    refine ⟨out, _, bind_ok.mpr ⟨_, _, hrun, hrun'⟩, rfl, (passing sched).trans hpass hpass', ?_⟩
    rcases hfound' with (⟨rfl, b, h1, h2, hb⟩ | hsome) | ⟨e', -, hno, -⟩
    · exact .inl ⟨rfl, b, hpass.1.trans h1, h2, hb⟩
    · exact .inr hsome
    · exact absurd hex hno

end Requests

/-! ### Walks -/

section Walk
variable {sched} {sig : Signal} {visit : UInt16 → Event → Vars → Vars} {fuel : ℕ} {q last : UInt16}
  {w w1 : W}

theorem walk_stop (h : q = 0xffff ∨ isStopped sig w = true) :
    walk (board sched) sig visit (fuel + 1) q last w = .ok (some (true, last), w) := by
  rw [walk, bind_run (show (get : Cmd Vars Board W) w = .ok (w, w) from rfl), if_pos h]
  rfl

theorem walk_none (h : ¬ (q = 0xffff ∨ isStopped sig w = true))
    (he : entry (board sched) q w = .ok (none, w1)) :
    walk (board sched) sig visit (fuel + 1) q last w = .ok (some (false, last), w1) := by
  rw [walk, bind_run (show (get : Cmd Vars Board W) w = .ok (w, w) from rfl), if_neg h, bind_run he]
  rfl

theorem walk_some {n : UInt16} {e : Event} (h : ¬ (q = 0xffff ∨ isStopped sig w = true))
    (he : entry (board sched) q w = .ok (some (n, e), w1)) (h0 : n ≠ 0) (hq : n ≠ q) :
    walk (board sched) sig visit (fuel + 1) q last w =
      walk (board sched) sig visit fuel n e.recordId { w1 with vars := visit q e w1.vars } := by
  rw [walk, bind_run (show (get : Cmd Vars Board W) w = .ok (w, w) from rfl), if_neg h, bind_run he]
  dsimp only
  rw [if_neg h0]
  refine (bind_run rfl).trans ?_
  rw [if_neg hq]

/-- The state of the variables after a walk: the first entry is visited with the id that was asked
for. -/
def visitAll (visit : UInt16 → Event → Vars → Vars) (q : UInt16) (e : Event) (es : List Event)
    (v : Vars) : Vars :=
  es.foldl (fun v e => visit e.recordId e v) (visit q e v)

/-- The entry `e` is the one that `q` asks for, behind `a`. -/
def Asked (q : UInt16) (a : List Event) (e : Event) : Prop := q = 0 ∧ a = [] ∨ e.recordId = q

/-- One entry of a walk: the request fails, or the entry is visited and the walk goes on behind
it. -/
theorem walk_succ (sched : ℕ → Moment) (visit : UInt16 → Event → Vars → Vars) (fuel : ℕ)
    (last : UInt16) (h : ¬ (q = 0xffff ∨ isStopped sig w = true)) : ∃ w1, (passing sched).rel w w1 ∧
      ((walk (board sched) sig visit (fuel + 1) q last w = .ok (some (false, last), w1) ∧
          ∃ b, Grows w.device b ∧ Grows b w1.device ∧ b.sel.tailFrom q = []) ∨
        ∃ a e rest, w1.device.sel.records = a ++ e :: rest ∧ Asked q a e ∧
          w1.vars = visit q e w.vars ∧ walk (board sched) sig visit (fuel + 1) q last w =
            walk (board sched) sig visit fuel (nextId rest) e.recordId w1) := by
  obtain ⟨out, w1, hrun, hvars, hpass, ⟨rfl, hmissing⟩ | ⟨e, rest, rfl, htail⟩⟩ := entry_found q w
  · exact ⟨w1, hpass, .inl ⟨walk_none h hrun, hmissing⟩⟩
  · obtain ⟨a, hsplit, hasked⟩ := tailFrom_split _ htail
    have h0 : nextId rest ≠ 0 :=
      nextId_ne_zero w1.device.sel (show _ = (a ++ [e]) ++ rest by rw [hsplit]; simp)
    have hq : nextId rest ≠ q := by
      rcases hasked with ⟨rfl, -⟩ | rfl
      · exact h0
      · exact nextId_ne_self _ hsplit
    refine ⟨{ w1 with vars := visit q e w1.vars }, hpass, .inr ⟨a, e, rest, hsplit, hasked, ?_, ?_⟩⟩
    · rw [← hvars]
    · exact walk_some h hrun h0 hq

theorem moves_walk (q last : UInt16) : Moves (passing sched)
    (walk (board sched) sig visit fuel q last) := by
  induction fuel generalizing q last with
  | zero => exact .pure _
  | succ fuel ih =>
    intro w out w' hrun
    by_cases h : q = 0xffff ∨ isStopped sig w = true
    · rw [walk_stop h] at hrun
      obtain ⟨-, rfl⟩ := Prod.mk.inj (Except.ok.inj hrun)
      exact (passing sched).refl w
    · obtain ⟨w1, hpass, ⟨hfail, -⟩ | ⟨a, e, rest, -, -, -, hgo⟩⟩ :=
        walk_succ sched visit fuel last h
      · rw [hfail] at hrun
        obtain ⟨-, rfl⟩ := Prod.mk.inj (Except.ok.inj hrun)
        exact hpass
      · rw [hgo] at hrun
        exact (passing sched).trans hpass (ih _ _ _ _ _ hrun)

/-- What a walk that succeeds has done: nothing, because it was stopped or `q` ends the log, or it
has visited `e` and `es`, up to the end of the log unless it was stopped. -/
def Visited (sig : Signal) (visit : UInt16 → Event → Vars → Vars) (q last : UInt16) (w : W)
    (last' : UInt16) (w' : W) : Prop :=
  (w' = w ∧ last' = last ∧ (q = 0xffff ∨ isStopped sig w = true)) ∨
    ∃ a e es rest, w'.device.sel.records = a ++ (e :: es) ++ rest ∧ Asked q a e ∧
      last' = ((e :: es).getLast (by simp)).recordId ∧ w'.vars = visitAll visit q e es w.vars ∧
      (isStopped sig w' = false → rest = [])

/-- **A walk along a log that is not cleared visits a run of records**, without a gap. -/
theorem walk_visits {last' : UInt16} {w' : W}
    (h : walk (board sched) sig visit fuel q last w = .ok (some (true, last'), w'))
    (hc : w'.device.clears = w.device.clears) : Visited sig visit q last w last' w' := by
  induction fuel generalizing q last w with
  | zero =>
    obtain ⟨hout, -⟩ := Prod.mk.inj (Except.ok.inj h)
    cases hout
  | succ fuel ih =>
    by_cases hstop : q = 0xffff ∨ isStopped sig w = true
    · rw [walk_stop hstop] at h
      obtain ⟨hout, rfl⟩ := Prod.mk.inj (Except.ok.inj h)
      exact .inl ⟨rfl, (Prod.mk.inj (Option.some.inj hout)).2.symm, hstop⟩
    obtain ⟨w1, hpass, ⟨hfail, -⟩ | ⟨a, e, rest, hsplit, hasked, hvars, hgo⟩⟩ :=
      walk_succ sched visit fuel last hstop
    · rw [hfail] at h
      obtain ⟨hout, -⟩ := Prod.mk.inj (Except.ok.inj h)
      exact absurd (Prod.mk.inj (Option.some.inj hout)).1 (by decide)
    rw [hgo] at h
    have hpass' := (moves_walk _ _).rel h
    have hc1 : w'.device.clears = w1.device.clears := by
      have h1 := hpass.1.clears
      have h2 := hpass'.1.clears
      omega
    right
    rcases ih h hc1 with ⟨rfl, rfl, hend⟩ | ⟨a', e', es, rest', hsplit', hasked', hlast,
      hvars', hrest⟩
    · -- the walk ends behind `e`
      refine ⟨a, e, [], rest, by rw [hsplit]; simp, hasked, rfl, hvars, fun hns => ?_⟩
      rcases hend with hend | hend
      · exact nextId_eq_end w'.device.sel (show _ = (a ++ [e]) ++ rest by rw [hsplit]; simp) hend
      · rw [hend] at hns
        cases hns
    · -- it goes on with `e'`, which is the record behind `e`
      have h0 : nextId rest ≠ 0 :=
        nextId_ne_zero w1.device.sel (show _ = (a ++ [e]) ++ rest by rw [hsplit]; simp)
      have hid : e'.recordId = nextId rest := hasked'.resolve_left fun hz => h0 hz.1
      obtain ⟨f, rest1, rfl⟩ : ∃ f rest1, rest = f :: rest1 := by
        rcases rest with _ | ⟨f, rest1⟩
        · refine absurd hid (w'.device.sel.proper e' ?_).2
          rw [hsplit']
          simp
        · exact ⟨f, rest1, rfl⟩
      obtain ⟨more, hmore⟩ := hpass'.1.records hc1
      have hwhole : w'.device.sel.records = (a ++ [e]) ++ f :: (rest1 ++ more) := by
        rw [← hmore, hsplit]
        simp
      have hwhole' : w'.device.sel.records = a' ++ e' :: (es ++ rest') := by
        rw [hsplit']
        simp
      obtain ⟨rfl, rfl, -⟩ := split_unique w'.device.sel hwhole' hwhole hid
      refine ⟨a, e, e' :: es, rest', by rw [hsplit']; simp, hasked, ?_, ?_, hrest⟩
      · rw [hlast, List.getLast_cons_cons]
      · rw [hvars', hvars, ← hid]
        rfl

theorem tailFrom_asked (s : Sel) {a rest : List Event} {e : Event} (h : s.records = a ++ e :: rest)
    (hasked : Asked q a e) : s.tailFrom q = e :: rest := by
  rcases hasked with ⟨rfl, rfl⟩ | rfl
  · rw [Sel.tailFrom, if_pos rfl, h]
    rfl
  · exact tailFrom_eq s h

/-- A walk along a log that is never cleared comes to an end: the ids run out. -/
theorem walk_returns (hn : NeverCleared sched) : ∀ (fuel : ℕ) {q last : UInt16} {w : W}
    {a rest : List Event}
    {e : Event}, w.device.sel.records = a ++ e :: rest → Asked q a e → 65536 ≤ a.length + fuel →
      ∃ last' w', walk (board sched) sig visit fuel q last w = .ok (some (true, last'), w')
  | 0, _, _, w, a, rest, e, h, _, hfuel => by
    have hlt := length_lt w.device.sel
    rw [h, List.length_append] at hlt
    omega
  | fuel + 1, q, last, w, a, rest, e, h, hasked, hfuel => by
    by_cases hstop : q = 0xffff ∨ isStopped sig w = true
    · exact ⟨last, w, walk_stop hstop⟩
    obtain ⟨w1, hpass, ⟨-, b, hb, hb1, hmissing⟩ | ⟨a1, e1, rest1, hsplit, hasked1, -, hgo⟩⟩ :=
      walk_succ sched visit fuel last hstop
    · -- the entry cannot be missing
      have hclears : b.clears = w.device.clears := by
        have h1 := hb.clears
        have h2 := hb1.clears
        have h3 := hpass.2.2 hn
        omega
      obtain ⟨more, hmore⟩ := hb.records hclears
      have hwhole : b.sel.records = a ++ e :: (rest ++ more) := by
        rw [← hmore, h]
        simp
      rw [tailFrom_asked b.sel hwhole hasked] at hmissing
      cases hmissing
    · obtain ⟨more, hmore⟩ := hpass.1.records (hpass.2.2 hn)
      have hwhole : w1.device.sel.records = a ++ e :: (rest ++ more) := by
        rw [← hmore, h]
        simp
      have htail := tailFrom_asked w1.device.sel hsplit hasked1
      rw [tailFrom_asked w1.device.sel hwhole hasked] at htail
      obtain ⟨rfl, rfl⟩ := List.cons.inj htail
      have hlt := length_lt w1.device.sel
      rw [hwhole, List.length_append, List.length_cons] at hlt
      rw [hgo]
      rcases hnext : rest ++ more with _ | ⟨f, rest'⟩
      · obtain ⟨fuel, rfl⟩ : ∃ n, fuel = n + 1 := ⟨fuel - 1, by omega⟩
        exact ⟨_, _, walk_stop (.inl rfl)⟩
      · rw [hnext] at hwhole
        refine walk_returns hn fuel (show _ = (a ++ [e]) ++ f :: rest' by rw [hwhole]; simp)
          (.inr rfl) ?_
        rw [List.length_append, List.length_singleton]
        omega

/-- The id that a walk ends with does not end the log. -/
theorem walk_last {ok : Bool} {last' : UInt16} {w' : W} (hlast : last ≠ 0xffff)
    (h : walk (board sched) sig visit fuel q last w = .ok (some (ok, last'), w')) :
    last' ≠ 0xffff := by
  induction fuel generalizing q last w with
  | zero =>
    obtain ⟨hout, -⟩ := Prod.mk.inj (Except.ok.inj h)
    cases hout
  | succ fuel ih =>
    by_cases hstop : q = 0xffff ∨ isStopped sig w = true
    · rw [walk_stop hstop] at h
      obtain ⟨hout, -⟩ := Prod.mk.inj (Except.ok.inj h)
      rwa [← (Prod.mk.inj (Option.some.inj hout)).2]
    obtain ⟨w1, -, ⟨hfail, -⟩ | ⟨a, e, rest, hsplit, -, -, hgo⟩⟩ :=
      walk_succ sched visit fuel last hstop
    · rw [hfail] at h
      obtain ⟨hout, -⟩ := Prod.mk.inj (Except.ok.inj h)
      rwa [← (Prod.mk.inj (Option.some.inj hout)).2]
    · rw [hgo] at h
      exact ih (w1.device.sel.proper e (by rw [hsplit]; simp)).2 h

end Walk

/-! ### What the watcher knows -/

/-- The id of the last record of a part of the log, zero if it is empty. -/
def lastOf (pre : List Event) : UInt16 := (pre.getLast?).elim 0 Event.recordId

/-- The last id belongs to the end of the part `pre` of the log, and no more entries have been
counted than there are. -/
structure Known (pre : List Event) (w : W) : Prop where
  records : pre <+: w.device.sel.records
  lastid : w.vars.lastid = lastOf pre
  count : w.vars.count.toNat ≤ w.device.sel.records.length

theorem lastOf_append_cons (a : List Event) (e : Event) (es : List Event) :
    lastOf (a ++ e :: es) = ((e :: es).getLast (by simp)).recordId := by
  rw [lastOf, List.getLast?_append, List.getLast?_eq_some_getLast (by simp)]
  rfl

section Steps
variable {sched} {sig : Signal} {fuel : ℕ} {w w' : W}

/-- The entries are logged if none of them is the last one known. -/
theorem logNew_fold (es : List Event) (v : Vars) (h : ∀ e ∈ es, e.recordId ≠ v.lastid) :
    es.foldl (fun v e => logNew e.recordId e v) v = { v with logged := v.logged ++ es } := by
  induction es generalizing v with
  | nil => simp
  | cons e es ih =>
    have hlog : logNew e.recordId e v = { v with logged := v.logged ++ [e] } := by
      rw [logNew, if_pos (.inl (h e List.mem_cons_self))]
    rw [List.foldl_cons, hlog, ih]
    · simp
    · exact fun x hx => h x (List.mem_cons_of_mem _ hx)

theorem selRead_ok (h : selRead (board sched) sig fuel w = .ok (some true, w')) : ∃ last w1,
    walk (board sched) sig logNew fuel w.vars.lastid w.vars.lastid w = .ok (some (true, last), w1) ∧
      w' = { w1 with vars.lastid := last } := by
  rw [selRead, bind_run (show (get : Cmd Vars Board W) w = .ok (w, w) from rfl)] at h
  by_cases h0 : w.vars.count = 0
  · rw [if_pos h0] at h
    obtain ⟨hout, -⟩ := pure_ok.mp h
    exact absurd (Option.some.inj hout) (by decide)
  · rw [if_neg h0] at h
    obtain ⟨out, w1, hwalk, h⟩ := bind_ok.mp h
    rcases out with _ | ⟨ok, last⟩
    · obtain ⟨hout, -⟩ := pure_ok.mp h
      cases hout
    · obtain ⟨_, w2, hset, h⟩ := bind_ok.mp h
      obtain ⟨hout, rfl⟩ := pure_ok.mp h
      rw [Option.some.inj hout] at hwalk
      exact ⟨last, w1, hwalk, (modify_ok.mp hset).symm⟩

theorem Known.lastid_ne {pre : List Event} (hk : Known pre w) : w.vars.lastid ≠ 0xffff := by
  rw [hk.lastid]
  rcases List.eq_nil_or_concat pre with rfl | ⟨a, e, rfl⟩
  · decide
  · have he : e ∈ w.device.sel.records := hk.records.subset (by simp)
    rw [List.concat_eq_append, lastOf_append_cons]
    exact (w.device.sel.proper e he).2

/-- What is visited from the end of the known part on, and what is logged of it. -/
theorem visited_known {pre a es rest : List Event} {e : Event} {v : Vars} (s : Sel)
    (hpre : pre <+: s.records) (hlast : v.lastid = lastOf pre)
    (hsplit : s.records = a ++ (e :: es) ++ rest) (hasked : Asked v.lastid a e) :
    ∃ new, a ++ (e :: es) = pre ++ new ∧
      visitAll logNew v.lastid e es v = { v with logged := v.logged ++ new } := by
  have hsplit' : s.records = a ++ e :: (es ++ rest) := by
    rw [hsplit]
    simp
  have hproper := s.proper e (by rw [hsplit']; simp)
  obtain ⟨rest0, hrest0⟩ := hpre
  rcases List.eq_nil_or_concat pre with rfl | ⟨pre, x, rfl⟩
  · -- nothing is known, so the first entry is asked for and all are logged
    have h0 : v.lastid = 0 := hlast
    have ha : a = [] := by
      rcases hasked with hasked | hasked
      · exact hasked.2
      · exact absurd (hasked.trans h0) hproper.1
    refine ⟨e :: es, by rw [ha], ?_⟩
    have hfirst : logNew v.lastid e v = { v with logged := v.logged ++ [e] } := by
      rw [logNew, if_pos (.inr h0)]
    have hrest : ∀ x ∈ es, x.recordId ≠ v.lastid := by
      intro x hx
      rw [h0]
      exact (s.proper x (by rw [hsplit']; simp [hx])).1
    rw [visitAll, hfirst, logNew_fold es { v with logged := v.logged ++ [e] } hrest]
    simp
  · -- the last entry known is asked for, and those behind it are logged
    rw [List.concat_eq_append] at hrest0 hlast ⊢
    have hx : v.lastid = x.recordId := hlast.trans (lastOf_append_cons pre x [])
    have hwhole : s.records = pre ++ x :: rest0 := by
      rw [← hrest0]
      simp
    have hx0 := s.proper x (by rw [hwhole]; simp)
    have hid : e.recordId = x.recordId := by
      rcases hasked with hasked | hasked
      · exact absurd (hx.symm.trans hasked.1) hx0.1
      · exact hasked.trans hx
    obtain ⟨rfl, rfl, -⟩ := split_unique s hsplit' hwhole hid
    refine ⟨es, by simp, ?_⟩
    have hfirst : logNew v.lastid e v = v := by
      rw [logNew, if_neg]
      rintro (hc | hc)
      · exact hc hx.symm
      · exact hx0.1 (hx.symm.trans hc)
    have hnodup := s.nodup
    rw [hsplit', List.map_append, List.map_cons, List.nodup_append] at hnodup
    have hrest : ∀ y ∈ es, y.recordId ≠ v.lastid := by
      intro y hy hc
      refine (List.nodup_cons.mp hnodup.2.1).1 ?_
      rw [← hx, ← hc]
      exact List.mem_map_of_mem (List.mem_append_left _ hy)
    rw [visitAll, hfirst, logNew_fold es _ hrest]

/-- **Reading logs what is behind the known part of the log**, to its end unless it is stopped. -/
theorem selRead_known {pre : List Event} (hk : Known pre w)
    (h : selRead (board sched) sig fuel w = .ok (some true, w'))
    (hc : w'.device.clears = w.device.clears) :
    ∃ new, Known (pre ++ new) w' ∧ w'.vars.logged = w.vars.logged ++ new ∧
      w'.vars.count = w.vars.count ∧
      (isStopped sig w' = false → w'.device.sel.records = pre ++ new) := by
  obtain ⟨last, w1, hwalk, rfl⟩ := selRead_ok h
  obtain ⟨more, hmore⟩ := ((moves_walk _ _).rel hwalk).1.records hc
  have hlength : w.vars.count.toNat ≤ w1.device.sel.records.length := by
    have hle := hk.count
    rw [← hmore, List.length_append]
    omega
  have hpre : pre <+: w1.device.sel.records := hk.records.trans ⟨more, hmore⟩
  rcases walk_visits hwalk hc with ⟨rfl, rfl, hend⟩ | ⟨a, e, es, rest, hsplit, hasked, hlast,
    hvars, hrest⟩
  · -- the signal arrived before the first request
    refine ⟨[], ⟨by rwa [List.append_nil], ?_, hlength⟩, by simp, rfl, fun hns => ?_⟩
    · rw [List.append_nil]
      exact hk.lastid
    · rcases hend with hend | hend
      · exact absurd hend hk.lastid_ne
      · exact absurd (hend.symm.trans hns) (by decide)
  · obtain ⟨new, hnew, hlogged⟩ := visited_known w1.device.sel hpre hk.lastid hsplit hasked
    rw [hlogged] at hvars
    refine ⟨new, ⟨⟨rest, ?_⟩, ?_, ?_⟩, ?_, ?_, fun hns => ?_⟩
    · rw [hsplit, hnew]
    · rw [← hnew, lastOf_append_cons]
      exact hlast
    · rw [hvars]
      exact hlength
    · rw [hvars]
    · rw [hvars]
    · have hnil := hrest hns
      rw [hsplit, hnil, List.append_nil, hnew]

theorem lastId_ok {last : UInt16} (h0 : w.vars.count ≠ 0)
    (h : lastId (board sched) sig fuel w = .ok (some (some last), w')) :
    walk (board sched) sig (fun _ _ v => v) fuel 0 0 w = .ok (some (true, last), w') := by
  rw [lastId, bind_run (show (get : Cmd Vars Board W) w = .ok (w, w) from rfl), if_neg h0] at h
  obtain ⟨out, w1, hwalk, h⟩ := bind_ok.mp h
  rcases out with _ | ⟨ok, l⟩
  · obtain ⟨hout, -⟩ := pure_ok.mp h
    cases hout
  · obtain ⟨hout, rfl⟩ := pure_ok.mp h
    cases ok with
    | false => cases Option.some.inj hout
    | true => rwa [Option.some.inj (Option.some.inj hout)] at hwalk

/-- The state in which they have been counted. -/
def afterCount (sched : ℕ → Moment) (w : W) : W :=
  { w.asked (board sched) getSelInfo with vars.count := UInt16.ofNat (counted sched w) }

theorem toNat_counted (sched : ℕ → Moment) (w : W) :
    (UInt16.ofNat (counted sched w)).toNat = counted sched w := by
  rw [UInt16.toNat_ofNat', Nat.mod_eq_of_lt]
  exact length_lt _

theorem selCheck_ok {changed : Bool}
    (h : selCheck (board sched) sig fuel w = .ok (some (some changed), w')) :
    changed = decide (w.vars.count.toNat < counted sched w) ∧
      ((counted sched w = 0 ∧ w' = { afterCount sched w with vars.lastid := 0 }) ∨
        (counted sched w ≠ 0 ∧ w.vars.count.toNat ≤ counted sched w ∧ w' = afterCount sched w) ∨
        (counted sched w ≠ 0 ∧ counted sched w < w.vars.count.toNat ∧ ∃ last w1,
          walk (board sched) sig (fun _ _ v => v) fuel 0 0 (afterCount sched w) =
            .ok (some (true, last), w1) ∧ w' = { w1 with vars.lastid := last })) := by
  have hnat := toNat_counted sched w
  have hless : decide (w.vars.count < UInt16.ofNat (counted sched w)) =
      decide (w.vars.count.toNat < counted sched w) := by
    rw [decide_eq_decide, UInt16.lt_iff_toNat_lt, hnat]
  have hzero : UInt16.ofNat (counted sched w) = 0 ↔ counted sched w = 0 := by
    rw [← UInt16.toNat_inj, hnat]
    rfl
  have hbefore : UInt16.ofNat (counted sched w) < w.vars.count ↔
      counted sched w < w.vars.count.toNat := by
    rw [UInt16.lt_iff_toNat_lt, hnat]
  rw [selCheck, bind_run (show (get : Cmd Vars Board W) w = .ok (w, w) from rfl),
    bind_run (selInfo_eq sched w)] at h
  obtain ⟨_, w1, hset, h⟩ := bind_ok.mp h
  obtain rfl : afterCount sched w = w1 := modify_ok.mp hset
  by_cases h0 : UInt16.ofNat (counted sched w) = 0
  · rw [if_pos h0] at h
    obtain ⟨_, w2, hset', h⟩ := bind_ok.mp h
    obtain ⟨hout, rfl⟩ := pure_ok.mp h
    refine ⟨?_, .inl ⟨hzero.mp h0, (modify_ok.mp hset').symm⟩⟩
    rw [← hless]
    exact (Option.some.inj (Option.some.inj hout)).symm
  rw [if_neg h0] at h
  by_cases hlt : UInt16.ofNat (counted sched w) < w.vars.count
  · rw [if_pos hlt] at h
    obtain ⟨out, w2, hlast, h⟩ := bind_ok.mp h
    rcases out with _ | _ | last
    · obtain ⟨hout, -⟩ := pure_ok.mp h
      cases hout
    · obtain ⟨hout, -⟩ := pure_ok.mp h
      cases Option.some.inj hout
    · obtain ⟨_, w3, hset', h⟩ := bind_ok.mp h
      obtain ⟨hout, rfl⟩ := pure_ok.mp h
      refine ⟨?_, .inr (.inr ⟨fun hc => h0 (hzero.mpr hc), hbefore.mp hlt, last, w2,
        lastId_ok h0 hlast, (modify_ok.mp hset').symm⟩)⟩
      rw [← hless]
      exact (Option.some.inj (Option.some.inj hout)).symm
  · rw [if_neg hlt] at h
    obtain ⟨hout, rfl⟩ := pure_ok.mp h
    refine ⟨?_, .inr (.inl ⟨fun hc => h0 (hzero.mpr hc), by rw [hbefore] at hlt; omega, rfl⟩)⟩
    rw [← hless]
    exact (Option.some.inj (Option.some.inj hout)).symm

/-- A poll that succeeds: the check, and the reading if there was a change. -/
theorem poll_ok {changed : Bool}
    (h : poll (board sched) sig fuel w = .ok (some (some changed), w')) :
    ∃ w1, selCheck (board sched) sig fuel w = .ok (some (some changed), w1) ∧
      (changed = false ∧ w' = w1 ∨
        changed = true ∧ selRead (board sched) sig fuel w1 = .ok (some true, w')) := by
  obtain ⟨out, w1, hcheck, h⟩ := bind_ok.mp h
  rcases out with _ | _ | c
  · obtain ⟨hout, -⟩ := pure_ok.mp h
    cases hout
  · obtain ⟨hout, -⟩ := pure_ok.mp h
    cases Option.some.inj hout
  cases c with
  | false =>
    obtain ⟨hout, rfl⟩ := pure_ok.mp h
    obtain rfl := Option.some.inj (Option.some.inj hout)
    exact ⟨w1, hcheck, .inl ⟨rfl, rfl⟩⟩
  | true =>
    obtain ⟨out, w2, hread, h⟩ := bind_ok.mp h
    rcases out with _ | ok
    · obtain ⟨hout, -⟩ := pure_ok.mp h
      cases hout
    · obtain ⟨hout, rfl⟩ := pure_ok.mp h
      cases ok with
      | false => cases Option.some.inj hout
      | true =>
        obtain rfl := Option.some.inj (Option.some.inj hout)
        exact ⟨w1, hcheck, .inr ⟨rfl, hread⟩⟩

theorem passing_afterCount (sched : ℕ → Moment) (w : W) :
    (passing sched).rel w (afterCount sched w) :=
  passing_asked sched w getSelInfo

theorem afterCount_records (sched : ℕ → Moment) (w : W) :
    (afterCount sched w).device.sel = (w.device.now sched).sel :=
  (board_sel sched w.device getSelInfo).1

theorem moves_selRead : Moves (passing sched) (selRead (board sched) sig fuel) := by
  refine .bind .get fun w => .ite (fun _ => .pure _) fun _ => .bind (moves_walk _ _) fun out => ?_
  rcases out with _ | ⟨ok, last⟩
  · exact .pure _
  · exact .bind (.modify fun w => ⟨.refl _, Nat.le_refl _, fun _ => rfl⟩) fun _ => .pure _

theorem passing_selCheck {changed : Bool}
    (h : selCheck (board sched) sig fuel w = .ok (some (some changed), w')) :
    (passing sched).rel (afterCount sched w) w' := by
  rcases (selCheck_ok h).2 with ⟨-, rfl⟩ | ⟨-, -, rfl⟩ | ⟨-, -, last, w1, hwalk, rfl⟩
  · exact (passing sched).refl _
  · exact (passing sched).refl _
  · have hpass := (moves_walk _ _).rel hwalk
    exact ⟨hpass.1, hpass.2⟩

/-- Checking a log that has not been cleared only counts its entries. -/
theorem selCheck_known {pre : List Event} {changed : Bool} (hk : Known pre w)
    (h : selCheck (board sched) sig fuel w = .ok (some (some changed), w'))
    (hc : w'.device.clears = w.device.clears) :
    Known pre w' ∧ w'.vars.logged = w.vars.logged ∧ w'.device = (afterCount sched w).device ∧
      w'.log = (afterCount sched w).log := by
  have hpass := passing_afterCount sched w
  have hnat := toNat_counted sched w
  have hcount : (afterCount sched w).device.sel.records.length = counted sched w := by
    rw [afterCount_records]
    rfl
  rcases (selCheck_ok h).2 with ⟨h0, rfl⟩ | ⟨-, -, rfl⟩ | ⟨-, hlt, last, w1, hwalk, rfl⟩
  · obtain ⟨more, hmore⟩ := hpass.1.records hc
    rw [h0] at hcount hnat
    have hnil : (afterCount sched w).device.sel.records = [] := List.length_eq_zero_iff.mp hcount
    rw [hnil] at hmore
    obtain ⟨hrec, -⟩ := List.append_eq_nil_iff.mp hmore
    have hpre : pre = [] := by
      have hsub := hk.records
      rw [hrec] at hsub
      exact List.prefix_nil.mp hsub
    refine ⟨⟨?_, ?_, ?_⟩, rfl, rfl, rfl⟩
    · rw [hpre]
      exact List.nil_prefix
    · rw [hpre]
      rfl
    · show (UInt16.ofNat (counted sched w)).toNat ≤ _
      rw [h0, hnat]
      exact Nat.zero_le _
  · refine ⟨⟨hk.records.trans (hpass.1.records hc), hk.lastid, ?_⟩, rfl, rfl, rfl⟩
    show (UInt16.ofNat (counted sched w)).toNat ≤ _
    exact Nat.le_of_eq (hnat.trans hcount)
  · -- there cannot be fewer entries than before
    have hpass' := (moves_walk _ _).rel hwalk
    have hc1 : (afterCount sched w).device.clears = w.device.clears := by
      have h1 := hpass.1.clears
      have h2 := hpass'.1.clears
      have h3 : w1.device.clears = w.device.clears := hc
      omega
    have hle := (hpass.1.records hc1).length_le
    have hk' := hk.count
    omega

/-- **A poll of a log that is not cleared** logs what is behind the known part, if it sees more
entries than before. -/
theorem poll_step {pre : List Event} {changed : Bool} (hk : Known pre w)
    (h : poll (board sched) sig fuel w = .ok (some (some changed), w'))
    (hc : w'.device.clears = w.device.clears) :
    ∃ new, Known (pre ++ new) w' ∧ w'.vars.logged = w.vars.logged ++ new ∧
      (afterCount sched w).device.sel.records <+: w'.device.sel.records ∧
      changed = decide (w.vars.count.toNat < counted sched w) ∧
      (changed = true → isStopped sig w' = false → w'.device.sel.records = pre ++ new) := by
  obtain ⟨w1, hcheck, ⟨rfl, rfl⟩ | ⟨rfl, hread⟩⟩ := poll_ok h
  · obtain ⟨hknown, hlogged, hdev, -⟩ := selCheck_known hk hcheck hc
    refine ⟨[], by rwa [List.append_nil], by rw [hlogged, List.append_nil], ?_,
      (selCheck_ok hcheck).1, nofun⟩
    exact hdev ▸ List.prefix_rfl
  · have hpass : (passing sched).rel w1 w' := moves_selRead.rel hread
    have hcheck1 := (passing sched).trans (passing_afterCount sched w) (passing_selCheck hcheck)
    have hc1 : w1.device.clears = w.device.clears := by
      have h1 := hcheck1.1.clears
      have h2 := hpass.1.clears
      omega
    obtain ⟨hknown, hlogged, hdev, -⟩ := selCheck_known hk hcheck hc1
    obtain ⟨new, hknown', hlogged', -, hend⟩ := selRead_known hknown hread (by omega)
    refine ⟨new, hknown', by rw [hlogged', hlogged], ?_, (selCheck_ok hcheck).1, fun _ => hend⟩
    rw [← hdev]
    exact hpass.1.records (by omega)

/-- Looking for the end of the log makes everything known that is visited. -/
theorem resync_known {last : UInt16}
    (h : walk (board sched) sig (fun _ _ v => v) fuel 0 0 w = .ok (some (true, last), w'))
    (hc : w'.device.clears = w.device.clears)
    (hcount : w.vars.count.toNat ≤ w.device.sel.records.length) :
    ∃ pre, Known pre { w' with vars.lastid := last } ∧ w'.vars.logged = w.vars.logged ∧
      (isStopped sig w' = false → w'.device.sel.records = pre) := by
  have hpass := (moves_walk _ _).rel h
  have hlength := Nat.le_trans hcount (hpass.1.records hc).length_le
  rcases walk_visits h hc with ⟨rfl, rfl, hend⟩ | ⟨a, e, es, rest, hsplit, hasked, hlast,
    hvars, hrest⟩
  · refine ⟨[], ⟨ List.nil_prefix, rfl, hlength⟩, rfl, fun hns => ?_⟩
    rcases hend with hend | hend
    · exact absurd hend (by decide)
    · exact absurd (hend.symm.trans hns) (by decide)
  · have hproper := w'.device.sel.proper e (by rw [hsplit]; simp)
    obtain rfl : a = [] := by
      rcases hasked with hasked | hasked
      · exact hasked.2
      · exact absurd hasked hproper.1
    have hsame : w'.vars = w.vars := by
      rw [hvars, visitAll]
      clear hsplit hlast hrest hvars
      induction es with
      | nil => rfl
      | cons x es ih => exact ih
    refine ⟨e :: es, ⟨⟨rest, hsplit.symm⟩, ?_, by rw [hsame]; exact hlength⟩, by rw [hsame],
      fun hns => ?_⟩
    · exact hlast.trans (lastOf_append_cons [] e es).symm
    · rw [hsplit, hrest hns]
      simp

theorem selSetup_ok (h : selSetup (board sched) sig fuel w = .ok (some true, w')) :
    (counted sched w = 0 ∧ w' = { afterCount sched w with vars.lastid := 0 }) ∨
      (counted sched w ≠ 0 ∧ ∃ last w1, walk (board sched) sig (fun _ _ v => v) fuel 0 0
        (afterCount sched w) =
        .ok (some (true, last), w1) ∧ w' = { w1 with vars.lastid := last }) := by
  rw [selSetup, bind_run (selInfo_eq sched w)] at h
  obtain ⟨_, w1, hset, h⟩ := bind_ok.mp h
  obtain rfl : afterCount sched w = w1 := modify_ok.mp hset
  obtain ⟨out, w2, hlast, h⟩ := bind_ok.mp h
  rcases out with _ | _ | last
  · obtain ⟨hout, -⟩ := pure_ok.mp h
    cases hout
  · obtain ⟨hout, -⟩ := pure_ok.mp h
    exact absurd (Option.some.inj hout) (by decide)
  obtain ⟨_, w3, hset', h⟩ := bind_ok.mp h
  obtain ⟨-, rfl⟩ := pure_ok.mp h
  by_cases h0 : (afterCount sched w).vars.count = 0
  · left
    rw [lastId, bind_run (show (get : Cmd Vars Board W) _ = .ok (_, _) from rfl),
      if_pos h0] at hlast
    obtain ⟨hout, rfl⟩ := pure_ok.mp hlast
    obtain rfl := Option.some.inj (Option.some.inj hout)
    refine ⟨?_, (modify_ok.mp hset').symm⟩
    rw [← toNat_counted sched w]
    exact congrArg UInt16.toNat h0
  · refine .inr ⟨fun hc => h0 (UInt16.toNat_inj.mp ?_), last, w2, lastId_ok h0 hlast,
      (modify_ok.mp hset').symm⟩
    exact (toNat_counted sched w).trans hc

theorem count_afterCount (sched : ℕ → Moment) (w : W) :
    (afterCount sched w).vars.count.toNat = (afterCount sched w).device.sel.records.length := by
  rw [afterCount_records]
  exact toNat_counted sched w

/-- **The setup** finds the end of a log that is not cleared meanwhile. -/
theorem selSetup_known (h : selSetup (board sched) sig fuel w = .ok (some true, w'))
    (hc : w'.device.clears = (afterCount sched w).device.clears) : w'.vars.logged = w.vars.logged ∧
      (isStopped sig w' = false → Known w'.device.sel.records w') := by
  have hcount := count_afterCount sched w
  rcases selSetup_ok h with ⟨h0, rfl⟩ | ⟨-, last, w1, hwalk, rfl⟩
  · refine ⟨rfl, fun _ => ⟨List.prefix_rfl, ?_, Nat.le_of_eq hcount⟩⟩
    have hnil : (afterCount sched w).device.sel.records = [] := by
      rw [← List.length_eq_zero_iff, ← hcount]
      exact (toNat_counted sched w).trans h0
    show 0 = lastOf (afterCount sched w).device.sel.records
    rw [hnil]
    rfl
  · obtain ⟨pre, hknown, hlogged, hend⟩ := resync_known hwalk hc (Nat.le_of_eq hcount)
    refine ⟨hlogged, fun hns => ?_⟩
    rw [show ({ w1 with vars.lastid := last } : W).device.sel.records = pre from hend hns]
    exact hknown

/-! ### Nothing goes wrong while the log is never cleared -/

/-- The walk from the end of the known part comes to an end. -/
theorem walk_known (sig : Signal) (hn : NeverCleared sched) (hfuel : 65536 ≤ fuel)
    {pre : List Event} (hk : Known pre w) (hne : w.device.sel.records ≠ [])
    {visit : UInt16 → Event → Vars → Vars} :
    ∃ last w1, walk (board sched) sig visit fuel w.vars.lastid w.vars.lastid w =
      .ok (some (true, last), w1) := by
  obtain ⟨rest, hrest⟩ := hk.records
  rcases List.eq_nil_or_concat pre with rfl | ⟨a, x, rfl⟩
  · obtain ⟨e, rest', he⟩ := List.exists_cons_of_ne_nil hne
    exact walk_returns hn fuel (show _ = [] ++ e :: rest' from he) (.inl ⟨hk.lastid, rfl⟩)
      (by simpa using hfuel)
  · rw [List.concat_eq_append] at hrest
    have hx : w.vars.lastid = x.recordId := by
      rw [hk.lastid, List.concat_eq_append, lastOf_append_cons]
      rfl
    refine walk_returns hn fuel (show _ = a ++ x :: rest by rw [← hrest]; simp) (.inr hx.symm) ?_
    omega

theorem selRead_returns (sig : Signal) (hn : NeverCleared sched) (hfuel : 65536 ≤ fuel)
    {pre : List Event}
    (hk : Known pre w) (h0 : w.vars.count ≠ 0) :
    ∃ w', selRead (board sched) sig fuel w = .ok (some true, w') := by
  have hne : w.device.sel.records ≠ [] := by
    intro hnil
    have hle := hk.count
    rw [hnil] at hle
    exact h0 (UInt16.toNat_inj.mp (Nat.le_zero.mp hle))
  obtain ⟨last, w1, hwalk⟩ := walk_known sig hn hfuel hk hne
  rw [selRead, bind_run (show (get : Cmd Vars Board W) w = .ok (w, w) from rfl), if_neg h0]
  exact ⟨_, bind_ok.mpr ⟨_, _, hwalk, bind_ok.mpr ⟨⟨⟩, _, modify_ok.mpr rfl, rfl⟩⟩⟩

theorem selCheck_returns (sig : Signal) (fuel : ℕ) (hn : NeverCleared sched) {pre : List Event}
    (hk : Known pre w) :
    ∃ w', selCheck (board sched) sig fuel w =
      .ok (some (some (decide (w.vars.count < UInt16.ofNat (counted sched w)))), w') ∧
        w'.vars.count = UInt16.ofNat (counted sched w) := by
  have hpass := passing_afterCount sched w
  have hle : w.vars.count.toNat ≤ counted sched w := by
    have h1 := hk.count
    have h2 := (hpass.1.records (hpass.2.2 hn)).length_le
    rw [afterCount_records] at h2
    exact Nat.le_trans h1 h2
  have hnlt : ¬ UInt16.ofNat (counted sched w) < w.vars.count := by
    rw [UInt16.lt_iff_toNat_lt, toNat_counted]
    omega
  rw [selCheck, bind_run (show (get : Cmd Vars Board W) w = .ok (w, w) from rfl),
    bind_run (selInfo_eq sched w)]
  by_cases h0 : UInt16.ofNat (counted sched w) = 0
  · refine ⟨{ afterCount sched w with vars.lastid := 0 },
      bind_ok.mpr ⟨⟨⟩, afterCount sched w, modify_ok.mpr rfl, ?_⟩, rfl⟩
    rw [if_pos h0]
    exact bind_ok.mpr ⟨⟨⟩, _, modify_ok.mpr rfl, rfl⟩
  · refine ⟨afterCount sched w, bind_ok.mpr ⟨⟨⟩, afterCount sched w, modify_ok.mpr rfl, ?_⟩, rfl⟩
    rw [if_neg h0, if_neg hnlt]
    rfl

theorem poll_returns (sig : Signal) (hn : NeverCleared sched) (hfuel : 65536 ≤ fuel)
    {pre : List Event} (hk : Known pre w) :
    ∃ changed w', poll (board sched) sig fuel w = .ok (some (some changed), w') := by
  obtain ⟨w1, hcheck, hcount⟩ := selCheck_returns sig fuel hn hk
  cases hchanged : decide (w.vars.count < UInt16.ofNat (counted sched w)) with
  | false =>
    rw [hchanged] at hcheck
    exact ⟨false, w1, bind_ok.mpr ⟨_, _, hcheck, rfl⟩⟩
  | true =>
    rw [hchanged] at hcheck
    have hpass := (passing sched).trans (passing_afterCount sched w) (passing_selCheck hcheck)
    have hknown := (selCheck_known hk hcheck (hpass.2.2 hn)).1
    have h0 : w1.vars.count ≠ 0 := by
      rw [hcount]
      intro hz
      have hlt := of_decide_eq_true hchanged
      rw [hz, UInt16.lt_iff_toNat_lt] at hlt
      exact absurd hlt (Nat.not_lt_zero _)
    obtain ⟨w2, hread⟩ := selRead_returns sig hn hfuel hknown h0
    exact ⟨true, w2, bind_ok.mpr ⟨_, _, hcheck, bind_ok.mpr ⟨_, _, hread, rfl⟩⟩⟩

theorem selSetup_returns (sig : Signal) (hn : NeverCleared sched) (hfuel : 65536 ≤ fuel) (w : W) :
    ∃ w', selSetup (board sched) sig fuel w = .ok (some true, w') ∧
      w'.device.clears = (afterCount sched w).device.clears := by
  have hcount := count_afterCount sched w
  rw [selSetup, bind_run (selInfo_eq sched w)]
  by_cases h0 : (afterCount sched w).vars.count = 0
  · refine ⟨{ afterCount sched w with vars.lastid := 0 },
      bind_ok.mpr ⟨⟨⟩, afterCount sched w, modify_ok.mpr rfl, bind_ok.mpr ⟨some (some 0),
        afterCount sched w, ?_, bind_ok.mpr ⟨⟨⟩, _, modify_ok.mpr rfl, rfl⟩⟩⟩, rfl⟩
    rw [lastId, bind_run (show (get : Cmd Vars Board W) _ = .ok (_, _) from rfl), if_pos h0]
    rfl
  · have hne : (afterCount sched w).device.sel.records ≠ [] := by
      intro hnil
      rw [hnil] at hcount
      exact h0 (UInt16.toNat_inj.mp hcount)
    obtain ⟨e, rest, he⟩ := List.exists_cons_of_ne_nil hne
    obtain ⟨last, w1, hwalk⟩ : ∃ last w1, walk (board sched) sig (fun _ _ v => v) fuel 0 0
        (afterCount sched w) = .ok (some (true, last), w1) :=
      walk_returns hn fuel (show _ = [] ++ e :: rest from he) (.inl ⟨rfl, rfl⟩)
        (by simpa using hfuel)
    have hpass' := (moves_walk _ _).rel hwalk
    refine ⟨{ w1 with vars.lastid := last }, bind_ok.mpr ⟨⟨⟩, afterCount sched w, modify_ok.mpr rfl,
      bind_ok.mpr ⟨some (some last), w1, ?_, bind_ok.mpr ⟨⟨⟩, _, modify_ok.mpr rfl, rfl⟩⟩⟩, ?_⟩
    · rw [lastId, bind_run (show (get : Cmd Vars Board W) _ = .ok (_, _) from rfl), if_neg h0,
        bind_run hwalk]
      rfl
    · exact hpass'.2.2 hn

end Steps

/-! ### Runs -/

/-- A round of `selWait` that succeeds. -/
def Polls (sched : ℕ → Moment) (sig : Signal) (fuel : ℕ) (w w' : W) : Prop :=
  isStopped sig w = false ∧ ∃ changed, poll (board sched) sig fuel w = .ok (some (some changed), w')

/-- No record is logged twice, the records are logged in the order of the log, and none of `known`
is. -/
structure Once (known : List Event) (w : W) : Prop where
  nodup : (w.vars.logged.map Event.recordId).Nodup
  order : w.vars.logged.Sublist w.device.sel.records
  fresh : ∀ e ∈ known, e ∉ w.vars.logged

/-- What has been logged is the part of the log behind `known`. -/
structure Reported (sig : Signal) (known : List Event) (w : W) : Prop where
  records : known ++ w.vars.logged <+: w.device.sel.records
  position : isStopped sig w = false → Known (known ++ w.vars.logged) w

theorem Reported.once {sig : Signal} {known : List Event} {w : W} (h : Reported sig known w) :
    Once known w := by
  obtain ⟨rest, hrest⟩ := h.records
  have hnodup := w.device.sel.nodup
  rw [← hrest, List.map_append, List.map_append, List.nodup_append, List.nodup_append] at hnodup
  refine ⟨hnodup.1.2.1, ?_, fun e he hc => ?_⟩
  · have hsub : w.vars.logged.Sublist (known ++ w.vars.logged) := List.sublist_append_right _ _
    exact hsub.trans h.records.sublist
  · exact hnodup.1.2.2 _ (List.mem_map_of_mem he) _ (List.mem_map_of_mem hc) rfl

section Runs
variable {sched} {sig : Signal} {fuel : ℕ} {known : List Event} {w w' : W}

theorem passing_poll {changed : Bool}
    (h : poll (board sched) sig fuel w = .ok (some (some changed), w')) :
    (passing sched).rel (afterCount sched w) w' := by
  obtain ⟨w1, hcheck, ⟨-, rfl⟩ | ⟨-, hread⟩⟩ := poll_ok h
  · exact passing_selCheck hcheck
  · exact (passing sched).trans (passing_selCheck hcheck) (moves_selRead.rel hread)

/-- One poll keeps the log in order, and completes it if it sees more entries than before. -/
theorem Reported.poll (hn : NeverCleared sched) (h : Reported sig known w) {changed : Bool}
    (hw : isStopped sig w = false)
    (hpoll : poll (board sched) sig fuel w = .ok (some (some changed), w')) :
    Reported sig known w' ∧ changed = decide (w.vars.count.toNat < counted sched w) ∧
      (changed = true → isStopped sig w' = false →
        w'.device.sel.records = known ++ w'.vars.logged) := by
  have hpass := (passing sched).trans (passing_afterCount sched w) (passing_poll hpoll)
  obtain ⟨new, hknown, hlogged, -, hchanged, hend⟩ := poll_step (h.position hw) hpoll (hpass.2.2 hn)
  rw [List.append_assoc, ← hlogged] at hknown hend
  exact ⟨⟨hknown.records, fun _ => hknown⟩, hchanged, hend⟩

/-- Every poll succeeds, and if it sees more entries than before and is not stopped, every record
that is in the log when it ends is known from the setup or has been logged. -/
def Completes (sched : ℕ → Moment) (sig : Signal) (fuel : ℕ) (known : List Event) (w : W) : Prop :=
  ∃ changed w', poll (board sched) sig fuel w = .ok (some (some changed), w') ∧
    changed = decide (w.vars.count.toNat < counted sched w) ∧
    (changed = true → isStopped sig w' = false → ∀ e ∈ w'.device.sel.records,
      e ∈ known ∨ e ∈ w'.vars.logged)

/-- **Each new event is reported once**, in every run on a log that is never cleared. -/
theorem reports_once (sig : Signal) (hn : NeverCleared sched) (hfuel : 65536 ≤ fuel) (b : Board) :
    ∃ w₀, selSetup (board sched) sig fuel ⟨{}, b, []⟩ = .ok (some true, w₀) ∧
      ∀ w, Relation.ReflTransGen (Polls sched sig fuel) w₀ w → Once w₀.device.sel.records w ∧
        (isStopped sig w = false → Completes sched sig fuel w₀.device.sel.records w) := by
  obtain ⟨w₀, hsetup, hc⟩ := selSetup_returns sig hn hfuel ⟨{}, b, []⟩
  obtain ⟨hlogged, hknown⟩ := selSetup_known hsetup hc
  have hlogged0 : w₀.vars.logged = [] := hlogged
  refine ⟨w₀, hsetup, fun w hrun => ?_⟩
  have hinv : Reported sig w₀.device.sel.records w := by
    induction hrun with
    | refl =>
      refine ⟨?_, fun hns => ?_⟩
      · simp only [hlogged0, List.append_nil, List.prefix_rfl]
      · rw [hlogged0, List.append_nil]
        exact hknown hns
    | tail _ hstep ih =>
      obtain ⟨hw, changed, hpoll⟩ := hstep
      exact (ih.poll hn hw hpoll).1
  refine ⟨hinv.once, fun hw => ?_⟩
  obtain ⟨changed, w', hpoll⟩ := poll_returns sig hn hfuel (hinv.position hw)
  obtain ⟨-, hchanged, hend⟩ := hinv.poll hn hw hpoll
  refine ⟨changed, w', hpoll, hchanged, fun hch hns e he => ?_⟩
  rw [hend hch hns] at he
  exact List.mem_append.mp he

/-- A record. -/
def record (id : UInt16) : Event := ⟨id, List.replicate 14 0, by simp⟩

/-- Two records are there before the setup, and one is appended before the fifth request. -/
def oneMore (t : ℕ) : Moment where
  changes :=
    if t = 0 then [.append (record 1), .append (record 2)]
    else if t = 4 then [.append (record 3)] else []
  transient := t = 2

theorem reports_once_one_more : NeverCleared oneMore ∧
    ∃ w₀, selSetup (board oneMore) none 65536 ⟨{}, {}, []⟩ = .ok (some true, w₀) ∧
      ∀ w, Relation.ReflTransGen (Polls oneMore none 65536) w₀ w → Once w₀.device.sel.records w ∧
        (isStopped none w = false → Completes oneMore none 65536 w₀.device.sel.records w) := by
  have hn : NeverCleared oneMore := by
    intro t hc
    unfold oneMore at hc
    dsimp only at hc
    split_ifs at hc <;> simp at hc
  exact ⟨hn, reports_once none hn (Nat.le_refl _) {}⟩

end Runs

end Ipmitool.Evd.Delivery
