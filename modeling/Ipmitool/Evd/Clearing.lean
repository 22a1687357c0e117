import Ipmitool.Evd.Delivery

/-! # Clearing the log

A watcher recognises a change by the number of entries alone. If the log was cleared, the number
says nothing about what was appended afterwards: with fewer entries than before, the end of the log
is looked for again and what is there is not logged (`cleared_and_refilled`).

`later_events_logged` says what is promised: the records appended after a poll are logged by the
next one if the log has not been cleared since the last poll that found another number of entries
counted them, or if the previous poll found it empty. -/

namespace Ipmitool.Evd.Clearing

open Ipmitool.Lib.Machine Ipmitool.Lib.Dialogue Ipmitool.Core.Interface Ipmitool.Evd.Watch
open Ipmitool.Evd.Delivery

/-- The records of a board that were appended after the state `w`: all of them if the log was
cleared. -/
def appended (w : W) (b : Board) : List Event :=
  if b.clears = w.device.clears then b.sel.records.drop w.device.sel.records.length
    else b.sel.records

/-- The poll from `w` to `w'` logs the records that were appended after `w` and are in the log when
their number is asked for. -/
def LogsLater (sched : ℕ → Moment) (w w' : W) : Prop :=
  ∃ new, w'.vars.logged = w.vars.logged ++ new ∧
    ∀ e ∈ appended w (afterCount sched w).device, e ∈ new

/-- A run: the setup and any number of polls that succeed. The number says how often the log had
been cleared when the entries were counted by the setup or by the last poll that found another
number. -/
inductive Reaches (sched : ℕ → Moment) (sig : Signal) (fuel : ℕ) : W → ℕ → Prop
  | setup {b : Board} {w : W}
    (h : selSetup (board sched) sig fuel ⟨{}, b, []⟩ = .ok (some true, w)) :
    Reaches sched sig fuel w (afterCount sched ⟨{}, b, []⟩).device.clears
  | poll {w w' : W} {c : ℕ} {changed : Bool} (hw : Reaches sched sig fuel w c)
    (h : poll (board sched) sig fuel w = .ok (some (some changed), w')) :
    Reaches sched sig fuel w'
      (if w'.vars.count = w.vars.count then c else (afterCount sched w).device.clears)

section
variable {sched : ℕ → Moment} {sig : Signal} {fuel : ℕ} {w w' : W}

/-! ### One poll -/

theorem logNew_count (q : UInt16) (e : Event) (v : Vars) : (logNew q e v).count = v.count := by
  unfold logNew
  split_ifs <;> rfl

theorem walk_count {visit : UInt16 → Event → Vars → Vars}
    (hv : ∀ q e v, (visit q e v).count = v.count) {q last last' : UInt16}
    (h : walk (board sched) sig visit fuel q last w = .ok (some (true, last'), w')) :
    w'.vars.count = w.vars.count := by
  induction fuel generalizing q last w with
  | zero =>
    obtain ⟨hout, -⟩ := Prod.mk.inj (Except.ok.inj h)
    cases hout
  | succ fuel ih =>
    by_cases hstop : q = 0xffff ∨ isStopped sig w = true
    · rw [walk_stop hstop] at h
      obtain ⟨-, rfl⟩ := Prod.mk.inj (Except.ok.inj h)
      rfl
    obtain ⟨w1, -, ⟨hfail, -⟩ | ⟨a, e, rest, -, -, hvars, hgo⟩⟩ :=
      walk_succ sched visit fuel last hstop
    · rw [hfail] at h
      obtain ⟨hout, -⟩ := Prod.mk.inj (Except.ok.inj h)
      exact absurd (Prod.mk.inj (Option.some.inj hout)).1 (by decide)
    · rw [hgo] at h
      rw [ih h, hvars, hv]

theorem selRead_resyncs (h : selRead (board sched) sig fuel w = .ok (some true, w'))
    (hc : w'.device.clears = w.device.clears) (hlast : w.vars.lastid ≠ 0xffff)
    (hcount : w.vars.count.toNat ≤ w.device.sel.records.length) (hns : isStopped sig w' = false) :
    ∃ pre, Known pre w' := by
  obtain ⟨last, w1, hwalk, rfl⟩ := selRead_ok h
  have hlength := Nat.le_trans hcount (((moves_walk _ _).rel hwalk).1.records hc).length_le
  rcases walk_visits hwalk hc with ⟨rfl, rfl, hend⟩ | ⟨a, e, es, rest, hsplit, -, hl, -, -⟩
  · rcases hend with hend | hend
    · exact absurd hend hlast
    · exact absurd (hend.symm.trans hns) (by decide)
  · refine ⟨a ++ (e :: es), ⟨rest, hsplit.symm⟩, ?_, ?_⟩
    · rw [lastOf_append_cons]
      exact hl
    · have hsame := walk_count logNew_count hwalk
      show w1.vars.count.toNat ≤ _
      rw [hsame]
      exact hlength

/-- What a poll leaves, whatever has happened to the log: the number of entries that was counted,
zero as the last id of an empty log, and no last id that ends the log. -/
theorem poll_leaves {changed : Bool} (hlast : w.vars.lastid ≠ 0xffff)
    (h : poll (board sched) sig fuel w = .ok (some (some changed), w')) :
    w'.vars.count.toNat = counted sched w ∧ (counted sched w = 0 → w'.vars.lastid = 0) ∧
      w'.vars.lastid ≠ 0xffff := by
  have hnat := toNat_counted sched w
  obtain ⟨w1, hcheck, hrest⟩ := poll_ok h
  obtain ⟨hchanged, hcases⟩ := selCheck_ok hcheck
  have hleaves : w1.vars.count.toNat = counted sched w ∧
      (counted sched w = 0 → w1.vars.lastid = 0) ∧
      w1.vars.lastid ≠ 0xffff := by
    rcases hcases with ⟨-, rfl⟩ | ⟨hne, -, rfl⟩ | ⟨hne, -, last, w2, hwalk, rfl⟩
    · exact ⟨hnat, fun _ => rfl, show (0 : UInt16) ≠ 0xffff by decide⟩
    · exact ⟨hnat, fun h0 => absurd h0 hne, hlast⟩
    · refine ⟨?_, fun h0 => absurd h0 hne, walk_last (by decide) hwalk⟩
      show w2.vars.count.toNat = _
      rw [walk_count (fun _ _ _ => rfl) hwalk]
      exact hnat
  rcases hrest with ⟨-, rfl⟩ | ⟨rfl, hread⟩
  · exact hleaves
  · obtain ⟨last, w2, hwalk, rfl⟩ := selRead_ok hread
    refine ⟨?_, fun h0 => ?_, walk_last hleaves.2.2 hwalk⟩
    · show w2.vars.count.toNat = _
      rw [walk_count logNew_count hwalk]
      exact hleaves.1
    · rw [h0] at hchanged
      exact absurd hchanged (by simp)

/-- **A poll that finds another number of entries** knows the end of the log afterwards, if the log
is not cleared meanwhile. -/
theorem poll_resyncs {changed : Bool} (hlast : w.vars.lastid ≠ 0xffff)
    (h : poll (board sched) sig fuel w = .ok (some (some changed), w'))
    (hc : w'.device.clears = (afterCount sched w).device.clears) (hns : isStopped sig w' = false)
    (hne : w'.vars.count ≠ w.vars.count) : ∃ pre, Known pre w' := by
  have hcount := count_afterCount sched w
  obtain ⟨w1, hcheck, hrest⟩ := poll_ok h
  obtain ⟨hchanged, hcases⟩ := selCheck_ok hcheck
  rcases hcases with ⟨h0, rfl⟩ | ⟨h0, hle, rfl⟩ | ⟨h0, hlt, last, w2, hwalk, rfl⟩
  · -- the log is empty
    obtain ⟨rfl, rfl⟩ : changed = false ∧ w' = { afterCount sched w with vars.lastid := 0 } := by
      rcases hrest with hrest | ⟨rfl, -⟩
      · exact hrest
      · rw [h0] at hchanged
        exact absurd hchanged (by simp)
    exact ⟨[], List.nil_prefix, rfl, Nat.le_of_eq hcount⟩
  · -- there are more entries, and they are read
    rcases hrest with ⟨rfl, rfl⟩ | ⟨rfl, hread⟩
    · refine absurd (UInt16.toNat_inj.mp ?_) hne
      have hge : ¬ w.vars.count.toNat < counted sched w := by simpa using hchanged
      have hnat := toNat_counted sched w
      show (UInt16.ofNat (counted sched w)).toNat = _
      omega
    · exact selRead_resyncs hread hc hlast (Nat.le_of_eq hcount) hns
  · -- there are fewer entries, and the end is looked for
    obtain ⟨rfl, rfl⟩ : changed = false ∧ w' = { w2 with vars.lastid := last } := by
      rcases hrest with hrest | ⟨rfl, -⟩
      · exact hrest
      · have hgt : w.vars.count.toNat < counted sched w := by simpa using hchanged.symm
        omega
    obtain ⟨pre, hknown, -, -⟩ := resync_known hwalk hc (Nat.le_of_eq hcount)
    exact ⟨pre, hknown⟩

/-! ### Runs -/

/-- What a run keeps. The last part is lost when the log is cleared, until a poll finds another
number of entries. -/
structure Position (sig : Signal) (w : W) (c : ℕ) : Prop where
  lastid : w.vars.lastid ≠ 0xffff
  empty : w.vars.count = 0 → w.vars.lastid = 0
  clears : c ≤ w.device.clears
  known : isStopped sig w = false → w.device.clears = c → ∃ pre, Known pre w

theorem position_setup {b : Board}
    (h : selSetup (board sched) sig fuel ⟨{}, b, []⟩ = .ok (some true, w)) :
    Position sig w (afterCount sched ⟨{}, b, []⟩).device.clears := by
  have hknown : isStopped sig w = false →
      w.device.clears = (afterCount sched ⟨{}, b, []⟩).device.clears →
      ∃ pre, Known pre w := fun hns hc => ⟨_, (selSetup_known h hc).2 hns⟩
  rcases selSetup_ok h with ⟨-, rfl⟩ | ⟨hne, last, w1, hwalk, rfl⟩
  · exact ⟨show (0 : UInt16) ≠ 0xffff by decide, fun _ => rfl, Nat.le_refl _, hknown⟩
  · have hpass1 := (moves_walk _ _).rel hwalk
    refine ⟨walk_last (by decide) hwalk, fun h0 => absurd ?_ hne, hpass1.1.clears, hknown⟩
    have hsame : w1.vars.count = (afterCount sched ⟨{}, b, []⟩).vars.count :=
      walk_count (fun _ _ _ => rfl) hwalk
    rw [← toNat_counted sched ⟨{}, b, []⟩]
    exact congrArg UInt16.toNat (hsame.symm.trans h0)

theorem not_stopped_before (h : (passing sched).rel w w') (hns : isStopped sig w' = false) :
    isStopped sig w = false := by
  by_contra hs
  rw [passing_stopped sched h (by simpa using hs)] at hns
  exact absurd hns (by decide)

theorem Position.poll {c : ℕ} (hp : Position sig w c) {changed : Bool}
    (h : poll (board sched) sig fuel w = .ok (some (some changed), w')) :
    Position sig w' (if w'.vars.count = w.vars.count then c
      else (afterCount sched w).device.clears) := by
  have hpass := (passing sched).trans (passing_afterCount sched w) (passing_poll h)
  obtain ⟨hnat, hzero, hlast⟩ := poll_leaves hp.lastid h
  have hle := hpass.1.clears
  refine ⟨hlast, fun h0 => hzero ?_, ?_, fun hns => ?_⟩
  · rw [← hnat, h0]
    rfl
  · split_ifs
    · exact Nat.le_trans hp.clears hle
    · exact (passing_poll h).1.clears
  · by_cases hsame : w'.vars.count = w.vars.count
    · rw [if_pos hsame]
      intro hc
      have hle' := hp.clears
      obtain ⟨pre, hknown⟩ := hp.known (not_stopped_before hpass hns) (by omega)
      obtain ⟨new, hknown', -⟩ := poll_step hknown h (by omega)
      exact ⟨_, hknown'⟩
    · rw [if_neg hsame]
      exact fun hc => poll_resyncs hp.lastid h hc hns hsame

theorem Reaches.position {c : ℕ} (h : Reaches sched sig fuel w c) : Position sig w c := by
  induction h with
  | setup h => exact position_setup h
  | poll _ h ih => exact ih.poll h

theorem appended_of_not_cleared {b : Board} (h : b.clears = w.device.clears) :
    appended w b = b.sel.records.drop w.device.sel.records.length := if_pos h

theorem mem_new {pre new records : List Event} {n : ℕ} {e : Event} (hpre : pre.length ≤ n)
    (hrecords : records <+: pre ++ new) (he : e ∈ records.drop n) : e ∈ new := by
  obtain ⟨more, hmore⟩ := hrecords
  have hmem : e ∈ (pre ++ new).drop n := by
    rw [← hmore, List.drop_append]
    exact List.mem_append_left _ he
  rw [List.drop_append, List.drop_eq_nil_of_le hpre, List.nil_append] at hmem
  exact List.mem_of_mem_drop hmem

theorem logs_known {pre : List Event} (hk : Known pre w) {changed : Bool}
    (h : poll (board sched) sig fuel w = .ok (some (some changed), w'))
    (hc : w'.device.clears = w.device.clears) (hns : isStopped sig w' = false) :
    LogsLater sched w w' := by
  obtain ⟨new, -, hlogged, hrecords, hchanged, hend⟩ := poll_step hk h hc
  have hc1 : (afterCount sched w).device.clears = w.device.clears := by
    have h1 := (passing_afterCount sched w).1.clears
    have h2 := (passing_poll h).1.clears
    omega
  refine ⟨new, hlogged, fun e he => ?_⟩
  rw [appended_of_not_cleared hc1] at he
  -- something is behind the records of `w`, so there are more entries than counted
  have hmore : changed = true := by
    have hle := hk.count
    have hpos := List.length_pos_of_mem he
    rw [List.length_drop, afterCount_records] at hpos
    rw [hchanged, decide_eq_true_iff, counted]
    omega
  rw [hend hmore hns] at hrecords
  exact mem_new hk.records.length_le hrecords he

theorem logs_empty (hlast : w.vars.lastid = 0) (h0 : w.vars.count = 0) {changed : Bool}
    (h : poll (board sched) sig fuel w = .ok (some (some changed), w'))
    (hc : w'.device.clears = (afterCount sched w).device.clears) (hns : isStopped sig w' = false) :
    LogsLater sched w w' := by
  have hsub : ∀ e ∈ appended w (afterCount sched w).device,
      e ∈ (afterCount sched w).device.sel.records := by
    intro e he
    unfold appended at he
    split_ifs at he
    · exact List.mem_of_mem_drop he
    · exact he
  have hcount := count_afterCount sched w
  obtain ⟨w1, hcheck, hrest⟩ := poll_ok h
  obtain ⟨hchanged, hcases⟩ := selCheck_ok hcheck
  rw [h0] at hchanged hcases
  rcases hcases with ⟨hz, rfl⟩ | ⟨hne, -, rfl⟩ | ⟨-, hlt, -⟩
  · -- it is still empty
    obtain ⟨rfl, rfl⟩ : changed = false ∧ w' = { afterCount sched w with vars.lastid := 0 } := by
      rcases hrest with hrest | ⟨rfl, -⟩
      · exact hrest
      · rw [hz] at hchanged
        exact absurd hchanged (by decide)
    have hnil : (afterCount sched w).device.sel.records = [] := by
      rw [← List.length_eq_zero_iff, ← hcount]
      exact (toNat_counted sched w).trans hz
    refine ⟨[], (List.append_nil _).symm, fun e he => ?_⟩
    rw [← hnil]
    exact hsub e he
  · obtain ⟨rfl, hread⟩ : changed = true ∧
        selRead (board sched) sig fuel (afterCount sched w) = .ok (some true, w') := by
      rcases hrest with ⟨rfl, -⟩ | hrest
      · have hnot : ¬ (0 : UInt16).toNat < counted sched w := by simpa using hchanged
        exact absurd (Nat.pos_of_ne_zero hne) hnot
      · exact hrest
    have hknown : Known [] (afterCount sched w) := ⟨ List.nil_prefix, hlast, Nat.le_of_eq hcount⟩
    obtain ⟨new, -, hlogged, -, hend⟩ := selRead_known hknown hread hc
    refine ⟨new, hlogged, fun e he => ?_⟩
    have hmem := ((moves_selRead.rel hread).1.records hc).subset (hsub e he)
    rwa [hend hns] at hmem
  · exact absurd hlt (Nat.not_lt_zero _)

/-- **Later events are logged**, in every run. -/
theorem later_events_logged {c : ℕ} (hw : Reaches sched sig fuel w c) {changed : Bool}
    (h : poll (board sched) sig fuel w = .ok (some (some changed), w'))
    (hns : isStopped sig w' = false) (hc : w'.device.clears = c ∨
      w.vars.count = 0 ∧ w'.device.clears = (afterCount sched w).device.clears) :
    LogsLater sched w w' := by
  have hp := hw.position
  have hpass := (passing sched).trans (passing_afterCount sched w) (passing_poll h)
  rcases hc with hc | ⟨h0, hc⟩
  · have hle := hpass.1.clears
    have hle' := hp.clears
    obtain ⟨pre, hknown⟩ := hp.known (not_stopped_before hpass hns) (by omega)
    exact logs_known hknown h (by omega) hns
  · exact logs_empty (hp.empty h0) h0 h hc hns

end

/-- Two records are there before the setup. Before the first poll the log is cleared and another
record is appended, and a fourth one before the second poll. -/
def refilled (t : ℕ) : Moment where
  changes := if t = 0 then [.append (record 1), .append (record 2)]
    else if t = 3 then [.clear, .append (record 3)]
    else if t = 5 then [.append (record 4)] else []

theorem refilled_first : ∃ w w', Reaches refilled none 5 w 0 ∧
    poll (board refilled) none 5 w = .ok (some (some false), w') ∧ w.vars.count = 2 ∧
    w'.vars.count = 1 ∧
    record 3 ∈ appended w (afterCount refilled w).device ∧ w'.vars.logged = [] ∧
    (afterCount refilled w).device.clears = 1 ∧ w'.device.clears = 1 ∧
    returns (poll (board refilled) none 5) w' (fun out w₂ => out = some (some true) &&
      w₂.device.clears = 1 &&
      w₂.vars.logged = [record 4]) = true := by
  obtain ⟨ok, w, hsetup, hp⟩ :=
    exists_of_returns (x := selSetup (board refilled) none 5) (s := ⟨{}, {}, []⟩)
      (p := fun ok w => ok = some true && w.vars.count =
        2 && record 3 ∈ appended w (afterCount refilled w).device &&
        (afterCount refilled w).device.clears = 1 &&
        returns (poll (board refilled) none 5) w fun out w' =>
          out = some (some false) && w'.vars.count = 1 &&
          w'.vars.logged = [] && w'.device.clears = 1 &&
          returns (poll (board refilled) none 5) w' fun out w₂ => out = some (some true) &&
            w₂.device.clears = 1 && w₂.vars.logged = [record 4]) (by decide +kernel)
  simp only [Bool.and_eq_true, decide_eq_true_eq] at hp
  obtain ⟨⟨⟨⟨rfl, hcount⟩, hmem⟩, hclears⟩, hpoll⟩ := hp
  obtain ⟨out, w', hpoll', hp'⟩ := exists_of_returns hpoll
  simp only [Bool.and_eq_true, decide_eq_true_eq] at hp'
  obtain ⟨⟨⟨⟨rfl, hcount'⟩, hlogged⟩, hclears'⟩, hnext⟩ := hp'
  exact ⟨w, w', .setup hsetup, hpoll', hcount, hcount', hmem, hlogged, hclears, hclears', hnext⟩

/-- The third record is in the log when the first poll counts the entries, and is never logged. -/
theorem cleared_and_refilled : ∃ w w' c changed, Reaches refilled none 5 w c ∧
    poll (board refilled) none 5 w = .ok (some (some changed), w') ∧ isStopped none w' = false ∧
    ¬ LogsLater refilled w w' := by
  obtain ⟨w, w', hw, hpoll, -, -, hmem, hlogged, -⟩ := refilled_first
  refine ⟨w, w', 0, false, hw, hpoll, rfl, ?_⟩
  rintro ⟨new, hnew, hall⟩
  rw [hlogged] at hnew
  have hmem' := hall _ hmem
  rw [(List.append_eq_nil_iff.mp hnew.symm).2] at hmem'
  exact absurd hmem' List.not_mem_nil

/-- The second poll logs the fourth record. -/
theorem later_events_logged_refilled : ∃ w w', Reaches refilled none 5 w 1 ∧
    poll (board refilled) none 5 w = .ok (some (some true), w') ∧ LogsLater refilled w w' ∧
    w'.vars.logged = [record 4] := by
  obtain ⟨w, w', hw, hpoll, hcount, hcount', -, -, hclears, hclears', hnext⟩ := refilled_first
  have hw' := hw.poll hpoll
  rw [hcount, hcount', if_neg (by decide), hclears] at hw'
  obtain ⟨out, w₂, hpoll₂, hp⟩ := exists_of_returns hnext
  simp only [Bool.and_eq_true, decide_eq_true_eq] at hp
  obtain ⟨⟨rfl, hc⟩, hlogged⟩ := hp
  exact ⟨w', w₂, hw', hpoll₂, later_events_logged hw' hpoll₂ rfl (.inl hc), hlogged⟩

end Ipmitool.Evd.Clearing
