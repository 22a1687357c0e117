import Ipmitool.Sol.Input

/-! # Serial over LAN: reads of the terminal

The reads of a session are processed one behind the other. The characters that are sent and the
escapes do not depend on how the keys are cut into reads (`typeKeys_transduces`). The place of a
break among the characters does: all breaks of a read are sent before its characters, so the keys
are sent in their order exactly if no break stands behind a character of its read
(`typeKeys_inOrder_iff`). -/

namespace Ipmitool.Sol.Typing

open Ipmitool.Lib.Machine Ipmitool.Lib.Dialogue Ipmitool.Lib.Mealy Ipmitool.Core.Types
open Ipmitool.Sol.Input

/-! ### Breaks in front of characters -/

/-- There is no character in front of a break. -/
def BreaksFirst (l : List Symbol) : Prop := ∀ pre post, l = pre ++ .brk :: post → chars pre = []

theorem breaksFirst_cons {x : Symbol} {l : List Symbol} (hx : chars [x] = []) :
    BreaksFirst (x :: l) ↔ BreaksFirst l := by
  constructor
  · intro h pre post hl
    have hpre := h (x :: pre) post (by rw [hl, List.cons_append])
    rw [← List.singleton_append, chars_append, hx] at hpre
    exact hpre
  · rintro h (_ | ⟨y, pre⟩) post hl
    · rfl
    · obtain ⟨rfl, hl'⟩ := List.cons.inj hl
      rw [← List.singleton_append, chars_append, hx]
      exact h pre post hl'

theorem breaksFirst_char {c : UInt8} {l : List Symbol} :
    BreaksFirst (.char c :: l) ↔ .brk ∉ l := by
  constructor
  · intro h hmem
    obtain ⟨pre, post, rfl⟩ := List.append_of_mem hmem
    have hpre := h (.char c :: pre) post rfl
    cases hpre
  · rintro h (_ | ⟨y, pre⟩) post hl
    · rfl
    · obtain ⟨-, rfl⟩ := List.cons.inj hl
      exact absurd (List.mem_append_right pre List.mem_cons_self) h

theorem chars_breaks (l : List Symbol) : chars (breaks l) = [] := by
  refine List.filterMap_eq_nil_iff.mpr fun x hx => ?_
  obtain rfl : x = .brk := by simpa using (List.mem_filter.mp hx).2
  rfl

theorem breaks_eq_nil {l : List Symbol} : breaks l = [] ↔ .brk ∉ l := by
  rw [breaks, List.filter_eq_nil_iff]
  constructor
  · intro h hmem
    exact h _ hmem (by simp)
  · intro h x hx hbrk
    obtain rfl : x = .brk := by simpa using hbrk
    exact h hx

theorem wire_of_breaksFirst : ∀ {l : List Symbol}, BreaksFirst l →
    wire l = breaks l ++ (chars l).map .char
  | [], _ => rfl
  | .brk :: l, h => by
    have ih := wire_of_breaksFirst ((breaksFirst_cons rfl).mp h)
    exact congrArg (List.cons Symbol.brk) ih
  | .quit :: l, h => wire_of_breaksFirst (l := l) ((breaksFirst_cons rfl).mp h)
  | .char c :: l, h => by
    have hno := breaksFirst_char.mp h
    have ih : wire l = breaks l ++ (chars l).map .char :=
      wire_of_breaksFirst fun pre post hl => absurd (by rw [hl]; simp) hno
    rw [breaks_eq_nil.mpr hno] at ih
    have hbreaks : breaks (.char c :: l) = [] := breaks_eq_nil.mpr (by simpa using hno)
    rw [hbreaks]
    exact congrArg (List.cons (.char c)) ih

theorem breaksFirst_of_starts : ∀ {l : List Symbol}, breaks l <+: wire l → BreaksFirst l
  | [], _ => fun pre post hl => by simp at hl
  | .brk :: l, h => (breaksFirst_cons rfl).mpr
      (breaksFirst_of_starts (List.cons_prefix_cons.mp
        (show .brk :: breaks l <+: .brk :: wire l from h)).2)
  | .quit :: l, h => (breaksFirst_cons rfl).mpr (breaksFirst_of_starts (l := l) h)
  | .char c :: l, h => by
    refine breaksFirst_char.mpr (breaks_eq_nil.mp ?_)
    have h' : breaks l <+: .char c :: wire l := h
    rcases hb : breaks l with _ | ⟨x, bs⟩
    · rfl
    · -- the first break would be the character
      rw [hb] at h'
      have hx : x ∈ breaks l := by rw [hb]; exact List.mem_cons_self
      rw [(List.cons_prefix_cons.mp h').1] at hx
      simp [breaks] at hx

/-! ### The characters -/

section
variable {β : Type} (D : Device β Act Answer) (intf : SolIntf)

theorem typed_flatten_cons (e : UInt8) (s : EscapeState) (input : List UInt8)
    (reads : List (List UInt8)) : typed e s (input :: reads).flatten = typed e s input ++
      typed e (after (EscapeState.step e) s input) reads.flatten := by
  rw [List.flatten_cons, typed_append]

/-- The keys of the reads that were processed, unless the session ended with a failure; it ends
early only at the key that quits. -/
theorem typeKeys_chars : ∀ (reads : List (List UInt8)) (w : World EscapeState β Act Answer),
    (∀ input ∈ reads, input.length ≤ bufSize) → ∃ o rest w' evs done,
      typeKeys D intf reads w = .ok ((o, rest), w') ∧ w'.log = w.log ++ evs ∧ reads = done ++ rest ∧
      Sized intf evs ∧
      (0 < intf.retry → (∀ x ∈ evs, Succeeds x) → ∃ rc, o = .ok rc ∧ rc ≠ -1) ∧
      (∀ rc, o = .ok rc → rc ≠ -1 →
        (.quit ∉ typed intf.solEscapeChar w.vars reads.dropLast.flatten → rest = []) ∧
        w'.vars = after (EscapeState.step intf.solEscapeChar) w.vars done.flatten ∧
        chars (transmitted evs) = chars (typed intf.solEscapeChar w.vars done.flatten))
  | [], w, _ => ⟨.ok 0, [], w, [], [], rfl, (List.append_nil _).symm, rfl, by simp [Sized],
      fun _ _ => ⟨0, rfl, by decide⟩, fun _ _ _ => ⟨fun _ => rfl, rfl, rfl⟩⟩
  | input :: reads, w, h => by
    obtain ⟨o, w1, evs1, hrun1, hlog1, hsized1, hok1, herr1, hsucceeds1⟩ :=
      processUserInput_ok (D := D) intf (h input List.mem_cons_self) w
    unfold typeKeys
    rw [bind_run hrun1]
    rcases o with err | rc1
    · refine ⟨.error err, reads, w1, evs1, [input], rfl, hlog1, rfl, hsized1, ?_, by simp⟩
      intro hretry hall
      obtain ⟨rc, hrc, -⟩ := hsucceeds1 hretry hall
      cases hrc
    obtain ⟨hvars1, cs, -, hsent1, hall1⟩ := hok1 rc1 rfl
    -- the characters of a read that did not fail
    have hchars1 : rc1 ≠ -1 →
        chars (transmitted evs1) = chars (typed intf.solEscapeChar w.vars input) := by
      intro hrc
      have hnone : chars (breaks (typed intf.solEscapeChar w.vars input)) = [] := chars_breaks _
      rw [hsent1, chars_append, hnone, chars_map, (hall1 hrc).1, List.nil_append]
    dsimp only
    split_ifs with hzero
    · obtain ⟨o, rest, w', evs, done, hrun, hlog, hreads, hsized, hsucceeds, hdone⟩ :=
        typeKeys_chars reads w1 fun r hr => h r (List.mem_cons_of_mem _ hr)
      refine ⟨o, rest, w', evs1 ++ evs, input :: done, hrun, by rw [hlog, hlog1, List.append_assoc],
        by rw [hreads, List.cons_append], hsized1.append hsized, fun hretry hall =>
          hsucceeds hretry fun x hx => hall x (List.mem_append_right _ hx), fun rc hrc hne => ?_⟩
      obtain ⟨hrest, hvars, hchars⟩ := hdone rc hrc hne
      refine ⟨fun hquit => ?_, ?_, ?_⟩
      · rcases reads with _ | ⟨input', reads⟩
        · exact (List.append_eq_nil_iff.mp hreads.symm).2
        · refine hrest fun hmem => hquit ?_
          rw [List.dropLast_cons_cons, typed_flatten_cons, ← hvars1]
          exact List.mem_append_right _ hmem
      · rw [hvars, hvars1, List.flatten_cons, after_append]
      · rw [transmitted_append, chars_append, hchars1 (by omega), hchars, hvars1,
          typed_flatten_cons, chars_append]
    · refine ⟨.ok rc1, reads, w1, evs1, [input], rfl, hlog1, rfl, hsized1, hsucceeds1, ?_⟩
      intro rc hrc hne
      obtain rfl := Except.ok.inj hrc
      refine ⟨fun hquit => ?_, by rw [hvars1, List.flatten_singleton],
        by rw [hchars1 hne, List.flatten_singleton]⟩
      rcases reads with _ | ⟨input', reads⟩
      · rfl
      · have hquit1 : .quit ∈ typed intf.solEscapeChar w.vars input :=
          not_not.mp (mt (hall1 hne).2.mpr hzero)
        rw [List.dropLast_cons_cons, typed_flatten_cons] at hquit
        exact absurd (List.mem_append_left _ hquit1) hquit

/-- However the keys are cut into reads, the characters that are sent and the escapes behind them
are those of the machine. -/
theorem typeKeys_transduces {reads : List (List UInt8)}
    (hreads : ∀ input ∈ reads, input.length ≤ bufSize) (w : World EscapeState β Act Answer)
    (hquit : .quit ∉ typed intf.solEscapeChar w.vars reads.dropLast.flatten) : ∃ o rest w' evs,
      typeKeys D intf reads w = .ok ((o, rest), w') ∧ w'.log = w.log ++ evs ∧ Sized intf evs ∧
      (0 < intf.retry → (∀ x ∈ evs, Succeeds x) → ∃ rc, o = .ok rc ∧ rc ≠ -1) ∧
      (∀ rc, o = .ok rc → rc ≠ -1 → rest = [] ∧
        w'.vars = after (EscapeState.step intf.solEscapeChar) w.vars reads.flatten ∧
        chars (transmitted evs) = chars (typed intf.solEscapeChar w.vars reads.flatten)) := by
  obtain ⟨o, rest, w', evs, done, hrun, hlog, hsplit, hsized, hsucceeds, hdone⟩ :=
    typeKeys_chars D intf reads w hreads
  refine ⟨o, rest, w', evs, hrun, hlog, hsized, hsucceeds, fun rc hrc hne => ?_⟩
  obtain ⟨hrest, hvars, hchars⟩ := hdone rc hrc hne
  have hnil := hrest hquit
  rw [hnil, List.append_nil] at hsplit
  rw [hsplit]
  exact ⟨hnil, hvars, hchars⟩

end

/-- Everything is written and answered. -/
def answering : Device Unit Act Answer := fun _ _ => ({ response := some {} }, ())

theorem typeKeys_transduces_tilde : ∃ o rest w' evs,
    typeKeys answering ⟨126, 1, none⟩ [[126], [126, 97]] ⟨{}, (), []⟩ = .ok ((o, rest), w') ∧
      w'.log = [] ++ evs ∧ Sized ⟨126, 1, none⟩ evs ∧
      ((0 : ℤ) < 1 → (∀ x ∈ evs, Succeeds x) → ∃ rc, o = .ok rc ∧ rc ≠ -1) ∧
      (∀ rc, o = .ok rc → rc ≠ -1 → rest = [] ∧ w'.vars = ⟨false, false⟩ ∧
        chars (transmitted evs) = [126, 97]) := by
  have hreads : ∀ input ∈ [[126], [126, (97 : UInt8)]], input.length ≤ bufSize := by decide
  exact typeKeys_transduces answering ⟨126, 1, none⟩ hreads ⟨{}, (), []⟩ (by decide)

/-- The key of the breaks as the escape character: typed twice it is a break. -/
theorem doubled_break : ∃ w', typeKeys answering ⟨breakKey, 1, none⟩
    [[breakKey, breakKey]] ⟨{}, (), []⟩ =
    .ok ((.ok 0, []), w') ∧ chars (transmitted w'.log) = [] :=
  ⟨_, rfl, rfl⟩

/-! ### The breaks -/

/-- No read has a character in front of a break. -/
def InPlace (e : UInt8) : EscapeState → List (List UInt8) → Prop
  | _, [] => True
  | s, input :: reads =>
    BreaksFirst (typed e s input) ∧ InPlace e (after (EscapeState.step e) s input) reads

theorem BreaksFirst.starts {l l' : List Symbol} (h : BreaksFirst l') (hl : l <+: l') :
    BreaksFirst l := by
  rintro pre post rfl
  obtain ⟨more, rfl⟩ := hl
  exact h pre (post ++ more) (by simp)

theorem length_wire (l : List Symbol) :
    (wire l).length = (breaks l ++ (chars l).map Symbol.char).length := by
  induction l with
  | nil => rfl
  | cons x l ih =>
    rw [List.length_append, List.length_map] at ih ⊢
    cases x <;> simp_all [wire, breaks, chars, Symbol.char?, List.filterMap_cons] <;> omega

/-- What goes over the wire in a read is in its place exactly if the breaks come first. -/
theorem sent_prefix_iff {l more cs : List Symbol} (hcs : cs <+: (chars l).map .char) :
    breaks l ++ cs <+: wire l ++ more ↔ BreaksFirst l := by
  constructor
  · intro h
    refine breaksFirst_of_starts ?_
    refine List.prefix_of_prefix_length_le ((List.prefix_append _ _).trans h)
      (List.prefix_append _ _) ?_
    rw [length_wire, List.length_append]
    exact Nat.le_add_right _ _
  · intro h
    rw [wire_of_breaksFirst h, List.append_assoc]
    exact (List.prefix_append_right_inj _).mpr (hcs.trans (List.prefix_append _ _))

theorem read_prefix_iff {l more sent : List Symbol} :
    (breaks l ++ (chars l).map .char) ++ sent <+: wire l ++ more ↔
    BreaksFirst l ∧ sent <+: more := by
  constructor
  · intro h
    have hfirst := (sent_prefix_iff List.prefix_rfl).mp ((List.prefix_append _ _).trans h)
    rw [wire_of_breaksFirst hfirst] at h
    exact ⟨hfirst, (List.prefix_append_right_inj _).mp h⟩
  · rintro ⟨hfirst, h⟩
    rw [wire_of_breaksFirst hfirst]
    exact (List.prefix_append_right_inj _).mpr h

section
variable {β : Type} (D : Device β Act Answer) (intf : SolIntf)

/-- The keys go over the wire in their order exactly if no break stands behind a character of its
read; if the terminal refused a text, the rest of that read does not matter. -/
theorem typeKeys_inOrder_iff : ∀ (reads : List (List UInt8)) (w : World EscapeState β Act Answer),
    (∀ input ∈ reads, input.length ≤ bufSize) → ∃ o rest w' evs done,
      typeKeys D intf reads w = .ok ((o, rest), w') ∧ w'.log = w.log ++ evs ∧ reads = done ++ rest ∧
      (InPlace intf.solEscapeChar w.vars done →
        transmitted evs <+: wire (typed intf.solEscapeChar w.vars reads.flatten)) ∧
      (∀ rc, o = .ok rc → transmitted evs <+: wire (typed intf.solEscapeChar w.vars reads.flatten) →
        InPlace intf.solEscapeChar w.vars done)
  | [], w, _ => ⟨.ok 0, [], w, [], [], rfl, (List.append_nil _).symm, rfl, fun _ => List.prefix_rfl,
      fun _ _ _ => trivial⟩
  | input :: reads, w, h => by
    obtain ⟨o, w1, evs1, hrun1, hlog1, -, hok1, herr1, -⟩ :=
      processUserInput_ok (D := D) intf (h input List.mem_cons_self) w
    have htyped : wire (typed intf.solEscapeChar w.vars (input :: reads).flatten) =
        wire (typed intf.solEscapeChar w.vars input) ++ wire (typed intf.solEscapeChar
          (after (EscapeState.step intf.solEscapeChar) w.vars input) reads.flatten) := by
      rw [typed_flatten_cons, wire_append]
    unfold typeKeys
    rw [bind_run hrun1, htyped]
    rcases o with err | rc1
    · obtain ⟨pre, hpre, hsent1⟩ := herr1 err rfl
      refine ⟨.error err, reads, w1, evs1, [input], rfl, hlog1, rfl, fun hin => ?_, by simp⟩
      -- only the breaks of the keys in front of the text were sent
      obtain ⟨more, rfl⟩ := hpre
      rw [hsent1, typed_append, wire_append, List.append_assoc, ← List.append_nil (breaks _)]
      refine (sent_prefix_iff List.nil_prefix).mpr (hin.1.starts ?_)
      rw [typed_append]
      exact List.prefix_append _ _
    obtain ⟨hvars1, cs, hcs, hsent1, hall1⟩ := hok1 rc1 rfl
    dsimp only
    split_ifs with hzero
    · obtain ⟨o, rest, w', evs, done, hrun, hlog, hreads, himp, hiff⟩ :=
        typeKeys_inOrder_iff reads w1 fun r hr => h r (List.mem_cons_of_mem _ hr)
      rw [hvars1] at himp hiff
      obtain ⟨rfl, -⟩ := hall1 (by omega)
      refine ⟨o, rest, w', evs1 ++ evs, input :: done, hrun, by rw [hlog, hlog1, List.append_assoc],
        by rw [hreads, List.cons_append], ?_, ?_⟩
      · rintro ⟨hfirst, hin⟩
        rw [transmitted_append, hsent1]
        exact read_prefix_iff.mpr ⟨hfirst, himp hin⟩
      · intro rc hrc hpre
        rw [transmitted_append, hsent1] at hpre
        obtain ⟨hfirst, hpre⟩ := read_prefix_iff.mp hpre
        exact ⟨hfirst, hiff rc hrc hpre⟩
    · refine ⟨.ok rc1, reads, w1, evs1, [input], rfl, hlog1, rfl, ?_, ?_⟩
      · rintro ⟨hfirst, -⟩
        rw [hsent1]
        exact (sent_prefix_iff (hcs.map _)).mpr hfirst
      · intro rc _ hpre
        rw [hsent1] at hpre
        exact ⟨(sent_prefix_iff (hcs.map _)).mp hpre, trivial⟩

end

theorem typeKeys_inOrder_iff_tilde : ∃ o rest w' evs done,
    typeKeys answering ⟨126, 1, none⟩ [[97, 13], [126, breakKey]] ⟨{}, (), []⟩ =
      .ok ((o, rest), w') ∧
      w'.log = [] ++ evs ∧ [[97, 13], [126, breakKey]] = done ++ rest ∧
      (InPlace 126 {} done → transmitted evs <+: [.char 97, .char 13, .brk]) ∧
      (∀ rc, o = .ok rc → transmitted evs <+: [.char 97, .char 13,
        .brk] → InPlace 126 {} done) := by
  have hreads : ∀ input ∈ [[97, 13], [126, breakKey]], input.length ≤ bufSize := by decide
  exact typeKeys_inOrder_iff answering ⟨126, 1, none⟩ _ ⟨{}, (), []⟩ hreads

/-- A line and a break in one read: the break goes first. -/
theorem break_overtakes : ∃ w',
    typeKeys answering ⟨126, 1, none⟩ [[97, 13, 126, breakKey]] ⟨{}, (), []⟩ =
      .ok ((.ok 0, []), w') ∧
      transmitted w'.log = [.brk, .char 97, .char 13] ∧
      wire (typed 126 {} [97, 13, 126, breakKey]) = [.char 97, .char 13, .brk] := by
  have hscan : scan answering 126 [97, 13, 126, breakKey] {} ⟨{}, (), []⟩ =
      .ok (.ok ⟨[97, 13], 0⟩, ⟨⟨false, true⟩, (),
        [(.text (.breakSent 126), { response := some {} }),
          (.sendSol { generateBreak := true }, { response := some {} })]⟩) := rfl
  have hnil : ∀ w : World EscapeState Unit Act Answer,
      sendLoop answering ⟨126, 1, none⟩ 0 [] w = .ok (0, w) := by
    intro w
    rw [sendLoop]
    rfl
  have hloop : ∀ w : World EscapeState Unit Act Answer,
      sendLoop answering ⟨126, 1, none⟩ 0 [97, 13] w =
        .ok (0, w.asked answering (.sendSol { data := [97, 13] })) := by
    intro w
    rw [sendLoop]
    exact hnil _
  have hread : ∃ w', processUserInput answering ⟨126, 1, none⟩ [97, 13, 126,
      breakKey] ⟨{}, (), []⟩ =
      .ok (.ok 0, w') ∧ transmitted w'.log = [.brk, .char 97, .char 13] := by
    unfold processUserInput
    rw [bind_run hscan]
    dsimp only
    rw [if_neg (by decide), bind_run (hloop _)]
    exact ⟨_, rfl, rfl⟩
  obtain ⟨w', hrun, hsent⟩ := hread
  refine ⟨w', ?_, hsent, rfl⟩
  unfold typeKeys
  rw [bind_run hrun]
  rfl

end Ipmitool.Sol.Typing
