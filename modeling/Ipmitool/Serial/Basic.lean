import Ipmitool.Lib.Mealy

/-! # Serial basic mode

The framing of `intf/serial_basic.zig`: a message between the bytes `A0` and `A5`, with its special
bytes escaped by `AA`, and the receiver that takes the frame apart byte by byte.

The receiver may be in any state when a frame begins. `feed_start` resynchronises it, `token_fed`
takes one byte of the message, and `Shaken` frames, with handshake bytes between the parts, are
recovered by `outputs_shaken`. -/

namespace Ipmitool.Serial.Basic

open Ipmitool.Lib.Mealy

/-- `max_message`. -/
def maxMessage : ℕ := 47

/-- `escaped`. -/
def escaped (b : UInt8) : Option UInt8 :=
  if b = 0xa0 then some 0xb0
  else if b = 0xa5 then some 0xb5
  else if b = 0xa6 then some 0xb6
  else if b = 0xaa then some 0xba
  else if b = 0x1b then some 0x3b
  else none

/-- `unescaped`. -/
def unescaped (b : UInt8) : Option UInt8 :=
  if b = 0xb0 then some 0xa0
  else if b = 0xb5 then some 0xa5
  else if b = 0xb6 then some 0xa6
  else if b = 0xba then some 0xaa
  else if b = 0x3b then some 0x1b
  else none

/-- The bytes that one byte of the message is sent as. -/
def token (b : UInt8) : List UInt8 :=
  match escaped b with
  | some escape => [0xaa, escape]
  | none => [b]

/-- The parts of a frame that nothing may be inserted into. -/
def tokens (message : List UInt8) : List (List UInt8) :=
  [0xa0] :: (message.map token ++ [[0xa5]])

/-- `frame`. -/
def frame (message : List UInt8) : List UInt8 := (tokens message).flatten

/-- `Parser`: `msg` holds the first `len` bytes of the source's buffer. -/
structure Parser where
  msg : List UInt8 := []
  started : Bool := false
  escape : Bool := false
  length_le : msg.length ≤ maxMessage := by decide

/-- `self.msg[self.len] = b`, unless the buffer is full. -/
def Parser.push (p : Parser) (b : UInt8) : Parser :=
  if h : p.msg.length = maxMessage then { p with started := false }
  else { p with
    msg := p.msg ++ [b]
    length_le := by
      have := p.length_le
      simp only [List.length_append, List.length_singleton]
      omega }

/-- `Parser.feed`. -/
def feed (p : Parser) (b : UInt8) : Parser × Option (List UInt8) :=
  if b = 0xa0 then ({ started := true }, none)
  else if !p.started then (p, none)
  else if p.escape then
    match unescaped b with
    | none => ({ p with escape := false, started := false }, none)
    | some decoded => (Parser.push { p with escape := false } decoded, none)
  else if b = 0xaa then ({ p with escape := true }, none)
  else if b = 0xa5 then ({ p with started := false }, some p.msg)
  else if b ≠ 0xa6 then (p.push b, none)
  else (p, none)

/-! ### The receiver on the parts of a frame -/

/-- The receiver inside a frame, with `m` read so far. -/
structure Inside (p : Parser) (m : List UInt8) : Prop where
  msg : p.msg = m
  started : p.started = true
  escape : p.escape = false

theorem feed_start (p : Parser) : Inside (feed p 0xa0).1 [] ∧ (feed p 0xa0).2 = none :=
  ⟨⟨rfl, rfl, rfl⟩, rfl⟩

theorem Parser.push_inside {p : Parser} {m : List UInt8} {b : UInt8} (h : Inside p m)
    (hlen : m.length < maxMessage) : Inside (p.push b) (m ++ [b]) := by
  have hroom : ¬ p.msg.length = maxMessage := by
    rw [h.msg]
    omega
  unfold Parser.push
  rw [dif_neg hroom]
  refine ⟨?_, h.started, h.escape⟩
  show p.msg ++ [b] = m ++ [b]
  rw [h.msg]

theorem unescaped_escaped {b e : UInt8} (h : escaped b = some e) :
    unescaped e = some b ∧ e ≠ 0xa0 := by
  unfold escaped at h
  split_ifs at h with h1 h2 h3 h4 h5
  all_goals
    obtain rfl := Option.some.inj h
    subst b
    decide

theorem escaped_none {b : UInt8} (h : escaped b = none) :
    b ≠ 0xa0 ∧ b ≠ 0xa5 ∧ b ≠ 0xa6 ∧ b ≠ 0xaa := by
  unfold escaped at h
  split_ifs at h with h1 h2 h3 h4 h5
  exact ⟨h1, h2, h3, h4⟩

/-- **One byte of the message**, escaped or not. -/
theorem token_fed {p : Parser} {m : List UInt8} {b : UInt8} (h : Inside p m)
    (hlen : m.length < maxMessage) :
    Inside (after feed p (token b)) (m ++ [b]) ∧
      outputs feed p (token b) = List.replicate (token b).length none := by
  unfold token
  rcases hb : escaped b with _ | e
  · obtain ⟨h0, h5, h6, ha⟩ := escaped_none hb
    have hfeed : feed p b = (p.push b, none) := by
      simp [feed, h0, h5, h6, ha, h.started, h.escape]
    simp only [after_cons, after_nil, outputs_cons, outputs_nil, hfeed]
    exact ⟨Parser.push_inside h hlen, rfl⟩
  · obtain ⟨hue, he0⟩ := unescaped_escaped hb
    have hfeed1 : feed p 0xaa = ({ p with escape := true }, none) := by
      simp [feed, h.started, h.escape]
    have hfeed2 : feed { p with escape := true } e =
        (Parser.push { p with escape := false } b, none) := by
      simp [feed, he0, h.started, hue]
    simp only [after_cons, after_nil, outputs_cons, outputs_nil, hfeed1, hfeed2]
    exact ⟨Parser.push_inside ⟨h.msg, h.started, rfl⟩ hlen, rfl⟩

theorem handshake_fed {p : Parser} {m : List UInt8} (h : Inside p m) : feed p 0xa6 = (p, none) := by
  simp [feed, h.started, h.escape]

theorem stop_fed {p : Parser} {m : List UInt8} (h : Inside p m) :
    feed p 0xa5 = ({ p with started := false }, some m) := by
  simp [feed, h.started, h.escape, h.msg]

/-! ### Frames with handshakes -/

/-- The parts of a frame, each possibly after handshake bytes. -/
inductive Shaken : List (List UInt8) → List UInt8 → Prop
  | nil : Shaken [] []
  | handshake {t : List UInt8} {ts : List (List UInt8)} {bs : List UInt8}
    (h : Shaken (t :: ts) bs) :
      Shaken (t :: ts) (0xa6 :: bs)
  | part {t : List UInt8} {ts : List (List UInt8)} {bs : List UInt8} (h : Shaken ts bs) :
      Shaken (t :: ts) (t ++ bs)

theorem shaken_flatten (ts : List (List UInt8)) : Shaken ts ts.flatten := by
  induction ts with
  | nil => exact .nil
  | cons t ts ih => exact .part ih

/-- What the receiver says to the bytes `bs`: nothing, and the message `m` at the last. -/
def Recovers (p : Parser) (bs m : List UInt8) : Prop :=
  outputs feed p bs = List.replicate (bs.length - 1) none ++ [some m]

theorem shaken_rest {ts : List (List UInt8)} {bs : List UInt8} (h : Shaken ts bs) :
    ∀ {p : Parser} {m rest : List UInt8}, ts = rest.map token ++ [[0xa5]] → Inside p m →
      (m ++ rest).length ≤ maxMessage →
      bs ≠ [] ∧ (after feed p bs).started = false ∧ Recovers p bs (m ++ rest) := by
  -- the induction follows the stream; the message that is left shrinks with every part
  induction h with
  | nil =>
    intro p m rest hts _ _
    simp at hts
  | handshake _ ih =>
    intro p m rest hts hp hlen
    obtain ⟨hne, hstop, hout⟩ := ih hts hp hlen
    refine ⟨by simp, ?_, ?_⟩
    · rw [after_cons, handshake_fed hp]
      exact hstop
    · unfold Recovers at hout ⊢
      rw [outputs_cons, handshake_fed hp, hout, List.length_cons, ← List.cons_append,
        ← List.replicate_succ]
      have : 0 < List.length _ := List.length_pos_iff.mpr hne
      congr 2
      omega
  | @part t ts bs h ih =>
    intro p m rest hts hp hlen
    cases rest with
    | nil =>
      obtain ⟨rfl, rfl⟩ := List.cons.inj hts
      cases h
      simp only [List.append_nil, Recovers, after_cons, after_nil, outputs_cons, outputs_nil,
        stop_fed hp]
      exact ⟨by simp, trivial, rfl⟩
    | cons b rest =>
      obtain ⟨rfl, rfl⟩ := List.cons.inj hts
      have hroom : m.length < maxMessage := by
        simp only [List.length_append, List.length_cons] at hlen
        omega
      obtain ⟨hp', hout'⟩ := token_fed (b := b) hp hroom
      have hlen' : (m ++ [b] ++ rest).length ≤ maxMessage := by
        simpa using hlen
      obtain ⟨hne, hstop, hout⟩ := ih rfl hp' hlen'
      refine ⟨by simp [hne], ?_, ?_⟩
      · rw [after_append]
        exact hstop
      · unfold Recovers at hout ⊢
        have hpos : 0 < bs.length := List.length_pos_iff.mpr hne
        rw [outputs_append, hout', hout, ← List.append_assoc, List.replicate_append_replicate,
          List.append_assoc, List.singleton_append, List.length_append, Nat.add_sub_assoc hpos]

/-- **A frame is recovered from any state**, with handshake bytes between its parts. -/
theorem outputs_shaken (p : Parser) {message bs : List UInt8} (hlen : message.length ≤ maxMessage)
    (h : Shaken (tokens message) bs) :
    (after feed p bs).started = false ∧ Recovers p bs message := by
  suffices H : ∀ {ts bs}, Shaken ts bs → ts = tokens message → ∀ p : Parser,
      bs ≠ [] ∧ (after feed p bs).started = false ∧ Recovers p bs message from (H h rfl p).2
  intro ts bs h
  induction h with
  | nil => intro hts; simp [tokens] at hts
  | @handshake t ts bs _ ih =>
    intro hts p
    -- before the frame begins, a handshake may meet any state, but it is never an answer
    have hquiet : (feed p 0xa6).2 = none := by
      have hun : unescaped 0xa6 = none := by decide
      cases hs : p.started with
      | false => simp [feed, hs]
      | true =>
        cases he : p.escape with
        | false => simp [feed, hs, he]
        | true => simp [feed, hs, he, hun]
    obtain ⟨hne, hstop, hout⟩ := ih hts (feed p 0xa6).1
    refine ⟨by simp, hstop, ?_⟩
    unfold Recovers at hout ⊢
    have hpos : 0 < bs.length := List.length_pos_iff.mpr hne
    rw [outputs_cons, hquiet, hout, List.length_cons, ← List.cons_append, ← List.replicate_succ]
    congr 2
    omega
  | @part t ts bs h _ =>
    intro hts p
    obtain ⟨rfl, rfl⟩ := List.cons.inj hts
    obtain ⟨hp, hnone⟩ := feed_start p
    obtain ⟨hne, hstop, hout⟩ := shaken_rest h rfl hp (by simpa using hlen)
    refine ⟨by simp, hstop, ?_⟩
    unfold Recovers at hout ⊢
    have hpos : 0 < bs.length := List.length_pos_iff.mpr hne
    rw [List.singleton_append, outputs_cons, hnone, hout, List.length_cons, ← List.cons_append,
      ← List.replicate_succ, List.nil_append]
    congr 2
    omega

/-! ### Sequences of frames -/

/-- A stream of frames, each followed by bytes other than `A0`. -/
inductive Stream : List (List UInt8) → List UInt8 → Prop
  | nil : Stream [] []
  | frame {m bs gap rest : List UInt8} {ms : List (List UInt8)} (hlen : m.length ≤ maxMessage)
      (hm : Shaken (tokens m) bs) (hgap : 0xa0 ∉ gap) (h : Stream ms rest) :
      Stream (m :: ms) (bs ++ gap ++ rest)

theorem gap_fed {p : Parser} (h : p.started = false) {gap : List UInt8} (hgap : 0xa0 ∉ gap) :
    after feed p gap = p ∧ outputs feed p gap = List.replicate gap.length none := by
  refine run_idle feed gap fun b hb => ?_
  have hne : b ≠ 0xa0 := fun he => hgap (he ▸ hb)
  simp [feed, hne, h]

/-- **The messages of a stream are recovered in order**, from any state. -/
theorem outputs_stream {ms : List (List UInt8)} {bs : List UInt8} (h : Stream ms bs) (p : Parser) :
    (outputs feed p bs).filterMap id = ms := by
  induction h generalizing p with
  | nil => rfl
  | frame hlen hm hgap _ ih =>
    obtain ⟨hstop, hout⟩ := outputs_shaken p hlen hm
    obtain ⟨-, hquiet⟩ := gap_fed hstop hgap
    rw [outputs_append, outputs_append, hout, hquiet, List.filterMap_append, List.filterMap_append,
      List.filterMap_append, ih]
    simp

/-! ### Frames that are too long -/

theorem start_not_mem_token (b : UInt8) : 0xa0 ∉ token b := by
  unfold token
  rcases hb : escaped b with _ | e
  · exact fun hmem => (escaped_none hb).1 (List.mem_singleton.mp hmem).symm
  · intro hmem
    rcases List.mem_cons.mp hmem with hbad | hmem
    · exact absurd hbad (by decide)
    · exact (unescaped_escaped hb).2 (List.mem_singleton.mp hmem).symm

theorem token_full {p : Parser} {m : List UInt8} (b : UInt8) (h : Inside p m)
    (hfull : m.length = maxMessage) :
    (after feed p (token b)).started = false ∧
      outputs feed p (token b) = List.replicate (token b).length none := by
  have hpush : ∀ q : Parser, q.msg = p.msg → (q.push b).started = false := by
    intro q hq
    unfold Parser.push
    rw [dif_pos (by rw [hq, h.msg, hfull])]
  unfold token
  rcases hb : escaped b with _ | e
  · obtain ⟨h0, h5, h6, ha⟩ := escaped_none hb
    have hfeed : feed p b = (p.push b, none) := by
      simp [feed, h0, h5, h6, ha, h.started, h.escape]
    simp only [after_cons, after_nil, outputs_cons, outputs_nil, hfeed]
    exact ⟨hpush p rfl, rfl⟩
  · obtain ⟨hue, he0⟩ := unescaped_escaped hb
    have hfeed1 : feed p 0xaa = ({ p with escape := true }, none) := by
      simp [feed, h.started, h.escape]
    have hfeed2 : feed { p with escape := true } e =
        (Parser.push { p with escape := false } b, none) := by
      simp [feed, he0, h.started, hue]
    simp only [after_cons, after_nil, outputs_cons, outputs_nil, hfeed1, hfeed2]
    exact ⟨hpush _ rfl, rfl⟩

theorem tokens_fed : ∀ (front : List UInt8) {p : Parser} {m : List UInt8}, Inside p m →
    (m ++ front).length ≤ maxMessage → Inside (after feed p (front.flatMap token)) (m ++ front) ∧
      outputs feed p (front.flatMap token) = List.replicate (front.flatMap token).length none
  | [], p, m, h, _ => ⟨by rw [List.append_nil]; exact h, rfl⟩
  | b :: front, p, m, h, hlen => by
    have hroom : m.length < maxMessage := by
      simp only [List.length_append, List.length_cons] at hlen
      omega
    obtain ⟨hinside, hquiet⟩ := token_fed (b := b) h hroom
    obtain ⟨hinside', hquiet'⟩ := tokens_fed front hinside (by simpa using hlen)
    rw [List.flatMap_cons, after_append, outputs_append, hquiet, hquiet',
      List.replicate_append_replicate, List.length_append]
    refine ⟨?_, rfl⟩
    simpa using hinside'

/-- **A message that is longer than the buffer is dropped**: its frame gives nothing. -/
theorem outputs_overlong (p : Parser) {message : List UInt8} (hlen : maxMessage < message.length) :
    outputs feed p (frame message) = List.replicate (frame message).length none := by
  obtain ⟨front, b, back, rfl, hfront⟩ : ∃ front b back, message = front ++ b :: back ∧
      front.length = maxMessage := by
    refine ⟨message.take maxMessage, message[maxMessage], message.drop (maxMessage + 1), ?_, ?_⟩
    · rw [← List.drop_eq_getElem_cons, List.take_append_drop]
    · rw [List.length_take, Nat.min_eq_left (Nat.le_of_lt hlen)]
  have hframe : frame (front ++ b :: back) =
      [0xa0] ++ (front.flatMap token ++ (token b ++ (back.flatMap token ++ [0xa5]))) := by
    simp [frame, tokens, List.flatMap_def]
  have hrest : 0xa0 ∉ back.flatMap token ++ [0xa5] := by
    intro hmem
    rcases List.mem_append.mp hmem with hmem | hmem
    · obtain ⟨x, -, hx⟩ := List.mem_flatMap.mp hmem
      exact start_not_mem_token x hx
    · exact absurd (List.mem_singleton.mp hmem) (by decide)
  obtain ⟨hstart, hnone⟩ := feed_start p
  obtain ⟨hinside, hquiet⟩ := tokens_fed front hstart (Nat.le_of_eq hfront)
  rw [List.nil_append] at hinside
  obtain ⟨hstop, hdropped⟩ := token_full b hinside hfront
  obtain ⟨-, hsilent⟩ := gap_fed hstop hrest
  have hfirst : outputs feed p [0xa0] = List.replicate 1 none := by
    rw [outputs_cons, hnone]
    rfl
  rw [hframe, outputs_append, hfirst, outputs_append, outputs_append]
  have hafter : after feed p [0xa0] = (feed p 0xa0).1 := rfl
  rw [hafter, hquiet, hdropped, hsilent]
  simp only [List.replicate_append_replicate, List.length_append, List.length_singleton]

end Ipmitool.Serial.Basic
