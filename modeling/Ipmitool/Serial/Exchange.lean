import Ipmitool.Serial.Build
import Ipmitool.Serial.Terminal

/-! # Serial exchanges

`match` and `unpack` of `intf/serial.zig`, and `waitResponse`, `queued` and `sendrecv` of the two
serial modes, on an open interface. What the line brings after each write is a list of bytes; a wait
for more is a timeout. A write that fails ends the exchange.

The modes differ in the framing, in the size of their buffers and in the number under which a queued
reply is expected (`Transport`).

* `waits_for`: a wait skips the messages that are no answers and takes the first one that is.
* `bridged_answer_iff`: the answer of a target comes back with its completion code and data, but for
  one that is unwrapped once more than it was wrapped. -/

namespace Ipmitool.Serial.Exchange

open Ipmitool.Lib.Bytes Ipmitool.Lib.Mealy Ipmitool.Core.Types Ipmitool.Intf.Registry
open Ipmitool.Lanplus.Build Ipmitool.Serial.Basic Ipmitool.Serial.Terminal Ipmitool.Serial.Build

/-! ### Answers -/

/-- The network function and the LUN of the answer to a request in basic mode, as `match` and
`queued` combine them. -/
def answerNetfn (ctx : Context) : UInt8 := ((ctx.netfn ||| 4) &&& ~~~3) ||| (ctx.seq &&& 3)

/-- The sequence number and the LUN of the answer. -/
def answerSeq (ctx : Context) : UInt8 := (ctx.seq &&& ~~~3) ||| (ctx.netfn &&& 3)

/-- `match`. -/
def «match» (mode : Mode) (payload : List UInt8) (ctx : Context) : Option (List UInt8) :=
  match mode with
  | .basic =>
    if payload.length < 8 ∨ csum (payload.take 3) ≠ 0 ∨ csum (payload.drop 3) ≠ 0 then none
    else if payload.getD 0 0 ≠ ctx.requester ∨ payload.getD 1 0 ≠ answerNetfn ctx ∨
        payload.getD 3 0 ≠ ctx.sa ∨ payload.getD 4 0 ≠ answerSeq ctx ∨
          payload.getD 5 0 ≠ ctx.cmd then none
    else some (payload.drop 6).dropLast
  | .terminal =>
    if payload.length < 4 ∨ payload.getD 0 0 ≠ ctx.netfn ||| 4 ∨
      payload.getD 1 0 &&& ~~~3 ≠ ctx.seq ∨
        payload.getD 2 0 ≠ ctx.cmd then none
    else some (payload.drop 3)

/-- The loop of `unpack`; `unwrapped` is set after the first round. -/
def unpackLoop : ℕ → List UInt8 → Bool → Option (List UInt8)
  | 0, part, _ => if part ≠ [] then some part else none
  | n + 1, part, unwrapped =>
    if 1 < part.length ∧ part.getD 0 0 = 0 then
      -- a tracked Send Message answer has only a completion code
      if part.length < 9 then (if unwrapped then some part else none)
      else unpackLoop n (part.drop 7).dropLast true
    else if part ≠ [] then some part else none

/-- `unpack`. -/
def unpack (payload : List UInt8) (depth : ℕ) : Option (List UInt8) :=
  unpackLoop depth payload false

/-! ### The line -/

/-- The errors that an exchange on a line can meet. -/
inductive Failure where
  | io
  | timeout
  | invalidResponse
  deriving DecidableEq

theorem nextCounter_lt (counter : Fin 64) : (counter.val + 1) % 64 < 64 := Nat.mod_lt _ (by decide)

/-- The sequence counter after `nextSequence`. -/
def nextCounter (counter : Fin 64) : Fin 64 := ⟨(counter.val + 1) % 64, nextCounter_lt counter⟩

theorem firstCounter_lt : 0 < 64 := by decide

/-- The counters begin at zero. -/
def firstCounter : Fin 64 := ⟨0, firstCounter_lt⟩

theorem idle_le : ([] : List UInt8).length ≤ maxMessage := by decide

/-- The parser before the first byte. -/
def idle : Parser := { length_le := idle_le }

/-- A line: the sequence counter and the parser of its mode, what has arrived, and what each of the
next writes will bring (`none` if it fails, and nothing if the list is over). `looks` says how often
each of the next calls of `queued` finds time left. -/
structure Line where
  counter : Fin 64
  parser : Parser := idle
  pending : List UInt8 := []
  answers : List (Option (List UInt8)) := []
  looks : List ℕ := []
  sent : List (List UInt8) := []

/-- What distinguishes the modes. A wait takes the parser and the bytes that will arrive, and leaves
both. -/
structure Transport where
  mode : Mode
  cap : ℕ
  encode : List UInt8 → List UInt8
  wait : Context → Parser → List UInt8 → Except SerialError (List UInt8) × Parser × List UInt8
  /-- `expected_seq` of `queued`. -/
  queuedSeq : Context → UInt8
  /-- Another try after this failure of a wait. -/
  again : SerialError → Bool

/-- `flush` and the next number. -/
def Line.flush (l : Line) : Line := { l with counter := nextCounter l.counter, pending := [] }

/-- `send`: whether it succeeds. -/
def Transport.send (T : Transport) (data : List UInt8) (l : Line) : Bool × Line :=
  let l := { l with sent := l.sent ++ [T.encode data] }
  match l.answers with
  | [] => (true, l)
  | none :: rest => (false, { l with answers := rest })
  | some bytes :: rest => (true, { l with pending := l.pending ++ bytes, answers := rest })

/-- `waitResponse`. -/
def Transport.waitResponse (T : Transport) (ctx : Context) (l : Line) :
    Except SerialError (List UInt8) × Line :=
  let r := T.wait ctx l.parser l.pending
  (r.1, { l with parser := r.2.1, pending := r.2.2 })

/-! ### Basic mode -/

/-- The checks of a packet in `waitResponse` of basic mode, and `match`. -/
def acceptBasic (packet : List UInt8) (ctx : Context) : Option (List UInt8) :=
  if packet.length < 8 then none
  else if csum (packet.take 3) ≠ 0 then none
  else if csum (packet.drop 3) ≠ 0 then none
  else «match» .basic packet ctx

/-- `waitResponse` of basic mode. -/
def waitBasic (ctx : Context) : Parser → List UInt8 →
    Except SerialError (List UInt8) × Parser × List UInt8
  | p, [] => (.error .timeout, p, [])
  | p, b :: rest =>
    match feed p b with
    | (p, none) => waitBasic ctx p rest
    | (p, some packet) =>
      match acceptBasic packet ctx with
      | some matched => (.ok matched, p, rest)
      | none => waitBasic ctx p rest

/-- Basic mode. -/
def basic : Transport where
  mode := .basic
  cap := maxMessage
  encode := frame
  wait := waitBasic
  queuedSeq := answerSeq
  again e := e = .timeout

/-! ### Terminal mode -/

/-- `waitResponse` of terminal mode. Every record takes at least one byte. -/
def waitTerminal (ctx : Context) : ℕ → List UInt8 → Except SerialError (List UInt8) × List UInt8
  | 0, bytes => (.error .timeout, bytes)
  | fuel + 1, bytes =>
    match readPacket [] bytes with
    | (.error e, rest) => (.error e, rest)
    | (.ok packet, rest) =>
      match «match» .terminal packet ctx with
      | some matched => (.ok matched, rest)
      | none => waitTerminal ctx fuel rest

/-- Terminal mode. -/
def terminal : Transport where
  mode := .terminal
  cap := maxRecord
  encode := encode
  wait ctx p bytes :=
    let r := waitTerminal ctx (bytes.length + 1) bytes
    (r.1, p, r.2)
  queuedSeq ctx := ctx.seq &&& ~~~3
  again _ := true

/-- The transport of a mode. -/
def transport : Mode → Transport
  | .basic => basic
  | .terminal => terminal

/-! ### Queued replies -/

/-- A Get Message request. -/
def getMessage (mode : Mode) (seq : UInt8) : List UInt8 :=
  match mode with
  | .basic => [0x20, 0x18, 0xc8, 0x81, seq, 0x33, csum [0x81, seq, 0x33]]
  | .terminal => [0x18, seq, 0x33]

/-- Its context. -/
def getMessageContext (mode : Mode) (seq : UInt8) : Context :=
  match mode with
  | .basic => { sa := 0x20, requester := 0x81, netfn := 0x18, seq, cmd := 0x33 }
  | .terminal => { netfn := 0x18, seq, cmd := 0x33 }

/-- Whether the reply in `payload` is the one that `ctx` waits for. -/
def Transport.Expects (T : Transport) (ctx : Context) (payload : List UInt8) : Prop :=
  payload.getD 2 0 = answerNetfn ctx ∧ payload.getD 4 0 = ctx.sa ∧
    payload.getD 5 0 = T.queuedSeq ctx ∧
    payload.getD 6 0 = ctx.cmd

instance (T : Transport) (ctx : Context) (payload : List UInt8) :
    Decidable (T.Expects ctx payload) := by
  unfold Transport.Expects
  infer_instance

/-- The loop of `queued`, for as often as it finds time left. -/
def Transport.queuedLoop (T : Transport) (ctx : Context) :
    ℕ → Line → Except Failure (Option (List UInt8)) × Line
  | 0, l => (.ok none, l)
  | n + 1, l =>
    let seq := sequenceByte (nextCounter l.counter)
    match T.send (getMessage T.mode seq) l.flush with
    | (false, l) => (.error .io, l)
    | (true, l) =>
      match T.waitResponse (getMessageContext T.mode seq) l with
      | (.error .timeout, l) => (.ok none, l)
      | (.error .invalidResponse, l) => (.error .invalidResponse, l)
      | (.ok payload, l) =>
        if payload.length < 1 then (.error .invalidResponse, l)
        else if payload.getD 0 0 = 0x80 then T.queuedLoop ctx n l
        else if payload.getD 0 0 ≠ 0 then (.ok none, l)
        else if payload.length < 9 then (.error .invalidResponse, l)
        else if ¬ T.Expects ctx payload then T.queuedLoop ctx n l
        else if T.cap < (payload.drop 7).dropLast.length then (.error .invalidResponse, l)
        else (.ok (some (payload.drop 7).dropLast), l)

/-- `queued`. -/
def Transport.queued (T : Transport) (ctx : Context) (l : Line) :
    Except Failure (Option (List UInt8)) × Line :=
  T.queuedLoop ctx (l.looks.headD 0) { l with looks := l.looks.tail }

/-! ### Requests and answers -/

/-- `response`: the completion code and the data. -/
structure Answer where
  ccode : UInt8
  data : List UInt8
  deriving DecidableEq

/-- What a try comes to. -/
inductive Turn where
  | again
  | done (answer : Option Answer)
  | fault (f : Fault)

/-- The end of a try: a message that was bridged twice is unwrapped once more. -/
def finish (depth : ℕ) (part : List UInt8) : Option Answer :=
  let part := if depth = 2 ∧ 1 < part.length ∧ part.getD 0 0 = 0 then unpack part 1 else some part
  match part with
  | none => none
  | some part =>
    if part.length = 0 ∨ bufSize < part.length - 1 then none else some ⟨part.getD 0 0, part.drop 1⟩

/-- A try after its first answer, whose completion code is zero. -/
def Transport.follow (T : Transport) (system : Bool) (built : Built) (part : List UInt8)
    (l : Line) : Turn × Line :=
  if system then
    match T.queued built.second l with
    | (.error _, l) => (.done none, l)
    | (.ok none, l) => (.again, l)
    | (.ok (some part), l) => (.done (finish built.depth part), l)
  else if part.length = 1 then
    match T.waitResponse built.second l with
    | (.error e, l) => (if T.again e then .again else .done none, l)
    | (.ok part, l) => (.done (finish built.depth part), l)
  else
    match unpack part built.depth with
    | none => (.done none, l)
    | some part => (.done (finish built.depth part), l)

/-- One try of `sendrecv`. -/
def Transport.attempt (T : Transport) (intf : Intf) (req : Request) (system : Bool) (l : Line) :
    Turn × Line :=
  match build T.mode intf req (List.replicate T.cap 0) system (nextCounter l.counter) with
  | .error f => (.fault f, l)
  | .ok none => (.done none, l)
  | .ok (some (built, msg)) =>
    match T.send (msg.take built.len) l.flush with
    | (false, l) => (.done none, l)
    | (true, l) =>
      match T.waitResponse built.first l with
      | (.error e, l) => (if T.again e then .again else .done none, l)
      | (.ok part, l) =>
        if built.depth ≠ 0 ∧ part.getD 0 0 = 0 then T.follow system built part l
        else (.done (finish built.depth part), l)

/-- `sendrecv`, with the number of tries. -/
def Transport.sendrecv (T : Transport) (intf : Intf) (req : Request) (system : Bool) :
    ℕ → Line → Except Fault (Option Answer) × Line
  | 0, l => (.ok none, l)
  | tries + 1, l =>
    match T.attempt intf req system l with
    | (.again, l) => T.sendrecv intf req system tries l
    | (.done answer, l) => (.ok answer, l)
    | (.fault f, l) => (.error f, l)

/-! ### Answers on the line -/

/-- The answer to a request, with its completion code and data in `payload`. In basic mode, and
inside every envelope, it is a message of the bus. -/
def answerTo (mode : Mode) (ctx : Context) (payload : List UInt8) : List UInt8 :=
  match mode with
  | .basic => checksummed [ctx.requester, answerNetfn ctx] ([ctx.sa, answerSeq ctx,
    ctx.cmd] ++ payload)
  | .terminal => [ctx.netfn ||| 4, ctx.seq, ctx.cmd] ++ payload

theorem match_answerTo (mode : Mode) {ctx : Context} {payload : List UInt8} (hne : payload ≠ [])
    (hseq : mode = .terminal → ctx.seq &&& ~~~3 = ctx.seq) :
    «match» mode (answerTo mode ctx payload) ctx = some payload := by
  have hpos : 0 < payload.length := List.length_pos_iff.mpr hne
  cases mode with
  | basic =>
    have hheader : (answerTo .basic ctx payload).take 3 =
        [ctx.requester, answerNetfn ctx] ++ [csum [ctx.requester, answerNetfn ctx]] := rfl
    have hbody : (answerTo .basic ctx payload).drop 3 =
        [ctx.sa, answerSeq ctx, ctx.cmd] ++ payload ++
        [csum ([ctx.sa, answerSeq ctx, ctx.cmd] ++ payload)] := rfl
    have hdata : (answerTo .basic ctx payload).drop 6 = payload ++
        [csum ([ctx.sa, answerSeq ctx, ctx.cmd] ++ payload)] := rfl
    have hlong : ¬ ((answerTo .basic ctx payload).length < 8 ∨
        csum ((answerTo .basic ctx payload).take 3) ≠ 0 ∨
        csum ((answerTo .basic ctx payload).drop 3) ≠ 0) := by
      rw [hheader, hbody, csum_csum, csum_csum, answerTo, length_checksummed]
      simp only [List.length_append, List.length_cons, List.length_nil]
      simp only [ne_eq, not_true_eq_false, or_false]
      omega
    rw [«match», if_neg hlong, if_neg (by simp [answerTo, checksummed]), hdata,
      List.dropLast_concat]
  | terminal =>
    have hok : ¬ ((answerTo .terminal ctx payload).length < 4 ∨
        (answerTo .terminal ctx payload).getD 0 0 ≠ ctx.netfn ||| 4 ∨
        (answerTo .terminal ctx payload).getD 1 0 &&& ~~~3 ≠ ctx.seq ∨
        (answerTo .terminal ctx payload).getD 2 0 ≠ ctx.cmd) := by
      simp only [answerTo, List.cons_append, List.nil_append, List.length_cons, List.getD_cons_zero,
        List.getD_cons_succ, hseq rfl, ne_eq, not_true_eq_false, or_false]
      omega
    rw [«match», if_neg hok]
    rfl

/-! ### Waiting -/

theorem acceptBasic_eq (packet : List UInt8) (ctx : Context) :
    acceptBasic packet ctx = «match» .basic packet ctx := by
  unfold acceptBasic
  by_cases h1 : packet.length < 8
  · rw [if_pos h1, «match», if_pos (.inl h1)]
  by_cases h2 : csum (packet.take 3) ≠ 0
  · rw [if_neg h1, if_pos h2, «match», if_pos (.inr (.inl h2))]
  by_cases h3 : csum (packet.drop 3) ≠ 0
  · rw [if_neg h1, if_neg h2, if_pos h3, «match», if_pos (.inr (.inr h3))]
  · rw [if_neg h1, if_neg h2, if_neg h3]

/-- A frame on the line, from any state of the parser. -/
theorem waitBasic_outputs (ctx : Context) {m : List UInt8} (rest : List UInt8) :
    ∀ {bs : List UInt8} (p : Parser), Recovers p bs m → waitBasic ctx p (bs ++ rest) =
      («match» .basic m ctx).elim (waitBasic ctx (after feed p bs) rest)
        fun matched => (.ok matched, after feed p bs, rest)
  | [], p, h => by simp [Recovers] at h
  | [b], p, h => by
    have hout : (feed p b).2 = some m := by simpa [Recovers] using h
    rcases hfeed : feed p b with ⟨q, o⟩
    rw [hfeed] at hout
    obtain rfl : o = some m := hout
    rw [List.singleton_append, waitBasic, hfeed]
    simp only [acceptBasic_eq, after_cons, after_nil, hfeed]
    rcases «match» .basic m ctx with _ | matched
    · rfl
    · rfl
  | b :: c :: bs, p, h => by
    have hsplit : (feed p b).2 :: outputs feed (feed p b).1 (c :: bs) =
        none :: (List.replicate ((c :: bs).length - 1) none ++ [some m]) := h
    obtain ⟨hnone, hrest⟩ := List.cons.inj hsplit
    rcases hfeed : feed p b with ⟨q, o⟩
    rw [hfeed] at hnone hrest
    obtain rfl : o = none := hnone
    rw [List.cons_append, waitBasic, hfeed]
    simp only [after_cons, hfeed]
    exact waitBasic_outputs ctx rest q hrest

/-- A record on the line; the line feed of the record before may still be there. -/
theorem waitTerminal_record (ctx : Context) {m : List UInt8} (hm : m.length ≤ maxRecord)
    {g : List UInt8} (hg : g = [] ∨ g = [lf]) (rest : List UInt8) (fuel : ℕ) :
    waitTerminal ctx (fuel + 1) (g ++ (encode m ++ rest)) =
      («match» .terminal m ctx).elim (waitTerminal ctx fuel (lf :: rest))
        fun matched => (.ok matched, lf :: rest) := by
  have hread : readPacket [] (g ++ (encode m ++ rest)) = (.ok m, lf :: rest) := by
    rcases hg with rfl | rfl
    · exact readPacket_encode m rest hm
    · rw [List.singleton_append, readPacket, if_pos (.inl rfl), if_pos (by simp), if_pos (by simp)]
      exact readPacket_encode m rest hm
  rw [waitTerminal, hread]
  simp only
  rcases «match» .terminal m ctx with _ | matched
  · rfl
  · rfl

/-- What the end of a message leaves on the line. -/
def gap : Mode → List UInt8
  | .basic => []
  | .terminal => [lf]

/-- What other messages are on the line. -/
def stream (mode : Mode) (others : List (List UInt8)) : List UInt8 :=
  others.flatMap (transport mode).encode

/-- The messages are received, and none is the answer that `ctx` waits for. -/
def Others (mode : Mode) (ctx : Context) (others : List (List UInt8)) : Prop :=
  ∀ m ∈ others, m.length ≤ (transport mode).cap ∧ «match» mode m ctx = none

theorem waitBasic_others (ctx : Context) (rest : List UInt8) :
    ∀ {others : List (List UInt8)}, Others .basic ctx others → ∀ p : Parser, ∃ p',
      waitBasic ctx p (stream .basic others ++ rest) = waitBasic ctx p' rest
  | [], _, p => ⟨p, rfl⟩
  | m :: others, h, p => by
    obtain ⟨hlen, hnone⟩ := h m List.mem_cons_self
    have hm : Recovers p (frame m) m := (outputs_shaken p hlen (shaken_flatten (tokens m))).2
    obtain ⟨p', hp'⟩ := waitBasic_others ctx rest (fun x hx => h x (List.mem_cons_of_mem _ hx))
      (after feed p (frame m))
    have hstream : stream .basic (m :: others) = frame m ++ stream .basic others :=
      List.flatMap_cons
    refine ⟨p', ?_⟩
    rw [hstream, List.append_assoc, waitBasic_outputs ctx _ p hm, hnone, Option.elim_none]
    exact hp'

theorem waitTerminal_others (ctx : Context) (rest : List UInt8) (fuel : ℕ) :
    ∀ {others : List (List UInt8)}, Others .terminal ctx others → ∀ {g : List UInt8},
      g = [] ∨ g = [lf] →
      ∃ g', (g' = [] ∨ g' = [lf]) ∧
        waitTerminal ctx (fuel + others.length) (g ++ (stream .terminal others ++ rest)) =
          waitTerminal ctx fuel (g' ++ rest)
  | [], _, g, hg => ⟨g, hg, rfl⟩
  | m :: others, h, g, hg => by
    obtain ⟨hlen, hnone⟩ := h m List.mem_cons_self
    obtain ⟨g', hg', hrest⟩ := waitTerminal_others ctx rest fuel
      (fun x hx => h x (List.mem_cons_of_mem _ hx)) (g := [lf]) (.inr rfl)
    have hstream : stream .terminal (m :: others) = encode m ++ stream .terminal others :=
      List.flatMap_cons
    refine ⟨g', hg', ?_⟩
    rw [hstream, List.append_assoc, List.length_cons, ← Nat.add_assoc,
      waitTerminal_record ctx hlen hg, hnone, Option.elim_none]
    exact hrest

theorem length_le_stream : ∀ others : List (List UInt8),
    others.length ≤ (stream .terminal others).length
  | [] => Nat.le_refl _
  | m :: others => by
    have ih := length_le_stream others
    have hstream : stream .terminal (m :: others) = encode m ++ stream .terminal others :=
      List.flatMap_cons
    rw [hstream, List.length_append, List.length_cons]
    simp only [encode, List.length_append, List.length_cons, List.length_nil]
    omega

/-- **A wait takes the first answer** from the line, whatever else comes before it. -/
theorem waits_for (mode : Mode) {ctx : Context} {others : List (List UInt8)}
    (ho : Others mode ctx others) {m payload : List UInt8} (hlen : m.length ≤ (transport mode).cap)
    (hm : «match» mode m ctx = some payload) (p : Parser) {g : List UInt8}
    (hg : g = [] ∨ g = gap mode) (rest : List UInt8) : ∃ p', (transport mode).wait ctx p
      (g ++ (stream mode others ++ ((transport mode).encode m ++ rest))) =
        (.ok payload, p', gap mode ++ rest) := by
  cases mode with
  | basic =>
    obtain rfl : g = [] := hg.elim id id
    obtain ⟨p', hothers⟩ := waitBasic_others ctx (frame m ++ rest) ho p
    refine ⟨after feed p' (frame m), ?_⟩
    have hframe :=
      waitBasic_outputs ctx rest p' (outputs_shaken p' hlen (shaken_flatten (tokens m))).2
    rw [hm, Option.elim_some] at hframe
    exact hothers.trans hframe
  | terminal =>
    have hfuel := length_le_stream others
    obtain ⟨fuel, hfuel⟩ : ∃ fuel,
        (g ++ (stream .terminal others ++ (encode m ++ rest))).length + 1 =
          fuel + 1 + others.length := by
      refine ⟨(g ++ (stream .terminal others ++ (encode m ++ rest))).length - others.length, ?_⟩
      simp only [List.length_append]
      omega
    obtain ⟨g', hg', hothers⟩ := waitTerminal_others ctx (encode m ++ rest) (fuel + 1) ho hg
    have hrecord := waitTerminal_record ctx hlen hg' rest fuel
    rw [hm, Option.elim_some] at hrecord
    have hwait : waitTerminal ctx ((g ++ (stream .terminal others ++ (encode m ++ rest))).length +
        1)
        (g ++ (stream .terminal others ++ (encode m ++ rest))) = (.ok payload, lf :: rest) := by
      rw [hfuel, hothers, hrecord]
    exact ⟨p, congrArg (fun r => (r.1, p, r.2)) hwait⟩

/-! ### Bridged answers -/

/-- How the answer of a target is delivered: inside the answers to the Send Message requests, or in
a frame of its own behind an answer that only has a completion code. -/
inductive Way where
  | embedded
  | separate
  deriving DecidableEq

/-- What a message that is bridged twice is recognised by at its target. -/
def targetContext (intf : Intf) (req : Request) (seq : UInt8) : Context :=
  ⟨req.netfnLun, seq, req.cmd, intf.targetAddr.toUInt8, intf.myAddr.toUInt8⟩

/-- The answer of the target, in the answer of the transit controller if there is one. -/
def addressed (intf : Intf) (req : Request) (seq : UInt8) (depth : ℕ) (answer : List UInt8) :
    List UInt8 :=
  if depth = 2 then 0 :: answerTo .basic (targetContext intf req seq) answer else answer

/-- The answers that deliver `answer`, each with what it is recognised by. -/
def replies (mode : Mode) (intf : Intf) (req : Request) (seq : UInt8) (way : Way)
    (answer : List UInt8) : List (Context × List UInt8) :=
  let depth := getBridgingLevel intf
  let ctx := contexts mode intf req false depth seq
  match way with
  | .embedded => [(ctx.1, 0 :: answerTo .basic ctx.2 (addressed intf req seq depth answer))]
  | .separate => [(ctx.1, [0]), (ctx.2, addressed intf req seq depth answer)]

/-- The line brings these answers one after the other, each as long as a message may be, with others
before each. -/
def Brings (mode : Mode) : List (Context × List UInt8) → List UInt8 → Prop
  | [], _ => True
  | r :: more, bytes => ∃ others rest, Others mode r.1 others ∧
      (answerTo mode r.1 r.2).length ≤ (transport mode).cap ∧
      bytes = stream mode others ++ ((transport mode).encode (answerTo mode r.1 r.2) ++ rest) ∧
      Brings mode more rest

/-- In one of the tries the request is written and `answer` is delivered; the tries before ask for
another. -/
inductive Delivered (mode : Mode) (intf : Intf) (req : Request) (way : Way) (answer : List UInt8) :
    ℕ → Line → Prop
  | now {tries : ℕ} {l : Line} {bytes : List UInt8} {more : List (Option (List UInt8))}
      (hfit : messageLength mode (getBridgingLevel intf) req ≤ (transport mode).cap)
      (hline : l.answers = some bytes :: more)
      (hb : Brings mode (replies mode intf req
        (sequenceByte (nextCounter l.counter)) way answer) bytes) :
      Delivered mode intf req way answer (tries + 1) l
  | later {tries : ℕ} {l l' : Line} (h : (transport mode).attempt intf req false l = (.again, l'))
      (h' : Delivered mode intf req way answer tries l') :
      Delivered mode intf req way answer (tries + 1) l

theorem sequenceByte_high (counter : Fin 64) :
    sequenceByte counter &&& ~~~3 = sequenceByte counter := by
  revert counter
  decide

theorem drop_answerTo (ctx : Context) (payload : List UInt8) :
    ((answerTo .basic ctx payload).drop 6).dropLast = payload := by
  have hdata : (answerTo .basic ctx payload).drop 6 = payload ++
      [csum ([ctx.sa, answerSeq ctx, ctx.cmd] ++ payload)] := rfl
  rw [hdata, List.dropLast_concat]

theorem length_answerTo (ctx : Context) (payload : List UInt8) :
    (answerTo .basic ctx payload).length = payload.length + 7 := by
  simp only [answerTo, length_checksummed, List.length_append, List.length_cons, List.length_nil]
  omega

/-- One round of `unpack` takes one envelope off. -/
theorem unpackLoop_answerTo (n : ℕ) (ctx : Context) {payload : List UInt8} (hne : payload ≠ [])
    (unwrapped : Bool) :
    unpackLoop (n + 1) (0 :: answerTo .basic ctx payload) unwrapped =
      unpackLoop n payload true := by
  have hpos : 0 < payload.length := List.length_pos_iff.mpr hne
  have hlen := length_answerTo ctx payload
  have hlong : 1 < (0 :: answerTo .basic ctx payload).length ∧
      (0 :: answerTo .basic ctx payload).getD 0 0 = 0 := by
    refine ⟨?_, rfl⟩
    rw [List.length_cons]
    omega
  have hroom : ¬ (0 :: answerTo .basic ctx payload).length < 9 := by
    rw [List.length_cons]
    omega
  rw [unpackLoop, if_pos hlong, if_neg hroom, List.drop_succ_cons, drop_answerTo]

/-- The last step leaves an answer alone unless it looks like one more envelope. -/
theorem finish_plain (depth : ℕ) {cc : UInt8} {data : List UInt8} (hlen : data.length ≤ bufSize)
    (h : ¬ (depth = 2 ∧ cc = 0 ∧ data ≠ [])) : finish depth (cc :: data) = some ⟨cc, data⟩ := by
  have hkeep : ¬ (depth = 2 ∧ 1 < (cc :: data).length ∧ (cc :: data).getD 0 0 = 0) := by
    rintro ⟨hdepth, hlong, hcc⟩
    refine h ⟨hdepth, hcc, ?_⟩
    rintro rfl
    simp at hlong
  have hroom : ¬ ((cc :: data).length = 0 ∨ bufSize < (cc :: data).length - 1) := by
    rw [List.length_cons]
    omega
  simp only [finish, if_neg hkeep, if_neg hroom]
  rfl

theorem unpack_shorter {data part : List UInt8} (hne : data ≠ [])
    (h : unpack (0 :: data) 1 = some part) : part.length < data.length := by
  have hpos : 0 < data.length := List.length_pos_iff.mpr hne
  have hlong : 1 < (0 :: data).length ∧ (0 :: data).getD 0 (0 : UInt8) = 0 := by
    refine ⟨?_, rfl⟩
    rw [List.length_cons]
    omega
  rw [unpack, unpackLoop, if_pos hlong] at h
  by_cases hshort : (0 :: data).length < 9
  · rw [if_pos hshort, if_neg Bool.false_ne_true] at h
    simp at h
  · rw [if_neg hshort, unpackLoop] at h
    split_ifs at h with hpart
    obtain rfl := Option.some.inj h
    simp only [List.length_dropLast, List.length_drop, List.length_cons]
    omega

/-- An answer that looks like one more envelope is refused or loses bytes. -/
theorem finish_envelope {data : List UInt8} (hne : data ≠ []) :
    finish 2 (0 :: data) ≠ some ⟨0, data⟩ := by
  have hpos : 0 < data.length := List.length_pos_iff.mpr hne
  have hstrip : 2 = 2 ∧ 1 < (0 :: data).length ∧ (0 :: data).getD 0 (0 : UInt8) = 0 := by
    refine ⟨rfl, ?_, rfl⟩
    rw [List.length_cons]
    omega
  intro h
  unfold finish at h
  rw [if_pos hstrip] at h
  rcases hpart : unpack (0 :: data) 1 with _ | part
  · rw [hpart] at h
    simp at h
  · have hshorter := unpack_shorter hne hpart
    rw [hpart] at h
    simp only at h
    split_ifs at h with hbad
    have hdata := congrArg List.length (Answer.mk.inj (Option.some.inj h)).2
    rw [List.length_drop] at hdata
    omega

theorem transport_mode (mode : Mode) : (transport mode).mode = mode := by
  cases mode <;> rfl

theorem length_cap (mode : Mode) : (transport mode).cap ≤ bufSize := by
  cases mode <;> decide

theorem send_answered (T : Transport) {l : Line} {bytes : List UInt8}
    {more : List (Option (List UInt8))}
    (h : l.answers = some bytes :: more) (data : List UInt8) :
    T.send data l.flush = (true, { l with
      counter := nextCounter l.counter, pending := bytes, answers := more, sent :=
  l.sent ++ [T.encode data] }) := by
  simp only [Transport.send, Line.flush, h, List.nil_append]

/-- What `build` says about a bridged request. -/
def builtOf (mode : Mode) (intf : Intf) (req : Request) (seq : UInt8) : Built :=
  let ctx := contexts mode intf req false (getBridgingLevel intf) seq
  ⟨messageLength mode (getBridgingLevel intf) req, getBridgingLevel intf, ctx.1, ctx.2⟩

theorem attempt_answered (mode : Mode) (intf : Intf) (req : Request) {l : Line} {bytes : List UInt8}
    {more : List (Option (List UInt8))}
    (hfit : messageLength mode (getBridgingLevel intf) req ≤ (transport mode).cap)
    (hline : l.answers = some bytes :: more) {part rest : List UInt8} {p : Parser}
    (hwait : (transport mode).wait (builtOf mode intf req
      (sequenceByte (nextCounter l.counter))).first l.parser
      bytes = (.ok part, p, rest)) (hbridged : getBridgingLevel intf ≠ 0) (hpart :
      part.getD 0 0 = 0) :
    ∃ l', l'.parser = p ∧ l'.pending = rest ∧ (transport mode).attempt intf req false l =
      (transport mode).follow false (builtOf mode intf req (sequenceByte (nextCounter l.counter)))
        part l' := by
  have hroom : messageLength mode (getBridgingLevel intf) req ≤
      (List.replicate (transport mode).cap (0 : UInt8)).length := by
        rw [List.length_replicate]; exact hfit
  have hbuild := build_eq mode intf req false (nextCounter l.counter) hroom
  unfold Transport.attempt
  rw [transport_mode, hbuild]
  simp only [send_answered _ hline, Transport.waitResponse]
  have hwait' : (transport mode).wait (contexts mode intf req false (getBridgingLevel intf)
      (sequenceByte (nextCounter l.counter))).1 l.parser bytes = (.ok part, p, rest) := hwait
  rw [hwait']
  simp only
  rw [if_pos ⟨hbridged, hpart⟩]
  exact ⟨_, rfl, rfl, rfl⟩

theorem contexts_seq (mode : Mode) (intf : Intf) (req : Request) {depth : ℕ} (h : depth ≠ 0)
    (counter : Fin 64) :
    (contexts mode intf req false depth (sequenceByte counter)).1.seq &&& ~~~3 =
        (contexts mode intf req false depth (sequenceByte counter)).1.seq ∧
      (contexts mode intf req false depth (sequenceByte counter)).2.seq &&& ~~~3 =
        (contexts mode intf req false depth (sequenceByte counter)).2.seq := by
  have hfirst : (contexts mode intf req false depth (sequenceByte counter)).1.seq =
      sequenceByte counter := by
    cases mode <;> rfl
  have hsecond : (contexts mode intf req false depth (sequenceByte counter)).2.seq =
      sequenceByte counter := by
    simp only [contexts, if_neg h, secondContext, innerSeq]
    split <;> rfl
  rw [hfirst, hsecond]
  exact ⟨sequenceByte_high counter, sequenceByte_high counter⟩

theorem unpack_addressed (intf : Intf) (req : Request) (seq : UInt8) (ctx : Context) {depth : ℕ}
    (h : depth = 1 ∨ depth = 2) {answer : List UInt8} (hne : answer ≠ []) :
    unpack (0 :: answerTo .basic ctx (addressed intf req seq depth answer)) depth =
      some answer := by
  rcases h with rfl | rfl
  · rw [unpack, addressed, if_neg (by decide), unpackLoop_answerTo 0 ctx hne,
      unpackLoop, if_pos hne]
  · rw [unpack, addressed, if_pos rfl, unpackLoop_answerTo 1 ctx (List.cons_ne_nil _ _),
      unpackLoop_answerTo 0 _ hne, unpackLoop, if_pos hne]

theorem finish_addressed (intf : Intf) (req : Request) (seq : UInt8) {depth : ℕ}
    (h : depth = 1 ∨ depth = 2) {cc : UInt8} {data : List UInt8} (hlen : data.length ≤ bufSize) :
    finish depth (addressed intf req seq depth (cc :: data)) = some ⟨cc, data⟩ := by
  rcases h with rfl | rfl
  · rw [addressed, if_neg (by decide)]
    exact finish_plain 1 hlen fun h => absurd h.1 (by decide)
  · have hunpack := unpack_addressed intf req seq (targetContext intf req seq) (.inl (rfl : 1 = 1))
      (List.cons_ne_nil cc data)
    rw [addressed, if_neg (by decide)] at hunpack
    have hlong := length_answerTo (targetContext intf req seq) (cc :: data)
    have hstrip : 2 = 2 ∧
        1 < (0 :: answerTo .basic (targetContext intf req seq) (cc :: data)).length ∧
        (0 :: answerTo .basic (targetContext intf req seq) (cc :: data)).getD 0 0 = 0 := by
      refine ⟨rfl, ?_, rfl⟩
      rw [List.length_cons]
      omega
    have hroom : ¬ ((cc :: data).length = 0 ∨ bufSize < (cc :: data).length - 1) := by
      rw [List.length_cons]
      omega
    rw [addressed, if_pos rfl]
    unfold finish
    rw [if_pos hstrip, hunpack]
    simp only [if_neg hroom]
    rfl

theorem length_le_answerTo (mode : Mode) (ctx : Context) (payload : List UInt8) :
    payload.length ≤ (answerTo mode ctx payload).length := by
  cases mode with
  | basic =>
    rw [length_answerTo]
    omega
  | terminal =>
    simp only [answerTo, List.length_append, List.length_cons, List.length_nil]
    omega

theorem length_le_addressed (intf : Intf) (req : Request) (seq : UInt8) (depth : ℕ)
    (answer : List UInt8) :
    answer.length ≤ (addressed intf req seq depth answer).length := by
  unfold addressed
  split_ifs with h
  · rw [List.length_cons, length_answerTo]
    omega
  · exact Nat.le_refl _

/-- What the try comes to in which the answer is delivered. -/
def received (depth : ℕ) (way : Way) (cc : UInt8) (data : List UInt8) : Option Answer :=
  match way with
  | .embedded => finish depth (cc :: data)
  | .separate => some ⟨cc, data⟩

theorem received_iff {depth : ℕ} (way : Way) {cc : UInt8} {data : List UInt8}
    (hlen : data.length ≤ bufSize) :
    received depth way cc data = some ⟨cc, data⟩ ↔
      ¬ (depth = 2 ∧ way = .embedded ∧ cc = 0 ∧ data ≠ []) := by
  cases way with
  | separate => simp [received]
  | embedded =>
    constructor
    · rintro h ⟨rfl, -, rfl, hne⟩
      exact finish_envelope hne h
    · intro h
      exact finish_plain depth hlen fun hbad => h ⟨hbad.1, rfl, hbad.2⟩

theorem attempt_delivered (mode : Mode) (intf : Intf) (req : Request) {way : Way} {cc : UInt8}
    {data : List UInt8} {l : Line} {bytes : List UInt8} {more : List (Option (List UInt8))}
    (hfit : messageLength mode (getBridgingLevel intf) req ≤ (transport mode).cap)
    (hline : l.answers = some bytes :: more) (hbridged : getBridgingLevel intf ≠ 0)
    (hb : Brings mode (replies mode intf req (sequenceByte (nextCounter l.counter)) way
      (cc :: data)) bytes) :
    data.length ≤ bufSize ∧ ∃ l', (transport mode).attempt intf req false l =
      (.done (received (getBridgingLevel intf) way cc data), l') := by
  have hle := getBridgingLevel_le intf
  have hcap := length_cap mode
  have hdepth : getBridgingLevel intf = 1 ∨ getBridgingLevel intf = 2 := by omega
  obtain ⟨hseq1, hseq2⟩ := contexts_seq mode intf req hbridged (nextCounter l.counter)
  have hanswer := length_le_addressed intf req (sequenceByte (nextCounter l.counter))
    (getBridgingLevel intf) (cc :: data)
  rw [List.length_cons] at hanswer
  cases way with
  | embedded =>
    obtain ⟨others, rest, ho, hlen, rfl, -⟩ := hb
    obtain ⟨p, hwait⟩ :=
      waits_for mode ho hlen (match_answerTo mode (List.cons_ne_nil _ _) fun _ => hseq1)
        l.parser (.inl rfl) rest
    obtain ⟨l', -, -, hattempt⟩ := attempt_answered mode intf req hfit hline hwait hbridged rfl
    have hinner := length_answerTo (contexts mode intf req false (getBridgingLevel intf)
      (sequenceByte (nextCounter l.counter))).2 (addressed intf req
        (sequenceByte (nextCounter l.counter))
        (getBridgingLevel intf) (cc :: data))
    have houter := length_le_answerTo mode (contexts mode intf req false (getBridgingLevel intf)
      (sequenceByte (nextCounter l.counter))).1 (0 :: answerTo .basic (contexts mode intf req false
        (getBridgingLevel intf) (sequenceByte (nextCounter l.counter))).2 (addressed intf req
          (sequenceByte (nextCounter l.counter)) (getBridgingLevel intf) (cc :: data)))
    have hdata : data.length ≤ bufSize := by
      have hsize := Nat.le_trans houter hlen
      rw [List.length_cons] at hsize
      omega
    refine ⟨hdata, l', ?_⟩
    have hlong : ¬ (0 :: answerTo .basic (contexts mode intf req false (getBridgingLevel intf)
        (sequenceByte (nextCounter l.counter))).2 (addressed intf req
          (sequenceByte (nextCounter l.counter))
          (getBridgingLevel intf) (cc :: data))).length = 1 := by
      rw [List.length_cons]
      omega
    rw [hattempt, Transport.follow, if_neg Bool.false_ne_true, if_neg hlong]
    have hunpack := unpack_addressed intf req (sequenceByte (nextCounter l.counter))
      (contexts mode intf req false (getBridgingLevel intf)
        (sequenceByte (nextCounter l.counter))).2 hdepth
      (List.cons_ne_nil cc data)
    simp only [builtOf, hunpack]
    rfl
  | separate =>
    obtain ⟨others, rest, ho, hlen, rfl, others2, rest2, ho2, hlen2, rfl, -⟩ := hb
    obtain ⟨p, hwait⟩ :=
      waits_for mode ho hlen (match_answerTo mode (List.cons_ne_nil _ _) fun _ => hseq1)
        l.parser (.inl rfl) _
    obtain ⟨l', hp, hpending, hattempt⟩ :=
      attempt_answered mode intf req hfit hline hwait hbridged rfl
    have hne : addressed intf req (sequenceByte (nextCounter l.counter)) (getBridgingLevel intf)
        (cc :: data) ≠ [] := by
      intro h
      rw [h, List.length_nil] at hanswer
      omega
    obtain ⟨p2, hwait2⟩ := waits_for mode ho2 hlen2 (match_answerTo mode hne fun _ => hseq2) p
      (.inr rfl) rest2
    have houter := length_le_answerTo mode (contexts mode intf req false (getBridgingLevel intf)
      (sequenceByte (nextCounter l.counter))).2 (addressed intf req
        (sequenceByte (nextCounter l.counter))
        (getBridgingLevel intf) (cc :: data))
    have hdata : data.length ≤ bufSize := by
      have hsize := Nat.le_trans houter hlen2
      omega
    refine ⟨hdata, ?_⟩
    rw [hattempt, Transport.follow, if_neg Bool.false_ne_true,
      if_pos (show [(0 : UInt8)].length = 1 from rfl)]
    have hwait2' :
        (transport mode).wait (builtOf mode intf req (sequenceByte (nextCounter l.counter))).second
        l'.parser l'.pending = (.ok (addressed intf req (sequenceByte (nextCounter l.counter))
          (getBridgingLevel intf) (cc :: data)), p2, gap mode ++ rest2) := by
      rw [hp, hpending]
      exact hwait2
    simp only [Transport.waitResponse, hwait2']
    refine ⟨_, Prod.ext ?_ rfl⟩
    exact congrArg Turn.done (finish_addressed intf req _ hdepth hdata)

theorem sendrecv_delivered (mode : Mode) {intf : Intf} {req : Request} {way : Way} {cc : UInt8}
    {data : List UInt8} (hbridged : getBridgingLevel intf ≠ 0) {tries : ℕ} {l : Line}
    (h : Delivered mode intf req way (cc :: data) tries l) :
    data.length ≤ bufSize ∧ ((transport mode).sendrecv intf req false tries l).1 =
      .ok (received (getBridgingLevel intf) way cc data) := by
  induction h with
  | now hfit hline hb =>
    obtain ⟨hdata, l', hattempt⟩ := attempt_delivered mode intf req hfit hline hbridged hb
    refine ⟨hdata, ?_⟩
    rw [Transport.sendrecv, hattempt]
  | later hagain _ ih =>
    refine ⟨ih.1, ?_⟩
    rw [Transport.sendrecv, hagain]
    exact ih.2

/-- **The answer of a target is returned** unless the request was bridged twice and the answer,
inside both Send Message answers, reports success with data: the last step takes it for one more
envelope. -/
theorem bridged_answer_iff (mode : Mode) {intf : Intf} {req : Request} (way : Way) (cc : UInt8)
    (data : List UInt8) (hbridged : getBridgingLevel intf ≠ 0) {tries : ℕ} {l : Line}
    (h : Delivered mode intf req way (cc :: data) tries l) :
    ((transport mode).sendrecv intf req false tries l).1 = .ok (some ⟨cc, data⟩) ↔
      ¬ (getBridgingLevel intf = 2 ∧ way = .embedded ∧ cc = 0 ∧ data ≠ []) := by
  obtain ⟨hlen, hresult⟩ := sendrecv_delivered mode hbridged h
  rw [hresult, ← received_iff way hlen]
  constructor
  · intro heq
    exact Except.ok.inj heq
  · intro heq
    rw [heq]

/-- A target behind a transit controller, and a request to it. -/
def twice : Intf := { myAddr := 0x20, targetAddr := 0x72, transitAddr := 0x82, targetChannel := 7 }

def getDeviceId : Request :=
  { netfn := netfnApp, lun := bmcLun, cmd := 1, data := [], data_lt := no_data_lt }

/-- A line that brings the answers and nothing else. -/
def answering (mode : Mode) (way : Way) (answer : List UInt8) : Line where
  counter := firstCounter
  answers :=
    [some ((replies mode twice getDeviceId
      (sequenceByte (nextCounter firstCounter)) way answer).flatMap fun r =>
    (transport mode).encode (answerTo mode r.1 r.2))]

theorem embedded_delivered (cc b : UInt8) :
    Delivered .basic twice getDeviceId .embedded [cc,
      b] 1 (answering .basic .embedded [cc, b]) := by
  refine .now (by decide) rfl ⟨[], [], fun m hm => absurd hm List.not_mem_nil, ?_, rfl, trivial⟩
  exact Nat.le_of_ble_eq_true rfl

/-- A target behind a transit controller reports an error, and then a status byte. -/
theorem bridged_answer_iff_error :
    ((transport .basic).sendrecv twice getDeviceId false 1
      (answering .basic .embedded [0xc3, 0x51])).1 =
      .ok (some ⟨0xc3, [0x51]⟩) :=
  (bridged_answer_iff .basic .embedded 0xc3 [0x51] (by decide) (embedded_delivered 0xc3 0x51)).mpr
    (by decide)

/-- One byte of data from a target behind a transit controller is not returned. -/
theorem bridged_answer_lost : ¬ ∀ (mode : Mode) (intf : Intf) (req : Request) (way : Way)
    (cc : UInt8) (data : List UInt8) (tries : ℕ) (l : Line), getBridgingLevel intf ≠ 0 →
      Delivered mode intf req way (cc :: data) tries l →
        ((transport mode).sendrecv intf req false tries l).1 = .ok (some ⟨cc, data⟩) := by
  intro h
  have hreturned :=
    h .basic twice getDeviceId .embedded 0 [0x51] 1 _ (by decide) (embedded_delivered 0 0x51)
  have hresult := (sendrecv_delivered .basic (by decide) (embedded_delivered 0 0x51)).2
  rw [hreturned] at hresult
  exact finish_envelope (List.cons_ne_nil 0x51 []) (Except.ok.inj hresult).symm

end Ipmitool.Serial.Exchange
