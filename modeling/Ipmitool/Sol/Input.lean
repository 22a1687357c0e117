import Ipmitool.Core.Types
import Ipmitool.Lib.Dialogue
import Ipmitool.Lib.Mealy

/-! # Serial over LAN: keys

`processUserInput` of `cmd/sol.zig` scans what was read from the terminal. Escape sequences are
recognised behind a newline; a sequence may be cut by the end of a read, so its state is kept for
the next one. The other characters are collected and sent, cut into packets, when the read has been
scanned; a break is sent as soon as it is seen.

`EscapeState.step` is the machine that says what each key stands for, and `typed` what a text of
keys does. `processUserInput_ok` compares a read with it: the breaks of the read, and then its
characters. -/

namespace Ipmitool.Sol.Input

open Ipmitool.Lib.Machine Ipmitool.Lib.Dialogue Ipmitool.Lib.Mealy Ipmitool.Core.Types

/-! ### What a key stands for -/

/-- What a key makes of the stream to the BMC; `quit` ends the session. -/
inductive Symbol where
  | char (c : UInt8)
  | brk
  | quit
  deriving DecidableEq

/-- `EscapeState`. -/
structure EscapeState where
  pending : Bool := false
  lastCr : Bool := true
  deriving DecidableEq

def newline (ch : UInt8) : Bool := ch = 13 ∨ ch = 10

/-- The keys of the escape sequences. -/
def quitKey : UInt8 := 46
def suspendKey : UInt8 := 26
def leaveKey : UInt8 := 24
def breakKey : UInt8 := 66
def helpKey : UInt8 := 63

/-- The keys that mean something behind the escape character. -/
def commands : List UInt8 := [quitKey, suspendKey, leaveKey, breakKey, helpKey]

/-- What the key `ch` does if the escape character is `e`. An escape sequence that is not known
stands for itself, and the escape character typed twice for itself once. -/
def EscapeState.step (e : UInt8) (s : EscapeState) (ch : UInt8) : EscapeState × List Symbol :=
  if s.pending then
    if ch = quitKey then (⟨false, newline ch⟩, [.quit])
    else if ch = breakKey then (⟨false, s.lastCr⟩, [.brk])
    else if ch ∈ commands then (⟨false, s.lastCr⟩, [])
    else (⟨false, newline ch⟩, if ch = e then [.char e] else [.char e, .char ch])
  else if s.lastCr ∧ ch = e then (⟨true, s.lastCr⟩, [])
  else (⟨false, newline ch⟩, [.char ch])

/-- What a text of keys does. -/
def typed (e : UInt8) (s : EscapeState) (keys : List UInt8) : List Symbol :=
  (outputs (EscapeState.step e) s keys).flatten

/-- The character of a symbol. -/
def Symbol.char? : Symbol → Option UInt8
  | .char c => some c
  | _ => none

/-- The characters. -/
def chars (l : List Symbol) : List UInt8 := l.filterMap Symbol.char?

/-- The breaks. -/
def breaks (l : List Symbol) : List Symbol := l.filter fun x => x = .brk

/-- What goes over the wire: the characters and the breaks. -/
def wire (l : List Symbol) : List Symbol := l.filter fun x => x ≠ .quit

/-! ### The terminal and the transport -/

/-- `InteractiveText`, as far as keys write it; each speaks of the escape character. -/
inductive InteractiveText where
  | help (e : UInt8)
  | terminated (e : UInt8)
  | suspended (e : UInt8)
  | breakSent (e : UInt8)

/-- `StdoutError`. -/
inductive StdoutError where
  | cStdoutFlushFailed
  | stdoutWriteFailed
  | stdoutFlushFailed

/-- `SolPacket` of a payload, as far as it is filled in: the characters up to `character_count`. -/
structure SolPacket where
  data : List UInt8 := []
  generateBreak : Bool := false

/-- What is asked of the terminal and the transport. -/
inductive Act where
  | text (t : InteractiveText)
  | suspendSelf (restoreTty : Bool)
  | sendSol (p : SolPacket)
  | output (r : Response)

/-- What comes back: the error of a text, the response to a packet. -/
structure Answer where
  error : Option StdoutError := none
  response : Option Response := none

/-- The interface: the parameters of the session, and the `max_outbound_payload_size` of the session
itself, if there is one. -/
structure SolIntf where
  solEscapeChar : UInt8
  retry : ℤ
  session : Option ℕ

abbrev Console (β : Type) := Prog Fault (World EscapeState β Act Answer)

section
variable {β : Type} (D : Device β Act Answer)

/-- `emitInteractiveText`, and what follows if the text was written. -/
def emit {α : Type} (t : InteractiveText) (next : Console β (Except StdoutError α)) :
    Console β (Except StdoutError α) := do
  match (← ask D (.text t)).error with
  | some err => return .error err
  | none => next

/-- `sendBreak`. -/
def sendBreak : Console β Unit := do
  let _ ← ask D (.sendSol { generateBreak := true })

/-! ### Collecting -/

/-- The variables of the loop: `data[0..length]` and `result`. -/
structure Collected where
  data : List UInt8 := []
  result : ℤ := 0

/-- `data[length] = x`, `length += 1`; the buffer has one byte more than a read. -/
def put (b : Collected) (x : UInt8) : Console β Collected :=
  if b.data.length < bufSize + 1 then return { b with data := b.data ++
    [x] } else throw .outOfBounds

def setEscape (s : EscapeState) : Console β Unit := modify fun w => { w with vars := s }

/-- The body of the loop. -/
def key (e : UInt8) (b : Collected) (ch : UInt8) : Console β (Except StdoutError Collected) := do
  let s := (← get).vars
  if s.pending then
    setEscape ⟨false, s.lastCr⟩
    if ch = quitKey then
      emit D (.terminated e) do
        setEscape ⟨false, newline ch⟩
        return .ok { b with result := 1 }
    else if ch = suspendKey then
      emit D (.suspended e) do
        let _ ← ask D (.suspendSelf true)
        return .ok b
    else if ch = leaveKey then
      emit D (.suspended e) do
        let _ ← ask D (.suspendSelf false)
        return .ok b
    else if ch = breakKey then
      emit D (.breakSent e) do
        sendBreak D
        return .ok b
    else if ch = helpKey then
      emit D (.help e) do
        return .ok b
    else
      let b ← if ch ≠ e then put b e else pure b
      let b ← put b ch
      setEscape ⟨false, newline ch⟩
      return .ok b
  else if s.lastCr ∧ ch = e then
    setEscape ⟨true, s.lastCr⟩
    return .ok b
  else
    let b ← put b ch
    setEscape ⟨false, newline ch⟩
    return .ok b

/-- The loop over the keys. -/
def scan (e : UInt8) : List UInt8 → Collected → Console β (Except StdoutError Collected)
  | [], b => return .ok b
  | ch :: input, b => do
    match ← key D e b ch with
    | .error err => return .error err
    | .ok b => scan e input b

/-! ### Sending -/

/-- The characters a packet takes. -/
def limit (intf : SolIntf) : ℕ :=
  match intf.session with
  | some maxSize => if 4 < maxSize then min (maxSize - 4) bufSize else bufSize
  | none => bufSize

theorem limit_pos (intf : SolIntf) : 0 < limit intf := by
  have hsize : 0 < bufSize := Nat.zero_lt_succ _
  unfold limit
  rcases intf.session with _ | maxSize
  · exact hsize
  · dsimp only
    split_ifs with h
    · omega
    · exact hsize

/-- The tries for one packet, as many as are left. -/
def sendRetry (p : SolPacket) : ℕ → Console β (Option Response)
  | 0 => return none
  | n + 1 => do
    match (← ask D (.sendSol p)).response with
    | some r => return some r
    | none => sendRetry p n

/-- The response is a packet of the BMC with a number. -/
def hasOutput (r : Response) : Bool :=
  r.session.authtype = authtypeRmcpPlus ∧ r.session.payloadtype = ptSol ∧ r.solSeq ≠ 0

/-- The packets for the characters that are left. -/
def sendLoop (intf : SolIntf) (result : ℤ) (rest : List UInt8) : Console β ℤ :=
  if _ : rest = [] then return result
  else do
    let count := min rest.length (limit intf)
    match ← sendRetry D { data := rest.take count } intf.retry.toNat with
    | none => return -1
    | some r =>
      if result = 0 ∧ hasOutput r then
        let _ ← ask D (.output r)
      sendLoop intf result (rest.drop count)
termination_by rest.length
decreasing_by
  have hlimit := limit_pos intf
  have hpos := List.length_pos_of_ne_nil ‹_›
  rw [List.length_drop]
  omega

/-- `processUserInput`. -/
def processUserInput (intf : SolIntf) (input : List UInt8) : Console β (Except StdoutError ℤ) := do
  match ← scan D intf.solEscapeChar input {} with
  | .error err => return .error err
  | .ok b =>
    if b.data = [] then return .ok b.result
    else return .ok (← sendLoop D intf b.result b.data)

/-- The reads of `sessionLoop`, one behind the other, until one of them ends the session; what is
left is not processed. -/
def typeKeys (intf : SolIntf) :
    List (List UInt8) → Console β (Except StdoutError ℤ × List (List UInt8))
  | [] => return (.ok 0, [])
  | input :: reads => do
    match ← processUserInput D intf input with
    | .error err => return (.error err, reads)
    | .ok rc => if rc = 0 then typeKeys intf reads else return (.ok rc, reads)

end

/-! ### The machine -/

section
variable {e : UInt8} {s : EscapeState} {k : UInt8} {keys keys' : List UInt8} {l l' : List Symbol}

@[simp] theorem chars_append : chars (l ++ l') = chars l ++ chars l' := List.filterMap_append

@[simp] theorem breaks_append : breaks (l ++ l') = breaks l ++ breaks l' := List.filter_append ..

@[simp] theorem wire_append : wire (l ++ l') = wire l ++ wire l' := List.filter_append ..

theorem chars_map (cs : List UInt8) : chars (cs.map .char) = cs := by
  simp [chars, List.filterMap_map, Function.comp_def, Symbol.char?]

theorem breaks_map (cs : List UInt8) : breaks (cs.map .char) = [] := by
  simp [breaks]

@[simp] theorem typed_nil : typed e s [] = [] := rfl

@[simp] theorem typed_cons : typed e s (k :: keys) =
    (EscapeState.step e s k).2 ++ typed e (EscapeState.step e s k).1 keys := rfl

theorem typed_append : typed e s (keys ++ keys') =
    typed e s keys ++ typed e (after (EscapeState.step e) s keys) keys' := by
  rw [typed, outputs_append, List.flatten_append]
  rfl

end

/-! ### What is sent -/

/-- What an exchange puts on the wire: a break, or the characters of a packet that was answered. -/
def symbols : Act × Answer → List Symbol
  | (.sendSol p, a) =>
    if p.generateBreak then [.brk] else if a.response.isSome then p.data.map .char else []
  | _ => []

/-- A text was written, a packet was answered. -/
def Succeeds : Act × Answer → Prop
  | (.text _, a) => a.error = none
  | (.sendSol _, a) => a.response.isSome
  | _ => True

/-- What went over the wire. -/
def transmitted (evs : List (Act × Answer)) : List Symbol := evs.flatMap symbols

@[simp] theorem transmitted_append (evs evs' : List (Act × Answer)) :
    transmitted (evs ++ evs') = transmitted evs ++ transmitted evs' := List.flatMap_append

section
variable {β : Type} {D : Device β Act Answer} {w w' : World EscapeState β Act Answer} {e : UInt8}
  {b b' : Collected}

/-- The keys were collected: the state of the escapes, the characters and the result are those of
the machine, and only its breaks were sent. -/
structure Collects (e : UInt8) (keys : List UInt8) (w w' : World EscapeState β Act Answer)
    (b b' : Collected) : Prop where
  escape : w'.vars = after (EscapeState.step e) w.vars keys
  data : b'.data = b.data ++ chars (typed e w.vars keys)
  result : b'.result = if .quit ∈ typed e w.vars keys then 1 else b.result
  sent : ∃ evs, w'.log = w.log ++ evs ∧ transmitted evs = breaks (typed e w.vars keys) ∧
    ∀ p a, (Act.sendSol p, a) ∈ evs → p.generateBreak = true

theorem emit_cases {α : Type} (t : InteractiveText) (next : Console β (Except StdoutError α))
    (w : World EscapeState β Act Answer) :
    (∃ err, emit D t next w = .ok (.error err, w.asked D (.text t)) ∧
      (D w.device (.text t)).1.error = some err) ∨
      emit D t next w = next (w.asked D (.text t)) := by
  unfold emit
  rw [bind_run (ask_ok.mpr ⟨rfl, rfl⟩)]
  rcases (D w.device (.text t)).1.error with _ | err
  · exact .inr rfl
  · exact .inl ⟨err, rfl, rfl⟩

theorem put_ok {x : UInt8} (h : b.data.length < bufSize + 1) :
    put b x w = .ok ({ b with data := b.data ++ [x] }, w) := by
  rw [put, if_pos h]
  rfl

theorem command_ok {ch : UInt8} {t : InteractiveText}
    {next : Console β (Except StdoutError Collected)}
    {l : List Symbol} {s' : EscapeState} {w1 : World EscapeState β Act Answer}
    (hlog : w1.log = w.log) (hstep : EscapeState.step e w.vars ch = (s', l)) (hl : chars l = [])
    (hnext : ∀ w2 : World EscapeState β Act Answer, w2.vars = w1.vars → ∃ b' w' evs,
      next w2 = .ok (.ok b', w') ∧ w'.log = w2.log ++ evs ∧ w'.vars = s' ∧ b'.data = b.data ∧
        b'.result = (if .quit ∈ l then 1 else b.result) ∧ transmitted evs = breaks l ∧
        ∀ p a, (Act.sendSol p, a) ∈ evs → p.generateBreak = true) :
    (∃ b' w', emit D t next w1 = .ok (.ok b', w') ∧ Collects e [ch] w w' b b') ∨
      ∃ err w' u a, emit D t next w1 = .ok (.error err, w') ∧ a.error = some err ∧
        w'.log = w.log ++ [(Act.text u, a)] := by
  rcases emit_cases (D := D) t next w1 with ⟨err, h, herr⟩ | h
  · refine .inr ⟨err, _, t, (D w1.device (.text t)).1, h, herr, ?_⟩
    rw [World.asked_log, hlog]
  · obtain ⟨b', w', evs, hrun, hlog', hvars, hdata, hresult, hsent, hbreaks⟩ :=
      hnext (w1.asked D (.text t)) rfl
    refine .inl ⟨b', w', h.trans hrun, ?_⟩
    have htyped : typed e w.vars [ch] = l := by
      rw [typed_cons, hstep, typed_nil, List.append_nil]
    refine ⟨?_, ?_, ?_, (Act.text t, (D w1.device (.text t)).1) :: evs, ?_, ?_, ?_⟩
    · rw [after_cons, after_nil, hstep, hvars]
    · rw [htyped, hl, hdata, List.append_nil]
    · rw [htyped, hresult]
    · rw [hlog', World.asked_log, hlog, List.append_assoc, List.singleton_append]
    · rw [htyped, ← hsent]
      rfl
    · intro p a hmem
      rcases List.mem_cons.mp hmem with h | h
      · cases h
      · exact hbreaks p a h

theorem collects_chars {ch : UInt8} {s' : EscapeState} {cs : List UInt8}
    (hstep : EscapeState.step e w.vars ch = (s', cs.map .char)) :
    Collects e [ch] w { w with vars := s' } b { b with data := b.data ++ cs } := by
  have htyped : typed e w.vars [ch] = cs.map .char := by
    rw [typed_cons, hstep, typed_nil, List.append_nil]
  refine ⟨?_, ?_, ?_, [], by simp, ?_, by simp⟩
  · rw [after_cons, after_nil, hstep]
  · rw [htyped, chars_map]
  · rw [htyped, if_neg (by simp)]
  · rw [htyped, breaks_map]
    rfl

/-- One key: it is collected, or the terminal refuses the text for it. -/
theorem key_ok (ch : UInt8) (h : b.data.length + w.vars.pending.toNat < bufSize + 1) :
    (∃ b' w', key D e b ch w = .ok (.ok b', w') ∧ Collects e [ch] w w' b b') ∨
      ∃ err w' t a, key D e b ch w = .ok (.error err, w') ∧ a.error = some err ∧
        w'.log = w.log ++ [(Act.text t, a)] := by
  unfold key
  rw [bind_run (show (get : Console β _) w = .ok (w, w) from rfl)]
  dsimp only
  cases hp : w.vars.pending with
  | true =>
    rw [if_pos rfl]
    rw [bind_run (show setEscape ⟨false, w.vars.lastCr⟩ w =
      .ok (⟨⟩, { w with vars := ⟨false, w.vars.lastCr⟩ }) from rfl)]
    have hsilent : ch ≠ quitKey → ch ≠ breakKey → ch ∈ commands →
        EscapeState.step e w.vars ch = (⟨false, w.vars.lastCr⟩, []) := by
      intro h1 h2 h3
      rw [EscapeState.step, if_pos hp, if_neg h1, if_neg h2, if_pos h3]
    split_ifs with h1 h2 h3 h4 h5
    · have hstep : EscapeState.step e w.vars ch = (⟨false, newline ch⟩, [.quit]) := by
        rw [EscapeState.step, if_pos hp, if_pos h1]
      refine command_ok ?_ hstep rfl fun w2 hw2 => ?_
      · rfl
      · exact ⟨{ b with result := 1 }, { w2 with vars := ⟨false, newline ch⟩ }, [], rfl,
        (List.append_nil _).symm, rfl, rfl, rfl, rfl, by simp⟩
    · have hstep := hsilent h1 (by rw [h2]; decide) (by rw [h2]; decide)
      refine command_ok ?_ hstep rfl fun w2 hw2 => ?_
      · rfl
      · exact ⟨b, w2.asked D (.suspendSelf true), [_], rfl, rfl, hw2, rfl, rfl, rfl, by simp⟩
    · have hstep := hsilent h1 (by rw [h3]; decide) (by rw [h3]; decide)
      refine command_ok ?_ hstep rfl fun w2 hw2 => ?_
      · rfl
      · exact ⟨b, w2.asked D (.suspendSelf false), [_], rfl, rfl, hw2, rfl, rfl, rfl, by simp⟩
    · have hstep : EscapeState.step e w.vars ch = (⟨false, w.vars.lastCr⟩, [.brk]) := by
        rw [EscapeState.step, if_pos hp, if_neg h1, if_pos h4]
      refine command_ok ?_ hstep rfl fun w2 hw2 => ?_
      · rfl
      · exact ⟨b, w2.asked D (.sendSol { generateBreak := true }), [_], rfl, rfl, hw2, rfl, rfl,
          rfl, by simp⟩
    · have hstep := hsilent h1 h4 (by rw [h5]; decide)
      refine command_ok ?_ hstep rfl fun w2 hw2 => ?_
      · rfl
      · exact ⟨b, w2, [], rfl, (List.append_nil _).symm, hw2, rfl, rfl, rfl, by simp⟩
    · -- a sequence that is not known is collected, with the escape character
      have hstep : EscapeState.step e w.vars ch = (⟨false, newline ch⟩, [e, ch].map .char) := by
        rw [EscapeState.step, if_pos hp, if_neg h1, if_neg h4,
          if_neg (by simp [commands, h1, h2, h3, h4, h5]), if_neg ‹_›]
        rfl
      have hcollects := collects_chars (b := b) hstep
      rw [List.append_cons] at hcollects
      refine .inl ⟨_, _, ?_, hcollects⟩
      rw [hp, Bool.toNat_true] at h
      rw [bind_run (put_ok (by omega)), bind_run (put_ok (by simpa using h))]
      rfl
    · have he : ch = e := not_not.mp ‹_›
      have hstep : EscapeState.step e w.vars ch = (⟨false, newline ch⟩, [ch].map .char) := by
        rw [EscapeState.step, if_pos hp, if_neg h1, if_neg h4,
          if_neg (by simp [commands, h1, h2, h3, h4, h5]), if_pos he, he]
        rfl
      refine .inl ⟨_, _, ?_, collects_chars hstep⟩
      rw [bind_run (show (pure b : Console β _) _ = .ok (b, _) from rfl),
        bind_run (put_ok (by omega))]
      rfl
  | false =>
    rw [if_neg Bool.false_ne_true]
    split_ifs with h1
    · have hstep : EscapeState.step e w.vars ch = (⟨true, w.vars.lastCr⟩, [].map .char) := by
        rw [EscapeState.step, if_neg (by simp [hp]), if_pos h1]
        rfl
      refine .inl ⟨_, _, rfl, ?_⟩
      simpa using collects_chars (b := b) hstep
    · have hstep : EscapeState.step e w.vars ch = (⟨false, newline ch⟩, [ch].map .char) := by
        rw [EscapeState.step, if_neg (by simp [hp]), if_neg h1]
        rfl
      refine .inl ⟨_, _, ?_, collects_chars hstep⟩
      rw [bind_run (put_ok (by omega))]
      rfl

/-- A key costs at most one byte of the buffer, if a pending escape is counted as one. -/
theorem room (e : UInt8) (s : EscapeState) (ch : UInt8) :
    (chars (EscapeState.step e s ch).2).length + (EscapeState.step e s ch).1.pending.toNat ≤
      s.pending.toNat + 1 := by
  unfold EscapeState.step
  split_ifs with h1 <;> simp [chars, Symbol.char?, List.filterMap_cons, h1]

theorem Collects.refl : Collects e [] w w b b :=
  ⟨rfl, (List.append_nil _).symm, rfl, [], (List.append_nil _).symm, rfl, by simp⟩

theorem Collects.trans {ks ks' : List UInt8} {w'' : World EscapeState β Act Answer}
    {b'' : Collected}
    (h : Collects e ks w w' b b') (h' : Collects e ks' w' w'' b' b'') :
    Collects e (ks ++ ks') w w'' b b'' := by
  obtain ⟨evs, hlog, hsent, hbreaks⟩ := h.sent
  obtain ⟨evs', hlog', hsent', hbreaks'⟩ := h'.sent
  have htyped : typed e w.vars (ks ++ ks') = typed e w.vars ks ++ typed e w'.vars ks' := by
    rw [typed_append, h.escape]
  refine ⟨?_, ?_, ?_, evs ++ evs', ?_, ?_, ?_⟩
  · rw [after_append, h'.escape, h.escape]
  · rw [htyped, chars_append, h'.data, h.data, List.append_assoc]
  · rw [htyped, h'.result, h.result]
    simp only [List.mem_append]
    split_ifs <;> simp_all
  · rw [hlog', hlog, List.append_assoc]
  · rw [htyped, transmitted_append, breaks_append, hsent, hsent']
  · intro p a hmem
    rcases List.mem_append.mp hmem with hmem | hmem
    · exact hbreaks p a hmem
    · exact hbreaks' p a hmem

/-- The loop over a read: its keys are collected, or it ends at a text that was refused. -/
theorem scan_ok : ∀ (input : List UInt8) (b : Collected) (w : World EscapeState β Act Answer),
    b.data.length + input.length + w.vars.pending.toNat ≤ bufSize + 1 →
    (∃ b' w', scan D e input b w = .ok (.ok b', w') ∧ Collects e input w w' b b') ∨
      ∃ err w' pre evs, scan D e input b w = .ok (.error err, w') ∧ pre <+: input ∧
        w'.log = w.log ++ evs ∧ transmitted evs = breaks (typed e w.vars pre) ∧
        (∃ x ∈ evs, ¬ Succeeds x) ∧ ∀ p a, (Act.sendSol p, a) ∈ evs → p.generateBreak = true
  | [], b, w, _ => .inl ⟨b, w, rfl, .refl⟩
  | ch :: input, b, w, h => by
    rw [List.length_cons] at h
    rcases key_ok (D := D) (e := e) ch (b := b) (w := w) (by omega) with
      ⟨b1, w1, hrun, hkey⟩ | ⟨err, w1, t, a, hrun, herr, hlog⟩
    · have hroom := room e w.vars ch
      have hdata := congrArg List.length hkey.data
      rw [List.length_append, typed_cons, typed_nil, List.append_nil] at hdata
      have hvars : w1.vars = (EscapeState.step e w.vars ch).1 := hkey.escape
      rw [← hvars] at hroom
      unfold scan
      rw [bind_run hrun]
      rcases scan_ok input b1 w1 (by omega) with
        ⟨b', w', hscan, hcollects⟩ | ⟨err, w', pre, evs', hscan, hpre, hlog, hsent,
          ⟨x, hx, hfails⟩, hbreaks⟩
      · exact .inl ⟨b', w', hscan, hkey.trans hcollects⟩
      · obtain ⟨evs, hlog1, hsent1, hbreaks1⟩ := hkey.sent
        refine .inr ⟨err, w', ch :: pre, evs ++ evs', hscan,
          (List.cons_prefix_cons).mpr ⟨rfl, hpre⟩, ?_, ?_,
          ⟨x, List.mem_append_right _ hx, hfails⟩, ?_⟩
        · rw [hlog, hlog1, List.append_assoc]
        · rw [transmitted_append, hsent1, hsent, ← breaks_append, hkey.escape, ← typed_append]
          rfl
        · intro p a hmem
          rcases List.mem_append.mp hmem with hmem | hmem
          · exact hbreaks1 p a hmem
          · exact hbreaks p a hmem
    · refine .inr ⟨err, w1, [], [(Act.text t, a)], ?_, List.nil_prefix, hlog, rfl,
        ⟨_, List.mem_singleton_self _, ?_⟩, by simp⟩
      · unfold scan
        rw [bind_run hrun]
        rfl
      · rw [Succeeds, herr]
        exact Option.some_ne_none err

/-! ### A read -/

/-- The packets with characters are neither empty nor longer than the limit. -/
def Sized (intf : SolIntf) (evs : List (Act × Answer)) : Prop :=
  ∀ p a, (Act.sendSol p, a) ∈ evs → p.generateBreak = false →
    1 ≤ p.data.length ∧ p.data.length ≤ limit intf

theorem Sized.append {intf : SolIntf} {evs evs' : List (Act × Answer)} (h : Sized intf evs)
    (h' : Sized intf evs') : Sized intf (evs ++ evs') := by
  intro p a hmem
  rcases List.mem_append.mp hmem with hmem | hmem
  · exact h p a hmem
  · exact h' p a hmem

/-- The tries for a packet: its characters went over the wire if one of them was answered. -/
theorem sendRetry_ok (p : SolPacket) (hp : p.generateBreak = false) :
    ∀ (n : ℕ) (w : World EscapeState β Act Answer), ∃ o w' evs,
      sendRetry D p n w = .ok (o, w') ∧ w'.vars = w.vars ∧ w'.log = w.log ++ evs ∧
      (∀ x ∈ evs, x.1 = .sendSol p) ∧
      transmitted evs = (if o.isSome then p.data.map .char else []) ∧
      (0 < n → (∀ x ∈ evs, Succeeds x) → o.isSome)
  | 0, w => ⟨none, w, [], rfl, rfl, (List.append_nil _).symm, by simp, rfl, by simp⟩
  | n + 1, w => by
    unfold sendRetry
    rw [bind_run (ask_ok.mpr ⟨rfl, rfl⟩)]
    have hsymbols : symbols (.sendSol p, (D w.device (.sendSol p)).1) =
        if (D w.device (.sendSol p)).1.response.isSome then p.data.map .char else [] := by
      rw [symbols, hp, if_neg Bool.false_ne_true]
    rcases hr : (D w.device (.sendSol p)).1.response with _ | r
    · obtain ⟨o, w', evs, hrun, hvars, hlog, hall, hsent, -⟩ :=
        sendRetry_ok p hp n (w.asked D (.sendSol p))
      refine ⟨o, w', (.sendSol p, (D w.device (.sendSol p)).1) :: evs, hrun, hvars, ?_, ?_, ?_, ?_⟩
      · rw [hlog, World.asked_log, List.append_assoc, List.singleton_append]
      · simpa using hall
      · rw [transmitted, List.flatMap_cons, hsymbols, hr]
        exact hsent
      · intro _ hsucceeds
        have := hsucceeds _ List.mem_cons_self
        rw [Succeeds, hr] at this
        cases this
    · refine ⟨some r, _, [(.sendSol p, (D w.device (.sendSol p)).1)], rfl, rfl,
        rfl, by simp, ?_, by simp⟩
      rw [transmitted, List.flatMap_singleton, hsymbols, hr]

/-- The loop over the packets: all characters go over the wire, or some and the result is -1. -/
theorem sendLoop_ok (intf : SolIntf) (result : ℤ) (rest : List UInt8)
    (w : World EscapeState β Act Answer) : ∃ rc w' evs,
      sendLoop D intf result rest w = .ok (rc, w') ∧ w'.vars = w.vars ∧ w'.log = w.log ++ evs ∧
      Sized intf evs ∧
      (rc = result ∧ transmitted evs = rest.map .char ∨
        rc = -1 ∧ ∃ cs, cs <+: rest ∧ transmitted evs = cs.map .char) ∧
      (0 < intf.retry → (∀ x ∈ evs, Succeeds x) → rc = result) := by
  induction hn : rest.length using Nat.strongRecOn generalizing rest w with
  | ind n ih =>
    rw [sendLoop]
    split_ifs with hrest
    · exact ⟨result, w, [], rfl, rfl, (List.append_nil _).symm, by simp [Sized],
        .inl ⟨rfl, by rw [hrest]; rfl⟩, fun _ _ => rfl⟩
    have hpos := List.length_pos_of_ne_nil hrest
    have hlimit := limit_pos intf
    set count := min rest.length (limit intf) with hcount
    obtain ⟨o, w1, evs1, hrun1, hvars1, hlog1, hall1, hsent1, htry1⟩ :=
      sendRetry_ok (D := D) { data := rest.take count } rfl intf.retry.toNat w
    have hsized1 : Sized intf evs1 := by
      intro p a hmem _
      obtain rfl := Act.sendSol.inj (hall1 _ hmem)
      rw [List.length_take]
      omega
    rw [bind_run hrun1]
    rcases o with _ | r
    · refine ⟨-1, w1, evs1, rfl, hvars1, hlog1, hsized1,
        .inr ⟨rfl, [], List.nil_prefix, hsent1⟩, ?_⟩
      intro hretry hsucceeds
      cases htry1 (by omega) hsucceeds
    -- the rest, behind the output that the response may bring
    obtain ⟨w2, evs2, hrun2, hvars2, hlog2, hall2⟩ : ∃ w2 evs2,
        (if result = 0 ∧ hasOutput r = true then do
            let _ ← ask D (.output r)
            sendLoop D intf result (rest.drop count)
          else sendLoop D intf result (rest.drop count)) w1 =
            sendLoop D intf result (rest.drop count) w2 ∧
          w2.vars = w1.vars ∧ w2.log = w1.log ++ evs2 ∧ ∀ x ∈ evs2, x.1 = .output r := by
      split_ifs with hout
      · refine ⟨w1.asked D (.output r), [_], ?_, rfl, rfl, by simp⟩
        rw [bind_run (ask_ok.mpr ⟨rfl, rfl⟩)]
      · exact ⟨w1, [], rfl, rfl, (List.append_nil _).symm, by simp⟩
    have htexts : transmitted evs2 = [] ∧ Sized intf evs2 := by
      constructor
      · refine List.flatMap_eq_nil_iff.mpr fun x hx => ?_
        obtain ⟨q, a⟩ := x
        obtain rfl : q = .output r := hall2 _ hx
        rfl
      · intro p a hmem
        cases hall2 _ hmem
    obtain ⟨rc, w', evs, hrun, hvars, hlog, hsized, hsent, htry⟩ :=
      ih (rest.drop count).length (by rw [List.length_drop]; omega) (rest.drop count) w2 rfl
    have hfirst : transmitted evs1 = (rest.take count).map .char := hsent1
    refine ⟨rc, w', evs1 ++ evs2 ++ evs, hrun2.trans hrun, ?_, ?_,
      (hsized1.append htexts.2).append hsized, ?_, fun hretry hsucceeds => htry hretry fun x hx =>
        hsucceeds x (List.mem_append_right _ hx)⟩
    · rw [hvars, hvars2, hvars1]
    · rw [hlog, hlog2, hlog1, List.append_assoc, List.append_assoc, List.append_assoc]
    · rw [transmitted_append, transmitted_append, htexts.1, List.append_nil, hfirst]
      rcases hsent with ⟨hrc, hsent⟩ | ⟨hrc, cs, hcs, hsent⟩
      · exact .inl ⟨hrc, by rw [hsent, ← List.map_append, List.take_append_drop]⟩
      · refine .inr ⟨hrc, rest.take count ++ cs, ?_, by rw [hsent, List.map_append]⟩
        calc rest.take count ++ cs <+: rest.take count ++ rest.drop count :=
              (List.prefix_append_right_inj _).mpr hcs
          _ = rest := List.take_append_drop _ _

/-- What a read comes to. Its breaks go over the wire, and then its characters, all of them unless
the result is -1; if the terminal refuses a text, only the breaks of the keys in front of it. -/
theorem processUserInput_ok (intf : SolIntf) {input : List UInt8} (h : input.length ≤ bufSize)
    (w : World EscapeState β Act Answer) : ∃ o w' evs,
      processUserInput D intf input w = .ok (o, w') ∧ w'.log = w.log ++ evs ∧ Sized intf evs ∧
      (∀ rc, o = .ok rc → w'.vars = after (EscapeState.step intf.solEscapeChar) w.vars input ∧
        ∃ cs, cs <+: chars (typed intf.solEscapeChar w.vars input) ∧
          transmitted evs = breaks (typed intf.solEscapeChar w.vars input) ++ cs.map .char ∧
          (rc ≠ -1 → cs = chars (typed intf.solEscapeChar w.vars input) ∧
            (rc = 0 ↔ .quit ∉ typed intf.solEscapeChar w.vars input))) ∧
      (∀ err, o = .error err → ∃ pre, pre <+: input ∧
        transmitted evs = breaks (typed intf.solEscapeChar w.vars pre)) ∧
      (0 < intf.retry → (∀ x ∈ evs, Succeeds x) → ∃ rc, o = .ok rc ∧ rc ≠ -1) := by
  have hpending : w.vars.pending.toNat ≤ 1 := Bool.toNat_le _
  unfold processUserInput
  rcases scan_ok (D := D) (e := intf.solEscapeChar) input {} w (by
      change 0 + input.length + _ ≤ _
      omega) with
    ⟨b, w1, hrun, hcollects⟩ | ⟨err, w1, pre, evs, hrun, hpre, hlog, hsent,
      ⟨x, hx, hfails⟩, hbreaks⟩
  · rw [bind_run hrun]
    obtain ⟨evs, hlog, hsent, hbreaks⟩ := hcollects.sent
    have hsized : Sized intf evs := by
      intro p a hmem hp
      rw [hbreaks p a hmem] at hp
      cases hp
    have hdata : b.data = chars (typed intf.solEscapeChar w.vars input) := hcollects.data
    have hresult : b.result ≠ -1 ∧ (b.result = 0 ↔
        .quit ∉ typed intf.solEscapeChar w.vars input) := by
      rw [hcollects.result]
      split_ifs with hquit <;> simp [hquit]
    dsimp only
    split_ifs with hnil
    · refine ⟨.ok b.result, w1, evs, rfl, hlog, hsized, ?_, by simp, fun _ _ => ⟨_, rfl, hresult.1⟩⟩
      rintro rc hrc
      obtain rfl := Except.ok.inj hrc
      refine ⟨hcollects.escape, [], List.nil_prefix, ?_,
        fun _ => ⟨by rw [← hdata, hnil], hresult.2⟩⟩
      rw [hsent, List.map_nil, List.append_nil]
    · obtain ⟨rc, w', evs', hrun', hvars', hlog', hsized', hsent', htry'⟩ :=
        sendLoop_ok (D := D) intf b.result b.data w1
      rw [bind_run hrun']
      refine ⟨.ok rc, w', evs ++ evs', rfl, by rw [hlog', hlog, List.append_assoc],
        hsized.append hsized', ?_, by simp, fun hretry hsucceeds => ⟨rc, rfl, ?_⟩⟩
      · rintro rc' hrc'
        obtain rfl := Except.ok.inj hrc'
        refine ⟨hvars'.trans hcollects.escape, ?_⟩
        rw [transmitted_append, hsent, ← hdata]
        rcases hsent' with ⟨rfl, hsent'⟩ | ⟨rfl, cs, hcs, hsent'⟩
        · exact ⟨b.data, List.prefix_rfl, by rw [hsent'], fun _ => ⟨rfl, hresult.2⟩⟩
        · exact ⟨cs, hcs, by rw [hsent'], fun h => absurd rfl h⟩
      · rw [htry' hretry fun x hx => hsucceeds x (List.mem_append_right _ hx)]
        exact hresult.1
  · rw [bind_run hrun]
    refine ⟨.error err, w1, evs, rfl, hlog, ?_, by simp, fun _ _ => ⟨pre, hpre, hsent⟩,
      fun _ hsucceeds => absurd (hsucceeds x hx) hfails⟩
    intro p a hmem hp
    rw [hbreaks p a hmem] at hp
    cases hp

end

end Ipmitool.Sol.Input
