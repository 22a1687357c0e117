import Ipmitool.OpenIpmi.Sendrecv

/-! # The lengths of a reply

What `sendrecv` of `intf/open.zig` reads and copies of the message that it accepts, whatever its
length. A message that the driver has cut off at the size of the buffer is used as it is, and a
receive that fails ends the call like one without a message. The dumps of the debug level five are
left out.

`Handled` says of a run that it copies no negative length, reads no byte that was not received, and
returns a length within the message. -/

namespace Ipmitool.OpenIpmi.Lengths

open Ipmitool.Lib.Mem Ipmitool.Lib.Bytes Ipmitool.Lib.Machine Ipmitool.Lib.Buffer
  Ipmitool.Core.Types
open Ipmitool.Lanplus.Wire Ipmitool.OpenIpmi.Sendrecv

/-! ### What is read -/

/-- A byte that is read, and a copy with the length that is computed for it. -/
inductive Access where
  | byte (at' : ℕ)
  | copy (source : ℕ) (length : ℤ)

/-- Only bytes of a message of this length are read. -/
def Access.Within (n : ℕ) : Access → Prop
  | .byte i => i < n
  | .copy source length => 0 ≤ length ∧ source + length ≤ n

/-- The accesses of `decapsulate`: the completion code, the network function and the command of the
inner response, and the move. -/
def decapsulateAccesses (r : Response) (dataLen : UInt16) : List Access :=
  .byte 0 :: if r.data 0 = 0 then [.byte 2, .byte 6, .copy 7 (dataLen.toNat - 7)] else []

/-- The accesses of `finish`: the completion code and the move. -/
def finishAccesses (r : Response) (dataLen : UInt16) : List Access :=
  .byte 0 :: if r.data 0 = 0 ∧ (0 : ℤ) < dataLen.toNat - 1 then [.copy 1 (dataLen.toNat - 1)]
    else []

/-- The accesses to the message in the buffer. -/
def respondAccesses (intf : Intf) (r : Response) (dataLen : UInt16) : List Access :=
  if Transits intf then
    decapsulateAccesses r dataLen ++ match decapsulate r dataLen with
      | .ok p => finishAccesses p.1 p.2
      | .error _ => []
  else finishAccesses r dataLen

/-- The accesses of a run. -/
def accesses (req : Request) (s : St) : List Access :=
  match command s.intf req s.currSeq.toInt with
  | .error _ => []
  | .ok (cmd, _) =>
    if s.refuses ∨ s.intf.noanswer ∨ ¬ (0 ≤ s.intf.fd ∧ s.intf.fd < fdSetsize) then []
    else match receiveLoop cmd.msgid s.inbox s.rsp with
      | (none, _, _) => []
      | (some dataLen, r, _) => respondAccesses s.intf r dataLen

/-- The response, if there is one, has a length within the message. -/
def Returned (n : ℕ) : Except (Fault × St) (Bool × St) → Prop
  | .ok (true, s) => 0 ≤ s.rsp.dataLen ∧ s.rsp.dataLen ≤ n
  | .ok (false, _) => True
  | .error _ => False

/-- The message is handled safely by the run. -/
def Handled (req : Request) (s : St) (m : DriverMsg) : Prop :=
  (∀ a ∈ accesses req s, a.Within m.data.length) ∧ Returned m.data.length (sendrecv req s)

/-- A message is long enough: it has a completion code, and one from a target behind a transit
controller that succeeded has an inner response with a completion code. -/
def Enough (intf : Intf) (m : DriverMsg) : Prop :=
  1 ≤ m.data.length ∧ (Transits intf → m.data.head? = some 0 → 9 ≤ m.data.length)

/-! ### The message in the buffer -/

section
variable {intf : Intf} {r : Response} {m : DriverMsg}

theorem length_lt (m : DriverMsg) : (UInt16.ofNat m.data.length).toNat = m.data.length := by
  have := m.fits
  rw [UInt16.toNat_ofNat']
  unfold bufSize at this
  omega

theorem head_of_holds (h : Holds r.data 0 m.data) (hpos : 1 ≤ m.data.length) :
    m.data.head? = some (r.data 0) := by
  obtain ⟨byte, rest, hm⟩ := List.exists_cons_of_length_pos hpos
  rw [hm] at h ⊢
  rw [(holds_cons.mp h).1]
  rfl

/-- The ending of a run is safe. -/
def Responded (intf : Intf) (r : Response) (n : ℕ) : Prop :=
  (∀ a ∈ respondAccesses intf r (UInt16.ofNat n), a.Within n) ∧
    ∃ r', respond intf r (UInt16.ofNat n) = .ok r' ∧ 0 ≤ r'.dataLen ∧ r'.dataLen ≤ n

theorem finish_iff {n : ℕ} {len : UInt16} (hn : n ≤ bufSize) (hlen : len.toNat ≤ n) :
    ((∀ a ∈ finishAccesses r len, a.Within n) ∧ ∃ r', finish r len = .ok r' ∧
      0 ≤ r'.dataLen ∧ r'.dataLen ≤ n) ↔
      1 ≤ len.toNat := by
  unfold finish finishAccesses
  dsimp only
  constructor
  · rintro ⟨-, r', hr, hpos, -⟩
    split_ifs at hr <;> cases hr <;> dsimp only at hpos <;> omega
  · intro hpos
    refine ⟨fun a ha => ?_, ?_⟩
    · rcases List.mem_cons.mp ha with rfl | ha
      · exact Nat.lt_of_lt_of_le hpos hlen
      · split_ifs at ha with hcopy
        · obtain rfl := List.mem_singleton.mp ha
          exact ⟨by omega, by omega⟩
        · cases ha
    · split_ifs with hcopy hbuf
      · omega
      · exact ⟨_, rfl, by dsimp only; omega, by dsimp only; omega⟩
      · exact ⟨_, rfl, by dsimp only; omega, by dsimp only; omega⟩

/-- The bytes of a message of less than eight bytes that `decapsulate` makes a long one. -/
theorem not_finish_wrapped {n : ℕ} {len : UInt16} (h : n + 1 < len.toNat) :
    ¬ ∃ r', finish r len = .ok r' ∧ 0 ≤ r'.dataLen ∧ r'.dataLen ≤ n := by
  rintro ⟨r', hr, -, hle⟩
  unfold finish at hr
  dsimp only at hr
  split_ifs at hr <;> cases hr <;> dsimp only at hle <;> omega

/-- **The message in the buffer** is handled safely if and only if it is long enough. -/
theorem responded_iff (h : Holds r.data 0 m.data) : Responded intf r m.data.length ↔
    Enough intf m := by
  have hfits := m.fits
  have hlen := length_lt m
  have hhead := head_of_holds h
  unfold Responded respondAccesses respond Enough
  obtain ⟨n, hn⟩ : ∃ n, m.data.length = n := ⟨_, rfl⟩
  rw [hn] at hfits hlen hhead ⊢
  by_cases ht : Transits intf
  swap
  · rw [if_neg ht, if_neg ht, finish_iff hfits (Nat.le_of_eq hlen), hlen]
    exact ⟨fun hpos => ⟨hpos, fun h => absurd h ht⟩, And.left⟩
  rw [if_pos ht, if_pos ht]
  unfold decapsulate decapsulateAccesses
  by_cases hzero : r.data 0 = 0
  · rw [if_pos hzero, if_pos hzero, hlen]
    by_cases hshort : n < 7
    · rw [if_pos hshort]
      constructor
      · rintro ⟨-, r', hr, -⟩
        cases hr
      · rintro ⟨hpos, hnine⟩
        have := hnine ht ((hhead hpos).trans (congr_arg some hzero))
        omega
    rw [if_neg hshort]
    have hiff : 9 ≤ n ↔ 1 ≤ n ∧ (Transits intf → m.data.head? = some 0 → 9 ≤ n) :=
      ⟨fun h => ⟨by omega, fun _ _ => h⟩,
        fun h => h.2 ht ((hhead h.1).trans (congr_arg some hzero))⟩
    rw [← hiff]
    change (∀ a ∈ _ ++ finishAccesses _ _, a.Within n) ∧ (∃ r', finish _ _ = .ok r' ∧ _) ↔ _
    have hnext : n = 7 ∧ (UInt16.ofNat n - 8).toNat = 65535 ∨ 8 ≤ n ∧
        (UInt16.ofNat n - 8).toNat = n - 8 := by
      rw [UInt16.toNat_sub, hlen]
      unfold bufSize at hfits
      change n = 7 ∧ (2 ^ 16 - 8 + n) % 2 ^ 16 = 65535 ∨ 8 ≤ n ∧ (2 ^ 16 - 8 + n) % 2 ^ 16 = n - 8
      omega
    rcases hnext with ⟨rfl, hnext⟩ | ⟨hge, hnext⟩
    · have hlong : 7 + 1 < (UInt16.ofNat 7 - 8).toNat := by omega
      exact ⟨fun h => absurd h.2 (not_finish_wrapped hlong), fun h => by omega⟩
    · have hfinish := finish_iff (r := { r with data := move r.data 0 7 (n - 7) }) hfits
        (show (UInt16.ofNat n - 8).toNat ≤ n by omega)
      rw [hnext] at hfinish
      constructor
      · rintro ⟨haccess, hr⟩
        have := hfinish.mp ⟨fun a ha => haccess a (List.mem_append_right _ ha), hr⟩
        omega
      · intro hnine
        obtain ⟨haccess, hr⟩ := hfinish.mpr (by omega)
        refine ⟨fun a ha => ?_, hr⟩
        rcases List.mem_append.mp ha with ha | ha
        · simp only [List.mem_cons, List.not_mem_nil, or_false] at ha
          rcases ha with rfl | rfl | rfl | rfl
          · exact show 0 < n by omega
          · exact show 2 < n by omega
          · exact show 6 < n by omega
          · exact ⟨by omega, by omega⟩
        · exact haccess a ha
  · rw [if_neg hzero, if_neg hzero]
    have hfinish := finish_iff (r := r) hfits (Nat.le_of_eq hlen)
    rw [hlen] at hfinish
    change (∀ a ∈ _ ++ finishAccesses _ _, a.Within n) ∧ (∃ r', finish _ _ = .ok r' ∧ _) ↔ _
    constructor
    · rintro ⟨haccess, hr⟩
      have hpos := hfinish.mp ⟨fun a ha => haccess a (List.mem_append_right _ ha), hr⟩
      exact ⟨hpos, fun _ hsome => absurd (Option.some.inj ((hhead hpos).symm.trans hsome)) hzero⟩
    · rintro ⟨hpos, -⟩
      obtain ⟨haccess, hr⟩ := hfinish.mpr hpos
      refine ⟨fun a ha => ?_, hr⟩
      rcases List.mem_append.mp ha with ha | ha
      · obtain rfl := List.mem_singleton.mp ha
        exact hpos
      · exact haccess a ha

end

/-! ### The run -/

theorem store_ok (cells : List UInt8) (off : ℕ) (xs : List UInt8)
    (h : off + xs.length ≤ cells.length) :
    ∃ buf, store Fault.outOfBounds cells off xs = .ok buf ∧ buf.length = cells.length := by
  unfold store
  rw [if_pos h]
  refine ⟨_, rfl, ?_⟩
  rw [List.length_append, List.length_append, List.length_take, List.length_drop]
  omega

theorem load_ok (cells : List UInt8) (off n : ℕ) (h : off + n ≤ cells.length) :
    ∃ run, load Fault.outOfBounds cells off n = .ok run := ⟨_, if_pos h⟩

theorem command_ok (intf : Intf) (req : Request) (msgid : ℤ) :
    ∃ cmd log, command intf req msgid = .ok (cmd, log) ∧ cmd.msgid = msgid := by
  obtain ⟨data, hdata⟩ : ∃ data, encapsulate intf req = .ok data := by
    have hlen : (List.replicate (req.data.length + 8) (0 : UInt8)).length = req.data.length + 8 :=
      List.length_replicate
    obtain ⟨b0, h0, l0⟩ := store_ok (List.replicate (req.data.length + 8) 0) 0
      [0x40 ||| intf.targetChannel, intf.targetAddr.toUInt8, req.netfnLun] (by simp)
    obtain ⟨header, hheader⟩ := load_ok b0 1 2 (by omega)
    obtain ⟨b3, h3, l3⟩ := store_ok b0 3 [csum header] (by simp; omega)
    obtain ⟨b4, h4, l4⟩ := store_ok b3 4 [0xff, 0, req.cmd] (by simp; omega)
    obtain ⟨b7, h7, l7⟩ := store_ok b4 7 req.data (by omega)
    obtain ⟨body, hbody⟩ := load_ok b7 4 (req.data.length + 3) (by omega)
    obtain ⟨b8, h8, -⟩ := store_ok b7 ((7 + req.data.length) % 256) [csum body] (by simp; omega)
    refine ⟨b8, ?_⟩
    unfold encapsulate
    dsimp only
    rw [h0, except_ok_bind, hheader, except_ok_bind, h3, except_ok_bind, h4, except_ok_bind, h7,
      except_ok_bind, hbody, except_ok_bind, h8]
  unfold command
  split_ifs
  · rw [hdata]
    exact ⟨_, _, rfl, rfl⟩
  · exact ⟨_, _, rfl, rfl⟩

theorem receiveLoop_some {msgid : ℤ} {len : UInt16} {r' : Response} {rest : List DriverMsg} :
    ∀ (inbox : List DriverMsg) (r : Response), receiveLoop msgid inbox r = (some len, r', rest) →
    ∃ pre m, inbox = pre ++ m :: rest ∧ (∀ x ∈ pre, x.msgid ≠ msgid) ∧ m.msgid = msgid ∧
      len = UInt16.ofNat m.data.length ∧ Holds r'.data 0 m.data
  | [], r, h => by cases h
  | x :: inbox, r, h => by
    unfold receiveLoop at h
    dsimp only at h
    split_ifs at h with hid
    · cases h
      exact ⟨[], x, rfl, by simp, hid, rfl, holds_write r.data 0 x.data⟩
    · obtain ⟨pre, m, rfl, hpre, hm⟩ := receiveLoop_some inbox _ h
      refine ⟨x :: pre, m, rfl, fun y hy => ?_, hm⟩
      rcases List.mem_cons.mp hy with rfl | hy
      · exact hid
      · exact hpre y hy

theorem accepts_unique {s : St} {m m' : DriverMsg} (h : Accepts s m) (h' : Accepts s m') :
    m = m' := by
  have hfind : ∀ {m}, Accepts s m → s.inbox.find? (·.msgid = s.currSeq.toInt) = some m := by
    rintro m ⟨-, pre, rest, hin, hpre, hid⟩
    rw [hin, List.find?_append, List.find?_eq_none.mpr (by simpa using hpre), Option.none_or,
      List.find?_cons_of_pos (by simpa using hid)]
  exact Option.some.inj ((hfind h).symm.trans (hfind h'))

/-- A run returns without a response and without an access, or it accepts a message and ends with
it. -/
theorem sendrecv_cases (req : Request) (s : St) :
    ((∀ m, ¬ Accepts s m) ∧ accesses req s = [] ∧ ∃ s', sendrecv req s = .ok (false, s')) ∨
      ∃ m, Accepts s m ∧ ∃ t : St, sendrecv req s = conclude (UInt16.ofNat m.data.length) t ∧ t.intf = s.intf ∧
        Holds t.rsp.data 0 m.data ∧ accesses req s = respondAccesses s.intf t.rsp (UInt16.ofNat m.data.length) := by
  obtain ⟨cmd, log, hcmd, hid⟩ := command_ok s.intf req s.currSeq.toInt
  unfold accesses
  rw [hcmd]
  dsimp only
  by_cases hstop : s.refuses = true ∨ s.intf.noanswer = true ∨ ¬ (0 ≤ s.intf.fd ∧ s.intf.fd < fdSetsize)
  · left
    rw [if_pos hstop]
    refine ⟨fun m hm => ?_, rfl, { s with currSeq := s.currSeq + 1, log := s.log ++ log, sent := s.sent ++ [cmd] }, ?_⟩
    · obtain ⟨⟨h1, h2, h3⟩, -⟩ := hm
      simp [h1, h2, h3] at hstop
    · simp only [sendrecv, attempt, hcmd, bind, StateT.bind, get, getThe,
        MonadStateOf.get, StateT.get, pure, pure_run, Except.pure, Except.bind, set, set_run,
        if_pos hstop]
  rw [if_neg hstop, hid]
  have hwaits : Waits s := by
    push Not at hstop
    exact ⟨by simpa using hstop.1, by simpa using hstop.2.1, hstop.2.2⟩
  have hrun : sendrecv req s = match receiveLoop s.currSeq.toInt s.inbox s.rsp with
      | (none, r, rest) => .ok (false, { s with rsp := r, inbox := rest, currSeq := s.currSeq + 1,
                                                log := s.log ++ log, sent := s.sent ++ [cmd] })
      | (some dataLen, r, rest) =>
        conclude dataLen { s with rsp := r, inbox := rest, currSeq := s.currSeq + 1,
                                                             log := s.log ++ log, sent :=
                                                               s.sent ++ [cmd] } := by
    simp only [sendrecv, attempt, hcmd, bind, StateT.bind, get, getThe,
      MonadStateOf.get, StateT.get, pure, pure_run, Except.pure, Except.bind, set, set_run, hid,
      if_neg hstop, modify, modifyGet, MonadStateOf.modifyGet, StateT.modifyGet]
    obtain ⟨len, r, rest⟩ := receiveLoop s.currSeq.toInt s.inbox s.rsp
    cases len <;> rfl
  rcases hloop : receiveLoop s.currSeq.toInt s.inbox s.rsp with ⟨_ | len, r, rest⟩
  · rw [hloop] at hrun
    refine .inl ⟨fun m hm => ?_, rfl, _, hrun⟩
    obtain ⟨-, pre, rest, hin, hpre, hm⟩ := hm
    obtain ⟨mem, hsome, -⟩ := receiveLoop_accepts hm rest pre s.rsp hpre
    rw [hin, hsome] at hloop
    cases hloop
  · rw [hloop] at hrun
    obtain ⟨pre, m, hin, hpre, hm, rfl, hholds⟩ := receiveLoop_some _ _ hloop
    exact .inr ⟨m, ⟨hwaits, pre, rest, hin, hpre, hm⟩, _, hrun, rfl, hholds, rfl⟩

/-- The message that is accepted is handled safely if and only if it is long enough. -/
theorem handled_iff {req : Request} {s : St} {m : DriverMsg} (h : Accepts s m) :
    Handled req s m ↔ Enough s.intf m := by
  rcases sendrecv_cases req s with ⟨hnone, -⟩ | ⟨m', hm', t, hrun, hintf, hholds, haccess⟩
  · exact absurd h (hnone m)
  obtain rfl := accepts_unique h hm'
  rw [← responded_iff hholds]
  unfold Handled Responded
  rw [haccess, hrun, conclude_eq, hintf]
  refine and_congr Iff.rfl ?_
  rcases respond s.intf t.rsp (UInt16.ofNat m.data.length) with e | r'
  · exact ⟨fun h => h.elim, fun ⟨_, h, _⟩ => by cases h⟩
  · exact ⟨fun h => ⟨r', rfl, h⟩, fun ⟨_, h, hlen⟩ => by cases h; exact hlen⟩

/-- **A run is safe** if the message that it accepts is handled so, or if it accepts none. -/
def Safe (req : Request) (s : St) : Prop :=
  (∀ m, Accepts s m → Handled req s m) ∧
    ((∀ m, ¬ Accepts s m) → accesses req s = [] ∧ ∃ s', sendrecv req s = .ok (false, s'))

/-- **Replies are handled safely** if and only if the message that is accepted is long enough. -/
theorem safe_iff (req : Request) (s : St) : Safe req s ↔ ∀ m, Accepts s m → Enough s.intf m := by
  unfold Safe
  constructor
  · exact fun h m hm => (handled_iff hm).mp (h.1 m hm)
  · refine fun h => ⟨fun m hm => (handled_iff hm).mpr (h m hm), fun hnone => ?_⟩
    rcases sendrecv_cases req s with ⟨-, hrun⟩ | ⟨m, hm, -⟩
    · exact hrun
    · exact absurd hm (hnone m)

/-- An empty message, and one from a target behind a transit controller that ends before its
completion code. -/
def emptyReply : DriverMsg := ⟨0, [], by decide⟩
def cutReply : DriverMsg := ⟨0, [0, 0x81, 0x1c, 0x63, 0x82, 0, 1, 0], by decide⟩

theorem short_replies : ¬ Safe deviceIdRequest (waiting 0x20 0 emptyReply) ∧
    ¬ Safe deviceIdRequest (waiting 0x72 0x82 cutReply) := by
  refine ⟨fun h => ?_, fun h => ?_⟩
  · exact absurd ((handled_iff (accepts_waiting rfl)).mp (h.1 emptyReply (accepts_waiting rfl))).1
      (by decide)
  · have henough := (handled_iff (accepts_waiting rfl)).mp (h.1 cutReply (accepts_waiting rfl))
    exact absurd (henough.2 (by decide) rfl) (by decide)

end Ipmitool.OpenIpmi.Lengths
