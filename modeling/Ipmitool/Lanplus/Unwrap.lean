import Ipmitool.Lanplus.Poll

/-! # Unwrapping bridged answers

A bridged answer is the target's answer inside the answers to the Send Message requests, one for
each envelope (`nest`). `pollSingle` peels them off in one buffer, and `peel_round` and `last_round`
say what one round of its loop does with such a message.

The request entry is filed under the Send Message command until its last envelope is peeled off, and
each round ends by removing the entry with the key of the message. So the first of two envelopes
takes the entry with it, and the answer inside is lost: `unwrapped_iff` says that exactly the
answers in one envelope, to a command that is no Send Message itself, are delivered. -/

namespace Ipmitool.Lanplus.Unwrap

open Ipmitool.Lib.Mem Ipmitool.Lib.Machine Ipmitool.Core.Types Ipmitool.Core.Network
open Ipmitool.Crypto.Mac Ipmitool.Lanplus.State Ipmitool.Lanplus.Receive Ipmitool.Lanplus.Poll

/-! ### Nested answers -/

/-- An answer as it travels. The checksums are not looked at. -/
structure Answer where
  rqAddr : UInt8
  netfnLun : UInt8
  headerCsum : UInt8
  rsAddr : UInt8
  seqLun : UInt8
  cmd : UInt8
  ccode : UInt8
  data : List UInt8
  bodyCsum : UInt8

/-- The sequence number of the request that is answered. -/
def Answer.seq (m : Answer) : UInt8 := m.seqLun >>> 2

/-- The bytes of an answer. -/
def Answer.bytes (m : Answer) : List UInt8 :=
  [m.rqAddr, m.netfnLun, m.headerCsum, m.rsAddr, m.seqLun, m.cmd, m.ccode] ++ m.data ++ [m.bodyCsum]

/-- The target's answer inside the answers of the envelopes, the outermost first. -/
def nest : List Answer → Answer → List UInt8
  | [], inner => inner.bytes
  | e :: es, inner => { e with data := nest es inner }.bytes

theorem length_bytes (m : Answer) : m.bytes.length = m.data.length + 8 := by
  simp [Answer.bytes]

theorem length_nest (es : List Answer) (inner : Answer) :
    (nest es inner).length = inner.data.length + 8 + 8 * es.length := by
  induction es with
  | nil => simp [nest, length_bytes]
  | cons e es ih =>
    rw [nest, length_bytes]
    simp only [ih, List.length_cons]
    omega

theorem holds_bytes {mem : Memory UInt8} {o : ℕ} {m : Answer} (h : Holds mem o m.bytes) :
    mem (o + 1) = m.netfnLun ∧ mem (o + 4) = m.seqLun ∧ mem (o + 5) = m.cmd ∧
      mem (o + 6) = m.ccode ∧
      Holds mem (o + 7) m.data := by
  simp only [Answer.bytes, List.cons_append, List.nil_append, holds_cons, holds_append,
    Nat.add_assoc, Nat.reduceAdd] at h
  obtain ⟨-, h1, -, -, h4, h5, h6, hd, -⟩ := h
  exact ⟨h1, h4, h5, h6, hd⟩

/-! ### The outstanding request -/

/-- The entry `e` among others, none of which has its sequence number. -/
structure Outstanding (a b : List Entry) (e : Entry) : Prop where
  seq : ∀ x ∈ a ++ b, x.rqSeq ≠ e.rqSeq
  addr : ∀ x ∈ a ++ b, x.addr ≠ e.addr

section
variable {a b : List Entry} {e : Entry}

theorem Outstanding.peel (h : Outstanding a b e) : Outstanding a b (peel e) := ⟨h.seq, h.addr⟩

theorem Outstanding.hasKey_eq_false (h : Outstanding a b e) {x : Entry} (hx : x ∈ a ++ b)
    (cmd : UInt8) : Entry.hasKey e.rqSeq cmd x = false := by
  simp [Entry.hasKey, h.seq x hx]

theorem Outstanding.lookup (h : Outstanding a b e) (cmd : UInt8) :
    reqLookupEntry (a ++ e :: b) e.rqSeq cmd = if e.req.cmd = cmd then some e else none := by
  have ha : a.find? (Entry.hasKey e.rqSeq cmd) = none :=
    List.find?_eq_none.mpr fun x hx => by
      simp [h.hasKey_eq_false (List.mem_append_left b hx)]
  have hb : b.find? (Entry.hasKey e.rqSeq cmd) = none :=
    List.find?_eq_none.mpr fun x hx => by
      simp [h.hasKey_eq_false (List.mem_append_right a hx)]
  rw [reqLookupEntry, List.find?_append, ha, Option.none_or]
  by_cases hc : e.req.cmd = cmd
  · rw [List.find?_cons_of_pos (by simp [Entry.hasKey, hc]), if_pos hc]
  · rw [List.find?_cons_of_neg (by simp [Entry.hasKey, hc]), hb, if_neg hc]

/-- Once the entry has left the list, no message with its sequence number is expected. -/
theorem Outstanding.lookup_rest (h : Outstanding a b e) (cmd : UInt8) :
    reqLookupEntry (a ++ b) e.rqSeq cmd = none :=
  List.find?_eq_none.mpr fun x hx => by simp [h.hasKey_eq_false hx]

theorem Outstanding.remove (h : Outstanding a b e) (cmd : UInt8) :
    reqRemoveEntry (a ++ e :: b) e.rqSeq cmd = if e.req.cmd = cmd then a ++ b else a ++ e :: b := by
  have ha : ∀ x ∈ a, ¬ Entry.hasKey e.rqSeq cmd x = true := fun x hx => by
    simp [h.hasKey_eq_false (List.mem_append_left b hx)]
  have hb : ∀ x ∈ b, ¬ Entry.hasKey e.rqSeq cmd x = true := fun x hx => by
    simp [h.hasKey_eq_false (List.mem_append_right a hx)]
  rw [reqRemoveEntry, List.eraseP_append_right (e :: b) ha]
  by_cases hc : e.req.cmd = cmd
  · rw [List.eraseP_cons_of_pos (by simp [Entry.hasKey, hc]), if_pos hc]
  · rw [List.eraseP_cons_of_neg (by simp [Entry.hasKey, hc]),
      List.eraseP_of_forall_not hb, if_neg hc]

theorem update_middle (h : ∀ x ∈ a ++ b, x.addr ≠ e.addr) {e' : Entry} (haddr : e'.addr = e.addr) :
    updateEntry (a ++ e :: b) e' = a ++ e' :: b := by
  have hmap : ∀ l : List Entry, (∀ x ∈ l, x ∈ a ++ b) →
      (l.map fun x => if x.addr = e'.addr then e' else x) = l := by
    intro l hl
    have hid : ∀ x ∈ l, (fun x : Entry => if x.addr = e'.addr then e' else x) x = id x := by
      intro x hx
      rw [haddr]
      exact if_neg (h x (hl x hx))
    rw [List.map_congr_left hid, List.map_id]
  rw [updateEntry, List.map_append, List.map_cons, hmap a fun x hx => List.mem_append_left b hx,
    hmap b fun x hx => List.mem_append_right a hx, if_pos haddr.symm]

end

/-! ### One round -/

section
variable {r : Response} {o : ℕ} {m : Answer}

theorem readIpmiResponse_holds (h : Holds r.data o m.bytes) :
    (readIpmiResponse r o).rqSeq = m.seq ∧ (readIpmiResponse r o).cmd = m.cmd ∧
      (readIpmiResponse r o).ccode = m.ccode ∧ (readIpmiResponse r o).data = r.data ∧
      (readIpmiResponse r o).netfn = m.netfnLun >>> 2 := by
  obtain ⟨h1, h4, h5, h6, -⟩ := holds_bytes h
  refine ⟨?_, ?_, h6, rfl, ?_⟩
  · show r.data (o + 4) >>> 2 = m.seq
    rw [h4, Answer.seq]
  · exact h5
  · show r.data (o + 1) >>> 2 = _
    rw [h1]

theorem shiftData_holds (h : Holds r.data o m.bytes) (hfit : o + m.bytes.length ≤ bufSize) :
    ∃ r', shiftData r (o + 7) ((m.bytes.length : ℤ) - 7 - 1) = .ok r' ∧ r'.ccode = r.ccode ∧
      r'.dataLen = m.data.length ∧ Holds r'.data 0 m.data := by
  obtain ⟨-, -, -, -, hdata⟩ := holds_bytes h
  have hlen := length_bytes m
  have hextra : (m.bytes.length : ℤ) - 7 - 1 = m.data.length := by omega
  rw [hextra, shiftData]
  by_cases hpos : 0 < m.data.length
  · refine ⟨{ r with dataLen := m.data.length, data := move r.data 0 (o + 7) m.data.length }, ?_,
      rfl, rfl, ?_⟩
    · rw [if_pos (by omega), if_neg (by push_cast; omega)]
      rfl
    · have hmove : move r.data 0 (o + 7) m.data.length = write r.data 0 m.data := by
        rw [move, hdata]
      show Holds (move r.data 0 (o + 7) m.data.length) 0 m.data
      rw [hmove]
      exact holds_write r.data 0 m.data
  · have hnil : m.data = [] := List.eq_nil_of_length_eq_zero (by omega)
    refine ⟨{ r with dataLen := 0 }, if_neg (by omega), rfl, ?_, ?_⟩
    · simp [hnil]
    · rw [hnil]
      exact holds_nil _ _

variable {a b : List Entry} {e : Entry} {n : ℕ}

/-- **The last round**: the message answers an entry that is not bridged, or no longer. -/
theorem last_round (hout : Outstanding a b e) (h : Holds r.data o m.bytes)
    (hfit : o + m.bytes.length ≤ bufSize) (hseq : m.seq = e.rqSeq) (hcmd : m.cmd = e.req.cmd)
    (hlevel : e.bridgingLevel = 0) :
    ∃ r', ipmiLoop (n + 1) r (a ++ e :: b) o o (UInt16.ofNat m.bytes.length) =
        .ok (.got, a ++ b, r', [.removed e]) ∧
      r'.ccode = m.ccode ∧ r'.dataLen = m.data.length ∧ Holds r'.data 0 m.data := by
  obtain ⟨hrseq, hrcmd, hrcc, hrdata, -⟩ := readIpmiResponse_holds h
  have hnum : (UInt16.ofNat m.bytes.length).toNat = m.bytes.length := by
    rw [UInt16.toNat_ofNat', Nat.mod_eq_of_lt]
    unfold bufSize at hfit
    omega
  have hlookup := hout.lookup m.cmd
  have hremove := hout.remove m.cmd
  rw [if_pos hcmd.symm] at hlookup hremove
  obtain ⟨r', hshift, hcc, hlen, hdata⟩ := shiftData_holds (r := readIpmiResponse r o)
    (hrdata.symm ▸ h) hfit
  refine ⟨r', ?_, hcc.trans hrcc, hlen, hdata⟩
  have hoff : ((UInt16.ofNat m.bytes.length).toNat : ℤ) - ((o + 7 : ℕ) - (o : ℤ)) - 1 =
      (m.bytes.length : ℤ) - 7 - 1 := by
    rw [hnum]
    push_cast
    omega
  simp only [ipmiLoop, hrseq, hrcmd, hseq, hlookup, hlevel, ne_eq, not_true, false_and, if_false,
    hremove, hoff, hshift, Option.toList_some, List.map_cons, List.map_nil]
  rfl

/-- **A round that peels an envelope off**: the entry is looked for under the key of the envelope
once more, and removed if it still has it. -/
theorem peel_round (hout : Outstanding a b e) (h : Holds r.data o m.bytes)
    (hfit : o + m.bytes.length ≤ bufSize) (hseq : m.seq = e.rqSeq) (hcmd : m.cmd = e.req.cmd)
    (hlevel : e.bridgingLevel ≠ 0) (hcc : m.ccode = 0) (hdata : m.data ≠ []) :
    ∃ r', Holds r'.data 0 m.data ∧
      ipmiLoop (n + 1) r (a ++ e :: b) o o (UInt16.ofNat m.bytes.length) =
        if (peel e).req.cmd = m.cmd then
          ipmiLoop n r' (a ++ b) 0 0 (UInt16.ofNat m.data.length) >>= fun x =>
            pure (x.1, x.2.1, x.2.2.1, .removed (peel e) :: x.2.2.2)
        else ipmiLoop n r' (a ++ peel e :: b) 0 0 (UInt16.ofNat m.data.length) >>= fun x =>
          pure (x.1, x.2.1, x.2.2.1, x.2.2.2) := by
  obtain ⟨hrseq, hrcmd, hrcc, hrdata, -⟩ := readIpmiResponse_holds h
  have hpos : 0 < m.data.length := List.length_pos_iff.mpr hdata
  have hlen := length_bytes m
  have hnum : (UInt16.ofNat m.bytes.length).toNat = m.bytes.length := by
    rw [UInt16.toNat_ofNat', Nat.mod_eq_of_lt]
    unfold bufSize at hfit
    omega
  have hlookup := hout.lookup m.cmd
  rw [if_pos hcmd.symm] at hlookup
  have hupdate : updateEntry (a ++ e :: b) (peel e) = a ++ peel e :: b :=
    update_middle hout.addr rfl
  have hlookup' := hout.peel.lookup m.cmd
  have hremove' := hout.peel.remove m.cmd
  have hkey : (peel e).rqSeq = e.rqSeq := rfl
  rw [hkey] at hlookup' hremove'
  have hlarge : 8 < UInt16.ofNat m.bytes.length := by
    rw [UInt16.lt_iff_toNat_lt, hnum]
    show 8 < m.bytes.length
    omega
  obtain ⟨r', hshift, -, -, hshifted⟩ := shiftData_holds (r := readIpmiResponse r o)
    (hrdata.symm ▸ h) hfit
  have hoff : ((UInt16.ofNat m.bytes.length).toNat : ℤ) - ((o + 7 : ℕ) - (o : ℤ)) - 1 =
      (m.bytes.length : ℤ) - 7 - 1 := by
    rw [hnum]
    push_cast
    omega
  have hextra : (m.bytes.length : ℤ) - 7 - 1 = m.data.length := by omega
  have hextra' : 0 < (m.data.length : ℤ) := by omega
  refine ⟨r', hshifted, ?_⟩
  rw [hextra] at hshift
  simp only [ipmiLoop, hrseq, hrcmd, hrcc, hseq, hlookup, hlevel, hcc, ne_eq,
    not_false_iff, true_and, and_self, if_true, hupdate, hlarge, not_true, if_false, hlookup',
    hremove', hoff, hextra, hshift, hextra', Int.toNat_natCast]
  by_cases hk : (peel e).req.cmd = m.cmd
  · simp only [hk, if_true, Option.toList_some, List.map_cons, List.map_nil]
    rfl
  · simp only [hk, if_false, Option.toList_none, List.map_nil]
    rfl

theorem missing_round (hout : Outstanding a b e) (h : Holds r.data o m.bytes)
    (hseq : m.seq = e.rqSeq) (base : ℕ) (size : UInt16) :
    ∃ r', ipmiLoop (n + 1) r (a ++ b) o base size = .ok (.again, a ++ b, r', []) := by
  obtain ⟨hrseq, hrcmd, -⟩ := readIpmiResponse_holds h
  refine ⟨readIpmiResponse r o, ?_⟩
  simp only [ipmiLoop, hrseq, hrcmd, hseq, hout.lookup_rest]

end

/-! ### The whole packet -/

variable (K : Primitives)

/-- The next packet is for this session and carries the message `bytes`. -/
def Delivered (s : St) (bytes : List UInt8) : Prop :=
  ∃ ss d rest r o, s.intf.session = some ss ∧ ValidFd s.intf.fd ∧ s.net.inbox = some d :: rest ∧
    d ≠ [] ∧ d.length < bufSize ∧
    openPacket K ss (Response.receive s.recvRsp d) =
      .ok (.payload r o (UInt16.ofNat bytes.length)) ∧
    r.session.payloadtype = ptIpmi ∧ Holds r.data o bytes ∧ o + bytes.length ≤ bufSize

/-- **The bridged answer to an outstanding request**: the entry is filed under the Send Message
command with as many levels as there are envelopes, the envelopes are successful Send Message
answers with its number, and the answer inside is that of the target to this request. -/
structure Bridged (s : St) (a b : List Entry) (e : Entry) (es : List Answer)
    (inner : Answer) : Prop where
  delivered : Delivered K s (nest es inner)
  entries : s.reqEntries = a ++ e :: b
  outstanding : Outstanding a b e
  filed : e.req.cmd = 0x34
  level : e.bridgingLevel = es.length
  envelopes : ∀ m ∈ es, m.seq = e.rqSeq ∧ m.cmd = 0x34 ∧ m.ccode = 0
  seq : inner.seq = e.rqSeq
  cmd : inner.cmd = e.req.targetCmd

/-- **The answer is delivered**: `pollSingle` returns the completion code and the data of the
target, and the entry leaves the list once, after its last envelope. -/
def Unwrapped (s : St) (a b : List Entry) (e : Entry) (inner : Answer) : Prop :=
  ∃ s' e', pollSingle K s = .ok (.got, s') ∧ s'.recvRsp.ccode = inner.ccode ∧
    s'.recvRsp.bytes = inner.data ∧ s'.reqEntries = a ++ b ∧ e'.addr = e.addr ∧
    e'.bridgingLevel = 0 ∧ e'.req.cmd = inner.cmd ∧ s'.trace = s.trace ++ [.removed e']

section
variable {K} {s : St} {a b : List Entry} {e : Entry} {es : List Answer} {inner : Answer}

theorem recvPacket_delivers {d : List UInt8} {rest : List (Option (List UInt8))}
    (hfd : ValidFd s.intf.fd) (hin : s.net.inbox = some d :: rest) (hd : d ≠ [])
    (hlen : d.length < bufSize) :
    recvPacket s = .ok (true, { s with
      net := { s.net with inbox := rest }
      recvRsp := Response.receive s.recvRsp d }) := by
  have hfd' : ¬ (s.intf.fd < 0 ∨ 1024 ≤ s.intf.fd) := by
    have := hfd.1
    have := hfd.2
    omega
  have hnext : s.net.recv = (some d, { s.net with inbox := rest }) := by rw [Net.recv, hin]
  unfold recvPacket
  refine bind_ok.mpr ⟨s, s, get_ok.mpr ⟨rfl, rfl⟩, ?_⟩
  rw [if_neg hfd']
  refine bind_ok.mpr ⟨(), _, set_ok.mpr rfl, ?_⟩
  simp only [hnext, hd, Nat.not_le.mpr hlen, if_false, bind_ok, modify_ok, pure_ok]
  exact ⟨(), _, rfl, trivial, rfl⟩

theorem pollSingle_delivered {bytes : List UInt8} (h : Delivered K s bytes) :
    ∃ r o rest, Holds r.data o bytes ∧ o + bytes.length ≤ bufSize ∧
      ∀ res l r' evs, ipmiLoop (rounds s.reqEntries) r s.reqEntries o o
        (UInt16.ofNat bytes.length) =
        .ok (res, l, r', evs) → pollSingle K s = .ok (res, handled s rest l r' evs) := by
  obtain ⟨ss, d, rest, r, o, hss, hfd, hin, hd, hlen, hopen, htype, hbytes, hfit⟩ := h
  refine ⟨r, o, rest, hbytes, hfit, fun res l r' evs hloop => ?_⟩
  have hpacket : handlePacket K ss s.reqEntries (Response.receive s.recvRsp d) =
      .ok (res, l, r', evs) := by
    refine except_bind_ok.mpr ⟨_, hopen, ?_⟩
    simp only [handlePayload, htype, if_true, hloop]
  have hrecv := recvPacket_delivers hfd hin hd hlen
  unfold pollSingle
  simp only [bind_ok, theSession_ok]
  refine ⟨ss, s, ⟨hss, rfl⟩, true, _, hrecv, ?_⟩
  simp only [if_true, bind_ok, get_ok, lift_ok, set_ok, pure_ok]
  exact ⟨_, _, ⟨rfl, rfl⟩, (res, l, r', evs), _, ⟨hpacket, rfl⟩, (), _, rfl, rfl, rfl⟩

theorem rounds_ge (a b : List Entry) (e : Entry) : e.bridgingLevel + 1 ≤ rounds (a ++ e :: b) := by
  simp only [rounds, List.map_append, List.map_cons, List.sum_append, List.sum_cons]
  omega

theorem Bridged.unwrapped (h : Bridged K s a b e es inner) (hone : es.length = 1)
    (htarget : e.req.targetCmd ≠ 0x34) : Unwrapped K s a b e inner := by
  obtain ⟨m, rfl⟩ := List.length_eq_one_iff.mp hone
  obtain ⟨r, o, rest, hbytes, hfit, hpoll⟩ := pollSingle_delivered h.delivered
  obtain ⟨hmseq, hmcmd, hmcc⟩ := h.envelopes m (List.mem_singleton_self m)
  have hlevel : e.bridgingLevel = 1 := h.level
  have hpeeled : (peel e).bridgingLevel = 0 ∧ (peel e).req.cmd = e.req.targetCmd := by
    simp [peel, hlevel]
  obtain ⟨fuel, hfuel⟩ : ∃ fuel, rounds s.reqEntries = fuel + 1 + 1 := by
    have := rounds_ge a b e
    rw [h.entries]
    exact ⟨rounds (a ++ e :: b) - 2, by omega⟩
  obtain ⟨r1, hr1, hround⟩ := peel_round (n := fuel + 1) (m := { m with data := inner.bytes })
    h.outstanding hbytes hfit hmseq (hmcmd.trans h.filed.symm) (by omega) hmcc
    (by simp [Answer.bytes])
  have hlen := length_nest [m] inner
  obtain ⟨r2, hlast, hcc, hdlen, hdata⟩ := last_round (n := fuel) h.outstanding.peel hr1
    (by
      have := length_bytes inner
      rw [length_nest] at hfit
      omega)
    h.seq (h.cmd.trans hpeeled.2.symm) hpeeled.1
  have hne : ¬ (peel e).req.cmd = m.cmd := by
    rw [hpeeled.2, hmcmd]
    exact htarget
  rw [if_neg hne, hlast] at hround
  have hrun := hpoll .got (a ++ b) r2 [.removed (peel e)] (by
    rw [hfuel, h.entries]
    exact hround)
  refine ⟨_, peel e, hrun, hcc, ?_, rfl, rfl, hpeeled.1, hpeeled.2.trans h.cmd.symm, rfl⟩
  show read r2.data 0 r2.dataLen.toNat = inner.data
  rw [hdlen]
  exact hdata

/-- The entry leaves with its first envelope if it is filed under the Send Message command still. -/
theorem Bridged.lost (h : Bridged K s a b e es inner) (hne : es ≠ [])
    (hkeeps : (peel e).req.cmd = 0x34) : ¬ Unwrapped K s a b e inner := by
  obtain ⟨m, es, rfl⟩ := List.exists_cons_of_ne_nil hne
  obtain ⟨r, o, rest, hbytes, hfit, hpoll⟩ := pollSingle_delivered h.delivered
  obtain ⟨hmseq, hmcmd, hmcc⟩ := h.envelopes m (List.mem_cons_self ..)
  have hlevel : e.bridgingLevel = es.length + 1 := h.level
  obtain ⟨fuel, hfuel⟩ : ∃ fuel, rounds s.reqEntries = fuel + 1 + 1 := by
    have := rounds_ge a b e
    rw [h.entries]
    exact ⟨rounds (a ++ e :: b) - 2, by omega⟩
  have hinside : nest es inner ≠ [] := by
    have := length_nest es inner
    intro hnil
    rw [hnil, List.length_nil] at this
    omega
  obtain ⟨r1, hr1, hround⟩ := peel_round (n := fuel + 1) (m := { m with data := nest es inner })
    h.outstanding hbytes hfit hmseq (hmcmd.trans h.filed.symm) (by omega) hmcc hinside
  -- what is inside is again a message with the number of the request
  obtain ⟨m', hm', hseq'⟩ : ∃ m' : Answer, nest es inner = m'.bytes ∧ m'.seq = e.rqSeq := by
    cases es with
    | nil => exact ⟨inner, rfl, h.seq⟩
    | cons x xs =>
      exact ⟨{ x with data := nest xs inner }, rfl,
        (h.envelopes x (List.mem_cons_of_mem _ (List.mem_cons_self ..))).1⟩
  have hr1 : Holds r1.data 0 (nest es inner) := hr1
  rw [hm'] at hr1
  obtain ⟨r2, hmiss⟩ := missing_round (n := fuel) h.outstanding hr1 hseq' 0
    (UInt16.ofNat (nest es inner).length)
  rw [if_pos (hkeeps.trans hmcmd.symm), hmiss] at hround
  have hrun := hpoll .again (a ++ b) r2 [.removed (peel e)] (by
    rw [hfuel, h.entries]
    exact hround)
  rintro ⟨s', e', hgot, -⟩
  rw [hrun] at hgot
  cases hgot

/-- **When a bridged answer is delivered**: in one envelope, and the command is not Send Message. -/
theorem unwrapped_iff (h : Bridged K s a b e es inner) (hes : es.length = 1 ∨ es.length = 2) :
    Unwrapped K s a b e inner ↔ es.length = 1 ∧ e.req.targetCmd ≠ 0x34 := by
  have hlevel := h.level
  constructor
  · intro hun
    by_contra hcond
    refine h.lost (by rintro rfl; simp at hes) ?_ hun
    rcases hes with hone | htwo
    · have htarget : e.req.targetCmd = 0x34 := by
        by_contra hne
        exact hcond ⟨hone, hne⟩
      simp [peel, hlevel, hone, htarget]
    · simp [peel, hlevel, htwo, h.filed]
  · rintro ⟨hone, htarget⟩
    exact h.unwrapped hone htarget

end

/-- An open session without authentication, with one bridged Get Device ID on the list and one
packet to come. -/
def waiting (e : Entry) (message : List UInt8) : St where
  intf :=
    { fd := 3, session := some { v2 := { sessionState := .active, consoleId := 0xa0a2a3a4 } } }
  net :=
    { inbox := [some (rmcpHdr ++ ([authtypeRmcpPlus, ptIpmi, 0xa4, 0xa3, 0xa2, 0xa0, 1, 0, 0, 0,
      UInt8.ofNat message.length, 0] : List UInt8) ++ message)] }
  reqEntries := [e]

/-- The entry of a Get Device ID in so many envelopes. -/
def deviceIdEntry (level : ℕ) : Entry :=
  { addr := 0, req := { netfn := netfnApp, lun := bmcLun, cmd := 0x34, targetCmd := 0x01, data := [], data_lt := no_data_lt },
    rqSeq := 1, bridgingLevel := level }

/-- The answer to a Send Message request. -/
def sendAnswer : Answer := ⟨0x81, 0x1c, 0x63, 0x20, 0x04, 0x34, 0, [], 0⟩

/-- The answer of the target to Get Device ID. -/
def deviceIdAnswer : Answer := ⟨0x81, 0x1c, 0x63, 0x72, 0x04, 0x01, 0, [0x20, 0x01], 0x68⟩

theorem bridged_deviceId {es : List Answer} (hes : es = [sendAnswer] ∨ es = [sendAnswer, sendAnswer]) :
    Bridged (Primitives.tabled []) (waiting (deviceIdEntry es.length) (nest es deviceIdAnswer)) [] []
      (deviceIdEntry es.length) es deviceIdAnswer := by
  rcases hes with rfl | rfl <;>
  exact {
    delivered := ⟨_, _, _, _, 16, rfl, ⟨by decide, by decide⟩, rfl, by decide, by decide, rfl, rfl,
      rfl, by decide⟩
    entries := rfl
    outstanding := ⟨by simp, by simp⟩
    filed := rfl
    level := rfl
    envelopes := by decide
    seq := by decide
    cmd := by decide }

/-- A Get Device ID through one bridge. -/
theorem unwrapped_iff_one :
    Unwrapped (Primitives.tabled [])
      (waiting (deviceIdEntry 1) (nest [sendAnswer] deviceIdAnswer)) [] [] (deviceIdEntry 1)
      deviceIdAnswer :=
  (unwrapped_iff (bridged_deviceId (.inl rfl)) (.inl rfl)).mpr ⟨rfl, by decide⟩

/-- A Get Device ID through two bridges: the answer is lost. -/
theorem twice_bridged_lost :
    Bridged (Primitives.tabled [])
      (waiting (deviceIdEntry 2) (nest [sendAnswer, sendAnswer] deviceIdAnswer)) [] []
      (deviceIdEntry 2) [sendAnswer, sendAnswer] deviceIdAnswer ∧
    ¬ Unwrapped (Primitives.tabled [])
      (waiting (deviceIdEntry 2) (nest [sendAnswer, sendAnswer] deviceIdAnswer)) [] []
      (deviceIdEntry 2) deviceIdAnswer := by
  have h := bridged_deviceId (.inr rfl)
  exact ⟨h, h.lost (by simp) rfl⟩

end Ipmitool.Lanplus.Unwrap
