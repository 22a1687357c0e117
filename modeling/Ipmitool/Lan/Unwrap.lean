import Ipmitool.Lan.Receive
import Ipmitool.Lanplus.Unwrap

/-! # Unwrapping bridged answers in the IPMI 1.5 transport

`pollRecv` takes an envelope out of the packet in its buffer, gives the entry the number of the
answer inside and looks at the packet again, as if it had come without the envelope. `Waits`
describes the buffer and the entry between two rounds, for any number of envelopes that are left;
`peel_step` and `last_step` are the two kinds of rounds, and `pollLoop_unwraps` is their induction.

`bridged_as_unbridged` compares two runs: the answer in its envelopes, and the same answer received
without. -/

namespace Ipmitool.Lan.Unwrap

open Ipmitool.Lib.Mem Ipmitool.Lib.Bytes Ipmitool.Lib.Machine Ipmitool.Core.Types
open Ipmitool.Core.Network Ipmitool.Lanplus.State Ipmitool.Lanplus.Receive Ipmitool.Lanplus.Unwrap
open Ipmitool.Lan.Receive

/-! ### Packets -/

/-- The bytes in front of the message length: those of an IPMI packet that is no serial-over-LAN
packet, with an authcode if the session calls for one. -/
structure Header (session : Session) (head : List UInt8) : Prop where
  ipmi : head.getD 3 0 = rmcpClassIpmi
  other : ofLe32 (head.getD 9 0) (head.getD 10 0) (head.getD 11 0) (head.getD 12 0) ≠
    session.sessionId + 0x10000000
  length : head.length =
    if session.active = true ∧ (head.getD 4 0 ≠ 0 ∨ session.authtype ≠ 0) then 29 else 13

/-- A packet: the header, the message length and the message. -/
def packet (head : List UInt8) (n : UInt8) (message : List UInt8) : List UInt8 :=
  head ++ [n] ++ message

theorem Header.length_ge {session : Session} {head : List UInt8} (h : Header session head) :
    13 ≤ head.length := by
  rw [h.length]
  split_ifs <;> omega

/-- The response buffer holds a packet with the message `message`. -/
structure Carries (r : Response) (head message : List UInt8) : Prop where
  start : Holds r.data 0 head
  rest : Holds r.data (head.length + 1) message
  size : r.dataLen = head.length + 1 + message.length

theorem carries_receive (r : Response) (head : List UInt8) (n : UInt8) (message : List UInt8) :
    Carries (Response.receive r (packet head n message)) head message := by
  have h : Holds (write r.data 0 (head ++ [n] ++ message ++ [0])) 0
      (head ++ [n] ++ message ++ [0]) := holds_write _ _ _
  simp only [holds_append, List.length_append, List.length_singleton, Nat.zero_add] at h
  refine ⟨h.1.1.1, h.1.2, ?_⟩
  simp only [Response.receive, packet, List.length_append, List.length_singleton]
  push_cast
  rfl

theorem Carries.head {r : Response} {head message : List UInt8} (h : Carries r head message) {i : ℕ}
    (hi : i < head.length) : r.data i = head.getD i 0 := by
  have := h.start.getElem hi
  rw [Nat.zero_add] at this
  rw [this, List.getD_eq_getElem?_getD, List.getElem?_eq_getElem hi, Option.getD_some]

/-! ### Entries -/

/-- No entry of `a` is mistaken for one of these messages. -/
def Passed (a : List Entry) (ms : List Answer) : Prop :=
  ∀ x ∈ a, ∀ m ∈ ms, Entry.hasKey m.seq m.cmd x = false

section
variable {a b : List Entry} {e : Entry} {m : Answer}

theorem lookup_behind (ha : ∀ x ∈ a, Entry.hasKey m.seq m.cmd x = false)
    (he : Entry.hasKey m.seq m.cmd e = true) :
    reqLookupEntry (a ++ e :: b) m.seq m.cmd = some e := by
  have hnone : a.find? (Entry.hasKey m.seq m.cmd) = none :=
    List.find?_eq_none.mpr fun x hx => by simp [ha x hx]
  rw [reqLookupEntry, List.find?_append, hnone, Option.none_or, List.find?_cons_of_pos he]

theorem remove_behind (ha : ∀ x ∈ a, Entry.hasKey m.seq m.cmd x = false)
    (he : Entry.hasKey m.seq m.cmd e = true) :
    reqRemoveEntry (a ++ e :: b) m.seq m.cmd = a ++ b := by
  rw [reqRemoveEntry, List.eraseP_append_right (e :: b) fun x hx => by simp [ha x hx],
    List.eraseP_cons_of_pos he]

end

/-- The first message of a nested answer. -/
def outermost (es : List Answer) (inner : Answer) : Answer :=
  match es with
  | [] => inner
  | m :: es => { m with data := nest es inner }

theorem nest_eq (es : List Answer) (inner : Answer) :
    nest es inner = (outermost es inner).bytes := by
  cases es <;> rfl

/-- **Between two rounds**: the answer `inner` is still in the envelopes `es`. The entry `e` is
behind the entries `a`, filed under the number of the next message; the envelopes are Send Message
answers. -/
structure Waits (s : St) (ss : Session) (head : List UInt8) (a b : List Entry) (e : Entry)
    (es : List Answer) (inner : Answer) : Prop where
  opened : s.intf.session = some ss
  header : Header ss head
  carries : Carries s.recvRsp head (nest es inner)
  entries : s.reqEntries = a ++ e :: b
  passed : Passed a (es ++ [inner])
  addr : ∀ x ∈ a ++ b, x.addr ≠ e.addr
  level : e.bridgingLevel = es.length
  seq : e.rqSeq = (outermost es inner).seq
  cmd : e.req.cmd = (outermost es inner).cmd
  target : es ≠ [] → e.req.targetCmd = inner.cmd
  envelopes : ∀ m ∈ es, m.netfnLun >>> 2 = 7 ∧ m.cmd = 0x34
  bridged : es ≠ [] → s.intf.targetAddr ≠ s.intf.ourAddress.toUInt32 ∧ s.bridgePossible = true

section
variable {s : St} {ss : Session} {head : List UInt8} {a b : List Entry} {e : Entry}
  {es : List Answer} {inner : Answer}

/-- The response after the headers of the packet have been read. -/
def readHeaders (r : Response) (x : ℕ) : Response :=
  readIpmiResponse (readPayloadHeader (readSessionHeader r) ptIpmi x) (x + 1)

theorem Waits.hasKey (h : Waits s ss head a b e es inner) :
    Entry.hasKey (outermost es inner).seq (outermost es inner).cmd e = true := by
  simp [Entry.hasKey, h.seq, h.cmd]

theorem Waits.passed_outermost (h : Waits s ss head a b e es inner) :
    ∀ x ∈ a, Entry.hasKey (outermost es inner).seq (outermost es inner).cmd x = false := by
  intro x hx
  cases es with
  | nil => exact h.passed x hx inner (by simp)
  | cons m es => exact h.passed x hx m (by simp)

theorem Waits.data (h : Waits s ss head a b e es inner) {i : ℕ} (hi : i < 13) :
    s.recvRsp.data i = head.getD i 0 := by
  have hge := h.header.length_ge
  exact h.carries.head (by omega)

theorem Waits.fields (h : Waits s ss head a b e es inner) :
    (readHeaders s.recvRsp head.length).rqSeq = (outermost es inner).seq ∧
      (readHeaders s.recvRsp head.length).cmd = (outermost es inner).cmd ∧
      (readHeaders s.recvRsp head.length).ccode = (outermost es inner).ccode ∧
      (readHeaders s.recvRsp head.length).netfn = (outermost es inner).netfnLun >>> 2 := by
  have hmsg := h.carries.rest
  rw [nest_eq] at hmsg
  obtain ⟨hseq, hcmd, hcc, -, hnetfn⟩ := readIpmiResponse_holds
    (r := readPayloadHeader (readSessionHeader s.recvRsp) ptIpmi head.length) hmsg
  exact ⟨hseq, hcmd, hcc, hnetfn⟩

theorem Waits.lengthOffset_eq (h : Waits s ss head a b e es inner) :
    lengthOffset ss (readSessionHeader s.recvRsp) = head.length := by
  rw [lengthOffset, h.header.length]
  show (if ss.active = true ∧ (s.recvRsp.data 4 ≠ 0 ∨ ss.authtype ≠ 0) then 29 else 13) = _
  rw [h.data (by omega)]

theorem Waits.pollRound (h : Waits s ss head a b e es inner) {round : Round} {s' : St}
    (hround : messageRound ss (readSessionHeader s.recvRsp) s = .ok (round, s')) :
    pollRound s = .ok (round, s') := by
  have h3 : s.recvRsp.data 3 = rmcpClassIpmi := (h.data (by omega)).trans h.header.ipmi
  have hclass : ¬ rmcpClassIpmi = rmcpClassAsf := by decide
  have hid : ¬ (readSessionHeader s.recvRsp).session.id = ss.sessionId + 0x10000000 := by
    have hother := h.header.other
    rw [← h.data (by omega), ← h.data (by omega), ← h.data (by omega),
      ← h.data (by omega)] at hother
    exact hother
  refine bind_ok.mpr ⟨s, s, get_ok.mpr ⟨rfl, rfl⟩, ?_⟩
  dsimp only
  rw [h3, if_neg hclass, if_neg (not_not_intro rfl)]
  refine bind_ok.mpr ⟨ss, s, theSession_ok.mpr ⟨h.opened, rfl⟩, ?_⟩
  rw [if_neg hid]
  exact hround

/-- The state after the last round: the entry has left the list, and the header is still in front of
the data. -/
def answered (s : St) (head : List UInt8) (a b : List Entry) (e : Entry) : St :=
  { s with
    recvRsp := readHeaders s.recvRsp head.length
    reqEntries := a ++ b
    trace := s.trace ++ [.removed e] }

/-- **The last round.** -/
theorem last_step (h : Waits s ss head a b e [] inner) :
    pollRound s = .ok (.shifted (head.length + 8), answered s head a b e) := by
  obtain ⟨hseq, hcmd, -, -⟩ := h.fields
  have hlookup := lookup_behind (b := b) h.passed_outermost h.hasKey
  have hremove := remove_behind (b := b) h.passed_outermost h.hasKey
  have hlevel : e.bridgingLevel = 0 := h.level
  refine h.pollRound ?_
  unfold messageRound
  rw [h.lengthOffset_eq]
  refine bind_ok.mpr ⟨(), _, modify_ok.mpr rfl, bind_ok.mpr ⟨_, _, get_ok.mpr ⟨rfl, rfl⟩, ?_⟩⟩
  dsimp only
  rw [← readHeaders, hseq, hcmd, h.entries, hlookup]
  dsimp only
  rw [if_neg (fun hp => hp.2.1 hlevel)]
  refine bind_ok.mpr ⟨(), _, modify_ok.mpr rfl, pure_ok.mpr ⟨rfl, ?_⟩⟩
  simp only [answered, hlookup, hremove, Option.toList_some, List.map_cons, List.map_nil]

theorem shiftRsp_answered (h : Waits s ss head a b e [] inner) :
    (shiftRsp (answered s head a b e).recvRsp (head.length + 8)).ccode = inner.ccode ∧
      (shiftRsp (answered s head a b e).recvRsp (head.length + 8)).dataLen = inner.data.length ∧
      (shiftRsp (answered s head a b e).recvRsp (head.length + 8)).bytes = inner.data := by
  obtain ⟨-, -, hcc, -⟩ := h.fields
  set r := (answered s head a b e).recvRsp with hr
  have hlen : r.dataLen = head.length + 9 + inner.data.length := by
    have hsize := h.carries.size
    rw [nest, length_bytes] at hsize
    show s.recvRsp.dataLen = _
    rw [hsize]
    push_cast
    omega
  have hdata : Holds r.data (head.length + 8) inner.data := (holds_bytes h.carries.rest).2.2.2.2
  have hsize : r.dataLen - ((head.length + 8 : ℕ) : ℤ) - 1 = inner.data.length := by
    rw [hlen]
    push_cast
    omega
  have hlt : ((head.length + 8 : ℕ) : ℤ) < r.dataLen := by omega
  have htype : r.session.payloadtype = ptIpmi := rfl
  rw [shiftRsp, if_pos hlt, if_pos htype, hsize]
  refine ⟨hcc, rfl, ?_⟩
  have hmove : move r.data 0 (head.length + 8) inner.data.length = write r.data 0 inner.data := by
    rw [move, hdata]
  have hbehind : 0 + inner.data.length ≤ inner.data.length := by omega
  have hkeep := (holds_write r.data 0 inner.data).write_behind hbehind
    (List.replicate (bufSize - inner.data.length) 0)
  rw [← hmove] at hkeep
  exact hkeep

theorem unwrap_carries {r : Response} {message : List UInt8} {m : Answer}
    (h : Carries r head { m with data := message }.bytes) :
    Carries (unwrap r (head.length + 8)) head message := by
  have hsize := h.size
  rw [length_bytes] at hsize
  have hn : (r.dataLen - ((head.length + 8 : ℕ) : ℤ) - 1).toNat = message.length := by
    rw [hsize]
    push_cast
    omega
  have hinside : Holds r.data (head.length + 8) message := (holds_bytes h.rest).2.2.2.2
  have hmove : move r.data (head.length + 1) (head.length + 8) message.length =
      write r.data (head.length + 1) message := by rw [move, hinside]
  have hunwrap : unwrap r (head.length + 8) =
      { r with
        data := write (write r.data (head.length + 1) message) head.length
          [write r.data (head.length + 1) message head.length - 8]
        dataLen := r.dataLen - 8 } := by
    simp only [unwrap, hn, Nat.add_sub_cancel, Nat.reduceSubDiff, hmove]
  rw [hunwrap]
  refine ⟨?_, ?_, ?_⟩
  · exact (h.start.write_behind (by omega) message).write_behind (by omega) _
  · exact (holds_write r.data (head.length + 1) message).write_before (by simp)
  · show r.dataLen - 8 = _
    rw [hsize]
    push_cast
    omega

/-- **A round that takes an envelope out.** -/
theorem peel_step {m : Answer} (h : Waits s ss head a b e (m :: es) inner) :
    ∃ s' e', pollRound s = .ok (.again, s') ∧ Waits s' ss head a b e' es inner ∧
      s'.trace = s.trace ∧ s'.net = s.net := by
  obtain ⟨hseq, hcmd, -, hnetfn⟩ := h.fields
  have hlookup := lookup_behind (b := b) h.passed_outermost h.hasKey
  have hlevel : e.bridgingLevel = es.length + 1 := h.level
  obtain ⟨henv, hsend⟩ := h.envelopes m (List.mem_cons_self ..)
  obtain ⟨htarget, hbp⟩ := h.bridged (by simp)
  set r := readHeaders s.recvRsp head.length with hr
  have hcarries : Carries r head { m with data := nest es inner }.bytes :=
    ⟨h.carries.start, h.carries.rest, h.carries.size⟩
  have hunwrapped := unwrap_carries hcarries
  have hsize := hcarries.size
  rw [length_bytes] at hsize
  have hlen := length_nest es inner
  -- the number of the answer inside
  have hnext : (unwrap r (head.length + 8)).data (head.length + 8 - 3) >>> 2 =
      (outermost es inner).seq := by
    have hrest := hunwrapped.rest
    rw [nest_eq] at hrest
    have h4 := (holds_bytes hrest).2.1
    rw [Answer.seq, ← h4]
    rfl
  let e' := peelAs e (outermost es inner).seq
  refine ⟨{ s with recvRsp := unwrap r (head.length + 8), reqEntries := a ++ e' :: b }, e',
    ?_, ?_, rfl, rfl⟩
  · refine h.pollRound ?_
    unfold messageRound
    rw [h.lengthOffset_eq]
    refine bind_ok.mpr ⟨(), _, modify_ok.mpr rfl, bind_ok.mpr ⟨_, _, get_ok.mpr ⟨rfl, rfl⟩, ?_⟩⟩
    dsimp only
    rw [← readHeaders, ← hr, hseq, hcmd, h.entries, hlookup]
    dsimp only
    rw [if_pos ⟨⟨htarget, hbp⟩, by omega, hnetfn.trans henv, hsend⟩, peelRound, if_neg (by
      rw [hsize]; push_cast; simp only [hlen]; omega), if_neg (by
      rw [hsize]; push_cast; simp only [hlen]; omega)]
    refine bind_ok.mpr ⟨(), _, modify_ok.mpr rfl, bind_ok.mpr ⟨(), _, modify_ok.mpr rfl, ?_⟩⟩
    refine pure_ok.mpr ⟨rfl, ?_⟩
    have hupdate : updateEntry (a ++ e :: b) e' = a ++ e' :: b := update_middle h.addr rfl
    simp only [hnext]
    rw [hupdate]
  · refine
      { opened := h.opened
        header := h.header
        carries := hunwrapped
        entries := rfl
        passed := fun x hx m' hm' => h.passed x hx m' (List.mem_cons_of_mem m hm')
        addr := h.addr
        level := ?_
        seq := rfl
        cmd := ?_
        target := fun _ => ?_
        envelopes := fun m' hm' => h.envelopes m' (List.mem_cons_of_mem m hm')
        bridged := fun _ => h.bridged (by simp) }
    · show e.bridgingLevel - 1 = es.length
      omega
    · cases es with
      | nil =>
        have htgt : e.req.targetCmd = inner.cmd := h.target (by simp)
        have hlvl : e.bridgingLevel = 1 := hlevel
        simp [e', peelAs, peel, hlvl, htgt, outermost]
      | cons m' es' =>
        have hlvl : e.bridgingLevel - 1 ≠ 0 := by
          rw [hlevel, List.length_cons]
          omega
        have hcmd' := (h.envelopes m' (by simp)).2
        have hfiled : e.req.cmd = m.cmd := h.cmd
        simp [e', peelAs, peel, hlvl, outermost, hcmd', hfiled, hsend]
    · have htgt := h.target (by simp)
      show (peel e).req.targetCmd = inner.cmd
      rw [← htgt]
      unfold peel
      dsimp only
      split_ifs <;> rfl

/-- The response in the buffer is the answer of the target. -/
def Returns (s : St) (inner : Answer) : Prop :=
  s.recvRsp.ccode = inner.ccode ∧ s.recvRsp.dataLen = inner.data.length ∧
    s.recvRsp.bytes = inner.data

/-- **All envelopes are taken out, and the answer inside is returned.** -/
theorem pollLoop_unwraps : ∀ {es : List Answer} {s : St} {e : Entry} {fuel : ℕ}, es.length < fuel →
    Waits s ss head a b e es inner →
      ∃ s', pollLoop fuel s = .ok (true, s') ∧ Returns s' inner ∧ s'.reqEntries = a ++ b
  | _, _, _, 0, hfuel, _ => absurd hfuel (Nat.not_lt_zero _)
  | [], s, e, fuel + 1, _, h => by
    refine ⟨{ answered s head a b e with
      recvRsp := shiftRsp (answered s head a b e).recvRsp (head.length + 8) },
      bind_ok.mpr ⟨_, _, last_step h, ?_⟩, shiftRsp_answered h, rfl⟩
    exact bind_ok.mpr ⟨(), _, modify_ok.mpr rfl, pure_ok.mpr ⟨rfl, rfl⟩⟩
  | m :: es, s, e, fuel + 1, hfuel, h => by
    obtain ⟨s1, e1, hround, h1, -, -⟩ := peel_step h
    have hless : es.length < fuel := by
      rw [List.length_cons] at hfuel
      omega
    obtain ⟨s', hloop, hret, hentries⟩ := pollLoop_unwraps hless h1
    exact ⟨s', bind_ok.mpr ⟨_, _, hround, hloop⟩, hret, hentries⟩

end

/-! ### Bridged and unbridged -/

/-- **The answer `inner` arrives in the envelopes `es`** for the entry `e`, in the next packet. The
envelopes are Send Message answers, the first of them to this request; without envelopes the entry
is that of an unbridged request. No entry in front of `e` has the key of one of these messages. -/
structure Arrives (s : St) (a b : List Entry) (e : Entry) (es : List Answer)
    (inner : Answer) : Prop where
  packet : ∃ ss head n rest, s.intf.session = some ss ∧ Header ss head ∧ ValidFd s.intf.fd ∧
    s.net.inbox = some (packet head n (nest es inner)) :: rest ∧
    (packet head n (nest es inner)).length < bufSize
  entries : s.reqEntries = a ++ e :: b
  passed : Passed a (es ++ [inner])
  addr : ∀ x ∈ a ++ b, x.addr ≠ e.addr
  level : e.bridgingLevel = es.length
  seq : e.rqSeq = (outermost es inner).seq
  cmd : e.req.cmd = (outermost es inner).cmd
  target : es ≠ [] → e.req.targetCmd = inner.cmd
  envelopes : ∀ m ∈ es, m.netfnLun >>> 2 = 7 ∧ m.cmd = 0x34
  bridged : es ≠ [] → s.intf.targetAddr ≠ s.intf.ourAddress.toUInt32 ∧ s.bridgePossible = true

section
variable {s t : St} {a b : List Entry} {e : Entry} {es : List Answer} {inner : Answer}

theorem Arrives.pollRecv (h : Arrives s a b e es inner) :
    ∃ s', pollRecv s = .ok (true, s') ∧ Returns s' inner ∧ s'.reqEntries = a ++ b := by
  obtain ⟨ss, head, n, rest, hss, hhead, hfd, hin, hlen⟩ := h.packet
  have hne : Unwrap.packet head n (nest es inner) ≠ [] := by simp [Unwrap.packet]
  have hrecv := recvPacket_delivers hfd hin hne hlen
  have hfuel : es.length < rest.length + rounds s.reqEntries := by
    have := rounds_ge a b e
    rw [h.entries, ← h.level]
    omega
  obtain ⟨s', hloop, hret, hentries⟩ := pollLoop_unwraps hfuel
    { opened := hss
      header := hhead
      carries := carries_receive s.recvRsp head n (nest es inner)
      entries := h.entries
      passed := h.passed
      addr := h.addr
      level := h.level
      seq := h.seq
      cmd := h.cmd
      target := h.target
      envelopes := h.envelopes
      bridged := h.bridged : Waits { s with
        net := { s.net with inbox := rest }
        recvRsp := Response.receive s.recvRsp (Unwrap.packet head n (nest es inner)) }
          ss head a b e es inner }
  refine ⟨s', ?_, hret, hentries⟩
  refine bind_ok.mpr ⟨true, _, hrecv, bind_ok.mpr ⟨_, _, get_ok.mpr ⟨rfl, rfl⟩, ?_⟩⟩
  exact hloop

/-- **Bridged answers are fully unwrapped**: `pollRecv` returns what it returns when the same answer
arrives without envelopes, in any state that waits for it. -/
theorem bridged_as_unbridged {a' b' : List Entry} {u : Entry} (hs : Arrives s a b e es inner)
    (ht : Arrives t a' b' u [] inner) :
    ∃ s' t', pollRecv s = .ok (true, s') ∧ pollRecv t = .ok (true, t') ∧
      s'.recvRsp.ccode = t'.recvRsp.ccode ∧ s'.recvRsp.dataLen = t'.recvRsp.dataLen ∧
      s'.recvRsp.bytes = t'.recvRsp.bytes ∧ s'.reqEntries = a ++ b := by
  obtain ⟨s', hps, ⟨hcc, hlen, hbytes⟩, hentries⟩ := hs.pollRecv
  obtain ⟨t', hpt, ⟨hcc', hlen', hbytes'⟩, -⟩ := ht.pollRecv
  exact ⟨s', t', hps, hpt, hcc.trans hcc'.symm, hlen.trans hlen'.symm, hbytes.trans hbytes'.symm,
    hentries⟩

end

/-- A session that waits for the answer to a Get Device ID, in a packet without authcode. -/
def waiting (e : Entry) (message : List UInt8) : St where
  intf := { fd := 3, session := some {}, myAddr := 0x20, targetAddr := 0x72, transitAddr := 0x82 }
  net := { inbox := [some (packet (rmcpHdr ++ [0, 1, 0, 0, 0, 2, 0, 0, 0])
    (UInt8.ofNat message.length) message)] }
  reqEntries := [e]
  bridgePossible := true

/-- The same request without envelopes. -/
def plainEntry : Entry :=
  { addr := 0, req := { netfn := netfnApp, lun := bmcLun, cmd := 0x01, data := [], data_lt := no_data_lt }, rqSeq := 1 }

theorem header_waiting : Header {} (rmcpHdr ++ [0, 1, 0, 0, 0, 2, 0, 0, 0]) :=
  ⟨by decide, by decide, by decide⟩

/-- A Get Device ID through two bridges. -/
theorem bridged_as_unbridged_twice :
    let es := [sendAnswer, sendAnswer]
    ∃ s' t', pollRecv (waiting (deviceIdEntry 2) (nest es deviceIdAnswer)) = .ok (true, s') ∧
      pollRecv (waiting plainEntry deviceIdAnswer.bytes) = .ok (true, t') ∧
      s'.recvRsp.ccode = t'.recvRsp.ccode ∧ s'.recvRsp.dataLen = t'.recvRsp.dataLen ∧
      s'.recvRsp.bytes = t'.recvRsp.bytes ∧ s'.reqEntries = [] := by
  intro es
  have hs : Arrives (waiting (deviceIdEntry 2) (nest es deviceIdAnswer)) [] [] (deviceIdEntry 2) es
      deviceIdAnswer :=
    { packet := ⟨{}, _, _, [], rfl, header_waiting, ⟨by decide, by decide⟩, rfl, by decide⟩
      entries := rfl
      passed := by simp [Passed]
      addr := by simp
      level := rfl
      seq := by decide
      cmd := by decide
      target := fun _ => rfl
      envelopes := by decide
      bridged := fun _ => ⟨by decide, rfl⟩ }
  have ht : Arrives (waiting plainEntry deviceIdAnswer.bytes) [] [] plainEntry [] deviceIdAnswer :=
    { packet := ⟨{}, _, _, [], rfl, header_waiting, ⟨by decide, by decide⟩, rfl, by decide⟩
      entries := rfl
      passed := by simp [Passed]
      addr := by simp
      level := rfl
      seq := by decide
      cmd := by decide
      target := fun h => absurd rfl h
      envelopes := by simp
      bridged := fun h => absurd rfl h }
  exact bridged_as_unbridged hs ht

end Ipmitool.Lan.Unwrap
