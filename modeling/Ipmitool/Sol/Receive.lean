import Ipmitool.Lan.Send

/-! # Serial over LAN: characters that were seen before

A packet that repeats the number of the last one may carry more characters.
`checkSolPacketForNewData` keeps the number and the length of the last packet and moves the
characters behind that length to the front of the buffer. It is the same function in both transports
but for the test of the packet type (`Receiver`).

`fresh` says which characters of a packet are new, given the last packet with a number;
`Receiver.Plain.checks` is what the code leaves, and `leaves_fresh_iff` when that is `fresh`: the
remembered length has eight bits, and a repetition that is shorter than what it repeats leaves a
negative length. -/

namespace Ipmitool.Sol.Receive

open Ipmitool.Lib.Mem Ipmitool.Lib.Machine Ipmitool.Core.Types Ipmitool.Lanplus.State

/-! ### The receivers -/

/-- What the two transports have: the test of the packet type and the check. -/
structure Receiver where
  isSol : Response → Bool
  check : M Unit

def lanplus : Receiver :=
  ⟨Ipmitool.Lanplus.Send.isSolPacket, Ipmitool.Lanplus.Send.checkSolPacketForNewData⟩

def lan : Receiver := ⟨Ipmitool.Lan.Send.isSolPacket, Ipmitool.Lan.Send.checkSolPacketForNewData⟩

/-- A serial-over-LAN packet of the other side: its number and its characters. -/
structure Incoming where
  seq : UInt8
  data : List UInt8
  deriving DecidableEq

/-- The response carries the packet. -/
def Receiver.Carries (T : Receiver) (r : Response) (p : Incoming) : Prop :=
  T.isSol r = true ∧ r.solSeq = p.seq ∧ r.dataLen = p.data.length ∧ Holds r.data 0 p.data

/-- The two counters: the number and the length of the last packet. -/
def counters (s : St) : UInt8 × UInt8 :=
  (s.solLastReceivedSequenceNumber, s.solLastReceivedByteCount)

/-- The counters after a packet: one without a number is not remembered. -/
def count (c : UInt8 × UInt8) (p : Incoming) : UInt8 × UInt8 :=
  if p.seq = 0 then c else (p.seq, UInt8.ofNat (p.data.length % 256))

/-- The length that is left: negative if the repetition is shorter than what was remembered. -/
def leftLength (c : UInt8 × UInt8) (p : Incoming) : ℤ :=
  if p.seq = c.1 then (p.data.length : ℤ) - c.2.toNat else p.data.length

/-- The characters that are left. -/
def leftData (c : UInt8 × UInt8) (p : Incoming) : List UInt8 :=
  if p.seq = c.1 then p.data.drop c.2.toNat else p.data

/-- What is left of a packet in the response. -/
structure Leaves (c : UInt8 × UInt8) (p : Incoming) (r : Response) : Prop where
  length : r.dataLen = leftLength c p
  bytes : r.bytes = leftData c p

/-- The response without the first characters. -/
def trim (n : UInt8) (r : Response) : Response :=
  let size := r.dataLen - n.toNat
  { r with
    data := if 0 < size then move r.data 0 (r.dataLen - size).toNat size.toNat else r.data
    dataLen := size }

theorem holds_bytes {r : Response} {l : List UInt8} (hlen : r.dataLen = l.length)
    (hdata : Holds r.data 0 l) : r.bytes = l := by
  unfold Response.bytes
  rw [hlen, Int.toNat_natCast]
  exact hdata

theorem trim_bytes {r : Response} {l : List UInt8} (n : UInt8) (hlen : r.dataLen = l.length)
    (hdata : Holds r.data 0 l) : (trim n r).bytes = l.drop n.toNat := by
  unfold Response.bytes trim
  dsimp only
  by_cases hpos : 0 < r.dataLen - n.toNat
  · have hsize : (r.dataLen - n.toNat).toNat = l.length - n.toNat := by omega
    have hsrc : (r.dataLen - (r.dataLen - n.toNat)).toNat = n.toNat := by omega
    rw [if_pos hpos, hsize, hsrc, move]
    have hmoved := read_write r.data 0 (read r.data n.toNat (l.length - n.toNat))
    rw [length_read] at hmoved
    rw [hmoved]
    -- the cells behind the first `n` of a held list
    refine List.ext_getElem (by simp) fun i h1 h2 => ?_
    rw [getElem_read, List.getElem_drop]
    have hi : n.toNat + i < l.length := by simp at h1; omega
    have := hdata.getElem hi
    rwa [Nat.zero_add] at this
  · rw [if_neg hpos, Int.toNat_of_nonpos (by omega), List.drop_eq_nil_of_le (by omega)]
    rfl

/-- What both checks do with a packet in the response. -/
def afterCheck (s : St) : St :=
  { s with
    recvRsp := if s.recvRsp.solSeq = s.solLastReceivedSequenceNumber then
      trim s.solLastReceivedByteCount s.recvRsp else s.recvRsp
    solLastReceivedSequenceNumber :=
      if s.recvRsp.solSeq = 0 then s.solLastReceivedSequenceNumber else s.recvRsp.solSeq
    solLastReceivedByteCount :=
      if s.recvRsp.solSeq = 0 then s.solLastReceivedByteCount
      else UInt8.ofNat (s.recvRsp.dataLen % 256).toNat }

/-- A receiver whose check is that. -/
def Receiver.Plain (T : Receiver) : Prop :=
  T.check = modify fun s => if T.isSol s.recvRsp then afterCheck s else s

theorem plain_lanplus : lanplus.Plain := by
  unfold Receiver.Plain lanplus Ipmitool.Lanplus.Send.checkSolPacketForNewData
  refine congrArg modify (funext fun s => ?_)
  by_cases hsol : Ipmitool.Lanplus.Send.isSolPacket s.recvRsp = true
  · by_cases h0 : s.recvRsp.solSeq = 0
    · simp only [hsol, h0, ne_eq, not_true_eq_false, if_true, if_false, afterCheck, trim]
    · simp only [hsol, h0, ne_eq, not_false_iff, if_true, if_false, afterCheck, trim]
  · simp only [hsol, if_false, Bool.false_eq_true]

theorem plain_lan : lan.Plain := by
  unfold Receiver.Plain lan Ipmitool.Lan.Send.checkSolPacketForNewData
  refine congrArg modify (funext fun s => ?_)
  by_cases hsol : Ipmitool.Lan.Send.isSolPacket s.recvRsp = true
  · by_cases h0 : s.recvRsp.solSeq = 0
    · simp only [hsol, h0, ne_eq, not_true_eq_false, if_true, if_false, afterCheck, trim]
    · simp only [hsol, h0, ne_eq, not_false_iff, if_true, if_false, afterCheck, trim]
  · simp only [hsol, if_false, Bool.false_eq_true]

section
variable {T : Receiver} {s t : St} {p : Incoming}

/-- **What the check does** with a packet: it counts it, and leaves the rest of it. -/
theorem Receiver.Plain.checks (hT : T.Plain) (hp : T.Carries s.recvRsp p)
    (h : T.check s = .ok ((), t)) :
    counters t = count (counters s) p ∧ Leaves (counters s) p t.recvRsp := by
  obtain ⟨hsol, hseq, hlen, hdata⟩ := hp
  rw [hT] at h
  have ht := modify_ok.mp h
  rw [if_pos hsol] at ht
  subst ht
  refine ⟨?_, ?_, ?_⟩
  · unfold counters afterCheck count
    rw [hseq, hlen]
    by_cases h0 : p.seq = 0
    · simp only [h0, if_true]
    · simp only [h0, if_false]
      congr 2
  · unfold afterCheck leftLength counters
    rw [hseq]
    by_cases hlast : p.seq = s.solLastReceivedSequenceNumber
    · rw [if_pos hlast, if_pos hlast, ← hlen]
      rfl
    · rw [if_neg hlast, if_neg hlast, hlen]
  · unfold afterCheck leftData counters
    rw [hseq]
    by_cases hlast : p.seq = s.solLastReceivedSequenceNumber
    · rw [if_pos hlast, if_pos hlast]
      exact trim_bytes _ hlen hdata
    · rw [if_neg hlast, if_neg hlast]
      exact holds_bytes hlen hdata

end

/-! ### Which characters are new -/

/-- The last packet with a number, after one more packet. -/
def remember (seen : Option Incoming) (p : Incoming) : Option Incoming :=
  if p.seq = 0 then seen else some p

/-- The characters of a packet that are new: those behind the characters of the packet that it
repeats. -/
def fresh (seen : Option Incoming) (p : Incoming) : List UInt8 :=
  match seen with
  | some q => if p.seq = q.seq then p.data.drop q.data.length else p.data
  | none => p.data

/-- The counters that go with the last packet. -/
def countersOf : Option Incoming → UInt8 × UInt8
  | some q => (q.seq, UInt8.ofNat (q.data.length % 256))
  | none => (0, 0)

/-- The packet repeats none, or it can be told apart by the eight bits of the length of the packet
that it repeats: that one has at most 255 characters and the repetition no fewer, or the repetition
has exactly as many as these bits say. -/
def Countable (seen : Option Incoming) (p : Incoming) : Prop :=
  ∀ q, seen = some q → p.seq = q.seq →
    (q.data.length ≤ p.data.length ∧ q.data.length ≤ 255) ∨ p.data.length = q.data.length % 256

/-- The length that is left is that of the new characters, and they are what is left. -/
def LeavesFresh (seen : Option Incoming) (p : Incoming) (r : Response) : Prop :=
  0 ≤ r.dataLen ∧ r.dataLen = (fresh seen p).length ∧ r.bytes = fresh seen p

theorem count_countersOf (seen : Option Incoming) (p : Incoming) :
    count (countersOf seen) p = countersOf (remember seen p) := by
  unfold count remember
  by_cases h0 : p.seq = 0
  · rw [if_pos h0, if_pos h0]
  · rw [if_neg h0, if_neg h0]
    rfl

/-- **One packet**: the new characters are left exactly if the packet is countable. -/
theorem leaves_fresh_iff {seen : Option Incoming} {p : Incoming} {r : Response}
    (h : Leaves (countersOf seen) p r) : LeavesFresh seen p r ↔ Countable seen p := by
  obtain ⟨hlen, hbytes⟩ := h
  rcases seen with _ | q
  · have hleft : leftLength (0, 0) p = p.data.length ∧ leftData (0, 0) p = p.data := by
      unfold leftLength leftData
      split_ifs <;> simp
    rw [countersOf, hleft.1] at hlen
    rw [countersOf, hleft.2] at hbytes
    refine ⟨fun _ q hq => (by cases hq), fun _ => ⟨?_, hlen, hbytes⟩⟩
    rw [hlen]
    exact Int.natCast_nonneg _
  · have hmod : (UInt8.ofNat (q.data.length % 256)).toNat = q.data.length % 256 := by
      rw [UInt8.toNat_ofNat']
      omega
    by_cases hrep : p.seq = q.seq
    · rw [countersOf, leftLength, if_pos hrep, hmod] at hlen
      rw [countersOf, leftData, if_pos hrep, hmod] at hbytes
      have hfresh : fresh (some q) p = p.data.drop q.data.length := if_pos hrep
      constructor
      · rintro ⟨-, hleft, -⟩ q' hq' -
        obtain rfl := Option.some.inj hq'
        rw [hlen, hfresh, List.length_drop] at hleft
        omega
      · intro hc
        have hq := hc q rfl hrep
        have hdrop : p.data.drop (q.data.length % 256) = p.data.drop q.data.length := by
          rcases hq with ⟨hle, h255⟩ | hq
          · rw [Nat.mod_eq_of_lt (by omega)]
          · rw [List.drop_eq_nil_of_le (by omega), List.drop_eq_nil_of_le]
            have := Nat.mod_le q.data.length 256
            omega
        refine ⟨?_, ?_, ?_⟩
        · omega
        · rw [hlen, hfresh, List.length_drop]
          omega
        · rw [hbytes, hfresh, hdrop]
    · rw [countersOf, leftLength, if_neg hrep] at hlen
      rw [countersOf, leftData, if_neg hrep] at hbytes
      have hfresh : fresh (some q) p = p.data := if_neg hrep
      refine ⟨fun _ q' hq' h => ?_,
        fun _ => ⟨by omega, by rw [hlen, hfresh], by rw [hbytes, hfresh]⟩⟩
      obtain rfl := Option.some.inj hq'
      exact absurd h hrep

/-! ### Runs -/

/-- A run of the check over packets, with what it leaves of each. Between two packets the transport
does other things, which leave the counters alone. -/
inductive Runs (T : Receiver) : UInt8 × UInt8 → List (Incoming × Response) → Prop
  | nil (c : UInt8 × UInt8) : Runs T c []
  | cons {s t : St} {p : Incoming} {out : List (Incoming × Response)} (hp : T.Carries s.recvRsp p)
      (h : T.check s = .ok ((), t)) (hrest : Runs T (counters t) out) :
      Runs T (counters s) ((p, t.recvRsp) :: out)

/-- A property of every packet of a run, given the last packet with a number before it. -/
def Throughout (P : Option Incoming → Incoming → Response → Prop) :
    Option Incoming → List (Incoming × Response) → Prop
  | _, [] => True
  | seen, (p, r) :: out => P seen p r ∧ Throughout P (remember seen p) out

/-- The characters that the packets of a run let through. -/
def delivered (out : List (Incoming × Response)) : List UInt8 :=
  (out.map fun x => x.2.bytes).flatten

/-- The characters of the last number, when a packet begins another one. -/
def finished (seen : Option Incoming) (p : Incoming) : List UInt8 :=
  match seen with
  | some q => if p.seq = q.seq then [] else q.data
  | none => []

/-- The stream of the other side: of each number the characters of its last packet, in order. A
packet without a number carries none. -/
def stream : List Incoming → Option Incoming → List UInt8
  | [], seen => seen.elim [] Incoming.data
  | p :: ps, seen => if p.seq = 0 then stream ps seen else finished seen p ++ stream ps (some p)

/-- The packets of an orderly sender: at most 255 characters, none without a number, and a
repetition extends what it repeats. -/
def Orderly (seen : Option Incoming) (p : Incoming) : Prop :=
  p.data.length ≤ 255 ∧ (p.seq = 0 → p.data = []) ∧
    ∀ q, seen = some q → p.seq = q.seq → q.data <+: p.data

section
variable {T : Receiver}

/-- **Every packet of a run** leaves its new characters exactly if every packet is countable. -/
theorem Runs.fresh_iff (hT : T.Plain) {c : UInt8 × UInt8} {out : List (Incoming × Response)}
    (h : Runs T c out) : ∀ {seen}, c = countersOf seen →
      (Throughout LeavesFresh seen out ↔ Throughout
        (fun seen p _ => Countable seen p) seen out) := by
  induction h with
  | nil c => exact fun _ => Iff.rfl
  | @cons s t p out hp hcheck hrest ih =>
    intro seen hc
    obtain ⟨hcount, hleaves⟩ := hT.checks hp hcheck
    rw [hc] at hcount hleaves
    rw [count_countersOf] at hcount
    exact and_congr (leaves_fresh_iff hleaves) (ih hcount)

theorem Orderly.countable {seen : Option Incoming} {p : Incoming} (h : Orderly seen p)
    (hseen : ∀ q, seen = some q → q.data.length ≤ 255) : Countable seen p := by
  intro q hq hrep
  exact .inl ⟨(h.2.2 q hq hrep).length_le, hseen q hq⟩

theorem orderly_countable : ∀ {out : List (Incoming × Response)} {seen : Option Incoming},
    (∀ q, seen = some q → q.data.length ≤ 255) →
      Throughout (fun seen p _ => Orderly seen p) seen out →
      Throughout (fun seen p _ => Countable seen p) seen out
  | [], _, _, _ => trivial
  | (p, _) :: out, seen, hseen, h => by
    refine ⟨h.1.countable hseen, orderly_countable (fun q hq => ?_) h.2⟩
    unfold remember at hq
    by_cases h0 : p.seq = 0
    · rw [if_pos h0] at hq
      exact hseen q hq
    · rw [if_neg h0] at hq
      rw [← Option.some.inj hq]
      exact h.1.1

/-- What was let through before, and what a run of new characters adds, is the stream. -/
theorem stream_eq : ∀ {out : List (Incoming × Response)} {seen : Option Incoming},
    Throughout LeavesFresh seen out → Throughout (fun seen p _ => Orderly seen p) seen out →
      (seen.elim [] Incoming.data) ++ delivered out = stream (out.map Prod.fst) seen
  | [], seen, _, _ => by simp [delivered, stream]
  | (p, r) :: out, seen, hfresh, horderly => by
    obtain ⟨⟨-, -, hbytes⟩, hfresh⟩ := hfresh
    obtain ⟨⟨-, hzero, hext⟩, horderly⟩ := horderly
    have ih := stream_eq hfresh horderly
    have hcons : delivered ((p, r) :: out) = fresh seen p ++ delivered out := by
      rw [← hbytes]
      rfl
    rw [hcons, List.map_cons, stream]
    unfold remember at ih
    by_cases h0 : p.seq = 0
    · rw [if_pos h0] at ih ⊢
      have hnone : fresh seen p = [] := by
        unfold fresh
        rw [hzero h0]
        split <;> simp
      rw [hnone, List.nil_append]
      exact ih
    · rw [if_neg h0] at ih ⊢
      rcases seen with _ | q
      · exact ih
      · by_cases hrep : p.seq = q.seq
        · have hfinished : finished (some q) p = [] := if_pos hrep
          rw [hfinished, List.nil_append, ← ih]
          obtain ⟨more, hmore⟩ := hext q rfl hrep
          have hdrop : fresh (some q) p = p.data.drop q.data.length := if_pos hrep
          have hnew : fresh (some q) p = more := by rw [hdrop, ← hmore, List.drop_left]
          rw [hnew, ← List.append_assoc]
          exact congrArg (· ++ delivered out) hmore
        · have hfinished : finished (some q) p = q.data := if_neg hrep
          rw [hfinished, ← ih]
          have hnew : fresh (some q) p = p.data := if_neg hrep
          rw [hnew]
          rfl

/-- What the check of a receiver comes to over a run from the start of the program: every packet
leaves its new characters, and nothing else, exactly if every packet is countable; and the packets
of an orderly sender let its stream through. -/
def Deduplicated (out : List (Incoming × Response)) : Prop :=
  (Throughout LeavesFresh none out ↔ Throughout (fun seen p _ => Countable seen p) none out) ∧
  (Throughout (fun seen p _ => Orderly seen p) none out →
    delivered out = stream (out.map Prod.fst) none)

theorem Receiver.Plain.deduplicates (hT : T.Plain) {out : List (Incoming × Response)}
    (h : Runs T (0, 0) out) : Deduplicated out := by
  have hiff := h.fresh_iff hT (show (0, 0) = countersOf none from rfl)
  refine ⟨hiff, fun horderly => ?_⟩
  have hfresh := hiff.mpr (orderly_countable (fun q hq => by cases hq) horderly)
  have := stream_eq hfresh horderly
  rwa [Option.elim_none, List.nil_append] at this

end

/-- **Both receivers**, over every run. -/
theorem receivers_deduplicate (out : List (Incoming × Response)) :
    (Runs lanplus (0, 0) out → Deduplicated out) ∧ (Runs lan (0, 0) out → Deduplicated out) :=
  ⟨plain_lanplus.deduplicates, plain_lan.deduplicates⟩

/-- The response that a packet comes in. -/
def heard (p : Incoming) : Response where
  data := write (fun _ => 0) 0 p.data
  dataLen := p.data.length
  session := { authtype := authtypeRmcpPlus, payloadtype := ptSol }
  payload := fun _ => p.seq

theorem Receiver.Plain.runs_heard {T : Receiver} (hT : T.Plain) {s : St} {p : Incoming}
    {out : List (Incoming × Response)} (hsol : T.isSol (heard p) = true)
    (hrest : Runs T (counters (afterCheck { s with recvRsp := heard p })) out) :
    Runs T (counters s) ((p, (afterCheck { s with recvRsp := heard p }).recvRsp) :: out) := by
  have hcarries : T.Carries (heard p) p := ⟨hsol, rfl, rfl, holds_write (fun _ => 0) 0 p.data⟩
  have hcheck : T.check { s with recvRsp := heard p } =
      .ok ((), afterCheck { s with recvRsp := heard p }) := by
    rw [hT]
    refine modify_ok.mpr ?_
    rw [if_pos hsol]
  exact Runs.cons (s := { s with recvRsp := heard p }) hcarries hcheck hrest

/-- **A shorter repetition**: one character of the two that came before leaves the length `-1`. -/
theorem shorter_repetition :
    (∃ out, Runs lanplus (0, 0) out ∧ out.map Prod.fst = [⟨1, [0x61, 0x62]⟩, ⟨1, [0x61]⟩] ∧
      out.map (fun x => x.2.dataLen) = [2, -1]) ∧
    ∃ out, Runs lan (0, 0) out ∧ out.map Prod.fst = [⟨1, [0x61, 0x62]⟩, ⟨1, [0x61]⟩] ∧
      out.map (fun x => x.2.dataLen) = [2, -1] := by
  have hruns : ∀ {T : Receiver}, T.Plain → (∀ p, T.isSol (heard p) = true) →
      ∃ out, Runs T (0, 0) out ∧
      out.map Prod.fst = [⟨1, [0x61, 0x62]⟩, ⟨1, [0x61]⟩] ∧
        out.map (fun x => x.2.dataLen) = [2, -1] := by
    intro T hT hsol
    let s : St := afterCheck { recvRsp := heard ⟨1, [0x61, 0x62]⟩ }
    have hlast : Runs T (counters s)
        [(⟨1, [0x61]⟩, (afterCheck { s with recvRsp := heard ⟨1, [0x61]⟩ }).recvRsp)] :=
      hT.runs_heard (hsol _) (.nil _)
    exact ⟨_, hT.runs_heard (s := {}) (hsol _) hlast, rfl, rfl⟩
  exact ⟨hruns plain_lanplus fun _ => rfl, hruns plain_lan fun _ => rfl⟩

end Ipmitool.Sol.Receive
