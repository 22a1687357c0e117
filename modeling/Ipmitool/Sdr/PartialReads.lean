import Ipmitool.Sdr.Served

/-! # Reassembling a record

`getRecord` reads a record in parts, and the part at the byte `i` of the body is asked for with the
offset `i + 5` in a field of 8 bits. What is returned is the body, whatever the BMC refuses and
cancels on the way, and the reads that succeeded stand one behind the other. But of a record with
more than 251 bytes a part may be asked for behind the offset 255: `reassembles_iff` says for which
records and which limits of the transport this cannot happen. -/

namespace Ipmitool.Sdr.PartialReads

open Ipmitool.Lib Ipmitool.Lib.Mem Ipmitool.Lib.Bytes Ipmitool.Lib.Machine Ipmitool.Lib.Dialogue
open Ipmitool.Core.Types hiding Entry
open Ipmitool.Core.Interface Ipmitool.Sdr.Records Ipmitool.Sdr.Walk Ipmitool.Sdr.Rounds
  Ipmitool.Sdr.Served

/-! ### The reads -/

/-- The offset and the length of a read that succeeded. -/
def readOf (x : Exchange) : Option (ℕ × ℕ) :=
  match x.2 with
  | none => none
  | some r =>
    if (x.1.cmd = 0x23 ∨ x.1.cmd = 0x21) ∧ r.ccode = 0 then
      some ((x.1.data.getD 4 0).toNat, (x.1.data.getD 5 0).toNat)
    else none

/-- Reads of at least one byte that follow one another from `start` to `stop`. -/
def Adjacent : ℕ → List (ℕ × ℕ) → ℕ → Prop
  | start, [], stop => start = stop
  | start, (off, len) :: rs, stop => off = start ∧ 1 ≤ len ∧ Adjacent (off + len) rs stop

theorem Adjacent.append {start stop len : ℕ} {rs : List (ℕ × ℕ)} (h : Adjacent start rs stop)
    (hlen : 1 ≤ len) :
    Adjacent start (rs ++ [(stop, len)]) (stop + len) := by
  induction rs generalizing start with
  | nil =>
    obtain rfl : start = stop := h
    exact ⟨rfl, hlen, rfl⟩
  | cons p rs ih => exact ⟨h.1, h.2.1, ih h.2.2⟩

/-! ### What is to be shown -/

/-- The result is the body of the record, of the right length for its type, and the reads that gave
it stand one behind the other. -/
structure Whole {β : Type} (h : Header) (body out : List UInt8)
    (w w' : CmdWorld Vars β) : Prop where
  data : out = body
  valid : recordLengthValid h.type out = true
  reads : ∃ evs, w'.log = w.log ++ evs ∧ Adjacent 5 (evs.filterMap readOf) (5 + h.length.toNat)

/-- Whatever BMC delivers the record, and whatever it refuses or cancels: what is returned is the
record, and no offset and no length is too large for its field. -/
def Reassembles (h : Header) (maxResponse : ℕ) (maxRead : ℤ) : Prop :=
  ∀ {β : Type} (I : β → Prop) (B : Bmc β) (env : Env β) (itr : Itr) (w : CmdWorld Vars β) (body :
    List UInt8),
    env.maxResponse = maxResponse → w.vars.maxRead = maxRead → h.length.toNat = body.length →
    Delivers I B h.id body → I w.device →
    getRecord B env h itr w ≠ .error .overflow ∧
    ∀ out itr' w', getRecord B env h itr w = .ok ((some out, itr'), w') → Whole h body out w w'

/-- The length of the first reads. -/
def readLimit (maxResponse : ℕ) (maxRead : ℤ) : Option ℕ :=
  if maxRead < 0 then none
  else if maxRead ≠ 0 then some maxRead.toNat
  else if maxResponse < 2 then none
  else some (min (maxResponse - 2) 0xfe)

section
variable {β : Type} {B : Bmc β} {env : Env β} {h : Header} {w w' : CmdWorld Vars β}

theorem readLen_none (hlimit : readLimit env.maxResponse w.vars.maxRead = none) :
    readLen env w = .error .overflow := by
  unfold readLimit at hlimit
  unfold readLen
  rw [bind_run (a := w) (t := w) rfl]
  split_ifs at hlimit ⊢
  · rfl
  · rfl

theorem readLen_some {limit : ℕ} (hlimit : readLimit env.maxResponse w.vars.maxRead = some limit) :
    ∃ w1, readLen env w = .ok (limit, w1) ∧ w1.device = w.device ∧ w1.log = w.log := by
  unfold readLimit at hlimit
  unfold readLen
  rw [bind_run (a := w) (t := w) rfl]
  split_ifs at hlimit ⊢
  · obtain rfl := Option.some.inj hlimit
    exact ⟨w, rfl, rfl, rfl⟩
  · obtain rfl := Option.some.inj hlimit
    exact ⟨_, rfl, rfl, rfl⟩

/-! ### The reads of the loop -/

/-- The reads since `log` stand one behind the other, and gave what the loop has. -/
structure Reading (log : List Exchange) (s : Loop β) : Prop where
  positive : 0 < s.maxRead
  reads : ∃ evs, s.world.log = log ++ evs ∧ Adjacent 5 (evs.filterMap readOf) (5 + s.data.length)

theorem readOf_request {s : Loop β} (hle : s.data.length ≤ 250) {r : Reply} (hc : r.ccode = 0) :
    readOf (s.request h, some r) = some (5 + s.data.length, s.count h) := by
  have hcmd : (s.request h).cmd = 0x23 ∨ (s.request h).cmd = 0x21 := by
    rcases hb : s.itr.useBuiltIn <;> simp [Loop.request, getRequest, hb]
  have hoff : ((s.request h).data.getD 4 0).toNat = 5 + s.data.length :=
    (Loop.offset_toNat hle).trans (Nat.add_comm _ _)
  have hlen : ((s.request h).data.getD 5 0).toNat = s.count h := s.count_toNat
  simp only [readOf, hcmd, hc, and_self, if_true, hoff, hlen]

theorem readOf_failed {c : Command} {o : Option Reply} (hc : ∀ r ∈ o, r.ccode ≠ 0) :
    readOf (c, o) = none := by
  rcases o with _ | r
  · rfl
  · have hne : r.ccode ≠ 0 := hc r rfl
    simp only [readOf, hne, and_false, if_false]

theorem readOf_reserve (b : Bool) (o : Option Reply) : readOf (reserveRequest b, o) = none := by
  rcases o with _ | r
  · rfl
  · rcases b <;> rfl

theorem round_reading {log : List Exchange} {s s' : Loop β} (hs : Reading log s)
    (hlt : s.data.length < h.length.toNat) (hle : s.data.length ≤ 250) (hround : Round B h s s') :
    Reading log s' := by
  obtain ⟨evs, hlog, hreads⟩ := hs.reads
  have hpos := hs.positive
  have hasked : (s.asked B h).log = log ++ (evs ++ [(s.request h, s.reply B h)]) := by
    rw [← List.append_assoc, ← hlog]
    rfl
  rcases hround with ⟨hr, hcount⟩ | ⟨hr, hc, hnew⟩ | ⟨hr, hc, hlong⟩
  · refine ⟨by change 0 < s.count h - 1; omega, _, hasked, ?_⟩
    have hnone : readOf (s.request h, s.reply B h) = none := by
      refine readOf_failed fun r hmem => ?_
      rw [hr r hmem]
      decide
    simpa [hnone] using hreads
  · obtain ⟨o, ho⟩ := getReservation_eq (B := B) s.itr.useBuiltIn (s.asked B h)
    rw [ho] at hnew
    obtain ⟨-, rfl⟩ := Prod.mk.inj (Except.ok.inj hnew)
    have hnone : readOf (s.request h, s.reply B h) = none := by
      refine readOf_failed fun r' hmem => ?_
      rw [hr] at hmem
      obtain rfl := Option.some.inj hmem
      rw [hc]
      decide
    refine ⟨hpos, _, by rw [World.asked_log, hasked, List.append_assoc, List.append_assoc], ?_⟩
    simpa [hnone, readOf_reserve] using hreads
  · refine ⟨hpos, _, hasked, ?_⟩
    have hread := readOf_request (h := h) hle hc
    have hcount : 1 ≤ s.count h := by
      unfold Loop.count
      omega
    rw [hr, List.filterMap_append]
    simpa [hread, Nat.add_assoc] using hreads.append hcount

/-- With the limit zero the loop gets nothing. -/
theorem round_stuck {s s' : Loop β} (hs : s.maxRead = 0 ∧ s.data = []) (hround : Round B h s s') :
    s'.maxRead = 0 ∧ s'.data = [] := by
  have hcount : s.count h = 0 := by
    have := s.count_le (h := h)
    omega
  rcases hround with ⟨-, hcount'⟩ | ⟨-, -, -⟩ | ⟨-, -, -⟩
  · omega
  · exact hs
  · refine ⟨hs.1, ?_⟩
    rw [hs.2, hcount]
    rfl

/-! ### Records that are reassembled -/

theorem not_overflow {limit fuel : ℕ} (hlimit : h.length.toNat ≤ 251 ∨ limit = 0) (itr : Itr)
    (w1 : CmdWorld Vars β) : (Loop.mk itr limit [] w1).run B h fuel ≠ .error .overflow := by
  intro hrun
  rcases hlimit with hshort | hzero
  · obtain ⟨-, s, -, hlt, hover⟩ :=
      recordLoop_overflows (P := fun _ => True) (fun _ _ _ _ _ _ => trivial)
        trivial hrun
    omega
  · obtain ⟨-, s, ⟨-, hdata⟩, -, hover⟩ :=
      recordLoop_overflows (P := fun s => s.maxRead = 0 ∧ s.data = [])
        (fun _ _ hs _ _ hround => round_stuck hs hround) ⟨hzero, rfl⟩ hrun
    rw [hdata] at hover
    cases hover

theorem adjacent_reads {limit fuel : ℕ} (hne : h.length ≠ 0) {itr itr' : Itr} {w1 : CmdWorld Vars β}
    {out : List UInt8}
    (hrun : (Loop.mk itr limit [] w1).run B h fuel = .ok ((some out, itr'), w')) :
    ∃ evs, w'.log = w1.log ++ evs ∧ Adjacent 5 (evs.filterMap readOf) (5 + out.length) := by
  by_cases hzero : limit = 0
  · obtain ⟨_, ⟨-, hdata⟩, hall⟩ := recordLoop_returns (P := fun s => s.maxRead = 0 ∧ s.data = [])
      (fun _ _ hs _ _ hround => round_stuck hs hround) ⟨hzero, rfl⟩ hrun
    obtain rfl : out = [] := hdata
    have h0 : h.length.toNat = 0 := Nat.le_zero.mp hall
    exact (hne (UInt8.toNat_inj.mp h0)).elim
  · have hstart : Reading w1.log (Loop.mk itr limit [] w1) :=
      ⟨Nat.pos_of_ne_zero hzero, [], (List.append_nil _).symm, rfl⟩
    obtain ⟨_, hend, -⟩ := recordLoop_returns
      (fun _ _ hs hlt hle hround => round_reading hs hlt hle hround) hstart hrun
    exact hend.reads

end

/-! ### A BMC that sends one byte at a time -/

/-- A BMC with nothing but zeros, that does not answer requests for more than one byte. -/
def stingy : Bmc Unit := fun _ c => (if c.data.getD 5 0 = 1 then some (.of [0, 0, 0]) else none, ())

theorem stingy_delivers (id : UInt16) (n : ℕ) :
    Delivers (fun _ => True) stingy id (List.replicate n 0) where
  gets _ _ _ _ _ := trivial
  reserves _ _ _ := trivial
  answers b itr off len r _ hr _ _ i _ _ hin := by
    have hzero : ∀ j, (Reply.of [0, 0, 0]).data j = 0 := by
      rintro (_ | _ | _ | j) <;> rfl
    obtain ⟨-, hr⟩ := Option.ite_none_right_eq_some.mp hr
    obtain rfl := Option.some.inj hr
    rw [hzero, List.getD_eq_getElem?_getD, List.getElem?_eq_getElem hin, List.getElem_replicate,
      Option.getD_some]

theorem stingy_reply {h : Header} (s : Loop Unit) :
    s.reply stingy h = if s.count h = 1 then some (.of [0, 0, 0]) else none := by
  have hcount : (s.request h).data.getD 5 0 = UInt8.ofNat (s.count h) := rfl
  have hone : UInt8.ofNat (s.count h) = 1 ↔ s.count h = 1 := by
    rw [← UInt8.toNat_inj, s.count_toNat]
    rfl
  unfold Loop.reply stingy
  simp only [hcount, hone]

/-- It leads every long record to the end of the field. -/
theorem stingy_overflows {h : Header} (hlong : 251 < h.length.toNat) : ∀ {fuel : ℕ} {s : Loop Unit},
    0 < s.maxRead → s.data.length ≤ 251 → s.maxRead + (251 - s.data.length) < fuel →
    s.run stingy h fuel = .error .overflow
  | 0, s, _, _, hfuel => by omega
  | fuel + 1, s, hpos, hdata, hfuel => by
    have hle := s.count_le (h := h)
    have hcount : 1 ≤ s.count h := by
      unfold Loop.count
      omega
    have hreply := stingy_reply (h := h) s
    have hsome : ∀ {r}, s.reply stingy h = some r → s.count h = 1 ∧ r = .of [0, 0, 0] := by
      intro r hr
      rw [hreply] at hr
      obtain ⟨hone, hr⟩ := Option.ite_none_right_eq_some.mp hr
      exact ⟨hone, (Option.some.inj hr).symm⟩
    rcases recordLoop_stages stingy h s with ⟨hdone, -⟩ | ⟨-, -, he⟩ |
      ⟨hlt, hle250, ⟨w1, hstop, -⟩ | ⟨s', hround, he⟩⟩
    · omega
    · exact he fuel
    · rcases hstop with ⟨hr, hone⟩ | ⟨hr, hc, -⟩ | ⟨hr, -, -, hbad⟩
      · rw [hreply, if_pos (by omega)] at hr
        have hca : (Reply.of [0, 0, 0]).ccode = 0xca := hr _ rfl
        cases hca
      · obtain ⟨-, rfl⟩ := hsome hr
        cases hc
      · obtain ⟨hone, rfl⟩ := hsome hr
        rw [hone] at hbad
        rcases hbad with hbad | hbad
        · exact (hbad rfl).elim
        · cases hbad.not_ge le_rfl
    · rw [he]
      rcases hround with ⟨-, hmore⟩ | ⟨hr, hc, -⟩ | ⟨hr, -, -⟩
      · refine stingy_overflows hlong ?_ hdata ?_
        · change 0 < s.count h - 1
          omega
        · change s.count h - 1 + (251 - s.data.length) < fuel
          omega
      · obtain ⟨-, rfl⟩ := hsome hr
        cases hc
      · obtain ⟨hone, rfl⟩ := hsome hr
        refine stingy_overflows hlong hpos ?_ ?_
        · rw [List.length_append, length_read, hone]
          omega
        · change s.maxRead +
            (251 - (s.data ++ Mem.read (Reply.of [0, 0, 0]).data 2 (s.count h)).length) < fuel
          rw [List.length_append, length_read, hone]
          omega

theorem stingy_getRecord {h : Header} {env : Env Unit} {w : CmdWorld Vars Unit} {limit : ℕ}
    (hlong : 251 < h.length.toNat) (hlimit : readLimit env.maxResponse w.vars.maxRead = some limit)
    (hpos : 0 < limit) (itr : Itr) : getRecord stingy env h itr w = .error .overflow := by
  have hne : h.length ≠ 0 := by
    intro h0
    rw [h0] at hlong
    cases hlong
  obtain ⟨w1, hlen, -⟩ := readLen_some hlimit
  rw [getRecord_eq hne hlen, stingy_overflows hlong hpos (Nat.zero_le _) ?_]
  · rfl
  · change limit + (251 - 0) < h.length.toNat + limit + env.renewals + 1
    omega

/-- **A record is reassembled under every schedule of replies exactly if no part of it can lie
behind the offset 255.** -/
theorem reassembles_iff (h : Header) (maxResponse : ℕ) (maxRead : ℤ) :
    Reassembles h maxResponse maxRead ↔
      h.length = 0 ∨ ∃ limit, readLimit maxResponse maxRead = some limit ∧
      (h.length.toNat ≤ 251 ∨ limit = 0) := by
  constructor
  · intro hall
    by_contra hcond
    obtain ⟨hne, hcond⟩ := not_or.mp hcond
    let env : Env Unit := ⟨maxResponse, 0, fun b n => (true, b, n)⟩
    let w : CmdWorld Vars Unit := { vars := { maxRead }, device := () }
    have hgood :=
      (hall (fun _ => True) stingy env ⟨0, 0, false⟩ w (List.replicate h.length.toNat 0) rfl rfl
        (List.length_replicate).symm (stingy_delivers _ _) trivial).1
    refine hgood ?_
    rcases hlimit : readLimit maxResponse maxRead with _ | limit
    · unfold getRecord
      rw [if_neg hne]
      exact bind_error.mpr (.inl (readLen_none hlimit))
    · have hlong : 251 < h.length.toNat := by
        by_contra hshort
        exact hcond ⟨limit, hlimit, .inl (by omega)⟩
      have hpos : 0 < limit := by
        by_contra hzero
        exact hcond ⟨limit, hlimit, .inr (by omega)⟩
      exact stingy_getRecord hlong hlimit hpos _
  · intro hcond β I B env itr w body hresponse hmax hbody hB hI
    by_cases hne : h.length = 0
    · have hnone : getRecord B env h itr w = .ok ((none, itr), w) := by
        unfold getRecord
        rw [if_pos hne]
        rfl
      rw [hnone]
      exact ⟨by simp, by simp⟩
    obtain ⟨limit, hlimit, hfits⟩ := hcond.resolve_left hne
    rw [← hresponse, ← hmax] at hlimit
    obtain ⟨w1, hlen, hdevice, hlog⟩ := readLen_some hlimit
    have hrun := getRecord_eq (B := B) hne hlen itr
    constructor
    · intro hover
      rw [hrun] at hover
      rcases hloop : (Loop.mk itr limit [] w1).run B h
        (h.length.toNat + limit + env.renewals + 1) with e | r
      · rw [hloop] at hover
        exact not_overflow hfits itr w1 (hloop.trans hover)
      · rw [hloop] at hover
        cases hover
    · intro out itr' w' hok
      have hvalid := getRecord_valid hok
      rw [hrun] at hok
      rcases hloop : (Loop.mk itr limit [] w1).run B h
        (h.length.toNat + limit + env.renewals + 1) with e | r
      · rw [hloop] at hok
        cases hok
      · obtain ⟨⟨o, itr2⟩, w2⟩ := r
        rw [hloop] at hok
        obtain ⟨hpair, rfl⟩ := Prod.mk.inj (Except.ok.inj hok)
        obtain ⟨hout, rfl⟩ := Prod.mk.inj hpair
        obtain rfl : o = some out := (Option.filter_eq_some_iff.mp hout).1
        have hs : Partly I body itr.next (Loop.mk itr limit [] w1) :=
          ⟨by rwa [hdevice], ⟨body, rfl⟩, rfl⟩
        obtain ⟨rfl, -⟩ := recordLoop_delivers hB hbody hs hloop
        obtain ⟨evs, hevs, hreads⟩ := adjacent_reads hne hloop
        exact ⟨rfl, hvalid, evs, by rw [hevs, hlog], by rwa [hbody]⟩

/-- A record of 255 bytes, and a transport with responses of 300 bytes. -/
theorem long_record_overflows : ¬ Reassembles ⟨0xffff, 1, 0x51, 0xc0, 255⟩ 300 0 := by
  intro hall
  have hgood := (hall (fun _ => True) stingy ⟨300, 0, fun b n => (true, b, n)⟩ ⟨0, 0, false⟩
    { vars := {}, device := () } (List.replicate 255 0) rfl rfl (List.length_replicate).symm
    (stingy_delivers _ _) trivial).1
  exact hgood (stingy_getRecord (by decide) (rfl : readLimit 300 0 = some 254) (by decide) _)

end Ipmitool.Sdr.PartialReads
