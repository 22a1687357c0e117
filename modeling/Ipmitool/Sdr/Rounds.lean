import Ipmitool.Sdr.Walk

/-! # The rounds of a partial read

What the loop of `getRecord` does in one round: it is done, or does not get any further (`Stops`),
or goes on with other values of its variables (`Round`). `recordLoop_stages` is the only place where
the loop is taken apart; a property that the rounds keep holds where the loop returns
(`recordLoop_returns`) and where it overflows (`recordLoop_overflows`). -/

namespace Ipmitool.Sdr.Rounds

open Ipmitool.Lib Ipmitool.Lib.Mem Ipmitool.Lib.Bytes Ipmitool.Lib.Machine Ipmitool.Lib.Dialogue
open Ipmitool.Core.Types hiding Entry
open Ipmitool.Core.Interface Ipmitool.Sdr.Records Ipmitool.Sdr.Walk

/-- The variables of the loop. -/
structure Loop (β : Type) where
  itr : Itr
  maxRead : ℕ
  data : List UInt8
  world : CmdWorld Vars β

section
variable {β : Type} (B : Bmc β) (h : Header) (s : Loop β)

/-- The number of bytes that the round asks for. -/
def Loop.count : ℕ := min (h.length.toNat - s.data.length) s.maxRead

/-- The request of the round. -/
def Loop.request : Command :=
  getRequest s.itr h.id (UInt8.ofNat (s.data.length + 5)) (UInt8.ofNat (s.count h))

def Loop.reply : Option Reply := (B s.world.device (s.request h)).1

/-- The world after the request. -/
def Loop.asked : CmdWorld Vars β := s.world.asked B (s.request h)

/-- The world after the request, with a smaller length of the reads. -/
def Loop.shrunk : CmdWorld Vars β :=
  { s.asked B h with vars := { (s.asked B h).vars with maxRead := (s.count h : ℤ) - 1 } }

/-- The loop in these variables. -/
def Loop.run (fuel : ℕ) : Except Fault ((Option (List UInt8) × Itr) × CmdWorld Vars β) :=
  recordLoop B h fuel s.itr s.maxRead s.data s.world

/-- There is no record. -/
inductive Stops : CmdWorld Vars β → Prop
  | refused : (∀ r ∈ s.reply B h, r.ccode = 0xca) → s.count h ≤ 1 → Stops (s.shrunk B h)
  | unreserved {r : Reply} {w' : CmdWorld Vars β} : s.reply B h = some r → r.ccode = 0xc5 →
    getReservation B s.itr.useBuiltIn (s.asked B h) = .ok (none, w') → Stops w'
  | failed {r : Reply} : s.reply B h = some r → r.ccode ≠ 0xca → r.ccode ≠ 0xc5 →
    (r.ccode ≠ 0 ∨ r.dataLen < 2 + s.count h) → Stops (s.asked B h)

/-- The loop goes on. -/
inductive Round : Loop β → Prop
  | smaller : (∀ r ∈ s.reply B h, r.ccode = 0xca) → 1 < s.count h →
    Round ⟨s.itr, s.count h - 1, s.data, s.shrunk B h⟩
  | renewed {r : Reply} {reservation : UInt16} {w' : CmdWorld Vars β} :
    s.reply B h = some r → r.ccode = 0xc5 →
    getReservation B s.itr.useBuiltIn (s.asked B h) = .ok (some reservation, w') →
    Round ⟨{ s.itr with reservation }, s.maxRead, s.data, w'⟩
  | read {r : Reply} : s.reply B h = some r → r.ccode = 0 → 2 + s.count h ≤ r.dataLen →
    Round ⟨s.itr, s.maxRead, s.data ++ Mem.read r.data 2 (s.count h), s.asked B h⟩

end

section
variable {β : Type} {B : Bmc β} {h : Header}

theorem Loop.count_le (s : Loop β) : s.count h ≤ s.maxRead := Nat.min_le_right _ _

theorem Loop.count_le_rest (s : Loop β) : s.count h ≤ h.length.toNat - s.data.length :=
  Nat.min_le_left _ _

theorem getReservation_eq (b : Bool) (w : CmdWorld Vars β) :
    ∃ o, getReservation B b w = .ok (o, w.asked B (reserveRequest b)) := by
  rcases hr : (B w.device (reserveRequest b)).1 with _ | r
  · exact ⟨_, bind_ok.mpr ⟨_, _, ask_ok.mpr ⟨hr, rfl⟩, rfl⟩⟩
  · exact ⟨_, bind_ok.mpr ⟨_, _, ask_ok.mpr ⟨hr, rfl⟩, rfl⟩⟩

theorem smaller_stages {s : Loop β} (hr : ∀ r ∈ s.reply B h, r.ccode = 0xca)
    (hrun : ∀ fuel, s.run B h (fuel + 1) = (do
      setReadLen ((s.count h : ℤ) - 1)
      if s.count h - 1 = 0 then return (none, s.itr)
      else recordLoop B h fuel s.itr (s.count h - 1) s.data : Talk β _) (s.asked B h)) :
    (∃ w', Stops B h s w' ∧ ∀ fuel, s.run B h (fuel + 1) = .ok ((none, s.itr), w')) ∨
      ∃ s', Round B h s s' ∧ ∀ fuel, s.run B h (fuel + 1) = s'.run B h fuel := by
  by_cases hn : s.count h - 1 = 0
  · refine .inl ⟨_, .refused hr (by omega), fun fuel => ?_⟩
    rw [hrun, if_pos hn]
    rfl
  · refine .inr ⟨_, .smaller hr (by omega), fun fuel => ?_⟩
    rw [hrun, if_neg hn]
    rfl

/-- What the loop makes of the reply `o`, with `fuel` rounds left. -/
def Loop.proceed (s : Loop β) (B : Bmc β) (h : Header) (fuel : ℕ) (o : Option Reply) :
    Talk β (Option (List UInt8) × Itr) :=
  match o with
  | none => do
    setReadLen ((s.count h : ℤ) - 1)
    if s.count h - 1 = 0 then return (none, s.itr)
      else recordLoop B h fuel s.itr (s.count h - 1) s.data
  | some r =>
    if r.ccode = 0xca then do
      setReadLen ((s.count h : ℤ) - 1)
      if s.count h - 1 = 0 then return (none, s.itr)
        else recordLoop B h fuel s.itr (s.count h - 1) s.data
    else if r.ccode = 0xc5 then do
      match ← getReservation B s.itr.useBuiltIn with
      | none => return (none, s.itr)
      | some reservation => recordLoop B h fuel { s.itr with reservation } s.maxRead s.data
    else if r.ccode ≠ 0 ∨ r.dataLen < 2 + s.count h then return (none, s.itr)
    else recordLoop B h fuel s.itr s.maxRead (s.data ++ Mem.read r.data 2 (s.count h))

/-- What the loop does in a round, however many are left. -/
theorem recordLoop_stages (B : Bmc β) (h : Header) (s : Loop β) :
    (h.length.toNat ≤ s.data.length ∧ ∀ fuel, s.run B h (fuel + 1) = .ok
      ((some s.data, s.itr), s.world)) ∨
    (s.data.length < h.length.toNat ∧ 250 < s.data.length ∧ ∀ fuel,
      s.run B h (fuel + 1) = .error .overflow) ∨
    (s.data.length < h.length.toNat ∧ s.data.length ≤ 250 ∧
      ((∃ w', Stops B h s w' ∧ ∀ fuel, s.run B h (fuel + 1) = .ok ((none, s.itr), w')) ∨
        ∃ s', Round B h s s' ∧ ∀ fuel, s.run B h (fuel + 1) = s'.run B h fuel)) := by
  by_cases hdone : h.length.toNat ≤ s.data.length
  · refine .inl ⟨hdone, fun fuel => ?_⟩
    rw [Loop.run, recordLoop, if_pos hdone]
    rfl
  by_cases hover : 255 < s.data.length + 5
  · refine .inr (.inl ⟨by omega, by omega, fun fuel => ?_⟩)
    rw [Loop.run, recordLoop, if_neg hdone, if_pos hover]
    rfl
  refine .inr (.inr ⟨by omega, by omega, ?_⟩)
  have hask : (sendrecv B (s.request h) : Talk β _) s.world = .ok (s.reply B h, s.asked B h) :=
    ask_ok.mpr ⟨rfl, rfl⟩
  have hrun : ∀ {fuel o}, s.reply B h = o →
      s.run B h (fuel + 1) = s.proceed B h fuel o (s.asked B h) := by
    intro fuel o ho
    subst ho
    rw [Loop.run, recordLoop, if_neg hdone, if_neg hover]
    exact bind_run hask
  rcases hr : s.reply B h with _ | r
  · exact smaller_stages (by simp [hr]) fun fuel => hrun hr
  by_cases hca : r.ccode = 0xca
  · refine smaller_stages (by simpa [hr] using hca) fun fuel => ?_
    rw [hrun hr]
    exact congrFun (if_pos hca) _
  by_cases hc5 : r.ccode = 0xc5
  · obtain ⟨o, ho⟩ := getReservation_eq (B := B) s.itr.useBuiltIn (s.asked B h)
    rcases o with _ | reservation
    · refine .inl ⟨_, .unreserved hr hc5 ho, fun fuel => ?_⟩
      rw [hrun hr]
      simp only [Loop.proceed, if_neg hca, if_pos hc5]
      rw [bind_run ho]
      rfl
    · refine .inr ⟨_, .renewed hr hc5 ho, fun fuel => ?_⟩
      rw [hrun hr]
      simp only [Loop.proceed, if_neg hca, if_pos hc5]
      rw [bind_run ho]
      rfl
  by_cases hbad : r.ccode ≠ 0 ∨ r.dataLen < 2 + s.count h
  · refine .inl ⟨_, .failed hr hca hc5 hbad, fun fuel => ?_⟩
    rw [hrun hr]
    simp only [Loop.proceed, if_neg hca, if_neg hc5, if_pos hbad]
    rfl
  · obtain ⟨hc, hlong⟩ := not_or.mp hbad
    refine .inr ⟨_, .read hr (not_not.mp hc) (by omega), fun fuel => ?_⟩
    rw [hrun hr]
    simp only [Loop.proceed, if_neg hca, if_neg hc5, if_neg hbad]
    rfl

/-- A record is read by the loop from the start, with the first limit. -/
theorem getRecord_eq {env : Env β} {limit : ℕ} {w w1 : CmdWorld Vars β} (hne : h.length ≠ 0)
    (hlimit : readLen env w = .ok (limit, w1)) (itr : Itr) :
    getRecord B env h itr w =
      ((Loop.mk itr limit [] w1).run B h (h.length.toNat + limit + env.renewals + 1)).bind
      fun r => .ok ((r.1.1.filter (recordLengthValid h.type), r.1.2), r.2) := by
  unfold getRecord
  rw [if_neg hne, bind_run hlimit]
  rfl

theorem Loop.offset_toNat {s : Loop β} (hle : s.data.length ≤ 250) :
    (UInt8.ofNat (s.data.length + 5)).toNat = s.data.length + 5 := by
  rw [UInt8.toNat_ofNat']
  omega

theorem Loop.count_toNat (s : Loop β) : (UInt8.ofNat (s.count h)).toNat = s.count h := by
  have h1 := s.count_le_rest (h := h)
  have h2 := h.length.toNat_lt
  rw [UInt8.toNat_ofNat']
  omega

/-! ### Properties that the rounds keep -/

section Keeps
variable {P : Loop β → Prop}
  (hP : ∀ s s', P s → s.data.length < h.length.toNat → s.data.length ≤ 250 → Round B h s s' → P s')
include hP

theorem recordLoop_returns {out : List UInt8} {itr' : Itr} {w' : CmdWorld Vars β} :
    ∀ {fuel : ℕ} {s : Loop β}, P s → s.run B h fuel = .ok ((some out, itr'), w') →
    ∃ maxRead, P ⟨itr', maxRead, out, w'⟩ ∧ h.length.toNat ≤ out.length
  | 0, s, _, hrun => by
    obtain ⟨he, -⟩ := pure_ok.mp hrun
    cases he
  | fuel + 1, s, hs, hrun => by
    rcases recordLoop_stages B h s with ⟨hdone, he⟩ | ⟨-, -, he⟩ |
      ⟨hlt, hle, ⟨w1, -, he⟩ | ⟨s', hround, he⟩⟩
    · rw [he] at hrun
      obtain ⟨hpair, rfl⟩ := Prod.mk.inj (Except.ok.inj hrun)
      obtain ⟨hout, rfl⟩ := Prod.mk.inj hpair
      obtain rfl := Option.some.inj hout
      exact ⟨s.maxRead, hs, hdone⟩
    · rw [he] at hrun
      cases hrun
    · rw [he] at hrun
      cases hrun
    · rw [he] at hrun
      exact recordLoop_returns (hP s s' hs hlt hle hround) hrun

theorem recordLoop_overflows : ∀ {fuel : ℕ} {s : Loop β}
    {e : Fault}, P s → s.run B h fuel = .error e →
    e = .overflow ∧ ∃ s', P s' ∧ s'.data.length < h.length.toNat ∧ 250 < s'.data.length
  | 0, s, e, _, hrun => by cases hrun
  | fuel + 1, s, e, hs, hrun => by
    rcases recordLoop_stages B h s with ⟨-, he⟩ | ⟨hlt, hover, he⟩ |
      ⟨hlt, hle, ⟨w1, -, he⟩ | ⟨s', hround, he⟩⟩
    · rw [he] at hrun
      cases hrun
    · rw [he] at hrun
      exact ⟨(Except.error.inj hrun).symm, s, hs, hlt, hover⟩
    · rw [he] at hrun
      cases hrun
    · rw [he] at hrun
      exact recordLoop_overflows (hP s s' hs hlt hle hround) hrun

end Keeps

end

/-! ### A BMC that delivers a record -/

/-- What the BMC sends of the record `id`, as long as its state satisfies `I`, are bytes of the
body. -/
structure Delivers {β : Type} (I : β → Prop) (B : Bmc β) (id : UInt16)
    (body : List UInt8) : Prop where
  gets : ∀ b itr off len, I b → I (B b (getRequest itr id off len)).2
  reserves : ∀ b useBuiltIn, I b → I (B b (reserveRequest useBuiltIn)).2
  answers : ∀ b itr off len r, I b → (B b (getRequest itr id off len)).1 = some r → r.ccode = 0 →
    5 ≤ off.toNat →
    ∀ i < len.toNat, 2 + i < r.dataLen → off.toNat - 5 + i < body.length →
      r.data (2 + i) = body.getD (off.toNat - 5 + i) 0

/-- The loop has the first bytes of the body, and its iterator stands where it was. -/
structure Partly {β : Type} (I : β → Prop) (body : List UInt8) (place : UInt16)
    (s : Loop β) : Prop where
  device : I s.world.device
  data : s.data <+: body
  place : s.itr.next = place

section Delivers
variable {β : Type} {I : β → Prop} {B : Bmc β} {h : Header} {body : List UInt8} {place : UInt16}
  (hB : Delivers I B h.id body) (hlen : h.length.toNat = body.length)
include hB hlen

/-- What is read in a round are the next bytes of the body. -/
theorem read_delivers {s : Loop β} {r : Reply} (hs : Partly I body place s)
    (hle : s.data.length ≤ 250) (hr : s.reply B h = some r) (hc : r.ccode = 0)
    (hlong : 2 + s.count h ≤ r.dataLen) :
    Mem.read r.data 2 (s.count h) = (body.drop s.data.length).take (s.count h) := by
  have hrest := s.count_le_rest (h := h)
  have hpre := hs.data.length_le
  have hoff := Loop.offset_toNat hle
  have hbyte := hB.answers _ _ _ _ r hs.device hr hc (by omega)
  rw [hoff, s.count_toNat, Nat.add_sub_cancel] at hbyte
  refine List.ext_getElem (by simp; omega) fun i h1 h2 => ?_
  rw [length_read] at h1
  have hin : s.data.length + i < body.length := by omega
  rw [getElem_read, List.getElem_take, List.getElem_drop, hbyte i h1 (by omega) hin,
    List.getD_eq_getElem?_getD, List.getElem?_eq_getElem hin, Option.getD_some]

theorem round_delivers {s s' : Loop β} (hs : Partly I body place s) (hle : s.data.length ≤ 250)
    (hround : Round B h s s') : Partly I body place s' := by
  have hasked : I (s.asked B h).device := hB.gets _ _ _ _ hs.device
  rcases hround with ⟨-, -⟩ | ⟨-, -, hnew⟩ | ⟨hr, hc, hlong⟩
  · exact ⟨hasked, hs.data, hs.place⟩
  · obtain ⟨o, ho⟩ := getReservation_eq (B := B) s.itr.useBuiltIn (s.asked B h)
    rw [ho] at hnew
    obtain ⟨-, rfl⟩ := Prod.mk.inj (Except.ok.inj hnew)
    exact ⟨hB.reserves _ _ hasked, hs.data, hs.place⟩
  · refine ⟨hasked, ?_, hs.place⟩
    obtain ⟨rest, hrest⟩ := hs.data
    rw [read_delivers hB hlen hs hle hr hc hlong, ← hrest, List.drop_left,
      List.prefix_append_right_inj]
    exact List.take_prefix _ _

theorem recordLoop_delivers {fuel : ℕ} {s : Loop β} {out : List UInt8} {itr' : Itr}
    {w' : CmdWorld Vars β}
    (hs : Partly I body place s) (hrun : s.run B h fuel = .ok ((some out, itr'), w')) :
    out = body ∧ itr'.next = place := by
  obtain ⟨m, hend, hall⟩ :=
    recordLoop_returns (fun _ _ hs _ hle hround => round_delivers hB hlen hs hle hround) hs hrun
  exact ⟨hend.data.eq_of_length_le (by rw [← hlen]; exact hall), hend.place⟩

end Delivers

end Ipmitool.Sdr.Rounds
