import Ipmitool.Sdr.Rounds

/-! # Repositories

A repository is a chain of records: every record but the first has an identifier of its own that is
not zero, zero stands for the first record, and `0xffff` for the end. `Serves I B R` says that the
BMC, as long as its state satisfies `I`, sends nothing else than the records of `R`; it may refuse
any request, and cancel reservations.

* `quiet_getNextHeader`, `quiet_getRecord`: reading does not touch the cache.
* `getNextHeader_serves`: the header that is read is the one in the repository.
* `getRecord_serves`: a record that is read has the bytes of the one in the repository. -/

namespace Ipmitool.Sdr.Served

open Ipmitool.Lib Ipmitool.Lib.Mem Ipmitool.Lib.Bytes Ipmitool.Lib.Machine Ipmitool.Lib.Dialogue
open Ipmitool.Core.Types hiding Entry
open Ipmitool.Core.Interface Ipmitool.Sdr.Records Ipmitool.Sdr.Walk Ipmitool.Sdr.Rounds

/-! ### Records in a chain -/

/-- A record of a repository. -/
structure Record where
  id : UInt16
  version : UInt8
  type : UInt8
  body : List UInt8
  body_ne : body ≠ []
  body_lt : body.length < 256

def Record.length (r : Record) : UInt8 := UInt8.ofNat r.body.length

/-- The record as it is sent. -/
def Record.bytes (r : Record) : List UInt8 := le16 r.id ++ [r.version, r.type, r.length] ++ r.body

/-- The identifier of the record that follows. -/
def nextId : List Record → UInt16
  | [] => 0xffff
  | r :: _ => r.id

/-- A record with an identifier, and the identifier of the next one. -/
def lookup (id : UInt16) : List Record → Option (Record × UInt16)
  | [] => none
  | r :: rs => if r.id = id then some (r, nextId rs) else lookup id rs

/-- A chain of records. -/
structure Repository where
  records : List Record
  nodup : (records.map Record.id).Nodup
  ne_zero : ∀ r ∈ records.tail, r.id ≠ 0
  ne_end : ∀ r ∈ records, r.id ≠ 0xffff

/-- The record that an identifier stands for, and the identifier of the next one. -/
def Repository.find (R : Repository) (id : UInt16) : Option (Record × UInt16) :=
  match R.records with
  | [] => none
  | r :: rs => if id = 0 then some (r, nextId rs) else lookup id (r :: rs)

theorem lookup_append {pre post : List Record} {r : Record}
    (h : ((pre ++ r :: post).map Record.id).Nodup) :
    lookup r.id (pre ++ r :: post) = some (r, nextId post) := by
  induction pre with
  | nil => simp [lookup]
  | cons q pre ih =>
    obtain ⟨hq, hnodup⟩ := List.nodup_cons.mp h
    have hne : q.id ≠ r.id := fun he => hq (by rw [he]; simp)
    rw [List.cons_append, lookup, if_neg hne]
    exact ih hnodup

theorem lookup_some {id : UInt16} {rs : List Record} {p : Record × UInt16}
    (h : lookup id rs = some p) :
    ∃ pre post, rs = pre ++ p.1 :: post ∧ p.1.id = id ∧ p.2 = nextId post := by
  induction rs with
  | nil => simp [lookup] at h
  | cons r rs ih =>
    rw [lookup] at h
    by_cases hid : r.id = id
    · rw [if_pos hid] at h
      obtain rfl := Option.some.inj h
      exact ⟨[], rs, rfl, hid, rfl⟩
    · rw [if_neg hid] at h
      obtain ⟨pre, post, rfl, h1, h2⟩ := ih h
      exact ⟨r :: pre, post, rfl, h1, h2⟩

section
variable {R : Repository}

theorem find_some {id : UInt16} {p : Record × UInt16} (h : R.find id = some p) :
    ∃ pre post, R.records = pre ++ p.1 :: post ∧ p.2 = nextId post ∧
      (p.1.id = id ∨ (id = 0 ∧ pre = [])) := by
  unfold Repository.find at h
  rcases hR : R.records with _ | ⟨r, rs⟩
  · simp [hR] at h
  · simp only [hR] at h
    by_cases hid : id = 0
    · rw [if_pos hid] at h
      obtain rfl := Option.some.inj h
      exact ⟨[], rs, rfl, rfl, .inr ⟨hid, rfl⟩⟩
    · rw [if_neg hid] at h
      obtain ⟨pre, post, he, h1, h2⟩ := lookup_some h
      exact ⟨pre, post, he, h2, .inl h1⟩

/-- A record is found by its identifier. -/
theorem find_append {pre post : List Record} {r : Record} (h : R.records = pre ++ r :: post) :
    R.find r.id = some (r, nextId post) := by
  unfold Repository.find
  have hnodup := R.nodup
  have hzero := R.ne_zero
  rw [h] at hnodup hzero
  rcases pre with _ | ⟨q, pre⟩
  · simp [h, lookup]
  · have hne : r.id ≠ 0 := hzero r (by simp)
    simp only [h, List.cons_append, if_neg hne]
    exact lookup_append hnodup

theorem find_zero {post : List Record} {r : Record} (h : R.records = r :: post) :
    R.find 0 = some (r, nextId post) := by
  simp [Repository.find, h]

end

/-- What is found at the beginning of a part of the chain. -/
def front : List Record → Option (Record × UInt16)
  | [] => none
  | r :: rs => some (r, nextId rs)

theorem find_end (R : Repository) : R.find 0xffff = none := by
  rcases h : R.find 0xffff with _ | p
  · rfl
  · obtain ⟨pre, post, he, -, hid | ⟨hid, -⟩⟩ := find_some h
    · exact (R.ne_end p.1 (by rw [he]; simp) hid).elim
    · cases hid

theorem find_nextId {R : Repository} {pre rs : List Record} (h : R.records = pre ++ rs) :
    R.find (nextId rs) = front rs := by
  rcases rs with _ | ⟨r, rs⟩
  · exact find_end R
  · exact find_append h

theorem find_first (R : Repository) : R.find 0 = front R.records := by
  rcases h : R.records with _ | ⟨r, rs⟩
  · simp [Repository.find, h, front]
  · exact find_zero h

theorem Record.length_toNat (r : Record) : r.length.toNat = r.body.length := by
  have := r.body_lt
  simp only [Record.length, UInt8.toNat_ofNat']
  omega

theorem Record.length_ne (r : Record) : r.length ≠ 0 := by
  intro h
  have h1 := r.length_toNat
  rw [h] at h1
  exact r.body_ne (List.length_eq_zero_iff.mp h1.symm)

theorem Record.length_bytes (r : Record) : r.bytes.length = 5 + r.body.length := by
  simp only [Record.bytes, List.length_append, length_le16, List.length_cons, List.length_nil]

theorem Record.bytes_body (r : Record) {i : ℕ} (h : i < r.body.length) :
    r.bytes.getD (5 + i) 0 = r.body[i] := by
  have hlen : (le16 r.id ++ [r.version, r.type, r.length]).length = 5 := by simp
  unfold Record.bytes
  rw [List.getD_eq_getElem?_getD, List.getElem?_append_right (by omega), hlen,
    Nat.add_sub_cancel_left, List.getElem?_eq_getElem h, Option.getD_some]

/-! ### A BMC with a repository -/

/-- The requests of a walk. -/
def isWalk (c : Command) : Bool :=
  (c.netfn = netfnAppCmd ∧ c.cmd = 1) ∨ ((c.netfn = netfnStorage ∨ c.netfn = netfnSensor) ∧
    (c.cmd = 0x20 ∨ c.cmd = 0x21 ∨ c.cmd = 0x22 ∨ c.cmd = 0x23))

/-- The reply has the next identifier, and the bytes from an offset on. -/
structure Carries (p : Record × UInt16) (off len : ℕ) (r : Reply) : Prop where
  next : 2 ≤ r.dataLen → ofLe16 (r.data 0) (r.data 1) = p.2
  bytes : ∀ i < len, 2 + i < r.dataLen → off + i < p.1.bytes.length →
    r.data (2 + i) = p.1.bytes.getD (off + i) 0

/-- The BMC sends only what is in the repository. -/
structure Serves {β : Type} (I : β → Prop) (B : Bmc β) (R : Repository) : Prop where
  keeps : ∀ b c, isWalk c = true → I b → I (B b c).2
  answers : ∀ b itr id off len r, I b → (B b (getRequest itr id off len)).1 = some r → r.ccode = 0 →
    ∃ p, R.find id = some p ∧ Carries p off.toNat len.toNat r

theorem isWalk_getRequest (itr : Itr) (id : UInt16) (off len : UInt8) :
    isWalk (getRequest itr id off len) = true := by
  rcases h : itr.useBuiltIn <;> simp [isWalk, getRequest, sdrNetfn, h]

theorem isWalk_reserveRequest (b : Bool) : isWalk (reserveRequest b) = true := by
  cases b <;> rfl

/-- The cache is not touched, and the BMC stays as it is served. -/
def Quiet {β : Type} (I : β → Prop) : Frame (CmdWorld Vars β) where
  rel w w' := w'.vars.list = w.vars.list ∧ w'.vars.listItr = w.vars.listItr ∧
    (I w.device → I w'.device)
  refl _ := ⟨rfl, rfl, id⟩
  trans h1 h2 := ⟨h2.1.trans h1.1, h2.2.1.trans h1.2.1, h2.2.2 ∘ h1.2.2⟩

theorem quiet_readLen {β : Type} {I : β → Prop} {env : Env β} {w w' : CmdWorld Vars β} {n : ℕ}
    (h : readLen env w = .ok (n, w')) : (Quiet I).rel w w' := by
  unfold readLen at h
  obtain ⟨_, _, hget, h⟩ := bind_ok.mp h
  obtain ⟨rfl, rfl⟩ := get_ok.mp hget
  split_ifs at h
  · exact (throw_ok.mp h).elim
  · obtain ⟨-, rfl⟩ := pure_ok.mp h
    exact ⟨rfl, rfl, id⟩
  · exact (throw_ok.mp h).elim
  · obtain ⟨_, _, hset, h⟩ := bind_ok.mp h
    obtain rfl := set_ok.mp hset
    obtain ⟨-, rfl⟩ := pure_ok.mp h
    exact ⟨rfl, rfl, id⟩

section Quiet
variable {β : Type} {I : β → Prop} {B : Bmc β} {env : Env β}
  (hkeeps : ∀ b c, isWalk c = true → I b → I (B b c).2)
include hkeeps

theorem quiet_sendrecv {c : Command} (hc : isWalk c = true) :
    Moves (Quiet I) (sendrecv B c : Talk β (Option Reply)) := by
  intro w r w' h
  obtain ⟨-, rfl⟩ := ask_ok.mp h
  exact ⟨rfl, rfl, hkeeps _ _ hc⟩

theorem quiet_getReservation (b : Bool) : Moves (Quiet I) (getReservation B b) := by
  refine .bind (quiet_sendrecv hkeeps (isWalk_reserveRequest b)) fun o => ?_
  rcases o with _ | r
  · exact .pure _
  · exact .pure _

theorem quiet_headerTries : ∀ (tries : ℕ) (itr : Itr), Moves (Quiet I) (headerTries B tries itr)
  | 0, itr => .pure _
  | tries + 1, itr => by
    refine .bind (quiet_sendrecv hkeeps (isWalk_getRequest itr _ _ _)) fun o => ?_
    rcases o with _ | r
    · exact quiet_headerTries tries itr
    · refine .ite (fun _ => .bind (quiet_getReservation hkeeps _) fun o => ?_) fun _ =>
        .ite (fun _ => quiet_headerTries tries itr) fun _ => .pure _
      rcases o with _ | reservation
      · exact .pure _
      · exact quiet_headerTries tries _

theorem quiet_getNextHeader (itr : Itr) : Moves (Quiet I) (getNextHeader B itr) := by
  refine .ite (fun _ => .pure _) fun _ =>
    .bind (.bind (quiet_headerTries hkeeps 5 itr) fun _ => .pure _) fun r => ?_
  rcases r with ⟨_ | h, itr'⟩
  · exact .pure _
  · exact .pure _

theorem quiet_recordLoop (h : Header) : ∀ (fuel : ℕ) (itr : Itr) (maxRead : ℕ) (data : List UInt8),
    Moves (Quiet I) (recordLoop B h fuel itr maxRead data)
  | 0, itr, maxRead, data => .pure _
  | fuel + 1, itr, maxRead, data => by
    have hset : ∀ n, Moves (Quiet I) (setReadLen n : Talk β Unit) := fun n =>
      .modify fun w => ⟨rfl, rfl, id⟩
    refine .ite (fun _ => .pure _) fun _ => .ite (fun _ => .throw _) fun _ =>
      .bind (quiet_sendrecv hkeeps (isWalk_getRequest itr _ _ _)) fun o => ?_
    rcases o with _ | r
    · exact .bind (hset _) fun _ => .ite (fun _ => .pure _) fun _ => quiet_recordLoop h fuel _ _ _
    · refine .ite (fun _ => .bind (hset _) fun _ => .ite (fun _ => .pure _) fun _ =>
        quiet_recordLoop h fuel _ _ _) fun _ => .ite (fun _ =>
          .bind (quiet_getReservation hkeeps _) fun o => ?_)
        fun _ => .ite (fun _ => .pure _) fun _ => quiet_recordLoop h fuel _ _ _
      rcases o with _ | reservation
      · exact .pure _
      · exact quiet_recordLoop h fuel _ _ _

theorem quiet_getRecord (h : Header) (itr : Itr) : Moves (Quiet I) (getRecord B env h itr) := by
  refine .ite (fun _ => .pure _) fun _ => .bind (fun _ _ _ => quiet_readLen) fun n =>
    .bind (quiet_recordLoop hkeeps h _ _ _ _) fun _ => .pure _

end Quiet

/-! ### Opening the repository -/

section Start
variable {β : Type} {B : Bmc β} {env : Env β}

theorem quiet_reserve {I : β → Prop} (hkeeps : ∀ b c, isWalk c = true → I b → I (B b c).2)
    (b : Bool) : Moves (Quiet I) (reserve B b) :=
  .bind (quiet_getReservation hkeeps b) fun _ => .pure _

theorem quiet_fillEmpty {I : β → Prop} (hfill : ∀ b n, I b → I (env.addFromSensors b n).2.1) :
    Moves (Quiet I) (fillEmpty env) := by
  intro w r w' h
  obtain ⟨_, _, hget, h⟩ := bind_ok.mp h
  obtain ⟨rfl, rfl⟩ := get_ok.mp hget
  obtain ⟨_, _, hset, h⟩ := bind_ok.mp h
  obtain rfl := set_ok.mp hset
  obtain ⟨-, rfl⟩ := pure_ok.mp h
  exact ⟨rfl, rfl, hfill _ _⟩

theorem quiet_sdrStart {I : β → Prop} (hkeeps : ∀ b c, isWalk c = true → I b → I (B b c).2)
    (hfill : ∀ b n, I b → I (env.addFromSensors b n).2.1) : Moves (Quiet I) (sdrStart B env) := by
  have hdevice : Moves (Quiet I) (openDevice B) := by
    refine .bind (quiet_sendrecv hkeeps rfl) fun o => ?_
    rcases o with _ | r
    · exact .pure _
    · exact .ite (fun _ => .pure _) fun _ => quiet_reserve hkeeps true
  have hrepository : Moves (Quiet I) (openRepository B env) := by
    refine .bind (quiet_sendrecv hkeeps rfl) fun o => ?_
    rcases o with _ | r
    · exact .pure _
    · exact .ite (fun _ => .pure _) fun _ => .ite
        (fun _ => .bind (quiet_fillEmpty hfill) fun _ =>
          .ite (fun _ => quiet_reserve hkeeps false) fun _ => .pure _)
        fun _ => .bind (.pure _) fun _ => .ite (fun _ => quiet_reserve hkeeps false) fun _ =>
          .pure _
  have hopen : Moves (Quiet I) (do
      let w ← get
      if w.vars.useBuiltIn then openDevice B else openRepository B env : Talk β (Option Itr)) :=
    .bind .get fun _ => .ite (fun _ => hdevice) fun _ => hrepository
  refine .bind (quiet_sendrecv hkeeps rfl) fun o => ?_
  rcases o with _ | r
  · exact .pure _
  · exact .ite (fun _ => .pure _) fun _ => .ite (fun _ => .pure _) fun _ => .ite
      (fun _ => .bind (.modify fun w => ⟨rfl, rfl, id⟩) fun _ => hopen) fun _ => hopen

/-- The walk begins at the first record. -/
theorem gives_sdrStart : Gives (fun o : Option Itr => ∀ itr ∈ o, itr.next = 0)
    (sdrStart B env) := by
  have hreserve : ∀ b, Gives (fun o : Option Itr => ∀ itr ∈ o, itr.next = 0) (reserve B b) :=
    fun b =>
      .bind fun o => .pure fun itr hitr => by
        rcases o with _ | reservation
        · cases hitr
        · obtain rfl := Option.some.inj hitr
          rfl
  have hnone : Gives (fun o : Option Itr => ∀ itr ∈ o, itr.next =
      0) (pure none : Talk β (Option Itr)) :=
    .pure fun itr hitr => by cases hitr
  have hopen : Gives (fun o : Option Itr => ∀ itr ∈ o, itr.next = 0) (do
      let w ← get
      if w.vars.useBuiltIn then openDevice B else openRepository B env : Talk β (Option Itr)) := by
    refine .bind fun w => .ite (fun _ => .bind fun o => ?_) fun _ => .bind fun o => ?_
    · rcases o with _ | r
      · exact hnone
      · exact .ite (fun _ => hnone) fun _ => hreserve true
    · rcases o with _ | r
      · exact hnone
      · exact .ite (fun _ => hnone) fun _ => .ite
          (fun _ => .bind fun _ => .ite (fun _ => hreserve false) fun _ => hnone)
          fun _ => .bind fun _ => .ite (fun _ => hreserve false) fun _ => hnone
  refine .bind fun o => ?_
  rcases o with _ | r
  · exact hnone
  · exact .ite (fun _ => hnone) fun _ => .ite (fun _ => hnone) fun _ => .ite
      (fun _ => .bind fun _ => hopen) fun _ => hopen

end Start

/-! ### What is read -/

/-- The header of a record. -/
def headerFor (p : Record × UInt16) : Header := ⟨p.2, p.1.id, p.1.version, p.1.type, p.1.length⟩

/-- The header in a reply is the one of the record. -/
theorem headerOf_carries {p : Record × UInt16} {r : Reply} {id : UInt16} {h : Header}
    (hr : Carries p 0 5 r) (hid : p.1.id = id ∨ id = 0) (h1 : headerOf id r = some h) :
    h = headerFor p := by
  unfold headerOf at h1
  by_cases hshort : r.dataLen < 7 ∨ r.data 6 = 0
  · rw [if_pos hshort] at h1
    cases h1
  · rw [if_neg hshort] at h1
    obtain ⟨hlen, -⟩ := not_or.mp hshort
    have hlen' := p.1.length_bytes
    have hbyte : ∀ i < 5, r.data (2 + i) = p.1.bytes.getD i 0 := fun i hi => by
      simpa using hr.bytes i hi (by omega) (by omega)
    have hidr : ofLe16 (r.data 2) (r.data 3) = p.1.id := by
      rw [hbyte 0 (by omega), hbyte 1 (by omega)]
      exact ofLe16_le16 _
    have hnext := hr.next (by omega)
    have hver : r.data 4 = p.1.version := hbyte 2 (by omega)
    have htype : r.data 5 = p.1.type := hbyte 3 (by omega)
    have hl : r.data 6 = p.1.length := hbyte 4 (by omega)
    obtain rfl := Option.some.inj h1
    have hsame : (if id ≠ 0 ∧ p.1.id ≠ id then id else p.1.id) = p.1.id := by
      refine if_neg fun hne => ?_
      rcases hid with hid | hid
      · exact hne.2 hid
      · exact hne.1 hid
    simp only [headerFor, hidr, hnext, hver, htype, hl, hsame]

/-- The bytes in a reply are those of the record. -/
theorem read_carries {p : Record × UInt16} {r : Reply} {d n : ℕ} (hr : Carries p (5 + d) n r)
    (hlong : 2 + n ≤ r.dataLen) (hle : d + n ≤ p.1.body.length) :
    Mem.read r.data 2 n = (p.1.body.drop d).take n := by
  have hlen := p.1.length_bytes
  refine List.ext_getElem (by simp; omega) fun i h1 h2 => ?_
  rw [length_read] at h1
  rw [getElem_read, List.getElem_take, List.getElem_drop, hr.bytes i h1 (by omega) (by omega),
    Nat.add_assoc,
    p.1.bytes_body (by omega)]

section Serves
variable {β : Type} {I : β → Prop} {B : Bmc β} {R : Repository} {env : Env β}
  {w w' : CmdWorld Vars β}
  (hS : Serves I B R)
include hS

theorem headerTries_serves : ∀ {tries : ℕ} {itr itr' : Itr} {r : Reply} {w : CmdWorld Vars β},
    headerTries B tries itr w = .ok ((some r, itr'), w') → I w.device →
    itr'.next = itr.next ∧ ∃ p, R.find itr.next = some p ∧ Carries p 0 5 r
  | 0, itr, itr', r, w, h, _ => by
    obtain ⟨he, -⟩ := pure_ok.mp h
    cases he
  | tries + 1, itr, itr', r, w, h, hI => by
    obtain ⟨o, w1, ho, h⟩ := bind_ok.mp h
    obtain ⟨hreply, rfl⟩ := ask_ok.mp ho
    have hI1 : I (w.asked B (getRequest itr itr.next 0 5)).device :=
      hS.keeps _ _ (isWalk_getRequest _ _ _ _) hI
    rcases o with _ | r0
    · exact headerTries_serves h hI1
    · by_cases hc5 : r0.ccode = 0xc5
      · simp only [hc5, if_true] at h
        obtain ⟨reservation, w2, h2, h⟩ := bind_ok.mp h
        have hI2 := (quiet_getReservation hS.keeps _ _ _ _ h2).2.2 hI1
        rcases reservation with _ | reservation
        · obtain ⟨he, -⟩ := pure_ok.mp h
          cases he
        · change headerTries B tries { itr with reservation } w2 = _ at h
          have hrest := headerTries_serves h hI2
          exact hrest
      · by_cases hc : r0.ccode = 0
        · simp only [hc, if_false, ne_eq, not_true_eq_false] at h
          obtain ⟨he, -⟩ := pure_ok.mp h
          obtain ⟨he1, rfl⟩ := Prod.mk.inj he
          obtain rfl := Option.some.inj he1
          exact ⟨rfl, hS.answers _ _ _ _ _ _ hI hreply hc⟩
        · simp only [hc5, hc, if_false, ne_eq, not_false_eq_true, if_true] at h
          exact headerTries_serves h hI1

/-- The header that is read is the header of a record of the repository. -/
theorem getNextHeader_serves {itr itr' : Itr} {h : Header}
    (h1 : getNextHeader B itr w = .ok ((some h, itr'), w')) (hI : I w.device) :
    ∃ p, R.find itr.next = some p ∧ h = headerFor p ∧ itr'.next = p.2 := by
  unfold getNextHeader at h1
  by_cases hend : itr.next = 0xffff
  · rw [if_pos hend] at h1
    obtain ⟨he, -⟩ := pure_ok.mp h1
    cases he
  · rw [if_neg hend] at h1
    obtain ⟨r, w1, hr, h1⟩ := bind_ok.mp h1
    obtain ⟨t, w2, ht, hr⟩ := bind_ok.mp hr
    obtain ⟨rfl, rfl⟩ := pure_ok.mp hr
    rcases t with ⟨_ | reply, itr2⟩
    · obtain ⟨he, -⟩ := pure_ok.mp h1
      cases he
    · obtain ⟨hnext, p, hp, hcarries⟩ := headerTries_serves hS ht hI
      have hid : p.1.id = itr.next ∨ itr.next = 0 := by
        obtain ⟨-, -, -, -, hid | ⟨hid, -⟩⟩ := find_some hp
        · exact .inl hid
        · exact .inr hid
      simp only [Option.bind_some] at h1
      rcases hh : headerOf itr.next reply with _ | h0
      · rw [hh] at h1
        obtain ⟨he, -⟩ := pure_ok.mp h1
        cases he
      · rw [hh] at h1
        obtain ⟨he, -⟩ := pure_ok.mp h1
        obtain ⟨he1, rfl⟩ := Prod.mk.inj he
        obtain rfl := Option.some.inj he1
        have hheader := headerOf_carries hcarries hid hh
        exact ⟨p, hp, hheader, by rw [hheader]; rfl⟩

/-- A repository delivers each of its records. -/
theorem Serves.delivers {p : Record × UInt16} (hp : R.find p.1.id = some p) :
    Delivers I B p.1.id p.1.body where
  gets b itr off len hI := hS.keeps b _ (isWalk_getRequest itr _ off len) hI
  reserves b useBuiltIn hI := hS.keeps b _ (isWalk_reserveRequest useBuiltIn) hI
  answers b itr off len r hI hr hc hoff i hi hlong hin := by
    obtain ⟨q, hq, hcarries⟩ := hS.answers b itr _ off len r hI hr hc
    obtain rfl : p = q := Option.some.inj (hp.symm.trans hq)
    have hlen := p.1.length_bytes
    rw [hcarries.bytes i hi hlong (by omega), show off.toNat + i = 5 + (off.toNat - 5 + i) by omega,
      p.1.bytes_body hin, List.getD_eq_getElem?_getD, List.getElem?_eq_getElem hin,
      Option.getD_some]

/-- A record that is read is the one in the repository. -/
theorem getRecord_serves {p : Record × UInt16} (hp : R.find p.1.id = some p) {itr itr' : Itr}
    {out : List UInt8} (h : getRecord B env (headerFor p) itr w = .ok ((some out, itr'), w'))
    (hI : I w.device) : out = p.1.body ∧ itr'.next = itr.next := by
  unfold getRecord at h
  have hne : (headerFor p).length ≠ 0 := p.1.length_ne
  rw [if_neg hne] at h
  obtain ⟨maxRead, w1, hlen, h⟩ := bind_ok.mp h
  obtain ⟨r, w2, hloop, h⟩ := bind_ok.mp h
  obtain ⟨he, rfl⟩ := pure_ok.mp h
  obtain ⟨he1, rfl⟩ := Prod.mk.inj he
  obtain ⟨hr, -⟩ := Option.filter_eq_some_iff.mp he1
  have hI1 := (quiet_readLen hlen).2.2 hI
  obtain ⟨r1, r2⟩ := r
  obtain rfl : r1 = some out := hr
  have hs : Partly I p.1.body itr.next ⟨itr, maxRead, [], w1⟩ := ⟨hI1, ⟨p.1.body, rfl⟩, rfl⟩
  exact recordLoop_delivers (Serves.delivers hS hp) p.1.length_toNat hs hloop

end Serves

/-! ### Faults of the reader, and its iterator -/

section Read
variable {β : Type} {B : Bmc β} {env : Env β}

theorem never_getReservation (b : Bool) {e : Fault} : Never e (getReservation B b) := by
  refine .bind never_ask fun o => ?_
  rcases o with _ | r
  · exact .pure _
  · exact .pure _

theorem never_headerTries {e : Fault} : ∀ (tries : ℕ) (itr : Itr), Never e (headerTries B tries itr)
  | 0, itr => .pure _
  | tries + 1, itr => by
    refine .bind never_ask fun o => ?_
    rcases o with _ | r
    · exact never_headerTries tries itr
    · refine .ite (fun _ => .bind (never_getReservation _) fun o => ?_) fun _ =>
        .ite (fun _ => never_headerTries tries itr) fun _ => .pure _
      rcases o with _ | reservation
      · exact .pure _
      · exact never_headerTries tries _

theorem never_getNextHeader {e : Fault} (itr : Itr) : Never e (getNextHeader B itr) := by
  refine .ite (fun _ => .pure _) fun _ =>
    .bind (.bind (never_headerTries 5 itr) fun _ => .pure _) fun r => ?_
  rcases r with ⟨_ | h, itr'⟩
  · exact .pure _
  · exact .pure _

theorem never_recordLoop (h : Header) : ∀ (fuel : ℕ) (itr : Itr) (maxRead : ℕ) (data : List UInt8),
    Never .nullUnwrap (recordLoop B h fuel itr maxRead data)
  | 0, itr, maxRead, data => .pure _
  | fuel + 1, itr, maxRead, data => by
    refine .ite (fun _ => .pure _) fun _ => .ite (fun _ => .throw (by decide)) fun _ =>
      .bind never_ask fun o => ?_
    rcases o with _ | r
    · exact .bind (.modify _) fun _ => .ite (fun _ => .pure _) fun _ =>
      never_recordLoop h fuel _ _ _
    · refine .ite (fun _ => .bind (.modify _) fun _ => .ite (fun _ => .pure _) fun _ =>
        never_recordLoop h fuel _ _ _) fun _ => .ite (fun _ =>
          .bind (never_getReservation _) fun o => ?_)
        fun _ => .ite (fun _ => .pure _) fun _ => never_recordLoop h fuel _ _ _
      rcases o with _ | reservation
      · exact .pure _
      · exact never_recordLoop h fuel _ _ _

theorem never_getRecord (h : Header) (itr : Itr) : Never .nullUnwrap (getRecord B env h itr) := by
  refine .ite (fun _ => .pure _) fun _ =>
    .bind (.bind .get fun w => .ite (fun _ => .throw (by decide)) fun _ =>
    .ite (fun _ => .pure _) fun _ => .ite (fun _ => .throw (by decide)) fun _ =>
      .bind (.set _) fun _ => .pure _) fun n =>
    .bind (never_recordLoop h _ _ _ _) fun _ => .pure _

theorem never_sdrStart {e : Fault} : Never e (sdrStart B env) := by
  have hreserve : ∀ b, Never e (reserve B b) :=
    fun b => .bind (never_getReservation b) fun _ => .pure _
  have hfill : Never e (fillEmpty env) := .bind .get fun w => .bind (.set _) fun _ => .pure _
  have hopen : Never e (do
      let w ← get
      if w.vars.useBuiltIn then openDevice B else openRepository B env : Talk β (Option Itr)) := by
    refine .bind .get fun w => .ite (fun _ => .bind never_ask fun o => ?_) fun _ =>
      .bind never_ask fun o => ?_
    · rcases o with _ | r
      · exact .pure _
      · exact .ite (fun _ => .pure _) fun _ => hreserve true
    · rcases o with _ | r
      · exact .pure _
      · exact .ite (fun _ => .pure _) fun _ => .ite
          (fun _ => .bind hfill fun _ => .ite (fun _ => hreserve false) fun _ => .pure _)
          fun _ => .bind (.pure _) fun _ => .ite (fun _ => hreserve false) fun _ => .pure _
  refine .bind never_ask fun o => ?_
  rcases o with _ | r
  · exact .pure _
  · exact .ite (fun _ => .pure _) fun _ => .ite (fun _ => .pure _) fun _ => .ite
      (fun _ => .bind (.modify _) fun _ => hopen) fun _ => hopen

theorem gives_headerTries : ∀ (tries : ℕ) (itr : Itr),
    Gives (fun r : Option Reply × Itr => r.2.next = itr.next) (headerTries B tries itr)
  | 0, itr => .pure rfl
  | tries + 1, itr => by
    refine .bind fun o => ?_
    rcases o with _ | r
    · exact gives_headerTries tries itr
    · refine .ite (fun _ => .bind fun o => ?_) fun _ =>
        .ite (fun _ => gives_headerTries tries itr) fun _ => .pure rfl
      rcases o with _ | reservation
      · exact .pure rfl
      · exact gives_headerTries tries { itr with reservation }

/-- A header that cannot be read leaves the iterator in its place. -/
theorem getNextHeader_none {itr itr' : Itr} {w w' : CmdWorld Vars β}
    (h : getNextHeader B itr w = .ok ((none, itr'), w')) : itr'.next = itr.next := by
  unfold getNextHeader at h
  by_cases hend : itr.next = 0xffff
  · rw [if_pos hend] at h
    obtain ⟨he, -⟩ := pure_ok.mp h
    rw [(Prod.mk.inj he).2]
  · rw [if_neg hend] at h
    obtain ⟨r, w1, hr, h⟩ := bind_ok.mp h
    obtain ⟨t, w2, ht, hr⟩ := bind_ok.mp hr
    obtain ⟨rfl, rfl⟩ := pure_ok.mp hr
    have hnext := gives_headerTries 5 itr _ _ _ ht
    rcases hheader : t.1.bind (headerOf itr.next) with _ | header
    · rw [hheader] at h
      obtain ⟨he, -⟩ := pure_ok.mp h
      rw [← (Prod.mk.inj he).2]
      exact hnext
    · rw [hheader] at h
      obtain ⟨he, -⟩ := pure_ok.mp h
      cases he

theorem gives_recordLoop (h : Header) : ∀ (fuel : ℕ) (itr : Itr) (maxRead : ℕ) (data : List UInt8),
    Gives (fun r : Option (List UInt8) × Itr => r.2.next = itr.next)
      (recordLoop B h fuel itr maxRead data)
  | 0, itr, maxRead, data => .pure rfl
  | fuel + 1, itr, maxRead, data => by
    refine .ite (fun _ => .pure rfl) fun _ =>
      .ite (fun _ _ _ _ hx => (throw_ok.mp hx).elim) fun _ =>
      .bind fun o => ?_
    rcases o with _ | r
    · exact .bind fun _ => .ite (fun _ => .pure rfl) fun _ => gives_recordLoop h fuel _ _ _
    · refine .ite (fun _ => .bind fun _ => .ite
      (fun _ => .pure rfl) fun _ => gives_recordLoop h fuel _ _ _)
        fun _ => .ite (fun _ => .bind fun o => ?_) fun _ => .ite (fun _ => .pure rfl) fun _ =>
          gives_recordLoop h fuel _ _ _
      rcases o with _ | reservation
      · exact .pure rfl
      · exact gives_recordLoop h fuel { itr with reservation } _ _

theorem getRecord_next {h : Header} {itr itr' : Itr} {o : Option (List UInt8)}
    {w w' : CmdWorld Vars β}
    (h1 : getRecord B env h itr w = .ok ((o, itr'), w')) : itr'.next = itr.next := by
  have hgives : Gives (fun r : Option (List UInt8) × Itr => r.2.next =
      itr.next) (getRecord B env h itr) := by
    refine .ite (fun _ => .pure rfl) fun _ => .bind fun n => ?_
    intro w r w' hr
    obtain ⟨r0, w1, hloop, hr⟩ := bind_ok.mp hr
    obtain ⟨rfl, -⟩ := pure_ok.mp hr
    have hnext := gives_recordLoop h _ _ _ _ _ _ _ hloop
    exact hnext
  exact hgives _ _ _ h1

/-- Reading a header leaves the variables alone. -/
theorem vars_getNextHeader (itr : Itr) :
    Moves (Frame.same fun w : CmdWorld Vars β => w.vars) (getNextHeader B itr) := by
  have hask : ∀ c, Moves (Frame.same fun w : CmdWorld Vars β => w.vars) (sendrecv B c) :=
    fun c w r w' h => by
      obtain ⟨-, rfl⟩ := ask_ok.mp h
      rfl
  have htries : ∀ tries itr,
      Moves (Frame.same fun w : CmdWorld Vars β => w.vars) (headerTries B tries itr) := by
    intro tries
    induction tries with
    | zero => exact fun itr => .pure _
    | succ tries ih =>
      intro itr
      refine .bind (hask _) fun o => ?_
      rcases o with _ | r
      · exact ih itr
      · refine .ite (fun _ => .bind (.bind (hask _) fun o => ?_) fun o => ?_) fun _ =>
          .ite (fun _ => ih itr) fun _ => .pure _
        · rcases o with _ | r
          · exact .pure _
          · exact .pure _
        · rcases o with _ | reservation
          · exact .pure _
          · exact ih _
  refine .ite (fun _ => .pure _) fun _ => .bind (.bind (htries 5 itr) fun _ => .pure _) fun r => ?_
  rcases r with ⟨_ | h, itr'⟩
  · exact .pure _
  · exact .pure _

/-- The length of the reads does not become negative before the loop gives up. -/
theorem round_nonneg {h : Header} {s s' : Loop β} (hs : 0 ≤ s.world.vars.maxRead)
    (hround : Round B h s s') :
    0 ≤ s'.world.vars.maxRead := by
  rcases hround with ⟨-, hcount⟩ | ⟨-, -, hnew⟩ | ⟨-, -, -⟩
  · change 0 ≤ (s.count h : ℤ) - 1
    omega
  · obtain ⟨o, ho⟩ := getReservation_eq (B := B) s.itr.useBuiltIn (s.asked B h)
    rw [ho] at hnew
    obtain ⟨-, rfl⟩ := Prod.mk.inj (Except.ok.inj hnew)
    exact hs
  · exact hs

/-- What is set at first is not negative. -/
theorem readLen_nonneg {n : ℕ} {w w' : CmdWorld Vars β} (h : readLen env w = .ok (n, w')) :
    0 ≤ w'.vars.maxRead := by
  unfold readLen at h
  obtain ⟨_, _, hget, h⟩ := bind_ok.mp h
  obtain ⟨rfl, rfl⟩ := get_ok.mp hget
  by_cases hneg : w.vars.maxRead < 0
  · rw [if_pos hneg] at h
    exact (throw_ok.mp h).elim
  rw [if_neg hneg] at h
  split_ifs at h
  · obtain ⟨-, rfl⟩ := pure_ok.mp h
    omega
  · exact (throw_ok.mp h).elim
  · obtain ⟨_, _, hset, h⟩ := bind_ok.mp h
    obtain rfl := set_ok.mp hset
    obtain ⟨-, rfl⟩ := pure_ok.mp h
    exact Int.natCast_nonneg _

theorem getRecord_nonneg {h : Header} {itr itr' : Itr} {data : List UInt8} {w w' : CmdWorld Vars β}
    (h1 : getRecord B env h itr w = .ok ((some data, itr'), w')) : 0 ≤ w'.vars.maxRead := by
  unfold getRecord at h1
  split_ifs at h1
  · obtain ⟨he, -⟩ := pure_ok.mp h1
    cases he
  · obtain ⟨n, w1, hlen, h1⟩ := bind_ok.mp h1
    obtain ⟨⟨o, itr2⟩, w2, hloop, h1⟩ := bind_ok.mp h1
    obtain ⟨he, rfl⟩ := pure_ok.mp h1
    obtain ⟨ho, -⟩ := Option.filter_eq_some_iff.mp (Prod.mk.inj he).1
    obtain rfl : o = some data := ho
    obtain ⟨_, hend, _⟩ := recordLoop_returns (P := fun s => 0 ≤ s.world.vars.maxRead)
      (fun _ _ hs _ _ hround => round_nonneg hs hround) (s := ⟨itr, n, [], w1⟩)
        (readLen_nonneg hlen) hloop
    exact hend

/-- A record that is read has a length that is right for its type. -/
theorem getRecord_valid {h : Header} {itr itr' : Itr} {data : List UInt8} {w w' : CmdWorld Vars β}
    (h1 : getRecord B env h itr w = .ok ((some data, itr'), w')) :
    recordLengthValid h.type data = true := by
  unfold getRecord at h1
  split_ifs at h1
  · obtain ⟨he, -⟩ := pure_ok.mp h1
    cases he
  · obtain ⟨n, w1, -, h1⟩ := bind_ok.mp h1
    obtain ⟨r, w2, -, h1⟩ := bind_ok.mp h1
    obtain ⟨he, -⟩ := pure_ok.mp h1
    exact (Option.filter_eq_some_iff.mp (Prod.mk.inj he).1).2

end Read

/-! ### A BMC for a repository -/

/-- A BMC that holds a repository, serves it, and accepts parts of further records. -/
def serving (R : Repository) : Bmc Unit := fun _ c =>
  let reply : Reply :=
    if c.netfn = netfnAppCmd then .of [0x20, 0, 0, 0, 0x02, 0x02]
    else if c.cmd = 0x20 then .of [0x51, UInt8.ofNat R.records.length, 0]
    else if c.cmd = 0x22 ∨ c.cmd = 0x25 then .of [1, 0]
    else if c.cmd = 0x23 ∨ c.cmd = 0x21 then
      match R.find (ofLe16 (c.data.getD 2 0) (c.data.getD 3 0)) with
      | none => { ccode := 0xcb }
      | some p =>
        .of (le16 p.2 ++ (p.1.bytes.drop (c.data.getD 4 0).toNat).take (c.data.getD 5 0).toNat)
    else { ccode := 0xc1 }
  (some reply, ())

theorem serving_getRequest (R : Repository) (b : Unit) (itr : Itr) (id : UInt16) (off len : UInt8) :
    (serving R b (getRequest itr id off len)).1 = some (match R.find id with
      | none => { ccode := 0xcb }
      | some p => Reply.of (le16 p.2 ++ (p.1.bytes.drop off.toNat).take len.toNat)) := by
  have hid : ofLe16 ((getRequest itr id off len).data.getD 2 0)
      ((getRequest itr id off len).data.getD 3 0) = id :=
    ofLe16_le16 id
  have happ : (getRequest itr id off len).netfn ≠ netfnAppCmd := by
    rcases h : itr.useBuiltIn <;> simp [getRequest, sdrNetfn, h, netfnAppCmd, netfnSensor,
      netfnStorage]
  have hcmd : (getRequest itr id off len).cmd = 0x23 ∨ (getRequest itr id off len).cmd = 0x21 := by
    rcases h : itr.useBuiltIn <;> simp [getRequest, h]
  have h1 : (getRequest itr id off len).cmd ≠ 0x20 := by
    rcases hcmd with h | h <;> rw [h] <;> decide
  have h2 : ¬ ((getRequest itr id off len).cmd = 0x22 ∨
      (getRequest itr id off len).cmd = 0x25) := by
    rcases hcmd with h | h <;> rw [h] <;> decide
  unfold serving
  rw [if_neg happ, if_neg h1, if_neg h2, if_pos hcmd, hid]
  rfl

/-- The reply of the BMC has the part of the record that was asked for. -/
theorem carries_of (p : Record × UInt16) (off len : ℕ) :
    Carries p off len (Reply.of (le16 p.2 ++ (p.1.bytes.drop off).take len)) := by
  constructor
  · intro _
    exact ofLe16_le16 _
  · intro i hi hlong hin
    have hget : (le16 p.2 ++ (p.1.bytes.drop off).take len)[2 + i]? = p.1.bytes[off + i]? := by
      rw [List.getElem?_append_right (by simp), length_le16, Nat.add_sub_cancel_left,
        List.getElem?_take_of_lt hi, List.getElem?_drop]
    simp only [Reply.of, List.getD_eq_getElem?_getD, hget]

theorem serves_serving (R : Repository) : Serves (fun _ => True) (serving R) R where
  keeps _ _ _ _ := trivial
  answers b itr id off len r _ hr hc := by
    rw [serving_getRequest] at hr
    obtain rfl := Option.some.inj hr
    rcases hfind : R.find id with _ | p
    · rw [hfind] at hc
      cases hc
    · exact ⟨p, rfl, carries_of p _ _⟩

end Ipmitool.Sdr.Served
