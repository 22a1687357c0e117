import Ipmitool.Sdr.Cache
import Ipmitool.Sdr.Served

/-! # Dumping and filling a repository

`sdrReadRecords` and `sdrAddRecord` of `cmd/sdr.zig`, which write the records of a dump back to a
BMC, and what they have to do with `dumpBin`: the queue has the records of the repository
(`readRecords_dumpFile`, `dumpWalk_serves`), and the requests for a record are a `Tiling` of its
bytes (`sdrAddRecord_tiles`). -/

namespace Ipmitool.Sdr.Fill

open Ipmitool.Lib Ipmitool.Lib.Mem Ipmitool.Lib.Bytes Ipmitool.Lib.Machine Ipmitool.Lib.Dialogue
open Ipmitool.Core.Types hiding Entry
open Ipmitool.Core.Interface Ipmitool.Sdr.Records Ipmitool.Sdr.Walk Ipmitool.Sdr.Cache
  Ipmitool.Sdr.Served

/-! ### Reading a dump -/

/-- The loop of `sdrReadRecords`; none if a record has no data or is not complete. -/
def readRecords : ℕ → List UInt8 → Option (List Entry)
  | 0, _ => some []
  | fuel + 1, bytes =>
    if bytes = [] then some []
    else if bytes.length < 5 then none
    else
      let id := ofLe16 (bytes.getD 0 0) (bytes.getD 1 0)
      let length := bytes.getD 4 0
      let raw := (bytes.drop 5).take length.toNat
      if length = 0 then none
      else if raw.length ≠ length.toNat then none
      else (readRecords fuel (bytes.drop (5 + length.toNat))).map fun queue =>
        { id, version := bytes.getD 2 0, type := bytes.getD 3 0, length, raw := some raw } :: queue

/-- `sdrReadRecords`: the queue, or none if the file cannot be opened or read. -/
def sdrReadRecords (file : Option (List UInt8)) : Option (List Entry) :=
  file.bind fun bytes => readRecords bytes.length bytes

/-! ### Adding a record -/

section
variable {β : Type} (B : Bmc β)

/-- `SdrAddRq`, with its data. -/
def addRequest (reservation id : UInt16) (offset inProgress : UInt8)
    (data : List UInt8) : Command :=
  ⟨netfnStorage, 0, 0x25, le16 reservation ++ le16 id ++ [offset, inProgress] ++ data⟩

/-- `sdr_max_write_len`. -/
def maxWriteLen : ℕ := 19

/-- `partialSend`. -/
def partialSend (c : Command) : Talk β (Option UInt16) := do
  match ← sendrecv B c with
  | none => return none
  | some r =>
    return if r.ccode ≠ 0 ∨ r.dataLen < 2 then none else some (ofLe16 (r.data 0) (r.data 1))

/-- The loop of `sdrAddRecord`, from the byte `i` of the record on. -/
def addLoop (reservation : UInt16) (raw : List UInt8) (len : ℕ) : ℕ → UInt16 → ℕ → Talk β ℤ
  | 0, _, _ => return 0
  | fuel + 1, id, i => do
    if len ≤ i then return 0
    else
      let n := if len - i ≤ maxWriteLen then len - i else maxWriteLen
      let inProgress := if len - i ≤ maxWriteLen then 1 else 0
      match ← partialSend B (addRequest reservation id (UInt8.ofNat (i + 5)) inProgress
        ((raw.drop i).take n)) with
      | none => return -1
      | some id => addLoop reservation raw len fuel id (i + n)

/-- `sdrAddRecord`. -/
def sdrAddRecord (e : Entry) : Talk β ℤ := do
  match e.raw with
  | none => return 0
  | some raw =>
    if e.length = 0 then return 0
    else
      match ← getReservation B false with
      | none => return -1
      | some reservation =>
        match ← partialSend B (addRequest reservation 0 0 0 (fileHeader e)) with
        | none => return -1
        | some id => addLoop B reservation raw e.length.toNat e.length.toNat id 0

end

/-! ### The file -/

/-- The entry for a record in a queue. -/
def dumped (r : Record) : Entry where
  id := r.id
  version := r.version
  type := r.type
  length := r.length
  raw := some r.body

theorem dumpFile_dumped (rs : List Record) :
    dumpFile (rs.map dumped) = (rs.flatMap fun r => fileHeader (dumped r) ++ r.body, true) := by
  induction rs with
  | nil => rfl
  | cons r rs ih =>
    have htake : r.body.take r.length.toNat = r.body := by rw [r.length_toNat, List.take_length]
    simp only [List.map_cons, dumpFile, ih, List.flatMap_cons, dumped] at *
    rw [htake]

theorem readRecords_dumpFile (rs : List Record) : ∀ {fuel : ℕ},
    (rs.flatMap fun r => fileHeader (dumped r) ++ r.body).length ≤ fuel →
    readRecords fuel (rs.flatMap fun r => fileHeader (dumped r) ++ r.body) =
      some (rs.map dumped) := by
  induction rs with
  | nil =>
    intro fuel _
    cases fuel <;> rfl
  | cons r rs ih =>
    intro fuel hfuel
    have hheader : ∀ rest : List UInt8, fileHeader (dumped r) ++ r.body ++ rest =
        [r.id.toUInt8, (r.id >>> 8).toUInt8, r.version, r.type, r.length] ++ (r.body ++ rest) := by
      intro rest
      simp [fileHeader, dumped, le16]
    rw [List.flatMap_cons, hheader] at hfuel ⊢
    set rest := rs.flatMap fun r => fileHeader (dumped r) ++ r.body
    obtain _ | fuel := fuel
    · simp at hfuel
    · have hrest : rest.length ≤ fuel := by
        simp only [List.length_append, List.length_cons] at hfuel
        omega
      rw [readRecords]
      simp only [List.cons_append, List.nil_append, reduceCtorEq, if_false, List.getD_cons_zero,
        List.getD_cons_succ, List.length_cons, List.drop_succ_cons, List.drop_zero, r.length_toNat,
        r.length_ne, ofLe16_le16, List.take_left', List.map_cons]
      rw [if_neg (by omega), if_neg (by simp), Nat.add_comm 5]
      simp only [List.drop_succ_cons, List.drop_left', ih hrest, Option.map_some, dumped]

/-! ### The walk of a dump -/

/-- Every record of the repository can be read: its header within the tries of `getHeader`, and its
data by `getRecord`, as long as the length of the reads is not negative. -/
structure Readable {β : Type} (I : β → Prop) (B : Bmc β) (env : Env β) (R : Repository) : Prop where
  header : ∀ (w : CmdWorld Vars β) itr p, I w.device → R.find itr.next = some p →
    ∃ h itr' w', getHeader B itr w = .ok ((some h, itr'), w')
  record : ∀ (w : CmdWorld Vars β) itr p, I w.device → 0 ≤ w.vars.maxRead → R.find p.1.id = some p →
    ∃ data itr' w', getRecord B env (headerFor p) itr w = .ok ((some data, itr'), w')

section Dump
variable {β : Type} {I : β → Prop} {B : Bmc β} {R : Repository} {env : Env β}

theorem getNextHeader_readable (hread : Readable I B env R) {itr : Itr} {w : CmdWorld Vars β}
    {p : Record × UInt16} (hI : I w.device) (hp : R.find itr.next = some p) :
    ∃ h itr' w', getNextHeader B itr w = .ok ((some h, itr'), w') := by
  have hend : itr.next ≠ 0xffff := by
    intro he
    rw [he, find_end] at hp
    cases hp
  obtain ⟨h, itr', w', hh⟩ := hread.header w itr p hI hp
  refine ⟨h, { itr' with next := h.next }, w', ?_⟩
  unfold getNextHeader
  rw [if_neg hend]
  exact bind_ok.mpr ⟨_, _, hh, rfl⟩

theorem dumpWalk_serves (hS : Serves I B R) (hread : Readable I B env R) :
    ∀ {rs pre : List Record} {turns : ℕ} {itr : Itr} {w : CmdWorld Vars β} {l : List Entry},
    R.records = pre ++ rs → R.find itr.next = front rs → rs.length < turns → I w.device →
    0 ≤ w.vars.maxRead →
    Linked.Holds w.vars.list l →
    ∃ w', dumpWalk B env turns itr w = .ok (true, w') ∧
    Linked.Holds w'.vars.list (l ++ rs.map dumped)
  | rs, pre, 0, itr, w, l, _, _, hturns, _, _, _ => by omega
  | [], pre, turns + 1, itr, w, l, _, hfind, _, hI, _, hl => by
    obtain ⟨⟨o, itr'⟩, w1, h1⟩ := returns_of_never (fun e => never_getNextHeader itr) w
    have hquiet := quiet_getNextHeader hS.keeps _ _ _ _ h1
    rcases o with _ | h
    · refine ⟨w1, bind_ok.mpr ⟨_, _, h1, rfl⟩, ?_⟩
      rw [hquiet.1]
      simpa using hl
    · obtain ⟨p, hp, -⟩ := getNextHeader_serves hS h1 hI
      rw [hfind] at hp
      cases hp
  | r :: rs, pre, turns + 1, itr, w, l, hR, hfind, hturns, hI, hmax, hl => by
    obtain ⟨h, itr1, w1, h1⟩ := getNextHeader_readable hread hI hfind
    obtain ⟨p, hp, hheader, hnext⟩ := getNextHeader_serves hS h1 hI
    obtain rfl : (r, nextId rs) = p := Option.some.inj (hfind.symm.trans hp)
    obtain ⟨hlist1, -, hkeep1⟩ := quiet_getNextHeader hS.keeps _ _ _ _ h1
    have hfound : R.find r.id = some (r, nextId rs) := find_append hR
    have hvars1 : w1.vars = w.vars := (vars_getNextHeader itr).rel h1
    have hmax1 : 0 ≤ w1.vars.maxRead := hvars1 ▸ hmax
    obtain ⟨data, itr2, w2, h2⟩ := hread.record w1 itr1 (r, nextId rs) (hkeep1 hI) hmax1 hfound
    obtain ⟨hdata, hnext2⟩ := getRecord_serves hS hfound h2 (hkeep1 hI)
    obtain ⟨hlist2, -, hkeep2⟩ := quiet_getRecord hS.keeps _ _ _ _ _ h2
    have hmax2 := getRecord_nonneg h2
    have hl2 : Linked.Holds w2.vars.list l := hlist2.trans hlist1 ▸ hl
    obtain ⟨c, happend, hc⟩ := cacheAppend_ok (dumped r) hl2
    have hR' : R.records = (pre ++ [r]) ++ rs := by rw [hR]; simp
    have hfind' : R.find itr2.next = front rs := by
      rw [hnext2, hnext]
      exact find_nextId hR'
    have hturns' : rs.length < turns := by simpa using hturns
    obtain ⟨w', hw', hholds⟩ := dumpWalk_serves hS hread
      (w := { w2 with vars := { w2.vars with list := c } }) hR' hfind' hturns' (hkeep2 (hkeep1 hI))
      hmax2 hc
    refine ⟨w', ?_, by simpa using hholds⟩
    subst hheader hdata
    exact bind_ok.mpr ⟨_, _, h1, bind_ok.mpr ⟨_, _, h2, bind_ok.mpr ⟨_, _, happend, hw'⟩⟩⟩

end Dump

/-! ### The requests for a record -/

/-- A request to add a part of a record. -/
structure Piece where
  offset : ℕ
  inProgress : UInt8
  bytes : List UInt8

def pieceOf (x : Exchange) : Piece where
  offset := (x.1.data.getD 4 0).toNat
  inProgress := x.1.data.getD 5 0
  bytes := x.1.data.drop 6

/-- The pieces cover the bytes from an offset on, one behind the other, and only the last one says
so. -/
inductive Tiling : ℕ → List UInt8 → List Piece → Prop
  | last {off : ℕ} {bytes : List UInt8} : bytes ≠ [] → Tiling off bytes [⟨off, 1, bytes⟩]
  | cons {off : ℕ} {bytes rest : List UInt8} {ps : List Piece} : bytes ≠ [] →
      Tiling (off + bytes.length) rest ps → Tiling off (bytes ++ rest) (⟨off, 0, bytes⟩ :: ps)

/-- The BMC grants a reservation and accepts every part of a record. -/
structure Accepts {β : Type} (J : β → Prop) (A : Bmc β) : Prop where
  reserves : ∀ b, J b → ∃ r, (A b (reserveRequest false)).1 = some r ∧ r.ccode = 0 ∧
    J (A b (reserveRequest false)).2
  adds : ∀ b reservation id offset inProgress data, J b →
    ∃ r, (A b (addRequest reservation id offset inProgress data)).1 = some r ∧ r.ccode = 0 ∧
      2 ≤ r.dataLen ∧
      J (A b (addRequest reservation id offset inProgress data)).2

/-- The exchanges are requests to add the parts of a record: the header, and then the data. -/
def Uploads (e : Entry) (evs : List Exchange) : Prop :=
  (∀ x ∈ evs, x.1.netfn = netfnStorage ∧ x.1.cmd = 0x25) ∧
    ∃ pieces, evs.map pieceOf = ⟨0, 0, fileHeader e⟩ :: pieces ∧
      Tiling 0 (fileHeader e ++ e.raw.getD []) (evs.map pieceOf)

theorem pieceOf_addRequest (reservation id : UInt16) (offset inProgress : UInt8) (data : List UInt8)
    (o : Option Reply) : pieceOf (addRequest reservation id offset inProgress data, o) =
      ⟨offset.toNat, inProgress, data⟩ := by
  simp [pieceOf, addRequest, le16]

section Add
variable {β : Type} {J : β → Prop} {A : Bmc β}

theorem partialSend_accepts (hA : Accepts J A) {w : CmdWorld Vars β} (hJ : J w.device)
    (reservation id : UInt16) (offset inProgress : UInt8) (data : List UInt8) :
    ∃ id' o w', partialSend A (addRequest reservation id offset inProgress data) w =
      .ok (some id', w') ∧
      J w'.device ∧ w'.log = w.log ++ [(addRequest reservation id offset inProgress data, o)] := by
  obtain ⟨r, hr, hc, hlen, hJ'⟩ := hA.adds w.device reservation id offset inProgress data hJ
  have hgood : ¬ (r.ccode ≠ 0 ∨ r.dataLen < 2) := by
    rintro (h | h)
    · exact h hc
    · omega
  refine ⟨ofLe16 (r.data 0) (r.data 1), _, w.asked A _,
    bind_ok.mpr ⟨some r, _, ask_ok.mpr ⟨hr, rfl⟩, ?_⟩, hJ', rfl⟩
  exact pure_ok.mpr ⟨if_neg hgood, rfl⟩

theorem addLoop_tiles (hA : Accepts J A) (reservation : UInt16) {raw : List UInt8}
    (hraw : raw.length ≤ 250) :
    ∀ (id : UInt16) {fuel i : ℕ} {w : CmdWorld Vars β}, J w.device → i < raw.length →
    raw.length - i ≤ fuel →
    ∃ evs w', addLoop A reservation raw raw.length fuel id i w = .ok (0, w') ∧
      w'.log = w.log ++ evs ∧
      (∀ x ∈ evs, x.1.netfn = netfnStorage ∧ x.1.cmd = 0x25) ∧ Tiling (5 + i) (raw.drop i)
        (evs.map pieceOf)
  | id, 0, i, w, _, hi, hfuel => by omega
  | id, fuel + 1, i, w, hJ, hi, hfuel => by
    have hoff : (UInt8.ofNat (i + 5)).toNat = 5 + i := by
      simp only [UInt8.toNat_ofNat']
      omega
    unfold addLoop
    rw [if_neg (by omega)]
    by_cases hlast : raw.length - i ≤ maxWriteLen
    · -- the last part: the loop ends behind it
      have htake : (raw.drop i).take (raw.length - i) = raw.drop i := by
        rw [List.take_of_length_le (by simp)]
      obtain ⟨id', o, w1, h1, -, hlog⟩ :=
        partialSend_accepts hA hJ reservation id (UInt8.ofNat (i + 5)) 1
          (raw.drop i)
      refine ⟨_, w1, ?_, hlog, by simp [addRequest], ?_⟩
      · simp only [if_pos hlast, htake]
        refine bind_ok.mpr ⟨_, _, h1, ?_⟩
        rw [Nat.add_sub_cancel' hi.le]
        rcases fuel with _ | fuel
        · rfl
        · simp only [addLoop, le_refl, if_true]
          rfl
      · rw [List.map_singleton, pieceOf_addRequest, hoff]
        refine .last ?_
        rw [ne_eq, List.drop_eq_nil_iff]
        omega
    · have hlen : ((raw.drop i).take maxWriteLen).length = maxWriteLen := by
        rw [List.length_take, List.length_drop]
        omega
      have hmax : maxWriteLen = 19 := rfl
      obtain ⟨id', o, w1, h1, hJ1, hlog⟩ :=
        partialSend_accepts hA hJ reservation id (UInt8.ofNat (i + 5)) 0
          ((raw.drop i).take maxWriteLen)
      have hfuel' : raw.length - (i + maxWriteLen) ≤ fuel := by omega
      obtain ⟨evs, w2, h2, hlog2, hcmd, htiles⟩ :=
        addLoop_tiles hA reservation hraw id' hJ1 (by omega) hfuel'
      refine ⟨_ :: evs, w2, ?_,
        by rw [hlog2, hlog, List.append_assoc, List.singleton_append], ?_, ?_⟩
      · simp only [if_neg hlast]
        exact bind_ok.mpr ⟨_, _, h1, h2⟩
      · intro x hx
        rcases List.mem_cons.mp hx with rfl | hx
        · exact ⟨rfl, rfl⟩
        · exact hcmd x hx
      · have hne : (raw.drop i).take maxWriteLen ≠ [] := by
          intro h
          rw [h] at hlen
          cases hlen
        have hrest : Tiling (5 + i + ((raw.drop i).take maxWriteLen).length)
            ((raw.drop i).drop maxWriteLen)
            (evs.map pieceOf) := by
          rw [hlen, List.drop_drop, Nat.add_assoc]
          exact htiles
        have hall := Tiling.cons hne hrest
        rw [List.take_append_drop] at hall
        rw [List.map_cons, pieceOf_addRequest, hoff]
        exact hall

theorem sdrAddRecord_tiles (hA : Accepts J A) (r : Record) (hle : r.body.length ≤ 250)
    {w : CmdWorld Vars β}
    (hJ : J w.device) : ∃ o evs w', sdrAddRecord A (dumped r) w = .ok (0, w') ∧
      w'.log = w.log ++ (reserveRequest false, o) :: evs ∧ Uploads (dumped r) evs := by
  obtain ⟨reply, hreply, hc, hJ1⟩ := hA.reserves w.device hJ
  have h1 : getReservation A false w =
      .ok (some (ofLe16 (reply.data 0) (reply.data 1)), w.asked A (reserveRequest false)) :=
    bind_ok.mpr ⟨_, _, ask_ok.mpr ⟨hreply, rfl⟩, by simp [hc]⟩
  set w1 := w.asked A (reserveRequest false) with hw1
  set reservation := ofLe16 (reply.data 0) (reply.data 1)
  obtain ⟨id, o, w2, h2, hJ2, hlog2⟩ := partialSend_accepts hA (w := w1) hJ1 reservation 0 0 0
    (fileHeader (dumped r))
  have hpos : 0 < r.body.length := List.length_pos_iff.mpr r.body_ne
  obtain ⟨evs, w3, h3, hlog3, hcmd, htiles⟩ := addLoop_tiles hA reservation hle id hJ2 hpos le_rfl
  refine ⟨(A w.device (reserveRequest false)).1,
    (addRequest reservation 0 0 0 (fileHeader (dumped r)), o) :: evs, w3, ?_, ?_, ?_, ?_⟩
  · unfold sdrAddRecord
    have hne : (dumped r).length ≠ 0 := r.length_ne
    have hlen : (dumped r).length.toNat = r.body.length := r.length_toNat
    change (ite ((dumped r).length = 0) _ _ : Talk β ℤ) w = _
    rw [if_neg hne]
    refine bind_ok.mpr ⟨_, _, h1, ?_⟩
    refine bind_ok.mpr ⟨_, _, h2, ?_⟩
    rw [hlen]
    exact h3
  · rw [hlog3, hlog2, hw1, World.asked_log]
    simp
  · intro x hx
    rcases List.mem_cons.mp hx with rfl | hx
    · exact ⟨rfl, rfl⟩
    · exact hcmd x hx
  · refine ⟨evs.map pieceOf, by rw [List.map_cons, pieceOf_addRequest]; rfl, ?_⟩
    rw [List.map_cons, pieceOf_addRequest]
    exact .cons (by simp [fileHeader]) (by simpa [fileHeader, dumped] using htiles)

end Add

/-! ### Dump and refill -/

/-- **A dump has the records of the repository, and filling a BMC with it sends them whole.** -/
theorem dump_refill {β : Type} {I : β → Prop} {B : Bmc β} {env : Env β} {R : Repository}
    (hS : Serves I B R) (hread : Readable I B env R) {turns : ℕ} (hturns : R.records.length < turns)
    {w w1 : CmdWorld Vars β}
    {itr : Itr} (hempty : Linked.Holds w.vars.list [])
    (hstart : sdrStart B env w = .ok (some itr, w1)) (hI : I w1.device)
    (hmax : 0 ≤ w1.vars.maxRead) :
    ∃ file w' queue, dumpBin B env turns true w = .ok ((true, file), w') ∧
      sdrReadRecords (some file) = some queue ∧ queue = R.records.map dumped ∧
      ∀ e ∈ queue, e.length.toNat ≤ 250 → ∀ {γ : Type} {J : γ → Prop} {A : Bmc γ}, Accepts J A →
        ∀ v : CmdWorld Vars γ, J v.device → ∃ o evs v', sdrAddRecord A e v = .ok (0, v') ∧
          v'.log = v.log ++ (reserveRequest false, o) :: evs ∧ Uploads e evs := by
  have hnext : itr.next = 0 := gives_sdrStart _ _ _ hstart itr rfl
  have hlist : w1.vars.list = w.vars.list :=
    (quiet_sdrStart (I := fun _ => True) (fun _ _ _ => id) (fun _ _ => id) _ _ _ hstart).1
  obtain ⟨w2, h2, hholds⟩ := dumpWalk_serves hS hread (l := []) (List.nil_append _).symm
    (by rw [hnext]; exact find_first R) hturns hI hmax (hlist ▸ hempty)
  rw [List.nil_append] at hholds
  refine ⟨R.records.flatMap fun r => fileHeader (dumped r) ++ r.body, w2, R.records.map dumped, ?_,
    readRecords_dumpFile R.records le_rfl, rfl, ?_⟩
  · refine bind_ok.mpr ⟨_, _, hstart, bind_ok.mpr ⟨_, _, h2, ?_⟩⟩
    simp only [not_true_eq_false, if_false]
    refine bind_ok.mpr ⟨R.records.map dumped, w2, ?_, ?_⟩
    · exact bind_ok.mpr ⟨w2, w2, rfl, pure_ok.mpr ⟨hholds.toList_eq, rfl⟩⟩
    · rw [dumpFile_dumped]
      rfl
  · intro e he hle γ J A hA v hJ
    obtain ⟨r, -, rfl⟩ := List.mem_map.mp he
    exact sdrAddRecord_tiles hA r (r.length_toNat ▸ hle) hJ

section Serving
variable {R : Repository}

/-- The BMC that holds the repository sends every part that is asked for. -/
theorem recordLoop_serving {p : Record × UInt16} (hp : R.find p.1.id = some p)
    (hle : p.1.body.length ≤ 250) :
    ∀ {fuel maxRead : ℕ} (itr : Itr) {data : List UInt8} (w : CmdWorld Vars Unit), 0 < maxRead →
    data <+: p.1.body → p.1.body.length - data.length < fuel →
    ∃ itr' w', recordLoop (serving R) (headerFor p) fuel itr maxRead data w =
      .ok ((some p.1.body, itr'), w')
  | 0, maxRead, itr, data, w, _, _, hfuel => by omega
  | fuel + 1, maxRead, itr, data, w, hmax, hdata, hfuel => by
    have hlen : (headerFor p).length.toNat = p.1.body.length := p.1.length_toNat
    have hpre := hdata.length_le
    unfold recordLoop
    by_cases hdone : (headerFor p).length.toNat ≤ data.length
    · have hall : data = p.1.body := hdata.eq_of_length (by omega)
      rw [if_pos hdone, hall]
      exact ⟨itr, w, rfl⟩
    · rw [if_neg hdone, if_neg (by omega)]
      set n := min ((headerFor p).length.toNat - data.length) maxRead with hn
      have hoff : (UInt8.ofNat (data.length + 5)).toNat = 5 + data.length := by
        simp only [UInt8.toNat_ofNat']
        omega
      have hcount : (UInt8.ofNat n).toNat = n := by
        simp only [UInt8.toNat_ofNat']
        omega
      have hreply :=
        serving_getRequest R w.device itr (headerFor p).id (UInt8.ofNat (data.length + 5))
          (UInt8.ofNat n)
      have hp' : R.find (headerFor p).id = some p := hp
      rw [hp', hoff, hcount] at hreply
      set r := Reply.of (le16 p.2 ++ (p.1.bytes.drop (5 + data.length)).take n) with hr
      have hlong : 2 + n ≤ r.dataLen := by
        have := p.1.length_bytes
        simp only [hr, Reply.of, List.length_append, length_le16, List.length_take,
          List.length_drop]
        omega
      have hread := read_carries (carries_of p (5 + data.length) n) hlong (by omega)
      obtain ⟨rest, hrest⟩ := hdata
      have hmore : data ++ Mem.read r.data 2 n <+: p.1.body := by
        rw [hread, ← hrest, List.drop_left, List.prefix_append_right_inj]
        exact List.take_prefix _ _
      have hfuel' : p.1.body.length - (data ++ Mem.read r.data 2 n).length < fuel := by
        rw [List.length_append, length_read]
        omega
      obtain ⟨itr', w', h'⟩ := recordLoop_serving hp hle itr
        (w.asked (serving R) (getRequest itr (headerFor p).id (UInt8.ofNat (data.length + 5))
          (UInt8.ofNat n)))
        hmax hmore hfuel'
      refine ⟨itr', w', bind_ok.mpr ⟨_, _, ask_ok.mpr ⟨hreply, rfl⟩, ?_⟩⟩
      have hc : r.ccode = 0 := rfl
      have hca : r.ccode ≠ 0xca := by
        rw [hc]
        decide
      have hc5 : r.ccode ≠ 0xc5 := by
        rw [hc]
        decide
      have hgood : ¬ (r.ccode ≠ 0 ∨ r.dataLen < 2 + n) := by
        rintro (h | h)
        · exact h hc
        · omega
      simp only
      rw [if_neg hca, if_neg hc5, if_neg hgood]
      exact h'

theorem readable_serving {env : Env Unit} (henv : 2 < env.maxResponse)
    (hrecords : ∀ r ∈ R.records, r.body.length ≤ 250 ∧ recordLengthValid r.type r.body = true) :
    Readable (fun _ => True) (serving R) env R where
  header w itr p _ hp := by
    have hreply := serving_getRequest R w.device itr itr.next 0 5
    rw [hp] at hreply
    set r :=
      Reply.of (le16 p.2 ++ (p.1.bytes.drop (0 : UInt8).toNat).take (5 : UInt8).toNat) with hr
    have hlong : r.dataLen = 7 := by
      have := p.1.length_bytes
      simp only [hr, Reply.of, List.length_append, length_le16, List.length_take, List.length_drop]
      change 2 + min 5 (p.1.bytes.length - 0) = 7
      omega
    have hlen : r.data 6 = p.1.length := rfl
    have hgood : ¬ (r.dataLen < 7 ∨ r.data 6 = 0) := by
      rw [hlong, hlen]
      rintro (h | h)
      · omega
      · exact p.1.length_ne h
    have htries : headerTries (serving R) 5 itr w =
        .ok ((some r, itr), w.asked (serving R) (getRequest itr itr.next 0 5)) :=
      bind_ok.mpr ⟨_, _, ask_ok.mpr ⟨hreply, rfl⟩, rfl⟩
    obtain ⟨h, hh⟩ : ∃ h, headerOf itr.next r = some h := ⟨_, if_neg hgood⟩
    exact ⟨h, itr, w.asked (serving R) (getRequest itr itr.next 0 5),
      bind_ok.mpr ⟨_, _, htries, pure_ok.mpr ⟨by rw [Option.bind_some, hh], rfl⟩⟩⟩
  record w itr p _ hnonneg hp := by
    obtain ⟨pre, post, hR, -⟩ := find_some hp
    obtain ⟨hle, hvalid⟩ := hrecords p.1 (by rw [hR]; simp)
    obtain ⟨maxRead, w1, hmax, hlen⟩ : ∃ maxRead w1, 0 < maxRead ∧
        readLen env w = .ok (maxRead, w1) := by
      by_cases h : w.vars.maxRead ≠ 0
      · refine ⟨w.vars.maxRead.toNat, w, by omega, bind_ok.mpr ⟨w, w, rfl, ?_⟩⟩
        rw [if_neg (by omega), if_pos h]
        rfl
      · refine ⟨min (env.maxResponse - 2) 0xfe,
          { w with vars := { w.vars with maxRead := (min
            (env.maxResponse - 2) 0xfe : ℕ) } }, by omega,
          bind_ok.mpr ⟨w, w, rfl, ?_⟩⟩
        rw [if_neg (by omega), if_neg h, if_neg (by omega)]
        rfl
    have hfuel : p.1.body.length - ([] : List UInt8).length < (headerFor p).length.toNat + maxRead +
        env.renewals + 1 := by
      have : (headerFor p).length.toNat = p.1.body.length := p.1.length_toNat
      rw [this]
      omega
    obtain ⟨itr', w', hloop⟩ := recordLoop_serving hp hle itr w1 hmax ( List.nil_prefix) hfuel
    refine ⟨p.1.body, itr', w', ?_⟩
    unfold getRecord
    have hne : (headerFor p).length ≠ 0 := p.1.length_ne
    have htype : (headerFor p).type = p.1.type := rfl
    rw [if_neg hne]
    refine bind_ok.mpr ⟨_, _, hlen, bind_ok.mpr ⟨_, _, hloop, pure_ok.mpr ⟨?_, rfl⟩⟩⟩
    simp only [htype, Option.filter_some, hvalid, if_true]

theorem accepts_serving (R : Repository) : Accepts (fun _ => True) (serving R) where
  reserves b _ := ⟨.of [1, 0], rfl, rfl, trivial⟩
  adds b reservation id offset inProgress data _ := ⟨.of [1, 0], rfl, rfl, by decide, trivial⟩

end Serving

/-- A repository with two records. -/
def twoRecords : Repository where
  records := [⟨1, 0x51, 0xc0, [7, 8, 9], by decide, by decide⟩,
    ⟨3, 0x51, 0xc0, List.replicate 38 5, by decide, by decide⟩]
  nodup := by decide
  ne_zero := by decide
  ne_end := by decide

/-- The two records are dumped, read and added: the second one in two parts behind its header. -/
theorem dump_refill_two : ∃ file w' queue,
    dumpBin (serving twoRecords) ⟨34, 0, fun b n => (true, b, n)⟩ 3 true { vars := {}, device := () } =
      .ok ((true, file), w') ∧
    sdrReadRecords (some file) = some queue ∧ queue = twoRecords.records.map dumped ∧
    ∀ e ∈ queue, e.length.toNat ≤ 250 → ∃ o evs v',
      sdrAddRecord (serving twoRecords) e { vars := {}, device := () } = .ok (0, v') ∧
        v'.log = (reserveRequest false, o) :: evs ∧ Uploads e evs := by
  obtain ⟨o, w1, hstart, ho⟩ := exists_of_returns
    (x := sdrStart (serving twoRecords) ⟨34, 0, fun b n => (true, b, n)⟩)
    (s := { vars := {}, device := () }) (p := fun o w1 => o.isSome ∧
      0 ≤ w1.vars.maxRead) (by decide)
  obtain ⟨hitr, hmax⟩ := of_decide_eq_true ho
  obtain ⟨itr, rfl⟩ := Option.isSome_iff_exists.mp hitr
  have hread : Readable (fun _ => True) (serving twoRecords) ⟨34, 0,
      fun b n => (true, b, n)⟩ twoRecords :=
    readable_serving (by decide) (by decide)
  obtain ⟨file, w', queue, hdump, hqueue, hrecords, hadd⟩ :=
    dump_refill (serves_serving twoRecords) hread
      (by decide : twoRecords.records.length < 3) Linked.holds_empty hstart trivial hmax
  refine ⟨file, w', queue, hdump, hqueue, hrecords, fun e he hle => ?_⟩
  exact hadd e he hle (accepts_serving twoRecords) { vars := {}, device := () } trivial

end Ipmitool.Sdr.Fill
