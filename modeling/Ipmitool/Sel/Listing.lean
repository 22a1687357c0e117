import Mathlib.Data.List.Nodup
import Ipmitool.Sel.Entries

/-! # Listing the log

A log is a chain of entries with different ids. A BMC that serves it may answer a request for an
entry in an unusable way, but answers the same request well when it is repeated at once; a schedule
says what happens to which request.

The loop that shows entries gets past every such answer (`showLoop_serve`). The loop that skips
entries repeats its request with id zero, so it goes back to the first entry (`skipLoop_serve`).
Hence `savelistEntries` lists what was asked for exactly if no request of the skipping loop but the
first goes wrong (`savelistEntries_lists_iff`). -/

namespace Ipmitool.Sel.Listing

open Ipmitool.Lib Ipmitool.Lib.Mem Ipmitool.Lib.Bytes Ipmitool.Lib.Machine Ipmitool.Lib.Dialogue
open Ipmitool.Core.Types Ipmitool.Core.Interface Ipmitool.Sel.Entries

/-! ### Logs -/

/-- An entry of the log. -/
structure Entry where
  id : UInt16
  type : UInt8
  body : List UInt8
  length_body : body.length = 13

/-- The entry, as it is sent. -/
def Entry.wire (e : Entry) : List UInt8 := le16 e.id ++ e.type :: e.body

/-- The entry, as the program keeps it. -/
def Entry.record (e : Entry) : SelEventRecord where
  recordId := e.id
  recordType := e.type
  selType :=
    if 0xc0 ≤ e.type ∧ e.type < 0xe0 then
      e.body.take 4 ++ ((e.body.drop 4).take 3).reverse ++ e.body.drop 7
    else e.body

/-- A log: the ids are different, and only the first entry may have an id with another meaning. -/
structure Log where
  entries : List Entry
  nonempty : entries ≠ []
  nodup : (entries.map Entry.id).Nodup
  proper : ∀ e ∈ entries.tail, e.id ≠ 0 ∧ e.id ≠ 0xffff
  few : entries.length < 65536

namespace Log

variable (L : Log)

/-- The id by which the entry number `p` is asked for; behind the last entry, the id that ends the
log. -/
def idAt (p : ℕ) : UInt16 := if p = 0 then 0 else (L.entries[p]?).elim 0xffff Entry.id

/-- The number of the entry that is asked for. -/
def position (id : UInt16) : ℕ := if id = 0 then 0 else L.entries.findIdx fun e => e.id = id

theorem length_pos : 0 < L.entries.length := List.length_pos_iff.mpr L.nonempty

theorem idAt_of_lt {p : ℕ} (h0 : p ≠ 0) (hp : p < L.entries.length) :
    L.idAt p = L.entries[p].id := by
  rw [idAt, if_neg h0, List.getElem?_eq_getElem hp]
  rfl

theorem mem_tail {p : ℕ} (h0 : p ≠ 0) (hp : p < L.entries.length) :
    L.entries[p] ∈ L.entries.tail := by
  obtain ⟨q, rfl⟩ := Nat.exists_eq_succ_of_ne_zero h0
  rw [List.mem_iff_getElem]
  exact ⟨q, by rw [List.length_tail]; omega, by rw [List.getElem_tail]⟩

theorem idAt_ne_zero {p : ℕ} (h0 : p ≠ 0) : L.idAt p ≠ 0 := by
  by_cases hp : p < L.entries.length
  · rw [L.idAt_of_lt h0 hp]
    exact (L.proper _ (L.mem_tail h0 hp)).1
  · rw [idAt, if_neg h0, List.getElem?_eq_none (by omega)]
    decide

theorem idAt_end : L.idAt L.entries.length = 0xffff := by
  rw [idAt, if_neg (Nat.ne_of_gt L.length_pos), List.getElem?_eq_none (Nat.le_refl _)]
  rfl

theorem idAt_ne_end {p : ℕ} (hp : p < L.entries.length) : L.idAt p ≠ 0xffff := by
  by_cases h0 : p = 0
  · rw [idAt, if_pos h0]
    decide
  · rw [L.idAt_of_lt h0 hp]
    exact (L.proper _ (L.mem_tail h0 hp)).2

theorem position_idAt {p : ℕ} (hp : p < L.entries.length) : L.position (L.idAt p) = p := by
  by_cases h0 : p = 0
  · rw [idAt, if_pos h0, position, if_pos rfl, h0]
  · rw [position, if_neg (L.idAt_ne_zero h0), L.idAt_of_lt h0 hp]
    refine (List.findIdx_eq hp).mpr ⟨by simp, fun j hj => ?_⟩
    refine decide_eq_false fun he => ?_
    have hj' : j < (L.entries.map Entry.id).length := by rw [List.length_map]; omega
    have hp' : p < (L.entries.map Entry.id).length := by rwa [List.length_map]
    have he' : (L.entries.map Entry.id)[j] = (L.entries.map Entry.id)[p] := by simpa using he
    have := L.nodup.getElem_inj_iff.mp he'
    omega

/-! ### A BMC with the log -/

/-- An answer from which no entry can be taken. -/
def Hiccup : Type :=
  { o : Option Reply // ∀ r ∈ o, r.ccode = 0 → 18 ≤ r.dataLen → ofLe16 (r.data 0) (r.data 1) = 0 }

/-- The answer with the entry number `p`. -/
def reply (p : ℕ) (e : Entry) : Reply := Reply.of (le16 (L.idAt (p + 1)) ++ e.wire)

/-- An answer to Get SEL Info with the number of entries. -/
def Counts (info : Reply) : Prop :=
  info.ccode = 0 ∧ info.dataLen = 14 ∧ (ofLe16 (info.data 1) (info.data 2)).toNat = L.entries.length

end Log

/-- How many requests were made that do not repeat one, and for which entry the last request went
wrong. -/
structure Served where
  fresh : ℕ := 0
  failed : Option ℕ := none

/-- The BMC with the log `L`. The schedule says how the answer to a request goes wrong that does not
repeat one. -/
def serve (L : Log) (info : Reply) (schedule : ℕ → Option Log.Hiccup) : Bmc Served := fun s c =>
  if c = getSelInfo then (some info, s)
  else if c.netfn = netfnStorage ∧ c.cmd = 0x43 then
    let p := L.position (ofLe16 (c.data.getD 2 0) (c.data.getD 3 0))
    match L.entries[p]? with
    | none => (some { ccode := 0xcb }, s)
    | some e =>
      if s.failed = some p then (some (L.reply p e), { s with failed := none })
      else
        match schedule s.fresh with
        | some h => (h.1, { fresh := s.fresh + 1, failed := some p })
        | none => (some (L.reply p e), { fresh := s.fresh + 1 })
  else (none, s)

section
variable {L : Log} {I : Reply} {S : ℕ → Option Log.Hiccup} {γ : Type}
  {w : CmdWorld γ Served} {x : SelEventRecord} {p : ℕ}

theorem serve_info (s : Served) : serve L I S s getSelInfo = (some I, s) := rfl

theorem serve_entry (s : Served) (hp : p < L.entries.length) :
    serve L I S s (getSelEntry (L.idAt p)) =
      if s.failed = some p then (some (L.reply p L.entries[p]), { s with failed := none })
      else
        match S s.fresh with
        | some h => (h.1, { fresh := s.fresh + 1, failed := some p })
        | none => (some (L.reply p L.entries[p]), { fresh := s.fresh + 1 }) := by
  have hpos : L.position (ofLe16 (L.idAt p).toUInt8 (L.idAt p >>> 8).toUInt8) = p := by
    rw [ofLe16_le16, L.position_idAt hp]
  have hinfo : getSelEntry (L.idAt p) ≠ getSelInfo := by simp [getSelEntry, getSelInfo]
  have hdata : L.position (ofLe16 ((getSelEntry (L.idAt p)).data.getD 2 0)
      ((getSelEntry (L.idAt p)).data.getD 3 0)) = p := hpos
  rw [serve, if_neg hinfo, if_pos ⟨rfl, rfl⟩]
  simp only [hdata, List.getElem?_eq_getElem hp]

theorem unpack_reply (e : Entry) : (L.reply p e).ccode = 0 ∧ (L.reply p e).dataLen = 18 ∧
    ofLe16 ((L.reply p e).data 0) ((L.reply p e).data 1) = L.idAt (p + 1) ∧
    unpack (L.reply p e).data = e.record := by
  obtain ⟨id, type, body, hbody⟩ := e
  refine ⟨rfl, by simp [Log.reply, Reply.of, Entry.wire, hbody], ofLe16_le16 _, ?_⟩
  match body, hbody with
  | [b0, b1, b2, b3, b4, b5, b6, b7, b8, b9, b10, b11, b12], _ =>
    have hid : ofLe16 id.toUInt8 (id >>> 8).toUInt8 = id := ofLe16_le16 id
    by_cases h1 : type < 0xc0
    · have h2 : ¬ (0xc0 ≤ type ∧ type < 0xe0) := by rintro ⟨h, -⟩; exact UInt8.not_lt.mpr h h1
      have hgen := le16_ofLe16 b4 b5
      simp only [le16, List.cons.injEq, and_true] at hgen
      simp [unpack, unpackType, Log.reply, Reply.of, Entry.wire, Entry.record, le16, hid, h1, h2,
        StandardSpecSelRec.bytes, le32_ofLe32, hgen]
    · have h2 : 0xc0 ≤ type := UInt8.not_lt.mp h1
      by_cases h3 : type < 0xe0
      · simp [unpack, unpackType, Log.reply, Reply.of, Entry.wire, Entry.record, le16,
          hid, h1, h2, h3, le32_ofLe32, Mem.read, List.range_succ]
      · simp [unpack, unpackType, Log.reply, Reply.of, Entry.wire, Entry.record, le16, hid, h1, h3,
          Mem.read, List.range_succ]

theorem getStdEntry_good {e : Entry} {s' : Served} (h : serve L I S w.device
    (getSelEntry (L.idAt p)) = (some (L.reply p e), s')) : ∃ w',
      getStdEntry (serve L I S) (L.idAt p) x w = .ok ((L.idAt (p + 1), e.record), w') ∧
      w'.vars = w.vars ∧ w'.device = s' := by
  obtain ⟨hcc, hlen, hnext, hrec⟩ := unpack_reply (L := L) (p := p) e
  refine ⟨w.asked (serve L I S) (getSelEntry (L.idAt p)), ?_, rfl, ?_⟩
  · refine bind_ok.mpr ⟨some (L.reply p e), _, ask_ok.mpr ⟨by rw [h], rfl⟩, ?_⟩
    dsimp only
    rw [if_neg (by simp [hcc, hlen]), hnext, hrec]
    rfl
  · simp only [World.asked, h]

theorem getStdEntry_hiccup {h : Log.Hiccup} {s' : Served} (hs : serve L I S w.device
    (getSelEntry (L.idAt p)) = (h.1, s')) : ∃ x' w',
      getStdEntry (serve L I S) (L.idAt p) x w = .ok ((0, x'), w') ∧
      w'.vars = w.vars ∧ w'.device = s' := by
  obtain ⟨o, ho⟩ := h
  have hdev : (w.asked (serve L I S) (getSelEntry (L.idAt p))).device = s' := by
    simp only [World.asked, hs]
  have hask : (sendrecv (serve L I S) (getSelEntry (L.idAt p)) : Cmd γ Served _) w =
      .ok (o, w.asked (serve L I S) (getSelEntry (L.idAt p))) := ask_ok.mpr ⟨by rw [hs], rfl⟩
  rcases o with _ | r
  · exact ⟨x, _, bind_ok.mpr ⟨none, _, hask, rfl⟩, World.asked_vars, hdev⟩
  by_cases hbad : r.ccode ≠ 0 ∨ r.dataLen < 18
  · refine ⟨x, _, bind_ok.mpr ⟨some r, _, hask, ?_⟩, World.asked_vars, hdev⟩
    dsimp only
    rw [if_pos hbad]
    rfl
  · rw [not_or, not_not, Nat.not_lt] at hbad
    refine ⟨unpack r.data, _, bind_ok.mpr ⟨some r, _, hask, ?_⟩, World.asked_vars, hdev⟩
    dsimp only
    rw [if_neg (by rw [not_or, not_not, Nat.not_lt]; exact hbad), ho r rfl hbad.1 hbad.2]
    rfl

/-! ### The loop that shows -/

theorem getStdEntry_twice (hp : p < L.entries.length) : ∃ r w' x' w'',
    getStdEntry (serve L I S) (L.idAt p) x w = .ok (r, w') ∧
    retry (serve L I S) (L.idAt p) r w' =
      .ok ((L.idAt (p + 1), x'), w'') ∧
    x' = L.entries[p].record ∧ w''.vars = w.vars := by
  have hne : L.idAt (p + 1) ≠ 0 := L.idAt_ne_zero (Nat.succ_ne_zero p)
  have hserve := serve_entry (I := I) (S := S) w.device hp
  have hgood : ∀ s', serve L I S w.device (getSelEntry (L.idAt p)) =
      (some (L.reply p L.entries[p]), s') → ∃ r w' x' w'',
        getStdEntry (serve L I S) (L.idAt p) x w = .ok (r, w') ∧
        retry (serve L I S) (L.idAt p) r w' =
          .ok ((L.idAt (p + 1), x'), w'') ∧
        x' = L.entries[p].record ∧ w''.vars = w.vars := by
    intro s' h
    obtain ⟨w', hw, hvars, -⟩ := getStdEntry_good (x := x) h
    exact ⟨_, w', _, w', hw, by rw [retry, if_neg hne]; rfl, rfl, hvars⟩
  by_cases hf : w.device.failed = some p
  · rw [if_pos hf] at hserve
    exact hgood _ hserve
  rw [if_neg hf] at hserve
  cases hsch : S w.device.fresh with
  | none =>
    rw [hsch] at hserve
    exact hgood _ hserve
  | some h =>
    -- the second attempt repeats the first one
    rw [hsch] at hserve
    obtain ⟨x', w', hw, hvars, hdev⟩ := getStdEntry_hiccup (x := x) hserve
    have hserve' := serve_entry (I := I) (S := S) w'.device hp
    rw [if_pos (by rw [hdev])] at hserve'
    obtain ⟨w'', hw'', hvars'', -⟩ := getStdEntry_good (x := x') hserve'
    exact ⟨_, w', _, w'', hw, by rw [retry, if_pos rfl]; exact hw'', rfl, hvars''.trans hvars⟩

/-! ### The loop that skips -/

/-- One turn of the loop: it goes on to the next entry if nothing went wrong or if it is at the
first entry; else it is at the second entry, or it gives up. -/
theorem skip_turn (hp : p < L.entries.length) (hf : w.device.failed = none) : ∃ r w1 r' w2,
    getStdEntry (serve L I S) (L.idAt p) x w = .ok (r, w1) ∧
    retry (serve L I S) r.1 r w1 = .ok (r', w2) ∧ w2.vars = w.vars ∧
    (((p = 0 ∨ S w.device.fresh = none) ∧ r'.1 = L.idAt (p + 1) ∧
        w2.device = { fresh := w.device.fresh + 1 }) ∨
      (p ≠ 0 ∧ S w.device.fresh ≠ none ∧
        (r'.1 = 0 ∨ r'.1 = L.idAt 1 ∧ w2.device.failed = none))) := by
  have hne : ∀ q, L.idAt (q + 1) ≠ 0 := fun q => L.idAt_ne_zero (Nat.succ_ne_zero q)
  have hserve := serve_entry (I := I) (S := S) w.device hp
  rw [if_neg (by rw [hf]; simp)] at hserve
  cases hsch : S w.device.fresh with
  | none =>
    rw [hsch] at hserve
    obtain ⟨w', hw, hvars, hdev⟩ := getStdEntry_good (x := x) hserve
    exact ⟨_, w', _, w', hw, by rw [retry, if_neg (hne p)]; rfl, hvars, .inl ⟨.inr rfl, rfl, hdev⟩⟩
  | some h =>
    rw [hsch] at hserve
    obtain ⟨x', w', hw, hvars, hdev⟩ := getStdEntry_hiccup (x := x) hserve
    have h0 : L.idAt 0 = 0 := rfl
    have hserve' := serve_entry (I := I) (S := S) w'.device L.length_pos
    have hretry : retry (serve L I S) 0 (0, x') w' =
        getStdEntry (serve L I S) (L.idAt 0) x' w' := by rw [retry, if_pos rfl, h0]
    by_cases hp0 : p = 0
    · -- id zero is the id that went wrong
      rw [if_pos (by rw [hdev, hp0])] at hserve'
      obtain ⟨w'', hw'', hvars'', hdev''⟩ := getStdEntry_good (x := x') hserve'
      refine ⟨_, w', _, w'', hw, hretry.trans hw'', hvars''.trans hvars, .inl ⟨.inl hp0, ?_, ?_⟩⟩
      · rw [hp0]
      · rw [hdev'', hdev]
    · rw [if_neg (by rw [hdev]; simpa using hp0)] at hserve'
      cases hsch' : S w'.device.fresh with
      | none =>
        rw [hsch'] at hserve'
        obtain ⟨w'', hw'', hvars'', hdev''⟩ := getStdEntry_good (x := x') hserve'
        exact ⟨_, w', _, w'', hw, hretry.trans hw'', hvars''.trans hvars,
          .inr ⟨hp0, by simp, .inr ⟨rfl, by rw [hdev'']⟩⟩⟩
      | some h' =>
        rw [hsch'] at hserve'
        obtain ⟨x'', w'', hw'', hvars'', -⟩ := getStdEntry_hiccup (x := x') hserve'
        exact ⟨_, w', _, w'', hw, hretry.trans hw'', hvars''.trans hvars,
          .inr ⟨hp0, by simp, .inl rfl⟩⟩

/-- The loop never gets further than it should, and it gets as far as it should exactly if no
request but that for the first entry went wrong. -/
theorem skipLoop_serve {w : CmdWorld Output Served} (k : ℕ) (hk : p + k ≤ L.entries.length)
    (hf : w.device.failed = none) : ∃ q x' w',
      skipLoop (serve L I S) k (L.idAt p) x w = .ok ((L.idAt q, x'), w') ∧
      w'.vars = w.vars ∧ q ≤ p + k ∧
      (q = p + k ↔ ∀ j < k, p + j ≠ 0 → S (w.device.fresh + j) = none) := by
  induction k generalizing p x w with
  | zero => exact ⟨p, x, w, rfl, rfl, by omega, by simp⟩
  | succ k ih =>
    obtain ⟨r, w1, r', w2, h1, h2, hvars, hcases⟩ :=
      skip_turn (L := L) (I := I) (S := S) (x := x) (p := p) (by omega) hf
    have hturn : ∀ {y w'}, (if r'.1 = 0 then pure r' else
        skipLoop (serve L I S) k r'.1 r'.2) w2 = .ok (y, w') →
        skipLoop (serve L I S) (k + 1) (L.idAt p) x w = .ok (y, w') := by
      intro y w' h
      rw [skipLoop]
      exact bind_ok.mpr ⟨r, w1, h1, bind_ok.mpr ⟨r', w2, h2, h⟩⟩
    obtain ⟨hgood, hr, hdev⟩ | ⟨hp0, hbad, hr | ⟨hr, hf'⟩⟩ := hcases
    · obtain ⟨q, x', w', hw', hvars', hle, hiff⟩ := ih (p := p + 1) (x := r'.2) (w := w2) (by omega)
        (by rw [hdev])
      rw [← hr] at hw'
      refine ⟨q, x', w', hturn ?_, hvars'.trans hvars, by omega, ?_⟩
      · rw [if_neg (by rw [hr]; exact L.idAt_ne_zero (Nat.succ_ne_zero p))]
        exact hw'
      · rw [show p + (k + 1) = p + 1 + k by omega, hiff, hdev]
        constructor
        · intro h j hj hpj
          rcases j with _ | j
          · exact hgood.resolve_left hpj
          · have := h j (by omega) (by omega)
            rwa [show w.device.fresh + (j + 1) = w.device.fresh + 1 + j by omega]
        · intro h j hj _
          have := h (j + 1) (by omega) (by omega)
          rwa [show w.device.fresh + (j + 1) = w.device.fresh + 1 + j by omega] at this
    · -- it gives up at the first entry
      refine ⟨0, r'.2, w2, hturn ?_, hvars, by omega, ?_⟩
      · rw [if_pos hr, show L.idAt 0 = r'.1 from hr.symm]
        rfl
      · exact ⟨fun h => by omega, fun h => (hbad (h 0 (by omega) (by omega))).elim⟩
    · -- it is at the second entry again
      obtain ⟨q, x', w', hw', hvars', hle, -⟩ := ih (p := 1) (x := r'.2) (w := w2) (by omega) hf'
      rw [← hr] at hw'
      refine ⟨q, x', w', hturn ?_, hvars'.trans hvars, by omega, ?_⟩
      · rw [if_neg (by rw [hr]; exact L.idAt_ne_zero Nat.one_ne_zero)]
        exact hw'
      · exact ⟨fun h => by omega, fun h => (hbad (h 0 (by omega) (by omega))).elim⟩

end

/-- The entries to show, if `n` were shown before. -/
def wanted (count : ℤ) (n : ℕ) (l : List Entry) : List Entry :=
  if 0 < count then l.take (count.toNat - n) else l

/-- Showing records one after the other. -/
def emitAll (strings : Strings) (save : Save) (out : Output) (l : List Entry) : Output :=
  l.foldl (fun out e => emit strings save e.record out) out

section
variable {L : Log} {I : Reply} {S : ℕ → Option Log.Hiccup} {T : Strings} {V : Save}
  {c : ℤ}

/-- From any entry on, the loop shows what is wanted, whatever goes wrong. -/
theorem showLoop_serve : ∀ (fuel p : ℕ) (x : SelEventRecord) (n : ℕ) (w : CmdWorld Output Served),
    p ≤ L.entries.length → L.entries.length - p < fuel → n ≤ p → (0 < c → (n : ℤ) < c) → ∃ w',
      showLoop (serve L I S) T V c fuel (L.idAt p) x n w = .ok (some (), w') ∧
      w'.vars = emitAll T V w.vars (wanted c n (L.entries.drop p))
  | 0, _, _, _, _, _, hfuel, _, _ => absurd hfuel (Nat.not_lt_zero _)
  | fuel + 1, p, x, n, w, hp, hfuel, hnp, hn => by
    rw [showLoop]
    by_cases hend : p = L.entries.length
    · refine ⟨w, ?_, ?_⟩
      · rw [hend, L.idAt_end, if_pos rfl]
        rfl
      · rw [hend, List.drop_length, wanted]
        simp [emitAll]
    have hlt : p < L.entries.length := by omega
    rw [if_neg (L.idAt_ne_end hlt)]
    have hfew := L.few
    have hint : n + 1 ≠ 2 ^ 31 := by omega
    obtain ⟨r, w1, x', w2, h1, h2, rfl, hvars⟩ :=
      getStdEntry_twice (I := I) (S := S) (w := w) (x := x) hlt
    have hne : L.idAt (p + 1) ≠ 0 := L.idAt_ne_zero (Nat.succ_ne_zero p)
    have hdrop : L.entries.drop p = L.entries[p] :: L.entries.drop (p + 1) :=
      List.drop_eq_getElem_cons hlt
    obtain ⟨w3, hw3⟩ : ∃ w3 : CmdWorld Output Served,
        w3 = { w2 with vars := emit T V L.entries[p].record w2.vars } := ⟨_, rfl⟩
    have hvars3 : w3.vars = emitAll T V w.vars [L.entries[p]] := by
      rw [hw3, hvars]
      rfl
    by_cases hcount : ((n + 1 : ℕ) : ℤ) = c
    · -- the last entry that is wanted
      refine ⟨w3, bind_ok.mpr ⟨r, w1, h1, bind_ok.mpr ⟨_, w2, h2, ?_⟩⟩, ?_⟩
      · dsimp only
        rw [if_neg hne]
        refine bind_ok.mpr ⟨⟨⟩, w3, modify_ok.mpr hw3.symm, ?_⟩
        rw [if_neg hint, if_pos hcount]
        rfl
      · have htake : c.toNat - n = 1 := by omega
        rw [hvars3, hdrop, wanted, if_pos (by omega), htake, List.take_succ_cons, List.take_zero]
    · have hn' : 0 < c → ((n + 1 : ℕ) : ℤ) < c := by
        intro h
        have := hn h
        omega
      obtain ⟨w', hw', hvars'⟩ := showLoop_serve fuel (p + 1) L.entries[p].record (n + 1) w3
        (by omega) (by omega) (by omega) hn'
      refine ⟨w', bind_ok.mpr ⟨r, w1, h1, bind_ok.mpr ⟨_, w2, h2, ?_⟩⟩, ?_⟩
      · dsimp only
        rw [if_neg hne]
        refine bind_ok.mpr ⟨⟨⟩, w3, modify_ok.mpr hw3.symm, ?_⟩
        rw [if_neg hint, if_neg hcount]
        exact hw'
      · have hwanted : wanted c n (L.entries.drop p) =
            L.entries[p] :: wanted c (n + 1) (L.entries.drop (p + 1)) := by
          unfold wanted
          split_ifs with h
          · have := hn h
            obtain ⟨m, hm⟩ : ∃ m, c.toNat - n = m + 1 := ⟨c.toNat - n - 1, by omega⟩
            rw [hdrop, hm, List.take_succ_cons, show c.toNat - (n + 1) = m by omega]
          · exact hdrop
        rw [hvars', hvars3, hwanted]
        rfl

@[simp] theorem shown_emitAll (l : List Entry) (out : Output) :
    (emitAll T V out l).shown = out.shown ++ l.map Entry.record := by
  induction l generalizing out with
  | nil => simp [emitAll]
  | cons e l ih =>
    have := ih (emit T V e.record out)
    simp only [emitAll, emit, List.foldl_cons, List.map_cons] at this ⊢
    rw [this, List.append_assoc, List.singleton_append]

/-! ### `savelistEntries` -/

theorem getInfo_serve (hinfo : L.Counts I) (w : CmdWorld Output Served) : ∃ w',
    getInfo (serve L I S) w = .ok (some I, w') ∧ w'.vars = w.vars ∧ w'.device = w.device := by
  obtain ⟨hcc, hlen, -⟩ := hinfo
  refine ⟨w.asked (serve L I S) getSelInfo, ?_, rfl, ?_⟩
  · refine bind_ok.mpr ⟨some I, _, ask_ok.mpr ⟨by rw [serve_info], rfl⟩, ?_⟩
    dsimp only
    rw [if_neg (by simp [hcc, hlen])]
    rfl
  · simp only [World.asked, serve_info]

/-- The entries that a count asks for: so many from the front, so many from the end, or all. -/
def asked (L : Log) (count : ℤ) : List Entry :=
  if 0 < count then L.entries.take count.toNat
  else if count = 0 then L.entries
  else L.entries.drop (L.entries.length - (-count).toNat)

theorem Log.Counts.some_entry (hinfo : L.Counts I) : ¬ (I.data 1 = 0 ∧ I.data 2 = 0) := by
  rintro ⟨h1, h2⟩
  have := hinfo.2.2
  rw [h1, h2] at this
  have := L.length_pos
  simp [ofLe16] at *
  omega

theorem savelistEntries_front (hinfo : L.Counts I) {fuel : ℕ} (hfuel : L.entries.length < fuel)
    (hcount : 0 ≤ c) (w : CmdWorld Output Served) : ∃ w',
      savelistEntries (serve L I S) T V fuel c w = .ok (some 0, w') ∧
      w'.vars = emitAll T V w.vars (asked L c) := by
  obtain ⟨w1, h1, hvars1, -⟩ := getInfo_serve (S := S) hinfo w
  obtain ⟨w2, h2, hvars2⟩ := showLoop_serve (L := L) (I := I) (S := S) (T := T)
    (V := V) (c := c) fuel 0 {} 0 w1 (by omega) (by omega) (Nat.zero_le _) (fun h => h)
  refine ⟨w2, bind_ok.mpr ⟨_, w1, h1, ?_⟩, ?_⟩
  · dsimp only
    rw [if_neg hinfo.some_entry, if_neg (by omega)]
    exact bind_ok.mpr ⟨some (), w2, h2, rfl⟩
  · rw [hvars2, hvars1, List.drop_zero]
    unfold wanted asked
    congr 1
    split_ifs with h h'
    · rfl
    · rfl
    · omega

/-- From the end, the listing starts where the skipping loop came to. -/
theorem savelistEntries_end (hinfo : L.Counts I) {fuel : ℕ} (hfuel : L.entries.length < fuel)
    (hcount : c < 0) (hmin : c ≠ -2 ^ 31) {w : CmdWorld Output Served}
    (hw : w.device = {}) : ∃ w' q,
      savelistEntries (serve L I S) T V fuel c w = .ok (some 0, w') ∧
      w'.vars = emitAll T V w.vars (L.entries.drop q) ∧
      q ≤ L.entries.length - (-c).toNat ∧
      (q = L.entries.length - (-c).toNat ↔
        ∀ j < L.entries.length - (-c).toNat, j ≠ 0 → S j = none) := by
  obtain ⟨w1, h1, hvars1, hdev1⟩ := getInfo_serve (S := S) hinfo w
  obtain ⟨w2, h2, hvars2, hdev2⟩ := getInfo_serve (S := S) hinfo w1
  have hdev : w2.device = {} := hdev2.trans (hdev1.trans hw)
  have hentries := hinfo.2.2
  obtain ⟨d, hc⟩ : ∃ d, d = if -c > ((ofLe16 (I.data 1) (I.data 2)).toNat : ℤ) then
      -((ofLe16 (I.data 1) (I.data 2)).toNat : ℤ) else c := ⟨_, rfl⟩
  have hk : (((ofLe16 (I.data 1) (I.data 2)).toNat : ℤ) + d).toNat =
      L.entries.length - (-c).toNat := by
    rw [hc, hentries]
    split_ifs <;> omega
  obtain ⟨q, x', w3, h3, hvars3, hle, hiff⟩ := skipLoop_serve (L := L) (I := I) (S := S)
    (x := {}) (p := 0) (w := w2) (L.entries.length - (-c).toNat) (by omega) (by rw [hdev])
  obtain ⟨w4, h4, hvars4⟩ := showLoop_serve (L := L) (I := I) (S := S) (T := T)
    (V := V) (c := d) fuel q x' 0 w3 (by omega) (by omega) (Nat.zero_le _) (fun h => h)
  refine ⟨w4, q, bind_ok.mpr ⟨_, w1, h1, ?_⟩, ?_, by omega, ?_⟩
  · dsimp only
    rw [if_neg hinfo.some_entry, if_pos hcount]
    refine bind_ok.mpr ⟨_, w2, h2, ?_⟩
    dsimp only
    rw [if_neg hmin]
    rw [← hc, hk]
    refine bind_ok.mpr ⟨(L.idAt q, x'), w3, h3, ?_⟩
    exact bind_ok.mpr ⟨some (), w4, h4, rfl⟩
  · have hneg : ¬ 0 < d := by
      have := L.length_pos
      rw [hc]
      split_ifs <;> omega
    rw [hvars4, hvars3, hvars2, hvars1, wanted, if_neg hneg]
  · rw [Nat.zero_add] at hiff
    rw [hiff, hdev]
    simp

theorem savelistEntries_min (hinfo : L.Counts I) {fuel : ℕ} (hmin : c = -2 ^ 31)
    {w w' : CmdWorld Output Served} {o : Option ℤ} :
    savelistEntries (serve L I S) T V fuel c w ≠ .ok (o, w') := by
  intro h
  obtain ⟨o1, w1, h1, h⟩ := bind_ok.mp h
  obtain ⟨w1', h1', -⟩ := getInfo_serve (S := S) hinfo w
  obtain ⟨rfl, rfl⟩ := Prod.mk.inj (Except.ok.inj (h1.symm.trans h1'))
  dsimp only at h
  rw [if_neg hinfo.some_entry, if_pos (by omega)] at h
  obtain ⟨o2, w2, h2, h⟩ := bind_ok.mp h
  obtain ⟨w2', h2', -⟩ := getInfo_serve (S := S) hinfo w1
  obtain ⟨rfl, rfl⟩ := Prod.mk.inj (Except.ok.inj (h2.symm.trans h2'))
  dsimp only at h
  rw [if_pos hmin] at h
  obtain ⟨u, w3, h3, -⟩ := bind_ok.mp h
  exact throw_ok.mp h3

end

/-- `savelistEntries` ends and has shown exactly what was asked for. -/
def Lists (L : Log) (info : Reply) (schedule : ℕ → Option Log.Hiccup) (strings : Strings)
    (save : Save) (fuel : ℕ) (count : ℤ) : Prop :=
  ∃ w', savelistEntries (serve L info schedule) strings save fuel count ⟨{}, {}, []⟩ =
    .ok (some 0, w') ∧
    w'.vars.shown = (asked L count).map Entry.record

/-- What was asked for is shown exactly if, in a listing from the end, no request of the entries
that are skipped but the first one goes wrong. The least `int` has no negative. -/
theorem savelistEntries_lists_iff (L : Log) (info : Reply) (schedule : ℕ → Option Log.Hiccup)
    (strings : Strings) (save : Save) (fuel : ℕ) (count : ℤ) (hinfo : L.Counts info)
    (hfuel : L.entries.length < fuel) (hcount : -2 ^ 31 ≤ count) :
    Lists L info schedule strings save fuel count ↔
      count ≠ -2 ^ 31 ∧ (count < 0 → ∀ j, 1 ≤ j → j < L.entries.length - (-count).toNat →
        schedule j = none) := by
  by_cases hpos : 0 ≤ count
  · obtain ⟨w', hw', hvars⟩ := savelistEntries_front (S := schedule) (T := strings)
      (V := save) hinfo hfuel hpos ⟨{}, {}, []⟩
    refine iff_of_true ⟨w', hw', by rw [hvars, shown_emitAll]; rfl⟩ ⟨by omega, fun h => by omega⟩
  by_cases hmin : count = -2 ^ 31
  · refine iff_of_false ?_ fun h => h.1 hmin
    rintro ⟨w', hw', -⟩
    exact savelistEntries_min hinfo hmin hw'
  obtain ⟨w', q, hw', hvars, hle, hiff⟩ := savelistEntries_end (S := schedule)
    (T := strings) (V := save) hinfo hfuel (by omega) hmin
    (w := ⟨{}, {}, []⟩) rfl
  have hshown : w'.vars.shown = (L.entries.drop q).map Entry.record := by
    rw [hvars, shown_emitAll]
    rfl
  have hasked : asked L count = L.entries.drop (L.entries.length - (-count).toNat) := by
    rw [asked, if_neg (by omega), if_neg (by omega)]
  have hlists : Lists L info schedule strings save fuel count ↔
      q = L.entries.length - (-count).toNat := by
    constructor
    · rintro ⟨w'', hw'', hshown''⟩
      obtain ⟨-, rfl⟩ := Prod.mk.inj (Except.ok.inj (hw'.symm.trans hw''))
      rw [hshown, hasked] at hshown''
      -- a listing that starts too early is too long
      have := congrArg List.length hshown''
      simp only [List.length_map, List.length_drop] at this
      omega
    · rintro rfl
      exact ⟨w', hw', by rw [hshown, hasked]⟩
  rw [hlists, hiff]
  constructor
  · exact fun h => ⟨hmin, fun _ j hj hlt => h j hlt (by omega)⟩
  · exact fun h j hlt hj => h.2 (by omega) j (by omega) hlt

theorem blank_length : (List.replicate 13 (0 : UInt8)).length = 13 := rfl

/-- A log with three standard entries. -/
def threeEntries : Log where
  entries := [1, 2, 3].map fun id => ⟨id, 2, List.replicate 13 0, blank_length⟩
  nonempty := by simp
  nodup := by decide
  proper := by decide
  few := by decide

/-- The answer of a BMC with three entries. -/
def threeInfo : Reply := Reply.of [0x51, 3, 0, 0, 0, 0, 0, 0, 0, 0, 0, 0, 0, 0]

/-- Only the second request for an entry stays without an answer. -/
def secondSilent (j : ℕ) : Option Log.Hiccup := if j = 1 then some ⟨none, by simp⟩ else none

/-- The last entry is asked for, the request for the second entry stays without an answer once, and
two entries are shown. -/
theorem savelistEntries_shows_two :
    ¬ Lists threeEntries threeInfo secondSilent (fun _ _ => ([], [])) .nothing 4 (-1) := by
  rintro ⟨w', hw', hshown⟩
  have htwo : returns (savelistEntries (serve threeEntries threeInfo secondSilent)
      (fun _ _ => ([], [])) .nothing 4 (-1)) ⟨{}, {}, []⟩
      (fun _ w' => w'.vars.shown.length = 2) = true := by decide +kernel
  obtain ⟨o, w'', hw'', htwo⟩ := exists_of_returns htwo
  obtain ⟨-, rfl⟩ := Prod.mk.inj (Except.ok.inj (hw'.symm.trans hw''))
  rw [hshown] at htwo
  revert htwo
  decide

/-- The same requests from the front. -/
theorem savelistEntries_lists_iff_front :
    Lists threeEntries threeInfo secondSilent (fun _ _ => ([], [])) .nothing 4 2 :=
  (savelistEntries_lists_iff threeEntries threeInfo secondSilent (fun _ _ => ([], [])) .nothing 4 2
    ⟨rfl, rfl, rfl⟩ (by decide) (by decide)).mpr ⟨by decide, fun h => absurd h (by decide)⟩

end Ipmitool.Sel.Listing
