import Ipmitool.Sel.Listing

/-! # The raw file

`selWriteraw` of `cmd/sel.zig` writes every entry as the program has it in memory, on a host whose
numbers are little-endian. The fields of a record stand there as the BMC sent them, but for the id
of the manufacturer in a record with a timestamp, which is kept with its first byte last.

`writeraw_file` says what the file is, for every log and whatever goes wrong on the way. -/

namespace Ipmitool.Sel.Raw

open Ipmitool.Lib.Bytes Ipmitool.Lib.Machine Ipmitool.Lib.Dialogue Ipmitool.Core.Interface
open Ipmitool.Sel.Entries Ipmitool.Sel.Listing

/-- `selWriteraw`. -/
def selWriteraw {β : Type} (B : Bmc β) (strings : Strings) (fuel : ℕ) : Cmd Output β (Option ℤ) :=
  savelistEntries B strings .binary fuel 0

/-- The sixteen bytes of a record with the id of the manufacturer turned around, where there is
one. -/
def turned (wire : List UInt8) : List UInt8 :=
  if 0xc0 ≤ wire.getD 2 0 ∧ wire.getD 2 0 < 0xe0 then
    wire.take 7 ++ ((wire.drop 7).take 3).reverse ++ wire.drop 10
  else wire

theorem bytes_record (e : Entry) : e.record.bytes = turned e.wire := by
  have hid : le16 e.id = [e.id.toUInt8, (e.id >>> 8).toUInt8] := rfl
  have htype : e.wire.getD 2 0 = e.type := rfl
  rw [SelEventRecord.bytes, turned, htype]
  simp only [Entry.record, Entry.wire, hid]
  split_ifs with h
  · simp
  · rfl

theorem file_binary (strings : Strings) (l : List Entry) (out : Output) :
    (emitAll strings .binary out l).file = out.file ++ l.flatMap fun e => turned e.wire := by
  induction l generalizing out with
  | nil => simp [emitAll]
  | cons e l ih =>
    have hrest := ih (emit strings .binary e.record out)
    simp only [emitAll, emit, List.foldl_cons, List.flatMap_cons, bytes_record] at hrest ⊢
    rw [hrest, List.append_assoc]

theorem writeraw_empty {β : Type} {B : Bmc β} {b : β} {info : Reply} (strings : Strings) (fuel : ℕ)
    (h : (B b getSelInfo).1 = some info) (hcc : info.ccode = 0) (hlen : info.dataLen = 14)
    (hnone : info.data 1 = 0 ∧ info.data 2 = 0) : ∃ w',
      selWriteraw B strings fuel ⟨{}, b, []⟩ = .ok (some 0, w') ∧ w'.vars.file = [] := by
  refine ⟨(⟨{}, b, []⟩ : CmdWorld Output β).asked B getSelInfo, ?_, rfl⟩
  have hinfo : getInfo B ⟨{}, b, []⟩ = .ok (some info, World.asked ⟨{}, b, []⟩ B getSelInfo) := by
    refine bind_ok.mpr ⟨some info, _, ask_ok.mpr ⟨h, rfl⟩, ?_⟩
    dsimp only
    rw [if_neg (by simp [hcc, hlen])]
    rfl
  refine bind_ok.mpr ⟨_, _, hinfo, ?_⟩
  dsimp only
  rw [if_pos hnone]
  rfl

/-- **The raw file** has the sixteen bytes of every entry in order, with the id of the manufacturer
turned around in the records that have one beside a timestamp. Without entries it is empty. -/
theorem writeraw_file (strings : Strings) (fuel : ℕ) :
    (∀ (L : Log) (info : Reply) (schedule : ℕ → Option Log.Hiccup), L.Counts info →
      L.entries.length < fuel → ∃ w',
        selWriteraw (serve L info schedule) strings fuel ⟨{}, {}, []⟩ = .ok (some 0, w') ∧
        w'.vars.file = L.entries.flatMap fun e => turned e.wire) ∧
    (∀ (β : Type) (B : Bmc β) (b : β) (info : Reply),
      (B b getSelInfo).1 = some info → info.ccode = 0 →
      info.dataLen = 14 → info.data 1 = 0 ∧ info.data 2 = 0 → ∃ w',
        selWriteraw B strings fuel ⟨{}, b, []⟩ = .ok (some 0, w') ∧ w'.vars.file = []) := by
  refine ⟨fun L info schedule hinfo hfuel => ?_, fun β B b info h => writeraw_empty strings fuel h⟩
  obtain ⟨w', hw', hvars⟩ :=
    savelistEntries_front (S := schedule) (T := strings) (V := .binary) hinfo hfuel
      (Int.le_refl 0) ⟨{}, {}, []⟩
  refine ⟨w', hw', ?_⟩
  rw [hvars, file_binary]
  rfl

theorem oemBody_length : ([0, 0, 0, 0, 1, 2, 3, 0, 0, 0, 0, 0, 0] : List UInt8).length = 13 := rfl

/-- An entry of the manufacturer 0x030201 with a timestamp. -/
def timestamped : Entry := ⟨1, 0xc0, [0, 0, 0, 0, 1, 2, 3, 0, 0, 0, 0, 0, 0], oemBody_length⟩

theorem timestamped_nodup : ([timestamped].map Entry.id).Nodup := List.nodup_singleton _

theorem timestamped_few : [timestamped].length < 65536 := by decide

/-- A log with this entry only. -/
def oneEntry : Log where
  entries := [timestamped]
  nonempty := List.cons_ne_nil _ _
  nodup := timestamped_nodup
  proper _ h := absurd h List.not_mem_nil
  few := timestamped_few

/-- The answer of a BMC with one entry. -/
def oneInfo : Reply := Reply.of [0x51, 1, 0, 0, 0, 0, 0, 0, 0, 0, 0, 0, 0, 0]

/-- The file of the log with one entry. -/
theorem writeraw_file_one : ∃ w',
    selWriteraw (serve oneEntry oneInfo secondSilent)
      (fun _ _ => ([], [])) 2 ⟨{}, {}, []⟩ = .ok (some 0, w') ∧
      w'.vars.file = [1, 0, 0xc0, 0, 0, 0, 0, 3, 2, 1, 0, 0, 0, 0, 0, 0] := by
  obtain ⟨w', hw', hfile⟩ := (writeraw_file (fun _ _ => ([], [])) 2).1 oneEntry oneInfo
    secondSilent ⟨rfl, rfl, rfl⟩ (by decide)
  exact ⟨w', hw', hfile.trans (by decide)⟩

/-- The file is not what the BMC returned. -/
theorem writeraw_not_wire : ¬ ∀ (L : Log) (info : Reply) (schedule : ℕ → Option Log.Hiccup)
    (strings : Strings) (fuel : ℕ), L.Counts info → L.entries.length < fuel → ∃ w',
      selWriteraw (serve L info schedule) strings fuel ⟨{}, {}, []⟩ = .ok (some 0, w') ∧
      w'.vars.file = L.entries.flatMap Entry.wire := by
  intro h
  obtain ⟨w', hw', hfile⟩ :=
    h oneEntry oneInfo (fun _ => none) (fun _ _ => ([], [])) 2 ⟨rfl, rfl, rfl⟩
      (by decide)
  have hcounts : oneEntry.Counts oneInfo := ⟨rfl, rfl, rfl⟩
  have hfuel : oneEntry.entries.length < 2 := by decide
  obtain ⟨w, hw, hvars⟩ :=
    savelistEntries_front (S := fun _ => none) (T := fun _ _ => ([], [])) (V := .binary)
      hcounts hfuel (Int.le_refl 0) ⟨{}, {}, []⟩
  obtain ⟨-, rfl⟩ := Prod.mk.inj (Except.ok.inj (hw'.symm.trans hw))
  rw [hvars, file_binary] at hfile
  revert hfile
  decide

end Ipmitool.Sel.Raw
