import Ipmitool.Fru.Storage

/-! # Reads are exact

An answer to a read may be an error, say that the piece is too large, or deliver fewer bytes than
were asked for. `read_exact`: if the bytes that are delivered come from an image, and a successful
answer delivers at least one of the bytes that it was asked for, then a transfer that succeeds
leaves the image in the destination and touches nothing behind it.

`readLoop_ends`: the loop of `readArea` comes to an end, whatever the answers are; more fuel than
its measure makes no difference. -/

namespace Ipmitool.Fru.Reads

open Ipmitool.Lib Ipmitool.Lib.Mem Ipmitool.Lib.Bytes Ipmitool.Lib.Machine Ipmitool.Lib.Dialogue
open Ipmitool.Core.Types Ipmitool.Core.Interface Ipmitool.Fru.Transfer Ipmitool.Fru.Storage

/-- `readArea` into a buffer that need not be cleared. -/
def readAreaInto {β : Type} (B : Bmc β) (env : Env) (id : UInt8) (info : Info) (offset length : ℕ)
    (dest : Memory UInt8) : Talk β Read :=
  if info.size < offset then return ⟨some .outOfRange, dest, info⟩
  else
    match firstSize env info with
    | none => return ⟨some .invalidMaxSize, dest, info⟩
    | some maxRead =>
      let finish := min (offset + length) info.size
      readLoop B id offset finish (finish - offset + maxRead + 1) { info with maxRead } offset dest

/-- A device with byte access and the image `m`: what a successful answer delivers is in the image,
and it is not empty if something was asked for. -/
structure Truthful {β : Type} (B : Bmc β) (id : UInt8) (m : Memory UInt8) : Prop where
  bytes : ∀ b off n r, off < 65536 → (B b (readRequest id false off n)).1 = some r → r.ccode = 0 →
    countOf false r < r.dataLen → ∀ i < countOf false r, r.data (1 + i) = m (off + i)
  some : ∀ b off n r, 0 < n → n ≤ 255 → (B b (readRequest id false off n)).1 = some r →
    r.ccode = 0 →
    0 < countOf false r

section
variable {β : Type} {B : Bmc β} {env : Env} {id : UInt8}

/-! ### The end of the loop -/

/-- **The loop ends**: fuel beyond the measure makes no difference. -/
theorem readLoop_ends (B : Bmc β) (id : UInt8) (base finish more : ℕ) :
    ∀ (fuel : ℕ) (info : Info) (off : ℕ) (dest : Memory UInt8), finish - off + info.maxRead < fuel →
    readLoop B id base finish (fuel + more) info off dest =
      readLoop B id base finish fuel info off dest
  | 0, info, off, dest, h => by omega
  | fuel + 1, info, off, dest, h => by
    rw [Nat.add_right_comm, readLoop, readLoop]
    congr 1
    funext o
    rcases o with _ | r
    · rfl
    have hsmaller : 8 < info.maxRead → smaller info.maxRead < info.maxRead := by
      intro h8
      unfold smaller
      split_ifs <;> omega
    by_cases hccode : r.ccode = 0
    · simp only [hccode, ne_eq, not_true_eq_false, if_false]
      by_cases hdone : finish ≤ off + countOf info.access r ∨ countOf info.access r = 0
      · simp only [if_pos hdone]
      · simp only [if_neg hdone]
        rw [readLoop_ends B id base finish more fuel info _ _ (by omega)]
    · simp only [ne_eq, hccode, not_false_eq_true, if_true]
      by_cases hlarge : isTooLarge r.ccode = true ∧ 8 < info.maxRead
      · simp only [if_pos hlarge]
        have hless := hsmaller hlarge.2
        rw [readLoop_ends B id base finish more fuel _ _ _ (by dsimp only; omega)]
      · simp only [if_neg hlarge]

/-- What a transfer that succeeds has done: the bytes up to `finish` are read, and nothing behind is
touched. -/
structure Exact (m dest : Memory UInt8) (base finish : ℕ) (r : Read) : Prop where
  copied : Copied m r.dest base finish
  rest : ∀ i, finish ≤ base + i → r.dest i = dest i

theorem readLoop_exact {m : Memory UInt8} (hB : Truthful B id m) {base finish : ℕ}
    (hfinish : finish < 65536) :
    ∀ (fuel : ℕ) (info : Info) (off : ℕ) (dest : Memory UInt8) (w w' : CmdWorld Unit β) (r : Read),
    info.access = false → 0 < info.maxRead → info.maxRead ≤ 255 → base ≤ off → off ≤ finish →
    Copied m dest base off →
    readLoop B id base finish fuel info off dest w = .ok (r, w') → r.error = none →
    Exact m dest base finish r
  | 0, info, off, dest, w, w', r, _, _, _, _, _, _, h, hnone => by
    obtain ⟨rfl, -⟩ := pure_ok.mp h
    cases hnone
  | fuel + 1, info, off, dest, w, w', r, haccess, hpos, hmax, hle, hoff, hcopied, h, hnone => by
    rw [readLoop] at h
    obtain ⟨o, t, hask, h⟩ := bind_ok.mp h
    obtain ⟨ho, rfl⟩ := ask_ok.mp hask
    rw [haccess] at ho
    rcases o with _ | a
    · obtain ⟨rfl, -⟩ := pure_ok.mp h
      cases hnone
    have hcountOf : countOf info.access a = countOf false a := by rw [haccess]
    simp only [hcountOf] at h
    by_cases hccode : a.ccode = 0
    · rw [if_neg (by simpa using hccode)] at h
      by_cases hlen : a.dataLen < 1
      · rw [if_pos hlen] at h
        obtain ⟨rfl, -⟩ := pure_ok.mp h
        cases hnone
      rw [if_neg hlen] at h
      by_cases hshort : a.dataLen - 1 < countOf false a ∨ finish - off < countOf false a
      · rw [if_pos hshort] at h
        obtain ⟨rfl, -⟩ := pure_ok.mp h
        cases hnone
      rw [if_neg hshort] at h
      have hpiece := hcopied.write hle (hB.bytes w.device off _ a (by omega) ho hccode (by omega))
      have hbehind : ∀ i, finish ≤ base + i →
          write dest (off - base) (Mem.read a.data 1 (countOf false a)) i = dest i := by
        intro i hi
        exact write_above _ _ (by rw [length_read]; omega)
      by_cases hdone : finish ≤ off + countOf false a ∨ countOf false a = 0
      · rw [if_pos hdone] at h
        obtain ⟨rfl, -⟩ := pure_ok.mp h
        have hall : finish ≤ off + countOf false a := by
          rcases hdone with hdone | hzero
          · exact hdone
          · -- a successful answer without bytes: nothing was asked for
            have hn : ¬ 0 < min (finish - off) info.maxRead := fun hn =>
              absurd (hB.some w.device off _ a hn (by omega) ho hccode) (by omega)
            omega
        exact ⟨fun i hi => hpiece i (by omega), hbehind⟩
      · rw [if_neg hdone] at h
        have hexact := readLoop_exact hB hfinish fuel info
          (off + countOf false a) _ _ w' r haccess hpos hmax (by omega)
          (by omega) hpiece h hnone
        exact ⟨hexact.copied, fun i hi => (hexact.rest i hi).trans (hbehind i hi)⟩
    · rw [if_pos (by simpa using hccode)] at h
      by_cases hlarge : isTooLarge a.ccode = true ∧ 8 < info.maxRead
      · rw [if_pos hlarge] at h
        have hsmaller : smaller info.maxRead < info.maxRead ∧ 0 < smaller info.maxRead := by
          unfold smaller
          split_ifs <;> omega
        exact readLoop_exact hB hfinish fuel { info with maxRead := smaller info.maxRead } off dest
          _ w' r haccess
          hsmaller.2 (by dsimp only; omega) hle hoff hcopied h hnone
      · rw [if_neg hlarge] at h
        obtain ⟨rfl, -⟩ := pure_ok.mp h
        cases hnone

theorem firstSize_le {info : Info} {maxRead : ℕ} (hmax : info.maxRead ≤ 255)
    (h : firstSize env info = some maxRead) :
    0 < maxRead ∧ maxRead ≤ 255 := by
  unfold firstSize at h
  dsimp only at h
  split_ifs at h <;> obtain rfl := Option.some.inj h <;> omega

/-- **Reads are exact**, and the loop ends for every sequence of answers. -/
theorem read_exact {m : Memory UInt8} (hB : Truthful B id m) {info : Info}
    (haccess : info.access = false) (hsize : info.size < 65536) (hmax : info.maxRead ≤ 255)
    (offset length : ℕ) (dest : Memory UInt8) :
    (∀ w w' r, readAreaInto B env id info offset length dest w = .ok (r, w') → r.error = none →
      (∀ i < min length (info.size - offset), r.dest i = m (offset + i)) ∧
        ∀ i, min length (info.size - offset) ≤ i → r.dest i = dest i) ∧
    ∀ {γ : Type} (D : Bmc γ) (maxRead fuel more : ℕ) (dest : Memory UInt8),
      min (offset + length) info.size - offset + maxRead < fuel →
        readLoop D id offset (min (offset + length) info.size) (fuel + more)
          { info with maxRead } offset dest =
          readLoop D id offset (min (offset + length) info.size) fuel
            { info with maxRead } offset dest := by
  refine ⟨fun w w' r h hnone => ?_, fun D maxRead fuel more dest hfuel => ?_⟩
  · unfold readAreaInto at h
    by_cases hrange : info.size < offset
    · rw [if_pos hrange] at h
      obtain ⟨rfl, -⟩ := pure_ok.mp h
      cases hnone
    rw [if_neg hrange] at h
    rcases hfirst : firstSize env info with _ | maxRead
    · rw [hfirst] at h
      obtain ⟨rfl, -⟩ := pure_ok.mp h
      cases hnone
    rw [hfirst] at h
    obtain ⟨hpos, hle⟩ := firstSize_le hmax hfirst
    have hexact := readLoop_exact hB
      (show min (offset + length) info.size < 65536 by omega) _ { info with maxRead } offset
      dest w w' r haccess hpos hle (Nat.le_refl _) (by omega) (fun i hi => by omega) h hnone
    exact ⟨fun i hi => hexact.copied i (by omega), fun i hi => hexact.rest i (by omega)⟩
  · exact readLoop_ends D id offset _ more fuel _ offset dest hfuel

end

/-- A device that finds the first request too large and then delivers at most three bytes at a
time. -/
def stingy (m : Memory UInt8) : Bmc ℕ := fun n c =>
  let off := (ofLe16 (c.data.getD 1 0) (c.data.getD 2 0)).toNat
  let count := min (c.data.getD 3 0).toNat 3
  (some (if n = 0 then { ccode := 0xca } else Reply.of (UInt8.ofNat count :: Mem.read m off count)),
    n + 1)

theorem truthful_stingy (id : UInt8) (m : Memory UInt8) : Truthful (stingy m) id m := by
  have hcount : ∀ n off,
      countOf false (Reply.of (UInt8.ofNat (min n 3) :: Mem.read m off (min n 3))) = min n 3 := by
    intro n off
    show (UInt8.ofNat (min n 3)).toNat = min n 3
    rw [UInt8.toNat_ofNat']
    omega
  refine ⟨fun b off n r hoff hr hccode hlen i hi => ?_, fun b off n r hpos hn hr hccode => ?_⟩
  · have hreply : (if b = 0 then { ccode := 0xca } else Reply.of
        (UInt8.ofNat (min (UInt8.ofNat n).toNat 3) ::
        Mem.read m (ofLe16 (UInt16.ofNat off).toUInt8 (UInt16.ofNat off >>> 8).toUInt8).toNat
          (min (UInt8.ofNat n).toNat 3))) = r := Option.some.inj hr
    rw [ofLe16_le16, UInt16.toNat_ofNat', Nat.mod_eq_of_lt hoff] at hreply
    split_ifs at hreply with h0
    · rw [← hreply] at hccode
      exact absurd hccode (by decide)
    · rw [← hreply, hcount] at hi
      have hi' : i < (Mem.read m off (min (UInt8.ofNat n).toNat 3)).length := by rwa [length_read]
      rw [← hreply]
      show (_ :: Mem.read m off (min (UInt8.ofNat n).toNat 3)).getD (1 + i) 0 = _
      rw [Nat.add_comm 1 i, List.getD_cons_succ, List.getD_eq_getElem?_getD,
        List.getElem?_eq_getElem hi', Option.getD_some, getElem_read]
  · have hreply : (if b = 0 then { ccode := 0xca } else Reply.of
        (UInt8.ofNat (min (UInt8.ofNat n).toNat 3) ::
        Mem.read m (ofLe16 (UInt16.ofNat off).toUInt8 (UInt16.ofNat off >>> 8).toUInt8).toNat
          (min (UInt8.ofNat n).toNat 3))) = r := Option.some.inj hr
    split_ifs at hreply with h0
    · rw [← hreply] at hccode
      exact absurd hccode (by decide)
    · rw [← hreply, hcount, UInt8.toNat_ofNat']
      omega

/-- Seven bytes from offset 4 on, in four answers. -/
theorem read_exact_stingy : ∃ r w', readAreaInto (stingy fun i => UInt8.ofNat (3 * i)) ⟨34,
    34⟩ 0 ⟨11, false, 0, 0⟩ 4 20
      (fun _ => 9) ⟨(), 0, []⟩ = .ok (r, w') ∧ w'.log.length = 4 ∧
    (∀ i < 7, r.dest i = UInt8.ofNat (3 * (4 + i))) ∧ ∀ i, 7 ≤ i → r.dest i = 9 := by
  obtain ⟨r, w', h, hp⟩ :=
    exists_of_returns (x := readAreaInto (stingy fun i => UInt8.ofNat (3 * i)) ⟨34, 34⟩ 0
      ⟨11, false, 0, 0⟩ 4 20 (fun _ => 9)) (s := ⟨(), 0, []⟩) (p :=
        fun r w' => r.error = none && w'.log.length = 4)
      (by decide +kernel)
  simp only [Bool.and_eq_true, decide_eq_true_eq] at hp
  obtain ⟨hcopied, hrest⟩ :=
    (read_exact (truthful_stingy 0 fun i => UInt8.ofNat (3 * i)) rfl (by decide) (by decide) 4 20
      (fun _ => 9)).1 _ w' r h hp.1
  exact ⟨r, w', h, hp.2, hcopied, hrest⟩

end Ipmitool.Fru.Reads
