import Ipmitool.Lanplus.Build
import Ipmitool.Intf.Registry

/-! # How deep a request is bridged

Three functions decide how many Send Message envelopes a request travels in: `bridgedRequest` writes
them, `entryBridgingLevel` records how many answers have to be peeled off, and `getBridgingLevel`
charges them to the payload budget. `writesEnvelopes_iff` reads the number off the bytes on the
wire.

The three agree on the usual configurations only. `levelsAgree_iff` has the exact condition: they
differ as soon as the target is one of the addresses of this side under one name but not under the
other, and as soon as the transit address is the target's, or one of this side's. -/

namespace Ipmitool.Lanplus.Bridging

open Ipmitool.Lib.Bytes Ipmitool.Lib.Machine Ipmitool.Core.Types Ipmitool.Intf.Registry
open Ipmitool.Crypto.Mac Ipmitool.Lanplus.State Ipmitool.Lanplus.Receive Ipmitool.Lanplus.Build

/-! ### Envelopes on the wire -/

/-- `Enveloped n inner bytes`: `bytes` are `inner` in `n` Send Message envelopes. -/
inductive Enveloped : ℕ → List UInt8 → List UInt8 → Prop
  | bare (inner : List UInt8) : Enveloped 0 inner inner
  | wrap {n : ℕ} {inner bytes : List UInt8} (rsAddr seq channel : UInt8)
      (h : Enveloped n inner bytes) : Enveloped (n + 1) inner (sendMessage rsAddr seq channel bytes)

theorem length_sendMessage (rsAddr seq channel : UInt8) (inner : List UInt8) :
    (sendMessage rsAddr seq channel inner).length = inner.length + 8 := by
  simp [sendMessage, checksummed]

theorem length_requestMessage (rsAddr rqAddr rqSeq : UInt8) (req : Request) :
    (requestMessage rsAddr rqAddr rqSeq req).length = req.data.length + 7 := by
  simp [requestMessage, checksummed]

/-- An envelope is eight bytes long, so the bytes determine the number of envelopes. -/
theorem Enveloped.length_eq {n : ℕ} {inner bytes : List UInt8} (h : Enveloped n inner bytes) :
    bytes.length = inner.length + 8 * n := by
  induction h with
  | bare inner => simp
  | wrap rsAddr seq channel h ih => rw [length_sendMessage, ih]; omega

/-- The wire representation of `req` is the request in `n` envelopes. -/
def WritesEnvelopes (intf : Intf) (bridgePossible : Bool) (req : Request) (rqSeq currSeq : UInt8)
    (n : ℕ) : Prop :=
  ∃ rsAddr rqAddr : UInt8, Enveloped n (requestMessage rsAddr rqAddr rqSeq req)
    (getIpmiPayloadWireRep intf bridgePossible req rqSeq currSeq)

section
variable (intf : Intf) (bp : Bool) (req : Request) (rqSeq currSeq : UInt8)

theorem bridgedRequest_le : bridgedRequest intf bp ≤ 2 := by
  unfold bridgedRequest
  split_ifs <;> omega

theorem writesEnvelopes_bridgedRequest :
    WritesEnvelopes intf bp req rqSeq currSeq (bridgedRequest intf bp) := by
  unfold WritesEnvelopes getIpmiPayloadWireRep
  have hle := bridgedRequest_le intf bp
  -- the three cases of the source: no envelope, one, and one inside the other
  rcases h : bridgedRequest intf bp with _ | _ | _ | n
  · exact ⟨_, _, .bare _⟩
  · exact ⟨_, _, .wrap _ _ _ (.bare _)⟩
  · exact ⟨_, _, .wrap _ _ _ (.wrap _ _ _ (.bare _))⟩
  · omega

theorem length_getIpmiPayloadWireRep :
    (getIpmiPayloadWireRep intf bp req rqSeq currSeq).length =
      req.data.length + 7 + 8 * bridgedRequest intf bp := by
  obtain ⟨rsAddr, rqAddr, h⟩ := writesEnvelopes_bridgedRequest intf bp req rqSeq currSeq
  rw [h.length_eq, length_requestMessage]

/-- **The number of envelopes on the wire** is `bridgedRequest` and nothing else. -/
theorem writesEnvelopes_iff {n : ℕ} :
    WritesEnvelopes intf bp req rqSeq currSeq n ↔ n = bridgedRequest intf bp := by
  constructor
  · rintro ⟨rsAddr, rqAddr, h⟩
    have h1 := h.length_eq
    rw [length_getIpmiPayloadWireRep, length_requestMessage] at h1
    omega
  · rintro rfl
    exact writesEnvelopes_bridgedRequest intf bp req rqSeq currSeq

end

/-! ### The three levels -/

/-- The number of envelopes on the wire, the level on the entry and the level of the payload budget
are one number. -/
def LevelsAgree (intf : Intf) (bp : Bool) (req : Request) (rqSeq currSeq : UInt8) : Prop :=
  WritesEnvelopes intf bp req rqSeq currSeq (entryBridgingLevel intf bp) ∧
    getBridgingLevel intf = entryBridgingLevel intf bp

/-- The configurations on which the levels agree: without bridging the target is this side, or
none; with bridging the target is this side under both names, or it is somebody else and the transit
address is absent or that of a third party. -/
def PlainAddresses (intf : Intf) (bp : Bool) : Prop :=
  let our := intf.ourAddress.toUInt32
  if bp then
    (intf.targetAddr = intf.myAddr ∧ intf.targetAddr = our) ∨
      (intf.targetAddr ≠ 0 ∧ intf.targetAddr ≠ intf.myAddr ∧ intf.targetAddr ≠ our ∧
        (intf.transitAddr = 0 ∨
          (intf.transitAddr ≠ intf.myAddr ∧ intf.transitAddr ≠ our ∧
            ¬ (intf.transitAddr = intf.targetAddr ∧
              intf.transitChannel = intf.targetChannel))))
  else intf.targetAddr = 0 ∨ intf.targetAddr = intf.myAddr

instance (intf : Intf) (bp : Bool) : Decidable (PlainAddresses intf bp) := by
  unfold PlainAddresses; infer_instance

theorem levelsAgree_iff_eq (intf : Intf) (bp : Bool) (req : Request) (rqSeq currSeq : UInt8) :
    LevelsAgree intf bp req rqSeq currSeq ↔
      entryBridgingLevel intf bp = bridgedRequest intf bp ∧
        getBridgingLevel intf = entryBridgingLevel intf bp := by
  unfold LevelsAgree
  rw [writesEnvelopes_iff]

/-- **When the three levels agree**, for every configuration and every request. -/
theorem levelsAgree_iff (intf : Intf) (bp : Bool) (req : Request) (rqSeq currSeq : UInt8) :
    LevelsAgree intf bp req rqSeq currSeq ↔ PlainAddresses intf bp := by
  rw [levelsAgree_iff_eq]
  unfold PlainAddresses entryBridgingLevel bridgedRequest getBridgingLevel
  set our := intf.ourAddress.toUInt32
  cases bp with
  | false =>
    simp only [or_true, if_true, true_and, Bool.false_eq_true, if_false]
    by_cases h0 : intf.targetAddr = 0
    · simp [h0]
    · by_cases hm : intf.targetAddr = intf.myAddr
      · simp [hm]
      · simp only [h0, hm, ne_eq, not_false_iff, and_self, if_true, or_self, iff_false]
        split_ifs <;> simp
  | true =>
    simp only [Bool.true_eq_false, or_false, if_true]
    by_cases hm : intf.targetAddr = intf.myAddr
    · by_cases ho : intf.targetAddr = our
      · simp [hm, ← ho]
      · rw [if_pos hm, if_neg ho]
        split_ifs <;> simp_all
    · by_cases h0 : intf.targetAddr = 0
      · -- nothing is charged to the budget, but an envelope is recorded
        rw [if_neg hm]
        split_ifs <;> simp_all
      · by_cases ho : intf.targetAddr = our
        · rw [if_neg hm, if_pos ho]
          split_ifs <;> simp_all
        · simp only [hm, h0, ho, false_and, false_or, ne_eq, not_false_iff, true_and, if_true,
            if_false]
          by_cases ht : intf.transitAddr = 0
          · simp [ht]
          · split_ifs <;> grind

/-- A request through a transit address that is this side's own: one envelope is written and
recorded, two are charged. -/
theorem not_levelsAgree_own_transit :
    ¬ LevelsAgree { myAddr := 0x20, targetAddr := 0x72, transitAddr := 0x20 } true
      { netfn := netfnApp, lun := bmcLun, cmd := 0x01, data := [], data_lt := no_data_lt } 1 1 := by
  rw [levelsAgree_iff_eq]
  decide

end Ipmitool.Lanplus.Bridging
