import Ipmitool.Firewall.Changes

/-! # Resetting

`firewall reset` sends to every pair, supported or not, the masks of the sub-functions of its 256
commands and the two halves of its own (`Covers`), and returns the status of the last pair
(`resetAll_run`). -/

namespace Ipmitool.Firewall.Reset

open Ipmitool.Lib.Mem Ipmitool.Lib.Machine Ipmitool.Lib.Dialogue Ipmitool.Core.Types
  Ipmitool.Core.Interface
open Ipmitool.Firewall.Commands Ipmitool.Firewall.Discovery Ipmitool.Firewall.Changes

/-! ### The requests for a pair -/

/-- The parameters of the requests for a pair, and for a command of it. -/
def place (p : Params) (l n : ℕ) : Params := { p with lun := l, netfn := 2 * n }

def placeCommand (p : Params) (l n c : ℕ) : Params :=
  { p with lun := l, netfn := 2 * n, command := c }

/-- The masks that are sent. -/
def BmcInfo.commandMask (bmc : BmcInfo) (l n : ℕ) : Memory UInt8 :=
  (bmc.pair l n).enables (splat true) false

def BmcInfo.subfnMask (bmc : BmcInfo) (l n c : ℕ) : Memory UInt8 :=
  merge ((bmc.pair l n).command c).subfnConfig ((bmc.pair l n).command c).subfnEnable (splat true)

def commandRequest (bmc : BmcInfo) (p : Params) (l n op : ℕ) : Command :=
  setCommandEnablesRequest (place p l n) op (BmcInfo.commandMask bmc l n)

def subfnRequest (bmc : BmcInfo) (p : Params) (l n c : ℕ) : Command :=
  setSubfnEnablesRequest (placeCommand p l n c) (BmcInfo.subfnMask bmc l n c)

section
variable {p : Params} {l n l' n' : ℕ}

theorem place_inj (hl : l < 4) (hn : n < 32) (hl' : l' < 4) (hn' : n' < 32) {op op' : ℕ}
    (hop : op < 2) (hop' : op' < 2)
    (hbyte : netfnByte (2 * (n : ℤ)) op = netfnByte (2 * (n' : ℤ)) op')
    (hlun : UInt8.ofInt (l : ℤ) = UInt8.ofInt (l' : ℤ)) : l = l' ∧ n = n' ∧ op = op' := by
  have h1 := congrArg UInt8.toNat hbyte
  have h2 := congrArg UInt8.toNat hlun
  rw [netfnByte_toNat (by omega) (by omega) hop, netfnByte_toNat (by omega) (by omega) hop'] at h1
  rw [ofInt_toNat (by omega) (by omega), ofInt_toNat (by omega) (by omega)] at h2
  omega

theorem commandRequest_inj (hl : l < 4) (hn : n < 32) (hl' : l' < 4) (hn' : n' < 32) {op op' : ℕ}
    (hop : op < 2) (hop' : op' < 2) {mask mask' : Memory UInt8}
    (h : setCommandEnablesRequest (place p l n) op mask = setCommandEnablesRequest
      (place p l' n') op' mask') :
    l = l' ∧ n = n' ∧ op = op' ∧
      ∀ k < 128, bitTest mask (128 * op + k) = bitTest mask' (128 * op + k) := by
  have hdata := congrArg Command.data h
  change [p.channel, netfnByte (2 * (n : ℤ)) op, UInt8.ofInt (l : ℤ)] ++ read mask (16 * op) 16 =
    [p.channel, netfnByte (2 * (n' : ℤ)) op', UInt8.ofInt (l' : ℤ)] ++
      read mask' (16 * op') 16 at hdata
  obtain ⟨hhead, -⟩ := List.append_inj hdata rfl
  simp only [List.cons.injEq, true_and, and_true] at hhead
  obtain ⟨rfl, rfl, rfl⟩ := place_inj hl hn hl' hn' hop hop' hhead.1 hhead.2
  have hlt : (place p l n).netfn < 64 := by
    change 2 * (n : ℤ) < 64
    omega
  have h0 : 0 ≤ (place p l n).netfn := by
    change 0 ≤ 2 * (n : ℤ)
    omega
  exact ⟨rfl, rfl, rfl, (setCommandEnablesRequest_inj h0 hlt hop hop h).2⟩

theorem subfnRequest_inj (hl : l < 4) (hn : n < 32) (hl' : l' < 4) (hn' : n' < 32) {c c' : ℕ}
    (hc : c < 256) (hc' : c' < 256) {mask mask' : Memory UInt8}
    (h : setSubfnEnablesRequest (placeCommand p l n c) mask = setSubfnEnablesRequest
      (placeCommand p l' n' c') mask') :
    l = l' ∧ n = n' ∧ c = c' ∧ ∀ k < 32, bitTest mask k = bitTest mask' k := by
  have hdata := congrArg Command.data h
  change [p.channel, netfnByte (2 * (n : ℤ)) 0, UInt8.ofInt (l : ℤ),
    UInt8.ofInt (c : ℤ)] ++ read mask 0 4 =
    [p.channel, netfnByte (2 * (n' : ℤ)) 0, UInt8.ofInt (l' : ℤ),
      UInt8.ofInt (c' : ℤ)] ++ read mask' 0 4 at hdata
  obtain ⟨hhead, hread⟩ := List.append_inj hdata rfl
  simp only [List.cons.injEq, true_and, and_true] at hhead
  obtain ⟨hbyte, hlun, hcommand⟩ := hhead
  obtain ⟨rfl, rfl, -⟩ := place_inj hl hn hl' hn' (by decide) (by decide) hbyte hlun
  have h3 := congrArg UInt8.toNat hcommand
  rw [ofInt_toNat (by omega) (by omega), ofInt_toNat (by omega) (by omega)] at h3
  refine ⟨rfl, rfl, by omega, fun k hk => bitTest_congr ?_⟩
  have hcell := cells_of_read hread (i := k / 8) (by omega)
  rwa [Nat.zero_add] at hcell

end

/-! ### What is sent to a pair -/

/-- The requests for the pairs in `done` and no others; the second half of the commands only if the
first half was accepted. -/
structure Covers (bmc : BmcInfo) (p : Params) (done : ℕ → ℕ → Prop)
    (evs : List Exchange) : Prop where
  mem : ∀ e ∈ evs, ∃ l n, done l n ∧
    ((∃ op < 2, e.1 = commandRequest bmc p l n op) ∨ ∃ c < 256, e.1 = subfnRequest bmc p l n c)
  subfn : ∀ l n, done l n → ∀ c < 256, ∃ a, (subfnRequest bmc p l n c, a) ∈ evs
  halves : ∀ l n, done l n → ∃ ret evs', (∀ e ∈ evs', e ∈ evs) ∧
    Halves (place p l n) (BmcInfo.commandMask bmc l n) ret evs'

section
variable {bmc : BmcInfo} {p : Params} {done done' : ℕ → ℕ → Prop} {evs evs' : List Exchange}

theorem covers_nil : Covers bmc p (fun _ _ => False) [] :=
  ⟨fun _ he => absurd he List.not_mem_nil, fun _ _ h => h.elim, fun _ _ h => h.elim⟩

theorem Covers.append (h : Covers bmc p done evs) (h' : Covers bmc p done' evs') :
    Covers bmc p (fun l n => done l n ∨ done' l n) (evs ++ evs') := by
  refine ⟨fun e he => ?_, fun l n hd c hc => ?_, fun l n hd => ?_⟩
  · rcases List.mem_append.mp he with he | he
    · obtain ⟨l, n, hd, hreq⟩ := h.mem e he
      exact ⟨l, n, .inl hd, hreq⟩
    · obtain ⟨l, n, hd, hreq⟩ := h'.mem e he
      exact ⟨l, n, .inr hd, hreq⟩
  · rcases hd with hd | hd
    · obtain ⟨a, ha⟩ := h.subfn l n hd c hc
      exact ⟨a, List.mem_append_left _ ha⟩
    · obtain ⟨a, ha⟩ := h'.subfn l n hd c hc
      exact ⟨a, List.mem_append_right _ ha⟩
  · rcases hd with hd | hd
    · obtain ⟨ret, blk, hsub, hblk⟩ := h.halves l n hd
      exact ⟨ret, blk, fun e he => List.mem_append_left _ (hsub e he), hblk⟩
    · obtain ⟨ret, blk, hsub, hblk⟩ := h'.halves l n hd
      exact ⟨ret, blk, fun e he => List.mem_append_right _ (hsub e he), hblk⟩

theorem Covers.congr (h : Covers bmc p done evs) (heq : ∀ l n, done l n ↔ done' l n) :
    Covers bmc p done' evs := by
  have : done = done' := funext fun l => funext fun n => propext (heq l n)
  exact this ▸ h

variable {γ β : Type} {B : Bmc β}

/-- The loop over the commands. -/
theorem resetCommands_run (p : Params) (bmc : BmcInfo) (l n : ℕ) (ret : Bool) (w : CmdWorld γ β) :
    ∃ ret' w' evs,
    resetCommands B (place p l n) (bmc.pair l n) ret w = .ok (ret', w') ∧ w'.log = w.log ++ evs ∧
    evs.map Prod.fst = (List.range 256).map (subfnRequest bmc p l n) := by
  obtain ⟨ret', w', hrun, evs, hlog, hevs⟩ := foldlM_range_ok
    (f := fun (_ : Bool) (command : ℕ) =>
      (setSubfnEnables B { place p l n with command := (command : ℤ) }
      ((bmc.pair l n).command command) (splat true) : Cmd γ β Bool))
    (I := fun k _ s => ∃ evs, s.log = w.log ++ evs ∧
      evs.map Prod.fst = (List.range k).map (subfnRequest bmc p l n))
    (n := 256) (a := ret) (s := w) (by
      rintro k hk ret1 w1 ⟨evs1, hlog1, hevs1⟩
      obtain ⟨a, w2, h2, hlog2⟩ :=
        setSubfnEnables_run (B := B) { place p l n with command := (k : ℤ) }
          ((bmc.pair l n).command k) (splat true) w1
      rw [hlog1, List.append_assoc] at hlog2
      refine ⟨good a, w2, h2, _, hlog2, ?_⟩
      rw [List.map_append, hevs1, List.range_succ, List.map_append]
      rfl)
    ⟨[], by simp, rfl⟩
  exact ⟨ret', w', evs, hrun, hlog, hevs⟩

/-- A pair: its part of what is sent ends with the halves of the commands, whose status it
returns. -/
theorem resetPair_run (p : Params) (bmc : BmcInfo) (l n : ℕ) (ret : Bool) (w : CmdWorld γ β) :
    ∃ ret' w' subs blk,
    resetPair B p bmc l ret n w = .ok (ret', w') ∧ w'.log = w.log ++ (subs ++ blk) ∧
    subs.map Prod.fst = (List.range 256).map (subfnRequest bmc p l n) ∧
    Halves (place p l n) (BmcInfo.commandMask bmc l n) ret' blk := by
  obtain ⟨ret1, w1, subs, h1, hlog1, hsubs⟩ := resetCommands_run (B := B) p bmc l n ret w
  obtain ⟨ret2, w2, blk, h2, hlog2, hblk⟩ :=
    setCommandEnables_run (B := B) { place p l n with command := 255 }
      (bmc.pair l n) (splat true) false w1
  rw [hlog1, List.append_assoc] at hlog2
  exact ⟨ret2, w2, subs, blk, bind_ok.mpr ⟨_, _, h1, h2⟩, hlog2, hsubs, hblk⟩

theorem covers_pair {l n : ℕ} {ret : Bool} {subs blk : List Exchange}
    (hsubs : subs.map Prod.fst = (List.range 256).map (subfnRequest bmc p l n))
    (hblk : Halves (place p l n) (BmcInfo.commandMask bmc l n) ret blk) :
    Covers bmc p (fun l' n' => l' = l ∧ n' = n) (subs ++ blk) := by
  refine ⟨fun e he => ⟨l, n, ⟨rfl, rfl⟩, ?_⟩, ?_, ?_⟩
  · rcases List.mem_append.mp he with he | he
    · have hreq : e.1 ∈ (List.range 256).map (subfnRequest bmc p l n) :=
        hsubs ▸ List.mem_map_of_mem he
      obtain ⟨c, hc, heq⟩ := List.mem_map.mp hreq
      exact .inr ⟨c, List.mem_range.mp hc, heq.symm⟩
    · exact .inl (hblk.mem he)
  · rintro l' n' ⟨rfl, rfl⟩ c hc
    have hreq : subfnRequest bmc p l' n' c ∈ subs.map Prod.fst :=
      hsubs ▸ List.mem_map_of_mem (List.mem_range.mpr hc)
    obtain ⟨⟨req, a⟩, he, rfl⟩ := List.mem_map.mp hreq
    exact ⟨a, List.mem_append_left _ he⟩
  · rintro l' n' ⟨rfl, rfl⟩
    exact ⟨ret, blk, fun e he => List.mem_append_right _ he, hblk⟩

theorem resetRow_run (p : Params) (bmc : BmcInfo) (l m : ℕ) (ret : Bool) (w : CmdWorld γ β) :
    ∃ ret' w' evs,
    (List.range m).foldlM (resetPair B p bmc l) ret w = .ok (ret', w') ∧ w'.log = w.log ++ evs ∧
    Covers bmc p (fun l' n => l' = l ∧ n < m) evs := by
  obtain ⟨ret', w', hrun, evs, hlog, hcovers⟩ := foldlM_range_ok (f := resetPair B p bmc l)
    (I := fun k _ s => ∃ evs, s.log = w.log ++ evs ∧ Covers bmc p (fun l' n => l' = l ∧ n < k) evs)
    (n := m) (a := ret) (s := w) (by
      rintro k hk ret1 w1 ⟨evs1, hlog1, hcovers1⟩
      obtain ⟨ret2, w2, subs, blk, h2, hlog2, hsubs, hblk⟩ :=
        resetPair_run (B := B) p bmc l k ret1 w1
      rw [hlog1, List.append_assoc] at hlog2
      refine ⟨ret2, w2, h2, _, hlog2,
        (hcovers1.append (covers_pair hsubs hblk)).congr fun l' n => ?_⟩
      rw [← and_or_left, Nat.lt_succ_iff_lt_or_eq])
    ⟨[], by simp, covers_nil.congr fun l' n => by simp⟩
  exact ⟨ret', w', evs, hrun, hlog, hcovers⟩

theorem resetRows_run (p : Params) (bmc : BmcInfo) (m : ℕ) (ret : Bool) (w : CmdWorld γ β) :
    ∃ ret' w' evs,
    (List.range m).foldlM (fun ret l => (List.range 32).foldlM (resetPair B p bmc l) ret) ret w =
      .ok (ret', w') ∧
    w'.log = w.log ++ evs ∧ Covers bmc p (fun l n => l < m ∧ n < 32) evs := by
  obtain ⟨ret', w', hrun, evs, hlog, hcovers⟩ := foldlM_range_ok
    (f := fun ret l => ((List.range 32).foldlM (resetPair B p bmc l) ret : Cmd γ β Bool))
    (I := fun k _ s => ∃ evs, s.log = w.log ++ evs ∧ Covers bmc p (fun l n => l < k ∧ n < 32) evs)
    (n := m) (a := ret) (s := w) (by
      rintro k hk ret1 w1 ⟨evs1, hlog1, hcovers1⟩
      obtain ⟨ret2, w2, evs2, h2, hlog2, hcovers2⟩ := resetRow_run (B := B) p bmc k 32 ret1 w1
      rw [hlog1, List.append_assoc] at hlog2
      refine ⟨ret2, w2, h2, _, hlog2, (hcovers1.append hcovers2).congr fun l n => ?_⟩
      rw [← or_and_right, ← Nat.lt_succ_iff_lt_or_eq])
    ⟨[], by simp, covers_nil.congr fun l n => by simp⟩
  exact ⟨ret', w', evs, hrun, hlog, hcovers⟩

/-- The whole of it: what is sent for all pairs but the last one, and for that one. -/
structure ResetRun (bmc : BmcInfo) (p : Params) (ret : Bool) (evs : List Exchange) : Prop where
  split : ∃ evs0 evs1 subs blk, evs = evs0 ++ (evs1 ++ (subs ++ blk)) ∧ (∀ e ∈ evs0, ¬ IsSet e.1) ∧
    Covers bmc p (fun l n => l < 4 ∧ n < 32 ∧ ¬ (l = 3 ∧ n = 31)) evs1 ∧
    subs.map Prod.fst = (List.range 256).map (subfnRequest bmc p 3 31) ∧
    Halves (place p 3 31) (BmcInfo.commandMask bmc 3 31) ret blk

theorem resetAll_run (p : Params) (bmc : BmcInfo) {w w0 : CmdWorld γ β}
    (h0 : gatherInfo B p {} w = .ok (bmc, w0)) :
    ∃ ret w' evs, resetAll B p w = .ok (ret, w') ∧ w'.log = w.log ++ evs ∧
    ResetRun bmc p ret evs := by
  obtain ⟨evs0, hlog0, hasks⟩ := (runs_gatherInfo p {}).rel h0
  obtain ⟨ret1, w1, evs1, h1, hlog1, hcovers1⟩ := resetRows_run (B := B) p bmc 3 true w0
  obtain ⟨ret2, w2, evs2, h2, hlog2, hcovers2⟩ := resetRow_run (B := B) p bmc 3 31 ret1 w1
  obtain ⟨ret3, w3, subs, blk, h3, hlog3, hsubs, hblk⟩ := resetPair_run (B := B) p bmc 3 31 ret2 w2
  have hlog : w3.log = w.log ++ (evs0 ++ (evs1 ++ evs2 ++ (subs ++ blk))) := by
    rw [hlog3, hlog2, hlog1, hlog0]
    simp
  refine ⟨ret3, w3, _, ?_, hlog, ⟨evs0, evs1 ++ evs2, subs, blk, rfl, hasks, ?_, hsubs, hblk⟩⟩
  · unfold resetAll
    rw [bind_run h0, show List.range 4 = List.range 3 ++ [3] from rfl, List.foldlM_append]
    refine bind_ok.mpr ⟨ret1, w1, h1, bind_ok.mpr ⟨ret3, w3, ?_, rfl⟩⟩
    dsimp only
    rw [show List.range 32 = List.range 31 ++ [31] from rfl, List.foldlM_append]
    exact bind_ok.mpr ⟨ret2, w2, h2, bind_ok.mpr ⟨ret3, w3, h3, rfl⟩⟩
  · refine (hcovers1.append hcovers2).congr fun l n => ?_
    omega

theorem ResetRun.covers {ret : Bool} (h : ResetRun bmc p ret evs) :
    ∃ evs0 evs1, evs = evs0 ++ evs1 ∧
    (∀ e ∈ evs0, ¬ IsSet e.1) ∧ Covers bmc p (fun l n => l < 4 ∧ n < 32) evs1 := by
  obtain ⟨evs0, evs1, subs, blk, rfl, hasks, hcovers, hsubs, hblk⟩ := h.split
  refine ⟨evs0, _, rfl, hasks, (hcovers.append (covers_pair hsubs hblk)).congr fun l n => ?_⟩
  omega

/-- The requests that change something are those for the pairs. -/
theorem ResetRun.mem {ret : Bool} (h : ResetRun bmc p ret evs) {e : Exchange} (he : e ∈ evs)
    (hset : IsSet e.1) :
    ∃ l < 4, ∃ n < 32, (∃ op < 2, e.1 = commandRequest bmc p l n op) ∨ ∃ c < 256,
    e.1 = subfnRequest bmc p l n c := by
  obtain ⟨evs0, evs1, rfl, hasks, hcovers⟩ := h.covers
  rcases List.mem_append.mp he with he | he
  · exact absurd hset (hasks e he)
  · obtain ⟨l, n, ⟨hl, hn⟩, hreq⟩ := hcovers.mem e he
    exact ⟨l, hl, n, hn, hreq⟩

theorem ResetRun.subfn {ret : Bool} (h : ResetRun bmc p ret evs) {l n c : ℕ} (hl : l < 4)
    (hn : n < 32) (hc : c < 256) : ∃ a, (subfnRequest bmc p l n c, a) ∈ evs := by
  obtain ⟨evs0, evs1, rfl, -, hcovers⟩ := h.covers
  obtain ⟨a, ha⟩ := hcovers.subfn l n ⟨hl, hn⟩ c hc
  exact ⟨a, List.mem_append_right _ ha⟩

/-- If nothing is refused, both halves are sent. -/
theorem ResetRun.command {ret : Bool} (h : ResetRun bmc p ret evs)
    (hgood : ∀ e ∈ evs, IsSet e.1 → good e.2 = true) {l n op : ℕ} (hl : l < 4) (hn : n < 32)
    (hop : op < 2) : ∃ a, (commandRequest bmc p l n op, a) ∈ evs := by
  obtain ⟨evs0, evs1, rfl, -, hcovers⟩ := h.covers
  obtain ⟨ret', blk, hsub, ⟨a, ha, -, rfl⟩ | ⟨a, b, -, -, rfl⟩⟩ := hcovers.halves l n ⟨hl, hn⟩
  · have hmem := List.mem_append_right evs0 (hsub _ List.mem_cons_self)
    have hset := hgood _ hmem (isSet_setCommandEnables _ _ _)
    rw [ha] at hset
    cases hset
  · obtain rfl | rfl : op = 0 ∨ op = 1 := by omega
    · exact ⟨a, List.mem_append_right _ (hsub _ List.mem_cons_self)⟩
    · exact ⟨b, List.mem_append_right _ (hsub _ (List.mem_cons_of_mem _ List.mem_cons_self))⟩

end

/-! ### What the masks say -/

section
variable {R : Reports} {p : Params} {bmc : BmcInfo} {l n : ℕ}

theorem bitTest_commandMask (h : Finds R p bmc) (hl : l < 4) (hn : n < 32) {c : ℕ} (hc : c < 256) :
    bitTest (BmcInfo.commandMask bmc l n) c = true ↔
      Gathered R p l n ∧ if R.configurable l n c = true then c / 8 ≠ 12
        else R.enabled l n c = true := by
  unfold BmcInfo.commandMask
  rw [bitTest_enables, bitTest_splat]
  by_cases hg : Gathered R p l n
  · have hknown := h.known l hl n hn hg
    have hconfig : bitTest (bmc.pair l n).configMask c = R.configurable l n c :=
      bitTest_congr (hknown .config (c / 8) (by omega))
    have henable : bitTest (bmc.pair l n).enableMask c = R.enabled l n c :=
      bitTest_congr (hknown .enable (c / 8) (by omega))
    rw [hconfig, henable, and_iff_right hg]
    split_ifs <;> simp
  · have hblank := h.blank l hl n hn hg
    have hzero : ∀ bf : Memory UInt8, bf (c / 8) = 0 → bitTest bf c = false := by
      intro bf hbf
      rw [bitTest_eq, hbf]
      simp [bit]
    have hconfig : bitTest (bmc.pair l n).configMask c = false := hzero _ (hblank .config _)
    have henable : bitTest (bmc.pair l n).enableMask c = false := hzero _ (hblank .enable _)
    rw [hconfig, henable, if_neg Bool.false_ne_true]
    exact iff_of_false Bool.false_ne_true fun hd => hg hd.1

theorem bitTest_subfnMask (h : Finds R p bmc) (hl : l < 4) (hn : n < 32) {c s : ℕ} (hs : s < 32) :
    bitTest (BmcInfo.subfnMask bmc l n c) s = true ↔ GatheredSubfn R p l n c ∧
      (R.configurableSubfn l n c s = true ∨ R.enabledSubfn l n c s = true) := by
  unfold BmcInfo.subfnMask
  rw [bitTest_merge, bitTest_splat]
  by_cases hg : GatheredSubfn R p l n c
  · have hknown := h.knownSubfn l hl n hn c hg
    have hconfig : bitTest ((bmc.pair l n).command c).subfnConfig s = R.configurableSubfn l n c s :=
      bitTest_congr (hknown .config (s / 8) (by omega))
    have henable : bitTest ((bmc.pair l n).command c).subfnEnable s = R.enabledSubfn l n c s :=
      bitTest_congr (hknown .enable (s / 8) (by omega))
    rw [hconfig, henable, and_iff_right hg]
    cases R.configurableSubfn l n c s <;> simp
  · have hblank := h.blankSubfn l hl n hn c hg
    have hzero : ∀ bf : Memory UInt8, bf (s / 8) = 0 → bitTest bf s = false := by
      intro bf hbf
      rw [bitTest_eq, hbf]
      simp [bit]
    have hconfig : bitTest ((bmc.pair l n).command c).subfnConfig s = false :=
      hzero _ (hblank .config _)
    have henable : bitTest ((bmc.pair l n).command c).subfnEnable s = false :=
      hzero _ (hblank .enable _)
    rw [hconfig, henable, if_neg Bool.false_ne_true]
    exact iff_of_false Bool.false_ne_true fun hd => hg hd.1

end

/-! ### Opening everything -/

/-- A BMC that answers all of discovery and accepts every change. -/
structure AnswersAll {β : Type} (B : Bmc β) (channel : UInt8) (R : Reports) : Prop where
  discovery : Answers B channel R
  sets : ∀ b c, IsSet c → good (B b c).1 = true

/-- What can be configured on a supported pair is sent as enabled, and nothing that is enabled is
sent as disabled. -/
structure Opens (R : Reports) (p : Params) (evs : List Exchange) : Prop where
  shape : ∀ e ∈ evs, IsSet e.1 → ∃ l < 4, ∃ n < 32,
    (∃ op < 2, ∃ mask, e.1 = setCommandEnablesRequest (place p l n) op mask) ∨
      ∃ c < 256, ∃ mask, e.1 = setSubfnEnablesRequest (placeCommand p l n c) mask
  commands : ∀ l < 4, ∀ n < 32, R.Supported l n → ∀ op < 2, ∀ k < 128,
    R.configurable l n (128 * op + k) = true →
      ∃ mask a, (setCommandEnablesRequest (place p l n) op mask, a) ∈ evs ∧
        bitTest mask (128 * op + k) = true
  subfns : ∀ l < 4, ∀ n < 32, R.Supported l n → ∀ c < 256, ∀ s < 32,
    R.configurableSubfn l n c s = true →
    ∃ mask a, (setSubfnEnablesRequest (placeCommand p l n c) mask, a) ∈ evs ∧ bitTest mask s = true
  keepsCommands : ∀ l < 4, ∀ n < 32, ∀ op < 2, ∀ mask a,
    (setCommandEnablesRequest (place p l n) op mask, a) ∈ evs → ∀ k < 128,
      R.enabled l n (128 * op + k) = true → bitTest mask (128 * op + k) = true
  keepsSubfns : ∀ l < 4, ∀ n < 32, ∀ c < 256, ∀ mask a,
    (setSubfnEnablesRequest (placeCommand p l n c) mask, a) ∈ evs → ∀ s < 32,
      R.enabledSubfn l n c s = true → bitTest mask s = true

/-- What is enabled, or configurable on a supported pair, is known, and no configurable command from
60h to 67h. -/
structure Openable (R : Reports) (p : Params) : Prop where
  commands : ∀ l < 4, ∀ n < 32, ∀ c < 256,
    R.enabled l n c = true ∨ R.Supported l n ∧ R.configurable l n c = true →
      Gathered R p l n ∧ ¬ (R.configurable l n c = true ∧ c / 8 = 12)
  subfns : ∀ l < 4, ∀ n < 32, ∀ c < 256, ∀ s < 32,
    R.enabledSubfn l n c s = true ∨ R.Supported l n ∧ R.configurableSubfn l n c s = true →
      GatheredSubfn R p l n c

section
variable {R : Reports} {p : Params} {bmc : BmcInfo} {evs : List Exchange} {ret : Bool}

/-- The mask of a request that was sent. -/
theorem ResetRun.commandBits (h : ResetRun bmc p ret evs) {l n op : ℕ} (hl : l < 4) (hn : n < 32)
    (hop : op < 2) {mask : Memory UInt8} {a : Option Reply}
    (he : (setCommandEnablesRequest (place p l n) op mask, a) ∈ evs) {k : ℕ}
    (hk : k < 128) : bitTest mask (128 * op + k) = bitTest (BmcInfo.commandMask bmc l n)
      (128 * op + k) := by
  obtain ⟨l', hl', n', hn', ⟨op', hop', heq⟩ | ⟨c, -, heq⟩⟩ :=
    h.mem he (isSet_setCommandEnables _ _ _)
  · obtain ⟨rfl, rfl, rfl, hbits⟩ := commandRequest_inj hl hn hl' hn' hop hop' heq
    exact hbits k hk
  · cases congrArg Command.cmd heq

theorem ResetRun.subfnBits (h : ResetRun bmc p ret evs) {l n c : ℕ} (hl : l < 4) (hn : n < 32)
    (hc : c < 256) {mask : Memory UInt8} {a : Option Reply}
    (he : (setSubfnEnablesRequest (placeCommand p l n c) mask, a) ∈ evs) {s : ℕ} (hs : s < 32) :
    bitTest mask s = bitTest (BmcInfo.subfnMask bmc l n c) s := by
  obtain ⟨l', hl', n', hn', ⟨op', hop', heq⟩ | ⟨c', hc', heq⟩⟩ :=
    h.mem he (isSet_setSubfnEnables _ _)
  · cases congrArg Command.cmd heq
  · obtain ⟨rfl, rfl, rfl, hbits⟩ := subfnRequest_inj hl hn hl' hn' hc hc' heq
    exact hbits s hs

theorem opens_iff (hfinds : Finds R p bmc) (h : ResetRun bmc p ret evs)
    (hgood : ∀ e ∈ evs, IsSet e.1 → good e.2 = true) : Opens R p evs ↔ Openable R p := by
  constructor
  · intro ho
    refine ⟨fun l hl n hn c hc hneed => ?_, fun l hl n hn c hc s hs hneed => ?_⟩
    · have hplace : 128 * (c / 128) + c % 128 = c := by omega
      have hbit : bitTest (BmcInfo.commandMask bmc l n) c = true := by
        rw [← hplace] at hneed ⊢
        rcases hneed with he | ⟨hsup, hconfig⟩
        · obtain ⟨a, ha⟩ := h.command hgood hl hn (show c / 128 < 2 by omega)
          exact ho.keepsCommands l hl n hn (c / 128) (by omega) _ a ha (c % 128) (by omega) he
        · obtain ⟨mask, a, ha, hb⟩ :=
            ho.commands l hl n hn hsup (c / 128) (by omega) (c % 128) (by omega) hconfig
          rwa [h.commandBits hl hn (by omega) ha (by omega)] at hb
      obtain ⟨hg, hif⟩ := (bitTest_commandMask hfinds hl hn hc).mp hbit
      refine ⟨hg, fun ⟨hconfig, hbyte⟩ => ?_⟩
      rw [if_pos hconfig] at hif
      exact hif hbyte
    · have hbit : bitTest (BmcInfo.subfnMask bmc l n c) s = true := by
        rcases hneed with he | ⟨hsup, hconfig⟩
        · obtain ⟨a, ha⟩ := h.subfn hl hn hc
          exact ho.keepsSubfns l hl n hn c hc _ a ha s hs he
        · obtain ⟨mask, a, ha, hb⟩ := ho.subfns l hl n hn hsup c hc s hs hconfig
          rwa [h.subfnBits hl hn hc ha hs] at hb
      exact ((bitTest_subfnMask hfinds hl hn hs).mp hbit).1
  · intro ho
    have hcommand : ∀ l < 4, ∀ n < 32, ∀ c < 256,
        R.enabled l n c = true ∨ R.Supported l n ∧ R.configurable l n c = true →
          bitTest (BmcInfo.commandMask bmc l n) c = true := by
      intro l hl n hn c hc hneed
      obtain ⟨hg, hno⟩ := ho.commands l hl n hn c hc hneed
      refine (bitTest_commandMask hfinds hl hn hc).mpr ⟨hg, ?_⟩
      by_cases hconfig : R.configurable l n c = true
      · rw [if_pos hconfig]
        exact fun hbyte => hno ⟨hconfig, hbyte⟩
      · rw [if_neg hconfig]
        exact hneed.resolve_right fun hd => hconfig hd.2
    have hsubfn : ∀ l < 4, ∀ n < 32, ∀ c < 256, ∀ s < 32,
        R.enabledSubfn l n c s = true ∨ R.Supported l n ∧ R.configurableSubfn l n c s = true →
          bitTest (BmcInfo.subfnMask bmc l n c) s = true := by
      intro l hl n hn c hc s hs hneed
      refine (bitTest_subfnMask hfinds hl hn hs).mpr ⟨ho.subfns l hl n hn c hc s hs hneed, ?_⟩
      exact hneed.symm.imp And.right id
    refine ⟨fun e he hset => ?_, fun l hl n hn hsup op hop k hk hconfig => ?_,
      fun l hl n hn hsup c hc s hs hconfig => ?_, fun l hl n hn op hop mask a ha k hk he => ?_,
      fun l hl n hn c hc mask a ha s hs he => ?_⟩
    · obtain ⟨l, hl, n, hn, ⟨op, hop, heq⟩ | ⟨c, hc, heq⟩⟩ := h.mem he hset
      · exact ⟨l, hl, n, hn, .inl ⟨op, hop, _, heq⟩⟩
      · exact ⟨l, hl, n, hn, .inr ⟨c, hc, _, heq⟩⟩
    · obtain ⟨a, ha⟩ := h.command hgood hl hn hop
      exact ⟨_, a, ha, hcommand l hl n hn _ (by omega) (.inr ⟨hsup, hconfig⟩)⟩
    · obtain ⟨a, ha⟩ := h.subfn hl hn hc
      exact ⟨_, a, ha, hsubfn l hl n hn c hc s hs (.inr ⟨hsup, hconfig⟩)⟩
    · rw [h.commandBits hl hn hop ha hk]
      exact hcommand l hl n hn _ (by omega) (.inl he)
    · rw [h.subfnBits hl hn hc ha hs]
      exact hsubfn l hl n hn c hc s hs (.inl he)

end

/-! ### The status -/

/-- The status zero is returned only if every change was accepted. -/
def Honest (ret : Bool) (evs : List Exchange) : Prop :=
  ret = true → ∀ e ∈ evs, IsSet e.1 → good e.2 = true

/-- A half of the commands of the last pair was refused or not answered. -/
def LastRefused (p : Params) (evs : List Exchange) : Prop :=
  ∃ op < 2, ∃ mask a, (setCommandEnablesRequest (place p 3 31) op mask, a) ∈ evs ∧ good a = false

theorem honest_iff {p : Params} {bmc : BmcInfo} {evs : List Exchange} {ret : Bool}
    (h : ResetRun bmc p ret evs) :
    Honest ret evs ↔ LastRefused p evs ∨ ∀ e ∈ evs, IsSet e.1 → good e.2 = true := by
  obtain ⟨evs0, evs1, subs, blk, rfl, hasks, hcovers, hsubs, hblk⟩ := h.split
  have hin : ∀ e ∈ blk, e ∈ evs0 ++ (evs1 ++ (subs ++ blk)) := fun e he =>
    List.mem_append_right _ (List.mem_append_right _ (List.mem_append_right _ he))
  constructor
  · intro hhonest
    rcases hblk with ⟨a, ha, -, rfl⟩ | ⟨a, b, -, hret, rfl⟩
    · exact .inl ⟨0, by decide, _, a, hin _ List.mem_cons_self, ha⟩
    · rcases hb : good b with _ | _
      · exact .inl ⟨1, by decide, _, b, hin _ (List.mem_cons_of_mem _ List.mem_cons_self), hb⟩
      · exact .inr (hhonest (hret.trans hb))
  · rintro (⟨op, hop, mask, a, he, ha⟩ | hall) hret
    · -- only the last pair has such a request, and its status is the one that is returned
      exfalso
      have hblk' : (setCommandEnablesRequest (place p 3 31) op mask, a) ∈ blk := by
        rcases List.mem_append.mp he with he | he
        · exact absurd (isSet_setCommandEnables _ _ _) (hasks _ he)
        rcases List.mem_append.mp he with he | he
        · obtain ⟨l, n, ⟨hl, hn, hne⟩, ⟨op', hop', heq⟩ | ⟨c, -, heq⟩⟩ := hcovers.mem _ he
          · obtain ⟨rfl, rfl, -⟩ := commandRequest_inj (by decide) (by decide) hl hn hop hop' heq
            exact absurd ⟨rfl, rfl⟩ hne
          · cases congrArg Command.cmd heq
        rcases List.mem_append.mp he with he | he
        · have hreq : setCommandEnablesRequest (place p 3 31) op mask ∈
              (List.range 256).map (subfnRequest bmc p 3 31) := hsubs ▸ List.mem_map_of_mem he
          obtain ⟨c, -, heq⟩ := List.mem_map.mp hreq
          cases congrArg Command.cmd heq
        · exact he
      rcases hblk with ⟨b, -, hfalse, -⟩ | ⟨b, c, hb, hc, rfl⟩
      · rw [hret] at hfalse
        cases hfalse
      · rcases List.mem_cons.mp hblk' with heq | hmem
        · rw [(Prod.mk.inj heq).2, hb] at ha
          cases ha
        · rw [(Prod.mk.inj (List.mem_singleton.mp hmem)).2, ← hc, hret] at ha
          cases ha
    · exact hall

/-! ### `reset` -/

section
variable {γ β : Type} {B : Bmc β} {channel : UInt8} {R : Reports}

/-- The changes are accepted. -/
abbrev Accepts : Frame (CmdWorld γ β) := Says fun e : Exchange => IsSet e.1 → good e.2 = true

theorem accepts_query (hB : AnswersAll B channel R) (c : Command) :
    Runs Accepts (query B c : Cmd γ β _) := by
  refine fun w => ⟨_, _, query_run c w, [(c, (B w.device c).1)], rfl, fun e he => ?_⟩
  rw [List.mem_singleton.mp he]
  exact hB.sets w.device c

theorem accepts_setSubfnEnables (hB : AnswersAll B channel R) (p : Params) (cmd : CommandInfo)
    (mask : Memory UInt8) :
    Runs Accepts (setSubfnEnables B p cmd mask : Cmd γ β _) := by
  refine .bind (accepts_query hB _) fun a => ?_
  cases a with
  | none => exact .pure _
  | some rsp => exact .pure _

theorem accepts_setCommandEnables (hB : AnswersAll B channel R) (p : Params) (pair : Pair)
    (mask : Memory UInt8) (gun : Bool) :
    Runs Accepts (setCommandEnables B p pair mask gun : Cmd γ β _) := by
  refine .bind (accepts_query hB _) fun a => ?_
  cases a with
  | none => exact .pure _
  | some rsp =>
    refine .bind (accepts_query hB _) fun a => ?_
    cases a with
    | none => exact .pure _
    | some rsp => exact .pure _

theorem accepts_resetAll (hB : AnswersAll B channel R) (p : Params) :
    Runs Accepts (resetAll B p : Cmd γ β _) := by
  refine .bind (fun w => ?_) fun bmc => .foldlM (fun _ l => .foldlM (fun ret n => ?_) _ _) _ _
  · obtain ⟨bmc, w', hrun, evs, hlog, hasks⟩ := runs_gatherInfo (B := B) p {} w
    exact ⟨bmc, w', hrun, evs, hlog, fun e he hset => absurd hset (hasks e he)⟩
  · refine .bind (.foldlM (fun _ c => accepts_setSubfnEnables hB _ _ _) _ _) fun _ => ?_
    exact accepts_setCommandEnables hB _ _ _ _

end

/-- The arguments of `reset` are read. -/
structure ResetArgs (H : Helpers) (args : List String) (p : Params) : Prop where
  nonempty : args ≠ []
  notHelp : args.head? ≠ some "help"
  parsed : parseArgs H args = some p

theorem reset_eq {γ β : Type} {B : Bmc β} {H : Helpers} {args : List String} {p : Params}
    (h : ResetArgs H args p) :
    (reset B H args : Cmd γ β Bool) = resetAll B p := by
  unfold reset
  rw [if_neg h.nonempty, if_neg h.notHelp, h.parsed]

/-- `firewall reset` opens everything, on a BMC that answers everything, exactly if everything is
`Openable`. Its status is honest, on any BMC, exactly if the last pair was refused or nothing
was. -/
theorem reset_opens_iff {γ β : Type} (B : Bmc β) (H : Helpers) (R : Reports) (args : List String)
    (p : Params) (hargs : ResetArgs H args p) (w : CmdWorld γ β) :
    ∃ ret w' evs, reset B H args w = .ok (ret, w') ∧
      w'.log = w.log ++ evs ∧
      (AnswersAll B p.channel R → (Opens R p evs ↔ Openable R p)) ∧
      (Honest ret evs ↔ LastRefused p evs ∨ ∀ e ∈ evs, IsSet e.1 → good e.2 = true) := by
  rw [reset_eq hargs]
  obtain ⟨bmc, w0, h0, -⟩ := runs_gatherInfo (B := B) p {} w
  obtain ⟨ret, w', evs, hrun, hlog, hreset⟩ := resetAll_run p bmc h0
  refine ⟨ret, w', evs, hrun, hlog, fun hB => ?_, honest_iff hreset⟩
  obtain ⟨bmc', w0', h0', hfinds⟩ :=
    gatherInfo_finds hB.discovery rfl (parseArgs_inRange hargs.parsed) w
  obtain ⟨rfl, -⟩ := Prod.mk.inj (Except.ok.inj (h0.symm.trans h0'))
  obtain ⟨evs', hlog', hgood⟩ := (accepts_resetAll hB p).rel hrun
  obtain rfl : evs = evs' := List.append_cancel_left (hlog.symm.trans hlog')
  exact opens_iff hfinds hreset hgood

theorem answersAll_reporting (channel : UInt8) (R : Reports) : AnswersAll (reporting R) channel R :=
  ⟨answers_reporting channel R, fun _ _ _ => rfl⟩

/-- A BMC with the one pair NetFn 6 of LUN 0, whose command 1 has one sub-function. -/
def oneSubfn : Reports where
  luns := 1
  netfns := fun i => if i = 0 then 8 else 0
  subfn := fun kind l n c i => if kind ≠ .support ∧ l = 0 ∧ n = 3 ∧ c = 1 ∧ i = 0 then 1 else 0

/-- The number of the channel in the arguments below. -/
def channelDigits : Helpers where
  str2int := fun _ => none
  isIpmiChannelNum := fun s => if s = "1" then some 1 else none

theorem reset_args : ResetArgs channelDigits ["channel", "1"] { channel := 1 } :=
  ⟨by simp, by simp, by simp [parseArgs, parseLoop, channelDigits]⟩

/-- `firewall reset channel 1` turns the sub-function off. -/
theorem reset_closes : ResetArgs channelDigits ["channel", "1"] { channel := 1 } ∧
    AnswersAll (reporting oneSubfn) 1 oneSubfn ∧ ∃ ret w',
      reset (reporting oneSubfn) channelDigits ["channel", "1"]
      (⟨(), (), []⟩ : CmdWorld Unit Unit) = .ok (ret, w') ∧
      ¬ Opens oneSubfn { channel := 1 } w'.log := by
  refine ⟨reset_args, answersAll_reporting 1 oneSubfn, ?_⟩
  have hB := answersAll_reporting 1 oneSubfn
  have hr := parseArgs_inRange reset_args.parsed
  obtain ⟨bmc, w0, h0, hfinds⟩ :=
    gatherInfo_finds (w := (⟨(), (), []⟩ : CmdWorld Unit Unit)) hB.discovery rfl hr
  obtain ⟨ret, w', evs, hrun, hlog, hreset⟩ := resetAll_run _ bmc h0
  obtain ⟨evs', hlog', hgood⟩ := (accepts_resetAll hB _).rel hrun
  obtain rfl : evs = evs' := List.append_cancel_left (hlog.symm.trans hlog')
  refine ⟨ret, w', (reset_eq reset_args).symm ▸ hrun, fun ho => ?_⟩
  rw [show w'.log = evs from hlog] at ho
  have hopen := (opens_iff hfinds hreset hgood).mp ho
  obtain ⟨-, hcommand, -⟩ :=
    hopen.subfns 0 (by decide) 3 (by decide) 1 (by decide) 0 (by decide) (.inl (by decide))
  exact absurd hcommand (by decide)

/-- A BMC with the one pair NetFn 6 of LUN 0, whose first eight commands can be configured and are
disabled. -/
def eightClosed : Reports where
  luns := 1
  netfns := fun i => if i = 0 then 8 else 0
  mask := fun kind _ _ i => if kind = .config ∧ i = 0 then 0xff else 0

theorem eightClosed_openable : Openable eightClosed { channel := 1 } := by
  have henabled : ∀ l n c, eightClosed.enabled l n c = false := by
    intro l n c
    rw [Reports.enabled, bitTest_eq]
    simp [bit, eightClosed]
  refine ⟨fun l _ n _ c _ h => ?_, fun l _ n _ c _ s _ h => ?_⟩
  · rcases h with h | ⟨hsup, -⟩
    · rw [henabled] at h
      cases h
    · refine ⟨⟨hsup, fun h => absurd h (by decide), fun h => absurd h (by decide)⟩, ?_⟩
      rintro ⟨hconfig, hbyte⟩
      rw [Reports.configurable, bitTest_eq, hbyte] at hconfig
      simp [bit, eightClosed] at hconfig
  · rcases h with h | ⟨-, h⟩
    · rw [Reports.enabledSubfn, bitTest_eq] at h
      simp [bit, eightClosed] at h
    · rw [Reports.configurableSubfn, bitTest_eq] at h
      simp [bit, eightClosed] at h

/-- They are opened. -/
theorem reset_opens_iff_eight : ∃ ret w' evs,
    reset (reporting eightClosed) channelDigits ["channel", "1"]
      (⟨(), (), []⟩ : CmdWorld Unit Unit) = .ok (ret, w') ∧ w'.log = evs ∧
      Opens eightClosed { channel := 1 } evs := by
  obtain ⟨ret, w', evs, hrun, hlog, hopens, -⟩ :=
    reset_opens_iff (reporting eightClosed) channelDigits eightClosed
      ["channel", "1"] { channel := 1 } reset_args (⟨(), (), []⟩ : CmdWorld Unit Unit)
  exact ⟨ret, w', evs, hrun, hlog,
    (hopens (answersAll_reporting 1 eightClosed)).mpr eightClosed_openable⟩

end Ipmitool.Firewall.Reset
