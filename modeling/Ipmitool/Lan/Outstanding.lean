import Ipmitool.Lan.Correlation
import Ipmitool.Lan.Retries

/-! # The entries of an outstanding command

A retry of `sendCmd` looks for the entry of the first try by the sequence number, which it keeps,
and by the command. An entry of a bridged command is filed under Send Message while envelopes are to
be peeled, so that it is not found, and the retry files another one. `Tried` are the states between
the tries of a command, and `Refound` says that the entry on the list is one that a retry finds; the
list never holds more than one entry of a command exactly if this is so before every retry. -/

namespace Ipmitool.Lan.Outstanding

open Ipmitool.Lib.Machine Ipmitool.Lib.Retry Ipmitool.Core.Types Ipmitool.Lanplus.State
open Ipmitool.Lanplus.Build
open Ipmitool.Lanplus.Receive hiding pollRecv pollLoop
open Ipmitool.Lanplus.Steps (moves_theSession)
open Ipmitool.Lan.Receive Ipmitool.Lan.Send Ipmitool.Lan.Steps Ipmitool.Lan.Correlation
open Ipmitool.Lan.Retries

variable {A : Auth} {s t u s₀ : St} {req : Request}

/-! ### The entries belong to the command -/

theorem mine_pollRound : Moves (Frame.keeps (Mine req s₀)) pollRound := by
  intro s v t h hs
  obtain ⟨_, _, hg, h⟩ := bind_ok.mp h
  obtain ⟨rfl, rfl⟩ := get_ok.mp hg
  by_cases hasf : s.recvRsp.data 3 = rmcpClassAsf
  · rw [if_pos hasf] at h
    simp only [bind_ok, record_ok, pure_ok] at h
    obtain ⟨_, _, rfl, rfl, rfl⟩ := h
    exact hs.of_eq rfl (by simp [Ipmitool.Lanplus.Correlation.gone,
      Ipmitool.Lanplus.Correlation.Event.entry?]) rfl
  · rw [if_neg hasf] at h
    by_cases hipmi : s.recvRsp.data 3 ≠ rmcpClassIpmi
    · rw [if_pos hipmi] at h
      exact (next_mine h hs).1
    · rw [if_neg hipmi] at h
      simp only [bind_ok, theSession_ok] at h
      obtain ⟨ss, _, ⟨hss, rfl⟩, h⟩ := h
      split_ifs at h with hsol
      · simp only [bind_ok, setRsp, modify_ok, record_ok, pure_ok] at h
        obtain ⟨_, _, rfl, _, _, rfl, rfl, rfl⟩ := h
        exact hs.of_eq rfl (by simp [Ipmitool.Lanplus.Correlation.gone,
          Ipmitool.Lanplus.Correlation.Event.entry?]) rfl
      · exact (messageRound_ends h hs).1

theorem mine_recvPacket : Moves (Frame.keeps (Mine req s₀)) recvPacket :=
  fun _ _ _ h hs => (recvPacket_mine h hs).1

theorem mine_sendPacket (d : List UInt8) : Moves (Frame.keeps (Mine req s₀)) (sendPacket d) := by
  intro s b t h hs
  obtain ⟨rfl, -⟩ := sendPacket_ok.mp h
  exact hs.of_eq rfl rfl rfl

theorem mine_await : Moves (Frame.keeps (Mine req s₀)) Send.await :=
  Polls.await ⟨mine_recvPacket, mine_pollRound, fun _ _ hs => hs.of_eq rfl rfl rfl⟩
    (.bind (mine_sendPacket _) fun _ => .pure _)

theorem mine_cmdTry (n : ℕ) : Moves (Frame.keeps (Mine req s₀)) (cmdTry A req n) :=
  .bind (fun _ ⟨_, _⟩ _ h hs => buildCmd_mine h hs) fun ⟨_, packet⟩ =>
    moves_cmdRest (mine_sendPacket packet) (fun _ _ _ _ _ h hs => hs.drop_any h) mine_await

/-! ### A try files at most one entry, when it is built -/

/-- No entry is filed, and the number of the command, the interface and the permission to bridge
stay. -/
structure Idle (s t : St) : Prop where
  fewer : t.reqEntries.length ≤ s.reqEntries.length := by exact Nat.le_refl _
  currSeq : t.currSeq = s.currSeq := by rfl
  intf : t.intf = s.intf := by rfl
  bridge : t.bridgePossible = s.bridgePossible := by rfl

def idle : Frame St where
  rel := Idle
  refl _ := {}
  trans h1 h2 := ⟨Nat.le_trans h2.fewer h1.fewer, h2.currSeq.trans h1.currSeq,
    h2.intf.trans h1.intf, h2.bridge.trans h1.bridge⟩

theorem receiving_idle : Receiving idle := ⟨fun h => ⟨h.fewer, h.currSeq, h.intf, h.bridge⟩⟩

theorem idle_sendPacket (d : List UInt8) : Moves idle (sendPacket d) := by
  intro s b t h
  obtain ⟨rfl, -⟩ := sendPacket_ok.mp h
  exact {}

theorem idle_await : Moves idle Send.await :=
  receiving_idle.polls.await (.bind (idle_sendPacket _) fun _ => .pure _)

/-- After the command has been built, a try files no other entry. -/
theorem idle_cmdRest (addr : ℕ) (packet : List UInt8) : Moves idle (cmdRest addr packet) :=
  moves_cmdRest (idle_sendPacket packet) (moves_dropEntry receiving_idle) idle_await

theorem cmdTry_built {n : ℕ} {o : Outcome Bool} (h : cmdTry A req n s = .ok (o, t)) :
    ∃ x u, buildCmd A req (0 < n) s = .ok (x, u) ∧ Idle u t := by
  obtain ⟨⟨addr, packet⟩, u, hb, h⟩ := bind_ok.mp h
  exact ⟨_, u, hb, (idle_cmdRest addr packet).rel h⟩

theorem buildCmd_length {isRetry : Bool} {x : ℕ × List UInt8}
    (h : buildCmd A req isRetry s = .ok (x, u)) :
    u.currSeq = advanceSeq s.currSeq isRetry ∧
      u.reqEntries.length = s.reqEntries.length +
        if (reqLookupEntry s.reqEntries (advanceSeq s.currSeq isRetry) req.cmd).isSome then 0
          else 1 := by
  obtain ⟨addr, packet⟩ := x
  obtain ⟨ss, e, v, seq, level, -, rfl, -, htake, -, -, rfl⟩ := buildCmd_ok h
  rcases takeEntry_ok htake with ⟨hfind, rfl⟩ | ⟨hfind, -, rfl⟩
  · dsimp only at hfind
    simp [updateEntry, hfind]
  · dsimp only at hfind
    simp [updateEntry, hfind]

theorem advanceSeq_retry (c : UInt8) (isRetry : Bool) :
    advanceSeq (advanceSeq c isRetry) true = advanceSeq c isRetry := by
  simp only [advanceSeq, if_true]
  generalize (if isRetry = true then c else c + 1) = d
  by_cases h : 64 ≤ d
  · rw [if_pos h]
    rfl
  · rw [if_neg h, if_neg h]

/-! ### The tries of a command -/

/-- The states between the tries of a command that starts in `s`, after `n` tries without a
result. -/
inductive Tried (A : Auth) (req : Request) (s : St) : ℕ → St → Prop
  | start : Tried A req s 0 s
  | again {n : ℕ} {t u : St} {o : Outcome Bool} (h : Tried A req s n t)
      (hat : cmdTry A req n t = .ok (o, u)) (ho : ∀ r, o ≠ .done r) : Tried A req s (n + 1) u

/-- A retry finds the entries on the list: they have the number of the command, and they are filed
under the command itself. -/
def Refound (req : Request) (t : St) : Prop :=
  ∀ e ∈ t.reqEntries, e.rqSeq = t.currSeq ∧ (e.bridgingLevel = 0 ∨ req.cmd = 0x34)

section
variable {n : ℕ}

theorem Tried.mine (h : Tried A req s n t) (hl : s.reqEntries = []) : Mine req s t := by
  induction h with
  | start => exact .start hl
  | again _ hat _ ih => exact (mine_cmdTry _).rel hat ih

theorem Tried.currSeq (h : Tried A req s (n + 1) t) : advanceSeq t.currSeq true = t.currSeq := by
  cases h with
  | again _ hat _ =>
    obtain ⟨x, u, hb, hidle⟩ := cmdTry_built hat
    rw [hidle.currSeq, (buildCmd_length hb).1, advanceSeq_retry]

/-- Between the tries there are at most as many entries as after the last `buildCmd`. -/
theorem Tried.length_le (h : Tried A req s (n + 1) t) :
    ∃ t' x u, Tried A req s n t' ∧ buildCmd A req (0 < n) t' = .ok (x, u) ∧
      t.reqEntries.length ≤ u.reqEntries.length := by
  cases h with
  | again h hat _ =>
    obtain ⟨x, u, hb, hidle⟩ := cmdTry_built hat
    exact ⟨_, x, u, h, hb, hidle.fewer⟩

end

theorem Serves.cmd_of {e : Entry} (h : Serves req e) (hl : e.bridgingLevel = 0 ∨ req.cmd = 0x34) :
    e.req.cmd = req.cmd := by
  cases h with
  | plain _ hr => rw [hr]
  | peeled _ hr => rw [hr]
  | bridged h0 hr =>
    rcases hl with hl | hl
    · exact absurd hl h0
    · rw [hr, hl]

theorem Serves.of_cmd {e : Entry} (h : Serves req e) (hcmd : e.req.cmd = req.cmd) :
    e.bridgingLevel = 0 ∨ req.cmd = 0x34 := by
  cases h with
  | plain h0 _ => exact .inl h0
  | peeled h0 _ => exact .inl h0
  | bridged _ hr =>
    rw [hr] at hcmd
    exact .inr hcmd.symm

/-- An entry that is refound keeps the list as long as it is. -/
theorem refound_length {x : ℕ × List UInt8} (hm : Mine req s₀ t)
    (hseq : advanceSeq t.currSeq true = t.currSeq) (hone : t.reqEntries.length ≤ 1)
    (hb : buildCmd A req true t = .ok (x, u)) :
    u.reqEntries.length ≤ 1 ↔ Refound req t := by
  have hlen := (buildCmd_length hb).2
  rw [hseq] at hlen
  rcases hl : t.reqEntries with _ | ⟨e, l⟩
  · rw [hl] at hlen
    simp only [reqLookupEntry, List.find?_nil, Option.isSome_none, Bool.false_eq_true, if_false,
      List.length_nil, Nat.zero_add] at hlen
    refine ⟨fun _ e he => ?_, fun _ => Nat.le_of_eq hlen⟩
    rw [hl] at he
    cases he
  · obtain rfl : l = [] := by
      rw [hl, List.length_cons] at hone
      exact List.eq_nil_of_length_eq_zero (by omega)
    have hserves : Serves req e := (hm.serves e (by rw [hl]; exact List.mem_singleton.mpr rfl)).1
    have hfound : (reqLookupEntry t.reqEntries t.currSeq req.cmd).isSome = true ↔
        e.rqSeq = t.currSeq ∧ e.req.cmd = req.cmd := by
      simp [reqLookupEntry, hl, Entry.hasKey]
    have hrefound : Refound req t ↔ e.rqSeq = t.currSeq ∧ e.req.cmd = req.cmd := by
      simp only [Refound, hl, List.mem_singleton, forall_eq]
      exact and_congr_right fun _ => ⟨Serves.cmd_of hserves, Serves.of_cmd hserves⟩
    rw [hrefound, ← hfound]
    have hlen1 : t.reqEntries.length = 1 := by rw [hl]; rfl
    split_ifs at hlen with hf
    · exact ⟨fun _ => hf, fun _ => by omega⟩
    · exact ⟨fun hle => by omega, fun h => absurd h hf⟩

/-! ### Commands that are not bridged -/

/-- The entries have the number of the command and no envelopes. -/
def Plain (s : St) : Prop := ∀ e ∈ s.reqEntries, e.rqSeq = s.currSeq ∧ e.bridgingLevel = 0

theorem Plain.of_eq (h : Plain s) (hl : t.reqEntries = s.reqEntries) (hc : t.currSeq = s.currSeq) :
    Plain t := by
  intro e he
  rw [hl] at he
  rw [hc]
  exact h e he

theorem plain_dropEntry (seq cmd : UInt8) : Moves (Frame.keeps Plain) (dropEntry seq cmd) :=
  .modify fun _ hs e he => hs e (List.mem_of_mem_eraseP he)

theorem plain_recvPacket : Moves (Frame.keeps Plain) recvPacket := by
  intro s got t h hs
  rcases recvPacket_ok h with ⟨-, rest, -, rfl⟩ | ⟨-, -, d, rest, -, -, -, rfl⟩
  · exact hs.of_eq rfl rfl
  · exact hs.of_eq rfl rfl

theorem plain_messageRound (session : Session) (r : Response) :
    Moves (Frame.keeps Plain) (messageRound session r) := by
  intro s v t h hs
  obtain ⟨_, s1, hset, h⟩ := bind_ok.mp h
  obtain ⟨_, _, hg, h⟩ := bind_ok.mp h
  obtain ⟨rfl, rfl⟩ := get_ok.mp hg
  obtain rfl := modify_ok.mp hset
  dsimp only at h
  set r1 := readIpmiResponse (readPayloadHeader r ptIpmi (lengthOffset session r))
    (lengthOffset session r + 1)
  have hs1 : Plain { s with recvRsp := r1 } := hs.of_eq rfl rfl
  rcases hfind : reqLookupEntry s.reqEntries r1.rqSeq r1.cmd with _ | e
  · rw [hfind] at h
    have hnext : Moves (Frame.keeps Plain) next := .bind plain_recvPacket fun _ => .pure _
    exact hnext.rel h hs1
  · rw [hfind] at h
    have hlevel := (hs e (List.mem_of_find?_eq_some hfind)).2
    dsimp only at h
    rw [if_neg (fun hb => hb.2.1 hlevel)] at h
    have hend : Moves (Frame.keeps Plain) (do
        dropEntry r1.rqSeq r1.cmd
        return .shifted (lengthOffset session r + 8) : M Round) :=
      .bind (plain_dropEntry _ _) fun _ => .pure _
    exact hend.rel h hs1

theorem plain_pollRound : Moves (Frame.keeps Plain) pollRound := by
  refine .bind .get fun s => .ite (fun _ => ?_) fun _ => .ite (fun _ => ?_) fun _ => ?_
  · exact .bind (.modify fun _ hs => hs.of_eq rfl rfl) fun _ => .pure _
  · exact .bind plain_recvPacket fun _ => .pure _
  · refine .bind moves_theSession fun session => .ite (fun _ => ?_) fun _ =>
      plain_messageRound session _
    exact .bind (.modify fun _ hs => hs.of_eq rfl rfl) fun _ =>
      .bind (.modify fun _ hs => hs.of_eq rfl rfl) fun _ => .pure _

theorem plain_sendPacket (d : List UInt8) : Moves (Frame.keeps Plain) (sendPacket d) := by
  intro s b t h hs
  obtain ⟨rfl, -⟩ := sendPacket_ok.mp h
  exact hs.of_eq rfl rfl

theorem plain_await : Moves (Frame.keeps Plain) Send.await :=
  Polls.await ⟨plain_recvPacket, plain_pollRound, fun _ _ hs => hs.of_eq rfl rfl⟩
    (.bind (plain_sendPacket _) fun _ => .pure _)

/-- A try of a command that is not bridged, with its entry under the number of the command. -/
theorem plain_cmdTry {n : ℕ} {o : Outcome Bool} (hlevel : bridgingLevel s.intf s.bridgePossible = 0)
    (hs : Plain { s with currSeq := advanceSeq s.currSeq (0 < n) })
    (h : cmdTry A req n s = .ok (o, t)) :
    Plain t ∧ bridgingLevel t.intf t.bridgePossible = 0 := by
  obtain ⟨⟨addr, packet⟩, u, hb, h⟩ := bind_ok.mp h
  have hu : Plain u ∧ bridgingLevel u.intf u.bridgePossible = 0 := by
    obtain ⟨ss, e, v, seq, level, -, rfl, rfl, htake, -, -, rfl⟩ := buildCmd_ok hb
    have hv : Plain v ∧ v.currSeq = advanceSeq s.currSeq (0 < n) ∧
        v.bridgePossible = s.bridgePossible := by
      rcases takeEntry_ok htake with ⟨-, rfl⟩ | ⟨-, rfl, rfl⟩
      · exact ⟨hs, rfl, rfl⟩
      · refine ⟨fun x hx => ?_, rfl, rfl⟩
        rcases List.mem_append.mp hx with hx | hx
        · exact hs x hx
        · rw [List.mem_singleton.mp hx]
          exact ⟨rfl, rfl⟩
    obtain ⟨hplain, hseq, hbr⟩ := hv
    refine ⟨fun x hx => ?_, ?_⟩
    · rcases mem_updateEntry hx with rfl | hx
      · exact ⟨hseq.symm, hlevel⟩
      · exact hplain x hx
    · dsimp only
      rw [hbr, ← hlevel]
      rfl
  have hrest : Moves (Frame.keeps Plain) (cmdRest addr packet) :=
    moves_cmdRest (plain_sendPacket packet) plain_dropEntry plain_await
  have hidle := (idle_cmdRest addr packet).rel h
  refine ⟨hrest.rel h hu.1, ?_⟩
  rw [hidle.intf, hidle.bridge]
  exact hu.2

theorem Tried.plain {n : ℕ} (h : Tried A req s n t) (hl : s.reqEntries = [])
    (hlevel : bridgingLevel s.intf s.bridgePossible = 0) :
    Plain { t with currSeq := advanceSeq t.currSeq (0 < n) } ∧
      bridgingLevel t.intf t.bridgePossible = 0 := by
  induction h with
  | start => exact ⟨fun e he => by simp [hl] at he, hlevel⟩
  | again h hat ho ih =>
    obtain ⟨hp, hb⟩ := plain_cmdTry ih.2 ih.1 hat
    have hseq := (Tried.again h hat ho).currSeq
    refine ⟨hp.of_eq rfl ?_, hb⟩
    simpa using hseq

/-- A retry of a command that is not bridged finds its entry. -/
theorem Tried.refound {n : ℕ} (h : Tried A req s (n + 1) t) (hl : s.reqEntries = [])
    (hlevel : bridgingLevel s.intf s.bridgePossible = 0) : Refound req t := by
  intro e he
  obtain ⟨hseq, h0⟩ := (h.plain hl hlevel).1 e he
  refine ⟨?_, .inl h0⟩
  simpa [h.currSeq] using hseq

/-! ### At most one entry -/

theorem one_entry_iff_refound (hl : s.reqEntries = []) :
    (∀ n t x u, Tried A req s n t → buildCmd A req (0 < n) t = .ok
      (x, u) → u.reqEntries.length ≤ 1) ↔
      ∀ n t x u, Tried A req s (n + 1) t → buildCmd A req true t = .ok (x, u) → Refound req t := by
  constructor
  · intro hle n t x u ht hb
    obtain ⟨t', x', u', ht', hb', hlen⟩ := ht.length_le
    have hone : t.reqEntries.length ≤ 1 := Nat.le_trans hlen (hle n t' x' u' ht' hb')
    exact (refound_length (ht.mine hl) ht.currSeq hone hb).mp
      (hle (n + 1) t x u ht (by simpa using hb))
  · intro hre n
    induction n with
    | zero =>
      intro t x u ht hb
      cases ht
      have hlen := (buildCmd_length hb).2
      rw [hl] at hlen
      simp only [reqLookupEntry, List.find?_nil, Option.isSome_none, Bool.false_eq_true, if_false,
        List.length_nil, Nat.zero_add] at hlen
      exact Nat.le_of_eq hlen
    | succ n ih =>
      intro t x u ht hb
      obtain ⟨t', x', u', ht', hb', hlen⟩ := ht.length_le
      have hone : t.reqEntries.length ≤ 1 := Nat.le_trans hlen (ih t' x' u' ht' hb')
      have hb1 : buildCmd A req true t = .ok (x, u) := by simpa using hb
      exact (refound_length (ht.mine hl) ht.currSeq hone hb1).mpr (hre n t x u ht hb1)

/-- **The entries of a command** that starts with an empty list. After every `buildCmd` of its tries
there is at most one entry, exactly if it is not bridged or every retry finds the entries that are
on the list; after the command none remains. -/
theorem one_entry_iff (hl : s.reqEntries = []) :
    ((∀ n t x u, Tried A req s n t → buildCmd A req (0 < n) t = .ok
      (x, u) → u.reqEntries.length ≤ 1) ↔
      (bridgingLevel s.intf s.bridgePossible ≠ 0 → ∀ n t x u, Tried A req s (n + 1) t →
        buildCmd A req true t = .ok (x, u) → Refound req t)) ∧
    ∀ b t, exchange A req s = .ok (b, t) → t.reqEntries = [] := by
  refine ⟨?_, fun b t h => exchange_clears h⟩
  rw [one_entry_iff_refound hl]
  constructor
  · exact fun h _ => h
  · intro h n t x u ht hb
    by_cases hlevel : bridgingLevel s.intf s.bridgePossible = 0
    · exact ht.refound hl hlevel
    · exact h hlevel n t x u ht hb

/-- An open interface with an active session, and the controller that it talks to. -/
def calling (targetAddr : UInt32) : St where
  intf := { fd := 3, ssnParams := { retry := 2 }, session := some { active := true },
            myAddr := 0x20, targetAddr }
  bridgePossible := true

/-- A Get Device ID command for the BMC itself: a retry after a timeout does not file another
entry. -/
theorem one_entry_iff_bmc :
    ∃ t x u, Tried noAuth Ipmitool.Lanplus.Send.getDeviceId (calling 0x20) 1 t ∧
    buildCmd noAuth Ipmitool.Lanplus.Send.getDeviceId true t = .ok (x, u) ∧
    u.reqEntries.length ≤ 1 := by
  have h : returns (cmdTry noAuth Ipmitool.Lanplus.Send.getDeviceId 0) (calling 0x20) (fun o t =>
      o == .vain false && returns (buildCmd noAuth Ipmitool.Lanplus.Send.getDeviceId true) t
        fun _ _ => true) = true := by decide +kernel
  obtain ⟨o, t, hat, htest⟩ := exists_of_returns h
  simp only [Bool.and_eq_true, beq_iff_eq] at htest
  obtain ⟨rfl, hret⟩ := htest
  obtain ⟨x, u, hb, -⟩ := exists_of_returns hret
  have ht : Tried noAuth Ipmitool.Lanplus.Send.getDeviceId (calling 0x20) 1 t :=
    .again .start hat (by simp)
  refine ⟨t, x, u, ht, hb, ?_⟩
  exact (one_entry_iff rfl).1.mpr (fun hlevel => absurd (by decide) hlevel) 1 t x u ht
    (by simpa using hb)

/-- **A bridged command that times out.** The retry of a Get Device ID command for the controller at
0x72 files a second entry. -/
theorem retry_files_second_entry :
    ∃ t x u, Tried noAuth Ipmitool.Lanplus.Send.getDeviceId (calling 0x72) 1 t ∧
      buildCmd noAuth Ipmitool.Lanplus.Send.getDeviceId true t = .ok (x, u) ∧
      u.reqEntries.length = 2 := by
  have h : returns (cmdTry noAuth Ipmitool.Lanplus.Send.getDeviceId 0) (calling 0x72) (fun o t =>
      o == .vain false && returns (buildCmd noAuth Ipmitool.Lanplus.Send.getDeviceId true) t
        fun _ u => u.reqEntries.length == 2) = true := by decide +kernel
  obtain ⟨o, t, hat, htest⟩ := exists_of_returns h
  simp only [Bool.and_eq_true, beq_iff_eq] at htest
  obtain ⟨rfl, hret⟩ := htest
  obtain ⟨x, u, hb, hlen⟩ := exists_of_returns hret
  exact ⟨t, x, u, .again .start hat (by simp), hb, by simpa using hlen⟩

end Ipmitool.Lan.Outstanding
