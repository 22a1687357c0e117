import Ipmitool.Lan.Steps
import Ipmitool.Lanplus.Correlation

/-! # The answer to a command, in both transports

The IPMI 1.5 transport clears its request list after every command, but while a command waits there
can be several entries of it: a retry of a bridged command does not find the entry of the first try,
which is filed under Send Message. `Mine` says that every entry on the list belongs to the command,
and that no entry leaves the list twice; `exchange_answers` is the transport's answer to a command.

`responses_correlate` puts the two transports together, over whole runs of commands. -/

namespace Ipmitool.Lan.Correlation

open Ipmitool.Lib.Mem Ipmitool.Lib.Machine Ipmitool.Core.Types Ipmitool.Core.Network
open Ipmitool.Crypto.Mac Ipmitool.Lanplus.State Ipmitool.Lanplus.Build
open Ipmitool.Lanplus.Receive hiding pollRecv pollLoop
open Ipmitool.Lanplus.Steps (Since moves_theSession)
open Ipmitool.Lanplus.Correlation (interrupts Undisturbed gone Event.entry?)
open Ipmitool.Lan.Receive Ipmitool.Lan.Send Ipmitool.Lan.Open Ipmitool.Lan.Steps

variable {A : Auth} {s s' t s₀ : St} {req : Request}

/-! ### The entries of a command -/

/-- The entry `e` belongs to the command `req`: as it was filed, under Send Message while envelopes
are to be peeled, or under its own command again. -/
inductive Serves (req : Request) (e : Entry) : Prop
  | plain (hl : e.bridgingLevel = 0) (hr : e.req = req)
  | bridged (hl : e.bridgingLevel ≠ 0) (hr : e.req = { req with targetCmd := req.cmd, cmd := 0x34 })
  | peeled (hl : e.bridgingLevel = 0) (hr : e.req = { req with targetCmd := req.cmd })

theorem Serves.unwrapped {e : Entry} (h : Serves req e) (hl : e.bridgingLevel ≠ 0) :
    Serves req (peel e) := by
  cases h with
  | plain h0 _ => exact absurd h0 hl
  | peeled h0 _ => exact absurd h0 hl
  | bridged _ hr =>
    by_cases h1 : e.bridgingLevel - 1 = 0
    · exact .peeled h1 (by simp [peel, h1, hr])
    · exact .bridged h1 (by simp [peel, h1, hr])

theorem Serves.rekey {e : Entry} (h : Serves req e) (rqSeq : UInt8) :
    Serves req { e with rqSeq } := by
  cases h with
  | plain h0 hr => exact .plain h0 hr
  | bridged h0 hr => exact .bridged h0 hr
  | peeled h0 hr => exact .peeled h0 hr

/-- A lookup by the command itself finds an entry that can be filed again. -/
theorem Serves.refiled {e : Entry} (h : Serves req e) (hcmd : e.req.cmd = req.cmd) (level : ℕ) :
    Serves req (bridgeEntry level e) := by
  by_cases hl : level = 0
  · subst hl
    cases h with
    | plain _ hr => exact .plain rfl (by simp [bridgeEntry, hr])
    | peeled _ hr => exact .peeled rfl (by simp [bridgeEntry, hr])
    | bridged _ hr =>
      have h34 : (0x34 : UInt8) = req.cmd := by rw [hr] at hcmd; exact hcmd
      exact .peeled rfl (by simp [bridgeEntry, hr, h34])
  · refine .bridged hl ?_
    cases h with
    | plain _ hr | peeled _ hr => simp [bridgeEntry, hl, hr]
    | bridged _ hr =>
      rw [hr] at hcmd
      simp [bridgeEntry, hl, hr, ← hcmd]

/-- The list of a command that started in `s₀`. -/
structure Mine (req : Request) (s₀ s : St) : Prop where
  later : s₀.nextAddr ≤ s.nextAddr
  serves : ∀ e ∈ s.reqEntries, Serves req e ∧ s₀.nextAddr ≤ e.addr
  once : ∃ g, gone s = gone s₀ ++ g ∧ ((g ++ s.reqEntries).map Entry.addr).Nodup ∧
    ∀ e ∈ g ++ s.reqEntries, e.addr < s.nextAddr

theorem Mine.start (hl : s.reqEntries = []) : Mine req s s where
  later := Nat.le_refl _
  serves := by simp [hl]
  once := ⟨[], by simp, by simp [hl], by simp [hl]⟩

theorem Mine.of_eq (h : Mine req s₀ s) (hl : t.reqEntries = s.reqEntries) (htr : gone t = gone s)
    (hn : t.nextAddr = s.nextAddr) : Mine req s₀ t where
  later := by rw [hn]; exact h.later
  serves := by rw [hl]; exact h.serves
  once := by rw [hl, htr, hn]; exact h.once

theorem map_addr_updateEntry (l : List Entry) (e : Entry) :
    (updateEntry l e).map Entry.addr = l.map Entry.addr := by
  induction l with
  | nil => rfl
  | cons x l ih =>
    simp only [updateEntry, List.map_cons, List.map_map] at ih ⊢
    split_ifs with hx
    · rw [hx, ih]
    · rw [ih]

theorem mem_updateEntry {l : List Entry} {e x : Entry} (h : x ∈ updateEntry l e) :
    x = e ∨ x ∈ l := by
  obtain ⟨y, hy, rfl⟩ := List.mem_map.mp h
  split_ifs
  · exact .inl rfl
  · exact .inr hy

/-- A store through the pointer to an entry of the list. -/
theorem Mine.update {e : Entry} (e' : Entry) (h : Mine req s₀ s) (he : e ∈ s.reqEntries)
    (haddr : e'.addr = e.addr) (hs : Serves req e') :
    Mine req s₀ { s with reqEntries := updateEntry s.reqEntries e' } where
  later := h.later
  serves x hx := by
    rcases mem_updateEntry hx with rfl | hx
    · exact ⟨hs, haddr ▸ (h.serves e he).2⟩
    · exact h.serves x hx
  once := by
    obtain ⟨g, hg, hnodup, hlt⟩ := h.once
    refine ⟨g, hg, ?_, fun x hx => ?_⟩
    · rw [List.map_append] at hnodup ⊢
      rwa [show _ = _ from map_addr_updateEntry s.reqEntries e']
    · rcases List.mem_append.mp hx with hx | hx
      · exact hlt x (List.mem_append_left _ hx)
      · rcases mem_updateEntry hx with rfl | hx
        · rw [haddr]
          exact hlt e (List.mem_append_right _ he)
        · exact hlt x (List.mem_append_right _ hx)

theorem Mine.add {seq : UInt8} (h : Mine req s₀ s)
    (ht : t = { s with
      reqEntries := s.reqEntries ++ [⟨s.nextAddr, req, seq, 0⟩], nextAddr := s.nextAddr + 1 }) :
    Mine req s₀ t := by
  subst ht
  obtain ⟨g, hg, hnodup, hlt⟩ := h.once
  refine ⟨Nat.le_succ_of_le h.later, fun x hx => ?_, g, hg, ?_, fun x hx => ?_⟩
  · rcases List.mem_append.mp hx with hx | hx
    · exact h.serves x hx
    · rw [List.mem_singleton.mp hx]
      exact ⟨.plain rfl rfl, h.later⟩
  · rw [← List.append_assoc, List.map_append, List.nodup_append]
    refine ⟨hnodup, by simp, fun a ha b hb hab => ?_⟩
    obtain ⟨x, hx, rfl⟩ := List.mem_map.mp ha
    simp only [List.map_cons, List.map_nil, List.mem_singleton] at hb
    have := hlt x hx
    omega
  · rw [← List.append_assoc] at hx
    rcases List.mem_append.mp hx with hx | hx
    · exact Nat.lt_succ_of_lt (hlt x hx)
    · rw [List.mem_singleton.mp hx]
      exact Nat.lt_succ_self _

/-- The response in the buffer answers the command that started in `s₀`: it carries the number and
the command of an entry of the command, and that entry left the list once. -/
def Answered (req : Request) (s₀ s : St) : Prop :=
  ∃ e earlier, Serves req e ∧ s₀.nextAddr ≤ e.addr ∧ s.recvRsp.rqSeq = e.rqSeq ∧
    s.recvRsp.cmd = e.req.cmd ∧ gone s = gone s₀ ++ earlier ++ [e] ∧
    ∀ x ∈ earlier ++ s.reqEntries, x.addr ≠ e.addr

theorem Mine.drop {e : Entry} {seq cmd : UInt8} {u : Unit} (h : Mine req s₀ s)
    (he : reqLookupEntry s.reqEntries seq cmd = some e) (hd : dropEntry seq cmd s = .ok (u, t)) :
    Mine req s₀ t ∧ ∃ earlier, gone t = gone s₀ ++ earlier ++ [e] ∧
      ∀ x ∈ earlier ++ t.reqEntries, x.addr ≠ e.addr := by
  obtain rfl := modify_ok.mp hd
  obtain ⟨g, hg, hnodup, hlt⟩ := h.once
  obtain ⟨hkey, l1, l2, hl, hl1⟩ := List.find?_eq_some_iff_append.mp he
  have herase : reqRemoveEntry s.reqEntries seq cmd = l1 ++ l2 := by
    unfold reqRemoveEntry
    rw [hl, List.eraseP_append_right _ (by simpa using hl1), List.eraseP_cons_of_pos hkey]
  have hperm : (g ++ s.reqEntries).Perm ((g ++ [e]) ++ (l1 ++ l2)) := by
    rw [hl, List.append_assoc]
    exact List.Perm.append_left g List.perm_middle
  have hnodup' := (hperm.map Entry.addr).nodup_iff.mp hnodup
  have hgone : gone { s with
      reqEntries := reqRemoveEntry s.reqEntries seq cmd
      trace := s.trace ++ (reqLookupEntry s.reqEntries seq cmd).toList.map Event.removed } =
      gone s₀ ++ g ++ [e] := by
    rw [← hg]
    simp [gone, he, Event.entry?]
  refine ⟨⟨h.later, fun x hx => ?_, g ++ [e], ?_, ?_, fun x hx => ?_⟩, g, hgone, fun x hx => ?_⟩
  · exact h.serves x (List.mem_of_mem_eraseP hx)
  · rw [hgone, List.append_assoc]
  · rw [herase]
    exact hnodup'
  · rw [herase] at hx
    exact hlt x (hperm.mem_iff.mpr hx)
  · rw [herase] at hx
    have hsplit : ((g ++ (l1 ++ l2)) ++ [e]).Perm ((g ++ [e]) ++ (l1 ++ l2)) := by
      rw [List.append_assoc g, List.append_assoc g]
      exact List.Perm.append_left g List.perm_append_comm
    have hnodup2 := (hsplit.map Entry.addr).nodup_iff.mpr hnodup'
    rw [List.map_append, List.nodup_append] at hnodup2
    exact hnodup2.2.2 x.addr (List.mem_map_of_mem hx) e.addr (by simp)

/-! ### One round of `pollRecv` -/

theorem recvPacket_mine {got : Bool} (h : recvPacket s = .ok (got, t)) (hs : Mine req s₀ s) :
    Mine req s₀ t ∧ t.trace = s.trace := by
  rcases recvPacket_ok h with ⟨-, rest, -, rfl⟩ | ⟨-, -, d, rest, -, -, -, rfl⟩
  · exact ⟨hs.of_eq rfl rfl rfl, rfl⟩
  · exact ⟨hs.of_eq rfl rfl rfl, rfl⟩

theorem next_mine {v : Round} (h : next s = .ok (v, t)) (hs : Mine req s₀ s) :
    Mine req s₀ t ∧ (v = .again ∨ v = .null) := by
  obtain ⟨got, u, hr, h⟩ := bind_ok.mp h
  obtain ⟨rfl, rfl⟩ := pure_ok.mp h
  refine ⟨(recvPacket_mine hr hs).1, ?_⟩
  cases got with
  | true => exact .inl rfl
  | false => exact .inr rfl

theorem exists_lookup {l : List Entry} {e : Entry} (he : e ∈ l) :
    ∃ x, reqLookupEntry l e.rqSeq e.req.cmd = some x := by
  refine Option.isSome_iff_exists.mp (List.find?_isSome.mpr ⟨e, he, ?_⟩)
  simp [Entry.hasKey]

theorem mem_updateEntry_self {l : List Entry} {e : Entry} (e' : Entry) (he : e ∈ l)
    (haddr : e'.addr = e.addr) : e' ∈ updateEntry l e' :=
  List.mem_map.mpr ⟨e, he, by simp [haddr]⟩

/-- The store of a peeled entry, and what follows it: the entry leaves the list with an envelope
that nothing follows. -/
theorem peeled_mine {e : Entry} {got : Bool} {v : Round}
    (h : (do
      setEntry (peel e)
      if !got then dropEntry (peel e).rqSeq (peel e).req.cmd
      return if got then .again else .null : M Round) s = .ok (v, t))
    (he : e ∈ s.reqEntries) (hserves : Serves req (peel e)) (hs : Mine req s₀ s) :
    Mine req s₀ t ∧ (v = .again ∨ v = .null) := by
  simp only [bind_ok, setEntry, modify_ok] at h
  obtain ⟨_, _, rfl, h⟩ := h
  have hs1 := hs.update (peel e) he rfl hserves
  cases got with
  | true =>
    obtain ⟨rfl, rfl⟩ := pure_ok.mp h
    exact ⟨hs1, .inl rfl⟩
  | false =>
    simp only [Bool.not_false, if_true, bind_ok, pure_ok] at h
    obtain ⟨_, u, hd, rfl, rfl⟩ := h
    obtain ⟨x, hx⟩ := exists_lookup (mem_updateEntry_self (peel e) he rfl)
    exact ⟨(hs1.drop hx hd).1, .inr rfl⟩

theorem peelRound_mine {e : Entry} {r : Response} {x : ℕ} {v : Round}
    (h : peelRound e r x s = .ok (v, t)) (he : e ∈ s.reqEntries) (hl : e.bridgingLevel ≠ 0)
    (hs : Mine req s₀ s) : Mine req s₀ t ∧ (v = .again ∨ v = .null) := by
  have hserves : Serves req (peel e) := (hs.serves e he).1.unwrapped hl
  unfold peelRound at h
  by_cases h0 : r.dataLen - x - 1 = 0
  · rw [if_pos h0] at h
    by_cases hcc : r.ccode = 0
    · rw [if_pos hcc] at h
      obtain ⟨got, u, hr, h⟩ := bind_ok.mp h
      have hmem : e ∈ u.reqEntries := by
        rcases recvPacket_ok hr with ⟨-, rest, -, rfl⟩ | ⟨-, -, d, rest, -, -, -, rfl⟩
        · exact he
        · exact he
      exact peeled_mine h hmem hserves (recvPacket_mine hr hs).1
    · rw [if_neg hcc] at h
      obtain ⟨got, u, hr, h⟩ := bind_ok.mp h
      obtain ⟨rfl, rfl⟩ := pure_ok.mp hr
      exact peeled_mine h he hserves hs
  · rw [if_neg h0] at h
    split_ifs at h with hneg
    · exact (throw_ok.mp h).elim
    · simp only [bind_ok, setRsp, setEntry, modify_ok, pure_ok] at h
      obtain ⟨_, _, rfl, _, _, rfl, rfl, rfl⟩ := h
      refine ⟨?_, .inl rfl⟩
      have hs1 := hs.update (peelAs e ((unwrap r x).data (x - 3) >>> 2)) he rfl (hserves.rekey _)
      exact hs1.of_eq rfl rfl rfl

/-- What a round leaves: the entries still belong to the command, and a response with a header in
front of its data answers it. -/
def RoundEnds (req : Request) (s₀ t : St) (v : Round) : Prop :=
  Mine req s₀ t ∧ v ≠ .whole ∧ ∀ x, v = .shifted x → Answered req s₀ t

theorem RoundEnds.of_skip {v : Round} (h : Mine req s₀ t ∧ (v = .again ∨ v = .null)) :
    RoundEnds req s₀ t v := by
  obtain ⟨hm, rfl | rfl⟩ := h
  · exact ⟨hm, by simp, by simp⟩
  · exact ⟨hm, by simp, by simp⟩

theorem messageRound_ends {session : Session} {r : Response} {v : Round}
    (h : messageRound session r s = .ok (v, t)) (hs : Mine req s₀ s) : RoundEnds req s₀ t v := by
  unfold messageRound at h
  simp only [bind_ok, setRsp, modify_ok, get_ok] at h
  set x := lengthOffset session r
  set r1 := readIpmiResponse (readPayloadHeader r ptIpmi x) (x + 1) with hr1
  obtain ⟨_, _, rfl, _, _, ⟨rfl, rfl⟩, h⟩ := h
  have hs1 : Mine req s₀ { s with recvRsp := r1 } := hs.of_eq rfl rfl rfl
  rcases hfind : reqLookupEntry s.reqEntries r1.rqSeq r1.cmd with _ | e
  · rw [hfind] at h
    exact .of_skip (next_mine h hs1)
  · rw [hfind] at h
    have hmem : e ∈ s.reqEntries := List.mem_of_find?_eq_some hfind
    dsimp only at h
    split_ifs at h with hbridged
    · exact .of_skip (peelRound_mine h hmem hbridged.2.1 hs1)
    · simp only [bind_ok, pure_ok] at h
      obtain ⟨_, u, hd, rfl, rfl⟩ := h
      have hkey := List.find?_some hfind
      simp only [Entry.hasKey, Bool.and_eq_true, beq_iff_eq] at hkey
      obtain ⟨hserves, hge⟩ := hs.serves e hmem
      obtain ⟨hm, earlier, hg, hne⟩ := hs1.drop hfind hd
      have hrsp : u.recvRsp = r1 := by
        rw [← modify_ok.mp hd]
      refine ⟨hm, by simp, fun _ _ => ⟨e, earlier, hserves, hge, ?_, ?_, hg, hne⟩⟩
      · rw [hrsp, hkey.1]
      · rw [hrsp, hkey.2]

/-- **One round of `pollRecv`**, undisturbed. -/
theorem pollRound_ends {v : Round} (h : pollRound s = .ok (v, t)) (hs : Mine req s₀ s)
    (hu : Undisturbed s t) : RoundEnds req s₀ t v := by
  unfold pollRound at h
  simp only [bind_ok, get_ok] at h
  obtain ⟨_, _, ⟨rfl, rfl⟩, h⟩ := h
  by_cases hasf : s.recvRsp.data 3 = rmcpClassAsf
  · rw [if_pos hasf] at h
    simp only [bind_ok, record_ok, pure_ok] at h
    obtain ⟨_, _, rfl, rfl, rfl⟩ := h
    have hpong : pongSupported s.recvRsp = false := hu.of_events rfl (List.mem_singleton.mpr rfl)
    rw [hpong]
    refine .of_skip ⟨hs.of_eq rfl ?_ rfl, .inr rfl⟩
    simp [gone, Event.entry?]
  · rw [if_neg hasf] at h
    by_cases hipmi : s.recvRsp.data 3 ≠ rmcpClassIpmi
    · rw [if_pos hipmi] at h
      exact .of_skip (next_mine h hs)
    · rw [if_neg hipmi] at h
      simp only [bind_ok, theSession_ok] at h
      obtain ⟨ss, _, ⟨hss, rfl⟩, h⟩ := h
      split_ifs at h with hsol
      · simp only [bind_ok, setRsp, modify_ok, record_ok, pure_ok] at h
        obtain ⟨_, _, rfl, _, _, rfl, rfl, rfl⟩ := h
        have := hu.of_events rfl (List.mem_singleton.mpr rfl)
        cases this
      · exact messageRound_ends h hs

/-! ### The wait and the tries -/

theorem shiftRsp_payload (r : Response) (x : ℕ) : (shiftRsp r x).payload = r.payload := by
  unfold shiftRsp
  split_ifs <;> rfl

theorem Answered.of_eq (h : Answered req s₀ s) (hl : t.reqEntries = s.reqEntries)
    (htr : t.trace = s.trace) (hrsp : t.recvRsp.payload = s.recvRsp.payload) :
    Answered req s₀ t := by
  obtain ⟨e, earlier, hserves, hge, hseq, hcmd, hg, hne⟩ := h
  refine ⟨e, earlier, hserves, hge, ?_, ?_, ?_, ?_⟩
  · rw [← hseq, Response.rqSeq, Response.rqSeq, hrsp]
  · rw [← hcmd, Response.cmd, Response.cmd, hrsp]
  · rw [← hg, gone, gone, htr]
  · rw [hl]
    exact hne

/-- The end of a wait. -/
def WaitEnds (req : Request) (s₀ s' : St) (b : Bool) : Prop :=
  Mine req s₀ s' ∧ (b = true → Answered req s₀ s')

theorem pollLoop_ends : ∀ {fuel : ℕ} {s s' : St} {b : Bool}, pollLoop fuel s = .ok (b, s') →
    Mine req s₀ s → Undisturbed s s' → WaitEnds req s₀ s' b
  | 0, s, s', b, h, hs, _ => by
    obtain ⟨rfl, rfl⟩ := pure_ok.mp h
    exact ⟨hs, by simp⟩
  | fuel + 1, s, s', b, h, hs, hu => by
    obtain ⟨v, t, hround, h⟩ := bind_ok.mp h
    have hg1 := Run.grows (moves_pollRound tame_run.receiving _ _ _ hround)
    cases v with
    | again =>
      obtain ⟨hu1, hu2⟩ := hu.split hg1 (Run.grows (moves_pollLoop tame_run.receiving _ _ _ _ h))
      exact pollLoop_ends h (pollRound_ends hround hs hu1).1 hu2
    | null =>
      obtain ⟨rfl, rfl⟩ := pure_ok.mp h
      exact ⟨(pollRound_ends hround hs hu).1, by simp⟩
    | whole =>
      obtain ⟨rfl, rfl⟩ := pure_ok.mp h
      exact absurd rfl (pollRound_ends hround hs hu).2.1
    | shifted x =>
      simp only [bind_ok, modify_ok, pure_ok] at h
      obtain ⟨_, _, rfl, rfl, rfl⟩ := h
      have hu1 : Undisturbed s t := hu
      obtain ⟨hm, -, hans⟩ := pollRound_ends hround hs hu1
      exact ⟨hm.of_eq rfl rfl rfl,
        fun _ => (hans x rfl).of_eq rfl rfl (shiftRsp_payload _ _)⟩

theorem pollRecv_ends {b : Bool} (h : pollRecv s = .ok (b, s')) (hs : Mine req s₀ s)
    (hu : Undisturbed s s') : WaitEnds req s₀ s' b := by
  unfold pollRecv at h
  simp only [bind_ok, get_ok] at h
  obtain ⟨got, t, hr, _, _, ⟨rfl, rfl⟩, h⟩ := h
  obtain ⟨ht, htr⟩ := recvPacket_mine hr hs
  cases got with
  | false =>
    obtain ⟨rfl, rfl⟩ := pure_ok.mp h
    exact ⟨ht, by simp⟩
  | true =>
    have hu1 : Undisturbed t s' := by
      obtain ⟨evs, h1, h2⟩ := hu
      exact ⟨evs, htr ▸ h1, h2⟩
    exact pollLoop_ends h ht hu1

theorem await_ends {b : Bool} (h : Send.await s = .ok (b, s')) (hs : Mine req s₀ s)
    (hu : Undisturbed s s') : WaitEnds req s₀ s' b := by
  have hwait : ∀ {s : St}, (do
      let rsp ← pollRecv
      let s ← get
      if rsp ∧ s.recvRsp.ccode = 0xcf then pollRecv else return rsp : M Bool) s = .ok (b, s') →
      Mine req s₀ s → Undisturbed s s' → WaitEnds req s₀ s' b := by
    intro s h hs hu
    simp only [bind_ok, get_ok] at h
    obtain ⟨rsp, t, hp, _, _, ⟨rfl, rfl⟩, h⟩ := h
    split_ifs at h with hcc
    · obtain ⟨hu1, hu2⟩ := hu.split (Run.grows (moves_pollRecv tame_run.receiving _ _ _ hp))
        (Run.grows (moves_pollRecv tame_run.receiving _ _ _ h))
      exact pollRecv_ends h (pollRecv_ends hp hs hu1).1 hu2
    · obtain ⟨rfl, rfl⟩ := pure_ok.mp h
      exact pollRecv_ends hp hs hu
  obtain ⟨_, _, hget, h⟩ := bind_ok.mp h
  obtain ⟨rfl, rfl⟩ := get_ok.mp hget
  split_ifs at h with hthump
  · obtain ⟨_, t, ht, h⟩ := bind_ok.mp h
    simp only [thump, bind_ok, sendPacket_ok, pure_ok] at ht
    obtain ⟨_, _, ⟨rfl, -⟩, -, rfl⟩ := ht
    exact hwait h (hs.of_eq rfl rfl rfl) hu
  · exact hwait h hs hu

theorem buildCmd_mine {isRetry : Bool} {addr : ℕ} {packet : List UInt8}
    (h : buildCmd A req isRetry s = .ok ((addr, packet), t)) (hs : Mine req s₀ s) :
    Mine req s₀ t := by
  obtain ⟨ss, e, u, seq, level, -, -, -, htake, -, rfl, rfl⟩ := buildCmd_ok h
  have hs1 : Mine req s₀ { s with currSeq := seq } := hs.of_eq rfl rfl rfl
  have hu : Mine req s₀ u ∧ e ∈ u.reqEntries ∧ e.req.cmd = req.cmd ∧ u.trace = s.trace := by
    rcases takeEntry_ok htake with ⟨hfind, rfl⟩ | ⟨-, rfl, rfl⟩
    · have hkey := List.find?_some hfind
      simp only [Entry.hasKey, Bool.and_eq_true, beq_iff_eq] at hkey
      exact ⟨hs1, List.mem_of_find?_eq_some hfind, hkey.2, rfl⟩
    · exact ⟨hs1.add rfl, by simp, rfl, rfl⟩
  obtain ⟨hu, hmem, hcmd, htr⟩ := hu
  have hserves := ((hu.serves e hmem).1.refiled hcmd level).rekey seq
  have hupd := hu.update { bridgeEntry level e with rqSeq := seq } hmem rfl hserves
  refine hupd.of_eq rfl ?_ rfl
  simp [gone, htr, Event.entry?]

/-- After a failed send nothing may be found under the target command. -/
theorem Mine.drop_any {seq cmd : UInt8} {u : Unit} (h : Mine req s₀ s)
    (hd : dropEntry seq cmd s = .ok (u, t)) : Mine req s₀ t := by
  rcases he : reqLookupEntry s.reqEntries seq cmd with _ | e
  · obtain rfl := modify_ok.mp hd
    have hnone : ∀ x ∈ s.reqEntries, ¬ Entry.hasKey seq cmd x = true := List.find?_eq_none.mp he
    refine h.of_eq (List.eraseP_of_forall_not hnone) ?_ rfl
    simp [gone, he]
  · exact (h.drop he hd).1

/-- **The tries of a command**. -/
theorem sendLoop_ends : ∀ {fuel tries : ℕ} {s s' : St} {b : Bool},
    sendLoop A req fuel tries s = .ok (b, s') → Mine req s₀ s → Undisturbed s s' →
    WaitEnds req s₀ s' b
  | 0, _, s, s', b, h, hs, _ => by
    obtain ⟨rfl, rfl⟩ := pure_ok.mp h
    exact ⟨hs, by simp⟩
  | fuel + 1, tries, s, s', b, h, hs, hu => by
    obtain ⟨⟨addr, packet⟩, t, hb, h⟩ := bind_ok.mp h
    obtain ⟨sent, u, hsend, h⟩ := bind_ok.mp h
    have hg1 : s.trace <+: u.trace :=
      Run.grows ((moves_buildCmd tame_run _ _ _ _ _ hb).trans
        (moves_sendPacket tame_run.toStaying _ _ _ _ hsend))
    have hmine : Mine req s₀ u := by
      obtain ⟨rfl, -⟩ := sendPacket_ok.mp hsend
      exact (buildCmd_mine hb hs).of_eq rfl rfl rfl
    cases sent with
    | false =>
      simp only [Bool.not_false, if_true, bind_ok] at h
      obtain ⟨e, v, hderef, _, w, hdrop, h⟩ := h
      obtain ⟨-, rfl⟩ := Ipmitool.Lanplus.Rounds.deref_ok.mp hderef
      have hg2 := Run.grows (moves_dropEntry tame_run.receiving _ _ _ _ _ hdrop)
      have hg3 := Run.grows (moves_sendLoop tame_run _ _ _ _ _ _ h)
      obtain ⟨-, hu2⟩ := hu.split (hg1.trans hg2) hg3
      exact sendLoop_ends h (hmine.drop_any hdrop) hu2
    | true =>
      simp only [Bool.not_true, Bool.false_eq_true, if_false, bind_ok, get_ok] at h
      obtain ⟨_, _, ⟨rfl, rfl⟩, h⟩ := h
      by_cases hno : u.intf.noanswer = true
      · rw [if_pos hno] at h
        obtain ⟨rfl, rfl⟩ := pure_ok.mp h
        exact ⟨hmine, by simp⟩
      · rw [if_neg hno] at h
        obtain ⟨rsp, v, ha, h⟩ := bind_ok.mp h
        have hg2 := Run.grows (moves_await tame_run.toStaying _ _ _ ha)
        cases rsp with
        | true =>
          obtain ⟨rfl, rfl⟩ := pure_ok.mp h
          exact await_ends ha hmine (hu.split hg1 hg2).2
        | false =>
          simp only [Bool.false_eq_true, if_false] at h
          by_cases hretry : u.intf.ssnParams.retry ≤ tries + 1
          · rw [if_pos hretry] at h
            obtain ⟨rfl, rfl⟩ := pure_ok.mp h
            exact await_ends ha hmine (hu.split hg1 hg2).2
          · rw [if_neg hretry] at h
            have hg3 := Run.grows (moves_sendLoop tame_run _ _ _ _ _ _ h)
            obtain ⟨-, hu2⟩ := hu.split hg1 (hg2.trans hg3)
            obtain ⟨hu3, hu4⟩ := hu2.split hg2 hg3
            exact sendLoop_ends h (await_ends ha hmine hu3).1 hu4

/-! ### Commands -/

/-- **The response that a command handed back**: it answers the command, and then the entries that
are left are cleared, of which its entry is none. -/
def Answers (req : Request) (s s' : St) : Prop :=
  ∃ t, Answered req s t ∧ s' = { t with reqEntries := [] }

theorem exchange_clears {b : Bool} (h : exchange A req s = .ok (b, s')) : s'.reqEntries = [] := by
  unfold exchange at h
  simp only [bind_ok, get_ok, reqClearEntries, modify_ok, pure_ok] at h
  obtain ⟨_, _, -, rsp, t, -, _, _, rfl, -, rfl⟩ := h
  rfl

/-- **A command** with an empty request list, undisturbed. -/
theorem exchange_answers (h : exchange A req s = .ok (true, s')) (hl : s.reqEntries = [])
    (hu : Undisturbed s s') : Answers req s s' := by
  unfold exchange at h
  simp only [bind_ok, get_ok, reqClearEntries, modify_ok, pure_ok] at h
  obtain ⟨_, _, ⟨rfl, rfl⟩, rsp, t, hloop, _, _, rfl, rfl, rfl⟩ := h
  have hu1 : Undisturbed s t := hu
  exact ⟨t, (sendLoop_ends hloop (.start hl) hu1).2 rfl, rfl⟩

/-! ### Every use of the interface leaves the list empty -/

/-- An empty request list stays empty. -/
abbrev Empties : Frame St := Frame.keeps fun s => s.reqEntries = []

theorem moves_idle {α : Type} {x : M α} (h : Moves (RunOf false) x) : Moves Empties x :=
  h.mono fun hrun => RunOf.entries hrun

theorem opening_empties : Opening A Empties where
  exchange _ := fun _ _ _ h _ => exchange_clears h
  pollRecv := moves_idle (moves_pollRecv tame_runOf.receiving)
  sendPacket := moves_sendPacket_of fun _ he _ _ hs => he.trans hs
  other _ he _ _ hs := he.trans hs
  session _ _ hs := hs
  activation _ _ hs := hs
  fresh _ he hs := he.trans hs
  closed _ he _ := he

theorem moves_empties_keepalive : Moves Empties (keepalive A) :=
  .bind .get fun _ => .ite (fun _ => .pure _) fun _ => .bind (opening_empties.exchange _) fun _ =>
    .bind .get fun _ => .pure _

/-- A use of the interface. -/
inductive Call (A : Auth) : St → St → Prop
  | sendCmd {s t : St} {req : Request} {b : Bool} (h : sendCmd A req s = .ok (b, t)) : Call A s t
  | sendSol {s t : St} {p : SolPacket} {b : Bool} (h : sendSol p s = .ok (b, t)) : Call A s t
  | recvSol {s t : St} {b : Bool} (h : recvSol s = .ok (b, t)) : Call A s t
  | keepalive {s t : St} {r : ℤ} (h : keepalive A s = .ok (r, t)) : Call A s t
  | «open» {s t : St} {fd : ℤ} (h : «open» A s = .ok (fd, t)) : Call A s t
  | close {s t : St} {u : Unit} (h : close A s = .ok (u, t)) : Call A s t

theorem Call.empties (h : Call A s t) (hs : s.reqEntries = []) : t.reqEntries = [] := by
  cases h with
  | sendCmd h => exact moves_sendCmd opening_empties _ _ _ _ h hs
  | sendSol h => exact moves_idle (moves_sendSol tame_runOf _) _ _ _ h hs
  | recvSol h => exact moves_idle (moves_recvSol tame_runOf) _ _ _ h hs
  | keepalive h => exact moves_empties_keepalive _ _ _ h hs
  | «open» h => exact moves_open opening_empties _ _ _ h hs
  | close h => exact opening_empties.moves_close _ _ _ h hs

theorem calls_empty (h : Relation.ReflTransGen (Call A) s t) (hs : s.reqEntries = []) :
    t.reqEntries = [] := by
  induction h with
  | refl => exact hs
  | tail _ hcall ih => exact hcall.empties ih

/-- The state in which `sendCmd` sends its command: the interface is open, or it has been opened. -/
def Opened (A : Auth) (s u : St) : Prop :=
  if s.intf.session.isNone then ∃ fd, «open» A s = .ok (fd, u) else u = s

theorem sendCmd_ok {b : Bool} (h : sendCmd A req s = .ok (b, s')) :
    b = false ∨ ∃ u, Opened A s u ∧ exchange A req u = .ok (b, s') := by
  unfold sendCmd at h
  obtain ⟨_, _, hget, h⟩ := bind_ok.mp h
  obtain ⟨rfl, rfl⟩ := get_ok.mp hget
  by_cases hclosed : s.intf.session.isNone = true
  · rw [if_pos hclosed] at h
    obtain ⟨fd, u, hopen, h⟩ := bind_ok.mp h
    split_ifs at h
    · exact .inl (pure_ok.mp h).1.symm
    · refine .inr ⟨u, ?_, h⟩
      rw [Opened, if_pos hclosed]
      exact ⟨fd, hopen⟩
  · rw [if_neg hclosed] at h
    refine .inr ⟨s, ?_, h⟩
    rw [Opened, if_neg hclosed]

/-- **After any uses**, a command hands back its own answer if it is not disturbed. -/
theorem calls_answer (h : Relation.ReflTransGen (Call A) s t) (hs : s.reqEntries = [])
    (hcmd : sendCmd A req t = .ok (true, s')) :
    ∃ u, Opened A t u ∧ exchange A req u = .ok (true, s') ∧
      (Undisturbed u s' → Answers req u s') := by
  have ht := calls_empty h hs
  rcases sendCmd_ok hcmd with hb | ⟨u, hopened, hex⟩
  · cases hb
  · have hu : u.reqEntries = [] := by
      unfold Opened at hopened
      split_ifs at hopened with hclosed
      · obtain ⟨fd, hopen⟩ := hopened
        exact moves_open opening_empties _ _ _ hopen ht
      · rw [hopened]
        exact ht
    exact ⟨u, hopened, hex, exchange_answers hex hu⟩

/-! ### Both transports -/

/-- **The answer to a command is the answer to that command.** From an empty request list, after any
uses of the interface: in the RMCP+ transport, while no send fails and no command is disturbed, the
response that a command hands back is its own (`Lanplus.Correlation.Answers`); in the IPMI 1.5
transport this holds of every command that is not disturbed itself. -/
theorem responses_correlate (K : Primitives) (A : Auth) (s t s' : St) (req : Request) :
    (s.reqEntries = [] → true ∉ s.net.sendFails →
      Relation.ReflTransGen (Ipmitool.Lanplus.Correlation.Call K) s t →
      Ipmitool.Lanplus.Send.sendIpmiCmd K req t = .ok (true, s') → Undisturbed t s' →
      Ipmitool.Lanplus.Correlation.Answers req t s') ∧
    (s.reqEntries = [] → Relation.ReflTransGen (Call A) s t → sendCmd A req t = .ok (true, s') →
      ∃ u, Opened A t u ∧ exchange A req u = .ok (true, s') ∧
        (Undisturbed u s' → Answers req u s')) := by
  refine ⟨fun hl hsends hcalls hcmd hu => ?_, fun hl hcalls hcmd => ?_⟩
  · exact Ipmitool.Lanplus.Correlation.calls_answer hcalls hl hsends hcmd hu rfl
  · exact calls_answer hcalls hl hcmd

/-- An open interface with an active session and one try, and what it will receive. -/
def waiting (inbox : List (Option (List UInt8))) : St where
  intf := { fd := 3, ssnParams := { retry := 1 },
            session := some { active := true, v2 := { sessionState := .active, consoleId := 1, bmcId := 1 } } }
  net := { inbox }

/-- The answer to the first Get Device ID command, as both formats carry it. -/
def deviceIdMessage : List UInt8 := [0x81, 0x1c, 0x63, 0x20, 0x04, 0x01, 0x00, 0xdb]

/-- The answer in an RMCP+ packet. -/
def deviceIdAnswer : List UInt8 :=
  rmcpHdr ++ [authtypeRmcpPlus, 0, 1, 0, 0, 0, 1, 0, 0, 0, 8, 0] ++ deviceIdMessage

/-- The answer in an IPMI 1.5 packet. -/
def oldDeviceIdAnswer : List UInt8 :=
  rmcpHdr ++ [0, 0, 0, 0, 0, 0, 0, 0, 0, 8] ++ deviceIdMessage

/-- A check of a run of a command: there is a response, and nothing disturbed the wait. -/
def answersCalmly (b : Bool) (s' : St) : Bool := b && s'.trace.all fun e => !interrupts e

theorem responses_correlate_deviceId :
    (∃ s', Ipmitool.Lanplus.Send.sendIpmiCmd (Primitives.tabled []) Ipmitool.Lanplus.Send.getDeviceId
        (waiting [some deviceIdAnswer]) = .ok (true, s') ∧
      Ipmitool.Lanplus.Correlation.Answers Ipmitool.Lanplus.Send.getDeviceId
        (waiting [some deviceIdAnswer]) s') ∧
    ∃ s', sendCmd ⟨fun _ _ => [], fun _ _ => [], fun _ => []⟩ Ipmitool.Lanplus.Send.getDeviceId
        (waiting [some oldDeviceIdAnswer]) = .ok (true, s') ∧
      Answers Ipmitool.Lanplus.Send.getDeviceId (waiting [some oldDeviceIdAnswer]) s' := by
  have h1 : returns (Ipmitool.Lanplus.Send.sendIpmiCmd (Primitives.tabled [])
      Ipmitool.Lanplus.Send.getDeviceId) (waiting [some deviceIdAnswer]) answersCalmly = true := by
    decide +kernel
  have h2 : returns (sendCmd ⟨fun _ _ => [], fun _ _ => [], fun _ => []⟩
      Ipmitool.Lanplus.Send.getDeviceId) (waiting [some oldDeviceIdAnswer]) answersCalmly = true := by
    decide +kernel
  constructor
  · obtain ⟨b, s', hcmd, htest⟩ := exists_of_returns h1
    simp only [answersCalmly, Bool.and_eq_true, List.all_eq_true, Bool.not_eq_true'] at htest
    obtain ⟨rfl, hcalm⟩ := htest
    exact ⟨s', hcmd, (responses_correlate _ ⟨fun _ _ => [], fun _ _ => [],
      fun _ => []⟩ _ _ _ _).1 rfl
      (by decide) .refl hcmd ⟨s'.trace, rfl, hcalm⟩⟩
  · obtain ⟨b, s', hcmd, htest⟩ := exists_of_returns h2
    simp only [answersCalmly, Bool.and_eq_true, List.all_eq_true, Bool.not_eq_true'] at htest
    obtain ⟨rfl, hcalm⟩ := htest
    obtain ⟨u, hopened, -, hans⟩ :=
      (responses_correlate (Primitives.tabled []) _ _ _ _ _).2 rfl .refl hcmd
    obtain rfl : u = waiting [some oldDeviceIdAnswer] := hopened
    exact ⟨s', hcmd, hans ⟨s'.trace, rfl, hcalm⟩⟩

/-- A pong that claims support for IPMI. -/
def supportedPong : List UInt8 :=
  [0x06, 0x00, 0xff, rmcpClassAsf, 0x00, 0x00, 0x11, 0xbe, 0x40, 0x00, 0x00, 0x10] ++
    [0x00, 0x00, 0x11, 0xbe, 0, 0, 0, 0, 0x81, 0, 0, 0, 0, 0, 0, 0]

/-- A pong is handed back as the answer to Get Device ID, and the entry of the command stays. -/
theorem sendIpmiCmd_takes_pong :
    ∃ s', Ipmitool.Lanplus.Send.sendIpmiCmd (Primitives.tabled []) Ipmitool.Lanplus.Send.getDeviceId
        (waiting [some supportedPong]) = .ok (true, s') ∧ s'.reqEntries ≠ [] ∧
      ¬ Ipmitool.Lanplus.Correlation.Answers Ipmitool.Lanplus.Send.getDeviceId
        (waiting [some supportedPong]) s' := by
  have hrun : returns (Ipmitool.Lanplus.Send.sendIpmiCmd (Primitives.tabled [])
      Ipmitool.Lanplus.Send.getDeviceId) (waiting [some supportedPong])
      (fun b s' => b && !s'.reqEntries.isEmpty) = true := by
    decide +kernel
  obtain ⟨b, s', hcmd, htest⟩ := exists_of_returns hrun
  simp only [Bool.and_eq_true, Bool.not_eq_true', List.isEmpty_eq_false_iff] at htest
  obtain ⟨rfl, hne⟩ := htest
  refine ⟨s', hcmd, hne, ?_⟩
  rintro ⟨e, e', earlier, -, -, -, -, -, -, -, hempty⟩
  exact hne hempty

end Ipmitool.Lan.Correlation
