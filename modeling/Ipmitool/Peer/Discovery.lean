import Ipmitool.Peer.Turns

/-! # The cipher suites of the controller

Before the handshake the transport asks the controller which cipher suites it has, in pages of
sixteen bytes. `cipherSuiteLoop_served`: however the lost datagrams are spread, the loop collects
the whole table, whatever its length is. `parse_suiteRecords`: the parser gets the numbers of the
suites out of it. -/

namespace Ipmitool.Peer.Discovery

open Ipmitool.Lib.Machine Ipmitool.Lib.Conversation
open Ipmitool.Core.Types Ipmitool.Crypto.Mac Ipmitool.Lanplus.State Ipmitool.Lanplus.Rounds
open Ipmitool.Lanplus.Open (parseCipherSuite parseChannelCipherSuiteData cipherSuiteRequest
  cipherSuiteLoop
  findBestCipherSuite)
open Ipmitool.Peer.Controller Ipmitool.Peer.Exchange Ipmitool.Peer.Packets Ipmitool.Peer.Agreement
open Ipmitool.Peer.Commands Ipmitool.Peer.Turns

variable {K : Primitives} {s : St} {ss : Session} {b : Bmc} {level : ℕ} {list : List Suite}

/-! ### The table -/

theorem suiteRecords_cons (cs : Suite) (list : List Suite) :
    suiteRecords (cs :: list) = [0xc0, cs.id, cs.auth, cs.integrity,
      cs.crypt] ++ suiteRecords list := rfl

theorem length_suiteRecords (list : List Suite) : (suiteRecords list).length = 5 * list.length := by
  induction list with
  | nil => rfl
  | cons cs list ih =>
    rw [suiteRecords_cons, List.length_append, ih, List.length_cons]
    simp only [List.length_cons, List.length_nil]
    omega

/-- The records of a table that is not too long are read back. -/
theorem parse_suiteRecords {capacity : ℕ} (h : list.length ≤ capacity) :
    parseChannelCipherSuiteData capacity (suiteRecords list) = list.map Suite.id := by
  induction list generalizing capacity with
  | nil => cases capacity <;> rfl
  | cons cs list ih =>
    obtain ⟨n, rfl⟩ : ∃ n, capacity = n + 1 := ⟨capacity - 1, by rw [List.length_cons] at h; omega⟩
    have hrecord : parseCipherSuite (suiteRecords (cs :: list)) = some (cs.id, 5) := by
      rw [suiteRecords_cons]
      have hlen :
          ¬ ([0xc0, cs.id, cs.auth, cs.integrity, cs.crypt] ++ suiteRecords list).length < 5 :=
        Nat.not_lt.mpr (Nat.le_add_left 5 _)
      unfold parseCipherSuite
      rw [if_neg hlen]
      rfl
    rw [parseChannelCipherSuiteData, if_neg (by rw [suiteRecords_cons]; exact List.cons_ne_nil _ _),
      hrecord]
    change cs.id :: parseChannelCipherSuiteData n (suiteRecords list) = _
    rw [ih (by rw [List.length_cons] at h; omega), List.map_cons]

/-! ### One page -/

/-- The page with the number `i`. -/
def page (list : List Suite) (i : ℕ) : List UInt8 := ((suiteRecords list).drop (i * 16)).take 16

theorem take_page (list : List Suite) (i : ℕ) :
    (suiteRecords list).take (i * 16) ++ page list i = (suiteRecords list).take ((i + 1) * 16) := by
  rw [page, Nat.succ_mul, List.take_add]

theorem length_page (list : List Suite) (i : ℕ) :
    (page list i).length = min 16 ((suiteRecords list).length - i * 16) := by
  rw [page, List.length_take, List.length_drop]

theorem listIndex_toNat {i : ℕ} (hi : i < 64) :
    (((0x80 : UInt8) ||| UInt8.ofNat i) &&& 0x3f).toNat = i := by
  revert i
  decide

/-- What the controller answers to the request for a page. -/
def pageAnswer (table : Option (List Suite)) (i : ℕ) : Answer :=
  table.elim { ccode := 0xc1 } fun list => { data := 0x0e :: page list i }

theorem serve_cipherSuiteRequest (depth : ℕ) (h : Ordinary b.p 0x06 0x54)
    (hfit : ∀ list, b.p.cipherSuites = some list → (suiteRecords list).length ≤ 1024) {i : ℕ}
    (hi : i < 64) :
    serve depth (cipherSuiteRequest (UInt8.ofNat i)) b =
      .ok (pageAnswer b.p.cipherSuites i, b) := by
  have happ : ∀ nested, dispatchApp nested (asked 0 0 (cipherSuiteRequest (UInt8.ofNat i))) b =
      .ok (pageAnswer b.p.cipherSuites i, b) := by
    intro nested
    unfold dispatchApp
    rw [bind_run (show (get : B Bmc) b = .ok (b, b) from rfl)]
    change (liftM (channelCipherSuites b.p (asked 0 0 (cipherSuiteRequest (UInt8.ofNat i)))) :
      B Answer) b = _
    refine lift_ok.mpr ⟨?_, rfl⟩
    unfold channelCipherSuites
    cases htable : b.p.cipherSuites with
    | none => rfl
    | some list =>
      have h3 : ¬ (asked 0 0 (cipherSuiteRequest (UInt8.ofNat i))).data.length < 3 := by
        change ¬ 3 < 3
        omega
      dsimp only
      rw [if_neg h3, if_neg (Nat.not_lt.mpr (hfit list htable))]
      have hindex :
          ((asked 0 0 (cipherSuiteRequest (UInt8.ofNat i))).data.getD 2 0 &&& 0x3f).toNat = i :=
        listIndex_toNat hi
      have hchannel :
          (asked 0 0 (cipherSuiteRequest (UInt8.ofNat i))).data.getD 0 0 &&& 0x0f = 0x0e :=
        (by decide : (0x0e : UInt8) &&& 0x0f = 0x0e)
      rw [hindex, hchannel]
      rfl
  unfold serve
  cases depth with
  | zero => exact (dispatchWith_app h rfl).trans (happ none)
  | succ depth => exact (dispatchWith_app h rfl).trans (happ _)

theorem served_page {p : Personality} (hlevel : level ≤ 1) (h : Ordinary p 0x06 0x54)
    (hforwards : level = 1 → Forwards p) (i : ℕ) (table : Option (List Suite)) :
    Served p level (cipherSuiteRequest (UInt8.ofNat i)) (pageAnswer table i) := by
  have hanswer : (pageAnswer table i).data.length ≤ 17 := by
    cases table with
    | none => exact Nat.zero_le _
    | some list =>
      change (page list i).length + 1 ≤ 17
      rw [length_page]
      omega
  have hccode : (pageAnswer table i).ccode ≠ 0xcf := by
    cases table with
    | none => exact (by decide : (0xc1 : UInt8) ≠ 0xcf)
    | some list => exact (by decide : (0 : UInt8) ≠ 0xcf)
  have hrequest : (cipherSuiteRequest (UInt8.ofNat i)).data.length = 3 := rfl
  refine ⟨hlevel, fun _ => h.deaf, hforwards, fun _ => (by decide : (0x54 : UInt8) ≠ 0x34), ?_, ?_,
    fun _ => by omega, hccode⟩
  · unfold maxPayload
    omega
  · unfold maxPayload
    omega

/-! ### The whole table -/

theorem not_goesOld (i : UInt8) : ¬ GoesOld ss (cipherSuiteRequest i) := fun h =>
  absurd h.2.1 (by decide : (0x54 : UInt8) ≠ Lanplus.Send.getChannelAuthCap)

/-- **The whole table**: with the pages in front of `i` the loop collects the rest. -/
theorem cipherSuiteLoop_served (other : List UInt8 → Bool → B (List UInt8)) (hlevel : level ≤ 1)
    (hordinary : Ordinary b.p 0x06 0x54) (hforwards : level = 1 → Forwards b.p)
    (htable : b.p.cipherSuites = some list) (hfit : (suiteRecords list).length ≤ 1024) {fuel i : ℕ}
    (hfuel : fuel + i = 64) (h : Attached level s ss b) (hccode : fuel = 0 → s.recvRsp.ccode ≠ 0xcf)
    (hloss : ahead b < s.intf.ssnParams.retry.toNat)
    (htime : Timely fuel s.net.clock ss.timeout b) :
    ∃ t ss' b', Converses wire (handle K other)
        (cipherSuiteLoop K fuel (UInt8.ofNat i) ((suiteRecords list).take (i * 16))) s b
        (some (suiteRecords list)) t b' ∧
      Queried level s ss b t ss' b' := by
  induction fuel generalizing i s ss b with
  | zero =>
    refine ⟨s, ss, b, ?_, h, h.asked, rfl, hccode rfl⟩
    rw [List.take_of_length_le (by omega)]
    exact .of_hears (.pure _ _) rfl
  | succ fuel ih =>
    have hserve := serve_cipherSuiteRequest (2 - level) hordinary
      (fun l hl => by cases htable.symm.trans hl; exact hfit) (show i < 64 by omega)
    obtain ⟨t, ss1, b1, hconv, ht, hhold, htime'⟩ := sendIpmiCmd_queried (K := K) other h
      (served_page hlevel hordinary hforwards i b.p.cipherSuites) hserve
        (fun hold => absurd hold (not_goesOld _))
      hloss htime
    have hp := ht.asked.p
    rw [htable] at hhold
    have hlen : t.recvRsp.dataLen = (page list i).length + 1 := hhold.2.1
    have hpage := length_page list i
    have hgood :
        ¬ (¬ (true = true) ∨ t.recvRsp.ccode ≠ 0 ∨ t.recvRsp.dataLen < 1 ∨
          17 < t.recvRsp.dataLen) := by
      rw [show t.recvRsp.ccode = 0 from hhold.1, hlen]
      simp only [ne_eq, not_true_eq_false, false_or]
      omega
    by_cases hfull : (page list i).length = 16
    · obtain ⟨u, ss', b', hrest, hu⟩ := ih (i := i + 1) (by rw [hp]; exact hordinary)
        (by rw [hp]; exact hforwards) (by rw [hp]; exact htable) (by omega) ht.attached
          (fun _ => ht.ccode)
        (by rw [ht.asked.intf]; exact Nat.lt_of_le_of_lt (ahead_le hp ht.asked.received) hloss)
          htime'
      refine ⟨u, ss', b', hconv.bind (.read (fun _ => rfl) ?_), ht.trans hu⟩
      dsimp only
      rw [if_neg hgood, if_pos (by rw [hlen, hfull]; rfl), hhold.tail, take_page, ← UInt8.ofNat_one,
        ← UInt8.ofNat_add]
      exact hrest
    · refine ⟨t, ss1, b1, hconv.bind (.read (fun _ => rfl) ?_), ht⟩
      dsimp only
      rw [if_neg hgood, if_neg (by rw [hlen]; omega), hhold.tail, take_page,
        List.take_of_length_le (by omega)]
      exact .of_hears (.pure _ _) rfl

/-- A controller without a table refuses the first request. -/
theorem cipherSuiteLoop_refused (other : List UInt8 → Bool → B (List UInt8)) (hlevel : level ≤ 1)
    (hordinary : Ordinary b.p 0x06 0x54) (hforwards : level = 1 → Forwards b.p)
    (htable : b.p.cipherSuites = none) (fuel : ℕ) (h : Attached level s ss b)
    (hloss : ahead b < s.intf.ssnParams.retry.toNat)
    (htime : Timely (fuel + 1) s.net.clock ss.timeout b) :
    ∃ t ss' b', Converses wire (handle K other) (cipherSuiteLoop K (fuel + 1) 0 []) s b none t b' ∧
      Queried level s ss b t ss' b' := by
  have hserve := serve_cipherSuiteRequest (2 - level) hordinary
    (fun l hl => by cases htable.symm.trans hl) (show 0 < 64 by omega)
  obtain ⟨t, ss1, b1, hconv, ht, hhold, -⟩ := sendIpmiCmd_queried (K := K) other h
    (served_page hlevel hordinary hforwards 0 b.p.cipherSuites) hserve
      (fun hold => absurd hold (not_goesOld _))
    hloss htime
  rw [htable] at hhold
  refine ⟨t, ss1, b1, hconv.bind (.read (fun _ => rfl) ?_), ht⟩
  dsimp only
  rw [if_pos (.inr (.inl (by rw [hhold.1]; exact (by decide : (0xc1 : UInt8) ≠ 0))))]
  exact .of_hears (.pure _ _) rfl

/-- The suite that the transport takes from a table. -/
def bestSuite (table : Option (List Suite)) : CipherSuiteId :=
  if 17 ∈ (table.getD []).map Suite.id then 17 else 3

theorem findBestCipherSuite_ends (other : List UInt8 → Bool → B (List UInt8)) (hlevel : level ≤ 1)
    (hordinary : Ordinary b.p 0x06 0x54) (hforwards : level = 1 → Forwards b.p)
    (hfit : ∀ list, b.p.cipherSuites = some list → list.length ≤ 204) (h : Attached level s ss b)
    (hloss : ahead b < s.intf.ssnParams.retry.toNat) (htime : Timely 64 s.net.clock ss.timeout b) :
    ∃ t ss' b', Converses wire (handle K other)
      (findBestCipherSuite K) s b (bestSuite b.p.cipherSuites) t b' ∧
      Queried level s ss b t ss' b' := by
  unfold findBestCipherSuite
  cases htable : b.p.cipherSuites with
  | none =>
    obtain ⟨t, ss', b', hconv, ht⟩ :=
      cipherSuiteLoop_refused (K := K) other hlevel hordinary hforwards
        htable 63 h hloss htime
    exact ⟨t, ss', b', hconv.bind (.of_hears (.pure _ _) rfl), ht⟩
  | some list =>
    have hlist := hfit list htable
    obtain ⟨t, ss', b', hconv, ht⟩ :=
      cipherSuiteLoop_served (K := K) other hlevel hordinary hforwards
        htable (by rw [length_suiteRecords]; omega) (show 64 + 0 = 64 from rfl) h
        (fun h0 => by cases h0) hloss htime
    refine ⟨t, ss', b', hconv.bind ?_, ht⟩
    dsimp only
    rw [parse_suiteRecords hlist]
    exact .of_hears (.pure _ _) rfl

/-- **The best suite of the controller**: 17 if it has it, otherwise 3, in a table of any length
that the controller can hold and with any losses that the retries make up for. -/
theorem findBestCipherSuite_served (other : List UInt8 → Bool → B (List UInt8)) (hlevel : level ≤ 1)
    (hordinary : Ordinary b.p 0x06 0x54) (hforwards : level = 1 → Forwards b.p)
    (hfit : ∀ list, b.p.cipherSuites = some list → list.length ≤ 204) (h : Attached level s ss b)
    (hloss : ahead b < s.intf.ssnParams.retry.toNat) (htime : Timely 64 s.net.clock ss.timeout b) :
    ∃ t ss' b', Converses wire (handle K other) (findBestCipherSuite K) s b
        (if 17 ∈ (b.p.cipherSuites.getD []).map Suite.id then 17 else 3) t b' ∧
      Attached level t ss' b' ∧ Asked s ss b b t ss' b' := by
  obtain ⟨t, ss', b', hconv, ht⟩ :=
    findBestCipherSuite_ends (K := K) other hlevel hordinary hforwards hfit h hloss htime
  exact ⟨t, ss', b', hconv, ht.attached, ht.asked⟩

/-- A controller with four suites, whose records are longer than a page, that loses the second
datagram. -/
def stocked : Bmc :=
  { p := { drop := [2], cipherSuites := some [⟨3, 1, 1, 1⟩, ⟨8, 2, 2, 1⟩, ⟨12, 2, 3, 1⟩,
    ⟨17, 3, 4, 1⟩] } }

/-- A transport that looks at the clock every five seconds. -/
def watching : St := { newcomer with net := { clock := (List.range 66).map fun n => 5 * (n : ℤ) } }

theorem attached_watching : Attached 0 watching {} stocked where
  online := ⟨by decide, rfl, by decide, ⟨by decide, by decide⟩⟩
  session := rfl
  sync := .inr ⟨by decide, by decide⟩
  entries := rfl
  bridged := rfl
  recorded := rfl
  v15 := rfl

set_option maxRecDepth 2048 in
theorem findBestCipherSuite_served_stocked : ∃ t ss' b',
    Converses wire (handle mixed fun _ _ => pure []) (findBestCipherSuite mixed)
        watching stocked 17 t b' ∧
      Attached 0 t ss' b' ∧ Asked watching {} stocked stocked t ss' b' :=
  findBestCipherSuite_served (fun _ _ => pure []) (by decide) ⟨by decide, rfl, by decide⟩
    (fun h => absurd h (by decide)) (fun list h => by cases h; decide) attached_watching (by decide)
    (fun _ => ⟨5, by decide, by decide, by decide, by decide⟩)

end Ipmitool.Peer.Discovery
