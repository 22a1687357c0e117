import Ipmitool.Cmd.Sol

/-! # The neighbours of a SOL parameter

Seven of the settings share a parameter of the BMC with others: `setParam` reads the configuration,
puts the new value beside what it read of the others and writes them back together. A `Storing` BMC
holds the bytes of the parameters, tells them when it is asked, and changes one only when it is set.

The configuration starts with zeros, and `getSolInfo` goes on when a parameter is not supported or
its response has another length. `getSolInfoLoop_ok` says what is in a field then, and
`setParam_keeps_iff` what comes of it: a parameter that is written keeps its neighbours exactly if
its own read went well or they were zero anyway. -/

namespace Ipmitool.Cmd.SolSiblings

open Ipmitool.Lib.Mem Ipmitool.Lib.Bytes Ipmitool.Lib.Machine Ipmitool.Lib.Dialogue
open Ipmitool.Core.Types Ipmitool.Core.Interface Ipmitool.Cmd.Sol

variable {β : Type} {B : Bmc β} {channel : UInt8} {port : Option UInt16} {value : List UInt8}
  {guarded : Bool} {w w' : CmdWorld Unit β}

/-! ### Fields -/

/-- The settings that share a parameter. -/
inductive Field where
  | forceEncryption
  | forceAuthentication
  | privilegeLevel
  | characterAccumulateLevel
  | characterSendThreshold
  | retryCount
  | retryInterval
  deriving DecidableEq

namespace Field

/-- What `setParam` calls the field. -/
def name : Field → List UInt8
  | forceEncryption => ascii "force-encryption"
  | forceAuthentication => ascii "force-authentication"
  | privilegeLevel => ascii "privilege-level"
  | characterAccumulateLevel => ascii "character-accumulate-level"
  | characterSendThreshold => ascii "character-send-threshold"
  | retryCount => ascii "retry-count"
  | retryInterval => ascii "retry-interval"

/-- The parameter it is a part of. -/
def selector : Field → UInt8
  | forceEncryption | forceAuthentication | privilegeLevel => 2
  | characterAccumulateLevel | characterSendThreshold => 3
  | retryCount | retryInterval => 4

/-- Its bits in the bytes of the parameter. -/
def of (bytes : List UInt8) : Field → UInt8
  | forceEncryption => bytes.getD 0 0 &&& 0x80
  | forceAuthentication => bytes.getD 0 0 &&& 0x40
  | privilegeLevel => bytes.getD 0 0 &&& 0x0f
  | characterAccumulateLevel | retryCount => bytes.getD 0 0
  | characterSendThreshold | retryInterval => bytes.getD 1 0

/-- Its bits in the configuration that was read. -/
def get (c : Config) : Field → UInt8
  | forceEncryption => if c.forceEncryption then 0x80 else 0
  | forceAuthentication => if c.forceAuthentication then 0x40 else 0
  | privilegeLevel => c.privilegeLevel
  | characterAccumulateLevel => c.characterAccumulateLevel
  | characterSendThreshold => c.characterSendThreshold
  | retryCount => c.retryCount
  | retryInterval => c.retryInterval

/-- Two fields of one parameter. -/
def Sibling (f g : Field) : Prop := g ≠ f ∧ g.selector = f.selector

/-- A field of two bytes has one sibling. -/
def partner : Field → Field
  | characterAccumulateLevel => characterSendThreshold
  | characterSendThreshold => characterAccumulateLevel
  | retryCount => retryInterval
  | retryInterval => retryCount
  | f => f

theorem Sibling.eq_partner {f g : Field} (h : f.Sibling g) (hf : f.selector ≠ 2) :
    g = f.partner := by
  obtain ⟨hne, hsel⟩ := h
  cases f <;> cases g <;> simp_all [selector, partner]

theorem selector_ne (f : Field) : f.selector ≠ 0 := by cases f <;> decide

@[simp] theorem get_zero (g : Field) : g.get {} = 0 := by cases g <;> rfl

theorem flags_of (b : UInt8) : (if b &&& 0x80 ≠ 0 then (0x80 : UInt8) else 0) = b &&& 0x80 ∧
    (if b &&& 0x40 ≠ 0 then (0x40 : UInt8) else 0) = b &&& 0x40 := by
  have hall : ∀ n : Fin 256,
      (if UInt8.ofNat n.val &&& 0x80 ≠ 0 then (0x80 : UInt8) else 0) = UInt8.ofNat n.val &&& 0x80 ∧
        (if UInt8.ofNat n.val &&& 0x40 ≠ 0 then (0x40 : UInt8) else 0) =
          UInt8.ofNat n.val &&& 0x40 := by
    decide +kernel
  simpa using hall ⟨b.toNat, b.toNat_lt⟩

theorem get_storeParam (g : Field) (p : Config) (r : Reply) (i : ℕ) :
    g.get (storeParam p r i) = if i = g.selector.toNat then g.of [r.data 1, r.data 2]
      else g.get p := by
  have hflags := flags_of (r.data 1)
  unfold storeParam
  split <;> cases g <;> simp_all [get, of, selector]

end Field

/-! ### The BMC -/

/-- A BMC that stores the parameters of the channel: `held` gives the bytes of each.
Set-in-progress, the parameter 0, is a lock and not stored. -/
structure Storing (B : Bmc β) (channel : UInt8) where
  held : β → UInt8 → List UInt8
  /-- A read that is answered well gives the bytes. -/
  read : ∀ b i r, i ≠ 0 → (B b (getRequest channel i)).1 = some r → r.ccode = 0 →
    r.dataLen = expectedLen i.toNat →
      r.data 1 = (held b i).getD 0 0 ∧ (r.dataLen = 3 → r.data 2 = (held b i).getD 1 0)
  /-- A parameter changes by the request that sets it. -/
  step : ∀ b q i, i ≠ 0 → held (B b q).2 i = held b i ∨
    q = setRequest (channel :: i :: held (B b q).2 i)

/-- The parameter was read with an answer of its length. -/
def ReadWell (channel i : UInt8) (evs : List Exchange) : Prop :=
  ∃ r, (getRequest channel i, some r) ∈ evs ∧ r.ccode = 0 ∧ r.dataLen = expectedLen i.toNat

section
variable (S : Storing B channel)

/-- The parameter was sent to the BMC, and the BMC holds what was sent. -/
def Storing.Written (i : UInt8) (evs : List Exchange) (b' : β) : Prop :=
  ∃ bytes o, (setRequest (channel :: i :: bytes), o) ∈ evs ∧ S.held b' i = bytes

/-- The siblings of `f` are what they were. -/
def Storing.Kept (f : Field) (b b' : β) : Prop :=
  ∀ g, f.Sibling g → g.of (S.held b' f.selector) = g.of (S.held b f.selector)

/-- The siblings of `f` are zero. -/
def Storing.Blank (f : Field) (b : β) : Prop := ∀ g, f.Sibling g → g.of (S.held b f.selector) = 0

end

theorem getRequest_ne_setRequest (i : UInt8) (data : List UInt8) :
    getRequest channel i ≠ setRequest data := by
  simp [getRequest, setRequest]

theorem getRequest_inj {i j : UInt8} : getRequest channel i = getRequest channel j ↔ i = j := by
  simp [getRequest]

theorem readWell_cons {n : ℕ} {i : UInt8} {r : Reply} {evs : List Exchange} (hn : n < 256) :
    ReadWell channel i ((getRequest channel (UInt8.ofNat n), some r) :: evs) ↔
      (n = i.toNat ∧ r.ccode = 0 ∧ r.dataLen = expectedLen n) ∨ ReadWell channel i evs := by
  have hsel : getRequest channel i = getRequest channel (UInt8.ofNat n) ↔ n = i.toNat := by
    rw [getRequest_inj, ← UInt8.toNat_inj, UInt8.toNat_ofNat', Nat.mod_eq_of_lt hn, eq_comm]
  constructor
  · rintro ⟨r', hmem, h1, h2⟩
    rcases List.mem_cons.mp hmem with he | hmem
    · obtain ⟨hq, hr⟩ := Prod.mk.inj he
      obtain rfl := Option.some.inj hr
      have hn' := hsel.mp hq
      exact .inl ⟨hn', h1, hn' ▸ h2⟩
    · exact .inr ⟨r', hmem, h1, h2⟩
  · rintro (⟨hn', h1, h2⟩ | ⟨r', hmem, h1, h2⟩)
    · exact ⟨r, by rw [hsel.mpr hn']; exact List.mem_cons_self, h1, hn' ▸ h2⟩
    · exact ⟨r', List.mem_cons_of_mem _ hmem, h1, h2⟩

/-! ### Reading -/

section
variable (S : Storing B channel)

/-- After the loop a field is what the BMC holds of it if its parameter was read well, and otherwise
what it was before. -/
theorem getSolInfoLoop_ok {old : Config} (g : Field) :
    ∀ (is : List ℕ) (p : Config) (w : CmdWorld Unit β),
    (∀ i ∈ is, i < 256) → getSolInfoLoop B channel port is p w = .ok (some old, w') →
      ∃ evs, w'.log = w.log ++ evs ∧
        (∀ j, j ≠ 0 → S.held w'.device j = S.held w.device j) ∧
        (ReadWell channel g.selector evs → g.get old = g.of (S.held w.device g.selector)) ∧
        (¬ ReadWell channel g.selector evs → g.get old = g.get p)
  | [], p, w, _, h => by
    obtain ⟨hp, rfl⟩ := pure_ok.mp h
    obtain rfl := Option.some.inj hp
    exact ⟨[], by simp, fun _ _ => rfl, by simp [ReadWell], fun _ => rfl⟩
  | i :: is, p, w, his, h => by
    have hi : i < 256 := his i List.mem_cons_self
    obtain ⟨o, t, ht, h⟩ := bind_ok.mp h
    obtain ⟨ho, rfl⟩ := ask_ok.mp ht
    rcases o with _ | r
    · exact absurd (pure_ok.mp h).1 (by simp)
    -- a read leaves what is held alone
    have hheld : ∀ j, j ≠ 0 →
        S.held (w.asked B (getRequest channel (UInt8.ofNat i))).device j = S.held w.device j := by
      intro j hj
      exact (S.step _ _ j hj).resolve_right (getRequest_ne_setRequest _ _)
    -- what the rest of the loop does, if it starts with the field as the answer leaves it
    have hrest : ∀ p', (i = g.selector.toNat → r.ccode = 0 → r.dataLen = expectedLen i →
          g.get p' = g.of (S.held w.device g.selector)) →
        (¬ (i = g.selector.toNat ∧ r.ccode = 0 ∧ r.dataLen = expectedLen i) → g.get p' = g.get p) →
        getSolInfoLoop B channel port is p' (w.asked B (getRequest channel (UInt8.ofNat i))) =
          .ok (some old, w') → ∃ evs, w'.log = w.log ++ evs ∧
            (∀ j, j ≠ 0 → S.held w'.device j = S.held w.device j) ∧
            (ReadWell channel g.selector evs → g.get old = g.of (S.held w.device g.selector)) ∧
            (¬ ReadWell channel g.selector evs → g.get old = g.get p) := by
      intro p' hwell hill h
      obtain ⟨evs, hlog, hsame, hread, hskip⟩ :=
        getSolInfoLoop_ok g is p' _ (fun j hj => his j (List.mem_cons_of_mem _ hj)) h
      rw [hheld _ g.selector_ne] at hread
      have hhead : ReadWell channel g.selector
          ((getRequest channel (UInt8.ofNat i), some r) :: evs) ↔ _ :=
        readWell_cons hi
      refine ⟨(getRequest channel (UInt8.ofNat i), some r) :: evs, ?_, ?_, ?_, ?_⟩
      · rw [hlog, World.asked_log, ho, List.append_assoc, List.singleton_append]
      · intro j hj
        rw [hsame j hj, hheld j hj]
      · intro hr
        by_cases htail : ReadWell channel g.selector evs
        · exact hread htail
        · obtain ⟨h1, h2, h3⟩ := (hhead.mp hr).resolve_right htail
          rw [hskip htail, hwell h1 h2 h3]
      · intro hr
        have hr' := not_or.mp (mt hhead.mpr hr)
        rw [hskip hr'.2, hill hr'.1]
    have hstored : r.ccode = 0 → r.dataLen = expectedLen i → g.get (storeParam p r i) =
        if i = g.selector.toNat then g.of (S.held w.device g.selector) else g.get p := by
      intro hc hlen
      rw [Field.get_storeParam]
      split_ifs with hsel
      · subst hsel
        rw [UInt8.ofNat_toNat] at ho
        obtain ⟨h1, h2⟩ := S.read _ _ r g.selector_ne ho hc hlen
        cases g <;> simp_all [Field.of, expectedLen, Field.selector]
      · rfl
    dsimp only at h
    split_ifs at h with hc hlen hcc h7 h8
    · refine hrest _ (fun hi' _ _ => ?_) (fun hno => ?_) h
      · rw [hstored hc hlen, if_pos hi']
      · rw [hstored hc hlen, if_neg fun hi' => hno ⟨hi', hc, hlen⟩]
    · exact hrest _ (fun _ _ hl => (hlen hl).elim) (fun _ => rfl) h
    · exact hrest _ (fun _ h0 => (hc h0).elim) (fun _ => by cases g <;> rfl) h
    · rcases port with _ | payloadPort
      · exact absurd (pure_ok.mp h).1 (by simp)
      · exact hrest _ (fun _ h0 => (hc h0).elim) (fun _ => by cases g <;> rfl) h
    · exact hrest _ (fun _ h0 => (hc h0).elim) (fun _ => rfl) h
    · exact absurd (pure_ok.mp h).1 (by simp)

/-- What `getSolInfo` finds: the fields of the parameters that were read well, and zeros. -/
theorem getSolInfo_ok {old : Config} {w : CmdWorld Unit β}
    (h : getSolInfo B channel port w = .ok (some old, w')) :
    ∃ evs, w'.log = w.log ++ evs ∧ (∀ j, j ≠ 0 → S.held w'.device j = S.held w.device j) ∧
      (∀ g : Field, (ReadWell channel g.selector evs → g.get old = g.of
        (S.held w.device g.selector)) ∧
        (¬ ReadWell channel g.selector evs → g.get old = 0)) ∧
      old.privilegeLevel &&& 0x0f = old.privilegeLevel := by
  have hloop := fun g => getSolInfoLoop_ok S g _ _ w (fun i hi => by
    have := List.mem_range.mp hi
    omega) h
  obtain ⟨evs, hlog, hheld, -⟩ := hloop .privilegeLevel
  have hfields : ∀ g : Field,
      (ReadWell channel g.selector evs → g.get old = g.of (S.held w.device g.selector)) ∧
        (¬ ReadWell channel g.selector evs → g.get old = 0) := by
    intro g
    obtain ⟨evs', hlog', -, hread, hskip⟩ := hloop g
    obtain rfl := List.append_cancel_left (hlog'.symm.trans hlog)
    exact ⟨hread, fun hr => (hskip hr).trans g.get_zero⟩
  refine ⟨evs, hlog, hheld, hfields, ?_⟩
  obtain ⟨hread, hskip⟩ := hfields .privilegeLevel
  by_cases hr : ReadWell channel Field.privilegeLevel.selector evs
  · have hp : old.privilegeLevel = _ &&& 0x0f := hread hr
    rw [hp, UInt8.and_assoc, UInt8.and_self]
  · have hp : old.privilegeLevel = 0 := hskip hr
    rw [hp, UInt8.zero_and]

end

/-! ### What is written -/

/-- The bytes of the parameter that a setting sends. -/
def bytes (s : Settings) : List UInt8 := [s.data0, s.data1].take (s.len - 2)

theorem paramRequest_eq {s : Settings} (h : 2 ≤ s.len) :
    paramRequest channel s = setRequest (channel :: s.selector :: bytes s) := by
  obtain ⟨n, hn⟩ : ∃ n, s.len = n + 2 := ⟨s.len - 2, by omega⟩
  simp [paramRequest, bytes, hn, List.take_succ_cons]

theorem or_and (x y m : UInt8) : (x ||| y) &&& m = x &&& m ||| y &&& m :=
  UInt8.toBitVec_inj.mp BitVec.and_or_distrib_right

/-- What a setting says: the parameter of the field, and beside the new value what was read of its
siblings. -/
def Carries (f : Field) (guarded : Bool) (old : Config) (s : Settings) : Prop :=
  s.guarded = guarded ∧ s.selector = f.selector ∧ 2 ≤ s.len ∧
    ∀ g, f.Sibling g → g.of (bytes s) = g.get old

/-- The field of a shared byte. -/
def sharedField : Shared → Field
  | .forceEncryption => .forceEncryption
  | .forceAuthentication => .forceAuthentication
  | .privilegeLevel => .privilegeLevel

/-- A new value has no bit of a sibling, so the siblings are what was read. -/
theorem authByte_of {which : Shared} {new : UInt8} {old : Config}
    (hnew : ∀ g, (sharedField which).Sibling g → g.of [new] = 0)
    (hold : old.privilegeLevel &&& 0x0f = old.privilegeLevel) {g : Field}
    (hg : (sharedField which).Sibling g) : g.of [authByte which new old] = g.get old := by
  have h80 : old.privilegeLevel &&& 0x80 = 0 := by
    rw [← hold, UInt8.and_assoc]
    exact UInt8.and_zero
  have h40 : old.privilegeLevel &&& 0x40 = 0 := by
    rw [← hold, UInt8.and_assoc]
    exact UInt8.and_zero
  have hmasks : (0x40 : UInt8) &&& 0x0f = 0 ∧ (0x80 : UInt8) &&& 0x0f = 0 ∧
      (0x40 : UInt8) &&& 0x80 = 0 ∧ (0x80 : UInt8) &&& 0x40 = 0 := by decide
  have hzero := hnew g hg
  clear hnew
  obtain ⟨hne, hsel⟩ := hg
  unfold authByte
  cases he : old.forceEncryption <;> cases ha : old.forceAuthentication <;>
    cases which <;> cases g <;>
    simp_all [Field.of, Field.get, sharedField, Field.selector, or_and]

/-- The values that the names of a shared byte stand for. -/
def newValues : Shared → List UInt8
  | .forceEncryption => [0x80, 0]
  | .forceAuthentication => [0x40, 0]
  | .privilegeLevel => [2, 3, 4, 5]

theorem newValues_clear {which : Shared} {new : UInt8} (hnew : new ∈ newValues which) {g : Field}
    (hg : (sharedField which).Sibling g) : g.of [new] = 0 := by
  obtain ⟨hne, hsel⟩ := hg
  cases which <;> cases g <;> simp_all [sharedField, Field.selector, Field.of, newValues]
  all_goals rcases hnew with rfl | rfl | rfl | rfl <;> decide

theorem mem_of_named {names : List (List UInt8 × UInt8)} {new : UInt8}
    (h : named names value = some new) : new ∈ names.map Prod.snd := by
  obtain ⟨l₁, l₂, hl, -⟩ := List.lookup_eq_some_iff.mp h
  rw [hl]
  simp

theorem authSetting_ok {which : Shared} {names : List (List UInt8 × UInt8)} {s : Settings}
    (hnames : names.map Prod.snd = newValues which)
    (h : authSetting B channel port guarded which names value w = .ok (some s, w')) :
    ∃ old, getSolInfo B channel port w = .ok (some old, w') ∧
      (old.privilegeLevel &&& 0x0f = old.privilegeLevel →
        Carries (sharedField which) guarded old s) := by
  unfold authSetting at h
  rcases hv : named names value with _ | new
  · rw [hv] at h
    exact absurd (pure_ok.mp h).1 (by simp)
  rw [hv] at h
  obtain ⟨o, t, ht, h⟩ := bind_ok.mp h
  rcases o with _ | old
  · exact absurd (pure_ok.mp h).1 (by simp)
  obtain ⟨hs, rfl⟩ := pure_ok.mp h
  obtain rfl := Option.some.inj hs
  refine ⟨old, ht, fun hold => ⟨rfl, by cases which <;> rfl, Nat.le_succ 2, fun g hg => ?_⟩⟩
  have hnew : new ∈ newValues which := hnames ▸ mem_of_named hv
  exact authByte_of (fun g hg => newValues_clear hnew hg) hold hg

theorem pairSetting_ok {f : Field} {min max : UInt8} {first : Bool} {other : Config → UInt8}
    {s : Settings} (hother : ∀ g, f.Sibling g → ∀ old x,
      g.of (if first then [x, other old] else [other old, x]) = g.get old)
    (h : pairSetting B channel port guarded f.selector min max first other value w =
      .ok (some s, w')) :
    ∃ old, getSolInfo B channel port w = .ok (some old, w') ∧ Carries f guarded old s := by
  unfold pairSetting at h
  rcases hv : isValidU8 value min max with _ | new
  · rw [hv] at h
    exact absurd (pure_ok.mp h).1 (by simp)
  rw [hv] at h
  obtain ⟨o, t, ht, h⟩ := bind_ok.mp h
  rcases o with _ | old
  · exact absurd (pure_ok.mp h).1 (by simp)
  obtain ⟨hs, rfl⟩ := pure_ok.mp h
  obtain rfl := Option.some.inj hs
  refine ⟨old, ht, rfl, rfl, Nat.le_add_left 2 2, fun g hg => ?_⟩
  rw [← hother g hg old new]
  cases first <;> rfl

theorem settings_ok {f : Field} {s : Settings}
    (h : settings B channel port f.name value guarded w = .ok (some s, w')) :
    ∃ old, getSolInfo B channel port w = .ok (some old, w') ∧
      (old.privilegeLevel &&& 0x0f = old.privilegeLevel → Carries f guarded old s) := by
  -- the sibling of one of two bytes is the other byte
  have hpair : ∀ {f : Field} {min max : UInt8} {first : Bool} {other : Config → UInt8},
      (∀ g, f.Sibling g → ∀ old x,
        g.of (if first then [x, other old] else [other old, x]) = g.get old) →
      pairSetting B channel port guarded f.selector min max first other value w =
        .ok (some s, w') → ∃ old, getSolInfo B channel port w = .ok (some old, w') ∧
          (old.privilegeLevel &&& 0x0f = old.privilegeLevel → Carries f guarded old s) := by
    intro f min max first other hother h
    obtain ⟨old, ho, hc⟩ := pairSetting_ok hother h
    exact ⟨old, ho, fun _ => hc⟩
  cases f with
  | forceEncryption => exact authSetting_ok (w := w) rfl h
  | forceAuthentication => exact authSetting_ok (w := w) rfl h
  | privilegeLevel => exact authSetting_ok (w := w) rfl h
  | characterAccumulateLevel =>
    exact hpair (f := .characterAccumulateLevel) (fun g hg _ _ => hg.eq_partner (by decide) ▸ rfl) h
  | characterSendThreshold =>
    exact hpair (f := .characterSendThreshold) (fun g hg _ _ => hg.eq_partner (by decide) ▸ rfl) h
  | retryCount => exact hpair (f := .retryCount) (fun g hg _ _ => hg.eq_partner (by decide) ▸ rfl) h
  | retryInterval =>
    exact hpair (f := .retryInterval) (fun g hg _ _ => hg.eq_partner (by decide) ▸ rfl) h

/-! ### Writing -/

/-- A part of the state is what it was, or it was overwritten with `v`. -/
def overwrites {σ τ : Type} (f : σ → τ) (v : τ) : Frame σ where
  rel s t := f t = f s ∨ f t = v
  refl _ := .inl rfl
  trans := by
    rintro s t u h1 (h2 | h2)
    · rwa [h2]
    · exact .inr h2

section
variable {F : Frame (CmdWorld Unit β)} {s : Settings}

theorem moves_setInProgress (hprogress : ∀ code, Moves F
    (sendrecv B (progressRequest channel code))) (code :
    UInt8) : Moves F (setInProgress B channel code) := by
  refine .bind (hprogress code) fun o => ?_
  rcases o with _ | r
  · exact .pure _
  · exact .pure _

theorem moves_setLocked (hprogress : ∀ code, Moves F (sendrecv B (progressRequest channel code)))
    (hparam : Moves F (sendrecv B (paramRequest channel s))) : Moves F (setLocked B channel s) := by
  have hset := moves_setInProgress hprogress
  refine .bind hparam fun o => ?_
  rcases o with _ | r
  · exact .pure _
  refine .ite (fun _ => .ite (fun _ => ?_) fun _ => .pure _) fun _ =>
    .ite (fun _ => ?_) fun _ => .pure _
  · exact .bind (hset 0) fun _ => .pure _
  · exact .bind (hset 2) fun _ => hset 0

/-- Once the setting is known, `setParam` sends it and the requests for the lock. -/
theorem setParam_split {param : List UInt8} {rc : ℤ}
    (h : setParam B channel port param value guarded w = .ok (rc, w')) :
    ∃ o t, settings B channel port param value guarded w = .ok (o, t) ∧ (o = none → w' = t) ∧
      ∀ s, o = some s → ∀ F : Frame (CmdWorld Unit β),
        (∀ code, Moves F (sendrecv B (progressRequest channel code))) →
        Moves F (sendrecv B (paramRequest channel s)) → F.rel t w' := by
  obtain ⟨o, t, ht, h⟩ := bind_ok.mp h
  refine ⟨o, t, ht, ?_, ?_⟩
  · rintro rfl
    exact (pure_ok.mp h).2.symm
  · rintro s rfl F hprogress hparam
    have hlocked := moves_setLocked hprogress hparam
    refine Moves.rel (.ite (fun _ => ?_) fun _ => hlocked) h
    exact .bind (moves_setInProgress hprogress 1) fun _ => .ite (fun _ => .pure _) fun _ => hlocked

end

/-- A program moves within a frame that allows every answer to its question. -/
theorem moves_sendrecv {F : Frame (CmdWorld Unit β)} {q : Command}
    (h : ∀ w : CmdWorld Unit β, F.rel w (w.asked B q)) : Moves F (sendrecv B q) := by
  intro w r w' hx
  obtain ⟨-, rfl⟩ := ask_ok.mp hx
  exact h w

theorem progressRequest_ne_param {code i : UInt8} (hi : i ≠ 0) (v : List UInt8) :
    progressRequest channel code ≠ setRequest (channel :: i :: v) := by
  intro he
  simp only [progressRequest, setRequest, Command.mk.injEq, List.cons.injEq, true_and] at he
  exact hi he.1.symm

theorem setParam_writes (S : Storing B channel) {param : List UInt8} {rc : ℤ}
    (h : setParam B channel port param value guarded w = .ok (rc, w')) :
    ∃ o t, settings B channel port param value guarded w = .ok (o, t) ∧ (o = none → w' = t) ∧
      ∀ s, o = some s → s.selector ≠ 0 → 2 ≤ s.len →
        (∃ evs, w'.log = t.log ++ evs ∧ ∀ x ∈ evs,
          (∃ code, x.1 = progressRequest channel code) ∨ x.1 = paramRequest channel s) ∧
        (S.held w'.device s.selector = S.held t.device s.selector ∨
          S.held w'.device s.selector = bytes s) := by
  obtain ⟨o, t, ht, hnone, hsome⟩ := setParam_split h
  refine ⟨o, t, ht, hnone, fun s hs hsel hlen => ⟨?_, ?_⟩⟩
  · refine hsome s hs (Says fun x => (∃ code, x.1 = progressRequest channel code) ∨
      x.1 = paramRequest channel s) (fun code => ?_) ?_
    · exact Says.ask fun _ => .inl ⟨code, rfl⟩
    · exact Says.ask fun _ => .inr rfl
  · refine hsome s hs (overwrites (fun w => S.held w.device s.selector) (bytes s))
      (fun code => ?_) ?_
    · refine moves_sendrecv fun w => .inl ?_
      exact (S.step _ _ _ hsel).resolve_right (progressRequest_ne_param hsel _)
    · refine moves_sendrecv fun w => ?_
      rcases S.step w.device (paramRequest channel s) s.selector hsel with hsame | hset
      · exact .inl hsame
      · -- the request says what is held now
        rw [paramRequest_eq hlen] at hset
        simp only [setRequest, Command.mk.injEq, List.cons.injEq, true_and] at hset
        refine .inr ?_
        rw [paramRequest_eq hlen]
        exact hset.symm

/-- A parameter that is written keeps the siblings of the field exactly if it was read well or they
were zero. -/
theorem setParam_keeps_iff (S : Storing B channel) (port : Option UInt16) (f : Field)
    (value : List UInt8) (guarded : Bool) (w : CmdWorld Unit β) : ∃ rc w' evs,
      setParam B channel port f.name value guarded w = .ok (rc, w') ∧ w'.log = w.log ++ evs ∧
      (S.Written f.selector evs w'.device →
        (S.Kept f w.device w'.device ↔ ReadWell channel f.selector evs ∨ S.Blank f w.device)) := by
  obtain ⟨rc, w', h⟩ := returns_of_never
    (x := setParam B channel port f.name value guarded) (fun _ => never_setParam) w
  obtain ⟨o, t, ht, hnone, hsome⟩ := setParam_writes S h
  obtain ⟨pre, hpre, hreads⟩ := moves_settings _ _ _ ht
  have hno : ∀ x ∈ pre, ∀ data, x.1 ≠ setRequest data := by
    intro x hx data he
    have hcmd := hreads x hx
    rw [reads, he] at hcmd
    cases hcmd
  rcases o with _ | s
  · -- nothing is written
    obtain rfl := hnone rfl
    refine ⟨rc, w', pre, h, hpre, fun hw => ?_⟩
    obtain ⟨v, o, hmem, -⟩ := hw
    exact (hno _ hmem _ rfl).elim
  obtain ⟨old, hinfo, hcarries⟩ := settings_ok ht
  obtain ⟨evs, hlog, hheld, hfields, hpriv⟩ := getSolInfo_ok S hinfo
  obtain rfl := List.append_cancel_left (hlog.symm.trans hpre)
  obtain ⟨-, hsel, hlen, hsiblings⟩ := hcarries hpriv
  obtain ⟨⟨post, hpost, hsaid⟩, -⟩ := hsome s rfl (hsel ▸ f.selector_ne) hlen
  refine ⟨rc, w', evs ++ post, h, by rw [hpost, hlog, List.append_assoc], fun hw => ?_⟩
  -- the only request that sets the parameter is the one with the bytes of the setting
  have hbytes : S.held w'.device f.selector = bytes s := by
    obtain ⟨v, o, hmem, hv⟩ := hw
    rcases List.mem_append.mp hmem with hmem | hmem
    · exact (hno _ hmem _ rfl).elim
    rcases hsaid _ hmem with ⟨code, he⟩ | he
    · exact (progressRequest_ne_param f.selector_ne _ he.symm).elim
    · rw [paramRequest_eq hlen, hsel] at he
      simp only [setRequest, Command.mk.injEq, List.cons.injEq, true_and] at he
      rw [hv, he]
  have hwell : ReadWell channel f.selector (evs ++ post) ↔ ReadWell channel f.selector evs := by
    refine exists_congr fun r => and_congr_left fun _ => ?_
    refine ⟨fun hmem => (List.mem_append.mp hmem).resolve_right fun hmem => ?_,
      List.mem_append_left _⟩
    rcases hsaid _ hmem with ⟨code, he⟩ | he
    · exact getRequest_ne_setRequest _ _ he
    · exact getRequest_ne_setRequest _ _ he
  have hkept : S.Kept f w.device w'.device ↔
      ∀ g, f.Sibling g → g.get old = g.of (S.held w.device f.selector) := by
    refine forall₂_congr fun g hg => ?_
    rw [hbytes, hsiblings g hg]
  rw [hwell, hkept]
  by_cases hr : ReadWell channel f.selector evs
  · refine iff_of_true (fun g hg => ?_) (.inl hr)
    rw [← hg.2]
    exact (hfields g).1 (hg.2.symm ▸ hr)
  · rw [or_iff_right hr]
    refine forall₂_congr fun g hg => ?_
    rw [(hfields g).2 (hg.2.symm ▸ hr), eq_comm]

/-- A BMC that stores the parameters and says of one of them that it does not support it. -/
def shy : Bmc (UInt8 → List UInt8) := fun held q =>
  match q.data with
  | c :: i :: v =>
    if q = setRequest (1 :: i :: v) then (some {}, Function.update held i v)
    else if i = 2 then (some { ccode := 0x80 }, held)
    else (some (Reply.of (c :: held i)), held)
  | _ => (none, held)

theorem shy_get (held : UInt8 → List UInt8) (i : UInt8) : shy held (getRequest 1 i) =
    (some (if i = 2 then { ccode := 0x80 } else Reply.of (1 :: held i)), held) := by
  unfold shy
  simp only [getRequest, setRequest, Command.mk.injEq]
  split_ifs <;> simp_all

theorem shy_read (held : UInt8 → List UInt8) (i : UInt8) (r : Reply) (_ : i ≠ 0)
    (h : (shy held (getRequest 1 i)).1 = some r) (hc : r.ccode = 0)
    (_ : r.dataLen = expectedLen i.toNat) :
    r.data 1 = (held i).getD 0 0 ∧ (r.dataLen = 3 → r.data 2 = (held i).getD 1 0) := by
  rw [shy_get] at h
  split_ifs at h with hi
  · obtain rfl := Option.some.inj h
    cases hc
  · obtain rfl := Option.some.inj h
    exact ⟨rfl, fun _ => rfl⟩

theorem shy_step (held : UInt8 → List UInt8) (q : Command) (i : UInt8) (_ : i ≠ 0) :
    (shy held q).2 i = held i ∨ q = setRequest (1 :: i :: (shy held q).2 i) := by
  unfold shy
  split
  · rename_i c j v hq
    split_ifs with h
    · by_cases hij : j = i
      · subst hij
        exact .inr (by simpa using h)
      · exact .inl (Function.update_of_ne (Ne.symm hij) _ _)
    · exact .inl rfl
    · exact .inl rfl
  · exact .inl rfl

def shyStoring : Storing shy 1 where
  held := id
  read := shy_read
  step := shy_step

/-- Parameter 2 holds the privilege level of an administrator. -/
def administrator : UInt8 → List UInt8 := fun i =>
  if i = 2 then [4] else if i = 3 ∨ i = 4 ∨ i = 8 then [1, 1] else [1]

/-- Encryption is forced, and the privilege level is gone. -/
theorem setParam_forgets : ∃ rc w',
    setParam shy 1 (some 623) (ascii "force-encryption")
      (ascii "true") true ⟨(), administrator, []⟩ =
        .ok (rc, w') ∧
      shyStoring.Written 2 w'.log w'.device ∧
      ¬ shyStoring.Kept .forceEncryption administrator w'.device := by
  refine ⟨0, _, rfl, ⟨[0x80], some {}, ?_, rfl⟩, fun h => ?_⟩
  · iterate 10 refine List.mem_cons_of_mem _ ?_
    exact List.mem_cons_self
  · have hlevel := h .privilegeLevel ⟨by decide, rfl⟩
    revert hlevel
    decide

end Ipmitool.Cmd.SolSiblings
