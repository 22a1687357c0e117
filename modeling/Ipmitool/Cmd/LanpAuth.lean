import Ipmitool.Cmd.Lanp
import Mathlib.Data.List.TakeWhile

/-! # The lists of `lan set <ch> auth`

`lan set <ch> auth ADMIN PASSWORD,MD5` names levels and authentication types in two lists. `authSet`
reads the parameter, sets the bytes of the levels to the bits of the types, and writes the result
back. The two lists are split at their commas, but a token is compared by what is left of the string
from its beginning on (`suffixes`), so that it is recognised only if no comma follows: the bits are
those of the last type, and they are stored for the last level. -/

namespace Ipmitool.Cmd.LanpAuth

open Ipmitool.Lib.Interleave Ipmitool.Cmd.Lanp

/-! ### Tokens -/

/-- The tokens of a list. -/
def tokens (s : List Char) : List (List Char) := s.splitOn ','

/-- The last token of a list. -/
def lastToken (s : List Char) : List Char := (tokens s).getLastD []

theorem tokens_ne_nil (s : List Char) : tokens s ≠ [] := List.splitOn_ne_nil ',' s

theorem tokens_comma (s : List Char) : tokens (',' :: s) = [] :: tokens s := by
  simp [tokens, List.splitOn_cons_eq_if_modifyHead]

theorem tokens_cons {c : Char} (hc : c ≠ ',') (s : List Char) :
    tokens (c :: s) = (tokens s).modifyHead (List.cons c) := by
  simp [tokens, List.splitOn_cons_eq_if_modifyHead, hc]

theorem lastToken_mem (s : List Char) : lastToken s ∈ tokens s := by
  rw [lastToken, List.getLastD_eq_getLast?, List.getLast?_eq_some_getLast (tokens_ne_nil s)]
  exact List.getLast_mem (tokens_ne_nil s)

theorem takeWhile_suffixes : ∀ s : List Char, (suffixes s).map (·.takeWhile (· ≠ ',')) = tokens s
  | [] => rfl
  | c :: s => by
    have ih := takeWhile_suffixes s
    by_cases hc : c = ','
    · rw [hc, tokens_comma, ← ih]
      simp [suffixes, behindCommas]
    · rw [tokens_cons hc, ← ih]
      simp [suffixes, behindCommas, hc]

/-- All but the last of what the tokens are compared by have a comma. -/
theorem suffixes_eq_append : ∀ s : List Char, ∃ init last, suffixes s = init ++ [last] ∧
    ',' ∉ last ∧ ∀ x ∈ init, ',' ∈ x
  | [] => ⟨[], [], rfl, by simp, nofun⟩
  | c :: s => by
    obtain ⟨init, last, hs, hlast, hinit⟩ := suffixes_eq_append s
    by_cases hc : c = ','
    · refine ⟨(c :: s) :: init, last, ?_, hlast, ?_⟩
      · rw [List.cons_append, ← hs]
        simp [suffixes, behindCommas, hc]
      · exact List.forall_mem_cons.mpr ⟨by simp [hc], hinit⟩
    · have hcons : suffixes (c :: s) = (c :: s) :: behindCommas s := by
        simp [suffixes, behindCommas, hc]
      rw [suffixes] at hs
      rcases init with _ | ⟨x, init⟩
      · -- no comma follows
        obtain ⟨rfl, hnil⟩ := List.cons_eq_cons.mp hs
        refine ⟨[], c :: s, by rw [hcons, hnil]; rfl, ?_, nofun⟩
        exact List.not_mem_cons_of_ne_of_not_mem (Ne.symm hc) hlast
      · obtain ⟨rfl, htail⟩ := List.cons_eq_cons.mp hs
        obtain ⟨hx, hinit⟩ := List.forall_mem_cons.mp hinit
        refine ⟨(c :: s) :: init, last, by rw [hcons, htail]; rfl, hlast, ?_⟩
        exact List.forall_mem_cons.mpr ⟨List.mem_cons_of_mem c hx, hinit⟩

theorem suffixes_eq_lastToken (s : List Char) : ∃ init, suffixes s = init ++ [lastToken s] ∧
    ∀ x ∈ init, ',' ∈ x := by
  obtain ⟨init, last, hs, hlast, hinit⟩ := suffixes_eq_append s
  have htake : last.takeWhile (· ≠ ',') = last :=
    List.takeWhile_eq_self_iff.mpr fun x hx => decide_eq_true fun h => hlast (h ▸ hx)
  have hl : lastToken s = last := by
    rw [lastToken, ← takeWhile_suffixes, hs, List.map_append, List.map_singleton, htake]
    simp
  rw [hl]
  exact ⟨init, hs, hinit⟩

/-! ### Names -/

/-- A string with a comma is not one of some names without. -/
theorem eqlIgnoreCase_comma {x : List Char} (hx : ',' ∈ x) (names : List (List Char))
    (hnames : ∀ name ∈ names, ',' ∉ name.map Char.toLower) :
    ∀ name ∈ names, eqlIgnoreCase x name = false := by
  intro name hname
  rw [eqlIgnoreCase, beq_eq_false_iff_ne]
  intro h
  have hmem : Char.toLower ',' ∈ x.map Char.toLower := List.mem_map_of_mem hx
  rw [h] at hmem
  exact hnames name hname hmem

theorem typeBit_comma {x : List Char} (hx : ',' ∈ x) : typeBit x = 0 := by
  have h := eqlIgnoreCase_comma hx ["none".toList, "md2".toList, "md5".toList,
    "password".toList, "key".toList, "oem".toList] (by decide +kernel)
  simp only [List.forall_mem_cons] at h
  obtain ⟨hnone, hmd2, hmd5, hpassword, hkey, hoem, -⟩ := h
  rw [typeBit, hnone, hmd2, hmd5, hpassword, hkey, hoem]
  rfl

theorem levelIndex_comma {x : List Char} (hx : ',' ∈ x) : levelIndex x = none := by
  have h := eqlIgnoreCase_comma hx ["callback".toList, "user".toList, "operator".toList,
    "admin".toList] (by decide +kernel)
  simp only [List.forall_mem_cons] at h
  obtain ⟨hcallback, huser, hoperator, hadmin, -⟩ := h
  rw [levelIndex, hcallback, huser, hoperator, hadmin]
  rfl

theorem typeBit_mem (s : List Char) : typeBit s ∈ ([0, 1, 2, 4, 16, 32] : List UInt8) := by
  unfold typeBit
  split_ifs <;> decide

theorem levelIndex_lt {s : List Char} {i : ℕ} (h : levelIndex s = some i) : i < 4 := by
  unfold levelIndex at h
  split_ifs at h <;> cases h <;> decide

/-! ### What the lists do and what they say -/

theorem foldl_or_absorb {ts : List (List Char)} {b : UInt8} (h : ∀ t ∈ ts, b ||| typeBit t = b) :
    ts.foldl (fun bits t => bits ||| typeBit t) b = b := by
  induction ts with
  | nil => rfl
  | cons t ts ih =>
    obtain ⟨ht, hts⟩ := List.forall_mem_cons.mp h
    rw [List.foldl_cons, ht]
    exact ih hts

theorem or_foldl {ts : List (List Char)} {c : UInt8} : ∀ {b : UInt8},
    c ||| b = b ∨ (∃ t ∈ ts, typeBit t = c) →
      c ||| ts.foldl (fun bits t => bits ||| typeBit t) b =
        ts.foldl (fun bits t => bits ||| typeBit t) b := by
  induction ts with
  | nil => exact fun h => h.resolve_right fun ⟨_, ht, _⟩ => nomatch ht
  | cons t ts ih =>
    intro b h
    refine ih ?_
    rcases h with hb | ⟨t', ht', rfl⟩
    · exact .inl (by rw [← UInt8.or_assoc, hb])
    · rcases List.mem_cons.mp ht' with rfl | ht'
      · refine .inl ?_
        show typeBit t' ||| (b ||| typeBit t') = b ||| typeBit t'
        rw [UInt8.or_comm b, ← UInt8.or_assoc, UInt8.or_self]
      · exact .inr ⟨t', ht', rfl⟩

theorem authBits_eq (types : List Char) : authBits types = typeBit (lastToken types) := by
  obtain ⟨init, hs, hinit⟩ := suffixes_eq_lastToken types
  have hzero : init.foldl (fun bits s => bits ||| typeBit s) 0 = 0 :=
    foldl_or_absorb fun x hx => by rw [typeBit_comma (hinit x hx)]; rfl
  rw [authBits, hs, List.foldl_append, hzero]
  exact UInt8.zero_or

theorem authLevels_eq (level : List Char) :
    authLevels level = (levelIndex (lastToken level)).toList := by
  obtain ⟨init, hs, hinit⟩ := suffixes_eq_lastToken level
  have hnil : init.filterMap levelIndex = [] :=
    List.filterMap_eq_nil_iff.mpr fun x hx => levelIndex_comma (hinit x hx)
  rw [authLevels, hs, List.filterMap_append, hnil, List.nil_append]
  cases hl : levelIndex (lastToken level) <;> simp [hl]

/-- The bits of all types. -/
def union (types : List Char) : UInt8 := (tokens types).foldl (fun bits t => bits ||| typeBit t) 0

/-- Is the level with this index listed? -/
def Listed (level : List Char) (i : ℕ) : Prop := ∃ l ∈ tokens level, levelIndex l = some i

instance (level : List Char) (i : ℕ) : Decidable (Listed level i) :=
  inferInstanceAs (Decidable (∃ l ∈ tokens level, levelIndex l = some i))

/-- The bytes of the listed levels are the bits of all types, and the others are kept. -/
def wanted (level types : List Char) (data : List UInt8) : List UInt8 :=
  data.mapIdx fun i b => if Listed level i then union types else b

/-- The two lists are of valid names. -/
def Valid (level types : List Char) : Prop :=
  (∀ l ∈ tokens level, levelIndex l ≠ none) ∧ ∀ t ∈ tokens types, typeBit t ≠ 0

instance (level types : List Char) : Decidable (Valid level types) := instDecidableAnd

/-- All types have the bit of the last one, and every level but the last one has this byte
already. -/
def Alike (level types : List Char) (data : List UInt8) : Prop :=
  (∀ t ∈ tokens types, typeBit t = typeBit (lastToken types)) ∧
    ∀ i, Listed level i → levelIndex (lastToken level) ≠ some i →
      data[i]? = some (typeBit (lastToken types))

theorem typeBit_of_or {s t : List Char} (hs : typeBit s ≠ 0)
    (h : typeBit s ||| typeBit t = typeBit t) : typeBit s = typeBit t := by
  have hall : ∀ a ∈ ([0, 1, 2, 4, 16, 32] : List UInt8), ∀ b ∈ ([0, 1, 2, 4, 16, 32] : List UInt8),
      a ≠ 0 → a ||| b = b → a = b := by
    decide +kernel
  exact hall _ (typeBit_mem s) _ (typeBit_mem t) hs h

/-- The union of the bits is the last one if they are all the same. -/
theorem union_eq_iff {types : List Char} (h : ∀ t ∈ tokens types, typeBit t ≠ 0) :
    union types = typeBit (lastToken types) ↔
      ∀ t ∈ tokens types, typeBit t = typeBit (lastToken types) := by
  constructor
  · intro hunion t ht
    have hor : typeBit t ||| union types = union types := or_foldl (.inr ⟨t, ht, rfl⟩)
    rw [hunion] at hor
    exact typeBit_of_or (h t ht) hor
  · intro hall
    rw [union]
    obtain ⟨t, ts, hts⟩ := List.exists_cons_of_ne_nil (tokens_ne_nil types)
    rw [hts] at hall ⊢
    obtain ⟨ht, hall⟩ := List.forall_mem_cons.mp hall
    rw [List.foldl_cons, UInt8.zero_or, ht]
    exact foldl_or_absorb fun t ht => by rw [hall t ht, UInt8.or_self]

/-- The code stores the bits of the last type for the last level. -/
theorem authData_eq {level types : List Char} {i : ℕ} (hi : levelIndex (lastToken level) = some i)
    (data : List UInt8) : authData level types data = data.set i (typeBit (lastToken types)) := by
  rw [authData, authLevels_eq, hi, authBits_eq]
  rfl

theorem authData_wanted_iff {level types : List Char} {data : List UInt8}
    (hvalid : Valid level types) (hlen : 4 ≤ data.length) :
    authData level types data = wanted level types data ↔ Alike level types data := by
  obtain ⟨hlevel, htypes⟩ := hvalid
  obtain ⟨i, hi⟩ := Option.ne_none_iff_exists'.mp (hlevel _ (lastToken_mem level))
  have hlisted : Listed level i := ⟨_, lastToken_mem level, hi⟩
  have hlt : i < data.length := (levelIndex_lt hi).trans_le hlen
  rw [authData_eq hi, Alike, ← union_eq_iff htypes]
  constructor
  · intro h
    have hat : ∀ j : ℕ, (data.set i (typeBit (lastToken types)))[j]? =
        (wanted level types data)[j]? :=
      fun j => congrArg (fun l => l[j]?) h
    have hunion : union types = typeBit (lastToken types) := by
      have hati := hat i
      rw [List.getElem?_set_self hlt] at hati
      simpa [wanted, hlt, hlisted] using hati.symm
    refine ⟨hunion, fun j hj hne => ?_⟩
    rw [hi] at hne
    obtain ⟨l, -, hl⟩ := id hj
    have hjlt : j < data.length := (levelIndex_lt hl).trans_le hlen
    have hatj := hat j
    rw [List.getElem?_set_ne fun h => hne (congrArg some h)] at hatj
    rw [hatj, ← hunion]
    simp [wanted, hjlt, hj]
  · rintro ⟨hunion, hothers⟩
    refine List.ext_getElem? fun j => ?_
    by_cases hji : i = j
    · subst hji
      rw [List.getElem?_set_self hlt, ← hunion]
      simp [wanted, hlt, hlisted]
    · rw [List.getElem?_set_ne hji]
      by_cases hj : Listed level j
      · have hsame := hothers j hj (by rw [hi]; exact fun h => hji (Option.some.inj h))
        obtain ⟨hjlt, hjb⟩ := List.getElem?_eq_some_iff.mp hsame
        rw [hsame, ← hunion]
        simp [wanted, hjlt, hj]
      · simp [wanted, hj]

/-! ### Runs -/

/-- What a write of the parameter writes. -/
def written : Query → Option (List UInt8)
  | .set .authEnable value => some value
  | _ => none

/-- All that a run writes. -/
def writes (xs : List (Query × Reply)) : List (List UInt8) := xs.filterMap fun x => written x.1

/-- In every run in which `data` is read, the value that the lists ask for is written, and no
other. -/
def Meets (level types : List Char) (data : List UInt8) : Prop :=
  ∀ revision xs ok,
    Run (authSet level types) ((.get .authEnable 0, some ⟨0, revision :: data⟩) :: xs) ok →
      writes xs ≠ [] ∧ ∀ value ∈ writes xs, value = wanted level types (data.take 5)

/-- What is written, if anything is. -/
def Writes (value : List UInt8) (q : Query) : Prop := ∀ v, written q = some v → v = value

section
variable {value : List UInt8}

theorem only_get (p : Param) (selector : UInt8) : Only (Writes value) (get p selector) :=
  Only.bind (fun _ => Only.pure _) (Only.query nofun)

theorem only_retry {p : Param} {new : List UInt8} (h : Writes value (.set p new)) :
    ∀ n, Only (Writes value) (retry p new n)
  | 0 => Only.pure _
  | n + 1 => by
    have ih := only_retry h n
    refine Only.bind (fun next => ?_) (Only.query h)
    rcases next with _ | next
    · exact ih
    · show Only _ (if next.ccode = 0 then _ else _)
      split_ifs
      · exact Only.pure _
      · exact ih

theorem only_verify (p : Param) (new : List UInt8) : ∀ n, Only (Writes value) (verify p new n)
  | 0 => Only.pure _
  | n + 1 => by
    refine Only.bind (fun check => ?_) (only_get p 0)
    split_ifs
    · exact Only.pure _
    · exact only_verify p new n

theorem only_settle {p : Param} {new : List UInt8} (h : Writes value (.set p new)) (ccode : UInt8) :
    Only (Writes value) (settle p new ccode) := by
  unfold settle
  split_ifs
  · exact Only.pure _
  · exact only_retry h 10
  · exact Only.pure _

theorem only_rawSet {p : Param} {new : List UInt8} (h : Writes value (.set p new)) (wait : Bool) :
    Only (Writes value) (rawSet p new wait) := by
  unfold rawSet
  by_cases hlen : 30 < new.length
  · rw [if_pos hlen]
    exact Only.pure _
  rw [if_neg hlen]
  refine Only.bind (fun rsp => ?_) (Only.query h)
  rcases rsp with _ | rsp
  · exact Only.pure _
  cases wait with
  | false =>
    show Only _ (if rsp.ccode ≠ 0 then _ else _)
    split_ifs <;> exact Only.pure _
  | true =>
    refine Only.bind (fun sent => ?_) (only_settle h rsp.ccode)
    cases sent with
    | false => exact Only.pure _
    | true =>
      refine Only.bind (fun seen => ?_) (only_verify p new 11)
      cases seen <;> exact Only.pure _

theorem writes_progress (new : List UInt8) : Writes value (.set .progress new) :=
  fun _ h => by cases h

theorem only_unlocked : Only (Writes value) unlocked := by
  refine Only.bind (fun state => ?_) (only_get .progress 0)
  split <;> exact Only.pure _

theorem only_lockLoop : ∀ n, Only (Writes value) (lockLoop n)
  | 0 => Only.bind (fun _ => Only.pure _) only_unlocked
  | n + 1 => by
    refine Only.bind (fun free => ?_) only_unlocked
    cases free with
    | false => exact Only.pure _
    | true => exact Only.bind (fun _ => only_lockLoop n) (only_rawSet (writes_progress _) false)

theorem only_set (value : List UInt8) : Only (Writes value) (set .authEnable value true) := by
  have hvalue : Writes value (.set .authEnable value) := fun v hv => (Option.some.inj hv).symm
  refine Only.bind (fun _ => ?_) (only_lockLoop 3)
  refine Only.bind (fun _ => ?_) (only_rawSet hvalue true)
  refine Only.bind (fun _ => ?_) (only_rawSet (writes_progress _) false)
  exact Only.bind (fun _ => Only.pure _) (only_rawSet (writes_progress _) false)

end

theorem set_writes {value : List UInt8} (hlen : value.length ≤ 30) {xs : List (Query × Reply)}
    {ok : Bool} (h : Run (set .authEnable value true) xs ok) : value ∈ writes xs := by
  obtain ⟨ys, zs, -, rfl, -, hrest⟩ := Run.of_bind h
  obtain ⟨us, vs, result, rfl, hraw, -⟩ := Run.of_bind hrest
  have hmem : value ∈ writes us := by
    rw [rawSet, if_neg (not_lt.mpr hlen)] at hraw
    cases hraw with
    | ask _ => exact List.mem_cons_self
  simp only [writes, List.filterMap_append, List.mem_append]
  exact .inr (.inl hmem)

/-- The value that is read is changed and handed to `set`. -/
theorem authSet_eq (level types : List Char) : ∃ k : Reply → M Bool,
    authSet level types = .ask (.get .authEnable 0) k ∧
      ∀ revision data, 5 ≤ data.length → k (some ⟨0, revision :: data⟩) =
        set .authEnable (authData level types (data.take 5)) true := by
  refine ⟨_, rfl, fun revision data hlen => ?_⟩
  have hreq : required (some data) 5 = .ok data := if_neg (not_lt.mpr hlen)
  change Talk.bind (Talk.done (required (some data) 5)) _ = _
  rw [hreq]
  rfl

theorem length_authData (level types : List Char) (data : List UInt8) :
    (authData level types data).length = data.length := by
  rw [authData, authLevels_eq]
  cases levelIndex (lastToken level) <;> simp

/-- Every run writes what the code makes of the lists: is it what they say? -/
theorem meets_iff_authData {level types : List Char} {data : List UInt8} (hlen : 5 ≤ data.length) :
    Meets level types data ↔
      authData level types (data.take 5) = wanted level types (data.take 5) := by
  obtain ⟨k, hk, hset⟩ := authSet_eq level types
  have hdata : (authData level types (data.take 5)).length ≤ 30 := by
    rw [length_authData, List.length_take]
    omega
  have hrun : ∀ {revision xs ok}, Run (k (some ⟨0, revision :: data⟩)) xs ok →
      authData level types (data.take 5) ∈ writes xs ∧
        ∀ value ∈ writes xs, value = authData level types (data.take 5) := by
    intro revision xs ok h
    rw [hset revision data hlen] at h
    refine ⟨set_writes hdata h, fun value hvalue => ?_⟩
    obtain ⟨x, hx, hvalue⟩ := List.mem_filterMap.mp hvalue
    exact h.only (only_set _) x hx value hvalue
  unfold Meets
  rw [hk]
  constructor
  · intro h
    obtain ⟨xs, ok, hxs⟩ := exists_run (fun _ => none) (k (some ⟨0, 0 :: data⟩))
    exact (h 0 xs ok (.ask hxs)).2 _ (hrun hxs).1
  · rintro h revision xs ok (_ | hxs)
    obtain ⟨hmem, hall⟩ := hrun hxs
    rw [← h]
    exact ⟨List.ne_nil_of_mem hmem, hall⟩

/-- `lan set <ch> auth` writes what its lists say if all types have the bit of the last one, and
every level but the last one has that byte already. -/
theorem authSet_writes_iff {level types : List Char} {data : List UInt8}
    (hvalid : Valid level types) (hlen : 5 ≤ data.length) : Meets level types data ↔
    Alike level types data := by
  have hfive : 4 ≤ (data.take 5).length := by
    rw [List.length_take]
    omega
  rw [meets_iff_authData hlen, authData_wanted_iff hvalid hfive]
  refine and_congr_right fun _ => forall_congr' fun i => forall_congr' fun hi => ?_
  obtain ⟨l, -, hl⟩ := hi
  rw [List.getElem?_take_of_lt ((levelIndex_lt hl).trans (by decide))]

/-- A single type for the last of two levels, the first of which has it already. -/
theorem authSet_writes_iff_single :
    Meets "user,Admin".toList "md5".toList [0, 4, 2, 2, 0] ↔
      Alike "user,Admin".toList "md5".toList [0, 4, 2, 2, 0] :=
  authSet_writes_iff (by decide +kernel) (by decide)

/-- The example of the usage: `PASSWORD` is lost. -/
theorem authSet_loses_type :
    Valid "ADMIN".toList "PASSWORD,MD5".toList ∧
      ¬ Meets "ADMIN".toList "PASSWORD,MD5".toList [0, 0, 0, 0, 0] := by
  refine ⟨by decide +kernel, fun h => ?_⟩
  have hdata := (meets_iff_authData (by decide)).mp h
  exact absurd hdata (by decide +kernel)

end Ipmitool.Cmd.LanpAuth
