import Ipmitool.Hpm.Selection
import Ipmitool.Lib.PrefixCode

/-! # The action records of an image

An action record is a header of three bytes, and for an upload 31 bytes of details and the payload.
The checksum of the header is zero, or for an upload the checksum over header and details. The
length of the payload stands in the details, so the records are a prefix code (`actionCode`).

The parser finds the longest message of this code at the front of the bytes behind the header
(`recordsOf_longest`). So it succeeds if and only if all bytes up to the signature are the encodings
of records, and then it yields these records (`records_format`). -/

namespace Ipmitool.Hpm.Records

open Ipmitool.Lib Ipmitool.Lib.Bytes Ipmitool.Hpm.Image

/-! ### Actions -/

/-- An action record as it stands in an image. -/
inductive Action where
  | plain (kind mask check : UInt8)
  | upload (mask check : UInt8) (details payload : List UInt8)

/-- The bytes of an action. -/
def Action.bytes : Action → List UInt8
  | .plain kind mask check => [kind, mask, check]
  | .upload mask check details payload => [2, mask, check] ++ details ++ payload

/-- The length of the payload that the details state. -/
def stated (details : List UInt8) : ℕ :=
  (ofLe32 (details.getD 27 0) (details.getD 28 0) (details.getD 29 0) (details.getD 30 0)).toNat

/-- The format of an action. -/
def Action.Valid : Action → Prop
  | .plain kind mask check => (kind = 0 ∨ kind = 1) ∧ checksum [kind, mask, check] = 0
  | .upload mask check details payload => mask ≠ 0 ∧ details.length = 31 ∧
      payload.length = stated details ∧
        (checksum [2, mask, check] = 0 ∨ checksum ([2, mask, check] ++ details) = 0)

/-- What the parser makes of an action. -/
def Action.record : Action → Record
  | .plain kind mask _ => { kind, components := mask }
  | .upload mask _ details payload =>
    { kind := 2, components := mask, component := highest mask, version := details.take 6, payload }

/-- An action that keeps to the format. -/
abbrev Proper := { a : Action // a.Valid }

theorem bytes_ne_nil (a : Action) : a.bytes ≠ [] := by
  cases a <;> simp [Action.bytes]

theorem eq_of_bytes_append {a b : Action} {s t : List UInt8} (ha : a.Valid) (hb : b.Valid)
    (h : a.bytes ++ s = b.bytes ++ t) : a = b := by
  cases a with
  | plain kind mask check =>
    cases b with
    | plain kind' mask' check' =>
      simp only [Action.bytes, List.cons_append, List.cons.injEq] at h
      obtain ⟨rfl, rfl, rfl, -⟩ := h
      rfl
    | upload mask' check' details' payload' =>
      simp only [Action.bytes, List.cons_append, List.cons.injEq] at h
      rcases ha.1 with hk | hk <;> rw [h.1] at hk <;> exact absurd hk (by decide)
  | upload mask check details payload =>
    cases b with
    | plain kind' mask' check' =>
      simp only [Action.bytes, List.cons_append, List.cons.injEq] at h
      rcases hb.1 with hk | hk <;> rw [← h.1] at hk <;> exact absurd hk (by decide)
    | upload mask' check' details' payload' =>
      simp only [Action.bytes, List.cons_append, List.nil_append, List.append_assoc,
        List.cons.injEq, true_and] at h
      obtain ⟨rfl, rfl, h⟩ := h
      obtain ⟨rfl, hpayload⟩ := List.append_inj h (ha.2.1.trans hb.2.1.symm)
      obtain ⟨rfl, -⟩ := List.append_inj hpayload (ha.2.2.1.trans hb.2.2.1.symm)
      rfl

/-- The action records as a prefix code. -/
def actionCode : PrefixCode.Code Proper UInt8 where
  word a := a.1.bytes
  word_ne_nil a := bytes_ne_nil a.1
  eq_of_word_prefix a b h := by
    obtain ⟨t, ht⟩ := h
    exact Subtype.ext (eq_of_bytes_append a.2 b.2 (ht.trans (List.append_nil _).symm))

/-! ### One record -/

theorem stated_take (tail : List UInt8) : stated (tail.take 31) = stated tail := by
  simp [stated, List.getD_eq_getElem?_getD]

theorem next_cons (kind mask check : UInt8) (tail : List UInt8) :
    next (kind :: mask :: check :: tail) =
    if checksum [kind, mask, check] ≠ 0 ∧
        ¬ (kind = 2 ∧ 31 ≤ tail.length ∧ checksum ([kind, mask,
          check] ++ tail.take 31) = 0) then none
    else if kind = 0 ∨ kind = 1 then some ((Action.plain kind mask check).record, tail)
    else if kind ≠ 2 then none
    else if mask = 0 ∨ tail.length < 31 then none
    else if (tail.drop 31).length < stated (tail.take 31) then none
    else some ((Action.upload mask check (tail.take 31)
      ((tail.drop 31).take (stated (tail.take 31)))).record,
      (tail.drop 31).drop (stated (tail.take 31))) := by
  have hdrop : ∀ size, (kind :: mask :: check :: tail).drop (34 + size) =
      (tail.drop 31).drop size := by
    intro size
    rw [List.drop_drop, show 34 + size = 31 + size + 3 by omega]
    rfl
  have htake : (tail.take 31).take 6 = tail.take 6 := by simp [List.take_take]
  have hthree : ¬ tail.length + 1 + 1 + 1 < 3 := by omega
  have hless : (tail.length + 1 + 1 + 1 < 34) = (tail.length < 31) := by rw [eq_iff_iff]; omega
  have hsub : tail.length + 1 + 1 + 1 - 34 = tail.length - 31 := by omega
  simp only [next, hdrop, htake, hless, hsub, List.length_cons, hthree, if_false,
    List.getD_cons_zero, List.getD_cons_succ, List.take_succ_cons, List.take_zero,
    List.drop_succ_cons, List.drop_zero, List.cons_append, List.nil_append, Nat.reduceLeDiff,
    List.length_drop, Action.record, stated_take]
  by_cases hkind : kind = 2
  · subst hkind
    rfl
  · simp only [hkind, ne_eq, not_false_eq_true, if_true]

theorem next_bytes {a : Action} (ha : a.Valid) (rest : List UInt8) :
    next (a.bytes ++ rest) = some (a.record, rest) := by
  cases a with
  | plain kind mask check =>
    obtain ⟨hkind, hsum⟩ := ha
    rw [Action.bytes, List.cons_append, List.cons_append, List.cons_append,
      List.nil_append, next_cons,
      if_neg fun h => h.1 hsum, if_pos hkind]
  | upload mask check details payload =>
    obtain ⟨hmask, hlen, hstated, hsum⟩ := ha
    have htake : (details ++ (payload ++ rest)).take 31 = details := by rw [← hlen, List.take_left]
    have hdrop : (details ++ (payload ++ rest)).drop 31 = payload ++ rest := by
      rw [← hlen, List.drop_left]
    have hlong : 31 ≤ (details ++ (payload ++ rest)).length := by rw [List.length_append]; omega
    rw [Action.bytes, List.append_assoc, List.append_assoc, List.cons_append, List.cons_append,
      List.cons_append, List.nil_append, next_cons, htake, hdrop, if_neg, if_neg (by decide),
      if_neg (by decide), if_neg (by rw [not_or, Nat.not_lt]; exact ⟨hmask, hlong⟩), ← hstated,
      if_neg (by rw [List.length_append]; omega), List.take_left, List.drop_left]
    rintro ⟨hfirst, hall⟩
    exact hall ⟨rfl, hlong, hsum.resolve_left hfirst⟩

/-- Whatever the parser reads is an action that stands at the front. -/
theorem next_some {bytes rest : List UInt8} {r : Record} (h : next bytes = some (r, rest)) :
    ∃ a : Action, a.Valid ∧ a.record = r ∧ bytes = a.bytes ++ rest := by
  rcases bytes with _ | ⟨kind, _ | ⟨mask, _ | ⟨check, tail⟩⟩⟩
  · cases h
  · cases h
  · cases h
  rw [next_cons] at h
  by_cases hsum : checksum [kind, mask, check] ≠ 0 ∧
      ¬ (kind = 2 ∧ 31 ≤ tail.length ∧ checksum ([kind, mask, check] ++ tail.take 31) = 0)
  · rw [if_pos hsum] at h
    cases h
  rw [if_neg hsum] at h
  by_cases hplain : kind = 0 ∨ kind = 1
  · rw [if_pos hplain] at h
    obtain ⟨rfl, rfl⟩ := Prod.mk.inj (Option.some.inj h)
    refine ⟨.plain kind mask check, ⟨hplain, ?_⟩, rfl, rfl⟩
    by_contra hne
    refine hsum ⟨hne, fun h2 => ?_⟩
    rw [h2.1] at hplain
    exact absurd hplain (by decide)
  rw [if_neg hplain] at h
  by_cases hkind : kind ≠ 2
  · rw [if_pos hkind] at h
    cases h
  rw [if_neg hkind] at h
  obtain rfl := not_not.mp hkind
  split_ifs at h with hmask hsize
  obtain ⟨rfl, rfl⟩ := Prod.mk.inj (Option.some.inj h)
  rw [not_or, Nat.not_lt] at hmask
  refine ⟨.upload mask check (tail.take 31) ((tail.drop 31).take (stated (tail.take 31))),
    ⟨hmask.1, by rw [List.length_take, Nat.min_eq_left hmask.2],
      by rw [List.length_take, Nat.min_eq_left (Nat.not_lt.mp hsize)], ?_⟩, rfl, ?_⟩
  · by_cases hfirst : checksum [2, mask, check] = 0
    · exact .inl hfirst
    · right
      by_contra hall
      exact hsum ⟨hfirst, fun h => hall h.2.2⟩
  · rw [Action.bytes, List.append_assoc, List.append_assoc, List.take_append_drop,
      List.take_append_drop]
    rfl

theorem next_none {rest : List UInt8} (h : next rest = none) (a : Proper) :
    ¬ actionCode.word a <+: rest := by
  rintro ⟨t, rfl⟩
  rw [show actionCode.word a = a.1.bytes from rfl, next_bytes a.2] at h
  cases h

/-! ### All records -/

/-- The records of actions. -/
def recordsIn (as : List Proper) : List Record := as.map fun a => a.1.record

/-- The parser finds the longest message at the front, and ends well if it is all there is. -/
theorem recordsOf_longest : ∀ {fuel : ℕ} {rest : List UInt8}, rest.length ≤ fuel → ∃ as :
    List Proper,
    (recordsOf fuel rest).1 = recordsIn as ∧ actionCode.Longest as rest ∧
      ((recordsOf fuel rest).2 = true ↔ actionCode.encode as = rest)
  | 0, rest, h => by
    obtain rfl := List.length_eq_zero_iff.mp (Nat.le_zero.mp h)
    exact ⟨[], rfl, PrefixCode.longest_nil fun a => next_none rfl a, by simp [recordsOf]⟩
  | fuel + 1, rest, h => by
    rw [recordsOf]
    by_cases hrest : rest = []
    · rw [if_pos hrest]
      subst hrest
      exact ⟨[], rfl, PrefixCode.longest_nil fun a => next_none rfl a, by simp⟩
    rw [if_neg hrest]
    rcases hnext : next rest with _ | ⟨r, rest'⟩
    · exact ⟨[], rfl, PrefixCode.longest_nil fun a => next_none hnext a, by simp [Ne.symm hrest]⟩
    · obtain ⟨a, ha, rfl, rfl⟩ := next_some hnext
      have hpos := List.length_pos_of_ne_nil (bytes_ne_nil a)
      have hshort : rest'.length ≤ fuel := by
        rw [List.length_append] at h
        omega
      obtain ⟨as, has, hlongest, hends⟩ := recordsOf_longest hshort
      refine ⟨⟨a, ha⟩ :: as, ?_, PrefixCode.longest_cons hlongest, ?_⟩
      · dsimp only
        rw [has]
        rfl
      · rw [PrefixCode.encode_cons]
        exact hends.trans (List.append_cancel_left_eq a.bytes _ _).symm.to_iff

theorem recordsOf_fuel {fuel : ℕ} {rest : List UInt8} (h : rest.length ≤ fuel) :
    recordsOf fuel rest = recordsOf rest.length rest := by
  obtain ⟨as, has, hlongest, hends⟩ := recordsOf_longest h
  obtain ⟨as', has', hlongest', hends'⟩ := recordsOf_longest (Nat.le_refl rest.length)
  obtain rfl := hlongest.unique hlongest'
  exact Prod.ext (has.trans has'.symm) (Bool.eq_iff_iff.mpr (hends.trans hends'.symm))

/-- What the parser makes of bytes: the records of a message that is all of them. -/
theorem recordsOf_iff {rest : List UInt8} {rs : List Record} :
    recordsOf rest.length rest = (rs, true) ↔
    ∃ as : List Proper, rs = recordsIn as ∧ actionCode.encode as = rest := by
  obtain ⟨as, has, hlongest, hends⟩ := recordsOf_longest (Nat.le_refl rest.length)
  constructor
  · intro h
    rw [h] at has hends
    exact ⟨as, has, hends.mp rfl⟩
  · rintro ⟨as', rfl, rfl⟩
    obtain rfl := hlongest.unique (PrefixCode.longest_encode as')
    exact Prod.ext has (hends.mpr rfl)

/-! ### Images -/

/-- The bytes of an image from the first record to the signature. -/
def actionBytes (image : List UInt8) (header : Header) : List UInt8 :=
  (body image).drop header.firstRecord

/-- The signature of an image. -/
def signature (image : List UInt8) : List UInt8 := image.drop (image.length - 16)

theorem image_eq {image : List UInt8} {header : Header}
    (hfirst : header.firstRecord ≤ (body image).length) (bytes : List UInt8) :
    image = image.take header.firstRecord ++ bytes ++ signature image ↔
      bytes = actionBytes image header := by
  have htake : image.take header.firstRecord = (body image).take header.firstRecord := by
    rw [body, List.take_take, Nat.min_eq_left]
    rw [body, List.length_take] at hfirst
    omega
  have hsplit : image = (body image).take header.firstRecord ++ actionBytes image header ++
      signature image := by
    rw [actionBytes, List.take_append_drop, body, signature, List.take_append_drop]
  rw [htake]
  constructor
  · intro h
    have heq := h.symm.trans hsplit
    rw [List.append_assoc, List.append_assoc] at heq
    exact List.append_cancel_right (List.append_cancel_left heq)
  · rintro rfl
    exact hsplit

theorem validateImage_first {md5 : List UInt8 → List UInt8} {image : List UInt8} {header : Header}
    (h : validateImage md5 image = some header) :
    35 ≤ header.firstRecord ∧ header.firstRecord ≤ (body image).length ∧ 16 ≤ image.length := by
  unfold validateImage at h
  dsimp only at h
  split_ifs at h with h1 h2 h3 h4 h5 h6
  obtain rfl := Option.some.inj h
  dsimp only
  omega

theorem next_shorter {bytes rest : List UInt8} {r : Record} (h : next bytes = some (r, rest)) :
    rest.length < bytes.length := by
  obtain ⟨a, -, -, rfl⟩ := next_some h
  have hpos := List.length_pos_of_ne_nil (bytes_ne_nil a)
  rw [List.length_append]
  omega

/-- Of an image with a valid header, the records are read to an end; and they are these records if
and only if the image is its header, the encodings of these records, and its signature. -/
theorem records_format {md5 : List UInt8 → List UInt8} {image : List UInt8} {header : Header}
    (h : validateImage md5 image = some header) :
    WellFounded (fun after before : List UInt8 => ∃ r, next before = some (r, after)) ∧
    (∀ n ≥ (actionBytes image header).length,
      recordsOf n (actionBytes image header) = records image header) ∧
    (image.take header.firstRecord).length = header.firstRecord ∧ (signature image).length = 16 ∧
    ∀ rs, records image header = (rs, true) ↔ ∃ as : List Proper, rs = recordsIn as ∧
      image = image.take header.firstRecord ++ actionCode.encode as ++ signature image := by
  obtain ⟨-, hfirst, hlong⟩ := validateImage_first h
  refine ⟨?_, fun n hn => recordsOf_fuel hn, ?_, ?_, fun rs => recordsOf_iff.trans ?_⟩
  · exact Subrelation.wf (fun {a b} hab => hab.elim fun r hr => next_shorter hr)
      (measure fun bytes : List UInt8 => bytes.length).wf
  · rw [body, List.length_take] at hfirst
    rw [List.length_take]
    omega
  · rw [signature, List.length_drop]
    omega
  · exact exists_congr fun as => and_congr_right fun _ => (image_eq hfirst _).symm

theorem records_format_both : (Selection.imageBoth.take 35).length = 35 ∧
    (signature Selection.imageBoth).length = 16 ∧
    ∀ rs, records Selection.imageBoth Selection.sampleHeader = (rs, true) ↔
      ∃ as : List Proper, rs = recordsIn as ∧ Selection.imageBoth =
        Selection.imageBoth.take 35 ++ actionCode.encode as ++ signature Selection.imageBoth := by
  have hvalid : validateImage (fun _ => Selection.digestBoth) Selection.imageBoth =
      some Selection.sampleHeader := by decide +kernel
  exact (records_format hvalid).2.2

end Ipmitool.Hpm.Records
