import Ipmitool.Ekanalyzer.Records
import Ipmitool.Lib.Bytes
import Mathlib.Data.Vector.Defs

/-! # The bodies of keying records

`resources` takes the body of a carrier record apart: descriptors of resources, each with as many
ports of three bytes as it says. `parseAmc` takes the body of a module record apart: identifiers of
16 bytes, channels of three bytes, and links of five bytes up to the end. The fields of ports,
channels and links are bits that cross the boundaries of the bytes.

A body is described by what it is made of: `Descriptor` and `Module` are the bytes in their order,
and `decode` is what they mean. -/

namespace Ipmitool.Ekanalyzer.Bodies

open Ipmitool.Lib.Bytes Ipmitool.Lib.Slices

/-! ### Rows -/

section Rows
variable {α ρ σ : Type}

/-- The items that are read at an offset and at the following ones, `size` apart. -/
def rows (read : ℕ → Except Fault ρ) (size : ℕ) : ℕ → ℕ → Except Fault (List ρ)
  | 0, _ => .ok []
  | n + 1, offset => do
    let item ← read offset
    let more ← rows read size n (offset + size)
    return item :: more

variable {read : ℕ → Except Fault ρ} {size : ℕ} {enc : σ → List α} {dec : σ → ρ} {data : List α}

theorem rows_ok (henc : ∀ x, (enc x).length = size)
    (hread : ∀ {offset x rest}, data.drop offset = enc x ++ rest → read offset = .ok (dec x)) :
    ∀ {items : List σ} {offset : ℕ} {rest : List α}, data.drop offset = items.flatMap enc ++ rest →
      rows read size items.length offset = .ok (items.map dec)
  | [], _, _, _ => rfl
  | x :: items, offset, rest, h => by
    rw [List.flatMap_cons, List.append_assoc] at h
    have hrest := drop_of_append h
    rw [henc] at hrest
    rw [List.length_cons, rows, hread h, ok_bind, rows_ok henc hread hrest]
    rfl

theorem exists_rows (henc : ∀ x, (enc x).length = size)
    (hsplit : ∀ l : List α, size ≤ l.length → ∃ x rest, l = enc x ++ rest) :
    ∀ {n : ℕ} {l : List α}, n * size ≤ l.length →
      ∃ (items : List σ) (rest : List α), items.length = n ∧ l = items.flatMap enc ++ rest
  | 0, l, _ => ⟨[], l, rfl, rfl⟩
  | n + 1, l, h => by
    rw [Nat.add_mul, Nat.one_mul] at h
    obtain ⟨x, l', rfl⟩ := hsplit l (by omega)
    rw [List.length_append, henc] at h
    obtain ⟨items, rest, rfl, rfl⟩ := exists_rows henc hsplit (n := n) (l := l') (by omega)
    exact ⟨x :: items, rest, rfl, by rw [List.flatMap_cons, List.append_assoc]⟩

theorem length_rows (henc : ∀ x, (enc x).length = size) (items : List σ) :
    (items.flatMap enc).length = items.length * size := by
  induction items with
  | nil => simp
  | cons x items ih =>
    rw [List.flatMap_cons, List.length_append, henc, ih, List.length_cons, Nat.add_mul, Nat.one_mul,
      Nat.add_comm]

theorem rows_inj (henc : ∀ x, (enc x).length = size) (hinj : ∀ x y, enc x = enc y → x = y) :
    ∀ {items items' : List σ} {t u : List α}, items.length = items'.length →
      items.flatMap enc ++ t = items'.flatMap enc ++ u → items = items' ∧ t = u
  | [], [], _, _, _, h => ⟨rfl, h⟩
  | x :: items, y :: items', t, u, hlen, h => by
    rw [List.flatMap_cons, List.flatMap_cons, List.append_assoc, List.append_assoc] at h
    obtain ⟨hxy, hrest⟩ := List.append_inj h (by rw [henc, henc])
    obtain ⟨rfl, rfl⟩ := rows_inj henc hinj (Nat.succ.inj hlen) hrest
    rw [hinj x y hxy]
    exact ⟨rfl, rfl⟩

end Rows

/-! ### Carrier records -/

/-- `Port`. -/
structure Port where
  resource : UInt8
  remote : UInt8
  localPort : UInt8
  deriving DecidableEq

/-- `Resource`. -/
structure Resource where
  id : UInt8
  ports : List Port
  deriving DecidableEq

def u16le (a b : UInt8) : UInt16 := a.toUInt16 ||| b.toUInt16 <<< 8

/-- A port of `resources`. -/
def portAt (data : List UInt8) (offset : ℕ) : Except Fault Port := do
  let resource ← get data offset
  let low ← get data (offset + 1)
  let high ← get data (offset + 2)
  return ⟨resource, low &&& 31, (u16le low high >>> 5 &&& 31).toUInt8⟩

theorem next_lt {size offset : ℕ} (n : ℕ) (h : offset < size) :
    size - (offset + (2 + n)) < size - offset := by
  omega

/-- The loop of `resources`. -/
def resourcesFrom (data : List UInt8) (offset : ℕ) (result : List Resource) :
    Except Fault (Option (List Resource)) :=
  if _h : offset < data.length then do
    if data.length - offset < 2 then return none
    let id ← get data offset
    let count ← get data (offset + 1)
    if (data.length - (offset + 2)) / 3 < count.toNat then return none
    let ports ← rows (portAt data) 3 count.toNat (offset + 2)
    resourcesFrom data (offset + (2 + 3 * count.toNat)) (result ++ [⟨id, ports⟩])
  else .ok (some result)
termination_by data.length - offset
decreasing_by exact next_lt _ _h

/-- `resources`, of the body of a record. -/
def resources (data : List UInt8) : Except Fault (Option (List Resource)) :=
  if data.length < 7 then .ok none else resourcesFrom data 5 []

/-- Three bytes. -/
structure Triple where
  a : UInt8
  b : UInt8
  c : UInt8

def Triple.bytes (t : Triple) : List UInt8 := [t.a, t.b, t.c]

theorem Triple.length_bytes (t : Triple) : t.bytes.length = 3 := rfl

theorem Triple.bytes_inj (t u : Triple) (h : t.bytes = u.bytes) : t = u := by
  obtain ⟨a, b, c⟩ := t
  obtain ⟨a', b', c'⟩ := u
  simp only [bytes, List.cons.injEq, and_true] at h
  obtain ⟨rfl, rfl, rfl⟩ := h
  rfl

theorem Triple.exists_bytes (l : List UInt8) (h : 3 ≤ l.length) :
    ∃ (t : Triple) (rest : List UInt8), l = t.bytes ++ rest := by
  rcases l with _ | ⟨a, _ | ⟨b, _ | ⟨c, l⟩⟩⟩
  all_goals first | exact ⟨⟨_, _, _⟩, _, rfl⟩ | (simp at h)

/-- The entry of a port: behind its resource the ports have five bits each. -/
def Triple.port (t : Triple) : Port :=
  let word := t.b.toNat + 256 * t.c.toNat
  ⟨t.a, UInt8.ofNat (word % 32), UInt8.ofNat (word / 32 % 32)⟩

/-- A descriptor of a resource. -/
structure Descriptor where
  id : UInt8
  entries : List Triple
  length_lt : entries.length < 256

namespace Descriptor

def bytes (d : Descriptor) : List UInt8 :=
  d.id :: UInt8.ofNat d.entries.length :: d.entries.flatMap Triple.bytes

/-- What a descriptor means. -/
def decode (d : Descriptor) : Resource := ⟨d.id, d.entries.map Triple.port⟩

theorem toNat_length (d : Descriptor) : (UInt8.ofNat d.entries.length).toNat =
    d.entries.length := by
  rw [UInt8.toNat_ofNat']
  exact Nat.mod_eq_of_lt d.length_lt

theorem length_triples (l : List Triple) : (l.flatMap Triple.bytes).length = l.length * 3 :=
  length_rows Triple.length_bytes l

theorem length_bytes (d : Descriptor) : d.bytes.length = 2 + 3 * d.entries.length := by
  rw [bytes, List.length_cons, List.length_cons, length_triples]
  omega

end Descriptor

theorem and_31 (b : UInt8) : b &&& 31 = UInt8.ofNat (b.toNat % 32) := by
  refine UInt8.toNat_inj.mp ?_
  rw [UInt8.toNat_and, UInt8.toNat_ofNat']
  have hand : b.toNat &&& 31 = b.toNat % 32 := Nat.and_two_pow_sub_one_eq_mod _ 5
  change b.toNat &&& 31 = _
  rw [hand]
  omega

theorem portAt_ok {data rest : List UInt8} {offset : ℕ} {t : Triple}
    (h : data.drop offset = t.bytes ++ rest) : portAt data offset = .ok t.port := by
  have hword := toNat_or16 t.b t.c
  have hremote : t.b &&& 31 = UInt8.ofNat ((t.b.toNat + 256 * t.c.toNat) % 32) := by
    rw [and_31, show (t.b.toNat + 256 * t.c.toNat) % 32 = t.b.toNat % 32 by omega]
  have hlocal : (u16le t.b t.c >>> 5 &&& 31).toUInt8 =
      UInt8.ofNat ((t.b.toNat + 256 * t.c.toNat) / 32 % 32) := by
    refine UInt8.toNat_inj.mp ?_
    have hand : ∀ x : ℕ, x &&& 31 = x % 32 := fun x => Nat.and_two_pow_sub_one_eq_mod x 5
    rw [UInt16.toNat_toUInt8, UInt16.toNat_and, UInt16.toNat_shiftRight, u16le, hword,
      UInt8.toNat_ofNat']
    simp only [UInt16.reduceToNat, Nat.reduceMod, Nat.shiftRight_eq_div_pow, Nat.reducePow, hand]
  have hat : ∀ i, get data (offset + i) = get (t.bytes ++ rest) i := get_add h
  rw [portAt, hat, hat, ← Nat.add_zero offset, hat]
  simp only [Triple.bytes, List.cons_append, get_succ, get_zero, ok_bind, hremote, hlocal]
  rfl

/-- There is one descriptor at a place. -/
theorem Descriptor.bytes_inj {d e : Descriptor} {t u : List UInt8}
    (h : d.bytes ++ t = e.bytes ++ u) :
    d = e ∧ t = u := by
  have hd := d.toNat_length
  have he := e.toNat_length
  obtain ⟨id, entries, hlt⟩ := d
  obtain ⟨id', entries', hlt'⟩ := e
  simp only [bytes, List.cons_append, List.cons.injEq] at h hd he
  obtain ⟨rfl, hcount, hrest⟩ := h
  have hlength : entries.length = entries'.length := by rw [← hd, ← he, hcount]
  obtain ⟨rfl, rfl⟩ := rows_inj Triple.length_bytes Triple.bytes_inj hlength hrest
  exact ⟨rfl, rfl⟩

/-- The loop, at the beginning of a descriptor. -/
theorem resourcesFrom_descriptor {data rest : List UInt8} {offset : ℕ} {d : Descriptor}
    (h : data.drop offset = d.bytes ++ rest) (result : List Resource) :
    resourcesFrom data offset result =
      resourcesFrom data (offset + d.bytes.length) (result ++ [d.decode]) := by
  have hlen : offset + (d.bytes ++ rest).length = data.length :=
    le_length_of_drop h (by simp [Descriptor.bytes])
  rw [List.length_append, d.length_bytes] at hlen
  have hrows : data.drop (offset + 2) = d.entries.flatMap Triple.bytes ++ rest := by
    rw [← List.drop_drop, h]
    rfl
  have hports : rows (portAt data) 3 d.entries.length (offset + 2) =
      .ok (d.entries.map Triple.port) :=
    rows_ok Triple.length_bytes portAt_ok hrows
  have hid : get data offset = .ok d.id := by
    rw [← Nat.add_zero offset, get_add h]
    rfl
  have hcount : get data (offset + 1) = .ok (UInt8.ofNat d.entries.length) := by
    rw [get_add h]
    rfl
  rw [resourcesFrom, dif_pos (by omega), if_neg (by omega), hid, ok_bind, hcount, ok_bind,
    d.toNat_length,
    if_neg (by omega), hports, ok_bind, d.length_bytes]
  rfl

/-- At any other place in front of the end the loop fails. -/
theorem resourcesFrom_none {data : List UInt8} {offset : ℕ} (hlt : offset < data.length)
    (h : ∀ (d : Descriptor) (rest : List UInt8), data.drop offset ≠ d.bytes ++ rest)
    (result : List Resource) :
    resourcesFrom data offset result = .ok none := by
  rw [resourcesFrom, dif_pos hlt]
  by_cases hshort : data.length - offset < 2
  · rw [if_pos hshort]
    rfl
  have hlen := List.length_drop (i := offset) (l := data)
  obtain ⟨id, count, t, hdrop⟩ : ∃ a b t, data.drop offset = a :: b :: t := by
    rcases hd : data.drop offset with _ | ⟨a, _ | ⟨b, t⟩⟩
    all_goals first | exact ⟨_, _, _, rfl⟩ | (rw [hd] at hlen; simp at hlen; omega)
  rw [hdrop, List.length_cons, List.length_cons] at hlen
  have hid : get data offset = .ok id := by
    rw [← Nat.add_zero offset, get_add hdrop]
    rfl
  have hcount : get data (offset + 1) = .ok count := by
    rw [get_add hdrop]
    rfl
  rw [if_neg hshort, hid, ok_bind, hcount, ok_bind]
  by_cases hfew : (data.length - (offset + 2)) / 3 < count.toNat
  · rw [if_pos hfew]
    rfl
  · obtain ⟨entries, rest, hn, rfl⟩ := exists_rows Triple.length_bytes Triple.exists_bytes
      (n := count.toNat) (l := t) (by omega)
    have hbyte : UInt8.ofNat entries.length = count := by rw [hn, UInt8.ofNat_toNat]
    refine absurd ?_ (h ⟨id, entries, hn ▸ count.toNat_lt⟩ rest)
    simp only [hdrop, Descriptor.bytes, hbyte, List.cons_append]

/-- From an offset on the loop reads descriptors up to the end, and nothing outside of the data. -/
theorem resourcesFrom_ok (data : List UInt8) (offset : ℕ) (result : List Resource) :
    ∃ out, resourcesFrom data offset result = .ok out ∧ ∀ rs, out = some rs ↔
      ∃ ds : List Descriptor, data.drop offset = ds.flatMap Descriptor.bytes ∧
        rs = result ++ ds.map Descriptor.decode := by
  obtain ⟨m, hm⟩ : ∃ m, m = data.length - offset := ⟨_, rfl⟩
  induction m using Nat.strongRecOn generalizing offset result with
  | ind m ih =>
  by_cases hlt : offset < data.length
  · have hne : data.drop offset ≠ [] := fun h => by
      have hlen := List.drop_eq_nil_iff.mp h
      omega
    by_cases hrec : ∃ (d : Descriptor) (rest : List UInt8), data.drop offset = d.bytes ++ rest
    · obtain ⟨d, rest, hd⟩ := hrec
      have hlen := le_length_of_drop hd (by simp [Descriptor.bytes])
      rw [List.length_append, d.length_bytes] at hlen
      obtain ⟨out, hout, hiff⟩ := ih (data.length - (offset + d.bytes.length))
        (by rw [d.length_bytes]; omega) (offset + d.bytes.length) (result ++ [d.decode]) rfl
      refine ⟨out, by rw [resourcesFrom_descriptor hd, hout], fun rs => ?_⟩
      rw [hiff, drop_of_append hd]
      constructor
      · rintro ⟨ds, hds, rfl⟩
        exact ⟨d :: ds, by rw [hd, hds, List.flatMap_cons], by rw [List.append_assoc]; rfl⟩
      · rintro ⟨ds, hds, rfl⟩
        rcases ds with _ | ⟨e, ds⟩
        · exact absurd hds hne
        · rw [hd, List.flatMap_cons] at hds
          obtain ⟨rfl, hrest⟩ := Descriptor.bytes_inj hds
          exact ⟨ds, hrest, by rw [List.append_assoc]; rfl⟩
    · have hnone : ∀ (d : Descriptor) (rest : List UInt8), data.drop offset ≠ d.bytes ++ rest :=
        fun d rest h => hrec ⟨d, rest, h⟩
      refine ⟨none, resourcesFrom_none hlt hnone result, fun rs => ⟨nofun, ?_⟩⟩
      rintro ⟨ds, hds, -⟩
      rcases ds with _ | ⟨e, ds⟩
      · exact absurd hds hne
      · exact absurd hds (hnone e _)
  · have hnil : data.drop offset = [] := List.drop_eq_nil_of_le (by omega)
    refine ⟨some result, by rw [resourcesFrom, dif_neg hlt], fun rs => ⟨fun h => ⟨[], hnil, ?_⟩,
      ?_⟩⟩
    · rw [List.map_nil, List.append_nil, Option.some.inj h]
    · rintro ⟨ds, hds, rfl⟩
      rcases ds with _ | ⟨e, ds⟩
      · rw [List.map_nil, List.append_nil]
      · rw [hnil] at hds
        cases hds

/-- A carrier record has descriptors from its sixth byte on. -/
theorem resources_ok (data : List UInt8) : ∃ out, resources data = .ok out ∧ ∀ rs, out = some rs ↔
    7 ≤ data.length ∧ ∃ ds : List Descriptor, data.drop 5 = ds.flatMap Descriptor.bytes ∧
      rs = ds.map Descriptor.decode := by
  unfold resources
  by_cases hlen : data.length < 7
  · rw [if_pos hlen]
    exact ⟨none, rfl, fun rs => ⟨nofun, fun h => absurd h.1 (by omega)⟩⟩
  · rw [if_neg hlen]
    obtain ⟨out, hout, hiff⟩ := resourcesFrom_ok data 5 []
    refine ⟨out, hout, fun rs => ?_⟩
    rw [hiff]
    exact (and_iff_right (by omega)).symm

/-! ### Module records -/

/-- `Channel`. -/
structure Channel where
  lanes : List.Vector UInt8 4
  deriving DecidableEq

/-- A channel with these lanes. -/
def Channel.of (a b c d : UInt8) : Channel := ⟨⟨[a, b, c, d], rfl⟩⟩

/-- `Link`. -/
structure Link where
  channel : UInt8
  flags : BitVec 4
  typ : UInt8
  ext : BitVec 4
  group : UInt8
  asym : BitVec 2
  deriving DecidableEq

/-- `Amc`. -/
structure Amc where
  resource : UInt8
  guids : List UInt8
  channels : List Channel
  links : List Link
  deriving DecidableEq

/-- A channel of `parseAmc`. -/
def channelAt (d : List UInt8) (pos : ℕ) : Except Fault Channel := do
  let a ← get d pos
  let b ← get d (pos + 1)
  let c ← get d (pos + 2)
  let bits := a.toUInt32 ||| b.toUInt32 <<< 8 ||| c.toUInt32 <<< 16
  return .of (bits &&& 31).toUInt8 (bits >>> 5 &&& 31).toUInt8 (bits >>> 10 &&& 31).toUInt8
    (bits >>> 15 &&& 31).toUInt8

/-- A link of `parseAmc`. -/
def linkAt (d : List UInt8) (pos : ℕ) : Except Fault Link := do
  let p0 ← get d pos
  let p1 ← get d (pos + 1)
  let p2 ← get d (pos + 2)
  let p3 ← get d (pos + 3)
  let p4 ← get d (pos + 4)
  return { channel := p0, flags := p1.toBitVec.setWidth 4, typ := p1 >>> 4 ||| (p2 &&& 15) <<< 4,
           ext := (p2 >>> 4).toBitVec.setWidth 4, group := p3, asym := p4.toBitVec.setWidth 2 }

/-- `parseAmc`, of the body of a record. -/
def parseAmc (d : List UInt8) : Except Fault (Option Amc) := do
  if d.length < 8 then return none
  let nGuid ← get d 5
  if (d.length - 8) / 16 < nGuid.toNat then return none
  let guidEnd := 6 + nGuid.toNat * 16
  let nChannel ← get d (guidEnd + 1)
  let channelOff := guidEnd + 2
  if (d.length - channelOff) / 3 < nChannel.toNat then return none
  let linkOff := channelOff + nChannel.toNat * 3
  if linkOff = d.length ∨ (d.length - linkOff) % 5 ≠ 0 then return none
  let channels ← rows (channelAt d) 3 nChannel.toNat channelOff
  let links ← rows (linkAt d) 5 ((d.length - linkOff) / 5) linkOff
  let resource ← get d guidEnd
  let guids ← slice d 6 (nGuid.toNat * 16)
  return some ⟨resource, guids, channels, links⟩

/-- The lanes of a channel have five bits each. -/
def Triple.channel (t : Triple) : Channel :=
  let word := t.a.toNat + 256 * t.b.toNat + 65536 * t.c.toNat
  .of (UInt8.ofNat (word % 32)) (UInt8.ofNat (word / 32 % 32)) (UInt8.ofNat (word / 1024 % 32))
    (UInt8.ofNat (word / 32768 % 32))

/-- Five bytes. -/
structure Five where
  a : UInt8
  b : UInt8
  c : UInt8
  d : UInt8
  e : UInt8

namespace Five

def bytes (x : Five) : List UInt8 := [x.a, x.b, x.c, x.d, x.e]

/-- A link: behind its channel are 4 bits of flags, 8 of the type and 4 of its extension, and behind
the group 2 bits. -/
def link (x : Five) : Link :=
  let word := x.b.toNat + 256 * x.c.toNat
  { channel := x.a, flags := BitVec.ofNat 4 word, typ := UInt8.ofNat (word / 16 % 256),
    ext := BitVec.ofNat 4 (word / 4096), group := x.d, asym := BitVec.ofNat 2 x.e.toNat }

theorem length_bytes (x : Five) : x.bytes.length = 5 := rfl

theorem exists_bytes (l : List UInt8) (h : 5 ≤ l.length) :
    ∃ (x : Five) (rest : List UInt8), l = x.bytes ++ rest := by
  rcases l with _ | ⟨a, _ | ⟨b, _ | ⟨c, _ | ⟨d, _ | ⟨e, l⟩⟩⟩⟩⟩
  all_goals first | exact ⟨⟨_, _, _, _, _⟩, _, rfl⟩ | (simp at h)

end Five

theorem channelAt_ok {data rest : List UInt8} {offset : ℕ} {t : Triple}
    (h : data.drop offset = t.bytes ++ rest) : channelAt data offset = .ok t.channel := by
  have hword := toNat_or24 t.a t.b t.c
  have hand : ∀ x : ℕ, x &&& 31 = x % 32 := fun x => Nat.and_two_pow_sub_one_eq_mod x 5
  have hlane : ∀ n : UInt32, n.toNat < 32 →
      ((t.a.toUInt32 ||| t.b.toUInt32 <<< 8 ||| t.c.toUInt32 <<< 16) >>> n &&& 31).toUInt8 =
        UInt8.ofNat ((t.a.toNat + 256 * t.b.toNat + 65536 * t.c.toNat) / 2 ^ n.toNat % 32) := by
    intro n hn
    refine UInt8.toNat_inj.mp ?_
    rw [UInt32.toNat_toUInt8, UInt32.toNat_and, UInt32.toNat_shiftRight, hword, UInt8.toNat_ofNat',
      Nat.mod_eq_of_lt hn, Nat.shiftRight_eq_div_pow]
    simp only [UInt32.reduceToNat, hand, Nat.reducePow]
  have hzero : ∀ bits : UInt32, bits &&& 31 = bits >>> (0 : UInt32) &&& 31 := by simp
  have hat : ∀ i, get data (offset + i) = get (t.bytes ++ rest) i := get_add h
  rw [channelAt, hat, hat, ← Nat.add_zero offset, hat]
  simp only [Triple.bytes, List.cons_append, get_succ, get_zero, ok_bind]
  have h0 := hlane 0 (by decide)
  have h5 := hlane 5 (by decide)
  have h10 := hlane 10 (by decide)
  have h15 := hlane 15 (by decide)
  simp only [UInt32.reduceToNat, Nat.reducePow, Nat.div_one] at h0 h5 h10 h15
  rw [hzero, h0, h5, h10, h15]
  rfl

theorem linkAt_ok {data rest : List UInt8} {offset : ℕ} {x : Five}
    (h : data.drop offset = x.bytes ++ rest) : linkAt data offset = .ok x.link := by
  have hat : ∀ i, get data (offset + i) = get (x.bytes ++ rest) i := get_add h
  have hb := x.b.toNat_lt
  have hc := x.c.toNat_lt
  have hflags : x.b.toBitVec.setWidth 4 = BitVec.ofNat 4 (x.b.toNat + 256 * x.c.toNat) := by
    refine BitVec.eq_of_toNat_eq ?_
    rw [BitVec.toNat_setWidth, BitVec.toNat_ofNat, UInt8.toNat_toBitVec]
    omega
  have htyp : x.b >>> 4 ||| (x.c &&& 15) <<< 4 =
      UInt8.ofNat ((x.b.toNat + 256 * x.c.toNat) / 16 % 256) := by
    refine UInt8.toNat_inj.mp ?_
    have hand : x.c.toNat &&& 15 = x.c.toNat % 16 := Nat.and_two_pow_sub_one_eq_mod _ 4
    have hor := or_shiftLeft (b := x.c.toNat % 16) (show x.b.toNat / 16 < 2 ^ 4 by omega)
    have hsmall : (x.c.toNat % 16) <<< 4 % 2 ^ 8 = (x.c.toNat % 16) <<< 4 := by
      rw [Nat.shiftLeft_eq]
      omega
    rw [UInt8.toNat_ofNat']
    change x.b.toNat >>> 4 ||| (x.c.toNat &&& 15) <<< 4 % 2 ^ 8 = _
    rw [hand, hsmall, Nat.shiftRight_eq_div_pow, hor]
    omega
  have hext : (x.c >>> 4).toBitVec.setWidth 4 =
      BitVec.ofNat 4 ((x.b.toNat + 256 * x.c.toNat) / 4096) := by
    refine BitVec.eq_of_toNat_eq ?_
    rw [BitVec.toNat_setWidth, BitVec.toNat_ofNat, UInt8.toNat_toBitVec, UInt8.toNat_shiftRight,
      Nat.shiftRight_eq_div_pow]
    simp only [UInt8.reduceToNat, Nat.reduceMod, Nat.reducePow]
    omega
  have hasym : x.e.toBitVec.setWidth 2 = BitVec.ofNat 2 x.e.toNat := by
    refine BitVec.eq_of_toNat_eq ?_
    rw [BitVec.toNat_setWidth, BitVec.toNat_ofNat, UInt8.toNat_toBitVec]
  rw [linkAt, hat, hat, hat, hat, ← Nat.add_zero offset, hat]
  simp only [Five.bytes, List.cons_append, get_succ, get_zero, ok_bind, hflags, htyp, hext, hasym]
  rfl

/-- What a module record is made of. -/
structure Module where
  header : Five
  guidCount : ℕ
  guids : List UInt8
  resource : UInt8
  channels : List Triple
  links : List Five
  guidCount_lt : guidCount < 256
  length_guids : guids.length = guidCount * 16
  length_channels : channels.length < 256
  links_ne_nil : links ≠ []

namespace Module

def bytes (m : Module) : List UInt8 :=
  m.header.bytes ++ UInt8.ofNat m.guidCount ::
    (m.guids ++ m.resource :: UInt8.ofNat m.channels.length ::
    (m.channels.flatMap Triple.bytes ++ m.links.flatMap Five.bytes))

/-- What a module record means. -/
def decode (m : Module) : Amc :=
  ⟨m.resource, m.guids, m.channels.map Triple.channel, m.links.map Five.link⟩

end Module

theorem parseAmc_module (m : Module) : parseAmc m.bytes = .ok (some m.decode) := by
  obtain ⟨d, hd⟩ : ∃ d, d = m.bytes := ⟨_, rfl⟩
  have hg : (UInt8.ofNat m.guidCount).toNat = m.guidCount := by
    rw [UInt8.toNat_ofNat']
    exact Nat.mod_eq_of_lt m.guidCount_lt
  have hk : (UInt8.ofNat m.channels.length).toNat = m.channels.length := by
    rw [UInt8.toNat_ofNat']
    exact Nat.mod_eq_of_lt m.length_channels
  have hlinks := length_rows Five.length_bytes m.links
  have hchannels := length_rows Triple.length_bytes m.channels
  have hpos := List.length_pos_of_ne_nil m.links_ne_nil
  have hguids := m.length_guids
  -- what is left behind the header, the count, the identifiers, the two bytes, and the channels
  have h5 : d.drop 5 = UInt8.ofNat m.guidCount ::
      (m.guids ++ m.resource :: UInt8.ofNat m.channels.length ::
      (m.channels.flatMap Triple.bytes ++ m.links.flatMap Five.bytes)) := by
    rw [hd]
    rfl
  have h6 : d.drop 6 = m.guids ++ m.resource :: UInt8.ofNat m.channels.length ::
      (m.channels.flatMap Triple.bytes ++ m.links.flatMap Five.bytes) := by
    rw [hd]
    rfl
  have hend : d.drop (6 + m.guidCount * 16) = m.resource :: UInt8.ofNat m.channels.length ::
      (m.channels.flatMap Triple.bytes ++ m.links.flatMap Five.bytes) := by
    rw [← m.length_guids]
    exact drop_of_append h6
  have hchan : d.drop (6 + m.guidCount * 16 + 2) =
      m.channels.flatMap Triple.bytes ++ m.links.flatMap Five.bytes := by
    rw [← List.drop_drop, hend]
    rfl
  have hlink : d.drop (6 + m.guidCount * 16 + 2 + m.channels.length * 3) =
      m.links.flatMap Five.bytes ++ [] := by
    rw [← hchannels, List.append_nil]
    exact drop_of_append hchan
  have hlen : d.length = 8 + m.guidCount * 16 + m.channels.length * 3 + m.links.length * 5 := by
    have hle := le_length_of_drop h5 (by simp)
    simp only [List.length_cons, List.length_append, hguids, hchannels, hlinks] at hle
    omega
  rw [← hd, parseAmc, if_neg (by omega), ← Nat.add_zero 5, get_add h5, get_zero, ok_bind, hg,
    if_neg (by omega)]
  dsimp only
  rw [get_add hend, get_succ, get_zero, ok_bind, hk, if_neg (by omega),
    if_neg (not_or.mpr ⟨by omega, by omega⟩)]
  have hcount : (d.length - (6 + m.guidCount * 16 + 2 + m.channels.length * 3)) / 5 =
      m.links.length := by omega
  have hresource : get d (6 + m.guidCount * 16) = .ok m.resource := by
    rw [← Nat.add_zero (6 + m.guidCount * 16), get_add hend, get_zero]
  have hslice : slice d 6 (m.guidCount * 16) = .ok m.guids := by
    rw [slice_eq_ok (by omega), h6, ← m.length_guids, List.take_left]
  rw [rows_ok Triple.length_bytes channelAt_ok hchan, ok_bind, hcount,
    rows_ok Five.length_bytes linkAt_ok hlink, ok_bind, hresource, ok_bind, hslice, ok_bind]
  rfl

theorem parseAmc_none {d : List UInt8} (h : ∀ m : Module, d ≠ m.bytes) : parseAmc d = .ok none := by
  unfold parseAmc
  by_cases h8 : d.length < 8
  · rw [if_pos h8]
    rfl
  obtain ⟨header, d1, rfl⟩ := Five.exists_bytes d (by omega)
  rw [List.length_append, Five.length_bytes] at h8 ⊢
  obtain ⟨g, d2, rfl⟩ := List.exists_cons_of_length_pos (l := d1) (by omega)
  have h5 : (header.bytes ++ g :: d2).drop 5 = g :: d2 := rfl
  have h6 : (header.bytes ++ g :: d2).drop 6 = d2 := rfl
  rw [List.length_cons] at h8 ⊢
  rw [if_neg h8, ← Nat.add_zero 5, get_add h5, get_zero, ok_bind]
  by_cases hg : (5 + (d2.length + 1) - 8) / 16 < g.toNat
  · rw [if_pos hg]
    rfl
  rw [if_neg hg]
  dsimp only
  -- the identifiers, and the two bytes behind them
  obtain ⟨guids, d3, hguids, rfl⟩ : ∃ guids d3, guids.length = g.toNat * 16 ∧ d2 = guids ++ d3 :=
    ⟨d2.take (g.toNat * 16), d2.drop (g.toNat * 16), by rw [List.length_take]; omega,
      (List.take_append_drop _ _).symm⟩
  rw [List.length_append, hguids] at h8 hg ⊢
  have hend : (header.bytes ++ g :: (guids ++ d3)).drop (6 + g.toNat * 16) = d3 := by
    rw [← hguids]
    exact drop_of_append h6
  obtain ⟨resource, k, d4, rfl⟩ : ∃ a b t, d3 = a :: b :: t := by
    rcases d3 with _ | ⟨a, _ | ⟨b, t⟩⟩
    all_goals first | exact ⟨_, _, _, rfl⟩ | (simp at h8 hg; omega)
  rw [get_add hend, get_succ, get_zero, ok_bind]
  simp only [List.length_cons] at h8 hg ⊢
  by_cases hk : (5 + (g.toNat * 16 + (d4.length + 1 + 1) + 1) - (6 + g.toNat * 16 + 2)) / 3 <
    k.toNat
  · rw [if_pos hk]
    rfl
  rw [if_neg hk]
  obtain ⟨channels, d5, hchannels, rfl⟩ := exists_rows Triple.length_bytes Triple.exists_bytes
    (n := k.toNat) (l := d4) (by omega)
  have hlength := length_rows Triple.length_bytes channels
  rw [List.length_append, hlength, hchannels] at hk ⊢
  by_cases hrest : 6 + g.toNat * 16 + 2 + k.toNat * 3 =
      5 + (g.toNat * 16 + (k.toNat * 3 + d5.length + 1 + 1) + 1) ∨
      (5 + (g.toNat * 16 + (k.toNat * 3 + d5.length + 1 + 1) + 1) - (6 + g.toNat * 16 + 2 + k.toNat * 3)) % 5 ≠ 0
  · rw [if_pos hrest]
    rfl
  · obtain ⟨hsome, hfive⟩ := not_or.mp hrest
    obtain ⟨links, tail, hlinks, hd5⟩ := exists_rows Five.length_bytes Five.exists_bytes
      (n := d5.length / 5) (l := d5) (by omega)
    have hlength' := length_rows Five.length_bytes links
    have hd5' := congrArg List.length hd5
    rw [List.length_append, hlength'] at hd5'
    obtain rfl : tail = [] := List.length_eq_zero_iff.mp (by omega)
    rw [List.append_nil] at hd5
    subst hd5
    have hbyte : UInt8.ofNat channels.length = k := by rw [hchannels, UInt8.ofNat_toNat]
    refine absurd ?_ (h { header := header, guidCount := g.toNat, guids := guids, resource := resource,
                          channels := channels, links := links, guidCount_lt := g.toNat_lt,
                          length_guids := hguids, length_channels := hchannels ▸ k.toNat_lt,
                          links_ne_nil := fun hnil => ?_ })
    · simp only [Module.bytes, hbyte, UInt8.ofNat_toNat]
    · rw [hnil] at hsome
      simp at hsome
      omega

/-- A module record is five bytes, a count and as many identifiers of 16 bytes, a resource, a count
and as many channels of three bytes, and one or more links of five bytes. -/
theorem parseAmc_ok (d : List UInt8) : ∃ out, parseAmc d = .ok out ∧ ∀ a, out = some a ↔
    ∃ m : Module, d = m.bytes ∧ a = m.decode := by
  by_cases hd : ∃ m : Module, d = m.bytes
  · obtain ⟨m, rfl⟩ := hd
    refine ⟨some m.decode, parseAmc_module m,
      fun a => ⟨fun ha => ⟨m, rfl, (Option.some.inj ha).symm⟩, ?_⟩⟩
    rintro ⟨m', hm, rfl⟩
    have h := parseAmc_module m
    rw [hm, parseAmc_module m'] at h
    exact congrArg some (Option.some.inj (Except.ok.inj h)).symm
  · refine ⟨none, parseAmc_none fun m hm => hd ⟨m, hm⟩, fun a => ⟨nofun, ?_⟩⟩
    rintro ⟨m, hm, -⟩
    exact absurd ⟨m, hm⟩ hd

/-- The three parsers accept their formats exactly, and no read is outside of the data. -/
theorem records_exact :
    (∀ data, ∃ result, Records.parseRecords data = .ok result ∧
      ∀ records, result = some records ↔ Records.Chain records ∧ ∃ start rest,
        data[5]? = some start ∧
        start ≠ 0 ∧ data.drop (start.toNat * 8) = records.flatMap Records.Record.bytes ++ rest) ∧
    (∀ data, ∃ out, resources data = .ok out ∧ ∀ rs, out = some rs ↔
      7 ≤ data.length ∧ ∃ ds : List Descriptor, data.drop 5 = ds.flatMap Descriptor.bytes ∧
        rs = ds.map Descriptor.decode) ∧
    ∀ d, ∃ out, parseAmc d = .ok out ∧ ∀ a, out = some a ↔ ∃ m :
    Module, d = m.bytes ∧ a = m.decode :=
  ⟨Records.parseRecords_ok, resources_ok, parseAmc_ok⟩

end Ipmitool.Ekanalyzer.Bodies
