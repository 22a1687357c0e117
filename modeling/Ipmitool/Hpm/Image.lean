import Ipmitool.Hpm.Agent

/-! # Upgrade images

The header and the action records of an image, and the pre-check of `cmd/hpmfwupg.zig`, which
decides what components are to be updated. The records of an image are read one after the other
until the end or until one is invalid; as reading depends on nothing else, `records` gives them all
at once and says how it ended. -/

namespace Ipmitool.Hpm.Image

open Ipmitool.Lib.Bytes Ipmitool.Hpm.Agent

/-! ### The header -/

/-- `Header`; the timeouts only decide how long is waited. -/
structure Header where
  device : UInt8 := 0
  manufacturer : List UInt8 := [0, 0, 0]
  product : List UInt8 := [0, 0]
  flags : UInt8 := 0
  components : UInt8 := 0
  compRevision0 : UInt8 := 0
  compRevision1 : UInt8 := 0
  firstRecord : ℕ := 0
  deriving DecidableEq

/-- `checksum`. -/
def checksum (bytes : List UInt8) : UInt8 := bytes.foldl (· + ·) 0

/-- The bytes of an image before its signature. -/
def body (image : List UInt8) : List UInt8 := image.take (image.length - 16)

/-- `validateImage`; `md5` is the hash of the standard library. -/
def validateImage (md5 : List UInt8 → List UInt8) (image : List UInt8) : Option Header :=
  let b := body image
  if image.length < 16 then none
  else if md5 b ≠ image.drop (image.length - 16) then none
  else if b.length < 35 then none
  else if b.take 8 ≠ ascii "PICMGFWU" then none
  else if b.getD 8 0 ≠ 0 then none
  else
    let oemLen := (ofLe16 (b.getD 32 0) (b.getD 33 0)).toNat
    if b.length - 35 < oemLen ∨ checksum (b.take (35 + oemLen)) ≠ 0 then none
    else some
      { device := b.getD 9 0
        manufacturer := (b.drop 10).take 3
        product := (b.drop 13).take 2
        flags := b.getD 19 0
        components := b.getD 20 0
        compRevision0 := b.getD 24 0
        compRevision1 := b.getD 25 0
        firstRecord := 35 + oemLen }

/-! ### The records -/

/-- `Record` without the description: back up (0), prepare (1), or upload (2). -/
structure Record where
  kind : UInt8
  components : UInt8
  component : ℕ := 0
  version : List UInt8 := List.replicate 6 0
  payload : List UInt8 := []
  deriving DecidableEq

/-- The highest component of a mask. -/
def highest (mask : UInt8) : ℕ := mask.toNat.log2

/-- `Records.next` at the front of the bytes that are left: the record and the bytes behind it; none
if it is invalid. -/
def next (rest : List UInt8) : Option (Record × List UInt8) :=
  if rest.length < 3 then none
  else
    let kind := rest.getD 0 0
    let mask := rest.getD 1 0
    let firstOk := checksum (rest.take 3) = 0
    if ¬ firstOk ∧ ¬ (kind = 2 ∧ 34 ≤ rest.length ∧ checksum (rest.take 34) = 0) then none
    else if kind = 0 ∨ kind = 1 then some ({ kind, components := mask }, rest.drop 3)
    else if kind ≠ 2 then none
    else if mask = 0 ∨ rest.length < 34 then none
    else
      let details := rest.drop 3
      let size := (ofLe32 (details.getD 27 0) (details.getD 28 0) (details.getD 29 0)
        (details.getD 30 0)).toNat
      if rest.length - 34 < size then none
      else some
        ({ kind, components := mask, component := highest mask, version := details.take 6
           payload := (rest.drop 34).take size }, rest.drop (34 + size))

/-- The records in these bytes, and whether they end well; every record takes up some bytes, so
there are not more records than bytes. -/
def recordsOf : ℕ → List UInt8 → List Record × Bool
  | 0, _ => ([], true)
  | fuel + 1, rest =>
    if rest = [] then ([], true)
    else
      match next rest with
      | none => ([], false)
      | some (r, rest) => (r :: (recordsOf fuel rest).1, (recordsOf fuel rest).2)

/-- `records`. -/
def records (image : List UInt8) (header : Header) : List Record × Bool :=
  let rest := (body image).drop header.firstRecord
  recordsOf rest.length rest

/-! ### The pre-check -/

/-- `Version`, as far as the pre-check reads it. -/
structure Version where
  target : List UInt8 := List.replicate 6 0
  rollback : List UInt8 := List.replicate 6 0
  image : List UInt8 := List.replicate 6 0
  rollbackSupported : UInt8 := 0

/-- `gVersionInfo`. -/
abbrev Versions := ℕ → Version

/-- The modes of an upgrade. -/
structure Mode where
  view : Bool := false
  force : Bool := false
  compare : Bool := false

/-- `Upgrade`. -/
structure Upgrade where
  image : List UInt8
  header : Header
  target : Capabilities := {}
  properties : ℕ → UInt8 := fun _ => 0
  mask : UInt8 := 0
  component : ℕ := 0

/-- `bit`. -/
def bit (value : UInt8) (index : ℕ) : Bool := value &&& (1 <<< UInt8.ofNat index) ≠ 0

/-- `upgradable`. -/
def upgradable (v : Version) : Bool :=
  v.image ≠ v.target ∨ (v.rollbackSupported ≠ 0 ∧ v.image ≠ v.rollback)

/-- A back-up or preparation that a component does not support. -/
def unsupported (properties : ℕ → UInt8) (r : Record) : Bool :=
  (List.range 8).any fun id => bit r.components id ∧
    ((r.kind = 0 ∧ properties id &&& 3 = 0) ∨ (r.kind = 1 ∧ ¬ bit (properties id) 2))

/-- The loop of `precheck`; `selected` are the components that the user named, if any. -/
def precheckLoop (mode : Mode) (selected : ℕ) : List Record → Upgrade → Versions → Option Upgrade
  | [], ctx, _ => some ctx
  | r :: rs, ctx, versions =>
    if r.components ≠ 0 ∧ ctx.target.components = 0 then none
    else if r.kind = 0 ∨ r.kind = 1 then
      if unsupported ctx.properties r then none else precheckLoop mode selected rs ctx versions
    else
      let v := { versions r.component with image := r.version }
      let named := selected = 0 ∨ selected &&& r.components.toNat ≠ 0
      let use := named ∧ (mode.force ∨ mode.compare ∨ upgradable v)
      let ctx :=
        if use then { ctx with mask := ctx.mask ||| (1 <<< UInt8.ofNat r.component) } else ctx
      precheckLoop mode selected rs ctx (Function.update versions r.component v)

/-- `precheck`: none if it fails. -/
def precheck (ctx : Upgrade) (mode : Mode) (selected : ℕ) (versions : Versions) : Option Upgrade :=
  let rs := records ctx.image ctx.header
  match precheckLoop mode selected rs.1 ctx versions with
  | none => none
  | some ctx => if rs.2 then some ctx else none

theorem precheckLoop_keeps {mode : Mode} {selected : ℕ} : ∀ {rs : List Record} {ctx ctx' : Upgrade}
    {versions : Versions}, precheckLoop mode selected rs ctx versions = some ctx' →
    ctx' = { ctx with mask := ctx'.mask }
  | [], ctx, ctx', _, h => by
    obtain rfl := Option.some.inj h
    rfl
  | r :: rs, ctx, ctx', versions, h => by
    rw [precheckLoop] at h
    split_ifs at h with h1 h2 h3
    · exact precheckLoop_keeps h
    · have := precheckLoop_keeps h
      split_ifs at this <;> exact this

theorem precheck_keeps {mode : Mode} {selected : ℕ} {ctx ctx' : Upgrade} {versions : Versions}
    (h : precheck ctx mode selected versions = some ctx') :
    ctx' = { ctx with mask := ctx'.mask } := by
  unfold precheck at h
  dsimp only at h
  split at h
  · cases h
  · rename_i ctx'' hloop
    split_ifs at h
    obtain rfl := Option.some.inj h
    exact precheckLoop_keeps hloop

end Ipmitool.Hpm.Image
