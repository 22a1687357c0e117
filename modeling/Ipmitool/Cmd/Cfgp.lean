import Ipmitool.Util.FloatParse
import Ipmitool.Util.Numbers

/-! # Configuration parameters

`cmd/cfgp.zig`: a table of parameter descriptors, selectors on the command line, and a list of
values that are read from the BMC, saved as commands and parsed back. A string is the list of its
bytes, without the terminating zero, and a selector is none of the table, or -1 where it is open.
Every allocation succeeds. An endless loop gets a number of rounds; `none` means that they did not
suffice. -/

namespace Ipmitool.Cmd.Cfgp

open Ipmitool.Core.Types Ipmitool.Util.IntegerScan Ipmitool.Util.Numbers

/-! ### Descriptors and selectors -/

structure Descriptor where
  name : Option (List UInt8)
  size : ℕ
  traits : UInt32
  deriving DecidableEq

/-- `CFGP_RDONLY` and `CFGP_WRONLY`. -/
def rdonly : UInt32 := 1
def wronly : UInt32 := 2

namespace Descriptor
variable (p : Descriptor)

def flags (shift bits : UInt32) : UInt32 := (p.traits >>> shift) &&& ((1 <<< bits) - 1)

def access : UInt32 := p.flags 0 2
def isSet : Bool := p.flags 2 1 ≠ 0
def firstSet : ℤ := (p.flags 3 1).toNat
def hasBlocks : Bool := p.flags 4 1 ≠ 0
def firstBlock : ℤ := (p.flags 5 1).toNat

end Descriptor

structure Sel where
  param : ℤ
  set : ℤ
  block : ℤ
  deriving DecidableEq

/-- `Data`: a value on the list. -/
structure Node where
  sel : Sel
  data : List UInt8
  deriving DecidableEq

/-- The actions of a handler, by the index of the descriptor, the set and the block; `none` means
that it does not return zero. For a save it returns also what it writes. -/
structure Handler where
  get : ℕ → ℤ → ℤ → Option (List UInt8)
  parse : ℕ → ℤ → ℤ → List (List UInt8) → Option (List UInt8)
  save : ℕ → ℤ → ℤ → List UInt8 → List UInt8 × Bool

structure Context where
  set : List Descriptor
  dialect : Dialect
  handler : Handler
  cmdname : List UInt8
  v : List Node := []

/-! ### Selectors on the command line -/

/-- `c.strcasecmp`, as an equality. -/
def sameName (a b : List UInt8) : Bool :=
  a.map Util.FloatParse.toLower = b.map Util.FloatParse.toLower

/-- A selector that is given as a word, from the first number on. -/
def parseNumber (dialect : Dialect) (first : ℤ) (word : List UInt8) : Except Fault (Option ℤ) := do
  return (← str2int dialect word).bind fun value => if value < 0 ∨ (value = 0 ∧ first ≠ 0) then none
    else some value

/-- What `parseSel` does for the parameter that it has found. -/
def parseFound (dialect : Dialect) (p : Descriptor) (index : ℕ) (args : List (List UInt8)) :
    Except Fault (Option (ℕ × Sel)) := do
  let set : ℤ := if p.isSet then -1 else 0
  let block : ℤ := if p.hasBlocks then -1 else 0
  match args with
  | [] => return some (1, ⟨index, set, block⟩)
  | setWord :: args =>
    if ¬ p.isSet then return some (1, ⟨index, set, block⟩)
    else match ← parseNumber dialect p.firstSet setWord with
      | none => return none
      | some set =>
        match args with
        | [] => return some (2, ⟨index, set, block⟩)
        | blockWord :: _ =>
          if ¬ p.hasBlocks then return some (2, ⟨index, set, block⟩)
          else match ← parseNumber dialect p.firstBlock blockWord with
            | none => return none
            | some block => return some (3, ⟨index, set, block⟩)

/-- The parameter of a name, and its index. -/
def findParam (table : List Descriptor) (word : List UInt8) : Option (Descriptor × ℕ) :=
  table.zipIdx.find? fun entry => entry.1.name.any (sameName · word)

/-- `parseSel`: the number of words and the selector; `none` means -1. -/
def parseSel (ctx : Context) : List (List UInt8) → Except Fault (Option (ℕ × Sel))
  | [] => .ok (some (0, ⟨-1, -1, -1⟩))
  | word :: args =>
    match findParam ctx.set word with
    | none => .ok none
    | some (p, index) => parseFound ctx.dialect p index args

/-- The checks of `parseData`: the descriptor that the selector is accepted for. -/
def accepted (ctx : Context) (sel : Sel) : Option Descriptor :=
  if sel.param < 0 ∨ ctx.set.length ≤ sel.param then none
  else if sel.set = -1 ∨ sel.block = -1 then none
  else (ctx.set[sel.param.toNat]?).filter (·.size ≠ 0)

/-- `parseData`: the context with the value; `none` means -1. -/
def parseData (ctx : Context) (sel : Sel) (args : List (List UInt8)) : Option Context :=
  (accepted ctx sel).bind fun _ =>
    (ctx.handler.parse sel.param.toNat sel.set sel.block args).map fun data =>
      { ctx with v := ctx.v ++ [⟨sel, data⟩] }

/-! ### Reading from the BMC -/

/-- `+%= 1` on a `c_int`. -/
def next (v : ℤ) : ℤ := if v = 2 ^ 31 - 1 then -2 ^ 31 else v + 1

/-- How the inner loop of `getParam` ends: with a return, or with the status of the last call, the
block and the list. -/
inductive Ended where
  | returned (v : List Node)
  | left (failed : Bool) (block : ℤ) (v : List Node)

section
variable (get : ℕ → ℤ → ℤ → Option (List UInt8)) (p : Descriptor) (index rounds : ℕ)

/-- The inner loop of `getParam`. -/
def blockLoop (isOpen : Bool) (set : ℤ) : ℕ → ℤ → Bool → List Node → Option Ended
  | 0, _, _, _ => none
  | rounds + 1, block, quiet, v =>
    match get index set block with
    | none => if quiet then some (.left true block v) else some (.returned v)
    | some data =>
      let v := v ++ [⟨⟨index, set, block⟩, data⟩]
      if isOpen then blockLoop isOpen set rounds (next block) true v
        else some (.left false (next block) v)

/-- The outer loop of `getParam`: whether it returns zero, and the list. -/
def setLoop (isOpen : Bool) (block : ℤ) : ℕ → ℤ → Bool → List Node → Option (Bool × List Node)
  | 0, _, _, _ => none
  | left + 1, set, quiet, v =>
    match blockLoop get index (block = -1) set rounds (if block = -1 then p.firstBlock
      else block) quiet v with
    | none => none
    | some (.returned v) => some (false, v)
    | some (.left failed current v) =>
      if failed ∧ current = p.firstBlock then some (true, v)
      else if isOpen then setLoop isOpen block left (next set) true v else some (true, v)

/-- `getParam`. -/
def getParam (set block : ℤ) (quiet : Bool) (v : List Node) : Option (Bool × List Node) :=
  if p.size = 0 then some (false, v)
  else
    let set := if set = -1 ∧ ¬ p.isSet then 0 else set
    let block := if block = -1 ∧ ¬ p.hasBlocks then 0 else block
    setLoop get p index rounds (set = -1) block rounds (if set = -1 then p.firstSet
      else set) quiet v

/-- The loop of `get` over the parameters. -/
def getAll (set block : ℤ) : List (Descriptor × ℕ) → List Node → Option (Bool × List Node)
  | [], v => some (true, v)
  | (p, index) :: rest, v =>
    if p.access = wronly then getAll set block rest v
    else match getParam get p index rounds set block true v with
      | none => none
      | some (false, v) => some (false, v)
      | some (true, v) => getAll set block rest v

end

/-- `get`: whether it returns zero, and the list. -/
def get (ctx : Context) (rounds : ℕ) (sel : Sel) : Option (Bool × List Node) :=
  if sel.param ≠ -1 then
    match if sel.param < 0 then none else ctx.set[sel.param.toNat]? with
    | none => some (false, ctx.v)
    | some p => getParam ctx.handler.get p sel.param.toNat rounds sel.set sel.block false ctx.v
  else getAll ctx.handler.get rounds sel.set sel.block ctx.set.zipIdx ctx.v

/-! ### Saving -/

/-- `%s`, of a name that is not null, and a space. -/
def nameText (p : Descriptor) : Except Fault (List UInt8) :=
  p.name.elim (.error .nullUnwrap) fun name => .ok (name ++ [0x20])

/-- What `doAction` writes for the selector of a value. -/
def selectorText (p : Descriptor) (sel : Sel) : Except Fault (List UInt8) := do
  return (← nameText p) ++ (if p.isSet then signedDecimal sel.set ++ [0x20] else []) ++
    (if p.hasBlocks then signedDecimal sel.block ++ [0x20] else [])

/-- The value is selected. -/
def Sel.selects (sel item : Sel) : Bool :=
  (sel.param = -1 ∨ sel.param = item.param) ∧ (sel.set = -1 ∨ sel.set = item.set) ∧
    (sel.block = -1 ∨ sel.block = item.block)

/-- `doAction` for `CFGP_SAVE` with the filter of `save`: whether it returns zero, and what it
writes. -/
def save (ctx : Context) (sel : Sel) : List Node → Except Fault (Bool × List UInt8)
  | [] => .ok (true, [])
  | item :: rest =>
    if ¬ sel.selects item.sel then save ctx sel rest
    else if item.sel.param < 0 then .ok (false, [])
    else match ctx.set[item.sel.param.toNat]? with
      | none => .ok (false, [])
      | some p =>
        if p.access = rdonly then save ctx sel rest
        else do
          let selector ← selectorText p item.sel
          let (text, ok) :=
  ctx.handler.save item.sel.param.toNat item.sel.set item.sel.block item.data
          let line := ctx.cmdname ++ [0x20] ++ selector ++ text ++ [0x0a]
          if ok then
            let (result, lines) ← save ctx sel rest
            return (result, line ++ lines)
          else return (false, line)

end Ipmitool.Cmd.Cfgp
