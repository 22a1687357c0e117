import Ipmitool.Lib.Interleave
import Mathlib.Data.Vector.Defs

/-! # Changes of LAN parameters

The commands of `cmd/lanp.zig` that change a part of a LAN parameter:
`lan set <ch> arp generate|respond`, `lan set <ch> auth` and `lan alert set`. Each reads the current
value, changes it, and hands the new value to `set`, which takes the set-in-progress lock, writes
the parameter, commits and releases the lock.

The commands are dialogues with the BMC, so that two of them can be interleaved. The channel is the
same throughout and does not appear in the requests. -/

namespace Ipmitool.Cmd.Lanp

open Ipmitool.Lib.Interleave

/-- `Param`, those that are read or written here. -/
inductive Param where
  | progress
  | authEnable
  | arp
  | destinations
  | destType
  | destAddr
  deriving DecidableEq

/-- Get and Set LAN Configuration Parameters. -/
inductive Query where
  | get (p : Param) (selector : UInt8)
  | set (p : Param) (value : List UInt8)
  deriving DecidableEq

/-- A response, its first byte of data being the revision of the parameter. -/
structure Answer where
  ccode : UInt8
  data : List UInt8
  deriving DecidableEq

/-- There may be no response. -/
abbrev Reply := Option Answer

/-- `Err`. -/
inductive Err where
  | commandFailed
  | shortResponse
  | invalidParameter
  deriving DecidableEq

/-- A command that talks to the BMC. -/
abbrev M := Talk Query Reply

/-! ### Requests -/

/-- What `get` makes of a response. -/
def valueOf : Reply → Except Err (Option (List UInt8))
  | none => .error .commandFailed
  | some rsp =>
    if rsp.ccode ≠ 0 then
      if rsp.ccode = 0x80 ∨ rsp.ccode = 0xc9 ∨ rsp.ccode = 0xcc then .ok none
      else .error .commandFailed
    else
      match rsp.data with
      | [] => .ok none
      | _ :: value => .ok (some value)

/-- `get`. -/
def get (p : Param) (selector : UInt8) : M (Except Err (Option (List UInt8))) := do
  let rsp ← Talk.query (.get p selector)
  return valueOf rsp

/-- `required`. -/
def required (v : Option (List UInt8)) (len : ℕ) : Except Err (List UInt8) :=
  match v with
  | none => .error .shortResponse
  | some bytes => if bytes.length < len then .error .shortResponse else .ok bytes

/-- The request is sent again until it succeeds. -/
def retry (p : Param) (value : List UInt8) : ℕ → M Bool
  | 0 => return false
  | tries + 1 => do
    let next ← Talk.query (.set p value)
    match next with
    | none => retry p value tries
    | some next => if next.ccode = 0 then return true else retry p value tries

/-- The parameter is read until it has the value that was written. -/
def verify (p : Param) (value : List UInt8) : ℕ → M Bool
  | 0 => return false
  | tries + 1 => do
    let check ← get p 0
    if check = .ok (some value) then return true else verify p value tries

/-- What `rawSet` does about the completion code: a parameter out of range is sent again, an
unspecified error is left to the verification. -/
def settle (p : Param) (value : List UInt8) (ccode : UInt8) : M Bool :=
  if ccode ≠ 0 ∧ ccode ≠ 0xff then
    if ccode ≠ 0xcc then return false else retry p value 10
  else return true

/-- `rawSet`. -/
def rawSet (p : Param) (value : List UInt8) (wait : Bool) : M (Except Err Unit) := do
  if 30 < value.length then return .error .invalidParameter
  let rsp ← Talk.query (.set p value)
  match rsp with
  | none => return .error .commandFailed
  | some rsp =>
    if ¬ wait then
      if rsp.ccode ≠ 0 then return .error .commandFailed else return .ok ()
    else do
      let sent ← settle p value rsp.ccode
      if ¬ sent then return .error .commandFailed
      let seen ← verify p value 11
      if seen then return .ok () else return .error .commandFailed

/-- The lock is read: is it known to be free? -/
def unlocked : M Bool := do
  let state ← get .progress 0
  match state with
  | .ok (some (b :: _)) => return b &&& 3 ≠ 1
  | _ => return false

/-- The loop of `lock`, with the number of requests left. Whether they succeed is not looked at. -/
def lockLoop : ℕ → M Unit
  | 0 => do
    let _ ← unlocked
    return ()
  | tries + 1 => do
    let free ← unlocked
    if free then
      let _ ← rawSet .progress [1] false
      lockLoop tries
    else return ()

/-- `lock`. -/
def lock : M Unit := lockLoop 3

/-- `set`: did the write succeed? -/
def set (p : Param) (value : List UInt8) (wait : Bool) : M Bool := do
  lock
  let result ← rawSet p value wait
  let _ ← rawSet .progress [2] false
  let _ ← rawSet .progress [0] false
  return result matches .ok ()

/-! ### Commands -/

/-- The value of a parameter, if it is long enough. -/
def current (p : Param) (selector : UInt8) (len : ℕ) : M (Except Err (List UInt8)) := do
  let v ← get p selector
  return v >>= fun v => required v len

/-- The ARP control byte: `generate` is bit 0, `respond` is bit 1. -/
def arpFlags (generate on : Bool) (b : UInt8) : UInt8 :=
  let bit : UInt8 := if generate then 1 else 2
  if on then b ||| bit else b &&& ~~~bit

/-- The branch of `setLan` for `arp generate|respond on|off`. -/
def setArp (generate on : Bool) : M Bool := do
  let v ← current .arp 0 1
  match v with
  | .ok (b :: _) => set .arp [arpFlags generate on b] true
  | _ => return false

/-- `std.ascii.eqlIgnoreCase`. -/
def eqlIgnoreCase (a b : List Char) : Bool := a.map Char.toLower == b.map Char.toLower

/-- What is left of a string behind each of its commas. -/
def behindCommas : List Char → List (List Char)
  | [] => []
  | c :: cs => if c = ',' then cs :: behindCommas cs else behindCommas cs

/-- From the beginning of each token of a string to its end: this is what the tokens are compared
by. -/
def suffixes (s : List Char) : List (List Char) := s :: behindCommas s

/-- The bit of an authentication type; an invalid one has none. -/
def typeBit (s : List Char) : UInt8 :=
  if eqlIgnoreCase s "none".toList then 1
  else if eqlIgnoreCase s "md2".toList then 2
  else if eqlIgnoreCase s "md5".toList then 4
  else if eqlIgnoreCase s "password".toList ∨ eqlIgnoreCase s "key".toList then 16
  else if eqlIgnoreCase s "oem".toList then 32
  else 0

/-- The index of a privilege level. -/
def levelIndex (s : List Char) : Option ℕ :=
  if eqlIgnoreCase s "callback".toList then some 0
  else if eqlIgnoreCase s "user".toList then some 1
  else if eqlIgnoreCase s "operator".toList then some 2
  else if eqlIgnoreCase s "admin".toList then some 3
  else none

/-- The bits of a list of authentication types. -/
def authBits (types : List Char) : UInt8 :=
  (suffixes types).foldl (fun bits s => bits ||| typeBit s) 0

/-- The levels named in a list. -/
def authLevels (level : List Char) : List ℕ := (suffixes level).filterMap levelIndex

/-- The bits are stored for every level that is named. -/
def authData (level types : List Char) (data : List UInt8) : List UInt8 :=
  (authLevels level).foldl (fun data i => data.set i (authBits types)) data

/-- `authSet`. -/
def authSet (level types : List Char) : M Bool := do
  let v ← current .authEnable 0 5
  match v with
  | .ok b => set .authEnable (authData level types (b.take 5)) true
  | .error _ => return false

/-- The types of an alert destination. -/
inductive DestinationType where
  | pet
  | oem1
  | oem2

/-- The option of `lan alert set` and its value, parsed. -/
inductive AlertOption where
  | ipaddr (ip : List.Vector UInt8 4)
  | macaddr (mac : List.Vector UInt8 6)
  | gateway (backup : Bool)
  | ack (on : Bool)
  | type (t : DestinationType)
  | time (seconds : UInt8)
  | retry (number : UInt8)

/-- Does the option belong to the destination address? -/
def AlertOption.address : AlertOption → Bool
  | .ipaddr _ | .macaddr _ | .gateway _ => true
  | _ => false

/-- The parameter that has the option. -/
def AlertOption.param (o : AlertOption) : Param := if o.address then .destAddr else .destType

/-- Copy `bytes` over the data from `off` on. -/
def copyOver (data : List UInt8) (off : ℕ) (bytes : List UInt8) : List UInt8 :=
  data.mapIdx fun i b => if off ≤ i then (bytes[i - off]?).getD b else b

/-- The data with the option changed. -/
def AlertOption.edit (data : List UInt8) : AlertOption → List UInt8
  | .ipaddr ip => copyOver data 3 ip.toList
  | .macaddr mac => copyOver data 7 mac.toList
  | .gateway backup => data.set 2 (if backup then 1 else 0)
  | .ack on => data.modify 1 fun b => if on then b ||| 0x80 else b &&& ~~~0x80
  | .type .pet => data.modify 1 fun b => b &&& ~~~7
  | .type .oem1 => data.modify 1 fun b => b &&& ~~~7 ||| 6
  | .type .oem2 => data.modify 1 fun b => b ||| 7
  | .time seconds => data.set 2 seconds
  | .retry number => data.set 3 (number &&& 7)

/-- `validDestination`. -/
def validDestination (dest : UInt8) : M Bool := do
  let v ← current .destinations 0 1
  match v with
  | .ok (b :: _) => return dest ≤ b &&& 15
  | _ => return false

/-- `setDestination`. -/
def setDestination (dest : UInt8) (o : AlertOption) : M Bool := do
  let v ← get o.param dest
  match v with
  | .ok (some old) =>
    let minLen := if o.address then 13 else 4
    if old.length < minLen ∨ 30 < old.length then return false
    else set o.param (o.edit old) false
  | _ => return false

/-- The end of `alertLan`. -/
def alertLan (dest : UInt8) (o : AlertOption) : M Bool := do
  let valid ← validDestination dest
  if ¬ valid then return false
  setDestination dest o

/-- The commands that change a part of a parameter. -/
inductive Command where
  | arp (generate on : Bool)
  | auth (level types : List Char)
  | alert (dest : UInt8) (o : AlertOption)

/-- What a command does; the value says if it reports success. -/
def Command.run : Command → M Bool
  | .arp generate on => setArp generate on
  | .auth level types => authSet level types
  | .alert dest o => alertLan dest o

end Ipmitool.Cmd.Lanp
