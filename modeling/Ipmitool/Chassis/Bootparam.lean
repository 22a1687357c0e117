import Ipmitool.Core.Types
import Ipmitool.Util.CalendarFormat

/-! # The text of a boot parameter

`writeChassisBootparam` and `writeChassisBootmailbox` of `cmd/chassis.zig`, the text that is printed
for a reply of Get System Boot Options. The writer takes everything. A slice of the reply that
leaves its data array, or of the text buffer that leaves the buffer, is a fault; the C functions
that name a manufacturer and print a timestamp are parameters. -/

namespace Ipmitool.Chassis.Bootparam

open Ipmitool.Core.Types Ipmitool.Lib.Bytes Ipmitool.Lib.Mem
open Ipmitool.Util.Calendar (decimal)

/-! ### Pieces of text -/

/-- `c.val2str(iana, c.ipmi_oem_info)` and `c.ipmi_timestamp_numeric`. -/
structure Names where
  manufacturer : UInt32 → List UInt8
  timestamp : UInt32 → List UInt8

/-- `bpFlag`, and the test for it. -/
def hasFlag (flags : UInt32) (bit : UInt32) : Bool := flags &&& (1 <<< bit) ≠ 0

def paramNoGenericInfo : UInt32 := 0
def paramNoDataDump : UInt32 := 1
def mboxParseUseText : UInt32 := 3
def mboxParseAllblocks : UInt32 := 4

/-- A number in base 16, with leading zeros. -/
def hexadecimal (width value : ℕ) : List UInt8 :=
  let digits := (Nat.toDigits 16 value).map fun c => UInt8.ofNat c.toNat
  List.replicate (width - digits.length) 0x30 ++ digits

/-- `writeBootparamHex`. -/
def writeBootparamHex (bytes : List UInt8) : List UInt8 :=
  (bytes.take 1536).flatMap fun byte => hexadecimal 2 byte.toNat

/-- A text that is written if all bits of a mask are set. -/
def whenSet (byte bits : UInt8) (text : String) : List UInt8 :=
  if byte &&& bits = bits then ascii text else []

/-- The lines of the bits that are set. -/
def flagLines (byte mask : UInt8) (lines : List (UInt8 × String)) : List UInt8 :=
  if byte &&& mask ≠ 0 then lines.flatMap fun line => whenSet byte line.1 line.2
  else ascii "     No flag set\n"

/-- The text of a value, from a table. -/
def choose (value : UInt8) (table : List (UInt8 × String)) (other : String) : List UInt8 :=
  ascii ((table.lookup value).getD other)

section
variable (r : Response)

/-- A slice of the data array. -/
def slice (start n : ℕ) : Except Fault (List UInt8) :=
  if start + n ≤ bufSize then .ok (Lib.Mem.read r.data start n) else .error .outOfBounds

/-! ### The mailbox -/

def ianaSize : ℕ := 3
def blockSize : ℕ := 16

/-- `c.ipmi24toh`. -/
def ipmi24toh (start : ℕ) : UInt32 := ofLe32 (r.data start) (r.data (start + 1))
    (r.data (start + 2)) 0

/-- The length of the data of a block, a `usize`. -/
def mailboxLength (start len : ℕ) : ℕ :=
  if r.data start = 0 then (len - 1 + 2 ^ 64 - ianaSize) % 2 ^ 64 else len - 1

/-- Where the data of a block begins. -/
def mailboxStart (start : ℕ) : ℕ := if r.data start = 0 then start + 1 + ianaSize else start + 1

/-- `writeChassisBootmailbox`, of the buffer that begins in the data array. -/
def writeChassisBootmailbox (names : Names) (start len : ℕ) (flags : UInt32) :
    Except Fault (List UInt8) := do
  let useText := hasFlag flags mboxParseUseText
  let allBlocks := hasFlag flags mboxParseAllblocks
  if len = 0 then return []
  let block := r.data start
  let selector := if allBlocks then [] else ascii " Selector       : " ++
    decimal block.toNat ++ ascii "\n"
  let iana := if block = 0 then
      ascii " IANA PEN       : " ++ decimal (ipmi24toh r (start + 1)).toNat ++ ascii " [" ++
        names.manufacturer (ipmi24toh r (start + 1)) ++ ascii "]\n"
    else []
  let number := decimal block.toNat
  let title := ascii " Block " ++
    if allBlocks then List.replicate (3 - number.length) 0x20 ++ number ++ ascii " Data : "
      else ascii "Data     : "
  if useText then
    if blockSize + 1 < mailboxLength r start len then throw .outOfBounds
    let text ← slice r (mailboxStart r start) (mailboxLength r start len)
    return selector ++ iana ++ title ++ ascii "'" ++ text.takeWhile (· ≠ 0) ++ ascii "'\n"
  else
    let bytes ← slice r (mailboxStart r start) (mailboxLength r start len)
    return selector ++ iana ++ title ++ writeBootparamHex bytes ++ ascii "\n"

/-! ### The boot flags -/

/-- `writeBootFlags`. -/
def writeBootFlags : List UInt8 :=
  ascii " Boot Flags :\n" ++
  ascii (if r.data 2 &&& 0x80 ≠ 0 then "   - Boot Flag Valid\n" else "   - Boot Flag Invalid\n") ++
  ascii (if r.data 2 &&& 0x40 ≠ 0 then "   - Options apply to all future boots\n"
    else "   - Options apply to only next boot\n") ++
  ascii (if r.data 2 &&& 0x20 ≠ 0 then "   - BIOS EFI boot \n"
    else "   - BIOS PC Compatible (legacy) boot \n") ++
  whenSet (r.data 3) 0x80 "   - CMOS Clear\n" ++
  whenSet (r.data 3) 0x40 "   - Lock Keyboard\n" ++
  ascii "   - Boot Device Selector : " ++
  choose (r.data 3 &&& 0x3c)
    [(0x00, "No override\n"), (0x04, "Force PXE\n"), (0x08, "Force Boot from default Hard-Drive\n"),
     (0x0c, "Force Boot from default Hard-Drive, request Safe-Mode\n"),
     (0x10, "Force Boot from Diagnostic Partition\n"), (0x14, "Force Boot from CD/DVD\n"),
     (0x18, "Force Boot into BIOS Setup\n"),
     (0x1c, "Force Boot from remotely connected Floppy/primary removable media\n"),
     (0x20, "Force Boot from remotely connected CD/DVD\n"),
     (0x24, "Force Boot from primary remote media\n"),
     (0x2c, "Force Boot from remotely connected Hard-Drive\n"),
     (0x3c, "Force Boot from Floppy/primary removable media\n")] "Flag error\n" ++
  whenSet (r.data 3) 0x02 "   - Screen blank\n" ++
  whenSet (r.data 3) 0x01 "   - Lock out Reset buttons\n" ++
  whenSet (r.data 4) 0x80 "   - Lock out (power off/sleep request) via Power Button\n" ++
  ascii "   - BIOS verbosity : " ++
  choose (r.data 4 &&& 0x60)
    [(0x00, "System Default\n"), (0x20, "Request Quiet Display\n"),
      (0x40, "Request Verbose Display\n")]
    "Flag error\n" ++
  whenSet (r.data 4) 0x10 "   - Force progress event traps\n" ++
  whenSet (r.data 4) 0x08 "   - User password bypass\n" ++
  whenSet (r.data 4) 0x04 "   - Lock Out Sleep Button\n" ++
  ascii "   - Console Redirection control : " ++
  choose (r.data 4 &&& 0x03)
    [(0, "Console redirection occurs per BIOS configuration setting (default)\n"),
     (1, "Suppress (skip) console redirection if enabled\n"),
     (2, "Request console redirection be enabled\n")]
    "Flag error\n" ++
  whenSet (r.data 5) 0x08 "   - BIOS Shared Mode Override\n" ++
  ascii "   - BIOS Mux Control Override : " ++
  choose (r.data 5 &&& 0x07)
    [(0, "BIOS uses recommended setting of the mux at the end of POST\n"),
     (1, "Requests BIOS to force mux to BMC at conclusion of POST/start of OS boot\n"),
     (2, "Requests BIOS to force mux to system at conclusion of POST/start of OS boot\n")]
     "Flag error\n"

/-! ### All parameters -/

/-- `param_id`. -/
def paramId : UInt8 := r.data 1 &&& 0x7f

/-- The length that the parameter's own data has, `@max(rsp.data_len - 2, 0)`. -/
def bodyLength : ℕ := (max (r.dataLen - 2) 0).toNat

/-- The lines that do not depend on the parameter. -/
def writeGeneric (flags : UInt32) : Except Fault (List UInt8) := do
  if hasFlag flags paramNoGenericInfo then return []
  let head := ascii "Boot parameter version: " ++ decimal (r.data 0).toNat ++ ascii "\n" ++
    ascii "Boot parameter " ++ decimal (paramId r).toNat ++ ascii " is " ++
    ascii (if r.data 1 &&& 0x80 ≠ 0 then "invalid/locked" else "valid/unlocked") ++ ascii "\n"
  if hasFlag flags paramNoDataDump then return head
  let bytes ← slice r 2 (bodyLength r)
  return head ++ ascii "Boot parameter data: " ++ writeBootparamHex bytes ++ ascii "\n"

/-- The lines of the parameter. -/
def writeParam (names : Names) (flags : UInt32) : Except Fault (List UInt8) :=
  match (paramId r).toNat with
  | 0 => .ok (ascii " Set In Progress : " ++
      choose (r.data 2 &&& 0x03)
        [(0, "set complete\n"), (1, "set in progress\n"),
          (2, "commit write\n")] "error, reserved bit\n")
  | 1 => .ok (ascii " Service Partition Selector : " ++
      if r.data 2 = 0 then ascii "unspecified\n" else decimal (r.data 2).toNat ++ ascii "\n")
  | 2 => .ok (ascii " Service Partition Scan :\n" ++
      flagLines (r.data 2) 0x03
        [(0x01, "     - Request BIOS to scan\n"), (0x02, "     - Service Partition Discovered\n")])
  | 3 => .ok (ascii " BMC boot flag valid bit clearing :\n" ++
      flagLines (r.data 2) 0x1f
        [(0x10, "     - Don't clear valid bit on reset/power cycle cause by PEF\n"),
         (0x08, "     - Don't automatically clear boot flag valid bit on timeout\n"),
         (0x04, "     - Don't clear valid bit on reset/power cycle cause by watchdog\n"),
         (0x02, "     - Don't clear valid bit on push button reset // soft reset\n"),
         (0x01, "     - Don't clear valid bit on power up via power push button or wake event\n")])
  | 4 => .ok (ascii " Boot Info Acknowledge :\n" ++
      flagLines (r.data 3) 0x1f
        [(0x10, "    - OEM has handled boot info\n"), (0x08, "    - SMS has handled boot info\n"),
         (0x04, "    - OS // service partition has handled boot info\n"),
         (0x02, "    - OS Loader has handled boot info\n"),
         (0x01, "    - BIOS/POST has handled boot info\n")])
  | 5 => .ok (writeBootFlags r)
  | 6 =>
    let sessionId := ofLe32 (r.data 3) (r.data 4) (r.data 5) (r.data 6)
    let timestamp := ofLe32 (r.data 7) (r.data 8) (r.data 9) (r.data 10)
    .ok (ascii " Boot Initiator Info :\n" ++
      ascii "    Channel Number : " ++ decimal (r.data 2 &&& 0x0f).toNat ++ ascii "\n" ++
      ascii "    Session Id     : " ++
      (hexadecimal 8 sessionId.toNat).map (fun byte => if 0x61 ≤ byte then byte - 0x20
        else byte) ++ ascii "h\n" ++
      ascii "    Timestamp      : " ++ names.timestamp timestamp ++ ascii "\n")
  | 7 => writeChassisBootmailbox r names 2 (bodyLength r) flags
  | _ => .ok (ascii " Unsupported parameter " ++ decimal (paramId r).toNat ++ ascii "\n")

/-- `writeChassisBootparam`. -/
def writeChassisBootparam (names : Names) (flags : UInt32) : Except Fault (List UInt8) := do
  return (← writeGeneric r flags) ++ (← writeParam r names flags)

end

/-! ### Which replies are rendered -/

/-- The rendering returns. -/
def Renders (x : Except Fault (List UInt8)) : Prop := ∃ text, x = .ok text

/-- A reply fits into its array. -/
def Received (r : Response) : Prop := 0 ≤ r.dataLen ∧ r.dataLen ≤ bufSize

/-- The data of a mailbox block: block zero holds the manufacturer, and a text fits into the
buffer. -/
def BlockFits (r : Response) (flags : UInt32) : Prop :=
  let len := (r.dataLen - 3).toNat
  r.dataLen ≤ 2 ∨ (r.data 2 = 0 → ianaSize ≤ len) ∧
    (hasFlag flags mboxParseUseText = true → len ≤ (if r.data 2 = 0 then ianaSize
      else 0) + (blockSize + 1))

theorem slice_ok {r : Response} {start n : ℕ} (h : start + n ≤ bufSize) :
    slice r start n = .ok (Lib.Mem.read r.data start n) := if_pos h

theorem slice_error {r : Response} {start n : ℕ} (h : ¬ start + n ≤ bufSize) :
    slice r start n = .error .outOfBounds := if_neg h

theorem renders_ok (text : List UInt8) : Renders (.ok text) := ⟨text, rfl⟩

theorem not_renders_error (e : Fault) : ¬ Renders (.error e) := by
  rintro ⟨text, h⟩
  cases h

theorem writeGeneric_ok {r : Response} (h : Received r) (flags : UInt32) :
    Renders (writeGeneric r flags) := by
  have hlen : 2 + bodyLength r ≤ bufSize := by
    obtain ⟨hlow, hhigh⟩ := h
    unfold bodyLength bufSize at *
    omega
  unfold writeGeneric
  by_cases hgeneric : hasFlag flags paramNoGenericInfo = true
  · rw [if_pos hgeneric]
    exact renders_ok _
  rw [if_neg hgeneric]
  dsimp only
  by_cases hdata : hasFlag flags paramNoDataDump = true
  · rw [if_pos hdata]
    exact renders_ok _
  · rw [if_neg hdata, slice_ok hlen]
    exact renders_ok _

/-- A block that is not empty is rendered if its data is in the array, and in the buffer if it is a
text. -/
theorem renders_mailbox_iff {r : Response} {start len : ℕ} (hlen : len ≠ 0) (names : Names)
    (flags : UInt32) :
    Renders (writeChassisBootmailbox r names start len flags) ↔
      (hasFlag flags mboxParseUseText = true → mailboxLength r start len ≤ blockSize + 1) ∧
        mailboxStart r start + mailboxLength r start len ≤ bufSize := by
  unfold writeChassisBootmailbox
  dsimp only
  rw [if_neg hlen]
  by_cases htext : hasFlag flags mboxParseUseText = true
  · rw [if_pos htext]
    by_cases hlong : blockSize + 1 < mailboxLength r start len
    · rw [if_pos hlong]
      exact ⟨fun h => absurd h (not_renders_error _),
        fun h => absurd (h.1 htext) (Nat.not_le.mpr hlong)⟩
    rw [if_neg hlong]
    by_cases hfits : mailboxStart r start + mailboxLength r start len ≤ bufSize
    · rw [slice_ok hfits]
      exact ⟨fun _ => ⟨fun _ => Nat.not_lt.mp hlong, hfits⟩, fun _ => renders_ok _⟩
    · rw [slice_error hfits]
      exact ⟨fun h => absurd h (not_renders_error _), fun h => absurd h.2 hfits⟩
  · rw [if_neg htext]
    by_cases hfits : mailboxStart r start + mailboxLength r start len ≤ bufSize
    · rw [slice_ok hfits]
      exact ⟨fun _ => ⟨fun h => absurd h htext, hfits⟩, fun _ => renders_ok _⟩
    · rw [slice_error hfits]
      exact ⟨fun h => absurd h (not_renders_error _), fun h => absurd h.2 hfits⟩

/-- **The mailbox** is rendered if and only if its block fits. -/
theorem renders_mailbox {r : Response} (h : Received r) (names : Names) (flags : UInt32) :
    Renders (writeChassisBootmailbox r names 2 (bodyLength r) flags) ↔ BlockFits r flags := by
  obtain ⟨hlow, hhigh⟩ := h
  have hbody : (bodyLength r : ℤ) = max (r.dataLen - 2) 0 := by
    unfold bodyLength
    omega
  by_cases hempty : bodyLength r = 0
  · have hfits : BlockFits r flags := .inl (by omega)
    refine ⟨fun _ => hfits, fun _ => ?_⟩
    unfold writeChassisBootmailbox
    dsimp only
    rw [if_pos hempty]
    exact renders_ok _
  rw [renders_mailbox_iff hempty]
  unfold BlockFits mailboxStart mailboxLength ianaSize blockSize bufSize at *
  -- the vendor number of block zero is taken off the length, which wraps if it is not there
  by_cases hzero : r.data 2 = 0
  · rw [if_pos hzero, if_pos hzero]
    by_cases hshort : bodyLength r < 4
    · have hwrap : (bodyLength r - 1 + 2 ^ 64 - 3) % 2 ^ 64 = bodyLength r - 1 + 2 ^ 64 - 3 :=
        Nat.mod_eq_of_lt (by omega)
      rw [hwrap]
      refine ⟨fun h => by omega, fun h => ?_⟩
      rcases h with h | ⟨h, -⟩
      · omega
      · have := h hzero
        omega
    · have hwrap : (bodyLength r - 1 + 2 ^ 64 - 3) % 2 ^ 64 = bodyLength r - 4 := by omega
      rw [hwrap]
      constructor
      · rintro ⟨htext, -⟩
        exact .inr ⟨fun _ => by omega, fun h => by rw [if_pos hzero]; have := htext h; omega⟩
      · rintro (h | ⟨-, htext⟩)
        · omega
        · refine ⟨fun h => ?_, by omega⟩
          have := htext h
          rw [if_pos hzero] at this
          omega
  · rw [if_neg hzero, if_neg hzero]
    constructor
    · rintro ⟨htext, -⟩
      exact .inr ⟨fun h => absurd h hzero, fun h => by rw [if_neg hzero]; have := htext h; omega⟩
    · rintro (h | ⟨-, htext⟩)
      · omega
      · refine ⟨fun h => ?_, by omega⟩
        have := htext h
        rw [if_neg hzero] at this
        omega

theorem writeParam_ok {r : Response} (h : paramId r ≠ 7) (names : Names) (flags : UInt32) :
    Renders (writeParam r names flags) := by
  have hne : (paramId r).toNat ≠ 7 := fun heq => h (UInt8.toNat_inj.mp heq)
  unfold writeParam
  split
  all_goals first | exact renders_ok _ | contradiction

theorem renders_bootparam {r : Response} (h : Received r) (names : Names) (flags : UInt32) :
    Renders (writeChassisBootparam r names flags) ↔ (paramId r = 7 → BlockFits r flags) := by
  obtain ⟨head, hhead⟩ := writeGeneric_ok h flags
  have hrenders : Renders (writeChassisBootparam r names flags) ↔
      Renders (writeParam r names flags) := by
    unfold writeChassisBootparam
    rw [hhead]
    rcases writeParam r names flags with e | text
    · exact ⟨fun h => absurd h (not_renders_error e), fun h => absurd h (not_renders_error e)⟩
    · exact ⟨fun _ => renders_ok _, fun _ => renders_ok _⟩
  rw [hrenders]
  by_cases hseven : paramId r = 7
  · have hmailbox : writeParam r names flags =
        writeChassisBootmailbox r names 2 (bodyLength r) flags := by
      unfold writeParam
      rw [hseven]
      rfl
    rw [hmailbox, renders_mailbox h]
    exact ⟨fun h _ => h, fun h => h hseven⟩
  · exact ⟨fun _ h => absurd h hseven, fun _ => writeParam_ok hseven names flags⟩

/-- **A reply is rendered** if and only if the block fits in case it is one of the mailbox; the
mailbox itself is rendered if and only if the block fits. -/
theorem writeChassisBootparam_iff {r : Response} (h : Received r) (names : Names) (flags : UInt32) :
    (Renders (writeChassisBootparam r names flags) ↔ (paramId r = 7 → BlockFits r flags)) ∧
      (Renders (writeChassisBootmailbox r names 2 (bodyLength r) flags) ↔ BlockFits r flags) :=
  ⟨renders_bootparam h names flags, renders_mailbox h names flags⟩

/-- A reply of four bytes for the block zero of the mailbox. -/
def shortMailbox : Response := { data := fun i => if i = 1 then 7 else 0, dataLen := 4 }

/-- A reply of twenty-one bytes for the block one, printed as a text. -/
def longMailbox : Response :=
  { data := fun i => if i = 1 then 7 else if i = 2 then 1 else 0x41, dataLen := 21 }

def someNames : Names := ⟨fun _ => ascii "Unknown", fun _ => ascii "Unspecified"⟩

theorem writeChassisBootparam_iff_long : Renders (writeChassisBootparam longMailbox someNames 0) :=
  ((writeChassisBootparam_iff ⟨by decide, by decide⟩ someNames 0).1.mpr fun _ =>
    .inr ⟨fun h => absurd h (by decide), fun h => absurd h (by decide)⟩)

/-- Neither the block zero without a vendor number nor a long text is rendered. -/
theorem mailbox_faults : Received shortMailbox ∧
    ¬ Renders (writeChassisBootparam shortMailbox someNames 0) ∧
    Received longMailbox ∧ ¬ Renders (writeChassisBootparam longMailbox someNames 8) := by
  have hshort : Received shortMailbox := ⟨by decide, by decide⟩
  have hlong : Received longMailbox := ⟨by decide, by decide⟩
  refine ⟨hshort, fun h => ?_, hlong, fun h => ?_⟩
  · rcases (renders_bootparam hshort someNames 0).mp h rfl with h | ⟨h, -⟩
    · exact absurd h (by decide)
    · exact absurd (h rfl) (by decide)
  · rcases (renders_bootparam hlong someNames 8).mp h rfl with h | ⟨-, h⟩
    · exact absurd h (by decide)
    · exact absurd (h (by decide)) (by decide)

end Ipmitool.Chassis.Bootparam
