import Ipmitool.Intf.Registry
import Ipmitool.Lanplus.Wire

/-! # Serial requests

`build` of `intf/serial.zig`: the request for either serial mode, in a buffer of any size, with the
Send Message envelopes of a bridged request. Over a system interface the bytes of the first envelope
are overwritten after they were written.

* `writes_message`: the bytes are `message`, whatever is overwritten on the way.
* `build_frames`: they are the request in as many envelopes as it is bridged, with all checksums
  closed, and as many as the length that was computed first. -/

namespace Ipmitool.Serial.Build

open Ipmitool.Lib.Bytes Ipmitool.Lib.Machine Ipmitool.Lib.Buffer Ipmitool.Core.Types
open Ipmitool.Intf.Registry Ipmitool.Lanplus.Build Ipmitool.Lanplus.Wire

/-- `Mode`. -/
inductive Mode where
  | basic
  | terminal
  deriving DecidableEq

/-- `Context`: what the answer to a request is recognised by. -/
structure Context where
  netfn : UInt8 := 0
  seq : UInt8 := 0
  cmd : UInt8 := 0
  sa : UInt8 := 0
  requester : UInt8 := 0
  deriving DecidableEq

/-- `Built`, with the two contexts of `ctx`. -/
structure Built where
  len : ℕ
  depth : ℕ
  first : Context
  second : Context
  deriving DecidableEq

/-! ### The writer -/

/-- `header`. -/
def writeHeader (sa netfn requester seq cmd : UInt8) : W Unit :=
  puts [sa, netfn, 0 - (sa + netfn), requester, seq, cmd]

/-- The header of the message itself. Records of terminal mode carry no addresses. -/
def writeStart (mode : Mode) (netfn seq cmd : UInt8) : W Context :=
  match mode with
  | .basic => do
    writeHeader bmcSlaveAddr netfn remoteSwid seq cmd
    return ⟨netfn, seq, cmd, bmcSlaveAddr, remoteSwid⟩
  | .terminal => do
    puts [netfn, seq, cmd]
    return { netfn, seq, cmd }

/-- The first envelope over a system interface: no tracking, and the requester's LUN makes queued
replies visible. -/
def untrack (firstChannel : ℕ) : W Unit := do
  let channel ← Cursor.cell .outOfBounds firstChannel
  Cursor.patch .outOfBounds firstChannel [channel &&& ~~~0x40]
  let seq ← Cursor.cell .outOfBounds (firstChannel + 5)
  Cursor.patch .outOfBounds (firstChannel + 5) [seq ||| 2]
  let channel ← Cursor.cell .outOfBounds firstChannel
  (if channel ≠ 0 then Cursor.patch .outOfBounds (firstChannel + 4) [bmcSlaveAddr] else pure ())

/-- `ctx[1]`. -/
def innerContext (firstChannel : ℕ) : W Context := do
  let sa ← Cursor.cell .outOfBounds (firstChannel + 1)
  let requester ← Cursor.cell .outOfBounds (firstChannel + 4)
  let netfn ← Cursor.cell .outOfBounds (firstChannel + 2)
  let seq ← Cursor.cell .outOfBounds (firstChannel + 5)
  let cmd ← Cursor.cell .outOfBounds (firstChannel + 6)
  return { sa, requester, netfn, seq, cmd }

/-- The envelope for the transit controller, of a request that has two. -/
def writeTransit (intf : Intf) (seq : UInt8) : W Unit := do
  put (intf.transitChannel ||| 0x40)
  writeHeader intf.transitAddr.toUInt8 0x18 intf.myAddr.toUInt8 seq 0x34

/-- The envelopes of a bridged request up to its data, and where the first one begins. -/
def writeEnvelopes (intf : Intf) (req : Request) (system : Bool) (depth : ℕ) (seq : UInt8) :
    W (ℕ × Context) := do
  let firstChannel ← mark
  (if depth = 2 then writeTransit intf seq else pure ())
  let innerChannel ← mark
  put (intf.targetChannel ||| 0x40)
  writeHeader intf.targetAddr.toUInt8 req.netfnLun intf.myAddr.toUInt8 seq req.cmd
  let firstChannel := if depth = 1 then innerChannel else firstChannel
  (if system then untrack firstChannel else pure ())
  let second ← innerContext firstChannel
  return (firstChannel, second)

/-- The checksum of the outer message, from the four bytes in front of the inner one. -/
def writeOuterCsum (firstChannel : ℕ) : W Unit := do
  let covered ← Cursor.peek .outOfBounds (firstChannel + 4) 4
  put (csum covered)

/-- The checksums of the envelopes, behind the data. -/
def writeCsums (dataLen depth firstChannel : ℕ) : W Unit := do
  let pos ← mark
  putCsum (pos - dataLen - 3)
  (if depth = 2 then writeOuterCsum firstChannel else pure ())

/-- What `build` writes. -/
def writeMessage (mode : Mode) (intf : Intf) (req : Request) (system : Bool) (depth : ℕ)
    (seq : UInt8) :
    W (Context × Context) := do
  let first ← writeStart mode (if depth = 0 then req.netfnLun else 0x18) seq
    (if depth = 0 then req.cmd else 0x34)
  let envelopes ← (if depth = 0 then pure (0, {}) else writeEnvelopes intf req system depth seq)
  puts req.data
  (if depth ≠ 0 then writeCsums req.data.length depth envelopes.1 else pure ())
  (if mode = .basic then putCsum 3 else pure ())
  return (first, envelopes.2)

/-- `nextSequence`: the counter of a mode stays below 64, and the number is in the upper bits. -/
def sequenceByte (counter : Fin 64) : UInt8 := UInt8.ofNat counter.val <<< 2

/-- The length of the message. -/
def messageLength (mode : Mode) (depth : ℕ) (req : Request) : ℕ :=
  req.data.length + (if mode = .basic then 7 else 3) + depth * 8

/-- `build`, into the buffer `out`: nothing for `error.InvalidRequest`, else what it returns and the
buffer. `counter` is the sequence counter after `nextSequence`. -/
def build (mode : Mode) (intf : Intf) (req : Request) (out : List UInt8) (system : Bool)
    (counter : Fin 64) : Except Fault (Option (Built × List UInt8)) :=
  let depth := getBridgingLevel intf
  if depth > 2 then .ok none
  else if messageLength mode depth req > out.length then .ok none
  else do
    let ((first, second), w) ← writeMessage mode intf req system depth (sequenceByte counter) ⟨out,
        0, 0⟩
    if w.len ≠ messageLength mode depth req then throw .assertFailed
    return some (⟨w.len, depth, first, second⟩, w.cells)

/-! ### The message -/

/-- The channel byte of the first envelope. -/
def channelByte (system : Bool) (channel : UInt8) : UInt8 :=
  if system then (channel ||| 0x40) &&& ~~~0x40 else channel ||| 0x40

/-- The sequence byte of the first inner message, with the requester's LUN. -/
def innerSeq (system : Bool) (seq : UInt8) : UInt8 := if system then seq ||| 2 else seq

/-- The requester of the first inner message. -/
def innerRequester (intf : Intf) (system : Bool) (channel : UInt8) : UInt8 :=
  if system ∧ channelByte system channel ≠ 0 then bmcSlaveAddr else intf.myAddr.toUInt8

/-- The request as its target receives it. -/
def targeted (intf : Intf) (req : Request) (requester seq : UInt8) : List UInt8 :=
  checksummed [intf.targetAddr.toUInt8, req.netfnLun] ([requester, seq, req.cmd] ++ req.data)

/-- The data of the message itself. -/
def content (intf : Intf) (req : Request) (system : Bool) (seq : UInt8) : ℕ → List UInt8
  | 0 => req.data
  | 1 => channelByte system intf.targetChannel ::
      targeted intf req (innerRequester intf system intf.targetChannel) (innerSeq system seq)
  | _ => channelByte system intf.transitChannel ::
      checksummed [intf.transitAddr.toUInt8, 0x18]
        ([innerRequester intf system intf.transitChannel, innerSeq system seq, 0x34,
          intf.targetChannel ||| 0x40] ++ targeted intf req intf.myAddr.toUInt8 seq)

/-- A message of a mode. -/
def enclosed (mode : Mode) (netfn seq cmd : UInt8) (data : List UInt8) : List UInt8 :=
  match mode with
  | .basic => checksummed [bmcSlaveAddr, netfn] ([remoteSwid, seq, cmd] ++ data)
  | .terminal => [netfn, seq, cmd] ++ data

/-- The message that `build` writes. -/
def message (mode : Mode) (intf : Intf) (req : Request) (system : Bool) (depth : ℕ) (seq : UInt8) :
    List UInt8 :=
  enclosed mode (if depth = 0 then req.netfnLun else 0x18) seq (if depth = 0 then req.cmd else 0x34)
    (content intf req system seq depth)

/-! ### What is written -/

theorem header_csum (sa netfn : UInt8) : 0 - (sa + netfn) = csum [sa, netfn] := by
  simp [csum]

/-- Behind `t`, the first bytes of an envelope are overwritten. -/
theorem writes_untrack (t y : List UInt8) (channel sa netfn c requester seq : UInt8) :
    Writes (untrack t.length) (t ++ [channel, sa, netfn, c, requester, seq] ++ y) ()
      (t ++ [channel &&& ~~~0x40, sa, netfn, c,
        if channel &&& ~~~0x40 ≠ 0 then bmcSlaveAddr else requester, seq ||| 2] ++ y) := by
  have hchannel : (t ++ [channel, sa, netfn, c, requester, seq] ++ y)[t.length]? =
      some channel := by
    simp
  have hseq : (t ++ [channel &&& ~~~0x40, sa, netfn, c, requester, seq] ++ y)[t.length + 5]? =
      some seq := by simp
  have hagain : (t ++ [channel &&& ~~~0x40, sa, netfn, c, requester, seq ||| 2] ++ y)[t.length]? =
      some (channel &&& ~~~0x40) := by simp
  have hpatch : ∀ (x y : List UInt8) (b b' : UInt8),
      Writes (Cursor.patch Fault.outOfBounds x.length [b'])
      (x ++ [b] ++ y) () (x ++ [b'] ++ y) := fun x y b b' => writes_patch x y rfl
  have hpatch1 := hpatch t ([sa, netfn, c, requester, seq] ++ y) channel (channel &&& ~~~0x40)
  have hpatch2 := hpatch (t ++ [channel &&& ~~~0x40, sa, netfn, c, requester]) y seq (seq ||| 2)
  have hpatch3 :=
    hpatch (t ++ [channel &&& ~~~0x40, sa, netfn, c]) ([seq ||| 2] ++ y) requester bmcSlaveAddr
  simp only [List.append_assoc, List.cons_append, List.nil_append, List.length_append,
    List.length_cons, List.length_nil] at hchannel hseq hagain hpatch1 hpatch2 hpatch3 ⊢
  refine (writes_cell hchannel).bind <| hpatch1.bind <| (writes_cell hseq).bind <| hpatch2.bind <|
    (writes_cell hagain).bind ?_
  split_ifs with hc
  · exact hpatch3
  · exact writes_pure ()


theorem writes_innerContext (t y : List UInt8) (channel sa netfn c requester seq cmd : UInt8) :
    Writes (innerContext t.length) (t ++ [channel, sa, netfn, c, requester, seq, cmd] ++ y)
      ⟨netfn, seq, cmd, sa, requester⟩
        (t ++ [channel, sa, netfn, c, requester, seq, cmd] ++ y) := by
  refine (writes_cell (x := sa) ?_).bind <| (writes_cell (x := requester) ?_).bind <|
    (writes_cell (x := netfn) ?_).bind <| (writes_cell (x := seq) ?_).bind <|
      (writes_cell (x := cmd) ?_).bind (writes_pure _)
  all_goals simp

theorem emits_writeHeader (t : List UInt8) (sa netfn requester seq cmd : UInt8) :
    Emits .outOfBounds (writeHeader sa netfn requester seq cmd) t ()
      [sa, netfn, csum [sa, netfn], requester, seq, cmd] := by
  rw [← header_csum]
  exact emits_puts _

/-- The context of the message itself. -/
def startContext (mode : Mode) (netfn seq cmd : UInt8) : Context :=
  match mode with
  | .basic => ⟨netfn, seq, cmd, bmcSlaveAddr, remoteSwid⟩
  | .terminal => { netfn, seq, cmd }

/-- The header of the message itself. -/
def start (mode : Mode) (netfn seq cmd : UInt8) : List UInt8 :=
  match mode with
  | .basic => [bmcSlaveAddr, netfn, csum [bmcSlaveAddr, netfn], remoteSwid, seq, cmd]
  | .terminal => [netfn, seq, cmd]

theorem emits_writeStart (mode : Mode) (netfn seq cmd : UInt8) :
    Emits .outOfBounds (writeStart mode netfn seq cmd) [] (startContext mode netfn seq cmd)
      (start mode netfn seq cmd) := by
  rw [← List.append_nil (start mode netfn seq cmd)]
  cases mode with
  | basic => exact Emits.bind (emits_writeHeader _ _ _ _ _ _) (emits_pure _)
  | terminal => exact Emits.bind (emits_puts _) (emits_pure _)

/-- The envelopes of a bridged request up to its data. -/
def envelopes (intf : Intf) (req : Request) (system : Bool) (seq : UInt8) : ℕ → List UInt8
  | 1 =>
    [channelByte system intf.targetChannel, intf.targetAddr.toUInt8, req.netfnLun,
      csum [intf.targetAddr.toUInt8, req.netfnLun], innerRequester intf system intf.targetChannel,
      innerSeq system seq, req.cmd]
  | _ =>
    [channelByte system intf.transitChannel, intf.transitAddr.toUInt8, 0x18,
      csum [intf.transitAddr.toUInt8, 0x18], innerRequester intf system intf.transitChannel,
      innerSeq system seq, 0x34, intf.targetChannel ||| 0x40, intf.targetAddr.toUInt8, req.netfnLun,
      csum [intf.targetAddr.toUInt8, req.netfnLun], intf.myAddr.toUInt8, seq, req.cmd]

/-- `ctx[1]` of a bridged request. -/
def secondContext (intf : Intf) (req : Request) (system : Bool) (seq : UInt8) : ℕ → Context
  | 1 => ⟨req.netfnLun, innerSeq system seq, req.cmd, intf.targetAddr.toUInt8,
      innerRequester intf system intf.targetChannel⟩
  | _ => ⟨0x18, innerSeq system seq, 0x34, intf.transitAddr.toUInt8,
      innerRequester intf system intf.transitChannel⟩

/-- The first envelope after it was written with tracking. -/
theorem writes_first (intf : Intf) (system : Bool) (t y : List UInt8)
    (channel sa netfn c seq : UInt8) :
    Writes (if system then untrack t.length else pure ())
      (t ++ [channel ||| 0x40, sa, netfn, c, intf.myAddr.toUInt8, seq] ++ y) ()
      (t ++ [channelByte system channel, sa, netfn, c, innerRequester intf system channel,
        innerSeq system seq] ++ y) := by
  cases system with
  | false => exact writes_pure ()
  | true =>
    have h := writes_untrack t y (channel ||| 0x40) sa netfn c intf.myAddr.toUInt8 seq
    simpa [channelByte, innerRequester, innerSeq] using h

theorem writes_envelopes (intf : Intf) (req : Request) (system : Bool) (seq : UInt8)
    (t : List UInt8) {depth : ℕ} (h : depth = 1 ∨ depth = 2) :
    Writes (writeEnvelopes intf req system depth seq) t
      (t.length, secondContext intf req system seq depth)
        (t ++ envelopes intf req system seq depth) := by
  have hput : ∀ (u : List UInt8) (b : UInt8), Writes (put b) u () (u ++ [b]) := fun u b =>
    (emits_put b).writes
  have hheader : ∀ (u : List UInt8) (sa netfn requester seq cmd : UInt8),
      Writes (writeHeader sa netfn requester seq cmd) u ()
        (u ++ [sa, netfn, csum [sa, netfn], requester, seq, cmd]) := fun u _ _ _ _ _ =>
    (emits_writeHeader u _ _ _ _ _).writes
  rcases h with rfl | rfl
  · have hfirst := writes_first intf system t [req.cmd] intf.targetChannel intf.targetAddr.toUInt8
      req.netfnLun (csum [intf.targetAddr.toUInt8, req.netfnLun]) seq
    have hcontext := writes_innerContext t [] (channelByte system intf.targetChannel)
      intf.targetAddr.toUInt8 req.netfnLun (csum [intf.targetAddr.toUInt8, req.netfnLun])
      (innerRequester intf system intf.targetChannel) (innerSeq system seq) req.cmd
    have hwritten :=
      hheader (t ++ [intf.targetChannel ||| 0x40]) intf.targetAddr.toUInt8 req.netfnLun
        intf.myAddr.toUInt8 seq req.cmd
    simp only [List.append_assoc, List.cons_append, List.nil_append] at hfirst hcontext hwritten
    exact writes_mark.bind <| (writes_pure ()).bind <| writes_mark.bind <| (hput t _).bind <|
      hwritten.bind <| hfirst.bind <| hcontext.bind <| writes_pure _
  · let inner : List UInt8 := [intf.targetChannel ||| 0x40, intf.targetAddr.toUInt8, req.netfnLun,
      csum [intf.targetAddr.toUInt8, req.netfnLun], intf.myAddr.toUInt8, seq, req.cmd]
    have htransit := hheader (t ++ [intf.transitChannel ||| 0x40]) intf.transitAddr.toUInt8 0x18
      intf.myAddr.toUInt8 seq 0x34
    have hwritten := hheader (t ++ [intf.transitChannel ||| 0x40, intf.transitAddr.toUInt8, 0x18,
      csum [intf.transitAddr.toUInt8, 0x18], intf.myAddr.toUInt8, seq,
      0x34] ++ [intf.targetChannel ||| 0x40])
      intf.targetAddr.toUInt8 req.netfnLun intf.myAddr.toUInt8 seq req.cmd
    have hfirst :=
      writes_first intf system t (0x34 :: inner) intf.transitChannel intf.transitAddr.toUInt8
        0x18 (csum [intf.transitAddr.toUInt8, 0x18]) seq
    have hcontext := writes_innerContext t inner (channelByte system intf.transitChannel)
      intf.transitAddr.toUInt8 0x18 (csum [intf.transitAddr.toUInt8, 0x18])
      (innerRequester intf system intf.transitChannel) (innerSeq system seq) 0x34
    have hchannel := hput (t ++ [intf.transitChannel ||| 0x40, intf.transitAddr.toUInt8, 0x18,
      csum [intf.transitAddr.toUInt8, 0x18], intf.myAddr.toUInt8, seq,
      0x34]) (intf.targetChannel ||| 0x40)
    simp only [List.append_assoc, List.cons_append, List.nil_append, inner]
      at htransit hchannel hfirst hcontext hwritten
    exact writes_mark.bind <| ((hput t _).bind htransit).bind <| writes_mark.bind <|
      hchannel.bind <| hwritten.bind <| hfirst.bind <| hcontext.bind <| writes_pure _

theorem sum_from (a : UInt8) (ys : List UInt8) : ys.foldl (· + ·) a = a + ys.foldl (· + ·) 0 := by
  induction ys generalizing a with
  | nil => simp
  | cons b ys ih => rw [List.foldl_cons, List.foldl_cons, ih, ih (0 + b), UInt8.zero_add,
    UInt8.add_assoc]

theorem sum_append (xs ys : List UInt8) :
    (xs ++ ys).foldl (· + ·) 0 = xs.foldl (· + ·) 0 + ys.foldl (· + ·) 0 := by
  rw [List.foldl_append, sum_from]

theorem closed_append {xs ys : List UInt8} (hx : Closed xs) (hy : Closed ys) :
    Closed (xs ++ ys) := by
  rw [Closed, sum_append, hx, hy]
  rfl

theorem closed_checksummed (header body : List UInt8) : Closed (checksummed header body) := by
  have h := closed_append (closed_csum header) (closed_csum body)
  rwa [← List.append_assoc] at h

theorem csum_append_closed (xs : List UInt8) {ys : List UInt8} (h : Closed ys) :
    csum (xs ++ ys) = csum xs := by
  rw [csum, sum_append, h, UInt8.add_zero, ← csum]

/-- The checksum of the innermost message, of the last bytes written. -/
theorem writes_inner_csum (u head : List UInt8) (requester seq : UInt8) (req : Request)
    (hu : u = head ++ ([requester, seq, req.cmd] ++ req.data)) :
    Writes (putCsum (u.length - req.data.length - 3)) u ()
      (head ++ ([requester, seq, req.cmd] ++ req.data) ++
        [csum ([requester, seq, req.cmd] ++ req.data)]) := by
  have hpos : u.length - req.data.length - 3 = head.length := by
    simp only [hu, List.length_append, List.length_cons, List.length_nil]
    omega
  have hclose := (emits_close (e := Fault.outOfBounds) csum head ([requester, seq,
    req.cmd] ++ req.data) hu).writes
  rw [hpos, ← hu]
  exact hclose

theorem writes_csums (intf : Intf) (req : Request) (system : Bool) (seq : UInt8) {depth : ℕ}
    (t : List UInt8) (h : depth = 1 ∨ depth = 2) :
    Writes (writeCsums req.data.length depth t.length)
      (t ++ envelopes intf req system seq depth ++ req.data) ()
      (t ++ content intf req system seq depth) := by
  rcases h with rfl | rfl
  · have hinner := writes_inner_csum (t ++ envelopes intf req system seq 1 ++ req.data)
      (t ++ [channelByte system intf.targetChannel, intf.targetAddr.toUInt8, req.netfnLun,
        csum [intf.targetAddr.toUInt8, req.netfnLun]])
      (innerRequester intf system intf.targetChannel) (innerSeq system seq) req
      (by simp only [envelopes, List.append_assoc, List.cons_append, List.nil_append])
    have htext : content intf req system seq 1 = [channelByte system intf.targetChannel,
        intf.targetAddr.toUInt8, req.netfnLun, csum [intf.targetAddr.toUInt8, req.netfnLun]] ++
          ([innerRequester intf system intf.targetChannel, innerSeq system seq,
            req.cmd] ++ req.data) ++
          [csum ([innerRequester intf system intf.targetChannel, innerSeq system seq,
            req.cmd] ++ req.data)] := by
      simp only [content, targeted, checksummed, List.cons_append, List.nil_append]
    rw [htext, ← List.append_assoc, ← List.append_assoc]
    exact writes_mark.bind (hinner.bind (writes_pure ()))
  · have hinner := writes_inner_csum (t ++ envelopes intf req system seq 2 ++ req.data)
      (t ++ [channelByte system intf.transitChannel, intf.transitAddr.toUInt8, 0x18,
        csum [intf.transitAddr.toUInt8, 0x18], innerRequester intf system intf.transitChannel,
        innerSeq system seq, 0x34, intf.targetChannel ||| 0x40, intf.targetAddr.toUInt8,
        req.netfnLun, csum [intf.targetAddr.toUInt8, req.netfnLun]])
      intf.myAddr.toUInt8 seq req
      (by simp only [envelopes, List.append_assoc, List.cons_append, List.nil_append])
    let covered : List UInt8 :=
      [innerRequester intf system intf.transitChannel, innerSeq system seq, 0x34,
        intf.targetChannel ||| 0x40]
    have hpeek :=
      writes_peek (e := Fault.outOfBounds) (t ++ [channelByte system intf.transitChannel,
        intf.transitAddr.toUInt8, 0x18, csum [intf.transitAddr.toUInt8, 0x18]]) covered
      (targeted intf req intf.myAddr.toUInt8 seq)
    have hsum := csum_append_closed covered
      (closed_checksummed [intf.targetAddr.toUInt8, req.netfnLun]
        ([intf.myAddr.toUInt8, seq, req.cmd] ++ req.data))
    have hput : ∀ u : List UInt8, Writes (put (csum covered)) u () (u ++ [csum covered]) := fun u =>
      (emits_put _).writes
    have htext : content intf req system seq 2 = [channelByte system intf.transitChannel,
        intf.transitAddr.toUInt8, 0x18, csum [intf.transitAddr.toUInt8, 0x18]] ++ covered ++
          targeted intf req intf.myAddr.toUInt8 seq ++ [csum covered] := by
      rw [← hsum]
      simp only [content, targeted, checksummed, covered, List.append_assoc, List.cons_append,
        List.nil_append]
    have houter : Writes (writeOuterCsum t.length) (t ++ [channelByte system intf.transitChannel,
        intf.transitAddr.toUInt8, 0x18, csum [intf.transitAddr.toUInt8, 0x18]] ++ covered ++
          targeted intf req intf.myAddr.toUInt8 seq) () (t ++ content intf req system seq 2) := by
      rw [htext, ← List.append_assoc, ← List.append_assoc, ← List.append_assoc]
      rw [List.length_append] at hpeek
      exact hpeek.bind (hput _)
    refine writes_mark.bind (hinner.bind ?_)
    simpa only [targeted, checksummed, covered, List.append_assoc, List.cons_append,
      List.nil_append, if_true] using houter

theorem writes_last_csum (mode : Mode) (netfn seq cmd : UInt8) (xs : List UInt8) :
    Writes (if mode = .basic then putCsum 3 else pure ()) (start mode netfn seq cmd ++ xs) ()
      (enclosed mode netfn seq cmd xs) := by
  cases mode with
  | basic =>
    have hclose : Writes (putCsum 3) _ () _ := (emits_close (e := Fault.outOfBounds) csum
      [bmcSlaveAddr, netfn, csum [bmcSlaveAddr, netfn]] ([remoteSwid, seq, cmd] ++ xs) rfl).writes
    simpa only [enclosed, checksummed, start, List.append_assoc, List.cons_append, List.nil_append,
      if_true] using hclose
  | terminal => exact writes_pure ()

/-- The contexts of a request. -/
def contexts (mode : Mode) (intf : Intf) (req : Request) (system : Bool) (depth : ℕ) (seq : UInt8) :
    Context × Context :=
  (startContext mode (if depth = 0 then req.netfnLun
    else 0x18) seq (if depth = 0 then req.cmd else 0x34), if depth = 0 then {}
      else secondContext intf req system seq depth)

/-- **What `build` writes** is the message. -/
theorem writes_message (mode : Mode) (intf : Intf) (req : Request) (system : Bool) (seq : UInt8)
    {depth : ℕ} (h : depth ≤ 2) :
    Writes (writeMessage mode intf req system depth seq) []
      (contexts mode intf req system depth seq) (message mode intf req system depth seq) := by
  have hstart := fun netfn cmd => (emits_writeStart mode netfn seq cmd).writes
  have hdata : ∀ u : List UInt8, Writes (puts req.data) u () (u ++ req.data) := fun u =>
    (emits_puts req.data).writes
  rcases Nat.eq_zero_or_pos depth with rfl | hpos
  · exact (hstart req.netfnLun req.cmd).bind <| (writes_pure (0, ({} : Context))).bind <|
      (hdata _).bind <|
      (writes_pure ()).bind <| (writes_last_csum mode _ _ _ _).bind <| writes_pure _
  · have hdepth : depth = 1 ∨ depth = 2 := by omega
    have hne : depth ≠ 0 := by omega
    have henv := writes_envelopes intf req system seq (start mode 0x18 seq 0x34) hdepth
    have hcsums := writes_csums intf req system seq (start mode 0x18 seq 0x34) hdepth
    simp only [writeMessage, message, contexts, if_neg hne, if_pos hne]
    exact (hstart 0x18 0x34).bind <| henv.bind <| (hdata _).bind <| hcsums.bind <|
      (writes_last_csum mode _ _ _ _).bind <| writes_pure _

/-! ### Reading a request -/

/-- What the receiver of a record reads: the message carries no addresses. -/
def parseRecord (n : ℕ) : List UInt8 → Option (List Envelope × Message)
  | netfnLun :: seq :: cmd :: data =>
    let m : Message := ⟨0, netfnLun.toNat / 4, netfnLun.toNat % 4, 0, seq, cmd, data⟩
    match n with
    | 0 => some ([], m)
    | n + 1 => do
      let (e, inner) ← unwrapSend m
      let (es, r) ← parseNested n inner
      return (e :: es, r)
  | _ => none

/-- What the receiver of a mode reads, in `n` envelopes. Both checksums of every layer must close; a
record itself has none. -/
def parse (mode : Mode) (n : ℕ) (bytes : List UInt8) : Option (List Envelope × Message) :=
  match mode with
  | .basic => parseNested n bytes
  | .terminal => parseRecord n bytes

/-- `bytes` are the request `req` in exactly `level` Send Message envelopes. -/
def Framed (mode : Mode) (level : ℕ) (req : Request) (bytes : List UInt8) : Prop :=
  ∃ es m, parse mode level bytes = some (es, m) ∧ es.length = level ∧ m.netfn = req.netfn.val ∧
    m.lun = req.lun.val ∧ m.cmd = req.cmd ∧ m.data = req.data

/-- The innermost message as it is read. -/
def innermost (sa requester seq : UInt8) (req : Request) : Message :=
  ⟨sa, req.netfn.val, req.lun.val, requester, seq, req.cmd, req.data⟩

theorem parseNested_targeted (intf : Intf) (req : Request) (requester seq : UInt8) :
    parseNested 0 (targeted intf req requester seq) =
      some ([], innermost intf.targetAddr.toUInt8 requester seq req) := by
  rw [parseNested, targeted, parseMessage_checksummed, netfnLun_div, netfnLun_mod]
  rfl

/-- What the data of a bridged message is read as, behind its channel byte. -/
theorem parseNested_content (intf : Intf) (req : Request) (system : Bool) (seq : UInt8) {depth : ℕ}
    (h : depth = 1 ∨ depth = 2) : ∃ channel inner es m,
    content intf req system seq depth = channel :: inner ∧
      parseNested (depth - 1) inner = some (es, m) ∧
      es.length + 1 = depth ∧ m.netfn = req.netfn.val ∧ m.lun = req.lun.val ∧ m.cmd = req.cmd ∧
      m.data = req.data := by
  rcases h with rfl | rfl
  · exact ⟨_, _, _, _, rfl, parseNested_targeted _ _ _ _, rfl, rfl, rfl, rfl, rfl⟩
  · have hnested := parseNested_envelope intf.transitAddr.toUInt8
      (innerRequester intf system intf.transitChannel) (innerSeq system seq)
        (intf.targetChannel ||| 0x40)
      (parseNested_targeted intf req intf.myAddr.toUInt8 seq)
    exact ⟨_, _, _, _, rfl, hnested, rfl, rfl, rfl, rfl, rfl⟩

theorem framed_message (mode : Mode) (intf : Intf) (req : Request) (system : Bool) (seq : UInt8)
    {depth : ℕ} (h : depth ≤ 2) :
    Framed mode depth req (message mode intf req system depth seq) := by
  rcases Nat.eq_zero_or_pos depth with rfl | hpos
  · have hdiv := netfnLun_div req
    have hmod := netfnLun_mod req
    have hread := parseMessage_checksummed bmcSlaveAddr req.netfnLun remoteSwid seq req.cmd req.data
    cases mode with
    | basic =>
      refine ⟨[], ⟨bmcSlaveAddr, req.netfnLun.toNat / 4, req.netfnLun.toNat % 4, remoteSwid,
        seq, req.cmd, req.data⟩, ?_, rfl, hdiv, hmod, rfl, rfl⟩
      exact congrArg (Option.map ([], ·)) hread
    | terminal =>
      exact ⟨[], ⟨0, req.netfnLun.toNat / 4, req.netfnLun.toNat % 4, 0, seq, req.cmd, req.data⟩,
        rfl, rfl, hdiv, hmod, rfl, rfl⟩
  · have hnested : depth = 1 ∨ depth = 2 := by omega
    obtain ⟨channel, inner, es, m, hcontent, hparse, hlen, hm⟩ :=
      parseNested_content intf req system seq hnested
    obtain ⟨n, rfl⟩ : ∃ n, depth = n + 1 := ⟨depth - 1, by omega⟩
    have hmessage : message mode intf req system (n + 1) seq =
        enclosed mode 0x18 seq 0x34 (channel :: inner) := by
      rw [← hcontent]
      rfl
    rw [hmessage]
    cases mode with
    | basic =>
      have hwhole := parseNested_envelope bmcSlaveAddr remoteSwid seq channel hparse
      exact ⟨_, m, hwhole, hlen, hm⟩
    | terminal =>
      refine ⟨⟨0, 0, seq, channel⟩ :: es, m, ?_, hlen, hm⟩
      have hsend : unwrapSend ⟨0, 6, 0, 0, seq, 0x34, channel :: inner⟩ =
          some (⟨0, 0, seq, channel⟩, inner) := by
        rw [unwrapSend, if_pos ⟨rfl, rfl, rfl⟩]
      have hread : parse .terminal (n + 1) (enclosed .terminal 0x18 seq 0x34 (channel :: inner)) =
          (unwrapSend ⟨0, 6, 0, 0, seq, 0x34, channel :: inner⟩).bind fun x =>
            (parseNested n x.2).bind fun y => some (x.1 :: y.1, y.2) := rfl
      rw [Nat.add_sub_cancel] at hparse
      rw [hread, hsend, Option.bind_some, hparse, Option.bind_some]

theorem length_checksummed (header body : List UInt8) :
    (checksummed header body).length = header.length + body.length + 2 := by
  simp only [checksummed, List.length_append, List.length_singleton]
  omega

theorem length_message (mode : Mode) (intf : Intf) (req : Request) (system : Bool) (seq : UInt8)
    {depth : ℕ} (h : depth ≤ 2) :
    (message mode intf req system depth seq).length = messageLength mode depth req := by
  have hcontent : (content intf req system seq depth).length = req.data.length + depth * 8 := by
    obtain rfl | rfl | rfl : depth = 0 ∨ depth = 1 ∨ depth = 2 := by omega
    · rfl
    · simp only [content, targeted, List.length_cons, length_checksummed, List.length_append,
        List.length_nil]
      omega
    · simp only [content, targeted, List.length_cons, length_checksummed, List.length_append,
        List.length_nil]
      omega
  cases mode with
  | basic =>
    simp only [message, enclosed, length_checksummed, List.length_append, List.length_cons,
      List.length_nil, hcontent, messageLength, if_true]
    omega
  | terminal =>
    have hmode : ¬ Mode.terminal = .basic := by decide
    simp only [message, enclosed, List.length_append, List.length_cons, List.length_nil, hcontent,
      messageLength, if_neg hmode]
    omega

theorem getBridgingLevel_le (intf : Intf) : getBridgingLevel intf ≤ 2 := by
  unfold getBridgingLevel
  split_ifs <;> omega

theorem build_eq (mode : Mode) (intf : Intf) (req : Request) {out : List UInt8} (system : Bool)
    (counter : Fin 64) (hfit : messageLength mode (getBridgingLevel intf) req ≤ out.length) :
    build mode intf req out system counter =
      .ok (some (⟨messageLength mode (getBridgingLevel intf) req, getBridgingLevel intf,
          (contexts mode intf req system (getBridgingLevel intf) (sequenceByte counter)).1,
          (contexts mode intf req system (getBridgingLevel intf) (sequenceByte counter)).2⟩,
        message mode intf req system (getBridgingLevel intf) (sequenceByte counter) ++
          out.drop (messageLength mode (getBridgingLevel intf) req))) := by
  have hle := getBridgingLevel_le intf
  have hdepth : ¬ 2 < getBridgingLevel intf := by omega
  have hlen := length_message mode intf req system (sequenceByte counter) hle
  have hrun := (writes_message mode intf req system (sequenceByte counter) hle).2 [] out
    (by rw [hlen, List.length_nil]; omega)
  rw [hlen] at hrun
  have hroom : ¬ out.length < messageLength mode (getBridgingLevel intf) req := by omega
  simp only [build, gt_iff_lt, if_neg hdepth, if_neg hroom]
  have hrun' : writeMessage mode intf req system (getBridgingLevel intf) (sequenceByte counter)
      ⟨out, 0, 0⟩ =
      .ok (contexts mode intf req system (getBridgingLevel intf) (sequenceByte counter),
        ⟨message mode intf req system (getBridgingLevel intf) (sequenceByte counter) ++
          out.drop (messageLength mode (getBridgingLevel intf) req), 0,
          messageLength mode (getBridgingLevel intf) req⟩) := hrun
  rw [hrun']
  exact if_neg (not_not.mpr rfl)

/-- **Serial requests are framed exactly.** `build` refuses a request exactly if the computed length
is more than the buffer holds; otherwise it writes as many bytes as the computed length, and they
are the request in as many envelopes as it is bridged, with every checksum closed. -/
theorem build_frames (mode : Mode) (intf : Intf) (req : Request) (out : List UInt8) (system : Bool)
    (counter : Fin 64) :
    (out.length < messageLength mode (getBridgingLevel intf) req ∧
      build mode intf req out system counter = .ok none) ∨
    ∃ built cells, build mode intf req out system counter = .ok (some (built, cells)) ∧
      built.depth = getBridgingLevel intf ∧ built.len = messageLength mode built.depth req ∧
      built.len ≤ out.length ∧ Framed mode built.depth req (cells.take built.len) := by
  by_cases hlong : out.length < messageLength mode (getBridgingLevel intf) req
  · have hle := getBridgingLevel_le intf
    have hdepth : ¬ 2 < getBridgingLevel intf := by omega
    refine .inl ⟨hlong, ?_⟩
    simp only [build, gt_iff_lt, if_neg hdepth, if_pos hlong]
  · have hle := getBridgingLevel_le intf
    have hlen := length_message mode intf req system (sequenceByte counter) hle
    have hfit : messageLength mode (getBridgingLevel intf) req ≤ out.length := by omega
    refine .inr ⟨_, _, build_eq mode intf req system counter hfit, rfl, rfl, hfit, ?_⟩
    rw [← hlen, List.take_left]
    exact framed_message mode intf req system (sequenceByte counter) hle

end Ipmitool.Serial.Build
