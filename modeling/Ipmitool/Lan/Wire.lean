import Ipmitool.Lan.Send
import Ipmitool.Lanplus.Wire

/-! # Nested Send Message framing

`buildCmd` of `intf/lan.zig` as it writes: into a buffer of the length it allocated, with the
offsets of the checksums, of the authcode and of the message saved on the way. `writeCmd_eq` says
that the buffer ends up with the bytes of `cmdPacket`.

`nested_framing` puts the two transports side by side: the bytes read back as exactly the envelopes
of the bridging level around the request, with all checksums closed, and the length that is sent is
the number of bytes written. The buffer of a bridged command is filled exactly; that of an unbridged
one has room for an envelope that is not written (`unbridged_room`). -/

namespace Ipmitool.Lan.Wire

open Ipmitool.Lib.Bytes Ipmitool.Lib.Machine Ipmitool.Lib.Buffer Ipmitool.Core.Types
open Ipmitool.Lanplus.Build Ipmitool.Lanplus.Bridging Ipmitool.Lanplus.Wire
open Ipmitool.Lan.Send

variable (A : Auth)

/-! ### The writer -/

/-- The length of the buffer. -/
def allocatedCmd (intf : Intf) (session : Session) (req : Request) : ℕ :=
  req.data.length + 29 + (if session.active = true ∧ session.authtype ≠ 0 then 16 else 0) +
    (if intf.transitAddr ≠ intf.myAddr ∧ intf.transitAddr ≠ 0 then 8 else 0)

/-- The message behind the length byte. -/
def putMessage (intf : Intf) (level : ℕ) (rqSeq : UInt8) (req : Request) : W Unit := do
  let own := intf.myAddr.toUInt8
  let target := intf.targetAddr.toUInt8
  match level with
  | 0 => putRequest bmcSlaveAddr remoteSwid rqSeq req
  | 1 =>
    putHeader bmcSlaveAddr (UInt8.ofNat (netfnApp.val <<< 2))
    let cs2 ← mark
    putTrack remoteSwid rqSeq intf.targetChannel
    putRequest target own rqSeq req
    putCsum cs2
  | _ =>
    putHeader bmcSlaveAddr (UInt8.ofNat (netfnApp.val <<< 2))
    let cs2 ← mark
    putTrack remoteSwid rqSeq intf.transitChannel
    putHeader intf.transitAddr.toUInt8 (UInt8.ofNat (netfnApp.val <<< 2))
    let cs3 ← mark
    putTrack own rqSeq intf.targetChannel
    putRequest target own rqSeq req
    putCsum cs3
    putCsum cs2

/-- The message length byte. -/
def lengthByte (level : ℕ) (req : Request) : UInt8 := UInt8.ofNat (req.data.length + 7 + 8 * level)

/-- Everything but the authcode that depends on the message: the offsets of the authcode and of the
message are returned. -/
def putCmd (intf : Intf) (session : Session) (level : ℕ) (rqSeq : UInt8) (req : Request) :
    W (ℕ × ℕ) := do
  puts rmcpHdr
  put (if session.active then session.authtype else 0)
  puts (le32 session.inSeq)
  puts (le32 session.sessionId)
  let ap ← mark
  puts (if session.active = true ∧ session.authtype ≠ 0 then session.authcode.take 16 else [])
  put (lengthByte level req)
  let mp ← mark
  putMessage intf level rqSeq req
  return (ap, mp)

/-- The authcode depends on the message. -/
def Digested (session : Session) : Prop :=
  session.active = true ∧ (session.authtype = authtypeMd5 ∨ session.authtype = authtypeMd2)

instance (session : Session) : Decidable (Digested session) := by unfold Digested; infer_instance

/-- The authcode over the bytes `body`. -/
def digest (session : Session) (body : List UInt8) : List UInt8 :=
  (if session.authtype = authtypeMd5 then A.md5 session body else A.md2 session body).take 16

/-- Some authcodes depend on the message, so they are done last. They cover as many bytes as the
length byte says. -/
def putAuthcode (session : Session) (ap mp : ℕ) : W Unit := do
  if Digested session then
    let length ← Cursor.peek .outOfBounds (mp - 1) 1
    let body ← Cursor.peek .outOfBounds mp (length.headD 0).toNat
    Cursor.patch .outOfBounds ap (digest A session body)

/-- `buildCmd`, as it fills its buffer. -/
def writeCmd (intf : Intf) (bridgePossible : Bool) (session : Session) (rqSeq : UInt8)
    (req : Request) : Except Fault (Cursor UInt8) := do
  let (_, w) ← (do
    let (ap, mp) ← putCmd intf session (bridgingLevel intf bridgePossible) rqSeq req
    putAuthcode A session ap mp : W Unit)
      ⟨List.replicate (allocatedCmd intf session req) 0, 0, 0⟩
  return w

/-! ### What is written -/

theorem bridgingLevel_cases (intf : Intf) (bp : Bool) :
    bridgingLevel intf bp = 0 ∨ bridgingLevel intf bp = 1 ∨ bridgingLevel intf bp = 2 := by
  unfold bridgingLevel
  split_ifs <;> simp

section
variable {t : List UInt8}

theorem emits_message (intf : Intf) (bp : Bool) (rqSeq : UInt8) (req : Request) :
    Emits .outOfBounds (putMessage intf (bridgingLevel intf bp) rqSeq req) t ()
      (messageBody intf (bridgingLevel intf bp) rqSeq req) := by
  let own := intf.myAddr.toUInt8
  let target := intf.targetAddr.toUInt8
  rcases bridgingLevel_cases intf bp with h | h | h
  · simp only [putMessage, messageBody, h]
    exact emits_request _ _ _ req
  · simp only [putMessage, messageBody, h]
    exact emits_envelope bmcSlaveAddr remoteSwid rqSeq intf.targetChannel fun _ =>
      emits_request target own rqSeq req
  · simp only [putMessage, messageBody, h]
    have henv := emits_envelope (t := t) bmcSlaveAddr remoteSwid rqSeq intf.transitChannel fun _ =>
      emits_envelope intf.transitAddr.toUInt8 own rqSeq intf.targetChannel fun _ =>
        emits_request target own rqSeq req
    simp only [bind_assoc] at henv
    exact henv

end

theorem length_messageBody (intf : Intf) (bp : Bool) (rqSeq : UInt8) (req : Request) :
    (messageBody intf (bridgingLevel intf bp) rqSeq req).length =
      req.data.length + 7 + 8 * bridgingLevel intf bp := by
  rcases bridgingLevel_cases intf bp with h | h | h <;>
    simp [messageBody, envelope, requestMessage, checksummed, h]

/-- The session header of a command. -/
def cmdHeader (session : Session) : List UInt8 :=
  rmcpHdr ++ [if session.active then session.authtype else 0] ++ le32 session.inSeq ++
    le32 session.sessionId

/-- The authcode field before the message is known. -/
def firstAuthcode (session : Session) : List UInt8 :=
  if session.active = true ∧ session.authtype ≠ 0 then session.authcode.take 16 else []

theorem emits_cmd (intf : Intf) (bp : Bool) (session : Session) (rqSeq : UInt8) (req : Request) :
    let level := bridgingLevel intf bp
    Emits .outOfBounds (putCmd intf session level rqSeq req) []
      (13, 14 + (firstAuthcode session).length)
      (cmdHeader session ++ firstAuthcode session ++ [lengthByte level req] ++
        messageBody intf level rqSeq req) := by
  intro level
  refine Emits.of_value (Emits.of_eq ((emits_puts rmcpHdr).bind <| (emits_put _).bind <|
    (emits_puts _).bind <| (emits_puts _).bind <| emits_mark.bind <|
      (emits_puts (firstAuthcode session)).bind <| (emits_put (lengthByte level req)).bind <|
        emits_mark.bind <| (emits_message intf bp rqSeq req).bind <| emits_pure _) ?_) ?_
  · simp [cmdHeader, level]
  · simp [rmcpHdr]
    omega

/-- What the arrays of the source promise: an authcode has sixteen bytes at least. -/
structure Authcodes (session : Session) : Prop where
  stored : 16 ≤ session.authcode.length
  md5 : ∀ body, 16 ≤ (A.md5 session body).length
  md2 : ∀ body, 16 ≤ (A.md2 session body).length

section
variable {A : Auth} {session : Session}

theorem length_firstAuthcode (h : Authcodes A session) :
    (firstAuthcode session).length =
      if session.active = true ∧ session.authtype ≠ 0 then 16 else 0 := by
  unfold firstAuthcode
  split_ifs
  · exact List.length_take_of_le h.stored
  · rfl

theorem Digested.authtype_ne (h : Digested session) : session.authtype ≠ 0 := by
  rcases h.2 with h | h <;> rw [h] <;> decide

theorem length_digest (h : Authcodes A session) (body : List UInt8) :
    (digest A session body).length = 16 := by
  unfold digest
  split_ifs
  · exact List.length_take_of_le (h.md5 body)
  · exact List.length_take_of_le (h.md2 body)

theorem authcodeField_digested (h : Digested session) (body : List UInt8) :
    authcodeField A session body = digest A session body := by
  unfold authcodeField digest
  rw [if_pos ⟨h.1, h.authtype_ne⟩]
  rcases h.2 with h5 | h2
  · rw [if_pos h5, if_pos h5]
  · have hne : ¬ session.authtype = authtypeMd5 := by rw [h2]; decide
    rw [if_neg hne, if_neg hne, if_pos h2]

theorem authcodeField_stored (h : ¬ Digested session) (body : List UInt8) :
    authcodeField A session body = firstAuthcode session := by
  unfold authcodeField firstAuthcode
  split_ifs with ha h5 h2
  · exact absurd ⟨ha.1, .inl h5⟩ h
  · exact absurd ⟨ha.1, .inr h2⟩ h
  · rfl
  · rfl

/-- The authcode is stored over the one that was there, and covers as much of the message as the
length byte `n` says. -/
theorem putAuthcode_eq (h : Authcodes A session) {n : UInt8} {body : List UInt8} (rest : List UInt8)
    (hbody : n.toNat ≤ body.length) :
    putAuthcode A session 13 (14 + (firstAuthcode session).length)
        ⟨cmdHeader session ++ firstAuthcode session ++ [n] ++ body ++ rest, 0,
          (cmdHeader session ++ firstAuthcode session ++ [n] ++ body).length⟩ =
      .ok ((), ⟨cmdHeader session ++ authcodeField A session (body.take n.toNat) ++ [n] ++
        body ++ rest,
        0, (cmdHeader session ++ firstAuthcode session ++ [n] ++ body).length⟩) := by
  by_cases hd : Digested session
  · have hfirst : (firstAuthcode session).length = 16 := by
      rw [length_firstAuthcode h, if_pos ⟨hd.1, hd.authtype_ne⟩]
    have hlength := load_at Fault.outOfBounds (cmdHeader session ++ firstAuthcode session) [n]
      (body ++ rest)
    have hmessage := load_at Fault.outOfBounds (cmdHeader session ++ firstAuthcode session ++ [n])
      (body.take n.toNat) (body.drop n.toNat ++ rest)
    have hcode : (firstAuthcode session).length =
        (digest A session (body.take n.toNat)).length := by
      rw [hfirst, length_digest h]
    have hstore := store_at Fault.outOfBounds (cmdHeader session) ([n] ++ body ++ rest) hcode
    have hcover : body.take n.toNat ++ (body.drop n.toNat ++ rest) = body ++ rest := by
      rw [← List.append_assoc, List.take_append_drop]
    have hhead : (cmdHeader session).length = 13 := rfl
    rw [List.append_assoc _ (body.take n.toNat), hcover] at hmessage
    simp only [List.length_append, hfirst, hhead, List.length_singleton,
      List.length_take_of_le hbody, ← List.append_assoc] at hlength hmessage hstore
    rw [putAuthcode, if_pos hd, hfirst, authcodeField_digested hd]
    refine bind_ok.mpr ⟨[n], _, Cursor.peek_ok (by simpa using hlength), ?_⟩
    refine bind_ok.mpr ⟨body.take n.toNat, _, Cursor.peek_ok (by simpa using hmessage), ?_⟩
    exact Cursor.patch_ok (by simpa using hstore)
  · rw [putAuthcode, if_neg hd, authcodeField_stored hd]
    rfl

theorem length_authcodeField (h : Authcodes A session) (body : List UInt8) :
    (authcodeField A session body).length = (firstAuthcode session).length := by
  by_cases hd : Digested session
  · rw [authcodeField_digested hd, length_digest h, length_firstAuthcode h,
      if_pos ⟨hd.1, hd.authtype_ne⟩]
  · rw [authcodeField_stored hd]

theorem lengthByte_le (intf : Intf) (bp : Bool) (rqSeq : UInt8) (req : Request) :
    (lengthByte (bridgingLevel intf bp) req).toNat ≤
      (messageBody intf (bridgingLevel intf bp) rqSeq req).length := by
  rw [length_messageBody, lengthByte, UInt8.toNat_ofNat']
  exact Nat.mod_le _ _

/-- The cells that an unbridged command leaves unused: those of the envelopes that it does not
have. -/
def slack (intf : Intf) (bridgePossible : Bool) : ℕ :=
  if bridgingLevel intf bridgePossible = 0 then
    8 + (if intf.transitAddr ≠ intf.myAddr ∧ intf.transitAddr ≠ 0 then 8 else 0)
  else 0

theorem length_cmdPacket (h : Authcodes A session) (intf : Intf) (bp : Bool) (rqSeq : UInt8)
    (req : Request) :
    (cmdPacket A intf session (bridgingLevel intf bp) rqSeq req).length + slack intf bp =
      allocatedCmd intf session req := by
  have hhead : (cmdHeader session).length = 13 := rfl
  have hlen : (cmdPacket A intf session (bridgingLevel intf bp) rqSeq req).length =
      13 + (firstAuthcode session).length + 1 +
        (messageBody intf (bridgingLevel intf bp) rqSeq req).length := by
    rw [cmdPacket, ← cmdHeader]
    simp only [List.length_append, length_authcodeField h, hhead, List.length_singleton]
  rw [hlen, length_messageBody, length_firstAuthcode h, allocatedCmd, slack]
  unfold bridgingLevel
  split_ifs <;> simp_all <;> omega

/-- **What `buildCmd` leaves in its buffer**: the packet, and behind it what was not needed. -/
theorem writeCmd_eq (h : Authcodes A session) (intf : Intf) (bp : Bool) (rqSeq : UInt8)
    (req : Request) :
    let packet := cmdPacket A intf session (bridgingLevel intf bp) rqSeq req
    writeCmd A intf bp session rqSeq req =
      .ok ⟨packet ++ List.replicate (slack intf bp) 0, 0, packet.length⟩ := by
  intro packet
  set level := bridgingLevel intf bp with hlevel
  set body := messageBody intf level rqSeq req with hbody
  set first :=
    cmdHeader session ++ firstAuthcode session ++ [lengthByte level req] ++ body with hfirst
  have hpacket : packet = cmdHeader session ++
      authcodeField A session (body.take (lengthByte level req).toNat) ++ [lengthByte level req] ++
        body := rfl
  have hsame : first.length = packet.length := by
    rw [hfirst, hpacket]
    simp only [List.length_append, length_authcodeField h]
  have htotal : packet.length + slack intf bp = allocatedCmd intf session req :=
    length_cmdPacket h intf bp rqSeq req
  have hput := (emits_cmd intf bp session rqSeq req).run []
    (List.replicate (allocatedCmd intf session req) 0)
    (by rw [List.length_replicate]; show first.length ≤ _; omega)
  have hauth := putAuthcode_eq h (List.replicate (slack intf bp) 0)
    (lengthByte_le intf bp rqSeq req)
  have hrest : (List.replicate (allocatedCmd intf session req) (0 : UInt8)).drop first.length =
      List.replicate (slack intf bp) 0 := by
    rw [List.drop_replicate]
    congr 1
    omega
  simp only [List.nil_append, List.length_nil, ← hlevel, ← hbody, ← hfirst, hrest] at hput hauth
  rw [hsame] at hput
  rw [hsame, ← hpacket] at hauth
  have hrun : (putCmd intf session level rqSeq req >>= fun r => putAuthcode A session r.1 r.2)
      ⟨List.replicate (allocatedCmd intf session req) 0, 0, 0⟩ =
        .ok ((), ⟨packet ++ List.replicate (slack intf bp) 0, 0, packet.length⟩) :=
    bind_ok.mpr ⟨_, _, hput, hauth⟩
  unfold writeCmd
  rw [← hlevel]
  show (Except.bind ((putCmd intf session level rqSeq req >>=
      fun r => putAuthcode A session r.1 r.2)
    ⟨List.replicate (allocatedCmd intf session req) 0, 0, 0⟩) _) = _
  rw [hrun]
  rfl

/-! ### Reading the message back -/

/-- The envelopes of a command and the request inside them. -/
def nestingCmd (intf : Intf) (level : ℕ) (rqSeq : UInt8) (req : Request) :
    List Envelope × Message :=
  let own := intf.myAddr.toUInt8
  let target := intf.targetAddr.toUInt8
  match level with
  | 0 => ([], received bmcSlaveAddr remoteSwid rqSeq req)
  | 1 =>
    ([⟨bmcSlaveAddr, remoteSwid, rqSeq <<< 2, 0x40 ||| intf.targetChannel⟩],
      received target own rqSeq req)
  | _ =>
    ([⟨bmcSlaveAddr, remoteSwid, rqSeq <<< 2, 0x40 ||| intf.transitChannel⟩,
      ⟨intf.transitAddr.toUInt8, own, rqSeq <<< 2, 0x40 ||| intf.targetChannel⟩],
      received target own rqSeq req)

theorem parseNested_messageBody (intf : Intf) (bp : Bool) (rqSeq : UInt8) (req : Request) :
    parseNested (bridgingLevel intf bp) (messageBody intf (bridgingLevel intf bp) rqSeq req) =
      some (nestingCmd intf (bridgingLevel intf bp) rqSeq req) := by
  rcases bridgingLevel_cases intf bp with h | h | h
  · simp only [messageBody, nestingCmd, h]
    exact parseNested_request _ _ _ _
  · simp only [messageBody, nestingCmd, h]
    exact parseNested_envelope _ _ _ _ (parseNested_request _ _ _ _)
  · simp only [messageBody, nestingCmd, h]
    exact parseNested_envelope _ _ _ _ (parseNested_envelope _ _ _ _ (parseNested_request _ _ _ _))

/-- The message of a command in its buffer: what lies behind the length byte. -/
def messageOf (session : Session) (w : Cursor UInt8) : List UInt8 :=
  w.text.drop (14 + (firstAuthcode session).length)

/-- The length byte of a command in its buffer. -/
def lengthOf (session : Session) (w : Cursor UInt8) : UInt8 :=
  (w.text.drop (13 + (firstAuthcode session).length)).headD 0

theorem frames_messageBody (intf : Intf) (bp : Bool) (rqSeq : UInt8) (req : Request) :
    Frames (bridgingLevel intf bp) req
      (messageBody intf (bridgingLevel intf bp) rqSeq req) := by
  have hparse := parseNested_messageBody intf bp rqSeq req
  rcases bridgingLevel_cases intf bp with h | h | h <;> simp only [nestingCmd, h] at hparse ⊢ <;>
    exact ⟨_, _, hparse, rfl, rfl, rfl, rfl, rfl⟩

theorem cmdPacket_parts (h : Authcodes A session) (intf : Intf) (level : ℕ) (rqSeq : UInt8)
    (req : Request) {w : Cursor UInt8} (hw : w.text = cmdPacket A intf session level rqSeq req) :
    messageOf session w = messageBody intf level rqSeq req ∧
      lengthOf session w = lengthByte level req := by
  set body := messageBody intf level rqSeq req with hbody
  set field := authcodeField A session (body.take (lengthByte level req).toNat) with hfield
  have hpacket : w.text = (cmdHeader session ++ field) ++ ([lengthByte level req] ++ body) := by
    rw [hw, ← List.append_assoc]
    rfl
  have hlen : (cmdHeader session ++ field).length = 13 + (firstAuthcode session).length := by
    rw [List.length_append, hfield, length_authcodeField h]
    rfl
  have hdrop : w.text.drop (13 + (firstAuthcode session).length) =
      [lengthByte level req] ++ body := by
    rw [hpacket, ← hlen, List.drop_left]
  refine ⟨?_, by rw [lengthOf, hdrop]; rfl⟩
  have hnext : 14 + (firstAuthcode session).length = 13 + (firstAuthcode session).length + 1 := by
    omega
  rw [messageOf, hnext, ← List.drop_drop, hdrop]
  rfl

/-- **Nested Send Message framing, in both transports.** The RMCP+ writer needs room for the bytes
only; the packet of `buildCmd` fills its buffer exactly if the command is bridged. -/
theorem nested_framing (h : Authcodes A session) (intf : Intf) (bp : Bool) (req : Request)
    (rqSeq currSeq : UInt8) :
    (∀ head rest : List UInt8, req.data.length + 7 + 8 * bridgedRequest intf bp < 65536 →
      req.data.length + 7 + 8 * bridgedRequest intf bp ≤ rest.length →
        ∃ length w, putIpmiPayloadWireRep intf bp req rqSeq currSeq
            (UInt16.ofNat (req.data.length + 7)) ⟨head ++ rest, head.length, 0⟩ = .ok (length, w) ∧
          Frames (bridgedRequest intf bp) req w.text ∧ length.toNat = w.len) ∧
    ∃ w, writeCmd A intf bp session rqSeq req = .ok w ∧
      Frames (bridgingLevel intf bp) req (messageOf session w) ∧
      ((messageOf session w).length ≤ 255 →
        (lengthOf session w).toNat = (messageOf session w).length) ∧
      w.len ≤ allocatedCmd intf session req ∧
      (w.len = allocatedCmd intf session req ↔ bridgingLevel intf bp ≠ 0) := by
  constructor
  · intro head rest hwrap hroom
    have hlen := length_getIpmiPayloadWireRep intf bp req rqSeq currSeq
    have hrun := (emits_ipmiPayload (t := []) intf bp req rqSeq currSeq
      (UInt16.ofNat (req.data.length + 7))).run head rest (by omega)
    refine ⟨_, _, hrun, ?_, ?_⟩
    · rw [text_cursor]
      exact frames_wireRep intf bp req rqSeq currSeq
    · show UInt16.toNat _ = (getIpmiPayloadWireRep intf bp req rqSeq currSeq).length
      rw [hlen, UInt16.toNat_add, UInt16.toNat_ofNat', UInt16.toNat_ofNat']
      omega
  · have hrun := writeCmd_eq h intf bp rqSeq req
    set packet := cmdPacket A intf session (bridgingLevel intf bp) rqSeq req with hpacket
    have htext : (⟨packet ++ List.replicate (slack intf bp) 0, 0,
        packet.length⟩ : Cursor UInt8).text =
        packet := text_cursor [] packet (List.replicate (slack intf bp) 0)
    obtain ⟨hmessage, hlength⟩ := cmdPacket_parts h intf _ rqSeq req htext
    have htotal : packet.length + slack intf bp = allocatedCmd intf session req :=
      length_cmdPacket h intf bp rqSeq req
    refine ⟨_, hrun, ?_, ?_, ?_, ?_⟩
    · rw [hmessage]
      exact frames_messageBody intf bp rqSeq req
    · rw [hmessage, hlength, length_messageBody, lengthByte, UInt8.toNat_ofNat']
      omega
    · show packet.length ≤ _
      omega
    · show packet.length = _ ↔ _
      rw [slack] at htotal
      by_cases hz : bridgingLevel intf bp = 0
      · rw [if_pos hz] at htotal
        omega
      · rw [if_neg hz] at htotal
        omega

end

/-- The authcodes of a build whose digests are all zero. -/
def zeroAuth : Auth where
  md5 _ _ := List.replicate 16 0
  md2 _ _ := List.replicate 16 0
  special _ := List.replicate 16 0

theorem authcodes_zeroAuth (session : Session) (h : 16 ≤ session.authcode.length) :
    Authcodes zeroAuth session :=
  ⟨h, fun _ => Nat.le_refl 16, fun _ => Nat.le_refl 16⟩

/-- A Get Device ID through one envelope, in an authenticated session. -/
theorem nested_framing_bridged :
    let intf : Intf := { myAddr := 0x20, targetAddr := 0x72 }
    let session : Session := { active := true, authtype := authtypeMd5 }
    let req : Request := { netfn := netfnApp, lun := bmcLun, cmd := 0x01, data := [], data_lt := no_data_lt }
    bridgingLevel intf true = 1 ∧ ∃ w, writeCmd zeroAuth intf true session 1 req = .ok w ∧
      Frames 1 req (messageOf session w) ∧ w.len = allocatedCmd intf session req := by
  intro intf session req
  have hauth : Authcodes zeroAuth session := authcodes_zeroAuth session (by decide)
  have hlevel : bridgingLevel intf true = 1 := by decide
  obtain ⟨-, w, hw, hframes, -, -, hexact⟩ := nested_framing hauth intf true req 1 1
  rw [hlevel] at hframes
  exact ⟨hlevel, w, hw, hframes, hexact.mpr (by rw [hlevel]; decide)⟩

/-- An unbridged Get Device ID: 21 bytes are written to a buffer of 29. -/
theorem unbridged_room :
    let intf : Intf := { myAddr := 0x20, targetAddr := 0x20 }
    let req : Request := { netfn := netfnApp, lun := bmcLun, cmd := 0x01, data := [], data_lt := no_data_lt }
    ∃ w, writeCmd zeroAuth intf true {} 1 req = .ok w ∧ w.len = 21 ∧
      allocatedCmd intf {} req = 29 := by
  intro intf req
  exact ⟨_, writeCmd_eq (authcodes_zeroAuth {} (by decide)) intf true 1 req, by decide, by decide⟩

end Ipmitool.Lan.Wire
