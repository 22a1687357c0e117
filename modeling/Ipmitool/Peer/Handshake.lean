import Ipmitool.Lanplus.Open
import Ipmitool.Peer.Packets

/-! # The handshake of the two parties

The handshake of `intf/lanplus.zig` and the controller's side of it. Outside of a session every
packet is plain (`exchange_answered`, `exchange_dropped`), each message of the handshake tells the
other party what it needs to know, and at its end both parties have derived the same keys. -/

namespace Ipmitool.Peer.Handshake

open Ipmitool.Lib Ipmitool.Lib.Mem Ipmitool.Lib.Bytes Ipmitool.Lib.Machine Ipmitool.Lib.Conversation
open Ipmitool.Core.Types Ipmitool.Core.Network Ipmitool.Crypto.Mac Ipmitool.Crypto.LanplusCrypt
open Ipmitool.Lanplus.State Ipmitool.Lanplus.Receive Ipmitool.Lanplus.Packet Ipmitool.Lanplus.Rounds
open Ipmitool.Lanplus.Open
open Ipmitool.Lanplus.Build (packetOf wireRep wireLength payloadType)
open Ipmitool.Lanplus.Send (isHandshake sendable sendPayload)
open Ipmitool.Peer.Controller Ipmitool.Peer.Exchange Ipmitool.Peer.Packets

variable {K : Primitives} {other : List UInt8 → Bool → B (List UInt8)} {s t u s' : St}
  {ss ss' ss'' : Session} {b b' b'' : Bmc} {r : Response} {tag : UInt8} {c : Ciphers}

/-! ### What the controller does with a packet -/

theorem handle_packet {t : UInt8} {id seq : UInt32} {out trailer reply : List UInt8}
    (h : handleV2 K (packetWith t id seq out trailer)
      (decide (b.received + 1 ∈ b.p.drop)) b.counted =
      .ok (reply, b')) :
    handle K other (packetWith t id seq out trailer) b =
      .ok (if reply = [] then none else some reply, b') := by
  have hlen := length_packetWith t id seq out trailer
  unfold handle
  simp only [bind_ok, modify_ok, get_ok]
  refine ⟨⟨⟩, _, rfl, _, _, ⟨rfl, rfl⟩, ?_⟩
  rw [if_neg (by omega), if_neg (by omega)]
  exact bind_ok.mpr ⟨reply, b', h, rfl⟩

section Opened
variable {t : UInt8} {id seq : UInt32} {out trailer : List UInt8} {o : Controller.Opened}
  (hopen : openV2 K (packetWith t id seq out trailer) b.counted = .ok (some o, b.counted))
  (hid : b.v2.state = .active → o.sessionId = b.p.bmcId)
include hopen hid

theorem handleV2_opened (drop : Bool) :
    handleV2 K (packetWith t id seq out trailer) drop b.counted =
    if drop then .ok ([], b.counted) else respond K o.ptype o.plain b.counted := by
  have hid : b.counted.v2.state = .active → o.sessionId = b.counted.p.bmcId := hid
  unfold handleV2
  rw [bind_run hopen]
  dsimp only
  rw [bind_run (show (get : B Bmc) b.counted = .ok (b.counted, b.counted) from rfl),
    require_true hid]
  cases drop <;> rfl

theorem handle_dropped (hdrop : b.received + 1 ∈ b.p.drop) :
    handle K other (packetWith t id seq out trailer) b = .ok (none, b.counted) := by
  have h := handleV2_opened hopen hid (decide (b.received + 1 ∈ b.p.drop))
  rw [if_pos (decide_eq_true hdrop)] at h
  exact handle_packet h

theorem handle_answered (hdrop : b.received + 1 ∉ b.p.drop) {reply : List UInt8}
    (hrespond : respond K o.ptype o.plain b.counted = .ok (reply, b')) (hreply : reply ≠ []) :
    handle K other (packetWith t id seq out trailer) b = .ok (some reply, b') := by
  have h := handleV2_opened hopen hid (decide (b.received + 1 ∈ b.p.drop))
  rw [if_neg (by rw [decide_eq_false hdrop]; decide), hrespond] at h
  rw [handle_packet h, if_neg hreply]

end Opened

/-! ### One exchange -/

/-- The bytes of a handshake message. -/
def message : V2Payload → List UInt8
  | .openRequest msg | .rakp1 msg | .rakp3 msg => msg
  | _ => []

theorem sentState_ne_active (payload : V2Payload) : sentState payload ≠ .active := by
  cases payload with
  | rakp1 msg | rakp3 msg | openRequest msg | ipmi req | sol p => intro h; cases h

section Exchange
variable (other) (payload : V2Payload) (hp : isHandshake payload = true)
  (hlen : (message payload).length ≤ maxPayload) (hon : Online s) (hss : s.intf.session = some ss)
  (hstate : sendable ss.v2.sessionState payload = true) (hconsole : ss.v2.sessionState ≠ .active)
  (hbmc : b.v2.state ≠ .active)
include hp hlen hconsole hbmc

/-- The packet of a handshake message is plain, and the controller finds the message in it. -/
theorem exists_message : ∃ length t id seq out trailer,
    wireLength s.intf s.bridgePossible payload = .ok length ∧
      packetOf K s.intf ss (payloadType payload)
        (wireRep s.intf s.bridgePossible 0 payload) length (nextIv s ss) =
        .ok (packetWith t id seq out trailer) ∧
      (b.received + 1 ∈ b.p.drop →
        handle K other (packetWith t id seq out trailer) b = .ok (none, b.counted)) ∧
      ∀ reply b', b.received + 1 ∉ b.p.drop → reply ≠ [] →
        respond K (payloadType payload) (message payload) b.counted = .ok (reply, b') →
          handle K other (packetWith t id seq out trailer) b = .ok (some reply, b') := by
  have hidle : InSync ss b.counted := .inr ⟨hconsole, hbmc⟩
  have htype : payloadType payload ∈ payloadTypes := by
    cases payload with
    | ipmi req => cases hp
    | sol p => cases hp
    | openRequest msg | rakp1 msg | rakp3 msg => simp [payloadType, payloadTypes]
  have hwire : wireLength s.intf s.bridgePossible payload =
      .ok (UInt16.ofNat (message payload).length) ∧
      wireRep s.intf s.bridgePossible 0 payload = message payload := by
    cases payload with
    | ipmi req => cases hp
    | sol p => cases hp
    | openRequest msg | rakp1 msg | rakp3 msg => exact ⟨rfl, rfl⟩
  obtain ⟨t, id, seq, out, trailer, hpacket, hopen, -⟩ :=
    packetOf_inSync (K := K) s.intf hidle htype hlen
      fun h => absurd h hconsole
  refine ⟨_, t, id, seq, out, trailer, hwire.1, ?_, ?_, ?_⟩
  · rw [hwire.2]
    exact hpacket
  · exact handle_dropped hopen fun h => absurd h hbmc
  · intro reply b' hdrop hreply hrespond
    exact handle_answered hopen (fun h => absurd h hbmc) hdrop hrespond hreply

include hon hss hstate

/-- **The controller does not answer.** -/
theorem exchange_dropped (htimeout : ss.timeout ≠ 0xffffffff) (hdrop : b.received + 1 ∈ b.p.drop) :
    ∃ packet t, Converses wire (handle K other) (sendPayload K payload) s b false t b.counted ∧
      Exchanged s (sentSession ss payload) packet s.recvRsp t := by
  obtain ⟨length, _, _, _, _, _, hlength, hpacket, hdropped, -⟩ :=
    exists_message (K := K) other payload hp hlen hconsole hbmc
  obtain ⟨t, hhears, hex⟩ := hears_sendPayload_none hp hon hss hstate hlength hpacket htimeout
  exact ⟨_, t, .exchange hhears hex.sent (hdropped hdrop), hex⟩

/-- **The controller answers** with the message `body`, from the state `c`. -/
theorem exchange_answered (hcc : s.recvRsp.ccode ≠ 0xcf) (hdrop : b.received + 1 ∉ b.p.drop)
    {c : Bmc} {f : Bmc → Bmc} (rtype : UInt8) (body : List UInt8) (hc : c.v2.state ≠ .active)
    (hrtype : rtype ∈ payloadTypes) (hbody : body.length ≤ maxPayload)
    (hrespond : ∀ reply b', sendV2 K rtype body c = .ok (reply, b') →
      respond K (payloadType payload) (message payload) b.counted = .ok (reply, f b'))
    {P : Response → Prop} (hread : ∀ r size, r.session.payloadtype = rtype → Holds r.data 16 body →
      ∃ r' evs, handlePayload (sentSession ss payload) s.reqEntries r 16 size =
        .ok (.got, s.reqEntries, r', evs) ∧
        r'.ccode = r.ccode ∧ P r') :
    ∃ packet r t seq, Converses wire (handle K other) (sendPayload K payload) s b true t
        (f { c with v2 := { c.v2 with seq } }) ∧
      Exchanged s (sentSession ss payload) packet r t ∧ r.ccode = s.recvRsp.ccode ∧ P r := by
  obtain ⟨length, _, _, _, _, _, hlength, hpacket, -, hanswered⟩ :=
    exists_message (K := K) other payload hp hlen hconsole hbmc
  have hsent : (sentSession ss payload).v2.sessionState ≠ .active := sentState_ne_active payload
  obtain ⟨reply, seq, hsend, hreply, hfit, hfound⟩ :=
    sendV2_inSync (K := K) (.inr ⟨hsent, hc⟩) hrtype hbody
  obtain ⟨r, size, hopen, hfound⟩ :=
    hfound (Response.receive s.recvRsp reply) (holds_receive _ _) rfl
  obtain ⟨r', evs, hhandle, hcc', hP⟩ := hread r size hfound.type hfound.holds
  have hccode : r'.ccode = s.recvRsp.ccode := by
    rw [hcc', hfound.ccode]
    rfl
  have hhandlePacket : handlePacket K (sentSession ss payload) s.reqEntries
      (Response.receive s.recvRsp reply) =
      .ok (.got, s.reqEntries, r', evs) := by
    unfold handlePacket
    rw [hopen]
    exact hhandle
  obtain ⟨t, hhears, hex⟩ := hears_sendPayload hp hon hss hstate hlength hpacket hreply hfit
    (by rw [hccode]; exact hcc) hhandlePacket
  exact ⟨_, r', t, seq,
    .exchange hhears hex.sent (hanswered reply _ hdrop hreply (hrespond _ _ hsend)),
    hex, hccode, hP⟩

end Exchange

/-! ### What the transport reads of an answer -/

theorem write_apply (m : Memory UInt8) (off : ℕ) (l : List UInt8) (i : ℕ) :
    write m off l i = if off ≤ i then (l[i - off]?).getD (m i) else m i := rfl

theorem readOpenSessionResponse_holds (h : Holds r.data 16 (openResponse b tag)) :
    (readOpenSessionResponse r 16).rakpReturnCode = b.p.openSessionStatus ∧
      (b.p.openSessionStatus = 0 →
        (readOpenSessionResponse r 16).bmcId = b.p.bmcId ∧
        (readOpenSessionResponse r 16).authAlg = b.p.openSessionAuthAlg.getD b.v2.authAlg ∧
        (readOpenSessionResponse r 16).integrityAlg = b.v2.integrityAlg ∧
        (readOpenSessionResponse r 16).cryptAlg = b.v2.cryptAlg) := by
  simp only [openResponse, le32, List.cons_append, List.nil_append, holds_cons, holds_nil] at h
  obtain ⟨h16, h17, h18, h19, h20, h21, h22, h23, h24, h25, h26, h27, -, -, -, -, h32, -, -,
      -, -, -, -, -,
    h40, -, -, -, -, -, -, -, h48, -⟩ := h
  have h17' : r.data 17 = b.p.openSessionStatus := h17
  unfold readOpenSessionResponse
  by_cases h0 : b.p.openSessionStatus = 0
  · rw [if_neg (by simp [h17', h0])]
    refine ⟨?_, fun _ => ⟨?_, ?_, ?_, ?_⟩⟩
    · simp [Response.rakpReturnCode, write_apply, h17']
    · simp [Response.bmcId, write_apply, Mem.read, List.range_succ, *, ofLe32_le32]
    · simp [Response.authAlg, write_apply, *]
    · simp [Response.integrityAlg, write_apply, *]
    · simp [Response.cryptAlg, write_apply, *]
  · rw [if_pos (by simp [h17', h0])]
    refine ⟨?_, fun h => absurd h h0⟩
    simp [Response.rakpReturnCode, write_apply, h17']

theorem write_nil (m : Memory UInt8) (off : ℕ) : write m off [] = m := by
  funext i
  simp [write_apply]

/-- What was copied is read back, or a part of it. -/
theorem read_write_read {m d : Memory UInt8} {off o n i k : ℕ} (hle : off ≤ i)
    (hfit : i + k ≤ off + n) :
    read (write m off (read d o n)) i k = read d (o + (i - off)) k := by
  refine read_eq_read fun j hj => ?_
  have h := write_inside m off (read d o n) (i := i - off + j) (by rw [length_read]; omega)
  rw [getElem_read] at h
  rw [show i + j = off + (i - off + j) by omega, h, Nat.add_assoc]

theorem read_write_below {m : Memory UInt8} {off i k : ℕ} {l : List UInt8} (h : i + k ≤ off) :
    read (write m off l) i k = read m i k :=
  read_congr fun j hj => write_below m l (by omega)

theorem take_read {m : Memory UInt8} {off n k : ℕ} (h : k ≤ n) :
    (read m off n).take k = read m off k := by
  obtain ⟨j, rfl⟩ := Nat.exists_eq_add_of_le h
  rw [read_add, List.take_left' (length_read m off k)]

/-- The authentication algorithms that both parties know. -/
def KnownAuth (alg : UInt8) : Prop :=
  alg = authRakpNone ∨ alg = authRakpHmacSha1 ∨ alg = authRakpHmacMd5 ∨ alg = authRakpHmacSha256

section Rakp
variable {alg status : UInt8} {id : UInt32} {rand guid mac : List UInt8}

theorem readRakp2Message_holds (halg : KnownAuth alg) (hrand : rand.length = 16)
    (hguid : guid.length = 16) (hmac : ∀ a, fromAuthId alg = some a → mac.length = a.digestLength)
    (h : Holds r.data 16 ([tag, status, 0, 0] ++ le32 id ++ rand ++ guid ++ mac)) :
    ∃ r', readRakp2Message r 16 alg = .ok r' ∧ r'.ccode = r.ccode ∧ r'.rakpReturnCode = status ∧
      r'.bmcRand = rand ∧ r'.bmcGuid = guid ∧
        ∀ a, fromAuthId alg = some a → r'.keyExchangeAuthCode.take a.digestLength = mac := by
  simp only [holds_append, List.length_append, List.length_cons, List.length_nil, length_le32,
    hrand, hguid, Nat.reduceAdd] at h
  obtain ⟨⟨⟨⟨hhead, -⟩, h24⟩, h40⟩, h56⟩ := h
  have h17 : r.data 17 = status := (holds_cons.mp (holds_cons.mp hhead).2).1
  have h24 : read r.data 24 16 = rand := by rw [← hrand]; exact h24
  have h40 : read r.data 40 16 = guid := by rw [← hguid]; exact h40
  -- whatever is stored behind the random number and the GUID
  have hfields : ∀ l : List UInt8, let r' : Response :=
      { r with payload := write (write (readRakpHeader r 16) 8 (read r.data 24 32)) 40 l }
      r'.rakpReturnCode = status ∧ r'.bmcRand = rand ∧ r'.bmcGuid = guid := by
    intro l
    refine ⟨?_, ?_, ?_⟩
    · simp [Response.rakpReturnCode, write_apply, readRakpHeader, h17]
    · rw [Response.bmcRand, read_write_below (by decide), read_write_read (by decide) (by decide)]
      exact h24
    · rw [Response.bmcGuid, read_write_below (by decide), read_write_read (by decide) (by decide)]
      exact h40
  have hcode : ∀ n, n ≤ 32 → mac.length = n →
      (read (write (write (readRakpHeader r 16) 8 (read r.data 24 32)) 40
        (read r.data 56 n)) 40 32).take n = mac := by
    intro n hn hlen
    rw [take_read hn, read_write_read (Nat.le_refl _) (Nat.le_refl _), Nat.sub_self, ← hlen]
    exact h56
  rcases halg with rfl | rfl | rfl | rfl
  · have hrun := hfields []
    rw [write_nil] at hrun
    exact ⟨_, rfl, rfl, hrun.1, hrun.2.1, hrun.2.2, fun a ha => by cases ha⟩
  · obtain ⟨h1, h2, h3⟩ := hfields (read r.data 56 20)
    refine ⟨_, rfl, rfl, h1, h2, h3, fun a ha => ?_⟩
    obtain rfl := Option.some.inj ha
    exact hcode 20 (by decide) (hmac _ rfl)
  · obtain ⟨h1, h2, h3⟩ := hfields (read r.data 56 16)
    refine ⟨_, rfl, rfl, h1, h2, h3, fun a ha => ?_⟩
    obtain rfl := Option.some.inj ha
    exact hcode 16 (by decide) (hmac _ rfl)
  · obtain ⟨h1, h2, h3⟩ := hfields (read r.data 56 32)
    refine ⟨_, rfl, rfl, h1, h2, h3, fun a ha => ?_⟩
    obtain rfl := Option.some.inj ha
    exact hcode 32 (by decide) (hmac _ rfl)

theorem readRakp4Message_holds (halg : KnownAuth alg)
    (hmac : ∀ a, fromAuthId alg = some a → mac.length = a.authcodeLength)
    (h : Holds r.data 16 ([tag, status, 0, 0] ++ le32 id ++ mac)) :
    ∃ r', readRakp4Message r 16 alg = .ok r' ∧ r'.ccode = r.ccode ∧ r'.rakpReturnCode = status ∧
      ∀ a, fromAuthId alg = some a → r'.integrityCheckValue.take a.authcodeLength = mac := by
  simp only [holds_append, List.length_append, List.length_cons, List.length_nil, length_le32,
    Nat.reduceAdd] at h
  obtain ⟨⟨hhead, -⟩, h24⟩ := h
  have h17 : r.data 17 = status := (holds_cons.mp (holds_cons.mp hhead).2).1
  have hstatus : ∀ l : List UInt8,
      ({ r with payload := write (readRakpHeader r 16) 8 l } : Response).rakpReturnCode =
        status := by
    intro l
    simp [Response.rakpReturnCode, write_apply, readRakpHeader, h17]
  have hcode : ∀ n, n ≤ 32 → mac.length = n →
      (read (write (readRakpHeader r 16) 8 (read r.data 24 n)) 8 32).take n = mac := by
    intro n hn hlen
    rw [take_read hn, read_write_read (Nat.le_refl _) (Nat.le_refl _), Nat.sub_self, ← hlen]
    exact h24
  rcases halg with rfl | rfl | rfl | rfl
  · have hrun := hstatus []
    rw [write_nil] at hrun
    exact ⟨_, rfl, rfl, hrun, fun a ha => by cases ha⟩
  · refine ⟨_, rfl, rfl, hstatus (read r.data 24 12), fun a ha => ?_⟩
    obtain rfl := Option.some.inj ha
    exact hcode 12 (by decide) (hmac _ rfl)
  · refine ⟨_, rfl, rfl, hstatus (read r.data 24 16), fun a ha => ?_⟩
    obtain rfl := Option.some.inj ha
    exact hcode 16 (by decide) (hmac _ rfl)
  · refine ⟨_, rfl, rfl, hstatus (read r.data 24 16), fun a ha => ?_⟩
    obtain rfl := Option.some.inj ha
    exact hcode 16 (by decide) (hmac _ rfl)

end Rakp

/-! ### The two parties -/

/-- **Two parties that can shake hands**: the controller is not in a session, the transport can send
and receive and works around no defect, and both know the user name, the password and the key Kg. -/
structure Introduced (s : St) (ss : Session) (b : Bmc) : Prop where
  online : Online s
  session : s.intf.session = some ss
  idle : b.v2.state ≠ .active
  ccode : s.recvRsp.ccode ≠ 0xcf
  patient : ss.timeout ≠ 0xffffffff
  intelplus : s.intf.oemActive .intelplus = false
  i82571spt : s.intf.oemActive .i82571spt = false
  username : s.intf.ssnParams.username = b.p.username
  username_le : s.intf.ssnParams.username.length ≤ 16
  password : ss.authcode.take 20 = b.kuid
  kg : b.kgKey = if s.intf.ssnParams.kg.headD 0 ≠ 0 then some (s.intf.ssnParams.kg.take 20)
    else none

/-- What a part of the handshake leaves alone. -/
structure Keeps (s : St) (ss : Session) (b : Bmc) (t : St) (ss' : Session) (b' : Bmc) : Prop where
  intf : ∃ abort, t.intf = { s.intf with session := some ss', abort }
  sends : true ∉ t.net.sendFails
  ccode : t.recvRsp.ccode = s.recvRsp.ccode
  entries : t.reqEntries = s.reqEntries
  timeout : ss'.timeout = ss.timeout
  authcode : ss'.authcode = ss.authcode
  bridgePossible : t.bridgePossible = s.bridgePossible
  bmc : ∃ received v2, b' = { b with received, v2 }

theorem Keeps.p (h : Keeps s ss b t ss' b') : b'.p = b.p := by
  obtain ⟨_, _, rfl⟩ := h.bmc
  rfl

theorem Keeps.trans (h : Keeps s ss b t ss' b') (h' : Keeps t ss' b' u ss'' b'') :
    Keeps s ss b u ss'' b'' where
  intf := by
    obtain ⟨_, ht⟩ := h.intf
    obtain ⟨abort, hu⟩ := h'.intf
    exact ⟨abort, by rw [hu, ht]⟩
  sends := h'.sends
  ccode := h'.ccode.trans h.ccode
  entries := h'.entries.trans h.entries
  timeout := h'.timeout.trans h.timeout
  authcode := h'.authcode.trans h.authcode
  bridgePossible := h'.bridgePossible.trans h.bridgePossible
  bmc := by
    obtain ⟨_, _, rfl⟩ := h.bmc
    obtain ⟨received, v2, rfl⟩ := h'.bmc
    exact ⟨received, v2, rfl⟩

theorem Keeps.online (h : Keeps s ss b t ss' b') (hon : Online s) : Online t := by
  obtain ⟨abort, ht⟩ := h.intf
  exact ⟨h.sends, by rw [ht]; exact hon.noanswer, by rw [ht]; exact hon.retry, by
    rw [ht]; exact hon.fd⟩

theorem Introduced.keeps (h : Introduced s ss b) (hk : Keeps s ss b t ss' b')
    (hidle : b'.v2.state ≠ .active) :
    Introduced t ss' b' := by
  obtain ⟨abort, ht⟩ := hk.intf
  exact {
    online := hk.online h.online
    session := by rw [ht]
    idle := hidle
    ccode := by rw [hk.ccode]; exact h.ccode
    patient := by rw [hk.timeout]; exact h.patient
    intelplus := by rw [ht]; exact h.intelplus
    i82571spt := by rw [ht]; exact h.i82571spt
    username := by rw [ht, hk.p]; exact h.username
    username_le := by rw [ht]; exact h.username_le
    password := by rw [hk.authcode, Bmc.kuid, hk.p]; exact h.password
    kg := by rw [Bmc.kgKey, hk.p, ht]; exact h.kg }

/-- Both parties go by the same algorithms and know each other's session ids. -/
structure Matched (c : Ciphers) (ss : Session) (b : Bmc) : Prop where
  authAlg : ss.v2.authAlg = c.authAlg
  integrityAlg : ss.v2.integrityAlg = c.integrityAlg
  cryptAlg : ss.v2.cryptAlg = c.cryptAlg
  bmcAuthAlg : b.v2.authAlg = c.authAlg
  bmcIntegrityAlg : b.v2.integrityAlg = c.integrityAlg
  bmcCryptAlg : b.v2.cryptAlg = c.cryptAlg
  bmcId : ss.v2.bmcId = b.p.bmcId
  consoleId : b.v2.consoleId = ss.v2.consoleId

/-- The controller accepts an Open Session request for the ciphers. -/
def Accepts (p : Personality) (c : Ciphers) : Prop :=
  p.openSessionStatus = 0 ∧ p.openSessionAuthAlg.getD c.authAlg = c.authAlg

/-- The session when the Open Session request goes out. -/
def requesting (ss : Session) (c : Ciphers) : Session :=
  { ss with v2 := { ss.v2 with
      consoleId := consoleSessionId
      requestedAuthAlg := c.authAlg
      requestedIntegrityAlg := c.integrityAlg
      requestedCryptAlg := c.cryptAlg } }

/-- The controller's session after an Open Session request. -/
def opening (b : Bmc) (c : Ciphers) : Bmc :=
  { b with v2 := { b.v2 with
      state := .opened
      consoleId := consoleSessionId
      authAlg := c.authAlg
      integrityAlg := c.integrityAlg
      cryptAlg := c.cryptAlg } }

theorem respond_openRequest (intf : Intf) :
    respond K ptOpenRequest (openSessionMsg intf c) b =
      sendV2 K ptOpenResponse (openResponse (opening b c) 0) (opening b c) := by
  have hlen : (openSessionMsg intf c).length = 32 := rfl
  have hid : ofLe32 ((openSessionMsg intf c).getD 4 0) ((openSessionMsg intf c).getD 5 0)
      ((openSessionMsg intf c).getD 6 0) ((openSessionMsg intf c).getD 7 0) = consoleSessionId :=
    ofLe32_le32 consoleSessionId
  unfold respond
  rw [if_pos rfl]
  unfold openSessionResponse
  rw [if_neg (by rw [hlen]; decide), hid]
  rfl

/-- The Open Session request is on its way. -/
theorem openSession_asks (hss : s.intf.session = some ss)
    (hc : getRequestedCiphers s.intf.ssnParams.cipherSuiteId = some c) {rc : Rc} {t : St}
    (h : Converses wire (handle K other) (do
      let got ← sendPayload K (.openRequest (openSessionMsg s.intf c))
      if !got then return .timeout
      let s ← get
      let r := s.recvRsp
      if r.rakpReturnCode ≠ 0 then return .error
      modifySession (acceptOpenResponse r)
      return if r.authAlg = c.authAlg ∧ r.integrityAlg = c.integrityAlg ∧ r.cryptAlg = c.cryptAlg
        then .done else .error) (s.withSession (requesting ss c)) b rc t b') :
    Converses wire (handle K other) (openSession K) s b rc t b' := by
  unfold openSession
  refine .read (fun _ => rfl) (.step (hears_modifySession hss) rfl ?_)
  rw [hc]
  exact .step (hears_modifySession rfl) rfl h


theorem Exchanged.unchanged {packet : List UInt8} (h : Exchanged s ss packet r t) :
    ∃ abort, t.intf = { t.intf with session := some ss, abort } :=
  ⟨t.intf.abort, by rw [h.intf]⟩

/-- Nothing but the session and the trace has changed. -/
structure Unmoved (t v : St) : Prop where
  net : v.net = t.net
  rsp : v.recvRsp = t.recvRsp
  entries : v.reqEntries = t.reqEntries
  bridgePossible : v.bridgePossible = t.bridgePossible

theorem keeps_exchanged {x y : Session} {packet : List UInt8} {v : St}
    (hex : Exchanged u y packet r t) (hu : u.intf = (s.withSession x).intf)
    (hreq : u.reqEntries = s.reqEntries) (hbridge : u.bridgePossible = s.bridgePossible)
    (hr : r.ccode = s.recvRsp.ccode)
    (hintf : ∃ abort, v.intf = { t.intf with session := some ss', abort }) (hv : Unmoved t v)
    (htimeout : ss'.timeout = ss.timeout) (hauthcode : ss'.authcode = ss.authcode)
    (hb : ∃ received v2, b' = { b with received, v2 }) : Keeps s ss b v ss' b' where
  intf := by
    obtain ⟨abort, hintf⟩ := hintf
    exact ⟨abort, by rw [hintf, hex.intf, hu]; rfl⟩
  sends := by rw [hv.net]; exact hex.sends
  ccode := by rw [hv.rsp, hex.rsp, hr]
  entries := by rw [hv.entries, hex.entries, hreq]
  timeout := htimeout
  authcode := hauthcode
  bridgePossible := hv.bridgePossible.trans (hex.bridgePossible.trans hbridge)
  bmc := hb

theorem getRequestedCiphers_known {suite : CipherSuiteId} (h : getRequestedCiphers suite = some c) :
    KnownAuth c.authAlg := by
  unfold getRequestedCiphers at h
  split at h <;> cases h <;> simp [KnownAuth]

theorem length_openResponse (b : Bmc) (tag : UInt8) : (openResponse b tag).length ≤ maxPayload := by
  have h : (openResponse b tag).length = 36 := rfl
  rw [h]
  decide

theorem length_openSessionMsg (intf : Intf) (c : Ciphers) :
    (message (.openRequest (openSessionMsg intf c))).length ≤ maxPayload := by
  have h : (message (.openRequest (openSessionMsg intf c))).length = 32 := rfl
  rw [h]
  decide

theorem online_withSession (h : Online s) (ss : Session) : Online (s.withSession ss) :=
  ⟨h.sends, h.noanswer, h.retry, h.fd⟩

section OpenSession
variable (other) (h : Introduced s ss b) (hstate : ss.v2.sessionState = .presession)
  (hc : getRequestedCiphers s.intf.ssnParams.cipherSuiteId = some c)
include h hstate hc

theorem openSession_dropped (hdrop : b.received + 1 ∈ b.p.drop) : ∃ t ss',
    Converses wire (handle K other) (openSession K) s b .timeout t b.counted ∧
    Keeps s ss b t ss' b.counted := by
  obtain ⟨packet, t, hconv, hex⟩ :=
    exchange_dropped (K := K) other (.openRequest (openSessionMsg s.intf c)) rfl
      (length_openSessionMsg s.intf c)
      (online_withSession h.online (requesting ss c)) rfl (by rw [requesting, hstate]; rfl)
      (by rw [requesting, hstate]; decide)
      h.idle h.patient hdrop
  refine ⟨t, _, openSession_asks h.session hc (hconv.bind (.of_hears (.pure _ _) rfl)),
    keeps_exchanged hex rfl rfl rfl rfl (Exchanged.unchanged hex) ⟨rfl, rfl, rfl,
      rfl⟩ rfl rfl ⟨_, _, rfl⟩⟩

/-- **Open Session**: it succeeds if the controller accepts, and then both parties are matched. -/
theorem openSession_answered (hdrop : b.received + 1 ∉ b.p.drop) : ∃ rc t ss' b',
    Converses wire (handle K other) (openSession K) s b rc t b' ∧ Keeps s ss b t ss' b' ∧
      b'.v2.state ≠ .active ∧ b'.received = b.received + 1 ∧
      (rc = .done ∧ Accepts b.p c ∧ ss'.v2.sessionState = .openSessionReceived ∧ Matched c ss' b' ∨
        rc = .error ∧ ¬ Accepts b.p c) := by
  obtain ⟨packet, r, t, seq, hconv, hex, hccode, hstatus, hfields⟩ :=
    exchange_answered (K := K) other
      (.openRequest (openSessionMsg s.intf c)) rfl (length_openSessionMsg s.intf c)
      (online_withSession h.online (requesting ss c)) rfl
      (by rw [requesting, hstate]; rfl) (by rw [requesting, hstate]; decide) h.idle h.ccode hdrop
      (c := opening b.counted c) (f := id) ptOpenResponse (openResponse (opening b.counted c) 0)
      (by intro h; cases h) (by decide) (length_openResponse _ _)
      (fun reply b' hsent => (respond_openRequest s.intf).trans hsent)
      (P := fun r => r.rakpReturnCode = b.p.openSessionStatus ∧ (b.p.openSessionStatus = 0 →
        r.bmcId = b.p.bmcId ∧ r.authAlg = b.p.openSessionAuthAlg.getD c.authAlg ∧
          r.integrityAlg = c.integrityAlg ∧ r.cryptAlg = c.cryptAlg))
      (by
        intro r size htype hholds
        refine ⟨readOpenSessionResponse r 16, [.openResponse], ?_, ?_,
          readOpenSessionResponse_holds hholds⟩
        · unfold handlePayload
          rw [htype]
          rfl
        · unfold readOpenSessionResponse
          split <;> rfl)
  have ht : t.intf.session =
      some (sentSession (requesting ss c) (.openRequest (openSessionMsg s.intf c))) := by
    rw [hex.intf]
  have hrsp : t.recvRsp = r := hex.rsp
  by_cases h0 : b.p.openSessionStatus = 0
  · obtain ⟨hid, hauth, hint, hcrypt⟩ := hfields h0
    have hend : ∀ rc, (if r.authAlg = c.authAlg ∧ r.integrityAlg = c.integrityAlg ∧
        r.cryptAlg = c.cryptAlg
        then Rc.done else .error) = rc → Converses wire (handle K other) (openSession K) s b rc
          (t.withSession (acceptOpenResponse r
            (sentSession (requesting ss c) (.openRequest (openSessionMsg s.intf c)))))
          { opening b.counted c with v2 := { (opening b.counted c).v2 with seq } } := by
      rintro rc rfl
      refine openSession_asks h.session hc (hconv.bind (.of_hears (.read (fun _ => rfl) ?_) rfl))
      simp only [hrsp, hstatus, h0, ne_eq, not_true_eq_false, if_false]
      exact (hears_modifySession ht).step (.pure _ _)
    by_cases hacc : b.p.openSessionAuthAlg.getD c.authAlg = c.authAlg
    · refine ⟨.done, _, _, _, hend _ (if_pos ⟨hauth.trans hacc, hint, hcrypt⟩),
        keeps_exchanged hex rfl rfl rfl hccode ⟨_, rfl⟩ ⟨rfl, rfl, rfl, rfl⟩ rfl rfl ⟨_, _, rfl⟩,
        ?_, rfl, .inl ⟨rfl, ⟨h0, hacc⟩, rfl, ⟨hauth.trans hacc, hint, hcrypt, rfl, rfl,
          rfl, hid, rfl⟩⟩⟩
      intro h
      cases h
    · refine ⟨.error, _, _, _, hend _ (if_neg fun h => hacc (hauth.symm.trans h.1)),
        keeps_exchanged hex rfl rfl rfl hccode ⟨_, rfl⟩ ⟨rfl, rfl, rfl, rfl⟩ rfl rfl ⟨_, _, rfl⟩,
        ?_, rfl,
        .inr ⟨rfl, fun h => hacc h.2⟩⟩
      intro h
      cases h
  · refine ⟨.error, t, _, _, openSession_asks h.session hc
      (hconv.bind (.of_hears (.read (fun _ => rfl) ?_) rfl)), keeps_exchanged hex rfl rfl rfl hccode
        (Exchanged.unchanged hex) ⟨rfl, rfl, rfl, rfl⟩ rfl rfl ⟨_, _, rfl⟩, ?_,
      rfl,
      .inr ⟨rfl, fun h => h0 h.1⟩⟩
    · simp only [hrsp, hstatus, h0, ne_eq, not_false_eq_true, if_true]
      exact .pure _ _
    · intro h
      cases h

end OpenSession

/-! ### RAKP 1 -/

/-- What both parties know of the user and of the two random numbers. -/
structure Shared (intf : Intf) (ss : Session) (b : Bmc) : Prop where
  consoleRand : b.v2.consoleRand = ss.v2.consoleRand
  bmcRand : ss.v2.bmcRand = b.p.bmcRand.val
  bmcGuid : ss.v2.bmcGuid = b.p.bmcGuid.val
  role : b.v2.role = ss.v2.requestedRole
  username : b.v2.username = intf.ssnParams.username

section Inputs
variable (hm : Matched c ss b) (hsh : Shared s.intf ss b)
  (hoem : s.intf.oemActive .i82571spt = false) (quirk : Bool)
include hm hsh hoem

/-- Both parties hash the same things. -/
theorem inputs_agree :
    rakp2Input (inputsFor ss s.intf quirk) = b.rakpInputs.rakp2Input ∧
      rakp3Input (inputsFor ss s.intf quirk) = b.rakpInputs.rakp3Input ∧
      rakp4Input (inputsFor ss s.intf quirk) = b.rakpInputs.rakp4Input ∧
      sikInput (inputsFor ss s.intf quirk) = b.rakpInputs.sikInput := by
  have hrole : (inputsFor ss s.intf quirk).role = ss.v2.requestedRole := by
    simp only [inputsFor, hoem, Bool.and_false, Bool.false_eq_true, if_false]
  simp only [rakp2Input, rakp3Input, rakp4Input, sikInput, Rakp.rakp2Input, Rakp.rakp3Input,
    Rakp.rakp4Input, Rakp.sikInput, hrole]
  simp only [inputsFor, Bmc.rakpInputs, hm.consoleId, hm.bmcId, hsh.consoleRand, hsh.bmcRand,
    hsh.bmcGuid, hsh.role, hsh.username, and_self]

end Inputs

theorem KnownAuth.algorithm {alg : UInt8} (h : KnownAuth alg) (hne : alg ≠ authRakpNone) :
    ∃ a, fromAuthId alg = some a ∧ algorithmFor alg = some a ∧ supportedAuthAlg alg = true ∧
      rakpAuthcodeLength alg = some a.authcodeLength := by
  rcases h with rfl | rfl | rfl | rfl
  · exact absurd rfl hne
  · exact ⟨.sha1, rfl, rfl, rfl, rfl⟩
  · exact ⟨.md5, rfl, rfl, rfl, rfl⟩
  · exact ⟨.sha256, rfl, rfl, rfl, rfl⟩

theorem fromAuthId_none {alg : UInt8} {a : Algorithm} (h : fromAuthId alg = some a) :
    alg ≠ authRakpNone := by
  rintro rfl
  cases h

/-- A corrupted byte shows. -/
theorem corrupt_ne {i : ℕ} {l : List UInt8} (h : i < l.length) : corrupt i l ≠ l := by
  intro heq
  have hi : (corrupt i l)[i]? = l[i]? := by rw [heq]
  rw [corrupt, List.getElem?_modify_eq, List.getElem?_eq_getElem h] at hi
  have hi : l[i] + 1 = l[i] := Option.some.inj hi
  have h1 : l[i] + 1 - l[i] = 0 := by rw [hi, UInt8.sub_self]
  rw [UInt8.add_comm, UInt8.add_sub_cancel] at h1
  cases h1

/-- The authcode at the end of a RAKP 2 message. -/
def rakp2Code (K : Primitives) (b : Bmc) : List UInt8 :=
  match fromAuthId b.v2.authAlg with
  | none => []
  | some a =>
    let mac := K.hmac a b.kuid b.rakpInputs.rakp2Input
    if b.p.corruptRakp2 then corrupt 0 mac else mac

theorem rakp2Body_eq (b : Bmc) (tag : UInt8) : rakp2Body K b tag = [tag, b.p.rakp2Status, 0, 0] ++
    le32 b.v2.consoleId ++ b.p.bmcRand.val ++ b.p.bmcGuid.val ++ rakp2Code K b := by
  unfold rakp2Body rakp2Code
  cases fromAuthId b.v2.authAlg with
  | none => rw [List.append_nil]
  | some a => rfl

theorem length_rakp2Code {a : Algorithm} (ha : fromAuthId b.v2.authAlg = some a) :
    (rakp2Code K b).length = a.digestLength := by
  unfold rakp2Code
  rw [ha]
  dsimp only
  split_ifs
  · rw [corrupt, List.length_modify, K.length_hmac]
  · exact K.length_hmac _ _ _

theorem length_rakp2Code_le : (rakp2Code K b).length ≤ 32 := by
  cases ha : fromAuthId b.v2.authAlg with
  | none => simp [rakp2Code, ha]
  | some a =>
    rw [length_rakp2Code ha]
    cases a <;> decide

/-- The controller's random number and the user of the session. -/
def named (b : Bmc) (rand : List UInt8) (role : UInt8) : Bmc :=
  { b with v2 := { b.v2 with consoleRand := rand, role, username := b.p.username } }

/-- The keys of the session. -/
def keysOf (K : Primitives) (b : Bmc) : Keys :=
  match fromAuthId b.v2.authAlg with
  | some a => Keys.derive K a b.rakpInputs
  | none => {}

/-- The keys are derived. -/
def keyed (K : Primitives) (b : Bmc) : Bmc :=
  { b with v2 := { b.v2 with keys := keysOf K b, state := .rakp1 } }

theorem getD_of_drop {l m : List UInt8} {n : ℕ} (h : l.drop n = m) (k : ℕ) :
    l.getD (n + k) 0 = m.getD k 0 := by
  rw [← h, List.getD_eq_getElem?_getD, List.getD_eq_getElem?_getD, List.getElem?_drop]

theorem respond_rakp1 {intf : Intf} {rand : Block} {role : UInt8}
    (hoem : intf.oemActive .i82571spt = false) (huser : intf.ssnParams.username = b.p.username)
    (hlen : intf.ssnParams.username.length ≤ 16) :
    respond K ptRakp1 (rakp1Msg intf ss rand.val role) b =
      sendV2 K ptRakp2 (rakp2Body K (named b rand.val role) 0) (keyed K (named b rand.val role)) := by
  set name := intf.ssnParams.username with hname
  have hrand : rand.val.length = 16 := rand.property
  have hmsg : rakp1Msg intf ss rand.val role = ([0, 0, 0, 0] ++ le32 ss.v2.bmcId) ++ (rand.val ++
      ([role, 0, 0, UInt8.ofNat name.length] ++ name)) := by
    simp only [rakp1Msg, hoem, Bool.false_eq_true, if_false, List.append_nil,
      List.append_assoc, ← hname]
  have h8 : (rakp1Msg intf ss rand.val role).drop 8 =
      rand.val ++ ([role, 0, 0, UInt8.ofNat name.length] ++ name) := by
    rw [hmsg]
    rfl
  have h24 : (rakp1Msg intf ss rand.val role).drop 24 =
      [role, 0, 0, UInt8.ofNat name.length] ++ name := by
    rw [show 24 = 8 + 16 from rfl, ← List.drop_drop, h8, List.drop_left' hrand]
  have h28 : (rakp1Msg intf ss rand.val role).drop 28 = name := by
    rw [show 28 = 24 + 4 from rfl, ← List.drop_drop, h24]
    rfl
  have hsession : rakp1Session b (rakp1Msg intf ss rand.val role) = (named b rand.val role).v2 := by
    unfold rakp1Session named
    have hn : ((rakp1Msg intf ss rand.val role).getD 27 0).toNat = name.length := by
      rw [show 27 = 24 + 3 from rfl, getD_of_drop h24]
      change (UInt8.ofNat name.length).toNat = _
      rw [UInt8.toNat_ofNat', Nat.mod_eq_of_lt (by omega)]
    rw [h8, List.take_left' hrand, show (24 : ℕ) = 24 + 0 from rfl, getD_of_drop h24, h28, hn,
      Nat.min_eq_left hlen, List.take_length, huser]
    rfl
  have htag : (rakp1Msg intf ss rand.val role).getD 0 0 = 0 := rfl
  have hlong : ¬ (rakp1Msg intf ss rand.val role).length < 28 := by
    rw [hmsg]
    simp only [List.length_append, List.length_cons, List.length_nil, length_le32, hrand]
    omega
  unfold respond
  rw [if_neg (by decide), if_pos rfl]
  unfold rakp2
  have hnamed : (modify fun b => { b with v2 := rakp1Session b (rakp1Msg intf ss rand.val role) } : B PUnit) b =
      .ok (⟨⟩, named b rand.val role) := by
    change Except.ok (PUnit.unit, { b with v2 := rakp1Session b (rakp1Msg intf ss rand.val role) }) = _
    rw [hsession]
    rfl
  rw [if_neg hlong, htag, bind_run hnamed]
  rw [bind_run (show (get : B Bmc) (named b rand.val role) =
      .ok (named b rand.val role, named b rand.val role) from rfl),
    require_true (show (named b rand.val role).v2.username =
      (named b rand.val role).p.username from rfl)]
  rfl


/-- The controller accepts the user, and its authcode is right where there is one. -/
def Vouches (p : Personality) (c : Ciphers) : Prop :=
  p.rakp2Status = 0 ∧ (c.authAlg ≠ authRakpNone → p.corruptRakp2 = false)

theorem rakp2HmacMatches_agree (hm : Matched c ss b) (hsh : Shared s.intf ss b)
    (halg : KnownAuth c.authAlg) (hoem : s.intf.oemActive .i82571spt = false)
    (hpass : ss.authcode.take 20 = b.kuid) {code : List UInt8}
    (hcode : ∀ a, fromAuthId c.authAlg = some a → code.take a.digestLength = rakp2Code K b) :
    rakp2HmacMatches K ss code s.intf =
      .ok (decide (c.authAlg ≠ authRakpNone → b.p.corruptRakp2 = false)) := by
  unfold rakp2HmacMatches
  rw [hm.authAlg]
  by_cases hnone : c.authAlg = authRakpNone
  · rw [if_pos hnone, decide_eq_true fun h => absurd hnone h]
    rfl
  · obtain ⟨a, ha, halgo, hsup, -⟩ := KnownAuth.algorithm halg hnone
    have hlen : (K.hmac a b.kuid b.rakpInputs.rakp2Input).length = a.digestLength :=
      K.length_hmac _ _ _
    have hpos : 0 < a.digestLength := by cases a <;> decide
    have hcode := hcode a ha
    rw [rakp2Code, hm.bmcAuthAlg, ha] at hcode
    rw [if_neg hnone, hsup, (inputs_agree hm hsh hoem true).1, hpass, keyedHash, halgo]
    simp only [Bool.not_true, Bool.false_eq_true, if_false, bind, Except.bind, pure, Except.pure,
      hlen, hcode, Except.ok.injEq]
    cases hcor : b.p.corruptRakp2 with
    | false => simp
    | true =>
      have hne := corrupt_ne (l := K.hmac a b.kuid b.rakpInputs.rakp2Input) (i := 0) (by omega)
      simp [hnone, hne]

/-- The session when the RAKP 1 message goes out. -/
def naming (s : St) (ss : Session) : Session :=
  { ss with v2 := { ss.v2 with
      consoleRand := s.net.rand.1.val
      requestedRole := s.intf.ssnParams.privlvl ||| s.intf.ssnParams.lookupbit } }

/-- The RAKP 1 message that goes out. -/
def naming1 (s : St) (ss : Session) : V2Payload :=
  .rakp1 (rakp1Msg s.intf ss s.net.rand.1.val (s.intf.ssnParams.privlvl |||
    s.intf.ssnParams.lookupbit))

/-- The part of `rakp1` that reads the answer. -/
def rakp1End (K : Primitives) : M Rc := do
  setState .rakp2Received
  let s ← get
  let r := s.recvRsp
  if r.rakpReturnCode ≠ 0 then return .error
  modifySession fun session =>
    { session with v2 := { session.v2 with bmcRand := r.bmcRand, bmcGuid := r.bmcGuid } }
  let session ← theSession
  let good ← liftM (rakp2HmacMatches K session r.keyExchangeAuthCode s.intf)
  if good then
    record [.rakp2Verified]
    modifySession fun session => { session with v2 := { session.v2 with rakp2ReturnCode := 0 } }
    return .done
  else
    modifySession fun session => { session with v2 := { session.v2 with rakp2ReturnCode := 0x0f } }
    return .error

/-- The session after the RAKP 2 message arrived. -/
def answered (x : Session) : Session :=
  { x with v2 := { x.v2 with sessionState := .rakp2Received } }

/-- The session with the controller's random number and GUID. -/
def told (x : Session) (r : Response) : Session :=
  { x with v2 := { x.v2 with sessionState := .rakp2Received, bmcRand := r.bmcRand, bmcGuid := r.bmcGuid } }

/-- The session with the verdict on the authcode. -/
def judged (good : Bool) (x : Session) : Session :=
  { x with v2 := { x.v2 with rakp2ReturnCode := if good then 0 else 0x0f } }

theorem hears_rakp1End_error {x : Session} (ht : t.intf.session = some x)
    (h0 : t.recvRsp.rakpReturnCode ≠ 0) :
    Hears wire (rakp1End K) t [] .error (t.withSession (answered x)) := by
  refine (hears_setState _ ht).step (.read (fun _ => rfl) ?_)
  change Hears wire (if t.recvRsp.rakpReturnCode ≠ 0 then _ else _) _ _ _ _
  rw [if_pos h0]
  exact .pure _ _

theorem hears_rakp1End {x : Session} {good : Bool} (ht : t.intf.session = some x)
    (h0 : t.recvRsp.rakpReturnCode = 0)
    (hgood : rakp2HmacMatches K (told x t.recvRsp) t.recvRsp.keyExchangeAuthCode
      t.intf = .ok good) :
    ∃ v, Hears wire (rakp1End K) t [] (if good then .done else .error) v ∧
      v.intf = { t.intf with session := some (judged good (told x t.recvRsp)) } ∧ Unmoved t v := by
  have hcheck : ∀ {rc v}, Hears wire (if good then do
        record [.rakp2Verified]
        modifySession fun session => { session with v2 := { session.v2 with rakp2ReturnCode := 0 } }
        return .done
      else do
        modifySession fun session =>
          { session with v2 := { session.v2 with rakp2ReturnCode := 0x0f } }
        return .error : M Rc) (t.withSession (told x t.recvRsp)) [] rc v → Hears wire (rakp1End K) t [] rc v := by
    intro rc v hrest
    refine (hears_setState _ ht).step (.read (fun _ => rfl) ?_)
    change Hears wire (if t.recvRsp.rakpReturnCode ≠ 0 then _ else _) _ _ _ _
    rw [if_neg (not_not.mpr h0)]
    refine Hears.step (hears_modifySession rfl) (Hears.step (hears_theSession rfl) ?_)
    exact (Hears.lift hgood _).step hrest
  have hsess : ∀ trace, ({ t.withSession (told x t.recvRsp) with trace } : St).intf.session =
      some (told x t.recvRsp) := fun _ => rfl
  cases good with
  | true =>
    exact ⟨_,
      hcheck ((hears_record _).step (Hears.step (hears_modifySession (hsess _)) (.pure _ _))), rfl,
      rfl, rfl, rfl, rfl⟩
  | false =>
    exact ⟨_, hcheck (Hears.step (hears_modifySession (hsess _)) (.pure _ _)), rfl, rfl,
      rfl, rfl, rfl⟩

/-- The RAKP 1 message is on its way. -/
theorem rakp1_asks (h : Introduced s ss b) {rc : Rc} (hrest : Converses wire (handle K other) (do
      let got ← sendPayload K (naming1 s ss)
      if !got then return .timeout
      rakp1End K) ((drawn s).withSession (naming s ss)) b rc t b') :
    Converses wire (handle K other) (rakp1 K) s b rc t b' := by
  obtain ⟨entropy, hnet⟩ := rand_net s.net
  have hsent : wire.sent (drawn s) = wire.sent s := by
    change s.net.rand.2.sent = s.net.sent
    rw [hnet]
  have hle : ¬ 16 < (drawn s).intf.ssnParams.username.length := Nat.not_lt.mpr h.username_le
  unfold rakp1
  refine .step (hears_theSession h.session) rfl (.step hears_rand hsent (.read (fun _ => rfl) ?_))
  refine .step (hears_modifySession h.session) rfl ?_
  rw [if_neg hle]
  exact hrest

theorem length_naming1 (h : Introduced s ss b) : (message (naming1 s ss)).length ≤ maxPayload := by
  have hrand : s.net.rand.1.val.length = 16 := s.net.rand.1.property
  have hlen := h.username_le
  simp only [naming1, message, rakp1Msg, h.i82571spt, Bool.false_eq_true, if_false,
    List.length_append, List.length_cons, List.length_nil, length_le32, hrand, maxPayload]
  omega

theorem online_drawn (h : Online s) : Online (drawn s) := by
  obtain ⟨entropy, hnet⟩ := rand_net s.net
  refine ⟨?_, h.noanswer, h.retry, h.fd⟩
  rw [drawn, hnet]
  exact h.sends

section Rakp1
variable (other) (h : Introduced s ss b) (hstate : ss.v2.sessionState = .openSessionReceived)
include h hstate

theorem rakp1_dropped (hdrop : b.received + 1 ∈ b.p.drop) : ∃ t ss',
    Converses wire (handle K other) (rakp1 K) s b .timeout t b.counted ∧
    Keeps s ss b t ss' b.counted := by
  obtain ⟨packet, t, hconv, hex⟩ := exchange_dropped (K := K) other (naming1 s ss) rfl
    (length_naming1 h) (online_withSession (online_drawn h.online) (naming s ss)) rfl
      (by rw [naming, hstate]; rfl)
    (by rw [naming, hstate]; decide) h.idle h.patient hdrop
  exact ⟨t, _, rakp1_asks h (hconv.bind (.of_hears (.pure _ _) rfl)),
    keeps_exchanged hex rfl rfl rfl rfl (Exchanged.unchanged hex) ⟨rfl, rfl, rfl,
      rfl⟩ rfl rfl ⟨_, _, rfl⟩⟩

/-- **RAKP 1**: it succeeds if the controller vouches for itself, and then both parties share what
the keys are made of. -/
theorem rakp1_answered (hm : Matched c ss b) (halg : KnownAuth c.authAlg)
    (hdrop : b.received + 1 ∉ b.p.drop) :
    ∃ rc t ss' b', Converses wire (handle K other) (rakp1 K) s b rc t b' ∧ Keeps s ss b t ss' b' ∧
      b'.v2.state ≠ .active ∧ b'.received = b.received + 1 ∧
      (rc = .done ∧ Vouches b.p c ∧ ss'.v2.sessionState = .rakp2Received ∧
        ss'.v2.rakp2ReturnCode = 0 ∧
          Matched c ss' b' ∧ Shared t.intf ss' b' ∧ b'.v2.keys = keysOf K b' ∨
        rc = .error ∧ ¬ Vouches b.p c) := by
  set rand := s.net.rand.1 with hrand
  set role := s.intf.ssnParams.privlvl ||| s.intf.ssnParams.lookupbit with hrole
  set b1 := named b.counted rand.val role with hb1
  have hcode : ∀ a, fromAuthId c.authAlg = some a → (rakp2Code K b1).length = a.digestLength := by
    intro a ha
    exact length_rakp2Code (by rw [← ha]; exact congrArg fromAuthId hm.bmcAuthAlg)
  have hbody : (rakp2Body K b1 0).length ≤ maxPayload := by
    have hr : b1.p.bmcRand.val.length = 16 := b1.p.bmcRand.property
    have hg : b1.p.bmcGuid.val.length = 16 := b1.p.bmcGuid.property
    have hc := length_rakp2Code_le (K := K) (b := b1)
    rw [rakp2Body_eq]
    simp only [List.length_append, List.length_cons, List.length_nil, length_le32, hr,
      hg, maxPayload]
    omega
  obtain ⟨packet, r, t, seq, hconv, hex, hccode, hstatus, hbmcRand, hbmcGuid, hauth⟩ :=
    exchange_answered (K := K) other (naming1 s ss) rfl
    (length_naming1 h) (online_withSession (online_drawn h.online) (naming s ss)) rfl
      (by rw [naming, hstate]; rfl)
    (by rw [naming, hstate]; decide) h.idle h.ccode hdrop
    (c := keyed K b1) (f := id) ptRakp2 (rakp2Body K b1 0) (by intro h; cases h) (by decide) hbody
    (fun reply b' hsent =>
      (respond_rakp1 (b := b.counted) h.i82571spt h.username h.username_le).trans hsent)
    (P := fun r => r.rakpReturnCode = b.p.rakp2Status ∧ r.bmcRand = b.p.bmcRand.val ∧
      r.bmcGuid = b.p.bmcGuid.val ∧
      ∀ a, fromAuthId c.authAlg = some a →
      r.keyExchangeAuthCode.take a.digestLength = rakp2Code K b1)
    (by
      intro r size htype hholds
      rw [rakp2Body_eq] at hholds
      obtain ⟨r', hread, hcc, hfields⟩ :=
        readRakp2Message_holds halg b1.p.bmcRand.property b1.p.bmcGuid.property hcode hholds
      refine ⟨r', [.rakp2], ?_, hcc, hfields⟩
      have halg' : (sentSession (naming s ss) (naming1 s ss)).v2.authAlg = c.authAlg := hm.authAlg
      unfold handlePayload
      rw [htype, halg', hread]
      rfl)
  have ht : t.intf.session = some (sentSession (naming s ss) (naming1 s ss)) := by rw [hex.intf]
  have hrsp : t.recvRsp = r := hex.rsp
  have hidle : (keyed K b1).v2.state ≠ .active := by
    intro h
    cases h
  by_cases h0 : b.p.rakp2Status = 0
  · set z := told (sentSession (naming s ss) (naming1 s ss)) t.recvRsp with hz
    have hmz : Matched c z b1 := ⟨hm.authAlg, hm.integrityAlg, hm.cryptAlg, hm.bmcAuthAlg, hm.bmcIntegrityAlg,
      hm.bmcCryptAlg, hm.bmcId, hm.consoleId⟩
    have hshz : Shared t.intf z b1 := by
      refine ⟨rfl, by rw [hz, hrsp]; exact hbmcRand, by rw [hz, hrsp]; exact hbmcGuid, rfl, ?_⟩
      rw [hex.intf]
      exact h.username.symm
    have hgood : rakp2HmacMatches K z t.recvRsp.keyExchangeAuthCode t.intf =
        .ok (decide (c.authAlg ≠ authRakpNone → b.p.corruptRakp2 = false)) := by
      refine rakp2HmacMatches_agree hmz hshz halg ?_ h.password (by rw [hrsp]; exact hauth)
      rw [hex.intf]
      exact h.i82571spt
    obtain ⟨v, hend, hintf, hv⟩ := hears_rakp1End ht (by rw [hrsp, hstatus, h0]) hgood
    refine ⟨_, v, _, _, rakp1_asks h (hconv.bind (.of_hears hend (congrArg Net.sent hv.net))),
      keeps_exchanged hex rfl rfl rfl hccode ⟨_, hintf⟩ hv rfl rfl ⟨_, _, rfl⟩, hidle, rfl, ?_⟩
    by_cases hcor : c.authAlg ≠ authRakpNone → b.p.corruptRakp2 = false
    · rw [decide_eq_true hcor]
      refine .inl ⟨rfl, ⟨h0, hcor⟩, rfl, rfl, ?_, ?_, rfl⟩
      · exact ⟨hm.authAlg, hm.integrityAlg, hm.cryptAlg, hm.bmcAuthAlg, hm.bmcIntegrityAlg,
          hm.bmcCryptAlg, hm.bmcId, hm.consoleId⟩
      · exact ⟨rfl, hshz.bmcRand, hshz.bmcGuid, rfl, by rw [hintf]; exact hshz.username⟩
    · rw [decide_eq_false hcor]
      exact .inr ⟨rfl, fun h => hcor h.2⟩
  · refine ⟨.error, _, _, _, rakp1_asks h (hconv.bind (.of_hears (hears_rakp1End_error ht ?_) rfl)),
      keeps_exchanged hex rfl rfl rfl hccode ⟨_, rfl⟩ ⟨rfl, rfl, rfl, rfl⟩ rfl rfl ⟨_, _, rfl⟩,
      hidle, rfl,
      .inr ⟨rfl, fun h => h0 h.1⟩⟩
    rw [hrsp, hstatus]
    exact h0

end Rakp1

end Ipmitool.Peer.Handshake
