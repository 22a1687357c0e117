import Ipmitool.Peer.Handshake

/-! # Commands of the model BMC

A request on its way through both parties, without the packets around it. The commands of the
controller do not see the session that they arrive in (`blind_dispatch`), a request that the
transport writes is answered by what `serve` says, in as many Send Message envelopes as it came in
(`respond_request`), and the transport finds the answer behind the envelopes
(`ipmiLoop_replies`). -/

namespace Ipmitool.Peer.Commands

open Ipmitool.Lib.Mem Ipmitool.Lib.Bytes Ipmitool.Lib.Machine Ipmitool.Core.Types
  Ipmitool.Crypto.Mac
open Ipmitool.Lanplus.State Ipmitool.Lanplus.Receive
open Ipmitool.Lanplus.Build (requestMessage checksummed entryRequest getIpmiPayloadWireRep
  bridgedRequest)
open Ipmitool.Peer.Controller Ipmitool.Peer.Packets Ipmitool.Peer.Handshake

variable {K : Primitives} {b b' : Bmc} {r : Response} {req : Request} {m m' : Message} {α β : Type}

/-! ### The controller's commands do not see the session -/

/-- What a command leaves alone. -/
structure Untouched (b b' : Bmc) : Prop where
  p : b'.p = b.p
  received : b'.received = b.received
  v15 : b'.v15 = b.v15
  v2 : b'.v2 = b.v2

/-- The program neither reads nor writes the RMCP+ session and the number of datagrams, and leaves
the personality and the other session alone. -/
def Blind (x : B α) : Prop :=
  ∀ b a b', x b = .ok (a, b') → Untouched b b' ∧
    ∀ received v2, x { b with received, v2 } = .ok (a, { b' with received, v2 })

theorem Blind.pure (a : α) : Blind (Pure.pure a : B α) := by
  intro b a' b' h
  obtain ⟨rfl, rfl⟩ := pure_ok.mp h
  exact ⟨⟨rfl, rfl, rfl, rfl⟩, fun _ _ => rfl⟩

theorem Blind.bind {x : B α} {f : α → B β} (hx : Blind x) (hf : ∀ a, Blind (f a)) :
    Blind (x >>= f) := by
  intro b c b' h
  obtain ⟨a, t, h1, h2⟩ := bind_ok.mp h
  obtain ⟨hfirst, hx⟩ := hx _ _ _ h1
  obtain ⟨hsecond, hf⟩ := hf a _ _ _ h2
  refine ⟨⟨hsecond.p.trans hfirst.p, hsecond.received.trans hfirst.received,
    hsecond.v15.trans hfirst.v15,
    hsecond.v2.trans hfirst.v2⟩, fun received v2 => ?_⟩
  rw [bind_run (hx received v2)]
  exact hf received v2

theorem Blind.read {f : Bmc → B α} (hsame : ∀ b received v2, f { b with received, v2 } = f b)
    (hf : ∀ b, Blind (f b)) : Blind (get >>= f) := by
  intro b a b' h
  obtain ⟨hkeep, hrun⟩ := hf b _ _ _ h
  refine ⟨hkeep, fun received v2 => ?_⟩
  change f { b with received, v2 } { b with received, v2 } = _
  rw [hsame]
  exact hrun received v2

theorem Blind.lift (x : Except Fault α) : Blind (liftM x : B α) := by
  intro b a b' h
  obtain ⟨rfl, rfl⟩ := lift_ok.mp h
  exact ⟨⟨rfl, rfl, rfl, rfl⟩, fun _ _ => rfl⟩

theorem Blind.throw (e : Fault) : Blind (throw e : B α) := by
  intro b a b' h
  cases h

theorem Blind.ite {c : Prop} [Decidable c] {x y : B α} (hx : c → Blind x) (hy : ¬ c → Blind y) :
    Blind (if c then x else y) := by
  split_ifs with h
  · exact hx h
  · exact hy h

theorem blind_require (c : Prop) [Decidable c] (v : Violation) : Blind (require c v) := by
  refine .ite (fun _ => .pure _) fun _ b a b' h => ?_
  obtain rfl := modify_ok.mp h
  exact ⟨⟨rfl, rfl, rfl, rfl⟩, fun _ _ => rfl⟩

theorem blind_sessionChallenge (m : Message) : Blind (sessionChallenge m) := by
  refine .read (fun _ _ _ => rfl) fun b => .bind (blind_require _ _) fun _ => ?_
  exact .ite (fun _ => .pure _) fun _ => .pure _

theorem blind_activateSession (m : Message) : Blind (activateSession m) := by
  refine .read (fun _ _ _ => rfl) fun b => .ite (fun _ => .pure _) fun _ =>
    .ite (fun _ => .pure _) fun _ => ?_
  exact .bind (blind_require _ _) fun _ => .bind (blind_require _ _) fun _ => .pure _

theorem blind_sendMessage {inner : Message → B Answer} (h : ∀ m, Blind (inner m)) (m : Message) :
    Blind (sendMessage inner m) := by
  refine .ite (fun _ => .pure _) fun _ => ?_
  cases parseMessage (m.data.drop 1) with
  | none => exact .pure _
  | some message =>
    refine .bind (blind_require _ _) fun _ => .bind (blind_require _ _) fun _ =>
      .bind (h message) fun r => ?_
    exact .ite (fun _ => .throw _) fun _ => .pure _

theorem blind_dispatchApp {nested : Option (Message → B Answer)}
    (h : ∀ inner ∈ nested, ∀ m, Blind (inner m)) (m : Message) : Blind (dispatchApp nested m) := by
  refine .read (fun _ _ _ => rfl) fun b => ?_
  refine .ite (fun _ => .pure _) fun _ => .ite (fun _ => .pure _) fun _ =>
    .ite (fun _ => .pure _) fun _ => ?_
  refine .ite (fun _ => .pure _) fun _ => .ite (fun _ => blind_sessionChallenge m) fun _ => ?_
  refine .ite (fun _ => blind_activateSession m) fun _ => .ite (fun _ => .pure _) fun _ => ?_
  refine .ite (fun _ => .lift _) fun _ => .ite (fun _ => .pure _) fun _ => ?_
  refine .ite (fun _ => ?_) fun _ => .pure _
  cases nested with
  | none => exact .pure _
  | some inner => exact blind_sendMessage (h inner rfl) m

theorem blind_dispatchWith {nested : Option (Message → B Answer)}
    (h : ∀ inner ∈ nested, ∀ m, Blind (inner m)) (m : Message) : Blind (dispatchWith nested m) := by
  refine .read (fun _ _ _ => rfl) fun b => .ite (fun _ => .bind ?_ fun _ => .pure _) fun _ => ?_
  · intro b a b' h
    obtain rfl := modify_ok.mp h
    exact ⟨⟨rfl, rfl, rfl, rfl⟩, fun _ _ => rfl⟩
  · cases b.p.extra.find? fun c => c.netfn == m.netfn && c.cmd == m.cmd with
    | some c => exact .pure _
    | none =>
      refine .ite (fun _ => blind_dispatchApp h m) fun _ => ?_
      cases b.p.fru with
      | some image => exact .ite (fun _ => .lift _) fun _ => .pure _
      | none => exact .pure _

/-- **The commands are blind.** -/
theorem blind_dispatch (depth : ℕ) : ∀ m, Blind (dispatch depth m) := by
  induction depth with
  | zero => exact blind_dispatchWith fun inner h => by cases h
  | succ depth ih =>
    refine blind_dispatchWith fun inner h => ?_
    obtain rfl := Option.mem_some_iff.mp h
    exact ih

/-- A command is told by its network function, its number and its data. -/
theorem dispatch_congr (depth : ℕ) (hnetfn : m'.netfn = m.netfn) (hcmd : m'.cmd = m.cmd)
    (hdata : m'.data = m.data) :
    dispatch depth m' = dispatch depth m := by
  obtain ⟨_, _, _, _, _, _, _, _, _, _⟩ := m
  obtain ⟨_, _, _, _, _, _, _, _, _, _⟩ := m'
  dsimp only at hnetfn hcmd hdata
  subst hnetfn hcmd hdata
  cases depth <;> rfl

/-! ### Messages on the wire -/

/-- The message in a request, as the controller reads it. -/
def asked (rsAddr rqSeq : UInt8) (req : Request) : Message where
  rsAddr := rsAddr
  netfn := UInt8.ofNat req.netfn.val
  rsLun := UInt8.ofNat req.lun.val
  csum1Ok := true
  rqAddr := remoteSwid
  rqSeq := rqSeq
  rqLun := 0
  cmd := req.cmd
  data := req.data
  csum2Ok := true

/-- What the controller answers to a request that comes in an envelope less than `depth` allows. -/
def serve (depth : ℕ) (req : Request) : B Answer := dispatch depth (asked 0 0 req)

theorem parseMessage_message (a n c d cmd : UInt8) (data : List UInt8) :
    parseMessage (checksummed [a, n] ([c, d, cmd] ++ data)) = some
      { rsAddr := a, netfn := n >>> 2, rsLun := n &&& 3, csum1Ok := true, rqAddr := c,
        rqSeq := d >>> 2,
        rqLun := d &&& 3, cmd, data, csum2Ok := true } := by
  set k := csum ([c, d, cmd] ++ data) with hk
  have hbytes : checksummed [a, n] ([c, d, cmd] ++ data) =
      a :: n :: csum [a, n] :: c :: d :: cmd :: (data ++ [k]) := rfl
  have hlast : (a :: n :: csum [a, n] :: c :: d :: cmd :: (data ++ [k])).getLastD 0 = k := by
    rw [show a :: n :: csum [a, n] :: c :: d :: cmd :: (data ++ [k]) =
      (a :: n :: csum [a, n] :: c :: d :: cmd :: data) ++ [k] from rfl, List.getLastD_concat]
  have hbody : ((a :: n :: csum [a, n] :: c :: d :: cmd :: (data ++ [k])).drop 3).dropLast =
      [c, d, cmd] ++ data := by
    rw [show (a :: n :: csum [a, n] :: c :: d :: cmd :: (data ++ [k])).drop 3 =
      ([c, d, cmd] ++ data) ++ [k] from rfl, List.dropLast_concat]
  have hdata : ((a :: n :: csum [a, n] :: c :: d :: cmd :: (data ++ [k])).drop 6).dropLast =
      data := by
    rw [show (a :: n :: csum [a, n] :: c :: d :: cmd :: (data ++ [k])).drop 6 =
      data ++ [k] from rfl, List.dropLast_concat]
  unfold parseMessage
  rw [hbytes, if_neg (by simp only [List.length_cons, List.length_append]; omega), hlast, hbody,
    hdata, ← hk]
  simp only [List.getD_cons_zero, List.getD_cons_succ, List.take_succ_cons, List.take_zero,
    beq_self_eq_true]

/-- A request sequence number survives its way through the byte that it shares with a LUN. -/
theorem seq_shift {seq : UInt8} (h : seq < 64) (l : Fin 4) :
    (seq <<< 2 ||| UInt8.ofNat l.val) >>> 2 = seq ∧
    (seq <<< 2) >>> 2 = seq ∧ seq <<< 2 &&& 3 = 0 := by
  have hall : ∀ (n : Fin 64) (l : Fin 4), (UInt8.ofNat n.val <<< 2 ||| UInt8.ofNat l.val) >>> 2 =
      UInt8.ofNat n.val ∧
      (UInt8.ofNat n.val <<< 2) >>> 2 = UInt8.ofNat n.val ∧ UInt8.ofNat n.val <<< 2 &&& 3 = 0 := by
    decide +kernel
  have hseq := hall ⟨seq.toNat, UInt8.lt_iff_toNat_lt.mp h⟩ l
  rwa [UInt8.ofNat_toNat] at hseq

theorem netfnLun_parts (req : Request) :
    req.netfnLun >>> 2 = UInt8.ofNat req.netfn.val ∧
      req.netfnLun &&& 3 = UInt8.ofNat req.lun.val := by
  unfold Request.netfnLun
  generalize req.netfn = n
  generalize req.lun = l
  revert n l
  decide +kernel

theorem parseMessage_request {rsAddr rqSeq : UInt8} (h : rqSeq < 64) :
    parseMessage (requestMessage rsAddr remoteSwid rqSeq req) = some (asked rsAddr rqSeq req) := by
  rw [requestMessage, parseMessage_message, (netfnLun_parts req).1, (netfnLun_parts req).2,
    (seq_shift h 0).2.1, (seq_shift h 0).2.2]
  rfl

theorem serve_asked (depth : ℕ) (rsAddr rqSeq : UInt8) (req : Request) :
    dispatch depth (asked rsAddr rqSeq req) = serve depth req := dispatch_congr depth rfl rfl rfl

/-- A response with a sequence number, a command and the answer `r`. -/
def Reply (seq cmd : UInt8) (r : Answer) (l : List UInt8) : Prop :=
  ∃ a n c d e k, l = [a, n, c, d, e, cmd, r.ccode] ++ r.data ++ [k] ∧ e >>> 2 = seq

theorem Reply.length {seq cmd : UInt8} {a : Answer} {l : List UInt8} (h : Reply seq cmd a l) :
    l.length = a.data.length + 8 := by
  obtain ⟨_, _, _, _, _, _, rfl, -⟩ := h
  simp

theorem reply_responseMessage {rsAddr rqSeq : UInt8} (rqAddr rsAddr' : UInt8) (h : rqSeq < 64)
    (r : Answer) :
    Reply rqSeq req.cmd r (responseMessage rqAddr rsAddr' (asked rsAddr rqSeq req) r) := by
  exact ⟨_, _, _, _, rqSeq <<< 2 ||| UInt8.ofNat req.lun.val, _, rfl, (seq_shift h req.lun).1⟩

/-- The answer to a request that travels in `level` envelopes. -/
inductive Replies (seq cmd : UInt8) (r : Answer) : ℕ → List UInt8 → Prop
  | bare {l : List UInt8} (h : Reply seq cmd r l) : Replies seq cmd r 0 l
  | enveloped {l inner : List UInt8} (h : Reply seq 0x34 { data := inner } l)
    (hinner : Reply seq cmd r inner) :
      Replies seq cmd r 1 l

theorem Replies.length {seq cmd : UInt8} {n : ℕ} {l : List UInt8} {a : Answer}
    (h : Replies seq cmd a n l) :
    l.length = a.data.length + 8 + 8 * n := by
  cases h with
  | bare h => exact h.length
  | enveloped h hinner => rw [h.length, hinner.length]

/-! ### The controller answers -/

/-- The personality has nothing special in store for the command. -/
structure Ordinary (p : Personality) (netfn cmd : UInt8) : Prop where
  dup : p.dupOnce ≠ some { netfn, cmd }
  extra : p.extra.find? (fun c => c.netfn == netfn && c.cmd == cmd) = none
  deaf : p.deaf ≠ some { netfn, cmd }

/-- The controller opens envelopes: Send Message is an ordinary command of it. -/
def Forwards (p : Personality) : Prop := Ordinary p 0x06 0x34

theorem dispatchWith_app {nested : Option (Message → B Answer)} (h : Ordinary b.p m.netfn m.cmd)
    (hnetfn : m.netfn = 0x06) : dispatchWith nested m b = dispatchApp nested m b := by
  unfold dispatchWith
  rw [bind_run (show (get : B Bmc) b = .ok (b, b) from rfl),
    if_neg fun hdup => h.dup hdup.1, h.extra]
  dsimp only
  rw [if_pos hnetfn]

/-- Network functions that the controller does not know. -/
theorem dispatchWith_unknown {nested : Option (Message → B Answer)} (h : Ordinary b.p m.netfn m.cmd)
    (happ : m.netfn ≠ 0x06) (hstorage : m.netfn ≠ 0x0a) :
    dispatchWith nested m b = .ok ({ ccode := 0xc1 }, b) := by
  unfold dispatchWith
  rw [bind_run (show (get : B Bmc) b = .ok (b, b) from rfl),
    if_neg fun hdup => h.dup hdup.1, h.extra]
  dsimp only
  rw [if_neg happ]
  cases b.p.fru with
  | none => rfl
  | some image =>
    dsimp only
    rw [if_neg hstorage]
    rfl

/-- The request that carries `inner` to another controller. -/
def envelope (rqSeq channel : UInt8) (inner : List UInt8) : Message where
  rsAddr := bmcSlaveAddr
  netfn := 0x06
  rsLun := 0
  csum1Ok := true
  rqAddr := remoteSwid
  rqSeq := rqSeq
  rqLun := 0
  cmd := 0x34
  data := (0x40 ||| channel) :: inner
  csum2Ok := true

theorem parseMessage_sendMessage {rqSeq channel : UInt8} {inner : List UInt8} (h : rqSeq < 64) :
    parseMessage (Lanplus.Build.sendMessage bmcSlaveAddr rqSeq channel inner) =
      some (envelope rqSeq channel inner) := by
  have hmsg := parseMessage_message bmcSlaveAddr (UInt8.ofNat (netfnApp.val <<< 2)) remoteSwid
    (rqSeq <<< 2) 0x34
    ((0x40 ||| channel) :: inner)
  rw [(seq_shift h 0).2.1, (seq_shift h 0).2.2] at hmsg
  exact hmsg

theorem sendMessage_run {inner : Message → B Answer} {a : Answer} (hlen : ¬ m.data.length < 8)
    (hparse : parseMessage (m.data.drop 1) = some m') (h1 : m'.csum1Ok = true)
    (h2 : m'.csum2Ok = true) (hinner : inner m' b = .ok (a, b'))
    (hfit : ¬ 512 < 8 + a.data.length) :
    Controller.sendMessage inner m b =
      .ok ({ data := responseMessage m'.rqAddr m'.rsAddr m' a }, b') := by
  unfold Controller.sendMessage
  rw [if_neg hlen, hparse]
  dsimp only
  rw [require_true h1, require_true h2, pure_bind, pure_bind, bind_run hinner, if_neg hfit]
  rfl

theorem dispatchWith_sendMessage {inner : Message → B Answer} (hfwd : Forwards b.p)
    (hnetfn : m.netfn = 0x06) (hcmd : m.cmd = 0x34) :
    dispatchWith (some inner) m b = Controller.sendMessage inner m b := by
  refine (dispatchWith_app (by rw [hnetfn, hcmd]; exact hfwd) hnetfn).trans ?_
  unfold dispatchApp
  rw [bind_run (show (get : B Bmc) b = .ok (b, b) from rfl), hcmd]
  rfl

/-- The message in an envelope is answered in an envelope. -/
theorem dispatch_envelope {rsAddr rqSeq channel : UInt8} {a : Answer} (hseq : rqSeq < 64)
    (hfwd : Forwards b.p) (hserve : serve 1 req b = .ok (a, b')) (hfit : 8 + a.data.length ≤ 512) :
    dispatch 2 (envelope rqSeq channel (requestMessage rsAddr remoteSwid rqSeq req)) b =
      .ok ({ data := responseMessage remoteSwid rsAddr (asked rsAddr rqSeq req) a }, b') := by
  have hlen : ¬ (envelope rqSeq channel (requestMessage rsAddr remoteSwid rqSeq req)).data.length <
      8 := by
    change ¬ ((0x40 ||| channel) :: requestMessage rsAddr remoteSwid rqSeq req).length < 8
    rw [List.length_cons, Lanplus.Bridging.length_requestMessage]
    omega
  refine (dispatchWith_sendMessage hfwd rfl rfl).trans ?_
  exact sendMessage_run hlen (parseMessage_request hseq) rfl rfl
    ((serve_asked 1 _ _ _).symm ▸ hserve) (by omega)

/-- A request that reaches the controller is answered. -/
theorem respond_command {plain reply : List UInt8} {a : Answer}
    (hparse : parseMessage plain = some m) (h1 : m.csum1Ok = true) (h2 : m.csum2Ok = true)
    (hdeaf : b.isDeaf m = false) (hdispatch : dispatch 2 m b = .ok (a, b')) {b'' : Bmc}
    (hsend : sendV2 K ptIpmi (responseMessage remoteSwid bmcSlaveAddr m a) b' = .ok (reply, b'')) :
    respond K ptIpmi plain b = .ok (reply, b'') := by
  unfold respond
  rw [if_neg (by decide), if_neg (by decide), if_neg (by decide), if_pos rfl]
  unfold v2IpmiResponse
  rw [hparse]
  dsimp only
  rw [require_true h1, require_true h2, pure_bind, pure_bind,
    bind_run (show (get : B Bmc) b = .ok (b, b) from rfl), hdeaf]
  simp only [Bool.false_eq_true, if_false]
  rw [bind_run hdispatch]
  exact hsend

/-- A request that travels in `level` envelopes and its answer: both fit, the controller is not deaf
to the command, and the answer does not ask for another one. -/
structure Served (p : Personality) (level : ℕ) (req : Request) (a : Answer) : Prop where
  level_le : level ≤ 1
  deaf : level = 0 → p.deaf ≠ some { netfn := UInt8.ofNat req.netfn.val, cmd := req.cmd }
  forwards : level = 1 → Forwards p
  cmd : level = 1 → req.cmd ≠ 0x34
  request_le : req.data.length + 7 + 8 * level ≤ maxPayload
  answer_le : a.data.length + 8 + 8 * level ≤ maxPayload
  envelope_le : level = 1 → 8 + a.data.length ≤ 512
  ccode : a.ccode ≠ 0xcf

/-- **The controller answers a request**, in as many envelopes as it came in. -/
theorem respond_request {intf : Intf} {bp : Bool} {rqSeq : UInt8} {level : ℕ} {a : Answer}
    (hlevel : bridgedRequest intf bp = level) (h : Served b.p level req a) (hseq : rqSeq < 64)
    (hserve : serve (2 - level) req b = .ok (a, b')) : ∃ msg, Replies rqSeq req.cmd a level msg ∧
      ∀ reply b'', sendV2 K ptIpmi msg b' = .ok (reply, b'') →
        respond K ptIpmi (getIpmiPayloadWireRep intf bp req rqSeq rqSeq) b = .ok (reply, b'') := by
  unfold getIpmiPayloadWireRep
  rw [hlevel]
  obtain rfl | rfl : level = 0 ∨ level = 1 := by
    have := h.level_le
    omega
  · have hdeaf : b.isDeaf (asked bmcSlaveAddr rqSeq req) = false := beq_eq_false_iff_ne.mpr (h.deaf rfl)
    refine ⟨responseMessage remoteSwid bmcSlaveAddr (asked bmcSlaveAddr rqSeq req) a,
      .bare (reply_responseMessage _ _ hseq a), fun reply b'' hsend => ?_⟩
    exact respond_command (parseMessage_request hseq) rfl rfl hdeaf ((serve_asked 2 _ _ _).symm ▸ hserve) hsend
  · have hdeaf : b.isDeaf (envelope rqSeq intf.targetChannel
        (requestMessage intf.targetAddr.toUInt8 remoteSwid rqSeq req)) = false :=
      beq_eq_false_iff_ne.mpr (h.forwards rfl).deaf
    have hinner : Reply rqSeq req.cmd a (responseMessage remoteSwid intf.targetAddr.toUInt8
        (asked intf.targetAddr.toUInt8 rqSeq req) a) := reply_responseMessage _ _ hseq a
    refine ⟨responseMessage remoteSwid bmcSlaveAddr (envelope rqSeq intf.targetChannel
        (requestMessage intf.targetAddr.toUInt8 remoteSwid rqSeq req))
          { data := responseMessage remoteSwid intf.targetAddr.toUInt8 (asked intf.targetAddr.toUInt8 rqSeq req) a },
      .enveloped ?_ hinner, fun reply b'' hsend => ?_⟩
    · exact ⟨_, _, _, _, rqSeq <<< 2 ||| UInt8.ofNat (0 : Fin 4).val, _, rfl, (seq_shift hseq 0).1⟩
    · exact respond_command (parseMessage_sendMessage hseq) rfl rfl hdeaf
        (dispatch_envelope hseq (h.forwards rfl) hserve (h.envelope_le rfl)) hsend

/-! ### The transport reads the answer -/

theorem readIpmiResponse_reply {seq cmd : UInt8} {a : Answer} {l : List UInt8} {o : ℕ}
    (h : Reply seq cmd a l) (hr : Holds r.data o l) :
    (readIpmiResponse r o).rqSeq = seq ∧ (readIpmiResponse r o).cmd = cmd ∧
      (readIpmiResponse r o).ccode = a.ccode ∧
      Holds (readIpmiResponse r o).data (o + 7) a.data := by
  obtain ⟨a0, n, c, d, e, k, rfl, hseq⟩ := h
  rw [holds_append, holds_append] at hr
  obtain ⟨⟨hhead, hdata⟩, -⟩ := hr
  simp only [holds_cons] at hhead
  obtain ⟨-, -, -, -, h4, h5, h6, -⟩ := hhead
  refine ⟨?_, ?_, h6, hdata⟩
  · have h4 : r.data (o + 4) = e := h4
    simp [readIpmiResponse, Response.rqSeq, write_apply, h4, hseq]
  · have h5 : r.data (o + 5) = cmd := h5
    simp [readIpmiResponse, Response.cmd, write_apply, h5]

theorem shiftData_reply {n : ℕ} {data : List UInt8} {o : ℕ} (hn : data.length = n)
    (hfit : o + n ≤ bufSize) (hr : Holds r.data o data) :
    ∃ r', shiftData r o n = .ok r' ∧ r'.ccode = r.ccode ∧ r'.dataLen = n ∧
      Holds r'.data 0 data := by
  unfold shiftData
  by_cases h0 : 0 < n
  · refine ⟨{ r with dataLen := n, data := move r.data 0 o n }, ?_, rfl, rfl, ?_⟩
    · rw [if_pos (by omega), if_neg (by omega)]
      rfl
    · have hread : read r.data o n = data := by rw [← hn]; exact hr
      change Holds (write r.data 0 (read r.data o n)) 0 data
      rw [hread]
      exact holds_write _ _ _
  · have hnil : data = [] := List.length_eq_zero_iff.mp (by omega)
    refine ⟨{ r with dataLen := 0 }, by rw [if_neg (by omega)], rfl, ?_, ?_⟩
    · change (0 : ℤ) = n
      omega
    · rw [hnil]
      exact holds_nil _ _

/-- What a command leaves in the response buffer. -/
def Holding (a : Answer) (r : Response) : Prop :=
  r.ccode = a.ccode ∧ r.dataLen = a.data.length ∧ Holds r.data 0 a.data

theorem Holding.bytes {a : Answer} (h : Holding a r) : r.bytes = a.data := by
  rw [Response.bytes, h.2.1, Int.toNat_natCast]
  exact h.2.2

/-- The bytes behind the first one of what a command has left. -/
theorem Holding.tail {x : UInt8} {l : List UInt8} {r : Response}
    (h : Holding { data := x :: l } r) :
    read r.data 1 (r.dataLen - 1).toNat = l := by
  have hlen : (r.dataLen - 1).toNat = l.length := by
    rw [h.2.1, List.length_cons]
    omega
  have hall : read r.data 0 (1 + l.length) = x :: l := by
    have := h.2.2
    rwa [Holds, List.length_cons, Nat.add_comm] at this
  rw [read_add] at hall
  rw [hlen]
  exact (List.cons.inj hall).2

theorem ipmiLoop_reply (fuel : ℕ) {seq cmd : UInt8} {a : Answer} {l : List UInt8} {o : ℕ}
    {e : Entry} {size : UInt16}
    (h : Reply seq cmd a l) (hr : Holds r.data o l) (hsize : size.toNat = l.length)
    (hfit : o + l.length ≤ bufSize) (hseq : e.rqSeq = seq) (hcmd : e.req.cmd = cmd)
    (hlevel : e.bridgingLevel = 0) :
    ∃ r' evs, ipmiLoop (fuel + 1) r [e] o o size = .ok (.got, [], r', evs) ∧ Holding a r' := by
  obtain ⟨h1, h2, h3, h4⟩ := readIpmiResponse_reply h hr
  have hlen := h.length
  have hkey : Entry.hasKey (readIpmiResponse r o).rqSeq (readIpmiResponse r o).cmd e = true := by
    simp only [Entry.hasKey, h1, h2, hseq, hcmd, beq_self_eq_true, Bool.and_self]
  have hlookup : reqLookupEntry [e] (readIpmiResponse r o).rqSeq (readIpmiResponse r o).cmd =
      some e := by
    rw [reqLookupEntry, List.find?_cons_of_pos hkey]
  have hremove : reqRemoveEntry [e] (readIpmiResponse r o).rqSeq (readIpmiResponse r o).cmd =
      [] := by
    rw [reqRemoveEntry, List.eraseP_cons_of_pos hkey]
  have hextra : (size.toNat - ((o + 7 : ℕ) - o : ℤ) - 1 : ℤ) = (a.data.length : ℕ) := by omega
  obtain ⟨r', hshift, hcc, hdlen, hdata⟩ := shiftData_reply rfl (by omega) h4
  refine ⟨r', [.removed e], ?_, hcc.trans h3, hdlen, hdata⟩
  unfold ipmiLoop
  simp only [hlookup, hlevel, ne_eq, not_true_eq_false, false_and, if_false, hremove,
    hextra, hshift]
  rfl

theorem ipmiLoop_envelope {seq cmd : UInt8} {a : Answer} {l inner : List UInt8}
    {o fuel : ℕ} {e : Entry}
    {size : UInt16} (h : Reply seq 0x34 { data := inner } l) (hinner : Reply seq cmd a inner)
    (hr : Holds r.data o l) (hsize : size.toNat = l.length) (hfit : o + l.length ≤ bufSize)
    (hseq : e.rqSeq = seq) (hcmd : e.req.cmd = 0x34) (hlevel : e.bridgingLevel = 1)
    (htarget : e.req.targetCmd = cmd) (hne : cmd ≠ 0x34) :
    ∃ r' evs, ipmiLoop (fuel + 2) r [e] o o size = .ok (.got, [], r', evs) ∧ Holding a r' := by
  obtain ⟨h1, h2, h3, h4⟩ := readIpmiResponse_reply h hr
  have hlen := h.length
  have hilen := hinner.length
  dsimp only at hlen h3 h4
  have hpeel : (peel e).rqSeq = seq ∧ (peel e).req.cmd = cmd ∧ (peel e).bridgingLevel = 0 := by
    simp only [peel, hlevel, Nat.sub_self, if_true, hseq, htarget, and_self]
  have hkey : Entry.hasKey (readIpmiResponse r o).rqSeq (readIpmiResponse r o).cmd e = true := by
    simp only [Entry.hasKey, h1, h2, hseq, hcmd, beq_self_eq_true, Bool.and_self]
  -- once its envelope is peeled off, the entry goes by the command of the request
  have hgone : ¬ Entry.hasKey (readIpmiResponse r o).rqSeq (readIpmiResponse r o).cmd (peel e) =
      true := by
    simp only [Entry.hasKey, h1, h2, hpeel.1, hpeel.2.1, Bool.and_eq_true, beq_iff_eq, not_and]
    exact fun _ => hne
  have hlookup : reqLookupEntry [e] (readIpmiResponse r o).rqSeq (readIpmiResponse r o).cmd =
      some e := by
    rw [reqLookupEntry, List.find?_cons_of_pos hkey]
  have hupdate : updateEntry [e] (peel e) = [peel e] := by
    simp only [updateEntry, List.map_cons, List.map_nil, peel, if_true]
  have hlookup' : reqLookupEntry [peel e] (readIpmiResponse r o).rqSeq (readIpmiResponse r o).cmd =
      none := by
    rw [reqLookupEntry, List.find?_cons_of_neg hgone, List.find?_nil]
  have hremove : reqRemoveEntry [peel e] (readIpmiResponse r o).rqSeq (readIpmiResponse r o).cmd =
      [peel e] := by
    rw [reqRemoveEntry, List.eraseP_cons_of_neg hgone, List.eraseP_nil]
  have hextra : (size.toNat - ((o + 7 : ℕ) - o : ℤ) - 1 : ℤ) = (inner.length : ℕ) := by omega
  have hbig : 8 < size := UInt16.lt_iff_toNat_lt.mpr (by rw [hsize]; change 8 < l.length; omega)
  have hpos : (0 : ℤ) < (inner.length : ℕ) := by omega
  obtain ⟨r1, hshift, -, -, hdata⟩ := shiftData_reply rfl (by omega) h4
  have hinnerSize : (UInt16.ofNat inner.length).toNat = inner.length := by
    have : bufSize = 1024 := rfl
    rw [UInt16.toNat_ofNat', Nat.mod_eq_of_lt (by omega)]
  obtain ⟨r', evs, hrun, hholding⟩ :=
    ipmiLoop_reply fuel hinner hdata hinnerSize (by omega) hpeel.1 hpeel.2.1
      hpeel.2.2
  refine ⟨r', [] ++ evs, ?_, hholding⟩
  unfold ipmiLoop
  simp only [hlookup, hlevel, h3, ne_eq, Nat.one_ne_zero, not_false_eq_true, true_and,
    if_true, hbig, not_true_eq_false, and_false, if_false, hupdate, hlookup', hremove, hextra,
    hshift, hpos, Int.toNat_natCast, hrun, bind, Except.bind, Option.toList, List.map_nil]
  rfl

/-- **The transport finds the answer** behind the envelopes. -/
theorem ipmiLoop_replies (addr : ℕ) {seq : UInt8} {a : Answer} {l : List UInt8} {o level : ℕ}
    {size : UInt16}
    (h : Replies seq req.cmd a level l) (hr : Holds r.data o l) (hsize : size.toNat = l.length)
    (hfit : o + l.length ≤ bufSize) (hne : level = 1 → req.cmd ≠ 0x34) :
    ∃ r' evs, ipmiLoop (rounds [⟨addr, entryRequest level req, seq, level⟩]) r
      [⟨addr, entryRequest level req, seq, level⟩] o o size = .ok (.got, [], r', evs) ∧
      Holding a r' := by
  cases h with
  | bare h => exact ipmiLoop_reply _ h hr hsize hfit rfl rfl rfl
  | enveloped h hinner => exact ipmiLoop_envelope h hinner hr hsize hfit rfl rfl rfl rfl (hne rfl)

end Ipmitool.Peer.Commands
