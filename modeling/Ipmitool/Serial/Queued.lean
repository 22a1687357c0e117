import Ipmitool.Serial.Exchange

/-! # Queued replies

`queued` of the two serial modes asks the system interface for queued messages until the reply to a
bridged request is among them. The rule for that reply is written in both modes, and they differ in
the LUN of the request. The modes also differ in the size of their buffers.

* `queued_polled`: what the replies to Get Message come to is the same computation in both modes
  (`verdict`), but for the number that is expected and the replies that are received at all.
* `queued_agree_iff`: on replies of at most `L` bytes the modes agree and accept the reply exactly
  if no reply can be long enough to be taken, or the inner request has LUN 0 and basic mode has room
  for `L` bytes. -/

namespace Ipmitool.Serial.Queued

open Ipmitool.Lib.Bytes Ipmitool.Lib.Mealy Ipmitool.Core.Types Ipmitool.Intf.Registry
open Ipmitool.Lanplus.Build Ipmitool.Lanplus.Wire Ipmitool.Serial.Basic Ipmitool.Serial.Terminal
open Ipmitool.Serial.Build Ipmitool.Serial.Exchange

/-- What a message has besides the completion code and the data. -/
def around : Mode → ℕ
  | .basic => 7
  | .terminal => 3

/-- A reply to Get Message that is received: it has a completion code, and the buffer of the mode
holds its message. -/
def Heard (mode : Mode) (body : List UInt8) : Prop :=
  body ≠ [] ∧ body.length + around mode ≤ (transport mode).cap

instance (mode : Mode) (body : List UInt8) : Decidable (Heard mode body) := by
  unfold Heard
  infer_instance

/-- What the line brings in answer to Get Message, one reply after each request. -/
def polled (mode : Mode) : Fin 64 → List (List UInt8) → List (Option (List UInt8))
  | _, [] => []
  | counter, body :: bodies =>
    some ((transport mode).encode
      (answerTo mode (getMessageContext mode (sequenceByte (nextCounter counter))) body)) ::
      polled mode (nextCounter counter) bodies

/-- A line on which Get Message is answered by `bodies`, with time for `looks` requests. -/
structure Polled (mode : Mode) (bodies : List (List UInt8)) (looks : ℕ) (l : Line) : Prop where
  answers : l.answers = polled mode l.counter bodies
  looks : l.looks.headD 0 = looks

/-- What `queued` makes of the replies, if the reply it waits for has this number. -/
def verdict (mode : Mode) (ctx : Context) (expected : UInt8) :
    ℕ → List (List UInt8) → Except Failure (Option (List UInt8))
  | 0, _ => .ok none
  | _ + 1, [] => .ok none
  | n + 1, body :: bodies =>
    -- nothing else comes, and the wait times out
    if ¬ Heard mode body then .ok none
    else if body.getD 0 0 = 0x80 then verdict mode ctx expected n bodies
    else if body.getD 0 0 ≠ 0 then .ok none
    else if body.length < 9 then .error .invalidResponse
    else if ¬ (body.getD 2 0 = answerNetfn ctx ∧ body.getD 4 0 = ctx.sa ∧ body.getD 5 0 = expected ∧
        body.getD 6 0 = ctx.cmd) then verdict mode ctx expected n bodies
    else .ok (some (body.drop 7).dropLast)

theorem getMessageContext_seq (mode : Mode) (counter : Fin 64) :
    (getMessageContext mode (sequenceByte counter)).seq &&& ~~~3 =
      (getMessageContext mode (sequenceByte counter)).seq := by
  cases mode <;> exact sequenceByte_high counter

theorem length_answerTo_mode (mode : Mode) (ctx : Context) (body : List UInt8) :
    (answerTo mode ctx body).length = body.length + around mode := by
  cases mode with
  | basic => exact length_answerTo ctx body
  | terminal =>
    simp only [answerTo, around, List.length_append, List.length_cons, List.length_nil]
    omega

/-! ### Replies that are not received -/

theorem waitBasic_quiet (ctx : Context) : ∀ {bs : List UInt8} (p : Parser),
    outputs feed p bs = List.replicate bs.length none → (waitBasic ctx p bs).1 = .error .timeout
  | [], _, _ => rfl
  | b :: bs, p, h => by
    have hsplit : (feed p b).2 :: outputs feed (feed p b).1 bs =
      none :: List.replicate bs.length none := h
    obtain ⟨hnone, hrest⟩ := List.cons.inj hsplit
    rcases hfeed : feed p b with ⟨q, o⟩
    rw [hfeed] at hnone hrest
    obtain rfl : o = none := hnone
    rw [waitBasic, hfeed]
    exact waitBasic_quiet ctx q hrest

theorem match_empty (mode : Mode) (ctx : Context) :
    «match» mode (answerTo mode ctx []) ctx = none := by
  have hlen := length_answerTo_mode mode ctx []
  cases mode with
  | basic => rw [«match», if_pos (.inl (by rw [hlen]; decide))]
  | terminal => rw [«match», if_pos (.inl (by rw [hlen]; decide))]

theorem waitTerminal_empty (ctx : Context) :
    (waitTerminal ctx ((encode (answerTo .terminal ctx [])).length + 1)
      (encode (answerTo .terminal ctx []))).1 = .error .timeout := by
  have hroom : (answerTo .terminal ctx []).length ≤ maxRecord := by
    rw [length_answerTo_mode]
    decide
  have hwait :=
    waitTerminal_record ctx hroom (.inl rfl) [] (encode (answerTo .terminal ctx [])).length
  rw [List.nil_append, List.append_nil, match_empty, Option.elim_none] at hwait
  rw [hwait]
  -- only the line feed of the record is left
  rcases (encode (answerTo .terminal ctx [])).length with _ | fuel
  · rfl
  · rfl

/-- **A reply that is not received**: the wait for it times out. -/
theorem wait_unheard (mode : Mode) (ctx : Context) (p : Parser) {body : List UInt8}
    (h : ¬ Heard mode body) (hb : mode = .terminal → body.length + around mode ≤ maxRecord) :
    ((transport mode).wait ctx p ((transport mode).encode (answerTo mode ctx body))).1 =
      .error .timeout := by
  cases mode with
  | basic =>
    show (waitBasic ctx p (frame (answerTo .basic ctx body))).1 = _
    by_cases hempty : body = []
    · subst hempty
      have hroom : (answerTo .basic ctx []).length ≤ maxMessage := by
        rw [length_answerTo_mode]
        decide
      have hframe := (outputs_shaken p hroom (shaken_flatten (tokens (answerTo .basic ctx [])))).2
      have hwait := waitBasic_outputs ctx [] p hframe
      rw [List.append_nil, match_empty, Option.elim_none] at hwait
      rw [frame, hwait]
      rfl
    · have hlong : maxMessage < (answerTo .basic ctx body).length := by
        rw [length_answerTo_mode]
        by_contra hfits
        exact h ⟨hempty, Nat.le_of_not_lt hfits⟩
      exact waitBasic_quiet ctx p (outputs_overlong p hlong)
  | terminal =>
    obtain rfl : body = [] := by
      by_contra hne
      exact h ⟨hne, hb rfl⟩
    exact waitTerminal_empty ctx

/-- **A reply that is received**: the wait for it ends with its body. -/
theorem wait_heard (mode : Mode) {ctx : Context} (hseq : ctx.seq &&& ~~~3 = ctx.seq) (p : Parser)
    {body : List UInt8} (h : Heard mode body) :
    ∃ q, (transport mode).wait ctx p ((transport mode).encode (answerTo mode ctx body)) =
      (.ok body, q, gap mode) := by
  have hnone : Others mode ctx [] := fun m hm => absurd hm List.not_mem_nil
  have hfit : (answerTo mode ctx body).length ≤ (transport mode).cap := by
    rw [length_answerTo_mode]
    exact h.2
  obtain ⟨q, hwait⟩ :=
    waits_for mode hnone hfit (match_answerTo mode h.1 fun _ => hseq) p (.inl rfl) []
  rw [List.append_nil, List.append_nil] at hwait
  exact ⟨q, hwait⟩

/-! ### The loop -/

/-- **Both modes make the same of the replies**, but for the number they expect and the replies they
receive. -/
theorem queuedLoop_polled (mode : Mode) (ctx : Context) :
    ∀ (n : ℕ) {bodies : List (List UInt8)} {l : Line},
    (∀ body ∈ bodies, mode = .terminal → body.length + around mode ≤ maxRecord) →
      l.answers = polled mode l.counter bodies →
        ((transport mode).queuedLoop ctx n l).1 =
          verdict mode ctx ((transport mode).queuedSeq ctx) n bodies
  | 0, _, _, _, _ => by rfl
  | n + 1, [], l, _, hl => by
    have hsend : ∀ data, (transport mode).send data l.flush = (true, { l with
        counter := nextCounter l.counter, pending := [], answers := [],
        sent := l.sent ++ [(transport mode).encode data] }) := by
      intro data
      have hnone : l.answers = [] := hl
      simp only [Transport.send, Line.flush, hnone]
    have hwait : ∀ c p, (transport mode).wait c p [] = (.error .timeout, p, []) := by
      intro c p
      cases mode <;> rfl
    rw [Transport.queuedLoop]
    simp only [hsend, Transport.waitResponse, hwait]
    rfl
  | n + 1, body :: bodies, l, hb, hl => by
    have hrest : ∀ b ∈ bodies, mode = .terminal → b.length + around mode ≤ maxRecord :=
      fun b hmem => hb b (List.mem_cons_of_mem _ hmem)
    have hsend := send_answered (transport mode) (l := l) hl
    have hseq := getMessageContext_seq mode (nextCounter l.counter)
    rw [Transport.queuedLoop, verdict]
    by_cases hheard : Heard mode body
    · obtain ⟨p, hwait⟩ := wait_heard mode hseq l.parser hheard
      have hnonempty : ¬ body.length < 1 := by
        have := List.length_pos_iff.mpr hheard.1
        omega
      have hfits : ¬ (transport mode).cap < (body.drop 7).dropLast.length := by
        have hlen := hheard.2
        simp only [List.length_dropLast, List.length_drop]
        omega
      have hagain : ∀ l' : Line, l'.counter = nextCounter l.counter →
          l'.answers = polled mode (nextCounter l.counter) bodies →
            ((transport mode).queuedLoop ctx n l').1 =
              verdict mode ctx ((transport mode).queuedSeq ctx) n bodies := by
        intro l' hcounter hanswers
        exact queuedLoop_polled mode ctx n hrest (by rw [hanswers, hcounter])
      simp only [transport_mode, hsend, Transport.waitResponse, hwait, if_neg hnonempty,
        if_neg hfits, Transport.Expects, if_neg (not_not.mpr hheard)]
      split_ifs with hnone hcc hshort hexpect
      · exact hagain _ rfl rfl
      · rfl
      · rfl
      · rfl
      · exact hagain _ rfl rfl
    · have hwait :=
        wait_unheard mode (getMessageContext mode (sequenceByte (nextCounter l.counter))) l.parser
          hheard (hb body List.mem_cons_self)
      rcases hw : (transport mode).wait (getMessageContext mode
        (sequenceByte (nextCounter l.counter))) l.parser
        ((transport mode).encode
          (answerTo mode (getMessageContext mode (sequenceByte (nextCounter l.counter)))
            body)) with ⟨r, p, left⟩
      rw [hw] at hwait
      obtain rfl : r = .error .timeout := hwait
      rw [if_pos hheard]
      simp only [transport_mode, hsend, Transport.waitResponse, hw]

theorem queued_polled (mode : Mode) (ctx : Context) {n : ℕ} {bodies : List (List UInt8)} {l : Line}
    (hb : ∀ body ∈ bodies, mode = .terminal → body.length + around mode ≤ maxRecord)
    (hl : Polled mode bodies n l) :
    ((transport mode).queued ctx l).1 =
      verdict mode ctx ((transport mode).queuedSeq ctx) n bodies := by
  rw [Transport.queued, hl.looks]
  exact queuedLoop_polled mode ctx n hb hl.answers

/-! ### The reply to the inner request -/

/-- Get Message with the reply to the request of `ctx`: a channel, and the reply without its first
byte. -/
def genuine (ctx : Context) (channel : UInt8) (answer : List UInt8) : List UInt8 :=
  0 :: channel :: (answerTo .basic ctx answer).tail

theorem length_genuine (ctx : Context) (channel cc : UInt8) (data : List UInt8) :
    (genuine ctx channel (cc :: data)).length = data.length + 9 := by
  have hanswer := length_answerTo ctx (cc :: data)
  simp only [genuine, List.length_cons, List.length_tail] at hanswer ⊢
  omega

/-- The modes return a message for the same replies of at most `L` bytes. -/
def Agree (L : ℕ) (ctx : Context) : Prop :=
  ∀ (bodies : List (List UInt8)) (n : ℕ) (l l' : Line), (∀ body ∈ bodies, body.length ≤ L) →
    Polled .terminal bodies n l → Polled .basic bodies n l' →
      ((∃ m, (terminal.queued ctx l).1 = .ok (some m)) ↔
        ∃ m, (basic.queued ctx l').1 = .ok (some m))

/-- Both modes return the reply to the request of `ctx`, if it is the first that is queued and no
reply has more than `L` bytes. -/
def Accepts (L : ℕ) (ctx : Context) : Prop :=
  ∀ (mode : Mode) (channel cc : UInt8) (data : List UInt8) (more : List (List UInt8)) (n :
    ℕ) (l : Line),
    (∀ body ∈ genuine ctx channel (cc :: data) :: more, body.length ≤ L) →
      Polled mode (genuine ctx channel (cc :: data) :: more) (n + 1) l →
        ((transport mode).queued ctx l).1 = .ok (some (cc :: data))

/-- The longest reply whose message basic mode has room for. -/
def longest : ℕ := maxMessage - around .basic

theorem heard_iff (mode : Mode) {body : List UInt8} (h : body.length ≤ longest) :
    Heard mode body ↔ body ≠ [] := by
  refine ⟨fun hheard => hheard.1, fun hne => ⟨hne, ?_⟩⟩
  cases mode with
  | basic =>
    have hlen : body.length ≤ 40 := h
    show body.length + 7 ≤ 47
    omega
  | terminal =>
    have hlen : body.length ≤ 40 := h
    show body.length + 3 ≤ 256
    omega

theorem carried {mode : Mode} {body : List UInt8} (h : body.length ≤ longest) :
    mode = .terminal → body.length + around mode ≤ maxRecord := by
  rintro rfl
  have hlen : body.length ≤ 40 := h
  show body.length + 3 ≤ 256
  omega

theorem verdict_modes (ctx : Context) (expected : UInt8) : ∀ (n : ℕ) {bodies : List (List UInt8)},
    (∀ body ∈ bodies, body.length ≤ longest) →
      verdict .terminal ctx expected n bodies = verdict .basic ctx expected n bodies
  | 0, _, _ => rfl
  | _ + 1, [], _ => rfl
  | n + 1, body :: bodies, h => by
    have hbody := h body List.mem_cons_self
    have hsame : Heard .terminal body ↔ Heard .basic body := by
      rw [heard_iff .terminal hbody, heard_iff .basic hbody]
    rw [verdict, verdict, verdict_modes ctx expected n fun b hmem =>
      h b (List.mem_cons_of_mem _ hmem)]
    simp only [hsame]

theorem verdict_short (mode : Mode) (ctx : Context) (expected : UInt8) (m : List UInt8) :
    ∀ (n : ℕ) {bodies : List (List UInt8)}, (∀ body ∈ bodies, body.length < 9) →
      verdict mode ctx expected n bodies ≠ .ok (some m)
  | 0, _, _ => by simp [verdict]
  | _ + 1, [], _ => by simp [verdict]
  | n + 1, body :: bodies, h => by
    have hrest := verdict_short mode ctx expected m n fun b hmem =>
      h b (List.mem_cons_of_mem body hmem)
    have hshort := h body List.mem_cons_self
    by_cases hheard : Heard mode body
    · rw [verdict, if_neg (not_not.mpr hheard), if_pos hshort]
      split_ifs with hempty hfails
      · exact hrest
      · simp
      · simp
    · rw [verdict, if_pos hheard]
      simp

/-- What `queued` makes of the reply depends only on the number it expects, if it is received. -/
theorem verdict_genuine {mode : Mode} {ctx : Context} {channel cc : UInt8} {data : List UInt8}
    (h : Heard mode (genuine ctx channel (cc :: data))) (expected : UInt8)
    (more : List (List UInt8)) (n : ℕ) :
    verdict mode ctx expected (n + 1) (genuine ctx channel (cc :: data) :: more) =
      if answerSeq ctx = expected then .ok (some (cc :: data))
        else verdict mode ctx expected n more := by
  have hdrop : ((genuine ctx channel (cc :: data)).drop 7).dropLast = cc :: data := by
    have htail : (genuine ctx channel (cc :: data)).drop 7 =
        (answerTo .basic ctx (cc :: data)).drop 6 := rfl
    rw [htail, drop_answerTo]
  have hlen : ¬ (genuine ctx channel (cc :: data)).length < 9 := by
    rw [length_genuine]
    omega
  have hfirst : (genuine ctx channel (cc :: data)).getD 0 0 = 0 := rfl
  rw [verdict, hfirst, if_neg (not_not.mpr h), if_neg (by decide), if_neg (not_not.mpr rfl),
    if_neg hlen, hdrop]
  by_cases hseq : answerSeq ctx = expected
  · rw [if_pos hseq, if_neg (not_not.mpr ⟨rfl, rfl, hseq, rfl⟩)]
  · rw [if_neg hseq, if_pos fun h => hseq h.2.2.1]

theorem terminal_number_iff (ctx : Context) :
    answerSeq ctx = terminal.queuedSeq ctx ↔ ctx.netfn &&& 3 = 0 := by
  have hmask : ∀ s n : UInt8, ((s &&& ~~~3) ||| (n &&& 3)) &&& 3 = n &&& 3 := by
    intro s n
    have hor : ∀ a b c : UInt8, (a ||| b) &&& c = (a &&& c) ||| (b &&& c) := fun a b c =>
      UInt8.toBitVec_inj.mp BitVec.and_or_distrib_right
    rw [hor, UInt8.and_assoc, UInt8.and_assoc]
    have h0 : ~~~3 &&& (3 : UInt8) = 0 := by decide
    rw [h0, UInt8.and_zero, UInt8.zero_or, UInt8.and_self]
  show (ctx.seq &&& ~~~3) ||| (ctx.netfn &&& 3) = ctx.seq &&& ~~~3 ↔ _
  constructor
  · intro h
    rw [← hmask ctx.seq ctx.netfn, h, UInt8.and_assoc]
    have h0 : ~~~3 &&& (3 : UInt8) = 0 := by decide
    rw [h0, UInt8.and_zero]
  · intro h
    rw [h, UInt8.or_zero]

/-- What the reply to the inner request is recognised by. -/
def innerRequest (intf : Intf) (req : Request) (counter : Fin 64) : Context :=
  secondContext intf req true (sequenceByte counter) (getBridgingLevel intf)

theorem innerRequest_lun_iff (intf : Intf) (req : Request) (counter : Fin 64)
    (h : getBridgingLevel intf ≠ 0) :
    (innerRequest intf req counter).netfn &&& 3 = 0 ↔ getBridgingLevel intf = 2 ∨ req.lun = 0 := by
  have hle := getBridgingLevel_le intf
  obtain hdepth | hdepth : getBridgingLevel intf = 1 ∨ getBridgingLevel intf = 2 := by omega
  · have hnetfn : (innerRequest intf req counter).netfn = req.netfnLun := by
      rw [innerRequest, hdepth]
      rfl
    have hlun : (req.netfnLun &&& 3).toNat = req.lun.val := by
      rw [UInt8.toNat_and, ← netfnLun_mod req]
      exact Nat.and_two_pow_sub_one_eq_mod _ 2
    rw [hnetfn, hdepth]
    constructor
    · intro hzero
      rw [hzero] at hlun
      exact .inr (Fin.ext hlun.symm)
    · rintro (hbad | hzero)
      · exact absurd hbad (by decide)
      · rw [hzero] at hlun
        exact UInt8.toNat_inj.mp hlun
  · have hnetfn : (innerRequest intf req counter).netfn = 0x18 := by
      rw [innerRequest, hdepth]
      rfl
    rw [hnetfn, hdepth]
    exact ⟨fun _ => .inl rfl, fun _ => by decide⟩

/-- A line on which Get Message is answered by `bodies`. -/
def polledLine (mode : Mode) (bodies : List (List UInt8)) (n : ℕ) : Line where
  counter := firstCounter
  answers := polled mode firstCounter bodies
  looks := [n]

theorem not_accepts {L : ℕ} (hL : 9 ≤ L) {ctx : Context}
    (h : ¬ answerSeq ctx = terminal.queuedSeq ctx) :
    ¬ Accepts L ctx := by
  intro haccepts
  have hshort : ∀ body ∈ [genuine ctx 0 [0]], body.length ≤ 9 := by
    intro body hmem
    obtain rfl := List.mem_singleton.mp hmem
    exact Nat.le_of_eq (length_genuine ctx 0 0 [])
  have hroom : ∀ body ∈ [genuine ctx 0 [0]], body.length ≤ longest := fun body hmem =>
    Nat.le_trans (hshort body hmem) (by decide)
  have hheard : Heard .terminal (genuine ctx 0 [0]) :=
    (heard_iff .terminal (hroom _ (List.mem_singleton_self _))).mpr (List.cons_ne_nil _ _)
  have hline : Polled .terminal [genuine ctx 0 [0]] 1
      (polledLine .terminal [genuine ctx 0 [0]] 1) :=
    ⟨rfl, rfl⟩
  have hreturned :=
    haccepts .terminal 0 0 [] [] 0 _ (fun body hmem => Nat.le_trans (hshort body hmem) hL)
      hline
  rw [queued_polled .terminal _ (fun body hmem => carried (hroom body hmem)) hline,
    verdict_genuine hheard, show transport .terminal = terminal from rfl, if_neg h] at hreturned
  simp [verdict] at hreturned

theorem not_accepts_long {L : ℕ} (hL : longest < L) (ctx : Context) : ¬ Accepts L ctx := by
  intro haccepts
  have hlen : ∀ body ∈ [genuine ctx 0 (0 :: List.replicate 32 0)], body.length = longest + 1 := by
    intro body hmem
    obtain rfl := List.mem_singleton.mp hmem
    rw [length_genuine, List.length_replicate]
    rfl
  have hunheard : ¬ Heard .basic (genuine ctx 0 (0 :: List.replicate 32 0)) := by
    intro hheard
    have hfits := hheard.2
    rw [hlen _ (List.mem_singleton_self _)] at hfits
    exact absurd hfits (by decide)
  have hline : Polled .basic [genuine ctx 0 (0 :: List.replicate 32 0)] 1
      (polledLine .basic [genuine ctx 0 (0 :: List.replicate 32 0)] 1) := ⟨rfl, rfl⟩
  have hreturned := haccepts .basic 0 0 (List.replicate 32 0) [] 0 _
    (fun body hmem => by rw [hlen body hmem]; exact hL) hline
  rw [queued_polled .basic _ (fun _ _ hmode => absurd hmode (by decide)) hline, verdict,
    if_pos hunheard] at hreturned
  simp at hreturned

/-- **The two modes accept the same queued replies of at most `L` bytes**, and both the genuine one,
exactly if no reply is long enough to be taken, or basic mode has room for `L` bytes and the request
that is queued has LUN 0: a Send Message to a transit controller, or a request to LUN 0. -/
theorem queued_agree_iff (L : ℕ) (intf : Intf) (req : Request) (counter : Fin 64)
    (h : getBridgingLevel intf ≠ 0) :
    Agree L (innerRequest intf req counter) ∧ Accepts L (innerRequest intf req counter) ↔
      L < 9 ∨ (L ≤ 40 ∧ (getBridgingLevel intf = 2 ∨ req.lun = 0)) := by
  rw [← innerRequest_lun_iff intf req counter h, ← terminal_number_iff]
  constructor
  · rintro ⟨-, haccepts⟩
    by_contra hnot
    have hnine : 9 ≤ L := Nat.le_of_not_lt fun hshort => hnot (.inl hshort)
    by_cases hroom : L ≤ 40
    · exact not_accepts hnine (fun hnumber => hnot (.inr ⟨hroom, hnumber⟩)) haccepts
    · exact not_accepts_long (Nat.lt_of_not_le hroom) _ haccepts
  · intro hcondition
    have hroom : L ≤ longest := by
      have hforty : longest = 40 := rfl
      omega
    have hmodes : ∀ {bodies : List (List UInt8)}, (∀ body ∈ bodies, body.length ≤ L) →
        ∀ body ∈ bodies, body.length ≤ longest :=
          fun hb body hmem => Nat.le_trans (hb body hmem) hroom
    constructor
    · intro bodies n l l' hb hl hl'
      have hterminal := queued_polled .terminal (innerRequest intf req counter)
        (fun body hmem => carried (hmodes hb body hmem)) hl
      have hbasic := queued_polled .basic (innerRequest intf req counter)
        (fun body hmem => carried (hmodes hb body hmem)) hl'
      rw [show transport .terminal = terminal from rfl] at hterminal
      rw [show transport .basic = basic from rfl] at hbasic
      rw [hterminal, hbasic]
      rcases hcondition with hshort | ⟨-, hnumber⟩
      · have hnine : ∀ body ∈ bodies, body.length < 9 := fun body hmem =>
          Nat.lt_of_le_of_lt (hb body hmem) hshort
        constructor
        · rintro ⟨m, hm⟩
          exact absurd hm (verdict_short .terminal _ _ m n hnine)
        · rintro ⟨m, hm⟩
          exact absurd hm (verdict_short .basic _ _ m n hnine)
      · have hsame : basic.queuedSeq (innerRequest intf req counter) =
            terminal.queuedSeq (innerRequest intf req counter) := hnumber
        rw [verdict_modes _ _ n (hmodes hb), hsame]
    · intro mode channel cc data more n l hb hl
      have hfirst := hb _ List.mem_cons_self
      rw [length_genuine] at hfirst
      rcases hcondition with hshort | ⟨-, hnumber⟩
      · omega
      · have hexpected : answerSeq (innerRequest intf req counter) =
            (transport mode).queuedSeq (innerRequest intf req counter) := by
          cases mode with
          | basic => rfl
          | terminal => exact hnumber
        have hheard : Heard mode (genuine (innerRequest intf req counter) channel (cc :: data)) :=
          (heard_iff mode (hmodes hb _ List.mem_cons_self)).mpr (List.cons_ne_nil _ _)
        rw [queued_polled mode _ (fun body hmem => carried (hmodes hb body hmem)) hl,
          verdict_genuine hheard, if_pos hexpected]

/-- A request to LUN 0 behind one controller, on replies that basic mode has room for. -/
theorem queued_agree_iff_lun :
    Agree 40 (innerRequest { myAddr := 0x20, targetAddr := 0x72 } getDeviceId firstCounter) ∧
      Accepts 40 (innerRequest { myAddr := 0x20, targetAddr := 0x72 } getDeviceId firstCounter) :=
  (queued_agree_iff 40 { myAddr := 0x20, targetAddr := 0x72 } getDeviceId firstCounter
    (by decide)).mpr
    (.inr ⟨by decide, .inr rfl⟩)

/-- Terminal mode drops the reply to a request to LUN 1. -/
theorem queued_reply_lost : ¬ ∀ (L : ℕ) (intf : Intf) (req : Request) (counter : Fin 64),
    getBridgingLevel intf ≠ 0 →
      Agree L (innerRequest intf req counter) ∧ Accepts L (innerRequest intf req counter) := by
  intro hall
  have haccepts := (hall 9 { myAddr := 0x20, targetAddr := 0x72 }
    { netfn := 6, lun := 1, cmd := 1, data := [] } firstCounter (by decide)).2
  exact not_accepts (Nat.le_refl 9) (by decide) haccepts

end Ipmitool.Serial.Queued
