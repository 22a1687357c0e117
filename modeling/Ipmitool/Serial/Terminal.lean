import Ipmitool.Serial.Basic

/-! # Serial terminal mode

The records of `intf/serial_terminal.zig`: hexadecimal digits between brackets, ended by a carriage
return and a line feed. `decode` reads the text between the brackets, `readPacket` collects the
bytes of a line until there is a record.

`decode_hexText` and `readPacket_encode` are the two round trips. `framing_roundTrip` puts basic and
terminal mode together. -/

namespace Ipmitool.Serial.Terminal

open Ipmitool.Lib.Mealy Ipmitool.Serial.Basic

/-- `max_message` of terminal mode. -/
def maxRecord : ℕ := 256

/-- `[`, `]`, carriage return, line feed and space. -/
def openBracket : UInt8 := 0x5b
def closeBracket : UInt8 := 0x5d
def cr : UInt8 := 0x0d
def lf : UInt8 := 0x0a
def space : UInt8 := 0x20

/-- `digits`. -/
def digits : List UInt8 :=
  [0x30, 0x31, 0x32, 0x33, 0x34, 0x35, 0x36, 0x37, 0x38, 0x39, 0x61, 0x62, 0x63, 0x64, 0x65, 0x66]

/-- The two digits of a byte. -/
def hexByte (b : UInt8) : List UInt8 :=
  [digits.getD (b >>> 4).toNat 0, digits.getD (b &&& 0xf).toNat 0]

/-- The digits of `data`. -/
def hexText (data : List UInt8) : List UInt8 := data.flatMap hexByte

/-- `encode`. -/
def encode (data : List UInt8) : List UInt8 :=
  [openBracket] ++ hexText data ++ [closeBracket, cr, lf]

/-- The errors of the serial transports that reading a record can end in. -/
inductive SerialError where
  | timeout
  | invalidResponse
  deriving DecidableEq

/-- `hex`. -/
def hex (ch : UInt8) : Option UInt8 :=
  if 0x30 ≤ ch ∧ ch ≤ 0x39 then some (ch - 0x30)
  else if 0x61 ≤ ch ∧ ch ≤ 0x66 then some (ch - 0x61 + 10)
  else if 0x41 ≤ ch ∧ ch ≤ 0x46 then some (ch - 0x41 + 10)
  else none

/-- `std.ascii.isWhitespace`. -/
def isWhitespace (ch : UInt8) : Bool := ch = space ∨ (0x09 ≤ ch ∧ ch ≤ 0x0d)

/-- The loop of `decode`, with the bytes so far and the pending digit, for an output of `cap`
bytes. -/
def decodeLoop (cap : ℕ) : List UInt8 → List UInt8 → Option UInt8 → Except SerialError (List UInt8)
  | [], out, none => .ok out
  | [], _, some _ => .error .invalidResponse
  | ch :: text, out, high =>
    match hex ch with
    | some digit =>
      match high with
      | some h =>
        if out.length = cap then .error .invalidResponse
        else decodeLoop cap text (out ++ [h * 16 + digit]) none
      | none => decodeLoop cap text out (some digit)
    | none =>
      if isWhitespace ch then
        if high.isSome then .error .invalidResponse else decodeLoop cap text out high
      else .error .invalidResponse

/-- `"ERR "`. -/
def errMark : List UInt8 := [0x45, 0x52, 0x52, 0x20]

/-- `decode`. -/
def decode (cap : ℕ) (text : List UInt8) : Except SerialError (List UInt8) :=
  if errMark.isPrefixOf text then .error .timeout else decodeLoop cap text [] none

/-- `line[open_bracket + 1 .. len - 1]`, for the last opening bracket. -/
def inner (line : List UInt8) : Option (List UInt8) :=
  if openBracket ∈ line then some (line.dropLast.reverse.takeWhile (· ≠ openBracket)).reverse
    else none

/-- The size of the line buffer. -/
def lineSize : ℕ := maxRecord * 3

/-- `readPacket`, on the line so far and the bytes that will arrive: the result and the bytes that
are left. The wait for a byte that does not arrive is a timeout. -/
def readPacket (line : List UInt8) : List UInt8 → Except SerialError (List UInt8) × List UInt8
  | [] => (.error .timeout, [])
  | b :: rest =>
    if b = lf ∨ b = cr then
      if line.getLast? ≠ some closeBracket then
        if openBracket ∉ line then readPacket [] rest
        else if line.length < lineSize then readPacket (line ++ [space]) rest
        else (.error .invalidResponse, rest)
      else
        match inner line with
        | none => (.error .invalidResponse, rest)
        | some text => (decode maxRecord text, rest)
    else if line.length = lineSize then (.error .invalidResponse, rest)
    else readPacket (line ++ [b]) rest

/-! ### Digits -/

/-- A digit of a byte: the digit is read back, and it is none of the special characters. -/
theorem hex_digits : ∀ n < 16, hex (digits.getD n 0) = some (UInt8.ofNat n) ∧
    digits.getD n 0 ≠ openBracket ∧ digits.getD n 0 ≠ closeBracket ∧ digits.getD n 0 ≠ cr ∧
    digits.getD n 0 ≠ lf ∧ digits.getD n 0 ≠ 0x45 := by
  decide

theorem nibbles_lt (b : UInt8) : (b >>> 4).toNat < 16 ∧ (b &&& 0xf).toNat < 16 := by
  constructor
  · have := b.toNat_lt
    simp only [UInt8.toNat_shiftRight]
    have h4 : (4 : UInt8).toNat % 8 = 4 := by decide
    rw [h4, Nat.shiftRight_eq_div_pow]
    omega
  · rw [UInt8.toNat_and]
    have h15 : (0xf : UInt8).toNat = 2 ^ 4 - 1 := by decide
    rw [h15, Nat.and_two_pow_sub_one_eq_mod]
    omega

theorem nibbles_combine (b : UInt8) : (b >>> 4) * 16 + (b &&& 0xf) = b := by
  have h4 : (4 : UInt8).toNat % 8 = 4 := by decide
  have h15 : (0xf : UInt8).toNat = 2 ^ 4 - 1 := by decide
  have h16 : (16 : UInt8).toNat = 16 := by decide
  have hlt := b.toNat_lt
  apply UInt8.toNat_inj.mp
  rw [UInt8.toNat_add, UInt8.toNat_mul, UInt8.toNat_shiftRight, UInt8.toNat_and, h4, h15, h16,
    Nat.and_two_pow_sub_one_eq_mod, Nat.shiftRight_eq_div_pow]
  omega

/-! ### `decode` after `encode` -/

theorem decodeLoop_hexByte (cap : ℕ) (b : UInt8) (text out : List UInt8) (h : out.length < cap) :
    decodeLoop cap (hexByte b ++ text) out none = decodeLoop cap text (out ++ [b]) none := by
  obtain ⟨hhigh, hlow⟩ := nibbles_lt b
  have h1 := (hex_digits _ hhigh).1
  have h2 := (hex_digits _ hlow).1
  rw [UInt8.ofNat_toNat] at h1 h2
  have hroom : ¬ out.length = cap := by omega
  simp only [hexByte, List.cons_append, List.nil_append, decodeLoop, h1, h2, if_neg hroom,
    nibbles_combine]

theorem decodeLoop_hexText (cap : ℕ) (data out : List UInt8) (h : out.length + data.length ≤ cap) :
    decodeLoop cap (hexText data) out none = .ok (out ++ data) := by
  induction data generalizing out with
  | nil => simp [hexText, decodeLoop]
  | cons b data ih =>
    simp only [List.length_cons] at h
    rw [hexText, List.flatMap_cons, decodeLoop_hexByte cap b _ out (by omega)]
    have := ih (out ++ [b]) (by simp only [List.length_append, List.length_singleton]; omega)
    rw [hexText] at this
    rw [this, List.append_assoc, List.singleton_append]

theorem hexText_ne (data : List UInt8) : ∀ ch ∈ hexText data,
    ch ≠ openBracket ∧ ch ≠ closeBracket ∧ ch ≠ cr ∧ ch ≠ lf ∧ ch ≠ 0x45 := by
  intro ch hch
  obtain ⟨b, -, hb⟩ := List.mem_flatMap.mp hch
  obtain ⟨hhigh, hlow⟩ := nibbles_lt b
  rcases List.mem_cons.mp hb with rfl | hb
  · exact (hex_digits _ hhigh).2
  · rw [List.mem_singleton.mp hb]
    exact (hex_digits _ hlow).2

/-- **The digits of `data` are read back.** -/
theorem decode_hexText (cap : ℕ) (data : List UInt8) (h : data.length ≤ cap) :
    decode cap (hexText data) = .ok data := by
  have hmark : errMark.isPrefixOf (hexText data) = false := by
    rcases ht : hexText data with _ | ⟨ch, text⟩
    · rfl
    · have hne := (hexText_ne data ch (by rw [ht]; exact List.mem_cons_self)).2.2.2.2
      have hbeq : ((0x45 : UInt8) == ch) = false := by
        rw [beq_eq_false_iff_ne]
        exact fun he => hne he.symm
      simp [errMark, List.isPrefixOf, hbeq]
  rw [decode, hmark, if_neg (by decide), decodeLoop_hexText cap data [] (by simpa using h),
    List.nil_append]

/-- The text between the first character and the closing bracket. -/
def between (record : List UInt8) : List UInt8 := record.tail.takeWhile (· ≠ closeBracket)

theorem between_encode (data : List UInt8) : between (encode data) = hexText data := by
  have hall : ∀ ch ∈ hexText data, decide (ch ≠ closeBracket) = true := fun ch hch =>
    decide_eq_true (hexText_ne data ch hch).2.1
  unfold between encode
  rw [List.append_assoc, List.singleton_append, List.tail_cons, List.takeWhile_append_of_pos hall]
  simp [closeBracket]

/-! ### `readPacket` after `encode` -/

theorem length_hexText (data : List UInt8) : (hexText data).length = 2 * data.length := by
  induction data with
  | nil => rfl
  | cons b data ih =>
    simp only [hexText, List.flatMap_cons, List.length_append, List.length_cons] at ih ⊢
    rw [ih]
    simp only [hexByte, List.length_cons, List.length_nil]
    omega

theorem readPacket_collects : ∀ (bs line rest : List UInt8), (∀ b ∈ bs, b ≠ lf ∧ b ≠ cr) →
    line.length + bs.length ≤ lineSize → readPacket line (bs ++ rest) = readPacket (line ++ bs) rest
  | [], line, rest, _, _ => by simp
  | b :: bs, line, rest, hb, hlen => by
    have hend : ¬ (b = lf ∨ b = cr) := by
      have := hb b List.mem_cons_self
      tauto
    simp only [List.length_cons] at hlen
    have hroom : ¬ line.length = lineSize := by omega
    rw [List.cons_append, readPacket, if_neg hend, if_neg hroom,
      readPacket_collects bs _ rest (fun x hx => hb x (List.mem_cons_of_mem _ hx))
        (by simp only [List.length_append, List.length_singleton]; omega)]
    simp

/-- **A record is read back from the line**, and the line feed is left. -/
theorem readPacket_encode (data rest : List UInt8) (h : data.length ≤ maxRecord) :
    readPacket [] (encode data ++ rest) = (.ok data, lf :: rest) := by
  have hsplit : encode data ++ rest =
      ([openBracket] ++ hexText data ++ [closeBracket]) ++ cr :: lf :: rest := by
    simp [encode]
  have hplain : ∀ b ∈ [openBracket] ++ hexText data ++ [closeBracket], b ≠ lf ∧ b ≠ cr := by
    intro b hb
    rcases List.mem_append.mp hb with hb | hb
    · rcases List.mem_append.mp hb with hb | hb
      · rw [List.mem_singleton.mp hb]; decide
      · have := hexText_ne data b hb
        exact ⟨this.2.2.2.1, this.2.2.1⟩
    · rw [List.mem_singleton.mp hb]; decide
  have hsize : ([] : List UInt8).length + ([openBracket] ++ hexText data ++ [closeBracket]).length ≤
      lineSize := by
    simp only [List.length_append, List.length_singleton, List.length_nil, length_hexText]
    unfold maxRecord at h
    unfold lineSize maxRecord
    omega
  have hinner : inner ([openBracket] ++ hexText data ++ [closeBracket]) = some (hexText data) := by
    have hmem : openBracket ∈ [openBracket] ++ hexText data ++ [closeBracket] := by simp
    have hall : ∀ ch ∈ (hexText data).reverse, decide (ch ≠ openBracket) = true := fun ch hch =>
      decide_eq_true (hexText_ne data ch (List.mem_reverse.mp hch)).1
    rw [inner, if_pos hmem, List.dropLast_concat, List.reverse_append,
      List.takeWhile_append_of_pos hall]
    simp
  rw [hsplit, readPacket_collects _ _ _ hplain hsize, List.nil_append, readPacket]
  simp only [or_true, if_true, List.getLast?_append, List.getLast?_singleton, Option.some_or, ne_eq,
    not_true_eq_false, if_false, hinner]
  rw [decode_hexText maxRecord data h]

/-! ### Both modes -/

/-- **Serial framing loses nothing.** Basic mode: from any state of the receiver, the bytes of a
frame, with handshake bytes between its parts, give nothing until the last one and then the message,
and a stream of frames gives its messages in order. Terminal mode: the text between the brackets of
a record gives its data. -/
theorem framing_roundTrip :
    (∀ (p : Parser) (message : List UInt8), message.length ≤ maxMessage →
      Recovers p (frame message) message ∧
        ∀ bs, Shaken (tokens message) bs → Recovers p bs message) ∧
    (∀ (p : Parser) (ms : List (List UInt8)) (bs : List UInt8), Stream ms bs →
      (outputs feed p bs).filterMap id = ms) ∧
    (∀ data : List UInt8, data.length ≤ maxRecord →
      decode maxRecord (between (encode data)) = .ok data) := by
  refine ⟨fun p message hlen => ⟨?_, fun bs hbs => ?_⟩, fun p ms bs h => ?_, fun data hlen => ?_⟩
  · exact (outputs_shaken p hlen (shaken_flatten _)).2
  · exact (outputs_shaken p hlen hbs).2
  · exact outputs_stream h p
  · rw [between_encode]
    exact decode_hexText maxRecord data hlen

/-- The frame of one byte that needs an escape, from the middle of another frame; two frames with
bytes between them; a record of two bytes. -/
theorem framing_roundTrip_escape :
    Recovers { msg := [1, 2], started := true, escape := true } [0xa0, 0xa6, 0xaa, 0xb0, 0xa5]
      [0xa0] ∧
      (outputs feed {} (frame [1] ++ [0xa5, 7] ++ (frame [2] ++ [] ++ []))).filterMap id =
        [[1], [2]] ∧
      decode maxRecord (between (encode [0x18, 0xa5])) = .ok [0x18, 0xa5] := by
  refine ⟨(framing_roundTrip.1 _ [0xa0] (by decide)).2 _ ?_, framing_roundTrip.2.1 _ _ _ ?_,
    framing_roundTrip.2.2 _ (by decide)⟩
  · exact .part (t := [0xa0]) (.handshake (.part (t := token 0xa0) (.part (t := [0xa5]) .nil)))
  · exact .frame (by decide) (shaken_flatten _) (by decide)
      (.frame (by decide) (shaken_flatten _) (by decide) .nil)

end Ipmitool.Serial.Terminal
