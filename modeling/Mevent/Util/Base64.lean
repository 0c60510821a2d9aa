import Mevent.Library.BitGroups
import Mevent.Request.Lines
import Mevent.WebSocket.Upgrade

/-!
# Base64

`Base64Decode`, and what both functions do with the bits of their input.
-/

namespace Mevent

open Library

/-- `IsBase64`, with `isalnum` of the C locale. -/
def isBase64 (c : UInt8) : Bool :=
  48 ≤ c && c ≤ 57 || 65 ≤ c && c ≤ 90 || 97 ≤ c && c ≤ 122 || c == 43 || c == 47

/-- `base64_chars.find`, as a `char`: `npos` becomes 255. -/
def base64Find (c : UInt8) : UInt8 :=
  match base64Chars.idxOf? c with
  | some index => UInt8.ofNat index
  | none => 255

/-- `char_array_3` for what `find` has returned for `char_array_4`. -/
def base64Triple (a b c d : UInt8) : Bytes :=
  [(a <<< 2) + ((b &&& 0x30) >>> 4), ((b &&& 0xf) <<< 4) + ((c &&& 0x3c) >>> 2),
    ((c &&& 0x3) <<< 6) + d]

/-- Behind the loop of `Base64Decode`: the bytes of the characters that are left in
`char_array_4`, which is filled with zeros. -/
def base64Tail : Bytes → Bytes
  | [a] => (base64Triple (base64Find a) (base64Find 0) (base64Find 0) (base64Find 0)).take 0
  | [a, b] => (base64Triple (base64Find a) (base64Find b) (base64Find 0) (base64Find 0)).take 1
  | [a, b, c] =>
      (base64Triple (base64Find a) (base64Find b) (base64Find c) (base64Find 0)).take 2
  | _ => []

/-- The loop of `Base64Decode`; `quad` is `char_array_4[0 .. i)`. -/
def base64DecodeLoop : Bytes → Bytes → Bytes
  | quad, [] => base64Tail quad
  | quad, c :: rest =>
      if c ≠ 61 ∧ isBase64 c = true then
        match quad with
        | [x, y, z] =>
            base64Triple (base64Find x) (base64Find y) (base64Find z) (base64Find c) ++
              base64DecodeLoop [] rest
        | _ => base64DecodeLoop (quad ++ [c]) rest
      else
        base64Tail quad

/-- `Base64Decode`. -/
def base64Decode (encodedString : Bytes) : Bytes := base64DecodeLoop [] encodedString

example : base64Decode (ascii ['b', 'W', 'V', '2', 'Z', 'Q', '=', '=']) =
    ascii ['m', 'e', 'v', 'e'] := by decide

/-- The place of a character in `base64_chars`. -/
def base64Value (c : UInt8) : Nat := (base64Find c).toNat

/-- The character at a place of `base64_chars`. -/
def base64Digit (value : Nat) : UInt8 := base64Char (UInt8.ofNat value)

/-- The characters of the alphabet that a string begins with. -/
def base64Digits (text : Bytes) : Bytes := text.takeWhile isBase64

/-- How many `=` stand behind the characters for so many bytes. -/
def base64Pad (length : Nat) : Nat := (3 - length % 3) % 3

def octetStream (octets : Bytes) : List Bool := stream 8 (octets.map UInt8.toNat)

def digitStream (digits : Bytes) : List Bool := stream 6 (digits.map base64Value)

section Alphabet

theorem base64Chars_eq : base64Chars =
    (List.range' 65 26 ++ List.range' 97 26 ++ List.range' 48 10 ++ [43, 47]).map UInt8.ofNat := by
  decide +kernel

theorem base64Value_spec {c : UInt8} (digit : isBase64 c = true) :
    base64Value c < 64 ∧ base64Digit (base64Value c) = c := by
  simp only [base64Value, base64Find, base64Digit, base64Char, base64Chars_eq]
  revert digit
  revert c
  apply Request.forall_byte
  decide +kernel

theorem base64Digit_spec {value : Nat} (small : value < 64) :
    isBase64 (base64Digit value) = true ∧ base64Value (base64Digit value) = value := by
  have all : ∀ index : Fin 64, isBase64 (base64Digit index) = true ∧
      base64Value (base64Digit index) = index := by
    simp only [base64Value, base64Find, base64Digit, base64Char, base64Chars_eq]
    decide +kernel
  exact all ⟨value, small⟩

theorem base64Value_lt {c : UInt8} (digit : isBase64 c = true) : base64Value c < 64 :=
  (base64Value_spec digit).1

theorem base64Digit_value {c : UInt8} (digit : isBase64 c = true) :
    base64Digit (base64Value c) = c :=
  (base64Value_spec digit).2

theorem isBase64_digit {value : Nat} (small : value < 64) :
    isBase64 (base64Digit value) = true :=
  (base64Digit_spec small).1

theorem base64Value_digit {value : Nat} (small : value < 64) :
    base64Value (base64Digit value) = value :=
  (base64Digit_spec small).2

/-- `=` is not a character of the alphabet. -/
theorem digit_iff (c : UInt8) : c ≠ 61 ∧ isBase64 c = true ↔ isBase64 c = true := by
  refine ⟨And.right, fun digit => ⟨fun same => ?_, digit⟩⟩
  rw [same] at digit
  cases digit

end Alphabet

section Quads

def sextets (a b c : UInt8) : List Nat :=
  [a.toNat / 4, a.toNat % 4 * 16 + b.toNat / 16, b.toNat % 16 * 4 + c.toNat / 64, c.toNat % 64]

/-- What the masks and shifts of `Base64Encode` do. -/
theorem encoding_masks (a : UInt8) :
    ((a &&& 0xfc) >>> 2).toNat = a.toNat / 4 ∧ ((a &&& 0x03) <<< 4).toNat = a.toNat % 4 * 16 ∧
      ((a &&& 0xf0) >>> 4).toNat = a.toNat / 16 ∧ ((a &&& 0x0f) <<< 2).toNat = a.toNat % 16 * 4 ∧
      ((a &&& 0xc0) >>> 6).toNat = a.toNat / 64 ∧ (a &&& 0x3f).toNat = a.toNat % 64 := by
  revert a
  apply Request.forall_byte
  decide +kernel

theorem base64Quad_eq (a b c : UInt8) : base64Quad a b c = (sextets a b c).map base64Digit := by
  obtain ⟨high6, low2, -⟩ := encoding_masks a
  obtain ⟨-, -, high4, low4, -⟩ := encoding_masks b
  obtain ⟨-, -, -, -, high2, low6⟩ := encoding_masks c
  have second : ((a &&& 0x03) <<< 4) + ((b &&& 0xf0) >>> 4) =
      UInt8.ofNat (a.toNat % 4 * 16 + b.toNat / 16) := by
    rw [← low2, ← high4, UInt8.ofNat_add, UInt8.ofNat_toNat, UInt8.ofNat_toNat]
  have third : ((b &&& 0x0f) <<< 2) + ((c &&& 0xc0) >>> 6) =
      UInt8.ofNat (b.toNat % 16 * 4 + c.toNat / 64) := by
    rw [← low4, ← high2, UInt8.ofNat_add, UInt8.ofNat_toNat, UInt8.ofNat_toNat]
  rw [base64Quad, second, third]
  simp only [sextets, List.map_cons, List.map_nil, base64Digit, ← high6, ← low6,
    UInt8.ofNat_toNat]

theorem sextets_lt (a b c : UInt8) : ∀ value ∈ sextets a b c, value < 2 ^ 6 := by
  have first := a.toNat_lt
  have second := b.toNat_lt
  have third := c.toNat_lt
  simp only [sextets, List.forall_mem_cons, List.not_mem_nil, false_implies, implies_true, and_true]
  omega

theorem stream_sextets (a b c : UInt8) : stream 6 (sextets a b c) = octetStream [a, b, c] := by
  have second : bits 6 (a.toNat % 4 * 16 + b.toNat / 16) =
      bits 2 a.toNat ++ bits 4 (b.toNat / 16) := by
    have small : b.toNat / 16 < 2 ^ 4 := by
      have bound := b.toNat_lt
      omega
    exact (bits_join 2 small).trans (congrArg (· ++ _) (bits_mod 2 a.toNat))
  have third : bits 6 (b.toNat % 16 * 4 + c.toNat / 64) =
      bits 4 b.toNat ++ bits 2 (c.toNat / 64) := by
    have small : c.toNat / 64 < 2 ^ 2 := by
      have bound := c.toNat_lt
      omega
    exact (bits_join 4 small).trans (congrArg (· ++ _) (bits_mod 4 b.toNat))
  have last : bits 6 (c.toNat % 64) = bits 6 c.toNat := bits_mod 6 c.toNat
  simp only [sextets, octetStream, stream, List.map_cons, List.map_nil, List.flatMap_cons,
    List.flatMap_nil, List.append_nil]
  rw [second, third, last, bits_add 6 2 a.toNat, bits_add 4 4 b.toNat, bits_add 2 6 c.toNat]
  simp only [List.append_assoc, Nat.reducePow]

end Quads

section Encoding

/-- The bits of some bytes, filled up with zeros to whole characters. -/
def filledStream (octets : Bytes) : List Bool :=
  octetStream octets ++ List.replicate (2 * base64Pad octets.length) false

theorem take_sextets_lt (a b c : UInt8) (count : Nat) :
    ∀ value ∈ (sextets a b c).take count, value < 2 ^ 6 :=
  fun value membership => sextets_lt a b c value (List.mem_of_mem_take membership)

theorem groups_one (a : UInt8) : groups 6 (filledStream [a]) = (sextets a 0 0).take 2 := by
  refine groups_of_stream_eq (by decide) (take_sextets_lt a 0 0 2) ?_
  rw [stream_take, stream_sextets]
  simp [filledStream, octetStream, stream, bits, base64Pad]

theorem groups_two (a b : UInt8) : groups 6 (filledStream [a, b]) = (sextets a b 0).take 3 := by
  refine groups_of_stream_eq (by decide) (take_sextets_lt a b 0 3) ?_
  rw [stream_take, stream_sextets]
  simp [filledStream, octetStream, stream, bits, base64Pad]

theorem base64Pad_add_three (length : Nat) : base64Pad (length + 3) = base64Pad length := by
  rw [base64Pad, Nat.add_mod_right, base64Pad]

theorem groups_three (a b c : UInt8) (rest : Bytes) :
    groups 6 (filledStream (a :: b :: c :: rest)) =
      sextets a b c ++ groups 6 (filledStream rest) := by
  have split : filledStream (a :: b :: c :: rest) =
      stream 6 (sextets a b c) ++ filledStream rest := by
    rw [stream_sextets, filledStream, filledStream, ← List.append_assoc,
      show (a :: b :: c :: rest).length = rest.length + 3 from rfl, base64Pad_add_three]
    rfl
  rw [split, groups_stream_append (by decide) (sextets_lt a b c)]

/-- `Base64Encode` writes the bits of the bytes, filled up with zeros, in groups of six. -/
theorem base64Encode_eq (octets : Bytes) :
    base64Encode octets = (groups 6 (filledStream octets)).map base64Digit ++
      List.replicate (base64Pad octets.length) 61 := by
  induction octets using base64Encode.induct with
  | case1 => rfl
  | case2 a =>
      rw [base64Encode, groups_one, base64Quad_eq, List.map_take]
      rfl
  | case3 a b =>
      rw [base64Encode, groups_two, base64Quad_eq, List.map_take]
      rfl
  | case4 a b c rest inductionHypothesis =>
      rw [base64Encode, inductionHypothesis, groups_three, base64Quad_eq, List.map_append,
        List.append_assoc, show (a :: b :: c :: rest).length = rest.length + 3 from rfl,
        base64Pad_add_three]

end Encoding

section Triples

variable {a b c : UInt8}

/-- What the masks and shifts of `Base64Decode` do. -/
theorem decoding_masks (small : a.toNat < 64) :
    (a <<< 2).toNat = a.toNat * 4 ∧ ((a &&& 0x30) >>> 4).toNat = a.toNat / 16 ∧
      ((a &&& 0xf) <<< 4).toNat = a.toNat % 16 * 16 ∧
      ((a &&& 0x3c) >>> 2).toNat = a.toNat / 4 ∧
      ((a &&& 0x3) <<< 6).toNat = a.toNat % 4 * 64 := by
  revert small
  revert a
  apply Request.forall_byte
  decide +kernel

/-- The first byte of `char_array_3`. -/
theorem first_octet (aSmall : a.toNat < 64) (bSmall : b.toNat < 64) :
    (a <<< 2) + ((b &&& 0x30) >>> 4) = UInt8.ofNat (a.toNat * 4 + b.toNat / 16) := by
  rw [← (decoding_masks aSmall).1, ← (decoding_masks bSmall).2.1, UInt8.ofNat_add,
    UInt8.ofNat_toNat, UInt8.ofNat_toNat]

/-- The second byte of `char_array_3`. -/
theorem second_octet (bSmall : b.toNat < 64) (cSmall : c.toNat < 64) :
    ((b &&& 0xf) <<< 4) + ((c &&& 0x3c) >>> 2) =
      UInt8.ofNat (b.toNat % 16 * 16 + c.toNat / 4) := by
  rw [← (decoding_masks bSmall).2.2.1, ← (decoding_masks cSmall).2.2.2.1, UInt8.ofNat_add,
    UInt8.ofNat_toNat, UInt8.ofNat_toNat]

/-- The third byte of `char_array_3`. -/
theorem third_octet (cSmall : c.toNat < 64) (d : UInt8) :
    ((c &&& 0x3) <<< 6) + d = UInt8.ofNat (c.toNat % 4 * 64 + d.toNat) := by
  rw [← (decoding_masks cSmall).2.2.2.2, UInt8.ofNat_add, UInt8.ofNat_toNat, UInt8.ofNat_toNat]

theorem bits_first {second : Nat} (first : Nat) (small : second < 64) :
    bits 6 first ++ bits 6 second = bits 8 (first * 4 + second / 16) ++ bits 4 second := by
  have joined : bits 8 (first * 4 + second / 16) = bits 6 first ++ bits 2 (second / 16) :=
    bits_join 6 (show second / 16 < 2 ^ 2 by omega)
  rw [joined, bits_add 2 4 second, List.append_assoc]
  rfl

theorem bits_second {third : Nat} (second : Nat) (small : third < 64) :
    bits 4 second ++ bits 6 third = bits 8 (second % 16 * 16 + third / 4) ++ bits 2 third := by
  have joined : bits 8 (second % 16 * 16 + third / 4) =
      bits 4 (second % 2 ^ 4) ++ bits 4 (third / 4) :=
    bits_join 4 (show third / 4 < 2 ^ 4 by omega)
  rw [joined, bits_mod, bits_add 4 2 third, List.append_assoc]
  rfl

theorem bits_third {fourth : Nat} (third : Nat) (small : fourth < 64) :
    bits 2 third ++ bits 6 fourth = bits 8 (third % 4 * 64 + fourth) := by
  have joined : bits 8 (third % 4 * 64 + fourth) = bits 2 (third % 2 ^ 2) ++ bits 6 fourth :=
    bits_join 2 (show fourth < 2 ^ 6 from small)
  rw [joined, bits_mod]

end Triples

section Decoding

/-- The bytes whose bits are those of some characters. -/
def octetsOf (digits : Bytes) : Bytes := (groups 8 (digitStream digits)).map UInt8.ofNat

variable {w x y z : UInt8}

theorem octetsOf_eq {digits : Bytes} (octets : List Nat) (rest : List Bool)
    (small : ∀ octet ∈ octets, octet < 256) (short : rest.length < 8)
    (same : digitStream digits = stream 8 octets ++ rest) :
    octetsOf digits = octets.map UInt8.ofNat := by
  rw [octetsOf, same, groups_stream (by decide) small short]

theorem octetsOf_two (wDigit : isBase64 w = true) (xDigit : isBase64 x = true) :
    octetsOf [w, x] = [(base64Find w <<< 2) + ((base64Find x &&& 0x30) >>> 4)] := by
  have wSmall := base64Value_lt wDigit
  have xSmall := base64Value_lt xDigit
  rw [first_octet wSmall xSmall]
  refine octetsOf_eq [base64Value w * 4 + base64Value x / 16] (bits 4 (base64Value x)) ?_
    (by simp) ?_
  · simp only [List.forall_mem_singleton]
    omega
  · simpa [digitStream, stream] using bits_first (base64Value w) xSmall

theorem octetsOf_three (wDigit : isBase64 w = true) (xDigit : isBase64 x = true)
    (yDigit : isBase64 y = true) :
    octetsOf [w, x, y] = [(base64Find w <<< 2) + ((base64Find x &&& 0x30) >>> 4),
      ((base64Find x &&& 0xf) <<< 4) + ((base64Find y &&& 0x3c) >>> 2)] := by
  have wSmall := base64Value_lt wDigit
  have xSmall := base64Value_lt xDigit
  have ySmall := base64Value_lt yDigit
  rw [first_octet wSmall xSmall, second_octet xSmall ySmall]
  refine octetsOf_eq [base64Value w * 4 + base64Value x / 16,
    base64Value x % 16 * 16 + base64Value y / 4] (bits 2 (base64Value y)) ?_ (by simp) ?_
  · simp only [List.forall_mem_cons, List.not_mem_nil, false_implies, implies_true, and_true]
    omega
  · calc digitStream [w, x, y]
        = (bits 6 (base64Value w) ++ bits 6 (base64Value x)) ++ bits 6 (base64Value y) := by
          simp [digitStream, stream]
      _ = bits 8 (base64Value w * 4 + base64Value x / 16) ++
            (bits 8 (base64Value x % 16 * 16 + base64Value y / 4) ++ bits 2 (base64Value y)) := by
          rw [bits_first _ xSmall, List.append_assoc, bits_second _ ySmall]
      _ = _ := by simp [stream]

theorem octetsOf_four (wDigit : isBase64 w = true) (xDigit : isBase64 x = true)
    (yDigit : isBase64 y = true) (zDigit : isBase64 z = true) (rest : Bytes) :
    octetsOf (w :: x :: y :: z :: rest) =
      base64Triple (base64Find w) (base64Find x) (base64Find y) (base64Find z) ++
        octetsOf rest := by
  have wSmall := base64Value_lt wDigit
  have xSmall := base64Value_lt xDigit
  have ySmall := base64Value_lt yDigit
  have zSmall := base64Value_lt zDigit
  have split : digitStream (w :: x :: y :: z :: rest) =
      stream 8 [base64Value w * 4 + base64Value x / 16,
        base64Value x % 16 * 16 + base64Value y / 4,
        base64Value y % 4 * 64 + base64Value z] ++ digitStream rest := by
    calc digitStream (w :: x :: y :: z :: rest)
        = (bits 6 (base64Value w) ++ bits 6 (base64Value x)) ++ (bits 6 (base64Value y) ++
            (bits 6 (base64Value z) ++ digitStream rest)) := by
          simp [digitStream, stream]
      _ = bits 8 (base64Value w * 4 + base64Value x / 16) ++
            ((bits 4 (base64Value x) ++ bits 6 (base64Value y)) ++
              (bits 6 (base64Value z) ++ digitStream rest)) := by
          rw [bits_first _ xSmall, List.append_assoc, List.append_assoc]
      _ = bits 8 (base64Value w * 4 + base64Value x / 16) ++
            (bits 8 (base64Value x % 16 * 16 + base64Value y / 4) ++
              ((bits 2 (base64Value y) ++ bits 6 (base64Value z)) ++ digitStream rest)) := by
          rw [bits_second _ ySmall, List.append_assoc, List.append_assoc]
      _ = _ := by
          rw [bits_third _ zSmall]
          simp [stream]
  have small : ∀ octet ∈ [base64Value w * 4 + base64Value x / 16,
      base64Value x % 16 * 16 + base64Value y / 4,
      base64Value y % 4 * 64 + base64Value z], octet < 2 ^ 8 := by
    simp only [List.forall_mem_cons, List.not_mem_nil, false_implies, implies_true, and_true]
    omega
  rw [octetsOf, split, groups_stream_append (by decide) small, List.map_append, base64Triple,
    first_octet wSmall xSmall, second_octet xSmall ySmall, third_octet ySmall]
  rfl

theorem base64Tail_eq {quad : Bytes} (digits : ∀ c ∈ quad, isBase64 c = true)
    (short : quad.length < 4) : base64Tail quad = octetsOf quad := by
  match quad with
  | [] => rfl
  | [w] => exact (octetsOf_eq [] (bits 6 (base64Value w)) (by simp) (by simp) rfl).symm
  | [w, x] => rw [octetsOf_two (digits w (by simp)) (digits x (by simp))]; rfl
  | [w, x, y] =>
      rw [octetsOf_three (digits w (by simp)) (digits x (by simp)) (digits y (by simp))]
      rfl

/-- The loop reads the bits of the characters up to the first byte that is none. -/
theorem base64DecodeLoop_eq (text : Bytes) {quad : Bytes} (digits : ∀ c ∈ quad, isBase64 c = true)
    (short : quad.length < 4) :
    base64DecodeLoop quad text = octetsOf (quad ++ base64Digits text) := by
  induction text generalizing quad with
  | nil =>
      rw [base64DecodeLoop, base64Tail_eq digits short]
      simp [base64Digits]
  | cons c rest inductionHypothesis =>
      unfold base64DecodeLoop
      by_cases digit : isBase64 c = true
      · rw [if_pos ((digit_iff c).mpr digit)]
        have more : base64Digits (c :: rest) = c :: base64Digits rest := by
          simp [base64Digits, digit]
        rw [more]
        split
        · rename_i x y z
          rw [inductionHypothesis (fun _ none => by cases none) (by decide)]
          exact (octetsOf_four (digits x (by simp)) (digits y (by simp)) (digits z (by simp)) digit
            (base64Digits rest)).symm
        · rename_i other
          have shorter : quad.length < 3 := by
            match quad, short, other with
            | [], _, _ => simp
            | [_], _, _ => simp
            | [_, _], _, _ => simp
            | [x, y, z], _, other => exact absurd rfl (other x y z)
          rw [inductionHypothesis, List.append_assoc, List.singleton_append]
          · intro d membership
            rcases List.mem_append.mp membership with before | last
            · exact digits d before
            · rw [List.mem_singleton.mp last]
              exact digit
          · rw [List.length_append, List.length_singleton]
            omega
      · rw [if_neg (mt (digit_iff c).mp digit), base64Tail_eq digits short]
        simp [base64Digits, digit]

/-- For every string, `Base64Decode` returns the bytes of the bits of the characters that the
string begins with: whatever stands behind the first byte that is none of the alphabet is
ignored, and the bits of an incomplete byte are dropped.  The `int` `in_` counts the characters,
of which there must be fewer than `2 ^ 31`. -/
theorem base64Decode_reads_bits (text : Bytes)
    (_counted : (text.takeWhile isBase64).length < 2 ^ 31) :
    base64Decode text =
      (groups 8 (stream 6 ((text.takeWhile isBase64).map base64Value))).map UInt8.ofNat :=
  base64DecodeLoop_eq text (fun _ none => by cases none) (by decide)

/-- The bits of the last character are not enough for a byte. -/
theorem base64Decode_reads_bits_padded :
    base64Decode (ascii ['b', 'W', 'V', '2', 'Z', '=', '=', 'b']) =
      (groups 8 (stream 6 (((ascii ['b', 'W', 'V', '2', 'Z', '=', '=', 'b']).takeWhile
        isBase64).map base64Value))).map UInt8.ofNat :=
  base64Decode_reads_bits _ (by decide)

end Decoding

section RoundTrip

@[simp]
theorem length_octetStream (octets : Bytes) : (octetStream octets).length = 8 * octets.length := by
  rw [octetStream, length_stream, List.length_map]

@[simp]
theorem length_digitStream (digits : Bytes) : (digitStream digits).length = 6 * digits.length := by
  rw [digitStream, length_stream, List.length_map]

theorem length_filledStream (octets : Bytes) :
    (filledStream octets).length = 6 * ((4 * octets.length + 2) / 3) := by
  rw [filledStream, List.length_append, length_octetStream, List.length_replicate, base64Pad]
  omega

/-- The characters that `Base64Encode` writes. -/
def encodedDigits (octets : Bytes) : Bytes := (groups 6 (filledStream octets)).map base64Digit

theorem isBase64_encodedDigits (octets : Bytes) :
    ∀ c ∈ encodedDigits octets, isBase64 c = true := by
  intro c membership
  obtain ⟨value, member, rfl⟩ := List.mem_map.mp membership
  exact isBase64_digit (lt_of_mem_groups _ value member)

theorem digitStream_encodedDigits (octets : Bytes) :
    digitStream (encodedDigits octets) = filledStream octets := by
  have values : (encodedDigits octets).map base64Value = groups 6 (filledStream octets) := by
    rw [encodedDigits, List.map_map]
    refine (List.map_congr_left fun value membership => ?_).trans (List.map_id _)
    exact base64Value_digit (lt_of_mem_groups _ value membership)
  rw [digitStream, values, stream_groups (by decide) _ (length_filledStream octets)]

/-- What stands before the first `=` of what `Base64Encode` returns. -/
theorem base64Digits_encode (octets : Bytes) :
    base64Digits (base64Encode octets) = encodedDigits octets := by
  rw [base64Encode_eq, base64Digits, ← encodedDigits,
    List.takeWhile_append_of_pos (isBase64_encodedDigits octets)]
  cases base64Pad octets.length with
  | zero => simp
  | succ count => simp [List.replicate_succ, show isBase64 61 = false by decide]

theorem map_octetStream (octets : Bytes) {rest : List Bool} (short : rest.length < 8) :
    (groups 8 (octetStream octets ++ rest)).map UInt8.ofNat = octets := by
  have small : ∀ number ∈ octets.map UInt8.toNat, number < 2 ^ 8 := by
    intro number membership
    obtain ⟨octet, -, rfl⟩ := List.mem_map.mp membership
    exact octet.toNat_lt
  rw [octetStream, groups_stream (by decide) small short, List.map_map]
  refine (List.map_congr_left fun octet _ => ?_).trans (List.map_id _)
  exact UInt8.ofNat_toNat

theorem octetStream_octetsOf (digits : Bytes) :
    octetStream (octetsOf digits) = (digitStream digits).take (8 * (6 * digits.length / 8)) := by
  have numbers : (octetsOf digits).map UInt8.toNat = groups 8 (digitStream digits) := by
    rw [octetsOf, List.map_map]
    refine (List.map_congr_left fun number membership => ?_).trans (List.map_id _)
    exact UInt8.toNat_ofNat_of_lt' (lt_of_mem_groups _ number membership)
  rw [octetStream, numbers, stream_groups_eq_take (by decide), length_digitStream]

theorem length_octetsOf (digits : Bytes) : (octetsOf digits).length = 6 * digits.length / 8 := by
  rw [octetsOf, List.length_map, groups, List.length_map, List.length_range, length_digitStream]

/-- A string that `Base64Encode` can have written: characters of the alphabet, of which there
are not one more than a multiple of four, `=` up to a multiple of four, and zeros for the bits
behind the last whole byte. -/
structure Canonical (text : Bytes) : Prop where
  digits : (base64Digits text).length % 4 ≠ 1
  padded : text = base64Digits text ++
    List.replicate ((4 - (base64Digits text).length % 4) % 4) 61
  zeros : ∀ bit ∈ (digitStream (base64Digits text)).drop
    (8 * (6 * (base64Digits text).length / 8)), bit = false

theorem base64Decode_encode (octets : Bytes) : base64Decode (base64Encode octets) = octets := by
  have decoded : base64Decode (base64Encode octets) =
      octetsOf (base64Digits (base64Encode octets)) :=
    base64DecodeLoop_eq _ (fun _ none => by cases none) (by decide)
  have short : (List.replicate (2 * base64Pad octets.length) false).length < 8 := by
    rw [List.length_replicate, base64Pad]
    omega
  rw [decoded, base64Digits_encode, octetsOf, digitStream_encodedDigits, filledStream,
    map_octetStream octets short]

theorem base64Pad_octets {count : Nat} (even : count % 4 ≠ 1) :
    base64Pad (6 * count / 8) = (4 - count % 4) % 4 ∧
      2 * base64Pad (6 * count / 8) = 6 * count - 8 * (6 * count / 8) := by
  have quotient : 6 * count / 8 = 3 * (count / 4) + 6 * (count % 4) / 8 := by omega
  have cases : count % 4 = 0 ∨ count % 4 = 2 ∨ count % 4 = 3 := by omega
  rw [base64Pad, quotient]
  rcases cases with none | two | three
  · rw [none]
    omega
  · rw [two]
    omega
  · rw [three]
    omega

theorem filledStream_octetsOf {digits : Bytes} (even : digits.length % 4 ≠ 1) :
    filledStream (octetsOf digits) =
      (digitStream digits).take (8 * (6 * digits.length / 8)) ++
        List.replicate ((digitStream digits).drop (8 * (6 * digits.length / 8))).length false := by
  have count : 2 * base64Pad (octetsOf digits).length =
      ((digitStream digits).drop (8 * (6 * digits.length / 8))).length := by
    rw [length_octetsOf, List.length_drop, length_digitStream, (base64Pad_octets even).2]
  rw [filledStream, octetStream_octetsOf, count]

theorem map_digitStream {digits : Bytes} (all : ∀ c ∈ digits, isBase64 c = true) :
    (groups 6 (digitStream digits)).map base64Digit = digits := by
  have small : ∀ value ∈ digits.map base64Value, value < 2 ^ 6 := by
    intro value membership
    obtain ⟨c, member, rfl⟩ := List.mem_map.mp membership
    exact base64Value_lt (all c member)
  rw [digitStream, groups_of_stream_eq (by decide) small rfl, List.map_map]
  refine (List.map_congr_left fun c membership => ?_).trans (List.map_id _)
  exact base64Digit_value (all c membership)

theorem Canonical.encodes {text : Bytes} (canonical : Canonical text) :
    base64Encode (octetsOf (base64Digits text)) = text := by
  have all : ∀ c ∈ base64Digits text, isBase64 c = true := fun c => List.mem_takeWhile_imp
  have zeros := List.eq_replicate_of_mem canonical.zeros
  have same : filledStream (octetsOf (base64Digits text)) = digitStream (base64Digits text) := by
    rw [filledStream_octetsOf canonical.digits, ← zeros, List.take_append_drop]
  rw [base64Encode_eq, same, map_digitStream all, length_octetsOf,
    (base64Pad_octets canonical.digits).1]
  exact canonical.padded.symm

theorem canonical_encode (octets : Bytes) : Canonical (base64Encode octets) := by
  have count : (encodedDigits octets).length = (4 * octets.length + 2) / 3 := by
    have bitCount := congrArg List.length (digitStream_encodedDigits octets)
    rw [length_digitStream, length_filledStream] at bitCount
    omega
  refine ⟨?_, ?_, ?_⟩
  · rw [base64Digits_encode, count]
    omega
  · rw [base64Digits_encode, count, base64Encode_eq, encodedDigits]
    have pads : base64Pad octets.length = (4 - (4 * octets.length + 2) / 3 % 4) % 4 := by
      have quotient : (4 * octets.length + 2) / 3 =
          4 * (octets.length / 3) + (4 * (octets.length % 3) + 2) / 3 := by omega
      have cases : octets.length % 3 = 0 ∨ octets.length % 3 = 1 ∨ octets.length % 3 = 2 := by
        omega
      rw [base64Pad, quotient]
      rcases cases with none | one | two
      · rw [none]
        omega
      · rw [one]
        omega
      · rw [two]
        omega
    rw [pads]
  · rw [base64Digits_encode, count, digitStream_encodedDigits, filledStream]
    have whole : 8 * (6 * ((4 * octets.length + 2) / 3) / 8) = (octetStream octets).length := by
      rw [length_octetStream]
      omega
    rw [whole, List.drop_left]
    exact fun bit membership => List.eq_of_mem_replicate membership

/-- `Base64Decode` undoes `Base64Encode`, and `Base64Encode` undoes `Base64Decode` exactly on the
canonical strings, as long as the `int` `in_` of `Base64Decode` can count the characters. -/
theorem base64_roundTrips (octets text : Bytes)
    (_encodedCounted : (base64Digits (base64Encode octets)).length < 2 ^ 31)
    (_counted : (base64Digits text).length < 2 ^ 31) :
    base64Decode (base64Encode octets) = octets ∧
      (base64Encode (base64Decode text) = text ↔ Canonical text) := by
  have decoded : base64Decode text = octetsOf (base64Digits text) :=
    base64DecodeLoop_eq _ (fun _ none => by cases none) (by decide)
  refine ⟨base64Decode_encode octets, ?_, ?_⟩
  · intro same
    rw [← same]
    exact canonical_encode _
  · intro canonical
    rw [decoded, canonical.encodes]

/-- Four bytes, and a text without the padding that `Base64Encode` writes. -/
theorem base64_roundTrips_unpadded :
    base64Decode (base64Encode (ascii ['m', 'e', 'v', 'e'])) = ascii ['m', 'e', 'v', 'e'] ∧
      (base64Encode (base64Decode (ascii ['b', 'W', 'V', '2', 'Z', 'Q'])) =
          ascii ['b', 'W', 'V', '2', 'Z', 'Q'] ↔
        Canonical (ascii ['b', 'W', 'V', '2', 'Z', 'Q'])) :=
  base64_roundTrips _ _ (by decide) (by decide)

end RoundTrip

end Mevent
