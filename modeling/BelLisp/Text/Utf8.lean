/-!
# Decoding UTF-8

Bytes are decoded strictly: no overlong forms, no surrogates, nothing beyond the last code point. A
fault says where it is and how many bytes of the bad sequence could still have been right.

A sequence that the end of the bytes cuts off is a fault of its own kind: it is noticed only when
the end has been reached, after all text before it has been handed out, and so its position counts
from its own first byte.
-/

set_option autoImplicit false

namespace BelLisp.Text

/-- Why bytes are no text. -/
inductive Utf8Reason where
  | invalidStart
  | invalidContinuation
  | unexpectedEnd
deriving DecidableEq

/-- The wording of a reason. -/
def Utf8Reason.message : Utf8Reason → String
  | .invalidStart => "invalid start byte"
  | .invalidContinuation => "invalid continuation byte"
  | .unexpectedEnd => "unexpected end of data"

/-- A place where bytes are no text: the first byte, its position, and the number of bytes that the
fault covers. -/
structure Utf8Fault where
  byte : UInt8
  position : Nat
  span : Nat
  reason : Utf8Reason
deriving DecidableEq

/-- A byte in two hexadecimal digits. -/
def hexByte (byte : UInt8) : String :=
  let digits := Nat.toDigits 16 byte.toNat
  String.ofList ('0' :: 'x' :: (List.replicate (2 - digits.length) '0' ++ digits))

/-- The wording of a fault. -/
def Utf8Fault.message (fault : Utf8Fault) : String :=
  let place :=
    if fault.span ≤ 1 then
      "byte " ++ hexByte fault.byte ++ " in position " ++ toString fault.position
    else
      "bytes in position " ++ toString fault.position ++ "-" ++
        toString (fault.position + fault.span - 1)
  "'utf-8' codec can't decode " ++ place ++ ": " ++ fault.reason.message

/-- What a first byte announces: the bits of the code point that it holds, the number of bytes to
follow, and the range of the next one. -/
structure Utf8Lead where
  bits : Nat
  follow : Nat
  low : UInt8
  high : UInt8

/-- What a first byte announces, if it may start a sequence. -/
def utf8Lead? (byte : UInt8) : Option Utf8Lead :=
  let n := byte.toNat
  if n < 0x80 then some ⟨n, 0, 0x80, 0xBF⟩
  else if n < 0xC2 then none
  else if n < 0xE0 then some ⟨n - 0xC0, 1, 0x80, 0xBF⟩
  else if n = 0xE0 then some ⟨0, 2, 0xA0, 0xBF⟩
  else if n = 0xED then some ⟨0xD, 2, 0x80, 0x9F⟩
  else if n < 0xF0 then some ⟨n - 0xE0, 2, 0x80, 0xBF⟩
  else if n = 0xF0 then some ⟨0, 3, 0x90, 0xBF⟩
  else if n < 0xF4 then some ⟨n - 0xF0, 3, 0x80, 0xBF⟩
  else if n = 0xF4 then some ⟨4, 3, 0x80, 0x8F⟩
  else none

/-- The outcome of decoding one sequence: a character and the number of bytes behind the first one,
or a fault after `span` good bytes. -/
inductive Utf8Step where
  | char (c : Char) (used : Nat)
  | bad (span : Nat)
  | cut (span : Nat)

/-- Takes the bytes that follow a first byte. -/
def utf8Follow (bits used : Nat) : Nat → UInt8 → UInt8 → List UInt8 → Utf8Step
  | 0, _, _, _ => .char (Char.ofNat bits) used
  | _ + 1, _, _, [] => .cut (used + 1)
  | follow + 1, low, high, byte :: bytes =>
    if low ≤ byte && byte ≤ high then
      utf8Follow (64 * bits + byte.toNat % 64) (used + 1) follow 0x80 0xBF bytes
    else .bad (used + 1)

/-- Are these bytes, which the end cuts off, the start of a surrogate? Whether they are wrong is
decided only at the end, like for a sequence that could still have been right. -/
def cutSurrogate : UInt8 → List UInt8 → Bool
  | first, [second] => first == 0xED && 0xA0 ≤ second && second ≤ 0xBF
  | _, _ => false

/-- How decoding ended. -/
inductive Utf8End where
  /-- All bytes are text. -/
  | clean
  /-- A fault that shows at once. -/
  | bad (fault : Utf8Fault)
  /-- A fault that shows only after the text before it. -/
  | late (fault : Utf8Fault)

/-- The characters up to the first fault, and how decoding ended. -/
structure Decoded where
  chars : List Char
  ending : Utf8End

/-- Decodes bytes of which the first stands at `position`. -/
def decodeUtf8From (position : Nat) (bytes : List UInt8) : Decoded :=
  match bytes with
  | [] => ⟨[], .clean⟩
  | byte :: rest =>
    match utf8Lead? byte with
    | none => ⟨[], .bad ⟨byte, position, 1, .invalidStart⟩⟩
    | some lead =>
      match utf8Follow lead.bits 0 lead.follow lead.low lead.high rest with
      | .char c used =>
        let decoded := decodeUtf8From (position + 1 + used) (rest.drop used)
        { decoded with chars := c :: decoded.chars }
      | .cut span => ⟨[], .late ⟨byte, 0, span, .unexpectedEnd⟩⟩
      | .bad span =>
        if cutSurrogate byte rest then ⟨[], .late ⟨byte, 0, span, .invalidContinuation⟩⟩
        else ⟨[], .bad ⟨byte, position, span, .invalidContinuation⟩⟩
termination_by bytes.length
decreasing_by
  simp only [List.length_drop, List.length_cons]
  omega

/-- Decodes bytes. -/
def decodeUtf8 (bytes : List UInt8) : Decoded := decodeUtf8From 0 bytes

end BelLisp.Text
