import Mathlib.Data.List.DropRight
import Sankaku.Lib.Hex
import Sankaku.Model.Types

namespace Sankaku

/-- `char::is_whitespace`, the code points with the property `White_Space`. -/
def isWhitespace (c : Char) : Bool :=
  let n := c.toNat
  (0x09 ≤ n && n ≤ 0x0D) || n == 0x20 || n == 0x85 || n == 0xA0 || n == 0x1680 ||
    (0x2000 ≤ n && n ≤ 0x200A) || n == 0x2028 || n == 0x2029 || n == 0x202F || n == 0x205F ||
    n == 0x3000

/-- `str::trim` -/
def trim (input : String) : String :=
  String.ofList ((input.toList.dropWhile isWhitespace).rdropWhile isWhitespace)

/-- The bytes of a `&str` are the UTF-8 encoding of its characters. -/
def asBytes (s : String) : Bytes := s.toUTF8.data.toList

/-- `chunks_exact(2)` -/
def chunksExact2 : Bytes → List Bytes
  | a :: b :: bytes => [a, b] :: chunksExact2 bytes
  | _ => []

/-- The digits of `u8::from_str_radix(_, 16)`. -/
def radixDigits (result : Nat) : Bytes → Option UInt8
  | [] => some (UInt8.ofNat result)
  | byte :: digits =>
    match Hex.value (Char.ofNat byte.toNat) with
    | none => none
    | some digit =>
      if result * 16 + digit < 2 ^ 8 then radixDigits (result * 16 + digit) digits else none

/-- `u8::from_str_radix(_, 16)`: a leading plus sign is skipped, and an empty text or a sign
alone is refused. A minus sign is no digit. -/
def u8FromStrRadix16 (src : String) : Option UInt8 :=
  match asBytes src with
  | [] => none
  | first :: rest =>
    if rest = [] ∧ (first = 0x2B ∨ first = 0x2D) then none
    else if first = 0x2B then radixDigits 0 rest
    else radixDigits 0 (first :: rest)

/-- How the function fails: with an error, of which this is the text, or by panicking. -/
inductive PskFailure
  | error (message : String)
  | panicked
  deriving DecidableEq

/-- `out[index] = byte` for an index in range -/
def Octets.set (out : Octets n) (index : Nat) (byte : UInt8) : Octets n :=
  ⟨out.val.set index byte, by rw [List.length_set, out.property]⟩

/-- The loop over the pairs. -/
def parsePskPairs (out : Octets 32) (index : Nat) : List Bytes → Except PskFailure (Octets 32)
  | [] => .ok out
  | chunk :: chunks =>
    match String.fromUTF8? chunk.toByteArray with
    | none => .error (.error "PSK contains non-UTF8 bytes")
    | some pair =>
      match u8FromStrRadix16 pair with
      | none => .error (.error s!"PSK has invalid hex at byte index {index}")
      | some byte =>
        if index < 32 then parsePskPairs (out.set index byte) (index + 1) chunks
        else .error .panicked

/-- Converts a 64-char hex string into a 32-byte key. -/
def parsePskHex (input : String) : Except PskFailure (Octets 32) :=
  let trimmed := asBytes (trim input)
  if trimmed.length ≠ 64 then
    .error (.error "PSK must be exactly 64 hex characters (32 bytes)")
  else parsePskPairs (.fill 32 0) 0 (chunksExact2 trimmed)

end Sankaku
