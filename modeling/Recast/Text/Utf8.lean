set_option autoImplicit false

/-!
# Bytes and text

UTF-8 in both directions. Reading refuses overlong forms, surrogates and values past the last
character, so that each text has exactly one byte form.
-/

namespace Recast.Text

def encodeChar (char : Char) : List UInt8 :=
  String.utf8EncodeChar char

def encodeUtf8 (text : List Char) : List UInt8 :=
  text.flatMap encodeChar

def isContinuation (byte : UInt8) : Bool :=
  0x80 ≤ byte && byte < 0xC0

def payload (byte : UInt8) : Nat :=
  byte.toNat % 64

def decodeChar? : List UInt8 → Option (Char × List UInt8)
  | [] => none
  | a :: rest =>
    if a < 0x80 then some (Char.ofNat a.toNat, rest)
    else if a < 0xC2 then none
    else if a < 0xE0 then
      match rest with
      | b :: rest =>
        if isContinuation b then some (Char.ofNat ((a.toNat - 0xC0) * 64 + payload b), rest)
        else none
      | _ => none
    else if a < 0xF0 then
      match rest with
      | b :: c :: rest =>
        let code := (a.toNat - 0xE0) * 4096 + payload b * 64 + payload c
        if isContinuation b && isContinuation c && 0x800 ≤ code &&
            !(0xD800 ≤ code && code ≤ 0xDFFF) then
          some (Char.ofNat code, rest)
        else none
      | _ => none
    else if a < 0xF5 then
      match rest with
      | b :: c :: d :: rest =>
        let code := (a.toNat - 0xF0) * 262144 + payload b * 4096 + payload c * 64 + payload d
        if isContinuation b && isContinuation c && isContinuation d && 0x10000 ≤ code &&
            code ≤ 0x10FFFF then
          some (Char.ofNat code, rest)
        else none
      | _ => none
    else none

def decodeFrom? : Nat → List UInt8 → Option (List Char)
  | _, [] => some []
  | 0, _ :: _ => none
  | fuel + 1, byte :: rest =>
    match decodeChar? (byte :: rest) with
    | none => none
    | some (char, rest) => (decodeFrom? fuel rest).map (char :: ·)

def decodeUtf8? (bytes : List UInt8) : Option (List Char) :=
  decodeFrom? bytes.length bytes

end Recast.Text
