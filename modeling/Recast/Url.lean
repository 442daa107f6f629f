import Recast.Text.Utf8
import Recast.Json.Reader

set_option autoImplicit false

/-!
# Percent encoding

Every byte but ASCII letters and digits is written as a percent sign and two capital hexadecimal
digits. Decoding leaves whatever is no such group as it is.
-/

namespace Recast.Url

def isPlain (byte : UInt8) : Bool :=
  (48 ≤ byte && byte ≤ 57) || (65 ≤ byte && byte ≤ 90) || (97 ≤ byte && byte ≤ 122)

def hexDigit (digit : Nat) : Char :=
  if digit < 10 then Char.ofNat (48 + digit) else Char.ofNat (55 + digit)

def encodeByte (byte : UInt8) : List Char :=
  if isPlain byte then [Char.ofNat byte.toNat]
  else ['%', hexDigit (byte.toNat / 16), hexDigit (byte.toNat % 16)]

def encode (text : List Char) : List Char :=
  (Text.encodeUtf8 text).flatMap encodeByte

def decodedBytes : List Char → List UInt8
  | [] => []
  | '%' :: high :: low :: rest =>
    match Json.hexValue? high, Json.hexValue? low with
    | some high, some low => UInt8.ofNat (high * 16 + low) :: decodedBytes rest
    | _, _ => Text.encodeChar '%' ++ decodedBytes (high :: low :: rest)
  | char :: rest => Text.encodeChar char ++ decodedBytes rest

def decode? (text : List Char) : Option (List Char) :=
  Text.decodeUtf8? (decodedBytes text)

end Recast.Url
