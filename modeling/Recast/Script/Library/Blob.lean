import Recast.Script.Library.Method

set_option autoImplicit false

/-!
# Methods of blobs

A blob is a sequence of bytes. Integers are cut down to their lowest byte.
-/

namespace Recast.Script

def lowestByte (number : Int) : UInt8 :=
  (number % 256).toNat.toUInt8

def ofByte (byte : UInt8) : Value :=
  ofNat byte.toNat

def blobOf (length : Int) (byte : UInt8) : Except Fault Value :=
  if Int.ofNat maxItems < length then .error .arrayTooLarge
  else .ok (.blob (List.replicate length.toNat byte))

def bytesOf (content : String) : List UInt8 :=
  content.toUTF8.toList

/-- The text of bytes. Bytes that are no text are replaced. -/
def textOf (bytes : List UInt8) : String :=
  (String.fromUTF8? ⟨bytes.toArray⟩).getD (String.ofList (bytes.map fun _ => Char.ofNat 0xFFFD))

def blobMethod? (name : String) (bytes : List UInt8) (values : List Value) : Option Method :=
  let same := Value.blob bytes
  let resolve (position : Int) : Int :=
    if position < 0 then Int.ofNat bytes.length + position else position
  match name, values with
  | "len", [] => Method.of same (ofNat bytes.length)
  | "is_empty", [] => Method.of same (.bool bytes.isEmpty)
  | "to_array", [] => Method.of same (.array (bytes.map ofByte))
  | "as_string", [] => Method.of same (.text (textOf bytes))
  | "clear", [] => Method.replacing (.blob [])
  | "reverse", [] => Method.replacing (.blob bytes.reverse)
  | "pop", [] => Method.taking ((bytes.getLast?.map ofByte).getD (.int 0)) (.blob bytes.dropLast)
  | "shift", [] => Method.taking ((bytes.head?.map ofByte).getD (.int 0)) (.blob (bytes.drop 1))
  | "contains", [.int number] => Method.of same (.bool (bytes.contains (lowestByte number)))
  | "get", [.int position] =>
    let byte := if 0 ≤ resolve position then bytes[(resolve position).toNat]? else none
    Method.of same ((byte.map ofByte).getD (.int 0))
  | "set", [.int position, .int number] =>
    Method.replacing (.blob (if 0 ≤ resolve position then
      bytes.set (resolve position).toNat (lowestByte number) else bytes))
  | "push", [.int number] =>
    Method.tryReplacing (boundedValue (.blob (bytes ++ [lowestByte number])))
  | "append", [.blob others] => Method.tryReplacing (boundedValue (.blob (bytes ++ others)))
  | _, _ => none

end Recast.Script
