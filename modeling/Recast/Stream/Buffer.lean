import Recast.Stream.Sink

set_option autoImplicit false

/-!
# Buffered output

Bytes wait in a buffer until it is full, until they are flushed, or until the buffer is given up.
What they go out to accepts everything.
-/

namespace Recast.Stream

/-- Bytes that have gone out and bytes that wait, the last one first, and how many more may wait. -/
structure Buffer where
  out : List UInt8
  waiting : List UInt8
  room : Nat
deriving Repr

/-- The bytes of printed lines. -/
def printedBytes (lines : List String) : List UInt8 :=
  lines.flatMap fun line => Text.encodeUtf8 (line.toList ++ ['\n'])

namespace Buffer

def capacity : Nat := 8192

def empty : Buffer :=
  ⟨[], [], capacity⟩

/-- Lets the waiting bytes go out. -/
def drain (buffer : Buffer) : Buffer :=
  ⟨buffer.waiting ++ buffer.out, [], capacity⟩

def push (buffer : Buffer) (byte : UInt8) : Buffer :=
  match buffer.room with
  | 0 => ⟨buffer.waiting ++ buffer.out, [byte], capacity - 1⟩
  | room + 1 => ⟨buffer.out, byte :: buffer.waiting, room⟩

/-- Lines that go out at once, past the bytes that wait. -/
def printLines (buffer : Buffer) (lines : List String) : Buffer :=
  { buffer with out := (printedBytes lines).reverse ++ buffer.out }

def outlet : Outlet Buffer Refusal where
  accept buffer byte := .ok (buffer.push byte)
  flush buffer := .ok buffer.drain

/-- All bytes that have gone out once the buffer is given up: those that still wait go out then. -/
def givenUp (buffer : Buffer) : List UInt8 :=
  buffer.drain.out.reverse

end Buffer

end Recast.Stream
