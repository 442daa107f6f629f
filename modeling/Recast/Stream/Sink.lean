import Recast.Event
import Recast.Metrics
import Recast.Text.Utf8

set_option autoImplicit false

/-!
# Output

Events are written as lines of JSON. The first failure is kept, and nothing is written after it.
-/

namespace Recast.Stream

/-- What takes events. It goes from state to state, and it reports nothing but failed writes. -/
structure Receiver (σ : Type) where
  emit : σ → Event → σ × List Notice
  reportsWrites : ∀ state event, ∀ notice ∈ (emit state event).2, ∃ tag, notice = .failedWrite tag

def Receiver.emitAll {σ : Type} (receiver : Receiver σ) (state : σ) : List Event → σ × List Notice
  | [] => (state, [])
  | event :: rest =>
    let (state, notices) := receiver.emit state event
    let (state, others) := receiver.emitAll state rest
    (state, notices ++ others)

def Receiver.collector : Receiver (List Event) where
  emit events event := (events ++ [event], [])
  reportsWrites _ _ _ member := by cases member

/-- Where bytes go: each byte is accepted or refused, and at the end all are flushed. -/
structure Outlet (σ ε : Type) where
  accept : σ → UInt8 → Except ε σ
  flush : σ → Except ε σ

structure Sink (σ ε : Type) where
  state : σ
  failure : Option ε

def Outlet.offer {σ ε : Type} (outlet : Outlet σ ε) (state : σ) : List UInt8 → σ × Option ε
  | [] => (state, none)
  | byte :: rest =>
    match outlet.accept state byte with
    | .ok state => outlet.offer state rest
    | .error failure => (state, some failure)

def lineBytes (event : Event) : List UInt8 :=
  Text.encodeUtf8 (event.line ++ ['\n'])

/-- Writes an event. A failure is reported once. -/
def Sink.emit {σ ε : Type} (outlet : Outlet σ ε) (sink : Sink σ ε) (event : Event) :
    Sink σ ε × List Notice :=
  match sink.failure with
  | some _ => (sink, [])
  | none =>
    match outlet.offer sink.state (lineBytes event) with
    | (state, none) => (⟨state, none⟩, [])
    | (state, some failure) => (⟨state, some failure⟩, [.failedWrite event.tag])

theorem Sink.eq_failedWrite_of_mem_emit {σ ε : Type} {outlet : Outlet σ ε} {sink : Sink σ ε}
    {event : Event} {notice : Notice} (member : notice ∈ (sink.emit outlet event).2) :
    notice = .failedWrite event.tag := by
  unfold Sink.emit at member
  split at member
  · cases member
  · split at member
    · cases member
    · exact List.mem_singleton.mp member

def Outlet.receiver {σ ε : Type} (outlet : Outlet σ ε) : Receiver (Sink σ ε) where
  emit sink event := sink.emit outlet event
  reportsWrites _ event _ member := ⟨event.tag, Sink.eq_failedWrite_of_mem_emit member⟩

/-- Ends the output: the first failure, else what flushing gives. -/
def Sink.finish {σ ε : Type} (outlet : Outlet σ ε) (sink : Sink σ ε) : Except ε σ :=
  match sink.failure with
  | some failure => .error failure
  | none => outlet.flush sink.state

inductive Refusal where
  | storageFull
  | brokenPipe
deriving Repr, DecidableEq

def Refusal.name : Refusal → String
  | .storageFull => "StorageFull"
  | .brokenPipe => "BrokenPipe"

/-- Bytes that were written, the last one first, and the number of lines there is still room
for, if there is a limit. -/
structure Storage where
  written : List UInt8
  room : Option Nat
deriving Inhabited, Repr

/-- An outlet that keeps its bytes. It is full when its last line has been ended. -/
def Storage.outlet (flushes : Bool) : Outlet Storage Refusal where
  accept storage byte :=
    match storage.room with
    | none => .ok { storage with written := byte :: storage.written }
    | some 0 => .error .storageFull
    | some (room + 1) =>
      .ok ⟨byte :: storage.written, some (if byte = 10 then room else room + 1)⟩
  flush storage := if flushes then .ok storage else .error .brokenPipe

def Storage.bytes (storage : Storage) : List UInt8 :=
  storage.written.reverse

end Recast.Stream
