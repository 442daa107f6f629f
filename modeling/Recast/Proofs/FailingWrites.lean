import Mathlib
import Recast.Proofs.LineByLine

set_option autoImplicit false

/-!
# Failing writes

An outlet may refuse any byte, and then what it has accepted ends within the line of an event or
between two lines. Nothing is offered to it after that, so what it has accepted stays the beginning
of the lines of the events, and no line follows one that was cut short.
-/

namespace Recast

def Notice.isFailedWrite : Notice → Bool
  | .failedWrite _ => true
  | _ => false

namespace Stream

variable {σ ε : Type} (outlet : Outlet σ ε)

theorem Receiver.emitAll_cons (receiver : Receiver σ) (state : σ) (event : Event)
    (rest : List Event) :
    receiver.emitAll state (event :: rest) =
      ((receiver.emitAll (receiver.emit state event).1 rest).1,
        (receiver.emit state event).2 ++
          (receiver.emitAll (receiver.emit state event).1 rest).2) := rfl

/-! ## Bytes that have been accepted -/

/-- The outlet with a note of the bytes that it has accepted. -/
def Outlet.recorded : Outlet (σ × List UInt8) ε where
  accept noted byte := (outlet.accept noted.1 byte).map fun state => (state, noted.2 ++ [byte])
  flush noted := (outlet.flush noted.1).map fun state => (state, noted.2)

/-- Writes events to an outlet that has not failed. -/
def Outlet.write (start : σ) (events : List Event) : Sink σ ε × List Notice :=
  outlet.receiver.emitAll ⟨start, none⟩ events

/-- The bytes that the outlet accepts of the lines of events. -/
def Outlet.accepted (start : σ) (events : List Event) : List UInt8 :=
  (outlet.recorded.write (start, []) events).1.state.2

/-- The sink without the note. -/
def Sink.unrecorded (sink : Sink (σ × List UInt8) ε) : Sink σ ε :=
  ⟨sink.state.1, sink.failure⟩

/-- Of bytes that are offered, all are accepted, or those before one that is refused. Taking note of
them changes nothing else. -/
theorem Outlet.offer_recorded (state : σ) (noted bytes : List UInt8) :
    (∃ last, outlet.offer state bytes = (last, none) ∧
      outlet.recorded.offer (state, noted) bytes = ((last, noted ++ bytes), none)) ∨
    ∃ part refused rest last failure, bytes = part ++ refused :: rest ∧
      outlet.accept last refused = .error failure ∧
      outlet.offer state bytes = (last, some failure) ∧
      outlet.recorded.offer (state, noted) bytes = ((last, noted ++ part), some failure) := by
  induction bytes generalizing state noted with
  | nil => exact .inl ⟨state, rfl, by rw [List.append_nil]; rfl⟩
  | cons byte bytes ih =>
    cases taken : outlet.accept state byte with
    | error failure =>
      refine .inr ⟨[], byte, bytes, state, failure, rfl, taken, ?_, ?_⟩
      · simp only [offer, taken]
      · simp only [offer, recorded, taken, Except.map, List.append_nil]
    | ok next =>
      have plain : outlet.offer state (byte :: bytes) = outlet.offer next bytes := by
        simp only [offer, taken]
      have noting : outlet.recorded.offer (state, noted) (byte :: bytes) =
          outlet.recorded.offer (next, noted ++ [byte]) bytes := by
        simp only [offer, recorded, taken, Except.map]
      rw [plain, noting]
      obtain ⟨last, all, recorded⟩ | ⟨part, refused, rest, last, failure, rfl, refusal, cut,
        recorded⟩ := ih next (noted ++ [byte])
      · exact .inl ⟨last, all, by rw [recorded, List.append_assoc]; rfl⟩
      · refine .inr ⟨byte :: part, refused, rest, last, failure, rfl, refusal, cut, ?_⟩
        rw [recorded, List.append_assoc]
        rfl

/-- An event that is given to a sink which has not failed. -/
theorem Sink.emit_open (state : σ) (noted : List UInt8) (event : Event) :
    (∃ last, Sink.emit outlet.recorded ⟨(state, noted), none⟩ event =
      (⟨(last, noted ++ lineBytes event), none⟩, [])) ∨
    ∃ part refused rest last failure, lineBytes event = part ++ refused :: rest ∧
      outlet.accept last refused = .error failure ∧
      Sink.emit outlet.recorded ⟨(state, noted), none⟩ event =
        (⟨(last, noted ++ part), some failure⟩, [.failedWrite event.tag]) := by
  obtain ⟨last, _, recorded⟩ | ⟨part, refused, rest, last, failure, line, refusal, _, recorded⟩ :=
    outlet.offer_recorded state noted (lineBytes event)
  · exact .inl ⟨last, by simp only [Sink.emit, recorded]⟩
  · refine .inr ⟨part, refused, rest, last, failure, line, refusal, ?_⟩
    simp only [Sink.emit, recorded]

/-- A sink that has failed takes no event. -/
theorem Receiver.emitAll_failed {sink : Sink σ ε} {failure : ε}
    (failed : sink.failure = some failure)
    (events : List Event) : outlet.receiver.emitAll sink events = (sink, []) := by
  have kept : ∀ event, outlet.receiver.emit sink event = (sink, []) := by
    intro event
    simp only [Outlet.receiver, Sink.emit, failed]
  induction events with
  | nil => rfl
  | cons event rest ih =>
    rw [emitAll_cons, kept, ih]
    rfl

theorem Sink.emit_unrecorded (sink : Sink (σ × List UInt8) ε) (event : Event) :
    sink.unrecorded.emit outlet event =
      ((sink.emit outlet.recorded event).1.unrecorded, (sink.emit outlet.recorded event).2) := by
  obtain ⟨⟨state, noted⟩, _ | failure⟩ := sink
  · obtain ⟨last, plain, recorded⟩ | ⟨_, _, _, last, failure, _, _, plain, recorded⟩ :=
      outlet.offer_recorded state noted (lineBytes event)
    · simp only [Sink.emit, Sink.unrecorded, plain, recorded]
    · simp only [Sink.emit, Sink.unrecorded, plain, recorded]
  · rfl

theorem Receiver.emitAll_unrecorded (sink : Sink (σ × List UInt8) ε) (events : List Event) :
    outlet.receiver.emitAll sink.unrecorded events =
      ((outlet.recorded.receiver.emitAll sink events).1.unrecorded,
        (outlet.recorded.receiver.emitAll sink events).2) := by
  induction events generalizing sink with
  | nil => rfl
  | cons event rest ih =>
    have first : outlet.receiver.emit sink.unrecorded event = _ :=
      Sink.emit_unrecorded outlet sink event
    rw [emitAll_cons, first, ih]
    rfl

/-- What a sink and its reports are after events: the outlet has accepted all lines, or it has
refused a byte of one of them. -/
inductive Outlet.Wrote (outlet : Outlet σ ε) (noted : List UInt8) (events : List Event) :
    Sink (σ × List UInt8) ε × List Notice → Prop where
  | whole (state : σ) :
      outlet.Wrote noted events (⟨(state, noted ++ events.flatMap lineBytes), none⟩, [])
  | cut (before : List Event) {after : List Event} {event : Event} {part rest : List UInt8}
      {refused : UInt8}
      {state : σ} {failure : ε} (place : events = before ++ event :: after)
      (line : lineBytes event = part ++ refused :: rest)
      (refusal : outlet.accept state refused = .error failure) :
      outlet.Wrote noted events
        (⟨(state, noted ++ (before.flatMap lineBytes ++ part)), some failure⟩,
          [.failedWrite event.tag])

theorem Outlet.wrote_emitAll (state : σ) (noted : List UInt8) (events : List Event) :
    outlet.Wrote noted events (outlet.recorded.receiver.emitAll ⟨(state, noted), none⟩ events) := by
  induction events generalizing state noted with
  | nil =>
    have nothing : outlet.Wrote noted [] _ := .whole state
    rwa [List.flatMap_nil, List.append_nil] at nothing
  | cons event rest ih =>
    rw [Receiver.emitAll_cons]
    obtain ⟨last, taken⟩ | ⟨part, refused, left, last, failure, line, refusal, taken⟩ :=
      Sink.emit_open outlet state noted event
    · have first : outlet.recorded.receiver.emit ⟨(state, noted), none⟩ event = _ := taken
      rw [first, List.nil_append]
      have others := ih last (noted ++ lineBytes event)
      generalize outlet.recorded.receiver.emitAll _ rest = result at others ⊢
      cases others with
      | whole state =>
        rw [List.append_assoc]
        exact .whole state
      | @cut before _ _ _ _ _ _ _ place line refusal =>
        rw [List.append_assoc, ← List.append_assoc (lineBytes event)]
        exact .cut (event :: before) (congrArg _ place) line refusal
    · -- The sink has failed at this event, so the others change nothing.
      have first : outlet.recorded.receiver.emit ⟨(state, noted), none⟩ event = _ := taken
      rw [first, Receiver.emitAll_failed outlet.recorded rfl]
      exact .cut [] rfl line refusal

/-! ## Outlets that never fail -/

/-- No byte is refused from a state on. -/
def Outlet.NeverFails (start : σ) : Prop :=
  ∀ bytes, (outlet.offer start bytes).2 = none

section NeverFails

variable {outlet} {start : σ}

theorem Outlet.offer_append {last : σ} {bytes : List UInt8}
    (taken : outlet.offer start bytes = (last, none)) (more : List UInt8) :
    outlet.offer start (bytes ++ more) = outlet.offer last more := by
  induction bytes generalizing start with
  | nil =>
    cases taken
    rfl
  | cons byte rest ih =>
    rw [List.cons_append, offer]
    rw [offer] at taken
    cases accepted : outlet.accept start byte with
    | error failure =>
      rw [accepted] at taken
      cases taken
    | ok next =>
      rw [accepted] at taken
      exact ih taken

theorem Outlet.NeverFails.next (neverFails : outlet.NeverFails start) {last : σ}
    {bytes : List UInt8} (taken : outlet.offer start bytes = (last, none)) :
    outlet.NeverFails last := by
  intro more
  rw [← offer_append taken]
  exact neverFails _

/-- An outlet that never fails accepts all lines. -/
theorem Outlet.NeverFails.write (neverFails : outlet.NeverFails start) (events : List Event) :
    (outlet.write start events).1.failure = none ∧ (outlet.write start events).2 = [] ∧
      outlet.accepted start events = events.flatMap lineBytes := by
  have all : ∀ noted, ∃ last, outlet.recorded.receiver.emitAll ⟨(start, noted), none⟩ events =
      (⟨(last, noted ++ events.flatMap lineBytes), none⟩, []) := by
    induction events generalizing start with
    | nil => exact fun noted => ⟨start, by rw [List.flatMap_nil, List.append_nil]; rfl⟩
    | cons event rest ih =>
      intro noted
      obtain ⟨next, plain, recorded⟩ | ⟨_, _, _, _, failure, _, _, plain, _⟩ :=
        outlet.offer_recorded start noted (lineBytes event)
      · have first : outlet.recorded.receiver.emit ⟨(start, noted), none⟩ event =
            (⟨(next, noted ++ lineBytes event), none⟩, []) := by
          simp only [receiver, Sink.emit, recorded]
        obtain ⟨last, others⟩ := ih (neverFails.next plain) (noted ++ lineBytes event)
        refine ⟨last, ?_⟩
        rw [Receiver.emitAll_cons, first, others, List.flatMap_cons, List.append_assoc]
        rfl
      · have accepted := neverFails (lineBytes event)
        rw [plain] at accepted
        cases accepted
  obtain ⟨last, recorded⟩ := all []
  have unrecorded : outlet.write start events =
      ((outlet.recorded.receiver.emitAll ⟨(start, []), none⟩ events).1.unrecorded,
        (outlet.recorded.receiver.emitAll ⟨(start, []), none⟩ events).2) :=
    Receiver.emitAll_unrecorded outlet ⟨(start, []), none⟩ events
  rw [recorded] at unrecorded
  refine ⟨congrArg (fun result => result.1.failure) unrecorded, congrArg Prod.snd unrecorded, ?_⟩
  exact congrArg (fun result => result.1.state.2) recorded

end NeverFails

theorem Storage.offer_unlimited (flushes : Bool) (written bytes : List UInt8) :
    (Storage.outlet flushes).offer ⟨written, none⟩ bytes =
      (⟨bytes.reverse ++ written, none⟩, none) := by
  induction bytes generalizing written with
  | nil => rfl
  | cons byte rest ih =>
    have first : (Storage.outlet flushes).offer ⟨written, none⟩ (byte :: rest) =
        (Storage.outlet flushes).offer ⟨byte :: written, none⟩ rest := rfl
    rw [first, ih, List.reverse_cons, List.append_assoc]
    rfl

/-- Without a limit there is always room. -/
theorem Storage.neverFails (flushes : Bool) (written : List UInt8) :
    (Storage.outlet flushes).NeverFails ⟨written, none⟩ :=
  fun bytes => congrArg Prod.snd (offer_unlimited flushes written bytes)

/-! ## Any number of bytes -/

/-- An outlet that has room for a number of bytes. -/
def Outlet.limited (failure : ε) : Outlet Nat ε where
  accept
    | 0, _ => .error failure
    | room + 1, _ => .ok room
  flush := .ok

theorem Outlet.offer_limited (failure : ε) (room : Nat) (noted bytes : List UInt8) :
    (limited failure).recorded.offer (room, noted) bytes =
      ((room - bytes.length, noted ++ bytes.take room),
        if bytes.length ≤ room then none else some failure) := by
  induction bytes generalizing room noted with
  | nil => simp [offer]
  | cons byte rest ih =>
    cases room with
    | zero => simp [offer, recorded, limited, Except.map]
    | succ room =>
      have next : (limited failure).recorded.offer (room + 1, noted) (byte :: rest) =
          (limited failure).recorded.offer (room, noted ++ [byte]) rest := rfl
      rw [next, ih]
      simp

/-- A write may fail at any byte of the lines. -/
theorem Outlet.accepted_limited (failure : ε) (room : Nat) (events : List Event) :
    (limited failure).accepted room events = (events.flatMap lineBytes).take room := by
  have all : ∀ noted, ((limited failure).recorded.receiver.emitAll ⟨(room, noted), none⟩
      events).1.state.2 = noted ++ (events.flatMap lineBytes).take room := by
    induction events generalizing room with
    | nil => simp [Receiver.emitAll]
    | cons event rest ih =>
      intro noted
      rw [Receiver.emitAll_cons]
      have offered := offer_limited failure room noted (lineBytes event)
      by_cases fits : (lineBytes event).length ≤ room
      · have first : (limited failure).recorded.receiver.emit ⟨(room, noted), none⟩ event =
            (⟨(room - (lineBytes event).length, noted ++ lineBytes event), none⟩, []) := by
          rw [if_pos fits, List.take_of_length_le fits] at offered
          simp only [receiver, Sink.emit, offered]
        rw [first, ih, List.flatMap_cons, List.take_append, List.take_of_length_le fits,
          List.append_assoc]
      · have first : (limited failure).recorded.receiver.emit ⟨(room, noted), none⟩ event =
            (⟨(room - (lineBytes event).length, noted ++ (lineBytes event).take room),
              some failure⟩, [.failedWrite event.tag]) := by
          rw [if_neg fits] at offered
          simp only [receiver, Sink.emit, offered]
        rw [first, Receiver.emitAll_failed _ rfl, List.flatMap_cons,
          List.take_append_of_le_length (Nat.le_of_not_le fits)]
  exact all []

/-! ## Runs -/

theorem Receiver.emitAll_append_notices (receiver : Receiver σ) (state : σ)
    (before after : List Event) :
    (receiver.emitAll state (before ++ after)).2 =
      (receiver.emitAll state before).2 ++
        (receiver.emitAll (receiver.emitAll state before).1 after).2 := by
  induction before generalizing state with
  | nil => rfl
  | cons event rest ih =>
    rw [List.cons_append, emitAll_cons, emitAll_cons, ih, List.append_assoc]

theorem Receiver.collector_emitAll (collected events : List Event) :
    collector.emitAll collected events = (collected ++ events, []) := by
  induction events generalizing collected with
  | nil => rw [List.append_nil]; rfl
  | cons event rest ih =>
    have first : collector.emit collected event = (collected ++ [event], []) := rfl
    rw [emitAll_cons, first, ih, List.append_assoc]
    rfl

theorem Receiver.filter_emitAll (receiver : Receiver σ) (state : σ) (events : List Event) :
    let notices := (receiver.emitAll state events).2
    notices.filter Notice.isFailedWrite = notices ∧
      notices.filter (fun notice => !notice.isFailedWrite) = [] := by
  have reports : ∀ notice ∈ (receiver.emitAll state events).2, notice.isFailedWrite = true := by
    intro notice member
    obtain ⟨tag, rfl⟩ := receiver.eq_failedWrite_of_mem_emitAll member
    rfl
  constructor
  · exact List.filter_eq_self.mpr reports
  · rw [List.filter_eq_nil_iff]
    intro notice member
    simp [reports notice member]

theorem filter_process [Host] (engine : Engine) (metrics : Metrics) (event : Event) :
    let notices := (engine.process metrics event).notices
    notices.filter Notice.isFailedWrite = [] ∧
      notices.filter (fun notice => !notice.isFailedWrite) = notices := by
  have reports : ∀ notice ∈ (engine.process metrics event).notices,
      notice.isFailedWrite = false := by
    intro notice member
    obtain ⟨token, tag, rfl⟩ | ⟨kind, tag, rfl⟩ := cases_of_mem_process member
    · rfl
    · rfl
  constructor
  · rw [List.filter_eq_nil_iff]
    intro notice member
    simp [reports notice member]
  · rw [List.filter_eq_self]
    intro notice member
    simp [reports notice member]

/-- An engine that is driven for a receiver does as one whose events are collected. The receiver is
given the events that are collected, and what it reports comes on top. -/
structure Drive.Mirrors (receiver : Receiver σ) (start : σ) (drive : Drive σ)
    (plain : Drive (List Event)) : Prop where
  engine : drive.engine = plain.engine
  metrics : drive.metrics = plain.metrics
  handed : (drive.sink, drive.notices.filter Notice.isFailedWrite) =
    receiver.emitAll start plain.sink
  others : drive.notices.filter (fun notice => !notice.isFailedWrite) = plain.notices

section Mirrors

variable {receiver : Receiver σ} {start : σ} {drive : Drive σ} {plain : Drive (List Event)}

theorem Drive.Mirrors.process [Host] (mirrors : drive.Mirrors receiver start plain)
    (event : Event) :
    (drive.process receiver event).Mirrors receiver start
      (plain.process Receiver.collector event) := by
  obtain ⟨engine, metrics, handed, others⟩ := mirrors
  obtain ⟨sink, reported⟩ := Prod.mk.inj handed
  obtain ⟨unreported, kept⟩ := filter_process plain.engine plain.metrics event
  obtain ⟨written, unwritten⟩ := receiver.filter_emitAll (receiver.emitAll start plain.sink).1
    (plain.engine.process plain.metrics event).emitted.toList
  simp only [Drive.process, engine, metrics, sink, Receiver.collector_emitAll]
  refine ⟨rfl, rfl, ?_, ?_⟩
  · simp only [List.filter_append, unreported, written, reported, List.nil_append]
    rw [← Receiver.emitAll_append, ← Receiver.emitAll_append_notices]
  · simp only [List.filter_append, kept, unwritten, others, List.append_nil]

theorem Drive.Mirrors.skip (mirrors : drive.Mirrors receiver start plain) (number : Nat) :
    (drive.skip number).Mirrors receiver start (plain.skip number) := by
  obtain ⟨engine, metrics, handed, others⟩ := mirrors
  refine ⟨engine, ?_, ?_, ?_⟩
  · simp only [Drive.skip, metrics]
  · simp [Drive.skip, Notice.isFailedWrite, ← handed]
  · simp [Drive.skip, Notice.isFailedWrite, ← others]

theorem Drive.Mirrors.handle [Host] (mirrors : drive.Mirrors receiver start plain)
    (clock : Nat → Int) (number : Nat) (line : List Char) :
    (drive.handle receiver clock number line).Mirrors receiver start
      (plain.handle Receiver.collector clock number line) := by
  unfold Drive.handle
  cases decodeLine line with
  | error fault => exact mirrors.skip number
  | ok found =>
    cases found with
    | none => exact mirrors
    | some incoming => exact mirrors.process _

theorem Drive.Mirrors.driveFrom [Host] (mirrors : drive.Mirrors receiver start plain)
    (clock : Nat → Int) (stops : Nat → Bool) (number : Nat) (lines : List (List UInt8)) :
    let driven := Stream.driveFrom receiver clock stops drive number lines
    let collected := Stream.driveFrom Receiver.collector clock stops plain number lines
    driven.2 = collected.2 ∧ driven.1.Mirrors receiver start collected.1 := by
  induction lines generalizing drive plain number with
  | nil => exact ⟨rfl, mirrors⟩
  | cons bytes rest ih =>
    simp only [Stream.driveFrom]
    split
    · exact ⟨rfl, mirrors⟩
    · cases Text.decodeUtf8? bytes with
      | none => exact ⟨rfl, mirrors⟩
      | some line => exact ih (mirrors.handle clock number line) (number + 1)

end Mirrors

/-- Nothing is accepted any more once a write has failed. -/
theorem Outlet.accepted_append_of_failed {start : σ} {events : List Event} {failure : ε}
    (failed : (outlet.recorded.write (start, []) events).1.failure = some failure)
    (later : List Event) :
    outlet.accepted start (events ++ later) = outlet.accepted start events := by
  unfold accepted write at *
  rw [Receiver.emitAll_append, Receiver.emitAll_failed outlet.recorded failed]

/-- Whatever the outlet refuses, what it has accepted is a prefix of the lines of the events. If it
refuses a byte, nothing is offered to it any more, the refusal is reported once, with the tag of the
event whose line was cut, and it is what finishing gives. A run goes on as if nothing had been
refused. -/
theorem write_prefix_of_failing_outlet [Host] (start : σ) (events : List Event) :
    let result := outlet.write start events
    let recorded := outlet.recorded.write (start, []) events
    let accepted := outlet.accepted start events
    result = (recorded.1.unrecorded, recorded.2) ∧
    accepted <+: events.flatMap lineBytes ∧
    (match result.1.failure with
      | none => accepted = events.flatMap lineBytes ∧ result.2 = [] ∧
        result.1.finish outlet = outlet.flush result.1.state
      | some failure =>
        (∃ before event after part refused rest, events = before ++ event :: after ∧
          lineBytes event = part ++ refused :: rest ∧
          accepted = before.flatMap lineBytes ++ part ∧
          outlet.accept result.1.state refused = .error failure ∧
          result.2 = [.failedWrite event.tag]) ∧
        result.1.finish outlet = .error failure ∧
        ∀ later, outlet.receiver.emitAll result.1 later = (result.1, []) ∧
          outlet.accepted start (events ++ later) = accepted) ∧
    ∀ engine metrics clock stops ended bytes,
      let driven := driveOver outlet.receiver clock stops ⟨engine, metrics, ⟨start, none⟩, []⟩ ended
        bytes
      let collected := driveOver Receiver.collector clock stops ⟨engine, metrics, [], []⟩ ended
        bytes
      driven.2 = collected.2 ∧ driven.1.metrics = collected.1.metrics ∧
        driven.1.engine = collected.1.engine ∧
        (driven.1.sink, driven.1.notices.filter Notice.isFailedWrite) =
          outlet.write start collected.1.sink ∧
        driven.1.notices.filter (fun notice => !notice.isFailedWrite) = collected.1.notices := by
  intro result recorded accepted
  have unrecorded : result = (recorded.1.unrecorded, recorded.2) :=
    Receiver.emitAll_unrecorded outlet ⟨(start, []), none⟩ events
  have wrote : outlet.Wrote [] events recorded := outlet.wrote_emitAll start [] events
  have noted : accepted = recorded.1.state.2 := rfl
  have stopped : ∀ failure, recorded.1.failure = some failure → ∀ later,
      outlet.accepted start (events ++ later) = accepted :=
    fun failure failed => outlet.accepted_append_of_failed failed
  clear_value recorded
  refine ⟨unrecorded, ?_, ?_, ?_⟩
  · rw [noted]
    cases wrote with
    | whole state => exact List.prefix_rfl
    | cut before place line refusal =>
      simp only [place, line, List.flatMap_append, List.flatMap_cons, List.nil_append,
        List.append_assoc]
      exact (List.prefix_append_right_inj _).mpr (List.prefix_append _ _)
  · rw [unrecorded, noted]
    rw [noted] at stopped
    cases wrote with
    | whole state => exact ⟨rfl, rfl, rfl⟩
    | @cut before after event part rest refused state failure place line refusal =>
      refine ⟨⟨before, event, after, part, refused, rest, place, line, rfl, refusal, rfl⟩, rfl, ?_⟩
      intro later
      exact ⟨Receiver.emitAll_failed outlet rfl later, stopped failure rfl later⟩
  · intro engine metrics clock stops ended bytes
    have start : Drive.Mirrors outlet.receiver ⟨start, none⟩ ⟨engine, metrics, ⟨start, none⟩, []⟩
        ⟨engine, metrics, [], []⟩ := ⟨rfl, rfl, rfl, rfl⟩
    obtain ⟨outcome, mirrors⟩ := start.driveFrom clock stops 1 (linesOf ended bytes)
    exact ⟨outcome, mirrors.metrics, mirrors.engine, mirrors.handed, mirrors.others⟩

/-- An outlet that refuses a byte within the second of three lines. -/
example :
    let outlet : Outlet Nat String := Outlet.limited "full"
    let events : List Event := [⟨"a", 1, []⟩, ⟨"b", 2, []⟩, ⟨"c", 3, []⟩]
    (outlet.write 39 events).2 = [.failedWrite "b"] ∧
      outlet.accepted 39 events =
        lineBytes ⟨"a", 1, []⟩ ++ Text.encodeUtf8 "\x7b\"tag\"".toList := by
  constructor
  · cbv
  · cbv

end Stream

end Recast
