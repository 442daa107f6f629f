import Mathlib
import Recast.Proofs.FailingWrites
import Recast.Proofs.MalformedLines
import Recast.Proofs.WrittenValues

set_option autoImplicit false

/-!
# Reading written events

An event is written on a line of its own, and decoding that line gives the event back.
-/

namespace Recast

namespace Stream

/-! ## Lines -/

theorem noControl_line (event : Event) : Json.NoControl event.line :=
  Json.noControl_write event.toJson

theorem notMem_encodeUtf8_of_noControl {text : List Char} (visible : Json.NoControl text)
    {byte : UInt8} (control : byte.toNat < 0x20) : byte ∉ Text.encodeUtf8 text := by
  intro member
  obtain ⟨char, inText, inChar⟩ := List.mem_flatMap.mp member
  have code := (Text.mem_encodeChar_ascii (by omega)).mp inChar
  have large := visible char inText
  omega

theorem lineBytes_eq (event : Event) :
    lineBytes event = Text.encodeUtf8 event.line ++ [lineBreak] :=
  Text.encodeUtf8_append event.line ['\n']

/-- Each event is a line of what is written. -/
theorem linesOf_flatMap_lineBytes (events : List Event) :
    linesOf true (events.flatMap lineBytes) =
      events.map fun event => Text.encodeUtf8 event.line := by
  induction events with
  | nil => rfl
  | cons event rest ih =>
    have unbroken : lineBreak ∉ Text.encodeUtf8 event.line :=
      notMem_encodeUtf8_of_noControl (noControl_line event) (by decide)
    have noReturn : (13 : UInt8) ∉ Text.encodeUtf8 event.line :=
      notMem_encodeUtf8_of_noControl (noControl_line event) (by decide)
    have kept : dropReturn (Text.encodeUtf8 event.line) = Text.encodeUtf8 event.line := by
      unfold dropReturn
      exact if_neg fun last => noReturn (List.mem_of_getLast? last)
    have ended : EndsLine (Text.encodeUtf8 event.line ++ [lineBreak]) :=
      Or.inr List.getLast?_concat
    rw [List.flatMap_cons, lineBytes_eq, linesOf_append ended, linesOf_line unbroken, kept, ih]
    rfl

theorem splitAt_line {line : List Char} (unbroken : '\n' ∉ line) (rest : List Char) :
    Text.splitAt '\n' (line ++ '\n' :: rest) = line :: Text.splitAt '\n' rest := by
  induction line with
  | nil => simp [Text.splitAt]
  | cons char line ih =>
    obtain ⟨other, others⟩ := not_or.mp (mt List.mem_cons.mpr unbroken)
    simp [Text.splitAt, Ne.symm other, ih others]

theorem textLines_flatMap {lines : List (List Char)} (unbroken : ∀ line ∈ lines, '\n' ∉ line) :
    textLines (lines.flatMap fun line => line ++ ['\n']) = lines := by
  have fields : Text.splitAt '\n' (lines.flatMap fun line => line ++ ['\n']) = lines ++ [[]] := by
    induction lines with
    | nil => rfl
    | cons line rest ih =>
      rw [List.forall_mem_cons] at unbroken
      rw [List.flatMap_cons, List.append_assoc, List.singleton_append, splitAt_line unbroken.1,
        ih unbroken.2]
      rfl
  simp [textLines, fields]

/-! ## One event -/

/-- An event whose record can be written and read back: its time is an integer of 64 bits, and its
record is exact and leaves room for the braces of the event. -/
structure IsExact (event : Event) : Prop where
  earliest : -(Json.maxSigned + 1) ≤ event.time
  latest : event.time ≤ Json.maxSigned
  record : (Json.Value.object event.record).IsExact
  shallow : (Json.Value.object event.record).nesting ≤ Json.maxDepth - 1

/-- A member that is read: its key, after the opening quote, and its value. -/
def memberText (key : String) (value : List Char) : List Char :=
  key.toList.flatMap Json.escapeChar ++ '"' :: ':' :: value

theorem line_eq (event : Event) :
    event.line = '{' :: '"' :: memberText "tag" (Json.quoted event.tag.toList ++ ',' :: '"' ::
      memberText "time" (Decimal.intText event.time ++ ',' :: '"' ::
        memberText "record" ((Json.Value.object event.record).write ++ ['}']))) := by
  simp [Event.line, Event.toJson, memberText, Json.Value.write, Json.writeEntries,
    Json.writeMoreEntries, Json.quoted]

theorem readQuoted_memberText (key : String) (value : List Char) :
    Json.readQuoted (memberText key value) = .ok (key.toList, ':' :: value) :=
  Json.readQuoted_escaped key.toList (':' :: value)

section Members

variable {fuel : Nat} {members : Members} {rest : List Char}

theorem readTag_quoted (tag : String) :
    readTag (Json.quoted tag.toList ++ rest) = .ok (tag, rest) := by
  have back := Json.readQuoted_escaped tag.toList rest
  simp [readTag, Json.quoted, Json.skipBlanks_cons, Json.isJsonBlank, back, Except.map]

theorem readTime_digit {char : Char} (digit : char.isDigit = true) :
    readTime (char :: rest) = (Json.readNumber false (char :: rest)).bind secondsOf := by
  have other : ∀ sign : Char, sign.isDigit = false → char ≠ sign :=
    fun _ noDigit => Json.ne_of_isDigit digit noDigit
  simp [readTime, Json.skipBlanks_cons (Json.isJsonBlank_of_isDigit digit), digit, other 'n' rfl,
    other '-' rfl]

theorem readTime_intText {time : Int} (earliest : -(Json.maxSigned + 1) ≤ time)
    (latest : time ≤ Json.maxSigned) (stops : Json.StopsNumber rest) :
    readTime (Decimal.intText time ++ rest) = .ok (some time, rest) := by
  cases time with
  | ofNat seconds =>
    have fits : seconds ≤ Json.maxUnsigned := by
      simp only [Json.maxSigned, Json.maxUnsigned, Int.ofNat_eq_natCast] at latest ⊢
      omega
    have back := Json.readNumber_natText false fits stops
    obtain ⟨digit, others, written, isDigit⟩ := Decimal.natText_eq_cons seconds
    simp only [Int.ofNat_eq_natCast] at latest
    simp only [Decimal.intText, written, List.cons_append] at back ⊢
    simp [readTime_digit isDigit, back, Json.wholeNumber, Except.map, Except.bind, secondsOf,
      latest]
  | negSucc seconds =>
    have small : ¬ Json.maxSigned + 1 < seconds + 1 := by omega
    have fits : seconds + 1 ≤ Json.maxUnsigned := by
      simp only [Json.maxSigned, Json.maxUnsigned] at small ⊢
      omega
    have back := Json.readNumber_natText true fits stops
    have signed : -1 ≤ (Json.maxSigned : Int) + seconds := by omega
    simp [Decimal.intText, readTime, Json.skipBlanks_cons, Json.isJsonBlank, back,
      Json.wholeNumber, small, Except.map, Except.bind, secondsOf, Int.negSucc_eq, signed]

theorem readRecord_write {record : Record} (exact : (Json.Value.object record).IsExact)
    (shallow : (Json.Value.object record).nesting ≤ recordRoom + 1)
    (enough : 3 * ((Json.Value.object record).write ++ rest).length ≤ fuel) :
    readRecord fuel ((Json.Value.object record).write ++ rest) = .ok (record, rest) := by
  have back : Json.readEntries fuel recordRoom (Json.writeEntries record ++ '}' :: rest) =
      .ok (record, rest) := by
    refine Json.readEntries_write record exact.2 (Nat.le_of_succ_le_succ shallow) ?_
    simp only [Json.Value.write, List.length_append, List.length_cons] at enough ⊢
    omega
  simp [readRecord, Json.Value.write, Json.skipBlanks_cons, Json.isJsonBlank, back, Except.map,
    Assoc.ofPairs_eq_self exact.1]

theorem readMember_tag (fresh : members.tag = none) {tag : String} {value : List Char}
    (found : readTag value = .ok (tag, rest)) :
    readMember fuel members (memberText "tag" value) =
      .ok ({ members with tag := some tag }, rest) := by
  have colon : Json.readColon (':' :: value) = .ok value := rfl
  simp [readMember, readQuoted_memberText, fresh, colon, found, bind, Except.bind]

theorem readMember_time (fresh : members.time = none) {time : Option Int} {value : List Char}
    (found : readTime value = .ok (time, rest)) :
    readMember fuel members (memberText "time" value) =
      .ok ({ members with time := some time }, rest) := by
  have colon : Json.readColon (':' :: value) = .ok value := rfl
  simp [readMember, readQuoted_memberText, fresh, colon, found, bind, Except.bind]

theorem readMember_record (fresh : members.record = none) {record : Record} {value : List Char}
    (found : readRecord fuel value = .ok (record, rest)) :
    readMember fuel members (memberText "record" value) =
      .ok ({ members with record := some record }, rest) := by
  have colon : Json.readColon (':' :: value) = .ok value := rfl
  simp [readMember, readQuoted_memberText, fresh, colon, found, bind, Except.bind]

/-- One member among others, from its comma or from the start on. -/
theorem readMembers_next {input : List Char} {after : Members}
    (member : readMember fuel members input = .ok (after, rest)) :
    readMembers (fuel + 1) true members ('"' :: input) = readMembers fuel false after rest ∧
      readMembers (fuel + 1) false members (',' :: '"' :: input) =
        readMembers fuel false after rest := by
  constructor <;>
    simp [readMembers, Json.skipBlanks_cons, Json.isJsonBlank, member, bind, Except.bind]

end Members

theorem readMembers_line {event : Event} (exact : IsExact event) {fuel : Nat}
    (enough : 3 * event.line.length + 1 ≤ fuel) :
    readMembers fuel true ⟨none, none, none⟩ event.line.tail =
      .ok (⟨some event.tag, some (some event.time), some event.record⟩, []) := by
  rw [line_eq] at enough ⊢
  obtain ⟨fuel, rfl⟩ : ∃ left, fuel = left + 4 := Nat.exists_eq_add_of_le' (by
    simp only [List.length_cons] at enough
    omega)
  have tag : ∀ rest, readTag (Json.quoted event.tag.toList ++ rest) = .ok (event.tag, rest) :=
    fun _ => readTag_quoted event.tag
  have time : ∀ rest, readTime (Decimal.intText event.time ++ ',' :: rest) =
      .ok (some event.time, ',' :: rest) :=
    fun rest => readTime_intText exact.earliest exact.latest (.cons rfl (by decide) rfl rest)
  have record : readRecord (fuel + 1) ((Json.Value.object event.record).write ++ ['}']) =
      .ok (event.record, ['}']) := by
    refine readRecord_write exact.record exact.shallow ?_
    simp only [memberText, List.length_cons, List.length_append] at enough ⊢
    omega
  rw [List.tail_cons, (readMembers_next (readMember_tag rfl (tag _))).1,
    (readMembers_next (readMember_time rfl (time _))).2,
    (readMembers_next (readMember_record rfl record)).2]
  rfl

/-- Blanks neither begin nor end the line of an event. -/
theorem trim_line (event : Event) : Text.trim event.line = event.line := by
  obtain ⟨inner, braces⟩ : ∃ inner, event.line = '{' :: (inner ++ ['}']) := ⟨_, rfl⟩
  rw [braces]
  simp [Text.trim, Text.trimLeft, Text.trimRight, Text.isBlank]

/-- The line of an event decodes to the event. -/
theorem decodeLine_line {event : Event} (exact : IsExact event) :
    decodeLine event.line = .ok (some ⟨event.tag, some event.time, event.record⟩) := by
  have enough : 3 * event.line.length + 1 ≤ Json.fuelFor event.line := by
    unfold Json.fuelFor
    omega
  have back := readMembers_line exact enough
  obtain ⟨members, line⟩ : ∃ members, event.line = '{' :: members := ⟨_, rfl⟩
  rw [line, List.tail_cons] at back
  have incoming : readIncoming event.line =
      .ok (⟨event.tag, some event.time, event.record⟩, []) := by
    rw [line]
    simp [readIncoming, Json.skipBlanks_cons, Json.isJsonBlank, back, Members.toIncoming, bind,
      Except.bind]
  have ends : Json.readEnd [] = .ok () := rfl
  have filled : event.line.isEmpty = false := by rw [line]; rfl
  simp [decodeLine, trim_line, filled, incoming, ends, bind, Except.bind]

/-- Events that are written to an outlet which never fails come back: each is a line of the output,
and decoding that line gives it back, whatever time the clock has. -/
theorem decode_written_events {σ ε : Type} {outlet : Outlet σ ε} {start : σ}
    (neverFails : outlet.NeverFails start) {events : List Event}
    (exact : ∀ event ∈ events, IsExact event) :
    let output := outlet.accepted start events
    (outlet.write start events).1.failure = none ∧ (outlet.write start events).2 = [] ∧
      ∃ text, output = Text.encodeUtf8 text ∧
        linesOf true output = (textLines text).map Text.encodeUtf8 ∧
        (textLines text).length = events.length ∧
        ∀ now, (textLines text).map (fun line =>
          (decodeLine line).map (Option.map fun incoming => incoming.toEvent now)) =
            events.map fun event => .ok (some event) := by
  obtain ⟨succeeded, quiet, written⟩ := neverFails.write events
  have unbroken : ∀ line ∈ events.map Event.line, '\n' ∉ line := by
    intro line member breaks
    obtain ⟨event, _, rfl⟩ := List.mem_map.mp member
    exact absurd (noControl_line event '\n' breaks) (by decide)
  have lines := textLines_flatMap unbroken
  have text : events.flatMap lineBytes =
      Text.encodeUtf8 ((events.map Event.line).flatMap fun line => line ++ ['\n']) := by
    rw [Text.encodeUtf8, List.flatMap_assoc, List.flatMap_map]
    rfl
  refine ⟨succeeded, quiet, _, written.trans text, ?_, ?_, ?_⟩
  · rw [written, linesOf_flatMap_lineBytes, lines, List.map_map]
    rfl
  · rw [lines, List.length_map]
  · intro now
    rw [lines, List.map_map]
    refine List.map_congr_left fun event member => ?_
    simp [decodeLine_line (exact event member), Except.map, Incoming.toEvent]

/-- Two events with what JSON has to escape in a tag, a key and a text, and with integers at both
ends of 64 bits. -/
theorem decode_written_two_events :
    let events : List Event :=
      [⟨"a\n\"b\\", -9223372036854775808, [("\x01\t", .int 18446744073709551615)]⟩,
        ⟨"", 9223372036854775807, [("k", .array [.int (-9223372036854775808), .object []]),
          ("é", .text "\r\n\x7b\x7d")]⟩]
    (Storage.outlet true).NeverFails ⟨[], none⟩ ∧ (∀ event ∈ events, IsExact event) ∧
      ∃ text, (Storage.outlet true).accepted ⟨[], none⟩ events = Text.encodeUtf8 text ∧
        (textLines text).length = 2 ∧
        (textLines text).map (fun line =>
          (decodeLine line).map (Option.map fun incoming => incoming.toEvent 7)) =
            events.map fun event => .ok (some event) := by
  intro events
  have exact : ∀ event ∈ events, IsExact event := by
    simp only [events, List.forall_mem_cons, List.not_mem_nil, false_implies, implies_true,
      and_true]
    constructor
    · constructor <;>
        simp [Json.Value.IsExact, Json.EntriesExact, Json.Fits64, Json.Value.nesting,
          Json.entriesNesting, Json.maxSigned, Json.maxUnsigned, Json.maxDepth, Assoc.keys]
    · constructor <;>
        simp [Json.Value.IsExact, Json.ItemsExact, Json.EntriesExact, Json.Fits64,
          Json.Value.nesting, Json.itemsNesting, Json.entriesNesting, Json.maxSigned,
          Json.maxUnsigned, Json.maxDepth, Assoc.keys]
  have neverFails := Storage.neverFails true []
  obtain ⟨_, _, text, output, _, count, back⟩ := decode_written_events neverFails exact
  exact ⟨neverFails, exact, text, output, count, back 7⟩

end Stream

end Recast
