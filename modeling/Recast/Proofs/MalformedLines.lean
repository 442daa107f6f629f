import Mathlib
import Recast.Proofs.LineByLine

set_option autoImplicit false

/-!
# Malformed lines

A line that decodes to no event leaves what comes of the lines around it as it is, if its bytes are
text. Bytes that are no text end the run, and nothing after them is handled.
-/

namespace Recast.Stream

variable {σ : Type} (receiver : Receiver σ) (clock : Nat → Int)

/-! ## Lines of bytes that are put together -/

/-- What the bytes of a line decode to. -/
def incomingOf? (bytes : List UInt8) : Option Incoming :=
  match Text.decodeUtf8? bytes with
  | none => none
  | some line =>
    match decodeLine line with
    | .ok found => found
    | .error _ => none

/-- Bytes after which a new line begins. -/
def EndsLine (bytes : List UInt8) : Prop :=
  bytes = [] ∨ bytes.getLast? = some lineBreak

private theorem splitFrom_cons_break (line rest : List UInt8) :
    splitFrom line (lineBreak :: rest) =
      (dropReturn line.reverse :: (splitFrom [] rest).1, (splitFrom [] rest).2) := by
  rw [splitFrom, if_pos rfl]

theorem splitFrom_ended (line front rest : List UInt8) :
    splitFrom line (front ++ lineBreak :: rest) =
      ((splitFrom line (front ++ [lineBreak])).1 ++ (splitFrom [] rest).1,
        (splitFrom [] rest).2) := by
  induction front generalizing line with
  | nil =>
    rw [List.nil_append, List.nil_append, splitFrom_cons_break, splitFrom_cons_break]
    rfl
  | cons byte front ih =>
    rw [List.cons_append, List.cons_append, splitFrom, splitFrom]
    split
    · rw [ih]
      rfl
    · exact ih (byte :: line)

private theorem last_splitFrom_ended (line front : List UInt8) :
    (splitFrom line (front ++ [lineBreak])).2 = [] := by
  rw [splitFrom_ended]
  rfl

theorem linesOf_append {front : List UInt8} (ended : EndsLine front) (rest : List UInt8) :
    linesOf true (front ++ rest) = linesOf true front ++ linesOf true rest := by
  rcases ended with rfl | ended
  · rfl
  · obtain ⟨chunk, rfl⟩ := List.getLast?_eq_some_iff.mp ended
    rw [List.append_assoc, List.singleton_append]
    unfold linesOf
    have cut := splitFrom_ended [] chunk rest
    have last := last_splitFrom_ended [] chunk
    simp only [cut, last, List.isEmpty_nil, Bool.not_true, Bool.and_false, Bool.false_eq_true,
      if_false]
    split
    · rw [List.append_assoc]
    · rfl

/-- Bytes without a line break are one line with the break that ends it. -/
theorem linesOf_line {line : List UInt8} (unbroken : lineBreak ∉ line) :
    linesOf true (line ++ [lineBreak]) = [dropReturn line] := by
  unfold linesOf
  rw [splitFrom_append unbroken, splitFrom_cons_break, List.append_nil, List.reverse_reverse]
  rfl

theorem linesOf_between {before line : List UInt8} (ended : EndsLine before)
    (unbroken : lineBreak ∉ line) (after : List UInt8) :
    linesOf true (before ++ (line ++ lineBreak :: after)) =
      linesOf true before ++ dropReturn line :: linesOf true after := by
  have closed : EndsLine (line ++ [lineBreak]) := Or.inr List.getLast?_concat
  have cut : line ++ lineBreak :: after = line ++ [lineBreak] ++ after := by simp
  rw [linesOf_append ended, cut, linesOf_append closed, linesOf_line unbroken]
  rfl

/-! ## Readable lines -/

/-- The bytes of a line are text. -/
def IsReadable (bytes : List UInt8) : Prop :=
  (Text.decodeUtf8? bytes).isSome = true

def never : Nat → Bool := fun _ => false

theorem driveFrom_append [Host] (drive : Drive σ) (number : Nat) (lines rest : List (List UInt8)) :
    driveFrom receiver clock never drive number (lines ++ rest) =
      match driveFrom receiver clock never drive number lines with
      | (after, .ok ()) =>
        driveFrom receiver clock never after (number + lines.length) rest
      | (after, .error fault) => (after, .error fault) := by
  induction lines generalizing drive number with
  | nil => rfl
  | cons bytes lines ih =>
    simp only [List.cons_append, driveFrom, never, Bool.false_eq_true, if_false]
    cases Text.decodeUtf8? bytes with
    | none => rfl
    | some line =>
      have later := ih (drive.handle receiver clock number line) (number + 1)
      rw [List.length_cons, Nat.add_comm lines.length, ← Nat.add_assoc]
      exact later

/-- A run without shutdown succeeds exactly on lines that are text. -/
theorem driveFrom_ok_iff [Host] (drive : Drive σ) (number : Nat) (lines : List (List UInt8)) :
    (driveFrom receiver clock never drive number lines).2 = .ok () ↔
      ∀ bytes ∈ lines, IsReadable bytes := by
  induction lines generalizing drive number with
  | nil => exact iff_of_true rfl nofun
  | cons bytes lines ih =>
    rw [List.forall_mem_cons]
    unfold IsReadable at ih ⊢
    simp only [driveFrom, never, Bool.false_eq_true, if_false]
    cases Text.decodeUtf8? bytes with
    | none => simp
    | some line => simpa [never] using ih (drive.handle receiver clock number line) (number + 1)

/-- A run ends at bytes that are no text. -/
theorem driveFrom_unreadable [Host] (drive : Drive σ) (number : Nat) {lines : List (List UInt8)}
    (readable : ∀ bytes ∈ lines, IsReadable bytes) {bytes : List UInt8}
    (unreadable : ¬ IsReadable bytes) (rest : List (List UInt8)) :
    driveFrom receiver clock never drive number (lines ++ bytes :: rest) =
      ((driveFrom receiver clock never drive number lines).1, .error .invalidText) := by
  have reached := (driveFrom_ok_iff receiver clock drive number lines).mpr
    readable
  have undecoded : Text.decodeUtf8? bytes = none := by
    unfold IsReadable at unreadable
    simpa using unreadable
  rw [driveFrom_append]
  generalize driveFrom receiver clock never drive number lines = run at reached ⊢
  obtain ⟨after, outcome⟩ := run
  obtain rfl : outcome = .ok () := reached
  simp only [driveFrom, never, undecoded, Bool.false_eq_true, if_false]

/-- No line is handled from the first on that is no text. -/
theorem handledLines_unreadable (stops : Nat → Bool) (number : Nat) (front : List (List UInt8))
    {bytes : List UInt8} (unreadable : ¬ IsReadable bytes) (rest : List (List UInt8)) :
    handledLines stops number (front ++ bytes :: rest) = handledLines stops number front := by
  have undecoded : Text.decodeUtf8? bytes = none := by simpa [IsReadable] using unreadable
  induction front generalizing number with
  | nil =>
    rw [List.nil_append, handledLines_cons, undecoded]
    exact ite_self _
  | cons line front ih => rw [List.cons_append, handledLines_cons, handledLines_cons, ih]

/-! ## Events of lines that carry their own time -/

/-- The event of the bytes of a line that carries its own time. -/
def ownEvent? (bytes : List UInt8) : Option Event :=
  (incomingOf? bytes).map fun incoming => incoming.toEvent 0

/-- The line decodes to no event, or to one with a time of its own. -/
def IsTimed (bytes : List UInt8) : Prop :=
  ∀ incoming, incomingOf? bytes = some incoming → incoming.time.isSome = true

private theorem eventAt?_eq_ownEvent? {bytes : List UInt8} {text : List Char}
    (decoded : Text.decodeUtf8? bytes = some text) (timed : IsTimed bytes) (number : Nat) :
    eventAt? clock (text, number) = ownEvent? bytes := by
  unfold IsTimed at timed
  unfold eventAt? ownEvent?
  unfold incomingOf? at timed ⊢
  rw [decoded] at timed ⊢
  dsimp only at timed ⊢
  cases found : decodeLine text with
  | error fault => rfl
  | ok incoming =>
    rw [found] at timed
    cases incoming with
    | none => rfl
    | some incoming =>
      obtain ⟨seconds, own⟩ := Option.isSome_iff_exists.mp (timed incoming rfl)
      simp [Incoming.toEvent, own]

private theorem filterMap_handledLines {lines : List (List UInt8)}
    (readable : ∀ bytes ∈ lines, IsReadable bytes) (timed : ∀ bytes ∈ lines, IsTimed bytes)
    (number : Nat) :
    (handledLines never number lines).filterMap (eventAt? clock) = lines.filterMap ownEvent? := by
  induction lines generalizing number with
  | nil => rfl
  | cons bytes lines ih =>
    rw [List.forall_mem_cons] at readable timed
    obtain ⟨text, decoded⟩ := Option.isSome_iff_exists.mp readable.1
    have first := eventAt?_eq_ownEvent? clock decoded timed.1 number
    have others := ih readable.2 timed.2 (number + 1)
    rw [handledLines_cons, never, if_neg Bool.false_ne_true, decoded, List.filterMap_cons,
      List.filterMap_cons, first, ← others]

/-- What a run over readable lines hands on does not depend on their numbers. -/
theorem sink_driveFrom [Host] {lines : List (List UInt8)} {engine : Engine}
    (coherent : engine.Coherent) (metrics : Metrics) (sink : σ) (notices : List Notice)
    (readable : ∀ bytes ∈ lines, IsReadable bytes) (timed : ∀ bytes ∈ lines, IsTimed bytes) :
    (driveFrom receiver clock never ⟨engine, metrics, sink, notices⟩ 1 lines).1.sink =
      (receiver.emitAll sink (engine.reformed (lines.filterMap ownEvent?))).1 := by
  rw [← filterMap_handledLines clock readable timed 1]
  exact (handles_handledLines receiver clock never coherent ⟨engine, metrics, sink, notices⟩
    coherent.continues 1 lines).sink

/-! ## A line between others -/

/-- A line that decodes to no event, put between lines that carry their own times: if its bytes are
text, the run succeeds as without it and hands on the same events. If they are not, the run ends at
it with what the lines before it give. -/
theorem driveOver_malformed_line [Host] (receiver : Receiver σ) (clock : Nat → Int)
    (outputTag : String) (settings : Settings) (fields : List (String × String))
    (removeKeys : Option RemoveKeys) (renew : Bool) (calls : List Engine.Call) (metrics : Metrics)
    (sink : σ) (notices : List Notice) {before line after : List UInt8} (ended : EndsLine before)
    (unbroken : lineBreak ∉ line) (foreign : incomingOf? (dropReturn line) = none)
    (timed : ∀ bytes ∈ linesOf true (before ++ after), IsTimed bytes) :
    let engine := (Engine.build outputTag settings fields removeKeys renew).after calls
    let runOver := driveOver receiver clock never ⟨engine, metrics, sink, notices⟩ true
    let clean := runOver (before ++ after)
    let result := runOver (before ++ (line ++ lineBreak :: after))
    clean.2 = .ok () →
      (IsReadable (dropReturn line) → result.2 = .ok () ∧ result.1.sink = clean.1.sink) ∧
        (¬ IsReadable (dropReturn line) →
          result = ((runOver before).1, .error .invalidText)) := by
  intro engine runOver clean result succeeded
  have coherent : engine.Coherent :=
    ((Engine.coherent_build outputTag settings fields removeKeys renew).continues_after
      calls).coherent
  have without := linesOf_append ended after
  have between := linesOf_between ended unbroken after
  have readable : ∀ bytes ∈ linesOf true before ++ linesOf true after, IsReadable bytes := by
    rw [← without]
    exact (driveFrom_ok_iff receiver clock _ 1 _).mp succeeded
  rw [without] at timed
  constructor
  · intro text
    have inserted : ∀ bytes ∈ linesOf true before ++ dropReturn line :: linesOf true after,
        IsReadable bytes ∧ IsTimed bytes := by
      intro bytes member
      rw [List.mem_append, List.mem_cons, or_left_comm, ← List.mem_append] at member
      rcases member with rfl | member
      · refine ⟨text, fun incoming found => ?_⟩
        rw [foreign] at found
        cases found
      · exact ⟨readable bytes member, timed bytes member⟩
    have handed := sink_driveFrom receiver clock coherent metrics sink
      notices (fun bytes member => (inserted bytes member).1)
      fun bytes member => (inserted bytes member).2
    have same := sink_driveFrom receiver clock coherent metrics sink
      notices readable timed
    have nothing : ownEvent? (dropReturn line) = none := by rw [ownEvent?, foreign]; rfl
    rw [List.filterMap_append, List.filterMap_cons_none nothing, ← List.filterMap_append, ← same,
      ← between, ← without] at handed
    refine ⟨(driveFrom_ok_iff receiver clock _ 1 _).mpr ?_, handed⟩
    rw [between]
    exact fun bytes member => (inserted bytes member).1
  · intro unreadable
    have first : ∀ bytes ∈ linesOf true before, IsReadable bytes :=
      fun bytes member => readable bytes (List.mem_append_left _ member)
    have ends := driveFrom_unreadable receiver clock
      ⟨engine, metrics, sink, notices⟩ 1 first unreadable (linesOf true after)
    rw [← between] at ends
    exact ends

/-- A line of garbage between two events is passed over, a byte that begins no character ends the
run before the second event. -/
theorem driveOver_malformed_line_between_events :
    let runWith (line : List UInt8) := driveOver Receiver.collector (fun _ => 7) never
      ⟨(Engine.build "$\x7btag\x7d" ⟨.placeholder, "h", true⟩ [] none false).after [], .zero, [],
        []⟩ true
      (Text.encodeUtf8 "[\"a\",1]\n".toList ++
        (line ++ lineBreak :: Text.encodeUtf8 "[\"b\",2]".toList))
    ((runWith [120]).2 = .ok () ∧ (runWith [120]).1.sink = [⟨"a", 1, []⟩, ⟨"b", 2, []⟩]) ∧
      (runWith [255]).2 = .error .invalidText ∧ (runWith [255]).1.sink = [⟨"a", 1, []⟩] := by
  have cut : linesOf true (Text.encodeUtf8 "[\"a\",1]\n".toList ++
      Text.encodeUtf8 "[\"b\",2]".toList) =
        [Text.encodeUtf8 "[\"a\",1]".toList, Text.encodeUtf8 "[\"b\",2]".toList] := by cbv
  have timed : ∀ bytes ∈ linesOf true (Text.encodeUtf8 "[\"a\",1]\n".toList ++
      Text.encodeUtf8 "[\"b\",2]".toList), IsTimed bytes := by
    have first : incomingOf? (Text.encodeUtf8 "[\"a\",1]".toList) = some ⟨"a", some 1, []⟩ := by cbv
    have second : incomingOf? (Text.encodeUtf8 "[\"b\",2]".toList) =
        some ⟨"b", some 2, []⟩ := by
      cbv
    rw [cut]
    intro bytes member incoming found
    simp only [List.mem_cons, List.not_mem_nil, or_false] at member
    rcases member with rfl | rfl
    · rw [first] at found
      cases found
      rfl
    · rw [second] at found
      cases found
      rfl
  have ended : EndsLine (Text.encodeUtf8 "[\"a\",1]\n".toList) := Or.inr (by cbv)
  have garbage := driveOver_malformed_line Receiver.collector (fun _ => 7) "$\x7btag\x7d"
    ⟨.placeholder, "h", true⟩ [] none false [] .zero [] [] ended
    (show lineBreak ∉ [120] by decide) (by cbv) timed (by cbv)
  have noText := driveOver_malformed_line Receiver.collector (fun _ => 7) "$\x7btag\x7d"
    ⟨.placeholder, "h", true⟩ [] none false [] .zero [] [] ended
    (show lineBreak ∉ [255] by decide) (by cbv) timed (by cbv)
  obtain ⟨succeeded, same⟩ := garbage.1 (by unfold IsReadable; cbv)
  have unreadable : ¬ IsReadable (dropReturn [255]) := by
    have undecoded : Text.decodeUtf8? (dropReturn [255]) = none := by cbv
    rw [IsReadable, undecoded]
    exact Bool.false_ne_true
  have stopped := noText.2 unreadable
  refine ⟨⟨succeeded, same.trans (by cbv)⟩, congrArg Prod.snd stopped, ?_⟩
  exact (congrArg (fun run => run.1.sink) stopped).trans (by cbv)

end Recast.Stream
