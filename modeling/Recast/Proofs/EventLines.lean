import Recast.Proofs.FieldOrder
import Recast.Proofs.SkippedValues
import Recast.Proofs.WrittenEvents

set_option autoImplicit false

/-!
# Lines that are events

A line is an event exactly if it is a JSON object of a tag and perhaps a time and a record, among
other members, or an array of these in order.
-/

namespace Recast.Stream

open Json (Blanks Series Tail Entry IsValue IsSkipped StopsNumber exact)

/-- Room for nesting in the values of an event. -/
def valueRoom : Nat := Json.maxDepth - 1

/-! ## What a line says -/

/-- What a member of an event object says. -/
inductive Member where
  | tag (tag : String)
  | time (time : Option Int)
  | record (record : Record)
  | other

namespace Member

def tag? : Member → Option String
  | .tag text => some text
  | _ => none

def time? : Member → Option (Option Int)
  | .time seconds => some seconds
  | _ => none

def record? : Member → Option Record
  | .record fields => some fields
  | _ => none

end Member

/-- A time is null, or an integer of 64 bits with a sign. -/
inductive IsTime : Json.Value → Option Int → Prop where
  | none : IsTime .null none
  | seconds {seconds : Int} (earliest : -(Json.maxSigned + 1) ≤ seconds)
      (latest : seconds ≤ Json.maxSigned) : IsTime (.int seconds) (some seconds)

/-- What a value says under a key that has a meaning. -/
inductive Meaning : String → Json.Value → Member → Prop where
  | tag (tag : String) : Meaning "tag" (.text tag) (.tag tag)
  | time {value : Json.Value} {time : Option Int} (isTime : IsTime value time) :
      Meaning "time" value (.time time)
  | record (record : Record) : Meaning "record" (.object record) (.record record)

/-- A member of an event object. The value under a key without a meaning is ignored. -/
inductive IsMember : List Char → Member → List Char → Prop where
  | known {input rest : List Char} {key : String} {value : Json.Value} {member : Member}
      (found : Entry exact.Key (IsValue exact valueRoom) input (key, value) rest)
      (meaning : Meaning key value member) : IsMember input member rest
  | other {input rest : List Char} {key : String} {value : Unit}
      (found : Entry exact.Key IsSkipped input (key, value) rest)
      (unknown : key ∉ ["tag", "time", "record"]) : IsMember input .other rest

/-- The event that members describe: there is one tag, and at most one time and record. -/
structure Describe (members : List Member) (incoming : Incoming) : Prop where
  tag : members.filterMap Member.tag? = [incoming.tag]
  time : members.filterMap Member.time? = [incoming.time] ∨
    members.filterMap Member.time? = [] ∧ incoming.time = none
  record : members.filterMap Member.record? = [incoming.record] ∨
    members.filterMap Member.record? = [] ∧ incoming.record = []

/-- The event that values in order describe. -/
inductive InOrder : List Json.Value → Incoming → Prop where
  | tag (tag : String) : InOrder [.text tag] ⟨tag, none, []⟩
  | time (tag : String) {value : Json.Value} {time : Option Int} (isTime : IsTime value time) :
      InOrder [.text tag, value] ⟨tag, time, []⟩
  | record (tag : String) {value : Json.Value} {time : Option Int} (isTime : IsTime value time)
      (record : Record) : InOrder [.text tag, value, .object record] ⟨tag, time, record⟩

/-- A line that is one object and describes an event by its members. -/
def IsObjectLine (line : List Char) (incoming : Incoming) : Prop :=
  ∃ front members rest, Blanks line ('{' :: front) ∧ Series IsMember '}' front members rest ∧
    Blanks rest [] ∧ Describe members incoming

/-- A line that is one array and describes an event by its items. -/
def IsArrayLine (line : List Char) (incoming : Incoming) : Prop :=
  ∃ front values rest, Blanks line ('[' :: front) ∧
    Series (IsValue exact valueRoom) ']' front values rest ∧ Blanks rest [] ∧
    InOrder values incoming

/-- The members so far and one more; each may come once. -/
def Members.add? (members : Members) : Member → Option Members
  | .tag tag => if members.tag.isSome then none else some { members with tag := some tag }
  | .time time => if members.time.isSome then none else some { members with time := some time }
  | .record record =>
    if members.record.isSome then none else some { members with record := some record }
  | .other => some members

/-! ## Tags, times and records -/

section Values

variable {fuel room : Nat} {input rest : List Char}

theorem readTag_eq_ok_iff {tag : String} :
    readTag input = .ok (tag, rest) ↔ IsValue exact room input (.text tag) rest := by
  rw [Json.isValue_iff_isWritten]
  constructor
  · intro read
    unfold readTag at read
    split at read
    next left =>
      obtain ⟨⟨content, last⟩, quoted, same⟩ := map_eq_ok_iff.mp read
      cases same
      exact ⟨_, Json.blanks_of_skipBlanks left, Json.quoted_ofList quoted⟩
    next => cases read
  · rintro ⟨quoted, blanks, found⟩
    have left := blanks.first rfl
    simp [readTag, left, Json.readQuoted_eq_ok_iff.mpr found, Except.map]

theorem secondsOf_eq_ok_iff {number : Json.Number} {last : List Char} {time : Option Int} :
    secondsOf (number, last) = .ok (time, rest) ↔
      ∃ seconds, number = .int seconds ∧ seconds ≤ Json.maxSigned ∧ time = some seconds ∧
        last = rest := by
  unfold secondsOf
  cases number with
  | float => simp
  | int seconds =>
    by_cases latest : seconds ≤ Json.maxSigned
    · simp [latest, eq_comm]
    · simp [latest]

theorem neg_le_of_value? {negative : Bool} {numeral : Json.Numeral} {seconds : Int}
    (meant : numeral.value? negative = some (.int seconds)) :
    -(Json.maxSigned + 1) ≤ seconds := by
  obtain ⟨_, _, range⟩ := Json.Numeral.value?_eq_int_iff.mp meant
  cases negative with
  | false =>
    obtain ⟨_, rfl⟩ := range
    omega
  | true =>
    obtain ⟨_, _, rfl⟩ := range
    omega

theorem isTime_of_seconds (negative : Bool) (front : List Char) {time : Option Int}
    (blanks : Blanks input (if negative then '-' :: front else front))
    (read : (Json.readNumber negative front).bind secondsOf = .ok (time, rest)) :
    ∃ value, IsValue exact room input value rest ∧ IsTime value time := by
  obtain ⟨⟨number, last⟩, digits, read⟩ := bind_eq_ok_iff.mp read
  obtain ⟨seconds, rfl, latest, rfl, rfl⟩ := secondsOf_eq_ok_iff.mp read
  obtain ⟨numeral, found, meant⟩ := Json.unsigned_of_readNumber digits
  exact ⟨.int seconds, Json.IsNumber.isValue ⟨negative, front, numeral, blanks, found, meant⟩,
    .seconds (neg_le_of_value? meant) latest⟩

theorem isTime_of_readTime {time : Option Int} (read : readTime input = .ok (time, rest)) :
    ∃ value, IsValue exact room input value rest ∧ IsTime value time := by
  unfold readTime at read
  split at read
  next left =>
    obtain ⟨rfl, rfl⟩ := Json.map_readWord_eq_ok_iff.mp read
    exact ⟨.null, Json.isValue_iff_isWritten.mpr (Json.blanks_of_skipBlanks left), .none⟩
  next front left => exact isTime_of_seconds true front (Json.blanks_of_skipBlanks left) read
  next left =>
    split at read
    next => exact isTime_of_seconds false _ (Json.blanks_of_skipBlanks left) read
    next => cases read
  next => cases read

theorem readTime_skipBlanks (input : List Char) :
    readTime (Json.skipBlanks input) = readTime input := by
  simp [readTime]

theorem IsTime.readTime_eq {value : Json.Value} {time : Option Int}
    (found : IsValue exact room input value rest) (isTime : IsTime value time)
    (stops : StopsNumber rest) : readTime input = .ok (time, rest) := by
  rw [Json.isValue_iff_isWritten] at found
  cases isTime with
  | none =>
    have left := found.first rfl
    simp only [readTime, left]
    exact Json.map_readWord_eq_ok_iff.mpr ⟨rfl, rfl⟩
  | @seconds number earliest latest =>
    obtain ⟨negative, front, numeral, blanks, found, meant⟩ := found
    have read := found.readNumber_eq stops meant
    have seconds : (Json.readNumber negative front).bind secondsOf = .ok (some number, rest) :=
      bind_eq_ok_iff.mpr ⟨_, read, secondsOf_eq_ok_iff.mpr ⟨number, rfl, latest, rfl, rfl⟩⟩
    rw [← readTime_skipBlanks]
    cases negative with
    | false =>
      obtain ⟨_, digit, others, rfl, isDigit⟩ := found.shorter
      rw [blanks.first (Json.isJsonBlank_of_isDigit isDigit), readTime_digit isDigit, seconds]
    | true =>
      rw [blanks.first rfl]
      exact seconds

theorem isValue_of_readRecord {record : Record}
    (read : readRecord fuel input = .ok (record, rest)) :
    IsValue exact valueRoom input (.object record) rest := by
  unfold readRecord at read
  split at read
  next front left =>
    obtain ⟨⟨pairs, last⟩, entries, same⟩ := map_eq_ok_iff.mp read
    cases same
    exact Json.isValue_iff_isWritten.mpr ⟨recordRoom, front, pairs, rfl,
      Json.blanks_of_skipBlanks left, Json.series_of_readEntries fuel entries, rfl⟩
  next => cases read

theorem readRecord_eq {record : Record}
    (found : IsValue exact valueRoom input (.object record) rest)
    (enough : 3 * input.length ≤ fuel) : readRecord fuel input = .ok (record, rest) := by
  obtain ⟨lower, front, pairs, room, blanks, series, rfl⟩ := Json.isValue_iff_isWritten.mp found
  have same : recordRoom = lower := Nat.succ.inj room
  have left := blanks.first rfl
  have length := blanks.length_le
  simp only [List.length_cons] at length
  have entries := series.readEntries_eq (Json.allRead lower) (show _ ≤ fuel by omega)
  simp [readRecord, left, same, entries, Except.map]

end Values

/-! ## Members -/

section Members

variable {fuel : Nat} {input rest : List Char} {members after : Members}

theorem IsMember.length_lt {member : Member} (found : IsMember input member rest) :
    rest.length < input.length := by
  cases found with
  | known found =>
    exact found.length_lt Json.Quoted.length_lt fun value => (value.front Json.exact_isProper).1
  | other found => exact found.length_lt Json.Quoted.length_lt IsSkipped.length_lt

/-- What is read as a member is one, and it comes for the first time. -/
theorem isMember_of_readMember {quoted : List Char} (quote : Blanks input ('"' :: quoted))
    (read : readMember fuel members quoted = .ok (after, rest)) :
    ∃ member, IsMember input member rest ∧ members.add? member = some after := by
  obtain ⟨⟨key, behind⟩, name, read⟩ := bind_eq_ok_iff.mp read
  have name : exact.Key quoted (String.ofList key) behind := Json.quoted_ofList name
  dsimp only at read
  split at read
  next isTag =>
    subst isTag
    split at read
    next => cases read
    next fresh =>
      obtain ⟨front, colon, read⟩ := bind_eq_ok_iff.mp read
      obtain ⟨⟨tag, last⟩, value, same⟩ := bind_eq_ok_iff.mp read
      cases same
      exact ⟨.tag tag, .known (.pair quote name (Json.readColon_eq_ok_iff.mp colon)
        (readTag_eq_ok_iff.mp value)) (.tag tag), if_neg fresh⟩
  next =>
  split at read
  next isTime =>
    subst isTime
    split at read
    next => cases read
    next fresh =>
      obtain ⟨front, colon, read⟩ := bind_eq_ok_iff.mp read
      obtain ⟨⟨time, last⟩, value, same⟩ := bind_eq_ok_iff.mp read
      cases same
      obtain ⟨value, found, isTime⟩ := isTime_of_readTime value
      exact ⟨.time time, .known (.pair quote name (Json.readColon_eq_ok_iff.mp colon) found)
        (.time isTime), if_neg fresh⟩
  next =>
  split at read
  next isRecord =>
    subst isRecord
    split at read
    next => cases read
    next fresh =>
      obtain ⟨front, colon, read⟩ := bind_eq_ok_iff.mp read
      obtain ⟨⟨record, last⟩, value, same⟩ := bind_eq_ok_iff.mp read
      cases same
      exact ⟨.record record, .known (.pair quote name (Json.readColon_eq_ok_iff.mp colon)
        (isValue_of_readRecord value)) (.record record), if_neg fresh⟩
  next noTag noTime noRecord =>
    obtain ⟨front, colon, read⟩ := bind_eq_ok_iff.mp read
    obtain ⟨last, value, same⟩ := bind_eq_ok_iff.mp read
    cases same
    have unknown : String.ofList key ∉ ["tag", "time", "record"] := by
      simpa [String.ofList_eq] using ⟨noTag, noTime, noRecord⟩
    exact ⟨.other, .other (.pair quote name (Json.readColon_eq_ok_iff.mp colon)
      (Json.isSkipped_of_skipValue value)) unknown, rfl⟩

/-- A member that comes for the first time is read. -/
theorem IsMember.readMember_eq {member : Member} (found : IsMember input member rest)
    (added : members.add? member = some after) (stops : StopsNumber rest)
    (enough : 3 * input.length ≤ fuel) :
    ∃ quoted, Blanks input ('"' :: quoted) ∧
      readMember fuel members quoted = .ok (after, rest) := by
  cases found with
  | known found meaning =>
    obtain ⟨quote, key, colon, value⟩ := found
    refine ⟨_, quote, ?_⟩
    have quoted := Json.readQuoted_eq_ok_iff.mpr key
    have behind := Json.readColon_eq_ok_iff.mpr colon
    cases meaning with
    | tag tag =>
      obtain ⟨fresh, ⟨⟩⟩ := Option.ite_none_left_eq_some.mp added
      simp [readMember, quoted, behind, fresh, readTag_eq_ok_iff.mpr value, bind, Except.bind]
    | time isTime =>
      obtain ⟨fresh, ⟨⟩⟩ := Option.ite_none_left_eq_some.mp added
      simp [readMember, quoted, behind, fresh, isTime.readTime_eq value stops, bind, Except.bind]
    | record record =>
      obtain ⟨fresh, ⟨⟩⟩ := Option.ite_none_left_eq_some.mp added
      have lengths := And.intro quote.length_le colon.length_le
      have shorter := key.length_lt
      simp only [List.length_cons] at lengths
      have fields := readRecord_eq value (show _ ≤ fuel by omega)
      simp [readMember, quoted, behind, fresh, fields, bind, Except.bind]
  | @other _ name _ found unknown =>
    obtain ⟨quote, key, colon, value⟩ := found
    refine ⟨_, quote, ?_⟩
    cases added
    have quoted := Json.readQuoted_eq_ok_iff.mpr key
    have behind := Json.readColon_eq_ok_iff.mpr colon
    have lengths := And.intro quote.length_le colon.length_le
    have shorter := Json.Quoted.length_lt key
    simp only [List.length_cons] at lengths
    have skipped := value.skipValue_eq stops (show _ ≤ fuel by omega)
    have others : name.toList ≠ ['t', 'a', 'g'] ∧ name.toList ≠ ['t', 'i', 'm', 'e'] ∧
        name.toList ≠ ['r', 'e', 'c', 'o', 'r', 'd'] := by
      simpa [← String.toList_inj] using unknown
    simp [readMember, quoted, behind, others, skipped, bind, Except.bind]

theorem tail_of_readMembers (read : readMembers fuel false members input = .ok (after, rest)) :
    ∃ said, Tail IsMember '}' input said rest ∧ said.foldlM Members.add? members = some after := by
  induction fuel generalizing members input with
  | zero => cases read
  | succ fuel ih =>
    unfold readMembers at read
    split at read
    next => cases read
    next left =>
      cases read
      exact ⟨[], .close (Json.blanks_of_skipBlanks left), rfl⟩
    next left =>
      simp only [Bool.false_eq_true, if_false] at read
      split at read
      next => cases read
      next quote =>
        obtain ⟨⟨next, middle⟩, first, read⟩ := bind_eq_ok_iff.mp read
        obtain ⟨member, found, added⟩ :=
          isMember_of_readMember (Json.blanks_of_skipBlanks quote) first
        obtain ⟨said, others, run⟩ := ih read
        exact ⟨member :: said, .more (Json.blanks_of_skipBlanks left) found others,
          by simpa [List.foldlM_cons, added] using run⟩
      next => cases read
    next => cases read
    next => cases read

/-- What is read as members are members, each of which comes for the first time. -/
theorem series_of_readMembers (read : readMembers fuel true members input = .ok (after, rest)) :
    ∃ said, Series IsMember '}' input said rest ∧
      said.foldlM Members.add? members = some after := by
  cases fuel with
  | zero => cases read
  | succ fuel =>
    unfold readMembers at read
    split at read
    next => cases read
    next left =>
      cases read
      exact ⟨[], .empty (Json.blanks_of_skipBlanks left), rfl⟩
    next => cases read
    next left =>
      obtain ⟨⟨next, middle⟩, first, read⟩ := bind_eq_ok_iff.mp read
      obtain ⟨member, found, added⟩ := isMember_of_readMember (Json.blanks_of_skipBlanks left) first
      obtain ⟨said, others, run⟩ := tail_of_readMembers read
      exact ⟨member :: said, .filled found others, by simpa [List.foldlM_cons, added] using run⟩
    next => cases read

theorem readMembers_tail {said : List Member} (tail : Tail IsMember '}' input said rest)
    (run : said.foldlM Members.add? members = some after) (enough : 3 * input.length + 1 ≤ fuel) :
    readMembers fuel false members input = .ok (after, rest) := by
  induction tail generalizing members fuel with
  | close bracket =>
    obtain ⟨fuel, rfl⟩ := Nat.exists_eq_add_one.mpr (Nat.zero_lt_of_lt enough)
    cases run
    simp [readMembers, bracket.first rfl]
  | more comma found others ih =>
    obtain ⟨fuel, rfl⟩ := Nat.exists_eq_add_one.mpr (Nat.zero_lt_of_lt enough)
    rw [List.foldlM_cons] at run
    obtain ⟨next, added, run⟩ := Option.bind_eq_some_iff.mp run
    have length := comma.length_le
    have shorter := found.length_lt
    simp only [List.length_cons] at length
    obtain ⟨quoted, quote, first⟩ := found.readMember_eq added (others.stopsNumber (.inr rfl))
      (show _ ≤ fuel by omega)
    have behind := ih run (show _ ≤ fuel by omega)
    simp [readMembers, comma.first rfl, quote.first rfl, first, behind, bind, Except.bind]

/-- Members that each come for the first time are read. -/
theorem readMembers_series {said : List Member} (series : Series IsMember '}' input said rest)
    (run : said.foldlM Members.add? members = some after) (enough : 3 * input.length + 1 ≤ fuel) :
    readMembers fuel true members input = .ok (after, rest) := by
  obtain ⟨fuel, rfl⟩ := Nat.exists_eq_add_one.mpr (Nat.zero_lt_of_lt enough)
  cases series with
  | empty bracket =>
    cases run
    simp [readMembers, bracket.first rfl]
  | filled found others =>
    rw [List.foldlM_cons] at run
    obtain ⟨next, added, run⟩ := Option.bind_eq_some_iff.mp run
    have shorter := found.length_lt
    obtain ⟨quoted, quote, first⟩ := found.readMember_eq added (others.stopsNumber (.inr rfl))
      (show _ ≤ fuel by omega)
    have behind := readMembers_tail others run (show _ ≤ fuel by omega)
    simp [readMembers, quote.first rfl, first, behind, bind, Except.bind]

end Members

/-! ## The event of all members -/

theorem toList_eq_toList_iff {α : Type} {slot after : Option α} :
    after.toList = slot.toList ↔ after = slot := by
  cases slot <;> cases after <;> simp

theorem toList_eq_concat_iff {α : Type} {slot after : Option α} {value : α} :
    after.toList = slot.toList ++ [value] ↔ slot = none ∧ after = some value := by
  cases slot <;> cases after <;> simp

theorem add?_eq_some_iff {members after : Members} {member : Member} :
    members.add? member = some after ↔
      after.tag.toList = members.tag.toList ++ member.tag?.toList ∧
      after.time.toList = members.time.toList ++ member.time?.toList ∧
      after.record.toList = members.record.toList ++ member.record?.toList := by
  obtain ⟨tag, time, record⟩ := members
  obtain ⟨tag', time', record'⟩ := after
  cases member <;>
    simp only [Members.add?, Member.tag?, Member.time?, Member.record?, Option.toList_none,
      Option.toList_some, List.append_nil, toList_eq_toList_iff, toList_eq_concat_iff,
      Option.ite_none_left_eq_some, Option.not_isSome_iff_eq_none, Option.some.injEq,
      Members.mk.injEq] <;>
    tauto

theorem exists_toList {α : Type} {slot : Option α} {front behind : List α}
    (whole : slot.toList = front ++ behind) : ∃ filled : Option α, filled.toList = front := by
  cases front with
  | nil => exact ⟨none, rfl⟩
  | cons value others =>
    cases slot with
    | none => cases whole
    | some =>
      have last := (List.append_eq_nil_iff.mp (List.cons.inj whole).2.symm).1
      exact ⟨some value, by rw [last, Option.toList_some]⟩

theorem filterMap_cons_eq {α β : Type} (f : α → Option β) (item : α) (items : List α) :
    (item :: items).filterMap f = (f item).toList ++ items.filterMap f := by
  cases found : f item <;> simp [found]

/-- Members that each come for the first time fill the places that are still empty. -/
theorem foldlM_add?_iff {members after : Members} {said : List Member} :
    said.foldlM Members.add? members = some after ↔
      after.tag.toList = members.tag.toList ++ said.filterMap Member.tag? ∧
      after.time.toList = members.time.toList ++ said.filterMap Member.time? ∧
      after.record.toList = members.record.toList ++ said.filterMap Member.record? := by
  induction said generalizing members with
  | nil => exact @add?_eq_some_iff members after .other
  | cons member said ih =>
    rw [List.foldlM_cons]
    simp only [filterMap_cons_eq, ← List.append_assoc]
    constructor
    · intro run
      obtain ⟨next, added, run⟩ := Option.bind_eq_some_iff.mp run
      obtain ⟨tag, time, record⟩ := add?_eq_some_iff.mp added
      rwa [← tag, ← time, ← record, ← ih]
    · rintro ⟨tags, times, records⟩
      obtain ⟨tag, isTag⟩ := exists_toList tags
      obtain ⟨time, isTime⟩ := exists_toList times
      obtain ⟨record, isRecord⟩ := exists_toList records
      rw [← isTag] at tags
      rw [← isTime] at times
      rw [← isRecord] at records
      exact Option.bind_eq_some_iff.mpr ⟨⟨tag, time, record⟩,
        add?_eq_some_iff.mpr ⟨isTag, isTime, isRecord⟩, ih.mpr ⟨tags, times, records⟩⟩

theorem toIncoming_eq_ok_iff {members : Members} {incoming : Incoming} :
    members.toIncoming = .ok incoming ↔ members.tag = some incoming.tag ∧
      incoming.time = members.time.getD none ∧ incoming.record = members.record.getD [] := by
  obtain ⟨tag, time, record⟩ := members
  obtain ⟨tag', time', record'⟩ := incoming
  cases tag with
  | none => simp [Members.toIncoming]
  | some tag => simp [Members.toIncoming, eq_comm]

theorem filled_iff {α : Type} {values : List α} {value missing : α} :
    (∃ slot : Option α, slot.toList = values ∧ value = slot.getD missing) ↔
      values = [value] ∨ values = [] ∧ value = missing := by
  constructor
  · rintro ⟨slot, rfl, rfl⟩
    cases slot <;> simp
  · rintro (rfl | ⟨rfl, rfl⟩)
    · exact ⟨some value, rfl, rfl⟩
    · exact ⟨none, rfl, rfl⟩

/-- Members make an event exactly if they describe it. -/
theorem describe_iff {said : List Member} {incoming : Incoming} :
    Describe said incoming ↔ ∃ members : Members,
      said.foldlM Members.add? ⟨none, none, none⟩ = some members ∧
        members.toIncoming = .ok incoming := by
  simp only [foldlM_add?_iff, toIncoming_eq_ok_iff, Option.toList_none, List.nil_append]
  constructor
  · rintro ⟨tag, time, record⟩
    obtain ⟨times, timeList, isTime⟩ := filled_iff.mpr time
    obtain ⟨records, recordList, isRecord⟩ := filled_iff.mpr record
    exact ⟨⟨some incoming.tag, times, records⟩, ⟨tag.symm, timeList, recordList⟩, rfl, isTime,
      isRecord⟩
  · rintro ⟨members, ⟨tags, times, records⟩, tag, time, record⟩
    rw [tag] at tags
    exact ⟨tags.symm, filled_iff.mp ⟨_, times, time⟩, filled_iff.mp ⟨_, records, record⟩⟩

/-! ## Items in order -/

section Items

variable {fuel : Nat} {input middle rest : List Char}

theorem readClosing_eq_ok_iff : readClosing input = .ok rest ↔ Blanks input (']' :: rest) := by
  have bracket : Json.skipBlanks input = ']' :: rest ↔ Blanks input (']' :: rest) :=
    Json.skipBlanks_eq_cons_iff.trans (and_iff_left rfl)
  rw [← bracket, readClosing]
  split
  next none => simp [none]
  next found => simp [found]
  next found => simp_all

theorem readNext_close (bracket : Blanks input (']' :: rest)) : readNext input = .ok none := by
  simp [readNext, bracket.first rfl]

theorem readNext_more {after : List Char} {value : Json.Value}
    (comma : Blanks input (',' :: after)) (found : IsValue exact valueRoom after value rest) :
    readNext input = .ok (some (Json.skipBlanks after)) := by
  obtain ⟨_, char, others, left, noBracket⟩ := found.front Json.exact_isProper
  simp [readNext, comma.first rfl, left, noBracket]

theorem comma_of_readNext {next : List Char} (read : readNext input = .ok (some next)) :
    ∃ after, Blanks input (',' :: after) ∧ Blanks after next := by
  unfold readNext at read
  split at read
  next => cases read
  next => cases read
  next after left =>
    split at read
    next => cases read
    next => cases read
    next =>
      cases read
      exact ⟨after, Json.blanks_of_skipBlanks left, Json.blanks_skipBlanks after⟩
  next => cases read

/-- One more item, if it is read where the next one is looked for. -/
theorem tail_of_readNext {next : List Char} {value : Json.Value} {values : List Json.Value}
    (read : readNext input = .ok (some next)) (found : IsValue exact valueRoom next value middle)
    (others : Tail (IsValue exact valueRoom) ']' middle values rest) :
    Tail (IsValue exact valueRoom) ']' input (value :: values) rest := by
  obtain ⟨after, comma, blanks⟩ := comma_of_readNext read
  exact .more comma (found.after blanks) others

theorem inOrder_of_readElements {incoming : Incoming}
    (read : readElements fuel input = .ok (incoming, rest)) :
    ∃ values, Series (IsValue exact valueRoom) ']' input values rest ∧ InOrder values incoming := by
  unfold readElements at read
  split at read
  next => cases read
  next =>
    obtain ⟨⟨tag, middle⟩, first, read⟩ := bind_eq_ok_iff.mp read
    have first : IsValue exact valueRoom input (.text tag) middle :=
      (readTag_eq_ok_iff.mp first).after (Json.blanks_skipBlanks input)
    obtain ⟨next, comma, read⟩ := bind_eq_ok_iff.mp read
    cases next with
    | none =>
      obtain ⟨last, bracket, same⟩ := map_eq_ok_iff.mp read
      cases same
      exact ⟨_, .filled first (.close (readClosing_eq_ok_iff.mp bracket)), .tag tag⟩
    | some next =>
      obtain ⟨⟨time, behind⟩, second, read⟩ := bind_eq_ok_iff.mp read
      obtain ⟨value, second, isTime⟩ := isTime_of_readTime second
      obtain ⟨next, comma', read⟩ := bind_eq_ok_iff.mp read
      cases next with
      | none =>
        obtain ⟨last, bracket, same⟩ := map_eq_ok_iff.mp read
        cases same
        exact ⟨_, .filled first (tail_of_readNext comma second
          (.close (readClosing_eq_ok_iff.mp bracket))), .time tag isTime⟩
      | some next =>
        obtain ⟨⟨record, last⟩, third, read⟩ := bind_eq_ok_iff.mp read
        obtain ⟨last, bracket, same⟩ := map_eq_ok_iff.mp read
        cases same
        exact ⟨_, .filled first (tail_of_readNext comma second (tail_of_readNext comma'
          (isValue_of_readRecord third) (.close (readClosing_eq_ok_iff.mp bracket)))),
          .record tag isTime record⟩

theorem readTag_skipBlanks (input : List Char) :
    readTag (Json.skipBlanks input) = readTag input := by
  simp [readTag]

theorem readRecord_skipBlanks (fuel : Nat) (input : List Char) :
    readRecord fuel (Json.skipBlanks input) = readRecord fuel input := by
  simp [readRecord]

theorem readTag_front {tag : String} (found : IsValue exact valueRoom input (.text tag) middle) :
    ∃ char others, Json.skipBlanks input = char :: others ∧ char ≠ ']' ∧
      readTag (char :: others) = .ok (tag, middle) := by
  obtain ⟨_, char, others, left, noBracket⟩ := found.front Json.exact_isProper
  exact ⟨char, others, left, noBracket,
    by rw [← left, readTag_skipBlanks, readTag_eq_ok_iff.mpr found]⟩

/-- Items in order that describe an event are read as the event. -/
theorem readElements_eq {values : List Json.Value} {incoming : Incoming}
    (series : Series (IsValue exact valueRoom) ']' input values rest)
    (inOrder : InOrder values incoming) (enough : 3 * input.length ≤ fuel) :
    readElements fuel input = .ok (incoming, rest) := by
  cases series with
  | empty => cases inOrder
  | filled first others =>
    have shorter := (first.front Json.exact_isProper).1
    cases inOrder with
    | tag tag =>
      obtain ⟨char, front, left, noBracket, tagRead⟩ := readTag_front first
      cases others with
      | close bracket =>
        simp [readElements, left, noBracket, tagRead, readNext_close bracket,
          readClosing_eq_ok_iff.mpr bracket, bind, Except.bind, Except.map]
    | time tag isTime =>
      obtain ⟨char, front, left, noBracket, tagRead⟩ := readTag_front first
      cases others with
      | more comma second others =>
        have timeRead := isTime.readTime_eq second (others.stopsNumber (.inl rfl))
        have timeNext := readNext_more comma second
        cases others with
        | close bracket =>
          simp [readElements, left, noBracket, tagRead, timeNext, readTime_skipBlanks, timeRead,
            readNext_close bracket, readClosing_eq_ok_iff.mpr bracket, bind, Except.bind,
            Except.map]
    | record tag isTime record =>
      obtain ⟨char, front, left, noBracket, tagRead⟩ := readTag_front first
      cases others with
      | more comma second others =>
        have timeRead := isTime.readTime_eq second (others.stopsNumber (.inl rfl))
        have timeNext := readNext_more comma second
        have afterTag := comma.length_le
        have afterTime := (second.front Json.exact_isProper).1
        cases others with
        | more comma' third others =>
          have recordNext := readNext_more comma' third
          have beforeRecord := comma'.length_le
          simp only [List.length_cons] at afterTag beforeRecord
          have recordRead := readRecord_eq third (show _ ≤ fuel by omega)
          cases others with
          | close bracket =>
            simp [readElements, left, noBracket, tagRead, timeNext, readTime_skipBlanks, timeRead,
              recordNext, readRecord_skipBlanks, recordRead, readClosing_eq_ok_iff.mpr bracket,
              bind, Except.bind, Except.map]

end Items

/-! ## Lines -/

section Lines

variable {line rest : List Char} {incoming : Incoming}

theorem isLine_of_readIncoming (read : readIncoming line = .ok (incoming, rest))
    (blanks : Blanks rest []) : IsObjectLine line incoming ∨ IsArrayLine line incoming := by
  unfold readIncoming at read
  dsimp only at read
  split at read
  next front left =>
    obtain ⟨⟨members, last⟩, inner, read⟩ := bind_eq_ok_iff.mp read
    obtain ⟨found, event, same⟩ := bind_eq_ok_iff.mp read
    cases same
    obtain ⟨said, series, run⟩ := series_of_readMembers inner
    exact .inl ⟨front, said, last, Json.blanks_of_skipBlanks left, series, blanks,
      describe_iff.mpr ⟨members, run, event⟩⟩
  next front left =>
    obtain ⟨values, series, inOrder⟩ := inOrder_of_readElements read
    exact .inr ⟨front, values, rest, Json.blanks_of_skipBlanks left, series, blanks, inOrder⟩
  next => cases read

theorem IsObjectLine.readIncoming_eq (isLine : IsObjectLine line incoming) :
    ∃ rest, readIncoming line = .ok (incoming, rest) ∧ Blanks rest [] := by
  obtain ⟨front, said, rest, brace, series, blanks, describes⟩ := isLine
  obtain ⟨members, run, event⟩ := describe_iff.mp describes
  have length := brace.length_le
  simp only [List.length_cons] at length
  have inner := readMembers_series series run
    (show _ ≤ Json.fuelFor line by unfold Json.fuelFor; omega)
  have left := brace.first rfl
  exact ⟨rest, by simp [readIncoming, left, inner, event, bind, Except.bind], blanks⟩

theorem IsArrayLine.readIncoming_eq (isLine : IsArrayLine line incoming) :
    ∃ rest, readIncoming line = .ok (incoming, rest) ∧ Blanks rest [] := by
  obtain ⟨front, values, rest, bracket, series, blanks, inOrder⟩ := isLine
  have length := bracket.length_le
  simp only [List.length_cons] at length
  have inner := readElements_eq series inOrder
    (show _ ≤ Json.fuelFor line by unfold Json.fuelFor; omega)
  have left := bracket.first rfl
  exact ⟨rest, by simp [readIncoming, left, inner], blanks⟩

theorem readIncoming_nil : readIncoming [] = .error .truncated := rfl

theorem decodeLine_eq_none_iff :
    decodeLine line = .ok none ↔ ∀ char ∈ line, Text.isBlank char = true := by
  rw [← Text.trim_eq_nil_iff, ← List.isEmpty_iff, decodeLine]
  split
  next empty => simp [empty]
  next filled =>
    refine iff_of_false (fun read => ?_) filled
    obtain ⟨found, -, read⟩ := bind_eq_ok_iff.mp read
    obtain ⟨-, -, same⟩ := bind_eq_ok_iff.mp read
    cases same

theorem decodeLine_eq_some_iff :
    decodeLine line = .ok (some incoming) ↔
      IsObjectLine (Text.trim line) incoming ∨ IsArrayLine (Text.trim line) incoming := by
  constructor
  · intro read
    unfold decodeLine at read
    dsimp only at read
    split at read
    next => cases read
    next =>
      obtain ⟨⟨found, rest⟩, inner, read⟩ := bind_eq_ok_iff.mp read
      obtain ⟨_, blanks, same⟩ := bind_eq_ok_iff.mp read
      cases same
      exact isLine_of_readIncoming inner (Json.readEnd_eq_ok_iff.mp blanks)
  · intro isLine
    obtain ⟨rest, read, blanks⟩ :=
      isLine.elim IsObjectLine.readIncoming_eq IsArrayLine.readIncoming_eq
    have filled : (Text.trim line).isEmpty = false := by
      cases text : Text.trim line with
      | nil =>
        rw [text, readIncoming_nil] at read
        cases read
      | cons => rfl
    simp [decodeLine, filled, read, Json.readEnd_eq_ok_iff.mpr blanks, bind, Except.bind]

theorem decodeLine_eq_error_iff :
    (∃ fault, decodeLine line = .error fault) ↔
      (∃ char ∈ line, Text.isBlank char = false) ∧
        ∀ incoming, ¬ IsObjectLine (Text.trim line) incoming ∧
          ¬ IsArrayLine (Text.trim line) incoming := by
  have filled : (∃ char ∈ line, Text.isBlank char = false) ↔ decodeLine line ≠ .ok none := by
    simp [decodeLine_eq_none_iff]
  simp only [filled, ← not_or, ← decodeLine_eq_some_iff]
  cases decodeLine line with
  | error fault => simp
  | ok found => cases found <;> simp

end Lines

/-- A line decodes to nothing exactly if it is blank, and to an event exactly if, without the blanks
around it, it is an object that describes the event by its members or an array that describes it in
order. Every other line is an error. In an object that is read, a key that is written twice keeps
its first position and its last value. -/
theorem decodeLine_accepts_exactly (line : List Char) (now : Int) :
    (decodeLine line = .ok none ↔ ∀ char ∈ line, Text.isBlank char = true) ∧
    (∀ event : Event,
      (∃ incoming, decodeLine line = .ok (some incoming) ∧ incoming.toEvent now = event) ↔
        ∃ incoming, (IsObjectLine (Text.trim line) incoming ∨
            IsArrayLine (Text.trim line) incoming) ∧
          event.tag = incoming.tag ∧ event.time = incoming.time.getD now ∧
          event.record = incoming.record) ∧
    ((∃ fault, decodeLine line = .error fault) ↔
      (∃ char ∈ line, Text.isBlank char = false) ∧
        ∀ incoming, ¬ IsObjectLine (Text.trim line) incoming ∧
          ¬ IsArrayLine (Text.trim line) incoming) ∧
    ∀ pairs : List (String × Json.Value), ∃ entries, exact.object pairs = .object entries ∧
      Assoc.keys entries = (Assoc.keys pairs).eraseDups ∧
      ∀ key, Assoc.get? entries key = Assoc.last? pairs key := by
  refine ⟨decodeLine_eq_none_iff, fun event => ?_, decodeLine_eq_error_iff, fun pairs => ?_⟩
  · simp only [decodeLine_eq_some_iff]
    refine exists_congr fun incoming => and_congr_right fun _ => ?_
    obtain ⟨tag, time, record⟩ := event
    simp [Incoming.toEvent, eq_comm]
  · exact ⟨Assoc.ofPairs pairs, rfl, Assoc.keys_ofPairs pairs, Assoc.get?_ofPairs pairs⟩

/-- An array of a tag alone is an event, as an object with a tag alone is one. -/
example : decodeLine "[\"a\"]".toList = .ok (some ⟨"a", none, []⟩) := rfl

end Recast.Stream
