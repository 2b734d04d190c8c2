import ArchiveRemap.Proofs.Json.Quoted
import ArchiveRemap.Proofs.Json.Token

/-!
Values in their indented form. A value that fits is written as a text whose tree is made of
the value's own parts, so it can be read and taken again. Reading takes one step of its count
for each level and each element, which the length of the text always covers.
-/

namespace ArchiveRemap.Json

open Value (newLine indented indentedItems indentedMembers)

namespace Value

mutual

/-- The tree of a value as it is written. -/
def tree : Value → Tree
  | .null => .null
  | .bool truth => .bool truth
  | .integer number => .number (.ofInteger number)
  | .real number => .number (.ofDouble number)
  | .string text => .string (some text)
  | .array items => .array (itemTrees items)
  | .object members => .object (memberTrees members)

def itemTrees : List Value → List Tree
  | [] => []
  | item :: rest => item.tree :: itemTrees rest

def memberTrees : List (String × Value) → List (Option String × Tree)
  | [] => []
  | (key, value) :: rest => (some key, value.tree) :: memberTrees rest

end

/-- Values that a text can hold: numbers in their ranges and at most so many levels. -/
inductive Fits : Nat → Value → Prop where
  | null {room : Nat} : Fits room .null
  | bool {room : Nat} (truth : Bool) : Fits room (.bool truth)
  | integer {room : Nat} {number : Int} (low : -(2 ^ 63) ≤ number) (high : number < 2 ^ 64) :
      Fits room (.integer number)
  | real {room : Nat} {number : Double} (finite : number.Finite) : Fits room (.real number)
  | string {room : Nat} (text : String) : Fits room (.string text)
  | array {room : Nat} {items : List Value} (each : ∀ item ∈ items, Fits room item) :
      Fits (room + 1) (.array items)
  | object {room : Nat} {members : List (String × Value)}
      (each : ∀ member ∈ members, Fits room member.2) : Fits (room + 1) (.object members)

theorem Fits.mono {room more : Nat} {value : Value} (fits : value.Fits room)
    (within : room ≤ more) : value.Fits more := by
  induction fits generalizing more with
  | null => exact .null
  | bool truth => exact .bool truth
  | integer low high => exact .integer low high
  | real finite => exact .real finite
  | string text => exact .string text
  | array each ih =>
      obtain ⟨more, rfl⟩ := Nat.exists_eq_add_of_le' within
      exact .array fun item inside => ih item inside (Nat.le_add_left ..)
  | object each ih =>
      obtain ⟨more, rfl⟩ := Nat.exists_eq_add_of_le' within
      exact .object fun member inside => ih member inside (Nat.le_add_left ..)

end Value

/-! Blanks. -/

theorem skipGap_newLine (depth : Nat) (text : List Char) :
    skipGap (newLine depth ++ text) = skipGap text := by
  rw [newLine, List.cons_append, skipGap, List.dropWhile_cons_of_pos rfl,
    List.dropWhile_append_of_pos]
  · rfl
  · intro c blank
    rw [List.eq_of_mem_replicate blank]
    rfl

theorem skipGap_cons {c : Char} (solid : isGap c = false) (text : List Char) :
    skipGap (c :: text) = c :: text :=
  List.dropWhile_cons_of_neg (by simp [solid])

theorem readTree?_newLine (count depth : Nat) (text : List Char) :
    readTree? count (newLine depth ++ text) = readTree? count text := by
  cases count with
  | zero => rfl
  | succ count => rw [readTree?, skipGap_newLine, readTree?]

theorem readTree?_blank (count : Nat) (text : List Char) :
    readTree? count (' ' :: text) = readTree? count text := by
  cases count with
  | zero => rfl
  | succ count => rw [readTree?, skipGap, List.dropWhile_cons_of_pos rfl, readTree?, skipGap]

/-! First characters. -/

/-- Characters that a number starts with. -/
def StartsNumber (c : Char) : Prop := c = '-' ∨ c.isDigit = true

theorem StartsNumber.ne {c : Char} (starts : StartsNumber c) {other : Char}
    (neither : other ≠ '-' ∧ other.isDigit = false) : c ≠ other := by
  rintro rfl
  rcases starts with minus | digit
  · exact neither.1 minus
  · rw [neither.2] at digit
    cases digit

theorem StartsNumber.isGap_eq_false {c : Char} (starts : StartsNumber c) : isGap c = false := by
  simp only [isGap, Bool.or_eq_false_iff, decide_eq_false_iff_not]
  refine ⟨⟨⟨?_, ?_⟩, ?_⟩, ?_⟩ <;> exact starts.ne (by decide)

theorem Numeral.exists_write {numeral : Numeral} (legal : numeral.Legal) :
    ∃ c more, numeral.write = c :: more ∧ StartsNumber c := by
  obtain ⟨negative, whole, fraction, exponent⟩ := numeral
  cases negative with
  | true => exact ⟨'-', _, rfl, .inl rfl⟩
  | false =>
      obtain ⟨c, more, rfl⟩ := List.exists_cons_of_ne_nil legal.whole.1
      exact ⟨c, _, rfl, .inr (legal.whole.2 c List.mem_cons_self)⟩

theorem readTree?_number {c : Char} (starts : StartsNumber c) (count : Nat) (text : List Char) :
    readTree? (count + 1) (c :: text) =
      (readNumeral? (c :: text)).map fun (numeral, rest) => (.number numeral, rest) := by
  rw [readTree?, skipGap_cons starts.isGap_eq_false]
  split
  case h_7 => rfl
  all_goals
    rename_i same
    exact absurd (List.cons.inj same).1 (starts.ne (by decide))

/-- The first character of a value starts neither a gap nor the end of an array. -/
theorem exists_indented {room : Nat} {value : Value} (fits : value.Fits room) (depth : Nat) :
    ∃ c more, value.indented depth = c :: more ∧ isGap c = false ∧ c ≠ ']' := by
  have number {numeral : Numeral} (legal : numeral.Legal) :
      ∃ c more, numeral.write = c :: more ∧ isGap c = false ∧ c ≠ ']' := by
    obtain ⟨c, more, written, starts⟩ := Numeral.exists_write legal
    exact ⟨c, more, written, starts.isGap_eq_false, starts.ne (by decide)⟩
  cases fits with
  | null => exact ⟨'n', _, rfl, by decide⟩
  | bool truth => cases truth <;> exact ⟨_, _, rfl, by decide⟩
  | integer low high =>
      rw [indented, ← Numeral.write_ofInteger]
      exact number (Numeral.legal_ofInteger _)
  | real finite =>
      rw [indented, ← Numeral.write_ofDouble]
      exact number (Numeral.legal_ofDouble finite)
  | string text => exact ⟨'"', _, rfl, by decide⟩
  | @array _ items each => cases items <;> exact ⟨'[', _, rfl, by decide⟩
  | @object _ members each => cases members <;> exact ⟨'\x7b', _, rfl, by decide⟩

/-! Elements and members. -/

/-- The text of a value is read back, whatever stops it. -/
def Reads (value : Value) : Prop :=
  ∀ depth count rest, Stops rest → (value.indented depth).length ≤ count →
    readTree? count (value.indented depth ++ rest) = some (value.tree, rest)

theorem readItems?_newLine (count depth : Nat) (text : List Char) :
    readItems? count (newLine depth ++ text) = readItems? count text := by
  cases count with
  | zero => rfl
  | succ count => rw [readItems?, readTree?_newLine, readItems?]

theorem readMembers?_newLine (count depth : Nat) (text : List Char) :
    readMembers? count (newLine depth ++ text) = readMembers? count text := by
  cases count with
  | zero => rfl
  | succ count => rw [readMembers?, skipGap_newLine, readMembers?]

theorem stops_newLine (depth : Nat) (rest : List Char) : Stops (newLine depth ++ rest) := by
  rintro c ⟨⟩
  decide

theorem stops_comma (rest : List Char) : Stops (',' :: rest) := by
  rintro c ⟨⟩
  decide

theorem readItems?_indented {item : Value} {items : List Value}
    (each : ∀ value ∈ item :: items, Reads value) (depth : Nat) {count : Nat}
    (enough : (item.indented (depth + 1) ++ indentedItems depth items).length ≤ count)
    (rest : List Char) :
    readItems? count (item.indented (depth + 1) ++ (indentedItems depth items ++ rest)) =
      some (Value.itemTrees (item :: items), rest) := by
  induction items generalizing item count with
  | nil =>
      simp only [indentedItems, List.length_append, List.length_singleton] at enough
      cases count with
      | zero => omega
      | succ count =>
          have read := each item List.mem_cons_self (depth + 1) count
            (newLine depth ++ (']' :: rest)) (stops_newLine _ _) (by omega)
          rw [indentedItems, List.append_assoc, List.singleton_append, readItems?, read]
          simp only [skipGap_newLine, @skipGap_cons ']' rfl]
          rfl
  | cons next more ih =>
      simp only [indentedItems, List.length_append, List.length_cons] at enough
      cases count with
      | zero => omega
      | succ count =>
          have read := each item List.mem_cons_self (depth + 1) count
            (',' :: (newLine (depth + 1) ++ (next.indented (depth + 1) ++
              (indentedItems depth more ++ rest)))) (stops_comma _) (by omega)
          have others := @ih next (fun value member => each value (.tail _ member)) count
            (by rw [List.length_append]; omega)
          simp only [indentedItems, List.append_assoc, List.cons_append]
          rw [readItems?, read]
          simp only [@skipGap_cons ',' rfl, readItems?_newLine, others, Option.map_some]
          rfl

/-- The text of a member. -/
def memberText (depth : Nat) (member : String × Value) : List Char :=
  quote member.1 ++ ':' :: ' ' :: member.2.indented (depth + 1)

/-- What may come behind the value of a member: the end of the object, or a comma and the other
members. -/
inductive MembersRest (count : Nat) :
    List Char → List (Option String × Tree) → List Char → Prop where
  | close {rest last : List Char} (closes : skipGap rest = '\x7d' :: last) :
      MembersRest count rest [] last
  | more {rest next last : List Char} {members : List (Option String × Tree)}
      (goes : skipGap rest = ',' :: next) (others : readMembers? count next = some (members, last)) :
      MembersRest count rest members last

/-- Reading a member goes on with what follows its value. -/
theorem readMembers?_memberText {member : String × Value} (reads : Reads member.2)
    (depth : Nat) {count : Nat} (enough : (memberText depth member).length ≤ count)
    {rest last : List Char} {members : List (Option String × Tree)} (stops : Stops rest)
    (follows : MembersRest count rest members last) :
    readMembers? (count + 1) (memberText depth member ++ rest) =
      some ((some member.1, member.2.tree) :: members, last) := by
  obtain ⟨key, value⟩ := member
  simp only [memberText, quote, List.length_append, List.length_cons] at enough
  have read := reads (depth + 1) count rest stops (by dsimp only; omega)
  simp only [memberText, quote, List.append_assoc, List.cons_append, List.nil_append]
  rw [readMembers?]
  simp only [@skipGap_cons '"' rfl, readString?_escaped, @skipGap_cons ':' rfl,
    readTree?_blank, read]
  cases follows with
  | close closes => simp only [closes]
  | more goes others => simp only [goes, others, Option.map_some]

theorem readMembers?_indented {member : String × Value} {members : List (String × Value)}
    (each : ∀ pair ∈ member :: members, Reads pair.2) (depth : Nat) {count : Nat}
    (enough : (memberText depth member ++ indentedMembers depth members).length ≤ count)
    (rest : List Char) :
    readMembers? count (memberText depth member ++ (indentedMembers depth members ++ rest)) =
      some (Value.memberTrees (member :: members), rest) := by
  induction members generalizing member count with
  | nil =>
      simp only [indentedMembers, List.length_append, List.length_singleton] at enough
      cases count with
      | zero => omega
      | succ count =>
          rw [indentedMembers, List.append_assoc, List.singleton_append]
          apply readMembers?_memberText (each _ List.mem_cons_self) depth (by omega)
            (stops_newLine _ _)
          apply MembersRest.close
          rw [skipGap_newLine, @skipGap_cons '\x7d' rfl]
  | cons next more ih =>
      simp only [indentedMembers, List.length_append, List.length_cons] at enough
      cases count with
      | zero => omega
      | succ count =>
          have others := @ih next (fun pair member => each pair (.tail _ member)) count
            (by simp only [memberText, List.length_append, List.length_cons]; omega)
          have cut : indentedMembers depth (next :: more) ++ rest = ',' :: (newLine (depth + 1) ++
              (memberText depth next ++ (indentedMembers depth more ++ rest))) := by
            simp only [indentedMembers, memberText, List.append_assoc, List.cons_append]
          rw [cut]
          apply readMembers?_memberText (each _ List.mem_cons_self) depth (by omega)
            (stops_comma _)
          apply MembersRest.more (@skipGap_cons ',' rfl _)
          rw [readMembers?_newLine, others]

/-! Whole values. -/

theorem readTree?_write {numeral : Numeral} (legal : numeral.Legal) (count : Nat)
    {rest : List Char} (stops : Stops rest) :
    readTree? (count + 1) (numeral.write ++ rest) = some (.number numeral, rest) := by
  have read := readNumeral?_append legal stops
  obtain ⟨c, more, written, starts⟩ := Numeral.exists_write legal
  rw [written, List.cons_append] at read ⊢
  rw [readTree?_number starts, read]
  rfl

theorem readTree?_array {item : Value} {items : List Value} {room : Nat}
    (fits : item.Fits room) (each : ∀ value ∈ item :: items, Reads value) (depth : Nat)
    {count : Nat} (enough : (indented depth (.array (item :: items))).length ≤ count + 1)
    (rest : List Char) :
    readTree? (count + 1) (indented depth (.array (item :: items)) ++ rest) =
      some (.array (Value.itemTrees (item :: items)), rest) := by
  simp only [indented, List.length_cons, List.length_append] at enough
  have read := @readItems?_indented item items each depth count
    (by rw [List.length_append]; omega) rest
  obtain ⟨c, more, first, solid, inside⟩ := exists_indented fits (depth + 1)
  simp only [indented, List.append_assoc, List.cons_append]
  rw [first, List.cons_append] at read ⊢
  rw [readTree?]
  simp only [@skipGap_cons '[' rfl, skipGap_newLine, skipGap_cons solid]
  split
  · rename_i ends
    exact absurd (List.cons.inj ends).1 inside
  · rw [read]
    rfl

theorem readTree?_object {member : String × Value} {members : List (String × Value)}
    (each : ∀ pair ∈ member :: members, Reads pair.2) (depth : Nat) {count : Nat}
    (enough : (indented depth (.object (member :: members))).length ≤ count + 1)
    (rest : List Char) :
    readTree? (count + 1) (indented depth (.object (member :: members)) ++ rest) =
      some (.object (Value.memberTrees (member :: members)), rest) := by
  have cut : indented depth (.object (member :: members)) = '\x7b' :: (newLine (depth + 1) ++
      (memberText depth member ++ indentedMembers depth members)) := by
    simp only [indented, memberText, List.append_assoc, List.cons_append]
  rw [cut, List.length_cons, List.length_append] at enough
  have read := @readMembers?_indented member members each depth count (by omega) rest
  rw [cut, List.cons_append, List.append_assoc, List.append_assoc, readTree?]
  rw [memberText, quote, List.cons_append, List.cons_append, List.cons_append] at read ⊢
  simp only [@skipGap_cons '\x7b' rfl, skipGap_newLine, @skipGap_cons '"' rfl]
  split
  · rename_i ends
    exact absurd (List.cons.inj ends).1 (by decide)
  · rw [read]
    rfl

/-- Reading a value takes at least one step. -/
theorem reads_of_succ {room : Nat} {value : Value} (fits : value.Fits room)
    (read : ∀ depth count rest, Stops rest → (value.indented depth).length ≤ count + 1 →
      readTree? (count + 1) (value.indented depth ++ rest) = some (value.tree, rest)) :
    Reads value := by
  intro depth count rest stops enough
  obtain ⟨c, more, written, -⟩ := exists_indented fits depth
  cases count with
  | zero =>
      rw [written] at enough
      cases enough
  | succ count => exact read depth count rest stops enough

/-- Values that fit are read back. -/
theorem reads_of_fits {room : Nat} {value : Value} (fits : value.Fits room) : Reads value := by
  induction fits with
  | null =>
      refine reads_of_succ (@Value.Fits.null 0) fun depth count rest stops enough => ?_
      rw [readTree?]
      rfl
  | bool truth =>
      refine reads_of_succ (@Value.Fits.bool 0 truth) fun depth count rest stops enough => ?_
      rw [readTree?]
      cases truth <;> rfl
  | integer low high =>
      refine reads_of_succ (@Value.Fits.integer 0 _ low high) ?_
      intro depth count rest stops enough
      rw [indented, ← Numeral.write_ofInteger, Value.tree]
      exact readTree?_write (Numeral.legal_ofInteger _) count stops
  | real finite =>
      refine reads_of_succ (@Value.Fits.real 0 _ finite) fun depth count rest stops enough => ?_
      rw [indented, ← Numeral.write_ofDouble, Value.tree]
      exact readTree?_write (Numeral.legal_ofDouble finite) count stops
  | string text =>
      refine reads_of_succ (@Value.Fits.string 0 text) fun depth count rest stops enough => ?_
      simp only [indented, quote, List.append_assoc, List.cons_append, List.nil_append]
      rw [readTree?]
      simp only [@skipGap_cons '"' rfl, readString?_escaped]
      rfl
  | @array _ items each ih =>
      refine reads_of_succ (.array each) fun depth count rest stops enough => ?_
      cases items with
      | nil =>
          rw [readTree?]
          rfl
      | cons item items =>
          exact readTree?_array (each item List.mem_cons_self) ih depth enough rest
  | @object _ members each ih =>
      refine reads_of_succ (.object each) fun depth count rest stops enough => ?_
      cases members with
      | nil =>
          rw [readTree?]
          rfl
      | cons member members => exact readTree?_object ih depth enough rest

/-- A written value is read as its own tree. -/
theorem parse?_indentedText {room : Nat} {value : Value} (fits : value.Fits room) :
    parse? value.indentedText = some value.tree := by
  have read := reads_of_fits fits 0 ((value.indented 0).length + 1) [] nofun (Nat.le_succ _)
  rw [List.append_nil] at read
  simp only [parse?, Value.indentedText, String.toList_ofList, read]
  rfl

end ArchiveRemap.Json
