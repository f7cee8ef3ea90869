import EntityGraph.Proofs.Numerals
import EntityGraph.Proofs.Outcomes
import Mathlib.Data.List.DropRight

/-! # Texts read back

The indented text of a value is read as a document that is a writing of the value: its numerals and quoted
texts are evaluated to those of the value, and its members stand in the same order. Strings are read back
character by character, the blanks between items and members are skipped, and twice the length of the text
is fuel enough. -/
namespace EntityGraph
namespace Json
variable {cs rest : List Char} {level fuel : Nat}

mutual

/-- A document whose numerals and quoted texts are evaluated to those of a value, in the same order. -/
inductive Document.Writes : Document → Json → Prop
  | null : Writes .null .null
  | bool (b : Bool) : Writes (.bool b) (.bool b)
  | number {numeral : Numeral} {n : Number} (read : numeral.eval? = some n) :
      Writes (.numeral numeral) (.number n)
  | string {quoted : Quoted} {s : String} (read : quoted.eval? = some s) : Writes (.string quoted) (.string s)
  | array {items : List Document} {values : List Json} (each : List.Forall₂ Writes items values) :
      Writes (.array items) (.array values)
  | object {members : List (Quoted × Document)} {entries : List (String × Json)}
      (each : List.Forall₂ WritesMember members entries) : Writes (.object members) (.object entries)

inductive Document.WritesMember : Quoted × Document → String × Json → Prop
  | intro {key : Quoted} {name : String} {document : Document} {value : Json} (read : key.eval? = some name)
      (writes : Document.Writes document value) : WritesMember (key, document) (name, value)

end

theorem chars?_unit {code : Nat} (plain : code < 0xD800) (more : Quoted) :
    Quoted.chars? (.unit code :: more) = (Char.ofNat code :: ·) <$> Quoted.chars? more := by
  have low : ¬(0xD800 ≤ code ∧ code < 0xDC00) := by omega
  have high : ¬(0xDC00 ≤ code ∧ code < 0xE000) := by omega
  have surrogate : ¬(0xD800 ≤ code ∧ code < 0xE000) := by omega
  match more with
  | [] | .char _ :: _ => rw [Quoted.chars?.eq_def]; simp only [if_neg surrogate]
  | .unit _ :: _ => rw [Quoted.chars?.eq_def]; simp only [if_neg low, if_neg high]

/-- A control character is written as four hexadecimal digits. -/
theorem readQuoted_control {code : Nat} (control : code < 32) (cs : List Char) :
    readQuoted ('\\' :: 'u' :: (padded 16 4 code ++ cs)) =
      (readQuoted cs).map fun read => (.unit code :: read.1, read.2) := by
  have written : ∀ code < 32,
      padded 16 4 code = ['0', '0', Nat.digitChar (code / 16), Nat.digitChar (code % 16)] := by decide
  have read : ∀ digit < 16, hexValue? (Nat.digitChar digit) = some digit := by decide
  have high := read (code / 16) (by omega)
  have low := read (code % 16) (by omega)
  have zero : hexValue? '0' = some 0 := by decide
  have whole : code / 16 * 16 + code % 16 = code := by omega
  rw [written code control]
  cases found : readQuoted cs <;> simp [readQuoted, high, low, zero, whole, found]

/-- A character inside quotes is read as one piece, which is evaluated to it. -/
theorem readQuoted_escape (c : Char) {pieces : Quoted} (read : readQuoted cs = some (pieces, rest)) :
    ∃ piece, readQuoted (escape c ++ cs) = some (piece :: pieces, rest) ∧
      Quoted.chars? (piece :: pieces) = (c :: ·) <$> Quoted.chars? pieces := by
  unfold escape
  split_ifs with quote backslash line tab return_ back feed control
  -- seven characters are escaped by a letter or by themselves
  any_goals (subst c; exact ⟨.char _, by simp [readQuoted, unescape?, read], rfl⟩)
  · refine ⟨.unit c.toNat, ?_, ?_⟩
    · simp [readQuoted_control control, read]
    · rw [chars?_unit (by omega), Char.ofNat_toNat]
  · refine ⟨.char c, ?_, rfl⟩
    rw [List.singleton_append, readQuoted.eq_def]
    split <;> simp_all

theorem readQuoted_quote (s : List Char) (rest : List Char) :
    ∃ pieces, readQuoted (s.flatMap escape ++ '"' :: rest) = some (pieces, rest) ∧
      Quoted.chars? pieces = some s := by
  induction s with
  | nil => exact ⟨[], rfl, rfl⟩
  | cons c s ih =>
    obtain ⟨pieces, read, same⟩ := ih
    obtain ⟨piece, first, evaluated⟩ := readQuoted_escape c read
    refine ⟨piece :: pieces, by simpa using first, ?_⟩
    rw [evaluated, same]
    rfl

theorem skipBlanks_append {bs : List Char} (blank : ∀ c ∈ bs, isBlank c = true) (cs : List Char) :
    skipBlanks (bs ++ cs) = skipBlanks cs :=
  List.dropWhile_append_of_pos blank

theorem skipBlanks_cons {c : Char} (other : isBlank c = false) : skipBlanks (c :: cs) = c :: cs := by
  simp [skipBlanks, other]

theorem isBlank_of_mem_newLine {c : Char} (member : c ∈ newLine level) : isBlank c = true := by
  rcases List.mem_cons.1 member with rfl | blank
  · rfl
  · rw [List.eq_of_mem_replicate blank]
    rfl

theorem skipBlanks_newLine : skipBlanks (newLine level ++ cs) = skipBlanks cs :=
  skipBlanks_append (fun _ => isBlank_of_mem_newLine) cs

theorem skipBlanks_space : skipBlanks (' ' :: cs) = skipBlanks cs := rfl

theorem skipBlanks_skipBlanks : skipBlanks (skipBlanks cs) = skipBlanks cs :=
  List.dropWhile_idempotent _ _

theorem readValue_skipBlanks : Document.readValue fuel (skipBlanks cs) = Document.readValue fuel cs := by
  cases fuel with
  | zero => rfl
  | succ fuel =>
    unfold Document.readValue
    rw [skipBlanks_skipBlanks]

theorem readItems_skipBlanks : Document.readItems fuel (skipBlanks cs) = Document.readItems fuel cs := by
  cases fuel with
  | zero => rfl
  | succ fuel =>
    unfold Document.readItems
    rw [readValue_skipBlanks]

theorem readMembers_skipBlanks : Document.readMembers fuel (skipBlanks cs) = Document.readMembers fuel cs := by
  cases fuel with
  | zero => rfl
  | succ fuel =>
    unfold Document.readMembers
    rw [skipBlanks_skipBlanks]

theorem readItems_newLine : Document.readItems fuel (newLine level ++ cs) = Document.readItems fuel cs := by
  rw [← readItems_skipBlanks, skipBlanks_newLine, readItems_skipBlanks]

theorem readMembers_newLine : Document.readMembers fuel (newLine level ++ cs) = Document.readMembers fuel cs := by
  rw [← readMembers_skipBlanks, skipBlanks_newLine, readMembers_skipBlanks]

theorem ends_newLine : Ends (newLine level ++ rest) := by
  constructor <;> simp [newLine, NoDigit]

theorem ends_comma : Ends (',' :: rest) := by
  constructor <;> simp [NoDigit]

/-- The indented text of a value is read to its end as a writing of the value. -/
def ReadsBack (level : Nat) (j : Json) : Prop :=
  ∀ (fuel : Nat) (rest : List Char), 2 * (indented level j).length < fuel → Ends rest →
    ∃ document, Document.readValue fuel (indented level j ++ rest) = some (document, rest) ∧ document.Writes j

/-- What starts like a numeral is read as one. -/
theorem readValue_numeral {n : Numeral} (read : readNumeral cs = some (n, rest)) :
    Document.readValue (fuel + 1) cs = some (.numeral n, rest) := by
  obtain ⟨c, head, sign⟩ := head_of_readNumeral read
  obtain ⟨more, rfl⟩ := List.head?_eq_some_iff.1 head
  have other : isBlank c = false := by
    rw [← Bool.not_eq_true]
    intro blank
    simp only [isBlank, Bool.or_eq_true, beq_iff_eq, or_assoc] at blank
    rcases blank with rfl | rfl | rfl | rfl <;> exact absurd sign (by decide)
  rw [Document.readValue, skipBlanks_cons other]
  split
  case h_7 => simp [read]
  -- no other value starts with a sign or a digit
  all_goals
    rename_i same
    cases same
    exact absurd sign (by decide)

theorem readsBack_number (n : Number) : ReadsBack level (.number n) := by
  intro fuel rest enough ends
  obtain ⟨numeral, read, evaluated⟩ := readNumeral_text n ends
  obtain ⟨fuel, rfl⟩ := Nat.exists_eq_add_one_of_ne_zero (Nat.ne_zero_of_lt enough)
  exact ⟨.numeral numeral, readValue_numeral read, .number evaluated⟩

theorem readsBack_string (s : String) : ReadsBack level (.string s) := by
  intro fuel rest enough ends
  obtain ⟨pieces, read, evaluated⟩ := readQuoted_quote s.toList rest
  obtain ⟨fuel, rfl⟩ := Nat.exists_eq_add_one_of_ne_zero (Nat.ne_zero_of_lt enough)
  refine ⟨.string pieces, ?_, .string (by simp [Quoted.eval?, evaluated])⟩
  simp [Document.readValue, indented, compact, quote, skipBlanks, isBlank, read]

theorem readItems_close : Document.readItems fuel (']' :: cs) = none := by
  have unread (fuel : Nat) : Document.readValue fuel (']' :: cs) = none := by
    cases fuel <;> simp [Document.readValue, skipBlanks_cons, isBlank, readNumeral, readUnsigned, readWhole,
      readDigits]
  cases fuel <;> simp [Document.readItems, unread]

theorem readMembers_close : Document.readMembers fuel ('\x7d' :: cs) = none := by
  cases fuel <;> simp [Document.readMembers, skipBlanks_cons, isBlank]

/-- A bracket and items that are read are read as an array: items do not start with the other bracket. -/
theorem readValue_array {items : List Document} (read : Document.readItems fuel cs = some (items, rest)) :
    Document.readValue (fuel + 1) ('[' :: cs) = some (.array items, rest) := by
  rw [Document.readValue, skipBlanks_cons (by decide)]
  simp only
  split
  · next closed =>
    rw [← readItems_skipBlanks, closed, readItems_close] at read
    cases read
  · simp [readItems_skipBlanks, read]

/-- A brace and members that are read are read as an object. -/
theorem readValue_object {members : List (Quoted × Document)}
    (read : Document.readMembers fuel cs = some (members, rest)) :
    Document.readValue (fuel + 1) ('\x7b' :: cs) = some (.object members, rest) := by
  rw [Document.readValue, skipBlanks_cons (by decide)]
  simp only
  split
  · next closed =>
    rw [← readMembers_skipBlanks, closed, readMembers_close] at read
    cases read
  · simp [readMembers_skipBlanks, read]

/-- Items, each but the first on a line of its own after a comma. -/
theorem readItems_indented {item : Json} {items : List Json} (outer fuel : Nat) (rest : List Char)
    (first : ReadsBack level item) (each : ∀ item ∈ items, ReadsBack level item)
    (enough : 2 * ((indented level item).length + (indentedItems level items).length) + 1 < fuel) :
    ∃ documents, Document.readItems fuel (indented level item ++ (indentedItems level items ++
        (newLine outer ++ ']' :: rest))) = some (documents, rest) ∧
      List.Forall₂ Document.Writes documents (item :: items) := by
  obtain ⟨fuel, rfl⟩ := Nat.exists_eq_add_one_of_ne_zero (Nat.ne_zero_of_lt enough)
  induction items generalizing item fuel with
  | nil =>
    obtain ⟨document, read, writes⟩ := first fuel (newLine outer ++ ']' :: rest) (by omega) ends_newLine
    refine ⟨[document], ?_, .cons writes .nil⟩
    simp [Document.readItems, indentedItems, read, skipBlanks_newLine, skipBlanks_cons, isBlank]
  | cons next items ih =>
    simp only [indentedItems, List.length_cons, List.length_append] at enough
    obtain ⟨fuel, rfl⟩ := Nat.exists_eq_add_one_of_ne_zero (show fuel ≠ 0 by omega)
    obtain ⟨nextBack, others⟩ := List.forall_mem_cons.1 each
    obtain ⟨documents, readRest, writesRest⟩ := ih nextBack others fuel (by omega)
    obtain ⟨document, read, writes⟩ := first (fuel + 1) (indentedItems level (next :: items) ++
      (newLine outer ++ ']' :: rest)) (by omega) ends_comma
    refine ⟨document :: documents, ?_, .cons writes writesRest⟩
    rw [Document.readItems, read]
    simp [indentedItems, skipBlanks_cons, isBlank, readItems_newLine, readRest]

/-- A member is read up to the text that follows, which says whether there are more. -/
theorem readMembers_member (name : String) {value : Json} (fuel : Nat) (back : ReadsBack level value)
    (enough : 2 * (indented level value).length < fuel) (ends : Ends rest) :
    ∃ member, Document.WritesMember member (name, value) ∧
      (∀ cs, skipBlanks rest = '\x7d' :: cs →
        Document.readMembers (fuel + 1) (indentedMember level (name, value) ++ rest) = some ([member], cs)) ∧
      ∀ cs members tail, skipBlanks rest = ',' :: cs → Document.readMembers fuel cs = some (members, tail) →
        Document.readMembers (fuel + 1) (indentedMember level (name, value) ++ rest) =
          some (member :: members, tail) := by
  obtain ⟨document, read, writes⟩ := back fuel rest enough ends
  obtain ⟨key, readKey, evaluated⟩ :=
    readQuoted_quote name.toList (':' :: ' ' :: (indented level value ++ rest))
  have readSpaced :
      Document.readValue fuel (' ' :: (indented level value ++ rest)) = some (document, rest) := by
    rw [← read, ← readValue_skipBlanks, skipBlanks_space, readValue_skipBlanks]
  have laid : indentedMember level (name, value) ++ rest = '"' :: (name.toList.flatMap escape ++
      '"' :: ':' :: ' ' :: (indented level value ++ rest)) := by
    simp [indentedMember, quote]
  refine ⟨(key, document), .intro (by simp [Quoted.eval?, evaluated]) writes, ?_, ?_⟩
  · intro cs closed
    rw [laid, Document.readMembers]
    simp [skipBlanks_cons, isBlank, readKey, readSpaced, closed]
  · intro cs members tail comma readRest
    rw [laid, Document.readMembers]
    simp [skipBlanks_cons, isBlank, readKey, readSpaced, comma, readRest]

theorem length_indentedMember (level : Nat) (name : String) (value : Json) :
    (indented level value).length ≤ (indentedMember level (name, value)).length := by
  simp only [indentedMember, List.length_append, List.length_cons]
  omega

theorem readMembers_indented (name : String) {value : Json} {entries : List (String × Json)}
    (outer fuel : Nat) (rest : List Char) (first : ReadsBack level value)
    (each : ∀ entry ∈ entries, ReadsBack level entry.2)
    (enough : 2 * ((indentedMember level (name, value)).length + (indentedMembers level entries).length) + 1 <
      fuel) :
    ∃ members, Document.readMembers fuel (indentedMember level (name, value) ++
        (indentedMembers level entries ++ (newLine outer ++ '\x7d' :: rest))) = some (members, rest) ∧
      List.Forall₂ Document.WritesMember members ((name, value) :: entries) := by
  obtain ⟨fuel, rfl⟩ := Nat.exists_eq_add_one_of_ne_zero (Nat.ne_zero_of_lt enough)
  have short := length_indentedMember level name value
  induction entries generalizing name value fuel with
  | nil =>
    have closes : skipBlanks (newLine outer ++ '\x7d' :: rest) = '\x7d' :: rest := by
      rw [skipBlanks_newLine, skipBlanks_cons (by decide)]
    obtain ⟨member, writes, last, -⟩ := readMembers_member name fuel first (by omega) ends_newLine
    exact ⟨[member], last rest closes, .cons writes .nil⟩
  | cons next entries ih =>
    obtain ⟨other, otherValue⟩ := next
    simp only [indentedMembers, List.length_cons, List.length_append] at enough
    obtain ⟨fuel, rfl⟩ := Nat.exists_eq_add_one_of_ne_zero (show fuel ≠ 0 by omega)
    have nextBack : ReadsBack level otherValue := (List.forall_mem_cons.1 each).1
    obtain ⟨members, readRest, writesRest⟩ := ih other nextBack (List.forall_mem_cons.1 each).2 fuel (by omega)
      (length_indentedMember level other otherValue)
    obtain ⟨member, writes, -, more⟩ := readMembers_member name (fuel + 1) first (by omega) ends_comma
    refine ⟨member :: members, ?_, .cons writes writesRest⟩
    rw [← readMembers_newLine] at readRest
    simpa [indentedMembers] using more _ members rest (skipBlanks_cons (by decide)) readRest

theorem readsBack_array {item : Json} {items : List Json} (first : ReadsBack (level + 1) item)
    (each : ∀ item ∈ items, ReadsBack (level + 1) item) : ReadsBack level (.array (item :: items)) := by
  intro fuel rest enough ends
  obtain ⟨fuel, rfl⟩ := Nat.exists_eq_add_one_of_ne_zero (Nat.ne_zero_of_lt enough)
  simp only [indented, List.length_cons, List.length_append] at enough
  obtain ⟨documents, read, writes⟩ := readItems_indented level fuel rest first each (by omega)
  refine ⟨.array documents, ?_, .array writes⟩
  rw [← readItems_newLine] at read
  simpa [indented] using readValue_array read

theorem readsBack_object {name : String} {value : Json} {entries : List (String × Json)}
    (first : ReadsBack (level + 1) value) (each : ∀ entry ∈ entries, ReadsBack (level + 1) entry.2) :
    ReadsBack level (.object ((name, value) :: entries)) := by
  intro fuel rest enough ends
  obtain ⟨fuel, rfl⟩ := Nat.exists_eq_add_one_of_ne_zero (Nat.ne_zero_of_lt enough)
  simp only [indented, List.length_cons, List.length_append] at enough
  obtain ⟨members, read, writes⟩ := readMembers_indented name level fuel rest first each (by omega)
  refine ⟨.object members, ?_, .object writes⟩
  rw [← readMembers_newLine] at read
  simpa [indented] using readValue_object read

theorem sizeOf_snd_lt (entry : String × Json) : sizeOf entry.2 < sizeOf entry := by
  cases entry
  simp

/-- The text of every value is read back. -/
theorem readsBack (level : Nat) (j : Json) : ReadsBack level j := by
  match j with
  | .null | .bool true | .bool false | .array [] | .object [] =>
    intro fuel rest enough ends
    obtain ⟨fuel, rfl⟩ := Nat.exists_eq_add_one_of_ne_zero (Nat.ne_zero_of_lt enough)
    exact ⟨_, rfl, by constructor; try constructor⟩
  | .number n => exact readsBack_number n
  | .string s => exact readsBack_string s
  | .array (item :: items) =>
    have each : ∀ item ∈ items, ReadsBack (level + 1) item := fun item member => readsBack (level + 1) item
    exact readsBack_array (readsBack (level + 1) item) each
  | .object ((name, value) :: entries) =>
    have each : ∀ entry ∈ entries, ReadsBack (level + 1) entry.2 :=
      fun entry member => readsBack (level + 1) entry.2
    exact readsBack_object (readsBack (level + 1) value) each
termination_by sizeOf j
decreasing_by
  all_goals simp_wf
  · have := List.sizeOf_lt_of_mem member
    omega
  · omega
  · have := List.sizeOf_lt_of_mem member
    have := sizeOf_snd_lt entry
    omega
  · omega

/-- A whole text is read as a writing of the value that it is the text of. -/
theorem read?_indented (j : Json) :
    ∃ document, Document.read? (String.ofList (j.indented 0)) = some document ∧ document.Writes j := by
  obtain ⟨document, read, writes⟩ := readsBack 0 j (2 * (j.indented 0).length + 2) [] (by omega)
    ⟨by simp [NoDigit], by simp, by simp⟩
  refine ⟨document, ?_, writes⟩
  rw [List.append_nil] at read
  simp [Document.read?, read, skipBlanks]

end Json
end EntityGraph
