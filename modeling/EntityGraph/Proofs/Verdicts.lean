import EntityGraph.Proofs.OwnChanges
import EntityGraph.Proofs.RoundTrips

/-! # Verdicts on batches

The typed reader and the check of outgoing changes test the same things apart from each other. What was read
is refused by the check for two reasons only: it would change a read-only entity, or it is a new row without
a key. -/
namespace EntityGraph
namespace Change
variable {catalog : Catalog} {definition : Definition} {change : Change} {columns : Columns}

theorem TypedAs.holds (typed : TypedAs (fieldTypes definition) columns) {name : String} {value : Value}
    (held : columns[name]? = some value) : definition.Holds name value := by
  obtain ⟨type, declared, admitted⟩ := typed name value held
  obtain ⟨field, found, rfl⟩ := Option.map_eq_some_iff.1 declared
  exact ⟨field, found, admitted⟩

/-- Every column that a conforming change writes or names has a value of its type. -/
theorem Conforms.holds (conforms : change.Conforms definition) (isData : change.isDataChange = true)
    {name : String} {value : Value} (member : (name, value) ∈ change.checkedColumns) :
    definition.Holds name value := by
  rw [mem_checkedColumns] at member
  cases change with
  | insert entity data =>
    have typed : TypedAs (fieldTypes definition) data := conforms
    rcases member with ⟨_, written, held⟩ | ⟨_, named, -⟩
    · cases written
      exact typed.holds held
    · cases named
  | update entity keys data =>
    obtain ⟨typedKeys, -, typedData⟩ := conforms
    rcases member with ⟨_, written, held⟩ | ⟨_, named, held⟩
    · cases written
      exact typedData.holds held
    · cases named
      exact typedKeys.holds held
  | delete entity keys =>
    obtain ⟨typed, -⟩ := conforms
    rcases member with ⟨_, written, -⟩ | ⟨_, named, held⟩
    · cases written
    · cases named
      exact typed.holds held
  | command => cases isData

/-- A conforming change names its row, unless it is an insert. -/
theorem Conforms.identifies (conforms : change.Conforms definition) (isData : change.isDataChange = true)
    (carried : ∀ entity data, change = .insert entity data → Identifies definition data) :
    Identifies definition change.identifying := by
  cases change with
  | insert entity data => exact carried entity data rfl
  | update entity keys data => exact conforms.2.1
  | delete entity keys => exact conforms.2
  | command => cases isData

/-- A conforming command is valid. -/
theorem Conforms.validate_command (registered : catalog.entities[change.entity.text]? = some definition)
    (conforms : change.Conforms definition) (isCommand : change.isDataChange = false) :
    change.validate catalog = .ok () := by
  cases change with
  | insert | update | delete => cases isCommand
  | command entity parameters filter =>
    have typed : TypedAs (parameterTypes definition) parameters := conforms
    refine validate_command registered fun name member => ?_
    obtain ⟨value, held⟩ := mem_iff_exists_getElem?.1 member
    obtain ⟨type, found, -⟩ := typed name value held
    obtain ⟨parameter, found, -⟩ := Option.map_eq_some_iff.1 found
    rw [found, Option.isSome_some]

/-- Every change that a typed reader returns is about a registered entity. The check of outgoing changes
refuses it as read-only if it changes a row of a read-only entity, for its missing key if it is a new row of
another entity that holds none, and it accepts every other change. -/
theorem decode_verdict {raw : Json} {changes : List Change} (read : decode (some catalog) raw = .ok changes)
    (listed : change ∈ changes) :
    ∃ definition, catalog.entities[change.entity.text]? = some definition ∧
      (change.isDataChange = true → definition.readOnly = true →
        change.validate catalog = .error (.readOnly change.entity.text)) ∧
      (∀ entity data, change = .insert entity data → definition.readOnly = false →
        ¬Identifies definition data → change.validate catalog = .error (.row (.missingKey entity.text))) ∧
      ((change.isDataChange = true → definition.readOnly = false) →
        (∀ entity data, change = .insert entity data → Identifies definition data) →
          change.validate catalog = .ok ()) := by
  obtain ⟨raws, record, -, readRecord⟩ : ∃ raws, ∃ record ∈ raws, decodeRecord (some catalog) record = .ok change := by
    cases raw with
    | array raws => exact ⟨raws, exists_mem_of_forall₂ (decodeRecords_eq_ok_iff.1 read).flip listed⟩
    | null | bool | number | string | object => cases read
  obtain ⟨definition, registered, conforms, -⟩ := decodeRecord_conforms readRecord
  have named : definition.name.text = change.entity.text := Catalog.name_of_entities registered
  refine ⟨definition, registered, fun isData readOnly => ?_, ?_, fun writable identified => ?_⟩
  · rw [validate_of_data registered isData, validateData_of_holds (conforms.holds isData), if_pos readOnly, named]
  · rintro entity data rfl writable unidentified
    have lacks : (data[definition.key]?.getD .null).isNull = true := by
      rwa [← lacksKey_eq_false_iff, Bool.not_eq_false] at unidentified
    rw [validate_of_data registered rfl, validateData_of_holds (conforms.holds rfl), writable, identifying, lacks,
      named]
    rfl
  · cases isData : change.isDataChange with
    | false => exact conforms.validate_command registered isData
    | true =>
      have keyed : (change.identifying[definition.key]?.getD .null).isNull = false :=
        lacksKey_eq_false_iff.2 (conforms.identifies isData identified)
      rw [validate_of_data registered isData, validateData_of_holds (conforms.holds isData), writable isData, keyed]
      rfl

end Change

namespace Archive
open Journal (entryName entry columns)

def volumeName : EntityName := ⟨"volume", by decide +kernel⟩

def volume : Definition where
  name := volumeName
  key := "id"
  fields := [⟨"id", .integer, true, none, none⟩]
  relationships := []
  parameters := [⟨"shelf", .text, .null, none⟩]
  readOnly := true
  description := none

/-- The entries of a journal and the volumes that they are bound in. Volumes are read-only. -/
def catalog : Catalog where
  entities := .ofList [("entry", entry), ("volume", volume)]
  registered _ _ found := by
    rcases List.mem_cons.1 (mem_of_getElem?_ofList found) with same | later
    · cases same
      exact Journal.catalog.registered "entry" entry rfl
    · cases List.mem_singleton.1 later
      exact ⟨rfl, by decide +kernel⟩

/-- An entry without a key, one whose moment is erased, a volume to delete, and a command on volumes. -/
def batch : Json :=
  .array [
    .object [("data", .object [("weight", .ofInt64 2)]), ("entity", .string "entry"), ("kind", .string "insert")],
    .object [("data", .object [("at", .null)]), ("entity", .string "entry"), ("keys", .object [("id", .ofInt64 1)]),
      ("kind", .string "update")],
    .object [("entity", .string "volume"), ("keys", .object [("id", .ofInt64 7)]), ("kind", .string "delete")],
    .object [("entity", .string "volume"), ("kind", .string "command"),
      ("parameters", .object [("shelf", .string "A")])]]

def keyless : Change := .insert entryName (columns [("weight", .float (.ofInt 2))])

def erased : Change := .update entryName (columns [("id", .integer 1)]) (columns [("at", .null)])

def shelved : Change := .delete volumeName (columns [("id", .integer 7)])

def moved : Change := .command volumeName (columns [("shelf", .text "A")]) none

theorem batch_verdicts :
    Change.decode (some catalog) batch = .ok [keyless, erased, shelved, moved] ∧
      keyless.validate catalog = .error (.row (.missingKey "entry")) ∧ erased.validate catalog = .ok () ∧
      shelved.validate catalog = .error (.readOnly "volume") ∧ moved.validate catalog = .ok () := by
  have read : Change.decode (some catalog) batch = .ok [keyless, erased, shelved, moved] := by decide +kernel
  have entries : catalog.entities["entry"]? = some entry := rfl
  have volumes : catalog.entities["volume"]? = some volume := rfl
  refine ⟨read, ?_, ?_, ?_, ?_⟩
  · obtain ⟨_, registered, -, refused, -⟩ := Change.decode_verdict read (show keyless ∈ _ by simp)
    cases entries.symm.trans registered
    refine refused entryName _ rfl rfl ?_
    rintro ⟨value, held, -⟩
    simpa [entry] using mem_of_getElem?_ofList held
  · obtain ⟨_, registered, -, -, accepted⟩ := Change.decode_verdict read (show erased ∈ _ by simp)
    cases entries.symm.trans registered
    exact accepted (fun _ => rfl) (by simp [erased])
  · obtain ⟨_, registered, refused, -⟩ := Change.decode_verdict read (show shelved ∈ _ by simp)
    cases volumes.symm.trans registered
    exact refused rfl rfl
  · obtain ⟨_, registered, -, -, accepted⟩ := Change.decode_verdict read (show moved ∈ _ by simp)
    cases volumes.symm.trans registered
    exact accepted (by simp [moved, Change.isDataChange, Change.kind]) (by simp [moved])

end Archive
end EntityGraph
