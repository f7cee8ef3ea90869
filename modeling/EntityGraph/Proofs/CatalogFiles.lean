import EntityGraph.Catalog
import EntityGraph.Proofs.Schedule
import EntityGraph.Proofs.Texts

/-! # Catalog files

A catalog that was read from a file is read back from the file that is written of it. Records are written
with distinct names, so that an entry is found under its name wherever it stands and one that was left out
stays left out; defaults are scalars of the exchange format; and definitions that were accepted in one order
are accepted in the order of their names. -/
namespace EntityGraph

/-- Reading the elements of a list in turn. -/
theorem mapM_eq_some_iff {α β : Type} {f : α → Option β} {as : List α} {bs : List β} :
    as.mapM f = some bs ↔ List.Forall₂ (fun a b => f a = some b) as bs := by
  induction as generalizing bs with
  | nil => cases bs <;> simp
  | cons a as ih =>
    simp only [List.mapM_cons, Option.bind_eq_bind, Option.bind_eq_some_iff, Option.pure_def,
      Option.some.injEq, ih]
    constructor
    · rintro ⟨b, read, rest, others, rfl⟩
      exact .cons read others
    · rintro (_ | ⟨read, others⟩)
      exact ⟨_, read, _, others, rfl⟩

namespace Json.Document
variable {document : Document} {members : List (Quoted × Document)} {entries : List (String × Json)}
  {slot : Option Document}

/-- Members with evaluated keys. -/
theorem keys_of_writes (each : List.Forall₂ WritesMember members entries) :
    ∃ keyed : List (String × Document),
      members.mapM (fun member => do return ((← member.1.eval?), member.2)) = some keyed ∧
        List.Forall₂ (fun member entry => member.1 = entry.1 ∧ Writes member.2 entry.2) keyed entries := by
  simp only [mapM_eq_some_iff]
  induction each with
  | nil => exact ⟨[], .nil, .nil⟩
  | cons writes _ ih =>
    obtain ⟨keyed, read, related⟩ := ih
    cases writes with
    | @intro key name document value evaluated writes =>
      exact ⟨(name, document) :: keyed, .cons (by simp [evaluated]) read, .cons ⟨rfl, writes⟩ related⟩

/-- Where keys do not repeat, an entry is found under its name, and none where there is none. -/
theorem filter_of_keyed {keyed : List (String × Document)} (distinct : (entries.map Prod.fst).Nodup)
    (each : List.Forall₂ (fun member entry => member.1 = entry.1 ∧ Writes member.2 entry.2) keyed entries)
    (name : String) :
    (keyed.filter (fun member => member.1 == name) = [] ∧ Json.get? entries name = none) ∨
      ∃ document value, keyed.filter (fun member => member.1 == name) = [(name, document)] ∧
        Json.get? entries name = some value ∧ Writes document value := by
  induction each with
  | nil => exact .inl ⟨rfl, rfl⟩
  | @cons member entry keyed entries related _ ih =>
    obtain ⟨key, document⟩ := member
    obtain ⟨_, value⟩ := entry
    obtain ⟨rfl, writes⟩ := related
    obtain ⟨fresh, distinct⟩ := List.nodup_cons.1 distinct
    have rest := ih distinct
    by_cases here : key = name
    · subst here
      rcases rest with ⟨empty, -⟩ | ⟨_, other, -, found, -⟩
      · exact .inr ⟨document, value, by simp [empty], by simp [Json.get?], writes⟩
      · obtain ⟨before, after, split, -⟩ := List.lookup_eq_some_iff.1 found
        simp [split] at fresh
    · have elsewhere : (name == key) = false := by simpa using Ne.symm here
      simpa [here, Json.get?, List.lookup_cons, elsewhere] using rest

/-- The entries of a written record, each a writing of the value under its name. -/
theorem record?_of_writes (writes : Writes document (.object entries)) (distinct : (entries.map Prod.fst).Nodup)
    (names : List String) :
    ∃ slots, document.record? names = some slots ∧
      List.Forall₂ (fun written slot => Option.Rel Writes slot written)
        (names.map (Json.get? entries)) slots := by
  cases writes with
  | @object members _ each =>
    obtain ⟨keyed, read, related⟩ := keys_of_writes each
    simp only [record?, entries?, read]
    simp only [Option.bind_eq_bind, Option.bind_some, mapM_eq_some_iff, List.forall₂_map_left_iff]
    suffices each : ∃ slots, List.Forall₂ (fun name slot => _ ∧ _) names slots from
      each.imp fun _ both => ⟨both.imp fun _ _ => And.left, both.imp fun _ _ => And.right⟩
    refine exists_forall₂_iff.2 fun name _ => ?_
    rcases filter_of_keyed distinct related name with ⟨empty, absent⟩ | ⟨document, value, one, found, writes⟩
    · exact ⟨none, by simp [empty], by simp [absent]⟩
    · exact ⟨some document, by simp [one], by simpa [found] using Option.Rel.some writes⟩

theorem string?_of_writes {s : String} (writes : Writes document (.string s)) : document.string? = some s := by
  cases writes with
  | string read => exact read

theorem bool?_of_writes {b : Bool} (writes : Writes document (.bool b)) : document.bool? = some b := by
  cases writes
  rfl

theorem entityName?_of_writes {name : EntityName} (writes : Writes document (.string name.text)) :
    document.entityName? = some name := by
  simp [entityName?, string?_of_writes writes, EntityName.ofString_text, Except.toOption]

theorem dataType?_of_writes {type : DataType} (writes : Writes document (.string type.name)) :
    document.dataType? = some type := by
  cases writes with
  | string read =>
    simp only [dataType?, read, Option.bind_eq_bind, Option.bind_some]
    cases type <;> decide

theorem list?_of_writes {α : Type} {read : Document → Option α} {toJson : α → Json} {as : List α}
    (each : ∀ a ∈ as, ∀ document, Writes document (toJson a) → read document = some a)
    (writes : Writes document (.array (as.map toJson))) : document.list? read = some as := by
  cases writes with
  | array items =>
    rw [list?, mapM_eq_some_iff]
    rw [List.forall₂_map_right_iff] at items
    induction items with
    | nil => exact .nil
    | cons writes _ ih =>
      exact .cons (each _ (by simp) _ writes) (ih fun a member => each a (by simp [member]))

/-- An element of a list was read from an item. -/
theorem exists_of_list? {α : Type} {read : Document → Option α} {as : List α}
    (listed : document.list? read = some as) {a : α} (member : a ∈ as) : ∃ item, read item = some a := by
  unfold list? at listed
  split at listed
  · obtain ⟨item, -, found⟩ := exists_mem_of_forall₂ (mapM_eq_some_iff.1 listed).flip member
    exact ⟨item, found⟩
  · cases listed

/-- A scalar is evaluated at any depth. -/
theorem eval?_of_writes {j : Json} {value : Value} {depth : Nat} (writes : Writes document j)
    (scalar : Value.ofJson? j = some value) : document.eval? depth = some j := by
  cases writes with
  | null | bool => rfl
  | number read => simp [eval?, read]
  | string read => simp [eval?, read]
  | array | object => cases scalar

end Json.Document

namespace Json.Document
variable {document : Document} {slot : Option Document} {value : Value}

theorem value?_of_writes (plain : value.Plain) (writes : Writes document value.toJson) :
    document.value? = some value := by
  simp only [value?, eval?_of_writes writes plain, Option.bind_eq_bind, Option.bind_some]
  exact plain

theorem plain_of_value? (read : document.value? = some value) : value.Plain := by
  obtain ⟨raw, -, read⟩ := Option.bind_eq_some_iff.1 read
  exact Value.plain_of_ofJson? read

/-- No document but null is read as null. -/
theorem ne_null_of_value? (read : document.value? = some value) (present : document ≠ .null) : value ≠ .null := by
  rintro rfl
  obtain ⟨raw, evaluated, read⟩ := Option.bind_eq_some_iff.1 read
  cases (Value.isNull_of_ofJson? read).1 rfl
  cases document with
  | null => exact present rfl
  | bool => cases evaluated
  | numeral | string | array | object => simp [eval?, ofMembers] at evaluated

theorem optional_of_writes {α : Type} {read : Document → Option α} {absent a : α} {written : Option Json}
    (related : Option.Rel Writes slot written)
    (given : ∀ document j, written = some j → Writes document j → read document = some a)
    (left : written = none → absent = a) : optional read absent slot = some a := by
  cases related with
  | none => rw [optional, left rfl]
  | some writes => exact given _ _ rfl writes

theorem optional_string? {text : Option String} (related : Option.Rel Writes slot (text.map Json.string)) :
    optional (nullable? string?) none slot = some text := by
  refine optional_of_writes related ?_ (by simp [eq_comm])
  intro document j written writes
  obtain ⟨s, rfl, rfl⟩ := Option.map_eq_some_iff.1 written
  cases writes with
  | string read => simp [nullable?, string?, read]

theorem optional_default {default : Option Value} (related : Option.Rel Writes slot (default.map Value.toJson))
    (plain : ∀ value, default = some value → value ≠ .null ∧ value.Plain) :
    optional (nullable? value?) none slot = some default := by
  refine optional_of_writes related ?_ (by simp [eq_comm])
  intro document j written writes
  obtain ⟨value, rfl, rfl⟩ := Option.map_eq_some_iff.1 written
  obtain ⟨present, plain⟩ := plain value rfl
  have read := value?_of_writes plain writes
  unfold nullable?
  split
  · cases read
    exact absurd rfl present
  · rw [read]
    rfl

/-- A default that is read is not null: null stands for none. -/
theorem plain_of_optional {default : Option Value}
    (read : optional (nullable? value?) none slot = some default) :
    ∀ value, default = some value → value ≠ .null ∧ value.Plain := by
  rintro value rfl
  cases slot with
  | none => cases read
  | some document =>
    simp only [optional, nullable?] at read
    split at read
    · cases read
    · next present =>
      obtain ⟨_, read, same⟩ := Option.map_eq_some_iff.1 read
      cases same
      exact ⟨ne_null_of_value? read present, plain_of_value? read⟩

theorem optional_list? {α : Type} {read : Document → Option α} {toJson : α → Json} {as : List α}
    (related : Option.Rel Writes slot (if as.isEmpty then none else some (.array (as.map toJson))))
    (each : ∀ a ∈ as, ∀ document, Writes document (toJson a) → read document = some a) :
    optional (list? read) [] slot = some as := by
  refine optional_of_writes related ?_ ?_
  · intro document j written writes
    split_ifs at written
    cases written
    exact list?_of_writes each writes
  · cases as <;> simp

end Json.Document

open Json.Document

namespace Field
variable {document : Json.Document} {field : Field}

/-- A default that is there is not null, and is a scalar of the exchange format. -/
def Plain (field : Field) : Prop :=
  ∀ value, field.default = some value → value ≠ .null ∧ value.Plain

/-- Each entry of a field under its name. -/
theorem toJson_entries (field : Field) : ∃ entries, field.toJson = .object entries ∧
    (entries.map Prod.fst).Nodup ∧
    ["name", "type", "required", "default", "description"].map (Json.get? entries) =
      [some (.string field.name), some (.string field.type.name), some (.bool field.required),
        field.default.map Value.toJson, field.description.map Json.string] := by
  refine ⟨_, rfl, ?_, ?_⟩ <;> cases field.default <;> cases field.description <;>
    simp [Json.get?, List.lookup_cons]

theorem plain_of_ofDocument? (read : ofDocument? document = some field) : field.Plain := by
  obtain ⟨slots, -, read⟩ := Option.bind_eq_some_iff.1 read
  split at read
  · simp only [Option.bind_eq_bind, Option.bind_eq_some_iff, Option.some.injEq] at read
    obtain ⟨name, -, type, -, required, -, default, readDefault, description, -, rfl⟩ := read
    exact plain_of_optional readDefault
  · cases read

theorem ofDocument?_of_writes (plain : field.Plain) (writes : document.Writes field.toJson) :
    ofDocument? document = some field := by
  obtain ⟨entries, written, distinct, found⟩ := field.toJson_entries
  obtain ⟨slots, read, related⟩ := record?_of_writes (written ▸ writes) distinct
    ["name", "type", "required", "default", "description"]
  rw [found] at related
  rcases related with
    _ | ⟨⟨name⟩, _ | ⟨⟨type⟩, _ | ⟨⟨required⟩, _ | ⟨default, _ | ⟨description, _ | _⟩⟩⟩⟩⟩
  have given : Json.Document.optional bool? false (some _) = some field.required := bool?_of_writes required
  simp [ofDocument?, read, string?_of_writes name, dataType?_of_writes type, given,
    optional_default default plain, optional_string? description]

end Field

namespace Relationship
variable {document : Json.Document} {relationship : Relationship}

theorem toJson_entries (relationship : Relationship) : ∃ entries, relationship.toJson = .object entries ∧
    (entries.map Prod.fst).Nodup ∧
    ["name", "field", "target", "inverse"].map (Json.get? entries) =
      [some (.string relationship.name), some (.string relationship.field),
        some (.string relationship.target.text), relationship.inverse.map Json.string] := by
  refine ⟨_, rfl, ?_, ?_⟩ <;> cases relationship.inverse <;> simp [Json.get?, List.lookup_cons]

theorem ofDocument?_of_writes (writes : document.Writes relationship.toJson) :
    ofDocument? document = some relationship := by
  obtain ⟨entries, written, distinct, found⟩ := relationship.toJson_entries
  obtain ⟨slots, read, related⟩ := record?_of_writes (written ▸ writes) distinct
    ["name", "field", "target", "inverse"]
  rw [found] at related
  rcases related with _ | ⟨⟨name⟩, _ | ⟨⟨field⟩, _ | ⟨⟨target⟩, _ | ⟨inverse, _ | _⟩⟩⟩⟩
  simp [ofDocument?, read, string?_of_writes name, string?_of_writes field, entityName?_of_writes target,
    optional_string? inverse]

end Relationship

namespace Parameter
variable {document : Json.Document} {parameter : Parameter}

theorem toJson_entries (parameter : Parameter) : ∃ entries, parameter.toJson = .object entries ∧
    (entries.map Prod.fst).Nodup ∧
    ["name", "type", "default", "field"].map (Json.get? entries) =
      [some (.string parameter.name), some (.string parameter.type.name), some parameter.default.toJson,
        parameter.field.map Json.string] := by
  refine ⟨_, rfl, ?_, ?_⟩ <;> cases parameter.field <;> simp [Json.get?, List.lookup_cons]

theorem plain_of_ofDocument? (read : ofDocument? document = some parameter) : parameter.default.Plain := by
  obtain ⟨slots, -, read⟩ := Option.bind_eq_some_iff.1 read
  split at read
  · next _ _ slot _ =>
    simp only [Option.bind_eq_bind, Option.bind_eq_some_iff, Option.some.injEq] at read
    obtain ⟨name, -, type, -, default, readDefault, field, -, rfl⟩ := read
    cases slot with
    | none =>
      cases readDefault
      rfl
    | some document => exact plain_of_value? readDefault
  · cases read

theorem ofDocument?_of_writes (plain : parameter.default.Plain) (writes : document.Writes parameter.toJson) :
    ofDocument? document = some parameter := by
  obtain ⟨entries, written, distinct, found⟩ := parameter.toJson_entries
  obtain ⟨slots, read, related⟩ := record?_of_writes (written ▸ writes) distinct
    ["name", "type", "default", "field"]
  rw [found] at related
  rcases related with _ | ⟨⟨name⟩, _ | ⟨⟨type⟩, _ | ⟨⟨default⟩, _ | ⟨field, _ | _⟩⟩⟩⟩
  have given : Json.Document.optional value? .null (some _) = some parameter.default :=
    value?_of_writes plain default
  simp [ofDocument?, read, string?_of_writes name, dataType?_of_writes type, given, optional_string? field]

end Parameter

namespace Definition
variable {document : Json.Document} {definition : Definition}

/-- A definition whose defaults are scalars of the exchange format. -/
structure Plain (definition : Definition) : Prop where
  fields : ∀ field ∈ definition.fields, field.Plain
  parameters : ∀ parameter ∈ definition.parameters, parameter.default.Plain

theorem toJson_entries (definition : Definition) : ∃ entries, definition.toJson = .object entries ∧
    (entries.map Prod.fst).Nodup ∧
    ["name", "key", "fields", "relationships", "parameters", "read_only", "description"].map
        (Json.get? entries) =
      [some (.string definition.name.text), some (.string definition.key),
        some (.array (definition.fields.map Field.toJson)),
        if definition.relationships.isEmpty then none
        else some (.array (definition.relationships.map Relationship.toJson)),
        if definition.parameters.isEmpty then none
        else some (.array (definition.parameters.map Parameter.toJson)),
        some (.bool definition.readOnly), definition.description.map Json.string] := by
  refine ⟨_, rfl, ?_, ?_⟩ <;> cases definition.relationships <;> cases definition.parameters <;>
    cases definition.description <;> simp [Json.get?, List.lookup_cons]

theorem plain_of_ofDocument? (read : ofDocument? document = some definition) : definition.Plain := by
  obtain ⟨slots, -, read⟩ := Option.bind_eq_some_iff.1 read
  split at read
  · next _ _ fieldsSlot _ parametersSlot _ _ =>
    simp only [Option.bind_eq_bind, Option.bind_eq_some_iff, Option.some.injEq] at read
    obtain ⟨name, -, key, -, fields, readFields, relationships, -, parameters, readParameters, readOnly, -,
      description, -, rfl⟩ := read
    constructor
    · intro field member
      obtain ⟨item, found⟩ := exists_of_list? readFields member
      exact Field.plain_of_ofDocument? found
    · intro parameter member
      cases parametersSlot with
      | none =>
        cases readParameters
        cases member
      | some document =>
        obtain ⟨item, found⟩ := exists_of_list? readParameters member
        exact Parameter.plain_of_ofDocument? found
  · cases read

theorem ofDocument?_of_writes (plain : definition.Plain) (writes : document.Writes definition.toJson) :
    ofDocument? document = some definition := by
  obtain ⟨entries, written, distinct, found⟩ := definition.toJson_entries
  obtain ⟨slots, read, related⟩ := record?_of_writes (written ▸ writes) distinct
    ["name", "key", "fields", "relationships", "parameters", "read_only", "description"]
  rw [found] at related
  rcases related with _ | ⟨⟨name⟩, _ | ⟨⟨key⟩, _ | ⟨⟨fields⟩, _ | ⟨relationships, _ | ⟨parameters,
    _ | ⟨⟨readOnly⟩, _ | ⟨description, _ | _⟩⟩⟩⟩⟩⟩⟩
  have readFields := list?_of_writes
    (fun field member _ => Field.ofDocument?_of_writes (plain.fields field member)) fields
  have readRelationships := optional_list? relationships fun _ _ _ => Relationship.ofDocument?_of_writes
  have readParameters := optional_list? parameters fun parameter member _ =>
    Parameter.ofDocument?_of_writes (plain.parameters parameter member)
  have given : Json.Document.optional bool? false (some _) = some definition.readOnly :=
    bool?_of_writes readOnly
  simp [ofDocument?, read, entityName?_of_writes name, string?_of_writes key, readFields, readRelationships,
    readParameters, given, optional_string? description]

theorem plain_of_readAll? {text : String} {definitions : List Definition}
    (read : readAll? text = some definitions) (member : definition ∈ definitions) : definition.Plain := by
  obtain ⟨document, -, listed⟩ := Option.bind_eq_some_iff.1 read
  obtain ⟨item, found⟩ := exists_of_list? listed member
  exact plain_of_ofDocument? found

/-- Definitions are read back from the text that is written of them. -/
theorem readAll?_text {definitions : List Definition} (plain : ∀ definition ∈ definitions, definition.Plain) :
    readAll? (String.ofList ((Json.array (definitions.map toJson)).indented 0)) = some definitions := by
  obtain ⟨document, read, writes⟩ := Json.read?_indented (.array (definitions.map toJson))
  simp only [readAll?, read, Option.bind_eq_bind, Option.bind_some]
  exact list?_of_writes (fun definition member _ => ofDocument?_of_writes (plain definition member)) writes

end Definition

namespace Catalog
variable {catalog current : Catalog} {definition : Definition} {definitions : List Definition}

theorem eq_of_entities (same : current.entities = catalog.entities) : current = catalog := by
  cases current
  cases catalog
  cases same
  rfl

/-- A valid definition can be put under its name. -/
theorem exists_insert (valid : definition.validate = .ok ()) : ∃ current : Catalog,
    current.entities = catalog.entities.insert definition.name.text definition := by
  refine ⟨⟨catalog.entities.insert definition.name.text definition, fun name other found => ?_⟩, rfl⟩
  rw [Std.ExtTreeMap.getElem?_insert] at found
  split_ifs at found with same
  · cases found
    exact ⟨Std.LawfulEqOrd.eq_of_compare same, valid⟩
  · exact catalog.registered name other found

theorem register_eq_ok_iff : catalog.register definition = .ok current ↔
    definition.validate = .ok () ∧ definition.name.text ∉ catalog.entities ∧
      current.entities = catalog.entities.insert definition.name.text definition := by
  unfold register
  split
  · next refused => simp [refused]
  · next valid =>
    simp only [contains, Std.ExtTreeMap.contains_iff_mem, valid, true_and]
    split_ifs with taken
    · simp [taken]
    · simp only [Except.ok.injEq, taken, not_false_eq_true, true_and]
      exact ⟨fun same => same ▸ rfl, fun same => (eq_of_entities same).symm⟩

/-- What a catalog holds after some definitions were registered. -/
theorem entities_of_registerAll (registered : catalog.registerAll definitions = .ok current) {name : String}
    (found : current.entities[name]? = some definition) :
    definition ∈ definitions ∨ catalog.entities[name]? = some definition := by
  induction definitions generalizing catalog with
  | nil =>
    cases registered
    exact .inr found
  | cons first definitions ih =>
    obtain ⟨next, registered, rest⟩ := bind_eq_ok_iff.1 registered
    obtain ⟨-, -, grown⟩ := register_eq_ok_iff.1 registered
    rcases ih rest with later | earlier
    · exact .inl (List.mem_cons_of_mem _ later)
    · rw [grown, Std.ExtTreeMap.getElem?_insert] at earlier
      split_ifs at earlier
      · cases earlier
        exact .inl List.mem_cons_self
      · exact .inr earlier

/-- Valid definitions of new and distinct names are registered. -/
theorem registerAll_eq_ok (valid : ∀ definition ∈ definitions, definition.validate = .ok ())
    (distinct : (definitions.map fun definition => definition.name.text).Nodup)
    (fresh : ∀ definition ∈ definitions, definition.name.text ∉ catalog.entities)
    (same : current.entities =
      catalog.entities.insertMany (definitions.map fun definition => (definition.name.text, definition))) :
    catalog.registerAll definitions = .ok current := by
  induction definitions generalizing catalog with
  | nil =>
    have unchanged : catalog = current := eq_of_entities (by simpa using same.symm)
    rw [registerAll, unchanged]
  | cons first definitions ih =>
    obtain ⟨absent, distinct⟩ := List.nodup_cons.1 distinct
    obtain ⟨firstValid, valid⟩ := List.forall_mem_cons.1 valid
    obtain ⟨firstFresh, fresh⟩ := List.forall_mem_cons.1 fresh
    obtain ⟨next, grown⟩ := exists_insert firstValid
    refine bind_eq_ok_iff.2
      ⟨next, register_eq_ok_iff.2 ⟨firstValid, firstFresh, grown⟩, ih valid distinct ?_ ?_⟩
    · intro definition member
      have differs : first.name.text ≠ definition.name.text :=
        fun same => absent (List.mem_map.2 ⟨definition, member, same.symm⟩)
      simp [grown, differs, fresh definition member]
    · rw [same, grown, List.map_cons, Std.ExtTreeMap.insertMany_cons]

/-- The definitions of a catalog under their names are its entries. -/
theorem definitions_map (catalog : Catalog) :
    (catalog.definitions.map fun definition => (definition.name.text, definition)) =
      catalog.entities.toList := by
  rw [definitions, values_eq, List.map_map]
  conv_rhs => rw [← List.map_id catalog.entities.toList]
  refine List.map_congr_left fun entry member => ?_
  obtain ⟨named, -⟩ := catalog.registered _ _ (Std.ExtTreeMap.mem_toList_iff_getElem?_eq_some.1 member)
  exact Prod.ext named rfl

/-- A catalog is registered again from its definitions in the order of their names. -/
theorem registerAll_definitions (catalog : Catalog) : empty.registerAll catalog.definitions = .ok catalog := by
  refine registerAll_eq_ok ?_ ?_ ?_ ?_
  · exact fun definition member => (catalog.registered _ _ (mem_definitions.1 member)).2
  · exact definitions_distinct catalog
  · simp [empty]
  · rw [definitions_map, empty, ← Std.ExtTreeMap.ofList_eq_insertMany_empty, ofList_toList]

/-- A catalog that was read from a text is read back, the very same, from the text that is written of it. -/
theorem ofJson_toJson {text : String} (read : ofJson text = .ok catalog) :
    ofJson catalog.toJson = .ok catalog := by
  unfold ofJson at read
  split at read
  · cases read
  · next definitions written =>
    obtain ⟨registered, registers, read⟩ := bind_eq_ok_iff.1 read
    obtain ⟨valid, same⟩ := check_eq_ok_iff.1 read
    cases pure_eq_ok_iff.1 same
    have plain : ∀ definition ∈ catalog.definitions, definition.Plain := by
      intro definition member
      rcases entities_of_registerAll registers (mem_definitions.1 member) with listed | none
      · exact Definition.plain_of_readAll? written listed
      · simp [empty] at none
    unfold ofJson toJson
    rw [Definition.readAll?_text plain]
    simp only [registerAll_definitions]
    exact check_eq_ok_iff.2 ⟨valid, rfl⟩

end Catalog

namespace Rates

/-- A catalog of one entity, its records written as arrays. One default is an integer too long for a signed
word, another has an exponent. -/
def text : String :=
  r#"[["rate", "id", [["id", "integer", true], ["share", "float", false, 18446744073709551615]], [],
    [["least", "float", 1e-7, "share"]]]]"#

def rateName : EntityName := ⟨"rate", by decide +kernel⟩

/-- The entity of the catalog. The long integer is taken as a number with a fraction. -/
def rate : Definition where
  name := rateName
  key := "id"
  fields := [⟨"id", .integer, true, none, none⟩,
    ⟨"share", .float, false, some (.float (.ofInt 18446744073709551615)), none⟩]
  relationships := []
  parameters := [⟨"least", .float, .float (Decimal.toDouble false ⟨1, -7⟩), some "share"⟩]
  readOnly := false
  description := none

theorem text_read_back : ∃ catalog, Catalog.ofJson text = .ok catalog ∧ catalog.definitions = [rate] ∧
    Catalog.ofJson catalog.toJson = .ok catalog := by
  have accepted : (Catalog.ofJson text).toOption.map Catalog.definitions = some [rate] := by
    decide +kernel
  obtain ⟨catalog, read, definitions⟩ := Option.map_eq_some_iff.1 accepted
  rw [toOption_eq_some_iff] at read
  exact ⟨catalog, read, definitions, Catalog.ofJson_toJson read⟩

end Rates
end EntityGraph
